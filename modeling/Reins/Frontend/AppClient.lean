import Mathlib
import Reins.Lib.Places
import Reins.Lib.Run

/-!
# The browser's socket (`frontend/src/models/ws-client.ts`)

`AppClient` with its sockets and its timers. A socket's events come as the browser fires them: none but `close`
once the socket is closing. A connection listener may call the client back, and what it calls comes with the
event that tells it. The server sends a message on some of the sockets there are, each at most once.
-/

open Places List Option Run

namespace Reins.AppClient

inductive ReadyState
  | connecting
  | open
  | closing
  | closed
  deriving DecidableEq

inductive Frame
  | pong
  | malformed
  | message (n : Nat)
  deriving DecidableEq

structure Socket where
  readyState : ReadyState
  /-- Its `onclose` is set; its other handlers always are. -/
  onclose : Bool
  /-- What was sent on it and it has not been given. -/
  queue : List Frame
  deriving DecidableEq

structure State where
  sockets : List Socket
  ws : Option Nat
  reconnectTimer : Option Nat
  reconnectDelay : ℚ
  connected : Bool
  heartbeatInterval : Option Nat
  heartbeatTimeout : Option Nat
  /-- The timers that are set: neither fired, unless they fire again, nor cleared. -/
  reconnects : List (Nat × ℚ)
  intervals : List Nat
  timeouts : List Nat
  nextTimer : Nat
  sent : Nat
  published : List Nat
  /-- No `connect` was called since the last `disconnect`. -/
  off : Bool
  /-- How many sockets were created while it was so. -/
  unasked : Nat

/-! ## `AppClient` -/

def maxReconnectDelay : ℚ := 10000

def State.setSocket (s : State) (i : Nat) (k : Socket) : State := { s with sockets := s.sockets.set i k }

def Socket.close (k : Socket) : Socket :=
  match k.readyState with
  | .connecting | .open => { k with readyState := .closing }
  | .closing | .closed => k

def State.closeSocket (s : State) (i : Nat) : State :=
  match s.sockets[i]? with
  | some k => s.setSocket i k.close
  | none => s

def State.createSocket (s : State) : State :=
  { s with
    sockets := s.sockets ++ [⟨.connecting, true, []⟩]
    ws := some s.sockets.length
    unasked := if s.off then s.unasked + 1 else s.unasked }

def State.connect (s : State) : State :=
  let s := { s with off := false }
  if s.ws.isSome then s else s.createSocket

def State.clearHeartbeatTimeout (s : State) : State :=
  { s with timeouts := s.timeouts.filter (s.heartbeatTimeout ≠ some ·), heartbeatTimeout := none }

def State.stopHeartbeat (s : State) : State :=
  { s with intervals := s.intervals.filter (s.heartbeatInterval ≠ some ·), heartbeatInterval := none }.clearHeartbeatTimeout

def State.startHeartbeat (s : State) : State :=
  let s := s.stopHeartbeat
  { s with
    intervals := s.intervals ++ [s.nextTimer], heartbeatInterval := some s.nextTimer, nextTimer := s.nextTimer + 1 }

def State.clearReconnect (s : State) : State :=
  { s with reconnects := s.reconnects.filter (s.reconnectTimer ≠ some ·.1), reconnectTimer := none }

def State.scheduleReconnect (s : State) : State :=
  if s.reconnectTimer.isSome then s
  else
    { s with
      reconnects := s.reconnects ++ [(s.nextTimer, s.reconnectDelay)]
      reconnectTimer := some s.nextTimer
      nextTimer := s.nextTimer + 1
      reconnectDelay := min (s.reconnectDelay * (3 / 2)) maxReconnectDelay }

def State.stopTimers (s : State) : State := { s with off := true }.clearReconnect.stopHeartbeat

/-- `disconnect`, up to `setConnected`. -/
def State.giveUp (s : State) : State :=
  match s.ws.bind fun i => s.sockets[i]?.map (i, ·) with
  | some (i, k) => { s.stopTimers.setSocket i { k with onclose := false }.close with ws := none }
  | none => s.stopTimers

mutual

inductive Call
  | connect
  | disconnect (listeners : Calls)

inductive Calls
  | nil
  | cons (call : Call) (calls : Calls)

end

mutual

def Call.run : Call → State → State
  | .connect, s => s.connect
  | .disconnect listeners, s =>
    let s := s.giveUp
    if s.connected then listeners.run { s with connected := false } else s

def Calls.run : Calls → State → State
  | .nil, s => s
  | .cons call calls, s => calls.run (call.run s)

end

def State.setConnected (s : State) (value : Bool) (listeners : Calls) : State :=
  if s.connected = value then s else listeners.run { s with connected := value }

def State.lost (s : State) (i : Nat) (k : Socket) : State :=
  ({ s.setSocket i { k with readyState := .closed } with ws := none } : State).stopHeartbeat

def State.handleMessage (s : State) : Frame → State
  | .pong => s.clearHeartbeatTimeout
  | .malformed => s
  | .message n => { s with published := s.published ++ [n] }

/-! ## Events -/

inductive Event
  | call (call : Call)
  | opened (i : Nat) (listeners : Calls)
  | message (i : Nat)
  /-- It begins to close: the server closes it, or it fails. -/
  | closing (i : Nat)
  | closed (i : Nat) (listeners : Calls)
  | error (i : Nat)
  | reconnect (timer : Nat)
  | heartbeat (timer : Nat)
  | timeout (timer : Nat)
  /-- The server sends a message on these sockets. -/
  | broadcast (receivers : List Nat)
  | reply (i : Nat) (pong : Bool)

def Socket.send (k : Socket) (f : Frame) : Socket := { k with queue := k.queue ++ [f] }

def step (s : State) : Event → State
  | .call call => call.run s
  | .opened i listeners =>
    match s.sockets[i]? with
    | some k =>
      if k.readyState = .connecting then
        (({ s.setSocket i { k with readyState := .open } with reconnectDelay := 1000 } : State).setConnected true
          listeners).startHeartbeat
      else s
    | none => s
  | .message i =>
    match s.sockets[i]? with
    | some ⟨.open, onclose, frame :: queue⟩ => (s.setSocket i ⟨.open, onclose, queue⟩).handleMessage frame
    | _ => s
  | .closing i => s.closeSocket i
  | .closed i listeners =>
    match s.sockets[i]? with
    | some k =>
      if k.readyState = .closed then s
      else if k.onclose then ((s.lost i k).setConnected false listeners).scheduleReconnect
      else s.setSocket i { k with readyState := .closed }
    | none => s
  | .error _ => s
  | .reconnect timer =>
    if timer ∈ s.reconnects.map (·.1) then
      { s with reconnects := s.reconnects.filter (·.1 ≠ timer), reconnectTimer := none }.createSocket
    else s
  | .heartbeat timer =>
    if timer ∈ s.intervals ∧ (s.ws.bind (s.sockets[·]?)).any (·.readyState = .open) then
      { s with
        timeouts := s.timeouts ++ [s.nextTimer], heartbeatTimeout := some s.nextTimer, nextTimer := s.nextTimer + 1 }
    else s
  | .timeout timer =>
    if timer ∈ s.timeouts then
      let s := { s with timeouts := s.timeouts.filter (· ≠ timer) }
      match s.ws with
      | some i => s.closeSocket i
      | none => s
    else s
  | .broadcast receivers =>
    { s with
      sockets := s.sockets.mapIdx fun i k => if i ∈ receivers then k.send (.message s.sent) else k
      sent := s.sent + 1 }
  | .reply i pong =>
    match s.sockets[i]? with
    | some k => s.setSocket i (k.send (if pong then .pong else .malformed))
    | none => s

def init : State := ⟨[], none, none, 1000, false, none, none, [], [], [], 0, 0, [], true, 0⟩

/-! ## What is to hold -/

def Socket.live (k : Socket) : Bool := k.onclose && k.readyState ≠ .closed

def State.Live (s : State) (i : Nat) : Prop := ∃ k, s.sockets[i]? = some k ∧ k.live

structure OneSocket (s : State) : Prop where
  one : ∀ i j, s.Live i → s.Live j → i = j
  timers : s.reconnects.length ≤ 1
  wait : s.reconnects ≠ [] → ∀ i, ¬ s.Live i
  /-- After `disconnect` there is no socket and none will be created. -/
  off : s.off → s.reconnects = [] ∧ ∀ i, ¬ s.Live i
  unasked : s.unasked = 0

structure OneNotClosed (s : State) : Prop where
  one : ∀ (i j : Nat) (k k' : Socket), s.sockets[i]? = some k → s.sockets[j]? = some k' → k.readyState ≠ .closed →
    k'.readyState ≠ .closed → i = j
  wait : s.reconnects ≠ [] → ∀ k ∈ s.sockets, k.readyState = .closed

/-! ## Where it does -/

/-- `connect` is not called while the client waits to reconnect, and no listener calls it back while it is told
that a socket closed. -/
def Proper (s : State) : Event → Prop
  | .call .connect => s.reconnectTimer = none
  | .closed i listeners => s.Live i → s.connected → listeners = .nil
  | _ => True

mutual

def Call.connects : Call → Bool
  | .connect => true
  | .disconnect listeners => listeners.connects

def Calls.connects : Calls → Bool
  | .nil => false
  | .cons call calls => call.connects || calls.connects

end

def Drained (s : State) : Event → Prop
  | .call .connect => s.ws = none → ∀ k ∈ s.sockets, k.readyState = .closed
  | .call (.disconnect listeners) | .opened _ listeners | .closed _ listeners => listeners.connects = false
  | _ => True

/-! ## One socket -/

structure Inv (s : State) : Prop where
  ws : ∀ i, s.ws = some i ↔ s.Live i
  timers : s.reconnects.map (·.1) = s.reconnectTimer.toList
  wait : s.reconnectTimer.isSome → s.ws = none
  off : s.off → s.ws = none ∧ s.reconnectTimer = none
  unasked : s.unasked = 0
  released : ∀ k ∈ s.sockets, k.onclose = false → k.readyState = .closing ∨ k.readyState = .closed

section

variable {s s' : State} {i : Nat} {k k' : Socket}

theorem live_iff (hk : s.sockets[i]? = some k) : s.Live i ↔ k.live := by
  constructor
  · rintro ⟨k', hk', hlive⟩
    cases hk.symm.trans hk'
    exact hlive
  · exact fun hlive => ⟨k, hk, hlive⟩

theorem live_set (hk : s.sockets[i]? = some k) (k' : Socket) (j : Nat) :
    (s.setSocket i k').Live j ↔ if i = j then k'.live = true else s.Live j := by
  unfold State.Live State.setSocket
  simp only
  split
  next hij =>
    subst hij
    simp [getElem?_set_self (lt_of_getElem? hk)]
  next hij =>
    rw [getElem?_set_ne hij]

/-- Where no socket's life changes, no more than a socket's queue and its way to close. -/
theorem Inv.setSocket (h : Inv s) (hk : s.sockets[i]? = some k) (k' : Socket) (hlive : k'.live = k.live)
    (hreleased : k'.onclose = false → k'.readyState = .closing ∨ k'.readyState = .closed) : Inv (s.setSocket i k') := by
  refine { h with ws := fun j => ?_, released := fun q hq => ?_ }
  · rw [live_set hk, hlive]
    split
    next hij =>
      subst hij
      rw [← live_iff hk]
      exact h.ws i
    · exact h.ws j
  · rcases mem_or_eq_of_mem_set hq with hq | rfl
    · exact h.released q hq
    · exact hreleased

theorem Inv.drop (h : Inv s) (hk : s.sockets[i]? = some k) (k' : Socket) (hws : s.ws = some i) (hlive : k'.live = false)
    (hreleased : k'.onclose = false → k'.readyState = .closing ∨ k'.readyState = .closed) :
    Inv { s.setSocket i k' with ws := none } := by
  have hnone : s.reconnectTimer = none := by
    by_contra hne
    have := h.wait (isSome_iff_ne_none.mpr hne)
    cases hws.symm.trans this
  refine ⟨fun j => ?_, h.timers, fun _ => rfl, fun _ => ⟨rfl, hnone⟩, h.unasked, fun q hq => ?_⟩
  · have : (s.setSocket i k').Live j ↔ if i = j then k'.live = true else s.Live j := live_set hk k' j
    constructor
    · nofun
    intro hj
    have hj := this.mp hj
    split at hj
    · cases hlive.symm.trans hj
    next hij =>
      have := (h.ws j).mpr hj
      exact absurd (Option.some.inj (hws.symm.trans this)) hij
  · rcases mem_or_eq_of_mem_set hq with hq | rfl
    · exact h.released q hq
    · exact hreleased

theorem Inv.createSocket (h : Inv s) (hws : s.ws = none) (htimer : s.reconnectTimer = none) (hoff : s.off = false) :
    Inv s.createSocket := by
  have hnone (j : Nat) : ¬ s.Live j := fun hj => by
    have := (h.ws j).mpr hj
    cases hws.symm.trans this
  refine ⟨fun j => ?_, h.timers, ?_, ?_, ?_, ?_⟩
  · constructor
    · intro hj
      cases hj
      exact ⟨_, getElem?_concat_length, rfl⟩
    rintro ⟨k, hk, hlive⟩
    rcases getElem?_concat_cases hk with hk | ⟨rfl, -⟩
    · exact absurd ⟨k, hk, hlive⟩ (hnone j)
    · rfl
  · intro hsome
    simp only [State.createSocket] at hsome
    rw [htimer] at hsome
    cases hsome
  · intro hon
    simp only [State.createSocket] at hon
    cases hoff.symm.trans hon
  · simp only [State.createSocket, hoff]
    exact h.unasked
  · intro q hq
    rcases mem_concat_cases hq with hq | rfl
    · exact h.released q hq
    · nofun

theorem Inv.connect (h : Inv s) (htimer : s.reconnectTimer = none) : Inv s.connect ∧ s.connect.reconnectTimer = none := by
  have hon : Inv { s with off := false } := { h with off := nofun }
  unfold State.connect
  simp only
  split
  · exact ⟨hon, htimer⟩
  next hws =>
    exact ⟨hon.createSocket (not_isSome_iff_eq_none.mp hws) htimer rfl, htimer⟩

theorem Inv.clearReconnect (h : Inv s) : (s.clearReconnect.reconnects.map (·.1)) = [] := by
  have htimers := h.timers
  cases htimer : s.reconnectTimer with
  | none =>
    rw [htimer] at htimers
    rw [State.clearReconnect, map_eq_nil_iff.mp htimers]
    rfl
  | some timer =>
    rw [htimer] at htimers
    obtain ⟨r, hr, hrt⟩ := map_eq_singleton_iff.mp htimers
    simp [State.clearReconnect, hr, htimer, hrt]

theorem giveUp_none (hws : s.ws = none) : s.giveUp = s.stopTimers := by
  simp [State.giveUp, hws]

theorem giveUp_some (hws : s.ws = some i) (hk : s.sockets[i]? = some k) :
    s.giveUp = { s.stopTimers.setSocket i { k with onclose := false }.close with ws := none } := by
  simp [State.giveUp, hws, hk]

theorem giveUp_cases (s : State) : s.giveUp = s.stopTimers ∨ ∃ i k, s.sockets[i]? = some k ∧
    s.giveUp = { s.stopTimers.setSocket i { k with onclose := false }.close with ws := none } := by
  unfold State.giveUp
  split
  next i k hws =>
    obtain ⟨j, -, k', hk, heq⟩ : ∃ j, s.ws = some j ∧ ∃ k', s.sockets[j]? = some k' ∧ (j, k') = (i, k) := by
      simpa [bind_eq_some_iff] using hws
    cases heq
    exact .inr ⟨i, k, hk, rfl⟩
  · exact .inl rfl

theorem close_released (k : Socket) : k.close.readyState = .closing ∨ k.close.readyState = .closed := by
  unfold Socket.close
  split
  · exact .inl rfl
  · exact .inl rfl
  next h =>
    exact .inl h
  next h =>
    exact .inr h

theorem close_live (k : Socket) : k.close.live = k.live := by
  unfold Socket.close
  split <;> simp [Socket.live, *]

/-- The client that has called `disconnect` has no socket and no timer. -/
theorem Inv.giveUp (h : Inv s) : Inv s.giveUp ∧ s.giveUp.reconnectTimer = none ∧ s.giveUp.off ∧ s.giveUp.ws = none := by
  cases hws : s.ws with
  | none =>
    rw [giveUp_none hws]
    exact ⟨⟨h.ws, h.clearReconnect, nofun, fun _ => ⟨hws, rfl⟩, h.unasked, h.released⟩, rfl, rfl, hws⟩
  | some i =>
    obtain ⟨k, hk, hlive⟩ := (h.ws i).mp hws
    have hcleared : Inv { s.clearReconnect with off := false } :=
      ⟨h.ws, h.clearReconnect, nofun, nofun, h.unasked, h.released⟩
    have hlost : ({ k with onclose := false } : Socket).close.live = false := by
      rw [close_live]
      rfl
    have hdropped := hcleared.drop hk _ hws hlost fun _ => close_released _
    rw [giveUp_some hws hk]
    exact ⟨{ hdropped with wait := nofun, off := fun _ => ⟨rfl, rfl⟩ }, rfl, rfl, rfl⟩

/-! ### What listeners call -/

def Ready (s : State) : Prop := Inv s ∧ s.reconnectTimer = none

mutual

theorem Call.run_ready : (c : Call) → ∀ s, Ready s → Ready (c.run s)
  | .connect, s, h => h.1.connect h.2
  | .disconnect listeners, s, h => by
    obtain ⟨hinv, htimer, -⟩ := h.1.giveUp
    simp only [Call.run]
    split
    · exact listeners.run_ready _ ⟨{ hinv with }, htimer⟩
    · exact ⟨hinv, htimer⟩

theorem Calls.run_ready : (cs : Calls) → ∀ s, Ready s → Ready (cs.run s)
  | .nil, _, h => h
  | .cons call calls, s, h => calls.run_ready _ (call.run_ready s h)

end

mutual

theorem Call.run_settled : (c : Call) → ∀ s, Ready s → (c.run s).ws.isSome ∨ (c.run s).off
  | .connect, s, h => by
    left
    simp only [Call.run, State.connect]
    split
    · assumption
    · rfl
  | .disconnect listeners, s, h => by
    obtain ⟨hinv, htimer, hoff, -⟩ := h.1.giveUp
    simp only [Call.run]
    split
    · rcases listeners.run_settled { s.giveUp with connected := false }
        ⟨{ hinv with }, htimer⟩ with rfl | hsettled
      · exact .inr hoff
      · exact hsettled
    · exact .inr hoff

theorem Calls.run_settled : (cs : Calls) → ∀ s, Ready s → cs = .nil ∨ (cs.run s).ws.isSome ∨ (cs.run s).off
  | .nil, _, _ => .inl rfl
  | .cons call calls, s, h => by
    right
    simp only [Calls.run]
    rcases calls.run_settled _ (call.run_ready s h) with rfl | hsettled
    · exact call.run_settled s h
    · exact hsettled

end

theorem Ready.setConnected (h : Ready s) (value : Bool) (listeners : Calls) : Ready (s.setConnected value listeners) := by
  unfold State.setConnected
  split
  · exact h
  · exact listeners.run_ready _ ⟨{ h.1 with }, h.2⟩

/-! ### Steps -/

theorem Inv.oneSocket (h : Inv s) : OneSocket s := by
  have hempty : s.reconnects = [] ↔ s.reconnectTimer = none := by
    rw [← map_eq_nil_iff (f := (·.1)), h.timers, toList_eq_nil_iff]
  have hnone (hws : s.ws = none) (i : Nat) : ¬ s.Live i := fun hi => by
    have := (h.ws i).mpr hi
    cases hws.symm.trans this
  refine ⟨fun i j hi hj => ?_, ?_, fun hwait => ?_, fun hoff => ?_, h.unasked⟩
  · exact Option.some.inj (((h.ws i).mpr hi).symm.trans ((h.ws j).mpr hj))
  · rw [← length_map (f := (·.1)), h.timers]
    cases s.reconnectTimer <;> simp
  · refine hnone (h.wait ?_)
    rw [isSome_iff_ne_none]
    exact fun htimer => hwait (hempty.mpr htimer)
  · obtain ⟨hws, htimer⟩ := h.off hoff
    exact ⟨hempty.mpr htimer, hnone hws⟩

theorem Inv.readyOf (h : Inv s) (hws : s.ws = some i) : Ready s := by
  refine ⟨h, ?_⟩
  by_contra hne
  have := h.wait (isSome_iff_ne_none.mpr hne)
  cases hws.symm.trans this

theorem Inv.onOf (h : Inv s) (hws : s.ws = some i) : s.off = false := by
  by_contra hoff
  have := (h.off (by simpa using hoff)).1
  cases hws.symm.trans this

theorem Inv.lost (h : Inv s) (hk : s.sockets[i]? = some k) (hws : s.ws = some i) :
    Ready (s.lost i k) ∧ (s.lost i k).off = false := by
  have hdropped := h.drop hk { k with readyState := .closed } hws (by simp [Socket.live]) fun _ => .inr rfl
  exact ⟨⟨{ hdropped with },
    (h.readyOf hws).2⟩, h.onOf hws⟩

theorem Ready.scheduleReconnect (h : Ready s) (hws : s.ws = none) (hoff : s.off = false) : Inv s.scheduleReconnect := by
  have hempty : s.reconnects = [] := by
    rw [← map_eq_nil_iff (f := (·.1)), h.1.timers, h.2]
    rfl
  unfold State.scheduleReconnect
  rw [if_neg (by simp [h.2]), hempty]
  refine ⟨h.1.ws, rfl, fun _ => hws, fun hon => ?_, h.1.unasked, h.1.released⟩
  cases hoff.symm.trans hon

theorem Inv.closed (h : Inv s) (hk : s.sockets[i]? = some k) (hws : s.ws = some i) {listeners : Calls}
    (hok : s.connected → listeners = .nil) : Inv ((s.lost i k).setConnected false listeners).scheduleReconnect := by
  obtain ⟨hready, hoff⟩ := h.lost hk hws
  have hsame : (s.lost i k).connected = s.connected := rfl
  unfold State.setConnected
  rw [hsame]
  split
  · exact hready.scheduleReconnect rfl hoff
  rename_i hconnected
  rw [hok (by simpa using hconnected)]
  have hready' : Ready { s.lost i k with connected := false } :=
    ⟨{ hready.1 with }, hready.2⟩
  exact hready'.scheduleReconnect rfl hoff

theorem send_live (k : Socket) (f : Frame) : (k.send f).live = k.live := rfl

theorem live_broadcast (s : State) (receivers : List Nat) (i : Nat) :
    (step s (.broadcast receivers)).Live i ↔ s.Live i := by
  unfold State.Live
  simp only [step, getElem?_mapIdx, map_eq_some_iff]
  constructor
  · rintro ⟨-, ⟨k, hk, rfl⟩, hlive⟩
    refine ⟨k, hk, ?_⟩
    split at hlive <;> exact hlive
  rintro ⟨k, hk, hlive⟩
  refine ⟨_, ⟨k, hk, rfl⟩, ?_⟩
  split <;> exact hlive

theorem inv_step (h : Inv s) {e : Event} (hok : Proper s e) : Inv (step s e) := by
  cases e with
  | call call =>
    cases call with
    | connect => exact (h.connect hok).1
    | disconnect listeners =>
      obtain ⟨hinv, htimer, -⟩ := h.giveUp
      simp only [step, Call.run]
      split
      · exact (listeners.run_ready { s.giveUp with connected := false }
          ⟨{ hinv with }, htimer⟩).1
      · exact hinv
  | opened i listeners =>
    simp only [step]
    split
    next k hk =>
      split
      next hstate =>
        have honclose : k.onclose := by
          by_contra hreleased
          have := h.released k (mem_of_getElem? hk) (by simpa using hreleased)
          simp [hstate] at this
        have hlive : s.Live i := ⟨k, hk, by simp [Socket.live, honclose, hstate]⟩
        have hset := h.setSocket hk { k with readyState := .open } (by simp [Socket.live, hstate]) (by simp [honclose])
        have hready : Ready { s.setSocket i { k with readyState := .open } with reconnectDelay := 1000 } :=
          ⟨{ hset with }, (h.readyOf ((h.ws i).mpr hlive)).2⟩
        obtain ⟨hinv, -⟩ := hready.setConnected true listeners
        exact { hinv with }
      · exact h
    · exact h
  | message i =>
    simp only [step]
    split
    next onclose frame queue hk =>
      have honclose : onclose := by
        by_contra hreleased
        have := h.released _ (mem_of_getElem? hk) (by simpa using hreleased)
        simp at this
      have hset := h.setSocket hk ⟨.open, onclose, queue⟩ rfl (by simp [honclose])
      cases frame <;> exact { hset with }
    · exact h
  | closing i =>
    simp only [step, State.closeSocket]
    split
    next k hk =>
      exact h.setSocket hk k.close (close_live k) fun _ => close_released k
    · exact h
  | closed i listeners =>
    simp only [step]
    split
    next k hk =>
      split
      · exact h
      rename_i hstate
      split
      next honclose =>
        have hlive : s.Live i := ⟨k, hk, by simp [Socket.live, honclose, hstate]⟩
        exact h.closed hk ((h.ws i).mpr hlive) (hok hlive)
      next honclose =>
        exact h.setSocket hk _ (by simp [Socket.live, honclose]) fun _ => .inr rfl
    · exact h
  | error i => exact h
  | reconnect timer =>
    simp only [step]
    split
    next hmem =>
      rw [h.timers, mem_toList] at hmem
      have hws : s.ws = none := h.wait (by simp [mem_def.mp hmem])
      have hoff : s.off = false := by
        by_contra hoff
        have := (h.off (by simpa using hoff)).2
        rw [mem_def.mp hmem] at this
        cases this
      have hcleared := h.clearReconnect
      simp only [State.clearReconnect, mem_def.mp hmem] at hcleared
      have hgone : (s.reconnects.filter (·.1 ≠ timer)).map (·.1) = [] := by
        refine Eq.trans (congrArg _ (filter_congr fun r _ => ?_)) hcleared
        exact decide_eq_decide.mpr ⟨fun hne heq => hne (Option.some.inj heq).symm, fun hne heq => hne (congrArg some heq.symm)⟩
      exact Inv.createSocket ⟨h.ws, hgone, fun _ => hws, fun _ => ⟨hws, rfl⟩, h.unasked, h.released⟩ hws rfl hoff
    · exact h
  | heartbeat timer =>
    simp only [step]
    split
    · exact { h with }
    · exact h
  | timeout timer =>
    have h' : Inv { s with timeouts := s.timeouts.filter (· ≠ timer) } :=
      { h with }
    simp only [step, State.closeSocket]
    split
    · split
      · split
        next k hk =>
          exact h'.setSocket hk k.close (close_live k) fun _ => close_released k
        · exact h'
      · exact h'
    · exact h
  | broadcast receivers =>
    refine { h with ws := fun i => ?_, released := fun k hk => ?_ }
    · rw [live_broadcast]
      exact h.ws i
    obtain ⟨i, hi⟩ := getElem?_of_mem hk
    obtain ⟨k', hk', rfl⟩ := map_eq_some_iff.mp (getElem?_mapIdx.symm.trans hi)
    have := h.released k' (mem_of_getElem? hk')
    split <;> exact this
  | reply i pong =>
    simp only [step]
    split
    next k hk =>
      exact h.setSocket hk _ (send_live k _) fun hreleased => h.released k (mem_of_getElem? hk) hreleased
    · exact h

/-- A step that is not proper leaves a timer beside a socket, or where there is to be none. -/
theorem not_oneSocket_step (h : Inv s) {e : Event} (hnot : ¬ Proper s e) : ¬ OneSocket (step s e) := by
  have hempty {s : State} (htimers : s.reconnects.map (·.1) = s.reconnectTimer.toList) (htimer : s.reconnectTimer.isSome) :
      s.reconnects ≠ [] := by
    rintro hnil
    rw [hnil, eq_some_of_isSome htimer] at htimers
    cases htimers
  intro hone
  match e with
  | .call .connect =>
    have htimer : s.reconnectTimer.isSome := isSome_iff_ne_none.mpr hnot
    have hws := h.wait htimer
    have hcreated : step s (.call .connect) = ({ s with off := false } : State).createSocket := by
      simp [step, Call.run, State.connect, hws]
    rw [hcreated] at hone
    exact hone.wait (hempty h.timers htimer) s.sockets.length ⟨_, getElem?_concat_length, rfl⟩
  | .closed i listeners =>
    simp only [Proper, not_forall] at hnot
    obtain ⟨hlive, hconnected, hnil⟩ := hnot
    obtain ⟨k, hk, hklive⟩ := hlive
    have hkopen : k.onclose ∧ k.readyState ≠ .closed := by simpa [Socket.live] using hklive
    obtain ⟨hready, -⟩ := h.lost hk ((h.ws i).mpr ⟨k, hk, hklive⟩)
    have hstep : step s (.closed i listeners) =
        (listeners.run { s.lost i k with connected := false }).scheduleReconnect := by
      have hsame : ¬ (s.lost i k).connected = false := ne_of_eq_of_ne hconnected nofun
      simp [step, hk, if_neg hkopen.2, if_pos hkopen.1, State.setConnected, if_neg hsame]
    have hready' : Ready { s.lost i k with connected := false } :=
      ⟨{ hready.1 with }, hready.2⟩
    obtain ⟨hinv, htimer⟩ := listeners.run_ready _ hready'
    rw [hstep] at hone
    unfold State.scheduleReconnect at hone
    rw [if_neg (by simp [htimer])] at hone
    rcases listeners.run_settled _ hready' with hnil' | hws | hoff
    · exact hnil hnil'
    · obtain ⟨j, hj⟩ := isSome_iff_exists.mp hws
      exact hone.wait (by simp) j ((hinv.ws j).mp hj)
    · exact absurd (hone.off hoff).1 (by simp)
  | .call (.disconnect _) | .opened .. | .message _ | .closing _ | .error _ | .reconnect _ | .heartbeat _ | .timeout _
  | .broadcast _ | .reply .. => exact hnot trivial

theorem oneSocket_iff (h : Inv s) (e : Event) : OneSocket (step s e) ↔ Proper s e := by
  constructor
  · intro hone
    by_contra hnot
    exact not_oneSocket_step h hnot hone
  · exact fun hok => (inv_step h hok).oneSocket

/-! ## Each message once -/

def Frame.number? : Frame → Option Nat
  | .message n => some n
  | _ => none

def Socket.numbers (k : Socket) : List Nat := k.queue.filterMap Frame.number?

/-- No message was published twice, and none that was waits on a live socket. -/
structure Once (s : State) : Prop where
  nodup : s.published.Nodup
  published : ∀ n ∈ s.published, n < s.sent
  queued : ∀ (i : Nat) (k : Socket), s.sockets[i]? = some k → k.live →
    k.numbers.Nodup ∧ ∀ n ∈ k.numbers, n < s.sent ∧ n ∉ s.published

structure Quiet (s s' : State) : Prop where
  sent : s'.sent = s.sent
  published : s'.published = s.published
  queued : ∀ (i : Nat) (k' : Socket), s'.sockets[i]? = some k' → k'.live →
    k'.numbers = [] ∨ ∃ k, s.sockets[i]? = some k ∧ k.live ∧ k.numbers = k'.numbers

theorem quiet_of_sockets (s s' : State) (hsockets : s'.sockets = s.sockets) (hsent : s'.sent = s.sent)
    (hpublished : s'.published = s.published) : Quiet s s' :=
  ⟨hsent, hpublished, fun _ k' hk' hlive => .inr ⟨k', hsockets ▸ hk', hlive, rfl⟩⟩

theorem Quiet.trans {s'' : State} (h : Quiet s s') (h' : Quiet s' s'') : Quiet s s'' := by
  refine ⟨h'.sent.trans h.sent, h'.published.trans h.published, fun i k hk hlive => ?_⟩
  rcases h'.queued i k hk hlive with hnil | ⟨k', hk', hlive', heq⟩
  · exact .inl hnil
  rcases h.queued i k' hk' hlive' with hnil | ⟨k'', hk'', hlive'', heq'⟩
  · exact .inl (heq.symm.trans hnil)
  · exact .inr ⟨k'', hk'', hlive'', heq'.trans heq⟩

theorem Quiet.once (h : Quiet s s') (honce : Once s) : Once s' := by
  refine ⟨h.published ▸ honce.nodup, ?_, fun i k hk hlive => ?_⟩
  · rw [h.published, h.sent]
    exact honce.published
  rw [h.published, h.sent]
  rcases h.queued i k hk hlive with hnil | ⟨k', hk', hlive', heq⟩
  · rw [hnil]
    exact ⟨nodup_nil, nofun⟩
  · rw [← heq]
    exact honce.queued i k' hk' hlive'

theorem quiet_set (hk : s.sockets[i]? = some k) (hlive : k'.live → k.live) (hqueue : k'.queue = k.queue) :
    Quiet s (s.setSocket i k') := by
  refine ⟨rfl, rfl, fun j q hq hqlive => .inr ?_⟩
  rcases getElem?_set_cases hq with ⟨rfl, rfl⟩ | ⟨-, hq⟩
  · exact ⟨k, hk, hlive hqlive, congrArg (List.filterMap Frame.number?) hqueue.symm⟩
  · exact ⟨q, hq, hqlive, rfl⟩

theorem close_queue (k : Socket) : k.close.queue = k.queue := by
  unfold Socket.close
  split <;> rfl

theorem quiet_create (s : State) : Quiet s s.createSocket := by
  refine ⟨rfl, rfl, fun i k hk hlive => ?_⟩
  rcases getElem?_concat_cases hk with hk | ⟨-, rfl⟩
  · exact .inr ⟨k, hk, hlive, rfl⟩
  · exact .inl rfl

theorem quiet_closeSocket (s : State) (i : Nat) : Quiet s (s.closeSocket i) := by
  unfold State.closeSocket
  split
  next k hk =>
    exact quiet_set hk (close_live k ▸ id) (close_queue k)
  · exact quiet_of_sockets _ _ rfl rfl rfl

theorem quiet_connect (s : State) : Quiet s s.connect := by
  unfold State.connect
  simp only
  split
  · exact quiet_of_sockets _ _ rfl rfl rfl
  · exact (quiet_of_sockets s { s with off := false } rfl rfl rfl).trans (quiet_create _)

theorem quiet_giveUp (s : State) : Quiet s s.giveUp := by
  rcases giveUp_cases s with hsame | ⟨i, k, hk, hsame⟩
  · rw [hsame]
    exact quiet_of_sockets _ _ rfl rfl rfl
  rw [hsame]
  have hset : Quiet s (s.setSocket i { k with onclose := false }.close) :=
    quiet_set hk (by rw [close_live]; nofun) (close_queue _)
  exact hset.trans (quiet_of_sockets _ _ rfl rfl rfl)

mutual

theorem Call.run_quiet : (c : Call) → ∀ s, Quiet s (c.run s)
  | .connect, s => quiet_connect s
  | .disconnect listeners, s => by
    simp only [Call.run]
    split
    · exact ((quiet_giveUp s).trans (quiet_of_sockets _ { s.giveUp with connected := false } rfl rfl rfl)).trans
        (listeners.run_quiet _)
    · exact quiet_giveUp s

theorem Calls.run_quiet : (cs : Calls) → ∀ s, Quiet s (cs.run s)
  | .nil, _ => quiet_of_sockets _ _ rfl rfl rfl
  | .cons call calls, s => (call.run_quiet s).trans (calls.run_quiet _)

end

theorem quiet_setConnected (s : State) (value : Bool) (listeners : Calls) :
    Quiet s (s.setConnected value listeners) := by
  unfold State.setConnected
  split
  · exact quiet_of_sockets _ _ rfl rfl rfl
  · exact (quiet_of_sockets s { s with connected := value } rfl rfl rfl).trans (listeners.run_quiet _)

theorem quiet_scheduleReconnect (s : State) : Quiet s s.scheduleReconnect := by
  unfold State.scheduleReconnect
  split <;> exact quiet_of_sockets _ _ rfl rfl rfl

theorem Once.message (h : Once s) (hinv : Inv s) {onclose : Bool} {frame : Frame} {queue : List Frame}
    (hk : s.sockets[i]? = some ⟨.open, onclose, frame :: queue⟩) :
    Once ((s.setSocket i ⟨.open, onclose, queue⟩).handleMessage frame) := by
  have honclose : onclose := by
    by_contra hreleased
    have := hinv.released _ (mem_of_getElem? hk) (by simpa using hreleased)
    simp at this
  have hlive : s.Live i := ⟨_, hk, by simp [Socket.live, honclose]⟩
  -- Only this socket is live.
  have honly (j : Nat) (q : Socket) (hq : (s.setSocket i ⟨.open, onclose, queue⟩).sockets[j]? = some q) (hqlive : q.live) :
      q = ⟨.open, onclose, queue⟩ := by
    rcases getElem?_set_cases hq with ⟨-, rfl⟩ | ⟨hij, hq⟩
    · rfl
    · exact absurd (hinv.oneSocket.one i j hlive ⟨q, hq, hqlive⟩) hij
  obtain ⟨hnodup, hnumbers⟩ := h.queued i _ hk (by simp [Socket.live, honclose])
  cases frame with
  | pong | malformed =>
    refine ⟨h.nodup, h.published, fun j q hq hqlive => ?_⟩
    rw [honly j q hq hqlive]
    exact ⟨hnodup, hnumbers⟩
  | message n =>
    have hnumbers' : ∀ m ∈ n :: queue.filterMap Frame.number?, m < s.sent ∧ m ∉ s.published := hnumbers
    have hnodup' : (n :: queue.filterMap Frame.number?).Nodup := hnodup
    obtain ⟨hnotin, hnodup'⟩ := nodup_cons.mp hnodup'
    refine ⟨?_, ?_, fun j q hq hqlive => ?_⟩
    · exact nodup_append.mpr ⟨h.nodup, nodup_singleton n, fun m hm m' hm' heq =>
        (hnumbers' n (mem_cons_self ..)).2 (mem_singleton.mp hm' ▸ heq ▸ hm)⟩
    · intro m hm
      rcases mem_append.mp hm with hm | hm
      · exact h.published m hm
      · exact mem_singleton.mp hm ▸ (hnumbers' n (mem_cons_self ..)).1
    · rw [honly j q hq hqlive]
      refine ⟨hnodup', fun m hm => ⟨(hnumbers' m (mem_cons_of_mem n hm)).1, fun hmem => ?_⟩⟩
      rcases mem_append.mp hmem with hmem | hmem
      · exact (hnumbers' m (mem_cons_of_mem n hm)).2 hmem
      · exact hnotin (mem_singleton.mp hmem ▸ hm)

theorem Once.broadcast (h : Once s) (receivers : List Nat) : Once (step s (.broadcast receivers)) := by
  refine ⟨h.nodup, fun n hn => Nat.lt_succ_of_lt (h.published n hn), fun i k hk hlive => ?_⟩
  obtain ⟨q, hq, rfl⟩ := map_eq_some_iff.mp (getElem?_mapIdx.symm.trans hk)
  have hqlive : q.live := by
    split at hlive <;> exact hlive
  obtain ⟨hnodup, hnumbers⟩ := h.queued i q hq hqlive
  have hold (n : Nat) (hn : n ∈ q.numbers) : n < s.sent + 1 ∧ n ∉ s.published :=
    ⟨Nat.lt_succ_of_lt (hnumbers n hn).1, (hnumbers n hn).2⟩
  split
  · have hsend : (q.send (.message s.sent)).numbers = q.numbers ++ [s.sent] := by
      simp [Socket.numbers, Socket.send, Frame.number?]
    rw [hsend]
    refine ⟨nodup_append.mpr ⟨hnodup, nodup_singleton _, fun m hm m' hm' heq => ?_⟩, fun n hn => ?_⟩
    · exact absurd (hnumbers m hm).1 (by rw [heq, mem_singleton.mp hm']; exact Nat.lt_irrefl _)
    rcases mem_concat_cases hn with hn | rfl
    · exact hold n hn
    · exact ⟨Nat.lt_succ_self _, fun hmem => Nat.lt_irrefl _ (h.published _ hmem)⟩
  · exact ⟨hnodup, hold⟩

theorem once_step (h : Once s) (hinv : Inv s) (e : Event) : Once (step s e) := by
  cases e with
  | call call => exact (call.run_quiet s).once h
  | opened i listeners =>
    simp only [step]
    split
    next k hk =>
      split
      next hstate =>
        have hset : Quiet s (s.setSocket i { k with readyState := .open }) :=
          quiet_set hk (by simp +contextual [Socket.live, hstate]) rfl
        have hfields := quiet_of_sockets (s.setSocket i { k with readyState := .open })
          { s.setSocket i { k with readyState := .open } with reconnectDelay := 1000 } rfl rfl rfl
        have htold := (hset.trans hfields).trans (quiet_setConnected _ true listeners)
        have honce := htold.once h
        exact ⟨honce.nodup, honce.published, honce.queued⟩
      · exact h
    · exact h
  | message i =>
    simp only [step]
    split
    next hk =>
      exact h.message hinv hk
    · exact h
  | closing i => exact (quiet_closeSocket s i).once h
  | closed i listeners =>
    simp only [step]
    split
    next k hk =>
      have hset : Quiet s (s.setSocket i { k with readyState := .closed }) := quiet_set hk (by simp [Socket.live]) rfl
      split
      · exact h
      split
      · refine Quiet.once (hset.trans (.trans (quiet_of_sockets _ (s.lost i k) rfl rfl rfl) ?_)) h
        exact (quiet_setConnected _ false listeners).trans (quiet_scheduleReconnect _)
      · exact hset.once h
    · exact h
  | error i => exact h
  | reconnect timer =>
    simp only [step]
    split
    · exact (quiet_create _).once ⟨h.nodup, h.published, h.queued⟩
    · exact h
  | heartbeat timer =>
    simp only [step]
    split
    · exact ⟨h.nodup, h.published, h.queued⟩
    · exact h
  | timeout timer =>
    have hquiet : Quiet s { s with timeouts := s.timeouts.filter (· ≠ timer) } := quiet_of_sockets s _ rfl rfl rfl
    simp only [step]
    split
    · split
      · exact (hquiet.trans (quiet_closeSocket _ _)).once h
      · exact hquiet.once h
    · exact h
  | broadcast receivers => exact h.broadcast receivers
  | reply i pong =>
    simp only [step]
    split
    next k hk =>
      have hnumbers : (k.send (if pong then .pong else .malformed)).numbers = k.numbers := by
        cases pong <;> simp [Socket.numbers, Socket.send, Frame.number?]
      have hquiet : Quiet s (s.setSocket i (k.send (if pong then .pong else .malformed))) := by
        refine ⟨rfl, rfl, fun j q hq hqlive => .inr ?_⟩
        rcases getElem?_set_cases hq with ⟨rfl, rfl⟩ | ⟨-, hq⟩
        · exact ⟨k, hk, hqlive, hnumbers.symm⟩
        · exact ⟨q, hq, hqlive, rfl⟩
      exact hquiet.once h
    · exact h

/-! ## Sockets that are still closing -/

/-- Beside the sockets that are closed there is one at most, and the client has it unless it is off. -/
structure Alone (s : State) : Prop where
  claim : OneNotClosed s
  live : s.off = false → ∀ k ∈ s.sockets, k.readyState ≠ .closed → k.live

/-- No socket is created and no timer set. -/
structure Shrinks (s s' : State) : Prop where
  sockets : ∀ (i : Nat) (k' : Socket), s'.sockets[i]? = some k' → k'.readyState ≠ .closed →
    ∃ k, s.sockets[i]? = some k ∧ k.readyState ≠ .closed ∧ (s'.off = false → k.live → k'.live)
  reconnects : s'.reconnects ≠ [] → s.reconnects ≠ []
  off : s'.off = false → s.off = false

theorem Shrinks.alone (h : Shrinks s s') (halone : Alone s) : Alone s' := by
  refine ⟨⟨fun i j k k' hk hk' hopen hopen' => ?_, fun hwait k hk => ?_⟩, fun hoff k hk hopen => ?_⟩
  · obtain ⟨q, hq, hqopen, -⟩ := h.sockets i k hk hopen
    obtain ⟨q', hq', hqopen', -⟩ := h.sockets j k' hk' hopen'
    exact halone.claim.one i j q q' hq hq' hqopen hqopen'
  · obtain ⟨i, hi⟩ := getElem?_of_mem hk
    by_contra hopen
    obtain ⟨q, hq, hqopen, -⟩ := h.sockets i k hi hopen
    exact hqopen (halone.claim.wait (h.reconnects hwait) q (mem_of_getElem? hq))
  · obtain ⟨i, hi⟩ := getElem?_of_mem hk
    obtain ⟨q, hq, hqopen, hlive⟩ := h.sockets i k hi hopen
    exact hlive hoff (halone.live (h.off hoff) q (mem_of_getElem? hq) hqopen)

theorem Shrinks.refl (s : State) : Shrinks s s := ⟨fun _ k hk hopen => ⟨k, hk, hopen, fun _ h => h⟩, id, id⟩

theorem Shrinks.trans {s'' : State} (h : Shrinks s s') (h' : Shrinks s' s'') : Shrinks s s'' := by
  refine ⟨fun i k hk hopen => ?_, fun hwait => h.reconnects (h'.reconnects hwait), fun hoff => h.off (h'.off hoff)⟩
  obtain ⟨k', hk', hopen', hlive'⟩ := h'.sockets i k hk hopen
  obtain ⟨k'', hk'', hopen'', hlive''⟩ := h.sockets i k' hk' hopen'
  exact ⟨k'', hk'', hopen'', fun hoff hlive => hlive' hoff (hlive'' (h'.off hoff) hlive)⟩

theorem shrinks_set (hk : s.sockets[i]? = some k) (k' : Socket)
    (hopen : k'.readyState ≠ .closed → k.readyState ≠ .closed ∧ (k.live → k'.live)) : Shrinks s (s.setSocket i k') := by
  refine ⟨fun j q hq hqopen => ?_, id, id⟩
  rcases getElem?_set_cases hq with ⟨rfl, rfl⟩ | ⟨-, hq⟩
  · exact ⟨k, hk, (hopen hqopen).1, fun _ => (hopen hqopen).2⟩
  · exact ⟨q, hq, hqopen, fun _ h => h⟩

theorem close_closed (k : Socket) : k.close.readyState = .closed ↔ k.readyState = .closed := by
  unfold Socket.close
  split <;> simp [*]

theorem shrinks_closeSocket (s : State) (i : Nat) : Shrinks s (s.closeSocket i) := by
  unfold State.closeSocket
  split
  next k hk =>
    exact shrinks_set hk k.close fun hopen => ⟨fun h => hopen ((close_closed k).mpr h), fun hlive => close_live k ▸ hlive⟩
  · exact .refl s

theorem shrinks_giveUp (s : State) : Shrinks s s.giveUp := by
  have hcleared : s.clearReconnect.reconnects ≠ [] → s.reconnects ≠ [] := by
    rintro hne hnil
    exact hne (by simp [State.clearReconnect, hnil])
  rcases giveUp_cases s with hsame | ⟨i, k, hk, hsame⟩
  · rw [hsame]
    exact ⟨fun _ k hk hopen => ⟨k, hk, hopen, fun _ h => h⟩, hcleared, nofun⟩
  rw [hsame]
  refine ⟨fun j q hq hqopen => ?_, hcleared, nofun⟩
  rcases getElem?_set_cases hq with ⟨rfl, rfl⟩ | ⟨-, hq⟩
  · exact ⟨k, hk, fun hclosed => hqopen ((close_closed _).mpr hclosed), nofun⟩
  · exact ⟨q, hq, hqopen, nofun⟩

mutual

theorem Call.run_shrinks : (c : Call) → c.connects = false → ∀ s, Shrinks s (c.run s)
  | .connect, h, _ => nomatch h
  | .disconnect listeners, h, s => by
    simp only [Call.run]
    split
    · have hfields : Shrinks s.giveUp { s.giveUp with connected := false } := ⟨(Shrinks.refl s.giveUp).sockets, id, id⟩
      exact ((shrinks_giveUp s).trans hfields).trans (listeners.run_shrinks h _)
    · exact shrinks_giveUp s

theorem Calls.run_shrinks : (cs : Calls) → cs.connects = false → ∀ s, Shrinks s (cs.run s)
  | .nil, _, s => .refl s
  | .cons call calls, h, s => by
    have hboth := Bool.or_eq_false_iff.mp h
    exact (call.run_shrinks hboth.1 s).trans (calls.run_shrinks hboth.2 _)

end

theorem shrinks_setConnected (s : State) (value : Bool) {listeners : Calls} (h : listeners.connects = false) :
    Shrinks s (s.setConnected value listeners) := by
  unfold State.setConnected
  split
  · exact .refl s
  · have hfields : Shrinks s { s with connected := value } := ⟨(Shrinks.refl s).sockets, id, id⟩
    exact hfields.trans (listeners.run_shrinks h _)

theorem Alone.create (hclosed : ∀ k ∈ s.sockets, k.readyState = .closed) (hempty : s.reconnects = []) :
    Alone s.createSocket := by
  have hnew (i : Nat) (k : Socket) (hk : s.createSocket.sockets[i]? = some k) (hopen : k.readyState ≠ .closed) :
      s.sockets.length = i ∧ k = ⟨.connecting, true, []⟩ := by
    rcases getElem?_concat_cases hk with hk | ⟨hi, rfl⟩
    · exact absurd (hclosed k (mem_of_getElem? hk)) hopen
    · exact ⟨hi.symm, rfl⟩
  refine ⟨⟨fun i j k k' hk hk' hopen hopen' => ?_, fun hwait => absurd hempty hwait⟩, fun _ k hk hopen => ?_⟩
  · exact (hnew i k hk hopen).1.symm.trans (hnew j k' hk' hopen').1
  obtain ⟨i, hi⟩ := getElem?_of_mem hk
  rw [(hnew i k hi hopen).2]
  rfl

theorem Alone.wait (h : Alone s) (hk : s.sockets[i]? = some k) (hopen : k.readyState ≠ .closed) :
    ∀ q ∈ (s.lost i k).sockets, q.readyState = .closed := by
  intro q hq
  obtain ⟨j, hj⟩ := getElem?_of_mem hq
  rcases getElem?_set_cases hj with ⟨-, rfl⟩ | ⟨hij, hj⟩
  · rfl
  · by_contra hqopen
    exact hij (h.claim.one i j k q hk hj hopen hqopen)

theorem alone_step (h : Alone s) (hinv : Inv s) {e : Event} (hproper : Proper s e) (hdrained : Drained s e) :
    Alone (step s e) := by
  cases e with
  | call call =>
    cases call with
    | connect =>
      have hempty : s.reconnects = [] := by
        rw [← map_eq_nil_iff (f := (·.1)), hinv.timers, hproper]
        rfl
      simp only [step, Call.run, State.connect]
      split
      next hws =>
        obtain ⟨i, hi⟩ := isSome_iff_exists.mp hws
        exact ⟨⟨h.claim.one, h.claim.wait⟩, fun _ => h.live (hinv.onOf hi)⟩
      next hws =>
        exact Alone.create (hdrained (not_isSome_iff_eq_none.mp hws)) hempty
    | disconnect listeners => exact (Call.run_shrinks (.disconnect listeners) hdrained s).alone h
  | opened i listeners =>
    simp only [step]
    split
    next k hk =>
      split
      next hstate =>
        have hset := shrinks_set hk { k with readyState := .open } fun _ => ⟨by simp [hstate], by simp [Socket.live, hstate]⟩
        have hfields : Shrinks (s.setSocket i { k with readyState := .open })
            { s.setSocket i { k with readyState := .open } with reconnectDelay := 1000 } :=
          ⟨(Shrinks.refl _).sockets, id, id⟩
        have halone := ((hset.trans hfields).trans (shrinks_setConnected _ true hdrained)).alone h
        exact ⟨⟨halone.claim.one, halone.claim.wait⟩, halone.live⟩
      · exact h
    · exact h
  | message i =>
    simp only [step]
    split
    next onclose frame queue hk =>
      have halone := (shrinks_set hk ⟨.open, onclose, queue⟩ fun _ => ⟨nofun, id⟩).alone h
      cases frame <;> exact ⟨⟨halone.claim.one, halone.claim.wait⟩, halone.live⟩
    · exact h
  | closing i => exact (shrinks_closeSocket s i).alone h
  | closed i listeners =>
    simp only [step]
    split
    next k hk =>
      split
      · exact h
      rename_i hstate
      have hset := shrinks_set hk { k with readyState := .closed } fun hopen => absurd rfl hopen
      split
      next honclose =>
        have hlive : s.Live i := ⟨k, hk, by simp [Socket.live, honclose, hstate]⟩
        have hclosed := h.wait hk hstate
        -- Nobody calls the client back, so only the timer is new.
        have htold : ((s.lost i k).setConnected false listeners).sockets = (s.lost i k).sockets := by
          unfold State.setConnected
          split
          · rfl
          rename_i hconnected
          have hsame : (s.lost i k).connected = s.connected := rfl
          rw [hproper hlive (by simpa [hsame] using hconnected)]
          rfl
        have hsockets : ((s.lost i k).setConnected false listeners).scheduleReconnect.sockets =
            (s.lost i k).sockets := by
          rw [← htold]
          unfold State.scheduleReconnect
          split <;> rfl
        rw [← hsockets] at hclosed
        refine ⟨⟨fun i j k k' hk _ hopen => ?_, fun _ => hclosed⟩, fun _ k hk hopen => absurd (hclosed k hk) hopen⟩
        exact absurd (hclosed k (mem_of_getElem? hk)) hopen
      · exact hset.alone h
    · exact h
  | error i => exact h
  | reconnect timer =>
    simp only [step]
    split
    next hmem =>
      have hne : s.reconnects ≠ [] := by
        rintro hnil
        rw [hnil] at hmem
        cases hmem
      have hempty : s.reconnects.filter (·.1 ≠ timer) = [] := by
        rw [hinv.timers, mem_toList] at hmem
        rw [filter_eq_nil_iff]
        intro r hr
        have hr' := mem_map_of_mem (f := (·.1)) hr
        rw [hinv.timers, mem_toList, mem_def.mp hmem] at hr'
        simpa using (Option.some.inj hr').symm
      exact Alone.create (h.claim.wait hne) hempty
    · exact h
  | heartbeat timer =>
    simp only [step]
    split
    · exact ⟨⟨h.claim.one, h.claim.wait⟩, h.live⟩
    · exact h
  | timeout timer =>
    have h' : Alone { s with timeouts := s.timeouts.filter (· ≠ timer) } := ⟨⟨h.claim.one, h.claim.wait⟩, h.live⟩
    simp only [step]
    split
    · split
      · exact (shrinks_closeSocket _ _).alone h'
      · exact h'
    · exact h
  | broadcast receivers =>
    refine Shrinks.alone (s := s) ⟨fun i k hk hopen => ?_, id, id⟩ h
    obtain ⟨q, hq, rfl⟩ := map_eq_some_iff.mp (getElem?_mapIdx.symm.trans hk)
    refine ⟨q, hq, ?_, fun _ hlive => ?_⟩
    · split at hopen <;> exact hopen
    · split <;> exact hlive
  | reply i pong =>
    simp only [step]
    split
    next k hk =>
      exact (shrinks_set hk (k.send _) fun hopen => ⟨hopen, id⟩).alone h
    · exact h

end

theorem inv_init : Inv init := by
  refine ⟨fun i => ?_, rfl, nofun, fun _ => ⟨rfl, rfl⟩, rfl, nofun⟩
  simp [init, State.Live]

theorem once_init : Once init := ⟨nodup_nil, nofun, by simp [init]⟩

theorem alone_init : Alone init := ⟨⟨by simp [init], fun h => absurd rfl h⟩, nofun⟩

/-! ## Runs -/

/-- **One socket, or a timer for one**, in every state of a run exactly where each step is proper; then each message
is published once, and where sockets that were given up have closed before another is created, it is so of every
socket that is not closed. -/
theorem one_socket (es : List Event) : (Always step OneSocket init es ↔ Along step Proper init es) ∧
      (Along step Proper init es → Always step (fun s => s.published.Nodup) init es) ∧
      (Along step (fun s e => Proper s e ∧ Drained s e) init es → Always step OneNotClosed init es) := by
  refine ⟨?_, fun h => ?_, fun h => ?_⟩
  · exact always_iff_along_under Inv OneSocket (fun s e hinv => oneSocket_iff hinv e) (fun s e hinv hok => inv_step hinv hok)
      inv_init es
  · exact Along.of_invariant (fun s => Inv s ∧ Once s) (fun s e hok hi => ⟨inv_step hi.1 hok, once_step hi.2 hi.1 e⟩)
      (fun s e hok hi => (once_step hi.2 hi.1 e).nodup) ⟨inv_init, once_init⟩ h
  · exact Along.of_invariant (fun s => Inv s ∧ Alone s)
      (fun s e hok hi => ⟨inv_step hi.1 hok.1, alone_step hi.2 hi.1 hok.1 hok.2⟩)
      (fun s e hok hi => (alone_step hi.2 hi.1 hok.1 hok.2).claim) ⟨inv_init, alone_init⟩ h

/-- A socket is lost and another is made in its place. -/
def reconnecting : List Event :=
  [.call .connect, .opened 0 .nil, .broadcast [0], .message 0, .closed 0 .nil, .reconnect 1, .opened 1 .nil,
    .broadcast [0, 1], .message 0, .message 1]

theorem one_socket_reconnecting : Always step OneSocket init reconnecting ∧
    Always step OneNotClosed init reconnecting ∧ Always step (fun s => s.published.Nodup) init reconnecting ∧
    (exec step init reconnecting).published = [0, 1] := by
  obtain ⟨hone, honce, hclosed⟩ := one_socket reconnecting
  have hproper : Along step Proper init reconnecting :=
    ⟨rfl, trivial, trivial, trivial, fun _ _ => rfl, trivial, trivial, trivial, trivial, trivial, trivial⟩
  have hdrained : Along step Drained init reconnecting :=
    ⟨fun _ => nofun, rfl, trivial, trivial, rfl, trivial, rfl, trivial, trivial, trivial, trivial⟩
  exact ⟨hone.mpr hproper, hclosed (hproper.and hdrained), honce hproper, rfl⟩

def connectedTwice : List Event :=
  [.call .connect, .opened 0 .nil, .closed 0 .nil, .call .connect, .reconnect 1, .opened 1 .nil, .opened 2 .nil,
    .broadcast [1, 2], .message 1, .message 2]

theorem second_connect_makes_two : ¬ Always step OneSocket init connectedTwice ∧
    (exec step init connectedTwice).published = [0, 0] := by
  refine ⟨fun h => ?_, rfl⟩
  obtain ⟨-, -, -, htwice, -⟩ := h
  exact htwice.wait (cons_ne_nil (1, 1000) []) 1 ⟨⟨.connecting, true, []⟩, rfl, rfl⟩

end Reins.AppClient
