import Reins.Lib.Places
import Reins.Lib.Run

/-!
# A node's link to its server (`node/src/node-connection.ts`, `connectNode`; `node/src/remote-link.ts`)

Dials, sockets, retry timers and updates are known by their numbers, apart from the variables that name
them, so that there could be several of each. A socket that is closed calls its `onclose` in a microtask,
before anything that waits for what its hello came to; a timer fires between microtasks. `stop` may be
called at any time.
-/

namespace Reins.Reconnecting

open Places List Bool

/-- What the connection's `ready` came to, as the node reads the reply. -/
inductive HelloOutcome
  | accepted
  /-- `UpdateRequired`. -/
  | update (buildId : String)
  /-- `NODE_REFUSED`. -/
  | refused (message : String)
  | failed (message : String)
  deriving DecidableEq

inductive Hello
  | pending
  /-- The reply is there, and nothing of it was looked at. -/
  | replied (outcome : HelloOutcome)
  /-- The connection is closed for what it came to. -/
  | rejected (outcome : HelloOutcome)
  | handled
  deriving DecidableEq

inductive Life
  | opened
  /-- Closed, with its `onclose` still to run. -/
  | closing
  | gone
  deriving DecidableEq

def Life.close : Life → Life
  | .opened => .closing
  | life => life

structure Socket where
  life : Life
  hello : Hello
  negotiated : Bool
  deriving DecidableEq

inductive LinkState
  | connecting (failure : Option String)
  | connected
  | refused (message : String)
  deriving DecidableEq

structure State where
  /-- `onUpdate` is given. -/
  canUpdate : Bool
  stopped : Bool
  updating : Bool
  lastFailure : Option String
  /-- What `onState` heard. -/
  reports : List LinkState
  timer : Option Nat
  /-- The timers set, and neither fired nor cleared. -/
  timers : List Nat
  current : Option Nat
  sockets : List Socket
  dials : List Nat
  /-- The calls of `onUpdate` under way. -/
  updates : List Nat
  next : Nat
  dialed : Nat

def State.connect (s : State) : State :=
  if s.stopped then s
  else { s with dials := s.dials ++ [s.next], next := s.next + 1, dialed := s.dialed + 1 }

/-- `connectNode`. -/
def State.init (canUpdate : Bool) : State :=
  State.connect
    { canUpdate, stopped := false, updating := false, lastFailure := none, reports := [],
      timer := none, timers := [], current := none, sockets := [], dials := [], updates := [],
      next := 0, dialed := 0 }

def State.setSocket (s : State) (i : Nat) (socket : Socket) : State := { s with sockets := s.sockets.set i socket }

def State.schedule (s : State) : State :=
  if s.stopped ∨ s.updating ∨ s.timer ≠ none then s
  else { s with timer := some s.next, timers := s.timers ++ [s.next], next := s.next + 1 }

def State.clearTimer (s : State) : State :=
  match s.timer with
  | some t => { s with timer := none, timers := s.timers.erase t }
  | none => s

def State.report (s : State) (state : LinkState) : State := { s with reports := s.reports ++ [state] }

def State.failed (s : State) (failure : String) : State :=
  if s.stopped ∨ s.lastFailure = some failure then s
  else { s with lastFailure := some failure }.report (.connecting (some failure))

def State.closeSocket (s : State) (i : Nat) : State :=
  match s.sockets[i]? with
  | some socket => s.setSocket i { socket with life := socket.life.close }
  | none => s

def State.stop (s : State) : State :=
  let s' := { s with stopped := true }.clearTimer
  match s.current with
  | some i => { s'.closeSocket i with current := none }
  | none => s'

def State.refuse (s : State) (message : String) : State := s.stop.report (.refused message)

def State.update (s : State) (buildId : String) : State :=
  if !s.canUpdate then
    s.refuse ("The server runs build " ++ String.ofList (buildId.toList.take 12) ++
      ", and this node cannot update itself")
  else
    let s' := { s with updating := true }.clearTimer
    { s' with updates := s'.updates ++ [s.next], next := s.next + 1 }

/-- `opened`; the socket of a dial that outlived `stop` is closed, and nothing hears of it. -/
def State.opened (s : State) : State :=
  if s.stopped then { s with sockets := s.sockets ++ [⟨.gone, .handled, false⟩] }
  else
    { s with
      sockets := s.sockets ++ [⟨.opened, .pending, false⟩]
      current := some s.sockets.length }

def State.dialOpens (s : State) (d : Nat) : State :=
  if d ∈ s.dials then { s with dials := s.dials.erase d }.opened else s

def State.dialFails (s : State) (d : Nat) (message : String) : State :=
  if d ∈ s.dials then
    ({ s with dials := s.dials.erase d }.failed ("cannot reach the server: " ++ message)).schedule
  else s

def State.helloReplies (s : State) (i : Nat) (outcome : HelloOutcome) : State :=
  match s.sockets[i]? with
  | some socket =>
    if socket.life = .opened ∧ socket.hello = .pending then
      s.setSocket i { socket with hello := .replied outcome }
    else s
  | none => s

/-- The connection's `catch`: one that failed to negotiate is closed. -/
def State.helloCatch (s : State) (i : Nat) : State :=
  match s.sockets[i]? with
  | some socket =>
    match socket.hello with
    | .replied .accepted => s
    | .replied outcome => s.setSocket i { socket with hello := .rejected outcome, life := socket.life.close }
    | _ => s
  | none => s

/-- The socket closes: its other end did, or it failed, or its heartbeat or its hello timed out. -/
def State.closes (s : State) (i : Nat) : State := s.closeSocket i

/-- `wire.onclose`. A hello that waits for its reply fails with the connection. -/
def State.onclose (s : State) (i : Nat) : State :=
  match s.sockets[i]? with
  | some socket =>
    if socket.life = .closing then
      let hello :=
        if socket.hello = .pending then .rejected (.failed "Connection closed; outcome unknown")
        else socket.hello
      let s' := { s.setSocket i { socket with life := .gone, hello } with
        current := if s.current = some i then none else s.current }
      (if socket.negotiated ∧ !s.stopped then s'.report (.connecting none) else s').schedule
    else s
  | none => s

/-- What `connectNode` does of what the hello came to. The socket was closed before `ready` rejected, so
its `onclose` has run then. -/
def State.readySettles (s : State) (i : Nat) : State :=
  match s.sockets[i]? with
  | some socket =>
    match socket.hello with
    | .replied .accepted =>
      let s' := { s with lastFailure := none }
      if socket.life = .opened then
        (s'.setSocket i { socket with hello := .handled, negotiated := true }).report .connected
      else s'.setSocket i { socket with hello := .handled }
    | .rejected outcome =>
      if socket.life = .gone then
        let s' := s.setSocket i { socket with hello := .handled }
        if s.stopped then s'
        else
          match outcome with
          | .update buildId => s'.update buildId
          | .refused message => s'.refuse message
          | .failed message => s'.failed ("negotiation failed: " ++ message)
          | .accepted => s'
      else s
    | _ => s
  | none => s

/-- What the hello came to is still to be seen to. -/
def Hello.waiting : Hello → Bool
  | .replied _ => true
  | .rejected _ => true
  | _ => false

/-- A socket's microtasks are still to run. -/
def Socket.unsettled (k : Socket) : Bool := k.life == .closing || k.hello.waiting

def State.timerFires (s : State) (t : Nat) : State :=
  if t ∈ s.timers ∧ s.sockets.all fun k => !k.unsettled then
    { s with timers := s.timers.erase t, timer := none }.connect
  else s

def State.updateResolves (s : State) (u : Nat) : State :=
  if u ∈ s.updates then { s with updates := s.updates.erase u }.stop else s

def State.updateRejects (s : State) (u : Nat) (failure : String) : State :=
  if u ∈ s.updates then
    let s' := { s with updates := s.updates.erase u, updating := false }
    if s.stopped then s' else (s'.failed failure).schedule
  else s

inductive Event
  | dialOpens (dial : Nat)
  | dialFails (dial : Nat) (message : String)
  | helloReplies (socket : Nat) (outcome : HelloOutcome)
  | helloCatch (socket : Nat)
  | closes (socket : Nat)
  | onclose (socket : Nat)
  | readySettles (socket : Nat)
  | timerFires (timer : Nat)
  | updateResolves (update : Nat)
  | updateRejects (update : Nat) (failure : String)
  | stop

def step (s : State) : Event → State
  | .dialOpens d => s.dialOpens d
  | .dialFails d message => s.dialFails d message
  | .helloReplies i outcome => s.helloReplies i outcome
  | .helloCatch i => s.helloCatch i
  | .closes i => s.closes i
  | .onclose i => s.onclose i
  | .readySettles i => s.readySettles i
  | .timerFires t => s.timerFires t
  | .updateResolves u => s.updateResolves u
  | .updateRejects u failure => s.updateRejects u failure
  | .stop => s.stop

def run (canUpdate : Bool) (es : List Event) : State := Run.exec step (.init canUpdate) es

/-! ## What is asked of it -/

/-- The sockets that are open, or closed with their `onclose` still to run. -/
def State.openSockets (s : State) : Nat := s.sockets.countP fun k => k.life != .gone

structure Linked (s : State) : Prop where
  socket : s.openSockets ≤ 1
  dial : s.dials.length ≤ 1
  timer : s.timers.length ≤ 1
  one : s.stopped = false → s.dials.length + s.openSockets + s.timers.length + s.updates.length = 1
  refused : ∀ message, .refused message ∈ s.reports → s.stopped = true
  /-- Nothing that may come after a stop has it dial. -/
  ended : s.stopped = true → ∀ es, (Run.exec step s es).dialed = s.dialed
  updating : s.updates ≠ [] → ∀ e, (step s e).dialed = s.dialed

/-! ## The invariant -/

def State.load (s : State) : Nat := s.dials.length + s.openSockets + s.timers.length + s.updates.length

def State.lingering (s : State) : Nat := s.sockets.countP fun k => k.life == .gone && k.hello.waiting

/-- `owed` is 1 within an event, where the link's last holder went and the next is still to be set. -/
structure Inv (owed : Nat) (s : State) : Prop where
  load : s.load + owed ≤ 1
  live : s.stopped = false → s.load + owed = 1
  timers : s.timers = s.timer.toList
  stopped : s.stopped = true → s.timer = none
  updating : s.stopped = false → (s.updating = true ↔ s.updates ≠ [])
  /-- A socket's hello is seen to before the timer that its `onclose` set fires. -/
  lingering : s.stopped = false → s.lingering ≤ s.timers.length + owed
  refused : ∀ message, .refused message ∈ s.reports → s.stopped = true

section

variable {s : State} {n : Nat}

theorem Inv.timer_none (h : Inv n s) (ht : s.timers.length = 0) : s.timer = none := by
  cases hs : s.timer with
  | none => rfl
  | some t =>
    rw [h.timers, hs] at ht
    cases ht

theorem Inv.no_updates (h : Inv n s) (hs : s.stopped = false) (hu : s.updates.length = 0) : s.updating = false := by
  cases hk : s.updating with
  | false => rfl
  | true =>
    have hne := (h.updating hs).mp hk
    exact absurd (length_eq_zero_iff.mp hu) hne

theorem Inv.report (h : Inv n s) {state : LinkState} (hne : ∀ message, state ≠ .refused message) :
    Inv n (s.report state) := { h with
  refused := by
    intro message hm
    rcases mem_append.mp hm with hm | hm
    · exact h.refused message hm
    · exact absurd (mem_singleton.mp hm).symm (hne message) }

theorem Inv.failed (h : Inv n s) (failure : String) : Inv n (s.failed failure) := by
  unfold State.failed
  split
  · exact h
  have h' : Inv n { s with lastFailure := some failure } := { h with }
  exact h'.report (fun _ => nofun)

/-- What is owed, `schedule` pays. -/
theorem Inv.schedule (h : Inv 1 s) : Inv 0 s.schedule := by
  have hload : s.load = 0 := Nat.le_zero.mp (Nat.le_of_succ_le_succ h.load)
  have hzero : s.timers.length = 0 ∧ s.updates.length = 0 := by
    simp only [State.load] at hload
    omega
  cases hs : s.stopped with
  | true =>
    have he : s.schedule = s := if_pos (.inl hs)
    rw [he]
    refine ⟨?_, ?_, h.timers, h.stopped, ?_, ?_, h.refused⟩
    · omega
    all_goals
      intro hf
      cases hs.symm.trans hf
  | false =>
    have hu := h.no_updates hs hzero.2
    have ht := h.timer_none hzero.1
    have he : s.schedule = { s with timer := some s.next, timers := s.timers ++ [s.next], next := s.next + 1 } := by
      refine if_neg ?_
      rw [hs, hu, ht]
      decide
    have hnil : s.timers = [] := length_eq_zero_iff.mp hzero.1
    have hl : s.schedule.load = 1 := by
      rw [he]
      show s.dials.length + s.openSockets + (s.timers ++ [s.next]).length + s.updates.length = 1
      simp only [State.load] at hload
      rw [length_append, length_singleton]
      omega
    rw [he] at hl ⊢
    refine ⟨Nat.le_of_eq hl, fun _ => hl, ?_, ?_, h.updating, ?_, h.refused⟩
    · show s.timers ++ [s.next] = [s.next]
      rw [hnil, nil_append]
    · intro hf
      cases hs.symm.trans hf
    · intro _
      have hb := h.lingering hs
      show s.lingering ≤ (s.timers ++ [s.next]).length + 0
      rw [length_append]
      exact hb

/-! ### Sockets -/

theorem openSockets_setSocket {i : Nat} {k : Socket} (hk : s.sockets[i]? = some k)
    (k' : Socket) : (s.setSocket i k').openSockets + (if k.life != .gone then 1 else 0) =
      s.openSockets + if k'.life != .gone then 1 else 0 :=
  countP_set (fun k : Socket => k.life != .gone) hk k'

theorem lingering_setSocket {i : Nat} {k : Socket} (hk : s.sockets[i]? = some k)
    (k' : Socket) : (s.setSocket i k').lingering + (if k.life == .gone && k.hello.waiting then 1 else 0) =
      s.lingering + if k'.life == .gone && k'.hello.waiting then 1 else 0 :=
  countP_set (fun k : Socket => k.life == .gone && k.hello.waiting) hk k'

theorem Inv.setSocket (h : Inv n s) {i : Nat} {k k' : Socket} (hk : s.sockets[i]? = some k)
    (hlife : k'.life = .gone ↔ k.life = .gone)
    (hhello : k.life = .gone → k'.hello.waiting = true → k.hello.waiting = true) :
    Inv n (s.setSocket i k') := by
  have ho : (s.setSocket i k').openSockets = s.openSockets := by
    have hc := openSockets_setSocket hk k'
    by_cases hg : k.life = .gone
    · rw [hg, hlife.mpr hg] at hc
      exact hc
    have hg' := mt hlife.mp hg
    rw [bne_iff_ne.mpr hg, bne_iff_ne.mpr hg'] at hc
    exact Nat.add_right_cancel hc
  have hl : (s.setSocket i k').lingering ≤ s.lingering := by
    have hc := lingering_setSocket hk k'
    by_cases hw : k'.life = .gone ∧ k'.hello.waiting = true
    · have hg := hlife.mp hw.1
      rw [hg, hw.1, hw.2, hhello hg hw.2] at hc
      exact Nat.le_of_eq (Nat.add_right_cancel hc)
    have hf : (k'.life == .gone && k'.hello.waiting) = false := by
      refine eq_false_iff.mpr ?_
      intro ht
      rw [and_eq_true, beq_iff_eq] at ht
      exact hw ht
    rw [hf] at hc
    exact Nat.le_trans (Nat.le_add_right _ _) (Nat.le_of_eq hc)
  have hload : (s.setSocket i k').load = s.load := by
    simp only [State.load, ho]
    rfl
  refine { h with load := ?_, live := ?_, lingering := ?_ }
  · rw [hload]
    exact h.load
  · rw [hload]
    exact h.live
  · intro hs
    exact Nat.le_trans hl (h.lingering hs)

theorem Life.close_gone (life : Life) : life.close = .gone ↔ life = .gone := by
  cases life with
  | opened => exact ⟨nofun, nofun⟩
  | closing => exact ⟨nofun, nofun⟩
  | gone => exact Iff.rfl

theorem Inv.closeSocket (h : Inv n s) (i : Nat) : Inv n (s.closeSocket i) := by
  unfold State.closeSocket
  split
  next k hk =>
    exact h.setSocket hk (Life.close_gone k.life) (fun _ hw => hw)
  · exact h

/-! ### Stopping -/

theorem clearTimer_spec (ht : s.timers = s.timer.toList) : s.clearTimer = { s with timer := none, timers := [] } := by
  unfold State.clearTimer
  split
  next t hs =>
    rw [ht, hs, Option.toList_some, erase_cons_head]
  rename_i hs
  rw [hs] at ht
  cases s
  cases hs
  cases ht
  rfl

theorem Inv.of_stop (ht : s.timers = s.timer.toList) (hload : s.load ≤ 1) : Inv 0 s.stop := by
  have hc : { s with stopped := true }.clearTimer = { s with stopped := true, timer := none, timers := [] } :=
    clearTimer_spec (s := { s with stopped := true }) ht
  have h : Inv 0 { s with stopped := true, timer := none, timers := [] } := by
    refine ⟨?_, nofun, rfl, fun _ => rfl, nofun, nofun, fun _ _ => rfl⟩
    show s.dials.length + s.openSockets + 0 + s.updates.length + 0 ≤ 1
    simp only [State.load] at hload
    omega
  unfold State.stop
  rw [hc]
  split
  next i hi =>
    have h' := h.closeSocket i
    exact { h' with }
  · exact h

theorem Inv.stop (h : Inv n s) : Inv 0 s.stop := .of_stop h.timers (Nat.le_trans (Nat.le_add_right _ _) h.load)

theorem stop_stopped (s : State) : s.stop.stopped = true := by
  have hclear : ∀ s' : State, s'.clearTimer.stopped = s'.stopped := by
    intro s'
    unfold State.clearTimer
    split <;> rfl
  have hclose : ∀ (s' : State) (i : Nat), (s'.closeSocket i).stopped = s'.stopped := by
    intro s' i
    unfold State.closeSocket
    split <;> rfl
  unfold State.stop
  split
  · exact (hclose _ _).trans (hclear _)
  · exact hclear _

theorem Inv.refuse (h : Inv n s) (message : String) : Inv 0 (s.refuse message) := by
  have h' := h.stop
  exact { h' with refused := fun _ _ => stop_stopped s }

theorem Inv.le_one (h : Inv 0 s) :
    s.dials.length ≤ 1 ∧ s.openSockets ≤ 1 ∧ s.timers.length ≤ 1 ∧ s.updates.length ≤ 1 := by
  have hload := h.load
  rw [State.load] at hload
  omega

theorem Inv.only_dial (h : Inv 0 s) {d : Nat} (hd : d ∈ s.dials) :
    s.openSockets = 0 ∧ s.timers.length = 0 ∧ s.updates.length = 0 := by
  have hload := h.load
  have hpos := length_pos_of_mem hd
  rw [State.load] at hload
  omega

theorem Inv.only_timer (h : Inv 0 s) (ht : 0 < s.timers.length) :
    s.dials.length = 0 ∧ s.openSockets = 0 ∧ s.updates.length = 0 := by
  have hload := h.load
  rw [State.load] at hload
  omega

theorem Inv.only_update (h : Inv 0 s) (hu : s.updates ≠ []) :
    s.dials.length = 0 ∧ s.openSockets = 0 ∧ s.timers.length = 0 := by
  have hload := h.load
  have hpos := length_pos_iff.mpr hu
  rw [State.load] at hload
  omega

/-! ### The dial -/

theorem Inv.dialEnds (h : Inv 0 s) {d : Nat} (hd : d ∈ s.dials) : Inv 1 { s with dials := s.dials.erase d } := by
  have hlen := length_erase_of_mem hd
  have hpos := length_pos_of_mem hd
  have hload : State.load { s with dials := s.dials.erase d } + 1 = s.load := by
    show (s.dials.erase d).length + s.openSockets + s.timers.length + s.updates.length + 1 =
      s.dials.length + s.openSockets + s.timers.length + s.updates.length
    omega
  refine { h with load := ?_, live := ?_, lingering := ?_ }
  · rw [hload]
    exact h.load
  · rw [hload]
    exact h.live
  · intro hs
    exact Nat.le_succ_of_le (h.lingering hs)

theorem Inv.dialFails (h : Inv 0 s) (d : Nat) (message : String) : Inv 0 (s.dialFails d message) := by
  unfold State.dialFails
  split
  next hd =>
    exact ((h.dialEnds hd).failed _).schedule
  · exact h

theorem openSockets_concat (s : State) (k : Socket) : State.openSockets { s with sockets := s.sockets ++ [k] } =
      s.openSockets + if k.life != .gone then 1 else 0 := by
  show (s.sockets ++ [k]).countP _ = s.sockets.countP _ + _
  rw [countP_append, countP_singleton]

theorem lingering_concat (s : State) (k : Socket) (hk : k.hello.waiting = false) :
    State.lingering { s with sockets := s.sockets ++ [k] } = s.lingering := by
  show (s.sockets ++ [k]).countP _ = s.sockets.countP _
  rw [countP_append, countP_singleton, hk, Bool.and_false]
  rfl

/-- Nothing lingers while a dial is under way, so that its socket is the only one to be seen to. -/
theorem Inv.opened (h : Inv 1 s) (hl : s.stopped = false → s.lingering = 0) : Inv 0 s.opened := by
  have hzero : s.load = 0 := Nat.le_zero.mp (Nat.le_of_succ_le_succ h.load)
  unfold State.opened
  split
  next hs =>
    have ho := openSockets_concat s ⟨.gone, .handled, false⟩
    have hload : State.load { s with sockets := s.sockets ++ [⟨.gone, .handled, false⟩] } = 0 := by
      rw [← hzero]
      simp only [State.load, ho]
      rfl
    refine ⟨?_, ?_, h.timers, h.stopped, ?_, ?_, h.refused⟩
    · rw [hload]
      exact Nat.zero_le 1
    all_goals
      intro hf
      cases hs.symm.trans hf
  next hs =>
    have hs' : s.stopped = false := eq_false_iff.mpr hs
    have ho := openSockets_concat s ⟨.opened, .pending, false⟩
    have hg := lingering_concat s ⟨.opened, .pending, false⟩ rfl
    have hload : State.load { s with
        sockets := s.sockets ++ [⟨.opened, .pending, false⟩], current := some s.sockets.length } =
        1 := by
      simp only [State.load] at hzero
      show s.dials.length + State.openSockets { s with sockets := s.sockets ++ [_] } +
        s.timers.length + s.updates.length = 1
      rw [ho]
      show s.dials.length + (s.openSockets + 1) + s.timers.length + s.updates.length = 1
      omega
    refine { h with load := Nat.le_of_eq hload, live := fun _ => hload, lingering := ?_ }
    intro _
    show State.lingering { s with sockets := s.sockets ++ [_] } ≤ _
    rw [hg, hl hs']
    exact Nat.zero_le _

theorem Inv.dialOpens (h : Inv 0 s) (d : Nat) : Inv 0 (s.dialOpens d) := by
  unfold State.dialOpens
  split
  next hd =>
    refine (h.dialEnds hd).opened ?_
    intro hs
    have hl := h.lingering hs
    rw [(h.only_dial hd).2.1] at hl
    exact Nat.le_zero.mp hl
  · exact h

/-! ### The hello -/

theorem Inv.helloReplies (h : Inv 0 s) (i : Nat) (outcome : HelloOutcome) : Inv 0 (s.helloReplies i outcome) := by
  unfold State.helloReplies
  split
  next k hk =>
    split
    next hc =>
      refine h.setSocket hk Iff.rfl ?_
      intro hg
      cases hc.1.symm.trans hg
    · exact h
  · exact h

theorem Inv.helloCatch (h : Inv 0 s) (i : Nat) : Inv 0 (s.helloCatch i) := by
  unfold State.helloCatch
  split
  next k hk =>
    split
    · exact h
    next outcome _ hr =>
      refine h.setSocket hk (Life.close_gone k.life) ?_
      intro _ _
      rw [hr]
      rfl
    · exact h
  · exact h

/-- The socket's turn passes to the timer; its hello may now linger. -/
theorem Inv.onclose (h : Inv 0 s) (i : Nat) : Inv 0 (s.onclose i) := by
  unfold State.onclose
  split
  next k hk =>
    split
    next hc =>
      let hello : Hello := if k.hello = .pending then
        .rejected (.failed "Connection closed; outcome unknown") else k.hello
      have ho := openSockets_setSocket hk { k with life := .gone, hello }
      have hl := lingering_setSocket hk { k with life := .gone, hello }
      rw [hc] at ho hl
      have ho' : (s.setSocket i { k with life := .gone, hello }).openSockets + 1 = s.openSockets := ho
      have hl' : (s.setSocket i { k with life := .gone, hello }).lingering ≤ s.lingering + 1 := by
        refine Nat.le_trans (Nat.le_of_eq hl) (Nat.add_le_add_left ?_ _)
        split
        · exact Nat.le_refl 1
        · exact Nat.zero_le 1
      have hload : (s.setSocket i { k with life := .gone, hello }).load + 1 = s.load := by
        simp only [State.load]
        rw [← ho']
        show s.dials.length + _ + s.timers.length + s.updates.length + 1 = _
        omega
      have hb : Inv 1 { s.setSocket i { k with life := .gone, hello } with
          current := if s.current = some i then none else s.current } := by
        refine { h with load := ?_, live := ?_, lingering := ?_ }
        · exact Nat.le_trans (Nat.le_of_eq hload) h.load
        · intro hs
          exact hload.trans (h.live hs)
        · intro hs
          exact Nat.le_trans hl' (Nat.succ_le_succ (h.lingering hs))
      have hne : ∀ message, LinkState.connecting none ≠ .refused message := fun _ => nofun
      show Inv 0 (State.schedule (if _ then _ else _))
      split
      · exact (hb.report hne).schedule
      · exact hb.schedule
    · exact h
  · exact h

/-- The update takes the turn of the timer, that the socket's `onclose` set. -/
theorem Inv.update (h : Inv 0 s) (ht : 0 < s.timers.length) (hl : s.lingering = 0)
    (buildId : String) : Inv 0 (s.update buildId) := by
  have hrest := h.only_timer ht
  have hc : { s with updating := true }.clearTimer = { s with updating := true, timer := none, timers := [] } :=
    clearTimer_spec (s := { s with updating := true }) h.timers
  unfold State.update
  split
  · exact h.refuse _
  rw [hc]
  have hload : s.dials.length + s.openSockets + 0 + (s.updates ++ [s.next]).length = 1 := by
    rw [length_append, length_singleton]
    omega
  refine ⟨Nat.le_of_eq hload, fun _ => hload, rfl, fun _ => rfl, ?_, ?_, h.refused⟩
  · intro _
    exact ⟨fun _ => append_ne_nil_of_right_ne_nil _ (cons_ne_nil _ _), fun _ => rfl⟩
  · intro _
    exact Nat.le_of_eq hl

theorem Inv.readySettles (h : Inv 0 s) (i : Nat) : Inv 0 (s.readySettles i) := by
  unfold State.readySettles
  split
  next k hk =>
    split
    · have h₀ : Inv 0 { s with lastFailure := none } := { h with }
      have hne : ∀ message, LinkState.connected ≠ .refused message := fun _ => nofun
      show Inv 0 (if _ then _ else _)
      split
      · have h' : Inv 0 (State.setSocket { s with lastFailure := none } i
            { k with hello := .handled, negotiated := true }) :=
          h₀.setSocket hk Iff.rfl (fun _ => nofun)
        exact h'.report hne
      · exact h₀.setSocket hk Iff.rfl (fun _ => nofun)
    next outcome hr =>
      split
      next hg =>
        have h' : Inv 0 (s.setSocket i { k with hello := .handled }) := h.setSocket hk Iff.rfl (fun _ => nofun)
        show Inv 0 (if _ then _ else _)
        split
        · exact h'
        rename_i hs
        have hs' : s.stopped = false := eq_false_iff.mpr hs
        have hl := lingering_setSocket hk { k with hello := .handled }
        have hl' : (s.setSocket i { k with hello := .handled }).lingering + 1 = s.lingering := by
          simp only [hg, hr] at hl ⊢
          exact hl
        have hb := h.lingering hs'
        have hle := h.le_one.2.2.1
        have ht : 0 < s.timers.length := by omega
        cases outcome with
        | accepted => exact h'
        | update buildId => exact h'.update ht (by omega) buildId
        | refused message => exact h'.refuse message
        | failed message => exact h'.failed _
      · exact h
    · exact h
  · exact h

/-! ### The timer and the update -/

theorem lingering_zero (h : (s.sockets.all fun k => !k.unsettled) = true) : s.lingering = 0 := by
  refine countP_eq_zero.mpr ?_
  intro k hk hw
  have hu := all_eq_true.mp h k hk
  rw [and_eq_true] at hw
  rw [Socket.unsettled, hw.2, Bool.or_true] at hu
  cases hu

theorem Inv.timerFires (h : Inv 0 s) (t : Nat) : Inv 0 (s.timerFires t) := by
  unfold State.timerFires
  split
  next hc =>
    have hrest := h.only_timer (length_pos_of_mem hc.1)
    have hnil : s.timers.erase t = [] := by
      refine length_eq_zero_iff.mp ?_
      have hlen := length_erase_of_mem hc.1
      have hle := h.le_one.2.2.1
      omega
    have hs : s.stopped = false := by
      cases hs : s.stopped with
      | false => rfl
      | true =>
        have ht := h.timers
        rw [h.stopped hs] at ht
        rw [ht] at hc
        exact absurd hc.1 not_mem_nil
    have hload : (s.dials ++ [s.next]).length + s.openSockets + 0 + s.updates.length = 1 := by
      rw [length_append, length_singleton]
      omega
    rw [State.connect, if_neg (by rw [hs]; decide), hnil]
    refine ⟨Nat.le_of_eq hload, fun _ => hload, rfl, fun _ => rfl, h.updating, ?_, h.refused⟩
    intro _
    exact Nat.le_of_eq (lingering_zero hc.2)
  · exact h

theorem load_update_erase {u : Nat} (hu : u ∈ s.updates) :
    s.dials.length + s.openSockets + s.timers.length + (s.updates.erase u).length + 1 = s.load := by
  have hlen := length_erase_of_mem hu
  have hpos := length_pos_of_mem hu
  rw [State.load]
  omega

theorem Inv.updateResolves (h : Inv 0 s) (u : Nat) : Inv 0 (s.updateResolves u) := by
  unfold State.updateResolves
  split
  next hu =>
    refine .of_stop h.timers ?_
    exact Nat.le_of_succ_le (Nat.le_trans (Nat.le_of_eq (load_update_erase hu))
      (Nat.le_trans (Nat.le_add_right _ _) h.load))
  · exact h

theorem Inv.updateRejects (h : Inv 0 s) (u : Nat) (failure : String) : Inv 0 (s.updateRejects u failure) := by
  unfold State.updateRejects
  split
  next hu =>
    have he := load_update_erase hu
    have hnil : s.updates.erase u = [] := by
      refine length_eq_zero_iff.mp ?_
      have hlen := length_erase_of_mem hu
      have hle := h.le_one.2.2.2
      omega
    have h₁ : Inv 1 { s with updates := s.updates.erase u, updating := false } := by
      refine ⟨?_, ?_, h.timers, h.stopped, ?_, ?_, h.refused⟩
      · exact Nat.le_trans (Nat.le_of_eq he) h.load
      · intro hs
        exact he.trans (h.live hs)
      · intro _
        exact ⟨nofun, fun hne => absurd hnil hne⟩
      · intro hs
        exact Nat.le_succ_of_le (h.lingering hs)
    show Inv 0 (if _ then _ else _)
    split
    next hs =>
      have hoff : s.stopped = false → False := fun hf => absurd (hs.symm.trans hf) (by decide)
      exact { h₁ with load := Nat.le_of_succ_le h₁.load, live := fun hf => (hoff hf).elim, lingering := fun hf => (hoff hf).elim }
    · exact (h₁.failed failure).schedule
  · exact h

theorem Inv.kept (h : Inv 0 s) (e : Event) : Inv 0 (step s e) := by
  cases e with
  | dialOpens d => exact h.dialOpens d
  | dialFails d message => exact h.dialFails d message
  | helloReplies i outcome => exact h.helloReplies i outcome
  | helloCatch i => exact h.helloCatch i
  | closes i => exact h.closeSocket i
  | onclose i => exact h.onclose i
  | readySettles i => exact h.readySettles i
  | timerFires t => exact h.timerFires t
  | updateResolves u => exact h.updateResolves u
  | updateRejects u failure => exact h.updateRejects u failure
  | stop => exact h.stop

theorem inv_init (canUpdate : Bool) : Inv 0 (.init canUpdate) :=
  ⟨Nat.le_refl 1, fun _ => rfl, rfl, nofun, fun _ => ⟨nofun, fun hne => absurd rfl hne⟩, fun _ => Nat.le_refl 0, nofun⟩

theorem inv_run (canUpdate : Bool) (es : List Event) : Inv 0 (run canUpdate es) :=
  Run.exec_invariant (Inv 0) (fun _ e h => h.kept e) (inv_init canUpdate) es

/-! ## When it dials -/

/-- A part of an event that does not dial, and does not take back a stop. -/
structure Keeps (s s' : State) : Prop where
  dialed : s'.dialed = s.dialed
  stopped : s.stopped = true → s'.stopped = true

theorem Keeps.same : Keeps s s := ⟨.refl _, id⟩

theorem Keeps.trans {s₁ s₂ s₃ : State} (h : Keeps s₁ s₂) (h' : Keeps s₂ s₃) : Keeps s₁ s₃ :=
  ⟨h'.dialed.trans h.dialed, fun hs => h'.stopped (h.stopped hs)⟩

/-- The states that differ in nothing a `Keeps` speaks of. -/
theorem Keeps.of_eq {s' : State} (hd : s'.dialed = s.dialed) (hs : s'.stopped = s.stopped) :
    Keeps s s' := ⟨hd, hs.trans⟩

theorem Keeps.schedule (s : State) : Keeps s s.schedule := by
  unfold State.schedule
  split
  · exact .same
  · exact .of_eq rfl rfl

theorem Keeps.clearTimer (s : State) : Keeps s s.clearTimer := by
  unfold State.clearTimer
  split
  · exact .of_eq rfl rfl
  · exact .same

theorem Keeps.failed (s : State) (failure : String) : Keeps s (s.failed failure) := by
  unfold State.failed
  split
  · exact .same
  · exact .of_eq rfl rfl

theorem Keeps.closeSocket (s : State) (i : Nat) : Keeps s (s.closeSocket i) := by
  unfold State.closeSocket
  split
  · exact .of_eq rfl rfl
  · exact .same

theorem Keeps.stop (s : State) : Keeps s s.stop := by
  have hs : Keeps s { s with stopped := true } := ⟨rfl, fun _ => rfl⟩
  have hc := hs.trans (.clearTimer _)
  unfold State.stop
  split
  · exact (hc.trans (.closeSocket _ _)).trans (.of_eq rfl rfl)
  · exact hc

theorem Keeps.update (s : State) (buildId : String) : Keeps s (s.update buildId) := by
  unfold State.update
  split
  · exact (Keeps.stop s).trans (.of_eq rfl rfl)
  · have hu : Keeps s { s with updating := true } := .of_eq rfl rfl
    exact (hu.trans (.clearTimer _)).trans (.of_eq rfl rfl)

theorem Keeps.opened (s : State) : Keeps s s.opened := by
  unfold State.opened
  split
  · exact .of_eq rfl rfl
  · exact .of_eq rfl rfl

theorem Keeps.readySettles (s : State) (i : Nat) : Keeps s (s.readySettles i) := by
  unfold State.readySettles
  split
  · split
    · show Keeps s (if _ then _ else _)
      split
      · exact .of_eq rfl rfl
      · exact .of_eq rfl rfl
    next k _ _ outcome _ =>
      split
      · have h' : Keeps s (s.setSocket i { k with hello := .handled }) := .of_eq rfl rfl
        show Keeps s (if _ then _ else _)
        split
        · exact h'
        cases outcome with
        | accepted => exact h'
        | update buildId => exact h'.trans (.update _ _)
        | refused message => exact (h'.trans (.stop _)).trans (.of_eq rfl rfl)
        | failed message => exact h'.trans (.failed _ _)
      · exact .same
    · exact .same
  · exact .same

theorem Keeps.onclose (s : State) (i : Nat) : Keeps s (s.onclose i) := by
  unfold State.onclose
  split
  · split
    · show Keeps s (State.schedule (if _ then _ else _))
      split
      · refine Keeps.trans ?_ (.schedule _)
        exact .of_eq rfl rfl
      · refine Keeps.trans ?_ (.schedule _)
        exact .of_eq rfl rfl
    · exact .same
  · exact .same

theorem Keeps.updateRejects (s : State) (u : Nat) (failure : String) : Keeps s (s.updateRejects u failure) := by
  unfold State.updateRejects
  split
  · show Keeps s (if _ then _ else _)
    split
    · exact .of_eq rfl rfl
    · refine Keeps.trans ?_ ((Keeps.failed _ _).trans (.schedule _))
      exact .of_eq rfl rfl
  · exact .same

theorem step_keeps (s : State) (e : Event) (he : ∀ t, e = .timerFires t → s.timers = []) : Keeps s (step s e) := by
  cases e with
  | dialOpens d =>
    show Keeps s (if _ then _ else _)
    split
    · refine Keeps.trans ?_ (.opened _)
      exact .of_eq rfl rfl
    · exact .same
  | dialFails d message =>
    show Keeps s (if _ then _ else _)
    split
    · refine Keeps.trans ?_ ((Keeps.failed _ _).trans (.schedule _))
      exact .of_eq rfl rfl
    · exact .same
  | helloReplies i outcome =>
    show Keeps s (s.helloReplies i outcome)
    unfold State.helloReplies
    split
    · split
      · exact .of_eq rfl rfl
      · exact .same
    · exact .same
  | helloCatch i =>
    show Keeps s (s.helloCatch i)
    unfold State.helloCatch
    split
    · split
      · exact .same
      · exact .of_eq rfl rfl
      · exact .same
    · exact .same
  | closes i => exact .closeSocket s i
  | onclose i => exact .onclose s i
  | readySettles i => exact .readySettles s i
  | timerFires t =>
    have hf : ¬ (t ∈ s.timers ∧ (s.sockets.all fun k => !k.unsettled) = true) := by
      rw [he t rfl]
      exact fun hc => not_mem_nil hc.1
    have hstep : step s (.timerFires t) = s := if_neg hf
    rw [hstep]
    exact .same
  | updateResolves u =>
    show Keeps s (if _ then _ else _)
    split
    · refine Keeps.trans ?_ (.stop _)
      exact .of_eq rfl rfl
    · exact .same
  | updateRejects u failure => exact .updateRejects s u failure
  | stop => exact .stop s

theorem Inv.idle (h : Inv 0 s) (hs : s.stopped = true ∨ s.updates ≠ []) (e : Event) : Keeps s (step s e) := by
  refine step_keeps s e ?_
  intro _ _
  cases hs with
  | inl hs =>
    rw [h.timers, h.stopped hs]
    rfl
  | inr hu => exact length_eq_zero_iff.mp (h.only_update hu).2.2

theorem Inv.ended (h : Inv 0 s) (hs : s.stopped = true) (es : List Event) : (Run.exec step s es).dialed = s.dialed := by
  have hrun := Run.exec_invariant (fun s' => Inv 0 s' ∧ Keeps s s' ∧ s'.stopped = true)
    (fun s' e h' => ⟨h'.1.kept e, h'.2.1.trans (h'.1.idle (.inl h'.2.2) e),
      (h'.1.idle (.inl h'.2.2) e).stopped h'.2.2⟩) ⟨h, .same, hs⟩ es
  exact hrun.2.1.dialed

end

/-! ## A dial over a WebSocket (`dialWebSocket`)

A WebSocket calls `onopen` at most once, and nothing after `onclose`. One that was closed while it
connected may call neither. -/

inductive Readiness
  | connecting
  | opened
  | closed
  deriving DecidableEq

structure Dial where
  ws : Readiness
  timedOut : Bool
  /-- The timeout is set, and neither fired nor cleared. -/
  timeout : Bool
  wire : Bool
  /-- How often `opened` was called. -/
  opened : Nat
  /-- What the promise came to first; `true` is resolved. -/
  outcome : Option Bool

def Dial.init : Dial :=
  { ws := .connecting, timedOut := false, timeout := true, wire := false, opened := 0,
    outcome := none }

def Dial.settle (d : Dial) (resolved : Bool) : Dial := { d with outcome := d.outcome.orElse fun _ => some resolved }

inductive DialEvent
  | timeout
  | onopen
  | onclose

def Dial.step (d : Dial) : DialEvent → Dial
  | .timeout => if d.timeout then { d with timeout := false, timedOut := true }.settle false else d
  | .onopen =>
    if d.ws = .connecting then
      let d' := { d with ws := .opened }
      if d.timedOut then d'
      else { d' with timeout := false, wire := true, opened := d.opened + 1 }.settle true
    else d
  | .onclose =>
    if d.ws = .closed then d
    else
      let d' := { d with ws := .closed, timeout := false }
      if !d.wire && !d.timedOut then d'.settle false else d'

/-- A dial either calls `opened`, once, or is rejected, and until then its timeout is set. -/
inductive Dial.Settles (d : Dial) : Prop
  | pending (ws : d.ws = .connecting) (timedOut : d.timedOut = false) (timeout : d.timeout = true)
      (wire : d.wire = false) (opened : d.opened = 0) (outcome : d.outcome = none)
  | resolved (ws : d.ws ≠ .connecting) (timeout : d.timeout = false) (wire : d.wire = true)
      (opened : d.opened = 1) (outcome : d.outcome = some true)
  | rejected (ws : d.timedOut = true ∨ d.ws = .closed) (timeout : d.timeout = false)
      (wire : d.wire = false) (opened : d.opened = 0) (outcome : d.outcome = some false)

theorem Dial.Settles.kept {d : Dial} (h : d.Settles) (e : DialEvent) : (d.step e).Settles := by
  cases h with
  | pending ws timedOut timeout wire opened outcome =>
    cases e with
    | timeout =>
      rw [Dial.step, if_pos timeout]
      refine .rejected (.inl rfl) rfl wire opened ?_
      rw [Dial.settle, outcome]
      rfl
    | onopen =>
      rw [Dial.step, if_pos ws, if_neg (by rw [timedOut]; decide)]
      refine .resolved nofun rfl rfl (congrArg (· + 1) opened) ?_
      rw [Dial.settle, outcome]
      rfl
    | onclose =>
      rw [Dial.step, if_neg (by rw [ws]; decide), if_pos (by rw [wire, timedOut]; decide)]
      refine .rejected (.inr rfl) rfl wire opened ?_
      rw [Dial.settle, outcome]
      rfl
  | resolved ws timeout wire opened outcome =>
    cases e with
    | timeout =>
      rw [Dial.step, if_neg (by rw [timeout]; decide)]
      exact .resolved ws timeout wire opened outcome
    | onopen =>
      rw [Dial.step, if_neg ws]
      exact .resolved ws timeout wire opened outcome
    | onclose =>
      rw [Dial.step]
      split
      · exact .resolved ws timeout wire opened outcome
      · rw [if_neg (by rw [wire, Bool.not_true, Bool.false_and]; decide)]
        exact .resolved nofun rfl wire opened outcome
  | rejected ws timeout wire opened outcome =>
    cases e with
    | timeout =>
      rw [Dial.step, if_neg (by rw [timeout]; decide)]
      exact .rejected ws timeout wire opened outcome
    | onopen =>
      rw [Dial.step]
      split
      next hc =>
        cases ws with
        | inl ht =>
          rw [if_pos ht]
          exact .rejected (.inl ht) timeout wire opened outcome
        | inr hw => cases hc.symm.trans hw
      · exact .rejected ws timeout wire opened outcome
    | onclose =>
      rw [Dial.step]
      split
      · exact .rejected ws timeout wire opened outcome
      have ht : d.timedOut = true := ws.resolve_right ‹_›
      rw [if_neg (by rw [ht, Bool.not_true, Bool.and_false]; decide)]
      exact .rejected (.inr rfl) rfl wire opened outcome

theorem dial_settles (es : List DialEvent) : (Run.exec Dial.step .init es).Settles :=
  Run.exec_invariant Dial.Settles (fun _ e h => h.kept e) (.pending rfl rfl rfl rfl rfl rfl) es

/-! ## Every run -/

/-- In every state a link to the server comes to, there is at most one socket, one dial and one timer; a
link that was not stopped has exactly one of a dial, a socket, a timer and an update, and one that was
stopped or refused, or that is updating, does not dial. -/
theorem linked (canUpdate : Bool) (es : List Event) : Linked (run canUpdate es) := by
  have h := inv_run canUpdate es
  exact
    { socket := h.le_one.2.1
      dial := h.le_one.1
      timer := h.le_one.2.2.1
      one := h.live
      refused := h.refused
      ended := h.ended
      updating := fun hu e => (h.idle (.inr hu) e).dialed }

end Reins.Reconnecting
