import Reins.Lib.Places
import Reins.Lib.Run

/-!
# Live session runtimes (`backend/src/session-runtime/live.ts`, `process-state.ts`)

The process has a runtime of a session in `live` and an opening in progress in `opening`. Both are by
session, and so is everything that reads them: a session is a machine of its own here, and a sweep or a
retirement is a step of each session it comes to. A runtime that is taken out is closed, which takes as
long as it takes; only an opening that takes one out waits for it.
-/

namespace Reins.LiveSessions

open Places List

abbrev SessionId := String
/-- A runtime's place among those of its session. -/
abbrev RuntimeId := Nat
abbrev OpeningId := Nat
abbrev CallerId := Nat

inductive RuntimePhase
  | building
  | opened
  | closing
  | closed
  deriving DecidableEq

structure OpenSession where
  runtime : RuntimeId
  binding : String
  lastActivity : Nat
  retired : Bool
  faulted : Bool
  deriving DecidableEq

inductive Opening
  | closing (binding : String) (existing : RuntimeId)
  | building (binding : String) (runtime : RuntimeId)
  | resolved (runtime : RuntimeId)
  | rejected
  deriving DecidableEq

inductive Caller
  | returned (runtime : RuntimeId)
  | joined (opening : OpeningId)
  | got (runtime : RuntimeId) (registered : Bool)
  | failed
  deriving DecidableEq

structure Session where
  live : Option OpenSession
  opening : Option OpeningId
  runtimes : List RuntimePhase
  isStreaming : RuntimeId → Bool
  openings : List Opening
  callers : List Caller
  /-- Calls of `closeSessionRuntime`, with the opening each waits for. -/
  closers : List (Option OpeningId)

def Session.init : Session :=
  { live := none, opening := none, runtimes := [], isStreaming := fun _ => false, openings := [],
    callers := [], closers := [] }

def Session.setPhase (s : Session) (r : RuntimeId) (phase : RuntimePhase) : Session :=
  { s with runtimes := s.runtimes.set r phase }

variable {t : Opening} {o : OpeningId} {c : Caller}

def Session.takeOut (s : Session) : Session :=
  match s.live with
  | none => s
  | some e => { s with live := none }.setPhase e.runtime .closing

def Session.touch (s : Session) (now : Nat) : Session :=
  { s with live := s.live.map fun e => { e with lastActivity := now } }

/-! ## `openSessionRuntime` -/

def Session.current (s : Session) (binding : String) : Option OpenSession :=
  s.live.filter fun e => e.binding = binding ∧ !e.retired ∧ !e.faulted

def Session.replaces (s : Session) (e : OpenSession) : Bool := e.faulted || !s.isStreaming e.runtime

def Session.addOpening (s : Session) (opening : Opening) : Session :=
  { s with openings := s.openings ++ [opening], opening := some s.openings.length }

def Session.addRuntime (s : Session) : Session := { s with runtimes := s.runtimes ++ [.building] }

/-- A new opening, up to its first await. -/
def Session.startOpening (s : Session) (binding : String) (now : Nat) : Session :=
  match s.live with
  | some e =>
    if s.replaces e then s.takeOut.addOpening (.closing binding e.runtime)
    -- it runs: refused under another binding, else used until it is idle
    else if e.binding ≠ binding then s.addOpening .rejected
    else (s.touch now).addOpening (.resolved e.runtime)
  -- nothing is waited for: one taken out by others may still be closing
  | none => s.addRuntime.addOpening (.building binding s.runtimes.length)

def Session.addCaller (s : Session) (caller : Caller) : Session := { s with callers := s.callers ++ [caller] }

def Session.openSessionRuntime (s : Session) (binding : String) (now : Nat) : Session :=
  match s.current binding with
  | some e => (s.touch now).addCaller (.returned e.runtime)
  | none =>
    match s.opening with
    | some o => s.addCaller (.joined o)
    | none => (s.startOpening binding now).addCaller (.joined s.openings.length)

def Session.build (s : Session) (o : OpeningId) : Session :=
  match s.openings[o]? with
  | some (.closing binding r) =>
    if s.runtimes[r]? = some .closed then
      { s.addRuntime with openings := s.openings.set o (.building binding s.runtimes.length) }
    else s
  | _ => s

def Session.built (s : Session) (o : OpeningId) (retired : Bool) (now : Nat) : Session :=
  match s.openings[o]? with
  | some (.building binding r) =>
    { s.setPhase r .opened with
      live := some { runtime := r, binding, lastActivity := now, retired, faulted := false }
      openings := s.openings.set o (.resolved r) }
  | _ => s

def Session.buildFailed (s : Session) (o : OpeningId) : Session :=
  match s.openings[o]? with
  | some (.building _ r) => { s.setPhase r .closed with openings := s.openings.set o .rejected }
  | _ => s

def Opening.settled : Opening → Bool
  | .resolved _ | .rejected => true
  | .closing .. | .building .. => false

/-- `opened.finally`. -/
def Session.openingDone (s : Session) (o : OpeningId) : Session :=
  if s.opening = some o ∧ (s.openings[o]?).any Opening.settled then { s with opening := none } else s

def Session.promised (s : Session) : Caller → Option RuntimeId
  | .returned r => some r
  | .joined o =>
    match s.openings[o]? with
    | some (.resolved r) => some r
    | _ => none
  | .got .. | .failed => none

def Session.registered (s : Session) (r : RuntimeId) : Bool := s.live.any fun e => e.runtime = r

def Session.deliver (s : Session) (c : CallerId) : Session :=
  match s.callers[c]? with
  | none => s
  | some caller =>
    match s.promised caller with
    | some r => { s with callers := s.callers.set c (.got r (s.registered r)) }
    | none =>
      match caller with
      | .joined o => if s.openings[o]? = some .rejected then { s with callers := s.callers.set c .failed } else s
      | _ => s

/-! ## Closing -/

/-- A call of `closeSessionRuntime` goes on: with no opening to wait for, or a settled one. -/
def Session.closerReady (s : Session) (i : Nat) : Bool :=
  match s.closers[i]? with
  | none => false
  | some none => true
  | some (some o) => (s.openings[o]?).any Opening.settled

def Session.closeOn (s : Session) (i : Nat) : Session :=
  if s.closerReady i then { s with closers := s.closers.eraseIdx i }.takeOut else s

def Session.sweeps (s : Session) (idleMs now : Nat) : Bool :=
  s.live.any fun e => s.opening.isNone && !s.isStreaming e.runtime &&
    (e.retired || decide (e.lastActivity + idleMs ≤ now))

def Session.sweep (s : Session) (idleMs now : Nat) : Session := if s.sweeps idleMs now then s.takeOut else s

def Session.retires (s : Session) : Bool := s.live.any fun e => !s.isStreaming e.runtime

def Session.retire (s : Session) : Session :=
  if s.retires then s.takeOut
  else { s with live := s.live.map fun e => { e with retired := true } }

/-! ## Events -/

inductive Event
  | open (binding : String) (now : Nat)
  /-- A runtime's `close` has settled. -/
  | closed (r : RuntimeId)
  | build (o : OpeningId)
  | built (o : OpeningId) (retired : Bool) (now : Nat)
  | buildFailed (o : OpeningId)
  | openingDone (o : OpeningId)
  | deliver (c : CallerId)
  /-- `closeSessionRuntime`, and where it goes on. -/
  | close
  | closeOn (i : Nat)
  | sweep (now : Nat)
  | retire
  | streaming (r : RuntimeId) (on : Bool)
  | activity (r : RuntimeId) (now : Nat)
  | fault (r : RuntimeId)

def Session.step (idleMs : Nat) (s : Session) : Event → Session
  | .open binding now => s.openSessionRuntime binding now
  | .closed r => if s.runtimes[r]? = some .closing then s.setPhase r .closed else s
  | .build o => s.build o
  | .built o retired now => s.built o retired now
  | .buildFailed o => s.buildFailed o
  | .openingDone o => s.openingDone o
  | .deliver c => s.deliver c
  | .close => { s with closers := s.closers ++ [s.opening] }
  | .closeOn i => s.closeOn i
  | .sweep now => s.sweep idleMs now
  | .retire => s.retire
  | .streaming r on => { s with isStreaming := Function.update s.isStreaming r on }
  | .activity r now => if s.registered r then s.touch now else s
  | .fault r => { s with live := s.live.map fun e => if e.runtime = r then { e with faulted := true } else e }

abbrev Sessions := SessionId → Session

def step (idleMs : Nat) (p : Sessions) (e : SessionId × Event) : Sessions :=
  Function.update p e.1 ((p e.1).step idleMs e.2)

/-! ## One runtime -/

structure OneRuntime (s : Session) : Prop where
  one : ∀ (r r' : RuntimeId) (phase phase' : RuntimePhase), s.runtimes[r]? = some phase →
    s.runtimes[r']? = some phase' → phase ≠ .closed → phase' ≠ .closed → r = r'
  registered : ∀ (r : RuntimeId) (registered : Bool), Caller.got r registered ∈ s.callers → registered = true

def Session.takes (s : Session) (idleMs : Nat) : Event → Bool
  | .open binding _ => (s.current binding).isNone && s.opening.isNone && s.live.any s.replaces
  | .closeOn i => s.closerReady i
  | .sweep now => s.sweeps idleMs now
  | .retire => s.retires
  | _ => false

/-- Where the runtime is taken out of the table nobody has yet to get it, one is built only where the
session's others are closed, and an opening that is joined after it resolved has its runtime in the
table. -/
def Undisturbed (idleMs : Nat) (s : Session) (e : Event) : Prop :=
  (s.takes idleMs e = true → ∀ c ∈ s.callers, s.promised c = none) ∧ match e with
    | .open binding _ =>
      s.current binding = none → (s.opening = none → s.live = none → ∀ phase ∈ s.runtimes, phase = .closed) ∧
        ∀ o ∈ s.opening, ∀ r ∈ s.promised (.joined o), s.registered r = true
    | _ => True

instance (idleMs : Nat) (s : Session) (e : Event) : Decidable (Undisturbed idleMs s e) := by
  cases e <;> unfold Undisturbed <;> infer_instance

def AllUndisturbed (idleMs : Nat) (p : Sessions) (e : SessionId × Event) : Prop := Undisturbed idleMs (p e.1) e.2

instance (idleMs : Nat) (p : Sessions) (e : SessionId × Event) : Decidable (AllUndisturbed idleMs p e) :=
  inferInstanceAs (Decidable (Undisturbed idleMs (p e.1) e.2))

/-! ### What a step keeps -/

def Alone (runtimes : List RuntimePhase) (r : RuntimeId) : Prop :=
  ∀ (r' : RuntimeId) (phase : RuntimePhase), runtimes[r']? = some phase → phase ≠ .closed → r' = r

def Session.Holds (s : Session) (o : OpeningId) : Opening → Prop
  | .closing _ r => s.opening = some o ∧ s.live = none ∧ Alone s.runtimes r
  | .building _ r => s.opening = some o ∧ s.live = none ∧ Alone s.runtimes r ∧ r < s.runtimes.length
  | .resolved _ | .rejected => True

structure Inv (s : Session) : Prop where
  one : ∃ r, Alone s.runtimes r
  live : ∀ e ∈ s.live, Alone s.runtimes e.runtime ∧ e.runtime < s.runtimes.length
  opening : ∀ o ∈ s.opening, o < s.openings.length
  progress : ∀ (o : OpeningId) (t : Opening), s.openings[o]? = some t → s.Holds o t
  joined : ∀ o, Caller.joined o ∈ s.callers → o < s.openings.length
  promised : ∀ c ∈ s.callers, ∀ r ∈ s.promised c, s.registered r = true
  got : ∀ (r : RuntimeId) (registered : Bool), Caller.got r registered ∈ s.callers → registered = true

section

variable {runtimes : List RuntimePhase} {r : RuntimeId} {s s' : Session}

theorem Alone.set (h : Alone runtimes r) {i : RuntimeId} {phase : RuntimePhase}
    (hi : i = r ∨ phase = .closed) : Alone (runtimes.set i phase) r := by
  intro r' phase' hget hopen
  rcases getElem?_set_cases hget with ⟨rfl, rfl⟩ | ⟨-, hget⟩
  · rcases hi with heq | hclosed
    · exact heq
    · exact absurd hclosed hopen
  · exact h r' phase' hget hopen

theorem Alone.append (h : ∀ phase ∈ runtimes, phase = .closed) (phase : RuntimePhase) :
    Alone (runtimes ++ [phase]) runtimes.length := by
  intro r' phase' hget hopen
  rcases getElem?_concat_cases hget with hget | ⟨heq, -⟩
  · exact absurd (h phase' (mem_of_getElem? hget)) hopen
  · exact heq

theorem Alone.closed (h : Alone runtimes r) (hr : runtimes[r]? = some .closed) :
    ∀ phase ∈ runtimes, phase = .closed := by
  intro phase hphase
  obtain ⟨i, hi⟩ := mem_iff_getElem?.mp hphase
  by_contra hopen
  obtain rfl := h i phase hi hopen
  rw [hi] at hr
  exact hopen (Option.some_inj.mp hr)

theorem registered_iff : s.registered r = true ↔ ∃ e ∈ s.live, e.runtime = r := by
  unfold Session.registered
  rw [Option.any_eq_true]
  simp

theorem Inv.noLive (h : Inv s) (ht : s.openings[o]? = some t)
    (hgoing : t.settled = false) : s.opening = some o ∧ s.live = none := by
  have hholds := h.progress o t ht
  cases t with
  | closing binding r => exact ⟨hholds.1, hholds.2.1⟩
  | building binding r => exact ⟨hholds.1, hholds.2.1⟩
  | resolved r => cases hgoing
  | rejected => cases hgoing

theorem holds_of_settled (h : t.settled = true) : s.Holds o t := by
  cases t with
  | closing binding r => cases h
  | building binding r => cases h
  | resolved r => trivial
  | rejected => trivial

theorem Inv.settled (h : Inv s) (ht : s.openings[o]? = some t)
    (hnot : ¬ (s.opening = some o ∧ s.live = none)) : t.settled = true := by
  by_contra hgoing
  exact hnot (h.noLive ht (Bool.eq_false_iff.mpr hgoing))

/-! ### Runtimes and the table's entry -/

theorem Inv.withRuntimes (h : Inv s) {rs : List RuntimePhase}
    (halone : ∀ r, Alone s.runtimes r → Alone rs r) (hlen : s.runtimes.length ≤ rs.length) :
    Inv { s with runtimes := rs } := by
  refine { h with one := ?_, live := ?_, progress := ?_ }
  · obtain ⟨r, hr⟩ := h.one
    exact ⟨r, halone r hr⟩
  · intro e he
    obtain ⟨hr, hlt⟩ := h.live e he
    exact ⟨halone _ hr, Nat.lt_of_lt_of_le hlt hlen⟩
  · intro o t ht
    have hholds := h.progress o t ht
    cases t with
    | closing binding r => exact ⟨hholds.1, hholds.2.1, halone r hholds.2.2⟩
    | building binding r => exact ⟨hholds.1, hholds.2.1, halone r hholds.2.2.1, Nat.lt_of_lt_of_le hholds.2.2.2 hlen⟩
    | resolved r => trivial
    | rejected => trivial

theorem Inv.setClosed (h : Inv s) (i : RuntimeId) : Inv (s.setPhase i .closed) := by
  apply h.withRuntimes
  · intro r hr
    exact hr.set (.inr rfl)
  · exact Nat.le_of_eq length_set.symm

theorem Inv.mapLive (h : Inv s) (f : OpenSession → OpenSession)
    (hf : ∀ e, (f e).runtime = e.runtime) : Inv { s with live := s.live.map f } := by
  have hregistered : ∀ r, ({ s with live := s.live.map f } : Session).registered r = s.registered r := by
    intro r
    unfold Session.registered
    cases hlive : s.live with
    | none => rfl
    | some e => exact congrArg (fun r' => decide (r' = r)) (hf e)
  refine { h with live := ?_, progress := ?_, promised := ?_ }
  · intro e he
    obtain ⟨e', he', rfl⟩ := Option.map_eq_some_iff.mp he
    rw [hf]
    exact h.live e' he'
  · intro o t ht
    have hholds := h.progress o t ht
    have hnone : s.live = none → s.live.map f = none := fun hlive => by rw [hlive, Option.map_none]
    cases t with
    | closing binding r => exact ⟨hholds.1, hnone hholds.2.1, hholds.2.2⟩
    | building binding r => exact ⟨hholds.1, hnone hholds.2.1, hholds.2.2⟩
    | resolved r => trivial
    | rejected => trivial
  · intro c hc r hr
    rw [hregistered]
    exact h.promised c hc r hr

/-- The runtime in the table was nobody's opening in progress, nor is it one's once it is out. -/
theorem Inv.takeOut (h : Inv s) (hnobody : s.live.isSome → ∀ c ∈ s.callers, s.promised c = none) : Inv s.takeOut := by
  unfold Session.takeOut
  cases hlive : s.live with
  | none => exact h
  | some e =>
    obtain ⟨halone, hlt⟩ := h.live e hlive
    constructor
    · exact ⟨e.runtime, halone.set (.inl rfl)⟩
    · exact nofun
    · exact h.opening
    · intro o t ht
      apply holds_of_settled
      apply h.settled (s := s) ht
      intro hin
      rw [hlive] at hin
      cases hin.2
    · exact h.joined
    · intro c hc r hr
      -- whoever was promised it would not find it in the table
      have hnone := hnobody (hlive ▸ rfl) c hc
      have hsome : s.promised c = some r := hr
      cases hnone.symm.trans hsome
    · exact h.got

/-! ### Callers and openings -/

theorem Inv.addCaller (h : Inv s) (hjoined : ∀ o, c = .joined o → o < s.openings.length)
    (hpromised : ∀ r ∈ s.promised c, s.registered r = true)
    (hgot : ∀ r registered, c = .got r registered → registered = true) : Inv (s.addCaller c) := by
  refine { h with joined := ?_, promised := ?_, got := ?_ }
  · intro o ho
    rcases mem_append.mp ho with ho | ho
    · exact h.joined o ho
    · exact hjoined o (mem_singleton.mp ho).symm
  · intro c' hc' r hr
    rcases mem_concat_cases hc' with hc' | rfl
    · exact h.promised c' hc' r hr
    · exact hpromised r hr
  · intro r registered hc'
    rcases mem_append.mp hc' with hc' | hc'
    · exact h.got r registered hc'
    · exact hgot r registered (mem_singleton.mp hc').symm

theorem promised_addOpening (h : Inv s) (hc : c ∈ s.callers) : (s.addOpening t).promised c = s.promised c := by
  cases c with
  | returned r => rfl
  | joined o =>
    have hget : (s.openings ++ [t])[o]? = s.openings[o]? := getElem?_append_left (h.joined o hc)
    show (match (s.openings ++ [t])[o]? with | some (.resolved r) => some r | _ => none) = _
    rw [hget]
    rfl
  | got r registered => rfl
  | failed => rfl

theorem Inv.addOpening (h : Inv s) (hnone : s.opening = none)
    (ht : (s.addOpening t).Holds s.openings.length t) : Inv (s.addOpening t) := by
  constructor
  · exact h.one
  · exact h.live
  · intro o ho
    cases ho
    show _ < (s.openings ++ [t]).length
    rw [length_append]
    exact Nat.lt_succ_self _
  · intro o t' ht'
    rcases getElem?_concat_cases ht' with hold | ⟨rfl, rfl⟩
    · -- none of the openings before it is in progress
      apply holds_of_settled
      apply h.settled hold
      intro hin
      rw [hnone] at hin
      cases hin.1
    · exact ht
  · intro o ho
    show o < (s.openings ++ [t]).length
    rw [length_append]
    exact Nat.lt_add_right _ (h.joined o ho)
  · intro c hc r hr
    rw [promised_addOpening h hc] at hr
    exact h.promised c hc r hr
  · exact h.got

/-- While an opening is in progress nobody has a runtime to get. -/
theorem Inv.promised_none (h : Inv s) (hlive : s.live = none) (hc : c ∈ s.callers) : s.promised c = none := by
  cases hp : s.promised c with
  | none => rfl
  | some r =>
    obtain ⟨e, he, -⟩ := registered_iff.mp (h.promised c hc r hp)
    cases hlive.symm.trans he

/-- The opening in progress goes on to `t'`. -/
theorem Inv.goOn (h : Inv s) {t' : Opening} (ht : s.openings[o]? = some t)
    (hgoing : t.settled = false) (hopenings : s'.openings = s.openings.set o t')
    (hopening : s'.opening = s.opening) (hcallers : s'.callers = s.callers)
    (hone : ∃ r, Alone s'.runtimes r)
    (hlive : ∀ e ∈ s'.live, Alone s'.runtimes e.runtime ∧ e.runtime < s'.runtimes.length)
    (hholds : s'.Holds o t') (hresolved : ∀ r, t' = .resolved r → s'.registered r = true) :
    Inv s' := by
  obtain ⟨hin, hnone⟩ := h.noLive ht hgoing
  have hlen : s'.openings.length = s.openings.length := by rw [hopenings, length_set]
  have hget : ∀ o', s'.openings[o']? = if o = o' then some t' else s.openings[o']? := by
    intro o'
    rw [hopenings, getElem?_set, if_pos (h.opening o hin)]
  constructor
  · exact hone
  · exact hlive
  · rw [hopening, hlen]
    exact h.opening
  · intro o' t'' ht''
    rw [hget] at ht''
    split at ht''
    next heq =>
      cases ht''
      exact heq ▸ hholds
    next hne =>
      -- no opening but this one is in progress
      apply holds_of_settled
      apply h.settled ht''
      intro hother
      exact hne (Option.some_inj.mp (hin.symm.trans hother.1))
  · rw [hcallers, hlen]
    exact h.joined
  · intro c hc r hr
    rw [hcallers] at hc
    -- nobody was promised a runtime before, so only this opening's callers are now
    have hbefore := h.promised_none hnone hc
    cases c with
    | returned r' => cases hbefore
    | joined o' =>
      have hr' : (match s'.openings[o']? with | some (.resolved r) => some r | _ => none) = some r := hr
      by_cases ho : o = o'
      · rw [hget, if_pos ho] at hr'
        cases t' with
        | resolved r' => exact hresolved r (congrArg _ (Option.some_inj.mp hr'))
        | closing binding r' => cases hr'
        | building binding r' => cases hr'
        | rejected => cases hr'
      · rw [hget, if_neg ho] at hr'
        have hsome : s.promised (.joined o') = some r := hr'
        cases hbefore.symm.trans hsome
    | got r' registered => cases hr
    | failed => cases hr
  · rw [hcallers]
    exact h.got

/-! ### Events -/

theorem Inv.touch (h : Inv s) (now : Nat) : Inv (s.touch now) := h.mapLive _ fun _ => rfl

theorem registered_touch (s : Session) (now : Nat) (r : RuntimeId) : (s.touch now).registered r = s.registered r := by
  unfold Session.touch Session.registered
  cases s.live <;> rfl

theorem registered_of_current {binding : String} {e : OpenSession}
    (he : s.current binding = some e) : s.registered e.runtime = true :=
  registered_iff.mpr ⟨e, (Option.filter_eq_some_iff.mp he).1, rfl⟩

theorem takeOut_live (s : Session) : s.takeOut.live = none := by
  unfold Session.takeOut
  cases hlive : s.live with
  | none => exact hlive
  | some e => rfl

theorem takeOut_opening (s : Session) : s.takeOut.opening = s.opening := by
  unfold Session.takeOut
  cases s.live <;> rfl

theorem takeOut_openings (s : Session) : s.takeOut.openings = s.openings := by
  unfold Session.takeOut
  cases s.live <;> rfl

theorem takeOut_alone (h : Inv s) {e : OpenSession} (hlive : s.live = some e) : Alone s.takeOut.runtimes e.runtime := by
  unfold Session.takeOut
  rw [hlive]
  exact (h.live e hlive).1.set (.inl rfl)

theorem Inv.addRuntime (h : Inv s) (hnone : s.opening = none) (hlive : s.live = none)
    (hclosed : ∀ phase ∈ s.runtimes, phase = .closed) : Inv s.addRuntime := by
  refine { h with one := ?_, live := ?_, progress := ?_ }
  · exact ⟨_, Alone.append hclosed _⟩
  · intro e he
    have hin : s.live = some e := he
    cases hlive.symm.trans hin
  · intro o t ht
    apply holds_of_settled
    apply h.settled (s := s) ht
    intro hin
    rw [hnone] at hin
    cases hin.1

theorem promised_newest (s : Session) (t : Opening) (ho : o = s.openings.length) : (s.addOpening t).promised (.joined o)
      = (match t with | .resolved r => some r | _ => none) := by
  show (match (s.openings ++ [t])[o]? with | some (.resolved r) => some r | _ => none) = _
  rw [ho, getElem?_concat_length]
  cases t <;> rfl

theorem Inv.startOpening (h : Inv s) (binding : String) (now : Nat) (hnone : s.opening = none)
    (hnobody : s.live.any s.replaces → ∀ c ∈ s.callers, s.promised c = none)
    (hclosed : s.live = none → ∀ phase ∈ s.runtimes, phase = .closed) :
    Inv (s.startOpening binding now) ∧ ∀ r ∈ (s.startOpening binding now).promised (.joined s.openings.length),
        (s.startOpening binding now).registered r = true := by
  unfold Session.startOpening
  cases hlive : s.live with
  | none =>
    have hadd := h.addRuntime hnone hlive (hclosed hlive)
    constructor
    · apply hadd.addOpening hnone
      refine ⟨rfl, hlive, Alone.append (hclosed hlive) _, ?_⟩
      show _ < (s.runtimes ++ [_]).length
      rw [length_append]
      exact Nat.lt_succ_self _
    · intro r hr
      dsimp only at hr
      rw [promised_newest (o := s.openings.length) s.addRuntime _ rfl] at hr
      cases hr
  | some e =>
    dsimp only
    split
    · -- the one it finds is closed first
      rename_i hreplaces
      have hout := h.takeOut fun _ => hnobody (by rw [hlive]; exact hreplaces)
      constructor
      · apply hout.addOpening ((takeOut_opening s).trans hnone)
        rw [takeOut_openings]
        exact ⟨congrArg _ (congrArg _ (takeOut_openings s)), takeOut_live s, takeOut_alone h hlive⟩
      intro r hr
      rw [promised_newest _ _ (congrArg _ (takeOut_openings s)).symm] at hr
      cases hr
    · split
      · constructor
        · exact h.addOpening hnone trivial
        intro r hr
        rw [promised_newest (o := s.openings.length) _ _ rfl] at hr
        cases hr
      · constructor
        · exact (h.touch now).addOpening hnone trivial
        intro r hr
        rw [promised_newest (o := s.openings.length) (s.touch now) _ rfl] at hr
        cases hr
        show (s.touch now).registered e.runtime = true
        rw [registered_touch]
        exact registered_iff.mpr ⟨e, hlive, rfl⟩

theorem startOpening_length (s : Session) (binding : String) (now : Nat) :
    s.openings.length < (s.startOpening binding now).openings.length := by
  have hadd : ∀ (s' : Session) (t : Opening), s'.openings = s.openings →
      s.openings.length < (s'.addOpening t).openings.length := by
    intro s' t heq
    show _ < (s'.openings ++ [t]).length
    rw [heq, length_append]
    exact Nat.lt_succ_self _
  unfold Session.startOpening
  split
  · split
    · exact hadd _ _ (takeOut_openings s)
    split
    · exact hadd _ _ rfl
    · exact hadd (s.touch now) _ rfl
  · exact hadd s.addRuntime _ rfl

theorem Inv.openSessionRuntime (h : Inv s) {idleMs now : Nat} {binding : String}
    (hok : Undisturbed idleMs s (.open binding now)) : Inv (s.openSessionRuntime binding now) := by
  obtain ⟨htakes, hok⟩ := hok
  unfold Session.openSessionRuntime
  cases hcurrent : s.current binding with
  | some e =>
    apply (h.touch now).addCaller
    · exact nofun
    · intro r hr
      cases hr
      rw [registered_touch]
      exact registered_of_current hcurrent
    · exact nofun
  | none =>
    obtain ⟨hnew, hjoin⟩ := hok hcurrent
    cases hopening : s.opening with
    | some o =>
      apply h.addCaller
      · intro o' ho'
        cases ho'
        exact h.opening o hopening
      · exact hjoin o hopening
      · exact nofun
    | none =>
      have htakes' : s.live.any s.replaces → ∀ c ∈ s.callers, s.promised c = none := by
        intro hreplaces
        apply htakes
        show ((s.current binding).isNone && s.opening.isNone && s.live.any s.replaces) = true
        rw [hcurrent, hopening, hreplaces]
        rfl
      obtain ⟨hinv, hregistered⟩ := h.startOpening binding now hopening htakes' (hnew hopening)
      apply hinv.addCaller
      · intro o ho
        cases ho
        exact startOpening_length s binding now
      · exact hregistered
      · exact nofun

theorem Inv.build (h : Inv s) (o : OpeningId) : Inv (s.build o) := by
  unfold Session.build
  split
  next binding r ht =>
    split
    next hclosed =>
      obtain ⟨hin, hnone, halone⟩ := h.progress o _ ht
      -- the one it waited for was the only one not closed
      have hrs : Alone s.addRuntime.runtimes s.runtimes.length := Alone.append (halone.closed hclosed) _
      have hlt : s.runtimes.length < s.addRuntime.runtimes.length := by
        show _ < (s.runtimes ++ [_]).length
        rw [length_append]
        exact Nat.lt_succ_self _
      refine h.goOn ht rfl rfl rfl rfl ⟨_, hrs⟩ ?_ ?_ ?_
      · intro e he
        have hlive : s.live = some e := he
        cases hnone.symm.trans hlive
      · exact ⟨hin, hnone, hrs, hlt⟩
      · exact nofun
    · exact h
  · exact h

theorem Inv.built (h : Inv s) (o : OpeningId) (retired : Bool) (now : Nat) : Inv (s.built o retired now) := by
  unfold Session.built
  split
  next binding r ht =>
    obtain ⟨-, -, halone, hlt⟩ := h.progress o _ ht
    have hrs : Alone (s.runtimes.set r .opened) r := halone.set (.inl rfl)
    refine h.goOn ht rfl rfl rfl rfl ⟨r, hrs⟩ ?_ ?_ ?_
    · intro e he
      cases he
      refine ⟨hrs, ?_⟩
      show r < (s.runtimes.set _ _).length
      rw [length_set]
      exact hlt
    · trivial
    · intro r' hr'
      cases hr'
      exact registered_iff.mpr ⟨_, rfl, rfl⟩
  · exact h

theorem Inv.buildFailed (h : Inv s) (o : OpeningId) : Inv (s.buildFailed o) := by
  unfold Session.buildFailed
  split
  next binding r ht =>
    obtain ⟨-, hnone, -⟩ := h.progress o _ ht
    have hclosed := h.setClosed r
    refine h.goOn ht rfl rfl rfl rfl hclosed.one hclosed.live ?_ ?_
    · trivial
    · exact nofun
  · exact h

theorem Inv.openingDone (h : Inv s) (o : OpeningId) : Inv (s.openingDone o) := by
  unfold Session.openingDone
  split
  next hdone =>
    obtain ⟨hin, hsettled⟩ := hdone
    refine { h with opening := ?_, progress := ?_ }
    · exact nofun
    · intro o' t ht
      apply holds_of_settled
      by_cases heq : o = o'
      · have hsame : s.openings[o]? = some t := heq ▸ ht
        rw [hsame] at hsettled
        exact hsettled
      apply h.settled (s := s) ht
      intro hother
      exact heq (Option.some_inj.mp (hin.symm.trans hother.1))
  · exact h

theorem Inv.setCaller (h : Inv s) (i : CallerId) (hnot : ∀ o, c ≠ .joined o) (hpromised : s.promised c = none)
    (hgot : ∀ r registered, c = .got r registered → registered = true) :
    Inv { s with callers := s.callers.set i c } := by
  refine { h with joined := ?_, promised := ?_, got := ?_ }
  · intro o ho
    rcases mem_or_eq_of_mem_set ho with ho | ho
    · exact h.joined o ho
    · exact absurd ho.symm (hnot o)
  · intro c' hc' r hr
    rcases mem_or_eq_of_mem_set hc' with hc' | rfl
    · exact h.promised c' hc' r hr
    have hsome : s.promised c' = some r := hr
    cases hpromised.symm.trans hsome
  · intro r registered hc'
    rcases mem_or_eq_of_mem_set hc' with hc' | hc'
    · exact h.got r registered hc'
    · exact hgot r registered hc'.symm

theorem Inv.deliver (h : Inv s) (i : CallerId) : Inv (s.deliver i) := by
  unfold Session.deliver
  split
  · exact h
  rename_i c hc
  split
  next r hr =>
    apply h.setCaller
    · exact nofun
    · rfl
    · intro r' registered heq
      cases heq
      exact h.promised c (mem_of_getElem? hc) r hr
  · split
    · split
      · apply h.setCaller
        · exact nofun
        · rfl
        · exact nofun
      · exact h
    · exact h

theorem Inv.withClosers (h : Inv s) (closers : List (Option OpeningId)) : Inv { s with closers } :=
  { h with }

/-- **What one step keeps**, that is undisturbed. -/
theorem Inv.step (h : Inv s) {idleMs : Nat} {e : Event} (hok : Undisturbed idleMs s e) : Inv (s.step idleMs e) := by
  cases e with
  | «open» binding now => exact h.openSessionRuntime hok
  | closed r =>
    show Inv (if _ then _ else _)
    split
    · exact h.setClosed r
    · exact h
  | build o => exact h.build o
  | built o retired now => exact h.built o retired now
  | buildFailed o => exact h.buildFailed o
  | openingDone o => exact h.openingDone o
  | deliver c => exact h.deliver c
  | close => exact h.withClosers _
  | closeOn i =>
    show Inv (s.closeOn i)
    unfold Session.closeOn
    split
    next hready =>
      exact (h.withClosers _).takeOut fun _ => hok.1 hready
    · exact h
  | sweep now =>
    show Inv (s.sweep idleMs now)
    unfold Session.sweep
    split
    next hsweeps =>
      exact h.takeOut fun _ => hok.1 hsweeps
    · exact h
  | retire =>
    show Inv s.retire
    unfold Session.retire
    split
    next hretires =>
      exact h.takeOut fun _ => hok.1 hretires
    · exact h.mapLive _ fun _ => rfl
  | streaming r on => exact { h with }
  | activity r now =>
    show Inv (if _ then _ else _)
    split
    · exact h.touch now
    · exact h
  | fault r =>
    apply h.mapLive
    intro e
    split
    · rfl
    · rfl

theorem Inv.init : Inv .init := by
  constructor
  · exact ⟨0, nofun⟩
  · exact nofun
  · exact nofun
  · exact nofun
  · exact nofun
  · exact nofun
  · exact nofun

theorem Inv.oneRuntime (h : Inv s) : OneRuntime s := by
  constructor
  · intro r r' x x' hx hx' hopen hopen'
    obtain ⟨alone, halone⟩ := h.one
    rw [halone r x hx hopen, halone r' x' hx' hopen']
  · exact h.got

end

/-- **In a run whose steps are all undisturbed**, every session has one runtime at a time and every
caller gets the one that is registered. -/
theorem oneRuntime_run (idleMs : Nat) (es : List (SessionId × Event))
    (hes : Run.Along (step idleMs) (AllUndisturbed idleMs) (fun _ => .init) es) (sid : SessionId) :
    OneRuntime (Run.exec (step idleMs) (fun _ => .init) es sid) := by
  have hinv : ∀ sid, Inv (Run.exec (step idleMs) (fun _ => .init) es sid) := by
    apply hes.invariant fun p => ∀ sid, Inv (p sid)
    · intro p e hok hp sid
      unfold step
      by_cases hsid : sid = e.1
      · rw [hsid, Function.update_self]
        exact (hp e.1).step hok
      · rw [Function.update_of_ne hsid]
        exact hp sid
    · intro sid
      exact Inv.init
  exact (hinv sid).oneRuntime

def opened (binding : String) (now : Nat) : List (SessionId × Event) :=
  [("s", .open binding now), ("s", .built 0 false now), ("s", .openingDone 0), ("s", .deliver 0)]

/-- Swept and closed, then opened again and swept under its next user's opening of another binding. -/
theorem oneRuntime_run_reopened : Run.Along (step 10) (AllUndisturbed 10) (fun _ => .init)
        (opened "a" 0 ++ [("s", .sweep 10), ("s", .closed 0), ("s", .open "a" 11), ("t", .open "a" 11),
          ("s", .built 1 false 12), ("s", .openingDone 1), ("s", .deliver 1), ("s", .open "b" 13),
          ("s", .closed 1), ("s", .build 2), ("s", .built 2 false 14), ("s", .deliver 2)]) ∧
      OneRuntime (Run.exec (step 10) (fun _ => .init)
        (opened "a" 0 ++ [("s", .sweep 10), ("s", .closed 0), ("s", .open "a" 11), ("t", .open "a" 11),
          ("s", .built 1 false 12), ("s", .openingDone 1), ("s", .deliver 1), ("s", .open "b" 13),
          ("s", .closed 1), ("s", .build 2), ("s", .built 2 false 14), ("s", .deliver 2)]) "s") :=
  ⟨by decide, oneRuntime_run 10 _ (by decide) "s"⟩

theorem sweep_leaves_two_runtimes : ¬ OneRuntime (Run.exec (step 10) (fun _ => .init)
      (opened "a" 0 ++ [("s", .sweep 10), ("s", .open "a" 11)]) "s") := by
  intro h
  have hsame := h.one 0 1 .closing .building (by decide) (by decide) (by decide) (by decide)
  cases hsame

end Reins.LiveSessions
