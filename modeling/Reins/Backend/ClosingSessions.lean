import Reins.Backend.ChildDepth

/-!
# Closing sessions' runtimes (`closeSessionRuntimes`, `backend/src/session-runtime/live.ts`)

The process's sessions as their closing sees them: a live runtime, an opening in progress, and a chain of
submissions, counted. A run that ends reports to the parent, which enters the parent's chain as the run is
settled; the runtime is busy, and its closing waits, until the parent's runtime has admitted it.
`closeSessionRuntimes` goes over the sessions it was given in rounds, at most five: in a round it waits, for
each that is open as the round begins, for its chain, then for its opening, and then takes its runtime out
and closes it.
-/

namespace Reins.ClosingSessions

open List Run

open ChildDepth (SessionId)
open Forest (ancestor)

structure Runtime where
  /-- It drives a run, or has admitted an input that starts one. -/
  running : Bool
  /-- The places in the parent's chain of the reports of its runs. -/
  reports : List Nat
  deriving DecidableEq

def Runtime.idle : Runtime := ⟨false, []⟩

structure Session where
  row : Bool
  operation : Bool
  live : Option Runtime
  /-- An opening in progress, with the runtime it replaces and closes first. -/
  opening : Option (Option Runtime)
  openings : Nat
  /-- The submissions that entered its chain, and those whose place is cleared. -/
  submitted : Nat
  done : Nat
  deriving DecidableEq

def Session.closed (row : Bool) : Session := ⟨row, false, none, none, 0, 0, 0⟩

def Session.submitting (t : Session) : Bool := t.done < t.submitted

def Session.isOpen (t : Session) : Bool := t.live.isSome || t.opening.isSome || t.submitting

inductive Closer
  | submissions (tail : Nat)
  | opening (found : Option Nat)
  | closing (runtime : Runtime)
  | done
  deriving DecidableEq

/-- A call of `closeSessionRuntimes`. -/
inductive Call
  | notMade
  | round (ids : List SessionId) (round : Nat) (closers : List (SessionId × Closer))
  | returned
  deriving DecidableEq

structure State where
  sessions : SessionId → Session
  call : Call

inductive Event
  | submit (x : SessionId)
  | resume (x : SessionId) (replaces : Bool)
  /-- The chain's next submission opens a runtime, in place of one that is not current or in the place of
  none, or is admitted by the live one, or fails. -/
  | openFor (x : SessionId) (replaces : Bool)
  | admitNext (x : SessionId)
  | reject (x : SessionId)
  | opened (x : SessionId) (succeeded : Bool)
  /-- A runtime takes up the operation it found pending. -/
  | drive (x : SessionId)
  | sweep (x : SessionId)
  /-- A run ends, of a live runtime, of one being replaced, of one being closed; it is reported to the
  parent unless there is nothing to report. -/
  | settle (x : SessionId) (reported : Bool)
  | settleReplaced (x : SessionId) (reported : Bool)
  | settleClosing (i : Nat) (reported : Bool)
  | closeSessionRuntimes (ids : List SessionId)
  /-- The `i`-th closing of the round goes on. -/
  | close (i : Nat)
  | nextRound
  deriving DecidableEq

def State.modify (s : State) (x : SessionId) (f : Session → Session) : State :=
  { s with sessions := Function.update s.sessions x (f (s.sessions x)) }

/-- `inSessionOrder`. -/
def Session.enter (t : Session) : Session := { t with submitted := t.submitted + 1 }

def Session.open (t : Session) (replaces : Bool) : Session :=
  if t.row && t.opening.isNone && (t.live.isNone || replaces) then
    { t with live := none, opening := some t.live, openings := t.openings + 1 }
  else t

def Session.admitNext (t : Session) : Session :=
  match t.live with
  | some runtime =>
    if t.submitting then
      { t with live := some { runtime with running := true }, operation := true, done := t.done + 1 }
    else t
  | none => t

def Session.drive (t : Session) : Session :=
  match t.live with
  | some runtime => if t.operation then { t with live := some { runtime with running := true } } else t
  | none => t

section

variable (parent : SessionId → Option SessionId)

def State.reported (s : State) (x : SessionId) (runtime : Runtime) : Bool :=
  runtime.reports.all fun n => (parent x).all fun p => n ≤ (s.sessions p).done

def State.isBusy (s : State) (x : SessionId) (runtime : Runtime) : Bool :=
  runtime.running || !s.reported parent x runtime

def reportsTo (x : SessionId) (reported : Bool) : Option SessionId := if reported then parent x else none

def State.ended (s : State) (x : SessionId) (reported : Bool) (runtime : Runtime) : Runtime :=
  ⟨false, runtime.reports ++ (reportsTo parent x reported).toList.map fun p => (s.sessions p).submitted + 1⟩

def State.report (s : State) (x : SessionId) (reported : Bool) : State :=
  (reportsTo parent x reported).elim s fun p => s.modify p Session.enter

def State.nextRound (s : State) (ids : List SessionId) (round : Nat) : Call :=
  let targets := ids.filter fun x => (s.sessions x).isOpen
  if round < 5 && targets ≠ [] then
    .round ids round (targets.map fun x => (x, .submissions (s.sessions x).submitted))
  else .returned

def Session.ended (t : Session) (found : Option Nat) : Bool := found.all fun k => t.opening.isNone || t.openings ≠ k

def State.closer (s : State) (x : SessionId) : Closer → Session × Closer
  | .submissions tail =>
    let t := s.sessions x
    (t, if tail ≤ t.done then .opening (t.opening.map fun _ => t.openings) else .submissions tail)
  | .opening found =>
    let t := s.sessions x
    if t.ended found then ({ t with live := none }, t.live.elim .done .closing) else (t, .opening found)
  | .closing runtime => (s.sessions x, if s.isBusy parent x runtime then .closing runtime else .done)
  | .done => (s.sessions x, .done)

def State.close (s : State) (i : Nat) : State :=
  match s.call with
  | .round ids round closers =>
    match closers[i]? with
    | some (x, closer) =>
      { s.modify x fun _ => (s.closer parent x closer).1 with
        call := .round ids round (closers.set i (x, (s.closer parent x closer).2)) }
    | none => s
  | _ => s

def State.settleClosing (s : State) (i : Nat) (reported : Bool) : State :=
  match s.call with
  | .round ids round closers =>
    match closers[i]? with
    | some (x, .closing runtime) =>
      if runtime.running then
        { s.report parent x reported with
          call := .round ids round (closers.set i (x, .closing (s.ended parent x reported runtime))) }
      else s
    | _ => s
  | _ => s

def step (s : State) : Event → State
  | .submit x => s.modify x Session.enter
  | .resume x replaces => s.modify x (·.open replaces)
  | .openFor x replaces => if (s.sessions x).submitting then s.modify x (·.open replaces) else s
  | .admitNext x => s.modify x Session.admitNext
  | .reject x => s.modify x fun t => if t.submitting then { t with done := t.done + 1 } else t
  | .opened x succeeded =>
    match (s.sessions x).opening with
    | some replaced =>
      if replaced.any (s.isBusy parent x) then s
      else s.modify x fun t => { t with opening := none, live := if succeeded then some .idle else none }
    | none => s
  | .drive x => s.modify x Session.drive
  | .sweep x =>
    match (s.sessions x).live with
    | some runtime => if s.isBusy parent x runtime then s else s.modify x fun t => { t with live := none }
    | none => s
  | .settle x reported =>
    match (s.sessions x).live with
    | some runtime =>
      if runtime.running then
        (s.modify x fun t =>
          { t with live := some (s.ended parent x reported runtime), operation := false }).report parent x reported
      else s
    | none => s
  | .settleReplaced x reported =>
    match (s.sessions x).opening with
    | some (some runtime) =>
      if runtime.running then
        (s.modify x fun t =>
          { t with
            opening := some (some (s.ended parent x reported runtime)), operation := false }).report parent x reported
      else s
    | _ => s
  | .settleClosing i reported => s.settleClosing parent i reported
  | .closeSessionRuntimes ids =>
    match s.call with
    | .notMade => { s with call := s.nextRound ids 0 }
    | _ => s
  | .close i => s.close parent i
  | .nextRound =>
    match s.call with
    | .round ids round closers =>
      if closers.all fun c => c.2 = .done then { s with call := s.nextRound ids (round + 1) } else s
    | _ => s

end

/-! ## What a session does on its own -/

section

variable {parent : SessionId → Option SessionId}

@[simp] theorem modify_call (s : State) (x : SessionId) (f : Session → Session) : (s.modify x f).call = s.call := rfl

theorem modify_self (s : State) (x : SessionId) (f : Session → Session) :
    (s.modify x f).sessions x = f (s.sessions x) := Function.update_self ..

theorem modify_of_ne (s : State) {x y : SessionId} (f : Session → Session) (h : y ≠ x) :
    (s.modify x f).sessions y = s.sessions y := Function.update_of_ne h ..

@[simp] theorem report_call (s : State) (x : SessionId) (reported : Bool) :
    (s.report parent x reported).call = s.call := by
  rw [State.report]
  cases reportsTo parent x reported <;> rfl

theorem report_of_ne (s : State) {x y : SessionId} {reported : Bool} (h : reportsTo parent x reported ≠ some y) :
    (s.report parent x reported).sessions y = s.sessions y := by
  rw [State.report]
  cases hp : reportsTo parent x reported with
  | none => rfl
  | some p => exact modify_of_ne s _ (fun he => h (by rw [hp, he]))

structure Session.Gone (t : Session) : Prop where
  row : t.row = false
  live : t.live = none
  opening : t.opening = none

structure Kept (t t' : Session) : Prop where
  row : t'.row = t.row
  gone : t.Gone → t'.Gone

theorem Kept.refl (t : Session) : Kept t t := ⟨rfl, id⟩

theorem Kept.trans {t t' t'' : Session} (h : Kept t t') (h' : Kept t' t'') : Kept t t'' :=
  ⟨h'.row.trans h.row, fun hg => h'.gone (h.gone hg)⟩

theorem Kept.of_live {t t' : Session} (ht : t.live.isSome) (hrow : t'.row = t.row) : Kept t t' := by
  refine ⟨hrow, fun hg => ?_⟩
  rw [hg.live] at ht
  cases ht

theorem Kept.of_opening {t t' : Session} (ht : t.opening.isSome) (hrow : t'.row = t.row) : Kept t t' := by
  refine ⟨hrow, fun hg => ?_⟩
  rw [hg.opening] at ht
  cases ht

theorem Kept.enter (t : Session) : Kept t t.enter := ⟨rfl, fun hg => ⟨hg.row, hg.live, hg.opening⟩⟩

theorem Kept.open (t : Session) (replaces : Bool) : Kept t (t.open replaces) := by
  unfold Session.open
  split
  next hopen =>
    refine ⟨rfl, fun hg => ?_⟩
    rw [hg.row] at hopen
    cases hopen
  · exact .refl t

/-- What becomes of a session nobody submits to or resumes: what it has been asked for is all it does. -/
structure Own (t t' : Session) : Prop extends Kept t t' where
  submitted : t'.submitted = t.submitted
  done : t.done ≤ t'.done
  isOpen : t'.isOpen → t.isOpen
  opening : t'.opening.isSome → (t.opening.isSome ∧ t'.openings = t.openings) ∨ t.submitting

theorem Own.refl (t : Session) : Own t t := ⟨.refl t, rfl, Nat.le_refl _, id, fun h => .inl ⟨h, rfl⟩⟩

theorem Own.submitting {t t' : Session} (h : Own t t') (ht : t.submitting = false) : t'.submitting = false := by
  have hd := h.done
  simp only [Session.submitting, decide_eq_false_iff_not, Nat.not_lt] at ht ⊢
  rw [h.submitted]
  exact Nat.le_trans ht hd

theorem modify_own {s : State} {x : SessionId} {f : Session → Session}
    (h : Own (s.sessions x) (f (s.sessions x))) (y : SessionId) :
    Own (s.sessions y) ((s.modify x f).sessions y) := by
  by_cases hy : y = x
  · subst hy
    rwa [modify_self]
  · rw [modify_of_ne s f hy]
    exact .refl _

theorem Own.open {t : Session} (ht : t.submitting) (replaces : Bool) : Own t (t.open replaces) := by
  have hk := Kept.open t replaces
  unfold Session.open at hk ⊢
  split
  next hopen =>
    rw [if_pos hopen] at hk
    exact ⟨hk, rfl, Nat.le_refl _, fun _ => by simp [Session.isOpen, ht], fun _ => .inr ht⟩
  · exact .refl t

theorem Own.live {t : Session} (ht : t.live.isSome) (live : Option Runtime) (operation : Bool) {done : Nat}
    (hdone : t.done ≤ done) : Own t { t with live := live, operation := operation, done := done } :=
  ⟨.of_live ht rfl, rfl, hdone, fun _ => by simp [Session.isOpen, ht], fun h => .inl ⟨h, rfl⟩⟩

theorem Own.admitNext (t : Session) : Own t t.admitNext := by
  unfold Session.admitNext
  split
  next runtime hl =>
    split
    · exact .live (by simp [hl]) _ true (Nat.le_succ _)
    · exact .refl t
  · exact .refl t

theorem Own.drive (t : Session) : Own t t.drive := by
  unfold Session.drive
  split
  next runtime hl =>
    split
    · exact .live (by simp [hl]) _ t.operation (Nat.le_refl _)
    · exact .refl t
  · exact .refl t

theorem Own.reject (t : Session) : Own t (if t.submitting then { t with done := t.done + 1 } else t) := by
  split
  next ht =>
    exact ⟨⟨rfl, fun hg => ⟨hg.row, hg.live, hg.opening⟩⟩, rfl, Nat.le_succ _,
      fun _ => by simp [Session.isOpen, ht], fun h => .inl ⟨h, rfl⟩⟩
  · exact .refl t

theorem Own.taken (t : Session) : Own t { t with live := none } where
  row := rfl
  gone hg := ⟨hg.row, rfl, hg.opening⟩
  submitted := rfl
  done := Nat.le_refl _
  isOpen h := by
    have h' : (t.opening.isSome || t.submitting) = true := h
    rw [Session.isOpen, Bool.or_assoc, h', Bool.or_true]
  opening h := .inl ⟨h, rfl⟩

theorem Own.opened {t : Session} (ht : t.opening.isSome) (live : Option Runtime) :
    Own t { t with opening := none, live := live } :=
  ⟨.of_opening ht rfl, rfl, Nat.le_refl _, fun _ => by simp [Session.isOpen, ht], fun h => absurd h (by simp)⟩

theorem Own.replaced {t : Session} (ht : t.opening.isSome) (replaced : Option Runtime) (operation : Bool) :
    Own t { t with opening := some replaced, operation := operation } :=
  ⟨.of_opening ht rfl, rfl, Nat.le_refl _, fun _ => by simp [Session.isOpen, ht], fun _ => .inl ⟨ht, rfl⟩⟩

/-! ## Who is reached from outside -/

def Call.closers : Call → List (SessionId × Closer)
  | .round _ _ closers => closers
  | _ => []

section

variable (parent : SessionId → Option SessionId)

def State.reaches (s : State) (x : SessionId) : Event → Bool
  | .submit y => y = x
  | .resume y _ => y = x
  | .settle y reported => (s.sessions y).live.any (·.running) && reportsTo parent y reported = some x
  | .settleReplaced y reported => (s.sessions y).opening.any (·.any (·.running)) && reportsTo parent y reported = some x
  | .settleClosing i reported =>
    match s.call.closers[i]? with
    | some (y, .closing runtime) => runtime.running && reportsTo parent y reported = some x
    | _ => false
  | _ => false

/-- It comes from outside the runtimes: a user, a script, an extension. -/
def Event.fromOutside : Event → Bool
  | .submit _ => true
  | .resume _ _ => true
  | _ => false

end

theorem child_of_reaches {s : State} {x : SessionId} {e : Event} (he : e.fromOutside = false)
    (h : s.reaches parent x e) :
    ∃ y, parent y = some x ∧ ((s.sessions y).isOpen ∨ ∃ c ∈ s.call.closers, c.1 = y) := by
  have reported : ∀ {y r}, reportsTo parent y r = some x → parent y = some x := by
    intro y r h
    cases r with
    | false => cases h
    | true => exact h
  cases e with
  | settle y r =>
    simp only [State.reaches, Bool.and_eq_true, decide_eq_true_eq] at h
    refine ⟨y, reported h.2, .inl ?_⟩
    simp [Session.isOpen, Option.isSome_of_any h.1]
  | settleReplaced y r =>
    simp only [State.reaches, Bool.and_eq_true, decide_eq_true_eq] at h
    refine ⟨y, reported h.2, .inl ?_⟩
    simp [Session.isOpen, Option.isSome_of_any h.1]
  | settleClosing i r =>
    simp only [State.reaches] at h
    split at h
    next y runtime hc =>
      simp only [Bool.and_eq_true, decide_eq_true_eq] at h
      exact ⟨y, reported h.2, .inr ⟨_, mem_of_getElem? hc, rfl⟩⟩
    · cases h
  | submit _ | resume _ _ => cases he
  | _ => cases h

theorem report_own {s t : State} {x y : SessionId} {reported : Bool}
    (h : Own (s.sessions y) (t.sessions y)) (hy : reportsTo parent x reported ≠ some y) :
    Own (s.sessions y) ((t.report parent x reported).sessions y) := by
  rwa [report_of_ne t hy]

theorem closer_own (s : State) (x : SessionId) (c : Closer) : Own (s.sessions x) (s.closer parent x c).1 := by
  cases c with
  | opening found =>
    simp only [State.closer]
    split
    · exact .taken _
    · exact .refl _
  | _ => exact .refl _

theorem close_own (s : State) (i : Nat) (x : SessionId) : Own (s.sessions x) ((s.close parent i).sessions x) := by
  unfold State.close
  split
  · split
    next y c hc =>
      exact modify_own (f := fun _ => (s.closer parent y c).1) (closer_own s y c) x
    · exact .refl _
  · exact .refl _

/-- **A session no event reaches does what it was asked for, and no more.** -/
theorem step_own {s : State} {x : SessionId} {e : Event} (h : s.reaches parent x e = false) :
    Own (s.sessions x) ((step parent s e).sessions x) := by
  cases e with
  | submit y | resume y replaces =>
    have hx : x ≠ y := by simpa [State.reaches, eq_comm] using h
    rw [step, modify_of_ne s _ hx]
    exact .refl _
  | openFor y replaces =>
    simp only [step]
    split
    next hy =>
      exact modify_own (.open hy replaces) x
    · exact .refl _
  | admitNext y => exact modify_own (.admitNext _) x
  | reject y => exact modify_own (.reject _) x
  | opened y succeeded =>
    simp only [step]
    split
    next replaced ho =>
      split
      · exact .refl _
      · exact modify_own (.opened (by simp [ho]) _) x
    · exact .refl _
  | drive y => exact modify_own (.drive _) x
  | sweep y =>
    simp only [step]
    split
    · split
      · exact .refl _
      · exact modify_own (.taken _) x
    · exact .refl _
  | settle y reported =>
    simp only [step]
    split
    next runtime hl =>
      split
      next hr =>
        have hx : reportsTo parent y reported ≠ some x := by simpa [State.reaches, hl, hr] using h
        exact report_own (modify_own (.live (by simp [hl]) _ _ (Nat.le_refl _)) x) hx
      · exact .refl _
    · exact .refl _
  | settleReplaced y reported =>
    simp only [step]
    split
    next runtime ho =>
      split
      next hr =>
        have hx : reportsTo parent y reported ≠ some x := by simpa [State.reaches, ho, hr] using h
        exact report_own (modify_own (.replaced (by simp [ho]) _ _) x) hx
      · exact .refl _
    · exact .refl _
  | settleClosing i reported =>
    simp only [step, State.settleClosing]
    split
    next ids round closers hcall =>
      split
      next y runtime hc =>
        split
        next hr =>
          have hx : reportsTo parent y reported ≠ some x := by
            simpa [State.reaches, hcall, Call.closers, hc, hr] using h
          exact report_own (t := s) (.refl _) hx
        · exact .refl _
      · exact .refl _
    · exact .refl _
  | closeSessionRuntimes ids =>
    simp only [step]
    split <;> exact .refl _
  | close i => exact close_own s i x
  | nextRound =>
    simp only [step]
    split
    · split <;> exact .refl _
    · exact .refl _

theorem report_kept {s t : State} {x y : SessionId} (reported : Bool) (h : Kept (s.sessions y) (t.sessions y)) :
    Kept (s.sessions y) ((t.report parent x reported).sessions y) := by
  by_cases hy : reportsTo parent x reported = some y
  · rw [State.report, hy, Option.elim_some, modify_self]
    exact h.trans (.enter _)
  · rwa [report_of_ne t hy]

/-- **A session that is gone stays gone**, whoever reaches it. -/
theorem step_kept (s : State) (e : Event) (x : SessionId) : Kept (s.sessions x) ((step parent s e).sessions x) := by
  cases hr : s.reaches parent x e with
  | false => exact (step_own hr).toKept
  | true =>
    cases e with
    | submit y =>
      obtain rfl : y = x := of_decide_eq_true hr
      rw [step, modify_self]
      exact .enter _
    | resume y replaces =>
      obtain rfl : y = x := of_decide_eq_true hr
      rw [step, modify_self]
      exact .open _ replaces
    | settle y reported =>
      simp only [step]
      split
      next runtime hl =>
        split
        · exact report_kept reported (modify_own (.live (by simp [hl]) _ _ (Nat.le_refl _)) x).toKept
        · exact .refl _
      · exact .refl _
    | settleReplaced y reported =>
      simp only [step]
      split
      next runtime ho =>
        split
        · exact report_kept reported (modify_own (.replaced (by simp [ho]) _ _) x).toKept
        · exact .refl _
      · exact .refl _
    | settleClosing i reported =>
      simp only [step, State.settleClosing]
      split
      · split
        · split
          · exact report_kept (t := s) reported (.refl _)
          · exact .refl _
        · exact .refl _
      · exact .refl _
    | _ => cases hr

theorem step_call (s : State) {e : Event}
    (he : ∀ i, e ≠ .close i ∧ ∀ reported, e ≠ .settleClosing i reported) (hn : e ≠ .nextRound)
    (hs : ∀ ids, e = .closeSessionRuntimes ids → s.call ≠ .notMade) :
    (step parent s e).call = s.call := by
  cases e with
  | submit _ | resume _ _ | admitNext _ | reject _ | drive _ => rfl
  | openFor y replaces =>
    simp only [step]
    split <;> rfl
  | opened y succeeded =>
    simp only [step]
    split
    · split <;> rfl
    · rfl
  | sweep y =>
    simp only [step]
    split
    · split <;> rfl
    · rfl
  | settle y reported =>
    simp only [step]
    split
    · split
      · rw [report_call, modify_call]
      · rfl
    · rfl
  | settleReplaced y reported =>
    simp only [step]
    split
    · split
      · rw [report_call, modify_call]
      · rfl
    · rfl
  | settleClosing i reported => exact absurd rfl ((he i).2 reported)
  | closeSessionRuntimes ids =>
    have hs := hs ids rfl
    simp [step]
  | close i => exact absurd rfl (he i).1
  | nextRound => exact absurd rfl hn

theorem step_call_of_no_round {s : State} {e : Event} (hs : ∀ ids round closers, s.call ≠ .round ids round closers)
    (he : ∀ ids, e = .closeSessionRuntimes ids → s.call ≠ .notMade) : (step parent s e).call = s.call := by
  cases e with
  | close i => simp [step, State.close]
  | settleClosing i reported => simp [step, State.settleClosing]
  | nextRound => simp [step]
  | _ => exact step_call s (by simp) (by simp) he

/-! ## A round -/

theorem mem_set_or {α : Type*} {l : List α} {i : Nat} {a b : α} (ha : l[i]? = some a) (b' : α)
    (hb : b ∈ l) : b = a ∨ b ∈ l.set i b' := by
  obtain ⟨j, hj⟩ := mem_iff_getElem?.mp hb
  by_cases hij : i = j
  · subst hij
    exact .inl (Option.some_inj.mp (hj.symm.trans ha))
  · exact .inr (mem_iff_getElem?.mpr ⟨j, by rw [getElem?_set_ne hij, hj]⟩)

/-- It has not looked at the session's runtime yet. -/
def Closer.waiting : Closer → Bool
  | .submissions _ | .opening _ => true
  | .closing _ | .done => false

section

-- The sessions a round began with, and those reached since.
variable (old new : SessionId → Prop)

/-- What a closing knows of its session, unless it was reached since the round began: past the chain's tail
nothing more is submitted, and past that no opening begins. -/
def Closer.Knows (t : Session) (isNew : Prop) : Closer → Prop
  | .submissions tail => isNew ∨ t.submitted ≤ tail
  | .opening found => isNew ∨ t.submitting = false ∧ (t.opening.isSome → found = some t.openings)
  | .closing _ | .done => True

structure RoundOk (t : SessionId → Session) (closers : List (SessionId × Closer)) : Prop where
  isOpen : ∀ x, (t x).isOpen → old x
  each : ∀ c ∈ closers, old c.1 ∧ c.2.Knows (t c.1) (new c.1)
  waited : ∀ x, (t x).isOpen → new x ∨ ∃ c ∈ closers, c.1 = x ∧ c.2.waiting

variable {old new} {t t' : SessionId → Session} {closers : List (SessionId × Closer)}

theorem Closer.Knows.own {t t' : Session} {isNew : Prop} {c : Closer} (h : c.Knows t isNew)
    (ht : Own t t') : c.Knows t' isNew := by
  cases c with
  | submissions tail => exact h.imp id (fun h => ht.submitted ▸ h)
  | opening found =>
    refine h.imp id (fun ⟨hs, ho⟩ => ⟨ht.submitting hs, fun hopen => ?_⟩)
    rcases ht.opening hopen with ⟨hopen, hsame⟩ | hsub
    · rw [hsame, ho hopen]
    · cases hs.symm.trans hsub
  | _ => trivial

theorem Closer.Knows.of_new {t : Session} {isNew : Prop} (h : isNew) (c : Closer) : c.Knows t isNew := by
  cases c with
  | submissions tail => exact .inl h
  | opening found => exact .inl h
  | _ => trivial

/-- Sessions that do what they were asked, and sessions reached, keep the round. -/
theorem RoundOk.own (h : RoundOk old new t closers) (hnew : ∀ x, new x → old x)
    (ht : ∀ x, new x ∨ Own (t x) (t' x)) : RoundOk old new t' closers where
  isOpen x hx := (ht x).elim (hnew x) (fun ho => h.isOpen x (ho.isOpen hx))
  each c hc := by
    obtain ⟨hold, hk⟩ := h.each c hc
    exact ⟨hold, (ht c.1).elim (fun hn => .of_new hn c.2) hk.own⟩
  waited x hx := (ht x).elim .inl (fun ho => h.waited x (ho.isOpen hx))

theorem RoundOk.set (h : RoundOk old new t closers) {i : Nat} {x : SessionId} {c c' : Closer}
    (hc : closers[i]? = some (x, c)) (hk : c'.Knows (t x) (new x))
    (hw : (t x).isOpen → c.waiting → new x ∨ c'.waiting) : RoundOk old new t (closers.set i (x, c')) := { h with
  each d hd := by
    rcases mem_or_eq_of_mem_set hd with hd | rfl
    · exact h.each d hd
    · exact ⟨(h.each _ (mem_of_getElem? hc)).1, hk⟩
  waited y hy := by
    obtain hn | ⟨d, hd, rfl, hdw⟩ := h.waited y hy
    · exact .inl hn
    rcases mem_set_or hc (x, c') hd with rfl | hd
    · have hi : i < closers.length := (List.getElem?_eq_some_iff.mp hc).1
      exact (hw hy hdw).imp id fun hw' => ⟨_, mem_set hi _, rfl, hw'⟩
    · exact .inr ⟨d, hd, rfl, hdw⟩ }

end

end

section

variable {parent : SessionId → Option SessionId}

theorem closer_knows (s : State) (x : SessionId) {isNew : Prop} {c : Closer}
    (h : c.Knows (s.sessions x) isNew) : (s.closer parent x c).2.Knows (s.sessions x) isNew := by
  cases c with
  | submissions tail =>
    simp only [State.closer]
    split
    next hd =>
      refine h.imp id (fun hs => ⟨?_, fun ho => ?_⟩)
      · simpa [Session.submitting] using Nat.le_trans hs hd
      · obtain ⟨replaced, ho⟩ := Option.isSome_iff_exists.mp ho
        rw [ho, Option.map_some]
    · exact h
  | opening found =>
    simp only [State.closer]
    split
    · cases (s.sessions x).live <;> trivial
    · exact h
  | closing runtime =>
    simp only [State.closer]
    split <;> trivial
  | done => trivial

/-- A closing that has looked at its session left it closed. -/
theorem closer_waiting (s : State) (x : SessionId) {isNew : Prop} {c : Closer}
    (h : c.Knows (s.sessions x) isNew) (hopen : (s.closer parent x c).1.isOpen) (hw : c.waiting) :
    isNew ∨ (s.closer parent x c).2.waiting := by
  cases c with
  | submissions tail =>
    simp only [State.closer]
    split <;> exact .inr rfl
  | opening found =>
    simp only [State.closer] at hopen ⊢
    split at hopen
    next hended =>
      refine h.imp id (fun ⟨hs, ho⟩ => ?_)
      have hso : ((s.sessions x).opening.isSome || (s.sessions x).submitting) = true := hopen
      rw [hs, Bool.or_false] at hso
      rw [Session.ended, ho hso] at hended
      simp [Option.isSome_iff_ne_none.mp hso] at hended
    next hended =>
      rw [if_neg hended]
      exact .inr rfl
  | _ => cases hw

theorem RoundOk.close {old new : SessionId → Prop} {s : State} {closers : List (SessionId × Closer)}
    (h : RoundOk old new s.sessions closers) (hnew : ∀ x, new x → old x) {i : Nat} {x : SessionId}
    {c : Closer} (hc : closers[i]? = some (x, c)) :
    RoundOk old new (s.modify x fun _ => (s.closer parent x c).1).sessions
      (closers.set i (x, (s.closer parent x c).2)) := by
  have hown : ∀ y, Own (s.sessions y) ((s.modify x fun _ => (s.closer parent x c).1).sessions y) :=
    modify_own (closer_own s x c)
  have hk : c.Knows (s.sessions x) (new x) := (h.each _ (mem_of_getElem? hc)).2
  refine (h.own hnew fun y => .inr (hown y)).set hc ((closer_knows s x hk).own (hown x)) ?_
  rw [modify_self]
  exact closer_waiting s x hk

theorem settleClosing_call (s : State) (i : Nat) (reported : Bool) : (s.settleClosing parent i reported).call = s.call ∨
      ∃ ids round closers x runtime runtime',
        s.call = .round ids round closers ∧ closers[i]? = some (x, .closing runtime) ∧
          (s.settleClosing parent i reported).call = .round ids round (closers.set i (x, .closing runtime')) := by
  unfold State.settleClosing
  split
  next ids round closers hcall =>
    split
    next x runtime hc =>
      split
      · exact .inr ⟨ids, round, closers, x, runtime, _, hcall, hc, rfl⟩
      · exact .inl rfl
    · exact .inl rfl
  · exact .inl rfl

/-- A round begins with every session of the call's that is open; else none is, or there were five. -/
theorem nextRound_ok (s : State) (ids : List SessionId) (round : Nat) (old new : SessionId → Prop)
    (hold : ∀ x, (s.sessions x).isOpen → old x) (hids : ∀ x, (s.sessions x).isOpen → x ∈ ids ∨ new x) :
    (∃ closers, s.nextRound ids round = .round ids round closers ∧ round < 5 ∧ RoundOk old new s.sessions closers) ∨
      s.nextRound ids round = .returned ∧ (5 ≤ round ∨ ∀ x ∈ ids, (s.sessions x).isOpen = false) := by
  by_cases ht : (round < 5 && ids.filter (fun x => (s.sessions x).isOpen) ≠ []) = true
  · refine .inl ⟨_, by rw [State.nextRound, if_pos ht], by simp at ht; exact ht.1, hold, ?_, ?_⟩
    · intro c hc
      obtain ⟨x, hx, rfl⟩ := mem_map.mp hc
      exact ⟨hold x (mem_filter.mp hx).2, .inr (Nat.le_refl _)⟩
    intro x hx
    rcases hids x hx with hmem | hn
    · exact .inr ⟨_, mem_map_of_mem (mem_filter.mpr ⟨hmem, hx⟩), rfl, rfl⟩
    · exact .inl hn
  · refine .inr ⟨by rw [State.nextRound, if_neg ht], ?_⟩
    by_cases hround : round < 5
    · refine .inr fun x hmem => Bool.eq_false_iff.mpr fun hx => ht ?_
      have htarget : x ∈ ids.filter fun x => (s.sessions x).isOpen := mem_filter.mpr ⟨hmem, hx⟩
      simpa [hround] using ne_nil_of_mem htarget
    · exact .inl (Nat.not_lt.mp hround)

/-- **A round goes on, or is over**: then whatever is open was reached since it began. -/
theorem RoundOk.next {old new : SessionId → Prop} {s : State} {ids : List SessionId} {round : Nat}
    {closers : List (SessionId × Closer)} (hcall : s.call = .round ids round closers)
    (h : RoundOk old new s.sessions closers) (hnew : ∀ x, new x → old x) {e : Event}
    (hmoved : ∀ x, new x ∨ Own (s.sessions x) ((step parent s e).sessions x)) :
    (∃ closers', (step parent s e).call = .round ids round closers' ∧
        RoundOk old new (step parent s e).sessions closers') ∨
      step parent s e = { s with call := s.nextRound ids (round + 1) } ∧ ∀ x, (s.sessions x).isOpen → new x := by
  cases e with
  | close i =>
    refine .inl ?_
    simp only [ClosingSessions.step, State.close, hcall]
    cases hc : closers[i]? with
    | none => exact ⟨closers, hcall, h⟩
    | some c => exact ⟨_, rfl, h.close hnew hc⟩
  | settleClosing i reported =>
    have hown := h.own hnew hmoved
    rcases settleClosing_call s i reported with hsame | ⟨ids', round', closers', x, runtime, runtime', hcall', hc, hset⟩
    · exact .inl ⟨closers, hsame.trans hcall, hown⟩
    obtain ⟨rfl, rfl, rfl⟩ : ids' = ids ∧ round' = round ∧ closers' = closers := by
      simpa [hcall'] using hcall
    exact .inl ⟨_, hset, hown.set hc trivial nofun⟩
  | nextRound =>
    simp only [ClosingSessions.step, hcall]
    split
    next hdone =>
      refine .inr ⟨rfl, fun x hx => ?_⟩
      obtain hn | ⟨c, hc, -, hw⟩ := h.waited x hx
      · exact hn
      have hd := all_eq_true.mp hdone c hc
      rw [of_decide_eq_true hd] at hw
      cases hw
    · exact .inl ⟨closers, hcall, h⟩
  | _ =>
    refine .inl ⟨closers, ?_, h.own hnew hmoved⟩
    rw [step_call s (by simp) (by simp) (by simp [hcall]), hcall]

/-! ## The rounds -/

def Above (parent : SessionId → Option SessionId) (ids : List SessionId) (k : Nat) (x : SessionId) : Prop :=
  ∃ y ∈ ids, ancestor parent k y = some x

theorem Above.of_child {ids : List SessionId} {k : Nat} {x p : SessionId} (h : Above parent ids k x)
    (hp : parent x = some p) : Above parent ids (k + 1) p := by
  obtain ⟨y, hy, hx⟩ := h
  exact ⟨y, hy, by rw [Forest.ancestor_succ', hx, Option.bind_some, hp]⟩

section

variable {ids : List SessionId} (hids : ∀ x ∈ ids, ∀ p ∈ parent x, p ∈ ids)

include hids

theorem Above.mem {k : Nat} {x : SessionId} (h : Above parent ids k x) : x ∈ ids := by
  obtain ⟨y, hy, hx⟩ := h
  exact Forest.ancestor_mem (s := (· ∈ ids)) hids hy k hx

/-- A session has as many generations below it as its child, at least. -/
theorem Above.of_succ {k : Nat} {x : SessionId} (h : Above parent ids (k + 1) x) : Above parent ids k x := by
  obtain ⟨y, hy, hx⟩ := h
  obtain ⟨p, hp, hx⟩ := Option.bind_eq_some_iff.mp hx
  exact ⟨p, hids y hy p hp, hx⟩

end

/-- In a round, what is open is as many generations up as rounds have gone; once the call has returned,
nothing is open. -/
inductive CallOk (parent : SessionId → Option SessionId) (ids : List SessionId) (s : State) : Prop
  | round {round : Nat} {closers : List (SessionId × Closer)} (hcall : s.call = .round ids round closers)
    (hround : round < 5)
    (hok : RoundOk (Above parent ids round) (Above parent ids (round + 1)) s.sessions closers)
  | returned (hcall : s.call = .returned) (hclosed : ∀ x, (s.sessions x).isOpen = false)

theorem RoundOk.moved {ids : List SessionId} {s : State} {round : Nat}
    {closers : List (SessionId × Closer)} (hcall : s.call = .round ids round closers)
    (h : RoundOk (Above parent ids round) (Above parent ids (round + 1)) s.sessions closers) {e : Event}
    (he : e.fromOutside = false) (x : SessionId) :
    Above parent ids (round + 1) x ∨ Own (s.sessions x) ((step parent s e).sessions x) := by
  cases hr : s.reaches parent x e with
  | false => exact .inr (step_own hr)
  | true =>
    obtain ⟨y, hy, hopen | ⟨c, hc, rfl⟩⟩ := child_of_reaches he hr
    · exact .inl ((h.isOpen y hopen).of_child hy)
    · rw [hcall] at hc
      exact .inl ((h.each c hc).1.of_child hy)

section

variable {ids : List SessionId} (hids : ∀ x ∈ ids, ∀ p ∈ parent x, p ∈ ids)
  (hdeep : ∀ x ∈ ids, ancestor parent 5 x = none)

include hids hdeep

/-- The test of the loop, where what is open is as many generations up as rounds have gone. -/
theorem CallOk.nextRound {s : State} {round : Nat} (hround : round ≤ 5)
    (hopen : ∀ x, (s.sessions x).isOpen → Above parent ids round x) :
    CallOk parent ids { s with call := s.nextRound ids round } := by
  rcases nextRound_ok s ids round _ (Above parent ids (round + 1)) hopen (fun x hx => .inl ((hopen x hx).mem hids)) with
    ⟨closers, hnext, hlt, hok⟩ | ⟨hnext, hend⟩
  · exact .round hnext hlt hok
  refine .returned hnext fun x => Bool.eq_false_iff.mpr fun hx => ?_
  rcases hend with hfive | hclosed
  · -- Five generations would be below it.
    obtain ⟨y, hy, ha⟩ := Nat.le_antisymm hround hfive ▸ hopen x hx
    rw [hdeep y hy] at ha
    cases ha
  · rw [hclosed x ((hopen x hx).mem hids)] at hx
    cases hx

theorem CallOk.step {s : State} (h : CallOk parent ids s) {e : Event} (he : e.fromOutside = false) :
    CallOk parent ids (step parent s e) := by
  cases h with
  | returned hcall hclosed =>
    refine .returned ?_ (fun x => ?_)
    · rw [step_call_of_no_round (by simp [hcall]) (by simp [hcall]), hcall]
    cases hr : s.reaches parent x e with
    | true =>
      obtain ⟨y, -, hopen | ⟨c, hc, -⟩⟩ := child_of_reaches he hr
      · rw [hclosed y] at hopen
        cases hopen
      · rw [hcall] at hc
        cases hc
    | false =>
      by_contra hx
      have hx := (step_own hr).isOpen (by simpa using hx)
      rw [hclosed x] at hx
      cases hx
  | @round round closers hcall hround hok =>
    rcases hok.next hcall (fun x hx => hx.of_succ hids) (hok.moved hcall he) with
      ⟨closers', hcall', hok'⟩ | ⟨hnext, hnew⟩
    · exact .round hcall' hround hok'
    · rw [hnext]
      exact .nextRound hids hdeep hround hnew

end

end

/-! ## What is left open -/

/-- `closeSessionRuntimes`, called wherever the sessions are, of which only these are open, returns to none
open: as long as nothing from outside submits to them or resumes them. -/
def NoneLeftOpen (parent : SessionId → Option SessionId) (ids : List SessionId) : Prop :=
  ∀ (s : State) (es : List Event), s.call = .notMade → (∀ x, (s.sessions x).isOpen → x ∈ ids) →
    (∀ e ∈ es, e.fromOutside = false) → let s' := exec (step parent) s (.closeSessionRuntimes ids :: es)
      s'.call = .returned → ∀ x, (s'.sessions x).isOpen = false

section

variable {parent : SessionId → Option SessionId} {ids : List SessionId}

theorem noneLeftOpen (hids : ∀ x ∈ ids, ∀ p ∈ parent x, p ∈ ids)
    (hdeep : ∀ x ∈ ids, ancestor parent 5 x = none) : NoneLeftOpen parent ids := by
  intro s es hcall hopen hes s' hreturned x
  have hstart : CallOk parent ids (step parent s (.closeSessionRuntimes ids)) := by
    simp only [step, hcall]
    exact CallOk.nextRound hids hdeep (Nat.zero_le 5) (fun x hx => ⟨x, hopen x hx, rfl⟩)
  have hinside : Along (step parent) (fun _ e => e.fromOutside = false)
      (step parent s (.closeSessionRuntimes ids)) es := along_of_forall hes
  have hend : CallOk parent ids s' :=
    hinside.invariant (CallOk parent ids) (fun _ _ he h => h.step hids hdeep he) hstart
  cases hend with
  | round hround => cases hreturned.symm.trans hround
  | returned _ hclosed => exact hclosed x

structure OnlyRunning (s : State) (c : SessionId) : Prop where
  row : ∀ x, (s.sessions x).row = true
  live : (s.sessions c).live = some ⟨true, []⟩
  others : ∀ x, x ≠ c → (s.sessions x).live = none
  opening : ∀ x, (s.sessions x).opening = none
  done : ∀ x, (s.sessions x).done = (s.sessions x).submitted

theorem OnlyRunning.isOpen {s : State} {c : SessionId} (h : OnlyRunning s c) (x : SessionId) :
    (s.sessions x).isOpen = decide (x = c) := by
  by_cases hx : x = c
  · subst hx
    simp [Session.isOpen, h.live]
  · simp [Session.isOpen, Session.submitting, h.others x hx, h.opening x, h.done x, hx]

theorem OnlyRunning.nextRound {s : State} {c : SessionId} (h : OnlyRunning s c) (hn : ids.Nodup)
    (hc : c ∈ ids) {round : Nat} (hround : round < 5) :
    s.nextRound ids round = .round ids round [(c, .submissions (s.sessions c).submitted)] := by
  have hf : ids.filter (fun x => (s.sessions x).isOpen) = [c] := by
    simp only [h.isOpen]
    rw [filter_eq, count_eq_one_of_mem hn hc, replicate_one]
  simp [State.nextRound, hf, hround]

/-- The session is closed; its run's end opens the parent's runtime, and starts a run there. -/
def ascend (p : SessionId) : List Event :=
  [.close 0, .close 0, .settleClosing 0 true, .openFor p false, .opened p true, .admitNext p, .close 0, .nextRound]

theorem OnlyRunning.taken {s : State} {c : SessionId} (h : OnlyRunning s c) {round : Nat}
    (hcall : s.call = .round ids round [(c, .submissions (s.sessions c).submitted)]) :
    exec (step parent) s [.close 0, .close 0] =
      { s.modify c fun t => { t with live := none } with
        call := .round ids round [(c, .closing ⟨true, []⟩)] } := by
  simp [exec, step, State.close, State.closer, State.modify, Session.ended, hcall, h.live, h.opening c, h.done c]

theorem ascend_closing {s : State} {c p : SessionId} {round : Nat} (hp : parent c = some p)
    (hrow : ∀ x, (s.sessions x).row = true) (hlive : ∀ x, (s.sessions x).live = none)
    (hopening : ∀ x, (s.sessions x).opening = none)
    (hdone : ∀ x, (s.sessions x).done = (s.sessions x).submitted)
    (hcall : s.call = .round ids round [(c, .closing ⟨true, []⟩)]) :
    let s' := exec (step parent) s
      [.settleClosing 0 true, .openFor p false, .opened p true, .admitNext p, .close 0, .nextRound]
    OnlyRunning s' p ∧ s'.call = s'.nextRound ids (round + 1) := by
  let t : State := s.modify p fun b =>
    { b with
      operation := true, live := some ⟨true, []⟩, openings := b.openings + 1, submitted := b.submitted + 1,
      done := b.done + 1 }
  have key : exec (step parent) s
      [.settleClosing 0 true, .openFor p false, .opened p true, .admitNext p, .close 0, .nextRound] =
        { t with call := t.nextRound ids (round + 1) } := by
    simp [exec, step, State.settleClosing, State.report, reportsTo, State.ended, State.modify, t,
      hcall, hp, Session.enter, Session.submitting, Session.open, hrow p, hlive p, hopening p, hdone p,
      Session.admitNext, Runtime.idle, State.close, State.closer, State.isBusy, State.reported,
      State.nextRound]
  have htp : t.sessions p = _ := modify_self s p _
  have htx : ∀ x, x ≠ p → t.sessions x = s.sessions x := fun x hx => modify_of_ne s _ hx
  intro s'
  have hs' : s' = { t with call := t.nextRound ids (round + 1) } := key
  rw [hs']
  refine ⟨⟨fun x => ?_, ?_, fun x hx => ?_, fun x => ?_, fun x => ?_⟩, rfl⟩
  · by_cases hx : x = p
    · exact hx ▸ htp ▸ hrow p
    · exact htx x hx ▸ hrow x
  · exact htp ▸ rfl
  · exact htx x hx ▸ hlive x
  · by_cases hx : x = p
    · exact hx ▸ htp ▸ hopening p
    · exact htx x hx ▸ hopening x
  · by_cases hx : x = p
    · exact hx ▸ htp ▸ congrArg (· + 1) (hdone p)
    · exact htx x hx ▸ hdone x

theorem OnlyRunning.ascend {s : State} {c p : SessionId} (h : OnlyRunning s c) (hp : parent c = some p)
    {round : Nat} (hcall : s.call = .round ids round [(c, .submissions (s.sessions c).submitted)]) :
    let s' := exec (step parent) s (ascend p)
    OnlyRunning s' p ∧ s'.call = s'.nextRound ids (round + 1) := by
  have htaken : exec (step parent) s [.close 0, .close 0] = _ := h.taken hcall
  have hs : exec (step parent) s (ClosingSessions.ascend p) =
      exec (step parent) (exec (step parent) s [.close 0, .close 0])
        [.settleClosing 0 true, .openFor p false, .opened p true, .admitNext p, .close 0, .nextRound] := rfl
  rw [hs, htaken]
  have hx : ∀ x, (s.modify c fun t => { t with live := none }).sessions x = { s.sessions x with live := none } := by
    intro x
    by_cases hxc : x = c
    · exact hxc ▸ modify_self s c _
    · rw [modify_of_ne s _ hxc, ← h.others x hxc]
  refine ascend_closing hp (fun x => ?_) (fun x => ?_) (fun x => ?_) (fun x => ?_) rfl
  · exact congrArg Session.row (hx x) |>.trans (h.row x)
  · exact congrArg Session.live (hx x)
  · exact congrArg Session.opening (hx x) |>.trans (h.opening x)
  · have hsub := congrArg Session.submitted (hx x)
    exact (congrArg Session.done (hx x)).trans ((h.done x).trans hsub.symm)

theorem OnlyRunning.climb (hn : ids.Nodup) (hids : ∀ x ∈ ids, ∀ p ∈ parent x, p ∈ ids) (k : Nat) {s : State}
    {c x : SessionId} (h : OnlyRunning s c) (hc : c ∈ ids) {round : Nat} (hround : round + k ≤ 5)
    (hcall : s.call = s.nextRound ids round) (hx : ancestor parent k c = some x) :
    ∃ es : List Event, (∀ e ∈ es, e.fromOutside = false) ∧ let s' := exec (step parent) s es
      OnlyRunning s' x ∧ s'.call = s'.nextRound ids (round + k) := by
  induction k generalizing s c round with
  | zero =>
    cases hx
    exact ⟨[], by simp, h, hcall⟩
  | succ k ih =>
    obtain ⟨p, hp, hx⟩ := Option.bind_eq_some_iff.mp hx
    rw [h.nextRound hn hc (by omega)] at hcall
    obtain ⟨hp', hcall'⟩ := h.ascend hp hcall
    obtain ⟨es, hes, hend⟩ := ih hp' (hids c hc p hp) (by omega) hcall' hx
    refine ⟨ClosingSessions.ascend p ++ es, fun e he => ?_, ?_⟩
    · rcases mem_append.mp he with he | he
      · simp only [ClosingSessions.ascend, mem_cons, not_mem_nil, or_false] at he
        rcases he with rfl | rfl | rfl | rfl | rfl | rfl | rfl | rfl <;> rfl
      · exact hes e he
    · rw [exec_append]
      rwa [Nat.add_right_comm, Nat.add_assoc] at hend

def State.onlyRunning (c : SessionId) : State :=
  ⟨fun x => if x = c then ⟨true, true, some ⟨true, []⟩, none, 0, 0, 0⟩ else .closed true, .notMade⟩

theorem onlyRunning_start (c : SessionId) : OnlyRunning (.onlyRunning c) c where
  row x := by
    simp only [State.onlyRunning]
    split <;> rfl
  live := by simp [State.onlyRunning]
  others x hx := by simp [State.onlyRunning, hx, Session.closed]
  opening x := by
    simp only [State.onlyRunning]
    split <;> rfl
  done x := by
    simp only [State.onlyRunning]
    split <;> rfl

/-- Six generations, the lowest of which runs, are one more than the rounds close. -/
theorem left_open (hn : ids.Nodup) (hids : ∀ x ∈ ids, ∀ p ∈ parent x, p ∈ ids) {c x : SessionId}
    (hc : c ∈ ids) (hx : ancestor parent 5 c = some x) : ¬ NoneLeftOpen parent ids := by
  intro h
  have hstart := onlyRunning_start c
  have hrunning : OnlyRunning (step parent (.onlyRunning c) (.closeSessionRuntimes ids)) c :=
    { hstart with }
  obtain ⟨es, hes, hopen, hcall⟩ := hrunning.climb hn hids 5 hc (Nat.le_refl (0 + 5)) rfl hx
  have hwithin : ∀ y, ((State.onlyRunning c).sessions y).isOpen → y ∈ ids := by
    intro y hy
    rw [hstart.isOpen] at hy
    exact of_decide_eq_true hy ▸ hc
  have hclosed := h (.onlyRunning c) es rfl hwithin hes hcall x
  rw [exec_cons, hopen.isOpen x] at hclosed
  simp at hclosed

/-- Which forests are closed: those in which no session has five ancestors. -/
theorem noneLeftOpen_iff (hn : ids.Nodup) (hids : ∀ x ∈ ids, ∀ p ∈ parent x, p ∈ ids) :
    NoneLeftOpen parent ids ↔ ∀ x ∈ ids, ancestor parent 5 x = none := by
  constructor
  · intro h x hx
    by_contra hne
    obtain ⟨a, ha⟩ := Option.ne_none_iff_exists'.mp hne
    exact left_open hn hids hx ha h
  · exact noneLeftOpen hids

end

/-- **A forest without six generations is closed, and no other**; those that scripts have started have at
most four. -/
theorem forest_closed : (∀ (parent : SessionId → Option SessionId) (ids : List SessionId), ids.Nodup →
      (∀ x ∈ ids, ∀ p ∈ parent x, p ∈ ids) → (NoneLeftOpen parent ids ↔ ∀ x ∈ ids, ancestor parent 5 x = none)) ∧
    ∀ (es : List ChildDepth.Event) (ids : List SessionId), let parent := (exec ChildDepth.step .init es).parent
      (∀ x ∈ ids, ∀ p ∈ parent x, p ∈ ids) → NoneLeftOpen parent ids := by
  refine ⟨fun parent ids hn hids => noneLeftOpen_iff hn hids, ?_⟩
  intro es ids parent hids
  refine noneLeftOpen hids (fun x _ => ?_)
  have hfour : ancestor parent 4 x = none := ChildDepth.ancestor_reached es x
  exact Forest.ancestor_none_of_le (by decide) hfour

theorem forest_closed_pair : NoneLeftOpen (fun x => if x = "child" then some "parent" else none) ["child", "parent"] :=
  (forest_closed.1 _ _ (by decide) (by decide)).mpr (by decide)

/-- A child's child's child's child's child runs as its project is deleted. -/
theorem six_generations_left_open : ¬ ∀ (parent : SessionId → Option SessionId) (ids : List SessionId), ids.Nodup →
      (∀ x ∈ ids, ∀ p ∈ parent x, p ∈ ids) → NoneLeftOpen parent ids := by
  intro h
  let parent (x : SessionId) : Option SessionId :=
    List.lookup x [("s0", "s1"), ("s1", "s2"), ("s2", "s3"), ("s3", "s4"), ("s4", "s5")]
  let ids := ["s0", "s1", "s2", "s3", "s4", "s5"]
  have hn : ids.Nodup := by decide
  have hids : ∀ x ∈ ids, ∀ p ∈ parent x, p ∈ ids := by decide
  exact left_open (c := "s0") (x := "s5") hn hids (by decide) (by decide) (h parent ids hn hids)

end Reins.ClosingSessions
