import Reins.Backend.ClosingSessions

/-!
# Deleting a task (`ProjectTasks.delete`, `backend/src/models/tasks.ts`; `deleteTask`, `task-store.ts`)

A deletion reads the task's sessions, refuses if one of them is busy, closes the runtimes of those it read
(`closeSessionRuntimes`), and when that has returned deletes the rows of the task and of all its sessions;
then it deals with the branch and resolves. Only the reading and the refusal are one step. Sessions are
created, submitted to, resumed and reported to at any time.
-/

namespace Reins.TaskDeletion

open ChildDepth (SessionId)
open ClosingSessions (Session Runtime Call Closer Kept Own RoundOk modify_self modify_of_ne)

abbrev TaskId := Nat

inductive Deletion
  | notStarted
  /-- `TaskNotFoundError`, or `TaskHasActiveSessionsError`. -/
  | refused
  | closing (sessionIds : List SessionId)
  | rowsDeleted
  | resolved
  deriving DecidableEq

structure State where
  process : ClosingSessions.State
  parent : SessionId → Option SessionId
  made : List SessionId
  task : SessionId → Option TaskId
  taskRow : Bool
  deletion : Deletion

inductive Event
  | process (e : ClosingSessions.Event)
  | create (x : SessionId) (task : Option TaskId) (parent : Option SessionId)
  | delete
  | deleteRows
  | resolve
  deriving DecidableEq

def rowOf (s : State) (x : SessionId) : Bool := (s.process.sessions x).row

def State.busy (s : State) (x : SessionId) : Bool :=
  let t := s.process.sessions x
  t.submitting || t.live.any (s.process.isBusy s.parent x) || (t.opening.isSome && t.operation)

section

-- The task that is deleted.
variable (taskId : TaskId)

def State.sessionIds (s : State) : List SessionId := s.made.filter fun x => rowOf s x && s.task x = some taskId

def State.creatable (s : State) (x : SessionId) (task : Option TaskId) (parent : Option SessionId) : Bool :=
  x ∉ s.made && s.process.sessions x = .closed false && (task ≠ some taskId || s.taskRow) && parent.all (rowOf s)

def State.create (s : State) (x : SessionId) (task : Option TaskId) (parent : Option SessionId) : State :=
  { s with
    process := s.process.modify x fun t => { t with row := true }
    parent := Function.update s.parent x parent
    made := s.made ++ [x]
    task := Function.update s.task x task }

/-- Of a session whose row is gone nothing is reported, and nothing to it (`ON DELETE SET NULL`). -/
def State.parentAfter (s : State) (x : SessionId) : Option SessionId :=
  if s.task x = some taskId then none else (s.parent x).filter fun p => s.task p ≠ some taskId

def State.deleteRows (s : State) : State :=
  { s with
    process.sessions := fun x =>
      if s.task x = some taskId then { s.process.sessions x with row := false } else s.process.sessions x
    parent := s.parentAfter taskId
    taskRow := false
    deletion := .rowsDeleted }

def State.deletesRows (s : State) (e : Event) : Bool :=
  match e, s.deletion with
  | .deleteRows, .closing _ => s.process.call = .returned
  | _, _ => false

def step (s : State) : Event → State
  | .process (.closeSessionRuntimes _) => s
  | .process e => { s with process := ClosingSessions.step s.parent s.process e }
  | .create x task parent => if s.creatable taskId x task parent then s.create x task parent else s
  | .delete =>
    match s.deletion with
    | .notStarted =>
      let sessionIds := s.sessionIds taskId
      if s.taskRow && sessionIds.all fun x => !s.busy x then
        { s with
          process := ClosingSessions.step s.parent s.process (.closeSessionRuntimes sessionIds)
          deletion := .closing sessionIds }
      else { s with deletion := .refused }
    | _ => s
  | .deleteRows => if s.deletesRows .deleteRows then s.deleteRows taskId else s
  | .resolve =>
    match s.deletion with
    | .rowsDeleted => { s with deletion := .resolved }
    | _ => s

/-! ## What a deletion promises -/

/-- No session of the task runs or is being admitted. -/
def NoneBusy (s : State) : Prop := ∀ x, s.task x = some taskId → rowOf s x → s.busy x = false

def NoneLeft (s : State) : Prop :=
  ∀ x, rowOf s x = false → (s.process.sessions x).live = none ∧ (s.process.sessions x).opening = none

/-- A round in which it is not the last chance to close what a step opens. -/
def early : Call → Bool
  | .round _ round _ => round < 4
  | _ => false

def State.closing (s : State) : Option (List SessionId) :=
  match s.deletion with
  | .closing sessionIds => some sessionIds
  | _ => none

/-- The event submits to the session, resumes it, or ends a run that is reported to it. -/
def State.reaches (s : State) (x : SessionId) : Event → Bool
  | .process e => s.process.reaches s.parent x e
  | _ => false

/-- While a deletion closes runtimes, a session it has read is reached early, if at all, and one created
since is not reached. -/
def InTime (s : State) (e : Event) : Prop :=
  ∀ sessionIds ∈ s.closing, ∀ x ∈ s.made, rowOf s x → s.task x = some taskId → s.reaches x e →
    x ∈ sessionIds ∧ early s.process.call

instance (s : State) (e : Event) : Decidable (InTime taskId s e) :=
  inferInstanceAs (Decidable (∀ sessionIds ∈ s.closing, ∀ x ∈ s.made, rowOf s x → s.task x = some taskId →
    s.reaches x e → x ∈ sessionIds ∧ early s.process.call))

/-! ## The invariant -/

/-- What is known as long as the runtimes close. -/
inductive Closing (s : State) (sessionIds : List SessionId) : Prop
  | round {round : Nat} {closers : List (SessionId × Closer)}
    (hcall : s.process.call = .round sessionIds round closers) (hround : round < 5)
    (hok : RoundOk (fun _ => True) (fun x => x ∉ sessionIds ∨ round < 4) s.process.sessions closers)
  | returned (hcall : s.process.call = .returned) (hclosed : ∀ x ∈ sessionIds, (s.process.sessions x).isOpen = false)

inductive Phase (s : State) : Prop
  | notStarted (hdeletion : s.deletion = .notStarted) (hcall : s.process.call = .notMade)
  | closing {sessionIds : List SessionId} (hdeletion : s.deletion = .closing sessionIds)
    (hread : ∀ x ∈ sessionIds, rowOf s x ∧ s.task x = some taskId)
    (hcreated : ∀ x, rowOf s x → s.task x = some taskId → x ∉ sessionIds → (s.process.sessions x).isOpen = false)
    (hclosing : Closing s sessionIds)
  | over (hdeletion : s.deletion = .refused ∨ s.deletion = .rowsDeleted ∨ s.deletion = .resolved)

structure Inv (s : State) : Prop where
  gone : NoneLeft s
  made : ∀ x, rowOf s x → x ∈ s.made
  phase : Phase taskId s

theorem not_busy {s : State} {x : SessionId} (h : (s.process.sessions x).isOpen = false) : s.busy x = false := by
  simp only [Session.isOpen, Bool.or_eq_false_iff, Option.isSome_eq_false_iff, Option.isNone_iff_eq_none] at h
  simp [State.busy, h.1.1, h.1.2, h.2]

theorem closing_eq {s : State} {sessionIds : List SessionId} (h : s.deletion = .closing sessionIds) :
    s.closing = some sessionIds := by rw [State.closing, h]

theorem NoneLeft.gone {s : State} (h : NoneLeft s) {x : SessionId} (hx : rowOf s x = false) :
    (s.process.sessions x).Gone := ⟨hx, (h x hx).1, (h x hx).2⟩

variable {taskId}

theorem Closing.nextRound {s s' : State} {sessionIds : List SessionId} {round : Nat} (hround : round ≤ 5)
    (hclosed : round = 5 → ∀ x ∈ sessionIds, (s.process.sessions x).isOpen = false)
    (hs : s'.process = { s.process with call := s.process.nextRound sessionIds round }) :
    Closing s' sessionIds := by
  have hsessions : s'.process.sessions = s.process.sessions := by rw [hs]
  have hcall : s'.process.call = s.process.nextRound sessionIds round := by rw [hs]
  rcases ClosingSessions.nextRound_ok s.process sessionIds round (fun _ => True)
      (fun x => x ∉ sessionIds ∨ round < 4) (fun _ _ => trivial)
      (fun x _ => (em (x ∈ sessionIds)).imp id .inl) with
    ⟨closers, hnext, hlt, hok⟩ | ⟨hnext, hend⟩
  · exact .round (hcall.trans hnext) hlt (hsessions ▸ hok)
  · refine .returned (hcall.trans hnext) (hsessions ▸ ?_)
    exact hend.elim (fun hfive => hclosed (Nat.le_antisymm hround hfive)) id

theorem Inv.closed {s : State} (h : Inv taskId s) {sessionIds : List SessionId}
    (hdeletion : s.deletion = .closing sessionIds) (hcall : s.process.call = .returned) {x : SessionId}
    (hx : rowOf s x) (htask : s.task x = some taskId) : (s.process.sessions x).isOpen = false := by
  cases h.phase with
  | notStarted hd => rw [hdeletion] at hd; cases hd
  | «over» hd => rw [hdeletion] at hd; simp at hd
  | @closing ids hd hread hcreated hclosing =>
    cases hdeletion.symm.trans hd
    by_cases hmem : x ∈ sessionIds
    · cases hclosing with
      | round hround => cases hcall.symm.trans hround
      | returned _ hclosed => exact hclosed x hmem
    · exact hcreated x hx htask hmem

theorem Inv.noneBusy {s : State} (h : Inv taskId s) {e : Event} (he : s.deletesRows e) : NoneBusy taskId s := by
  simp only [State.deletesRows] at he
  split at he
  next sessionIds hdeletion =>
    exact fun x htask hx => not_busy (h.closed hdeletion (of_decide_eq_true he) hx htask)
  · cases he

theorem Closing.process {s s' : State} {sessionIds : List SessionId} {e : ClosingSessions.Event}
    (h : Closing s sessionIds) (hs : s'.process = ClosingSessions.step s.parent s.process e)
    (hcalled : ∀ ids, e ≠ .closeSessionRuntimes ids)
    (hreached : ∀ x ∈ sessionIds, s.process.reaches s.parent x e → early s.process.call) :
    Closing s' sessionIds := by
  have howned : ∀ x ∈ sessionIds, early s.process.call = false →
      Own (s.process.sessions x) (s'.process.sessions x) := by
    intro x hx hlate
    rw [hs]
    refine ClosingSessions.step_own (Bool.eq_false_iff.mpr fun hr => ?_)
    rw [hreached x hx hr] at hlate
    cases hlate
  cases h with
  | @round round closers hcall hround hok =>
    have hmoved : ∀ x, (x ∉ sessionIds ∨ round < 4) ∨
        Own (s.process.sessions x) ((ClosingSessions.step s.parent s.process e).sessions x) := by
      intro x
      by_cases hx : x ∉ sessionIds ∨ round < 4
      · exact .inl hx
      · rw [not_or, not_not, Nat.not_lt] at hx
        exact .inr (hs ▸ howned x hx.1 (by simp [early, hcall, hx.2]))
    rcases hok.next hcall (fun _ _ => trivial) hmoved with
      ⟨closers', hcall', hok'⟩ | ⟨hnext, hopen⟩
    · exact .round (hs ▸ hcall') hround (hs ▸ hok')
    refine Closing.nextRound hround (fun hfive x hx => ?_) (hs.trans hnext)
    -- After the fifth round, in which none of its sessions was reached.
    refine Bool.eq_false_iff.mpr fun hx' => (hopen x hx').elim (· hx) (fun hlt => ?_)
    omega
  | returned hcall hclosed =>
    refine .returned ?_ fun x hx => ?_
    · rw [hs, ClosingSessions.step_call_of_no_round (by simp [hcall]) (by simp [hcalled]), hcall]
    refine Bool.eq_false_iff.mpr fun hopen => ?_
    have hopen := (howned x hx (by simp [early, hcall])).isOpen hopen
    rw [hclosed x hx] at hopen
    cases hopen

theorem Inv.process {s : State} (h : Inv taskId s) {e : ClosingSessions.Event}
    (hok : InTime taskId s (.process e)) (hcalled : ∀ ids, e ≠ .closeSessionRuntimes ids) :
    Inv taskId { s with process := ClosingSessions.step s.parent s.process e } := by
  have hkept : ∀ x, ClosingSessions.Kept (s.process.sessions x)
      ((ClosingSessions.step s.parent s.process e).sessions x) := ClosingSessions.step_kept s.process e
  have hrow : ∀ x, rowOf { s with process := ClosingSessions.step s.parent s.process e } x = rowOf s x :=
    fun x => (hkept x).row
  refine ⟨fun x hx => ?_, fun x hx => h.made x (hrow x ▸ hx), ?_⟩
  · have hgone := (hkept x).gone (h.gone.gone (hrow x ▸ hx))
    exact ⟨hgone.live, hgone.opening⟩
  cases h.phase with
  | notStarted hdeletion hcall =>
    refine .notStarted hdeletion ?_
    rw [ClosingSessions.step_call_of_no_round (by simp [hcall]) (by simp [hcalled]), hcall]
  | @closing sessionIds hdeletion hread hcreated hclosing =>
    have hintime := hok sessionIds (closing_eq hdeletion)
    refine .closing hdeletion (fun x hx => ⟨hrow x ▸ (hread x hx).1, (hread x hx).2⟩) ?_ ?_
    · intro x hx htask hmem
      have hx := hrow x ▸ hx
      -- One that was created since has not been reached.
      cases hr : s.process.reaches s.parent x e with
      | true => exact absurd (hintime x (h.made x hx) hx htask hr).1 hmem
      | false =>
        refine Bool.eq_false_iff.mpr fun hopen => ?_
        have hopen := (ClosingSessions.step_own hr).isOpen hopen
        rw [hcreated x hx htask hmem] at hopen
        cases hopen
    · refine hclosing.process rfl hcalled fun x hx hr => ?_
      obtain ⟨hx', htask⟩ := hread x hx
      exact (hintime x (h.made x hx') hx' htask hr).2
  | «over» hdeletion => exact .over hdeletion

theorem Inv.create {s : State} (h : Inv taskId s) {x : SessionId} {task : Option TaskId}
    {parent : Option SessionId} (hok : s.creatable taskId x task parent) :
    Inv taskId (s.create x task parent) := by
  simp only [State.creatable, Bool.and_eq_true, decide_eq_true_eq] at hok
  obtain ⟨⟨⟨hnew, hnothing⟩, -⟩, -⟩ := hok
  have hself : (s.create x task parent).process.sessions x = .closed true := by
    rw [State.create, modify_self, hnothing]
    rfl
  have hne : ∀ y, y ≠ x → (s.create x task parent).process.sessions y = s.process.sessions y :=
    fun y hy => modify_of_ne s.process (fun t => { t with row := true }) hy
  have hrow : ∀ y, y ≠ x → rowOf (s.create x task parent) y = rowOf s y := fun y hy => congrArg Session.row (hne y hy)
  have htask : ∀ y, y ≠ x → (s.create x task parent).task y = s.task y := fun y hy => Function.update_of_ne hy ..
  refine ⟨fun y hy => ?_, fun y hy => ?_, ?_⟩
  · by_cases hyx : y = x
    · rw [rowOf, hyx, hself] at hy
      cases hy
    · rw [hne y hyx]
      exact h.gone y (hrow y hyx ▸ hy)
  · by_cases hyx : y = x
    · exact List.mem_append_right _ (List.mem_singleton.mpr hyx)
    · exact List.mem_append_left _ (h.made y (hrow y hyx ▸ hy))
  cases h.phase with
  | notStarted hdeletion hcall => exact .notStarted hdeletion hcall
  | @closing sessionIds hdeletion hread hcreated hclosing =>
    have hold : ∀ y ∈ sessionIds, y ≠ x := fun y hy he => hnew (he ▸ h.made y (hread y hy).1)
    refine .closing hdeletion (fun y hy => ?_) (fun y hy hytask hmem => ?_) ?_
    · rw [hrow y (hold y hy), htask y (hold y hy)]
      exact hread y hy
    · by_cases hyx : y = x
      · rw [hyx, hself]
        rfl
      · rw [hne y hyx]
        exact hcreated y (hrow y hyx ▸ hy) (htask y hyx ▸ hytask) hmem
    · cases hclosing with
      | round hcall hround hok =>
        refine .round hcall hround (hok.own (fun _ _ => trivial) fun y => ?_)
        by_cases hyx : y = x
        · exact .inl (.inl fun hy => hold y hy hyx)
        · exact .inr (hne y hyx ▸ .refl _)
      | returned hcall hclosed => exact .returned hcall fun y hy => hne y (hold y hy) ▸ hclosed y hy
  | «over» hdeletion => exact .over hdeletion

theorem Inv.delete {s : State} (h : Inv taskId s) (hdeletion : s.deletion = .notStarted) : Inv taskId
      { s with
        process := ClosingSessions.step s.parent s.process (.closeSessionRuntimes (s.sessionIds taskId))
        deletion := .closing (s.sessionIds taskId) } := by
  have hcall : s.process.call = .notMade := by
    cases h.phase with
    | notStarted _ hcall => exact hcall
    | closing hd => rw [hdeletion] at hd; cases hd
    | «over» hd => rw [hdeletion] at hd; simp at hd
  have hprocess : ClosingSessions.step s.parent s.process (.closeSessionRuntimes (s.sessionIds taskId)) =
      { s.process with call := s.process.nextRound (s.sessionIds taskId) 0 } := by
    simp [ClosingSessions.step, hcall]
  rw [hprocess]
  refine ⟨h.gone, h.made, .closing rfl (fun x hx => ?_) (fun x hx htask hmem => ?_) ?_⟩
  · have hread : rowOf s x ∧ s.task x = some taskId := by simpa using (List.mem_filter.mp hx).2
    exact hread
  · refine absurd (List.mem_filter.mpr ⟨h.made x hx, ?_⟩) hmem
    have hx : rowOf s x = true := hx
    simpa [hx] using htask
  · have hnone : 0 = 5 → ∀ x ∈ s.sessionIds taskId, (s.process.sessions x).isOpen = false := by simp
    exact .nextRound (Nat.zero_le 5) hnone rfl

theorem Inv.deleteRows {s : State} (h : Inv taskId s) (hd : s.deletesRows .deleteRows) :
    Inv taskId (s.deleteRows taskId) := by
  simp only [State.deletesRows] at hd
  split at hd
  next sessionIds hdeletion =>
    refine ⟨fun x hx => ?_, fun x hx => ?_, .over (.inr (.inl rfl))⟩
    · simp only [State.deleteRows, rowOf] at hx ⊢
      by_cases htask : s.task x = some taskId
      · rw [if_pos htask]
        cases hrow : rowOf s x with
        | false => exact h.gone x hrow
        | true =>
          have hclosed := h.closed hdeletion (of_decide_eq_true hd) hrow htask
          simp only [Session.isOpen, Bool.or_eq_false_iff, Option.isSome_eq_false_iff,
            Option.isNone_iff_eq_none] at hclosed
          exact hclosed.1
      · rw [if_neg htask] at hx ⊢
        exact h.gone x hx
    · refine h.made x ?_
      simp only [State.deleteRows, rowOf] at hx
      split at hx
      · cases hx
      · exact hx
  · cases hd

theorem Inv.step {s : State} (h : Inv taskId s) {e : Event} (hok : InTime taskId s e) :
    Inv taskId (TaskDeletion.step taskId s e) := by
  cases e with
  | process e =>
    cases e with
    | closeSessionRuntimes ids => exact h
    | _ => exact h.process hok (by simp)
  | create x task parent =>
    simp only [TaskDeletion.step]
    split
    next hc =>
      exact h.create hc
    · exact h
  | delete =>
    simp only [TaskDeletion.step]
    split
    next hdeletion =>
      split
      · exact h.delete hdeletion
      · exact ⟨h.gone, h.made, .over (.inl rfl)⟩
    · exact h
  | deleteRows =>
    simp only [TaskDeletion.step]
    split
    next hd =>
      exact h.deleteRows hd
    · exact h
  | resolve =>
    simp only [TaskDeletion.step]
    split
    · exact ⟨h.gone, h.made, .over (.inr (.inr rfl))⟩
    · exact h

/-! ## Deletions in time -/

variable (taskId)

def Promised (s : State) (e : Event) : Prop :=
  (s.deletesRows e → NoneBusy taskId s) ∧ ((step taskId s e).deletion = .resolved → NoneLeft (step taskId s e))

structure Start (s : State) : Prop where
  deletion : s.deletion = .notStarted
  call : s.process.call = .notMade
  gone : NoneLeft s
  made : ∀ x, rowOf s x → x ∈ s.made

/-- **A task is deleted without work in progress** in every run in which, while its sessions' runtimes close,
none of its sessions is reached too late and none created since is reached. -/
theorem deleted_without_work {s : State} (hs : Start s) {es : List Event}
    (hes : Run.Along (step taskId) (InTime taskId) s es) : Run.Along (step taskId) (Promised taskId) s es := by
  have hstart : Inv taskId s := ⟨hs.gone, hs.made, .notStarted hs.deletion hs.call⟩
  refine Run.Along.of_invariant (Inv taskId) (fun s e hok h => h.step hok) (fun s e hok h => ?_) hstart hes
  exact ⟨fun he => h.noneBusy he, fun _ => (h.step hok).gone⟩

end

/-- A process that has just started, on a database with the task and no session. -/
def State.init : State := ⟨⟨fun _ => .closed false, .notMade⟩, fun _ => none, [], fun _ => none, true, .notStarted⟩

theorem start_init : Start .init := ⟨rfl, rfl, fun _ _ => ⟨rfl, rfl⟩, nofun⟩

def prompt (x : SessionId) : List Event :=
  [.process (.submit x), .process (.openFor x false), .process (.opened x true), .process (.admitNext x)]

/-- A session of the task is prompted and its run ends; then the task is deleted. -/
def deletion : List Event :=
  .create "a" (some 1) none :: prompt "a" ++ [.process (.settle "a" true), .delete, .process (.close 0),
    .process (.close 0)]

/-- The idle runtime has closed, and the rows go. -/
def closed : List Event := [.process (.close 0), .process .nextRound]

theorem deleted_without_work_idle :
    Run.Along (step 1) (Promised 1) .init (deletion ++ closed ++ [.deleteRows, .resolve]) :=
  deleted_without_work 1 start_init (by decide +kernel)

theorem created_while_closing : ¬ ∀ (taskId : TaskId) (s : State) (es : List Event), Start s →
      Run.Along (step taskId) (Promised taskId) s es := by
  intro h
  let es := deletion ++ .create "b" (some 1) none :: prompt "b" ++ closed
  have hlast : Promised 1 (Run.exec (step 1) .init es) .deleteRows :=
    ((Run.along_append _ _ _ _ _).mp (h 1 .init (es ++ [.deleteRows]) start_init)).2.1
  have hbusy : (Run.exec (step 1) .init es).busy "b" = false :=
    hlast.1 (by decide +kernel) "b" (by decide +kernel) (by decide +kernel)
  exact absurd hbusy (by decide +kernel)

end Reins.TaskDeletion
