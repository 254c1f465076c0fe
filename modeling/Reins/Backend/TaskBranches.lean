import Mathlib.Data.Nat.Digits.Defs
import Reins.Backend.CodeReviews

/-!
# Tasks and their branches (`backend/src/models/tasks.ts`, `task-store.ts`, `branch-name.ts`)

A task names a git branch when it is created and keeps the name. `ProjectTasks.delete` takes the task's row
away and then force-deletes that branch, waiting in between for runtimes to close and for git; whatever else
happens to the project's tasks meanwhile is a step of its own. Ids are SQLite's `AUTOINCREMENT`, never used
twice. The times, the sessions' activity and what git answers are the environment's, in the events.
-/

namespace Reins.TaskBranches

open Schema Utf List
open CodeReviews (isWhiteSpace trim)

/-! ## `branch-name.ts` -/

/-- `toLowerCase`, as far as `isSlugUnit` keeps anything of it: the capital letters, the dotted `İ` and the
Kelvin sign come to an ASCII letter, and nothing else does that is not one. -/
def toLowerCase (u : UInt16) : JsString :=
  if 0x41 ≤ u && u ≤ 0x5A then [u + 0x20]
  else if u = 0x130 then [0x69, 0x307]
  else if u = 0x212A then [0x6B]
  else [u]

def hyphen : UInt16 := 0x2D

def isSlugUnit (u : UInt16) : Bool := 0x61 ≤ u && u ≤ 0x7A || 0x30 ≤ u && u ≤ 0x39 || isWhiteSpace u || u = hyphen

def hyphenateRuns (p : UInt16 → Bool) : JsString → JsString
  | [] => []
  | [u] => if p u then [hyphen] else [u]
  | u :: v :: rest =>
    if p u then (if p v then hyphenateRuns p (v :: rest) else hyphen :: hyphenateRuns p (v :: rest))
    else u :: hyphenateRuns p (v :: rest)

def dropHyphen : JsString → JsString
  | [] => []
  | u :: rest => if u = hyphen then rest else u :: rest

def dropLastHyphen (s : JsString) : JsString := (dropHyphen s.reverse).reverse

def slug (title : JsString) : JsString :=
  let kept := (title.flatMap toLowerCase).filter isSlugUnit
  let hyphenated := hyphenateRuns (· = hyphen) (hyphenateRuns isWhiteSpace kept)
  dropLastHyphen ((dropLastHyphen (dropHyphen hyphenated)).take 50)

def slugifyBranchName (title : JsString) : JsString :=
  js "task/" ++ if slug title = [] then js "untitled" else slug title

example : slugifyBranchName (js " Fix  bug #123: -- crash on start!") =
    js "task/fix-bug-123-crash-on-start" := by decide +kernel

/-! ## The `tasks` table -/

abbrev ProjectId := Nat
abbrev TaskId := Nat

structure Task where
  id : TaskId
  projectId : ProjectId
  title : JsString
  description : Option JsString
  branchName : JsString
  baseCommit : Option JsString
  /-- When the task last closed; none while open. -/
  closedAt : Option JsString
  deriving DecidableEq

inductive Waiting
  | runtimes
  | git
  deriving DecidableEq

structure Deletion where
  task : Task
  waiting : Waiting
  deriving DecidableEq

structure State where
  tasks : List Task
  nextId : TaskId
  deleting : List Deletion
  deriving DecidableEq

def State.start : State := ⟨[], 1, []⟩

variable {s : State} {t task : Task} {projectId : ProjectId} {i : Nat}

def projectHasTaskBranch (tasks : List Task) (projectId : ProjectId) (branchName : JsString) : Bool :=
  tasks.any fun t => t.projectId = projectId && t.branchName = branchName

def createTask (s : State) (projectId : ProjectId) (title : JsString) (description : Option JsString)
    (branchName : JsString) : State :=
  { s with
    tasks := s.tasks ++ [⟨s.nextId, projectId, title, description, branchName, none, none⟩]
    nextId := s.nextId + 1 }

def updateWhere (s : State) (id : TaskId) (f : Task → Task) : State :=
  { s with tasks := s.tasks.map fun t => if t.id = id then f t else t }

structure Updates where
  title : Option JsString
  description : Option (Option JsString)
  baseCommit : Option JsString
  deriving DecidableEq

def updateTask (s : State) (id : TaskId) (updates : Updates) : State :=
  updateWhere s id fun t =>
    { t with
      title := updates.title.getD t.title
      description := updates.description.getD t.description
      baseCommit := updates.baseCommit <|> t.baseCommit }

inductive TaskStatus
  | opened
  | closed
  deriving DecidableEq

/-- Closing records the time, kept if already closed; reopening clears it. -/
def setTaskStatus (s : State) (id : TaskId) (status : TaskStatus) (now : JsString) : State :=
  updateWhere s id fun t =>
    { t with closedAt := match status with | .opened => none | .closed => t.closedAt <|> some now }

def storeDeleteTask (s : State) (id : TaskId) : State := { s with tasks := s.tasks.filter (·.id ≠ id) }

/-! ## `ProjectTasks` -/

structure CreateTaskParams where
  title : JsString
  description : JsString
  branchName : Option JsString
  deriving DecidableEq

def CreateTaskParams.given (params : CreateTaskParams) : JsString := (params.branchName.map trim).getD []

def base36Digit (n : Nat) : UInt16 := UInt16.ofNat (if n < 10 then 0x30 + n else 0x57 + n)

def lastDigits36 (now : Nat) : JsString :=
  let digits := (Nat.digits 36 now).take 4
  if digits = [] then [0x30] else (digits.map base36Digit).reverse

/-- A taken name with the time at its end. -/
def suffixed (branchName : JsString) (now : Nat) : JsString := branchName ++ [hyphen] ++ lastDigits36 now

def branchNameFor (tasks : List Task) (projectId : ProjectId) (params : CreateTaskParams) (now : Nat) :
    JsString :=
  let branchName := if params.given = [] then slugifyBranchName params.title else params.given
  if params.given = [] && projectHasTaskBranch tasks projectId branchName then suffixed branchName now
  else branchName

def create (s : State) (projectId : ProjectId) (params : CreateTaskParams) (now : Nat) : State :=
  let description := trim params.description
  createTask s projectId (trim params.title) (if description = [] then none else some description)
    (branchNameFor s.tasks projectId params now)

def get (tasks : List Task) (projectId : ProjectId) (id : TaskId) : Option Task :=
  (tasks.find? (·.id = id)).filter (·.projectId = projectId)

/-- What the git commands of a deletion do: `none` and `false` where one throws. -/
structure GitAnswers where
  currentBranch : Option JsString
  checkoutBranch : Bool
  deleteBranch : Bool
  deriving DecidableEq

/-- The branch `git branch -D` deletes for a task, if the commands come to that. -/
def forceDeleted (git : GitAnswers) (task : Task) : Option JsString :=
  match git.currentBranch with
  | none => none
  | some current =>
    if current = task.branchName && !git.checkoutBranch then none
    else if git.deleteBranch then some task.branchName
    else none

inductive Event
  | create (projectId : ProjectId) (params : CreateTaskParams) (now : Nat)
  | update (projectId : ProjectId) (id : TaskId) (updates : Updates)
  | close (projectId : ProjectId) (id : TaskId) (now : JsString)
  | reopen (projectId : ProjectId) (id : TaskId) (now : JsString)
  | delete (projectId : ProjectId) (id : TaskId) (active : Nat)
  | runtimesClosed (i : Nat) (closed : Bool)
  | branchDeleted (i : Nat) (git : GitAnswers)
  deriving DecidableEq

def step (s : State) : Event → State
  | .create projectId params now => create s projectId params now
  | .update projectId id updates => if (get s.tasks projectId id).isSome then updateTask s id updates else s
  | .close projectId id now => if (get s.tasks projectId id).isSome then setTaskStatus s id .closed now else s
  | .reopen projectId id now => if (get s.tasks projectId id).isSome then setTaskStatus s id .opened now else s
  | .delete projectId id active =>
    match get s.tasks projectId id with
    | none => s
    | some task => if 0 < active then s else { s with deleting := s.deleting ++ [⟨task, .runtimes⟩] }
  | .runtimesClosed i closed =>
    match s.deleting[i]? with
    | some ⟨task, .runtimes⟩ =>
      if closed then { storeDeleteTask s task.id with deleting := s.deleting.set i ⟨task, .git⟩ }
      else { s with deleting := s.deleting.eraseIdx i }
    | _ => s
  | .branchDeleted i _ =>
    match s.deleting[i]? with
    | some ⟨_, .git⟩ => { s with deleting := s.deleting.eraseIdx i }
    | _ => s

def losing (s : State) : Event → List Task
  | .branchDeleted i git =>
    match s.deleting[i]? with
    | some ⟨task, .git⟩ =>
      match forceDeleted git task with
      | some branch => s.tasks.filter fun t => t.projectId = task.projectId && t.id ≠ task.id && t.branchName = branch
      | none => []
    | _ => []
  | _ => []

/-- The branch a step force-deletes, if it does, is no other task's of the project. -/
abbrev Spares (s : State) (e : Event) : Prop := losing s e = []

/-! ## Names no other task has -/

def Free (s : State) (projectId : ProjectId) (branchName : JsString) : Prop :=
  (∀ t ∈ s.tasks, t.projectId = projectId → t.branchName ≠ branchName) ∧
    ∀ d ∈ s.deleting, d.task.projectId = projectId → d.task.branchName ≠ branchName

def Fresh (s : State) : Event → Prop
  | .create projectId params now =>
    if params.given = [] then
      if projectHasTaskBranch s.tasks projectId (slugifyBranchName params.title) then
        Free s projectId (suffixed (slugifyBranchName params.title) now)
      else
        ∀ d ∈ s.deleting, d.task.projectId = projectId → d.task.branchName ≠ slugifyBranchName params.title
    else Free s projectId params.given
  | _ => True

theorem projectHasTaskBranch_eq_false {tasks : List Task} {b : JsString} :
    projectHasTaskBranch tasks projectId b = false ↔ ∀ t ∈ tasks, t.projectId = projectId → t.branchName ≠ b := by
  simp [projectHasTaskBranch]

theorem fresh_create {params : CreateTaskParams} {now : Nat} : Fresh s (.create projectId params now) ↔
      Free s projectId (branchNameFor s.tasks projectId params now) := by
  unfold Fresh branchNameFor
  by_cases hg : params.given = []
  · cases ht : projectHasTaskBranch s.tasks projectId (slugifyBranchName params.title) with
    | true => simp [hg, ht]
    | false =>
      have hfree := projectHasTaskBranch_eq_false.mp ht
      simp only [hg, ht, if_true, Bool.false_eq_true, if_false, decide_true, Bool.true_and]
      exact ⟨fun hd => ⟨hfree, hd⟩, And.right⟩
  · simp [hg]

theorem get_eq_some {tasks : List Task} {id : TaskId}
    (h : get tasks projectId id = some t) : t ∈ tasks ∧ t.id = id ∧ t.projectId = projectId := by
  obtain ⟨hf, hp⟩ := Option.filter_eq_some_iff.mp h
  exact ⟨mem_of_find?_eq_some hf, by simpa using find?_some hf, by simpa using hp⟩

/-! ## What a run keeps -/

structure Ids (s : State) : Prop where
  nodup : (s.tasks.map (·.id)).Nodup
  tasks : ∀ t ∈ s.tasks, t.id < s.nextId
  deleting : ∀ d ∈ s.deleting, d.task.id < s.nextId
  gone : ∀ d ∈ s.deleting, d.waiting = .git → ∀ t ∈ s.tasks, t.id ≠ d.task.id

structure Dedicated (s : State) : Prop where
  tasks : ∀ t ∈ s.tasks, ∀ u ∈ s.tasks, t.projectId = u.projectId → t.branchName = u.branchName → t.id = u.id
  deleting : ∀ d ∈ s.deleting, ∀ t ∈ s.tasks, t.projectId = d.task.projectId →
    t.branchName = d.task.branchName → t.id = d.task.id

/-- What an `UPDATE` leaves of a task. -/
structure SameTask (t u : Task) : Prop where
  id : t.id = u.id
  projectId : t.projectId = u.projectId
  branchName : t.branchName = u.branchName

/-- The tasks afterwards were there before, under the same id, project and branch name, and the deletions
too. -/
structure Narrows (s s' : State) : Prop where
  ids : s'.tasks.map (·.id) = s.tasks.map (·.id)
  tasks : ∀ t ∈ s'.tasks, ∃ u ∈ s.tasks, SameTask t u
  nextId : s'.nextId = s.nextId
  deleting : ∀ d ∈ s'.deleting, d ∈ s.deleting

theorem Narrows.refl (s : State) : Narrows s s := ⟨rfl, fun t ht => ⟨t, ht, rfl, rfl, rfl⟩, rfl, fun _ h => h⟩

theorem Narrows.updateWhere (s : State) (id : TaskId) {f : Task → Task} (hf : ∀ t, SameTask (f t) t) :
    Narrows s (updateWhere s id f) := by
  have hsame (t : Task) : SameTask (if t.id = id then f t else t) t := by
    split
    · exact hf t
    · exact ⟨rfl, rfl, rfl⟩
  refine ⟨?_, fun t ht => ?_, rfl, fun _ h => h⟩
  · simp only [TaskBranches.updateWhere, map_map]
    exact map_congr_left fun t _ => (hsame t).id
  · obtain ⟨u, hu, rfl⟩ := mem_map.mp ht
    exact ⟨u, hu, hsame u⟩

theorem Narrows.dropDeletion (s : State) (i : Nat) : Narrows s { s with deleting := s.deleting.eraseIdx i } :=
  ⟨rfl, (Narrows.refl s).tasks, rfl, fun _ h => mem_of_mem_eraseIdx h⟩

theorem step_cases (s : State) (e : Event) : Narrows s (step s e) ∨
    (∃ projectId params now, e = .create projectId params now) ∨
    (∃ t ∈ s.tasks, step s e = { s with deleting := s.deleting ++ [⟨t, .runtimes⟩] }) ∨
    ∃ i t, s.deleting[i]? = some ⟨t, .runtimes⟩ ∧
      step s e = { storeDeleteTask s t.id with deleting := s.deleting.set i ⟨t, .git⟩ } := by
  cases e with
  | create projectId params now => exact .inr (.inl ⟨_, _, _, rfl⟩)
  | update projectId id updates =>
    refine .inl ?_
    simp only [step]
    split
    · exact Narrows.updateWhere s id fun t => ⟨rfl, rfl, rfl⟩
    · exact Narrows.refl s
  | close projectId id now =>
    refine .inl ?_
    simp only [step]
    split
    · exact Narrows.updateWhere s id fun t => ⟨rfl, rfl, rfl⟩
    · exact Narrows.refl s
  | reopen projectId id now =>
    refine .inl ?_
    simp only [step]
    split
    · exact Narrows.updateWhere s id fun t => ⟨rfl, rfl, rfl⟩
    · exact Narrows.refl s
  | delete projectId id active =>
    simp only [step]
    cases hg : get s.tasks projectId id with
    | none => exact .inl (Narrows.refl s)
    | some t =>
      by_cases ha : 0 < active
      · exact .inl (by simpa [ha] using Narrows.refl s)
      · exact .inr (.inr (.inl ⟨t, (get_eq_some hg).1, by simp [ha]⟩))
  | runtimesClosed i closed =>
    simp only [step]
    split
    next t hd =>
      cases closed with
      | true => exact .inr (.inr (.inr ⟨i, t, hd, by simp⟩))
      | false => exact .inl (by simpa using Narrows.dropDeletion s i)
    · exact .inl (Narrows.refl s)
  | branchDeleted i git =>
    refine .inl ?_
    simp only [step]
    split
    · exact Narrows.dropDeletion s i
    · exact Narrows.refl s

/-- A deletion after the rows of one have gone is that one, or was under way before. -/
theorem mem_set_git (hi : s.deleting[i]? = some ⟨t, .runtimes⟩) {d : Deletion} (hd : d ∈ s.deleting.set i ⟨t, .git⟩) :
    ∃ d' ∈ s.deleting, d'.task = d.task ∧ (d = d' ∨ d = ⟨t, .git⟩) := by
  rcases mem_or_eq_of_mem_set hd with hd | rfl
  · exact ⟨d, hd, rfl, .inl rfl⟩
  · exact ⟨_, mem_of_getElem? hi, rfl, .inr rfl⟩

theorem Ids.step (hs : Ids s) (e : Event) : Ids (step s e) := by
  rcases step_cases s e with hn | ⟨projectId, params, now, rfl⟩ | ⟨t, ht, he⟩ | ⟨i, t, hi, he⟩
  · refine ⟨by rw [hn.ids]; exact hs.nodup, fun t ht => ?_, fun d hd => ?_, fun d hd hg t ht => ?_⟩
    · obtain ⟨u, hu, hid, -⟩ := hn.tasks t ht
      rw [hid, hn.nextId]
      exact hs.tasks u hu
    · rw [hn.nextId]
      exact hs.deleting d (hn.deleting d hd)
    · obtain ⟨u, hu, hid, -⟩ := hn.tasks t ht
      rw [hid]
      exact hs.gone d (hn.deleting d hd) hg u hu
  · refine ⟨?_, fun t ht => ?_, fun d hd => Nat.lt_succ_of_lt (hs.deleting d hd), fun d hd hg t ht => ?_⟩
    · have hnew : s.nextId ∉ s.tasks.map (·.id) := by
        intro hm
        obtain ⟨t, ht, hid⟩ := mem_map.mp hm
        exact (hs.tasks t ht).ne hid
      simpa [TaskBranches.step, create, createTask, nodup_append, hs.nodup] using hnew
    · rcases Places.mem_concat_cases ht with ht | rfl
      · exact Nat.lt_succ_of_lt (hs.tasks t ht)
      · exact Nat.lt_succ_self _
    · rcases Places.mem_concat_cases ht with ht | rfl
      · exact hs.gone d hd hg t ht
      · exact (hs.deleting d hd).ne'
  · rw [he]
    refine ⟨hs.nodup, hs.tasks, fun d hd => ?_, fun d hd hg u hu => ?_⟩
    · rcases Places.mem_concat_cases hd with hd | rfl
      · exact hs.deleting d hd
      · exact hs.tasks t ht
    rcases Places.mem_concat_cases hd with hd | rfl
    · exact hs.gone d hd hg u hu
    · cases hg
  · rw [he]
    refine ⟨hs.nodup.sublist (filter_sublist.map _),
      fun u hu => hs.tasks u (mem_of_mem_filter hu), fun d hd => ?_, fun d hd hg u hu => ?_⟩
    · obtain ⟨d', hd', ht', -⟩ := mem_set_git hi hd
      rw [← ht']
      exact hs.deleting d' hd'
    obtain ⟨hu, hne⟩ := mem_filter.mp hu
    obtain ⟨d', hd', -, rfl | rfl⟩ := mem_set_git hi hd
    · exact hs.gone d hd' hg u hu
    · simpa using hne

/-- **The step lemma**: where tasks are created under free names, names stay dedicated. -/
theorem Dedicated.step (hs : Dedicated s) {e : Event} (he : Fresh s e) : Dedicated (step s e) := by
  rcases step_cases s e with hn | ⟨projectId, params, now, rfl⟩ | ⟨t, ht, heq⟩ | ⟨i, t, hi, heq⟩
  · refine ⟨fun t ht u hu hp hb => ?_, fun d hd t ht hp hb => ?_⟩
    · obtain ⟨t', ht', hid, hp', hb'⟩ := hn.tasks t ht
      obtain ⟨u', hu', hid', hp'', hb''⟩ := hn.tasks u hu
      rw [hid, hid']
      exact hs.tasks t' ht' u' hu' (by rw [← hp', ← hp'', hp]) (by rw [← hb', ← hb'', hb])
    · obtain ⟨t', ht', hid, hp', hb'⟩ := hn.tasks t ht
      rw [hid]
      exact hs.deleting d (hn.deleting d hd) t' ht' (by rw [← hp', hp]) (by rw [← hb', hb])
  · obtain ⟨hfree, hfree'⟩ := fresh_create.mp he
    refine ⟨fun t ht u hu hp hb => ?_, fun d hd t ht hp hb => ?_⟩
    -- the new task shares its name with none that was there
    · rcases mem_append.mp ht with ht | ht <;> rcases mem_append.mp hu with hu | hu
      · exact hs.tasks t ht u hu hp hb
      · obtain rfl := mem_singleton.mp hu
        exact absurd hb (hfree t ht hp)
      · obtain rfl := mem_singleton.mp ht
        exact absurd hb.symm (hfree u hu hp.symm)
      · rw [mem_singleton.mp ht, mem_singleton.mp hu]
    · rcases Places.mem_concat_cases ht with ht | rfl
      · exact hs.deleting d hd t ht hp hb
      · exact absurd hb.symm (hfree' d hd hp.symm)
  · rw [heq]
    refine ⟨hs.tasks, fun d hd u hu hp hb => ?_⟩
    rcases Places.mem_concat_cases hd with hd | rfl
    · exact hs.deleting d hd u hu hp hb
    · exact hs.tasks u hu t ht hp hb
  · rw [heq]
    refine ⟨fun u hu v hv => ?_, fun d hd u hu => ?_⟩
    · exact hs.tasks u (mem_of_mem_filter hu) v (mem_of_mem_filter hv)
    obtain ⟨d', hd', ht', -⟩ := mem_set_git hi hd
    rw [← ht']
    exact hs.deleting d' hd' u (mem_of_mem_filter hu)

theorem forceDeleted_eq {git : GitAnswers} {branch : JsString}
    (h : forceDeleted git task = some branch) : branch = task.branchName := by
  unfold forceDeleted at h
  split at h
  · cases h
  split at h
  · cases h
  split at h
  · exact (Option.some.inj h).symm
  · cases h

/-- Where names are dedicated, the branch that goes is no other task's. -/
theorem Dedicated.spares (hs : Dedicated s) (e : Event) : Spares s e := by
  cases e with
  | branchDeleted i git =>
    simp only [Spares, losing]
    split
    next task hd =>
      split
      next branch hb =>
        rw [filter_eq_nil_iff]
        intro t ht hlost
        simp only [Bool.and_eq_true, decide_eq_true_eq, ne_eq] at hlost
        obtain ⟨⟨hp, hne⟩, hname⟩ := hlost
        exact hne (hs.deleting _ (mem_of_getElem? hd) t ht hp (hname.trans (forceDeleted_eq hb)))
      · rfl
    · rfl
  | _ => rfl

theorem Ids.start : Ids State.start := by constructor <;> simp [State.start]

theorem Dedicated.start : Dedicated State.start := by constructor <;> simp [State.start]

theorem along_spares (hs : Dedicated s) {es : List Event} (h : Run.Along step Fresh s es) :
    Run.Along step Spares s es := by
  induction es generalizing s with
  | nil => trivial
  | cons e es ih => exact ⟨hs.spares e, ih (hs.step h.1) h.2⟩

/-- **Where every task is created under a free name, no deletion takes another task's branch**, in any
order of the tasks' operations and of the deletions' steps. -/
theorem fresh_spares {es : List Event} (h : Run.Along step Fresh State.start es) :
    Run.Along step Spares State.start es :=
  along_spares Dedicated.start h

def titled (title : String) : CreateTaskParams := ⟨js title, [], none⟩

def onBranch (title branchName : String) : CreateTaskParams := ⟨js title, [], some (js branchName)⟩

def deletes : GitAnswers := ⟨some (js "main"), true, true⟩

instance (s : State) (projectId : ProjectId) (branchName : JsString) :
    Decidable (Free s projectId branchName) := inferInstanceAs (Decidable (_ ∧ _))

instance Fresh.decidable (s : State) : (e : Event) → Decidable (Fresh s e)
  | .create _ _ _ => inferInstanceAs (Decidable (ite _ (ite _ _ _) _))
  | .update .. | .close .. | .reopen .. | .delete .. | .runtimesClosed .. | .branchDeleted .. => .isTrue trivial

/-- Two tasks of one title, of which the second takes a suffix, and the first is deleted. -/
theorem fresh_spares_same_title : Run.Along step Spares State.start
      [.create 1 (titled "Fix") 0, .create 1 (titled "Fix") 1234567890123, .delete 1 1 0,
        .runtimesClosed 0 true, .branchDeleted 0 deletes] :=
  fresh_spares (by decide +kernel)

/-- A second task that adopts the first one's branch loses it with the first. -/
theorem adopted_branch_lost : ¬∀ es : List Event, Run.Along step Spares State.start es := by
  intro h
  have hrun := h [.create 1 (onBranch "Build it" "feature") 0, .create 1 (onBranch "Review it" "feature") 0,
    .delete 1 1 0, .runtimesClosed 0 true, .branchDeleted 0 deletes]
  exact absurd hrun (by decide +kernel)
/-! ## A name that is taken is lost -/

@[simp] theorem forceDeleted_deletes (task : Task) : forceDeleted deletes task = some task.branchName := by
  simp [forceDeleted, deletes]

theorem lost_at_git (hi : s.deleting[i]? = some ⟨task, .git⟩)
    (ht : t ∈ s.tasks) (hp : t.projectId = task.projectId) (hne : t.id ≠ task.id)
    (hb : t.branchName = task.branchName) : ¬Spares s (.branchDeleted i deletes) := by
  intro h
  simp only [Spares, losing, hi, forceDeleted_deletes, filter_eq_nil_iff] at h
  exact h t ht (by simp [hp, hne, hb])

theorem lost_at_runtimes
    (hi : s.deleting[i]? = some ⟨task, .runtimes⟩) (ht : t ∈ s.tasks) (hp : t.projectId = task.projectId)
    (hne : t.id ≠ task.id) (hb : t.branchName = task.branchName) :
    ¬Run.Along step Spares s [.runtimesClosed i true, .branchDeleted i deletes] := by
  intro h
  obtain ⟨hlt, -⟩ := List.getElem?_eq_some_iff.mp hi
  have hs : step s (.runtimesClosed i true) =
      { storeDeleteTask s task.id with deleting := s.deleting.set i ⟨task, .git⟩ } := by
    simp [step, hi]
  refine lost_at_git (s := step s (.runtimesClosed i true)) ?_ ?_ hp hne hb h.2.1
  · rw [hs]
    simp [hlt]
  · rw [hs]
    exact mem_filter.mpr ⟨ht, by simpa using hne⟩

theorem get_of_mem (hs : Ids s) (ht : t ∈ s.tasks) : get s.tasks t.projectId t.id = some t := by
  have hfind : s.tasks.find? (·.id = t.id) = some t := by
    have hn := hs.nodup
    generalize s.tasks = ts at ht hn
    induction ts with
    | nil => cases ht
    | cons u us ih =>
      rw [map_cons, nodup_cons] at hn
      rcases mem_cons.mp ht with rfl | ht
      · simp
      · have hne : u.id ≠ t.id := fun h => hn.1 (h ▸ mem_map_of_mem ht)
        simpa [find?_cons, hne] using ih ht hn.2
  simp [get, hfind]

/-- A task created under a name that is not free can lose its branch: a deletion that is under way, or of
the task that has the name, deletes it. -/
theorem lost_of_not_fresh (hs : Ids s) {e : Event} (he : ¬Fresh s e) : ∃ es, ¬Run.Along step Spares (step s e) es := by
  cases e with
  | create projectId params now =>
    rw [fresh_create, Free, not_and_or] at he
    have hs' := hs.step (.create projectId params now)
    have hdeleting : (step s (.create projectId params now)).deleting = s.deleting := rfl
    have hkept : ∀ u ∈ s.tasks, u ∈ (step s (.create projectId params now)).tasks :=
      fun u hu => mem_append_left _ hu
    -- the task that was created
    obtain ⟨t, ht, hid, hp, hb⟩ : ∃ t ∈ (step s (.create projectId params now)).tasks,
        t.id = s.nextId ∧ t.projectId = projectId ∧ t.branchName = branchNameFor s.tasks projectId params now :=
      ⟨_, mem_append_right _ (mem_singleton_self _), rfl, rfl, rfl⟩
    generalize step s (.create projectId params now) = s' at hs' hdeleting hkept ht ⊢
    rcases he with he | he
    · push Not at he
      obtain ⟨u, hu, hup, hub⟩ := he
      refine ⟨[.delete u.projectId u.id 0, .runtimesClosed s.deleting.length true,
        .branchDeleted s.deleting.length deletes], fun h => ?_⟩
      have hstep : step s' (.delete u.projectId u.id 0) = { s' with deleting := s.deleting ++ [⟨u, .runtimes⟩] } := by
        rw [step, get_of_mem hs' (hkept u hu)]
        simp [hdeleting]
      refine lost_at_runtimes (t := t) ?_ ?_ (hp.trans hup.symm)
        (hid.trans_ne (hs.tasks u hu).ne') (hb.trans hub.symm) h.2
      · rw [hstep]
        simp
      · rw [hstep]
        exact ht
    · push Not at he
      obtain ⟨⟨task, waiting⟩, hd, hdp, hdb⟩ := he
      have hne := hid.trans_ne (hs.deleting _ hd).ne'
      rw [← hdeleting] at hd
      obtain ⟨i, hi⟩ := getElem?_of_mem hd
      cases waiting with
      | runtimes => exact ⟨_, lost_at_runtimes (i := i) hi ht (hp.trans hdp.symm) hne (hb.trans hdb.symm)⟩
      | git =>
        exact ⟨[.branchDeleted i deletes], fun h => lost_at_git hi ht (hp.trans hdp.symm) hne (hb.trans hdb.symm) h.1⟩
  | _ => exact absurd trivial he

/-- **No other step is safe**: in every state, one that is not fresh can be followed by the loss of a branch. -/
theorem taken_name_lost (es : List Event) (e : Event) : Fresh (Run.exec step .start es) e ∨
    ∃ fs, ¬Run.Along step Spares (step (Run.exec step .start es) e) fs := by
  by_cases he : Fresh (Run.exec step .start es) e
  · exact .inl he
  · exact .inr (lost_of_not_fresh (Run.exec_invariant Ids (fun _ e hs => hs.step e) Ids.start es) he)

end Reins.TaskBranches
