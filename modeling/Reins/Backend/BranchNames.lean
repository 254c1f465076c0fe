import Reins.Backend.TaskBranches

/-!
# Derived branch names (`backend/src/models/tasks.ts`, `branch-name.ts`)

A task created without a branch name is named after its title, with the time at the end where one of the
project's tasks has that name. `TaskBranches` has the names and the tasks' steps.
-/

namespace Reins.BranchNames

open Schema Utf Run List
open CodeReviews (isWhiteSpace)
open TaskBranches

/-! ## Git's rules -/

def dot : UInt16 := 0x2E
def slash : UInt16 := 0x2F
def at_ : UInt16 := 0x40

/-- A control character, a space, or one of `~^:?*[\`. -/
def forbidden (u : UInt16) : Bool := u < 0x20 || u = 0x7F || [0x20, 0x7E, 0x5E, 0x3A, 0x3F, 0x2A, 0x5B, 0x5C].contains u

/-- `git check-ref-format --branch`. -/
structure ValidBranchName (name : JsString) : Prop where
  units : ∀ u ∈ name, forbidden u = false
  ne_nil : name ≠ []
  slashes : ¬[slash] <+: name ∧ ¬[slash] <:+ name ∧ ¬[slash, slash] <:+: name
  dots : ¬[dot] <+: name ∧ ¬[slash, dot] <:+: name ∧ ¬[dot, dot] <:+: name ∧ ¬[dot] <:+ name
  /-- No component ends with `.lock`. -/
  locks : ¬js ".lock" <:+ name ∧ ¬js ".lock/" <:+: name
  at_ : name ≠ [at_] ∧ ¬[at_, 0x7B] <:+: name
  hyphen : ¬[hyphen] <+: name
  head : name ≠ js "HEAD"

/-- What the part of a derived name after its slash is made of. -/
def isNameUnit (u : UInt16) : Bool := 0x61 ≤ u && u ≤ 0x7A || 0x30 ≤ u && u ≤ 0x39 || u = hyphen

section

variable {u : UInt16} {s t name : JsString} {p : UInt16 → Bool}

theorem mem_hyphenateRuns (h : u ∈ hyphenateRuns p s) : u = hyphen ∨ u ∈ s ∧ p u = false := by
  fun_induction hyphenateRuns p s with
  | case1 => cases h
  | case2 v hv => exact .inl (mem_singleton.mp h)
  | case3 v hv =>
    obtain rfl := mem_singleton.mp h
    exact .inr ⟨h, by simpa using hv⟩
  | case4 v w rest hv hw ih => exact (ih h).imp_right (.imp_left (mem_cons_of_mem _))
  | case5 v w rest hv hw ih =>
    rcases mem_cons.mp h with rfl | h
    · exact .inl rfl
    · exact (ih h).imp_right (.imp_left (mem_cons_of_mem _))
  | case6 v w rest hv ih =>
    rcases mem_cons.mp h with rfl | h
    · exact .inr ⟨mem_cons_self .., by simpa using hv⟩
    · exact (ih h).imp_right (.imp_left (mem_cons_of_mem _))

theorem dropHyphen_subset : dropHyphen s ⊆ s := by
  intro u h
  cases s with
  | nil => exact h
  | cons v rest =>
    rw [dropHyphen] at h
    split at h
    · exact mem_cons_of_mem v h
    · exact h

theorem dropLastHyphen_subset : dropLastHyphen s ⊆ s := by
  intro u h
  have := dropHyphen_subset (mem_reverse.mp h)
  exact mem_reverse.mp this

theorem slug_units {title : JsString} (h : u ∈ slug title) : isNameUnit u = true := by
  have h := dropHyphen_subset (dropLastHyphen_subset (mem_of_mem_take (dropLastHyphen_subset h)))
  rcases mem_hyphenateRuns h with rfl | ⟨h, -⟩
  · rfl
  rcases mem_hyphenateRuns h with rfl | ⟨h, hspace⟩
  · rfl
  · have hkept := of_mem_filter h
    simpa [isSlugUnit, isNameUnit, hspace] using hkept

theorem base36Digit_units : ∀ n < 36, isNameUnit (base36Digit n) = true := by
  decide

theorem lastDigits36_units {now : Nat} (h : u ∈ lastDigits36 now) : isNameUnit u = true := by
  unfold lastDigits36 at h
  dsimp only at h
  split at h
  · obtain rfl := mem_singleton.mp h
    rfl
  · obtain ⟨n, hn, rfl⟩ := mem_map.mp (mem_reverse.mp h)
    exact base36Digit_units n (Nat.digits_lt_base (by norm_num) (mem_of_mem_take hn))

theorem nameUnit_range (h : isNameUnit u = true) :
    0x61 ≤ u.toNat ∧ u.toNat ≤ 0x7A ∨ 0x30 ≤ u.toNat ∧ u.toNat ≤ 0x39 ∨ u.toNat = 0x2D := by
  simp only [isNameUnit, hyphen, Bool.or_eq_true, Bool.and_eq_true, decide_eq_true_eq, UInt16.le_iff_toNat_le,
    ← UInt16.toNat_inj] at h
  simpa [or_assoc] using h

theorem forbidden_of_nameUnit (h : isNameUnit u = true) : forbidden u = false := by
  have := nameUnit_range h
  simp only [forbidden, contains_eq_mem, mem_cons, not_mem_nil, or_false, Bool.or_eq_false_iff,
    decide_eq_false_iff_not, UInt16.lt_iff_toNat_lt, ← UInt16.toNat_inj]
  simp
  omega

theorem task_eq : js "task/" = [0x74, 0x61, 0x73, 0x6B, slash] := by decide

theorem valid_of_nameUnits (hne : t ≠ []) (hunits : ∀ u ∈ t, isNameUnit u = true) :
    ValidBranchName (js "task/" ++ t) := by
  have hslash : slash ∉ t := fun h => nomatch hunits _ h
  have hunit : ∀ u ∈ js "task/" ++ t, u = slash ∨ isNameUnit u = true := by
    intro u hu
    rcases mem_append.mp hu with hu | hu
    · rw [task_eq] at hu
      simp only [mem_cons, not_mem_nil, or_false] at hu
      rcases hu with rfl | rfl | rfl | rfl | rfl
      · exact .inr rfl
      · exact .inr rfl
      · exact .inr rfl
      · exact .inr rfl
      · exact .inl rfl
    · exact .inr (hunits u hu)
  have hdot : dot ∉ js "task/" ++ t := fun h => (hunit dot h).elim (by decide) (by decide)
  have hat : at_ ∉ js "task/" ++ t := fun h => (hunit at_ h).elim (by decide) (by decide)
  have hhead : (0x48 : UInt16) ∉ js "task/" ++ t := fun h => (hunit _ h).elim (by decide) (by decide)
  have hcount : (js "task/" ++ t).count slash = 1 := by
    rw [task_eq, count_append, count_eq_zero_of_not_mem hslash]
    rfl
  refine ⟨fun u hu => ?_, by simp [hne], ⟨?_, ?_, ?_⟩, ⟨?_, ?_, ?_, ?_⟩, ⟨?_, ?_⟩, ⟨?_, ?_⟩, ?_, ?_⟩
  · rcases hunit u hu with rfl | hu
    · rfl
    · exact forbidden_of_nameUnit hu
  · simp [task_eq, slash]
  · rintro ⟨pre, hpre⟩
    obtain ⟨init, last, rfl⟩ := eq_nil_or_concat t |>.resolve_left hne
    rw [concat_eq_append, ← append_assoc] at hpre
    obtain ⟨-, hlast⟩ := append_inj' hpre rfl
    exact hslash (by simp [← singleton_inj.mp hlast])
  · intro h
    have := h.sublist.count_le slash
    rw [hcount] at this
    exact absurd this (by decide)
  · exact fun h => hdot (h.subset (by simp))
  · exact fun h => hdot (h.subset (by simp))
  · exact fun h => hdot (h.subset (by simp))
  · exact fun h => hdot (h.subset (by simp))
  · exact fun h => hdot (h.subset (by decide))
  · exact fun h => hdot (h.subset (by decide))
  · exact fun h => hat (h ▸ by simp)
  · exact fun h => hat (h.subset (by simp))
  · simp [task_eq, hyphen]
  · exact fun h => hhead (h ▸ by decide)

/-- The title's name, and that with the time at its end, are `task/` and name units. -/
theorem slugifyBranchName_eq (title : JsString) :
    ∃ t, t ≠ [] ∧ (∀ u ∈ t, isNameUnit u = true) ∧ slugifyBranchName title = js "task/" ++ t := by
  refine ⟨_, ?_, ?_, rfl⟩
  · split
    · decide
    · assumption
  split
  · exact all_eq_true.mp (by decide)
  · exact fun u hu => slug_units hu

theorem suffixed_eq (now : Nat) (hunits : ∀ u ∈ t, isNameUnit u = true) (hname : name = js "task/" ++ t) :
    ∃ t', t' ≠ [] ∧ (∀ u ∈ t', isNameUnit u = true) ∧ suffixed name now = js "task/" ++ t' := by
  refine ⟨t ++ [hyphen] ++ lastDigits36 now, by simp, fun u hu => ?_, by simp [suffixed, hname]⟩
  rcases mem_append.mp hu with hu | hu
  · rcases Places.mem_concat_cases hu with hu | rfl
    · exact hunits u hu
    · rfl
  · exact lastDigits36_units hu

end

/-! ## A run without given names -/

def Derived : Event → Prop
  | .create _ params _ => params.given = []
  | _ => True

/-- No task of the project has the title's name, or none has it with the time at its end: none of that title, or
that spells it, was created so many milliseconds ago that their last four digits are the same. -/
def Clear (s : State) : Event → Prop
  | .create projectId params now =>
    projectHasTaskBranch s.tasks projectId (slugifyBranchName params.title) = true →
      projectHasTaskBranch s.tasks projectId (suffixed (slugifyBranchName params.title) now) = false
  | _ => True

def Valid (first : TaskId) (s : State) : Prop := ∀ t ∈ s.tasks, first ≤ t.id → ValidBranchName t.branchName

def Own (first : TaskId) (s : State) : Prop :=
  ∀ t ∈ s.tasks, first ≤ t.id → ∀ u ∈ s.tasks, u.projectId = t.projectId → u.branchName = t.branchName → u.id = t.id

section

variable {s : State} {e : Event} {es : List Event} {first : TaskId} {projectId : ProjectId} {params : CreateTaskParams}
  {now : Nat}

theorem branchNameFor_derived (h : params.given = []) : branchNameFor s.tasks projectId params now =
      if projectHasTaskBranch s.tasks projectId (slugifyBranchName params.title) then
        suffixed (slugifyBranchName params.title) now
      else slugifyBranchName params.title := by
  simp [branchNameFor, h]

theorem branchNameFor_valid (h : params.given = []) : ValidBranchName (branchNameFor s.tasks projectId params now) := by
  obtain ⟨t, hne, hunits, ht⟩ := slugifyBranchName_eq params.title
  rw [branchNameFor_derived h]
  split
  · obtain ⟨t', hne', hunits', ht'⟩ := suffixed_eq now hunits ht
    rw [ht']
    exact valid_of_nameUnits hne' hunits'
  · rw [ht]
    exact valid_of_nameUnits hne hunits

theorem branchNameFor_clear (h : params.given = []) :
    projectHasTaskBranch s.tasks projectId (branchNameFor s.tasks projectId params now) = false ↔
      Clear s (.create projectId params now) := by
  rw [branchNameFor_derived h, Clear]
  cases htaken : projectHasTaskBranch s.tasks projectId (slugifyBranchName params.title) with
  | true => simp
  | false => simp [htaken]

theorem kept_of_not_create (hstep : ∀ projectId params now, e ≠ .create projectId params now) :
    (∀ t ∈ (step s e).tasks, ∃ u ∈ s.tasks, SameTask t u) ∧ (step s e).nextId = s.nextId := by
  rcases step_cases s e with hn | ⟨projectId, params, now, rfl⟩ | ⟨t, ht, he⟩ | ⟨i, t, hi, he⟩
  · exact ⟨hn.tasks, hn.nextId⟩
  · exact absurd rfl (hstep projectId params now)
  · rw [he]
    exact ⟨fun u hu => ⟨u, hu, rfl, rfl, rfl⟩, rfl⟩
  · rw [he]
    exact ⟨fun u hu => ⟨u, mem_of_mem_filter hu, rfl, rfl, rfl⟩, rfl⟩

theorem Valid.step (hs : Valid first s) (he : Derived e) : Valid first (step s e) := by
  by_cases hcreate : ∃ projectId params now, e = .create projectId params now
  · obtain ⟨projectId, params, now, rfl⟩ := hcreate
    intro t ht hfirst
    rcases Places.mem_concat_cases ht with ht | rfl
    · exact hs t ht hfirst
    · exact branchNameFor_valid he
  · push Not at hcreate
    intro t ht hfirst
    obtain ⟨u, hu, hid, -, hname⟩ := (kept_of_not_create hcreate).1 t ht
    rw [hname]
    exact hs u hu (hid ▸ hfirst)

/-- A new task among tasks that have their own names has its own just if the step is clear. -/
theorem own_step_iff (hids : Ids s) (hnext : first ≤ s.nextId) (hs : Own first s) (he : Derived e) :
    Own first (step s e) ↔ Clear s e := by
  by_cases hcreate : ∃ projectId params now, e = .create projectId params now
  · obtain ⟨projectId, params, now, rfl⟩ := hcreate
    rw [← branchNameFor_clear he, projectHasTaskBranch_eq_false]
    constructor
    · intro h t ht hproject hname
      have hid := h _ (mem_append_right _ (mem_singleton_self _)) hnext t (mem_append_left _ ht) hproject
        hname
      exact (hids.tasks t ht).ne hid
    · intro h t ht hfirst u hu hproject hname
      rcases mem_append.mp ht with ht | ht <;> rcases mem_append.mp hu with hu | hu
      · exact hs t ht hfirst u hu hproject hname
      · obtain rfl := mem_singleton.mp hu
        exact absurd hname.symm (h t ht hproject.symm)
      · obtain rfl := mem_singleton.mp ht
        exact absurd hname (h u hu hproject)
      · obtain rfl := mem_singleton.mp ht
        obtain rfl := mem_singleton.mp hu
        rfl
  · push Not at hcreate
    have hkept := (kept_of_not_create (s := s) hcreate).1
    refine iff_of_true (fun t ht hfirst u hu hproject hname => ?_) ?_
    · obtain ⟨t', ht', hid, hproject', hname'⟩ := hkept t ht
      obtain ⟨u', hu', huid, huproject, huname⟩ := hkept u hu
      rw [hid, huid]
      exact hs t' ht' (hid ▸ hfirst) u' hu' (by rw [← huproject, hproject, hproject']) (by rw [← huname, hname, hname'])
    · cases e with
      | create projectId params now => exact absurd rfl (hcreate projectId params now)
      | _ => trivial

theorem nextId_le_step (s : State) (e : Event) : s.nextId ≤ (step s e).nextId := by
  by_cases hcreate : ∃ projectId params now, e = .create projectId params now
  · obtain ⟨projectId, params, now, rfl⟩ := hcreate
    exact Nat.le_succ _
  · push Not at hcreate
    exact (kept_of_not_create hcreate).2.ge

theorem always_valid (hs : Valid first s) (hes : ∀ e ∈ es, Derived e) : Always step (Valid first) s es :=
  Along.of_invariant (Valid first) (fun _ _ he hs => hs.step he) (fun _ _ he hs => hs.step he) hs (along_of_forall hes)

theorem always_own_iff (hids : Ids s) (hnext : first ≤ s.nextId) (hs : Own first s) (hes : ∀ e ∈ es, Derived e) :
    Always step (Own first) s es ↔ Along step Clear s es := by
  induction es generalizing s with
  | nil => exact Iff.rfl
  | cons e es ih =>
    have hiff := own_step_iff hids hnext hs (hes e (mem_cons_self ..))
    have hrest (hown : Own first (step s e)) := ih (hids.step e) (hnext.trans (nextId_le_step s e)) hown
      fun e' he' => hes e' (mem_cons_of_mem e he')
    constructor
    · intro h
      exact ⟨hiff.mp h.1, (hrest h.1).mp h.2⟩
    intro h
    have hown := hiff.mpr h.1
    exact ⟨hown, (hrest hown).mpr h.2⟩

end

/-- **Whatever tasks there are, those created from then on without a given name have valid names**, and names no
other task of the project has just if each creation finds the title's name, or that with the time, free. -/
theorem derived_names (before es : List Event) (hes : ∀ e ∈ es, Derived e) :
    Always step (Valid (exec step State.start before).nextId) (exec step State.start before) es ∧
      (Always step (Own (exec step State.start before).nextId) (exec step State.start before) es ↔
        Along step Clear (exec step State.start before) es) := by
  have hids : Ids (exec step State.start before) := exec_invariant Ids (fun _ e hs => hs.step e) Ids.start before
  have hnone : ∀ t ∈ (exec step State.start before).tasks, ¬(exec step State.start before).nextId ≤ t.id :=
    fun t ht => (hids.tasks t ht).not_ge
  exact ⟨always_valid (fun t ht hfirst => absurd hfirst (hnone t ht)) hes,
    always_own_iff hids le_rfl (fun t ht hfirst => absurd hfirst (hnone t ht)) hes⟩

instance Derived.decidable : (e : Event) → Decidable (Derived e)
  | .create _ params _ => inferInstanceAs (Decidable (params.given = []))
  | .update .. | .close .. | .reopen .. | .delete .. | .runtimesClosed .. | .branchDeleted .. => .isTrue trivial

instance Clear.decidable (s : State) : (e : Event) → Decidable (Clear s e)
  | .create projectId params now => inferInstanceAs (Decidable
      (projectHasTaskBranch s.tasks projectId (slugifyBranchName params.title) = true →
        projectHasTaskBranch s.tasks projectId (suffixed (slugifyBranchName params.title) now) = false))
  | .update .. | .close .. | .reopen .. | .delete .. | .runtimesClosed .. | .branchDeleted .. => .isTrue trivial

instance (first : TaskId) (s : State) : Decidable (Own first s) := by
  unfold Own
  infer_instance

def adopted : List Event := [.create 1 (onBranch "Old" "task/fix") 0]

/-- A task after a given name, and one of its title a second later. -/
def twice : List Event := [.create 1 (titled "Fix") 1234567890123, .create 1 (titled "Fix!") 1234567891123]

theorem derived_names_twice :
    Always step (Valid (exec step State.start adopted).nextId) (exec step State.start adopted) twice ∧
      Always step (Own (exec step State.start adopted).nextId) (exec step State.start adopted) twice :=
  (derived_names adopted twice (by decide +kernel)).imp_right fun h => h.mpr (by decide +kernel)

/-- Three tasks of one title, the last two in one millisecond. -/
def burst : List Event :=
  [.create 1 (titled "Fix") 1234567890120, .create 1 (titled "Fix") 1234567890123,
    .create 1 (titled "Fix") 1234567890123]

theorem burst_shares_name :
    ¬ ∀ es : List Event, (∀ e ∈ es, Derived e) → Always step (Own State.start.nextId) State.start es := by
  intro h
  exact absurd (h burst (by decide +kernel)) (by decide +kernel)

end Reins.BranchNames
