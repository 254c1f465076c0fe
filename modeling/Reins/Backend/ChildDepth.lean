import Reins.Lib.Ancestors
import Reins.Lib.Run

/-!
# Child sessions (`assertChildDepth`, `backend/src/sdk-host/sessions.ts`)

A session a script starts with `parentSessionId: "current"` is a child of the calling session. The start
counts the caller's ancestors first, and only later, past the checks of the request's model and location,
inserts the row; meanwhile sessions are created and deleted. A deleted session is its children's parent no
longer (`ON DELETE SET NULL`).
-/

namespace Reins.ChildDepth

open Forest (ancestor)

abbrev SessionId := String

structure Row where
  parentSessionId : Option SessionId
  deriving DecidableEq

structure State where
  rows : SessionId → Option Row
  /-- Every session id there has been: `crypto.randomUUID` gives none of them again. -/
  made : List SessionId
  /-- The callers of the starts that have passed `assertChildDepth`. -/
  starting : List SessionId

def State.init : State := ⟨fun _ => none, [], []⟩

inductive Event
  | create (x : SessionId)
  | start (caller : SessionId)
  /-- The `i`-th start inserts its session's row. -/
  | started (i : Nat) (x : SessionId)
  | delete (x : SessionId)
  deriving DecidableEq

def maxChildDepth : Nat := 3

def depthError : String := s!"Maximum child session depth ({maxChildDepth}) reached"

/-- The loop, with so many increments of `depth` left before the one it throws at. -/
def countAncestors (rows : SessionId → Option Row) : Nat → Option Row → Except String Unit
  | 0, ancestor =>
    match ancestor.bind (·.parentSessionId) with
    | some _ => .error depthError
    | none => .ok ()
  | left + 1, ancestor =>
    match ancestor.bind (·.parentSessionId) with
    | some p => countAncestors rows left (rows p)
    | none => .ok ()

def assertChildDepth (rows : SessionId → Option Row) (caller : Row) : Except String Unit :=
  countAncestors rows (maxChildDepth - 1) (some caller)

def State.insert (s : State) (x : SessionId) (row : Row) : State :=
  if x ∈ s.made then s else { s with rows := Function.update s.rows x (some row), made := x :: s.made }

/-- `ON DELETE SET NULL`. -/
def Row.orphaned (x : SessionId) (row : Row) : Row :=
  if row.parentSessionId = some x then { row with parentSessionId := none } else row

def State.delete (s : State) (x : SessionId) : State :=
  { s with rows := fun y => if y = x then none else (s.rows y).map (Row.orphaned x) }

def step (s : State) : Event → State
  | .create x => s.insert x ⟨none⟩
  | .start caller =>
    match s.rows caller with
    | some row =>
      match assertChildDepth s.rows row with
      | .ok _ => { s with starting := s.starting ++ [caller] }
      | .error _ => s
    | none => s
  | .started i x =>
    match s.starting[i]? with
    | some caller => if (s.rows caller).isSome then s.insert x ⟨some caller⟩ else s
    | none => s
  | .delete x => s.delete x

def State.parent (s : State) (x : SessionId) : Option SessionId := (s.rows x).bind (·.parentSessionId)

/-! ## How deep the forest gets -/

theorem ancestor_of_count (s : State) (left : Nat) {x : SessionId}
    (h : countAncestors s.rows left (s.rows x) = .ok ()) : ancestor s.parent (left + 1) x = none := by
  induction left generalizing x with
  | zero =>
    rw [countAncestors] at h
    rw [Forest.ancestor_succ, State.parent]
    cases hp : (s.rows x).bind (·.parentSessionId) with
    | none => rfl
    | some p => simp [hp] at h
  | succ left ih =>
    rw [countAncestors] at h
    rw [Forest.ancestor_succ, State.parent]
    cases hp : (s.rows x).bind (·.parentSessionId) with
    | none => rfl
    | some p =>
      simp only [hp] at h
      exact ih h

/-- Nothing is deeper than the limit, nor will what is being started be. -/
structure Shallow (s : State) : Prop where
  depth : ∀ x, ancestor s.parent (maxChildDepth + 1) x = none
  starting : ∀ c ∈ s.starting, c ∈ s.made ∧ ancestor s.parent maxChildDepth c = none
  made : ∀ x, (s.rows x).isSome → x ∈ s.made
  parent : ∀ x p, s.parent x = some p → p ∈ s.made

theorem Shallow.init : Shallow .init where
  depth x := rfl
  starting c hc := absurd hc (by simp [State.init])
  made x hx := absurd hx (by simp [State.init])
  parent x p hp := absurd hp (by simp [State.parent, State.init])

theorem parent_insert {s : State} {x : SessionId} (hx : x ∉ s.made) (row : Row) :
    (s.insert x row).parent = Function.update s.parent x row.parentSessionId := by
  funext y
  by_cases hy : y = x
  · subst hy
    simp [State.parent, State.insert, hx]
  · simp [State.parent, State.insert, hx, hy]

theorem Shallow.insert {s : State} (h : Shallow s) (x : SessionId) (row : Row)
    (hrow : ∀ q ∈ row.parentSessionId, q ∈ s.made ∧ ancestor s.parent maxChildDepth q = none) :
    Shallow (s.insert x row) := by
  by_cases hx : x ∈ s.made
  · rwa [State.insert, if_pos hx]
  have hleaf : ∀ y, s.parent y ≠ some x := fun y hy => hx (h.parent y x hy)
  have hmade : (s.insert x row).made = x :: s.made := by rw [State.insert, if_neg hx]
  have hstarting : (s.insert x row).starting = s.starting := by rw [State.insert, if_neg hx]
  refine ⟨fun y => ?_, fun c hc => ?_, fun y hy => ?_, fun y p hp => ?_⟩
  · rw [parent_insert hx]
    by_cases hy : y = x
    · subst hy
      cases hq : row.parentSessionId with
      | none => simp [Forest.ancestor_succ]
      | some q =>
        obtain ⟨hqm, hqd⟩ := hrow q hq
        rw [Forest.ancestor_update_leaf hleaf (fun he => hx (he ▸ hqm))]
        exact hqd
    · rw [Forest.ancestor_update_of_ne _ hleaf hy]
      exact h.depth y
  · rw [hstarting] at hc
    obtain ⟨hcm, hcd⟩ := h.starting c hc
    refine ⟨hmade ▸ List.mem_cons_of_mem x hcm, ?_⟩
    rw [parent_insert hx, Forest.ancestor_update_of_ne _ hleaf (fun he => hx (he ▸ hcm))]
    exact hcd
  · rw [hmade]
    by_cases hyx : y = x
    · exact hyx ▸ List.mem_cons_self ..
    · refine List.mem_cons_of_mem x (h.made y ?_)
      simpa [State.insert, hx, hyx] using hy
  · rw [hmade]
    rw [parent_insert hx] at hp
    by_cases hyx : y = x
    · subst hyx
      rw [Function.update_self] at hp
      exact List.mem_cons_of_mem _ (hrow p hp).1
    · rw [Function.update_of_ne hyx] at hp
      exact List.mem_cons_of_mem _ (h.parent y p hp)

theorem parent_delete (s : State) (x y : SessionId) :
    (s.delete x).parent y = none ∨ (s.delete x).parent y = s.parent y := by
  simp only [State.parent, State.delete]
  split
  · exact .inl rfl
  cases hr : s.rows y with
  | none => exact .inl rfl
  | some row =>
    by_cases hp : row.parentSessionId = some x
    · exact .inl (by simp [Row.orphaned, hp])
    · exact .inr (by simp [Row.orphaned, hp])

theorem Shallow.delete {s : State} (h : Shallow s) (x : SessionId) : Shallow (s.delete x) where
  depth y := Forest.ancestor_cut_none (parent_delete s x) (h.depth y)
  starting c hc := ⟨(h.starting c hc).1, Forest.ancestor_cut_none (parent_delete s x) (h.starting c hc).2⟩
  made y hy := by
    refine h.made y ?_
    simp only [State.delete] at hy
    split at hy
    · cases hy
    · simpa using hy
  parent y p hp := by
    rcases parent_delete s x y with hn | he
    · cases hn.symm.trans hp
    · exact h.parent y p (he ▸ hp)

theorem Shallow.step {s : State} (h : Shallow s) (e : Event) : Shallow (ChildDepth.step s e) := by
  cases e with
  | create x => exact h.insert x ⟨none⟩ (fun q hq => absurd hq (by simp))
  | start caller =>
    simp only [ChildDepth.step]
    cases hr : s.rows caller with
    | none => exact h
    | some row =>
      cases hok : assertChildDepth s.rows row with
      | error e =>
        simp only [hok]
        exact h
      | ok u =>
        simp only [hok]
        -- The caller joins those starting with its ancestors counted.
        refine { h with starting := fun c hc => ?_ }
        rcases List.mem_append.mp hc with hc | hc
        · exact h.starting c hc
        obtain rfl := List.mem_singleton.mp hc
        refine ⟨h.made c (by simp [hr]), ancestor_of_count s (maxChildDepth - 1) ?_⟩
        rw [hr]
        exact hok
  | started i x =>
    simp only [ChildDepth.step]
    cases hc : s.starting[i]? with
    | none => exact h
    | some caller =>
      by_cases hr : (s.rows caller).isSome
      · simp only [hr, if_true]
        refine h.insert x ⟨some caller⟩ (fun q hq => ?_)
        obtain rfl : caller = q := by simpa using hq
        exact h.starting caller (List.mem_of_getElem? hc)
      · simp only [hr]
        exact h
  | delete x => exact h.delete x

/-- **No session has more ancestors than `MAX_CHILD_DEPTH`**, whatever was created, started and deleted. -/
theorem ancestor_reached (es : List Event) (x : SessionId) :
    ancestor (Run.exec step .init es).parent (maxChildDepth + 1) x = none :=
  (Run.exec_invariant Shallow (fun _ e h => h.step e) .init es).depth x

end Reins.ChildDepth
