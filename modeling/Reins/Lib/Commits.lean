import Mathlib.Data.List.Basic

/-!
# Programs that commit as they go

A program that writes to a store that outlives it: each commit is all of one change or, where it throws,
none of it, and the process may stop between any two. `Program` is such a program with the number of
commits the process is still there for, so that where it stops is an input. A program that comes to a list
of commits (`commitAll`) leaves, when it stops, what a prefix of the list makes.
-/

namespace Commits

variable {σ : Type}

/-- A change to the store; none where it throws, which changes nothing. -/
abbrev Change (σ : Type) := σ → Option σ

def changeAll (cs : List (Change σ)) (s : σ) : Option σ := cs.foldlM (fun s c => c s) s

@[simp] theorem changeAll_nil (s : σ) : changeAll [] s = some s := rfl

@[simp] theorem changeAll_cons (c : Change σ) (cs : List (Change σ)) (s : σ) :
    changeAll (c :: cs) s = (c s).bind (changeAll cs) := by
  simp [changeAll]
  rfl

theorem changeAll_append (cs ds : List (Change σ)) (s : σ) :
    changeAll (cs ++ ds) s = (changeAll cs s).bind (changeAll ds) := by
  induction cs generalizing s with
  | nil => simp
  | cons c cs ih =>
    rw [List.cons_append, changeAll_cons, changeAll_cons, Option.bind_assoc]
    exact Option.bind_congr fun t _ => ih t

theorem changeAll_append_eq_some {cs ds : List (Change σ)} {s u : σ} :
    changeAll (cs ++ ds) s = some u ↔ ∃ t, changeAll cs s = some t ∧ changeAll ds t = some u := by
  rw [changeAll_append, Option.bind_eq_some_iff]

theorem exists_changeAll_take {cs : List (Change σ)} {s u : σ} (h : changeAll cs s = some u) (n : Nat) :
    ∃ t, changeAll (cs.take n) s = some t := by
  rw [← List.take_append_drop n cs, changeAll_append_eq_some] at h
  obtain ⟨t, ht, -⟩ := h
  exact ⟨t, ht⟩

/-! ## Programs -/

/-- The store, and how many commits the process is still there for: none where nothing stops it. -/
structure Process (σ : Type) where
  store : σ
  left : Option Nat

inductive Ended
  | threw
  | stopped
  deriving DecidableEq

abbrev Program (σ : Type) := EStateM Ended (Process σ)

def commit (c : Change σ) : Program σ Unit := fun p =>
  match p.left with
  | some 0 => .error .stopped p
  | left =>
    match c p.store with
    | none => .error .threw p
    | some s => .ok () ⟨s, left.map (· - 1)⟩

def commitAll (cs : List (Change σ)) : Program σ Unit := cs.forM commit

def left {α : Type} (p : Program σ α) (s : σ) (n : Option Nat) : σ :=
  match p ⟨s, n⟩ with
  | .ok _ p => p.store
  | .error _ p => p.store

/-- What it leaves if it comes to its end with nothing stopping it. -/
def finished {α : Type} (p : Program σ α) (s : σ) : Option σ :=
  match p ⟨s, none⟩ with
  | .ok _ p => some p.store
  | .error _ _ => none

theorem commitAll_cons (c : Change σ) (cs : List (Change σ)) : commitAll (c :: cs) = (do commit c; commitAll cs) := rfl

theorem commitAll_singleton (c : Change σ) : commitAll [c] = commit c := bind_pure_unit

theorem commitAll_append (cs ds : List (Change σ)) : commitAll (cs ++ ds) = (do commitAll cs; commitAll ds) := by
  induction cs with
  | nil => rfl
  | cons c cs ih => rw [List.cons_append, commitAll_cons, commitAll_cons, ih, bind_assoc]

theorem bind_run {α β : Type} (x : Program σ α) (f : α → Program σ β) (p : Process σ) : (x >>= f) p = match x p with
      | .ok a p => f a p
      | .error e p => .error e p := by
  simp only [bind, EStateM.bind]
  cases x p <;> rfl

theorem finished_commitAll (cs : List (Change σ)) (s : σ) : finished (commitAll cs) s = changeAll cs s := by
  induction cs generalizing s with
  | nil => rfl
  | cons c cs ih =>
    have hfirst : finished (commitAll (c :: cs)) s = (c s).bind fun t => finished (commitAll cs) t := by
      rw [commitAll_cons, finished, bind_run]
      cases hc : c s with
      | none => simp [commit, hc]
      | some t => simp [commit, hc, finished]
    rw [hfirst, changeAll_cons]
    exact Option.bind_congr fun t _ => ih t

/-- One that is there for `n` commits leaves what the first `n` changes make. -/
theorem left_commitAll {cs : List (Change σ)} {s t : σ} {n : Nat} (h : changeAll (cs.take n) s = some t) :
    left (commitAll cs) s (some n) = t := by
  induction cs generalizing s n with
  | nil =>
    have hs : s = t := by simpa using h
    exact hs
  | cons c cs ih =>
    cases n with
    | zero =>
      obtain rfl : s = t := by simpa using h
      simp [left, commitAll_cons, bind_run, commit]
    | succ n =>
      rw [List.take_succ_cons, changeAll_cons] at h
      obtain ⟨u, hu, ht⟩ := Option.bind_eq_some_iff.mp h
      have hfirst : left (commitAll (c :: cs)) s (some (n + 1)) = left (commitAll cs) u (some n) := by
        simp [left, commitAll_cons, bind_run, commit, hu]
      rw [hfirst]
      exact ih ht

end Commits
