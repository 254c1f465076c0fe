import Mathlib.Data.UInt

/-!
# Ancestors along a parent function

`ancestor parent k x` is the `k`-th ancestor of `x`, if it has that many. How deep a forest is, is a
question of which `k` have one; what is proved here is how that changes as links are cut and as a leaf is
added.
-/

namespace Forest

variable {α : Type*}

def ancestor (parent : α → Option α) : Nat → α → Option α
  | 0, x => some x
  | k + 1, x => (parent x).bind (ancestor parent k)

variable {parent parent' : α → Option α}

@[simp] theorem ancestor_zero (x : α) : ancestor parent 0 x = some x := rfl

theorem ancestor_succ (k : Nat) (x : α) : ancestor parent (k + 1) x = (parent x).bind (ancestor parent k) := rfl

theorem ancestor_succ' (k : Nat) (x : α) : ancestor parent (k + 1) x = (ancestor parent k x).bind parent := by
  induction k generalizing x with
  | zero => exact Option.bind_fun_some (parent x)
  | succ k ih =>
    rw [ancestor_succ, ancestor_succ k x, Option.bind_assoc]
    exact congrArg _ (funext ih)

theorem ancestor_none_of_le {x : α} {j k : Nat} (hjk : j ≤ k) (h : ancestor parent j x = none) :
    ancestor parent k x = none := by
  induction hjk with
  | refl => exact h
  | step _ ih => rw [ancestor_succ', ih]; rfl

theorem ancestor_mem {s : α → Prop} (hs : ∀ x, s x → ∀ p ∈ parent x, s p) {x : α} (hx : s x) (k : Nat)
    {a : α} (ha : ancestor parent k x = some a) : s a := by
  induction k generalizing x with
  | zero =>
    cases ha
    exact hx
  | succ k ih =>
    obtain ⟨p, hp, ha⟩ := Option.bind_eq_some_iff.mp ha
    exact ih (hs x hx p hp) ha

theorem ancestor_cut (h : ∀ x, parent' x = none ∨ parent' x = parent x) (k : Nat) (x : α) :
    ancestor parent' k x = none ∨ ancestor parent' k x = ancestor parent k x := by
  induction k generalizing x with
  | zero => exact .inr rfl
  | succ k ih =>
    rcases h x with h | h
    · exact .inl (by rw [ancestor_succ, h]; rfl)
    rw [ancestor_succ, ancestor_succ, h]
    cases parent x with
    | none => exact .inl rfl
    | some p => exact ih p

theorem ancestor_cut_none (h : ∀ x, parent' x = none ∨ parent' x = parent x) {k : Nat} {x : α}
    (hx : ancestor parent k x = none) : ancestor parent' k x = none :=
  (ancestor_cut h k x).elim id (·.trans hx)

variable [DecidableEq α]

theorem ancestor_update_of_ne {leaf : α} (q : Option α) (hleaf : ∀ x, parent x ≠ some leaf) {x : α}
    (hx : x ≠ leaf) (k : Nat) :
    ancestor (Function.update parent leaf q) k x = ancestor parent k x := by
  induction k generalizing x with
  | zero => rfl
  | succ k ih =>
    rw [ancestor_succ, ancestor_succ, Function.update_of_ne hx]
    cases hp : parent x with
    | none => rfl
    | some p =>
      have hpl : p ≠ leaf := fun he => hleaf x (he ▸ hp)
      exact ih hpl

theorem ancestor_update_leaf {leaf q : α} (hleaf : ∀ x, parent x ≠ some leaf) (hq : q ≠ leaf) (k : Nat) :
    ancestor (Function.update parent leaf (some q)) (k + 1) leaf = ancestor parent k q := by
  rw [ancestor_succ, Function.update_self]
  exact ancestor_update_of_ne (some q) hleaf hq k

end Forest
