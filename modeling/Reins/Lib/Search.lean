import Mathlib.Data.List.Infix

/-!
# Looking for a pattern in a text

What follows a pattern where a text begins with it, and where it first occurs. A pattern whose first element does
not occur in it again cannot lie across the beginning of another occurrence, so what is put in front of one decides
alone whether it is the first (`afterFirst_append_of_none`).
-/

namespace Search

open List

variable {α : Type*} {p q s t r : List α} {c : α}

/-- A text that does not begin with a pattern as long as it does not by more being put after it. -/
theorem not_prefix_append (hlength : p.length ≤ s.length) (h : ¬p <+: s) : ¬p <+: s ++ t := fun hp =>
  h (prefix_of_prefix_length_le hp (prefix_append s t) hlength)

variable [DecidableEq α]

/-- What follows the pattern a text begins with. -/
def after (p s : List α) : Option (List α) := if p <+: s then some (s.drop p.length) else none

@[simp] theorem after_append (p t : List α) : after p (p ++ t) = some t := by
  simp [after]

theorem after_eq_some_iff : after p s = some t ↔ s = p ++ t := by
  constructor
  · intro h
    unfold after at h
    split at h
    next hprefix =>
      rw [← Option.some.inj h, prefix_iff_eq_append.mp hprefix]
    · cases h
  · rintro rfl
    exact after_append p t

theorem after_eq_none_iff : after p s = none ↔ ¬p <+: s := by
  unfold after
  split <;> simp_all

/-- What follows the first occurrence of the pattern. -/
def afterFirst (p : List α) : List α → Option (List α)
  | [] => none
  | a :: s =>
    match after p (a :: s) with
    | some r => some r
    | none => afterFirst p s

theorem afterFirst_eq_some (h : afterFirst p s = some r) : ∃ w, s = w ++ p ++ r := by
  induction s with
  | nil => cases h
  | cons a s ih =>
    rw [afterFirst] at h
    split at h
    next r' hafter =>
      cases h
      exact ⟨[], after_eq_some_iff.mp hafter⟩
    · obtain ⟨w, rfl⟩ := ih h
      exact ⟨a :: w, rfl⟩

theorem afterFirst_eq_none_iff (hp : p ≠ []) : afterFirst p s = none ↔ ¬p <:+: s := by
  induction s with
  | nil => simp [afterFirst, hp]
  | cons a s ih =>
    rw [afterFirst, infix_cons_iff, not_or, ← ih]
    split
    next r hafter =>
      have : p <+: a :: s := ⟨r, (after_eq_some_iff.mp hafter).symm⟩
      simp [this]
    next hafter =>
      simp [after_eq_none_iff.mp hafter]

/-- More after a text does not move the first occurrence. -/
theorem afterFirst_append_of_some (h : afterFirst p s = some r) (t : List α) :
    afterFirst p (s ++ t) = some (r ++ t) := by
  induction s with
  | nil => cases h
  | cons a s ih =>
    rw [afterFirst] at h
    rw [cons_append, afterFirst]
    cases hafter : after p (a :: s) with
    | some r' =>
      rw [hafter] at h
      obtain rfl := Option.some.inj h
      have : after p (a :: (s ++ t)) = some (r' ++ t) :=
        after_eq_some_iff.mpr (by rw [← append_assoc, ← after_eq_some_iff.mp hafter, cons_append])
      rw [this]
    | none =>
      rw [hafter] at h
      cases hlate : after p (a :: (s ++ t)) with
      | none => exact ih h
      | some r' =>
        -- an occurrence further on leaves room for the pattern here
        obtain ⟨w, hw⟩ := afterFirst_eq_some h
        have hlength : p.length ≤ (a :: s).length := by
          rw [hw]
          simp only [length_cons, length_append]
          omega
        exact absurd ⟨r', (after_eq_some_iff.mp hlate).symm⟩
          (not_prefix_append (t := t) hlength (after_eq_none_iff.mp hafter))

theorem afterFirst_append_of_none (hc : c ∉ q) (h : afterFirst (c :: q) s = none) (t : List α) :
    afterFirst (c :: q) (s ++ (c :: q ++ t)) = some t := by
  induction s with
  | nil => rw [nil_append, cons_append, afterFirst, ← cons_append, after_append]
  | cons a s ih =>
    rw [afterFirst] at h
    cases hafter : after (c :: q) (a :: s) with
    | some r => simp [hafter] at h
    | none =>
      rw [hafter] at h
      rw [cons_append, afterFirst]
      cases hearly : after (c :: q) (a :: (s ++ (c :: q ++ t))) with
      | none => exact ih h
      | some r =>
        -- it would begin in front of the occurrence and end in it
        have heq : (c :: q) ++ r = (a :: s) ++ (c :: q ++ t) := (after_eq_some_iff.mp hearly).symm
        rcases append_eq_append_iff.mp heq with ⟨d, hd, -⟩ | ⟨d, hd, hrest⟩
        · exact absurd ⟨d, hd.symm⟩ (after_eq_none_iff.mp hafter)
        cases d with
        | nil =>
          rw [append_nil] at hd
          exact absurd ⟨[], by rw [hd, append_nil]⟩ (after_eq_none_iff.mp hafter)
        | cons c' d =>
          obtain rfl : c = c' := (List.cons.inj hrest).1
          have hq : q = s ++ c :: d := (List.cons.inj hd).2
          exact absurd (hq ▸ mem_append_right s (mem_cons_self ..)) hc

end Search
