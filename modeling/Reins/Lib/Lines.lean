import Mathlib.Data.List.TakeWhile
import Reins.Lib.Scan

/-!
# Records framed by a separator

`join` writes records one after the other, each followed by the separator. As long as no record
holds the separator, a stream of them can be cut back into its records in one way only: what a
reader has found complete is always an initial part of what was written (`join_prefix`), and once
it has read everything there is nothing left over (`join_inj`).
-/

namespace Lines

open List

variable {α : Type*}

/-- Records, each followed by the separator. -/
def join (nl : α) (ls : List (List α)) : List α := ls.flatMap (· ++ [nl])

@[simp] theorem join_nil (nl : α) : join nl [] = [] := rfl

@[simp] theorem join_cons (nl : α) (l : List α) (ls : List (List α)) : join nl (l :: ls) = l ++ nl :: join nl ls := by
  simp [join]

@[simp] theorem join_append (nl : α) (ls ms : List (List α)) :
    join nl (ls ++ ms) = join nl ls ++ join nl ms := flatMap_append

/-- None of the records holds the separator. -/
def Clean (nl : α) (ls : List (List α)) : Prop := ∀ l ∈ ls, nl ∉ l

theorem Clean.append {nl : α} {ls : List (List α)} {l : List α} (h : Clean nl ls) (hl : nl ∉ l) :
    Clean nl (ls ++ [l]) := by
  intro m hm
  rcases mem_append.mp hm with hm | hm
  · exact h m hm
  · rw [mem_singleton.mp hm]
    exact hl

theorem first_inj {nl : α} {l m a b : List α} (hl : nl ∉ l) (hm : nl ∉ m)
    (h : l ++ nl :: a = m ++ nl :: b) : l = m ∧ a = b := by
  induction l generalizing m with
  | nil =>
    cases m with
    | nil => exact ⟨rfl, (List.cons.inj h).2⟩
    | cons y m => exact absurd (by simp [(List.cons.inj h).1]) hm
  | cons x l ih =>
    cases m with
    | nil => exact absurd (by simp [(List.cons.inj h).1]) hl
    | cons y m =>
      obtain ⟨rfl, h'⟩ := List.cons.inj h
      have hl' : nl ∉ l := fun hx => hl (mem_cons_of_mem _ hx)
      have hm' : nl ∉ m := fun hx => hm (mem_cons_of_mem _ hx)
      obtain ⟨rfl, rfl⟩ := ih hl' hm' h'
      exact ⟨rfl, rfl⟩

/-- **A reader's complete records are the first of those written**, and its unfinished one is the
start of the next. -/
theorem join_prefix {nl : α} {ls ms : List (List α)} {r : List α} (hl : Clean nl ls)
    (hm : Clean nl ms) (h : join nl ms ++ r <+: join nl ls) :
    ∃ rest, ls = ms ++ rest ∧ r <+: join nl rest := by
  induction ms generalizing ls with
  | nil => exact ⟨ls, rfl, by simpa using h⟩
  | cons m ms ih =>
    obtain ⟨t, ht⟩ := h
    cases ls with
    | nil => exact absurd ht (by simp)
    | cons l ls =>
      simp only [join_cons, append_assoc, cons_append] at ht
      obtain ⟨rfl, ht'⟩ := first_inj (hm m (by simp)) (hl l (by simp)) ht
      have hl' : Clean nl ls := fun x hx => hl x (mem_cons_of_mem _ hx)
      have hm' : Clean nl ms := fun x hx => hm x (mem_cons_of_mem _ hx)
      obtain ⟨rest, e, hr⟩ := ih hl' hm' ⟨t, by simpa using ht'⟩
      exact ⟨rest, by rw [e]; rfl, hr⟩

/-- An unfinished record is shorter than the one it starts. -/
theorem prefix_join_cons {nl : α} {l r : List α} {ls : List (List α)} (hr : nl ∉ r)
    (h : r <+: join nl (l :: ls)) : r <+: l := by
  rw [join_cons] at h
  rcases Nat.le_total r.length l.length with hle | hle
  · exact prefix_of_prefix_length_le h (prefix_append l _) hle
  obtain ⟨t, rfl⟩ := prefix_of_prefix_length_le (prefix_append l _) h hle
  rw [prefix_append_right_inj] at h
  cases t with
  | nil => simp
  | cons x t =>
    rw [cons_prefix_cons] at h
    exact absurd (by simp [h.1]) hr

/-- Everything read: no record is missing and nothing is left over. -/
theorem join_inj {nl : α} {ls ms : List (List α)} {r : List α} (hl : Clean nl ls)
    (hm : Clean nl ms) (hr : nl ∉ r) (h : join nl ms ++ r = join nl ls) : ls = ms ∧ r = [] := by
  obtain ⟨rest, rfl, -⟩ := join_prefix hl hm ⟨[], by rw [append_nil, h]⟩
  rw [join_append, append_cancel_left_eq] at h
  cases rest with
  | nil => exact ⟨by simp, h⟩
  | cons l rest =>
    rw [join_cons] at h
    exact absurd (by simp [h]) hr

/-- What comes before the first separator, and what from it on: none is there. -/
theorem takeWhile_open [DecidableEq α] {nl : α} {r : List α} (hr : nl ∉ r) :
    r.takeWhile (· ≠ nl) = r ∧ r.dropWhile (· ≠ nl) = [] := by
  have hall : ∀ x ∈ r, decide (x ≠ nl) = true := by
    intro x hx
    rw [decide_eq_true_eq]
    rintro rfl
    exact hr hx
  exact ⟨takeWhile_eq_self_iff.mpr hall, dropWhile_eq_nil_iff.mpr hall⟩

theorem takeWhile_line [DecidableEq α] {nl : α} {l : List α} (hl : nl ∉ l) (rest : List α) :
    (l ++ nl :: rest).takeWhile (· ≠ nl) = l ∧ (l ++ nl :: rest).dropWhile (· ≠ nl) = nl :: rest := by
  obtain ⟨h1, h2⟩ := takeWhile_open hl
  have hall := takeWhile_eq_self_iff.mp h1
  rw [takeWhile_append_of_pos hall, dropWhile_append_of_pos hall]
  simp

/-- A text cut at its separators is its records, and what comes after the last. -/
theorem splitOn_join [BEq α] [LawfulBEq α] {nl : α} {ls : List (List α)} {r : List α} (hl : Clean nl ls) (hr : nl ∉ r) :
    (join nl ls ++ r).splitOn nl = ls ++ [r] := by
  induction ls with
  | nil => exact splitOn_eq_singleton hr
  | cons l ls ih =>
    have hrest := ih fun m hm => hl m (mem_cons_of_mem l hm)
    rw [join_cons, append_assoc, cons_append, splitOn_append_cons_self_of_not_mem
      (hl l (mem_cons_self ..)), hrest, cons_append]

/-- Every text is records, and what comes after the last. -/
theorem exists_join [DecidableEq α] (nl : α) (s : List α) : ∃ ls r, Clean nl ls ∧ nl ∉ r ∧ s = join nl ls ++ r := by
  induction s with
  | nil => exact ⟨[], [], fun l hl => absurd hl not_mem_nil, not_mem_nil, rfl⟩
  | cons a s ih =>
    obtain ⟨ls, r, hl, hr, rfl⟩ := ih
    by_cases ha : a = nl
    · refine ⟨[] :: ls, r, ?_, hr, by simp [ha]⟩
      simpa [Clean] using hl
    cases ls with
    | nil => exact ⟨[], a :: r, hl, by simp [Ne.symm ha, hr], by simp⟩
    | cons l ls =>
      refine ⟨(a :: l) :: ls, r, ?_, hr, by simp⟩
      simp only [Clean, forall_mem_cons] at hl ⊢
      exact ⟨by simp [Ne.symm ha, hl.1], hl.2⟩

end Lines
