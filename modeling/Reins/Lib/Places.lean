import Mathlib.Data.UInt

/-!
# Lists whose members are known by their places

A machine that keeps all it made in a list and knows each by its place adds at the end and sets in
place. What a place holds afterwards it held before, unless it is the place of the step.
-/

namespace Places

open List

variable {α : Type*} {xs : List α} {i j : Nat} {x y : α}

theorem lt_of_getElem? (h : xs[i]? = some x) : i < xs.length := (List.getElem?_eq_some_iff.mp h).1

theorem getElem?_append_some (h : xs[i]? = some x) (ys : List α) : (xs ++ ys)[i]? = some x := by
  rw [getElem?_append_left (lt_of_getElem? h)]
  exact h

theorem getElem?_set_cases (h : (xs.set i x)[j]? = some y) : i = j ∧ y = x ∨ i ≠ j ∧ xs[j]? = some y := by
  rw [getElem?_set] at h
  split at h
  next heq =>
    split at h
    · exact .inl ⟨heq, (Option.some_inj.mp h).symm⟩
    · cases h
  next hne =>
    exact .inr ⟨hne, h⟩

theorem mem_concat_cases (h : y ∈ xs ++ [x]) : y ∈ xs ∨ y = x := (mem_append.mp h).imp_right mem_singleton.mp

theorem getElem?_concat_cases (h : (xs ++ [x])[j]? = some y) : xs[j]? = some y ∨ j = xs.length ∧ y = x := by
  rcases Nat.lt_trichotomy j xs.length with hlt | rfl | hgt
  · rw [getElem?_append_left hlt] at h
    exact .inl h
  · rw [getElem?_concat_length] at h
    exact .inr ⟨rfl, (Option.some_inj.mp h).symm⟩
  · rw [getElem?_eq_none (by rw [length_append, length_singleton]; omega)] at h
    cases h

theorem getElem?_modify_cases {f : α → α} (h : (xs.modify i f)[j]? = some y) :
    ∃ x, xs[j]? = some x ∧ y = if i = j then f x else x := by
  rw [getElem?_modify] at h
  obtain ⟨x, hx, rfl⟩ := Option.map_eq_some_iff.mp h
  exact ⟨x, hx, rfl⟩

theorem mem_modify_cases {f : α → α} (h : y ∈ xs.modify i f) : y ∈ xs ∨ ∃ x ∈ xs, y = f x := by
  obtain ⟨j, hj⟩ := mem_iff_getElem?.mp h
  obtain ⟨x, hx, rfl⟩ := getElem?_modify_cases hj
  split
  · exact .inr ⟨x, mem_of_getElem? hx, rfl⟩
  · exact .inl (mem_of_getElem? hx)

theorem mem_modify_or (h : x ∈ xs) (i : Nat) (f : α → α) : x ∈ xs.modify i f ∨ f x ∈ xs.modify i f := by
  obtain ⟨j, hj⟩ := mem_iff_getElem?.mp h
  have hmodify : (xs.modify i f)[j]? = some (if i = j then f x else x) := by
    rw [getElem?_modify, hj]
    rfl
  split at hmodify
  · exact .inr (mem_of_getElem? hmodify)
  · exact .inl (mem_of_getElem? hmodify)

theorem eq_or_mem_eraseIdx (h : xs[i]? = some x) (hy : y ∈ xs) : y = x ∨ y ∈ xs.eraseIdx i := by
  obtain ⟨j, hj⟩ := mem_iff_getElem?.mp hy
  by_cases hij : j = i
  · subst hij
    exact .inl (Option.some.inj (hj.symm.trans h))
  · exact .inr (mem_eraseIdx_iff_getElem?.mpr ⟨j, hij, hj⟩)

/-- Some member has a property: the one at a place, or one elsewhere. -/
theorem any_of_getElem? (f : α → Bool) (h : xs[i]? = some x) : xs.any f = (f x || (xs.eraseIdx i).any f) := by
  induction xs generalizing i with
  | nil => cases h
  | cons z zs ih =>
    cases i with
    | zero => cases h; rfl
    | succ i =>
      have hz : zs[i]? = some x := h
      rw [eraseIdx_cons_succ, any_cons, any_cons, ih hz, Bool.or_left_comm]

theorem any_set (f : α → Bool) (h : xs[i]? = some x) (y : α) : (xs.set i y).any f = (f y || (xs.eraseIdx i).any f) := by
  have hy : (xs.set i y)[i]? = some y := getElem?_set_self (lt_of_getElem? h)
  rw [any_of_getElem? f hy, eraseIdx_set_eq]

/-- A count after a place is set: the place's old value leaves it, and its new one enters. -/
theorem countP_set (f : α → Bool) (h : xs[i]? = some x) (y : α) :
    (xs.set i y).countP f + (if f x then 1 else 0) = xs.countP f + if f y then 1 else 0 := by
  induction xs generalizing i with
  | nil => cases h
  | cons z zs ih =>
    cases i with
    | zero =>
      cases h
      rw [set_cons_zero, countP_cons, countP_cons]
      omega
    | succ i =>
      have hz := ih (i := i) h
      rw [set_cons_succ, countP_cons, countP_cons]
      omega

theorem filterMap_set_same {β : Type*} {f : α → Option β} (h : xs[i]? = some x) (hy : f y = f x) :
    (xs.set i y).filterMap f = xs.filterMap f := by
  induction xs generalizing i with
  | nil => cases h
  | cons z zs ih =>
    cases i with
    | zero =>
      cases h
      rw [set_cons_zero, filterMap_cons, filterMap_cons, hy]
    | succ i =>
      have hz : zs[i]? = some x := h
      rw [set_cons_succ, filterMap_cons, filterMap_cons, ih hz]

/-- After it is set to what gives nothing, what it gave is missing. -/
theorem filterMap_set_none {β : Type*} {f : α → Option β} {b : β} (h : xs[i]? = some x) (hx : f x = some b)
    (hy : f y = none) : (xs.filterMap f).Perm (b :: (xs.set i y).filterMap f) := by
  induction xs generalizing i with
  | nil => cases h
  | cons z zs ih =>
    cases i with
    | zero =>
      cases h
      rw [set_cons_zero, filterMap_cons, filterMap_cons, hx, hy]
    | succ i =>
      have hz := ih (i := i) h
      rw [set_cons_succ, filterMap_cons, filterMap_cons]
      cases f z with
      | none => exact hz
      | some c => exact (hz.cons c).trans (List.Perm.swap b c _)

end Places
