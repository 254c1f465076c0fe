import Mathlib.Data.UInt

/-!
# A list read page by page

A reader that loads a list in pages, each by its offset, has a first part of it. It may take members of
that part out for a while: what it shows then, and what is out, are together that first part. The list
itself loses members meanwhile. What keeps the two together, and where the next page begins, is here.
-/

namespace Paging

open List

variable {α : Type*}

/-- What is shown, and what is out, are a first part of `xs`; the shown in its order. -/
structure View (xs shown out : List α) : Prop where
  sub : shown.Sublist (xs.take (shown.length + out.length))
  perm : (xs.take (shown.length + out.length)).Perm (shown ++ out)

variable {xs shown out out' : List α} {x : α} {n : Nat}

/-! ## What a view says -/

theorem View.le (h : View xs shown out) : shown.length + out.length ≤ xs.length := by
  have hlen := h.perm.length_eq
  rw [length_append, List.length_take] at hlen
  omega

theorem View.length_take (h : View xs shown out) :
    (xs.take (shown.length + out.length)).length = shown.length + out.length := length_take_of_le h.le

theorem View.mem (h : View xs shown out) : x ∈ xs.take (shown.length + out.length) ↔ x ∈ shown ∨ x ∈ out := by
  rw [h.perm.mem_iff, mem_append]

theorem View.nodup (h : View xs shown out) (hxs : xs.Nodup) : (shown ++ out).Nodup :=
  h.perm.nodup_iff.mp ((take_sublist _ _).nodup hxs)

theorem View.congr (h : View xs shown out) (hout : out.Perm out') : View xs shown out' := by
  constructor
  · rw [← hout.length_eq]
    exact h.sub
  · rw [← hout.length_eq]
    exact h.perm.trans (hout.append_left shown)

theorem View.eq_take (h : View xs shown []) : shown = xs.take shown.length := h.sub.eq_of_length h.length_take.symm

theorem View.first (xs : List α) (n : Nat) : View xs (xs.take n) [] := by
  have htake : xs.take ((xs.take n).length + ([] : List α).length) = xs.take n := by
    rw [length_nil, Nat.add_zero, List.length_take]
    rcases Nat.le_total n xs.length with hle | hle
    · rw [Nat.min_eq_left hle]
    · rw [Nat.min_eq_right hle, take_length, take_of_length_le hle]
  constructor
  · rw [htake]
  · rw [htake, append_nil]

theorem View.append (h : View xs shown out) (n : Nat) :
    View xs (shown ++ (xs.drop (shown.length + out.length)).take n) out := by
  have htake : xs.take ((shown ++ (xs.drop (shown.length + out.length)).take n).length + out.length) =
      xs.take (shown.length + out.length) ++ (xs.drop (shown.length + out.length)).take n := by
    rw [length_append, Nat.add_right_comm, take_add, List.length_take]
    congr 1
    rcases Nat.le_total n (xs.drop (shown.length + out.length)).length with hle | hle
    · rw [Nat.min_eq_left hle]
    · rw [Nat.min_eq_right hle, take_length, take_of_length_le hle]
  constructor
  · rw [htake]
    exact h.sub.append_right _
  rw [htake]
  apply (h.perm.append_right _).trans
  rw [append_assoc, append_assoc]
  exact perm_append_comm.append_left shown

/-! ## Members that come and go -/

variable [DecidableEq α]

def ahead (xs shown : List α) (x : α) : Nat := (shown.filter (· ∈ xs.takeWhile (· != x))).length

theorem erase_of_mem_take (hx : x ∈ xs.take n) : xs.erase x = (xs.take n).erase x ++ xs.drop n := by
  conv_lhs => rw [← take_append_drop n xs]
  exact erase_append_left _ hx

theorem erase_of_not_mem_take (hx : x ∉ xs.take n) : xs.erase x = xs.take n ++ (xs.drop n).erase x := by
  conv_lhs => rw [← take_append_drop n xs]
  exact erase_append_right _ hx

theorem drop_erase_of_mem (hn : n + 1 ≤ xs.length) (hx : x ∈ xs.take (n + 1)) :
    (xs.erase x).drop n = xs.drop (n + 1) := by
  have hlen : ((xs.take (n + 1)).erase x).length = n := by
    rw [length_erase_of_mem hx, length_take_of_le hn]
    rfl
  rw [erase_of_mem_take hx]
  exact drop_left' hlen

theorem take_erase_of_mem (hn : n + 1 ≤ xs.length) (hx : x ∈ xs.take (n + 1)) :
    (xs.erase x).take n = (xs.take (n + 1)).erase x := by
  have hlen : ((xs.take (n + 1)).erase x).length = n := by
    rw [length_erase_of_mem hx, length_take_of_le hn]
    rfl
  rw [erase_of_mem_take hx]
  exact take_left' hlen

theorem take_erase_of_not_mem (hx : x ∉ xs.take n) : (xs.erase x).take n = xs.take n := by
  rcases Nat.le_total n xs.length with hle | hle
  · rw [erase_of_not_mem_take hx]
    exact take_left' (length_take_of_le hle)
  · rw [take_of_length_le hle] at hx
    rw [List.erase_of_not_mem hx]

/-- A page is the same without a member of neither it nor what comes before it. -/
theorem page_erase_of_not_mem {m : Nat} (hx : x ∉ xs.take m) (hpage : x ∉ (xs.drop m).take n) :
    ((xs.erase x).drop m).take n = (xs.drop m).take n := by
  have hboth : x ∉ xs.take (m + n) := by
    rw [take_add, mem_append]
    exact not_or.mpr ⟨hx, hpage⟩
  rw [take_drop, take_drop, take_erase_of_not_mem hboth]

theorem View.takeOut (h : View xs shown out) (hx : x ∈ shown) : View xs (shown.erase x) (x :: out) := by
  have hlen : (shown.erase x).length + (x :: out).length = shown.length + out.length := by
    have hpos := length_pos_of_mem hx
    rw [length_erase_of_mem hx, length_cons]
    omega
  constructor
  · rw [hlen]
    exact erase_sublist.trans h.sub
  rw [hlen]
  apply h.perm.trans
  apply ((perm_cons_erase hx).append_right out).trans
  rw [cons_append]
  exact perm_middle.symm

/-- What is out and leaves the list altogether was no more than out. -/
theorem View.erase (h : View xs shown (x :: out)) (hxs : xs.Nodup) : View (xs.erase x) shown out := by
  have hmem : x ∈ xs.take (shown.length + out.length + 1) := h.mem.mpr (.inr mem_cons_self)
  have hnot : x ∉ shown := by
    intro hx
    have hnodup := h.nodup hxs
    exact (nodup_append.mp hnodup).2.2 x hx x mem_cons_self rfl
  have htake := take_erase_of_mem (n := shown.length + out.length) h.le hmem
  constructor
  · rw [htake]
    have hsub := h.sub.erase x
    rw [List.erase_of_not_mem hnot] at hsub
    exact hsub
  · rw [htake]
    have hperm := h.perm.erase x
    rw [erase_append_right _ hnot, erase_cons_head] at hperm
    exact hperm

theorem View.erase_of_not_mem (h : View xs shown out) (hshown : x ∉ shown) (hout : x ∉ out) :
    View (xs.erase x) shown out := by
  have htake := take_erase_of_not_mem fun hx => (h.mem.mp hx).elim hshown hout
  constructor
  · rw [htake]
    exact h.sub
  · rw [htake]
    exact h.perm

theorem View.putBack (h : View xs shown (x :: out)) (hxs : xs.Nodup) {k : Nat}
    (hk : min k shown.length = ahead xs shown x) : View xs (shown.take k ++ x :: shown.drop k) out := by
  have hmem : x ∈ xs.take (shown.length + out.length + 1) := h.mem.mpr (.inr mem_cons_self)
  have hnot : x ∉ shown := by
    intro hx
    exact (nodup_append.mp (h.nodup hxs)).2.2 x hx x mem_cons_self rfl
  have hlen : (shown.take k ++ x :: shown.drop k).length + out.length = shown.length + out.length + 1 := by
    rw [length_append, length_cons, ← Nat.add_assoc, ← length_append, take_append_drop]
    omega
  have hperm : (shown.take k ++ x :: shown.drop k).Perm (x :: shown) := by
    apply perm_middle.trans
    rw [take_append_drop]
  -- the covered part is what stands before `x`, `x`, and what follows
  obtain ⟨before, after, hsplit⟩ := append_of_mem hmem
  have hnodup : (before ++ x :: after).Nodup := hsplit ▸ (take_sublist _ _).nodup hxs
  obtain ⟨-, hafter, hdisjoint⟩ := nodup_append.mp hnodup
  have hbefore : x ∉ before := fun hx => hdisjoint x hx x mem_cons_self rfl
  have hwhile : xs.takeWhile (· != x) = before := by
    rw [← take_append_drop (shown.length + out.length + 1) xs, hsplit, append_assoc, cons_append]
    rw [takeWhile_append_of_pos]
    · rw [takeWhile_cons_of_neg (by simp), append_nil]
    · intro y hy
      exact bne_iff_ne.mpr fun heq => hbefore (heq ▸ hy)
  have hsub : shown.Sublist (before ++ x :: after) := hsplit ▸ h.sub
  obtain ⟨first, rest, rfl, hfirst, hrest⟩ := sublist_append_iff.mp hsub
  have hrest : rest.Sublist after := by
    rcases sublist_cons_iff.mp hrest with hrest | ⟨rest', rfl, -⟩
    · exact hrest
    · exact absurd (mem_append_right first mem_cons_self) hnot
  have hahead : ahead xs (first ++ rest) x = first.length := by
    unfold ahead
    rw [hwhile, filter_append, filter_eq_self.mpr, filter_eq_nil_iff.mpr, append_nil]
    · intro y hy hin
      exact hdisjoint y (of_decide_eq_true hin) y (mem_cons_of_mem x (hrest.subset hy)) rfl
    · intro y hy
      exact decide_eq_true (hfirst.subset hy)
  have htake : (first ++ rest).take k = first ∧ (first ++ rest).drop k = rest := by
    rw [hahead] at hk
    rw [take_eq_take_min, hk]
    have hdrop : (first ++ rest).drop k = (first ++ rest).drop (min k (first ++ rest).length) := by
      rcases Nat.le_total k (first ++ rest).length with hle | hle
      · rw [Nat.min_eq_left hle]
      · rw [Nat.min_eq_right hle, drop_length, drop_of_length_le hle]
    rw [hdrop, hk]
    exact ⟨take_left' rfl, drop_left' rfl⟩
  constructor
  · rw [hlen, hsplit, htake.1, htake.2]
    exact hfirst.append (hrest.cons_cons x)
  rw [hlen]
  apply h.perm.trans
  apply perm_middle.trans
  exact (hperm.symm.append_right out)

end Paging
