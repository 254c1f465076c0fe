import Mathlib.Data.UInt

/-!
# Segments of a list in key order

A list in strict order of a key is known by its members (`Sorted.ext`), so how a segment of it was
cut does not matter: what a `take` leaves of it is what is up to its last key (`Sorted.mem_take`), and
two segments next to each other are one (by `ext` again).
-/

namespace Segment

open List

variable {α β : Type*} [LinearOrder β] (key : α → β)

def Sorted (l : List α) : Prop := l.Pairwise fun a b => key a < key b

def sortBy (l : List α) : List α := l.mergeSort fun a b => key a ≤ key b

variable {key} {l l' : List α}

theorem Sorted.sublist (h : Sorted key l) (hs : l'.Sublist l) : Sorted key l' := List.Pairwise.sublist hs h

theorem Sorted.filter (h : Sorted key l) (p : α → Bool) : Sorted key (l.filter p) := h.sublist filter_sublist

theorem Sorted.nodup (h : Sorted key l) : l.Nodup := by
  refine List.Pairwise.imp ?_ h
  rintro a b hlt rfl
  exact lt_irrefl _ hlt

/-- **The members say which list it is.** -/
theorem Sorted.ext (h : Sorted key l) (h' : Sorted key l') (hmem : ∀ a, a ∈ l ↔ a ∈ l') : l = l' := by
  have hperm : l.Perm l' := (perm_ext_iff_of_nodup h.nodup h'.nodup).mpr hmem
  refine hperm.eq_of_pairwise ?_ h h'
  intro a b _ _ hab hba
  exact absurd hab (lt_asymm hba)

theorem mem_sortBy {a : α} : a ∈ sortBy key l ↔ a ∈ l := mem_mergeSort

theorem sorted_sortBy (h : (l.map key).Nodup) : Sorted key (sortBy key l) := by
  have hle : (sortBy key l).Pairwise fun a b => key a ≤ key b := by
    have htrans : ∀ a b c : α, decide (key a ≤ key b) = true → decide (key b ≤ key c) = true →
        decide (key a ≤ key c) = true := by
      intro a b c hab hbc
      exact decide_eq_true (le_trans (of_decide_eq_true hab) (of_decide_eq_true hbc))
    have htotal : ∀ a b : α, (decide (key a ≤ key b) || decide (key b ≤ key a)) = true := by
      intro a b
      rcases le_total (key a) (key b) with h | h <;> simp [h]
    exact (pairwise_mergeSort htrans htotal l).imp fun hab => of_decide_eq_true hab
  have hne : ((sortBy key l).map key).Nodup := ((mergeSort_perm l _).map key).nodup_iff.mpr h
  exact List.Pairwise.imp₂ (fun a b hab hne => lt_of_le_of_ne hab hne) hle (pairwise_map.mp hne)

theorem Sorted.head_le {first : α} (h : Sorted key l) (hfirst : l.head? = some first) : ∀ a ∈ l, key first ≤ key a := by
  intro a ha
  obtain ⟨rest, rfl⟩ := head?_eq_some_iff.mp hfirst
  rcases mem_cons.mp ha with rfl | ha
  · exact le_refl _
  · exact le_of_lt (rel_of_pairwise_cons h ha)

theorem Sorted.le_getLast {last : α} (h : Sorted key l) (hlast : l.getLast? = some last) :
    ∀ a ∈ l, key a ≤ key last := by
  intro a ha
  obtain ⟨init, rfl⟩ := getLast?_eq_some_iff.mp hlast
  rcases mem_append.mp ha with ha | ha
  · exact le_of_lt ((pairwise_append.mp h).2.2 a ha last (mem_singleton_self last))
  · exact le_of_eq (congrArg key (mem_singleton.mp ha))

theorem Sorted.filter_ge_final (h : Sorted key l) (b : β) : l.filter (fun a => b ≤ key a) <:+ l := by
  induction l with
  | nil => exact nil_suffix
  | cons a l ih =>
    by_cases hb : b ≤ key a
    · -- All that follows is past the key too.
      have hall : ∀ x ∈ a :: l, decide (b ≤ key x) = true := by
        intro x hx
        rcases mem_cons.mp hx with rfl | hx
        · exact decide_eq_true hb
        · exact decide_eq_true (hb.trans (le_of_lt (rel_of_pairwise_cons h hx)))
      exact (filter_eq_self.mpr hall).symm ▸ suffix_refl _
    · rw [filter_cons, if_neg (fun h => hb (of_decide_eq_true h))]
      exact (ih h.of_cons).trans (suffix_cons a l)

theorem Sorted.filter_le_initial (h : Sorted key l) (b : β) : l.filter (fun a => key a ≤ b) <+: l := by
  induction l with
  | nil => exact nil_prefix
  | cons a l ih =>
    by_cases hb : key a ≤ b
    · rw [filter_cons, if_pos (decide_eq_true hb)]
      exact (prefix_cons_inj a).mpr (ih h.of_cons)
    have hnone : ∀ x ∈ a :: l, ¬ decide (key x ≤ b) = true := by
      intro x hx hle
      rcases mem_cons.mp hx with rfl | hx
      · exact hb (of_decide_eq_true hle)
      · exact hb ((le_of_lt (rel_of_pairwise_cons h hx)).trans (of_decide_eq_true hle))
    rw [filter_eq_nil_iff.mpr hnone]
    exact nil_prefix

/-- **A part that leaves nothing out between two of its members is a run of the list.** -/
theorem Sorted.infix_of_convex (h : Sorted key l) (h' : Sorted key l') (hsub : ∀ a ∈ l', a ∈ l)
    (hconvex : ∀ x ∈ l, ∀ a ∈ l', ∀ b ∈ l', key a ≤ key x → key x ≤ key b → x ∈ l') : l' <:+: l := by
  cases hfirst : l'.head? with
  | none =>
    rw [head?_eq_none_iff.mp hfirst]
    exact nil_infix
  | some first =>
    obtain ⟨last, hlast⟩ : ∃ last, l'.getLast? = some last :=
      ⟨_, getLast?_eq_some_getLast (ne_nil_of_mem (mem_of_head? hfirst))⟩
    have hcut : l' = (l.filter fun a => key first ≤ key a).filter fun a => key a ≤ key last := by
      refine h'.ext ((h.filter _).filter _) fun a => ?_
      rw [mem_filter, mem_filter, decide_eq_true_eq, decide_eq_true_eq]
      constructor
      · intro ha
        exact ⟨⟨hsub a ha, h'.head_le hfirst a ha⟩, h'.le_getLast hlast a ha⟩
      · rintro ⟨⟨ha, hge⟩, hle⟩
        exact hconvex a ha first (mem_of_head? hfirst) last (mem_of_getLast? hlast) hge hle
    rw [hcut]
    exact ((h.filter _).filter_le_initial _).isInfix.trans (h.filter_ge_final _).isInfix

theorem Sorted.mem_take (h : Sorted key l) {n : Nat} {last : α} (hlast : (l.take n).getLast? = some last) (a : α) :
    a ∈ l.take n ↔ a ∈ l ∧ key a ≤ key last := by
  have hsplit := take_append_drop n l
  have hpair : ∀ x ∈ l.take n, ∀ y ∈ l.drop n, key x < key y := by
    rw [← hsplit, Sorted, pairwise_append] at h
    exact h.2.2
  constructor
  · intro ha
    exact ⟨mem_of_mem_take ha, (h.sublist (take_sublist n l)).le_getLast hlast a ha⟩
  rintro ⟨ha, hle⟩
  rw [← hsplit, mem_append] at ha
  rcases ha with ha | ha
  · exact ha
  · exact absurd hle (not_le_of_gt (hpair last (mem_of_getLast? hlast) a ha))

theorem Sorted.mem_take_reverse (h : Sorted key l) {n : Nat} {first : α}
    (hfirst : (l.reverse.take n).getLast? = some first) (a : α) :
    a ∈ l.reverse.take n ↔ a ∈ l ∧ key first ≤ key a := by
  have hrev : Sorted (fun a => OrderDual.toDual (key a)) l.reverse := pairwise_reverse.mpr h
  rw [hrev.mem_take hfirst a, mem_reverse]
  exact Iff.rfl

end Segment
