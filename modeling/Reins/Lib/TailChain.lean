import Reins.Lib.Places

/-!
# Work chained on a tail

Work is made in some order and waits for the tail that a table holds when it is made, then puts its own
there; once its tail settled, a work that is still the table's clears it. The table may so be empty only
while all that was made is done, and whatever begins comes after what was made before it.
-/

namespace TailChain

open Places

section

variable {α : Type*} (after : α → Option Nat) (begun done : α → Prop)

structure Line (xs : List α) : Prop where
  waits : ∀ (j : Nat) (y : α), xs[j]? = some y → ∀ t ∈ after y, t + 1 = j
  first : ∀ (i j : Nat) (x y : α), i < j → xs[i]? = some x → xs[j]? = some y → after y = none → done x
  order : ∀ (i j : Nat) (x y : α), i < j → xs[i]? = some x → xs[j]? = some y → begun y → done x

structure Table (xs : List α) (tail : Option Nat) : Prop where
  newest : ∀ t ∈ tail, t + 1 = xs.length
  clear : tail = none → ∀ x ∈ xs, done x

end

variable {α : Type*} {after : α → Option Nat} {begun done : α → Prop} {xs : List α} {tail : Option Nat}
  {i j : Nat} {x y : α}

theorem Line.nil : Line after begun done [] := by
  exact ⟨nofun, nofun, nofun⟩

theorem Table.nil : Table done ([] : List α) none := by
  exact ⟨nofun, nofun⟩

theorem Line.alone (h : Line after begun done xs) (hx : xs[i]? = some x) (hy : xs[j]? = some y) (hbx : begun x)
    (hby : begun y) (hdx : ¬done x) (hdy : ¬done y) : i = j := by
  rcases Nat.lt_trichotomy i j with hlt | heq | hgt
  · exact absurd (h.order i j x y hlt hx hy hby) hdx
  · exact heq
  · exact absurd (h.order j i y x hgt hy hx hbx) hdy

theorem Line.ready (h : Line after begun done xs) (hbegun : ∀ x, done x → begun x) (hy : xs[j]? = some y)
    (hafter : ∀ t ∈ after y, ∀ x, xs[t]? = some x → done x) {k : Nat} {z : α} (hkj : k < j)
    (hz : xs[k]? = some z) : done z := by
  cases ht : after y with
  | none => exact h.first k j z y hkj hz hy ht
  | some t =>
    obtain rfl := h.waits j y hy t ht
    have hlt : t < xs.length := Nat.lt_of_succ_lt (lt_of_getElem? hy)
    have hxt : xs[t]? = some xs[t] := List.getElem?_eq_getElem hlt
    have hdone : done xs[t] := hafter t ht _ hxt
    rcases Nat.lt_succ_iff_lt_or_eq.mp hkj with hkt | rfl
    · exact h.order k t z _ hkt hz hxt (hbegun _ hdone)
    rw [hxt] at hz
    rw [← Option.some_inj.mp hz]
    exact hdone

/-- One goes on: it stays done, and begins after those before it are. -/
theorem Line.set (h : Line after begun done xs) (hx : xs[i]? = some x) (hafter : after y = after x)
    (hdone : done x → done y)
    (hbegun : begun y → begun x ∨ ∀ (k : Nat) (z : α), k < i → xs[k]? = some z → done z) :
    Line after begun done (xs.set i y) := by
  constructor
  · intro j z hz
    rcases getElem?_set_cases hz with ⟨rfl, rfl⟩ | ⟨-, hz⟩
    · rw [hafter]
      exact h.waits i x hx
    · exact h.waits j z hz
  · intro k j w z hkj hw hz hnone
    have hold : ∃ z', xs[j]? = some z' ∧ after z' = none := by
      rcases getElem?_set_cases hz with ⟨rfl, rfl⟩ | ⟨-, hz⟩
      · exact ⟨x, hx, hafter ▸ hnone⟩
      · exact ⟨z, hz, hnone⟩
    obtain ⟨z', hz', hnone'⟩ := hold
    rcases getElem?_set_cases hw with ⟨rfl, rfl⟩ | ⟨-, hw⟩
    · exact hdone (h.first i j x z' hkj hx hz' hnone')
    · exact h.first k j w z' hkj hw hz' hnone'
  · intro k j w z hkj hw hz hz'
    rcases getElem?_set_cases hw with ⟨rfl, rfl⟩ | ⟨-, hwk⟩
    · rcases getElem?_set_cases hz with ⟨rfl, -⟩ | ⟨-, hz⟩
      · exact absurd hkj (Nat.lt_irrefl i)
      · exact hdone (h.order i j x z hkj hx hz hz')
    rcases getElem?_set_cases hz with ⟨rfl, rfl⟩ | ⟨-, hz⟩
    · rcases hbegun hz' with hbx | hbefore
      · exact h.order k i w x hkj hwk hx hbx
      · exact hbefore k w hkj hwk
    · exact h.order k j w z hkj hwk hz hz'

theorem Table.set (h : Table done xs tail) (hx : xs[i]? = some x) (hdone : done x → done y) :
    Table done (xs.set i y) tail := by
  constructor
  · intro t ht
    rw [List.length_set]
    exact h.newest t ht
  intro hnone z hz
  rcases List.mem_or_eq_of_mem_set hz with hz | rfl
  · exact h.clear hnone z hz
  · exact hdone (h.clear hnone x (List.mem_of_getElem? hx))

theorem Line.enter (h : Line after begun done xs) (htable : Table done xs tail) (hafter : after y = tail)
    (hnot : ¬begun y) : Line after begun done (xs ++ [y]) := by
  constructor
  · intro j z hz t ht
    rcases getElem?_concat_cases hz with hz | ⟨rfl, rfl⟩
    · exact h.waits j z hz t ht
    · exact htable.newest t (hafter ▸ ht)
  · intro k j w z hkj hw hz hnone
    rcases getElem?_concat_cases hw with hwk | ⟨rfl, -⟩
    · rcases getElem?_concat_cases hz with hz | ⟨rfl, rfl⟩
      · exact h.first k j w z hkj hwk hz hnone
      · exact htable.clear (hafter ▸ hnone) w (List.mem_of_getElem? hwk)
    rcases getElem?_concat_cases hz with hz | ⟨rfl, -⟩
    · exact absurd (Nat.lt_trans hkj (lt_of_getElem? hz)) (Nat.lt_irrefl _)
    · exact absurd hkj (Nat.lt_irrefl _)
  · intro k j w z hkj hw hz hbz
    rcases getElem?_concat_cases hz with hz | ⟨rfl, rfl⟩
    · rcases getElem?_concat_cases hw with hw | ⟨rfl, -⟩
      · exact h.order k j w z hkj hw hz hbz
      · exact absurd (Nat.lt_trans hkj (lt_of_getElem? hz)) (Nat.lt_irrefl _)
    · exact absurd hbz hnot

theorem Table.enter (done : α → Prop) (xs : List α) (y : α) : Table done (xs ++ [y]) (some xs.length) := by
  constructor
  · intro t ht
    cases ht
    rw [List.length_append, List.length_singleton]
  · exact nofun

/-- The newest, once done, clears the table; another leaves it. -/
theorem Table.release (h : Table done xs tail) (hline : Line after begun done xs) (hx : xs[i]? = some x)
    (hdone : done x) (hbegun : begun x) : Table done xs (if tail = some i then none else tail) := by
  by_cases htail : tail = some i
  · rw [if_pos htail]
    have hlen := h.newest i htail
    constructor
    · exact nofun
    intro _ y hy
    obtain ⟨k, hk⟩ := List.mem_iff_getElem?.mp hy
    rcases Nat.lt_or_eq_of_le (Nat.le_of_lt_succ (hlen ▸ lt_of_getElem? hk)) with hki | rfl
    · exact hline.order k i y x hki hk hx hbegun
    rw [hx] at hk
    rw [← Option.some_inj.mp hk]
    exact hdone
  · rw [if_neg htail]
    exact h

end TailChain
