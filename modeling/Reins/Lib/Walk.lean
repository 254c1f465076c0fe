import Mathlib.Data.UInt

/-!
# Walks: following a link from node to node

`walk` goes from a node to the next one until a node stops it, nothing is next, or the next node is
one it has been at: `pool` is the keys it has not been at, and gets smaller at every step. `path`
follows the links for a number of nodes, without a memory. **A path read up to its first repeated
key is the walk** (`fresh_path`), so a walk can be read as a bounded path and cut afterwards.
-/

namespace Walk

open List

variable {α κ : Type*} [DecidableEq κ] (key : α → κ) (next : α → Option α)

def walk (stop : α → Bool) (pool : List κ) (a : α) : List α :=
  a :: if stop a then [] else
    match next a with
    | none => []
    | some b => if key b ∈ pool then walk stop (pool.erase (key b)) b else []
termination_by pool.length
decreasing_by
  have := length_erase_add_one ‹key b ∈ pool›
  omega

/-- The links followed for `n` nodes. -/
def path (stop : α → Bool) : Nat → α → List α
  | 0, _ => []
  | n + 1, a => a :: if stop a then [] else
      match next a with
      | none => []
      | some b => path stop n b

def fresh : List κ → List α → List α
  | _, [] => []
  | seen, a :: as => if key a ∈ seen then [] else a :: fresh (key a :: seen) as

/-- The nodes up to the first with the property, and that one. -/
def through (p : α → Bool) : List α → List α
  | [] => []
  | a :: as => if p a then [a] else a :: through p as

theorem through_eq (p : α → Bool) (as : List α) : through p as = match as.findIdx? p with
      | some i => as.take (i + 1)
      | none => as := by
  induction as with
  | nil => rfl
  | cons a as ih =>
    rw [through, findIdx?_cons]
    cases p a with
    | true => rfl
    | false =>
      simp only [Bool.false_eq_true, if_false]
      rw [ih]
      cases as.findIdx? p <;> rfl

theorem through_map {β : Type*} (p : β → Bool) (f : α → β) (as : List α) :
    through p (as.map f) = (through (fun a => p (f a)) as).map f := by
  induction as with
  | nil => rfl
  | cons a as ih =>
    rw [map_cons, through, through]
    cases p (f a) with
    | true => rfl
    | false => exact congrArg (f a :: ·) ih

theorem through_take (p : α → Bool) (n : Nat) (as : List α) : through p (as.take n) = (through p as).take n := by
  induction as generalizing n with
  | nil => simp [through]
  | cons a as ih =>
    cases n with
    | zero => rfl
    | succ n =>
      rw [take_succ_cons, through, through]
      cases p a with
      | true => simp
      | false => exact congrArg (a :: ·) (ih n)

section

variable {key next}

/-- **A path cut at its first repeated key is the walk**, as far as the path goes. The induction is
on the path; what the walk has been at is what is not in its pool. -/
theorem fresh_path {stop : α → Bool} {n : Nat} {seen pool : List κ} {a : α} (hpool : pool.Nodup)
    (hseen : ∀ k ∈ pool, k ∉ key a :: seen) (ha : key a ∉ seen)
    (hnext : ∀ b c, next b = some c → key c ∈ pool ∨ key c ∈ key a :: seen) :
    fresh key seen (path next stop n a) = (walk key next stop pool a).take n := by
  induction n generalizing seen pool a with
  | zero => rfl
  | succ n ih =>
    rw [path, fresh, if_neg ha, walk, take_succ_cons]
    apply congrArg (a :: ·)
    cases stop a with
    | true => simp [fresh]
    | false =>
      cases hn : next a with
      | none => simp [fresh]
      | some b =>
        simp only [Bool.false_eq_true, if_false]
        by_cases hb : key b ∈ pool
        · rw [if_pos hb]
          apply ih (hpool.erase _) _ (hseen _ hb)
          · intro c d hd
            rcases hnext c d hd with h | h
            · by_cases he : key d = key b
              · exact Or.inr (he ▸ mem_cons_self)
              · exact Or.inl ((mem_erase_of_ne he).mpr h)
            · exact Or.inr (mem_cons_of_mem _ h)
          · intro k hk hmem
            rcases mem_cons.mp hmem with rfl | h
            · exact hpool.not_mem_erase hk
            · exact hseen k (mem_of_mem_erase hk) h
        · -- the walk has been at `b`: it ends here, and the path is cut here
          rw [if_neg hb]
          have hmem : key b ∈ key a :: seen := (hnext a b hn).resolve_left hb
          cases n with
          | zero => rfl
          | succ n => simp only [path, fresh, if_pos hmem, take_nil]

theorem length_path_le (stop : α → Bool) (n : Nat) (a : α) : (path next stop n a).length ≤ n := by
  induction n generalizing a with
  | zero => exact Nat.le_refl 0
  | succ n ih =>
    rw [path, length_cons]
    apply Nat.succ_le_succ
    split
    · exact Nat.zero_le _
    split
    · exact Nat.zero_le _
    · exact ih _

theorem length_walk_le (stop : α → Bool) (pool : List κ) (a : α) :
    (walk key next stop pool a).length ≤ pool.length + 1 := by
  induction pool, a using walk.induct key with
  | case1 pool a ih =>
    rw [walk, length_cons]
    apply Nat.succ_le_succ
    split
    · exact Nat.zero_le _
    split
    · exact Nat.zero_le _
    split
    next hb =>
      exact Nat.le_trans (ih _ hb) (Nat.le_of_eq (length_erase_add_one hb))
    · exact Nat.zero_le _

/-- A walk that goes past nodes where it would stop, read up to the first of them. -/
theorem through_walk {stop stop' : α → Bool} (hstop : ∀ a, stop' a = true → stop a = true) (pool : List κ) (a : α) :
    through stop (walk key next stop' pool a) = walk key next stop pool a := by
  induction pool, a using walk.induct key with
  | case1 pool a ih =>
    rw [walk, walk.eq_def key next stop, through]
    cases hs : stop a with
    | true => rfl
    | false =>
      have hs' : stop' a = false := Bool.eq_false_iff.mpr fun h => by simp [hstop a h] at hs
      apply congrArg (a :: ·)
      simp only [hs', Bool.false_eq_true, if_false]
      cases next a with
      | none => rfl
      | some b =>
        by_cases hb : key b ∈ pool
        · simp only [if_pos hb]
          exact ih b hb
        · simp only [if_neg hb]
          rfl

/-! ### Links that go down -/

section

variable {P : α → Prop} {rank : α → Nat} {stop : α → Bool} {pool : List κ} {a : α}
  (hnext : ∀ b c, P b → next b = some c → P c ∧ rank c < rank b)

include hnext

theorem mem_walk_rank (ha : P a) : ∀ b ∈ walk key next stop pool a, P b ∧ rank b ≤ rank a := by
  induction pool, a using walk.induct key with
  | case1 pool a ih =>
    intro b hb
    rw [walk] at hb
    rcases mem_cons.mp hb with rfl | hb
    · exact ⟨ha, Nat.le_refl _⟩
    split at hb
    · cases hb
    cases hn : next a with
    | none => simp [hn] at hb
    | some c =>
      simp only [hn] at hb
      split at hb
      next hc =>
        obtain ⟨hPc, hlt⟩ := hnext a c ha hn
        obtain ⟨hPb, hle⟩ := ih c hc hPc b hb
        exact ⟨hPb, Nat.le_trans hle (Nat.le_of_lt hlt)⟩
      · cases hb

theorem walk_decreasing (ha : P a) : (walk key next stop pool a).Pairwise fun b c => rank c < rank b := by
  induction pool, a using walk.induct key with
  | case1 pool a ih =>
    rw [walk]
    cases stop a with
    | true => exact pairwise_singleton _ _
    | false =>
      cases hn : next a with
      | none => exact pairwise_singleton _ _
      | some c =>
        simp only [Bool.false_eq_true, if_false]
        split
        next hc =>
          obtain ⟨hPc, hlt⟩ := hnext a c ha hn
          refine pairwise_cons.mpr ⟨?_, ih c hc hPc⟩
          intro b hb
          exact Nat.lt_of_le_of_lt (mem_walk_rank hnext hPc b hb).2 hlt
        · exact pairwise_singleton _ _

/-- **A walk down never comes back**: it ends at a node that stops it or has nothing next, as long as
the nodes below its start are in the pool. -/
theorem walk_ends (hkey : ∀ b c, P b → P c → key b = key c → b = c) (ha : P a)
    (hpool : ∀ b, P b → rank b < rank a → key b ∈ pool) :
    ∀ b ∈ (walk key next stop pool a).getLast?, stop b = true ∨ next b = none := by
  induction pool, a using walk.induct key with
  | case1 pool a ih =>
    intro b hb
    rw [walk] at hb
    cases hs : stop a with
    | true =>
      obtain rfl : a = b := by simpa [hs] using hb
      exact Or.inl hs
    | false =>
      cases hn : next a with
      | none =>
        obtain rfl : a = b := by simpa [hs, hn] using hb
        exact Or.inr hn
      | some c =>
        obtain ⟨hPc, hlt⟩ := hnext a c ha hn
        have hc : key c ∈ pool := hpool c hPc hlt
        simp only [hs, hn, hc, if_true, Bool.false_eq_true, if_false] at hb
        apply ih c hc hPc
        · intro d hPd hd
          refine (mem_erase_of_ne fun he => ?_).mpr (hpool d hPd (Nat.lt_trans hd hlt))
          exact absurd hd (hkey d c hPd hPc he ▸ Nat.lt_irrefl _)
        · rw [walk] at hb ⊢
          exact (getLast?_cons_cons ▸ hb)

theorem path_eq_walk (hkey : ∀ b c, P b → P c → key b = key c → b = c) (ha : P a)
    (hpool : ∀ b, P b → rank b < rank a → key b ∈ pool) (n : Nat) :
    path next stop n a = (walk key next stop pool a).take n := by
  induction n generalizing pool a with
  | zero => rfl
  | succ n ih =>
    rw [path, walk, take_succ_cons]
    apply congrArg (a :: ·)
    cases stop a with
    | true => exact take_nil.symm
    | false =>
      cases hn : next a with
      | none => exact take_nil.symm
      | some c =>
        obtain ⟨hPc, hlt⟩ := hnext a c ha hn
        simp only [hpool c hPc hlt, if_true, Bool.false_eq_true, if_false]
        apply ih hPc
        intro d hPd hd
        refine (mem_erase_of_ne fun he => ?_).mpr (hpool d hPd (Nat.lt_trans hd hlt))
        exact absurd hd (hkey d c hPd hPc he ▸ Nat.lt_irrefl _)

end

end

end Walk
