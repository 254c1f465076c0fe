import Mathlib.Data.UInt

/-!
# A replica fed by a log and by snapshots

A table is changed by a log of writes, each of one key. A replica takes the writes in their order and, at
any time, a snapshot of the table as it was after some of them. What it holds under a key that no write on
its way concerns is what the table holds, exactly as long as no snapshot brings back what a write that was
taken has changed.
-/

namespace Replica

open List Function

variable {κ ν : Type*} [DecidableEq κ]

/-- The table after the writes; `none` takes a key's value away. -/
def after (base : κ → Option ν) (log : List (κ × Option ν)) : κ → Option ν :=
  log.foldl (fun table e => Function.update table e.1 e.2) base

def OnItsWay (log : List (κ × Option ν)) (taken : Nat) (k : κ) : Prop := ∃ e ∈ log.drop taken, e.1 = k

/-- A write of the key was taken that came after the snapshot. -/
def Overtaken (log : List (κ × Option ν)) (made taken : Nat) (k : κ) : Prop := ∃ e ∈ (log.take taken).drop made, e.1 = k

/-- The replica holds what the table does, but for the keys with writes on their way. -/
def Fresh (base : κ → Option ν) (log : List (κ × Option ν)) (taken : Nat) (replica : κ → Option ν) : Prop :=
  ∀ k, ¬OnItsWay log taken k → replica k = after base log k

variable {base replica : κ → Option ν} {log es : List (κ × Option ν)} {e : κ × Option ν} {taken made : Nat} {k : κ}

theorem after_append (base : κ → Option ν) (log es : List (κ × Option ν)) :
    after base (log ++ es) = after (after base log) es := foldl_append

theorem after_concat (base : κ → Option ν) (log : List (κ × Option ν)) (e : κ × Option ν) :
    after base (log ++ [e]) = Function.update (after base log) e.1 e.2 := after_append base log [e]

theorem after_of_forall_ne (h : ∀ e ∈ es, e.1 ≠ k) : after base es k = base k := by
  induction es generalizing base with
  | nil => rfl
  | cons e es ih =>
    change after (Function.update base e.1 e.2) es k = base k
    rw [ih fun e' he' => h e' (mem_cons_of_mem e he')]
    exact update_of_ne (Ne.symm (h e mem_cons_self)) _ _

theorem after_append_of_forall_ne (h : ∀ e ∈ es, e.1 ≠ k) : after base (log ++ es) k = after base log k := by
  rw [after_append]
  exact after_of_forall_ne h

theorem after_take (h : ¬OnItsWay log taken k) : after base (log.take taken) k = after base log k := by
  conv => rhs; rw [← take_append_drop taken log]
  exact (after_append_of_forall_ne fun e he heq => h ⟨e, he, heq⟩).symm

theorem after_take_of_not_overtaken (h : ¬OnItsWay log taken k) (hover : ¬Overtaken log made taken k) :
    after base (log.take made) k = after base log k := by
  rcases Nat.le_total taken made with hle | hle
  · refine after_take ?_
    -- what is left of the log after `made` is left of it after `taken`
    rintro ⟨e, he, heq⟩
    refine h ⟨e, ?_, heq⟩
    rw [← Nat.add_sub_cancel' hle, ← drop_drop] at he
    exact mem_of_mem_drop he
  · rw [← after_take h]
    have hsplit : log.take taken = log.take made ++ (log.take taken).drop made := by
      conv => lhs; rw [← take_append_drop made (log.take taken)]
      rw [take_take, Nat.min_eq_left hle]
    rw [hsplit]
    exact (after_append_of_forall_ne fun e he heq => hover ⟨e, he, heq⟩).symm

/-! ## What the replica takes -/

theorem Fresh.append (h : Fresh base log taken replica) (hle : taken ≤ log.length) (e : κ × Option ν) :
    Fresh base (log ++ [e]) taken replica := by
  intro k hk
  have hdrop : (log ++ [e]).drop taken = log.drop taken ++ [e] := drop_append_of_le_length hle
  have hne : e.1 ≠ k := by
    intro heq
    exact hk ⟨e, by rw [hdrop]; exact mem_concat_self, heq⟩
  rw [after_concat, update_of_ne (Ne.symm hne)]
  apply h
  rintro ⟨e', he', heq⟩
  exact hk ⟨e', by rw [hdrop]; exact mem_append_left _ he', heq⟩

theorem Fresh.take (h : Fresh base log taken replica) (he : log[taken]? = some e) :
    Fresh base log (taken + 1) (Function.update replica e.1 e.2) := by
  obtain ⟨hlt, rfl⟩ := List.getElem?_eq_some_iff.mp he
  have hdrop : log.drop taken = log[taken] :: log.drop (taken + 1) := List.drop_eq_getElem_cons hlt
  intro k hk
  by_cases hke : log[taken].1 = k
  · subst hke
    -- it is the last write of its key
    rw [update_self, ← after_take hk, take_succ_eq_append_getElem hlt, after_concat, update_self]
  rw [update_of_ne (Ne.symm hke)]
  apply h
  rintro ⟨e', he', heq⟩
  rw [hdrop] at he'
  rcases mem_cons.mp he' with rfl | he'
  · exact hke heq
  · exact hk ⟨e', he', heq⟩

theorem fresh_snapshot : Fresh base log taken (after base (log.take made)) ↔
    ∀ k, Overtaken log made taken k → ¬OnItsWay log taken k → after base (log.take made) k = after base log k := by
  constructor
  · exact fun h k _ hk => h k hk
  intro h k hk
  by_cases hover : Overtaken log made taken k
  · exact h k hover hk
  · exact after_take_of_not_overtaken hk hover

theorem Fresh.update_iff (h : Fresh base log taken replica) :
    Fresh base log taken (Function.update replica k (after base (log.take made) k)) ↔
      (Overtaken log made taken k → ¬OnItsWay log taken k → after base (log.take made) k = after base log k) := by
  constructor
  · intro hf _ hk
    rw [← hf k hk, update_self]
  intro hok k' hk'
  by_cases heq : k' = k
  · subst heq
    rw [update_self]
    by_cases hover : Overtaken log made taken k'
    · exact hok hover hk'
    · exact after_take_of_not_overtaken hk' hover
  · rw [update_of_ne heq]
    exact h k' hk'

/-! ## Tables kept as lists -/

section

variable {α : Type*} {key : α → κ} {xs ys : List α} {x : α}

def table (key : α → κ) (xs : List α) (k : κ) : Option α := xs.find? fun x => key x = k

theorem table_eq_some (h : (xs.map key).Nodup) : table key xs k = some x ↔ x ∈ xs ∧ key x = k := by
  unfold table
  constructor
  · intro hfind
    exact ⟨mem_of_find?_eq_some hfind, of_decide_eq_true (find?_some (p := fun x => key x = k) hfind)⟩
  rintro ⟨hx, rfl⟩
  cases hfind : xs.find? fun y => key y = key x with
  | none => exact absurd (decide_eq_true rfl) (find?_eq_none.mp hfind x hx)
  | some y =>
    have hy := mem_of_find?_eq_some hfind
    have hkey : key y = key x := of_decide_eq_true (find?_some (p := fun y => key y = key x) hfind)
    rw [inj_on_of_nodup_map h hy hx hkey]

theorem table_eq_none : table key xs k = none ↔ ∀ x ∈ xs, key x ≠ k := by
  unfold table
  rw [find?_eq_none]
  simp

omit [DecidableEq κ] in
theorem nodup_filter (h : (xs.map key).Nodup) (p : α → Bool) : ((xs.filter p).map key).Nodup :=
  h.sublist (filter_sublist.map key)

theorem table_filter (h : (xs.map key).Nodup) (k : κ) :
    table key (xs.filter fun x => key x ≠ k) = Function.update (table key xs) k none := by
  funext k'
  by_cases heq : k' = k
  · subst heq
    rw [update_self, table_eq_none]
    intro x hx
    exact of_decide_eq_true (mem_filter.mp hx).2
  · rw [update_of_ne heq]
    refine Option.ext fun x => ?_
    rw [table_eq_some (nodup_filter h _), table_eq_some h, mem_filter, decide_eq_true_iff, and_assoc]
    refine and_congr_right fun _ => ?_
    constructor
    · exact And.right
    · rintro rfl
      exact ⟨heq, rfl⟩

theorem nodup_replace (h : (xs.map key).Nodup) (hys : ys.Perm (xs.filter (fun y => key y ≠ key x) ++ [x])) :
    (ys.map key).Nodup := by
  rw [(hys.map key).nodup_iff, map_append]
  refine nodup_append.mpr ⟨nodup_filter h _, nodup_singleton _, ?_⟩
  intro a ha b hb
  obtain ⟨y, hy, rfl⟩ := mem_map.mp ha
  obtain ⟨x', hx', rfl⟩ := mem_map.mp hb
  rw [mem_singleton.mp hx']
  exact of_decide_eq_true (mem_filter.mp hy).2

theorem table_replace (h : (xs.map key).Nodup) (hys : ys.Perm (xs.filter (fun y => key y ≠ key x) ++ [x])) :
    table key ys = Function.update (table key xs) (key x) (some x) := by
  funext k
  refine Option.ext fun y => ?_
  rw [table_eq_some (nodup_replace h hys), hys.mem_iff, mem_append, mem_singleton, mem_filter,
    decide_eq_true_iff]
  by_cases heq : k = key x
  · subst heq
    rw [update_self, Option.some_inj]
    constructor
    · rintro ⟨⟨-, hne⟩ | rfl, hkey⟩
      · exact absurd hkey hne
      · rfl
    · rintro rfl
      exact ⟨.inr rfl, rfl⟩
  · rw [update_of_ne heq, table_eq_some h]
    constructor
    · rintro ⟨⟨hy, -⟩ | rfl, hkey⟩
      · exact ⟨hy, hkey⟩
      · exact absurd hkey.symm heq
    · rintro ⟨hy, rfl⟩
      exact ⟨.inl ⟨hy, heq⟩, rfl⟩

theorem perm_of_table (hxs : (xs.map key).Nodup) (hys : (ys.map key).Nodup) (h : table key xs = table key ys) :
    xs.Perm ys := by
  rw [perm_ext_iff_of_nodup hxs.of_map hys.of_map]
  intro x
  have hx : x ∈ xs ↔ table key xs (key x) = some x := by simp [table_eq_some hxs]
  have hy : x ∈ ys ↔ table key ys (key x) = some x := by simp [table_eq_some hys]
  rw [hx, hy, h]

end

end Replica
