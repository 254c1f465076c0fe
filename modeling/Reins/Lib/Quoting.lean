import Mathlib.Data.List.Basic

/-!
# C-style quoting

A name is written as it is if all its bytes are printable ASCII other than the quote and the backslash; any
other between quotes, with each byte that is not so as an escape: a letter for those C has one for, else the byte
in octal. What is written has no control character, and is never read as another kind of thing: a quoted name
begins and ends with the quote, and is longer than its name.
-/

namespace Quoting

open List

def quote : UInt8 := 0x22
def backslash : UInt8 := 0x5C

def isPlain (b : UInt8) : Bool := 0x20 ≤ b && b < 0x7F && b ≠ quote && b ≠ backslash

def letter (b : UInt8) : Option UInt8 :=
  if b = 0x07 then some 0x61
  else if b = 0x08 then some 0x62
  else if b = 0x09 then some 0x74
  else if b = 0x0A then some 0x6E
  else if b = 0x0B then some 0x76
  else if b = 0x0C then some 0x66
  else if b = 0x0D then some 0x72
  else if b = quote ∨ b = backslash then some b
  else none

def octalDigit (n : Nat) : UInt8 := UInt8.ofNat (0x30 + n % 8)

def escape (b : UInt8) : List UInt8 :=
  if isPlain b then [b]
  else match letter b with
    | some l => [backslash, l]
    | none => [backslash, octalDigit (b.toNat / 64), octalDigit (b.toNat / 8), octalDigit b.toNat]

def quoted (name : List UInt8) : List UInt8 :=
  if name.all isPlain then name else quote :: name.flatMap escape ++ [quote]

variable {name : List UInt8} {b : UInt8}

theorem quoted_of_plain (h : name.all isPlain = true) : quoted name = name := if_pos h

theorem quoted_of_not_plain (h : name.all isPlain = false) : quoted name = quote :: name.flatMap escape ++ [quote] := by
  rw [quoted, h]
  rfl

def Printable (b : UInt8) : Prop := 0x20 ≤ b.toNat ∧ b.toNat < 0x7F

theorem printable_of_plain (h : isPlain b = true) : Printable b := by
  simp only [isPlain, Bool.and_eq_true, decide_eq_true_eq, UInt8.le_iff_toNat_le, UInt8.lt_iff_toNat_lt] at h
  exact h.1.1

theorem octalDigit_toNat (n : Nat) : (octalDigit n).toNat = 0x30 + n % 8 :=
  UInt8.toNat_ofNat_of_lt' (by simp only [UInt8.size]; omega)

theorem printable_octalDigit (n : Nat) : Printable (octalDigit n) := by
  rw [Printable, octalDigit_toNat]
  omega

theorem printable_letter {l : UInt8} (h : letter b = some l) : Printable l := by
  unfold letter at h
  repeat' split at h
  all_goals first
    | cases h; exact ⟨by decide, by decide⟩
    | (rename_i hb; cases h; rcases hb with rfl | rfl <;> exact ⟨by decide, by decide⟩)
    | cases h

theorem printable_escape {c : UInt8} (h : c ∈ escape b) : Printable c := by
  have hbackslash : Printable backslash := ⟨by decide, by decide⟩
  unfold escape at h
  split at h
  next hplain =>
    rw [mem_singleton.mp h]
    exact printable_of_plain hplain
  split at h
  next l hl =>
    simp only [mem_cons, not_mem_nil, or_false] at h
    rcases h with rfl | rfl
    · exact hbackslash
    · exact printable_letter hl
  · simp only [mem_cons, not_mem_nil, or_false] at h
    rcases h with rfl | rfl | rfl | rfl
    · exact hbackslash
    all_goals exact printable_octalDigit _

/-- **What is written is printable ASCII.** -/
theorem printable_quoted (h : b ∈ quoted name) : Printable b := by
  have hquote : Printable quote := ⟨by decide, by decide⟩
  cases hplain : name.all isPlain with
  | true =>
    rw [quoted_of_plain hplain] at h
    exact printable_of_plain (all_eq_true.mp hplain b h)
  | false =>
    rw [quoted_of_not_plain hplain] at h
    rcases mem_append.mp h with h | h
    · rcases mem_cons.mp h with rfl | h
      · exact hquote
      · obtain ⟨c, -, hb⟩ := mem_flatMap.mp h
        exact printable_escape hb
    · rw [mem_singleton.mp h]
      exact hquote

theorem quoted_not_plain (h : name.all isPlain = false) : (quoted name).all isPlain = false := by
  rw [quoted_of_not_plain h]
  rfl

theorem length_le_flatMap_escape (name : List UInt8) : name.length ≤ (name.flatMap escape).length := by
  induction name with
  | nil => exact Nat.le_refl 0
  | cons b name ih =>
    have hb : 1 ≤ (escape b).length := by
      unfold escape
      split
      · exact Nat.le_refl 1
      · split <;> exact Nat.succ_le_succ (Nat.zero_le _)
    rw [flatMap_cons, length_append, length_cons]
    omega

theorem length_lt_quoted (h : name.all isPlain = false) : name.length < (quoted name).length := by
  have := length_le_flatMap_escape name
  rw [quoted_of_not_plain h, length_append, length_cons]
  omega

theorem count_flatMap_escape (name : List UInt8) : (name.flatMap escape).count 0x20 = name.count 0x20 := by
  induction name with
  | nil => rfl
  | cons b name ih =>
    have hb : (escape b).count 0x20 = [b].count 0x20 := by
      unfold escape
      split
      · rfl
      rename_i hplain
      have hspace : b ≠ 0x20 := fun h => hplain (h ▸ by decide)
      have hletter : ∀ l, letter b = some l → l ≠ 0x20 := by
        intro l hl
        unfold letter at hl
        repeat' split at hl
        all_goals first
          | cases hl; decide
          | (rename_i hb; cases hl; exact hspace)
          | cases hl
      have hdigit (n : Nat) : octalDigit n ≠ 0x20 := by
        have hdigit := octalDigit_toNat n
        intro h
        rw [h] at hdigit
        simp at hdigit
        omega
      rw [count_singleton, beq_false_of_ne hspace, if_neg Bool.false_ne_true]
      split
      next l hl =>
        exact count_eq_zero.mpr (by simp [hletter l hl |>.symm, backslash])
      · exact count_eq_zero.mpr (by simp [(hdigit _).symm, backslash])
    rw [flatMap_cons, count_append, ih, hb, ← count_append]
    rfl

end Quoting
