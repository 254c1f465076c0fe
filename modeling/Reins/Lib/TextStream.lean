import Reins.Lib.Utf

/-!
# Text streams

What a lossy `TextDecoder` makes of a stream that comes in pieces: where it differs from the text
the bytes spell (a leading byte-order mark, which it drops), that what it has emitted is the start
of that, and how long the text of a piece can be.
-/

namespace Utf

open List

/-! ## The byte-order mark -/

def BOM_BYTES : List UInt8 := [0xEF, 0xBB, 0xBF]

theorem encodeChar_bom : String.utf8EncodeChar bom = BOM_BYTES := by decide

/-- What the rest of an input emits. -/
def decodeFrom (s : DecoderState) (bytes : List UInt8) : List (Option Char) :=
  (Scan.scan decodeStep s bytes).2 ++ decodeEnd (Scan.scan decodeStep s bytes).1

theorem decodeFrom_cons (s : DecoderState) (b : UInt8) (bytes : List UInt8) :
    decodeFrom s (b :: bytes) = (decodeStep s b).2 ++ decodeFrom (decodeStep s b).1 bytes := by
  simp [decodeFrom]

theorem decodeFrom_inside {s : DecoderState} (hs : s.needed ≠ 0) {bytes : List UInt8} {c : Char}
    (h : (decodeFrom s bytes).head? = some (some c)) :
    ∃ b rest, bytes = b :: rest ∧ s.lower ≤ b.toNat ∧ b.toNat ≤ s.upper ∧
      (s.needed = 1 ∧ c = Char.ofNat (s.codePoint * 64 + (b.toNat - 0x80)) ∨
        s.needed ≠ 1 ∧ (decodeFrom ⟨s.codePoint * 64 + (b.toNat - 0x80), s.needed - 1, 0x80, 0xBF⟩
          rest).head? = some (some c)) := by
  cases bytes with
  | nil => exact absurd h (by simp [decodeFrom, decodeEnd, hs])
  | cons b rest =>
    rw [decodeFrom_cons] at h
    simp only [decodeStep, if_neg hs] at h
    split at h
    next hb =>
      refine ⟨b, rest, rfl, hb.1, hb.2, ?_⟩
      split at h
      next h1 =>
        exact Or.inl ⟨h1, by simpa using h.symm⟩
      next h1 =>
        exact Or.inr ⟨h1, by simpa using h⟩
    · cases h

theorem ofNat_ne_bom {n : Nat} (hv : n < 0xD800 ∨ 0xDFFF < n ∧ n < 0x110000) (h : n ≠ 0xFEFF) : bom ≠ Char.ofNat n := by
  intro e
  have := congrArg Char.toNat e
  rw [toNat_charOfNat hv] at this
  exact h this.symm

/-- **A mark comes first where its bytes do.** -/
theorem head_bom_iff (bytes : List UInt8) : (decodeAll bytes).head? = some (some bom) ↔ BOM_BYTES <+: bytes := by
  constructor
  · intro h
    cases bytes with
    | nil => exact absurd h (by simp [decodeAll, decodeEnd, DecoderState.start])
    | cons b rest =>
      have hd : decodeAll (b :: rest) = (lead b.toNat).2 ++ decodeFrom (lead b.toNat).1 rest :=
        decodeFrom_cons .start b rest
      rw [hd] at h
      unfold lead at h
      split at h
      · exact absurd (by simpa using h) (ofNat_ne_bom (n := b.toNat) (by omega) (by omega)).symm
      split at h
      · simp only [nil_append] at h
        obtain ⟨b1, r1, rfl, h1, h2, ⟨-, hc⟩ | ⟨hn, -⟩⟩ := decodeFrom_inside (by simp) h
        · exact absurd hc (ofNat_ne_bom (by simp only at h1 h2 ⊢; omega) (by simp only at h1 h2 ⊢; omega))
        · exact absurd rfl hn
      split at h
      · simp only [nil_append] at h
        obtain ⟨b1, r1, rfl, h1, h2, ⟨hn, -⟩ | ⟨-, h⟩⟩ := decodeFrom_inside (by simp) h
        · cases hn
        obtain ⟨b2, r2, rfl, h3, h4, ⟨-, hc⟩ | ⟨hn, -⟩⟩ := decodeFrom_inside (by simp) h
        · have hcp : ((b.toNat - 0xE0) * 64 + (b1.toNat - 0x80)) * 64 + (b2.toNat - 0x80) = 0xFEFF := by
            by_contra hne
            refine ofNat_ne_bom ?_ hne hc
            simp only at h1 h2 h3 h4
            split at h1 <;> split at h2 <;> omega
          simp only at h1 h2 h3 h4
          have hl : 0x80 ≤ b1.toNat := by split at h1 <;> omega
          have hu : b1.toNat ≤ 0xBF := by split at h2 <;> omega
          have hb : b = 0xEF := UInt8.toNat_inj.mp (by simp; omega)
          have hb1 : b1 = 0xBB := UInt8.toNat_inj.mp (by simp; omega)
          have hb2 : b2 = 0xBF := UInt8.toNat_inj.mp (by simp; omega)
          rw [hb, hb1, hb2]
          exact ⟨r2, rfl⟩
        · exact absurd rfl hn
      split at h
      · simp only [nil_append] at h
        obtain ⟨b1, r1, rfl, h1, h2, ⟨hn, -⟩ | ⟨-, h⟩⟩ := decodeFrom_inside (by simp) h
        · cases hn
        obtain ⟨b2, r2, rfl, h3, h4, ⟨hn, -⟩ | ⟨-, h⟩⟩ := decodeFrom_inside (by simp) h
        · cases hn
        obtain ⟨b3, r3, rfl, h5, h6, ⟨-, hc⟩ | ⟨hn, -⟩⟩ := decodeFrom_inside (by simp) h
        · simp only at h1 h2 h3 h4 h5 h6
          refine absurd hc (ofNat_ne_bom ?_ ?_) <;> (simp only; split at h1 <;> split at h2 <;> omega)
        · exact absurd rfl hn
      · cases h
  · rintro ⟨rest, rfl⟩
    rw [← encodeChar_bom]
    simp [decodeAll, Scan.scan_append, scan_encodeChar]

/-- **A decoder that drops a leading mark reads the whole text where there is none**, and where
there is one it reads the rest. -/
theorem decodeText_eq_lossy (bytes : List UInt8) : decodeText false bytes = lossy bytes ↔ ¬ BOM_BYTES <+: bytes := by
  rw [← head_bom_iff]
  refine ⟨fun h hbom => ?_, decodeText_of_head⟩
  rw [decodeText_eq, lossy] at h
  cases hd : decodeAll bytes with
  | nil => exact absurd hbom (by simp [hd])
  | cons c cs =>
    rw [hd] at hbom h
    obtain rfl : c = some bom := by simpa using hbom
    have := congrArg List.length h
    simp [bomStep, scan_bomStep_seen] at this

/-! ## A stream in pieces -/

theorem emitted_prefix (ignoreBOM : Bool) (bytes rest : List UInt8) :
    (Scan.scan (textStep ignoreBOM) .start bytes).2 <+: decodeText ignoreBOM (bytes ++ rest) := by
  rw [decodeText, Scan.scan_append]
  exact ⟨_, (append_assoc ..).symm⟩

def DecoderState.inside (s : DecoderState) : Nat := if s.needed = 0 then 0 else 1

/-- The code units of what a decoder emits, at most. -/
def unitCount (cs : List (Option Char)) : Nat := (cs.map fun c => (units (c.getD replacement)).length).sum

theorem units_length (c : Char) : (units c).length ≤ 2 := by
  unfold units
  split <;> simp

theorem units_length_ascii {n : Nat} (h : n ≤ 0x7F) : (units (Char.ofNat n)).length = 1 := by
  have : (Char.ofNat n).toNat < 0x10000 := by rw [toNat_charOfNat (by omega)]; omega
  simp [units, this]

theorem length_flatMap_units {cs : List Char} (h : ∀ c ∈ cs, c.toNat < 0x80) :
    (cs.flatMap units).length = cs.length := by
  induction cs with
  | nil => rfl
  | cons c cs ih =>
    have hc : (units c).length = 1 := by
      rw [← Char.ofNat_toNat c]
      exact units_length_ascii (by have := h c (by simp); omega)
    rw [flatMap_cons, length_append, hc, ih fun d hd => h d (by simp [hd]), length_cons, Nat.add_comm]

theorem units_length_replacement : (units replacement).length = 1 := by decide

theorem unitCount_lead (b : Nat) : unitCount (lead b).2 + (lead b).1.inside ≤ 1 := by
  unfold lead
  split
  next h =>
    simp [unitCount, units_length_ascii h, DecoderState.start, DecoderState.inside]
  split
  · simp [unitCount, DecoderState.inside]
  split
  · simp [unitCount, DecoderState.inside]
  split
  · simp [unitCount, DecoderState.inside]
  · simp [unitCount, units_length_replacement, DecoderState.start, DecoderState.inside]

theorem unitCount_decodeStep (s : DecoderState) (b : UInt8) :
    unitCount (decodeStep s b).2 + (decodeStep s b).1.inside ≤ s.inside + 1 := by
  have hlead := unitCount_lead b.toNat
  unfold decodeStep
  split
  · omega
  rename_i hs
  have hin : s.inside = 1 := if_neg hs
  split
  · split
    · have := units_length (Char.ofNat (s.codePoint * 64 + (b.toNat - 0x80)))
      rw [hin]
      simpa [unitCount, DecoderState.start, DecoderState.inside] using this
    next h1 =>
      have : s.needed - 1 ≠ 0 := by omega
      simp [unitCount, DecoderState.inside, this]
  · simp only [unitCount, map_cons, sum_cons, Option.getD_none, units_length_replacement, hin] at hlead ⊢
    omega

theorem scan_bomStep_units (ignoreBOM seen : Bool) (cs : List (Option Char)) :
    ((Scan.scan (bomStep ignoreBOM) seen cs).2.flatMap units).length ≤ unitCount cs := by
  induction cs generalizing seen with
  | nil => simp [unitCount]
  | cons c cs ih =>
    have := ih true
    simp only [Scan.scan_cons, flatMap_append, length_append, unitCount, map_cons, sum_cons]
    have hc : ((bomStep ignoreBOM seen c).2.flatMap units).length ≤ (units (c.getD replacement)).length := by
      unfold bomStep
      simp only
      split <;> simp
    have hs : (bomStep ignoreBOM seen c).1 = true := rfl
    rw [hs]
    unfold unitCount at this
    omega

/-- **A piece's text is no longer than its bytes**, but for a character the piece before split. -/
theorem scan_textStep_units (ignoreBOM : Bool) (d : TextDecoder) (bytes : List UInt8) :
    ((Scan.scan (textStep ignoreBOM) d bytes).2.flatMap units).length
      + (Scan.scan (textStep ignoreBOM) d bytes).1.1.inside ≤ bytes.length + d.1.inside := by
  induction bytes generalizing d with
  | nil => simp
  | cons b bytes ih =>
    have h1 := ih (textStep ignoreBOM d b).1
    have h2 := unitCount_decodeStep d.1 b
    have h3 := scan_bomStep_units ignoreBOM d.2 (decodeStep d.1 b).2
    simp only [Scan.scan_cons, flatMap_append, length_append, length_cons]
    have e1 : (textStep ignoreBOM d b).1.1 = (decodeStep d.1 b).1 := rfl
    have e2 : (textStep ignoreBOM d b).2 = (Scan.scan (bomStep ignoreBOM) d.2 (decodeStep d.1 b).2).2 := rfl
    rw [e2]
    rw [e1] at h1
    omega

theorem textEnd_units (ignoreBOM : Bool) (d : TextDecoder) : ((textEnd ignoreBOM d).flatMap units).length ≤ 1 := by
  refine Nat.le_trans (scan_bomStep_units ignoreBOM d.2 (decodeEnd d.1)) ?_
  unfold decodeEnd
  split <;> simp [unitCount, units_length_replacement]

/-! ## ASCII text -/

section

variable {b : UInt8} {bs : List UInt8}

/-- The character a byte is, below 0x80. -/
def asciiChar (b : UInt8) : Char := Char.ofNat b.toNat

theorem asciiChar_toNat (b : UInt8) : (asciiChar b).toNat = b.toNat :=
  toNat_charOfNat (.inl (Nat.lt_of_lt_of_le b.toNat_lt (by decide)))

theorem encodeChar_ascii (h : b.toNat < 0x80) : String.utf8EncodeChar (asciiChar b) = [b] := by
  have hv : (asciiChar b).val.toNat = b.toNat := asciiChar_toNat b
  unfold String.utf8EncodeChar
  simp only [hv]
  rw [if_pos (by omega)]
  simp

theorem encode_ascii (h : ∀ b ∈ bs, b.toNat < 0x80) : encode (bs.map asciiChar) = bs := by
  induction bs with
  | nil => rfl
  | cons b bs ih =>
    rw [map_cons, encode_cons, encodeChar_ascii (h b (mem_cons_self ..)),
      ih fun b' hb' => h b' (mem_cons_of_mem b hb')]
    rfl

theorem units_ascii (h : b.toNat < 0x80) : units (asciiChar b) = [b.toUInt16] := by
  rw [units, asciiChar_toNat, if_pos (by omega)]
  congr 1
  exact UInt16.toNat_inj.mp (by simp)

theorem flatMap_units_ascii (h : ∀ b ∈ bs, b.toNat < 0x80) :
    (bs.map asciiChar).flatMap units = bs.map UInt8.toUInt16 := by
  induction bs with
  | nil => rfl
  | cons b bs ih =>
    rw [map_cons, flatMap_cons, units_ascii (h b (mem_cons_self ..)),
      ih fun b' hb' => h b' (mem_cons_of_mem b hb')]
    rfl

/-- **ASCII bytes are read unit by unit**, and are written so. -/
theorem decodeText_ascii (h : ∀ b ∈ bs, b.toNat < 0x80) :
    (decodeText false bs).flatMap units = bs.map UInt8.toUInt16 := by
  have hencoded := encode_ascii h
  have hbom : ¬BOM_BYTES <+: bs := fun hbom => absurd (h 0xEF (hbom.subset (by decide))) (by decide)
  rw [(decodeText_eq_lossy bs).mpr hbom, ← flatMap_units_ascii h]
  conv_lhs => rw [← hencoded, lossy_encode]

theorem encodeUnits_ascii (h : ∀ b ∈ bs, b.toNat < 0x80) : encodeUnits (bs.map UInt8.toUInt16) = bs := by
  rw [encodeUnits, ← flatMap_units_ascii h, scalars_flatMap_units, encode_ascii h]

end
end Utf
