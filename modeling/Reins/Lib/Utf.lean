import Mathlib.Data.List.ReduceOption
import Mathlib.Tactic.Cases
import Reins.Lib.Scan

/-!
# UTF-16 strings, and the UTF-8 of the Encoding Standard

A JavaScript string is a list of UTF-16 code units, and may hold a surrogate that pairs with
nothing; `scalars` are the scalar values it spells, such a surrogate counting as U+FFFD. A *text*
is a list of scalar values, a string with no such surrogate, and UTF-8 is the encoding of texts.

The decoder is the standard's machine, one byte at a time (`decodeStep`). It emits `some c` for a
scalar value and `none` where the input is malformed, which a fatal decoder refuses and a lossy one
replaces. Two facts about it carry everything above: `scan_encodeChar` (between characters, the
bytes of a scalar value emit exactly that scalar value) and `Scan.scan_append`, which says that
cutting the bytes into chunks anywhere changes nothing.
-/

namespace Utf

/-! ## Scalar values and code units -/

/-- What a lone surrogate, or a malformed byte sequence, is replaced by. -/
def replacement : Char := Char.ofNat 0xFFFD

def bom : Char := Char.ofNat 0xFEFF

instance lawfulBEq_units : LawfulBEq (List UInt16) := List.instLawfulBEq

/-- The code units of a scalar value. -/
def units (c : Char) : List UInt16 :=
  if c.toNat < 0x10000 then [UInt16.ofNat c.toNat]
  else [UInt16.ofNat (0xD800 + (c.toNat - 0x10000) / 0x400), UInt16.ofNat (0xDC00 + (c.toNat - 0x10000) % 0x400)]

def isHigh (u : UInt16) : Bool := 0xD800 ≤ u.toNat && u.toNat < 0xDC00
def isLow (u : UInt16) : Bool := 0xDC00 ≤ u.toNat && u.toNat < 0xE000

/-- The scalar value a surrogate pair spells. -/
def joinPair (h l : UInt16) : Char := Char.ofNat (0x10000 + (h.toNat - 0xD800) * 0x400 + (l.toNat - 0xDC00))

/-- A code unit that pairs with nothing: a surrogate spells U+FFFD. -/
def single (u : UInt16) : Char := if isHigh u || isLow u then replacement else Char.ofNat u.toNat

/-- The scalar values a string spells. -/
def scalars : List UInt16 → List Char
  | [] => []
  | [u] => [single u]
  | u :: v :: rest =>
    if isHigh u && isLow v then joinPair u v :: scalars rest
    else single u :: scalars (v :: rest)

def js (s : String) : List UInt16 := s.toList.flatMap units

theorem char_range (c : Char) : c.toNat < 0xD800 ∨ 0xDFFF < c.toNat ∧ c.toNat < 0x110000 := c.valid

theorem toNat_charOfNat {n : Nat} (h : n < 0xD800 ∨ 0xDFFF < n ∧ n < 0x110000) : (Char.ofNat n).toNat = n := by
  have hv : n.isValidChar := h
  rw [Char.ofNat, dif_pos hv]
  rfl

theorem toNat_unit {n : Nat} (h : n < 0x10000) : (UInt16.ofNat n).toNat = n := UInt16.toNat_ofNat_of_lt' h

theorem scalars_cons {u : UInt16} (h : isHigh u = false) (rest : List UInt16) :
    scalars (u :: rest) = single u :: scalars rest := by
  cases rest with
  | nil => rfl
  | cons v rest => simp [scalars, h]

theorem scalars_units (c : Char) (rest : List UInt16) : scalars (units c ++ rest) = c :: scalars rest := by
  have hr := char_range c
  unfold units
  split
  next hlt =>
    have hu : (UInt16.ofNat c.toNat).toNat = c.toNat := toNat_unit hlt
    have hh : isHigh (UInt16.ofNat c.toNat) = false := by
      simp only [isHigh, hu, Bool.and_eq_false_iff, decide_eq_false_iff_not]; omega
    have hl : isLow (UInt16.ofNat c.toNat) = false := by
      simp only [isLow, hu, Bool.and_eq_false_iff, decide_eq_false_iff_not]; omega
    rw [List.singleton_append, scalars_cons hh]
    simp [single, hh, hl, hu]
  · have h1 := toNat_unit (show 0xD800 + (c.toNat - 0x10000) / 0x400 < 0x10000 by omega)
    have h2 := toNat_unit (show 0xDC00 + (c.toNat - 0x10000) % 0x400 < 0x10000 by omega)
    generalize UInt16.ofNat (0xD800 + (c.toNat - 0x10000) / 0x400) = u at h1
    generalize UInt16.ofNat (0xDC00 + (c.toNat - 0x10000) % 0x400) = v at h2
    have hh : isHigh u = true := by
      simp only [isHigh, h1, Bool.and_eq_true, decide_eq_true_eq]; omega
    have hl : isLow v = true := by
      simp only [isLow, h2, Bool.and_eq_true, decide_eq_true_eq]; omega
    have hj : joinPair u v = c := by
      rw [joinPair, h1, h2, ← Char.toNat_inj, toNat_charOfNat] <;> omega
    simp [scalars, hh, hl, hj]

@[simp] theorem scalars_flatMap_units (cs : List Char) : scalars (cs.flatMap units) = cs := by
  induction cs with
  | nil => rfl
  | cons c cs ih => rw [List.flatMap_cons, scalars_units, ih]

theorem scalars_js (s : String) : scalars (js s) = s.toList := scalars_flatMap_units _

/-! ## Encoding -/

def encode (cs : List Char) : List UInt8 := cs.flatMap String.utf8EncodeChar

@[simp] theorem encode_nil : encode [] = [] := rfl

@[simp] theorem encode_append (cs ds : List Char) : encode (cs ++ ds) = encode cs ++ encode ds := List.flatMap_append

@[simp] theorem encode_cons (c : Char) (cs : List Char) : encode (c :: cs) = String.utf8EncodeChar c ++ encode cs := rfl

/-- `TextEncoder.encode` of a string. -/
def encodeUnits (s : List UInt16) : List UInt8 := encode (scalars s)

/-! ## The decoder -/

/-- The decoder between two bytes: the scalar value so far, how many continuation bytes it still
needs, and the bounds of the next one. -/
structure DecoderState where
  codePoint : Nat
  needed : Nat
  lower : Nat
  upper : Nat
  deriving DecidableEq, Repr

def DecoderState.start : DecoderState := ⟨0, 0, 0x80, 0xBF⟩

/-- A byte read between characters. -/
def lead (b : Nat) : DecoderState × List (Option Char) :=
  if b ≤ 0x7F then (.start, [some (Char.ofNat b)])
  else if 0xC2 ≤ b ∧ b ≤ 0xDF then (⟨b - 0xC0, 1, 0x80, 0xBF⟩, [])
  else if 0xE0 ≤ b ∧ b ≤ 0xEF then
    (⟨b - 0xE0, 2, if b = 0xE0 then 0xA0 else 0x80, if b = 0xED then 0x9F else 0xBF⟩, [])
  else if 0xF0 ≤ b ∧ b ≤ 0xF4 then
    (⟨b - 0xF0, 3, if b = 0xF0 then 0x90 else 0x80, if b = 0xF4 then 0x8F else 0xBF⟩, [])
  else (.start, [none])

/-- One byte. A byte that cannot continue the character ends it as malformed and is read again, as
the first of the next. -/
def decodeStep (s : DecoderState) (b : UInt8) : DecoderState × List (Option Char) :=
  if s.needed = 0 then lead b.toNat
  else if s.lower ≤ b.toNat ∧ b.toNat ≤ s.upper then
    let cp := s.codePoint * 64 + (b.toNat - 0x80)
    if s.needed = 1 then (.start, [some (Char.ofNat cp)])
    else (⟨cp, s.needed - 1, 0x80, 0xBF⟩, [])
  else ((lead b.toNat).1, none :: (lead b.toNat).2)

/-- What the end of the input emits: one malformed character when it stops inside one. -/
def decodeEnd (s : DecoderState) : List (Option Char) := if s.needed = 0 then [] else [none]

def decodeAll (bytes : List UInt8) : List (Option Char) :=
  (Scan.scan decodeStep .start bytes).2 ++ decodeEnd (Scan.scan decodeStep .start bytes).1

/-- A fatal decoder's answer, byte-order mark kept: none when the input is malformed. -/
def decodeFatal (bytes : List UInt8) : Option (List Char) :=
  if (decodeAll bytes).all Option.isSome then some (decodeAll bytes).reduceOption else none

/-- **Between characters, the bytes of a scalar value emit that scalar value and nothing else.** -/
theorem scan_encodeChar (c : Char) : Scan.scan decodeStep .start (String.utf8EncodeChar c) = (.start, [some c]) := by
  have hr := char_range c
  have hc : Char.ofNat c.toNat = c := Char.ofNat_toNat c
  have hv : c.val.toNat = c.toNat := rfl
  unfold String.utf8EncodeChar
  simp only [hv]
  generalize hn : c.toNat = n at hr hc
  have hb : ∀ m : Nat, m < 256 → (UInt8.ofNat m).toNat = m := fun m h => UInt8.toNat_ofNat_of_lt' h
  split
  · simp [decodeStep, DecoderState.start, lead, hb n (by omega), *]
  split
  · have h0 := hb (n / 64 % 0x20 + 0xc0) (by omega)
    have h1 := hb (n % 0x40 + 0x80) (by omega)
    generalize UInt8.ofNat (n / 64 % 0x20 + 0xc0) = b0 at h0
    generalize UInt8.ofNat (n % 0x40 + 0x80) = b1 at h1
    have l0 : lead b0.toNat = (⟨b0.toNat - 0xC0, 1, 0x80, 0xBF⟩, []) := by
      rw [lead, if_neg (by omega), if_pos (by omega)]
    have e : (b0.toNat - 0xC0) * 64 + (b1.toNat - 0x80) = n := by omega
    have r1 : 0x80 ≤ b1.toNat ∧ b1.toNat ≤ 0xBF := by omega
    simp [decodeStep, DecoderState.start, l0, e, r1, hc]
  split
  · have h0 := hb (n / 4096 % 0x10 + 0xe0) (by omega)
    have h1 := hb (n / 64 % 0x40 + 0x80) (by omega)
    have h2 := hb (n % 0x40 + 0x80) (by omega)
    generalize UInt8.ofNat (n / 4096 % 0x10 + 0xe0) = b0 at h0
    generalize UInt8.ofNat (n / 64 % 0x40 + 0x80) = b1 at h1
    generalize UInt8.ofNat (n % 0x40 + 0x80) = b2 at h2
    have l0 : lead b0.toNat = (⟨b0.toNat - 0xE0, 2, if b0.toNat = 0xE0 then 0xA0 else 0x80,
        if b0.toNat = 0xED then 0x9F else 0xBF⟩, []) := by
      rw [lead, if_neg (by omega), if_neg (by omega), if_pos (by omega)]
    have r1 : (if b0.toNat = 0xE0 then 0xA0 else 0x80) ≤ b1.toNat ∧
        b1.toNat ≤ if b0.toNat = 0xED then 0x9F else 0xBF := by split <;> split <;> omega
    have r2 : 0x80 ≤ b2.toNat ∧ b2.toNat ≤ 0xBF := by omega
    have e : ((b0.toNat - 0xE0) * 64 + (b1.toNat - 0x80)) * 64 + (b2.toNat - 0x80) = n := by omega
    simp [decodeStep, DecoderState.start, l0, e, r1, r2, hc]
  · have h0 := hb (n / 262144 % 0x08 + 0xf0) (by omega)
    have h1 := hb (n / 4096 % 0x40 + 0x80) (by omega)
    have h2 := hb (n / 64 % 0x40 + 0x80) (by omega)
    have h3 := hb (n % 0x40 + 0x80) (by omega)
    generalize UInt8.ofNat (n / 262144 % 0x08 + 0xf0) = b0 at h0
    generalize UInt8.ofNat (n / 4096 % 0x40 + 0x80) = b1 at h1
    generalize UInt8.ofNat (n / 64 % 0x40 + 0x80) = b2 at h2
    generalize UInt8.ofNat (n % 0x40 + 0x80) = b3 at h3
    have l0 : lead b0.toNat = (⟨b0.toNat - 0xF0, 3, if b0.toNat = 0xF0 then 0x90 else 0x80,
        if b0.toNat = 0xF4 then 0x8F else 0xBF⟩, []) := by
      rw [lead, if_neg (by omega), if_neg (by omega), if_neg (by omega), if_pos (by omega)]
    have r1 : (if b0.toNat = 0xF0 then 0x90 else 0x80) ≤ b1.toNat ∧
        b1.toNat ≤ if b0.toNat = 0xF4 then 0x8F else 0xBF := by split <;> split <;> omega
    have r2 : 0x80 ≤ b2.toNat ∧ b2.toNat ≤ 0xBF := by omega
    have r3 : 0x80 ≤ b3.toNat ∧ b3.toNat ≤ 0xBF := by omega
    have e : (((b0.toNat - 0xF0) * 64 + (b1.toNat - 0x80)) * 64 + (b2.toNat - 0x80)) * 64
        + (b3.toNat - 0x80) = n := by omega
    simp [decodeStep, DecoderState.start, l0, e, r1, r2, r3, hc]

theorem scan_encode (cs : List Char) : Scan.scan decodeStep .start (encode cs) = (.start, cs.map some) := by
  induction cs with
  | nil => rfl
  | cons c cs ih => simp [Scan.scan_append, scan_encodeChar, ih]

theorem decodeAll_encode (cs : List Char) : decodeAll (encode cs) = cs.map some := by
  rw [decodeAll, scan_encode]
  simp [decodeEnd, DecoderState.start]

/-- **A fatal decoder reads an encoded text back.** -/
theorem decodeFatal_encode (cs : List Char) : decodeFatal (encode cs) = some cs := by
  simp [decodeFatal, decodeAll_encode, List.reduceOption]

/-! ## ASCII bytes

A byte below 0x80 stands for itself and for nothing else, so a separator can be looked for among
the bytes. -/

theorem mem_encodeChar_ascii {b : UInt8} {c : Char} (hb : b.toNat < 0x80)
    (h : b ∈ String.utf8EncodeChar c) : c.toNat = b.toNat := by
  have hr := char_range c
  have hv : c.val.toNat = c.toNat := rfl
  have hn : ∀ m : Nat, 0x80 ≤ m → m < 256 → b ≠ UInt8.ofNat m := by
    intro m h1 h2 e
    have := congrArg UInt8.toNat e
    rw [UInt8.toNat_ofNat_of_lt' h2] at this
    omega
  unfold String.utf8EncodeChar at h
  simp only [hv] at h
  split at h
  · rw [List.mem_singleton.mp h, UInt8.toNat_ofNat_of_lt' (show c.toNat < 256 by omega)]
  all_goals
    exfalso
    repeat' split at h
    all_goals
      simp only [List.mem_cons, List.not_mem_nil, or_false] at h
      rcases h with h | h
      · exact hn _ (by omega) (by omega) h
      repeat
        first
          | exact hn _ (by omega) (by omega) h
          | rcases h with h | h

theorem mem_encode_ascii {b : UInt8} (hb : b.toNat < 0x80) {cs : List Char} (h : b ∈ encode cs) :
    Char.ofNat b.toNat ∈ cs := by
  obtain ⟨c, hc, hbc⟩ := List.mem_flatMap.mp h
  rw [← mem_encodeChar_ascii hb hbc, Char.ofNat_toNat]
  exact hc

/-! ## Streaming -/

/-- The byte-order mark: a decoder that does not keep it drops it where it comes first. -/
def bomStep (ignoreBOM seen : Bool) (c : Option Char) : Bool × List Char :=
  (true, if !ignoreBOM && !seen && c = some bom then [] else [c.getD replacement])

/-- A lossy `TextDecoder` between two bytes of a stream: its decoder, and whether a first
character has been read. -/
abbrev TextDecoder := DecoderState × Bool

def TextDecoder.start : TextDecoder := (.start, false)

/-- `decode(piece, {stream: true})`, a byte at a time. -/
def textStep (ignoreBOM : Bool) : TextDecoder → UInt8 → TextDecoder × List Char :=
  Scan.comp decodeStep (bomStep ignoreBOM)

/-- The last `decode()`: what the end of the stream emits. -/
def textEnd (ignoreBOM : Bool) (d : TextDecoder) : List Char := (Scan.scan (bomStep ignoreBOM) d.2 (decodeEnd d.1)).2

def decodeText (ignoreBOM : Bool) (bytes : List UInt8) : List Char :=
  (Scan.scan (textStep ignoreBOM) .start bytes).2 ++ textEnd ignoreBOM (Scan.scan (textStep ignoreBOM) .start bytes).1

/-- The stream's malformed sequences each replaced, its byte-order mark kept. -/
def lossy (bytes : List UInt8) : List Char := (decodeAll bytes).map (·.getD replacement)

theorem lossy_encode (cs : List Char) : lossy (encode cs) = cs := by
  rw [lossy, decodeAll_encode, List.map_map]
  exact List.map_id cs

theorem decodeText_eq (ignoreBOM : Bool) (bytes : List UInt8) :
    decodeText ignoreBOM bytes = (Scan.scan (bomStep ignoreBOM) false (decodeAll bytes)).2 := by
  simp [decodeText, textStep, textEnd, TextDecoder.start, Scan.scan_comp, decodeAll, Scan.scan_append]

theorem scan_bomStep_seen (ignoreBOM : Bool) (cs : List (Option Char)) :
    Scan.scan (bomStep ignoreBOM) true cs = (true, cs.map (·.getD replacement)) := by
  induction cs with
  | nil => rfl
  | cons c cs ih => simp [bomStep, ih]

/-- A decoder drops at most one character, and only a byte-order mark that comes first. -/
theorem decodeText_of_head {bytes : List UInt8} (h : (decodeAll bytes).head? ≠ some (some bom)) :
    decodeText false bytes = lossy bytes := by
  rw [decodeText_eq, lossy]
  cases hd : decodeAll bytes with
  | nil => rfl
  | cons c cs =>
    rw [hd] at h
    have hc : c ≠ some bom := by simpa using h
    simp [bomStep, hc, scan_bomStep_seen]

end Utf
