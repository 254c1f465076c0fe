import Mathlib.Data.List.TakeWhile
import Mathlib.Tactic.Linarith

/-!
# Base64

Three bytes are four digits of six bits; what is left over is padded. A decoder reads the digits up
to the padding, four at a time.
-/

namespace Base64

open List

/-! ## Digits -/

def digit (n : Nat) : Char :=
  if n < 26 then Char.ofNat (0x41 + n)
  else if n < 52 then Char.ofNat (0x61 + (n - 26))
  else if n < 62 then Char.ofNat (0x30 + (n - 52))
  else if n = 62 then '+'
  else '/'

def isDigit (c : Char) : Bool := c.isAlphanum || c = '+' || c = '/'

/-- The six bits of a character; a decoder takes the URL alphabet's last two as well. -/
def value (c : Char) : Option Nat :=
  if c.isUpper then some (c.toNat - 0x41)
  else if c.isLower then some (c.toNat - 0x61 + 26)
  else if c.isDigit then some (c.toNat - 0x30 + 52)
  else if c = '+' ∨ c = '-' then some 62
  else if c = '/' ∨ c = '_' then some 63
  else none

theorem value_digit : ∀ n < 64, value (digit n) = some n := by decide

theorem isDigit_digit : ∀ n < 64, isDigit (digit n) = true := by decide

theorem digit_ne_pad : ∀ n < 64, digit n ≠ '=' := by decide

theorem digit_ascii : ∀ n < 64, (digit n).toNat < 0x80 := by decide

theorem isDigit_pad : isDigit '=' = false := by decide

/-! ## Encoding -/

def digits : List UInt8 → List Nat
  | [] => []
  | [a] => [a.toNat / 4, a.toNat % 4 * 16]
  | [a, b] => [a.toNat / 4, a.toNat % 4 * 16 + b.toNat / 16, b.toNat % 16 * 4]
  | a :: b :: c :: rest =>
    a.toNat / 4 :: (a.toNat % 4 * 16 + b.toNat / 16) :: (b.toNat % 16 * 4 + c.toNat / 64) :: c.toNat % 64 :: digits rest

def padding (n : Nat) : List Char := List.replicate ((3 - n % 3) % 3) '='

def encode (bs : List UInt8) : List Char := (digits bs).map digit ++ padding bs.length

/-! ## Decoding -/

/-- The bytes of digits; a digit alone at the end is dropped. -/
def bytes : List Nat → List UInt8
  | a :: b :: c :: d :: rest =>
    UInt8.ofNat (a * 4 + b / 16) :: UInt8.ofNat (b % 16 * 16 + c / 4) :: UInt8.ofNat (c % 4 * 64 + d) :: bytes rest
  | [a, b, c] => [UInt8.ofNat (a * 4 + b / 16), UInt8.ofNat (b % 16 * 16 + c / 4)]
  | [a, b] => [UInt8.ofNat (a * 4 + b / 16)]
  | _ => []

def decode (cs : List Char) : List UInt8 := bytes ((cs.takeWhile (· ≠ '=')).filterMap value)

/-- `/^[A-Za-z0-9+/]*={0,2}$/`. -/
def wellFormed (cs : List Char) : Bool := (cs.dropWhile isDigit).all (· = '=') && (cs.dropWhile isDigit).length ≤ 2

/-! ## The round trip -/

theorem digits_lt (bs : List UInt8) : ∀ n ∈ digits bs, n < 64 := by
  induction bs using digits.induct with
  | case1 => simp [digits]
  | case2 a =>
    have := a.toNat_lt
    simp only [digits, mem_cons, not_mem_nil, or_false]
    rintro n (rfl | rfl) <;> omega
  | case3 a b =>
    have := a.toNat_lt
    have := b.toNat_lt
    simp only [digits, mem_cons, not_mem_nil, or_false]
    rintro n (rfl | rfl | rfl) <;> omega
  | case4 a b c rest ih =>
    have := a.toNat_lt
    have := b.toNat_lt
    have := c.toNat_lt
    simp only [digits, mem_cons]
    rintro n (rfl | rfl | rfl | rfl | h)
    · omega
    · omega
    · omega
    · omega
    · exact ih n h

theorem ofNat_eq {n : Nat} {b : UInt8} (h : n = b.toNat) : UInt8.ofNat n = b := by
  rw [h, UInt8.ofNat_toNat]

theorem bytes_digits (bs : List UInt8) : bytes (digits bs) = bs := by
  induction bs using digits.induct with
  | case1 => rfl
  | case2 a =>
    have ha : UInt8.ofNat (a.toNat / 4 * 4 + a.toNat % 4 * 16 / 16) = a := ofNat_eq (by omega)
    simp only [digits, bytes, ha]
  | case3 a b =>
    have hb := b.toNat_lt
    have h1 : UInt8.ofNat (a.toNat / 4 * 4 + (a.toNat % 4 * 16 + b.toNat / 16) / 16) = a := ofNat_eq (by omega)
    have h2 : UInt8.ofNat ((a.toNat % 4 * 16 + b.toNat / 16) % 16 * 16 + b.toNat % 16 * 4 / 4) = b :=
      ofNat_eq (by omega)
    simp only [digits, bytes, h1, h2]
  | case4 a b c rest ih =>
    have hb := b.toNat_lt
    have hc := c.toNat_lt
    have h1 : UInt8.ofNat (a.toNat / 4 * 4 + (a.toNat % 4 * 16 + b.toNat / 16) / 16) = a := ofNat_eq (by omega)
    have h2 : UInt8.ofNat ((a.toNat % 4 * 16 + b.toNat / 16) % 16 * 16
        + (b.toNat % 16 * 4 + c.toNat / 64) / 4) = b := ofNat_eq (by omega)
    have h3 : UInt8.ofNat ((b.toNat % 16 * 4 + c.toNat / 64) % 4 * 64 + c.toNat % 64) = c := ofNat_eq (by omega)
    simp only [digits, bytes, h1, h2, h3, ih]

theorem takeWhile_encode (bs : List UInt8) : (encode bs).takeWhile (· ≠ '=') = (digits bs).map digit := by
  have hall : ∀ c ∈ (digits bs).map digit, decide (c ≠ '=') = true := by
    intro c hc
    obtain ⟨n, hn, rfl⟩ := mem_map.mp hc
    exact decide_eq_true (digit_ne_pad n (digits_lt bs n hn))
  rw [encode, takeWhile_append_of_pos hall]
  have : (padding bs.length).takeWhile (· ≠ '=') = [] := by
    unfold padding
    cases (3 - bs.length % 3) % 3 with
    | zero => rfl
    | succ n => simp [replicate_succ]
  rw [this, append_nil]

theorem filterMap_value {digit : Nat → Char} (hdigit : ∀ n < 64, value (digit n) = some n)
    {ns : List Nat} (h : ∀ n ∈ ns, n < 64) : (ns.map digit).filterMap value = ns := by
  induction ns with
  | nil => rfl
  | cons n ns ih => rw [map_cons, filterMap_cons, hdigit n (h n (by simp)), ih fun m hm => h m (by simp [hm])]

/-- **What is encoded is decoded.** -/
theorem decode_encode (bs : List UInt8) : decode (encode bs) = bs := by
  rw [decode, takeWhile_encode, filterMap_value value_digit (digits_lt bs), bytes_digits]

theorem wellFormed_encode (bs : List UInt8) : wellFormed (encode bs) = true := by
  have hall : ∀ c ∈ (digits bs).map digit, isDigit c = true := by
    intro c hc
    obtain ⟨n, hn, rfl⟩ := mem_map.mp hc
    exact isDigit_digit n (digits_lt bs n hn)
  have hdrop : (encode bs).dropWhile isDigit = padding bs.length := by
    rw [encode, dropWhile_append_of_pos hall]
    unfold padding
    cases (3 - bs.length % 3) % 3 with
    | zero => rfl
    | succ n => simp [replicate_succ, isDigit_pad]
  simp only [wellFormed, hdrop, padding, all_replicate, length_replicate]
  simp
  omega

theorem encode_ascii (bs : List UInt8) : ∀ c ∈ encode bs, c.toNat < 0x80 := by
  intro c hc
  rcases mem_append.mp hc with hc | hc
  · obtain ⟨n, hn, rfl⟩ := mem_map.mp hc
    exact digit_ascii n (digits_lt bs n hn)
  · rw [eq_of_mem_replicate hc]
    decide

theorem length_digits (bs : List UInt8) : (digits bs).length = bs.length + (bs.length + 2) / 3 := by
  induction bs using digits.induct with
  | case1 => rfl
  | case2 a => simp [digits]
  | case3 a b => simp [digits]
  | case4 a b c rest ih =>
    simp only [digits, length_cons, ih]
    omega

theorem length_encode (bs : List UInt8) : (encode bs).length = (bs.length + 2) / 3 * 4 := by
  simp only [encode, padding, length_append, length_map, length_replicate, length_digits]
  omega

/-! ## The URL alphabet -/

/-- `base64url`: the last two digits are others, and nothing is padded. -/
def digitUrl (n : Nat) : Char := if n = 62 then '-' else if n = 63 then '_' else digit n

def encodeUrl (bs : List UInt8) : List Char := (digits bs).map digitUrl

theorem value_digitUrl : ∀ n < 64, value (digitUrl n) = some n := by decide

theorem digitUrl_ne_pad : ∀ n < 64, digitUrl n ≠ '=' := by decide

theorem decode_encodeUrl (bs : List UInt8) : decode (encodeUrl bs) = bs := by
  have hlt := digits_lt bs
  have htake : (encodeUrl bs).takeWhile (· ≠ '=') = encodeUrl bs := by
    rw [takeWhile_eq_self_iff]
    intro c hc
    obtain ⟨n, hn, rfl⟩ := mem_map.mp hc
    exact decide_eq_true (digitUrl_ne_pad n (hlt n hn))
  rw [decode, htake, encodeUrl, filterMap_value value_digitUrl hlt, bytes_digits]

end Base64
