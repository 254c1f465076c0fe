import Mathlib.Data.List.TakeWhile
import Reins.Lib.Utf

/-!
# JSON text

`JSON.stringify` and `JSON.parse` over texts. A string value is a list of code units: a surrogate
that pairs with nothing is written as an escape, so the text is always a text. A number is the
literal it is written as, and `toInt?` says which integer, if any, the literal denotes. An object
is its members in order; `member?` reads the last one of a name, as `JSON.parse` keeps it.

`parse_stringify` is the round trip. It is proved with the rest of the input generalised: a value
is read off the front of any input that does not go on with another digit of a number.
-/

open Utf List Option

/-! ## Values -/

/-- The number literals of the grammar, taken apart. -/
structure NumberParts where
  negative : Bool
  int : List Char
  frac : List Char
  exp : Int

/-- A sign where the grammar allows one: whether it is a minus, and what follows. -/
def takeSign : List Char → Bool × List Char
  | '-' :: r => (true, r)
  | '+' :: r => (false, r)
  | r => (false, r)

/-- The exponent part, all of the rest. -/
def readExp : List Char → Option Int
  | [] => some 0
  | e :: r =>
    if e = 'e' ∨ e = 'E' then
      let ds := (takeSign r).2
      if ds ≠ [] ∧ ds.all Char.isDigit then
        let n : Int := Nat.ofDigitChars 10 ds 0
        some (if (takeSign r).1 then -n else n)
      else none
    else none

/-- The fraction and exponent parts, all of the rest. -/
def readFrac (negative : Bool) (int : List Char) (s : List Char) : Option NumberParts :=
  match s with
  | '.' :: r =>
    if r.takeWhile Char.isDigit = [] then none
    else (readExp (r.dropWhile Char.isDigit)).map fun e => ⟨negative, int, r.takeWhile Char.isDigit, e⟩
  | r => (readExp r).map fun e => ⟨negative, int, [], e⟩

def readInt (negative : Bool) (s : List Char) : Option NumberParts :=
  let int := s.takeWhile Char.isDigit
  if int = [] ∨ (int.head? = some '0' ∧ int ≠ ['0']) then none
  else readFrac negative int (s.dropWhile Char.isDigit)

/-- A number literal taken apart: none when it is not one. -/
def numberParts : List Char → Option NumberParts
  | '-' :: r => readInt true r
  | r => readInt false r

structure NumberLit where
  lit : List Char
  ok : (numberParts lit).isSome = true
  deriving DecidableEq

inductive Json
  | null
  | bool (b : Bool)
  | num (n : NumberLit)
  | str (s : List UInt16)
  | arr (xs : List Json)
  | obj (ms : List (List UInt16 × Json))

/-- The integer a literal denotes: none when it is no integer. A literal with an exponent past
every double is none. -/
def NumberLit.toInt? (n : NumberLit) : Option Int :=
  match numberParts n.lit with
  | none => none
  | some p =>
    let c := Nat.ofDigitChars 10 (p.int ++ p.frac) 0
    let e := p.exp - p.frac.length
    let sign : Int := if p.negative then -1 else 1
    if c = 0 then some 0
    else if 400 < e then none
    else if 0 ≤ e then some (sign * c * 10 ^ e.toNat)
    else if (p.int ++ p.frac).length < (-e).toNat then none
    else if c % 10 ^ (-e).toNat = 0 then some (sign * (c / 10 ^ (-e).toNat : Nat)) else none

namespace Json

/-! ## Writing -/

/-- A code unit as `\x5cuXXXX`. -/
def hexEscape (u : UInt16) : List Char :=
  ['\\', 'u', (u.toNat / 4096).digitChar, (u.toNat / 256 % 16).digitChar,
    (u.toNat / 16 % 16).digitChar, (u.toNat % 16).digitChar]

/-- A code unit that is no half of a pair. -/
def escapeUnit (u : UInt16) : List Char :=
  if u = 0x22 then ['\\', '"']
  else if u = 0x5C then ['\\', '\\']
  else if u = 0x08 then ['\\', 'b']
  else if u = 0x09 then ['\\', 't']
  else if u = 0x0A then ['\\', 'n']
  else if u = 0x0C then ['\\', 'f']
  else if u = 0x0D then ['\\', 'r']
  else if u.toNat < 0x20 ∨ isHigh u ∨ isLow u then hexEscape u
  else [Char.ofNat u.toNat]

def escape : List UInt16 → List Char
  | [] => []
  | [u] => escapeUnit u
  | u :: v :: rest =>
    if isHigh u && isLow v then joinPair u v :: escape rest
    else escapeUnit u ++ escape (v :: rest)

def quote (s : List UInt16) : List Char := '"' :: escape s ++ ['"']

mutual

def stringify : Json → List Char
  | .null => ['n', 'u', 'l', 'l']
  | .bool true => ['t', 'r', 'u', 'e']
  | .bool false => ['f', 'a', 'l', 's', 'e']
  | .num n => n.lit
  | .str s => quote s
  | .arr [] => ['[', ']']
  | .arr (x :: xs) => '[' :: stringify x ++ stringifyElems xs
  | .obj [] => ['{', '}']
  | .obj ((k, x) :: ms) => '{' :: quote k ++ ':' :: stringify x ++ stringifyMembers ms

/-- The elements after the first, and the bracket. -/
def stringifyElems : List Json → List Char
  | [] => [']']
  | x :: xs => ',' :: stringify x ++ stringifyElems xs

def stringifyMembers : List (List UInt16 × Json) → List Char
  | [] => ['}']
  | (k, x) :: ms => ',' :: quote k ++ ':' :: stringify x ++ stringifyMembers ms

end

/-! ## Reading -/

def isSpace (c : Char) : Bool := c = ' ' || c = '\t' || c = '\n' || c = '\r'

def skipSpace (s : List Char) : List Char := s.dropWhile isSpace

def hexVal (c : Char) : Option Nat :=
  if c.isDigit then some (c.toNat - 48)
  else if 'a' ≤ c ∧ c ≤ 'f' then some (c.toNat - 87)
  else if 'A' ≤ c ∧ c ≤ 'F' then some (c.toNat - 55)
  else none

/-- The four digits of a `\x5cu` escape. -/
def readHex (a b c d : Char) : Option UInt16 :=
  match hexVal a, hexVal b, hexVal c, hexVal d with
  | some a, some b, some c, some d => some (UInt16.ofNat (((a * 16 + b) * 16 + c) * 16 + d))
  | _, _, _, _ => none

/-- The unit a one-letter escape stands for. -/
def unescape (c : Char) : Option UInt16 :=
  if c = '"' then some 0x22
  else if c = '\\' then some 0x5C
  else if c = '/' then some 0x2F
  else if c = 'b' then some 0x08
  else if c = 't' then some 0x09
  else if c = 'n' then some 0x0A
  else if c = 'f' then some 0x0C
  else if c = 'r' then some 0x0D
  else none

/-- A string after its opening quote, up to its closing one. -/
def parseString : List Char → Option (List UInt16 × List Char)
  | [] => none
  | '"' :: rest => some ([], rest)
  | '\\' :: 'u' :: a :: b :: c :: d :: rest =>
    match readHex a b c d with
    | some u => (parseString rest).map fun r => (u :: r.1, r.2)
    | none => none
  | '\\' :: e :: rest =>
    match unescape e with
    | some u => (parseString rest).map fun r => (u :: r.1, r.2)
    | none => none
  | c :: rest =>
    if c = '\\' ∨ c.toNat < 0x20 then none
    else (parseString rest).map fun r => (units c ++ r.1, r.2)

def isNumberChar (c : Char) : Bool := c.isDigit || c = '+' || c = '-' || c = '.' || c = 'e' || c = 'E'

def parseNumber (s : List Char) : Option (Json × List Char) :=
  if h : (numberParts (s.takeWhile isNumberChar)).isSome then
    some (.num ⟨s.takeWhile isNumberChar, h⟩, s.dropWhile isNumberChar)
  else none

mutual

def parseValue : Nat → List Char → Option (Json × List Char)
  | 0, _ => none
  | f + 1, s =>
    match skipSpace s with
    | '{' :: r =>
      match skipSpace r with
      | '}' :: r => some (.obj [], r)
      | r => (parseMember f r).bind fun m => (parseMembers f m.2).map fun ms => (.obj (m.1 :: ms.1), ms.2)
    | '[' :: r =>
      match skipSpace r with
      | ']' :: r => some (.arr [], r)
      | r => (parseValue f r).bind fun x => (parseElems f x.2).map fun xs => (.arr (x.1 :: xs.1), xs.2)
    | '"' :: r => (parseString r).map fun t => (.str t.1, t.2)
    | 'n' :: 'u' :: 'l' :: 'l' :: r => some (.null, r)
    | 't' :: 'r' :: 'u' :: 'e' :: r => some (.bool true, r)
    | 'f' :: 'a' :: 'l' :: 's' :: 'e' :: r => some (.bool false, r)
    | r => parseNumber r

/-- The elements after one, and the bracket. -/
def parseElems : Nat → List Char → Option (List Json × List Char)
  | 0, _ => none
  | f + 1, s =>
    match skipSpace s with
    | ']' :: r => some ([], r)
    | ',' :: r => (parseValue f r).bind fun x => (parseElems f x.2).map fun xs => (x.1 :: xs.1, xs.2)
    | _ => none

def parseMembers : Nat → List Char → Option (List (List UInt16 × Json) × List Char)
  | 0, _ => none
  | f + 1, s =>
    match skipSpace s with
    | '}' :: r => some ([], r)
    | ',' :: r => (parseMember f r).bind fun m => (parseMembers f m.2).map fun ms => (m.1 :: ms.1, ms.2)
    | _ => none

def parseMember : Nat → List Char → Option ((List UInt16 × Json) × List Char)
  | 0, _ => none
  | f + 1, s =>
    match skipSpace s with
    | '"' :: r => (parseString r).bind fun k =>
        match skipSpace k.2 with
        | ':' :: r => (parseValue f r).map fun x => ((k.1, x.1), x.2)
        | _ => none
    | _ => none

end

def parse (s : List Char) : Option Json :=
  match parseValue s.length s with
  | some (v, r) => if skipSpace r = [] then some v else none
  | none => none

/-! ## The round trip -/

theorem hexVal_digitChar : ∀ n, n < 16 → hexVal n.digitChar = some n := by decide

theorem readHex_escape (u : UInt16) : readHex (u.toNat / 4096).digitChar (u.toNat / 256 % 16).digitChar
      (u.toNat / 16 % 16).digitChar (u.toNat % 16).digitChar = some u := by
  have hu : u.toNat < 65536 := u.toNat_lt
  rw [readHex, hexVal_digitChar _ (by omega), hexVal_digitChar _ (by omega),
    hexVal_digitChar _ (by omega), hexVal_digitChar _ (by omega)]
  have e : ((u.toNat / 4096 * 16 + u.toNat / 256 % 16) * 16 + u.toNat / 16 % 16) * 16
      + u.toNat % 16 = u.toNat := by omega
  simp [e]

/-- A character that needs no escape is read as its code units. -/
theorem parseString_plain {c : Char} (h1 : c ≠ '"') (h2 : c ≠ '\\') (h3 : ¬ c.toNat < 0x20) (r : List Char) :
    parseString (c :: r) = (parseString r).map fun t => (units c ++ t.1, t.2) := by
  rw [parseString.eq_def]
  split
  next h =>
    exact absurd h (cons_ne_nil _ _)
  next h =>
    exact absurd (List.cons.inj h).1 h1
  next h =>
    exact absurd (List.cons.inj h).1 h2
  next h =>
    exact absurd (List.cons.inj h).1 h2
  next h =>
    cases h
    rw [if_neg (not_or.mpr ⟨h2, h3⟩)]

theorem parseString_escapeUnit (u : UInt16) (r : List Char) :
    parseString (escapeUnit u ++ r) = (parseString r).map fun t => (u :: t.1, t.2) := by
  unfold escapeUnit
  split_ifs with h1 h2 h3 h4 h5 h6 h7 h
  iterate 7
    subst_vars
    simp [parseString, unescape]
  · simp [hexEscape, parseString, readHex_escape]
  -- A unit that stands for itself.
  simp only [isHigh, isLow, not_or, Bool.and_eq_true, decide_eq_true_eq] at h
  have hu : u.toNat < 65536 := u.toNat_lt
  have hn : (Char.ofNat u.toNat).toNat = u.toNat := toNat_charOfNat (by omega)
  have hne : ∀ c : Char, u ≠ UInt16.ofNat c.toNat → Char.ofNat u.toNat ≠ c := by
    intro c hc e
    rw [← e, hn, UInt16.ofNat_toNat] at hc
    exact hc rfl
  have hunits : units (Char.ofNat u.toNat) = [u] := by
    rw [units, hn, if_pos hu, UInt16.ofNat_toNat]
  rw [singleton_append, parseString_plain (hne _ h1) (hne _ h2) (by omega), hunits]
  rfl

theorem units_joinPair {u v : UInt16} (hu : isHigh u = true) (hv : isLow v = true) : units (joinPair u v) = [u, v] := by
  simp only [isHigh, isLow, Bool.and_eq_true, decide_eq_true_eq] at hu hv
  have hn : (joinPair u v).toNat = 0x10000 + (u.toNat - 0xD800) * 0x400 + (v.toNat - 0xDC00) := by
    rw [joinPair, toNat_charOfNat]; omega
  rw [units, hn, if_neg (by omega)]
  have e1 : 0xD800 + (0x10000 + (u.toNat - 0xD800) * 0x400 + (v.toNat - 0xDC00) - 0x10000) / 0x400 = u.toNat := by omega
  have e2 : 0xDC00 + (0x10000 + (u.toNat - 0xD800) * 0x400 + (v.toNat - 0xDC00) - 0x10000) % 0x400 = v.toNat := by omega
  rw [e1, e2, UInt16.ofNat_toNat, UInt16.ofNat_toNat]

theorem parseString_escape (s : List UInt16) (r : List Char) : parseString (escape s ++ '"' :: r) = some (s, r) := by
  induction s using escape.induct with
  | case1 => simp [escape, parseString]
  | case2 u => rw [escape, parseString_escapeUnit]; simp [parseString]
  | case3 u v rest hp ih =>
    rw [escape, if_pos hp, cons_append]
    rw [Bool.and_eq_true] at hp
    have hn : 0x10000 ≤ (joinPair u v).toNat := by
      have hp' := hp
      simp only [isHigh, isLow, Bool.and_eq_true, decide_eq_true_eq] at hp'
      rw [joinPair, toNat_charOfNat] <;> omega
    have hne : ∀ c : Char, c.toNat < 0x10000 → joinPair u v ≠ c := by
      rintro c hc rfl
      omega
    rw [parseString_plain (hne _ (by decide)) (hne _ (by decide)) (by omega), ih, units_joinPair hp.1 hp.2]
    rfl
  | case4 u v rest hp ih =>
    rw [escape, if_neg hp, append_assoc, parseString_escapeUnit, ih]
    rfl

/-! ### Number literals -/

theorem isNumberChar_of_isDigit {c : Char} (h : c.isDigit = true) : isNumberChar c = true := by
  simp [isNumberChar, h]

theorem mem_takeWhile_or_dropWhile {s : List Char} {c : Char} (h : c ∈ s) :
    c.isDigit = true ∨ c ∈ s.dropWhile Char.isDigit := by
  rw [← takeWhile_append_dropWhile (p := Char.isDigit) (l := s), mem_append] at h
  exact h.imp (fun h => mem_takeWhile_imp h) id

theorem readExp_chars {s : List Char} {e : Int} (h : readExp s = some e) : ∀ c ∈ s, isNumberChar c = true := by
  cases s with
  | nil => simp
  | cons x r =>
    simp only [readExp] at h
    split at h
    next hx =>
      split at h
      next hd =>
        have hr : ∀ c ∈ r, c = '-' ∨ c = '+' ∨ c.isDigit = true := by
          intro c hc
          have hall := all_eq_true.mp hd.2
          unfold takeSign at hall
          split at hall
          · rcases mem_cons.mp hc with rfl | hc
            · exact Or.inl rfl
            · exact Or.inr (Or.inr (hall c hc))
          · rcases mem_cons.mp hc with rfl | hc
            · exact Or.inr (Or.inl rfl)
            · exact Or.inr (Or.inr (hall c hc))
          · exact Or.inr (Or.inr (hall c hc))
        intro c hc
        rcases mem_cons.mp hc with rfl | hc
        · rcases hx with rfl | rfl <;> rfl
        rcases hr c hc with rfl | rfl | hc
        · rfl
        · rfl
        · exact isNumberChar_of_isDigit hc
      · cases h
    · cases h

theorem readFrac_chars {n : Bool} {i s : List Char} {p : NumberParts}
    (h : readFrac n i s = some p) : ∀ c ∈ s, isNumberChar c = true := by
  unfold readFrac at h
  split at h
  next r =>
    split at h
    · cases h
    obtain ⟨e, he, -⟩ := map_eq_some_iff.mp h
    intro c hc
    rcases mem_cons.mp hc with rfl | hc
    · rfl
    · exact (mem_takeWhile_or_dropWhile hc).elim isNumberChar_of_isDigit (readExp_chars he c)
  · obtain ⟨e, he, -⟩ := map_eq_some_iff.mp h
    exact readExp_chars he

theorem readInt_chars {n : Bool} {s : List Char} {p : NumberParts} (h : readInt n s = some p) :
    (∀ c ∈ s, isNumberChar c = true) ∧ ∃ c t, s = c :: t ∧ c.isDigit = true := by
  simp only [readInt] at h
  split at h
  · cases h
  rename_i hint
  refine ⟨fun c hc => (mem_takeWhile_or_dropWhile hc).elim isNumberChar_of_isDigit (readFrac_chars h c), ?_⟩
  cases s with
  | nil => exact absurd (Or.inl rfl) hint
  | cons x r =>
    refine ⟨x, r, rfl, ?_⟩
    by_contra hd
    exact hint (Or.inl (by simp [hd]))

/-- A literal is made of number characters, and starts with a digit or a minus. -/
theorem numberParts_chars {s : List Char} (h : (numberParts s).isSome = true) :
    (∀ c ∈ s, isNumberChar c = true) ∧ ∃ c t, s = c :: t ∧ (c.isDigit = true ∨ c = '-') := by
  obtain ⟨p, hp⟩ := isSome_iff_exists.mp h
  unfold numberParts at hp
  split at hp
  next r =>
    refine ⟨fun c hc => ?_, '-', r, rfl, Or.inr rfl⟩
    rcases mem_cons.mp hc with rfl | hc
    · rfl
    · exact (readInt_chars hp).1 c hc
  · obtain ⟨hall, c, t, e, hd⟩ := readInt_chars hp
    exact ⟨hall, c, t, e, Or.inl hd⟩

def NoNumber (r : List Char) : Prop := ∀ c ∈ r.head?, isNumberChar c = false

theorem parseNumber_lit (n : NumberLit) {r : List Char} (hr : NoNumber r) :
    parseNumber (n.lit ++ r) = some (.num n, r) := by
  have hall := (numberParts_chars n.ok).1
  have hstop : r.takeWhile isNumberChar = [] ∧ r.dropWhile isNumberChar = r := by
    cases r with
    | nil => exact ⟨rfl, rfl⟩
    | cons c r =>
      have hc : isNumberChar c = false := hr c (by simp)
      simp [hc]
  have ht : (n.lit ++ r).takeWhile isNumberChar = n.lit := by
    rw [takeWhile_append_of_pos hall, hstop.1, append_nil]
  have hd : (n.lit ++ r).dropWhile isNumberChar = r := by
    rw [dropWhile_append_of_pos hall, hstop.2]
  have h : (numberParts ((n.lit ++ r).takeWhile isNumberChar)).isSome = true := by
    rw [ht]
    exact n.ok
  rw [parseNumber, dif_pos h]
  simp [ht, hd]

/-! ### Values -/

theorem skipSpace_cons {c : Char} (h : isSpace c = false) (r : List Char) : skipSpace (c :: r) = c :: r := by
  simp [skipSpace, h]

theorem stringify_head (v : Json) : ∃ c t, stringify v = c :: t ∧ isSpace c = false ∧ c ≠ ']' := by
  match v with
  | .null => exact ⟨_, _, rfl, rfl, by decide⟩
  | .bool true => exact ⟨_, _, rfl, rfl, by decide⟩
  | .bool false => exact ⟨_, _, rfl, rfl, by decide⟩
  | .num n =>
    obtain ⟨-, c, t, e, hc⟩ := numberParts_chars n.ok
    refine ⟨c, t, e, ?_, ?_⟩
    · cases hs : isSpace c with
      | false => rfl
      | true =>
        simp only [isSpace, Bool.or_eq_true, decide_eq_true_eq] at hs
        rcases hs with ((rfl | rfl) | rfl) | rfl <;> exact absurd hc (by decide)
    · rintro rfl
      exact absurd hc (by decide)
  | .str s => exact ⟨_, _, rfl, rfl, by decide⟩
  | .arr [] => exact ⟨_, _, rfl, rfl, by decide⟩
  | .arr (x :: xs) => exact ⟨'[', _, by rw [stringify]; rfl, rfl, by decide⟩
  | .obj [] => exact ⟨_, _, rfl, rfl, by decide⟩
  | .obj ((k, x) :: ms) => exact ⟨'{', _, by rw [stringify]; rfl, rfl, by decide⟩

theorem stringifyElems_noNumber (xs : List Json) (r : List Char) : NoNumber (stringifyElems xs ++ r) := by
  cases xs <;> simp [stringifyElems, NoNumber, isNumberChar]

theorem stringifyMembers_noNumber (ms : List (List UInt16 × Json)) (r : List Char) :
    NoNumber (stringifyMembers ms ++ r) := by
  rcases ms with _ | ⟨⟨k, x⟩, ms⟩ <;> simp [stringifyMembers, NoNumber, isNumberChar]

theorem parseValue_num {f : Nat} {c : Char} {t : List Char} (hc : c.isDigit = true ∨ c = '-') :
    parseValue (f + 1) (c :: t) = parseNumber (c :: t) := by
  have hs : skipSpace (c :: t) = c :: t := by
    refine skipSpace_cons ?_ t
    cases hs : isSpace c with
    | false => rfl
    | true =>
      simp only [isSpace, Bool.or_eq_true, decide_eq_true_eq] at hs
      rcases hs with ((rfl | rfl) | rfl) | rfl <;> exact absurd hc (by decide)
  rw [parseValue, hs]
  split
  case h_7 => rfl
  all_goals
    rename_i e
    cases e
    exact absurd hc (by decide)

theorem parseMember_text {f : Nat} {k : List UInt16} {v : Json} {x r : List Char}
    (hv : parseValue f (x ++ r) = some (v, r)) :
    parseMember (f + 1) (quote k ++ ':' :: x ++ r) = some ((k, v), r) := by
  have h1 : quote k ++ ':' :: x ++ r = '"' :: (escape k ++ '"' :: ':' :: (x ++ r)) := by
    simp [quote]
  rw [h1, parseMember, skipSpace_cons (by decide)]
  simp [parseString_escape, skipSpace_cons (show isSpace ':' = false by decide), hv]

mutual

/-- **A value is read off the front of its own text**, whatever comes after it, as long as that
does not go on with its last number. -/
theorem parseValue_stringify (v : Json) (f : Nat) (r : List Char) (hf : (stringify v).length ≤ f)
    (hr : NoNumber r) : parseValue f (stringify v ++ r) = some (v, r) := by
  cases f with
  | zero =>
    obtain ⟨c, t, e, -⟩ := stringify_head v
    rw [e] at hf
    cases hf
  | succ f =>
    match v with
    | .null => rfl
    | .bool true => rfl
    | .bool false => rfl
    | .num n =>
      obtain ⟨-, c, t, e, hc⟩ := numberParts_chars n.ok
      have hp := parseNumber_lit n hr
      rw [stringify]
      rw [e] at hp ⊢
      rw [cons_append, parseValue_num hc]
      exact hp
    | .str s =>
      have h1 : stringify (.str s) ++ r = '"' :: (escape s ++ '"' :: r) := by
        simp [stringify, quote]
      rw [h1, parseValue, skipSpace_cons (by decide)]
      simp [parseString_escape]
    | .arr [] => rfl
    | .arr (x :: xs) =>
      have h1 : stringify (.arr (x :: xs)) ++ r
          = '[' :: (stringify x ++ (stringifyElems xs ++ r)) := by simp [stringify]
      have hl : (stringify x).length + (stringifyElems xs).length ≤ f := by
        simp only [stringify, cons_append, length_cons, length_append] at hf
        omega
      have hx := parseValue_stringify x f (stringifyElems xs ++ r) (by omega) (stringifyElems_noNumber xs r)
      have hxs := parseElems_stringify xs f r (by omega)
      obtain ⟨c, t, e, hs, hc⟩ := stringify_head x
      rw [h1, parseValue, skipSpace_cons (by decide)]
      rw [e, cons_append] at hx ⊢
      simp only [skipSpace_cons hs]
      split
      next e' =>
        cases e'
        exact absurd rfl hc
      · simp [hx, hxs]
    | .obj [] => rfl
    | .obj ((k, x) :: ms) =>
      have h1 : stringify (.obj ((k, x) :: ms)) ++ r
          = '{' :: (quote k ++ ':' :: stringify x ++ (stringifyMembers ms ++ r)) := by
        simp [stringify]
      have hl : (stringify x).length + (stringifyMembers ms).length + 3 ≤ f := by
        simp only [stringify, quote, cons_append, length_cons, length_append] at hf
        omega
      obtain ⟨f, rfl⟩ : ∃ g, f = g + 1 := ⟨f - 1, by omega⟩
      have hx := parseValue_stringify x f (stringifyMembers ms ++ r) (by omega) (stringifyMembers_noNumber ms r)
      have hm := parseMember_text (k := k) hx
      have hms := parseMembers_stringify ms (f + 1) r (by omega)
      rw [h1, parseValue, skipSpace_cons (by decide)]
      have hq : skipSpace (quote k ++ ':' :: stringify x ++ (stringifyMembers ms ++ r))
          = quote k ++ ':' :: stringify x ++ (stringifyMembers ms ++ r) := by
        simp only [quote, cons_append]
        exact skipSpace_cons (by decide) _
      simp only [hq]
      split
      next e =>
        simp [quote] at e
      · simp only [hm, bind_some, hms, map_some]

theorem parseElems_stringify (xs : List Json) (f : Nat) (r : List Char) (hf : (stringifyElems xs).length ≤ f) :
    parseElems f (stringifyElems xs ++ r) = some (xs, r) := by
  match xs, f with
  | [], 0 => exact absurd hf (by simp [stringifyElems])
  | [], f + 1 => rfl
  | x :: xs, 0 => exact absurd hf (by simp [stringifyElems])
  | x :: xs, f + 1 =>
    have h1 : stringifyElems (x :: xs) ++ r = ',' :: (stringify x ++ (stringifyElems xs ++ r)) := by
      simp [stringifyElems]
    have hl : (stringify x).length + (stringifyElems xs).length ≤ f := by
      simp only [stringifyElems, cons_append, length_cons, length_append] at hf
      omega
    have hx := parseValue_stringify x f (stringifyElems xs ++ r) (by omega) (stringifyElems_noNumber xs r)
    have hxs := parseElems_stringify xs f r (by omega)
    rw [h1, parseElems, skipSpace_cons (by decide)]
    simp only [hx, bind_some, hxs, map_some]

theorem parseMembers_stringify (ms : List (List UInt16 × Json)) (f : Nat) (r : List Char)
    (hf : (stringifyMembers ms).length ≤ f) :
    parseMembers f (stringifyMembers ms ++ r) = some (ms, r) := by
  match ms, f with
  | [], 0 => exact absurd hf (by simp [stringifyMembers])
  | [], f + 1 => rfl
  | (k, x) :: ms, 0 => exact absurd hf (by simp [stringifyMembers])
  | (k, x) :: ms, f + 1 =>
    have h1 : stringifyMembers ((k, x) :: ms) ++ r
        = ',' :: (quote k ++ ':' :: stringify x ++ (stringifyMembers ms ++ r)) := by
      simp [stringifyMembers]
    have hl : (stringify x).length + (stringifyMembers ms).length + 3 ≤ f := by
      simp only [stringifyMembers, quote, cons_append, length_cons, length_append] at hf
      omega
    obtain ⟨f, rfl⟩ : ∃ g, f = g + 1 := ⟨f - 1, by omega⟩
    have hx := parseValue_stringify x f (stringifyMembers ms ++ r) (by omega) (stringifyMembers_noNumber ms r)
    have hm := parseMember_text (k := k) hx
    have hms := parseMembers_stringify ms (f + 1) r (by omega)
    rw [h1, parseMembers, skipSpace_cons (by decide)]
    simp only [hm, bind_some, hms, map_some]

end

/-- **`JSON.parse` reads back what `JSON.stringify` writes.** -/
theorem parse_stringify (v : Json) : parse (stringify v) = some v := by
  have h := parseValue_stringify v (stringify v).length [] (le_refl _) (by simp [NoNumber])
  rw [append_nil] at h
  rw [parse, h]
  rfl

/-! ### Integers -/

theorem takeWhile_toDigits (n : Nat) : (Nat.toDigits 10 n).takeWhile Char.isDigit = Nat.toDigits 10 n ∧
      (Nat.toDigits 10 n).dropWhile Char.isDigit = [] := by
  have h : ∀ c ∈ Nat.toDigits 10 n, c.isDigit = true := fun c hc => Nat.isDigit_of_mem_toDigits (by omega) (by omega) hc
  exact ⟨takeWhile_eq_self_iff.mpr h, dropWhile_eq_nil_iff.mpr h⟩

theorem head_toDigits (n : Nat) (h : (Nat.toDigits 10 n).head? = some '0') : Nat.toDigits 10 n = ['0'] := by
  induction n using Nat.strong_induction_on with
  | _ n ih =>
    rcases Nat.lt_or_ge n 10 with hn | hn
    · rw [Nat.toDigits_of_lt_base hn] at h ⊢
      rw [head?_singleton] at h
      rw [Option.some.inj h]
    rw [Nat.toDigits_of_base_le (by omega) hn] at h
    have hne : Nat.toDigits 10 (n / 10) ≠ [] := Nat.toDigits_ne_nil
    rw [head?_append_of_ne_nil _ hne] at h
    have h0 := congrArg (Nat.ofDigitChars 10 · 0) (ih (n / 10) (by omega) h)
    simp only [Nat.ofDigitChars_ten_toDigits] at h0
    have : n / 10 = 0 := h0
    omega

theorem readInt_toDigits (negative : Bool) (n : Nat) :
    readInt negative (Nat.toDigits 10 n) = some ⟨negative, Nat.toDigits 10 n, [], 0⟩ := by
  rw [readInt, (takeWhile_toDigits n).1, (takeWhile_toDigits n).2, if_neg]
  · rfl
  rintro (h | ⟨h, hne⟩)
  · exact Nat.toDigits_ne_nil h
  · exact hne (head_toDigits n h)

def intLit (i : Int) : List Char := if i < 0 then '-' :: Nat.toDigits 10 i.natAbs else Nat.toDigits 10 i.natAbs

theorem numberParts_intLit (i : Int) :
    numberParts (intLit i) = some ⟨decide (i < 0), Nat.toDigits 10 i.natAbs, [], 0⟩ := by
  unfold intLit
  split
  next h =>
    rw [numberParts, readInt_toDigits, decide_eq_true h]
  rename_i h
  have hne : ∀ r, Nat.toDigits 10 i.natAbs ≠ '-' :: r := by
    intro r e
    have : '-'.isDigit = true :=
      Nat.isDigit_of_mem_toDigits (b := 10) (n := i.natAbs) (by omega) (by omega) (by simp [e])
    cases this
  rw [numberParts, readInt_toDigits, decide_eq_false h]
  exact hne

/-- `JSON.stringify` of an integer. -/
def ofInt (i : Int) : Json := .num ⟨intLit i, by rw [numberParts_intLit]; rfl⟩

/-- The integer a value is, if any. -/
def toInt? : Json → Option Int
  | .num n => n.toInt?
  | _ => none

@[simp] theorem toInt?_ofInt (i : Int) : (ofInt i).toInt? = some i := by
  simp only [ofInt, toInt?, NumberLit.toInt?, numberParts_intLit, append_nil,
    Nat.ofDigitChars_ten_toDigits, length_nil]
  split
  next h =>
    rw [Int.natAbs_eq_zero.mp h]
  rcases Int.lt_or_le i 0 with h | h
  · have hi : -1 * (i.natAbs : Int) * 1 = i := by omega
    simp only [decide_eq_true h, if_true]
    exact congrArg some hi
  have hi : 1 * (i.natAbs : Int) * 1 = i := by omega
  simp only [decide_eq_false (Int.not_lt.mpr h), Bool.false_eq_true, if_false]
  exact congrArg some hi

/-! ### Text -/

/-- The last member of a name, which is the one `JSON.parse` keeps. -/
def member? (name : List UInt16) : List (List UInt16 × Json) → Option Json
  | [] => none
  | (k, v) :: ms => (member? name ms).or (if k = name then some v else none)

theorem visible_of_all (cs : List Char) (h : cs.all (fun c => 0x20 ≤ c.toNat) = true) :
    ∀ c ∈ cs, 0x20 ≤ c.toNat := fun c hc =>
  of_decide_eq_true (all_eq_true.mp h c hc)

theorem escapeUnit_visible (u : UInt16) : ∀ c ∈ escapeUnit u, 0x20 ≤ c.toNat := by
  unfold escapeUnit
  split_ifs with h1 h2 h3 h4 h5 h6 h7 h
  iterate 7 exact visible_of_all _ rfl
  · intro c hc
    have hd : ∀ n, n < 16 → 0x20 ≤ n.digitChar.toNat := by decide
    have hu : u.toNat < 65536 := u.toNat_lt
    simp only [hexEscape, mem_cons, not_mem_nil, or_false] at hc
    rcases hc with rfl | rfl | rfl | rfl | rfl | rfl
    · decide
    · decide
    all_goals exact hd _ (by omega)
  · intro c hc
    simp only [isHigh, isLow, not_or, Bool.and_eq_true, decide_eq_true_eq] at h
    have hu : u.toNat < 65536 := u.toNat_lt
    have hn : (Char.ofNat u.toNat).toNat = u.toNat := toNat_charOfNat (by omega)
    rw [mem_singleton.mp hc, hn]
    omega

theorem escape_visible (s : List UInt16) : ∀ c ∈ escape s, 0x20 ≤ c.toNat := by
  induction s using escape.induct with
  | case1 => simp [escape]
  | case2 u => exact escapeUnit_visible u
  | case3 u v rest hp ih =>
    intro c hc
    rw [escape, if_pos hp] at hc
    rcases mem_cons.mp hc with hc | hc
    · simp only [isHigh, isLow, Bool.and_eq_true, decide_eq_true_eq] at hp
      rw [hc, joinPair, toNat_charOfNat] <;> omega
    · exact ih c hc
  | case4 u v rest hp ih =>
    intro c hc
    rw [escape, if_neg hp] at hc
    exact (mem_append.mp hc).elim (escapeUnit_visible u c) (ih c)

theorem quote_visible (s : List UInt16) : ∀ c ∈ quote s, 0x20 ≤ c.toNat := by
  intro c hc
  simp only [quote, cons_append, mem_cons, mem_append, not_mem_nil, or_false] at hc
  rcases hc with rfl | hc | rfl
  · decide
  · exact escape_visible s c hc
  · decide

theorem isNumberChar_visible {c : Char} (h : isNumberChar c = true) : 0x20 ≤ c.toNat := by
  simp only [isNumberChar, Bool.or_eq_true, decide_eq_true_eq] at h
  rcases h with ((((h | rfl) | rfl) | rfl) | rfl) | rfl
  · simp only [Char.isDigit, Bool.and_eq_true, decide_eq_true_eq] at h
    have : (48 : UInt32).toNat ≤ c.val.toNat := UInt32.le_iff_toNat_le.mp h.1
    have h48 : (48 : UInt32).toNat = 48 := rfl
    have hv : c.toNat = c.val.toNat := rfl
    omega
  all_goals decide

mutual

/-- **A written value has no control character**, a newline among them: a text can be framed by
lines. -/
theorem stringify_visible (v : Json) : ∀ c ∈ stringify v, 0x20 ≤ c.toNat := by
  intro c hc
  match v with
  | .null => exact visible_of_all (stringify .null) rfl c hc
  | .bool true => exact visible_of_all (stringify (.bool true)) rfl c hc
  | .bool false => exact visible_of_all (stringify (.bool false)) rfl c hc
  | .num n => exact isNumberChar_visible ((numberParts_chars n.ok).1 c hc)
  | .str s => exact quote_visible s c hc
  | .arr [] => exact visible_of_all ['[', ']'] rfl c hc
  | .arr (x :: xs) =>
    simp only [stringify, cons_append, mem_cons, mem_append] at hc
    rcases hc with rfl | hc | hc
    · decide
    · exact stringify_visible x c hc
    · exact stringifyElems_visible xs c hc
  | .obj [] => exact visible_of_all ['\x7b', '\x7d'] rfl c hc
  | .obj ((k, x) :: ms) =>
    simp only [stringify, cons_append, mem_cons, mem_append] at hc
    rcases hc with rfl | (hc | rfl | hc) | hc
    · decide
    · exact quote_visible k c hc
    · decide
    · exact stringify_visible x c hc
    · exact stringifyMembers_visible ms c hc

theorem stringifyElems_visible (xs : List Json) : ∀ c ∈ stringifyElems xs, 0x20 ≤ c.toNat := by
  intro c hc
  match xs with
  | [] => exact visible_of_all [']'] rfl c hc
  | x :: xs =>
    simp only [stringifyElems, cons_append, mem_cons, mem_append] at hc
    rcases hc with rfl | hc | hc
    · decide
    · exact stringify_visible x c hc
    · exact stringifyElems_visible xs c hc

theorem stringifyMembers_visible (ms : List (List UInt16 × Json)) : ∀ c ∈ stringifyMembers ms, 0x20 ≤ c.toNat := by
  intro c hc
  match ms with
  | [] => exact visible_of_all ['\x7d'] rfl c hc
  | (k, x) :: ms =>
    simp only [stringifyMembers, cons_append, mem_cons, mem_append] at hc
    rcases hc with rfl | (hc | rfl | hc) | hc
    · decide
    · exact quote_visible k c hc
    · decide
    · exact stringify_visible x c hc
    · exact stringifyMembers_visible ms c hc

end

end Json
