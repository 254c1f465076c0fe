import Reins.Lib.Json

/-!
# Reading values by schema

What a `z` schema accepts of a value `JSON.parse` read: the readers of its parts, for objects with
names of their own only, members that have to be there and members that need not, and what they
say of a value that was written from the same parts.
-/

open Utf

namespace Schema

abbrev JsString := List UInt16

abbrev Members := List (JsString × Json)

/-- The largest integer `z.number().int()` accepts. -/
def MAX_SAFE_INTEGER : Nat := 9007199254740991

/-- `z.number().int()`. -/
structure SafeInt where
  val : Int
  le : val.natAbs ≤ MAX_SAFE_INTEGER
  deriving DecidableEq

/-! ## Reading -/

/-- `z.strictObject`'s names: an object with members of these names only. -/
def strictObject (names : List String) : Json → Option Members
  | .obj ms => if ms.all (fun m => names.any (fun n => js n = m.1)) then some ms else none
  | _ => none

def required {α : Type} (read : Json → Option α) (name : String) (ms : Members) : Option α :=
  (Json.member? (js name) ms).bind read

def optional? {α : Type} (read : Json → Option α) (name : String) (ms : Members) : Option (Option α) :=
  match Json.member? (js name) ms with
  | none => some none
  | some v => (read v).map some

def readBool : Json → Option Bool
  | .bool b => some b
  | _ => none

def readString : Json → Option JsString
  | .str s => some s
  | _ => none

/-- `z.literal`. -/
def readLiteral (text : String) : Json → Option Unit
  | .str s => if s = js text then some () else none
  | _ => none

def readSafeInt (v : Json) : Option SafeInt :=
  v.toInt?.bind fun i => if h : i.natAbs ≤ MAX_SAFE_INTEGER then some ⟨i, h⟩ else none

/-! ## Writing -/

def optionalMember (name : String) (value : Option Json) : Members :=
  match value with
  | none => []
  | some v => [(js name, v)]

theorem js_inj {a b : String} : js a = js b ↔ a = b := by
  refine ⟨fun h => ?_, fun h => h ▸ rfl⟩
  have := congrArg scalars h
  rw [scalars_js, scalars_js] at this
  exact String.toList_inj.mp this

theorem js_toString_inj {m n : Nat} : js (toString m) = js (toString n) ↔ m = n := by
  refine ⟨fun h => ?_, fun h => h ▸ rfl⟩
  have hs : (toString m).toList = (toString n).toList := congrArg String.toList (js_inj.mp h)
  have hd : Nat.toDigits 10 m = Nat.toDigits 10 n := by
    simpa using hs
  simpa using congrArg (fun ds => Nat.ofDigitChars 10 ds 0) hd

@[simp] theorem readSafeInt_ofInt (n : SafeInt) : readSafeInt (Json.ofInt n.val) = some n := by
  simp [readSafeInt, n.le]

end Schema
