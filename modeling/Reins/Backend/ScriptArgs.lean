import Reins.Lib.Json

/-!
# A script's arguments

`sdk-host/projection.ts`, `checkedArgs` with `mismatch`, `unknownKey` and `hostBytes`. A script calls a method with
positional arguments, made in a realm of its own; they are checked against the declared schemas, and the script's byte
arrays are made the server's first. The check of a value against a schema is TypeBox's, of which only what a schema of
each kind matches is used.
-/

namespace Reins.ScriptArgs

open Utf List

abbrev JsString := List UInt16

inductive Schema (α : Type)
  | scalar (accepts : α → Bool)
  | bytes
  | array (items : Schema α)
  | union (members : List (Schema α))
  /-- Each property with its key and whether it is optional. -/
  | object (properties : List (JsString × Bool × Schema α))

inductive Value (α : Type)
  | undefined
  | scalar (a : α)
  /-- A byte array, and whether it is of the server's own class. -/
  | bytes (own : Bool) (content : List UInt8)
  | array (items : List (Value α))
  | object (fields : List (JsString × Value α))

variable {α : Type}

def Schema.isBytes : Schema α → Bool
  | .bytes => true
  | _ => false

def HasRequired (properties : List (JsString × Bool × Schema α)) (fields : List (JsString × Value α)) : Prop :=
  ∀ p ∈ properties, p.2.1 = false → ∃ f ∈ fields, f.1 = p.1

/-- TypeBox: `Value.Check`, and the path and message of the first of `Value.Errors`. A byte array matches if it is of
the class of the realm that checks; keys that are not declared are not looked at. -/
structure TypeBox (α : Type) where
  check : Schema α → Value α → Bool
  firstError : Schema α → Value α → Option (JsString × JsString)
  scalar : ∀ accepts v, check (.scalar accepts) v = true ↔ ∃ a, v = .scalar a ∧ accepts a = true
  bytes : ∀ v, check .bytes v = true ↔ ∃ content, v = .bytes true content
  array : ∀ items v, check (.array items) v = true ↔ ∃ vs, v = .array vs ∧ ∀ w ∈ vs, check items w = true
  union : ∀ members v, check (.union members) v = true ↔ ∃ m ∈ members, check m v = true
  object : ∀ properties v, check (.object properties) v = true ↔ ∃ fields, v = .object fields ∧
    HasRequired properties fields ∧ ∀ f ∈ fields, ∀ p, properties.find? (·.1 = f.1) = some p →
      check p.2.2 f.2 = true ∨ p.2.1 = true ∧ f.2 = .undefined

structure Param (α : Type) where
  name : JsString
  optional : Bool
  schema : Schema α

/-- What every plain object has under its own keys' names, from `Object.prototype`. -/
def inherited (key : JsString) : Bool :=
  key ∈ ["constructor", "__defineGetter__", "__defineSetter__", "hasOwnProperty", "__lookupGetter__",
    "__lookupSetter__", "isPrototypeOf", "propertyIsEnumerable", "toString", "valueOf", "__proto__",
    "toLocaleString"].map js

def stringify (key : JsString) : JsString := (Json.quote key).flatMap units

def decimal (n : Nat) : JsString := js (Nat.repr n)

def commas (names : List JsString) : JsString := (js ", ").intercalate names

/-- `/options/0/cwd` as `.options[0].cwd`. -/
def dotted (pointer : JsString) : JsString :=
  ((pointer.splitOn 0x2F).drop 1).flatMap fun part =>
    if part ≠ [] && part.all fun u => 0x30 ≤ u && u ≤ 0x39 then js "[" ++ part ++ js "]" else js "." ++ part

def noField (names : List JsString) (path key : JsString) : JsString :=
  path ++ js " has no field " ++ stringify key ++
    if names.length > 0 then js " (its fields: " ++ commas names ++ js ")" else []

section

variable (typebox : TypeBox α)

mutual

def unknownKey : Schema α → Value α → JsString → Option JsString
  | .union members, value, path =>
    let problems := unknownKeys members value path
    if none ∈ problems then none else problems.head?.join
  | .array items, .array vs, path =>
    vs.zipIdx.findSome? fun (item, index) => unknownKey items item (path ++ js "[" ++ decimal index ++ js "]")
  | .object properties, .object fields, path =>
    fields.findSome? fun (key, item) => unknownField properties (properties.map (·.1)) key item path
  | _, _, _ => none

def unknownKeys : List (Schema α) → Value α → JsString → List (Option JsString)
  | [], _, _ => []
  | m :: members, value, path =>
    if typebox.check m value then unknownKey m value path :: unknownKeys members value path
    else unknownKeys members value path

/-- `properties[key]` is a declared property or one that every object inherits, in which nothing is unknown. -/
def unknownField : List (JsString × Bool × Schema α) → List JsString → JsString → Value α → JsString → Option JsString
  | [], names, key, _, path => if inherited key then none else some (noField names path key)
  | (name, _, schema) :: properties, names, key, item, path =>
    if name = key then unknownKey schema item (path ++ js "." ++ key) else unknownField properties names key item path

end

def mismatch (schema : Schema α) (value : Value α) (path : JsString) : Option JsString :=
  if typebox.check schema value then unknownKey typebox schema value path
  else
    match typebox.firstError schema value with
    | some (pointer, message) => some (path ++ dotted pointer ++ js ": " ++ message)
    | none => some (path ++ js " does not match")

end

def Schema.acceptsBytes : Schema α → Bool
  | .bytes => true
  | .union members => members.any Schema.isBytes
  | _ => false

mutual

def hostBytes : Schema α → Value α → Value α
  | .object properties, .object fields => .object (fields.map fun f => (f.1, hostField properties f.1 f.2))
  | schema, .bytes own content => .bytes (own || schema.acceptsBytes) content
  | _, value => value

def hostField : List (JsString × Bool × Schema α) → JsString → Value α → Value α
  | [], _, item => item
  | (name, _, schema) :: properties, key, item =>
    if name = key then hostBytes schema item else hostField properties key item

end

section

variable (typebox : TypeBox α) (fn : JsString)

def checkedArg (param : Param α) (value : Value α) : Except JsString (Value α) :=
  match value with
  | .undefined => if param.optional then .ok .undefined else .error (fn ++ js ": " ++ param.name ++ js " is required")
  | value =>
    let own := hostBytes param.schema value
    match mismatch typebox param.schema own param.name with
    | some problem => .error (fn ++ js ": " ++ problem)
    | none => .ok own

def checkedEach : List (Param α) → List (Value α) → Except JsString (List (Value α))
  | [], _ => .ok []
  | param :: params, args =>
    (checkedArg typebox fn param (args.headD .undefined)).bind fun own => (checkedEach params args.tail).map (own :: ·)

def tooMany (params : List (Param α)) : JsString :=
  fn ++ js " takes " ++ if params.isEmpty then js "no arguments"
    else
      js "at most " ++ decimal params.length ++ js " argument" ++ (if params.length = 1 then [] else js "s") ++
        js " (" ++ commas (params.map (·.name)) ++ js ")"

def checkedArgs (name : JsString) (params : List (Param α)) (args : List (Value α)) :
    Except JsString (List (Value α)) :=
  if args.length > params.length then .error (tooMany (js "reins." ++ name) params)
  else checkedEach typebox (js "reins." ++ name) params args

end

/-! ## What matches -/

mutual

def Value.host : Value α → Value α
  | .bytes _ content => .bytes true content
  | .array items => .array (hostItems items)
  | .object fields => .object (hostFields fields)
  | value => value

def hostItems : List (Value α) → List (Value α)
  | [] => []
  | item :: items => item.host :: hostItems items

def hostFields : List (JsString × Value α) → List (JsString × Value α)
  | [] => []
  | f :: fields => (f.1, f.2.host) :: hostFields fields

end

section

variable (foreign : Bool) (tolerated : JsString → Bool)

mutual

/-- A value matches a schema and has no key the matching schema does not declare, beside tolerated ones. Whether the
byte arrays may be the script's is a choice. -/
def Conforms : Schema α → Value α → Prop
  | .scalar accepts, value => ∃ a, value = .scalar a ∧ accepts a = true
  | .bytes, value => ∃ own content, value = .bytes own content ∧ (foreign || own) = true
  | .array items, value => ∃ vs, value = .array vs ∧ ∀ w ∈ vs, Conforms items w
  | .union members, value => ConformsAny members value
  | .object properties, value => ∃ fields, value = .object fields ∧ HasRequired properties fields ∧
      ∀ f ∈ fields, FieldConforms properties f.1 f.2

def ConformsAny : List (Schema α) → Value α → Prop
  | [], _ => False
  | m :: members, value => Conforms m value ∨ ConformsAny members value

def FieldConforms : List (JsString × Bool × Schema α) → JsString → Value α → Prop
  | [], key, _ => tolerated key = true
  | (name, optional, schema) :: properties, key, item =>
    if name = key then Conforms schema item ∨ optional = true ∧ item = .undefined
    else FieldConforms properties key item

end

end

mutual

/-- The script's byte arrays in a value are all where they are looked for: the value itself, or a field of objects
that no array or union encloses. -/
def Reached : Schema α → Value α → Prop
  | .object properties, .object fields => ∀ f ∈ fields, ReachedField properties f.1 f.2
  | schema, .bytes own _ => (own || schema.acceptsBytes) = true
  | _, value => value = value.host

def ReachedField : List (JsString × Bool × Schema α) → JsString → Value α → Prop
  | [], _, item => item = item.host
  | (name, _, schema) :: properties, key, item =>
    if name = key then Reached schema item else ReachedField properties key item

end

def EachArg (P : Param α → Value α → Prop) : List (Param α) → List (Value α) → Prop
  | [], _ => True
  | param :: params, args => P param (args.headD .undefined) ∧ EachArg P params args.tail

def hosted : List (Param α) → List (Value α) → List (Value α)
  | [], _ => []
  | _ :: params, args => (args.headD .undefined).host :: hosted params args.tail

def Fit (params : List (Param α)) (args : List (Value α)) : Prop :=
  args.length ≤ params.length ∧ EachArg (fun param value =>
    param.optional = true ∧ value = .undefined ∨ Conforms true (fun _ => false) param.schema value) params args

/-- They match with the byte arrays that are looked for made the server's, beside keys that every object inherits. -/
def NearlyFit (params : List (Param α)) (args : List (Value α)) : Prop :=
  args.length ≤ params.length ∧ EachArg (fun param value =>
    param.optional = true ∧ value = .undefined ∨ Conforms false inherited param.schema (hostBytes param.schema value))
      params args

/-- Exactly what matches is accepted, and it arrives with byte arrays of the server's own. -/
def Strict (typebox : TypeBox α) (name : JsString) (params : List (Param α)) (args : List (Value α)) : Prop :=
  ((∃ received, checkedArgs typebox name params args = .ok received) ↔ Fit params args) ∧
    ∀ received, checkedArgs typebox name params args = .ok received → received = hosted params args

/-! ## What is accepted -/

section

variable {foreign : Bool} {tolerated : JsString → Bool} {properties : List (JsString × Bool × Schema α)}
  {fields : List (JsString × Value α)} {schema : Schema α} {value : Value α} {path : JsString}

theorem hostItems_eq (items : List (Value α)) : hostItems items = items.map Value.host := by
  induction items with
  | nil => rfl
  | cons item items ih => rw [hostItems, ih, map_cons]

theorem hostFields_eq (fields : List (JsString × Value α)) :
    hostFields fields = fields.map fun f => (f.1, f.2.host) := by
  induction fields with
  | nil => rfl
  | cons f fields ih => rw [hostFields, ih, map_cons]

theorem host_array {vs : List (Value α)} :
    value.host = .array vs ↔ ∃ ws, value = .array ws ∧ vs = ws.map Value.host := by
  cases value <;> simp [Value.host, hostItems_eq, eq_comm]

theorem host_object : value.host = .object fields ↔
    ∃ gs, value = .object gs ∧ fields = gs.map fun f => (f.1, f.2.host) := by
  cases value <;> simp [Value.host, hostFields_eq, eq_comm]

theorem host_undefined : value.host = .undefined ↔ value = .undefined := by
  cases value <;> simp [Value.host]

theorem hasRequired_host :
    HasRequired properties (fields.map fun f => (f.1, f.2.host)) ↔ HasRequired properties fields := by
  simp [HasRequired]

mutual

theorem conforms_host : ∀ (schema : Schema α) (value : Value α),
    Conforms false tolerated schema value.host ↔ Conforms true tolerated schema value
  | .scalar accepts, value => by cases value <;> simp [Conforms, Value.host]
  | .bytes, value => by cases value <;> simp [Conforms, Value.host]
  | .array items, value => by
    simp only [Conforms, host_array]
    constructor
    · rintro ⟨-, ⟨ws, rfl, rfl⟩, hall⟩
      exact ⟨ws, rfl, fun w hw => (conforms_host items w).mp (hall _ (mem_map_of_mem hw))⟩
    rintro ⟨ws, rfl, hall⟩
    refine ⟨_, ⟨ws, rfl, rfl⟩, fun w hw => ?_⟩
    obtain ⟨v, hv, rfl⟩ := mem_map.mp hw
    exact (conforms_host items v).mpr (hall v hv)
  | .union members, value => conformsAny_host members value
  | .object properties, value => by
    simp only [Conforms, host_object]
    constructor
    · rintro ⟨-, ⟨gs, rfl, rfl⟩, hrequired, hall⟩
      exact ⟨gs, rfl, hasRequired_host.mp hrequired, fun f hf =>
        (fieldConforms_host properties f.1 f.2).mp (hall _ (mem_map_of_mem hf))⟩
    rintro ⟨gs, rfl, hrequired, hall⟩
    refine ⟨_, ⟨gs, rfl, rfl⟩, hasRequired_host.mpr hrequired, fun f hf => ?_⟩
    obtain ⟨g, hg, rfl⟩ := mem_map.mp hf
    exact (fieldConforms_host properties g.1 g.2).mpr (hall g hg)

theorem conformsAny_host : ∀ (members : List (Schema α)) (value : Value α),
    ConformsAny false tolerated members value.host ↔ ConformsAny true tolerated members value
  | [], _ => .rfl
  | m :: members, value => or_congr (conforms_host m value) (conformsAny_host members value)

theorem fieldConforms_host : ∀ (properties : List (JsString × Bool × Schema α)) (key : JsString) (value : Value α),
    FieldConforms false tolerated properties key value.host ↔ FieldConforms true tolerated properties key value
  | [], _, _ => .rfl
  | (name, _, schema) :: properties, key, value => by
    simp only [FieldConforms, host_undefined]
    split
    · exact or_congr_left (conforms_host schema value)
    · exact fieldConforms_host properties key value

end

mutual

theorem conforms_mono {tolerated' : JsString → Bool} (h : ∀ key, tolerated key = true → tolerated' key = true) :
    ∀ (schema : Schema α) (value : Value α),
      Conforms foreign tolerated schema value → Conforms foreign tolerated' schema value
  | .scalar _, _, hc => hc
  | .bytes, _, hc => hc
  | .array items, _, ⟨vs, hv, hall⟩ => ⟨vs, hv, fun w hw => conforms_mono h items w (hall w hw)⟩
  | .union members, value, hc => conformsAny_mono h members value hc
  | .object properties, _, ⟨fields, hv, hrequired, hall⟩ =>
    ⟨fields, hv, hrequired, fun f hf => fieldConforms_mono h properties f.1 f.2 (hall f hf)⟩

theorem conformsAny_mono {tolerated' : JsString → Bool} (h : ∀ key, tolerated key = true → tolerated' key = true) :
    ∀ (members : List (Schema α)) (value : Value α),
      ConformsAny foreign tolerated members value → ConformsAny foreign tolerated' members value
  | [], _, hc => hc
  | m :: members, value, hc => hc.imp (conforms_mono h m value) (conformsAny_mono h members value)

theorem fieldConforms_mono {tolerated' : JsString → Bool} (h : ∀ key, tolerated key = true → tolerated' key = true) :
    ∀ (properties : List (JsString × Bool × Schema α)) (key : JsString) (value : Value α),
      FieldConforms foreign tolerated properties key value → FieldConforms foreign tolerated' properties key value
  | [], key, _, hc => h key hc
  | (name, _, schema) :: properties, key, value, hc => by
    simp only [FieldConforms] at hc ⊢
    split at hc
    · rw [if_pos ‹_›]
      exact hc.imp_left (conforms_mono h schema value)
    · rw [if_neg ‹_›]
      exact fieldConforms_mono h properties key value hc

end

mutual

theorem host_hostBytes : ∀ (schema : Schema α) (value : Value α), (hostBytes schema value).host = value.host
  | .object properties, .object fields => by
    simp only [hostBytes, Value.host, hostFields_eq, map_map]
    refine congrArg Value.object (map_congr_left fun f _ => ?_)
    rw [Function.comp_apply, host_hostField properties f.1 f.2]
  | .object _, .undefined | .object _, .scalar _ | .object _, .bytes .. | .object _, .array _ => rfl
  | .scalar _, value | .bytes, value | .array _, value | .union _, value => by cases value <;> rfl

theorem host_hostField : ∀ (properties : List (JsString × Bool × Schema α)) (key : JsString) (value : Value α),
    (hostField properties key value).host = value.host
  | [], _, _ => rfl
  | (name, _, schema) :: properties, key, value => by
    rw [hostField]
    split
    · exact host_hostBytes schema value
    · exact host_hostField properties key value

end

mutual

theorem reached_iff : ∀ (schema : Schema α) (value : Value α),
    Reached schema value ↔ hostBytes schema value = value.host
  | .object properties, .object fields => by
    simp only [Reached, hostBytes, Value.host, hostFields_eq, Value.object.injEq, map_inj_left, Prod.mk.injEq,
      true_and]
    exact forall₂_congr fun f _ => reachedField_iff properties f.1 f.2
  | .object _, .undefined | .object _, .scalar _ | .object _, .bytes .. | .object _, .array _ => by
    simp [Reached, hostBytes, Value.host]
  | .scalar _, value | .bytes, value | .array _, value | .union _, value => by
    cases value <;> simp [Reached, hostBytes, Value.host]

theorem reachedField_iff : ∀ (properties : List (JsString × Bool × Schema α)) (key : JsString) (value : Value α),
    ReachedField properties key value ↔ hostField properties key value = value.host
  | [], _, _ => .rfl
  | (name, _, schema) :: properties, key, value => by
    rw [ReachedField, hostField]
    split
    · exact reached_iff schema value
    · exact reachedField_iff properties key value

end

end

section

variable (typebox : TypeBox α)

theorem check_undefined : ∀ schema : Schema α, ¬typebox.check schema .undefined = true
  | .scalar _ => fun h => by simpa using (typebox.scalar _ _).mp h
  | .bytes => fun h => by simpa using (typebox.bytes _).mp h
  | .array _ => fun h => by simpa using (typebox.array _ _).mp h
  | .union members => fun h => by
    obtain ⟨m, hm, hcheck⟩ := (typebox.union _ _).mp h
    exact check_undefined m hcheck
  | .object _ => fun h => by simpa using (typebox.object _ _).mp h

theorem unknownKeys_eq_nil {members : List (Schema α)} {value : Value α} {path : JsString} :
    unknownKeys typebox members value path = [] ↔ ¬typebox.check (.union members) value = true := by
  rw [typebox.union]
  induction members with
  | nil => simp [unknownKeys]
  | cons m members ih =>
    rw [unknownKeys]
    split <;> simp_all

theorem unknownKey_undefined (schema : Schema α) (path : JsString) :
    unknownKey typebox schema .undefined path = none := by
  cases schema with
  | union members =>
    rw [unknownKey, (unknownKeys_eq_nil typebox).mpr (check_undefined typebox _)]
    rfl
  | _ => rfl

theorem unknownKey_union {members : List (Schema α)} {value : Value α} {path : JsString} :
    typebox.check (.union members) value = true ∧ unknownKey typebox (.union members) value path = none ↔
      none ∈ unknownKeys typebox members value path := by
  have hnil : unknownKeys typebox members value path = [] ↔ ¬typebox.check (.union members) value = true :=
    unknownKeys_eq_nil typebox
  rw [unknownKey]
  cases hproblems : unknownKeys typebox members value path with
  | nil => simp [hnil.mp hproblems]
  | cons problem problems =>
    have hcheck : typebox.check (.union members) value = true := by
      by_contra h
      exact absurd (hproblems.symm.trans (hnil.mpr h)) (cons_ne_nil _ _)
    rw [and_iff_right hcheck]
    by_cases hnone : none ∈ problem :: problems
    · simp [hnone]
    cases problem with
    | none => exact absurd mem_cons_self hnone
    | some problem => simp [hnone]

mutual

/-- **What passes both checks** conforms with the server's byte arrays, beside keys that every object inherits. -/
theorem passes_iff : ∀ (schema : Schema α) (value : Value α) (path : JsString),
    typebox.check schema value = true ∧ unknownKey typebox schema value path = none ↔
      Conforms false inherited schema value
  | .scalar accepts, value, path => by
    rw [typebox.scalar, Conforms]
    exact and_iff_left rfl
  | .bytes, value, path => by
    rw [typebox.bytes, Conforms]
    simp [unknownKey]
  | .array items, value, path => by
    rw [typebox.array, Conforms]
    constructor
    · rintro ⟨⟨vs, rfl, hall⟩, hnone⟩
      rw [unknownKey, findSome?_eq_none_iff] at hnone
      refine ⟨vs, rfl, fun w hw => ?_⟩
      obtain ⟨i, hi⟩ := getElem?_of_mem hw
      exact (passes_iff items w _).mp ⟨hall w hw, hnone (w, i) (mem_zipIdx_iff_getElem?.mpr hi)⟩
    · rintro ⟨vs, rfl, hall⟩
      refine ⟨⟨vs, rfl, fun w hw => ((passes_iff items w path).mpr (hall w hw)).1⟩, ?_⟩
      rw [unknownKey, findSome?_eq_none_iff]
      rintro ⟨w, i⟩ hw
      exact ((passes_iff items w _).mpr (hall w (fst_mem_of_mem_zipIdx hw))).2
  | .union members, value, path => by
    rw [Conforms, ← passesAny_iff members value path, unknownKey_union]
  | .object properties, value, path => by
    rw [typebox.object, Conforms]
    constructor
    · rintro ⟨⟨fields, rfl, hrequired, hall⟩, hnone⟩
      rw [unknownKey, findSome?_eq_none_iff] at hnone
      exact ⟨fields, rfl, hrequired, fun f hf => (fieldPasses_iff properties _ f.1 f.2 path).mp ⟨hall f hf, hnone f hf⟩⟩
    rintro ⟨fields, rfl, hrequired, hall⟩
    refine ⟨⟨fields, rfl, hrequired, fun f hf =>
      ((fieldPasses_iff properties [] f.1 f.2 path).mpr (hall f hf)).1⟩, ?_⟩
    rw [unknownKey, findSome?_eq_none_iff]
    exact fun f hf => ((fieldPasses_iff properties _ f.1 f.2 path).mpr (hall f hf)).2

theorem passesAny_iff : ∀ (members : List (Schema α)) (value : Value α) (path : JsString),
    none ∈ unknownKeys typebox members value path ↔ ConformsAny false inherited members value
  | [], _, _ => by simp [unknownKeys, ConformsAny]
  | m :: members, value, path => by
    rw [ConformsAny, ← passes_iff m value path, ← passesAny_iff members value path, unknownKeys]
    split
    next hcheck =>
      rw [mem_cons, and_iff_right hcheck]
      exact or_congr_left eq_comm
    next hcheck =>
      exact (or_iff_right fun h => hcheck h.1).symm

theorem fieldPasses_iff : ∀ (properties : List (JsString × Bool × Schema α)) (names : List JsString) (key : JsString)
    (item : Value α) (path : JsString),
    (∀ p, properties.find? (·.1 = key) = some p → typebox.check p.2.2 item = true ∨ p.2.1 = true ∧ item = .undefined) ∧
        unknownField typebox properties names key item path = none ↔ FieldConforms false inherited properties key item
  | [], names, key, item, path => by
    simp [unknownField, FieldConforms]
  | (name, optional, schema) :: properties, names, key, item, path => by
    rw [FieldConforms, unknownField]
    split
    next hname =>
      rw [find?_cons_of_pos (by simpa using hname), ← passes_iff schema item (path ++ js "." ++ key)]
      simp only [Option.some.injEq, forall_eq']
      refine ⟨fun ⟨hcheck, hnone⟩ => hcheck.imp_left fun h => ⟨h, hnone⟩, ?_⟩
      rintro (⟨hcheck, hnone⟩ | ⟨hoptional, rfl⟩)
      · exact ⟨.inl hcheck, hnone⟩
      · exact ⟨.inr ⟨hoptional, rfl⟩, unknownKey_undefined typebox schema _⟩
    next hname =>
      rw [find?_cons_of_neg (by simpa using hname)]
      exact fieldPasses_iff properties names key item path

end

/-! ## Argument lists -/

variable (fn : JsString) {typebox} {params : List (Param α)} {args : List (Value α)}

theorem checkedArg_ok {param : Param α} {value own : Value α} : checkedArg typebox fn param value = .ok own ↔
      (param.optional = true ∧ value = .undefined ∨
        Conforms false inherited param.schema (hostBytes param.schema value)) ∧ own = hostBytes param.schema value := by
  by_cases hvalue : value = .undefined
  · subst hvalue
    have hown : hostBytes param.schema .undefined = .undefined := by cases param.schema <;> rfl
    have hnot : ¬Conforms false inherited param.schema .undefined := fun h =>
      check_undefined typebox _ ((passes_iff typebox _ _ []).mpr h).1
    rw [checkedArg, hown]
    cases param.optional <;> simp [hnot, eq_comm]
  · have hchecked : checkedArg typebox fn param value =
        match mismatch typebox param.schema (hostBytes param.schema value) param.name with
        | some problem => .error (fn ++ js ": " ++ problem)
        | none => .ok (hostBytes param.schema value) := by
      cases value <;> first | rfl | exact absurd rfl hvalue
    rw [hchecked, ← passes_iff typebox _ _ param.name, mismatch]
    by_cases hcheck : typebox.check param.schema (hostBytes param.schema value) = true
    · rw [if_pos hcheck]
      cases unknownKey typebox param.schema (hostBytes param.schema value) param.name with
      | none => simp [hcheck, eq_comm (a := own)]
      | some problem => simp [hvalue]
    · rw [if_neg hcheck]
      cases typebox.firstError param.schema (hostBytes param.schema value) <;> simp [hcheck, hvalue]

def hostEach : List (Param α) → List (Value α) → List (Value α)
  | [], _ => []
  | param :: params, args => hostBytes param.schema (args.headD .undefined) :: hostEach params args.tail

theorem checkedEach_ok {received : List (Value α)} : checkedEach typebox fn params args = .ok received ↔
      EachArg (fun param value => param.optional = true ∧ value = .undefined ∨
        Conforms false inherited param.schema (hostBytes param.schema value)) params args ∧
          received = hostEach params args := by
  induction params generalizing args received with
  | nil => simp [checkedEach, EachArg, hostEach, eq_comm]
  | cons param params ih =>
    simp only [checkedEach, EachArg, hostEach]
    constructor
    · intro h
      cases harg : checkedArg typebox fn param (args.headD .undefined) with
      | error problem =>
        rw [harg] at h
        cases h
      | ok own =>
        obtain ⟨hconforms, rfl⟩ := (checkedArg_ok fn).mp harg
        cases hrest : checkedEach typebox fn params args.tail with
        | error problem =>
          rw [harg, hrest] at h
          cases h
        | ok rest =>
          obtain ⟨heach, rfl⟩ := ih.mp hrest
          rw [harg, hrest] at h
          exact ⟨⟨hconforms, heach⟩, (Except.ok.inj h).symm⟩
    · rintro ⟨⟨hconforms, heach⟩, rfl⟩
      rw [(checkedArg_ok fn).mpr ⟨hconforms, rfl⟩, Except.bind, ih.mpr ⟨heach, rfl⟩]
      rfl

theorem checkedArgs_ok {name : JsString} {received : List (Value α)} :
    checkedArgs typebox name params args = .ok received ↔ NearlyFit params args ∧ received = hostEach params args := by
  unfold checkedArgs NearlyFit
  split
  next h =>
    simp [Nat.not_le_of_gt h]
  next h =>
    rw [checkedEach_ok, and_assoc, and_iff_right (Nat.le_of_not_gt h)]

theorem hostEach_eq_iff : hostEach params args = hosted params args ↔
    EachArg (fun param value => Reached param.schema value) params args := by
  induction params generalizing args with
  | nil => simp [hostEach, hosted, EachArg]
  | cons param params ih => rw [hostEach, hosted, EachArg, List.cons.injEq, ih, reached_iff]

/-- Arguments that match are accepted where all their byte arrays are reached. -/
theorem Fit.nearly (h : Fit params args)
    (hreached : EachArg (fun param value => Reached param.schema value) params args) :
    NearlyFit params args := by
  refine ⟨h.1, ?_⟩
  have heach := h.2
  clear h
  induction params generalizing args with
  | nil => trivial
  | cons param params ih =>
    refine ⟨heach.1.imp_right fun hconforms => ?_, ih hreached.2 heach.2⟩
    rw [(reached_iff _ _).mp hreached.1]
    exact conforms_mono (fun _ h => absurd h Bool.false_ne_true) _ _ ((conforms_host _ _).mpr hconforms)

end

/-- Arguments are checked strictly exactly when, if they match, their byte arrays are where these are looked for, and
if they do not, it is not for keys that every object inherits alone. -/
theorem strict_iff (typebox : TypeBox α) (name : JsString) (params : List (Param α)) (args : List (Value α)) :
    Strict typebox name params args ↔
      (Fit params args → EachArg (fun param value => Reached param.schema value) params args) ∧
        (NearlyFit params args → Fit params args) := by
  have haccepted : (∃ received, checkedArgs typebox name params args = .ok received) ↔ NearlyFit params args := by
    simp [checkedArgs_ok]
  rw [Strict, haccepted, ← hostEach_eq_iff]
  simp only [checkedArgs_ok, and_imp, forall_eq_apply_imp_iff]
  constructor
  · rintro ⟨hiff, hhosted⟩
    exact ⟨fun hfit => hhosted (hiff.mpr hfit), hiff.mp⟩
  · rintro ⟨hreached, hnearly⟩
    exact ⟨⟨hnearly, fun hfit => hfit.nearly (hostEach_eq_iff.mp (hreached hfit))⟩, fun h => hreached (hnearly h)⟩

open Classical in
/-- A check that looks at nothing but what a schema of each kind matches. -/
noncomputable def TypeBox.structural : TypeBox α where
  check schema value := decide (Conforms false (fun _ => true) schema value)
  firstError _ _ := none
  scalar _ _ := decide_eq_true_iff
  bytes _ := decide_eq_true_iff.trans (by simp [Conforms])
  array _ _ := decide_eq_true_iff.trans (by simp [Conforms])
  union members value := by
    rw [decide_eq_true_iff, Conforms]
    induction members with
    | nil => simp [ConformsAny]
    | cons m members ih => simp [ConformsAny, ih]
  object properties value := by
    rw [decide_eq_true_iff, Conforms]
    refine exists_congr fun fields => and_congr_right fun _ => and_congr_right fun hrequired => ?_
    clear hrequired
    refine forall₂_congr fun f _ => ?_
    induction properties with
    | nil => simp [FieldConforms]
    | cons p properties ih =>
      rw [FieldConforms]
      split
      next hname =>
        simp [hname]
      next hname =>
        rw [ih, find?_cons_of_neg (by simpa using hname)]

theorem array_of_bytes_refused :
    ¬∀ (typebox : TypeBox Unit) (name : JsString) (params : List (Param Unit)) (args : List (Value Unit)),
      Strict typebox name params args := by
  intro h
  obtain ⟨hiff, -⟩ := h .structural (js "files.join") [⟨js "chunks", false, .array .bytes⟩] [.array [.bytes false []]]
  have hfit : Fit [⟨js "chunks", false, Schema.array (.bytes (α := Unit))⟩] [.array [.bytes false []]] := by
    simp [Fit, EachArg, Conforms]
  obtain ⟨received, hreceived⟩ := hiff.mpr hfit
  have hnearly := (checkedArgs_ok.mp hreceived).1
  simp [NearlyFit, EachArg, Conforms, hostBytes] at hnearly

end Reins.ScriptArgs
