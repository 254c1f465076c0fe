import Reins.Lib.Schema

/-!
# Exec records (`node-protocol/src/node-methods.ts`)

One line of an exec's output stream: an update to the output's view, or the exit. The schema's
bounds are part of the types, so that what the node records is what `execRecord` accepts; `toJson`
and `ofJson` are the two ends of the wire, `JSON.stringify` of a value and `safeParse` of what
`JSON.parse` read. A strict object refuses a name it does not know.
-/

open Utf Schema

namespace Reins.PiExec

/-! ## Values -/

/-- `z.number().int().nonnegative()`. -/
structure Count where
  val : Nat
  le : val ≤ MAX_SAFE_INTEGER
  deriving DecidableEq

/-- `z.number().int().positive()`. -/
structure Limit where
  val : Nat
  pos : 0 < val
  le : val ≤ MAX_SAFE_INTEGER
  deriving DecidableEq

/-- `z.string().max(4096)`. -/
structure SpillPath where
  val : JsString
  le : val.length ≤ 4096
  deriving DecidableEq

inductive TruncatedBy
  | lines
  | bytes
  deriving DecidableEq

structure Truncation where
  truncated : Bool
  truncatedBy : Option TruncatedBy
  totalLines : Count
  totalBytes : Count
  outputLines : Count
  outputBytes : Count
  lastLinePartial : Bool
  firstLineExceedsLimit : Bool
  maxLines : Limit
  maxBytes : Limit
  deriving DecidableEq

/-- `outputMetadata`. -/
structure Metadata where
  truncation : Truncation
  spillPath : Option SpillPath
  lastLineBytes : Option Count
  deriving DecidableEq

structure ShellOutputView where
  text : JsString
  metadata : Metadata
  deriving DecidableEq

inductive ShellOutputUpdate
  | replace (output : ShellOutputView)
  | append (text : JsString) (metadata : Metadata)
  | slide (drop : Count) (text : JsString) (metadata : Metadata)
  | metadata (metadata : Metadata)
  deriving DecidableEq

inductive ErrorCode
  | aborted
  | timeout
  | shell_unavailable
  | spawn_error
  | callback_error
  | unknown
  deriving DecidableEq

inductive ExecExit
  | ok (exitCode : SafeInt) (metadata : Metadata)
  | error (code : ErrorCode) (message : JsString)
  deriving DecidableEq

inductive ExecRecord
  | update (update : ShellOutputUpdate)
  | exit (exit : ExecExit)
  deriving DecidableEq

def applyShellOutputUpdate (current : Option ShellOutputView) : ShellOutputUpdate → ShellOutputView
  | .replace output => output
  | .append text metadata => ⟨((current.map (·.text)).getD []) ++ text, metadata⟩
  | .slide drop text metadata => ⟨((current.map (·.text.drop drop.val)).getD []) ++ text, metadata⟩
  | .metadata metadata => ⟨(current.map (·.text)).getD [], metadata⟩

/-! ## Writing -/

def Count.toJson (n : Count) : Json := Json.ofInt n.val

def Limit.toJson (n : Limit) : Json := Json.ofInt n.val

def TruncatedBy.name : TruncatedBy → JsString
  | .lines => js "lines"
  | .bytes => js "bytes"

def Truncation.toJson (t : Truncation) : Json :=
  .obj [(js "truncated", .bool t.truncated),
      (js "truncatedBy", match t.truncatedBy with | none => .null | some b => .str b.name),
      (js "totalLines", t.totalLines.toJson), (js "totalBytes", t.totalBytes.toJson),
      (js "outputLines", t.outputLines.toJson), (js "outputBytes", t.outputBytes.toJson),
      (js "lastLinePartial", .bool t.lastLinePartial),
      (js "firstLineExceedsLimit", .bool t.firstLineExceedsLimit),
      (js "maxLines", t.maxLines.toJson), (js "maxBytes", t.maxBytes.toJson)]

def Metadata.members (m : Metadata) : Members :=
  (js "truncation", m.truncation.toJson) :: optionalMember "spillPath" (m.spillPath.map fun p => .str p.val)
    ++ optionalMember "lastLineBytes" (m.lastLineBytes.map Count.toJson)

def ShellOutputView.toJson (v : ShellOutputView) : Json := .obj ((js "text", .str v.text) :: v.metadata.members)

def ShellOutputUpdate.toJson : ShellOutputUpdate → Json
  | .replace output => .obj [(js "kind", .str (js "replace")), (js "output", output.toJson)]
  | .append text m => .obj [(js "kind", .str (js "append")), (js "text", .str text), (js "metadata", .obj m.members)]
  | .slide drop text m =>
    .obj [(js "kind", .str (js "slide")), (js "drop", drop.toJson), (js "text", .str text),
      (js "metadata", .obj m.members)]
  | .metadata m => .obj [(js "kind", .str (js "metadata")), (js "metadata", .obj m.members)]

def ErrorCode.name : ErrorCode → JsString
  | .aborted => js "aborted"
  | .timeout => js "timeout"
  | .shell_unavailable => js "shell_unavailable"
  | .spawn_error => js "spawn_error"
  | .callback_error => js "callback_error"
  | .unknown => js "unknown"

def ExecExit.toJson : ExecExit → Json
  | .ok exitCode metadata =>
    .obj [(js "ok", .bool true), (js "value", .obj ((js "exitCode", Json.ofInt exitCode.val) :: metadata.members))]
  | .error code message =>
    .obj [(js "ok", .bool false), (js "error", .obj [(js "code", .str code.name), (js "message", .str message)])]

def ExecRecord.toJson : ExecRecord → Json
  | .update u => .obj [(js "update", u.toJson)]
  | .exit e => .obj [(js "exit", e.toJson)]

/-! ## Reading -/

def Count.ofJson (v : Json) : Option Count :=
  v.toInt?.bind fun i => if h : 0 ≤ i ∧ i.toNat ≤ MAX_SAFE_INTEGER then some ⟨i.toNat, h.2⟩ else none

def Limit.ofJson (v : Json) : Option Limit :=
  v.toInt?.bind fun i => if h : 0 < i.toNat ∧ i.toNat ≤ MAX_SAFE_INTEGER then some ⟨i.toNat, h.1, h.2⟩ else none

def SpillPath.ofJson (v : Json) : Option SpillPath :=
  (readString v).bind fun s => if h : s.length ≤ 4096 then some ⟨s, h⟩ else none

/-- `z.enum(["lines", "bytes"]).nullable()`. -/
def readTruncatedBy : Json → Option (Option TruncatedBy)
  | .null => some none
  | .str s =>
    if s = js "lines" then some (some .lines)
    else if s = js "bytes" then some (some .bytes) else none
  | _ => none

def Truncation.ofJson (v : Json) : Option Truncation := do
  let ms ← strictObject ["truncated", "truncatedBy", "totalLines", "totalBytes", "outputLines", "outputBytes",
      "lastLinePartial", "firstLineExceedsLimit", "maxLines", "maxBytes"] v
  let truncated ← required readBool "truncated" ms
  let truncatedBy ← required readTruncatedBy "truncatedBy" ms
  let totalLines ← required Count.ofJson "totalLines" ms
  let totalBytes ← required Count.ofJson "totalBytes" ms
  let outputLines ← required Count.ofJson "outputLines" ms
  let outputBytes ← required Count.ofJson "outputBytes" ms
  let lastLinePartial ← required readBool "lastLinePartial" ms
  let firstLineExceedsLimit ← required readBool "firstLineExceedsLimit" ms
  let maxLines ← required Limit.ofJson "maxLines" ms
  let maxBytes ← required Limit.ofJson "maxBytes" ms
  return { truncated, truncatedBy, totalLines, totalBytes, outputLines, outputBytes,
           lastLinePartial, firstLineExceedsLimit, maxLines, maxBytes }

def metadataNames : List String := ["truncation", "spillPath", "lastLineBytes"]

def Metadata.ofMembers (ms : Members) : Option Metadata := do
  let truncation ← required Truncation.ofJson "truncation" ms
  let spillPath ← optional? SpillPath.ofJson "spillPath" ms
  let lastLineBytes ← optional? Count.ofJson "lastLineBytes" ms
  return { truncation, spillPath, lastLineBytes }

def Metadata.ofJson (v : Json) : Option Metadata := (strictObject metadataNames v).bind Metadata.ofMembers

def ShellOutputView.ofJson (v : Json) : Option ShellOutputView := do
  let ms ← strictObject ("text" :: metadataNames) v
  let text ← required readString "text" ms
  let metadata ← Metadata.ofMembers ms
  return { text, metadata }

/-- `z.discriminatedUnion("kind", ...)`. -/
def ShellOutputUpdate.ofJson (v : Json) : Option ShellOutputUpdate := do
  let kind ← match v with
    | .obj ms => required readString "kind" ms
    | _ => none
  if kind = js "replace" then
    let ms ← strictObject ["kind", "output"] v
    return .replace (← required ShellOutputView.ofJson "output" ms)
  else if kind = js "append" then
    let ms ← strictObject ["kind", "text", "metadata"] v
    return .append (← required readString "text" ms) (← required Metadata.ofJson "metadata" ms)
  else if kind = js "slide" then
    let ms ← strictObject ["kind", "drop", "text", "metadata"] v
    return .slide (← required Count.ofJson "drop" ms) (← required readString "text" ms)
      (← required Metadata.ofJson "metadata" ms)
  else if kind = js "metadata" then
    let ms ← strictObject ["kind", "metadata"] v
    return .metadata (← required Metadata.ofJson "metadata" ms)
  else none

def ErrorCode.ofJson (v : Json) : Option ErrorCode :=
  (readString v).bind fun s =>
    [ErrorCode.aborted, .timeout, .shell_unavailable, .spawn_error, .callback_error,
      .unknown].find? (fun c => c.name = s)

/-- `z.discriminatedUnion("ok", ...)`. -/
def ExecExit.ofJson (v : Json) : Option ExecExit := do
  let ok ← match v with
    | .obj ms => required readBool "ok" ms
    | _ => none
  if ok then
    let ms ← strictObject ["ok", "value"] v
    let value ← required (strictObject ("exitCode" :: metadataNames)) "value" ms
    return .ok (← required readSafeInt "exitCode" value) (← Metadata.ofMembers value)
  else
    let ms ← strictObject ["ok", "error"] v
    let error ← required (strictObject ["code", "message"]) "error" ms
    return .error (← required ErrorCode.ofJson "code" error) (← required readString "message" error)

/-- `z.union`: the first of the two that accepts. -/
def ExecRecord.ofJson (v : Json) : Option ExecRecord :=
  let update := do
    let ms ← strictObject ["update"] v
    return ExecRecord.update (← required ShellOutputUpdate.ofJson "update" ms)
  let exit := do
    let ms ← strictObject ["exit"] v
    return ExecRecord.exit (← required ExecExit.ofJson "exit" ms)
  update.or exit

/-! ## The round trip -/

@[simp] theorem Count.ofJson_toJson (n : Count) : Count.ofJson n.toJson = some n := by
  simp [Count.ofJson, Count.toJson, n.le]

@[simp] theorem Limit.ofJson_toJson (n : Limit) : Limit.ofJson n.toJson = some n := by
  simp [Limit.ofJson, Limit.toJson, n.le, n.pos]

@[simp] theorem SpillPath.ofJson_str (p : SpillPath) : SpillPath.ofJson (.str p.val) = some p := by
  simp [SpillPath.ofJson, readString, p.le]

@[simp] theorem ErrorCode.ofJson_name (c : ErrorCode) : ErrorCode.ofJson (.str c.name) = some c := by
  cases c <;> simp [ErrorCode.ofJson, readString, ErrorCode.name, js_inj, List.find?]

@[simp] theorem Truncation.ofJson_toJson (t : Truncation) : Truncation.ofJson t.toJson = some t := by
  obtain ⟨_, by', _, _, _, _, _, _, _, _⟩ := t
  rcases by' with _ | _ | _ <;>
    simp [Truncation.ofJson, Truncation.toJson, strictObject, required, Json.member?, js_inj,
      readBool, readTruncatedBy, TruncatedBy.name]

theorem Metadata.ofMembers_append (m : Metadata) (pre : Members) (hpre : ∀ p ∈ pre, ∀ n ∈ metadataNames, p.1 ≠ js n) :
    Metadata.ofMembers (pre ++ m.members) = some m := by
  have hskip : ∀ n ∈ metadataNames, Json.member? (js n) (pre ++ m.members) = Json.member? (js n) m.members := by
    intro n hn
    induction pre with
    | nil => rfl
    | cons p pre ih =>
      rw [List.cons_append, Json.member?, ih fun q hq => hpre q (by simp [hq]),
        if_neg (hpre p (by simp) n hn), Option.or_none]
  obtain ⟨t, spill, last⟩ := m
  simp only [Metadata.ofMembers, required, optional?, hskip "truncation" (by simp [metadataNames]),
    hskip "spillPath" (by simp [metadataNames]), hskip "lastLineBytes" (by simp [metadataNames])]
  cases spill <;> cases last <;> simp [Metadata.members, optionalMember, Json.member?, js_inj]

theorem mem_optionalMember {name : String} {value : Option Json} {p : JsString × Json}
    (h : p ∈ optionalMember name value) : p.1 = js name := by
  cases value with
  | none => exact absurd h (by simp [optionalMember])
  | some v => rw [List.mem_singleton.mp h]

theorem Metadata.members_names (m : Metadata) : ∀ p ∈ m.members, ∃ n ∈ metadataNames, js n = p.1 := by
  intro p hp
  rcases List.mem_append.mp hp with hp | hp
  · rcases List.mem_cons.mp hp with rfl | hp
    · exact ⟨"truncation", by simp [metadataNames], rfl⟩
    · exact ⟨"spillPath", by simp [metadataNames], (mem_optionalMember hp).symm⟩
  · exact ⟨"lastLineBytes", by simp [metadataNames], (mem_optionalMember hp).symm⟩

theorem Metadata.member?_none (m : Metadata) (name : String) (h : name ∉ metadataNames) :
    Json.member? (js name) m.members = none := by
  have key : ∀ ms : Members, (∀ p ∈ ms, p.1 ≠ js name) → Json.member? (js name) ms = none := by
    intro ms
    induction ms with
    | nil => exact fun _ => rfl
    | cons p ms ih =>
      intro hp
      rw [Json.member?, ih fun q hq => hp q (by simp [hq]), if_neg (hp p (by simp))]
      rfl
  refine key m.members fun p hp e => ?_
  obtain ⟨n, hn, hp⟩ := m.members_names p hp
  exact h (js_inj.mp (hp.trans e) ▸ hn)

theorem strictObject_metadata (m : Metadata) (names : List String) (pre : Members)
    (hpre : ∀ p ∈ pre, ∃ n ∈ names, js n = p.1) (hm : ∀ n ∈ metadataNames, n ∈ names) :
    strictObject names (.obj (pre ++ m.members)) = some (pre ++ m.members) := by
  refine if_pos (List.all_eq_true.mpr fun p hp => List.any_eq_true.mpr ?_)
  rcases List.mem_append.mp hp with hp | hp
  · obtain ⟨n, hn, e⟩ := hpre p hp
    exact ⟨n, hn, by simpa using e⟩
  · obtain ⟨n, hn, e⟩ := m.members_names p hp
    exact ⟨n, hm n hn, by simpa using e⟩

@[simp] theorem Metadata.ofJson_obj (m : Metadata) : Metadata.ofJson (.obj m.members) = some m := by
  have h := strictObject_metadata m metadataNames [] (by simp) fun n hn => hn
  have hm := m.ofMembers_append [] (by simp)
  rw [List.nil_append] at h hm
  rw [Metadata.ofJson, h, Option.bind_some, hm]

@[simp] theorem ShellOutputView.ofJson_toJson (v : ShellOutputView) : ShellOutputView.ofJson v.toJson = some v := by
  have h := strictObject_metadata v.metadata ("text" :: metadataNames) [(js "text", .str v.text)]
    (by simp) fun n hn => by simp [hn]
  have hm := v.metadata.ofMembers_append [(js "text", .str v.text)] (by simp [metadataNames, js_inj])
  have ht : Json.member? (js "text") v.metadata.members = none :=
    v.metadata.member?_none "text" (by simp [metadataNames])
  rw [List.singleton_append] at h hm
  simp [ShellOutputView.ofJson, ShellOutputView.toJson, h, hm, required, Json.member?, ht, readString]

@[simp] theorem ShellOutputUpdate.ofJson_toJson (u : ShellOutputUpdate) :
    ShellOutputUpdate.ofJson u.toJson = some u := by
  cases u <;> simp [ShellOutputUpdate.ofJson, ShellOutputUpdate.toJson, strictObject, required,
      Json.member?, js_inj, readString]

@[simp] theorem ExecExit.ofJson_toJson (e : ExecExit) : ExecExit.ofJson e.toJson = some e := by
  cases e with
  | ok exitCode m =>
    have h := strictObject_metadata m ("exitCode" :: metadataNames)
      [(js "exitCode", Json.ofInt exitCode.val)] (by simp) fun n hn => by simp [hn]
    have hm := m.ofMembers_append [(js "exitCode", Json.ofInt exitCode.val)] (by simp [metadataNames, js_inj])
    have ht : Json.member? (js "exitCode") m.members = none := m.member?_none "exitCode" (by simp [metadataNames])
    rw [List.singleton_append] at h hm
    simp [ExecExit.ofJson, ExecExit.toJson, strictObject.eq_1 ["ok", "value"], required,
      Json.member?, js_inj, readBool, h, hm, ht]
  | error code message =>
    simp [ExecExit.ofJson, ExecExit.toJson, strictObject, required, Json.member?, js_inj, readBool, readString]

/-- **What the node records is what the server reads.** -/
@[simp] theorem ExecRecord.ofJson_toJson (r : ExecRecord) : ExecRecord.ofJson r.toJson = some r := by
  cases r <;> simp [ExecRecord.ofJson, ExecRecord.toJson, strictObject, required, Json.member?, js_inj]

end Reins.PiExec
