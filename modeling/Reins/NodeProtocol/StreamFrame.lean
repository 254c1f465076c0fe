import Reins.Lib.Base64
import Reins.NodeProtocol.RpcPeer

/-!
# Stream frames (`node-protocol/src/{server-methods,fields}.ts`)

A stream crosses the link as notifications: `stream.data` with its next bytes, as text or as base64,
and `stream.end`. `ofText` is what the server's peer makes of a frame's text: a notification the
method's schema refuses is dropped.
-/

open Utf Schema

namespace Reins.NodeStreams

open Rpc

def STREAM_CHUNK_BYTES : Nat := 64 * 1024
def MAX_STREAM_CHUNK_CHARS : Nat := 2 * STREAM_CHUNK_BYTES
def MAX_PROCESS_STDERR_CHARS : Nat := 64 * 1024

/-! ## Values -/

structure StreamId where
  val : JsString
  pos : 1 ≤ val.length
  le : val.length ≤ 128
  deriving DecidableEq

structure ProcessExit where
  code : Option SafeInt
  signal : Option JsString
  signal_le : ∀ s ∈ signal, s.length ≤ 32
  stderr : JsString
  stderr_le : stderr.length ≤ MAX_PROCESS_STDERR_CHARS

structure StreamData where
  streamId : StreamId
  offset : Nat
  data : JsString
  /-- `encoding: "base64"`. -/
  base64 : Bool

structure StreamEnd where
  streamId : StreamId
  error : Option JsString
  exit : Option ProcessExit

/-! ## Writing -/

def nullable {α : Type} (toJson : α → Json) : Option α → Json
  | none => .null
  | some a => toJson a

def ProcessExit.toJson (e : ProcessExit) : Json :=
  .obj [(js "code", nullable (fun n => Json.ofInt n.val) e.code),
    (js "signal", nullable .str e.signal), (js "stderr", .str e.stderr)]

def StreamData.toJson (d : StreamData) : Json :=
  .obj ([(js "streamId", .str d.streamId.val), (js "offset", Json.ofInt d.offset), (js "data", .str d.data)]
    ++ optionalMember "encoding" (if d.base64 then some (.str (js "base64")) else none))

def StreamEnd.toJson (e : StreamEnd) : Json :=
  .obj ((js "streamId", .str e.streamId.val) :: optionalMember "error" (e.error.map .str)
    ++ optionalMember "exit" (e.exit.map ProcessExit.toJson))

inductive StreamFrame
  | data (d : StreamData)
  | stop (e : StreamEnd)

def STREAM_DATA : JsString := js "stream.data"
def STREAM_END : JsString := js "stream.end"

/-- `server.notify`'s frame. -/
def StreamFrame.frame : StreamFrame → Frame
  | .data d => .notification STREAM_DATA (some d.toJson)
  | .stop e => .notification STREAM_END (some e.toJson)

def StreamFrame.text (f : StreamFrame) : List Char := f.frame.text

/-! ## Reading -/

def StreamId.ofJson (v : Json) : Option StreamId :=
  (readString v).bind fun s => if h : 1 ≤ s.length ∧ s.length ≤ 128 then some ⟨s, h.1, h.2⟩ else none

def readNullable {α : Type} (read : Json → Option α) : Json → Option (Option α)
  | .null => some none
  | v => (read v).map some

def ProcessExit.ofJson (v : Json) : Option ProcessExit := do
  let ms ← strictObject ["code", "signal", "stderr"] v
  let code ← required (readNullable readSafeInt) "code" ms
  let signal ← required (readNullable readString) "signal" ms
  let stderr ← required readString "stderr" ms
  if h : (∀ s ∈ signal, s.length ≤ 32) ∧ stderr.length ≤ MAX_PROCESS_STDERR_CHARS then
    return ⟨code, signal, h.1, stderr, h.2⟩
  else none

/-- The bounds of `streamDataParams`, and its check of the base64. -/
def StreamData.Accepted (d : StreamData) : Prop :=
  d.offset ≤ MAX_SAFE_INTEGER ∧ 1 ≤ d.data.length ∧ d.data.length ≤ MAX_STREAM_CHUNK_CHARS ∧
    (d.base64 = true → Base64.wellFormed (scalars d.data) = true)

instance : DecidablePred StreamData.Accepted := fun d => by
  unfold StreamData.Accepted
  infer_instance

/-- `z.number().int().min(0)`. -/
def readOffset (v : Json) : Option Nat := (readSafeInt v).bind fun n => if 0 ≤ n.val then some n.val.toNat else none

/-- `streamDataParams.safeParse`. -/
def StreamData.ofJson (v : Json) : Option StreamData := do
  let ms ← strictObject ["streamId", "offset", "data", "encoding"] v
  let streamId ← required StreamId.ofJson "streamId" ms
  let offset ← required readOffset "offset" ms
  let data ← required readString "data" ms
  let encoding ← optional? (readLiteral "base64") "encoding" ms
  let d : StreamData := ⟨streamId, offset, data, encoding.isSome⟩
  if d.Accepted then return d else none

/-- `streamEndParams.safeParse`. -/
def StreamEnd.ofJson (v : Json) : Option StreamEnd := do
  let ms ← strictObject ["streamId", "error", "exit"] v
  let streamId ← required StreamId.ofJson "streamId" ms
  let error ← optional? readString "error" ms
  let exit ← optional? ProcessExit.ofJson "exit" ms
  if (error.all fun m => m.length ≤ MAX_ERROR_MESSAGE) then return ⟨streamId, error, exit⟩ else none

def StreamFrame.ofText (t : List Char) : Option StreamFrame :=
  match (Json.parse t).bind Frame.read with
  | some (.notification method (some v)) =>
    if method = STREAM_DATA then (StreamData.ofJson v).map .data
    else if method = STREAM_END then (StreamEnd.ofJson v).map .stop
    else none
  | _ => none

/-! ## The round trip -/

@[simp] theorem StreamId.ofJson_str (i : StreamId) : StreamId.ofJson (.str i.val) = some i := by
  simp [StreamId.ofJson, readString, i.pos, i.le]

theorem readNullable_nullable {α : Type} (toJson : α → Json) (read : Json → Option α)
    (hnull : ∀ a, toJson a ≠ .null) (h : ∀ a, read (toJson a) = some a) (o : Option α) :
    readNullable read (nullable toJson o) = some o := by
  cases o with
  | none => rfl
  | some a =>
    have hn := hnull a
    simp only [nullable]
    unfold readNullable
    split
    next heq =>
      exact absurd heq hn
    · rw [h, Option.map_some]

theorem ProcessExit.ofJson_toJson (e : ProcessExit) : ProcessExit.ofJson e.toJson = some e := by
  obtain ⟨code, signal, hsignal, stderr, hstderr⟩ := e
  have h1 := readNullable_nullable (fun n : SafeInt => Json.ofInt n.val) readSafeInt
    (by simp [Json.ofInt]) readSafeInt_ofInt code
  have h2 := readNullable_nullable Json.str readString (by simp) (fun _ => rfl) signal
  simp [ProcessExit.ofJson, ProcessExit.toJson, strictObject, required, Json.member?, js_inj,
    readString, h1, h2, hstderr]
  exact hsignal

theorem readOffset_ofInt (n : Nat) : readOffset (Json.ofInt n) = if n ≤ MAX_SAFE_INTEGER then some n else none := by
  unfold readOffset readSafeInt
  rw [Json.toInt?_ofInt]
  by_cases h : n ≤ MAX_SAFE_INTEGER <;> simp [h]

theorem StreamFrame.ofText_data (d : StreamData) :
    StreamFrame.ofText (StreamFrame.data d).text = if d.Accepted then some (.data d) else none := by
  have hd : StreamData.ofJson d.toJson = if d.Accepted then some d else none := by
    have ho := readOffset_ofInt d.offset
    obtain ⟨id, offset, data, base64⟩ := d
    by_cases hle : offset ≤ MAX_SAFE_INTEGER
    · cases base64 <;> simp [StreamData.ofJson, StreamData.toJson, strictObject, required, optional?,
          Json.member?, js_inj, readString, optionalMember, ho, hle]
    have hno : ¬ StreamData.Accepted ⟨id, offset, data, base64⟩ := fun h => hle h.1
    cases base64 <;> simp [StreamData.ofJson, StreamData.toJson, strictObject, required, optional?,
        Json.member?, js_inj, readString, optionalMember, ho, hle, hno]
  simp only [StreamFrame.ofText, StreamFrame.text, Frame.read_text, StreamFrame.frame, hd, if_true]
  split <;> rfl

theorem StreamFrame.ofText_stop (e : StreamEnd) (h : ∀ m ∈ e.error, m.length ≤ MAX_ERROR_MESSAGE) :
    StreamFrame.ofText (StreamFrame.stop e).text = some (.stop e) := by
  have he : StreamEnd.ofJson e.toJson = some e := by
    obtain ⟨id, error, exit⟩ := e
    have hx := ProcessExit.ofJson_toJson
    cases error <;> cases exit <;>
      simp [StreamEnd.ofJson, StreamEnd.toJson, strictObject, required, optional?, Json.member?,
        js_inj, readString, optionalMember, hx] at h ⊢
    all_goals exact h
  have hne : STREAM_END ≠ STREAM_DATA := by simp [STREAM_END, STREAM_DATA, js_inj]
  simp [StreamFrame.ofText, StreamFrame.text, Frame.read_text, StreamFrame.frame, he, hne]

end Reins.NodeStreams
