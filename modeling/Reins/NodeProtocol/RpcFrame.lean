import Reins.Lib.Schema

/-!
# JSON-RPC frames (`node-protocol/src/rpc.ts`)

A frame is a request, a notification or a response. `read` is what `receive` makes of a text that
parsed: the request schema first, then the notification's, then the response's, each a strict
object. A member that `JSON.stringify` leaves out because it is `undefined` is one `z.unknown()`
accepts as missing, so what one peer writes the other reads back (`Frame.read_toJson`).
-/

open Utf Schema

namespace Reins.Rpc

/-- A JavaScript value that crosses the link, or `undefined`. -/
abbrev Value := Option Json

/-! ## Error codes -/

def METHOD_NOT_FOUND : SafeInt := ⟨-32601, by decide⟩
def INVALID_PARAMS : SafeInt := ⟨-32602, by decide⟩
def INTERNAL_ERROR : SafeInt := ⟨-32603, by decide⟩
def BUSY : SafeInt := ⟨-32002, by decide⟩
def UNAUTHORIZED : SafeInt := ⟨-32003, by decide⟩
def FRAME_TOO_LARGE : SafeInt := ⟨-32004, by decide⟩
/-- An application rejection, a `NodeError` as its data. -/
def APPLICATION_ERROR : SafeInt := ⟨-32000, by decide⟩

/-! ## Frames -/

inductive Id
  | str (s : JsString)
  | num (n : SafeInt)
  deriving DecidableEq

def Id.key : Id → JsString
  | .str s => s
  | .num n => (Json.intLit n.val).flatMap units

inductive Frame
  | request (id : Id) (method : JsString) (params : Value)
  | notification (method : JsString) (params : Value)
  | result (id : Id) (value : Value)
  | error (id : Id) (code : SafeInt) (message : JsString) (data : Value)

def Id.toJson : Id → Json
  | .str s => .str s
  | .num n => Json.ofInt n.val

/-- The member every frame starts with. -/
def version : JsString × Json := (js "jsonrpc", .str (js "2.0"))

def Frame.toJson : Frame → Json
  | .request id method params =>
    .obj (version :: (js "id", id.toJson) :: (js "method", .str method) :: optionalMember "params" params)
  | .notification method params => .obj (version :: (js "method", .str method) :: optionalMember "params" params)
  | .result id value => .obj (version :: (js "id", id.toJson) :: optionalMember "result" value)
  | .error id code message data =>
    .obj [version, (js "id", id.toJson),
      (js "error", .obj ((js "code", Json.ofInt code.val) :: (js "message", .str message)
        :: optionalMember "data" data))]

def Frame.text (f : Frame) : List Char := Json.stringify f.toJson

def byteLength (text : List Char) : Nat := (encode text).length

/-! ## Reading -/

/-- `z.union([z.string(), z.number().int()])`. -/
def Id.ofJson (v : Json) : Option Id := ((readString v).map Id.str).or ((readSafeInt v).map Id.num)

def readRequest (v : Json) : Option Frame := do
  let ms ← strictObject ["jsonrpc", "id", "method", "params"] v
  required (readLiteral "2.0") "jsonrpc" ms
  let id ← required Id.ofJson "id" ms
  let method ← required readString "method" ms
  return .request id method (Json.member? (js "params") ms)

def readNotification (v : Json) : Option Frame := do
  let ms ← strictObject ["jsonrpc", "method", "params"] v
  required (readLiteral "2.0") "jsonrpc" ms
  let method ← required readString "method" ms
  return .notification method (Json.member? (js "params") ms)

def readResult (v : Json) : Option Frame := do
  let ms ← strictObject ["jsonrpc", "id", "result"] v
  required (readLiteral "2.0") "jsonrpc" ms
  let id ← required Id.ofJson "id" ms
  return .result id (Json.member? (js "result") ms)

def readError (v : Json) : Option Frame := do
  let ms ← strictObject ["jsonrpc", "id", "error"] v
  required (readLiteral "2.0") "jsonrpc" ms
  let id ← required Id.ofJson "id" ms
  let error ← required (strictObject ["code", "message", "data"]) "error" ms
  let code ← required readSafeInt "code" error
  let message ← required readString "message" error
  return .error id code message (Json.member? (js "data") error)

/-- What a frame is: the schemas in the order `receive` tries them. -/
def Frame.read (v : Json) : Option Frame :=
  (readRequest v).or ((readNotification v).or ((readResult v).or (readError v)))

/-! ## The round trip -/

@[simp] theorem Id.ofJson_toJson (id : Id) : Id.ofJson id.toJson = some id := by
  cases id with
  | str s => rfl
  | num n =>
    have hs : readString (Json.ofInt n.val) = none := rfl
    simp [Id.ofJson, Id.toJson, hs]

@[simp] theorem readLiteral_self (text : String) : readLiteral text (.str (js text)) = some () := if_pos rfl

/-- **What one peer writes, the other reads.** -/
theorem Frame.read_toJson (f : Frame) : Frame.read f.toJson = some f := by
  cases f with
  | request id method params =>
    have h : readRequest (Frame.request id method params).toJson = some (.request id method params) := by
      cases params <;> simp [readRequest, Frame.toJson, version, strictObject, required, optionalMember,
          Json.member?, js_inj, readString]
    rw [Frame.read, h, Option.some_or]
  | notification method params =>
    have h1 : readRequest (Frame.notification method params).toJson = none := by
      cases params <;> simp [readRequest, Frame.toJson, version, strictObject, required, optionalMember,
          Json.member?, js_inj]
    have h2 : readNotification (Frame.notification method params).toJson = some (.notification method params) := by
      cases params <;> simp [readNotification, Frame.toJson, version, strictObject, required, optionalMember,
          Json.member?, js_inj, readString]
    rw [Frame.read, h1, h2, Option.none_or, Option.some_or]
  | result id value =>
    have h1 : readRequest (Frame.result id value).toJson = none := by
      cases value <;> simp [readRequest, Frame.toJson, version, strictObject, required, optionalMember,
          Json.member?, js_inj]
    have h2 : readNotification (Frame.result id value).toJson = none := by
      simp [readNotification, Frame.toJson, version, strictObject, js_inj]
    have h3 : readResult (Frame.result id value).toJson = some (.result id value) := by
      cases value <;> simp [readResult, Frame.toJson, version, strictObject, required, optionalMember,
          Json.member?, js_inj]
    rw [Frame.read, h1, h2, h3, Option.none_or, Option.none_or, Option.some_or]
  | error id code message data =>
    have h1 : readRequest (Frame.error id code message data).toJson = none := by
      simp [readRequest, Frame.toJson, version, strictObject, js_inj]
    have h2 : readNotification (Frame.error id code message data).toJson = none := by
      simp [readNotification, Frame.toJson, version, strictObject, js_inj]
    have h3 : readResult (Frame.error id code message data).toJson = none := by
      simp [readResult, Frame.toJson, version, strictObject, js_inj]
    have h4 : readError (Frame.error id code message data).toJson = some (.error id code message data) := by
      cases data <;> simp [readError, Frame.toJson, version, strictObject, required, optionalMember,
          Json.member?, js_inj, readString]
    rw [Frame.read, h1, h2, h3, h4, Option.none_or, Option.none_or, Option.none_or]

theorem Frame.read_text (f : Frame) : (Json.parse f.text).bind Frame.read = some f := by
  rw [Frame.text, Json.parse_stringify, Option.bind_some, Frame.read_toJson]

/-- **A frame is one line**, whatever is in it, and the line is read back as the frame. -/
theorem Frame.one_line (f : Frame) :
    (∀ c ∈ f.text, 0x20 ≤ c.toNat) ∧ (Json.parse f.text).bind Frame.read = some f := by
  refine ⟨fun c hc => ?_, f.read_text⟩
  exact Json.stringify_visible f.toJson c hc

/-! ## A peer's own ids -/

/-- The id of a peer's `n`-th request. -/
def rpcId (n : Nat) : JsString := js s!"rpc-{n}"

theorem rpcId_inj {m n : Nat} : rpcId m = rpcId n ↔ m = n := by
  refine ⟨fun h => ?_, fun h => h ▸ rfl⟩
  have hs := congrArg String.toList (js_inj.mp h)
  simp only [String.toList_append, List.append_cancel_left_eq] at hs
  exact js_toString_inj.mp (js_inj.mpr (String.toList_inj.mp (by simpa using hs)))

end Reins.Rpc
