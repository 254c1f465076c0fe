import Reins.NodeProtocol.RpcPeer

/-!
# Node rejections (`node-protocol/src/errors.ts`)

A command's rejection crosses the link as an `APPLICATION_ERROR` whose data is a `NodeError`. The
message's bound is part of the type, so that what the node sends is what `nodeError` accepts.
-/

open Utf Schema

namespace Reins.Rpc

inductive NodeErrorCode
  | unavailable
  | invalid_request
  | not_found
  | internal
  deriving DecidableEq

structure NodeError where
  code : NodeErrorCode
  message : JsString
  le : message.length ≤ MAX_ERROR_MESSAGE
  retryable : Bool

def NodeErrorCode.name : NodeErrorCode → JsString
  | .unavailable => js "unavailable"
  | .invalid_request => js "invalid_request"
  | .not_found => js "not_found"
  | .internal => js "internal"

def NodeError.toJson (e : NodeError) : Json :=
  .obj [(js "code", .str e.code.name), (js "message", .str e.message), (js "retryable", .bool e.retryable)]

def NodeErrorCode.ofJson (v : Json) : Option NodeErrorCode :=
  (readString v).bind fun s =>
    [NodeErrorCode.unavailable, .invalid_request, .not_found, .internal].find? fun c => c.name = s

/-- `nodeError.safeParse`. -/
def NodeError.ofJson (v : Json) : Option NodeError := do
  let ms ← strictObject ["code", "message", "retryable"] v
  let code ← required NodeErrorCode.ofJson "code" ms
  let message ← required readString "message" ms
  let retryable ← required readBool "retryable" ms
  if h : message.length ≤ MAX_ERROR_MESSAGE then return ⟨code, message, h, retryable⟩ else none

@[simp] theorem NodeErrorCode.ofJson_name (c : NodeErrorCode) : NodeErrorCode.ofJson (.str c.name) = some c := by
  cases c <;> simp [NodeErrorCode.ofJson, readString, NodeErrorCode.name, js_inj, List.find?]

theorem NodeError.ofJson_toJson (e : NodeError) : NodeError.ofJson e.toJson = some e := by
  obtain ⟨code, message, h, retryable⟩ := e
  simp [NodeError.ofJson, NodeError.toJson, strictObject, required, Json.member?, js_inj, readString, readBool, h]

def nodeError : ErrorData where
  parse v := if (v.bind NodeError.ofJson).isSome then some v else none
  same h := by
    split at h
    · exact (Option.some.inj h).symm
    · cases h

/-- A rejection that says the command was not run and may be sent again. -/
def refusing (code : SafeInt) (data : Value) : Bool :=
  code = APPLICATION_ERROR && (data.bind NodeError.ofJson).any fun e => e.code = .unavailable && e.retryable

@[simp] theorem refusing_none (code : SafeInt) : refusing code none = false := by
  simp [refusing]

end Reins.Rpc
