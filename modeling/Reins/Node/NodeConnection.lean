import Reins.NodeProtocol.RpcEffects

/-!
# The node's commands behind the peer (`node/src/node-connection.ts`, `node/src/node.ts`)

A request's handler waits for negotiation, then runs the command's method, which checks that the
node runs and, for `pi.exec`, that it is not pausing, before it does anything. `served` turns what
the method throws into the rejection that is sent.
-/

open Utf Schema

namespace Reins.Rpc

def rejection (code : NodeErrorCode) (message : JsString) (retryable : Bool) : RpcFailure :=
  let error : NodeError := { code, message := message.take MAX_ERROR_MESSAGE, le := List.length_take_le _ _, retryable }
  ⟨.number APPLICATION_ERROR, error.message, false, some error.toJson⟩

inductive Ran
  | returned (value : Value)
  /-- A `NodeRejection`, which is not retryable unless it says so: none of the commands' own is. -/
  | rejected (code : NodeErrorCode) (message : JsString)
  | failed (message : JsString)
  /-- An exception past `served`: the stream's id is in use. -/
  | threw

def Ran.outcome : Ran → Outcome
  | .returned value => .returned value
  | .rejected code message => .failed (rejection code message false)
  | .failed message => .failed (rejection .internal message false)
  | .threw => .threw

/-- What a handler finds when it gets to its command. -/
structure NodeState where
  negotiated : Bool
  running : Bool
  pausing : Bool

def NODE_AUTHENTICATE : JsString := js "node.authenticate"
def PI_EXEC : JsString := js "pi.exec"
def PROCESS_RUN : JsString := js "process.run"

/-- The failure a handler stops with before its command's own code, if it does. -/
def NodeState.gate (n : NodeState) (method : JsString) : Option RpcFailure :=
  if method = NODE_AUTHENTICATE then none
  else if n.negotiated = false then
    some ⟨.number UNAUTHORIZED, js "Not negotiated", false, none⟩
  else if n.running = false then some (rejection .internal (js "Node stopped") false)
  else if method = PI_EXEC ∧ n.pausing = true then
    some (rejection .unavailable (js "The node is pausing to restart: the command was not started") true)
  else none

def NodeState.serve (n : NodeState) (method : JsString) (ran : Ran) : Outcome × Bool :=
  match n.gate method with
  | some f => (.failed f, false)
  | none => (ran.outcome, true)

/-- The outcome says its command was not run and may be sent again. -/
def Outcome.refused : Outcome → Bool
  | .failed f => f.refused
  | _ => false

theorem rejection_refused (code : NodeErrorCode) (message : JsString) :
    (rejection code message false).refused = false := by
  simp [RpcFailure.refused, rejection, refusing, NodeError.ofJson_toJson]

/-- **A command that ran never answers that it did not.** -/
theorem serve_refused {n : NodeState} {method : JsString} {ran : Ran}
    (h : (n.serve method ran).1.refused = true) : (n.serve method ran).2 = false := by
  unfold NodeState.serve at h ⊢
  split at h
  · rfl
  cases ran with
  | returned value => exact absurd h (by simp [Ran.outcome, Outcome.refused])
  | rejected code message => exact absurd h (by simp [Ran.outcome, Outcome.refused, rejection_refused])
  | failed message => exact absurd h (by simp [Ran.outcome, Outcome.refused, rejection_refused])
  | threw => exact absurd h (by simp [Ran.outcome, Outcome.refused])

end Reins.Rpc
