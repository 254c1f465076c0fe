import Reins.Lib.Run
import Reins.NodeProtocol.RpcFrame

/-!
# The RPC peer (`node-protocol/src/rpc.ts`, `createRpcPeer`)

One end of a link. `call` and `receive` run to their end when they are called, so each is one step;
a timer or an abort that fires, a handler that settles and its `finally` are steps of their own, in
any order. Whether `socket.send` throws is the environment's.

`settled`, `issued`, `sent`, `notified`, `replies`, `threw` and `unhandled` are logs of what the peer
did: what it settled and why, the ids it gave out, the frames the socket took, the notifications it
handed over, the replies by the request they answer, the exceptions that left `receive` and the
requests whose promise chain rejected with nobody to handle it.
-/

open Utf Schema

namespace Reins.Rpc

def MAX_IN_FLIGHT : Nat := 64
def MAX_ERROR_MESSAGE : Nat := 2048
def MAX_ERROR_DATA_BYTES : Nat := 8192
def MAX_EXPIRED : Nat := 1024

def bytes : Value → Nat
  | none => 0
  | some v => byteLength (Json.stringify v)

/-! ## What a peer is given -/

/-- A schema's `safeParse`. -/
abbrev Validator := Value → Option Value

/-- A call's result schema. None of them transforms, so it accepts what it gave. -/
structure CallSchema where
  parse : Validator
  again : ∀ {v w : Value}, parse v = some w → parse w = some w

/-- The schema of an error's data: a strict object, which gives back what it accepts. -/
structure ErrorData where
  parse : Validator
  same : ∀ {v w : Value}, parse v = some w → w = v

inductive Handler
  | request (params result : Validator)
  | notification (params : Validator)

structure Config where
  handlers : List (JsString × Handler)
  maxFrameBytes : Nat
  missedIntervals : Nat

/-- The names an object has without being given them. -/
def OBJECT_PROTOTYPE : List String :=
  ["constructor", "__defineGetter__", "__defineSetter__", "hasOwnProperty", "__lookupGetter__",
    "__lookupSetter__", "isPrototypeOf", "propertyIsEnumerable", "toString", "valueOf", "__proto__",
    "toLocaleString"]

/-- `handlers[method]`: a handler, something every object has, or `undefined`. -/
inductive Found
  | own (h : Handler)
  | inherited
  | missing

def Config.handler (cfg : Config) (method : JsString) : Found :=
  match cfg.handlers.lookup method with
  | some h => .own h
  | none => if method ∈ OBJECT_PROTOTYPE.map js then .inherited else .missing

def HEARTBEAT_METHOD : JsString := js "node.ping"

/-! ## State -/

inductive Code
  | number (n : SafeInt)
  | unavailable
  deriving DecidableEq

structure RpcFailure where
  code : Code
  message : JsString
  unknown : Bool
  data : Value

/-- A call waiting for its reply. `call` is the number of the `call` that made it. -/
structure Pending where
  call : Nat
  id : JsString
  schema : CallSchema
  errorData : Option ErrorData

inductive Cause
  | refused
  | sendFailed
  | reply (id : Id)
  | abandoned (id : JsString)
  | closed

structure Settlement where
  call : Nat
  cause : Cause
  outcome : Except RpcFailure Value

/-- A request whose handler was started and whose `finally` has not run. -/
structure Handling where
  number : Nat
  id : Id
  method : JsString
  params : Value
  result : Validator
  done : Bool

structure Peer where
  closed : Bool
  heard : Bool
  missed : Nat
  nextId : Nat
  inbound : Nat
  pending : List Pending
  expired : List JsString
  handling : List Handling
  calls : Nat
  dispatched : Nat
  settled : List Settlement
  issued : List (Nat × JsString)
  sent : List Frame
  notified : List (JsString × Value)
  replies : List (Nat × Frame)
  threw : List Frame
  unhandled : List Nat

def Peer.fresh : Peer :=
  { closed := false, heard := true, missed := 0, nextId := 0, inbound := 0, pending := [],
    expired := [], handling := [], calls := 0, dispatched := 0, settled := [], issued := [],
    sent := [], notified := [], replies := [], threw := [], unhandled := [] }

/-! ## Sending and closing -/

def unavailable (message : String) (unknown : Bool) : RpcFailure := ⟨.unavailable, js message, unknown, none⟩

def internal (message : String) : RpcFailure := ⟨.number INTERNAL_ERROR, js message, false, none⟩

def Peer.settle (p : Peer) (call : Nat) (cause : Cause) (outcome : Except RpcFailure Value) : Peer :=
  { p with settled := p.settled ++ [⟨call, cause, outcome⟩] }

def Peer.fail (p : Peer) : Peer :=
  if p.closed then p
  else
    { p with
      closed := true, pending := [],
      settled := p.settled ++ p.pending.map fun c =>
        ⟨c.call, .closed, .error (unavailable "Connection closed; outcome unknown" true)⟩ }

/-- What `send` throws. -/
inductive SendError
  | tooLarge
  | socket
  deriving DecidableEq

def Config.sendError (cfg : Config) (throws : Bool) (f : Frame) : Option SendError :=
  if cfg.maxFrameBytes < byteLength f.text then some .tooLarge
  else if throws then some .socket
  else none

/-- `send`, where it does not throw. -/
def Peer.send (p : Peer) (f : Frame) : Peer := { p with sent := p.sent ++ [f] }

def Config.tooLarge (cfg : Config) : RpcFailure :=
  ⟨.number FRAME_TOO_LARGE, js s!"Frame exceeds {cfg.maxFrameBytes} bytes", false, none⟩

/-! ## Calls -/

/-- What `call` is given. -/
structure CallRequest where
  method : JsString
  params : Value
  schema : CallSchema
  errorData : Option ErrorData
  aborted : Bool

def Peer.call (cfg : Config) (throws : Bool) (p : Peer) (r : CallRequest) : Peer :=
  let call := p.calls
  let p := { p with calls := call + 1 }
  if p.closed then p.settle call .refused (.error (unavailable "Connection closed" false))
  else if MAX_IN_FLIGHT ≤ p.pending.length then
    p.settle call .refused (.error (unavailable "Too many in-flight calls" false))
  else if r.aborted then
    p.settle call .refused (.error (unavailable "Call aborted before sending" false))
  else
    let id := rpcId (p.nextId + 1)
    let p := { p with nextId := p.nextId + 1, issued := p.issued ++ [(call, id)] }
    let f := .request (.str id) r.method r.params
    match cfg.sendError throws f with
    | none => { p.send f with pending := p.pending ++ [⟨call, id, r.schema, r.errorData⟩] }
    -- An oversized frame was never sent: only that call fails. A socket failure closes the peer.
    | some .tooLarge => p.settle call .sendFailed (.error cfg.tooLarge)
    | some .socket => (p.settle call .sendFailed (.error (unavailable "Send failed; outcome unknown" true))).fail

inductive Abandonment
  | timedOut (ms : Nat)
  | aborted

def Abandonment.message : Abandonment → String
  | .timedOut ms => s!"Call timed out after {ms}ms"
  | .aborted => "Call aborted"

/-- `Map.get`. -/
def Peer.waiting (p : Peer) (id : JsString) : Option Pending := p.pending.find? fun c => c.id = id

/-- `Map.delete`. -/
def Peer.drop (p : Peer) (id : JsString) : Peer := { p with pending := p.pending.filter fun c => c.id ≠ id }

/-- `Set.add`, and the oldest goes where the set is over its cap. -/
def remember (expired : List JsString) (id : JsString) : List JsString :=
  let expired := if id ∈ expired then expired else expired ++ [id]
  if MAX_EXPIRED < expired.length then expired.tail else expired

/-- `abandon`: the timer or the signal of the call with this id fired. -/
def Peer.abandon (p : Peer) (id : JsString) (why : Abandonment) : Peer :=
  match p.waiting id with
  | none => p
  | some c =>
    { p.drop id with expired := remember p.expired id }.settle c.call (.abandoned id)
      (.error (unavailable (why.message ++ "; outcome unknown") true))

def Peer.notify (cfg : Config) (throws : Bool) (p : Peer) (method : JsString) (params : Value) :
    Peer :=
  if p.closed then p
  else
    let f := .notification method params
    match cfg.sendError throws f with
    | none => p.send f
    | some .tooLarge => p
    | some .socket => p.fail

/-- The intervals with nothing heard, this one included. -/
def Peer.silence (p : Peer) : Nat := if p.heard then 0 else p.missed + 1

def Peer.beat (cfg : Config) (throws : Bool) (p : Peer) : Peer :=
  if p.closed then p
  else if p.heard = false ∧ cfg.missedIntervals ≤ p.silence then
    { p with missed := p.silence }.fail
  else
    let p := { p with missed := p.silence, heard := false }
    let f := .notification HEARTBEAT_METHOD (some (.obj []))
    match cfg.sendError throws f with
    | none => p.send f
    | some _ => p.fail

/-! ## Receiving -/

/-- A frame as the socket delivers it. -/
inductive Data
  | text (t : List Char)
  | binary

/-- An error reply to a request that is not dispatched: what `send` throws leaves `receive`. -/
def Peer.refuse (cfg : Config) (throws : Bool) (p : Peer) (request : Frame) (id : Id)
    (code : SafeInt) (message : String) : Peer :=
  let f := .error id code (js message) none
  match cfg.sendError throws f with
  | none => p.send f
  | some _ => { p with threw := p.threw ++ [request] }

def Peer.request (cfg : Config) (throws : Bool) (p : Peer) (id : Id) (method : JsString) (params : Value) : Peer :=
  let request := .request id method params
  match cfg.handler method with
  -- What is inherited has no `notify` and no `params` either: reading `safeParse` of it throws.
  | .inherited => { p with threw := p.threw ++ [request] }
  | .missing | .own (.notification _) => p.refuse cfg throws request id METHOD_NOT_FOUND "Method not found"
  | .own (.request schema result) =>
    match schema params with
    | none => p.refuse cfg throws request id INVALID_PARAMS "Invalid params"
    | some parsed =>
      if MAX_IN_FLIGHT ≤ p.inbound then p.refuse cfg throws request id BUSY "Busy"
      else
        { p with
          inbound := p.inbound + 1, dispatched := p.dispatched + 1,
          handling := p.handling ++ [⟨p.dispatched, id, method, parsed, result, false⟩] }

/-- A notification: best effort, dropped where nothing takes it. -/
def Peer.notification (cfg : Config) (p : Peer) (method : JsString) (params : Value) : Peer :=
  if method = HEARTBEAT_METHOD then p
  else
    match cfg.handler method with
    | .own (.notification schema) =>
      match schema params with
      | none => p
      | some parsed => { p with notified := p.notified ++ [(method, parsed)] }
    | _ => p

def readErrorData (errorData : Option ErrorData) (detail : Value) : Option Value :=
  match detail, errorData with
  | none, _ | _, none => some none
  | some _, some schema => if MAX_ERROR_DATA_BYTES < bytes detail then none else schema.parse detail

theorem readErrorData_same {errorData : Option ErrorData} {detail w : Value}
    (h : readErrorData errorData detail = some w) : w = none ∨ w = detail := by
  unfold readErrorData at h
  split at h
  · exact Or.inl (Option.some.inj h).symm
  · exact Or.inl (Option.some.inj h).symm
  · split at h
    · cases h
    next schema _ =>
      exact Or.inr (schema.same h)

/-- A reply settles its call; one to an id that is no longer remembered, or never was given out,
closes the link. -/
def Peer.reply (p : Peer) (id : Id) (settle : Peer → Pending → Peer) : Peer :=
  match p.waiting id.key with
  | none => if id.key ∈ p.expired then { p with expired := p.expired.erase id.key } else p.fail
  | some c => settle (p.drop id.key) c

/-- `call.resolve` parses once more: `receive` would throw what that throws. -/
def Peer.result (p : Peer) (id : Id) (value : Value) : Peer :=
  p.reply id fun p c =>
    match c.schema.parse value with
    | none => (p.settle c.call (.reply id) (.error (internal "Invalid response"))).fail
    | some v =>
      match c.schema.parse v with
      | none => { p with threw := p.threw ++ [.result id value] }
      | some w => p.settle c.call (.reply id) (.ok w)

def Peer.error (p : Peer) (id : Id) (code : SafeInt) (message : JsString) (data : Value) : Peer :=
  p.reply id fun p c =>
    match readErrorData c.errorData data with
    | none => (p.settle c.call (.reply id) (.error (internal "Invalid error response"))).fail
    | some detail =>
      if MAX_ERROR_MESSAGE < message.length then
        (p.settle c.call (.reply id) (.error (internal "Invalid error response"))).fail
      else p.settle c.call (.reply id) (.error ⟨.number code, message, false, detail⟩)

def Peer.take (cfg : Config) (throws : Bool) (p : Peer) : Frame → Peer
  | .request id method params => p.request cfg throws id method params
  | .notification method params => p.notification cfg method params
  | .result id value => p.result id value
  | .error id code message data => p.error id code message data

def Peer.receive (cfg : Config) (throws : Bool) (p : Peer) (data : Data) : Peer :=
  if p.closed then p
  else
    let p := { p with heard := true }
    match data with
    | .binary => p.fail
    | .text t =>
      if cfg.maxFrameBytes < byteLength t then p.fail
      else
        match (Json.parse t).bind Frame.read with
        | none => p.fail
        | some f => p.take cfg throws f

/-! ## Answering -/

/-- How a handler settles: it returns, fails with an `RpcFailure`, or throws anything else. -/
inductive Outcome
  | returned (value : Value)
  | failed (f : RpcFailure)
  | threw

def errorReply (id : Id) (f : RpcFailure) : Frame :=
  let code := match f.code with
    | .number n => n
    | .unavailable => INTERNAL_ERROR
  if f.data = none then .error id code (f.message.take MAX_ERROR_MESSAGE) none
  else if MAX_ERROR_DATA_BYTES < bytes f.data then
    .error id INTERNAL_ERROR (js "Internal error") none
  else .error id code (f.message.take MAX_ERROR_MESSAGE) f.data

def Config.answer (cfg : Config) (throws : Bool) (h : Handling) : Outcome → Except RpcFailure Frame
  | .failed f => .error f
  | .threw => .error (internal "Internal error")
  | .returned value =>
    match h.result value with
    | none => .error (internal "Invalid handler result")
    | some checked =>
      let f := .result h.id checked
      match cfg.sendError throws f with
      | none => .ok f
      | some .tooLarge => .error cfg.tooLarge
      | some .socket => .error (internal "Internal error")

/-- What a settled handler's chain sends, if that does not throw. The `catch` sends too, and has no
`catch` after it. -/
def Config.replyTo (cfg : Config) (throws throwsAgain : Bool) (h : Handling) (o : Outcome) : Option Frame :=
  match cfg.answer throws h o with
  | .ok f => some f
  | .error failure =>
    if cfg.sendError throwsAgain (errorReply h.id failure) = none then
      some (errorReply h.id failure)
    else none

def Peer.finished (p : Peer) (number : Nat) : Peer :=
  { p with
    handling := p.handling.map fun h => if h.number = number then { h with done := true } else h }

def Peer.finish (cfg : Config) (throws throwsAgain : Bool) (p : Peer) (number : Nat) (o : Outcome) :
    Peer :=
  match p.handling.find? fun h => h.number = number ∧ h.done = false with
  | none => p
  | some h =>
    let p' := p.finished number
    if p.closed then p'
    else
      match cfg.replyTo throws throwsAgain h o with
      | some f => { p'.send f with replies := p.replies ++ [(number, f)] }
      | none => { p' with unhandled := p.unhandled ++ [number] }

/-- Its `finally`. -/
def Peer.release (p : Peer) (number : Nat) : Peer :=
  match p.handling.find? fun h => h.number = number ∧ h.done = true with
  | none => p
  | some _ =>
    { p with
      inbound := p.inbound - 1, handling := p.handling.filter fun h => h.number ≠ number }

/-! ## Steps -/

/-- `throws` says whether `socket.send` throws where the step sends; a handler's answer sends twice
where its first frame is not sent. -/
inductive Event
  | call (r : CallRequest) (throws : Bool)
  | notify (method : JsString) (params : Value) (throws : Bool)
  | abandon (n : Nat) (why : Abandonment)
  | receive (data : Data) (throws : Bool)
  | finish (number : Nat) (o : Outcome) (throws throwsAgain : Bool)
  | release (number : Nat)
  | beat (throws : Bool)
  | close

def step (cfg : Config) (p : Peer) : Event → Peer
  | .call r throws => p.call cfg throws r
  | .notify method params throws => p.notify cfg throws method params
  | .abandon n why => p.abandon (rpcId n) why
  | .receive data throws => p.receive cfg throws data
  | .finish number o throws throwsAgain => p.finish cfg throws throwsAgain number o
  | .release number => p.release number
  | .beat throws => p.beat cfg throws
  | .close => p.fail

def run (cfg : Config) (es : List Event) : Peer := Run.exec (step cfg) .fresh es

end Reins.Rpc
