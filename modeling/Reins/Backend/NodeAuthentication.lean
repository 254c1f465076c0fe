import Mathlib
import Reins.Backend.NodeHub
import Reins.Node.NodeConnection
import Reins.NodeProtocol.NodeAuth
import Reins.NodeProtocol.StreamFrame

/-!
# The server's end of one connection (`backend/src/nodes/{server-peer,node-hub}.ts`)

A connection and the peer under it, from the challenge it is created with to the link it becomes. What
the peer receives, the answer's check, a hello's start and its two awaits, `negotiated`'s resolution, the
hub's own calls and the node table each have an event, in any order: between any two of them any other
runs.

The frames are the peer's of `Reins.Rpc`, so a reply is taken for the challenge's exactly where
`createRpcPeer` takes it for that.
-/

open Utf Schema List

namespace Reins.NodeAuthentication

open Rpc NodeAuth
open NodeHub (NodeId BuildId NodeDocs Hello Negotiated HelloAnswer protocolVersion noCommonVersion)

/-! ## The hello (`node-protocol/src/negotiation.ts`) -/

def NODE_HELLO : JsString := js "node.hello"
def STREAM_CANCEL : JsString := js "stream.cancel"

def NEGOTIATION_FAILED : SafeInt := ⟨-32001, by decide⟩
def NODE_REFUSED : SafeInt := ⟨-32005, by decide⟩

/-- `z.number().int().positive()`. -/
def readPositive (v : Json) : Option Nat := (readSafeInt v).bind fun n => if 0 < n.val then some n.val.toNat else none

def isDigit (u : UInt16) : Bool := 0x30 ≤ u && u ≤ 0x39

def readSha256 (v : Json) : Option JsString :=
  (readString v).filter fun s => s.length = 64 && s.all fun u => isDigit u || 0x61 ≤ u && u ≤ 0x66

def readDocs : Json → Option NodeDocs
  | .obj ms => do
    let dir ← required readString "dir" ms
    let devDocs ← required readBool "devDocs" ms
    if 1 ≤ dir.length ∧ dir.length ≤ 4096 then return ⟨dir, devDocs⟩ else none
  | _ => none

/-- `helloParams.safeParse`: what else the object has is dropped. -/
def readHello : Value → Option Hello
  | some (.obj ms) => do
    let minVersion ← required readPositive "minVersion" ms
    let maxVersion ← required readPositive "maxVersion" ms
    let nodeId ← required readId "nodeId" ms
    let buildId ← optional? readSha256 "buildId" ms
    let docs ← optional? readDocs "docs" ms
    if minVersion ≤ maxVersion then return { nodeId, buildId, minVersion, maxVersion, docs } else none
  | _ => none

def afterDigits (s : JsString) : Option JsString := if s.head?.any isDigit then some (s.dropWhile isDigit) else none

def afterDot : JsString → Option JsString
  | 0x2E :: s => some s
  | _ => none

/-- `/^\d+\.\d+\.\d+(?:[-+][0-9A-Za-z.-]+)?$/`. -/
def isBunVersion (s : JsString) : Bool :=
  match (afterDigits s).bind afterDot >>= afterDigits >>= afterDot >>= afterDigits with
  | none => false
  | some [] => true
  | some (u :: tail) =>
    (u = 0x2D || u = 0x2B) && !tail.isEmpty && tail.all fun v =>
      isDigit v || 0x41 ≤ v && v ≤ 0x5A || 0x61 ≤ v && v ≤ 0x7A || v = 0x2E || v = 0x2D

/-- `readyResult`. -/
def readReady (ms : Members) : Option Unit := do
  required (readLiteral "ready") "kind" ms
  let version ← required readPositive "version" ms
  if version = protocolVersion then return () else none

/-- `updateResult`. -/
def readUpdate (ms : Members) : Option Unit := do
  required (readLiteral "update") "kind" ms
  let _ ← required readSha256 "buildId" ms
  let _ ← required readSha256 "sha256" ms
  let bunVersion ← required readString "bunVersion" ms
  if isBunVersion bunVersion ∧ bunVersion.length ≤ 64 then return () else none

def readHelloError (ms : Members) : Option Unit := do
  required (readLiteral "error") "kind" ms
  let code ← required readString "code" ms
  let message ← required readString "message" ms
  if 1 ≤ code.length ∧ code.length ≤ 64 ∧ message.length ≤ MAX_ERROR_MESSAGE then return () else none

/-- `helloResult.safeParse`. -/
def helloResult : Validator
  | some (.obj ms) => ((readReady ms).or ((readUpdate ms).or (readHelloError ms))).map fun _ => some (.obj ms)
  | _ => none

def readyJson : Json := .obj [(js "kind", .str (js "ready")), (js "version", Json.ofInt protocolVersion)]

def answerOutcome : HelloAnswer → Outcome
  | .ready => .returned (some readyJson)
  | .update bundle =>
    .returned (some (.obj [(js "kind", .str (js "update")), (js "buildId", .str bundle.buildId),
      (js "sha256", .str bundle.sha256), (js "bunVersion", .str bundle.bunVersion)]))
  | .refused message => .failed ⟨.number NODE_REFUSED, message, false, none⟩
  | .unauthorized message => .failed ⟨.number UNAUTHORIZED, message, false, none⟩
  | .failed message => .failed ⟨.number NEGOTIATION_FAILED, message, false, none⟩

/-! ## What a connection is created with -/

structure NodeRow where
  publicKey : Option JsString
  revoked : Bool
  removed : Bool
  deriving DecidableEq

abbrev Rows := NodeId → Option NodeRow

/-- `publicKey`: none for an unknown or unpaired node. -/
def publicKey (rows : Rows) (n : NodeId) : Option JsString := (rows n).bind NodeRow.publicKey

/-- `serveNode`: why the server will not serve a node. -/
def serveNode (rows : Rows) (n : NodeId) : Option JsString :=
  match rows n with
  | none => some (js "Node not found: " ++ n)
  | some row =>
    if row.removed then some (js "Node removed: " ++ n)
    else if row.revoked then some (js "Node revoked: " ++ n)
    else none

/-- `authenticate` is the origin the node signs for, where the transport authenticates its nodes, and
`challenge` what `newNodeChallenge` makes for the connection. -/
structure Connection where
  crypto : Ed25519
  authenticate : Option JsString
  challenge : NodeChallenge
  offersUpdate : Bool
  maxFrameBytes : Nat
  missedIntervals : Nat

/-- A stream's notification: its schema is strict, so it gives back what it accepts. -/
def streamHandler {α : Type} (read : Json → Option α) : Handler := .notification fun v => (v.bind read).map fun _ => v

/-- The peer's handlers. The hello's reads its params again, so what the schema drops stays. -/
def Connection.config (c : Connection) : Config :=
  { handlers :=
      [(NODE_HELLO, .request (fun v => (readHello v).map fun _ => v) helloResult),
        (NodeStreams.STREAM_DATA, streamHandler NodeStreams.StreamData.ofJson),
        (NodeStreams.STREAM_END, streamHandler NodeStreams.StreamEnd.ofJson)],
    maxFrameBytes := c.maxFrameBytes, missedIntervals := c.missedIntervals }

def Connection.challengeCall (c : Connection) : CallRequest :=
  { method := NODE_AUTHENTICATE, params := some c.challenge.toJson, schema := authenticateResult,
    errorData := none, aborted := false }

/-! ## State -/

inductive Phase
  /-- It awaits `authenticated`. -/
  | authenticating
  /-- It awaits `offerUpdate`. -/
  | building
  | answered (a : HelloAnswer)

structure HelloTask where
  number : Nat
  hello : Hello
  phase : Phase

variable {n : NodeId} {origin : JsString} {t : HelloTask} {rows : Rows}

structure Signing where
  key : List UInt8
  origin : JsString
  nodeId : NodeId
  challenge : NodeChallenge
  deriving DecidableEq

def Signing.message (r : Signing) : List UInt8 := nodeAuthMessage r.origin r.nodeId r.challenge

/-- `authenticated` is settled once it is `some`: with the node proved, or failed. `negotiated` is what
its promise resolved with, `rejected` that it was rejected, `told` that its `then` ran; `shut` is that the
socket closed though its peer did not. `greeted` is the node of the hello that was answered `ready`,
`served` the notifications handed over once ready and `failures` what the hub's own calls rejected with. -/
structure State where
  peer : Peer
  authenticated : Option (Option NodeId)
  hellos : List HelloTask
  ready : Bool
  greeted : Option NodeId
  negotiated : Option Negotiated
  rejected : Bool
  told : Bool
  closed : Bool
  shut : Bool
  link : Option NodeId
  opened : List JsString
  served : List (JsString × Value)
  failures : List RpcFailure
  rows : Rows
  signed : List Signing

namespace State

variable (c : Connection) (s : State)

def rpc (e : Rpc.Event) : State := { s with peer := Rpc.step c.config s.peer e }

def socketClosed : Bool := s.shut || s.peer.closed

def close : State :=
  { s with closed := true, rejected := s.rejected || s.negotiated.isNone }.rpc c .close

/-- Frames are taken as they come: a notification reaches its handler once the connection is ready. -/
def receive (data : Data) (throws : Bool) : State :=
  let s' := s.rpc c (.receive data throws)
  if s.ready then { s' with served := s.served ++ s'.peer.notified.drop s.peer.notified.length }
  else s'

/-! ### The challenge's answer -/

/-- `authenticateNode`, once its call settled: the node proved, if one is. -/
def authenticateNode (origin : JsString) (outcome : Except RpcFailure Value) : Option NodeId :=
  match outcome with
  | .error _ => none
  | .ok v =>
    match readAnswer v with
    | none => none
    | some answer =>
      match publicKey s.rows answer.nodeId with
      | none => none
      | some key => if verifyNodeAnswer c.crypto key origin c.challenge answer then some answer.nodeId else none

def settleChallenge : State :=
  match c.authenticate, s.authenticated, s.peer.settled.find? fun r => r.call = 0 with
  | some origin, none, some r => { s with authenticated := some (s.authenticateNode c origin r.outcome) }
  | _, _, _ => s

/-! ### A hello -/

def task (number : Nat) : Option HelloTask := s.hellos.find? fun t => t.number = number

def put (number : Nat) (phase : Phase) : State :=
  { s with hellos := s.hellos.map fun t => if t.number = number then { t with phase } else t }

def answer (number : Nat) (a : HelloAnswer) : State := s.put number (.answered a)

def becomeReady (hello : Hello) (docs : NodeDocs) : State :=
  { s with
    ready := true, greeted := some hello.nodeId,
    negotiated := if s.rejected then s.negotiated else some ⟨hello.nodeId, hello.buildId, docs⟩ }

def negotiate (number : Nat) (hello : Hello) : State :=
  if protocolVersion < hello.minVersion ∨ hello.maxVersion < protocolVersion then
    s.answer number (.failed (noCommonVersion hello.minVersion hello.maxVersion))
  else
    match hello.docs with
    | none => s.answer number (.failed (js "Invalid negotiation: the hello did not say where the node's docs are"))
    | some docs => (s.becomeReady hello docs).answer number .ready

def serve (number : Nat) (hello : Hello) : State :=
  if s.ready then s.answer number (.unauthorized (js "Already negotiated"))
  else
    match serveNode s.rows hello.nodeId with
    | some message => s.answer number (.refused message)
    | none =>
      if hello.buildId.isSome ∧ c.offersUpdate then s.put number .building
      else s.negotiate number hello

def handle (number : Nat) : State :=
  match s.peer.handling.find? fun h => h.number = number, s.task number with
  | some h, none =>
    match readHello h.params with
    | none => s
    | some hello =>
      let s' := { s with hellos := s.hellos ++ [⟨number, hello, .authenticating⟩] }
      if c.authenticate.isSome then s' else s'.serve c number hello
  | _, _ => s

def resume (number : Nat) : State :=
  match s.task number, s.authenticated with
  | some ⟨_, _, .authenticating⟩, some none =>
    -- One answer for every failure: it must not tell whether the node exists.
    s.answer number (.refused (js "Not authenticated"))
  | some ⟨_, hello, .authenticating⟩, some (some n) =>
    if hello.nodeId ≠ n then
      s.answer number (.refused (js "Connection authenticated as node " ++ n ++ js ", not " ++ hello.nodeId))
    else s.serve c number hello
  | _, _ => s

/-- The hello once no update is due. -/
def goOn (number : Nat) (hello : Hello) : State :=
  if s.ready then s.answer number (.unauthorized (js "Already negotiated"))
  else s.negotiate number hello

def offerUpdate (number : Nat) (built : NodeHub.Hub.Built) : State :=
  match s.task number with
  | some ⟨_, hello, .building⟩ =>
    match built with
    | .building => s.answer number (.failed (js "The server's node build is not ready yet"))
    | .failed => s.goOn number hello
    | .done bundle =>
      if some bundle.buildId = hello.buildId then s.goOn number hello
      else s.answer number (.update bundle)
  | _ => s

def finish (number : Nat) (throws throwsAgain : Bool) : State :=
  match s.task number with
  | some ⟨_, _, .answered a⟩ => s.rpc c (.finish number (answerOutcome a) throws throwsAgain)
  | _ => s

/-! ### The hub -/

def becomeLink (hubClosed : Bool) : State :=
  match s.negotiated with
  | none => s
  | some neg =>
    if s.told then s
    else
      let s' := { s with told := true }
      if s.socketClosed then s'
      else if hubClosed then { s' with shut := true }
      else { s' with link := some neg.nodeId }

/-- `negotiatedOnly`: nothing is sent to the node before its hello is answered. -/
def negotiatedOnly (s' : State) : State :=
  if s.ready then s'
  else { s with failures := s.failures ++ [unavailable "Node not negotiated" false] }

def call (r : CallRequest) (throws : Bool) : State := s.negotiatedOnly (s.rpc c (.call r throws))

def openStream (streamId : JsString) (r : CallRequest) (throws : Bool) : State :=
  s.negotiatedOnly <| if s.closed then
      { s with failures := s.failures ++ [unavailable "Node connection closed" false] }
    else { s with opened := s.opened ++ [streamId] }.rpc c (.call r throws)

def cancels (streamId : JsString) : Bool :=
  streamId ∈ s.opened || s.served.any fun m =>
    m.1 = NodeStreams.STREAM_DATA && (m.2.bind NodeStreams.StreamData.ofJson).any fun d => d.streamId.val = streamId

def cancel (streamId : JsString) (throws : Bool) : State :=
  if s.cancels streamId then
    s.rpc c (.notify STREAM_CANCEL (some (.obj [(js "streamId", .str streamId)])) throws)
  else s

/-! ### The node table -/

def pair (n : NodeId) (key : Option JsString) : State :=
  match s.rows n with
  | none => { s with rows := Function.update s.rows n (some ⟨key, false, false⟩) }
  | some _ => s

def block (n : NodeId) (revoked removed : Bool) : State :=
  match s.rows n with
  | none => s
  | some row => { s with rows := Function.update s.rows n (some { row with revoked, removed }) }

end State

/-! ## Steps -/

inductive Event
  | receive (data : Data) (throws : Bool)
  | abandon (n : Nat) (why : Abandonment)
  | beat (throws : Bool)
  | settleChallenge
  | handle (number : Nat)
  | resume (number : Nat)
  | built (number : Nat) (built : NodeHub.Hub.Built)
  | finish (number : Nat) (throws throwsAgain : Bool)
  | release (number : Nat)
  | link (hubClosed : Bool)
  | call (r : CallRequest) (throws : Bool)
  | openStream (streamId : JsString) (r : CallRequest) (throws : Bool)
  | cancel (streamId : JsString) (throws : Bool)
  | helloTimeout
  | shut
  | onclose
  | pair (n : NodeId) (key : Option JsString)
  | block (n : NodeId) (revoked removed : Bool)
  | sign (r : Signing)

def step (c : Connection) (s : State) : Event → State
  | .receive data throws => s.receive c data throws
  | .abandon n why => s.rpc c (.abandon n why)
  | .beat throws => s.rpc c (.beat throws)
  | .settleChallenge => s.settleChallenge c
  | .handle number => s.handle c number
  | .resume number => s.resume c number
  | .built number built => s.offerUpdate number built
  | .finish number throws throwsAgain => s.finish c number throws throwsAgain
  | .release number => s.rpc c (.release number)
  | .link hubClosed => s.becomeLink hubClosed
  | .call r throws => s.call c r throws
  | .openStream streamId r throws => s.openStream c streamId r throws
  | .cancel streamId throws => s.cancel c streamId throws
  | .helloTimeout => if s.ready then s else s.close c
  | .shut => { s with shut := true }
  | .onclose => if s.socketClosed then s.close c else s
  | .pair n key => s.pair n key
  | .block n revoked removed => s.block n revoked removed
  | .sign r => { s with signed := s.signed ++ [r] }

/-- The connection as it is created: challenged at once, where its transport authenticates. `throws`
says whether the socket does. -/
def start (c : Connection) (rows : Rows) (signed : List Signing) (throws : Bool) : State :=
  let s : State :=
    { peer := .fresh, authenticated := none, hellos := [], ready := false, greeted := none,
      negotiated := none, rejected := false, told := false, closed := false, shut := false,
      link := none, opened := [], served := [], failures := [], rows, signed }
  if c.authenticate.isSome then s.rpc c (.call c.challengeCall throws) else s

def run (c : Connection) (rows : Rows) (signed : List Signing) (throws : Bool) (es : List Event) :
    State := Run.exec (step c) (start c rows signed throws) es

/-! ## The peer -/

def Connection.challengeFrame (c : Connection) : Frame :=
  .request (.str (rpcId 1)) NODE_AUTHENTICATE (some c.challenge.toJson)

def Connection.Early (c : Connection) (f : Frame) : Prop :=
  c.authenticate.isSome = true ∧ f = c.challengeFrame ∨ f.replyId ≠ none ∨
    f = .notification HEARTBEAT_METHOD (some (.obj []))

structure Asked (c : Connection) (p : Peer) : Prop where
  issued : (0, rpcId 1) ∈ p.issued
  sent : c.challengeFrame ∈ p.sent ∨ ∃ r ∈ p.settled, r.call = 0 ∧ r.cause = .sendFailed
  only : ∀ f ∈ p.sent, f.requestId = some (rpcId 1) → f = c.challengeFrame
  replied : ∀ r ∈ p.settled, r.call = 0 → ∀ v, r.outcome = .ok v → ∃ id, r.cause = .reply id

structure PeerOk (c : Connection) (ready : Bool) (p : Peer) : Prop where
  books : p.Books
  handles : p.Handles c.config
  early : ready = false → ∀ f ∈ p.sent, c.Early f
  asked : c.authenticate.isSome = true → Asked c p

def Silent : Rpc.Event → Prop
  | .call _ _ => False
  | .notify _ _ _ => False
  | _ => True

section

variable {c : Connection} {p : Peer} {ready : Bool} {e : Rpc.Event}

theorem replyId_errorReply (id : Id) (f : RpcFailure) : (errorReply id f).replyId = some id := by
  unfold errorReply
  simp only
  split
  · rfl
  · split <;> rfl

theorem handler_hello {method : JsString} {params result : Validator}
    (h : c.config.handler method = .own (.request params result)) : method = NODE_HELLO := by
  unfold Config.handler at h
  simp only [Connection.config, List.lookup, streamHandler] at h
  split at h
  next handler hhandler =>
    split at hhandler
    next heq =>
      exact beq_iff_eq.mp heq
    split at hhandler
    · cases hhandler
      cases h
    split at hhandler
    · cases hhandler
      cases h
    · cases hhandler
  · split at h <;> cases h

theorem sent_subset (e : Rpc.Event) : p.sent ⊆ (Rpc.step c.config p e).sent := by
  rcases step_sends (p := p) e with h | ⟨f, h, -⟩
  · rw [h]
    exact List.Subset.refl _
  · rw [h]
    exact subset_append_left _ _

theorem settled_subset (e : Rpc.Event) : p.settled ⊆ (Rpc.step c.config p e).settled := by
  have h := (step_later c.config p e).settled
  cases e <;> exact h

theorem Asked.fresh (a : Asked c p) (b : p.Books) : rpcId (p.nextId + 1) ≠ rpcId 1 := by
  intro h
  have hzero : p.nextId = 0 := by simpa using rpcId_inj.mp h
  have hmem : rpcId 1 ∈ p.issued.map Prod.snd := mem_map_of_mem (f := Prod.snd) a.issued
  rw [b.ids, hzero] at hmem
  simp at hmem

/-- Whatever is sent, the challenge's id is the challenge's only. -/
theorem Sendable.other {f : Frame} (h : Sendable p f e) (hfresh : rpcId (p.nextId + 1) ≠ rpcId 1) :
    f.requestId ≠ some (rpcId 1) := by
  cases e with
  | call r throws =>
    cases h
    simpa [Frame.requestId, Id.key] using hfresh
  | notify method params throws =>
    cases h
    simp [Frame.requestId]
  | receive data throws =>
    obtain ⟨id, code, message, rfl⟩ := h
    simp [Frame.requestId]
  | finish number o throws throwsAgain =>
    obtain ⟨x, -, -, -, ⟨v, rfl⟩ | ⟨failure, rfl, -⟩⟩ := h
    · simp [Frame.requestId]
    · simp
  | beat throws =>
    cases h
    simp [Frame.requestId]
  | abandon | release | close => exact h.elim

theorem Sendable.early {f : Frame} (h : Sendable p f e) (he : Silent e) : c.Early f := by
  cases e with
  | call | notify => exact he.elim
  | receive data throws =>
    obtain ⟨id, code, message, rfl⟩ := h
    exact Or.inr (Or.inl (by simp [Frame.replyId]))
  | finish number o throws throwsAgain =>
    obtain ⟨x, -, -, -, ⟨v, rfl⟩ | ⟨failure, rfl, -⟩⟩ := h
    · exact Or.inr (Or.inl (by simp [Frame.replyId]))
    · exact Or.inr (Or.inl (by simp [replyId_errorReply]))
  | beat throws => exact Or.inr (Or.inr h)
  | abandon | release | close => exact h.elim

theorem Asked.replied_step (a : Asked c p) (b : p.Books) {r : Settlement}
    (hr : r ∈ (Rpc.step c.config p e).settled) (hcall : r.call = 0) {v : Value}
    (hv : r.outcome = .ok v) : ∃ id, r.cause = .reply id := by
  rcases step_settles e hr with hr | ⟨f, hf, -⟩ | hsettles
  · exact a.replied r hr hcall v hv
  · cases hv.symm.trans hf
  · have hcalls : 0 < p.calls := b.callers.2 0 (mem_map_of_mem (f := Prod.fst) a.issued)
    cases e with
    | call q throws =>
      -- A call settled as it is made is the next one, and the challenge was made before it.
      have hnext : r.call = p.calls := by
        rcases hsettles with h | h
        · exact h.1
        · exact h.1
      rw [hcall] at hnext
      exact absurd hnext hcalls.ne
    | receive data throws =>
      cases data with
      | text t =>
        obtain ⟨f, id, x, -, hby, -⟩ := hsettles
        exact ⟨id, hby.2.1⟩
      | binary => exact hsettles.elim
    | _ => exact hsettles.elim

theorem Asked.step (a : Asked c p) (b : p.Books) (e : Rpc.Event) : Asked c (Rpc.step c.config p e) := by
  refine ⟨?_, ?_, fun f hf hid => ?_, fun r hr hcall v hv => a.replied_step b hr hcall hv⟩
  · rcases step_issued (p := p) c.config e with h | ⟨r, throws, -, h⟩
    · exact h ▸ a.issued
    · exact h ▸ mem_append_left _ a.issued
  · refine a.sent.imp (fun h => sent_subset e h) fun h => ?_
    obtain ⟨r, hr, h⟩ := h
    exact ⟨r, settled_subset e hr, h⟩
  · rcases step_sends (p := p) e with h | ⟨g, h, hg⟩
    · exact a.only f (h ▸ hf) hid
    rw [h] at hf
    rcases Places.mem_concat_cases hf with hf | rfl
    · exact a.only f hf hid
    · exact absurd hid (Sendable.other hg (a.fresh b))

theorem PeerOk.step (ok : PeerOk c ready p) (he : ready = true ∨ Silent e) :
    PeerOk c ready (Rpc.step c.config p e) := by
  refine ⟨ok.books.step e, ok.handles.step e, fun hready f hf => ?_, fun h => (ok.asked h).step ok.books e⟩
  have hsilent : Silent e := he.resolve_left (by simp [hready])
  rcases step_sends (p := p) e with h | ⟨g, h, hg⟩
  · exact ok.early hready f (h ▸ hf)
  rw [h] at hf
  rcases Places.mem_concat_cases hf with hf | rfl
  · exact ok.early hready f hf
  · exact Sendable.early hg hsilent

theorem PeerOk.onceReady (ok : PeerOk c ready p) : PeerOk c true p :=
  { ok with early := fun h => (by cases h) }

theorem PeerOk.fresh (h : c.authenticate.isSome = false) : PeerOk c false .fresh where
  books := .fresh
  handles := nofun
  early := nofun
  asked := fun ha => absurd ha (by simp [h])

theorem PeerOk.challenged (throws : Bool) (h : c.authenticate.isSome = true) :
    PeerOk c false (Rpc.step c.config .fresh (.call c.challengeCall throws)) := by
  have hcall : Rpc.step c.config .fresh (.call c.challengeCall throws) =
      Peer.call c.config throws .fresh c.challengeCall := rfl
  have hbooks : (Rpc.step c.config .fresh (.call c.challengeCall throws)).Books := Peer.Books.fresh.step _
  have hhandles : (Rpc.step c.config .fresh (.call c.challengeCall throws)).Handles c.config :=
    Peer.Handles.step (fun x hx => by cases hx) _
  refine ⟨hbooks, hhandles, fun _ f hf => ?_, fun _ => ?_⟩
  · rcases call_sent (p := .fresh) c.config c.challengeCall throws with hs | ⟨hs, -, -⟩
    · rw [hs] at hf
      cases hf
    · rw [hs] at hf
      exact Or.inl ⟨h, mem_singleton.mp hf⟩
  · rw [hcall]
    have hfull : ¬ MAX_IN_FLIGHT ≤ ([] : List Pending).length := by decide
    simp only [Peer.call, Peer.fresh, Connection.challengeCall, hfull, Bool.false_eq_true, if_false]
    -- The call is given the first id; it is sent, or settled as one that was not.
    split
    · refine ⟨mem_singleton.mpr rfl, Or.inl (mem_singleton.mpr rfl), fun f hf _ => ?_, fun r hr => ?_⟩
      · exact mem_singleton.mp hf
      · cases hr
    · refine ⟨mem_singleton.mpr rfl, Or.inr ⟨_, mem_singleton.mpr rfl, rfl, rfl⟩,
        fun f hf _ => ?_, fun r hr _ v hv => ?_⟩
      · cases hf
      · cases mem_singleton.mp hr
        cases hv
    · refine ⟨mem_singleton.mpr rfl, Or.inr ⟨_, mem_singleton.mpr rfl, rfl, rfl⟩,
        fun f hf _ => ?_, fun r hr _ v hv => ?_⟩
      · cases hf
      · cases mem_singleton.mp hr
        cases hv

end

/-! ## What a connection has proved -/

def Answered (c : Connection) (p : Peer) (answer : NodeAnswer) : Prop :=
  c.challengeFrame ∈ p.sent ∧ ∃ r ∈ p.settled, ∃ id v,
    r.call = 0 ∧ r.cause = .reply id ∧ id.key = rpcId 1 ∧ r.outcome = .ok v ∧ readAnswer v = some answer

def Proved (c : Connection) (s : State) (origin : JsString) (n : NodeId) : Prop :=
  ∃ key answer, publicKey s.rows n = some key ∧ Answered c s.peer answer ∧ answer.nodeId = n ∧
    verifyNodeAnswer c.crypto key origin c.challenge answer = true

structure Grows (s s' : State) : Prop where
  sent : s.peer.sent ⊆ s'.peer.sent
  settled : s.peer.settled ⊆ s'.peer.settled
  key : ∀ n k, publicKey s.rows n = some k → publicKey s'.rows n = some k
  signed : s.signed ⊆ s'.signed
  greeted : ∀ n, s.greeted = some n → s'.greeted = some n

def Trusted (c : Connection) (s : State) (n : NodeId) : Prop :=
  c.authenticate.isSome = true → s.authenticated = some (some n)

structure Ok (c : Connection) (s : State) : Prop where
  peer : PeerOk c s.ready s.peer
  authenticated : ∀ n, s.authenticated = some (some n) → ∀ origin, c.authenticate = some origin → Proved c s origin n
  tasks : (s.hellos.map HelloTask.number).Nodup
  building : ∀ t ∈ s.hellos, t.phase = .building → Trusted c s t.hello.nodeId
  ready : s.ready = s.greeted.isSome
  greeted : ∀ n, s.greeted = some n → Trusted c s n
  hello : ∀ n, s.greeted = some n → ∃ t ∈ s.hellos, t.hello.nodeId = n
  negotiated : ∀ neg, s.negotiated = some neg → s.greeted = some neg.nodeId
  link : ∀ n, s.link = some n → s.greeted = some n
  served : s.served ≠ [] → s.ready = true
  opened : s.opened ≠ [] → s.ready = true

/-- What every step but the challenge's settlement comes to. -/
structure Next (c : Connection) (s s' : State) : Prop where
  ok : Ok c s'
  grows : Grows s s'
  authenticated : s'.authenticated = s.authenticated

section

variable {c : Connection} {s s' s'' : State} {number : Nat} {hello : Hello}

theorem Grows.same (hpeer : s'.peer = s.peer) (hrows : s'.rows = s.rows)
    (hsigned : s'.signed = s.signed) (hgreeted : s'.greeted = s.greeted) : Grows s s' where
  sent := by simp [hpeer]
  settled := by simp [hpeer]
  key := by simp [hrows]
  signed := by simp [hsigned]
  greeted := by simp [hgreeted]

theorem Grows.trans (h : Grows s s') (h' : Grows s' s'') : Grows s s'' where
  sent := List.Subset.trans h.sent h'.sent
  settled := List.Subset.trans h.settled h'.settled
  key := fun n k hk => h'.key n k (h.key n k hk)
  signed := List.Subset.trans h.signed h'.signed
  greeted := fun n hn => h'.greeted n (h.greeted n hn)

theorem Proved.grows (h : Proved c s origin n) (g : Grows s s') : Proved c s' origin n := by
  obtain ⟨key, answer, hkey, ⟨hsent, r, hr, hreply⟩, hnode, hverify⟩ := h
  exact ⟨key, answer, g.key n key hkey, ⟨g.sent hsent, r, g.settled hr, hreply⟩, hnode, hverify⟩

theorem Next.refl (ok : Ok c s) : Next c s s := ⟨ok, .same rfl rfl rfl rfl, rfl⟩

theorem Next.trans (h : Next c s s') (h' : Next c s' s'') : Next c s s'' :=
  ⟨h'.ok, h.grows.trans h'.grows, h'.authenticated.trans h.authenticated⟩

/-! ### The peer's moves -/

theorem Ok.rpc (ok : Ok c s) {e : Rpc.Event} (he : s.ready = true ∨ Silent e) : Next c s (s.rpc c e) := by
  have hgrows : Grows s (s.rpc c e) :=
    ⟨sent_subset e, settled_subset e, fun _ _ h => h, List.Subset.refl _, fun _ h => h⟩
  refine ⟨{ ok with peer := ok.peer.step he, authenticated := fun n hn origin ho => ?_ }, hgrows, rfl⟩
  exact (ok.authenticated n hn origin ho).grows hgrows

theorem Ok.receive (ok : Ok c s) (data : Data) (throws : Bool) : Next c s (s.receive c data throws) := by
  have h : Next c s (s.rpc c (.receive data throws)) := ok.rpc (Or.inr trivial)
  unfold State.receive
  simp only
  split
  next hready =>
    exact ⟨{ h.ok with served := fun _ => hready }, h.grows.trans (.same rfl rfl rfl rfl), rfl⟩
  · exact h

theorem Ok.close (ok : Ok c s) : Next c s (s.close c) := by
  have h : Next c s { s with closed := true, rejected := s.rejected || s.negotiated.isNone } :=
    ⟨{ ok with }, .same rfl rfl rfl rfl, rfl⟩
  exact h.trans (h.ok.rpc (Or.inr trivial))

/-! ### The hello's moves -/

theorem State.task_number (h : s.task number = some t) : t.number = number := by
  simpa using find?_some h

theorem State.task_mem (h : s.task number = some t) : t ∈ s.hellos := mem_of_find?_eq_some h

theorem Ok.task_hello (ok : Ok c s) (h : s.task number = some t) :
    ∀ x ∈ s.hellos, x.number = number → x.hello = t.hello := by
  intro x hx hnumber
  have heq : x = t := inj_on_of_nodup_map ok.tasks hx (State.task_mem h) (hnumber.trans (State.task_number h).symm)
  rw [heq]

theorem Ok.put (ok : Ok c s) {phase : Phase} (hbuilding : phase = .building →
      ∀ t ∈ s.hellos, t.number = number → Trusted c s t.hello.nodeId) :
    Next c s (s.put number phase) := by
  have hnumbers : (s.put number phase).hellos.map HelloTask.number = s.hellos.map HelloTask.number := by
    rw [State.put, map_map]
    refine map_congr_left fun t _ => ?_
    simp only [Function.comp_apply]
    split <;> rfl
  refine ⟨?_, .same rfl rfl rfl rfl, rfl⟩
  refine { ok with tasks := hnumbers ▸ ok.tasks, building := ?_, hello := ?_ }
  · intro t ht hphase
    obtain ⟨x, hx, rfl⟩ := mem_map.mp ht
    split at hphase
    next hnumber =>
      rw [if_pos hnumber]
      exact hbuilding hphase x hx hnumber
    next hnumber =>
      rw [if_neg hnumber]
      exact ok.building x hx hphase
  · intro n hn
    obtain ⟨t, ht, hnode⟩ := ok.hello n hn
    refine ⟨_, mem_map_of_mem ht, ?_⟩
    split <;> exact hnode

theorem Ok.answer (ok : Ok c s) (a : HelloAnswer) : Next c s (s.answer number a) := ok.put fun h => (by cases h)

theorem Ok.becomeReady (ok : Ok c s) (hready : s.ready = false) (ht : Trusted c s hello.nodeId)
    (hmem : ∃ t ∈ s.hellos, t.hello = hello) (docs : NodeDocs) :
    Next c s (s.becomeReady hello docs) := by
  have hnone : s.greeted = none := by
    have h := ok.ready
    rw [hready] at h
    simpa using h.symm
  have hneg : s.negotiated = none := by
    cases h : s.negotiated with
    | none => rfl
    | some neg => exact absurd (ok.negotiated neg h) (by simp [hnone])
  have hgrows : Grows s (s.becomeReady hello docs) :=
    ⟨List.Subset.refl _, List.Subset.refl _, fun _ _ h => h, List.Subset.refl _,
      fun n hn => absurd hn (by simp [hnone])⟩
  refine ⟨⟨ok.peer.onceReady, ok.authenticated, ok.tasks, ok.building, rfl, fun n hn => ?_,
    fun n hn => ?_, fun neg h => ?_, fun n hn => ?_, fun _ => rfl, fun _ => rfl⟩, hgrows, rfl⟩
  · cases hn
    exact ht
  · cases hn
    obtain ⟨t, hmem, rfl⟩ := hmem
    exact ⟨t, hmem, rfl⟩
  · simp only [State.becomeReady, hneg] at h
    split at h
    · cases h
    · cases h
      rfl
  · exact absurd (ok.link n hn) (by simp [hnone])

theorem Ok.negotiate (ok : Ok c s) (hready : s.ready = false) (ht : Trusted c s hello.nodeId)
    (hmem : ∃ t ∈ s.hellos, t.hello = hello) : Next c s (s.negotiate number hello) := by
  unfold State.negotiate
  split
  · exact ok.answer _
  split
  · exact ok.answer _
  next docs _ =>
    have h := ok.becomeReady hready ht hmem docs
    exact h.trans (h.ok.answer _)

theorem Ok.serve (ok : Ok c s) (ht : Trusted c s hello.nodeId) (hmem : ∃ t ∈ s.hellos, t.hello = hello)
    (hhello : ∀ x ∈ s.hellos, x.number = number → x.hello = hello) :
    Next c s (s.serve c number hello) := by
  unfold State.serve
  split
  · exact ok.answer _
  rename_i hready
  split
  · exact ok.answer _
  split
  · exact ok.put fun _ x hx hnumber => hhello x hx hnumber ▸ ht
  · exact ok.negotiate (by simpa using hready) ht hmem

/-- A connection that does not authenticate trusts the hello; one that does has it wait. -/
theorem Ok.handle (ok : Ok c s) (number : Nat) : Next c s (s.handle c number) := by
  unfold State.handle
  split
  next h hfind hnone =>
    split
    · exact .refl ok
    rename_i hello hread
    have hnew : ∀ t ∈ s.hellos, t.number ≠ number := by
      intro t ht hnumber
      exact find?_eq_none.mp hnone t ht (by simpa using hnumber)
    have hok : Ok c { s with hellos := s.hellos ++ [⟨number, hello, .authenticating⟩] } := by
      refine { ok with tasks := ?_, building := ?_, hello := fun n hn => ?_ }
      · simp only [map_append, map_cons, map_nil]
        refine ok.tasks.append (nodup_singleton _) fun x hx hx' => ?_
        obtain ⟨t, ht, rfl⟩ := mem_map.mp hx
        exact hnew t ht (mem_singleton.mp hx')
      · intro t ht hphase
        rcases Places.mem_concat_cases ht with ht | rfl
        · exact ok.building t ht hphase
        · cases hphase
      · obtain ⟨t, ht, hnode⟩ := ok.hello n hn
        exact ⟨t, mem_append_left _ ht, hnode⟩
    have hnext : Next c s { s with hellos := s.hellos ++ [⟨number, hello, .authenticating⟩] } :=
      ⟨hok, .same rfl rfl rfl rfl, rfl⟩
    simp only
    split
    · exact hnext
    rename_i hauth
    have hlast : (⟨number, hello, .authenticating⟩ : HelloTask) ∈
        s.hellos ++ [⟨number, hello, .authenticating⟩] := by simp
    refine hnext.trans (hok.serve (fun h => absurd h hauth) ⟨_, hlast, rfl⟩ fun x hx hnumber => ?_)
    rcases mem_append.mp hx with hx | hx
    · exact absurd hnumber (hnew x hx)
    · rw [mem_singleton.mp hx]
  · exact .refl ok

theorem Ok.resume (ok : Ok c s) (number : Nat) : Next c s (s.resume c number) := by
  unfold State.resume
  split
  · exact ok.answer _
  next hello n htask hauth =>
    split
    · exact ok.answer _
    next hnode =>
      have hproved : Trusted c s hello.nodeId := fun _ => by rw [hauth, not_not.mp hnode]
      exact ok.serve hproved ⟨_, State.task_mem htask, rfl⟩ (ok.task_hello htask)
  · exact .refl ok

theorem Ok.goOn (ok : Ok c s) (ht : Trusted c s hello.nodeId)
    (hmem : ∃ t ∈ s.hellos, t.hello = hello) : Next c s (s.goOn number hello) := by
  unfold State.goOn
  split
  · exact ok.answer _
  next hready =>
    exact ok.negotiate (by simpa using hready) ht hmem

theorem Ok.offerUpdate (ok : Ok c s) (number : Nat) (built : NodeHub.Hub.Built) :
    Next c s (s.offerUpdate number built) := by
  unfold State.offerUpdate
  split
  next hello htask =>
    have ht : Trusted c s hello.nodeId := ok.building _ (State.task_mem htask) rfl
    have hmem : ∃ t ∈ s.hellos, t.hello = hello := ⟨_, State.task_mem htask, rfl⟩
    cases built with
    | building => exact ok.answer _
    | failed => exact ok.goOn ht hmem
    | done bundle =>
      simp only
      split
      · exact ok.goOn ht hmem
      · exact ok.answer _
  · exact .refl ok

theorem Ok.finish (ok : Ok c s) (number : Nat) (throws throwsAgain : Bool) :
    Next c s (s.finish c number throws throwsAgain) := by
  unfold State.finish
  split
  · exact ok.rpc (Or.inr trivial)
  · exact .refl ok

/-! ### The challenge's settlement -/

theorem State.authenticateNode_spec {outcome : Except RpcFailure Value} (h : s.authenticateNode c origin outcome = some n) :
    ∃ v key answer, outcome = .ok v ∧ readAnswer v = some answer ∧ publicKey s.rows n = some key ∧ answer.nodeId = n ∧
      verifyNodeAnswer c.crypto key origin c.challenge answer = true := by
  unfold State.authenticateNode at h
  split at h
  · cases h
  split at h
  · cases h
  rename_i v _ answer hread
  split at h
  · cases h
  rename_i key hkey
  split at h
  next hverify =>
    cases h
    exact ⟨v, key, answer, rfl, hread, hkey, rfl, hverify⟩
  · cases h

/-- The challenge is settled once: where it was with a result, a reply to it was its settlement. -/
theorem PeerOk.answered {p : Peer} {ready : Bool} (ok : PeerOk c ready p)
    (ha : c.authenticate.isSome = true) {r : Settlement} (hr : r ∈ p.settled) (hcall : r.call = 0)
    {v : Value} (hv : r.outcome = .ok v) {answer : NodeAnswer} (hread : readAnswer v = some answer) :
    Answered c p answer := by
  have asked := ok.asked ha
  obtain ⟨id, hid⟩ := asked.replied r hr hcall v hv
  have hissued : (0, id.key) ∈ p.issued := hcall ▸ ok.books.replied r hr id hid
  have hkey : id.key = rpcId 1 := ok.books.issued_inj hissued asked.issued
  have honce : (p.settled.map Settlement.call).Nodup :=
    ((ok.books.calls.nodup_iff.mpr nodup_range).of_append_right)
  refine ⟨asked.sent.resolve_right ?_, r, hr, id, v, hcall, hid, hkey, hv, hread⟩
  rintro ⟨x, hx, hxcall, hcause⟩
  have heq : x = r := inj_on_of_nodup_map honce hx hr (hxcall.trans hcall.symm)
  rw [heq, hid] at hcause
  cases hcause

/-- **What settles the challenge**: with a node proved, only its answer. -/
theorem Ok.settleChallenge (ok : Ok c s) : Ok c (s.settleChallenge c) ∧ Grows s (s.settleChallenge c) := by
  unfold State.settleChallenge
  split
  next origin r horigin hnone hfind =>
    have hcall : r.call = 0 := by simpa using find?_some hfind
    have hr := mem_of_find?_eq_some hfind
    have hno : ∀ n, ¬ Trusted c s n := fun n h => by
      rw [Trusted, horigin, hnone] at h
      cases h rfl
    refine ⟨{ ok with authenticated := ?_, building := ?_, greeted := ?_ }, .same rfl rfl rfl rfl⟩
    · intro n hn origin' horigin'
      cases horigin.symm.trans horigin'
      obtain ⟨v, key, answer, hv, hread, hkey, hnode, hverify⟩ := State.authenticateNode_spec (Option.some.inj hn)
      exact ⟨key, answer, hkey, ok.peer.answered (by simp [horigin]) hr hcall hv hread, hnode, hverify⟩
    · exact fun t ht hphase => absurd (ok.building t ht hphase) (hno _)
    · exact fun n hn => absurd (ok.greeted n hn) (hno n)
  · exact ⟨ok, .same rfl rfl rfl rfl⟩

/-! ### The hub's moves -/

theorem Ok.becomeLink (ok : Ok c s) (hubClosed : Bool) : Next c s (s.becomeLink hubClosed) := by
  unfold State.becomeLink
  split
  · exact .refl ok
  rename_i neg hneg
  split
  · exact .refl ok
  simp only
  split
  · exact ⟨{ ok with }, .same rfl rfl rfl rfl, rfl⟩
  split
  · exact ⟨{ ok with }, .same rfl rfl rfl rfl, rfl⟩
  refine ⟨{ ok with link := fun n hn => ?_ }, .same rfl rfl rfl rfl, rfl⟩
  cases hn
  exact ok.negotiated neg hneg

theorem Ok.negotiatedOnly (ok : Ok c s) (h : s.ready = true → Next c s s') : Next c s (s.negotiatedOnly s') := by
  unfold State.negotiatedOnly
  split
  next hready =>
    exact h hready
  · exact ⟨{ ok with }, .same rfl rfl rfl rfl, rfl⟩

theorem Ok.call (ok : Ok c s) (r : CallRequest) (throws : Bool) : Next c s (s.call c r throws) :=
  ok.negotiatedOnly fun hready => ok.rpc (Or.inl hready)

theorem Ok.openStream (ok : Ok c s) (streamId : JsString) (r : CallRequest) (throws : Bool) :
    Next c s (s.openStream c streamId r throws) := by
  refine ok.negotiatedOnly fun hready => ?_
  split
  · exact ⟨{ ok with }, .same rfl rfl rfl rfl, rfl⟩
  have h : Next c s { s with opened := s.opened ++ [streamId] } :=
    ⟨{ ok with opened := fun _ => hready }, .same rfl rfl rfl rfl, rfl⟩
  exact h.trans (h.ok.rpc (Or.inl hready))

theorem Ok.cancels (ok : Ok c s) {streamId : JsString} (h : s.cancels streamId = true) : s.ready = true := by
  rcases Bool.or_eq_true _ _ ▸ h with h | h
  · exact ok.opened (ne_nil_of_mem (of_decide_eq_true h))
  · obtain ⟨m, hm, -⟩ := any_eq_true.mp h
    exact ok.served (ne_nil_of_mem hm)

theorem Ok.cancel (ok : Ok c s) (streamId : JsString) (throws : Bool) : Next c s (s.cancel c streamId throws) := by
  unfold State.cancel
  split
  next h =>
    exact ok.rpc (Or.inl (ok.cancels h))
  · exact .refl ok

/-! ### The node table's moves -/

theorem Ok.table (ok : Ok c s) (h : ∀ n k, publicKey s.rows n = some k → publicKey rows n = some k) :
    Next c s { s with rows } := by
  have hgrows : Grows s { s with rows } := ⟨List.Subset.refl _, List.Subset.refl _, h, List.Subset.refl _, fun _ h => h⟩
  refine ⟨{ ok with authenticated := fun n hn origin ho => ?_ }, hgrows, rfl⟩
  exact (ok.authenticated n hn origin ho).grows hgrows

theorem publicKey_update {m : NodeId} {row : NodeRow} {k : JsString}
    (hrow : publicKey rows m = some k → row.publicKey = some k)
    (h : publicKey rows n = some k) : publicKey (Function.update rows m (some row)) n = some k := by
  by_cases hn : n = m
  · subst hn
    simpa [publicKey] using hrow h
  · simpa [publicKey, Function.update_of_ne hn] using h

theorem Ok.pair (ok : Ok c s) (n : NodeId) (key : Option JsString) : Next c s (s.pair n key) := by
  unfold State.pair
  split
  next hnone =>
    exact ok.table fun m k hk => publicKey_update (fun h => by simp [publicKey, hnone] at h) hk
  · exact .refl ok

theorem Ok.block (ok : Ok c s) (n : NodeId) (revoked removed : Bool) : Next c s (s.block n revoked removed) := by
  unfold State.block
  split
  · exact .refl ok
  next row hrow =>
    refine ok.table fun m k hk => publicKey_update (fun h => ?_) hk
    simpa [publicKey, hrow] using h

theorem Ok.sign (ok : Ok c s) (r : Signing) : Next c s { s with signed := s.signed ++ [r] } :=
  ⟨{ ok with }, ⟨List.Subset.refl _, List.Subset.refl _, fun _ _ h => h,
    subset_append_left _ _, fun _ h => h⟩, rfl⟩

/-! ## Runs -/

/-- **What a step comes to.** -/
theorem Ok.next (ok : Ok c s) {e : Event} (he : e ≠ .settleChallenge) : Next c s (step c s e) := by
  cases e with
  | settleChallenge => exact absurd rfl he
  | receive data throws => exact ok.receive data throws
  | abandon n why => exact ok.rpc (Or.inr trivial)
  | beat throws => exact ok.rpc (Or.inr trivial)
  | handle number => exact ok.handle number
  | resume number => exact ok.resume number
  | built number built => exact ok.offerUpdate number built
  | finish number throws throwsAgain => exact ok.finish number throws throwsAgain
  | release number => exact ok.rpc (Or.inr trivial)
  | link hubClosed => exact ok.becomeLink hubClosed
  | call r throws => exact ok.call r throws
  | openStream streamId r throws => exact ok.openStream streamId r throws
  | cancel streamId throws => exact ok.cancel streamId throws
  | helloTimeout =>
    simp only [step]
    split
    · exact .refl ok
    · exact ok.close
  | shut => exact ⟨{ ok with }, .same rfl rfl rfl rfl, rfl⟩
  | onclose =>
    simp only [step]
    split
    · exact ok.close
    · exact .refl ok
  | pair n key => exact ok.pair n key
  | block n revoked removed => exact ok.block n revoked removed
  | sign r => exact ok.sign r

theorem Ok.step (ok : Ok c s) (e : Event) : Ok c (step c s e) ∧ Grows s (step c s e) := by
  by_cases he : e = .settleChallenge
  · subst he
    exact ok.settleChallenge
  · exact ⟨(ok.next he).ok, (ok.next he).grows⟩

theorem Ok.start (c : Connection) (rows : Rows) (signed : List Signing) (throws : Bool) :
    Ok c (start c rows signed throws) := by
  have hpeer : PeerOk c false (NodeAuthentication.start c rows signed throws).peer := by
    unfold NodeAuthentication.start
    simp only
    split
    next h =>
      exact PeerOk.challenged throws h
    next h =>
      exact PeerOk.fresh (by simpa using h)
  unfold NodeAuthentication.start at hpeer ⊢
  simp only at hpeer ⊢
  split at hpeer
  next h =>
    rw [if_pos h]
    constructor <;> simp [State.rpc]
    exact hpeer
  next h =>
    rw [if_neg h]
    constructor <;> simp [hpeer]

theorem run_ok (c : Connection) (rows : Rows) (signed : List Signing) (throws : Bool)
    (es : List Event) : Ok c (run c rows signed throws es) :=
  Run.exec_invariant (Ok c) (fun _ e ok => (ok.step e).1) (Ok.start c rows signed throws) es

/-- The hello that was answered `ready` stays the only one. -/
theorem Ok.greeted_once (ok : Ok c s) (h : s.greeted = some n) (es : List Event) :
    (Run.exec (NodeAuthentication.step c) s es).greeted = some n := by
  induction es generalizing s with
  | nil => exact h
  | cons e es ih => exact ih (ok.step e).1 ((ok.step e).2.greeted n h)

/-! ### An ideal signature -/

def Unforged (c : Connection) (s : State) : Event → Prop
  | .settleChallenge => ∀ origin answer key, c.authenticate = some origin → Answered c s.peer answer →
      c.crypto.verify (nodeAuthMessage origin answer.nodeId c.challenge) key
        (Base64.decode (scalars answer.signature)) = true →
      ∃ r ∈ s.signed, r.key = key ∧ r.message = nodeAuthMessage origin answer.nodeId c.challenge
  | _ => True

def Signed (c : Connection) (s : State) (origin : JsString) (n : NodeId) : Prop :=
  ∃ key raw, publicKey s.rows n = some key ∧ parseNodePublicKey c.crypto key = some raw ∧
    ⟨raw, origin, n, c.challenge⟩ ∈ s.signed

def Held (c : Connection) (s : State) : Prop :=
  ∀ origin n, c.authenticate = some origin → s.authenticated = some (some n) → Signed c s origin n

theorem Signed.grows (h : Signed c s origin n) (g : Grows s s') : Signed c s' origin n := by
  obtain ⟨key, raw, hkey, hraw, hsigned⟩ := h
  exact ⟨key, raw, g.key n key hkey, hraw, g.signed hsigned⟩

theorem Proved.signed (h : Proved c s origin n)
    (horigin : c.authenticate = some origin) (hun : Unforged c s .settleChallenge) :
    Signed c s origin n := by
  obtain ⟨key, answer, hkey, hanswered, rfl, hverify⟩ := h
  unfold verifyNodeAnswer at hverify
  split at hverify
  · cases hverify
  rename_i raw hraw
  obtain ⟨r, hr, hrkey, hmessage⟩ := hun origin answer raw horigin hanswered hverify
  obtain ⟨ho, hn, hc⟩ := nodeAuthMessage_inj hmessage
  cases r
  cases hrkey
  cases ho
  cases hn
  cases hc
  exact ⟨key, _, hkey, hraw, hr⟩

theorem Held.step (held : Held c s) (ok : Ok c s) {e : Event} (hun : Unforged c s e) :
    Held c (NodeAuthentication.step c s e) := by
  intro origin n horigin hn
  by_cases he : e = .settleChallenge
  · subst he
    obtain ⟨hok, hgrows⟩ := ok.settleChallenge
    have hproved := hok.authenticated n hn origin horigin
    -- The settlement itself sends, stores and signs nothing.
    have hsame : Unforged c (s.settleChallenge c) .settleChallenge := by
      unfold State.settleChallenge
      split
      · exact hun
      · exact hun
    exact hproved.signed horigin hsame
  · have hnext := ok.next he
    rw [hnext.authenticated] at hn
    exact (held origin n horigin hn).grows hnext.grows

theorem Held.start (c : Connection) (rows : Rows) (signed : List Signing) (throws : Bool) :
    Held c (NodeAuthentication.start c rows signed throws) := by
  intro origin n _ hn
  unfold NodeAuthentication.start at hn
  simp only at hn
  split at hn <;> cases hn

theorem held_along {signed : List Signing} {throws : Bool} {es : List Event}
    (h : Run.Along (NodeAuthentication.step c) (Unforged c) (NodeAuthentication.start c rows signed throws) es) :
    Held c (run c rows signed throws es) := by
  have hboth := Run.Along.invariant (fun s => Ok c s ∧ Held c s)
    (fun s e hun hs => ⟨(hs.1.step e).1, hs.2.step hs.1 hun⟩)
    ⟨Ok.start c rows signed throws, Held.start c rows signed throws⟩ h
  exact hboth.2

end

structure Sound (c : Connection) (s : State) : Prop where
  /-- It is the link of the node that the hello answered `ready` announced. -/
  link : ∀ n, s.link = some n → s.greeted = some n
  hello : ∀ n, s.greeted = some n → ∃ t ∈ s.hellos, t.hello.nodeId = n
  /-- It serves no request but hellos, and notifications once one was answered. -/
  handled : ∀ h ∈ s.peer.handling, h.method = NODE_HELLO
  served : s.served ≠ [] → ∃ n, s.greeted = some n
  proved : ∀ n, s.greeted = some n → ∀ origin, c.authenticate = some origin → Proved c s origin n
  /-- It proved it by an answer to this connection's challenge: no other request has its id. -/
  own : c.authenticate.isSome = true → ∀ f ∈ s.peer.sent, f.requestId = some (rpcId 1) → f = c.challengeFrame
  /-- No later hello is answered as another node. -/
  once : ∀ n, s.greeted = some n → ∀ es, (Run.exec (step c) s es).greeted = some n
  /-- Before that, nothing is served, and no call is sent but the challenge. -/
  early : s.greeted = none → s.served = [] ∧ s.link = none ∧ ∀ f ∈ s.peer.sent, c.Early f

theorem Sound.of {c : Connection} {s : State} (ok : Ok c s) : Sound c s := { ok with
  handled := fun h hh => by
    obtain ⟨params, result, hown⟩ := ok.peer.handles h hh
    exact handler_hello hown
  served := fun h => by
    have hready := ok.served h
    rw [ok.ready] at hready
    exact Option.isSome_iff_exists.mp hready
  proved := fun n hn origin horigin => ok.authenticated n (ok.greeted n hn (by simp [horigin])) origin horigin
  own := fun h => (ok.peer.asked h).only
  once := fun n hn es => ok.greeted_once hn es
  early := fun h => by
    have hready : s.ready = false := by simp [ok.ready, h]
    refine ⟨?_, ?_, ok.peer.early hready⟩
    · by_contra hs
      exact absurd (ok.served hs) (by simp [hready])
    cases hl : s.link with
    | none => rfl
    | some n => exact absurd (ok.link n hl) (by simp [h]) }

/-- **A connection accepted with `authenticate` becomes a node's link, and serves anything but a hello,
only once its own challenge was answered with the node's key**, in every order of frames and awaits. Where
signatures cannot be forged, the key's holder answered this challenge, for this node and origin. -/
theorem node_authentication (c : Connection) (rows : Rows) (signed : List Signing) (throws : Bool) (es : List Event) :
    Sound c (run c rows signed throws es) ∧ (Run.Along (step c) (Unforged c) (start c rows signed throws) es →
        ∀ origin n, c.authenticate = some origin → (run c rows signed throws es).greeted = some n →
            Signed c (run c rows signed throws es) origin n) := by
  have ok := run_ok c rows signed throws es
  refine ⟨.of ok, fun h origin n horigin hn => ?_⟩
  exact held_along h origin n horigin (ok.greeted n hn (by simp [horigin]))

def seeded (key : Option JsString) : Rows := fun n => if n = js "n" then some ⟨key, false, false⟩ else none

def helloFrame : Frame :=
  .request (.str (js "1")) NODE_HELLO (some (.obj [(js "minVersion", Json.ofInt 16),
    (js "maxVersion", Json.ofInt 16), (js "nodeId", .str (js "n")),
    (js "docs", .obj [(js "dir", .str (js "/docs")), (js "devDocs", .bool false)])]))

def theSigning : Signing := ⟨List.replicate 32 0, js "https://server", js "n", ⟨js "1", js "nonce"⟩⟩

def pairedLink : Connection :=
  { crypto := ⟨fun key => key.length = 32, fun message key signature =>
      message = theSigning.message ∧ key = theSigning.key ∧ signature = [1, 2, 3]⟩,
    authenticate := some theSigning.origin, challenge := theSigning.challenge, offersUpdate := true,
    maxFrameBytes := 1048576, missedIntervals := 2 }

def pairedRows : Rows := seeded (some (js "AAAAAAAAAAAAAAAAAAAAAAAAAAAAAAAAAAAAAAAAAAA"))

def answerFrame : Frame := .result (.str (rpcId 1)) (some (NodeAnswer.toJson ⟨js "n", js "AQID"⟩))

def provingRun : List Event :=
  [.sign theSigning, .receive (.text answerFrame.text) false, .settleChallenge,
    .receive (.text helloFrame.text) false, .handle 0, .resume 0, .link false]

theorem provingRun_unforged : Run.Along (step pairedLink) (Unforged pairedLink) (start pairedLink pairedRows [] false)
      provingRun := by
  have h : Unforged pairedLink (run pairedLink pairedRows [] false (provingRun.take 2))
      .settleChallenge := by
    intro origin answer key _ _ hverify
    obtain ⟨hmessage, hkey, -⟩ : _ ∧ _ ∧ _ := of_decide_eq_true hverify
    exact ⟨theSigning, mem_singleton.mpr rfl, hkey.symm, hmessage.symm⟩
  exact ⟨trivial, trivial, h, trivial, trivial, trivial, trivial, trivial⟩

theorem paired_linked : (run pairedLink pairedRows [] false provingRun).link = some (js "n") ∧
      Signed pairedLink (run pairedLink pairedRows [] false provingRun) (js "https://server") (js "n") :=
  ⟨by decide +kernel, (node_authentication pairedLink pairedRows [] false provingRun).2
    provingRun_unforged _ _ rfl (by decide +kernel)⟩

def localLink : Connection := { pairedLink with authenticate := none }

def helloRun : List Event := [.receive (.text helloFrame.text) false, .handle 0, .link false]

/-- One becomes its node's link though it was challenged for nothing. -/
theorem local_unchallenged : (run localLink (seeded none) [] false helloRun).link = some (js "n") ∧
      ∀ origin, ¬ Proved localLink (run localLink (seeded none) [] false helloRun) origin (js "n") := by
  refine ⟨by decide +kernel, fun origin hproved => ?_⟩
  obtain ⟨key, answer, -, ⟨hsent, -⟩, -⟩ := hproved
  have hnone : (run localLink (seeded none) [] false helloRun).peer.sent = [] := isEmpty_iff.mp (by decide +kernel)
  rw [hnone] at hsent
  cases hsent

end Reins.NodeAuthentication
