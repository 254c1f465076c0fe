import Reins.Lib.Base64
import Reins.NodeProtocol.RpcPeer

/-!
# Node authentication (`node-protocol/src/node-auth.ts`)

What a node signs, and what the server checks of its answer. The message a signature is for says which
origin, node and challenge it answers (`nodeAuthMessage_inj`), so a signature answers one challenge only.
`node:crypto`'s Ed25519 is given.
-/

open Utf Schema

namespace Reins.NodeAuth

open Rpc

def NODE_AUTH_DOMAIN : JsString := js "reins-node-auth-v1"

structure NodeChallenge where
  challengeId : JsString
  nonce : JsString
  deriving DecidableEq

structure NodeAnswer where
  nodeId : JsString
  signature : JsString
  deriving DecidableEq

def NodeChallenge.toJson (c : NodeChallenge) : Json :=
  .obj [(js "challengeId", .str c.challengeId), (js "nonce", .str c.nonce)]

def NodeAnswer.toJson (a : NodeAnswer) : Json := .obj [(js "nodeId", .str a.nodeId), (js "signature", .str a.signature)]

/-! ## `authenticateResult` -/

/-- `/^[A-Za-z0-9_-]*$/`. -/
def isBase64url (s : JsString) : Bool :=
  s.all fun u => 0x41 ≤ u && u ≤ 0x5A || 0x61 ≤ u && u ≤ 0x7A || 0x30 ≤ u && u ≤ 0x39 || u = 0x5F || u = 0x2D

def readId (v : Json) : Option JsString := (readString v).filter fun s => 1 ≤ s.length && s.length ≤ 128

def readSignature (v : Json) : Option JsString := (readString v).filter fun s => isBase64url s && s.length ≤ 512

/-- `authenticateResult.safeParse`: what else the object has is dropped. -/
def readAnswer : Value → Option NodeAnswer
  | some (.obj ms) => do
    let nodeId ← required readId "nodeId" ms
    let signature ← required readSignature "signature" ms
    return { nodeId, signature }
  | _ => none

theorem readId_eq {v : Json} {s : JsString} (h : readId v = some s) : readId (.str s) = some s := by
  obtain ⟨-, hs⟩ := Option.filter_eq_some_iff.mp h
  exact Option.filter_eq_some_iff.mpr ⟨rfl, hs⟩

theorem readSignature_eq {v : Json} {s : JsString} (h : readSignature v = some s) :
    readSignature (.str s) = some s := by
  obtain ⟨-, hs⟩ := Option.filter_eq_some_iff.mp h
  exact Option.filter_eq_some_iff.mpr ⟨rfl, hs⟩

theorem readAnswer_toJson {v : Value} {a : NodeAnswer} (h : readAnswer v = some a) :
    readAnswer (some a.toJson) = some a := by
  match v, h with
  | some (.obj ms), h =>
    obtain ⟨nodeId, hnode, h⟩ := Option.bind_eq_some_iff.mp h
    obtain ⟨signature, hsignature, h⟩ := Option.bind_eq_some_iff.mp h
    cases h
    obtain ⟨x, -, hx⟩ := Option.bind_eq_some_iff.mp hnode
    obtain ⟨y, -, hy⟩ := Option.bind_eq_some_iff.mp hsignature
    simp [readAnswer, NodeAnswer.toJson, required, Json.member?, js_inj, readId_eq hx, readSignature_eq hy]

def authenticateResult : CallSchema where
  parse v := (readAnswer v).map fun a => some a.toJson
  again h := by
    obtain ⟨a, ha, rfl⟩ := Option.map_eq_some_iff.mp h
    rw [readAnswer_toJson ha]
    rfl

/-! ## Signatures -/

/-- `node:crypto`'s Ed25519. -/
structure Ed25519 where
  /-- `createPublicKey` makes an Ed25519 key of these bytes. -/
  accepts : List UInt8 → Bool
  /-- Of a message, a raw public key and a signature; false where it throws. -/
  verify : List UInt8 → List UInt8 → List UInt8 → Bool

def parseNodePublicKey (e : Ed25519) (encoded : JsString) : Option (List UInt8) :=
  let bytes := Base64.decode (scalars encoded)
  if encoded.length = 43 ∧ isBase64url encoded = true ∧ (Base64.encodeUrl bytes).flatMap units = encoded then
    if e.accepts bytes then some bytes else none
  else none

def nodeAuthMessage (origin nodeId : JsString) (challenge : NodeChallenge) : List UInt8 :=
  encode (Json.stringify (.arr [.str NODE_AUTH_DOMAIN, .str origin, .str nodeId,
    .str challenge.challengeId, .str challenge.nonce]))

def verifyNodeAnswer (e : Ed25519) (publicKey origin : JsString) (challenge : NodeChallenge)
    (answer : NodeAnswer) : Bool :=
  match parseNodePublicKey e publicKey with
  | none => false
  | some key => e.verify (nodeAuthMessage origin answer.nodeId challenge) key (Base64.decode (scalars answer.signature))

/-- **A signature is for one origin, one node and one challenge.** -/
theorem nodeAuthMessage_inj {origin origin' nodeId nodeId' : JsString} {c c' : NodeChallenge}
    (h : nodeAuthMessage origin nodeId c = nodeAuthMessage origin' nodeId' c') :
    origin = origin' ∧ nodeId = nodeId' ∧ c = c' := by
  have htext := congrArg decodeFatal h
  rw [nodeAuthMessage, nodeAuthMessage, decodeFatal_encode, decodeFatal_encode] at htext
  have hjson := congrArg Json.parse (Option.some_inj.mp htext)
  rw [Json.parse_stringify, Json.parse_stringify] at hjson
  injection hjson with hjson
  injection hjson with hjson
  simp only [List.cons.injEq, Json.str.injEq, and_true, true_and] at hjson
  obtain ⟨horigin, hnode, hid, hnonce⟩ := hjson
  refine ⟨horigin, hnode, ?_⟩
  cases c
  cases c'
  cases hid
  cases hnonce
  rfl

end Reins.NodeAuth
