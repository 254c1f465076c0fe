import Mathlib
import Reins.Backend.CodeReviews
import Reins.NodeProtocol.NodeAuth

/-!
# Pairing codes (`backend/src/models/node-pairing.ts`, `node-store.ts`, `models/node.ts`)

The `nodes` and `node_pairing_grants` tables, and what creating a code, redeeming one, and renaming, revoking
and removing a node do to them. Each runs without another between its statements, and any statement may fail.
The codes drawn, the nodes' ids, the times and the failures are the environment's.
-/

namespace Reins.NodePairing

open Schema Throwing Utf NodeAuth
open CodeReviews (number trim)

abbrev NodeId := JsString

/-- In milliseconds. SQLite compares the ISO texts, which are in the order of their times. -/
abbrev Time := Nat

structure NodeRow where
  id : NodeId
  name : JsString
  publicKey : Option JsString
  hostname : Option JsString
  pairedAt : Option Time
  revokedAt : Option Time
  removedAt : Option Time
  deriving DecidableEq

structure PairingGrant where
  id : Nat
  codeSha256 : JsString
  name : Option JsString
  createdAt : Time
  expiresAt : Time
  consumedAt : Option Time
  nodeId : Option NodeId
  deriving DecidableEq

structure Db where
  nodes : List NodeRow
  grants : List PairingGrant
  deriving DecidableEq

inductive Error
  | invalidPairingCode
  | invalidPublicKey
  | publicKeyInUse
  | nodeNotFound (nodeId : NodeId)
  | nodeRemoved (nodeId : NodeId)
  | nodeNotPaired (nodeId : NodeId) (action : JsString)
  | invalidNodeName
  | sqlite (message : JsString)
  deriving DecidableEq

def MAX_NODE_NAME_LENGTH : Nat := 100

def Error.message : Error → JsString
  | .invalidPairingCode => js "Invalid or expired pairing code"
  | .invalidPublicKey => js "publicKey must be a raw 32-byte Ed25519 public key in base64url"
  | .publicKeyInUse => js "This public key is already paired with a node"
  | .nodeNotFound nodeId => js "Node not found: " ++ nodeId
  | .nodeRemoved nodeId => js "Node removed: " ++ nodeId
  | .nodeNotPaired nodeId action => js "Node was never paired and cannot be " ++ action ++ js ": " ++ nodeId
  | .invalidNodeName => js "A node name must have 1 to " ++ number MAX_NODE_NAME_LENGTH ++ js " characters"
  | .sqlite message => message

abbrev M := EStateM Error Db

variable {α : Type} {m : M α} {f : NodeRow → NodeRow} {db' : Db} {a : α} {nodeId : NodeId}

/-! ## `node-store.ts` -/

inductive Statement
  | begin
  | insertGrant
  | consume
  | insertNode
  | setGrantNode
  | commit
  | read
  | update
  | publishNode
  | publishSources
  | viewNode
  | viewSources
  deriving DecidableEq

abbrev Faults := Statement → Option JsString

def query {α : Type} (faults : Faults) (statement : Statement) (m : M α) : M α :=
  match faults statement with
  | some message => throw (.sqlite message)
  | none => m

def PairingGrant.redeemable (codeSha256 : JsString) (now : Time) (g : PairingGrant) : Bool :=
  g.codeSha256 = codeSha256 && g.consumedAt.isNone && now < g.expiresAt

def Db.addGrant (db : Db) (g : PairingGrant) : Db := { db with grants := db.grants ++ [g] }

def Db.addNode (db : Db) (p : NodeRow) : Db := { db with nodes := db.nodes ++ [p] }

def Db.updateGrants (db : Db) (which : PairingGrant → Bool) (f : PairingGrant → PairingGrant) : Db :=
  { db with grants := db.grants.map fun g => if which g then f g else g }

def Db.updateNode (db : Db) (id : NodeId) (f : NodeRow → NodeRow) : Db :=
  { db with nodes := db.nodes.map fun p => if p.id = id then f p else p }

def Db.nextGrantId (db : Db) : Nat := (db.grants.map (·.id)).foldr max 0 + 1

def insertPairingGrant (faults : Faults) (codeSha256 : JsString) (name : Option JsString) (createdAt expiresAt : Time) :
    M Nat :=
  query faults .insertGrant do
    let db ← get
    if db.grants.any (·.codeSha256 = codeSha256) then
      throw (.sqlite (js "UNIQUE constraint failed: node_pairing_grants.code_sha256"))
    else
      set (db.addGrant ⟨db.nextGrantId, codeSha256, name, createdAt, expiresAt, none, none⟩)
      return db.nextGrantId

def consumePairingGrant (faults : Faults) (codeSha256 : JsString) (now : Time) : M (Option (Nat × Option JsString)) :=
  query faults .consume do
    let db ← get
    set (db.updateGrants (·.redeemable codeSha256 now) fun g => { g with consumedAt := some now })
    return (db.grants.find? (·.redeemable codeSha256 now)).map fun g => (g.id, g.name)

def PUBLIC_KEY_UNIQUE : JsString := js "UNIQUE constraint failed: nodes.public_key"

def insertPairedNode (faults : Faults) (id : NodeId) (name publicKey hostname : JsString) (pairedAt : Time) : M Unit :=
  query faults .insertNode do
    let db ← get
    if db.nodes.any (·.publicKey = some publicKey) then throw (.sqlite PUBLIC_KEY_UNIQUE)
    else if db.nodes.any (·.id = id) then throw (.sqlite (js "UNIQUE constraint failed: nodes.id"))
    else set (db.addNode ⟨id, name, some publicKey, some hostname, some pairedAt, none, none⟩)

def setPairingGrantNode (faults : Faults) (id : Nat) (nodeId : NodeId) : M Unit :=
  query faults .setGrantNode <| modify fun db => db.updateGrants (·.id = id) fun g => { g with nodeId := some nodeId }

def getNode (faults : Faults) (statement : Statement) (id : NodeId) : M (Option NodeRow) :=
  query faults statement do
    let db ← get
    return db.nodes.find? (·.id = id)

def updateNode (faults : Faults) (id : NodeId) (f : NodeRow → NodeRow) : M Unit :=
  query faults .update <| modify fun db => db.updateNode id f

def setNodeName (faults : Faults) (id : NodeId) (name : JsString) : M Unit :=
  updateNode faults id fun p => { p with name }

def setNodeRevoked (faults : Faults) (id : NodeId) (now : Time) : M Unit :=
  updateNode faults id fun p => { p with revokedAt := p.revokedAt.or (some now) }

def setNodeRemoved (faults : Faults) (id : NodeId) (now : Time) : M Unit :=
  updateNode faults id fun p => { p with removedAt := p.removedAt.or (some now) }

/-! ## `Nodes` -/

/-- Bun's `transaction`: a statement that fails, the commit too, rolls it back. -/
def transaction {α : Type} (faults : Faults) (m : M α) : M α :=
  Throwing.transaction do
    query faults .begin (pure ())
    let a ← m
    query faults .commit (pure ())
    return a

/-- `Nodes.publish` reads the node, and what its view holds. -/
def publish (faults : Faults) (nodeId : NodeId) : M Unit := do
  match ← getNode faults .publishNode nodeId with
  | some row => if row.removedAt.isSome then pure () else query faults .publishSources (pure ())
  | none => pure ()

def getModel (faults : Faults) (statement : Statement) (nodeId : NodeId) : M NodeRow := do
  match ← getNode faults statement nodeId with
  | some row => return row
  | none => throw (.nodeNotFound nodeId)

def assertNotRemoved (row : NodeRow) : M Unit := if row.removedAt.isSome then throw (.nodeRemoved row.id) else pure ()

def assertPaired (action : JsString) (row : NodeRow) : M Unit :=
  if row.publicKey.isNone then throw (.nodeNotPaired row.id action) else pure ()

/-- What `rename` and `revoke` return. -/
def viewOf (faults : Faults) (nodeId : NodeId) : M Unit := do
  let _ ← getModel faults .viewNode nodeId
  query faults .viewSources (pure ())

def rename (faults : Faults) (nodeId : NodeId) (name : JsString) : M Unit := do
  let row ← getModel faults .read nodeId
  assertNotRemoved row
  let trimmed := trim name
  if trimmed.length = 0 ∨ trimmed.length > MAX_NODE_NAME_LENGTH then throw .invalidNodeName
  else
    setNodeName faults nodeId trimmed
    publish faults nodeId
    viewOf faults nodeId

def revoke (faults : Faults) (nodeId : NodeId) (now : Time) : M Unit := do
  let row ← getModel faults .read nodeId
  assertNotRemoved row
  assertPaired (js "revoked") row
  setNodeRevoked faults nodeId now
  publish faults nodeId
  viewOf faults nodeId

def removeInTransaction (faults : Faults) (nodeId : NodeId) (now : Time) : M Bool := do
  let row ← getModel faults .viewNode nodeId
  assertPaired (js "removed") row
  if row.removedAt.isSome then return false
  else
    setNodeRemoved faults nodeId now
    return true

def remove (faults : Faults) (nodeId : NodeId) (now : Time) : M Unit := do
  let _ ← getModel faults .read nodeId
  let removed ← transaction faults (removeInTransaction faults nodeId now)
  if removed then publish faults nodeId else pure ()

/-! ## `NodePairing` -/

def PAIRING_CODE_TTL_MS : Nat := 10 * 60000

def dash : UInt16 := 0x2D

/-- `drawn`: what `randomBytes` gives, one after another. -/
def createCode (hashCode : JsString → JsString) (faults : Faults) (name : Option JsString) (drawn : List JsString)
    (now : Time) : M Unit :=
  match drawn.find? (·.head? ≠ some dash) with
  | some code => do
    let _ ← insertPairingGrant faults (hashCode code) name now (now + PAIRING_CODE_TTL_MS)
  | none => pure ()

structure Redemption where
  code : JsString
  publicKey : JsString
  hostname : JsString
  now : Time
  /-- `randomUUID`'s. -/
  nodeId : NodeId
  deriving DecidableEq

structure Paired where
  pairingCodeId : Nat
  nodeId : NodeId
  name : JsString
  deriving DecidableEq

/-- `insertPairedNode`'s error as `redeem` throws it. -/
def keyError (error : Error) : Error := if PUBLIC_KEY_UNIQUE <:+: error.message then .publicKeyInUse else error

def pair (hashCode : JsString → JsString) (faults : Faults) (r : Redemption) : M Paired := do
  match ← consumePairingGrant faults (hashCode r.code) r.now with
  | none => throw .invalidPairingCode
  | some (grantId, grantName) =>
    let name := grantName.getD r.hostname
    tryCatch (insertPairedNode faults r.nodeId name r.publicKey r.hostname r.now) fun error => throw (keyError error)
    setPairingGrantNode faults grantId r.nodeId
    return ⟨grantId, r.nodeId, name⟩

def redeem (hashCode : JsString → JsString) (e : Ed25519) (faults : Faults) (r : Redemption) : M Paired :=
  if (parseNodePublicKey e r.publicKey).isNone then throw .invalidPublicKey
  else do
    let paired ← transaction faults (pair hashCode faults r)
    publish faults paired.nodeId
    return paired

/-! ## Runs -/

inductive Request
  | createCode (name : Option JsString) (drawn : List JsString) (now : Time)
  | redeem (r : Redemption)
  | rename (nodeId : NodeId) (name : JsString)
  | revoke (nodeId : NodeId) (now : Time)
  | remove (nodeId : NodeId) (now : Time)

structure Event where
  request : Request
  faults : Faults

/-- The state a program leaves, whether it throws or not. -/
def after {α : Type} (m : M α) (db : Db) : Db :=
  match m db with
  | .ok _ db' => db'
  | .error _ db' => db'

section

variable (hashCode : JsString → JsString) (e : Ed25519)

def step (db : Db) (event : Event) : Db :=
  match event.request with
  | .createCode name drawn now => after (createCode hashCode event.faults name drawn now) db
  | .redeem r => after (redeem hashCode e event.faults r) db
  | .rename nodeId name => after (rename event.faults nodeId name) db
  | .revoke nodeId now => after (revoke event.faults nodeId now) db
  | .remove nodeId now => after (remove event.faults nodeId now) db

/-- The migrations' tables: the local node, which was never paired. -/
def init : Db := ⟨[⟨js "internal", js "Internal", none, none, none, none, none⟩], []⟩

end

/-! ## What each request does -/

section

variable {hashCode : JsString → JsString} {e : Ed25519} {faults : Faults} {r : Redemption} {g : PairingGrant} {db : Db}

def Redemption.node (r : Redemption) (g : PairingGrant) : NodeRow :=
  ⟨r.nodeId, g.name.getD r.hostname, some r.publicKey, some r.hostname, some r.now, none, none⟩

/-- The tables once `r` has been committed. -/
def Db.paired (db : Db) (codeSha256 : JsString) (r : Redemption) (g : PairingGrant) : Db :=
  ((db.updateGrants (·.redeemable codeSha256 r.now) fun g => { g with consumedAt := some r.now }).addNode
    (r.node g)).updateGrants (·.id = g.id) fun g => { g with nodeId := some r.nodeId }

structure Redeems (hashCode : JsString → JsString) (e : Ed25519) (db : Db) (faults : Faults) (r : Redemption)
    (g : PairingGrant) : Prop where
  key : (parseNodePublicKey e r.publicKey).isSome
  code : db.grants.find? (·.redeemable (hashCode r.code) r.now) = some g
  keyFree : ∀ p ∈ db.nodes, p.publicKey ≠ some r.publicKey
  idFree : ∀ p ∈ db.nodes, p.id ≠ r.nodeId
  faultless : ∀ q ∈ [Statement.begin, .consume, .insertNode, .setGrantNode, .commit], faults q = none

theorem query_none {q : Statement} (h : faults q = none) (m : M α) : query faults q m = m := by
  simp [query, h]

theorem query_some {q : Statement} {message : JsString} (h : faults q = some message) (m : M α) (db : Db) :
    query faults q m db = .error (.sqlite message) db := by
  simp only [query, h]
  rfl

theorem insertPairedNode_ok (hfault : faults .insertNode = none) {id : NodeId} {name publicKey hostname : JsString}
    {now : Time} (hkey : ∀ p ∈ db.nodes, p.publicKey ≠ some publicKey) (hid : ∀ p ∈ db.nodes, p.id ≠ id) :
    insertPairedNode faults id name publicKey hostname now db =
      .ok () (db.addNode ⟨id, name, some publicKey, some hostname, some now, none, none⟩) := by
  have hkey' : db.nodes.any (·.publicKey = some publicKey) = false := by simpa using hkey
  have hid' : db.nodes.any (·.id = id) = false := by simpa using hid
  rw [insertPairedNode, query_none hfault]
  simp only [bind, EStateM.bind, get, getThe, MonadStateOf.get, EStateM.get, hkey', hid']
  rfl

theorem insertPairedNode_error {id : NodeId} {publicKey : JsString} (h : faults .insertNode ≠ none ∨ (∃ p ∈ db.nodes, p.publicKey = some publicKey) ∨
    ∃ p ∈ db.nodes, p.id = id) (name hostname : JsString) (now : Time) :
    ∃ error, insertPairedNode faults id name publicKey hostname now db = .error error db := by
  cases hfault : faults .insertNode with
  | some message => exact ⟨_, query_some hfault ..⟩
  | none =>
    rw [insertPairedNode, query_none hfault]
    simp only [bind, EStateM.bind, get, getThe, MonadStateOf.get, EStateM.get]
    split
    · exact ⟨_, rfl⟩
    split
    · exact ⟨_, rfl⟩
    rename_i hkey hid
    simp only [List.any_eq_true, decide_eq_true_eq, not_exists, not_and] at hkey hid
    rcases h with h | ⟨p, hp, heq⟩ | ⟨p, hp, heq⟩
    · exact absurd hfault h
    · exact absurd heq (hkey p hp)
    · exact absurd heq (hid p hp)

theorem consume_eq (h : faults .consume = none) (codeSha256 : JsString) (now : Time) (db : Db) :
    consumePairingGrant faults codeSha256 now db =
      .ok ((db.grants.find? (·.redeemable codeSha256 now)).map fun g => (g.id, g.name))
        (db.updateGrants (·.redeemable codeSha256 now) fun g => { g with consumedAt := some now }) := by
  rw [consumePairingGrant, query_none h]
  rfl

theorem setGrantNode_eq (h : faults .setGrantNode = none) (id : Nat) (nodeId : NodeId) (db : Db) :
    setPairingGrantNode faults id nodeId db =
      .ok () (db.updateGrants (·.id = id) fun g => { g with nodeId := some nodeId }) := by
  rw [setPairingGrantNode, query_none h]
  rfl

theorem catch_of_ok {handle : Error → M α} {db : Db} (h : m db = .ok a db') : tryCatch m handle db = .ok a db' := by
  simp [tryCatch, tryCatchThe, MonadExceptOf.tryCatch, EStateM.tryCatch, h]

theorem catch_of_error (f : Error → Error) {error : Error} {db : Db}
    (h : m db = .error error db') : tryCatch m (fun error => throw (f error)) db = .error (f error) db' := by
  simp only [tryCatch, tryCatchThe, MonadExceptOf.tryCatch, EStateM.tryCatch, h]
  rfl

/-- The transaction's statements, but for `BEGIN` and `COMMIT`. -/
theorem pair_ok (h : Redeems hashCode e db faults r g) : pair hashCode faults r db =
    .ok ⟨g.id, r.nodeId, g.name.getD r.hostname⟩ (db.paired (hashCode r.code) r g) := by
  have hinsert := @insertPairedNode_ok _
    (db.updateGrants (·.redeemable (hashCode r.code) r.now) fun g => { g with consumedAt := some r.now })
    (h.faultless .insertNode (by simp)) _ (g.name.getD r.hostname) _ r.hostname r.now h.keyFree h.idFree
  unfold pair
  rw [bind_of_ok (consume_eq (h.faultless .consume (by simp)) ..), h.code]
  simp only [Option.map_some]
  rw [bind_of_ok (catch_of_ok hinsert), bind_of_ok (setGrantNode_eq (h.faultless .setGrantNode (by simp)) ..)]
  rfl

theorem pair_error (hkey : (parseNodePublicKey e r.publicKey).isSome) (hbegin : faults .begin = none)
    (hcommit : faults .commit = none) (h : ∀ g, ¬ Redeems hashCode e db faults r g) :
    ∃ error db', pair hashCode faults r db = .error error db' := by
  unfold pair
  cases hconsume : faults .consume with
  | some message => exact ⟨_, _, bind_of_error (query_some hconsume ..) _⟩
  | none =>
    rw [bind_of_ok (consume_eq hconsume ..)]
    cases hcode : db.grants.find? (·.redeemable (hashCode r.code) r.now) with
    | none => exact ⟨_, _, rfl⟩
    | some g =>
      simp only [Option.map_some]
      by_cases hinsert : faults .insertNode = none ∧ (∀ p ∈ db.nodes, p.publicKey ≠ some r.publicKey) ∧
          ∀ p ∈ db.nodes, p.id ≠ r.nodeId
      · obtain ⟨hinsert, hkeyFree, hidFree⟩ := hinsert
        have hinserted := @insertPairedNode_ok _
          (db.updateGrants (·.redeemable (hashCode r.code) r.now) fun g => { g with consumedAt := some r.now })
          hinsert _ (g.name.getD r.hostname) _ r.hostname r.now hkeyFree hidFree
        rw [bind_of_ok (catch_of_ok hinserted)]
        cases hset : faults .setGrantNode with
        | some message => exact ⟨_, _, bind_of_error (query_some hset ..) _⟩
        | none =>
          refine absurd ⟨hkey, hcode, hkeyFree, hidFree, ?_⟩ (h g)
          simp [hbegin, hconsume, hinsert, hset, hcommit]
      · have hfails : faults .insertNode ≠ none ∨ (∃ p ∈ db.nodes, p.publicKey = some r.publicKey) ∨
            ∃ p ∈ db.nodes, p.id = r.nodeId := by
          by_contra hnone
          push Not at hnone
          exact hinsert hnone
        obtain ⟨error, herror⟩ := @insertPairedNode_error _
          (db.updateGrants (·.redeemable (hashCode r.code) r.now) fun g => { g with consumedAt := some r.now })
          _ _ hfails (g.name.getD r.hostname) r.hostname r.now
        exact ⟨_, _, bind_of_error (catch_of_error keyError herror) _⟩

theorem transaction_eq (hbegin : faults .begin = none)
    (hcommit : faults .commit = none) (h : m db = .ok a db') : transaction faults m db = .ok a db' := by
  rw [transaction, transaction_ok, query_none hbegin, query_none hcommit, pure_bind, bind_of_ok h]
  rfl

theorem transaction_error (h : faults .begin = none → faults .commit = none → ∃ error db', m db = .error error db') :
    ∃ error, transaction faults m db = .error error db := by
  have hthrows : ∃ error db', (do query faults .begin (pure ()); let a ← m; query faults .commit (pure ()); return a : M α) db =
      .error error db' := by
    cases hbegin : faults .begin with
    | some message => exact ⟨_, _, bind_of_error (query_some hbegin ..) _⟩
    | none =>
      rw [query_none hbegin, pure_bind]
      cases hm : m db with
      | error error db' => exact ⟨_, _, bind_of_error hm _⟩
      | ok a db' =>
        rw [bind_of_ok hm]
        cases hcommit : faults .commit with
        | some message => exact ⟨_, _, bind_of_error (query_some hcommit ..) _⟩
        | none =>
          obtain ⟨error, db'', herror⟩ := h hbegin hcommit
          cases hm.symm.trans herror
  obtain ⟨error, db', herror⟩ := hthrows
  refine ⟨error, ?_⟩
  unfold transaction Throwing.transaction
  rw [herror]

/-- **A redemption commits and then tells, or throws and leaves the tables as they were.** -/
theorem redeem_cases (hashCode : JsString → JsString) (e : Ed25519) (faults : Faults) (r : Redemption) (db : Db) :
    (∃ g, Redeems hashCode e db faults r g ∧ redeem hashCode e faults r db =
      (do publish faults r.nodeId; return ⟨g.id, r.nodeId, g.name.getD r.hostname⟩ : M Paired)
        (db.paired (hashCode r.code) r g)) ∨
    (∀ g, ¬ Redeems hashCode e db faults r g) ∧ ∃ error, redeem hashCode e faults r db = .error error db := by
  by_cases hredeems : ∃ g, Redeems hashCode e db faults r g
  · obtain ⟨g, hg⟩ := hredeems
    left
    refine ⟨g, hg, ?_⟩
    have hcommitted : transaction faults (pair hashCode faults r) db =
        .ok ⟨g.id, r.nodeId, g.name.getD r.hostname⟩ (db.paired (hashCode r.code) r g) :=
      transaction_eq (hg.faultless .begin (by simp)) (hg.faultless .commit (by simp)) (pair_ok hg)
    have hkey : ¬ (parseNodePublicKey e r.publicKey).isNone := by simpa using Option.isSome_iff_ne_none.mp hg.key
    rw [redeem, if_neg hkey, bind_of_ok hcommitted]
  · push Not at hredeems
    right
    refine ⟨hredeems, ?_⟩
    unfold redeem
    split
    · exact ⟨_, rfl⟩
    rename_i hkey
    rw [Bool.not_eq_true, Option.isNone_eq_false_iff] at hkey
    obtain ⟨error, herror⟩ := transaction_error fun hbegin hcommit => pair_error hkey hbegin hcommit hredeems
    exact ⟨error, bind_of_error herror _⟩

/-! ## Programs that read -/

theorem reads_query (h : Reads m) (q : Statement) : Reads (query faults q m) := by
  cases hq : faults q with
  | some message => exact fun db => .inr ⟨_, query_some hq m db⟩
  | none =>
    rw [query_none hq]
    exact h

theorem reads_getNode (q : Statement) (nodeId : NodeId) : Reads (getNode faults q nodeId) :=
  reads_query (reads_bind reads_get fun _ => reads_pure _) q

theorem reads_getModel (q : Statement) (nodeId : NodeId) : Reads (getModel faults q nodeId) := by
  refine reads_bind (reads_getNode q nodeId) fun row => ?_
  cases row with
  | some row => exact reads_pure row
  | none => exact reads_throw _

theorem reads_publish (nodeId : NodeId) : Reads (publish faults nodeId) := by
  refine reads_bind (reads_getNode .publishNode nodeId) fun row => ?_
  cases row with
  | some row =>
    simp only
    split
    · exact reads_pure ()
    · exact reads_query (reads_pure ()) .publishSources
  | none => exact reads_pure ()

theorem reads_viewOf (nodeId : NodeId) : Reads (viewOf faults nodeId) :=
  reads_bind (reads_getModel .viewNode nodeId) fun _ => reads_query (reads_pure ()) .viewSources

theorem reads_assertNotRemoved (row : NodeRow) : Reads (assertNotRemoved row) := by
  unfold assertNotRemoved
  split
  · exact reads_throw _
  · exact reads_pure ()

theorem reads_assertPaired (action : JsString) (row : NodeRow) : Reads (assertPaired action row) := by
  unfold assertPaired
  split
  · exact reads_throw _
  · exact reads_pure ()

/-! ## What a node's row keeps -/

structure Harmless (f : NodeRow → NodeRow) : Prop where
  id : ∀ p, (f p).id = p.id
  publicKey : ∀ p, (f p).publicKey = p.publicKey
  pairedAt : ∀ p, (f p).pairedAt = p.pairedAt
  revokedAt : ∀ p t, p.revokedAt = some t → (f p).revokedAt = some t
  removedAt : ∀ p t, p.removedAt = some t → (f p).removedAt = some t

def Touched (db db' : Db) : Prop := db' = db ∨ ∃ nodeId f, Harmless f ∧ db' = db.updateNode nodeId f

abbrev Touches {α : Type} (m : M α) : Prop := ∀ db, Touched db (after m db)

theorem after_reads (h : Reads m) (db : Db) : after m db = db := by
  rcases h db with ⟨a, ha⟩ | ⟨error, he⟩
  · simp [after, ha]
  · simp [after, he]

theorem touches_of_reads (h : Reads m) : Touches m := fun db => .inl (after_reads h db)

theorem touches_reads_bind {β : Type} {f : α → M β} (h : Reads m) (hf : ∀ a, Touches (f a)) : Touches (m >>= f) := by
  intro db
  rcases h db with ⟨a, ha⟩ | ⟨error, he⟩
  · have hbind : after (m >>= f) db = after (f a) db := by simp [after, bind_of_ok ha]
    exact hbind ▸ hf a db
  · exact .inl (by simp [after, bind_of_error he])

theorem touches_bind_reads {β : Type} {f : α → M β} (h : Touches m) (hf : ∀ a, Reads (f a)) : Touches (m >>= f) := by
  intro db
  have hm := h db
  cases hdb : m db with
  | ok a db' =>
    simp only [after, hdb] at hm
    have hbind : after (m >>= f) db = after (f a) db' := by simp [after, bind_of_ok hdb]
    rw [hbind, after_reads (hf a)]
    exact hm
  | error error db' =>
    simp only [after, hdb] at hm
    have hbind : after (m >>= f) db = db' := by simp [after, bind_of_error hdb]
    exact hbind ▸ hm

theorem touches_updateNode (h : Harmless f) (nodeId : NodeId) : Touches (updateNode faults nodeId f) := by
  intro db
  cases hq : faults .update with
  | some message => exact .inl (by simp [updateNode, after, query_some hq])
  | none =>
    rw [updateNode, query_none hq]
    exact .inr ⟨nodeId, f, h, rfl⟩

theorem harmless_stamp (now : Time) : Harmless (fun p => { p with revokedAt := p.revokedAt.or (some now) }) ∧
    Harmless (fun p => { p with removedAt := p.removedAt.or (some now) }) := by
  constructor <;> constructor <;> simp +contextual

theorem touches_rename (nodeId : NodeId) (name : JsString) : Touches (rename faults nodeId name) := by
  refine touches_reads_bind (reads_getModel .read nodeId) fun row => ?_
  refine touches_reads_bind (reads_assertNotRemoved row) fun _ => ?_
  simp only
  split
  · exact touches_of_reads (reads_throw _)
  refine touches_bind_reads (touches_updateNode ?_ nodeId) fun _ =>
    reads_bind (reads_publish nodeId) fun _ => reads_viewOf nodeId
  constructor <;> simp

theorem touches_revoke (nodeId : NodeId) (now : Time) : Touches (revoke faults nodeId now) := by
  refine touches_reads_bind (reads_getModel .read nodeId) fun row => ?_
  refine touches_reads_bind (reads_assertNotRemoved row) fun _ => ?_
  refine touches_reads_bind (reads_assertPaired _ row) fun _ => ?_
  exact touches_bind_reads (touches_updateNode (harmless_stamp now).1 nodeId) fun _ =>
    reads_bind (reads_publish nodeId) fun _ => reads_viewOf nodeId

theorem touches_transaction (h : Touches m) : Touches (transaction faults m) := by
  intro db
  have hm : Touches (do query faults .begin (pure ()); let a ← m; query faults .commit (pure ()); return a : M α) :=
    touches_reads_bind (reads_query (reads_pure ()) .begin) fun _ =>
      touches_bind_reads h fun a => reads_bind (reads_query (reads_pure ()) .commit) fun _ => reads_pure a
  have hdb := hm db
  simp only [after] at hdb
  simp only [after, transaction, Throwing.transaction]
  split at hdb
  next hrun =>
    simp only [hrun]
    exact hdb
  next hrun =>
    simp only [hrun]
    exact .inl rfl

theorem touches_remove (nodeId : NodeId) (now : Time) : Touches (remove faults nodeId now) := by
  refine touches_reads_bind (reads_getModel .read nodeId) fun _ => ?_
  refine touches_bind_reads (touches_transaction ?_) fun removed => ?_
  · refine touches_reads_bind (reads_getModel .viewNode nodeId) fun row => ?_
    refine touches_reads_bind (reads_assertPaired _ row) fun _ => ?_
    split
    · exact touches_of_reads (reads_pure false)
    · exact touches_bind_reads (touches_updateNode (harmless_stamp now).2 nodeId) fun _ => reads_pure true
  · cases removed with
    | true => exact reads_publish nodeId
    | false => exact reads_pure ()

/-! ## What holds of the tables -/

structure Sound (e : Ed25519) (db : Db) : Prop where
  ids : (db.grants.map (·.id)).Nodup
  codes : (db.grants.map (·.codeSha256)).Nodup
  ttl : ∀ g ∈ db.grants, g.expiresAt = g.createdAt + PAIRING_CODE_TTL_MS
  /-- A consumed code was consumed before it expired, and names the node it paired then. -/
  consumed : ∀ g ∈ db.grants, ∀ t, g.consumedAt = some t → t < g.expiresAt ∧
    ∃ p ∈ db.nodes, g.nodeId = some p.id ∧ p.pairedAt = some t ∧ p.publicKey.isSome
  named : ∀ g ∈ db.grants, g.nodeId.isSome → g.consumedAt.isSome
  nodeIds : (db.nodes.map (·.id)).Nodup
  paired : ∀ p ∈ db.nodes, p.publicKey.isSome → ∃ g ∈ db.grants, g.nodeId = some p.id
  once : ∀ g ∈ db.grants, ∀ g' ∈ db.grants, ∀ nodeId, g.nodeId = some nodeId → g'.nodeId = some nodeId → g = g'
  parsed : ∀ p ∈ db.nodes, ∀ k, p.publicKey = some k → (parseNodePublicKey e k).isSome
  keys : ∀ p ∈ db.nodes, ∀ q ∈ db.nodes, ∀ k k', p.publicKey = some k → q.publicKey = some k' →
    parseNodePublicKey e k = parseNodePublicKey e k' → p = q

theorem parseNodePublicKey_inj {k k' : JsString} {bytes : List UInt8} (h : parseNodePublicKey e k = some bytes)
    (h' : parseNodePublicKey e k' = some bytes) : k = k' := by
  have spelled {k : JsString} (h : parseNodePublicKey e k = some bytes) : k = (Base64.encodeUrl bytes).flatMap units := by
    unfold parseNodePublicKey at h
    simp only at h
    split at h
    next hspell =>
      split at h
      · cases h
        exact hspell.2.2.symm
      · cases h
    · cases h
  rw [spelled h, spelled h']

theorem sound_init : Sound e init := by
  constructor <;> simp [init]

/-! ### A code is made -/

theorem le_foldr_max {n : Nat} {ns : List Nat} (h : n ∈ ns) : n ≤ ns.foldr max 0 := by
  induction ns with
  | nil => cases h
  | cons m ns ih =>
    rcases List.mem_cons.mp h with rfl | h
    · exact Nat.le_max_left ..
    · exact Nat.le_trans (ih h) (Nat.le_max_right ..)

theorem nodup_concat {l : List α} (h : l.Nodup) (ha : a ∉ l) : (l ++ [a]).Nodup :=
  List.nodup_append.mpr ⟨h, List.nodup_singleton a, fun x hx y hy => by
    rintro rfl
    exact ha (List.mem_singleton.mp hy ▸ hx)⟩

structure Db.New (db : Db) (g : PairingGrant) : Prop where
  id : g.id = db.nextGrantId
  code : ∀ g' ∈ db.grants, g'.codeSha256 ≠ g.codeSha256
  ttl : g.expiresAt = g.createdAt + PAIRING_CODE_TTL_MS
  consumedAt : g.consumedAt = none
  nodeId : g.nodeId = none

theorem createCode_cases (hashCode : JsString → JsString) (faults : Faults) (name : Option JsString)
    (drawn : List JsString) (now : Time) (db : Db) :
    after (createCode hashCode faults name drawn now) db = db ∨
      ∃ g, db.New g ∧ after (createCode hashCode faults name drawn now) db = db.addGrant g := by
  unfold createCode
  split
  next code hcode =>
    cases hq : faults .insertGrant with
    | some message =>
      left
      simp only [after, insertPairingGrant]
      rw [bind_of_error (query_some hq ..)]
    | none =>
      simp only [insertPairingGrant, query_none hq]
      by_cases hcode : db.grants.any (·.codeSha256 = hashCode code)
      · left
        simp only [after, bind, EStateM.bind, get, getThe, MonadStateOf.get, EStateM.get, hcode]
        rfl
      right
      refine ⟨⟨db.nextGrantId, hashCode code, name, now, now + PAIRING_CODE_TTL_MS, none, none⟩, ?_, ?_⟩
      · simp only [List.any_eq_true, decide_eq_true_eq, not_exists, not_and] at hcode
        exact ⟨rfl, hcode, rfl, rfl, rfl⟩
      · simp only [after, bind, EStateM.bind, get, getThe, MonadStateOf.get, EStateM.get, hcode]
        rfl
  · exact .inl rfl

theorem Sound.addGrant (h : Sound e db) (hg : db.New g) : Sound e (db.addGrant g) := by
  -- What is of a consumed grant is of one that was there.
  have hold (x : PairingGrant) (hx : x ∈ (db.addGrant g).grants) : x ∈ db.grants ∨ x = g := by
    simpa [Db.addGrant] using hx
  refine ⟨?_, ?_, ?_, ?_, ?_, h.nodeIds, ?_, ?_, h.parsed, h.keys⟩
  · rw [Db.addGrant, List.map_append]
    refine nodup_concat h.ids fun hmem => ?_
    have : g.id ≤ (db.grants.map (·.id)).foldr max 0 := le_foldr_max hmem
    rw [hg.id, Db.nextGrantId] at this
    omega
  · rw [Db.addGrant, List.map_append]
    refine nodup_concat h.codes fun hmem => ?_
    obtain ⟨x, hx, hcode⟩ := List.mem_map.mp hmem
    exact hg.code x hx hcode
  · intro x hx
    rcases hold x hx with hx | rfl
    · exact h.ttl x hx
    · exact hg.ttl
  · intro x hx t ht
    rcases hold x hx with hx | rfl
    · exact h.consumed x hx t ht
    · rw [hg.consumedAt] at ht
      cases ht
  · intro x hx hnode
    rcases hold x hx with hx | rfl
    · exact h.named x hx hnode
    · rw [hg.nodeId] at hnode
      cases hnode
  · intro p hp hkey
    obtain ⟨x, hx, hnode⟩ := h.paired p hp hkey
    exact ⟨x, List.mem_append_left _ hx, hnode⟩
  · intro x hx y hy nodeId hxn hyn
    rcases hold x hx with hx | rfl
    · rcases hold y hy with hy | rfl
      · exact h.once x hx y hy nodeId hxn hyn
      · rw [hg.nodeId] at hyn
        cases hyn
    · rw [hg.nodeId] at hxn
      cases hxn

/-! ### A node's row is updated -/

theorem mem_updateNode {p : NodeRow} :
    p ∈ (db.updateNode nodeId f).nodes ↔ ∃ q ∈ db.nodes, (if q.id = nodeId then f q else q) = p := List.mem_map

theorem Harmless.ite (h : Harmless f) (nodeId : NodeId) : Harmless fun p => if p.id = nodeId then f p else p := by
  refine ⟨fun p => ?_, fun p => ?_, fun p => ?_, fun p t ht => ?_, fun p t ht => ?_⟩ <;> split
  · exact h.id p
  · rfl
  · exact h.publicKey p
  · rfl
  · exact h.pairedAt p
  · rfl
  · exact h.revokedAt p t ht
  · exact ht
  · exact h.removedAt p t ht
  · exact ht

theorem Sound.updateNode (h : Sound e db) (hf : Harmless f) : Sound e (db.updateNode nodeId f) := by
  have hf' := hf.ite nodeId
  have hids : (db.updateNode nodeId f).nodes.map (·.id) = db.nodes.map (·.id) := by
    rw [Db.updateNode, List.map_map]
    exact List.map_congr_left fun p _ => hf'.id p
  refine ⟨h.ids, h.codes, h.ttl, ?_, h.named, hids ▸ h.nodeIds, ?_, h.once, ?_, ?_⟩
  · intro g hg t ht
    obtain ⟨hexpires, p, hp, hnode, hat, hkey⟩ := h.consumed g hg t ht
    refine ⟨hexpires, _, mem_updateNode.mpr ⟨p, hp, rfl⟩, ?_, ?_, ?_⟩
    · rw [hf'.id]
      exact hnode
    · exact (hf'.pairedAt p).trans hat
    · rw [hf'.publicKey]
      exact hkey
  · intro p hp hkey
    obtain ⟨q, hq, rfl⟩ := mem_updateNode.mp hp
    rw [hf'.publicKey] at hkey
    rw [hf'.id]
    exact h.paired q hq hkey
  · intro p hp k hk
    obtain ⟨q, hq, rfl⟩ := mem_updateNode.mp hp
    rw [hf'.publicKey] at hk
    exact h.parsed q hq k hk
  · intro p hp p' hp' k k' hk hk' hsame
    obtain ⟨q, hq, rfl⟩ := mem_updateNode.mp hp
    obtain ⟨q', hq', rfl⟩ := mem_updateNode.mp hp'
    rw [hf'.publicKey] at hk hk'
    rw [h.keys q hq q' hq' k k' hk hk' hsame]

/-! ### A code is redeemed -/

def PairingGrant.spent (g : PairingGrant) (r : Redemption) : PairingGrant :=
  { g with consumedAt := some r.now, nodeId := some r.nodeId }

theorem Redeems.mem (h : Redeems hashCode e db faults r g) : g ∈ db.grants := List.mem_of_find?_eq_some h.code

theorem Redeems.redeemable (h : Redeems hashCode e db faults r g) :
    g.codeSha256 = hashCode r.code ∧ g.consumedAt = none ∧ r.now < g.expiresAt := by
  have := List.find?_some h.code
  simpa [PairingGrant.redeemable, and_assoc] using this

theorem paired_eq (hs : Sound e db) (h : Redeems hashCode e db faults r g) : db.paired (hashCode r.code) r g =
    ⟨db.nodes ++ [r.node g], db.grants.map fun x => if x = g then g.spent r else x⟩ := by
  have hg := h.redeemable
  unfold Db.paired Db.updateGrants Db.addNode
  simp only [List.map_map, Db.mk.injEq, true_and]
  refine List.map_congr_left fun x hx => ?_
  by_cases hxg : x = g
  · subst hxg
    simp [PairingGrant.redeemable, hg, PairingGrant.spent]
  have hcode : x.codeSha256 ≠ hashCode r.code := fun heq =>
    hxg (List.inj_on_of_nodup_map hs.codes hx h.mem (heq.trans hg.1.symm))
  have hid : x.id ≠ g.id := fun heq => hxg (List.inj_on_of_nodup_map hs.ids hx h.mem heq)
  simp [PairingGrant.redeemable, hcode, hid, hxg]

theorem Sound.pair (h : Sound e db) (hr : Redeems hashCode e db faults r g) :
    Sound e (db.paired (hashCode r.code) r g) := by
  obtain ⟨-, hunspent, htime⟩ := hr.redeemable
  rw [paired_eq h hr]
  have hold (x : PairingGrant) (hx : x ∈ db.grants.map fun x => if x = g then g.spent r else x) :
      x = g.spent r ∨ x ≠ g ∧ x ∈ db.grants := by
    obtain ⟨y, hy, rfl⟩ := List.mem_map.mp hx
    by_cases hyg : y = g
    · exact .inl (if_pos hyg)
    · rw [if_neg hyg]
      exact .inr ⟨hyg, hy⟩
  have hnode (p : NodeRow) (hp : p ∈ db.nodes ++ [r.node g]) : p ∈ db.nodes ∨ p = r.node g := by
    simpa using hp
  -- A grant that names a node names another.
  have hother (x : PairingGrant) (hx : x ∈ db.grants) (nodeId : NodeId) (hn : x.nodeId = some nodeId) :
      nodeId ≠ r.nodeId := by
    obtain ⟨t, ht⟩ := Option.isSome_iff_exists.mp (h.named x hx (by simp [hn]))
    obtain ⟨-, p, hp, hpn, -⟩ := h.consumed x hx t ht
    cases hn.symm.trans hpn
    exact hr.idFree p hp
  refine ⟨?_, ?_, ?_, ?_, ?_, ?_, ?_, ?_, ?_, ?_⟩
  · have hids : (db.grants.map fun x => if x = g then g.spent r else x).map (·.id) = db.grants.map (·.id) := by
      rw [List.map_map]
      refine List.map_congr_left fun x _ => ?_
      by_cases hxg : x = g <;> simp [hxg, PairingGrant.spent]
    exact hids ▸ h.ids
  · have hcodes : (db.grants.map fun x => if x = g then g.spent r else x).map (·.codeSha256) =
        db.grants.map (·.codeSha256) := by
      rw [List.map_map]
      refine List.map_congr_left fun x _ => ?_
      by_cases hxg : x = g <;> simp [hxg, PairingGrant.spent]
    exact hcodes ▸ h.codes
  · intro x hx
    rcases hold x hx with rfl | ⟨-, hx⟩
    · exact h.ttl g hr.mem
    · exact h.ttl x hx
  · intro x hx t ht
    rcases hold x hx with rfl | ⟨-, hx⟩
    · cases ht
      exact ⟨htime, r.node g, List.mem_append_right _ (List.mem_singleton_self _), rfl, rfl, rfl⟩
    · obtain ⟨hexpires, p, hp, hrest⟩ := h.consumed x hx t ht
      exact ⟨hexpires, p, List.mem_append_left _ hp, hrest⟩
  · intro x hx hn
    rcases hold x hx with rfl | ⟨-, hx⟩
    · rfl
    · exact h.named x hx hn
  · rw [List.map_append]
    refine nodup_concat h.nodeIds fun hmem => ?_
    obtain ⟨p, hp, heq⟩ := List.mem_map.mp hmem
    exact hr.idFree p hp heq
  · intro p hp hkey
    rcases hnode p hp with hp | rfl
    · obtain ⟨x, hx, hn⟩ := h.paired p hp hkey
      refine ⟨x, List.mem_map.mpr ⟨x, hx, if_neg ?_⟩, hn⟩
      -- The grant that is redeemed names none.
      rintro rfl
      have := h.named x hx (by simp [hn])
      rw [hunspent] at this
      cases this
    · exact ⟨g.spent r, List.mem_map.mpr ⟨g, hr.mem, if_pos rfl⟩, rfl⟩
  · intro x hx y hy nodeId hxn hyn
    rcases hold x hx with rfl | ⟨-, hx⟩
    · rcases hold y hy with rfl | ⟨-, hy⟩
      · rfl
      · cases hxn
        exact absurd rfl (hother y hy _ hyn)
    · rcases hold y hy with rfl | ⟨-, hy⟩
      · cases hyn
        exact absurd rfl (hother x hx _ hxn)
      · exact h.once x hx y hy nodeId hxn hyn
  · intro p hp k hk
    rcases hnode p hp with hp | rfl
    · exact h.parsed p hp k hk
    · cases hk
      exact hr.key
  · -- The new node's key is spelled as no other's.
    have hnew (p : NodeRow) (hp : p ∈ db.nodes) (k : JsString) (hk : p.publicKey = some k)
        (hsame : parseNodePublicKey e k = parseNodePublicKey e r.publicKey) : False := by
      obtain ⟨bytes, hbytes⟩ := Option.isSome_iff_exists.mp hr.key
      have := parseNodePublicKey_inj (hsame.trans hbytes) hbytes
      exact hr.keyFree p hp (this ▸ hk)
    intro p hp q hq k k' hk hk' hsame
    rcases hnode p hp with hp | rfl
    · rcases hnode q hq with hq | rfl
      · exact h.keys p hp q hq k k' hk hk' hsame
      · cases hk'
        exact (hnew p hp k hk hsame).elim
    · rcases hnode q hq with hq | rfl
      · cases hk
        exact (hnew q hq k' hk' hsame.symm).elim
      · rfl

/-! ### For ever -/

structure Kept (db db' : Db) : Prop where
  nodes : ∀ p ∈ db.nodes, ∃ p' ∈ db'.nodes, p'.id = p.id ∧ p'.publicKey = p.publicKey ∧ p'.pairedAt = p.pairedAt ∧
    (∀ t, p.revokedAt = some t → p'.revokedAt = some t) ∧ ∀ t, p.removedAt = some t → p'.removedAt = some t
  grants : ∀ g ∈ db.grants, ∃ g' ∈ db'.grants, g'.codeSha256 = g.codeSha256 ∧ (g.consumedAt.isSome → g' = g)

theorem Kept.refl (db : Db) : Kept db db :=
  ⟨fun p hp => ⟨p, hp, rfl, rfl, rfl, fun _ h => h, fun _ h => h⟩, fun g hg => ⟨g, hg, rfl, fun _ => rfl⟩⟩

theorem Kept.trans {db'' : Db} (h : Kept db db') (h' : Kept db' db'') : Kept db db'' := by
  constructor
  · intro p hp
    obtain ⟨q, hq, hid, hkey, hat, hrevoked, hremoved⟩ := h.nodes p hp
    obtain ⟨q', hq', hid', hkey', hat', hrevoked', hremoved'⟩ := h'.nodes q hq
    exact ⟨q', hq', hid'.trans hid, hkey'.trans hkey, hat'.trans hat, fun t ht => hrevoked' t (hrevoked t ht),
      fun t ht => hremoved' t (hremoved t ht)⟩
  · intro g hg
    obtain ⟨x, hx, hcode, hsame⟩ := h.grants g hg
    obtain ⟨x', hx', hcode', hsame'⟩ := h'.grants x hx
    refine ⟨x', hx', hcode'.trans hcode, fun hconsumed => ?_⟩
    obtain rfl := hsame hconsumed
    exact hsame' hconsumed

theorem kept_addGrant (db : Db) (g : PairingGrant) : Kept db (db.addGrant g) :=
  ⟨(Kept.refl db).nodes, fun x hx => ⟨x, List.mem_append_left _ hx, rfl, fun _ => rfl⟩⟩

theorem kept_updateNode (hf : Harmless f) : Kept db (db.updateNode nodeId f) := by
  have hf' := hf.ite nodeId
  refine ⟨fun p hp => ⟨_, mem_updateNode.mpr ⟨p, hp, rfl⟩, ?_⟩, (Kept.refl db).grants⟩
  exact ⟨hf'.id p, hf'.publicKey p, hf'.pairedAt p, hf'.revokedAt p, hf'.removedAt p⟩

theorem kept_paired (hs : Sound e db) (h : Redeems hashCode e db faults r g) :
    Kept db (db.paired (hashCode r.code) r g) := by
  rw [paired_eq hs h]
  refine ⟨fun p hp => ⟨p, List.mem_append_left _ hp, rfl, rfl, rfl, fun _ h => h, fun _ h => h⟩, fun x hx => ?_⟩
  refine ⟨_, List.mem_map.mpr ⟨x, hx, rfl⟩, ?_⟩
  by_cases hxg : x = g
  · subst hxg
    rw [if_pos rfl]
    exact ⟨rfl, fun hconsumed => by rw [h.redeemable.2.1] at hconsumed; cases hconsumed⟩
  · rw [if_neg hxg]
    exact ⟨rfl, fun _ => rfl⟩

/-! ### Steps -/

theorem publish_paired (nodeId : NodeId) (paired : Paired) (db : Db) :
    after (do publish faults nodeId; return paired : M Paired) db = db :=
  after_reads (reads_bind (reads_publish nodeId) fun _ => reads_pure paired) db

theorem sound_step (hs : Sound e db) (event : Event) :
    Sound e (step hashCode e db event) ∧ Kept db (step hashCode e db event) := by
  have htouched {db' : Db} (h : Touched db db') : Sound e db' ∧ Kept db db' := by
    rcases h with rfl | ⟨nodeId, f, hf, rfl⟩
    · exact ⟨hs, Kept.refl _⟩
    · exact ⟨hs.updateNode hf, kept_updateNode hf⟩
  obtain ⟨request, faults⟩ := event
  cases request with
  | createCode name drawn now =>
    rcases createCode_cases hashCode faults name drawn now db with h | ⟨g, hg, h⟩
    · simp only [step, h]
      exact ⟨hs, Kept.refl _⟩
    · simp only [step, h]
      exact ⟨hs.addGrant hg, kept_addGrant db g⟩
  | redeem r =>
    rcases redeem_cases hashCode e faults r db with ⟨g, hg, h⟩ | ⟨-, error, h⟩
    · have hafter : after (redeem hashCode e faults r) db = db.paired (hashCode r.code) r g := by
        unfold after
        rw [h]
        exact publish_paired ..
      simp only [step, hafter]
      exact ⟨hs.pair hg, kept_paired hs hg⟩
    · simp only [step, after, h]
      exact ⟨hs, Kept.refl _⟩
  | rename nodeId name => exact htouched (touches_rename nodeId name db)
  | revoke nodeId now => exact htouched (touches_revoke nodeId now db)
  | remove nodeId now => exact htouched (touches_remove nodeId now db)

/-! ## What a redemption that throws leaves -/

/-- A redemption that throws changes nothing. -/
def Quiet (hashCode : JsString → JsString) (e : Ed25519) (db : Db) (event : Event) : Prop :=
  match event.request with
  | .redeem r => ∀ error db', redeem hashCode e event.faults r db = .error error db' → db' = db
  | _ => True

/-- A redemption that commits can then read what it tells browsers. -/
def Tells (hashCode : JsString → JsString) (e : Ed25519) (db : Db) (event : Event) : Prop :=
  match event.request with
  | .redeem r => (∃ g, Redeems hashCode e db event.faults r g) →
      event.faults .publishNode = none ∧ event.faults .publishSources = none
  | _ => True

theorem getNode_paired (hs : Sound e db) (h : Redeems hashCode e db faults r g) (hfault : faults .publishNode = none) :
    getNode faults .publishNode r.nodeId (db.paired (hashCode r.code) r g) =
      .ok (some (r.node g)) (db.paired (hashCode r.code) r g) := by
  have hfind : (db.paired (hashCode r.code) r g).nodes.find? (·.id = r.nodeId) = some (r.node g) := by
    rw [paired_eq hs h, List.find?_append, List.find?_eq_none.mpr fun p hp => by simpa using h.idFree p hp]
    simp [Redemption.node]
  rw [getNode, query_none hfault]
  simp only [bind, EStateM.bind, get, getThe, MonadStateOf.get, EStateM.get, hfind]
  rfl

theorem publish_throws (hs : Sound e db) (h : Redeems hashCode e db faults r g) (paired : Paired) :
    (∃ error, (do publish faults r.nodeId; return paired : M Paired) (db.paired (hashCode r.code) r g) =
      .error error (db.paired (hashCode r.code) r g)) ↔
    ¬ (faults .publishNode = none ∧ faults .publishSources = none) := by
  unfold publish
  cases hnode : faults .publishNode with
  | some message =>
    have herror : getNode faults .publishNode r.nodeId (db.paired (hashCode r.code) r g) =
        .error (.sqlite message) (db.paired (hashCode r.code) r g) := query_some hnode ..
    simp [bind_of_error herror]
  | none =>
    rw [bind_assoc, bind_of_ok (getNode_paired hs h hnode)]
    cases hsources : faults .publishSources with
    | some message =>
      simp only [Redemption.node, Option.isSome_none, Bool.false_eq_true, if_false]
      rw [bind_of_error (query_some hsources ..)]
      simp
    | none =>
      simp only [Redemption.node, Option.isSome_none, Bool.false_eq_true, if_false, query_none hsources, pure_bind]
      simp [pure, EStateM.pure]

theorem quiet_iff (hs : Sound e db) (event : Event) : Quiet hashCode e db event ↔ Tells hashCode e db event := by
  obtain ⟨request, faults⟩ := event
  cases request with
  | createCode | rename | revoke | remove => exact Iff.rfl
  | redeem r =>
    simp only [Quiet, Tells]
    rcases redeem_cases hashCode e faults r db with ⟨g, hg, h⟩ | ⟨hnone, error, h⟩
    · have hthrows := publish_throws hs hg ⟨g.id, r.nodeId, g.name.getD r.hostname⟩
      rw [h]
      constructor
      · intro hquiet _
        by_contra hfaults
        obtain ⟨error, herror⟩ := hthrows.mpr hfaults
        have hsame := congrArg (·.nodes.length) (hquiet error _ herror)
        simp [paired_eq hs hg] at hsame
      · intro htells error db' herror
        have hleft := @publish_paired faults r.nodeId ⟨g.id, r.nodeId, g.name.getD r.hostname⟩
          (db.paired (hashCode r.code) r g)
        unfold after at hleft
        rw [herror] at hleft
        exact absurd (htells ⟨g, hg⟩) (hthrows.mp ⟨error, hleft ▸ herror⟩)
    · rw [h]
      refine iff_of_true (fun error' db' heq => ?_) fun ⟨g, hg⟩ => absurd hg (hnone g)
      cases heq
      rfl

/-! ## Every run -/

theorem sound_exec (hs : Sound e db) (es : List Event) :
    Sound e (Run.exec (step hashCode e) db es) ∧ Kept db (Run.exec (step hashCode e) db es) := by
  induction es generalizing db with
  | nil => exact ⟨hs, Kept.refl db⟩
  | cons event es ih =>
    obtain ⟨hsound, hkept⟩ := @sound_step hashCode _ _ hs event
    obtain ⟨hsound', hkept'⟩ := ih hsound
    exact ⟨hsound', hkept.trans hkept'⟩

def Pairs (hashCode : JsString → JsString) (db : Db) (code : JsString) (nodeId : NodeId) : Prop :=
  ∃ g ∈ db.grants, g.codeSha256 = hashCode code ∧ g.nodeId = some nodeId

end

/-- **A code is for one node**, whatever comes between and whatever fails: what holds of the tables holds in every
state; what a code has paired and what key a node has stays so, and no code pairs another node later, nor another
node gets the key. A redemption that throws changes nothing exactly where one that has committed can still read
what it tells browsers. -/
theorem codes_pair_once (hashCode : JsString → JsString) (e : Ed25519) (es fs : List Event) :
    let db := Run.exec (step hashCode e) init es
    let db' := Run.exec (step hashCode e) db fs
    Sound e db ∧ Kept db db' ∧ (∀ code n m, Pairs hashCode db code n → Pairs hashCode db' code m → n = m) ∧
      (∀ p ∈ db.nodes, ∀ q ∈ db'.nodes, ∀ k k', p.publicKey = some k → q.publicKey = some k' →
        parseNodePublicKey e k = parseNodePublicKey e k' → p.id = q.id) ∧
      (Run.Along (step hashCode e) (Quiet hashCode e) init es ↔ Run.Along (step hashCode e) (Tells hashCode e) init es) := by
  intro db db'
  obtain ⟨hs, -⟩ := @sound_exec hashCode _ _ (sound_init (e := e)) es
  obtain ⟨hs', hkept⟩ := @sound_exec hashCode _ _ hs fs
  refine ⟨hs, hkept, ?_, ?_, ?_⟩
  · rintro code n m ⟨g, hg, hcode, hn⟩ ⟨g', hg', hcode', hm⟩
    obtain ⟨x, hx, hcodex, hsame⟩ := hkept.grants g hg
    obtain rfl := hsame (hs.named g hg (by simp [hn]))
    obtain rfl := List.inj_on_of_nodup_map hs'.codes hx hg' (hcode.trans hcode'.symm)
    exact Option.some.inj (hn.symm.trans hm)
  · intro p hp q hq k k' hk hk' hsame
    obtain ⟨p', hp', hid, hkey, -⟩ := hkept.nodes p hp
    rw [← hid, hs'.keys p' hp' q hq k k' (hkey.trans hk) hk' hsame]
  · exact Run.along_congr_of (Sound e) (fun db event hs => (sound_step hs event).1) (fun db event hs => quiet_iff hs event)
      sound_init es

/-- A redemption whose last read fails, once it has committed. -/
def lostRedemption : List Event :=
  [⟨.createCode none [js "code"] 0, fun _ => none⟩,
    ⟨.redeem ⟨js "code", List.replicate 43 0x41, js "host", 1, js "node"⟩,
      fun q => if q = .publishSources then some (js "disk I/O error") else none⟩]

theorem lost_redemption_consumes : ¬ ∃ hashCode : JsString → JsString,
    Run.Along (step hashCode ⟨fun _ => true, fun _ _ _ => true⟩) (Quiet hashCode ⟨fun _ => true, fun _ _ _ => true⟩)
      init lostRedemption := by
  rintro ⟨hashCode, h⟩
  let e : Ed25519 := ⟨fun _ => true, fun _ _ _ => true⟩
  let grant : PairingGrant := ⟨1, hashCode (js "code"), none, 0, PAIRING_CODE_TTL_MS, none, none⟩
  have hdb : step hashCode e init ⟨.createCode none [js "code"] 0, fun _ => none⟩ = ⟨init.nodes, [grant]⟩ := rfl
  have hs := (@sound_step hashCode _ _ (sound_init (e := e)) ⟨.createCode none [js "code"] 0, fun _ => none⟩).1
  refine absurd ((quiet_iff hs _).mp h.2.1 ⟨grant, ?_⟩) (by simp)
  rw [hdb]
  exact ⟨by decide +kernel, by simp [PairingGrant.redeemable, grant, PAIRING_CODE_TTL_MS], by simp [init],
    by simp [init, js_inj], by simp⟩

end Reins.NodePairing
