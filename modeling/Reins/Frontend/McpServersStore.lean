import Reins.Backend.McpConnections
import Reins.Backend.McpEdits
import Reins.Lib.Replica

/-!
# The browser's MCP servers (`backend/src/extensions/mcp/server.ts`, `servers.ts`, `index.ts`,
`frontend/src/extensions/mcp/mcp-servers-store.ts`)

The server's side is a machine for each server ID: the row, its secrets, its connection's failure, each call
between its awaits, and each publication from the row it captured to the message it sends. IDs are not given
twice. The browser has the list as it was loaded, with every message written into it in the order sent.
-/

namespace Reins.McpServersStore

open Run Places Schema Replica List Option Function
open McpServers (McpAuthKind McpServerFields McpServerUpdate validMcpServerFields reauthorize)
open McpEdits (McpSecretKind Write updateWrites createWrites createFields allKinds)
open McpConnections (Failure)

abbrev ServerId := Nat

structure McpServerRow where
  fields : McpServerFields
  createdAt : Nat
  updatedAt : Nat
  deriving DecidableEq

inductive McpServerStatus
  | ready
  | needsSignIn
  | error (message : String)
  | disabled
  deriving DecidableEq

structure McpServerView where
  id : ServerId
  row : McpServerRow
  hasHeaderValue : Bool
  hasClientSecret : Bool
  signedIn : Bool
  status : McpServerStatus
  deriving DecidableEq

def configurationBlock (fields : McpServerFields) (signedIn : Bool) : Option McpServerStatus :=
  if !fields.enabled then some .disabled
  else if fields.authKind = .oauth ∧ !signedIn then some .needsSignIn
  else none

def failureStatus : Failure → McpServerStatus
  | .needsSignIn => .needsSignIn
  | .error message => .error message

def status (fields : McpServerFields) (signedIn : Bool) (failure : Option Failure) : McpServerStatus :=
  (configurationBlock fields signedIn).getD ((failure.map failureStatus).getD .ready)

/-! ## A server (`server.ts`, `servers.ts`, `connections.ts`) -/

inductive Act
  | write (w : Write)
  /-- `disconnect`: it forgets the failure. -/
  | disconnect
  /-- A test's connection, whose failure is recorded, or which is aborted. -/
  | attempt
  /-- `McpStore.delete`: the keys are read, then each is deleted, then the row; browsers are told of a removal. -/
  | delete (tells : Bool)
  | deleteRow (tells : Bool)
  /-- `publish` of the server read again. -/
  | publish
  /-- `failure` of a request, which tells `changed`. -/
  | fail (failure : Failure)
  deriving DecidableEq

inductive Phase
  /-- An update, for `secretKinds`. -/
  | reading (update : McpServerUpdate) (before fields : McpServerFields)
  | checking (update : McpServerUpdate) (before fields : McpServerFields) (hasHeaderValue : Bool)
  /-- Whether it has changed what is shown of the server. -/
  | acting (todo : List Act) (touched : Bool)
  deriving DecidableEq

structure Call where
  /-- A creation, which a secret's failure undoes. -/
  creates : Bool
  phase : Phase
  deriving DecidableEq

inductive Sending
  | reading
  | sent
  | lost
  deriving DecidableEq

/-- A `publish`, with what it has read. -/
structure Publication where
  row : McpServerRow
  kinds : Option (Bool × Bool)
  signedIn : Option Bool
  sending : Sending
  deriving DecidableEq

structure Server where
  created : Bool
  row : Option McpServerRow
  secrets : McpSecretKind → Option JsString
  failure : Option Failure
  calls : List Call
  publications : List Publication
  listed : Option McpServerView
  sent : List (Option McpServerView)

def Server.init : Server :=
  { created := false, row := none, secrets := fun _ => none, failure := none, calls := [], publications := []
    listed := none, sent := [] }

inductive Event
  | create (input : McpServerUpdate) (taken : Bool) (now : Nat)
  | update (update : McpServerUpdate)
  | remove
  | signOut
  /-- The exchange succeeded: the client it used, if not a configured one, and the tokens. -/
  | finishSignIn (client : Option JsString) (tokens : JsString)
  | test
  /-- The tokens are refreshed, or refused: at the background's check, or for a request. -/
  | refreshed (tokens : JsString)
  | signedOut (all : Bool)
  | unauthorized (all : Bool)
  | fail (failure : Failure)
  | connected
  /-- A call's next act; another server may have the name. -/
  | act (i : Nat) (taken : Bool) (now : Nat)
  | fails (i : Nat)
  | readKinds (p : Nat)
  | readTokens (p : Nat)
  | send (p : Nat)
  | lose (p : Nat)

section

-- what `mcpSignedIn` makes of stored tokens; an access token's expiry, which is not told, is left out
variable (usable : JsString → Bool)

def view (id : ServerId) (row : McpServerRow) (kinds : Bool × Bool) (signedIn : Bool) (failure : Option Failure) :
    McpServerView :=
  { id, row, hasHeaderValue := kinds.1, hasClientSecret := kinds.2, signedIn
    status := status row.fields signedIn failure }

def Server.kinds (s : Server) : Bool × Bool := ((s.secrets .headerValue).isSome, (s.secrets .clientSecret).isSome)

def Server.mcpSignedIn (s : Server) : Bool := (s.secrets .tokens).any usable

def Server.view (id : ServerId) (s : Server) : Option McpServerView :=
  s.row.map fun row =>
    McpServersStore.view id row s.kinds (row.fields.authKind = .oauth && s.mcpSignedIn usable) s.failure

/-- What a publication sends, once it has read what it needs. -/
def Publication.view (id : ServerId) (p : Publication) (failure : Option Failure) : Option McpServerView :=
  if p.row.fields.authKind = .oauth then
    p.kinds.bind fun kinds => p.signedIn.map fun signedIn => McpServersStore.view id p.row kinds signedIn failure
  else p.kinds.map fun kinds => McpServersStore.view id p.row kinds false failure

def Server.setCall (s : Server) (i : Nat) (c : Call) : Server := { s with calls := s.calls.set i c }

def Server.addCall (s : Server) (c : Call) : Server := { s with calls := s.calls ++ [c] }

def Server.call (s : Server) (todo : List Act) : Server :=
  if s.row.isSome then s.addCall ⟨false, .acting todo false⟩ else s

def Server.setPublication (s : Server) (i : Nat) (p : Publication) : Server :=
  { s with publications := s.publications.set i p }

def Server.publish (s : Server) : Server :=
  match s.row with
  | some row => { s with publications := s.publications ++ [⟨row, none, none, .reading⟩] }
  | none => s

def Server.write (s : Server) : Write → Server
  | .set kind value => { s with secrets := Function.update s.secrets kind value }
  | .endSignIn => s

def endSignIn : List Act :=
  [.write .endSignIn, .write (.set .codeVerifier none), .write (.set .signInClientInformation none)]

/-- Whether an update closes the connection. -/
def changed (update : McpServerUpdate) (before fields : McpServerFields) : Bool :=
  reauthorize before fields || fields.transport ≠ before.transport || fields.enabled ≠ before.enabled ||
    fields.headerName ≠ before.headerName || update.headerValue.isSome || update.oauthClientSecret.isSome ||
    fields.oauthScope ≠ before.oauthScope

def updateActs (update : McpServerUpdate) (before fields : McpServerFields) : List Act :=
  (updateWrites update before fields).map .write ++ (if changed update before fields then [.disconnect] else []) ++
    [.publish]

def signOutActs : List Act := .write (.set .tokens none) :: endSignIn ++ [.disconnect, .publish]

/-- The connection is tested in the background as it is published. -/
def finishSignInActs (client : Option JsString) (tokens : JsString) : List Act :=
  (client.map fun c => .write (.set .clientInformation (some c))).toList ++
    .write (.set .tokens (some tokens)) :: endSignIn ++ [.disconnect, .disconnect, .publish]

/-- `invalidateCredentials` of a refresh. -/
def signedOutActs (all : Bool) : List Act :=
  (if all then [.write (.set .clientInformation none)] else []) ++ [.write (.set .tokens none)]

variable (protocol : JsString → Option JsString) (id : ServerId)

/-- The row's insertion, and what is left. -/
def Server.create (s : Server) (input : McpServerUpdate) (taken : Bool) (now : Nat) : Server :=
  match validMcpServerFields protocol (createFields input) with
  | .error _ => s
  | .ok fields =>
    if s.created ∨ taken ∨ fields.authKind = .header ∧ McpServerUpdate.value input.headerValue = none then s
    else
      { s.addCall ⟨true, .acting ((createWrites input fields).map .write ++ [.publish]) true⟩ with
        created := true, row := some ⟨fields, now, now⟩ }

def Server.update (s : Server) (update : McpServerUpdate) : Server :=
  match s.row with
  | none => s
  | some row =>
    match validMcpServerFields protocol (update.merge row.fields) with
    | .error _ => s
    | .ok fields => s.addCall ⟨false, .reading update row.fields fields⟩

def Server.differs (s s' : Server) : Bool := s'.view usable id ≠ s.view usable id

/-- An act that may change what is shown is done. -/
def Server.alter (s s' : Server) (i : Nat) (c : Call) (todo : List Act) (touched : Bool) : Server :=
  s'.setCall i { c with phase := .acting todo (touched || s.differs usable id s') }

def Server.writeRow (s : Server) (i : Nat) (c : Call) (update : McpServerUpdate) (before fields : McpServerFields)
    (hasHeaderValue taken : Bool) (now : Nat) : Server :=
  if (McpEdits.Edit.mk false update before fields .reading false).refused hasHeaderValue ∨ taken ∧ s.row.isSome then
    s.setCall i { c with phase := .acting [] false }
  else
    s.alter usable id { s with row := s.row.map fun row => { row with fields, updatedAt := now } } i c
      (updateActs update before fields) false

def Server.perform (s : Server) (i : Nat) (c : Call) (a : Act) (todo : List Act) (touched : Bool) : Server :=
  match a with
  | .write w => s.alter usable id (s.write w) i c todo touched
  | .disconnect => s.alter usable id { s with failure := none } i c todo touched
  | .attempt => s.setCall i { c with phase := .acting todo touched }
  | .delete tells =>
    s.setCall i
      { c with
        phase := .acting ((allKinds.filter fun k => (s.secrets k).isSome).map (fun k => .write (.set k none)) ++
            .deleteRow tells :: todo) touched }
  | .deleteRow tells =>
    { s with row := none, sent := if tells then s.sent ++ [none] else s.sent }.setCall i
      { c with phase := .acting todo touched }
  | .publish => s.publish.setCall i { c with phase := .acting todo touched }
  | .fail failure => { s with failure := some failure }.publish.setCall i { c with phase := .acting todo touched }

def Server.act (s : Server) (i : Nat) (taken : Bool) (now : Nat) (c : Call) : Server :=
  match c.phase with
  | .reading update before fields => s.setCall i { c with phase := .checking update before fields s.kinds.1 }
  | .checking update before fields hasHeaderValue =>
    s.writeRow usable id i c update before fields hasHeaderValue taken now
  | .acting (a :: todo) touched => s.perform usable id i c a todo touched
  | .acting [] _ => s

def Server.fails (s : Server) (i : Nat) (c : Call) : Server :=
  match c.phase with
  | .reading _ _ _ => s.setCall i { c with phase := .acting [] false }
  | .acting (.write (.set _ _) :: _) touched =>
    s.setCall i ⟨false, .acting (if c.creates then [.delete false] else []) touched⟩
  | .acting (.delete _ :: _) touched => s.setCall i { c with phase := .acting [] touched }
  | .acting (.attempt :: _) touched => s.setCall i { c with phase := .acting [] touched }
  | _ => s

def Server.readKinds (s : Server) (i : Nat) (p : Publication) : Server :=
  if p.kinds = none then s.setPublication i { p with kinds := some s.kinds } else s

def Server.readTokens (s : Server) (i : Nat) (p : Publication) : Server :=
  if p.kinds.isSome ∧ p.signedIn = none then s.setPublication i { p with signedIn := some (s.mcpSignedIn usable) }
  else s

def Server.send (s : Server) (i : Nat) (p : Publication) : Server :=
  match p.view id s.failure with
  | some v => { s.setPublication i { p with sending := .sent } with sent := s.sent ++ [some v] }
  | none => s

def Server.onCall (s : Server) (i : Nat) (f : Call → Server) : Server := (s.calls[i]?).elim s f

/-- A publication that is still under way. -/
def Server.onPublication (s : Server) (i : Nat) (f : Publication → Server) : Server :=
  match s.publications[i]? with
  | some p => if p.sending = .reading then f p else s
  | none => s

def Server.step (s : Server) : Event → Server
  | .create input taken now => s.create protocol input taken now
  | .update update => s.update protocol update
  | .remove => s.call [.disconnect, .delete true]
  | .signOut => if s.row.any (·.fields.authKind = .oauth) then s.call signOutActs else s
  | .finishSignIn client tokens => s.call (finishSignInActs client tokens)
  | .test => s.call [.disconnect, .attempt, .publish]
  | .refreshed tokens => s.write (.set .tokens (some tokens))
  | .signedOut all => s.addCall ⟨false, .acting (signedOutActs all ++ [.publish]) false⟩
  | .unauthorized all => s.addCall ⟨false, .acting (signedOutActs all ++ [.fail .needsSignIn]) false⟩
  | .fail failure => { s with failure := some failure }.publish
  | .connected => if s.failure.isSome then { s with failure := none }.publish else s
  | .act i taken now => s.onCall i fun c => s.act usable id i taken now c
  | .fails i => s.onCall i fun c => s.fails i c
  | .readKinds p => s.onPublication p fun x => s.readKinds p x
  | .readTokens p => s.onPublication p fun x => s.readTokens usable p x
  | .send p => s.onPublication p fun x => s.send id p x
  | .lose p => s.onPublication p fun x => s.setPublication p { x with sending := .lost }

end

/-! ## All servers, and the browser (`mcp-servers-store.ts`) -/

structure State where
  servers : ServerId → Server
  /-- Every message: the view of `mcp_server_updated`, none of `mcp_server_removed`. -/
  messages : List (ServerId × Option McpServerView)

def step (usable : JsString → Bool) (protocol : JsString → Option JsString) (s : State) (e : ServerId × Event) :
    State :=
  let server := (s.servers e.1).step usable protocol e.1 e.2
  { servers := Function.update s.servers e.1 server
    messages := s.messages ++ (server.sent.drop (s.servers e.1).sent.length).map (e.1, ·) }

def byName (a b : McpServerView) : Bool := a.row.fields.name ≤ b.row.fields.name

def upsert (servers : List McpServerView) (server : McpServerView) : List McpServerView :=
  (servers.filter (·.id ≠ server.id) ++ [server]).insertionSort fun a b => byName a b

def drop (servers : List McpServerView) (serverId : ServerId) : List McpServerView := servers.filter (·.id ≠ serverId)

def received (servers : List McpServerView) : ServerId × Option McpServerView → List McpServerView
  | (_, some server) => upsert servers server
  | (serverId, none) => drop servers serverId

def State.shown (s : State) (listed : List McpServerView) : List McpServerView := s.messages.foldl received listed

/-! ## What holds of a server -/

/-- It has changed what is shown, and is to tell of it. -/
def Call.due (c : Call) : Bool :=
  match c.phase with
  | .acting (_ :: _) true => true
  | _ => false

def Call.done (c : Call) : Bool :=
  match c.phase with
  | .acting [] _ => true
  | _ => false

def Call.undone (c : Call) : Bool :=
  match c.phase with
  | .acting (.write (.set _ _) :: _) _ => c.creates
  | _ => false

def Call.undoes (c : Call) : Bool :=
  match c.phase with
  | .acting (.deleteRow false :: _) _ => true
  | _ => false

def Server.due (s : Server) : Bool := s.calls.any (·.due)

def Server.told (s : Server) : Option McpServerView := s.sent.getLast?.getD s.listed

/-- A view is sent while its server is there, and before any publication of it that began later. A
publication fails only where a later one is to come, and a call only before it has changed what is shown, or
to undo a creation that was not shown; and refreshed tokens change nothing that is shown. -/
def Server.Ok (usable : JsString → Bool) (id : ServerId) (s : Server) : Event → Prop
  | .send p => s.row.isSome ∧ ∀ q ∈ s.publications.drop (p + 1), q.sending ≠ .sent
  | .lose p => s.row = none ∨ s.due ∨ p + 1 < s.publications.length
  | .fails i => ∀ c ∈ s.calls[i]?, c.due → c.undone
  | .act i _ _ => ∀ c ∈ s.calls[i]?, c.undoes → s.told = none
  | .refreshed tokens => s.differs usable id (s.write (.set .tokens (some tokens))) = false
  | _ => True

instance (usable : JsString → Bool) (id : ServerId) (s : Server) (e : Event) : Decidable (s.Ok usable id e) := by
  cases e <;> unfold Server.Ok <;> infer_instance

/-- What comes last tells, or deletes. -/
def Act.ends : Act → Bool
  | .write _ | .disconnect | .attempt => false
  | .delete _ | .deleteRow _ | .publish | .fail _ => true

def Ends (todo : List Act) : Prop := ∀ a, todo.getLast? = some a → a.ends

def Call.Ends (c : Call) : Prop := ∀ todo touched, c.phase = .acting todo touched → McpServersStore.Ends todo

structure Publication.Fits (p : Publication) (v : McpServerView) : Prop where
  row : p.row = v.row
  kinds : ∀ kinds, p.kinds = some kinds → kinds = (v.hasHeaderValue, v.hasClientSecret)
  signedIn : ∀ signedIn, p.signedIn = some signedIn → p.row.fields.authKind = .oauth → signedIn = v.signedIn

def Server.Current (usable : JsString → Bool) (id : ServerId) (s : Server) : Prop :=
  match s.publications.getLast? with
  | none => s.told = s.view usable id
  | some p =>
    match p.sending with
    | .reading => ∀ v, s.view usable id = some v → p.Fits v
    | .sent => s.told = s.view usable id
    | .lost => False

structure Server.Inv (usable : JsString → Bool) (id : ServerId) (s : Server) : Prop where
  created : s.created = false → s.row = none
  gone : s.row = none → s.told = none
  ends : ∀ c ∈ s.calls, c.Ends
  shown : s.row.isSome → s.due ∨ s.Current usable id

section

variable {usable : JsString → Bool} {protocol : JsString → Option JsString} {id : ServerId} {s s' : Server}
  {c c' : Call} {i : Nat} {todo : List Act} {touched : Bool}

theorem view_eq_none : s.view usable id = none ↔ s.row = none := map_eq_none_iff

theorem view_of_row {row : McpServerRow} (h : s.row = some row) : s.view usable id =
      some (view id row s.kinds (row.fields.authKind = .oauth && s.mcpSignedIn usable) s.failure) := by
  rw [Server.view, h]
  rfl

theorem told_concat (m : Option McpServerView) (h : s'.sent = s.sent ++ [m]) : s'.told = m := by
  simp [Server.told, h]

theorem due_of_getElem? (hc : s.calls[i]? = some c) : s.due = (c.due || (s.calls.eraseIdx i).any (·.due)) :=
  any_of_getElem? _ hc

theorem due_set (hc : s.calls[i]? = some c) (hcalls : s'.calls = s.calls.set i c') (h : c.due → c'.due) :
    s.due → s'.due := by
  intro hdue
  rw [Server.due, hcalls, any_set _ hc, Bool.or_eq_true]
  rw [due_of_getElem? hc, Bool.or_eq_true] at hdue
  exact hdue.imp h id

theorem due_concat (hcalls : s'.calls = s.calls ++ [c]) (h : s.due) : s'.due := by
  rw [Server.due, hcalls, any_append, Bool.or_eq_true]
  exact .inl h

theorem ends_set (h : ∀ c ∈ s.calls, c.Ends) (hc : c'.Ends) : ∀ c ∈ s.calls.set i c', c.Ends := by
  intro d hd
  rcases mem_or_eq_of_mem_set hd with hd | rfl
  · exact h d hd
  · exact hc

theorem ends_concat (h : ∀ c ∈ s.calls, c.Ends) (hc : c'.Ends) : ∀ c ∈ s.calls ++ [c'], c.Ends := by
  intro d hd
  rcases mem_append.mp hd with hd | hd
  · exact h d hd
  · rw [mem_singleton.mp hd]
    exact hc

theorem ends_acting (h : Ends todo) {creates touched : Bool} : (Call.mk creates (.acting todo touched)).Ends := by
  intro todo' touched' heq
  cases heq
  exact h

theorem ends_nil : Ends [] := nofun

theorem ends_last {a : Act} (hlast : todo.getLast? = some a) (h : a.ends) : Ends todo := by
  intro b hb
  rw [hlast] at hb
  rw [← some_inj.mp hb]
  exact h

theorem ends_append {a : Act} (h : a.ends) : Ends (todo ++ [a]) := ends_last getLast?_concat h

theorem Ends.tail {a : Act} (h : Ends (a :: todo)) : Ends todo := by
  intro b hb
  apply h
  rw [getLast?_cons, hb]
  rfl

theorem Ends.more {a : Act} (h : Ends (a :: todo)) (ha : a.ends = false) : todo ≠ [] := by
  rintro rfl
  rw [h a rfl] at ha
  cases ha

theorem Server.Current.same (h : s.Current usable id) (hview : s'.view usable id = s.view usable id)
    (htold : s'.told = s.told) (hpubs : s'.publications = s.publications) : s'.Current usable id := by
  unfold Server.Current at h ⊢
  rw [hpubs, hview, htold]
  exact h

structure Same (usable : JsString → Bool) (id : ServerId) (s s' : Server) : Prop where
  created : s'.created = s.created
  view : s'.view usable id = s.view usable id
  told : s'.told = s.told
  publications : s'.publications = s.publications

theorem Server.Inv.same (h : s.Inv usable id) (hs : Same usable id s s') (hends : ∀ c ∈ s'.calls, c.Ends)
    (hdue : s.due → s'.due) : s'.Inv usable id := by
  have hrow : s'.row = none ↔ s.row = none := by
    have hview : s'.view usable id = none ↔ s.view usable id = none := by rw [hs.view]
    rwa [view_eq_none, view_eq_none] at hview
  refine ⟨fun hn => ?_, fun hn => ?_, hends, fun hsome => ?_⟩
  · rw [hs.created] at hn
    exact hrow.mpr (h.created hn)
  · rw [hs.told]
    exact h.gone (hrow.mp hn)
  · have hsome' : s.row.isSome := by
      rw [isSome_iff_ne_none] at hsome ⊢
      exact fun hn => hsome (hrow.mpr hn)
    exact (h.shown hsome').imp hdue fun hcur => hcur.same hs.view hs.told hs.publications

theorem Server.Inv.setCall (h : s.Inv usable id) (hc : s.calls[i]? = some c) (hends : c'.Ends)
    (hdue : c.due → c'.due) : (s.setCall i c').Inv usable id :=
  h.same ⟨rfl, rfl, rfl, rfl⟩ (ends_set h.ends hends) (due_set hc rfl hdue)

theorem Server.Inv.addCall (h : s.Inv usable id) (hends : c.Ends) : (s.addCall c).Inv usable id :=
  h.same ⟨rfl, rfl, rfl, rfl⟩ (ends_concat h.ends hends) (due_concat rfl)

/-! ### Publications -/

theorem getLast?_set {α : Type} {xs : List α} {i : Nat} {x : α} (h : xs[i]? = some x) (y : α) :
    (xs.set i y).getLast? = if i + 1 = xs.length then some y else xs.getLast? := by
  have hlt := lt_of_getElem? h
  rw [getLast?_eq_getElem?, getLast?_eq_getElem?, length_set, getElem?_set]
  by_cases hlast : i + 1 = xs.length
  · rw [if_pos (show i = xs.length - 1 by omega), if_pos hlt, if_pos hlast]
  · rw [if_neg (show i ≠ xs.length - 1 by omega), if_neg hlast]

theorem last_of_getElem? {α : Type} {xs : List α} {i : Nat} {x : α} (h : xs[i]? = some x)
    (hlast : i + 1 = xs.length) : xs.getLast? = some x := by
  rw [getLast?_eq_getElem?, ← hlast]
  exact h

theorem publish_setCall (s : Server) (i : Nat) (c : Call) : s.publish.setCall i c = (s.setCall i c).publish := by
  cases hrow : s.row <;> simp [Server.publish, Server.setCall, hrow]

theorem inv_publish (hcreated : s.created = false → s.row = none) (hgone : s.row = none → s.told = none)
    (hends : ∀ c ∈ s.calls, c.Ends) : s.publish.Inv usable id := by
  unfold Server.publish
  split
  · next row hrow =>
    refine ⟨hcreated, hgone, hends, fun _ => .inr ?_⟩
    unfold Server.Current
    rw [getLast?_concat]
    intro v hv
    have heq : s.view usable id = some v := hv
    rw [view_of_row hrow] at heq
    refine ⟨?_, nofun, nofun⟩
    rw [← some_inj.mp heq]
    rfl
  · next hrow =>
    refine ⟨hcreated, hgone, hends, fun hsome => ?_⟩
    rw [hrow] at hsome
    cases hsome

variable {p p' : Publication}

theorem Server.Inv.setPublication (h : s.Inv usable id) (hp : s.publications[i]? = some p)
    (hreading : p.sending = .reading) (hreading' : p'.sending = .reading)
    (hfits : ∀ v, s.view usable id = some v → p.Fits v → p'.Fits v) : (s.setPublication i p').Inv usable id := by
  refine { h with shown := fun hsome => (h.shown hsome).imp (fun hdue => hdue) fun hcur => ?_ }
  unfold Server.Current at hcur ⊢
  rw [Server.setPublication, getLast?_set hp]
  by_cases hlast : i + 1 = s.publications.length
  · rw [if_pos hlast]
    rw [last_of_getElem? hp hlast] at hcur
    simp only [hreading] at hcur
    simp only [hreading']
    intro v hv
    exact hfits v hv (hcur v hv)
  · rw [if_neg hlast]
    exact hcur

theorem view_of_fits {v w : McpServerView} (hview : s.view usable id = some v) (hfits : p.Fits v)
    (hp : p.view id s.failure = some w) : w = v := by
  obtain ⟨row, hrow, rfl⟩ := map_eq_some_iff.mp hview
  have hprow : p.row = row := hfits.row
  unfold Publication.view at hp
  split at hp
  · next hoauth =>
    obtain ⟨kinds, hkinds, hp⟩ := bind_eq_some_iff.mp hp
    obtain ⟨signedIn, hsigned, rfl⟩ := map_eq_some_iff.mp hp
    rw [hfits.kinds kinds hkinds, hfits.signedIn signedIn hsigned hoauth, hprow]
    rfl
  · next hoauth =>
    obtain ⟨kinds, hkinds, rfl⟩ := map_eq_some_iff.mp hp
    rw [hprow] at hoauth
    rw [hfits.kinds kinds hkinds, hprow]
    simp [view, hoauth]

theorem Server.Inv.send (h : s.Inv usable id) (hp : s.publications[i]? = some p) (hreading : p.sending = .reading)
    (hok : s.Ok usable id (.send i)) : (s.send id i p).Inv usable id := by
  obtain ⟨hrow, hlater⟩ := hok
  unfold Server.send
  split
  · next w hw =>
    have hne : s.row ≠ none := isSome_iff_ne_none.mp hrow
    refine ⟨h.created, fun hn => absurd hn hne, h.ends, fun _ => (h.shown hrow).imp (fun hdue => hdue) fun hcur => ?_⟩
    unfold Server.Current at hcur ⊢
    rw [Server.setPublication, getLast?_set hp]
    by_cases hlast : i + 1 = s.publications.length
    · -- it is the last, and what it has read is as it is
      rw [if_pos hlast]
      rw [last_of_getElem? hp hlast] at hcur
      simp only [hreading] at hcur
      obtain ⟨row, hrow'⟩ := isSome_iff_exists.mp hrow
      have hview : s.view usable id = some _ := view_of_row hrow'
      rw [told_concat (some w) rfl, view_of_fits hview (hcur _ hview) hw]
      exact hview.symm
    · -- the last is not sent yet, and still fits
      rw [if_neg hlast]
      cases hq : s.publications.getLast? with
      | none =>
        rw [getLast?_eq_none_iff.mp hq] at hp
        cases hp
      | some q =>
        rw [hq] at hcur
        have hmem : q ∈ s.publications.drop (i + 1) := by
          have hlt := lt_of_getElem? hp
          apply mem_of_getLast?
          rw [getLast?_drop, if_neg (by omega)]
          exact hq
        have hunsent := hlater q hmem
        cases hsending : q.sending with
        | reading =>
          simp only [hsending] at hcur
          simp only [hsending]
          exact hcur
        | sent => exact absurd hsending hunsent
        | lost => simp only [hsending] at hcur
  · exact h

theorem Server.Inv.lose (h : s.Inv usable id) (hp : s.publications[i]? = some p)
    (hok : s.Ok usable id (.lose i)) : (s.setPublication i { p with sending := .lost }).Inv usable id := by
  refine { h with shown := fun hsome => ?_ }
  rcases hok with hnone | hdue | hlt
  · have hsome' : s.row.isSome := hsome
    rw [hnone] at hsome'
    cases hsome'
  · exact .inl hdue
  · refine (h.shown hsome).imp (fun hdue => hdue) fun hcur => ?_
    unfold Server.Current at hcur ⊢
    rw [Server.setPublication, getLast?_set hp, if_neg (by omega)]
    exact hcur

/-! ### Calls -/

structure Writes (s s' : Server) : Prop where
  created : s'.created = s.created
  row : s'.row.isSome = s.row.isSome
  calls : s'.calls = s.calls
  publications : s'.publications = s.publications
  told : s'.told = s.told

theorem Server.Inv.alter (h : s.Inv usable id) (hc : s.calls[i]? = some c) (hw : Writes s s')
    (hdue : c.due → touched = true) (hne : todo ≠ []) (hends : Ends todo) :
    (s.alter usable id s' i c todo touched).Inv usable id := by
  obtain ⟨a, todo, rfl⟩ := exists_cons_of_ne_nil hne
  have hset : (s.alter usable id s' i c (a :: todo) touched).calls =
      s.calls.set i { c with phase := .acting (a :: todo) (touched || s.differs usable id s') } := by
    rw [← hw.calls]
    rfl
  have hcalls : ∀ d ∈ (s.alter usable id s' i c (a :: todo) touched).calls, d.Ends := by
    rw [hset]
    exact ends_set h.ends (ends_acting hends)
  cases hdiffers : s.differs usable id s' with
  | false =>
    refine h.same { hw with view := of_decide_eq_false hdiffers |> not_not.mp } hcalls ?_
    refine due_set hc hset fun hd => ?_
    rw [hdue hd]
    rfl
  | true =>
    have hnone (hn : s'.row = none) : s.row = none := by
      rw [← isNone_iff_eq_none, ← not_isSome, ← hw.row, hn]
      rfl
    refine ⟨fun hn => ?_, fun hn => ?_, hcalls, fun _ => .inl ?_⟩
    · have hrow := h.created (hw.created ▸ hn)
      rw [← isNone_iff_eq_none, ← not_isSome]
      show (!s'.row.isSome) = true
      rw [hw.row, hrow]
      rfl
    · exact hw.told.trans (h.gone (hnone hn))
    · rw [Server.due, hset, any_set _ hc, hdiffers, Bool.or_true]
      rfl

theorem writes_write (s : Server) (w : Write) : Writes s (s.write w) := by
  cases w <;> exact ⟨rfl, rfl, rfl, rfl, rfl⟩

theorem ends_updateActs (update : McpServerUpdate) (before fields : McpServerFields) :
    Ends (updateActs update before fields) := ends_append rfl

theorem updateActs_ne_nil (update : McpServerUpdate) (before fields : McpServerFields) :
    updateActs update before fields ≠ [] := by
  unfold updateActs
  exact append_ne_nil_of_right_ne_nil _ (cons_ne_nil _ _)

theorem Server.Inv.writeRow (h : s.Inv usable id) (hc : s.calls[i]? = some c) (hdue : c.due = false)
    (update : McpServerUpdate) (before fields : McpServerFields) (hasHeaderValue taken : Bool) (now : Nat) :
    (s.writeRow usable id i c update before fields hasHeaderValue taken now).Inv usable id := by
  unfold Server.writeRow
  split
  · exact h.setCall hc (ends_acting ends_nil) fun hd => absurd hd (by simp [hdue])
  refine h.alter hc ⟨rfl, ?_, rfl, rfl, rfl⟩ (fun hd => absurd hd (by simp [hdue])) (updateActs_ne_nil _ _ _)
    (ends_updateActs _ _ _)
  exact isSome_map

theorem Server.Inv.deleteRow (h : s.Inv usable id) {tells : Bool} (hok : tells = false → s.told = none)
    (hends : c'.Ends) :
    ({ s with row := none, sent := if tells then s.sent ++ [none] else s.sent }.setCall i c').Inv usable id := by
  refine ⟨fun _ => rfl, fun _ => ?_, ends_set h.ends hends, nofun⟩
  cases htells : tells with
  | true => exact told_concat none rfl
  | false => exact hok htells

theorem Server.Inv.perform (h : s.Inv usable id) (hc : s.calls[i]? = some c) {a : Act}
    (hphase : c.phase = .acting (a :: todo) touched) {taken : Bool} {now : Nat}
    (hok : s.Ok usable id (.act i taken now)) : (s.perform usable id i c a todo touched).Inv usable id := by
  have hends : Ends (a :: todo) := h.ends c (mem_of_getElem? hc) _ _ hphase
  have hdue (hd : c.due) : touched = true := by
    unfold Call.due at hd
    rw [hphase] at hd
    cases touched with
    | true => rfl
    | false => cases hd
  have htail : (Call.mk c.creates (.acting todo touched)).Ends := ends_acting hends.tail
  cases a with
  | write w => exact h.alter hc (writes_write s w) hdue (hends.more rfl) hends.tail
  | disconnect => exact h.alter hc ⟨rfl, rfl, rfl, rfl, rfl⟩ hdue (hends.more rfl) hends.tail
  | attempt =>
    refine h.setCall hc htail fun hd => ?_
    obtain ⟨b, rest, hrest⟩ := exists_cons_of_ne_nil (hends.more rfl)
    rw [hdue hd, hrest]
    rfl
  | delete tells =>
    refine h.setCall hc (ends_acting ?_) fun hd => ?_
    · intro b hb
      rw [getLast?_append, getLast?_cons] at hb
      cases hlast : todo.getLast? with
      | none =>
        rw [hlast] at hb
        cases hb
        rfl
      | some b' =>
        rw [hlast] at hb
        cases hb
        exact hends.tail _ hlast
    · rw [hdue hd]
      unfold Call.due
      cases (allKinds.filter fun k => (s.secrets k).isSome) <;> rfl
  | deleteRow tells =>
    refine h.deleteRow (fun htells => ?_) htail
    rw [htells] at hphase
    exact hok c hc (by rw [Call.undoes, hphase])
  | publish =>
    rw [Server.perform, publish_setCall]
    exact inv_publish h.created h.gone (ends_set h.ends htail)
  | fail failure =>
    rw [Server.perform, publish_setCall]
    exact inv_publish h.created h.gone (ends_set h.ends htail)

theorem Server.Inv.act (h : s.Inv usable id) (hc : s.calls[i]? = some c) {taken : Bool} {now : Nat}
    (hok : s.Ok usable id (.act i taken now)) : (s.act usable id i taken now c).Inv usable id := by
  unfold Server.act
  split
  · next hphase =>
    refine h.setCall hc nofun fun hd => ?_
    rw [Call.due, hphase] at hd
    cases hd
  · next hphase => exact h.writeRow hc (by rw [Call.due, hphase]) ..
  · next hphase => exact h.perform hc hphase hok
  · exact h

theorem Server.Inv.fails (h : s.Inv usable id) (hc : s.calls[i]? = some c)
    (hok : s.Ok usable id (.fails i)) : (s.fails i c).Inv usable id := by
  have hundone : c.due → c.undone := hok c hc
  unfold Server.fails
  split
  · next hphase =>
    refine h.setCall hc (ends_acting ends_nil) fun hd => ?_
    rw [Call.due, hphase] at hd
    cases hd
  · next touched hphase =>
    by_cases hcreates : c.creates = true
    · rw [if_pos hcreates]
      refine h.setCall hc (ends_acting fun b hb => ?_) fun hd => ?_
      · cases hb
        rfl
      rw [Call.due, hphase] at hd
      cases touched with
      | true => rfl
      | false => cases hd
    · rw [if_neg hcreates]
      refine h.setCall hc (ends_acting ends_nil) fun hd => ?_
      have := hundone hd
      rw [Call.undone, hphase] at this
      exact absurd this hcreates
  · next hphase =>
    refine h.setCall hc (ends_acting ends_nil) fun hd => ?_
    have := hundone hd
    rw [Call.undone, hphase] at this
    cases this
  · next hphase =>
    refine h.setCall hc (ends_acting ends_nil) fun hd => ?_
    have := hundone hd
    rw [Call.undone, hphase] at this
    cases this
  · exact h

theorem Server.Inv.call (h : s.Inv usable id) (hends : Ends todo) : (s.call todo).Inv usable id := by
  unfold Server.call
  split
  · exact h.addCall (ends_acting hends)
  · exact h

theorem Server.Inv.onPublication (h : s.Inv usable id) {f : Publication → Server}
    (hf : ∀ p, s.publications[i]? = some p → p.sending = .reading → (f p).Inv usable id) :
    (s.onPublication i f).Inv usable id := by
  unfold Server.onPublication
  split
  · next p hp =>
    split
    · next hreading => exact hf p hp hreading
    · exact h
  · exact h

theorem Server.Inv.onCall (h : s.Inv usable id) {f : Call → Server}
    (hf : ∀ c, s.calls[i]? = some c → (f c).Inv usable id) : (s.onCall i f).Inv usable id := by
  unfold Server.onCall
  cases hc : s.calls[i]? with
  | none => exact h
  | some c => exact hf c hc

theorem Server.Inv.create (h : s.Inv usable id) (input : McpServerUpdate) (taken : Bool) (now : Nat) :
    (s.create protocol input taken now).Inv usable id := by
  unfold Server.create
  split
  · exact h
  next fields _ =>
  split
  · exact h
  refine ⟨nofun, nofun, ends_concat h.ends (ends_acting ?_), fun _ => .inl ?_⟩
  · exact ends_append rfl
  rw [Server.due]
  show (s.calls ++ [_]).any Call.due = true
  rw [any_append, Bool.or_eq_true]
  right
  unfold Call.due
  cases createWrites input fields <;> rfl

theorem Server.Inv.update (h : s.Inv usable id) (update : McpServerUpdate) :
    (s.update protocol update).Inv usable id := by
  unfold Server.update
  split
  · exact h
  split
  · exact h
  · exact h.addCall nofun

theorem Server.Inv.step (h : s.Inv usable id) {e : Event} (hok : s.Ok usable id e) :
    (s.step usable protocol id e).Inv usable id := by
  cases e with
  | create input taken now => exact h.create input taken now
  | update update => exact h.update update
  | remove => exact h.call (ends_last (a := .delete true) rfl rfl)
  | signOut =>
    simp only [Server.step]
    split
    · exact h.call (ends_last (a := .publish) rfl rfl)
    · exact h
  | finishSignIn client tokens =>
    refine h.call (ends_last (a := .publish) ?_ rfl)
    cases client <;> rfl
  | test => exact h.call (ends_last (a := .publish) rfl rfl)
  | refreshed tokens => exact h.same ⟨rfl, of_decide_eq_false hok |> not_not.mp, rfl, rfl⟩ h.ends fun hd => hd
  | signedOut all => exact h.addCall (ends_acting (ends_append rfl))
  | unauthorized all => exact h.addCall (ends_acting (ends_append rfl))
  | fail failure => exact inv_publish h.created h.gone h.ends
  | connected =>
    simp only [Server.step]
    split
    · exact inv_publish h.created h.gone h.ends
    · exact h
  | act i taken now => exact h.onCall fun c hc => h.act hc hok
  | fails i => exact h.onCall fun c hc => h.fails hc hok
  | readKinds p =>
    refine h.onPublication fun x hx hreading => ?_
    unfold Server.readKinds
    split
    · refine h.setPublication hx hreading hreading fun v hv hfits => ⟨hfits.row, fun kinds hk => ?_, hfits.signedIn⟩
      obtain ⟨row, -, rfl⟩ := map_eq_some_iff.mp hv
      exact (some_inj.mp hk).symm
    · exact h
  | readTokens p =>
    refine h.onPublication fun x hx hreading => ?_
    unfold Server.readTokens
    split
    · refine h.setPublication hx hreading hreading fun v hv hfits =>
        ⟨hfits.row, hfits.kinds, fun signedIn hs hoauth => ?_⟩
      obtain ⟨row, -, rfl⟩ := map_eq_some_iff.mp hv
      have hrow : x.row = row := hfits.row
      have hoauth' : row.fields.authKind = .oauth := hrow ▸ hoauth
      rw [← some_inj.mp hs]
      show s.mcpSignedIn usable = (decide (row.fields.authKind = .oauth) && s.mcpSignedIn usable)
      rw [decide_eq_true hoauth', Bool.true_and]
    · exact h
  | send p => exact h.onPublication fun x hx hreading => h.send hx hreading hok
  | lose p => exact h.onPublication fun x hx _ => h.lose hx hok

/-! ### What a step sends -/

/-- A step leaves the messages, or adds one. -/
structure Sends (id : ServerId) (s s' : Server) : Prop where
  listed : s'.listed = s.listed
  sent : s'.sent = s.sent ∨ ∃ m, s'.sent = s.sent ++ [m] ∧ ∀ v, m = some v → v.id = id

theorem Sends.same (hlisted : s'.listed = s.listed) (hsent : s'.sent = s.sent) : Sends id s s' := ⟨hlisted, .inl hsent⟩

theorem publish_sends (s : Server) : s.publish.listed = s.listed ∧ s.publish.sent = s.sent := by
  unfold Server.publish
  split <;> exact ⟨rfl, rfl⟩

theorem call_sends (todo : List Act) : Sends id s (s.call todo) := by
  unfold Server.call
  split <;> exact .same rfl rfl

theorem perform_sends (a : Act) : Sends id s (s.perform usable id i c a todo touched) := by
  cases a with
  | write w => cases w <;> exact .same rfl rfl
  | disconnect => exact .same rfl rfl
  | attempt => exact .same rfl rfl
  | delete tells => exact .same rfl rfl
  | deleteRow tells =>
    cases tells with
    | true => exact ⟨rfl, .inr ⟨none, rfl, fun _ h => nomatch h⟩⟩
    | false => exact .same rfl rfl
  | publish => exact .same (publish_sends s).1 (publish_sends s).2
  | fail failure =>
    exact .same (publish_sends { s with failure := some failure }).1
      (publish_sends { s with failure := some failure }).2

theorem act_sends (taken : Bool) (now : Nat) : Sends id s (s.act usable id i taken now c) := by
  unfold Server.act
  split
  · exact .same rfl rfl
  · unfold Server.writeRow
    split <;> exact .same rfl rfl
  · exact perform_sends _
  · exact .same rfl rfl

theorem fails_sends : Sends id s (s.fails i c) := by
  unfold Server.fails
  split <;> exact .same rfl rfl

theorem view_id {p : Publication} {failure : Option Failure} {v : McpServerView} (h : p.view id failure = some v) :
    v.id = id := by
  unfold Publication.view at h
  split at h
  · obtain ⟨kinds, -, h⟩ := bind_eq_some_iff.mp h
    obtain ⟨signedIn, -, rfl⟩ := map_eq_some_iff.mp h
    rfl
  · obtain ⟨kinds, -, rfl⟩ := map_eq_some_iff.mp h
    rfl

theorem send_sends {p : Publication} : Sends id s (s.send id i p) := by
  unfold Server.send
  split
  · next v hv =>
    refine ⟨rfl, .inr ⟨some v, rfl, fun w hw => ?_⟩⟩
    rw [← some_inj.mp hw]
    exact view_id hv
  · exact .same rfl rfl

theorem onPublication_sends {f : Publication → Server} (hf : ∀ p, Sends id s (f p)) :
    Sends id s (s.onPublication i f) := by
  unfold Server.onPublication
  split
  · split
    · exact hf _
    · exact .same rfl rfl
  · exact .same rfl rfl

theorem onCall_sends {f : Call → Server} (hf : ∀ c, Sends id s (f c)) : Sends id s (s.onCall i f) := by
  unfold Server.onCall
  cases s.calls[i]? with
  | none => exact .same rfl rfl
  | some c => exact hf c

theorem step_sends (e : Event) : Sends id s (s.step usable protocol id e) := by
  cases e with
  | create input taken now =>
    simp only [Server.step, Server.create]
    split
    · exact .same rfl rfl
    · split <;> exact .same rfl rfl
  | update update =>
    simp only [Server.step, Server.update]
    split
    · exact .same rfl rfl
    · split <;> exact .same rfl rfl
  | remove => exact call_sends _
  | signOut =>
    simp only [Server.step]
    split
    · exact call_sends _
    · exact .same rfl rfl
  | finishSignIn client tokens => exact call_sends _
  | test => exact call_sends _
  | refreshed tokens => exact .same rfl rfl
  | signedOut all => exact .same rfl rfl
  | unauthorized all => exact .same rfl rfl
  | fail failure =>
    exact .same (publish_sends { s with failure := some failure }).1
      (publish_sends { s with failure := some failure }).2
  | connected =>
    simp only [Server.step]
    split
    · exact .same (publish_sends { s with failure := none }).1 (publish_sends { s with failure := none }).2
    · exact .same rfl rfl
  | act i taken now => exact onCall_sends fun c => act_sends taken now
  | fails i => exact onCall_sends fun c => fails_sends
  | readKinds p =>
    refine onPublication_sends fun x => ?_
    unfold Server.readKinds
    split <;> exact .same rfl rfl
  | readTokens p =>
    refine onPublication_sends fun x => ?_
    unfold Server.readTokens
    split <;> exact .same rfl rfl
  | send p => exact onPublication_sends fun x => send_sends
  | lose p => exact onPublication_sends fun x => .same rfl rfl

end

/-! ## All servers -/

section

variable {usable : JsString → Bool} {protocol : JsString → Option JsString} {s : State}
  {listed servers : List McpServerView}

structure State.Linked (base : ServerId → Option McpServerView) (s : State) : Prop where
  ids : ∀ m ∈ s.messages, ∀ v, m.2 = some v → v.id = m.1
  told : ∀ k, after base s.messages k = (s.servers k).told

theorem step_servers (s : State) (e : ServerId × Event) : (step usable protocol s e).servers =
    Function.update s.servers e.1 ((s.servers e.1).step usable protocol e.1 e.2) := rfl

theorem State.Linked.step {base : ServerId → Option McpServerView} (h : s.Linked base) (e : ServerId × Event) :
    (step usable protocol s e).Linked base := by
  obtain ⟨hlisted, hsent | ⟨m, hsent, hm⟩⟩ :=
    (step_sends e.2 : Sends e.1 (s.servers e.1) ((s.servers e.1).step usable protocol e.1 e.2))
  · have hmessages : (McpServersStore.step usable protocol s e).messages = s.messages := by
      simp [McpServersStore.step, hsent]
    refine ⟨by rw [hmessages]; exact h.ids, fun k => ?_⟩
    rw [hmessages, h.told, step_servers]
    by_cases hk : k = e.1
    · subst hk
      rw [update_self, Server.told, Server.told, hlisted, hsent]
    · rw [update_of_ne hk]
  · have hmessages : (McpServersStore.step usable protocol s e).messages = s.messages ++ [(e.1, m)] := by
      simp [McpServersStore.step, hsent]
    refine ⟨fun m' hm' v hv => ?_, fun k => ?_⟩
    · rw [hmessages] at hm'
      rcases mem_append.mp hm' with hm' | hm'
      · exact h.ids m' hm' v hv
      · rw [mem_singleton.mp hm'] at hv ⊢
        exact hm v hv
    · rw [hmessages, after_concat, step_servers]
      by_cases hk : k = e.1
      · subst hk
        rw [update_self, update_self]
        exact (told_concat m hsent).symm
      · rw [update_of_ne hk, update_of_ne hk]
        exact h.told k

/-! ### The browser's list -/

theorem upsert_perm (servers : List McpServerView) (server : McpServerView) :
    (upsert servers server).Perm (servers.filter (·.id ≠ server.id) ++ [server]) := perm_insertionSort _ _

theorem table_received (h : (servers.map (·.id)).Nodup) {m : ServerId × Option McpServerView}
    (hm : ∀ v, m.2 = some v → v.id = m.1) :
    ((received servers m).map (·.id)).Nodup ∧
      table (·.id) (received servers m) = Function.update (table (·.id) servers) m.1 m.2 := by
  obtain ⟨k, v⟩ := m
  cases v with
  | none => exact ⟨nodup_filter h _, table_filter h k⟩
  | some server =>
    have hk : server.id = k := hm server rfl
    subst hk
    exact ⟨nodup_replace h (upsert_perm servers server), table_replace h (upsert_perm servers server)⟩

theorem table_foldl {messages : List (ServerId × Option McpServerView)}
    (hids : ∀ m ∈ messages, ∀ v, m.2 = some v → v.id = m.1) (h : (servers.map (·.id)).Nodup) :
    ((messages.foldl received servers).map (·.id)).Nodup ∧
      table (·.id) (messages.foldl received servers) = after (table (·.id) servers) messages := by
  induction messages generalizing servers with
  | nil => exact ⟨h, rfl⟩
  | cons m messages ih =>
    obtain ⟨hnodup, htable⟩ := table_received h (hids m mem_cons_self)
    obtain ⟨hnodup', htable'⟩ := ih (fun m' hm' => hids m' (mem_cons_of_mem m hm')) hnodup
    refine ⟨hnodup', htable'.trans ?_⟩
    rw [htable]
    rfl

abbrev Sorted (servers : List McpServerView) : Prop := servers.Pairwise fun a b => byName a b

theorem received_sorted (h : Sorted servers) (m : ServerId × Option McpServerView) : Sorted (received servers m) := by
  obtain ⟨k, v⟩ := m
  cases v with
  | none => exact h.sublist filter_sublist
  | some server =>
    have htotal : Std.Total fun a b : McpServerView => byName a b :=
      ⟨fun a b => by simpa [byName] using List.le_total _ _⟩
    have htrans : IsTrans McpServerView fun a b => byName a b :=
      ⟨fun a b c hab hbc => by
        simp only [byName, decide_eq_true_eq] at hab hbc ⊢
        exact List.le_trans hab hbc⟩
    exact pairwise_insertionSort _ _

theorem foldl_sorted (messages : List (ServerId × Option McpServerView)) (h : Sorted servers) :
    Sorted (messages.foldl received servers) := by
  induction messages generalizing servers with
  | nil => exact h
  | cons m messages ih => exact ih (received_sorted h m)

/-! ### Whole runs -/

abbrev Ok (usable : JsString → Bool) (s : State) (e : ServerId × Event) : Prop := (s.servers e.1).Ok usable e.1 e.2

/-- The browser has just loaded the list, and nothing is under way. -/
structure State.Loaded (usable : JsString → Bool) (s : State) (listed : List McpServerView) : Prop where
  messages : s.messages = []
  ids : (listed.map (·.id)).Nodup
  sorted : Sorted listed
  table : ∀ k, table (·.id) listed k = (s.servers k).view usable k
  servers : ∀ k, (s.servers k).calls = [] ∧ (s.servers k).publications = [] ∧ (s.servers k).sent = [] ∧
    (s.servers k).listed = (s.servers k).view usable k ∧ ((s.servers k).created = false → (s.servers k).row = none)

def Server.Done (s : Server) : Prop := (∀ c ∈ s.calls, c.done) ∧ ∀ p ∈ s.publications, p.sending ≠ .reading

instance (s : Server) : Decidable s.Done := inferInstanceAs (Decidable (_ ∧ _))

/-- The browser shows exactly the servers there are, with their current views, in name order. -/
structure State.Converged (usable : JsString → Bool) (s : State) (listed : List McpServerView) : Prop where
  shown : ∀ v, v ∈ s.shown listed ↔ ∃ k, (s.servers k).view usable k = some v
  ids : ((s.shown listed).map (·.id)).Nodup
  sorted : Sorted (s.shown listed)

structure State.Inv (usable : JsString → Bool) (base : ServerId → Option McpServerView) (s : State) : Prop where
  linked : s.Linked base
  servers : ∀ k, (s.servers k).Inv usable k

theorem State.Loaded.inv (h : s.Loaded usable listed) : s.Inv usable (Replica.table (·.id) listed) := by
  have htold (k : ServerId) : (s.servers k).told = (s.servers k).view usable k := by
    rw [Server.told, (h.servers k).2.2.1, ← (h.servers k).2.2.2.1]
    rfl
  refine ⟨⟨fun m hm => ?_, fun k => ?_⟩, fun k => ⟨(h.servers k).2.2.2.2, fun hrow => ?_, fun c hc => ?_, fun _ => .inr ?_⟩⟩
  · rw [h.messages] at hm
    cases hm
  · rw [h.messages, htold, ← h.table]
    rfl
  · rw [htold]
    exact view_eq_none.mpr hrow
  · rw [(h.servers k).1] at hc
    cases hc
  · unfold Server.Current
    rw [(h.servers k).2.1]
    exact htold k

theorem State.Inv.step {base : ServerId → Option McpServerView} (h : s.Inv usable base) {e : ServerId × Event}
    (hok : Ok usable s e) : (step usable protocol s e).Inv usable base := by
  refine ⟨h.linked.step e, fun k => ?_⟩
  rw [step_servers]
  by_cases hk : k = e.1
  · subst hk
    rw [update_self]
    exact (h.servers e.1).step hok
  · rw [update_of_ne hk]
    exact h.servers k

theorem Server.Inv.told {server : Server} {k : ServerId} (h : server.Inv usable k) (hdone : server.Done) :
    server.told = server.view usable k := by
  cases hrow : server.row with
  | none => rw [h.gone hrow, view_eq_none.mpr hrow]
  | some row =>
    rcases h.shown (hrow ▸ rfl) with hdue | hcur
    · obtain ⟨c, hc, hd⟩ := any_eq_true.mp hdue
      have hcdone := hdone.1 c hc
      unfold Call.done at hcdone
      split at hcdone
      · next hphase =>
        rw [Call.due, hphase] at hd
        cases hd
      · cases hcdone
    · unfold Server.Current at hcur
      split at hcur
      · exact hcur
      next p hp =>
      split at hcur
      · next hreading => exact absurd hreading (hdone.2 p (mem_of_getLast? hp))
      · exact hcur
      · cases hcur

/-- **The browser's list converges**: in a run whose steps all meet the condition, once every call and every
publication is done, it shows the servers there are as they are. -/
theorem servers_converge (protocol : JsString → Option JsString) (hs : s.Loaded usable listed)
    {es : List (ServerId × Event)} (hes : Along (step usable protocol) (Ok usable) s es)
    (hdone : ∀ k, ((exec (step usable protocol) s es).servers k).Done) :
    (exec (step usable protocol) s es).Converged usable listed := by
  have hinv : (exec (step usable protocol) s es).Inv usable (table (·.id) listed) :=
    hes.invariant (State.Inv usable (table (·.id) listed)) (fun _ _ hok h => h.step hok) hs.inv
  obtain ⟨hids, htable⟩ := table_foldl hinv.linked.ids hs.ids
  have hview (k : ServerId) : table (·.id) ((exec (step usable protocol) s es).shown listed) k =
      ((exec (step usable protocol) s es).servers k).view usable k := by
    rw [State.shown, htable, hinv.linked.told, (hinv.servers k).told (hdone k)]
  refine ⟨fun v => ?_, hids, foldl_sorted _ hs.sorted⟩
  constructor
  · intro hv
    refine ⟨v.id, ?_⟩
    rw [← hview]
    exact (table_eq_some hids).mpr ⟨hv, rfl⟩
  · rintro ⟨k, hk⟩
    rw [← hview] at hk
    exact ((table_eq_some hids).mp hk).1

theorem servers_of_forall_ne {es : List (ServerId × Event)} {k : ServerId} (h : ∀ e ∈ es, e.1 ≠ k) :
    (exec (step usable protocol) s es).servers k = s.servers k := by
  induction es generalizing s with
  | nil => rfl
  | cons e es ih =>
    rw [exec_cons, ih fun e' he' => h e' (mem_cons_of_mem e he'), step_servers]
    exact update_of_ne (Ne.symm (h e mem_cons_self)) _ _

end

def notesRow : McpServerRow where
  fields :=
    { name := Utf.js "notes", instructions := [], url := Utf.js "https://n", transport := .http, authKind := .none
      headerName := none, oauthClientId := none, oauthScope := none, enabled := true }
  createdAt := 0
  updatedAt := 0

def notes : McpServerView := view 0 notesRow (false, false) false none

def oneServer : State where
  servers k := if k = 0 then { Server.init with created := true, row := some notesRow, listed := some notes } else .init
  messages := []

def https (_ : JsString) : Option JsString := some (Utf.js "https:")

theorem oneServer_loaded : oneServer.Loaded (fun _ => true) [notes] where
  messages := rfl
  ids := by decide
  sorted := pairwise_singleton _ _
  table k := by
    by_cases hk : k = 0
    · subst hk
      rfl
    · have hne : ¬(0 = k) := fun h => hk h.symm
      simp [table, oneServer, hk, hne, notes, view, Server.view, Server.init]
  servers k := by
    by_cases hk : k = 0
    · subst hk
      exact ⟨rfl, rfl, rfl, rfl, nofun⟩
    · simp [oneServer, hk, Server.init, Server.view]

/-- It is disabled: read, checked, its row and secrets written, its connection closed, and published. -/
def disabled : List (ServerId × Event) :=
  (0, .update { McpServerUpdate.keep with enabled := some false }) :: List.replicate 6 (0, .act 0 false 1) ++
    [(0, .readKinds 0), (0, .send 0)]

/-- It is removed while a call fails: the failure is published, and removed is sent before the view. -/
def removedAsItFails : List (ServerId × Event) :=
  [(0, .remove), (0, .act 0 false 1), (0, .fail (.error "closed")), (0, .act 0 false 1), (0, .act 0 false 1),
    (0, .readKinds 0), (0, .send 0)]

theorem oneServer_elsewhere {es : List (ServerId × Event)} (hes : ∀ e ∈ es, e.1 = 0) {k : ServerId} (hk : k ≠ 0) :
    (exec (step (fun _ => true) https) oneServer es).servers k = .init := by
  have hne : ∀ e ∈ es, e.1 ≠ k := by
    intro e he
    rw [hes e he]
    exact Ne.symm hk
  rw [servers_of_forall_ne hne]
  simp [oneServer, hk]

theorem servers_converge_disabled :
    (exec (step (fun _ => true) https) oneServer disabled).Converged (fun _ => true) [notes] := by
  refine servers_converge https oneServer_loaded (by decide) fun k => ?_
  by_cases hk : k = 0
  · subst hk
    decide
  · rw [oneServer_elsewhere (by decide) hk]
    decide

theorem removed_server_returns :
    ¬ ∀ (usable : JsString → Bool) (protocol : JsString → Option JsString) (s : State) (listed : List McpServerView)
      (es : List (ServerId × Event)), s.Loaded usable listed →
        (∀ k, ((exec (step usable protocol) s es).servers k).Done) →
          (exec (step usable protocol) s es).Converged usable listed := by
  intro h
  have hconverged := h (fun _ => true) https oneServer [notes] removedAsItFails oneServer_loaded fun k => by
    by_cases hk : k = 0
    · subst hk
      decide
    · rw [oneServer_elsewhere (by decide) hk]
      decide
  obtain ⟨k, hview⟩ := (hconverged.shown (view 0 notesRow (false, false) false (some (.error "closed")))).mp (by decide)
  by_cases hk : k = 0
  · subst hk
    revert hview
    decide
  · rw [oneServer_elsewhere (by decide) hk] at hview
    cases hview

end Reins.McpServersStore
