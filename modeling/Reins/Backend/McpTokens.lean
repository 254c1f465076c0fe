import Reins.Backend.McpEdits

/-!
# Whose an MCP server's tokens are (`update`, `finishSignIn`, `McpConnections`, `McpOAuthProvider`)

One server. An update writes the row and deletes the tokens some awaits later; a connection, a sign-in, its
callback and a refresh read the row once, and the stored tokens and discovery later. The SDK's `auth` does
the same in each of its provider's modes: it asks for the stored discovery, or discovers and saves it, and
then goes to the authorization server it found.
-/

namespace Reins.McpTokens

open Run Places Schema McpServers List Option
open Utf (js)
open McpEdits (McpSecretKind Write updateWrites)

structure Target where
  url : JsString
  oauthClientId : Option JsString
  deriving DecidableEq

def target (row : McpServerFields) : Target := ⟨row.url, row.oauthClientId⟩

structure OAuthTokens where
  accessToken : JsString
  refreshToken : Option JsString
  expires : Bool
  deriving DecidableEq

/-- Tokens, what they were obtained for, and how many targets had been replaced when that was read. -/
structure Issued where
  tokens : OAuthTokens
  issuedFor : Target
  since : Nat
  deriving DecidableEq

/-- `OAuthDiscoveryState`: the URL whose authorization server it is, and when the row with that was read. -/
structure Discovery where
  url : JsString
  since : Nat
  deriving DecidableEq

/-! ## Sign-ins, callbacks and refreshes -/

/-- `McpOAuthMode`. -/
inductive Mode
  | signIn
  | callback
  | connection
  /-- In the background, or after a connection's request was refused with this access token. -/
  | refresh (request : Option (Nat × JsString))
  deriving DecidableEq

inductive Phase
  /-- A sign-in's probe, and the discovery of its scope. -/
  | probing
  | noting (discovery : Discovery)
  | recording
  | waiting
  /-- `auth` asks for the discovery. -/
  | asking
  | saving (discovery : Discovery)
  | found (discovery : Discovery)
  | answering
  | invalidating
  /-- A refresh asks whether it still holds the tokens, to store others or to delete them. -/
  | holding (issued : Option OAuthTokens)
  | storing (issued : OAuthTokens)
  | deleting
  /-- A refresh's end: the request is sent again. -/
  | resending
  /-- `endSignIn`. -/
  | clearing (ok : Bool)
  | disconnecting
  | redirected
  | over
  deriving DecidableEq

/-- A use of the provider, by a row as it was read. -/
structure Auth where
  mode : Mode
  row : McpServerFields
  since : Nat
  held : Option Issued
  retried : Bool
  phase : Phase
  deriving DecidableEq

/-- The authorization server's answer. -/
inductive Reply
  | issued (tokens : OAuthTokens)
  | invalidGrant
  | invalidClient
  | error
  deriving DecidableEq

def Auth.locked (a : Auth) : Bool :=
  match a.mode, a.phase with
  | .refresh _, .waiting | .refresh _, .over => false
  | .refresh _, _ => true
  | _, _ => false

def Auth.takes (a : Auth) (aged : Bool) (t : Issued) : Bool :=
  match a.mode with
  | .refresh none => aged && t.tokens.refreshToken.isSome
  | .refresh (some (_, stale)) => t.tokens.accessToken = stale
  | _ => false

def Auth.presents (a : Auth) : Option Issued :=
  match a.mode with
  | .refresh _ => a.held.filter (·.tokens.refreshToken.isSome)
  | _ => none

def Auth.asksAgain (a : Auth) : Auth := { a with retried := true, phase := .asking }

def Auth.answered (a : Auth) (reply : Reply) : Auth :=
  match a.mode, reply with
  | .signIn, _ => { a with phase := .redirected }
  | .connection, _ => { a with phase := .over }
  | .callback, .issued tokens => { a with phase := .storing tokens }
  | .callback, .invalidGrant => if a.retried then { a with phase := .clearing false } else a.asksAgain
  | .callback, _ => { a with phase := .clearing false }
  | .refresh _, .issued tokens => { a with phase := .holding (some tokens) }
  | .refresh _, .invalidGrant => { a with phase := if a.retried then .resending else .holding none }
  | .refresh _, _ => { a with phase := .resending }

def Auth.failed (a : Auth) : Auth :=
  { a with
    phase :=
      match a.mode, a.phase with
      | .signIn, .redirected => .redirected
      | .callback, .clearing _ | .callback, .disconnecting | .callback, .over => .over
      | .callback, _ => .clearing false
      | .refresh _, .waiting | .refresh _, .resending | .refresh _, .over => .over
      | .refresh _, _ => .resending
      | _, _ => .over }

def Auth.discovered (a : Auth) : Option Discovery :=
  match a.phase with
  | .noting d | .saving d | .found d => some d
  | _ => none

/-! ## Updates and connections -/

inductive UpdatePhase
  | reading
  | writing
  | publishing
  | resolved
  | thrown
  deriving DecidableEq

structure Update where
  update : McpServerUpdate
  before : McpServerFields
  fields : McpServerFields
  /-- How many targets had been replaced when its row replaced one. -/
  ended : Option Nat
  todo : List Write
  phase : UpdatePhase
  deriving DecidableEq

def Update.changed (u : Update) : Bool :=
  reauthorize u.before u.fields || u.fields.transport ≠ u.before.transport || u.fields.enabled ≠ u.before.enabled ||
    u.fields.headerName ≠ u.before.headerName || u.update.headerValue.isSome || u.update.oauthClientSecret.isSome ||
    u.fields.oauthScope ≠ u.before.oauthScope

abbrev Update.Swept (u : Update) (kind : McpSecretKind) : Prop := .set kind none ∉ u.todo

inductive SignOut
  | deleting
  | clearing
  | disconnecting
  | over
  deriving DecidableEq

/-- A call of `connection`, which has read the row. -/
structure Use where
  row : McpServerFields
  since : Nat
  checked : Bool
  deriving DecidableEq

inductive ConnectionPhase
  | connecting
  | opened
  | closed
  deriving DecidableEq

structure Connection where
  row : McpServerFields
  since : Nat
  generation : Nat
  phase : ConnectionPhase
  deriving DecidableEq

/-! ## The server -/

structure State where
  row : McpServerFields
  replaced : List Target
  signIn : Option Nat
  tokens : Option Issued
  discovery : Option Discovery
  updates : List Update
  signOuts : List SignOut
  auths : List Auth
  uses : List Use
  connections : List Connection
  connection : Option Nat
  connecting : Option Nat
  generation : Nat
  /-- The access and refresh tokens sent, each with the URL of the server it goes to, or to whose
  authorization server it goes. -/
  sent : List (Issued × JsString)

def State.init (row : McpServerFields) : State :=
  { row, replaced := [], signIn := none, tokens := none, discovery := none, updates := [], signOuts := [], auths := []
    uses := [], connections := [], connection := none, connecting := none, generation := 0, sent := [] }

inductive Event
  | startSignIn
  | callback (i : Nat) (refused : Bool)
  | refreshAged
  /-- A connection's request is refused with this access token. -/
  | unauthorized (c : Nat) (stale : JsString)
  /-- A connection's transport runs `auth`. -/
  | authorize (c : Nat)
  | lock (i : Nat) (aged : Bool)
  /-- What is stored may lack metadata, and is then saved with them. -/
  | ask (i : Nat) (enrich : Bool)
  | next (i : Nat)
  | answer (i : Nat) (reply : Reply)
  /-- A call of the storage rejects, or the rest of `auth`. -/
  | fails (i : Nat)
  | update (update : McpServerUpdate)
  /-- Its checks of the header, or the name's uniqueness, may refuse it. -/
  | writeRow (u : Nat) (refused : Bool)
  | updateNext (u : Nat)
  | updateFails (u : Nat)
  | signOut
  | signOutNext (k : Nat)
  /-- `disconnect`, at the start of `test`. -/
  | disconnect
  | use
  | check (k : Nat) (expired : Bool)
  | opened (c : Nat)
  /-- It fails to open, is idle, or a request on it fails. -/
  | drop (c : Nat)
  | send (c : Nat)

def State.setAuth (s : State) (i : Nat) (a : Auth) : State := { s with auths := s.auths.set i a }

def State.setUpdate (s : State) (u : Nat) (x : Update) : State := { s with updates := s.updates.set u x }

variable {s : State} {a b : Auth} {i u c : Nat} {x : Update} {kind : McpSecretKind} {d : Discovery}

/-- One more use of the provider, by the row as it is now. -/
def State.begin (s : State) (mode : Mode) (phase : Phase) : State :=
  { s with auths := s.auths ++ [⟨mode, s.row, s.replaced.length, none, false, phase⟩] }

def State.beginOf (s : State) (c : Connection) (mode : Mode) (phase : Phase) : State :=
  if c.row.authKind = .oauth then { s with auths := s.auths ++ [⟨mode, c.row, c.since, none, false, phase⟩] } else s

def State.startSignIn (s : State) : State := if s.row.authKind = .oauth then s.begin .signIn .probing else s

/-- `finishSignIn`, of the sign-in whose state the row has. -/
def State.callback (s : State) (i : Nat) (a : Auth) (refused : Bool) : State :=
  if s.signIn = some i ∧ a.phase = .redirected then
    if refused then { s with signIn := none } else s.begin .callback .asking
  else s

def State.refreshAged (s : State) : State :=
  if s.row.enabled ∧ s.row.authKind = .oauth then s.begin (.refresh none) .waiting else s

def State.lock (s : State) (i : Nat) (a : Auth) (aged : Bool) : State :=
  match a.phase with
  | .waiting =>
    if s.auths.any Auth.locked then s
    else
      match s.tokens.filter (a.takes aged) with
      | some t => s.setAuth i { a with held := some t, phase := .asking }
      | none => s.setAuth i { a with phase := .resending }
  | _ => s

def State.ask (s : State) (i : Nat) (a : Auth) (enrich : Bool) : State :=
  match a.phase, s.discovery with
  | .asking, none => s.setAuth i { a with phase := .saving ⟨a.row.url, a.since⟩ }
  | .asking, some d => s.setAuth i { a with phase := if enrich then .saving d else .found d }
  | _, _ => s

def State.close (s : State) (c : Nat) (x : Connection) : State :=
  { s with
    connections := s.connections.set c { x with phase := .closed }
    connection := if s.connection = some c then none else s.connection
    connecting := if s.connecting = some c then none else s.connecting }

def State.disconnect (s : State) : State :=
  match s.connection.bind (fun c => (s.connections)[c]?.map (c, ·)) with
  | some (c, x) => { s.close c x with connecting := none, generation := s.generation + 1 }
  | none => { s with connecting := none, generation := s.generation + 1 }

def State.holdsTokens (s : State) (a : Auth) : Bool :=
  a.held.isSome && s.tokens.map (·.tokens) = a.held.map (·.tokens)

def State.isClosed (s : State) (c : Nat) : Bool := (s.connections)[c]?.all (·.phase = .closed)

/-- What the request refused is sent again with. -/
def State.resent (s : State) (a : Auth) : Option Issued :=
  match a.mode with
  | .refresh (some (c, stale)) => if s.isClosed c then none else s.tokens.filter (·.tokens.accessToken ≠ stale)
  | _ => none

def State.log (s : State) (issued : Option Issued) (url : JsString) : State :=
  { s with sent := s.sent ++ issued.toList.map (·, url) }

def State.present (s : State) (i : Nat) (a : Auth) (d : Discovery) : State :=
  match a.mode, a.presents with
  | .refresh _, none => s.setAuth i { a with phase := .resending }
  | _, issued => (s.log issued d.url).setAuth i { a with phase := .answering }

/-- A use's next step that waits for the storage only. -/
def State.next (s : State) (i : Nat) (a : Auth) : State :=
  match a.phase with
  | .probing =>
    s.setAuth i { a with phase := if a.row.oauthScope.isSome then .recording else .noting ⟨a.row.url, a.since⟩ }
  | .noting d => { s.setAuth i { a with phase := .recording } with discovery := some d }
  | .recording => { s.setAuth i { a with phase := .asking } with signIn := some i }
  | .saving d => { s.setAuth i { a with phase := .found d } with discovery := some d }
  | .found d => s.present i a d
  | .invalidating =>
    match a.mode with
    | .refresh _ => { s.setAuth i { a with phase := .holding none } with discovery := none }
    | _ => { s.setAuth i a.asksAgain with discovery := none }
  | .holding issued =>
    match issued, s.holdsTokens a with
    | some tokens, true => s.setAuth i { a with phase := .storing tokens }
    | none, true => s.setAuth i { a with phase := .deleting }
    | some _, false => s.setAuth i { a with held := none, phase := .resending }
    | none, false => s.setAuth i { a.asksAgain with held := none }
  | .storing tokens =>
    { s.setAuth i { a with phase := if a.mode = .callback then .clearing true else .resending } with
      tokens := some ⟨tokens, target a.row, a.since⟩ }
  | .deleting => { s.setAuth i { a.asksAgain with held := none } with tokens := none }
  | .resending => (s.log (s.resent a) a.row.url).setAuth i { a with phase := .over }
  | .clearing ok => { s.setAuth i { a with phase := if ok then .disconnecting else .over } with signIn := none }
  | .disconnecting => (s.setAuth i { a with phase := .over }).disconnect
  | _ => s

def State.answer (s : State) (i : Nat) (a : Auth) (reply : Reply) : State :=
  match a.phase with
  | .answering =>
    if reply = .invalidClient ∧ a.retried = false then s.setAuth i { a with phase := .invalidating }
    else s.setAuth i (a.answered reply)
  | _ => s

/-- To its await of `secretKinds`. -/
def State.update (protocol : JsString → Option JsString) (s : State) (update : McpServerUpdate) : State :=
  match validMcpServerFields protocol (update.merge s.row) with
  | .ok fields => { s with updates := s.updates ++ [⟨update, s.row, fields, none, [], .reading⟩] }
  | .error _ => s

def State.writeRow (s : State) (u : Nat) (x : Update) (refused : Bool) : State :=
  match x.phase, refused with
  | .reading, true => s.setUpdate u { x with phase := .thrown }
  | .reading, false =>
    let written := { x with todo := updateWrites x.update x.before x.fields, phase := .writing }
    if target x.fields = target s.row then { s.setUpdate u written with row := x.fields }
    else
      { s.setUpdate u { written with ended := some s.replaced.length } with
        row := x.fields
        replaced := s.replaced ++ [target s.row] }
  | _, _ => s

def State.write (s : State) : Write → State
  | .set .tokens none => { s with tokens := none }
  | .set .discovery none => { s with discovery := none }
  | .endSignIn => { s with signIn := none }
  | _ => s

def State.updateNext (s : State) (u : Nat) (x : Update) : State :=
  match x.phase, x.todo with
  | .writing, w :: todo => (s.write w).setUpdate u { x with todo }
  | .writing, [] => (if x.changed then s.disconnect else s).setUpdate u { x with phase := .publishing }
  | .publishing, _ => s.setUpdate u { x with phase := .resolved }
  | _, _ => s

def State.updateFails (s : State) (u : Nat) (x : Update) : State :=
  match x.phase with
  | .resolved => s
  | _ => s.setUpdate u { x with phase := .thrown }

def State.signOutNext (s : State) (k : Nat) : SignOut → State
  | .deleting => { s with signOuts := s.signOuts.set k .clearing, tokens := none }
  | .clearing => { s with signOuts := s.signOuts.set k .disconnecting, signIn := none }
  | .disconnecting => { s with signOuts := s.signOuts.set k .over }.disconnect
  | .over => s

def mcpSignedIn (tokens : Option Issued) (expired : Bool) : Bool :=
  tokens.any fun t => t.tokens.refreshToken.isSome || !t.tokens.expires || !expired

/-- `configurationBlock`. -/
def blocked (row : McpServerFields) (signedIn : Bool) : Bool := !row.enabled || row.authKind = .oauth && !signedIn

/-- The rest of `connection`, which opens one if there is none. -/
def State.check (s : State) (k : Nat) (x : Use) (expired : Bool) : State :=
  if x.checked then s
  else
    let s' := { s with uses := s.uses.set k { x with checked := true } }
    if blocked x.row (mcpSignedIn s.tokens expired) ∨ s.connection.isSome ∨ s.connecting.isSome then s'
    else
      { s' with
        connections := s.connections ++ [⟨x.row, x.since, s.generation, .connecting⟩]
        connecting := some s.connections.length }

def State.opened (s : State) (c : Nat) (x : Connection) : State :=
  match x.phase with
  | .connecting =>
    if x.generation = s.generation then
      { s with
        connections := s.connections.set c { x with phase := .opened }
        connection := some c
        connecting := if s.connecting = some c then none else s.connecting }
    else s.close c x
  | _ => s

def State.send (s : State) (x : Connection) : State :=
  if x.phase = .closed ∨ x.row.authKind ≠ .oauth then s else s.log s.tokens x.row.url

def State.onIdx {α : Type} (s : State) (xs : List α) (i : Nat) (f : α → State) : State :=
  match xs[i]? with
  | some x => f x
  | none => s

def step (protocol : JsString → Option JsString) (s : State) : Event → State
  | .startSignIn => s.startSignIn
  | .callback i refused => s.onIdx s.auths i fun a => s.callback i a refused
  | .refreshAged => s.refreshAged
  | .unauthorized c stale => s.onIdx s.connections c fun x => s.beginOf x (.refresh (some (c, stale))) .waiting
  | .authorize c => s.onIdx s.connections c fun x => s.beginOf x .connection .asking
  | .lock i aged => s.onIdx s.auths i fun a => s.lock i a aged
  | .ask i enrich => s.onIdx s.auths i fun a => s.ask i a enrich
  | .next i => s.onIdx s.auths i fun a => s.next i a
  | .answer i reply => s.onIdx s.auths i fun a => s.answer i a reply
  | .fails i => s.onIdx s.auths i fun a => s.setAuth i a.failed
  | .update update => s.update protocol update
  | .writeRow u refused => s.onIdx s.updates u fun x => s.writeRow u x refused
  | .updateNext u => s.onIdx s.updates u fun x => s.updateNext u x
  | .updateFails u => s.onIdx s.updates u fun x => s.updateFails u x
  | .signOut => if s.row.authKind = .oauth then { s with signOuts := s.signOuts ++ [.deleting] } else s
  | .signOutNext k => s.onIdx s.signOuts k fun x => s.signOutNext k x
  | .disconnect => s.disconnect
  | .use => { s with uses := s.uses ++ [⟨s.row, s.replaced.length, false⟩] }
  | .check k expired => s.onIdx s.uses k fun x => s.check k x expired
  | .opened c => s.onIdx s.connections c fun x => s.opened c x
  | .drop c => s.onIdx s.connections c fun x => s.close c x
  | .send c => s.onIdx s.connections c fun x => s.send x

/-! ## What is promised -/

structure Apart (s : State) : Prop where
  /-- Tokens go to the server they were obtained for. -/
  sent : ∀ t url, (t, url) ∈ s.sent → t.issuedFor.url = url
  /-- An update that has replaced a target and has resolved did so before the row was read by which the tokens
  stored were obtained. -/
  stored : ∀ t, s.tokens = some t → ∀ u ∈ s.updates, u.phase = .resolved → ∀ e, u.ended = some e → e < t.since

/-- No update that has replaced the target of a row read at `since`, or a later one, has deleted the secret. -/
def Unswept (s : State) (kind : McpSecretKind) (since : Nat) : Prop :=
  ∀ u ∈ s.updates, ∀ e, u.ended = some e → u.Swept kind → e < since

/-- What was stored by a row read at `stored` is met by a row read at `since`: that is no older, and every
update that replaced a target between the two has deleted the secret. -/
def Met (s : State) (kind : McpSecretKind) (stored since : Nat) : Prop :=
  stored ≤ since ∧ ∀ u ∈ s.updates, ∀ e, u.ended = some e → stored ≤ e → e < since → u.Swept kind

/-- An update replaces only a target that it read; nothing is stored by a row whose target was replaced, once
that update has deleted what was stored before; and stored tokens, and the discovery they are refreshed
at, are met by the rows of those that use them. -/
def Orderly (s : State) : Event → Prop
  | .writeRow u refused => ∀ x, s.updates[u]? = some x → x.phase = .reading → refused = false →
      target x.fields ≠ target s.row → reauthorize x.before x.fields = true
  | .lock i aged => ∀ a t, s.auths[i]? = some a → a.phase = .waiting → s.tokens = some t → a.takes aged t = true →
      Met s .tokens t.since a.since
  | .ask i _ => ∀ a d, s.auths[i]? = some a → a.phase = .asking → a.presents.isSome → s.discovery = some d →
      Met s .discovery d.since a.since
  | .next i => ∀ a, s.auths[i]? = some a →
      (∀ tokens, a.phase = .storing tokens → Unswept s .tokens a.since) ∧
      (∀ d, a.phase = .noting d ∨ a.phase = .saving d → Unswept s .discovery d.since) ∧
      ∀ t, a.phase = .resending → s.resent a = some t → Met s .tokens t.since a.since
  | .send c => ∀ x t, s.connections[c]? = some x → x.phase ≠ .closed → x.row.authKind = .oauth →
      s.tokens = some t → Met s .tokens t.since x.since
  | _ => True

/-! ## What every step keeps -/

def State.targets (s : State) : List Target := s.replaced ++ [target s.row]

/-- A use of the provider goes by a row as it was, and a refresh presents tokens, at the authorization server of
a discovery, of the same time. -/
structure Auth.Fits (a : Auth) (targets : List Target) : Prop where
  row : targets[a.since]? = some (target a.row)
  discovered : ∀ d, a.discovered = some d → targets[d.since]?.map (·.url) = some d.url
  presents : ∀ t, a.presents = some t → targets[t.since]? = some t.issuedFor ∧ t.since = a.since
  meets : ∀ t d, a.presents = some t → a.discovered = some d → d.since = a.since

/-- When the row was read by which a secret was stored. -/
def State.stamp (s : State) : McpSecretKind → Option Nat
  | .tokens => s.tokens.map (·.since)
  | .discovery => s.discovery.map (·.since)
  | _ => none

theorem State.stamp_tokens (s : State) {t : Issued} (h : s.tokens = some t) : s.stamp .tokens = some t.since := by
  rw [State.stamp, h, map_some]

theorem State.stamp_discovery (s : State) (h : s.discovery = some d) : s.stamp .discovery = some d.since := by
  rw [State.stamp, h, map_some]

/-- An update past its writes has none left, and one before them has replaced nothing. -/
structure Update.Fits (u : Update) : Prop where
  written : u.phase = .publishing ∨ u.phase = .resolved → u.todo = []
  reading : u.phase = .reading → u.ended = none ∧ u.todo = []

structure Fit (s : State) : Prop where
  tokens : ∀ t, s.tokens = some t → s.targets[t.since]? = some t.issuedFor
  discovery : ∀ d, s.discovery = some d → s.targets[d.since]?.map (·.url) = some d.url
  auths : ∀ a ∈ s.auths, a.Fits s.targets
  uses : ∀ x ∈ s.uses, s.targets[x.since]? = some (target x.row)
  connections : ∀ x ∈ s.connections, s.targets[x.since]? = some (target x.row)
  replaced : ∀ e < s.replaced.length, ∃ u ∈ s.updates, u.ended = some e
  updates : ∀ u ∈ s.updates, u.Fits
  swept : ∀ kind n, s.stamp kind = some n → Unswept s kind n
  sent : ∀ t url, (t, url) ∈ s.sent → t.issuedFor.url = url

theorem Fit.init (row : McpServerFields) : Fit (.init row) := by
  constructor
  · intro t ht
    cases ht
  · intro d hd
    cases hd
  · intro a ha
    cases ha
  · intro x hx
    cases hx
  · intro x hx
    cases hx
  · intro e he
    cases he
  · intro u hu
    cases hu
  · intro kind n hn
    cases kind <;> cases hn
  · intro t url h
    cases h

/-- Nothing stored before the last target is left where no update has yet to delete it. -/
theorem Fit.apart (h : Fit s) : Apart s := by
  refine ⟨h.sent, fun t ht u hu hresolved e he => ?_⟩
  have htodo := (h.updates u hu).written (.inr hresolved)
  have hswept : u.Swept .tokens := by
    rw [Update.Swept, htodo]
    exact not_mem_nil
  exact h.swept .tokens t.since (s.stamp_tokens ht) u hu e he hswept

/-- What is met was stored by a row of the same time: every target replaced between would have been so by an
update that has deleted the secret. -/
theorem Fit.since_eq (h : Fit s) {stored since : Nat} {row : McpServerFields}
    (hstored : s.stamp kind = some stored) (hrow : s.targets[since]? = some (target row))
    (hmet : Met s kind stored since) : stored = since := by
  obtain ⟨hle, hbetween⟩ := hmet
  rcases Nat.lt_or_eq_of_le hle with hlt | heq
  · have hbound : since < s.targets.length := lt_of_getElem? hrow
    rw [State.targets, length_append, length_singleton] at hbound
    obtain ⟨u, hu, hended⟩ := h.replaced stored (Nat.lt_of_lt_of_le hlt (Nat.le_of_lt_succ hbound))
    have hswept := hbetween u hu stored hended (Nat.le_refl _) hlt
    exact absurd (h.swept kind stored hstored u hu stored hended hswept) (Nat.lt_irrefl _)
  · exact heq

/-! ## The parts of a step -/

theorem Auth.presents_eq_none (h : a.held = none) : a.presents = none := by
  unfold Auth.presents
  rw [h]
  cases a.mode <;> rfl

theorem Auth.presents_congr (hmode : b.mode = a.mode) (hheld : b.held = a.held) : b.presents = a.presents := by
  unfold Auth.presents
  rw [hmode, hheld]

theorem Auth.Fits.goOn {targets : List Target} (h : a.Fits targets) (hmode : b.mode = a.mode)
    (hrow : b.row = a.row) (hsince : b.since = a.since) (hheld : b.held = none ∨ b.held = a.held)
    (hdiscovered : b.discovered = none ∨ b.discovered = a.discovered) : b.Fits targets := by
  have hpresents : b.presents = none ∨ b.presents = a.presents :=
    hheld.imp Auth.presents_eq_none (Auth.presents_congr hmode)
  constructor
  · rw [hrow, hsince]
    exact h.row
  · intro d hd
    rcases hdiscovered with hnone | hsame
    · cases hnone.symm.trans hd
    · exact h.discovered d (hsame.symm.trans hd)
  · intro t ht
    rw [hsince]
    rcases hpresents with hnone | hsame
    · cases hnone.symm.trans ht
    · exact h.presents t (hsame.symm.trans ht)
  · intro t d ht hd
    rw [hsince]
    rcases hpresents with hnone | hsame
    · cases hnone.symm.trans ht
    rcases hdiscovered with hnone | hsame'
    · cases hnone.symm.trans hd
    · exact h.meets t d (hsame.symm.trans ht) (hsame'.symm.trans hd)

theorem Auth.Fits.phase {targets : List Target} (h : a.Fits targets) {phase : Phase} {retried : Bool}
    (hd : { a with retried, phase }.discovered = none) : { a with retried, phase }.Fits targets :=
  h.goOn rfl rfl rfl (.inr rfl) (.inl hd)

theorem Auth.Fits.drops {targets : List Target} (h : a.Fits targets) {phase : Phase} {retried : Bool}
    (hd : { a with retried, phase, held := none }.discovered = none) :
    { a with retried, phase, held := none }.Fits targets :=
  h.goOn rfl rfl rfl (.inl rfl) (.inl hd)

theorem Auth.Fits.find {targets : List Target} (h : a.Fits targets) {phase : Phase}
    (hphase : phase = .noting d ∨ phase = .saving d ∨ phase = .found d)
    (hurl : targets[d.since]?.map (·.url) = some d.url) (hmeets : a.presents.isSome → d.since = a.since) :
    { a with phase }.Fits targets := by
  have hd : { a with phase }.discovered = some d := by rcases hphase with rfl | rfl | rfl <;> rfl
  constructor
  · exact h.row
  · intro d' hd'
    cases hd.symm.trans hd'
    exact hurl
  · exact h.presents
  · intro t d' ht hd'
    cases hd.symm.trans hd'
    have ht' : a.presents = some t := ht
    exact hmeets (ht' ▸ rfl)

theorem Fit.setAuth (h : Fit s) (i : Nat) (hb : b.Fits s.targets) : Fit (s.setAuth i b) := by
  refine { h with auths := fun a ha => ?_ }
  rcases mem_or_eq_of_mem_set ha with ha | rfl
  · exact h.auths a ha
  · exact hb

theorem Fit.addAuth (h : Fit s) (hb : b.Fits s.targets) : Fit { s with auths := s.auths ++ [b] } := by
  refine { h with auths := fun a ha => ?_ }
  rcases mem_concat_cases ha with ha | rfl
  · exact h.auths a ha
  · exact hb

theorem Fit.withSignIn (h : Fit s) (signIn : Option Nat) : Fit { s with signIn } :=
  { h with }

theorem Fit.withSignOuts (h : Fit s) (signOuts : List SignOut) : Fit { s with signOuts } :=
  { h with }

theorem Fit.withTokens (h : Fit s) (tokens : Option Issued)
    (ht : ∀ t, tokens = some t → s.targets[t.since]? = some t.issuedFor ∧ Unswept s .tokens t.since) :
    Fit { s with tokens } := by
  refine { h with tokens := fun t hto => (ht t hto).1, swept := ?_ }
  intro kind n hn
  cases kind with
  | tokens =>
    obtain ⟨t, hto, rfl⟩ := map_eq_some_iff.mp hn
    exact (ht t hto).2
  | _ => exact h.swept _ n hn

theorem Fit.withDiscovery (h : Fit s) (discovery : Option Discovery)
    (hd : ∀ d, discovery = some d →
      s.targets[d.since]?.map (·.url) = some d.url ∧ Unswept s .discovery d.since) : Fit { s with discovery } := by
  refine { h with discovery := fun d hdi => (hd d hdi).1, swept := ?_ }
  intro kind n hn
  cases kind with
  | discovery =>
    obtain ⟨d, hdi, rfl⟩ := map_eq_some_iff.mp hn
    exact (hd d hdi).2
  | _ => exact h.swept _ n hn

theorem Fit.log (h : Fit s) {issued : Option Issued} {url : JsString}
    (hissued : ∀ t, issued = some t → t.issuedFor.url = url) : Fit (s.log issued url) := by
  refine { h with sent := ?_ }
  intro t url' hmem
  rcases mem_append.mp hmem with hmem | hmem
  · exact h.sent t url' hmem
  obtain ⟨t', ht', heq⟩ := mem_map.mp hmem
  cases heq
  exact hissued t (mem_toList.mp ht')

theorem Fit.withUses (h : Fit s) {uses : List Use}
    (huses : ∀ x ∈ uses, s.targets[x.since]? = some (target x.row)) : Fit { s with uses } :=
  { h with uses := huses }

theorem Fit.withConnections (h : Fit s) {connections : List Connection}
    (hconnections : ∀ x ∈ connections, s.targets[x.since]? = some (target x.row)) (connection connecting : Option Nat)
    (generation : Nat) : Fit { s with connections, connection, connecting, generation } :=
  { h with connections := hconnections }

theorem Fit.close (h : Fit s) {x : Connection} (hx : s.connections[c]? = some x) : Fit (s.close c x) := by
  refine h.withConnections (fun y hy => ?_) _ _ s.generation
  rcases mem_or_eq_of_mem_set hy with hy | rfl
  · exact h.connections y hy
  · exact h.connections x (mem_of_getElem? hx)

theorem Fit.disconnect (h : Fit s) : Fit s.disconnect := by
  unfold State.disconnect
  split
  next c x hx =>
    obtain ⟨c', -, hx⟩ := bind_eq_some_iff.mp hx
    obtain ⟨x', hx', heq⟩ := map_eq_some_iff.mp hx
    cases heq
    exact (h.close hx').withConnections (h.close hx').connections _ _ _
  · exact h.withConnections h.connections _ _ _

/-- An update that goes on, having deleted no more than what is not stored. -/
theorem Fit.setUpdate (h : Fit s) {y : Update} (hx : s.updates[u]? = some x) (hended : y.ended = x.ended) (hy : y.Fits)
    (hswept : ∀ kind n, s.stamp kind = some n → y.Swept kind → x.Swept kind) : Fit (s.setUpdate u y) := by
  refine { h with replaced := ?_, updates := ?_, swept := ?_ }
  · intro e he
    obtain ⟨z, hz, hze⟩ := h.replaced e he
    obtain ⟨k, hk⟩ := mem_iff_getElem?.mp hz
    by_cases hku : k = u
    · subst hku
      cases hx.symm.trans hk
      exact ⟨y, mem_of_getElem? (getElem?_set_self (lt_of_getElem? hx)), hended.trans hze⟩
    · exact ⟨z, mem_of_getElem? ((getElem?_set_ne (Ne.symm hku)).trans hk), hze⟩
  · intro z hz
    rcases mem_or_eq_of_mem_set hz with hz | rfl
    · exact h.updates z hz
    · exact hy
  · intro kind n hn z hz e he hkind
    rcases mem_or_eq_of_mem_set hz with hz | rfl
    · exact h.swept kind n hn z hz e he hkind
    · exact h.swept kind n hn x (mem_of_getElem? hx) e (hended.symm.trans he) (hswept kind n hn hkind)

theorem Auth.Fits.grow {targets : List Target} (h : a.Fits targets) (more : List Target) :
    a.Fits (targets ++ more) := by
  refine ⟨getElem?_append_some h.row more, fun d hd => ?_, fun t ht => ?_, h.meets⟩
  · obtain ⟨x, hx, hurl⟩ := map_eq_some_iff.mp (h.discovered d hd)
    rw [getElem?_append_some hx more, map_some, hurl]
  · obtain ⟨hissued, hsince⟩ := h.presents t ht
    exact ⟨getElem?_append_some hissued more, hsince⟩

theorem mem_updateWrites {update : McpServerUpdate} {before fields : McpServerFields} (h : reauthorize before fields) (hkind : kind ∈ McpEdits.OAUTH_SECRETS) :
    .set kind none ∈ updateWrites update before fields := by
  unfold updateWrites
  rw [if_pos h]
  exact mem_append_right _ (mem_append_left _ (mem_map_of_mem hkind))

/-- What is stored is among what an update that signs the server out deletes. -/
theorem stamp_mem {n : Nat} (h : s.stamp kind = some n) : kind ∈ McpEdits.OAUTH_SECRETS := by
  cases kind <;> first | decide | cases h

theorem Fit.rewrite (h : Fit s) {row : McpServerFields} (hrow : target row = target s.row) : Fit { s with row } := by
  have htargets : State.targets { s with row } = s.targets := by rw [State.targets, State.targets, hrow]
  refine ⟨?_, ?_, ?_, ?_, ?_, h.replaced, h.updates, h.swept, h.sent⟩ <;> rw [htargets]
  · exact h.tokens
  · exact h.discovery
  · exact h.auths
  · exact h.uses
  · exact h.connections

/-- The row is written with another target, by an update that has yet to delete what is stored. -/
theorem Fit.replace (h : Fit s) {y : Update} (hx : s.updates[u]? = some x)
    (hreading : x.phase = .reading) (hended : y.ended = some s.replaced.length) (hphase : y.phase = .writing)
    (htodo : ∀ kind ∈ McpEdits.OAUTH_SECRETS, .set kind none ∈ y.todo) (row : McpServerFields) :
    Fit { s.setUpdate u y with row, replaced := s.replaced ++ [target s.row] } := by
  obtain ⟨hfresh, -⟩ := (h.updates x (mem_of_getElem? hx)).reading hreading
  refine ⟨?_, ?_, ?_, ?_, ?_, ?_, ?_, ?_, h.sent⟩
  · exact fun t ht => getElem?_append_some (h.tokens t ht) _
  · intro d hd
    obtain ⟨z, hz, hurl⟩ := map_eq_some_iff.mp (h.discovery d hd)
    have hz' := getElem?_append_some hz [target row]
    exact (congrArg (Option.map (·.url)) hz').trans (congrArg some hurl)
  · exact fun a ha => (h.auths a ha).grow _
  · exact fun z hz => getElem?_append_some (h.uses z hz) _
  · exact fun z hz => getElem?_append_some (h.connections z hz) _
  · intro e he
    rw [length_append, length_singleton] at he
    rcases Nat.lt_succ_iff_lt_or_eq.mp he with he | rfl
    · obtain ⟨z, hz, hze⟩ := h.replaced e he
      obtain ⟨k, hk⟩ := mem_iff_getElem?.mp hz
      refine ⟨z, mem_of_getElem? ((getElem?_set_ne fun huk => ?_).trans hk), hze⟩
      subst huk
      cases hx.symm.trans hk
      cases hfresh.symm.trans hze
    · exact ⟨y, mem_of_getElem? (getElem?_set_self (lt_of_getElem? hx)), hended⟩
  · intro z hz
    rcases mem_or_eq_of_mem_set hz with hz | rfl
    · exact h.updates z hz
    refine ⟨fun hp => ?_, fun hp => ?_⟩
    · rcases hp with hp | hp <;> cases hphase.symm.trans hp
    · cases hphase.symm.trans hp
  · intro kind n hn z hz e he hswept
    rcases mem_or_eq_of_mem_set hz with hz | rfl
    · exact h.swept kind n hn z hz e he hswept
    · exact absurd (htodo kind (stamp_mem hn)) hswept

/-! ## One step -/

theorem onIdx_cases {α : Type} {P : State → Prop} (h : P s) (xs : List α) (i : Nat) {f : α → State}
    (hf : ∀ x, xs[i]? = some x → P (f x)) : P (s.onIdx xs i f) := by
  unfold State.onIdx
  split
  next x hx =>
    exact hf x hx
  · exact h

theorem targets_now : s.targets[s.replaced.length]? = some (target s.row) := by
  rw [State.targets, getElem?_concat_length]

theorem Fit.begin (h : Fit s) (mode : Mode) {phase : Phase}
    (hphase : (Auth.mk mode s.row s.replaced.length none false phase).discovered = none) :
    Fit (s.begin mode phase) := by
  refine h.addAuth ⟨targets_now, fun d hd => ?_, fun t ht => ?_, fun t d _ hd => ?_⟩
  · cases hphase.symm.trans hd
  · cases (Auth.presents_eq_none rfl).symm.trans ht
  · cases hphase.symm.trans hd

theorem Fit.beginOf (h : Fit s) {c : Connection} (hc : c ∈ s.connections) (mode : Mode) {phase : Phase}
    (hphase : (Auth.mk mode c.row c.since none false phase).discovered = none) : Fit (s.beginOf c mode phase) := by
  unfold State.beginOf
  split
  · refine h.addAuth ⟨h.connections c hc, fun d hd => ?_, fun t ht => ?_, fun t d _ hd => ?_⟩
    · cases hphase.symm.trans hd
    · cases (Auth.presents_eq_none rfl).symm.trans ht
    · cases hphase.symm.trans hd
  · exact h

theorem Fit.lock (h : Fit s) {aged : Bool} (ha : s.auths[i]? = some a)
    (horderly : Orderly s (.lock i aged)) : Fit (s.lock i a aged) := by
  have hfits := h.auths a (mem_of_getElem? ha)
  unfold State.lock
  split
  next hphase =>
    split
    · exact h
    split
    next t ht =>
      obtain ⟨hstored, htakes⟩ := filter_eq_some_iff.mp ht
      have hmet := horderly a t ha hphase hstored htakes
      have hsince := h.since_eq (s.stamp_tokens hstored) hfits.row hmet
      refine h.setAuth i ⟨hfits.row, fun d hd => (by cases hd), fun t' ht' => ?_, fun t' d _ hd => (by cases hd)⟩
      have htt : t' = t := by
        unfold Auth.presents at ht'
        split at ht'
        · exact (some_inj.mp (filter_eq_some_iff.mp ht').1).symm
        · cases ht'
      rw [htt]
      exact ⟨h.tokens t hstored, hsince⟩
    · exact h.setAuth i (hfits.phase rfl)
  · exact h

theorem Fit.ask (h : Fit s) {enrich : Bool} (ha : s.auths[i]? = some a)
    (horderly : Orderly s (.ask i enrich)) : Fit (s.ask i a enrich) := by
  have hfits := h.auths a (mem_of_getElem? ha)
  unfold State.ask
  split
  · refine h.setAuth i (hfits.find (.inr (.inl rfl)) ?_ fun _ => rfl)
    rw [hfits.row]
    rfl
  next d hphase hd =>
    refine h.setAuth i (hfits.find (d := d) ?_ (h.discovery d hd) fun hpresents => ?_)
    · cases enrich
      · exact .inr (.inr rfl)
      · exact .inr (.inl rfl)
    · have hmet := horderly a d ha hphase hpresents hd
      exact h.since_eq (s.stamp_discovery hd) hfits.row hmet
  · exact h

theorem Fit.present (h : Fit s) (ha : s.auths[i]? = some a) (hphase : a.phase = .found d) : Fit (s.present i a d) := by
  have hfits := h.auths a (mem_of_getElem? ha)
  have hd : a.discovered = some d := by rw [Auth.discovered, hphase]
  unfold State.present
  split
  · exact h.setAuth i (hfits.phase rfl)
  refine (h.log fun t ht => ?_).setAuth i (hfits.phase rfl)
  -- the tokens and the discovery are of the time at which the row was read, and so of one URL
  obtain ⟨hissued, hsince⟩ := hfits.presents t ht
  have hurl := hfits.discovered d hd
  rw [hfits.meets t d ht hd, ← hsince, hissued] at hurl
  exact some_inj.mp hurl

theorem Fit.next (h : Fit s) (ha : s.auths[i]? = some a) (horderly : Orderly s (.next i)) : Fit (s.next i a) := by
  have hfits := h.auths a (mem_of_getElem? ha)
  obtain ⟨hstoring, hnoting, hresending⟩ := horderly a ha
  have hnone : ∀ {P : Discovery → Prop}, ∀ d, none = some d → P d := by
    intro P d hd
    cases hd
  unfold State.next
  split
  · split
    · exact h.setAuth i (hfits.phase rfl)
    refine h.setAuth i (hfits.find (.inl rfl) ?_ fun _ => rfl)
    rw [hfits.row]
    rfl
  next d hphase =>
    have hd : a.discovered = some d := by rw [Auth.discovered, hphase]
    refine Fit.withDiscovery (h.setAuth i (hfits.phase rfl)) (some d) fun d' hd' => ?_
    cases hd'
    exact ⟨hfits.discovered d hd, hnoting d (.inl hphase)⟩
  · exact (h.setAuth i (hfits.phase rfl)).withSignIn _
  next d hphase =>
    have hd : a.discovered = some d := by rw [Auth.discovered, hphase]
    have hfound : { a with phase := .found d }.Fits s.targets :=
      hfits.goOn rfl rfl rfl (.inr rfl) (.inr hd.symm)
    refine Fit.withDiscovery (h.setAuth i hfound) (some d) fun d' hd' => ?_
    cases hd'
    exact ⟨hfits.discovered d hd, hnoting d (.inr hphase)⟩
  next d hphase =>
    exact h.present ha hphase
  · split
    · exact (h.setAuth i (hfits.phase rfl)).withDiscovery none hnone
    · exact (h.setAuth i (hfits.phase rfl)).withDiscovery none hnone
  · split
    · exact h.setAuth i (hfits.phase rfl)
    · exact h.setAuth i (hfits.phase rfl)
    · exact h.setAuth i (hfits.drops rfl)
    · exact h.setAuth i (hfits.drops rfl)
  next tokens hphase =>
    refine (h.setAuth i (hfits.phase (by split <;> rfl))).withTokens _ fun t ht => ?_
    cases ht
    exact ⟨hfits.row, hstoring tokens hphase⟩
  · exact (h.setAuth i (hfits.drops rfl)).withTokens none nofun
  next hphase =>
    refine (h.log fun t ht => ?_).setAuth i (hfits.phase rfl)
    have hmet := hresending t hphase ht
    have hstored : s.tokens = some t := by
      unfold State.resent at ht
      split at ht
      · split at ht
        · cases ht
        · exact (filter_eq_some_iff.mp ht).1
      · cases ht
    have hsince := h.since_eq (s.stamp_tokens hstored) hfits.row hmet
    have hissued := h.tokens t hstored
    rw [hsince, hfits.row] at hissued
    rw [← some_inj.mp hissued]
    rfl
  · refine (h.setAuth i (hfits.phase ?_)).withSignIn none
    split <;> rfl
  · exact (h.setAuth i (hfits.phase rfl)).disconnect
  · exact h

theorem Fit.send (h : Fit s) {x : Connection} (hx : s.connections[c]? = some x)
    (horderly : Orderly s (.send c)) : Fit (s.send x) := by
  unfold State.send
  split
  · exact h
  rename_i hopen
  obtain ⟨hphase, hoauth⟩ := not_or.mp hopen
  have hrow := h.connections x (mem_of_getElem? hx)
  refine h.log fun t ht => ?_
  have hmet := horderly x t hx hphase (not_not.mp hoauth) ht
  have hsince := h.since_eq (s.stamp_tokens ht) hrow hmet
  have hissued := h.tokens t ht
  rw [hsince, hrow] at hissued
  rw [← some_inj.mp hissued]
  rfl

theorem Auth.Fits.answered {targets : List Target} (h : a.Fits targets) (reply : Reply) :
    (a.answered reply).Fits targets := by
  unfold Auth.answered Auth.asksAgain
  split
  · exact h.phase rfl
  · exact h.phase rfl
  · exact h.phase rfl
  · split <;> exact h.phase rfl
  · exact h.phase rfl
  · exact h.phase rfl
  · exact h.phase (by split <;> rfl)
  · exact h.phase rfl

theorem Auth.failed_discovered (a : Auth) : a.failed.discovered = none := by
  unfold Auth.failed Auth.discovered
  dsimp only
  repeat' split
  all_goals first | rfl | (rename_i heq; split at heq <;> cases heq)

theorem Fit.answer (h : Fit s) (ha : s.auths[i]? = some a) (reply : Reply) : Fit (s.answer i a reply) := by
  have hfits := h.auths a (mem_of_getElem? ha)
  unfold State.answer
  split
  · split
    · exact h.setAuth i (hfits.phase rfl)
    · exact h.setAuth i (hfits.answered reply)
  · exact h

theorem Fit.update (h : Fit s) (protocol : JsString → Option JsString) (update : McpServerUpdate) :
    Fit (s.update protocol update) := by
  unfold State.update
  split
  · refine { h with replaced := fun e he => ?_, updates := fun u hu => ?_, swept := ?_ }
    · obtain ⟨u, hu, hended⟩ := h.replaced e he
      exact ⟨u, mem_append_left _ hu, hended⟩
    · rcases mem_concat_cases hu with hu | rfl
      · exact h.updates u hu
      · exact ⟨fun _ => rfl, fun _ => ⟨rfl, rfl⟩⟩
    · intro kind n hn u hu e he hswept
      rcases mem_concat_cases hu with hu | rfl
      · exact h.swept kind n hn u hu e he hswept
      · cases he
  · exact h

theorem Fit.writeRow (h : Fit s) {refused : Bool} (hx : s.updates[u]? = some x)
    (horderly : Orderly s (.writeRow u refused)) : Fit (s.writeRow u x refused) := by
  unfold State.writeRow
  split
  next hphase =>
    refine h.setUpdate hx rfl ⟨fun hp => ?_, nofun⟩ fun _ _ _ => id
    rcases hp with hp | hp <;> cases hp
  next hphase =>
    dsimp only
    split
    next hsame =>
      refine Fit.rewrite (h.setUpdate hx ?_ ⟨fun hp => ?_, fun hp => ?_⟩ fun kind n _ _ => ?_) hsame
      · rfl
      · rcases hp with hp | hp <;> cases hp
      · cases hp
      · rw [Update.Swept, ((h.updates x (mem_of_getElem? hx)).reading hphase).2]
        exact not_mem_nil
    next hother =>
      have hsignsOut := horderly x hx hphase rfl hother
      exact h.replace hx hphase rfl rfl (fun kind => mem_updateWrites hsignsOut) _
  · exact h

/-- A write takes away what it deletes, and nothing else. -/
theorem write_stamp {w : Write} {n : Nat} (h : (s.write w).stamp kind = some n) :
    s.stamp kind = some n ∧ w ≠ .set kind none := by
  constructor
  · unfold State.write at h
    split at h <;> cases kind <;> first | exact h | cases h
  · rintro rfl
    cases kind <;> cases h

theorem Fit.write (h : Fit s) (w : Write) : Fit (s.write w) := by
  unfold State.write
  split
  · exact h.withTokens none nofun
  · exact h.withDiscovery none nofun
  · exact h.withSignIn none
  · exact h

theorem Fit.updateNext (h : Fit s) (hx : s.updates[u]? = some x) : Fit (s.updateNext u x) := by
  have hfits := h.updates x (mem_of_getElem? hx)
  unfold State.updateNext
  split
  next w todo hphase htodo =>
    have hwrite : (s.write w).updates = s.updates := by
      unfold State.write
      split <;> rfl
    refine (h.write w).setUpdate (x := x) (hwrite.symm ▸ hx) rfl ⟨fun hp => ?_, fun hp => ?_⟩ fun kind n hn hswept => ?_
    · rcases hp with hp | hp <;> cases hphase.symm.trans hp
    · cases hphase.symm.trans hp
    · -- what is still stored is not what this write deleted
      rw [Update.Swept, htodo, mem_cons]
      exact not_or.mpr ⟨(write_stamp hn).2.symm, hswept⟩
  next hphase htodo =>
    have hclosed : Fit (if x.changed then s.disconnect else s) ∧
        (if x.changed then s.disconnect else s).updates = s.updates := by
      split
      · refine ⟨h.disconnect, ?_⟩
        unfold State.disconnect
        split <;> rfl
      · exact ⟨h, rfl⟩
    refine hclosed.1.setUpdate (x := x) (hclosed.2.symm ▸ hx) rfl ⟨fun _ => htodo, fun hp => ?_⟩ fun _ _ _ => id
    cases hp
  next hphase =>
    refine h.setUpdate hx rfl ⟨fun _ => hfits.written (.inl hphase), fun hp => ?_⟩ fun _ _ _ => id
    cases hp
  · exact h

theorem Fit.updateFails (h : Fit s) (hx : s.updates[u]? = some x) : Fit (s.updateFails u x) := by
  unfold State.updateFails
  split
  · exact h
  refine h.setUpdate hx rfl ⟨fun hp => ?_, fun hp => ?_⟩ fun _ _ _ => id
  · rcases hp with hp | hp <;> cases hp
  · cases hp

theorem Fit.signOutNext (h : Fit s) (k : Nat) (x : SignOut) : Fit (s.signOutNext k x) := by
  cases x with
  | deleting => exact (h.withSignOuts (s.signOuts.set k .clearing)).withTokens none nofun
  | clearing => exact (h.withSignOuts (s.signOuts.set k .disconnecting)).withSignIn none
  | disconnecting => exact (h.withSignOuts _).disconnect
  | «over» => exact h

theorem Fit.check (h : Fit s) {k : Nat} {x : Use} {expired : Bool} (hx : s.uses[k]? = some x) :
    Fit (s.check k x expired) := by
  have hrow := h.uses x (mem_of_getElem? hx)
  have huses : ∀ y ∈ s.uses.set k { x with checked := true }, s.targets[y.since]? = some (target y.row) := by
    intro y hy
    rcases mem_or_eq_of_mem_set hy with hy | rfl
    · exact h.uses y hy
    · exact hrow
  unfold State.check
  dsimp only
  split
  · exact h
  split
  · exact h.withUses huses
  refine (h.withUses huses).withConnections (fun y hy => ?_) _ _ s.generation
  rcases mem_concat_cases hy with hy | rfl
  · exact h.connections y hy
  · exact hrow

theorem Fit.opened (h : Fit s) {x : Connection} (hx : s.connections[c]? = some x) : Fit (s.opened c x) := by
  unfold State.opened
  split
  · split
    · refine h.withConnections (fun y hy => ?_) _ _ s.generation
      rcases mem_or_eq_of_mem_set hy with hy | rfl
      · exact h.connections y hy
      · exact h.connections x (mem_of_getElem? hx)
    · exact h.close hx
  · exact h

theorem Fit.step (h : Fit s) (protocol : JsString → Option JsString) {e : Event}
    (horderly : Orderly s e) : Fit (step protocol s e) := by
  cases e with
  | startSignIn =>
    simp only [McpTokens.step, State.startSignIn]
    split
    · exact h.begin _ rfl
    · exact h
  | callback i refused =>
    refine onIdx_cases h _ i fun a _ => ?_
    unfold State.callback
    split
    · split
      · exact h.withSignIn none
      · exact h.begin _ rfl
    · exact h
  | refreshAged =>
    simp only [McpTokens.step, State.refreshAged]
    split
    · exact h.begin _ rfl
    · exact h
  | unauthorized c stale => exact onIdx_cases h _ c fun x hx => h.beginOf (mem_of_getElem? hx) _ rfl
  | authorize c => exact onIdx_cases h _ c fun x hx => h.beginOf (mem_of_getElem? hx) _ rfl
  | lock i aged => exact onIdx_cases h _ i fun a ha => h.lock ha horderly
  | ask i enrich => exact onIdx_cases h _ i fun a ha => h.ask ha horderly
  | next i => exact onIdx_cases h _ i fun a ha => h.next ha horderly
  | answer i reply => exact onIdx_cases h _ i fun a ha => h.answer ha reply
  | fails i =>
    exact onIdx_cases h _ i fun a ha =>
      h.setAuth i ((h.auths a (mem_of_getElem? ha)).goOn rfl rfl rfl (.inr rfl) (.inl a.failed_discovered))
  | update update => exact h.update protocol update
  | writeRow u refused => exact onIdx_cases h _ u fun x hx => h.writeRow hx horderly
  | updateNext u => exact onIdx_cases h _ u fun x hx => h.updateNext hx
  | updateFails u => exact onIdx_cases h _ u fun x hx => h.updateFails hx
  | signOut =>
    simp only [McpTokens.step]
    split
    · exact h.withSignOuts _
    · exact h
  | signOutNext k => exact onIdx_cases h _ k fun x _ => h.signOutNext k x
  | disconnect => exact h.disconnect
  | use =>
    refine h.withUses fun x hx => ?_
    rcases mem_concat_cases hx with hx | rfl
    · exact h.uses x hx
    · exact targets_now
  | check k expired => exact onIdx_cases h _ k fun x hx => h.check hx
  | opened c => exact onIdx_cases h _ c fun x hx => h.opened hx
  | drop c => exact onIdx_cases h _ c fun x hx => h.close hx
  | send c => exact onIdx_cases h _ c fun x hx => h.send hx horderly

/-! ## Over a run -/

/-- **Tokens stay with their server**, in a run whose steps are orderly. -/
theorem tokens_stay (protocol : JsString → Option JsString) (row : McpServerFields) (es : List Event)
    (h : Along (step protocol) Orderly (.init row) es) : Always (step protocol) Apart (.init row) es :=
  h.of_invariant Fit (fun _ _ horderly hfit => hfit.step protocol horderly)
    (fun _ _ horderly hfit => (hfit.step protocol horderly).apart) (.init row)

def oauthServer : McpServerFields :=
  { name := js "s", instructions := [], url := js "a", transport := .http, authKind := .oauth, headerName := none
    oauthClientId := none, oauthScope := none, enabled := true }

def firstTokens : OAuthTokens := { accessToken := js "t", refreshToken := some (js "r"), expires := true }

def signsIn : List Event :=
  [.startSignIn, .next 0, .next 0, .next 0, .ask 0 false, .next 0, .answer 0 .error, .callback 0 false, .ask 1 false,
    .next 1, .answer 1 (.issued firstTokens), .next 1, .next 1, .next 1]

/-- An `https` URL, whatever it is. -/
def https (_ : JsString) : Option JsString := some (js "https:")

def moved : McpServerUpdate := { McpServerUpdate.keep with url := some (js "b") }

theorem next_orderly (ha : s.auths[i]? = some a) (hupdates : s.updates = [])
    (hphase : a.phase ≠ .resending) : Orderly s (.next i) := by
  have hunswept : ∀ kind since, Unswept s kind since := by
    intro kind since u hu
    rw [hupdates] at hu
    cases hu
  intro a' ha'
  cases ha.symm.trans ha'
  exact ⟨fun _ _ => hunswept _ _, fun _ _ => hunswept _ _, fun _ hresending => absurd hresending hphase⟩

/-- A sign-in, a connection and a request on it, and then an update of the URL to its end. -/
theorem tokens_stay_one :
    Always (step https) Apart (.init oauthServer)
      (signsIn ++ [.use, .check 0 false, .opened 0, .send 0, .update moved, .writeRow 0 false] ++
        List.replicate 11 (.updateNext 0)) := by
  refine tokens_stay https oauthServer _ ⟨trivial, ?_, ?_, ?_, ?_, ?_, trivial, trivial, ?_, ?_, trivial, ?_, ?_, ?_,
    trivial, trivial, trivial, ?_, trivial, ?_, trivial, trivial, trivial, trivial, trivial, trivial, trivial, trivial,
    trivial, trivial, trivial, trivial⟩
  · exact next_orderly rfl rfl (by decide)
  · exact next_orderly rfl rfl (by decide)
  · exact next_orderly rfl rfl (by decide)
  · intro a d ha _ hpresents
    cases ha
    cases hpresents
  · exact next_orderly rfl rfl (by decide)
  · intro a d ha _ hpresents
    cases ha
    cases hpresents
  · exact next_orderly rfl rfl (by decide)
  · exact next_orderly rfl rfl (by decide)
  · exact next_orderly rfl rfl (by decide)
  · exact next_orderly rfl rfl (by decide)
  · intro x t hx _ _ ht
    cases hx
    cases ht
    exact ⟨Nat.le_refl _, fun u hu => by cases hu⟩
  · intro x hx _ _ _
    cases hx
    decide

/-- A connection is opened once an update has written the URL and not deleted the tokens yet: the new server is
sent the old one's. -/
theorem sent_elsewhere :
    let s := exec (step https) (.init oauthServer)
      (signsIn ++ [.update moved, .writeRow 0 false, .use, .check 0 false, .send 0])
    s.sent = [(⟨firstTokens, ⟨js "a", none⟩, 0⟩, js "b")] ∧ ¬Apart s := by
  intro s
  have hsent : s.sent = [(⟨firstTokens, ⟨js "a", none⟩, 0⟩, js "b")] := by decide
  refine ⟨hsent, fun h => ?_⟩
  have hurl := h.sent ⟨firstTokens, ⟨js "a", none⟩, 0⟩ (js "b") (by rw [hsent]; exact mem_singleton_self _)
  revert hurl
  decide

end Reins.McpTokens
