import Reins.Lib.Places
import Reins.Lib.Run

/-!
# An MCP server's sign-ins (`startMcpSignIn`, `McpServers.finishSignIn`)

The sign-in in progress is kept in the server's row (whose state it is, and its callback URL) and in two
secrets (its PKCE verifier, and the client it registered), each written as its start gets there. A
callback whose state is the row's takes these, one call of the secret storage after another, has the code
exchanged, and then clears them all. A state is known to nobody before its start has given the URL it is
in. `auth` is the SDK's: it asks its provider for the client, then registers one and saves it or goes on,
and tries once more after what the authorization server's refusal had it invalidate.
-/

namespace Reins.McpSignIns

open Run Places List

/-- `StoredClientInformation`. -/
structure Client where
  clientId : String
  redirectUris : Option (List String)
  deriving DecidableEq

def Client.fits (redirectUrl : String) (c : Client) : Bool := c.redirectUris.all (·.contains redirectUrl)

/-! ## Starts and callbacks -/

inductive StartPhase
  | probing
  /-- `auth` asks for the client: the server's, then one a sign-in registered. -/
  | reading
  | readingOwn
  | registering
  | saving (client : Client)
  | authorizing
  | invalidating
  | redirected
  | failed
  deriving DecidableEq

/-- A sign-in from its start; its state and its verifier are its own. -/
structure Start where
  redirectUrl : String
  phase : StartPhase
  client : Option Client
  retried : Bool
  recorded : Option Nat
  deriving DecidableEq

inductive CallbackPhase
  | reading
  | readingOwn
  | verifying
  | exchanging
  | invalidating
  | savingClient
  | savingTokens
  | savingRedirect
  /-- `endSignIn`. -/
  | clearing
  | deletingVerifier
  | deletingClient
  | over
  deriving DecidableEq

structure Callback where
  start : Nat
  redirectUrl : String
  /-- The provider's `client`. -/
  client : Option Client
  retried : Bool
  phase : CallbackPhase
  deriving DecidableEq

/-- A request for tokens, by the sign-in whose state its callback has. -/
structure Exchange where
  start : Nat
  verifier : Nat
  redirectUrl : String
  client : Client
  deriving DecidableEq

structure SignIn where
  start : Nat
  redirectUrl : String
  deriving DecidableEq

structure OwnClient where
  client : Client
  start : Nat
  deriving DecidableEq

structure State where
  /-- The row's `oauthClientId`. -/
  preRegistered : Option Client
  starts : List Start
  callbacks : List Callback
  signIn : Option SignIn
  /-- `code_verifier`, by the sign-in that made it. -/
  verifier : Option Nat
  /-- `sign_in_client_information`. -/
  ownClient : Option OwnClient
  /-- `client_information`. -/
  client : Option Client
  tokens : Option Nat
  oauthRedirectUrl : Option String
  /-- The sign-in recorded last, and how many were. -/
  latest : Option Nat
  count : Nat
  exchanges : List Exchange
  completed : List Nat

def State.init (preRegistered client : Option Client) : State :=
  { preRegistered, starts := [], callbacks := [], signIn := none, verifier := none, ownClient := none, client
    tokens := none, oauthRedirectUrl := none, latest := none, count := 0, exchanges := [], completed := [] }

/-- How a callback's query goes on from its state. -/
inductive Query
  | expired
  /-- `error`, or no code. -/
  | refused
  | code
  deriving DecidableEq

/-- The authorization server's answer to an exchange. -/
inductive Reply
  | issued
  | invalidGrant
  | invalidClient
  | error
  deriving DecidableEq

inductive Event
  | startSignIn (redirectUrl : String)
  | record (i : Nat)
  /-- The next step of a start's that waits for the storage only. -/
  | startNext (i : Nat)
  | registered (i : Nat) (client : Client)
  /-- The registration is refused so that `auth` invalidates the credentials and tries again. -/
  | unregistered (i : Nat)
  | startFails (i : Nat)
  | callback (i : Nat) (query : Query)
  | next (b : Nat)
  | reply (b : Nat) (reply : Reply)
  /-- A call of the storage rejects, or the rest of the SDK's does. -/
  | fails (b : Nat)

def State.setStart (s : State) (i : Nat) (x : Start) : State := { s with starts := s.starts.set i x }

def State.setCallback (s : State) (b : Nat) (x : Callback) : State := { s with callbacks := s.callbacks.set b x }

def State.startSignIn (s : State) (redirectUrl : String) : State :=
  { s with starts := s.starts ++ [⟨redirectUrl, .probing, none, false, none⟩] }

variable {s : State} {x : Callback} {b i : Nat} {e : Event} {redirectUrl : String} {c : Client}

/-- `beginSignIn`. -/
def State.record (s : State) (i : Nat) (x : Start) : State :=
  match x.phase with
  | .probing =>
    { s.setStart i { x with phase := .reading, recorded := some s.count } with
      signIn := some ⟨i, x.redirectUrl⟩
      latest := some i
      count := s.count + 1 }
  | _ => s

def State.authorize (s : State) (i : Nat) (x : Start) (client : Client) : State :=
  s.setStart i { x with phase := .authorizing, client := some client }

def State.startNext (s : State) (i : Nat) (x : Start) : State :=
  match x.phase with
  | .reading =>
    match s.preRegistered with
    | some client => s.authorize i x client
    | none =>
      match s.client.filter (·.fits x.redirectUrl) with
      | some client => s.authorize i x client
      | none => s.setStart i { x with phase := .readingOwn }
  | .readingOwn =>
    match (s.ownClient.map (·.client)).filter (·.fits x.redirectUrl) with
    | some client => s.authorize i x client
    | none => s.setStart i { x with phase := .registering }
  | .saving client => { s.authorize i x client with ownClient := some ⟨client, i⟩ }
  | .authorizing => { s.setStart i { x with phase := .redirected } with verifier := some i }
  | .invalidating => { s.setStart i { x with phase := .reading } with ownClient := none }
  | _ => s

def State.registered (s : State) (i : Nat) (x : Start) (client : Client) : State :=
  match x.phase with
  | .registering => s.setStart i { x with phase := .saving client }
  | _ => s

def State.unregistered (s : State) (i : Nat) (x : Start) : State :=
  match x.phase, x.retried with
  | .registering, false => s.setStart i { x with phase := .invalidating, retried := true }
  | _, _ => s

def State.startFails (s : State) (i : Nat) (x : Start) : State :=
  match x.phase with
  | .redirected | .failed => s
  | _ => s.setStart i { x with phase := .failed }

/-- `findSignIn`, and what follows at once. -/
def State.callback (s : State) (i : Nat) (x : Start) (query : Query) : State :=
  match s.signIn, x.phase with
  | some signIn, .redirected =>
    if signIn.start ≠ i then s
    else
      match query with
      | .code => { s with callbacks := s.callbacks ++ [⟨i, signIn.redirectUrl, none, false, .reading⟩] }
      | .expired | .refused =>
        { s with
          callbacks := s.callbacks ++ [⟨i, signIn.redirectUrl, none, false, .deletingVerifier⟩]
          signIn := none }
  | _, _ => s

def State.take (s : State) (b : Nat) (x : Callback) (client : Client) : State :=
  s.setCallback b { x with phase := .verifying, client := some client }

/-- An exchange ends without tokens. -/
def State.giveUp (s : State) (b : Nat) (x : Callback) : State := s.setCallback b { x with phase := .clearing }

def State.next (s : State) (b : Nat) (x : Callback) : State :=
  match x.phase with
  | .reading =>
    match s.preRegistered with
    | some client => s.take b x client
    | none =>
      match s.client.filter (·.fits x.redirectUrl) with
      | some client => s.take b x client
      | none => s.setCallback b { x with phase := .readingOwn }
  | .readingOwn =>
    match (s.ownClient.map (·.client)).filter (·.fits x.redirectUrl) with
    | some client => s.take b x client
    | none => s.giveUp b x
  | .verifying =>
    match s.verifier, x.client with
    | some verifier, some client =>
      { s.setCallback b { x with phase := .exchanging } with
        exchanges := s.exchanges ++ [⟨x.start, verifier, x.redirectUrl, client⟩] }
    | _, _ => s.giveUp b x
  | .invalidating => { s.setCallback b { x with phase := .reading, client := none } with ownClient := none }
  | .savingClient =>
    match s.preRegistered, x.client with
    | none, some client => { s.setCallback b { x with phase := .savingTokens } with client := some client }
    | _, _ => s.setCallback b { x with phase := .savingTokens }
  | .savingTokens => { s.setCallback b { x with phase := .savingRedirect } with tokens := some x.start }
  | .savingRedirect => { s.setCallback b { x with phase := .clearing } with oauthRedirectUrl := some x.redirectUrl }
  | .clearing => { s.setCallback b { x with phase := .deletingVerifier } with signIn := none }
  | .deletingVerifier => { s.setCallback b { x with phase := .deletingClient } with verifier := none }
  | .deletingClient => { s.setCallback b { x with phase := .over } with ownClient := none }
  | .exchanging | .over => s

def State.reply (s : State) (b : Nat) (x : Callback) (reply : Reply) : State :=
  match x.phase with
  | .exchanging =>
    match reply, x.retried with
    | .issued, _ => { s.setCallback b { x with phase := .savingClient } with completed := s.completed ++ [x.start] }
    | .invalidGrant, false => s.setCallback b { x with phase := .verifying, retried := true }
    | .invalidClient, false => s.setCallback b { x with phase := .invalidating, retried := true }
    | _, _ => s.giveUp b x
  | _ => s

def State.fails (s : State) (b : Nat) (x : Callback) : State :=
  match x.phase with
  | .clearing | .over => s
  | .deletingVerifier | .deletingClient => s.setCallback b { x with phase := .over }
  | _ => s.giveUp b x

def State.onStart (s : State) (i : Nat) (f : Start → State) : State :=
  match s.starts[i]? with
  | some x => f x
  | none => s

def State.onCallback (s : State) (b : Nat) (f : Callback → State) : State :=
  match s.callbacks[b]? with
  | some x => f x
  | none => s

def step (s : State) : Event → State
  | .startSignIn redirectUrl => s.startSignIn redirectUrl
  | .record i => s.onStart i fun x => s.record i x
  | .startNext i => s.onStart i fun x => s.startNext i x
  | .registered i client => s.onStart i fun x => s.registered i x client
  | .unregistered i => s.onStart i fun x => s.unregistered i x
  | .startFails i => s.onStart i fun x => s.startFails i x
  | .callback i query => s.onStart i fun x => s.callback i x query
  | .next b => s.onCallback b fun x => s.next b x
  | .reply b reply => s.onCallback b fun x => s.reply b x reply
  | .fails b => s.onCallback b fun x => s.fails b x

/-! ## What is promised -/

def Uses (s : State) : Prop :=
  ∀ x ∈ s.exchanges, ∃ start, s.starts[x.start]? = some start ∧ x.verifier = x.start ∧
    x.redirectUrl = start.redirectUrl ∧ start.client = some x.client

def OnlyLatest (s : State) (e : Event) : Prop :=
  (∀ i, (step s e).completed = s.completed ++ [i] → s.latest = some i) ∧
    ((step s e).tokens ≠ s.tokens → (step s e).tokens = s.latest)

def State.newer (s : State) (m i : Nat) : Prop :=
  ∃ (x y : Start) (n n' : Nat), s.starts[m]? = some x ∧ s.starts[i]? = some y ∧ x.recorded = some n ∧
    y.recorded = some n' ∧ n' < n

def State.ends (s : State) : Event → Option Nat
  | .startNext i | .callback i _ => some i
  | .next b | .reply b _ | .fails b => (s.callbacks[b]?).map (·.start)
  | _ => none

def Spares (s : State) (e : Event) : Prop :=
  ∀ i, s.ends e = some i →
    (∀ signIn, s.signIn = some signIn → (step s e).signIn ≠ some signIn → ¬s.newer signIn.start i) ∧
    (∀ m, s.verifier = some m → (step s e).verifier ≠ some m → ¬s.newer m i) ∧
    (∀ own, s.ownClient = some own → (step s e).ownClient ≠ some own → ¬s.newer own.start i)

structure Sound (s : State) (e : Event) : Prop where
  once : (step s e).completed.Nodup
  uses : Uses (step s e)
  latest : OnlyLatest s e
  spares : Spares s e

def StartPhase.writes : StartPhase → Bool
  | .saving _ | .authorizing | .invalidating => true
  | _ => false

/-- A callback's step that presents or writes what is stored of the sign-in. -/
def CallbackPhase.touches : CallbackPhase → Bool
  | .reading | .readingOwn | .exchanging | .over => false
  | _ => true

/-- A start writes, and a callback has its code exchanged, keeps what was issued and clears the sign-in, only
while no newer sign-in is recorded; and no code comes for a state while another callback of that state is
not over. -/
def Orderly (s : State) : Event → Prop
  | .startNext i => ∀ x, s.starts[i]? = some x → x.phase.writes = true → s.latest = some i
  | .callback i .code => ∀ signIn, s.signIn = some signIn → signIn.start = i →
      ∀ x ∈ s.callbacks, x.start = i → x.phase = .over
  | .next b => ∀ x, s.callbacks[b]? = some x → x.phase.touches = true → s.latest = some x.start
  | .reply b .issued => ∀ x, s.callbacks[b]? = some x → x.phase = .exchanging → s.latest = some x.start
  | _ => True

/-! ## What every run keeps -/

structure Kept (s : State) : Prop where
  recorded : ∀ (i : Nat) (x : Start) (n : Nat), s.starts[i]? = some x → x.recorded = some n → n < s.count
  latest : ∀ i, s.latest = some i → ∃ (x : Start) (n : Nat), s.starts[i]? = some x ∧ x.phase ≠ .probing ∧
    x.recorded = some n ∧ n + 1 = s.count
  signIn : ∀ signIn, s.signIn = some signIn → s.latest = some signIn.start ∧
    ∃ x, s.starts[signIn.start]? = some x ∧ signIn.redirectUrl = x.redirectUrl
  callbacks : ∀ y ∈ s.callbacks, ∃ x, s.starts[y.start]? = some x ∧ x.phase = .redirected ∧ y.redirectUrl = x.redirectUrl

theorem Kept.init (preRegistered client : Option Client) : Kept (.init preRegistered client) := by
  constructor
  · exact nofun
  · exact nofun
  · exact nofun
  · exact nofun

theorem Kept.newest (h : Kept s) (hi : s.latest = some i) (m : Nat) : ¬s.newer m i := by
  rintro ⟨x, y, n, n', hx, hy, hn, hn', hlt⟩
  obtain ⟨y', k, hy', -, hk, hcount⟩ := h.latest i hi
  cases hy.symm.trans hy'
  cases hn'.symm.trans hk
  have hle := h.recorded m x n hx hn
  omega

theorem Kept.setStart (h : Kept s) {x y : Start} (hx : s.starts[i]? = some x)
    (hurl : y.redirectUrl = x.redirectUrl) (hrecorded : y.recorded = x.recorded)
    (hprobing : y.phase = .probing → x.phase = .probing) (hredirected : x.phase ≠ .redirected) :
    Kept (s.setStart i y) := by
  have hother : ∀ {j : Nat} {z : Start}, s.starts[j]? = some z → j ≠ i → (s.starts.set i y)[j]? = some z :=
    fun hz hne => (getElem?_set_ne (Ne.symm hne)).trans hz
  have hself : (s.starts.set i y)[i]? = some y := getElem?_set_self (lt_of_getElem? hx)
  constructor
  · intro j z n hz hn
    rcases getElem?_set_cases hz with ⟨rfl, rfl⟩ | ⟨-, hz⟩
    · exact h.recorded _ x n hx (hrecorded ▸ hn)
    · exact h.recorded j z n hz hn
  · intro j hj
    obtain ⟨z, n, hz, hphase, hn, hcount⟩ := h.latest j hj
    by_cases hji : j = i
    · subst hji
      cases hx.symm.trans hz
      exact ⟨y, n, hself, fun hy => hphase (hprobing hy), hrecorded.trans hn, hcount⟩
    · exact ⟨z, n, hother hz hji, hphase, hn, hcount⟩
  · intro signIn hsignIn
    obtain ⟨hlatest, z, hz, hzurl⟩ := h.signIn signIn hsignIn
    refine ⟨hlatest, ?_⟩
    by_cases hji : signIn.start = i
    · rw [hji] at hz ⊢
      cases hx.symm.trans hz
      exact ⟨y, hself, hzurl.trans hurl.symm⟩
    · exact ⟨z, hother hz hji, hzurl⟩
  · intro b hb
    obtain ⟨z, hz, hphase, hzurl⟩ := h.callbacks b hb
    have hji : b.start ≠ i := by
      intro hji
      rw [hji] at hz
      cases hx.symm.trans hz
      exact hredirected hphase
    exact ⟨z, hother hz hji, hphase, hzurl⟩

/-- Stored secrets, tokens and what was asked have no part in it. -/
theorem Kept.congr {s' : State} (h : Kept s) (hstarts : s'.starts = s.starts) (hlatest : s'.latest = s.latest)
    (hcount : s'.count = s.count) (hsignIn : s'.signIn = s.signIn ∨ s'.signIn = none)
    (hcallbacks : ∀ y ∈ s'.callbacks, ∃ z ∈ s.callbacks, y.start = z.start ∧ y.redirectUrl = z.redirectUrl) :
    Kept s' := by
  constructor
  · rw [hstarts, hcount]
    exact h.recorded
  · rw [hstarts, hcount, hlatest]
    exact h.latest
  · intro signIn hs
    rw [hstarts, hlatest]
    rcases hsignIn with heq | hnone
    · exact h.signIn signIn (heq ▸ hs)
    · cases hnone.symm.trans hs
  · intro y hy
    obtain ⟨z, hz, hstart, hurl⟩ := hcallbacks y hy
    rw [hstarts, hstart, hurl]
    exact h.callbacks z hz

theorem mem_setCallback {y : Callback} (hx : s.callbacks[b]? = some x)
    (hstart : y.start = x.start) (hurl : y.redirectUrl = x.redirectUrl) :
    ∀ z ∈ (s.setCallback b y).callbacks, ∃ z' ∈ s.callbacks, z.start = z'.start ∧ z.redirectUrl = z'.redirectUrl := by
  intro z hz
  rcases mem_or_eq_of_mem_set hz with hz | rfl
  · exact ⟨z, hz, rfl, rfl⟩
  · exact ⟨x, mem_of_getElem? hx, hstart, hurl⟩

theorem Kept.record (h : Kept s) {x : Start} (hx : s.starts[i]? = some x) : Kept (s.record i x) := by
  unfold State.record
  split
  next hphase =>
    have hother : ∀ {j : Nat} {z : Start}, s.starts[j]? = some z → j ≠ i →
        (s.starts.set i { x with phase := .reading, recorded := some s.count })[j]? = some z :=
      fun hz hne => (getElem?_set_ne (Ne.symm hne)).trans hz
    have hself : (s.starts.set i { x with phase := .reading, recorded := some s.count })[i]? = _ :=
      getElem?_set_self (lt_of_getElem? hx)
    constructor
    · intro j z n hz hn
      rcases getElem?_set_cases hz with ⟨rfl, rfl⟩ | ⟨-, hz⟩
      · cases hn
        exact Nat.lt_succ_self _
      · exact Nat.lt_succ_of_lt (h.recorded j z n hz hn)
    · intro j hj
      cases hj
      exact ⟨_, s.count, hself, nofun, rfl, rfl⟩
    · intro signIn hsignIn
      cases hsignIn
      exact ⟨rfl, _, hself, rfl⟩
    · intro b hb
      obtain ⟨z, hz, hzphase, hzurl⟩ := h.callbacks b hb
      have hji : b.start ≠ i := by
        intro hji
        rw [hji] at hz
        cases hx.symm.trans hz
        cases hphase.symm.trans hzphase
      exact ⟨z, hother hz hji, hzphase, hzurl⟩
  · exact h

theorem Kept.startSignIn (h : Kept s) (redirectUrl : String) : Kept (s.startSignIn redirectUrl) := by
  constructor
  · intro i x n hx hn
    rcases getElem?_concat_cases hx with hx | ⟨-, rfl⟩
    · exact h.recorded i x n hx hn
    · cases hn
  · intro i hi
    obtain ⟨x, n, hx, hrest⟩ := h.latest i hi
    exact ⟨x, n, getElem?_append_some hx _, hrest⟩
  · intro signIn hsignIn
    obtain ⟨hlatest, x, hx, hurl⟩ := h.signIn signIn hsignIn
    exact ⟨hlatest, x, getElem?_append_some hx _, hurl⟩
  · intro y hy
    obtain ⟨x, hx, hrest⟩ := h.callbacks y hy
    exact ⟨x, getElem?_append_some hx _, hrest⟩

theorem Kept.startNext (h : Kept s) {x : Start} (hx : s.starts[i]? = some x) : Kept (s.startNext i x) := by
  have hset : ∀ (phase : StartPhase) (client : Option Client), x.phase ≠ .redirected → phase ≠ .probing →
      Kept (s.setStart i { x with phase, client }) := fun phase client hnot hphase =>
    h.setStart hx rfl rfl (fun hprobing => absurd hprobing hphase) hnot
  have hwith : ∀ (phase : StartPhase) (client : Option Client) (verifier : Option Nat) (ownClient : Option OwnClient),
      x.phase ≠ .redirected → phase ≠ .probing →
      Kept { s.setStart i { x with phase, client } with verifier, ownClient } := by
    intro phase client verifier ownClient hnot hphase
    exact (hset phase client hnot hphase).congr rfl rfl rfl (.inl rfl) fun y hy => ⟨y, hy, rfl, rfl⟩
  unfold State.startNext
  split
  next hphase =>
    have hnot : x.phase ≠ .redirected := fun hr => by cases hphase.symm.trans hr
    split
    · exact hset _ _ hnot nofun
    split
    · exact hset _ _ hnot nofun
    · exact hset _ _ hnot nofun
  next hphase =>
    have hnot : x.phase ≠ .redirected := fun hr => by cases hphase.symm.trans hr
    split
    · exact hset _ _ hnot nofun
    · exact hset _ _ hnot nofun
  next client hphase =>
    exact hwith _ _ s.verifier _ (fun hr => by cases hphase.symm.trans hr) nofun
  next hphase =>
    exact hwith _ _ _ s.ownClient (fun hr => by cases hphase.symm.trans hr) nofun
  next hphase =>
    exact hwith _ _ s.verifier _ (fun hr => by cases hphase.symm.trans hr) nofun
  · exact h

theorem Kept.callback (h : Kept s) {x : Start} (hx : s.starts[i]? = some x) (query : Query) :
    Kept (s.callback i x query) := by
  unfold State.callback
  split
  next signIn hsignIn hphase =>
    split
    · exact h
    rename_i hstart
    have hstart := not_not.mp hstart
    obtain ⟨-, z, hz, hurl⟩ := h.signIn signIn hsignIn
    rw [hstart, hx] at hz
    cases hz
    have hcallback : ∀ (phase : CallbackPhase) (pending : Option SignIn), pending = s.signIn ∨ pending = none →
        Kept { s with
          callbacks := s.callbacks ++ [⟨i, signIn.redirectUrl, none, false, phase⟩], signIn := pending } := by
      intro phase pending hpending
      have hkept : Kept { s with signIn := pending } := h.congr rfl rfl rfl hpending fun y hy => ⟨y, hy, rfl, rfl⟩
      refine { hkept with callbacks := ?_ }
      intro y hy
      rcases mem_concat_cases hy with hy | rfl
      · exact h.callbacks y hy
      · exact ⟨x, hx, hphase, hurl⟩
    split
    · exact hcallback _ s.signIn (.inl rfl)
    · exact hcallback _ none (.inr rfl)
    · exact hcallback _ none (.inr rfl)
  · exact h

theorem Kept.next (h : Kept s) (hx : s.callbacks[b]? = some x) : Kept (s.next b x) := by
  have hset : ∀ y : Callback, y.start = x.start → y.redirectUrl = x.redirectUrl → Kept (s.setCallback b y) :=
    fun y hstart hurl => h.congr rfl rfl rfl (.inl rfl) (mem_setCallback hx hstart hurl)
  unfold State.next State.take State.giveUp
  split
  · split
    · exact hset _ rfl rfl
    split
    · exact hset _ rfl rfl
    · exact hset _ rfl rfl
  · split
    · exact hset _ rfl rfl
    · exact hset _ rfl rfl
  · split
    · exact h.congr rfl rfl rfl (.inl rfl) (mem_setCallback hx rfl rfl)
    · exact hset _ rfl rfl
  · exact h.congr rfl rfl rfl (.inl rfl) (mem_setCallback hx rfl rfl)
  · split
    · exact h.congr rfl rfl rfl (.inl rfl) (mem_setCallback hx rfl rfl)
    · exact hset _ rfl rfl
  · exact h.congr rfl rfl rfl (.inl rfl) (mem_setCallback hx rfl rfl)
  · exact h.congr rfl rfl rfl (.inl rfl) (mem_setCallback hx rfl rfl)
  · exact h.congr rfl rfl rfl (.inr rfl) (mem_setCallback hx rfl rfl)
  · exact h.congr rfl rfl rfl (.inl rfl) (mem_setCallback hx rfl rfl)
  · exact h.congr rfl rfl rfl (.inl rfl) (mem_setCallback hx rfl rfl)
  · exact h
  · exact h

theorem Kept.reply (h : Kept s) (hx : s.callbacks[b]? = some x) (reply : Reply) : Kept (s.reply b x reply) := by
  unfold State.reply State.giveUp
  split
  · split
    · exact h.congr rfl rfl rfl (.inl rfl) (mem_setCallback hx rfl rfl)
    · exact h.congr rfl rfl rfl (.inl rfl) (mem_setCallback hx rfl rfl)
    · exact h.congr rfl rfl rfl (.inl rfl) (mem_setCallback hx rfl rfl)
    · exact h.congr rfl rfl rfl (.inl rfl) (mem_setCallback hx rfl rfl)
  · exact h

theorem Kept.fails (h : Kept s) (hx : s.callbacks[b]? = some x) : Kept (s.fails b x) := by
  unfold State.fails State.giveUp
  split
  · exact h
  · exact h
  · exact h.congr rfl rfl rfl (.inl rfl) (mem_setCallback hx rfl rfl)
  · exact h.congr rfl rfl rfl (.inl rfl) (mem_setCallback hx rfl rfl)
  · exact h.congr rfl rfl rfl (.inl rfl) (mem_setCallback hx rfl rfl)

theorem onStart_cases {P : State → Prop} (h : P s) (i : Nat) {f : Start → State}
    (hf : ∀ x, s.starts[i]? = some x → P (f x)) : P (s.onStart i f) := by
  unfold State.onStart
  split
  next x hx =>
    exact hf x hx
  · exact h

theorem onCallback_cases {P : State → Prop} (h : P s) (b : Nat) {f : Callback → State}
    (hf : ∀ x, s.callbacks[b]? = some x → P (f x)) : P (s.onCallback b f) := by
  unfold State.onCallback
  split
  next x hx =>
    exact hf x hx
  · exact h

theorem Kept.step (h : Kept s) (e : Event) : Kept (step s e) := by
  cases e with
  | startSignIn redirectUrl => exact h.startSignIn redirectUrl
  | record i => exact onStart_cases h i fun x hx => h.record hx
  | startNext i => exact onStart_cases h i fun x hx => h.startNext hx
  | registered i client =>
    refine onStart_cases h i fun x hx => ?_
    unfold State.registered
    split
    next hphase =>
      exact h.setStart hx rfl rfl nofun fun hr => by cases hphase.symm.trans hr
    · exact h
  | unregistered i =>
    refine onStart_cases h i fun x hx => ?_
    unfold State.unregistered
    split
    next hphase _ =>
      exact h.setStart hx rfl rfl nofun fun hr => by cases hphase.symm.trans hr
    · exact h
  | startFails i =>
    refine onStart_cases h i fun x hx => ?_
    unfold State.startFails
    split
    · exact h
    · exact h
    next hnot _ =>
      exact h.setStart hx rfl rfl nofun hnot
  | callback i query => exact onStart_cases h i fun x hx => h.callback hx query
  | next b => exact onCallback_cases h b fun x hx => h.next hx
  | reply b reply => exact onCallback_cases h b fun x hx => h.reply hx reply
  | fails b => exact onCallback_cases h b fun x hx => h.fails hx

/-! ## What an orderly run keeps -/

def State.NoFit (s : State) (redirectUrl : String) : Prop := ∀ c, s.client = some c → c.fits redirectUrl = false

def State.Offers (s : State) (redirectUrl : String) (client : Client) : Prop :=
  (∀ c, s.preRegistered = some c → c = client) ∧
    (s.preRegistered = none → ∀ c, s.client = some c → c.fits redirectUrl = true → c = client) ∧
    (s.preRegistered = none → s.NoFit redirectUrl →
      ∀ own, s.ownClient = some own → own.client.fits redirectUrl = true → own.client = client)

/-- It is to register a client, having found none. -/
def StartPhase.choosing : StartPhase → Bool
  | .readingOwn | .registering | .saving _ | .invalidating => true
  | _ => false

def StartPhase.chosen : StartPhase → Bool
  | .authorizing | .redirected => true
  | _ => false

/-- It has had no tokens issued yet. -/
def CallbackPhase.before : CallbackPhase → Bool
  | .reading | .readingOwn | .verifying | .exchanging | .invalidating => true
  | _ => false

/-- Its code may be exchanged, or was, and its sign-in is not cleared. -/
def CallbackPhase.live : CallbackPhase → Bool
  | .deletingVerifier | .deletingClient | .over => false
  | _ => true

structure Fit (s : State) : Prop where
  verifier : ∀ (k : Nat) (x : Start), s.latest = some k → s.starts[k]? = some x → x.phase = .redirected →
    s.verifier = none ∨ s.verifier = some k
  chosen : ∀ (k : Nat) (x : Start), s.latest = some k → s.starts[k]? = some x → x.phase.chosen = true →
    ∃ c, x.client = some c ∧ s.Offers x.redirectUrl c
  unfit : ∀ (k : Nat) (x : Start), s.latest = some k → s.starts[k]? = some x → x.phase.choosing = true →
    s.preRegistered = none ∧ s.NoFit x.redirectUrl
  client : ∀ y ∈ s.callbacks, ∀ c, y.client = some c → s.latest = some y.start →
    ∃ x, s.starts[y.start]? = some x ∧ x.client = some c
  found : ∀ y ∈ s.callbacks, y.phase = .readingOwn → s.latest = some y.start →
    s.preRegistered = none ∧ s.NoFit y.redirectUrl
  single : ∀ (b b' : Nat) (y z : Callback), s.callbacks[b]? = some y → s.callbacks[b']? = some z → y.start = z.start →
    y.phase.live = true → z.phase.live = true → b = b'
  once : s.completed.Nodup
  spent : ∀ i ∈ s.completed, (∀ y ∈ s.callbacks, y.start = i → y.phase.before = false) ∧ ∃ y ∈ s.callbacks, y.start = i
  cleared : ∀ y ∈ s.callbacks, y.phase.live = false → ∀ signIn, s.signIn = some signIn → signIn.start ≠ y.start
  uses : ∀ x ∈ s.exchanges, ∃ start, s.starts[x.start]? = some start ∧ start.phase = .redirected ∧
    x.verifier = x.start ∧ x.redirectUrl = start.redirectUrl ∧ start.client = some x.client

theorem Fit.init (preRegistered client : Option Client) : Fit (.init preRegistered client) := by
  constructor
  · intro k x hk
    cases hk
  · intro k x hk
    cases hk
  · intro k x hk
    cases hk
  · intro y hy
    cases hy
  · intro y hy
    cases hy
  · intro b b' y z hy
    cases hy
  · exact nodup_nil
  · exact nofun
  · exact nofun
  · exact nofun

theorem Fit.setStart (h : Fit s) (hkept : Kept s) {x y : Start} (hx : s.starts[i]? = some x)
    (hnot : x.phase ≠ .redirected)
    (hverifier : s.latest = some i → y.phase = .redirected → s.verifier = none ∨ s.verifier = some i)
    (hchosen : s.latest = some i → y.phase.chosen = true → ∃ c, y.client = some c ∧ s.Offers y.redirectUrl c)
    (hunfit : s.latest = some i → y.phase.choosing = true → s.preRegistered = none ∧ s.NoFit y.redirectUrl) :
    Fit (s.setStart i y) := by
  have hother : ∀ {j : Nat} {z : Start}, s.starts[j]? = some z → z.phase = .redirected →
      (s.starts.set i y)[j]? = some z := by
    intro j z hz hphase
    have hji : j ≠ i := by
      rintro rfl
      cases hx.symm.trans hz
      exact hnot hphase
    exact (getElem?_set_ne (Ne.symm hji)).trans hz
  refine { h with verifier := ?_, chosen := ?_, unfit := ?_, client := ?_, uses := ?_ }
  · intro k z hk hz hphase
    rcases getElem?_set_cases hz with ⟨rfl, rfl⟩ | ⟨-, hz⟩
    · exact hverifier hk hphase
    · exact h.verifier k z hk hz hphase
  · intro k z hk hz hphase
    rcases getElem?_set_cases hz with ⟨rfl, rfl⟩ | ⟨-, hz⟩
    · exact hchosen hk hphase
    · exact h.chosen k z hk hz hphase
  · intro k z hk hz hphase
    rcases getElem?_set_cases hz with ⟨rfl, rfl⟩ | ⟨-, hz⟩
    · exact hunfit hk hphase
    · exact h.unfit k z hk hz hphase
  · intro b hb c hc hlatest
    obtain ⟨z, hz, hzc⟩ := h.client b hb c hc hlatest
    obtain ⟨z', hz', hphase, -⟩ := hkept.callbacks b hb
    cases hz.symm.trans hz'
    exact ⟨z, hother hz hphase, hzc⟩
  · intro a ha
    obtain ⟨z, hz, hphase, hrest⟩ := h.uses a ha
    exact ⟨z, hother hz hphase, hphase, hrest⟩

theorem Fit.setVerifier (h : Fit s) (verifier : Option Nat)
    (hv : ∀ (k : Nat) (x : Start), s.latest = some k → s.starts[k]? = some x → x.phase = .redirected →
      verifier = none ∨ verifier = some k) : Fit { s with verifier } :=
  { h with verifier := hv }

theorem Fit.setOwnClient (h : Fit s) (ownClient : Option OwnClient)
    (ho : ∀ (k : Nat) (x : Start), s.latest = some k → s.starts[k]? = some x → x.phase.chosen = true →
      ∀ own, ownClient = some own → s.ownClient = some own) : Fit { s with ownClient } := by
  refine { h with chosen := ?_ }
  intro k x hk hx hphase
  obtain ⟨c, hc, hpre, hclient, hown⟩ := h.chosen k x hk hx hphase
  exact ⟨c, hc, hpre, hclient, fun hnone hfit own ho' => hown hnone hfit own (ho k x hk hx hphase own ho')⟩

theorem filter_some {o : Option Client}
    (h : o.filter (·.fits redirectUrl) = some c) : o = some c ∧ c.fits redirectUrl = true :=
  Option.filter_eq_some_iff.mp h

theorem noFit_of_filter (h : s.client.filter (·.fits redirectUrl) = none) : s.NoFit redirectUrl := by
  intro c hc
  rw [hc] at h
  exact Bool.eq_false_iff.mpr fun hfit => by simp [Option.filter, hfit] at h

/-- What `auth` finds as its client is what a callback will. -/
theorem offers_client (hpre : s.preRegistered = none)
    (h : s.client.filter (·.fits redirectUrl) = some c) : s.Offers redirectUrl c := by
  obtain ⟨hc, hfit⟩ := filter_some h
  refine ⟨fun p hp => (by cases hpre.symm.trans hp), ?_, ?_⟩
  · intro _ c' hc' _
    exact Option.some_inj.mp (hc'.symm.trans hc)
  · intro _ hno
    exact absurd (hno c hc) (by simp [hfit])

theorem offers_own {o : Option OwnClient}
    (hpre : s.preRegistered = none) (hno : s.NoFit redirectUrl) (h : ∀ own, o = some own → own.client = c) :
    State.Offers { s with ownClient := o } redirectUrl c := by
  refine ⟨fun p hp => (by cases hpre.symm.trans hp), ?_, ?_⟩
  · intro _ c' hc' hfit
    exact absurd (hno c' hc') (by simp [hfit])
  · intro _ _ own hown _
    exact h own hown

theorem Fit.startNext (h : Fit s) (hkept : Kept s) {x : Start} (hx : s.starts[i]? = some x)
    (horderly : Orderly s (.startNext i)) : Fit (s.startNext i x) := by
  unfold State.startNext
  split
  next hphase =>
    have hnot : x.phase ≠ .redirected := fun hr => by cases hphase.symm.trans hr
    split
    next c hpre =>
      refine h.setStart hkept hx hnot nofun (fun _ _ => ⟨c, rfl, ?_, ?_, ?_⟩) nofun
      · intro p hp
        exact Option.some_inj.mp (hp.symm.trans hpre)
      · intro hnone
        cases hpre.symm.trans hnone
      · intro hnone
        cases hpre.symm.trans hnone
    next hpre =>
      split
      next c hc =>
        exact h.setStart hkept hx hnot nofun (fun _ _ => ⟨c, rfl, offers_client hpre hc⟩)
          nofun
      next hno =>
        exact h.setStart hkept hx hnot nofun nofun fun _ _ => ⟨hpre, noFit_of_filter hno⟩
  next hphase =>
    have hnot : x.phase ≠ .redirected := fun hr => by cases hphase.symm.trans hr
    have hunfit : s.latest = some i → s.preRegistered = none ∧ s.NoFit x.redirectUrl :=
      fun hk => h.unfit i x hk hx (hphase ▸ rfl)
    split
    next c hc =>
      refine h.setStart hkept hx hnot nofun (fun hk _ => ⟨c, rfl, ?_⟩) nofun
      obtain ⟨hpre, hno⟩ := hunfit hk
      refine offers_own hpre hno fun own hown => ?_
      have hmap := (filter_some hc).1
      rw [hown] at hmap
      exact Option.some_inj.mp hmap
    · exact h.setStart hkept hx hnot nofun nofun fun hk _ => hunfit hk
  next client hphase =>
    have hnot : x.phase ≠ .redirected := fun hr => by cases hphase.symm.trans hr
    have hk : s.latest = some i := horderly x hx (hphase ▸ rfl)
    obtain ⟨hpre, hno⟩ := h.unfit i x hk hx (hphase ▸ rfl)
    have hown : Fit { s with ownClient := some ⟨client, i⟩ } := by
      refine h.setOwnClient _ fun k z hk' hz hchosen => ?_
      cases hk.symm.trans hk'
      cases hx.symm.trans hz
      rw [hphase] at hchosen
      cases hchosen
    have hkept' : Kept { s with ownClient := some ⟨client, i⟩ } :=
      hkept.congr rfl rfl rfl (.inl rfl) fun y hy => ⟨y, hy, rfl, rfl⟩
    refine hown.setStart hkept' hx hnot nofun (fun _ _ => ⟨client, rfl, ?_⟩) nofun
    refine offers_own hpre hno fun own hown => ?_
    cases hown
    rfl
  next hphase =>
    have hnot : x.phase ≠ .redirected := fun hr => by cases hphase.symm.trans hr
    have hk : s.latest = some i := horderly x hx (hphase ▸ rfl)
    have hverifier : Fit { s with verifier := some i } := by
      refine h.setVerifier _ fun k z hk' hz _ => .inr ?_
      exact hk.symm.trans hk'
    have hkept' : Kept { s with verifier := some i } := hkept.congr rfl rfl rfl (.inl rfl) fun y hy => ⟨y, hy, rfl, rfl⟩
    refine hverifier.setStart hkept' hx hnot (fun _ _ => .inr rfl) (fun hk _ => ?_) nofun
    exact h.chosen i x hk hx (hphase ▸ rfl)
  next hphase =>
    have hnot : x.phase ≠ .redirected := fun hr => by cases hphase.symm.trans hr
    have hown : Fit { s with ownClient := none } := h.setOwnClient none nofun
    have hkept' : Kept { s with ownClient := none } := hkept.congr rfl rfl rfl (.inl rfl) fun y hy => ⟨y, hy, rfl, rfl⟩
    exact hown.setStart hkept' hx hnot nofun nofun nofun
  · exact h

theorem Fit.startSignIn (h : Fit s) (hkept : Kept s) (redirectUrl : String) : Fit (s.startSignIn redirectUrl) := by
  have hold : ∀ {k : Nat} {x : Start}, s.latest = some k →
      (s.starts ++ [(⟨redirectUrl, .probing, none, false, none⟩ : Start)])[k]? = some x → s.starts[k]? = some x := by
    intro k x hk hx
    obtain ⟨x', n, hx', -⟩ := hkept.latest k hk
    rw [getElem?_append_some hx' _] at hx
    rw [hx', hx]
  refine { h with verifier := ?_, chosen := ?_, unfit := ?_, client := ?_, uses := ?_ }
  · intro k x hk hx
    exact h.verifier k x hk (hold hk hx)
  · intro k x hk hx
    exact h.chosen k x hk (hold hk hx)
  · intro k x hk hx
    exact h.unfit k x hk (hold hk hx)
  · intro y hy c hc hlatest
    obtain ⟨x, hx, hxc⟩ := h.client y hy c hc hlatest
    exact ⟨x, getElem?_append_some hx _, hxc⟩
  · intro a ha
    obtain ⟨x, hx, hrest⟩ := h.uses a ha
    exact ⟨x, getElem?_append_some hx _, hrest⟩

/-- A sign-in is recorded: of it there is no callback, and no client yet. -/
theorem Fit.record (h : Fit s) (hkept : Kept s) {x : Start} (hx : s.starts[i]? = some x) : Fit (s.record i x) := by
  unfold State.record
  split
  next hphase =>
    have hself : (s.starts.set i { x with phase := .reading, recorded := some s.count })[i]? = _ :=
      getElem?_set_self (lt_of_getElem? hx)
    have hother : ∀ {j : Nat} {z : Start}, s.starts[j]? = some z → z.phase = .redirected →
        (s.starts.set i { x with phase := .reading, recorded := some s.count })[j]? = some z := by
      intro j z hz hz'
      have hji : j ≠ i := by
        rintro rfl
        cases hx.symm.trans hz
        cases hphase.symm.trans hz'
      exact (getElem?_set_ne (Ne.symm hji)).trans hz
    have hnone : ∀ y ∈ s.callbacks, y.start ≠ i := by
      intro y hy hyi
      obtain ⟨z, hz, hz', -⟩ := hkept.callbacks y hy
      rw [hyi] at hz
      cases hx.symm.trans hz
      cases hphase.symm.trans hz'
    constructor
    · intro k z hk hz hz'
      cases hk
      cases hself.symm.trans hz
      cases hz'
    · intro k z hk hz hz'
      cases hk
      cases hself.symm.trans hz
      cases hz'
    · intro k z hk hz hz'
      cases hk
      cases hself.symm.trans hz
      cases hz'
    · intro y hy c _ hlatest
      exact absurd (Option.some_inj.mp hlatest).symm (hnone y hy)
    · intro y hy _ hlatest
      exact absurd (Option.some_inj.mp hlatest).symm (hnone y hy)
    · exact h.single
    · exact h.once
    · exact h.spent
    · intro y hy _ signIn hsignIn
      cases hsignIn
      exact (hnone y hy).symm
    · intro a ha
      obtain ⟨z, hz, hz', hrest⟩ := h.uses a ha
      exact ⟨z, hother hz hz', hz', hrest⟩
  · exact h

theorem Fit.callback (h : Fit s) {x : Start} {query : Query}
    (horderly : Orderly s (.callback i query)) : Fit (s.callback i x query) := by
  unfold State.callback
  split
  next signIn hsignIn _ =>
    split
    · exact h
    rename_i hstart
    have hstart := not_not.mp hstart
    -- one that only ends the sign-in
    have hend : Fit { s with
        callbacks := s.callbacks ++ [⟨i, signIn.redirectUrl, none, false, .deletingVerifier⟩], signIn := none } := by
      refine ⟨h.verifier, h.chosen, h.unfit, ?_, ?_, ?_, h.once, ?_, ?_, h.uses⟩
      · intro y hy c hc
        rcases mem_concat_cases hy with hy | rfl
        · exact h.client y hy c hc
        · cases hc
      · intro y hy hphase
        rcases mem_concat_cases hy with hy | rfl
        · exact h.found y hy hphase
        · cases hphase
      · intro b b' y z hy hz hyz hly hlz
        rcases getElem?_concat_cases hy with hy | ⟨-, rfl⟩
        · rcases getElem?_concat_cases hz with hz | ⟨-, rfl⟩
          · exact h.single b b' y z hy hz hyz hly hlz
          · cases hlz
        · cases hly
      · intro j hj
        obtain ⟨hbefore, y, hy, hyj⟩ := h.spent j hj
        refine ⟨fun z hz hzj => ?_, y, mem_append_left _ hy, hyj⟩
        rcases mem_concat_cases hz with hz | rfl
        · exact hbefore z hz hzj
        · rfl
      · exact nofun
    split
    · have hover := horderly signIn hsignIn hstart
      refine ⟨h.verifier, h.chosen, h.unfit, ?_, ?_, ?_, h.once, ?_, ?_, h.uses⟩
      · intro y hy c hc
        rcases mem_concat_cases hy with hy | rfl
        · exact h.client y hy c hc
        · cases hc
      · intro y hy hphase
        rcases mem_concat_cases hy with hy | rfl
        · exact h.found y hy hphase
        · cases hphase
      · intro b b' y z hy hz hyz hly hlz
        rcases getElem?_concat_cases hy with hy | ⟨rfl, rfl⟩
        · rcases getElem?_concat_cases hz with hz | ⟨-, rfl⟩
          · exact h.single b b' y z hy hz hyz hly hlz
          · rw [hover y (mem_of_getElem? hy) hyz] at hly
            cases hly
        · rcases getElem?_concat_cases hz with hz | ⟨rfl, -⟩
          · rw [hover z (mem_of_getElem? hz) hyz.symm] at hlz
            cases hlz
          · rfl
      · intro j hj
        obtain ⟨hbefore, y, hy, hyj⟩ := h.spent j hj
        refine ⟨fun z hz hzj => ?_, y, mem_append_left _ hy, hyj⟩
        rcases mem_append.mp hz with hz | hz
        · exact hbefore z hz hzj
        -- its own callback is over, and has cleared the sign-in
        exfalso
        obtain rfl := mem_singleton.mp hz
        have hyo := hover y hy (hyj.trans hzj.symm)
        exact h.cleared y hy (hyo ▸ rfl) signIn hsignIn (hstart.trans (hzj.trans hyj.symm))
      · intro y hy hlive
        rcases mem_concat_cases hy with hy | rfl
        · exact h.cleared y hy hlive
        · cases hlive
    · exact hend
    · exact hend
  · exact h

theorem Fit.setCallback (h : Fit s) {y : Callback} (hx : s.callbacks[b]? = some x) (hstart : y.start = x.start)
    (hclient : ∀ c, y.client = some c → s.latest = some x.start → ∃ z, s.starts[x.start]? = some z ∧ z.client = some c)
    (hfound : y.phase = .readingOwn → s.latest = some x.start → s.preRegistered = none ∧ s.NoFit y.redirectUrl)
    (hlive : y.phase.live = true → x.phase.live = true)
    (hcleared : y.phase.live = false → x.phase.live = false ∨ s.signIn = none)
    (hbefore : y.phase.before = true → x.phase.before = true) : Fit (s.setCallback b y) := by
  have hmem : x ∈ s.callbacks := mem_of_getElem? hx
  refine ⟨h.verifier, h.chosen, h.unfit, ?_, ?_, ?_, h.once, ?_, ?_, h.uses⟩
  · intro z hz c hc hlatest
    rcases mem_or_eq_of_mem_set hz with hz | rfl
    · exact h.client z hz c hc hlatest
    · rw [hstart] at hlatest ⊢
      exact hclient c hc hlatest
  · intro z hz hphase hlatest
    rcases mem_or_eq_of_mem_set hz with hz | rfl
    · exact h.found z hz hphase hlatest
    · rw [hstart] at hlatest
      exact hfound hphase hlatest
  · intro j k z w hz hw hzw hlz hlw
    rcases getElem?_set_cases hz with ⟨rfl, rfl⟩ | ⟨-, hz'⟩
    · rcases getElem?_set_cases hw with ⟨rfl, -⟩ | ⟨-, hw'⟩
      · rfl
      · exact h.single _ k x w hx hw' (hstart.symm.trans hzw) (hlive hlz) hlw
    rcases getElem?_set_cases hw with ⟨rfl, rfl⟩ | ⟨-, hw'⟩
    · exact h.single j _ z x hz' hx (hzw.trans hstart) hlz (hlive hlw)
    · exact h.single j k z w hz' hw' hzw hlz hlw
  · intro j hj
    obtain ⟨hj', z, hz, hzj⟩ := h.spent j hj
    refine ⟨?_, ?_⟩
    · intro w hw hwj
      rcases mem_or_eq_of_mem_set hw with hw | rfl
      · exact hj' w hw hwj
      refine Bool.eq_false_iff.mpr fun hb => ?_
      have hxj := hj' x hmem (hstart.symm.trans hwj)
      rw [hbefore hb] at hxj
      cases hxj
    · obtain ⟨k, hk⟩ := mem_iff_getElem?.mp hz
      by_cases hkb : k = b
      · subst hkb
        cases hx.symm.trans hk
        exact ⟨y, mem_of_getElem? (getElem?_set_self (lt_of_getElem? hx)), hstart.trans hzj⟩
      · exact ⟨z, mem_of_getElem? ((getElem?_set_ne (Ne.symm hkb)).trans hk), hzj⟩
  · intro z hz hlz
    rcases mem_or_eq_of_mem_set hz with hz | rfl
    · exact h.cleared z hz hlz
    rw [hstart]
    rcases hcleared hlz with hlx | hnone
    · exact h.cleared x hmem hlx
    · intro signIn hs
      cases hnone.symm.trans hs

theorem Fit.offered (h : Fit s) (hkept : Kept s) (hx : x ∈ s.callbacks)
    (hk : s.latest = some x.start) : ∃ z c, s.starts[x.start]? = some z ∧ z.client = some c ∧ s.Offers x.redirectUrl c := by
  obtain ⟨z, hz, hphase, hurl⟩ := hkept.callbacks x hx
  obtain ⟨c, hc, hoffers⟩ := h.chosen x.start z hk hz (hphase ▸ rfl)
  exact ⟨z, c, hz, hc, hurl ▸ hoffers⟩

theorem Fit.next (h : Fit s) (hkept : Kept s) (hx : s.callbacks[b]? = some x)
    (horderly : Orderly s (.next b)) : Fit (s.next b x) := by
  have hmem : x ∈ s.callbacks := mem_of_getElem? hx
  have hclient : ∀ c, x.client = some c → s.latest = some x.start →
      ∃ z, s.starts[x.start]? = some z ∧ z.client = some c := fun c hc hk => h.client x hmem c hc hk
  have hgiveUp : x.phase.live = true → Fit (s.giveUp b x) := fun hlive =>
    h.setCallback hx rfl hclient nofun (fun _ => hlive) nofun nofun
  -- one that finds its client finds the one its sign-in is for
  have htake : ∀ c, x.phase.live = true → x.phase.before = true →
      (s.latest = some x.start → ∃ z, s.starts[x.start]? = some z ∧ z.client = some c) → Fit (s.take b x c) := by
    intro c hlive hbefore hc
    refine h.setCallback hx rfl (fun c' hc' hk => ?_) nofun (fun _ => hlive) nofun fun _ => hbefore
    cases hc'
    exact hc hk
  unfold State.next
  split
  next hphase =>
    have hlive : x.phase.live = true := hphase ▸ rfl
    have hbefore : x.phase.before = true := hphase ▸ rfl
    split
    next c hpre =>
      refine htake c hlive hbefore fun hk => ?_
      obtain ⟨z, c', hz, hzc, hoffers⟩ := h.offered hkept hmem hk
      exact ⟨z, hz, hzc.trans (congrArg some (hoffers.1 c hpre).symm)⟩
    next hpre =>
      split
      next c hc =>
        refine htake c hlive hbefore fun hk => ?_
        obtain ⟨z, c', hz, hzc, hoffers⟩ := h.offered hkept hmem hk
        obtain ⟨hc, hfit⟩ := filter_some hc
        exact ⟨z, hz, hzc.trans (congrArg some (hoffers.2.1 hpre c hc hfit).symm)⟩
      next hno =>
        exact h.setCallback hx rfl hclient (fun _ _ => ⟨hpre, noFit_of_filter hno⟩) (fun _ => hlive)
          nofun fun _ => hbefore
  next hphase =>
    have hlive : x.phase.live = true := hphase ▸ rfl
    have hbefore : x.phase.before = true := hphase ▸ rfl
    split
    next c hc =>
      refine htake c hlive hbefore fun hk => ?_
      obtain ⟨z, c', hz, hzc, hoffers⟩ := h.offered hkept hmem hk
      obtain ⟨hpre, hno⟩ := h.found x hmem hphase hk
      obtain ⟨hmap, hfit⟩ := filter_some hc
      obtain ⟨own, hown, rfl⟩ := Option.map_eq_some_iff.mp hmap
      exact ⟨z, hz, hzc.trans (congrArg some (hoffers.2.2 hpre hno own hown hfit).symm)⟩
    · exact hgiveUp hlive
  next hphase =>
    have hlive : x.phase.live = true := hphase ▸ rfl
    have hbefore : x.phase.before = true := hphase ▸ rfl
    split
    next verifier c hv hc =>
      have hk := horderly x hx (hphase ▸ rfl)
      obtain ⟨z, hz, hzphase, hurl⟩ := hkept.callbacks x hmem
      have hset : Fit (s.setCallback b { x with phase := .exchanging }) :=
        h.setCallback hx rfl hclient nofun (fun _ => hlive) nofun fun _ => hbefore
      refine { hset with uses := ?_ }
      intro a ha
      rcases mem_concat_cases ha with ha | rfl
      · exact h.uses a ha
      obtain ⟨z', hz', hzc⟩ := h.client x hmem c hc hk
      cases hz.symm.trans hz'
      refine ⟨z, hz, hzphase, ?_, hurl, hzc⟩
      rcases h.verifier x.start z hk hz hzphase with hnone | hsome
      · cases hv.symm.trans hnone
      · exact Option.some_inj.mp (hv.symm.trans hsome)
    · exact hgiveUp hlive
  next hphase =>
    have hown : Fit { s with ownClient := none } := h.setOwnClient none nofun
    refine hown.setCallback hx rfl nofun nofun (fun _ => hphase ▸ rfl)
      nofun fun _ => hphase ▸ rfl
  next hphase =>
    have hlive : x.phase.live = true := hphase ▸ rfl
    have hk := horderly x hx (hphase ▸ rfl)
    have hset : Fit (s.setCallback b { x with phase := .savingTokens }) :=
      h.setCallback hx rfl hclient nofun (fun _ => hlive) nofun nofun
    split
    next c hpre hc =>
      refine { hset with chosen := ?_, unfit := ?_, found := ?_ }
      · intro k z hk' hz hzphase
        cases hk.symm.trans hk'
        obtain ⟨c', hzc, hoffers⟩ := h.chosen _ z hk hz hzphase
        obtain ⟨z', hz', hzc'⟩ := h.client x hmem c hc hk
        cases hz.symm.trans hz'
        cases hzc.symm.trans hzc'
        refine ⟨c, hzc, hoffers.1, ?_, ?_⟩
        · intro _ c' hc' _
          exact (Option.some_inj.mp hc').symm
        intro _ hno own hown hfit
        refine hoffers.2.2 hpre (fun c' hc' => ?_) own hown hfit
        -- had the server's fitted before, it would be this one
        refine Bool.eq_false_iff.mpr fun hfit' => ?_
        have hfit'' := hno c rfl
        rw [← hoffers.2.1 hpre c' hc' hfit', hfit'] at hfit''
        cases hfit''
      · intro k z hk' hz hzphase
        cases hk.symm.trans hk'
        obtain ⟨z', hz', hz'', -⟩ := hkept.callbacks x hmem
        cases hz.symm.trans hz'
        rw [hz''] at hzphase
        cases hzphase
      · intro y hy hyphase hk'
        exfalso
        obtain ⟨j, hj⟩ := mem_iff_getElem?.mp hy
        rcases getElem?_set_cases hj with ⟨rfl, rfl⟩ | ⟨hjb, hj'⟩
        · cases hyphase
        · have hsame : x.start = y.start := Option.some_inj.mp (hk.symm.trans hk')
          exact hjb (h.single b j x y hx hj' hsame hlive (hyphase ▸ rfl))
    · exact hset
  next hphase =>
    have hset : Fit (s.setCallback b { x with phase := .savingRedirect }) :=
      h.setCallback hx rfl hclient nofun (fun _ => hphase ▸ rfl) nofun
        nofun
    exact { hset with }
  next hphase =>
    have hset : Fit (s.setCallback b { x with phase := .clearing }) :=
      h.setCallback hx rfl hclient nofun (fun _ => hphase ▸ rfl) nofun
        nofun
    exact { hset with }
  · have hnone : Fit { s with signIn := none } :=
      { h with cleared := fun _ _ _ _ hs => (by cases hs) }
    exact hnone.setCallback hx rfl hclient nofun nofun (fun _ => .inr rfl)
      nofun
  next hphase =>
    have hnone : Fit { s with verifier := none } := h.setVerifier none fun _ _ _ _ _ => .inl rfl
    exact hnone.setCallback hx rfl hclient nofun nofun (fun _ => .inl (hphase ▸ rfl)) nofun
  next hphase =>
    have hown : Fit { s with ownClient := none } := h.setOwnClient none nofun
    exact hown.setCallback hx rfl hclient nofun nofun (fun _ => .inl (hphase ▸ rfl)) nofun
  · exact h
  · exact h

/-- Tokens are issued for a sign-in whose callback is the only one that had its code exchanged. -/
theorem Fit.reply (h : Fit s) (hx : s.callbacks[b]? = some x) (reply : Reply) : Fit (s.reply b x reply) := by
  have hmem : x ∈ s.callbacks := mem_of_getElem? hx
  have hclient : ∀ c, x.client = some c → s.latest = some x.start →
      ∃ z, s.starts[x.start]? = some z ∧ z.client = some c := fun c hc hk => h.client x hmem c hc hk
  unfold State.reply State.giveUp
  split
  next hphase =>
    have hlive : x.phase.live = true := hphase ▸ rfl
    have hbefore : x.phase.before = true := hphase ▸ rfl
    split
    · have hset : Fit (s.setCallback b { x with phase := .savingClient }) :=
        h.setCallback hx rfl hclient nofun (fun _ => hlive) nofun
          nofun
      have hnew : x.start ∉ s.completed := by
        intro hdone
        cases ((h.spent x.start hdone).1 x hmem rfl).symm.trans hbefore
      refine { hset with once := ?_, spent := ?_ }
      · exact List.Nodup.append h.once (nodup_singleton _) (disjoint_singleton.mpr hnew)
      intro i hi
      rcases mem_concat_cases hi with hi | rfl
      · exact hset.spent i hi
      refine ⟨fun y hy hyx => ?_, _, mem_of_getElem? (getElem?_set_self (lt_of_getElem? hx)), rfl⟩
      obtain ⟨j, hj⟩ := mem_iff_getElem?.mp hy
      rcases getElem?_set_cases hj with ⟨rfl, rfl⟩ | ⟨hjb, hj'⟩
      · rfl
      · refine Bool.eq_false_iff.mpr fun hyb => hjb (h.single b j x y hx hj' hyx.symm hlive ?_)
        cases hyp : y.phase <;> rw [hyp] at hyb <;> first | rfl | cases hyb
    · exact h.setCallback hx rfl hclient nofun (fun _ => hlive) nofun fun _ => hbefore
    · exact h.setCallback hx rfl hclient nofun (fun _ => hlive) nofun fun _ => hbefore
    · exact h.setCallback hx rfl hclient nofun (fun _ => hlive) nofun
        nofun
  · exact h

theorem Fit.fails (h : Fit s) (hx : s.callbacks[b]? = some x) : Fit (s.fails b x) := by
  have hmem : x ∈ s.callbacks := mem_of_getElem? hx
  have hclient : ∀ c, x.client = some c → s.latest = some x.start →
      ∃ z, s.starts[x.start]? = some z ∧ z.client = some c := fun c hc hk => h.client x hmem c hc hk
  unfold State.fails State.giveUp
  split
  · exact h
  · exact h
  next hphase =>
    exact h.setCallback hx rfl hclient nofun nofun (fun _ => .inl (hphase ▸ rfl)) nofun
  next hphase =>
    exact h.setCallback hx rfl hclient nofun nofun (fun _ => .inl (hphase ▸ rfl)) nofun
  next hclearing hover hverifier hdeleting =>
    refine h.setCallback hx rfl hclient nofun (fun _ => ?_) nofun
      nofun
    cases hphase : x.phase with
    | deletingVerifier => exact absurd hphase hverifier
    | deletingClient => exact absurd hphase hdeleting
    | «over» => exact absurd hphase hover
    | _ => rfl

theorem Fit.step (h : Fit s) (hkept : Kept s) (horderly : Orderly s e) : Fit (step s e) := by
  cases e with
  | startSignIn redirectUrl => exact h.startSignIn hkept redirectUrl
  | record i => exact onStart_cases h i fun x hx => h.record hkept hx
  | startNext i => exact onStart_cases h i fun x hx => h.startNext hkept hx horderly
  | registered i client =>
    refine onStart_cases h i fun x hx => ?_
    unfold State.registered
    split
    next hphase =>
      exact h.setStart hkept hx (fun hr => by cases hphase.symm.trans hr) nofun
        nofun fun hk _ => h.unfit i x hk hx (hphase ▸ rfl)
    · exact h
  | unregistered i =>
    refine onStart_cases h i fun x hx => ?_
    unfold State.unregistered
    split
    next hphase _ =>
      exact h.setStart hkept hx (fun hr => by cases hphase.symm.trans hr) nofun
        nofun fun hk _ => h.unfit i x hk hx (hphase ▸ rfl)
    · exact h
  | startFails i =>
    refine onStart_cases h i fun x hx => ?_
    unfold State.startFails
    split
    · exact h
    · exact h
    next hnot _ =>
      exact h.setStart hkept hx hnot nofun nofun nofun
  | callback i query => exact onStart_cases h i fun x _ => h.callback horderly
  | next b => exact onCallback_cases h b fun x hx => h.next hkept hx horderly
  | reply b reply => exact onCallback_cases h b fun x hx => h.reply hx reply
  | fails b => exact onCallback_cases h b fun x hx => h.fails hx

/-! ## What a step leaves -/

def State.outcome (s : State) : Option Nat × List Nat := (s.tokens, s.completed)

def State.parts (s : State) : Option SignIn × Option Nat × Option OwnClient := (s.signIn, s.verifier, s.ownClient)

theorem record_outcome (s : State) (i : Nat) (x : Start) : (s.record i x).outcome = s.outcome := by
  unfold State.record
  split <;> rfl

theorem startNext_outcome (s : State) (i : Nat) (x : Start) : (s.startNext i x).outcome = s.outcome := by
  unfold State.startNext State.authorize
  repeat' split
  all_goals rfl

theorem startNext_parts {x : Start} (h : x.phase.writes = false) : (s.startNext i x).parts = s.parts := by
  unfold State.startNext State.authorize
  cases hphase : x.phase <;> rw [hphase] at h <;> try cases h
  all_goals (dsimp only; repeat' split)
  all_goals rfl

theorem registered_outcome (s : State) (i : Nat) (x : Start) (client : Client) :
    (s.registered i x client).outcome = s.outcome := by
  unfold State.registered
  split <;> rfl

theorem unregistered_outcome (s : State) (i : Nat) (x : Start) : (s.unregistered i x).outcome = s.outcome := by
  unfold State.unregistered
  split <;> rfl

theorem startFails_outcome (s : State) (i : Nat) (x : Start) : (s.startFails i x).outcome = s.outcome := by
  unfold State.startFails
  split <;> rfl

theorem callback_outcome (s : State) (i : Nat) (x : Start) (query : Query) :
    (s.callback i x query).outcome = s.outcome := by
  unfold State.callback
  repeat' split
  all_goals rfl

theorem callback_parts (s : State) (i : Nat) (x : Start) (query : Query) : (s.callback i x query).parts = s.parts ∨
      (∃ signIn, s.signIn = some signIn ∧ signIn.start = i) ∧
        (s.callback i x query).parts = (none, s.verifier, s.ownClient) := by
  unfold State.callback
  split
  next signIn hsignIn _ =>
    split
    · exact .inl rfl
    rename_i hstart
    have hown : ∃ signIn, s.signIn = some signIn ∧ signIn.start = i := ⟨signIn, hsignIn, not_not.mp hstart⟩
    split
    · exact .inl rfl
    · exact .inr ⟨hown, rfl⟩
    · exact .inr ⟨hown, rfl⟩
  · exact .inl rfl

theorem next_outcome (h : x.phase ≠ .savingTokens) : (s.next b x).outcome = s.outcome := by
  unfold State.next State.take State.giveUp
  cases hphase : x.phase <;> try exact absurd hphase h
  all_goals (dsimp only; repeat' split)
  all_goals rfl

theorem next_parts (h : x.phase.touches = false) : (s.next b x).parts = s.parts := by
  unfold State.next State.take State.giveUp
  cases hphase : x.phase <;> rw [hphase] at h <;> try cases h
  all_goals (dsimp only; repeat' split)
  all_goals rfl

theorem reply_outcome {reply : Reply} (h : reply ≠ .issued) : (s.reply b x reply).outcome = s.outcome := by
  unfold State.reply State.giveUp
  cases reply with
  | issued => exact absurd rfl h
  | _ =>
    split
    · split <;> first | rfl | contradiction
    · rfl

theorem reply_parts (s : State) (b : Nat) (x : Callback) (reply : Reply) : (s.reply b x reply).parts = s.parts := by
  unfold State.reply State.giveUp
  repeat' split
  all_goals rfl

theorem fails_outcome (s : State) (b : Nat) (x : Callback) : (s.fails b x).outcome = s.outcome := by
  unfold State.fails State.giveUp
  split <;> rfl

theorem fails_parts (s : State) (b : Nat) (x : Callback) : (s.fails b x).parts = s.parts := by
  unfold State.fails State.giveUp
  split <;> rfl

/-! ## Over a run -/

theorem onlyLatest_of_outcome (h : (step s e).outcome = s.outcome) : OnlyLatest s e := by
  obtain ⟨htokens, hcompleted⟩ := Prod.mk.inj h
  constructor
  · intro i hi
    rw [hcompleted] at hi
    cases self_eq_append_right.mp hi
  · intro hne
    exact absurd htokens hne

theorem spares_of_parts (h : (step s e).parts = s.parts) : Spares s e := by
  obtain ⟨hsignIn, hrest⟩ := Prod.mk.inj h
  obtain ⟨hverifier, hown⟩ := Prod.mk.inj hrest
  intro i _
  refine ⟨fun signIn hs hne => absurd (hsignIn.trans hs) hne, fun m hm hne => absurd (hverifier.trans hm) hne,
    fun own ho hne => absurd (hown.trans ho) hne⟩

/-- What the sign-in recorded last takes away is no newer one's. -/
theorem spares_of_latest (hkept : Kept s) (h : ∀ i, s.ends e = some i → s.latest = some i) : Spares s e := by
  intro i hi
  have hlatest := h i hi
  exact ⟨fun signIn _ _ => hkept.newest hlatest _, fun m _ _ => hkept.newest hlatest m,
    fun own _ _ => hkept.newest hlatest _⟩

theorem not_newer_self (s : State) (i : Nat) : ¬s.newer i i := by
  rintro ⟨x, y, n, n', hx, hy, hn, hn', hlt⟩
  cases hx.symm.trans hy
  cases hn.symm.trans hn'
  exact Nat.lt_irrefl n hlt

theorem onlyLatest (horderly : Orderly s e) : OnlyLatest s e := by
  cases e with
  | startSignIn redirectUrl => exact onlyLatest_of_outcome rfl
  | record i =>
    exact onlyLatest_of_outcome (onStart_cases (P := fun s' => s'.outcome = s.outcome) rfl i fun x _ => record_outcome s i x)
  | startNext i =>
    exact onlyLatest_of_outcome (onStart_cases (P := fun s' => s'.outcome = s.outcome) rfl i fun x _ => startNext_outcome s i x)
  | registered i client =>
    exact onlyLatest_of_outcome
      (onStart_cases (P := fun s' => s'.outcome = s.outcome) rfl i fun x _ => registered_outcome s i x client)
  | unregistered i =>
    exact onlyLatest_of_outcome
      (onStart_cases (P := fun s' => s'.outcome = s.outcome) rfl i fun x _ => unregistered_outcome s i x)
  | startFails i =>
    exact onlyLatest_of_outcome
      (onStart_cases (P := fun s' => s'.outcome = s.outcome) rfl i fun x _ => startFails_outcome s i x)
  | callback i query =>
    exact onlyLatest_of_outcome
      (onStart_cases (P := fun s' => s'.outcome = s.outcome) rfl i fun x _ => callback_outcome s i x query)
  | fails b =>
    exact onlyLatest_of_outcome (onCallback_cases (P := fun s' => s'.outcome = s.outcome) rfl b fun x _ => fails_outcome s b x)
  | next b =>
    cases hx : s.callbacks[b]? with
    | none => exact onlyLatest_of_outcome (by simp [step, State.onCallback, hx])
    | some x =>
      have hstep : step s (.next b) = s.next b x := by simp [step, State.onCallback, hx]
      by_cases hphase : x.phase = .savingTokens
      · have hk := horderly x hx (hphase ▸ rfl)
        have hnext : s.next b x = { s.setCallback b { x with phase := .savingRedirect } with tokens := some x.start } := by
          simp [State.next, hphase]
        constructor
        · intro i hi
          rw [hstep, hnext] at hi
          cases self_eq_append_right.mp hi
        · intro _
          rw [hstep, hnext, hk]
      · exact onlyLatest_of_outcome (hstep ▸ next_outcome hphase)
  | reply b reply =>
    cases hx : s.callbacks[b]? with
    | none => exact onlyLatest_of_outcome (by simp [step, State.onCallback, hx])
    | some x =>
      have hstep : step s (.reply b reply) = s.reply b x reply := by simp [step, State.onCallback, hx]
      by_cases hissued : reply = .issued
      · subst hissued
        by_cases hphase : x.phase = .exchanging
        · have hk := horderly x hx hphase
          have hreply : s.reply b x .issued =
              { s.setCallback b { x with phase := .savingClient } with completed := s.completed ++ [x.start] } := by
            simp [State.reply, hphase]
          constructor
          · intro i hi
            rw [hstep, hreply] at hi
            cases append_cancel_left hi
            exact hk
          · intro hne
            rw [hstep, hreply] at hne
            exact absurd rfl hne
        · refine onlyLatest_of_outcome (hstep ▸ ?_)
          unfold State.reply
          split
          · exact absurd ‹_› hphase
          · rfl
      · exact onlyLatest_of_outcome (hstep ▸ reply_outcome hissued)

theorem spares (hkept : Kept s) (horderly : Orderly s e) : Spares s e := by
  cases e with
  | startNext i =>
    cases hx : s.starts[i]? with
    | none => exact spares_of_parts (by simp [step, State.onStart, hx])
    | some x =>
      cases hwrites : x.phase.writes with
      | false => exact spares_of_parts (by simpa only [step, State.onStart, hx] using startNext_parts hwrites)
      | true =>
        refine spares_of_latest hkept fun j hj => ?_
        cases hj
        exact horderly x hx hwrites
  | callback i query =>
    cases hx : s.starts[i]? with
    | none => exact spares_of_parts (by simp [step, State.onStart, hx])
    | some x =>
      have hstep : step s (.callback i query) = s.callback i x query := by simp [step, State.onStart, hx]
      rcases callback_parts s i x query with heq | ⟨⟨own, hown, hi⟩, heq⟩
      · exact spares_of_parts (hstep ▸ heq)
      obtain ⟨hsignIn, hrest⟩ := Prod.mk.inj heq
      obtain ⟨hverifier, howned⟩ := Prod.mk.inj hrest
      intro j hj
      cases hj
      rw [hstep]
      refine ⟨fun signIn hs _ => ?_, fun m hm hne => absurd (hverifier.trans hm) hne,
        fun o ho hne => absurd (howned.trans ho) hne⟩
      cases hown.symm.trans hs
      rw [hi]
      exact not_newer_self s i
  | next b =>
    cases hx : s.callbacks[b]? with
    | none => exact spares_of_parts (by simp [step, State.onCallback, hx])
    | some x =>
      cases htouches : x.phase.touches with
      | false => exact spares_of_parts (by simpa only [step, State.onCallback, hx] using next_parts htouches)
      | true =>
        refine spares_of_latest hkept fun j hj => ?_
        simp only [State.ends, hx, Option.map_some, Option.some.injEq] at hj
        rw [← hj]
        exact horderly x hx htouches
  | reply b reply =>
    exact spares_of_parts
      (onCallback_cases (P := fun s' => s'.parts = s.parts) rfl b fun x _ => reply_parts s b x reply)
  | fails b =>
    exact spares_of_parts (onCallback_cases (P := fun s' => s'.parts = s.parts) rfl b fun x _ => fails_parts s b x)
  | startSignIn redirectUrl => exact nofun
  | record i => exact nofun
  | registered i client => exact nofun
  | unregistered i => exact nofun
  | startFails i => exact nofun

/-- **Sign-ins do not cross**, in a run whose steps are orderly. -/
theorem sign_ins_apart (preRegistered client : Option Client) (es : List Event)
    (h : Along step Orderly (.init preRegistered client) es) : Along step Sound (.init preRegistered client) es := by
  refine h.of_invariant (fun s => Kept s ∧ Fit s) ?_ ?_ ⟨.init .., .init ..⟩
  · intro s e horderly ⟨hkept, hfit⟩
    exact ⟨hkept.step e, hfit.step hkept horderly⟩
  intro s e horderly ⟨hkept, hfit⟩
  have hfit' := hfit.step hkept horderly
  refine ⟨hfit'.once, fun a ha => ?_, onlyLatest horderly, spares hkept horderly⟩
  obtain ⟨start, hstart, -, hrest⟩ := hfit'.uses a ha
  exact ⟨start, hstart, hrest⟩

def registeredClient : Client := ⟨"reins", none⟩

theorem sign_ins_apart_one : Along step Sound (.init (some registeredClient) none)
      [.startSignIn "http://localhost:3100", .record 0, .startNext 0, .startNext 0, .callback 0 .code, .next 0, .next 0,
        .reply 0 .issued, .next 0, .next 0] := by
  refine sign_ins_apart _ _ _ ⟨trivial, trivial, fun _ _ _ => rfl, fun _ _ _ => rfl, ?_, ?_, ?_, ?_, ?_, ?_, trivial⟩
  · intro signIn _ _ x hx
    cases hx
  · intro x hx _
    cases hx
    rfl
  · intro x hx _
    cases hx
    rfl
  · intro x hx _
    cases hx
    rfl
  · intro x hx _
    cases hx
    rfl
  · intro x hx _
    cases hx
    rfl

theorem verifiers_cross :
    let es : List Event := [.startSignIn "http://localhost:3100", .startSignIn "http://localhost:3100", .record 0, .record 1,
      .startNext 0, .startNext 1, .startNext 1, .startNext 0, .callback 1 .code, .next 0, .next 0]
    (exec step (.init (some registeredClient) none) es).exchanges =
        [⟨1, 0, "http://localhost:3100", registeredClient⟩] ∧
      ¬Along step Sound (.init (some registeredClient) none) es := by
  refine ⟨rfl, fun h => ?_⟩
  obtain ⟨-, -, -, -, -, -, -, -, -, -, ⟨-, huses, -, -⟩, -⟩ := h
  obtain ⟨start, -, hverifier, -⟩ := huses ⟨1, 0, "http://localhost:3100", registeredClient⟩ (mem_singleton_self _)
  cases hverifier

end Reins.McpSignIns
