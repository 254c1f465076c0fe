import Reins.Lib.Places
import Reins.Lib.Run

/-!
# An MCP server's token refreshes (`backend/src/extensions/mcp/oauth-provider.ts`)

One server of one `McpConnections`: its stored tokens and client, and every refresh its lock was asked for.
A call of the secret storage is a step of its own, between the steps of everything else. The SDK's `auth`
presents the tokens its provider hands it, once, and then saves what it got, or invalidates what was
refused; the authorization server answers as it likes. Access tokens, refresh tokens and clients are
numbers, equal where the code's texts are.
-/

namespace Reins.McpOauth

open Places List

/-- `OAuthTokens`. -/
structure Tokens where
  access : Nat
  refresh : Option Nat
  deriving DecidableEq

inductive Answer
  | granted (tokens : Tokens)
  /-- Invalidates the tokens, or with `all` the client too. -/
  | refused (all : Bool)
  deriving DecidableEq

inductive Kind
  /-- `oauthConnectionFetch`'s, of the access token that was refused. -/
  | connection (stale : Nat)
  /-- `refreshAgedMcpTokens`'. -/
  | background
  deriving DecidableEq

inductive Outcome
  | refreshed
  | signedOut
  | superseded
  | failed
  deriving DecidableEq

inductive Phase
  | waiting
  | reading
  /-- `auth`, with nothing asked yet or nothing left to ask. -/
  | authorizing
  /-- `saveClientInformation`, and what it is to store. -/
  | checkClient (client : Nat)
  | writeClient (client : Nat)
  | presented
  /-- `holdsTokens`, for what was answered. -/
  | check (answer : Answer)
  | write (tokens : Tokens)
  | deleteClient
  | deleteTokens
  /-- A connection reads the access token there is now. -/
  | rereading
  | over
  deriving DecidableEq

/-- A call of the lock's `run`. -/
structure Refresh where
  kind : Kind
  after : Option Nat
  held : Option Tokens
  outcome : Outcome
  phase : Phase
  /-- How many changes by the user there were when it read its tokens, and when it last found them stored. -/
  readAt : Nat
  checkedAt : Nat
  presented : Option Nat
  deriving DecidableEq

/-- A write of the tokens by a refresh, by how many changes by the user there were. -/
structure Write where
  read : Nat
  checked : Nat
  made : Nat
  deriving DecidableEq

structure State where
  tokens : Option Tokens
  client : Option Nat
  /-- How often the user changed the tokens: signed out, or in. -/
  changes : Nat
  refreshes : List Refresh
  chain : Option Nat
  writes : List Write
  issued : List Tokens

def State.init (tokens : Option Tokens) (client : Option Nat) : State :=
  { tokens, client, changes := 0, refreshes := [], chain := none, writes := [],
    issued := tokens.toList }

def State.setRefresh (s : State) (k : Nat) (r : Refresh) : State := { s with refreshes := s.refreshes.set k r }

/-- `McpRefreshLock.run`. -/
def State.run (s : State) (kind : Kind) : State :=
  { s with
    refreshes := s.refreshes ++
      [{ kind, after := s.chain, held := none, outcome := .failed, phase := .waiting, readAt := 0,
         checkedAt := 0, presented := none }]
    chain := some s.refreshes.length }

def State.isOver (s : State) (k : Nat) : Prop := s.refreshes[k]?.map Refresh.phase = some .over

instance (s : State) (k : Nat) : Decidable (s.isOver k) :=
  inferInstanceAs (Decidable (_ = _))

def State.begin (s : State) (k : Nat) : State :=
  match s.refreshes[k]? with
  | some r =>
    if r.phase = .waiting ∧ ∀ i ∈ r.after, s.isOver i then s.setRefresh k { r with phase := .reading }
    else s
  | none => s

/-- Where a refresh goes when it wants none, or `auth` has ended. -/
def Kind.settled : Kind → Phase
  | .connection _ => .rereading
  | .background => .over

def Kind.wants (kind : Kind) (tokens : Tokens) (aged : Bool) : Bool :=
  match kind with
  | .connection stale => tokens.access == stale
  | .background => aged && tokens.refresh.isSome

def State.read (s : State) (k : Nat) (aged : Bool) : State :=
  match s.refreshes[k]? with
  | some r =>
    if r.phase = .reading then
      match s.tokens with
      | some t =>
        if r.kind.wants t aged then
          s.setRefresh k { r with held := some t, phase := .authorizing, readAt := s.changes }
        else s.setRefresh k { r with phase := r.kind.settled }
      | none => s.setRefresh k { r with phase := r.kind.settled }
    else s
  | none => s

def State.register (s : State) (k client : Nat) : State :=
  match s.refreshes[k]? with
  | some r => if r.phase = .authorizing then s.setRefresh k { r with phase := .checkClient client } else s
  | none => s

/-- `holdsTokens` found other tokens, or none. -/
def Refresh.giveUp (r : Refresh) (phase : Phase) : Refresh :=
  { r with
    held := none
    outcome := if r.outcome ≠ .signedOut then .superseded else r.outcome
    phase }

def State.holds (s : State) (r : Refresh) : Bool := r.held.isSome && s.tokens == r.held

def State.checkClient (s : State) (k : Nat) : State :=
  match s.refreshes[k]? with
  | some r =>
    match r.phase with
    | .checkClient client =>
      if s.holds r then s.setRefresh k { r with phase := .writeClient client }
      else s.setRefresh k (r.giveUp .authorizing)
    | _ => s
  | none => s

def State.writeClient (s : State) (k : Nat) : State :=
  match s.refreshes[k]? with
  | some r =>
    match r.phase with
    | .writeClient client => { s.setRefresh k { r with phase := .authorizing } with client := some client }
    | _ => s
  | none => s

def State.present (s : State) (k : Nat) : State :=
  match s.refreshes[k]? with
  | some r =>
    if r.phase = .authorizing then
      match r.held.bind Tokens.refresh with
      | some token => s.setRefresh k { r with phase := .presented, presented := some token }
      | none => s
    else s
  | none => s

def Answer.issues : Answer → List Tokens
  | .granted tokens => [tokens]
  | .refused _ => []

def State.answer (s : State) (k : Nat) (answer : Answer) : State :=
  match s.refreshes[k]? with
  | some r =>
    if r.phase = .presented then
      { s.setRefresh k { r with phase := .check answer } with issued := s.issued ++ answer.issues }
    else s
  | none => s

/-- `saveTokens` and `invalidateCredentials`, to where they write. -/
def State.check (s : State) (k : Nat) : State :=
  match s.refreshes[k]? with
  | some r =>
    match r.phase with
    | .check (.granted t) =>
      if s.holds r then
        s.setRefresh k { r with held := some t, phase := .write t, checkedAt := s.changes }
      else s.setRefresh k (r.giveUp r.kind.settled)
    | .check (.refused all) =>
      if s.holds r then
        s.setRefresh k { r with
          phase := if all then .deleteClient else .deleteTokens, checkedAt := s.changes }
      else s.setRefresh k (r.giveUp .authorizing)
    | _ => s
  | none => s

def State.store (s : State) (tokens : Option Tokens) (r : Refresh) : State :=
  { s with tokens, writes := s.writes ++ [⟨r.readAt, r.checkedAt, s.changes⟩] }

def State.write (s : State) (k : Nat) : State :=
  match s.refreshes[k]? with
  | some r =>
    match r.phase with
    | .write t => (s.store (some t) r).setRefresh k { r with outcome := .refreshed, phase := r.kind.settled }
    | _ => s
  | none => s

def State.deleteClient (s : State) (k : Nat) : State :=
  match s.refreshes[k]? with
  | some r =>
    if r.phase = .deleteClient then
      { s.setRefresh k { r with phase := .deleteTokens } with client := none }
    else s
  | none => s

def State.deleteTokens (s : State) (k : Nat) : State :=
  match s.refreshes[k]? with
  | some r =>
    if r.phase = .deleteTokens then
      (s.store none r).setRefresh k { r with held := none, outcome := .signedOut, phase := .authorizing }
    else s
  | none => s

/-- Where an error leaves a refresh, or `auth` that asks for a sign-in. -/
def Refresh.endPhase (r : Refresh) : Phase :=
  match r.phase with
  | .waiting => .waiting
  | .reading => .over
  | .rereading => .over
  | .over => .over
  | _ => r.kind.settled

/-- It ends: `auth` has no more to do, or the authorization server does not answer, or a call of the storage
fails. -/
def State.endRefresh (s : State) (k : Nat) : State :=
  match s.refreshes[k]? with
  | some r => s.setRefresh k { r with phase := r.endPhase }
  | none => s

def State.unchain (s : State) (k : Nat) : State := if s.chain = some k ∧ s.isOver k then { s with chain := none } else s

def State.signOut (s : State) : State := { s with tokens := none, changes := s.changes + 1 }

def State.signIn (s : State) (t : Tokens) : State :=
  { s with tokens := some t, changes := s.changes + 1, issued := s.issued ++ [t] }

inductive Event
  | run (kind : Kind)
  | begin (refresh : Nat)
  | read (refresh : Nat) (aged : Bool)
  | register (refresh client : Nat)
  | checkClient (refresh : Nat)
  | writeClient (refresh : Nat)
  | present (refresh : Nat)
  | answer (refresh : Nat) (answer : Answer)
  | check (refresh : Nat)
  | write (refresh : Nat)
  | deleteClient (refresh : Nat)
  | deleteTokens (refresh : Nat)
  | endRefresh (refresh : Nat)
  | unchain (refresh : Nat)
  | signOut
  | setClient (client : Option Nat)
  | signIn (tokens : Tokens)

def step (s : State) : Event → State
  | .run kind => s.run kind
  | .begin k => s.begin k
  | .read k aged => s.read k aged
  | .register k client => s.register k client
  | .checkClient k => s.checkClient k
  | .writeClient k => s.writeClient k
  | .present k => s.present k
  | .answer k answer => s.answer k answer
  | .check k => s.check k
  | .write k => s.write k
  | .deleteClient k => s.deleteClient k
  | .deleteTokens k => s.deleteTokens k
  | .endRefresh k => s.endRefresh k
  | .unchain k => s.unchain k
  | .signOut => s.signOut
  | .setClient client => { s with client }
  | .signIn t => s.signIn t

/-! ## What is asked of it -/

def State.fresh (s : State) (t : Tokens) : Bool :=
  s.issued.all fun u => u != t && (t.refresh == none || u.refresh != t.refresh)

/-- The authorization server rotates: what it issues, it has not issued before. -/
def Rotates (s : State) : Event → Prop
  | .answer _ (.granted t) => s.fresh t = true
  | .signIn t => s.fresh t = true
  | _ => True

instance (s : State) (e : Event) : Decidable (Rotates s e) := by
  unfold Rotates
  split <;> infer_instance

def Phase.running : Phase → Bool
  | .waiting | .over => false
  | _ => true

def State.running (s : State) (k : Nat) : Prop := ∃ r, s.refreshes[k]? = some r ∧ r.phase.running = true

structure Refreshed (s : State) : Prop where
  alone : ∀ i j, s.running i → s.running j → i = j
  /-- No refresh writes after a change by the user, unless the change came after it found its tokens still
  stored. -/
  inTime : ∀ w ∈ s.writes, w.read = w.checked
  /-- A refresh token is presented again only after a refresh that failed with it. -/
  once : ∀ (j k : Nat) (r r' : Refresh) (token : Nat), j < k → s.refreshes[j]? = some r →
    s.refreshes[k]? = some r' → r.presented = some token → r'.presented = some token →
    r.outcome = .failed

/-! ## The lock -/

structure Locked (s : State) : Prop where
  chain : ∀ i, s.chain = some i → i + 1 = s.refreshes.length
  unchained : s.chain = none → ∀ (k : Nat) (r : Refresh), s.refreshes[k]? = some r → r.phase = .over
  after : ∀ (k i : Nat) (r : Refresh), s.refreshes[k]? = some r → r.after = some i → i + 1 = k
  first : ∀ (j k : Nat) (r r' : Refresh), s.refreshes[k]? = some r → r.after = none → j < k →
    s.refreshes[j]? = some r' → r'.phase = .over
  begun : ∀ (j k : Nat) (r r' : Refresh), s.refreshes[k]? = some r → r.phase ≠ .waiting → j < k →
    s.refreshes[j]? = some r' → r'.phase = .over

section

variable {s : State} {k : Nat} {r : Refresh}

theorem not_waiting (hrun : r.phase.running = true) : r.phase ≠ .waiting := by
  intro hp
  rw [hp] at hrun
  cases hrun

theorem not_over (hrun : r.phase.running = true) : r.phase ≠ .over := by
  intro hp
  rw [hp] at hrun
  cases hrun

/-- Whoever runs finds those before it over, and has those after it wait. -/
theorem Locked.others (h : Locked s) (hr : s.refreshes[k]? = some r) (hrun : r.phase.running = true)
    {j : Nat} {r' : Refresh} (hj : s.refreshes[j]? = some r') :
    j < k ∧ r'.phase = .over ∨ j = k ∧ r' = r ∨ k < j ∧ r'.phase = .waiting := by
  rcases Nat.lt_trichotomy j k with hlt | rfl | hgt
  · exact .inl ⟨hlt, h.begun j k r r' hr (not_waiting hrun) hlt hj⟩
  · exact .inr (.inl ⟨rfl, Option.some_inj.mp (hj.symm.trans hr)⟩)
  · refine .inr (.inr ⟨hgt, ?_⟩)
    by_contra hne
    exact not_over hrun (h.begun k j r' r hj hne hgt hr)

theorem Locked.alone (h : Locked s) (i j : Nat) (hi : s.running i) (hj : s.running j) : i = j := by
  obtain ⟨r, hr, hrun⟩ := hi
  obtain ⟨r', hr', hrun'⟩ := hj
  rcases h.others hr hrun hr' with ⟨_, hp⟩ | ⟨rfl, _⟩ | ⟨_, hp⟩
  · exact absurd hp (not_over hrun')
  · rfl
  · exact absurd hp (not_waiting hrun')

theorem Locked.init (tokens : Option Tokens) (client : Option Nat) : Locked (.init tokens client) := by
  constructor
  · exact fun _ => nofun
  · exact fun _ _ _ => nofun
  · exact fun _ _ _ => nofun
  · exact fun _ _ _ _ => nofun
  · exact fun _ _ _ _ => nofun

theorem Locked.run (h : Locked s) (kind : Kind) : Locked (s.run kind) := by
  have hlt : ∀ {j k : Nat} {r' : Refresh}, j < k → k < s.refreshes.length + 1 →
      (s.run kind).refreshes[j]? = some r' → s.refreshes[j]? = some r' := by
    intro j k r' hjk hk hj
    rcases getElem?_concat_cases hj with hj | ⟨rfl, _⟩
    · exact hj
    · omega
  have hlen : ∀ {k : Nat} {r' : Refresh}, (s.run kind).refreshes[k]? = some r' → k < s.refreshes.length + 1 := by
    intro k r' hk
    have hk' := lt_of_getElem? hk
    rw [State.run, length_append, length_singleton] at hk'
    exact hk'
  constructor
  · intro i hi
    cases hi
    rw [State.run, length_append, length_singleton]
  · exact nofun
  · intro k i r' hk ha
    rcases getElem?_concat_cases hk with hk | ⟨rfl, rfl⟩
    · exact h.after k i r' hk ha
    · exact h.chain i ha
  · intro j k r' r'' hk ha hjk hj
    have hj' := hlt hjk (hlen hk) hj
    rcases getElem?_concat_cases hk with hk | ⟨_, rfl⟩
    · exact h.first j k r' r'' hk ha hjk hj'
    · exact h.unchained ha j r'' hj'
  · intro j k r' r'' hk hp hjk hj
    have hj' := hlt hjk (hlen hk) hj
    rcases getElem?_concat_cases hk with hk | ⟨_, rfl⟩
    · exact h.begun j k r' r'' hk hp hjk hj'
    · exact absurd rfl hp

theorem Locked.set (h : Locked s) (hr : s.refreshes[k]? = some r) {r' : Refresh}
    (hafter : r'.after = r.after) (hover : r.phase ≠ .over)
    (hbegun : r'.phase ≠ .waiting → ∀ (j : Nat) (r'' : Refresh), j < k →
      s.refreshes[j]? = some r'' → r''.phase = .over) : Locked (s.setRefresh k r') := by
  have hlen : (s.setRefresh k r').refreshes.length = s.refreshes.length := length_set
  constructor
  · intro i hi
    rw [hlen]
    exact h.chain i hi
  · intro hn
    exact absurd (h.unchained hn k r hr) hover
  · intro k' i r'' hk ha
    rcases getElem?_set_cases hk with ⟨rfl, rfl⟩ | ⟨_, hk⟩
    · exact h.after k i r hr (hafter.symm.trans ha)
    · exact h.after k' i r'' hk ha
  · intro j k' q q' hk ha hjk hj
    rcases getElem?_set_cases hj with ⟨rfl, rfl⟩ | ⟨_, hj'⟩
    · rcases getElem?_set_cases hk with ⟨rfl, rfl⟩ | ⟨_, hk⟩
      · exact absurd hjk (Nat.lt_irrefl _)
      · exact absurd (h.first k k' q r hk ha hjk hr) hover
    rcases getElem?_set_cases hk with ⟨rfl, rfl⟩ | ⟨_, hk⟩
    · exact h.first j k r q' hr (hafter.symm.trans ha) hjk hj'
    · exact h.first j k' q q' hk ha hjk hj'
  · intro j k' q q' hk hp hjk hj
    rcases getElem?_set_cases hj with ⟨rfl, rfl⟩ | ⟨_, hj'⟩
    · rcases getElem?_set_cases hk with ⟨rfl, rfl⟩ | ⟨_, hk⟩
      · exact absurd hjk (Nat.lt_irrefl _)
      · exact absurd (h.begun k k' q r hk hp hjk hr) hover
    rcases getElem?_set_cases hk with ⟨rfl, rfl⟩ | ⟨_, hk⟩
    · exact hbegun hp j q' hjk hj'
    · exact h.begun j k' q q' hk hp hjk hj'

theorem Locked.running (h : Locked s) (hr : s.refreshes[k]? = some r)
    (hrun : r.phase.running = true) {r' : Refresh} (hafter : r'.after = r.after) :
    Locked (s.setRefresh k r') :=
  h.set hr hafter (not_over hrun) (fun _ j r'' hjk hj => h.begun j k r r'' hr (not_waiting hrun) hjk hj)

theorem isOver_phase (ho : s.isOver k) (hr : s.refreshes[k]? = some r) : r.phase = .over := by
  rw [State.isOver, hr] at ho
  exact Option.some_inj.mp ho

/-- The tail that it waits for is that of the one before it. -/
theorem Locked.may_begin (h : Locked s) (hr : s.refreshes[k]? = some r)
    (ha : ∀ i ∈ r.after, s.isOver i) (j : Nat) (r' : Refresh) (hjk : j < k)
    (hj : s.refreshes[j]? = some r') : r'.phase = .over := by
  cases hi : r.after with
  | none => exact h.first j k r r' hr hi hjk hj
  | some i =>
    have hik := h.after k i r hr hi
    have hio := ha i hi
    rcases Nat.lt_or_eq_of_le (Nat.le_of_lt_succ (Nat.lt_of_lt_of_eq hjk hik.symm)) with hlt | rfl
    · have hlen : i < s.refreshes.length := Nat.lt_trans (Nat.lt_of_succ_le (Nat.le_of_eq hik)) (lt_of_getElem? hr)
      have hri : s.refreshes[i]? = some s.refreshes[i] := getElem?_eq_getElem hlen
      have hp := isOver_phase hio hri
      exact h.begun j i _ r' hri (by rw [hp]; exact nofun) hlt hj
    · exact isOver_phase hio hj

theorem Locked.unchain (h : Locked s) (k : Nat) : Locked (s.unchain k) := by
  unfold State.unchain
  split
  next hc =>
    refine { h with chain := fun _ => nofun, unchained := ?_ }
    intro _ j r' hj
    have hlen := h.chain k hc.1
    have hk : k < s.refreshes.length := Nat.lt_of_succ_le (Nat.le_of_eq hlen)
    have hrk : s.refreshes[k]? = some s.refreshes[k] := getElem?_eq_getElem hk
    have hp := isOver_phase hc.2 hrk
    have hjk : j ≤ k := Nat.le_of_lt_succ (Nat.lt_of_lt_of_eq (lt_of_getElem? hj) hlen.symm)
    rcases Nat.lt_or_eq_of_le hjk with hlt | rfl
    · exact h.begun j k _ r' hrk (by rw [hp]; exact nofun) hlt hj
    · exact isOver_phase hc.2 hj
  · exact h

end

/-! ## The tokens -/

structure State.Pending (s : State) (t : Tokens) : Prop where
  issued : t ∈ s.issued
  unknown : ∀ (j : Nat) (r : Refresh) (token : Nat), s.refreshes[j]? = some r →
    r.presented = some token → t.refresh ≠ some token

/-- Where the tokens it holds are stored, the user has changed nothing since it read them. -/
def State.Unchanged (s : State) (r : Refresh) : Prop := ∀ t, r.held = some t → s.tokens = some t → s.changes = r.readAt

def Refresh.Presents (r : Refresh) : Prop :=
  ∃ t token, r.held = some t ∧ t.refresh = some token ∧ r.presented = some token

/-- What it holds it has not presented yet, and what it has presented it has lost. -/
def Refresh.Asks (r : Refresh) : Prop :=
  (r.held ≠ none → r.presented = none ∧ r.outcome = .failed) ∧
    (r.held = none → r.presented ≠ none → r.outcome ≠ .failed)

def PhaseOk (s : State) (r : Refresh) : Prop :=
  match r.phase with
  | .waiting => r.held = none ∧ r.presented = none ∧ r.outcome = .failed
  | .reading => r.held = none ∧ r.presented = none ∧ r.outcome = .failed
  | .authorizing => s.Unchanged r ∧ r.Asks
  | .checkClient _ => s.Unchanged r ∧ r.Asks
  | .writeClient _ => s.Unchanged r ∧ r.Asks
  | .presented => s.Unchanged r ∧ r.Presents
  | .check answer => s.Unchanged r ∧ r.Presents ∧ ∀ t ∈ answer.issues, s.Pending t
  | .write t => r.checkedAt = r.readAt ∧ s.Pending t
  | .deleteClient => r.checkedAt = r.readAt
  | .deleteTokens => r.checkedAt = r.readAt
  | .rereading => True
  | .over => True

structure Sound (s : State) : Prop where
  locked : Locked s
  stored : ∀ t, s.tokens = some t → t ∈ s.issued
  issue : ∀ t ∈ s.issued, ∀ u ∈ s.issued, t.refresh = u.refresh → t.refresh ≠ none → t = u
  held : ∀ (k : Nat) (r : Refresh) (t : Tokens), s.refreshes[k]? = some r → r.held = some t → t ∈ s.issued
  presented : ∀ (k : Nat) (r : Refresh) (token : Nat), s.refreshes[k]? = some r →
    r.presented = some token → ∃ t ∈ s.issued, t.refresh = some token
  phase : ∀ (k : Nat) (r : Refresh), s.refreshes[k]? = some r → PhaseOk s r
  /-- What was presented and did not fail is neither stored any more nor held by a later one. -/
  spent : ∀ (k : Nat) (r : Refresh) (token : Nat), s.refreshes[k]? = some r →
    r.presented = some token → r.outcome ≠ .failed → (∀ t, s.tokens = some t → t.refresh ≠ some token) ∧
        ∀ (j : Nat) (r' : Refresh) (t : Tokens), k < j → s.refreshes[j]? = some r' →
          r'.held = some t → t.refresh ≠ some token
  once : ∀ (j k : Nat) (r r' : Refresh) (token : Nat), j < k → s.refreshes[j]? = some r →
    s.refreshes[k]? = some r' → r.presented = some token → r'.presented = some token →
    r.outcome = .failed
  writes : ∀ w ∈ s.writes, w.read = w.checked

section

variable {s : State} {k : Nat} {r : Refresh}

theorem Sound.holds (h : Sound s) : Refreshed s := ⟨h.locked.alone, h.writes, h.once⟩

theorem PhaseOk.still {s' : State} (h : PhaseOk s r) (hp : r.phase = .waiting ∨ r.phase = .over) : PhaseOk s' r := by
  rcases hp with hp | hp
  · rw [PhaseOk, hp] at h ⊢
    exact h
  · rw [PhaseOk, hp]
    trivial

theorem PhaseOk.waits (h : PhaseOk s r) (hp : r.phase = .waiting) :
    r.held = none ∧ r.presented = none ∧ r.outcome = .failed := by
  rw [PhaseOk, hp] at h
  exact h

theorem Sound.init (tokens : Option Tokens) (client : Option Nat) : Sound (.init tokens client) := by
  constructor
  · exact .init tokens client
  · intro t ht
    exact Option.mem_toList.mpr ht
  · intro t ht u hu _ _
    have ht' : tokens = some t := Option.mem_toList.mp ht
    exact Option.some_inj.mp (ht'.symm.trans (Option.mem_toList.mp hu))
  · exact fun _ _ _ => nofun
  · exact fun _ _ _ => nofun
  · exact fun _ _ => nofun
  · exact fun _ _ _ => nofun
  · exact fun _ _ _ _ _ _ => nofun
  · exact fun _ => nofun

theorem PhaseOk.imp {s' : State} (h : PhaseOk s r) (hu : s.Unchanged r → s'.Unchanged r)
    (hp : ∀ t, s.Pending t → s'.Pending t) : PhaseOk s' r := by
  cases hph : r.phase with
  | waiting => rw [PhaseOk, hph] at h ⊢; exact h
  | reading => rw [PhaseOk, hph] at h ⊢; exact h
  | authorizing => rw [PhaseOk, hph] at h ⊢; exact ⟨hu h.1, h.2⟩
  | checkClient client => rw [PhaseOk, hph] at h ⊢; exact ⟨hu h.1, h.2⟩
  | writeClient client => rw [PhaseOk, hph] at h ⊢; exact ⟨hu h.1, h.2⟩
  | presented => rw [PhaseOk, hph] at h ⊢; exact ⟨hu h.1, h.2⟩
  | check answer => rw [PhaseOk, hph] at h ⊢; exact ⟨hu h.1, h.2.1, fun t ht => hp t (h.2.2 t ht)⟩
  | write t => rw [PhaseOk, hph] at h ⊢; exact ⟨h.1, hp t h.2⟩
  | deleteClient => rw [PhaseOk, hph] at h ⊢; exact h
  | deleteTokens => rw [PhaseOk, hph] at h ⊢; exact h
  | rereading => rw [PhaseOk, hph]; trivial
  | «over» => rw [PhaseOk, hph]; trivial

theorem pending_set {t : Tokens} (h : s.Pending t) (hr : s.refreshes[k]? = some r) {r' : Refresh}
    (hp : r'.presented = r.presented) : (s.setRefresh k r').Pending t := by
  refine ⟨h.issued, ?_⟩
  intro j q token hj hq
  rcases getElem?_set_cases hj with ⟨rfl, rfl⟩ | ⟨_, hj⟩
  · exact h.unknown _ r token hr (hp.symm.trans hq)
  · exact h.unknown j q token hj hq

theorem Sound.set (h : Sound s) (hr : s.refreshes[k]? = some r) {r' : Refresh} (hl : Locked (s.setRefresh k r'))
    (hothers : ∀ (j : Nat) (q : Refresh), s.refreshes[j]? = some q →
      j < k ∧ q.phase = .over ∨ j = k ∨ k < j ∧ q.phase = .waiting)
    (hheld : ∀ t, r'.held = some t → t ∈ s.issued ∧ ∀ (j : Nat) (q : Refresh) (token : Nat), j < k →
      s.refreshes[j]? = some q → q.presented = some token → q.outcome ≠ .failed → t.refresh ≠ some token)
    (hpresented : ∀ token, r'.presented = some token → (∃ t ∈ s.issued, t.refresh = some token) ∧
      ∀ (j : Nat) (q : Refresh), j < k → s.refreshes[j]? = some q → q.presented = some token → q.outcome = .failed)
    (hspent : ∀ token, r'.presented = some token → r'.outcome ≠ .failed →
      ∀ t, s.tokens = some t → t.refresh ≠ some token)
    (hphase : PhaseOk (s.setRefresh k r') r') : Sound (s.setRefresh k r') := by
  -- Those after it wait, so that they hold and have presented nothing.
  have hlater : ∀ (j : Nat) (q : Refresh), k < j → s.refreshes[j]? = some q → q.held = none ∧ q.presented = none := by
    intro j q hlt hj
    rcases hothers j q hj with ⟨hgt, _⟩ | rfl | ⟨_, hp⟩
    · exact absurd hlt (Nat.lt_asymm hgt)
    · exact absurd hlt (Nat.lt_irrefl _)
    · have hw := (h.phase j q hj).waits hp
      exact ⟨hw.1, hw.2.1⟩
  constructor
  · exact hl
  · exact h.stored
  · exact h.issue
  · intro j q t hj ht
    rcases getElem?_set_cases hj with ⟨_, rfl⟩ | ⟨_, hj⟩
    · exact (hheld t ht).1
    · exact h.held j q t hj ht
  · intro j q token hj hq
    rcases getElem?_set_cases hj with ⟨_, rfl⟩ | ⟨_, hj⟩
    · exact (hpresented token hq).1
    · exact h.presented j q token hj hq
  · intro j q hj
    rcases getElem?_set_cases hj with ⟨_, rfl⟩ | ⟨hne, hj⟩
    · exact hphase
    rcases hothers j q hj with ⟨_, hp⟩ | rfl | ⟨_, hp⟩
    · exact (h.phase j q hj).still (.inr hp)
    · exact absurd rfl hne
    · exact (h.phase j q hj).still (.inl hp)
  · intro j q token hj hq ho
    rcases getElem?_set_cases hj with ⟨rfl, rfl⟩ | ⟨_, hj'⟩
    · refine ⟨hspent token hq ho, ?_⟩
      intro j' q' t hlt hj' ht
      rcases getElem?_set_cases hj' with ⟨rfl, _⟩ | ⟨_, hj'⟩
      · exact absurd hlt (Nat.lt_irrefl _)
      · rw [(hlater j' q' hlt hj').1] at ht
        cases ht
    · obtain ⟨hstored, hafter⟩ := h.spent j q token hj' hq ho
      refine ⟨hstored, ?_⟩
      intro j' q' t hlt hj'' ht
      rcases getElem?_set_cases hj'' with ⟨rfl, rfl⟩ | ⟨_, hj''⟩
      · exact (hheld t ht).2 j q token hlt hj' hq ho
      · exact hafter j' q' t hlt hj'' ht
  · intro j j' q q' token hlt hj hj' hq hq'
    rcases getElem?_set_cases hj with ⟨rfl, rfl⟩ | ⟨_, hj₀⟩
    · rcases getElem?_set_cases hj' with ⟨rfl, _⟩ | ⟨_, hj'⟩
      · exact absurd hlt (Nat.lt_irrefl _)
      · rw [(hlater j' q' hlt hj').2] at hq'
        cases hq'
    · rcases getElem?_set_cases hj' with ⟨rfl, rfl⟩ | ⟨_, hj'⟩
      · exact (hpresented token hq').2 j q hlt hj₀ hq
      · exact h.once j j' q q' token hlt hj₀ hj' hq hq'
  · exact h.writes

theorem Sound.running_others (h : Sound s) (hr : s.refreshes[k]? = some r)
    (hrun : r.phase.running = true) (j : Nat) (q : Refresh) (hj : s.refreshes[j]? = some q) :
    j < k ∧ q.phase = .over ∨ j = k ∨ k < j ∧ q.phase = .waiting := by
  rcases h.locked.others hr hrun hj with hlt | ⟨he, _⟩ | hgt
  · exact .inl hlt
  · exact .inr (.inl he)
  · exact .inr (.inr hgt)

theorem Sound.quiet (h : Sound s) (hr : s.refreshes[k]? = some r) (hrun : r.phase.running = true)
    {r' : Refresh} (hafter : r'.after = r.after) (hheld : ∀ t, r'.held = some t → r.held = some t)
    (hpresented : r'.presented = r.presented)
    (hspent : ∀ token, r.presented = some token → r'.outcome ≠ .failed →
      ∀ t, s.tokens = some t → t.refresh ≠ some token)
    (hphase : PhaseOk s r') : Sound (s.setRefresh k r') := by
  refine h.set hr (h.locked.running hr hrun hafter) (h.running_others hr hrun) ?_ ?_ ?_ ?_
  · intro t ht
    have ht' := hheld t ht
    exact ⟨h.held k r t hr ht', fun j q token hlt hj hq ho => (h.spent j q token hj hq ho).2 k r t hlt hr ht'⟩
  · intro token htoken
    rw [hpresented] at htoken
    exact ⟨h.presented k r token hr htoken, fun j q hlt hj hq => h.once j k q r token hlt hj hr hq htoken⟩
  · intro token htoken
    exact hspent token (hpresented.symm.trans htoken)
  · exact hphase.imp id (fun _ hp => pending_set hp hr hpresented)

theorem Sound.spent_self (h : Sound s) (hr : s.refreshes[k]? = some r) (token : Nat)
    (hp : r.presented = some token) (ho : r.outcome ≠ .failed) (t : Tokens)
    (ht : s.tokens = some t) : t.refresh ≠ some token := (h.spent k r token hr hp ho).1 t ht

theorem Sound.beside (h : Sound s) {s' : State} (hl : Locked s') (ht : s'.tokens = s.tokens)
    (hc : s'.changes = s.changes) (hr : s'.refreshes = s.refreshes) (hw : s'.writes = s.writes)
    (hi : s'.issued = s.issued) : Sound s' := by
  have hpending : ∀ t, s.Pending t → s'.Pending t := by
    intro t hp
    refine ⟨hi ▸ hp.issued, ?_⟩
    rw [hr]
    exact hp.unknown
  constructor
  · exact hl
  · rw [ht, hi]
    exact h.stored
  · rw [hi]
    exact h.issue
  · rw [hr, hi]
    exact h.held
  · rw [hr, hi]
    exact h.presented
  · rw [hr]
    intro j q hj
    refine (h.phase j q hj).imp ?_ hpending
    intro hu
    rw [State.Unchanged, ht, hc]
    exact hu
  · rw [hr, ht]
    exact h.spent
  · rw [hr]
    exact h.once
  · rw [hw]
    exact h.writes

theorem Sound.setClient (h : Sound s) (client : Option Nat) : Sound { s with client } :=
  h.beside { h.locked with } rfl rfl rfl rfl rfl

theorem Sound.unchain (h : Sound s) (k : Nat) : Sound (s.unchain k) := by
  have hl := h.locked.unchain k
  revert hl
  unfold State.unchain
  split
  · intro hl
    exact h.beside hl rfl rfl rfl rfl rfl
  · intro _
    exact h

theorem Sound.run (h : Sound s) (kind : Kind) : Sound (s.run kind) := by
  constructor
  · exact h.locked.run kind
  · exact h.stored
  · exact h.issue
  · intro j q t hj ht
    rcases getElem?_concat_cases hj with hj | ⟨_, rfl⟩
    · exact h.held j q t hj ht
    · cases ht
  · intro j q token hj hq
    rcases getElem?_concat_cases hj with hj | ⟨_, rfl⟩
    · exact h.presented j q token hj hq
    · cases hq
  · intro j q hj
    rcases getElem?_concat_cases hj with hj | ⟨_, rfl⟩
    · refine (h.phase j q hj).imp id ?_
      intro t hp
      refine ⟨hp.issued, ?_⟩
      intro j' q' token hj' hq'
      rcases getElem?_concat_cases hj' with hj' | ⟨_, rfl⟩
      · exact hp.unknown j' q' token hj' hq'
      · cases hq'
    · exact ⟨rfl, rfl, rfl⟩
  · intro j q token hj hq ho
    rcases getElem?_concat_cases hj with hj | ⟨_, rfl⟩
    · obtain ⟨hstored, hafter⟩ := h.spent j q token hj hq ho
      refine ⟨hstored, ?_⟩
      intro j' q' t hlt hj' ht
      rcases getElem?_concat_cases hj' with hj' | ⟨_, rfl⟩
      · exact hafter j' q' t hlt hj' ht
      · cases ht
    · cases hq
  · intro j j' q q' token hlt hj hj' hq hq'
    rcases getElem?_concat_cases hj' with hj' | ⟨_, rfl⟩
    · rcases getElem?_concat_cases hj with hj | ⟨rfl, _⟩
      · exact h.once j j' q q' token hlt hj hj' hq hq'
      · exact absurd hlt (Nat.lt_asymm (lt_of_getElem? hj'))
    · cases hq'
  · exact h.writes

theorem Sound.begin (h : Sound s) (k : Nat) : Sound (s.begin k) := by
  unfold State.begin
  split
  next r hr =>
    split
    next hc =>
      obtain ⟨hw, ha⟩ := hc
      have hnone := (h.phase k r hr).waits hw
      have hbefore := h.locked.may_begin hr ha
      refine h.set hr (h.locked.set hr rfl (by rw [hw]; exact nofun) (fun _ j q => hbefore j q)) ?_ ?_ ?_ ?_ hnone
      · intro j q hj
        rcases Nat.lt_trichotomy j k with hlt | he | hgt
        · exact .inl ⟨hlt, hbefore j q hlt hj⟩
        · exact .inr (.inl he)
        · refine .inr (.inr ⟨hgt, ?_⟩)
          by_contra hne
          have ho := h.locked.begun k j q r hj hne hgt hr
          cases hw.symm.trans ho
      · intro t ht
        cases hnone.1.symm.trans ht
      · intro token htoken
        cases hnone.2.1.symm.trans htoken
      · intro token htoken
        cases hnone.2.1.symm.trans htoken
    · exact h
  · exact h

theorem phaseOk_settled (s : State) (r : Refresh) (hp : r.phase = .rereading ∨ r.phase = .over) : PhaseOk s r := by
  rcases hp with hp | hp
  · rw [PhaseOk, hp]
    trivial
  · rw [PhaseOk, hp]
    trivial

theorem Kind.settled_cases (kind : Kind) : kind.settled = .rereading ∨ kind.settled = .over := by
  cases kind with
  | connection stale => exact .inl rfl
  | background => exact .inr rfl

theorem Sound.read (h : Sound s) (k : Nat) (aged : Bool) : Sound (s.read k aged) := by
  unfold State.read
  split
  next r hr =>
    split
    next hp =>
      have hrun : r.phase.running = true := hp ▸ rfl
      have hok := h.phase k r hr
      rw [PhaseOk, hp] at hok
      have hsettled : Sound (s.setRefresh k { r with phase := r.kind.settled }) :=
        h.quiet hr hrun rfl (fun _ => id) rfl (h.spent_self hr) (phaseOk_settled s _ r.kind.settled_cases)
      split
      next t ht =>
        split
        · refine h.set hr (h.locked.running hr hrun rfl) (h.running_others hr hrun) ?_ ?_ ?_ ?_
          · intro u hu
            cases hu
            exact ⟨h.stored t ht, fun j q token _ hj hq ho => (h.spent j q token hj hq ho).1 t ht⟩
          · intro token htoken
            cases hok.2.1.symm.trans htoken
          · intro token htoken
            cases hok.2.1.symm.trans htoken
          · exact ⟨fun _ _ _ => rfl, fun _ => ⟨hok.2.1, hok.2.2⟩, nofun⟩
        · exact hsettled
      · exact hsettled
    · exact h
  · exact h

theorem Sound.register (h : Sound s) (k client : Nat) : Sound (s.register k client) := by
  unfold State.register
  split
  next r hr =>
    split
    next hp =>
      have hok := h.phase k r hr
      rw [PhaseOk, hp] at hok
      exact h.quiet hr (hp ▸ rfl) rfl (fun _ => id) rfl (h.spent_self hr) hok
    · exact h
  · exact h

theorem holds_some (hh : s.holds r = true) : ∃ t, r.held = some t ∧ s.tokens = some t := by
  rw [State.holds, Bool.and_eq_true, beq_iff_eq] at hh
  obtain ⟨t, ht⟩ := Option.isSome_iff_exists.mp hh.1
  exact ⟨t, ht, hh.2.trans ht⟩

theorem not_holds (hh : s.holds r ≠ true) {t : Tokens} (ht : r.held = some t) : s.tokens ≠ some t := by
  intro hs
  refine hh ?_
  rw [State.holds, ht, hs, Bool.and_eq_true, beq_iff_eq]
  exact ⟨rfl, rfl⟩

theorem giveUp_outcome (r : Refresh) (phase : Phase) : (r.giveUp phase).outcome ≠ .failed := by
  show (if r.outcome ≠ .signedOut then Outcome.superseded else r.outcome) ≠ .failed
  split
  · exact nofun
  next ho =>
    rw [Decidable.not_not.mp ho]
    exact nofun

theorem giveUp_asks (s : State) (r : Refresh) : s.Unchanged (r.giveUp .authorizing) ∧ (r.giveUp .authorizing).Asks :=
  ⟨fun _ => nofun, fun hh => absurd rfl hh, fun _ _ => giveUp_outcome r .authorizing⟩

theorem Sound.checkClient (h : Sound s) (k : Nat) : Sound (s.checkClient k) := by
  unfold State.checkClient
  split
  next r hr =>
    split
    next client hp =>
      have hrun : r.phase.running = true := hp ▸ rfl
      have hok := h.phase k r hr
      rw [PhaseOk, hp] at hok
      split
      · exact h.quiet hr hrun rfl (fun _ => id) rfl (h.spent_self hr) hok
      refine h.quiet hr hrun rfl (fun _ => nofun) rfl ?_ (giveUp_asks s r)
      intro token htoken _
      -- What it presented before this, it has lost.
      have hnone : r.held = none := by
        by_contra hne
        rw [(hok.2.1 hne).1] at htoken
        cases htoken
      refine h.spent_self hr token htoken (hok.2.2 hnone ?_)
      rw [htoken]
      exact nofun
    · exact h
  · exact h

theorem Sound.writeClient (h : Sound s) (k : Nat) : Sound (s.writeClient k) := by
  unfold State.writeClient
  split
  next r hr =>
    split
    next client hp =>
      have hok := h.phase k r hr
      rw [PhaseOk, hp] at hok
      have h' : Sound (s.setRefresh k { r with phase := .authorizing }) :=
        h.quiet hr (hp ▸ rfl) rfl (fun _ => id) rfl (h.spent_self hr) hok
      exact h'.setClient (some client)
    · exact h
  · exact h

/-- What it presents was stored as it read it, and what those before it did not fail with was not. -/
theorem Sound.present (h : Sound s) (k : Nat) : Sound (s.present k) := by
  unfold State.present
  split
  next r hr =>
    split
    next hp =>
      have hrun : r.phase.running = true := hp ▸ rfl
      have hok := h.phase k r hr
      rw [PhaseOk, hp] at hok
      split
      next token hb =>
        obtain ⟨t, ht, htoken⟩ := Option.bind_eq_some_iff.mp hb
        have hasked := hok.2.1 (by rw [ht]; exact nofun)
        refine h.set hr (h.locked.running hr hrun rfl) (h.running_others hr hrun) ?_ ?_ ?_ ?_
        · intro u hu
          exact ⟨h.held k r u hr hu, fun j q token hlt hj hq ho => (h.spent j q token hj hq ho).2 k r u hlt hr hu⟩
        · intro token' he
          cases he
          refine ⟨⟨t, h.held k r t hr ht, htoken⟩, ?_⟩
          intro j q hlt hj hq
          by_contra ho
          exact (h.spent j q token hj hq ho).2 k r t hlt hr ht htoken
        · intro _ _ ho
          exact absurd hasked.2 ho
        · exact ⟨hok.1, t, token, ht, htoken, rfl⟩
      · exact h
    · exact h
  · exact h

theorem fresh_spec {t : Tokens} (hf : s.fresh t = true) :
    t ∉ s.issued ∧ ∀ u ∈ s.issued, t.refresh ≠ none → u.refresh ≠ t.refresh := by
  have hall := all_eq_true.mp hf
  constructor
  · intro ht
    have hb := hall t ht
    rw [Bool.and_eq_true, bne_iff_ne] at hb
    exact hb.1 rfl
  · intro u hu hne
    have hb := hall u hu
    rw [Bool.and_eq_true, Bool.or_eq_true, beq_iff_eq] at hb
    exact bne_iff_ne.mp (hb.2.resolve_left hne)

theorem Sound.issues (h : Sound s) {t : Tokens} (hf : s.fresh t = true) : Sound { s with issued := s.issued ++ [t] } ∧
      State.Pending { s with issued := s.issued ++ [t] } t := by
  obtain ⟨hnew, hrefresh⟩ := fresh_spec hf
  have hgrow : ∀ u ∈ s.issued, u ∈ s.issued ++ [t] := fun u hu => mem_append_left _ hu
  refine ⟨?_, ?_⟩
  · refine ⟨{ h.locked with }, ?_, ?_, ?_, ?_, ?_, h.spent, h.once, h.writes⟩
    · exact fun u hu => hgrow u (h.stored u hu)
    · intro u hu v hv he hne
      rcases mem_append.mp hu with hu | hu
      · rcases mem_append.mp hv with hv | hv
        · exact h.issue u hu v hv he hne
        · cases mem_singleton.mp hv
          exact absurd he (hrefresh u hu (he ▸ hne))
      · cases mem_singleton.mp hu
        rcases mem_append.mp hv with hv | hv
        · exact absurd he.symm (hrefresh v hv hne)
        · exact (mem_singleton.mp hv).symm
    · exact fun j q u hj hu => hgrow u (h.held j q u hj hu)
    · intro j q token hj hq
      obtain ⟨u, hu, hut⟩ := h.presented j q token hj hq
      exact ⟨u, hgrow u hu, hut⟩
    · intro j q hj
      refine (h.phase j q hj).imp id ?_
      intro u hu
      exact ⟨hgrow u hu.issued, hu.unknown⟩
  · refine ⟨mem_append_right _ (mem_singleton.mpr rfl), ?_⟩
    intro j q token hj hq he
    obtain ⟨u, hu, hut⟩ := h.presented j q token hj hq
    refine hrefresh u hu ?_ (hut.trans he.symm)
    rw [he]
    exact nofun

theorem Sound.answer (h : Sound s) (k : Nat) (a : Answer) (hrot : Rotates s (.answer k a)) : Sound (s.answer k a) := by
  unfold State.answer
  split
  next r hr =>
    split
    next hp =>
      have hrun : r.phase.running = true := hp ▸ rfl
      have hok := h.phase k r hr
      rw [PhaseOk, hp] at hok
      cases a with
      | granted t =>
        obtain ⟨h', hpending⟩ := h.issues hrot
        have hphase : PhaseOk { s with issued := s.issued ++ [t] } { r with phase := .check (.granted t) } := by
          refine ⟨hok.1, hok.2, ?_⟩
          intro u hu
          cases mem_singleton.mp hu
          exact hpending
        exact h'.quiet hr hrun rfl (fun _ => id) rfl (h'.spent_self hr) hphase
      | refused all =>
        have h' : Sound (s.setRefresh k { r with phase := .check (.refused all) }) :=
          h.quiet hr hrun rfl (fun _ => id) rfl (h.spent_self hr) ⟨hok.1, hok.2, fun _ => nofun⟩
        exact h'.beside { h'.locked with } rfl rfl rfl rfl (append_nil _)
    · exact h
  · exact h

theorem Sound.check (h : Sound s) (k : Nat) : Sound (s.check k) := by
  unfold State.check
  split
  next r hr =>
    have hok := h.phase k r hr
    -- Where other tokens are stored than it holds, what it presented is not stored.
    have hlost : r.Presents → s.holds r ≠ true → ∀ token, r.presented = some token →
        ∀ t, s.tokens = some t → t.refresh ≠ some token := by
      rintro ⟨u, token', hu, hut, hp⟩ hh token htoken t ht he
      cases hp.symm.trans htoken
      have heq := h.issue t (h.stored t ht) u (h.held k r u hr hu) (he.trans hut.symm) (by rw [he]; exact nofun)
      exact not_holds hh hu (heq ▸ ht)
    split
    next t hp =>
      have hrun : r.phase.running = true := hp ▸ rfl
      rw [PhaseOk, hp] at hok
      obtain ⟨hu, hpres, hpend⟩ := hok
      have hpending := hpend t (mem_singleton.mpr rfl)
      split
      next hh =>
        obtain ⟨u, hheld, hstored⟩ := holds_some hh
        refine h.set hr (h.locked.running hr hrun rfl) (h.running_others hr hrun) ?_ ?_ ?_ ?_
        · intro v hv
          cases hv
          exact ⟨hpending.issued, fun j q token _ hj hq _ => hpending.unknown j q token hj hq⟩
        · intro token htoken
          exact ⟨h.presented k r token hr htoken, fun j q hlt hj hq => h.once j k q r token hlt hj hr hq htoken⟩
        · exact fun token htoken ho => h.spent_self hr token htoken ho
        · exact ⟨hu u hheld hstored, pending_set hpending hr rfl⟩
      next hh =>
        exact h.quiet hr hrun rfl (fun _ => nofun) rfl (fun token htoken _ => hlost hpres hh token htoken)
          (phaseOk_settled s _ r.kind.settled_cases)
    next all hp =>
      have hrun : r.phase.running = true := hp ▸ rfl
      rw [PhaseOk, hp] at hok
      obtain ⟨hu, hpres, _⟩ := hok
      split
      next hh =>
        obtain ⟨u, hheld, hstored⟩ := holds_some hh
        refine h.quiet hr hrun rfl (fun _ => id) rfl (h.spent_self hr) ?_
        cases all with
        | true => exact hu u hheld hstored
        | false => exact hu u hheld hstored
      next hh =>
        exact h.quiet hr hrun rfl (fun _ => nofun) rfl (fun token htoken _ => hlost hpres hh token htoken)
          (giveUp_asks s r)
    · exact h
  · exact h

theorem Sound.store (h : Sound s) (hr : s.refreshes[k]? = some r) (hrun : r.phase.running = true)
    (hsay : ∀ s' : State, (∀ t, s.Pending t → s'.Pending t) → PhaseOk s' r)
    (hchecked : r.checkedAt = r.readAt) (tokens : Option Tokens)
    (hpending : ∀ t, tokens = some t → s.Pending t) : Sound (s.store tokens r) := by
  constructor
  · exact { h.locked with }
  · exact fun t ht => (hpending t ht).issued
  · exact h.issue
  · exact h.held
  · exact h.presented
  · intro j q hj
    rcases h.running_others hr hrun j q hj with ⟨_, hq⟩ | rfl | ⟨_, hq⟩
    · exact (h.phase j q hj).still (.inr hq)
    · cases hr.symm.trans hj
      exact hsay _ (fun t ht => ⟨ht.issued, ht.unknown⟩)
    · exact (h.phase j q hj).still (.inl hq)
  · intro j q token hj hq ho
    exact ⟨fun t ht => (hpending t ht).unknown j q token hj hq, (h.spent j q token hj hq ho).2⟩
  · exact h.once
  · intro w hw
    rcases mem_append.mp hw with hw | hw
    · exact h.writes w hw
    · cases mem_singleton.mp hw
      exact hchecked.symm

theorem Sound.write (h : Sound s) (k : Nat) : Sound (s.write k) := by
  unfold State.write
  split
  next r hr =>
    split
    next t hp =>
      have hrun : r.phase.running = true := hp ▸ rfl
      have hok := h.phase k r hr
      rw [PhaseOk, hp] at hok
      obtain ⟨hchecked, hpending⟩ := hok
      have h' : Sound (s.store (some t) r) := by
        refine h.store hr hrun ?_ hchecked (some t) ?_
        · intro s' hs
          rw [PhaseOk, hp]
          exact ⟨hchecked, hs t hpending⟩
        intro u hu
        cases hu
        exact hpending
      refine h'.quiet hr hrun rfl (fun _ => id) rfl ?_ (phaseOk_settled _ _ r.kind.settled_cases)
      intro token htoken _ u hu
      cases hu
      exact hpending.unknown k r token hr htoken
    · exact h
  · exact h

theorem Sound.deleteClient (h : Sound s) (k : Nat) : Sound (s.deleteClient k) := by
  unfold State.deleteClient
  split
  next r hr =>
    split
    next hp =>
      have hok := h.phase k r hr
      rw [PhaseOk, hp] at hok
      have h' : Sound (s.setRefresh k { r with phase := .deleteTokens }) :=
        h.quiet hr (hp ▸ rfl) rfl (fun _ => id) rfl (h.spent_self hr) hok
      exact h'.setClient none
    · exact h
  · exact h

theorem Sound.deleteTokens (h : Sound s) (k : Nat) : Sound (s.deleteTokens k) := by
  unfold State.deleteTokens
  split
  next r hr =>
    split
    next hp =>
      have hrun : r.phase.running = true := hp ▸ rfl
      have hok := h.phase k r hr
      rw [PhaseOk, hp] at hok
      have h' : Sound (s.store none r) := by
        refine h.store hr hrun ?_ hok none (fun _ => nofun)
        intro s' _
        rw [PhaseOk, hp]
        exact hok
      refine h'.quiet (r := r) hr hrun rfl (fun _ => nofun) rfl (fun _ _ _ _ => nofun) ?_
      exact ⟨fun _ => nofun, fun hh => absurd rfl hh, fun _ _ => nofun⟩
    · exact h
  · exact h

theorem Refresh.endPhase_cases (r : Refresh) : r.endPhase = r.phase ∨
    r.phase.running = true ∧ (r.endPhase = .rereading ∨ r.endPhase = .over) := by
  unfold Refresh.endPhase
  split
  next hp =>
    exact .inl hp.symm
  next hp =>
    exact .inr ⟨hp ▸ rfl, .inr rfl⟩
  next hp =>
    exact .inr ⟨hp ▸ rfl, .inr rfl⟩
  next hp =>
    exact .inl hp.symm
  next hw _ _ ho =>
    refine .inr ⟨?_, r.kind.settled_cases⟩
    cases hp : r.phase with
    | waiting => exact absurd hp hw
    | «over» => exact absurd hp ho
    | _ => rfl

theorem Sound.endRefresh (h : Sound s) (k : Nat) : Sound (s.endRefresh k) := by
  unfold State.endRefresh
  split
  next r hr =>
    rcases r.endPhase_cases with he | ⟨hrun, hp⟩
    · rw [he]
      have hself : s.setRefresh k r = s := by
        have hset : s.refreshes.set k r = s.refreshes := by
          refine ext_getElem? ?_
          intro j
          by_cases hj : k = j
          · subst hj
            rw [getElem?_set_self (lt_of_getElem? hr), hr]
          · rw [getElem?_set_ne hj]
        rw [State.setRefresh, hset]
      show Sound (s.setRefresh k r)
      rw [hself]
      exact h
    · exact h.quiet hr hrun rfl (fun _ => id) rfl (h.spent_self hr) (phaseOk_settled s _ hp)
  · exact h

theorem Sound.signOut (h : Sound s) : Sound s.signOut := by
  refine ⟨{ h.locked with }, fun _ => nofun, h.issue, h.held, h.presented, ?_, ?_, h.once, h.writes⟩
  · intro j q hj
    exact (h.phase j q hj).imp (fun _ _ _ => nofun) (fun t ht => ⟨ht.issued, ht.unknown⟩)
  · intro j q token hj hq ho
    exact ⟨fun _ => nofun, (h.spent j q token hj hq ho).2⟩

theorem Sound.signIn (h : Sound s) {t : Tokens} (hf : s.fresh t = true) : Sound (s.signIn t) := by
  obtain ⟨h', hpending⟩ := h.issues hf
  refine ⟨{ h'.locked with }, ?_, h'.issue, h'.held, h'.presented, ?_, ?_, h'.once, h'.writes⟩
  · intro u hu
    cases hu
    exact hpending.issued
  · intro j q hj
    refine (h'.phase j q hj).imp ?_ (fun u hu => ⟨hu.issued, hu.unknown⟩)
    intro _ u hu hs
    cases hs
    exact absurd (h.held j q t hj hu) (fresh_spec hf).1
  · intro j q token hj hq ho
    refine ⟨?_, (h'.spent j q token hj hq ho).2⟩
    intro u hu
    cases hu
    exact hpending.unknown j q token hj hq

theorem Sound.kept (h : Sound s) (e : Event) (hrot : Rotates s e) : Sound (step s e) := by
  cases e with
  | run kind => exact h.run kind
  | begin k => exact h.begin k
  | read k aged => exact h.read k aged
  | register k client => exact h.register k client
  | checkClient k => exact h.checkClient k
  | writeClient k => exact h.writeClient k
  | present k => exact h.present k
  | answer k a => exact h.answer k a hrot
  | check k => exact h.check k
  | write k => exact h.write k
  | deleteClient k => exact h.deleteClient k
  | deleteTokens k => exact h.deleteTokens k
  | endRefresh k => exact h.endRefresh k
  | unchain k => exact h.unchain k
  | signOut => exact h.signOut
  | setClient client => exact h.setClient client
  | signIn t => exact h.signIn hrot

end

/-- With an authorization server that rotates, refreshes run one at a time, one writes after a change by
the user only where the change came after its last check, and a refresh token is presented again only
after a refresh that failed with it. -/
theorem refreshed (tokens : Option Tokens) (client : Option Nat) (es : List Event)
    (h : Run.Along step Rotates (.init tokens client) es) :
    Refreshed (Run.exec step (.init tokens client) es) := by
  have hs := h.invariant Sound (fun _ e hrot hs => hs.kept e hrot) (Sound.init tokens client)
  exact hs.holds

def refreshedTwice : List Event :=
  [.run .background, .begin 0, .read 0 true, .present 0, .answer 0 (.granted ⟨2, some 12⟩),
    .run (.connection 2), .check 0, .write 0, .begin 1, .read 1 false, .present 1,
    .answer 1 (.granted ⟨3, some 13⟩), .check 1, .write 1]

theorem refreshed_refreshedTwice : Refreshed (Run.exec step (.init (some ⟨1, some 11⟩) none) refreshedTwice) :=
  refreshed (some ⟨1, some 11⟩) none refreshedTwice (by decide)

def signedOutMeanwhile : List Event :=
  [.run .background, .begin 0, .read 0 true, .present 0, .answer 0 (.granted ⟨2, some 12⟩), .check 0,
    .signOut, .write 0]

/-- The authorization server does not answer the first refresh. -/
def askedAgain : List Event :=
  [.run .background, .begin 0, .read 0 true, .present 0, .endRefresh 0, .run .background, .begin 1,
    .read 1 true, .present 1]

/-- The authorization server keeps its refresh token. -/
def notRotated : List Event :=
  [.run .background, .begin 0, .read 0 true, .present 0, .answer 0 (.granted ⟨2, some 11⟩), .check 0,
    .write 0, .run .background, .begin 1, .read 1 true, .present 1]

/-- A refresh can undo a sign-out, and a refresh token is presented twice where the first refresh with it
failed, or where the authorization server does not rotate. -/
theorem refresh_not_exclusive : (¬ ∀ tokens client es, Run.Along step Rotates (.init tokens client) es →
      ∀ w ∈ (Run.exec step (.init tokens client) es).writes, w.read = w.made) ∧
    (¬ ∀ tokens client es, Run.Along step Rotates (.init tokens client) es →
      ((Run.exec step (.init tokens client) es).refreshes.filterMap Refresh.presented).Nodup) ∧
    ¬ ∀ tokens client es, Refreshed (Run.exec step (.init tokens client) es) := by
  refine ⟨?_, ?_, ?_⟩
  · intro h
    have hw := h (some ⟨1, some 11⟩) none signedOutMeanwhile (by decide) ⟨0, 0, 1⟩ (by decide)
    exact absurd hw (by decide)
  · intro h
    have hn := h (some ⟨1, some 11⟩) none askedAgain (by decide)
    exact absurd hn (by decide)
  · intro h
    have hr := h (some ⟨1, some 11⟩) none notRotated
    have ho := hr.once 0 1 _ _ 11 Nat.zero_lt_one rfl rfl rfl rfl
    cases ho

end Reins.McpOauth
