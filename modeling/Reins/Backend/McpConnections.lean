import Reins.Lib.Places
import Reins.Lib.Run

/-!
# The connection to one MCP server (`backend/src/extensions/mcp/connections.ts`)

The entries of two servers share nothing but `closed`. Clients and requests are known by their places,
so that an entry could lose one: what a request, a connection attempt or a client of the past still does
is a step like any other. A request's `finally` is a step of its own.
-/

namespace Reins.McpConnections

open Places List Option

inductive Failure
  | needsSignIn
  | error (message : String)
  deriving DecidableEq

inductive Status
  | opening
  | opened
  | closed
  deriving DecidableEq

structure Connection where
  generation : Nat
  status : Status
  /-- What `open` came to; `true` is the connection. -/
  outcome : Option Bool
  tools : Option Nat
  deriving DecidableEq

inductive Phase
  /-- `connection` waits for `mcpSignedIn`. -/
  | asking
  | waiting (connection : Nat)
  | working (connection : Nat)
  /-- `requestFailed` waits for the connection it dropped. -/
  | dropping (connection : Nat) (retry : Bool) (failure : Failure)
  /-- It returned or threw; its `finally` is next. -/
  | ending
  | over
  deriving DecidableEq

/-- A call of `use`. -/
structure Request where
  lists : Bool
  aborted : Bool
  /-- `attempt` is 1. -/
  again : Bool
  phase : Phase
  deriving DecidableEq

/-- The `Entry`, and what there is beside it. -/
structure State where
  connection : Option Nat
  connecting : Option Nat
  failure : Option Failure
  inFlight : Nat
  idleTimer : Bool
  generation : Nat
  closed : Bool
  connections : List Connection
  requests : List Request
  listings : Nat
  /-- How often `changed` was told. -/
  told : Nat

def State.init : State :=
  { connection := none, connecting := none, failure := none, inFlight := 0, idleTimer := false,
    generation := 0, closed := false, connections := [], requests := [], listings := 0, told := 0 }

def State.setConnection (s : State) (i : Nat) (c : Connection) : State :=
  { s with connections := s.connections.set i c }

def State.setRequest (s : State) (r : Nat) (q : Request) : State := { s with requests := s.requests.set r q }

variable {s' : State} {q' : Request} {c' : Connection} {removed : Bool}

def State.recordFailure (s : State) (failure : Failure) : State :=
  { s with failure := some failure, told := s.told + 1 }

def Connection.close (c : Connection) : Connection := { c with status := .closed }

def State.drop (s : State) (connection : Option Nat) : State :=
  match connection with
  | some i =>
    { s with
      idleTimer := false
      connection := if s.connection = some i then none else s.connection
      connections := s.connections.modify i Connection.close }
  | none => { s with idleTimer := false }

def State.scheduleIdle (s : State) : State :=
  if 0 < s.inFlight ∨ s.connection = none ∨ s.closed then s else { s with idleTimer := true }

/-- Where `connection` gets, up to its first `await`; the server may have been removed. -/
def State.askPhase (s : State) (aborted removed : Bool) : Phase :=
  if aborted ∨ s.closed ∨ removed then .ending else .asking

def State.use (s : State) (lists aborted removed : Bool) : State :=
  { s with
    inFlight := s.inFlight + 1
    idleTimer := false
    requests := s.requests ++ [⟨lists, aborted, false, s.askPhase aborted removed⟩] }

def State.toolsOf (s : State) (i : Nat) : State :=
  match s.connections[i]? with
  | some c =>
    match c.tools with
    | some _ => s
    | none => { s.setConnection i { c with tools := some s.listings } with listings := s.listings + 1 }
  | none => s

def State.startWork (s : State) (r : Nat) (q : Request) (i : Nat) : State :=
  let s' := s.setRequest r { q with phase := .working i }
  if q.lists then s'.toolsOf i else s'

/-- `open`, to its first `await`. -/
def State.open (s : State) : State :=
  { s with
    connections := s.connections ++ [⟨s.generation, .opening, none, none⟩]
    connecting := some s.connections.length }

/-- `mcpSignedIn` answers. -/
def State.signedIn (s : State) (r : Nat) (blocked : Bool) : State :=
  match s.requests[r]? with
  | some q =>
    match q.phase with
    | .asking =>
      if blocked then s.setRequest r { q with phase := .ending }
      else
        match s.connection with
        | some i => s.startWork r q i
        | none =>
          match s.connecting with
          | some i => s.setRequest r { q with phase := .waiting i }
          | none => s.open.setRequest r { q with phase := .waiting s.connections.length }
    | _ => s
  | none => s

/-- `connect` resolves. The promise that `connecting` holds settles with it, unless the client is to be
closed first. -/
def State.connected (s : State) (i : Nat) : State :=
  match s.connections[i]? with
  | some c =>
    if c.status = .opening then
      if c.generation ≠ s.generation ∨ s.closed then
        s.setConnection i { c with status := .closed }
      else
        { s.setConnection i { c with status := .opened, outcome := some true } with
          connection := some i
          connecting := if s.connecting = some i then none else s.connecting
          failure := none
          told := if s.failure = none then s.told else s.told + 1 }
    else s
  | none => s

/-- `connect` rejects. -/
def State.connectFails (s : State) (i : Nat) (failure : Failure) : State :=
  match s.connections[i]? with
  | some c =>
    if c.status = .opening then
      let s' := { s.setConnection i { c with status := .closed, outcome := some false } with
        connecting := if s.connecting = some i then none else s.connecting }
      if c.generation ≠ s.generation then s' else s'.recordFailure failure
    else s
  | none => s

/-- The client that `open` closed, for its entry changed, is closed. -/
def State.refused (s : State) (i : Nat) : State :=
  match s.connections[i]? with
  | some c =>
    if c.status = .closed ∧ c.outcome = none then
      { s.setConnection i { c with outcome := some false } with
        connecting := if s.connecting = some i then none else s.connecting }
    else s
  | none => s

/-- The caller goes on with what the attempt came to. -/
def State.attempted (s : State) (r : Nat) : State :=
  match s.requests[r]? with
  | some q =>
    match q.phase with
    | .waiting i =>
      match s.connections[i]? with
      | some c =>
        match c.outcome with
        | some true => s.startWork r q i
        | some false => s.setRequest r { q with phase := .ending }
        | none => s
      | none => s
    | _ => s
  | none => s

def State.abort (s : State) (r : Nat) : State :=
  match s.requests[r]? with
  | some q => s.setRequest r { q with aborted := true }
  | none => s

/-- `abortable` rejects. -/
def State.givesUp (s : State) (r : Nat) : State :=
  match s.requests[r]? with
  | some q =>
    match q.phase with
    | .waiting _ => if q.aborted then s.setRequest r { q with phase := .ending } else s
    | _ => s
  | none => s

inductive WorkOutcome
  | done
  | sessionGone (failure : Failure)
  /-- An `McpError` other than `ConnectionClosed`. -/
  | answered
  | failed (failure : Failure)
  deriving DecidableEq

def State.workEnds (s : State) (r : Nat) (outcome : WorkOutcome) : State :=
  match s.requests[r]? with
  | some q =>
    match q.phase with
    | .working i =>
      match outcome with
      | .done => s.setRequest r { q with phase := .ending }
      | .sessionGone failure => (s.drop (some i)).setRequest r { q with phase := .dropping i true failure }
      | .answered => s.setRequest r { q with phase := .ending }
      | .failed failure =>
        if q.aborted then s.setRequest r { q with phase := .ending }
        else (s.drop (some i)).setRequest r { q with phase := .dropping i false failure }
    | _ => s
  | none => s

/-- The dropped client is closed: the request is sent once more, or its failure is recorded. -/
def State.dropped (s : State) (r : Nat) (removed : Bool) : State :=
  match s.requests[r]? with
  | some q =>
    match q.phase with
    | .dropping _ retry failure =>
      if retry ∧ !q.again then
        s.setRequest r { q with again := true, phase := s.askPhase q.aborted removed }
      else (s.setRequest r { q with phase := .ending }).recordFailure failure
    | _ => s
  | none => s

/-- `use`'s `finally`. -/
def State.finish (s : State) (r : Nat) : State :=
  match s.requests[r]? with
  | some q =>
    match q.phase with
    | .ending =>
      { s.setRequest r { q with phase := .over } with inFlight := s.inFlight - 1 }.scheduleIdle
    | _ => s
  | none => s

def State.disconnect (s : State) : State :=
  { s with generation := s.generation + 1, failure := none, connecting := none }.drop s.connection

def State.close (s : State) : State := { s with closed := true }.disconnect

def State.idle (s : State) : State :=
  if s.idleTimer then
    if s.inFlight = 0 then { s with idleTimer := false }.drop s.connection
    else { s with idleTimer := false }
  else s

/-- The client's `onclose`, when its other end closed it. -/
def State.onclose (s : State) (i : Nat) : State :=
  match s.connections[i]? with
  | some c =>
    if c.status = .opened then
      { s.setConnection i { c with status := .closed } with
        connection := if s.connection = some i then none else s.connection }
    else s
  | none => s

def State.toolsChanged (s : State) (i : Nat) : State :=
  match s.connections[i]? with
  | some c => s.setConnection i { c with tools := none }
  | none => s

def State.listingFails (s : State) (i listing : Nat) : State :=
  match s.connections[i]? with
  | some c => if c.tools = some listing then s.setConnection i { c with tools := none } else s
  | none => s

inductive Event
  | use (lists aborted removed : Bool)
  | signedIn (request : Nat) (blocked : Bool)
  | connected (connection : Nat)
  | connectFails (connection : Nat) (failure : Failure)
  | refused (connection : Nat)
  | attempted (request : Nat)
  | abort (request : Nat)
  | givesUp (request : Nat)
  | workEnds (request : Nat) (outcome : WorkOutcome)
  | dropped (request : Nat) (removed : Bool)
  | finish (request : Nat)
  | disconnect
  | close
  | idle
  | onclose (connection : Nat)
  | toolsChanged (connection : Nat)
  | listingFails (connection listing : Nat)

def step (s : State) : Event → State
  | .use lists aborted removed => s.use lists aborted removed
  | .signedIn r blocked => s.signedIn r blocked
  | .connected i => s.connected i
  | .connectFails i failure => s.connectFails i failure
  | .refused i => s.refused i
  | .attempted r => s.attempted r
  | .abort r => s.abort r
  | .givesUp r => s.givesUp r
  | .workEnds r outcome => s.workEnds r outcome
  | .dropped r removed => s.dropped r removed
  | .finish r => s.finish r
  | .disconnect => s.disconnect
  | .close => s.close
  | .idle => s.idle
  | .onclose i => s.onclose i
  | .toolsChanged i => s.toolsChanged i
  | .listingFails i listing => s.listingFails i listing

/-! ## What is asked of it -/

/-- It is open, or will be: an attempt that a `disconnect` or a `close` found is closed when it opens. -/
def State.lives (s : State) (c : Connection) : Prop :=
  c.status = .opened ∨ c.status = .opening ∧ c.generation = s.generation ∧ s.closed = false

def Tended (s : State) : Prop :=
  ∀ (i : Nat) (c : Connection), s.connections[i]? = some c → s.lives c → s.inFlight = 0 → s.idleTimer = true

def Abandons (s : State) : Event → Prop
  | .finish r =>
    s.requests[r]?.map Request.phase = some .ending ∧ s.inFlight = 1 ∧ s.connecting ≠ none ∧ s.closed = false
  | _ => False

instance (s : State) (e : Event) : Decidable (Abandons s e) := by
  unfold Abandons
  split <;> infer_instance

def Phase.connection : Phase → Option Nat
  | .waiting i => some i
  | .working i => some i
  | .dropping i _ _ => some i
  | _ => none

def State.generationOf (s : State) (i : Nat) : Option Nat := s.connections[i]?.map Connection.generation

def State.requestGeneration (s : State) (r : Nat) : Option Nat :=
  (s.requests[r]?.bind fun q => q.phase.connection).bind s.generationOf

def State.actor (s : State) : Event → Option Nat
  | .connected i => s.generationOf i
  | .connectFails i _ => s.generationOf i
  | .refused i => s.generationOf i
  | .onclose i => s.generationOf i
  | .toolsChanged i => s.generationOf i
  | .listingFails i _ => s.generationOf i
  | .attempted r => s.requestGeneration r
  | .workEnds r _ => s.requestGeneration r
  | .dropped r _ => s.requestGeneration r
  | _ => none

structure Untouched (s s' : State) : Prop where
  failure : s'.failure = s.failure
  told : s'.told = s.told
  connection : s'.connection = s.connection
  connections : ∀ (i : Nat) (c : Connection), s.connections[i]? = some c →
    c.generation = s.generation → s'.connections[i]? = some c

/-- What is left of an earlier generation leaves the current one alone. -/
def Spares (s : State) (e : Event) : Prop := ∀ g, s.actor e = some g → g < s.generation → Untouched s (step s e)

/-- A request that failed on a connection of an earlier generation, and is not sent again, comes to where
its failure is recorded. -/
def RecordsLate (s : State) : Event → Prop
  | .dropped r _ =>
    (s.requests[r]?.any fun q =>
      match q.phase with
      | .dropping i retry _ => (!retry || q.again) && (s.generationOf i).any fun g => decide (g < s.generation)
      | _ => false) = true
  | _ => False

instance (s : State) (e : Event) : Decidable (RecordsLate s e) := by
  unfold RecordsLate
  split <;> infer_instance

/-! ## The entry and its connections -/

structure Wired (s : State) : Prop where
  generation : ∀ (i : Nat) (c : Connection), s.connections[i]? = some c → c.generation ≤ s.generation
  outcome : ∀ (i : Nat) (c : Connection), s.connections[i]? = some c → c.status = .opening → c.outcome = none
  opened : ∀ (i : Nat) (c : Connection), s.connections[i]? = some c → c.status = .opened → s.connection = some i
  opening : ∀ (i : Nat) (c : Connection), s.connections[i]? = some c → c.status = .opening →
    c.generation = s.generation → s.connecting = some i
  connection : ∀ i, s.connection = some i → ∃ c, s.connections[i]? = some c ∧
    c.status = .opened ∧ c.generation = s.generation
  connecting : ∀ i, s.connecting = some i → s.connection = none ∧ ∃ c,
    s.connections[i]? = some c ∧ c.generation = s.generation ∧ (c.status = .opening ∨ s.closed = true)
  closed : s.closed = true → s.connection = none
  work : ∀ (r : Nat) (q : Request) (i : Nat), s.requests[r]? = some q → q.phase = .working i →
    ∃ c, s.connections[i]? = some c ∧ c.status ≠ .opening

section

variable {s : State} {r i : Nat} {q : Request} {c : Connection}

theorem drop_some (hc : s.connections[i]? = some c) : s.drop (some i) =
      { s with
        idleTimer := false
        connection := if s.connection = some i then none else s.connection
        connections := s.connections.set i { c with status := .closed } } := by
  have hm : s.connections.modify i Connection.close = s.connections.set i c.close := by
    refine ext_getElem? ?_
    intro j
    by_cases hj : i = j
    · subst hj
      rw [getElem?_modify_eq, getElem?_set_self (lt_of_getElem? hc), hc]
      rfl
    · rw [getElem?_modify_ne _ _ hj, getElem?_set_ne hj]
  rw [State.drop, hm]
  rfl

theorem Wired.init : Wired .init := by
  constructor
  · exact fun _ _ => nofun
  · exact fun _ _ => nofun
  · exact fun _ _ => nofun
  · exact fun _ _ => nofun
  · exact fun _ => nofun
  · exact fun _ => nofun
  · exact nofun
  · exact fun _ _ _ => nofun

theorem Wired.setRequest (h : Wired s)
    (hw : ∀ i, q'.phase = .working i → ∃ c, s.connections[i]? = some c ∧ c.status ≠ .opening) :
    Wired (s.setRequest r q') := by
  refine { h with work := ?_ }
  intro r' q'' i hq hp
  rcases getElem?_set_cases hq with ⟨_, rfl⟩ | ⟨_, hq⟩
  · exact hw i hp
  · exact h.work r' q'' i hq hp

theorem Wired.setTools (h : Wired s) (hc : s.connections[i]? = some c) (tools : Option Nat) :
    Wired (s.setConnection i { c with tools }) := by
  have hback : ∀ (j : Nat) (d : Connection), (s.setConnection i { c with tools }).connections[j]? =
      some d → ∃ d₀, s.connections[j]? = some d₀ ∧ d.generation = d₀.generation ∧
        d.status = d₀.status ∧ d.outcome = d₀.outcome := by
    intro j d hd
    rcases getElem?_set_cases hd with ⟨rfl, rfl⟩ | ⟨_, hd⟩
    · exact ⟨c, hc, rfl, rfl, rfl⟩
    · exact ⟨d, hd, rfl, rfl, rfl⟩
  have hforth : ∀ (j : Nat) (d₀ : Connection), s.connections[j]? = some d₀ → ∃ d,
      (s.setConnection i { c with tools }).connections[j]? = some d ∧
        d.generation = d₀.generation ∧ d.status = d₀.status := by
    intro j d₀ hd
    by_cases hj : i = j
    · subst hj
      cases hc.symm.trans hd
      exact ⟨_, getElem?_set_self (lt_of_getElem? hc), rfl, rfl⟩
    · exact ⟨d₀, (getElem?_set_ne hj).trans hd, rfl, rfl⟩
  constructor
  · intro j d hd
    obtain ⟨d₀, hd₀, hg, _, _⟩ := hback j d hd
    rw [hg]
    exact h.generation j d₀ hd₀
  · intro j d hd ho
    obtain ⟨d₀, hd₀, _, hst, hout⟩ := hback j d hd
    rw [hout]
    exact h.outcome j d₀ hd₀ (hst.symm.trans ho)
  · intro j d hd ho
    obtain ⟨d₀, hd₀, _, hst, _⟩ := hback j d hd
    exact h.opened j d₀ hd₀ (hst.symm.trans ho)
  · intro j d hd ho hgen
    obtain ⟨d₀, hd₀, hg, hst, _⟩ := hback j d hd
    exact h.opening j d₀ hd₀ (hst.symm.trans ho) (hg.symm.trans hgen)
  · intro j hj
    obtain ⟨d₀, hd₀, hst, hg⟩ := h.connection j hj
    obtain ⟨d, hd, hg', hst'⟩ := hforth j d₀ hd₀
    exact ⟨d, hd, hst'.trans hst, hg'.trans hg⟩
  · intro j hj
    obtain ⟨hn, d₀, hd₀, hg, hst⟩ := h.connecting j hj
    obtain ⟨d, hd, hg', hst'⟩ := hforth j d₀ hd₀
    refine ⟨hn, d, hd, hg'.trans hg, ?_⟩
    rw [hst']
    exact hst
  · exact h.closed
  · intro r' q' j hq hp
    obtain ⟨d₀, hd₀, hst⟩ := h.work r' q' j hq hp
    obtain ⟨d, hd, _, hst'⟩ := hforth j d₀ hd₀
    refine ⟨d, hd, ?_⟩
    rw [hst']
    exact hst

theorem Wired.closes (h : Wired s)
    (hc : s.connections[i]? = some c) (hconnections : s'.connections = s.connections.set i c')
    (hstatus : c'.status = .closed) (hgen : c'.generation = c.generation)
    (hgeneration : s'.generation = s.generation) (hclosed : s'.closed = s.closed)
    (hrequests : s'.requests = s.requests)
    (hconnection : ∀ j, s'.connection = some j ↔ s.connection = some j ∧ i ≠ j)
    (hconnecting : ∀ j, s'.connecting = some j → s.connecting = some j ∧ (i ≠ j ∨ s.closed = true))
    (hother : ∀ j, i ≠ j → s.connecting = some j → s'.connecting = some j) : Wired s' := by
  have hnone : s.connection = none → s'.connection = none := by
    intro hn
    refine eq_none_iff_forall_not_mem.mpr ?_
    intro j hj
    have hsome := ((hconnection j).mp hj).1
    cases hn.symm.trans hsome
  have hforth : ∀ (j : Nat) (d : Connection), i ≠ j → s.connections[j]? = some d → s'.connections[j]? = some d := by
    intro j d hj hd
    rw [hconnections, getElem?_set_ne hj]
    exact hd
  have hself : s'.connections[i]? = some c' := by
    rw [hconnections]
    exact getElem?_set_self (lt_of_getElem? hc)
  constructor
  · intro j d hd
    rw [hconnections] at hd
    rw [hgeneration]
    rcases getElem?_set_cases hd with ⟨rfl, rfl⟩ | ⟨_, hd⟩
    · rw [hgen]
      exact h.generation _ c hc
    · exact h.generation j d hd
  · intro j d hd ho
    rw [hconnections] at hd
    rcases getElem?_set_cases hd with ⟨rfl, rfl⟩ | ⟨_, hd⟩
    · cases hstatus.symm.trans ho
    · exact h.outcome j d hd ho
  · intro j d hd ho
    rw [hconnections] at hd
    rcases getElem?_set_cases hd with ⟨rfl, rfl⟩ | ⟨hj, hd⟩
    · cases hstatus.symm.trans ho
    · exact (hconnection j).mpr ⟨h.opened j d hd ho, hj⟩
  · intro j d hd ho hg
    rw [hconnections] at hd
    rw [hgeneration] at hg
    rcases getElem?_set_cases hd with ⟨rfl, rfl⟩ | ⟨hj, hd⟩
    · cases hstatus.symm.trans ho
    · exact hother j hj (h.opening j d hd ho hg)
  · intro j hj
    obtain ⟨hj', hne⟩ := (hconnection j).mp hj
    obtain ⟨d, hd, hst, hg⟩ := h.connection j hj'
    exact ⟨d, hforth j d hne hd, hst, hg.trans hgeneration.symm⟩
  · intro j hj
    obtain ⟨hj', hcase⟩ := hconnecting j hj
    obtain ⟨hn, d, hd, hg, hst⟩ := h.connecting j hj'
    refine ⟨hnone hn, ?_⟩
    rw [hgeneration, hclosed]
    by_cases hij : i = j
    · subst hij
      cases hc.symm.trans hd
      exact ⟨c', hself, hgen.trans hg, .inr (hcase.resolve_left (fun hne => hne rfl))⟩
    · exact ⟨d, hforth j d hij hd, hg, hst⟩
  · intro hcl
    exact hnone (h.closed (hclosed.symm.trans hcl))
  · intro r' q' j hq hp
    rw [hrequests] at hq
    obtain ⟨d, hd, hst⟩ := h.work r' q' j hq hp
    by_cases hij : i = j
    · subst hij
      refine ⟨c', hself, ?_⟩
      rw [hstatus]
      decide
    · exact ⟨d, hforth j d hij hd, hst⟩

theorem cleared_iff {o : Option Nat} {j : Nat} : (if o = some i then none else o) = some j ↔ o = some j ∧ i ≠ j := by
  split
  next ho =>
    constructor
    · exact nofun
    · rintro ⟨hj, hne⟩
      exact absurd (some_inj.mp (ho.symm.trans hj)) hne
  next ho =>
    constructor
    · intro hj
      refine ⟨hj, ?_⟩
      rintro rfl
      exact ho hj
    · exact And.left

theorem Wired.drop_some (h : Wired s) (hc : s.connections[i]? = some c)
    (hst : c.status ≠ .opening) : Wired (s.drop (some i)) := by
  rw [McpConnections.drop_some hc]
  refine h.closes hc rfl rfl rfl rfl rfl rfl (fun _ => cleared_iff) ?_ (fun _ _ => id)
  intro j hj
  refine ⟨hj, ?_⟩
  by_cases hij : i = j
  · subst hij
    obtain ⟨_, d, hd, _, hor⟩ := h.connecting i hj
    cases hc.symm.trans hd
    exact .inr (hor.resolve_left hst)
  · exact .inl hij

theorem Wired.drop (h : Wired s) : Wired (s.drop s.connection) := by
  cases ho : s.connection with
  | none => exact { h with }
  | some i =>
    obtain ⟨c, hc, hst, _⟩ := h.connection i ho
    exact h.drop_some hc (by rw [hst]; decide)

theorem drop_connection (h : Wired s) : (s.drop s.connection).connection = none := by
  cases ho : s.connection with
  | none => exact ho
  | some i =>
    obtain ⟨c, hc, _⟩ := h.connection i ho
    rw [McpConnections.drop_some hc]
    exact if_pos ho

theorem Wired.request (h : Wired s) (hq : s.requests[r]? = some q)
    (hp : q'.phase = q.phase) : Wired (s.setRequest r q') :=
  h.setRequest (fun i hw => h.work r q i hq (hp.symm.trans hw))

theorem Wired.ending (h : Wired s) (q' : Request) (hp : q'.phase = .ending) : Wired (s.setRequest r q') :=
  h.setRequest (fun _ hw => nomatch hp.symm.trans hw)

theorem askPhase_cases (s : State) (aborted removed : Bool) :
    s.askPhase aborted removed = .ending ∨ s.askPhase aborted removed = .asking := by
  unfold State.askPhase
  split
  · exact .inl rfl
  · exact .inr rfl

theorem askPhase_not_working {aborted : Bool} : s.askPhase aborted removed ≠ .working i := by
  rcases askPhase_cases s aborted removed with hp | hp
  · rw [hp]
    exact nofun
  · rw [hp]
    exact nofun

theorem Wired.use (h : Wired s) (lists aborted removed : Bool) : Wired (s.use lists aborted removed) := by
  refine { h with work := ?_ }
  intro r' q' j hq hp
  rcases getElem?_concat_cases hq with hq | ⟨_, rfl⟩
  · exact h.work r' q' j hq hp
  · exact absurd hp askPhase_not_working

theorem Wired.toolsOf (h : Wired s) (i : Nat) : Wired (s.toolsOf i) := by
  unfold State.toolsOf
  split
  next c hc =>
    split
    · exact h
    · exact { h.setTools hc (some s.listings) with }
  · exact h

theorem Wired.startWork (h : Wired s) (hc : s.connections[i]? = some c)
    (hst : c.status ≠ .opening) (r : Nat) (q : Request) : Wired (s.startWork r q i) := by
  have h' : Wired (s.setRequest r { q with phase := .working i }) := by
    refine h.setRequest ?_
    intro j hj
    cases hj
    exact ⟨c, hc, hst⟩
  show Wired (if _ then _ else _)
  split
  · exact h'.toolsOf i
  · exact h'

theorem Wired.open (h : Wired s) (hn : s.connection = none) (hcing : s.connecting = none) : Wired s.open := by
  have hlt : ∀ {j : Nat} {d : Connection}, s.connections[j]? = some d →
      s.open.connections[j]? = some d := fun hd => getElem?_append_some hd _
  constructor
  · intro j d hd
    rcases getElem?_concat_cases hd with hd | ⟨_, rfl⟩
    · exact h.generation j d hd
    · exact Nat.le_refl _
  · intro j d hd ho
    rcases getElem?_concat_cases hd with hd | ⟨_, rfl⟩
    · exact h.outcome j d hd ho
    · rfl
  · intro j d hd ho
    rcases getElem?_concat_cases hd with hd | ⟨_, rfl⟩
    · exact h.opened j d hd ho
    · cases ho
  · intro j d hd ho hg
    rcases getElem?_concat_cases hd with hd | ⟨rfl, _⟩
    · have hj := h.opening j d hd ho hg
      cases hcing.symm.trans hj
    · rfl
  · intro j hj
    have hj' : s.connection = some j := hj
    cases hn.symm.trans hj'
  · intro j hj
    cases hj
    exact ⟨hn, _, getElem?_concat_length, rfl, .inl rfl⟩
  · exact h.closed
  · intro r' q' j hq hp
    obtain ⟨d, hd, hst⟩ := h.work r' q' j hq hp
    exact ⟨d, hlt hd, hst⟩

theorem Wired.signedIn (h : Wired s) (r : Nat) (blocked : Bool) : Wired (s.signedIn r blocked) := by
  unfold State.signedIn
  split
  · split
    · split
      · exact h.ending _ rfl
      split
      next i ho =>
        obtain ⟨c, hc, hst, _⟩ := h.connection i ho
        exact h.startWork hc (by rw [hst]; decide) _ _
      next hn =>
        split
        · exact h.setRequest (fun _ => nofun)
        next hcing =>
          exact (h.open hn hcing).setRequest (fun _ => nofun)
    · exact h
  · exact h

theorem Wired.not_connection (h : Wired s) (hc : s.connections[i]? = some c)
    (hst : c.status ≠ .opened) : s.connection ≠ some i := by
  intro ho
  obtain ⟨d, hd, hst', _⟩ := h.connection i ho
  cases hc.symm.trans hd
  exact hst hst'

theorem Wired.connected (h : Wired s) (i : Nat) : Wired (s.connected i) := by
  unfold State.connected
  split
  next c hc =>
    split
    next hst =>
      have hne := h.not_connection hc (by rw [hst]; decide)
      split
      next hor =>
        refine h.closes hc rfl rfl rfl rfl rfl rfl ?_ ?_ (fun _ _ => id)
        · intro j
          refine ⟨fun hj => ⟨hj, ?_⟩, And.left⟩
          rintro rfl
          exact hne hj
        · intro j hj
          refine ⟨hj, ?_⟩
          by_cases hij : i = j
          · subst hij
            obtain ⟨_, d, hd, hg, _⟩ := h.connecting i hj
            cases hc.symm.trans hd
            exact .inr (hor.resolve_left (fun hn => hn hg))
          · exact .inl hij
      next hor =>
        have hgen : c.generation = s.generation := by
          by_contra hn
          exact hor (.inl hn)
        have hcl : s.closed ≠ true := fun ht => hor (.inr ht)
        have hcing := h.opening i c hc hst hgen
        have hnone := (h.connecting i hcing).1
        have hself : (s.connections.set i { c with status := .opened, outcome := some true })[i]? =
            some { c with status := .opened, outcome := some true } :=
          getElem?_set_self (lt_of_getElem? hc)
        constructor
        · intro j d hd
          rcases getElem?_set_cases hd with ⟨rfl, rfl⟩ | ⟨_, hd⟩
          · exact h.generation i c hc
          · exact h.generation j d hd
        · intro j d hd ho
          rcases getElem?_set_cases hd with ⟨rfl, rfl⟩ | ⟨_, hd⟩
          · cases ho
          · exact h.outcome j d hd ho
        · intro j d hd ho
          rcases getElem?_set_cases hd with ⟨rfl, _⟩ | ⟨_, hd⟩
          · rfl
          have hj := h.opened j d hd ho
          cases hnone.symm.trans hj
        · intro j d hd ho hg
          rcases getElem?_set_cases hd with ⟨rfl, rfl⟩ | ⟨hne', hd⟩
          · cases ho
          · have hj := h.opening j d hd ho hg
            exact absurd (some_inj.mp (hcing.symm.trans hj)) hne'
        · intro j hj
          cases hj
          exact ⟨_, hself, rfl, hgen⟩
        · intro j hj
          obtain ⟨hj', hne'⟩ := cleared_iff.mp hj
          exact absurd (some_inj.mp (hcing.symm.trans hj')) hne'
        · exact fun ht => absurd ht hcl
        · intro r' q' j hq hp
          obtain ⟨d, hd, hst'⟩ := h.work r' q' j hq hp
          by_cases hij : i = j
          · subst hij
            exact ⟨_, hself, nofun⟩
          · exact ⟨d, (getElem?_set_ne hij).trans hd, hst'⟩
    · exact h
  · exact h

/-- An attempt that came to nothing leaves `connecting`. -/
theorem Wired.attemptFails (h : Wired s) (hc : s.connections[i]? = some c) (hst : c.status ≠ .opened) :
    Wired { s.setConnection i { c with status := .closed, outcome := some false } with
      connecting := if s.connecting = some i then none else s.connecting } := by
  have hne := h.not_connection hc hst
  refine h.closes hc rfl rfl rfl rfl rfl rfl ?_ ?_ ?_
  · intro j
    refine ⟨fun hj => ⟨hj, ?_⟩, And.left⟩
    rintro rfl
    exact hne hj
  · intro j hj
    obtain ⟨hj', hij⟩ := cleared_iff.mp hj
    exact ⟨hj', .inl hij⟩
  · intro j hij hj
    exact cleared_iff.mpr ⟨hj, hij⟩

theorem Wired.connectFails (h : Wired s) (i : Nat) (failure : Failure) : Wired (s.connectFails i failure) := by
  unfold State.connectFails
  split
  next c hc =>
    split
    next hst =>
      have h' := h.attemptFails hc (by rw [hst]; decide)
      show Wired (if _ then _ else _)
      split
      · exact h'
      · exact { h' with }
    · exact h
  · exact h

theorem Wired.refused (h : Wired s) (i : Nat) : Wired (s.refused i) := by
  unfold State.refused
  split
  next c hc =>
    split
    next hst =>
      have h' := h.attemptFails hc (by rw [hst.1]; decide)
      have he : ({ c with outcome := some false } : Connection) =
          { c with status := .closed, outcome := some false } := by rw [← hst.1]
      rw [he]
      exact h'
    · exact h
  · exact h

theorem Wired.attempted (h : Wired s) (r : Nat) : Wired (s.attempted r) := by
  unfold State.attempted
  split
  · split
    · split
      next c hc =>
        split
        next hout =>
          refine h.startWork hc ?_ _ _
          intro ho
          have hn := h.outcome _ c hc ho
          cases hout.symm.trans hn
        · exact h.ending _ rfl
        · exact h
      · exact h
    · exact h
  · exact h

theorem Wired.workEnds (h : Wired s) (r : Nat) (outcome : WorkOutcome) : Wired (s.workEnds r outcome) := by
  unfold State.workEnds
  split
  next q hq =>
    split
    next i hp =>
      obtain ⟨c, hc, hst⟩ := h.work r q i hq hp
      have hd := h.drop_some hc hst
      cases outcome with
      | done => exact h.ending _ rfl
      | sessionGone failure => exact hd.setRequest (fun _ => nofun)
      | answered => exact h.ending _ rfl
      | failed failure =>
        show Wired (if _ then _ else _)
        split
        · exact h.ending _ rfl
        · exact hd.setRequest (fun _ => nofun)
    · exact h
  · exact h

theorem Wired.dropped (h : Wired s) (r : Nat) (removed : Bool) : Wired (s.dropped r removed) := by
  unfold State.dropped
  split
  · split
    · split
      · exact h.setRequest (fun _ hp => absurd hp askPhase_not_working)
      · exact { h.ending _ rfl with }
    · exact h
  · exact h

theorem Wired.scheduleIdle (h : Wired s) : Wired s.scheduleIdle := by
  unfold State.scheduleIdle
  split
  · exact h
  · exact { h with }

theorem Wired.finish (h : Wired s) (r : Nat) : Wired (s.finish r) := by
  unfold State.finish
  split
  next q hq =>
    split
    · have h' : Wired (s.setRequest r { q with phase := .over }) := h.setRequest (fun _ => nofun)
      have h'' : Wired { s.setRequest r { q with phase := .over } with
        inFlight := s.inFlight - 1 } := { h' with }
      exact h''.scheduleIdle
    · exact h
  · exact h

theorem drop_generation (s : State) (o : Option Nat) : (s.drop o).generation = s.generation := by
  cases o with
  | none => rfl
  | some i => rfl

theorem drop_past (s : State) (o : Option Nat) (generation : Nat) :
    { s with generation, failure := none, connecting := none }.drop o =
      { s.drop o with generation, failure := none, connecting := none } := by
  cases o with
  | none => rfl
  | some i => rfl

theorem drop_closed (s : State) (o : Option Nat) (closed : Bool) :
    { s with closed }.drop o = { s.drop o with closed } := by
  cases o with
  | none => rfl
  | some i => rfl

theorem disconnect_eq (s : State) :
    s.disconnect = { s.drop s.connection with
      generation := s.generation + 1, failure := none, connecting := none } :=
  drop_past s s.connection (s.generation + 1)

theorem Wired.disconnect (h : Wired s) : Wired s.disconnect := by
  have hd := h.drop
  have hnone := drop_connection h
  have hg := drop_generation s s.connection
  rw [disconnect_eq]
  constructor
  · intro j d hd'
    exact Nat.le_succ_of_le (Nat.le_trans (hd.generation j d hd') (Nat.le_of_eq hg))
  · exact hd.outcome
  · exact hd.opened
  · intro j d hd' _ hgen
    have hle := Nat.le_trans (hd.generation j d hd') (Nat.le_of_eq hg)
    exact absurd (Nat.le_trans (Nat.le_of_eq hgen.symm) hle) (Nat.not_succ_le_self _)
  · intro j hj
    have hj' : (s.drop s.connection).connection = some j := hj
    cases hnone.symm.trans hj'
  · exact fun _ => nofun
  · exact fun _ => hnone
  · exact hd.work

theorem Wired.setClosed (h : Wired s) (hn : s.connection = none) : Wired { s with closed := true } := by
  refine { h with connecting := ?_, closed := fun _ => hn }
  intro j hj
  obtain ⟨hn, d, hd, hg, _⟩ := h.connecting j hj
  exact ⟨hn, d, hd, hg, .inr rfl⟩

theorem disconnect_connection (h : Wired s) : s.disconnect.connection = none := by
  rw [disconnect_eq]
  exact drop_connection h

theorem close_eq (s : State) : s.close = { s.disconnect with closed := true } := by
  rw [disconnect_eq]
  have he := drop_past { s with closed := true } s.connection (s.generation + 1)
  rw [drop_closed s s.connection true] at he
  exact he

theorem Wired.close (h : Wired s) : Wired s.close := by
  rw [close_eq]
  exact h.disconnect.setClosed (disconnect_connection h)

theorem Wired.idle (h : Wired s) : Wired s.idle := by
  unfold State.idle
  split
  · have h' : Wired { s with idleTimer := false } := { h with }
    split
    · exact h'.drop
    · exact h'
  · exact h

theorem Wired.onclose (h : Wired s) (i : Nat) : Wired (s.onclose i) := by
  unfold State.onclose
  split
  next c hc =>
    split
    next hst =>
      have ho := h.opened i c hc hst
      refine h.closes hc rfl rfl rfl rfl rfl rfl (fun _ => cleared_iff) ?_ (fun _ _ => id)
      intro j hj
      have hn := (h.connecting j hj).1
      cases ho.symm.trans hn
    · exact h
  · exact h

theorem Wired.toolsChanged (h : Wired s) (i : Nat) : Wired (s.toolsChanged i) := by
  unfold State.toolsChanged
  split
  next c hc =>
    exact h.setTools hc none
  · exact h

theorem Wired.listingFails (h : Wired s) (i listing : Nat) : Wired (s.listingFails i listing) := by
  unfold State.listingFails
  split
  next c hc =>
    split
    · exact h.setTools hc none
    · exact h
  · exact h

theorem Wired.abort (h : Wired s) (r : Nat) : Wired (s.abort r) := by
  unfold State.abort
  split
  next q hq =>
    exact h.request hq rfl
  · exact h

theorem Wired.givesUp (h : Wired s) (r : Nat) : Wired (s.givesUp r) := by
  unfold State.givesUp
  split
  · split
    · split
      · exact h.ending _ rfl
      · exact h
    · exact h
  · exact h

theorem Wired.kept (h : Wired s) (e : Event) : Wired (step s e) := by
  cases e with
  | use lists aborted removed => exact h.use lists aborted removed
  | signedIn r blocked => exact h.signedIn r blocked
  | connected i => exact h.connected i
  | connectFails i failure => exact h.connectFails i failure
  | refused i => exact h.refused i
  | attempted r => exact h.attempted r
  | abort r => exact h.abort r
  | givesUp r => exact h.givesUp r
  | workEnds r outcome => exact h.workEnds r outcome
  | dropped r removed => exact h.dropped r removed
  | finish r => exact h.finish r
  | disconnect => exact h.disconnect
  | close => exact h.close
  | idle => exact h.idle
  | onclose i => exact h.onclose i
  | toolsChanged i => exact h.toolsChanged i
  | listingFails i listing => exact h.listingFails i listing

/-! ## The requests in flight and the timer -/

def State.notOver (s : State) : Nat := s.requests.countP fun q => q.phase != .over

structure Counted (s : State) : Prop where
  inFlight : s.inFlight = s.notOver
  timer : s.idleTimer = true → s.inFlight = 0 ∧ s.connecting = none

theorem Counted.pos (h : Counted s) (hq : s.requests[r]? = some q) (hp : q.phase ≠ .over) : 0 < s.inFlight := by
  rw [h.inFlight]
  exact countP_pos_iff.mpr ⟨q, mem_of_getElem? hq, bne_iff_ne.mpr hp⟩

theorem notOver_setRequest (hq : s.requests[r]? = some q) (q' : Request) :
    (s.setRequest r q').notOver + (if q.phase != .over then 1 else 0) =
      s.notOver + if q'.phase != .over then 1 else 0 :=
  countP_set (fun q : Request => q.phase != .over) hq q'

theorem notOver_same (hq : s.requests[r]? = some q) (hp : q.phase ≠ .over)
    (hp' : q'.phase ≠ .over) : (s.setRequest r q').notOver = s.notOver := by
  have hc := notOver_setRequest hq q'
  rw [bne_iff_ne.mpr hp, bne_iff_ne.mpr hp'] at hc
  exact Nat.add_right_cancel hc

structure Goes (s s' : State) : Prop where
  pos : 0 < s.inFlight
  inFlight : s'.inFlight = s.inFlight
  notOver : s'.notOver = s.notOver
  timer : s'.idleTimer = true → s.idleTimer = true

theorem Counted.goes (h : Counted s) (hg : Goes s s') : Counted s' where
  inFlight := by
    rw [hg.inFlight, hg.notOver]
    exact h.inFlight
  timer := by
    intro ht
    have hz := (h.timer (hg.timer ht)).1
    exact absurd hz (Nat.ne_of_gt hg.pos)

theorem Goes.tended (hg : Goes s s') : Tended s' := by
  intro _ _ _ _ hz
  rw [hg.inFlight] at hz
  exact absurd hz (Nat.ne_of_gt hg.pos)

theorem Counted.set_goes (h : Counted s) (hq : s.requests[r]? = some q) (hp : q.phase ≠ .over) (hp' : q'.phase ≠ .over) : Goes s (s.setRequest r q') where
  pos := h.pos hq hp
  inFlight := rfl
  notOver := notOver_same hq hp hp'
  timer := id

theorem toolsOf_requests (s : State) (i : Nat) : (s.toolsOf i).requests = s.requests ∧
    (s.toolsOf i).inFlight = s.inFlight ∧ (s.toolsOf i).idleTimer = s.idleTimer := by
  unfold State.toolsOf
  split
  · split
    · exact ⟨rfl, rfl, rfl⟩
    · exact ⟨rfl, rfl, rfl⟩
  · exact ⟨rfl, rfl, rfl⟩

theorem Counted.startWork (h : Counted s) (hq : s.requests[r]? = some q) (hp : q.phase ≠ .over)
    (i : Nat) : Goes s (s.startWork r q i) := by
  have hg := h.set_goes hq hp (show ({ q with phase := .working i } : Request).phase ≠ .over from
    nofun)
  show Goes s (if _ then _ else _)
  split
  · obtain ⟨hr, hi, ht⟩ := toolsOf_requests (s.setRequest r { q with phase := .working i }) i
    refine ⟨hg.pos, hi.trans hg.inFlight, ?_, fun htt => hg.timer (ht.symm.trans htt)⟩
    rw [State.notOver, hr]
    exact hg.notOver
  · exact hg

theorem Counted.signedIn (h : Counted s) (r : Nat) (blocked : Bool) :
    s.signedIn r blocked = s ∨ Goes s (s.signedIn r blocked) := by
  unfold State.signedIn
  split
  next q hq =>
    split
    next hp =>
      have hne : q.phase ≠ .over := by
        rw [hp]
        exact nofun
      right
      split
      · exact h.set_goes hq hne nofun
      split
      · exact h.startWork hq hne _
      split
      · exact h.set_goes hq hne nofun
      have hg := h.set_goes hq hne (show ({ q with
        phase := .waiting s.connections.length } : Request).phase ≠ .over from nofun)
      exact ⟨hg.pos, rfl, hg.notOver, id⟩
    · exact .inl rfl
  · exact .inl rfl

theorem Counted.attempted (h : Counted s) (r : Nat) : s.attempted r = s ∨ Goes s (s.attempted r) := by
  unfold State.attempted
  split
  next q hq =>
    split
    next hp =>
      have hne : q.phase ≠ .over := by
        rw [hp]
        exact nofun
      split
      · split
        · exact .inr (h.startWork hq hne _)
        · exact .inr (h.set_goes hq hne nofun)
        · exact .inl rfl
      · exact .inl rfl
    · exact .inl rfl
  · exact .inl rfl

theorem Counted.givesUp (h : Counted s) (r : Nat) : s.givesUp r = s ∨ Goes s (s.givesUp r) := by
  unfold State.givesUp
  split
  next q hq =>
    split
    next hp =>
      split
      · exact .inr (h.set_goes hq (by rw [hp]; exact nofun) nofun)
      · exact .inl rfl
    · exact .inl rfl
  · exact .inl rfl

theorem Counted.drop_goes (h : Counted s) (hq : s.requests[r]? = some q) (hp : q.phase ≠ .over)
    (o : Option Nat) (q' : Request) (hp' : q'.phase ≠ .over) :
    Goes s ((s.drop o).setRequest r q') := by
  have hg := h.set_goes hq hp hp'
  cases o with
  | none => exact ⟨hg.pos, rfl, hg.notOver, nofun⟩
  | some i => exact ⟨hg.pos, rfl, hg.notOver, nofun⟩

theorem Counted.workEnds (h : Counted s) (r : Nat) (outcome : WorkOutcome) :
    s.workEnds r outcome = s ∨ Goes s (s.workEnds r outcome) := by
  unfold State.workEnds
  split
  next q hq =>
    split
    next i hp =>
      have hne : q.phase ≠ .over := by
        rw [hp]
        exact nofun
      right
      cases outcome with
      | done => exact h.set_goes hq hne nofun
      | sessionGone failure => exact h.drop_goes hq hne _ _ nofun
      | answered => exact h.set_goes hq hne nofun
      | failed failure =>
        show Goes s (if _ then _ else _)
        split
        · exact h.set_goes hq hne nofun
        · exact h.drop_goes hq hne _ _ nofun
    · exact .inl rfl
  · exact .inl rfl

theorem askPhase_not_over {aborted : Bool} : s.askPhase aborted removed ≠ .over := by
  rcases askPhase_cases s aborted removed with hp | hp
  · rw [hp]
    exact nofun
  · rw [hp]
    exact nofun

theorem Counted.dropped (h : Counted s) (r : Nat) (removed : Bool) :
    s.dropped r removed = s ∨ Goes s (s.dropped r removed) := by
  unfold State.dropped
  split
  next q hq =>
    split
    next hp =>
      have hne : q.phase ≠ .over := by
        rw [hp]
        exact nofun
      right
      split
      · exact h.set_goes hq hne askPhase_not_over
      have hg := h.set_goes hq hne (show ({ q with phase := .ending } : Request).phase ≠ .over from
        nofun)
      exact ⟨hg.pos, rfl, hg.notOver, id⟩
    · exact .inl rfl
  · exact .inl rfl

/-- The requests are as they were, nothing begins to connect or to live, and the timer is as it was unless
nothing lives. -/
structure Calm (s s' : State) : Prop where
  inFlight : s'.inFlight = s.inFlight
  notOver : s'.notOver = s.notOver
  connecting : s.connecting = none → s'.connecting = none
  timer : s'.idleTimer = true → s.idleTimer = true
  lives : ∀ (j : Nat) (d : Connection), s'.connections[j]? = some d → s'.lives d →
    s'.idleTimer = s.idleTimer ∧ ∃ d₀, s.connections[j]? = some d₀ ∧ s.lives d₀

theorem Counted.calm (h : Counted s) (hc : Calm s s') : Counted s' where
  inFlight := by
    rw [hc.inFlight, hc.notOver]
    exact h.inFlight
  timer := by
    intro ht
    obtain ⟨hz, hn⟩ := h.timer (hc.timer ht)
    exact ⟨hc.inFlight.trans hz, hc.connecting hn⟩

theorem Tended.calm (h : Tended s) (hc : Calm s s') : Tended s' := by
  intro j d hd hl hz
  obtain ⟨ht, d₀, hd₀, hl₀⟩ := hc.lives j d hd hl
  rw [ht]
  exact h j d₀ hd₀ hl₀ (hc.inFlight.symm.trans hz)

theorem Calm.same (s : State) : Calm s s := ⟨rfl, rfl, id, id, fun _ d hd hl => ⟨rfl, d, hd, hl⟩⟩

theorem Calm.set (hc : s.connections[i]? = some c)
    (hconnections : s'.connections = s.connections.set i c') (hin : s'.inFlight = s.inFlight)
    (hrequests : s'.requests = s.requests) (ht : s'.idleTimer = s.idleTimer)
    (hgen : s'.generation = s.generation) (hclosed : s'.closed = s.closed)
    (hcing : s.connecting = none → s'.connecting = none) (hl : s.lives c' → s.lives c) :
    Calm s s' := by
  refine ⟨hin, ?_, hcing, ht.symm.trans, ?_⟩
  · rw [State.notOver, hrequests]
    rfl
  intro j d hd hl'
  rw [hconnections] at hd
  rw [State.lives, hgen, hclosed] at hl'
  refine ⟨ht, ?_⟩
  rcases getElem?_set_cases hd with ⟨rfl, rfl⟩ | ⟨_, hd⟩
  · exact ⟨c, hc, hl hl'⟩
  · exact ⟨d, hd, hl'⟩

theorem cleared_none {o : Option Nat} (ho : o = none) : (if o = some i then none else o) = none := by
  rw [ho]
  rfl

theorem not_lives_closed (hst : c'.status = .closed) : ¬ s.lives c' := by
  rintro (ho | ⟨ho, _⟩)
  · cases hst.symm.trans ho
  · cases hst.symm.trans ho

theorem Calm.connected (s : State) (i : Nat) : Calm s (s.connected i) := by
  unfold State.connected
  split
  next c hc =>
    split
    next hst =>
      split
      · exact Calm.set hc rfl rfl rfl rfl rfl rfl id (fun hl => absurd hl (not_lives_closed rfl))
      rename_i hor
      refine Calm.set hc rfl rfl rfl rfl rfl rfl cleared_none ?_
      intro _
      have hgen : c.generation = s.generation := by
        by_contra hn
        exact hor (.inl hn)
      exact .inr ⟨hst, hgen, Bool.eq_false_iff.mpr (fun ht => hor (.inr ht))⟩
    · exact .same s
  · exact .same s

theorem Calm.connectFails (s : State) (i : Nat) (failure : Failure) : Calm s (s.connectFails i failure) := by
  unfold State.connectFails
  split
  next c hc =>
    split
    · show Calm s (if _ then _ else _)
      split
      · exact Calm.set hc rfl rfl rfl rfl rfl rfl cleared_none (fun hl => absurd hl (not_lives_closed rfl))
      · exact Calm.set hc rfl rfl rfl rfl rfl rfl cleared_none (fun hl => absurd hl (not_lives_closed rfl))
    · exact .same s
  · exact .same s

theorem Calm.refused (s : State) (i : Nat) : Calm s (s.refused i) := by
  unfold State.refused
  split
  next c hc =>
    split
    next hst =>
      exact Calm.set hc rfl rfl rfl rfl rfl rfl cleared_none (fun hl => absurd hl (not_lives_closed hst.1))
    · exact .same s
  · exact .same s

theorem Calm.onclose (s : State) (i : Nat) : Calm s (s.onclose i) := by
  unfold State.onclose
  split
  next c hc =>
    split
    · exact Calm.set hc rfl rfl rfl rfl rfl rfl id (fun hl => absurd hl (not_lives_closed rfl))
    · exact .same s
  · exact .same s

theorem Calm.toolsChanged (s : State) (i : Nat) : Calm s (s.toolsChanged i) := by
  unfold State.toolsChanged
  split
  next c hc =>
    exact Calm.set hc rfl rfl rfl rfl rfl rfl id id
  · exact .same s

theorem Calm.listingFails (s : State) (i listing : Nat) : Calm s (s.listingFails i listing) := by
  unfold State.listingFails
  split
  next c hc =>
    split
    · exact Calm.set hc rfl rfl rfl rfl rfl rfl id id
    · exact .same s
  · exact .same s

theorem Calm.abort (s : State) (r : Nat) : Calm s (s.abort r) := by
  unfold State.abort
  split
  next q hq =>
    refine ⟨rfl, ?_, id, id, fun _ d hd hl => ⟨rfl, d, hd, hl⟩⟩
    have hc := notOver_setRequest hq { q with aborted := true }
    exact Nat.add_right_cancel hc
  · exact .same s

theorem drop_same (s : State) (o : Option Nat) : (s.drop o).inFlight = s.inFlight ∧
    (s.drop o).requests = s.requests ∧ (s.drop o).connecting = s.connecting ∧ (s.drop o).idleTimer = false := by
  cases o with
  | none => exact ⟨rfl, rfl, rfl, rfl⟩
  | some i => exact ⟨rfl, rfl, rfl, rfl⟩

theorem Wired.nothing_lives (h : Wired s) (hn : s.connection = none)
    (hcing : s.connecting = none) {j : Nat} {d : Connection} (hd : s.connections[j]? = some d) :
    ¬ s.lives d := by
  rintro (ho | ⟨ho, hg, _⟩)
  · have hj := h.opened j d hd ho
    cases hn.symm.trans hj
  have hj := h.opening j d hd ho hg
  cases hcing.symm.trans hj

theorem Calm.disconnect (h : Wired s) : Calm s s.disconnect := by
  obtain ⟨hin, hreq, _, ht⟩ := drop_same s s.connection
  have hn := disconnect_connection h
  have h' := h.disconnect
  rw [disconnect_eq] at hn h' ⊢
  refine ⟨hin, ?_, fun _ => rfl, ?_, ?_⟩
  · show (s.drop s.connection).requests.countP _ = _
    rw [hreq]
    rfl
  · intro htt
    cases ht.symm.trans htt
  · intro j d hd hl
    exact absurd hl (h'.nothing_lives hn rfl hd)

theorem Calm.close (h : Wired s) : Calm s s.close := by
  have hd := Calm.disconnect h
  have hn := disconnect_connection h
  have h' := h.close
  rw [close_eq] at h' ⊢
  refine { hd with lives := ?_ }
  intro j d hd' hl
  have hcing : s.disconnect.connecting = none := by
    rw [disconnect_eq]
  exact absurd hl (h'.nothing_lives hn hcing hd')

theorem Calm.idle (h : Wired s) (hc : Counted s) : Calm s s.idle := by
  unfold State.idle
  split
  next ht =>
    obtain ⟨hz, hcing⟩ := hc.timer ht
    rw [if_pos hz]
    have h₀ : Wired { s with idleTimer := false } := { h with }
    obtain ⟨hin, hreq, hcing', ht'⟩ := drop_same { s with idleTimer := false } s.connection
    refine ⟨hin, ?_, fun hn => hcing'.trans hn, fun _ => ht, ?_⟩
    · rw [State.notOver, hreq]
      rfl
    intro j d hd hl
    have hn : (State.drop { s with idleTimer := false } s.connection).connection = none := drop_connection h₀
    exact absurd hl (h₀.drop.nothing_lives hn (hcing'.trans hcing) hd)
  · exact .same s

theorem Counted.use (h : Counted s) (lists aborted removed : Bool) : Counted (s.use lists aborted removed) where
  inFlight := by
    show s.inFlight + 1 = (s.requests ++ [_]).countP _
    rw [countP_append, countP_singleton, bne_iff_ne.mpr askPhase_not_over, h.inFlight]
    rfl
  timer := nofun

theorem use_tended (s : State) (lists aborted removed : Bool) : Tended (s.use lists aborted removed) := nofun

theorem scheduleIdle_cases (s : State) : (0 < s.inFlight ∨ s.connection = none ∨ s.closed = true) ∧ s.scheduleIdle = s ∨
      (s.inFlight = 0 ∧ s.connection ≠ none ∧ s.closed = false) ∧ s.scheduleIdle = { s with idleTimer := true } := by
  unfold State.scheduleIdle
  split
  next hc =>
    exact .inl ⟨hc, rfl⟩
  next hc =>
    have hz : s.inFlight = 0 := Nat.eq_zero_of_not_pos (fun hp => hc (.inl hp))
    exact .inr ⟨⟨hz, fun hn => hc (.inr (.inl hn)), Bool.eq_false_iff.mpr (fun ht => hc (.inr (.inr ht)))⟩, rfl⟩

theorem finish_cases (s : State) (r : Nat) : (s.requests[r]?.map Request.phase ≠ some .ending) ∧ s.finish r = s ∨
      ∃ q, s.requests[r]? = some q ∧ q.phase = .ending ∧ s.finish r =
        { s.setRequest r { q with phase := .over } with inFlight := s.inFlight - 1 }.scheduleIdle := by
  unfold State.finish
  split
  next q hq =>
    split
    next hp =>
      exact .inr ⟨q, hq, hp, rfl⟩
    rename_i hp
    refine .inl ⟨?_, rfl⟩
    rw [hq]
    exact fun he => hp (some_inj.mp he)
  next hq =>
    refine .inl ⟨?_, rfl⟩
    rw [hq]
    exact nofun

theorem Counted.over (h : Counted s) (hq : s.requests[r]? = some q) (hp : q.phase = .ending) :
    Counted { s.setRequest r { q with phase := .over } with inFlight := s.inFlight - 1 } ∧ s.idleTimer = false := by
  have hne : q.phase ≠ .over := by
    rw [hp]
    exact nofun
  have hpos := h.pos hq hne
  have hoff : s.idleTimer = false := by
    cases ht : s.idleTimer with
    | false => rfl
    | true => exact absurd (h.timer ht).1 (Nat.ne_of_gt hpos)
  have hc := notOver_setRequest hq { q with phase := .over }
  rw [bne_iff_ne.mpr hne] at hc
  have hc' : (s.setRequest r { q with phase := .over }).notOver + 1 = s.notOver := hc
  refine ⟨⟨?_, ?_⟩, hoff⟩
  · show s.inFlight - 1 = (s.setRequest r { q with phase := .over }).notOver
    rw [h.inFlight]
    omega
  · intro ht
    cases hoff.symm.trans ht

theorem Counted.finish (h : Counted s) (hw : Wired s) (r : Nat) : Counted (s.finish r) := by
  rcases finish_cases s r with ⟨_, he⟩ | ⟨q, hq, hp, he⟩
  · rw [he]
    exact h
  have ho := (h.over hq hp).1
  rw [he]
  rcases scheduleIdle_cases { s.setRequest r { q with phase := .over } with
    inFlight := s.inFlight - 1 } with ⟨_, hs⟩ | ⟨⟨hz, hn, _⟩, hs⟩
  · rw [hs]
    exact ho
  rw [hs]
  refine ⟨ho.inFlight, ?_⟩
  intro _
  refine ⟨hz, ?_⟩
  cases hcing : s.connecting with
  | none => exact hcing
  | some i => exact absurd (hw.connecting i hcing).1 hn

/-- The timer is set for what the last request leaves open, not for what is opening. -/
theorem finish_tended_iff (h : Counted s) (hw : Wired s) (ht : Tended s) (r : Nat) :
    Tended (s.finish r) ↔ ¬ Abandons s (.finish r) := by
  rcases finish_cases s r with ⟨hne, he⟩ | ⟨q, hq, hp, he⟩
  · rw [he]
    exact ⟨fun _ ha => hne ha.1, fun _ => ht⟩
  obtain ⟨_, hoff⟩ := h.over hq hp
  have hending : s.requests[r]?.map Request.phase = some .ending := by
    rw [hq, ← hp]
    rfl
  have hpos := h.pos hq (by rw [hp]; exact nofun)
  rw [he]
  rcases scheduleIdle_cases { s.setRequest r { q with phase := .over } with
    inFlight := s.inFlight - 1 } with ⟨hor, hs⟩ | ⟨⟨_, hn, _⟩, hs⟩
  · rw [hs]
    constructor
    · intro htend
      rintro ⟨_, hone, hcing, hcl⟩
      obtain ⟨i, hi⟩ := ne_none_iff_exists'.mp hcing
      obtain ⟨_, c, hc, hg, hst⟩ := hw.connecting i hi
      have hop : c.status = .opening := hst.resolve_right (by rw [hcl]; decide)
      have hz : s.inFlight - 1 = 0 := by omega
      have hon : s.idleTimer = true := htend i c hc (.inr ⟨hop, hg, hcl⟩) hz
      cases hoff.symm.trans hon
    · intro hna i c hc hl hz
      have hz' : s.inFlight - 1 = 0 := hz
      have hone : s.inFlight = 1 := by omega
      have hconn : s.connection = none := by
        rcases hor with hlt | hn | hcl
        · exact absurd hz (Nat.ne_of_gt hlt)
        · exact hn
        · exact hw.closed hcl
      rcases hl with ho | ⟨ho, hg, hcl⟩
      · have hi := hw.opened i c hc ho
        cases hconn.symm.trans hi
      have hi := hw.opening i c hc ho hg
      refine absurd ⟨hending, hone, ?_, hcl⟩ hna
      rw [hi]
      exact nofun
  · rw [hs]
    constructor
    · intro _
      rintro ⟨_, _, hcing, _⟩
      obtain ⟨i, hi⟩ := ne_none_iff_exists'.mp hcing
      exact hn (hw.connecting i hi).1
    · intro _ _ _ _ _ _
      rfl

structure Base (s : State) : Prop where
  wired : Wired s
  counted : Counted s

theorem Counted.of_goes (h : Counted s) (hor : s' = s ∨ Goes s s') : Counted s' := by
  rcases hor with he | hg
  · rw [he]
    exact h
  · exact h.goes hg

theorem Counted.kept (h : Counted s) (hw : Wired s) (e : Event) : Counted (step s e) := by
  cases e with
  | use lists aborted removed => exact h.use lists aborted removed
  | signedIn r blocked => exact h.of_goes (h.signedIn r blocked)
  | connected i => exact h.calm (.connected s i)
  | connectFails i failure => exact h.calm (.connectFails s i failure)
  | refused i => exact h.calm (.refused s i)
  | attempted r => exact h.of_goes (h.attempted r)
  | abort r => exact h.calm (.abort s r)
  | givesUp r => exact h.of_goes (h.givesUp r)
  | workEnds r outcome => exact h.of_goes (h.workEnds r outcome)
  | dropped r removed => exact h.of_goes (h.dropped r removed)
  | finish r => exact h.finish hw r
  | disconnect => exact h.calm (.disconnect hw)
  | close => exact h.calm (.close hw)
  | idle => exact h.calm (.idle hw h)
  | onclose i => exact h.calm (.onclose s i)
  | toolsChanged i => exact h.calm (.toolsChanged s i)
  | listingFails i listing => exact h.calm (.listingFails s i listing)

theorem Base.kept (h : Base s) (e : Event) : Base (step s e) := ⟨h.wired.kept e, h.counted.kept h.wired e⟩

theorem base_init : Base .init := ⟨.init, rfl, nofun⟩

theorem Tended.of_goes (h : Tended s) (hor : s' = s ∨ Goes s s') : Tended s' := by
  rcases hor with he | hg
  · rw [he]
    exact h
  · exact hg.tended

theorem tended_step_iff (h : Base s) (ht : Tended s) (e : Event) : Tended (step s e) ↔ ¬ Abandons s e := by
  have hw := h.wired
  have hc := h.counted
  cases e with
  | use lists aborted removed => exact ⟨fun _ => id, fun _ => use_tended s lists aborted removed⟩
  | signedIn r blocked => exact ⟨fun _ => id, fun _ => ht.of_goes (hc.signedIn r blocked)⟩
  | connected i => exact ⟨fun _ => id, fun _ => ht.calm (.connected s i)⟩
  | connectFails i failure => exact ⟨fun _ => id, fun _ => ht.calm (.connectFails s i failure)⟩
  | refused i => exact ⟨fun _ => id, fun _ => ht.calm (.refused s i)⟩
  | attempted r => exact ⟨fun _ => id, fun _ => ht.of_goes (hc.attempted r)⟩
  | abort r => exact ⟨fun _ => id, fun _ => ht.calm (.abort s r)⟩
  | givesUp r => exact ⟨fun _ => id, fun _ => ht.of_goes (hc.givesUp r)⟩
  | workEnds r outcome => exact ⟨fun _ => id, fun _ => ht.of_goes (hc.workEnds r outcome)⟩
  | dropped r removed => exact ⟨fun _ => id, fun _ => ht.of_goes (hc.dropped r removed)⟩
  | finish r => exact finish_tended_iff hc hw ht r
  | disconnect => exact ⟨fun _ => id, fun _ => ht.calm (.disconnect hw)⟩
  | close => exact ⟨fun _ => id, fun _ => ht.calm (.close hw)⟩
  | idle => exact ⟨fun _ => id, fun _ => ht.calm (.idle hw hc)⟩
  | onclose i => exact ⟨fun _ => id, fun _ => ht.calm (.onclose s i)⟩
  | toolsChanged i => exact ⟨fun _ => id, fun _ => ht.calm (.toolsChanged s i)⟩
  | listingFails i listing => exact ⟨fun _ => id, fun _ => ht.calm (.listingFails s i listing)⟩

end

/-- In every run, every connection that lives has a request in flight or the timer, in every state,
exactly when the last request in flight never ends while a connection is being opened. -/
theorem tended_iff (es : List Event) :
    Run.Always step Tended .init es ↔ Run.Along step (fun s e => ¬ Abandons s e) .init es :=
  Run.always_iff_along_of Base Tended (fun _ e h => h.kept e)
    (fun _ e h ht => tended_step_iff h ht e) base_init (fun _ _ => nofun) es

/-- A caller gives up while the connection is being opened, and nobody else waits. -/
def abandoned : List Event := [.use true false false, .signedIn 0 false, .abort 0, .givesUp 0, .finish 0, .connected 0]

/-- The connection opens with no request in flight and no timer. -/
theorem abandoned_not_tended : ¬ ∀ es, Run.Always step Tended .init es := by
  intro h
  have hlast : Tended (Run.exec step .init abandoned) := (h abandoned).2.2.2.2.2.1
  have hopen : (Run.exec step .init abandoned).connections[0]? = some ⟨0, .opened, some true, none⟩ := rfl
  have ht := hlast 0 _ hopen (.inl rfl) rfl
  cases ht

/-! ## What is left of an earlier generation -/

section

variable {s : State} {r i g : Nat} {q : Request} {c : Connection}

theorem generationOf_some (hg : s.generationOf i = some g) :
    ∃ c, s.connections[i]? = some c ∧ c.generation = g := map_eq_some_iff.mp hg

theorem requestGeneration_some (hg : s.requestGeneration r = some g)
    (hq : s.requests[r]? = some q) : ∃ i, q.phase.connection = some i ∧ s.generationOf i = some g := by
  rw [State.requestGeneration, hq] at hg
  exact bind_eq_some_iff.mp hg

theorem Untouched.same (s : State) : Untouched s s := ⟨rfl, rfl, rfl, fun _ _ => fun h _ => h⟩

theorem Untouched.set (hc : s.connections[i]? = some c)
    (hpast : c.generation < s.generation) (hconnections : s'.connections = s.connections.set i c')
    (hfailure : s'.failure = s.failure) (htold : s'.told = s.told)
    (hconnection : s'.connection = s.connection) : Untouched s s' := by
  refine ⟨hfailure, htold, hconnection, ?_⟩
  intro j d hd hg
  rw [hconnections]
  by_cases hij : i = j
  · subst hij
    cases hc.symm.trans hd
    exact absurd hg (Nat.ne_of_lt hpast)
  · rw [getElem?_set_ne hij]
    exact hd

theorem Wired.past (h : Wired s) (hc : s.connections[i]? = some c)
    (hpast : c.generation < s.generation) : s.connection ≠ some i := by
  intro ho
  obtain ⟨d, hd, _, hg⟩ := h.connection i ho
  cases hc.symm.trans hd
  exact Nat.ne_of_lt hpast hg

theorem Wired.past_cleared (h : Wired s) (hc : s.connections[i]? = some c) (hpast : c.generation < s.generation) :
    (if s.connection = some i then none else s.connection) = s.connection :=
  if_neg (h.past hc hpast)

theorem Untouched.connected (hc : s.connections[i]? = some c) (hpast : c.generation < s.generation) :
    Untouched s (s.connected i) := by
  unfold State.connected
  rw [hc]
  show Untouched s (if _ then _ else _)
  split
  · rw [if_pos (.inl (Nat.ne_of_lt hpast))]
    exact .set hc hpast rfl rfl rfl rfl
  · exact .same s

theorem Untouched.connectFails (hc : s.connections[i]? = some c)
    (hpast : c.generation < s.generation) (failure : Failure) :
    Untouched s (s.connectFails i failure) := by
  unfold State.connectFails
  rw [hc]
  show Untouched s (if _ then (if _ then _ else _) else _)
  split
  · rw [if_pos (Nat.ne_of_lt hpast)]
    exact .set hc hpast rfl rfl rfl rfl
  · exact .same s

theorem Untouched.refused (hc : s.connections[i]? = some c) (hpast : c.generation < s.generation) :
    Untouched s (s.refused i) := by
  unfold State.refused
  rw [hc]
  show Untouched s (if _ then _ else _)
  split
  · exact .set hc hpast rfl rfl rfl rfl
  · exact .same s

theorem Untouched.onclose (h : Wired s) (hc : s.connections[i]? = some c)
    (hpast : c.generation < s.generation) : Untouched s (s.onclose i) := by
  unfold State.onclose
  rw [hc]
  show Untouched s (if _ then _ else _)
  split
  · exact .set hc hpast rfl rfl rfl (h.past_cleared hc hpast)
  · exact .same s

theorem Untouched.toolsChanged (hc : s.connections[i]? = some c)
    (hpast : c.generation < s.generation) : Untouched s (s.toolsChanged i) := by
  unfold State.toolsChanged
  rw [hc]
  exact .set hc hpast rfl rfl rfl rfl

theorem Untouched.listingFails (hc : s.connections[i]? = some c) (hpast : c.generation < s.generation) (listing : Nat) :
    Untouched s (s.listingFails i listing) := by
  unfold State.listingFails
  rw [hc]
  show Untouched s (if _ then _ else _)
  split
  · exact .set hc hpast rfl rfl rfl rfl
  · exact .same s

theorem Untouched.setRequest (h : Untouched s s') (r : Nat) (q : Request) :
    Untouched s (s'.setRequest r q) := { h with }

theorem Untouched.startWork (hc : s.connections[i]? = some c) (hpast : c.generation < s.generation)
    (r : Nat) (q : Request) : Untouched s (s.startWork r q i) := by
  show Untouched s (if _ then _ else _)
  split
  · show Untouched s (State.toolsOf _ i)
    unfold State.toolsOf
    show Untouched s (match s.connections[i]? with | some _ => _ | none => _)
    rw [hc]
    show Untouched s (match c.tools with | some _ => _ | none => _)
    split
    · exact (Untouched.same s).setRequest r _
    · exact .set hc hpast rfl rfl rfl rfl
  · exact (Untouched.same s).setRequest r _

theorem Untouched.drop (h : Wired s) (hc : s.connections[i]? = some c)
    (hpast : c.generation < s.generation) : Untouched s (s.drop (some i)) := by
  rw [McpConnections.drop_some hc]
  exact .set hc hpast rfl rfl rfl (h.past_cleared hc hpast)

theorem past_of (hgen : s.generationOf i = some g) (hlt : g < s.generation) :
    ∃ c, s.connections[i]? = some c ∧ c.generation < s.generation := by
  obtain ⟨c, hc, he⟩ := generationOf_some hgen
  exact ⟨c, hc, Nat.lt_of_le_of_lt (Nat.le_of_eq he) hlt⟩

theorem Untouched.attempted (hgen : s.requestGeneration r = some g) (hlt : g < s.generation) :
    Untouched s (s.attempted r) := by
  unfold State.attempted
  split
  next q hq =>
    split
    next i hp =>
      obtain ⟨j, hj, hgj⟩ := requestGeneration_some hgen hq
      rw [hp] at hj
      cases hj
      obtain ⟨c, hc, hpast⟩ := past_of hgj hlt
      rw [hc]
      show Untouched s (match c.outcome with | some true => _ | some false => _ | none => _)
      split
      · exact .startWork hc hpast _ _
      · exact (Untouched.same s).setRequest _ _
      · exact .same s
    · exact .same s
  · exact .same s

theorem Untouched.workEnds (h : Wired s) (hgen : s.requestGeneration r = some g)
    (hlt : g < s.generation) (outcome : WorkOutcome) : Untouched s (s.workEnds r outcome) := by
  unfold State.workEnds
  split
  next q hq =>
    split
    next i hp =>
      obtain ⟨j, hj, hgj⟩ := requestGeneration_some hgen hq
      rw [hp] at hj
      cases hj
      obtain ⟨c, hc, hpast⟩ := past_of hgj hlt
      have hd := Untouched.drop h hc hpast
      cases outcome with
      | done => exact (Untouched.same s).setRequest _ _
      | sessionGone failure => exact hd.setRequest _ _
      | answered => exact (Untouched.same s).setRequest _ _
      | failed failure =>
        show Untouched s (if _ then _ else _)
        split
        · exact (Untouched.same s).setRequest _ _
        · exact hd.setRequest _ _
    · exact .same s
  · exact .same s

theorem recordsLate_iff : RecordsLate s (.dropped r removed) ↔
    ∃ q i retry failure g, s.requests[r]? = some q ∧ q.phase = .dropping i retry failure ∧
      ¬ (retry = true ∧ (!q.again) = true) ∧ s.generationOf i = some g ∧ g < s.generation := by
  rw [RecordsLate, Option.any_eq_true]
  constructor
  · rintro ⟨q, hq, hb⟩
    split at hb
    next i retry failure hp =>
      rw [Bool.and_eq_true, Option.any_eq_true] at hb
      obtain ⟨hr, g, hg, hlt⟩ := hb
      refine ⟨q, i, retry, failure, g, hq, hp, ?_, hg, of_decide_eq_true hlt⟩
      rintro ⟨ht, ha⟩
      rw [ht, Bool.not_true, Bool.false_or] at hr
      rw [hr] at ha
      cases ha
    · cases hb
  · rintro ⟨q, i, retry, failure, g, hq, hp, hr, hg, hlt⟩
    refine ⟨q, hq, ?_⟩
    rw [hp]
    show ((!retry || q.again) && _) = true
    rw [Bool.and_eq_true, Option.any_eq_true]
    refine ⟨?_, g, hg, decide_eq_true hlt⟩
    cases retry with
    | false => rfl
    | true =>
      cases ha : q.again with
      | true => rfl
      | false =>
        rw [ha] at hr
        exact absurd ⟨rfl, rfl⟩ hr

theorem dropped_spares_iff (r : Nat) (removed : Bool) :
    Spares s (.dropped r removed) ↔ ¬ RecordsLate s (.dropped r removed) := by
  rw [recordsLate_iff]
  constructor
  · rintro hs ⟨q, i, retry, failure, g, hq, hp, hr, hg, hlt⟩
    have hact : s.requestGeneration r = some g := by
      rw [State.requestGeneration, hq]
      show q.phase.connection.bind _ = _
      rw [hp]
      exact hg
    have htold := (hs g hact hlt).told
    have hstep : (step s (.dropped r removed)).told = s.told + 1 := by
      show (s.dropped r removed).told = _
      unfold State.dropped
      rw [hq]
      show State.told (match q.phase with | .dropping _ retry failure => _ | _ => s) = _
      rw [hp]
      show State.told (if _ then _ else _) = _
      rw [if_neg hr]
      rfl
    rw [hstep] at htold
    exact absurd htold (Nat.succ_ne_self _)
  · intro hn g hact hlt
    show Untouched s (s.dropped r removed)
    unfold State.dropped
    split
    next q hq =>
      split
      next i retry failure hp =>
        split
        · exact (Untouched.same s).setRequest _ _
        rename_i hr
        obtain ⟨j, hj, hgj⟩ := requestGeneration_some hact hq
        rw [hp] at hj
        cases hj
        exact absurd ⟨q, i, retry, failure, g, hq, hp, hr, hgj, hlt⟩ hn
      · exact .same s
    · exact .same s

theorem spares_of_past {e : Event} (hact : s.actor e = s.generationOf i)
    (hu : ∀ c, s.connections[i]? = some c → c.generation < s.generation → Untouched s (step s e)) :
    Spares s e := by
  intro g hg hlt
  rw [hact] at hg
  obtain ⟨c, hc, hpast⟩ := past_of hg hlt
  exact hu c hc hpast

theorem spares_step_iff (h : Wired s) (e : Event) : Spares s e ↔ ¬ RecordsLate s e := by
  cases e with
  | use lists aborted removed => exact ⟨fun _ => id, fun _ _ => nofun⟩
  | signedIn r blocked => exact ⟨fun _ => id, fun _ _ => nofun⟩
  | connected i => exact ⟨fun _ => id, fun _ => spares_of_past rfl (fun _ hc hpast => .connected hc hpast)⟩
  | connectFails i failure =>
    exact ⟨fun _ => id, fun _ => spares_of_past rfl (fun _ hc hpast => .connectFails hc hpast failure)⟩
  | refused i => exact ⟨fun _ => id, fun _ => spares_of_past rfl (fun _ hc hpast => .refused hc hpast)⟩
  | attempted r => exact ⟨fun _ => id, fun _ _ hg hlt => .attempted hg hlt⟩
  | abort r => exact ⟨fun _ => id, fun _ _ => nofun⟩
  | givesUp r => exact ⟨fun _ => id, fun _ _ => nofun⟩
  | workEnds r outcome => exact ⟨fun _ => id, fun _ _ hg hlt => .workEnds h hg hlt outcome⟩
  | dropped r removed => exact dropped_spares_iff r removed
  | finish r => exact ⟨fun _ => id, fun _ _ => nofun⟩
  | disconnect => exact ⟨fun _ => id, fun _ _ => nofun⟩
  | close => exact ⟨fun _ => id, fun _ _ => nofun⟩
  | idle => exact ⟨fun _ => id, fun _ _ => nofun⟩
  | onclose i => exact ⟨fun _ => id, fun _ => spares_of_past rfl (fun _ hc hpast => .onclose h hc hpast)⟩
  | toolsChanged i => exact ⟨fun _ => id, fun _ => spares_of_past rfl (fun _ hc hpast => .toolsChanged hc hpast)⟩
  | listingFails i listing =>
    exact ⟨fun _ => id, fun _ => spares_of_past rfl (fun _ hc hpast => .listingFails hc hpast listing)⟩

end

/-- What is left of an earlier generation leaves the current one alone at every step of a run exactly
when no request that failed on a connection of an earlier generation comes to where its failure is
recorded. -/
theorem spares_iff (es : List Event) :
    Run.Along step Spares .init es ↔ Run.Along step (fun s e => ¬ RecordsLate s e) .init es :=
  Run.along_congr_of Wired (fun _ e h => h.kept e) (fun _ e h => spares_step_iff h e) .init es

/-- The server is signed out while a call of it waits for its answer. -/
def signedOutDuring : List Event :=
  [.use false false false, .signedIn 0 false, .connected 0, .attempted 0, .disconnect,
    .workEnds 0 (.failed (.error "MCP error -32000: Connection closed")), .dropped 0 false]

/-- The call that the sign-out ended records its failure as the server's. -/
theorem signedOutDuring_not_spared : ¬ ∀ es, Run.Along step Spares .init es := by
  intro h
  have hlast := (h signedOutDuring).2.2.2.2.2.2.1
  have htold := (hlast 0 rfl (by decide)).told
  cases htold

end Reins.McpConnections
