import Reins.Backend.AutomationRuns
import Reins.Lib.Places
import Reins.Lib.Run

/-!
# How an automation's runs are recorded to end (`deliver`, `settled`)

One automation with a session of its own, or new ones. Its ticks, its deliveries and the settlements it is
told are one at a time; its sessions' runs, which users' messages begin and join too, go on meanwhile. A
session's settlements are told in the order of its runs, each at any time after its run ended, and name the
session only.
-/

namespace Reins.RunRecords

open Run Places AutomationRuns List

inductive Target
  | own
  | new
  deriving DecidableEq

structure Session where
  /-- How many have ended; the run in progress has this number. -/
  ended : Nat
  running : Bool
  settled : Nat
  deriving DecidableEq

inductive Work
  /-- `target`, of an own session. -/
  | reading (session : SessionId)
  /-- The session and whether it was running, or none to start. -/
  | checked (session : Option (SessionId × Bool))
  | previousEnded (rest : List RunRow)
  | sending (runId : Nat) (session : SessionId) (taken : Bool)
  | starting (runId : Nat) (session : Option SessionId)
  | recording (runId : Nat)
  deriving DecidableEq

structure Taken where
  runId : Nat
  session : SessionId
  run : Nat
  deriving DecidableEq

inductive End
  | settlement (session : SessionId) (run : Nat)
  | failure
  | lost
  deriving DecidableEq

structure State where
  target : Target
  /-- The row's `session_id`. -/
  session : Option SessionId
  store : Store
  sessions : List Session
  work : Option Work
  taken : List Taken
  /-- Every call of `endRun`. -/
  ends : List (Nat × End)

def State.init (target : Target) : State :=
  { target, session := none, store := .empty, sessions := [], work := none, taken := [], ends := [] }

inductive Status
  | completed
  | failed
  | cancelled
  deriving DecidableEq

def Status.outcome : Status → RunOutcome
  | .completed => .completed
  | .failed => .failed
  | .cancelled => .cancelled

inductive Event
  | tick
  /-- The own session is read: it may be archived or deleted. -/
  | read (gone : Bool)
  /-- The rest of `check`, of what is due; whether no run has ended since its last send is `Automations`'. -/
  | deliver (sinceLastSend : Bool)
  | next
  | admitted
  | sent
  | recorded
  | fails
  | settled (session : SessionId) (status : Status)
  | replaceSession
  /-- A user's message, which begins a run or joins the one in progress. -/
  | message (session : SessionId)
  | runEnds (session : SessionId)

def State.tick (s : State) : State :=
  match s.work, s.target, s.session with
  | some _, _, _ => s
  | none, .new, _ => { s with work := some (.previousEnded s.store.running) }
  | none, .own, some session => { s with work := some (.reading session) }
  | none, .own, none => { s with work := some (.checked none) }

def State.read (s : State) (gone : Bool) : State :=
  match s.work with
  | some (.reading session) =>
    if gone then { s with session := none, work := some (.checked none) }
    else { s with work := some (.checked ((s.sessions)[session]?.map fun x => (session, x.running))) }
  | _ => s

variable {s : State} {sessions : List Session} {k : SessionId} {run : Nat}

def State.endRuns (s : State) (runs : List RunRow) (outcome : RunOutcome) (how : End) : State :=
  { s with store := s.store.endRuns runs outcome, ends := s.ends ++ runs.map (·.id, how) }

/-- `deliver`, to its first await. -/
def State.begin (s : State) (session : Option SessionId) : State :=
  { s with
    store := s.store.addRun session .running
    work := some (match session with
      | some session => .sending s.store.nextId session false
      | none => .starting s.store.nextId none) }

def State.deliver (s : State) (sinceLastSend : Bool) : State :=
  match s.work with
  | some (.checked (some (session, true))) =>
    if sinceLastSend then { s with store := s.store.addRun (some session) .skipped, work := none }
    else s.begin (some session)
  | some (.checked session) => (s.endRuns s.store.running .lost .lost).begin (session.map (·.1))
  | _ => s

def State.isRunning (s : State) (session : Option SessionId) : Bool := (session.bind (s.sessions[·]?)).any (·.running)

def State.next (s : State) : State :=
  match s.work with
  | some (.previousEnded (run :: rest)) =>
    if s.isRunning run.sessionId then { s with store := s.store.addRun run.sessionId .skipped, work := none }
    else { s.endRuns [run] .lost .lost with work := some (.previousEnded rest) }
  | some (.previousEnded []) => s.begin none
  | _ => s

def State.admitted (s : State) : State :=
  match s.work with
  | some (.sending runId session false) =>
    match (s.sessions)[session]? with
    | some x =>
      { s with
        sessions := s.sessions.set session { x with running := true }
        taken := s.taken ++ [⟨runId, session, x.ended⟩]
        work := some (.sending runId session true) }
    | none => s
  | some (.starting runId none) =>
    { s with
      sessions := s.sessions ++ [⟨0, true, 0⟩]
      taken := s.taken ++ [⟨runId, s.sessions.length, 0⟩]
      work := some (.starting runId (some s.sessions.length)) }
  | _ => s

def State.sent (s : State) : State :=
  match s.work with
  | some (.sending runId _ true) => { s with work := some (.recording runId) }
  | some (.starting runId (some session)) =>
    { s with
      session := if s.target = .own then some session else s.session
      store := s.store.setRunSession runId session
      work := some (.recording runId) }
  | _ => s

def State.recorded (s : State) : State :=
  match s.work with
  | some (.recording _) => { s with work := none }
  | _ => s

def State.failed (s : State) (runId : Nat) : State :=
  { s with store := s.store.endRun runId .failed, ends := s.ends ++ [(runId, .failure)], work := none }

def State.fails (s : State) : State :=
  match s.work with
  | some (.sending runId _ _) | some (.starting runId _) | some (.recording runId) => s.failed runId
  | some _ => { s with work := none }
  | none => s

def State.settled (s : State) (session : SessionId) (status : Status) : State :=
  match s.work, (s.sessions)[session]? with
  | none, some x =>
    if x.settled < x.ended then
      { s.endRuns (s.store.runningOn session) status.outcome (.settlement session x.settled) with
        sessions := s.sessions.set session { x with settled := x.settled + 1 } }
    else s
  | _, _ => s

def State.message (s : State) (session : SessionId) : State :=
  match (s.sessions)[session]? with
  | some x => { s with sessions := s.sessions.set session { x with running := true } }
  | none => s

def State.runEnds (s : State) (session : SessionId) : State :=
  match (s.sessions)[session]? with
  | some x =>
    if x.running then { s with sessions := s.sessions.set session { x with ended := x.ended + 1, running := false } } else s
  | none => s

def step (s : State) : Event → State
  | .tick => s.tick
  | .read gone => s.read gone
  | .deliver sinceLastSend => s.deliver sinceLastSend
  | .next => s.next
  | .admitted => s.admitted
  | .sent => s.sent
  | .recorded => s.recorded
  | .fails => s.fails
  | .settled session status => s.settled session status
  | .replaceSession => if s.target = .own then { s with session := none } else s
  | .message session => s.message session
  | .runEnds session => s.runEnds session

/-! ## What is promised -/

def State.Settled (s : State) (session : SessionId) (run : Nat) : Prop :=
  ∃ x, s.sessions[session]? = some x ∧ run < x.settled

structure OwnEnds (s : State) : Prop where
  settlement : ∀ runId session run, (runId, .settlement session run) ∈ s.ends → ⟨runId, session, run⟩ ∈ s.taken
  failure : ∀ m ∈ s.taken, (m.runId, .failure) ∉ s.ends
  taken : ∀ m ∈ s.taken, s.Settled m.session m.run → (m.runId, .settlement m.session m.run) ∈ s.ends

/-- The record that the next one drops is of no run in progress. -/
def State.Spares (s : State) : Prop := ∀ r ∈ s.store.pruned, r.outcome ≠ .running

/-- A message is taken only once every settlement of the session's runs that have ended was handled; no run is
recorded as lost, and no record of a run in progress is dropped; and nothing fails once a message is taken. -/
def Orderly (s : State) : Event → Prop
  | .deliver _ => ∀ session, s.work = some (.checked session) → s.Spares ∧
      ((∀ k, session ≠ some (k, true)) → s.store.running = [])
  | .next => ∀ run rest, s.work = some (.previousEnded (run :: rest)) → s.isRunning run.sessionId = true ∧ s.Spares
  | .admitted => ∀ runId session x, s.work = some (.sending runId session false) → s.sessions[session]? = some x →
      x.settled = x.ended
  | .fails => ∀ runId, (∀ session, s.work ≠ some (.sending runId session true) ∧
      s.work ≠ some (.starting runId (some session))) ∧ s.work ≠ some (.recording runId)
  | _ => True

/-! ## What every step keeps -/

/-- The run whose message is yet to be taken. -/
def State.pending (s : State) : Option Nat :=
  match s.work with
  | some (.sending runId _ false) | some (.starting runId none) => some runId
  | _ => none

def State.sessionOf (s : State) (r : RunRow) : Option SessionId :=
  match s.work with
  | some (.starting runId (some session)) => if r.id = runId then some session else r.sessionId
  | _ => r.sessionId

def State.Next (s : State) (session : SessionId) (run : Nat) : Prop :=
  ∃ x, s.sessions[session]? = some x ∧ x.settled = run

structure Fit (s : State) : Prop where
  /-- A run in progress had its message taken by the run that the session is told the end of next. -/
  rows : ∀ r ∈ s.store.rows, r.outcome = .running → s.pending ≠ some r.id →
    ∃ m ∈ s.taken, m.runId = r.id ∧ s.sessionOf r = some m.session ∧ s.Next m.session m.run
  taken : ∀ m ∈ s.taken, s.Settled m.session m.run ∧ (m.runId, .settlement m.session m.run) ∈ s.ends ∨
    (∃ r ∈ s.store.rows, r.id = m.runId ∧ r.outcome = .running ∧ s.sessionOf r = some m.session) ∧ s.Next m.session m.run
  settlement : ∀ runId session run, (runId, .settlement session run) ∈ s.ends → ⟨runId, session, run⟩ ∈ s.taken
  failure : ∀ m ∈ s.taken, (m.runId, .failure) ∉ s.ends
  endsFresh : ∀ e ∈ s.ends, e.1 < s.store.nextId ∧ s.pending ≠ some e.1
  takenFresh : ∀ m ∈ s.taken, m.runId < s.store.nextId ∧ s.pending ≠ some m.runId
  pendingRow : ∀ runId, s.pending = some runId → ∃ r ∈ s.store.rows, r.id = runId ∧ r.outcome = .running ∧
    ∀ session taken, s.work = some (.sending runId session taken) → r.sessionId = some session
  rest : ∀ rest, s.work = some (.previousEnded rest) → ∀ r ∈ s.store.rows, r.outcome = .running → r ∈ rest

theorem Fit.init (target : Target) : Fit (.init target) := by
  exact ⟨nofun, nofun, nofun, nofun, nofun, nofun, nofun, nofun⟩

theorem Fit.ownEnds (h : Fit s) : OwnEnds s := by
  refine ⟨h.settlement, h.failure, fun m hm hsettled => ?_⟩
  rcases h.taken m hm with ⟨-, hmem⟩ | ⟨-, x, hx, hrun⟩
  · exact hmem
  obtain ⟨y, hy, hlt⟩ := hsettled
  cases hx.symm.trans hy
  exact absurd hlt (hrun ▸ Nat.lt_irrefl _)

theorem pending_ne (h : s.pending = none) (runId : Nat) : s.pending ≠ some runId := by
  rw [h]
  exact (Option.some_ne_none runId).symm

/-- No start waits to be recorded, and no message to be taken. -/
structure State.Quiet (s : State) : Prop where
  pending : s.pending = none
  starting : ∀ runId session, s.work ≠ some (.starting runId (some session))

theorem sessionOf_eq (h : ∀ runId session, s.work ≠ some (.starting runId (some session))) (r : RunRow) :
    s.sessionOf r = r.sessionId := by
  unfold State.sessionOf
  split
  next runId session hwork =>
    exact absurd hwork (h runId session)
  · rfl

theorem Fit.setWork (h : Fit s) (hquiet : s.Quiet) {work : Option Work} {session : Option SessionId}
    (hpending : State.pending { s with work } = none)
    (hstarting : ∀ runId session, work ≠ some (.starting runId (some session)))
    (hrest : ∀ rest, work = some (.previousEnded rest) → ∀ r ∈ s.store.rows, r.outcome = .running → r ∈ rest) :
    Fit { s with work, session } := by
  have hnone : State.pending { s with work, session } = none := hpending
  have hsession : ∀ r, State.sessionOf { s with work, session } r = s.sessionOf r := fun r =>
    (sessionOf_eq hstarting r).trans (sessionOf_eq hquiet.starting r).symm
  constructor
  · intro r hr hopen _
    obtain ⟨m, hm, hid, hon, hnext⟩ := h.rows r hr hopen (pending_ne hquiet.pending _)
    exact ⟨m, hm, hid, (hsession r).trans hon, hnext⟩
  · intro m hm
    rcases h.taken m hm with hdone | ⟨⟨r, hr, hid, hopen, hon⟩, hnext⟩
    · exact .inl hdone
    · exact .inr ⟨⟨r, hr, hid, hopen, (hsession r).trans hon⟩, hnext⟩
  · exact h.settlement
  · exact h.failure
  · exact fun e he => ⟨(h.endsFresh e he).1, pending_ne hnone _⟩
  · exact fun m hm => ⟨(h.takenFresh m hm).1, pending_ne hnone _⟩
  · exact fun runId hpending => absurd hpending (pending_ne hnone runId)
  · exact hrest

theorem Fit.skip (h : Fit s) (hquiet : s.Quiet) (hspares : s.Spares) (session : Option SessionId) :
    Fit { s with store := s.store.addRun session .skipped, work := none } := by
  have hsession : ∀ r, State.sessionOf { s with store := s.store.addRun session .skipped, work := none } r = s.sessionOf r :=
    fun r => (sessionOf_eq hquiet.starting r).symm
  constructor
  · intro r hr hopen _
    rcases Store.mem_addRun.mp hr with hr | rfl
    · obtain ⟨m, hm, hid, hon, hnext⟩ := h.rows r (mem_of_mem_drop hr) hopen (pending_ne hquiet.pending _)
      exact ⟨m, hm, hid, (hsession r).trans hon, hnext⟩
    · cases hopen
  · intro m hm
    rcases h.taken m hm with hdone | ⟨⟨r, hr, hid, hopen, hon⟩, hnext⟩
    · exact .inl hdone
    · have hkept := Store.kept hr (fun hmem => hspares r hmem hopen) session .skipped
      exact .inr ⟨⟨r, hkept, hid, hopen, (hsession r).trans hon⟩, hnext⟩
  · exact h.settlement
  · exact h.failure
  · exact fun e he => ⟨Nat.lt_succ_of_lt (h.endsFresh e he).1, pending_ne rfl _⟩
  · exact fun m hm => ⟨Nat.lt_succ_of_lt (h.takenFresh m hm).1, pending_ne rfl _⟩
  · exact fun runId hpending => absurd hpending (pending_ne rfl runId)
  · exact nofun

theorem begin_pending (s : State) (session : Option SessionId) : (s.begin session).pending = some s.store.nextId := by
  cases session <;> rfl

theorem Fit.begin (h : Fit s) (hquiet : s.Quiet) (hspares : s.Spares) (session : Option SessionId) :
    Fit (s.begin session) := by
  have hsession : ∀ r, (s.begin session).sessionOf r = s.sessionOf r := by
    intro r
    rw [sessionOf_eq hquiet.starting r]
    cases session <;> rfl
  constructor
  · intro r hr hopen hpending
    rcases Store.mem_addRun.mp hr with hr | rfl
    · obtain ⟨m, hm, hid, hon, hnext⟩ := h.rows r (mem_of_mem_drop hr) hopen (pending_ne hquiet.pending _)
      exact ⟨m, hm, hid, (hsession r).trans hon, hnext⟩
    · exact absurd (begin_pending s session) hpending
  · intro m hm
    rcases h.taken m hm with hdone | ⟨⟨r, hr, hid, hopen, hon⟩, hnext⟩
    · exact .inl hdone
    · have hkept := Store.kept hr (fun hmem => hspares r hmem hopen) session .running
      exact .inr ⟨⟨r, hkept, hid, hopen, (hsession r).trans hon⟩, hnext⟩
  · exact h.settlement
  · exact h.failure
  · intro e he
    have hlt := (h.endsFresh e he).1
    refine ⟨Nat.lt_succ_of_lt hlt, fun heq => ?_⟩
    rw [← Option.some_inj.mp ((begin_pending s session).symm.trans heq)] at hlt
    exact Nat.lt_irrefl _ hlt
  · intro m hm
    have hlt := (h.takenFresh m hm).1
    refine ⟨Nat.lt_succ_of_lt hlt, fun heq => ?_⟩
    rw [← Option.some_inj.mp ((begin_pending s session).symm.trans heq)] at hlt
    exact Nat.lt_irrefl _ hlt
  · intro runId hpending
    cases (begin_pending s session).symm.trans hpending
    refine ⟨_, s.store.added session .running, rfl, rfl, fun k taken hwork => ?_⟩
    cases session <;> cases hwork
    rfl
  · intro rest hrest
    cases session <;> cases hrest

def Keeps (sessions sessions' : List Session) : Prop :=
  ∀ (k : SessionId) (x : Session), sessions[k]? = some x → ∃ y, sessions'[k]? = some y ∧ y.settled = x.settled

theorem Keeps.set {x y : Session} (hx : sessions[k]? = some x)
    (h : y.settled = x.settled) : Keeps sessions (sessions.set k y) := by
  intro j z hz
  by_cases hjk : j = k
  · subst hjk
    cases hx.symm.trans hz
    exact ⟨y, getElem?_set_self (lt_of_getElem? hx), h⟩
  · exact ⟨z, (getElem?_set_ne (Ne.symm hjk)).trans hz, rfl⟩

theorem Keeps.concat (sessions : List Session) (y : Session) : Keeps sessions (sessions ++ [y]) :=
  fun _ x hx => ⟨x, getElem?_append_some hx _, rfl⟩

theorem State.Next.keep {s' : State} (h : Keeps s.sessions s'.sessions) (hnext : s.Next k run) : s'.Next k run := by
  obtain ⟨x, hx, hrun⟩ := hnext
  obtain ⟨y, hy, hsettled⟩ := h k x hx
  exact ⟨y, hy, hsettled.trans hrun⟩

theorem State.Settled.keep {s' : State} (h : Keeps s.sessions s'.sessions)
    (hsettled : s.Settled k run) : s'.Settled k run := by
  obtain ⟨x, hx, hlt⟩ := hsettled
  obtain ⟨y, hy, heq⟩ := h k x hx
  exact ⟨y, hy, heq ▸ hlt⟩

theorem Fit.withSessions (h : Fit s) (hkeeps : Keeps s.sessions sessions) : Fit { s with sessions } := by
  refine { h with rows := fun r hr hopen hpending => ?_, taken := fun m hm => ?_ }
  · obtain ⟨m, hm, hid, hon, hnext⟩ := h.rows r hr hopen hpending
    exact ⟨m, hm, hid, hon, hnext.keep hkeeps⟩
  rcases h.taken m hm with ⟨hsettled, hend⟩ | ⟨hrow, hnext⟩
  · exact .inl ⟨hsettled.keep hkeeps, hend⟩
  · exact .inr ⟨hrow, hnext.keep hkeeps⟩

theorem Fit.take (h : Fit s) {runId : Nat} {session : SessionId}
    {work : Work} (hpending : s.pending = some runId) (hkeeps : Keeps s.sessions sessions)
    (hnext : State.Next { s with sessions } session run) (hquiet : State.pending { s with work := some work } = none)
    (hwork : ∀ rest, work ≠ .previousEnded rest)
    (hother : ∀ r, r.id ≠ runId → State.sessionOf { s with work := some work } r = s.sessionOf r)
    (hon : ∀ r : RunRow, r.id = runId → (∀ k taken, s.work = some (.sending runId k taken) → r.sessionId = some k) →
      State.sessionOf { s with work := some work } r = some session) :
    Fit { s with sessions, taken := s.taken ++ [⟨runId, session, run⟩], work := some work } := by
  have hnone : State.pending { s with sessions, taken := s.taken ++ [⟨runId, session, run⟩], work := some work } = none :=
    hquiet
  have hne : ∀ {id}, s.pending ≠ some id → id ≠ runId := by
    rintro id hnot rfl
    exact hnot hpending
  obtain ⟨row, hrow, hid, hopen, hsending⟩ := h.pendingRow runId hpending
  have hrowOn := hon row hid hsending
  constructor
  · intro r hr hopen' _
    by_cases hr' : r.id = runId
    · cases s.store.eq_of_id hr hrow (hr'.trans hid.symm)
      exact ⟨_, mem_concat_self, hr'.symm, hrowOn, hnext⟩
    have hnot : s.pending ≠ some r.id := fun heq => hr' (Option.some_inj.mp (hpending.symm.trans heq)).symm
    obtain ⟨m, hm, hmid, hmon, hmnext⟩ := h.rows r hr hopen' hnot
    exact ⟨m, mem_append_left _ hm, hmid, (hother r hr').trans hmon, hmnext.keep hkeeps⟩
  · intro m hm
    rcases mem_concat_cases hm with hm | rfl
    · rcases h.taken m hm with ⟨hsettled, hend⟩ | ⟨⟨r, hr, hrid, hropen, hron⟩, hmnext⟩
      · exact .inl ⟨hsettled.keep hkeeps, hend⟩
      · have hr' : r.id ≠ runId := hrid ▸ hne (h.takenFresh m hm).2
        exact .inr ⟨⟨r, hr, hrid, hropen, (hother r hr').trans hron⟩, hmnext.keep hkeeps⟩
    · exact .inr ⟨⟨row, hrow, hid, hopen, hrowOn⟩, hnext⟩
  · exact fun id k n hend => mem_append_left _ (h.settlement id k n hend)
  · intro m hm
    rcases mem_concat_cases hm with hm | rfl
    · exact h.failure m hm
    · exact fun hend => (h.endsFresh _ hend).2 hpending
  · exact fun e he => ⟨(h.endsFresh e he).1, pending_ne hnone _⟩
  · intro m hm
    refine ⟨?_, pending_ne hnone _⟩
    rcases mem_concat_cases hm with hm | rfl
    · exact (h.takenFresh m hm).1
    · rw [← hid]
      exact s.store.id_lt row hrow
  · exact fun id hp => absurd hp (pending_ne hnone id)
  · intro rest hrest
    exact absurd (Option.some_inj.mp hrest) (hwork rest)

/-! ## One step -/

theorem quiet_of {work : Option Work} (hwork : s.work = work) (hpending : State.pending { s with work } = none)
    (hstarting : ∀ id k, work ≠ some (.starting id (some k))) : s.Quiet := by
  subst hwork
  exact ⟨hpending, hstarting⟩

theorem Fit.tick (h : Fit s) : Fit s.tick := by
  unfold State.tick
  split
  · exact h
  next hwork _ =>
    refine h.setWork (quiet_of hwork rfl nofun) rfl
      nofun fun rest hrest r hr hopen => ?_
    cases hrest
    exact Store.mem_running.mpr ⟨hr, hopen⟩
  next hwork _ _ =>
    exact h.setWork (quiet_of hwork rfl nofun) rfl
      nofun nofun
  next hwork _ _ =>
    exact h.setWork (quiet_of hwork rfl nofun) rfl
      nofun nofun

theorem Fit.read (h : Fit s) (gone : Bool) : Fit (s.read gone) := by
  unfold State.read
  split
  next session hwork =>
    have hquiet := quiet_of hwork rfl nofun
    split
    · exact h.setWork hquiet rfl nofun nofun
    · exact h.setWork hquiet rfl nofun nofun
  · exact h

theorem endRuns_nil (s : State) (outcome : RunOutcome) (how : End) : s.endRuns [] outcome how = s := by
  rw [State.endRuns, map_nil, append_nil]
  rfl

theorem Fit.deliver (h : Fit s) {sinceLastSend : Bool} (horderly : Orderly s (.deliver sinceLastSend)) :
    Fit (s.deliver sinceLastSend) := by
  unfold State.deliver
  split
  next session hwork =>
    obtain ⟨hspares, -⟩ := horderly (some (session, true)) hwork
    have hquiet := quiet_of hwork rfl nofun
    split
    · exact h.skip hquiet hspares (some session)
    · exact h.begin hquiet hspares (some session)
  next session hnot hwork =>
    obtain ⟨hspares, hlost⟩ := horderly session hwork
    rw [hlost fun k hk => hnot k hk, endRuns_nil]
    exact h.begin (quiet_of hwork rfl nofun) hspares _
  · exact h

theorem Fit.next (h : Fit s) (horderly : Orderly s .next) : Fit s.next := by
  unfold State.next
  split
  next run rest hwork =>
    obtain ⟨hrunning, hspares⟩ := horderly run rest hwork
    rw [if_pos hrunning]
    exact h.skip (quiet_of hwork rfl nofun) hspares _
  next hwork =>
    refine h.begin (quiet_of hwork rfl nofun) (fun r hr hopen => ?_) none
    cases h.rest [] hwork r (mem_of_mem_take hr) hopen
  · exact h

theorem Fit.admitted (h : Fit s) (horderly : Orderly s .admitted) : Fit s.admitted := by
  unfold State.admitted
  split
  next runId session hwork =>
    split
    next x hx =>
      have hpending : s.pending = some runId := by rw [State.pending, hwork]
      have hnext : State.Next { s with sessions := s.sessions.set session { x with running := true } } session x.ended :=
        ⟨_, getElem?_set_self (lt_of_getElem? hx), horderly runId session x hwork hx⟩
      refine h.take hpending (Keeps.set hx rfl) hnext rfl nofun (fun r _ => ?_)
        fun r _ hsending => hsending session false hwork
      exact (sessionOf_eq (fun id k hw => by cases hwork.symm.trans hw) r).symm
    · exact h
  next runId hwork =>
    have hpending : s.pending = some runId := by rw [State.pending, hwork]
    have hkeeps : Keeps s.sessions (s.sessions ++ [⟨0, true, 0⟩]) := Keeps.concat _ _
    refine h.take hpending hkeeps ⟨_, getElem?_concat_length, rfl⟩ rfl nofun
      (fun r hr => ?_) fun r hr _ => if_pos hr
    exact (if_neg hr).trans (sessionOf_eq (fun id k hw => by cases hwork.symm.trans hw) r).symm
  · exact h

theorem Fit.sent (h : Fit s) : Fit s.sent := by
  unfold State.sent
  split
  next runId session hwork =>
    exact h.setWork (quiet_of hwork rfl nofun) rfl
      nofun nofun
  next runId session hwork =>
    have hnone : s.pending = none := by rw [State.pending, hwork]
    have hsession : ∀ r, s.sessionOf r = if r.id = runId then some session else r.sessionId := by
      intro r
      rw [State.sessionOf, hwork]
    constructor
    · intro r hr hopen _
      rcases Store.of_mem_modify hr with ⟨r', hr', hid, rfl⟩ | ⟨hr, hid⟩
      · obtain ⟨m, hm, hmid, hon, hnext⟩ := h.rows r' hr' hopen (pending_ne hnone _)
        rw [hsession, if_pos hid] at hon
        exact ⟨m, hm, hmid, hon, hnext⟩
      obtain ⟨m, hm, hmid, hon, hnext⟩ := h.rows r hr hopen (pending_ne hnone _)
      rw [hsession, if_neg hid] at hon
      exact ⟨m, hm, hmid, hon, hnext⟩
    · intro m hm
      rcases h.taken m hm with hdone | ⟨⟨r, hr, hrid, hopen, hon⟩, hnext⟩
      · exact .inl hdone
      rw [hsession] at hon
      by_cases hid : r.id = runId
      · rw [if_pos hid] at hon
        exact .inr ⟨⟨_, Store.mem_modify hr hid, hrid, hopen, hon⟩, hnext⟩
      · rw [if_neg hid] at hon
        exact .inr ⟨⟨r, Store.mem_modify_of_ne hr hid, hrid, hopen, hon⟩, hnext⟩
    · exact h.settlement
    · exact h.failure
    · exact fun e he => ⟨(h.endsFresh e he).1, pending_ne rfl _⟩
    · exact fun m hm => ⟨(h.takenFresh m hm).1, pending_ne rfl _⟩
    · exact fun id hp => absurd hp (pending_ne rfl id)
    · exact nofun
  · exact h

theorem Fit.recorded (h : Fit s) : Fit s.recorded := by
  unfold State.recorded
  split
  next runId hwork =>
    exact h.setWork (quiet_of hwork rfl nofun) rfl
      nofun nofun
  · exact h

theorem Fit.failed (h : Fit s) {runId : Nat} (hpending : s.pending = some runId)
    (hstarting : ∀ id k, s.work ≠ some (.starting id (some k))) : Fit (s.failed runId) := by
  obtain ⟨row, hrow, hid, -⟩ := h.pendingRow runId hpending
  have hne : ∀ {id}, s.pending ≠ some id → id ≠ runId := by
    rintro id hnot rfl
    exact hnot hpending
  constructor
  · intro r hr hopen _
    rcases Store.of_mem_modify hr with ⟨r', -, -, rfl⟩ | ⟨hr, hrid⟩
    · cases hopen
    obtain ⟨m, hm, hmid, hon, hnext⟩ :=
      h.rows r hr hopen fun heq => hrid (Option.some_inj.mp (hpending.symm.trans heq)).symm
    exact ⟨m, hm, hmid, (sessionOf_eq hstarting r).symm.trans hon, hnext⟩
  · intro m hm
    rcases h.taken m hm with ⟨hsettled, hend⟩ | ⟨⟨r, hr, hrid, hopen, hon⟩, hnext⟩
    · exact .inl ⟨hsettled, mem_append_left _ hend⟩
    · have hkept := Store.mem_modify_of_ne (f := id) (g := fun _ => .failed) hr (hrid ▸ hne (h.takenFresh m hm).2)
      exact .inr ⟨⟨r, hkept, hrid, hopen, (sessionOf_eq hstarting r).symm.trans hon⟩, hnext⟩
  · intro id k n hend
    rcases mem_append.mp hend with hend | hend
    · exact h.settlement id k n hend
    · cases mem_singleton.mp hend
  · intro m hm hend
    rcases mem_append.mp hend with hend | hend
    · exact h.failure m hm hend
    · exact hne (h.takenFresh m hm).2 (Prod.mk.inj (mem_singleton.mp hend)).1
  · intro e he
    refine ⟨?_, pending_ne rfl _⟩
    rcases mem_concat_cases he with he | rfl
    · exact (h.endsFresh e he).1
    · exact hid ▸ s.store.id_lt row hrow
  · exact fun m hm => ⟨(h.takenFresh m hm).1, pending_ne rfl _⟩
  · exact fun id hp => absurd hp (pending_ne rfl id)
  · exact nofun

theorem Fit.fails (h : Fit s) (horderly : Orderly s .fails) : Fit s.fails := by
  unfold State.fails
  split
  next runId session taken hwork =>
    cases taken with
    | true => exact absurd hwork ((horderly runId).1 session).1
    | false =>
      refine h.failed (by rw [State.pending, hwork]) fun id k hw => ?_
      cases hwork.symm.trans hw
  next runId session hwork =>
    cases session with
    | some session => exact absurd hwork ((horderly runId).1 session).2
    | none =>
      refine h.failed (by rw [State.pending, hwork]) fun id k hw => ?_
      cases hwork.symm.trans hw
  next runId hwork =>
    exact absurd hwork (horderly runId).2
  next work hsending hstarting hrecording hwork =>
    have hpending : State.pending s = none := by
      unfold State.pending
      split
      next runId session hw =>
        cases hwork.symm.trans hw
        exact absurd rfl (hsending runId session false)
      next runId hw =>
        cases hwork.symm.trans hw
        exact absurd rfl (hstarting runId none)
      · rfl
    refine h.setWork ⟨hpending, fun id k hw => ?_⟩ rfl nofun nofun
    cases hwork.symm.trans hw
    exact absurd rfl (hstarting id (some k))
  · exact h

theorem Fit.settle (h : Fit s) (hwork : s.work = none) {session : SessionId} {x : Session}
    (hx : s.sessions[session]? = some x) (status : Status) :
    Fit { s.endRuns (s.store.runningOn session) status.outcome (.settlement session x.settled) with
      sessions := s.sessions.set session { x with settled := x.settled + 1 } } := by
  have hsession : ∀ r, s.sessionOf r = r.sessionId := sessionOf_eq fun id k hw => by cases hwork.symm.trans hw
  have hpending : s.pending = none := by rw [State.pending, hwork]
  have houtcome : status.outcome ≠ .running := by cases status <;> exact RunOutcome.noConfusion
  have hsessions : ∀ k, k ≠ session → (s.sessions.set session { x with settled := x.settled + 1 })[k]? = s.sessions[k]? :=
    fun k hk => getElem?_set_ne (Ne.symm hk)
  have hself : (s.sessions.set session { x with settled := x.settled + 1 })[session]? =
      some { x with settled := x.settled + 1 } := getElem?_set_self (lt_of_getElem? hx)
  have hnow : ∀ {run}, s.Next session run → run = x.settled := by
    rintro run ⟨y, hy, rfl⟩
    cases hx.symm.trans hy
    rfl
  have hon : ∀ {r}, r ∈ s.store.rows → r.outcome = .running → r.sessionId = some session →
      r ∈ s.store.runningOn session := fun hr hopen hrs => Store.mem_runningOn.mpr ⟨hr, hrs, hopen⟩
  constructor
  · intro r hr hopen _
    obtain ⟨hr, hnot⟩ := Store.of_mem_endRuns houtcome hr hopen
    obtain ⟨m, hm, hmid, hrs, y, hy, hrun⟩ := h.rows r hr hopen (pending_ne hpending _)
    rw [hsession] at hrs
    have hother : m.session ≠ session := fun heq => hnot r (hon hr hopen (heq ▸ hrs)) rfl
    exact ⟨m, hm, hmid, (hsession r).trans hrs, y, (hsessions _ hother).trans hy, hrun⟩
  · intro m hm
    by_cases hms : m.session = session
    · left
      rcases h.taken m hm with ⟨⟨y, hy, hlt⟩, hend⟩ | ⟨⟨r, hr, hrid, hopen, hrs⟩, hnext⟩
      · refine ⟨⟨{ x with settled := x.settled + 1 }, ?_, ?_⟩, mem_append_left _ hend⟩
        · rw [hms]
          exact hself
        rw [hms] at hy
        cases hx.symm.trans hy
        exact Nat.lt_succ_of_lt hlt
      · rw [hsession, hms] at hrs
        rw [hms] at hnext ⊢
        rw [hnow hnext]
        refine ⟨⟨_, hself, Nat.lt_succ_self _⟩, mem_append_right _ (mem_map.mpr ⟨r, hon hr hopen hrs, ?_⟩)⟩
        rw [hrid]
    · rcases h.taken m hm with ⟨⟨y, hy, hlt⟩, hend⟩ | ⟨⟨r, hr, hrid, hopen, hrs⟩, y, hy, hrun⟩
      · exact .inl ⟨⟨y, (hsessions _ hms).trans hy, hlt⟩, mem_append_left _ hend⟩
      right
      rw [hsession] at hrs
      refine ⟨⟨r, Store.mem_endRuns_of_notMem hr fun z hz hid => hms ?_, hrid, hopen, (hsession r).trans hrs⟩, y,
        (hsessions _ hms).trans hy, hrun⟩
      obtain ⟨hz, hzs, -⟩ := Store.mem_runningOn.mp hz
      cases s.store.eq_of_id hr hz hid
      exact Option.some_inj.mp (hrs.symm.trans hzs)
  · intro id k n hend
    rcases mem_append.mp hend with hend | hend
    · exact h.settlement id k n hend
    obtain ⟨r, hr, heq⟩ := mem_map.mp hend
    cases heq
    obtain ⟨hr, hrs, hopen⟩ := Store.mem_runningOn.mp hr
    obtain ⟨m, hm, hmid, hms, hnext⟩ := h.rows r hr hopen (pending_ne hpending _)
    rw [hsession, hrs] at hms
    cases m
    cases hms
    cases hmid
    cases hnow hnext
    exact hm
  · intro m hm hend
    rcases mem_append.mp hend with hend | hend
    · exact h.failure m hm hend
    · obtain ⟨r, -, heq⟩ := mem_map.mp hend
      cases (Prod.mk.inj heq).2
  · intro e he
    refine ⟨?_, pending_ne hpending _⟩
    change e.1 < (s.store.endRuns (s.store.runningOn session) status.outcome).nextId
    rw [Store.endRuns_nextId]
    rcases mem_append.mp he with he | he
    · exact (h.endsFresh e he).1
    · obtain ⟨r, hr, rfl⟩ := mem_map.mp he
      exact s.store.id_lt r (Store.mem_runningOn.mp hr).1
  · intro m hm
    refine ⟨?_, pending_ne hpending _⟩
    change m.runId < (s.store.endRuns (s.store.runningOn session) status.outcome).nextId
    rw [Store.endRuns_nextId]
    exact (h.takenFresh m hm).1
  · exact fun id hp => absurd hp (pending_ne hpending id)
  · intro rest hrest
    cases hwork.symm.trans hrest

theorem Fit.step (h : Fit s) {e : Event} (horderly : Orderly s e) : Fit (step s e) := by
  cases e with
  | tick => exact h.tick
  | read gone => exact h.read gone
  | deliver sinceLastSend => exact h.deliver horderly
  | next => exact h.next horderly
  | admitted => exact h.admitted horderly
  | sent => exact h.sent
  | recorded => exact h.recorded
  | fails => exact h.fails horderly
  | settled session status =>
    simp only [RunRecords.step, State.settled]
    split
    next x hwork hx =>
      split
      · exact h.settle hwork hx status
      · exact h
    · exact h
  | replaceSession =>
    simp only [RunRecords.step]
    split
    · exact { h with }
    · exact h
  | message session =>
    simp only [RunRecords.step, State.message]
    split
    next x hx =>
      exact h.withSessions (Keeps.set hx rfl)
    · exact h
  | runEnds session =>
    simp only [RunRecords.step, State.runEnds]
    split
    next x hx =>
      split
      · exact h.withSessions (Keeps.set hx rfl)
      · exact h
    · exact h

/-! ## Over a run -/

/-- **Runs record their own ends**, in a run of the machine whose steps are orderly. -/
theorem ends_own (target : Target) (es : List Event) (h : Along step Orderly (.init target) es) :
    Always step OwnEnds (.init target) es :=
  h.of_invariant Fit (fun _ _ horderly hfit => hfit.step horderly)
    (fun _ _ horderly hfit => (hfit.step horderly).ownEnds) (.init target)

/-- An own session's start, whose settlement comes once its run has ended. -/
def delivered : List Event := [.tick, .deliver false, .admitted, .sent, .recorded]

theorem ends_own_one :
    Always step OwnEnds (.init .own) (delivered ++ [.runEnds 0, .settled 0 .completed, .message 0]) := by
  refine ends_own .own _ ⟨trivial, ?_, ?_, trivial, trivial, trivial, trivial, trivial, trivial⟩
  · intro session hwork
    cases hwork
    exact ⟨fun r hr => absurd (mem_of_mem_take hr) not_mem_nil, fun _ => rfl⟩
  · exact nofun

theorem ended_by_another :
    let s := exec step (.init .own) (delivered ++ [.runEnds 0, .settled 0 .completed, .message 0, .runEnds 0, .tick,
      .read false, .deliver false, .admitted, .sent, .recorded, .settled 0 .failed])
    (1, .settlement 0 1) ∈ s.ends ∧ ⟨1, 0, 2⟩ ∈ s.taken ∧ ¬OwnEnds s := by
  intro s
  have hend : (1, .settlement 0 1) ∈ s.ends := by decide +kernel
  have htaken : ∀ m ∈ s.taken, m ≠ ⟨1, 0, 1⟩ := by decide +kernel
  refine ⟨hend, by decide +kernel, fun h => ?_⟩
  exact htaken _ (h.settlement 1 0 1 hend) rfl

end Reins.RunRecords
