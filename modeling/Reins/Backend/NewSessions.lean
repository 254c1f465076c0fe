import Reins.Backend.AutomationRuns
import Reins.Lib.Places
import Reins.Lib.Run

/-!
# An automation that starts new sessions (`check`, `previousEnded`, `deliver`)

One automation whose target is a new session, the records of its runs, and the sessions it started. Ticks,
what follows a command check, and settlements are one at a time; sessions go on meanwhile. A process that
ends leaves the records, and in Pi the runs it cut off: these read as idle until the next process resumes
them. When a delivery is due is `Automations`' matter: here at any time.
-/

namespace Reins.NewSessions

open Run Places AutomationRuns

inductive SessionState
  /-- The run that its delivery began; a process drives it, or it was cut off. -/
  | inRun (driven : Bool)
  | idle
  | otherRun
  | deleted
  deriving DecidableEq

def SessionState.isInRun : SessionState → Bool
  | .inRun _ => true
  | _ => false

/-- `SessionInfo.running`; a deleted session is not found. -/
def SessionState.running : SessionState → Bool
  | .inRun driven => driven
  | .otherRun => true
  | _ => false

inductive Work
  /-- The runs in progress that it has yet to look at. -/
  | previousEnded (rest : List RunRow)
  | starting (runId : Nat) (session : Option SessionId)
  /-- The session's start is recorded; it is read, and the send is recorded. -/
  | recording (runId : Nat) (session : SessionId)
  deriving DecidableEq

structure State where
  store : Store
  sessions : List SessionState
  work : Option Work

def State.init : State := { store := .empty, sessions := [], work := none }

inductive Status
  | completed
  | failed
  | cancelled
  deriving DecidableEq

def Status.outcome : Status → RunOutcome
  | .completed => .completed
  | .failed => .failed
  | .cancelled => .cancelled

inductive Event
  /-- A tick finds a delivery due, or a command check has succeeded. -/
  | due
  /-- What `previousEnded` does next, and then `deliver`. -/
  | next
  /-- The session is created and its first message accepted. -/
  | admitted
  | started
  | recorded
  | fails
  | settled (session : SessionId) (status : Status)
  | restart
  | resumed (session : SessionId)
  | runEnds (session : SessionId)
  | otherRun (session : SessionId)
  | deleted (session : SessionId)

def State.due (s : State) : State :=
  match s.work with
  | none => { s with work := some (.previousEnded s.store.running) }
  | some _ => s

def State.isRunning (s : State) (session : Option SessionId) : Bool :=
  (session.bind (s.sessions[·]?)).any SessionState.running

def State.next (s : State) : State :=
  match s.work with
  | some (.previousEnded (run :: rest)) =>
    if s.isRunning run.sessionId then { s with store := s.store.addRun run.sessionId .skipped, work := none }
    else { s with store := s.store.endRun run.id .lost, work := some (.previousEnded rest) }
  | some (.previousEnded []) =>
    { s with store := s.store.addRun none .running, work := some (.starting s.store.nextId none) }
  | _ => s

def State.admitted (s : State) : State :=
  match s.work with
  | some (.starting runId none) =>
    { s with sessions := s.sessions ++ [.inRun true], work := some (.starting runId (some s.sessions.length)) }
  | _ => s

def State.started (s : State) : State :=
  match s.work with
  | some (.starting runId (some session)) =>
    { s with store := s.store.setRunSession runId session, work := some (.recording runId session) }
  | _ => s

def State.recorded (s : State) : State :=
  match s.work with
  | some (.recording _ _) => { s with work := none }
  | _ => s

def State.fails (s : State) : State :=
  match s.work with
  | some (.previousEnded _) => { s with work := none }
  | some (.starting runId _) | some (.recording runId _) =>
    { s with store := s.store.endRun runId .failed, work := none }
  | none => s

variable {s : State}

def State.settled (s : State) (session : SessionId) (status : Status) : State :=
  match s.work, s.sessions[session]? with
  | none, some x => if x.isInRun then s else { s with store := s.store.endRuns (s.store.runningOn session) status.outcome }
  | _, _ => s

/-- The process ends, and the next begins. -/
def SessionState.cut : SessionState → SessionState
  | .inRun _ => .inRun false
  | .otherRun => .idle
  | x => x

def SessionState.resumed : SessionState → SessionState
  | .inRun _ => .inRun true
  | x => x

def SessionState.runEnds : SessionState → SessionState
  | .inRun _ | .otherRun => .idle
  | x => x

def SessionState.messaged : SessionState → SessionState
  | .idle => .otherRun
  | x => x

def State.modify (s : State) (session : SessionId) (f : SessionState → SessionState) : State :=
  { s with sessions := s.sessions.modify session f }

def step (s : State) : Event → State
  | .due => s.due
  | .next => s.next
  | .admitted => s.admitted
  | .started => s.started
  | .recorded => s.recorded
  | .fails => s.fails
  | .settled session status => s.settled session status
  | .restart => { s with sessions := s.sessions.map SessionState.cut, work := none }
  | .resumed session => s.modify session SessionState.resumed
  | .runEnds session => s.modify session SessionState.runEnds
  | .otherRun session => s.modify session SessionState.messaged
  | .deleted session => s.modify session fun _ => .deleted

/-! ## What is promised -/

def State.Works (s : State) (session : SessionId) : Prop := ∃ x, s.sessions[session]? = some x ∧ x.isInRun = true

def Alone (s : State) : Event → Prop
  | .admitted => ∀ runId, s.work = some (.starting runId none) → ∀ session, ¬s.Works session
  | _ => True

/-- `previousEnded` looks at no session whose run was cut off and is not resumed yet, and skips no delivery whose
record drops that of a session still in its run; and no process ends, and nothing fails, with a session
started and in its run that the delivery has not recorded, or has yet to record the send to. -/
def Orderly (s : State) : Event → Prop
  | .next => ∀ run rest session, s.work = some (.previousEnded (run :: rest)) → run.sessionId = some session →
      s.sessions[session]? ≠ some (.inRun false) ∧
        (s.isRunning run.sessionId = true → ∀ r ∈ s.store.pruned, ∀ k, r.sessionId = some k → ¬s.Works k)
  | .restart => ∀ runId session, s.work = some (.starting runId (some session)) → ¬s.Works session
  | .fails => ∀ runId session,
      s.work = some (.starting runId (some session)) ∨ s.work = some (.recording runId session) → ¬s.Works session
  | _ => True

/-! ## What every step keeps -/

/-- A record of the session says that it is in progress. -/
def State.Held (s : State) (session : SessionId) : Prop :=
  ∃ r ∈ s.store.rows, r.outcome = .running ∧ r.sessionId = some session

/-- The sessions in their runs are those with such records, less what a delivery has seen to be idle. -/
def Fit (s : State) : Prop :=
  match s.work with
  | none => ∀ k, s.Works k → s.Held k
  | some (.previousEnded rest) =>
    (∀ r ∈ rest, r ∈ s.store.rows) ∧ (rest.map (·.id)).Nodup ∧
      ∀ k, s.Works k → ∃ r ∈ rest, r.outcome = .running ∧ r.sessionId = some k
  | some (.starting runId session) =>
    (∃ r ∈ s.store.rows, r.id = runId ∧ r.outcome = .running) ∧ ∀ k, s.Works k → session = some k
  | some (.recording runId session) =>
    (∀ r ∈ s.store.rows, r.id = runId → r.sessionId = some session) ∧ ∀ k, s.Works k → s.Held k

theorem Fit.init : Fit .init := by
  intro k hk
  obtain ⟨x, hx, -⟩ := hk
  cases hx

theorem Fit.withSessions (h : Fit s) {sessions : List SessionState}
    (hworks : ∀ k, State.Works { s with sessions } k → s.Works k) : Fit { s with sessions } := by
  unfold Fit at h ⊢
  cases hwork : s.work with
  | none =>
    rw [hwork] at h
    exact fun k hk => h k (hworks k hk)
  | some work =>
    rw [hwork] at h
    cases work with
    | previousEnded rest => exact ⟨h.1, h.2.1, fun k hk => h.2.2 k (hworks k hk)⟩
    | starting runId session => exact ⟨h.1, fun k hk => h.2 k (hworks k hk)⟩
    | recording runId session => exact ⟨h.1, fun k hk => h.2 k (hworks k hk)⟩

theorem works_modify {session : SessionId} {f : SessionState → SessionState}
    (hf : ∀ x, (f x).isInRun = true → x.isInRun = true) {k : SessionId} (h : (s.modify session f).Works k) :
    s.Works k := by
  obtain ⟨x, hx, hin⟩ := h
  have hx' : (s.sessions.modify session f)[k]? = some x := hx
  rw [List.getElem?_modify] at hx'
  obtain ⟨y, hy, rfl⟩ := Option.map_eq_some_iff.mp hx'
  refine ⟨y, hy, ?_⟩
  split at hin
  · exact hf y hin
  · exact hin

theorem Fit.modify (h : Fit s) (session : SessionId) {f : SessionState → SessionState}
    (hf : ∀ x, (f x).isInRun = true → x.isInRun = true) : Fit (s.modify session f) :=
  h.withSessions fun _ => works_modify hf

/-! ## One step -/

theorem isRunning_of_works {k : SessionId} (hk : s.Works k) (hcut : s.sessions[k]? ≠ some (.inRun false)) :
    s.isRunning (some k) = true := by
  obtain ⟨x, hx, hin⟩ := hk
  rw [State.isRunning, Option.bind_some, hx]
  cases x with
  | inRun driven =>
    cases driven with
    | true => rfl
    | false => exact absurd hx hcut
  | _ => cases hin

theorem Fit.due (h : Fit s) : Fit s.due := by
  unfold State.due
  split
  next hwork =>
    rw [Fit, hwork] at h
    refine ⟨fun r hr => (Store.mem_running.mp hr).1, s.store.running_nodup, fun k hk => ?_⟩
    obtain ⟨r, hr, hrunning, hsession⟩ := h k hk
    exact ⟨r, Store.mem_running.mpr ⟨hr, hrunning⟩, hrunning, hsession⟩
  · exact h

theorem Fit.skip (h : Fit s) {run : RunRow} {rest : List RunRow}
    (hwork : s.work = some (.previousEnded (run :: rest))) (horderly : Orderly s .next)
    (hrunning : s.isRunning run.sessionId = true) :
    Fit { s with store := s.store.addRun run.sessionId .skipped, work := none } := by
  rw [Fit, hwork] at h
  obtain ⟨hrows, -, hheld⟩ := h
  intro k hk
  obtain ⟨r, hr, hopen, hsession⟩ := hheld k hk
  cases hrun : run.sessionId with
  | none =>
    rw [hrun] at hrunning
    cases hrunning
  | some session =>
    obtain ⟨-, hpruned⟩ := horderly run rest session hwork hrun
    have hkept : r ∉ s.store.pruned := fun hmem => hpruned hrunning r hmem k hsession hk
    exact ⟨r, Store.kept (hrows r hr) hkept _ _, hopen, hsession⟩

/-- The session's run has ended, or it was never recorded: the record is closed, and the others stay. -/
theorem Fit.lose (h : Fit s) {run : RunRow} {rest : List RunRow}
    (hwork : s.work = some (.previousEnded (run :: rest))) (horderly : Orderly s .next)
    (hrunning : s.isRunning run.sessionId = false) :
    Fit { s with store := s.store.endRun run.id .lost, work := some (.previousEnded rest) } := by
  rw [Fit, hwork] at h
  obtain ⟨hrows, hnodup, hheld⟩ := h
  obtain ⟨hnotMem, hnodup'⟩ := List.nodup_cons.mp hnodup
  refine ⟨fun r hr => ?_, hnodup', fun k hk => ?_⟩
  · refine Store.mem_modify_of_ne (hrows r (List.mem_cons_of_mem run hr)) fun hid => hnotMem ?_
    exact List.mem_map.mpr ⟨r, hr, hid⟩
  obtain ⟨r, hr, hopen, hsession⟩ := hheld k hk
  rcases List.mem_cons.mp hr with rfl | hr
  · obtain ⟨hcut, -⟩ := horderly r rest k hwork hsession
    have hworks := isRunning_of_works (s := s) hk hcut
    rw [hsession, hworks] at hrunning
    cases hrunning
  · exact ⟨r, hr, hopen, hsession⟩

theorem Fit.next (h : Fit s) (horderly : Orderly s .next) : Fit s.next := by
  unfold State.next
  split
  next run rest hwork =>
    split
    · exact h.skip hwork horderly ‹_›
    · exact h.lose hwork horderly (Bool.eq_false_iff.mpr ‹_›)
  next hwork =>
    rw [Fit, hwork] at h
    refine ⟨⟨_, s.store.added none .running, rfl, rfl⟩, fun k hk => ?_⟩
    -- every record was looked at, so none is in its run
    obtain ⟨r, hr, -⟩ := h.2.2 k hk
    cases hr
  · exact h

theorem Fit.admitted (h : Fit s) : Fit s.admitted := by
  unfold State.admitted
  split
  next runId hwork =>
    rw [Fit, hwork] at h
    refine ⟨h.1, fun k hk => ?_⟩
    obtain ⟨x, hx, hin⟩ := hk
    rcases getElem?_concat_cases hx with hx | ⟨rfl, -⟩
    · cases h.2 k ⟨x, hx, hin⟩
    · rfl
  · exact h

theorem Fit.started (h : Fit s) : Fit s.started := by
  unfold State.started
  split
  next runId session hwork =>
    rw [Fit, hwork] at h
    obtain ⟨⟨r, hr, hid, hopen⟩, hworks⟩ := h
    refine ⟨fun r' hr' hid' => ?_, fun k hk => ?_⟩
    · rcases Store.of_mem_modify hr' with ⟨r₀, -, -, rfl⟩ | ⟨-, hne⟩
      · rfl
      · exact absurd hid' hne
    · cases hworks k hk
      exact ⟨_, Store.mem_modify hr hid, hopen, rfl⟩
  · exact h

theorem Fit.recorded (h : Fit s) : Fit s.recorded := by
  unfold State.recorded
  split
  next runId session hwork =>
    rw [Fit, hwork] at h
    exact h.2
  · exact h

theorem Fit.fails (h : Fit s) (horderly : Orderly s .fails) : Fit s.fails := by
  unfold State.fails
  split
  next rest hwork =>
    rw [Fit, hwork] at h
    obtain ⟨hrows, -, hheld⟩ := h
    intro k hk
    obtain ⟨r, hr, hopen, hsession⟩ := hheld k hk
    exact ⟨r, hrows r hr, hopen, hsession⟩
  next runId session hwork =>
    rw [Fit, hwork] at h
    intro k hk
    cases h.2 k hk
    exact absurd hk (horderly runId k (.inl hwork))
  next runId session hwork =>
    rw [Fit, hwork] at h
    obtain ⟨hrun, hheld⟩ := h
    intro k hk
    obtain ⟨r, hr, hopen, hsession⟩ := hheld k hk
    refine ⟨r, Store.mem_modify_of_ne hr fun hid => ?_, hopen, hsession⟩
    cases (hrun r hr hid).symm.trans hsession
    exact horderly runId session (.inr hwork) hk
  · exact h

theorem Fit.settled (h : Fit s) (session : SessionId) (status : Status) : Fit (s.settled session status) := by
  unfold State.settled
  split
  next x hwork hx =>
    split
    · exact h
    rename_i hended
    rw [Fit, hwork] at h
    rw [Fit]
    dsimp only
    rw [hwork]
    intro k hk
    obtain ⟨r, hr, hopen, hsession⟩ := h k hk
    refine ⟨r, Store.mem_endRuns_of_notMem hr fun r' hr' hid => ?_, hopen, hsession⟩
    obtain ⟨hrows, hon, -⟩ := Store.mem_runningOn.mp hr'
    cases s.store.eq_of_id hr hrows hid
    cases hsession.symm.trans hon
    obtain ⟨y, hy, hin⟩ := hk
    cases hx.symm.trans hy
    exact hended hin
  · exact h

theorem Fit.restart (h : Fit s) (horderly : Orderly s .restart) : Fit (step s .restart) := by
  have hcut : ∀ k, (step s .restart).Works k → s.Works k := by
    intro k hk
    obtain ⟨x, hx, hin⟩ := hk
    have hx' : (s.sessions.map SessionState.cut)[k]? = some x := hx
    rw [List.getElem?_map] at hx'
    obtain ⟨y, hy, rfl⟩ := Option.map_eq_some_iff.mp hx'
    refine ⟨y, hy, ?_⟩
    cases y <;> first | rfl | exact hin
  intro k hk
  have hworks := hcut k hk
  unfold Fit at h
  split at h
  · exact h k hworks
  · obtain ⟨hrows, -, hheld⟩ := h
    obtain ⟨r, hr, hopen, hsession⟩ := hheld k hworks
    exact ⟨r, hrows r hr, hopen, hsession⟩
  next runId session hwork =>
    cases h.2 k hworks
    exact absurd hworks (horderly runId k hwork)
  · exact h.2 k hworks

theorem Fit.step (h : Fit s) {e : Event} (horderly : Orderly s e) : Fit (step s e) := by
  cases e with
  | due => exact h.due
  | next => exact h.next horderly
  | admitted => exact h.admitted
  | started => exact h.started
  | recorded => exact h.recorded
  | fails => exact h.fails horderly
  | settled session status => exact h.settled session status
  | restart => exact h.restart horderly
  | resumed session => exact h.modify session fun x hx => by cases x <;> first | rfl | exact hx
  | runEnds session => exact h.modify session fun x hx => by cases x <;> first | rfl | exact hx
  | otherRun session => exact h.modify session fun x hx => by cases x <;> first | rfl | exact hx
  | deleted session => exact h.modify session nofun

theorem Fit.alone (h : Fit s) (e : Event) : Alone s e := by
  cases e with
  | admitted =>
    intro runId hwork k hk
    rw [Fit, hwork] at h
    cases h.2 k hk
  | _ => trivial

/-! ## Over a run -/

/-- **No two at once**, in a run whose steps are orderly. -/
theorem starts_alone (es : List Event) (h : Along step Orderly .init es) : Along step Alone .init es :=
  h.of_invariant Fit (fun _ _ horderly hfit => hfit.step horderly) (fun _ e _ hfit => hfit.alone e) .init

theorem next_orderly (h : ∀ x ∈ s.sessions, x = .idle) : Orderly s .next := by
  intro run rest session _ hrun
  have hidle : ∀ x, s.sessions[session]? = some x → x = .idle := fun x hx => h x (List.mem_of_getElem? hx)
  refine ⟨fun hcut => ?_, fun hrunning => ?_⟩
  · cases hidle _ hcut
  rw [State.isRunning, hrun, Option.bind_some] at hrunning
  cases hx : s.sessions[session]? with
  | none =>
    rw [hx] at hrunning
    cases hrunning
  | some x =>
    rw [hx, hidle x hx] at hrunning
    cases hrunning

theorem starts_alone_two : Along step Alone .init
      [.due, .next, .admitted, .started, .recorded, .runEnds 0, .due, .next, .next, .admitted] := by
  refine starts_alone _ ⟨trivial, ?_, trivial, trivial, trivial, trivial, trivial, ?_, ?_, trivial, trivial⟩
  · exact next_orderly nofun
  · exact next_orderly (s := exec step .init [.due, .next, .admitted, .started, .recorded, .runEnds 0, .due])
      (by decide +kernel)
  · exact next_orderly (s := exec step .init [.due, .next, .admitted, .started, .recorded, .runEnds 0, .due, .next])
      (by decide +kernel)

/-- The process ends once a session has begun its run, and before the run's record has the session: the next delivery
does not find it, and starts another. -/
theorem started_beside :
    ¬Along step Alone .init [.due, .next, .admitted, .restart, .resumed 0, .due, .next, .next, .admitted] := by
  let s := exec step .init [.due, .next, .admitted, .restart, .resumed 0, .due, .next, .next]
  rintro ⟨-, -, -, -, -, -, -, -, halone, -⟩
  have hwork : s.work = some (.starting 1 none) := by decide +kernel
  have hsession : s.sessions[0]? = some (.inRun true) := by decide +kernel
  exact halone 1 hwork 0 ⟨.inRun true, hsession, rfl⟩

end Reins.NewSessions
