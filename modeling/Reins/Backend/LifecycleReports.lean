import Reins.Lib.Run

/-!
# Run lifecycle reports (`backend/src/session-runtime/{build,pi-runtime}.ts`)

A runtime's lifecycle sink marks the run last reported started, settles a run at its end, and settles the
marked one as failed where a storage call fails, which no run end follows. Reports are chained, so they
are applied one at a time in the order they arose. A standalone compaction is reported started as a run
is, and ends without a run end, so the marker stays on it.
-/

namespace Reins.LifecycleReports

open List

/-! ## Reports -/

abbrev SessionId := String
abbrev RunId := String

inductive Status
  | completed
  | failed
  | aborted
  deriving DecidableEq

inductive Source
  | pi
  | reins
  deriving DecidableEq

structure OperationError where
  code : Option String
  message : String
  deriving DecidableEq

structure Model where
  provider : String
  modelId : String
  deriving DecidableEq

structure Metadata where
  model : Option Model
  thinkingLevel : Option String
  deriving DecidableEq

structure SessionSettled where
  sessionId : SessionId
  runId : RunId
  source : Source
  tipId : Option String
  status : Status
  error : Option OperationError
  metadata : Metadata
  deriving DecidableEq

/-- Pi's `run_end`, with what the runtime knows of the run: why its system prompt could not be
prepared, and the session's selection (`getSessionMetadata`). -/
structure RunEnd where
  runId : RunId
  tipId : Option String
  status : Status
  error : Option OperationError
  failure : Option String
  model : Option Model
  thinkingLevel : Option String

def runOutcome (e : RunEnd) : Status × Option OperationError :=
  match e.failure with
  | some message => (.failed, some ⟨some "checkout_unavailable", message⟩)
  | none => (e.status, if e.status = .failed then e.error else none)

def settledReport (sessionId : SessionId) (e : RunEnd) : SessionSettled :=
  { sessionId
    runId := e.runId
    source := .pi
    tipId := e.tipId
    status := (runOutcome e).1
    error := (runOutcome e).2.map fun err => ⟨err.code.filter (· ≠ ""), err.message⟩
    metadata :=
      { model := e.model.filter fun m => m.provider ≠ "" ∧ m.modelId ≠ ""
        thinkingLevel := e.thinkingLevel } }

def failedReport (sessionId : SessionId) (runId : RunId) (message : String) : SessionSettled :=
  { sessionId
    runId
    source := .reins
    tipId := none
    status := .failed
    error := some ⟨none, "Session storage failed: " ++ message⟩
    metadata := ⟨none, none⟩ }

/-! ## The lane -/

inductive OperationKind
  | run
  | compaction
  deriving DecidableEq

structure Operation where
  id : RunId
  kind : OperationKind
  deriving DecidableEq

/-- Pi's lane, as its events show it. -/
structure Lane where
  current : Option Operation
  /-- A start of the current operation was reported. -/
  reported : Bool
  operations : List Operation
  ended : List RunId

def Lane.fresh (l : Lane) (id : RunId) : Bool := l.operations.all fun op => op.id ≠ id

def Lane.accept (l : Lane) (op : Operation) : Lane :=
  { l with current := some op, reported := false, operations := l.operations ++ [op] }

def Lane.end (l : Lane) : Lane := { l with current := none }

/-! ## The sink -/

/-- `lifecycleReports`. -/
structure Reports where
  openRun : Option RunId
  faulted : Bool
  /-- What `last` has still to apply. -/
  chain : List SessionSettled
  /-- Whose application began, the last of them maybe still in progress. -/
  applied : List SessionSettled
  applying : Bool

structure State where
  sessionId : SessionId
  lane : Lane
  reports : Reports
  handed : List (Lane × SessionSettled)

def init (sessionId : SessionId) (pending : Option Operation) : State :=
  { sessionId
    lane := { current := pending, reported := false, operations := pending.toList, ended := [] }
    reports := { openRun := none, faulted := false, chain := [], applied := [], applying := false }
    handed := [] }

def State.started (s : State) (id : RunId) : State :=
  if s.reports.faulted then s
  else
    { s with
      lane := { s.lane with reported := true }
      reports := { s.reports with openRun := some id } }

def State.settle (s : State) (report : SessionSettled) : State :=
  { s with
    reports := { s.reports with chain := s.reports.chain ++ [report] }
    handed := s.handed ++ [(s.lane, report)] }

def State.settled (s : State) (e : RunEnd) : State :=
  if s.reports.faulted then s
  else
    { s with reports := { s.reports with openRun := none } }.settle (settledReport s.sessionId e)

def State.storageFailed (s : State) (message : String) : State :=
  if s.reports.faulted then s
  else
    let s := { s with reports := { s.reports with faulted := true } }
    match s.reports.openRun with
    | none => s
    | some id => s.settle (failedReport s.sessionId id message)

/-! ## Events -/

inductive Event
  /-- Pi's `run_start`: a run was accepted. -/
  | runStart (id : RunId)
  | runResume (id : RunId)
  /-- `resumeInBackground`, of the operation that is current. -/
  | resumed (id : RunId)
  | compactionAccepted (id : RunId)
  | compactionStart (id : RunId)
  | compactionEnd (id : RunId)
  | runEnd (e : RunEnd)
  | storageFailed (message : String)
  | apply
  | applied

/-- One event; one that the lane cannot produce changes nothing. A faulted harness accepts and drives
nothing. -/
def step (s : State) : Event → State
  | .runStart id =>
    if s.reports.faulted = false ∧ s.lane.current = none ∧ s.lane.fresh id then
      { s with lane := s.lane.accept ⟨id, .run⟩ }.started id
    else s
  | .runResume id => if s.lane.current = some ⟨id, .run⟩ then s.started id else s
  | .resumed id => if s.lane.current.any fun op => op.id = id then s.started id else s
  | .compactionAccepted id =>
    if s.reports.faulted = false ∧ s.lane.current = none ∧ s.lane.fresh id then
      { s with lane := s.lane.accept ⟨id, .compaction⟩ }
    else s
  | .compactionStart id => if s.lane.current.any fun op => op.id = id then s.started id else s
  | .compactionEnd id =>
    -- in a run it ends nothing else
    if s.lane.current = some ⟨id, .compaction⟩ then { s with lane := s.lane.end } else s
  | .runEnd e =>
    if s.lane.current = some ⟨e.runId, .run⟩ ∧ s.lane.reported then
      let settled := s.settled e
      { settled with lane := { s.lane.end with ended := s.lane.ended ++ [e.runId] } }
    else s
  | .storageFailed message => s.storageFailed message
  | .apply =>
    match s.reports.applying, s.reports.chain with
    | false, report :: rest =>
      { s with
        reports :=
          { s.reports with
            chain := rest, applied := s.reports.applied ++ [report], applying := true } }
    | _, _ => s
  | .applied => { s with reports := { s.reports with applying := false } }

/-! ## What holds -/

def State.handedIds (s : State) : List RunId := s.handed.map fun p => p.2.runId

structure Applied (s : State) : Prop where
  inOrder : s.reports.applied ++ s.reports.chain = s.handed.map Prod.snd
  once : s.handedIds.Nodup
  ended : ∀ id ∈ s.lane.ended, id ∈ s.handedIds

/-- A failed storage call settles only a run in progress. -/
def FaultsSettleRuns (s : State) : Prop :=
  ∀ p ∈ s.handed, p.2.source = .reins → p.1.current = some ⟨p.2.runId, .run⟩ ∧ p.2.runId ∉ p.1.ended

def RunMarked (s : State) : Event → Prop
  | .storageFailed _ => s.reports.faulted = true ∨
      ∀ op ∈ s.lane.operations, s.reports.openRun = some op.id → op.kind = .run
  | _ => True

structure Lane.Ok (l : Lane) : Prop where
  unique : (l.operations.map Operation.id).Nodup
  current : ∀ op ∈ l.current, op ∈ l.operations
  ended : ∀ id ∈ l.ended, ⟨id, .run⟩ ∈ l.operations ∧ l.current ≠ some ⟨id, .run⟩

structure Marked (s : State) : Prop where
  current : s.reports.faulted = false → s.lane.reported = true → ∀ op ∈ s.lane.current, s.reports.openRun = some op.id
  marker : ∀ id ∈ s.reports.openRun, s.reports.faulted = false →
    s.lane.current = some ⟨id, .run⟩ ∨ ⟨id, .compaction⟩ ∈ s.lane.operations
  handed : ∀ id ∈ s.handedIds, id ∈ s.lane.ended ∨ s.reports.faulted = true
  fault : s.reports.faulted = true → s.lane.reported = true → ∀ id, s.lane.current = some ⟨id, .run⟩ → id ∈ s.handedIds

structure Inv (s : State) : Prop where
  applied : Applied s
  lane : s.lane.Ok
  marked : Marked s

section

variable {s : State} {id : RunId} {op : Operation} {l : Lane}

/-! ### The lane -/

theorem Lane.Ok.kind (h : l.Ok) {op op' : Operation} (hop : op ∈ l.operations)
    (hop' : op' ∈ l.operations) (hid : op.id = op'.id) : op = op' :=
  inj_on_of_nodup_map h.unique hop hop' hid

theorem Lane.Ok.accept (h : l.Ok) (hfresh : l.fresh op.id = true) : (l.accept op).Ok := by
  have hnew : ∀ op' ∈ l.operations, op'.id ≠ op.id := by
    simpa [Lane.fresh] using hfresh
  constructor
  · show ((l.operations ++ [op]).map Operation.id).Nodup
    rw [map_append, nodup_append]
    refine ⟨h.unique, nodup_singleton _, ?_⟩
    intro a ha b hb heq
    obtain ⟨op', hop', rfl⟩ := mem_map.mp ha
    obtain rfl := mem_singleton.mp hb
    exact hnew op' hop' heq
  · intro op' hop'
    cases hop'
    exact mem_append_right _ (mem_singleton_self op)
  · intro id hid
    obtain ⟨hmem, -⟩ := h.ended id hid
    refine ⟨mem_append_left _ hmem, fun heq => ?_⟩
    cases heq
    exact hnew _ hmem rfl

theorem Lane.Ok.finish (h : l.Ok) : l.end.Ok :=
  ⟨h.unique, fun _ hop => absurd hop (by simp [Lane.end]), fun id hid => ⟨(h.ended id hid).1, by simp [Lane.end]⟩⟩

theorem Lane.Ok.finishRun (h : l.Ok) (hcur : l.current = some ⟨id, .run⟩) :
    ({ l.end with ended := l.ended ++ [id] } : Lane).Ok := by
  refine ⟨h.unique, h.finish.current, ?_⟩
  intro id' hid'
  refine ⟨?_, by simp [Lane.end]⟩
  rcases mem_append.mp hid' with hid' | hid'
  · exact (h.ended id' hid').1
  · obtain rfl := mem_singleton.mp hid'
    exact h.current _ hcur

/-! ### Starts -/

theorem Inv.started (h : Inv s) (hcur : ∃ op ∈ s.lane.current, op.id = id) : Inv (s.started id) := by
  obtain ⟨op, hop, rfl⟩ := hcur
  unfold State.started
  by_cases hf : s.reports.faulted = true
  · rw [if_pos hf]
    exact h
  rw [if_neg hf]
  refine ⟨⟨h.applied.inOrder, h.applied.once, h.applied.ended⟩, ⟨h.lane.unique, h.lane.current,
    h.lane.ended⟩, ?_, ?_, h.marked.handed, fun hf' => absurd hf' hf⟩
  · intro _ _ op' hop'
    cases hop.symm.trans hop'
    rfl
  intro id hid _
  cases hid
  cases hkind : op.kind with
  | run =>
    refine Or.inl (Eq.trans hop ?_)
    rw [← hkind]
  | compaction =>
    refine Or.inr ?_
    rw [← hkind]
    exact h.lane.current op hop

theorem Inv.accept (h : Inv s) (hcur : s.lane.current = none) (hfresh : s.lane.fresh op.id = true) :
    Inv { s with lane := s.lane.accept op } := by
  refine ⟨⟨h.applied.inOrder, h.applied.once, h.applied.ended⟩, h.lane.accept hfresh, ?_, ?_, h.marked.handed, ?_⟩
  · intro _ hrep
    exact absurd hrep (by simp [Lane.accept])
  · intro id hid hf
    rcases h.marked.marker id hid hf with hrun | hcomp
    · cases hcur.symm.trans hrun
    · exact Or.inr (mem_append_left _ hcomp)
  · intro _ hrep
    exact absurd hrep (by simp [Lane.accept])

theorem Inv.compactionEnd (h : Inv s) (hcur : s.lane.current = some ⟨id, .compaction⟩) :
    Inv { s with lane := s.lane.end } := by
  refine ⟨⟨h.applied.inOrder, h.applied.once, h.applied.ended⟩, h.lane.finish, ?_, ?_, h.marked.handed, ?_⟩
  · intro _ _ op hop
    exact absurd hop (by simp [Lane.end])
  · intro id' hid' hf
    rcases h.marked.marker id' hid' hf with hrun | hcomp
    · cases hcur.symm.trans hrun
    · exact Or.inr hcomp
  · intro _ _ id' hrun
    exact absurd hrun (by simp [Lane.end])

/-- Once a storage call failed, the marker says nothing more. -/
theorem Marked.of_faulted (hf : s.reports.faulted = true)
    (hfault : s.lane.reported = true → ∀ id, s.lane.current = some ⟨id, .run⟩ → id ∈ s.handedIds) :
    Marked s := by
  have hno : ¬ s.reports.faulted = false := by
    rw [hf]
    exact Bool.noConfusion
  exact ⟨fun hf' => absurd hf' hno, fun _ _ hf' => absurd hf' hno, fun _ _ => Or.inr hf, fun _ => hfault⟩

/-! ### Ends -/

@[simp] theorem settle_handedIds (s : State) (report : SessionSettled) :
    (s.settle report).handedIds = s.handedIds ++ [report.runId] := by
  simp [State.settle, State.handedIds]

theorem settle_inOrder {report : SessionSettled} (h : s.reports.applied ++ s.reports.chain = s.handed.map Prod.snd) :
    (s.settle report).reports.applied ++ (s.settle report).reports.chain = (s.settle report).handed.map Prod.snd := by
  show s.reports.applied ++ (s.reports.chain ++ [report]) = (s.handed ++ [(s.lane, report)]).map Prod.snd
  rw [← append_assoc, h, map_append]
  rfl

theorem nodup_handed {ids : List RunId} (h : ids.Nodup) (hid : id ∉ ids) : (ids ++ [id]).Nodup := by
  rw [nodup_append]
  refine ⟨h, nodup_singleton id, ?_⟩
  intro a ha b hb heq
  obtain rfl := mem_singleton.mp hb
  exact hid (heq ▸ ha)

theorem Inv.runEnd (h : Inv s) {e : RunEnd} (hcur : s.lane.current = some ⟨e.runId, .run⟩)
    (hrep : s.lane.reported = true) : Inv (step s (.runEnd e)) := by
  show Inv (if _ then _ else _)
  rw [if_pos ⟨hcur, hrep⟩]
  have hlane := h.lane.finishRun hcur
  by_cases hf : s.reports.faulted = true
  · simp only [State.settled, if_pos hf]
    have hhanded := h.marked.fault hf hrep e.runId hcur
    refine ⟨⟨h.applied.inOrder, h.applied.once, ?_⟩, hlane, .of_faulted hf ?_⟩
    · intro id hid
      rcases mem_append.mp hid with hid | hid
      · exact h.applied.ended id hid
      · exact mem_singleton.mp hid ▸ hhanded
    · intro _ id hid
      exact absurd hid (by simp [Lane.end])
  · simp only [State.settled, if_neg hf]
    -- nothing was settled of it: what is handed over has ended
    have hnew : e.runId ∉ s.handedIds := by
      intro hmem
      rcases h.marked.handed _ hmem with hended | hf'
      · exact (h.lane.ended _ hended).2 hcur
      · exact hf hf'
    refine ⟨⟨settle_inOrder h.applied.inOrder, ?_, ?_⟩, hlane, ?_, ?_, ?_, fun hf' => absurd hf' hf⟩
    · show (State.handedIds (State.settle _ _)).Nodup
      rw [settle_handedIds]
      exact nodup_handed h.applied.once hnew
    · intro id hid
      show id ∈ State.handedIds (State.settle _ _)
      rw [settle_handedIds, mem_append]
      rcases mem_append.mp hid with hid | hid
      · exact Or.inl (h.applied.ended id hid)
      · exact Or.inr hid
    · intro _ _ op hop
      exact absurd hop (by simp [Lane.end])
    · exact nofun
    · intro id hid
      change id ∈ State.handedIds (State.settle _ _) at hid
      rw [settle_handedIds, mem_append] at hid
      refine Or.inl (mem_append.mpr ?_)
      rcases hid with hid | hid
      · exact Or.inl ((h.marked.handed id hid).resolve_right hf)
      · exact Or.inr hid

theorem Inv.storageFailed (h : Inv s) (message : String) : Inv (s.storageFailed message) := by
  unfold State.storageFailed
  by_cases hf : s.reports.faulted = true
  · rw [if_pos hf]
    exact h
  rw [if_neg hf]
  have hff : s.reports.faulted = false := by simpa using hf
  cases hopen : s.reports.openRun with
  | none =>
    simp only [hopen]
    refine ⟨⟨h.applied.inOrder, h.applied.once, h.applied.ended⟩, h.lane, .of_faulted rfl ?_⟩
    intro hrep id hid
    have hmark := h.marked.current hff hrep _ hid
    cases hopen.symm.trans hmark
  | some id =>
    simp only [hopen]
    have hnew : id ∉ s.handedIds := by
      intro hmem
      have hended := (h.marked.handed id hmem).resolve_right hf
      obtain ⟨hrun, hnot⟩ := h.lane.ended id hended
      rcases h.marked.marker id hopen hff with hcur | hcomp
      · exact hnot hcur
      · have hsame := h.lane.kind hrun hcomp rfl
        cases hsame
    refine ⟨⟨settle_inOrder h.applied.inOrder, ?_, ?_⟩, h.lane, .of_faulted rfl ?_⟩
    · rw [settle_handedIds]
      exact nodup_handed h.applied.once hnew
    · intro id' hid'
      rw [settle_handedIds]
      exact mem_append_left _ (h.applied.ended id' hid')
    · intro hrep id' hid'
      have hmark := h.marked.current hff hrep _ hid'
      rw [settle_handedIds, mem_append]
      cases hopen.symm.trans hmark
      exact Or.inr (mem_singleton_self _)

/-! ### Every run -/

theorem Inv.apply (h : Inv s) : Inv (step s .apply) := by
  show Inv (match s.reports.applying, s.reports.chain with
    | false, report :: rest => _
    | _, _ => s)
  split
  next report rest _ hchain =>
    refine ⟨⟨?_, h.applied.once, h.applied.ended⟩, h.lane, h.marked.current, h.marked.marker,
      h.marked.handed, h.marked.fault⟩
    rw [← h.applied.inOrder, hchain]
    exact append_assoc _ _ _
  · exact h

/-- **What one event keeps.** -/
theorem Inv.step (h : Inv s) (e : Event) : Inv (step s e) := by
  cases e with
  | runStart id =>
    show Inv (if _ then _ else _)
    split
    next hguard =>
      exact (h.accept hguard.2.1 hguard.2.2).started ⟨_, rfl, rfl⟩
    · exact h
  | runResume id =>
    show Inv (if _ then _ else _)
    split
    next hcur =>
      exact h.started ⟨_, hcur, rfl⟩
    · exact h
  | resumed id | compactionStart id =>
    show Inv (if _ then _ else _)
    split
    next hcur =>
      obtain ⟨op, hop, hid⟩ := Option.any_eq_true _ _ |>.mp hcur
      exact h.started ⟨op, hop, of_decide_eq_true hid⟩
    · exact h
  | compactionAccepted id =>
    show Inv (if _ then _ else _)
    split
    next hguard =>
      exact h.accept hguard.2.1 hguard.2.2
    · exact h
  | compactionEnd id =>
    show Inv (if _ then _ else _)
    split
    next hcur =>
      exact h.compactionEnd hcur
    · exact h
  | runEnd e =>
    by_cases hguard : s.lane.current = some ⟨e.runId, .run⟩ ∧ s.lane.reported = true
    · exact h.runEnd hguard.1 hguard.2
    show Inv (if _ then _ else _)
    rw [if_neg hguard]
    exact h
  | storageFailed message => exact h.storageFailed message
  | apply => exact h.apply
  | applied =>
    exact ⟨⟨h.applied.inOrder, h.applied.once, h.applied.ended⟩, h.lane, h.marked.current,
      h.marked.marker, h.marked.handed, h.marked.fault⟩

theorem Inv.init (sessionId : SessionId) (pending : Option Operation) : Inv (init sessionId pending) := by
  refine ⟨⟨rfl, nodup_nil, fun _ h => absurd h not_mem_nil⟩, ⟨?_, ?_, ?_⟩, ?_, ?_, ?_, ?_⟩
  · show (pending.toList.map Operation.id).Nodup
    cases pending with
    | none => exact nodup_nil
    | some op => exact nodup_singleton _
  · intro op hop
    exact Option.mem_toList.mpr hop
  · exact nofun
  · exact nofun
  · exact nofun
  · exact nofun
  · exact nofun

theorem FaultsSettleRuns.append {s' : State} (more : List (Lane × SessionSettled)) (hs : s'.handed = s.handed ++ more) :
    FaultsSettleRuns s' ↔ FaultsSettleRuns s ∧ ∀ p ∈ more, p.2.source = .reins →
      p.1.current = some ⟨p.2.runId, .run⟩ ∧ p.2.runId ∉ p.1.ended := by
  unfold FaultsSettleRuns
  rw [hs]
  exact forall_mem_append

/-- Only a failed storage call settles on Reins' own account. -/
theorem handed_pi {e : Event} (he : ∀ message, e ≠ .storageFailed message) :
    ∃ more, (step s e).handed = s.handed ++ more ∧ ∀ p ∈ more, p.2.source = .pi := by
  have hstarted : ∀ (s : State) id, (s.started id).handed = s.handed := by
    intro s id
    unfold State.started
    split <;> rfl
  have hsame : (step s e).handed = s.handed →
      ∃ more, (step s e).handed = s.handed ++ more ∧ ∀ p ∈ more, p.2.source = .pi := by
    intro hs
    exact ⟨[], by rw [hs, append_nil], fun p hp => absurd hp not_mem_nil⟩
  cases e with
  | runStart id =>
    apply hsame
    show State.handed (if _ then _ else _) = _
    split
    · exact hstarted _ id
    · rfl
  | runResume id | resumed id | compactionStart id =>
    apply hsame
    show State.handed (if _ then _ else _) = _
    split
    · exact hstarted s id
    · rfl
  | compactionAccepted id | compactionEnd id =>
    apply hsame
    show State.handed (if _ then _ else _) = _
    split <;> rfl
  | runEnd e =>
    by_cases hguard : s.lane.current = some ⟨e.runId, .run⟩ ∧ s.lane.reported = true
    · by_cases hf : s.reports.faulted = true
      · apply hsame
        simp [step, if_pos hguard, State.settled, if_pos hf]
      refine ⟨[(s.lane, settledReport s.sessionId e)], ?_, ?_⟩
      · simp [step, if_pos hguard, State.settled, if_neg hf, State.settle]
      intro p hp
      obtain rfl := mem_singleton.mp hp
      rfl
    · apply hsame
      simp [step, if_neg hguard]
  | storageFailed message => exact absurd rfl (he message)
  | apply =>
    apply hsame
    show State.handed (match s.reports.applying, s.reports.chain with
      | false, report :: rest => _
      | _, _ => s) = _
    split <;> rfl
  | applied => exact hsame rfl

/-- **A failed storage call settles a run in progress exactly where the marker is on one.** -/
theorem storageFailed_iff (h : Inv s) (message : String) : FaultsSettleRuns (s.storageFailed message) ↔
      FaultsSettleRuns s ∧ RunMarked s (.storageFailed message) := by
  unfold State.storageFailed
  by_cases hf : s.reports.faulted = true
  · rw [if_pos hf]
    exact ⟨fun hs => ⟨hs, Or.inl hf⟩, fun hs => hs.1⟩
  rw [if_neg hf]
  cases hopen : s.reports.openRun with
  | none =>
    simp only [hopen]
    refine ⟨fun hs => ⟨hs, Or.inr fun op _ hop => ?_⟩, fun hs => hs.1⟩
    cases hopen.symm.trans hop
  | some id =>
    simp only [hopen]
    rw [FaultsSettleRuns.append (s := s) [(s.lane, failedReport s.sessionId id message)] rfl, forall_mem_singleton]
    refine and_congr_right fun _ => ?_
    constructor
    · intro hrun
      refine Or.inr fun op hop hmark => ?_
      have hid : op.id = id := Option.some.inj (hmark.symm.trans hopen)
      obtain ⟨hcur, -⟩ := hrun rfl
      rw [h.lane.kind hop (h.lane.current _ hcur) hid]
    · intro hmarked _
      have hkinds := hmarked.resolve_left hf
      rcases h.marked.marker id hopen (by simpa using hf) with hcur | hcomp
      · exact ⟨hcur, fun hended => (h.lane.ended id hended).2 hcur⟩
      · have hkind := hkinds _ hcomp hopen
        cases hkind

theorem faultsSettleRuns_step (h : Inv s) (e : Event) :
    FaultsSettleRuns (step s e) ↔ FaultsSettleRuns s ∧ RunMarked s e := by
  by_cases he : ∃ message, e = .storageFailed message
  · obtain ⟨message, rfl⟩ := he
    exact storageFailed_iff h message
  obtain ⟨more, hmore, hpi⟩ := handed_pi (s := s) fun message hm => he ⟨message, hm⟩
  have hok : RunMarked s e := by
    cases e with
    | storageFailed message => exact absurd ⟨message, rfl⟩ he
    | _ => trivial
  rw [FaultsSettleRuns.append _ hmore]
  refine and_congr_right fun _ => ⟨fun _ => hok, fun _ p hp hreins => ?_⟩
  rw [hpi p hp] at hreins
  cases hreins

end

/-- **The reports of every run.** They are applied in order and settle each run that ended once, and a
failed storage call settles only a run in progress exactly where no such call finds the marker on a
compaction. -/
theorem reports_iff (sessionId : SessionId) (pending : Option Operation) (es : List Event) :
    (Applied (Run.exec step (init sessionId pending) es) ∧
      FaultsSettleRuns (Run.exec step (init sessionId pending) es)) ↔
      Run.Along step RunMarked (init sessionId pending) es := by
  have hinv := Run.exec_invariant Inv (fun _ e h => h.step e) (.init sessionId pending) es
  have hiff := Run.exec_iff_along_of Inv FaultsSettleRuns (fun _ e h => h.step e)
    (fun _ e h => faultsSettleRuns_step h e) (.init sessionId pending) es
  have hinit : FaultsSettleRuns (init sessionId pending) := fun p hp => absurd hp not_mem_nil
  exact ⟨fun h => (hiff.mp h.2).2, fun h => ⟨hinv.applied, hiff.mpr ⟨hinit, h⟩⟩⟩

theorem compaction_settled_failed : ¬ FaultsSettleRuns (Run.exec step (init "s" none)
      [.compactionAccepted "c", .compactionStart "c", .compactionEnd "c", .storageFailed "disk I/O error"]) := by
  intro h
  have hcur := (h _ mem_cons_self rfl).1
  cases hcur

end Reins.LifecycleReports
