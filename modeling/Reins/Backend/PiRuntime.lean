import Reins.Lib.Run
import Reins.Lib.Places

/-!
# A session's runtime (`backend/src/session-runtime/pi-runtime.ts`)

Its calls (`prompt`, `steer`, `resumePendingOperation`, `compact`) and its starts of queued steering run
between their awaits, and anything may come in between. What they ask of Pi's lane is answered in one
step (`Lane.serve`) and read in a later one (`Runtime.next`). A drive is in the table of active
operations until it ends, and the runtime is busy while the table has one.
-/

namespace Reins.PiRuntime

abbrev OperationId := String
abbrev ReinsId := String
abbrev EntryId := String
/-- A call's place in the runtime's calls. -/
abbrev CallId := Nat

/-! ## The lane -/

inductive OperationKind
  | run
  | compaction
  | navigation
  deriving DecidableEq

/-- An operation an interruption left pending, of the runtime's lane. -/
structure OpenOperation where
  operationId : OperationId
  kind : OperationKind
  deriving DecidableEq

/-- A `reinsInput`, as far as it is told from others. -/
structure Input where
  entryId : EntryId
  reinsId : ReinsId
  deriving DecidableEq

structure Lane where
  current : Option OperationId
  operations : List OperationId
  queue : List Input
  entries : List Input

inductive Request
  | watch
  | findEntries (limit : Option Nat)
  | inspectExecution
  | acceptPrompt (reinsId : ReinsId)
  /-- `accept` of no prompt but what is queued. -/
  | acceptQueued
  | acceptCompaction
  | steer (reinsId : ReinsId)

inductive AcceptError
  | laneBusy
  | invalidMessage
  | nothingToCompact
  deriving DecidableEq

inductive Answer
  | failed
  | queues (items : List Input)
  | entries (items : List Input)
  | execution (current : Option OperationId)
  | accepted (operationId : OperationId)
  | refused (error : AcceptError)
  | steered (entryId : EntryId)
  deriving DecidableEq

/-- What Pi decides as it answers: the ids it gives, how much of the queue an operation takes along, how
many of the newest inputs are among the newest entries, and whether there is anything to compact. -/
structure Pick where
  operationId : OperationId
  entryId : EntryId
  captured : Nat
  window : Nat
  compactable : Bool

def Lane.capture (l : Lane) (n : Nat) : Lane :=
  { l with queue := l.queue.drop n, entries := l.entries ++ l.queue.take n }

def Lane.begin (l : Lane) (op : OperationId) : Lane := { l with current := some op, operations := l.operations ++ [op] }

/-- The lane's answer; `none` where the operation id is not a new one. -/
def Lane.serve (l : Lane) (pick : Pick) : Request → Option (Lane × Answer)
  | .watch => some (l, .queues l.queue)
  | .findEntries none => some (l, .entries l.entries)
  | .findEntries (some _) => some (l, .entries (l.entries.drop (l.entries.length - pick.window)))
  | .inspectExecution => some (l, .execution l.current)
  | .steer reinsId => some ({ l with queue := l.queue ++ [⟨pick.entryId, reinsId⟩] }, .steered pick.entryId)
  | .acceptPrompt reinsId =>
    if l.current.isSome then some (l, .refused .laneBusy)
    else if pick.operationId ∈ l.operations then none
    else
      let l := (l.capture pick.captured).begin pick.operationId
      some ({ l with entries := l.entries ++ [⟨pick.entryId, reinsId⟩] }, .accepted pick.operationId)
  | .acceptQueued =>
    if l.current.isSome then some (l, .refused .laneBusy)
    else if l.queue = [] then some (l, .refused .invalidMessage)
    else if pick.operationId ∈ l.operations then none
    else some ((l.capture pick.captured).begin pick.operationId, .accepted pick.operationId)
  | .acceptCompaction =>
    if l.current.isSome then some (l, .refused .laneBusy)
    else if pick.compactable = false then some (l, .refused .nothingToCompact)
    else if pick.operationId ∈ l.operations then none
    else some (l.begin pick.operationId, .accepted pick.operationId)

/-! ## Calls -/

inductive Op
  | prompt
  | steer
  | resume
  | compact
  deriving DecidableEq

/-- `findAdmitted`'s answer. -/
structure Admitted where
  id : EntryId
  queued : Bool
  deriving DecidableEq

inductive Phase
  /-- `await this.expandPrompt(content)`. -/
  | expanding
  /-- For the admission of the same input that is in progress (`deduplicateAdmission`). -/
  | joined (leader : CallId)
  /-- `findAdmitted`: `lane.watch`, `lane.findEntries`, and its answer on the way back. -/
  | watching
  | finding
  | looked (found : Option Admitted)
  /-- A replay's `passivelyReopened`, and its answer on the way back. -/
  | replayInspecting
  | replayReopened (reopened : Option OpenOperation)
  | admitInspecting
  | admitReopened (reopened : Option OpenOperation)
  /-- `lane.accept`, and `lane.findEntries` for the entry, among the newest or among all. -/
  | accepting
  | confirming (op : OperationId) (whole : Bool)
  /-- `enqueueSteering`: `lane.steer`, `lane.inspectExecution`. -/
  | steering
  | steerInspecting
  /-- `resumePendingOperation`: `lane.inspectExecution`. -/
  | resuming
  /-- `compact`: `lane.accept`, and what a busy lane is asked before it refuses. -/
  | compacting
  | compactInspecting
  /-- The `finally` blocks it has still to run. -/
  | leaving
  | done
  deriving DecidableEq

structure Call where
  op : Op
  reinsId : ReinsId
  phase : Phase
  answer : Option Answer
  /-- The `trackAdmission`s it is in. -/
  frames : Nat
  registered : Bool
  deriving DecidableEq

def Call.rejects (call : Call) : Bool :=
  match call.phase with
  | .expanding | .joined _ | .watching | .finding | .replayInspecting | .admitInspecting | .accepting
  | .confirming .. | .steering | .steerInspecting | .resuming | .compacting | .compactInspecting => true
  | .looked _ | .replayReopened _ | .admitReopened _ | .leaving | .done => false

/-- What a waiting call asked the lane. -/
def Call.request (call : Call) : Option Request :=
  match call.phase with
  | .watching => some .watch
  | .finding => some (.findEntries none)
  | .replayInspecting | .admitInspecting | .steerInspecting | .resuming | .compactInspecting => some .inspectExecution
  | .accepting => some (.acceptPrompt call.reinsId)
  | .confirming _ whole => some (.findEntries (if whole then none else some 16))
  | .steering => some (.steer call.reinsId)
  | .compacting => some .acceptCompaction
  | _ => none

/-- A start of queued steering (`startQueuedSteeringWhenIdle`). -/
inductive IdleStart
  /-- `lane.waitForIdle`. -/
  | waiting
  | accepting (answer : Option Answer)
  /-- Its `finally`. -/
  | leaving
  deriving DecidableEq

/-- A drive in progress, refused where its operation was being driven already. -/
structure Drive where
  op : OperationId
  refused : Bool
  deriving DecidableEq

structure Runtime where
  openOperations : List OpenOperation
  activeOperations : List OperationId
  drives : List Drive
  pendingAdmissions : List CallId
  submissionAdmissions : List ((Op × ReinsId) × CallId)
  pendingIdleStarts : List IdleStart
  pendingEnds : Nat
  /-- `isBusy` as it was last reported. -/
  busy : Bool
  idleWaiters : Nat
  calls : List Call
  /-- What was reported started by `resumeInBackground`. -/
  started : List OperationId
  /-- Of each time it was reported idle, by the edge or to a waiter, whether a drive was running. -/
  idleReports : List Bool

def Runtime.init (openOperations : List OpenOperation) : Runtime :=
  { openOperations, activeOperations := [], drives := [], pendingAdmissions := [],
    submissionAdmissions := [], pendingIdleStarts := [], pendingEnds := 0, busy := false,
    idleWaiters := 0, calls := [], started := [], idleReports := [] }

def Runtime.isStreaming (r : Runtime) : Bool :=
  r.pendingAdmissions ≠ [] || r.pendingIdleStarts ≠ [] || r.activeOperations ≠ []

def Runtime.isBusy (r : Runtime) : Bool := r.isStreaming || r.pendingEnds ≠ 0

def Runtime.driving (r : Runtime) : Bool := r.drives.any fun d => !d.refused

def Runtime.reportIdle (r : Runtime) : Runtime := { r with idleReports := r.idleReports ++ [r.driving] }

def Runtime.noteBusy (r : Runtime) : Runtime :=
  if r.isBusy = r.busy then r
  else if r.isBusy then { r with busy := true }
  else { r with busy := false, idleWaiters := 0 }.reportIdle

def Runtime.whenIdle (r : Runtime) : Runtime :=
  if r.isBusy then { r with idleWaiters := r.idleWaiters + 1 } else r.reportIdle

/-- `driveInBackground`: a drive of an operation in the table is refused, and is set in its place. -/
def Runtime.driveInBackground (r : Runtime) (op : OperationId) : Runtime :=
  Runtime.noteBusy
    { r with
      drives := r.drives ++ [⟨op, op ∈ r.activeOperations⟩]
      activeOperations := if op ∈ r.activeOperations then r.activeOperations else r.activeOperations ++ [op] }

def Runtime.driveSettled (r : Runtime) (i : Nat) : Runtime :=
  match r.drives[i]? with
  | none => r
  | some d =>
    Runtime.noteBusy
      { r with
        drives := r.drives.eraseIdx i
        activeOperations := r.activeOperations.filter (· ≠ d.op) }

/-! ## What a call does next -/

/-- A drive that a call starts, by `resumeInBackground` or by `driveInBackground` alone. -/
inductive Start
  | resume (op : OperationId)
  | drive (op : OperationId)
  deriving DecidableEq

def Start.op : Start → OperationId
  | .resume op | .drive op => op

/-- What a call does up to its next await. -/
structure Act where
  phase : Phase
  /-- It registers its admission (`deduplicateAdmission`). -/
  register : Bool := false
  /-- It enters `trackAdmission`. -/
  enter : Bool := false
  start : Option Start := none
  /-- `startQueuedSteeringWhenIdle`. -/
  idleStart : Bool := false

/-- `passivelyReopened`, with what the lane answered. -/
def Runtime.passivelyReopened (r : Runtime) (current : Option OperationId) : Option OpenOperation :=
  r.openOperations.head?.filter fun o => current = some o.operationId ∧ o.operationId ∉ r.activeOperations

def Runtime.admission? (r : Runtime) (call : Call) : Option CallId :=
  (r.submissionAdmissions.find? fun e => e.1 = (call.op, call.reinsId)).map Prod.snd

def isInput (reinsId : ReinsId) (items : List Input) : Option Input := items.find? fun item => item.reinsId = reinsId

/-- `none` where it has to wait. -/
def Runtime.next (r : Runtime) (call : Call) : Option Act :=
  match call.phase, call.answer with
  | .leaving, _ | .done, _ => none
  -- whatever it awaits, a rejection runs its `finally` blocks only
  | _, some .failed => some { phase := .leaving }
  | .expanding, _ =>
    match r.admission? call with
    | some leader => some { phase := .joined leader }
    | none => some { phase := .watching, register := true }
  | .joined leader, _ => if (r.calls[leader]?).any fun l => l.phase = .done then some { phase := .leaving } else none
  | .watching, some (.queues items) =>
    match isInput call.reinsId items with
    | some item => some { phase := .looked (some ⟨item.entryId, true⟩) }
    | none => some { phase := .finding }
  | .finding, some (.entries items) =>
    some { phase := .looked ((isInput call.reinsId items).map fun item => ⟨item.entryId, false⟩) }
  | .looked found, _ =>
    match call.op, found with
    -- a queued input runs with its queue
    | .prompt, some ⟨_, true⟩ => some { phase := .leaving }
    | .prompt, some ⟨_, false⟩ =>
      if r.openOperations = [] then some { phase := .replayReopened none }
      else some { phase := .replayInspecting }
    | .prompt, none =>
      if r.openOperations = [] then some { phase := .admitReopened none, enter := true }
      else some { phase := .admitInspecting, enter := true }
    | _, some _ => some { phase := .leaving }
    | _, none => some { phase := .steering, enter := true }
  | .replayInspecting, some (.execution current) => some { phase := .replayReopened (r.passivelyReopened current) }
  | .replayReopened reopened, _ =>
    -- nothing is looked at again: what the answer found undriven is driven
    some
      { phase := .leaving
        start := (reopened.filter fun o => o.kind = .run).map fun o => .resume o.operationId }
  | .admitInspecting, some (.execution current) => some { phase := .admitReopened (r.passivelyReopened current) }
  | .admitReopened (some _), _ => some { phase := .steering, enter := true }
  | .admitReopened none, _ => some { phase := .accepting }
  | .accepting, some (.accepted op) => some { phase := .confirming op false }
  | .accepting, some (.refused _) => some { phase := .leaving }
  | .confirming op whole, some (.entries items) =>
    match isInput call.reinsId items, whole with
    -- the newest entries first, all of them only where it is not among those
    | some _, _ => some { phase := .leaving, start := some (.drive op) }
    | none, false => some { phase := .confirming op true }
    | none, true => some { phase := .leaving }
  | .steering, some (.steered _) => some { phase := .steerInspecting }
  | .steerInspecting, some (.execution current) =>
    some
      { phase := .leaving
        start := (current.filter (· ∉ r.activeOperations)).map .resume
        idleStart := true }
  | .resuming, some (.execution current) =>
    some
      { phase := .leaving
        start := (current.filter fun op =>
          op ∉ r.activeOperations ∧ r.openOperations.any fun o => o.operationId = op).map .resume }
  | .compacting, some (.accepted op) => some { phase := .leaving, start := some (.drive op) }
  | .compacting, some (.refused .laneBusy) =>
    if r.openOperations = [] then some { phase := .leaving } else some { phase := .compactInspecting }
  | .compacting, some (.refused _) => some { phase := .leaving }
  | .compactInspecting, some (.execution _) => some { phase := .leaving }
  | _, _ => none

def Runtime.setCall (r : Runtime) (i : CallId) (call : Call) : Runtime := { r with calls := r.calls.set i call }

def Runtime.resumeInBackground (r : Runtime) (op : OperationId) : Runtime :=
  { r with started := r.started ++ [op] }.driveInBackground op

def Runtime.start (r : Runtime) : Start → Runtime
  | .resume op => r.resumeInBackground op
  | .drive op => r.driveInBackground op

def Runtime.startIdle (r : Runtime) : Runtime :=
  Runtime.noteBusy { r with pendingIdleStarts := r.pendingIdleStarts ++ [.waiting] }

def Runtime.enterAdmission (r : Runtime) (i : CallId) : Runtime :=
  Runtime.noteBusy { r with pendingAdmissions := r.pendingAdmissions ++ [i] }

def Runtime.perform (r : Runtime) (i : CallId) (call : Call) (act : Act) : Runtime :=
  let r := r.setCall i
    { call with
      phase := act.phase
      answer := none
      frames := if act.enter then call.frames + 1 else call.frames
      registered := call.registered || act.register }
  let r := if act.register then
      { r with submissionAdmissions := r.submissionAdmissions ++ [((call.op, call.reinsId), i)] }
    else r
  let r := act.start.elim r r.start
  let r := if act.idleStart then r.startIdle else r
  if act.enter then r.enterAdmission i else r

/-- A `finally`: of the innermost `trackAdmission`, or of `deduplicateAdmission`. -/
def Runtime.leave (r : Runtime) (i : CallId) (call : Call) : Runtime :=
  match call.frames with
  | frames + 1 =>
    Runtime.noteBusy { r.setCall i { call with frames } with pendingAdmissions := r.pendingAdmissions.erase i }
  | 0 =>
    let r := r.setCall i { call with phase := .done, registered := false }
    if call.registered then
      { r with
        submissionAdmissions := r.submissionAdmissions.filter fun e => e.1 ≠ (call.op, call.reinsId) }
    else r

/-! ## Events -/

inductive Event
  | prompt (reinsId : ReinsId)
  | steer (reinsId : ReinsId)
  | resume
  | compact
  | serve (call : CallId) (pick : Pick)
  /-- What a call awaits rejects, whatever the lane did. -/
  | fail (call : CallId)
  | proceed (call : CallId)
  /-- The same of a start of queued steering; one that waits for the lane goes on once it is idle. -/
  | serveStart (start : Nat) (pick : Pick)
  | failStart (start : Nat)
  | proceedStart (start : Nat)
  | driveSettled (drive : Nat)
  | runEnd
  | endApplied
  | whenIdle
  /-- In the lane: a running operation takes queued inputs, the current one ends, an abort discards what
  is queued. -/
  | capture (n : Nat)
  | terminal
  | discard

structure State where
  lane : Lane
  runtime : Runtime

def Call.new (op : Op) (reinsId : ReinsId) (phase : Phase) (frames : Nat) : Call :=
  { op, reinsId, phase, answer := none, frames, registered := false }

def Runtime.call (r : Runtime) : Op → ReinsId → Runtime
  | .prompt, reinsId => { r with calls := r.calls ++ [.new .prompt reinsId .expanding 0] }
  | .steer, reinsId => { r with calls := r.calls ++ [.new .steer reinsId .expanding 0] }
  | .resume, _ => Runtime.enterAdmission { r with calls := r.calls ++ [.new .resume "" .resuming 1] } r.calls.length
  | .compact, _ =>
    if r.isBusy then r
    else
      Runtime.enterAdmission { r with calls := r.calls ++ [.new .compact "" .compacting 1] } r.calls.length

def State.serve (s : State) (i : CallId) (pick : Pick) : State :=
  match s.runtime.calls[i]? with
  | none => s
  | some call =>
    match call.answer, call.request.bind (s.lane.serve pick) with
    | none, some (lane, answer) => ⟨lane, s.runtime.setCall i { call with answer := some answer }⟩
    | _, _ => s

def Runtime.fail (r : Runtime) (i : CallId) : Runtime :=
  match r.calls[i]? with
  | none => r
  | some call => if call.rejects then r.setCall i { call with answer := some .failed } else r

def Runtime.proceed (r : Runtime) (i : CallId) : Runtime :=
  match r.calls[i]? with
  | none => r
  | some call =>
    if call.phase = .leaving then r.leave i call
    else (r.next call).elim r (r.perform i call)

def Runtime.setStart (r : Runtime) (i : Nat) (start : IdleStart) : Runtime :=
  { r with pendingIdleStarts := r.pendingIdleStarts.set i start }

def State.serveStart (s : State) (i : Nat) (pick : Pick) : State :=
  match s.runtime.pendingIdleStarts[i]?, s.lane.serve pick .acceptQueued with
  | some (.accepting none), some (lane, answer) => ⟨lane, s.runtime.setStart i (.accepting (some answer))⟩
  | _, _ => s

def Runtime.failStart (r : Runtime) (i : Nat) : Runtime :=
  match r.pendingIdleStarts[i]? with
  | some .waiting | some (.accepting _) => r.setStart i .leaving
  | _ => r

def Runtime.proceedStart (r : Runtime) (i : Nat) : Runtime :=
  match r.pendingIdleStarts[i]? with
  | some .waiting | some (.accepting (some (.refused .laneBusy))) => r.setStart i (.accepting none)
  | some (.accepting (some (.accepted op))) => (r.setStart i .leaving).driveInBackground op
  | some (.accepting (some _)) => r.setStart i .leaving
  | some .leaving => Runtime.noteBusy { r with pendingIdleStarts := r.pendingIdleStarts.eraseIdx i }
  | _ => r

def Runtime.setEnds (r : Runtime) (n : Nat) : Runtime := Runtime.noteBusy { r with pendingEnds := n }

def step (s : State) : Event → State
  | .prompt reinsId => { s with runtime := s.runtime.call .prompt reinsId }
  | .steer reinsId => { s with runtime := s.runtime.call .steer reinsId }
  | .resume => { s with runtime := s.runtime.call .resume "" }
  | .compact => { s with runtime := s.runtime.call .compact "" }
  | .serve i pick => s.serve i pick
  | .fail i => { s with runtime := s.runtime.fail i }
  | .proceed i => { s with runtime := s.runtime.proceed i }
  | .serveStart i pick => s.serveStart i pick
  | .failStart i => { s with runtime := s.runtime.failStart i }
  | .proceedStart i => { s with runtime := s.runtime.proceedStart i }
  | .driveSettled i => { s with runtime := s.runtime.driveSettled i }
  | .runEnd => { s with runtime := s.runtime.setEnds (s.runtime.pendingEnds + 1) }
  | .endApplied => { s with runtime := s.runtime.setEnds (s.runtime.pendingEnds - 1) }
  | .whenIdle => { s with runtime := s.runtime.whenIdle }
  | .capture n => { s with lane := s.lane.capture n }
  | .terminal => { s with lane := { s.lane with current := none } }
  | .discard => { s with lane := { s.lane with queue := [] } }

/-! ## Drives -/

def Runtime.toDrive (r : Runtime) : Event → Option OperationId
  | .proceed i => ((r.calls[i]?.bind r.next).bind Act.start).map Start.op
  | .proceedStart i =>
    match r.pendingIdleStarts[i]? with
    | some (.accepting (some (.accepted op))) => some op
    | _ => none
  | _ => none

def DrivesAnew (s : State) (e : Event) : Prop := ∀ op ∈ s.runtime.toDrive e, op ∉ s.runtime.activeOperations

instance (s : State) (e : Event) : Decidable (DrivesAnew s e) :=
  inferInstanceAs (Decidable (∀ op ∈ s.runtime.toDrive e, op ∉ s.runtime.activeOperations))

structure OneDrive (r : Runtime) : Prop where
  once : ((r.drives.filter fun d => !d.refused).map Drive.op).Nodup
  table : ∀ op, op ∈ r.activeOperations ↔ ∃ d ∈ r.drives, d.refused = false ∧ d.op = op
  busy : r.driving = true → r.isStreaming = true ∧ r.isBusy = true
  reports : ∀ driving ∈ r.idleReports, driving = false

structure Table (r : Runtime) : Prop where
  unrefused : ∀ d ∈ r.drives, d.refused = false
  table : r.activeOperations = r.drives.map Drive.op
  once : (r.drives.map Drive.op).Nodup
  reports : ∀ driving ∈ r.idleReports, driving = false

section

variable {r r' : Runtime} {s : State} {op : OperationId} {i : Nat}

theorem Table.same (h : Table r) (hdrives : r'.drives = r.drives)
    (hactive : r'.activeOperations = r.activeOperations) (hreports : r'.idleReports = r.idleReports) :
    Table r' := by
  constructor
  · rw [hdrives]
    exact h.unrefused
  · rw [hdrives, hactive]
    exact h.table
  · rw [hdrives]
    exact h.once
  · rw [hreports]
    exact h.reports

theorem streaming_of_active (h : r.activeOperations ≠ []) : r.isStreaming = true := by
  rw [Runtime.isStreaming, decide_eq_true h, Bool.or_true]

theorem busy_of_streaming (h : r.isStreaming = true) : r.isBusy = true := by
  rw [Runtime.isBusy, h, Bool.true_or]

theorem Table.streaming (h : Table r) (hdriving : r.driving = true) : r.isStreaming = true := by
  obtain ⟨d, hd, -⟩ := List.any_eq_true.mp hdriving
  apply streaming_of_active
  rw [h.table]
  exact List.ne_nil_of_mem (List.mem_map_of_mem hd)

theorem Table.driving (h : Table r) (hbusy : r.isBusy = false) : r.driving = false := by
  by_contra hdriving
  have hon := busy_of_streaming (h.streaming (by simpa using hdriving))
  cases hbusy.symm.trans hon

theorem Table.reportIdle (h : Table r) (hbusy : r.isBusy = false) : Table r.reportIdle := by
  refine { h with reports := ?_ }
  intro driving hdriving
  rcases Places.mem_concat_cases hdriving with hold | rfl
  · exact h.reports driving hold
  · exact h.driving hbusy

theorem Table.noteBusy (h : Table r) : Table r.noteBusy := by
  unfold Runtime.noteBusy
  split
  · exact h
  split
  · exact h.same rfl rfl rfl
  rename_i hbusy
  have hidle : Table { r with busy := false, idleWaiters := 0 } := h.same rfl rfl rfl
  apply hidle.reportIdle
  exact Bool.eq_false_iff.mpr hbusy

theorem Table.driveInBackground (h : Table r) (hnew : op ∉ r.activeOperations) : Table (r.driveInBackground op) := by
  unfold Runtime.driveInBackground
  apply Table.noteBusy
  rw [if_neg hnew]
  constructor
  · intro d hd
    rcases Places.mem_concat_cases hd with hd | rfl
    · exact h.unrefused d hd
    · exact decide_eq_false hnew
  · show r.activeOperations ++ [op] = List.map Drive.op (r.drives ++ _)
    rw [List.map_append, h.table]
    rfl
  · show (List.map Drive.op (r.drives ++ _)).Nodup
    rw [List.map_append, List.nodup_append]
    refine ⟨h.once, List.nodup_singleton _, ?_⟩
    intro a ha b hb heq
    obtain rfl : b = op := List.mem_singleton.mp hb
    rw [← h.table, heq] at ha
    exact hnew ha
  · exact h.reports

theorem Table.driveSettled (h : Table r) (i : Nat) : Table (r.driveSettled i) := by
  unfold Runtime.driveSettled
  cases hd : r.drives[i]? with
  | none => exact h
  | some d =>
    apply Table.noteBusy
    obtain ⟨hi, rfl⟩ := List.getElem?_eq_some_iff.mp hd
    -- each operation is in the table once, so leaving its name out leaves out this drive alone
    have hops : (r.drives.eraseIdx i).map Drive.op = (r.drives.map Drive.op).filter (· ≠ r.drives[i].op) := by
      have hlen : i < (r.drives.map Drive.op).length := by
        rw [List.length_map]
        exact hi
      rw [← List.eraseIdx_map, ← h.once.erase_getElem i hlen, List.getElem_map, h.once.erase_eq_filter]
      apply List.filter_congr
      intro op _
      simp [bne, beq_eq_decide]
    constructor
    · intro d hd
      exact h.unrefused d (List.mem_of_mem_eraseIdx hd)
    · show r.activeOperations.filter (· ≠ r.drives[i].op) = (r.drives.eraseIdx i).map Drive.op
      rw [hops, h.table]
    · show ((r.drives.eraseIdx i).map Drive.op).Nodup
      rw [hops]
      exact h.once.filter _
    · exact h.reports

/-! ### Steps -/

theorem Table.start (h : Table r) {start : Start} (hnew : start.op ∉ r.activeOperations) : Table (r.start start) := by
  cases start with
  | resume op =>
    have hreported : Table { r with started := r.started ++ [op] } := h.same rfl rfl rfl
    exact hreported.driveInBackground hnew
  | drive op => exact h.driveInBackground hnew

theorem Table.enterAdmission (h : Table r) (i : CallId) : Table (r.enterAdmission i) :=
  Table.noteBusy (h.same rfl rfl rfl)

theorem Table.perform (h : Table r) {call : Call} {act : Act}
    (hnew : ∀ start ∈ act.start, start.op ∉ r.activeOperations) : Table (r.perform i call act) := by
  unfold Runtime.perform
  -- the start is all that can touch the table: the rest is around it
  have hregister : ∀ r' : Runtime, Table r' → r'.activeOperations = r.activeOperations →
      Table (act.start.elim r' r'.start) := by
    intro r' h' hactive
    cases hstart : act.start with
    | none => exact h'
    | some start =>
      apply h'.start
      rw [hactive]
      exact hnew start hstart
  have hidle : ∀ r' : Runtime, Table r' → Table (if act.idleStart then r'.startIdle else r') := by
    intro r' h'
    split
    · exact Table.noteBusy (h'.same rfl rfl rfl)
    · exact h'
  have henter : ∀ r' : Runtime, Table r' → Table (if act.enter then r'.enterAdmission i else r') := by
    intro r' h'
    split
    · exact h'.enterAdmission i
    · exact h'
  apply henter
  apply hidle
  split
  · exact hregister _ (h.same rfl rfl rfl) rfl
  · exact hregister _ (h.same rfl rfl rfl) rfl

theorem Table.leave (h : Table r) (i : CallId) (call : Call) : Table (r.leave i call) := by
  unfold Runtime.leave
  split
  · exact Table.noteBusy (h.same rfl rfl rfl)
  split
  · exact h.same rfl rfl rfl
  · exact h.same rfl rfl rfl

theorem Table.proceed (h : Table r) (hnew : ∀ op ∈ r.toDrive (.proceed i), op ∉ r.activeOperations) :
    Table (r.proceed i) := by
  unfold Runtime.proceed
  split
  · exact h
  rename_i call hcall
  split
  · exact h.leave i call
  cases hnext : r.next call with
  | none => exact h
  | some act =>
    apply h.perform
    intro start hstart
    apply hnew start.op
    rw [Runtime.toDrive, hcall, Option.bind_some, hnext, Option.bind_some, hstart]
    rfl

theorem Table.proceedStart (h : Table r) (hnew : ∀ op ∈ r.toDrive (.proceedStart i), op ∉ r.activeOperations) :
    Table (r.proceedStart i) := by
  unfold Runtime.proceedStart
  split
  · exact h.same rfl rfl rfl
  · exact h.same rfl rfl rfl
  next op hstart =>
    have hleft : Table (r.setStart i .leaving) := h.same rfl rfl rfl
    apply hleft.driveInBackground
    apply hnew op
    rw [Runtime.toDrive, hstart]
    rfl
  · exact h.same rfl rfl rfl
  · exact Table.noteBusy (h.same rfl rfl rfl)
  · exact h

theorem Table.addCall (h : Table r) (call : Call) : Table { r with calls := r.calls ++ [call] } := h.same rfl rfl rfl

theorem Table.call (h : Table r) (op : Op) (reinsId : ReinsId) : Table (r.call op reinsId) := by
  cases op with
  | prompt | steer => exact h.addCall _
  | resume => exact (h.addCall _).enterAdmission _
  | compact =>
    show Table (if _ then _ else _)
    split
    · exact h
    · exact (h.addCall _).enterAdmission _

/-- **What one step keeps**, that starts no drive of an operation in the table. -/
theorem Table.step (h : Table s.runtime) {e : Event} (hnew : DrivesAnew s e) : Table (step s e).runtime := by
  cases e with
  | prompt reinsId => exact h.call .prompt reinsId
  | steer reinsId => exact h.call .steer reinsId
  | resume => exact h.call .resume ""
  | compact => exact h.call .compact ""
  | serve i pick =>
    show Table (s.serve i pick).runtime
    unfold State.serve
    split
    · exact h
    split
    · exact h.same rfl rfl rfl
    · exact h
  | fail i =>
    show Table (s.runtime.fail i)
    unfold Runtime.fail
    split
    · exact h
    split
    · exact h.same rfl rfl rfl
    · exact h
  | proceed i => exact h.proceed hnew
  | serveStart i pick =>
    show Table (s.serveStart i pick).runtime
    unfold State.serveStart
    split
    · exact h.same rfl rfl rfl
    · exact h
  | failStart i =>
    show Table (s.runtime.failStart i)
    unfold Runtime.failStart
    split
    · exact h.same rfl rfl rfl
    · exact h.same rfl rfl rfl
    · exact h
  | proceedStart i => exact h.proceedStart hnew
  | driveSettled i => exact h.driveSettled i
  | runEnd | endApplied => exact Table.noteBusy (h.same rfl rfl rfl)
  | whenIdle =>
    show Table s.runtime.whenIdle
    unfold Runtime.whenIdle
    split
    · exact h.same rfl rfl rfl
    next hbusy =>
      exact h.reportIdle (Bool.eq_false_iff.mpr hbusy)
  | capture | terminal | discard => exact h

theorem Table.init (openOperations : List OpenOperation) : Table (.init openOperations) :=
  ⟨fun _ hd => absurd hd List.not_mem_nil, rfl, List.nodup_nil, fun _ hd => absurd hd List.not_mem_nil⟩

theorem Table.oneDrive (h : Table r) : OneDrive r := by
  have hall : r.drives.filter (fun d => !d.refused) = r.drives := by
    apply List.filter_eq_self.mpr
    intro d hd
    rw [h.unrefused d hd]
    rfl
  constructor
  · rw [hall]
    exact h.once
  · intro op
    rw [h.table, List.mem_map]
    exact ⟨fun ⟨d, hd, ho⟩ => ⟨d, hd, h.unrefused d hd, ho⟩, fun ⟨d, hd, _, ho⟩ => ⟨d, hd, ho⟩⟩
  · intro hdriving
    exact ⟨h.streaming hdriving, busy_of_streaming (h.streaming hdriving)⟩
  · exact h.reports

end

/-- **In a run that starts no drive of an operation in the table**, at most one drive of an operation is
running, the table has the operations being driven, and the runtime is never idle meanwhile. -/
theorem oneDrive_run (lane : Lane) (openOperations : List OpenOperation) (es : List Event)
    (hes : Run.Along step DrivesAnew ⟨lane, .init openOperations⟩ es) :
    OneDrive (Run.exec step ⟨lane, .init openOperations⟩ es).runtime :=
  Table.oneDrive (hes.invariant (fun s => Table s.runtime) (fun _ _ hnew h => h.step hnew) (Table.init openOperations))

def interrupted : State := ⟨⟨some "op", ["op"], [], [⟨"entry", "input"⟩]⟩, .init [⟨"op", .run⟩]⟩

def noPick : Pick := ⟨"", "", 0, 0, false⟩

def replayUpTo : List Event :=
  [.prompt "input", .proceed 0, .serve 0 noPick, .proceed 0, .serve 0 noPick, .proceed 0, .proceed 0]

theorem oneDrive_run_interrupted : Run.Along step DrivesAnew interrupted
        (replayUpTo ++ [.serve 0 noPick, .proceed 0, .proceed 0, .resume, .serve 1 noPick, .proceed 1,
          .driveSettled 0]) ∧
      OneDrive (Run.exec step interrupted
        (replayUpTo ++ [.serve 0 noPick, .proceed 0, .proceed 0, .resume, .serve 1 noPick, .proceed 1,
          .driveSettled 0])).runtime :=
  ⟨by decide, oneDrive_run _ _ _ (by decide)⟩

/-- The replay's `passivelyReopened` found nothing driving the operation, and before it is back a resume
drives it: the replay's own drive is refused and takes the operation out of the table, and the runtime
reports itself idle. -/
theorem replay_and_resume_drive_twice : ¬ OneDrive (Run.exec step interrupted
      (replayUpTo ++ [.resume, .serve 0 noPick, .serve 1 noPick, .proceed 0, .proceed 1, .proceed 0,
        .driveSettled 1, .proceed 0, .proceed 1])).runtime := by
  intro h
  have hdriving := (h.table "op").mpr ⟨⟨"op", false⟩, by decide, rfl, rfl⟩
  revert hdriving
  decide

end Reins.PiRuntime
