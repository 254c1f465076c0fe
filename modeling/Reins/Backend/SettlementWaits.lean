import Reins.Backend.LifecycleReports

/-!
# Waits for a session's last run (`backend/src/sessions/session-runs.ts`)

One session's runs, from nothing: Pi's operation in progress and its results, which an exit leaves; what
drives the operation and which ends are being applied, which an exit takes away; and Reins' record of the end it
applied last. A run ends in Pi, by its commit, or is given up by Reins, which leaves it in progress in Pi. A
wait looks at any time.
-/

namespace Reins.SettlementWaits

open Run List
open LifecycleReports (Status Source OperationError)

abbrev OperationId := Nat
abbrev ClientId := String

structure RunSettlement where
  status : Status
  error : Option OperationError
  deriving DecidableEq

structure LatestSettlement where
  operationId : OperationId
  source : Source
  outcome : RunSettlement
  deriving DecidableEq

inductive ResultStatus
  | completed
  | failed
  | aborted
  | declined
  deriving DecidableEq

structure OperationResult where
  operationId : OperationId
  status : ResultStatus
  error : Option OperationError
  deriving DecidableEq

/-- Which of the records a wait answers with. -/
inductive Given
  | applied (settlement : LatestSettlement)
  | newest (result : OperationResult)
  deriving DecidableEq

def ResultStatus.run : ResultStatus → Status
  | .completed => .completed
  | .failed => .failed
  | .aborted | .declined => .aborted

def Given.outcome : Given → RunSettlement
  | .applied settlement => settlement.outcome
  | .newest result => ⟨result.status.run, result.error⟩

def lastRunOutcome (applied : Option LatestSettlement) (newest : Option OperationResult)
    (pending : Option OperationId) : Option Given :=
  match newest, applied with
  | none, _ => applied.map .applied
  | some newest, some a =>
    if a.operationId = newest.operationId ∨ some a.operationId = pending then some (.applied a)
    else some (.newest newest)
  | some newest, none => some (.newest newest)

structure FinalReply where
  text : Option String
  stopReason : Option String
  errorMessage : Option String
  deriving DecidableEq

inductive WaitStatus
  | completed
  | failed
  | cancelled
  | idle
  deriving DecidableEq

structure SessionWaitResult where
  status : WaitStatus
  result : Option String
  error : Option String
  deriving DecidableEq

/-- With no outcome, the reply alone says how it ended. -/
def replied : Option FinalReply → SessionWaitResult
  | none => ⟨.idle, none, none⟩
  | some last =>
    if last.stopReason = some "aborted" then ⟨.cancelled, last.text, none⟩
    else if last.stopReason = some "error" then
      ⟨.failed, last.text, some (last.errorMessage.getD "Runtime response failed")⟩
    else ⟨.completed, last.text, none⟩

def replyResult (last : Option FinalReply) : Option RunSettlement → SessionWaitResult
  | some ⟨.failed, error⟩ => ⟨.failed, none, some ((error.map (·.message)).getD "Runtime response failed")⟩
  | some ⟨.aborted, error⟩ => ⟨.cancelled, none, error.map (·.message)⟩
  | some ⟨.completed, _⟩ => ⟨.completed, last.bind (·.text), none⟩
  | none => replied last

structure End where
  settlement : LatestSettlement
  result : Option OperationResult
  deriving DecidableEq

structure State where
  pending : Option OperationId
  nextId : OperationId
  queued : List ClientId
  results : List OperationResult
  /-- The row's `settlement_json`. -/
  applied : Option LatestSettlement
  live : Bool
  opening : Bool
  /-- A runtime drives the operation in progress. -/
  driven : Bool
  submissions : Nat
  /-- The run ends that the live runtime waits for. -/
  pendingEnds : List LatestSettlement
  settling : List LatestSettlement
  ends : List End
  deriving DecidableEq

def State.init : State :=
  { pending := none, nextId := 0, queued := [], results := [], applied := none, live := false, opening := false
    driven := false, submissions := 0, pendingEnds := [], settling := [], ends := [] }

inductive Event
  | submit
  | submitted
  | opening
  | opened (live : Bool)
  | start
  | enqueue (clientId : ClientId)
  | take (clientId : ClientId)
  /-- Pi commits the run's end; it is settled with an outcome of the runtime's where it could not prepare. -/
  | runEnds (status : ResultStatus) (error : Option OperationError) (settled : RunSettlement)
  /-- A storage call fails under the runtime, which settles the run it has reported started. -/
  | fault (settled : Option RunSettlement)
  | giveUp (settled : RunSettlement)
  | resume
  /-- The live runtime is taken out, to be closed; its run is suspended, or aborted later. -/
  | close (suspend : Bool)
  /-- The first of the runtime's ends, or another settlement, is applied or lost. -/
  | applyEnd
  | loseEnd
  | apply (i : Nat)
  | lose (i : Nat)
  | exit
  | wait (inputs : List ClientId) (reply : Option FinalReply)
  deriving DecidableEq

section

variable (s : State)

def State.isBusy : Bool :=
  s.submissions ≠ 0 || s.live && (s.driven || s.pendingEnds ≠ []) || s.opening && s.pending.isSome

def State.atRest (inputs : List ClientId) : Bool := !s.isBusy && inputs.all fun input => input ∉ s.queued

def State.lastRun : Option Given := lastRunOutcome s.applied s.results.getLast? s.pending

/-- What a wait resolves with, where it does not look again. -/
def State.waitForSettlement (inputs : List ClientId) (reply : Option FinalReply) : Option SessionWaitResult :=
  if s.atRest inputs then some (replyResult reply (s.lastRun.map (·.outcome))) else none

def State.runEnds (id : OperationId) (status : ResultStatus) (error : Option OperationError)
    (settled : RunSettlement) : State :=
  let settlement : LatestSettlement := ⟨id, .pi, settled⟩
  { s with
    pending := none, driven := false, results := s.results ++ [⟨id, status, error⟩]
    pendingEnds := if s.live then s.pendingEnds ++ [settlement] else s.pendingEnds
    settling := if s.live then s.settling else s.settling ++ [settlement]
    ends := s.ends ++ [⟨settlement, some ⟨id, status, error⟩⟩] }

def State.settle (id : OperationId) (settled : RunSettlement) : State :=
  { s with
    settling := s.settling ++ [⟨id, .reins, settled⟩]
    ends := s.ends ++ [⟨⟨id, .reins, settled⟩, none⟩] }

def step (s : State) : Event → State
  | .submit => { s with submissions := s.submissions + 1 }
  | .submitted => { s with submissions := s.submissions - 1 }
  | .opening => { s with opening := true }
  | .opened live => { s with opening := false, live := s.live || live && !s.driven }
  | .start =>
    if s.pending = none ∧ s.live then
      { s with pending := some s.nextId, nextId := s.nextId + 1, driven := true }
    else s
  | .enqueue clientId => { s with queued := s.queued ++ [clientId] }
  | .take clientId => { s with queued := s.queued.erase clientId }
  | .runEnds status error settled =>
    match s.pending with
    | some id => if s.driven then s.runEnds id status error settled else s
    | none => s
  | .fault settled =>
    match s.pending, settled with
    | some id, some settled => if s.driven then { s.settle id settled with driven := false } else s
    | _, _ => { s with driven := false }
  | .giveUp settled =>
    match s.pending with
    | some id => if s.driven then s else s.settle id settled
    | none => s
  | .resume => if s.live ∧ s.pending.isSome then { s with driven := true } else s
  | .close suspend =>
    { s with
      live := false, driven := s.driven && !suspend, pendingEnds := [], settling := s.settling ++ s.pendingEnds }
  | .applyEnd =>
    match s.pendingEnds with
    | settlement :: rest => { s with applied := some settlement, pendingEnds := rest }
    | [] => s
  | .loseEnd => { s with pendingEnds := s.pendingEnds.tail }
  | .apply i =>
    match s.settling[i]? with
    | some settlement => { s with applied := some settlement, settling := s.settling.eraseIdx i }
    | none => s
  | .lose i => { s with settling := s.settling.eraseIdx i }
  | .exit =>
    { s with live := false, opening := false, driven := false, submissions := 0, pendingEnds := [], settling := [] }
  | .wait _ _ => s

end

/-! ## What a wait is to answer -/

def Given.Of (e : End) : Given → Prop
  | .applied settlement => settlement = e.settlement
  | .newest result => e.result = some result

instance (e : End) (g : Given) : Decidable (g.Of e) := by
  cases g <;> unfold Given.Of <;> infer_instance

def Answers (s : State) : Event → Prop
  | .wait inputs reply => ∀ result, s.waitForSettlement inputs reply = some result →
      s.isBusy = false ∧ (∀ input ∈ inputs, input ∉ s.queued) ∧ match s.ends.getLast? with
        | none => s.lastRun = none ∧ result = replyResult reply none
        | some e => ∃ g, s.lastRun = some g ∧ g.Of e ∧ result = replyResult reply (some g.outcome)
  | _ => True

def Ok (s : State) : Event → Prop
  | .wait inputs _ => s.atRest inputs → ∀ e ∈ s.ends.getLast?, s.applied = some e.settlement ∨
      e.result.isSome ∧ ∀ a ∈ s.applied, a.operationId ≠ e.settlement.operationId
  | _ => True

instance (s : State) (e : Event) : Decidable (Ok s e) := by
  cases e <;> unfold Ok <;> infer_instance

/-! ## The history of a session's runs -/

/-- What the run ends say of what Pi has. -/
structure History (pending : Option OperationId) (nextId : OperationId) (results : List OperationResult)
    (ends : List End) : Prop where
  results : results = ends.filterMap (·.result)
  resultId : ∀ e ∈ ends, ∀ r, e.result = some r → r.operationId = e.settlement.operationId
  pendingId : ∀ id, pending = some id → id < nextId
  endId : ∀ e ∈ ends, e.settlement.operationId < nextId
  ended : ∀ e ∈ ends, e.result.isSome → pending ≠ some e.settlement.operationId
  givenUp : ∀ e, ends.getLast? = some e → e.result = none → pending = some e.settlement.operationId
  latest : ∀ e ∈ ends, pending = some e.settlement.operationId → ∀ l, ends.getLast? = some l →
    l.settlement.operationId = e.settlement.operationId

structure Inv (s : State) : Prop where
  history : History s.pending s.nextId s.results s.ends
  settled : ∀ a, s.applied = some a ∨ a ∈ s.pendingEnds ∨ a ∈ s.settling → ∃ e ∈ s.ends, e.settlement = a

section

variable {pending : Option OperationId} {nextId id : OperationId} {results : List OperationResult} {ends : List End}
  {e : End} {r : OperationResult} {s : State}

theorem History.init : History none 0 [] [] where
  results := rfl
  resultId _ h := nomatch h
  pendingId _ h := nomatch h
  endId _ h := nomatch h
  ended _ h := nomatch h
  givenUp _ h := nomatch h
  latest _ h := nomatch h

theorem History.start (h : History none nextId results ends) : History (some nextId) (nextId + 1) results ends where
  results := h.results
  resultId := h.resultId
  pendingId id hid := by
    cases hid
    exact Nat.lt_succ_self _
  endId e he := Nat.lt_succ_of_lt (h.endId e he)
  ended e he _ heq := Nat.ne_of_gt (h.endId e he) (Option.some_inj.mp heq)
  givenUp e he hnone := nomatch h.givenUp e he hnone
  latest e he heq := absurd (Option.some_inj.mp heq) (Nat.ne_of_gt (h.endId e he))

theorem History.endId_concat (h : History (some id) nextId results ends) (he : e.settlement.operationId = id) :
    ∀ e' ∈ ends ++ [e], e'.settlement.operationId < nextId := by
  intro e' he'
  rcases mem_append.mp he' with he' | he'
  · exact h.endId e' he'
  · rw [mem_singleton.mp he', he]
    exact h.pendingId id rfl

theorem History.piEnd (h : History (some id) nextId results ends) (he : e.settlement.operationId = id)
    (hr : e.result = some r) (hid : r.operationId = id) : History none nextId (results ++ [r]) (ends ++ [e]) where
  results := by
    rw [filterMap_append, ← h.results]
    simp [hr]
  resultId e' he' r' hr' := by
    rcases mem_append.mp he' with he' | he'
    · exact h.resultId e' he' r' hr'
    rw [mem_singleton.mp he'] at hr' ⊢
    rw [hr] at hr'
    rw [← Option.some_inj.mp hr', hid, he]
  pendingId _ hp := nomatch hp
  endId := h.endId_concat he
  ended _ _ _ hp := nomatch hp
  givenUp l hl hnone := by
    rw [getLast?_concat] at hl
    rw [← Option.some_inj.mp hl, hr] at hnone
    cases hnone
  latest _ _ hp := nomatch hp

theorem History.reinsEnd (h : History (some id) nextId results ends) (he : e.settlement.operationId = id)
    (hr : e.result = none) : History (some id) nextId results (ends ++ [e]) := { h with
  results := by
    rw [filterMap_append, ← h.results]
    simp [hr]
  resultId e' he' r' hr' := by
    rcases mem_append.mp he' with he' | he'
    · exact h.resultId e' he' r' hr'
    · rw [mem_singleton.mp he', hr] at hr'
      cases hr'
  endId := h.endId_concat he
  ended e' he' hsome := by
    rcases mem_append.mp he' with he' | he'
    · exact h.ended e' he' hsome
    · rw [mem_singleton.mp he', hr] at hsome
      cases hsome
  givenUp l hl _ := by
    rw [getLast?_concat] at hl
    rw [← Option.some_inj.mp hl, he]
  latest e' _ hp l hl := by
    rw [getLast?_concat] at hl
    rw [← Option.some_inj.mp hl, he]
    exact Option.some_inj.mp hp }

theorem Inv.init : Inv .init where
  history := .init
  settled a h := by
    rcases h with h | h | h <;> cases h

theorem settled_concat (h : Inv s) (e : End) {a : LatestSettlement}
    (ha : s.applied = some a ∨ a ∈ s.pendingEnds ∨ a ∈ s.settling ∨ a = e.settlement) :
    ∃ e' ∈ s.ends ++ [e], e'.settlement = a := by
  have hold (hold : ∃ e' ∈ s.ends, e'.settlement = a) : ∃ e' ∈ s.ends ++ [e], e'.settlement = a := by
    obtain ⟨e', he', heq⟩ := hold
    exact ⟨e', mem_append_left _ he', heq⟩
  rcases ha with ha | ha | ha | ha
  · exact hold (h.settled a (.inl ha))
  · exact hold (h.settled a (.inr (.inl ha)))
  · exact hold (h.settled a (.inr (.inr ha)))
  · exact ⟨e, mem_concat_self, ha.symm⟩

theorem Inv.runEnds (h : Inv s) (hp : s.pending = some id) (status : ResultStatus) (error : Option OperationError)
    (settled : RunSettlement) : Inv (s.runEnds id status error settled) := by
  have hhistory := h.history
  rw [hp] at hhistory
  refine ⟨hhistory.piEnd rfl rfl rfl, fun a ha => settled_concat h _ ?_⟩
  unfold State.runEnds at ha
  cases hlive : s.live with
  | true =>
    simp only [hlive, if_true, mem_append, mem_singleton] at ha
    rcases ha with ha | (ha | ha) | ha
    · exact .inl ha
    · exact .inr (.inl ha)
    · exact .inr (.inr (.inr ha))
    · exact .inr (.inr (.inl ha))
  | false =>
    simp only [hlive, Bool.false_eq_true, if_false, mem_append, mem_singleton] at ha
    rcases ha with ha | ha | ha | ha
    · exact .inl ha
    · exact .inr (.inl ha)
    · exact .inr (.inr (.inl ha))
    · exact .inr (.inr (.inr ha))

theorem Inv.settle (h : Inv s) (hp : s.pending = some id) (settled : RunSettlement) : Inv (s.settle id settled) := by
  have hhistory := h.history
  rw [hp] at hhistory
  refine ⟨?_, fun a ha => settled_concat h _ ?_⟩
  · show History s.pending s.nextId s.results (s.ends ++ [_])
    rw [hp]
    exact hhistory.reinsEnd rfl rfl
  rcases ha with ha | ha | ha
  · exact .inl ha
  · exact .inr (.inl ha)
  · rcases mem_append.mp ha with ha | ha
    · exact .inr (.inr (.inl ha))
    · exact .inr (.inr (.inr (mem_singleton.mp ha)))

theorem Inv.step (h : Inv s) (e : Event) : Inv (step s e) := by
  cases e with
  | submit => exact ⟨h.history, h.settled⟩
  | submitted => exact ⟨h.history, h.settled⟩
  | opening => exact ⟨h.history, h.settled⟩
  | opened live => exact ⟨h.history, h.settled⟩
  | start =>
    simp only [SettlementWaits.step]
    split
    · next hnone =>
      have hhistory := h.history
      rw [hnone.1] at hhistory
      exact ⟨hhistory.start, h.settled⟩
    · exact h
  | enqueue clientId => exact ⟨h.history, h.settled⟩
  | take clientId => exact ⟨h.history, h.settled⟩
  | runEnds status error settled =>
    simp only [SettlementWaits.step]
    split
    · next id hp =>
      split
      · exact h.runEnds hp status error settled
      · exact h
    · exact h
  | fault settled =>
    simp only [SettlementWaits.step]
    split
    · next id settled hp =>
      split
      · exact ⟨(h.settle hp settled).history, (h.settle hp settled).settled⟩
      · exact h
    · exact ⟨h.history, h.settled⟩
  | giveUp settled =>
    simp only [SettlementWaits.step]
    split
    · next id hp =>
      split
      · exact h
      · exact h.settle hp settled
    · exact h
  | resume =>
    simp only [SettlementWaits.step]
    split
    · exact ⟨h.history, h.settled⟩
    · exact h
  | close suspend =>
    refine ⟨h.history, fun a ha => h.settled a ?_⟩
    rcases ha with ha | ha | ha
    · exact .inl ha
    · cases ha
    · exact .inr (mem_append.mp ha).symm
  | applyEnd =>
    simp only [SettlementWaits.step]
    split
    · next settlement rest hends =>
      refine ⟨h.history, fun a ha => h.settled a ?_⟩
      rw [hends]
      rcases ha with ha | ha | ha
      · rw [← Option.some_inj.mp ha]
        exact .inr (.inl mem_cons_self)
      · exact .inr (.inl (mem_cons_of_mem _ ha))
      · exact .inr (.inr ha)
    · exact h
  | loseEnd => exact ⟨h.history, fun a ha => h.settled a (ha.imp_right fun ha => ha.imp_left mem_of_mem_tail)⟩
  | apply i =>
    simp only [SettlementWaits.step]
    split
    · next settlement hi =>
      refine ⟨h.history, fun a ha => h.settled a ?_⟩
      rcases ha with ha | ha | ha
      · rw [← Option.some_inj.mp ha]
        exact .inr (.inr (mem_of_getElem? hi))
      · exact .inr (.inl ha)
      · exact .inr (.inr (mem_of_mem_eraseIdx ha))
    · exact h
  | lose i => exact ⟨h.history, fun a ha => h.settled a (ha.imp_right fun ha => ha.imp_right mem_of_mem_eraseIdx)⟩
  | exit =>
    refine ⟨h.history, fun a ha => h.settled a ?_⟩
    rcases ha with ha | ha | ha
    · exact .inl ha
    · cases ha
    · cases ha
  | wait inputs reply => exact h

/-! ## What a wait answers with -/

def State.Right (s : State) : Prop :=
  match s.ends.getLast? with
  | none => s.lastRun = none
  | some e => ∃ g, s.lastRun = some g ∧ g.Of e

def State.Fresh (s : State) : Prop :=
  ∀ e ∈ s.ends.getLast?, s.applied = some e.settlement ∨
    e.result.isSome ∧ ∀ a ∈ s.applied, a.operationId ≠ e.settlement.operationId

theorem History.newest (h : History pending nextId results ends) (hl : ends.getLast? = some e)
    (hr : e.result = some r) : results.getLast? = some r := by
  rw [h.results]
  obtain ⟨front, rfl⟩ := getLast?_eq_some_iff.mp hl
  rw [filterMap_append]
  simp [hr]

theorem History.mem_results (h : History pending nextId results ends) (hr : r ∈ results) :
    ∃ e ∈ ends, e.result = some r ∧ r.operationId = e.settlement.operationId := by
  rw [h.results] at hr
  obtain ⟨e, he, heq⟩ := mem_filterMap.mp hr
  exact ⟨e, he, heq, h.resultId e he r heq⟩

theorem Inv.right_iff_pi (h : Inv s) (hl : s.ends.getLast? = some e) (hr : e.result = some r) :
    (∃ g, s.lastRun = some g ∧ g.Of e) ↔
      (s.applied = some e.settlement ∨ ∀ a ∈ s.applied, a.operationId ≠ e.settlement.operationId) := by
  have he : e ∈ s.ends := mem_of_getLast? hl
  have hnewest := h.history.newest hl hr
  have hid := h.history.resultId e he r hr
  unfold State.lastRun lastRunOutcome
  rw [hnewest]
  cases ha : s.applied with
  | none => simp [Given.Of, hr]
  | some a =>
    obtain ⟨e', he', heq⟩ := h.settled a (.inl ha)
    have hpending : some a.operationId ≠ s.pending := by
      intro hp
      rw [← heq] at hp
      -- the latest end is of that operation, then, and it has ended
      have hop := h.history.latest e' he' hp.symm e hl
      rw [← hop] at hp
      exact h.history.ended e he (hr ▸ rfl) hp.symm
    by_cases hsame : a.operationId = e.settlement.operationId
    · simp only [if_pos (Or.inl (hsame.trans hid.symm) : a.operationId = r.operationId ∨ some a.operationId = s.pending)]
      simp [Given.Of, hsame]
    have hne : ¬(a.operationId = r.operationId ∨ some a.operationId = s.pending) := by
      rintro (hop | hop)
      · exact hsame (hop.trans hid)
      · exact hpending hop
    simp only [if_neg hne]
    simp [Given.Of, hr, hsame]

/-- The latest end is Reins': Pi has the operation in progress still. -/
theorem Inv.right_iff_reins (h : Inv s) (hl : s.ends.getLast? = some e) (hr : e.result = none) :
    (∃ g, s.lastRun = some g ∧ g.Of e) ↔ s.applied = some e.settlement := by
  have hp := h.history.givenUp e hl hr
  unfold State.lastRun lastRunOutcome
  cases hnewest : s.results.getLast? with
  | none => cases s.applied <;> simp [Given.Of]
  | some r =>
    obtain ⟨e', he', hres, hid⟩ := h.history.mem_results (mem_of_getLast? hnewest)
    cases ha : s.applied with
    | none => simp [Given.Of, hr]
    | some a =>
      by_cases hsame : a.operationId = e.settlement.operationId
      · simp [Given.Of, hp, hsame]
      have hother : a ≠ e.settlement := fun heq => hsame (congrArg LatestSettlement.operationId heq)
      simp only [hp, Option.some_inj, hsame, or_false]
      split
      · simp [Given.Of]
      · simp [Given.Of, hr, hother]

theorem Inv.right_iff (h : Inv s) : s.Right ↔ s.Fresh := by
  unfold State.Right State.Fresh
  cases hl : s.ends.getLast? with
  | none =>
    have hends : s.ends = [] := getLast?_eq_none_iff.mp hl
    have happlied : s.applied = none := by
      cases ha : s.applied with
      | none => rfl
      | some a =>
        obtain ⟨e, he, -⟩ := h.settled a (.inl ha)
        rw [hends] at he
        cases he
    have hresults : s.results = [] := by
      rw [h.history.results, hends]
      rfl
    simp [State.lastRun, lastRunOutcome, happlied, hresults]
  | some e =>
    cases hr : e.result with
    | none => simp [h.right_iff_reins hl hr, hr]
    | some r => simp [h.right_iff_pi hl hr, hr]

/-- A wait that resolves is at rest, and answers how the run of `lastRun` ended. -/
theorem answers_wait_iff {inputs : List ClientId} {reply : Option FinalReply} :
    Answers s (.wait inputs reply) ↔ (s.atRest inputs → s.Right) := by
  unfold Answers State.waitForSettlement State.Right
  constructor
  · intro h hrest
    obtain ⟨-, -, hmatch⟩ := h _ (if_pos hrest)
    split at hmatch
    · exact hmatch.1
    · obtain ⟨g, hg, hof, -⟩ := hmatch
      exact ⟨g, hg, hof⟩
  · intro h result hresult
    split at hresult
    · next hrest =>
      have hparts : s.isBusy = false ∧ ∀ input ∈ inputs, input ∉ s.queued := by
        simpa [State.atRest] using hrest
      have hmatch := h hrest
      refine ⟨hparts.1, hparts.2, ?_⟩
      rw [← Option.some_inj.mp hresult]
      split at hmatch
      · rw [hmatch]
        exact ⟨rfl, rfl⟩
      obtain ⟨g, hg, hof⟩ := hmatch
      rw [hg]
      exact ⟨g, rfl, hof, rfl⟩
    · cases hresult

theorem answers_iff (h : Inv s) (e : Event) : Answers s e ↔ Ok s e := by
  cases e with
  | wait inputs reply => exact answers_wait_iff.trans (imp_congr_right fun _ => h.right_iff)
  | _ => exact Iff.rfl

/-- **Waits answer with the latest run**, in exactly the runs in which each wait that resolves does so while the
last end applied is the latest, or of another operation than the latest, which is in Pi. -/
theorem waits_answer (es : List Event) : Along step Answers .init es ↔ Along step Ok .init es :=
  along_iff_along_under Inv (fun _ e h => answers_iff h e) (fun _ e h _ => h.step e) .init es

end

/-- A run that an exit cut off is given up, resumed by the user, and ends in Pi; another exit loses that end's
settlement. -/
def givenUpThenCompleted : List Event :=
  [.opening, .opened true, .submit, .start, .submitted, .exit, .giveUp ⟨.failed, some ⟨none, "interrupted"⟩⟩, .apply 0,
    .opening, .opened true, .resume, .runEnds .completed none ⟨.completed, none⟩, .exit]

theorem given_up_run_answered : ¬ ∀ es, Along step Answers .init es := by
  intro h
  have hes := (along_append step Answers .init givenUpThenCompleted [.wait [] none]).mp (h _)
  obtain ⟨-, -, hmatch⟩ := hes.2.1 ⟨.failed, none, some "interrupted"⟩ (by decide)
  have hlast : (exec step .init givenUpThenCompleted).ends.getLast? =
      some ⟨⟨0, .pi, ⟨.completed, none⟩⟩, some ⟨0, .completed, none⟩⟩ := by decide
  rw [hlast] at hmatch
  obtain ⟨g, hg, hof, -⟩ := hmatch
  have hgiven : (exec step .init givenUpThenCompleted).lastRun =
      some (.applied ⟨0, .reins, ⟨.failed, some ⟨none, "interrupted"⟩⟩⟩) := by decide
  cases hgiven.symm.trans hg
  revert hof
  decide

end Reins.SettlementWaits
