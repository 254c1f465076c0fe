import Reins.Backend.LifecycleReports
import Reins.Backend.SubmissionChain

/-!
# Reports to the parent (`runSettled`, `recoverInterruptedRuns`, `backend/src/sessions/session-runs.ts`)

A child's run end is applied in two steps: its report is steered into the parent's submission chain
(`Reins/Backend/SubmissionChain.lean`) under a key of the child, Pi's operation and who ended it, and then
the end is recorded in the child's row. A restart of the process comes between any two steps; it takes the
applications under way with it and leaves the lanes and the records. Recovery gives up what Pi still has
pending, unless the record says it did, and the same end may be applied again for any other reason.
-/

namespace Reins.ChildReports

open LifecycleReports (Source RunId)
open LiveSessions (RuntimeId)
open PiRuntime (OpenOperation ReinsId)
open StoredInputs (storedIds)
open SubmissionChain (Work)

abbrev SessionId := String

def childReportKey (childId : SessionId) (operationId : RunId) (source : Source) : ReinsId :=
  "child-report:" ++ childId ++ ":" ++ operationId ++ match source with
    | .reins => ":interrupted"
    | .pi => ""

/-- The latest settlement in a session's row. -/
structure Settlement where
  operationId : RunId
  source : Source
  deriving DecidableEq

/-- Where a call of `runSettled` waits: for the submission of its report, or to commit the settlement. -/
inductive Waiting
  | report (submission : Nat)
  | commit
  deriving DecidableEq

structure Application where
  sessionId : SessionId
  settlement : Settlement
  waiting : Waiting
  deriving DecidableEq

structure State where
  sessions : SessionId → SubmissionChain.State
  applying : List Application
  /-- `settlement_json`. -/
  latest : SessionId → Option Settlement

abbrev Opened := SessionId → RuntimeId → List OpenOperation

def State.init (opened : Opened) : State := ⟨fun x => .init (opened x), [], fun _ => none⟩

inductive Event
  | session (x : SessionId) (e : SubmissionChain.Event)
  /-- `runSettled`: at a run's end, for a run given up, or again; its reply can be read or not. -/
  | runSettled (x : SessionId) (settlement : Settlement) (readable : Bool)
  | giveUp (x : SessionId) (operationId : RunId) (readable : Bool)
  /-- The report's submission has settled, however it did. -/
  | reported (i : Nat)
  | committed (i : Nat)
  | restart (opened : Opened)

section

variable (parent : SessionId → Option SessionId)

def State.runSettled (s : State) (x : SessionId) (settlement : Settlement) (readable : Bool) : State :=
  match if readable then parent x else none with
  | some p =>
    { s with
      sessions := Function.update s.sessions p
        ((s.sessions p).submit .steer (childReportKey x settlement.operationId settlement.source))
      applying := s.applying ++ [⟨x, settlement, .report (s.sessions p).submissions.length⟩] }
  | none => { s with applying := s.applying ++ [⟨x, settlement, .commit⟩] }

def State.reportSettled (s : State) (x : SessionId) (submission : Nat) : Bool :=
  (parent x).any fun p => ((s.sessions p).submissions[submission]?).any fun b => b.work.finished

def State.givenUp (s : State) (x : SessionId) (operationId : RunId) : Bool := s.latest x = some ⟨operationId, .reins⟩

def isRestart : SubmissionChain.Event → Bool
  | .restart _ => true
  | _ => false

def step (s : State) : Event → State
  | .session x e =>
    if isRestart e then s
    else { s with sessions := Function.update s.sessions x (SubmissionChain.step (s.sessions x) e) }
  | .runSettled x settlement readable => s.runSettled parent x settlement readable
  | .giveUp x operationId readable =>
    if s.givenUp x operationId then s else s.runSettled parent x ⟨operationId, .reins⟩ readable
  | .reported i =>
    match s.applying[i]? with
    | some ⟨x, settlement, .report submission⟩ =>
      if s.reportSettled parent x submission then
        { s with applying := s.applying.set i ⟨x, settlement, .commit⟩ }
      else s
    | _ => s
  | .committed i =>
    match s.applying[i]? with
    | some ⟨x, settlement, .commit⟩ =>
      { s with
        applying := s.applying.eraseIdx i
        latest := Function.update s.latest x (some settlement) }
    | _ => s
  | .restart opened =>
    { s with
      sessions := fun x => SubmissionChain.step (s.sessions x) (.restart (opened x))
      applying := [] }

/-! ## Each session goes its own way -/

/-- A session does a step of its own, or none. -/
def Steps (a b : SubmissionChain.State) : Prop := b = a ∨ ∃ e, b = SubmissionChain.step a e

theorem steps_update (sessions : SessionId → SubmissionChain.State) (x y : SessionId) (e : SubmissionChain.Event) :
    Steps (sessions y) (Function.update sessions x (SubmissionChain.step (sessions x) e) y) := by
  by_cases hy : y = x
  · subst hy
    rw [Function.update_self]
    exact .inr ⟨e, rfl⟩
  · rw [Function.update_of_ne hy]
    exact .inl rfl

theorem steps_runSettled (s : State) (x : SessionId) (settlement : Settlement) (readable : Bool)
    (y : SessionId) : Steps (s.sessions y) ((s.runSettled parent x settlement readable).sessions y) := by
  unfold State.runSettled
  split
  · -- a report is a steer like any other
    exact steps_update s.sessions _ y (.steer (childReportKey x settlement.operationId settlement.source))
  · exact .inl rfl

theorem steps_step (s : State) (e : Event) (y : SessionId) : Steps (s.sessions y) ((step parent s e).sessions y) := by
  cases e with
  | session x e =>
    simp only [step]
    split
    · exact .inl rfl
    · exact steps_update s.sessions x y e
  | runSettled x settlement readable => exact steps_runSettled parent s x settlement readable y
  | giveUp x operationId readable =>
    simp only [step]
    split
    · exact .inl rfl
    · exact steps_runSettled parent s x _ readable y
  | reported i =>
    simp only [step]
    split
    · split
      · exact .inl rfl
      · exact .inl rfl
    · exact .inl rfl
  | committed i =>
    simp only [step]
    split
    · exact .inl rfl
    · exact .inl rfl
  | restart opened => exact .inr ⟨.restart (opened y), rfl⟩

theorem invariant_step (s : State) (e : Event) (h : ∀ x, SubmissionChain.Inv (s.sessions x)) (x : SessionId) :
    SubmissionChain.Inv ((step parent s e).sessions x) := by
  rcases steps_step parent s e x with heq | ⟨e', heq⟩
  · rw [heq]
    exact h x
  · rw [heq]
    exact (h x).kept e'

/-! ## Reported once -/

/-- **An operation's end is reported at most once a source**: no session's transcript, queued input
included, has two inputs of a report, whatever is applied again, resent or cut off by a restart. -/
theorem reported_once (opened : Opened) (es : List Event) (x childId : SessionId) (operationId : RunId)
    (source : Source) :
    (storedIds ((Run.exec (step parent) (.init opened) es).sessions x).lane).count
      (childReportKey childId operationId source) ≤ 1 := by
  have hinv : ∀ x, SubmissionChain.Inv ((Run.exec (step parent) (.init opened) es).sessions x) :=
    Run.exec_invariant (fun s : State => ∀ x, SubmissionChain.Inv (s.sessions x)) (invariant_step parent)
      (fun x => .init (opened x)) es
  exact List.nodup_iff_count_le_one.mp (hinv x).nodup _

end

end Reins.ChildReports
