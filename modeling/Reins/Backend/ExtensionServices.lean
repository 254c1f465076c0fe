import Reins.Lib.Places
import Reins.Lib.Run

/-!
# Extension services (`backend/src/extensions/services.ts`)

A `ServiceRunner` starts one instance after another of a service; the instances it started are a list
here, and what `this.run` has is the last of them. The service is the environment's: when its `start`
and `stop` settle and to what, and when it calls `fail`. Each continuation of an await is an event of
its own, so anything may come between a promise and what waits for it.
-/

namespace Reins.ExtensionServices

open Places

def FIRST_BACKOFF_MS : Nat := 1000
def MAX_BACKOFF_MS : Nat := 5 * 60000
/-- An instance that ran this long before its crash was healthy. -/
def HEALTHY_MS : Int := 60000

inductive ServiceState
  | starting
  | running
  | restarting
  | stopped
  | failed
  deriving DecidableEq

/-- The call of the service's `start`, up to what its promise settled to. -/
inductive Start
  | calling
  | pending
  /-- It gave an instance, with a `stop` to call or without. -/
  | returned (stoppable : Bool)
  | rejected (error : String)
  deriving DecidableEq

/-- The instance's `stop`. -/
inductive Stop
  | notCalled
  | called
  | settled (threw : Option String)
  deriving DecidableEq

/-- Where the inner function of `end` is. -/
inductive EndPhase
  | awaitsInstance
  | awaitsStop
  | done
  deriving DecidableEq

/-- A call of `end`. -/
structure End where
  /-- `run.instance` was still the promise it is made with. -/
  placeholder : Bool
  phase : EndPhase
  result : Option Bool
  deriving DecidableEq

structure ServiceRun where
  aborted : Bool
  start : Start
  stop : Stop
  runningSince : Option Int
  ended : Bool
  /-- The handlers on `run.instance` have run. -/
  handled : Bool
  ending : Option End
  callback : Bool
  deriving DecidableEq

def ServiceRun.fresh : ServiceRun :=
  { aborted := false, start := .calling, stop := .notCalled, runningSince := none, ended := false,
    handled := false, ending := none, callback := false }

/-- The host's `stop`, up to where it waits. -/
inductive Stopping
  /-- For the end of a crashed instance, where there was one, and then for a live instance's. -/
  | ending (ending : Option Nat) (live : Option Nat)
  | live (run : Nat)
  | resolved
  deriving DecidableEq

structure State where
  name : String
  runs : List ServiceRun
  state : ServiceState
  restarts : Nat
  crashes : Nat
  nextAttemptAt : Option Int
  lastError : Option String
  retry : Bool
  /-- The run whose end `this.ending` is. -/
  ending : Option Nat
  stopped : Option Stopping
  reports : List String

def State.init (name : String) : State :=
  { name, runs := [], state := .stopped, restarts := 0, crashes := 0, nextAttemptAt := none,
    lastError := none, retry := false, ending := none, stopped := none, reports := [] }

def State.setRun (s : State) (r : Nat) (run : ServiceRun) : State := { s with runs := s.runs.set r run }

def State.reported (s : State) (message : String) : State := { s with reports := s.reports ++ [message] }

def State.run (s : State) : Option Nat := if s.runs = [] then none else some (s.runs.length - 1)

/-- `end`, up to its first await: the promise it waits for is the one `run.instance` is then. -/
def ServiceRun.end (run : ServiceRun) : ServiceRun :=
  { run with
    aborted := true
    ending := some ⟨run.start = .calling, .awaitsInstance, none⟩ }

def State.crash (s : State) (r : Nat) (error : String) (now : Int) : State :=
  match s.runs[r]? with
  | some run =>
    if run.ended ∨ s.stopped.isSome then s
    else
      let healthy := run.runningSince.any fun since => now - since ≥ HEALTHY_MS
      { s.setRun r { run with ended := true, callback := true }.end with
        lastError := some error
        reports := s.reports ++ [s!"Service {s.name} crashed: {error}"]
        crashes := if healthy then 0 else s.crashes
        ending := some r }
  | none => s

/-- `attempt`; a service may call `fail` while its `start` is being called. -/
def State.attempt (s : State) (fails : Option String) (now : Int) : State :=
  let s' := { s with runs := s.runs ++ [.fresh], nextAttemptAt := none, state := .starting }
  let s'' := match fails with
    | some error => s'.crash s.runs.length error now
    | none => s'
  match s''.runs[s.runs.length]? with
  | some run => s''.setRun s.runs.length { run with start := .pending }
  | none => s''

def State.start (s : State) (fails : Option String) (now : Int) : State :=
  if s.stopped.isSome ∨ s.runs ≠ [] then s else s.attempt fails now

def State.startHandled (s : State) (r : Nat) (now : Int) : State :=
  match s.runs[r]? with
  | some run =>
    if run.handled then s
    else
      match run.start with
      | .returned _ =>
        if run.ended then s.setRun r { run with handled := true }
        else
          { s.setRun r { run with handled := true, runningSince := some now } with
            state := .running }
      | .rejected error => (s.setRun r { run with handled := true }).crash r error now
      | .calling | .pending => s
  | none => s

/-- `end` goes on once the start it waits for has settled. -/
def State.endAwaited (s : State) (r : Nat) : State :=
  match s.runs[r]? with
  | some run =>
    match run.ending with
    | some ⟨placeholder, .awaitsInstance, result⟩ =>
      if placeholder then s.setRun r { run with ending := some ⟨placeholder, .done, result⟩ }
      else
        match run.start with
        | .returned true => s.setRun r { run with stop := .called, ending := some ⟨placeholder, .awaitsStop, result⟩ }
        | .returned false | .rejected _ => s.setRun r { run with ending := some ⟨placeholder, .done, result⟩ }
        | .calling | .pending => s
    | _ => s
  | none => s

/-- `end` goes on once the instance's `stop` has settled. -/
def State.stopAwaited (s : State) (r : Nat) : State :=
  match s.runs[r]? with
  | some run =>
    match run.ending, run.stop with
    | some ⟨placeholder, .awaitsStop, result⟩, .settled threw =>
      let s' := s.setRun r { run with ending := some ⟨placeholder, .done, result⟩ }
      match threw with
      | some error => s'.reported s!"Service {s.name}: its stop threw: {error}"
      | none => s'
    | _, _ => s
  | none => s

/-- The race of `end` settles, by the instance's end or by the timeout. -/
def State.endSettles (s : State) (r : Nat) (timedOut : Bool) : State :=
  match s.runs[r]? with
  | some run =>
    match run.ending with
    | some ⟨placeholder, phase, none⟩ =>
      if phase = .done then s.setRun r { run with ending := some ⟨placeholder, phase, some true⟩ }
      else if timedOut then
        let message := s!"Service {s.name} did not stop within 5 s"
        { (s.setRun r { run with ending := some ⟨placeholder, phase, some false⟩ }).reported message
          with lastError := some message }
      else s
    | _ => s
  | none => s

/-- What a call of `end` has settled to. -/
def State.ended? (s : State) (r : Nat) : Option Bool := (s.runs[r]?.bind ServiceRun.ending).bind End.result

def State.crashEnded (s : State) (r : Nat) (now : Int) : State :=
  match s.runs[r]?, s.ended? r with
  | some run, some ended =>
    if !run.callback then s
    else
      let s' : State := s.setRun r { run with callback := false }
      if s.stopped.isSome then s'
      else if !ended then { s' with state := .failed }
      else
        { s' with
          crashes := s.crashes + 1
          state := .restarting
          nextAttemptAt := some (now + min (FIRST_BACKOFF_MS * 2 ^ s.crashes) MAX_BACKOFF_MS)
          retry := true }
  | _, _ => s

def State.retryFires (s : State) (fails : Option String) (now : Int) : State :=
  if s.retry then { s with retry := false, restarts := s.restarts + 1 }.attempt fails now else s

/-- The runner's `stop`, up to its first await. -/
def State.stop (s : State) : State :=
  if s.stopped.isSome then s
  else
    let s' : State := { s with
      retry := false, nextAttemptAt := none,
      state := if s.state = .failed then .failed else .stopped }
    match s.run.bind fun r => s.runs[r]?.map fun run => (r, run) with
    | some (r, run) =>
      { s'.setRun r { run with ended := true } with
        stopped := some (.ending s.ending (if run.ended then none else some r)) }
    | none => { s' with stopped := some (.ending s.ending none) }

/-- Whether the instance `stop` waits for first has ended: one that did not crash has. -/
def State.endingOf (s : State) : Option Nat → Option Bool
  | none => some true
  | some r => s.ended? r

def State.stopGoesOn (s : State) : State :=
  match s.stopped with
  | some (.ending ending live) =>
    match s.endingOf ending with
    | some true =>
      match live.bind fun r => s.runs[r]?.map fun run => (r, run) with
      | some (r, run) => { s.setRun r run.end with stopped := some (.live r) }
      | none => { s with stopped := some .resolved }
    | some false => { s with state := .failed, stopped := some .resolved }
    | none => s
  | some (.live r) =>
    match s.ended? r with
    | some true => { s with stopped := some .resolved }
    | some false => { s with state := .failed, stopped := some .resolved }
    | none => s
  | _ => s

def State.settleStart (s : State) (r : Nat) (outcome : Start) : State :=
  match s.runs[r]? with
  | some run => if run.start = .pending then s.setRun r { run with start := outcome } else s
  | none => s

def State.settleStop (s : State) (r : Nat) (threw : Option String) : State :=
  match s.runs[r]? with
  | some run => if run.stop = .called then s.setRun r { run with stop := .settled threw } else s
  | none => s

inductive Event
  | start (fails : Option String) (now : Int)
  | startReturns (run : Nat) (stoppable : Bool)
  | startRejects (run : Nat) (error : String)
  | startHandled (run : Nat) (now : Int)
  /-- A call of an instance's `fail`, when its `start` is not being called. -/
  | fail (run : Nat) (error : String) (now : Int)
  | endAwaited (run : Nat)
  | stopSettles (run : Nat) (threw : Option String)
  | stopAwaited (run : Nat)
  | endSettles (run : Nat) (timedOut : Bool)
  | crashEnded (run : Nat) (now : Int)
  | retryFires (fails : Option String) (now : Int)
  | stop
  | stopGoesOn

def step (s : State) : Event → State
  | .start fails now => s.start fails now
  | .startReturns r stoppable => s.settleStart r (.returned stoppable)
  | .startRejects r error => s.settleStart r (.rejected error)
  | .startHandled r now => s.startHandled r now
  | .fail r error now => s.crash r error now
  | .endAwaited r => s.endAwaited r
  | .stopSettles r threw => s.settleStop r threw
  | .stopAwaited r => s.stopAwaited r
  | .endSettles r timedOut => s.endSettles r timedOut
  | .crashEnded r now => s.crashEnded r now
  | .retryFires fails now => s.retryFires fails now
  | .stop => s.stop
  | .stopGoesOn => s.stopGoesOn

/-! ## What is asked of it -/

/-- The instance is no more: its start failed, or its `stop` has settled; one without a `stop` has
only its signal to end it. -/
def ServiceRun.over (run : ServiceRun) : Bool :=
  match run.start with
  | .rejected _ => true
  | .returned false => run.aborted
  | .returned true => run.stop ≠ .notCalled && run.stop ≠ .called
  | .calling | .pending => false

def ServiceRun.timedOut (run : ServiceRun) : Bool := (run.ending.bind End.result) = some false

structure Separate (s : State) : Prop where
  /-- Every instance but the last one started is no more, so one exists at a time. -/
  one : ∀ (r : Nat) (run : ServiceRun), s.runs[r]? = some run → r + 1 < s.runs.length → run.over = true
  /-- Once `stop` has resolved no instance exists but one that outlasted the stop timeout. -/
  none_left : s.stopped = some .resolved → ∀ (r : Nat) (run : ServiceRun),
    s.runs[r]? = some run → run.over = true ∨ run.timedOut = true
  none_again : ∀ (r : Nat) (run : ServiceRun), s.runs[r]? = some run → run.timedOut = true → r + 1 = s.runs.length

/-- No service calls `fail` while its `start` is being called. -/
def FailsAfterStart : Event → Prop
  | .start fails _ => fails = none
  | .retryFires fails _ => fails = none
  | _ => True

instance (e : Event) : Decidable (FailsAfterStart e) := by
  cases e <;> unfold FailsAfterStart <;> infer_instance

/-! ## What each instance's record says of it -/

structure RunOk (run : ServiceRun) : Prop where
  called : run.start ≠ .calling
  real : ∀ e, run.ending = some e → e.placeholder = false
  aborted : ∀ e, run.ending = some e → run.aborted = true
  stop_called : run.stop ≠ .notCalled → ∃ e, run.ending = some e ∧ e.phase ≠ .awaitsInstance
  awaits_stop : ∀ e, run.ending = some e → e.phase = .awaitsStop → run.start = .returned true
  done_over : ∀ e, run.ending = some e → e.phase = .done → run.over = true
  settled_done : ∀ e, run.ending = some e → e.result = some true → e.phase = .done

def Finished (run : ServiceRun) : Prop := ∃ e, run.ending = some e ∧ e.result = some true

theorem RunOk.over {run : ServiceRun} (h : RunOk run) (hf : Finished run) : run.over = true := by
  obtain ⟨e, he, hr⟩ := hf
  exact h.done_over e he (h.settled_done e he hr)

theorem finished_not_timedOut {run : ServiceRun} (hf : Finished run) : run.timedOut = false := by
  obtain ⟨e, he, hr⟩ := hf
  simp [ServiceRun.timedOut, he, hr]

/-- `end` is called of a run whose start has been called and whose end has not. -/
theorem RunOk.end {run : ServiceRun} (h : RunOk run) (hn : run.ending = none) : RunOk run.end := by
  have hp : decide (run.start = .calling) = false := decide_eq_false h.called
  constructor
  · exact h.called
  · intro e he
    cases he
    exact hp
  · intro e _
    rfl
  · intro hs
    obtain ⟨e, he, _⟩ := h.stop_called hs
    cases hn.symm.trans he
  · intro e he hph
    cases he
    cases hph
  · intro e he hph
    cases he
    cases hph
  · intro e he hr
    cases he
    cases hr

/-- What the record of a run says still holds after. -/
structure Grows (run run' : ServiceRun) : Prop where
  ended : run'.ended = run.ended
  ending : run'.ending = none ↔ run.ending = none
  finished : Finished run → Finished run'
  callback : run.callback = false → run'.callback = false
  isOver : run.over = true → run'.over = true
  timedOut : run.timedOut = true → run'.timedOut = true

/-! ## One instance after another -/

structure Inv (s : State) : Prop where
  ok : ∀ (r : Nat) (run : ServiceRun), s.runs[r]? = some run → RunOk run
  older : ∀ (r : Nat) (run : ServiceRun), s.runs[r]? = some run → r + 1 < s.runs.length →
    run.ended = true ∧ Finished run ∧ run.callback = false
  crashed : s.stopped = none → ∀ (r : Nat) (run : ServiceRun), s.runs[r]? = some run →
    r + 1 = s.runs.length → run.ended = true → s.ending = some r ∧ run.ending ≠ none
  live : s.stopped = none → ∀ (r : Nat) (run : ServiceRun), s.runs[r]? = some run →
    run.ended = false → run.ending = none
  retry_done : s.retry = true → s.stopped = none ∧ s.runs ≠ [] ∧ ∀ (r : Nat) (run : ServiceRun),
    s.runs[r]? = some run → run.ended = true ∧ Finished run ∧ run.callback = false
  stop_ending : ∀ ending live, s.stopped = some (.ending ending live) →
    (live = none → ∀ (r : Nat) (run : ServiceRun), s.runs[r]? = some run → r + 1 = s.runs.length → ending = some r) ∧
    ∀ r, live = some r → r + 1 = s.runs.length ∧ ∀ run : ServiceRun, s.runs[r]? = some run → run.ending = none
  stop_live : ∀ r, s.stopped = some (.live r) → r + 1 = s.runs.length
  resolved : s.stopped = some .resolved → ∀ (r : Nat) (run : ServiceRun), s.runs[r]? = some run →
    r + 1 = s.runs.length → run.over = true ∨ run.timedOut = true

variable {s : State} {r : Nat} {run run' : ServiceRun}

theorem Inv.init (name : String) : Inv (.init name) := by
  constructor <;> intros <;> contradiction

theorem Inv.separate (h : Inv s) : Separate s := by
  have hlast : ∀ (r : Nat) (run : ServiceRun), s.runs[r]? = some run →
      ¬ r + 1 < s.runs.length → r + 1 = s.runs.length := by
    intro r run hr hn
    have := lt_of_getElem? hr
    omega
  constructor
  · intro r run hr hlt
    exact (h.ok r run hr).over (h.older r run hr hlt).2.1
  · intro hs r run hr
    by_cases hlt : r + 1 < s.runs.length
    · exact .inl ((h.ok r run hr).over (h.older r run hr hlt).2.1)
    · exact h.resolved hs r run hr (hlast r run hr hlt)
  · intro r run hr ht
    by_cases hlt : r + 1 < s.runs.length
    · rw [finished_not_timedOut (h.older r run hr hlt).2.1] at ht
      cases ht
    · exact hlast r run hr hlt

theorem Inv.grow (h : Inv s) (hr : s.runs[r]? = some run) (hok : RunOk run')
    (hg : Grows run run') : Inv (s.setRun r run') := by
  have hlen : (s.setRun r run').runs.length = s.runs.length := List.length_set
  constructor
  · intro q rn hq
    rcases getElem?_set_cases hq with ⟨_, rfl⟩ | ⟨_, hq⟩
    · exact hok
    · exact h.ok q rn hq
  · intro q rn hq hlt
    rw [hlen] at hlt
    rcases getElem?_set_cases hq with ⟨rfl, rfl⟩ | ⟨_, hq⟩
    · obtain ⟨he, hf, hc⟩ := h.older r run hr hlt
      exact ⟨hg.ended.trans he, hg.finished hf, hg.callback hc⟩
    · exact h.older q rn hq hlt
  · intro hs q rn hq hn he
    rw [hlen] at hn
    rcases getElem?_set_cases hq with ⟨rfl, rfl⟩ | ⟨_, hq⟩
    · obtain ⟨hend, hne⟩ := h.crashed hs r run hr hn (hg.ended.symm.trans he)
      exact ⟨hend, fun hnone => hne (hg.ending.mp hnone)⟩
    · exact h.crashed hs q rn hq hn he
  · intro hs q rn hq he
    rcases getElem?_set_cases hq with ⟨rfl, rfl⟩ | ⟨_, hq⟩
    · exact hg.ending.mpr (h.live hs r run hr (hg.ended.symm.trans he))
    · exact h.live hs q rn hq he
  · intro hret
    obtain ⟨hs, hne, hd⟩ := h.retry_done hret
    refine ⟨hs, fun hnil => hne (by simpa [State.setRun] using hnil), ?_⟩
    intro q rn hq
    rcases getElem?_set_cases hq with ⟨rfl, rfl⟩ | ⟨_, hq⟩
    · obtain ⟨he, hf, hc⟩ := hd r run hr
      exact ⟨hg.ended.trans he, hg.finished hf, hg.callback hc⟩
    · exact hd q rn hq
  · intro ending live hs
    obtain ⟨hnone, hsome⟩ := h.stop_ending ending live hs
    constructor
    · intro hl q rn hq hn
      rw [hlen] at hn
      rcases getElem?_set_cases hq with ⟨rfl, rfl⟩ | ⟨_, hq⟩
      · exact hnone hl r run hr hn
      · exact hnone hl q rn hq hn
    · intro q hl
      obtain ⟨hn, he⟩ := hsome q hl
      refine ⟨by rw [hlen]; exact hn, ?_⟩
      intro rn hq
      rcases getElem?_set_cases hq with ⟨rfl, rfl⟩ | ⟨_, hq⟩
      · exact hg.ending.mpr (he run hr)
      · exact he rn hq
  · intro q hs
    rw [hlen]
    exact h.stop_live q hs
  · intro hs q rn hq hn
    rw [hlen] at hn
    rcases getElem?_set_cases hq with ⟨rfl, rfl⟩ | ⟨_, hq⟩
    · exact (h.resolved hs r run hr hn).imp hg.isOver hg.timedOut
    · exact h.resolved hs q rn hq hn

/-- A new instance may be started: those before it have ended, and nothing waits for them. -/
structure Idle (s : State) : Prop where
  stopped : s.stopped = none
  retry : s.retry = false
  ended : ∀ (r : Nat) (run : ServiceRun), s.runs[r]? = some run → run.ended = true ∧ Finished run ∧ run.callback = false

def ServiceRun.starting : ServiceRun := { ServiceRun.fresh with start := .pending }

theorem attempt_none (s : State) (now : Int) : s.attempt none now =
      { s with runs := s.runs ++ [.starting], nextAttemptAt := none, state := .starting } := by
  have hlast : (s.runs ++ [ServiceRun.fresh])[s.runs.length]? = some .fresh := List.getElem?_concat_length
  have hset : (s.runs ++ [ServiceRun.fresh]).set s.runs.length .starting = s.runs ++ [.starting] := by simp
  simp only [State.attempt, hlast, State.setRun]
  exact congrArg (fun runs => { s with runs := runs, nextAttemptAt := none, state := .starting }) hset

theorem RunOk.starting : RunOk .starting := by
  constructor
  · decide
  all_goals intros; contradiction

theorem Inv.attempt (h : Inv s) (hi : Idle s) (now : Int) : Inv (s.attempt none now) := by
  rw [attempt_none]
  constructor
  · intro q rn hq
    rcases getElem?_concat_cases hq with hq | ⟨_, rfl⟩
    · exact h.ok q rn hq
    · exact RunOk.starting
  · intro q rn hq hlt
    rcases getElem?_concat_cases hq with hq | ⟨rfl, rfl⟩
    · exact hi.ended q rn hq
    · have : s.runs.length + 1 < (s.runs ++ [ServiceRun.starting]).length := hlt
      simp at this
  · intro _ q rn hq hn he
    rcases getElem?_concat_cases hq with hq | ⟨_, rfl⟩
    · have := lt_of_getElem? hq
      have : q + 1 = (s.runs ++ [ServiceRun.starting]).length := hn
      simp at this
      omega
    · cases he
  · intro hs q rn hq he
    rcases getElem?_concat_cases hq with hq | ⟨_, rfl⟩
    · exact h.live hs q rn hq he
    · rfl
  · intro hret
    have : s.retry = true := hret
    rw [hi.retry] at this
    cases this
  · intro ending live hs
    have : s.stopped = some _ := hs
    rw [hi.stopped] at this
    cases this
  · intro q hs
    have : s.stopped = some _ := hs
    rw [hi.stopped] at this
    cases this
  · intro hs
    have : s.stopped = some _ := hs
    rw [hi.stopped] at this
    cases this

theorem Inv.start (h : Inv s) (now : Int) : Inv (s.start none now) := by
  rw [State.start]
  split
  · exact h
  rename_i hn
  rw [not_or, not_not] at hn
  have hs : s.stopped = none := by simpa using hn.1
  refine h.attempt ⟨hs, ?_, ?_⟩ now
  · cases hret : s.retry with
    | false => rfl
    | true => exact absurd hn.2 (h.retry_done hret).2.1
  intro r run hr
  rw [hn.2] at hr
  cases hr

theorem Inv.retryFires (h : Inv s) (now : Int) : Inv (s.retryFires none now) := by
  rw [State.retryFires]
  split
  next hret =>
    obtain ⟨hs, hne, hd⟩ := h.retry_done hret
    have h' : Inv { s with retry := false, restarts := s.restarts + 1 } :=
      { h with retry_done := by intro hr; cases hr }
    exact h'.attempt ⟨hs, rfl, hd⟩ now
  · exact h

/-- An instance that has not ended, while the host has not stopped the runner, is the last one. -/
theorem Inv.last_of_live (h : Inv s) (hr : s.runs[r]? = some run) (he : run.ended = false) : r + 1 = s.runs.length := by
  by_cases hlt : r + 1 < s.runs.length
  · have := (h.older r run hr hlt).1
    cases he.symm.trans this
  · have := lt_of_getElem? hr
    omega

theorem Inv.crash (h : Inv s) (r : Nat) (error : String) (now : Int) : Inv (s.crash r error now) := by
  rw [State.crash]
  split
  next run hr =>
    split
    · exact h
    rename_i hn
    rw [not_or] at hn
    have he : run.ended = false := by simpa using hn.1
    have hs : s.stopped = none := by simpa using hn.2
    have hnone := h.live hs r run hr he
    have hlast := h.last_of_live hr he
    have hok := h.ok r run hr
    have hend : RunOk { run with ended := true, callback := true }.end := RunOk.end { hok with } hnone
    have hlen : (s.runs.set r { run with ended := true, callback := true }.end).length =
        s.runs.length := List.length_set
    constructor
    · intro q rn hq
      rcases getElem?_set_cases hq with ⟨_, rfl⟩ | ⟨_, hq⟩
      · exact hend
      · exact h.ok q rn hq
    · intro q rn hq hlt
      have hlt' : q + 1 < s.runs.length := hlen ▸ hlt
      rcases getElem?_set_cases hq with ⟨rfl, _⟩ | ⟨_, hq⟩
      · omega
      · exact h.older q rn hq hlt'
    · intro _ q rn hq hqn _
      have hqn' : q + 1 = s.runs.length := hlen ▸ hqn
      rcases getElem?_set_cases hq with ⟨rfl, rfl⟩ | ⟨hne, _⟩
      · exact ⟨rfl, nofun⟩
      · omega
    · intro _ q rn hq hqe
      rcases getElem?_set_cases hq with ⟨_, rfl⟩ | ⟨_, hq⟩
      · cases hqe
      · exact h.live hs q rn hq hqe
    · intro hret
      have hd := (h.retry_done hret).2.2 r run hr
      rw [he] at hd
      cases hd.1
    · intro ending live hst
      cases hs.symm.trans hst
    · intro q hst
      cases hs.symm.trans hst
    · intro hst
      cases hs.symm.trans hst
  · exact h

/-! ### Steps that only settle or go on -/

theorem Inv.settleStart (h : Inv s) (r : Nat) {outcome : Start} (hc : outcome ≠ .calling) :
    Inv (s.settleStart r outcome) := by
  rw [State.settleStart]
  split
  next run hr =>
    split
    next hp =>
      have hok := h.ok r run hr
      have hno : run.over = false := by rw [ServiceRun.over, hp]
      refine h.grow hr ?_ ⟨rfl, Iff.rfl, id, id, fun ho => ?_, id⟩
      · refine { hok with called := hc, awaits_stop := ?_, done_over := ?_ }
        · intro e he hph
          have := hok.awaits_stop e he hph
          cases hp.symm.trans this
        · intro e he hph
          have := hok.done_over e he hph
          cases hno.symm.trans this
      · cases hno.symm.trans ho
    · exact h
  · exact h

theorem Inv.settleStop (h : Inv s) (r : Nat) (threw : Option String) : Inv (s.settleStop r threw) := by
  rw [State.settleStop]
  split
  next run hr =>
    split
    next hcalled =>
      have hok := h.ok r run hr
      have hcn : run.stop ≠ .notCalled := by
        rw [hcalled]
        decide
      have hover : run.over = true → ({ run with stop := .settled threw } : ServiceRun).over = true := by
        intro ho
        rw [ServiceRun.over] at ho ⊢
        cases hst : run.start with
        | returned stoppable =>
          cases stoppable with
          | true => rfl
          | false => rw [hst] at ho; exact ho
        | rejected error => rfl
        | calling => rw [hst] at ho; exact ho
        | pending => rw [hst] at ho; exact ho
      refine h.grow hr ?_ ⟨rfl, Iff.rfl, id, id, hover, id⟩
      exact
        { hok with
          stop_called := fun _ => hok.stop_called hcn
          done_over := fun e he hph => hover (hok.done_over e he hph) }
    · exact h
  · exact h

/-- `end` has nothing more to wait for of an instance that is no more. -/
theorem Inv.done (h : Inv s) (hr : s.runs[r]? = some run) {placeholder : Bool} {phase : EndPhase}
    {result : Option Bool} (he : run.ending = some ⟨placeholder, phase, result⟩)
    (ho : run.over = true) :
    Inv (s.setRun r { run with ending := some ⟨placeholder, .done, result⟩ }) := by
  have hok := h.ok r run hr
  have hreal : placeholder = false := hok.real _ he
  refine h.grow hr ?_ ⟨rfl, ?_, ?_, id, id, ?_⟩
  · constructor
    · exact hok.called
    · intro e he'
      cases he'
      exact hreal
    · intro e _
      exact hok.aborted _ he
    · intro _
      exact ⟨_, rfl, nofun⟩
    · intro e he' hph
      cases he'
      cases hph
    · intro e _ _
      exact ho
    · intro e he' _
      cases he'
      rfl
  · rw [he]
    exact ⟨nofun, nofun⟩
  · rintro ⟨e, he', hrt⟩
    cases he.symm.trans he'
    exact ⟨_, rfl, hrt⟩
  · intro ht
    rw [ServiceRun.timedOut, he] at ht
    exact ht

theorem Inv.endAwaited (h : Inv s) (r : Nat) : Inv (s.endAwaited r) := by
  rw [State.endAwaited]
  split
  next run hr =>
    have hok := h.ok r run hr
    split
    next placeholder result he =>
      have hreal : placeholder = false := hok.real _ he
      have hab := hok.aborted _ he
      have hstop : run.stop = .notCalled := by
        by_contra hne
        obtain ⟨e, he', hph⟩ := hok.stop_called hne
        cases he.symm.trans he'
        exact hph rfl
      have hres : result ≠ some true := by
        intro hrt
        have := hok.settled_done _ he hrt
        cases this
      have hnf : ¬ Finished run := by
        rintro ⟨e, he', hrt⟩
        cases he.symm.trans he'
        exact hres hrt
      split
      next hp =>
        cases hreal.symm.trans hp
      · split
        next hst =>
          refine h.grow hr ?_ ⟨rfl, ?_, fun hf => absurd hf hnf, id, ?_, ?_⟩
          · constructor
            · exact hok.called
            · intro e he'
              cases he'
              exact hreal
            · intro e _
              exact hab
            · intro _
              exact ⟨_, rfl, nofun⟩
            · intro e _ _
              exact hst
            · intro e he' hph
              cases he'
              cases hph
            · intro e he' hrt
              cases he'
              exact absurd hrt hres
          · rw [he]
            exact ⟨nofun, nofun⟩
          · intro ho
            rw [ServiceRun.over, hst, hstop] at ho
            cases ho
          · intro ht
            rw [ServiceRun.timedOut, he] at ht
            exact ht
        next hst =>
          exact h.done hr he (by rw [ServiceRun.over, hst]; exact hab)
        next hst =>
          exact h.done hr he (by rw [ServiceRun.over, hst])
        · exact h
        · exact h
    · exact h
  · exact h

theorem Inv.reported (h : Inv s) (message : String) : Inv (s.reported message) := { h with }

theorem Inv.stopAwaited (h : Inv s) (r : Nat) : Inv (s.stopAwaited r) := by
  rw [State.stopAwaited]
  split
  next run hr =>
    split
    next placeholder result threw he hst =>
      have hstart := (h.ok r run hr).awaits_stop _ he rfl
      have hd := h.done hr he (by rw [ServiceRun.over, hstart, hst]; rfl)
      split
      · exact hd.reported _
      · exact hd
    · exact h
  · exact h

theorem Inv.endSettles (h : Inv s) (r : Nat) (timedOut : Bool) : Inv (s.endSettles r timedOut) := by
  rw [State.endSettles]
  split
  next run hr =>
    have hok := h.ok r run hr
    split
    next placeholder phase he =>
      have hreal : placeholder = false := hok.real _ he
      have hnf : ¬ Finished run := by
        rintro ⟨e, he', hrt⟩
        cases he.symm.trans he'
        cases hrt
      have hnt : run.timedOut = false := by rw [ServiceRun.timedOut, he]; rfl
      have hsettled : ∀ result, (result = some true → phase = .done) →
          Inv (s.setRun r { run with ending := some ⟨placeholder, phase, result⟩ }) := by
        intro result hres
        refine h.grow hr ?_ ⟨rfl, ?_, fun hf => absurd hf hnf, id, id, ?_⟩
        · constructor
          · exact hok.called
          · intro e he'
            cases he'
            exact hreal
          · intro e _
            exact hok.aborted _ he
          · intro hs
            obtain ⟨e, he', hph⟩ := hok.stop_called hs
            cases he.symm.trans he'
            exact ⟨_, rfl, hph⟩
          · intro e he' hph
            cases he'
            exact hok.awaits_stop _ he hph
          · intro e he' hph
            cases he'
            exact hok.done_over _ he hph
          · intro e he' hrt
            cases he'
            exact hres hrt
        · rw [he]
          exact ⟨nofun, nofun⟩
        · intro ht
          cases hnt.symm.trans ht
      split
      next hph =>
        exact hsettled (some true) fun _ => hph
      split
      · have hto := hsettled (some false) nofun
        exact { hto with }
      · exact h
    · exact h
  · exact h

theorem Inv.startHandled (h : Inv s) (r : Nat) (now : Int) : Inv (s.startHandled r now) := by
  rw [State.startHandled]
  split
  next run hr =>
    have hok := h.ok r run hr
    have hhandled : ∀ since, Inv (s.setRun r { run with handled := true, runningSince := since }) := by
      intro since
      exact h.grow hr { hok with } ⟨rfl, Iff.rfl, id, id, id, id⟩
    split
    · exact h
    split
    · split
      · exact hhandled run.runningSince
      · exact { hhandled (some now) with }
    · exact (hhandled run.runningSince).crash r _ now
    · exact h
    · exact h
  · exact h

/-! ### The end of a crash, and the host's `stop` -/

theorem Inv.crashEnded (h : Inv s) (r : Nat) (now : Int) : Inv (s.crashEnded r now) := by
  rw [State.crashEnded]
  split
  next run ended hr hended =>
    have hok := h.ok r run hr
    have hset : Inv (s.setRun r { run with callback := false }) :=
      h.grow hr { hok with } ⟨rfl, Iff.rfl, id, fun _ => rfl, id, id⟩
    split
    · exact h
    rename_i hcb
    have hcb : run.callback = true := by simpa using hcb
    have hend : run.ending.bind End.result = some ended := by
      rw [State.ended?, hr] at hended
      exact hended
    show Inv (if s.stopped.isSome then _ else _)
    split
    · exact hset
    rename_i hs
    have hs : s.stopped = none := by simpa using hs
    split
    · exact { hset with }
    rename_i hne
    have htrue : ended = true := by simpa using hne
    have hfin : Finished run := by
      obtain ⟨e, he, hres⟩ := Option.bind_eq_some_iff.mp hend
      exact ⟨e, he, hres.trans (congrArg some htrue)⟩
    have hnone : run.ending ≠ none := by
      obtain ⟨e, he, _⟩ := hfin
      rw [he]
      nofun
    have hre : run.ended = true := by
      cases hre : run.ended with
      | true => rfl
      | false => exact absurd (h.live hs r run hr hre) hnone
    exact
      { hset with
        retry_done := by
          intro _
          refine ⟨hs, ?_, ?_⟩
          · intro hnil
            have hlen := congrArg List.length hnil
            have : s.runs.length = 0 := List.length_set.symm.trans hlen
            have := lt_of_getElem? hr
            omega
          · intro q rn hq
            rcases getElem?_set_cases hq with ⟨_, rfl⟩ | ⟨hne, hq⟩
            · exact ⟨hre, hfin, rfl⟩
            refine h.older q rn hq ?_
            -- the run that crashed is the last one: those before it have no callback left
            have hlast : ¬ r + 1 < s.runs.length := by
              intro hlt
              have := (h.older r run hr hlt).2.2
              cases hcb.symm.trans this
            have := lt_of_getElem? hq
            have := lt_of_getElem? hr
            omega }
  · exact h

/-- The run the host's `stop` finds, with its record. -/
def State.lastRun (s : State) : Option (Nat × ServiceRun) := s.run.bind fun r => s.runs[r]?.map fun run => (r, run)

theorem lastRun_some (h : s.lastRun = some (r, run)) : r + 1 = s.runs.length ∧ s.runs[r]? = some run := by
  rw [State.lastRun, State.run] at h
  split at h
  · cases h
  rename_i hne
  obtain ⟨q, hq, hm⟩ := Option.bind_eq_some_iff.mp h
  obtain ⟨rn, hrn, hp⟩ := Option.map_eq_some_iff.mp hm
  cases hq
  cases hp
  have := lt_of_getElem? hrn
  exact ⟨by omega, hrn⟩

theorem lastRun_none (h : s.lastRun = none) : s.runs = [] := by
  by_contra hne
  have hlt : s.runs.length - 1 < s.runs.length := by
    have := List.length_pos_iff.mpr hne
    omega
  rw [State.lastRun, State.run, if_neg hne, Option.bind_some, List.getElem?_eq_getElem hlt] at h
  cases h

theorem Inv.stop (h : Inv s) : Inv s.stop := by
  rw [State.stop]
  split
  · exact h
  rename_i hs
  have hs : s.stopped = none := by simpa using hs
  show Inv (match s.lastRun with | some (r, run) => _ | none => _)
  split
  next r run hl =>
    obtain ⟨hlast, hr⟩ := lastRun_some hl
    have hlen : (s.runs.set r { run with ended := true }).length = s.runs.length := List.length_set
    constructor
    · intro q rn hq
      rcases getElem?_set_cases hq with ⟨_, rfl⟩ | ⟨_, hq⟩
      · exact { h.ok r run hr with }
      · exact h.ok q rn hq
    · intro q rn hq hlt
      have hlt' : q + 1 < s.runs.length := hlen ▸ hlt
      rcases getElem?_set_cases hq with ⟨rfl, _⟩ | ⟨_, hq⟩
      · omega
      · exact h.older q rn hq hlt'
    · exact nofun
    · exact nofun
    · exact nofun
    · intro ending live hst
      cases hst
      constructor
      · intro hnone q rn hq hqn
        have hqn' : q + 1 = s.runs.length := hlen ▸ hqn
        obtain rfl : q = r := by omega
        split at hnone
        next he =>
          exact (h.crashed hs q run hr hlast he).1
        · cases hnone
      · intro q hsome
        split at hsome
        · cases hsome
        rename_i he
        cases hsome
        refine ⟨hlen.symm ▸ hlast, ?_⟩
        intro rn hq
        rcases getElem?_set_cases hq with ⟨_, rfl⟩ | ⟨hne, _⟩
        · exact h.live hs r run hr (by simpa using he)
        · exact absurd rfl hne
    · exact nofun
    · exact nofun
  next hl =>
    have hnil := lastRun_none hl
    constructor
    · exact h.ok
    · exact h.older
    · exact nofun
    · exact nofun
    · exact nofun
    · intro ending live hst
      cases hst
      constructor
      · intro _ q rn hq
        have : s.runs[q]? = some rn := hq
        rw [hnil] at this
        cases this
      · exact nofun
    · exact nofun
    · exact nofun

theorem finished_of_ended (hr : s.runs[r]? = some run) (h : s.ended? r = some true) : Finished run := by
  rw [State.ended?, hr] at h
  exact Option.bind_eq_some_iff.mp h

theorem timedOut_of_ended (hr : s.runs[r]? = some run) (h : s.ended? r = some false) : run.timedOut = true := by
  rw [State.ended?, hr] at h
  exact decide_eq_true h

/-- `stop` resolves. -/
theorem Inv.resolve (h : Inv s) (hs : s.stopped ≠ none) (state : ServiceState)
    (hlast : ∀ (r : Nat) (run : ServiceRun), s.runs[r]? = some run → r + 1 = s.runs.length →
      run.over = true ∨ run.timedOut = true) :
    Inv { s with state := state, stopped := some .resolved } :=
  { ok := h.ok
    older := h.older
    crashed := by intro hst; cases hst
    live := by intro hst; cases hst
    retry_done := by intro hret; exact absurd (h.retry_done hret).1 hs
    stop_ending := by intro ending live hst; cases hst
    stop_live := by intro q hst; cases hst
    resolved := fun _ => hlast }

theorem Inv.stopGoesOn (h : Inv s) : Inv s.stopGoesOn := by
  rw [State.stopGoesOn]
  split
  next ending live hst =>
    obtain ⟨hnone, hlive⟩ := h.stop_ending ending live hst
    have hne : s.stopped ≠ none := by
      rw [hst]
      nofun
    split
    next hend =>
      split
      next r run hl =>
        obtain ⟨q, hq, hm⟩ := Option.bind_eq_some_iff.mp hl
        obtain ⟨rn, hr, hp⟩ := Option.map_eq_some_iff.mp hm
        cases hp
        obtain ⟨hlast, hno⟩ := hlive r hq
        have hlen : (s.runs.set r run.end).length = s.runs.length := List.length_set
        constructor
        · intro q rn hq
          rcases getElem?_set_cases hq with ⟨_, rfl⟩ | ⟨_, hq⟩
          · exact (h.ok r run hr).end (hno run hr)
          · exact h.ok q rn hq
        · intro q rn hq hlt
          have hlt' : q + 1 < s.runs.length := hlen ▸ hlt
          rcases getElem?_set_cases hq with ⟨rfl, _⟩ | ⟨_, hq⟩
          · omega
          · exact h.older q rn hq hlt'
        · exact nofun
        · exact nofun
        · intro hret
          exact absurd (h.retry_done hret).1 hne
        · exact nofun
        · intro q hs
          cases hs
          exact hlen.symm ▸ hlast
        · exact nofun
      next hl =>
        refine h.resolve hne s.state ?_
        intro r run hr hlast
        have hlnone : live = none := by
          cases live with
          | none => rfl
          | some q =>
            obtain rfl : q = r := by
              have := (hlive q rfl).1
              omega
            rw [Option.bind_some, hr] at hl
            cases hl
        rw [hnone hlnone r run hr hlast] at hend
        exact .inl ((h.ok r run hr).over (finished_of_ended hr hend))
    next hend =>
      refine h.resolve hne .failed ?_
      intro r run hr hlast
      cases ending with
      | none => cases hend
      | some q =>
        have hend' : s.ended? q = some false := hend
        cases hq : s.runs[q]? with
        | none =>
          rw [State.ended?, hq] at hend'
          cases hend'
        | some rn =>
          have hto := timedOut_of_ended hq hend'
          obtain rfl : q = r := by
            have := h.separate.none_again q rn hq hto
            omega
          cases hq.symm.trans hr
          exact .inr hto
    · exact h
  next q hst =>
    have hlast := h.stop_live q hst
    have hne : s.stopped ≠ none := by
      rw [hst]
      nofun
    split
    next hend =>
      refine h.resolve hne s.state ?_
      intro r run hr hrn
      obtain rfl : q = r := by omega
      exact .inl ((h.ok q run hr).over (finished_of_ended hr hend))
    next hend =>
      refine h.resolve hne .failed ?_
      intro r run hr hrn
      obtain rfl : q = r := by omega
      exact .inr (timedOut_of_ended hr hend)
    · exact h
  · exact h

/-! ## Runs -/

theorem Inv.kept (h : Inv s) (e : Event) (he : FailsAfterStart e) : Inv (step s e) := by
  cases e with
  | start fails now =>
    cases he
    exact h.start now
  | startReturns r stoppable => exact h.settleStart r nofun
  | startRejects r error => exact h.settleStart r nofun
  | startHandled r now => exact h.startHandled r now
  | fail r error now => exact h.crash r error now
  | endAwaited r => exact h.endAwaited r
  | stopSettles r threw => exact h.settleStop r threw
  | stopAwaited r => exact h.stopAwaited r
  | endSettles r timedOut => exact h.endSettles r timedOut
  | crashEnded r now => exact h.crashEnded r now
  | retryFires fails now =>
    cases he
    exact h.retryFires now
  | stop => exact h.stop
  | stopGoesOn => exact h.stopGoesOn

/-- While no service calls `fail` from within the call of its `start`, instances never overlap, however
starts, crashes, restarts and the host's stop fall. -/
theorem separate_of_fails_after_start (name : String) (es : List Event)
    (hes : Run.Along step (fun _ => FailsAfterStart) (.init name) es) :
    Separate (Run.exec step (.init name) es) :=
  (Run.Along.invariant Inv (fun _ e he h => h.kept e he) (Inv.init name) hes).separate

def restarted : List Event :=
  [.start none 0, .startReturns 0 true, .startHandled 0 0, .fail 0 "lost the queue" 5, .endAwaited 0,
    .stopSettles 0 none, .stopAwaited 0, .endSettles 0 false, .crashEnded 0 6, .retryFires none 1006]

theorem restarted_separate : Separate (Run.exec step (.init "poll") restarted) :=
  separate_of_fails_after_start "poll" restarted (by decide)

/-- A service whose `start` calls `fail` and goes on: nothing stops the instance it gives. -/
def failedInside : List Event :=
  [.start (some "lost the queue") 0, .startReturns 0 true, .startHandled 0 0, .endAwaited 0,
    .endSettles 0 false, .crashEnded 0 1, .retryFires none 1001]

theorem failedInside_overlaps : ¬ Separate (Run.exec step (.init "poll") failedInside) := by
  intro h
  have hrun : (Run.exec step (.init "poll") failedInside).runs[0]?.map ServiceRun.over = some false := by decide
  obtain ⟨run, hr, ho⟩ := Option.map_eq_some_iff.mp hrun
  have := h.one 0 run hr (by decide)
  cases ho.symm.trans this

end Reins.ExtensionServices
