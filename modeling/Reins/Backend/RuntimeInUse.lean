import Reins.Backend.LiveSessions
import Reins.Backend.PiRuntime

/-!
# A runtime in use (`process-state.ts`, `pi-runtime.ts`, `models/sessions.ts`)

A session's live runtimes (`LiveSessions.Session`) with what each does (`PiRuntime.Runtime`), over the one
lane its storage holds. Who opens a runtime for a call makes the call as it gets the runtime. The sweep and
a retirement ask a runtime `isStreaming` and nothing else: what a submission does before and after
`trackAdmission` does not stream. Submissions may overlap here, which their chain does not let them.
-/

namespace Reins.RuntimeInUse

open LiveSessions PiRuntime Places List

/-! ## Admissions of a runtime -/

def Tracked (r : Runtime) : Prop := ∀ i, r.pendingAdmissions.count i = (r.calls[i]?).elim 0 Call.frames

section

variable {r r' : Runtime} {s : PiRuntime.State} {call call' : Call} {i : CallId}

theorem Tracked.same (h : Tracked r) (hcalls : r'.calls = r.calls)
    (hadmissions : r'.pendingAdmissions = r.pendingAdmissions) : Tracked r' := by
  intro i
  rw [hcalls, hadmissions]
  exact h i

theorem noteBusy_calls (r : Runtime) : r.noteBusy.calls = r.calls := by
  unfold Runtime.noteBusy
  split
  · rfl
  · split <;> rfl

theorem noteBusy_pendingAdmissions (r : Runtime) : r.noteBusy.pendingAdmissions = r.pendingAdmissions := by
  unfold Runtime.noteBusy
  split
  · rfl
  · split <;> rfl

theorem Tracked.noteBusy (h : Tracked r) : Tracked r.noteBusy :=
  h.same (noteBusy_calls r) (noteBusy_pendingAdmissions r)

theorem start_calls (r : Runtime) (start : Start) : (r.start start).calls = r.calls := by
  cases start with
  | resume op => exact noteBusy_calls _
  | drive op => exact noteBusy_calls _

theorem start_pendingAdmissions (r : Runtime) (start : Start) :
    (r.start start).pendingAdmissions = r.pendingAdmissions := by
  cases start with
  | resume op => exact noteBusy_pendingAdmissions _
  | drive op => exact noteBusy_pendingAdmissions _

def Call.acted (call : Call) (act : Act) : Call :=
  { call with
    phase := act.phase
    answer := none
    frames := if act.enter then call.frames + 1 else call.frames
    registered := call.registered || act.register }

theorem perform_calls (r : Runtime) (i : CallId) (call : Call) (act : Act) :
    (r.perform i call act).calls = r.calls.set i (Call.acted call act) := by
  have hstart : ∀ r' : Runtime, (act.start.elim r' r'.start).calls = r'.calls := by
    intro r'
    cases act.start with
    | none => rfl
    | some start => exact start_calls r' start
  have hidle : ∀ r' : Runtime, (if act.idleStart then r'.startIdle else r').calls = r'.calls := by
    intro r'
    split
    · exact noteBusy_calls _
    · rfl
  have henter : ∀ r' : Runtime, (if act.enter then r'.enterAdmission i else r').calls = r'.calls := by
    intro r'
    split
    · exact noteBusy_calls _
    · rfl
  unfold Runtime.perform
  rw [henter, hidle, hstart]
  split <;> rfl

theorem perform_pendingAdmissions (r : Runtime) (i : CallId) (call : Call) (act : Act) :
    (r.perform i call act).pendingAdmissions
      = if act.enter then r.pendingAdmissions ++ [i] else r.pendingAdmissions := by
  have hstart : ∀ r' : Runtime, (act.start.elim r' r'.start).pendingAdmissions = r'.pendingAdmissions := by
    intro r'
    cases act.start with
    | none => rfl
    | some start => exact start_pendingAdmissions r' start
  have hidle : ∀ r' : Runtime,
      (if act.idleStart then r'.startIdle else r').pendingAdmissions = r'.pendingAdmissions := by
    intro r'
    split
    · exact noteBusy_pendingAdmissions _
    · rfl
  have henter : ∀ r' : Runtime, (if act.enter then r'.enterAdmission i else r').pendingAdmissions
      = if act.enter then r'.pendingAdmissions ++ [i] else r'.pendingAdmissions := by
    intro r'
    split
    · exact noteBusy_pendingAdmissions _
    · rfl
  unfold Runtime.perform
  rw [henter, hidle, hstart]
  split <;> split <;> rfl

theorem frames_set (hcall : r.calls[i]? = some call) (call' : Call) (j : CallId) :
    ((r.calls.set i call')[j]?).elim 0 Call.frames
      = if i = j then call'.frames else (r.calls[j]?).elim 0 Call.frames := by
  rw [getElem?_set, if_pos (lt_of_getElem? hcall)]
  split <;> rfl

theorem frames_append (calls : List Call) (call : Call) (j : CallId) : ((calls ++ [call])[j]?).elim 0 Call.frames
      = (calls[j]?).elim 0 Call.frames + if calls.length = j then call.frames else 0 := by
  rcases Nat.lt_trichotomy j calls.length with hlt | rfl | hgt
  · rw [getElem?_append_left hlt, if_neg (Nat.ne_of_gt hlt), Nat.add_zero]
  · rw [getElem?_concat_length, getElem?_eq_none (Nat.le_refl _), if_pos rfl]
    exact (Nat.zero_add _).symm
  · have hout : (calls ++ [call])[j]? = none := by
      apply getElem?_eq_none
      rw [length_append, length_singleton]
      exact hgt
    rw [hout, getElem?_eq_none (Nat.le_of_lt hgt), if_neg (Nat.ne_of_lt hgt)]
    rfl

theorem Tracked.setCall (h : Tracked r) (hcall : r.calls[i]? = some call)
    (hframes : call'.frames = call.frames) : Tracked (r.setCall i call') := by
  intro j
  show r.pendingAdmissions.count j = ((r.calls.set i call')[j]?).elim 0 Call.frames
  rw [frames_set hcall, h j]
  split
  next heq =>
    rw [← heq, hcall, hframes, Option.elim_some]
  · rfl

/-- A call that enters `trackAdmission` is one admission more. -/
theorem Tracked.perform (h : Tracked r) (hcall : r.calls[i]? = some call) (act : Act) :
    Tracked (r.perform i call act) := by
  intro j
  -- both sides change at this call's place only
  rw [perform_calls, perform_pendingAdmissions, frames_set hcall]
  have hj := h j
  unfold Call.acted
  split
  · rw [count_append, count_singleton, hj]
    by_cases heq : i = j
    · rw [← heq, hcall, if_pos rfl, if_pos (beq_self_eq_true i)]
      rfl
    · rw [if_neg heq, if_neg (by simpa using heq)]
      rfl
  · rw [hj]
    by_cases heq : i = j
    · rw [← heq, hcall, if_pos rfl]
      rfl
    · rw [if_neg heq]

theorem Tracked.leave (h : Tracked r) (hcall : r.calls[i]? = some call) : Tracked (r.leave i call) := by
  unfold Runtime.leave
  cases hframes : call.frames with
  | succ frames =>
    apply Tracked.noteBusy
    intro j
    show (r.pendingAdmissions.erase i).count j = ((r.calls.set i { call with frames })[j]?).elim 0 _
    rw [frames_set hcall, count_erase, h j]
    by_cases heq : i = j
    · rw [← heq, hcall, if_pos rfl, if_pos (beq_self_eq_true i), Option.elim_some, hframes]
      rfl
    · rw [if_neg heq, if_neg (by simpa using heq)]
      rfl
  | zero =>
    have hdone : Tracked (r.setCall i { call with phase := .done, frames := 0, registered := false }) :=
      h.setCall hcall hframes.symm
    dsimp only
    split
    · exact hdone.same rfl rfl
    · exact hdone

/-- A new call, in `trackAdmission` from its first line or not. -/
theorem Tracked.addCall (h : Tracked r) (hframes : call.frames = 0) :
    Tracked { r with calls := r.calls ++ [call] } := by
  intro j
  show r.pendingAdmissions.count j = ((r.calls ++ [call])[j]?).elim 0 Call.frames
  rw [frames_append, hframes, ite_self, Nat.add_zero]
  exact h j

theorem Tracked.addAdmission (h : Tracked r) (hframes : call.frames = 1) :
    Tracked (Runtime.enterAdmission { r with calls := r.calls ++ [call] } r.calls.length) := by
  apply Tracked.noteBusy
  intro j
  show (r.pendingAdmissions ++ [r.calls.length]).count j = ((r.calls ++ [call])[j]?).elim 0 Call.frames
  rw [count_append, count_singleton, h j, frames_append, hframes]
  simp

theorem Tracked.newCall (h : Tracked r) (op : Op) (reinsId : ReinsId) : Tracked (r.call op reinsId) := by
  cases op with
  | prompt | steer => exact h.addCall rfl
  | resume => exact h.addAdmission rfl
  | compact =>
    show Tracked (if _ then _ else _)
    split
    · exact h
    · exact h.addAdmission rfl

theorem Tracked.proceed (h : Tracked r) (i : CallId) : Tracked (r.proceed i) := by
  unfold Runtime.proceed
  cases hcall : r.calls[i]? with
  | none => exact h
  | some call =>
    dsimp only
    split
    · exact h.leave hcall
    cases r.next call with
    | none => exact h
    | some act => exact h.perform hcall act

theorem Tracked.proceedStart (h : Tracked r) (i : Nat) : Tracked (r.proceedStart i) := by
  unfold Runtime.proceedStart
  split
  · exact h.same rfl rfl
  · exact h.same rfl rfl
  · exact Tracked.noteBusy (h.same rfl rfl)
  · exact h.same rfl rfl
  · exact Tracked.noteBusy (h.same rfl rfl)
  · exact h

theorem Tracked.step (h : Tracked s.runtime) (e : PiRuntime.Event) : Tracked (PiRuntime.step s e).runtime := by
  cases e with
  | prompt reinsId => exact h.newCall .prompt reinsId
  | steer reinsId => exact h.newCall .steer reinsId
  | resume => exact h.newCall .resume ""
  | compact => exact h.newCall .compact ""
  | serve i pick =>
    show Tracked (s.serve i pick).runtime
    unfold State.serve
    cases hcall : s.runtime.calls[i]? with
    | none => exact h
    | some call =>
      dsimp only
      split
      · exact h.setCall hcall rfl
      · exact h
  | fail i =>
    show Tracked (s.runtime.fail i)
    unfold Runtime.fail
    cases hcall : s.runtime.calls[i]? with
    | none => exact h
    | some call =>
      dsimp only
      split
      · exact h.setCall hcall rfl
      · exact h
  | proceed i => exact h.proceed i
  | serveStart i pick =>
    show Tracked (s.serveStart i pick).runtime
    unfold State.serveStart
    split
    · exact h.same rfl rfl
    · exact h
  | failStart i =>
    show Tracked (s.runtime.failStart i)
    unfold Runtime.failStart
    split
    · exact h.same rfl rfl
    · exact h.same rfl rfl
    · exact h
  | proceedStart i => exact h.proceedStart i
  | driveSettled i =>
    show Tracked (s.runtime.driveSettled i)
    unfold Runtime.driveSettled
    split
    · exact h
    · exact Tracked.noteBusy (h.same rfl rfl)
  | runEnd | endApplied => exact Tracked.noteBusy (h.same rfl rfl)
  | whenIdle =>
    show Tracked s.runtime.whenIdle
    unfold Runtime.whenIdle
    split
    · exact h.same rfl rfl
    · exact h.same rfl rfl
  | capture | terminal | discard => exact h

theorem Tracked.init (openOperations : List OpenOperation) : Tracked (.init openOperations) := fun _ => rfl

theorem Tracked.frames (h : Tracked r) (hidle : r.isStreaming = false) (hcall : call ∈ r.calls) : call.frames = 0 := by
  have hnone : r.pendingAdmissions = [] := by
    by_contra hsome
    rw [Runtime.isStreaming, decide_eq_true hsome] at hidle
    cases hidle
  obtain ⟨i, hi⟩ := mem_iff_getElem?.mp hcall
  have hcount := h i
  rw [hnone, hi, count_nil, Option.elim_some] at hcount
  exact hcount.symm

theorem activeOperations_of_idle (hidle : r.isStreaming = false) : r.activeOperations = [] := by
  by_contra hsome
  rw [streaming_of_active hsome] at hidle
  cases hidle

end

/-! ## The session's runtimes -/

structure Use where
  caller : CallerId
  op : Op
  reinsId : ReinsId
  deriving DecidableEq

structure State where
  session : Session
  lane : Lane
  runtimes : RuntimeId → Runtime
  uses : List Use
  /-- The runs that submissions started, with the runtime that drives each. -/
  runs : List (RuntimeId × OperationId)

def State.init (lane : Lane) (openOperations : RuntimeId → List OpenOperation) : State :=
  { session := .init, lane, runtimes := fun r => .init (openOperations r), uses := [], runs := [] }

def State.current (s : State) : Session := { s.session with isStreaming := fun r => (s.runtimes r).isStreaming }

inductive Event
  /-- `withSessionRuntime`, for a call. -/
  | use (op : Op) (reinsId : ReinsId) (binding : String) (now : Nat)
  | session (e : LiveSessions.Event)
  | runtime (r : RuntimeId) (e : PiRuntime.Event)

def State.begin (s : State) (c : CallerId) : State :=
  match s.session.callers[c]?, s.uses.find? fun u => u.caller = c with
  | some (.got r _), some u =>
    { s with
      runtimes := Function.update s.runtimes r ((s.runtimes r).call u.op u.reinsId)
      uses := s.uses.filter fun u => u.caller ≠ c }
  | _, _ => s

def Op.isSubmission : Op → Bool
  | .prompt | .steer => true
  | .resume | .compact => false

def submittedRun (r : Runtime) : PiRuntime.Event → Option OperationId
  | .proceed i => if (r.calls[i]?).any fun call => Op.isSubmission call.op then r.toDrive (.proceed i) else none
  | .proceedStart i => r.toDrive (.proceedStart i)
  | _ => none

def State.advance (s : State) (r : RuntimeId) (e : PiRuntime.Event) : State :=
  let next := PiRuntime.step ⟨s.lane, s.runtimes r⟩ e
  { s with
    lane := next.lane
    runtimes := Function.update s.runtimes r next.runtime
    runs := s.runs ++ ((submittedRun (s.runtimes r) e).map fun op => (r, op)).toList }

def step (idleMs : Nat) (s : State) : Event → State
  | .use op reinsId binding now =>
    { s with
      session := s.current.step idleMs (.open binding now)
      uses := s.uses ++ [⟨s.session.callers.length, op, reinsId⟩] }
  -- the call begins where the caller goes on, nothing in between
  | .session (.deliver c) => State.begin { s with session := s.current.step idleMs (.deliver c) } c
  | .session e => { s with session := s.current.step idleMs e }
  | .runtime r e => s.advance r e

/-! ## In use -/

def State.InUse (s : State) (r : RuntimeId) : Prop :=
  (∃ call ∈ (s.runtimes r).calls, Op.isSubmission call.op = true ∧ call.phase ≠ .done) ∨
    ∃ d ∈ (s.runtimes r).drives, d.refused = false ∧ (r, d.op) ∈ s.runs

def State.closes (idleMs : Nat) (s : State) : Event → Option RuntimeId
  | .session (.sweep now) => if s.current.sweeps idleMs now then s.session.live.map OpenSession.runtime else none
  | .session .retire => if s.current.retires then s.session.live.map OpenSession.runtime else none
  | _ => none

def NotClosedInUse (idleMs : Nat) (s : State) (e : Event) : Prop := ∀ r ∈ s.closes idleMs e, ¬ s.InUse r

/-- On the runtime that the sweep or a retirement closes, every submission that has not settled is in
`trackAdmission`, and every run of a submission that is driven is in the table of active operations. -/
def AllTracked (idleMs : Nat) (s : State) (e : Event) : Prop :=
  ∀ r ∈ s.closes idleMs e, (∀ call ∈ (s.runtimes r).calls, Op.isSubmission call.op = true → call.phase ≠ .done →
      call.frames ≠ 0) ∧
    ∀ d ∈ (s.runtimes r).drives, d.refused = false → (r, d.op) ∈ s.runs → d.op ∈ (s.runtimes r).activeOperations

section

variable {idleMs : Nat} {s : State} {r : RuntimeId}

theorem idle_of_sweeps {s : Session} {now : Nat} {e : OpenSession} (h : s.sweeps idleMs now = true)
    (he : s.live = some e) : s.isStreaming e.runtime = false := by
  unfold Session.sweeps at h
  rw [he, Option.any_some, Bool.and_eq_true, Bool.and_eq_true] at h
  simpa using h.1.2

theorem idle_of_retires {s : Session} {e : OpenSession} (h : s.retires = true)
    (he : s.live = some e) : s.isStreaming e.runtime = false := by
  unfold Session.retires at h
  rw [he, Option.any_some] at h
  simpa using h

theorem idle_of_closes {e : Event} (hr : r ∈ s.closes idleMs e) : (s.runtimes r).isStreaming = false := by
  cases e with
  | use op reinsId binding now => cases hr
  | runtime r' e => cases hr
  | session e =>
    cases e with
    | sweep now =>
      have hclosed : r ∈ if s.current.sweeps idleMs now then s.session.live.map OpenSession.runtime
        else none := hr
      split at hclosed
      next hsweeps =>
        obtain ⟨e, he, rfl⟩ := Option.map_eq_some_iff.mp hclosed
        exact idle_of_sweeps hsweeps he
      · cases hclosed
    | retire =>
      have hclosed : r ∈ if s.current.retires then s.session.live.map OpenSession.runtime
        else none := hr
      split at hclosed
      next hretires =>
        obtain ⟨e, he, rfl⟩ := Option.map_eq_some_iff.mp hclosed
        exact idle_of_retires hretires he
      · cases hclosed
    | _ => cases hr

theorem notClosedInUse_iff_allTracked (h : ∀ r, Tracked (s.runtimes r)) (e : Event) :
    NotClosedInUse idleMs s e ↔ AllTracked idleMs s e := by
  apply forall₂_congr
  intro r hr
  -- idle: no admission is pending and no operation is active
  have hidle := idle_of_closes hr
  constructor
  · intro hunused
    constructor
    · intro call hcall hsubmission hphase
      exact absurd (.inl ⟨call, hcall, hsubmission, hphase⟩) hunused
    · intro d hd hrunning hrun
      exact absurd (.inr ⟨d, hd, hrunning, hrun⟩) hunused
  · rintro ⟨hcalls, hdrives⟩ (⟨call, hcall, hsubmission, hphase⟩ | ⟨d, hd, hrunning, hrun⟩)
    · exact hcalls call hcall hsubmission hphase ((h r).frames hidle hcall)
    have hin := hdrives d hd hrunning hrun
    rw [activeOperations_of_idle hidle] at hin
    cases hin

theorem tracked_update {runtimes : RuntimeId → Runtime} (h : ∀ r, Tracked (runtimes r))
    {runtime : Runtime} (hr : Tracked runtime) (r' : RuntimeId) :
    Tracked (Function.update runtimes r runtime r') := by
  by_cases heq : r' = r
  · rw [heq, Function.update_self]
    exact hr
  · rw [Function.update_of_ne heq]
    exact h r'

theorem tracked_begin (h : ∀ r, Tracked (s.runtimes r)) (c : CallerId) (r : RuntimeId) :
    Tracked ((s.begin c).runtimes r) := by
  unfold State.begin
  split
  · exact tracked_update h ((h _).newCall _ _) r
  · exact h r

theorem tracked_step (h : ∀ r, Tracked (s.runtimes r)) (e : Event) (r : RuntimeId) :
    Tracked ((step idleMs s e).runtimes r) := by
  cases e with
  | use op reinsId binding now => exact h r
  | runtime r' e => exact tracked_update h (Tracked.step (s := ⟨s.lane, s.runtimes r'⟩) (h r') e) r
  | session e =>
    cases e with
    | deliver c =>
      have hs : ∀ r, Tracked (State.runtimes { s with session := s.current.step idleMs (.deliver c) } r) := h
      exact tracked_begin hs c r
    | _ => exact h r

end

/-- **The sweep and retirements spare a runtime in use** in exactly the runs in which they find everything
that uses the runtime tracked. -/
theorem inUse_spared_iff (idleMs : Nat) (lane : Lane) (openOperations : RuntimeId → List OpenOperation)
    (es : List Event) :
    Run.Along (step idleMs) (NotClosedInUse idleMs) (.init lane openOperations) es ↔
      Run.Along (step idleMs) (AllTracked idleMs) (.init lane openOperations) es :=
  Run.along_congr_of (fun s => ∀ r, Tracked (s.runtimes r)) (fun _ e h => tracked_step h e)
    (fun _ e h => notClosedInUse_iff_allTracked h e) (fun r => Tracked.init (openOperations r)) es

/-- A prompt gets a runtime that was opened for it and begins to expand what it sends. -/
def expanding : List Event :=
  [.use .prompt "input" "a" 0, .session (.built 0 false 0), .session (.openingDone 0), .session (.deliver 0)]

theorem retire_closes_while_expanding : ¬ Run.Along (step 10) (NotClosedInUse 10) (.init ⟨none, [], [], []⟩ fun _ => [])
      (expanding ++ [.session .retire]) := by
  intro h
  have hclosed := h.2.2.2.2.1 0 rfl
  apply hclosed
  exact .inl ⟨.new .prompt "input" .expanding 0, by decide, rfl, by decide⟩

end Reins.RuntimeInUse
