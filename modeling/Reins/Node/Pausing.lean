import Reins.Lib.Places
import Reins.NodeProtocol.NodeError

/-!
# Pausing a node (`node/src/node.ts`)

`pause` raises the node's one flag and waits until no command is running or has output to send. The
calls of `pause` that wait at one time share the flag: each is a member of `pauses`, up to what it
answered. Of a command only what `busy` reads is here.
-/

open Utf Schema Places Run

namespace Reins.Pausing

open Rpc (NodeErrorCode)

structure Command where
  command : JsString
  exited : Bool
  consumer : Bool

structure Pause where
  deadline : Int
  force : Bool
  /-- `{ paused, blocking }`, once the call has answered. -/
  answer : Option (Bool × List JsString)

/-- It waits for running commands, or has answered that the node is paused: nothing releases it. -/
def Pause.holds (p : Pause) : Bool :=
  match p.answer with
  | none => true
  | some (paused, _) => paused

structure State where
  running : Bool
  pausing : Bool
  reloading : Option Nat
  /-- The calls of `reloader.restart`. -/
  restarts : Nat
  execs : List (JsString × Command)
  pauses : List Pause

def State.init : State :=
  { running := true, pausing := false, reloading := none, restarts := 0, execs := [], pauses := [] }

inductive Refusal
  | stopped (message : JsString)
  | rejected (code : NodeErrorCode) (message : JsString) (retryable : Bool)

/-- `busy`: the commands a pause waits for. -/
def State.busy (s : State) : List JsString :=
  (s.execs.filter fun (_, exec) => !exec.exited || exec.consumer).map fun (execId, exec) =>
    js "exec " ++ execId ++ js ": " ++ exec.command.take 100

def State.piExec (s : State) (execId command : JsString) : Except Refusal State :=
  if !s.running then .error (.stopped (js "Node stopped"))
  else if s.pausing then
    .error (.rejected .unavailable (js "The node is pausing to restart: the command was not started") true)
  else if (s.execs.lookup execId).isSome then
    .error (.rejected .invalid_request (js "Command already started: " ++ execId) false)
  else .ok { s with execs := s.execs ++ [(execId, ⟨command, false, false⟩)] }

def State.answer (s : State) (i : Nat) (p : Pause) (paused : Bool) (blocking : List JsString) :
    State :=
  { s with pauses := s.pauses.set i { p with answer := some (paused, blocking) } }

/-- One turn of the loop of `pause`. -/
def State.poll (s : State) (i : Nat) (now : Int) : State :=
  match s.pauses[i]? with
  | some p =>
    if p.answer ≠ none then s
    else if s.busy = [] then s.answer i p true []
    else if now ≥ p.deadline then
      { s with pausing := if p.force then s.pausing else false }.answer i p p.force s.busy
    else s
  | none => s

/-- What a call of `pause` does before the first turn of its loop. -/
def State.beginPause (s : State) (timeoutMs : Nat) (force : Bool) (now : Int) : State :=
  { s with pausing := true, pauses := s.pauses ++ [⟨now + timeoutMs, force, none⟩] }

def State.pause (s : State) (timeoutMs : Nat) (force : Bool) (now now' : Int) : State :=
  (s.beginPause timeoutMs force now).poll s.pauses.length now'

/-- `reload`, from where its new code has been checked. -/
def State.reload (s : State) (timeoutMs : Nat) (force : Bool) (now now' : Int) : State :=
  if s.reloading.isSome then s
  else { s with reloading := some s.pauses.length }.pause timeoutMs force now now'

def State.reloadEnds (s : State) : State :=
  match s.reloading.bind (s.pauses[·]?) with
  | some p =>
    match p.answer with
    | some (true, _) => { s with restarts := s.restarts + 1 }
    | some (false, _) => { s with reloading := none }
    | none => s
  | none => s

def State.shutdown (s : State) : State := { s with running := false, execs := [] }

def State.onExec (s : State) (execId : JsString) (f : Command → Command) : State :=
  { s with execs := s.execs.map fun x => if x.1 = execId then (x.1, f x.2) else x }

/-- A command no stream has been open to for its grace period is killed and forgotten. -/
def State.graceEnds (s : State) (execId : JsString) : State :=
  { s with execs := s.execs.filter fun x => x.1 ≠ execId || x.2.consumer }

inductive Event
  | piExec (execId command : JsString)
  | exited (execId : JsString)
  | streamOpens (execId : JsString)
  | streamEnds (execId : JsString)
  | graceEnds (execId : JsString)
  | pause (timeoutMs : Nat) (force : Bool) (now now' : Int)
  | poll (pause : Nat) (now : Int)
  | reload (timeoutMs : Nat) (force : Bool) (now now' : Int)
  | reloadEnds
  | shutdown

def step (s : State) : Event → State
  | .piExec execId command =>
    match s.piExec execId command with
    | .ok s' => s'
    | .error _ => s
  | .exited execId => s.onExec execId fun exec => { exec with exited := true }
  | .streamOpens execId => s.onExec execId fun exec => { exec with consumer := true }
  | .streamEnds execId => s.onExec execId fun exec => { exec with consumer := false }
  | .graceEnds execId => s.graceEnds execId
  | .pause timeoutMs force now now' => s.pause timeoutMs force now now'
  | .poll i now => s.poll i now
  | .reload timeoutMs force now now' => s.reload timeoutMs force now now'
  | .reloadEnds => s.reloadEnds
  | .shutdown => s.shutdown

/-! ## What is asked of it -/

/-- Some pause is still waiting, or has answered that the node is paused. -/
def State.holding (s : State) : Bool := s.pauses.any Pause.holds

structure Sound (s : State) : Prop where
  starts_nothing : s.holding = true → ∀ execId command, ∃ refusal, s.piExec execId command = .error refusal
  starts_again : s.holding = false → s.running = true → ∀ execId command,
    s.execs.lookup execId = none → ∃ s', s.piExec execId command = .ok s'

/-- The pause gives up, and lets commands start. -/
def State.timesOut (s : State) (i : Nat) (now : Int) : Bool :=
  match s.pauses[i]? with
  | some p => p.answer.isNone && !p.force && !s.busy.isEmpty && decide (now ≥ p.deadline)
  | none => false

def State.Alone (s : State) (i : Nat) (now : Int) : Prop :=
  s.running = true → s.timesOut i now = true → (s.pauses.eraseIdx i).any Pause.holds = false

instance (s : State) (i : Nat) (now : Int) : Decidable (s.Alone i now) :=
  inferInstanceAs (Decidable (_ → _ → _))

/-- No pause gives up while another holds the node. -/
def Separate (s : State) : Event → Prop
  | .poll i now => s.Alone i now
  | .pause timeoutMs force now now' => (s.beginPause timeoutMs force now).Alone s.pauses.length now'
  | .reload timeoutMs force now now' =>
    s.reloading = none → (s.beginPause timeoutMs force now).Alone s.pauses.length now'
  | _ => True

instance (s : State) (e : Event) : Decidable (Separate s e) := by
  cases e <;> unfold Separate <;> infer_instance

/-! ## The flag and the pauses -/

/-- While the node runs its flag is up exactly while some pause holds it. -/
def Agreed (s : State) : Prop := s.running = true → s.pausing = s.holding

instance (s : State) : Decidable (Agreed s) := inferInstanceAs (Decidable (_ → _))

theorem exists_fresh (execs : List (JsString × Command)) : ∃ execId, execs.lookup execId = none := by
  obtain ⟨execId, h⟩ := Infinite.exists_notMem_finset (execs.map Prod.fst).toFinset
  refine ⟨execId, List.lookup_eq_none_iff.mpr ?_⟩
  intro x hx
  have hne : execId ≠ x.1 := fun he => h (List.mem_toFinset.mpr (he ▸ List.mem_map_of_mem hx))
  simpa using hne

theorem sound_iff (s : State) : Sound s ↔ Agreed s := by
  constructor
  · intro h hr
    obtain ⟨execId, hf⟩ := exists_fresh s.execs
    cases hh : s.holding with
    | true =>
      obtain ⟨refusal, he⟩ := h.starts_nothing hh execId []
      cases hp : s.pausing with
      | true => rfl
      | false => simp [State.piExec, hr, hp, hf] at he
    | false =>
      obtain ⟨s', he⟩ := h.starts_again hh hr execId [] hf
      cases hp : s.pausing with
      | true => simp [State.piExec, hr, hp] at he
      | false => rfl
  · intro h
    constructor
    · intro hh execId command
      cases hr : s.running with
      | true => exact ⟨_, by rw [State.piExec, hr, h hr, hh]; rfl⟩
      | false => exact ⟨_, by rw [State.piExec, hr]; rfl⟩
    · intro hh hr execId command hf
      exact ⟨_, by rw [State.piExec, hr, h hr, hh, hf]; rfl⟩

variable {s : State}

theorem step_piExec (s : State) (execId command : JsString) : (step s (.piExec execId command)).running = s.running ∧
      (step s (.piExec execId command)).pausing = s.pausing ∧
      (step s (.piExec execId command)).pauses = s.pauses := by
  rw [step, State.piExec]
  split
  next s' hs =>
    split at hs
    · cases hs
    split at hs
    · cases hs
    split at hs
    · cases hs
    · cases hs
      exact ⟨rfl, rfl, rfl⟩
  · exact ⟨rfl, rfl, rfl⟩

/-- A step that touches neither the flag nor the pauses keeps what they agree on. -/
theorem Agreed.same {s' : State} (h : Agreed s) (hr : s'.running = s.running)
    (hp : s'.pausing = s.pausing) (hs : s'.pauses = s.pauses) : Agreed s' := by
  intro hrun
  rw [hr] at hrun
  rw [hp, State.holding, hs]
  exact h hrun

theorem holding_answer {i : Nat} {p : Pause} (hp : s.pauses[i]? = some p) (paused : Bool) (blocking : List JsString) :
    (s.answer i p paused blocking).holding = (paused || (s.pauses.eraseIdx i).any Pause.holds) :=
  any_set Pause.holds hp _

theorem holding_of_waiting {i : Nat} {p : Pause} (hp : s.pauses[i]? = some p)
    (hw : p.answer = none) : s.holding = true := by
  rw [State.holding, any_of_getElem? Pause.holds hp, Pause.holds, hw, Bool.true_or]

/-- What a turn of a pause's loop does: nothing, an answer that the node is paused, or giving up. -/
theorem poll_cases (s : State) (i : Nat) (now : Int) : (s.timesOut i now = false ∧ s.poll i now = s) ∨
    (∃ p blocking, s.pauses[i]? = some p ∧ p.answer = none ∧ s.timesOut i now = false ∧
      s.poll i now = s.answer i p true blocking) ∨
    (∃ p, s.pauses[i]? = some p ∧ s.timesOut i now = true ∧
      s.poll i now = { s with pausing := false }.answer i p false s.busy) := by
  cases hp : s.pauses[i]? with
  | none =>
    left
    rw [State.timesOut, State.poll, hp]
    exact ⟨rfl, rfl⟩
  | some p =>
    rw [State.timesOut, State.poll, hp]
    cases ha : p.answer with
    | some a => exact .inl ⟨by simp [ha], if_pos (by simp [ha])⟩
    | none =>
      by_cases hb : s.busy = []
      · exact .inr (.inl ⟨p, [], rfl, ha, by simp [hb], by simp [ha, hb]⟩)
      by_cases hd : now ≥ p.deadline
      · cases hf : p.force with
        | true => exact .inr (.inl ⟨p, s.busy, rfl, ha, by simp [hf], by simp [ha, hb, hd, hf]⟩)
        | false => exact .inr (.inr ⟨p, rfl, by simp [ha, hb, hd, hf], by simp [ha, hb, hd, hf]⟩)
      · exact .inl ⟨by simp [hd], by simp [ha, hb, hd]⟩

theorem agreed_poll (h : Agreed s) (i : Nat) (now : Int) : Agreed (s.poll i now) ↔ s.Alone i now := by
  rcases poll_cases s i now with ⟨hout, he⟩ | ⟨p, blocking, hp, hw, hout, he⟩ | ⟨p, hp, hout, he⟩
  · rw [he, State.Alone, hout]
    exact ⟨fun _ _ ho => absurd ho (by decide), fun _ => h⟩
  · rw [he, State.Alone, hout]
    refine ⟨fun _ _ ho => absurd ho (by decide), fun _ hr => ?_⟩
    rw [holding_answer hp, Bool.true_or]
    exact (h hr).trans (holding_of_waiting hp hw)
  · have hp' : ({ s with pausing := false } : State).pauses[i]? = some p := hp
    rw [he, State.Alone, hout, Agreed, holding_answer hp', Bool.false_or]
    constructor
    · intro ha hr _
      exact (ha hr).symm
    · intro ha hr
      exact (ha hr rfl).symm

/-- A call of `pause` raises the flag and holds the node. -/
theorem agreed_beginPause (timeoutMs : Nat) (force : Bool) (now : Int) : Agreed (s.beginPause timeoutMs force now) := by
  intro _
  show true = (s.pauses ++ [_]).any Pause.holds
  rw [List.any_append]
  simp [Pause.holds]

theorem agreed_step (s : State) (e : Event) (h : Agreed s) : Agreed (step s e) ↔ Separate s e := by
  cases e with
  | piExec execId command =>
    obtain ⟨hr, hp, hs⟩ := step_piExec s execId command
    exact iff_of_true (h.same hr hp hs) trivial
  | exited execId => exact iff_of_true (h.same rfl rfl rfl) trivial
  | streamOpens execId => exact iff_of_true (h.same rfl rfl rfl) trivial
  | streamEnds execId => exact iff_of_true (h.same rfl rfl rfl) trivial
  | graceEnds execId => exact iff_of_true (h.same rfl rfl rfl) trivial
  | pause timeoutMs force now now' => exact agreed_poll (agreed_beginPause timeoutMs force now) s.pauses.length now'
  | poll i now => exact agreed_poll h i now
  | reload timeoutMs force now now' =>
    show Agreed (s.reload timeoutMs force now now') ↔ _
    rw [State.reload, Separate]
    cases hr : s.reloading with
    | some i => exact iff_of_true h nofun
    | none =>
      have hp := agreed_poll (agreed_beginPause (s := { s with reloading := some s.pauses.length })
        timeoutMs force now) s.pauses.length now'
      exact ⟨fun ha _ => hp.mp ha, fun ha => hp.mpr (ha rfl)⟩
  | reloadEnds =>
    refine iff_of_true ?_ trivial
    show Agreed s.reloadEnds
    rw [State.reloadEnds]
    split
    · split
      · exact h.same rfl rfl rfl
      · exact h.same rfl rfl rfl
      · exact h
    · exact h
  | shutdown => exact iff_of_true nofun trivial

/-! ## The flag of a node no pause holds -/

def Raised (s : State) : Prop := s.pausing = true → s.holding = true

theorem Raised.poll (h : Raised s) (i : Nat) (now : Int) : Raised (s.poll i now) := by
  rcases poll_cases s i now with ⟨_, he⟩ | ⟨p, blocking, hp, _, _, he⟩ | ⟨p, _, _, he⟩
  · rw [he]
    exact h
  · intro _
    rw [he, holding_answer hp, Bool.true_or]
  · intro hp
    rw [he] at hp
    cases hp

theorem raised_pause (s : State) (timeoutMs : Nat) (force : Bool) (now now' : Int) :
    Raised (s.pause timeoutMs force now now') := by
  have h : Raised (s.beginPause timeoutMs force now) := by
    intro _
    show (s.pauses ++ [_]).any Pause.holds = true
    rw [List.any_append]
    simp [Pause.holds]
  exact h.poll s.pauses.length now'

theorem Raised.kept (h : Raised s) (e : Event) : Raised (step s e) := by
  cases e with
  | piExec execId command =>
    obtain ⟨_, hp, hs⟩ := step_piExec s execId command
    rw [Raised, hp, State.holding, hs]
    exact h
  | exited execId => exact h
  | streamOpens execId => exact h
  | streamEnds execId => exact h
  | graceEnds execId => exact h
  | pause timeoutMs force now now' => exact raised_pause s timeoutMs force now now'
  | poll i now => exact h.poll i now
  | reload timeoutMs force now now' =>
    show Raised (s.reload timeoutMs force now now')
    rw [State.reload]
    split
    · exact h
    · exact raised_pause _ timeoutMs force now now'
  | reloadEnds =>
    show Raised s.reloadEnds
    rw [State.reloadEnds]
    split
    · split
      · exact h
      · exact h
      · exact h
    · exact h
  | shutdown => exact h

/-- **No pause is held longer than its call**: where none holds, a stopped node and a command that was started
before are all that is refused. -/
theorem starts_once_released (es : List Event) (execId command : JsString) : (exec step .init es).holding = true ∨
    (exec step .init es).running = false ∨ ((exec step .init es).execs.lookup execId).isSome = true ∨
      ∃ s', (exec step .init es).piExec execId command = .ok s' := by
  have h : Raised (exec step .init es) :=
    exec_invariant Raised (fun _ e h => h.kept e) (fun hp => by cases hp) es
  rw [Raised] at h
  rw [State.piExec]
  split
  · grind
  split
  · grind
  split
  · grind
  · exact .inr (.inr (.inr ⟨_, rfl⟩))

/-! ## Runs -/

theorem agreed_init : Agreed .init := by
  intro _
  rfl

theorem always_sound_iff (es : List Event) : Always step Sound .init es ↔ Always step Agreed .init es :=
  along_congr_of (fun _ => True) (fun _ _ _ => trivial) (fun s e _ => sound_iff (step s e))
    trivial es

/-- A run keeps the node still while a pause holds it, and starts commands again after, exactly when
no pause gives up while another holds the node. -/
theorem paused_iff (es : List Event) : Always step Sound .init es ↔ Along step Separate .init es := by
  rw [always_sound_iff]
  exact always_iff_along Agreed agreed_step agreed_init es

/-- A command runs, two pauses wait for it, and the first gives up. -/
def overlapping : List Event := [.piExec [1] [], .pause 60000 false 0 0, .pause 60000 true 59000 59000, .poll 0 60000]

/-- The node starts another command then, while the second pause still waits. -/
theorem overlapping_starts : ¬ Always step Sound .init overlapping := by
  rw [always_sound_iff]
  decide

end Reins.Pausing
