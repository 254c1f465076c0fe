import Reins.Lib.Places
import Reins.Lib.Run
import Reins.Node.PiExec

/-!
# bash, run again after a restart (`backend/src/session-runtime/tools.ts`, `reattachingBash`)

Pi runs a tool call, and runs it again when the server stopped before the call's outcome was committed. The
call records the ID its command runs under before it sends anything; a run that finds the ID recorded only
picks the command up on the node (`nodes/node-dir-client.ts`, `runExec`; `node/src/pi-exec.ts`, `exec` and
`attach`).

An output is read here by the record. What its bytes come to over drops is `RunExec`'s and `Reattach`'s; that a
request the link says was not run was not run, and that one request is handled once, is `OnNode`'s. Pi's
bash is a parameter: what it shows of its command's output so far, and what it makes of the command's end.
-/

open Utf Schema List

namespace Reins.BashCalls

open PiExec Places Run

abbrev CallId := Nat
abbrev ExecId := Nat
abbrev CommandId := Nat
abbrev RequestId := Nat

/-- `createBashTool`'s tool, given the output its command's updates add up to. `R` is what a call ends with, a
result or an error. -/
structure Bash (R : Type) where
  /-- The text of a partial result, if it has content. -/
  partial_ : Option ShellOutputView → Option JsString
  result : Option ShellOutputView → ExecExit → R

/-- Pi's text for a call it does not run again. -/
def INTERRUPTED : JsString :=
  js "[Tool execution was interrupted. The preceding output is the latest durable progress snapshot; newer live output may be missing, and the external outcome is unknown.]"

/-- The message of `interrupted()`: an empty `latest` is falsy. -/
def interrupted : Option JsString → JsString
  | none | some [] => INTERRUPTED
  | some latest => latest ++ js "\n\n" ++ INTERRUPTED

inductive Answer (R : Type)
  | result (r : R)
  | interrupted (message : JsString)
  deriving DecidableEq

inductive Phase (R : Type)
  /-- It awaits `getMemo("exec")`. -/
  | reading
  /-- It awaits `getMemo("output")`. -/
  | readingOutput
  /-- It awaits `setMemo("exec")`. -/
  | recording (stored : Bool)
  | preparing
  /-- `onNode` with `pi.exec`, between two attempts. -/
  | sending
  | calling (request : RequestId)
  /-- `onNode` with `pi.execAttach`, between two attempts. -/
  | picking
  | attaching (request : RequestId)
  | streaming (command : CommandId)
  /-- The command's end is known, and Pi's bash has yet to settle. -/
  | closing (exit : ExecExit)
  | ended (answer : Answer R)
  deriving DecidableEq

/-- A call of the tool's `execute`. -/
structure Execution (R : Type) where
  phase : Phase R
  /-- `isCommandHost(env)`. -/
  host : Bool
  execId : ExecId
  attach : Bool
  latest : Option JsString
  /-- The records taken, and the view they add up to. -/
  taken : Nat
  view : Option ShellOutputView
  /-- The `output` memo it read, and the partial results it gave. -/
  saved : Option JsString
  shown : List (Option JsString)
  deriving DecidableEq

def Execution.fresh {R : Type} (host : Bool) : Execution R :=
  { phase := .reading, host, execId := 0, attach := false, latest := none, taken := 0, view := none,
    saved := none, shown := [] }

structure Call (R : Type) where
  /-- Why the client refuses the timeout it asks for. -/
  invalid : Option JsString
  exec : Option ExecId
  output : Option JsString
  /-- Writes of `output` that nobody awaits. -/
  writes : List JsString
  run : Option (Execution R)
  /-- Its outcome is committed, and its memos are gone. -/
  committed : Bool
  deriving DecidableEq

structure Command where
  call : CallId
  execId : ExecId
  history : List ExecRecord
  dropped : Nat
  known : Bool
  deriving DecidableEq

/-- The node's answer to a request. -/
inductive Reply
  | started (command : CommandId)
  | attached (command : CommandId) (offset : Nat) (view : Option ShellOutputView)
  | refused (message : JsString)
  deriving DecidableEq

inductive Request
  | exec (call : CallId) (execId : ExecId)
  | attach (execId : ExecId) (offset : Nat)
  deriving DecidableEq

inductive Progress
  | flying
  | lost
  | answered (reply : Reply)
  deriving DecidableEq

structure State (R : Type) where
  calls : List (Call R)
  ids : List CallId
  requests : List (Request × Progress)
  commands : List Command
  deriving DecidableEq

def State.init {R : Type} : State R := { calls := [], ids := [], requests := [], commands := [] }

inductive Event
  | call (invalid : Option JsString)
  /-- The call runs: for the first time, or again after the server stopped. -/
  | «open» (n : CallId) (host : Bool)
  | memo (n : CallId)
  | output (n : CallId)
  /-- The `exec` memo is stored, and the call goes on. -/
  | store (n : CallId)
  | recorded (n : CallId)
  | exec (n : CallId)
  | attempt (n : CallId)
  /-- The attempt failed and was certainly not run. -/
  | notRun (n : CallId) (again : Bool) (why : JsString)
  | unknown (n : CallId)
  | answer (n : CallId)
  | attach (n : CallId)
  | unanswered (n : CallId) (again : Bool) (why : JsString)
  | giveUp (n : CallId) (why : JsString)
  | attached (n : CallId)
  | take (n : CallId)
  | cut (n : CallId)
  | publish (n : CallId) (checkpoint : Bool)
  /-- A write of `output` is stored. -/
  | save (n : CallId) (i : Nat)
  | settle (n : CallId)
  | commit (n : CallId)
  | stop
  | handle (r : RequestId)
  | lose (r : RequestId)
  /-- The command makes a record; the node drops its oldest one, or forgets the command. -/
  | record (c : CommandId) (r : ExecRecord)
  | trim (c : CommandId)
  | forget (c : CommandId)
  | restart

variable {r : RequestId} {request : Request} {c : Command} {reply : Reply} {exit : ExecExit} {p : Progress}

/-! ## The call's execution -/

section

variable {R : Type} (bash : Bash R)

/-- Under an environment that picks commands up, what a run with the ID recorded goes on with. -/
def Execution.reattach (e : Execution R) (execId : ExecId) (output : Option JsString) : Execution R :=
  if e.host then
    { e with phase := .preparing, execId, attach := true, latest := output, saved := output }
  else
    { e with
      phase := .ended (.interrupted (BashCalls.interrupted output)), execId, attach := true,
      latest := output, saved := output }

/-- Pi's bash settles: `lost` is a command that was picked up and whose outcome is unknown. -/
def Execution.settle (e : Execution R) : ExecExit → Execution R
  | .error .unknown message =>
    { e with
      phase := .ended (if e.attach then .interrupted (BashCalls.interrupted e.latest)
        else .result (bash.result e.view (.error .unknown message))) }
  | exit => { e with phase := .ended (.result (bash.result e.view exit)) }

def Execution.take (e : Execution R) : ExecRecord → Execution R
  | .update u => { e with taken := e.taken + 1, view := some (applyShellOutputUpdate e.view u) }
  | .exit exit => { e with taken := e.taken + 1, phase := .closing exit }

def Execution.attached (e : Execution R) (c : CommandId) (offset : Nat) (view : Option ShellOutputView) : Execution R :=
  { e with phase := .streaming c, taken := offset, view := view.or e.view }

/-- `update`, with a partial result of what there is. -/
def Execution.publish (e : Execution R) : Execution R :=
  { e with
    latest := (bash.partial_ e.view).or e.latest, shown := e.shown ++ [bash.partial_ e.view] }

def Phase.inBash : Phase R → Bool
  | .reading | .readingOutput | .recording _ | .ended _ => false
  | _ => true

/-! ## The steps -/

variable (s : State R)

def State.setRun (n : CallId) (call : Call R) (e : Execution R) : State R :=
  { s with calls := s.calls.set n { call with run := some e } }

/-- The ID the run chooses is new: `crypto.randomUUID()`. -/
def State.memo (n : CallId) (call : Call R) (e : Execution R) : State R :=
  match call.exec with
  | some _ => s.setRun n call { e with phase := .readingOutput }
  | none =>
    { s with
      calls := s.calls.set n { call with run := some { e with phase := .recording false, execId := s.ids.length } },
      ids := s.ids ++ [n] }

def State.output (n : CallId) (call : Call R) (e : Execution R) : State R :=
  match call.exec with
  | some execId => s.setRun n call (e.reattach execId call.output)
  | none => s

/-- `exec` of the environment: the node's client, or one that runs the command itself. -/
def State.exec (n : CallId) (call : Call R) (e : Execution R) : State R :=
  if e.host then
    match call.invalid with
    | some message => s.setRun n call { e with phase := .closing (.error .timeout message) }
    | none => s.setRun n call { e with phase := if e.attach then .picking else .sending }
  else
    { s with
      calls := s.calls.set n { call with run := some { e with phase := .streaming s.commands.length } },
      commands := s.commands ++ [{ call := n, execId := e.execId, history := [], dropped := 0, known := false }] }

def State.send (n : CallId) (call : Call R) (e : Execution R) (request : Request)
    (phase : RequestId → Phase R) : State R :=
  { s with
    calls := s.calls.set n { call with run := some { e with phase := phase s.requests.length } },
    requests := s.requests ++ [(request, .flying)] }

def State.progress (r : RequestId) : Option Progress := (s.requests[r]?).map (·.2)

/-- The node's answer to `pi.exec`, and to `pi.execAttach`. -/
def Execution.answer (e : Execution R) : Reply → Execution R
  | .started c => { e with phase := .streaming c }
  | .refused why => { e with phase := .closing (.error .spawn_error why) }
  | .attached .. => e

def Execution.attachAnswer (e : Execution R) : Reply → Execution R
  | .attached c offset view => e.attached c offset view
  | .refused why => { e with phase := .closing (.error .unknown why) }
  | .started _ => e

def State.notRun (n : CallId) (call : Call R) (e : Execution R) (r : RequestId) (again : Bool)
    (why : JsString) : State R :=
  match s.requests[r]? with
  | some (request, .flying) =>
    { s with
      calls := s.calls.set n
        { call with
          run := some { e with phase := if again then .sending else .closing (.error .spawn_error why) } },
      requests := s.requests.set r (request, .lost) }
  | _ => s

def State.publish (n : CallId) (call : Call R) (e : Execution R) (checkpoint : Bool) : State R :=
  { s with
    calls := s.calls.set n
      { call with
        run := some (e.publish bash),
        writes := if checkpoint then call.writes ++ [(bash.partial_ e.view).getD []] else call.writes } }

/-! ### At the node -/

def State.start (s : State R) (n : CallId) (execId : ExecId) : State R × Reply :=
  if s.commands.any fun c => c.known && c.execId == execId then
    (s, .refused (js "Command already started"))
  else
    ({ s with
      commands := s.commands ++ [{ call := n, execId, history := [], dropped := 0, known := true }] },
      .started s.commands.length)

/-- `attach` to a command the node has: from `offset`, or from its end with its view where the tail does not
reach back. -/
def Command.attach (c : Command) (id : CommandId) (offset : Nat) : Reply :=
  if offset < c.dropped then .attached id c.history.length (viewOf c.history)
  else if c.history.length < offset then .refused (js "Not the start of an output record")
  else .attached id offset none

def State.attach (s : State R) (execId : ExecId) (offset : Nat) : Reply :=
  match s.commands.findIdx? fun c => c.known && c.execId == execId with
  | none => .refused (js "Unknown command")
  | some id =>
    match s.commands[id]? with
    | some c => c.attach id offset
    | none => .refused (js "Unknown command")

def State.serve (s : State R) (r : RequestId) : Request → State R
  | .exec n execId =>
    let (s', reply) := s.start n execId
    { s' with requests := s.requests.set r (.exec n execId, .answered reply) }
  | .attach execId offset =>
    { s with requests := s.requests.set r (.attach execId offset, .answered (s.attach execId offset)) }

def unlessAnswered : Request × Progress → Request × Progress
  | (request, .flying) => (request, .lost)
  | other => other

def State.lose (s : State R) (r : RequestId) : State R :=
  match s.requests[r]? with
  | some (request, .flying) => { s with requests := s.requests.set r (request, .lost) }
  | _ => s

def State.onCommand (s : State R) (c : CommandId) (f : Command → Command) : State R :=
  match s.commands[c]? with
  | some cmd => { s with commands := s.commands.set c (f cmd) }
  | none => s

def State.onCall (s : State R) (n : CallId) (f : Call R → Call R) : State R :=
  match s.calls[n]? with
  | some call => { s with calls := s.calls.set n (f call) }
  | none => s

def Command.exited (c : Command) : Bool := c.history.any ExecRecord.isExit

def Command.record (c : Command) (r : ExecRecord) : Command :=
  if c.exited then c else { c with history := c.history ++ [r] }

/-- The latest record is kept whatever its size. -/
def Command.trim (c : Command) : Command :=
  if c.dropped + 1 < c.history.length then { c with dropped := c.dropped + 1 } else c

def Command.forget (c : Command) : Command := { c with known := false }

/-! ### All of them -/

def State.advance (s : State R) (n : CallId) (call : Call R) (e : Execution R) (event : Event) : State R :=
  match event, e.phase with
  | .memo _, .reading => s.memo n call e
  | .output _, .readingOutput => s.output n call e
  | .store _, .recording false =>
    { s with
      calls := s.calls.set n { call with exec := some e.execId, run := some { e with phase := .recording true } } }
  | .recorded _, .recording true => s.setRun n call { e with phase := .preparing }
  | .exec _, .preparing => s.exec n call e
  | .attempt _, .sending => s.send n call e (.exec n e.execId) .calling
  | .notRun _ again why, .calling r => s.notRun n call e r again why
  | .unknown _, .calling _ => s.setRun n call { e with phase := .picking }
  | .answer _, .calling r =>
    match s.progress r with
    | some (.answered reply) => s.setRun n call (e.answer reply)
    | _ => s
  | .attach _, .picking => s.send n call e (.attach e.execId e.taken) .attaching
  | .unanswered _ again why, .attaching _ =>
    s.setRun n call { e with phase := if again then .picking else .closing (.error .unknown why) }
  | .giveUp _ why, .picking => s.setRun n call { e with phase := .closing (.error .unknown why) }
  | .attached _, .attaching r =>
    match s.progress r with
    | some (.answered reply) => s.setRun n call (e.attachAnswer reply)
    | _ => s
  | .take _, .streaming c =>
    match (s.commands[c]?).bind fun c => c.history[e.taken]? with
    | some r => s.setRun n call (e.take r)
    | none => s
  | .cut _, .streaming _ => if e.host then s.setRun n call { e with phase := .picking } else s
  | .publish _ checkpoint, phase => if phase.inBash then s.publish bash n call e checkpoint else s
  | .settle _, .closing exit => s.setRun n call (e.settle bash exit)
  | .commit _, .ended _ =>
    { s with
      calls := s.calls.set n { call with exec := none, output := none, writes := [], committed := true } }
  | _, _ => s

def Event.call? : Event → Option CallId
  | .memo n | .output n | .store n | .recorded n | .exec n | .attempt n | .notRun n _ _ | .unknown n
  | .answer n | .attach n | .unanswered n _ _ | .giveUp n _ | .attached n | .take n | .cut n | .publish n _
  | .settle n | .commit n => some n
  | _ => none

def Call.open_ (c : Call R) (host : Bool) : Call R :=
  if c.run.isNone && !c.committed then { c with run := some (.fresh host) } else c

def Call.save (c : Call R) (i : Nat) : Call R :=
  match c.writes[i]? with
  | some text => { c with output := some text, writes := c.writes.eraseIdx i }
  | none => c

def Call.stop (c : Call R) : Call R := { c with run := none, writes := [] }

def step (s : State R) : Event → State R
  | .call invalid =>
    { s with
      calls := s.calls ++ [{ invalid, exec := none, output := none, writes := [], run := none, committed := false }] }
  | .«open» n host => s.onCall n (Call.open_ · host)
  | .save n i => s.onCall n (Call.save · i)
  | .stop => { s with calls := s.calls.map Call.stop }
  | .handle r =>
    match s.requests[r]? with
    | some (request, .flying) => s.serve r request
    | _ => s
  | .lose r => s.lose r
  | .record c r => s.onCommand c (Command.record · r)
  | .trim c => s.onCommand c Command.trim
  | .forget c => s.onCommand c Command.forget
  | .restart => { s with requests := s.requests.map unlessAnswered, commands := s.commands.map Command.forget }
  | event =>
    match event.call? with
    | none => s
    | some n =>
      match s.calls[n]? with
      | none => s
      | some call =>
        match call.run with
        | none => s
        | some e => s.advance bash n call e event

def run (es : List Event) : State R := Run.exec (step bash) .init es


end

/-! ## What the state says of one call -/

section

variable {R : Type} (s : State R) (n : CallId)

def mayStart : Request × Progress → Bool
  | (.exec m _, .flying) => m == n
  | _ => false

def State.count : Nat := s.commands.countP (fun c => c.call == n) + s.requests.countP (mayStart n)

/-- The run may yet send its command. -/
def Execution.pending (e : Execution R) : Nat :=
  match e.phase with
  | .recording true | .sending => 1
  | .preparing => if e.attach then 0 else 1
  | _ => 0

def Call.pending (c : Call R) : Nat :=
  match c.run with
  | some e => e.pending
  | none => 0

def State.Has (c : Command) : Prop := c ∈ s.commands ∧ c.call = n

variable (bash : Bash R)

def State.Own (text : JsString) : Prop :=
  ∃ h, (h = [] ∨ ∃ c, s.Has n c ∧ h <+: c.history) ∧ (bash.partial_ (viewOf h)).getD [] = text

/-- What was read is a beginning of the call's own command's output. -/
def State.Reads (e : Execution R) : Prop :=
  (e.taken = 0 ∧ e.view = none) ∨ ∃ c, s.Has n c ∧ e.taken ≤ c.history.length ∧ e.view = viewOf (c.history.take e.taken)

def lastShown (shown : List (Option JsString)) : Option JsString :=
  shown.foldl (fun latest partial_ => partial_.or latest) none

structure HeldOk (e : Execution R) : Prop where
  reads : s.Reads n e
  latest : e.latest = (lastShown e.shown).or e.saved
  saved : ∀ t, e.saved = some t → s.Own n bash t
  shown : ∀ t, some t ∈ e.shown → s.Own n bash t

variable (call : Call R) (e : Execution R)

structure Chosen : Prop where
  owner : s.ids[e.execId]? = some n
  memo : call.exec = some e.execId
  open_ : call.committed = false

/-- The command's whole output and its end, as the call's own command made them. -/
def State.Result (view : Option ShellOutputView) (exit : ExecExit) : Prop :=
  ∃ c, s.Has n c ∧ .exit exit ∈ c.history ∧ view = viewOf c.history

def ExecExit.isUnknown : ExecExit → Bool
  | .error .unknown _ => true
  | _ => false

def Settled (exit : ExecExit) : Prop :=
  e.attach = false ∨ ExecExit.isUnknown exit ∨ (∃ m, call.invalid = some m) ∨ s.Result n e.view exit

def Answered (answer : Answer R) : Prop :=
  e.attach = false ∨ answer = .interrupted (interrupted e.latest) ∨ (∃ m, call.invalid = some m) ∨
    ∃ view exit, s.Result n view exit ∧ answer = .result (bash.result view exit)

def PhaseOk : Prop :=
  match e.phase with
  | .reading | .readingOutput => call.committed = false ∧ e.attach = false ∧ e.shown = []
  | .recording false => call.committed = false ∧ e.attach = false ∧ call.exec = none ∧ s.ids[e.execId]? = some n
  | .recording true | .sending => Chosen s n call e ∧ e.attach = false
  | .preparing => Chosen s n call e ∧ (e.host = false → e.attach = false)
  | .calling r => Chosen s n call e ∧ e.attach = false ∧ ∃ p, s.requests[r]? = some (.exec n e.execId, p)
  | .picking => Chosen s n call e
  | .attaching r => Chosen s n call e ∧ ∃ p, s.requests[r]? = some (.attach e.execId e.taken, p)
  | .streaming c => Chosen s n call e ∧ ∃ cmd, s.commands[c]? = some cmd ∧ cmd.call = n
  | .closing exit => Chosen s n call e ∧ Settled s n call e exit
  | .ended answer => Answered s n bash call e answer

structure RunOk : Prop where
  phase : PhaseOk s n bash call e
  held : HeldOk s n bash e
  fresh : e.shown = [] → call.committed = false → call.writes = [] ∧ (e.attach = true → call.output = e.saved)

structure CallOk : Prop where
  owner : ∀ id, call.exec = some id → s.ids[id]? = some n
  bound : s.count n + call.pending ≤ 1
  unstarted : call.committed = false → call.exec = none → s.count n = 0
  output : ∀ t, call.output = some t → s.Own n bash t
  writes : ∀ t ∈ call.writes, s.Own n bash t
  idle : call.run = none → call.writes = []
  run : ∀ e, call.run = some e → RunOk s n bash call e

end

/-! ## What it says of the rest -/

section

variable {R : Type} (s : State R)

/-- Nothing follows a command's end. -/
def Final (h : List ExecRecord) : Prop := ∀ k r, h[k]? = some r → r.isExit → k + 1 = h.length

theorem final_nil : Final [] := fun _ _ h => nomatch h

structure CommandOk (c : Command) : Prop where
  owner : s.ids[c.execId]? = some c.call
  final : Final c.history
  dropped : c.dropped ≤ c.history.length

def ReplyOk : Request → Reply → Prop
  | .exec n _, .started c => ∃ cmd, s.commands[c]? = some cmd ∧ cmd.call = n
  | .attach execId asked, .attached c offset view =>
    ∃ cmd, s.commands[c]? = some cmd ∧ cmd.execId = execId ∧ asked ≤ offset ∧ offset ≤ cmd.history.length ∧
      (offset = asked ∧ view = none ∨ view = viewOf (cmd.history.take offset))
  | _, .refused _ => True
  | _, _ => False

structure Inv (bash : Bash R) : Prop where
  call : ∀ n call, s.calls[n]? = some call → CallOk s n bash call
  command : ∀ c ∈ s.commands, CommandOk s c
  request : ∀ n execId p, (.exec n execId, p) ∈ s.requests → s.ids[execId]? = some n
  reply : ∀ request reply, (request, .answered reply) ∈ s.requests → ReplyOk s request reply
  /-- A call that does not exist has started nothing. -/
  count : ∀ n, s.calls.length ≤ n → s.count n = 0

end

/-! ## What only grows -/

theorem take_of_beginning {α : Type} {xs ys : List α} {k : Nat} (h : xs <+: ys) (hk : k ≤ xs.length) :
    ys.take k = xs.take k := by
  obtain ⟨zs, rfl⟩ := h
  exact take_append_of_le_length hk

section

variable {R : Type} {bash : Bash R} {s s' : State R} {n : CallId} {call : Call R} {e : Execution R}

structure Grows (s s' : State R) : Prop where
  ids : ∀ (id : ExecId) (m : CallId), s.ids[id]? = some m → s'.ids[id]? = some m
  requests : ∀ (r : RequestId) q p, s.requests[r]? = some (q, p) → ∃ p', s'.requests[r]? = some (q, p')
  commands : ∀ (c : CommandId) cmd, s.commands[c]? = some cmd → ∃ cmd', s'.commands[c]? = some cmd' ∧
    cmd'.call = cmd.call ∧ cmd'.execId = cmd.execId ∧ cmd.history <+: cmd'.history ∧
    (cmd.exited → cmd'.history = cmd.history)

theorem Grows.of_eq (hids : s'.ids = s.ids) (hrequests : s'.requests = s.requests)
    (hcommands : s'.commands = s.commands) : Grows s s' := by
  constructor
  · intro id m h
    rw [hids]
    exact h
  · intro r q p h
    rw [hrequests]
    exact ⟨p, h⟩
  · intro c cmd h
    rw [hcommands]
    exact ⟨cmd, h, rfl, rfl, prefix_rfl, fun _ => rfl⟩

theorem Grows.has (hg : Grows s s') (h : s.Has n c) :
    ∃ c', s'.Has n c' ∧ c.history <+: c'.history ∧ (c.exited → c'.history = c.history) := by
  obtain ⟨hc, hcall⟩ := h
  obtain ⟨i, hi⟩ := getElem?_of_mem hc
  obtain ⟨c', hc', hcall', -, hhistory, hexited⟩ := hg.commands i c hi
  exact ⟨c', ⟨mem_of_getElem? hc', hcall'.trans hcall⟩, hhistory, hexited⟩

theorem State.Own.grow {t : JsString} (h : s.Own n bash t) (hg : Grows s s') : s'.Own n bash t := by
  obtain ⟨h, hempty | ⟨c, hc, hle⟩, ht⟩ := h
  · exact ⟨h, .inl hempty, ht⟩
  · obtain ⟨c', hc', hhistory, -⟩ := hg.has hc
    exact ⟨h, .inr ⟨c', hc', hle.trans hhistory⟩, ht⟩

theorem State.Reads.grow (h : s.Reads n e) (hg : Grows s s') : s'.Reads n e := by
  rcases h with h | ⟨c, hc, hle, hview⟩
  · exact .inl h
  obtain ⟨c', hc', hhistory, -⟩ := hg.has hc
  refine .inr ⟨c', hc', hle.trans hhistory.length_le, ?_⟩
  rw [hview, take_of_beginning hhistory hle]

theorem State.Result.grow {view : Option ShellOutputView} (h : s.Result n view exit)
    (hg : Grows s s') : s'.Result n view exit := by
  obtain ⟨c, hc, hexit, hview⟩ := h
  obtain ⟨c', hc', -, hexited⟩ := hg.has hc
  have hsame := hexited (any_eq_true.mpr ⟨_, hexit, rfl⟩)
  exact ⟨c', hc', hsame ▸ hexit, hsame ▸ hview⟩

theorem HeldOk.grow (h : HeldOk s n bash e) (hg : Grows s s') : HeldOk s' n bash e := { h with
  reads := h.reads.grow hg
  saved t ht := (h.saved t ht).grow hg
  shown t ht := (h.shown t ht).grow hg }

theorem Chosen.grow (h : Chosen s n call e) (hg : Grows s s') : Chosen s' n call e := { h with
  owner := hg.ids _ _ h.owner }

theorem Settled.grow (h : Settled s n call e exit) (hg : Grows s s') : Settled s' n call e exit := by
  rcases h with h | h | h | h
  · exact .inl h
  · exact .inr (.inl h)
  · exact .inr (.inr (.inl h))
  · exact .inr (.inr (.inr (h.grow hg)))

theorem Answered.grow {answer : Answer R} (h : Answered s n bash call e answer) (hg : Grows s s') :
    Answered s' n bash call e answer := by
  rcases h with h | h | h | ⟨view, exit, h, hanswer⟩
  · exact .inl h
  · exact .inr (.inl h)
  · exact .inr (.inr (.inl h))
  · exact .inr (.inr (.inr ⟨view, exit, h.grow hg, hanswer⟩))

theorem PhaseOk.congr {call' : Call R} (h : PhaseOk s n bash call e) (hexec : call'.exec = call.exec)
    (hcommitted : call'.committed = call.committed) (hinvalid : call'.invalid = call.invalid) :
    PhaseOk s n bash call' e := by
  have hchosen : Chosen s n call e → Chosen s n call' e := fun h => ⟨h.1, hexec.trans h.2, hcommitted.trans h.3⟩
  unfold PhaseOk at h ⊢
  rcases e with ⟨phase, host, execId, attach, latest, taken, view, saved, shown⟩
  cases phase with
  | recording stored =>
    cases stored with
    | false =>
      obtain ⟨hopen, hattach, hnone, hid⟩ := h
      exact ⟨hcommitted.trans hopen, hattach, hexec.trans hnone, hid⟩
    | true => exact ⟨hchosen h.1, h.2⟩
  | reading | readingOutput => exact ⟨hcommitted.trans h.1, h.2⟩
  | preparing | sending | calling | attaching | streaming => exact ⟨hchosen h.1, h.2⟩
  | picking => exact hchosen h
  | closing exit => exact ⟨hchosen h.1, by simpa only [Settled, hinvalid] using h.2⟩
  | ended answer => simpa [Answered, hinvalid] using h

theorem PhaseOk.grow (h : PhaseOk s n bash call e) (hg : Grows s s') : PhaseOk s' n bash call e := by
  unfold PhaseOk at h ⊢
  rcases e with ⟨phase, host, execId, attach, latest, taken, view, saved, shown⟩
  cases phase with
  | recording stored =>
    cases stored with
    | false => exact ⟨h.1, h.2.1, h.2.2.1, hg.ids _ _ h.2.2.2⟩
    | true => exact ⟨h.1.grow hg, h.2⟩
  | reading | readingOutput => exact h
  | preparing | sending => exact ⟨h.1.grow hg, h.2⟩
  | calling r =>
    obtain ⟨hchosen, hattach, p, hp⟩ := h
    exact ⟨hchosen.grow hg, hattach, hg.requests _ _ _ hp⟩
  | picking => exact h.grow hg
  | attaching r =>
    obtain ⟨hchosen, p, hp⟩ := h
    exact ⟨hchosen.grow hg, hg.requests _ _ _ hp⟩
  | streaming c =>
    obtain ⟨hchosen, cmd, hcmd, hcall⟩ := h
    obtain ⟨cmd', hcmd', hcall', -⟩ := hg.commands _ _ hcmd
    exact ⟨hchosen.grow hg, cmd', hcmd', hcall'.trans hcall⟩
  | closing exit => exact ⟨h.1.grow hg, h.2.grow hg⟩
  | ended answer => exact h.grow hg

theorem RunOk.grow (h : RunOk s n bash call e) (hg : Grows s s') : RunOk s' n bash call e := { h with
  phase := h.phase.grow hg
  held := h.held.grow hg }

theorem CallOk.grow (h : CallOk s n bash call) (hg : Grows s s') (hcount : s'.count n ≤ s.count n) :
    CallOk s' n bash call := { h with
  owner id hid := hg.ids _ _ (h.owner id hid)
  bound := (Nat.add_le_add_right hcount _).trans h.bound
  unstarted hopen hnone := Nat.le_zero.mp (hcount.trans_eq (h.unstarted hopen hnone))
  output t ht := (h.output t ht).grow hg
  writes t ht := (h.writes t ht).grow hg
  run e he := (h.run e he).grow hg }

theorem ReplyOk.grow (h : ReplyOk s request reply) (hg : Grows s s') : ReplyOk s' request reply := by
  rcases request with ⟨m, id⟩ | ⟨execId, asked⟩
  · rcases reply with c | ⟨c, offset, view⟩ | why
    · obtain ⟨cmd, hcmd, hcall⟩ := h
      obtain ⟨cmd', hcmd', hcall', -⟩ := hg.commands _ _ hcmd
      exact ⟨cmd', hcmd', hcall'.trans hcall⟩
    · exact h
    · trivial
  · rcases reply with c | ⟨c, offset, view⟩ | why
    · exact h
    · obtain ⟨cmd, hcmd, hid, hasked, hle, hview⟩ := h
      obtain ⟨cmd', hcmd', -, hid', hhistory, -⟩ := hg.commands _ _ hcmd
      refine ⟨cmd', hcmd', hid'.trans hid, hasked, hle.trans hhistory.length_le, ?_⟩
      rwa [take_of_beginning hhistory hle]
    · trivial

end

/-! ## The invariant, step by step -/

section

variable {R : Type} {bash : Bash R} {s s' : State R} {n : CallId} {call call' : Call R} {e e' : Execution R}

theorem CommandOk.ids (h : CommandOk s c) (hg : Grows s s') : CommandOk s' c := { h with
  owner := hg.ids _ _ h.owner }

theorem Inv.next (hinv : Inv s bash) (hg : Grows s s') (hn : s.calls[n]? = some call)
    (hcalls : s'.calls = s.calls.set n call') (hcall : CallOk s' n bash call')
    (hcount : ∀ m, m ≠ n → s'.count m ≤ s.count m) (hcommand : ∀ c ∈ s'.commands, CommandOk s' c)
    (hrequest : ∀ m execId p, (.exec m execId, p) ∈ s'.requests → s'.ids[execId]? = some m)
    (hreply : ∀ request reply, (request, .answered reply) ∈ s'.requests → ReplyOk s' request reply) :
    Inv s' bash := by
  refine ⟨fun m c hm => ?_, hcommand, hrequest, hreply, fun m hm => ?_⟩
  · rw [hcalls] at hm
    rcases getElem?_set_cases hm with ⟨hnm, rfl⟩ | ⟨hnm, hm⟩
    · exact hnm ▸ hcall
    · exact (hinv.call m c hm).grow hg (hcount m hnm.symm)
  · rw [hcalls, length_set] at hm
    have hne : m ≠ n := by
      rintro rfl
      exact absurd (lt_of_getElem? hn) (Nat.not_lt.mpr hm)
    exact Nat.le_zero.mp ((hcount m hne).trans_eq (hinv.count m hm))

theorem Inv.node (hinv : Inv s bash) (hg : Grows s s') (hcalls : s'.calls = s.calls)
    (hcount : ∀ m, s'.count m ≤ s.count m) (hcommand : ∀ c ∈ s'.commands, CommandOk s' c)
    (hrequest : ∀ m execId p, (.exec m execId, p) ∈ s'.requests → s'.ids[execId]? = some m)
    (hreply : ∀ request reply, (request, .answered reply) ∈ s'.requests → ReplyOk s' request reply) :
    Inv s' bash := by
  refine ⟨fun m c hm => ?_, hcommand, hrequest, hreply, fun m hm => ?_⟩
  · rw [hcalls] at hm
    exact (hinv.call m c hm).grow hg (hcount m)
  · rw [hcalls] at hm
    exact Nat.le_zero.mp ((hcount m).trans_eq (hinv.count m hm))

theorem Inv.setCall (hinv : Inv s bash) (hn : s.calls[n]? = some call) (hcall : CallOk s n bash call') :
    Inv { s with calls := s.calls.set n call' } bash := by
  have hg : Grows s { s with calls := s.calls.set n call' } := .of_eq rfl rfl rfl
  refine hinv.next hg hn rfl (hcall.grow hg le_rfl) (fun _ _ => le_rfl)
    (fun c hc => (hinv.command c hc).ids hg) hinv.request
    (fun request reply h => (hinv.reply request reply h).grow hg)

/-- The run goes on, and may not send its command if it could not before. -/
theorem CallOk.setRun (hok : CallOk s n bash call) (hrun : call.run = some e)
    (hnew : RunOk s n bash { call with run := some e' } e') (hpending : e'.pending ≤ e.pending) :
    CallOk s n bash { call with run := some e' } := { hok with
  bound := by
    have h := hok.bound
    rw [Call.pending, hrun] at h
    exact (Nat.add_le_add_left hpending _).trans h
  idle h := by cases h
  run x hx := by
    cases hx
    exact hnew }

theorem Inv.setRun (hinv : Inv s bash) (hn : s.calls[n]? = some call) (hrun : call.run = some e)
    (hphase : PhaseOk s n bash call e') (hheld : HeldOk s n bash e')
    (hfresh : e'.shown = [] → call.committed = false → call.writes = [] ∧ (e'.attach = true → call.output = e'.saved))
    (hpending : e'.pending ≤ e.pending) : Inv (s.setRun n call e') bash := by
  refine hinv.setCall hn ((hinv.call n call hn).setRun hrun ⟨?_, hheld, hfresh⟩ hpending)
  exact hphase.congr rfl rfl rfl

theorem Inv.setPhase (hinv : Inv s bash) (hn : s.calls[n]? = some call) (hrun : call.run = some e)
    (phase : Phase R) (hphase : PhaseOk s n bash call { e with phase })
    (hpending : Execution.pending { e with phase } ≤ e.pending) :
    Inv (s.setRun n call { e with phase }) bash := by
  have hok := (hinv.call n call hn).run e hrun
  exact hinv.setRun hn hrun hphase { hok.held with } hok.fresh hpending

theorem Inv.runOk (hinv : Inv s bash) (hn : s.calls[n]? = some call) (hrun : call.run = some e) :
    RunOk s n bash call e :=
  (hinv.call n call hn).run e hrun

theorem Chosen.of_execId (h : Chosen s n call e) (hid : e'.execId = e.execId) : Chosen s n call e' := { h with
  owner := hid ▸ h.owner
  memo := hid ▸ h.memo }

/-! ### The memos -/

theorem Inv.memo (hinv : Inv s bash) (hn : s.calls[n]? = some call) (hrun : call.run = some e)
    (hphase : e.phase = .reading) : Inv (s.memo n call e) bash := by
  have hok := hinv.runOk hn hrun
  have hp := hok.phase
  simp only [PhaseOk, hphase] at hp
  unfold State.memo
  split
  next id hexec => exact hinv.setPhase hn hrun .readingOutput hp (by simp [Execution.pending, hphase])
  next hexec =>
    have hg : Grows s { s with
        calls := s.calls.set n { call with run := some { e with phase := .recording false, execId := s.ids.length } },
        ids := s.ids ++ [n] } :=
      ⟨fun id m h => getElem?_append_some h _, fun r q p h => ⟨p, h⟩,
        fun c cmd h => ⟨cmd, h, rfl, rfl, prefix_rfl, fun _ => rfl⟩⟩
    refine hinv.next hg hn rfl ?_ (fun _ _ => le_rfl) (fun c hc => (hinv.command c hc).ids hg)
      (fun m id p h => hg.ids _ _ (hinv.request m id p h))
      (fun request reply h => (hinv.reply request reply h).grow hg)
    have hheld := hok.held.grow hg
    refine ((hinv.call n call hn).grow hg le_rfl).setRun hrun ⟨?_, ?_, hok.fresh⟩ (by simp [Execution.pending])
    · exact ⟨hp.1, hp.2.1, hexec, getElem?_concat_length⟩
    · exact { hheld with }

theorem Inv.output (hinv : Inv s bash) (hn : s.calls[n]? = some call) (hrun : call.run = some e)
    (hphase : e.phase = .readingOutput) : Inv (s.output n call e) bash := by
  have hcall := hinv.call n call hn
  have hok := hinv.runOk hn hrun
  have hp := hok.phase
  simp only [PhaseOk, hphase] at hp
  obtain ⟨hopen, -, hshown⟩ := hp
  unfold State.output
  split
  next id hexec =>
    have hlatest : call.output = (lastShown e.shown).or call.output := hshown ▸ rfl
    have hwrites := (hok.fresh hshown hopen).1
    have hheld : HeldOk s n bash (e.reattach id call.output) := by
      unfold Execution.reattach
      split <;> exact ⟨hok.held.reads, hlatest, hcall.output, hok.held.shown⟩
    refine hinv.setRun hn hrun ?_ hheld (fun _ _ => ⟨hwrites, fun _ => ?_⟩) ?_
    · unfold Execution.reattach
      split
      next hhost => exact ⟨⟨hcall.owner id hexec, hexec, hopen⟩, fun h => nomatch hhost.symm.trans h⟩
      next => exact .inr (.inl rfl)
    · unfold Execution.reattach
      split <;> rfl
    · unfold Execution.reattach
      split <;> simp [Execution.pending]
  next => exact hinv

theorem Inv.store (hinv : Inv s bash) (hn : s.calls[n]? = some call) (hrun : call.run = some e)
    (hphase : e.phase = .recording false) :
    Inv { s with
      calls := s.calls.set n
        { call with exec := some e.execId, run := some { e with phase := .recording true } } } bash := by
  have hcall := hinv.call n call hn
  have hok := hinv.runOk hn hrun
  have hp := hok.phase
  simp only [PhaseOk, hphase] at hp
  obtain ⟨hopen, hattach, hnone, hid⟩ := hp
  have hcount := hcall.unstarted hopen hnone
  refine hinv.setCall hn ⟨?_, ?_, ?_, hcall.output, hcall.writes, (by simp), ?_⟩
  · intro id h
    cases h
    exact hid
  · rw [hcount, Call.pending]
    simp [Execution.pending]
  · intro _ h
    cases h
  · intro x hx
    cases hx
    refine ⟨⟨⟨hid, rfl, hopen⟩, hattach⟩, ?_, fun h hc => hok.fresh h hc⟩
    exact { hok.held with }

/-! ### The command -/

theorem countP_concat {α : Type} (f : α → Bool) (xs : List α) (x : α) :
    (xs ++ [x]).countP f = xs.countP f + if f x then 1 else 0 := by
  rw [countP_append, countP_singleton]

theorem Inv.exec (hinv : Inv s bash) (hn : s.calls[n]? = some call) (hrun : call.run = some e)
    (hphase : e.phase = .preparing) : Inv (s.exec n call e) bash := by
  have hcall := hinv.call n call hn
  have hok := hinv.runOk hn hrun
  have hp := hok.phase
  simp only [PhaseOk, hphase] at hp
  obtain ⟨hchosen, hlocal⟩ := hp
  unfold State.exec
  split
  next hhost =>
    split
    next message hinvalid =>
      refine hinv.setPhase hn hrun _ ⟨hchosen.of_execId rfl, .inr (.inr (.inl ⟨message, hinvalid⟩))⟩ ?_
      simp [Execution.pending]
    next =>
      rcases Bool.eq_false_or_eq_true e.attach with hattach | hattach
      · rw [if_pos hattach]
        exact hinv.setPhase hn hrun _ (hchosen.of_execId rfl) (by simp [Execution.pending])
      · rw [if_neg (by simp [hattach])]
        exact hinv.setPhase hn hrun _ ⟨hchosen.of_execId rfl, hattach⟩ (by simp [Execution.pending, hphase, hattach])
  next hhost =>
    have hattach := hlocal (Bool.eq_false_iff.mpr hhost)
    have hpending : call.pending = 1 := by
      simp [Call.pending, hrun, Execution.pending, hphase, hattach]
    have hbound := hcall.bound
    have hcount : s.count n = 0 := by omega
    let c : Command := { call := n, execId := e.execId, history := [], dropped := 0, known := false }
    let s' : State R := { s with
      calls := s.calls.set n { call with run := some { e with phase := .streaming s.commands.length } },
      commands := s.commands ++ [c] }
    have hg : Grows s s' :=
      ⟨fun id m h => h, fun r q p h => ⟨p, h⟩,
        fun c cmd h => ⟨cmd, getElem?_append_some h _, rfl, rfl, prefix_rfl, fun _ => rfl⟩⟩
    have hstarted : ∀ m, s'.count m = s.count m + if n == m then 1 else 0 := by
      intro m
      simp only [State.count, s', countP_concat, c]
      omega
    show Inv s' bash
    refine hinv.next hg hn rfl ?_ ?_ ?_ (fun m id p h => hinv.request m id p h)
      (fun request reply h => (hinv.reply request reply h).grow hg)
    · refine ⟨hcall.owner, ?_, ?_, fun t ht => (hcall.output t ht).grow hg,
        fun t ht => (hcall.writes t ht).grow hg, (by simp), ?_⟩
      · rw [hstarted n, hcount]
        simp [Call.pending, Execution.pending]
      · intro _ hnone
        cases hnone.symm.trans hchosen.memo
      · intro x hx
        cases hx
        have hheld := hok.held.grow hg
        exact ⟨⟨⟨hchosen.owner, hchosen.memo, hchosen.open_⟩, c, getElem?_concat_length, rfl⟩,
          { hheld with }, hok.fresh⟩
    · intro m hm
      rw [hstarted m, if_neg (by simpa using hm.symm)]
      exact le_rfl
    · intro x hx
      rcases mem_append.mp hx with hx | hx
      · exact (hinv.command x hx).ids hg
      · cases mem_singleton.mp hx
        exact ⟨hchosen.owner, final_nil, le_rfl⟩

/-- A request is sent, and counts if it may start the command. -/
theorem Inv.send (hinv : Inv s bash) (hn : s.calls[n]? = some call) (hrun : call.run = some e) {phase : RequestId → Phase R}
    (hphase : ∀ s', Grows s s' → s'.requests[s.requests.length]? = some (request, .flying) →
      PhaseOk s' n bash call { e with phase := phase s.requests.length })
    (hidle : Execution.pending { e with phase := phase s.requests.length } = 0)
    (hchosen : Chosen s n call e)
    (hstart : ∀ m id, request = .exec m id → m = n ∧ id = e.execId ∧ e.pending = 1) :
    Inv (s.send n call e request phase) bash := by
  have hcall := hinv.call n call hn
  have hok := hinv.runOk hn hrun
  have hg : Grows s (s.send n call e request phase) :=
    ⟨fun id m h => h, fun r q p h => ⟨p, getElem?_append_some h _⟩,
      fun c cmd h => ⟨cmd, h, rfl, rfl, prefix_rfl, fun _ => rfl⟩⟩
  have hbound := hcall.bound
  simp only [Call.pending, hrun] at hbound
  have hsent : ∀ m, (s.send n call e request phase).count m =
      s.count m + if mayStart m (request, .flying) then 1 else 0 := by
    intro m
    simp only [State.count, State.send, countP_concat]
    omega
  have hmine : ∀ m, mayStart m (request, .flying) → m = n ∧ e.pending = 1 := by
    intro m hm
    cases request with
    | exec k id =>
      obtain ⟨hk, -, hpending⟩ := hstart k id rfl
      exact ⟨(beq_iff_eq.mp hm).symm.trans hk, hpending⟩
    | attach => cases hm
  have hother : ∀ m, m ≠ n → (s.send n call e request phase).count m ≤ s.count m := by
    intro m hm
    rw [hsent m, if_neg (fun h => hm (hmine m h).1)]
    exact le_rfl
  have hphase' := hphase _ hg getElem?_concat_length
  refine hinv.next hg hn rfl ?_ hother (fun c hc => (hinv.command c hc).ids hg) ?_ ?_
  · refine ⟨hcall.owner, ?_, ?_, fun t ht => (hcall.output t ht).grow hg,
      fun t ht => (hcall.writes t ht).grow hg, (by simp), ?_⟩
    · show _ + Execution.pending { e with phase := phase s.requests.length } ≤ 1
      rw [hidle, hsent n]
      split
      next h =>
        have := (hmine n h).2
        omega
      next => omega
    · intro _ hnone
      cases hnone.symm.trans hchosen.memo
    · intro x hx
      cases hx
      have hheld := hok.held.grow hg
      exact ⟨hphase'.congr rfl rfl rfl, { hheld with }, hok.fresh⟩
  · intro m id p h
    rcases mem_append.mp h with h | h
    · exact hinv.request m id p h
    cases mem_singleton.mp h
    obtain ⟨rfl, rfl, -⟩ := hstart m id rfl
    exact hchosen.owner
  · intro q reply h
    rcases mem_append.mp h with h | h
    · exact (hinv.reply q reply h).grow hg
    · cases mem_singleton.mp h

theorem Inv.attempt (hinv : Inv s bash) (hn : s.calls[n]? = some call) (hrun : call.run = some e)
    (hphase : e.phase = .sending) : Inv (s.send n call e (.exec n e.execId) .calling) bash := by
  have hp := (hinv.runOk hn hrun).phase
  simp only [PhaseOk, hphase] at hp
  obtain ⟨hchosen, hattach⟩ := hp
  refine hinv.send hn hrun (fun s' hg hsent => ?_) rfl hchosen fun m id h => ?_
  · exact ⟨(hchosen.grow hg).of_execId rfl, hattach, _, hsent⟩
  · cases h
    exact ⟨rfl, rfl, by simp [Execution.pending, hphase]⟩

theorem Inv.attach (hinv : Inv s bash) (hn : s.calls[n]? = some call) (hrun : call.run = some e)
    (hphase : e.phase = .picking) :
    Inv (s.send n call e (.attach e.execId e.taken) .attaching) bash := by
  have hp := (hinv.runOk hn hrun).phase
  simp only [PhaseOk, hphase] at hp
  refine hinv.send hn hrun (fun s' hg hsent => ?_) rfl hp nofun
  exact ⟨(hp.grow hg).of_execId rfl, _, hsent⟩

theorem count_set (m : CallId) (hr : s.requests[r]? = some (request, .flying)) (hp : p ≠ .flying) :
    (s.requests.set r (request, p)).countP (mayStart m) + (if mayStart m (request, .flying) then 1 else 0) =
      s.requests.countP (mayStart m) := by
  have h := countP_set (mayStart m) hr (request, p)
  have hidle : mayStart m (request, p) = false := by
    cases request with
    | attach => rfl
    | exec k id =>
      cases p with
      | flying => exact absurd rfl hp
      | lost => rfl
      | answered reply => rfl
  rw [hidle] at h
  exact h

theorem grows_set {p' : Progress}
    (hr : s.requests[r]? = some (request, p)) (q : RequestId) (request' : Request) (p₁ : Progress)
    (hq : s.requests[q]? = some (request', p₁)) :
    ∃ p₂, (s.requests.set r (request, p'))[q]? = some (request', p₂) := by
  rw [getElem?_set]
  split
  next heq =>
    subst heq
    cases hr.symm.trans hq
    rw [if_pos (lt_of_getElem? hr)]
    exact ⟨p', rfl⟩
  next => exact ⟨p₁, hq⟩

theorem Inv.notRun (hinv : Inv s bash) (hn : s.calls[n]? = some call) (hrun : call.run = some e) (hphase : e.phase = .calling r) (again : Bool) (why : JsString) :
    Inv (s.notRun n call e r again why) bash := by
  have hcall := hinv.call n call hn
  have hok := hinv.runOk hn hrun
  have hp := hok.phase
  simp only [PhaseOk, hphase] at hp
  obtain ⟨hchosen, hattach, p, hr⟩ := hp
  unfold State.notRun
  split
  next request hflying =>
    cases hr.symm.trans hflying
    let e' : Execution R := { e with phase := if again then .sending else .closing (.error .spawn_error why) }
    let s' : State R := { s with
      calls := s.calls.set n { call with run := some e' },
      requests := s.requests.set r (.exec n e.execId, .lost) }
    have hg : Grows s s' :=
      ⟨fun id m h => h, fun q request p h => grows_set hr q request p h,
        fun c cmd h => ⟨cmd, h, rfl, rfl, prefix_rfl, fun _ => rfl⟩⟩
    have hlost : ∀ m, s'.count m + (if n == m then 1 else 0) = s.count m := by
      intro m
      have h : _ + (if n == m then 1 else 0) = _ := count_set (p := .lost) m hr (by simp)
      show s.commands.countP _ + (s.requests.set r _).countP (mayStart m) + _ =
        s.commands.countP _ + s.requests.countP (mayStart m)
      omega
    have hown := hlost n
    rw [if_pos (beq_self_eq_true n)] at hown
    have hbound := hcall.bound
    have hpending : e'.pending ≤ 1 := by
      cases again <;> simp [e', Execution.pending]
    show Inv s' bash
    refine hinv.next hg hn rfl ?_ (fun m _ => by have := hlost m; omega) (fun c hc => (hinv.command c hc).ids hg) ?_ ?_
    · refine ⟨hcall.owner, ?_, ?_, fun t ht => (hcall.output t ht).grow hg,
        fun t ht => (hcall.writes t ht).grow hg, (by simp), ?_⟩
      · show s'.count n + e'.pending ≤ 1
        omega
      · intro _ hnone
        cases hnone.symm.trans hchosen.memo
      · intro x hx
        cases hx
        have hheld := hok.held.grow hg
        refine ⟨?_, { hheld with }, hok.fresh⟩
        cases again with
        | true => exact ⟨⟨hchosen.owner, hchosen.memo, hchosen.open_⟩, hattach⟩
        | false => exact ⟨⟨hchosen.owner, hchosen.memo, hchosen.open_⟩, .inl hattach⟩
    · intro m id p h
      rcases mem_or_eq_of_mem_set h with h | h
      · exact hinv.request m id p h
      · cases h
        exact hchosen.owner
    · intro q reply h
      rcases mem_or_eq_of_mem_set h with h | h
      · exact (hinv.reply q reply h).grow hg
      · cases h
  next => exact hinv

/-! ### Its output -/

theorem viewOf_eq_none {h h' : List ExecRecord} (hle : h <+: h') (hnone : viewOf h' = none) : viewOf h = none := by
  obtain ⟨t, rfl⟩ := hle
  induction t using List.reverseRecOn with
  | nil => simpa using hnone
  | append_singleton t r ih =>
    rw [← append_assoc, viewOf_append] at hnone
    cases r with
    | update u => cases hnone
    | exit exit => exact ih hnone

theorem Inv.hasOf (hinv : Inv s bash) (hc : c ∈ s.commands) (hchosen : Chosen s n call e)
    (hid : c.execId = e.execId) : s.Has n c := by
  refine ⟨hc, ?_⟩
  have h := (hinv.command c hc).owner
  rw [hid, hchosen.owner] at h
  exact (Option.some.inj h).symm

theorem CallOk.only (hcall : CallOk s n bash call) {c c' : CommandId} {cmd cmd' : Command}
    (hc : s.commands[c]? = some cmd) (hc' : s.commands[c']? = some cmd') (hn : cmd.call = n)
    (hn' : cmd'.call = n) : c = c' := by
  have hbound := hcall.bound
  rw [State.count] at hbound
  by_contra hne
  have h := countP_set (fun c : Command => c.call == n) hc { cmd with call := n + 1 }
  have hpos : 0 < (s.commands.set c { cmd with call := n + 1 }).countP fun c => c.call == n := by
    refine countP_pos_iff.mpr ⟨cmd', mem_of_getElem? (i := c') ?_, by simpa using hn'⟩
    rw [getElem?_set_ne hne]
    exact hc'
  have hother : (n + 1 == n) = false := beq_false_of_ne (Nat.succ_ne_self n)
  simp only [hn, hother, beq_self_eq_true, if_true, Bool.false_eq_true, if_false] at h
  omega

theorem CallOk.hasOnly (hcall : CallOk s n bash call) {c' : Command} (h : s.Has n c) (h' : s.Has n c') : c = c' := by
  obtain ⟨i, hi⟩ := getElem?_of_mem h.1
  obtain ⟨j, hj⟩ := getElem?_of_mem h'.1
  obtain rfl := hcall.only hi hj h.2 h'.2
  exact Option.some.inj (hi.symm.trans hj)

/-- Of its own command, the run holds what its first records add up to. -/
theorem State.Reads.of_has (h : s.Reads n e) (hcall : CallOk s n bash call) (hc : s.Has n c) :
    e.taken ≤ c.history.length ∧ e.view = viewOf (c.history.take e.taken) := by
  rcases h with ⟨htaken, hview⟩ | ⟨c', hc', hle, hview⟩
  · rw [htaken, hview]
    exact ⟨Nat.zero_le _, rfl⟩
  · obtain rfl := hcall.hasOnly hc hc'
    exact ⟨hle, hview⟩

theorem Inv.answer (hinv : Inv s bash) (hn : s.calls[n]? = some call) (hrun : call.run = some e) (hphase : e.phase = .calling r)
    (hreply : s.progress r = some (.answered reply)) : Inv (s.setRun n call (e.answer reply)) bash := by
  have hp := (hinv.runOk hn hrun).phase
  simp only [PhaseOk, hphase] at hp
  obtain ⟨hchosen, hattach, p, hr⟩ := hp
  rw [State.progress, hr] at hreply
  cases hreply
  have hok := hinv.reply _ _ (mem_of_getElem? hr)
  cases reply with
  | started c => exact hinv.setPhase hn hrun _ ⟨hchosen.of_execId rfl, hok⟩ (by simp [Execution.pending])
  | refused why => exact hinv.setPhase hn hrun _ ⟨hchosen.of_execId rfl, .inl hattach⟩ (by simp [Execution.pending])
  | attached c offset view => exact hok.elim

theorem Inv.attachAnswer (hinv : Inv s bash) (hn : s.calls[n]? = some call) (hrun : call.run = some e) (hphase : e.phase = .attaching r)
    (hreply : s.progress r = some (.answered reply)) : Inv (s.setRun n call (e.attachAnswer reply)) bash := by
  have hcall := hinv.call n call hn
  have hok := hinv.runOk hn hrun
  have hp := hok.phase
  simp only [PhaseOk, hphase] at hp
  obtain ⟨hchosen, p, hr⟩ := hp
  rw [State.progress, hr] at hreply
  cases hreply
  have hrok := hinv.reply _ _ (mem_of_getElem? hr)
  cases reply with
  | started c => exact hrok.elim
  | refused why => exact hinv.setPhase hn hrun _ ⟨hchosen.of_execId rfl, .inr (.inl rfl)⟩ (by simp [Execution.pending])
  | attached c offset view =>
    obtain ⟨cmd, hcmd, hid, hasked, hle, hview⟩ := hrok
    have hhas := hinv.hasOf (mem_of_getElem? hcmd) hchosen hid
    obtain ⟨-, hread⟩ := hok.held.reads.of_has hcall hhas
    -- An answer without a view says that there was none to this point, or that nothing was skipped.
    have hheld : view.or e.view = viewOf (cmd.history.take offset) := by
      rcases hview with ⟨rfl, rfl⟩ | hview
      · exact hread
      cases view with
      | some v => exact hview
      | none =>
        have hprefix : cmd.history.take e.taken <+: cmd.history.take offset := take_prefix_take_left hasked
        rw [Option.none_or, hread, viewOf_eq_none hprefix hview.symm, hview]
    refine hinv.setRun hn hrun ?_ { hok.held with reads := .inr ⟨cmd, hhas, hle, hheld⟩ }
      hok.fresh (by simp [Execution.attachAnswer, Execution.attached, Execution.pending])
    exact ⟨hchosen.of_execId rfl, cmd, hcmd, hhas.2⟩

theorem Inv.take (hinv : Inv s bash) (hn : s.calls[n]? = some call) (hrun : call.run = some e)
    {c : CommandId} (hphase : e.phase = .streaming c) {cmd : Command} (hcmd : s.commands[c]? = some cmd)
    {r : ExecRecord} (hr : cmd.history[e.taken]? = some r) : Inv (s.setRun n call (e.take r)) bash := by
  have hcall := hinv.call n call hn
  have hok := hinv.runOk hn hrun
  have hp := hok.phase
  simp only [PhaseOk, hphase] at hp
  obtain ⟨hchosen, cmd', hcmd', hmine⟩ := hp
  cases hcmd.symm.trans hcmd'
  have hhas : s.Has n cmd := ⟨mem_of_getElem? hcmd, hmine⟩
  obtain ⟨hle, hread⟩ := hok.held.reads.of_has hcall hhas
  have htake : cmd.history.take (e.taken + 1) = cmd.history.take e.taken ++ [r] := by
    rw [take_add_one, hr]
    rfl
  have hlt := lt_of_getElem? hr
  cases r with
  | update u =>
    have hview : some (applyShellOutputUpdate e.view u) = viewOf (cmd.history.take (e.taken + 1)) := by
      rw [htake, viewOf_append, ← hread]
      rfl
    refine hinv.setRun hn hrun ?_ { hok.held with reads := .inr ⟨cmd, hhas, hlt, hview⟩ }
      hok.fresh (by simp [Execution.take, Execution.pending, hphase])
    simp only [PhaseOk, Execution.take, hphase]
    exact ⟨hchosen.of_execId rfl, cmd, hcmd, hmine⟩
  | exit exit =>
    have hview : e.view = viewOf (cmd.history.take (e.taken + 1)) := by
      rw [htake, viewOf_append, ← hread]
      rfl
    have hwhole := (hinv.command cmd hhas.1).final _ _ hr rfl
    have hend : e.view = viewOf cmd.history := by
      rw [hview, hwhole, take_length]
    refine hinv.setRun hn hrun ?_ { hok.held with reads := .inr ⟨cmd, hhas, hlt, hview⟩ }
      hok.fresh (by simp [Execution.take, Execution.pending])
    exact ⟨hchosen.of_execId rfl, .inr (.inr (.inr ⟨cmd, hhas, mem_of_getElem? hr, hend⟩))⟩

theorem State.Reads.own (h : s.Reads n e) : s.Own n bash ((bash.partial_ e.view).getD []) := by
  rcases h with ⟨-, hview⟩ | ⟨c, hc, -, hview⟩
  · exact ⟨[], .inl rfl, hview ▸ rfl⟩
  · exact ⟨c.history.take e.taken, .inr ⟨c, hc, take_prefix _ _⟩, by rw [hview]⟩

theorem lastShown_concat (shown : List (Option JsString)) (p : Option JsString) :
    lastShown (shown ++ [p]) = p.or (lastShown shown) := by
  rw [lastShown, foldl_append]
  rfl

theorem Inv.publish (hinv : Inv s bash) (hn : s.calls[n]? = some call) (hrun : call.run = some e)
    (hphase : e.phase.inBash = true) (checkpoint : Bool) : Inv (s.publish bash n call e checkpoint) bash := by
  have hcall := hinv.call n call hn
  have hok := hinv.runOk hn hrun
  have hown : s.Own n bash ((bash.partial_ e.view).getD []) := hok.held.reads.own
  have hheld : HeldOk s n bash (e.publish bash) := by
    refine ⟨hok.held.reads, ?_, hok.held.saved, fun t ht => ?_⟩
    · show (bash.partial_ e.view).or e.latest = (lastShown (e.shown ++ [bash.partial_ e.view])).or e.saved
      rw [lastShown_concat, hok.held.latest, Option.or_assoc]
    rcases mem_append.mp ht with ht | ht
    · exact hok.held.shown t ht
    · rw [← mem_singleton.mp ht] at hown
      exact hown
  have hp : PhaseOk s n bash call (e.publish bash) := by
    have h := hok.phase
    unfold PhaseOk Execution.publish at *
    rcases e with ⟨phase, host, execId, attach, latest, taken, view, saved, shown⟩
    cases phase with
    | reading | readingOutput | recording | ended => cases hphase
    | preparing | sending | calling | attaching | streaming => exact ⟨⟨h.1.owner, h.1.memo, h.1.open_⟩, h.2⟩
    | picking => exact ⟨h.owner, h.memo, h.open_⟩
    | closing exit => exact ⟨⟨h.1.owner, h.1.memo, h.1.open_⟩, h.2⟩
  refine hinv.setCall hn ⟨hcall.owner, ?_, hcall.unstarted, hcall.output, ?_, (by simp), ?_⟩
  · have h := hcall.bound
    simp only [Call.pending, hrun] at h
    exact h
  · intro t ht
    cases checkpoint with
    | false => exact hcall.writes t ht
    | true =>
      rcases mem_append.mp ht with ht | ht
      · exact hcall.writes t ht
      · rw [mem_singleton.mp ht]
        exact hown
  · intro x hx
    cases hx
    refine ⟨hp.congr rfl rfl rfl, hheld, fun h _ => ?_⟩
    exact absurd h (by simp [Execution.publish])

theorem Inv.settle (hinv : Inv s bash) (hn : s.calls[n]? = some call) (hrun : call.run = some e) (hphase : e.phase = .closing exit) :
    Inv (s.setRun n call (e.settle bash exit)) bash := by
  have hok := hinv.runOk hn hrun
  have hp := hok.phase
  simp only [PhaseOk, hphase] at hp
  obtain ⟨-, hsettled⟩ := hp
  -- Either the end is known to be its own, or the command was picked up and is lost.
  unfold Execution.settle
  split
  next message =>
    refine hinv.setPhase hn hrun _ ?_ (by simp [Execution.pending])
    rcases Bool.eq_false_or_eq_true e.attach with hattach | hattach
    · rw [if_pos hattach]
      exact .inr (.inl rfl)
    · exact .inl hattach
  next hknown =>
    refine hinv.setPhase hn hrun _ ?_ (by simp [Execution.pending])
    rcases hsettled with h | h | h | h
    · exact .inl h
    · cases exit with
      | ok => cases h
      | error code message =>
        cases code with
        | unknown => exact absurd rfl (hknown message)
        | _ => cases h
    · exact .inr (.inr (.inl h))
    · exact .inr (.inr (.inr ⟨e.view, exit, h, rfl⟩))

theorem Inv.commit (hinv : Inv s bash) (hn : s.calls[n]? = some call) (hrun : call.run = some e)
    {answer : Answer R} (hphase : e.phase = .ended answer) :
    Inv { s with
      calls := s.calls.set n { call with exec := none, output := none, writes := [], committed := true } } bash := by
  have hcall := hinv.call n call hn
  refine hinv.setCall hn ⟨(by simp), hcall.bound, (by simp), (by simp), (by simp), fun _ => rfl, ?_⟩
  intro x hx
  cases hrun.symm.trans hx
  have hok := hcall.run e hrun
  refine ⟨?_, hok.held, by simp⟩
  have hp := hok.phase
  simp only [PhaseOk, hphase] at hp ⊢
  exact hp

/-! ### Calls and the server process -/

theorem Inv.newCall (hinv : Inv s bash) (invalid : Option JsString) :
    Inv { s with
      calls := s.calls ++
        [{ invalid, exec := none, output := none, writes := [], run := none, committed := false }] } bash := by
  let s' : State R := { s with
    calls := s.calls ++ [{ invalid, exec := none, output := none, writes := [], run := none, committed := false }] }
  have hg : Grows s s' := .of_eq rfl rfl rfl
  refine ⟨fun m c hm => ?_, fun c hc => (hinv.command c hc).ids hg, hinv.request,
    fun q reply h => (hinv.reply q reply h).grow hg, fun m hm => ?_⟩
  · rcases getElem?_concat_cases hm with hm | ⟨rfl, rfl⟩
    · exact (hinv.call m c hm).grow hg le_rfl
    have hcount : s'.count s.calls.length = 0 := hinv.count _ le_rfl
    refine ⟨(by simp), ?_, fun _ _ => hcount, (by simp), (by simp), fun _ => rfl, (by simp)⟩
    rw [hcount]
    exact Nat.zero_le _
  · refine hinv.count m (Nat.le_of_succ_le ?_)
    rwa [length_append] at hm

theorem Inv.onCall (hinv : Inv s bash) (n : CallId) (f : Call R → Call R)
    (hf : ∀ call, CallOk s n bash call → CallOk s n bash (f call)) : Inv (s.onCall n f) bash := by
  unfold State.onCall
  split
  next call hn => exact hinv.setCall hn (hf call (hinv.call n call hn))
  next => exact hinv

theorem CallOk.open_ (hcall : CallOk s n bash call) (host : Bool) : CallOk s n bash (call.open_ host) := by
  unfold Call.open_
  split
  next h =>
    obtain ⟨hidle, hopen⟩ : call.run = none ∧ call.committed = false := by simpa using h
    refine { hcall with bound := ?_, idle := (by simp), run := ?_ }
    · have h := hcall.bound
      simp only [Call.pending, hidle] at h
      exact h
    intro x hx
    cases hx
    refine ⟨⟨hopen, rfl, rfl⟩, ⟨.inl ⟨rfl, rfl⟩, rfl, (by simp [Execution.fresh]), (by simp [Execution.fresh])⟩, ?_⟩
    exact fun _ _ => ⟨hcall.idle hidle, by simp [Execution.fresh]⟩
  next => exact hcall

theorem CallOk.save (hcall : CallOk s n bash call) (i : Nat) : CallOk s n bash (call.save i) := by
  unfold Call.save
  split
  next text hi =>
    have hmem := mem_of_getElem? hi
    have hsome : call.writes ≠ [] := ne_nil_of_mem hmem
    refine ⟨hcall.owner, hcall.bound, hcall.unstarted, ?_, ?_, fun h => absurd (hcall.idle h) hsome, ?_⟩
    · intro t ht
      cases ht
      exact hcall.writes text hmem
    · exact fun t ht => hcall.writes t (mem_of_mem_eraseIdx ht)
    · intro e he
      have hok := hcall.run e he
      exact ⟨hok.phase.congr rfl rfl rfl, hok.held, fun h hopen => absurd (hok.fresh h hopen).1 hsome⟩
  next => exact hcall

theorem Inv.stop (hinv : Inv s bash) : Inv { s with calls := s.calls.map Call.stop } bash := by
  have hg : Grows s { s with calls := s.calls.map Call.stop } := .of_eq rfl rfl rfl
  refine ⟨fun m c hm => ?_, fun c hc => (hinv.command c hc).ids hg, hinv.request,
    fun q reply h => (hinv.reply q reply h).grow hg, fun m hm => ?_⟩
  · rw [getElem?_map] at hm
    obtain ⟨call, hcall, rfl⟩ := Option.map_eq_some_iff.mp hm
    have hok := (hinv.call m call hcall).grow hg le_rfl
    refine ⟨hok.owner, ?_, hok.unstarted, hok.output, (by simp [Call.stop]), fun _ => rfl, (by simp [Call.stop])⟩
    exact (Nat.le_add_right _ _).trans hok.bound
  · rw [length_map] at hm
    exact hinv.count m hm

/-! ### The node -/

/-- A flying request comes to something; nothing else changes but commands. -/
theorem Inv.settleRequest (hinv : Inv s bash) (hr : s.requests[r]? = some (request, .flying)) (hp : p ≠ .flying)
    (hreply : ∀ reply, p = .answered reply → ReplyOk s request reply) :
    Inv { s with requests := s.requests.set r (request, p) } bash := by
  let s' : State R := { s with requests := s.requests.set r (request, p) }
  have hg : Grows s s' :=
    ⟨fun id m h => h, fun q request p h => grows_set hr q request p h,
      fun c cmd h => ⟨cmd, h, rfl, rfl, prefix_rfl, fun _ => rfl⟩⟩
  show Inv s' bash
  refine hinv.node hg rfl (fun m => ?_) (fun c hc => (hinv.command c hc).ids hg) ?_ ?_
  · have h := count_set m hr hp
    show s.commands.countP _ + (s.requests.set r _).countP _ ≤ s.commands.countP _ + s.requests.countP _
    omega
  · intro m id q h
    rcases mem_or_eq_of_mem_set h with h | h
    · exact hinv.request m id q h
    · cases h
      exact hinv.request m id _ (mem_of_getElem? hr)
  · intro q reply h
    rcases mem_or_eq_of_mem_set h with h | h
    · exact (hinv.reply q reply h).grow hg
    · cases h
      exact (hreply reply rfl).grow hg

theorem Inv.start (hinv : Inv s bash) {m : CallId} {id : ExecId}
    (hr : s.requests[r]? = some (.exec m id, .flying)) : Inv (s.serve r (.exec m id)) bash := by
  rcases Bool.eq_false_or_eq_true (s.commands.any fun c => c.known && c.execId == id) with hknown | hknown
  · simp only [State.serve, State.start, hknown, if_true]
    exact hinv.settleRequest hr (by simp) (fun reply h => by cases h; trivial)
  simp only [State.serve, State.start, hknown, Bool.false_eq_true, if_false]
  let c : Command := { call := m, execId := id, history := [], dropped := 0, known := true }
  let s' : State R := { s with
    commands := s.commands ++ [c],
    requests := s.requests.set r (.exec m id, .answered (.started s.commands.length)) }
  have hg : Grows s s' :=
    ⟨fun id m h => h, fun q request p h => grows_set hr q request p h,
      fun c cmd h => ⟨cmd, getElem?_append_some h _, rfl, rfl, prefix_rfl, fun _ => rfl⟩⟩
  have howner := hinv.request m id _ (mem_of_getElem? hr)
  show Inv s' bash
  refine hinv.node hg rfl (fun k => ?_) ?_ ?_ ?_
  · have h : _ + (if m == k then 1 else 0) = _ := count_set (p := .answered (.started s.commands.length)) k hr (by simp)
    show (s.commands ++ [c]).countP _ + (s.requests.set r _).countP _ ≤ s.commands.countP _ + s.requests.countP _
    rw [countP_concat]
    show _ + (if m == k then 1 else 0) + _ ≤ _
    omega
  · intro x hx
    rcases mem_append.mp hx with hx | hx
    · exact (hinv.command x hx).ids hg
    · cases mem_singleton.mp hx
      exact ⟨howner, final_nil, le_rfl⟩
  · intro k id' q h
    rcases mem_or_eq_of_mem_set h with h | h
    · exact hinv.request k id' q h
    · cases h
      exact howner
  · intro q reply h
    rcases mem_or_eq_of_mem_set h with h | h
    · exact (hinv.reply q reply h).grow hg
    · cases h
      exact ⟨c, getElem?_concat_length, rfl⟩

theorem Inv.attachOk (hinv : Inv s bash) (execId : ExecId) (offset : Nat) :
    ReplyOk s (.attach execId offset) (s.attach execId offset) := by
  unfold State.attach
  split
  next => trivial
  next id hid =>
    split
    next c hc =>
      have hfound : c.execId = execId := by
        obtain ⟨hlt, hp, -⟩ := findIdx?_eq_some_iff_getElem.mp hid
        rw [getElem?_eq_getElem hlt] at hc
        cases hc
        simpa using (Bool.and_eq_true_iff.mp hp).2
      have hdropped := (hinv.command c (mem_of_getElem? hc)).dropped
      unfold Command.attach
      split
      next h => exact ⟨c, hc, hfound, (Nat.le_of_lt h).trans hdropped, le_rfl, .inr (by rw [take_length])⟩
      next =>
        split
        next => trivial
        next h => exact ⟨c, hc, hfound, le_rfl, Nat.le_of_not_lt h, .inl ⟨rfl, rfl⟩⟩
    next => trivial

theorem Inv.handle (hinv : Inv s bash)
    (hr : s.requests[r]? = some (request, .flying)) : Inv (s.serve r request) bash := by
  cases request with
  | exec m id => exact hinv.start hr
  | attach execId offset =>
    refine hinv.settleRequest hr (by simp) fun reply h => ?_
    cases h
    exact hinv.attachOk execId offset

theorem Inv.lose (hinv : Inv s bash) (r : RequestId) : Inv (s.lose r) bash := by
  unfold State.lose
  split
  next request hr => exact hinv.settleRequest hr (by simp) nofun
  next => exact hinv

/-- A step of one command: its output grows, and not past its end. -/
theorem Inv.onCommand (hinv : Inv s bash) (c : CommandId) (f : Command → Command)
    (hcall : ∀ x, (f x).call = x.call) (hid : ∀ x, (f x).execId = x.execId)
    (hhistory : ∀ x, x.history <+: (f x).history) (hexited : ∀ x, x.exited → (f x).history = x.history)
    (hok : ∀ x, CommandOk s x → Final (f x).history ∧ (f x).dropped ≤ (f x).history.length) :
    Inv (s.onCommand c f) bash := by
  unfold State.onCommand
  split
  next cmd hc =>
    let s' : State R := { s with commands := s.commands.set c (f cmd) }
    have hg : Grows s s' := by
      refine ⟨fun id m h => h, fun r q p h => ⟨p, h⟩, fun d x hd => ?_⟩
      show ∃ x', (s.commands.set c (f cmd))[d]? = some x' ∧ _
      rw [getElem?_set]
      split
      next heq =>
        subst heq
        cases hc.symm.trans hd
        rw [if_pos (lt_of_getElem? hc)]
        exact ⟨f cmd, rfl, hcall cmd, hid cmd, hhistory cmd, hexited cmd⟩
      next => exact ⟨x, hd, rfl, rfl, prefix_rfl, fun _ => rfl⟩
    show Inv s' bash
    refine hinv.node hg rfl (fun m => ?_) ?_ hinv.request (fun q reply h => (hinv.reply q reply h).grow hg)
    · have h := countP_set (fun c : Command => c.call == m) hc (f cmd)
      simp only [hcall] at h
      show (s.commands.set c (f cmd)).countP _ + s.requests.countP _ ≤ s.commands.countP _ + s.requests.countP _
      omega
    · intro x hx
      rcases mem_or_eq_of_mem_set hx with hx | rfl
      · exact (hinv.command x hx).ids hg
      have hcmd := hinv.command cmd (mem_of_getElem? hc)
      obtain ⟨hfinal, hdropped⟩ := hok cmd hcmd
      refine ⟨?_, hfinal, hdropped⟩
      rw [hid, hcall]
      exact hcmd.owner
  next => exact hinv

theorem Final.concat {h : List ExecRecord} (hopen : h.any ExecRecord.isExit = false) (r : ExecRecord) :
    Final (h ++ [r]) := by
  intro k x hx hexit
  rcases getElem?_concat_cases hx with hx | ⟨rfl, -⟩
  · exact absurd (any_eq_true.mpr ⟨x, mem_of_getElem? hx, hexit⟩) (by rw [hopen]; simp)
  · rw [length_append, length_singleton]

theorem Inv.record (hinv : Inv s bash) (c : CommandId) (r : ExecRecord) :
    Inv (s.onCommand c (Command.record · r)) bash := by
  refine hinv.onCommand c _ (fun x => ?_) (fun x => ?_) (fun x => ?_) (fun x hx => ?_) (fun x hx => ?_)
  · unfold Command.record
    split <;> rfl
  · unfold Command.record
    split <;> rfl
  · unfold Command.record
    split
    · exact prefix_rfl
    · exact prefix_append _ _
  · rw [Command.record, if_pos hx]
  · unfold Command.record
    split
    next => exact ⟨hx.final, hx.dropped⟩
    next hopen =>
      refine ⟨Final.concat (eq_false_of_ne_true hopen) r, hx.dropped.trans ?_⟩
      exact (prefix_append x.history [r]).length_le

theorem Inv.trim (hinv : Inv s bash) (c : CommandId) : Inv (s.onCommand c Command.trim) bash := by
  have hsame : ∀ x : Command, x.trim.call = x.call ∧ x.trim.execId = x.execId ∧ x.trim.history = x.history := by
    intro x
    unfold Command.trim
    split <;> exact ⟨rfl, rfl, rfl⟩
  refine hinv.onCommand c _ (fun x => (hsame x).1) (fun x => (hsame x).2.1)
    (fun x => (hsame x).2.2 ▸ prefix_rfl) (fun x _ => (hsame x).2.2) (fun x hx => ?_)
  unfold Command.trim
  split
  next h => exact ⟨hx.final, Nat.le_of_lt h⟩
  next => exact ⟨hx.final, hx.dropped⟩

theorem Inv.forget (hinv : Inv s bash) (c : CommandId) : Inv (s.onCommand c Command.forget) bash :=
  hinv.onCommand c _ (fun _ => rfl) (fun _ => rfl) (fun _ => prefix_rfl) (fun _ _ => rfl)
    (fun _ hx => ⟨hx.final, hx.dropped⟩)

theorem unlessAnswered_fst (x : Request × Progress) : (unlessAnswered x).1 = x.1 := by
  unfold unlessAnswered
  split <;> rfl

theorem of_unlessAnswered {x : Request × Progress}
    (h : unlessAnswered x = (request, .answered reply)) : x = (request, .answered reply) := by
  unfold unlessAnswered at h
  split at h
  · cases h
  · exact h

theorem mayStart_unlessAnswered (m : CallId) (x : Request × Progress) : mayStart m (unlessAnswered x) = false := by
  rcases x with ⟨request, p⟩
  cases request <;> cases p <;> rfl

theorem Inv.restart (hinv : Inv s bash) :
    Inv { s with requests := s.requests.map unlessAnswered, commands := s.commands.map Command.forget } bash := by
  let s' : State R := { s with requests := s.requests.map unlessAnswered, commands := s.commands.map Command.forget }
  have hg : Grows s s' := by
    refine ⟨fun id m h => h, fun r q p h => ?_, fun c cmd h => ?_⟩
    · refine ⟨(unlessAnswered (q, p)).2, ?_⟩
      rw [getElem?_map, h]
      exact congrArg some (Prod.ext (unlessAnswered_fst (q, p)) rfl)
    refine ⟨cmd.forget, ?_, rfl, rfl, prefix_rfl, fun _ => rfl⟩
    rw [getElem?_map, h]
    rfl
  show Inv s' bash
  refine hinv.node hg rfl (fun m => ?_) ?_ ?_ ?_
  · have hnone : (s.requests.map unlessAnswered).countP (mayStart m) = 0 := by
      rw [countP_eq_zero]
      intro x hx
      obtain ⟨y, -, rfl⟩ := mem_map.mp hx
      rw [mayStart_unlessAnswered]
      exact Bool.false_ne_true
    have hsame : (s.commands.map Command.forget).countP (fun c => c.call == m) =
        s.commands.countP fun c => c.call == m := by
      rw [countP_map]
      rfl
    show (s.commands.map _).countP _ + (s.requests.map unlessAnswered).countP _ ≤ _
    rw [hnone, hsame]
    exact Nat.le_add_right _ _
  · intro c hc
    obtain ⟨cmd, hcmd, rfl⟩ := mem_map.mp hc
    have hok := hinv.command cmd hcmd
    exact ⟨hok.owner, hok.final, hok.dropped⟩
  · intro m id p h
    obtain ⟨⟨request, q⟩, hx, heq⟩ := mem_map.mp h
    have hfst := (unlessAnswered_fst (request, q)).symm.trans (congrArg Prod.fst heq)
    cases hfst
    exact hinv.request m id q hx
  · intro request reply h
    obtain ⟨x, hx, heq⟩ := mem_map.mp h
    exact (hinv.reply request reply (of_unlessAnswered heq ▸ hx)).grow hg

/-! ### All of them -/

theorem Inv.advance (hinv : Inv s bash) (hn : s.calls[n]? = some call) (hrun : call.run = some e)
    (event : Event) : Inv (s.advance bash n call e event) bash := by
  have hp := (hinv.runOk hn hrun).phase
  unfold State.advance
  split
  next h => exact hinv.memo hn hrun h
  next h => exact hinv.output hn hrun h
  next h => exact hinv.store hn hrun h
  next h =>
    simp only [PhaseOk, h] at hp
    refine hinv.setPhase hn hrun _ ⟨hp.1.of_execId rfl, fun _ => hp.2⟩ ?_
    simp only [Execution.pending, h]
    split <;> simp
  next h => exact hinv.exec hn hrun h
  next h => exact hinv.attempt hn hrun h
  next again why r h => exact hinv.notRun hn hrun h again why
  next r h =>
    simp only [PhaseOk, h] at hp
    exact hinv.setPhase hn hrun _ (hp.1.of_execId rfl) (by simp [Execution.pending])
  next r h =>
    split
    next reply hreply => exact hinv.answer hn hrun h hreply
    next => exact hinv
  next h => exact hinv.attach hn hrun h
  next again why r h =>
    simp only [PhaseOk, h] at hp
    cases again with
    | true => exact hinv.setPhase hn hrun _ (hp.1.of_execId rfl) (by simp [Execution.pending])
    | false => exact hinv.setPhase hn hrun _ ⟨hp.1.of_execId rfl, .inr (.inl rfl)⟩ (by simp [Execution.pending])
  next why h =>
    simp only [PhaseOk, h] at hp
    exact hinv.setPhase hn hrun _ ⟨hp.of_execId rfl, .inr (.inl rfl)⟩ (by simp [Execution.pending])
  next r h =>
    split
    next reply hreply => exact hinv.attachAnswer hn hrun h hreply
    next => exact hinv
  next c h =>
    split
    next r hr =>
      obtain ⟨cmd, hcmd, htaken⟩ := Option.bind_eq_some_iff.mp hr
      exact hinv.take hn hrun h hcmd htaken
    next => exact hinv
  next c h =>
    split
    next =>
      simp only [PhaseOk, h] at hp
      exact hinv.setPhase hn hrun _ (hp.1.of_execId rfl) (by simp [Execution.pending])
    next => exact hinv
  next =>
    split
    next h => exact hinv.publish hn hrun h _
    next => exact hinv
  next exit h => exact hinv.settle hn hrun h
  next answer h => exact hinv.commit hn hrun h
  next => exact hinv

theorem Inv.step (hinv : Inv s bash) (event : Event) : Inv (step bash s event) bash := by
  unfold BashCalls.step
  split
  next invalid => exact hinv.newCall invalid
  next n host => exact hinv.onCall n _ fun call h => h.open_ host
  next n i => exact hinv.onCall n _ fun call h => h.save i
  next => exact hinv.stop
  next r =>
    split
    next request hr => exact hinv.handle hr
    next => exact hinv
  next r => exact hinv.lose r
  next c r => exact hinv.record c r
  next c => exact hinv.trim c
  next c => exact hinv.forget c
  next => exact hinv.restart
  next =>
    split
    next => exact hinv
    next n _ =>
      split
      next => exact hinv
      next call hn =>
        split
        next => exact hinv
        next e hrun => exact hinv.advance hn hrun event

theorem Inv.init : Inv (State.init : State R) bash := by
  constructor <;> simp [State.init, State.count]

theorem inv_run (bash : Bash R) (es : List Event) : Inv (run bash es) bash :=
  exec_invariant (Inv · bash) (fun _ event h => h.step event) Inv.init es

end

/-! ## A command runs once, and each rerun ends with what is its own -/

section

variable {R : Type} (bash : Bash R)

def EndsOwn (s : State R) (n : CallId) (call : Call R) (e : Execution R) (answer : Answer R) : Prop :=
  (∃ view exit, s.Result n view exit ∧ answer = .result (bash.result view exit)) ∨
    answer = .interrupted (interrupted e.latest) ∧ e.latest = (lastShown e.shown).or e.saved ∧
      (e.shown = [] → call.committed = false → e.latest = call.output) ∧
      ∀ t, e.latest = some t → s.Own n bash t

theorem CallOk.once {s : State R} {n : CallId} {call : Call R} (hcall : CallOk s n bash call) :
    s.commands.countP (fun c => c.call == n) ≤ 1 := by
  have h := hcall.bound
  rw [State.count] at h
  omega

theorem mem_of_lastShown {shown : List (Option JsString)} {t : JsString} (h : lastShown shown = some t) :
    some t ∈ shown := by
  induction shown using List.reverseRecOn with
  | nil => cases h
  | append_singleton shown p ih =>
    rw [lastShown_concat] at h
    cases p with
    | none => exact mem_append_left _ (ih h)
    | some u =>
      cases h
      exact mem_append_right _ (mem_singleton_self _)

theorem RunOk.endsOwn {s : State R} {n : CallId} {call : Call R} {e : Execution R} {answer : Answer R}
    (hok : RunOk s n bash call e) (hattach : e.attach = true) (hvalid : call.invalid = none)
    (hphase : e.phase = .ended answer) : EndsOwn bash s n call e answer := by
  have hp := hok.phase
  simp only [PhaseOk, hphase] at hp
  rcases hp with h | h | ⟨m, h⟩ | h
  · cases h.symm.trans hattach
  · refine .inr ⟨h, hok.held.latest, fun hshown hopen => ?_, fun t ht => ?_⟩
    · rw [hok.held.latest, hshown, (hok.fresh hshown hopen).2 hattach]
      rfl
    rw [hok.held.latest] at ht
    rcases Option.or_eq_some_iff.mp ht with h | ⟨-, h⟩
    · exact hok.held.shown t (mem_of_lastShown h)
    · exact hok.held.saved t h
  · cases hvalid.symm.trans h
  · exact .inl h

theorem runs_once (es : List Event) : (∀ n, (run bash es).commands.countP (fun c => c.call == n) ≤ 1) ∧
      ∀ n call e answer, (run bash es).calls[n]? = some call → call.run = some e → e.attach = true →
        call.invalid = none → e.phase = .ended answer → EndsOwn bash (run bash es) n call e answer := by
  have hinv := inv_run bash es
  refine ⟨fun n => ?_, fun n call e answer hn hrun hattach hvalid hphase => ?_⟩
  · cases hn : (run bash es).calls[n]? with
    | some call => exact (hinv.call n call hn).once bash
    | none =>
      have h := hinv.count n (getElem?_eq_none_iff.mp hn)
      rw [State.count] at h
      omega
  · exact (hinv.runOk hn hrun).endsOwn bash hattach hvalid hphase

end

/-! ### A call whose command is lost, and one whose command is picked up -/

/-- What `shows` below is run on: a view with a text, and metadata nothing reads. -/
def view (text : JsString) : ShellOutputView where
  text := text
  metadata :=
    { truncation :=
        { truncated := false, truncatedBy := none, totalLines := ⟨0, by decide⟩, totalBytes := ⟨0, by decide⟩,
          outputLines := ⟨0, by decide⟩, outputBytes := ⟨0, by decide⟩, lastLinePartial := false,
          firstLineExceedsLimit := false, maxLines := ⟨2000, by decide, by decide⟩,
          maxBytes := ⟨51200, by decide, by decide⟩ },
      spillPath := none, lastLineBytes := none }

def shows : Bash (Option ShellOutputView) where
  partial_ v := some ((v.map (·.text)).getD [97])
  result v _ := v

/-- A first run that shows something, checkpoints it, and is cut off when its command has made a record. -/
def cutOff : List Event :=
  [.call none, .open 0 true, .memo 0, .store 0, .recorded 0, .exec 0, .attempt 0, .handle 0, .answer 0,
    .publish 0 true, .save 0 0, .record 0 (.update (.replace (view [98]))), .stop,
    .open 0 true, .memo 0, .output 0, .exec 0, .attach 0, .handle 1, .attached 0, .take 0]

/-- The rerun reads the record, and the node restarts. -/
def lostAfterMore : List Event :=
  cutOff ++ [.publish 0 false, .restart, .cut 0, .attach 0, .handle 2, .attached 0, .settle 0]

/-- The rerun reads the record and the command's end. -/
def pickedUp : List Event := cutOff ++ [.record 0 (.exit (.error .timeout [])), .take 0, .settle 0]

/-- The interrupted result carries what the rerun read, which nothing had checkpointed. -/
theorem newer_than_saved : ∃ call e, (run shows lostAfterMore).calls[0]? = some call ∧ call.run = some e ∧
    e.attach = true ∧ call.output = some [97] ∧
    e.phase = .ended (.interrupted (interrupted (some [98]))) ∧
    interrupted (some [98]) ≠ interrupted call.output := by
  refine ⟨_, _, rfl, rfl, rfl, rfl, rfl, fun h => ?_⟩
  have hhead : some (98 : UInt16) = some 97 := congrArg List.head? h
  cases hhead

theorem runs_once_pickedUp : ∃ call e, (run shows pickedUp).calls[0]? = some call ∧ call.run = some e ∧
    e.phase = .ended (.result (some (view [98]))) ∧
    EndsOwn shows (run shows pickedUp) 0 call e (.result (some (view [98]))) := by
  refine ⟨_, _, rfl, rfl, rfl, ?_⟩
  exact (runs_once shows pickedUp).2 0 _ _ _ rfl rfl rfl rfl rfl

end Reins.BashCalls
