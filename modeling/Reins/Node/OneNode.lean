import Reins.Lib.Places
import Reins.Lib.Run
import Reins.Lib.Schema

/-!
# One node a home (`node/src/install.ts`: `start`, `stop`, `recorder`, `observe`, `launch`)

The processes of a machine, those of one node home among them, and the home's two files in `run/`. What
`observe` reads it reads one after another, and other processes go on between any two of its reads, and
between what it saw and what comes of it. A pid is given again once nothing has it, as a process or as a
group; a start time tells two processes of one pid apart.
-/

open Schema Places List Run

namespace Reins.OneNode

abbrev BuildId := JsString

/-- A process, as a file records it. -/
structure Ident where
  pid : Nat
  started : Nat
  deriving DecidableEq

inductive NodeState
  | connecting
  | connected
  | refused
  | stopped
  | updating
  deriving DecidableEq

/-- After it nothing more is recorded. -/
def NodeState.final : NodeState → Bool
  | .refused | .stopped | .updating => true
  | _ => false

/-- `run/node-status.json`. -/
structure StatusFile where
  ident : Ident
  state : NodeState
  message : Option JsString
  buildId : Option BuildId
  deriving DecidableEq

/-! ## Processes -/

/-- What `observe` returns; the launcher only while it runs. -/
structure Seen where
  file : Option StatusFile
  nodeAlive : Bool
  launcher : Option Ident
  deriving DecidableEq

/-- `observe`, between its reads. -/
inductive Look
  | start
  | file (file : Option StatusFile)
  | launcher (file : Option StatusFile) (launcher : Option Ident)
  | alive (file : Option StatusFile) (launcher : Option Ident) (nodeAlive : Bool)
  | seen (s : Seen)
  deriving DecidableEq

/-- A run of the node (`runInstalledNode`). -/
inductive Phase
  /-- In `recorder`. -/
  | asking (look : Look)
  /-- `recorder` returned `runningPid`. -/
  | declined
  /-- `recorder` returned a recorder, which has recorded nothing. -/
  | passed
  | recorded (state : NodeState) (message : Option JsString)
  deriving DecidableEq

inductive Target
  | node (ident : Ident)
  | launcher (ident : Ident)
  deriving DecidableEq

inductive Cli
  | start (replacingBuild : Option BuildId) (look : Look)
  | stop (relaunch : Bool) (signalled : List Target) (look : Look)
  | kill (relaunch : Bool) (signalled : List Target) (target : Target)
  | removeStatus
  | removeLauncher
  | spawn
  /-- The launcher it spawned is process `launcher`, not yet recorded. -/
  | record (launcher : Nat)
  | over
  deriving DecidableEq

inductive Prog
  | foreign
  /-- Run by a node of the home, in its process group. -/
  | command
  | launcher
  /-- A node of the home, run by process `parent`, if that is a launcher. -/
  | node (parent : Option Nat) (buildId : Option BuildId) (phase : Phase)
  | cli (cli : Cli)
  deriving DecidableEq

structure Proc where
  ident : Ident
  group : Ident
  alive : Bool
  prog : Prog
  deriving DecidableEq

structure Machine where
  procs : List Proc
  /-- `run/node-status.json`. -/
  status : Option StatusFile
  /-- `run/launcher.json`. -/
  launcher : Option Ident
  /-- The processes `stop` has signalled. -/
  signalled : List Nat

variable {c : Cli} {parent : Option Nat} {buildId : Option BuildId} {s : Seen}

/-! ## What a process reads -/

def Machine.startTime (m : Machine) (pid : Nat) : Option Nat :=
  (m.procs.find? fun p => p.alive && p.ident.pid = pid).map (·.ident.started)

def Machine.isAlive (m : Machine) (record : Ident) : Bool := m.startTime record.pid = some record.started

def Look.next (m : Machine) : Look → Look
  | .start => .file m.status
  | .file f => .launcher f m.launcher
  | .launcher f l => .alive f l (f.any fun f => m.isAlive f.ident)
  | .alive f l nodeAlive => .seen ⟨f, nodeAlive, l.filter m.isAlive⟩
  | .seen s => .seen s

/-- `launcher.pid === process.ppid`: a process whose parent is gone has another. -/
def Machine.isParent (m : Machine) (parent : Option Nat) (launcher : Ident) : Bool :=
  parent.any fun l => (m.procs[l]?).any fun p => p.alive && p.ident.pid = launcher.pid

/-- What `recorder` answers. -/
def Machine.claim (m : Machine) (p : Proc) (parent : Option Nat) (s : Seen) : Phase :=
  if s.nodeAlive && s.file.any (fun f => f.ident.pid ≠ p.ident.pid) then .declined
  else if !s.nodeAlive && s.launcher.any (fun l => !m.isParent parent l) then .declined
  else .passed

/-! ## What it does -/

def Machine.setProc (m : Machine) (i : Nat) (p : Proc) : Machine := { m with procs := m.procs.set i p }

def Machine.push (m : Machine) (p : Proc) : Machine := { m with procs := m.procs ++ [p] }

/-- `start`, once it has looked. -/
def afterStart (replacingBuild : Option BuildId) (s : Seen) : Cli :=
  let running := s.file.filter fun _ => s.nodeAlive
  let otherBuild := running.any fun f => replacingBuild.any fun b => f.buildId ≠ some b
  let stuck := running.any fun f => f.state = .connecting
  if otherBuild || stuck then .stop true [] .start
  else if s.nodeAlive || s.launcher.isSome then .over
  else .removeStatus

/-- A turn of `stop`'s loop, once it has looked; `late`, after its deadline. -/
def afterLook (relaunch : Bool) (signalled : List Target) (late : Bool) (s : Seen) : Cli :=
  let target := ((s.file.filter fun _ => s.nodeAlive).map fun f => Target.node f.ident).or (s.launcher.map .launcher)
  match target with
  | none => if relaunch then .removeStatus else .over
  | some target =>
    if target ∉ signalled then .kill relaunch signalled target
    else if late then .over
    else .stop relaunch signalled .start

def Target.reaches (t : Target) (p : Proc) : Bool :=
  match t with
  | .node ident => p.alive && p.ident.pid = ident.pid
  | .launcher ident => p.alive && p.group.pid = ident.pid

def Machine.reached (m : Machine) (t : Target) : List Nat :=
  (List.range m.procs.length).filter fun i => (m.procs[i]?).any t.reaches

def Machine.setCli (m : Machine) (i : Nat) (p : Proc) (c : Cli) : Machine := m.setProc i { p with prog := .cli c }

def Machine.cliStep (m : Machine) (i : Nat) (p : Proc) (late : Bool) : Cli → Machine
  | .start replacingBuild look =>
    match look.next m with
    | .seen s => m.setCli i p (afterStart replacingBuild s)
    | look => m.setCli i p (.start replacingBuild look)
  | .stop relaunch signalled look =>
    match look.next m with
    | .seen s => m.setCli i p (afterLook relaunch signalled late s)
    | look => m.setCli i p (.stop relaunch signalled look)
  | .kill relaunch signalled target =>
    { m.setCli i p (if late then .over else .stop relaunch (target :: signalled) .start) with
      signalled := m.signalled ++ m.reached target }
  | .removeStatus => { m.setCli i p .removeLauncher with status := none }
  | .removeLauncher => { m.setCli i p .spawn with launcher := none }
  | .record l =>
    -- A child that is gone has its pid until its parent has looked at it.
    match (m.procs[l]?).filter (·.alive) with
    | some child => { m.setCli i p .over with launcher := some child.ident }
    | none => m.setCli i p .over
  | .spawn | .over => m

def Machine.set (m : Machine) (i : Nat) (p : Proc) (parent : Option Nat) (buildId : Option BuildId)
    (current : Option (NodeState × Option JsString)) (state : NodeState) (message : Option JsString) : Machine :=
  if current.any (·.1.final) || current = some (state, message) then m
  else
    { m.setProc i { p with prog := .node parent buildId (.recorded state message) } with
      status := some ⟨p.ident, state, message, buildId⟩ }

/-! ## The machine -/

inductive Event
  /-- A process starts that is not of the home, or a node in the foreground, or a `start` or `stop`. -/
  | spawn (ident : Ident) (prog : Prog)
  /-- The launcher `l` runs the home's node. -/
  | runNode (l : Nat) (ident : Ident) (buildId : Option BuildId)
  | runCommand (n : Nat) (ident : Ident)
  /-- The `start` that is process `i` spawns the launcher. -/
  | launch (i : Nat) (ident : Ident)
  | next (i : Nat) (late : Bool)
  | set (i : Nat) (state : NodeState) (message : Option JsString)
  | exit (i : Nat)

/-- The system gives no pid that is a process's or a group's, and no start time again with its pid. -/
def Machine.fresh (m : Machine) (id : Ident) : Bool :=
  m.procs.all fun p => p.ident ≠ id && !(p.alive && (p.ident.pid = id.pid || p.group.pid = id.pid))

def Prog.begins : Prog → Bool
  | .foreign | .node none _ (.asking .start) | .cli (.start _ .start) | .cli (.stop false [] .start) => true
  | _ => false

def step (m : Machine) : Event → Machine
  | .spawn id prog => if m.fresh id && prog.begins then m.push ⟨id, id, true, prog⟩ else m
  | .runNode l id buildId =>
    match (m.procs[l]?).filter (·.alive) with
    | some p =>
      -- It waits for the node it runs.
      if p.prog = .launcher && m.fresh id &&
          m.procs.all (fun q => !(q.alive && match q.prog with | .node (some l') _ _ => l' = l | _ => false)) then
        m.push ⟨id, p.group, true, .node (some l) buildId (.asking .start)⟩
      else m
    | none => m
  | .runCommand n id =>
    match (m.procs[n]?).filter (·.alive) with
    | some p =>
      match p.prog with
      | .node .. => if m.fresh id then m.push ⟨id, p.group, true, .command⟩ else m
      | _ => m
    | none => m
  | .launch i id =>
    match (m.procs[i]?).filter (·.alive) with
    | some p =>
      if p.prog = .cli .spawn && m.fresh id then
        (m.push ⟨id, id, true, .launcher⟩).setCli i p (.record m.procs.length)
      else m
    | none => m
  | .next i late =>
    match (m.procs[i]?).filter (·.alive) with
    | some p =>
      match p.prog with
      | .node parent buildId (.asking look) =>
        match look.next m with
        | .seen s => m.setProc i { p with prog := .node parent buildId (m.claim p parent s) }
        | look => m.setProc i { p with prog := .node parent buildId (.asking look) }
      | .cli c => m.cliStep i p late c
      | _ => m
    | none => m
  | .set i state message =>
    match (m.procs[i]?).filter (·.alive) with
    | some p =>
      match p.prog with
      | .node parent buildId .passed => m.set i p parent buildId none state message
      | .node parent buildId (.recorded s text) => m.set i p parent buildId (some (s, text)) state message
      | _ => m
    | none => m
  | .exit i =>
    match m.procs[i]? with
    | some p => m.setProc i { p with alive := false }
    | none => m

def init : Machine := ⟨[], none, none, []⟩

/-! ## What is to hold -/

def Proc.past (p : Proc) : Bool :=
  p.alive && match p.prog with
    | .node _ _ .passed | .node _ _ (.recorded ..) => true
    | _ => false

def AtMostOne (m : Machine) : Prop :=
  ∀ (i j : Nat) (p q : Proc), m.procs[i]? = some p → m.procs[j]? = some q → p.past → q.past → i = j

inductive Kind
  | foreign
  | command
  | launcher
  | node
  | cli
  deriving DecidableEq

def Prog.kind : Prog → Kind
  | .foreign => .foreign
  | .command => .command
  | .launcher => .launcher
  | .node .. => .node
  | .cli _ => .cli

def SignalsOnly (kinds : List Kind) (m : Machine) : Prop :=
  ∀ i ∈ m.signalled, ∃ p, m.procs[i]? = some p ∧ p.prog.kind ∈ kinds

/-! ## Where it does -/

/-- A node that runs and has begun to ask its recorder, and recorded nothing. -/
def Proc.between (p : Proc) : Bool :=
  p.alive && match p.prog with
    | .node _ _ (.asking look) => look ≠ .start
    | .node _ _ .passed => true
    | _ => false

/-- A node begins to ask its recorder while no other is between that and its first record, and `start` removes
the status file while no node is past its recorder. -/
def Apart (m : Machine) : Event → Prop
  | .next i _ => ∀ p, m.procs[i]? = some p → p.alive →
    (∀ parent buildId, p.prog = .node parent buildId (.asking .start) → ∀ q ∈ m.procs, q.between = false) ∧
      (p.prog = .cli .removeStatus → ∀ q ∈ m.procs, q.past = false)
  | _ => True

/-- The pid, or the group, is still of the process that was recorded. -/
def Target.Held (t : Target) (m : Machine) : Prop :=
  ∀ p ∈ m.procs, t.reaches p → match t with
    | .node ident => p.ident = ident
    | .launcher ident => p.group = ident

/-- `stop` signals a pid or a group while it is still of the process it saw. -/
def InTime (m : Machine) : Event → Prop
  | .next i _ => ∀ p relaunch signalled target, m.procs[i]? = some p → p.alive →
    p.prog = .cli (.kill relaunch signalled target) → target.Held m
  | _ => True

/-- And while no command that a node ran is left in the launcher's group. -/
def NoCommandLeft (m : Machine) : Event → Prop
  | .next i _ => ∀ p relaunch signalled target, m.procs[i]? = some p → p.alive →
    p.prog = .cli (.kill relaunch signalled target) → ∀ q ∈ m.procs, target.reaches q → q.prog ≠ .command
  | _ => True

/-! ## What the processes are

A process keeps its identity, its group and its kind, and what is recorded of a process is so of one of its
kind. -/

def Machine.Is (m : Machine) (kind : Kind) (id : Ident) : Prop := ∃ q ∈ m.procs, q.ident = id ∧ q.prog.kind = kind

def Look.file? : Look → Option StatusFile
  | .file f | .launcher f _ | .alive f _ _ => f
  | .seen s => s.file
  | .start => none

def Look.launcher? : Look → Option Ident
  | .launcher _ l | .alive _ l _ => l
  | .seen s => s.launcher
  | _ => none

/-- What was read is of the home's processes. -/
structure Look.Known (look : Look) (m : Machine) : Prop where
  file : ∀ f, look.file? = some f → m.Is .node f.ident
  launcher : ∀ l, look.launcher? = some l → m.Is .launcher l

def Target.Known (t : Target) (m : Machine) : Prop :=
  match t with
  | .node ident => m.Is .node ident
  | .launcher ident => m.Is .launcher ident

/-- What a process has in hand is of the home's processes. -/
def Prog.Known (m : Machine) : Prog → Prop
  | .node _ _ (.asking look) | .cli (.start _ look) | .cli (.stop _ _ look) => look.Known m
  | .cli (.kill _ _ target) => target.Known m
  | .cli (.record l) => ∃ q, m.procs[l]? = some q ∧ q.prog.kind = .launcher
  | _ => True

structure Inv (m : Machine) : Prop where
  ident : ∀ (i j : Nat) (p q : Proc), m.procs[i]? = some p → m.procs[j]? = some q → p.ident = q.ident → i = j
  pid : ∀ (i j : Nat) (p q : Proc), m.procs[i]? = some p → m.procs[j]? = some q → p.alive → q.alive →
    p.ident.pid = q.ident.pid → i = j
  group : ∀ p ∈ m.procs, p.group = p.ident ∨ p.prog.kind = .node ∨ p.prog.kind = .command
  status : ∀ f, m.status = some f → m.Is .node f.ident
  launcher : ∀ l, m.launcher = some l → m.Is .launcher l
  prog : ∀ p ∈ m.procs, p.prog.Known m

section

variable {m m' : Machine} {i j : Nat} {p p' q : Proc}

/-- Every process is still there, and what it was. -/
def Grows (m m' : Machine) : Prop :=
  ∀ (i : Nat) (p : Proc), m.procs[i]? = some p → ∃ p', m'.procs[i]? = some p' ∧ p'.ident = p.ident ∧
    p'.prog.kind = p.prog.kind

theorem Grows.is (h : Grows m m') {kind : Kind} {id : Ident} (hid : m.Is kind id) : m'.Is kind id := by
  obtain ⟨q, hq, rfl, rfl⟩ := hid
  obtain ⟨i, hi⟩ := getElem?_of_mem hq
  obtain ⟨q', hq', hident, hkind⟩ := h i q hi
  exact ⟨q', mem_of_getElem? hq', hident, hkind⟩

theorem Grows.look (h : Grows m m') {look : Look} (hlook : look.Known m) : look.Known m' :=
  ⟨fun f hf => h.is (hlook.file f hf), fun l hl => h.is (hlook.launcher l hl)⟩

theorem Grows.prog (h : Grows m m') {prog : Prog} (hprog : prog.Known m) : prog.Known m' := by
  cases prog with
  | foreign | command | launcher => trivial
  | node parent buildId phase =>
    cases phase with
    | asking look => exact h.look hprog
    | declined | passed | recorded => trivial
  | cli c =>
    cases c with
    | start b look => exact h.look hprog
    | stop r sg look => exact h.look hprog
    | kill r sg target =>
      cases target with
      | node id => exact @Grows.is _ _ h .node _ hprog
      | launcher id => exact @Grows.is _ _ h .launcher _ hprog
    | record l =>
      obtain ⟨q, hq, hkind⟩ := hprog
      obtain ⟨q', hq', -, hkind'⟩ := h l q hq
      exact ⟨q', hq', hkind'.trans hkind⟩
    | removeStatus | removeLauncher | spawn | «over» => trivial

theorem grows_push (m : Machine) (p : Proc) : Grows m (m.push p) := fun _ q hq =>
  ⟨q, getElem?_append_some hq _, rfl, rfl⟩

theorem grows_set (hp : m.procs[i]? = some p) (hident : p'.ident = p.ident) (hkind : p'.prog.kind = p.prog.kind) :
    Grows m (m.setProc i p') := by
  intro j q hq
  by_cases hij : i = j
  · subst hij
    cases hp.symm.trans hq
    exact ⟨p', getElem?_set_self (lt_of_getElem? hp), hident, hkind⟩
  · exact ⟨q, (getElem?_set_ne hij).trans hq, rfl, rfl⟩

theorem fresh_iff {id : Ident} : m.fresh id ↔ ∀ p ∈ m.procs, p.ident ≠ id ∧
    (p.alive → p.ident.pid ≠ id.pid ∧ p.group.pid ≠ id.pid) := by
  unfold Machine.fresh
  rw [all_eq_true]
  refine forall₂_congr fun p _ => ?_
  cases p.alive <;> simp

/-- What a step comes to: every process is what it was, and what is recorded of one is so. -/
structure Goes (m m' : Machine) : Prop where
  grows : Grows m m'
  inv : Inv m'

theorem Goes.stay (h : Inv m) : Goes m m := ⟨fun _ p hp => ⟨p, hp, rfl, rfl⟩, h⟩

theorem Goes.trans {m'' : Machine} (h : Goes m m') (h' : Goes m' m'') : Goes m m'' := by
  refine ⟨fun i p hp => ?_, h'.inv⟩
  obtain ⟨q, hq, hident, hkind⟩ := h.grows i p hp
  obtain ⟨r, hr, hident', hkind'⟩ := h'.grows i q hq
  exact ⟨r, hr, hident'.trans hident, hkind'.trans hkind⟩

theorem Inv.push (h : Inv m) (hfresh : m.fresh p.ident)
    (hgroup : p.group = p.ident ∨ p.prog.kind = .node ∨ p.prog.kind = .command) (hprog : p.prog.Known m) :
    Goes m (m.push p) := by
  have hg := grows_push m p
  have hnew (q : Proc) (hq : q ∈ m.procs) := fresh_iff.mp hfresh q hq
  refine ⟨hg, ?_, ?_, ?_, fun f hf => hg.is (h.status f hf), fun l hl => hg.is (h.launcher l hl), ?_⟩
  · intro i j q r hq hr heq
    rcases getElem?_concat_cases hq with hq' | ⟨rfl, hqp⟩ <;> rcases getElem?_concat_cases hr with hr' | ⟨rfl, hrp⟩
    · exact h.ident i j q r hq' hr' heq
    · exact absurd (hrp ▸ heq) (hnew q (mem_of_getElem? hq')).1
    · exact absurd (hqp ▸ heq).symm (hnew r (mem_of_getElem? hr')).1
    · rfl
  · intro i j q r hq hr haq har heq
    rcases getElem?_concat_cases hq with hq' | ⟨rfl, hqp⟩ <;> rcases getElem?_concat_cases hr with hr' | ⟨rfl, hrp⟩
    · exact h.pid i j q r hq' hr' haq har heq
    · exact absurd (hrp ▸ heq) ((hnew q (mem_of_getElem? hq')).2 haq).1
    · exact absurd (hqp ▸ heq).symm ((hnew r (mem_of_getElem? hr')).2 har).1
    · rfl
  · intro q hq
    rcases mem_append.mp hq with hq | hq
    · exact h.group q hq
    · exact mem_singleton.mp hq ▸ hgroup
  · intro q hq
    rcases mem_append.mp hq with hq | hq
    · exact hg.prog (h.prog q hq)
    · exact hg.prog (mem_singleton.mp hq ▸ hprog)

/-- A process goes on, and the files are what it makes them. -/
theorem Inv.set (h : Inv m) (hp : m.procs[i]? = some p) (p' : Proc) (hident : p'.ident = p.ident) (hgroup : p'.group = p.group)
    (hkind : p'.prog.kind = p.prog.kind) (halive : p'.alive → p.alive) (hprog : p'.prog.Known m)
    (hprocs : m'.procs = m.procs.set i p') (hstatus : ∀ f, m'.status = some f → m.Is .node f.ident)
    (hlauncher : ∀ l, m'.launcher = some l → m.Is .launcher l) : Goes m m' := by
  have hg : Grows m m' := by
    intro j q hq
    rw [hprocs]
    exact grows_set hp hident hkind j q hq
  -- What is at a place is what was there, or the process that went on.
  have hat (j : Nat) (q : Proc) (hq : m'.procs[j]? = some q) :
      ∃ q', m.procs[j]? = some q' ∧ q.ident = q'.ident ∧ q.group = q'.group ∧ q.prog.kind = q'.prog.kind ∧
        (q.alive → q'.alive) ∧ q.prog.Known m := by
    rw [hprocs] at hq
    rcases getElem?_set_cases hq with ⟨rfl, rfl⟩ | ⟨-, hq⟩
    · exact ⟨p, hp, hident, hgroup, hkind, halive, hprog⟩
    · exact ⟨q, hq, rfl, rfl, rfl, id, h.prog q (mem_of_getElem? hq)⟩
  refine ⟨hg, ?_, ?_, ?_, fun f hf => hg.is (hstatus f hf), fun l hl => hg.is (hlauncher l hl), ?_⟩
  · intro j k q r hq hr heq
    obtain ⟨q', hq', hiq, -⟩ := hat j q hq
    obtain ⟨r', hr', hir, -⟩ := hat k r hr
    exact h.ident j k q' r' hq' hr' (hiq ▸ hir ▸ heq)
  · intro j k q r hq hr haq har heq
    obtain ⟨q', hq', hiq, -, -, haq', -⟩ := hat j q hq
    obtain ⟨r', hr', hir, -, -, har', -⟩ := hat k r hr
    exact h.pid j k q' r' hq' hr' (haq' haq) (har' har) (hiq ▸ hir ▸ heq)
  · intro q hq
    obtain ⟨j, hj⟩ := getElem?_of_mem hq
    obtain ⟨q', hq', hiq, hgq, hkq, -⟩ := hat j q hj
    rw [hgq, hiq, hkq]
    exact h.group q' (mem_of_getElem? hq')
  · intro q hq
    obtain ⟨j, hj⟩ := getElem?_of_mem hq
    obtain ⟨-, -, -, -, -, -, hk⟩ := hat j q hj
    exact hg.prog hk

/-- A read finds what the files say, of the home's processes. -/
theorem Look.Known.next (h : Inv m) {look : Look} (hlook : look.Known m) : (look.next m).Known m := by
  cases look with
  | start => exact ⟨h.status, nofun⟩
  | file f => exact ⟨hlook.file, h.launcher⟩
  | launcher f l => exact ⟨hlook.file, hlook.launcher⟩
  | alive f l a =>
    refine ⟨hlook.file, fun l' hl' => hlook.launcher l' ?_⟩
    exact (Option.filter_eq_some_iff.mp hl').1
  | seen s => exact hlook

theorem known_start (m : Machine) : Look.start.Known m := ⟨nofun, nofun⟩

theorem known_afterStart (b : Option BuildId) : (Prog.cli (afterStart b s)).Known m := by
  unfold afterStart
  simp only
  split
  · exact known_start m
  · split <;> trivial

theorem known_afterLook (hs : (Look.seen s).Known m) (relaunch : Bool) (signalled : List Target)
    (late : Bool) : (Prog.cli (afterLook relaunch signalled late s)).Known m := by
  unfold afterLook
  simp only
  split
  · split <;> trivial
  rename_i target htarget
  split
  · rw [Option.or_eq_some_iff] at htarget
    rcases htarget with h | ⟨-, h⟩
    · obtain ⟨f, hf, rfl⟩ := Option.map_eq_some_iff.mp h
      exact hs.file f (Option.filter_eq_some_iff.mp hf).1
    · obtain ⟨l, hl, rfl⟩ := Option.map_eq_some_iff.mp h
      exact hs.launcher l hl
  · split
    · trivial
    · exact known_start m

theorem live_eq (h : (m.procs[i]?).filter (·.alive) = some p) : m.procs[i]? = some p ∧ p.alive :=
  Option.filter_eq_some_iff.mp h

theorem Inv.known (h : Inv m) (hp : m.procs[i]? = some p) : p.prog.Known m := h.prog p (mem_of_getElem? hp)

/-- A `start` or `stop` goes on. -/
theorem Inv.setCli (h : Inv m) (hp : m.procs[i]? = some p) {c' : Cli} (hc : p.prog = .cli c)
    (hc' : (Prog.cli c').Known m) : Goes m (m.setCli i p c') :=
  h.set hp { p with prog := .cli c' } rfl rfl (hc ▸ rfl) id hc' rfl h.status h.launcher

theorem Inv.cliStep (h : Inv m) (hp : m.procs[i]? = some p) (hc : p.prog = .cli c) (late : Bool) :
    Goes m (m.cliStep i p late c) := by
  have hknown := h.known hp
  rw [hc] at hknown
  cases c with
  | start b look =>
    have hnext := Look.Known.next h hknown
    simp only [Machine.cliStep]
    split
    · exact h.setCli hp hc (known_afterStart b)
    · exact h.setCli hp hc hnext
  | stop relaunch signalled look =>
    have hnext := Look.Known.next h hknown
    simp only [Machine.cliStep]
    split
    next s hs =>
      exact h.setCli hp hc (known_afterLook (hs ▸ hnext) ..)
    · exact h.setCli hp hc hnext
  | kill relaunch signalled target =>
    refine h.set hp { p with prog := .cli (if late then .over else .stop relaunch (target :: signalled) .start) } rfl rfl
      (hc ▸ rfl) id ?_ rfl h.status h.launcher
    cases late
    · exact known_start m
    · trivial
  | removeStatus =>
    exact h.set hp { p with prog := .cli .removeLauncher } rfl rfl (hc ▸ rfl) id trivial rfl nofun h.launcher
  | removeLauncher =>
    exact h.set hp { p with prog := .cli .spawn } rfl rfl (hc ▸ rfl) id trivial rfl h.status nofun
  | record l =>
    simp only [Machine.cliStep]
    split
    next child hchild =>
      obtain ⟨hl, -⟩ := live_eq hchild
      obtain ⟨q, hq, hkind⟩ := hknown
      cases hl.symm.trans hq
      refine h.set hp { p with prog := .cli .over } rfl rfl (hc ▸ rfl) id trivial rfl h.status fun l' hl' => ?_
      exact ⟨child, mem_of_getElem? hq, Option.some.inj hl', hkind⟩
    · exact h.setCli hp hc trivial
  | spawn | «over» => exact .stay h

theorem Inv.record (h : Inv m) (hp : m.procs[i]? = some p)
    {phase : Phase} (hprog : p.prog = .node parent buildId phase) (current : Option (NodeState × Option JsString))
    (state : NodeState) (message : Option JsString) : Goes m (m.set i p parent buildId current state message) := by
  unfold Machine.set
  split
  · exact .stay h
  refine h.set hp { p with prog := .node parent buildId (.recorded state message) } rfl rfl (hprog ▸ rfl) id
    trivial rfl (fun f hf => ?_) h.launcher
  cases hf
  exact ⟨p, mem_of_getElem? hp, rfl, hprog ▸ rfl⟩

theorem inv_init : Inv init := by
  constructor <;> simp [init]

theorem known_begins {prog : Prog} (h : prog.begins) : prog.Known m := by
  unfold Prog.begins at h
  split at h
  · trivial
  · exact known_start m
  · exact known_start m
  · exact known_start m
  · cases h

/-- **What is recorded of a process is so, in every run.** -/
theorem inv_step (h : Inv m) (e : Event) : Goes m (step m e) := by
  cases e with
  | spawn id prog =>
    simp only [step]
    split
    next hok =>
      rw [Bool.and_eq_true] at hok
      exact h.push hok.1 (.inl rfl) (known_begins hok.2)
    · exact .stay h
  | runNode l id buildId =>
    simp only [step]
    split
    · split
      next hok =>
        rw [Bool.and_eq_true, Bool.and_eq_true] at hok
        exact h.push hok.1.2 (.inr (.inl rfl)) (known_start m)
      · exact .stay h
    · exact .stay h
  | runCommand n id =>
    simp only [step]
    split
    · split
      · split
        next hok =>
          exact h.push hok (.inr (.inr rfl)) trivial
        · exact .stay h
      · exact .stay h
    · exact .stay h
  | launch i id =>
    simp only [step]
    split
    next p hp =>
      obtain ⟨hp, -⟩ := live_eq hp
      split
      next hok =>
        rw [Bool.and_eq_true, decide_eq_true_eq] at hok
        have hpush : Goes m (m.push ⟨id, id, true, .launcher⟩) := h.push hok.2 (.inl rfl) trivial
        exact hpush.trans (hpush.inv.setCli (getElem?_append_some hp _) hok.1 ⟨_, getElem?_concat_length, rfl⟩)
      · exact .stay h
    · exact .stay h
  | next i late =>
    simp only [step]
    split
    next p hp =>
      obtain ⟨hp, -⟩ := live_eq hp
      split
      next parent buildId look hprog =>
        have hknown := h.known hp
        rw [hprog] at hknown
        have hnext := Look.Known.next h hknown
        split
        · refine h.set hp { p with prog := .node parent buildId (m.claim p parent _) } rfl rfl (hprog ▸ rfl) id ?_
            rfl h.status h.launcher
          unfold Machine.claim
          split
          · trivial
          · split <;> trivial
        · exact h.set hp { p with prog := .node parent buildId (.asking (look.next m)) } rfl rfl (hprog ▸ rfl) id
            hnext rfl h.status h.launcher
      next c hprog =>
        exact h.cliStep hp hprog late
      · exact .stay h
    · exact .stay h
  | set i state message =>
    simp only [step]
    split
    next p hp =>
      obtain ⟨hp, -⟩ := live_eq hp
      split
      next hprog =>
        exact h.record hp hprog ..
      next hprog =>
        exact h.record hp hprog ..
      · exact .stay h
    · exact .stay h
  | exit i =>
    simp only [step]
    split
    next p hp =>
      exact h.set hp { p with alive := false } rfl rfl rfl nofun (h.prog p (mem_of_getElem? hp)) rfl
        h.status h.launcher
    · exact .stay h

/-! ## Who is signalled -/

/-- A step signals nothing, or it is the signal of a `stop`. -/
theorem step_signalled (m : Machine) (e : Event) : (step m e).signalled = m.signalled ∨
    ∃ i late p relaunch signalled target, e = .next i late ∧ m.procs[i]? = some p ∧ p.alive ∧
      p.prog = .cli (.kill relaunch signalled target) ∧ (step m e).signalled = m.signalled ++ m.reached target := by
  cases e with
  | spawn id prog =>
    simp only [step]
    split <;> exact .inl rfl
  | runNode l id buildId =>
    simp only [step]
    split
    · split <;> exact .inl rfl
    · exact .inl rfl
  | runCommand n id =>
    simp only [step]
    split
    · split
      · split <;> exact .inl rfl
      · exact .inl rfl
    · exact .inl rfl
  | launch i id =>
    simp only [step]
    split
    · split <;> exact .inl rfl
    · exact .inl rfl
  | next i late =>
    simp only [step]
    split
    next p hp =>
      obtain ⟨hp, ha⟩ := live_eq hp
      split
      · split <;> exact .inl rfl
      next c hprog =>
        cases c with
        | start b look | stop relaunch signalled look =>
          simp only [Machine.cliStep]
          split <;> exact .inl rfl
        | kill relaunch signalled target =>
          exact .inr ⟨i, late, p, relaunch, signalled, target, rfl, hp, ha, hprog, rfl⟩
        | record l =>
          simp only [Machine.cliStep]
          split <;> exact .inl rfl
        | removeStatus | removeLauncher | spawn | «over» => exact .inl rfl
      · exact .inl rfl
    · exact .inl rfl
  | set i state message =>
    simp only [step]
    split
    · split
      · unfold Machine.set
        split <;> exact .inl rfl
      · unfold Machine.set
        split <;> exact .inl rfl
      · exact .inl rfl
    · exact .inl rfl
  | exit i =>
    simp only [step]
    split <;> exact .inl rfl

theorem mem_reached {t : Target} : i ∈ m.reached t ↔ ∃ p, m.procs[i]? = some p ∧ t.reaches p := by
  unfold Machine.reached
  rw [mem_filter, mem_range]
  constructor
  · rintro ⟨-, h⟩
    exact (Option.any_eq_true ..).mp h
  · rintro ⟨p, hp, ht⟩
    exact ⟨lt_of_getElem? hp, (Option.any_eq_true ..).mpr ⟨p, hp, ht⟩⟩

/-- Whom a signal reaches while the pid or the group is of the process that was recorded. -/
theorem kind_of_reaches (h : Inv m) {t : Target} (ht : t.Known m) (hheld : t.Held m) (hp : m.procs[i]? = some p)
    (hreach : t.reaches p) : p.prog.kind = .node ∨ p.prog.kind = .launcher ∨ p.prog.kind = .command := by
  have hmem := mem_of_getElem? hp
  have hsame := hheld p hmem hreach
  cases t with
  | node ident =>
    obtain ⟨q, hq, hident, hkind⟩ := ht
    obtain ⟨j, hj⟩ := getElem?_of_mem hq
    obtain rfl := h.ident i j p q hp hj (hsame.trans hident.symm)
    cases hp.symm.trans hj
    exact .inl hkind
  | launcher ident =>
    rcases h.group p hmem with hg | hg | hg
    · obtain ⟨q, hq, hident, hkind⟩ := ht
      obtain ⟨j, hj⟩ := getElem?_of_mem hq
      obtain rfl := h.ident i j p q hp hj (hg.symm.trans (hsame.trans hident.symm))
      cases hp.symm.trans hj
      exact .inr (.inl hkind)
    · exact .inl hg
    · exact .inr (.inr hg)

theorem signalsOnly_step {kinds : List Kind} (h : Inv m) (hs : SignalsOnly kinds m) (e : Event)
    (hkill : ∀ i late p relaunch signalled target, e = .next i late → m.procs[i]? = some p → p.alive →
      p.prog = .cli (.kill relaunch signalled target) →
      ∀ (j : Nat) (q : Proc), m.procs[j]? = some q → target.reaches q → q.prog.kind ∈ kinds) :
    SignalsOnly kinds (step m e) := by
  have hg := (inv_step h e).grows
  intro j hj
  have hold : ∃ p, m.procs[j]? = some p ∧ p.prog.kind ∈ kinds := by
    rcases step_signalled m e with heq | ⟨i, late, p, relaunch, signalled, target, rfl, hp, ha, hprog, heq⟩
    · exact hs j (heq ▸ hj)
    rw [heq] at hj
    rcases mem_append.mp hj with hj | hj
    · exact hs j hj
    · obtain ⟨q, hq, hreach⟩ := mem_reached.mp hj
      exact ⟨q, hq, hkill i late p relaunch signalled target rfl hp ha hprog j q hq hreach⟩
  obtain ⟨p, hp, hkind⟩ := hold
  obtain ⟨p', hp', -, hkind'⟩ := hg j p hp
  exact ⟨p', hp', hkind' ▸ hkind⟩

/-! ## One node at a time -/

/-- It read the status file of the process `id`, and found it running if it has looked. -/
def Look.Saw (id : Ident) : Look → Prop
  | .start => False
  | .file f | .launcher f _ => f.map (·.ident) = some id
  | .alive f _ nodeAlive => f.map (·.ident) = some id ∧ nodeAlive = true
  | .seen s => s.file.map (·.ident) = some id ∧ s.nodeAlive = true

/-- What keeps a second node out: the one that runs is in the status file, and any that asks has read so. -/
structure Sep (m : Machine) : Prop where
  one : AtMostOne m
  between : ∀ (i j : Nat) (p q : Proc), m.procs[i]? = some p → m.procs[j]? = some q → p.between → q.between → i = j
  recorded : ∀ p ∈ m.procs, p.past → p.between = false → m.status.map (·.ident) = some p.ident
  asking : ∀ p ∈ m.procs, p.between → ∀ parent buildId look, p.prog = .node parent buildId (.asking look) →
    ∀ q ∈ m.procs, q.past → look.Saw q.ident

theorem sep_init : Sep init := by
  constructor <;> simp [init, AtMostOne]

/-- A step that puts nobody past its recorder and has nobody begin to ask. -/
theorem Sep.quiet (h : Sep m) (hat : ∀ (j : Nat) (q : Proc), m'.procs[j]? = some q →
    m.procs[j]? = some q ∨ q.past = false ∧ q.between = false)
    (hstatus : m'.status = m.status ∨ ∀ q ∈ m.procs, q.past = false) : Sep m' := by
  have hpast (j : Nat) (q : Proc) (hq : m'.procs[j]? = some q) (hp : q.past) : m.procs[j]? = some q := by
    rcases hat j q hq with h | ⟨h, -⟩
    · exact h
    · cases h.symm.trans hp
  have hbetween (j : Nat) (q : Proc) (hq : m'.procs[j]? = some q) (hp : q.between) : m.procs[j]? = some q := by
    rcases hat j q hq with h | ⟨-, h⟩
    · exact h
    · cases h.symm.trans hp
  refine ⟨fun i j p q hp hq hpp hqp => h.one i j p q (hpast i p hp hpp) (hpast j q hq hqp) hpp hqp,
    fun i j p q hp hq hpb hqb => h.between i j p q (hbetween i p hp hpb) (hbetween j q hq hqb) hpb hqb, ?_, ?_⟩
  · intro p hp hpp hpb
    obtain ⟨i, hi⟩ := getElem?_of_mem hp
    have hm := mem_of_getElem? (hpast i p hi hpp)
    rcases hstatus with hs | hs
    · exact hs ▸ h.recorded p hm hpp hpb
    · rw [hs p hm] at hpp
      cases hpp
  · intro p hp hpb parent buildId look hprog q hq hqp
    obtain ⟨i, hi⟩ := getElem?_of_mem hp
    obtain ⟨j, hj⟩ := getElem?_of_mem hq
    exact h.asking p (mem_of_getElem? (hbetween i p hi hpb)) hpb parent buildId look hprog q
      (mem_of_getElem? (hpast j q hj hqp)) hqp

theorem isAlive_of_alive (h : Inv m) (hq : q ∈ m.procs) (ha : q.alive) : m.isAlive q.ident := by
  obtain ⟨j, hj⟩ := getElem?_of_mem hq
  unfold Machine.isAlive Machine.startTime
  cases hf : m.procs.find? fun p => p.alive && p.ident.pid = q.ident.pid with
  | none =>
    have := find?_eq_none.mp hf q hq
    simp [ha] at this
  | some r =>
    have hr := find?_some hf
    simp only [Bool.and_eq_true, decide_eq_true_eq] at hr
    obtain ⟨k, hk⟩ := getElem?_of_mem (mem_of_find?_eq_some hf)
    obtain rfl := h.pid k j r q hk hj hr.1 ha hr.2
    cases hk.symm.trans hj
    simp

theorem Look.Saw.next (h : Inv m) (hq : q ∈ m.procs) (ha : q.alive) {look : Look} (hsaw : look.Saw q.ident) :
    (look.next m).Saw q.ident := by
  cases look with
  | start => exact hsaw.elim
  | file f => exact hsaw
  | launcher f l =>
    refine ⟨hsaw, ?_⟩
    obtain ⟨x, rfl, hx⟩ := Option.map_eq_some_iff.mp hsaw
    exact (congrArg m.isAlive hx).trans (isAlive_of_alive h hq ha)
  | alive f l a => exact hsaw
  | seen s => exact hsaw

theorem alive_of_past (hp : p.past) : p.alive := by
  unfold Proc.past at hp
  exact (Bool.and_eq_true_iff.mp hp).1

theorem Sep.look (h : Sep m) (hinv : Inv m) (hp : m.procs[i]? = some p) (ha : p.alive) {look : Look} (hprog : p.prog = .node parent buildId (.asking look))
    (halone : look = .start → ∀ q ∈ m.procs, q.between = false) :
    Sep (m.setProc i { p with prog := .node parent buildId (.asking (look.next m)) }) := by
  have hpast : Proc.past { p with prog := .node parent buildId (.asking (look.next m)) } = false := by
    simp [Proc.past]
  have hpb (hne : look ≠ .start) : p.between := by simp [Proc.between, ha, hprog, hne]
  -- Nobody else is between.
  have halone' (j : Nat) (q : Proc) (hj : m.procs[j]? = some q) (hqb : q.between) : i = j := by
    by_cases hs : look = .start
    · rw [halone hs q (mem_of_getElem? hj)] at hqb
      cases hqb
    · exact h.between i j p q hp hj (hpb hs) hqb
  have hcases (j : Nat) (q : Proc)
      (hq : (m.setProc i { p with prog := .node parent buildId (.asking (look.next m)) }).procs[j]? = some q) :
      i = j ∧ q = { p with prog := .node parent buildId (.asking (look.next m)) } ∨ i ≠ j ∧ m.procs[j]? = some q :=
    getElem?_set_cases hq
  have hold (j : Nat) (q : Proc)
      (hq : (m.setProc i { p with prog := .node parent buildId (.asking (look.next m)) }).procs[j]? = some q)
      (hqp : q.past) : m.procs[j]? = some q := by
    rcases hcases j q hq with ⟨-, rfl⟩ | ⟨-, hq⟩
    · cases hpast.symm.trans hqp
    · exact hq
  refine ⟨fun j k q r hq hr hqp hrp => h.one j k q r (hold j q hq hqp) (hold k r hr hrp) hqp hrp, ?_, ?_, ?_⟩
  · intro j k q r hq hr hqb hrb
    have hj (j : Nat) (q : Proc)
        (hq : (m.setProc i { p with prog := .node parent buildId (.asking (look.next m)) }).procs[j]? = some q)
        (hqb : q.between) : i = j := by
      rcases hcases j q hq with ⟨rfl, -⟩ | ⟨-, hq⟩
      · rfl
      · exact halone' j q hq hqb
    exact (hj j q hq hqb).symm.trans (hj k r hr hrb)
  · intro q hq hqp hqb
    obtain ⟨j, hj⟩ := getElem?_of_mem hq
    exact h.recorded q (mem_of_getElem? (hold j q hj hqp)) hqp hqb
  · intro r hr hrb parent' buildId' look' hprog' q hq hqp
    obtain ⟨k, hk⟩ := getElem?_of_mem hr
    obtain ⟨j, hj⟩ := getElem?_of_mem hq
    have hqm := mem_of_getElem? (hold j q hj hqp)
    rcases hcases k r hk with ⟨rfl, rfl⟩ | ⟨hne, hk⟩
    · cases hprog'
      by_cases hs : look = .start
      · subst hs
        exact h.recorded q hqm hqp (halone rfl q hqm)
      · exact (h.asking p (mem_of_getElem? hp) (hpb hs) parent buildId look hprog q hqm hqp).next hinv hqm
          (alive_of_past hqp)
    · exact absurd (halone' k r hk hrb) hne

/-- **A node that has asked is let past its recorder only while nobody is.** -/
theorem Sep.claim (h : Sep m) (hinv : Inv m) (hp : m.procs[i]? = some p) (ha : p.alive) {look : Look} (hprog : p.prog = .node parent buildId (.asking look))
    (hs : look.next m = .seen s) :
    Sep (m.setProc i { p with prog := .node parent buildId (m.claim p parent s) }) := by
  have hne : look ≠ .start := by
    rintro rfl
    cases hs
  have hpb : p.between := by simp [Proc.between, ha, hprog, hne]
  have hpp : p.past = false := by simp [Proc.past, hprog]
  have hsaw (q : Proc) (hq : q ∈ m.procs) (hqp : q.past) : (Look.seen s).Saw q.ident :=
    hs ▸ (h.asking p (mem_of_getElem? hp) hpb parent buildId look hprog q hq hqp).next hinv hq (alive_of_past hqp)
  by_cases hphase : m.claim p parent s = .passed
  · -- A node that was past its recorder would have been seen.
    have hnone (q : Proc) (hq : q ∈ m.procs) : q.past = false := by
      by_contra hqp
      rw [Bool.not_eq_false] at hqp
      obtain ⟨j, hj⟩ := getElem?_of_mem hq
      obtain ⟨hfile, halive⟩ := hsaw q hq hqp
      obtain ⟨f, hf, hfq⟩ := Option.map_eq_some_iff.mp hfile
      have hpid : f.ident.pid ≠ p.ident.pid := by
        intro heq
        obtain rfl := hinv.pid j i q p hj hp (alive_of_past hqp) ha (hfq ▸ heq)
        cases hj.symm.trans hp
        cases hpp.symm.trans hqp
      simp [Machine.claim, halive, hf, hpid] at hphase
    rw [hphase]
    have hcases (j : Nat) (q : Proc)
        (hq : (m.setProc i { p with prog := .node parent buildId .passed }).procs[j]? = some q) :
        i = j ∧ q = { p with prog := .node parent buildId .passed } ∨ i ≠ j ∧ m.procs[j]? = some q :=
      getElem?_set_cases hq
    have hpast (j : Nat) (q : Proc)
        (hq : (m.setProc i { p with prog := .node parent buildId .passed }).procs[j]? = some q) (hqp : q.past) :
        i = j ∧ q = { p with prog := .node parent buildId .passed } := by
      rcases hcases j q hq with h | ⟨-, hj⟩
      · exact h
      · rw [hnone q (mem_of_getElem? hj)] at hqp
        cases hqp
    have hbetween (j : Nat) (q : Proc)
        (hq : (m.setProc i { p with prog := .node parent buildId .passed }).procs[j]? = some q) (hqb : q.between) :
        i = j ∧ q = { p with prog := .node parent buildId .passed } := by
      rcases hcases j q hq with h' | ⟨hij, hj⟩
      · exact h'
      · exact absurd (h.between i j p q hp hj hpb hqb) hij
    refine ⟨?_, ?_, ?_, ?_⟩
    · exact fun j k q r hq hr hqp hrp => (hpast j q hq hqp).1.symm.trans (hpast k r hr hrp).1
    · exact fun j k q r hq hr hqb hrb => (hbetween j q hq hqb).1.symm.trans (hbetween k r hr hrb).1
    · intro q hq hqp hqb
      obtain ⟨j, hj⟩ := getElem?_of_mem hq
      obtain ⟨-, rfl⟩ := hpast j q hj hqp
      simp [Proc.between, ha] at hqb
    · intro r hr hrb parent' buildId' look' hprog'
      obtain ⟨k, hk⟩ := getElem?_of_mem hr
      obtain ⟨-, rfl⟩ := hbetween k r hk hrb
      cases hprog'
  · have hdeclined : m.claim p parent s = .declined := by
      unfold Machine.claim at hphase ⊢
      split at hphase
      · simp only [*, if_true]
      · split at hphase <;> simp_all
    rw [hdeclined]
    refine h.quiet (fun j q hq => ?_) (.inl rfl)
    rcases getElem?_set_cases hq with ⟨-, rfl⟩ | ⟨-, hj⟩
    · exact .inr ⟨by simp [Proc.past], by simp [Proc.between]⟩
    · exact .inl hj

theorem Sep.record (h : Sep m) (hp : m.procs[i]? = some p) (hpp : p.past) (state : NodeState) (message : Option JsString)
    (current : Option (NodeState × Option JsString)) : Sep (m.set i p parent buildId current state message) := by
  unfold Machine.set
  split
  · exact h
  have hcases (j : Nat) (q : Proc)
      (hq : (m.procs.set i { p with prog := .node parent buildId (.recorded state message) })[j]? = some q) :
      i = j ∧ q = { p with prog := .node parent buildId (.recorded state message) } ∨ i ≠ j ∧ m.procs[j]? = some q :=
    getElem?_set_cases hq
  have hpast (j : Nat) (q : Proc)
      (hq : (m.procs.set i { p with prog := .node parent buildId (.recorded state message) })[j]? = some q)
      (hqp : q.past) : i = j ∧ q.ident = p.ident := by
    rcases hcases j q hq with ⟨hij, rfl⟩ | ⟨hij, hj⟩
    · exact ⟨hij, rfl⟩
    · exact absurd (h.one i j p q hp hj hpp hqp) hij
  have hbetween (j : Nat) (q : Proc)
      (hq : (m.procs.set i { p with prog := .node parent buildId (.recorded state message) })[j]? = some q)
      (hqb : q.between) : m.procs[j]? = some q := by
    rcases hcases j q hq with ⟨-, rfl⟩ | ⟨-, hj⟩
    · simp [Proc.between] at hqb
    · exact hj
  refine ⟨fun j k q r hq hr hqp hrp => (hpast j q hq hqp).1.symm.trans (hpast k r hr hrp).1,
    fun j k q r hq hr hqb hrb => h.between j k q r (hbetween j q hq hqb) (hbetween k r hr hrb) hqb hrb, ?_, ?_⟩
  · intro q hq hqp hqb
    obtain ⟨j, hj⟩ := getElem?_of_mem hq
    exact congrArg some (hpast j q hj hqp).2.symm
  intro r hr hrb parent' buildId' look hprog q hq hqp
  obtain ⟨k, hk⟩ := getElem?_of_mem hr
  obtain ⟨j, hj⟩ := getElem?_of_mem hq
  rw [(hpast j q hj hqp).2]
  exact h.asking r (mem_of_getElem? (hbetween k r hk hrb)) hrb parent' buildId' look hprog p
    (mem_of_getElem? hp) hpp

theorem Sep.push (h : Sep m) (hp : p.past = false) (hb : p.between = false) : Sep (m.push p) := by
  refine h.quiet (fun j q hq => ?_) (.inl rfl)
  rcases getElem?_concat_cases hq with hq | ⟨-, rfl⟩
  · exact .inl hq
  · exact .inr ⟨hp, hb⟩

/-- A `start` or `stop` goes on, and leaves the status file unless no node is past its recorder. -/
theorem Sep.cli (h : Sep m) (hprocs : m'.procs = m.procs.set i { p with prog := .cli c })
    (hstatus : m'.status = m.status ∨ ∀ q ∈ m.procs, q.past = false) : Sep m' := by
  refine h.quiet (fun j q hq => ?_) hstatus
  rw [hprocs] at hq
  rcases getElem?_set_cases hq with ⟨-, rfl⟩ | ⟨-, hq⟩
  · exact .inr ⟨by simp [Proc.past], by simp [Proc.between]⟩
  · exact .inl hq

theorem Sep.cliStep (h : Sep m) {late : Bool}
    (hremove : c = .removeStatus → ∀ q ∈ m.procs, q.past = false) : Sep (m.cliStep i p late c) := by
  cases c with
  | start b look | stop relaunch signalled look =>
    simp only [Machine.cliStep]
    split <;> exact h.cli rfl (.inl rfl)
  | kill relaunch signalled target => exact h.cli rfl (.inl rfl)
  | removeStatus => exact h.cli rfl (.inr (hremove rfl))
  | removeLauncher => exact h.cli rfl (.inl rfl)
  | record l =>
    simp only [Machine.cliStep]
    split <;> exact h.cli rfl (.inl rfl)
  | spawn | «over» => exact h

theorem sep_step (h : Sep m) (hinv : Inv m) {e : Event} (hapart : Apart m e) : Sep (step m e) := by
  cases e with
  | spawn id prog =>
    simp only [step]
    split
    next hok =>
      rw [Bool.and_eq_true] at hok
      obtain ⟨-, hbegins⟩ := hok
      unfold Prog.begins at hbegins
      split at hbegins
      · exact h.push rfl rfl
      · exact h.push rfl rfl
      · exact h.push rfl rfl
      · exact h.push rfl rfl
      · cases hbegins
    · exact h
  | runNode l id buildId =>
    simp only [step]
    split
    · split
      · exact h.push rfl rfl
      · exact h
    · exact h
  | runCommand n id =>
    simp only [step]
    split
    · split
      · split
        · exact h.push rfl rfl
        · exact h
      · exact h
    · exact h
  | launch i id =>
    simp only [step]
    split
    · split
      · exact (h.push (p := ⟨id, id, true, .launcher⟩) rfl rfl).cli rfl (.inl rfl)
      · exact h
    · exact h
  | next i late =>
    simp only [step]
    split
    next p hp =>
      obtain ⟨hp, ha⟩ := live_eq hp
      have hcond := hapart p hp ha
      split
      next parent buildId look hprog =>
        split
        next s hs =>
          exact h.claim hinv hp ha hprog hs
        · refine h.look hinv hp ha hprog fun hstart => ?_
          subst hstart
          exact hcond.1 parent buildId hprog
      next c hprog =>
        exact h.cliStep fun hc => hcond.2 (hprog.trans (congrArg Prog.cli hc))
      · exact h
    · exact h
  | set i state message =>
    simp only [step]
    split
    next p hp =>
      obtain ⟨hp, ha⟩ := live_eq hp
      split
      next hprog =>
        exact h.record hp (by simp [Proc.past, ha, hprog]) ..
      next hprog =>
        exact h.record hp (by simp [Proc.past, ha, hprog]) ..
      · exact h
    · exact h
  | exit i =>
    simp only [step]
    split
    · refine h.quiet (fun j q hq => ?_) (.inl rfl)
      rcases getElem?_set_cases hq with ⟨-, rfl⟩ | ⟨-, hj⟩
      · exact .inr ⟨rfl, rfl⟩
      · exact .inl hj
    · exact h

end

/-! ## The conditions, decided -/

instance (t : Target) (m : Machine) : Decidable (t.Held m) :=
  match t with
  | .node ident => inferInstanceAs (Decidable (∀ p ∈ m.procs, Target.reaches (.node ident) p → p.ident = ident))
  | .launcher ident => inferInstanceAs (Decidable (∀ p ∈ m.procs, Target.reaches (.launcher ident) p → p.group = ident))

def Prog.asks : Prog → Bool
  | .node _ _ (.asking .start) => true
  | _ => false

def Prog.target? : Prog → Option Target
  | .cli (.kill _ _ target) => some target
  | _ => none

theorem asks_iff {prog : Prog} : prog.asks ↔ ∃ parent buildId, prog = .node parent buildId (.asking .start) := by
  unfold Prog.asks
  split <;> simp_all

theorem target?_iff {prog : Prog} {target : Target} : prog.target? = some target ↔
    ∃ relaunch signalled, prog = .cli (.kill relaunch signalled target) := by
  unfold Prog.target?
  split <;> simp_all

instance (m : Machine) (e : Event) : Decidable (Apart m e) :=
  match e with
  | .next i _ => decidable_of_iff (∀ p ∈ m.procs[i]?, p.alive → (p.prog.asks → ∀ q ∈ m.procs, q.between = false) ∧
      (p.prog = .cli .removeStatus → ∀ q ∈ m.procs, q.past = false)) (by
    refine forall₃_congr fun p _ _ => and_congr_left fun _ => ?_
    rw [asks_iff]
    exact ⟨fun h parent buildId heq => h ⟨parent, buildId, heq⟩, fun h ⟨parent, buildId, heq⟩ => h parent buildId heq⟩)
  | .spawn .. | .runNode .. | .runCommand .. | .launch .. | .set .. | .exit _ => .isTrue trivial

theorem signal_iff {m : Machine} {i : Nat} {P : Target → Prop} :
    (∀ p ∈ m.procs[i]?, p.alive → ∀ target ∈ p.prog.target?, P target) ↔
      ∀ p relaunch signalled target, m.procs[i]? = some p → p.alive →
        p.prog = .cli (.kill relaunch signalled target) → P target := by
  constructor
  · exact fun h p relaunch signalled target hp ha heq => h p hp ha target (target?_iff.mpr ⟨relaunch, signalled, heq⟩)
  intro h p hp ha target ht
  obtain ⟨relaunch, signalled, heq⟩ := target?_iff.mp ht
  exact h p relaunch signalled target hp ha heq

instance (m : Machine) (e : Event) : Decidable (InTime m e) :=
  match e with
  | .next _ _ => decidable_of_iff _ (signal_iff (P := fun target => target.Held m))
  | .spawn .. | .runNode .. | .runCommand .. | .launch .. | .set .. | .exit _ => .isTrue trivial

instance (m : Machine) (e : Event) : Decidable (NoCommandLeft m e) :=
  match e with
  | .next _ _ => decidable_of_iff _ (signal_iff (P := fun target => ∀ q ∈ m.procs, target.reaches q → q.prog ≠ .command))
  | .spawn .. | .runNode .. | .runCommand .. | .launch .. | .set .. | .exit _ => .isTrue trivial

/-! ## Runs -/

/-- **One node a home, and signals for it only**, in every run that meets the conditions: where none begins to
ask its recorder while another is between, and the status file is removed while none is past its recorder, at
most one node is past its recorder at a time; where a pid or a group is signalled while it is of the process
that was seen, only the home's nodes and launcher and what a node runs in the launcher's group are signalled,
and only nodes and launcher where nothing a node ran is left in that group. -/
theorem one_node (es : List Event) : (Along step Apart init es → Always step AtMostOne init es) ∧
      (Along step InTime init es → Always step (SignalsOnly [.node, .launcher, .command]) init es) ∧
      (Along step (fun m e => InTime m e ∧ NoCommandLeft m e) init es →
        Always step (SignalsOnly [.node, .launcher]) init es) := by
  refine ⟨fun h => ?_, fun h => ?_, fun h => ?_⟩
  · exact Along.of_invariant (fun m => Inv m ∧ Sep m) (fun m e hok hi => ⟨(inv_step hi.1 e).inv, sep_step hi.2 hi.1 hok⟩)
      (fun m e hok hi => (sep_step hi.2 hi.1 hok).one) ⟨inv_init, sep_init⟩ h
  · have hstep (m : Machine) (e : Event) (hok : InTime m e) (hi : Inv m ∧ SignalsOnly [.node, .launcher, .command] m) :
        SignalsOnly [.node, .launcher, .command] (step m e) := by
      refine signalsOnly_step hi.1 hi.2 e ?_
      rintro i late p relaunch signalled target rfl hp ha hprog j q hq hreach
      have hknown := hi.1.known hp
      rw [hprog] at hknown
      simpa using kind_of_reaches hi.1 hknown (hok p relaunch signalled target hp ha hprog) hq hreach
    exact Along.of_invariant (fun m => Inv m ∧ SignalsOnly [.node, .launcher, .command] m)
      (fun m e hok hi => ⟨(inv_step hi.1 e).inv, hstep m e hok hi⟩) hstep ⟨inv_init, nofun⟩ h
  · have hstep (m : Machine) (e : Event) (hok : InTime m e ∧ NoCommandLeft m e)
        (hi : Inv m ∧ SignalsOnly [.node, .launcher] m) : SignalsOnly [.node, .launcher] (step m e) := by
      refine signalsOnly_step hi.1 hi.2 e ?_
      rintro i late p relaunch signalled target rfl hp ha hprog j q hq hreach
      have hknown := hi.1.known hp
      rw [hprog] at hknown
      have hcommand := hok.2 p relaunch signalled target hp ha hprog q (mem_of_getElem? hq) hreach
      rcases kind_of_reaches hi.1 hknown (hok.1 p relaunch signalled target hp ha hprog) hq hreach with hk | hk | hk
      · simp [hk]
      · simp [hk]
      · cases hq' : q.prog with
        | command => exact absurd hq' hcommand
        | foreign | launcher | node | cli => rw [hq'] at hk; cases hk
    exact Along.of_invariant (fun m => Inv m ∧ SignalsOnly [.node, .launcher] m)
      (fun m e hok hi => ⟨(inv_step hi.1 e).inv, hstep m e hok hi⟩) hstep ⟨inv_init, nofun⟩ h

def look4 (i : Nat) : List Event := List.replicate 4 (.next i false)

/-- `start` launches the home's node, which connects; `stop` sees it and signals it. -/
def startStop : List Event :=
  .spawn ⟨10, 1⟩ (.cli (.start none .start)) :: look4 0 ++ [.next 0 false, .next 0 false, .launch 0 ⟨11, 2⟩, .next 0 false,
    .runNode 1 ⟨12, 3⟩ none] ++ look4 2 ++ [.set 2 .connected none, .spawn ⟨13, 4⟩ (.cli (.stop false [] .start))] ++
    look4 3 ++ [.next 3 false]

theorem one_node_start_stop : Always step AtMostOne init startStop ∧
    Always step (SignalsOnly [.node, .launcher]) init startStop ∧
    Always step (SignalsOnly [.node, .launcher, .command]) init startStop ∧
    (exec step init startStop).signalled = [2] := by
  obtain ⟨hone, hsignals, hno⟩ := one_node startStop
  exact ⟨hone (by decide), hno (by decide), hsignals (by decide), by decide⟩

def twoNodes : List Event :=
  [.spawn ⟨10, 1⟩ (.node none none (.asking .start)), .spawn ⟨11, 2⟩ (.node none none (.asking .start)),
    .next 0 false, .next 0 false, .next 0 false, .next 1 false, .next 1 false, .next 1 false,
    .next 0 false, .next 1 false]

/-- The node that `stop` has seen ends, and another process is given its pid before the signal. -/
def lateSignal : List Event :=
  .spawn ⟨10, 1⟩ (.node none none (.asking .start)) :: look4 0 ++ [.set 0 .connected none,
    .spawn ⟨11, 2⟩ (.cli (.stop false [] .start))] ++ look4 1 ++ [.exit 0, .spawn ⟨10, 3⟩ .foreign, .next 1 false]

theorem two_nodes_and_a_foreign_signal : ¬ AtMostOne (exec step init twoNodes) ∧
    ¬ SignalsOnly [.node, .launcher, .command] (exec step init lateSignal) := by
  refine ⟨fun h => ?_, fun h => ?_⟩
  · exact absurd (h 0 1 ⟨⟨10, 1⟩, ⟨10, 1⟩, true, .node none none .passed⟩ ⟨⟨11, 2⟩, ⟨11, 2⟩, true, .node none none .passed⟩
      (by decide) (by decide) rfl rfl) (by decide)
  obtain ⟨p, hp, hkind⟩ := h 2 (by decide)
  have hforeign : (exec step init lateSignal).procs[2]? = some ⟨⟨10, 3⟩, ⟨10, 3⟩, true, .foreign⟩ := by decide
  cases hforeign.symm.trans hp
  exact absurd hkind (by decide)

end Reins.OneNode
