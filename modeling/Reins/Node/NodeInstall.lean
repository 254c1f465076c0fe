import Mathlib
import Reins.Lib.Run
import Reins.Lib.Schema
import Reins.Lib.Throwing

/-!
# The node home's files (`node/src/install.ts`)

What installs, updates and pairings do to the node home, one file operation after another. Each operation
may fail, or be where the process is killed, and a write that does not end leaves anything at all in its
file. A run that is killed at an operation shows what the home holds between two of them.
-/

open Utf Schema Throwing Function

namespace Reins.NodeInstall

abbrev Bytes := List UInt8
abbrev BuildId := JsString
abbrev NodeId := JsString

abbrev PrivateKey := JsString

/-! ## The files -/

inductive Path
  | bun
  | current
  | launcher
  /-- `node.json`. -/
  | pairing
  /-- `builds/<buildId>/reins.js`. -/
  | bundle (buildId : BuildId)
  | key (nodeId : NodeId)
  /-- What `replace` writes before it renames it. -/
  | temp (path : Path) (uuid : Nat)
  /-- `bun.zip` in a directory of `mkdtemp`'s. -/
  | zip (dir : Nat)
  /-- `bun` in a directory of `mkdtemp`'s. -/
  | unpacked (dir : Nat)
  deriving DecidableEq

structure Pairing where
  serverUrl : JsString
  nodeId : NodeId
  keyPath : Path
  deriving DecidableEq

inductive Entry
  | file (bytes : Bytes)
  | script (text : JsString)
  | link (buildId : BuildId)
  /-- `node.json`. The key is the one of the pairing that was saved; it is not in the file. -/
  | config (pairing : Pairing) (privateKey : PrivateKey)
  | pem (privateKey : PrivateKey)
  deriving DecidableEq

def Entry.bytes? : Entry → Option Bytes
  | .file bytes => some bytes
  | _ => none

abbrev Disk := Path → Option Entry

inductive Fault
  | none
  /-- The operation throws, and leaves `left` in the file it was writing, if anything. -/
  | fails (left : Option Entry)
  | crashes (left : Option Entry)
  deriving DecidableEq

inductive Failure
  | io
  | unsafeNodeId
  | otherChecksum (short server : JsString)
  | download (failure : JsString)
  | badChecksum (short server : JsString)
  /-- `bunTarget`'s. -/
  | noTarget
  | unpack
  | bunDoesNotRun (version target : JsString)
  deriving DecidableEq

inductive Halt
  | threw (failure : Failure)
  | crashed
  deriving DecidableEq

abbrev InstallM := EStateM Halt Disk

/-! ## File operations -/

def operation (fault : Fault) (change : Disk → Disk) (spoil : Option Entry → Disk → Disk) : InstallM Unit := fun d =>
  match fault with
  | .none => .ok () (change d)
  | .fails left => .error (.threw .io) (spoil left d)
  | .crashes left => .error .crashed (spoil left d)

/-- An operation that changes none of the files: `mkdir`, `chmod`, a read. -/
def touch (fault : Fault) : InstallM Unit := operation fault id fun _ => id

def rm (path : Path) (fault : Fault) : InstallM Unit := operation fault (update · path none) fun _ => id

def write (path : Path) (entry : Entry) (fault : Fault) : InstallM Unit :=
  operation fault (update · path (some entry)) fun left d => left.elim d fun e => update d path (some e)

/-- `write` with `flag: "wx"`. What is written under a name just made up needs no such check. -/
def writeNew (path : Path) (entry : Entry) (fault : Fault) : InstallM Unit := do
  if ((← get) path).isSome then throw (.threw .io) else write path entry fault

def rename (source target : Path) (fault : Fault) : InstallM Unit := do
  match (← get) source with
  | none => throw (.threw .io)
  | some entry => operation fault (fun d => update (update d source none) target (some entry)) fun _ => id

def readFile (path : Path) (fault : Fault) : InstallM Bytes := do
  touch fault
  match ((← get) path).bind (·.bytes?) with
  | some bytes => return bytes
  | none => throw (.threw .io)

def onThrow {α : Type} (m : InstallM α) (cleanup : InstallM Unit) : InstallM α := fun d =>
  match m d with
  | .error (.threw failure) d' =>
    match cleanup d' with
    | .ok _ d'' => .error (.threw failure) d''
    | .error halt d'' => .error halt d''
  | result => result

def catchNull {α : Type} (m : InstallM α) : InstallM (Option α) := fun d =>
  match m d with
  | .ok a d' => .ok (some a) d'
  | .error (.threw _) d' => .ok none d'
  | .error .crashed d' => .error .crashed d'

structure ReplaceFaults where
  uuid : Nat
  write : Fault
  rename : Fault
  remove : Fault

/-- Puts a new file at `path` by writing it beside it and renaming that over it. -/
def replace (path : Path) (f : ReplaceFaults) (write : Path → InstallM Unit) : InstallM Unit :=
  let temp := Path.temp path f.uuid
  onThrow (do write temp; rename temp path f.rename) (rm temp f.remove)

/-! ## The pairing -/

def safeNodeId (nodeId : NodeId) : Bool :=
  nodeId ≠ [] && nodeId.all fun u =>
    0x30 ≤ u && u ≤ 0x39 || 0x41 ≤ u && u ≤ 0x5A || 0x61 ≤ u && u ≤ 0x7A || u = 0x5F || u = 0x2D

structure PairFaults where
  read : Fault
  mkdirHome : Fault
  mkdirKeys : Fault
  writeKey : Fault
  replace : ReplaceFaults
  removeKey : Fault
  removePrevious : Fault

def previousPairing (fault : Fault) : InstallM (Option Pairing) := do
  match ← catchNull (touch fault) with
  | none => return none
  | some _ =>
    match (← get) .pairing with
    | some (.config pairing _) => return some pairing
    | _ => return none

def removePrevious (previous : Option Pairing) (keyPath : Path) (fault : Fault) : InstallM Unit :=
  match previous with
  | some previous => if previous.keyPath ≠ keyPath then rm previous.keyPath fault else pure ()
  | none => pure ()

def savePairing (serverUrl : JsString) (nodeId : NodeId) (privateKey : PrivateKey) (f : PairFaults) :
    InstallM Pairing := do
  if !safeNodeId nodeId then throw (.threw .unsafeNodeId) else do
    let previous ← previousPairing f.read
    touch f.mkdirHome
    touch f.mkdirKeys
    let keyPath := Path.key nodeId
    let pairing : Pairing := { serverUrl, nodeId, keyPath }
    writeNew keyPath (.pem privateKey) f.writeKey
    onThrow (replace .pairing f.replace fun temp => write temp (.config pairing privateKey) f.replace.write)
      (rm keyPath f.removeKey)
    removePrevious previous keyPath f.removePrevious
    return pairing

/-! ## Builds -/

inductive BundlePath
  /-- Outside the home, where nothing here writes. -/
  | outside (bytes : Bytes)
  | build (buildId : BuildId)
  deriving DecidableEq

structure RunningBundle where
  path : BundlePath
  buildId : BuildId

def readBundle (path : BundlePath) (fault : Fault) : InstallM Bytes :=
  match path with
  | .outside bytes => do touch fault; return bytes
  | .build buildId => readFile (.bundle buildId) fault

/-- `realpath`, of a path whose links are followed already. -/
def realpath (path : BundlePath) (fault : Fault) : InstallM BundlePath := do
  touch fault
  match path with
  | .outside _ => return path
  | .build buildId => if ((← get) (.bundle buildId)).isSome then return path else throw (.threw .io)

def shellQuote (value : JsString) : JsString :=
  js "'" ++ value.flatMap (fun u => if u = 0x27 then js "'\\''" else [u]) ++ js "'"

def RESTART_EXIT_CODE : JsString := js "75"

def launcherScript (home : JsString) : JsString := js "#!/bin/sh
# The Reins node launcher, written by `reins node setup`: runs the node home's current build, and runs it
# again when it exits with " ++ RESTART_EXIT_CODE ++ js " (a new build was made current). See docs/dev/node-bundle.md.
REINS_NODE_DATA_DIR=" ++ shellQuote home ++ js "
REINS_NODE_RESTART_EXIT_CODE=" ++ RESTART_EXIT_CODE ++ js "
export REINS_NODE_DATA_DIR REINS_NODE_RESTART_EXIT_CODE
while :; do
  \"$REINS_NODE_DATA_DIR/bun\" --no-install \"$REINS_NODE_DATA_DIR/current/reins.js\" \"$@\"
  status=$?
  [ \"$status\" -eq " ++ RESTART_EXIT_CODE ++ js " ] || exit \"$status\"
done
"

structure BuildFaults where
  mkdirHome : Fault
  realInstalled : Fault
  realPath : Fault
  hash : Fault
  mkdirBuild : Fault
  installed : ReplaceFaults
  current : ReplaceFaults
  mkdirBin : Fault
  launcher : ReplaceFaults
  chmod : Fault

section
variable (sha256 : Bytes → BuildId) (home : JsString)

def sha256File (path : BundlePath) (fault : Fault) : InstallM BuildId := do
  return sha256 (← readBundle path fault)

def runningBundle (path : BundlePath) (fault : Fault) : InstallM RunningBundle := do
  return { path, buildId := ← sha256File sha256 path fault }

def inPlace (bundle : RunningBundle) (f : BuildFaults) : InstallM Bool := do
  match ← catchNull (realpath (.build bundle.buildId) f.realInstalled) with
  | none => return false
  | some target => return (← realpath bundle.path f.realPath) = target

/-- `sha256File(path).catch(() => null)` against the hash it should have. -/
def holds (buildId : BuildId) (fault : Fault) : InstallM Bool := do
  return (← catchNull (sha256File sha256 (.build buildId) fault)) = some buildId

def copyFile (source : BundlePath) (target : Path) (fault : Fault) : InstallM Unit := do
  let bytes ← readBundle source .none
  write target (.file bytes) fault

def putBundle (bundle : RunningBundle) (f : BuildFaults) : InstallM Unit := do
  if ← inPlace bundle f then return
  if ← holds sha256 bundle.buildId f.hash then return
  touch f.mkdirBuild
  replace (.bundle bundle.buildId) f.installed fun temp => copyFile bundle.path temp f.installed.write

def writeLauncher (f : BuildFaults) : InstallM Unit := do
  touch f.mkdirBin
  replace .launcher f.launcher fun temp => do
    write temp (.script (launcherScript home)) f.launcher.write
    touch f.chmod

def installBuild (bundle : RunningBundle) (f : BuildFaults) : InstallM Unit := do
  touch f.mkdirHome
  putBundle sha256 bundle f
  replace .current f.current fun temp => write temp (.link bundle.buildId) f.current.write
  writeLauncher home f

/-! ## Updates -/

structure BuildUpdate where
  buildId : BuildId
  sha256 : BuildId
  bunVersion : JsString

/-- What an update meets outside the home: what the downloads answer, if they do, and what Bun's release is
on this machine. -/
structure UpdateDeps where
  served : Option Bytes
  /-- `Bun.version`. -/
  version : JsString
  /-- `bunTarget` of `thisMachine()`. -/
  target : Option JsString
  release : Option Bytes
  unpack : Bytes → Option Bytes
  /-- What `bun --version` prints, trimmed, when it exits with 0. -/
  ran : Bytes → Option JsString

structure BunFaults where
  dir : Nat
  mkdtemp : Fault
  zip : Fault
  unpack : Fault
  chmod : Fault
  run : Fault
  rename : Fault
  /-- The removal of the directory once Bun is renamed out of it. -/
  remove : Fault
  removeThrown : Fault

structure UpdateFaults where
  hash : Fault
  mkdir : Fault
  bundle : ReplaceFaults
  bun : BunFaults
  build : BuildFaults

def download (response : Option Bytes) (target : Path) (failure : JsString) (fault : Fault) : InstallM BuildId := do
  match response with
  | none => throw (.threw (.download failure))
  | some bytes =>
    write target (.file bytes) fault
    return sha256 bytes

def removeDir (dir : Nat) (fault : Fault) : InstallM Unit :=
  operation fault (fun d => update (update d (.zip dir) none) (.unpacked dir) none) fun _ => id

def unpackBun (deps : UpdateDeps) (f : BunFaults) : InstallM Unit := do
  match deps.unpack (← readFile (.zip f.dir) .none) with
  | none => throw (.threw .unpack)
  | some bun => write (.unpacked f.dir) (.file bun) f.unpack

def ranAs (deps : UpdateDeps) (f : BunFaults) : InstallM (Option JsString) := do
  return (← catchNull do touch f.run; return deps.ran (← readFile (.unpacked f.dir) .none)).join

def fetchBun (bunVersion target : JsString) (deps : UpdateDeps) (f : BunFaults) : InstallM Unit := do
  let _ ← download sha256 deps.release (.zip f.dir)
    (js "could not download Bun " ++ bunVersion ++ js " for " ++ target ++ js " from GitHub") f.zip
  unpackBun deps f
  touch f.chmod
  if (← ranAs deps f) ≠ some bunVersion then throw (.threw (.bunDoesNotRun bunVersion target))

def installBun (bunVersion : JsString) (deps : UpdateDeps) (f : BunFaults) : InstallM Unit := do
  match deps.target with
  | none => throw (.threw .noTarget)
  | some target =>
    touch f.mkdtemp
    onThrow (do fetchBun sha256 bunVersion target deps f; rename (.unpacked f.dir) .bun f.rename)
      (removeDir f.dir f.removeThrown)
    removeDir f.dir f.remove

def updateBun (bunVersion : JsString) (deps : UpdateDeps) (f : BunFaults) : InstallM Unit :=
  if bunVersion ≠ deps.version then installBun sha256 bunVersion deps f else pure ()

def fetchBundle (server : JsString) (u : BuildUpdate) (deps : UpdateDeps) (f : UpdateFaults) : InstallM Unit := do
  if ← holds sha256 u.buildId f.hash then return
  let short := u.buildId.take 12
  touch f.mkdir
  replace (.bundle u.buildId) f.bundle fun temp => do
    let sum ← download sha256 deps.served temp
      (js "could not download build " ++ short ++ js " from " ++ server) f.bundle.write
    if sum ≠ u.sha256 then throw (.threw (.badChecksum short server))

def withoutSlashes (serverUrl : JsString) : JsString := (serverUrl.reverse.dropWhile (· = 0x2F)).reverse

def installUpdate (serverUrl : JsString) (u : BuildUpdate) (deps : UpdateDeps) (f : UpdateFaults) : InstallM Unit := do
  let server := withoutSlashes serverUrl
  if u.sha256 ≠ u.buildId then throw (.threw (.otherChecksum (u.buildId.take 12) server)) else do
    fetchBundle sha256 server u deps f
    updateBun sha256 u.bunVersion deps f.bun
    installBuild sha256 home { path := .build u.buildId, buildId := u.buildId } f.build

end

variable {buildId : BuildId} {fault : Fault} {d' s d'' s' : Disk} {deps : UpdateDeps} {P : Disk → Prop}
  {u : BuildUpdate} {f : BuildFaults} {α : Type} {E : Halt → Disk → Prop} {halt : Halt} {Q : α → Disk → Prop}
  {m : InstallM α} {path : BundlePath}

/-! ## What an operation can do

`real` are the paths something reads. A program that halted says whether it can have thrown: `can` is what
has to be so for that. -/

section

def Path.real : Path → Bool
  | .temp .. | .zip _ | .unpacked _ => false
  | _ => true

def Same (d d' : Disk) : Prop := ∀ p : Path, p.real → d' p = d p

/-- It halted with all as it was, and threw only if `can`. -/
def Quiet (can : Prop) (d : Disk) (halt : Halt) (d' : Disk) : Prop := Same d d' ∧ (halt ≠ .crashed → can)

/-- `path` holds `entry`, and all else is as it was. -/
def Placed (path : Path) (entry : Entry) (d d' : Disk) : Prop :=
  ∀ p : Path, p.real → d' p = update d path (some entry) p

def Fault.failing : Fault → Bool
  | .fails _ => true
  | _ => false

variable {d d' : Disk} {can can' : Prop} {fault : Fault} {path : Path} {entry : Entry}

theorem Same.refl (d : Disk) : Same d d := fun _ _ => rfl

theorem Same.trans (h : Same d d') (h' : Same d' d'') : Same d d'' := fun p hp => (h' p hp).trans (h p hp)

theorem Same.update (h : Same d d') (hpath : path.real = false) (e : Option Entry) :
    Same d (Function.update d' path e) := by
  intro p hp
  have hne : p ≠ path := by
    rintro rfl
    cases hpath.symm.trans hp
  rw [update_of_ne hne]
  exact h p hp

theorem operation_spec {change : Disk → Disk} {spoil : Option Entry → Disk → Disk} {Q : Disk → Prop}
    (hchange : ∀ s, P s → Q (change s)) (hspoil : ∀ left s, P s → Same d (spoil left s))
    (hcan : fault.failing → can) : Triple P (operation fault change spoil) (fun _ => Q) (Quiet can d) := by
  intro s hs
  cases fault with
  | none => exact hchange s hs
  | fails left => exact ⟨hspoil left s hs, fun _ => hcan rfl⟩
  | crashes left => exact ⟨hspoil left s hs, fun h => (h rfl).elim⟩

theorem touch_after (hP : ∀ s, P s → Same d s) (hcan : fault.failing → can) :
    Triple P (touch fault) (fun _ => P) (Quiet can d) :=
  operation_spec (fun _ hs => hs) (fun _ s hs => hP s hs) hcan

theorem touch_spec (hcan : fault.failing → can) : Triple (Same d) (touch fault) (fun _ => Same d) (Quiet can d) :=
  touch_after (fun _ hs => hs) hcan

theorem rm_spec (hpath : path.real = false) (hcan : fault.failing → can) :
    Triple (Same d) (rm path fault) (fun _ => Same d) (Quiet can d) :=
  operation_spec (fun _ hs => hs.update hpath none) (fun _ _ hs => hs) hcan

theorem write_spec (hpath : path.real = false) (hcan : fault.failing → can) :
    Triple (Same d) (write path entry fault) (fun _ s => Same d s ∧ s path = some entry) (Quiet can d) := by
  refine operation_spec (fun s hs => ⟨hs.update hpath _, update_self ..⟩) ?_ hcan
  intro left s hs
  cases left with
  | none => exact hs
  | some e => exact hs.update hpath _

theorem triple_get {f : Disk → InstallM α} (h : ∀ s, P s → Triple (fun s' => s' = s) (f s) Q E) :
    Triple P (get >>= f) Q E := by
  intro s hs
  exact h s hs s rfl

theorem rename_spec {source : Path} (target : Path) (hsource : source.real = false) (hcan : fault.failing → can) :
    Triple (fun s => Same d s ∧ s source = some entry) (rename source target fault) (fun _ => Placed target entry d)
      (Quiet can d) := by
  refine triple_get fun s hs => ?_
  simp only [hs.2]
  refine operation_spec ?_ (fun _ s' hs' => hs' ▸ hs.1) hcan
  rintro s' rfl p hp
  by_cases hpp : p = target
  · simp [hpp]
  · rw [update_of_ne hpp, update_of_ne hpp]
    exact hs.1.update hsource none p hp

theorem onThrow_spec {cleanup : InstallM Unit} {E' : Halt → Disk → Prop} (hm : Triple P m Q E) (hcrash : ∀ s, E .crashed s → E' .crashed s)
    (hcleanup : ∀ failure, Triple (E (.threw failure)) cleanup (fun _ s => E' (.threw failure) s) E') :
    Triple P (onThrow m cleanup) Q E' := by
  intro s hs
  have hm := hm s hs
  unfold onThrow
  cases hr : m s with
  | ok a s' =>
    rw [hr] at hm
    exact hm
  | error halt s' =>
    rw [hr] at hm
    cases halt with
    | crashed => exact hcrash s' hm
    | threw failure =>
      have hc := hcleanup failure s' hm
      cases hk : cleanup s' with
      | ok u s'' =>
        rw [hk] at hc
        simpa [hk] using hc
      | error halt s'' =>
        rw [hk] at hc
        simpa [hk] using hc

theorem catchNull_spec {Q : Option α → Disk → Prop}
    {E' : Halt → Disk → Prop} (hm : Triple P m (fun a => Q (some a)) E) (hnull : ∀ failure s, E (.threw failure) s → Q none s)
    (hcrash : ∀ s, E .crashed s → E' .crashed s) : Triple P (catchNull m) Q E' := by
  intro s hs
  have hm := hm s hs
  unfold catchNull
  cases hr : m s with
  | ok a s' =>
    rw [hr] at hm
    exact hm
  | error halt s' =>
    rw [hr] at hm
    cases halt with
    | crashed => exact hcrash s' hm
    | threw failure => exact hnull failure s' hm

/-- **`replace` puts the whole of what was written at `path`, or leaves everything as it was.** -/
theorem replace_spec {f : ReplaceFaults} {w : Path → InstallM Unit} {W : Entry → Prop}
    (hw : ∀ temp : Path, temp.real = false →
      Triple (Same d) (w temp) (fun _ s => Same d s ∧ ∃ e, W e ∧ s temp = some e) (Quiet can d))
    (hcan : f.rename.failing → can) :
    Triple (Same d) (replace path f w) (fun _ s => ∃ e, W e ∧ Placed path e d s) (Quiet can d) := by
  unfold replace
  refine onThrow_spec (E := Quiet can d) (Triple.bind (hw _ rfl) fun _ => ?_) (fun _ h => h) ?_
  · intro s ⟨hs, e, he, htemp⟩
    have h := rename_spec path rfl hcan s ⟨hs, htemp⟩
    cases hr : rename (.temp path f.uuid) path f.rename s with
    | ok u s' =>
      rw [hr] at h
      exact ⟨e, he, h⟩
    | error halt s' =>
      rw [hr] at h
      exact h
  · intro failure s hs
    exact rm_spec rfl (fun _ => hs.2 nofun) |>.mono (fun _ h => h.1) (fun _ _ h => ⟨h, fun _ => hs.2 nofun⟩)
      (fun _ _ h => h) s hs

end

/-! ## Builds: what comes of an install -/

section

variable {sha256 : Bytes → BuildId} {home : JsString} {d : Disk} {can : Prop}

def Whole (sha256 : Bytes → BuildId) (buildId : BuildId) (d : Disk) : Prop :=
  ∃ bytes, d (.bundle buildId) = some (.file bytes) ∧ sha256 bytes = buildId

def bytesAt (d : Disk) : BundlePath → Option Bytes
  | .outside bytes => some bytes
  | .build buildId => (d (.bundle buildId)).bind (·.bytes?)

theorem bytes?_eq {e : Option Entry} {bytes : Bytes} : e.bind (·.bytes?) = some bytes ↔ e = some (.file bytes) := by
  constructor
  · intro h
    obtain ⟨entry, rfl, he⟩ := Option.bind_eq_some_iff.mp h
    cases entry <;> cases he
    rfl
  · rintro rfl
    rfl

theorem Same.bytesAt (h : Same d d') (path : BundlePath) : bytesAt d' path = bytesAt d path := by
  cases path with
  | outside bytes => rfl
  | build buildId => simp [NodeInstall.bytesAt, h (.bundle buildId) rfl]

theorem readFile_spec {path : Path} :
    Triple P (readFile path fault) (fun bytes s => P s ∧ (s path).bind (·.bytes?) = some bytes)
      (fun halt s => P s ∧ (halt ≠ .crashed → fault.failing ∨ (s path).bind (·.bytes?) = none)) := by
  refine Triple.bind (Q := fun _ => P) ?_ fun _ s hs => ?_
  · intro s hs
    cases fault with
    | none => exact hs
    | fails left => exact ⟨hs, fun _ => .inl rfl⟩
    | crashes left => exact ⟨hs, fun h => (h rfl).elim⟩
  · simp only [bind, EStateM.bind, get, getThe, MonadStateOf.get, EStateM.get]
    cases hp : (s path).bind (·.bytes?) with
    | some bytes => exact ⟨hs, hp⟩
    | none => exact ⟨hs, fun _ => .inr hp⟩

theorem readBundle_spec (hcan : fault.failing ∨ bytesAt d path = none → can) :
    Triple (Same d) (readBundle path fault) (fun bytes s => Same d s ∧ bytesAt d path = some bytes) (Quiet can d) := by
  cases path with
  | outside bytes => refine Triple.bind (touch_spec fun h => hcan (.inl h)) fun _ => triple_pure fun s hs => ⟨hs, rfl⟩
  | build buildId =>
    refine readFile_spec.mono (fun _ h => h) ?_ ?_
    · intro bytes s ⟨hs, hp⟩
      rw [hs (.bundle buildId) rfl] at hp
      exact ⟨hs, hp⟩
    intro halt s ⟨hs, h⟩
    rw [hs (.bundle buildId) rfl] at h
    exact ⟨hs, fun hne => hcan (h hne)⟩

theorem realpath_spec (hcan : fault.failing ∨ bytesAt d path = none → can) :
    Triple (Same d) (realpath path fault) (fun target s => Same d s ∧ target = path) (Quiet can d) := by
  refine Triple.bind (touch_spec fun h => hcan (.inl h)) fun _ => ?_
  cases path with
  | outside bytes => exact triple_pure fun s hs => ⟨hs, rfl⟩
  | build buildId =>
    refine triple_get fun s hs => triple_ite (fun _ => ?_) fun hp => ?_
    · exact triple_pure fun s' hs' => ⟨hs' ▸ hs, rfl⟩
    refine triple_throw fun s' hs' => ⟨hs' ▸ hs, fun _ => hcan (.inr ?_)⟩
    rw [Option.not_isSome_iff_eq_none] at hp
    rw [← hs.bytesAt, bytesAt, hp]
    rfl

theorem sha256File_spec (hcan : fault.failing ∨ bytesAt d path = none → can) :
    Triple (Same d) (sha256File sha256 path fault)
      (fun sum s => Same d s ∧ ∃ bytes, bytesAt d path = some bytes ∧ sha256 bytes = sum) (Quiet can d) :=
  Triple.bind (readBundle_spec hcan) fun bytes => triple_pure fun _ hs => ⟨hs.1, bytes, hs.2, rfl⟩

theorem holds_spec :
    Triple (Same d) (holds sha256 buildId fault) (fun r s => Same d s ∧ (r = true → Whole sha256 buildId d))
      (Quiet can d) := by
  refine Triple.bind (Q := fun r s => Same d s ∧ (r = some buildId → Whole sha256 buildId d)) ?_ fun r =>
    triple_pure fun s hs => ⟨hs.1, fun h => hs.2 (of_decide_eq_true h)⟩
  refine catchNull_spec (E := Quiet True d) ?_ (fun _ _ h => ⟨h.1, nofun⟩) fun _ h => ⟨h.1, fun hne => (hne rfl).elim⟩
  refine (sha256File_spec fun _ => trivial).mono (fun _ h => h) ?_ fun _ _ h => h
  rintro sum s ⟨hs, bytes, hb, hsum⟩
  refine ⟨hs, fun h => ?_⟩
  cases h
  exact ⟨bytes, bytes?_eq.mp hb, hsum⟩

theorem inPlace_spec {bundle : RunningBundle} (hcan : f.realPath.failing ∨ bytesAt d bundle.path = none → can) :
    Triple (Same d) (inPlace bundle f) (fun r s => Same d s ∧ (r = true → bundle.path = .build bundle.buildId))
      (Quiet can d) := by
  refine Triple.bind (Q := fun r s => Same d s ∧ ∀ target, r = some target → target = .build bundle.buildId) ?_ ?_
  · refine catchNull_spec (E := Quiet True d) ?_ (fun _ _ h => ⟨h.1, nofun⟩) fun _ h => ⟨h.1, fun hne => (hne rfl).elim⟩
    refine (realpath_spec fun _ => trivial).mono (fun _ h => h) ?_ fun _ _ h => h
    rintro target s ⟨hs, rfl⟩
    exact ⟨hs, fun _ ht => (Option.some.inj ht).symm⟩
  · intro r
    cases r with
    | none => exact triple_pure fun s hs => ⟨hs.1, nofun⟩
    | some target =>
      refine triple_mono_left (fun s hs => ⟨hs.1, hs.2 target rfl⟩) (triple_assume fun htarget => ?_)
      refine Triple.bind (realpath_spec hcan) fun own => triple_pure fun s hs => ⟨hs.1, fun h => ?_⟩
      rw [← hs.2, of_decide_eq_true h, htarget]

theorem copyFile_spec {source : BundlePath} {temp : Path} (htemp : temp.real = false)
    (hcan : fault.failing ∨ bytesAt d source = none → can) :
    Triple (Same d) (copyFile source temp fault)
      (fun _ s => Same d s ∧ ∃ e, (∃ bytes, bytesAt d source = some bytes ∧ e = .file bytes) ∧ s temp = some e)
      (Quiet can d) := by
  refine Triple.bind (readBundle_spec fun h => hcan (.inr (h.resolve_left nofun))) fun bytes => ?_
  refine triple_assume fun hb => (write_spec htemp fun h => hcan (.inl h)).mono (fun _ h => h) ?_ fun _ _ h => h
  exact fun _ s hs => ⟨hs.1, _, ⟨bytes, hb, rfl⟩, hs.2⟩

theorem triple_from (h : ∀ s, P s → Triple (Same s) m Q E) : Triple P m Q E := fun s hs => h s hs s (.refl s)

def ReplaceFaults.failing (f : ReplaceFaults) : Bool := f.write.failing || f.rename.failing

def BuildFaults.failingBefore (f : BuildFaults) : Bool :=
  f.mkdirHome.failing || f.realPath.failing || f.mkdirBuild.failing || f.installed.failing || f.current.failing

def BuildFaults.failingAfter (f : BuildFaults) : Bool := f.mkdirBin.failing || f.launcher.failing || f.chmod.failing

def Built (sha256 : Bytes → BuildId) (buildId : BuildId) (d d' : Disk) : Prop :=
  Whole sha256 buildId d' ∧ ∀ p : Path, p.real → p ≠ .bundle buildId → d' p = d p

theorem Whole.same (h : Whole sha256 buildId d) (hs : Same d d') : Whole sha256 buildId d' := by
  obtain ⟨bytes, hb, hsum⟩ := h
  exact ⟨bytes, (hs _ rfl).trans hb, hsum⟩

theorem Whole.built (h : Whole sha256 buildId d) (hs : Same d d') :
    Built sha256 buildId d d' := ⟨h.same hs, fun p hp _ => hs p hp⟩

theorem Placed.built {bytes : Bytes} (h : Placed (.bundle buildId) (.file bytes) d d')
    (hsum : sha256 bytes = buildId) : Built sha256 buildId d d' := by
  refine ⟨⟨bytes, (h _ rfl).trans (update_self ..), hsum⟩, fun p hp hne => ?_⟩
  rw [h p hp, update_of_ne hne]

theorem putBundle_spec {bundle : RunningBundle}
    (hown : ∃ bytes, bytesAt d bundle.path = some bytes ∧ sha256 bytes = bundle.buildId)
    (hcan : f.failingBefore → can) :
    Triple (Same d) (putBundle sha256 bundle f) (fun _ s => Built sha256 bundle.buildId d s) (Quiet can d) := by
  obtain ⟨bytes, hb, hsum⟩ := hown
  refine Triple.bind (inPlace_spec fun h => hcan ?_) fun r => ?_
  · rcases h with h | h
    · simp [BuildFaults.failingBefore, h]
    · cases hb.symm.trans h
  refine triple_ite (fun hr => triple_pure fun _ hs => ?_) fun _ => triple_mono_left (fun _ hs => hs.1) ?_
  · rw [hs.2 hr] at hb
    exact Whole.built ⟨bytes, bytes?_eq.mp hb, hsum⟩ hs.1
  refine Triple.bind holds_spec fun r => ?_
  refine triple_ite (fun hr => triple_pure fun s hs => (hs.2 hr).built hs.1) fun _ => triple_mono_left (fun _ hs => hs.1) ?_
  refine Triple.bind (touch_spec fun h => hcan ?_) fun _ => ?_
  · simp [BuildFaults.failingBefore, h]
  refine (replace_spec (W := fun e => ∃ bytes, bytesAt d bundle.path = some bytes ∧ e = .file bytes)
    (fun temp htemp => copyFile_spec htemp fun h => hcan ?_) fun h => hcan ?_).mono (fun _ h => h) ?_ fun _ _ h => h
  · have hw : f.installed.write.failing := h.resolve_right (by simp [hb])
    simp [BuildFaults.failingBefore, ReplaceFaults.failing, hw]
  · simp [BuildFaults.failingBefore, ReplaceFaults.failing, h]
  · rintro _ s ⟨e, ⟨bytes', hb', rfl⟩, hs⟩
    cases hb.symm.trans hb'
    exact hs.built hsum

/-- What an install or an update may have done to the home, wherever it halted. -/
structure Within (sha256 : Bytes → BuildId) (buildId : BuildId) (d d' : Disk) : Prop where
  bundle : d' (.bundle buildId) = d (.bundle buildId) ∨ Whole sha256 buildId d'
  current : d' .current = d .current ∨ d' .current = some (.link buildId) ∧ Whole sha256 buildId d'
  rest : ∀ p : Path, p.real → p ≠ .bundle buildId → p ≠ .current → p ≠ .launcher → p ≠ .bun → d' p = d p

theorem Same.within (h : Same d d') (buildId : BuildId) : Within sha256 buildId d d' :=
  ⟨.inl (h _ rfl), .inl (h _ rfl), fun p hp _ _ _ _ => h p hp⟩

theorem Built.within (h : Built sha256 buildId d d') : Within sha256 buildId d d' :=
  ⟨.inr h.1, .inl (h.2 _ rfl nofun), fun p hp hb _ _ _ => h.2 p hp hb⟩

theorem Within.trans (h : Within sha256 buildId d d')
    (h' : Within sha256 buildId d' d'') : Within sha256 buildId d d'' := by
  have hwhole (hw : Whole sha256 buildId d') : Whole sha256 buildId d'' := by
    rcases h'.bundle with hb | hb
    · obtain ⟨bytes, hbytes, hsum⟩ := hw
      exact ⟨bytes, hb.trans hbytes, hsum⟩
    · exact hb
  refine ⟨?_, ?_, fun p hp hb hc hl hbun => (h'.rest p hp hb hc hl hbun).trans (h.rest p hp hb hc hl hbun)⟩
  · rcases h'.bundle with hb | hb
    · exact h.bundle.imp hb.trans hwhole
    · exact .inr hb
  rcases h'.current with hc | hc
  · exact h.current.imp hc.trans fun h => ⟨hc.trans h.1, hwhole h.2⟩
  · exact .inr hc

/-- The bundle is in its place and `current` names it. -/
structure Flipped (sha256 : Bytes → BuildId) (buildId : BuildId) (d d' : Disk) : Prop where
  whole : Whole sha256 buildId d'
  current : d' .current = some (.link buildId)
  bun : d' .bun = d .bun
  rest : ∀ p : Path, p.real → p ≠ .bundle buildId → p ≠ .current → p ≠ .launcher → d' p = d p

theorem Flipped.within (h : Flipped sha256 buildId d d') : Within sha256 buildId d d' :=
  ⟨.inr h.whole, .inr ⟨h.current, h.whole⟩, fun p hp hb hc hl _ => h.rest p hp hb hc hl⟩

theorem Built.flipped (h : Built sha256 buildId d d')
    (hp : Placed .current (.link buildId) d' d'') : Flipped sha256 buildId d d'' where
  whole := by
    obtain ⟨bytes, hb, hsum⟩ := h.1
    exact ⟨bytes, ((hp _ rfl).trans (update_of_ne (by nofun) ..)).trans hb, hsum⟩
  current := (hp _ rfl).trans (update_self ..)
  bun := ((hp _ rfl).trans (update_of_ne (by nofun) ..)).trans (h.2 _ rfl nofun)
  rest p hreal hb hcur _ := by rw [hp p hreal, update_of_ne hcur, h.2 p hreal hb]

theorem Flipped.of_eq (h : Flipped sha256 buildId d d')
    (heq : ∀ p : Path, p.real → p ≠ .launcher → d'' p = d' p) : Flipped sha256 buildId d d'' where
  whole := by
    obtain ⟨bytes, hb, hsum⟩ := h.whole
    exact ⟨bytes, (heq (.bundle buildId) rfl nofun).trans hb, hsum⟩
  current := (heq .current rfl nofun).trans h.current
  bun := (heq .bun rfl nofun).trans h.bun
  rest p hreal hb hcur hl := by rw [heq p hreal hl, h.rest p hreal hb hcur hl]

theorem writeLauncher_spec :
    Triple (Flipped sha256 buildId d) (writeLauncher home f) (fun _ => Flipped sha256 buildId d)
      (fun halt s => Flipped sha256 buildId d s ∧ (halt ≠ .crashed → f.failingAfter)) := by
  refine triple_from fun s hs => ?_
  have hmono {halt : Halt} {s' : Disk} (h : Quiet (f.failingAfter = true) s halt s') :
      Flipped sha256 buildId d s' ∧ (halt ≠ .crashed → f.failingAfter) :=
    ⟨hs.of_eq fun p hp _ => h.1 p hp, h.2⟩
  refine Triple.mono (E := Quiet (f.failingAfter = true) s) ?_ (fun _ h => h) (fun _ _ h => h) fun _ _ h => hmono h
  refine Triple.bind (touch_spec fun h => by simp [BuildFaults.failingAfter, h]) fun _ => ?_
  refine (replace_spec (W := fun e => e = .script (launcherScript home)) (fun temp htemp => ?_) fun h => ?_).mono
    (fun _ h => h) ?_ fun _ _ h => h
  · refine Triple.bind (write_spec htemp fun h => by simp [BuildFaults.failingAfter, ReplaceFaults.failing, h]) fun _ => ?_
    exact (touch_after (fun _ hs => hs.1) fun h => by simp [BuildFaults.failingAfter, h]).mono (fun _ h => h)
      (fun _ _ hs => ⟨hs.1, _, rfl, hs.2⟩) fun _ _ h => h
  · simp [BuildFaults.failingAfter, ReplaceFaults.failing, h]
  · rintro _ s' ⟨e, rfl, hp⟩
    exact hs.of_eq fun p hreal hl => (hp p hreal).trans (update_of_ne hl ..)

/-- What halted, short of a crash, before `current` was renamed left it as it was. -/
structure Unbuilt (sha256 : Bytes → BuildId) (buildId : BuildId) (f : BuildFaults) (d : Disk) (halt : Halt) (d' : Disk) :
    Prop where
  within : Within sha256 buildId d d'
  bun : d' .bun = d .bun
  threw : halt ≠ .crashed → f.failingBefore ∧ d' .current = d .current ∨ f.failingAfter

theorem Quiet.unbuilt (h : Quiet (f.failingBefore = true) s halt s') (hs : Built sha256 buildId d s ∨ Same d s) :
    Unbuilt sha256 buildId f d halt s' := by
  have hother (p : Path) (hp : p.real) (hb : p ≠ .bundle buildId) : s' p = d p := by
    refine (h.1 p hp).trans ?_
    rcases hs with hs | hs
    · exact hs.2 p hp hb
    · exact hs p hp
  refine ⟨?_, hother _ rfl nofun, fun hne => .inl ⟨h.2 hne, hother _ rfl nofun⟩⟩
  rcases hs with hs | hs
  · exact Built.within ⟨hs.1.same h.1, hother⟩
  · exact (hs.trans h.1).within _

theorem installBuild_spec (bundle : RunningBundle)
    (hown : ∃ bytes, bytesAt d bundle.path = some bytes ∧ sha256 bytes = bundle.buildId) :
    Triple (Same d) (installBuild sha256 home bundle f) (fun _ => Flipped sha256 bundle.buildId d)
      (Unbuilt sha256 bundle.buildId f d) := by
  refine Triple.bind (Q := fun _ => Same d) ?_ fun _ => Triple.bind (Q := fun _ => Built sha256 bundle.buildId d) ?_ fun _ =>
    Triple.bind (Q := fun _ => Flipped sha256 bundle.buildId d) ?_ fun _ => ?_
  · exact (touch_spec fun h => by simp [BuildFaults.failingBefore, h]).mono (fun _ h => h) (fun _ _ h => h)
      fun _ _ h => h.unbuilt (.inr (.refl d))
  · exact (putBundle_spec hown id).mono (fun _ h => h) (fun _ _ h => h) fun _ _ h => h.unbuilt (.inr (.refl d))
  · refine triple_from fun s hs => (replace_spec (W := fun e => e = .link bundle.buildId) (fun temp htemp => ?_)
      fun h => by simp [BuildFaults.failingBefore, ReplaceFaults.failing, h]).mono (fun _ h => h) ?_
      fun _ _ h => h.unbuilt (.inl hs)
    · exact (write_spec htemp fun h => by simp [BuildFaults.failingBefore, ReplaceFaults.failing, h]).mono (fun _ h => h)
        (fun _ _ hs => ⟨hs.1, _, rfl, hs.2⟩) fun _ _ h => h
    · rintro _ s' ⟨e, rfl, hp⟩
      exact hs.flipped hp
  · exact writeLauncher_spec.mono (fun _ h => h) (fun _ _ h => h) fun _ _ h =>
      ⟨h.1.within, h.1.bun, fun hne => .inr (h.2 hne)⟩

/-! ## Updates: what comes of one -/

theorem download_spec {response : Option Bytes} {target : Path} {failure : JsString} (htarget : target.real = false) :
    Triple (Same d) (download sha256 response target failure fault)
      (fun sum s => Same d s ∧ ∃ bytes, response = some bytes ∧ sha256 bytes = sum ∧ s target = some (.file bytes))
      (Quiet True d) := by
  cases response with
  | none => exact triple_throw fun s hs => ⟨hs, fun _ => trivial⟩
  | some bytes =>
    exact Triple.bind (write_spec htarget fun _ => trivial) fun _ => triple_pure fun s hs => ⟨hs.1, bytes, rfl, rfl, hs.2⟩

theorem fetchBundle_spec {server : JsString} {f : UpdateFaults} (hsum : u.sha256 = u.buildId) :
    Triple (Same d) (fetchBundle sha256 server u deps f) (fun _ => Built sha256 u.buildId d) (Quiet True d) := by
  refine Triple.bind holds_spec fun r => ?_
  refine triple_ite (fun hr => triple_pure fun _ hs => (hs.2 hr).built hs.1) fun _ => triple_mono_left (fun _ hs => hs.1) ?_
  refine Triple.bind (touch_spec fun _ => trivial) fun _ => ?_
  refine (replace_spec (W := fun e => ∃ bytes, sha256 bytes = u.buildId ∧ e = .file bytes) (fun temp htemp => ?_)
    fun _ => trivial).mono (fun _ h => h) ?_ fun _ _ h => h
  · refine Triple.bind (download_spec htemp) fun sum => ?_
    refine triple_ite (fun _ => triple_throw fun s hs => ⟨hs.1, fun _ => trivial⟩) fun heq => triple_pure fun s hs => ?_
    obtain ⟨hs, bytes, -, hb, htemp⟩ := hs
    exact ⟨hs, _, ⟨bytes, hb.trans ((not_not.mp heq).trans hsum), rfl⟩, htemp⟩
  · rintro _ s ⟨e, ⟨bytes, hb, rfl⟩, hs⟩
    exact hs.built hb

def UpdateDeps.bun (deps : UpdateDeps) : Option Entry := (deps.release.bind deps.unpack).map .file

theorem removeDir_spec {dir : Nat} (hcan : fault.failing → can) :
    Triple (Same d) (removeDir dir fault) (fun _ => Same d) (Quiet can d) :=
  operation_spec (fun _ hs => (Same.update hs rfl none).update rfl none) (fun _ _ hs => hs) hcan

def Fetched (deps : UpdateDeps) (dir : Nat) (d s : Disk) : Prop :=
  ∃ e, (Same d s ∧ s (.unpacked dir) = some e) ∧ deps.bun = some e

theorem Fetched.same {dir : Nat} (h : Fetched deps dir d s) : Same d s := by
  obtain ⟨e, h, -⟩ := h
  exact h.1

theorem unpackBun_spec {f : BunFaults} :
    Triple (fun s => ∃ zip, (Same d s ∧ s (.zip f.dir) = some (.file zip)) ∧ deps.release = some zip) (unpackBun deps f)
      (fun _ => Fetched deps f.dir d) (Quiet True d) := by
  refine triple_exists fun zip => triple_assume fun hr => ?_
  refine Triple.bind (readFile_spec.mono (fun _ h => h) (fun _ _ h => h) fun _ _ h => ⟨h.1.1, fun _ => trivial⟩) fun bytes => ?_
  refine triple_mono_left (P := fun s => Same d s ∧ bytes = zip) ?_ (triple_assume fun hz => ?_)
  · rintro s ⟨⟨hs, hz⟩, hb⟩
    cases (bytes?_eq.mp hb).symm.trans hz
    exact ⟨hs, rfl⟩
  subst hz
  cases hu : deps.unpack bytes with
  | none => exact triple_throw fun s hs => ⟨hs, fun _ => trivial⟩
  | some bun =>
    refine (write_spec rfl fun _ => trivial).mono (fun _ h => h) (fun _ s hs => ⟨.file bun, hs, ?_⟩) fun _ _ h => h
    rw [UpdateDeps.bun, hr, Option.bind_some, hu, Option.map_some]

theorem ranAs_spec {f : BunFaults} (hP : ∀ s, P s → Same d s) :
    Triple P (ranAs deps f) (fun _ => P) (Quiet True d) := by
  refine Triple.bind (catchNull_spec (E := fun _ => P) ?_ (fun _ _ h => h) fun s h => ⟨hP s h, fun _ => trivial⟩) fun ran =>
    triple_pure fun _ hs => hs
  refine Triple.bind (Q := fun _ => P) ?_ fun _ => ?_
  · intro s hs
    cases f.run <;> exact hs
  · exact Triple.bind (readFile_spec.mono (fun _ h => h) (fun _ _ h => h.1) fun _ _ h => h.1) fun _ =>
      triple_pure fun _ hs => hs

theorem fetchBun_spec {bunVersion target : JsString} {f : BunFaults} :
    Triple (Same d) (fetchBun sha256 bunVersion target deps f) (fun _ => Fetched deps f.dir d) (Quiet True d) := by
  refine Triple.bind (download_spec rfl) fun sum => ?_
  refine Triple.bind (triple_mono_left ?_ unpackBun_spec) fun _ => ?_
  · rintro s ⟨hs, bytes, hr, -, hz⟩
    exact ⟨bytes, ⟨hs, hz⟩, hr⟩
  refine Triple.bind (touch_after (fun _ hs => hs.same) fun _ => trivial) fun _ => ?_
  refine Triple.bind (ranAs_spec fun _ hs => hs.same) fun ran => ?_
  exact triple_ite (fun _ => triple_throw fun s hs => ⟨hs.same, fun _ => trivial⟩) fun _ => triple_pure fun _ hs => hs

/-- **Bun is replaced once it is there and has been checked**, by one rename. -/
theorem installBun_spec {bunVersion : JsString} {f : BunFaults} :
    Triple (Same d) (installBun sha256 bunVersion deps f) (fun _ s => ∃ e, deps.bun = some e ∧ Placed .bun e d s)
      (fun halt s => Same d s ∨ ∃ e, deps.bun = some e ∧ Placed .bun e d s ∧ (halt ≠ .crashed → f.remove.failing)) := by
  unfold installBun
  cases deps.target with
  | none => exact triple_throw fun s hs => .inl hs
  | some target =>
    refine Triple.bind ((touch_spec fun _ => trivial).mono (fun _ h => h) (fun _ _ h => h) fun _ _ h => .inl h.1) fun _ => ?_
    refine Triple.bind (Q := fun _ s => ∃ e, deps.bun = some e ∧ Placed .bun e d s) ?_ fun _ => ?_
    · refine Triple.mono (E := Quiet True d) (onThrow_spec (E := Quiet True d) (Triple.bind fetchBun_spec fun _ => ?_)
        (fun _ h => h) fun failure => ?_) (fun _ h => h) (fun _ _ h => h) fun _ _ h => .inl h.1
      · refine triple_exists fun e => triple_assume fun he => ?_
        exact (rename_spec .bun rfl fun _ => trivial).mono (fun _ h => h) (fun _ _ h => ⟨e, he, h⟩) fun _ _ h => h
      · exact (removeDir_spec fun _ => trivial).mono (fun _ h => h.1) (fun _ _ h => ⟨h, fun _ => trivial⟩) fun _ _ h => h
    · refine triple_from fun s ⟨e, he, hs⟩ => (removeDir_spec id).mono (fun _ h => h) ?_ ?_
      · exact fun _ s' h => ⟨e, he, fun p hp => (h p hp).trans (hs p hp)⟩
      · exact fun halt s' h => .inr ⟨e, he, fun p hp => (h.1 p hp).trans (hs p hp), h.2⟩

def UpdateFaults.failingAfterBun (f : UpdateFaults) : Bool :=
  f.bun.remove.failing || f.build.failingBefore || f.build.failingAfter

/-- Nothing fails of an update after it has put another Bun in the home, or after it has made `current` name
another build. -/
def Spares (d : Disk) (u : BuildUpdate) (deps : UpdateDeps) (f : UpdateFaults) : Prop :=
  (u.bunVersion ≠ deps.version → d .bun ≠ deps.bun → f.failingAfterBun = false) ∧
    (d .current ≠ some (.link u.buildId) → f.build.failingAfter = false)

/-- `current` and the home's Bun are as they were. -/
def Untouched (d d' : Disk) : Prop := d' .current = d .current ∧ d' .bun = d .bun

structure Ready (sha256 : Bytes → BuildId) (u : BuildUpdate) (deps : UpdateDeps) (d s : Disk) : Prop where
  whole : Whole sha256 u.buildId s
  within : Within sha256 u.buildId d s
  current : s .current = d .current
  bun : s .bun = d .bun ∨ u.bunVersion ≠ deps.version ∧ s .bun = deps.bun

theorem Built.ready (h : Built sha256 u.buildId d s) (deps : UpdateDeps) : Ready sha256 u deps d s :=
  ⟨h.1, h.within, h.2 _ rfl nofun, .inl (h.2 _ rfl nofun)⟩

theorem Built.ready_bun (h : Built sha256 u.buildId d s)
    (hv : u.bunVersion ≠ deps.version) {e : Entry} (he : deps.bun = some e) (hp : Placed .bun e s s') :
    Ready sha256 u deps d s' := by
  have hbun : s' .bun = deps.bun := (hp _ rfl).trans ((update_self ..).trans he.symm)
  have hother (p : Path) (hreal : p.real) (hne : p ≠ .bun) : s' p = s p := (hp p hreal).trans (update_of_ne hne ..)
  have hw : Whole sha256 u.buildId s' := by
    obtain ⟨bytes, hb, hsum⟩ := h.1
    exact ⟨bytes, (hother (.bundle u.buildId) rfl nofun).trans hb, hsum⟩
  refine ⟨hw, ⟨.inr hw, .inl ((hother .current rfl nofun).trans (h.2 _ rfl nofun)), ?_⟩,
    (hother .current rfl nofun).trans (h.2 _ rfl nofun), .inr ⟨hv, hbun⟩⟩
  intro p hreal hb _ _ hne
  exact (hother p hreal hne).trans (h.2 p hreal hb)

theorem Ready.untouched {f : UpdateFaults}
    (h : Ready sha256 u deps d s) (hspares : Spares d u deps f) (hhalt : Unbuilt sha256 u.buildId f.build s halt s')
    (hne : halt ≠ .crashed) : Untouched d s' := by
  constructor
  · rcases hhalt.threw hne with ⟨-, hc⟩ | hafter
    · exact hc.trans h.current
    by_cases hcur : d .current = some (.link u.buildId)
    · rcases hhalt.within.current with hc | ⟨hc, -⟩
      · exact hc.trans h.current
      · exact hc.trans hcur.symm
    · rw [hspares.2 hcur] at hafter
      cases hafter
  · refine hhalt.bun.trans ?_
    rcases h.bun with hb | ⟨hv, hb⟩
    · exact hb
    by_cases hsame : d .bun = deps.bun
    · exact hb.trans hsame.symm
    have hfail : f.failingAfterBun = true := by
      rcases hhalt.threw hne with ⟨hbefore, -⟩ | hafter
      · simp [UpdateFaults.failingAfterBun, hbefore]
      · simp [UpdateFaults.failingAfterBun, hafter]
    rw [hspares.1 hv hsame] at hfail
    cases hfail

def Abandoned (sha256 : Bytes → BuildId) (u : BuildUpdate) (deps : UpdateDeps) (f : UpdateFaults) (d : Disk)
    (halt : Halt) (d' : Disk) : Prop :=
  Within sha256 u.buildId d d' ∧ (halt ≠ .crashed → Spares d u deps f → Untouched d d')

theorem Same.abandoned (h : Same d s) (u : BuildUpdate) (deps : UpdateDeps) (f : UpdateFaults) (halt : Halt) :
    Abandoned sha256 u deps f d halt s := ⟨h.within _, fun _ _ => ⟨h _ rfl, h _ rfl⟩⟩

theorem updateBun_spec {f : UpdateFaults} : Triple (Built sha256 u.buildId d) (updateBun sha256 u.bunVersion deps f.bun)
      (fun _ => Ready sha256 u deps d) (Abandoned sha256 u deps f d) := by
  refine triple_ite (fun hv => ?_) fun _ => triple_pure fun s hs => hs.ready deps
  refine triple_from fun s hs => installBun_spec.mono (fun _ h => h) (fun _ s' ⟨e, he, hp⟩ => hs.ready_bun hv he hp) ?_
  rintro halt s' (h | ⟨e, he, hp, hfail⟩)
  · refine ⟨Built.within ⟨hs.1.same h, fun p hreal hb => (h p hreal).trans (hs.2 p hreal hb)⟩, fun _ _ => ?_⟩
    exact ⟨(h _ rfl).trans (hs.2 _ rfl nofun), (h _ rfl).trans (hs.2 _ rfl nofun)⟩
  have hr := hs.ready_bun hv he hp
  refine ⟨hr.within, fun hne hspares => ⟨hr.current, ?_⟩⟩
  rcases hr.bun with hb | ⟨-, hb⟩
  · exact hb
  by_cases hsame : d .bun = deps.bun
  · exact hb.trans hsame.symm
  · have hafter := hspares.1 hv hsame
    simp [UpdateFaults.failingAfterBun, hfail hne] at hafter

theorem installUpdate_spec {serverUrl : JsString} {f : UpdateFaults} :
    Triple (Same d) (installUpdate sha256 home serverUrl u deps f) (fun _ => Within sha256 u.buildId d)
      (Abandoned sha256 u deps f d) := by
  refine triple_ite (fun _ => triple_throw fun s hs => hs.abandoned ..) fun hsum => ?_
  refine Triple.bind ((fetchBundle_spec (not_not.mp hsum)).mono (fun _ h => h) (fun _ _ h => h) fun _ _ h => h.1.abandoned ..) fun _ => ?_
  refine Triple.bind updateBun_spec fun _ => triple_from fun s hs => ?_
  obtain ⟨bytes, hb, hid⟩ := hs.whole
  refine (installBuild_spec ⟨.build u.buildId, u.buildId⟩ ⟨bytes, bytes?_eq.mpr hb, hid⟩).mono (fun _ h => h) ?_ ?_
  · exact fun _ s' h => hs.within.trans h.within
  · exact fun halt s' h => ⟨hs.within.trans h.within, fun hne hspares => hs.untouched hspares h hne⟩

end

/-! ## Pairings: what comes of one -/

section

variable {sha256 : Bytes → BuildId} {d s : Disk} {nodeId : NodeId} {privateKey : PrivateKey} {pairing : Pairing}

/-- **What the home has to be at every moment**: `current` names a whole build, and `node.json` a file that
holds the pairing's key. -/
structure Sound (sha256 : Bytes → BuildId) (d : Disk) : Prop where
  current : ∀ e, d .current = some e → ∃ buildId, e = .link buildId ∧ Whole sha256 buildId d
  pairing : ∀ e, d .pairing = some e → ∃ pairing privateKey,
    e = .config pairing privateKey ∧ pairing.keyPath = .key pairing.nodeId ∧ d pairing.keyPath = some (.pem privateKey)

theorem Within.sound (h : Within sha256 buildId d s) (hd : Sound sha256 d) : Sound sha256 s := by
  constructor
  · intro e he
    rcases h.current with hc | ⟨hc, hw⟩
    · obtain ⟨k, rfl, bytes, hb, hsum⟩ := hd.current e (hc.symm.trans he)
      refine ⟨k, rfl, ?_⟩
      by_cases hk : k = buildId
      · subst hk
        rcases h.bundle with hb' | hw
        · exact ⟨bytes, hb'.trans hb, hsum⟩
        · exact hw
      · refine ⟨bytes, (h.rest (.bundle k) rfl (fun heq => hk (Path.bundle.inj heq)) nofun nofun nofun).trans hb, hsum⟩
    · exact ⟨buildId, Option.some.inj (he.symm.trans hc), hw⟩
  · intro e he
    rw [h.rest .pairing rfl nofun nofun nofun nofun] at he
    obtain ⟨p, k, rfl, hkey, hpem⟩ := hd.pairing e he
    refine ⟨p, k, rfl, hkey, ?_⟩
    rw [hkey] at hpem ⊢
    exact (h.rest (.key p.nodeId) rfl nofun nofun nofun nofun).trans hpem

def SameBut (nodeId : NodeId) (d s : Disk) : Prop := ∀ p : Path, p.real → p ≠ .key nodeId → s p = d p

theorem SameBut.sound (h : SameBut nodeId d s) (hnew : d (.key nodeId) = none) (hd : Sound sha256 d) :
    Sound sha256 s := by
  constructor
  · intro e he
    obtain ⟨k, rfl, bytes, hb, hsum⟩ := hd.current e ((h .current rfl nofun).symm.trans he)
    exact ⟨k, rfl, bytes, (h (.bundle k) rfl nofun).trans hb, hsum⟩
  intro e he
  obtain ⟨p, k, rfl, hkey, hpem⟩ := hd.pairing e ((h .pairing rfl nofun).symm.trans he)
  refine ⟨p, k, rfl, hkey, ?_⟩
  rw [hkey] at hpem ⊢
  have hne : Path.key p.nodeId ≠ .key nodeId := by
    intro heq
    rw [heq, hnew] at hpem
    cases hpem
  exact (h _ rfl hne).trans hpem

structure Saved (pairing : Pairing) (privateKey : PrivateKey) (d s : Disk) : Prop where
  config : s .pairing = some (.config pairing privateKey)
  key : s pairing.keyPath = some (.pem privateKey)
  rest : ∀ p : Path, p.real → p ≠ .pairing → (∀ nodeId, p ≠ .key nodeId) → s p = d p

theorem Saved.sound (h : Saved pairing privateKey d s) (hkey : pairing.keyPath = .key pairing.nodeId)
    (hd : Sound sha256 d) : Sound sha256 s := by
  constructor
  · intro e he
    obtain ⟨k, rfl, bytes, hb, hsum⟩ := hd.current e ((h.rest .current rfl nofun nofun).symm.trans he)
    exact ⟨k, rfl, bytes, (h.rest (.bundle k) rfl nofun nofun).trans hb, hsum⟩
  intro e he
  cases he.symm.trans h.config
  exact ⟨pairing, privateKey, rfl, hkey, h.key⟩

theorem Same.sound (h : Same d s) (hd : Sound sha256 d) : Sound sha256 s := (h.within []).sound hd

theorem previousPairing_spec : Triple (Same d) (previousPairing fault)
      (fun r s => Same d s ∧ ∀ previous, r = some previous → ∃ k, d .pairing = some (.config previous k))
      (Quiet True d) := by
  refine Triple.bind (Q := fun _ => Same d) (catchNull_spec (touch_spec fun _ => trivial) (fun _ _ h => h.1) fun _ h => h)
    fun r => ?_
  cases r with
  | none => exact triple_pure fun _ hs => ⟨hs, nofun⟩
  | some u =>
    refine triple_get fun s hs => ?_
    split
    case h_1 pairing k hp =>
      refine triple_pure fun s' hs' => ⟨hs' ▸ hs, fun previous h => ⟨k, ?_⟩⟩
      rw [← Option.some.inj h, ← hs .pairing rfl, hp]
    case h_2 => exact triple_pure fun s' hs' => ⟨hs' ▸ hs, nofun⟩

theorem writeNew_spec {entry : Entry} : Triple (Same d) (writeNew (.key nodeId) entry fault)
      (fun _ s => d (.key nodeId) = none ∧ s (.key nodeId) = some entry ∧ SameBut nodeId d s)
      (fun _ s => Same d s ∨ d (.key nodeId) = none ∧ SameBut nodeId d s) := by
  refine triple_get fun s hs => triple_ite (fun _ => triple_throw fun s' hs' => .inl (hs' ▸ hs)) fun hnone => ?_
  have hnew : d (.key nodeId) = none := (hs _ rfl).symm.trans (Option.not_isSome_iff_eq_none.mp hnone)
  have hbut (e : Option Entry) : SameBut nodeId d (update s (.key nodeId) e) := fun p hp hne =>
    (update_of_ne hne ..).trans (hs p hp)
  rintro s' rfl
  cases fault with
  | none => exact ⟨hnew, update_self .., hbut _⟩
  | fails left | crashes left =>
    cases left with
    | none => exact .inl hs
    | some e => exact .inr ⟨hnew, hbut _⟩

theorem saveConfig_spec {f : PairFaults} :
    Triple (fun s => s (.key nodeId) = some (.pem privateKey) ∧ SameBut nodeId d s)
      (onThrow (replace .pairing f.replace fun temp => write temp (.config pairing privateKey) f.replace.write)
        (rm (.key nodeId) f.removeKey))
      (fun _ s => s .pairing = some (.config pairing privateKey) ∧ s (.key nodeId) = some (.pem privateKey) ∧
        ∀ p : Path, p.real → p ≠ .pairing → p ≠ .key nodeId → s p = d p)
      (fun _ => SameBut nodeId d) := by
  refine triple_from fun s ⟨hkey, hs⟩ => ?_
  refine onThrow_spec (E := Quiet True s) ((replace_spec (W := fun e => e = .config pairing privateKey)
    (fun temp htemp => ?_) fun _ => trivial).mono (fun _ h => h) ?_ fun _ _ h => h) ?_ fun failure => ?_
  · exact (write_spec htemp fun _ => trivial).mono (fun _ h => h) (fun _ _ hs => ⟨hs.1, _, rfl, hs.2⟩) fun _ _ h => h
  · rintro _ s' ⟨e, rfl, hp⟩
    refine ⟨(hp _ rfl).trans (update_self ..), ((hp _ rfl).trans (update_of_ne (by nofun) ..)).trans hkey, ?_⟩
    intro p hreal hpairing hk
    exact ((hp p hreal).trans (update_of_ne hpairing ..)).trans (hs p hreal hk)
  · exact fun s' h p hp hne => (h.1 p hp).trans (hs p hp hne)
  · intro s' h
    have hbut : SameBut nodeId d s' := fun p hp hne => (h.1 p hp).trans (hs p hp hne)
    cases f.removeKey with
    | none => exact fun p hp hne => (update_of_ne hne ..).trans (hbut p hp hne)
    | fails left | crashes left => exact hbut

theorem removePrevious_spec {previous : Option Pairing} (hprevious : ∀ q, previous = some q → ∃ n, q.keyPath = .key n) :
    Triple (Saved pairing privateKey d) (removePrevious previous pairing.keyPath fault)
      (fun _ => Saved pairing privateKey d) (fun _ => Saved pairing privateKey d) := by
  intro s hs
  cases previous with
  | none => exact hs
  | some q =>
    obtain ⟨n, hn⟩ := hprevious q rfl
    refine triple_ite (fun hne => ?_) (fun _ => triple_pure fun _ hs => hs) s hs
    intro s' hs'
    cases fault with
    | fails left | crashes left => exact hs'
    | none =>
      refine ⟨(update_of_ne (by rw [hn]; nofun) ..).trans hs'.config, (update_of_ne hne.symm ..).trans hs'.key, ?_⟩
      intro p hreal hp hk
      exact (update_of_ne (by rw [hn]; exact hk n) ..).trans (hs'.rest p hreal hp hk)

/-- **A pairing is saved whole or not at all**, wherever it halts. -/
theorem savePairing_spec {serverUrl : JsString} {f : PairFaults} (hd : Sound sha256 d) :
    Triple (Same d) (savePairing serverUrl nodeId privateKey f)
      (fun pairing s => pairing.nodeId = nodeId ∧ Saved pairing privateKey d s ∧ Sound sha256 s)
      (fun _ => Sound sha256) := by
  have hquiet (halt : Halt) (s : Disk) (h : Quiet True d halt s) : Sound sha256 s := h.1.sound hd
  refine triple_ite (fun _ => triple_throw fun s hs => hs.sound hd) fun _ => ?_
  refine Triple.bind (previousPairing_spec.mono (fun _ h => h) (fun _ _ h => h) hquiet) fun previous =>
    triple_assume fun hprevious => ?_
  refine Triple.bind ((touch_spec fun _ => trivial).mono (fun _ h => h) (fun _ _ h => h) hquiet) fun _ => ?_
  refine Triple.bind ((touch_spec fun _ => trivial).mono (fun _ h => h) (fun _ _ h => h) hquiet) fun _ => ?_
  refine Triple.bind (writeNew_spec.mono (fun _ h => h) (fun _ s h => (⟨h.2, h.1⟩ : _ ∧ d (.key nodeId) = none)) ?_) fun _ =>
    triple_assume fun hnew => ?_
  · rintro halt s (h | ⟨hnew, h⟩)
    · exact h.sound hd
    · exact h.sound hnew hd
  refine Triple.bind (saveConfig_spec.mono (fun _ h => h) (fun _ _ h => h) fun _ _ h => h.sound hnew hd) fun _ => ?_
  refine Triple.bind (Q := fun _ s => Saved ⟨serverUrl, nodeId, .key nodeId⟩ privateKey d s) ?_ fun _ =>
    triple_pure fun s hs => ⟨rfl, hs, hs.sound rfl hd⟩
  refine (removePrevious_spec fun q hq => ?_).mono (fun s hs => ?_) (fun _ _ h => h)
    fun _ s (h : Saved ⟨serverUrl, nodeId, .key nodeId⟩ privateKey d s) => h.sound rfl hd
  · obtain ⟨k, hk⟩ := hprevious q hq
    obtain ⟨p, k', heq, hpath, -⟩ := hd.pairing _ hk
    cases heq
    exact ⟨q.nodeId, hpath⟩
  · exact ⟨hs.1, hs.2.1, fun p hreal hp hk => hs.2.2 p hreal hp (hk nodeId)⟩

end

/-! ## Runs -/

section

variable (sha256 : Bytes → BuildId) (home : JsString)

inductive Command
  /-- `reins node setup`, run from the bundle at `path`. -/
  | install (path : BundlePath) (read : Fault) (f : BuildFaults)
  | update (serverUrl : JsString) (u : BuildUpdate) (deps : UpdateDeps) (f : UpdateFaults)
  | pair (serverUrl : JsString) (nodeId : NodeId) (privateKey : PrivateKey) (f : PairFaults)

def Command.program : Command → InstallM Unit
  | .install path read f => do
    let bundle ← runningBundle sha256 path read
    installBuild sha256 home bundle f
  | .update serverUrl u deps f => installUpdate sha256 home serverUrl u deps f
  | .pair serverUrl nodeId privateKey f => do
    let _ ← savePairing serverUrl nodeId privateKey f

def step (d : Disk) (c : Command) : Disk :=
  match c.program sha256 home d with
  | .ok _ d' | .error _ d' => d'

/-- An update that throws leaves the build and Bun as they were. -/
def AllOrNothing (d : Disk) (c : Command) : Prop :=
  match c with
  | .update serverUrl u deps f => ∀ failure d',
    installUpdate sha256 home serverUrl u deps f d = .error (.threw failure) d' → Untouched d d'
  | _ => True

/-- An update's failures come before what they would leave half done. -/
def Command.Spares (d : Disk) : Command → Prop
  | .update _ u deps f => NodeInstall.Spares d u deps f
  | _ => True

variable {sha256 home} {d : Disk}

theorem sound_program (hd : Sound sha256 d) (c : Command) :
    Triple (Same d) (c.program sha256 home) (fun _ => Sound sha256) (fun _ => Sound sha256) := by
  cases c with
  | install path read f =>
    refine Triple.bind (Q := fun bundle s => Same d s ∧ ∃ bytes, bytesAt d bundle.path = some bytes ∧ sha256 bytes = bundle.buildId)
      ?_ fun bundle => triple_assume fun hown => ?_
    · refine Triple.bind ((sha256File_spec fun _ => trivial).mono (fun _ h => h) (fun _ _ h => h) fun _ _ (h : Quiet True d _ _) =>
        h.1.sound hd) fun sum => triple_pure fun _ hs => hs
    · exact (installBuild_spec bundle hown).mono (fun _ h => h) (fun _ _ h => h.within.sound hd) fun _ _ h => h.within.sound hd
  | update serverUrl u deps f =>
    exact installUpdate_spec.mono (fun _ h => h) (fun _ _ h => h.sound hd) fun _ _ h => h.1.sound hd
  | pair serverUrl nodeId privateKey f =>
    exact Triple.bind (savePairing_spec hd) fun _ => triple_pure fun _ hs => hs.2.2

theorem sound_step (hd : Sound sha256 d) (c : Command) : Sound sha256 (step sha256 home d c) := by
  have h : Triple (Same d) (c.program sha256 home) _ _ := sound_program hd c
  have h := h d (.refl d)
  unfold step
  cases hr : c.program sha256 home d <;> rw [hr] at h <;> exact h

theorem allOrNothing_of_spares {c : Command} (h : c.Spares d) : AllOrNothing sha256 home d c := by
  cases c with
  | update serverUrl u deps f =>
    intro failure d' hr
    exact (installUpdate_spec.error (.refl d) hr).2 nofun h
  | install | pair => trivial

/-- **The home is sound at every moment of every run**: what a run shows that is killed at an operation is
what the home holds there. And where updates do not fail late, each is all or nothing. -/
theorem home_kept (home : JsString) (hd : Sound sha256 d) (cs : List Command) :
    Run.Always (step sha256 home) (Sound sha256) d cs ∧ (Run.Along (step sha256 home) (fun d c => c.Spares d) d cs →
        Run.Along (step sha256 home) (AllOrNothing sha256 home) d cs) := by
  constructor
  · exact @Run.Along.of_invariant _ _ _ (fun _ _ => True) _ (Sound sha256) (fun _ c _ hd => sound_step hd c)
      (fun _ c _ hd => sound_step hd c) _ hd _ (Run.along_of_forall (P := fun _ => True) fun _ _ => trivial)
  · exact fun h => Run.Along.of_invariant (fun _ => True) (fun _ _ _ _ => trivial)
      (fun _ _ h _ => allOrNothing_of_spares h) trivial h

end

/-- A home whose node runs the build `[0]` on the Bun `[0]`. -/
def installed (sha256 : Bytes → BuildId) : Disk
  | .bun => some (.file [0])
  | .current => some (.link (sha256 [0]))
  | .bundle buildId => if buildId = sha256 [0] then some (.file [0]) else none
  | _ => none

def ReplaceFaults.ok : ReplaceFaults := ⟨0, .none, .none, .none⟩

def BunFaults.ok : BunFaults := ⟨0, .none, .none, .none, .none, .none, .none, .none, .none⟩

def BuildFaults.ok : BuildFaults := ⟨.none, .none, .none, .none, .none, .ok, .ok, .none, .ok, .none⟩

def updateTo (sha256 : Bytes → BuildId) (f : UpdateFaults) : Command :=
  .update (js "https://reins.example") ⟨sha256 [1], sha256 [1], js "1.4.0"⟩
    { served := some [1], version := js "1.3.0", target := some (js "linux-x64"), release := some [2]
      unpack := some, ran := fun _ => some (js "1.4.0") } f

def UpdateFaults.ok : UpdateFaults := ⟨.none, .none, .ok, .ok, .ok⟩

/-- The new link for `current` cannot be written. -/
def UpdateFaults.noLink : UpdateFaults :=
  { UpdateFaults.ok with build := { BuildFaults.ok with current := { ReplaceFaults.ok with write := .fails none } } }

theorem installed_sound (sha256 : Bytes → BuildId) : Sound sha256 (installed sha256) :=
  ⟨fun _ he => ⟨sha256 [0], (Option.some.inj he).symm, [0], if_pos rfl, rfl⟩, nofun⟩

theorem home_kept_updating :
    Run.Always (step (fun bytes => bytes.map (·.toUInt16)) (js "/home/reins")) (Sound fun bytes => bytes.map (·.toUInt16))
        (installed fun bytes => bytes.map (·.toUInt16)) [updateTo (fun bytes => bytes.map (·.toUInt16)) .ok] ∧
      Run.Along (step (fun bytes => bytes.map (·.toUInt16)) (js "/home/reins"))
        (AllOrNothing (fun bytes => bytes.map (·.toUInt16)) (js "/home/reins"))
        (installed fun bytes => bytes.map (·.toUInt16)) [updateTo (fun bytes => bytes.map (·.toUInt16)) .ok] :=
  (home_kept (js "/home/reins") (installed_sound _) [updateTo _ .ok]).imp_right fun h =>
    h ⟨⟨fun _ _ => rfl, fun _ => rfl⟩, trivial⟩

theorem noLink_throws (sha256 : Bytes → BuildId) (home : JsString) :
    (match (updateTo sha256 .noLink).program sha256 home (installed sha256) with
      | .error (.threw .io) d' => d' .bun
      | _ => none) = some (.file [2]) := by
  by_cases h : sha256 [1] = sha256 [0] <;>
    simp [updateTo, UpdateFaults.noLink, UpdateFaults.ok, BunFaults.ok, ReplaceFaults.ok, BuildFaults.ok, installed, h,
      Command.program, installUpdate, fetchBundle, holds, sha256File, readBundle, readFile, Entry.bytes?, updateBun,
      installBun, fetchBun, download, unpackBun, ranAs, installBuild, putBundle, inPlace, realpath, replace, removeDir,
      write, rename, rm, touch, operation, onThrow, catchNull, bind, EStateM.bind, get, getThe, MonadStateOf.get,
      EStateM.get, pure, EStateM.pure, throw, throwThe, MonadExceptOf.throw, EStateM.throw, js, Utf.units]

theorem failed_update_keeps_new_bun : ¬ ∃ (sha256 : Bytes → BuildId) (home : JsString), ∀ d cs,
    Sound sha256 d → Run.Along (step sha256 home) (AllOrNothing sha256 home) d cs := by
  rintro ⟨sha256, home, hall⟩
  have h := hall (installed sha256) [updateTo sha256 .noLink] (installed_sound sha256)
  have hbun := noLink_throws sha256 home
  split at hbun
  case h_1 d' hr =>
    have hsame : d' .bun = some (.file [0]) := (h.1 _ d' hr).2
    cases hsame.symm.trans hbun
  case h_2 => cases hbun

end Reins.NodeInstall
