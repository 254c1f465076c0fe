import Reins.Lib.Places
import Reins.Lib.Run
import Reins.Frontend.Loadable

/-!
# The diff a browser reviews (`frontend/src/models/stores/diff-store.ts`)

The store shows one session's checkout, at a branch or at HEAD, in a mode. It polls the list of changed files
and fetches the patch when it is asked for; only the latest request of each kind counts. A loaded patch has a
cache key for the renderer: what is shown, and how many patches were loaded since the version was last reset.
-/

namespace Reins.DiffStore

open Places Run List
open Schema (JsString js_toString_inj)
open Utf (js)

abbrev SessionId := JsString

inductive DiffMode
  | branch
  | uncommitted
  deriving DecidableEq

def DiffMode.text : DiffMode → JsString
  | .branch => js "branch"
  | .uncommitted => js "uncommitted"

structure DiffFileSummary where
  path : JsString
  oldPath : Option JsString
  additions : Nat
  removals : Nat
  deriving DecidableEq

structure DiffFileResponse where
  files : List DiffFileSummary
  branch : Option JsString
  baseBranch : Option JsString

structure DiffPatchData where
  patch : JsString
  cacheKeyPrefix : JsString
  version : Nat
  branch : Option JsString
  baseBranch : Option JsString

/-- What the store shows, and asks for. -/
structure Shown where
  sessionId : Option SessionId
  branch : Option JsString
  diffMode : DiffMode
  contextLines : Nat
  deriving DecidableEq

inductive Call
  | files (generation : Nat) (onlyFetchDiffIfNeeded : Bool)
  | patch (generation : Nat)
  | returned

/-- A call, with what was shown as it was made. `setDiffMode` may wait for it to fetch the patch. -/
structure Request where
  shown : Shown
  call : Call
  thenPatch : Bool
  landed : Bool

structure Loaded where
  data : DiffPatchData
  fetchedFor : Shown
  shown : Shown

structure State where
  shown : Shown
  fileData : Loadable DiffFileResponse
  patchData : Loadable DiffPatchData
  patchDiffVersion : Nat
  filesRequestGeneration : Nat
  patchRequestGeneration : Nat
  requests : List Request
  /-- The patches loaded before the version was last reset, and since. -/
  earlier : List Loaded
  current : List Loaded

def defaultContext : Nat := 3

def noFiles : DiffFileResponse := ⟨[], none, none⟩

def State.init : State :=
  { shown := ⟨none, none, .branch, defaultContext⟩
    fileData := .asLoaded noFiles
    patchData := .idle
    patchDiffVersion := 0, filesRequestGeneration := 0, patchRequestGeneration := 0
    requests := [], earlier := [], current := [] }

inductive Event
  | setScope (sessionId : Option SessionId) (branch : Option JsString)
  | setBranch (branch : Option JsString)
  | setDiffMode (mode : DiffMode)
  | refresh (onlyFetchDiffIfNeeded : Bool)
  /-- Asked for by the renderer, or after a rebase. -/
  | fetchPatchDiff
  | clearPatchDiff
  | dispose
  /-- An answer arrives, or an error, with its message if it has one. -/
  | files (i : Nat) (answer : Except (Option JsString) DiffFileResponse)
  | patch (i : Nat) (answer : Except (Option JsString) JsString)
  | returned (i : Nat)

/-! ## The store -/

/-- The order of `compareFilePaths`, which is `localeCompare`'s. -/
abbrev SortFileSummaries := List DiffFileSummary → List DiffFileSummary

def cacheKeyPrefix (shown : Shown) (version : Nat) : JsString :=
  js "session-" ++ shown.sessionId.getD (js "null") ++ js "-" ++ shown.diffMode.text ++ js "-" ++
    js (toString shown.contextLines) ++ js "-" ++ shown.branch.getD (js "HEAD") ++ js "-v" ++ js (toString version)

def State.send (s : State) (call : Call) (thenPatch : Bool) : State :=
  { s with requests := s.requests ++ [⟨s.shown, call, thenPatch, false⟩] }

def State.setFiles (s : State) (fileData : Loadable DiffFileResponse) : State := { s with fileData }

def State.setPatch (s : State) (patchData : Loadable DiffPatchData) : State := { s with patchData }

def State.nextFiles (s : State) : State := { s with filesRequestGeneration := s.filesRequestGeneration + 1 }

def State.nextPatch (s : State) : State := { s with patchRequestGeneration := s.patchRequestGeneration + 1 }

def State.refresh (s : State) (onlyFetchDiffIfNeeded thenPatch : Bool) : State :=
  let s := s.nextFiles
  match s.shown.sessionId with
  | none => (s.setFiles (.asLoaded noFiles)).send .returned thenPatch
  | some _ => (s.setFiles s.fileData.asLoading).send (.files s.filesRequestGeneration onlyFetchDiffIfNeeded) thenPatch

def State.fetchPatchDiff (s : State) (thenPatch : Bool) : State :=
  let s := s.nextPatch
  match s.shown.sessionId with
  | none => (s.setPatch .idle).send .returned thenPatch
  | some _ => (s.setPatch s.patchData.asLoading).send (.patch s.patchRequestGeneration) thenPatch

/-- What `setScope`, `setDiffMode` and `clearPatchDiff` do to the patch, with what is shown from here on. -/
def State.resetPatch (s : State) (shown : Shown) : State :=
  { s with
    shown, patchData := .idle, patchDiffVersion := 0
    patchRequestGeneration := s.patchRequestGeneration + 1
    earlier := s.earlier ++ s.current, current := [] }

def State.setScope (s : State) (sessionId : Option SessionId) (branch : Option JsString) : State :=
  let branchChanged : Bool := branch ≠ s.shown.branch
  if sessionId ≠ s.shown.sessionId then
    let s := (s.resetPatch { s.shown with sessionId, branch, contextLines := defaultContext }).nextFiles.setFiles
      (.asLoaded noFiles)
    -- polling starts with a refresh
    if sessionId.isSome then s.refresh true false else s
  else if branchChanged then
    (s.resetPatch { s.shown with branch }).nextFiles.refresh (!branchChanged) false
  else s.refresh (!branchChanged) false

def State.setBranch (s : State) (branch : Option JsString) : State :=
  if branch = s.shown.branch then s else s.setScope s.shown.sessionId branch

def State.setDiffMode (s : State) (diffMode : DiffMode) : State :=
  if diffMode = s.shown.diffMode then s
  else (s.resetPatch { s.shown with diffMode }).refresh false s.patchData.data.isSome

def State.clearPatchDiff (s : State) : State := s.resetPatch s.shown

def State.dispose (s : State) : State := s.nextFiles.nextPatch

def State.goOn (s : State) (thenPatch : Bool) : State := if thenPatch then s.fetchPatchDiff false else s

/-- The rest of `refresh`. -/
def State.landFiles (sortFileSummaries : SortFileSummaries) (s : State) (generation : Nat)
    (onlyFetchDiffIfNeeded thenPatch : Bool) (answer : Except (Option JsString) DiffFileResponse) : State :=
  if generation ≠ s.filesRequestGeneration then s.goOn thenPatch
  else
    match answer with
    | .ok json =>
      let newFiles := sortFileSummaries json.files
      let changed : Bool := newFiles ≠ (s.fileData.data.map (·.files)).getD []
      let s := s.setFiles (.asLoaded { json with files := newFiles })
      if (changed || !onlyFetchDiffIfNeeded) && s.patchData.data.isSome then s.fetchPatchDiff thenPatch
      else s.goOn thenPatch
    | .error message => (s.setFiles (s.fileData.asError (message.getD (js "Failed to fetch file list")))).goOn thenPatch

/-- `get branch`. -/
def State.branch (s : State) : Option JsString := s.shown.branch <|> s.fileData.data.bind (·.branch)

def State.patchLoaded (s : State) (patch : JsString) : DiffPatchData :=
  { patch, cacheKeyPrefix := cacheKeyPrefix s.shown (s.patchDiffVersion + 1), version := s.patchDiffVersion + 1
    branch := s.branch, baseBranch := s.fileData.data.bind (·.baseBranch) }

def State.load (s : State) (fetchedFor : Shown) (patch : JsString) : State :=
  { s with
    patchDiffVersion := s.patchDiffVersion + 1
    patchData := .asLoaded (s.patchLoaded patch)
    current := s.current ++ [⟨s.patchLoaded patch, fetchedFor, s.shown⟩] }

def State.landPatch (s : State) (fetchedFor : Shown) (generation : Nat)
    (answer : Except (Option JsString) JsString) : State :=
  if generation ≠ s.patchRequestGeneration then s
  else
    match answer with
    | .ok patch => s.load fetchedFor patch
    | .error message => s.setPatch (s.patchData.asError (message.getD (js "Failed to fetch patch diff")))

/-- The call at a place that is still to go on. -/
def State.pending (s : State) (i : Nat) : Option Request := (s.requests[i]?).filter (!·.landed)

def State.land (s : State) (i : Nat) (r : Request) : State :=
  { s with requests := s.requests.set i { r with landed := true } }

def step (sortFileSummaries : SortFileSummaries) (s : State) : Event → State
  | .setScope sessionId branch => s.setScope sessionId branch
  | .setBranch branch => s.setBranch branch
  | .setDiffMode mode => s.setDiffMode mode
  | .refresh onlyFetchDiffIfNeeded => s.refresh onlyFetchDiffIfNeeded false
  | .fetchPatchDiff => s.fetchPatchDiff false
  | .clearPatchDiff => s.clearPatchDiff
  | .dispose => s.dispose
  | .files i answer =>
    match s.pending i with
    | some r@⟨_, .files generation onlyFetchDiffIfNeeded, thenPatch, _⟩ =>
      (s.land i r).landFiles sortFileSummaries generation onlyFetchDiffIfNeeded thenPatch answer
    | _ => s
  | .patch i answer =>
    match s.pending i with
    | some r@⟨fetchedFor, .patch generation, thenPatch, _⟩ =>
      ((s.land i r).landPatch fetchedFor generation answer).goOn thenPatch
    | _ => s
  | .returned i =>
    match s.pending i with
    | some r@⟨_, .returned, thenPatch, _⟩ => (s.land i r).goOn thenPatch
    | _ => s

/-! ## What is asked of it -/

def State.loaded (s : State) : List Loaded := s.earlier ++ s.current

structure Identified (s : State) : Prop where
  keys : ∀ x ∈ s.loaded, ∀ y ∈ s.loaded, x.data.cacheKeyPrefix = y.data.cacheKeyPrefix → x.data.patch = y.data.patch
  fetched : ∀ x ∈ s.loaded, x.fetchedFor = x.shown
  held : ∀ data ∈ s.patchData.data, ∃ x ∈ s.current, x.data = data ∧ x.fetchedFor = s.shown

def State.loads (s : State) : Event → Option (Shown × JsString)
  | .patch i (.ok patch) =>
    match s.pending i with
    | some ⟨fetchedFor, .patch generation, _, _⟩ =>
      if generation = s.patchRequestGeneration then some (fetchedFor, patch) else none
    | _ => none
  | _ => none

/-- No patch is loaded as the `n`-th since the reset where one of other content, loaded before the reset, has the
text of what is shown and of `n`. -/
def NewText (s : State) (e : Event) : Prop :=
  ∀ a ∈ s.loads e, ∀ x ∈ s.earlier,
    cacheKeyPrefix x.shown x.data.version = cacheKeyPrefix s.shown (s.patchDiffVersion + 1) → x.data.patch = a.2

/-! ## What a step may do -/

section

variable {s s' s'' : State} {r : Request} {shown : Shown} {version version' i : Nat}

/-- What is shown and loaded stays, and what is fetched from here on is fetched for it. -/
structure Keeps (s s' : State) : Prop where
  shown : s'.shown = s.shown
  version : s'.patchDiffVersion = s.patchDiffVersion
  earlier : s'.earlier = s.earlier
  current : s'.current = s.current
  held : ∀ data ∈ s'.patchData.data, data ∈ s.patchData.data
  generation : s.patchRequestGeneration ≤ s'.patchRequestGeneration
  requests : ∀ r ∈ s'.requests, ∀ generation, r.call = .patch generation →
    (∃ r₀ ∈ s.requests, r₀.call = .patch generation ∧ r₀.shown = r.shown) ∨
      r.shown = s.shown ∧ s.patchRequestGeneration < generation ∧ generation ≤ s'.patchRequestGeneration

theorem Keeps.refl (s : State) : Keeps s s :=
  ⟨rfl, rfl, rfl, rfl, fun _ => id, Nat.le_refl _, fun r hr _ hcall => .inl ⟨r, hr, hcall, rfl⟩⟩

theorem Keeps.trans (h : Keeps s s') (h' : Keeps s' s'') : Keeps s s'' := by
  refine ⟨h'.shown.trans h.shown, h'.version.trans h.version, h'.earlier.trans h.earlier,
    h'.current.trans h.current, fun data hdata => h.held data (h'.held data hdata),
    h.generation.trans h'.generation, ?_⟩
  intro r hr generation hcall
  rcases h'.requests r hr generation hcall with ⟨r₀, hr₀, hcall₀, hshown⟩ | ⟨hshown, hlt, hle⟩
  · rw [← hshown]
    rcases h.requests r₀ hr₀ generation hcall₀ with hold | ⟨hshown₀, hlt, hle⟩
    · exact .inl hold
    · exact .inr ⟨hshown₀, hlt, hle.trans h'.generation⟩
  · exact .inr ⟨hshown.trans h.shown, lt_of_le_of_lt h.generation hlt, hle⟩

theorem keeps_setFiles (s : State) (fileData : Loadable DiffFileResponse) : Keeps s (s.setFiles fileData) :=
  ⟨rfl, rfl, rfl, rfl, fun _ => id, Nat.le_refl _, fun r hr _ hcall => .inl ⟨r, hr, hcall, rfl⟩⟩

theorem keeps_nextFiles (s : State) : Keeps s s.nextFiles :=
  ⟨rfl, rfl, rfl, rfl, fun _ => id, Nat.le_refl _, fun r hr _ hcall => .inl ⟨r, hr, hcall, rfl⟩⟩

theorem keeps_nextPatch (s : State) : Keeps s s.nextPatch :=
  ⟨rfl, rfl, rfl, rfl, fun _ => id, Nat.le_succ _, fun r hr _ hcall => .inl ⟨r, hr, hcall, rfl⟩⟩

theorem keeps_setPatch (patchData : Loadable DiffPatchData)
    (h : ∀ data ∈ patchData.data, data ∈ s.patchData.data) : Keeps s (s.setPatch patchData) :=
  ⟨rfl, rfl, rfl, rfl, h, Nat.le_refl _, fun r hr _ hcall => .inl ⟨r, hr, hcall, rfl⟩⟩

theorem keeps_send {call : Call} (hcall : ∀ generation, call ≠ .patch generation) (thenPatch : Bool) :
    Keeps s (s.send call thenPatch) := by
  refine ⟨rfl, rfl, rfl, rfl, fun _ => id, Nat.le_refl _, ?_⟩
  intro r hr generation hr'
  rcases mem_append.mp hr with hr | hr
  · exact .inl ⟨r, hr, hr', rfl⟩
  · rw [mem_singleton.mp hr] at hr'
    exact absurd hr' (hcall generation)

theorem keeps_refresh (s : State) (onlyFetchDiffIfNeeded thenPatch : Bool) :
    Keeps s (s.refresh onlyFetchDiffIfNeeded thenPatch) := by
  unfold State.refresh
  dsimp only
  split
  · exact (keeps_nextFiles s).trans ((keeps_setFiles _ _).trans (keeps_send (fun _ h => by cases h) thenPatch))
  · exact (keeps_nextFiles s).trans ((keeps_setFiles _ _).trans (keeps_send (fun _ h => by cases h) thenPatch))

theorem keeps_fetchPatchDiff (s : State) (thenPatch : Bool) : Keeps s (s.fetchPatchDiff thenPatch) := by
  unfold State.fetchPatchDiff
  dsimp only
  split
  · exact (keeps_nextPatch s).trans ((keeps_setPatch _ (fun _ h => by cases h)).trans
      (keeps_send (fun _ h => by cases h) thenPatch))
  refine ⟨rfl, rfl, rfl, rfl, fun _ => id, Nat.le_succ _, ?_⟩
  intro r hr generation hcall
  rcases mem_append.mp hr with hr | hr
  · exact .inl ⟨r, hr, hcall, rfl⟩
  -- the request made now
  rw [mem_singleton.mp hr] at hcall ⊢
  rw [← Call.patch.inj hcall]
  exact .inr ⟨rfl, Nat.lt_succ_self _, Nat.le_refl _⟩

theorem keeps_goOn (s : State) (thenPatch : Bool) : Keeps s (s.goOn thenPatch) := by
  unfold State.goOn
  split
  · exact keeps_fetchPatchDiff s false
  · exact .refl s

theorem mem_of_pending (h : s.pending i = some r) : r ∈ s.requests ∧ r.landed = false := by
  obtain ⟨hr, hlanded⟩ := Option.filter_eq_some_iff.mp h
  exact ⟨mem_of_getElem? hr, by simpa using hlanded⟩

theorem keeps_land (h : s.pending i = some r) : Keeps s (s.land i r) := by
  refine ⟨rfl, rfl, rfl, rfl, fun _ => id, Nat.le_refl _, ?_⟩
  intro r' hr' generation hcall
  rcases mem_or_eq_of_mem_set hr' with hr' | rfl
  · exact .inl ⟨r', hr', hcall, rfl⟩
  · exact .inl ⟨r, (mem_of_pending h).1, hcall, rfl⟩

theorem keeps_landFiles (sortFileSummaries : SortFileSummaries) (s : State) (generation : Nat)
    (onlyFetchDiffIfNeeded thenPatch : Bool) (answer : Except (Option JsString) DiffFileResponse) :
    Keeps s (s.landFiles sortFileSummaries generation onlyFetchDiffIfNeeded thenPatch answer) := by
  unfold State.landFiles
  split
  · exact keeps_goOn s thenPatch
  cases answer with
  | ok json =>
    dsimp only
    split
    · exact (keeps_setFiles s _).trans (keeps_fetchPatchDiff _ thenPatch)
    · exact (keeps_setFiles s _).trans (keeps_goOn _ thenPatch)
  | error message => exact (keeps_setFiles s _).trans (keeps_goOn _ thenPatch)

theorem setScope_cases (s : State) (sessionId : Option SessionId) (branch : Option JsString) :
    Keeps s (s.setScope sessionId branch) ∨ ∃ shown, Keeps (s.resetPatch shown) (s.setScope sessionId branch) := by
  unfold State.setScope
  dsimp only
  split
  · refine .inr ⟨{ s.shown with sessionId, branch, contextLines := defaultContext }, ?_⟩
    have hfiles := (keeps_nextFiles (s.resetPatch { s.shown with sessionId, branch, contextLines := defaultContext })).trans
      (keeps_setFiles _ (.asLoaded noFiles))
    split
    · exact hfiles.trans (keeps_refresh _ true false)
    · exact hfiles
  · split
    · exact .inr ⟨{ s.shown with branch }, (keeps_nextFiles _).trans (keeps_refresh _ _ false)⟩
    · exact .inl (keeps_refresh s _ false)

theorem step_cases (sortFileSummaries : SortFileSummaries) (s : State) (e : Event) :
    (s.loads e = none ∧ (Keeps s (step sortFileSummaries s e) ∨
      ∃ shown, Keeps (s.resetPatch shown) (step sortFileSummaries s e))) ∨
    ∃ r ∈ s.requests, r.call = .patch s.patchRequestGeneration ∧ ∃ patch,
      s.loads e = some (r.shown, patch) ∧ Keeps (s.load r.shown patch) (step sortFileSummaries s e) := by
  cases e with
  | setScope sessionId branch => exact .inl ⟨rfl, setScope_cases s sessionId branch⟩
  | setBranch branch =>
    refine .inl ⟨rfl, ?_⟩
    simp only [step, State.setBranch]
    split
    · exact .inl (.refl s)
    · exact setScope_cases s _ branch
  | setDiffMode mode =>
    refine .inl ⟨rfl, ?_⟩
    simp only [step, State.setDiffMode]
    split
    · exact .inl (.refl s)
    · exact .inr ⟨_, keeps_refresh _ false _⟩
  | refresh onlyFetchDiffIfNeeded => exact .inl ⟨rfl, .inl (keeps_refresh s _ false)⟩
  | fetchPatchDiff => exact .inl ⟨rfl, .inl (keeps_fetchPatchDiff s false)⟩
  | clearPatchDiff => exact .inl ⟨rfl, .inr ⟨s.shown, .refl _⟩⟩
  | dispose => exact .inl ⟨rfl, .inl ((keeps_nextFiles s).trans (keeps_nextPatch _))⟩
  | files i answer =>
    refine .inl ⟨rfl, .inl ?_⟩
    simp only [step]
    split
    next hr =>
      exact (keeps_land hr).trans (keeps_landFiles _ _ _ _ _ _)
    · exact .refl s
  | returned i =>
    refine .inl ⟨rfl, .inl ?_⟩
    simp only [step]
    split
    next hr =>
      exact (keeps_land hr).trans (keeps_goOn _ _)
    · exact .refl s
  | patch i answer =>
    simp only [step]
    split
    next fetchedFor generation thenPatch landed hr =>
      have hland := keeps_land hr
      unfold State.landPatch
      split
      next hstale =>
        refine .inl ⟨?_, .inl (hland.trans (keeps_goOn _ thenPatch))⟩
        cases answer with
        | ok patch => simp [State.loads, hr, show generation ≠ s.patchRequestGeneration from hstale]
        | error message => rfl
      next hlatest =>
        have hlatest : generation = s.patchRequestGeneration := not_not.mp hlatest
        subst hlatest
        cases answer with
        | ok patch =>
          refine .inr ⟨_, (mem_of_pending hr).1, rfl, patch, by simp [State.loads, hr], ?_⟩
          exact (keeps_land (s := s.load fetchedFor patch) hr).trans (keeps_goOn _ thenPatch)
        | error message =>
          refine .inl ⟨rfl, .inl ?_⟩
          dsimp only
          refine hland.trans (.trans ?_ (keeps_goOn _ thenPatch))
          exact keeps_setPatch _ fun _ => id
    next hnone =>
      refine .inl ⟨?_, .inl (.refl s)⟩
      cases answer with
      | ok patch => simp [State.loads]
      | error message => rfl

/-! ## The invariant -/

theorem cacheKeyPrefix_inj (h : cacheKeyPrefix shown version = cacheKeyPrefix shown version') : version = version' :=
  js_toString_inj.mp (append_cancel_left h)

structure StoreOk (s : State) : Prop where
  keyed : ∀ x ∈ s.loaded, x.data.cacheKeyPrefix = cacheKeyPrefix x.shown x.data.version
  fetched : ∀ x ∈ s.loaded, x.fetchedFor = x.shown
  current : ∀ x ∈ s.current, x.shown = s.shown ∧ x.data.version ≤ s.patchDiffVersion
  versions : ∀ x ∈ s.current, ∀ y ∈ s.current, x.data.version = y.data.version → x = y
  held : ∀ data ∈ s.patchData.data, ∃ x ∈ s.current, x.data = data
  latest : ∀ r ∈ s.requests, ∀ generation, r.call = .patch generation →
    generation ≤ s.patchRequestGeneration ∧ (generation = s.patchRequestGeneration → r.shown = s.shown)

theorem Keeps.loaded (h : Keeps s s') : s'.loaded = s.loaded := by
  unfold State.loaded
  rw [h.earlier, h.current]

theorem StoreOk.keeps (h : StoreOk s) (hk : Keeps s s') : StoreOk s' := by
  refine ⟨?_, ?_, ?_, ?_, ?_, ?_⟩
  · rw [hk.loaded]
    exact h.keyed
  · rw [hk.loaded]
    exact h.fetched
  · rw [hk.current, hk.shown, hk.version]
    exact h.current
  · rw [hk.current]
    exact h.versions
  · intro data hdata
    rw [hk.current]
    exact h.held data (hk.held data hdata)
  · intro r hr generation hcall
    rw [hk.shown]
    rcases hk.requests r hr generation hcall with ⟨r₀, hr₀, hcall₀, hshown⟩ | ⟨hshown, _, hle⟩
    · obtain ⟨hle, hlatest⟩ := h.latest r₀ hr₀ generation hcall₀
      refine ⟨hle.trans hk.generation, fun heq => ?_⟩
      -- no later fetch was made
      rw [← hshown]
      exact hlatest (hle.antisymm (heq ▸ hk.generation))
    · exact ⟨hle, fun _ => hshown⟩

theorem resetPatch_loaded (s : State) (shown : Shown) : (s.resetPatch shown).loaded = s.loaded := append_nil _

theorem StoreOk.resetPatch (h : StoreOk s) (shown : Shown) : StoreOk (s.resetPatch shown) := by
  refine ⟨?_, ?_, fun _ => nofun, fun _ => nofun, fun _ h => (by cases h), ?_⟩
  · rw [resetPatch_loaded]
    exact h.keyed
  · rw [resetPatch_loaded]
    exact h.fetched
  · intro r hr generation hcall
    have hle := (h.latest r hr generation hcall).1
    exact ⟨hle.trans (Nat.le_succ _), fun heq => absurd heq (Nat.ne_of_lt (Nat.lt_succ_of_le hle))⟩

theorem load_loaded (s : State) (fetchedFor : Shown) (patch : JsString) :
    (s.load fetchedFor patch).loaded = s.loaded ++ [⟨s.patchLoaded patch, fetchedFor, s.shown⟩] :=
  (append_assoc ..).symm

theorem StoreOk.load (h : StoreOk s) (patch : JsString) : StoreOk (s.load s.shown patch) := by
  refine ⟨?_, ?_, ?_, ?_, ?_, h.latest⟩
  · rw [load_loaded]
    intro x hx
    rcases mem_concat_cases hx with hx | rfl
    · exact h.keyed x hx
    · rfl
  · rw [load_loaded]
    intro x hx
    rcases mem_append.mp hx with hx | hx
    · exact h.fetched x hx
    · rw [mem_singleton.mp hx]
  · intro x hx
    rcases mem_concat_cases hx with hx | rfl
    · exact ⟨(h.current x hx).1, Nat.le_succ_of_le (h.current x hx).2⟩
    · exact ⟨rfl, Nat.le_refl _⟩
  · -- the new version is above the others
    have hnew : ∀ x ∈ s.current, x.data.version ≠ s.patchDiffVersion + 1 :=
      fun x hx => Nat.ne_of_lt (Nat.lt_succ_of_le (h.current x hx).2)
    intro x hx y hy hversion
    rcases mem_append.mp hx with hx | hx <;> rcases mem_append.mp hy with hy | hy
    · exact h.versions x hx y hy hversion
    · rw [mem_singleton.mp hy] at hversion
      exact absurd hversion (hnew x hx)
    · rw [mem_singleton.mp hx] at hversion
      exact absurd hversion.symm (hnew y hy)
    · rw [mem_singleton.mp hx, mem_singleton.mp hy]
  · intro data hdata
    refine ⟨_, mem_append_right _ (mem_singleton_self _), ?_⟩
    exact Option.some_inj.mp hdata

theorem StoreOk.step (sortFileSummaries : SortFileSummaries) (s : State) (e : Event) (h : StoreOk s) :
    StoreOk (step sortFileSummaries s e) := by
  rcases step_cases sortFileSummaries s e with ⟨_, hk | ⟨shown, hk⟩⟩ | ⟨r, hr, hcall, patch, _, hk⟩
  · exact h.keeps hk
  · exact (h.resetPatch shown).keeps hk
  · rw [(h.latest r hr _ hcall).2 rfl] at hk
    exact (h.load patch).keeps hk

theorem storeOk_init : StoreOk .init :=
  ⟨fun _ => nofun, fun _ => nofun, fun _ => nofun, fun _ => nofun, fun _ h => (by cases h), fun _ => nofun⟩

/-! ## Keys -/

def KeysTell (loaded : List Loaded) : Prop :=
  ∀ x ∈ loaded, ∀ y ∈ loaded, x.data.cacheKeyPrefix = y.data.cacheKeyPrefix → x.data.patch = y.data.patch

theorem StoreOk.identified_iff (h : StoreOk s) : Identified s ↔ KeysTell s.loaded := by
  refine ⟨fun hid => hid.keys, fun hkeys => ⟨hkeys, h.fetched, ?_⟩⟩
  intro data hdata
  obtain ⟨x, hx, hdata⟩ := h.held data hdata
  exact ⟨x, hx, hdata, (h.fetched x (mem_append_right _ hx)).trans (h.current x hx).1⟩

theorem keysTell_concat {loaded : List Loaded} {x : Loaded} (h : KeysTell loaded) : KeysTell (loaded ++ [x]) ↔
      ∀ y ∈ loaded, y.data.cacheKeyPrefix = x.data.cacheKeyPrefix → y.data.patch = x.data.patch := by
  constructor
  · exact fun hkeys y hy => hkeys y (mem_append_left _ hy) x (mem_append_right _ (mem_singleton_self x))
  intro hx y hy z hz hkey
  rcases mem_append.mp hy with hy | hy <;> rcases mem_append.mp hz with hz | hz
  · exact h y hy z hz hkey
  · rw [mem_singleton.mp hz] at hkey ⊢
    exact hx y hy hkey
  · rw [mem_singleton.mp hy] at hkey ⊢
    exact (hx z hz hkey.symm).symm
  · rw [mem_singleton.mp hy, mem_singleton.mp hz]

theorem StoreOk.load_keys (h : StoreOk s) (hkeys : KeysTell s.loaded) (patch : JsString) :
    KeysTell (s.load s.shown patch).loaded ↔ ∀ x ∈ s.earlier,
      cacheKeyPrefix x.shown x.data.version = cacheKeyPrefix s.shown (s.patchDiffVersion + 1) → x.data.patch = patch := by
  rw [load_loaded, keysTell_concat hkeys]
  constructor
  · intro hall x hx hkey
    have hx : x ∈ s.loaded := mem_append_left _ hx
    exact hall x hx ((h.keyed x hx).trans hkey)
  intro hall x hx hkey
  have hkey : cacheKeyPrefix x.shown x.data.version = cacheKeyPrefix s.shown (s.patchDiffVersion + 1) :=
    (h.keyed x hx).symm.trans hkey
  rcases mem_append.mp hx with hx | hx
  · exact hall x hx hkey
  obtain ⟨hshown, hle⟩ := h.current x hx
  rw [hshown] at hkey
  exact absurd (cacheKeyPrefix_inj hkey) (Nat.ne_of_lt (Nat.lt_succ_of_le hle))

theorem identified_step (sortFileSummaries : SortFileSummaries) (s : State) (e : Event) (h : StoreOk s)
    (hid : Identified s) : Identified (step sortFileSummaries s e) ↔ NewText s e := by
  rw [(h.step sortFileSummaries s e).identified_iff]
  have hkeys := hid.keys
  rcases step_cases sortFileSummaries s e with ⟨hnone, hk | ⟨shown, hk⟩⟩ | ⟨r, hr, hcall, patch, hloads, hk⟩
  · rw [hk.loaded]
    refine iff_of_true hkeys fun a ha => ?_
    cases hnone.symm.trans ha
  · rw [hk.loaded, resetPatch_loaded]
    refine iff_of_true hkeys fun a ha => ?_
    cases hnone.symm.trans ha
  · rw [(h.latest r hr _ hcall).2 rfl] at hk
    rw [hk.loaded, h.load_keys hkeys]
    unfold NewText
    rw [hloads]
    simp

end

/-- Along every run the keys tell the patches apart, and each was fetched for what was shown, exactly when no
key's text is given again to another content after a reset. -/
theorem keys_identify (sortFileSummaries : SortFileSummaries) (es : List Event) :
    Always (step sortFileSummaries) Identified .init es ↔ Along (step sortFileSummaries) NewText .init es :=
  always_iff_along_of StoreOk Identified (StoreOk.step sortFileSummaries) (identified_step sortFileSummaries)
    storeOk_init ((storeOk_init.identified_iff).mpr fun _ => nofun) es

/-- A session's diff is loaded, another session is shown and then the first again, whose diff has changed: its
patch has the first one's key. -/
theorem key_names_two_patches : ¬Always (step id) Identified .init
    [.setScope (some [1]) none, .fetchPatchDiff, .patch 1 (.ok [7]), .setScope (some [2]) none,
      .setScope (some [1]) none, .fetchPatchDiff, .patch 4 (.ok [8])] := by
  intro h
  have hid := h.2.2.2.2.2.2.1
  have hpatch := hid.keys _ (mem_cons_self ..) _ (mem_cons_of_mem _ (mem_cons_self ..)) rfl
  cases hpatch

end Reins.DiffStore
