import Reins.Lib.Places
import Reins.Lib.Run
import Reins.Frontend.Loadable

/-!
# The files a browser shows (`frontend/src/models/stores/{project-files,file-browser-store}.ts`)

The nodes' files are as they are at each moment; requests are answered with what they are then, and land
later in any order. Listings are kept for the two sources asked for last, the tree for the browser's source.
-/

namespace Reins.ShownFiles

open Places Run List Function Bool
open Schema (JsString)
open Utf (js)

abbrev NodeId := String
abbrev Shower := Nat
abbrev Moment := Nat

structure Source where
  nodeId : NodeId
  path : String
  deriving DecidableEq

inductive EntryType
  | file
  | directory
  deriving DecidableEq

structure DirectoryEntry where
  name : String
  type : EntryType
  deriving DecidableEq

/-- What the server answers at a moment: no files of a node that is offline or unknown, and no entries either,
nor of a path that is no directory. -/
structure World where
  files : Moment → Source → Option (List String)
  entries : Moment → Source → String → Option (List DirectoryEntry)

/-! ## Listings (`project-files.ts`) -/

/-- The object of a listing, named by `id`: one that was dropped is another than the one made after it. -/
structure Listing where
  id : Nat
  source : Source
  state : Loadable (List String)
  request : Nat
  unavailable : Bool
  nodeConnected : Option Bool
  stale : Bool

def keptListings : Nat := 2

structure ListRequest where
  id : Nat
  source : Source
  request : Nat
  answer : Option (Option (List String))

structure Asked where
  source : Source
  moment : Moment
  shown : Loadable (List String)

structure ProjectFiles where
  /-- The node list: whether a node on it is connected. -/
  nodes : NodeId → Option Bool
  listings : List Listing
  nextId : Nat
  requests : List ListRequest
  asked : Shower → Option Asked
  notified : Moment
  /-- When a source's files were last said to have changed, or its node to have connected or not. -/
  announced : Source → Moment

def Listing.view (l : Listing) : Loadable (List String) := if l.unavailable then .idle else l.state

def Listing.load (l : Listing) : Listing :=
  { l with request := l.request + 1, stale := false, state := l.state.asLoading }

def Listing.loads (l : Listing) : Bool := l.state.status = .idle || l.stale

def Listing.awaits (l : Listing) (r : ListRequest) : Bool := l.id = r.id && l.request = r.request

def Listing.answered (l : Listing) : Option (List String) → Listing
  | some files => { l with unavailable := false, state := .asLoaded files }
  | none => { l with unavailable := true, state := l.state.asError (js "Failed to load the file list") }

def Listing.land (r : ListRequest) (answer : Option (List String)) (l : Listing) : Listing :=
  if l.awaits r then l.answered answer else l

def Listing.markStale (source : Source) (l : Listing) : Listing :=
  if l.source = source then { l with stale := true } else l

def Listing.nodeChanged (nodes : NodeId → Option Bool) (l : Listing) : Listing :=
  { l with
    stale := l.stale || l.nodeConnected.isSome && nodes l.source.nodeId ≠ l.nodeConnected
    nodeConnected := nodes l.source.nodeId }

/-- The ones asked for last; the requests of the others are not looked at again. -/
def kept (listings : List Listing) : List Listing := listings.drop (listings.length - keptListings)

section

variable (s : ProjectFiles) (now : Moment)

def ProjectFiles.newListing (source : Source) : Listing :=
  { id := s.nextId, source, state := .idle, request := 0, unavailable := false, nodeConnected := s.nodes source.nodeId
    stale := false }

def ProjectFiles.listingOf (source : Source) : Listing :=
  (s.listings.find? fun l => l.source = source).getD (s.newListing source)

/-- `listing`, which a shower calls as it shows it. -/
def ProjectFiles.listing (w : Shower) (source : Source) : ProjectFiles :=
  let listing := s.listingOf source
  let listed := if listing.loads then listing.load else listing
  { s with
    listings := kept ((s.listings.filter fun l => l.source ≠ source) ++ [listed])
    nextId := s.nextId + 1
    requests := if listing.loads then s.requests ++ [⟨listed.id, source, listed.request, none⟩] else s.requests
    asked := Function.update s.asked w (some ⟨source, now, listed.view⟩) }

def ProjectFiles.leave (w : Shower) : ProjectFiles := { s with asked := Function.update s.asked w none }

def ProjectFiles.notify : ProjectFiles := { s with notified := now }

def ProjectFiles.land (i : Nat) : ProjectFiles :=
  match s.requests[i]? with
  | some r =>
    match r.answer with
    | some answer =>
      let s := { s with requests := s.requests.eraseIdx i }
      if s.listings.any (·.awaits r) then
        ProjectFiles.notify { s with listings := s.listings.map (·.land r answer) } now
      else s
    | none => s
  | none => s

/-- `announceChanged`; showers are notified if its listing is shown. -/
def ProjectFiles.announceChanged (source : Source) : ProjectFiles :=
  let s := { s with announced := Function.update s.announced source now }
  if s.listings.any fun l => l.source = source && !l.unavailable then
    ProjectFiles.notify { s with listings := s.listings.map (·.markStale source) } now
  else s

def ProjectFiles.nodesChanged (nodes : NodeId → Option Bool) : ProjectFiles :=
  ProjectFiles.notify
    { s with
      nodes
      listings := s.listings.map (·.nodeChanged nodes)
      announced := fun source => if nodes source.nodeId ≠ s.nodes source.nodeId then now else s.announced source }
    now

def ListRequest.answerWith (world : World) (r : ListRequest) : ListRequest :=
  if r.answer.isNone then { r with answer := some (world.files now r.source) } else r

def ProjectFiles.answer (world : World) (i : Nat) : ProjectFiles :=
  { s with requests := s.requests.modify i (·.answerWith now world) }

end

/-! ## The tree (`file-browser-store.ts`) -/

structure DirRequest where
  generation : Nat
  source : Source
  path : String
  answer : Option (Option (List DirectoryEntry))

structure FileBrowser where
  source : Option Source
  generation : Nat
  directoryEntries : List (String × List DirectoryEntry)
  expandedDirs : List String
  treeLoading : List String
  treeError : Option JsString
  requests : List DirRequest
  changed : Source → Moment

def setEntries (entries : List (String × List DirectoryEntry)) (path : String) (listed : List DirectoryEntry) :
    List (String × List DirectoryEntry) :=
  if entries.any fun entry => entry.1 = path then
    entries.map fun entry => if entry.1 = path then (path, listed) else entry
  else entries ++ [(path, listed)]

variable {path : String} {source : Source} {a : Asked} {i : Nat} {l : Listing} {entries : List DirectoryEntry}
  {r : DirRequest}

def ancestors (filePath : String) : List String :=
  let parts := (filePath.splitOn "/").dropLast
  "." :: parts.inits.tail.map "/".intercalate

section

variable (b : FileBrowser) (now : Moment)

def FileBrowser.useSource (source : Source) : FileBrowser :=
  if b.source = some source then b
  else
    { b with
      source := some source, generation := b.generation + 1
      directoryEntries := [], expandedDirs := [], treeLoading := [], treeError := none }

def FileBrowser.listDirectory (path : String) : FileBrowser :=
  match b.source with
  | some source =>
    { b with
      treeLoading := b.treeLoading.insert path, treeError := none
      requests := b.requests ++ [⟨b.generation, source, path, none⟩] }
  | none => b

def FileBrowser.fetchDirectory (path : String) : FileBrowser :=
  if (b.directoryEntries.any fun entry => entry.1 = path) || path ∈ b.treeLoading then b else b.listDirectory path

def FileBrowser.expand (paths : List String) : FileBrowser :=
  { b with expandedDirs := paths.foldl (fun dirs path => dirs.insert path) b.expandedDirs }

def FileBrowser.expandToPath (filePath : String) : FileBrowser :=
  (ancestors filePath).foldl FileBrowser.fetchDirectory (b.expand (ancestors filePath))

def FileBrowser.open (source : Source) (path : Option String) : FileBrowser :=
  let b := (b.useSource source).fetchDirectory "."
  match path with
  | some path => b.expandToPath path
  | none => b

def FileBrowser.toggleDirectory (path : String) : FileBrowser :=
  if path ∈ b.expandedDirs then { b with expandedDirs := b.expandedDirs.erase path }
  else (b.expand [path]).fetchDirectory path

/-- An answer for an earlier source is dropped. -/
def FileBrowser.landed (r : DirRequest) (answer : Option (List DirectoryEntry)) : FileBrowser :=
  if r.generation = b.generation then
    let b := { b with treeLoading := b.treeLoading.erase r.path }
    match answer with
    | some entries => { b with directoryEntries := setEntries b.directoryEntries r.path entries }
    | none => { b with treeError := some (js "Failed to load directory") }
  else b

def FileBrowser.land (i : Nat) : FileBrowser :=
  match b.requests[i]? with
  | some r =>
    match r.answer with
    | some answer => FileBrowser.landed { b with requests := b.requests.eraseIdx i } r answer
    | none => b
  | none => b

def FileBrowser.onFilesChanged (source : Source) : FileBrowser :=
  let b := { b with changed := Function.update b.changed source now }
  if b.source = some source then (b.directoryEntries.map (·.1)).foldl FileBrowser.listDirectory b else b

def DirRequest.answerWith (world : World) (r : DirRequest) : DirRequest :=
  if r.answer.isNone then { r with answer := some (world.entries now r.source r.path) } else r

def FileBrowser.answer (world : World) (i : Nat) : FileBrowser :=
  { b with requests := b.requests.modify i (·.answerWith now world) }

end

/-! ## The two of them -/

structure State where
  now : Moment
  files : ProjectFiles
  browser : FileBrowser

def State.init : State where
  now := 1
  files :=
    { nodes := fun _ => none, listings := [], nextId := 0, requests := [], asked := fun _ => none, notified := 0
      announced := fun _ => 0 }
  browser :=
    { source := none, generation := 0, directoryEntries := [], expandedDirs := [], treeLoading := [], treeError := none
      requests := [], changed := fun _ => 0 }

inductive Event
  | ask (w : Shower) (source : Option Source)
  | open (source : Source) (path : Option String)
  | openSearch (source : Source)
  | fetchDirectory (path : String)
  | toggleDirectory (path : String)
  | answerList (i : Nat)
  | landList (i : Nat)
  | answerDir (i : Nat)
  | landDir (i : Nat)
  | announceChanged (source : Source)
  | nodesChanged (nodes : NodeId → Option Bool)

def ProjectFiles.step (world : World) (now : Moment) (s : ProjectFiles) : Event → ProjectFiles
  | .ask w (some source) => s.listing now w source
  | .ask w none => s.leave w
  | .answerList i => s.answer now world i
  | .landList i => s.land now i
  | .announceChanged source => s.announceChanged now source
  | .nodesChanged nodes => s.nodesChanged now nodes
  | _ => s

def FileBrowser.step (world : World) (now : Moment) (b : FileBrowser) : Event → FileBrowser
  | .open source path => b.open source path
  | .openSearch source => b.useSource source
  | .fetchDirectory path => b.fetchDirectory path
  | .toggleDirectory path => b.toggleDirectory path
  | .answerDir i => b.answer now world i
  | .landDir i => b.land i
  | .announceChanged source => b.onFilesChanged now source
  | _ => b

def step (world : World) (s : State) (e : Event) : State where
  now := s.now + 1
  files := s.files.step world s.now e
  browser := s.browser.step world s.now e

/-! ## Listings are kept right -/

def Since {α : Type} (first now : Moment) (what : Moment → α) (value : α) : Prop :=
  ∃ t, t < now ∧ first ≤ t ∧ what t = value

theorem Since.later {α : Type} {first now : Moment} {what : Moment → α} {value : α} (h : Since first now what value) :
    Since first (now + 1) what value := by
  obtain ⟨t, hlt, hle, heq⟩ := h
  exact ⟨t, Nat.lt_succ_of_lt hlt, hle, heq⟩

theorem Since.now {α : Type} {first now : Moment} {what : Moment → α} {value : α} (hle : first ≤ now)
    (h : what now = value) : Since first (now + 1) what value := ⟨now, Nat.lt_succ_self now, hle, h⟩

/-- Its answer has come, and it is shown as that says. -/
def Listing.Settled (l : Listing) : Prop :=
  l.unavailable = false ∧ (∃ files, l.state = .asLoaded files) ∨ l.unavailable = true ∧ l.state.status = .error

section

variable (world : World) (now : Moment) (s : ProjectFiles)

structure Listing.Fits (l : Listing) : Prop where
  fresh : l.id < s.nextId
  same : ∀ r ∈ s.requests, r.id = l.id → r.source = l.source ∧ r.request ≤ l.request
  nodeConnected : l.nodeConnected = s.nodes l.source.nodeId
  status : l.Settled ∨ l.state.status = .loading ∧ ∃ r ∈ s.requests, l.awaits r
  data : ∀ files ∈ l.state.data, Since 0 now (world.files · l.source) (some files)

structure ListRequest.Fits (r : ListRequest) : Prop where
  fresh : r.id < s.nextId
  answer : ∀ answer ∈ r.answer, Since 0 now (world.files · r.source) answer

def ProjectFiles.Loading : Prop := ∃ l ∈ s.listings, l.state.status = .loading

/-- What a shower was given is what it would be given again. -/
def ProjectFiles.Shows (a : Asked) : Prop := ∃ l ∈ s.listings, l.source = a.source ∧ l.stale = false ∧ a.shown = l.view

structure Asked.Fits (a : Asked) : Prop where
  moment : a.moment < now
  data : ∀ files ∈ a.shown.data, Since 0 now (world.files · a.source) (some files)
  shows : s.notified < a.moment → s.Loading ∨ s.Shows a

structure ProjectFiles.Wf : Prop where
  small : s.listings.length ≤ keptListings
  apart : ∀ l ∈ s.listings, ∀ l' ∈ s.listings, l.id = l'.id ∨ l.source = l'.source → l = l'
  listings : ∀ l ∈ s.listings, l.Fits world now s
  requests : ∀ r ∈ s.requests, r.Fits world now s
  notified : s.notified < now
  announced : ∀ source, s.announced source < now
  asked : ∀ w, ∀ a ∈ s.asked w, a.Fits world now s

/-- What is shown of a listing when nothing is on the way. -/
def Listing.value (l : Listing) : Option (List String) := if l.unavailable then none else l.state.data

/-- It is marked stale, or its latest request or what it has is no older than what was last announced. -/
def Listing.Fine (l : Listing) : Prop :=
  l.stale ∨ (∀ r ∈ s.requests, l.awaits r → ∀ answer ∈ r.answer,
        Since (s.announced l.source) now (world.files · l.source) answer) ∧
      (l.state.status = .loading ∨ Since (s.announced l.source) now (world.files · l.source) l.value)

def ProjectFiles.Fine : Prop := ∀ l ∈ s.listings, l.Fine world now s

def Listing.Current (l : Listing) : Prop :=
  l.stale ∨ (∀ r ∈ s.requests, l.awaits r → ∀ answer ∈ r.answer, world.files now l.source = answer) ∧
      (l.state.status = .loading ∨ world.files now l.source = l.value)

/-- An announcement that a listing passes over leaves nothing behind. -/
def ProjectFiles.Ok : Event → Prop
  | .announceChanged source => ∀ l ∈ s.listings, l.source = source → l.unavailable → l.Current world now s
  | .nodesChanged nodes =>
    ∀ l ∈ s.listings, l.nodeConnected = none → nodes l.source.nodeId ≠ none → l.Current world now s
  | _ => True

end

section

variable {world : World} {now : Moment} {s s' : ProjectFiles} {l : Listing} {r : ListRequest}

theorem awaits_iff : l.awaits r ↔ l.id = r.id ∧ l.request = r.request := by
  simp [Listing.awaits]

theorem Listing.Settled.ne_loading (h : l.Settled) : l.state.status ≠ .loading := by
  obtain ⟨-, files, hstate⟩ | ⟨-, hstatus⟩ := h
  · rw [hstate]
    exact nofun
  · rw [hstatus]
    exact nofun

theorem Listing.answered_settled (l : Listing) (answer : Option (List String)) : (l.answered answer).Settled := by
  cases answer with
  | none => exact .inr ⟨rfl, rfl⟩
  | some files => exact .inl ⟨rfl, files, rfl⟩

theorem Listing.answered_value (l : Listing) (answer : Option (List String)) : (l.answered answer).value = answer := by
  cases answer <;> rfl

structure Listing.Same (l l' : Listing) : Prop where
  id : l'.id = l.id
  source : l'.source = l.source
  request : l'.request = l.request

theorem Listing.Same.awaits {l' : Listing} (h : l.Same l') : l'.awaits r = l.awaits r := by
  rw [Listing.awaits, h.id, h.request, Listing.awaits]

theorem same_land (answer : Option (List String)) (l : Listing) : l.Same (l.land r answer) := by
  rw [Listing.land]
  split
  · cases answer <;> exact ⟨rfl, rfl, rfl⟩
  · exact ⟨rfl, rfl, rfl⟩

theorem same_markStale (source : Source) (l : Listing) : l.Same (l.markStale source) := by
  rw [Listing.markStale]
  split <;> exact ⟨rfl, rfl, rfl⟩

theorem same_nodeChanged (nodes : NodeId → Option Bool) (l : Listing) : l.Same (l.nodeChanged nodes) := ⟨rfl, rfl, rfl⟩

theorem apart_map {f : Listing → Listing} (hf : ∀ l : Listing, l.Same (f l))
    (h : ∀ l ∈ s.listings, ∀ l' ∈ s.listings, l.id = l'.id ∨ l.source = l'.source → l = l') :
    ∀ l ∈ s.listings.map f, ∀ l' ∈ s.listings.map f, l.id = l'.id ∨ l.source = l'.source → l = l' := by
  intro l hl l' hl' heq
  obtain ⟨l₀, hl₀, rfl⟩ := mem_map.mp hl
  obtain ⟨l₁, hl₁, rfl⟩ := mem_map.mp hl'
  rw [(hf l₀).id, (hf l₁).id, (hf l₀).source, (hf l₁).source] at heq
  rw [h l₀ hl₀ l₁ hl₁ heq]

/-! ### Answers -/

theorem answerWith_id (now : Moment) (world : World) (r : ListRequest) :
    (r.answerWith now world).id = r.id ∧ (r.answerWith now world).source = r.source ∧
      (r.answerWith now world).request = r.request := by
  rw [ListRequest.answerWith]
  split <;> exact ⟨rfl, rfl, rfl⟩

theorem awaits_answerWith (now : Moment) (world : World) : l.awaits (r.answerWith now world) = l.awaits r := by
  obtain ⟨hid, -, hrequest⟩ := answerWith_id now world r
  rw [Listing.awaits, hid, hrequest, Listing.awaits]

theorem mem_answerWith {answer : Option (List String)} (h : answer ∈ (r.answerWith now world).answer) :
    answer ∈ r.answer ∨ world.files now r.source = answer := by
  rw [ListRequest.answerWith] at h
  split at h
  · exact .inr (Option.some.inj h)
  · exact .inl h

theorem ProjectFiles.Wf.answer (h : s.Wf world now) (i : Nat) : (s.answer now world i).Wf world (now + 1) := { h with
  listings l hl := by
    obtain ⟨hfresh, hsame, hnode, hstatus, hdata⟩ := h.listings l hl
    refine ⟨hfresh, fun r hr hid => ?_, hnode, ?_, fun files hfiles => (hdata files hfiles).later⟩
    · obtain hr | ⟨r₀, hr₀, rfl⟩ := mem_modify_cases hr
      · exact hsame r hr hid
      obtain ⟨hid', hsource, hrequest⟩ := answerWith_id now world r₀
      rw [hsource, hrequest]
      exact hsame r₀ hr₀ (hid'.symm.trans hid)
    · refine hstatus.imp_right fun ⟨hloading, r, hr, hawaits⟩ => ⟨hloading, ?_⟩
      obtain hr | hr := mem_modify_or hr i (·.answerWith now world)
      · exact ⟨r, hr, hawaits⟩
      · exact ⟨_, hr, by rwa [awaits_answerWith]⟩
  requests r hr := by
    obtain hr | ⟨r₀, hr₀, rfl⟩ := mem_modify_cases hr
    · exact ⟨(h.requests r hr).fresh, fun answer ha => ((h.requests r hr).answer answer ha).later⟩
    obtain ⟨hid, hsource, -⟩ := answerWith_id now world r₀
    refine ⟨hid ▸ (h.requests r₀ hr₀).fresh, fun answer ha => ?_⟩
    rw [hsource]
    obtain ha | hnow := mem_answerWith ha
    · exact ((h.requests r₀ hr₀).answer answer ha).later
    · exact Since.now (Nat.zero_le now) hnow
  notified := Nat.lt_succ_of_lt h.notified
  announced source := Nat.lt_succ_of_lt (h.announced source)
  asked w a ha :=
    ⟨Nat.lt_succ_of_lt (h.asked w a ha).moment, fun files hfiles => ((h.asked w a ha).data files hfiles).later,
      (h.asked w a ha).shows⟩ }

theorem ProjectFiles.Wf.fine_answer (h : s.Wf world now) (hfine : s.Fine world now) (i : Nat) :
    (s.answer now world i).Fine world (now + 1) := by
  intro l hl
  refine (hfine l hl).imp_right fun ⟨hrequests, hvalue⟩ =>
    ⟨fun r hr hawaits answer ha => ?_, hvalue.imp_right Since.later⟩
  obtain hr | ⟨r₀, hr₀, rfl⟩ := mem_modify_cases hr
  · exact (hrequests r hr hawaits answer ha).later
  rw [awaits_answerWith] at hawaits
  obtain ha | hnow := mem_answerWith ha
  · exact (hrequests r₀ hr₀ hawaits answer ha).later
  refine Since.now (Nat.le_of_lt (h.announced l.source)) ?_
  rw [← ((h.listings l hl).same r₀ hr₀ (awaits_iff.mp hawaits).1.symm).1]
  exact hnow

/-! ### Announcements -/

theorem Asked.Fits.notified (h : a.Fits world now s) (hs : s'.notified = now) : a.Fits world (now + 1) s' := by
  refine ⟨Nat.lt_succ_of_lt h.moment, fun files hfiles => (h.data files hfiles).later, fun hlt => ?_⟩
  rw [hs] at hlt
  exact absurd (h.moment.trans hlt) (lt_irrefl _)

theorem ProjectFiles.Wf.nodesChanged (h : s.Wf world now) (nodes : NodeId → Option Bool) :
    (s.nodesChanged now nodes).Wf world (now + 1) where
  small := by simpa [ProjectFiles.nodesChanged, ProjectFiles.notify] using h.small
  apart := apart_map (same_nodeChanged nodes) h.apart
  listings l hl := by
    obtain ⟨l₀, hl₀, rfl⟩ := mem_map.mp hl
    obtain ⟨hfresh, hsame, -, hstatus, hdata⟩ := h.listings l₀ hl₀
    exact ⟨hfresh, hsame, rfl, hstatus, fun files hfiles => (hdata files hfiles).later⟩
  requests r hr := ⟨(h.requests r hr).fresh, fun answer ha => ((h.requests r hr).answer answer ha).later⟩
  notified := Nat.lt_succ_self now
  announced source := by
    show (if nodes source.nodeId ≠ s.nodes source.nodeId then now else s.announced source) < now + 1
    split
    · exact Nat.lt_succ_self now
    · exact Nat.lt_succ_of_lt (h.announced source)
  asked w a ha := (h.asked w a ha).notified rfl

theorem Listing.Fine.later (h : l.Fine world now s) (hs : s'.requests = s.requests)
    (hannounced : s'.announced l.source = s.announced l.source) : l.Fine world (now + 1) s' := by
  rw [Listing.Fine, hs, hannounced]
  exact h.imp_right fun ⟨hrequests, hvalue⟩ =>
    ⟨fun r hr hawaits answer ha => (hrequests r hr hawaits answer ha).later, hvalue.imp_right Since.later⟩

theorem Listing.Current.fine (h : l.Current world now s) (hs : s'.requests = s.requests)
    (hannounced : s'.announced l.source = now) : l.Fine world (now + 1) s' := by
  rw [Listing.Fine, hs, hannounced]
  exact h.imp_right fun ⟨hrequests, hvalue⟩ =>
    ⟨fun r hr hawaits answer ha => .now (le_refl now) (hrequests r hr hawaits answer ha),
      hvalue.imp_right (Since.now (le_refl now))⟩

theorem Listing.Fine.nodeChanged (h : l.Fine world now s) (nodes : NodeId → Option Bool) :
    (l.nodeChanged nodes).Fine world now s :=
  h.imp_left fun hstale => by simp [Listing.nodeChanged, hstale]

theorem Listing.Fine.markStale (h : l.Fine world now s) (source : Source) : (l.markStale source).Fine world now s := by
  rw [Listing.markStale]
  split
  · exact .inl rfl
  · exact h

theorem ProjectFiles.Wf.fine_nodesChanged (h : s.Wf world now) (hfine : s.Fine world now) (nodes : NodeId → Option Bool)
    (hok : s.Ok world now (.nodesChanged nodes)) : (s.nodesChanged now nodes).Fine world (now + 1) := by
  intro l hl
  obtain ⟨l, hl₀, rfl⟩ := mem_map.mp hl
  have hnode := (h.listings l hl₀).nodeConnected
  by_cases hchanged : nodes l.source.nodeId = s.nodes l.source.nodeId
  · refine Listing.Fine.nodeChanged ?_ nodes
    exact (hfine l hl₀).later rfl (if_neg (not_not.mpr hchanged))
  cases hconnected : l.nodeConnected with
  | some b =>
    refine .inl ?_
    simp only [Listing.nodeChanged, hconnected, Option.isSome_some, Bool.true_and, Bool.or_eq_true, decide_eq_true_eq]
    exact .inr fun heq => hchanged (heq.trans (hconnected.symm.trans hnode))
  | none =>
    have hsome : nodes l.source.nodeId ≠ none := fun hnone => hchanged (hnone.trans (hconnected.symm.trans hnode))
    refine Listing.Fine.nodeChanged ?_ nodes
    exact (hok l hl₀ hconnected hsome).fine rfl (if_pos hchanged)

theorem markStale_fits (source : Source) (h : l.Fits world now s) (hs : s'.nextId = s.nextId)
    (hrequests : s'.requests = s.requests) (hnodes : s'.nodes = s.nodes) :
    (l.markStale source).Fits world (now + 1) s' := by
  obtain ⟨hfresh, hsame, hnode, hstatus, hdata⟩ := h
  rw [Listing.markStale]
  split
  all_goals
    refine ⟨?_, ?_, ?_, ?_, fun files hfiles => (hdata files hfiles).later⟩
    · rwa [hs]
    · rwa [hrequests]
    · rwa [hnodes]
    · rwa [hrequests]

theorem ProjectFiles.Wf.announceChanged (h : s.Wf world now) (source : Source) :
    (s.announceChanged now source).Wf world (now + 1) := by
  have hannounced : ∀ other, Function.update s.announced source now other < now + 1 := fun other => by
    by_cases heq : other = source
    · rw [heq, update_self]
      exact Nat.lt_succ_self now
    · rw [update_of_ne heq]
      exact Nat.lt_succ_of_lt (h.announced other)
  have hrequests : ∀ r ∈ s.requests, r.Fits world (now + 1) s := fun r hr =>
    ⟨(h.requests r hr).fresh, fun answer ha => ((h.requests r hr).answer answer ha).later⟩
  simp only [ProjectFiles.announceChanged]
  split
  · exact
      { small := by simpa [ProjectFiles.notify] using h.small
        apart := apart_map (same_markStale source) h.apart
        listings := fun l hl => by
          obtain ⟨l₀, hl₀, rfl⟩ := mem_map.mp hl
          exact markStale_fits source (h.listings l₀ hl₀) rfl rfl rfl
        requests := fun r hr => ⟨(hrequests r hr).fresh, (hrequests r hr).answer⟩
        notified := Nat.lt_succ_self now
        announced := hannounced
        asked := fun w a ha => (h.asked w a ha).notified rfl }
  · exact
      { small := h.small
        apart := h.apart
        listings := fun l hl =>
          ⟨(h.listings l hl).fresh, (h.listings l hl).same, (h.listings l hl).nodeConnected, (h.listings l hl).status,
            fun files hfiles => ((h.listings l hl).data files hfiles).later⟩
        requests := fun r hr => ⟨(hrequests r hr).fresh, (hrequests r hr).answer⟩
        notified := Nat.lt_succ_of_lt h.notified
        announced := hannounced
        asked := fun w a ha =>
          ⟨Nat.lt_succ_of_lt (h.asked w a ha).moment, fun files hfiles => ((h.asked w a ha).data files hfiles).later,
            (h.asked w a ha).shows⟩ }

theorem ProjectFiles.fine_announceChanged (hfine : s.Fine world now) (source : Source)
    (hok : s.Ok world now (.announceChanged source)) : (s.announceChanged now source).Fine world (now + 1) := by
  have hpassed : ∀ l ∈ s.listings, (l.source = source → l.unavailable) → ∀ s' : ProjectFiles,
      s'.requests = s.requests → s'.announced = Function.update s.announced source now → l.Fine world (now + 1) s' := by
    intro l hl hunavailable s' hrequests hannounced
    by_cases hsource : l.source = source
    · exact (hok l hl hsource (hunavailable hsource)).fine hrequests (by rw [hannounced, hsource, update_self])
    · exact (hfine l hl).later hrequests (by rw [hannounced, update_of_ne hsource])
  simp only [ProjectFiles.announceChanged]
  split
  next =>
    intro l hl
    obtain ⟨l, hl₀, rfl⟩ := mem_map.mp hl
    by_cases hsource : l.source = source
    · exact .inl (by simp [Listing.markStale, hsource])
    · refine Listing.Fine.markStale ?_ source
      exact hpassed l hl₀ (fun h => absurd h hsource) _ rfl rfl
  next hnone =>
    intro l hl
    refine hpassed l hl (fun hsource => ?_) _ rfl rfl
    by_contra hunavailable
    exact hnone (any_eq_true.mpr ⟨l, hl, by simp [hsource, hunavailable]⟩)

/-! ### Landing -/

theorem ProjectFiles.Wf.skip (h : s.Wf world now) : s.Wf world (now + 1) := { h with
  listings l hl :=
    ⟨(h.listings l hl).fresh, (h.listings l hl).same, (h.listings l hl).nodeConnected, (h.listings l hl).status,
      fun files hfiles => ((h.listings l hl).data files hfiles).later⟩
  requests r hr := ⟨(h.requests r hr).fresh, fun answer ha => ((h.requests r hr).answer answer ha).later⟩
  notified := Nat.lt_succ_of_lt h.notified
  announced source := Nat.lt_succ_of_lt (h.announced source)
  asked w a ha :=
    ⟨Nat.lt_succ_of_lt (h.asked w a ha).moment, fun files hfiles => ((h.asked w a ha).data files hfiles).later,
      (h.asked w a ha).shows⟩ }

theorem ProjectFiles.Fine.skip (h : s.Fine world now) : s.Fine world (now + 1) := fun l hl => (h l hl).later rfl rfl

theorem answered_data {answer : Option (List String)} {files : List String}
    (h : files ∈ (l.answered answer).state.data) : answer = some files ∨ files ∈ l.state.data := by
  cases answer with
  | none => exact .inr h
  | some _ => exact .inl h

/-- A listing whose latest request is not the one taken still waits for it. -/
theorem ProjectFiles.Wf.status_erase (h : s.Wf world now) (hr : s.requests[i]? = some r) (hl : l ∈ s.listings)
    (hawaits : l.awaits r = false) :
    l.Settled ∨ l.state.status = .loading ∧ ∃ r' ∈ s.requests.eraseIdx i, l.awaits r' := by
  refine (h.listings l hl).status.imp_right fun ⟨hloading, r', hr', hawaits'⟩ => ⟨hloading, r', ?_, hawaits'⟩
  refine (eq_or_mem_eraseIdx hr hr').resolve_left fun heq => ?_
  rw [heq, hawaits] at hawaits'
  exact false_ne_true hawaits'

theorem ProjectFiles.Wf.land_fits {answer : Option (List String)} (h : s.Wf world now)
    (hr : s.requests[i]? = some r) (hanswer : r.answer = some answer) (hl : l ∈ s.listings) {s' : ProjectFiles}
    (hnext : s'.nextId = s.nextId) (hnodes : s'.nodes = s.nodes) (hrequests : s'.requests = s.requests.eraseIdx i) :
    (l.land r answer).Fits world (now + 1) s' := by
  obtain ⟨hfresh, hsame, hnode, -, hdata⟩ := h.listings l hl
  have hmem : r ∈ s.requests := mem_of_getElem? hr
  have hl' := same_land (r := r) answer l
  refine ⟨?_, fun r' hr' hid => ?_, ?_, ?_, fun files hfiles => ?_⟩
  · rwa [hl'.id, hnext]
  · rw [hrequests] at hr'
    rw [hl'.source, hl'.request]
    exact hsame r' (mem_of_mem_eraseIdx hr') (hid.trans hl'.id)
  · rw [hl'.source, hnodes, ← hnode, Listing.land]
    split
    · cases answer <;> rfl
    · rfl
  · rw [hrequests]
    by_cases hawaits : l.awaits r
    · rw [Listing.land, if_pos hawaits]
      exact .inl (l.answered_settled answer)
    · rw [Listing.land, if_neg hawaits]
      exact h.status_erase hr hl (eq_false_iff.mpr hawaits)
  · rw [hl'.source]
    by_cases hawaits : l.awaits r
    · rw [Listing.land, if_pos hawaits] at hfiles
      obtain rfl | hfiles := answered_data hfiles
      · rw [← (hsame r hmem (awaits_iff.mp hawaits).1.symm).1]
        exact ((h.requests r hmem).answer _ hanswer).later
      · exact (hdata files hfiles).later
    · rw [Listing.land, if_neg hawaits] at hfiles
      exact (hdata files hfiles).later

theorem ProjectFiles.Wf.land (h : s.Wf world now) (i : Nat) : (s.land now i).Wf world (now + 1) := by
  simp only [ProjectFiles.land]
  cases hr : s.requests[i]? with
  | none => exact h.skip
  | some r =>
    cases hanswer : r.answer with
    | none => simpa [hanswer] using h.skip
    | some answer =>
      have hrequests : ∀ r' ∈ s.requests.eraseIdx i, r'.Fits world (now + 1) s :=
        fun r' hr' => h.skip.requests r' (mem_of_mem_eraseIdx hr')
      simp only [hanswer]
      split
      next =>
        exact
          { small := by simpa [ProjectFiles.notify] using h.small
            apart := apart_map (same_land answer) h.apart
            listings := fun l hl => by
              obtain ⟨l, hl₀, rfl⟩ := mem_map.mp hl
              exact h.land_fits hr hanswer hl₀ rfl rfl rfl
            requests := fun r' hr' => ⟨(hrequests r' hr').fresh, (hrequests r' hr').answer⟩
            notified := Nat.lt_succ_self now
            announced := h.skip.announced
            asked := fun w a ha => (h.asked w a ha).notified rfl }
      next hnone =>
        have hawaits : ∀ l ∈ s.listings, l.awaits r = false := fun l hl =>
          eq_false_iff.mpr fun hawaits => hnone (any_eq_true.mpr ⟨l, hl, hawaits⟩)
        exact
          { small := h.small
            apart := h.apart
            listings := fun l hl =>
              ⟨(h.listings l hl).fresh, fun r' hr' => (h.listings l hl).same r' (mem_of_mem_eraseIdx hr'),
                (h.listings l hl).nodeConnected, h.status_erase hr hl (hawaits l hl), (h.skip.listings l hl).data⟩
            requests := fun r' hr' => ⟨(hrequests r' hr').fresh, (hrequests r' hr').answer⟩
            notified := h.skip.notified
            announced := h.skip.announced
            asked := fun w a ha => ⟨(h.skip.asked w a ha).moment, (h.skip.asked w a ha).data, (h.asked w a ha).shows⟩ }

theorem ProjectFiles.Fine.land (hfine : s.Fine world now) (i : Nat) : (s.land now i).Fine world (now + 1) := by
  simp only [ProjectFiles.land]
  cases hr : s.requests[i]? with
  | none => exact hfine.skip
  | some r =>
    cases hanswer : r.answer with
    | none => simpa [hanswer] using hfine.skip
    | some answer =>
      have hmem : r ∈ s.requests := mem_of_getElem? hr
      simp only [hanswer]
      split
      next =>
        intro l hl
        obtain ⟨l, hl₀, rfl⟩ := mem_map.mp hl
        have hl' := same_land (r := r) answer l
        obtain hstale | ⟨hrequests, hvalue⟩ := hfine l hl₀
        · refine .inl ?_
          rw [Listing.land]
          split
          · cases answer <;> exact hstale
          · exact hstale
        · refine .inr ⟨fun r' hr' hawaits answer' ha => ?_, ?_⟩
          · rw [hl'.awaits] at hawaits
            rw [hl'.source]
            exact (hrequests r' (mem_of_mem_eraseIdx hr') hawaits answer' ha).later
          rw [hl'.source]
          by_cases hawaits : l.awaits r
          · rw [Listing.land, if_pos hawaits, Listing.answered_value]
            exact .inr (hrequests r hmem hawaits answer hanswer).later
          · rw [Listing.land, if_neg hawaits]
            exact hvalue.imp_right Since.later
      next =>
        intro l hl
        refine (hfine l hl).imp_right fun ⟨hrequests, hvalue⟩ => ⟨fun r' hr' hawaits answer' ha => ?_,
          hvalue.imp_right Since.later⟩
        exact (hrequests r' (mem_of_mem_eraseIdx hr') hawaits answer' ha).later

/-! ### Asking -/

theorem length_kept (listings : List Listing) : (kept listings).length ≤ keptListings := by
  rw [kept, length_drop]
  omega

theorem kept_of_small {listings : List Listing} (h : listings.length ≤ keptListings) : kept listings = listings := by
  rw [kept, Nat.sub_eq_zero_of_le h, drop_zero]

theorem last_mem_kept (listings : List Listing) (l : Listing) : l ∈ kept (listings ++ [l]) := by
  rw [kept, length_append, length_singleton, keptListings, drop_append_of_le_length (by omega)]
  exact mem_append_right _ mem_cons_self

theorem listingOf_cases (s : ProjectFiles) (source : Source) :
    (∃ l ∈ s.listings, l.source = source ∧ s.listingOf source = l) ∨
      (∀ l ∈ s.listings, l.source ≠ source) ∧ s.listingOf source = s.newListing source := by
  rw [ProjectFiles.listingOf]
  cases hfind : s.listings.find? fun l => l.source = source with
  | some l => exact .inl ⟨l, mem_of_find?_eq_some hfind, by simpa using find?_some hfind, rfl⟩
  | none => exact .inr ⟨fun l hl => by simpa using find?_eq_none.mp hfind l hl, rfl⟩

structure ProjectFiles.Given (world : World) (now : Moment) (s : ProjectFiles) (source : Source) (l : Listing) :
    Prop where
  eq : l.source = source
  fresh : l.id < s.nextId + 1
  same : ∀ r ∈ s.requests, r.id = l.id → r.source = source ∧ r.request ≤ l.request
  nodeConnected : l.nodeConnected = s.nodes source.nodeId
  data : ∀ files ∈ l.state.data, Since 0 now (world.files · source) (some files)
  other : ∀ l' ∈ s.listings, l'.source ≠ source → l'.id ≠ l.id
  mem : l.loads = false → l ∈ s.listings

theorem ProjectFiles.Wf.given (h : s.Wf world now) (source : Source) :
    s.Given world now source (s.listingOf source) := by
  obtain ⟨l, hl, rfl, heq⟩ | ⟨-, heq⟩ := listingOf_cases s source
  · rw [heq]
    obtain ⟨hfresh, hsame, hnode, -, hdata⟩ := h.listings l hl
    refine ⟨rfl, Nat.lt_succ_of_lt hfresh, hsame, hnode, hdata, fun l' hl' hne hid => hne ?_, fun _ => hl⟩
    rw [h.apart l' hl' l hl (.inl hid)]
  · rw [heq]
    refine ⟨rfl, Nat.lt_succ_self _, fun r hr hid => ?_, rfl, nofun,
      fun l' hl' _ hid => ?_, fun hloads => absurd hloads.symm false_ne_true⟩
    · exact absurd hid (Nat.ne_of_lt (h.requests r hr).fresh)
    · exact absurd hid (Nat.ne_of_lt (h.listings l' hl').fresh)

theorem loads_eq_false (h : l.loads = false) : l.stale = false := by
  simp only [Listing.loads, or_eq_false_iff] at h
  exact h.2

theorem ProjectFiles.Wf.kept_given (h : s.Wf world now) (hl : l ∈ s.listings) (hsource : l.source = source) :
    kept ((s.listings.filter fun l => l.source ≠ source) ++ [l]) =
        (s.listings.filter fun l => l.source ≠ source) ++ [l] ∧
      ∀ l' ∈ s.listings, l' ∈ (s.listings.filter fun l => l.source ≠ source) ++ [l] := by
  refine ⟨kept_of_small ?_, fun l' hl' => ?_⟩
  · have hlt : (s.listings.filter fun l => l.source ≠ source).length < s.listings.length :=
      length_filter_lt_length_iff_exists.mpr ⟨l, hl, by simp [hsource]⟩
    have hsmall := h.small
    rw [length_append, length_singleton]
    omega
  · by_cases hne : l'.source = source
    · rw [h.apart l' hl' l hl (.inr (hne.trans hsource.symm))]
      exact mem_append_right _ mem_cons_self
    · exact mem_append_left _ (mem_filter.mpr ⟨hl', by simpa using hne⟩)

theorem mem_listed {listings : List Listing} {l' : Listing}
    (h : l' ∈ kept ((listings.filter fun l => l.source ≠ source) ++ [l])) :
    l' ∈ listings ∧ l'.source ≠ source ∨ l' = l := by
  obtain hl' | hl' := mem_append.mp (mem_of_mem_drop h)
  · obtain ⟨hl', hne⟩ := mem_filter.mp hl'
    exact .inl ⟨hl', by simpa using hne⟩
  · exact .inr (mem_singleton.mp hl')

theorem apart_listed (h : s.Wf world now) (hsource : l.source = source)
    (hother : ∀ l' ∈ s.listings, l'.source ≠ source → l'.id ≠ l.id) :
    ∀ l₁ ∈ kept ((s.listings.filter fun l => l.source ≠ source) ++ [l]),
      ∀ l₂ ∈ kept ((s.listings.filter fun l => l.source ≠ source) ++ [l]),
        l₁.id = l₂.id ∨ l₁.source = l₂.source → l₁ = l₂ := by
  intro l₁ hl₁ l₂ hl₂ heq
  obtain ⟨hold₁, hne₁⟩ | rfl := mem_listed hl₁
  · obtain ⟨hold₂, -⟩ | rfl := mem_listed hl₂
    · exact h.apart l₁ hold₁ l₂ hold₂ heq
    · exact (heq.elim (hother l₁ hold₁ hne₁) fun heq => hne₁ (heq.trans hsource)).elim
  obtain ⟨hold₂, hne₂⟩ | rfl := mem_listed hl₂
  · exact (heq.elim (fun heq => hother l₂ hold₂ hne₂ heq.symm) fun heq => hne₂ (heq.symm.trans hsource)).elim
  · rfl

theorem asked_update {asked : Shower → Option Asked} {w w' : Shower} {a' : Asked}
    (h : a' ∈ Function.update asked w (some a) w') : a' = a ∨ a' ∈ asked w' := by
  by_cases hw : w' = w
  · rw [hw, update_self] at h
    exact .inl (Option.some.inj h).symm
  · rw [update_of_ne hw] at h
    exact .inr h

theorem view_data {files : List String} (h : files ∈ l.view.data) : files ∈ l.state.data := by
  rw [Listing.view] at h
  split at h
  · exact (nomatch h)
  · exact h

theorem ProjectFiles.Wf.listing_loads (h : s.Wf world now) (w : Shower) (source : Source)
    (hloads : (s.listingOf source).loads = true) : (s.listing now w source).Wf world (now + 1) := by
  have hgiven := h.given source
  simp only [ProjectFiles.listing, hloads, if_true]
  exact
    { small := length_kept _
      apart := apart_listed h hgiven.eq hgiven.other
      listings := fun l hl => by
        obtain ⟨hl, hne⟩ | rfl := mem_listed hl
        · obtain ⟨hfresh, hsame, hnode, hstatus, hdata⟩ := h.listings l hl
          refine ⟨Nat.lt_succ_of_lt hfresh, fun r hr hid => ?_, hnode, ?_,
            fun files hfiles => (hdata files hfiles).later⟩
          · obtain hr | hr := mem_append.mp hr
            · exact hsame r hr hid
            · rw [mem_singleton.mp hr] at hid
              exact absurd hid.symm (hgiven.other l hl hne)
          · exact hstatus.imp_right fun ⟨hloading, r, hr, hawaits⟩ => ⟨hloading, r, mem_append_left _ hr, hawaits⟩
        · refine ⟨hgiven.fresh, fun r hr hid => ?_, ?_, .inr ⟨rfl, _, mem_append_right _ mem_cons_self, ?_⟩,
            fun files hfiles => ?_⟩
          · obtain hr | rfl := mem_concat_cases hr
            · obtain ⟨hsource, hle⟩ := hgiven.same r hr hid
              exact ⟨hsource.trans hgiven.eq.symm, Nat.le_succ_of_le hle⟩
            · exact ⟨hgiven.eq.symm, le_refl _⟩
          · exact hgiven.nodeConnected.trans (congrArg (fun source : Source => s.nodes source.nodeId) hgiven.eq.symm)
          · exact awaits_iff.mpr ⟨rfl, rfl⟩
          · exact hgiven.eq.symm ▸ (hgiven.data files hfiles).later
      requests := fun r hr => by
        obtain hr | rfl := mem_concat_cases hr
        · exact ⟨Nat.lt_succ_of_lt (h.requests r hr).fresh, (h.skip.requests r hr).answer⟩
        · exact ⟨hgiven.fresh, nofun⟩
      notified := h.skip.notified
      announced := h.skip.announced
      asked := fun w' a ha => by
        obtain rfl | ha := asked_update ha
        · exact ⟨Nat.lt_succ_self now,
            fun files hfiles => (hgiven.data files (view_data (l := (s.listingOf source).load) hfiles)).later,
            fun _ => .inl ⟨(s.listingOf source).load, last_mem_kept _ _, rfl⟩⟩
        · exact ⟨(h.skip.asked w' a ha).moment, (h.skip.asked w' a ha).data,
            fun _ => .inl ⟨(s.listingOf source).load, last_mem_kept _ _, rfl⟩⟩ }

theorem ProjectFiles.Wf.listing_given (h : s.Wf world now) (w : Shower) (source : Source)
    (hloads : (s.listingOf source).loads = false) : (s.listing now w source).Wf world (now + 1) := by
  have hgiven := h.given source
  have hmem := hgiven.mem hloads
  obtain ⟨hkept, hall⟩ := h.kept_given hmem hgiven.eq
  simp only [ProjectFiles.listing, hloads, false_eq_true, if_false]
  exact
    { small := length_kept _
      apart := apart_listed h hgiven.eq hgiven.other
      listings := fun l hl => by
        have hl : l ∈ s.listings := (mem_listed hl).elim (·.1) fun heq => heq ▸ hmem
        obtain ⟨hfresh, hsame, hnode, hstatus, hdata⟩ := h.skip.listings l hl
        exact ⟨Nat.lt_succ_of_lt hfresh, hsame, hnode, hstatus, hdata⟩
      requests := fun r hr => ⟨Nat.lt_succ_of_lt (h.requests r hr).fresh, (h.skip.requests r hr).answer⟩
      notified := h.skip.notified
      announced := h.skip.announced
      asked := fun w' a ha => by
        obtain rfl | ha := asked_update ha
        · exact ⟨Nat.lt_succ_self now, fun files hfiles => (hgiven.data files (view_data hfiles)).later,
            fun _ => .inr ⟨_, last_mem_kept _ _, hgiven.eq, loads_eq_false hloads, rfl⟩⟩
        refine ⟨(h.skip.asked w' a ha).moment, (h.skip.asked w' a ha).data, fun hlt => ?_⟩
        obtain ⟨l, hl, hloading⟩ | ⟨l, hl, hshows⟩ := (h.asked w' a ha).shows hlt
        · exact .inl ⟨l, hkept.symm ▸ hall l hl, hloading⟩
        · exact .inr ⟨l, hkept.symm ▸ hall l hl, hshows⟩ }

theorem ProjectFiles.Wf.fine_listing (h : s.Wf world now) (hfine : s.Fine world now) (w : Shower) (source : Source) :
    (s.listing now w source).Fine world (now + 1) := by
  have hgiven := h.given source
  by_cases hloads : (s.listingOf source).loads
  · simp only [ProjectFiles.listing, hloads, if_true]
    intro l hl
    obtain ⟨hl, hne⟩ | rfl := mem_listed hl
    · refine (hfine l hl).imp_right fun ⟨hrequests, hvalue⟩ => ⟨fun r hr hawaits answer ha => ?_,
        hvalue.imp_right Since.later⟩
      obtain hr | hr := mem_append.mp hr
      · exact (hrequests r hr hawaits answer ha).later
      · rw [mem_singleton.mp hr] at hawaits
        exact absurd (awaits_iff.mp hawaits).1 (hgiven.other l hl hne)
    · refine .inr ⟨fun r hr hawaits answer ha => ?_, .inl rfl⟩
      obtain ⟨hid, hrequest⟩ := awaits_iff.mp hawaits
      obtain hr | hr := mem_append.mp hr
      · -- An earlier request of the listing has an earlier number.
        have hle := (hgiven.same r hr hid.symm).2
        have hnumber : (s.listingOf source).request + 1 = r.request := hrequest
        exact absurd (hnumber ▸ hle) (Nat.not_succ_le_self _)
      · rw [mem_singleton.mp hr] at ha
        exact (nomatch ha)
  · rw [not_eq_true] at hloads
    simp only [ProjectFiles.listing, hloads, false_eq_true, if_false]
    intro l hl
    have hl : l ∈ s.listings := (mem_listed hl).elim (·.1) fun heq => heq ▸ hgiven.mem hloads
    exact (hfine l hl).later rfl rfl

theorem asked_leave {asked : Shower → Option Asked} {w w' : Shower}
    (h : a ∈ Function.update asked w none w') : a ∈ asked w' := by
  by_cases hw : w' = w
  · rw [hw, update_self] at h
    exact (nomatch h)
  · rwa [update_of_ne hw] at h

theorem ProjectFiles.Wf.leave (h : s.Wf world now) (w : Shower) : (s.leave w).Wf world (now + 1) := { h with
  listings l hl :=
    ⟨(h.listings l hl).fresh, (h.listings l hl).same, (h.listings l hl).nodeConnected, (h.listings l hl).status,
      (h.skip.listings l hl).data⟩
  requests r hr := ⟨(h.requests r hr).fresh, (h.skip.requests r hr).answer⟩
  notified := h.skip.notified
  announced := h.skip.announced
  asked w' a ha := by
    have ha := asked_leave ha
    exact ⟨(h.skip.asked w' a ha).moment, (h.skip.asked w' a ha).data, (h.asked w' a ha).shows⟩ }

theorem ProjectFiles.Wf.step (h : s.Wf world now) (e : Event) : (s.step world now e).Wf world (now + 1) := by
  cases e with
  | ask w source =>
    cases source with
    | none => exact h.leave w
    | some source =>
      cases hloads : (s.listingOf source).loads with
      | true => exact h.listing_loads w source hloads
      | false => exact h.listing_given w source hloads
  | answerList i => exact h.answer i
  | landList i => exact h.land i
  | announceChanged source => exact h.announceChanged source
  | nodesChanged nodes => exact h.nodesChanged nodes
  | _ => exact h.skip

theorem ProjectFiles.Fine.step (h : s.Wf world now) (hfine : s.Fine world now) (e : Event) (hok : s.Ok world now e) :
    (s.step world now e).Fine world (now + 1) := by
  cases e with
  | ask w source =>
    cases source with
    | none => exact hfine.skip
    | some source => exact h.fine_listing hfine w source
  | answerList i => exact h.fine_answer hfine i
  | landList i => exact hfine.land i
  | announceChanged source => exact ProjectFiles.fine_announceChanged hfine source hok
  | nodesChanged nodes => exact h.fine_nodesChanged hfine nodes hok
  | _ => exact hfine.skip

end

/-! ## The tree is kept right -/

section

variable (world : World) (now : Moment) (b : FileBrowser)

structure DirRequest.Fits (r : DirRequest) : Prop where
  generation : r.generation ≤ b.generation
  source : r.generation = b.generation → b.source = some r.source
  answer : ∀ answer ∈ r.answer, Since 0 now (world.entries · r.source r.path) answer

structure FileBrowser.Wf : Prop where
  requests : ∀ r ∈ b.requests, r.Fits world now b
  entries : ∀ entry ∈ b.directoryEntries, ∃ source ∈ b.source,
    Since 0 now (world.entries · source entry.1) (some entry.2)
  changed : ∀ source, b.changed source < now

/-- Another answer for the path is to come, or has come and is no older than the last change. -/
def FileBrowser.Due (path : String) : Prop :=
  ∃ r ∈ b.requests, r.generation = b.generation ∧ r.path = path ∧ ∀ answer ∈ r.answer, ∀ entries ∈ answer,
      Since (b.changed r.source) now (world.entries · r.source path) (some entries)

def FileBrowser.EntryFine (path : String) (entries : List DirectoryEntry) : Prop :=
  (∀ source ∈ b.source, Since (b.changed source) now (world.entries · source path) (some entries)) ∨
    b.Due world now path

def FileBrowser.Fine : Prop := ∀ entry ∈ b.directoryEntries, b.EntryFine world now entry.1 entry.2

/-- What an answer leaves the tree with for its path is no older than the last change, or another answer is to come. -/
def FileBrowser.Ok : Event → Prop
  | .landDir i => ∀ r ∈ b.requests[i]?, r.generation = b.generation → ∀ answer ∈ r.answer,
      let b' := { b with requests := b.requests.eraseIdx i }
      match answer with
      | some entries => b'.EntryFine world now r.path entries
      | none => ∀ entry ∈ b.directoryEntries, entry.1 = r.path → b'.EntryFine world now entry.1 entry.2
  | _ => True

end

section

variable {world : World} {now : Moment} {b b' b'' : FileBrowser}

structure Asks (b b' : FileBrowser) : Prop where
  source : b'.source = b.source
  generation : b'.generation = b.generation
  entries : b'.directoryEntries = b.directoryEntries
  changed : b'.changed = b.changed
  requests : b.requests ⊆ b'.requests
  unanswered : ∀ r ∈ b'.requests, r ∈ b.requests ∨
    r.generation = b.generation ∧ b.source = some r.source ∧ r.answer = none

theorem Asks.refl (b : FileBrowser) : Asks b b := ⟨rfl, rfl, rfl, rfl, fun _ h => h, fun _ h => .inl h⟩

theorem Asks.trans (h : Asks b b') (h' : Asks b' b'') : Asks b b'' where
  source := h'.source.trans h.source
  generation := h'.generation.trans h.generation
  entries := h'.entries.trans h.entries
  changed := h'.changed.trans h.changed
  requests _ hr := h'.requests (h.requests hr)
  unanswered r hr := by
    obtain hr | hr := h'.unanswered r hr
    · exact h.unanswered r hr
    · rw [h.generation, h.source] at hr
      exact .inr hr

theorem asks_listDirectory (b : FileBrowser) (path : String) : Asks b (b.listDirectory path) := by
  simp only [FileBrowser.listDirectory]
  cases hsource : b.source with
  | none => exact .refl b
  | some source =>
    refine ⟨hsource.symm ▸ rfl, rfl, rfl, rfl, fun r hr => mem_append_left _ hr, fun r hr => ?_⟩
    refine (mem_append.mp hr).imp_right fun hr => ?_
    rw [mem_singleton.mp hr]
    exact ⟨rfl, hsource, rfl⟩

theorem asks_fetchDirectory (b : FileBrowser) (path : String) : Asks b (b.fetchDirectory path) := by
  rw [FileBrowser.fetchDirectory]
  split
  · exact .refl b
  · exact asks_listDirectory b path

theorem asks_foldl {f : FileBrowser → String → FileBrowser} (hf : ∀ b path, Asks b (f b path)) (paths : List String)
    (b : FileBrowser) : Asks b (paths.foldl f b) := by
  induction paths generalizing b with
  | nil => exact .refl b
  | cons path paths ih => exact (hf b path).trans (ih (f b path))

theorem asks_expand (b : FileBrowser) (paths : List String) : Asks b (b.expand paths) :=
  ⟨rfl, rfl, rfl, rfl, fun _ h => h, fun _ h => .inl h⟩

theorem asks_expandToPath (b : FileBrowser) (filePath : String) : Asks b (b.expandToPath filePath) :=
  (asks_expand b _).trans (asks_foldl asks_fetchDirectory _ _)

theorem asks_toggleDirectory (b : FileBrowser) (path : String) : Asks b (b.toggleDirectory path) := by
  rw [FileBrowser.toggleDirectory]
  split
  · exact ⟨rfl, rfl, rfl, rfl, fun _ h => h, fun _ h => .inl h⟩
  · exact (asks_expand b [path]).trans (asks_fetchDirectory _ path)

theorem FileBrowser.Wf.asks (h : b.Wf world now) (ha : Asks b b') : b'.Wf world now where
  requests r hr := by
    obtain hr | ⟨hgeneration, hsource, hanswer⟩ := ha.unanswered r hr
    · obtain ⟨hle, hsource, hanswer⟩ := h.requests r hr
      exact ⟨ha.generation.symm ▸ hle, fun heq => ha.source.trans (hsource (heq.trans ha.generation)), hanswer⟩
    refine ⟨Nat.le_of_eq (hgeneration.trans ha.generation.symm), fun _ => ha.source.trans hsource, fun answer h => ?_⟩
    rw [hanswer] at h
    exact (nomatch h)
  entries entry hentry := by
    rw [ha.entries] at hentry
    rw [ha.source]
    exact h.entries entry hentry
  changed source := by
    rw [ha.changed]
    exact h.changed source

theorem FileBrowser.Due.asks (h : b.Due world now path) (ha : Asks b b') : b'.Due world now path := by
  obtain ⟨r, hr, hgeneration, hpath, hanswer⟩ := h
  refine ⟨r, ha.requests hr, hgeneration.trans ha.generation.symm, hpath, ?_⟩
  rwa [ha.changed]

theorem FileBrowser.EntryFine.asks
    (h : b.EntryFine world now path entries) (ha : Asks b b') : b'.EntryFine world now path entries := by
  refine h.imp (fun h source hsource => ?_) fun h => h.asks ha
  rw [ha.source] at hsource
  rw [ha.changed]
  exact h source hsource

theorem FileBrowser.Fine.asks (h : b.Fine world now) (ha : Asks b b') : b'.Fine world now := fun entry hentry =>
  (h entry (ha.entries ▸ hentry)).asks ha

theorem FileBrowser.Wf.skip (h : b.Wf world now) : b.Wf world (now + 1) where
  requests r hr :=
    ⟨(h.requests r hr).generation, (h.requests r hr).source,
      fun answer ha => ((h.requests r hr).answer answer ha).later⟩
  entries entry hentry := by
    obtain ⟨source, hsource, hsince⟩ := h.entries entry hentry
    exact ⟨source, hsource, hsince.later⟩
  changed source := Nat.lt_succ_of_lt (h.changed source)

theorem FileBrowser.EntryFine.skip
    (h : b.EntryFine world now path entries) : b.EntryFine world (now + 1) path entries := by
  refine h.imp (fun h source hsource => (h source hsource).later) fun ⟨r, hr, hgeneration, hpath, hanswer⟩ => ?_
  exact ⟨r, hr, hgeneration, hpath, fun answer ha entries he => (hanswer answer ha entries he).later⟩

theorem FileBrowser.Fine.skip (h : b.Fine world now) : b.Fine world (now + 1) :=
  fun entry hentry => (h entry hentry).skip

theorem FileBrowser.Wf.useSource (h : b.Wf world now) (source : Source) : (b.useSource source).Wf world now := by
  rw [FileBrowser.useSource]
  split
  · exact h
  refine ⟨fun r hr => ?_, nofun, h.changed⟩
  obtain ⟨hle, -, hanswer⟩ := h.requests r hr
  exact ⟨Nat.le_succ_of_le hle, fun heq => absurd (heq ▸ hle) (Nat.not_succ_le_self _), hanswer⟩

theorem FileBrowser.Fine.useSource (h : b.Fine world now) (source : Source) : (b.useSource source).Fine world now := by
  rw [FileBrowser.useSource]
  split
  · exact h
  · exact nofun

theorem open_asks (b : FileBrowser) (source : Source) (path : Option String) :
    Asks (b.useSource source) (b.open source path) := by
  have hroot := asks_fetchDirectory (b.useSource source) "."
  cases path with
  | none => exact hroot
  | some path => exact hroot.trans (asks_expandToPath _ path)

/-! ### Answers and announcements -/

theorem dirAnswerWith_same (now : Moment) (world : World) (r : DirRequest) :
    (r.answerWith now world).generation = r.generation ∧ (r.answerWith now world).source = r.source ∧
      (r.answerWith now world).path = r.path := by
  rw [DirRequest.answerWith]
  split <;> exact ⟨rfl, rfl, rfl⟩

theorem mem_dirAnswerWith {answer : Option (List DirectoryEntry)} (h : answer ∈ (r.answerWith now world).answer) :
    answer ∈ r.answer ∨ world.entries now r.source r.path = answer := by
  rw [DirRequest.answerWith] at h
  split at h
  · exact .inr (Option.some.inj h)
  · exact .inl h

theorem DirRequest.Fits.congr (h : r.Fits world now b) (hgeneration : b'.generation = b.generation)
    (hsource : b'.source = b.source) : r.Fits world now b' := by
  obtain ⟨hle, hof, hanswer⟩ := h
  refine ⟨?_, ?_, hanswer⟩
  · rwa [hgeneration]
  · rwa [hgeneration, hsource]

theorem FileBrowser.Wf.answer (h : b.Wf world now) (i : Nat) : (b.answer now world i).Wf world (now + 1) where
  requests r hr := by
    obtain hmem | ⟨r, hmem, rfl⟩ := mem_modify_cases hr
    · exact (h.skip.requests r hmem).congr rfl rfl
    obtain ⟨hgeneration, hsource, hpath⟩ := dirAnswerWith_same now world r
    obtain ⟨hle, hof, hanswer⟩ := h.skip.requests r hmem
    refine ⟨hgeneration ▸ hle, fun heq => hsource ▸ hof (hgeneration ▸ heq), fun answer ha => ?_⟩
    rw [hsource, hpath]
    obtain ha | hnow := mem_dirAnswerWith ha
    · exact hanswer answer ha
    · exact Since.now (Nat.zero_le now) hnow
  entries := h.skip.entries
  changed := h.skip.changed

theorem FileBrowser.Fine.answer (h : b.Wf world now) (hfine : b.Fine world now) (i : Nat) :
    (b.answer now world i).Fine world (now + 1) := by
  intro entry hentry
  refine (hfine.skip entry hentry).imp_right fun ⟨r, hr, hgeneration, hpath, hanswer⟩ => ?_
  obtain hr | hr := mem_modify_or hr i (·.answerWith now world)
  · exact ⟨r, hr, hgeneration, hpath, hanswer⟩
  obtain ⟨hgeneration', hsource, hpath'⟩ := dirAnswerWith_same now world r
  refine ⟨_, hr, hgeneration'.trans hgeneration, hpath'.trans hpath, fun answer ha entries he => ?_⟩
  rw [hsource]
  obtain ha | hnow := mem_dirAnswerWith ha
  · exact hanswer answer ha entries he
  refine Since.now (Nat.le_of_lt (h.changed r.source)) ?_
  rw [← hpath, hnow]
  exact he

theorem mem_setEntries {entries : List (String × List DirectoryEntry)} {listed : List DirectoryEntry}
    {entry : String × List DirectoryEntry} (h : entry ∈ setEntries entries path listed) :
    entry = (path, listed) ∨ entry ∈ entries ∧ entry.1 ≠ path := by
  rw [setEntries] at h
  split at h
  next =>
    obtain ⟨entry, hentry, rfl⟩ := mem_map.mp h
    split
    · exact .inl rfl
    next hne => exact .inr ⟨hentry, hne⟩
  next hnone =>
    obtain h | h := mem_append.mp h
    · refine .inr ⟨h, fun heq => hnone (any_eq_true.mpr ⟨entry, h, by simpa using heq⟩)⟩
    · exact .inl (mem_singleton.mp h)

theorem FileBrowser.Wf.land (h : b.Wf world now) (i : Nat) : (b.land i).Wf world now := by
  simp only [FileBrowser.land]
  cases hr : b.requests[i]? with
  | none => exact h
  | some r =>
    cases hanswer : r.answer with
    | none => simpa [hanswer] using h
    | some answer =>
      have hmem := h.requests r (mem_of_getElem? hr)
      have hrequests : ∀ r' ∈ b.requests.eraseIdx i, r'.Fits world now b :=
        fun r' hr' => h.requests r' (mem_of_mem_eraseIdx hr')
      simp only [hanswer, FileBrowser.landed]
      split
      next hgeneration =>
        cases answer with
        | none => exact ⟨fun r' hr' => (hrequests r' hr').congr rfl rfl, h.entries, h.changed⟩
        | some entries =>
          refine ⟨fun r' hr' => (hrequests r' hr').congr rfl rfl, fun entry hentry => ?_, h.changed⟩
          obtain rfl | ⟨hentry, -⟩ := mem_setEntries hentry
          · exact ⟨r.source, hmem.source hgeneration, hmem.answer _ hanswer⟩
          · exact h.entries entry hentry
      next => exact ⟨fun r' hr' => (hrequests r' hr').congr rfl rfl, h.entries, h.changed⟩

theorem FileBrowser.EntryFine.erase (h : b.EntryFine world now path entries) (hr : b.requests[i]? = some r)
    (hother : r.generation = b.generation → r.path ≠ path) :
    { b with requests := b.requests.eraseIdx i }.EntryFine world now path entries := by
  refine h.imp_right fun ⟨r', hr', hgeneration, hpath, hanswer⟩ => ⟨r', ?_, hgeneration, hpath, hanswer⟩
  refine (eq_or_mem_eraseIdx hr hr').resolve_left fun heq => ?_
  rw [heq] at hgeneration hpath
  exact hother hgeneration hpath

theorem FileBrowser.Fine.land (hfine : b.Fine world now) (i : Nat) (hok : b.Ok world now (.landDir i)) :
    (b.land i).Fine world now := by
  simp only [FileBrowser.land]
  cases hr : b.requests[i]? with
  | none => exact hfine
  | some r =>
    cases hanswer : r.answer with
    | none => simpa [hanswer] using hfine
    | some answer =>
      simp only [hanswer, FileBrowser.landed]
      split
      next hgeneration =>
        have hok := hok r hr hgeneration answer hanswer
        cases answer with
        | none =>
          intro entry hentry
          by_cases hpath : entry.1 = r.path
          · exact hok entry hentry hpath
          · exact (hfine entry hentry).erase hr fun _ heq => hpath heq.symm
        | some entries =>
          intro entry hentry
          obtain rfl | ⟨hentry, hne⟩ := mem_setEntries hentry
          · exact hok
          · exact (hfine entry hentry).erase hr fun _ heq => hne heq.symm
      next hgeneration => exact fun entry hentry => (hfine entry hentry).erase hr fun heq => absurd heq hgeneration

theorem FileBrowser.Wf.onFilesChanged (h : b.Wf world now) (source : Source) :
    (b.onFilesChanged now source).Wf world (now + 1) := by
  have hchanged : { b with changed := Function.update b.changed source now }.Wf world (now + 1) := by
    refine ⟨fun r hr => (h.skip.requests r hr).congr rfl rfl, h.skip.entries, fun other => ?_⟩
    by_cases heq : other = source
    · simp [heq]
    · simpa [heq] using h.skip.changed other
  simp only [FileBrowser.onFilesChanged]
  split
  · exact hchanged.asks (asks_foldl asks_listDirectory _ _)
  · exact hchanged

theorem due_listDirectory (hsource : b.source = some source) (path : String) :
    (b.listDirectory path).Due world now path := by
  rw [FileBrowser.listDirectory, hsource]
  exact ⟨_, mem_append_right _ mem_cons_self, rfl, rfl, nofun⟩

theorem due_foldl (paths : List String) (hsource : b.source = some source)
    (hpath : path ∈ paths) : (paths.foldl FileBrowser.listDirectory b).Due world now path := by
  induction paths generalizing b with
  | nil => exact absurd hpath not_mem_nil
  | cons p paths ih =>
    obtain rfl | hpath := mem_cons.mp hpath
    · exact (due_listDirectory hsource path).asks (asks_foldl asks_listDirectory paths _)
    · exact ih ((asks_listDirectory b p).source.trans hsource) hpath

theorem FileBrowser.Fine.onFilesChanged (h : b.Wf world now) (hfine : b.Fine world now) (source : Source) :
    (b.onFilesChanged now source).Fine world (now + 1) := by
  simp only [FileBrowser.onFilesChanged]
  split
  next hsource =>
    intro entry hentry
    have ha := asks_foldl asks_listDirectory (b.directoryEntries.map (·.1))
      { b with changed := Function.update b.changed source now }
    rw [ha.entries] at hentry
    exact .inr (due_foldl _ hsource (mem_map_of_mem hentry))
  next hsource =>
    intro entry hentry
    have hother : ∀ other, b.source = some other → Function.update b.changed source now other = b.changed other := by
      intro other hmem
      refine update_of_ne ?_ ..
      rintro rfl
      exact hsource hmem
    refine (hfine.skip entry hentry).imp (fun hsince other hmem => ?_) fun ⟨r, hr, hgeneration, hpath, hanswer⟩ => ?_
    · dsimp only
      rw [hother other hmem]
      exact hsince other hmem
    refine ⟨r, hr, hgeneration, hpath, ?_⟩
    dsimp only
    rw [hother r.source ((h.requests r hr).source hgeneration)]
    exact hanswer

theorem FileBrowser.Wf.step (h : b.Wf world now) (e : Event) : (b.step world now e).Wf world (now + 1) := by
  cases e with
  | «open» source path => exact ((h.useSource source).asks (open_asks b source path)).skip
  | openSearch source => exact (h.useSource source).skip
  | fetchDirectory path => exact (h.asks (asks_fetchDirectory b path)).skip
  | toggleDirectory path => exact (h.asks (asks_toggleDirectory b path)).skip
  | answerDir i => exact h.answer i
  | landDir i => exact (h.land i).skip
  | announceChanged source => exact h.onFilesChanged source
  | _ => exact h.skip

theorem FileBrowser.Fine.step (h : b.Wf world now) (hfine : b.Fine world now) (e : Event) (hok : b.Ok world now e) :
    (b.step world now e).Fine world (now + 1) := by
  cases e with
  | «open» source path => exact ((hfine.useSource source).asks (open_asks b source path)).skip
  | openSearch source => exact (hfine.useSource source).skip
  | fetchDirectory path => exact (hfine.asks (asks_fetchDirectory b path)).skip
  | toggleDirectory path => exact (hfine.asks (asks_toggleDirectory b path)).skip
  | answerDir i => exact FileBrowser.Fine.answer h hfine i
  | landDir i => exact (hfine.land i hok).skip
  | announceChanged source => exact FileBrowser.Fine.onFilesChanged h hfine source
  | _ => exact hfine.skip

end

/-! ## Convergence -/

section

variable (world : World) (s : State)

structure Own : Prop where
  shown : ∀ w, ∀ a ∈ s.files.asked w, ∀ files ∈ a.shown.data, Since 0 s.now (world.files · a.source) (some files)
  tree : ∀ entry ∈ s.browser.directoryEntries, ∃ source ∈ s.browser.source,
    Since 0 s.now (world.entries · source entry.1) (some entry.2)

/-- All requests have settled, and every shower has asked again since it was last notified. -/
structure Quiet : Prop where
  files : s.files.requests = []
  browser : s.browser.requests = []
  asked : ∀ w, ∀ a ∈ s.files.asked w, s.files.notified < a.moment

def shownOf : Option (List String) → Loadable (List String)
  | some files => .asLoaded files
  | none => .idle

structure Converged : Prop where
  shown : ∀ w, ∀ a ∈ s.files.asked w, ∃ answer,
    Since (s.files.announced a.source) s.now (world.files · a.source) answer ∧ a.shown = shownOf answer
  tree : ∀ entry ∈ s.browser.directoryEntries, ∃ source ∈ s.browser.source,
    Since (s.browser.changed source) s.now (world.entries · source entry.1) (some entry.2)

/-- No announcement passes over a listing that it leaves behind, and no answer leaves a directory behind. -/
def Ok (e : Event) : Prop := s.files.Ok world s.now e ∧ s.browser.Ok world s.now e

structure Wf : Prop where
  files : s.files.Wf world s.now
  browser : s.browser.Wf world s.now

structure Fine : Prop extends Wf world s where
  filesFine : s.files.Fine world s.now
  browserFine : s.browser.Fine world s.now

end

section

variable {world : World} {s : State}

theorem Fine.init (world : World) : Fine world .init where
  files :=
    { small := Nat.zero_le _, apart := fun _ hl => absurd hl not_mem_nil
      listings := fun _ hl => absurd hl not_mem_nil, requests := fun _ hr => absurd hr not_mem_nil
      notified := Nat.zero_lt_one, announced := fun _ => Nat.zero_lt_one, asked := fun _ _ ha => (nomatch ha) }
  browser :=
    { requests := fun _ hr => absurd hr not_mem_nil, entries := fun _ hentry => absurd hentry not_mem_nil
      changed := fun _ => Nat.zero_lt_one }
  filesFine := fun _ hl => absurd hl not_mem_nil
  browserFine := fun _ hentry => absurd hentry not_mem_nil

theorem Wf.step (s : State) (e : Event) (h : Wf world s) : Wf world (step world s e) :=
  ⟨h.files.step e, h.browser.step e⟩

theorem Fine.step (s : State) (e : Event) (hok : Ok world s e) (h : Fine world s) : Fine world (step world s e) :=
  ⟨h.toWf.step s e, h.filesFine.step h.files e hok.1, h.browserFine.step h.browser e hok.2⟩

theorem Wf.own (h : Wf world s) : Own world s :=
  ⟨fun w a ha files hfiles => (h.files.asked w a ha).data files hfiles, h.browser.entries⟩

theorem Listing.Settled.view (h : l.Settled) : l.view = shownOf l.value := by
  obtain ⟨hunavailable, files, hstate⟩ | ⟨hunavailable, -⟩ := h
  · simp only [Listing.view, Listing.value, hunavailable, hstate, false_eq_true, if_false]
    rfl
  · simp only [Listing.view, Listing.value, hunavailable, if_true]
    rfl

theorem Fine.converged (h : Fine world s) (hquiet : Quiet s) : Converged world s where
  shown w a ha := by
    have hsettled : ∀ l ∈ s.files.listings, l.Settled := fun l hl =>
      (h.files.listings l hl).status.resolve_right fun ⟨_, r, hr, _⟩ => by
        rw [hquiet.files] at hr
        exact not_mem_nil hr
    obtain ⟨l, hl, hloading⟩ | ⟨l, hl, hsource, hstale, hshown⟩ := (h.files.asked w a ha).shows (hquiet.asked w a ha)
    · exact absurd hloading (hsettled l hl).ne_loading
    obtain hstale' | ⟨-, hloading | hsince⟩ := h.filesFine l hl
    · cases hstale.symm.trans hstale'
    · exact absurd hloading (hsettled l hl).ne_loading
    · exact ⟨l.value, hsource ▸ hsince, hshown.trans (hsettled l hl).view⟩
  tree entry hentry := by
    obtain ⟨source, hsource, -⟩ := h.browser.entries entry hentry
    obtain hsince | ⟨r, hr, -⟩ := h.browserFine entry hentry
    · exact ⟨source, hsource, hsince source hsource⟩
    · rw [hquiet.browser] at hr
      exact absurd hr not_mem_nil

/-- In every run no source is shown another's answer; and in every run in which no announcement passes over what it
leaves behind and no answer leaves a directory behind, what is shown is the node's once all is quiet. -/
theorem files_converge (world : World) (es : List Event) : Own world (exec (step world) .init es) ∧
      (Along (step world) (Ok world) .init es → Quiet (exec (step world) .init es) →
        Converged world (exec (step world) .init es)) := by
  refine ⟨(exec_invariant (Wf world) Wf.step (Fine.init world).toWf es).own, fun hok hquiet => ?_⟩
  exact (hok.invariant (Fine world) Fine.step (Fine.init world)).converged hquiet

instance {α : Type} [DecidableEq α] (first now : Moment) (what : Moment → α) (value : α) :
    Decidable (Since first now what value) := by unfold Since; infer_instance

instance (world : World) (now : Moment) (b : FileBrowser) (path : String) : Decidable (b.Due world now path) := by
  unfold FileBrowser.Due; infer_instance

instance (world : World) (now : Moment) (b : FileBrowser) (path : String) (entries : List DirectoryEntry) :
    Decidable (b.EntryFine world now path entries) := by unfold FileBrowser.EntryFine; infer_instance

instance (world : World) (now : Moment) (b : FileBrowser) (e : Event) : Decidable (b.Ok world now e) :=
  match e with
  | .landDir i => by
    unfold FileBrowser.Ok
    have (r : DirRequest) (answer : Option (List DirectoryEntry)) : Decidable
        (let b' := { b with requests := b.requests.eraseIdx i }
        match answer with
        | some entries => b'.EntryFine world now r.path entries
        | none => ∀ entry ∈ b.directoryEntries, entry.1 = r.path → b'.EntryFine world now entry.1 entry.2) := by
      cases answer <;> infer_instance
    infer_instance
  | .ask _ _ | .open _ _ | .openSearch _ | .fetchDirectory _ | .toggleDirectory _ | .answerList _ | .landList _
  | .answerDir _ | .announceChanged _ | .nodesChanged _ => .isTrue trivial

instance (world : World) (now : Moment) (s : ProjectFiles) (l : Listing) : Decidable (l.Current world now s) := by
  unfold Listing.Current; infer_instance

instance (world : World) (now : Moment) (s : ProjectFiles) (e : Event) : Decidable (s.Ok world now e) := by
  cases e <;> unfold ProjectFiles.Ok <;> infer_instance

instance (world : World) (s : State) (e : Event) : Decidable (Ok world s e) := by unfold Ok; infer_instance

/-- A checkout to which a file is added at moment 4. -/
def exampleWorld : World where
  files t _ := some (if t < 4 then ["a.ts"] else ["a.ts", "b.ts"])
  entries t _ _ := some (if t < 4 then [⟨"a.ts", .file⟩] else [⟨"a.ts", .file⟩, ⟨"b.ts", .file⟩])

def checkout : Source := ⟨"node-a", "/work"⟩

/-- The file is announced once the listing and the root have loaded, and both load again. -/
def reloadedRun : List Event :=
  [.ask 0 (some checkout), .open checkout none, .answerList 0, .landList 0, .ask 0 (some checkout), .answerDir 0,
    .landDir 0, .announceChanged checkout, .ask 0 (some checkout), .answerList 0, .landList 0, .ask 0 (some checkout),
    .answerDir 0, .landDir 0]

theorem reloadedRun_quiet : Quiet (exec (step exampleWorld) .init reloadedRun) where
  files := by decide
  browser := by decide
  asked w a ha := by
    cases w with
    | zero => exact (by decide : ∀ a ∈ (exec (step exampleWorld) .init reloadedRun).files.asked 0, _ < a.moment) a ha
    | succ w => exact (nomatch ha)

theorem files_converge_reloaded : Converged exampleWorld (exec (step exampleWorld) .init reloadedRun) :=
  (files_converge exampleWorld reloadedRun).2 (by decide) reloadedRun_quiet

def firstLoadRun : List Event :=
  [.open checkout none, .answerDir 0, .openSearch checkout, .announceChanged checkout, .landDir 0]

theorem first_load_stale : ¬∀ (world : World) (es : List Event), Quiet (exec (step world) .init es) →
      Converged world (exec (step world) .init es) := by
  intro h
  have hquiet : Quiet (exec (step exampleWorld) .init firstLoadRun) := ⟨by decide, by decide, nofun⟩
  have htree := (h exampleWorld firstLoadRun hquiet).tree
  exact absurd htree (by decide)

end

end Reins.ShownFiles
