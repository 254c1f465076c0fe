import Reins.Frontend.Patch

/-!
# The files of a diff (`frontend/src/models/changes/file-changes.ts`)

A package parses a patch's files. Each gets its own piece of the patch by its place: the pieces are cut where the code
sees a file's first line, for JavaScript's patterns also behind a terminator inside a line.
-/

namespace Reins.FileChanges

open Utf UnifiedDiff Terminators List

/-! ## Metadata -/

inductive ChangeTypes
  | change
  | renamePure
  | renameChanged
  | new
  | deleted
  deriving DecidableEq

def ChangeTypes.text : ChangeTypes → Text
  | .change => js "change"
  | .renamePure => js "rename-pure"
  | .renameChanged => js "rename-changed"
  | .new => js "new"
  | .deleted => js "deleted"

structure HunkMetadata where
  additionLines : Nat
  deletionLines : Nat
  deriving DecidableEq

/-- A file as the package parses it, less the cache key, which the change's replaces. -/
structure FileDiffMetadata (D : Type) where
  name : Text
  prevName : Option Text
  type : ChangeTypes
  hunks : List HunkMetadata
  rest : D
  deriving DecidableEq

structure FileChange (D : Type) where
  id : Text
  path : Text
  oldPath : Option Text
  status : ChangeTypes
  additions : Nat
  removals : Nat
  binary : Bool
  occurrence : Nat
  contentKey : Text
  cacheKey : Text
  filePatch : Text
  fileDiff : FileDiffMetadata D

structure FileChangesResult (D : Type) where
  changes : List (FileChange D)
  pathToChangeId : List (Text × Text)
  parseError : Option Text

structure Env (D : Type) where
  parsePatchFiles : Text → Except Text (List (List (FileDiffMetadata D)))
  /-- `JSON.stringify` of a file and its piece, without cache keys. -/
  stringify : FileDiffMetadata D → Text → Text
  localeCompare : Text → Text → Int

/-! ## Keys -/

def hexUnit (n : Nat) (letter : Nat) : UInt16 := UInt16.ofNat (if n < 10 then 0x30 + n else letter + (n - 10))

/-- `toString(radix)`. -/
def toRadix (radix n : Nat) : Text := if n = 0 then [0x30] else (Nat.digits radix n).reverse.map (hexUnit · 0x61)

def padStart (length : Nat) (s : Text) : Text := List.replicate (length - s.length) 0x30 ++ s

def unreserved (c : Char) : Bool := c.isAlphanum || c ∈ "-_.!~*'()".toList

def percent (b : UInt8) : Text := [0x25, hexUnit (b.toNat / 16) 0x41, hexUnit (b.toNat % 16) 0x41]

/-- `encodeURIComponent`, which throws on a surrogate that pairs with nothing. -/
def encodeURIComponent (s : Text) : Except Text Text :=
  if (scalars s).flatMap Utf.units = s then
    .ok ((scalars s).flatMap fun c => if unreserved c then Utf.units c else (String.utf8EncodeChar c).flatMap percent)
  else .error (js "URI malformed")

def fileChangeIdentity (status : ChangeTypes) (oldPath : Option Text) (path : Text) : Except Text Text := do
  let old ← match oldPath with
    | none | some [] => .ok []
    | some oldPath => encodeURIComponent oldPath
  let new ← encodeURIComponent path
  return status.text ++ js ":" ++ old ++ js ":" ++ new

def toHex (value : UInt32) : Text := padStart 8 (toRadix 16 value.toNat)

def fingerprintStep (s : UInt32 × UInt32) (code : UInt16) : UInt32 × UInt32 :=
  let first := (s.1 ^^^ code.toUInt32) * 0x01000193
  let second := (s.2 ^^^ code.toUInt32) * 0x85ebca6b
  (first, second <<< 13 ||| second >>> 19)

def contentFingerprint (content : Text) : Text :=
  let (first, second) := content.foldl fingerprintStep (0x811c9dc5, 0x9e3779b9)
  js "v1:" ++ toHex first ++ toHex second ++ js ":" ++ toRadix 36 content.length

/-! ## Pieces -/

def isFileHeader : Text → Bool := (js "diff --git ").isPrefixOf

/-- Each piece is from its start to the next one's, or to the end. -/
def slices : List Text → List Text
  | [] => []
  | start :: starts => start.take (start.length - (starts.head?.getD []).length) :: slices starts

def splitFilePatches (patch : Text) : List Text := slices (matchLines isFileHeader patch)

/-! ## Changes -/

/-- `.` to the end of the line, which ends with the words. -/
def isBinaryLine (s : Text) : Bool :=
  match Search.after (js "Binary files ") s with
  | none => false
  | some rest => (js " differ").isSuffixOf (rest.takeWhile isDot)

def isGitBinaryLine (s : Text) : Bool :=
  match Search.after (js "GIT binary patch") s with
  | none => false
  | some rest => rest.takeWhile isDot = []

def isBinary (filePatch : Text) : Bool := testLines isBinaryLine filePatch || testLines isGitBinaryLine filePatch

structure Collected (D : Type) where
  occurrences : Text → Nat
  changes : List (FileChange D)
  filePatchIndex : Nat

section

variable {D : Type}

def changeOf (env : Env D) (cacheKeyPrefix occurrenceKey : Text) (occurrence : Nat) (m : FileDiffMetadata D)
    (filePatch : Text) : FileChange D where
  id := js "review:" ++ (occurrenceKey ++ js ":" ++ decimal occurrence)
  path := m.name
  oldPath := m.prevName
  status := m.type
  additions := (m.hunks.map (·.additionLines)).sum
  removals := (m.hunks.map (·.deletionLines)).sum
  binary := isBinary filePatch
  occurrence := occurrence
  contentKey := contentFingerprint (env.stringify m filePatch)
  cacheKey := cacheKeyPrefix ++ js ":" ++ (occurrenceKey ++ js ":" ++ decimal occurrence)
  filePatch := filePatch
  fileDiff := m

def collect (env : Env D) (cacheKeyPrefix : Text) (filePatches : List Text) (c : Collected D)
    (m : FileDiffMetadata D) : Except Text (Collected D) :=
  match filePatches[c.filePatchIndex]? with
  | none | some [] => .error (js "Unable to retain the per-file patch")
  | some filePatch => do
    let occurrenceKey ← fileChangeIdentity m.type m.prevName m.name
    let occurrence := c.occurrences occurrenceKey
    return {
      occurrences := Function.update c.occurrences occurrenceKey (occurrence + 1)
      changes := c.changes ++ [changeOf env cacheKeyPrefix occurrenceKey occurrence m filePatch]
      filePatchIndex := c.filePatchIndex + 1 }

def compareParts (localeCompare : Text → Text → Int) : List Text → List Text → Int
  | a :: partsA, b :: partsB =>
    if partsA.isEmpty ≠ partsB.isEmpty then if partsA.isEmpty then 1 else -1
    else if localeCompare a b ≠ 0 then localeCompare a b
    else compareParts localeCompare partsA partsB
  | partsA, partsB => partsA.length - partsB.length

def compareFilePaths (localeCompare : Text → Text → Int) (a b : Text) : Int :=
  compareParts localeCompare (a.splitOn 0x2F) (b.splitOn 0x2F)

/-- A path keeps the first change that has it. -/
def setNew (paths : List (Text × Text)) (path id : Text) : List (Text × Text) :=
  if path ∈ paths.map (·.1) then paths else paths ++ [(path, id)]

def addPaths (paths : List (Text × Text)) (change : FileChange D) : List (Text × Text) :=
  let paths := setNew paths change.path change.id
  match change.oldPath with
  | none | some [] => paths
  | some oldPath => setNew paths oldPath change.id

def parseChanges (env : Env D) (patch cacheKeyPrefix : Text) : Except Text (List (FileChange D)) := do
  let parsedPatches ← env.parsePatchFiles patch
  let collected ← parsedPatches.flatten.foldlM (collect env cacheKeyPrefix (splitFilePatches patch)) ⟨fun _ => 0, [], 0⟩
  return collected.changes.mergeSort fun a b => compareFilePaths env.localeCompare a.path b.path ≤ 0

def parseFileChanges (env : Env D) (patch cacheKeyPrefix : Text) : FileChangesResult D :=
  match parseChanges env patch cacheKeyPrefix with
  | .ok changes => ⟨changes, changes.foldl addPaths [], none⟩
  | .error message => ⟨[], [], some message⟩

end

/-! ## The pieces of a text -/

section

variable {starts : List Text} {s t line : Text} {f : FilePatch} {files : List FilePatch}

/-- Pieces of a text that begin one inside the other are the text again. -/
theorem flatten_slices (h : starts.Pairwise fun a b => b <:+ a ∧ b.length < a.length) :
    (slices starts).flatten = starts.head?.getD [] := by
  induction starts with
  | nil => rfl
  | cons start starts ih =>
    rw [slices, flatten_cons, ih h.of_cons]
    have hsuffix : starts.head?.getD [] <:+ start := by
      cases starts with
      | nil => exact nil_suffix
      | cons next starts => exact (rel_of_pairwise_cons h mem_cons_self).1
    obtain ⟨piece, hpiece⟩ := hsuffix
    rw [head?_cons, Option.getD_some]
    conv_lhs => rw [← hpiece, length_append, Nat.add_sub_cancel, take_left]
    exact hpiece

/-- **The pieces are the patch from its first file on.** -/
theorem flatten_splitFilePatches (patch : Text) :
    (splitFilePatches patch).flatten = (matchLines isFileHeader patch).head?.getD [] :=
  flatten_slices (pairwise_matchLines _ patch)

theorem nil_notMem_splitFilePatches (patch : Text) : [] ∉ splitFilePatches patch := by
  have hslices : ∀ starts : List Text, (starts.Pairwise fun a b => b <:+ a ∧ b.length < a.length) →
      (∀ start ∈ starts, isFileHeader start = true) → [] ∉ slices starts := by
    intro starts hpairs hheaders hmem
    induction starts with
    | nil => cases hmem
    | cons start starts ih =>
      rcases mem_cons.mp hmem with h | h
      · have hlt : (starts.head?.getD []).length < start.length := by
          cases starts with
          | nil =>
            refine length_pos_iff.mpr fun hnil => ?_
            cases hnil ▸ hheaders start mem_cons_self
          | cons next starts => exact (rel_of_pairwise_cons hpairs mem_cons_self).2
        have hlength := congrArg List.length h
        rw [length_nil, List.length_take] at hlength
        omega
      · exact ih hpairs.of_cons (fun s hs => hheaders s (mem_cons_of_mem _ hs)) h
  exact hslices _ (pairwise_matchLines _ patch) fun _ => of_mem_matchLines

theorem length_slices (starts : List Text) : (slices starts).length = starts.length := by
  induction starts with
  | nil => rfl
  | cons start starts ih => exact congrArg (· + 1) ih

/-! ### The starts in what git renders -/

/-- Nothing in the file's lines looks, behind a terminator inside a line, like the first line of a file. -/
def Unsplit (f : FilePatch) : Prop := ∀ hunk ∈ f.hunks,
  innerStarts isFileHeader hunk.heading = [] ∧ ∀ e ∈ hunk.edits, innerStarts isFileHeader e.line.text = []

instance (f : FilePatch) : Decidable (Unsplit f) := inferInstanceAs (Decidable (∀ hunk ∈ f.hunks, _ ∧ _))

theorem isFileHeader_line (t l : Text) : isFileHeader (l ++ LF :: t) = isFileHeader l := isPrefixOf_line (by decide) t l

theorem innerStarts_simple (h : AllSimple s) (t : Text) :
    innerStarts isFileHeader (s ++ t) = innerStarts isFileHeader t :=
  innerStarts_dots (fun u hu =>
    isDot_iff.mpr ⟨fun heq => h.notMem_LF (heq ▸ hu : 0x0A ∈ s), Patch.free_of_simple h u hu⟩) t

theorem matchLines_simple (h : AllSimple s) (hheader : isFileHeader s = false) : matchLines isFileHeader s = [] := by
  have hinner := innerStarts_simple h []
  rw [append_nil] at hinner
  rw [matchLines, hheader, hinner]
  rfl

theorem matchLines_first (f : FilePatch) : matchLines isFileHeader f.first = [f.first] := by
  have hinner := innerStarts_simple (simple_first f) []
  rw [append_nil] at hinner
  rw [matchLines, hinner]
  rfl

theorem matchLines_header (old new : Nat) (hunk : Hunk) :
    matchLines isFileHeader (hunk.header old new) = innerStarts isFileHeader hunk.heading := by
  rw [Hunk.header_eq, matchLines, innerStarts_simple (simple_numbers old new hunk)]
  rfl

theorem matchLines_mark (kind : Kind) (s : Text) :
    matchLines isFileHeader (kind.mark :: s) = innerStarts isFileHeader s := by
  cases kind <;> rfl

theorem isFileHeader_headerLines (h : line ∈ f.headerLines) : isFileHeader line = false := by
  rcases mem_append.mp h with h | h
  · obtain ⟨e, -, rfl⟩ := mem_map.mp h
    cases e <;> rfl
  cases hbody : f.body with
  | none => simp [hbody] at h
  | binary =>
    simp only [hbody, mem_singleton] at h
    rw [h]
    rfl
  | hunks first more =>
    simp only [hbody, mem_cons, not_mem_nil, or_false] at h
    obtain rfl | rfl := h <;> rfl

theorem matchLines_nil_iff :
    (∀ line ∈ f.headerLines ++ hunkLines 0 0 f.hunks, matchLines isFileHeader line = []) ↔ Unsplit f := by
  constructor
  · intro h hunk hmem
    obtain ⟨⟨old, new, hheader⟩, hedits⟩ := hunkLines_of_mem 0 0 hmem
    constructor
    · rw [← matchLines_header old new]
      exact h _ (mem_append_right _ hheader)
    intro e he
    rw [← matchLines_mark e.kind]
    exact h _ (mem_append_right _ (hedits e he))
  · intro h line hline
    rcases mem_append.mp hline with hline | hline
    · exact matchLines_simple (simple_headerLines hline) (isFileHeader_headerLines hline)
    obtain ⟨hunk, hmem, ⟨old, new, rfl⟩ | ⟨e, he, rfl | ⟨-, rfl⟩⟩⟩ := mem_hunkLines hline
    · exact (matchLines_header old new hunk).trans (h hunk hmem).1
    · exact (matchLines_mark e.kind e.line.text).trans ((h hunk hmem).2 e he)
    · exact matchLines_simple (by decide) rfl

theorem render_cons (f : FilePatch) (files : List FilePatch) : render (f :: files) = render [f] ++ render files := by
  simp [render]

theorem head_matchLines_render (files : List FilePatch) :
    (matchLines isFileHeader (render files)).head?.getD [] = render files := by
  cases files with
  | nil => rfl
  | cons f files =>
    have hheader : isFileHeader (render (f :: files)) = true := by
      rw [render, flatMap_cons, FilePatch.lines, cons_append, cons_append, Lines.join_cons]
      rfl
    rw [matchLines, if_pos hheader]
    rfl

theorem matchLines_render_cons (h : Unsplit f) (t : Text) :
    matchLines isFileHeader (render [f] ++ t) = (render [f] ++ t) :: matchLines isFileHeader t := by
  rw [render, flatMap_singleton, FilePatch.lines, cons_append, Lines.join_cons, append_assoc,
    cons_append, LF, matchLines_line (isFileHeader_line _), matchLines_first,
    matchLines_join isFileHeader_line (matchLines_nil_iff.mpr h)]
  rfl

/-- **Without such lines each file has its own piece.** -/
theorem splitFilePatches_render (h : ∀ f ∈ files, Unsplit f) :
    splitFilePatches (render files) = files.map fun f => render [f] := by
  induction files with
  | nil => rfl
  | cons f files ih =>
    have hrest : ∀ g ∈ files, Unsplit g := fun g hg => h g (mem_cons_of_mem f hg)
    rw [splitFilePatches, render_cons, matchLines_render_cons (h f mem_cons_self), slices, head_matchLines_render,
      length_append, Nat.add_sub_cancel, take_left]
    exact congrArg (render [f] :: ·) (ih hrest)

theorem length_matchLines_file (f : FilePatch) (t : Text) : (matchLines isFileHeader (render [f] ++ t)).length =
      ((f.headerLines ++ hunkLines 0 0 f.hunks).map fun l => (matchLines isFileHeader l).length).sum + 1 +
        (matchLines isFileHeader t).length := by
  rw [render, flatMap_singleton, LF, length_matchLines_join isFileHeader_line, FilePatch.lines, cons_append,
    map_cons, sum_cons, matchLines_first, length_singleton, Nat.add_comm 1]

/-- There is a start for each file, and with such a line there are more. -/
theorem length_splitFilePatches (files : List FilePatch) : files.length ≤ (splitFilePatches (render files)).length ∧
    ((splitFilePatches (render files)).length = files.length ↔ ∀ f ∈ files, Unsplit f) := by
  rw [splitFilePatches, length_slices]
  induction files with
  | nil => exact ⟨Nat.le_refl _, iff_of_true rfl nofun⟩
  | cons f files ih =>
    have hsum : ((f.headerLines ++ hunkLines 0 0 f.hunks).map fun l => (matchLines isFileHeader l).length).sum = 0 ↔
        Unsplit f := by
      rw [List.sum_eq_zero_iff_forall_eq_nat, ← matchLines_nil_iff]
      simp only [forall_mem_map, length_eq_zero_iff]
    rw [render_cons, length_matchLines_file, length_cons, forall_mem_cons, ← hsum, ← ih.2]
    omega

end

/-! ## The changes of a run -/

section

variable {D : Type} {env : Env D} {cacheKeyPrefix key key' : Text} {filePatches : List Text} {c c' : Collected D}
  {m : FileDiffMetadata D} {ms : List (FileDiffMetadata D)} {n n' : Nat}

/-- `encodeURIComponent` takes the names. -/
def Encodable (m : FileDiffMetadata D) : Prop := ∃ key, fileChangeIdentity m.type m.prevName m.name = .ok key

theorem collect_eq_ok (h : collect env cacheKeyPrefix filePatches c m = .ok c') :
    ∃ filePatch key, filePatches[c.filePatchIndex]? = some filePatch ∧
      fileChangeIdentity m.type m.prevName m.name = .ok key ∧
      c' = ⟨Function.update c.occurrences key (c.occurrences key + 1),
        c.changes ++ [changeOf env cacheKeyPrefix key (c.occurrences key) m filePatch], c.filePatchIndex + 1⟩ := by
  unfold collect at h
  split at h
  · cases h
  · cases h
  next filePatch _ hpatch =>
    cases hkey : fileChangeIdentity m.type m.prevName m.name with
    | error e =>
      rw [hkey] at h
      cases h
    | ok key =>
      rw [hkey] at h
      exact ⟨filePatch, key, hpatch, rfl, (Except.ok.inj h).symm⟩

theorem id_inj (h : key ++ js ":" ++ decimal n = key' ++ js ":" ++ decimal n') : key = key' ∧ n = n' := by
  have hcolon (n : Nat) : (0x3A : UInt16) ∉ (decimal n).reverse := fun hmem =>
    absurd (isDigit_of_mem_decimal (mem_reverse.mp hmem)) (by decide)
  have hreverse := congrArg List.reverse h
  simp only [reverse_append, append_assoc] at hreverse
  obtain ⟨hn, hkey⟩ := Lines.first_inj (hcolon n) (hcolon n') hreverse
  refine ⟨reverse_injective hkey, ?_⟩
  rw [← readNat_decimal n, reverse_injective hn, readNat_decimal]

structure Distinct (c : Collected D) : Prop where
  numbered : ∀ change ∈ c.changes, ∃ key n, change.id = js "review:" ++ (key ++ js ":" ++ decimal n) ∧
    n < c.occurrences key
  nodup : (c.changes.map (·.id)).Nodup

theorem Distinct.collect (hc : Distinct c) (h : collect env cacheKeyPrefix filePatches c m = .ok c') : Distinct c' := by
  obtain ⟨filePatch, key, -, -, rfl⟩ := collect_eq_ok h
  constructor
  · intro change hmem
    rcases Places.mem_concat_cases hmem with hmem | rfl
    · obtain ⟨key', n, hid, hlt⟩ := hc.numbered change hmem
      refine ⟨key', n, hid, ?_⟩
      by_cases heq : key' = key
      · subst heq
        simpa using Nat.lt_succ_of_lt hlt
      · simpa [Function.update_of_ne heq] using hlt
    · exact ⟨key, c.occurrences key, rfl, by simp⟩
  · rw [map_append, map_singleton]
    refine List.Nodup.append hc.nodup (nodup_singleton _) (disjoint_singleton.mpr fun hmem => ?_)
    obtain ⟨change, hchange, heq⟩ := mem_map.mp hmem
    obtain ⟨key', n, hid, hlt⟩ := hc.numbered change hchange
    obtain ⟨rfl, rfl⟩ := id_inj (append_cancel_left (hid.symm.trans heq))
    exact Nat.lt_irrefl _ hlt

/-- **A run's changes** have ids of their own, and take the files and the pieces one by one; every name is encoded. -/
theorem foldlM_collect (hc : Distinct c) (h : ms.foldlM (collect env cacheKeyPrefix filePatches) c = .ok c') :
    Distinct c' ∧ (∀ m ∈ ms, Encodable m) ∧ (c'.changes.map fun change => (change.fileDiff, change.filePatch)) =
      (c.changes.map fun change => (change.fileDiff, change.filePatch)) ++
        ms.zip (filePatches.drop c.filePatchIndex) := by
  induction ms generalizing c with
  | nil =>
    cases h
    exact ⟨hc, nofun, (append_nil _).symm⟩
  | cons m ms ih =>
    rw [foldlM_cons] at h
    cases hstep : collect env cacheKeyPrefix filePatches c m with
    | error e =>
      rw [hstep] at h
      cases h
    | ok mid =>
      rw [hstep] at h
      obtain ⟨hdistinct, hnames, hchanges⟩ := ih (hc.collect hstep) h
      obtain ⟨filePatch, key, hpatch, hkey, rfl⟩ := collect_eq_ok hstep
      refine ⟨hdistinct, List.forall_mem_cons.mpr ⟨⟨key, hkey⟩, hnames⟩, hchanges.trans ?_⟩
      obtain ⟨hlt, hpatch⟩ := List.getElem?_eq_some_iff.mp hpatch
      rw [drop_eq_getElem_cons hlt, hpatch, map_append, append_assoc]
      rfl

/-- A run with names to encode and a piece for each file ends well. -/
theorem foldlM_collect_ok (hnames : ∀ m ∈ ms, Encodable m) (hpieces : [] ∉ filePatches)
    (hlength : c.filePatchIndex + ms.length ≤ filePatches.length) :
    ∃ c', ms.foldlM (collect env cacheKeyPrefix filePatches) c = .ok c' := by
  induction ms generalizing c with
  | nil => exact ⟨c, rfl⟩
  | cons m ms ih =>
    rw [length_cons] at hlength
    obtain ⟨key, hkey⟩ := hnames m mem_cons_self
    have hpatch := getElem?_eq_getElem (show c.filePatchIndex < filePatches.length by omega)
    have hstep : ∃ mid, collect env cacheKeyPrefix filePatches c m = .ok mid ∧
        mid.filePatchIndex = c.filePatchIndex + 1 := by
      unfold collect
      split
      next hnone =>
        cases hpatch.symm.trans hnone
      next hempty =>
        exact absurd (mem_of_getElem? hempty) hpieces
      · rw [hkey]
        exact ⟨_, rfl, rfl⟩
    obtain ⟨mid, hmid, hindex⟩ := hstep
    rw [foldlM_cons, hmid]
    exact ih (fun m hm => hnames m (mem_cons_of_mem _ hm)) (by omega)

end

/-! ## Whose piece is whose -/

section

variable {D : Type}

def KeepsOwn (result : FileChangesResult D) (parsed : List (FileDiffMetadata D)) (files : List FilePatch) : Prop :=
  result.changes = [] ∧ result.parseError ≠ none ∨
    (result.changes.map fun change => (change.fileDiff, change.filePatch)).Perm
      (parsed.zip (files.map fun f => render [f]))

/-- Taken by their places, the pieces are the files' own just if there are no more of them. -/
theorem zip_pieces_perm_iff {ms : List (FileDiffMetadata D)} {files : List FilePatch} (h : ms.length = files.length) :
    (ms.zip (splitFilePatches (render files))).Perm (ms.zip (files.map fun f => render [f])) ↔
      ∀ f ∈ files, Unsplit f := by
  obtain ⟨hle, hiff⟩ := length_splitFilePatches files
  constructor
  · intro hperm
    have hown : ((ms.zip (files.map fun f => render [f])).map Prod.snd).flatten = render files := by
      rw [map_snd_zip (by rw [length_map, h])]
      simp only [render, Lines.join, flatMap_assoc, flatMap_singleton]
      exact (flatMap_def ..).symm
    have hpieces := congrArg List.length
      ((flatten_splitFilePatches (render files)).trans (head_matchLines_render files))
    have htaken : (ms.zip (splitFilePatches (render files))).map Prod.snd =
        (splitFilePatches (render files)).take ms.length := by
      rw [zip_eq_zip_take_min, Nat.min_eq_left (h ▸ hle), map_snd_zip]
      rw [List.length_take, List.length_take]
      omega
    have hlength := (hperm.map Prod.snd).flatten.length_eq
    have hwhole := congrArg (·.flatten.length) (take_append_drop ms.length (splitFilePatches (render files)))
    simp only [flatten_append, length_append] at hwhole
    rw [hown, htaken] at hlength
    -- what is left over has no length, and no piece is empty
    refine hiff.mp (Nat.le_antisymm ?_ hle)
    rw [← h, ← drop_eq_nil_iff]
    refine eq_nil_iff_forall_not_mem.mpr fun piece hmem => nil_notMem_splitFilePatches (render files) ?_
    have hnil : piece = [] := by
      have := (sublist_flatten_of_mem hmem).length_le
      exact length_eq_zero_iff.mp (by omega)
    exact hnil ▸ mem_of_mem_drop hmem
  · intro hunsplit
    rw [splitFilePatches_render hunsplit]

theorem parseChanges_cases {env : Env D} {patch : Text} (cacheKeyPrefix : Text)
    {parsed : List (List (FileDiffMetadata D))} (hparse : env.parsePatchFiles patch = .ok parsed) :
    (∃ e, parsed.flatten.foldlM (collect env cacheKeyPrefix (splitFilePatches patch)) ⟨fun _ => 0, [], 0⟩ = .error e ∧
        parseFileChanges env patch cacheKeyPrefix = ⟨[], [], some e⟩) ∨
      ∃ c, parsed.flatten.foldlM (collect env cacheKeyPrefix (splitFilePatches patch)) ⟨fun _ => 0, [], 0⟩ = .ok c ∧
        (parseFileChanges env patch cacheKeyPrefix).changes.Perm c.changes ∧
          (parseFileChanges env patch cacheKeyPrefix).parseError = none := by
  unfold parseFileChanges parseChanges
  rw [hparse]
  cases hrun : parsed.flatten.foldlM (collect env cacheKeyPrefix (splitFilePatches patch)) ⟨fun _ => 0, [], 0⟩ with
  | error e => exact .inl ⟨e, rfl, by simp [bind, Except.bind, hrun]⟩
  | ok c =>
    refine .inr ⟨c, rfl, ?_⟩
    simp only [bind, Except.bind, hrun, pure, Except.pure]
    exact ⟨mergeSort_perm _ _, trivial⟩

theorem nodup_parseFileChanges {env : Env D} {patch cacheKeyPrefix : Text}
    {parsed : List (List (FileDiffMetadata D))} (hparse : env.parsePatchFiles patch = .ok parsed) :
    ((parseFileChanges env patch cacheKeyPrefix).changes.map (·.id)).Nodup := by
  obtain ⟨e, -, hresult⟩ | ⟨c, hrun, hperm, -⟩ := parseChanges_cases cacheKeyPrefix hparse
  · rw [hresult]
    exact nodup_nil
  · have hdistinct : Distinct (⟨fun _ => 0, [], 0⟩ : Collected D) := ⟨nofun, nodup_nil⟩
    exact (hperm.map (·.id)).nodup_iff.mpr (foldlM_collect hdistinct hrun).1.nodup

theorem keepsOwn_iff {env : Env D} {cacheKeyPrefix : Text} {files : List FilePatch}
    {parsed : List (List (FileDiffMetadata D))} (hparse : env.parsePatchFiles (render files) = .ok parsed)
    (hfiles : parsed.flatten.length = files.length) :
    KeepsOwn (parseFileChanges env (render files) cacheKeyPrefix) parsed.flatten files ↔
      (∃ m ∈ parsed.flatten, ¬Encodable m) ∨ ∀ f ∈ files, Unsplit f := by
  have hdistinct : Distinct (⟨fun _ => 0, [], 0⟩ : Collected D) := ⟨nofun, nodup_nil⟩
  obtain ⟨e, hrun, hresult⟩ | ⟨c, hrun, hperm, herror⟩ := parseChanges_cases cacheKeyPrefix hparse
  · refine iff_of_true (.inl (by simp [hresult])) (.inl ?_)
    by_contra hnames
    push Not at hnames
    obtain ⟨c, hc⟩ := foldlM_collect_ok (c := ⟨fun _ => 0, [], 0⟩) hnames (nil_notMem_splitFilePatches (render files))
      (by simpa [hfiles] using (length_splitFilePatches files).1)
    cases hrun.symm.trans hc
  · obtain ⟨-, hnames, hchanges⟩ := foldlM_collect hdistinct hrun
    have hpairs := hperm.map fun change => (change.fileDiff, change.filePatch)
    rw [hchanges] at hpairs
    rw [KeepsOwn, herror, or_iff_right (fun h => h.2 rfl),
      or_iff_right (fun ⟨m, hm, hname⟩ => hname (hnames m hm)), ← zip_pieces_perm_iff hfiles]
    exact ⟨hpairs.symm.trans, hpairs.trans⟩

end

/-- **Each change has its own file's patch** just if nothing in the files looks, behind a terminator inside a line, like
the first line of a file, or a name is not to be encoded and there is no change; the pieces are the whole patch and the
ids are distinct in any case. -/
theorem parseFileChanges_iff {D : Type} (env : Env D) (cacheKeyPrefix : Text) (files : List FilePatch)
    (parsed : List (List (FileDiffMetadata D))) (hparse : env.parsePatchFiles (render files) = .ok parsed)
    (hfiles : parsed.flatten.length = files.length) :
    (KeepsOwn (parseFileChanges env (render files) cacheKeyPrefix) parsed.flatten files ∧
        (splitFilePatches (render files)).flatten = render files ∧
        ((parseFileChanges env (render files) cacheKeyPrefix).changes.map (·.id)).Nodup) ↔
      (∃ m ∈ parsed.flatten, ¬Encodable m) ∨ ∀ f ∈ files, Unsplit f := by
  rw [keepsOwn_iff hparse hfiles, and_iff_left]
  exact ⟨(flatten_splitFilePatches _).trans (head_matchLines_render files), nodup_parseFileChanges hparse⟩

/-! ## The order of the changes -/

/-- What `localeCompare` is in a locale. -/
structure Collator where
  localeCompare : Text → Text → Int
  flip : ∀ a b, localeCompare a b ≤ 0 ↔ 0 ≤ localeCompare b a
  trans : ∀ a b c, localeCompare a b ≤ 0 → localeCompare b c ≤ 0 → localeCompare a c ≤ 0

theorem compareParts_total (o : Collator) (l m : List Text) :
    compareParts o.localeCompare l m ≤ 0 ∨ compareParts o.localeCompare m l ≤ 0 := by
  induction l generalizing m with
  | nil => simp [compareParts]
  | cons a l ih =>
    cases m with
    | nil => simp [compareParts]
    | cons b m =>
      have hparts := ih m
      simp only [compareParts]
      grind [o.flip a b, o.flip b a]

theorem compareParts_trans (o : Collator) {l m n : List Text} (hlm : compareParts o.localeCompare l m ≤ 0)
    (hmn : compareParts o.localeCompare m n ≤ 0) : compareParts o.localeCompare l n ≤ 0 := by
  induction l generalizing m n with
  | nil => simp [compareParts]
  | cons a l ih =>
    cases m with
    | nil => simp [compareParts] at hlm; omega
    | cons b m =>
      cases n with
      | nil => simp [compareParts] at hmn; omega
      | cons c n =>
        simp only [compareParts] at *
        grind [o.flip a b, o.flip b a, o.flip b c, o.flip c b, o.flip a c, o.flip c a, o.trans a b c, o.trans c a b,
          o.trans b c a]

/-- **The changes are in the order of their paths**, directories first, in whatever locale. -/
theorem changes_sorted {D : Type} (env : Env D) (o : Collator) (patch cacheKeyPrefix : Text) :
    (parseFileChanges { env with localeCompare := o.localeCompare } patch cacheKeyPrefix).changes.Pairwise
      fun a b => compareFilePaths o.localeCompare a.path b.path ≤ 0 := by
  simp only [parseFileChanges, parseChanges, bind, Except.bind, pure, Except.pure]
  split
  next changes h =>
    split at h
    · cases h
    split at h
    · cases h
    · cases h
      refine (pairwise_mergeSort ?_ ?_ _).imp of_decide_eq_true
      · intro a b c
        simp only [decide_eq_true_eq]
        exact compareParts_trans o
      · intro a b
        simp only [Bool.or_eq_true, decide_eq_true_eq]
        exact compareParts_total o _ _
  · exact .nil

def changedLine (path : UInt8) (text : Text) (clean : LF ∉ text) : FilePatch where
  oldPath := [path]
  newPath := [path]
  extended := [.index ⟨[1]⟩ ⟨[2]⟩ (some .file)]
  body := .hunks ⟨[], [⟨.deletion, ⟨js "x", true, by decide⟩⟩, ⟨.addition, ⟨text, true, clean⟩⟩], [], not_mem_nil⟩ []

def metadataOf (name : String) : FileDiffMetadata Unit := ⟨js name, none, .change, [⟨1, 1⟩], ()⟩

def twoFiles : Env Unit where
  parsePatchFiles _ := .ok [[metadataOf "a", metadataOf "b"]]
  stringify m filePatch := m.name ++ filePatch
  localeCompare a b := if a < b then -1 else if b < a then 1 else 0

instance : Inhabited Collator := ⟨⟨twoFiles.localeCompare, by grind [twoFiles], by grind [twoFiles]⟩⟩

/-- A carriage return, and the beginning of a file in a line, do not matter each by itself. -/
def twoChanges : List FilePatch :=
  [changedLine 0x61 (js "y\r") (by decide), changedLine 0x62 (js "diff --git ") (by decide)]

theorem parseFileChanges_two :
    KeepsOwn (parseFileChanges twoFiles (render twoChanges) (js "p")) [metadataOf "a", metadataOf "b"] twoChanges ∧
      (splitFilePatches (render twoChanges)).flatten = render twoChanges ∧
      ((parseFileChanges twoFiles (render twoChanges) (js "p")).changes.map (·.id)).Nodup :=
  (parseFileChanges_iff twoFiles (js "p") twoChanges [[metadataOf "a", metadataOf "b"]] rfl rfl).mpr
    (.inr (by decide +kernel))

/-- Behind a carriage return the beginning of a file is seen, and the files behind it get the wrong patches. -/
theorem return_splits : ¬ ∀ (env : Env Unit) (cacheKeyPrefix : Text) (files : List FilePatch)
    (parsed : List (List (FileDiffMetadata Unit))), env.parsePatchFiles (render files) = .ok parsed →
      parsed.flatten.length = files.length →
      KeepsOwn (parseFileChanges env (render files) cacheKeyPrefix) parsed.flatten files := by
  intro h
  have hkeeps := (keepsOwn_iff rfl rfl).mp (h twoFiles (js "p")
    [changedLine 0x61 (js "y\rdiff --git ") (by decide), changedLine 0x62 (js "y") (by decide)]
    [[metadataOf "a", metadataOf "b"]] rfl rfl)
  obtain ⟨m, hm, hname⟩ | hunsplit := hkeeps
  · simp only [flatten_cons, flatten_nil, append_nil, mem_cons, not_mem_nil, or_false] at hm
    obtain rfl | rfl := hm
    · exact hname ⟨_, rfl⟩
    · exact hname ⟨_, rfl⟩
  · exact absurd hunsplit (by decide +kernel)

end Reins.FileChanges
