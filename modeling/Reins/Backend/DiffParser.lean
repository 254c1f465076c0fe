import Reins.Backend.CodeReviews
import Reins.Lib.TextStream
import Reins.Lib.UnifiedDiff

/-!
# The diff parser (`backend/src/models/diff-parser.ts`)

`parsePatch` reads a patch line by line. What git renders is `UnifiedDiff.render`.
-/

namespace Reins.DiffParser

open Utf UnifiedDiff List

inductive LinePrefix
  | plus
  | minus
  | blank
  deriving DecidableEq

structure ParsedLine where
  linePrefix : LinePrefix
  text : Text
  deriving DecidableEq

structure ParsedHunk where
  header : Text
  oldStart : Nat
  newStart : Nat
  lines : List ParsedLine
  deriving DecidableEq

structure ParsedFile where
  path : Text
  hunks : List ParsedHunk
  deriving DecidableEq

inductive LineType
  | context
  | add
  | remove
  deriving DecidableEq

structure DiffLine where
  type : LineType
  text : Text
  oldLine : Option Nat
  newLine : Option Nat
  deriving DecidableEq

structure DiffHunk where
  header : Text
  lines : List DiffLine
  deriving DecidableEq

structure DiffFile where
  path : Text
  additions : Nat
  removals : Nat
  hunks : List DiffHunk
  deriving DecidableEq

/-! ## `parseUnifiedDiff` -/

/-- What `.` in a pattern stands for: any unit that ends no line. -/
def isDot (u : UInt16) : Bool := u ≠ 0x0A && u ≠ 0x0D && u ≠ 0x2028 && u ≠ 0x2029

/-- What follows `.*? b/`. -/
def afterSeparator : Text → Option Text
  | [] => none
  | u :: rest =>
    match Search.after (js " b/") (u :: rest) with
    | some r => some r
    | none => if isDot u then afterSeparator rest else none

/-- The second group of `diff --git a\/(.*?) b\/(.*)`, where it first matches. -/
def matchPath : Text → Option Text
  | [] => none
  | u :: rest =>
    match (Search.after (js "diff --git a/") (u :: rest)).bind afterSeparator with
    | some r => some (r.takeWhile isDot)
    | none => matchPath rest

/-- The two starts of `@@ -(\d+)(?:,\d+)? \+(\d+)(?:,\d+)? @@`, where it first matches; 0 where it does not. -/
def matchStarts : Text → Nat × Nat
  | [] => (0, 0)
  | u :: rest =>
    match readHeader (u :: rest) with
    | some digits => (readNat digits.oldStart, readNat digits.newStart)
    | none => matchStarts rest

def startsWith (line : Text) (s : String) : Bool := (js s).isPrefixOf line

def isHeaderLine (line : Text) : Bool :=
  startsWith line "index " || startsWith line "---" || startsWith line "+++" || startsWith line "new file mode" ||
    startsWith line "deleted file mode" || startsWith line "old mode" || startsWith line "new mode" ||
    startsWith line "rename from" || startsWith line "rename to" || startsWith line "similarity index" ||
    startsWith line "Binary files"

structure Parser where
  files : List ParsedFile
  currentFile : Option ParsedFile
  currentHunk : Option ParsedHunk

def Parser.file (p : Parser) : Option ParsedFile :=
  p.currentFile.map fun f => { f with hunks := f.hunks ++ p.currentHunk.toList }

def Parser.all (p : Parser) : List ParsedFile := p.files ++ p.file.toList

def Parser.push (p : Parser) (line : ParsedLine) : Parser :=
  { p with currentHunk := p.currentHunk.map fun h => { h with lines := h.lines ++ [line] } }

def parseLine (p : Parser) (line : Text) : Parser :=
  if startsWith line "diff --git" then ⟨p.all, some ⟨(matchPath line).getD line, []⟩, none⟩
  else if isHeaderLine line then p
  else if startsWith line "@@" then
    match p.file with
    | none => p
    | some file =>
      { p with
        currentFile := some file
        currentHunk := some ⟨line, (matchStarts line).1, (matchStarts line).2, []⟩ }
  else if p.currentHunk.isSome then
    if startsWith line "+" then p.push ⟨.plus, line.drop 1⟩
    else if startsWith line "-" then p.push ⟨.minus, line.drop 1⟩
    else if startsWith line " " then p.push ⟨.blank, line.drop 1⟩
    else p
  else p

def parseUnifiedDiff (raw : Text) : List ParsedFile :=
  if CodeReviews.trim raw = [] then [] else ((raw.splitOn LF).foldl parseLine ⟨[], none, none⟩).all

/-! ## `parsePatch` -/

/-- A hunk's lines with their numbers, from the next one on either side. -/
def numberLines : Nat → Nat → List ParsedLine → List DiffLine
  | _, _, [] => []
  | oldLineNo, newLineNo, line :: lines =>
    match line.linePrefix with
    | .plus => ⟨.add, line.text, none, some newLineNo⟩ :: numberLines oldLineNo (newLineNo + 1) lines
    | .minus => ⟨.remove, line.text, some oldLineNo, none⟩ :: numberLines (oldLineNo + 1) newLineNo lines
    | .blank =>
      ⟨.context, line.text, some oldLineNo, some newLineNo⟩ :: numberLines (oldLineNo + 1) (newLineNo + 1) lines

def ParsedFile.count (file : ParsedFile) (linePrefix : LinePrefix) : Nat :=
  (file.hunks.map fun h => h.lines.countP (·.linePrefix = linePrefix)).sum

def diffFile (file : ParsedFile) : DiffFile where
  path := file.path
  additions := file.count .plus
  removals := file.count .minus
  hunks := file.hunks.map fun h => ⟨h.header, numberLines h.oldStart h.newStart h.lines⟩

def parsePatch (raw : Text) : List DiffFile := (parseUnifiedDiff raw).map diffFile

/-! ## What there is to read -/

def toldLines : Nat → Nat → List Edit → List DiffLine
  | _, _, [] => []
  | old, new, e :: es =>
    match e.kind with
    | .addition => ⟨.add, e.line.text, none, some new⟩ :: toldLines old (new + 1) es
    | .deletion => ⟨.remove, e.line.text, some old, none⟩ :: toldLines (old + 1) new es
    | .context => ⟨.context, e.line.text, some old, some new⟩ :: toldLines (old + 1) (new + 1) es

def toldHunks : Nat → Nat → List Hunk → List DiffHunk
  | _, _, [] => []
  | old, new, h :: hs =>
    ⟨h.header (old + h.skipped.length) (new + h.skipped.length),
      toldLines (old + h.skipped.length + 1) (new + h.skipped.length + 1) h.edits⟩ ::
      toldHunks (old + h.skipped.length + (oldSide h.edits).length) (new + h.skipped.length + (newSide h.edits).length)
        hs

def startNumber (start : Nat) (side : List Line) : Nat := if side.length = 0 then start else start + 1

def toldStarts : Nat → Nat → List Hunk → List (Nat × Nat)
  | _, _, [] => []
  | old, new, h :: hs =>
    (startNumber (old + h.skipped.length) (oldSide h.edits), startNumber (new + h.skipped.length) (newSide h.edits)) ::
      toldStarts (old + h.skipped.length + (oldSide h.edits).length) (new + h.skipped.length + (newSide h.edits).length)
        hs

def countEdits (kind : Kind) (hunks : List Hunk) : Nat := (hunks.map fun h => h.edits.countP (·.kind = kind)).sum

structure Told (parsed : ParsedFile × DiffFile) (f : FilePatch) : Prop where
  path : encodeUnits parsed.2.path = f.newPath
  starts : parsed.1.hunks.map (fun h => (h.oldStart, h.newStart)) = toldStarts 0 0 f.hunks
  additions : parsed.2.additions = countEdits .addition f.hunks
  removals : parsed.2.removals = countEdits .deletion f.hunks
  hunks : parsed.2.hunks = toldHunks 0 0 f.hunks

def ToldAll (raw : Text) (files : List FilePatch) : Prop :=
  List.Forall₂ Told ((parseUnifiedDiff raw).zip (parsePatch raw)) files

/-! ## What is read of hunks -/

/-- An added line that begins with `++`, or a removed one with `--`: behind its mark it looks like a header. -/
def Lost (e : Edit) : Prop :=
  e.kind = .addition ∧ js "++" <+: e.line.text ∨ e.kind = .deletion ∧ js "--" <+: e.line.text

instance (e : Edit) : Decidable (Lost e) := inferInstanceAs (Decidable (_ ∨ _))

def prefixOf : Kind → LinePrefix
  | .addition => .plus
  | .deletion => .minus
  | .context => .blank

def keptLine (e : Edit) : Option ParsedLine := if Lost e then none else some ⟨prefixOf e.kind, e.line.text⟩

def parsedHunks : Nat → Nat → List Hunk → List ParsedHunk
  | _, _, [] => []
  | old, new, h :: hs =>
    ⟨h.header (old + h.skipped.length) (new + h.skipped.length),
      startNumber (old + h.skipped.length) (oldSide h.edits), startNumber (new + h.skipped.length) (newSide h.edits),
      h.edits.filterMap keptLine⟩ ::
      parsedHunks (old + h.skipped.length + (oldSide h.edits).length)
        (new + h.skipped.length + (newSide h.edits).length) hs

section

variable {p : Parser} {e : Edit} {edits : List Edit} {hs : List Hunk} {hunk : ParsedHunk} {file : ParsedFile}
  {old new : Nat} {line : Text}

theorem isHeaderLine_mark (e : Edit) : isHeaderLine (e.kind.mark :: e.line.text) = decide (Lost e) := by
  -- of the patterns one begins with the mark
  have hplus : isHeaderLine (0x2B :: e.line.text) = (js "++").isPrefixOf e.line.text := by
    change (false || false || (js "++").isPrefixOf e.line.text || false || false || false || false || false || false ||
      false || false) = _
    simp
  have hminus : isHeaderLine (0x2D :: e.line.text) = (js "--").isPrefixOf e.line.text := by
    change (false || (js "--").isPrefixOf e.line.text || false || false || false || false || false || false || false ||
      false || false) = _
    simp
  rw [Bool.eq_iff_iff, decide_eq_true_eq, Lost]
  cases hkind : e.kind with
  | context => simp [show isHeaderLine (0x20 :: e.line.text) = false from rfl, Kind.mark]
  | addition => simp [Kind.mark, hplus]
  | deletion => simp [Kind.mark, hminus]

theorem parseLine_edit (hunk : p.currentHunk.isSome) (e : Edit) : parseLine p (e.kind.mark :: e.line.text) =
      match keptLine e with
      | some line => p.push line
      | none => p := by
  have hgit : startsWith (e.kind.mark :: e.line.text) "diff --git" = false := by cases e.kind <;> rfl
  have hat : startsWith (e.kind.mark :: e.line.text) "@@" = false := by cases e.kind <;> rfl
  simp only [parseLine, hgit, hat, isHeaderLine_mark, keptLine, hunk, Bool.false_eq_true, if_false, if_true]
  by_cases hlost : Lost e
  · simp [hlost]
  · simp only [hlost, decide_false, Bool.false_eq_true, if_false]
    cases hkind : e.kind <;> rfl

theorem parseLine_noNewline (p : Parser) : parseLine p noNewline = p := by
  have hmark : startsWith noNewline "+" = false ∧ startsWith noNewline "-" = false ∧
      startsWith noNewline " " = false := by
    decide
  simp only [parseLine, show startsWith noNewline "diff --git" = false by decide,
    show isHeaderLine noNewline = false by decide, show startsWith noNewline "@@" = false by decide, hmark,
    Bool.false_eq_true, if_false, ite_self]

theorem foldl_edits (hhunk : p.currentHunk = some hunk) : (edits.flatMap Edit.lines).foldl parseLine p =
      { p with currentHunk := some { hunk with lines := hunk.lines ++ edits.filterMap keptLine } } := by
  induction edits generalizing p hunk with
  | nil =>
    rw [filterMap_nil, append_nil, ← hhunk]
    rfl
  | cons e edits ih =>
    have hsome : p.currentHunk.isSome := by rw [hhunk]; rfl
    have hline : (Edit.lines e).foldl parseLine p = parseLine p (e.kind.mark :: e.line.text) := by
      unfold Edit.lines
      split
      · rfl
      · exact parseLine_noNewline _
    rw [flatMap_cons, foldl_append, hline, parseLine_edit hsome]
    cases hkept : keptLine e with
    | none =>
      rw [filterMap_cons_none hkept]
      exact ih hhunk
    | some line =>
      have hpush : (p.push line).currentHunk = some { hunk with lines := hunk.lines ++ [line] } := by
        rw [Parser.push, hhunk]
        rfl
      rw [filterMap_cons_some hkept]
      refine (ih hpush).trans ?_
      rw [append_assoc]
      rfl

theorem startNumber_eq (start : Nat) (side : List Line) :
    readNat (decimal (if side.length = 0 then start else start + 1)) = startNumber start side := readNat_decimal _

theorem matchStarts_header (old new : Nat) (h : Hunk) :
    matchStarts (h.header old new) = (startNumber old (oldSide h.edits), startNumber new (newSide h.edits)) := by
  have hcons : ∃ rest, h.header old new = 0x40 :: rest := ⟨_, rfl⟩
  obtain ⟨rest, hrest⟩ := hcons
  have hread := readHeader_header old new h
  rw [hrest] at hread ⊢
  rw [matchStarts, hread]
  exact Prod.ext (startNumber_eq _ _) (startNumber_eq _ _)

theorem parseLine_header (hfile : p.file = some file) (old new : Nat) (h : Hunk) : parseLine p (h.header old new) =
      { p with
        currentFile := some file
        currentHunk := some
          ⟨h.header old new, startNumber old (oldSide h.edits), startNumber new (newSide h.edits), []⟩ } := by
  have hgit : startsWith (h.header old new) "diff --git" = false := rfl
  have hheader : isHeaderLine (h.header old new) = false := rfl
  have hat : startsWith (h.header old new) "@@" = true := rfl
  simp [parseLine, hgit, hheader, hat, hfile, matchStarts_header]

theorem foldl_hunks (hfile : p.file = some file) (old new : Nat) (hs : List Hunk) :
    ((hunkLines old new hs).foldl parseLine p).files = p.files ∧ ((hunkLines old new hs).foldl parseLine p).file =
        some { file with hunks := file.hunks ++ parsedHunks old new hs } := by
  induction hs generalizing p file old new with
  | nil => simp [hunkLines, parsedHunks, hfile]
  | cons h hs ih =>
    rw [hunkLines, cons_append, foldl_cons, foldl_append, parseLine_header hfile, foldl_edits rfl]
    dsimp only
    obtain ⟨hfiles, hall⟩ := ih (p := ⟨p.files, some file, some _⟩) rfl
      (old + h.skipped.length + (oldSide h.edits).length) (new + h.skipped.length + (newSide h.edits).length)
    refine ⟨hfiles, hall.trans ?_⟩
    simp [parsedHunks]

/-! ## What is read of a patch -/

variable {f : FilePatch} {files : List FilePatch}

def parsedFile (f : FilePatch) : ParsedFile := ⟨(matchPath f.first).getD f.first, parsedHunks 0 0 f.hunks⟩

theorem startsWith_extended (e : Extended) :
    startsWith e.text "diff --git" = false ∧ startsWith e.text "@@" = false := by
  cases e <;> exact ⟨rfl, rfl⟩

theorem startsWith_headerLines (h : line ∈ f.headerLines) :
    startsWith line "diff --git" = false ∧ startsWith line "@@" = false := by
  rcases mem_append.mp h with h | h
  · obtain ⟨e, -, rfl⟩ := mem_map.mp h
    exact startsWith_extended e
  cases hbody : f.body with
  | none => simp [hbody] at h
  | binary =>
    simp only [hbody, mem_singleton] at h
    rw [h]
    exact ⟨rfl, rfl⟩
  | hunks first more =>
    simp only [hbody, mem_cons, not_mem_nil, or_false] at h
    rcases h with rfl | rfl
    · exact ⟨rfl, rfl⟩
    · exact ⟨rfl, rfl⟩

theorem parseLine_ignored (hhunk : p.currentHunk = none) (hgit : startsWith line "diff --git" = false)
    (hat : startsWith line "@@" = false) : parseLine p line = p := by
  simp [parseLine, hgit, hat, hhunk]

theorem foldl_headerLines {ls : List Text} (hls : ∀ line ∈ ls, line ∈ f.headerLines) (hhunk : p.currentHunk = none) :
    ls.foldl parseLine p = p := by
  induction ls with
  | nil => rfl
  | cons line ls ih =>
    obtain ⟨hgit, hat⟩ := startsWith_headerLines (hls line (mem_cons_self ..))
    rw [foldl_cons, parseLine_ignored hhunk hgit hat]
    exact ih fun line' h => hls line' (mem_cons_of_mem line h)

theorem foldl_file (p : Parser) (f : FilePatch) : (f.lines.foldl parseLine p).all = p.all ++ [parsedFile f] := by
  have hgit : startsWith f.first "diff --git" = true := rfl
  rw [FilePatch.lines, cons_append, foldl_cons, foldl_append]
  have hfirst : parseLine p f.first = ⟨p.all, some ⟨(matchPath f.first).getD f.first, []⟩, none⟩ := by
    simp [parseLine, hgit]
  rw [hfirst, foldl_headerLines (fun _ h => h) rfl]
  obtain ⟨hfiles, hfile⟩ := foldl_hunks
    (p := ⟨p.all, some ⟨(matchPath f.first).getD f.first, []⟩, none⟩) rfl 0 0 f.hunks
  rw [Parser.all, hfiles, hfile]
  rfl

theorem foldl_files (p : Parser) (files : List FilePatch) :
    ((files.flatMap FilePatch.lines).foldl parseLine p).all = p.all ++ files.map parsedFile := by
  induction files generalizing p with
  | nil => exact (append_nil _).symm
  | cons f files ih =>
    rw [flatMap_cons, foldl_append, ih, foldl_file, append_assoc]
    rfl

theorem parseLine_nil (p : Parser) : parseLine p [] = p := by
  cases hhunk : p.currentHunk <;>
    simp [parseLine, hhunk, show startsWith [] "diff --git" = false from rfl, show isHeaderLine [] = false from rfl,
      show startsWith [] "@@" = false from rfl, show startsWith [] "+" = false from rfl,
      show startsWith [] "-" = false from rfl, show startsWith [] " " = false from rfl]

/-- **Each file of a patch is read by itself.** -/
theorem parseUnifiedDiff_render (files : List FilePatch) : parseUnifiedDiff (render files) = files.map parsedFile := by
  cases files with
  | nil => rfl
  | cons f files =>
    have hblank : CodeReviews.trim (render (f :: files)) ≠ [] := by
      obtain ⟨rest, hrest⟩ : ∃ rest, render (f :: files) = 0x64 :: rest := ⟨_, rfl⟩
      have hd : CodeReviews.isWhiteSpace 0x64 = false := by decide
      rw [hrest]
      unfold CodeReviews.trim
      rw [dropWhile_cons_of_neg (by simp [hd])]
      intro hnil
      have := dropWhile_eq_nil_iff.mp (reverse_eq_nil_iff.mp hnil) 0x64 (by simp)
      cases hd.symm.trans this
    rw [parseUnifiedDiff, if_neg hblank, splitOn_render, foldl_append, foldl_cons, parseLine_nil,
      foldl_nil, foldl_files]
    rfl

end

/-! ## Paths -/

/-- In the header, no ` b/` follows the first `diff --git a/` but the one between the names. -/
def Separates (oldPath : List UInt8) : Prop :=
  ∃ rest, Search.afterFirst (js "diff --git a/") (js "diff --git " ++ oldName oldPath) = some rest ∧
    ¬js " b/" <:+: rest

def PathRead (f : FilePatch) : Prop := f.newPath.all Quoting.isPlain = true ∧ Separates f.oldPath

section

variable {s t : Text} {f : FilePatch} {path : List UInt8} {u : UInt16}

theorem isDot_of_simple (h : Simple u) : isDot u = true := by
  have hne (v : UInt16) (hv : ¬Simple v) : u ≠ v := fun e => hv (e ▸ h)
  simp [isDot, hne 0x0A (by decide), hne 0x0D (by decide), hne 0x2028 (by decide), hne 0x2029 (by decide)]

theorem afterSeparator_of_simple (h : AllSimple s) : afterSeparator s = Search.afterFirst (js " b/") s := by
  induction s with
  | nil => rfl
  | cons u s ih =>
    rw [afterSeparator, Search.afterFirst, isDot_of_simple (h u (mem_cons_self ..)), if_pos rfl,
      ih fun v hv => h v (mem_cons_of_mem u hv)]
    cases Search.after (js " b/") (u :: s) <;> rfl

theorem takeWhile_isDot (h : AllSimple s) : s.takeWhile isDot = s :=
  takeWhile_eq_self_iff.mpr fun u hu => isDot_of_simple (h u hu)

theorem matchPath_of_simple (h : AllSimple s) :
    matchPath s = (Search.afterFirst (js "diff --git a/") s).bind (Search.afterFirst (js " b/")) := by
  induction s with
  | nil => rfl
  | cons u s ih =>
    have hs : AllSimple s := fun v hv => h v (mem_cons_of_mem u hv)
    rw [matchPath, Search.afterFirst]
    cases hafter : Search.after (js "diff --git a/") (u :: s) with
    | none => exact ih hs
    | some r =>
      have heq := Search.after_eq_some_iff.mp hafter
      have hr : AllSimple r := h.of_suffix ⟨_, heq.symm⟩
      simp only [Option.bind_some, afterSeparator_of_simple hr]
      cases hsep : Search.afterFirst (js " b/") r with
      | some r' =>
        obtain ⟨w, hw⟩ := Search.afterFirst_eq_some hsep
        dsimp only
        rw [takeWhile_isDot (hr.of_suffix ⟨_, hw.symm⟩)]
      | none =>
        -- a later match would have its separator behind this one's beginning too
        dsimp only
        rw [ih hs]
        cases hlater : Search.afterFirst (js "diff --git a/") s with
        | none => rfl
        | some r' =>
          obtain ⟨w, hw⟩ := Search.afterFirst_eq_some hlater
          have hsuffix : r' <:+ r := by
            have hs' : r' <:+ u :: s := ⟨u :: w ++ js "diff --git a/", by rw [hw]; simp⟩
            refine suffix_of_suffix_length_le hs' ⟨_, heq.symm⟩ ?_
            have hlength := congrArg List.length heq
            have hlength' := congrArg List.length hw
            simp only [length_append, length_cons] at hlength hlength'
            omega
          have hnone := (Search.afterFirst_eq_none_iff (by decide)).mp hsep
          exact (Search.afterFirst_eq_none_iff (by decide)).mpr fun hin => hnone (hin.trans hsuffix.isInfix)

theorem encodeUnits_eq_iff (h : AllSimple s) : encodeUnits s = path ↔ s = path.map UInt8.toUInt16 := by
  have hlt : ∀ u ∈ s, u.toNat < 0x80 := by
    intro u hu
    rcases h u hu with rfl | ⟨-, hlt⟩
    · decide
    · omega
  have hbytes : ∀ u ∈ s, u.toUInt8.toNat = u.toNat := fun u hu => by
    have := hlt u hu
    rw [UInt16.toNat_toUInt8, Nat.mod_eq_of_lt (by omega)]
  have hascii : ∀ b ∈ s.map UInt16.toUInt8, b.toNat < 0x80 := by
    intro b hb
    obtain ⟨u, hu, rfl⟩ := mem_map.mp hb
    rw [hbytes u hu]
    exact hlt u hu
  have hunits : (s.map UInt16.toUInt8).map UInt8.toUInt16 = s := by
    rw [map_map, map_congr_left (g := id), map_id]
    intro u hu
    refine UInt16.toNat_inj.mp ?_
    rw [Function.comp_apply, UInt8.toNat_toUInt16, hbytes u hu]
    rfl
  have hencoded : encodeUnits s = s.map UInt16.toUInt8 := by
    rw [← encodeUnits_ascii hascii, hunits]
  constructor
  · rintro rfl
    rw [hencoded, hunits]
  rintro rfl
  rw [hencoded, map_map, map_congr_left (g := id), map_id]
  intro b _
  exact UInt8.toNat_inj.mp (by simp)

theorem newName_of_plain (h : path.all Quoting.isPlain = true) : newName path = js "b/" ++ path.map UInt8.toUInt16 := by
  have hall : (0x62 :: 0x2F :: path : List UInt8).all Quoting.isPlain = true := h
  rw [newName, sideName, quotedText, Quoting.quoted_of_plain hall]
  rfl

theorem newName_of_not_plain (h : path.all Quoting.isPlain = false) :
    newName path = Quoting.quote.toUInt16 :: (js "b/" ++ (path.flatMap Quoting.escape).map UInt8.toUInt16 ++
      [Quoting.quote.toUInt16]) := by
  have hall : (0x62 :: 0x2F :: path : List UInt8).all Quoting.isPlain = false := h
  have hescaped : (0x62 :: 0x2F :: path : List UInt8).flatMap Quoting.escape =
      0x62 :: 0x2F :: path.flatMap Quoting.escape := rfl
  rw [newName, sideName, quotedText, Quoting.quoted_of_not_plain hall, hescaped, map_append, map_cons,
    map_cons, map_cons]
  rfl

/-- The name of a header's first line that is last is longer than the path. -/
theorem length_lt_newName (path : List UInt8) : path.length < (newName path).length := by
  cases h : path.all Quoting.isPlain with
  | true =>
    rw [newName_of_plain h, length_append, length_map]
    exact Nat.lt_add_of_pos_left (by decide)
  | false =>
    have := Quoting.length_le_flatMap_escape path
    rw [newName_of_not_plain h, length_cons, length_append, length_append, length_map]
    omega

theorem length_lt_first (f : FilePatch) : f.newPath.length < f.first.length := by
  have := length_lt_newName f.newPath
  rw [FilePatch.first, length_append, length_cons]
  omega

theorem matchPath_eq_some {path : Text} (h : matchPath f.first = some path) :
    ∃ w v, f.first = w ++ js "diff --git a/" ++ v ++ js " b/" ++ path := by
  rw [matchPath_of_simple (simple_first f), Option.bind_eq_some_iff] at h
  obtain ⟨r, hr, hpath⟩ := h
  obtain ⟨w, hw⟩ := Search.afterFirst_eq_some hr
  obtain ⟨v, rfl⟩ := Search.afterFirst_eq_some hpath
  exact ⟨w, v, by simpa using hw⟩

/-- The path that is read is that of the new name, if this is plain, just if the old one does not end early. -/
theorem matchPath_plain_iff (h : f.newPath.all Quoting.isPlain = true) :
    (matchPath f.first).getD f.first = f.newPath.map UInt8.toUInt16 ↔ Separates f.oldPath := by
  have hfirst : f.first = js "diff --git " ++ oldName f.oldPath ++ (js " b/" ++ f.newPath.map UInt8.toUInt16) := by
    rw [FilePatch.first, newName_of_plain h]
    rfl
  cases hrest : Search.afterFirst (js "diff --git a/") (js "diff --git " ++ oldName f.oldPath) with
  | none =>
    refine iff_of_false (fun heq => ?_) (fun ⟨rest, hsome, _⟩ => nomatch hrest.symm.trans hsome)
    cases hmatch : matchPath f.first with
    | none =>
      have hlength := congrArg List.length heq
      have := length_lt_first f
      rw [hmatch, Option.getD_none, length_map] at hlength
      omega
    | some path =>
      rw [hmatch, Option.getD_some] at heq
      obtain ⟨w, v, hw⟩ := matchPath_eq_some hmatch
      rw [hfirst, heq, ← append_assoc, append_left_inj, append_left_inj] at hw
      exact (Search.afterFirst_eq_none_iff (by decide)).mp hrest ⟨w, v, hw.symm⟩
  | some rest =>
    rw [matchPath_of_simple (simple_first f), hfirst, Search.afterFirst_append_of_some hrest, Option.bind_some]
    have hseparates : Separates f.oldPath ↔ Search.afterFirst (js " b/") rest = none := by
      rw [Search.afterFirst_eq_none_iff (by decide)]
      exact ⟨fun ⟨_, hsome, hno⟩ => Option.some.inj (hrest.symm.trans hsome) ▸ hno, fun hno => ⟨rest, hrest, hno⟩⟩
    rw [hseparates]
    cases hsep : Search.afterFirst (js " b/") rest with
    | none =>
      have := Search.afterFirst_append_of_none (c := 0x20) (q := [0x62, 0x2F]) (by decide) hsep
        (f.newPath.map UInt8.toUInt16)
      exact iff_of_true (by rw [show js " b/" = [0x20, 0x62, 0x2F] from rfl, this]; rfl) rfl
    | some r =>
      rw [Search.afterFirst_append_of_some hsep]
      refine iff_of_false (fun heq => ?_) nofun
      have := congrArg List.length heq
      simp only [Option.getD_some, length_append] at this
      have hpos : 0 < (js " b/").length := by decide
      omega

/-- A quoted path is not read: it has as many spaces as its name, and a match needs one more. -/
theorem matchPath_quoted (h : f.newPath.all Quoting.isPlain = false) :
    (matchPath f.first).getD f.first ≠ f.newPath.map UInt8.toUInt16 := by
  intro heq
  cases hmatch : matchPath f.first with
  | none =>
    have hlength := congrArg List.length heq
    have := length_lt_first f
    rw [hmatch, Option.getD_none, length_map] at hlength
    omega
  | some path =>
    rw [hmatch, Option.getD_some] at heq
    obtain ⟨w, v, hw⟩ := matchPath_eq_some hmatch
    have hlong := Quoting.length_le_flatMap_escape f.newPath
    have hsuffix : js " b/" ++ path <:+ newName f.newPath := by
      have hfirst : js " b/" ++ path <:+ f.first := ⟨w ++ js "diff --git a/" ++ v, by rw [hw]; simp⟩
      refine suffix_of_suffix_length_le hfirst
        ⟨js "diff --git " ++ oldName f.oldPath ++ [space], by simp [FilePatch.first]⟩ ?_
      have hb : (js " b/").length = 3 ∧ (js "b/").length = 2 := by decide
      rw [newName_of_not_plain h, heq]
      simp only [length_append, length_cons, length_map, length_nil, hb]
      omega
    have hcount := hsuffix.sublist.count_le space
    have hmap (bs : List UInt8) : (bs.map UInt8.toUInt16).count space = bs.count 0x20 := by
      rw [List.count, countP_map, List.count]
      refine countP_congr fun b _ => ?_
      simp [space, ← UInt16.toNat_inj, ← UInt8.toNat_inj]
    rw [newName_of_not_plain h, heq, count_cons, count_append, count_append, count_append, hmap,
      hmap, Quoting.count_flatMap_escape] at hcount
    have hb : (js " b/").count space = 1 ∧ (js "b/").count space = 0 ∧ [Quoting.quote.toUInt16].count space = 0 ∧
        (Quoting.quote.toUInt16 == space) = false := by decide
    rw [hb.1, hb.2.1, hb.2.2.1, hb.2.2.2] at hcount
    simp at hcount

theorem path_told_iff (f : FilePatch) : encodeUnits (parsedFile f).path = f.newPath ↔ PathRead f := by
  have hsimple : AllSimple ((matchPath f.first).getD f.first) := by
    cases hmatch : matchPath f.first with
    | none => exact simple_first f
    | some path =>
      obtain ⟨w, v, hw⟩ := matchPath_eq_some hmatch
      exact (simple_first f).of_suffix ⟨_, hw.symm⟩
  rw [parsedFile, encodeUnits_eq_iff hsimple, PathRead]
  cases h : f.newPath.all Quoting.isPlain with
  | true => rw [matchPath_plain_iff h, eq_self, true_and]
  | false => exact iff_of_false (matchPath_quoted h) (fun hread => nomatch hread.1)

end

/-! ## Lines and their numbers -/

section

variable {edits : List Edit} {hs : List Hunk} {old new : Nat} {f : FilePatch}

def told (e : Edit) : ParsedLine := ⟨prefixOf e.kind, e.line.text⟩

theorem filterMap_keptLine (edits : List Edit) :
    edits.filterMap keptLine = (edits.filter fun e => ¬Lost e).map told := by
  induction edits with
  | nil => rfl
  | cons e edits ih =>
    by_cases h : Lost e
    · rw [filterMap_cons_none (by simp [keptLine, h]), ih, filter_cons_of_neg (by simpa using h)]
    · rw [filterMap_cons_some (by simp [keptLine, h]; rfl), ih, filter_cons_of_pos (by simpa using h)]
      rfl

theorem numberLines_told {a b : Nat} (hold : oldSide edits ≠ [] → a = old) (hnew : newSide edits ≠ [] → b = new) :
    numberLines a b (edits.map told) = toldLines old new edits := by
  induction edits generalizing a b old new with
  | nil => rfl
  | cons e edits ih =>
    cases hkind : e.kind with
    | addition =>
      have hside : oldSide (e :: edits) = oldSide edits := by simp [oldSide, hkind]
      have hb : b = new := hnew (by simp [newSide, hkind])
      rw [hside] at hold
      simp only [map_cons, told, hkind, prefixOf, numberLines, toldLines, hb]
      exact congrArg _ (ih hold fun _ => rfl)
    | deletion =>
      have hside : newSide (e :: edits) = newSide edits := by simp [newSide, hkind]
      have ha : a = old := hold (by simp [oldSide, hkind])
      rw [hside] at hnew
      simp only [map_cons, told, hkind, prefixOf, numberLines, toldLines, ha]
      exact congrArg _ (ih (fun _ => rfl) hnew)
    | context =>
      have ha : a = old := hold (by simp [oldSide, hkind])
      have hb : b = new := hnew (by simp [newSide, hkind])
      simp only [map_cons, told, hkind, prefixOf, numberLines, toldLines, ha, hb]
      exact congrArg _ (ih (fun _ => rfl) fun _ => rfl)

theorem starts_told (old new : Nat) (hs : List Hunk) :
    (parsedHunks old new hs).map (fun h => (h.oldStart, h.newStart)) = toldStarts old new hs := by
  induction hs generalizing old new with
  | nil => rfl
  | cons h hs ih => rw [parsedHunks, map_cons, toldStarts, ih]

theorem startNumber_of_ne_nil {start : Nat} {side : List Line} (h : side ≠ []) : startNumber start side = start + 1 :=
  if_neg fun hlength => h (length_eq_zero_iff.mp hlength)

theorem hunks_told (h : ∀ hunk ∈ hs, ∀ e ∈ hunk.edits, ¬Lost e) :
    (parsedHunks old new hs).map (fun h => (⟨h.header, numberLines h.oldStart h.newStart h.lines⟩ : DiffHunk)) =
      toldHunks old new hs := by
  induction hs generalizing old new with
  | nil => rfl
  | cons hunk hs ih =>
    have hkept : hunk.edits.filterMap keptLine = hunk.edits.map told := by
      rw [filterMap_keptLine, filter_eq_self.mpr]
      intro e he
      simpa using h hunk (mem_cons_self ..) e he
    rw [parsedHunks, map_cons, toldHunks, hkept, numberLines_told startNumber_of_ne_nil startNumber_of_ne_nil,
      ih fun hunk' hmem => h hunk' (mem_cons_of_mem hunk hmem)]

def allEdits (hs : List Hunk) : List Edit := hs.flatMap (·.edits)

theorem countEdits_eq (kind : Kind) (hs : List Hunk) : countEdits kind hs = (allEdits hs).countP (·.kind = kind) := by
  rw [countEdits, allEdits, countP_flatMap]
  rfl

theorem prefixOf_inj {k k' : Kind} : prefixOf k = prefixOf k' ↔ k = k' := by
  cases k <;> cases k' <;> decide

theorem count_parsed (kind : Kind) (f : FilePatch) :
    (parsedFile f).count (prefixOf kind) = ((allEdits f.hunks).filter fun e => ¬Lost e).countP (·.kind = kind) := by
  have hlines (old new : Nat) (hs : List Hunk) :
      ((parsedHunks old new hs).map fun h => h.lines.countP (·.linePrefix = prefixOf kind)).sum =
        ((allEdits hs).filter fun e => ¬Lost e).countP (·.kind = kind) := by
    induction hs generalizing old new with
    | nil => rfl
    | cons hunk hs ih =>
      have hall : allEdits (hunk :: hs) = hunk.edits ++ allEdits hs := flatMap_cons
      have hprefix : (fun line : ParsedLine => decide (line.linePrefix = prefixOf kind)) ∘ told =
          fun e => decide (e.kind = kind) := funext fun e => decide_eq_decide.mpr prefixOf_inj
      rw [parsedHunks, map_cons, sum_cons, ih, filterMap_keptLine, countP_map, hprefix, hall,
        filter_append, countP_append]
  exact hlines 0 0 f.hunks

theorem count_told_iff (kind : Kind) (f : FilePatch) : (parsedFile f).count (prefixOf kind) = countEdits kind f.hunks ↔
      ∀ e ∈ allEdits f.hunks, Lost e → e.kind ≠ kind := by
  have hsplit := countP_eq_countP_filter_add (allEdits f.hunks) (fun e => decide (e.kind = kind))
    fun e => decide ¬Lost e
  rw [count_parsed, countEdits_eq, hsplit, left_eq_add, countP_eq_zero]
  simp

end

/-! ## What is told -/

/-- The path is read, and no line of the file looks like a header behind its mark. -/
def Reads (f : FilePatch) : Prop := PathRead f ∧ ∀ hunk ∈ f.hunks, ∀ e ∈ hunk.edits, ¬Lost e

theorem told_iff (f : FilePatch) : Told (parsedFile f, diffFile (parsedFile f)) f ↔ Reads f := by
  constructor
  · intro h
    refine ⟨(path_told_iff f).mp h.path, fun hunk hmem e he hlost => ?_⟩
    have hin : e ∈ allEdits f.hunks := mem_flatMap.mpr ⟨hunk, hmem, he⟩
    have hadditions := (count_told_iff .addition f).mp h.additions e hin hlost
    have hremovals := (count_told_iff .deletion f).mp h.removals e hin hlost
    exact hlost.elim (fun hl => hadditions hl.1) fun hl => hremovals hl.1
  · rintro ⟨hpath, hlines⟩
    have hnone : ∀ e ∈ allEdits f.hunks, ¬Lost e := fun e he => by
      obtain ⟨hunk, hmem, he⟩ := mem_flatMap.mp he
      exact hlines hunk hmem e he
    exact ⟨(path_told_iff f).mpr hpath, starts_told 0 0 f.hunks,
      (count_told_iff .addition f).mpr fun e he hlost => absurd hlost (hnone e he),
      (count_told_iff .deletion f).mpr fun e he hlost => absurd hlost (hnone e he), hunks_told hlines⟩

theorem toldAll_render (files : List FilePatch) : ToldAll (render files) files =
      List.Forall₂ Told (files.map fun f => (parsedFile f, diffFile (parsedFile f))) files := by
  rw [ToldAll, parsePatch, parseUnifiedDiff_render, map_map, zip_map']
  rfl

/-- **The parser reads back what git renders** just if each file's new path is plain, its old one does not end early in
the header, and no removed line begins with `--` nor an added one with `++`. -/
theorem parse_inverts_iff (files : List FilePatch) : ToldAll (render files) files ↔ ∀ f ∈ files, Reads f := by
  rw [toldAll_render, forall₂_map_left_iff, forall₂_same]
  exact forall₂_congr fun f _ => told_iff f

def query : FilePatch where
  oldPath := [0x71]
  newPath := [0x71]
  extended := [.index ⟨[1]⟩ ⟨[2]⟩ (some .file)]
  body := .hunks
    ⟨[], [⟨.deletion, ⟨js "-- all", true, by decide⟩⟩, ⟨.context, ⟨js "select 1", true, by decide⟩⟩], [], not_mem_nil⟩ []

theorem comment_lost : ¬ ∀ files : List FilePatch, ToldAll (render files) files := by
  intro h
  have hquery := h [query]
  rw [toldAll_render, map_singleton] at hquery
  cases hquery with
  | cons htold _ => exact absurd htold.removals (by decide +kernel)

end Reins.DiffParser
