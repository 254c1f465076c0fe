import Reins.Lib.Terminators
import Reins.Lib.Throwing
import Reins.Lib.UnifiedDiff
import Reins.Lib.Places

/-!
# A file's patch, applied backwards (`frontend/src/models/changes/patch.ts`)

`reversePatch` takes the resulting file back to the old one, and `extractFile` takes a side of a file that is new or
gone out of its patch. Both read the patch line by line; what they compute may throw.
-/

namespace Reins.Patch

open Utf UnifiedDiff Terminators List

inductive PatchError
  | invalidMarker
  | noHunks
  | lineCounts
  | range
  | content
  | incomplete
  deriving DecidableEq

structure PatchLine where
  kind : Kind
  text : Text
  oldNewline : Bool
  newNewline : Bool
  deriving DecidableEq

structure PatchHunk where
  oldStart : Nat
  oldCount : Nat
  newStart : Nat
  newCount : Nat
  lines : List PatchLine
  deriving DecidableEq

structure TextLine where
  text : Text
  newline : Bool
  deriving DecidableEq

/-! ## `parseHunks` -/

/-- The matches of `/.*(?:\n|$)/g`, each without its line feed: of a line, what follows its last inner terminator. -/
def physicalLines (patch : Text) : List Text := (patch.splitOn LF).map lastPiece

/-- The hunks before the current one, and the current one; its last line is the previous one. -/
structure Parsing where
  hunks : List PatchHunk
  current : Option PatchHunk

def Parsing.all (p : Parsing) : List PatchHunk := p.hunks ++ p.current.toList

def headerHunk (digits : HeaderDigits) : PatchHunk where
  oldStart := readNat digits.oldStart
  oldCount := (digits.oldCount.map readNat).getD 1
  newStart := readNat digits.newStart
  newCount := (digits.newCount.map readNat).getD 1
  lines := []

def kindOf (mark : UInt16) : Option Kind :=
  if mark = 0x20 then some .context
  else if mark = 0x2B then some .addition
  else if mark = 0x2D then some .deletion
  else none

def PatchLine.withoutNewline (line : PatchLine) : PatchLine :=
  { line with
    oldNewline := if line.kind = .addition then line.oldNewline else false
    newNewline := if line.kind = .deletion then line.newNewline else false }

def parseLine (p : Parsing) (line : Text) : Except PatchError Parsing :=
  match readHeader line with
  | some digits => .ok ⟨p.all, some (headerHunk digits)⟩
  | none =>
    match p.current with
    | none => .ok p
    | some current =>
      if line = noNewline then
        match current.lines.getLast? with
        | none => .error .invalidMarker
        | some previous =>
          .ok { p with current := some { current with lines := current.lines.dropLast ++ [previous.withoutNewline] } }
      else
        match line with
        | [] => .ok p
        | mark :: text =>
          match kindOf mark with
          | none => .ok p
          | some kind =>
            .ok { p with current := some { current with lines := current.lines ++ [⟨kind, text, true, true⟩] } }

def PatchHunk.countsMatch (hunk : PatchHunk) : Bool :=
  (hunk.lines.filter (·.kind ≠ .addition)).length = hunk.oldCount &&
    (hunk.lines.filter (·.kind ≠ .deletion)).length = hunk.newCount

def parseHunks (patch : Text) (allowEmpty : Bool) : Except PatchError (List PatchHunk) := do
  let parsing ← (physicalLines patch).foldlM parseLine ⟨[], none⟩
  if parsing.all = [] && !allowEmpty then .error .noHunks
  else if parsing.all.all (·.countsMatch) then .ok parsing.all
  else .error .lineCounts

def rangeIndex (start count : Nat) : Int := if count = 0 then start else start - 1

/-! ## Texts -/

def splitText : Text → List TextLine
  | [] => []
  | u :: rest =>
    if u = LF then ⟨[], true⟩ :: splitText rest
    else
      match splitText rest with
      | [] => [⟨[u], false⟩]
      | line :: lines => { line with text := u :: line.text } :: lines

def TextLine.units (line : TextLine) : Text := line.text ++ if line.newline then [LF] else []

def joinText (lines : List TextLine) : Text := lines.flatMap TextLine.units

/-! ## `reversePatch` -/

/-- The place in the resulting file, and the old lines so far. -/
abbrev Reversing := Nat × List TextLine

def reverseLine (newLines : List TextLine) (s : Reversing) (line : PatchLine) : Except PatchError Reversing := do
  let newCursor ← if line.kind ≠ .deletion then
      match newLines[s.1]? with
      | none => .error .content
      | some actual =>
        if actual.text ≠ line.text || actual.newline ≠ line.newNewline then .error .content else .ok (s.1 + 1)
    else .ok s.1
  return (newCursor, if line.kind ≠ .addition then s.2 ++ [⟨line.text, line.oldNewline⟩] else s.2)

def reverseHunk (newLines : List TextLine) (s : Reversing) (hunk : PatchHunk) : Except PatchError Reversing :=
  let hunkStart := rangeIndex hunk.newStart hunk.newCount
  if hunkStart < s.1 || hunkStart > newLines.length then .error .range
  else
    hunk.lines.foldlM (reverseLine newLines) (hunkStart.toNat, s.2 ++ (newLines.take hunkStart.toNat).drop s.1)

def reversePatch (patch newText : Text) : Except PatchError Text := do
  let hunks ← parseHunks patch false
  let newLines := splitText newText
  let (newCursor, oldLines) ← hunks.foldlM (reverseHunk newLines) (0, [])
  return joinText (oldLines ++ newLines.drop newCursor)

/-! ## `extractFile` -/

inductive Side
  | old
  | new
  deriving DecidableEq

/-- `^--- \/dev\/null$`, and the same behind another mark: the line ends there. -/
def isNullLine (mark : String) (s : Text) : Bool :=
  match Search.after (js mark ++ js " /dev/null") s with
  | none => false
  | some [] => true
  | some (u :: _) => !isDot u

def hasNewFileMode (patch : Text) : Bool := testLines (js "new file mode ").isPrefixOf patch

def hasDeletedFileMode (patch : Text) : Bool := testLines (js "deleted file mode ").isPrefixOf patch

def nullSide (patch : Text) : Side → Bool
  | .old => testLines (isNullLine "---") patch || hasNewFileMode patch
  | .new => testLines (isNullLine "+++") patch || hasDeletedFileMode patch

def sideLines (side : Side) (lines : List PatchLine) : List TextLine :=
  match side with
  | .old => (lines.filter (·.kind ≠ .addition)).map fun line => ⟨line.text, line.oldNewline⟩
  | .new => (lines.filter (·.kind ≠ .deletion)).map fun line => ⟨line.text, line.newNewline⟩

def extractHunk (side : Side) (s : Reversing) (hunk : PatchHunk) : Except PatchError Reversing :=
  let start := match side with | .old => hunk.oldStart | .new => hunk.newStart
  let count := match side with | .old => hunk.oldCount | .new => hunk.newCount
  if rangeIndex start count ≠ s.1 then .error .incomplete
  else .ok (s.1 + count, s.2 ++ sideLines side hunk.lines)

def extractFile (patch : Text) (side : Side) : Except PatchError Text :=
  if nullSide patch side then .ok []
  else do
    let hunks ← parseHunks patch (hasNewFileMode patch || hasDeletedFileMode patch)
    let (_, result) ← hunks.foldlM (extractHunk side) (0, [])
    return joinText result

/-! ## What is parsed -/

def patchLine (e : Edit) : PatchLine where
  kind := e.kind
  text := e.line.text
  oldNewline := if e.kind = .addition then true else e.line.newline
  newNewline := if e.kind = .deletion then true else e.line.newline

def startNumber (start : Nat) (side : List Line) : Nat := if side.length = 0 then start else start + 1

def patchHunk (old new : Nat) (h : Hunk) : PatchHunk where
  oldStart := startNumber old (oldSide h.edits)
  oldCount := (oldSide h.edits).length
  newStart := startNumber new (newSide h.edits)
  newCount := (newSide h.edits).length
  lines := h.edits.map patchLine

def patchHunks : Nat → Nat → List Hunk → List PatchHunk
  | _, _, [] => []
  | old, new, h :: hs =>
    patchHunk (old + h.skipped.length) (new + h.skipped.length) h ::
      patchHunks (old + h.skipped.length + (oldSide h.edits).length)
        (new + h.skipped.length + (newSide h.edits).length) hs

section

variable {p : Parsing} {h : Hunk} {hs : List Hunk} {e : Edit} {edits : List Edit} {hunk : PatchHunk} {f : FilePatch}
  {old new : Nat} {line : Text}

theorem headerHunk_header (old new : Nat) (h : Hunk) :
    (readHeader (h.header old new)).map headerHunk = some { patchHunk old new h with lines := [] } := by
  have hcount (n : Nat) : ((if n = 1 then none else some (decimal n)).map readNat).getD 1 = n := by
    split
    next hn =>
      exact hn.symm
    · exact readNat_decimal n
  rw [readHeader_header]
  simp only [Option.map_some, headerHunk, readNat_decimal, hcount]
  rfl

theorem parseLine_mark (hcurrent : p.current = some hunk) (kind : Kind) (text : Text) :
    parseLine p (kind.mark :: text) =
      .ok { p with current := some { hunk with lines := hunk.lines ++ [⟨kind, text, true, true⟩] } } := by
  have hheader : readHeader (kind.mark :: text) = none := by cases kind <;> rfl
  have hmarker : kind.mark :: text ≠ noNewline := by
    cases kind <;> exact fun heq => nomatch (List.cons.inj heq).1
  have hkind : kindOf kind.mark = some kind := by cases kind <;> rfl
  rw [parseLine, hheader]
  simp [hcurrent, hmarker, hkind]

theorem parseLine_noNewline (hunks : List PatchHunk) (hunk : PatchHunk) (lines : List PatchLine) (line : PatchLine) :
    parseLine ⟨hunks, some { hunk with lines := lines ++ [line] }⟩ noNewline =
      .ok ⟨hunks, some { hunk with lines := lines ++ [line.withoutNewline] }⟩ := by
  have hheader : readHeader noNewline = none := by decide
  rw [parseLine, hheader]
  simp

theorem foldlM_edit (hcurrent : p.current = some hunk) (e : Edit) : e.lines.foldlM parseLine p =
      .ok { p with current := some { hunk with lines := hunk.lines ++ [patchLine e] } } := by
  unfold Edit.lines
  rw [foldlM_cons, parseLine_mark hcurrent]
  cases hnewline : e.line.newline with
  | true =>
    have hline : patchLine e = ⟨e.kind, e.line.text, true, true⟩ := by simp [patchLine, hnewline]
    rw [hline]
    rfl
  | false =>
    have hline : patchLine e = PatchLine.withoutNewline ⟨e.kind, e.line.text, true, true⟩ := by
      simp [patchLine, PatchLine.withoutNewline, hnewline]
    rw [hline]
    have hmarker := parseLine_noNewline p.hunks hunk hunk.lines ⟨e.kind, e.line.text, true, true⟩
    change (parseLine _ noNewline >>= pure) = _
    rw [hmarker]
    rfl

theorem foldlM_edits (hcurrent : p.current = some hunk) : (edits.flatMap Edit.lines).foldlM parseLine p =
      .ok { p with current := some { hunk with lines := hunk.lines ++ edits.map patchLine } } := by
  induction edits generalizing p hunk with
  | nil =>
    rw [map_nil, append_nil, ← hcurrent]
    rfl
  | cons e edits ih =>
    rw [flatMap_cons, foldlM_append, foldlM_edit hcurrent]
    refine (ih rfl).trans ?_
    rw [map_cons, append_assoc]
    rfl

theorem foldlM_hunks (p : Parsing) (old new : Nat) (hs : List Hunk) :
    ∃ p', (hunkLines old new hs).foldlM parseLine p = .ok p' ∧ p'.all = p.all ++ patchHunks old new hs := by
  induction hs generalizing p old new with
  | nil => exact ⟨p, rfl, (append_nil _).symm⟩
  | cons h hs ih =>
    have hparse := headerHunk_header (old + h.skipped.length) (new + h.skipped.length) h
    cases hread : readHeader (h.header (old + h.skipped.length) (new + h.skipped.length)) with
    | none => rw [hread] at hparse; cases hparse
    | some digits =>
      rw [hread, Option.map_some, Option.some_inj] at hparse
      obtain ⟨p', hp', hall⟩ := ih ⟨p.all, some (patchHunk (old + h.skipped.length) (new + h.skipped.length) h)⟩
        (old + h.skipped.length + (oldSide h.edits).length) (new + h.skipped.length + (newSide h.edits).length)
      refine ⟨p', ?_, ?_⟩
      · have hheader : parseLine p (h.header (old + h.skipped.length) (new + h.skipped.length)) =
            .ok ⟨p.all, some { patchHunk (old + h.skipped.length) (new + h.skipped.length) h with lines := [] }⟩ := by
          simp [parseLine, hread, hparse]
        rw [hunkLines, cons_append, foldlM_cons, hheader]
        refine (foldlM_append ..).trans ?_
        rw [foldlM_edits rfl]
        exact hp'
      · rw [hall, patchHunks, Parsing.all]
        simp

theorem readHeader_extended (e : Extended) : readHeader e.text = none := by
  cases e <;> rfl

theorem readHeader_headerLines (h : line ∈ f.headerLines) : readHeader line = none := by
  rcases mem_append.mp h with h | h
  · obtain ⟨e, -, rfl⟩ := mem_map.mp h
    exact readHeader_extended e
  cases hbody : f.body with
  | none => simp [hbody] at h
  | binary =>
    simp only [hbody, mem_singleton] at h
    rw [h]
    rfl
  | hunks first more =>
    simp only [hbody, mem_cons, not_mem_nil, or_false] at h
    rcases h with rfl | rfl <;> rfl

theorem foldlM_ignored {ls : List Text} {hunks : List PatchHunk} (h : ∀ line ∈ ls, readHeader line = none) :
    ls.foldlM parseLine ⟨hunks, none⟩ = .ok ⟨hunks, none⟩ := by
  induction ls with
  | nil => rfl
  | cons line ls ih =>
    have hline : parseLine ⟨hunks, none⟩ line = .ok ⟨hunks, none⟩ := by
      simp [parseLine, h line (mem_cons_self ..)]
    rw [foldlM_cons, hline]
    exact ih fun line' h' => h line' (mem_cons_of_mem line h')

theorem parseLine_nil (p : Parsing) : parseLine p [] = .ok p := by
  have hmarker : ([] : Text) ≠ noNewline := by decide
  cases hcurrent : p.current <;> simp [parseLine, show readHeader [] = none from rfl, hcurrent, hmarker]

/-- **The lines of a file's patch make its hunks.** -/
theorem foldlM_file (f : FilePatch) :
    ∃ p, (f.lines ++ [[]]).foldlM parseLine ⟨[], none⟩ = .ok p ∧ p.all = patchHunks 0 0 f.hunks := by
  obtain ⟨p, hp, hall⟩ := foldlM_hunks ⟨[], none⟩ 0 0 f.hunks
  have hheader : ∀ line ∈ f.first :: f.headerLines, readHeader line = none := by
    intro line h
    rcases mem_cons.mp h with rfl | h
    · rfl
    · exact readHeader_headerLines h
  refine ⟨p, ?_, hall⟩
  rw [FilePatch.lines, foldlM_append, foldlM_append, foldlM_ignored hheader]
  change ((hunkLines 0 0 f.hunks).foldlM parseLine ⟨[], none⟩ >>= fun s => [[]].foldlM parseLine s) = _
  rw [hp]
  change (parseLine p [] >>= pure) = _
  rw [parseLine_nil]
  rfl

theorem countsMatch_patchHunks {hunk : PatchHunk} (h : hunk ∈ patchHunks old new hs) : hunk.countsMatch = true := by
  induction hs generalizing old new with
  | nil => cases h
  | cons h' hs ih =>
    rcases mem_cons.mp h with rfl | h
    · simp [PatchHunk.countsMatch, patchHunk, patchLine, oldSide, newSide, filter_map, Function.comp_def]
    · exact ih h

/-! ### Inner terminators -/

theorem free_of_simple {t : Text} (h : AllSimple t) : Free t := by
  intro u hu
  have hne (v : UInt16) (hv : ¬Simple v) : u ≠ v := fun e => hv (e ▸ h u hu)
  simp [isInner, hne 0x0D (by decide), hne 0x2028 (by decide), hne 0x2029 (by decide)]

def FreeHeadings (f : FilePatch) : Prop := ∀ hunk ∈ f.hunks, Free hunk.heading

def FreeLines (f : FilePatch) : Prop := ∀ hunk ∈ f.hunks, ∀ e ∈ hunk.edits, Free e.line.text

instance (f : FilePatch) : Decidable (FreeHeadings f) :=
  inferInstanceAs (Decidable (∀ hunk ∈ f.hunks, Free hunk.heading))

instance (f : FilePatch) : Decidable (FreeLines f) :=
  inferInstanceAs (Decidable (∀ hunk ∈ f.hunks, ∀ e ∈ hunk.edits, Free e.line.text))

theorem free_lines (hheadings : FreeHeadings f) (hlines : FreeLines f) (h : line ∈ f.lines) : Free line := by
  rcases mem_append.mp h with h | h
  · rcases mem_cons.mp h with rfl | h
    · exact free_of_simple (simple_first f)
    · exact free_of_simple (simple_headerLines h)
  obtain ⟨hunk, hmem, ⟨old, new, rfl⟩ | ⟨e, he, rfl | ⟨-, rfl⟩⟩⟩ := mem_hunkLines h
  · exact (free_of_simple (simple_numbers old new hunk)).append (hheadings hunk hmem)
  · intro u hu
    rcases mem_cons.mp hu with rfl | hu
    · cases e.kind <;> rfl
    · exact hlines hunk hmem e he u hu
  · decide

theorem physicalLines_render (f : FilePatch) : physicalLines (render [f]) = (f.lines ++ [[]]).map lastPiece := by
  rw [physicalLines, splitOn_render, flatMap_singleton]

/-- Without inner terminators, what is matched is the lines. -/
theorem physicalLines_free (hheadings : FreeHeadings f) (hlines : FreeLines f) :
    physicalLines (render [f]) = f.lines ++ [[]] := by
  rw [physicalLines_render, map_congr_left (g := id), map_id]
  intro line h
  rcases Places.mem_concat_cases h with h | rfl
  · exact lastPiece_of_free (free_lines hheadings hlines h) (f.lines_clean line h)
  · rfl

/-- **Without inner terminators the hunks are read as they are.** -/
theorem parseHunks_render (hheadings : FreeHeadings f) (hlines : FreeLines f) (allowEmpty : Bool) :
    parseHunks (render [f]) allowEmpty =
      if f.hunks = [] ∧ allowEmpty = false then .error .noHunks else .ok (patchHunks 0 0 f.hunks) := by
  obtain ⟨p, hp, hall⟩ := foldlM_file f
  have hcounts : (patchHunks 0 0 f.hunks).all (·.countsMatch) = true :=
    all_eq_true.mpr fun _ => countsMatch_patchHunks
  have hempty : patchHunks 0 0 f.hunks = [] ↔ f.hunks = [] := by
    cases f.hunks with
    | nil => exact iff_of_true rfl rfl
    | cons h hs => exact iff_of_false nofun nofun
  rw [parseHunks, physicalLines_free hheadings hlines, hp]
  change (if p.all = [] && !allowEmpty then _ else if p.all.all (·.countsMatch) then _ else _) = _
  rw [hall, hcounts]
  cases allowEmpty <;> simp [hempty]

end

/-! ## What is reversed -/

def textLine (l : Line) : TextLine := ⟨l.text, l.newline⟩

section

variable {newLines : List TextLine} {edits : List Edit} {hs : List Hunk} {line : PatchLine} {lines : List PatchLine}
  {hunk : PatchHunk} {hunks : List PatchHunk} {s s' : Reversing} {n o : Nat} {rest : List Line}

theorem textLine_injective : Function.Injective textLine := by
  intro l m h
  obtain ⟨text, newline, _⟩ := l
  obtain ⟨text', newline', _⟩ := m
  cases h
  rfl

theorem splitText_eq (t : Text) : splitText t = (UnifiedDiff.lines t).map textLine := by
  induction t with
  | nil => rfl
  | cons u t ih =>
    rw [splitText, UnifiedDiff.lines, ih]
    by_cases hu : u = LF
    · rw [if_pos hu, dif_pos hu]
      rfl
    · rw [if_neg hu, dif_neg hu]
      cases UnifiedDiff.lines t <;> rfl

theorem joinText_map (ls : List Line) : joinText (ls.map textLine) = UnifiedDiff.units ls := by
  rw [joinText, flatMap_map]
  rfl

theorem joinText_append (a b : List TextLine) : joinText (a ++ b) = joinText a ++ joinText b := flatMap_append

theorem sideLines_old (edits : List Edit) : sideLines .old (edits.map patchLine) = (oldSide edits).map textLine := by
  induction edits with
  | nil => rfl
  | cons e edits ih => cases hkind : e.kind <;> simp_all [sideLines, oldSide, patchLine, textLine]

theorem sideLines_new (edits : List Edit) : sideLines .new (edits.map patchLine) = (newSide edits).map textLine := by
  induction edits with
  | nil => rfl
  | cons e edits ih => cases hkind : e.kind <;> simp_all [sideLines, newSide, patchLine, textLine]

/-! ### What a hunk that is taken back was compared with -/

theorem sideLines_cons (side : Side) (line : PatchLine) (lines : List PatchLine) :
    sideLines side (line :: lines) = sideLines side [line] ++ sideLines side lines := by
  cases side <;> simp only [sideLines, filter_cons, filter_nil] <;> split <;> rfl

theorem singleton_prefix_drop_iff {α : Type*} {x : α} {xs : List α} {i : Nat} :
    [x] <+: xs.drop i ↔ xs[i]? = some x := by
  rw [← head?_drop]
  cases xs.drop i with
  | nil => simp
  | cons y ys => simp [eq_comm]

/-- A line is taken back just if the new side of it is next, and leaves the old side of it. -/
theorem reverseLine_eq_ok : reverseLine newLines s line = .ok s' ↔ sideLines .new [line] <+: newLines.drop s.1 ∧
        s' = (s.1 + (sideLines .new [line]).length, s.2 ++ sideLines .old [line]) := by
  by_cases hdeletion : line.kind = .deletion
  · have hnew : sideLines .new [line] = [] := by simp [sideLines, hdeletion]
    have hold : sideLines .old [line] = [⟨line.text, line.oldNewline⟩] := by simp [sideLines, hdeletion]
    rw [hnew, hold]
    simp [reverseLine, hdeletion, bind, Except.bind, pure, Except.pure, eq_comm]
  · have hnew : sideLines .new [line] = [⟨line.text, line.newNewline⟩] := by simp [sideLines, hdeletion]
    have hold : (if line.kind ≠ .addition then s.2 ++ [⟨line.text, line.oldNewline⟩] else s.2) =
        s.2 ++ sideLines .old [line] := by
      by_cases haddition : line.kind = .addition <;> simp [sideLines, haddition]
    rw [hnew, singleton_prefix_drop_iff, length_singleton, reverseLine, if_pos hdeletion, hold]
    cases hactual : newLines[s.1]? with
    | none => simp [bind, Except.bind]
    | some actual =>
      obtain ⟨text, newline⟩ := actual
      by_cases hsame : text = line.text ∧ newline = line.newNewline
      · simp [hsame, bind, Except.bind, pure, Except.pure, eq_comm]
      have : (text ≠ line.text || newline ≠ line.newNewline) = true := by
        rw [not_and_or] at hsame
        simpa using hsame
      simp only [this, if_true, bind, Except.bind, reduceCtorEq, Option.some.injEq, TextLine.mk.injEq, hsame, false_and]

/-- A text begins with two lists one after the other just if it does with the first, and with the second behind it. -/
theorem append_prefix_drop_iff {α : Type*} {a b xs : List α} {i : Nat} :
    a ++ b <+: xs.drop i ↔ a <+: xs.drop i ∧ b <+: xs.drop (i + a.length) := by
  constructor
  · rintro ⟨t, ht⟩
    refine ⟨⟨b ++ t, by rw [← ht, append_assoc]⟩, ⟨t, ?_⟩⟩
    rw [← drop_drop, ← ht, append_assoc, drop_left]
  rintro ⟨⟨u, hu⟩, ⟨t, ht⟩⟩
  rw [← drop_drop, ← hu, drop_left] at ht
  exact ⟨t, by rw [← hu, ← ht, append_assoc]⟩

theorem foldlM_reverseLine : lines.foldlM (reverseLine newLines) s = .ok s' ↔
      sideLines .new lines <+: newLines.drop s.1 ∧
        s' = (s.1 + (sideLines .new lines).length, s.2 ++ sideLines .old lines) := by
  induction lines generalizing s with
  | nil =>
    have hnil (side : Side) : sideLines side [] = [] := by cases side <;> rfl
    simp [hnil, pure, Except.pure, eq_comm]
  | cons line lines ih =>
    rw [foldlM_cons, sideLines_cons .new line lines, sideLines_cons .old line lines, append_prefix_drop_iff]
    constructor
    · intro h
      cases hline : reverseLine newLines s line with
      | error e =>
        rw [hline] at h
        cases h
      | ok s₁ =>
        rw [hline] at h
        obtain ⟨hnew, rfl⟩ := reverseLine_eq_ok.mp hline
        obtain ⟨hrest, rfl⟩ := ih.mp h
        exact ⟨⟨hnew, hrest⟩, by simp only [length_append, Nat.add_assoc, append_assoc]⟩
    · rintro ⟨⟨hnew, hrest⟩, rfl⟩
      rw [reverseLine_eq_ok.mpr ⟨hnew, rfl⟩]
      refine ih.mpr ⟨hrest, ?_⟩
      simp [Nat.add_assoc]

/-- A hunk is taken back just if the new side of it is where its header says, behind the hunks before it. -/
theorem reverseHunk_eq_ok : reverseHunk newLines s hunk = .ok s' ↔
      ∃ k : Nat, rangeIndex hunk.newStart hunk.newCount = k ∧ s.1 ≤ k ∧ k ≤ newLines.length ∧
        sideLines .new hunk.lines <+: newLines.drop k ∧
        s' = (k + (sideLines .new hunk.lines).length,
          s.2 ++ (newLines.take k).drop s.1 ++ sideLines .old hunk.lines) := by
  unfold reverseHunk
  constructor
  · intro h
    dsimp only at h
    split at h
    · cases h
    rename_i hrange
    simp only [Bool.or_eq_true, decide_eq_true_eq, not_or, Int.not_lt] at hrange
    obtain ⟨hnew, hs'⟩ := foldlM_reverseLine.mp h
    exact ⟨_, (Int.toNat_of_nonneg (by omega)).symm, by omega, by omega, hnew, hs'⟩
  · rintro ⟨k, hk, hle, hlength, hnew, rfl⟩
    dsimp only
    rw [hk, if_neg (by simp; omega)]
    exact foldlM_reverseLine.mpr ⟨hnew, rfl⟩

theorem rangeIndex_startNumber (start : Nat) (side : List Line) :
    rangeIndex (startNumber start side) side.length = start := by
  unfold rangeIndex startNumber
  split
  · rfl
  · simp

theorem foldlM_patchHunks (pre acc : List TextLine) (hlength : pre.length = n)
    (hnew : newLines = pre ++ ((hs.flatMap fun h => h.skipped ++ newSide h.edits) ++ rest).map textLine) :
    (patchHunks o n hs).foldlM (reverseHunk newLines) (n, acc) =
      .ok (n + (hs.flatMap fun h => h.skipped ++ newSide h.edits).length,
        acc ++ (hs.flatMap fun h => h.skipped ++ oldSide h.edits).map textLine) := by
  induction hs generalizing o n pre acc with
  | nil =>
    rw [flatMap_nil, flatMap_nil, map_nil, append_nil]
    rfl
  | cons h hs ih =>
    have hnew' : newLines = pre ++ h.skipped.map textLine ++ (newSide h.edits).map textLine ++
        ((hs.flatMap fun h => h.skipped ++ newSide h.edits) ++ rest).map textLine := by
      rw [hnew]
      simp
    have hpre : (pre ++ h.skipped.map textLine).length = n + h.skipped.length := by
      rw [length_append, length_map, hlength]
    have hstep : reverseHunk newLines (n, acc) (patchHunk (o + h.skipped.length) (n + h.skipped.length) h) =
        .ok (n + h.skipped.length + (newSide h.edits).length,
          acc ++ h.skipped.map textLine ++ (oldSide h.edits).map textLine) := by
      refine reverseHunk_eq_ok.mpr ⟨n + h.skipped.length, rangeIndex_startNumber _ _, Nat.le_add_right _ _, ?_, ?_, ?_⟩
      · rw [hnew', append_assoc, length_append, hpre]
        exact Nat.le_add_right _ _
      · rw [patchHunk, sideLines_new, hnew', append_assoc, ← hpre, drop_left]
        exact prefix_append _ _
      · have hslice : (newLines.take (n + h.skipped.length)).drop n = h.skipped.map textLine := by
          rw [hnew', append_assoc, ← hpre, take_left, ← hlength, drop_left]
        rw [patchHunk, sideLines_new, sideLines_old, hslice, length_map]
    rw [patchHunks, foldlM_cons, hstep]
    refine (ih (pre ++ h.skipped.map textLine ++ (newSide h.edits).map textLine) _ ?_ hnew').trans ?_
    · rw [length_append, hpre, length_map]
    · simp [Nat.add_assoc]

/-- **Without inner terminators a diff is taken back.** -/
theorem reversePatch_diff {f : FilePatch} {oldText newText : Text} (hbody : f.hunks ≠ []) (hheadings : FreeHeadings f)
    (hlines : FreeLines f) (h : Diff.Of ⟨f.hunks, rest⟩ oldText newText) :
    reversePatch (render [f]) newText = .ok oldText := by
  have hnew : splitText newText =
      [] ++ ((f.hunks.flatMap fun h => h.skipped ++ newSide h.edits) ++ rest).map textLine := by
    rw [splitText_eq, h.new]
    rfl
  have hreversed := foldlM_patchHunks (n := 0) (o := 0) [] [] rfl hnew
  have hdrop : (splitText newText).drop (0 + (f.hunks.flatMap fun h => h.skipped ++ newSide h.edits).length) =
      rest.map textLine := by
    rw [hnew, Nat.zero_add, nil_append, map_append, ← length_map (f := textLine), drop_left]
  have hold : joinText ((f.hunks.flatMap fun h => h.skipped ++ oldSide h.edits).map textLine ++ rest.map textLine) =
      oldText := by
    rw [← map_append, joinText_map, ← units_lines oldText, h.old]
    rfl
  rw [reversePatch, parseHunks_render hheadings hlines, if_neg fun hnone => hbody hnone.1]
  change ((patchHunks 0 0 f.hunks).foldlM (reverseHunk (splitText newText)) (0, []) >>= fun s =>
    pure (joinText (s.2 ++ (splitText newText).drop s.1))) = _
  rw [hreversed]
  change Except.ok (joinText (_ ++ (splitText newText).drop _)) = _
  rw [hdrop, nil_append, hold]

/-! ### A text that does not match -/

def Matches : Nat → List Hunk → List Line → Prop
  | _, [], _ => True
  | n, h :: hs, given =>
    newSide h.edits <+: given.drop (n + h.skipped.length) ∧
      Matches (n + h.skipped.length + (newSide h.edits).length) hs given

instance Matches.decidable : (n : Nat) → (hs : List Hunk) → (given : List Line) → Decidable (Matches n hs given)
  | _, [], _ => .isTrue trivial
  | n, h :: hs, given =>
    have := Matches.decidable (n + h.skipped.length + (newSide h.edits).length) hs given
    inferInstanceAs (Decidable (newSide h.edits <+: given.drop (n + h.skipped.length) ∧
      Matches (n + h.skipped.length + (newSide h.edits).length) hs given))

theorem compared (h : hunks.foldlM (reverseHunk newLines) s = .ok s') (hmem : hunk ∈ hunks) :
    ∃ k : Nat, rangeIndex hunk.newStart hunk.newCount = k ∧ sideLines .new hunk.lines <+: newLines.drop k := by
  induction hunks generalizing s with
  | nil => cases hmem
  | cons first hunks ih =>
    rw [foldlM_cons] at h
    cases hfirst : reverseHunk newLines s first with
    | error e =>
      rw [hfirst] at h
      cases h
    | ok s₁ =>
      rw [hfirst] at h
      rcases mem_cons.mp hmem with rfl | hmem
      · obtain ⟨k, hk, -, -, hnew, -⟩ := reverseHunk_eq_ok.mp hfirst
        exact ⟨k, hk, hnew⟩
      · exact ih h hmem

theorem matches_of_compared {given : List Line}
    (h : ∀ hunk ∈ patchHunks o n hs, ∃ k : Nat, rangeIndex hunk.newStart hunk.newCount = k ∧
      sideLines .new hunk.lines <+: (given.map textLine).drop k) : Matches n hs given := by
  induction hs generalizing o n with
  | nil => trivial
  | cons hunk hs ih =>
    refine ⟨?_, ih fun hunk' hmem => h hunk' (mem_cons_of_mem _ hmem)⟩
    obtain ⟨k, hk, hnew⟩ := h _ (mem_cons_self ..)
    obtain rfl : n + hunk.skipped.length = k := Int.ofNat.inj ((rangeIndex_startNumber _ _).symm.trans hk)
    rw [patchHunk, sideLines_new, ← map_drop] at hnew
    obtain ⟨t, ht⟩ := hnew
    obtain ⟨a, b, hab, ha, -⟩ := map_eq_append_iff.mp ht.symm
    rw [hab, map_injective_iff.mpr textLine_injective ha]
    exact prefix_append _ _

/-- **A patch whose context or additions are not in the text is refused.** -/
theorem reversePatch_refuses {f : FilePatch} {given : Text} (hheadings : FreeHeadings f) (hlines : FreeLines f)
    (h : ¬Matches 0 f.hunks (UnifiedDiff.lines given)) : ∃ e, reversePatch (render [f]) given = .error e := by
  cases hresult : reversePatch (render [f]) given with
  | error e => exact ⟨e, rfl⟩
  | ok result =>
    exfalso
    rw [reversePatch, parseHunks_render hheadings hlines] at hresult
    split at hresult
    · cases hresult
    cases hreversed : (patchHunks 0 0 f.hunks).foldlM (reverseHunk (splitText given)) (0, []) with
    | error e => simp [bind, Except.bind, hreversed] at hresult
    | ok s =>
      refine h (matches_of_compared (o := 0) fun hunk hmem => ?_)
      rw [← splitText_eq]
      exact compared hreversed hmem

end

/-! ## What cannot be taken back -/

section

variable {p p' : Parsing} {line : Text} {ls : List Text} {hunk : PatchHunk} {hunks : List PatchHunk} {f : FilePatch}
  {newLines : List TextLine} {s s' : Reversing} {digits : HeaderDigits} {hs : List Hunk} {n o : Nat}

def numbers (hunk : PatchHunk) : Nat × Nat × Nat × Nat := (hunk.oldStart, hunk.oldCount, hunk.newStart, hunk.newCount)

def FreeParsing (hunks : List PatchHunk) : Prop := ∀ hunk ∈ hunks, ∀ line ∈ hunk.lines, Free line.text

/-- What a step does to the hunks, said once: nothing, a hunk is begun, or the current one gets other lines, each
with a text it had or one of the line's. -/
theorem parseLine_cases (h : parseLine p line = .ok p') :
    p' = p ∨ (∃ digits, readHeader line = some digits ∧ p' = ⟨p.all, some (headerHunk digits)⟩) ∨
      ∃ current lines, p.current = some current ∧ p' = { p with current := some { current with lines := lines } } ∧
        ∀ l ∈ lines, (∃ l' ∈ current.lines, l.text = l'.text) ∨ l.text ⊆ line := by
  rw [parseLine] at h
  split at h
  next digits hread =>
    exact .inr (.inl ⟨digits, hread, (Except.ok.inj h).symm⟩)
  split at h
  · exact .inl (Except.ok.inj h).symm
  rename_i current hcurrent
  split at h
  · split at h
    · cases h
    rename_i previous hprevious
    refine .inr (.inr ⟨current, _, hcurrent, (Except.ok.inj h).symm, fun l hl => .inl ?_⟩)
    rcases Places.mem_concat_cases hl with hl | rfl
    · exact ⟨l, mem_of_mem_dropLast hl, rfl⟩
    · exact ⟨previous, mem_of_getLast? hprevious, rfl⟩
  · split at h
    · exact .inl (Except.ok.inj h).symm
    split at h
    · exact .inl (Except.ok.inj h).symm
    refine .inr (.inr ⟨current, _, hcurrent, (Except.ok.inj h).symm, fun l hl => ?_⟩)
    rcases Places.mem_concat_cases hl with hl | rfl
    · exact .inl ⟨l, hl, rfl⟩
    · exact .inr fun u hu => mem_cons_of_mem _ hu

theorem FreeParsing.parseLine (hp : FreeParsing p.all) (hline : Free line) (h : parseLine p line = .ok p') :
    FreeParsing p'.all := by
  obtain rfl | ⟨digits, -, rfl⟩ | ⟨current, lines, hcurrent, rfl, hlines⟩ := parseLine_cases h
  · exact hp
  · intro hunk hmem l hl
    rcases mem_append.mp hmem with hmem | hmem
    · exact hp hunk hmem l hl
    · rw [mem_singleton.mp hmem] at hl
      cases hl
  · intro hunk hmem l hl
    rcases mem_append.mp hmem with hmem | hmem
    · exact hp hunk (mem_append_left _ hmem) l hl
    rw [mem_singleton.mp hmem] at hl
    rcases hlines l hl with ⟨l', hl', heq⟩ | hsubset
    · rw [heq]
      exact hp current (mem_append_right _ (by rw [hcurrent]; exact mem_singleton_self _)) l' hl'
    · exact hline.of_subset hsubset

theorem numbers_parseLine (h : parseLine p line = .ok p') : p.all.map numbers <+: p'.all.map numbers := by
  obtain rfl | ⟨digits, -, rfl⟩ | ⟨current, lines, hcurrent, rfl, -⟩ := parseLine_cases h
  · exact prefix_rfl
  · exact (prefix_append _ _).map _
  · rw [Parsing.all, Parsing.all, hcurrent, map_append, map_append]
    exact prefix_rfl

theorem foldlM_parseLine (h : ls.foldlM parseLine p = .ok p') (hp : FreeParsing p.all) (hls : ∀ line ∈ ls, Free line) :
    FreeParsing p'.all ∧ p.all.map numbers <+: p'.all.map numbers ∧
      ∀ line ∈ ls, ∀ digits, readHeader line = some digits → numbers (headerHunk digits) ∈ p'.all.map numbers := by
  induction ls generalizing p with
  | nil =>
    obtain rfl := Except.ok.inj h
    exact ⟨hp, prefix_rfl, nofun⟩
  | cons line ls ih =>
    rw [foldlM_cons] at h
    cases hline : parseLine p line with
    | error e =>
      rw [hline] at h
      cases h
    | ok p₁ =>
      rw [hline] at h
      obtain ⟨hfree, hnumbers, hread⟩ := ih h (hp.parseLine (hls line (mem_cons_self ..)) hline) fun line' hmem =>
        hls line' (mem_cons_of_mem line hmem)
      refine ⟨hfree, (numbers_parseLine hline).trans hnumbers, fun line' hmem digits hdigits => ?_⟩
      rcases mem_cons.mp hmem with rfl | hmem
      · have hbegun : p₁ = ⟨p.all, some (headerHunk digits)⟩ := by
          rw [parseLine, hdigits] at hline
          exact (Except.ok.inj hline).symm
        refine hnumbers.subset ?_
        rw [hbegun, Parsing.all, map_append]
        exact mem_append_right _ (mem_singleton_self _)
      · exact hread line' hmem digits hdigits

theorem exists_header {hunk : PatchHunk} (h : hunk ∈ patchHunks o n hs) :
    ∃ line ∈ hunkLines o n hs, ∃ digits, readHeader line = some digits ∧ numbers (headerHunk digits) = numbers hunk ∧
      ∃ h ∈ hs, ∃ old new, line = h.header old new := by
  induction hs generalizing o n with
  | nil => cases h
  | cons h' hs ih =>
    rcases mem_cons.mp h with rfl | h
    · have hparse := headerHunk_header (o + h'.skipped.length) (n + h'.skipped.length) h'
      cases hread : readHeader (h'.header (o + h'.skipped.length) (n + h'.skipped.length)) with
      | none => rw [hread] at hparse; cases hparse
      | some digits =>
        rw [hread, Option.map_some, Option.some_inj] at hparse
        refine ⟨_, mem_append_left _ (mem_cons_self ..), digits, hread, ?_, h', mem_cons_self .., _, _,
          rfl⟩
        rw [hparse]
        rfl
    · obtain ⟨line, hline, digits, hread, hnumbers, h'', hmem, hheader⟩ := ih h
      exact ⟨line, mem_append_right _ hline, digits, hread, hnumbers, h'', mem_cons_of_mem h' hmem, hheader⟩

theorem parseHunks_any {allowEmpty : Bool} (hheadings : FreeHeadings f)
    (h : parseHunks (render [f]) allowEmpty = .ok hunks) :
    FreeParsing hunks ∧ hunks.all (·.countsMatch) = true ∧
      ∀ hunk ∈ patchHunks 0 0 f.hunks, numbers hunk ∈ hunks.map numbers := by
  rw [parseHunks] at h
  cases hparsed : (physicalLines (render [f])).foldlM parseLine ⟨[], none⟩ with
  | error e => simp [bind, Except.bind, hparsed] at h
  | ok p =>
    rw [hparsed] at h
    change (if p.all = [] && !allowEmpty then _ else if p.all.all (·.countsMatch) then _ else _) = _ at h
    split at h
    · cases h
    split at h
    next hcounts =>
      obtain rfl := Except.ok.inj h
      have hfree : ∀ line ∈ physicalLines (render [f]), Free line := by
        intro line hline
        obtain ⟨whole, -, rfl⟩ := mem_map.mp hline
        exact free_lastPiece whole
      obtain ⟨hparsing, -, hread⟩ := foldlM_parseLine hparsed nofun hfree
      refine ⟨hparsing, hcounts, fun hunk hmem => ?_⟩
      obtain ⟨line, hline, digits, hdigits, hnumbers, h', hmem', old, new, rfl⟩ := exists_header hmem
      rw [← hnumbers]
      refine hread _ ?_ digits hdigits
      rw [physicalLines_render]
      refine mem_map.mpr ⟨h'.header old new, mem_append_left _ (mem_append_right _ hline), ?_⟩
      refine lastPiece_of_free ?_ (hunkLines_clean _ hline)
      exact (free_of_simple (simple_numbers old new h')).append (hheadings h' hmem')
    · cases h

/-! ### Counting inner terminators -/

def innerCount (t : Text) : Nat := t.countP isInner

theorem innerCount_append (s t : Text) : innerCount (s ++ t) = innerCount s + innerCount t := countP_append

theorem innerCount_eq_zero_iff {t : Text} : innerCount t = 0 ↔ Free t := by
  rw [innerCount, countP_eq_zero]
  simp [Free]

theorem innerCount_newline (newline : Bool) : innerCount (if newline then [LF] else []) = 0 := by
  cases newline <;> rfl

theorem innerCount_joinText_of_free {lines : List TextLine} (h : ∀ line ∈ lines, Free line.text) :
    innerCount (joinText lines) = 0 := by
  induction lines with
  | nil => rfl
  | cons line lines ih =>
    rw [joinText, flatMap_cons, ← joinText, innerCount_append, ih fun l hl => h l (mem_cons_of_mem line hl),
      TextLine.units, innerCount_append, innerCount_newline,
      innerCount_eq_zero_iff.mpr (h line (mem_cons_self ..))]

theorem free_sideLines {side : Side} {lines : List PatchLine} (h : ∀ line ∈ lines, Free line.text) :
    ∀ line ∈ sideLines side lines, Free line.text := by
  intro line hline
  cases side with
  | old =>
    obtain ⟨l, hl, rfl⟩ := mem_map.mp hline
    exact h l (mem_of_mem_filter hl)
  | new =>
    obtain ⟨l, hl, rfl⟩ := mem_map.mp hline
    exact h l (mem_of_mem_filter hl)

/-- Hunks without inner terminators put none in: the old lines so far have no more than the new ones behind. -/
theorem innerCount_foldlM (hfree : FreeParsing hunks) (h : hunks.foldlM (reverseHunk newLines) s = .ok s')
    (hs : innerCount (joinText s.2) ≤ innerCount (joinText (newLines.take s.1))) :
    innerCount (joinText s'.2) ≤ innerCount (joinText (newLines.take s'.1)) := by
  induction hunks generalizing s with
  | nil =>
    obtain rfl := Except.ok.inj h
    exact hs
  | cons hunk hunks ih =>
    rw [foldlM_cons] at h
    cases hfirst : reverseHunk newLines s hunk with
    | error e =>
      rw [hfirst] at h
      cases h
    | ok s₁ =>
      rw [hfirst] at h
      refine ih (fun h' hmem => hfree h' (mem_cons_of_mem hunk hmem)) h ?_
      obtain ⟨k, -, hle, -, -, rfl⟩ := reverseHunk_eq_ok.mp hfirst
      have hold : innerCount (joinText (sideLines .old hunk.lines)) = 0 :=
        innerCount_joinText_of_free (free_sideLines (hfree hunk (mem_cons_self ..)))
      have htake : newLines.take k = newLines.take s.1 ++ (newLines.take k).drop s.1 := by
        conv_lhs => rw [← take_append_drop s.1 (newLines.take k), take_take, Nat.min_eq_left hle]
      have hmore : newLines.take (k + (sideLines .new hunk.lines).length) =
          newLines.take k ++ (newLines.drop k).take (sideLines .new hunk.lines).length := take_add
      dsimp only
      rw [joinText_append, joinText_append, innerCount_append, innerCount_append, hold, hmore, joinText_append,
        innerCount_append, htake, joinText_append, innerCount_append, ← htake]
      omega

theorem innerCount_reversed {patch newText oldText : Text} (hparsed : parseHunks patch false = .ok hunks)
    (hfree : FreeParsing hunks) (h : reversePatch patch newText = .ok oldText) :
    innerCount oldText ≤ innerCount newText ∧
      ∃ s', hunks.foldlM (reverseHunk (splitText newText)) (0, []) = .ok s' := by
  rw [reversePatch, hparsed] at h
  change (hunks.foldlM (reverseHunk (splitText newText)) (0, []) >>= fun s =>
    pure (joinText (s.2 ++ (splitText newText).drop s.1))) = _ at h
  cases hreversed : hunks.foldlM (reverseHunk (splitText newText)) (0, []) with
  | error e =>
    rw [hreversed] at h
    cases h
  | ok s =>
    rw [hreversed] at h
    obtain rfl := Except.ok.inj h
    refine ⟨?_, s, rfl⟩
    have hle := innerCount_foldlM hfree hreversed (Nat.le_refl _)
    have hwhole : newText = joinText ((splitText newText).take s.1 ++ (splitText newText).drop s.1) := by
      rw [take_append_drop, splitText_eq, joinText_map, units_lines]
    rw [joinText_append, innerCount_append]
    conv_rhs => rw [hwhole, joinText_append, innerCount_append]
    omega

theorem innerCount_units_eq_zero_iff {ls : List Line} :
    innerCount (UnifiedDiff.units ls) = 0 ↔ ∀ l ∈ ls, Free l.text := by
  induction ls with
  | nil => exact iff_of_true rfl nofun
  | cons l ls ih =>
    have hl : innerCount l.units = innerCount l.text := by
      rw [Line.units, innerCount_append, innerCount_newline, Nat.add_zero]
    rw [UnifiedDiff.units, flatMap_cons, ← UnifiedDiff.units, innerCount_append, Nat.add_eq_zero_iff, ih, hl,
      innerCount_eq_zero_iff, forall_mem_cons]

theorem innerCount_sides (h : Hunk) (hs : List Hunk) (side : Hunk → List Line) :
    innerCount (UnifiedDiff.units ((h :: hs).flatMap fun h => h.skipped ++ side h)) =
      innerCount (UnifiedDiff.units h.skipped) + innerCount (UnifiedDiff.units (side h)) +
        innerCount (UnifiedDiff.units (hs.flatMap fun h => h.skipped ++ side h)) := by
  rw [flatMap_cons, units_append, units_append, innerCount_append, innerCount_append]

theorem innerCount_newSides_le (hnew : ∀ h ∈ hs, ∀ l ∈ newSide h.edits, Free l.text) :
    innerCount (UnifiedDiff.units (hs.flatMap fun h => h.skipped ++ newSide h.edits)) ≤
      innerCount (UnifiedDiff.units (hs.flatMap fun h => h.skipped ++ oldSide h.edits)) := by
  induction hs with
  | nil => exact Nat.le_refl _
  | cons h hs ih =>
    have hside := innerCount_units_eq_zero_iff.mpr (hnew h (mem_cons_self ..))
    have hrest := ih fun h' hmem => hnew h' (mem_cons_of_mem h hmem)
    rw [innerCount_sides h hs (newSide ·.edits), innerCount_sides h hs (oldSide ·.edits), hside]
    omega

theorem free_oldSides (hnew : ∀ h ∈ hs, ∀ l ∈ newSide h.edits, Free l.text)
    (hle : innerCount (UnifiedDiff.units (hs.flatMap fun h => h.skipped ++ oldSide h.edits)) ≤
      innerCount (UnifiedDiff.units (hs.flatMap fun h => h.skipped ++ newSide h.edits))) :
    ∀ h ∈ hs, ∀ l ∈ oldSide h.edits, Free l.text := by
  induction hs with
  | nil => exact nofun
  | cons h hs ih =>
    have hside := innerCount_units_eq_zero_iff.mpr (hnew h (mem_cons_self ..))
    have hnew' : ∀ h' ∈ hs, ∀ l ∈ newSide h'.edits, Free l.text := fun h' hmem => hnew h' (mem_cons_of_mem h hmem)
    have hrest := innerCount_newSides_le hnew'
    rw [innerCount_sides h hs (newSide ·.edits), innerCount_sides h hs (oldSide ·.edits), hside] at hle
    intro h' hmem
    rcases mem_cons.mp hmem with rfl | hmem
    · exact innerCount_units_eq_zero_iff.mp (by omega)
    · exact ih hnew' (by omega) h' hmem

/-- What the hunks were compared with has no inner terminator. -/
theorem free_newSides (given rest : List Line) (hfree : FreeParsing hunks) (hcounts : hunks.all (·.countsMatch) = true)
    (hnumbers : ∀ hunk ∈ patchHunks o n hs, numbers hunk ∈ hunks.map numbers)
    (hcompared : ∀ hunk ∈ hunks, ∃ k : Nat, rangeIndex hunk.newStart hunk.newCount = k ∧
      sideLines .new hunk.lines <+: (given.map textLine).drop k)
    (hgiven : given.drop n = (hs.flatMap fun h => h.skipped ++ newSide h.edits) ++ rest) :
    ∀ h ∈ hs, ∀ l ∈ newSide h.edits, Free l.text := by
  induction hs generalizing o n with
  | nil => exact nofun
  | cons h hs ih =>
    have hdrop : given.drop (n + h.skipped.length) =
        newSide h.edits ++ ((hs.flatMap fun h => h.skipped ++ newSide h.edits) ++ rest) := by
      rw [← drop_drop, hgiven, flatMap_cons, append_assoc, append_assoc, drop_left]
    have hrest := ih (o := o + h.skipped.length + (oldSide h.edits).length)
      (n := n + h.skipped.length + (newSide h.edits).length)
      (fun hunk hmem => hnumbers hunk (mem_cons_of_mem _ hmem))
      (by rw [← drop_drop, hdrop, drop_left])
    intro h' hmem
    rcases mem_cons.mp hmem with rfl | hmem
    · obtain ⟨hunk, hhunk, hsame⟩ := mem_map.mp (hnumbers _ (mem_cons_self ..))
      simp only [numbers, patchHunk, Prod.mk.injEq] at hsame
      obtain ⟨k, hk, hprefix⟩ := hcompared hunk hhunk
      rw [hsame.2.2.1, hsame.2.2.2, rangeIndex_startNumber] at hk
      obtain rfl : n + h'.skipped.length = k := Int.ofNat.inj hk
      have hlength : (sideLines .new hunk.lines).length = ((newSide h'.edits).map textLine).length := by
        have := all_eq_true.mp hcounts hunk hhunk
        simp only [PatchHunk.countsMatch, Bool.and_eq_true, decide_eq_true_eq] at this
        rw [sideLines, length_map, this.2, hsame.2.2.2, length_map]
      have hother : (newSide h'.edits).map textLine <+: (given.map textLine).drop (n + h'.skipped.length) := by
        rw [← map_drop, hdrop, map_append]
        exact prefix_append _ _
      have heq := (prefix_of_prefix_length_le hprefix hother hlength.le).eq_of_length hlength
      intro l hl
      have hmem : textLine l ∈ sideLines .new hunk.lines := heq ▸ mem_map_of_mem hl
      exact free_sideLines (hfree hunk hhunk) _ hmem
    · exact hrest h' hmem

/-- **A diff is taken back only without inner terminators in its lines.** -/
theorem freeLines_of_reversed {oldText newText : Text} {rest : List Line} (hheadings : FreeHeadings f)
    (hdiff : Diff.Of ⟨f.hunks, rest⟩ oldText newText) (h : reversePatch (render [f]) newText = .ok oldText) :
    FreeLines f := by
  cases hparsed : parseHunks (render [f]) false with
  | error e =>
    rw [reversePatch, hparsed] at h
    cases h
  | ok hunks =>
    obtain ⟨hfree, hcounts, hnumbers⟩ := parseHunks_any hheadings hparsed
    obtain ⟨hle, s, hreversed⟩ := innerCount_reversed hparsed hfree h
    have hnew : ∀ hunk ∈ f.hunks, ∀ l ∈ newSide hunk.edits, Free l.text := by
      refine free_newSides (UnifiedDiff.lines newText) rest hfree hcounts hnumbers (fun hunk hmem => ?_) ?_
      · rw [← splitText_eq]
        exact compared hreversed hmem
      · rw [drop_zero, hdiff.new]
        rfl
    have hold : ∀ hunk ∈ f.hunks, ∀ l ∈ oldSide hunk.edits, Free l.text := by
      refine free_oldSides hnew ?_
      rw [← units_lines oldText, ← units_lines newText, hdiff.old, hdiff.new, Diff.old, Diff.new, units_append,
        units_append, innerCount_append, innerCount_append] at hle
      exact Nat.le_of_add_le_add_right hle
    intro hunk hmem e he
    cases hkind : e.kind with
    | addition => exact hnew hunk hmem e.line (mem_map_of_mem (mem_filter.mpr ⟨he, by simp [hkind]⟩))
    | context | deletion =>
      exact hold hunk hmem e.line (mem_map_of_mem (mem_filter.mpr ⟨he, by simp [hkind]⟩))

end

/-- **A patch with its hunks' headings free of inner terminators takes the new text back to the old** just if it has a
hunk and no line it shows has an inner terminator; and then it takes back no text that does not match it. -/
theorem reversePatch_iff (f : FilePatch) (hheadings : FreeHeadings f) :
    (∀ oldText newText rest, Diff.Of ⟨f.hunks, rest⟩ oldText newText →
      (reversePatch (render [f]) newText = .ok oldText ↔ f.hunks ≠ [] ∧ FreeLines f)) ∧
      (FreeLines f → ∀ given, ¬Matches 0 f.hunks (UnifiedDiff.lines given) →
        ∃ e, reversePatch (render [f]) given = .error e) := by
  refine ⟨fun oldText newText rest hdiff => ?_, fun hlines given => reversePatch_refuses hheadings hlines⟩
  constructor
  · intro h
    have hlines := freeLines_of_reversed hheadings hdiff h
    refine ⟨fun hnone => ?_, hlines⟩
    rw [reversePatch, parseHunks_render hheadings hlines, if_pos ⟨hnone, rfl⟩] at h
    cases h
  · rintro ⟨hbody, hlines⟩
    exact reversePatch_diff hbody hheadings hlines hdiff

/-- A line of a file that ends without a newline is changed to two that end with one each. -/
def addNewline : FilePatch where
  oldPath := [0x61]
  newPath := [0x61]
  extended := [.index ⟨[1]⟩ ⟨[2]⟩ (some .file)]
  body := .hunks ⟨[], [⟨.context, ⟨js "one", true, by decide⟩⟩, ⟨.deletion, ⟨js "two", false, by decide⟩⟩,
      ⟨.addition, ⟨js "2", true, by decide⟩⟩, ⟨.addition, ⟨js "3", true, by decide⟩⟩], [], not_mem_nil⟩ []

theorem reversePatch_addNewline : (reversePatch (render [addNewline]) (js "one\n2\n3\n") = .ok (js "one\ntwo") ↔
      addNewline.hunks ≠ [] ∧ FreeLines addNewline) ∧
      ∃ e, reversePatch (render [addNewline]) (js "one\n2\n") = .error e := by
  obtain ⟨htaken, hrefused⟩ := reversePatch_iff addNewline (by decide +kernel)
  exact ⟨htaken (js "one\ntwo") (js "one\n2\n3\n") [] ⟨by decide +kernel, by decide +kernel⟩,
    hrefused (by decide +kernel) (js "one\n2\n") (by decide +kernel)⟩

def changeReturn : FilePatch where
  oldPath := [0x61]
  newPath := [0x61]
  extended := [.index ⟨[1]⟩ ⟨[2]⟩ (some .file)]
  body := .hunks
    ⟨[], [⟨.deletion, ⟨js "one\r", true, by decide⟩⟩, ⟨.addition, ⟨js "two\r", true, by decide⟩⟩], [], not_mem_nil⟩ []

theorem return_not_reversed : ¬ ∀ (f : FilePatch) (oldText newText : Text) (rest : List Line), f.hunks ≠ [] →
      Diff.Of ⟨f.hunks, rest⟩ oldText newText → reversePatch (render [f]) newText = .ok oldText := by
  intro h
  have hreversed := h changeReturn (js "one\r\n") (js "two\r\n") [] (by decide) ⟨by decide +kernel, by decide +kernel⟩
  exact absurd hreversed (by decide +kernel)

end Reins.Patch
