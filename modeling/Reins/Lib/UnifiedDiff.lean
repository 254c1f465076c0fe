import Mathlib.Data.Nat.Digits.Defs
import Reins.Lib.Lines
import Reins.Lib.Quoting
import Reins.Lib.Search
import Reins.Lib.Utf

/-!
# Unified diffs, as git renders them

A text is its lines; only the last may be without a line feed. A diff of two texts is hunks of edited lines among
lines that both have, and a patch renders for each hunk where it is on either side and its lines, each behind a mark
of what becomes of it. Before the hunks a file's patch has header lines of printable ASCII: the file's names, quoted
where they are not plain, and what has happened to it.

All of it is lines, so a reader may cut a patch at its line feeds (`lines_clean`).
-/

namespace UnifiedDiff

open Utf List

abbrev Text := List UInt16

def LF : UInt16 := 0x0A
def space : UInt16 := 0x20
def tab : UInt16 := 0x09

/-! ## Numbers -/

def digitUnit (n : Nat) : UInt16 := UInt16.ofNat (0x30 + n)

def decimal (n : Nat) : Text := if n = 0 then [0x30] else (Nat.digits 10 n).reverse.map digitUnit

def isDigit (u : UInt16) : Bool := 0x30 ≤ u && u ≤ 0x39

def readNat (digits : Text) : Nat := Nat.ofDigits 10 (digits.reverse.map fun u => u.toNat - 0x30)

section

variable {n : Nat} {u : UInt16}

theorem digitUnit_toNat (h : n < 10) : (digitUnit n).toNat = 0x30 + n :=
  UInt16.toNat_ofNat_of_lt' (by simp only [UInt16.size]; omega)

theorem isDigit_digitUnit (h : n < 10) : isDigit (digitUnit n) = true := by
  simp only [isDigit, UInt16.le_iff_toNat_le, digitUnit_toNat h, Bool.and_eq_true, decide_eq_true_eq]
  exact ⟨Nat.le_add_right _ _, show 0x30 + n ≤ 0x39 by omega⟩

theorem isDigit_of_mem_decimal (h : u ∈ decimal n) : isDigit u = true := by
  unfold decimal at h
  split at h
  · rw [mem_singleton.mp h]
    rfl
  · obtain ⟨d, hd, rfl⟩ := mem_map.mp h
    exact isDigit_digitUnit (Nat.digits_lt_base (by decide) (mem_reverse.mp hd))

theorem decimal_ne_nil (n : Nat) : decimal n ≠ [] := by
  unfold decimal
  split
  · exact nofun
  next hn =>
    simpa [Nat.digits_eq_nil_iff_eq_zero] using hn

theorem readNat_decimal (n : Nat) : readNat (decimal n) = n := by
  unfold decimal readNat
  split
  next hn =>
    rw [hn]
    rfl
  · have hdigits : ((Nat.digits 10 n).map digitUnit).map (fun u => u.toNat - 0x30) = Nat.digits 10 n := by
      rw [map_map, map_congr_left (g := id), map_id]
      intro d hd
      have hlt := Nat.digits_lt_base (by decide) hd
      rw [Function.comp_apply, digitUnit_toNat hlt, Nat.add_sub_cancel_left]
      rfl
    rw [← map_reverse, reverse_reverse, hdigits, Nat.ofDigits_digits]

end

/-! ## Lines of a text -/

structure Line where
  text : Text
  newline : Bool
  clean : LF ∉ text
  deriving DecidableEq

def Line.units (l : Line) : Text := l.text ++ if l.newline then [LF] else []

def units (ls : List Line) : Text := ls.flatMap Line.units

def lines : Text → List Line
  | [] => []
  | u :: rest =>
    if h : u = LF then ⟨[], true, not_mem_nil⟩ :: lines rest
    else
      match lines rest with
      | [] => [⟨[u], false, fun hu => h (mem_singleton.mp hu).symm⟩]
      | l :: ls => ⟨u :: l.text, l.newline, fun hu => (mem_cons.mp hu).elim (fun e => h e.symm) l.clean⟩ :: ls

section

variable {s : Text} {l : Line} {ls ms : List Line}

theorem units_append (ls ms : List Line) : units (ls ++ ms) = units ls ++ units ms := flatMap_append

theorem units_lines (s : Text) : units (lines s) = s := by
  induction s with
  | nil => rfl
  | cons u rest ih =>
    rw [lines]
    split
    next h =>
      rw [units, flatMap_cons, ← units, ih, h]
      rfl
    · cases hrest : lines rest with
      | nil =>
        rw [hrest] at ih
        rw [← ih]
        rfl
      | cons l ls =>
        rw [hrest] at ih
        rw [← ih]
        rfl

end

/-! ## Diffs -/

inductive Kind
  | context
  | addition
  | deletion
  deriving DecidableEq

def Kind.mark : Kind → UInt16
  | .context => 0x20
  | .addition => 0x2B
  | .deletion => 0x2D

structure Edit where
  kind : Kind
  line : Line
  deriving DecidableEq

def oldSide (edits : List Edit) : List Line := (edits.filter (·.kind ≠ .addition)).map (·.line)

def newSide (edits : List Edit) : List Line := (edits.filter (·.kind ≠ .deletion)).map (·.line)

structure Hunk where
  /-- The lines before it that both texts have and the diff does not show. -/
  skipped : List Line
  edits : List Edit
  /-- What follows the numbers in its header, the function the hunk is in. -/
  heading : Text
  clean : LF ∉ heading

structure Diff where
  hunks : List Hunk
  /-- The lines after the last hunk that both texts have. -/
  rest : List Line

def Diff.old (d : Diff) : List Line := d.hunks.flatMap (fun h => h.skipped ++ oldSide h.edits) ++ d.rest

def Diff.new (d : Diff) : List Line := d.hunks.flatMap (fun h => h.skipped ++ newSide h.edits) ++ d.rest

structure Diff.Of (d : Diff) (old new : Text) : Prop where
  old : lines old = d.old
  new : lines new = d.new

/-! ## Rendering -/

/-- Where lines are on a side, counted from 1; where there are none, the line before. -/
def range (start count : Nat) : Text :=
  decimal (if count = 0 then start else start + 1) ++ if count = 1 then [] else 0x2C :: decimal count

def Hunk.header (old new : Nat) (h : Hunk) : Text :=
  js "@@ -" ++ range old (oldSide h.edits).length ++ js " +" ++ range new (newSide h.edits).length ++ js " @@" ++
    h.heading

def noNewline : Text := js "\\ No newline at end of file"

def Edit.lines (e : Edit) : List Text := (e.kind.mark :: e.line.text) :: if e.line.newline then [] else [noNewline]

def hunkLines : Nat → Nat → List Hunk → List Text
  | _, _, [] => []
  | old, new, h :: hs =>
    h.header (old + h.skipped.length) (new + h.skipped.length) :: h.edits.flatMap Edit.lines ++
      hunkLines (old + h.skipped.length + (oldSide h.edits).length) (new + h.skipped.length + (newSide h.edits).length)
        hs

/-! ## A file's patch -/

inductive Mode
  | file
  | executable
  | symlink
  | submodule
  deriving DecidableEq

def Mode.text : Mode → Text
  | .file => js "100644"
  | .executable => js "100755"
  | .symlink => js "120000"
  | .submodule => js "160000"

/-- An object's name, abbreviated or not. -/
structure Hash where
  digits : List (Fin 16)
  deriving DecidableEq

instance neZero_sixteen : NeZero 16 := ⟨by decide⟩

def Hash.text (h : Hash) : Text :=
  h.digits.map fun d => UInt16.ofNat (if d.val < 10 then 0x30 + d.val else 0x57 + d.val)

def quotedText (name : List UInt8) : Text := (Quoting.quoted name).map UInt8.toUInt16

/-- A path on a side of the diff, `a/` or `b/`. -/
def sideName (side : UInt8) (path : List UInt8) : Text := quotedText (side :: 0x2F :: path)

abbrev oldName (path : List UInt8) : Text := sideName 0x61 path

abbrev newName (path : List UInt8) : Text := sideName 0x62 path

/-- What a header tells of a file besides its names. -/
inductive Extended
  | oldMode (mode : Mode)
  | newMode (mode : Mode)
  | deletedFileMode (mode : Mode)
  | newFileMode (mode : Mode)
  | copyFrom (path : List UInt8)
  | copyTo (path : List UInt8)
  | renameFrom (path : List UInt8)
  | renameTo (path : List UInt8)
  | similarity (percent : Nat)
  | dissimilarity (percent : Nat)
  | index (old new : Hash) (mode : Option Mode)
  deriving DecidableEq

def Extended.text : Extended → Text
  | .oldMode mode => js "old mode " ++ mode.text
  | .newMode mode => js "new mode " ++ mode.text
  | .deletedFileMode mode => js "deleted file mode " ++ mode.text
  | .newFileMode mode => js "new file mode " ++ mode.text
  | .copyFrom path => js "copy from " ++ quotedText path
  | .copyTo path => js "copy to " ++ quotedText path
  | .renameFrom path => js "rename from " ++ quotedText path
  | .renameTo path => js "rename to " ++ quotedText path
  | .similarity percent => js "similarity index " ++ decimal percent ++ js "%"
  | .dissimilarity percent => js "dissimilarity index " ++ decimal percent ++ js "%"
  | .index old new mode =>
    js "index " ++ old.text ++ js ".." ++ new.text ++ match mode with | some mode => space :: mode.text | none => []

inductive Body
  | none
  | binary
  | hunks (first : Hunk) (more : List Hunk)

structure FilePatch where
  oldPath : List UInt8
  newPath : List UInt8
  extended : List Extended
  body : Body

def FilePatch.hunks (f : FilePatch) : List Hunk :=
  match f.body with
  | .none | .binary => []
  | .hunks first more => first :: more

def FilePatch.added (f : FilePatch) : Bool := f.extended.any fun e => match e with | .newFileMode _ => true | _ => false

def FilePatch.deleted (f : FilePatch) : Bool :=
  f.extended.any fun e => match e with | .deletedFileMode _ => true | _ => false

def FilePatch.oldLabel (f : FilePatch) : Text := if f.added then js "/dev/null" else oldName f.oldPath

def FilePatch.newLabel (f : FilePatch) : Text := if f.deleted then js "/dev/null" else newName f.newPath

def labelEnd (label : Text) : Text := if space ∈ label then [tab] else []

def FilePatch.first (f : FilePatch) : Text := js "diff --git " ++ oldName f.oldPath ++ space :: newName f.newPath

def FilePatch.headerLines (f : FilePatch) : List Text :=
  f.extended.map Extended.text ++ match f.body with
    | .none => []
    | .binary => [js "Binary files " ++ f.oldLabel ++ js " and " ++ f.newLabel ++ js " differ"]
    | .hunks _ _ => [js "--- " ++ f.oldLabel ++ labelEnd f.oldLabel, js "+++ " ++ f.newLabel ++ labelEnd f.newLabel]

def FilePatch.lines (f : FilePatch) : List Text := f.first :: f.headerLines ++ hunkLines 0 0 f.hunks

def render (files : List FilePatch) : Text := Lines.join LF (files.flatMap FilePatch.lines)

/-! ### What its lines are made of -/

def Simple (u : UInt16) : Prop := u = tab ∨ 0x20 ≤ u.toNat ∧ u.toNat < 0x7F

instance (u : UInt16) : Decidable (Simple u) := inferInstanceAs (Decidable (_ ∨ _))

def AllSimple (t : Text) : Prop := ∀ u ∈ t, Simple u

instance (t : Text) : Decidable (AllSimple t) := List.decidableBAll Simple t

section

variable {s t : Text} {u : UInt16} {f : FilePatch} {hs : List Hunk} {line : Text}

theorem AllSimple.append (hs : AllSimple s) (ht : AllSimple t) : AllSimple (s ++ t) :=
  fun u hu => (mem_append.mp hu).elim (hs u) (ht u)

theorem AllSimple.cons (hu : Simple u) (ht : AllSimple t) : AllSimple (u :: t) :=
  fun v hv => (mem_cons.mp hv).elim (fun h => h ▸ hu) (ht v)

theorem AllSimple.of_suffix (h : AllSimple t) (hs : s <:+ t) : AllSimple s := fun u hu => h u (hs.subset hu)

theorem AllSimple.notMem_LF (hs : AllSimple s) : LF ∉ s := fun h => absurd (hs LF h) (by decide)

theorem simple_decimal (n : Nat) : AllSimple (decimal n) := by
  intro u h
  have hdigit := isDigit_of_mem_decimal h
  simp only [isDigit, Bool.and_eq_true, decide_eq_true_eq, UInt16.le_iff_toNat_le, UInt16.reduceToNat] at hdigit
  exact .inr (by omega)

theorem simple_quotedText (name : List UInt8) : AllSimple (quotedText name) := by
  intro u h
  obtain ⟨b, hb, rfl⟩ := mem_map.mp h
  have := Quoting.printable_quoted hb
  exact .inr ⟨by simpa using this.1, by simpa using this.2⟩

theorem simple_mode (mode : Mode) : AllSimple mode.text := by
  cases mode <;> decide

theorem simple_hash (hash : Hash) : AllSimple hash.text := by
  intro u h
  obtain ⟨d, -, rfl⟩ := mem_map.mp h
  exact (by decide : ∀ d : Fin 16, Simple (UInt16.ofNat (if d.val < 10 then 0x30 + d.val else 0x57 + d.val))) d

theorem simple_extended (e : Extended) : AllSimple e.text := by
  cases e with
  | oldMode mode | newMode mode | deletedFileMode mode | newFileMode mode =>
    exact AllSimple.append (by decide) (simple_mode mode)
  | copyFrom path | copyTo path | renameFrom path | renameTo path =>
    exact AllSimple.append (by decide) (simple_quotedText path)
  | similarity percent | dissimilarity percent =>
    exact (AllSimple.append (by decide) (simple_decimal percent)).append (by decide)
  | index old new mode =>
    refine (((AllSimple.append (by decide) (simple_hash old)).append (by decide)).append (simple_hash new)).append ?_
    cases mode with
    | none => decide
    | some mode => exact .cons (by decide) (simple_mode mode)

theorem simple_oldLabel (f : FilePatch) : AllSimple f.oldLabel := by
  unfold FilePatch.oldLabel
  split
  · decide
  · exact simple_quotedText _

theorem simple_newLabel (f : FilePatch) : AllSimple f.newLabel := by
  unfold FilePatch.newLabel
  split
  · decide
  · exact simple_quotedText _

theorem simple_labelEnd (label : Text) : AllSimple (labelEnd label) := by
  unfold labelEnd
  split <;> decide

theorem simple_first (f : FilePatch) : AllSimple f.first :=
  (AllSimple.append (by decide) (simple_quotedText _)).append (.cons (by decide) (simple_quotedText _))

/-- **A header is printable.** -/
theorem simple_headerLines (h : line ∈ f.headerLines) : AllSimple line := by
  rcases mem_append.mp h with h | h
  · obtain ⟨e, -, rfl⟩ := mem_map.mp h
    exact simple_extended e
  cases hbody : f.body with
  | none => simp [hbody] at h
  | binary =>
    simp only [hbody, mem_singleton] at h
    rw [h]
    exact (((AllSimple.append (by decide) (simple_oldLabel f)).append (by decide)).append (simple_newLabel f)).append
      (by decide)
  | hunks first more =>
    simp only [hbody, mem_cons, not_mem_nil, or_false] at h
    rcases h with rfl | rfl
    · exact (AllSimple.append (by decide) (simple_oldLabel f)).append (simple_labelEnd _)
    · exact (AllSimple.append (by decide) (simple_newLabel f)).append (simple_labelEnd _)

theorem simple_range (start count : Nat) : AllSimple (range start count) := by
  refine (simple_decimal _).append ?_
  split
  · decide
  · exact .cons (by decide) (simple_decimal _)

/-- A hunk's header before its heading. -/
def Hunk.numbers (old new : Nat) (h : Hunk) : Text :=
  js "@@ -" ++ range old (oldSide h.edits).length ++ js " +" ++ range new (newSide h.edits).length ++ js " @@"

theorem Hunk.header_eq (old new : Nat) (h : Hunk) : h.header old new = h.numbers old new ++ h.heading := rfl

theorem simple_numbers (old new : Nat) (h : Hunk) : AllSimple (h.numbers old new) :=
  (((AllSimple.append (by decide) (simple_range _ _)).append (by decide)).append (simple_range _ _)).append (by decide)

theorem mem_hunkLines {old new : Nat} (h : line ∈ hunkLines old new hs) :
    ∃ hunk ∈ hs, (∃ old new, line = hunk.header old new) ∨
      ∃ e ∈ hunk.edits, line = e.kind.mark :: e.line.text ∨ e.line.newline = false ∧ line = noNewline := by
  induction hs generalizing old new with
  | nil => cases h
  | cons hunk hs ih =>
    rcases mem_append.mp h with h | h
    · rcases mem_cons.mp h with rfl | h
      · exact ⟨hunk, mem_cons_self .., .inl ⟨_, _, rfl⟩⟩
      obtain ⟨e, he, hline⟩ := mem_flatMap.mp h
      refine ⟨hunk, mem_cons_self .., .inr ⟨e, he, ?_⟩⟩
      rcases mem_cons.mp hline with rfl | hline
      · exact .inl rfl
      cases hnewline : e.line.newline with
      | true => simp [hnewline] at hline
      | false => exact .inr ⟨rfl, by simpa [hnewline] using hline⟩
    · obtain ⟨hunk', hmem, hline⟩ := ih h
      exact ⟨hunk', mem_cons_of_mem hunk hmem, hline⟩

theorem hunkLines_of_mem {hunk : Hunk} (old new : Nat) (h : hunk ∈ hs) :
    (∃ old' new', hunk.header old' new' ∈ hunkLines old new hs) ∧
      ∀ e ∈ hunk.edits, e.kind.mark :: e.line.text ∈ hunkLines old new hs := by
  induction hs generalizing old new with
  | nil => cases h
  | cons h' hs ih =>
    rw [hunkLines]
    rcases mem_cons.mp h with rfl | h
    · refine ⟨⟨_, _, mem_append_left _ mem_cons_self⟩, fun e he => ?_⟩
      exact mem_append_left _ (mem_cons_of_mem _ (mem_flatMap.mpr ⟨e, he, mem_cons_self⟩))
    · obtain ⟨⟨old', new', hheader⟩, hedits⟩ := ih _ _ h
      exact ⟨⟨old', new', mem_append_right _ hheader⟩, fun e he => mem_append_right _ (hedits e he)⟩

theorem hunkLines_clean {old new : Nat} : Lines.Clean LF (hunkLines old new hs) := by
  intro line h
  obtain ⟨hunk, -, ⟨old, new, rfl⟩ | ⟨e, -, rfl | ⟨-, rfl⟩⟩⟩ := mem_hunkLines h
  · rw [Hunk.header_eq, mem_append, not_or]
    exact ⟨(simple_numbers old new hunk).notMem_LF, hunk.clean⟩
  · intro hLF
    rcases mem_cons.mp hLF with hmark | hLF
    · cases hkind : e.kind <;> rw [hkind] at hmark <;> exact absurd hmark (by decide)
    · exact e.line.clean hLF
  · decide

theorem FilePatch.lines_clean (f : FilePatch) : Lines.Clean LF f.lines := by
  intro line h
  rcases mem_append.mp h with h | h
  · rcases mem_cons.mp h with rfl | h
    · exact (simple_first f).notMem_LF
    · exact (simple_headerLines h).notMem_LF
  · exact hunkLines_clean line h

/-- **A patch is cut back into its lines at its line feeds.** -/
theorem splitOn_render (files : List FilePatch) :
    (render files).splitOn LF = files.flatMap FilePatch.lines ++ [[]] := by
  have hclean : Lines.Clean LF (files.flatMap FilePatch.lines) := fun line h => by
    obtain ⟨f, -, hline⟩ := mem_flatMap.mp h
    exact f.lines_clean line hline
  have := Lines.splitOn_join (r := []) hclean not_mem_nil
  rwa [append_nil] at this

end

/-! ## Reading a header -/

structure HeaderDigits where
  oldStart : Text
  oldCount : Option Text
  newStart : Text
  newCount : Option Text
  deriving DecidableEq

def readDigits (s : Text) : Option (Text × Text) :=
  if s.takeWhile isDigit = [] then none else some (s.takeWhile isDigit, s.dropWhile isDigit)

def readCount (s : Text) : Option Text × Text :=
  match s with
  | 0x2C :: rest =>
    match readDigits rest with
    | some (digits, rest) => (some digits, rest)
    | none => (none, s)
  | _ => (none, s)

/-- `^@@ -(\d+)(?:,(\d+))? \+(\d+)(?:,(\d+))? @@`. -/
def readHeader (s : Text) : Option HeaderDigits := do
  let s ← Search.after (js "@@ -") s
  let (oldStart, s) ← readDigits s
  let (oldCount, s) := readCount s
  let s ← Search.after (js " +") s
  let (newStart, s) ← readDigits s
  let (newCount, s) := readCount s
  let _ ← Search.after (js " @@") s
  return ⟨oldStart, oldCount, newStart, newCount⟩

section

variable {s : Text}

theorem readDigits_decimal {n : Nat} (h : ∀ u ∈ s.head?, isDigit u = false) :
    readDigits (decimal n ++ s) = some (decimal n, s) := by
  have hdigits : ∀ u ∈ decimal n, isDigit u = true := fun u => isDigit_of_mem_decimal
  have htake : (decimal n ++ s).takeWhile isDigit = decimal n := by
    rw [takeWhile_append_of_pos hdigits]
    cases s with
    | nil => simp
    | cons u s => simp [h u rfl]
  have hdrop : (decimal n ++ s).dropWhile isDigit = s := by
    rw [dropWhile_append_of_pos hdigits]
    cases s with
    | nil => rfl
    | cons u s => simp [h u rfl]
  rw [readDigits, htake, hdrop, if_neg (decimal_ne_nil n)]

theorem readCount_range (count : Nat) (s : Text) :
    readCount ((if count = 1 then [] else 0x2C :: decimal count) ++ space :: s) =
      (if count = 1 then none else some (decimal count), space :: s) := by
  split
  · rfl
  · rw [cons_append, readCount, readDigits_decimal fun u hu => by rw [← Option.some.inj hu]; rfl]

theorem readDigits_range (start count : Nat) (s : Text) : readDigits (range start count ++ space :: s) =
      some (decimal (if count = 0 then start else start + 1),
        (if count = 1 then [] else 0x2C :: decimal count) ++ space :: s) := by
  rw [range, append_assoc]
  refine readDigits_decimal fun u hu => ?_
  split at hu <;> rw [← Option.some.inj hu] <;> rfl

/-- **A header's numbers are read back.** -/
theorem readHeader_header (old new : Nat) (h : Hunk) : readHeader (h.header old new) = some
      ⟨decimal (if (oldSide h.edits).length = 0 then old else old + 1),
        if (oldSide h.edits).length = 1 then none else some (decimal (oldSide h.edits).length),
        decimal (if (newSide h.edits).length = 0 then new else new + 1),
        if (newSide h.edits).length = 1 then none else some (decimal (newSide h.edits).length)⟩ := by
  have hplus (t : Text) : js " +" ++ t = space :: 0x2B :: t := rfl
  have hend (t : Text) : js " @@" ++ t = space :: 0x40 :: 0x40 :: t := rfl
  simp only [readHeader, Hunk.header, append_assoc, Search.after_append, Option.bind_eq_bind, Option.bind_some]
  rw [hplus, readDigits_range, Option.bind_some]
  dsimp only
  rw [readCount_range, ← hplus, Search.after_append, Option.bind_some, hend, readDigits_range, Option.bind_some]
  dsimp only
  rw [readCount_range, ← hend, Search.after_append, Option.bind_some]
  rfl

end

end UnifiedDiff
