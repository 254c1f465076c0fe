import Reins.Frontend.Patch

/-!
# The contents of a file that is new or gone (`frontend/src/models/changes/file-contents.ts`)

Of a file that a diff adds or deletes, both sides are taken out of its patch: what its lines are on the one, and
nothing on the other.
-/

namespace Reins.Patch

open Utf UnifiedDiff Terminators List

def loadOneSided (filePatch : Text) : Except PatchError (Text × Text) := do
  let oldContents ← extractFile filePatch .old
  let newContents ← extractFile filePatch .new
  return (oldContents, newContents)

/-! ## The patch of such a file -/

def Side.opposite : Side → Side
  | .old => .new
  | .new => .old

/-- What becomes of the lines of a file that only this side has. -/
def Side.kind : Side → Kind
  | .old => .deletion
  | .new => .addition

def Side.fileMode (mode : Mode) : Side → Extended
  | .old => .deletedFileMode mode
  | .new => .newFileMode mode

def oneSided (side : Side) (path : List UInt8) (mode : Mode) (before after : Hash) (s : Text) : FilePatch where
  oldPath := path
  newPath := path
  extended := [side.fileMode mode, .index before after none]
  body :=
    match UnifiedDiff.lines s with
    | [] => .none
    | l :: ls => .hunks ⟨[], (l :: ls).map (⟨side.kind, ·⟩), [], not_mem_nil⟩ []

/-- A line that the patch shows as this side's label where the side is null. -/
def nullText : Side → Text
  | .old => js "-- /dev/null"
  | .new => js "++ /dev/null"

def Whole (side : Side) (patch s : Text) : Prop :=
  loadOneSided patch = .ok (match side with | .old => (s, []) | .new => ([], s))

/-- No line ends, for JavaScript, before its line feed, and none looks like the label of no file. -/
def Extractable (side : Side) (s : Text) : Prop := Free s ∧ ∀ l ∈ UnifiedDiff.lines s, l.text ≠ nullText side

instance (side : Side) (s : Text) : Decidable (Extractable side s) := inferInstanceAs (Decidable (_ ∧ _))

section

variable {side : Side} {path : List UInt8} {mode : Mode} {before after : Hash} {s line : Text} {hunks : List PatchHunk}

theorem whole_iff {patch : Text} :
    Whole side patch s ↔ extractFile patch side = .ok s ∧ extractFile patch side.opposite = .ok [] := by
  unfold Whole loadOneSided
  cases hold : extractFile patch .old <;> cases hnew : extractFile patch .new <;> cases side <;>
    simp [bind, Except.bind, pure, Except.pure, hold, hnew, Side.opposite, and_comm]

theorem hunks_oneSided : (oneSided side path mode before after s).hunks = if UnifiedDiff.lines s = [] then []
      else [⟨[], (UnifiedDiff.lines s).map (⟨side.kind, ·⟩), [], not_mem_nil⟩] := by
  unfold oneSided FilePatch.hunks
  cases UnifiedDiff.lines s <;> rfl

/-! ### Its lines -/

theorem sideName_cons (letter : UInt8) (hletter : letter.toUInt16 ≠ 0x2F) (path : List UInt8) :
    ∃ u t, u ≠ 0x2F ∧ sideName letter path = u :: t := by
  unfold sideName quotedText Quoting.quoted
  split
  · exact ⟨_, _, hletter, rfl⟩
  · exact ⟨_, _, by decide, rfl⟩

theorem lines_cases (h : line ∈ (oneSided side path mode before after s).lines) :
    (∃ t, line = js "diff --git " ++ t) ∨ line = (side.fileMode mode).text ∨ (∃ t, line = js "index " ++ t) ∨
      (∃ t, line = side.opposite.kind.mark :: t) ∨
      (∃ u t, u ≠ 0x2F ∧ line = List.replicate 3 side.kind.mark ++ 0x20 :: u :: t) ∨ (∃ t, line = js "@@ -" ++ t) ∨
      (∃ l ∈ UnifiedDiff.lines s, line = side.kind.mark :: l.text) ∨ line = noNewline := by
  rcases mem_append.mp h with h | h
  · rcases mem_cons.mp h with rfl | h
    · exact .inl ⟨_, append_assoc ..⟩
    rcases mem_append.mp h with h | h
    · rcases mem_cons.mp h with rfl | h
      · exact .inr (.inl rfl)
      rw [map_singleton, mem_singleton] at h
      rw [h]
      exact .inr (.inr (.inl ⟨_, by simp only [Extended.text, append_assoc]; rfl⟩))
    · cases hbody : (oneSided side path mode before after s).body with
      | none => simp [hbody] at h
      | binary =>
        unfold oneSided at hbody
        cases hlines : UnifiedDiff.lines s <;> simp [hlines] at hbody
      | hunks first more =>
        simp only [hbody, mem_cons, not_mem_nil, or_false] at h
        cases side with
        | old =>
          obtain ⟨u, t, hu, hname⟩ := sideName_cons 0x61 (by decide) path
          rcases h with rfl | rfl
          · exact .inr (.inr (.inr (.inr (.inl ⟨u, _, hu, congrArg (js "--- " ++ · ++ _) hname⟩))))
          · exact .inr (.inr (.inr (.inl ⟨_, rfl⟩)))
        | new =>
          obtain ⟨u, t, hu, hname⟩ := sideName_cons 0x62 (by decide) path
          rcases h with rfl | rfl
          · exact .inr (.inr (.inr (.inl ⟨_, rfl⟩)))
          · exact .inr (.inr (.inr (.inr (.inl ⟨u, _, hu, congrArg (js "+++ " ++ · ++ _) hname⟩))))
  · obtain ⟨hunk, hmem, ⟨old, new, rfl⟩ | ⟨e, he, rfl | ⟨-, rfl⟩⟩⟩ := mem_hunkLines h
    · exact .inr (.inr (.inr (.inr (.inr (.inl ⟨_, by simp only [Hunk.header, append_assoc]; rfl⟩)))))
    · rw [hunks_oneSided] at hmem
      split at hmem
      · cases hmem
      obtain rfl := mem_singleton.mp hmem
      obtain ⟨l, hl, rfl⟩ := mem_map.mp he
      exact .inr (.inr (.inr (.inr (.inr (.inr (.inl ⟨l, hl, rfl⟩))))))
    · exact .inr (.inr (.inr (.inr (.inr (.inr (.inr rfl))))))

theorem null_mem_iff : side.kind.mark :: nullText side ∈ (oneSided side path mode before after s).lines ↔
    ∃ l ∈ UnifiedDiff.lines s, l.text = nullText side := by
  constructor
  · intro h
    obtain ⟨t, h⟩ | h | ⟨t, h⟩ | ⟨t, h⟩ | ⟨u, t, hu, h⟩ | ⟨t, h⟩ | ⟨l, hl, h⟩ | h := lines_cases h
    · cases side <;> cases h
    · cases side <;> cases h
    · cases side <;> cases h
    · cases side <;> cases h
    · cases side <;> cases h <;> exact absurd rfl hu
    · cases side <;> cases h
    · exact ⟨l, hl, (List.cons.inj h).2.symm⟩
    · cases side <;> cases h
  · rintro ⟨l, hl, htext⟩
    refine mem_append_right _ ?_
    rw [hunks_oneSided, if_neg (ne_nil_of_mem hl)]
    refine mem_append_left _ (mem_cons_of_mem _ (mem_flatMap.mpr ⟨_, mem_map_of_mem hl, ?_⟩))
    rw [← htext]
    exact mem_cons_self

/-! ### The other side -/

theorem testLines_fileMode {p : Text → Bool} (hp : ∀ rest, p ((side.fileMode mode).text ++ LF :: rest) = true) :
    testLines p (render [oneSided side path mode before after s]) = true := by
  obtain ⟨header, hheader⟩ : ∃ header, (oneSided side path mode before after s).headerLines =
      (side.fileMode mode).text :: header := ⟨_, rfl⟩
  rw [render, flatMap_singleton, FilePatch.lines, hheader, cons_append, Lines.join_cons, cons_append,
    Lines.join_cons]
  exact testLines_append _ (Bool.or_eq_true_iff.mpr (.inl (hp _)))

theorem opposite_null : nullSide (render [oneSided side path mode before after s]) side.opposite = true := by
  cases side with
  | old => exact Bool.or_eq_true_iff.mpr (.inr (testLines_fileMode fun rest => rfl))
  | new => exact Bool.or_eq_true_iff.mpr (.inr (testLines_fileMode fun rest => rfl))

theorem allowEmpty_oneSided : (hasNewFileMode (render [oneSided side path mode before after s]) ||
    hasDeletedFileMode (render [oneSided side path mode before after s])) = true := by
  cases side with
  | old => exact Bool.or_eq_true_iff.mpr (.inr (testLines_fileMode fun rest => rfl))
  | new => exact Bool.or_eq_true_iff.mpr (.inl (testLines_fileMode fun rest => rfl))

/-! ### Its own side -/

def nullMark : Side → String
  | .old => "---"
  | .new => "+++"

theorem nullMark_eq : js (nullMark side) ++ js " /dev/null" = side.kind.mark :: nullText side := by
  cases side <;> rfl

theorem isNullLine_iff (hfree : Free line) (hLF : LF ∉ line) (rest : Text) :
    isNullLine (nullMark side) (line ++ LF :: rest) = true ↔ line = side.kind.mark :: nullText side := by
  have hmark : LF ∉ side.kind.mark :: nullText side := by cases side <;> decide
  rw [isNullLine, nullMark_eq]
  constructor
  · intro h
    cases hafter : Search.after (side.kind.mark :: nullText side) (line ++ LF :: rest) with
    | none =>
      rw [hafter] at h
      cases h
    | some t =>
      rw [hafter] at h
      have heq := Search.after_eq_some_iff.mp hafter
      obtain ⟨w, hw, hrest⟩ | ⟨w, hw, hrest⟩ := append_eq_append_iff.mp heq
      · cases w with
        | nil => rw [hw, append_nil]
        | cons v w =>
          -- the label would take in the line feed
          obtain ⟨rfl, -⟩ := List.cons.inj hrest
          exact absurd (hw ▸ mem_append_right line mem_cons_self) hmark
      · cases w with
        | nil => rw [hw, append_nil]
        | cons v w =>
          have hv : v ∈ line := hw ▸ mem_append_right _ mem_cons_self
          rw [hrest, cons_append] at h
          have hdot : isDot v = true := isDot_iff.mpr ⟨fun heq => hLF (heq ▸ hv : 0x0A ∈ line), hfree v hv⟩
          simp [hdot] at h
  · intro h
    rw [h, Search.after_append]
    rfl

def otherMode : Side → String
  | .old => "new file mode "
  | .new => "deleted file mode "

theorem otherMode_line (h : line ∈ (oneSided side path mode before after s).lines) (rest : Text) :
    (js (otherMode side)).isPrefixOf (line ++ LF :: rest) = false := by
  obtain ⟨t, rfl⟩ | rfl | ⟨t, rfl⟩ | ⟨t, rfl⟩ | ⟨u, t, -, rfl⟩ | ⟨t, rfl⟩ | ⟨l, -, rfl⟩ | rfl := lines_cases h <;>
    cases side <;> rfl

theorem freeHeadings_oneSided : FreeHeadings (oneSided side path mode before after s) := by
  intro hunk hmem
  rw [hunks_oneSided] at hmem
  split at hmem
  · cases hmem
  · rw [mem_singleton.mp hmem]
    exact fun u hu => absurd hu not_mem_nil

/-- Without inner terminators the side is null only for a line that looks like the label of no file. -/
theorem nullSide_iff (hfree : FreeLines (oneSided side path mode before after s)) :
    nullSide (render [oneSided side path mode before after s]) side = true ↔
      ∃ l ∈ UnifiedDiff.lines s, l.text = nullText side := by
  have hlines := fun l (h : l ∈ (oneSided side path mode before after s).lines) =>
    free_lines freeHeadings_oneSided hfree h
  have hclean := (oneSided side path mode before after s).lines_clean
  have htest {p : Text → Bool} (hnil : p [] = false) :
      testLines p (render [oneSided side path mode before after s]) = true ↔
        ∃ line rest, line :: rest <:+ (oneSided side path mode before after s).lines ∧
          p (line ++ LF :: Lines.join LF rest) = true := by
    rw [render, flatMap_singleton]
    exact testLines_join hlines hclean hnil
  have hmode :
      testLines (js (otherMode side)).isPrefixOf (render [oneSided side path mode before after s]) = false := by
    rw [Bool.eq_false_iff, ne_eq, htest (by cases side <;> rfl)]
    rintro ⟨line, rest, hsuffix, h⟩
    rw [otherMode_line (hsuffix.subset mem_cons_self)] at h
    cases h
  have hnull : nullSide (render [oneSided side path mode before after s]) side =
      testLines (isNullLine (nullMark side)) (render [oneSided side path mode before after s]) := by
    cases side <;> exact (congrArg (_ || ·) hmode).trans (Bool.or_false _)
  rw [hnull, htest (by cases side <;> rfl), ← null_mem_iff]
  constructor
  · rintro ⟨line, rest, hsuffix, h⟩
    have hmem := hsuffix.subset mem_cons_self
    rwa [(isNullLine_iff (hlines line hmem) (hclean line hmem) _).mp h] at hmem
  intro h
  obtain ⟨before, rest, heq⟩ := append_of_mem h
  exact ⟨_, rest, heq ▸ suffix_append .., (isNullLine_iff (hlines _ h) (hclean _ h) _).mpr rfl⟩

theorem freeLines_iff : FreeLines (oneSided side path mode before after s) ↔ Free s := by
  rw [← innerCount_eq_zero_iff, ← units_lines s, innerCount_units_eq_zero_iff, units_lines]
  unfold FreeLines
  rw [hunks_oneSided]
  split
  next hnil =>
    simp [hnil]
  · simp

theorem foldlM_extractHunk : (patchHunks 0 0 (oneSided side path mode before after s).hunks).foldlM (extractHunk side)
    (0, []) = .ok ((UnifiedDiff.lines s).length, (UnifiedDiff.lines s).map textLine) := by
  rw [hunks_oneSided]
  split
  next hnil =>
    rw [hnil]
    rfl
  · have hold : oldSide ((UnifiedDiff.lines s).map (⟨.deletion, ·⟩)) = UnifiedDiff.lines s := by
      simp [oldSide, filter_map, Function.comp_def]
    have hnew : newSide ((UnifiedDiff.lines s).map (⟨.addition, ·⟩)) = UnifiedDiff.lines s := by
      simp [newSide, filter_map, Function.comp_def]
    cases side with
    | old =>
      simp [-map_map, patchHunks, patchHunk, extractHunk, Side.kind, sideLines_old, hold, rangeIndex_startNumber,
        bind, Except.bind, pure, Except.pure]
    | new =>
      simp [-map_map, patchHunks, patchHunk, extractHunk, Side.kind, sideLines_new, hnew, rangeIndex_startNumber,
        bind, Except.bind, pure, Except.pure]

/-- Of lines without inner terminators the text is taken out whole. -/
theorem extractFile_free (hfree : Free s)
    (hnull : nullSide (render [oneSided side path mode before after s]) side = false) :
    extractFile (render [oneSided side path mode before after s]) side = .ok s := by
  rw [extractFile, hnull, allowEmpty_oneSided, parseHunks_render freeHeadings_oneSided (freeLines_iff.mpr hfree)]
  have hempty : ¬((oneSided side path mode before after s).hunks = [] ∧ true = false) := fun h => nomatch h.2
  rw [if_neg hempty]
  show ((patchHunks 0 0 (oneSided side path mode before after s).hunks).foldlM (extractHunk side) (0, []) >>=
    fun result => .ok (joinText result.2)) = _
  rw [foldlM_extractHunk]
  exact congrArg Except.ok ((joinText_map _).trans (units_lines s))

theorem innerCount_foldlM_extractHunk {st st' : Reversing} (hfree : FreeParsing hunks)
    (hst : innerCount (joinText st.2) = 0) (h : hunks.foldlM (extractHunk side) st = .ok st') :
    innerCount (joinText st'.2) = 0 := by
  induction hunks generalizing st with
  | nil =>
    cases h
    exact hst
  | cons hunk hunks ih =>
    rw [foldlM_cons] at h
    cases hmid : extractHunk side st hunk with
    | error e =>
      rw [hmid] at h
      cases h
    | ok mid =>
      rw [hmid] at h
      refine ih (fun x hx => hfree x (mem_cons_of_mem _ hx)) ?_ h
      unfold extractHunk at hmid
      dsimp only at hmid
      split_ifs at hmid
      · cases hmid
        rw [joinText_append, innerCount_append, hst,
          innerCount_joinText_of_free (free_sideLines (hfree hunk mem_cons_self))]

theorem free_of_extractFile {result : Text}
    (h : extractFile (render [oneSided side path mode before after s]) side = .ok result) : Free result := by
  rw [extractFile] at h
  split at h
  · cases h
    exact fun u hu => absurd hu not_mem_nil
  cases hparsed : parseHunks (render [oneSided side path mode before after s])
      (hasNewFileMode (render [oneSided side path mode before after s]) ||
        hasDeletedFileMode (render [oneSided side path mode before after s])) with
  | error e =>
    rw [hparsed] at h
    cases h
  | ok hunks =>
    rw [hparsed] at h
    cases hextracted : hunks.foldlM (extractHunk side) (0, []) with
    | error e => simp [bind, Except.bind, hextracted] at h
    | ok st =>
      simp only [bind, Except.bind, hextracted, pure, Except.pure, Except.ok.injEq] at h
      rw [← h, ← innerCount_eq_zero_iff]
      exact innerCount_foldlM_extractHunk (parseHunks_any freeHeadings_oneSided hparsed).1 rfl hextracted

theorem extractFile_iff :
    extractFile (render [oneSided side path mode before after s]) side = .ok s ↔ Extractable side s := by
  constructor
  · intro h
    have hfree := free_of_extractFile h
    refine ⟨hfree, fun l hl htext => ?_⟩
    rw [extractFile, if_pos ((nullSide_iff (freeLines_iff.mpr hfree)).mpr ⟨l, hl, htext⟩)] at h
    cases h
    cases hl
  · rintro ⟨hfree, hlines⟩
    refine extractFile_free hfree (Bool.eq_false_iff.mpr fun hnull => ?_)
    obtain ⟨l, hl, htext⟩ := (nullSide_iff (freeLines_iff.mpr hfree)).mp hnull
    exact hlines l hl htext

end

/-- **A file that a diff adds or deletes is taken out whole**, and empty from the other side, just if no line ends for
JavaScript before its line feed and none looks like the label of no file. -/
theorem whole_oneSided (side : Side) (path : List UInt8) (mode : Mode) (before after : Hash) (s : Text) :
    Whole side (render [oneSided side path mode before after s]) s ↔ Extractable side s := by
  rw [whole_iff, extractFile_iff, and_iff_left]
  rw [extractFile, if_pos opposite_null]

theorem null_label_lost : ¬ ∀ (side : Side) (path : List UInt8) (mode : Mode) (before after : Hash) (s : Text),
    Whole side (render [oneSided side path mode before after s]) s := by
  intro h
  have hwhole := h .new [0x61] .file ⟨[0]⟩ ⟨[1]⟩ (js "++ /dev/null\n")
  exact absurd (whole_iff.mp hwhole).1 (by decide +kernel)

end Reins.Patch
