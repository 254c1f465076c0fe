import Reins.Backend.CodeReviews
import Reins.Lib.CommonMark
import Reins.Lib.Lines

/-!
# Settled boundaries of a streamed message

`streaming-markdown.ts` of the frontend. A message is shown in segments, cut at the boundaries that a scan of its
complete lines finds. Between scans only the boundary is kept, so each must be a place where the scan is as it starts.
-/

namespace Reins.StreamingMarkdown

open Run Utf List
open CodeReviews (isWhiteSpace)

abbrev Text := List UInt16

def LF : UInt16 := 0x0A

/-! ## Patterns of a line -/

def trimStart (line : Text) : Text := line.dropWhile isWhiteSpace

def leadingWhitespace (line : Text) : Nat := line.length - (trimStart line).length

structure OpenFence where
  char : UInt16
  length : Nat
  indent : Nat
  deriving DecidableEq

/-- A line terminator that a line may hold, for which `.` does not stand. -/
def isInner (u : UInt16) : Bool := u = 0x0D || u = 0x2028 || u = 0x2029

/-- ``(`{3,}|~{3,})`` at the beginning, and what follows it. -/
def marker (s : Text) : Option (UInt16 × Nat × Text) :=
  match s with
  | [] => none
  | char :: rest =>
    let length := (rest.takeWhile (· = char)).length + 1
    if (char = 0x60 || char = 0x7E) && 3 ≤ length then some (char, length, rest.drop (length - 1)) else none

def openFence (line : Text) : Option OpenFence :=
  match marker (trimStart line) with
  | some (char, length, info) =>
    if info.any isInner then none
    else if char = 0x60 && info.contains 0x60 then none
    else some ⟨char, length, leadingWhitespace line⟩
  | none => none

def closesFence (line : Text) (fence : OpenFence) : Bool :=
  if leadingWhitespace line > fence.indent + 3 then false
  else
    match marker (trimStart line) with
    | some (char, length, rest) => rest.all isWhiteSpace && char = fence.char && fence.length ≤ length
    | none => false

def isDigit (u : UInt16) : Bool := 0x30 ≤ u && u ≤ 0x39

def isLetter (u : UInt16) : Bool := 0x41 ≤ u && u ≤ 0x5A || 0x61 ≤ u && u ≤ 0x7A

def endsWord (s : Text) : Bool := s.head?.all isWhiteSpace

def isListMarker (s : Text) : Bool :=
  match s with
  | [] => false
  | u :: rest =>
    let digits := (s.takeWhile isDigit).length
    (u = 0x2D || u = 0x2A || u = 0x2B) && endsWord rest || 1 ≤ digits && digits ≤ 9 && match s.drop digits with
        | [] => false
        | delimiter :: rest => (delimiter = 0x2E || delimiter = 0x29) && endsWord rest

/-- Without `BLOCKQUOTE_PREFIX`. -/
def withoutQuotes : Text → Text
  | [] => []
  | u :: rest =>
    if u = 0x3E then
      match rest with
      | [] => []
      | space :: rest' => if isWhiteSpace space then withoutQuotes rest' else withoutQuotes (space :: rest')
    else u :: rest

def isReferenceDefinition (line : Text) : Bool :=
  let rest := line.dropWhile (· = 0x20)
  line.length - rest.length ≤ 3 && match rest with
    | [] => false
    | bracket :: rest =>
      let label := rest.takeWhile (· ≠ 0x5D)
      bracket = 0x5B && label ≠ [] && [0x5D, 0x3A].isPrefixOf (rest.drop label.length)

/-- `[a-z][a-z0-9+.-]*:` of either case. -/
def isScheme (s : Text) : Bool :=
  let rest := s.dropWhile fun u => isLetter u || isDigit u || u = 0x2B || u = 0x2E || u = 0x2D
  s.head?.any isLetter && rest.head? = some 0x3A

def isHtmlBlockStart (s : Text) : Bool :=
  match s with
  | [] => false
  | u :: rest => u = 0x3C && !isScheme rest && rest.head?.any fun u => isLetter u || u = 0x21 || u = 0x3F || u = 0x2F

/-- What may reach over a boundary. -/
def disablesSplitting (line : Text) : Bool := isReferenceDefinition line || isHtmlBlockStart (trimStart line)

def includesMath : Text → Bool
  | u :: v :: rest => u = 0x24 && v = 0x24 || includesMath (v :: rest)
  | _ => false

def opensMath (line : Text) : Bool :=
  [0x24, 0x24].isPrefixOf (trimStart line) && !includesMath ((trimStart line).drop 2)

/-! ## The scan -/

structure Scan where
  boundary : Nat
  position : Nat
  fence : Option OpenFence
  inMath : Bool
  blockHasContent : Bool
  blockUnsafe : Bool

def Scan.start (offset : Nat) : Scan := ⟨offset, offset, none, false, false, false⟩

/-- A complete line, or `none` where splitting is disabled. -/
def scanLine (s : Scan) (line : Text) : Option Scan :=
  let s := { s with position := s.position + (line.length + 1) }
  match s.fence with
  | some fence => some (if closesFence line fence then { s with fence := none } else s)
  | none =>
    if s.inMath then some (if includesMath line then { s with inMath := false } else s)
    else if trimStart line = [] then
      some
        { s with
          boundary := if s.blockHasContent && !s.blockUnsafe then s.position else s.boundary
          blockHasContent := false
          blockUnsafe := false }
    else if disablesSplitting line then none
    else
      some
        { s with
          fence := openFence line
          inMath := (openFence line).isNone && opensMath line
          blockHasContent := true
          blockUnsafe := s.blockUnsafe || !s.blockHasContent && (trimStart line).length ≠ line.length ||
            isListMarker (withoutQuotes (trimStart line)) }

structure SettledMarkdownScan where
  boundary : Nat
  splittable : Bool
  deriving DecidableEq

def completeLines (text : Text) : List Text := (text.splitOn LF).dropLast

def incompleteLine (text : Text) : Text := (text.splitOn LF).getLast?.getD []

def scanSettledMarkdown (text : Text) (start : Nat) : SettledMarkdownScan :=
  match (completeLines (text.drop start)).foldlM scanLine (.start start) with
  | none => ⟨start, false⟩
  | some s =>
    if s.fence.isNone && !s.inMath && disablesSplitting (incompleteLine (text.drop start)) then ⟨start, false⟩
    else ⟨s.boundary, true⟩

/-- A message as far as it has come, and the boundary of the last scan. -/
structure State where
  text : Text
  boundary : Nat

def State.init : State := ⟨[], 0⟩

/-- More of the message comes, and is scanned from the boundary. -/
def step (s : State) (piece : Text) : State :=
  ⟨s.text ++ piece, (scanSettledMarkdown (s.text ++ piece) s.boundary).boundary⟩

/-! ## What a scan finds -/

section

variable {s s' : Scan} {line text rest : Text} {ls : List Text} {b : Nat}

theorem lines_join (hl : Lines.Clean LF ls) (hr : LF ∉ rest) :
    completeLines (Lines.join LF ls ++ rest) = ls ∧ incompleteLine (Lines.join LF ls ++ rest) = rest := by
  simp [completeLines, incompleteLine, Lines.splitOn_join hl hr]

theorem lines_append (hl : Lines.Clean LF ls) (rest : Text) :
    completeLines (Lines.join LF ls ++ rest) = ls ++ completeLines rest ∧
      incompleteLine (Lines.join LF ls ++ rest) = incompleteLine rest := by
  obtain ⟨ms, r, hm, hr, rfl⟩ := Lines.exists_join LF rest
  have hboth : Lines.Clean LF (ls ++ ms) := fun l h => (mem_append.mp h).elim (hl l) (hm l)
  rw [← append_assoc, ← Lines.join_append, (lines_join hboth hr).1, (lines_join hboth hr).2, (lines_join hm hr).1,
    (lines_join hm hr).2]
  exact ⟨rfl, rfl⟩

theorem scanLine_spec (h : scanLine s line = some s') :
    s'.position = s.position + (line.length + 1) ∧ (s'.boundary = s.boundary ∨ s' = .start s'.position) := by
  unfold scanLine at h
  dsimp only at h
  split at h
  · cases h
    split <;> exact ⟨rfl, .inl rfl⟩
  split at h
  · cases h
    split <;> exact ⟨rfl, .inl rfl⟩
  split at h
  · cases h
    refine ⟨rfl, ?_⟩
    by_cases hsettles : s.blockHasContent && !s.blockUnsafe
    · simp_all [Scan.start]
    · simp_all
  · split at h
    · cases h
    · cases h
      exact ⟨rfl, .inl rfl⟩

theorem foldlM_spec (h : ls.foldlM scanLine (.start b) = some s) :
    s.position = b + (Lines.join LF ls).length ∧ ∃ pre post, ls = pre ++ post ∧
      s.boundary = b + (Lines.join LF pre).length ∧ pre.foldlM scanLine (.start b) = some (.start s.boundary) := by
  induction ls using List.reverseRecOn generalizing s with
  | nil =>
    cases h
    exact ⟨rfl, [], [], rfl, rfl, rfl⟩
  | append_singleton ls line ih =>
    rw [foldlM_append, Option.bind_eq_bind, Option.bind_eq_some_iff] at h
    obtain ⟨m, hm, h⟩ := h
    have hline : scanLine m line = some s := by simpa using h
    obtain ⟨hposition, pre, post, rfl, hboundary, hpre⟩ := ih hm
    obtain ⟨hp, hb | hstart⟩ := scanLine_spec hline
    · refine ⟨by simp [hp, hposition, Nat.add_assoc], pre, post ++ [line], by simp, ?_⟩
      rw [hb]
      exact ⟨hboundary, hpre⟩
    have hend : s.position = b + (Lines.join LF (pre ++ post ++ [line])).length := by
      simp [hp, hposition, Nat.add_assoc]
    have hsame : s.boundary = s.position := congrArg Scan.boundary hstart
    refine ⟨hend, pre ++ post ++ [line], [], by simp, hsame.trans hend, ?_⟩
    rw [foldlM_append, hm, hsame, ← hstart]
    simpa using hline

theorem scan_cases (text : Text) (b : Nat) : scanSettledMarkdown text b = ⟨b, false⟩ ∨
      ∃ s, (completeLines (text.drop b)).foldlM scanLine (.start b) = some s ∧
        scanSettledMarkdown text b = ⟨s.boundary, true⟩ := by
  unfold scanSettledMarkdown
  split
  · exact .inl rfl
  rename_i s hs
  split
  · exact .inl rfl
  · exact .inr ⟨s, hs, rfl⟩

end

/-! ## Scanning on -/

def Settled (s : State) : Prop :=
  ∃ ls rest, Lines.Clean LF ls ∧ s.text = Lines.join LF ls ++ rest ∧ s.boundary = (Lines.join LF ls).length ∧
    ls.foldlM scanLine (.start 0) = some (.start s.boundary)

def completed (text : Text) : Nat := (Lines.join LF (completeLines text)).length

/-- What a scan of a message that has grown is, beside one from its start. -/
def Incremental (s : State) (piece : Text) : Prop :=
  let text := s.text ++ piece
  let scan := scanSettledMarkdown text s.boundary
  let whole := scanSettledMarkdown text 0
  (scan.splittable → whole.splittable → scan.boundary = whole.boundary) ∧
    s.boundary ≤ scan.boundary ∧ scan.boundary ≤ completed text

section

variable {s : State} {piece : Text}

theorem settled_init : Settled .init := ⟨[], [], fun _ hl => absurd hl not_mem_nil, rfl, rfl, rfl⟩

theorem Settled.grow (h : Settled s) (piece : Text) : Settled ⟨s.text ++ piece, s.boundary⟩ := by
  obtain ⟨ls, rest, hl, htext, hboundary, hscan⟩ := h
  exact ⟨ls, rest ++ piece, hl, by rw [htext, append_assoc], hboundary, hscan⟩

theorem Settled.lines (h : Settled s) :
    ∃ ls, ls.foldlM scanLine (.start 0) = some (.start s.boundary) ∧ s.boundary = (Lines.join LF ls).length ∧
      completeLines s.text = ls ++ completeLines (s.text.drop s.boundary) ∧
        incompleteLine s.text = incompleteLine (s.text.drop s.boundary) := by
  obtain ⟨ls, rest, hl, htext, hboundary, hscan⟩ := h
  refine ⟨ls, hscan, hboundary, ?_⟩
  rw [hboundary, htext, drop_left]
  exact lines_append hl rest

theorem Settled.whole (h : Settled s) : (completeLines s.text).foldlM scanLine (.start 0) =
      (completeLines (s.text.drop s.boundary)).foldlM scanLine (.start s.boundary) := by
  obtain ⟨ls, hscan, -, hlines, -⟩ := h.lines
  rw [hlines, foldlM_append, hscan]
  rfl

theorem Settled.scanned (h : Settled s) : Settled ⟨s.text, (scanSettledMarkdown s.text s.boundary).boundary⟩ := by
  obtain hnot | ⟨m, hm, hscan⟩ := scan_cases s.text s.boundary
  · rw [hnot]
    exact h
  rw [hscan]
  obtain ⟨ls, rest, hl, htext, hboundary, hstart⟩ := h
  obtain ⟨ms, r, hclean, hr, hrest⟩ := Lines.exists_join LF rest
  rw [hboundary, htext, drop_left, hrest, (lines_join hclean hr).1] at hm
  obtain ⟨-, pre, post, rfl, hend, hpre⟩ := foldlM_spec hm
  refine ⟨ls ++ pre, Lines.join LF post ++ r, ?_, by simp [htext, hrest], by simp [hend], ?_⟩
  · exact fun l h => (mem_append.mp h).elim (hl l) fun h => hclean l (mem_append_left _ h)
  · rw [foldlM_append, hstart, hboundary]
    exact hpre

theorem Settled.step (h : Settled s) (piece : Text) : Settled (step s piece) := (h.grow piece).scanned

theorem Settled.incremental (h : Settled s) (piece : Text) : Incremental s piece := by
  have hgrown := h.grow piece
  obtain ⟨ls, -, hboundary, hlines, hincomplete⟩ := hgrown.lines
  have hwhole := hgrown.whole
  dsimp only at hboundary hlines hincomplete hwhole
  have hcompleted : s.boundary ≤ completed (s.text ++ piece) := by
    rw [completed, hlines, Lines.join_append, length_append, hboundary]
    exact Nat.le_add_right _ _
  obtain hnot | ⟨m, hm, hscan⟩ := scan_cases (s.text ++ piece) s.boundary
  · simp only [Incremental, hnot]
    exact ⟨fun hsplit => absurd hsplit Bool.false_ne_true, Nat.le_refl _, hcompleted⟩
  simp only [Incremental, hscan]
  obtain ⟨-, pre, post, hpre, hend, -⟩ := foldlM_spec hm
  refine ⟨fun _ hsplit => ?_, hend ▸ Nat.le_add_right _ _, ?_⟩
  · obtain hnot | ⟨m', hm', hscan'⟩ := scan_cases (s.text ++ piece) 0
    · rw [hnot] at hsplit
      cases hsplit
    · rw [drop_zero, hwhole, hm] at hm'
      rw [hscan', Option.some.inj hm']
  · rw [completed, hlines, hpre, Lines.join_append, Lines.join_append, length_append, length_append, hend,
      ← Nat.add_assoc, hboundary]
    exact Nat.le_add_right _ _

end

/-- **Scanning on is scanning from the start**, however the message grows. -/
theorem incremental_scan (pieces : List Text) : Along step Incremental .init pieces :=
  Along.of_invariant Settled (fun _ piece _ h => h.step piece) (fun _ piece _ h => h.incremental piece) settled_init
    (along_of_forall (P := fun _ => True) fun _ _ => trivial)

/-! ## Boundaries and code blocks -/

section

open CommonMark (Document OtherBlock)

variable (other : OtherBlock)

/-- What CommonMark has read after complete lines. -/
def document (ls : List Text) : Document := ls.foldl (Document.readAll other) .empty

def Inside (text : Text) (boundary : Nat) : Prop :=
  (document other (completeLines (text.take boundary))).fence.isSome ∧ boundary < text.length

def OpenFence.opening (fence : OpenFence) : CommonMark.Fence := ⟨fence.char, fence.length⟩

def fenceAfter (fence : Option OpenFence) (inMath : Bool) (line : Text) : Option OpenFence :=
  match fence with
  | some fence => if closesFence line fence then none else some fence
  | none => if inMath then none else openFence line

def mathAfter (fence : Option OpenFence) (inMath : Bool) (line : Text) : Bool :=
  match fence with
  | some _ => inMath
  | none => if inMath then !includesMath line else (openFence line).isNone && opensMath line

def Disables (fence : Option OpenFence) (inMath : Bool) (line : Text) : Prop :=
  fence = none ∧ inMath = false ∧ trimStart line ≠ [] ∧ disablesSplitting line

instance (fence : Option OpenFence) (inMath : Bool) (line : Text) : Decidable (Disables fence inMath line) :=
  inferInstanceAs (Decidable (_ ∧ _))

/-- On each line the patterns open and close a fence where CommonMark does, until one disables splitting. -/
def AgreesFrom (d : Document) (fence : Option OpenFence) (inMath : Bool) : List Text → Prop
  | [] => True
  | line :: rest =>
    Disables fence inMath line ∨ (d.readAll other line).fence = (fenceAfter fence inMath line).map OpenFence.opening ∧
        AgreesFrom (d.readAll other line) (fenceAfter fence inMath line) (mathAfter fence inMath line) rest

def Agrees (text : Text) : Prop := AgreesFrom other .empty none false (completeLines text)

instance AgreesFrom.decidable (d : Document) (fence : Option OpenFence) (inMath : Bool) (ls : List Text) :
    Decidable (AgreesFrom other d fence inMath ls) :=
  match ls with
  | [] => .isTrue trivial
  | line :: rest =>
    have := decidable (d.readAll other line) (fenceAfter fence inMath line) (mathAfter fence inMath line) rest
    inferInstanceAs (Decidable (_ ∨ _ ∧ _))

instance (text : Text) : Decidable (Agrees other text) := AgreesFrom.decidable ..

variable {other} {s s' : Scan} {d : Document} {line : Text} {ls ms : List Text}

theorem scanLine_fence (h : scanLine s line = some s') :
    ¬Disables s.fence s.inMath line ∧ s'.fence = fenceAfter s.fence s.inMath line ∧
      s'.inMath = mathAfter s.fence s.inMath line := by
  unfold scanLine at h
  dsimp only at h
  split at h
  next hfence =>
    cases h
    refine ⟨fun hd => ?_, ?_⟩
    · cases hfence.symm.trans hd.1
    · split <;> simp_all [fenceAfter, mathAfter]
  next hfence =>
    split at h
    next hmath =>
      cases h
      refine ⟨fun hd => ?_, ?_⟩
      · cases hmath.symm.trans hd.2.1
      · split <;> simp_all [fenceAfter, mathAfter]
    next hmath =>
      split at h
      next hblank =>
        cases h
        refine ⟨fun hd => hd.2.2.1 hblank, ?_⟩
        simp [fenceAfter, mathAfter, hfence, hmath, openFence, marker, opensMath, hblank]
      · split at h
        · cases h
        rename_i hdisables
        cases h
        refine ⟨fun hd => hdisables hd.2.2.2, ?_⟩
        simp [fenceAfter, mathAfter, hfence, hmath]

theorem document_of_scan (hagrees : AgreesFrom other d s.fence s.inMath (ls ++ ms))
    (hd : d.fence = s.fence.map OpenFence.opening) (h : ls.foldlM scanLine s = some s') :
    (ls.foldl (Document.readAll other) d).fence = s'.fence.map OpenFence.opening := by
  induction ls generalizing s d with
  | nil =>
    cases h
    exact hd
  | cons line ls ih =>
    rw [foldlM_cons, Option.bind_eq_bind, Option.bind_eq_some_iff] at h
    obtain ⟨m, hm, h⟩ := h
    obtain ⟨hnot, hfence, hmath⟩ := scanLine_fence hm
    obtain hdisables | ⟨hread, hrest⟩ := hagrees
    · exact absurd hdisables hnot
    · rw [← hfence, ← hmath] at hrest
      exact ih hrest (hread.trans (by rw [hfence])) h

theorem Settled.outside {s : State} (h : Settled s) (hagrees : Agrees other s.text) : ¬Inside other s.text s.boundary := by
  rintro ⟨hinside, -⟩
  obtain ⟨ls, rest, hl, htext, hboundary, hscan⟩ := h
  have hlines : completeLines (s.text.take s.boundary) = ls := by
    rw [hboundary, htext, take_left]
    have hnil : LF ∉ [] := not_mem_nil
    simpa using (lines_join hl hnil).1
  rw [Agrees, htext, (lines_append hl rest).1] at hagrees
  rw [hlines, document, document_of_scan (s := .start 0) hagrees rfl hscan] at hinside
  exact Bool.false_ne_true hinside

end

end Reins.StreamingMarkdown
