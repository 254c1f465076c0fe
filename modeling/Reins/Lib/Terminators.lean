import Mathlib.Data.List.DropRight
import Reins.Lib.Lines

/-!
# Line terminators of JavaScript's patterns

In a pattern `.` stands for any unit but four, and with the flag `m` the mark `^` stands before a unit that one of
the four precedes. Of these only the line feed ends a line of a text: a carriage return and the two Unicode separators
may be inside one.
-/

namespace Terminators

open List

/-- A terminator that is not the line feed. -/
def isInner (u : UInt16) : Bool := u = 0x0D || u = 0x2028 || u = 0x2029

/-- What `.` stands for. -/
def isDot (u : UInt16) : Bool := u ≠ 0x0A && !isInner u

/-- What `.*` can match up to the end of a line: what its last terminator precedes. -/
def lastPiece (line : List UInt16) : List UInt16 := line.rtakeWhile isDot

/-- Whether `p` holds of a text from some place that `^` matches. -/
def anyStart (p : List UInt16 → Bool) : List UInt16 → Bool
  | [] => false
  | u :: rest => (!isDot u && p rest) || anyStart p rest

/-- `/^…/m`. -/
def testLines (p : List UInt16 → Bool) (s : List UInt16) : Bool := p s || anyStart p s

/-- What follows each terminator, where `p` holds of it. -/
def innerStarts (p : List UInt16 → Bool) : List UInt16 → List (List UInt16)
  | [] => []
  | u :: rest => (if !isDot u && p rest then [rest] else []) ++ innerStarts p rest

/-- `/^…/gm`, each match as the text from there on. -/
def matchLines (p : List UInt16 → Bool) (s : List UInt16) : List (List UInt16) :=
  (if p s then [s] else []) ++ innerStarts p s

def Free (s : List UInt16) : Prop := ∀ u ∈ s, isInner u = false

instance (s : List UInt16) : Decidable (Free s) := List.decidableBAll (fun u => isInner u = false) s

section

variable {s t line : List UInt16} {u : UInt16}

theorem Free.append (hs : Free s) (ht : Free t) : Free (s ++ t) :=
  fun u hu => (mem_append.mp hu).elim (hs u) (ht u)

theorem Free.of_subset (ht : Free t) (h : s ⊆ t) : Free s := fun u hu => ht u (h hu)

theorem isDot_iff : isDot u = true ↔ u ≠ 0x0A ∧ isInner u = false := by
  simp [isDot]

theorem free_lastPiece (line : List UInt16) : Free (lastPiece line) := fun _ hu =>
  (isDot_iff.mp (mem_rtakeWhile_imp hu)).2

theorem lastPiece_of_free (hfree : Free line) (hLF : 0x0A ∉ line) : lastPiece line = line :=
  rtakeWhile_eq_self_iff.mpr fun u hu => isDot_iff.mpr ⟨fun h => hLF (h ▸ hu), hfree u hu⟩

/-! ## Tests of a line's beginning -/

variable {p : List UInt16 → Bool} {ls : List (List UInt16)}

theorem testLines_append (line : List UInt16) (h : testLines p t = true) : testLines p (line ++ 0x0A :: t) = true := by
  refine Bool.or_eq_true_iff.mpr (.inr ?_)
  induction line with
  | nil => exact Bool.or_eq_true_iff.mpr (Bool.or_eq_true_iff.mp h)
  | cons u line ih => exact Bool.or_eq_true_iff.mpr (.inr ih)

/-- Behind a line without inner terminators it holds nowhere else. -/
theorem testLines_line (hfree : Free line) (hLF : 0x0A ∉ line) :
    testLines p (line ++ 0x0A :: t) = (p (line ++ 0x0A :: t) || testLines p t) := by
  refine congrArg (p (line ++ 0x0A :: t) || ·) ?_
  induction line with
  | nil => rfl
  | cons u line ih =>
    have hu : isDot u = true := isDot_iff.mpr ⟨fun h => hLF (h ▸ mem_cons_self), hfree u mem_cons_self⟩
    rw [cons_append, anyStart, hu]
    exact ih (hfree.of_subset (subset_cons_self u line)) fun h => hLF (mem_cons_of_mem u h)

theorem testLines_join (hfree : ∀ l ∈ ls, Free l) (hclean : Lines.Clean 0x0A ls) (hnil : p [] = false) :
    testLines p (Lines.join 0x0A ls) = true ↔
      ∃ line rest, line :: rest <:+ ls ∧ p (line ++ 0x0A :: Lines.join 0x0A rest) = true := by
  induction ls with
  | nil => simp [testLines, anyStart, hnil]
  | cons l ls ih =>
    simp only [forall_mem_cons, Lines.Clean] at hfree hclean
    rw [Lines.join_cons, testLines_line hfree.1 hclean.1, Bool.or_eq_true, ih hfree.2 hclean.2]
    constructor
    · rintro (h | ⟨line, rest, hsuffix, h⟩)
      · exact ⟨l, ls, suffix_rfl, h⟩
      · exact ⟨line, rest, hsuffix.trans (suffix_cons l ls), h⟩
    rintro ⟨line, rest, hsuffix, h⟩
    obtain heq | hsuffix := suffix_cons_iff.mp hsuffix
    · cases heq
      exact .inl h
    · exact .inr ⟨line, rest, hsuffix, h⟩

/-! ## Where lines begin so -/

theorem innerStarts_dots (h : ∀ u ∈ s, isDot u = true) (t : List UInt16) : innerStarts p (s ++ t) = innerStarts p t := by
  induction s with
  | nil => rfl
  | cons u s ih =>
    rw [cons_append, innerStarts, h u mem_cons_self]
    exact ih fun v hv => h v (mem_cons_of_mem u hv)

theorem of_mem_innerStarts (h : t ∈ innerStarts p s) : p t = true ∧ t <:+ s ∧ t.length < s.length := by
  induction s with
  | nil => cases h
  | cons u s ih =>
    rcases mem_append.mp h with h | h
    · split at h
      next hp =>
        rw [mem_singleton.mp h]
        exact ⟨(Bool.and_eq_true_iff.mp hp).2, suffix_cons u s, Nat.lt_succ_self _⟩
      · cases h
    · obtain ⟨hp, hsuffix, hlt⟩ := ih h
      exact ⟨hp, hsuffix.trans (suffix_cons u s), Nat.lt_succ_of_lt hlt⟩

theorem of_mem_matchLines (h : t ∈ matchLines p s) : p t = true := by
  rcases mem_append.mp h with h | h
  · split at h
    next hp =>
      rwa [mem_singleton.mp h]
    · cases h
  · exact (of_mem_innerStarts h).1

theorem pairwise_matchLines (p : List UInt16 → Bool) (s : List UInt16) :
    (matchLines p s).Pairwise fun a b => b <:+ a ∧ b.length < a.length := by
  have hinner : (innerStarts p s).Pairwise fun a b => b <:+ a ∧ b.length < a.length := by
    induction s with
    | nil => exact .nil
    | cons u s ih =>
      rw [innerStarts]
      split
      · exact .cons (fun _ h => (of_mem_innerStarts h).2) ih
      · exact ih
  rw [matchLines]
  split
  · exact .cons (fun _ h => (of_mem_innerStarts h).2) hinner
  · exact hinner

theorem matchLines_line (hp : ∀ l, p (l ++ 0x0A :: t) = p l) (line : List UInt16) :
    matchLines p (line ++ 0x0A :: t) = (matchLines p line).map (· ++ 0x0A :: t) ++ matchLines p t := by
  have hinner : innerStarts p (line ++ 0x0A :: t) = (innerStarts p line).map (· ++ 0x0A :: t) ++ matchLines p t := by
    induction line with
    | nil => rfl
    | cons u line ih =>
      rw [cons_append, innerStarts, innerStarts, ih, hp]
      split <;> simp
  rw [matchLines, matchLines, hinner, hp]
  split <;> simp

theorem length_matchLines_join (hp : ∀ t l, p (l ++ 0x0A :: t) = p l) (ls : List (List UInt16)) (t : List UInt16) :
    (matchLines p (Lines.join 0x0A ls ++ t)).length =
      (ls.map fun l => (matchLines p l).length).sum + (matchLines p t).length := by
  induction ls with
  | nil => simp
  | cons l ls ih =>
    rw [Lines.join_cons, append_assoc, cons_append, matchLines_line (hp _), length_append, length_map,
      ih, map_cons, sum_cons, Nat.add_assoc]

theorem matchLines_join (hp : ∀ t l, p (l ++ 0x0A :: t) = p l) (h : ∀ l ∈ ls, matchLines p l = []) (t : List UInt16) :
    matchLines p (Lines.join 0x0A ls ++ t) = matchLines p t := by
  induction ls with
  | nil => rfl
  | cons l ls ih =>
    rw [Lines.join_cons, append_assoc, cons_append, matchLines_line (hp _), h l mem_cons_self]
    exact ih fun m hm => h m (mem_cons_of_mem l hm)

theorem isPrefixOf_line {w : List UInt16} (hw : 0x0A ∉ w) (t l : List UInt16) :
    w.isPrefixOf (l ++ 0x0A :: t) = w.isPrefixOf l := by
  induction w generalizing l with
  | nil => rfl
  | cons u w ih =>
    rw [mem_cons, not_or] at hw
    cases l with
    | nil => simp [isPrefixOf_cons_cons, Ne.symm hw.1]
    | cons v l => simp [isPrefixOf_cons_cons, ih hw.2]

end

end Terminators
