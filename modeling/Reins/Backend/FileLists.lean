import Mathlib
import Reins.Backend.McpServers
import Reins.Lib.Lines
import Reins.Lib.Quoting
import Reins.Lib.TextStream

/-!
# Listed files (`backend/src/git.ts`)

`git ls-files` writes a path a line, quoted unless it is plain, and `parseLines` reads the lines. A path is the
bytes git has for it; a string names the path that is its UTF-8.
-/

namespace Reins.FileLists

open Utf Schema List
open CodeReviews (isWhiteSpace trim)
open Quoting (quoted isPlain Printable)

structure Path where
  bytes : List UInt8
  ne_nil : bytes ≠ []
  noZero : 0 ∉ bytes
  deriving DecidableEq

/-- What is in a repository's index, and what else there is that is not ignored. -/
structure Repository where
  tracked : List Path
  untracked : List Path

def newline : UInt8 := 0x0A

/-- The output of `git ls-files`. -/
def lsFiles (paths : List Path) : List UInt8 := Lines.join newline (paths.map fun p => quoted p.bytes)

/-- The text of a process's output. -/
def text (stdout : List UInt8) : JsString := (decodeText false stdout).flatMap units

def parseLines (output : JsString) : List JsString := ((output.splitOn newline.toUInt16).map trim).filter (· ≠ [])

def listTrackedFiles (repository : Repository) : List JsString := parseLines (text (lsFiles repository.tracked))

def listUntrackedFiles (repository : Repository) : List JsString := parseLines (text (lsFiles repository.untracked))

def Exact (listed : List JsString) (paths : List Path) : Prop :=
  ∀ bytes, bytes ∈ listed.map encodeUnits ↔ ∃ p ∈ paths, p.bytes = bytes

/-- A path of printable ASCII without quotes and backslashes, and without a space at either end. -/
def Plain (p : Path) : Prop := p.bytes.all isPlain = true ∧ p.bytes.head? ≠ some 0x20 ∧ p.bytes.getLast? ≠ some 0x20

/-! ## Trimming -/

section

variable {α : Type*} {p : α → Bool} {s : List α}

/-- Without what `p` tells at either end. -/
def trimmed (p : α → Bool) (s : List α) : List α := (s.dropWhile p).rdropWhile p

theorem head_trimmed : ∀ u ∈ (trimmed p s).head?, p u = false := by
  intro u hu
  have hprefix := rdropWhile_prefix p (s.dropWhile p)
  cases hrest : s.dropWhile p with
  | nil => simp [trimmed, hrest] at hu
  | cons v rest =>
    rw [hrest] at hprefix
    obtain rfl : v = u := by
      rw [trimmed, hrest] at hu
      cases hd : (v :: rest).rdropWhile p with
      | nil => simp [hd] at hu
      | cons w rest' =>
        rw [hd] at hu hprefix
        rw [← Option.some.inj hu]
        exact (cons_prefix_cons.mp hprefix).1.symm
    have := head_dropWhile_not p (l := s) (by simp [hrest])
    simpa [hrest] using this

theorem getLast_trimmed : ∀ u ∈ (trimmed p s).getLast?, p u = false := by
  intro u hu
  have hne : trimmed p s ≠ [] := fun hnil => by simp [hnil] at hu
  rw [getLast?_eq_some_getLast hne] at hu
  rw [← Option.some.inj hu]
  exact Bool.not_eq_true _ ▸ rdropWhile_last_not p (s.dropWhile p) hne

/-- What begins and ends with nothing of it is left as it is. -/
theorem trimmed_eq_self_iff : trimmed p s = s ↔ (∀ u ∈ s.head?, p u = false) ∧ ∀ u ∈ s.getLast?, p u = false := by
  constructor
  · intro h
    rw [← h]
    exact ⟨head_trimmed, getLast_trimmed⟩
  rintro ⟨hfirst, hlast⟩
  have hdrop : s.dropWhile p = s := by
    cases s with
    | nil => rfl
    | cons v s => exact dropWhile_cons_of_neg (by simp [hfirst v rfl])
  rw [trimmed, hdrop, rdropWhile_eq_self_iff]
  intro hne
  simp [hlast _ (getLast?_eq_some_getLast hne)]

theorem dropWhile_map {β : Type*} {q : β → Bool} {f : α → β} (h : ∀ a ∈ s, q (f a) = p a) :
    (s.map f).dropWhile q = (s.dropWhile p).map f := by
  induction s with
  | nil => rfl
  | cons a s ih =>
    rw [map_cons, dropWhile_cons, dropWhile_cons, h a (mem_cons_self ..)]
    split
    · exact ih fun b hb => h b (mem_cons_of_mem a hb)
    · rfl

theorem trimmed_map {β : Type*} {q : β → Bool} {f : α → β} (h : ∀ a ∈ s, q (f a) = p a) :
    trimmed q (s.map f) = (trimmed p s).map f := by
  have hrest : ∀ a ∈ (s.dropWhile p).reverse, q (f a) = p a := fun a ha =>
    h a ((dropWhile_suffix p).subset (mem_reverse.mp ha))
  simp [trimmed, dropWhile_map h, List.rdropWhile, ← map_reverse, dropWhile_map hrest]

end

/-! ## What is listed -/

section

variable {bs : List UInt8} {p : Path} {paths : List Path}

theorem isWhiteSpace_printable {b : UInt8} (h : Printable b) : isWhiteSpace b.toUInt16 = decide (b = 0x20) := by
  obtain ⟨hle, hlt⟩ := h
  rw [Bool.eq_iff_iff, decide_eq_true_eq]
  simp only [isWhiteSpace, Bool.or_eq_true, Bool.and_eq_true, decide_eq_true_eq, UInt16.le_iff_toNat_le,
    ← UInt16.toNat_inj, ← UInt8.toNat_inj, UInt8.toNat_toUInt16, UInt16.reduceToNat, UInt8.reduceToNat]
  omega

/-- Bytes without the spaces at their ends. -/
abbrev trimSpaces (bs : List UInt8) : List UInt8 := trimmed (fun b => decide (b = 0x20)) bs

theorem trim_printable (h : ∀ b ∈ bs, Printable b) :
    trim (bs.map UInt8.toUInt16) = (trimSpaces bs).map UInt8.toUInt16 :=
  trimmed_map fun b hb => isWhiteSpace_printable (h b hb)

theorem trimSpaces_eq_self_iff : trimSpaces bs = bs ↔ bs.head? ≠ some 0x20 ∧ bs.getLast? ≠ some 0x20 := by
  have hspace (o : Option UInt8) : (∀ b ∈ o, decide (b = 0x20) = false) ↔ o ≠ some 0x20 := by
    cases o <;> simp
  rw [trimmed_eq_self_iff, hspace, hspace]

theorem trimSpaces_trimSpaces (bs : List UInt8) : trimSpaces (trimSpaces bs) = trimSpaces bs :=
  trimmed_eq_self_iff.mpr ⟨head_trimmed, getLast_trimmed⟩

theorem text_lsFiles (paths : List Path) : text (lsFiles paths) = (lsFiles paths).map UInt8.toUInt16 := by
  refine decodeText_ascii fun b hb => ?_
  obtain ⟨l, hl, hb⟩ := mem_flatMap.mp hb
  obtain ⟨p, -, rfl⟩ := mem_map.mp hl
  rcases mem_append.mp hb with hb | hb
  · exact Nat.lt_of_lt_of_le (Quoting.printable_quoted hb).2 (by decide)
  · rw [mem_singleton.mp hb]
    decide

/-- What is listed names each path as it is written, without the spaces at its ends, unless nothing is left. -/
theorem listed_eq (paths : List Path) : (parseLines (text (lsFiles paths))).map encodeUnits =
      (paths.map fun p => trimSpaces (quoted p.bytes)).filter (· ≠ []) := by
  have hlines : (lsFiles paths).map UInt8.toUInt16 =
      Lines.join newline.toUInt16 (paths.map fun p => (quoted p.bytes).map UInt8.toUInt16) ++ [] := by
    simp [lsFiles, Lines.join, map_flatMap, flatMap_map]
  have hclean : Lines.Clean newline.toUInt16 (paths.map fun p => (quoted p.bytes).map UInt8.toUInt16) := by
    intro l hl hnewline
    obtain ⟨p, -, rfl⟩ := mem_map.mp hl
    obtain ⟨b, hb, heq⟩ := mem_map.mp hnewline
    have hb : b = newline := UInt8.toNat_inj.mp (by simpa using congrArg UInt16.toNat heq)
    subst hb
    have := Quoting.printable_quoted (b := newline) ‹_›
    exact absurd this.1 (by decide)
  have htrim (p : Path) : trim ((quoted p.bytes).map UInt8.toUInt16) =
      (trimSpaces (quoted p.bytes)).map UInt8.toUInt16 := trim_printable fun _ => Quoting.printable_quoted
  have hread (p : Path) : encodeUnits ((trimSpaces (quoted p.bytes)).map UInt8.toUInt16) =
      trimSpaces (quoted p.bytes) := by
    refine encodeUnits_ascii fun b hb => ?_
    have hmem : b ∈ quoted p.bytes := (dropWhile_suffix _).subset ((List.rdropWhile_prefix _ _).subset hb)
    exact Nat.lt_of_lt_of_le (Quoting.printable_quoted hmem).2 (by decide)
  rw [parseLines, text_lsFiles, hlines, Lines.splitOn_join hclean not_mem_nil, map_append, filter_append,
    map_map, map_singleton, show trim [] = [] from rfl]
  simp [Function.comp_def, htrim, filter_map, hread]

theorem quote_head (h : bs.all isPlain = false) : (quoted bs).head? = some Quoting.quote := by
  rw [Quoting.quoted_of_not_plain h]
  rfl

theorem quote_getLast (h : bs.all isPlain = false) : (quoted bs).getLast? = some Quoting.quote := by
  rw [Quoting.quoted_of_not_plain h, getLast?_append]
  rfl

theorem mem_listed {bytes : List UInt8} : bytes ∈ (parseLines (text (lsFiles paths))).map encodeUnits ↔
      bytes ≠ [] ∧ ∃ p ∈ paths, trimSpaces (quoted p.bytes) = bytes := by
  rw [listed_eq, mem_filter, mem_map, decide_eq_true_eq, and_comm]

theorem quoted_listed (hp : p ∈ paths) (hplain : p.bytes.all isPlain = false) :
    quoted p.bytes ∈ (parseLines (text (lsFiles paths))).map encodeUnits := by
  refine mem_listed.mpr ⟨?_, p, hp, trimSpaces_eq_self_iff.mpr ⟨?_, ?_⟩⟩
  · rw [Quoting.quoted_of_not_plain hplain]
    exact nofun
  · rw [quote_head hplain]
    decide
  · rw [quote_getLast hplain]
    decide

/-- Where the listing is exact no path is quoted: the longest one's quoted form would be a longer one's. -/
theorem all_plain_of_exact (h : Exact (parseLines (text (lsFiles paths))) paths) (hp : p ∈ paths) :
    p.bytes.all isPlain = true := by
  by_contra hplain
  have hsome : ((paths.filter fun p : Path => !p.bytes.all isPlain).toFinset).Nonempty :=
    ⟨p, by simpa [hp] using hplain⟩
  obtain ⟨longest, hlongest, hmax⟩ := Finset.exists_max_image _ (fun p : Path => p.bytes.length) hsome
  simp only [mem_toFinset, mem_filter, Bool.not_eq_true'] at hlongest hmax
  obtain ⟨q, hq, hbytes⟩ := (h _).mp (quoted_listed hlongest.1 hlongest.2)
  have hle := hmax q ⟨hq, by rw [hbytes]; exact Quoting.quoted_not_plain hlongest.2⟩
  have hlt := Quoting.length_lt_quoted hlongest.2
  rw [hbytes] at hle
  exact absurd hlt (Nat.not_lt.mpr hle)

theorem exact_iff (paths : List Path) : Exact (parseLines (text (lsFiles paths))) paths ↔ ∀ p ∈ paths, Plain p := by
  constructor
  · intro h p hp
    obtain ⟨-, q, hq, hbytes⟩ := mem_listed.mp ((h p.bytes).mpr ⟨p, hp, rfl⟩)
    refine ⟨all_plain_of_exact h hp, trimSpaces_eq_self_iff.mp ?_⟩
    rw [← hbytes, trimSpaces_trimSpaces]
  · intro h bytes
    have hwritten : ∀ p ∈ paths, trimSpaces (quoted p.bytes) = p.bytes := fun p hp => by
      rw [Quoting.quoted_of_plain (h p hp).1]
      exact trimSpaces_eq_self_iff.mpr (h p hp).2
    rw [mem_listed]
    constructor
    · rintro ⟨-, p, hp, hbytes⟩
      exact ⟨p, hp, (hwritten p hp).symm.trans hbytes⟩
    · rintro ⟨p, hp, rfl⟩
      exact ⟨p.ne_nil, p, hp, hwritten p hp⟩

end

/-- **The files listed are the repository's** just if all their paths are printable ASCII without quotes and
backslashes, and begin and end with no space. -/
theorem listed_exact_iff (repository : Repository) : (Exact (listTrackedFiles repository) repository.tracked ∧
      Exact (listUntrackedFiles repository) repository.untracked) ↔
      ∀ p ∈ repository.tracked ++ repository.untracked, Plain p := by
  rw [listTrackedFiles, listUntrackedFiles, exact_iff, exact_iff, forall_mem_append]

/-- A file whose name is one letter outside ASCII, `é`, is listed as the ten characters git quotes it with. -/
theorem accent_not_listed : ¬ ∀ repository : Repository, Exact (listTrackedFiles repository) repository.tracked ∧
      Exact (listUntrackedFiles repository) repository.untracked := by
  intro h
  let accent : Path := ⟨[0xC3, 0xA9], by decide, by decide⟩
  have hlisted := ((h ⟨[accent], []⟩).1 [0xC3, 0xA9]).mpr ⟨accent, mem_singleton_self _, rfl⟩
  exact absurd hlisted (by decide +kernel)

end Reins.FileLists
