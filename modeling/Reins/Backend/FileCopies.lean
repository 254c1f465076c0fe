import Reins.Backend.WriteFile

/-!
# Copying a file (`NodeHost.copyTo`, `backend/src/models/node-host.ts`)

A copy sends one range after the other, each read from the node as it is asked for: the file may be another from one
range to the next, and while a range is read.
-/

namespace Reins.FileCopies

open FsWrite Schema List

@[irreducible] def COPY_RANGE_BYTES : Nat := 8 * 1024 * 1024

/-- What opening the file for a range comes to: the size it reported and the bytes that followed, unless it failed. -/
abbrev Opened := Option (Nat × Bytes)

/-- As many bytes as the size says, or it throws. -/
def readFileRange (opened : Opened) (offset : Nat) : Opened :=
  opened.filter fun read => read.2.length = min (read.1 - offset) COPY_RANGE_BYTES

inductive Ended
  | whole
  /-- `it changed while it was copied (before bytes, then after)` -/
  | changed (before after : Nat)
  | unread
  | running
  deriving DecidableEq

/-- The ranges yielded, and how the generator ended. `opened k offset`: of its `k`-th read. -/
def ranges (opened : Nat → Nat → Opened) : Nat → Nat → Option Nat → Nat → List Bytes × Ended
  | 0, _, _, _ => ([], .running)
  | fuel + 1, k, size, offset =>
    if offset < size.getD 1 then
      match readFileRange (opened k offset) offset with
      | none => ([], .unread)
      | some (now, bytes) =>
        if size.any (now ≠ ·) || bytes.isEmpty && offset < now then ([], .changed (size.getD now) now)
        else
          let rest := ranges opened fuel (k + 1) (some now) (offset + bytes.length)
          (bytes :: rest.1, rest.2)
    else ([], .whole)

/-- The write of what was read: its last chunk is sent once the generator ended, and never if it threw. -/
def copyTo (writeId : JsString) (opened : Nat → Nat → Opened) (fuel : Nat) : Except Ended Write :=
  match ranges opened fuel 0 none 0 with
  | (pieces, .whole) => .ok (writeFileFrom writeId pieces)
  | (_, ended) => .error ended

variable {opened : Nat → Nat → Opened} {fuel k size offset : Nat} {bytes content : Bytes} {pieces : List Bytes}

/-- What reads from the `k`-th on, of a file of that size, come to. -/
structure Reads (opened : Nat → Nat → Opened) (k offset size : Nat) (r : List Bytes × Ended) : Prop where
  stops : r.2 ≠ .running
  whole : r.2 = .whole → offset + r.1.flatten.length = size ∧ ∀ j piece, r.1[j]? = some piece →
    opened (k + j) (offset + (r.1.take j).flatten.length) = some (size, piece)
  changed : ∀ before after, r.2 = .changed before after →
    before = size ∧ after ≠ size ∧ ∃ k offset bytes, opened k offset = some (after, bytes)
  unread : r.2 = .unread → ∃ k offset, readFileRange (opened k offset) offset = none

theorem Reads.cons {r : List Bytes × Ended} (hopened : opened k offset = some (size, bytes))
    (h : Reads opened (k + 1) (offset + bytes.length) size r) : Reads opened k offset size (bytes :: r.1, r.2) := by
  refine { h with whole := fun hwhole => ?_ }
  obtain ⟨htotal, hpieces⟩ := h.whole hwhole
  refine ⟨by simpa [Nat.add_assoc] using htotal, fun j piece hj => ?_⟩
  cases j with
  | zero =>
    cases hj
    simpa using hopened
  | succ j => simpa [Nat.add_assoc, Nat.add_comm 1] using hpieces j piece hj

theorem length_of_read (h : readFileRange (opened k offset) offset = some (size, bytes)) :
    opened k offset = some (size, bytes) ∧ bytes.length = min (size - offset) COPY_RANGE_BYTES := by
  simpa [readFileRange, Option.filter_eq_some_iff] using h

/-- Every range of one size takes the offset on, up to the size. -/
theorem ranges_reads (hfuel : size - offset < fuel) (hle : offset ≤ size) :
    Reads opened k offset size (ranges opened fuel k (some size) offset) := by
  induction fuel generalizing k offset with
  | zero => cases hfuel
  | succ fuel ih =>
    unfold ranges
    by_cases hmore : offset < size
    · rw [Option.getD_some, if_pos hmore]
      cases hread : readFileRange (opened k offset) offset with
      | none => exact ⟨nofun, nofun, nofun, fun _ => ⟨k, offset, hread⟩⟩
      | some read =>
        obtain ⟨now, bytes⟩ := read
        obtain ⟨hopened, hlength⟩ := length_of_read hread
        by_cases hnow : now = size
        · subst hnow
          have hrange : 0 < COPY_RANGE_BYTES := by
            unfold COPY_RANGE_BYTES
            decide
          have hbytes : bytes ≠ [] := ne_nil_of_length_pos (by omega)
          have hrest : Reads opened (k + 1) (offset + bytes.length) now
              (ranges opened fuel (k + 1) (some now) (offset + bytes.length)) := ih (by omega) (by omega)
          simpa [hbytes] using hrest.cons hopened
        · simp only [Option.any_some, hnow, ne_eq, not_false_eq_true, decide_true, Bool.true_or, if_true]
          refine ⟨nofun, nofun, fun before after h => ?_, nofun⟩
          cases h
          exact ⟨rfl, hnow, k, offset, bytes, hopened⟩
    · rw [Option.getD_some, if_neg hmore]
      exact ⟨nofun, fun _ => ⟨by simpa using (by omega : offset = size), nofun⟩, nofun, nofun⟩

/-- The first read says what the size is. -/
theorem ranges_first (opened : Nat → Nat → Opened) : ∃ fuel size, Reads opened 0 0 size (ranges opened fuel 0 none 0) ∧
    ((ranges opened fuel 0 none 0).2 ≠ .unread → ∃ bytes, opened 0 0 = some (size, bytes)) := by
  cases hread : readFileRange (opened 0 0) 0 with
  | none => exact ⟨1, 0, by simpa [ranges, hread] using ⟨nofun, nofun, nofun, fun _ => ⟨0, 0, hread⟩⟩, by simp [ranges, hread]⟩
  | some read =>
    obtain ⟨size, bytes⟩ := read
    obtain ⟨hopened, hlength⟩ := length_of_read hread
    have hrange : 0 < COPY_RANGE_BYTES := by
      unfold COPY_RANGE_BYTES
      decide
    have hbytes : ¬(bytes = [] ∧ 0 < size) := fun h => by simp [h.1] at hlength; omega
    refine ⟨size + 2, size, ?_, fun _ => ⟨bytes, hopened⟩⟩
    have hrest : Reads opened 1 (0 + bytes.length) size
        (ranges opened (size + 1) 1 (some size) (0 + bytes.length)) := ranges_reads (by omega) (by omega)
    simpa [ranges, hread, hbytes] using hrest.cons hopened

theorem flatten_prefix (h : ∀ j piece, pieces[j]? = some piece →
    piece <+: content.drop (offset + (pieces.take j).flatten.length)) : pieces.flatten <+: content.drop offset := by
  induction pieces generalizing offset with
  | nil => exact nil_prefix
  | cons piece pieces ih =>
    obtain ⟨rest, hrest⟩ := h 0 piece rfl
    have hrest : piece ++ rest = content.drop offset := by simpa using hrest
    have hdrop : content.drop (offset + piece.length) = rest := by
      rw [← drop_drop, ← hrest, drop_left]
    have hpieces : pieces.flatten <+: content.drop (offset + piece.length) := ih fun j next hj => by
      simpa [Nat.add_assoc] using h (j + 1) next hj
    rw [hdrop] at hpieces
    rw [flatten_cons, ← hrest]
    exact (prefix_append_right_inj piece).mpr hpieces

/-- **A transfer sends its source in order, and a copy what its reads returned.** -/
theorem copyTo_transfers (writeId : JsString) :
    (∀ source, (writeFileFrom writeId source).chunks.flatten = source.flatten ∧
      (∀ c ∈ (writeFileFrom writeId source).chunks, c.length ≤ WRITE_CHUNK_BYTES) ∧
      ((writeFileFrom writeId source).request 0).offset = 0 ∧ ∀ j < (writeFileFrom writeId source).chunks.length,
        ((writeFileFrom writeId source).request (j + 1)).offset =
          ((writeFileFrom writeId source).request j).offset + ((writeFileFrom writeId source).chunk j).length ∧
        (((writeFileFrom writeId source).request j).last = true ↔
          j + 1 = (writeFileFrom writeId source).chunks.length)) ∧
    ∀ opened, ∃ fuel, match copyTo writeId opened fuel with
      | .ok w => (∃ (pieces : List Bytes) (size : Nat), w.source = pieces.flatten ∧ w.source.length = size ∧ ∀ j piece,
          pieces[j]? = some piece → opened j (pieces.take j).flatten.length = some (size, piece)) ∧
        ∀ content, (∀ k offset, opened k offset =
          some (content.length, (content.drop offset).take COPY_RANGE_BYTES)) → w.source = content
      | .error (.changed before after) => before ≠ after ∧ (∃ bytes, opened 0 0 = some (before, bytes)) ∧
        ∃ k offset bytes, opened k offset = some (after, bytes)
      | .error ended => ended = .unread ∧ ∃ k offset, readFileRange (opened k offset) offset = none := by
  refine ⟨fun source => ?_, fun opened => ?_⟩
  · obtain ⟨hsource, hlimit, -⟩ := writeFileFrom_source writeId source
    refine ⟨hsource, hlimit, (writeFileFrom writeId source).offset_zero, fun j hj => ⟨?_, ?_⟩⟩
    · simp only [Write.request, Write.offset]
      rw [Write.take_succ hj, length_append]
    · refine decide_eq_true_iff.trans ?_
      rw [Write.last]
      omega
  · obtain ⟨fuel, size, hreads, hfirst⟩ := ranges_first opened
    refine ⟨fuel, ?_⟩
    unfold copyTo
    rcases hr : ranges opened fuel 0 none 0 with ⟨pieces, ended⟩
    rw [hr] at hreads hfirst
    cases ended with
    | running => exact absurd rfl hreads.stops
    | unread => exact ⟨rfl, hreads.unread rfl⟩
    | changed before after =>
      obtain ⟨rfl, hne, hafter⟩ := hreads.changed before after rfl
      exact ⟨hne.symm, hfirst (by simp), hafter⟩
    | whole =>
      obtain ⟨htotal, hpieces⟩ := hreads.whole rfl
      simp only [Nat.zero_add] at htotal hpieces
      have hsource := (writeFileFrom_source writeId pieces).1
      refine ⟨⟨pieces, size, hsource, hsource ▸ htotal, hpieces⟩, fun content hsame => hsource.trans ?_⟩
      obtain ⟨bytes, hbytes⟩ := hfirst (by simp)
      cases (hsame 0 0).symm.trans hbytes
      have hprefix : pieces.flatten <+: content.drop 0 := flatten_prefix fun j piece hj => by
        cases (hsame _ _).symm.trans (hpieces j piece hj)
        rw [Nat.zero_add]
        exact take_prefix _ _
      exact hprefix.eq_of_length htotal

theorem ranges_two {n : Nat} (hn : n ≠ 0) (hfirst : readFileRange (opened 0 0) 0 = some (n + 1, replicate n 0))
    (hlast : readFileRange (opened 1 n) n = some (n + 1, [1])) :
    ranges opened 3 0 none 0 = ([replicate n 0, [1]], .whole) := by
  simp [ranges, hfirst, hlast, hn]

/-- A file whose last byte changed after its first range was read. -/
theorem same_size_unnoticed : ¬ ∀ (content : Bytes) (opened : Nat → Nat → Opened),
    opened 0 0 = some (content.length, content.take COPY_RANGE_BYTES) → ∀ fuel w, copyTo [] opened fuel = .ok w →
      w.source = content := by
  intro h
  have hrange : 0 < COPY_RANGE_BYTES := by
    unfold COPY_RANGE_BYTES
    decide
  let opened (k _ : Nat) : Opened :=
    some (COPY_RANGE_BYTES + 1, if k = 0 then replicate COPY_RANGE_BYTES 0 else [1])
  have hopened : opened 0 0 = some (COPY_RANGE_BYTES + 1, replicate COPY_RANGE_BYTES 0) := by simp [opened]
  have hranges : ranges opened 3 0 none 0 = ([replicate COPY_RANGE_BYTES 0, [1]], .whole) := by
    refine ranges_two hrange.ne' ?_ ?_
    · rw [hopened]
      refine Option.filter_eq_some_iff.mpr ⟨rfl, decide_eq_true ?_⟩
      rw [length_replicate]
      omega
    · refine Option.filter_eq_some_iff.mpr ⟨rfl, decide_eq_true ?_⟩
      rw [length_singleton]
      omega
  have h := h (replicate (COPY_RANGE_BYTES + 1) 0) opened (by simp [hopened]) 3 _ (by rw [copyTo, hranges])
  rw [(writeFileFrom_source ..).1, replicate_succ'] at h
  simp at h

end Reins.FileCopies
