import Reins.Lib.Walk
import Reins.Backend.SessionTables

/-!
# Reading a branch (`backend/src/pi-storage.ts`, `readBranch`)

`readBranch` is one recursive query, bounded by the entries it can need, and what is done to its
rows afterwards. `plainBranch` is what it stands for: the walk over parents, one entry at a time,
what stops it, the filters, the order and the limit, each in turn over whole lists. **The two are
equal** for every table, so also where the parent links form a cycle: both end before an entry they
have been at.

Newest first a stop ends the walk. Oldest first it is the *start* of the branch that is kept, up to
the stop, so the walk goes to the root and a literal "walk and stop" is something else
(`stopped_oldestFirst`).
-/

namespace Reins.Store

open List

inductive ScanOrder
  | newestFirst
  | oldestFirst
  deriving DecidableEq

/-- `StorageBranchScan`. `none` where a member is `undefined`. -/
structure BranchScan where
  start : EntryId
  order : Option ScanOrder
  stopAtId : Option EntryId
  stopAtType : Option EntryType
  /-- The cursor's `seq`. -/
  cursor : Option Nat
  type : Option EntryType
  customType : Option String
  limit : Option Nat

namespace BranchScan

variable (q : BranchScan)

def oldestFirst : Bool := q.order = some .oldestFirst

/-- `query.customType`, where it is truthy. -/
def customType? : Option String := q.customType.filter fun c => c ≠ ""

/-! ## `readBranch` -/

/-- Nothing but the stop and the limit says what is read. -/
def unfiltered : Bool := !q.oldestFirst && q.cursor.isNone && q.type.isNone && q.customType?.isNone

def maxEntries (count : Nat) : Nat :=
  match q.limit with
  | some limit => if q.unfiltered then min limit count else count
  | none => count

/-- The query's `stop` column. The two parameters are `NULL` oldest first. -/
def stop (r : Row) : Bool :=
  !q.oldestFirst && (decide (q.stopAtId = some r.harnessId) ||
      q.stopAtType.any fun type => decide (r.role = type.name) && decide (r.envelope.type = type))

def stopsAt (e : Entry) : Bool := decide (q.stopAtId = some e.id) || decide (q.stopAtType = some e.type)

def slice (entries : List Entry) : List Entry :=
  match entries.findIdx? q.stopsAt with
  | some i => if q.oldestFirst then entries.drop i else entries.take (i + 1)
  | none => entries

def filterCursor (entries : List Entry) : List Entry :=
  match q.cursor with
  | some seq => entries.filter fun e => if q.oldestFirst then seq < e.seq else e.seq < seq
  | none => entries

def filterType (entries : List Entry) : List Entry :=
  match q.type with
  | some type => entries.filter fun e => e.type = type
  | none => entries

def filterCustomType (entries : List Entry) : List Entry :=
  match q.customType? with
  | some c => entries.filter fun e => e.type = .custom && e.envelope.customType = some c
  | none => entries

def applyLimit (entries : List Entry) : List Entry :=
  match q.limit with
  | some limit => entries.take limit
  | none => entries

end BranchScan

section

variable (t : SessionMessages) (s : SessionId)

def branchRows (stop : Row → Bool) (maxEntries depth : Nat) (r : Row) : List Row :=
  r :: if stop r = false ∧ depth + 1 < maxEntries then
    match t.parent? s r with
    | some p => branchRows stop maxEntries (depth + 1) p
    | none => []
  else []
termination_by maxEntries - depth
decreasing_by omega

def readBranch (q : BranchScan) : Except String (List Entry) :=
  let count := (t.ofSession s).length
  match t.rowForEntry? s q.start with
  | none => .error s!"Unknown branch entry: {q.start}"
  | some start =>
    let rows := branchRows t s q.stop (q.maxEntries count) 0 start
    let entries := q.slice ((Walk.fresh Row.id [] rows).map (t.decodeEntry s))
    let entries := if q.oldestFirst then entries.reverse else entries
    .ok (q.applyLimit (q.filterCustomType (q.filterType (q.filterCursor entries))))

/-! ## The plain walk -/

def othersOf (r : Row) : List RowId := ((t.ofSession s).map Row.id).erase r.id

def walkFrom (stop : Entry → Bool) (r : Row) : List Entry :=
  (Walk.walk Row.id (t.parent? s) (fun r => stop (t.decodeEntry s r)) (othersOf t s r) r).map (t.decodeEntry s)

def BranchScan.finish (q : BranchScan) (walked : List Entry) : List Entry :=
  let entries := q.filterCustomType (q.filterType (q.filterCursor walked))
  q.applyLimit (if q.oldestFirst then entries.reverse else entries)

/-- The entries a scan is about. Oldest first a stop leaves out what follows it: the walk goes to the
root, and is kept from the newest entry that stops it. -/
def BranchScan.scanned (q : BranchScan) (r : Row) : List Entry :=
  if q.oldestFirst then
    let whole := walkFrom t s (fun _ => false) r
    if whole.any q.stopsAt then whole.dropWhile fun e => !q.stopsAt e else whole
  else walkFrom t s q.stopsAt r

def plainBranch (q : BranchScan) : Except String (List Entry) :=
  match t.rowForEntry? s q.start with
  | none => .error s!"Unknown branch entry: {q.start}"
  | some start => .ok (q.finish (q.scanned t s start))

def nextCursor (entries : List Entry) : Option Nat := entries.getLast?.map Entry.seq

def stoppedBranch (q : BranchScan) : Except String (List Entry) :=
  match t.rowForEntry? s q.start with
  | none => .error s!"Unknown branch entry: {q.start}"
  | some start => .ok (q.finish (walkFrom t s q.stopsAt start))

/-! ## The query reads the walk -/

theorem branchRows_eq_path (stop : Row → Bool) (m d : Nat) (r : Row) :
    branchRows t s stop m d r = Walk.path (t.parent? s) stop (m - (d + 1) + 1) r := by
  induction h : m - (d + 1) generalizing d r with
  | zero =>
    have hd : ¬ d + 1 < m := by omega
    rw [branchRows, if_neg fun hs => hd hs.2, Walk.path]
    cases stop r with
    | true => rfl
    | false => cases t.parent? s r <;> rfl
  | succ n ih =>
    have hd : d + 1 < m := by omega
    rw [branchRows, Walk.path]
    apply congrArg (r :: ·)
    cases stop r with
    | true => rfl
    | false =>
      simp only [hd, and_self, if_true, Bool.false_eq_true, if_false]
      cases t.parent? s r with
      | none => rfl
      | some p => exact ih (d + 1) p (by omega)

theorem length_branchRows_le (stop : Row → Bool) (m d : Nat) (r : Row) :
    (branchRows t s stop m d r).length ≤ m - (d + 1) + 1 := by
  rw [branchRows_eq_path]
  exact Walk.length_path_le stop _ r

variable {t s} {r : Row}

theorem length_othersOf (hr : r ∈ t.ofSession s) : (othersOf t s r).length + 1 = (t.ofSession s).length := by
  rw [othersOf, length_erase_add_one (mem_map_of_mem hr), length_map]

/-- What is read, cut at its first repeated row, is the walk as far as it was read. -/
theorem fresh_branchRows (stop : Row → Bool) (m : Nat) (r : Row) : Walk.fresh Row.id [] (branchRows t s stop m 0 r)
      = (Walk.walk Row.id (t.parent? s) stop (othersOf t s r) r).take (m - 1 + 1) := by
  have hnodup : (othersOf t s r).Nodup := (t.ids_ofSession s).erase _
  rw [branchRows_eq_path]
  apply Walk.fresh_path hnodup
  · intro id hid hmem
    obtain rfl := mem_singleton.mp hmem
    exact (t.ids_ofSession s).not_mem_erase hid
  · exact not_mem_nil
  · intro q p hp
    have hmem : p.id ∈ (t.ofSession s).map Row.id := mem_map_of_mem (SessionMessages.parent?_mem hp).1
    by_cases he : p.id = r.id
    · exact Or.inr (he ▸ mem_singleton_self _)
    · exact Or.inl ((mem_erase_of_ne he).mpr hmem)

theorem fresh_branchRows_count (stop : Row → Bool) (hr : r ∈ t.ofSession s) :
    Walk.fresh Row.id [] (branchRows t s stop (t.ofSession s).length 0 r)
      = Walk.walk Row.id (t.parent? s) stop (othersOf t s r) r := by
  rw [fresh_branchRows]
  apply take_of_length_le
  have hlen : (Walk.walk Row.id (t.parent? s) stop (othersOf t s r) r).length ≤ _ := Walk.length_walk_le stop _ r
  have hothers := length_othersOf hr
  omega

/-! ## Stops, filters and limits -/

variable {q : BranchScan}

theorem BranchScan.stopsAt_of_stop (h : q.stop r = true) : q.stopsAt (t.decodeEntry s r) = true := by
  unfold BranchScan.stop at h
  unfold BranchScan.stopsAt
  rw [Bool.and_eq_true, Bool.or_eq_true] at h
  rw [Bool.or_eq_true]
  rcases h.2 with hid | htype
  · exact Or.inl hid
  apply Or.inr
  cases ht : q.stopAtType with
  | none => simp [ht] at htype
  | some type =>
    simp only [ht, Option.any_some, Bool.and_eq_true, decide_eq_true_eq] at htype
    exact decide_eq_true (congrArg some htype.2.symm)

theorem BranchScan.stop_oldestFirst (h : q.oldestFirst = true) : q.stop = fun _ => false := by
  funext r
  simp [BranchScan.stop, h]

theorem BranchScan.slice_newestFirst (h : q.oldestFirst = false) (es : List Entry) :
    q.slice es = Walk.through q.stopsAt es := by
  rw [Walk.through_eq, BranchScan.slice]
  cases es.findIdx? q.stopsAt with
  | none => rfl
  | some i => simp [h]

theorem BranchScan.slice_oldestFirst (h : q.oldestFirst = true) (es : List Entry) :
    q.slice es = if es.any q.stopsAt then es.dropWhile fun e => !q.stopsAt e else es := by
  rw [BranchScan.slice, dropWhile_eq_drop_findIdx_not]
  cases hi : es.findIdx? q.stopsAt with
  | none =>
    have hany : es.any q.stopsAt = false := by
      rw [any_eq_false]
      intro e he
      simpa using findIdx?_eq_none_iff.mp hi e he
    simp [hany]
  | some i =>
    obtain ⟨hlt, hidx⟩ := findIdx?_eq_some_iff_findIdx_eq.mp hi
    have hany : es.any q.stopsAt = true := by
      rw [any_eq_true]
      exact ⟨es.get ⟨es.findIdx q.stopsAt, hidx ▸ hlt⟩, get_mem _ _, findIdx_getElem⟩
    simp [h, hany, hidx]

def BranchScan.filters (q : BranchScan) (es : List Entry) : List Entry :=
  q.filterCustomType (q.filterType (q.filterCursor es))

theorem BranchScan.filters_reverse (es : List Entry) : q.filters es.reverse = (q.filters es).reverse := by
  have hcursor : q.filterCursor es.reverse = (q.filterCursor es).reverse := by
    unfold BranchScan.filterCursor
    cases q.cursor <;> simp
  have htype (es : List Entry) : q.filterType es.reverse = (q.filterType es).reverse := by
    unfold BranchScan.filterType
    cases q.type <;> simp
  have hcustom (es : List Entry) : q.filterCustomType es.reverse = (q.filterCustomType es).reverse := by
    unfold BranchScan.filterCustomType
    cases q.customType? <;> simp
  rw [BranchScan.filters, hcursor, htype, hcustom, BranchScan.filters]

theorem BranchScan.filters_unfiltered (h : q.unfiltered = true) (es : List Entry) : q.filters es = es := by
  simp only [BranchScan.unfiltered, Bool.and_eq_true, Option.isNone_iff_eq_none] at h
  obtain ⟨⟨⟨-, hcursor⟩, htype⟩, hcustom⟩ := h
  simp [BranchScan.filters, BranchScan.filterCursor, BranchScan.filterType,
    BranchScan.filterCustomType, hcursor, htype, hcustom]

/-- The bound on what is read costs nothing: what is left out the limit leaves out. -/
theorem BranchScan.limit_take {count : Nat} {es : List Entry} (hlen : es.length ≤ count) :
    q.applyLimit (q.filters (es.take (q.maxEntries count - 1 + 1))) = q.applyLimit (q.filters es) := by
  have hall (h : q.maxEntries count = count) : es.take (q.maxEntries count - 1 + 1) = es :=
    take_of_length_le (by omega)
  cases hl : q.limit with
  | none => rw [hall (by simp [BranchScan.maxEntries, hl])]
  | some limit =>
    by_cases hu : q.unfiltered = true
    · rw [filters_unfiltered hu, filters_unfiltered hu]
      simp only [BranchScan.applyLimit, BranchScan.maxEntries, hl, hu, if_true, take_take]
      rcases Nat.le_total limit count with h | h
      · rw [Nat.min_eq_left (show limit ≤ min limit count - 1 + 1 by omega)]
      · rw [take_of_length_le (show es.length ≤ min limit (min limit count - 1 + 1) by omega),
          take_of_length_le (hlen.trans h)]
    · rw [hall (by simp [BranchScan.maxEntries, hl, hu])]

/-! ## The two agree -/

theorem length_walkFrom_le (stop : Entry → Bool) (hr : r ∈ t.ofSession s) :
    (walkFrom t s stop r).length ≤ (t.ofSession s).length := by
  rw [walkFrom, length_map, ← length_othersOf hr]
  exact Walk.length_walk_le _ _ r

/-- Newest first: the rows of the query, stopped again, are the walk as far as it was read. -/
theorem slice_read (h : q.oldestFirst = false) (m : Nat) (r : Row) :
    q.slice ((Walk.fresh Row.id [] (branchRows t s q.stop m 0 r)).map (t.decodeEntry s))
      = (walkFrom t s q.stopsAt r).take (m - 1 + 1) := by
  rw [BranchScan.slice_newestFirst h, fresh_branchRows, Walk.through_map, Walk.through_take,
    Walk.through_walk fun r => BranchScan.stopsAt_of_stop, map_take, walkFrom]

theorem slice_read_oldestFirst (h : q.oldestFirst = true) (hr : r ∈ t.ofSession s) : q.slice ((Walk.fresh Row.id []
        (branchRows t s q.stop (q.maxEntries (t.ofSession s).length) 0 r)).map (t.decodeEntry s))
      = q.scanned t s r := by
  have hm : q.maxEntries (t.ofSession s).length = (t.ofSession s).length := by
    unfold BranchScan.maxEntries
    cases q.limit <;> simp [BranchScan.unfiltered, h]
  rw [BranchScan.stop_oldestFirst h, hm, fresh_branchRows_count _ hr,
    BranchScan.slice_oldestFirst h, BranchScan.scanned, if_pos h, walkFrom]

/-- **`readBranch` is the plain walk.** -/
theorem readBranch_plain (t : SessionMessages) (s : SessionId) (q : BranchScan) :
    readBranch t s q = plainBranch t s q := by
  unfold readBranch plainBranch
  cases hstart : t.rowForEntry? s q.start with
  | none => rfl
  | some r =>
    have hr := (SessionMessages.rowForEntry?_mem hstart).1
    apply congrArg Except.ok
    show q.applyLimit (q.filters _) = q.applyLimit _
    cases h : q.oldestFirst with
    | true =>
      simp only [if_true]
      rw [slice_read_oldestFirst h hr, BranchScan.filters_reverse]
      rfl
    | false =>
      simp only [Bool.false_eq_true, if_false]
      rw [slice_read h, BranchScan.limit_take (length_walkFrom_le _ hr), BranchScan.scanned, h]
      rfl

theorem BranchScan.scanned_newestFirst (h : q.oldestFirst = false) (r : Row) :
    q.scanned t s r = walkFrom t s q.stopsAt r := by
  simp [BranchScan.scanned, h]

theorem BranchScan.scanned_unstopped (hid : q.stopAtId = none) (htype : q.stopAtType = none)
    (r : Row) : q.scanned t s r = walkFrom t s q.stopsAt r := by
  have hstops : q.stopsAt = fun _ => false := by
    funext e
    simp [BranchScan.stopsAt, hid, htype]
  rw [BranchScan.scanned, hstops]
  simp

theorem plainBranch_stopped (h : ∀ r, q.scanned t s r = walkFrom t s q.stopsAt r) :
    plainBranch t s q = stoppedBranch t s q := by
  unfold plainBranch stoppedBranch
  cases t.rowForEntry? s q.start with
  | none => rfl
  | some r => exact congrArg (fun es => Except.ok (q.finish es)) (h r)

theorem BranchScan.maxEntries_le (count : Nat) : q.maxEntries count ≤ count := by
  unfold BranchScan.maxEntries
  cases q.limit with
  | none => exact Nat.le_refl count
  | some limit =>
    show (if q.unfiltered = true then min limit count else count) ≤ count
    split
    · exact Nat.min_le_right limit count
    · exact Nat.le_refl count

/-- **A branch scan reads what the plain walk gives**, for every table, cyclic or not, and every
scan, so it goes on from the same cursor; and its query reads no more rows than the session has.
Newest first, or with nothing to stop it, that is the walk up to what stops it. -/
theorem branch_scan (t : SessionMessages) (s : SessionId) (q : BranchScan) : readBranch t s q = plainBranch t s q ∧
    (readBranch t s q).map nextCursor = (plainBranch t s q).map nextCursor ∧
    (∀ r, t.rowForEntry? s q.start = some r → (branchRows t s q.stop (q.maxEntries (t.ofSession s).length) 0 r).length
        ≤ (t.ofSession s).length) ∧
    (q.oldestFirst = false ∨ q.stopAtId = none ∧ q.stopAtType = none → readBranch t s q = stoppedBranch t s q) := by
  have hplain := readBranch_plain t s q
  refine ⟨hplain, by rw [hplain], ?_, ?_⟩
  · intro r hr
    have hlen := length_branchRows_le t s q.stop (q.maxEntries (t.ofSession s).length) 0 r
    have hmax := q.maxEntries_le (t.ofSession s).length
    have hcount := length_othersOf (SessionMessages.rowForEntry?_mem hr).1
    omega
  · rintro (h | ⟨hid, htype⟩)
    · rw [hplain, plainBranch_stopped (BranchScan.scanned_newestFirst h)]
    · rw [hplain, plainBranch_stopped (BranchScan.scanned_unstopped hid htype)]

end

def threeEntries : SessionMessages :=
  let note := Envelope.custom "note" 0 []
  { rows := [⟨1, "s", 1, none, "root", note⟩, ⟨2, "s", 2, some 1, "a", note⟩, ⟨3, "s", 3, some 2, "b", note⟩]
    nextId := 4
    below := by simp
    ids := by decide
    seqs := by decide
    harnessIds := by decide }

theorem stopped_oldestFirst : let q : BranchScan := ⟨"b", some .oldestFirst, some "a", none, none, none, none, none⟩
    (readBranch threeEntries "s" q).map (List.map Entry.id) = .ok ["root", "a"] ∧
    (stoppedBranch threeEntries "s" q).map (List.map Entry.id) = .ok ["a", "b"] ∧
    readBranch threeEntries "s" q ≠ stoppedBranch threeEntries "s" q := by
  intro q
  have hread : (readBranch threeEntries "s" q).map (List.map Entry.id) = .ok ["root", "a"] := by
    simp [q, readBranch, threeEntries, SessionMessages.rowForEntry?, SessionMessages.ofSession,
      SessionMessages.parent?, SessionMessages.decodeEntry, BranchScan.stop, BranchScan.oldestFirst,
      BranchScan.maxEntries, BranchScan.slice, BranchScan.stopsAt, BranchScan.applyLimit,
      BranchScan.filterCursor, BranchScan.filterType, BranchScan.filterCustomType,
      BranchScan.customType?, branchRows, Walk.fresh, findIdx?_cons, Except.map]
  have hwalk : (stoppedBranch threeEntries "s" q).map (List.map Entry.id) = .ok ["a", "b"] := by
    simp [q, stoppedBranch, threeEntries, SessionMessages.rowForEntry?,
      SessionMessages.ofSession, SessionMessages.parent?, SessionMessages.decodeEntry,
      BranchScan.oldestFirst, BranchScan.finish, BranchScan.stopsAt, BranchScan.applyLimit,
      BranchScan.filterCursor, BranchScan.filterType, BranchScan.filterCustomType,
      BranchScan.customType?, walkFrom, othersOf, Walk.walk, Except.map]
  refine ⟨hread, hwalk, fun h => ?_⟩
  rw [h, hwalk] at hread
  exact absurd (Except.ok.inj hread) (by decide)

end Reins.Store
