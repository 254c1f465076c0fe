import Mathlib
import Reins.Backend.MessagesStore

/-!
# Following the cursors of pages

A client reads a transcript backwards by `previousCursor` and forwards by `endCursor`. A page is the
segment between its cursor and the next one (`backward_step`, `forward_step`), so the pages of a walk
put together are the segment the walk goes through, and each takes at least one entry off what is
left.
-/

open Utf Schema List Bool

namespace Reins.Store

abbrev Walk := List (MessagePagePosition × SessionMessagePage)

/-- Following `previousCursor` until it is absent; `none` where the walk has not ended. -/
def backwardWalk (t : SessionMessages) (s : SessionId) (limit : Nat) : Nat → MessagePagePosition → Option Walk
  | 0, _ => none
  | fuel + 1, position =>
    (loadMessagePage t s limit position).bind fun page =>
      match page.pageInfo.previousCursor with
      | none => some [(position, page)]
      | some cursor =>
        (parseDisplayCursor s cursor .before).bind fun beforeSeq =>
          (backwardWalk t s limit fuel ⟨some beforeSeq, none⟩).map ((position, page) :: ·)

/-- Following `endCursor` until `hasNextPage` is false. -/
def forwardWalk (t : SessionMessages) (s : SessionId) (limit : Nat) : Nat → MessagePagePosition → Option Walk
  | 0, _ => none
  | fuel + 1, position =>
    (loadMessagePage t s limit position).bind fun page =>
      if page.pageInfo.hasNextPage then
        page.pageInfo.endCursor.bind fun cursor =>
          (parseDisplayCursor s cursor .after).bind fun afterSeq =>
            (forwardWalk t s limit fuel ⟨none, some afterSeq⟩).map ((position, page) :: ·)
      else some [(position, page)]

abbrev MessagePagePosition.before (position : MessagePagePosition) : Int := position.beforeSeq.getD MAX_SAFE_INTEGER

/-- Sequence numbers short of the one that stands for no limit. -/
def SafeSeqs (t : SessionMessages) (s : SessionId) : Prop := ∀ r ∈ t.ofSession s, r.seq < MAX_SAFE_INTEGER

structure EachOnce (t : SessionMessages) (s : SessionId) (p : Row → Bool) (items : List ConversationEntry) : Prop where
  entries : items.map ConversationEntry.id = (queryDisplayRows t s p).map Row.harnessId
  inOrder : items.Pairwise fun a b => a.seq < b.seq

section

variable {t : SessionMessages} {s : SessionId} {limit : Nat} {position : MessagePagePosition}
  {after before : Int} {p q : Row → Bool}

/-! ## One page -/

theorem entriesOf_eachOnce (p : Row → Bool) : EachOnce t s p (entriesOf t s p) := by
  have hrows : (segment t s p).map Prod.fst = queryDisplayRows t s p := segment_fst
  constructor
  · rw [← hrows, entriesOf, map_map, map_map]
    rfl
  have hsorted := sorted_queryDisplayRows t s p
  rw [← hrows, Segment.Sorted, pairwise_map] at hsorted
  rw [entriesOf, pairwise_map]
  apply hsorted.imp
  intro a b hab
  exact Int.ofNat_lt.mp hab

theorem entriesOf_congr (h : ∀ r ∈ displayRows t s, p r = q r) : entriesOf t s p = entriesOf t s q := by
  have hrows : queryDisplayRows t s p = queryDisplayRows t s q := filter_congr h
  rw [entriesOf, entriesOf, segment, segment, hrows]

theorem entriesOf_nil (h : ∀ r ∈ displayRows t s, p r = false) : entriesOf t s p = [] := by
  have hrows : queryDisplayRows t s p = [] := by
    apply filter_eq_nil_iff.mpr
    intro r hr
    rw [h r hr]
    exact false_ne_true
  rw [entriesOf, segment, hrows]
  rfl

theorem windowBefore_nil (hlimit : 0 < limit) (h : windowBefore t s limit before = []) :
    ∀ r ∈ displayRows t s, before ≤ r.key := by
  intro r hr
  by_contra hlt
  have hmem : r ∈ (queryDisplayRows t s fun r => r.key < before).reverse := by
    rw [mem_reverse, mem_queryDisplayRows]
    exact ⟨hr, decide_eq_true (Int.not_le.mp hlt)⟩
  rw [windowBefore, reverse_eq_nil_iff, take_eq_nil_iff] at h
  rcases h with h | h
  · exact absurd h (Nat.pos_iff_ne_zero.mp hlimit)
  · rw [h] at hmem
    cases hmem

theorem windowAfter_nil (hlimit : 0 < limit) (h : windowAfter t s limit after = []) :
    ∀ r ∈ displayRows t s, r.key ≤ after := by
  intro r hr
  by_contra hlt
  have hmem : r ∈ queryDisplayRows t s fun r => after < r.key :=
    mem_queryDisplayRows.mpr ⟨hr, decide_eq_true (Int.not_le.mp hlt)⟩
  rw [windowAfter, take_eq_nil_iff] at h
  rcases h with h | h
  · exact absurd h (Nat.pos_iff_ne_zero.mp hlimit)
  · rw [h] at hmem
    cases hmem

theorem presentRow_false : presentRow t s p = false ↔ ∀ r ∈ displayRows t s, p r = false := by
  rw [presentRow, any_eq_false]
  constructor
  · intro h r hr
    exact eq_false_iff.mpr (h r hr)
  · intro h r hr
    exact eq_false_iff.mp (h r hr)

inductive BackwardPage (t : SessionMessages) (s : SessionId) (limit : Nat) (before : Int)
    (page : SessionMessagePage) : Prop
  | nothing (done : ∀ r ∈ displayRows t s, before ≤ r.key) (items : page.items = [])
    (cursor : page.pageInfo.previousCursor = none)
  | last (first : Row) (window : (windowBefore t s limit before).head? = some first)
    (items : page.items = entriesOf t s fun r => pageStart t s first ≤ r.key && r.key < before)
    (done : ∀ r ∈ displayRows t s, pageStart t s first ≤ r.seq)
    (cursor : page.pageInfo.previousCursor = none)
  | more (first : Row) (window : (windowBefore t s limit before).head? = some first)
    (items : page.items = entriesOf t s fun r => pageStart t s first ≤ r.key && r.key < before)
    (cursor : page.pageInfo.previousCursor = some (displayCursor s (pageStart t s first) .before))

inductive ForwardPage (t : SessionMessages) (s : SessionId) (limit : Nat) (after : Int)
    (page : SessionMessagePage) : Prop
  | nothing (done : ∀ r ∈ displayRows t s, r.key ≤ after) (items : page.items = [])
    (next : page.pageInfo.hasNextPage = false)
  | last (last : Row) (window : (windowAfter t s limit after).getLast? = some last)
    (items : page.items = entriesOf t s fun r => after < r.key && r.key ≤ pageEnd t s last)
    (done : ∀ r ∈ displayRows t s, r.seq ≤ pageEnd t s last)
    (next : page.pageInfo.hasNextPage = false)
  | more (last : Row) (window : (windowAfter t s limit after).getLast? = some last)
    (items : page.items = entriesOf t s fun r => after < r.key && r.key ≤ pageEnd t s last)
    (next : page.pageInfo.hasNextPage = true)
    (cursor : page.pageInfo.endCursor = some (displayCursor s (pageEnd t s last) .after))

theorem backward_step (hlimit : 0 < limit) (b : Option Int) : ∃ page, loadMessagePage t s limit ⟨b, none⟩ = some page ∧
      BackwardPage t s limit (b.getD MAX_SAFE_INTEGER) page := by
  cases hfirst : (windowBefore t s limit (b.getD MAX_SAFE_INTEGER)).head? with
  | none =>
    have hnil : windowBefore t s limit (b.getD MAX_SAFE_INTEGER) = [] := head?_eq_none_iff.mp hfirst
    have hnone := windowBefore_nil hlimit hnil
    have hprevious : presentRow t s (fun r => r.key < b.getD MAX_SAFE_INTEGER) = false := by
      apply presentRow_false.mpr
      intro r hr
      exact decide_eq_false (Int.not_lt.mpr (hnone r hr))
    refine ⟨_, load_empty_before hnil, .nothing hnone rfl ?_⟩
    show (if presentRow t s (fun r => r.key < b.getD MAX_SAFE_INTEGER) = true then _ else none) = none
    rw [hprevious, if_neg Bool.false_ne_true]
  | some first =>
    obtain ⟨page, hload, hitems, -, hcursor, -⟩ := load_before hfirst
    refine ⟨page, hload, ?_⟩
    by_cases hmore : presentRow t s (fun r => r.seq < pageStart t s first) = true
    · rw [if_pos hmore] at hcursor
      exact .more first hfirst hitems hcursor
    rw [if_neg hmore] at hcursor
    refine .last first hfirst hitems ?_ hcursor
    intro r hr
    exact Nat.not_lt.mp (of_decide_eq_false (presentRow_false.mp (eq_false_iff.mpr hmore) r hr))

theorem forward_step (hlimit : 0 < limit) (b : Option Int) (after : Int) :
    ∃ page, loadMessagePage t s limit ⟨b, some after⟩ = some page ∧ ForwardPage t s limit after page := by
  cases hlast : (windowAfter t s limit after).getLast? with
  | none =>
    have hnil : windowAfter t s limit after = [] := getLast?_eq_none_iff.mp hlast
    have hnone := windowAfter_nil hlimit hnil
    refine ⟨_, load_empty_after b hnil, .nothing hnone rfl ?_⟩
    apply presentRow_false.mpr
    intro r hr
    exact decide_eq_false (Int.not_lt.mpr (hnone r hr))
  | some last =>
    obtain ⟨page, hload, hitems, hnext, hcursor, -⟩ := load_after b hlast
    refine ⟨page, hload, ?_⟩
    cases hmore : page.pageInfo.hasNextPage with
    | true => exact .more last hlast hitems hmore hcursor
    | false =>
      refine .last last hlast hitems ?_ hmore
      rw [hnext] at hmore
      intro r hr
      exact Nat.not_lt.mp (of_decide_eq_false (presentRow_false.mp hmore r hr))

theorem load_flags {page : SessionMessagePage} (h : loadMessagePage t s limit position = some page) :
    FlagsOk t s position page := by
  obtain ⟨b, after⟩ := position
  cases after with
  | some after =>
    cases hlast : (windowAfter t s limit after).getLast? with
    | none =>
      rw [load_empty_after b (getLast?_eq_none_iff.mp hlast)] at h
      exact Option.some.inj h ▸ emptyPage_flags _
    | some last =>
      obtain ⟨page', hload, -, -, -, hflags⟩ := load_after b hlast
      rw [hload] at h
      exact Option.some.inj h ▸ hflags
  | none =>
    cases hfirst : (windowBefore t s limit (b.getD MAX_SAFE_INTEGER)).head? with
    | none =>
      rw [load_empty_before (head?_eq_none_iff.mp hfirst)] at h
      exact Option.some.inj h ▸ emptyPage_flags _
    | some first =>
      obtain ⟨page', hload, -, -, -, hflags⟩ := load_before hfirst
      rw [hload] at h
      exact Option.some.inj h ▸ hflags

theorem parseDisplayCursor_eq {n : Nat} {direction : DisplayCursorDirection} {seq : Int}
    (h : parseDisplayCursor s (displayCursor s n direction) direction = some seq) : seq = n := by
  rw [parseDisplayCursor_written] at h
  split at h
  · exact (Option.some.inj h).symm
  · cases h

/-! ## The whole walk -/

/-- Fewer entries are left of a cursor that is at an entry before the last one. -/
theorem left_before {e : Row} {start : Nat} (he : e ∈ displayRows t s) (hseq : e.seq = start)
    (hlt : (start : Int) < before) :
    (queryDisplayRows t s fun r => r.key < start).length < (queryDisplayRows t s fun r => r.key < before).length := by
  have happend : queryDisplayRows t s (fun r => r.key < start)
      ++ queryDisplayRows t s (fun r => start ≤ r.key && r.key < before)
      = queryDisplayRows t s fun r => r.key < before := by
    apply queryDisplayRows_append
    · intro a b ha hb
      simp only [and_eq_true, decide_eq_true_eq] at ha hb
      exact lt_of_lt_of_le ha hb.1
    intro a
    simp only [and_eq_true, decide_eq_true_eq]
    omega
  have hmem : e ∈ queryDisplayRows t s fun r => start ≤ r.key && r.key < before := by
    rw [mem_queryDisplayRows, and_eq_true, decide_eq_true_eq, decide_eq_true_eq]
    subst hseq
    exact ⟨he, le_refl _, hlt⟩
  rw [← happend, length_append]
  exact Nat.lt_add_of_pos_right (length_pos_of_mem hmem)

theorem left_after {e : Row} {stop : Nat} (he : e ∈ displayRows t s) (hseq : e.seq = stop)
    (hlt : after < (stop : Int)) :
    (queryDisplayRows t s fun r => (stop : Int) < r.key).length
      < (queryDisplayRows t s fun r => after < r.key).length := by
  have happend : queryDisplayRows t s (fun r => after < r.key && r.key ≤ stop)
      ++ queryDisplayRows t s (fun r => (stop : Int) < r.key)
      = queryDisplayRows t s fun r => after < r.key := by
    apply queryDisplayRows_append
    · intro a b ha hb
      simp only [and_eq_true, decide_eq_true_eq] at ha hb
      exact lt_of_le_of_lt ha.2 hb
    intro a
    simp only [and_eq_true, decide_eq_true_eq]
    omega
  have hmem : e ∈ queryDisplayRows t s fun r => after < r.key && r.key ≤ stop := by
    rw [mem_queryDisplayRows, and_eq_true, decide_eq_true_eq, decide_eq_true_eq]
    subst hseq
    exact ⟨he, hlt, le_refl _⟩
  rw [← happend, length_append]
  exact Nat.lt_add_of_pos_left (length_pos_of_mem hmem)

theorem entriesOf_append {pq : Row → Bool} (hlt : ∀ a b, p a = true → q b = true → a.key < b.key)
    (hpq : ∀ a, pq a = true ↔ p a = true ∨ q a = true) :
    entriesOf t s p ++ entriesOf t s q = entriesOf t s pq := by
  rw [entriesOf, entriesOf, entriesOf, ← segment_append hlt hpq, map_append]

theorem safe_display {e : Row} (hsafe : SafeSeqs t s) (he : e ∈ displayRows t s) :
    e.seq < MAX_SAFE_INTEGER := hsafe e (mem_displayRows.mp he).1

def Walk.items (walk : Walk) : List ConversationEntry := walk.flatMap fun p => p.2.items

/-- **A backward walk ends, with every entry before its cursor.** -/
theorem backwardWalk_ends (hlimit : 0 < limit) (hsafe : SafeSeqs t s) (b : Option Int) :
    ∃ fuel walk, backwardWalk t s limit fuel ⟨b, none⟩ = some walk ∧
      Walk.items walk.reverse = entriesOf t s fun r => r.key < b.getD MAX_SAFE_INTEGER := by
  -- on how many entries are left: a page takes at least the one its window begins on
  induction hn : (queryDisplayRows t s fun r => r.key < b.getD MAX_SAFE_INTEGER).length
    using Nat.strong_induction_on generalizing b with
  | _ n ih =>
    obtain ⟨page, hload, hpage⟩ := backward_step (t := t) (s := s) hlimit b
    cases hpage with
    | nothing hdone hitems hcursor =>
      refine ⟨1, [(⟨b, none⟩, page)], ?_, ?_⟩
      · rw [backwardWalk, hload, Option.bind_some]
        simp [hcursor]
      show page.items ++ [] = _
      rw [hitems, entriesOf_nil]
      · rfl
      · intro r hr
        exact decide_eq_false (Int.not_lt.mpr (hdone r hr))
    | last first hwindow hitems hdone hcursor =>
      refine ⟨1, [(⟨b, none⟩, page)], ?_, ?_⟩
      · rw [backwardWalk, hload, Option.bind_some]
        simp [hcursor]
      show page.items ++ [] = _
      rw [append_nil, hitems]
      apply entriesOf_congr
      intro r hr
      have hle : (pageStart t s first : Int) ≤ r.key := Int.ofNat_le.mpr (hdone r hr)
      rw [decide_eq_true hle, Bool.true_and]
    | more first hwindow hitems hcursor =>
      obtain ⟨hfirst, hbefore, -⟩ := windowBefore_eq hwindow
      obtain ⟨hle, e, he, hseq⟩ := pageStart_mem hfirst
      have hlt : (pageStart t s first : Int) < b.getD MAX_SAFE_INTEGER := lt_of_le_of_lt (Int.ofNat_le.mpr hle) hbefore
      have hmax : pageStart t s first ≤ MAX_SAFE_INTEGER := hseq ▸ Nat.le_of_lt (safe_display hsafe he)
      have hfewer := left_before he hseq hlt
      obtain ⟨fuel, walk, hwalk, hrest⟩ := ih _ (hn ▸ hfewer) (some (pageStart t s first : Int)) rfl
      refine ⟨fuel + 1, (⟨b, none⟩, page) :: walk, ?_, ?_⟩
      · rw [backwardWalk, hload, Option.bind_some]
        simp [hcursor, parseDisplayCursor_displayCursor s _ hmax, hwalk]
      rw [Walk.items, reverse_cons, flatMap_append, ← Walk.items, hrest]
      show _ ++ (page.items ++ []) = _
      rw [append_nil, hitems]
      apply entriesOf_append
      · intro a c ha hc
        simp only [and_eq_true, decide_eq_true_eq, Option.getD_some] at ha hc
        exact lt_of_lt_of_le ha hc.1
      intro a
      simp only [and_eq_true, decide_eq_true_eq, Option.getD_some]
      omega

/-- **A forward walk ends, with every entry after its cursor.** -/
theorem forwardWalk_ends (hlimit : 0 < limit) (hsafe : SafeSeqs t s) (b : Option Int) (after : Int) :
    ∃ fuel walk, forwardWalk t s limit fuel ⟨b, some after⟩ = some walk ∧
      Walk.items walk = entriesOf t s fun r => after < r.key := by
  induction hn : (queryDisplayRows t s fun r => after < r.key).length
    using Nat.strong_induction_on generalizing b after with
  | _ n ih =>
    obtain ⟨page, hload, hpage⟩ := forward_step (t := t) (s := s) hlimit b after
    cases hpage with
    | nothing hdone hitems hnext =>
      refine ⟨1, [(⟨b, some after⟩, page)], ?_, ?_⟩
      · rw [forwardWalk, hload, Option.bind_some, if_neg (eq_false_iff.mp hnext)]
      show page.items ++ [] = _
      rw [hitems, entriesOf_nil]
      · rfl
      · intro r hr
        exact decide_eq_false (Int.not_lt.mpr (hdone r hr))
    | last last hwindow hitems hdone hnext =>
      refine ⟨1, [(⟨b, some after⟩, page)], ?_, ?_⟩
      · rw [forwardWalk, hload, Option.bind_some, if_neg (eq_false_iff.mp hnext)]
      show page.items ++ [] = _
      rw [append_nil, hitems]
      apply entriesOf_congr
      intro r hr
      have hle : r.key ≤ (pageEnd t s last : Int) := Int.ofNat_le.mpr (hdone r hr)
      rw [decide_eq_true hle, Bool.and_true]
    | more last hwindow hitems hnext hcursor =>
      obtain ⟨hlast, hafter, -⟩ := windowAfter_eq hwindow
      obtain ⟨hle, e, he, hseq⟩ := pageEnd_mem hlast
      have hlt : after < (pageEnd t s last : Int) := lt_of_lt_of_le hafter (Int.ofNat_le.mpr hle)
      have hmax : pageEnd t s last ≤ MAX_SAFE_INTEGER := hseq ▸ Nat.le_of_lt (safe_display hsafe he)
      have hfewer := left_after he hseq hlt
      obtain ⟨fuel, walk, hwalk, hrest⟩ := ih _ (hn ▸ hfewer) none (pageEnd t s last : Int) rfl
      refine ⟨fuel + 1, (⟨b, some after⟩, page) :: walk, ?_, ?_⟩
      · rw [forwardWalk, hload, Option.bind_some, if_pos hnext, hcursor, Option.bind_some,
          parseDisplayCursor_displayCursor s _ hmax, Option.bind_some, hwalk, Option.map_some]
      show page.items ++ Walk.items walk = _
      rw [hrest, hitems]
      apply entriesOf_append
      · intro a c ha hc
        simp only [and_eq_true, decide_eq_true_eq] at ha hc
        exact lt_of_le_of_lt ha.2 hc
      intro a
      simp only [and_eq_true, decide_eq_true_eq]
      omega

theorem backwardWalk_load {fuel : Nat} {walk : Walk} (h : backwardWalk t s limit fuel position = some walk) :
    ∀ p ∈ walk, loadMessagePage t s limit p.1 = some p.2 := by
  induction fuel generalizing position walk with
  | zero => cases h
  | succ fuel ih =>
    obtain ⟨page, hload, h⟩ := Option.bind_eq_some_iff.mp h
    cases hcursor : page.pageInfo.previousCursor with
    | none =>
      simp only [hcursor, Option.some.injEq] at h
      subst h
      intro p hp
      obtain rfl := mem_singleton.mp hp
      exact hload
    | some cursor =>
      simp only [hcursor] at h
      obtain ⟨beforeSeq, -, h⟩ := Option.bind_eq_some_iff.mp h
      obtain ⟨rest, hrest, rfl⟩ := Option.map_eq_some_iff.mp h
      intro p hp
      rcases mem_cons.mp hp with rfl | hp
      · exact hload
      · exact ih hrest p hp

theorem forwardWalk_load {fuel : Nat} {walk : Walk} (h : forwardWalk t s limit fuel position = some walk) :
    ∀ p ∈ walk, loadMessagePage t s limit p.1 = some p.2 := by
  induction fuel generalizing position walk with
  | zero => cases h
  | succ fuel ih =>
    obtain ⟨page, hload, h⟩ := Option.bind_eq_some_iff.mp h
    by_cases hnext : page.pageInfo.hasNextPage = true
    · rw [if_pos hnext] at h
      obtain ⟨cursor, -, h⟩ := Option.bind_eq_some_iff.mp h
      obtain ⟨afterSeq, -, h⟩ := Option.bind_eq_some_iff.mp h
      obtain ⟨rest, hrest, rfl⟩ := Option.map_eq_some_iff.mp h
      intro p hp
      rcases mem_cons.mp hp with rfl | hp
      · exact hload
      · exact ih hrest p hp
    · rw [if_neg hnext] at h
      cases h
      intro p hp
      obtain rfl := mem_singleton.mp hp
      exact hload

theorem forwardWalk_head {fuel : Nat} {walk : Walk}
    (h : forwardWalk t s limit fuel position = some walk) : ∃ page, (position, page) ∈ walk := by
  cases fuel with
  | zero => cases h
  | succ fuel =>
    obtain ⟨page, -, h⟩ := Option.bind_eq_some_iff.mp h
    refine ⟨page, ?_⟩
    by_cases hnext : page.pageInfo.hasNextPage = true
    · rw [if_pos hnext] at h
      obtain ⟨cursor, -, h⟩ := Option.bind_eq_some_iff.mp h
      obtain ⟨afterSeq, -, h⟩ := Option.bind_eq_some_iff.mp h
      obtain ⟨rest, -, rfl⟩ := Option.map_eq_some_iff.mp h
      exact mem_cons_self
    · rw [if_neg hnext] at h
      cases h
      exact mem_singleton_self _

/-- **The pages of a walk hold every display entry once, in sequence order, and say what is on either
side of them.** Both walks end. -/
theorem pages_eachOnce (t : SessionMessages) (s : SessionId) (limit : Nat) (hlimit : 0 < limit) (hsafe : SafeSeqs t s) :
    (∃ fuel walk, backwardWalk t s limit fuel ⟨none, none⟩ = some walk ∧
      EachOnce t s (fun _ => true) (Walk.items walk.reverse) ∧
      ∀ p ∈ walk, FlagsOk t s p.1 p.2) ∧
    ∀ after : Int, ∃ fuel walk, forwardWalk t s limit fuel ⟨none, some after⟩ = some walk ∧
      EachOnce t s (fun r => after < r.key) (Walk.items walk) ∧
      ∀ p ∈ walk, FlagsOk t s p.1 p.2 := by
  constructor
  · obtain ⟨fuel, walk, hwalk, hitems⟩ := backwardWalk_ends hlimit hsafe none
    have hall : (entriesOf t s fun r => r.key < (none : Option Int).getD MAX_SAFE_INTEGER)
        = entriesOf t s fun _ => true := by
      apply entriesOf_congr
      intro r hr
      exact decide_eq_true (Int.ofNat_lt.mpr (safe_display hsafe hr))
    refine ⟨fuel, walk, hwalk, ?_, fun p hp => load_flags (backwardWalk_load hwalk p hp)⟩
    rw [hitems, hall]
    exact entriesOf_eachOnce _
  · intro after
    obtain ⟨fuel, walk, hwalk, hitems⟩ := forwardWalk_ends hlimit hsafe none after
    refine ⟨fuel, walk, hwalk, ?_, fun p hp => load_flags (forwardWalk_load hwalk p hp)⟩
    rw [hitems]
    exact entriesOf_eachOnce _

end

/-! ### Two sessions of one entry -/

def oneMessage (seq : Nat) : SessionMessages where
  rows := [⟨1, "s", seq, none, "e", .message (.message (.user [.text "hi"] [] 0)) 0⟩]
  nextId := 2
  below := by simp
  ids := by simp
  seqs := by simp
  harnessIds := by simp

theorem pages_eachOnce_oneMessage : 0 < 1 ∧ SafeSeqs (oneMessage 3) "s" ∧
    (∃ fuel walk, backwardWalk (oneMessage 3) "s" 1 fuel ⟨none, none⟩ = some walk ∧
      EachOnce (oneMessage 3) "s" (fun _ => true) (Walk.items walk.reverse) ∧
      ∀ p ∈ walk, FlagsOk (oneMessage 3) "s" p.1 p.2) ∧
    ∀ after : Int, ∃ fuel walk, forwardWalk (oneMessage 3) "s" 1 fuel ⟨none, some after⟩ = some walk ∧
      EachOnce (oneMessage 3) "s" (fun r => after < r.key) (Walk.items walk) ∧
      ∀ p ∈ walk, FlagsOk (oneMessage 3) "s" p.1 p.2 := by
  have hsafe : SafeSeqs (oneMessage 3) "s" := by
    intro r hr
    have hrow := (SessionMessages.mem_ofSession.mp hr).1
    obtain rfl := mem_singleton.mp hrow
    decide
  exact ⟨Nat.one_pos, hsafe, pages_eachOnce (oneMessage 3) "s" 1 Nat.one_pos hsafe⟩

theorem maxSafe_on_no_page :
    ¬ ∃ fuel walk, backwardWalk (oneMessage MAX_SAFE_INTEGER) "s" 1 fuel ⟨none, none⟩ = some walk ∧
      EachOnce (oneMessage MAX_SAFE_INTEGER) "s" (fun _ => true) (Walk.items walk.reverse) := by
  rintro ⟨fuel, walk, hwalk, honce⟩
  have hrows : displayRows (oneMessage MAX_SAFE_INTEGER) "s" = (oneMessage MAX_SAFE_INTEGER).rows :=
    mergeSort_singleton _
  have hnil : windowBefore (oneMessage MAX_SAFE_INTEGER) "s" 1 ((none : Option Int).getD MAX_SAFE_INTEGER) = [] := by
    rw [windowBefore, queryDisplayRows, hrows]
    rfl
  have hload := load_empty_before hnil
  have hprevious : presentRow (oneMessage MAX_SAFE_INTEGER) "s"
      (fun r => r.key < (none : Option Int).getD MAX_SAFE_INTEGER) = false := by
    rw [presentRow, hrows]
    rfl
  cases fuel with
  | zero => cases hwalk
  | succ fuel =>
    rw [backwardWalk, hload, Option.bind_some] at hwalk
    simp only [emptyPage, hprevious, false_eq_true, if_false, Option.some.injEq] at hwalk
    subst hwalk
    have hentries := honce.entries
    rw [queryDisplayRows, hrows] at hentries
    cases hentries

end Reins.Store
