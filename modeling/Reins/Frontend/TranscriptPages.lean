import Reins.Backend.MessagePages
import Reins.Frontend.ConversationsStore

/-!
# The pages of a transcript

A browser asks for the last page of a session's transcript or for the page after the last entry it has read,
and for the page before the first. What `messages-store` answers is said here by the entries' numbers, which
are what its cursors stand for: a page is all of the transcript from one entry to another.
-/

namespace Reins.Conversations

open Store (ConversationEntry)

def CursorBefore (stored : List ConversationEntry) (first : Nat) : Option Nat → Prop
  | none => ∀ e ∈ stored, first ≤ e.seq
  | some before => before = first ∧ ∃ e ∈ stored, e.seq < first

/-- The answer to a sync's request: the last page, or the page after an entry. -/
inductive TailPage (stored : List ConversationEntry) (after : Option Nat) (page : MessageRecordPage Nat) : Prop
  | nothing (items : page.items = []) (cursor : page.endCursor = after) (next : page.hasNextPage = false)
    (previous : page.previousCursor = none ∨ page.previousCursor = after) (done : ∀ e ∈ stored, ∃ k ∈ after, e.seq ≤ k)
  | entries (first last : ConversationEntry) (hfirst : first ∈ page.items) (hlast : last ∈ page.items)
    (items : ∀ e, e ∈ page.items ↔ e ∈ stored ∧ first.seq ≤ e.seq ∧ e.seq ≤ last.seq)
    (follows : ∀ k ∈ after, k < first.seq ∧ ∀ e ∈ stored, k < e.seq → first.seq ≤ e.seq)
    (previous : CursorBefore stored first.seq page.previousCursor) (cursor : page.endCursor = some last.seq)
    (next : page.hasNextPage = false ↔ ∀ e ∈ stored, e.seq ≤ last.seq)

inductive EarlierPage (stored : List ConversationEntry) (before : Nat) (page : MessageRecordPage Nat) : Prop
  | nothing (items : page.items = []) (previous : page.previousCursor = none) (done : ∀ e ∈ stored, before ≤ e.seq)
  | entries (first : ConversationEntry) (hfirst : first ∈ page.items)
    (items : ∀ e, e ∈ page.items ↔ e ∈ stored ∧ first.seq ≤ e.seq ∧ e.seq < before)
    (previous : CursorBefore stored first.seq page.previousCursor)

end Reins.Conversations

namespace Reins.Store

open Conversations
open Schema (MAX_SAFE_INTEGER)

def transcript (t : SessionMessages) (s : SessionId) : List ConversationEntry := entriesOf t s fun _ => true

structure Sends (s : SessionId) (page : SessionMessagePage) (record : MessageRecordPage Nat) : Prop where
  items : record.items = page.items
  previous : page.pageInfo.previousCursor = record.previousCursor.map (displayCursor s · .before)
  next : record.hasNextPage = page.pageInfo.hasNextPage
  cursor : page.pageInfo.endCursor = record.endCursor.map (displayCursor s · .after)

section

variable {t : SessionMessages} {s : SessionId} {limit : Nat} {p : Row → Bool}

theorem mem_entriesOf_iff {e : ConversationEntry} : e ∈ entriesOf t s p ↔ ∃ r ∈ displayRows t s, p r = true ∧
      ∃ m, parsePersistedMessage r.envelope = some m ∧ conversationEntry t s (r, m) = e := by
  simp only [entriesOf, segment, parseDisplayRows, List.mem_map, List.mem_filterMap, mem_queryDisplayRows,
    Option.map_eq_some_iff]
  constructor
  · rintro ⟨x, ⟨r, ⟨hr, hp⟩, m, hm, rfl⟩, rfl⟩
    exact ⟨r, hr, hp, m, hm, rfl⟩
  · rintro ⟨r, hr, hp, m, hm, rfl⟩
    exact ⟨_, ⟨r, ⟨hr, hp⟩, m, hm, rfl⟩, rfl⟩

theorem mem_entriesOf_seq (q : Nat → Prop) (hq : ∀ r ∈ displayRows t s, p r = true ↔ q r.seq)
    (e : ConversationEntry) : e ∈ entriesOf t s p ↔ e ∈ transcript t s ∧ q e.seq := by
  rw [transcript, mem_entriesOf_iff, mem_entriesOf_iff]
  constructor
  · rintro ⟨r, hr, hp, m, hm, rfl⟩
    exact ⟨⟨r, hr, rfl, m, hm, rfl⟩, (hq r hr).mp hp⟩
  · rintro ⟨⟨r, hr, -, m, hm, rfl⟩, hseq⟩
    exact ⟨r, hr, (hq r hr).mpr hseq, m, hm, rfl⟩

theorem row_of_transcript {e : ConversationEntry} (h : e ∈ transcript t s) : ∃ r ∈ displayRows t s, e.seq = r.seq := by
  obtain ⟨r, hr, heq, -⟩ := mem_entriesOf h
  exact ⟨r, (mem_queryDisplayRows.mp hr).1, heq⟩

theorem entry_of_row {r : Row} (h : r ∈ displayRows t s) : ∃ e ∈ transcript t s, e.seq = r.seq :=
  entriesOf_mem (mem_queryDisplayRows.mpr ⟨h, rfl⟩)

/-- A question about the rows' numbers is one about the entries'. -/
theorem presentRow_transcript {q : Nat → Bool} :
    presentRow t s (fun r => q r.seq) = true ↔ ∃ e ∈ transcript t s, q e.seq = true := by
  rw [presentRow_iff]
  constructor
  · rintro ⟨r, hr, hq⟩
    obtain ⟨e, he, heq⟩ := entry_of_row hr
    exact ⟨e, he, heq ▸ hq⟩
  rintro ⟨e, he, hq⟩
  obtain ⟨r, hr, heq⟩ := row_of_transcript he
  exact ⟨r, hr, heq ▸ hq⟩

/-- **The page of a segment**, by its entries' numbers. -/
theorem segment_record {lo hi : Nat} (hp : ∀ r ∈ displayRows t s, p r = true ↔ lo ≤ r.seq ∧ r.seq < hi) {r : Row}
    (hr : r ∈ queryDisplayRows t s p) :
    ∃ page record first last, pageOf t s (segment t s p) = some page ∧ Sends s page record ∧
      first ∈ record.items ∧ last ∈ record.items ∧
      (∀ e, e ∈ record.items ↔ e ∈ transcript t s ∧ first.seq ≤ e.seq ∧ e.seq ≤ last.seq) ∧
      (∀ e, e ∈ record.items ↔ e ∈ transcript t s ∧ lo ≤ e.seq ∧ e.seq < hi) ∧
      CursorBefore (transcript t s) first.seq record.previousCursor ∧ record.endCursor = some last.seq ∧
      (record.hasNextPage = false ↔ ∀ e ∈ transcript t s, e.seq ≤ last.seq) := by
  obtain ⟨f, hf⟩ := exists_head hr
  obtain ⟨l, hl⟩ := exists_getLast hr
  obtain ⟨first, hfirst, hfseq⟩ := entriesOf_mem (List.mem_of_head? hf)
  obtain ⟨last, hlast, hlseq⟩ := entriesOf_mem (List.mem_of_getLast? hl)
  have hchosen := mem_entriesOf_seq (fun n => lo ≤ n ∧ n < hi) hp
  have hlo := ((hchosen first).mp hfirst).2.1
  have hhi := ((hchosen last).mp hlast).2.2
  have hsorted := sorted_queryDisplayRows t s p
  have hitems : ∀ e, e ∈ entriesOf t s p ↔ e ∈ transcript t s ∧ first.seq ≤ e.seq ∧ e.seq ≤ last.seq := by
    intro e
    refine ⟨fun he => ⟨((hchosen e).mp he).1, ?_⟩, fun ⟨he, hfe, hel⟩ => (hchosen e).mpr ⟨he, by omega, by omega⟩⟩
    obtain ⟨x, hx, heq, -⟩ := mem_entriesOf he
    rw [hfseq, hlseq, heq]
    exact ⟨Int.ofNat_le.mp (hsorted.head_le hf x hx), Int.ofNat_le.mp (hsorted.le_getLast hl x hx)⟩
  have hbefore := presentRow_transcript (t := t) (s := s) (q := fun n => n < f.seq)
  have hafter := presentRow_transcript (t := t) (s := s) (q := fun n => l.seq < n)
  refine ⟨_, ⟨entriesOf t s p, if presentRow t s (fun r => r.seq < f.seq) then some f.seq else none,
    presentRow t s (fun r => l.seq < r.seq), some l.seq, none⟩, first, last, pageOf_segment hf hl,
    ⟨rfl, ?_, rfl, rfl⟩, hfirst, hlast, hitems, hchosen, ?_, congrArg some hlseq.symm, ?_⟩
  · split <;> rfl
  · dsimp only
    split
    · next h =>
      obtain ⟨e, he, hlt⟩ := hbefore.mp h
      exact ⟨hfseq.symm, e, he, hfseq ▸ of_decide_eq_true hlt⟩
    next h =>
    intro e he
    rw [hfseq]
    exact Nat.not_lt.mp fun hlt => h (hbefore.mpr ⟨e, he, decide_eq_true hlt⟩)
  · rw [← Bool.not_eq_true, hafter, hlseq]
    simp

/-- There is nothing that meets a condition no row meets. -/
theorem presentRow_none {q : Row → Bool} (h : ∀ r ∈ displayRows t s, q r = false) : false = presentRow t s q :=
  (presentRow_false.mpr h).symm

/-- **What a request for earlier entries is answered.** -/
theorem earlier_page (hlimit : 0 < limit) (before : Nat) :
    ∃ page record, loadMessagePage t s limit ⟨some before, none⟩ = some page ∧ Sends s page record ∧
      EarlierPage (transcript t s) before record := by
  cases hfirst : (windowBefore t s limit before).head? with
  | none =>
    have hnil := List.head?_eq_none_iff.mp hfirst
    have hnone := windowBefore_nil hlimit hnil
    refine ⟨_, ⟨[], none, presentRow t s (fun r => (before : Int) ≤ r.key), none, none⟩,
      load_empty_before (b := some (before : Int)) hnil, ⟨rfl, ?_, rfl, rfl⟩, .nothing rfl rfl fun e he => ?_⟩
    · exact if_neg (Bool.eq_false_iff.mp
        (presentRow_none fun r hr => decide_eq_false (Int.not_lt.mpr (hnone r hr))).symm)
    · obtain ⟨r, hr, heq⟩ := row_of_transcript he
      exact heq ▸ Int.ofNat_le.mp (hnone r hr)
  | some row =>
    obtain ⟨hdisplay, hbefore, -⟩ := windowBefore_eq hfirst
    have hbefore := Int.ofNat_lt.mp hbefore
    obtain ⟨hle, r, hr, hrseq⟩ := pageStart_mem hdisplay
    have hrows : ∀ x ∈ displayRows t s,
        ((pageStart t s row : Int) ≤ x.key && x.key < (some (before : Int)).getD MAX_SAFE_INTEGER) = true ↔
          pageStart t s row ≤ x.seq ∧ x.seq < before := by
      intro x _
      simp [Row.key]
    obtain ⟨page, record, first, last, hpage, hsends, hfirst', hlast, hitems, hchosen, hprevious, -, -⟩ :=
      segment_record hrows (mem_queryDisplayRows.mpr ⟨hr, (hrows r hr).mpr ⟨hrseq.ge, by omega⟩⟩)
    refine ⟨page, record, (load_before_eq (b := some (before : Int)) hfirst).trans hpage, hsends,
      .entries first hfirst' (fun e => ⟨fun he => ?_, fun ⟨he, hfe, heb⟩ => ?_⟩) hprevious⟩
    · exact ⟨((hitems e).mp he).1, ((hitems e).mp he).2.1, ((hchosen e).mp he).2.2⟩
    · exact (hchosen e).mpr ⟨he, ((hchosen first).mp hfirst').2.1.trans hfe, heb⟩

end

theorem earlier_page_oneMessage : ∃ page record, loadMessagePage (oneMessage 3) "s" 1 ⟨some 5, none⟩ = some page ∧
      Sends "s" page record ∧ EarlierPage (transcript (oneMessage 3) "s") 5 record :=
  earlier_page Nat.one_pos 5

end Reins.Store
