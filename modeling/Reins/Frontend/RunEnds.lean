import Reins.Frontend.Transcripts

/-!
# The end of a run

The store of the session that is viewed ends a run when the session no longer runs and a sync it called has
succeeded. What is left of the run's overlays goes then: their messages are to be shown by their entries. The sync it
called may have been in flight, and answered, before the run's last entry was stored.
-/

namespace Reins.MessageSyncs

open Chat Conversations
open Store (ConversationEntry)

/-! ## What is to hold -/

def State.endsRun (s : State) (callers : List Caller) : Bool := callers.any (·.endsRun) && !s.running

/-- A step that ends the run holds, of every overlay it drops, the entry its message was stored as. -/
def Shows (locale : Collation) (s : State) : Event → Prop
  | .syncMerged restoreError => ∀ after answer callers, s.arrived = some (after, answer, callers) →
      answer.page.hasNextPage = false → s.endsRun callers = true →
      ∀ o ∈ (s.merge locale answer.page false restoreError).overlays, ∀ m id, s.shown o.streamId = some m →
        s.savedAs m = some id → ∃ e ∈ (step locale s (.syncMerged restoreError)).held, e.id = id
  | _ => True

/-- No entry is held beside an overlay with its id. -/
def Apart (c : ConversationState Nat) : Prop :=
  ∀ o ∈ c.streamingAssistants, ∀ id, o.durableId = some id → ∀ e ∈ c.entries, e.id ≠ id

def InTime (locale : Collation) (s : State) : Event → Prop
  | .syncMerged restoreError => ∀ after answer callers, s.arrived = some (after, answer, callers) →
      answer.page.hasNextPage = false → s.endsRun callers = true →
      ∀ o ∈ (s.merge locale answer.page false restoreError).overlays, ∀ m, s.shown o.streamId = some m →
        ∀ e ∈ s.stored, s.savedAs m = some e.id →
          e ∈ s.held ∨ e ∈ answer.stored ∧ ∃ x ∈ answer.page.items, x.seq ≤ e.seq
  | _ => True

/-! ## Overlays and entries -/

section

variable {locale : Collation} {c : ConversationState Nat}

/-- Every patch that brings entries or overlays drops the overlays whose entry is held. -/
theorem Apart.update (h : Apart c) (patch : ConversationUpdate Nat) : Apart (c.update locale patch) := by
  intro o ho id hid e he
  by_cases hchanged : (patch.entries.isSome || patch.streamingAssistants.isSome) = true
  · have ho' : o ∈ removePersistedStreamingAssistants (patch.streamingAssistants.getD c.streamingAssistants)
        ((c.update locale patch).entries.map (·.id)) := by
      simpa only [ConversationState.update, if_pos hchanged] using ho
    have hall := (List.mem_filter.mp ho').2
    rw [hid] at hall
    have hnot := of_decide_eq_true hall
    rintro rfl
    exact hnot (List.mem_map_of_mem he)
  · obtain ⟨hentries, hoverlays⟩ : patch.entries = none ∧ patch.streamingAssistants = none := by
      simpa using hchanged
    simp only [ConversationState.update, hentries, hoverlays, Option.isSome_none, Bool.or_self,
      Bool.false_eq_true, if_false, Option.getD_none, Option.elim_none] at ho he
    exact h o ho id hid e he

theorem Apart.applyEvent {conversation : Conversation Nat} (h : Apart conversation.state)
    (event : ChatEvent ConversationEntry) (seq : Nat) : Apart (conversation.applyEvent locale event seq).state := by
  rw [Conversation.applyEvent]
  dsimp only
  have hnoticed : Apart (if conversation.lastSeq.all fun last => seq = last + 1 then conversation.state
      else conversation.state.missedEvents locale) := by
    split
    · exact h
    · exact h.update _
  cases event <;> exact hnoticed.update _

end

section

variable {locale : Collation} {s : State}

theorem apart_clearCompacting (h : Apart s.conversation.state) :
    Apart (s.clearCompacting locale).conversation.state := by
  unfold State.clearCompacting
  split
  · exact h.update _
  · exact h

theorem syncMessages_conversation (s : State) (endsRun : Bool) :
    (s.syncMessages endsRun).conversation = s.conversation := by
  unfold State.syncMessages
  dsimp only
  split <;> rfl

theorem apart_handleSessionCacheUpdate (h : Apart s.conversation.state) :
    Apart (s.handleSessionCacheUpdate locale).conversation.state := by
  unfold State.handleSessionCacheUpdate
  split
  · exact h
  dsimp only
  split
  · exact h
  split
  · rw [syncMessages_conversation]
    exact apart_clearCompacting h
  · exact apart_clearCompacting h

theorem apart_synced (h : Apart s.conversation.state) (callers : List Caller) :
    Apart (s.synced locale callers).conversation.state := by
  unfold State.synced
  split
  · exact h.update _
  · exact h

/-- **No step brings an entry beside its overlay.** -/
theorem apart_step (h : Apart s.conversation.state) (e : Event) : Apart (step locale s e).conversation.state := by
  cases e with
  | stored entry message =>
    rw [step]
    split <;> exact h
  | entryReceived place seq =>
    rw [step]
    split
    · exact h.applyEvent _ seq
    · exact h
  | chatReceived event seq message =>
    by_cases hentry : ∃ entry, event = .entryAdded entry
    · obtain ⟨entry, rfl⟩ := hentry
      exact h
    · rw [step_chatReceived s seq message fun entry he => hentry ⟨entry, he⟩]
      exact h.applyEvent event seq
  | syncCalled =>
    rw [step, syncMessages_conversation]
    exact h
  | syncAnswered page | earlierCalled | earlierAnswered load page =>
    rw [step]
    split <;> exact h
  | syncMerged restoreError =>
    rw [step, State.syncMerged]
    split
    · exact h
    dsimp only
    split
    · exact apart_synced (h.update _) _
    · split <;> exact h.update _
  | earlierMerged load =>
    rw [step, State.earlierMerged]
    split
    · exact h.update _
    · exact h
  | syncFailed | earlierFailed load | disposed => exact h
  | opened =>
    rw [step, syncMessages_conversation]
    split
    · exact h
    · exact apart_clearCompacting h
  | cacheUpdated running => exact apart_handleSessionCacheUpdate h
  | pruned =>
    intro _ _ _ _ e he
    cases he
  | patched aside => exact h.update _

/-! ## What the last page brings -/

theorem tail_items {answered : List ConversationEntry} {after : Option Nat} {page : MessageRecordPage Nat}
    (h : TailPage answered after page) (hnext : page.hasNextPage = false) (e : ConversationEntry) :
    e ∈ page.items ↔ e ∈ answered ∧ ∃ x ∈ page.items, x.seq ≤ e.seq := by
  refine ⟨fun he => ⟨tail_stored h e he, e, he, Nat.le_refl _⟩, ?_⟩
  rintro ⟨he, x, hx, hxe⟩
  cases h with
  | nothing hitems => exact absurd (hitems ▸ hx) List.not_mem_nil
  | entries first last _ _ hitems _ _ _ hlast =>
    exact (hitems e).mpr ⟨he, ((hitems x).mp hx).2.1.trans hxe, hlast.mp hnext e he⟩

theorem shows_iff (h : Known s) (e : Event) : Shows locale s e ↔ InTime locale s e := by
  cases e with
  | syncMerged restoreError =>
    refine forall_congr' fun after => forall_congr' fun answer => forall_congr' fun callers =>
      forall_congr' fun harrived => forall_congr' fun hnext => forall_congr' fun _ => forall_congr' fun o =>
      forall_congr' fun _ => forall_congr' fun m => ?_
    have hheld : (step locale s (.syncMerged restoreError)).held =
        (s.merge locale answer.page false restoreError).held := by
      rw [step, State.syncMerged, harrived]
      dsimp only
      rw [hnext, Bool.not_false, if_pos rfl]
      exact congrArg View.held (synced_same locale _ callers).view
    have hmem : ∀ x, x ∈ (step locale s (.syncMerged restoreError)).held ↔
        x ∈ s.held ∨ x ∈ answer.stored ∧ ∃ y ∈ answer.page.items, y.seq ≤ x.seq := by
      intro x
      rw [hheld, h.mem_merge locale harrived restoreError, tail_items (h.answered harrived).2 hnext x]
    constructor
    · intro hshows hshown e he hsaved
      obtain ⟨e', he', hid⟩ := hshows e.id hshown hsaved
      have hstored : e' ∈ s.stored := by
        rcases (hmem e').mp he' with hin | ⟨hin, -⟩
        · exact h.held e' hin
        · exact (h.answered harrived).1.subset hin
      exact (hmem e).mp (h.stored.eq_of_id hstored he hid ▸ he')
    · intro hin id hshown hsaved
      obtain ⟨e, he, rfl⟩ := h.saved m id hsaved
      exact ⟨e, (hmem e).mpr (hin hshown e he hsaved), rfl⟩
  | _ => exact Iff.rfl

end

/-- **A run that ends hides no message** exactly where the entries its overlays are left of were stored in time,
and an entry is at no time held beside its overlay. -/
theorem runs_end_shown (locale : Collation) {es : List Event}
    (hserver : Run.Along (step locale) ServerAnswers .init es) :
    Run.Along (step locale) (fun s e => Shows locale s e ∧ Apart (step locale s e).conversation.state) .init es ↔
      Run.Along (step locale) (InTime locale) .init es := by
  refine hserver.congr_invariant (fun s => Known s ∧ Apart s.conversation.state)
    (fun s e he h => ⟨h.1.step locale e he, apart_step h.2 e⟩) (fun s e _ h => ?_) ⟨known_init, nofun⟩
  exact (and_iff_left (apart_step h.2 e)).trans (shows_iff h.1 e)

def streamStart : ChatEvent ConversationEntry := .messageStart ⟨"assistant", [], none, none⟩ "run:1"

def endedRun : List Event :=
  [.cacheUpdated true, .opened, .syncAnswered ⟨[], none, false, none, none⟩, .syncMerged true,
    .chatReceived streamStart 1 0, .stored (userEntry 1) (some 0), .cacheUpdated false, .syncAnswered onePage,
    .syncMerged true]

theorem runs_end_shown_endedRun :
    Run.Along (step .codePoints) (fun s e => Shows .codePoints s e ∧ Apart (step .codePoints s e).conversation.state)
      .init endedRun ↔ Run.Along (step .codePoints) (InTime .codePoints) .init endedRun := by
  refine runs_end_shown .codePoints ⟨trivial, trivial, fun sync hsync => ?_, trivial, trivial, trivial, trivial,
    fun sync hsync => ?_, trivial, trivial⟩
  · cases hsync
    exact .nothing rfl rfl rfl (.inl rfl) nofun
  · cases hsync
    exact onePage_tail

/-! ## A sync that was answered before -/

def assistantEntry (n : Nat) : ConversationEntry := ⟨toString n, none, n, none, .assistant [] none n⟩

/-- A sync is answered; then the run's message is stored, its event is lost, and the run ends. -/
def joinedSync : List Event :=
  [.stored (userEntry 1) none, .cacheUpdated true, .opened, .chatReceived streamStart 1 0, .syncAnswered onePage,
    .stored (assistantEntry 2) (some 0), .cacheUpdated false, .syncMerged true]

theorem message_hidden : Run.Along (step .codePoints) ServerAnswers .init joinedSync ∧ ¬ Run.Along (step .codePoints)
        (fun s e => Shows .codePoints s e ∧ Apart (step .codePoints s e).conversation.state) .init joinedSync := by
  have hordered : Ordered [userEntry 1] := ⟨List.pairwise_singleton .., List.nodup_singleton _⟩
  have hnone : ∀ e ∈ ([] : List ConversationEntry), e ∈ [userEntry 1] := nofun
  have hone : ∀ e ∈ [userEntry 1], e ∈ [userEntry 1] := fun _ => id
  have hmem := (upsertEntries_spec .codePoints hordered hnone hone).2
  refine ⟨⟨trivial, trivial, trivial, trivial, fun sync hsync => ?_, trivial, trivial, trivial, trivial⟩, fun h => ?_⟩
  · cases hsync
    exact onePage_tail
  have hshows := h.2.2.2.2.2.2.2.1.1
  obtain ⟨e, he, hid⟩ := hshows none ⟨onePage, [userEntry 1]⟩
    [⟨[userEntry 1], false⟩, ⟨[userEntry 1, assistantEntry 2], true⟩] rfl rfl rfl
    ⟨"run:1", none, ⟨"assistant", [], none, none⟩, false⟩ (List.mem_singleton_self _) 0 (toString 2) rfl rfl
  rcases (hmem e).mp he with he | he
  · cases he
  · rw [List.mem_singleton.mp he] at hid
    cases hid

end Reins.MessageSyncs
