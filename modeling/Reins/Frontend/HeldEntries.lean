import Reins.Lib.Run
import Reins.Frontend.MessageSyncs

/-!
# The entries a browser holds

Whichever way entries come they are the server's, and an upsert keeps them in its order, each once. What is known
of a session in every state, if the server answers as it stores: what is held is stored, and an answer on its way
is of the transcript as it was. Most steps leave all of it alone but the callers of a sync.
-/

namespace Reins.MessageSyncs

open Chat Conversations List
open Store (ConversationEntry)

variable {after : Option Nat} {answer : Answer} {callers : List Caller}

/-! ## Upserts -/

/-- The server's transcript is in the order of its numbers, and its entries have ids of their own. -/
structure Ordered (stored : List ConversationEntry) : Prop where
  inOrder : Segment.Sorted ConversationEntry.seq stored
  ids : (stored.map ConversationEntry.id).Nodup

section

variable {stored current incoming : List ConversationEntry} {e e' : ConversationEntry}

theorem Ordered.eq_of_id (h : Ordered stored) (he : e ∈ stored) (he' : e' ∈ stored) (hid : e.id = e'.id) :
    e = e' := inj_on_of_nodup_map h.ids he he' hid

theorem Ordered.eq_of_seq (h : Ordered stored) (he : e ∈ stored) (he' : e' ∈ stored) (hseq : e.seq = e'.seq) :
    e = e' := by
  refine inj_on_of_nodup_map (f := ConversationEntry.seq) ?_ he he' hseq
  exact pairwise_map.mpr (h.inOrder.imp fun hlt => Nat.ne_of_lt hlt)

/-- Of entries that are what they are by their ids, one is added or there already. -/
theorem setEntry_eq (h : ∀ x ∈ current, x.id = e.id → x = e) :
    (e ∈ current ∧ setEntry current e = current) ∨ (e ∉ current ∧ setEntry current e = current ++ [e]) := by
  induction current with
  | nil => exact .inr ⟨not_mem_nil, rfl⟩
  | cons x rest ih =>
    rw [setEntry]
    split
    · next hid =>
      obtain rfl := h x (mem_cons_self ..) hid
      exact .inl ⟨mem_cons_self .., rfl⟩
    next hid =>
    have hne : e ≠ x := fun heq => hid (by rw [heq])
    rcases ih fun y hy => h y (mem_cons_of_mem x hy) with ⟨hmem, heq⟩ | ⟨hmem, heq⟩
    · exact .inl ⟨mem_cons_of_mem x hmem, by rw [heq]⟩
    · exact .inr ⟨by simp [hne, hmem], by rw [heq, cons_append]⟩

theorem foldl_setEntry (h : Ordered stored) (hc : ∀ x ∈ current, x ∈ stored) (hi : ∀ x ∈ incoming, x ∈ stored)
    (hnd : current.Nodup) :
    (incoming.foldl setEntry current).Nodup ∧
      ∀ x, x ∈ incoming.foldl setEntry current ↔ x ∈ current ∨ x ∈ incoming := by
  induction incoming generalizing current with
  | nil => exact ⟨hnd, fun x => by simp⟩
  | cons e rest ih =>
    have he := hi e (mem_cons_self ..)
    have hrest := fun x hx => hi x (mem_cons_of_mem e hx)
    rw [foldl_cons]
    rcases setEntry_eq fun x hx hid => h.eq_of_id (hc x hx) he hid with ⟨hmem, heq⟩ | ⟨hmem, heq⟩
    · rw [heq]
      obtain ⟨hnd', hmem'⟩ := ih hc hrest hnd
      refine ⟨hnd', fun x => (hmem' x).trans ?_⟩
      rw [mem_cons]
      constructor
      · exact Or.imp id .inr
      rintro (hx | rfl | hx)
      · exact .inl hx
      · exact .inl hmem
      · exact .inr hx
    · rw [heq]
      have hc' : ∀ x ∈ current ++ [e], x ∈ stored := by
        intro x hx
        rcases mem_append.mp hx with hx | hx
        · exact hc x hx
        · exact mem_singleton.mp hx ▸ he
      obtain ⟨hnd', hmem'⟩ := ih hc' hrest (nodup_append.mpr ⟨hnd, nodup_singleton e, by
        intro a ha b hb
        rw [mem_singleton.mp hb]
        rintro rfl
        exact hmem ha⟩)
      refine ⟨hnd', fun x => (hmem' x).trans ?_⟩
      rw [mem_append, mem_singleton, mem_cons, or_assoc]

theorem before_trans (locale : Collation) (a b c : ConversationEntry) (hab : locale.before a b = true)
    (hbc : locale.before b c = true) : locale.before a c = true := by
  simp only [Collation.before, Bool.or_eq_true, Bool.and_eq_true, decide_eq_true_eq] at *
  rcases hab with hab | ⟨hab, hle⟩
  · exact .inl (by omega)
  rcases hbc with hbc | ⟨hbc, hle'⟩
  · exact .inl (by omega)
  · exact .inr ⟨hab.trans hbc, locale.trans _ _ _ hle hle'⟩

theorem before_total (locale : Collation) (a b : ConversationEntry) :
    (locale.before a b || locale.before b a) = true := by
  simp only [Collation.before, Bool.or_eq_true, Bool.and_eq_true, decide_eq_true_eq]
  rcases Nat.lt_trichotomy a.seq b.seq with h | h | h
  · exact .inl (.inl h)
  · rcases Bool.or_eq_true _ _ ▸ locale.total a.id b.id with hle | hle
    · exact .inl (.inr ⟨h, hle⟩)
    · exact .inr (.inr ⟨h.symm, hle⟩)
  · exact .inr (.inl h)

/-- **What an upsert holds**: of entries of one transcript, those of both sides, in the transcript's order. -/
theorem upsertEntries_spec (locale : Collation) (h : Ordered stored) (hc : ∀ x ∈ current, x ∈ stored)
    (hi : ∀ x ∈ incoming, x ∈ stored) :
    Segment.Sorted ConversationEntry.seq (upsertEntries locale current incoming) ∧
      ∀ x, x ∈ upsertEntries locale current incoming ↔ x ∈ current ∨ x ∈ incoming := by
  have hnone : ∀ x ∈ ([] : List ConversationEntry), x ∈ stored := nofun
  have hboth : ∀ x ∈ current ++ incoming, x ∈ stored := fun x hx => (mem_append.mp hx).elim (hc x) (hi x)
  obtain ⟨hnd, hmem⟩ := foldl_setEntry h hnone hboth nodup_nil
  have hmem' : ∀ x, x ∈ upsertEntries locale current incoming ↔ x ∈ current ∨ x ∈ incoming := by
    intro x
    rw [upsertEntries, mem_mergeSort, hmem x, mem_append]
    simp
  refine ⟨?_, hmem'⟩
  have hle := pairwise_mergeSort (before_trans locale) (before_total locale)
    ((current ++ incoming).foldl setEntry [])
  have hne : (upsertEntries locale current incoming).Nodup := (mergeSort_perm ..).nodup_iff.mpr hnd
  refine List.Pairwise.imp_of_mem ?_ (hle.and hne)
  rintro a b ha hb ⟨hab, hne⟩
  simp only [Collation.before, Bool.or_eq_true, Bool.and_eq_true, decide_eq_true_eq] at hab
  rcases hab with hlt | ⟨heq, -⟩
  · exact hlt
  · have hstored := fun x hx => ((hmem' x).mp hx).elim (hc x) (hi x)
    exact absurd (h.eq_of_seq (hstored a ha) (hstored b hb) heq) hne

end

/-! ## Answers -/

section

variable {stored answered : List ConversationEntry} {after : Option Nat} {before : Nat} {page : MessageRecordPage Nat}

theorem Ordered.stored_or_later (h : Ordered stored) (hp : answered <+: stored) {e : ConversationEntry}
    (he : e ∈ stored) : e ∈ answered ∨ ∀ x ∈ answered, x.seq < e.seq := by
  obtain ⟨rest, rfl⟩ := hp
  rcases mem_append.mp he with he | he
  · exact .inl he
  · exact .inr fun x hx => (pairwise_append.mp h.inOrder).2.2 x hx e he

theorem Ordered.stored_of_le (h : Ordered stored) (hp : answered <+: stored) {e x : ConversationEntry}
    (he : e ∈ stored) (hx : x ∈ answered) (hle : e.seq ≤ x.seq) : e ∈ answered :=
  (h.stored_or_later hp he).resolve_right fun hlater => absurd (hlater x hx) (Nat.not_lt.mpr hle)

theorem tail_stored (h : TailPage answered after page) : ∀ e ∈ page.items, e ∈ answered := by
  intro e he
  cases h with
  | nothing hitems => exact absurd (hitems ▸ he) not_mem_nil
  | entries _ _ _ _ hitems => exact ((hitems e).mp he).1

theorem earlier_stored (h : EarlierPage answered before page) : ∀ e ∈ page.items, e ∈ answered := by
  intro e he
  cases h with
  | nothing hitems => exact absurd (hitems ▸ he) not_mem_nil
  | entries _ _ hitems => exact ((hitems e).mp he).1

theorem tail_last (h : TailPage answered after page) (hnext : page.hasNextPage = false) :
    ∀ e ∈ answered, ∃ c, page.endCursor = some c ∧ e.seq ≤ c := by
  intro e he
  cases h with
  | nothing _ hcursor _ _ hdone =>
    obtain ⟨k, hk, hle⟩ := hdone e he
    exact ⟨k, hcursor.trans hk, hle⟩
  | entries _ last _ _ _ _ _ hcursor hlast => exact ⟨last.seq, hcursor, hlast.mp hnext e he⟩

end

/-! ## What is known -/

structure Sync.Known (stored : List ConversationEntry) (sync : Sync) : Prop where
  answer : ∀ a, sync.answer = some a → a.stored <+: stored ∧ TailPage a.stored sync.after a.page
  callers : ∀ c ∈ sync.callers, ∀ e ∈ c.stored, e ∈ stored

def Load.Known (stored : List ConversationEntry) (load : Load) : Prop :=
  ∀ a, load.answer = some a → a.stored <+: stored ∧ EarlierPage a.stored load.before a.page

structure Known (s : State) : Prop where
  stored : Ordered s.stored
  held : ∀ e ∈ s.held, e ∈ s.stored
  inOrder : Segment.Sorted ConversationEntry.seq s.held
  loaded : ∀ e ∈ s.loaded, e ∈ s.held
  sync : ∀ sync, s.sync = some sync → sync.Known s.stored
  loads : ∀ l ∈ s.loads, l.Known s.stored
  saved : ∀ m id, s.savedAs m = some id → ∃ e ∈ s.stored, e.id = id

theorem known_init : Known .init where
  stored := ⟨List.Pairwise.nil, nodup_nil⟩
  held := nofun
  inOrder := List.Pairwise.nil
  loaded := nofun
  sync := nofun
  loads := nofun
  saved := nofun

/-! ## Steps that are not of the transcript -/

structure View where
  held : List ConversationEntry
  previousCursor : Option Nat
  latestCursor : Option Nat

def State.view (s : State) : View := ⟨s.held, s.conversation.state.previousCursor, s.conversation.state.latestCursor⟩

inductive Continues (s : State) (sync' : Sync) : Prop
  | joined (sync : Sync) (was : s.sync = some sync) (after : sync'.after = sync.after)
    (answer : sync'.answer = sync.answer)
    (callers : ∀ c ∈ sync'.callers, c.stored = s.stored ∨ ∃ c' ∈ sync.callers, c.stored = c'.stored)
  | begun (after : sync'.after = s.view.latestCursor) (answer : sync'.answer = none)
    (callers : ∀ c ∈ sync'.callers, c.stored = s.stored)

/-- Nothing of the transcript changes, on either side. -/
structure Same (s s' : State) : Prop where
  stored : s'.stored = s.stored
  view : s'.view = s.view
  loaded : s'.loaded = s.loaded
  loads : s'.loads = s.loads
  savedAs : s'.savedAs = s.savedAs
  sync : ∀ sync, s'.sync = some sync → Continues s sync

section

variable {locale : Collation} {s s' s'' : State}

theorem same_of (hstored : s'.stored = s.stored) (hview : s'.view = s.view) (hloaded : s'.loaded = s.loaded)
    (hloads : s'.loads = s.loads) (hsaved : s'.savedAs = s.savedAs) (hsync : s'.sync = s.sync) : Same s s' :=
  ⟨hstored, hview, hloaded, hloads, hsaved, fun sync h =>
    .joined sync (hsync ▸ h) rfl rfl fun c hc => .inr ⟨c, hc, rfl⟩⟩

theorem Same.trans (h : Same s s') (h' : Same s' s'') : Same s s'' where
  stored := h'.stored.trans h.stored
  view := h'.view.trans h.view
  loaded := h'.loaded.trans h.loaded
  loads := h'.loads.trans h.loads
  savedAs := h'.savedAs.trans h.savedAs
  sync sync hsync := by
    cases h'.sync sync hsync with
    | joined sync' was after answer callers =>
      cases h.sync sync' was with
      | joined sync'' was' after' answer' callers' =>
        refine .joined sync'' was' (after.trans after') (answer.trans answer') fun c hc => ?_
        rcases callers c hc with hstored | ⟨c', hc', heq⟩
        · exact .inl (hstored.trans h.stored)
        · rw [heq]
          exact callers' c' hc'
      | begun after' answer' callers' =>
        refine .begun (after.trans after') (answer.trans answer') fun c hc => ?_
        rcases callers c hc with hstored | ⟨c', hc', heq⟩
        · exact hstored.trans h.stored
        · exact heq.trans (callers' c' hc')
    | begun after answer callers =>
      exact .begun (after.trans (congrArg View.latestCursor h.view)) answer fun c hc => (callers c hc).trans h.stored

theorem syncMessages_same (s : State) (endsRun : Bool) : Same s (s.syncMessages endsRun) := by
  unfold State.syncMessages
  dsimp only
  split
  · next sync hsync =>
    refine ⟨rfl, rfl, rfl, rfl, rfl, fun x hx => ?_⟩
    cases hx
    refine .joined sync hsync rfl rfl fun c hc => ?_
    rcases mem_append.mp hc with hc | hc
    · exact .inr ⟨c, hc, rfl⟩
    · exact .inl (mem_singleton.mp hc ▸ rfl)
  · refine ⟨rfl, rfl, rfl, rfl, rfl, fun x hx => ?_⟩
    cases hx
    exact .begun rfl rfl fun c hc => mem_singleton.mp hc ▸ rfl

theorem clearCompacting_same (locale : Collation) (s : State) : Same s (s.clearCompacting locale) := by
  unfold State.clearCompacting
  split <;> exact same_of rfl rfl rfl rfl rfl rfl

theorem handleSessionCacheUpdate_same (locale : Collation) (s : State) :
    Same s (s.handleSessionCacheUpdate locale) := by
  unfold State.handleSessionCacheUpdate
  split
  · exact same_of rfl rfl rfl rfl rfl rfl
  have hactive : Same s { s with active := some s.running } := same_of rfl rfl rfl rfl rfl rfl
  dsimp only
  split
  · exact hactive
  split
  · exact (hactive.trans (clearCompacting_same locale _)).trans (syncMessages_same _ true)
  · exact hactive.trans (clearCompacting_same locale _)

theorem synced_same (locale : Collation) (s : State) (callers : List Caller) :
    Same { s with sync := none } (s.synced locale callers) := by
  unfold State.synced
  split <;> exact ⟨rfl, rfl, rfl, rfl, rfl, nofun⟩

/-- What is not an entry changes nothing of the transcript. -/
theorem applyEvent_view (s : State) {event : ChatEvent ConversationEntry} {seq : Nat} {shown : StreamId → Option Nat}
    (hevent : ∀ entry, event ≠ .entryAdded entry) :
    ({ s with conversation := s.conversation.applyEvent locale event seq, shown := shown } : State).view = s.view := by
  cases event with
  | entryAdded entry => exact absurd rfl (hevent entry)
  | _ =>
    simp only [State.view, State.held, Conversation.applyEvent]
    split <;> rfl

theorem step_chatReceived (s : State) {event : ChatEvent ConversationEntry} (seq message : Nat)
    (hevent : ∀ entry, event ≠ .entryAdded entry) :
    step locale s (.chatReceived event seq message) =
      { s with
        conversation := s.conversation.applyEvent locale event seq
        shown := fun streamId => if event.keyframeOf = some streamId then some message else s.shown streamId } := by
  cases event with
  | entryAdded entry => exact absurd rfl (hevent entry)
  | _ => rfl

/-- The steps that are none of an entry, an answer or a page. -/
def Event.isAside : Event → Bool
  | .chatReceived .. | .syncCalled | .syncFailed | .opened | .disposed | .cacheUpdated _ | .patched _ => true
  | _ => false

theorem aside_same (s : State) {e : Event} (h : e.isAside = true) : Same s (step locale s e) := by
  cases e with
  | chatReceived event seq message =>
    by_cases hentry : ∃ entry, event = .entryAdded entry
    · obtain ⟨entry, rfl⟩ := hentry
      exact same_of rfl rfl rfl rfl rfl rfl
    have hevent : ∀ entry, event ≠ .entryAdded entry := fun entry h => hentry ⟨entry, h⟩
    rw [step_chatReceived s seq message hevent]
    exact same_of rfl (applyEvent_view s hevent) rfl rfl rfl rfl
  | syncCalled => exact syncMessages_same s false
  | syncFailed => exact ⟨rfl, rfl, rfl, rfl, rfl, nofun⟩
  | opened =>
    have hactive : Same s { s with active := some s.running } := same_of rfl rfl rfl rfl rfl rfl
    rw [step]
    dsimp only
    split
    · exact hactive.trans (syncMessages_same _ false)
    · exact (hactive.trans (clearCompacting_same locale _)).trans (syncMessages_same _ false)
  | disposed =>
    refine ⟨rfl, rfl, rfl, rfl, rfl, fun x hx => ?_⟩
    obtain ⟨sync, hsync, rfl⟩ := Option.map_eq_some_iff.mp hx
    refine .joined sync hsync rfl rfl fun c hc => ?_
    obtain ⟨c', hc', rfl⟩ := mem_map.mp hc
    exact .inr ⟨c', hc', rfl⟩
  | cacheUpdated running =>
    have hcached : Same s { s with running := running } := same_of rfl rfl rfl rfl rfl rfl
    exact hcached.trans (handleSessionCacheUpdate_same locale _)
  | patched aside =>
    refine same_of rfl ?_ rfl rfl rfl rfl
    simp only [step, State.view, State.held, State.change, ConversationState.update, aside.entries,
      aside.previousCursor, aside.latestCursor, Option.elim_none, Option.getD_none]
  | _ => cases h

theorem Known.same (h : Known s) (hs : Same s s') : Known s' := by
  have hheld : s'.held = s.held := congrArg View.held hs.view
  refine ⟨?_, ?_, ?_, ?_, fun x hx => ?_, ?_, ?_⟩
  · exact hs.stored ▸ h.stored
  · rw [hheld, hs.stored]
    exact h.held
  · exact hheld ▸ h.inOrder
  · rw [hheld, hs.loaded]
    exact h.loaded
  · rw [hs.stored]
    cases hs.sync x hx with
    | joined sync was after answer callers =>
      have hsync := h.sync sync was
      refine ⟨fun a ha => ?_, fun c hc e he => ?_⟩
      · rw [after]
        exact hsync.answer a (answer ▸ ha)
      rcases callers c hc with hstored | ⟨c', hc', heq⟩
      · exact hstored ▸ he
      · exact hsync.callers c' hc' e (heq ▸ he)
    | begun after answer callers =>
      refine ⟨fun a ha => ?_, fun c hc e he => callers c hc ▸ he⟩
      cases answer.symm.trans ha
  · rw [hs.loads, hs.stored]
    exact h.loads
  · rw [hs.savedAs, hs.stored]
    exact h.saved

/-! ## Steps of the transcript -/

theorem arrived_eq (h : s.arrived = some (after, answer, callers)) : s.sync = some ⟨after, some answer, callers⟩ := by
  obtain ⟨sync, hsync, hmap⟩ := Option.bind_eq_some_iff.mp h
  obtain ⟨a, ha, heq⟩ := Option.map_eq_some_iff.mp hmap
  obtain ⟨rfl, rfl, rfl⟩ : sync.after = after ∧ a = answer ∧ sync.callers = callers := by
    simpa using heq
  rw [hsync, ← ha]

theorem Known.merge (h : Known s) {page : MessageRecordPage Nat} {earlier restoreError : Bool} {sync : Option Sync}
    {loads : List Load} (hitems : ∀ e ∈ page.items, e ∈ s.stored)
    (hsync : ∀ x, sync = some x → x.Known s.stored) (hloads : ∀ l ∈ loads, l.Known s.stored) :
    Known { s.merge locale page earlier restoreError with sync := sync, loads := loads } := by
  obtain ⟨hsorted, hmem⟩ := upsertEntries_spec locale h.stored h.held hitems
  exact
    { stored := h.stored
      held := fun e he => ((hmem e).mp he).elim (h.held e) (hitems e)
      inOrder := hsorted
      loaded := fun e he => (hmem e).mpr ((mem_append.mp he).imp (h.loaded e) id)
      sync := hsync
      loads := hloads
      saved := h.saved }

theorem Known.answered (h : Known s) (harrived : s.arrived = some (after, answer, callers)) :
    answer.stored <+: s.stored ∧ TailPage answer.stored after answer.page :=
  (h.sync _ (arrived_eq harrived)).answer answer rfl

theorem Known.items (h : Known s)
    (harrived : s.arrived = some (after, answer, callers)) : ∀ e ∈ answer.page.items, e ∈ s.stored :=
  fun e he => (h.answered harrived).1.subset (tail_stored (h.answered harrived).2 e he)

theorem Known.mem_merge (locale : Collation) (h : Known s) (harrived : s.arrived = some (after, answer, callers)) (restoreError : Bool)
    (e : ConversationEntry) :
    e ∈ (s.merge locale answer.page false restoreError).held ↔ e ∈ s.held ∨ e ∈ answer.page.items :=
  (upsertEntries_spec locale h.stored h.held (h.items harrived)).2 e

theorem Known.mergeTail (locale : Collation) (h : Known s)
    (harrived : s.arrived = some (after, answer, callers)) (restoreError : Bool) (sync : Option Sync)
    (hsync : ∀ x, sync = some x → x.answer = none ∧ x.callers = callers) :
    Known { s.merge locale answer.page false restoreError with sync := sync } := by
  refine h.merge (h.items harrived) (fun x hx => ?_) h.loads
  obtain ⟨hanswer, hcallers⟩ := hsync x hx
  refine ⟨fun a ha => ?_, hcallers ▸ (h.sync _ (arrived_eq harrived)).callers⟩
  cases hanswer.symm.trans ha

theorem Known.syncMerged (h : Known s) (restoreError : Bool) : Known (s.syncMerged locale restoreError) := by
  unfold State.syncMerged
  split
  · exact h
  next after answer callers harrived =>
  dsimp only
  split
  · exact (h.mergeTail locale harrived restoreError none nofun).same (synced_same locale _ callers)
  split
  · exact h.mergeTail locale harrived restoreError none nofun
  · exact h.mergeTail locale harrived restoreError (some _) fun x hx => Option.some_inj.mp hx ▸ ⟨rfl, rfl⟩

theorem Known.earlierMerged (locale : Collation) (h : Known s) (load : Nat) : Known (s.earlierMerged locale load) := by
  unfold State.earlierMerged
  split
  · next before answer hload =>
    obtain ⟨hprior, hpage⟩ := h.loads _ (mem_of_getElem? hload) answer rfl
    exact h.merge (fun e he => hprior.subset (earlier_stored hpage e he)) h.sync fun l hl =>
      h.loads l (mem_of_mem_eraseIdx hl)
  · exact h

theorem Known.store (h : Known s) {entry : ConversationEntry} {message : Option Nat}
    (hnew : ∀ e ∈ s.stored, e.seq < entry.seq ∧ e.id ≠ entry.id) :
    Known { s with
      stored := s.stored ++ [entry]
      savedAs := fun m => if message = some m then some entry.id else s.savedAs m } := by
  have hgrows : s.stored <+: s.stored ++ [entry] := prefix_append ..
  have hsub : ∀ e ∈ s.stored, e ∈ s.stored ++ [entry] := fun e he => hgrows.subset he
  refine ⟨⟨?_, ?_⟩, fun e he => hsub e (h.held e he), h.inOrder, h.loaded, fun x hx => ?_, fun l hl a ha => ?_,
    fun m id hm => ?_⟩
  · refine pairwise_append.mpr ⟨h.stored.inOrder, pairwise_singleton .., fun a ha b hb => ?_⟩
    exact mem_singleton.mp hb ▸ (hnew a ha).1
  · rw [map_append, nodup_append]
    refine ⟨h.stored.ids, nodup_singleton _, fun a ha b hb => ?_⟩
    obtain ⟨x, hx, rfl⟩ := mem_map.mp ha
    rw [mem_singleton.mp hb]
    exact (hnew x hx).2
  · obtain ⟨hanswer, hcallers⟩ := h.sync x hx
    exact ⟨fun a ha => (hanswer a ha).imp_left (·.trans hgrows), fun c hc e he => hsub e (hcallers c hc e he)⟩
  · exact (h.loads l hl a ha).imp_left (·.trans hgrows)
  · dsimp only at hm
    split at hm
    · exact ⟨entry, mem_append_right _ (mem_singleton_self entry), Option.some_inj.mp hm⟩
    · exact (h.saved m id hm).imp fun e he => he.imp_left (hsub e)

theorem entryReceived_view (locale : Collation) (s : State) (entry : ConversationEntry) (seq : Nat) :
    ({ s with conversation := s.conversation.applyEvent locale (.entryAdded entry) seq } : State).view =
      ⟨upsertEntries locale s.held [entry], s.view.previousCursor, s.view.latestCursor⟩ := by
  simp only [State.view, State.held, Conversation.applyEvent]
  split <;> rfl

theorem Known.entryReceived (h : Known s) {entry : ConversationEntry} {seq : Nat} (hentry : entry ∈ s.stored) :
    Known { s with conversation := s.conversation.applyEvent locale (.entryAdded entry) seq } := by
  have hincoming : ∀ e ∈ [entry], e ∈ s.stored := fun e he => mem_singleton.mp he ▸ hentry
  obtain ⟨hsorted, hmem⟩ := upsertEntries_spec locale h.stored h.held hincoming
  have hheld := congrArg View.held (entryReceived_view locale s entry seq)
  refine ⟨h.stored, ?_, ?_, ?_, h.sync, h.loads, h.saved⟩
  · rw [show State.held _ = _ from hheld]
    exact fun e he => ((hmem e).mp he).elim (h.held e) (hincoming e)
  · rw [show State.held _ = _ from hheld]
    exact hsorted
  · rw [show State.held _ = _ from hheld]
    exact fun e he => (hmem e).mpr (.inl (h.loaded e he))

/-- **Every step keeps what is known.** -/
theorem Known.step (locale : Collation) (h : Known s) (e : Event) (hserver : ServerAnswers s e) : Known (MessageSyncs.step locale s e) := by
  cases e with
  | stored entry message =>
    rw [MessageSyncs.step]
    split
    · next hnew => exact h.store hnew
    · exact h
  | entryReceived place seq =>
    rw [MessageSyncs.step]
    split
    · next entry hentry => exact h.entryReceived (mem_of_getElem? hentry)
    · exact h
  | syncAnswered page =>
    rw [MessageSyncs.step]
    split
    · next after callers hsync =>
      refine { h with sync := fun x hx => ?_ }
      cases hx
      refine ⟨fun a ha => ?_, (h.sync _ hsync).callers⟩
      cases ha
      exact ⟨prefix_refl _, hserver ⟨after, none, callers⟩ hsync⟩
    · exact h
  | syncMerged restoreError => exact h.syncMerged restoreError
  | earlierCalled =>
    rw [MessageSyncs.step]
    split
    · refine { h with loads := fun l hl => ?_ }
      rcases mem_append.mp hl with hl | hl
      · exact h.loads l hl
      · obtain rfl := mem_singleton.mp hl
        exact nofun
    · exact h
  | earlierAnswered load page =>
    rw [MessageSyncs.step]
    split
    · next before hload =>
      refine { h with loads := fun l hl => ?_ }
      rcases mem_or_eq_of_mem_set hl with hl | rfl
      · exact h.loads l hl
      intro a ha
      cases ha
      exact ⟨prefix_refl _, hserver ⟨before, none⟩ hload⟩
    · exact h
  | earlierMerged load => exact h.earlierMerged locale load
  | earlierFailed load => exact { h with loads := fun l hl => h.loads l (mem_of_mem_eraseIdx hl) }
  | pruned => exact { h with held := nofun, inOrder := List.Pairwise.nil, loaded := nofun }
  | _ => exact h.same (aside_same s rfl)

end

end Reins.MessageSyncs
