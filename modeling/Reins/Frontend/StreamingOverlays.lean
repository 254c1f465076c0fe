import Reins.Lib.Run
import Reins.Backend.MessageStream
import Reins.Frontend.ConversationsStore

/-!
# A browser follows streaming messages

The server numbers a session's events for the life of its process, whichever runtime they are of; a browser
receives some of them, in order. What a browser shows of a message is put together from snapshots and steps
by its own step function, what the server shows by another, and the browser knows of a lost step by the
numbers alone.
-/

namespace Reins.StreamingOverlays

open Chat Conversations Streams List Option Function
open Store (ConversationEntry)

variable {streamId : StreamId} {i : Nat} {m : AgentMessage} {b a : Block} {content : Content}

/-! ## The two step functions -/

def unsignedBlock (b : Block) : Block := { b with signature := none }

def unsigned (content : Content) : Content := content.map (Option.map unsignedBlock)

section

variable {c d d' : Content} {step : AssistantStreamEvent} {message : AgentMessage}

theorem unsigned_blockAt (c : Content) (i : Nat) : blockAt (unsigned c) i = (blockAt c i).map unsignedBlock := by
  rw [blockAt, blockAt, unsigned, getElem?_map]
  cases (c)[i]? with
  | none => rfl
  | some b => rfl

theorem blockAt_lt (h : blockAt c i = some b) : i < c.length := by
  by_contra hi
  rw [blockAt, getElem?_eq_none (Nat.not_lt.mp hi)] at h
  cases h

theorem unsigned_length (c : Content) : (unsigned c).length = c.length := length_map ..

theorem unsigned_set (h : unsigned c = unsigned d) (hi : i < c.length) (hab : unsignedBlock a = unsignedBlock b) :
    unsigned (c.set i (some a)) = unsigned (setBlock d i b) := by
  have hlen : c.length = d.length := by rw [← unsigned_length c, h, unsigned_length]
  rw [setBlock, if_pos (hlen ▸ hi), unsigned, unsigned, map_set, map_set]
  rw [unsigned, unsigned] at h
  rw [h, map_some, map_some, hab]

/-- At a block's end, Pi's snapshot of it is what the steps made of it, but for its text and signatures. -/
def KeepsBlock (content : Content) (step : AssistantStreamEvent) (message : AgentMessage) : Prop :=
  match step with
  | .textEnd i _ => ∀ b ∈ blockAt content i, ∀ b' ∈ blockAt message.content i,
      unsignedBlock { b' with text := none } = unsignedBlock { b with text := none }
  | .thinkingEnd i _ => ∀ b ∈ blockAt content i, ∀ b' ∈ blockAt message.content i,
      unsignedBlock { b' with thinking := none } = unsignedBlock { b with thinking := none }
  | _ => True

theorem same_block (h : unsigned c = unsigned d) (ha : blockAt c i = some a) :
    ∃ a', blockAt d i = some a' ∧ unsignedBlock a' = unsignedBlock a := by
  have hi : (blockAt c i).map unsignedBlock = (blockAt d i).map unsignedBlock := by
    rw [← unsigned_blockAt, ← unsigned_blockAt, h]
  rw [ha, map_some] at hi
  exact map_eq_some_iff.mp hi.symm

theorem unsigned_grown (h : unsigned c = unsigned d) {a' : Block} (ha : blockAt c i = some a)
    (hs : unsignedBlock a' = unsignedBlock a) (f : Block → Block)
    (hf : ∀ x, unsignedBlock (f x) = unsignedBlock (f (unsignedBlock x))) :
    unsigned (c.set i (some (f a))) = unsigned (setBlock d i (f a')) :=
  unsigned_set h (blockAt_lt ha) (by rw [hf a, hf a', hs])

/-- **The browser's step is the server's**, where it fits what the browser holds. -/
theorem step_agrees (h : unsigned c = unsigned d) (hstep : isBlockStart step = false)
    (hkeeps : KeepsBlock d step message) (hd : Streams.applyStreamStep d step message = some d')
    (hb : Chat.applyStreamStep (blockAt c step.contentIndex) step = some b) :
    unsigned (c.set step.contentIndex (some b)) = unsigned d' := by
  cases ha : blockAt c step.contentIndex with
  | none =>
    rw [ha] at hb
    cases step <;> cases hb
  | some a =>
    obtain ⟨a', ha', hs⟩ := same_block h ha
    have hi := blockAt_lt ha
    rw [ha] at hb
    cases step with
    | textStart _ | thinkingStart _ | toolcallStart _ => cases hstep
    | textDelta i delta =>
      simp only [AssistantStreamEvent.contentIndex] at ha ha'
      simp only [Streams.applyStreamStep, ha', map_some, some_inj] at hd
      simp only [Chat.applyStreamStep, ite_none_right_eq_some, some_inj] at hb
      obtain ⟨-, rfl⟩ := hb
      subst hd
      exact unsigned_grown h ha hs (fun x => { x with text := some (shown x.text ++ delta) }) (fun _ => rfl)
    | thinkingDelta i delta =>
      simp only [AssistantStreamEvent.contentIndex] at ha ha'
      simp only [Streams.applyStreamStep, ha', map_some, some_inj] at hd
      simp only [Chat.applyStreamStep, ite_none_right_eq_some, some_inj] at hb
      obtain ⟨-, rfl⟩ := hb
      subst hd
      exact unsigned_grown h ha hs (fun x => { x with thinking := some (shown x.thinking ++ delta) }) (fun _ => rfl)
    | toolcallDelta i delta =>
      simp only [AssistantStreamEvent.contentIndex] at ha ha'
      simp only [Streams.applyStreamStep, ha', map_some, some_inj] at hd
      simp only [Chat.applyStreamStep, ite_none_right_eq_some, some_inj] at hb
      obtain ⟨-, rfl⟩ := hb
      subst hd
      exact unsigned_grown h ha hs (fun x => { x with partialJson := some (x.partialJson.getD "" ++ delta) }) (fun _ => rfl)
    | textEnd i text =>
      simp only [AssistantStreamEvent.contentIndex] at ha' hi
      obtain ⟨b', hb', rfl⟩ := map_eq_some_iff.mp hd
      simp only [Chat.applyStreamStep, ite_none_right_eq_some, some_inj] at hb
      obtain ⟨-, rfl⟩ := hb
      refine unsigned_set h hi ?_
      have hk := hkeeps a' ha' b' hb'
      have hs' := congrArg (fun x : Block => { x with text := none }) hs
      exact congrArg (fun x : Block => { x with text := some text }) (hs'.symm.trans hk.symm)
    | thinkingEnd i thinking =>
      simp only [AssistantStreamEvent.contentIndex] at ha' hi
      obtain ⟨b', hb', rfl⟩ := map_eq_some_iff.mp hd
      simp only [Chat.applyStreamStep, ite_none_right_eq_some, some_inj] at hb
      obtain ⟨-, rfl⟩ := hb
      refine unsigned_set h hi ?_
      have hk := hkeeps a' ha' b' hb'
      have hs' := congrArg (fun x : Block => { x with thinking := none }) hs
      exact congrArg (fun x : Block => { x with thinking := some thinking }) (hs'.symm.trans hk.symm)
    | toolcallEnd i toolCall =>
      simp only [AssistantStreamEvent.contentIndex] at hi
      cases hd
      simp only [Chat.applyStreamStep, ite_none_right_eq_some, some_inj] at hb
      obtain ⟨-, rfl⟩ := hb
      exact unsigned_set h hi rfl

end

/-! ## The overlays, one to a stream -/

section

variable {overlays : List StreamingAssistant} {streamId : StreamId}

abbrev streamIds (overlays : List StreamingAssistant) : List StreamId := overlays.map (·.streamId)

theorem applyDelta_streamId (o : StreamingAssistant) (step : AssistantStreamEvent) :
    (o.applyDelta step).streamId = o.streamId := by
  unfold StreamingAssistant.applyDelta
  split
  · rfl
  · split <;> rfl

theorem streamIds_delta (overlays : List StreamingAssistant) (streamId : StreamId) (step : AssistantStreamEvent) :
    streamIds (applyAssistantDelta overlays streamId step) = streamIds overlays := by
  induction overlays with
  | nil => rfl
  | cons o rest ih =>
    rw [applyAssistantDelta]
    split
    · simp [streamIds, applyDelta_streamId]
    · simp only [streamIds, map_cons] at ih ⊢
      rw [ih]

theorem mem_delta {step : AssistantStreamEvent} (hnd : (streamIds overlays).Nodup) {o : StreamingAssistant}
    (h : o ∈ applyAssistantDelta overlays streamId step) :
    o ∈ overlays ∧ o.streamId ≠ streamId ∨
      o.streamId = streamId ∧ ∃ current ∈ overlays, current.streamId = streamId ∧ o = current.applyDelta step := by
  induction overlays with
  | nil => cases h
  | cons current rest ih =>
    simp only [streamIds, map_cons, nodup_cons] at hnd
    rw [applyAssistantDelta] at h
    split at h
    · next hid =>
      rcases mem_cons.mp h with rfl | ho
      · exact .inr ⟨(applyDelta_streamId ..).trans hid, current, mem_cons_self .., hid, rfl⟩
      -- The stream's overlay is the first, and no other is of its stream.
      · exact .inl ⟨mem_cons_of_mem _ ho, fun heq => hnd.1 (hid ▸ heq ▸ mem_map_of_mem ho)⟩
    · next hid =>
      rcases mem_cons.mp h with rfl | ho
      · exact .inl ⟨mem_cons_self .., hid⟩
      rcases ih hnd.2 ho with ⟨hmem, hne⟩ | ⟨heq, c, hc, hrest⟩
      · exact .inl ⟨mem_cons_of_mem _ hmem, hne⟩
      · exact .inr ⟨heq, c, mem_cons_of_mem _ hc, hrest⟩

theorem mem_snapshot {entryId : Option EntryId} (hnd : (streamIds overlays).Nodup)
    (hrole : m.role = "assistant") {o : StreamingAssistant}
    (h : o ∈ upsertAssistantSnapshot overlays streamId m entryId) :
    o ∈ overlays ∧ o.streamId ≠ streamId ∨ o.streamId = streamId ∧ o.message = m ∧ o.stale = false := by
  induction overlays with
  | nil =>
    rw [upsertAssistantSnapshot, if_neg (not_not.mpr hrole)] at h
    obtain rfl := mem_singleton.mp h
    exact .inr ⟨rfl, rfl, rfl⟩
  | cons current rest ih =>
    simp only [streamIds, map_cons, nodup_cons] at hnd
    rw [upsertAssistantSnapshot, if_neg (not_not.mpr hrole)] at h
    split at h
    · next hid =>
      rcases mem_cons.mp h with rfl | ho
      · exact .inr ⟨hid, rfl, rfl⟩
      · exact .inl ⟨mem_cons_of_mem _ ho, fun heq => hnd.1 (hid ▸ heq ▸ mem_map_of_mem ho)⟩
    · next hid =>
      rcases mem_cons.mp h with rfl | ho
      · exact .inl ⟨mem_cons_self .., hid⟩
      rcases ih hnd.2 ho with ⟨hmem, hne⟩ | hnew
      · exact .inl ⟨mem_cons_of_mem _ hmem, hne⟩
      · exact .inr hnew

theorem snapshot_other (entryId : Option EntryId) (hrole : m.role ≠ "assistant") :
    upsertAssistantSnapshot overlays streamId m entryId = overlays := by
  cases overlays <;> rw [upsertAssistantSnapshot, if_pos hrole]

theorem streamId_snapshot {entryId : Option EntryId} {other : StreamId}
    (h : other ∈ streamIds (upsertAssistantSnapshot overlays streamId m entryId)) :
    other ∈ streamIds overlays ∨ other = streamId := by
  by_cases hrole : m.role = "assistant"
  · induction overlays with
    | nil =>
      rw [upsertAssistantSnapshot, if_neg (not_not.mpr hrole)] at h
      exact .inr (mem_singleton.mp h)
    | cons current rest ih =>
      rw [upsertAssistantSnapshot, if_neg (not_not.mpr hrole)] at h
      split at h
      · exact .inl h
      rcases mem_cons.mp h with rfl | hid
      · exact .inl (mem_cons_self ..)
      · exact (ih hid).imp (mem_cons_of_mem _) id
  · rw [snapshot_other entryId hrole] at h
    exact .inl h

theorem nodup_snapshot (m : AgentMessage) (entryId : Option EntryId) (hnd : (streamIds overlays).Nodup) :
    (streamIds (upsertAssistantSnapshot overlays streamId m entryId)).Nodup := by
  by_cases hrole : m.role = "assistant"
  · induction overlays with
    | nil =>
      rw [upsertAssistantSnapshot, if_neg (not_not.mpr hrole)]
      exact nodup_singleton _
    | cons current rest ih =>
      simp only [streamIds, map_cons, nodup_cons] at hnd
      rw [upsertAssistantSnapshot, if_neg (not_not.mpr hrole)]
      split
      · simpa [streamIds] using hnd
      next hid =>
      simp only [streamIds, map_cons, nodup_cons]
      exact ⟨fun hmem => (streamId_snapshot hmem).elim hnd.1 hid, ih hnd.2⟩
  · rwa [snapshot_other entryId hrole]

end

/-! ## What a browser keeps of an event -/

def written (s : Subscription) : ChatEvent ConversationEntry → Option (StreamId × Content)
  | .messageStart m streamId | .messageEnd m streamId _ =>
    if m.role = "assistant" then some (streamId, m.content) else none
  | .messageUpdate _ streamId _ => some (streamId, (s.stream streamId).content)
  | _ => none

def hear (heard : StreamId → Option Content) (s : Subscription) (sent : ChatEvent ConversationEntry) :
    StreamId → Option Content :=
  match written s sent with
  | some (streamId, content) => Function.update heard streamId (some content)
  | none => heard

def Exact (heard : StreamId → Option Content) (overlays : List StreamingAssistant) : Prop :=
  ∀ o ∈ overlays, o.stale = false →
    ∃ content, heard o.streamId = some content ∧ unsigned o.message.content = unsigned content

def Mirrors (s : Subscription) (overlays : List StreamingAssistant) : Prop :=
  ∀ o ∈ overlays, o.stale = false → ∀ stream, s.messageStreams o.streamId = some stream →
    stream.keyframeAt.isSome → unsigned o.message.content = unsigned stream.content

def PiKeeps (s : Subscription) : HarnessEvent ConversationEntry → Prop
  | .messageUpdate runId message step =>
    message.role = "assistant" ∧ KeepsBlock (s.stream (s.streamOf runId false)).content step message
  | _ => True

section

variable {heard : StreamId → Option Content} {s s' : Subscription} {overlays overlays' : List StreamingAssistant}
  {intervalMs now : Nat} {event : HarnessEvent ConversationEntry} {sent : ChatEvent ConversationEntry}

theorem Exact.sublist (h : Exact heard overlays) (hsub : overlays'.Sublist overlays) : Exact heard overlays' :=
  fun o ho => h o (hsub.subset ho)

theorem Mirrors.sublist (h : Mirrors s overlays) (hsub : overlays'.Sublist overlays) : Mirrors s overlays' :=
  fun o ho => h o (hsub.subset ho)

def Follows (overlays overlays' : List StreamingAssistant) (streamId : StreamId) (content : Content) : Prop :=
  ∀ o ∈ overlays', o ∈ overlays ∧ o.streamId ≠ streamId ∨
    o.streamId = streamId ∧ (o.stale = false → unsigned o.message.content = unsigned content)

theorem Follows.exact (h : Follows overlays overlays' streamId content) (he : Exact heard overlays) :
    Exact (Function.update heard streamId (some content)) overlays' := by
  intro o ho hfresh
  rcases h o ho with ⟨hmem, hne⟩ | ⟨hid, hsame⟩
  · rw [update_of_ne hne]
    exact he o hmem hfresh
  · rw [hid, update_self]
    exact ⟨content, rfl, hsame hfresh⟩

theorem Follows.mirrors {stream : Option MessageStream}
    (h : Follows overlays overlays' streamId content) (hm : Mirrors s overlays)
    (hs : s'.messageStreams = Function.update s.messageStreams streamId stream)
    (hstream : ∀ x, stream = some x → x.keyframeAt.isSome → x.content = content) : Mirrors s' overlays' := by
  intro o ho hfresh x hx hkey
  rw [hs] at hx
  rcases h o ho with ⟨hmem, hne⟩ | ⟨hid, hsame⟩
  · rw [update_of_ne hne] at hx
    exact hm o hmem hfresh x hx hkey
  rw [hid, update_self] at hx
  rw [hstream x hx hkey]
  exact hsame hfresh

theorem Mirrors.reset {stream : Option MessageStream} (hm : Mirrors s overlays)
    (hs : s'.messageStreams = Function.update s.messageStreams streamId stream)
    (hstream : ∀ x, stream = some x → x.keyframeAt = none) : Mirrors s' overlays := by
  intro o ho hfresh x hx hkey
  rw [hs] at hx
  by_cases hid : o.streamId = streamId
  · rw [hid, update_self] at hx
    rw [hstream x hx] at hkey
    cases hkey
  · rw [update_of_ne hid] at hx
    exact hm o ho hfresh x hx hkey

theorem opened_messageStreams (s : Subscription) (runId : Option String) (starts : Bool) :
    (s.opened runId starts).messageStreams = s.messageStreams := by
  unfold Subscription.opened
  split <;> rfl

/-- What is not sent on leaves every stream as it was, but for one that is new. -/
theorem Mirrors.unsent (hm : Mirrors s overlays) (hemit : s.emit intervalMs now event = (s', none)) :
    Mirrors s' overlays := by
  cases event with
  | messageStart _ _ | messageEnd _ _ _ => simp only [Subscription.emit, Prod.mk.injEq, reduceCtorEq, and_false] at hemit
  | messageUpdate runId message step =>
    simp only [Subscription.emit] at hemit
    split at hemit
    · cases (Prod.mk.inj hemit).2
    obtain rfl := (Prod.mk.inj hemit).1
    have hs := congrArg (Function.update · (s.streamOf runId false) (some (s.stream (s.streamOf runId false))))
      (opened_messageStreams s runId false)
    cases hx : s.messageStreams (s.streamOf runId false) with
    | none => exact hm.reset hs fun x hx' => by rw [← some_inj.mp hx', Subscription.stream, hx]; rfl
    | some stream =>
      have hsame : s.stream (s.streamOf runId false) = stream := by rw [Subscription.stream, hx]; rfl
      intro o ho hfresh x hstream
      refine hm o ho hfresh x ?_
      rwa [show (Subscription.setStream _ _ _).messageStreams = s.messageStreams from
        hs.trans (by rw [hsame, ← hx, update_eq_self])] at hstream
  | other event =>
    obtain rfl := (Prod.mk.inj hemit).1
    exact hm

theorem follows_snapshot (streamId : StreamId) (entryId : Option EntryId)
    (hnd : (streamIds overlays).Nodup) (hrole : m.role = "assistant") :
    Follows overlays (upsertAssistantSnapshot overlays streamId m entryId) streamId m.content := by
  intro o ho
  rcases mem_snapshot hnd hrole ho with h | ⟨hid, hm, -⟩
  · exact .inl h
  · exact .inr ⟨hid, fun _ => by rw [hm]⟩

theorem follows_delta {stream : MessageStream} {step : AssistantStreamEvent}
    {message : AgentMessage} (hnd : (streamIds overlays).Nodup) (hm : Mirrors s overlays)
    (hstream : s.messageStreams streamId = some stream) (hkey : stream.keyframeAt.isSome)
    (hstep : isBlockStart step = false) (hkeeps : KeepsBlock stream.content step message)
    (hd : Streams.applyStreamStep stream.content step message = some content) :
    Follows overlays (applyAssistantDelta overlays streamId step) streamId content := by
  intro o ho
  rcases mem_delta hnd ho with h | ⟨hid, current, hc, hcid, rfl⟩
  · exact .inl h
  refine .inr ⟨hid, fun hfresh => ?_⟩
  unfold StreamingAssistant.applyDelta at hfresh ⊢
  split at hfresh
  · next hstale => rw [hstale] at hfresh; cases hfresh
  next hstale =>
  have hsame := hm current hc (Bool.eq_false_iff.mpr hstale) stream (hcid ▸ hstream) hkey
  split at hfresh
  · next b hb =>
    rw [if_neg hstale]
    exact step_agrees hsame hstep hkeeps hd hb
  · cases hfresh

theorem hear_update (s : Subscription) (stream : MessageStream) (m : Option AgentMessage) (streamId : StreamId)
    (step : AssistantStreamEvent) :
    hear heard (s.setStream streamId (some stream)) (.messageUpdate m streamId step) =
      Function.update heard streamId (some stream.content) := by
  simp [hear, written, Subscription.stream, Subscription.setStream]

theorem stream_of_no_keyframe (h : (s.stream streamId).keyframeAt.all (fun at' => at' + intervalMs ≤ now) = false) :
    ∃ stream, s.messageStreams streamId = some stream ∧ s.stream streamId = stream ∧ stream.keyframeAt.isSome := by
  unfold Subscription.stream at h ⊢
  cases hx : s.messageStreams streamId with
  | none =>
    rw [hx] at h
    cases h
  | some stream =>
    rw [hx] at h
    cases hat : stream.keyframeAt with
    | none =>
      rw [getD_some, hat] at h
      cases h
    | some t => exact ⟨stream, rfl, rfl, hat ▸ rfl⟩

theorem written_other (s : Subscription) (h : ofMessage sent = false) : written s sent = none := by
  cases sent <;> first | rfl | cases h

theorem other_overlays (state : ChatState) (h : ofMessage sent = false) :
    (applyChatEvent state sent).streamingAssistants.Sublist state.streamingAssistants := by
  cases sent with
  | messageStart _ _ | messageUpdate _ _ _ | messageEnd _ _ _ => cases h
  | toolExecutionStart _ | toolExecutionUpdate _ _ =>
    rw [applyChatEvent]
    split <;> exact List.Sublist.refl _
  | agentEnd _ _ => exact nil_sublist _
  | agentStart | toolExecutionEnd _ _ _ | entryAdded _ | compactionStart | compactionEnd _
  | autoRetryStart _ _ _ | autoRetryEnd _ _ => exact List.Sublist.refl _

/-- **An event received where nothing was missed** leaves the overlays right: one to a stream, as heard, and
as the server's streams are. -/
theorem applied (state : ChatState) (hemit : s.emit intervalMs now event = (s', some sent))
    (hpi : PiKeeps s event) (hnd : (streamIds state.streamingAssistants).Nodup)
    (he : Exact heard state.streamingAssistants) (hm : Mirrors s state.streamingAssistants) :
    (streamIds (applyChatEvent state sent).streamingAssistants).Nodup ∧
      Exact (hear heard s' sent) (applyChatEvent state sent).streamingAssistants ∧
      Mirrors s' (applyChatEvent state sent).streamingAssistants := by
  cases event with
  | messageStart runId message =>
    simp only [Subscription.emit, Prod.mk.injEq, some_inj] at hemit
    obtain ⟨rfl, rfl⟩ := hemit
    have hs := congrArg (Function.update · (s.streamOf runId true) (some ⟨none, []⟩))
      (opened_messageStreams s runId true)
    refine ⟨nodup_snapshot message none hnd, ?_⟩
    simp only [applyChatEvent, hear, written]
    by_cases hrole : message.role = "assistant"
    · have hf := follows_snapshot (s.streamOf runId true) none hnd hrole
      rw [if_pos hrole]
      exact ⟨hf.exact he, hf.mirrors hm hs fun x hx hkey => by cases hx; cases hkey⟩
    · rw [if_neg hrole, snapshot_other none hrole]
      exact ⟨he, hm.reset hs fun x hx => by cases hx; rfl⟩
  | messageEnd runId message entryId =>
    simp only [Subscription.emit, Prod.mk.injEq, some_inj] at hemit
    obtain ⟨rfl, rfl⟩ := hemit
    have hs := congrArg (Function.update · (s.streamOf runId false) none) (opened_messageStreams s runId false)
    refine ⟨nodup_snapshot message entryId hnd, ?_⟩
    simp only [applyChatEvent, hear, written]
    by_cases hrole : message.role = "assistant"
    · have hf := follows_snapshot (s.streamOf runId false) entryId hnd hrole
      rw [if_pos hrole]
      exact ⟨hf.exact he, hf.mirrors hm hs nofun⟩
    · rw [if_neg hrole, snapshot_other entryId hrole]
      exact ⟨he, hm.reset hs nofun⟩
  | messageUpdate runId message step =>
    obtain ⟨hrole, hkeeps⟩ := hpi
    simp only [Subscription.emit] at hemit
    cases hd : Streams.applyStreamStep (s.stream (s.streamOf runId false)).content step message with
    | none =>
      rw [hd] at hemit
      simp only [Prod.mk.injEq, reduceCtorEq, and_false] at hemit
    | some content =>
      rw [hd] at hemit
      simp only [Prod.mk.injEq, some_inj] at hemit
      obtain ⟨rfl, rfl⟩ := hemit
      have hs := congrArg (Function.update · (s.streamOf runId false)
        (some ((s.stream (s.streamOf runId false)).after intervalMs now step content)))
        (opened_messageStreams s runId false)
      have hcontent : ∀ x, some ((s.stream (s.streamOf runId false)).after intervalMs now step content) = some x →
          x.keyframeAt.isSome → x.content = content := fun x hx _ => by cases hx; rfl
      rw [messageUpdate, hear_update]
      cases hkey : (s.stream (s.streamOf runId false)).keyframe intervalMs now step with
      | true =>
        rw [if_pos rfl, applyChatEvent]
        have hrole' : { message with content := content }.role = "assistant" := hrole
        have hf := follows_snapshot (s.streamOf runId false) none hnd hrole'
        exact ⟨nodup_snapshot _ none hnd, hf.exact he, hf.mirrors hm hs hcontent⟩
      | false =>
        rw [if_neg Bool.false_ne_true, applyChatEvent]
        obtain ⟨hat, hstep⟩ := Bool.or_eq_false_iff.mp hkey
        obtain ⟨stream, hsome, hstream, hat⟩ := stream_of_no_keyframe hat
        rw [hstream] at hd hkeeps
        have hf := follows_delta hnd hm hsome hat hstep hkeeps hd
        refine ⟨?_, hf.exact he, hf.mirrors hm hs hcontent⟩
        rw [streamIds_delta]
        exact hnd
  | other event =>
    simp only [Subscription.emit, Prod.mk.injEq] at hemit
    obtain ⟨rfl, hsent⟩ := hemit
    cases hof : ofMessage event with
    | true => rw [hof] at hsent; cases hsent
    | false =>
      rw [hof] at hsent
      cases hsent
      have hsub := other_overlays state hof
      rw [hear, written_other s hof]
      exact ⟨hnd.sublist (hsub.map _), he.sublist hsub, hm.sublist hsub⟩

end

end Reins.StreamingOverlays
