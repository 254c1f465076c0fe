import Reins.Frontend.StreamingOverlays

/-!
# Lost events

The server numbers the events of a session for the life of its process, over all runtimes the session has
in it. A browser receives some of them in order, and what it does not receive is lost to it. It knows of a
loss by the numbers: whatever it shows of a message is stale from a jump on until the message comes whole.
The number after the last one is no jump, also where it is another process that counted to it.
-/

namespace Reins.LostEvents

open Chat Conversations Streams StreamingOverlays
open Store (ConversationEntry)

section

variable (γ : Type)

structure State where
  /-- The number of the session's last event in this process (`eventSeqs`). -/
  seq : Nat
  /-- What the session's runtime keeps, or the next one will. -/
  subscription : Subscription
  conversation : Conversation γ
  /-- What the server's message of a stream held after the last event of it that was received. -/
  heard : StreamId → Option Content
  /-- The server restarted since an event was received. -/
  restarted : Bool
  missed : Bool

def State.init : State γ := ⟨0, .init, .pruned γ, fun _ => none, false, false⟩

inductive Event
  /-- Pi's event, when it comes, and whether the browser receives what is sent on of it. -/
  | harness (event : HarnessEvent ConversationEntry) (now : Nat) (received : Bool)
  | runtimeReopened
  | serverRestarted
  /-- The rest is the browser's: a page of entries, the end of a run, the session out of sight, and any
  change that is not about the overlays. -/
  | merged (page : MessageRecordPage γ) (earlier restoreError : Bool)
  | runEnded
  | pruned
  | patched (patch : ConversationUpdate γ) (keeps : patch.streamingAssistants = none)

end

section

variable (locale : Collation) (intervalMs : Nat) {γ : Type}

def State.overlays (s : State γ) : List StreamingAssistant := s.conversation.state.streamingAssistants

def State.receive (s : State γ) (sent : ChatEvent ConversationEntry) : State γ :=
  { s with
    conversation := s.conversation.applyEvent locale sent s.seq
    heard := hear s.heard s.subscription sent
    restarted := false
    missed := false }

def step (s : State γ) : Event γ → State γ
  | .harness event now received =>
    match s.subscription.emit intervalMs now event with
    | (subscription, none) => { s with subscription := subscription }
    | (subscription, some sent) =>
      let s := { s with seq := s.seq + 1, subscription := subscription }
      if received then s.receive locale sent else { s with missed := true }
  | .runtimeReopened => { s with subscription := .init }
  | .serverRestarted => { s with seq := 0, subscription := .init, restarted := true }
  | .merged page earlier restoreError =>
    { s with
      conversation :=
        { s.conversation with state := s.conversation.state.mergeMessages locale page earlier restoreError } }
  | .runEnded => { s with conversation := { s.conversation with state := s.conversation.state.endRun locale } }
  | .pruned => { s with conversation := .pruned γ }
  | .patched patch _ =>
    { s with conversation := { s.conversation with state := s.conversation.state.update locale patch } }

/-! ## What is to hold -/

def PiKeeps (s : State γ) : Event γ → Prop
  | .harness event _ _ => StreamingOverlays.PiKeeps s.subscription event
  | _ => True

def Renewed (s : State γ) (e : Event γ) : Prop :=
  match e with
  | .harness event now true =>
    ∀ sent streamId, (s.subscription.emit intervalMs now event).2 = some sent → sent.keyframeOf = some streamId →
      ∀ o ∈ (step locale intervalMs s e).overlays, o.streamId = streamId → o.stale = false
  | _ => True

/-- What every step is to leave: overlays that show the server's messages, or are stale, and not stale
after a keyframe. -/
def Mirrored (s : State γ) (e : Event γ) : Prop :=
  Exact (step locale intervalMs s e).heard (step locale intervalMs s e).overlays ∧ Renewed locale intervalMs s e

/-- The restart of a server shows in the first number received after it, or nothing is shown that could be
wrong. -/
def RestartSeen (s : State γ) : Event γ → Prop
  | .harness event now true =>
    s.restarted = true → s.conversation.lastSeq = some s.seq →
      (s.subscription.emit intervalMs now event).2.isSome → ∀ o ∈ s.overlays, o.stale = true
  | _ => True

instance (s : State γ) (e : Event γ) : Decidable (RestartSeen intervalMs s e) :=
  match e with
  | .harness _ _ true => inferInstanceAs (Decidable (_ → _ → _ → ∀ o ∈ s.overlays, o.stale = true))
  | .harness _ _ false | .runtimeReopened | .serverRestarted | .merged _ _ _ | .runEnded | .pruned
  | .patched _ _ => .isTrue trivial

/-! ## The invariant -/

structure Sound (s : State γ) : Prop where
  nodup : (streamIds s.overlays).Nodup
  exact : Exact s.heard s.overlays
  /-- Where nothing was missed the overlays follow the server's streams. -/
  current : s.missed = false → Mirrors s.subscription s.overlays
  /-- The last number received is behind the process's own, and further behind where an event was lost. -/
  numbered : s.restarted = false → ∀ last, s.conversation.lastSeq = some last →
    last ≤ s.seq ∧ (s.missed = true → last < s.seq)
  fresh : s.conversation.lastSeq = none → s.overlays = []

theorem sound_init : Sound (State.init γ) where
  nodup := List.nodup_nil
  exact := nofun
  current _ := nofun
  numbered _ := nofun
  fresh _ := rfl

section

variable {locale intervalMs} {s : State γ}

theorem update_overlays (locale : Collation) (state : ConversationState γ) (patch : ConversationUpdate γ) :
    (state.update locale patch).streamingAssistants.Sublist
      (patch.streamingAssistants.getD state.streamingAssistants) := by
  rw [ConversationState.update]
  dsimp only
  split
  · exact List.filter_sublist
  · exact List.Sublist.refl _

theorem Sound.patched (h : Sound s) {state : ConversationState γ}
    (hsub : state.streamingAssistants.Sublist s.overlays) :
    Sound { s with conversation := { s.conversation with state := state } } := { h with
  nodup := h.nodup.sublist (hsub.map _)
  exact := h.exact.sublist hsub
  current hm := (h.current hm).sublist hsub
  fresh hlast := List.sublist_nil.mp (h.fresh hlast ▸ hsub) }

theorem Sound.reopened (h : Sound s) : Sound { s with subscription := .init } :=
  { h with current := fun _ _ _ _ _ hx => by cases hx }

theorem Sound.restarted (h : Sound s) : Sound { s with seq := 0, subscription := .init, restarted := true } :=
  { h with
    current := nofun
    numbered := nofun }

theorem sound_pruned (s : State γ) : Sound { s with conversation := .pruned γ } where
  nodup := List.nodup_nil
  exact := nofun
  current _ := nofun
  numbered _ := nofun
  fresh _ := rfl

/-- What a runtime says nothing of leaves its streams as they were. -/
theorem Sound.unsent (h : Sound s) {event : HarnessEvent ConversationEntry} {now : Nat}
    {subscription : Subscription} (hemit : s.subscription.emit intervalMs now event = (subscription, none)) :
    Sound { s with subscription := subscription } :=
  { h with current := fun hm => (h.current hm).unsent hemit }

theorem Sound.lost (h : Sound s) (subscription : Subscription) :
    Sound { s with seq := s.seq + 1, subscription := subscription, missed := true } :=
  { h with
    current := nofun
    numbered := fun hr last hlast =>
      have hle := (h.numbered hr last hlast).1
      ⟨Nat.le_succ_of_le hle, fun _ => Nat.lt_succ_of_le hle⟩ }

/-! ## An event that is received -/

theorem apply_overlays (state : ConversationState γ) (sent : ChatEvent ConversationEntry) :
    (state.apply locale sent).streamingAssistants.Sublist
      (applyChatEvent state.toChatState sent).streamingAssistants := by
  cases sent with
  | messageUpdate message _ _ => cases message <;> exact update_overlays ..
  | _ => exact update_overlays ..

theorem missedEvents_stale (state : ConversationState γ) :
    ∀ o ∈ (state.missedEvents locale).streamingAssistants, o.stale = true := by
  intro o ho
  obtain ⟨o', -, rfl⟩ := List.mem_map.mp ((update_overlays ..).subset ho)
  rfl

theorem missedEvents_streamIds (state : ConversationState γ) :
    (streamIds (state.missedEvents locale).streamingAssistants).Sublist (streamIds state.streamingAssistants) := by
  have h := (update_overlays locale state
    { noUpdate γ with streamingAssistants := some (markStreamsStale state.streamingAssistants) }).map
    StreamingAssistant.streamId
  rwa [Option.getD_some, markStreamsStale, List.map_map] at h

def State.noticed (locale : Collation) (s : State γ) : ConversationState γ :=
  if s.conversation.lastSeq.all fun last => s.seq + 1 = last + 1 then s.conversation.state
  else s.conversation.state.missedEvents locale

/-- **A loss is noticed**: what an event applies to is one to a stream and shows what was heard of it, and what
the server's streams hold. -/
theorem Sound.noticed (locale : Collation) (h : Sound s)
    (hseen : s.restarted = true → s.conversation.lastSeq = some s.seq → ∀ o ∈ s.overlays, o.stale = true) :
    (streamIds (s.noticed locale).streamingAssistants).Nodup ∧ Exact s.heard (s.noticed locale).streamingAssistants ∧
      Mirrors s.subscription (s.noticed locale).streamingAssistants := by
  unfold State.noticed
  split
  · next hnumber =>
    refine ⟨h.nodup, h.exact, ?_⟩
    cases hlast : s.conversation.lastSeq with
    | none =>
      intro o ho
      rw [show s.conversation.state.streamingAssistants = [] from h.fresh hlast] at ho
      cases ho
    | some last =>
      rw [hlast] at hnumber
      obtain rfl : s.seq = last := Nat.succ.inj (of_decide_eq_true hnumber)
      cases hr : s.restarted with
      | true =>
        intro o ho hfresh
        rw [hseen hr hlast o ho] at hfresh
        cases hfresh
      | false =>
        -- An event that was lost would have taken the number further.
        refine h.current (Bool.eq_false_iff.mpr fun hm => ?_)
        exact Nat.lt_irrefl _ ((h.numbered hr _ hlast).2 hm)
  · have hstale : ∀ o ∈ (s.conversation.state.missedEvents locale).streamingAssistants, o.stale ≠ false :=
      fun o ho hfresh => by rw [missedEvents_stale _ o ho] at hfresh; cases hfresh
    exact ⟨h.nodup.sublist (missedEvents_streamIds _), fun o ho hfresh => absurd hfresh (hstale o ho),
      fun o ho hfresh => absurd hfresh (hstale o ho)⟩

section

variable {event : HarnessEvent ConversationEntry} {now : Nat} {subscription : Subscription}
  {sent : ChatEvent ConversationEntry}

theorem receive_overlays (locale : Collation) (s : State γ) (subscription : Subscription) (sent : ChatEvent ConversationEntry) :
    ({ s with seq := s.seq + 1, subscription := subscription } |>.receive locale sent).overlays.Sublist
      (applyChatEvent (s.noticed locale).toChatState sent).streamingAssistants :=
  apply_overlays ..

theorem Sound.received (h : Sound s) (hemit : s.subscription.emit intervalMs now event = (subscription, some sent))
    (hpi : StreamingOverlays.PiKeeps s.subscription event)
    (hseen : s.restarted = true → s.conversation.lastSeq = some s.seq → ∀ o ∈ s.overlays, o.stale = true) :
    Sound ({ s with seq := s.seq + 1, subscription := subscription } |>.receive locale sent) := by
  obtain ⟨hnd, he, hm⟩ := h.noticed locale hseen
  obtain ⟨hnd', he', hm'⟩ := applied (s.noticed locale).toChatState hemit hpi hnd he hm
  have hsub := receive_overlays locale s subscription sent
  exact
    { nodup := hnd'.sublist (hsub.map _)
      exact := he'.sublist hsub
      current := fun _ => hm'.sublist hsub
      numbered := fun _ last hlast => ⟨(Option.some_inj.mp hlast).ge, nofun⟩
      fresh := nofun }

theorem keyframe_fresh {state : ChatState} {streamId : StreamId}
    (hnd : (streamIds state.streamingAssistants).Nodup) (hkey : sent.keyframeOf = some streamId) :
    ∀ o ∈ (applyChatEvent state sent).streamingAssistants, o.streamId = streamId → o.stale = false := by
  -- Either the overlay is the snapshot's, or of another stream.
  have key : ∀ (m : AgentMessage) (entryId : Option EntryId), m.role = "assistant" →
      ∀ o ∈ upsertAssistantSnapshot state.streamingAssistants streamId m entryId,
        o.streamId = streamId → o.stale = false := by
    intro m entryId hrole o ho hid
    rcases mem_snapshot hnd hrole ho with ⟨-, hne⟩ | ⟨-, -, hfresh⟩
    · exact absurd hid hne
    · exact hfresh
  cases sent with
  | messageStart m _ | messageEnd m _ _ =>
    obtain ⟨hrole, rfl⟩ := Option.ite_none_right_eq_some.mp hkey |>.imp_right Option.some_inj.mp
    exact key m _ hrole
  | messageUpdate message _ _ =>
    cases message with
    | none => cases hkey
    | some m =>
      obtain ⟨hrole, rfl⟩ := Option.ite_none_right_eq_some.mp hkey |>.imp_right Option.some_inj.mp
      exact key m none hrole
  | _ => cases hkey

end

/-! ## The step and the run -/

theorem sound_step (s : State γ) (e : Event γ) (hok : PiKeeps s e ∧ RestartSeen intervalMs s e) (h : Sound s) :
    Sound (step locale intervalMs s e) := by
  cases e with
  | harness event now received =>
    rw [step]
    cases hemit : s.subscription.emit intervalMs now event with
    | mk subscription sent =>
      cases sent with
      | none => exact h.unsent hemit
      | some sent =>
        cases received with
        | false => exact h.lost subscription
        | true => exact h.received hemit hok.1 fun hr hl => hok.2 hr hl (hemit ▸ rfl)
  | runtimeReopened => exact h.reopened
  | serverRestarted => exact h.restarted
  | merged page earlier restoreError => exact h.patched (update_overlays ..)
  | runEnded => exact h.patched ((update_overlays ..).trans (List.nil_sublist _))
  | pruned => exact sound_pruned s
  | patched patch keeps =>
    refine h.patched ?_
    have hsub := update_overlays locale s.conversation.state patch
    rwa [keeps] at hsub

/-- Whatever is received leaves no overlay stale whose message it carries. -/
theorem renewed_step (s : State γ) (e : Event γ) (hseen : RestartSeen intervalMs s e) (h : Sound s) :
    Renewed locale intervalMs s e := by
  cases e with
  | harness event now received =>
    cases received with
    | false => trivial
    | true =>
      intro sent streamId hsent hkey o ho
      cases hemit : s.subscription.emit intervalMs now event with
      | mk subscription sent' =>
        obtain rfl : sent' = some sent := by rw [← hsent, hemit]
        have hnd := (h.noticed locale fun hr hl => hseen hr hl (hemit ▸ rfl)).1
        rw [step, hemit] at ho
        have ho' := (receive_overlays locale s subscription sent).subset ho
        exact keyframe_fresh hnd hkey o ho'
  | _ => trivial

end

/-- **What a browser shows of a message is the server's.** Whatever events Pi has for it, over any runtimes and
server processes, and whichever of them are lost: while every restart of the server shows in the first number
received after it, each overlay that is not stale is what the server's message was after the last event received
of it, and a message that comes whole makes its overlay so. -/
theorem overlays_mirror {es : List (Event γ)} (hpi : Run.Along (step locale intervalMs) PiKeeps (.init γ) es)
    (hseen : Run.Along (step locale intervalMs) (RestartSeen intervalMs) (.init γ) es) :
    Run.Along (step locale intervalMs) (Mirrored locale intervalMs) (.init γ) es :=
  Run.Along.of_invariant Sound (fun s e hok => sound_step s e hok)
    (fun s e hok h => ⟨(sound_step s e hok h).exact, renewed_step s e hok.2 h⟩) sound_init
    (hpi.and hseen)

end

/-! ## A restart that shows in no number -/

def assistantMessage (content : Content) : AgentMessage := ⟨"assistant", content, none, none⟩

def textBlock (text : String) : Block := ⟨.text, some text, none, none, none, none, none, none⟩

/-- A run begins a message; the server restarts and resumes the run, and the restart shows in the first number
that is received. -/
def seenRun : List (Event Nat) :=
  [.harness (.other .agentStart) 0 true, .harness (.messageStart (some "run") (assistantMessage [])) 0 true,
    .harness (.messageUpdate (some "run") (assistantMessage [some (textBlock "")]) (.textStart 0)) 0 true,
    .serverRestarted,
    .harness (.messageStart (some "run") (assistantMessage [])) 0 false,
    .harness (.messageUpdate (some "run") (assistantMessage [some (textBlock "")]) (.textStart 0)) 0 true,
    .harness (.messageUpdate (some "run") (assistantMessage [some (textBlock "a")]) (.textDelta 0 "a")) 1 true]

theorem overlays_mirror_seenRun : Run.Along (step .codePoints 1000) (Mirrored .codePoints 1000) (.init Nat) seenRun :=
  overlays_mirror .codePoints 1000
    ⟨trivial, trivial, ⟨rfl, trivial⟩, trivial, trivial, ⟨rfl, trivial⟩, ⟨rfl, trivial⟩, trivial⟩
    (by decide +kernel)

/-- A run begins a message; the server restarts and resumes the run, which begins the message again. What it
sends until the number the browser has is lost, and the next is received. -/
def resumedRun : List (Event Nat) :=
  [.harness (.other .agentStart) 0 true, .harness (.messageStart (some "run") (assistantMessage [])) 0 true,
    .harness (.messageUpdate (some "run") (assistantMessage [some (textBlock "")]) (.textStart 0)) 0 true,
    .serverRestarted,
    .harness (.messageStart (some "run") (assistantMessage [])) 0 false,
    .harness (.messageUpdate (some "run") (assistantMessage [some (textBlock "")]) (.textStart 0)) 0 false,
    .harness (.messageUpdate (some "run") (assistantMessage [some (textBlock "a")]) (.textDelta 0 "a")) 1 false,
    .harness (.messageUpdate (some "run") (assistantMessage [some (textBlock "ab")]) (.textDelta 0 "b")) 2 true]

def texts (content : Content) : List (Option String) := content.map fun b => b.bind (·.text)

theorem texts_of_unsigned {c d : Content} (h : unsigned c = unsigned d) : texts c = texts d := by
  have key : ∀ x : Content, texts (unsigned x) = texts x := fun x => by
    rw [texts, unsigned, List.map_map]
    exact List.map_congr_left fun b _ => by cases b <;> rfl
  rw [← key c, h, key]

theorem step_lost_over_restart : Run.Along (step .codePoints 1000) PiKeeps (.init Nat) resumedRun ∧
      ¬ Run.Along (step .codePoints 1000) (Mirrored .codePoints 1000) (.init Nat) resumedRun := by
  refine ⟨⟨trivial, trivial, ⟨rfl, trivial⟩, trivial, trivial, ⟨rfl, trivial⟩, ⟨rfl, trivial⟩, ⟨rfl, trivial⟩,
    trivial⟩, fun h => ?_⟩
  have hexact := h.2.2.2.2.2.2.2.1.1
  have hshown : (Run.exec (step .codePoints 1000) (.init Nat) resumedRun).overlays.map
      (fun o => (o.streamId, o.stale, texts o.message.content)) = [("run:1", false, [some "b"])] := by
    decide +kernel
  have hheard : ((Run.exec (step .codePoints 1000) (.init Nat) resumedRun).heard "run:1").map texts =
      some [some "ab"] := by
    decide +kernel
  obtain ⟨o, ho, hfields⟩ := List.map_eq_singleton_iff.mp hshown
  obtain ⟨hid, hfresh, htexts⟩ : o.streamId = "run:1" ∧ o.stale = false ∧ texts o.message.content = [some "b"] := by
    simpa using hfields
  obtain ⟨content, hcontent, hsame⟩ := hexact o (ho ▸ List.mem_singleton_self o) hfresh
  rw [hid] at hcontent
  rw [show (Run.exec (step .codePoints 1000) (.init Nat) resumedRun).heard "run:1" = some content from hcontent,
    Option.map_some, Option.some_inj, ← texts_of_unsigned hsame, htexts] at hheard
  exact absurd hheard (by decide)

end Reins.LostEvents
