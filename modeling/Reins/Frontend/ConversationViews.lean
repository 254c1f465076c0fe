import Mathlib
import Reins.Frontend.ConversationsStore
import Reins.Frontend.Messages
import Reins.Lib.Run

/-!
# The views of conversations (`frontend/src/models/stores/conversations-store.ts`, `get`)

A view is kept for a session with the state it is of, and what it is made of is built anew only where the object it
was built from was replaced. So the state is modelled with its objects: beside each part stands the step that made
it. What `update` leaves stays the same object, and live tool state is put on messages that may have some already.
-/

namespace Reins.ConversationViews

open Chat Conversations Messages Run List
open Store (ConversationEntry)

abbrev SessionId := String

/-- The steps that made the state, its parts, and the live state of each tool call. -/
structure Objects where
  state : Nat
  entries : Nat
  pendingSubmissions : Nat
  streamingAssistants : Nat
  toolExecutions : Nat
  executions : String → Nat

/-- Which objects of a patch are new ones. -/
structure Fresh where
  streamingAssistants : Bool
  toolExecutions : Bool
  execution : Option String

def nothingFresh : Fresh := ⟨false, false, none⟩

structure ConversationView where
  messages : List Message
  streamingMessages : List Message
  hasEarlierMessages : Bool
  isCompacting : Bool
  errorMessage : String

section

-- What a cursor is.
variable (γ : Type)

structure Tagged where
  conversation : ConversationState γ
  made : Objects

structure ViewCache where
  state : Tagged γ
  running : Bool
  view : ConversationView

structure Session where
  /-- `_states`. -/
  conversation : Option (Tagged γ)
  /-- `_eventSeqs`. -/
  lastSeq : Option Nat
  running : Bool
  listeners : Nat
  view : Option (ViewCache γ)
  clock : Nat
  last : Option (ViewCache γ)

def Session.init : Session γ := ⟨none, none, false, 0, none, 0, none⟩

def blank (now : Nat) : Tagged γ := ⟨blankConversationState γ, ⟨now, now, now, now, now, fun _ => now⟩⟩

inductive Event
  /-- The two parts of `applyEvent`: the event's number, where it has one, and the event. -/
  | seq (seq : Nat)
  | event (event : ChatEvent ConversationEntry)
  | mergeMessages (page : MessageRecordPage γ) (earlier restoreError : Bool)
  | addOptimisticUserMessage (content : Content) (clientId : String)
  | rejectSubmission (clientId errorMessage : String)
  | endRun
  | clearCompactingState
  | setError (errorMessage : String)
  | cacheUpdate (running : Bool)
  | subscribe
  | unsubscribe
  | pruneInactive
  | get

end

/-! ## What an event replaces -/

section

variable {Entry : Type}

/-- The event gives the reducer's state another array of overlays. -/
def replacesOverlays (overlays : List StreamingAssistant) : ChatEvent Entry → Bool
  | .messageStart message _ | .messageEnd message _ _ | .messageUpdate (some message) _ _ => message.role = "assistant"
  | .messageUpdate none streamId _ => (overlays.find? (·.streamId = streamId)).any (!·.stale)
  | .agentEnd .. => true
  | _ => false

def setsExecution (executions : List (String × ToolExecution)) : ChatEvent Entry → Option String
  | .toolExecutionStart toolCallId => if (executions.lookup toolCallId).isSome then none else some toolCallId
  | .toolExecutionUpdate toolCallId _ =>
    if (executions.lookup toolCallId).any (·.status = .done) then none else some toolCallId
  | .toolExecutionEnd toolCallId _ _ => some toolCallId
  | _ => none

def endsAgent : ChatEvent Entry → Bool
  | .agentEnd .. => true
  | _ => false

def freshOf (state : ChatState) (event : ChatEvent Entry) : Fresh :=
  { streamingAssistants := replacesOverlays state.streamingAssistants event
    toolExecutions := (setsExecution state.toolExecutions event).isSome || endsAgent event
    execution := setsExecution state.toolExecutions event }

end

section

variable (locale : Collation) {γ : Type}

/-- The live tool state, as objects. -/
def Tagged.executionOf (t : Tagged γ) : ToolExecutionLookup := fun id =>
  (t.conversation.toolExecutions.lookup id).map fun execution => ⟨some (t.made.executions id), execution⟩

/-- `update`, and the objects it leaves and makes. -/
def Tagged.update (now : Nat) (t : Tagged γ) (patch : ConversationUpdate γ) (fresh : Fresh) : Tagged γ :=
  let conversation := t.conversation.update locale patch
  let answered := (patch.entries.getD []).filterMap (·.clientId)
  let overlays := patch.streamingAssistants.getD t.conversation.streamingAssistants
  { conversation
    made :=
      { state := now
        entries := if patch.entries.isSome then now else t.made.entries
        pendingSubmissions :=
          if patch.pendingSubmissions.isSome || t.conversation.pendingSubmissions.any (·.clientId ∈ answered) then now
          else t.made.pendingSubmissions
        streamingAssistants :=
          if fresh.streamingAssistants || conversation.streamingAssistants.length ≠ overlays.length then now
          else t.made.streamingAssistants
        toolExecutions := if fresh.toolExecutions then now else t.made.toolExecutions
        executions := fun id => if fresh.execution = some id then now else t.made.executions id } }

/-! ## Views -/

def sourceOf (entry : ConversationEntry) : MessageSource :=
  { entryId := some entry.id, parentEntryId := entry.parentId
    renderKey := ((entry.clientId.filter (· ≠ "")).map ("submission-" ++ ·)).getD entry.id
    message := .saved entry.message }

def sourceOfSubmission (entry : LiveConversationEntry) : MessageSource :=
  { entryId := none, parentEntryId := none, renderKey := "submission-" ++ entry.clientId
    message := .live entry.message }

def buildTranscript (made : Nat) (state : ConversationState γ) : List Message :=
  buildMessages made (state.entries.map sourceOf ++ state.pendingSubmissions.map sourceOfSubmission)

namespace Session

variable (s : Session γ)

def stateFor : Tagged γ := s.conversation.getD (blank γ s.clock)

def transcript : List Message :=
  match s.view with
  | some cached =>
    if cached.state.made.entries = s.stateFor.made.entries ∧
        cached.state.made.pendingSubmissions = s.stateFor.made.pendingSubmissions then cached.view.messages
    else buildTranscript s.clock s.stateFor.conversation
  | none => buildTranscript s.clock s.stateFor.conversation

def streamingMessages : List Message :=
  match s.view with
  | some cached =>
    if cached.state.made.streamingAssistants = s.stateFor.made.streamingAssistants ∧
        cached.state.made.toolExecutions = s.stateFor.made.toolExecutions then cached.view.streamingMessages
    else buildStreamingMessages s.clock s.stateFor.conversation.streamingAssistants s.stateFor.executionOf
  | none => buildStreamingMessages s.clock s.stateFor.conversation.streamingAssistants s.stateFor.executionOf

def buildView : ConversationView :=
  { messages := applyToolExecutions s.stateFor.executionOf s.running s.clock s.transcript
    streamingMessages := s.streamingMessages
    hasEarlierMessages := s.stateFor.conversation.previousCursor.isSome
    isCompacting := s.stateFor.conversation.isCompacting
    errorMessage := s.stateFor.conversation.errorMessage }

def cached : Option (ViewCache γ) :=
  s.view.filter fun cached => cached.state.made.state = s.stateFor.made.state && cached.running = s.running

/-- The view that `get` returns. -/
def read : ConversationView :=
  match s.cached with
  | some cached => cached.view
  | none => s.buildView

def get : Session γ :=
  { s with
    view :=
      match s.cached, s.conversation with
      | none, some state => some ⟨state, s.running, s.buildView⟩
      | _, _ => s.view
    last := some ⟨s.stateFor, s.running, s.read⟩ }

/-! ## Changes -/

def update (patch : ConversationUpdate γ) (fresh : Fresh) : Session γ :=
  { s with conversation := some (s.stateFor.update locale s.clock patch fresh) }

def missedEvents : Session γ :=
  let overlays := s.stateFor.conversation.streamingAssistants
  if overlays.all (·.stale) then s
  else s.update locale { noUpdate γ with streamingAssistants := some (markStreamsStale overlays) } ⟨true, false, none⟩

def received (seq : Nat) : Session γ :=
  let next : Session γ := { s with lastSeq := some seq }
  if s.lastSeq.all fun last => seq = last + 1 then next else next.missedEvents locale

def applyEvent (event : ChatEvent ConversationEntry) : Session γ :=
  match event with
  | .entryAdded entry => s.update locale { noUpdate γ with entries := some [entry] } nothingFresh
  | event =>
    let state := s.stateFor.conversation.toChatState
    let next := applyChatEvent state event
    let fresh := freshOf state event
    if fresh.streamingAssistants = false ∧ fresh.toolExecutions = false ∧ next.isCompacting = state.isCompacting ∧
        next.errorMessage = state.errorMessage then s
    else
      s.update locale
        { noUpdate γ with
          streamingAssistants := some next.streamingAssistants
          toolExecutions := some next.toolExecutions
          isCompacting := some next.isCompacting
          errorMessage := some next.errorMessage } fresh

def mergeMessages (page : MessageRecordPage γ) (earlier restoreError : Bool) : Session γ :=
  let state := s.stateFor.conversation
  s.update locale
    { noUpdate γ with
      entries := some page.items
      previousCursor :=
        some (if earlier || state.entries.isEmpty then page.previousCursor else state.previousCursor)
      latestCursor := some (if earlier then state.latestCursor else page.endCursor)
      errorMessage := if !earlier && restoreError then page.latestRunError.map (·.getD "") else none } nothingFresh

def addOptimisticUserMessage (content : Content) (clientId : String) : Session γ :=
  match s.stateFor.conversation.addPendingSubmission locale content clientId with
  | none => s
  | some (entry, _) =>
    s.update locale
      { noUpdate γ with
        pendingSubmissions := some (s.stateFor.conversation.pendingSubmissions ++ [entry]) } nothingFresh

def setError (errorMessage : String) : Session γ :=
  s.update locale { noUpdate γ with errorMessage := some errorMessage } nothingFresh

def rejectSubmission (clientId errorMessage : String) : Session γ :=
  let pendingSubmissions := s.stateFor.conversation.pendingSubmissions
  if pendingSubmissions.any (·.clientId = clientId) then
    s.update locale
      { noUpdate γ with
        pendingSubmissions := some (pendingSubmissions.filter (·.clientId ≠ clientId))
        errorMessage := some errorMessage } nothingFresh
  else s.setError locale errorMessage

def endRun : Session γ :=
  let state := s.stateFor.conversation
  if state.streamingAssistants.isEmpty ∧ state.toolExecutions.isEmpty then s
  else s.update locale { noUpdate γ with streamingAssistants := some [], toolExecutions := some [] } ⟨true, true, none⟩

def clearCompactingState : Session γ :=
  if s.stateFor.conversation.isCompacting then
    s.update locale { noUpdate γ with isCompacting := some false } nothingFresh
  else s

def pruneSessionIfInactive : Session γ :=
  if s.conversation.isSome ∧ s.listeners = 0 ∧ s.running = false then
    { s with conversation := none, lastSeq := none, view := none }
  else s

def unsubscribe : Session γ :=
  match s.listeners with
  | 0 => s
  | 1 => ({ s with listeners := 0 } : Session γ).pruneSessionIfInactive
  | listeners + 2 => { s with listeners := listeners + 1 }

def act : Event γ → Session γ
  | .seq seq => s.received locale seq
  | .event event => s.applyEvent locale event
  | .mergeMessages page earlier restoreError => s.mergeMessages locale page earlier restoreError
  | .addOptimisticUserMessage content clientId => s.addOptimisticUserMessage locale content clientId
  | .rejectSubmission clientId errorMessage => s.rejectSubmission locale clientId errorMessage
  | .endRun => s.endRun locale
  | .clearCompactingState => s.clearCompactingState locale
  | .setError errorMessage => s.setError locale errorMessage
  | .cacheUpdate running => ({ s with running } : Session γ).pruneSessionIfInactive
  | .subscribe => { s with listeners := s.listeners + 1 }
  | .unsubscribe => s.unsubscribe
  | .pruneInactive => s.pruneSessionIfInactive
  | .get => s.get

/-- The objects of a step are known by its number. -/
def step (e : Event γ) : Session γ := { s.act locale e with clock := s.clock + 1 }

end Session

/-! ## What is asked of a read -/

structure ShownView where
  messages : List ShownMessage
  streamingMessages : List ShownMessage
  hasEarlierMessages : Bool
  isCompacting : Bool
  errorMessage : String

def ConversationView.shown (view : ConversationView) : ShownView :=
  { view with messages := view.messages.map (·.shown), streamingMessages := view.streamingMessages.map (·.shown) }

def executionsOf (state : ConversationState γ) : ToolExecutionLookup := fun id =>
  (state.toolExecutions.lookup id).map fun execution => ⟨some 0, execution⟩

def plainView (state : ConversationState γ) (running : Bool) : ConversationView :=
  { messages := applyToolExecutions (executionsOf state) running 0 (buildTranscript 0 state)
    streamingMessages := buildStreamingMessages 0 state.streamingAssistants (executionsOf state)
    hasEarlierMessages := state.previousCursor.isSome
    isCompacting := state.isCompacting
    errorMessage := state.errorMessage }

/-- What `get` returns shows what the plain view does. Beside the view read before, while the entries and the
submissions are the same objects, each message whose calls would show no other live state is the same object; and so
are the streaming messages while the overlays and the tool state are. -/
structure Reads (s : Session γ) : Prop where
  shown : s.read.shown = (plainView s.stateFor.conversation s.running).shown
  kept : ∀ last ∈ s.last, last.state.made.entries = s.stateFor.made.entries →
    last.state.made.pendingSubmissions = s.stateFor.made.pendingSubmissions →
    ∀ before m rest, last.view.messages = before ++ m :: rest →
      m.showsSame (liveState s.stateFor.executionOf s.running rest) = true → s.read.messages[before.length]? = some m
  streaming : ∀ last ∈ s.last, last.state.made.streamingAssistants = s.stateFor.made.streamingAssistants →
    last.state.made.toolExecutions = s.stateFor.made.toolExecutions →
    s.read.streamingMessages = last.view.streamingMessages

def Faithful (s : Session γ) : Event γ → Prop
  | .get => Reads s
  | _ => True

end

/-! ## What the reducer leaves -/

section

variable {Entry : Type} {id toolCallId : String}

theorem applyAssistantDelta_eq {overlays : List StreamingAssistant} {streamId : StreamId} (step : AssistantStreamEvent)
    (h : (overlays.find? (·.streamId = streamId)).any (!·.stale) = false) :
    applyAssistantDelta overlays streamId step = overlays := by
  induction overlays with
  | nil => rfl
  | cons current rest ih =>
    rw [applyAssistantDelta]
    by_cases hid : current.streamId = streamId
    · have hstale : current.stale = true := by simpa [find?_cons, hid] using h
      rw [if_pos hid, StreamingAssistant.applyDelta, if_pos hstale]
    · rw [if_neg hid, ih (by simpa [find?_cons, hid] using h)]

theorem upsertAssistantSnapshot_eq {overlays : List StreamingAssistant} {message : AgentMessage}
    (h : decide (message.role = "assistant") = false) (streamId : StreamId) (entryId : Option EntryId) :
    upsertAssistantSnapshot overlays streamId message entryId = overlays := by
  cases overlays <;> rw [upsertAssistantSnapshot, if_pos (of_decide_eq_false h)]

theorem overlays_eq {state : ChatState} {event : ChatEvent Entry}
    (h : replacesOverlays state.streamingAssistants event = false) :
    (applyChatEvent state event).streamingAssistants = state.streamingAssistants := by
  cases event with
  | messageStart message streamId => exact upsertAssistantSnapshot_eq h streamId none
  | messageEnd message streamId entryId => exact upsertAssistantSnapshot_eq h streamId entryId
  | messageUpdate message streamId step =>
    cases message with
    | some message => exact upsertAssistantSnapshot_eq h streamId none
    | none => exact applyAssistantDelta_eq step h
  | agentEnd messages error => cases h
  | toolExecutionStart toolCallId =>
    simp only [applyChatEvent]
    split <;> rfl
  | toolExecutionUpdate toolCallId partialResult =>
    simp only [applyChatEvent]
    split <;> rfl
  | _ => rfl

theorem lookup_setToolExecution (executions : List (String × ToolExecution)) (execution : ToolExecution)
    (h : toolCallId ≠ id) : (setToolExecution executions toolCallId execution).lookup id = executions.lookup id := by
  induction executions with
  | nil => simp [setToolExecution, List.lookup, beq_false_of_ne (Ne.symm h)]
  | cons current rest ih =>
    rw [setToolExecution]
    split
    next heq =>
      simp [List.lookup, heq, beq_false_of_ne (Ne.symm h)]
    · simp [List.lookup, ih]

theorem executions_cases (state : ChatState) (event : ChatEvent Entry) :
    setsExecution state.toolExecutions event = none ∧ endsAgent event = false ∧
        (applyChatEvent state event).toolExecutions = state.toolExecutions ∨
      (∃ toolCallId execution, setsExecution state.toolExecutions event = some toolCallId ∧
        (applyChatEvent state event).toolExecutions = setToolExecution state.toolExecutions toolCallId execution) ∨
      endsAgent event = true ∧ (applyChatEvent state event).toolExecutions = [] := by
  cases event with
  | toolExecutionStart toolCallId =>
    simp only [setsExecution, applyChatEvent]
    split
    · exact .inl ⟨rfl, rfl, rfl⟩
    · exact .inr (.inl ⟨toolCallId, _, rfl, rfl⟩)
  | toolExecutionUpdate toolCallId partialResult =>
    simp only [setsExecution, applyChatEvent]
    split
    · exact .inl ⟨rfl, rfl, rfl⟩
    · exact .inr (.inl ⟨toolCallId, _, rfl, rfl⟩)
  | toolExecutionEnd toolCallId result isError => exact .inr (.inl ⟨toolCallId, _, rfl, rfl⟩)
  | agentEnd messages error => exact .inr (.inr ⟨rfl, rfl⟩)
  | messageUpdate message streamId step => cases message <;> exact .inl ⟨rfl, rfl, rfl⟩
  | _ => exact .inl ⟨rfl, rfl, rfl⟩

end

section

variable {locale : Collation} {γ : Type} {t t' t'' : Tagged γ} {now : Nat} {patch : ConversationUpdate γ} {fresh : Fresh}

/-! ## What an update leaves -/

/-- What a patch gives as no new object it has from the state. -/
structure Honest (t : Tagged γ) (patch : ConversationUpdate γ) (fresh : Fresh) : Prop where
  streamingAssistants : fresh.streamingAssistants = false →
    patch.streamingAssistants.getD t.conversation.streamingAssistants = t.conversation.streamingAssistants
  toolExecutions : fresh.toolExecutions = false →
    patch.toolExecutions.getD t.conversation.toolExecutions = t.conversation.toolExecutions ∧ fresh.execution = none
  execution : ∀ id, fresh.execution ≠ some id → ∀ execution,
    (patch.toolExecutions.getD t.conversation.toolExecutions).lookup id = some execution →
      t.conversation.toolExecutions.lookup id = some execution

structure Next (now : Nat) (t t' : Tagged γ) : Prop where
  state : t'.made.state = now
  entries : t'.made.entries = now ∨
    t'.made.entries = t.made.entries ∧ t'.conversation.entries = t.conversation.entries
  pendingSubmissions : t'.made.pendingSubmissions = now ∨
    t'.made.pendingSubmissions = t.made.pendingSubmissions ∧
      t'.conversation.pendingSubmissions = t.conversation.pendingSubmissions
  streamingAssistants : t'.made.streamingAssistants = now ∨
    t'.made.streamingAssistants = t.made.streamingAssistants ∧
      t'.conversation.streamingAssistants = t.conversation.streamingAssistants
  toolExecutions : t'.made.toolExecutions = now ∨
    t'.made.toolExecutions = t.made.toolExecutions ∧
      t'.conversation.toolExecutions = t.conversation.toolExecutions ∧ t'.made.executions = t.made.executions
  executionOf : ∀ id x, t'.executionOf id = some x → x.made = some now ∨ t.executionOf id = some x
  executions : ∀ id, t'.made.executions id = now ∨ t'.made.executions id = t.made.executions id

theorem honest_of_none (t : Tagged γ) {patch : ConversationUpdate γ} (h : patch.streamingAssistants = none)
    (h' : patch.toolExecutions = none) : Honest t patch nothingFresh := by
  refine ⟨fun _ => h ▸ rfl, fun _ => ⟨h' ▸ rfl, rfl⟩, fun id _ execution hlookup => ?_⟩
  rw [h'] at hlookup
  exact hlookup

theorem executionOf_some {id : String} {x : Execution} : t.executionOf id = some x ↔
    ∃ execution, t.conversation.toolExecutions.lookup id = some execution ∧
      x = ⟨some (t.made.executions id), execution⟩ := by
  unfold Tagged.executionOf
  rw [Option.map_eq_some_iff]
  exact exists_congr fun execution => and_congr_right fun _ => eq_comm

theorem update_overlays (c : ConversationState γ) (h : (c.update locale patch).streamingAssistants.length =
    (patch.streamingAssistants.getD c.streamingAssistants).length) :
    (c.update locale patch).streamingAssistants = patch.streamingAssistants.getD c.streamingAssistants := by
  simp only [ConversationState.update] at h ⊢
  split
  next hdrops =>
    rw [if_pos hdrops] at h
    exact filter_sublist.eq_of_length h
  · rfl

theorem update_next (h : Honest t patch fresh) : Next now t (t.update locale now patch fresh) := by
  refine ⟨rfl, ?_, ?_, ?_, ?_, ?_, fun id => ite_eq_or_eq ..⟩
  · simp only [Tagged.update, ConversationState.update]
    cases patch.entries with
    | some entries => exact .inl rfl
    | none => exact .inr ⟨rfl, rfl⟩
  · simp only [Tagged.update, ConversationState.update]
    split
    · exact .inl rfl
    rename_i hnone
    rw [Bool.or_eq_true, not_or, Bool.not_eq_true, Bool.not_eq_true, Option.isSome_eq_false_iff,
      Option.isNone_iff_eq_none] at hnone
    refine .inr ⟨rfl, ?_⟩
    -- nothing pending is answered
    rw [hnone.1, Option.getD_none]
    refine filter_eq_self.mpr fun p hp => ?_
    have hall := any_eq_false.mp hnone.2 p hp
    simpa using hall
  · simp only [Tagged.update]
    split
    · exact .inl rfl
    next hnone =>
      rw [Bool.or_eq_true, not_or, Bool.not_eq_true, decide_eq_true_iff, not_not] at hnone
      exact .inr ⟨rfl, (update_overlays t.conversation hnone.2).trans (h.streamingAssistants hnone.1)⟩
  · simp only [Tagged.update, ConversationState.update]
    cases hfresh : fresh.toolExecutions with
    | true => exact .inl rfl
    | false =>
      obtain ⟨hsame, hnone⟩ := h.toolExecutions hfresh
      refine .inr ⟨rfl, hsame, ?_⟩
      rw [hnone]
      rfl
  · intro id x hx
    obtain ⟨execution, hlookup, rfl⟩ := executionOf_some.mp hx
    simp only [Tagged.update, ConversationState.update] at hlookup ⊢
    by_cases hset : fresh.execution = some id
    · exact .inl (by rw [if_pos hset])
    · refine .inr (executionOf_some.mpr ⟨execution, h.execution id hset execution hlookup, ?_⟩)
      rw [if_neg hset]

theorem honest_event (t : Tagged γ) (event : ChatEvent ConversationEntry) (isCompacting : Option Bool)
    (errorMessage : Option String) :
    Honest t
      { noUpdate γ with
        streamingAssistants := some (applyChatEvent t.conversation.toChatState event).streamingAssistants
        toolExecutions := some (applyChatEvent t.conversation.toChatState event).toolExecutions
        isCompacting, errorMessage } (freshOf t.conversation.toChatState event) := by
  refine ⟨fun h => overlays_eq h, fun h => ?_, fun id hid execution hlookup => ?_⟩
  · obtain ⟨hnone, hends⟩ := Bool.or_eq_false_iff.mp h
    have hnone : setsExecution t.conversation.toolExecutions event = none :=
      Option.isNone_iff_eq_none.mp (Option.isSome_eq_false_iff.mp hnone)
    refine ⟨?_, hnone⟩
    rcases executions_cases t.conversation.toChatState event with ⟨_, _, hsame⟩ | ⟨id, _, hset, _⟩ | ⟨hends', _⟩
    · exact hsame
    · rw [show setsExecution t.conversation.toChatState.toolExecutions event = none from hnone] at hset
      cases hset
    · cases hends.symm.trans hends'
  · simp only [Option.getD_some] at hlookup
    rcases executions_cases t.conversation.toChatState event with ⟨_, _, hsame⟩ | ⟨set, _, hset, hsame⟩ | ⟨_, hsame⟩
    · rw [hsame] at hlookup
      exact hlookup
    · have hne : set ≠ id := by
        rintro rfl
        exact hid hset
      rw [hsame, lookup_setToolExecution _ _ hne] at hlookup
      exact hlookup
    · rw [hsame] at hlookup
      cases hlookup

/-! ## An earlier state and a later one -/

/-- What is the same object in both is the same. -/
structure Later (t t' : Tagged γ) : Prop where
  state : t.made.state = t'.made.state → t = t'
  entries : t.made.entries = t'.made.entries → t.conversation.entries = t'.conversation.entries
  pendingSubmissions : t.made.pendingSubmissions = t'.made.pendingSubmissions →
    t.conversation.pendingSubmissions = t'.conversation.pendingSubmissions
  streamingAssistants : t.made.streamingAssistants = t'.made.streamingAssistants →
    t.conversation.streamingAssistants = t'.conversation.streamingAssistants
  toolExecutions : t.made.toolExecutions = t'.made.toolExecutions →
    t.conversation.toolExecutions = t'.conversation.toolExecutions ∧ t.made.executions = t'.made.executions

structure Below (made : Objects) (now : Nat) : Prop where
  state : made.state < now
  entries : made.entries < now
  pendingSubmissions : made.pendingSubmissions < now
  streamingAssistants : made.streamingAssistants < now
  toolExecutions : made.toolExecutions < now

theorem Below.mono {made : Objects} {later : Nat} (h : Below made now) (hle : now ≤ later) : Below made later :=
  ⟨h.state.trans_le hle, h.entries.trans_le hle, h.pendingSubmissions.trans_le hle, h.streamingAssistants.trans_le hle,
    h.toolExecutions.trans_le hle⟩

theorem Later.refl (t : Tagged γ) : Later t t :=
  ⟨fun _ => rfl, fun _ => rfl, fun _ => rfl, fun _ => rfl, fun _ => ⟨rfl, rfl⟩⟩

theorem Later.next (h : Later t t') (hbelow : Below t.made now) (hnext : Next now t' t'') : Later t t'' := by
  refine ⟨fun heq => ?_, fun heq => ?_, fun heq => ?_, fun heq => ?_, fun heq => ?_⟩
  · rw [hnext.state] at heq
    exact absurd heq hbelow.state.ne
  · rcases hnext.entries with hnow | ⟨hmade, hsame⟩
    · exact absurd (heq.trans hnow) hbelow.entries.ne
    · exact (h.entries (heq.trans hmade)).trans hsame.symm
  · rcases hnext.pendingSubmissions with hnow | ⟨hmade, hsame⟩
    · exact absurd (heq.trans hnow) hbelow.pendingSubmissions.ne
    · exact (h.pendingSubmissions (heq.trans hmade)).trans hsame.symm
  · rcases hnext.streamingAssistants with hnow | ⟨hmade, hsame⟩
    · exact absurd (heq.trans hnow) hbelow.streamingAssistants.ne
    · exact (h.streamingAssistants (heq.trans hmade)).trans hsame.symm
  · rcases hnext.toolExecutions with hnow | ⟨hmade, hsame, hexecutions⟩
    · exact absurd (heq.trans hnow) hbelow.toolExecutions.ne
    · obtain ⟨hlist, hobjects⟩ := h.toolExecutions (heq.trans hmade)
      exact ⟨hlist.trans hsame.symm, hobjects.trans hexecutions.symm⟩

theorem Next.below (h : Next now t t') (hbelow : Below t.made (now + 1)) : Below t'.made (now + 1) := by
  have hor : ∀ {a b : Nat} {p : Prop}, a = now ∨ a = b ∧ p → b < now + 1 → a < now + 1 := by
    rintro a b p (rfl | ⟨rfl, _⟩) hb
    · exact Nat.lt_succ_self _
    · exact hb
  exact ⟨h.state ▸ Nat.lt_succ_self now, hor h.entries hbelow.entries, hor h.pendingSubmissions hbelow.pendingSubmissions,
    hor h.streamingAssistants hbelow.streamingAssistants, hor h.toolExecutions hbelow.toolExecutions⟩

/-! ## The cached view -/

structure CacheOk (now : Nat) (cached : ViewCache γ) (t : Tagged γ) : Prop where
  below : Below cached.state.made now
  later : Later cached.state t
  shown : cached.view.shown = (plainView cached.state.conversation cached.running).shown
  bare : cached.view.messages.map (·.bare) = (buildTranscript 0 cached.state.conversation).map (·.bare)
  known : ∀ m ∈ cached.view.messages, m.Known t.executionOf
  objects : ∀ m ∈ cached.view.messages, ∀ block ∈ m.blocks, ∀ x, block.execution = some x → ∀ k, x.made = some k → k < now

theorem CacheOk.next {cached : ViewCache γ} (h : CacheOk now cached t) (hnext : Next now t t') :
    CacheOk (now + 1) cached t' := by
  refine ⟨h.below.mono (Nat.le_succ _), h.later.next h.below hnext, h.shown, h.bare, ?_,
    fun m hm block hblock x hx k hk => Nat.lt_succ_of_lt (h.objects m hm block hblock x hx k hk)⟩
  intro m hm block hblock
  refine ⟨(h.known m hm block hblock).1, fun id hid x hx => ?_⟩
  obtain ⟨hshared, hknown⟩ := (h.known m hm block hblock).2 id hid x hx
  refine ⟨hshared, fun y hy hmade => ?_⟩
  rcases hnext.executionOf id y hy with hnow | hbefore
  · -- made now, and held before
    exact absurd (h.objects m hm block hblock x hx now (hmade.trans hnow)) (Nat.lt_irrefl _)
  · exact hknown y hbefore hmade

theorem CacheOk.mono {cached : ViewCache γ} {later : Nat} (h : CacheOk now cached t) (hle : now ≤ later) :
    CacheOk later cached t :=
  { h with below := h.below.mono hle, objects := fun m hm block hblock x hx k hk => (h.objects m hm block hblock x hx k hk).trans_le hle }

theorem buildTranscript_congr {c c' : ConversationState γ} (made : Nat) (h : c.entries = c'.entries)
    (h' : c.pendingSubmissions = c'.pendingSubmissions) : buildTranscript made c = buildTranscript made c' := by
  unfold buildTranscript
  rw [h, h']

theorem built_of_bare {messages : List Message} {c : ConversationState γ}
    (h : messages.map (·.bare) = (buildTranscript 0 c).map (·.bare)) : ∀ m ∈ messages, m.bare.Built := by
  intro m hm
  have hmem : m.bare ∈ (buildTranscript 0 c).map (·.bare) := h ▸ mem_map_of_mem hm
  obtain ⟨m', hm', heq⟩ := mem_map.mp hmem
  rw [← heq]
  exact built_buildMessages hm'

end

namespace Session

section

variable {locale : Collation} {γ : Type} {s : Session γ}

structure Older (made made' : Objects) : Prop where
  entries : made.entries < made'.entries
  streamingAssistants : made.streamingAssistants < made'.streamingAssistants

structure Ok (s : Session γ) : Prop where
  made : ∀ t, s.conversation = some t → Below t.made s.clock ∧ ∀ id, t.made.executions id < s.clock
  bound : ∀ last, s.last = some last → Below last.state.made s.clock
  cache : ∀ cached, s.view = some cached → s.last = some cached ∧
    ∃ t, s.conversation = some t ∧ CacheOk s.clock cached t
  /-- Where none is kept, nothing is left of what was read. -/
  older : s.view = none → ∀ last, s.last = some last → ∀ t, s.conversation = some t → Older last.state.made t.made

theorem ok_init (γ : Type) : Ok (.init γ) := ⟨fun _ => nofun, fun _ => nofun, fun _ => nofun, fun _ _ => nofun⟩

theorem stateFor_of_some {t : Tagged γ} (h : s.conversation = some t) : s.stateFor = t := by
  unfold stateFor
  rw [h]
  rfl

theorem stateFor_of_none (h : s.conversation = none) : s.stateFor = blank γ s.clock := by
  unfold stateFor
  rw [h]
  rfl

/-! ## A read -/

theorem transcript_ok (h : Ok s) :
    s.transcript.map (·.bare) = (buildTranscript 0 s.stateFor.conversation).map (·.bare) ∧
      (∀ m ∈ s.transcript, m.Known s.stateFor.executionOf) ∧
      ∀ m ∈ s.transcript, ∀ block ∈ m.blocks, ∀ x, block.execution = some x → ∀ k, x.made = some k → k < s.clock := by
  have hbuilt : (buildTranscript s.clock s.stateFor.conversation).map (·.bare) =
      (buildTranscript 0 s.stateFor.conversation).map (·.bare) ∧
      (∀ m ∈ buildTranscript s.clock s.stateFor.conversation, m.Known s.stateFor.executionOf) ∧
      ∀ m ∈ buildTranscript s.clock s.stateFor.conversation, ∀ block ∈ m.blocks, ∀ x, block.execution = some x →
        ∀ k, x.made = some k → k < s.clock := by
    refine ⟨bare_buildMessages _ _ _, fun m hm => known_buildMessages hm _, fun m hm block hblock x hx => ?_⟩
    rw [execution_buildMessages hm hblock] at hx
    cases hx
  unfold transcript
  split
  next cached hview =>
    split
    next hobjects =>
      obtain ⟨_, t, ht, hok⟩ := h.cache cached hview
      rw [stateFor_of_some ht] at hobjects ⊢
      refine ⟨?_, hok.known, hok.objects⟩
      rw [hok.bare, buildTranscript_congr 0 (hok.later.entries hobjects.1) (hok.later.pendingSubmissions hobjects.2)]
    · exact hbuilt
  · exact hbuilt

theorem executionOf_value (t : Tagged γ) (id : String) :
    (t.executionOf id).map (·.value) = (executionsOf t.conversation id).map (·.value) := by
  unfold Tagged.executionOf executionsOf
  rw [Option.map_map, Option.map_map]
  rfl

theorem shown_buildStreamingMessages (now : Nat) (t : Tagged γ) :
    (buildStreamingMessages now t.conversation.streamingAssistants t.executionOf).map (·.shown) =
      (buildStreamingMessages 0 t.conversation.streamingAssistants (executionsOf t.conversation)).map (·.shown) := by
  unfold buildStreamingMessages
  rw [map_map, map_map]
  refine map_congr_left fun assistant _ => ?_
  simp only [Function.comp, Message.shown, assistantMessage, map_map]
  congr 1
  refine map_congr_left fun raw _ => ?_
  simp only [Function.comp, AssistantConversationBlock.shown]
  cases raw.callId with
  | none => rfl
  | some id => simp [executionOf_value t id]

theorem shown_plainView (c : ConversationState γ) (running : Bool) :
    (plainView c running).shown.messages = showing (executionsOf c) running ((buildTranscript 0 c).map (·.bare)) :=
  shown_applyToolExecutions (fun _ hm => built_buildMessages hm) fun _ hm => known_buildMessages hm _

theorem shown_streamingMessages (h : Ok s) :
    s.streamingMessages.map (·.shown) = (plainView s.stateFor.conversation s.running).shown.streamingMessages := by
  unfold streamingMessages
  split
  next cached hview =>
    split
    next hobjects =>
      obtain ⟨_, t, ht, hok⟩ := h.cache cached hview
      rw [stateFor_of_some ht] at hobjects ⊢
      have hlist := hok.later.streamingAssistants hobjects.1
      obtain ⟨hexecutions, _⟩ := hok.later.toolExecutions hobjects.2
      have hshown : cached.view.streamingMessages.map (·.shown) =
          (plainView cached.state.conversation cached.running).shown.streamingMessages :=
        congrArg ShownView.streamingMessages hok.shown
      have hsame : executionsOf cached.state.conversation = executionsOf t.conversation := by
        funext id
        rw [executionsOf, executionsOf, hexecutions]
      rw [hshown]
      simp only [plainView, ConversationView.shown]
      rw [hlist, hsame]
    · exact shown_buildStreamingMessages _ _
  · exact shown_buildStreamingMessages _ _

theorem shown_buildView (h : Ok s) : s.buildView.shown = (plainView s.stateFor.conversation s.running).shown := by
  obtain ⟨hbare, hknown, _⟩ := transcript_ok h
  have hmessages : s.buildView.shown.messages = (plainView s.stateFor.conversation s.running).shown.messages := by
    rw [shown_plainView, ← hbare, ← showing_congr (executionOf_value s.stateFor) s.running]
    exact shown_applyToolExecutions (built_of_bare hbare) hknown
  have hstreaming := shown_streamingMessages h
  unfold ConversationView.shown at hmessages hstreaming ⊢
  simp only at hmessages hstreaming
  rw [hmessages]
  simp only [buildView]
  rw [hstreaming]
  rfl

theorem cached_ok (h : Ok s) {cached : ViewCache γ} (hcached : s.cached = some cached) :
    s.view = some cached ∧ s.last = some cached ∧ cached.state = s.stateFor ∧ cached.running = s.running ∧
      CacheOk s.clock cached s.stateFor := by
  obtain ⟨hview, hsame⟩ := Option.filter_eq_some_iff.mp hcached
  rw [Bool.and_eq_true, decide_eq_true_iff, decide_eq_true_iff] at hsame
  obtain ⟨hlast, t, ht, hok⟩ := h.cache cached hview
  rw [← stateFor_of_some ht] at hok
  exact ⟨hview, hlast, hok.later.state hsame.1, hsame.2, hok⟩

theorem view_of_same (h : Ok s) {last : ViewCache γ} (hlast : s.last = some last)
    (hsame : last.state.made.entries = s.stateFor.made.entries ∨
      last.state.made.streamingAssistants = s.stateFor.made.streamingAssistants) : s.view = some last := by
  cases hview : s.view with
  | some cached =>
    have hcached := (h.cache cached hview).1
    rw [hlast] at hcached
    exact hcached.symm
  | none =>
    have hbound := h.bound last hlast
    cases hconversation : s.conversation with
    | some t =>
      have holder := h.older hview last hlast t hconversation
      rw [stateFor_of_some hconversation] at hsame
      rcases hsame with heq | heq
      · exact absurd heq holder.entries.ne
      · exact absurd heq holder.streamingAssistants.ne
    | none =>
      rw [stateFor_of_none hconversation] at hsame
      rcases hsame with heq | heq
      · exact absurd heq hbound.entries.ne
      · exact absurd heq hbound.streamingAssistants.ne

theorem reads (h : Ok s) : Reads s := by
  cases hcached : s.cached with
  | some cached =>
    have hread : s.read = cached.view := by rw [read, hcached]
    obtain ⟨_, hlast, hstate, hrunning, hok⟩ := cached_ok h hcached
    refine ⟨?_, ?_, ?_⟩
    · rw [hread, hok.shown, hstate, hrunning]
    · intro last hlast' _ _ before m rest hmessages _
      cases hlast.symm.trans hlast'
      rw [hread, hmessages]
      simp
    · intro last hlast' _ _
      cases hlast.symm.trans hlast'
      rw [hread]
  | none =>
    have hread : s.read = s.buildView := by rw [read, hcached]
    refine ⟨?_, ?_, ?_⟩
    · rw [hread]
      exact shown_buildView h
    · intro last hlast hentries hpending before m rest hmessages hsame
      have hview := view_of_same h hlast (.inl hentries)
      have htranscript : s.transcript = before ++ m :: rest := by
        rw [transcript, hview]
        exact (if_pos ⟨hentries, hpending⟩).trans hmessages
      rw [hread, buildView, htranscript]
      exact applyToolExecutions_append _ _ _ before rest m hsame
    · intro last hlast hoverlays hexecutions
      have hview := view_of_same h hlast (.inr hoverlays)
      rw [hread, buildView, streamingMessages, hview]
      exact if_pos ⟨hoverlays, hexecutions⟩

/-! ## The invariant -/

theorem Ok.tick (h : Ok s) : Ok { s with clock := s.clock + 1 } := by
  refine ⟨fun t ht => ?_, fun last hlast => (h.bound last hlast).mono (Nat.le_succ _), fun cached hview => ?_, h.older⟩
  · obtain ⟨hbelow, hexecutions⟩ := h.made t ht
    exact ⟨hbelow.mono (Nat.le_succ _), fun id => Nat.lt_succ_of_lt (hexecutions id)⟩
  · obtain ⟨hlast, t, ht, hok⟩ := h.cache cached hview
    exact ⟨hlast, t, ht, hok.mono (Nat.le_succ _)⟩

theorem Ok.update (h : Ok s) {patch : ConversationUpdate γ} {fresh : Fresh} (hhonest : Honest s.stateFor patch fresh) :
    Ok { s.update locale patch fresh with clock := s.clock + 1 } := by
  have hnext := @update_next locale _ _ s.clock _ _ hhonest
  have hbelow : Below s.stateFor.made (s.clock + 1) ∧ ∀ id, s.stateFor.made.executions id < s.clock + 1 := by
    cases hconversation : s.conversation with
    | some t =>
      rw [stateFor_of_some hconversation]
      obtain ⟨hbelow, hexecutions⟩ := h.made t hconversation
      exact ⟨hbelow.mono (Nat.le_succ _), fun id => Nat.lt_succ_of_lt (hexecutions id)⟩
    | none =>
      rw [stateFor_of_none hconversation]
      have hlt := Nat.lt_succ_self s.clock
      exact ⟨⟨hlt, hlt, hlt, hlt, hlt⟩, fun _ => hlt⟩
  refine ⟨?_, fun last hlast => (h.bound last hlast).mono (Nat.le_succ _), ?_, ?_⟩
  · intro t ht
    rw [← Option.some_inj.mp ht]
    refine ⟨hnext.below hbelow.1, fun id => ?_⟩
    rcases hnext.executions id with hnow | hsame
    · rw [hnow]
      exact Nat.lt_succ_self _
    · rw [hsame]
      exact hbelow.2 id
  · intro cached hview
    obtain ⟨hlast, t, ht, hok⟩ := h.cache cached hview
    rw [← stateFor_of_some ht] at hok
    exact ⟨hlast, _, rfl, hok.next hnext⟩
  · intro hview last hlast t ht
    rw [← Option.some_inj.mp ht]
    have hbound := h.bound last hlast
    have holder : Older last.state.made s.stateFor.made := by
      cases hconversation : s.conversation with
      | some t =>
        rw [stateFor_of_some hconversation]
        exact h.older hview last hlast t hconversation
      | none =>
        rw [stateFor_of_none hconversation]
        exact ⟨hbound.entries, hbound.streamingAssistants⟩
    constructor
    · rcases hnext.entries with hnow | ⟨hmade, _⟩
      · rw [hnow]
        exact hbound.entries
      · rw [hmade]
        exact holder.entries
    · rcases hnext.streamingAssistants with hnow | ⟨hmade, _⟩
      · rw [hnow]
        exact hbound.streamingAssistants
      · rw [hmade]
        exact holder.streamingAssistants

theorem Ok.prune (h : Ok s) : Ok s.pruneSessionIfInactive := by
  unfold pruneSessionIfInactive
  split
  · exact ⟨fun _ => nofun, h.bound, fun _ => nofun, fun _ _ _ _ => nofun⟩
  · exact h

theorem Ok.get (h : Ok s) : Ok { s.get with clock := s.clock + 1 } := by
  cases hcached : s.cached with
  | some cached =>
    obtain ⟨hview, hlast, hstate, hrunning, _⟩ := cached_ok h hcached
    have hget : s.get = s := by
      have hsame : (⟨s.stateFor, s.running, s.read⟩ : ViewCache γ) = cached := by
        rw [← hstate, ← hrunning, read, hcached]
      have hlast' : ({ s with last := some cached } : Session γ) = s := by rw [← hlast]
      unfold Session.get
      rw [hsame, hcached]
      exact hlast'
    rw [hget]
    exact h.tick
  | none =>
    have hbuild : s.read = s.buildView := by rw [read, hcached]
    cases hconversation : s.conversation with
    | none =>
      have hview : s.view = none := by
        cases hview : s.view with
        | none => rfl
        | some cached =>
          obtain ⟨_, t, ht, _⟩ := h.cache cached hview
          cases hconversation.symm.trans ht
      simp only [Session.get, hcached, hconversation, hview]
      refine ⟨fun _ => nofun, fun last hlast => ?_, fun _ => nofun, fun _ _ _ _ => nofun⟩
      cases hlast
      rw [stateFor_of_none hconversation]
      have hlt := Nat.lt_succ_self s.clock
      exact ⟨hlt, hlt, hlt, hlt, hlt⟩
    | some t =>
      obtain ⟨hbelow, hexecutions⟩ := h.made t hconversation
      obtain ⟨hbare, hknown, hobjects⟩ := transcript_ok h
      rw [stateFor_of_some hconversation] at hbare hknown
      simp only [Session.get, hcached, hconversation, hbuild, stateFor_of_some hconversation]
      refine ⟨fun t' ht' => ?_, fun last hlast => ?_, fun cached' hview => ?_, nofun⟩
      · cases ht'
        exact ⟨hbelow.mono (Nat.le_succ _), fun id => Nat.lt_succ_of_lt (hexecutions id)⟩
      · cases hlast
        exact hbelow.mono (Nat.le_succ _)
      · cases hview
        have hmade : ∀ id x, t.executionOf id = some x → x.made ≠ none := by
          intro id x hx
          obtain ⟨_, _, rfl⟩ := executionOf_some.mp hx
          nofun
        refine ⟨rfl, t, rfl, hbelow.mono (Nat.le_succ _), .refl t, ?_, ?_, ?_, ?_⟩
        · have hshown := shown_buildView h
          rw [stateFor_of_some hconversation] at hshown
          exact hshown
        · simp only [buildView, stateFor_of_some hconversation]
          rw [bare_applyToolExecutions (built_of_bare hbare)]
          exact hbare
        · simp only [buildView, stateFor_of_some hconversation]
          exact known_applyToolExecutions hmade hknown
        · simp only [buildView, stateFor_of_some hconversation]
          refine objects_applyToolExecutions (P := fun x => ∀ k, x.made = some k → k < s.clock + 1) ?_ (fun _ => nofun) ?_
          · intro id x hx k hk
            obtain ⟨_, _, rfl⟩ := executionOf_some.mp hx
            cases hk
            exact Nat.lt_succ_of_lt (hexecutions id)
          · exact fun m hm block hblock x hx k hk => Nat.lt_succ_of_lt (hobjects m hm block hblock x hx k hk)

theorem Ok.other (h : Ok s) (lastSeq : Option Nat) (running : Bool) (listeners : Nat) :
    Ok { s with lastSeq, running, listeners } := { h with }

theorem Ok.missedEvents (h : Ok s) : Ok { s.missedEvents locale with clock := s.clock + 1 } := by
  unfold Session.missedEvents
  dsimp only
  split
  · exact h.tick
  · exact h.update ⟨nofun, fun _ => ⟨rfl, rfl⟩, fun _ _ _ hlookup => hlookup⟩

theorem Ok.applyEvent (h : Ok s) (event : ChatEvent ConversationEntry) :
    Ok { s.applyEvent locale event with clock := s.clock + 1 } := by
  cases event with
  | entryAdded entry => exact h.update (honest_of_none s.stateFor rfl rfl)
  | _ =>
    simp only [Session.applyEvent]
    split
    · exact h.tick
    · exact h.update (honest_event s.stateFor _ _ _)

theorem Ok.step (s : Session γ) (e : Event γ) (h : Ok s) : Ok (s.step locale e) := by
  have hplain : ∀ {patch : ConversationUpdate γ}, patch.streamingAssistants = none → patch.toolExecutions = none →
      Ok { s.update locale patch nothingFresh with clock := s.clock + 1 } :=
    fun hoverlays hexecutions => h.update (honest_of_none s.stateFor hoverlays hexecutions)
  have hprune : ∀ running listeners,
      Ok { ({ s with running, listeners } : Session γ).pruneSessionIfInactive with clock := s.clock + 1 } := by
    intro running listeners
    have hpruned := (h.other s.lastSeq running listeners).prune.tick
    have hclock : (({ s with running, listeners } : Session γ).pruneSessionIfInactive).clock = s.clock := by
      unfold pruneSessionIfInactive
      split <;> rfl
    rwa [hclock] at hpruned
  unfold Session.step
  cases e with
  | seq seq =>
    simp only [act, received]
    split
    · exact (h.other _ _ _).tick
    · exact (h.other (some seq) s.running s.listeners).missedEvents
  | event event => exact h.applyEvent event
  | mergeMessages page earlier restoreError => exact hplain rfl rfl
  | addOptimisticUserMessage content clientId =>
    simp only [act, addOptimisticUserMessage]
    split
    · exact h.tick
    · exact hplain rfl rfl
  | rejectSubmission clientId errorMessage =>
    simp only [act, rejectSubmission, setError]
    split
    · exact hplain rfl rfl
    · exact hplain rfl rfl
  | endRun =>
    simp only [act, endRun]
    split
    · exact h.tick
    · exact h.update ⟨nofun, nofun, fun _ _ _ => nofun⟩
  | clearCompactingState =>
    simp only [act, clearCompactingState]
    split
    · exact hplain rfl rfl
    · exact h.tick
  | setError errorMessage => exact hplain rfl rfl
  | cacheUpdate running => exact hprune running s.listeners
  | subscribe => exact (h.other s.lastSeq s.running (s.listeners + 1)).tick
  | unsubscribe =>
    simp only [act, unsubscribe]
    split
    · exact h.tick
    · exact hprune s.running 0
    · exact (h.other s.lastSeq s.running _).tick
  | pruneInactive => exact hprune s.running s.listeners
  | get => exact h.get

end

end Session

section

variable {γ : Type}

/-- Along every run of the store, of all its sessions, every read of a session shows what its plain view does, and
keeps the messages that it may. -/
theorem views_are_plain (locale : Collation) (es : List (SessionId × Event γ)) :
    Along (stepAt fun _ => Session.step locale) (fun s e => Faithful (s e.1) e.2) (fun _ => Session.init γ) es := by
  refine (along_of_forall (P := fun _ => True) fun _ _ => trivial).of_invariant (fun s => ∀ k, (s k).Ok) ?_ ?_
    fun _ => Session.ok_init γ
  · intro s e _ h k
    by_cases hk : k = e.1
    · subst hk
      rw [stepAt, Function.update_self]
      exact (h e.1).step _ _
    · rw [stepAt, Function.update_of_ne hk]
      exact h k
  · intro s e _ h
    cases e.2 with
    | get => exact Session.reads (h e.1)
    | _ => trivial

/-- A submission is added between two reads: the one before it shows the same, and is another object. -/
theorem message_made_again :
    let s := exec (Session.step .codePoints) (.init Unit)
      [.addOptimisticUserMessage [] "a", .get, .addOptimisticUserMessage [] "b"]
    ∃ last m m', s.last = some last ∧ last.view.messages[0]? = some m ∧ s.read.messages[0]? = some m' ∧
      m.shown = m'.shown ∧ m.made ≠ m'.made :=
  ⟨_, _, _, rfl, rfl, rfl, rfl, by decide⟩

end

end Reins.ConversationViews
