import Reins.Backend.MessagesStore
import Reins.Frontend.ChatState

/-!
# A session's conversation in a browser (`frontend/src/models/stores/conversations-store.ts`)

Saved entries come as events and as pages, and enter through one idempotent upsert. Every change is a patch
(`update`), which merges the entries it brings, takes the submissions off that these answer, and drops the
overlays whose entry is held. Where the loaded entries begin and how far they are read is kept in two cursors.
-/

namespace Reins.Conversations

open Chat
open Store (ConversationEntry)

/-- `localeCompare(a, b) ≤ 0`, of some locale. -/
structure Collation where
  le : EntryId → EntryId → Bool
  total : ∀ a b, le a b || le b a
  trans : ∀ a b c, le a b → le b c → le a c

def Collation.codePoints : Collation where
  le a b := decide (a ≤ b)
  total a b := by
    rw [Bool.or_eq_true, decide_eq_true_iff, decide_eq_true_iff]
    exact String.le_total a b
  trans a b c hab hbc := decide_eq_true (String.le_trans (of_decide_eq_true hab) (of_decide_eq_true hbc))

/-- A submission that is not saved yet. -/
structure LiveConversationEntry where
  localId : String
  clientId : String
  message : AgentMessage

section

-- What a cursor is.
variable (γ : Type)

structure MessageRecordPage where
  items : List ConversationEntry
  previousCursor : Option γ
  hasNextPage : Bool
  endCursor : Option γ
  /-- `none` is `undefined`, and `some none` is `null`. -/
  latestRunError : Option (Option String)

structure ConversationState extends ChatState where
  entries : List ConversationEntry
  pendingSubmissions : List LiveConversationEntry
  previousCursor : Option γ
  latestCursor : Option γ

def blankConversationState : ConversationState γ :=
  { initialChatState with entries := [], pendingSubmissions := [], previousCursor := none, latestCursor := none }

/-- A patch: `none` leaves a member as it is. -/
structure ConversationUpdate where
  streamingAssistants : Option (List StreamingAssistant)
  toolExecutions : Option (List (String × ToolExecution))
  isCompacting : Option Bool
  errorMessage : Option String
  entries : Option (List ConversationEntry)
  pendingSubmissions : Option (List LiveConversationEntry)
  previousCursor : Option (Option γ)
  latestCursor : Option (Option γ)

def noUpdate : ConversationUpdate γ := ⟨none, none, none, none, none, none, none, none⟩

end

/-! ## Entries -/

/-- `Map.set` under an entry's id. -/
def setEntry (entries : List ConversationEntry) (entry : ConversationEntry) : List ConversationEntry :=
  match entries with
  | [] => [entry]
  | current :: rest => if current.id = entry.id then entry :: rest else current :: setEntry rest entry

/-- The sort's comparison is not positive. -/
def Collation.before (locale : Collation) (left right : ConversationEntry) : Bool :=
  left.seq < right.seq || left.seq = right.seq && locale.le left.id right.id

/-- Idempotent canonical upsert. Harness sequence is the transcript order. -/
def upsertEntries (locale : Collation) (current incoming : List ConversationEntry) : List ConversationEntry :=
  ((current ++ incoming).foldl setEntry []).mergeSort locale.before

section

variable (locale : Collation) {γ : Type}

/-! ## Changes -/

def ConversationState.update (current : ConversationState γ) (patch : ConversationUpdate γ) : ConversationState γ :=
  let entries := patch.entries.elim current.entries (upsertEntries locale current.entries)
  let answered := (patch.entries.getD []).filterMap (·.clientId)
  let overlays := patch.streamingAssistants.getD current.streamingAssistants
  { streamingAssistants :=
      if patch.entries.isSome || patch.streamingAssistants.isSome then
        removePersistedStreamingAssistants overlays (entries.map (·.id))
      else overlays
    toolExecutions := patch.toolExecutions.getD current.toolExecutions
    isCompacting := patch.isCompacting.getD current.isCompacting
    errorMessage := patch.errorMessage.getD current.errorMessage
    entries := entries
    pendingSubmissions :=
      (patch.pendingSubmissions.getD current.pendingSubmissions).filter fun p => p.clientId ∉ answered
    previousCursor := patch.previousCursor.getD current.previousCursor
    latestCursor := patch.latestCursor.getD current.latestCursor }

def ConversationState.mergeMessages (state : ConversationState γ) (page : MessageRecordPage γ)
    (earlier restoreError : Bool) : ConversationState γ :=
  state.update locale
    { noUpdate γ with
      entries := some page.items
      previousCursor := some (if earlier || state.entries.isEmpty then page.previousCursor else state.previousCursor)
      latestCursor := some (if earlier then state.latestCursor else page.endCursor)
      errorMessage := if !earlier && restoreError then page.latestRunError.map (·.getD "") else none }

/-- A gap in the session's event numbers. -/
def ConversationState.missedEvents (state : ConversationState γ) : ConversationState γ :=
  state.update locale { noUpdate γ with streamingAssistants := some (markStreamsStale state.streamingAssistants) }

/-- `applyEvent`, once the event's number is looked at. -/
def ConversationState.apply (state : ConversationState γ) (event : ChatEvent ConversationEntry) : ConversationState γ :=
  match event with
  | .entryAdded entry => state.update locale { noUpdate γ with entries := some [entry] }
  | event =>
    let next := applyChatEvent state.toChatState event
    state.update locale
      { noUpdate γ with
        streamingAssistants := some next.streamingAssistants
        toolExecutions := some next.toolExecutions
        isCompacting := some next.isCompacting
        errorMessage := some next.errorMessage }

/-- Drop what `agent_end` drops. -/
def ConversationState.endRun (state : ConversationState γ) : ConversationState γ :=
  state.update locale { noUpdate γ with streamingAssistants := some [], toolExecutions := some [] }

/-! ## Submissions -/

def ConversationState.addPendingSubmission (state : ConversationState γ) (content : Content) (clientId : String) :
    Option (LiveConversationEntry × ConversationState γ) :=
  if state.pendingSubmissions.any (·.clientId = clientId) || state.entries.any (·.clientId = some clientId) then none
  else
    let entry : LiveConversationEntry :=
      { clientId, localId := "submission-" ++ clientId, message := ⟨"user", content, none, none⟩ }
    some (entry, state.update locale
      { noUpdate γ with pendingSubmissions := some (state.pendingSubmissions ++ [entry]) })

def ConversationState.setError (state : ConversationState γ) (errorMessage : String) : ConversationState γ :=
  state.update locale { noUpdate γ with errorMessage := some errorMessage }

/-- The server refused input `clientId`: it leaves the conversation, which shows `errorMessage`. -/
def ConversationState.rejectSubmission (state : ConversationState γ) (clientId errorMessage : String) :
    ConversationState γ :=
  if state.pendingSubmissions.any (·.clientId = clientId) then
    state.update locale
      { noUpdate γ with
        pendingSubmissions := some (state.pendingSubmissions.filter (·.clientId ≠ clientId))
        errorMessage := some errorMessage }
  else state.setError locale errorMessage

def ConversationState.clearCompactingState (state : ConversationState γ) : ConversationState γ :=
  if state.isCompacting then state.update locale { noUpdate γ with isCompacting := some false } else state

/-- A session's conversation, and the number of the last event received of it. -/
structure Conversation (γ : Type) where
  state : ConversationState γ
  lastSeq : Option Nat

/-- `pruneSessionIfInactive`, or before there is anything. -/
def Conversation.pruned (γ : Type) : Conversation γ := ⟨blankConversationState γ, none⟩

/-- Any jump of the session's event numbers marks its overlays stale before the event applies. -/
def Conversation.applyEvent (c : Conversation γ) (event : ChatEvent ConversationEntry) (seq : Nat) : Conversation γ :=
  let state := if c.lastSeq.all fun last => seq = last + 1 then c.state else c.state.missedEvents locale
  ⟨state.apply locale event, some seq⟩

end

end Reins.Conversations
