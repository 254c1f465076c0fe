import Reins.Lib.Json

/-!
# Chat state (`frontend/src/models/chat-state.ts`)

What a browser shows of a conversation besides its saved entries: an overlay for each message that is being
written, the tools that run, compaction and the last error. The reducer takes one event at a time. An
overlay is replaced by every event that carries the whole message and follows the steps in between; once it
may have missed a step it is stale, and waits for the next whole message.
-/

namespace Reins.Chat

/-! ## Messages -/

inductive BlockType
  | text
  | thinking
  | toolCall
  deriving DecidableEq

/-- A content block, as an object with these members: `none` where a member is `undefined`. -/
structure Block where
  type : BlockType
  text : Option String
  thinking : Option String
  id : Option String
  name : Option String
  arguments : Option Json
  /-- While a call streams: its raw argument JSON so far. -/
  partialJson : Option String
  /-- Signatures, and what else the provider keeps with a block. -/
  signature : Option String

/-- An assistant's content; `none` is a hole in the array. -/
abbrev Content := List (Option Block)

structure AgentMessage where
  role : String
  content : Content
  stopReason : Option String
  errorMessage : Option String

/-- A string a member stands for where it is appended to: `undefined` is written out. -/
def shown : Option String → String
  | some s => s
  | none => "undefined"

abbrev StreamId := String
abbrev EntryId := String

/-- One live assistant message: the last full snapshot with the deltas since applied. -/
structure StreamingAssistant where
  streamId : StreamId
  /-- Learned at `message_end`. -/
  durableId : Option EntryId
  message : AgentMessage
  stale : Bool

inductive AssistantStreamEvent
  | textStart (contentIndex : Nat)
  | thinkingStart (contentIndex : Nat)
  | toolcallStart (contentIndex : Nat)
  | textDelta (contentIndex : Nat) (delta : String)
  | thinkingDelta (contentIndex : Nat) (delta : String)
  | toolcallDelta (contentIndex : Nat) (delta : String)
  | textEnd (contentIndex : Nat) (content : String)
  | thinkingEnd (contentIndex : Nat) (content : String)
  | toolcallEnd (contentIndex : Nat) (toolCall : Block)

def AssistantStreamEvent.contentIndex : AssistantStreamEvent → Nat
  | .textStart i | .thinkingStart i | .toolcallStart i | .textDelta i _ | .thinkingDelta i _
  | .toolcallDelta i _ | .textEnd i _ | .thinkingEnd i _ | .toolcallEnd i _ => i

/-! ## The reducer -/

inductive ToolStatus
  | running
  | done
  deriving DecidableEq

structure ToolExecution where
  status : ToolStatus
  result : Option Json
  isError : Option Bool

/-- What the events carry of `agent_end`'s error: its message. -/
inductive ChatEvent (Entry : Type)
  | agentStart
  | messageStart (message : AgentMessage) (streamId : StreamId)
  /-- `message`, when present, is a keyframe: the full message after this step. -/
  | messageUpdate (message : Option AgentMessage) (streamId : StreamId) (assistantMessageEvent : AssistantStreamEvent)
  | toolExecutionStart (toolCallId : String)
  | toolExecutionUpdate (toolCallId : String) (partialResult : Option Json)
  | toolExecutionEnd (toolCallId : String) (result : Option Json) (isError : Option Bool)
  | agentEnd (messages : Option (List AgentMessage)) (error : Option String)
  | messageEnd (message : AgentMessage) (streamId : StreamId) (entryId : Option EntryId)
  | entryAdded (entry : Entry)
  | compactionStart
  | compactionEnd (errorMessage : Option String)
  | autoRetryStart (attempt maxAttempts : Nat) (errorMessage : String)
  | autoRetryEnd (success : Bool) (finalError : Option String)

def ChatEvent.keyframeOf {Entry : Type} : ChatEvent Entry → Option StreamId
  | .messageStart m streamId | .messageEnd m streamId _ | .messageUpdate (some m) streamId _ =>
    if m.role = "assistant" then some streamId else none
  | _ => none

structure ChatState where
  streamingAssistants : List StreamingAssistant
  toolExecutions : List (String × ToolExecution)
  isCompacting : Bool
  errorMessage : String

def initialChatState : ChatState := ⟨[], [], false, ""⟩

/-- Replace one explicitly identified streaming overlay with a full snapshot. -/
def upsertAssistantSnapshot (overlays : List StreamingAssistant) (streamId : StreamId)
    (message : AgentMessage) (entryId : Option EntryId) : List StreamingAssistant :=
  if message.role ≠ "assistant" then overlays
  else
    match overlays with
    | [] => [⟨streamId, entryId.filter (· ≠ ""), message, false⟩]
    | current :: rest =>
      if current.streamId = streamId then
        { current with
          durableId := (entryId.filter (· ≠ "")).or current.durableId, message := message, stale := false } :: rest
      else current :: upsertAssistantSnapshot rest streamId message entryId

def applyStreamStep (block : Option Block) (step : AssistantStreamEvent) : Option Block :=
  match block, step with
  | some b, .textDelta _ delta => if b.type = .text then some { b with text := some (shown b.text ++ delta) } else none
  | some b, .textEnd _ content => if b.type = .text then some { b with text := some content } else none
  | some b, .thinkingDelta _ delta =>
    if b.type = .thinking then some { b with thinking := some (shown b.thinking ++ delta) } else none
  | some b, .thinkingEnd _ content => if b.type = .thinking then some { b with thinking := some content } else none
  | some b, .toolcallDelta _ delta =>
    if b.type = .toolCall then some { b with partialJson := some (b.partialJson.getD "" ++ delta) } else none
  | some b, .toolcallEnd _ toolCall => if b.type = .toolCall ∧ b.id = toolCall.id then some toolCall else none
  -- A block's start always arrives with a keyframe that already holds it.
  | _, _ => none

/-- One overlay after a step without a snapshot. -/
def StreamingAssistant.applyDelta (current : StreamingAssistant) (step : AssistantStreamEvent) :
    StreamingAssistant :=
  if current.stale then current
  else
    match applyStreamStep (current.message.content[step.contentIndex]?.join) step with
    | some block =>
      { current with
        message := { current.message with
          content := current.message.content.set step.contentIndex (some block) } }
    | none => { current with stale := true }

/-- An unknown stream waits for the next keyframe. -/
def applyAssistantDelta (overlays : List StreamingAssistant) (streamId : StreamId)
    (step : AssistantStreamEvent) : List StreamingAssistant :=
  match overlays with
  | [] => []
  | current :: rest =>
    if current.streamId = streamId then current.applyDelta step :: rest
    else current :: applyAssistantDelta rest streamId step

def markStreamsStale (overlays : List StreamingAssistant) : List StreamingAssistant :=
  overlays.map fun o => { o with stale := true }

def removePersistedStreamingAssistants (overlays : List StreamingAssistant) (durableIds : List EntryId) :
    List StreamingAssistant :=
  overlays.filter fun o => o.durableId.all fun id => id ∉ durableIds

def setToolExecution (executions : List (String × ToolExecution)) (toolCallId : String)
    (execution : ToolExecution) : List (String × ToolExecution) :=
  match executions with
  | [] => [(toolCallId, execution)]
  | current :: rest =>
    if current.1 = toolCallId then (toolCallId, execution) :: rest
    else current :: setToolExecution rest toolCallId execution

def lastFailure (messages : List AgentMessage) : Option String :=
  (messages.reverse.find? fun m =>
    m.role = "assistant" && m.stopReason = some "error" && m.errorMessage.any (· ≠ "")).bind (·.errorMessage)

def applyChatEvent {Entry : Type} (state : ChatState) : ChatEvent Entry → ChatState
  | .agentStart => state
  | .messageStart message streamId =>
    { state with streamingAssistants := upsertAssistantSnapshot state.streamingAssistants streamId message none }
  | .messageEnd message streamId entryId =>
    { state with
      streamingAssistants := upsertAssistantSnapshot state.streamingAssistants streamId message entryId }
  | .messageUpdate (some message) streamId _ =>
    { state with streamingAssistants := upsertAssistantSnapshot state.streamingAssistants streamId message none }
  | .messageUpdate none streamId step =>
    { state with streamingAssistants := applyAssistantDelta state.streamingAssistants streamId step }
  | .toolExecutionStart toolCallId =>
    if (state.toolExecutions.lookup toolCallId).isSome then state
    else { state with
      toolExecutions := setToolExecution state.toolExecutions toolCallId ⟨.running, none, none⟩ }
  | .toolExecutionUpdate toolCallId partialResult =>
    if (state.toolExecutions.lookup toolCallId).any (·.status = .done) then state
    else { state with
      toolExecutions := setToolExecution state.toolExecutions toolCallId ⟨.running, partialResult, none⟩ }
  | .toolExecutionEnd toolCallId result isError =>
    { state with toolExecutions := setToolExecution state.toolExecutions toolCallId ⟨.done, result, isError⟩ }
  | .agentEnd messages error =>
    { state with
      streamingAssistants := []
      toolExecutions := []
      errorMessage := error.getD (((messages.bind lastFailure)).getD state.errorMessage) }
  | .compactionStart => { state with isCompacting := true }
  | .compactionEnd errorMessage =>
    { state with
      isCompacting := false, errorMessage := (errorMessage.filter (· ≠ "")).getD state.errorMessage }
  | .entryAdded _ => state
  | .autoRetryStart attempt maxAttempts errorMessage =>
    { state with errorMessage := s!"Retrying ({attempt}/{maxAttempts})… {errorMessage}" }
  | .autoRetryEnd success finalError =>
    { state with
      errorMessage := if success then "" else (finalError.filter (· ≠ "")).getD "All retry attempts failed" }

end Reins.Chat
