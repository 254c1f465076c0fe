import Reins.Backend.MessagesStore
import Reins.Frontend.ChatState

/-!
# The messages a conversation displays (`frontend/src/models/message.ts`)

Saved entries and live overlays are shown through one kind of message. A tool call shows its saved result, which is
looked up once when the messages are built, or else its live state, which is put on built messages: a message none of
whose calls would show another state stays the object it is. An object is known by the step that made it.
-/

namespace Reins.Messages

open List

open Chat (AgentMessage Block EntryId StreamingAssistant ToolExecution)
open Store (ContentBlock)

inductive RawMessage
  | saved (message : Store.Message)
  | live (message : AgentMessage)

inductive RawBlock
  | saved (block : ContentBlock)
  | live (block : Option Block)

def RawMessage.content : RawMessage → List RawBlock
  | .saved (.user content ..) | .saved (.assistant content ..) | .saved (.toolResult _ _ content ..) =>
    content.map .saved
  | .saved (.compactionSummary ..) => []
  | .live message => message.content.map .live

/-- The id of a tool call; a member that is missing is looked up as it is written. -/
def RawBlock.callId : RawBlock → Option String
  | .saved (.toolCall id ..) => some id
  | .live (some block) => if block.type = .toolCall then some (Chat.shown block.id) else none
  | _ => none

structure MessageIdentity where
  entryId : Option EntryId
  parentEntryId : Option EntryId
  renderKey : String

structure MessageSource extends MessageIdentity where
  message : RawMessage

/-- The object that holds a tool call's live state, and the step that made it. -/
structure Execution where
  made : Option Nat
  value : ToolExecution

def RUNNING : Execution := ⟨none, ⟨.running, none, none⟩⟩

def same (a b : Option Execution) : Bool := a.map (·.made) = b.map (·.made)

abbrev ToolExecutionLookup := String → Option Execution

abbrev ToolResults := String → Option Store.Message

/-- A block of an assistant's content; only a tool call has a result or an execution. -/
structure AssistantConversationBlock where
  raw : RawBlock
  result : Option Store.Message
  execution : Option Execution

inductive Role
  | user
  | sessionUpdate
  | assistant
  | compactionSummary
  deriving DecidableEq

structure Message where
  made : Nat
  role : Role
  raw : RawMessage
  identity : MessageIdentity
  streaming : Bool
  blocks : List AssistantConversationBlock

def Message.isAssistant (m : Message) : Bool := m.role = .assistant

def assistantMessage (made : Nat) (raw : RawMessage) (identity : MessageIdentity) (streaming : Bool)
    (toolResults : ToolResults) (executionOf : ToolExecutionLookup) : Message :=
  { made, role := .assistant, raw, identity, streaming
    blocks := raw.content.map fun block => ⟨block, block.callId.bind toolResults, block.callId.bind executionOf⟩ }

def resultsOf (blocks : List AssistantConversationBlock) : ToolResults := fun id =>
  (blocks.reverse.find? fun block => block.raw.callId = some id && block.result.isSome).bind (·.result)

def Message.showsSame (m : Message) (executionOf : ToolExecutionLookup) : Bool :=
  m.blocks.all fun block => block.raw.callId.all fun id => block.result.isSome || same block.execution (executionOf id)

def Message.withExecutions (m : Message) (executionOf : ToolExecutionLookup) (made : Nat) : Message :=
  if m.showsSame executionOf then m
  else assistantMessage made m.raw m.identity m.streaming (resultsOf m.blocks) executionOf

def toolResultOf (sources : List MessageSource) : ToolResults := fun id =>
  sources.reverse.findSome? fun source =>
    match source.message with
    | .saved (.toolResult toolCallId toolName content isError timestamp) =>
      if toolCallId = id then some (.toolResult toolCallId toolName content isError timestamp) else none
    | _ => none

def isSessionUpdate (metadata : Store.Metadata) : Bool :=
  match metadata.lookup "sourceSessionId" with
  | some (.str id) => !id.isEmpty
  | _ => false

def buildMessage (made : Nat) (toolResults : ToolResults) (source : MessageSource) : Option Message :=
  match source.message with
  | .saved (.user _ metadata _) =>
    some ⟨made, if isSessionUpdate metadata then .sessionUpdate else .user, source.message, source.toMessageIdentity,
      false, []⟩
  | .live _ => some ⟨made, .user, source.message, source.toMessageIdentity, false, []⟩
  | .saved (.assistant ..) =>
    some (assistantMessage made source.message source.toMessageIdentity false toolResults fun _ => none)
  | .saved (.compactionSummary ..) =>
    some ⟨made, .compactionSummary, source.message, source.toMessageIdentity, false, []⟩
  | .saved (.toolResult ..) => none

def buildMessages (made : Nat) (sources : List MessageSource) : List Message :=
  sources.filterMap (buildMessage made (toolResultOf sources))

/-- What a message's calls show live, with the messages after it: while the session runs, the latest assistant's
calls run too. -/
def liveState (executions : ToolExecutionLookup) (running : Bool) (rest : List Message) : ToolExecutionLookup :=
  fun id => executions id <|> if running && !rest.any (·.isAssistant) then some RUNNING else none

def applyToolExecutions (executions : ToolExecutionLookup) (running : Bool) (made : Nat) : List Message → List Message
  | [] => []
  | m :: rest =>
    (if m.isAssistant then m.withExecutions (liveState executions running rest) made else m) ::
      applyToolExecutions executions running made rest

def buildStreamingMessages (made : Nat) (assistants : List StreamingAssistant) (executions : ToolExecutionLookup) :
    List Message :=
  assistants.map fun assistant =>
    assistantMessage made (.live assistant.message) ⟨none, none, "streaming-assistant-" ++ assistant.streamId⟩ true
      (fun _ => none) executions

/-! ## What a message shows -/

/-- A call with a saved result shows that; the execution it holds besides is not read. -/
structure ShownBlock where
  raw : RawBlock
  result : Option Store.Message
  execution : Option ToolExecution

def AssistantConversationBlock.shown (block : AssistantConversationBlock) : ShownBlock :=
  ⟨block.raw, block.result, if block.result.isSome then none else block.execution.map (·.value)⟩

structure ShownMessage where
  role : Role
  raw : RawMessage
  identity : MessageIdentity
  streaming : Bool
  blocks : List ShownBlock

def Message.shown (m : Message) : ShownMessage := { m with blocks := m.blocks.map (·.shown) }

/-! ## Messages without their live state -/

structure BareMessage where
  role : Role
  raw : RawMessage
  identity : MessageIdentity
  streaming : Bool
  blocks : List (RawBlock × Option Store.Message)

def Message.bare (m : Message) : BareMessage :=
  { m with blocks := m.blocks.map fun block => (block.raw, block.result) }

/-- As it is shown with other live state. -/
def BareMessage.showing (m : BareMessage) (executionOf : ToolExecutionLookup) : ShownMessage :=
  { m with blocks := m.blocks.map fun block =>
    ⟨block.1, block.2, if block.2.isSome then none else (block.1.callId.bind executionOf).map (·.value)⟩ }

def BareMessage.Built (m : BareMessage) : Prop :=
  if m.role = .assistant then ∃ results : ToolResults,
    m.blocks = m.raw.content.map fun block => (block, block.callId.bind results)
  else m.blocks = []

/-- What the calls of a message hold is what the state has under the same object, or what all share. -/
def Message.Known (m : Message) (executions : ToolExecutionLookup) : Prop :=
  ∀ block ∈ m.blocks, (block.raw.callId = none → block.execution = none) ∧
    ∀ id, block.raw.callId = some id → ∀ x, block.execution = some x →
      (x.made = none → x = RUNNING) ∧ ∀ y, executions id = some y → x.made = y.made → x = y

section

variable {m m' : Message} {executions executionOf : ToolExecutionLookup} {running : Bool} {made made' : Nat}

theorem bare_assistantMessage (made : Nat) (raw : RawMessage) (identity : MessageIdentity) (streaming : Bool)
    (toolResults : ToolResults) (executionOf : ToolExecutionLookup) :
    (assistantMessage made raw identity streaming toolResults executionOf).bare =
      ⟨.assistant, raw, identity, streaming, raw.content.map fun block => (block, block.callId.bind toolResults)⟩ := by
  simp [Message.bare, assistantMessage]

theorem built_buildMessage {toolResults : ToolResults} {source : MessageSource}
    (h : buildMessage made toolResults source = some m) : m.bare.Built := by
  unfold buildMessage at h
  split at h
  · cases h
    unfold BareMessage.Built
    rw [if_neg]
    · rfl
    · simp only [Message.bare]
      split <;> simp
  · cases h
    rfl
  · cases h
    rw [bare_assistantMessage]
    exact ⟨toolResults, rfl⟩
  · cases h
    rfl
  · cases h

theorem bare_buildMessage (toolResults : ToolResults) (source : MessageSource) :
    (buildMessage made toolResults source).map (·.bare) = (buildMessage made' toolResults source).map (·.bare) := by
  unfold buildMessage
  split <;> rfl

theorem bare_buildMessages (made made' : Nat) (sources : List MessageSource) :
    (buildMessages made sources).map (·.bare) = (buildMessages made' sources).map (·.bare) := by
  unfold buildMessages
  rw [map_filterMap, map_filterMap]
  exact filterMap_congr fun source _ => bare_buildMessage (toolResultOf sources) source

theorem built_buildMessages {sources : List MessageSource} (h : m ∈ buildMessages made sources) : m.bare.Built := by
  obtain ⟨source, _, hsource⟩ := mem_filterMap.mp h
  exact built_buildMessage hsource

theorem execution_buildMessages {sources : List MessageSource} (h : m ∈ buildMessages made sources)
    {block : AssistantConversationBlock} (hblock : block ∈ m.blocks) : block.execution = none := by
  obtain ⟨source, _, hsource⟩ := mem_filterMap.mp h
  unfold buildMessage at hsource
  split at hsource
  · cases hsource
    cases hblock
  · cases hsource
    cases hblock
  · cases hsource
    obtain ⟨raw, _, rfl⟩ := mem_map.mp hblock
    cases raw.callId <;> rfl
  · cases hsource
    cases hblock
  · cases hsource

theorem known_buildMessages {sources : List MessageSource} (h : m ∈ buildMessages made sources)
    (executions : ToolExecutionLookup) : m.Known executions := by
  intro block hblock
  refine ⟨fun _ => execution_buildMessages h hblock, fun id _ x hx => ?_⟩
  rw [execution_buildMessages h hblock] at hx
  cases hx

theorem resultsOf_built (h : m.bare.Built) (hrole : m.role = .assistant) :
    m.raw.content.map (fun block => (block, block.callId.bind (resultsOf m.blocks))) = m.bare.blocks := by
  unfold BareMessage.Built at h
  rw [if_pos (show m.bare.role = .assistant from hrole)] at h
  obtain ⟨results, hresults⟩ := h
  rw [hresults]
  have hblock : ∀ block ∈ m.blocks, block.result = block.raw.callId.bind results := by
    intro block hblock
    have hmem : (block.raw, block.result) ∈ m.bare.blocks := mem_map_of_mem hblock
    rw [hresults] at hmem
    obtain ⟨raw, _, heq⟩ := mem_map.mp hmem
    obtain ⟨rfl, hresult⟩ := Prod.mk.inj heq
    exact hresult.symm
  refine map_congr_left fun raw hraw => ?_
  refine congrArg (Prod.mk raw) ?_
  cases hid : raw.callId with
  | none => rfl
  | some id =>
    simp only [Option.bind_some]
    unfold resultsOf
    cases hfind : m.blocks.reverse.find? fun block => block.raw.callId = some id && block.result.isSome with
    | some block =>
      have hmem : block ∈ m.blocks := mem_reverse.mp (mem_of_find?_eq_some hfind)
      have hcall := find?_some hfind
      rw [Bool.and_eq_true, decide_eq_true_iff] at hcall
      rw [Option.bind_some, hblock block hmem, hcall.1, Option.bind_some]
    | none =>
      -- a block of this content has no result, and the id none
      have hmem : (raw, results id) ∈ m.bare.blocks := by
        rw [hresults]
        refine mem_map.mpr ⟨raw, hraw, ?_⟩
        show (raw, raw.callId.bind results) = _
        rw [hid, Option.bind_some]
      obtain ⟨block, hblock', heq⟩ := mem_map.mp hmem
      have hnone := find?_eq_none.mp hfind block (mem_reverse.mpr hblock')
      obtain ⟨hraw', hresult⟩ := Prod.mk.inj heq
      have hresult' : block.result = none := by simpa [hraw', hid] using hnone
      rw [← hresult, hresult']
      rfl

theorem bare_withExecutions (h : m.bare.Built) (hrole : m.role = .assistant) (executionOf : ToolExecutionLookup)
    (made : Nat) : (m.withExecutions executionOf made).bare = m.bare := by
  unfold Message.withExecutions
  split
  · rfl
  · rw [bare_assistantMessage, resultsOf_built h hrole]
    simp [Message.bare, hrole]

/-- With other live state a message is shown as it is with that state put on it. -/
theorem shown_withExecutions (h : m.bare.Built) (hrole : m.role = .assistant)
    (hnone : ∀ block ∈ m.blocks, block.raw.callId = none → block.execution = none)
    (hsame : ∀ block ∈ m.blocks, ∀ id, block.raw.callId = some id → same block.execution (executionOf id) = true →
      block.execution = executionOf id) (made : Nat) :
    (m.withExecutions executionOf made).shown = m.bare.showing executionOf := by
  unfold Message.withExecutions
  split
  next hshows =>
    have hblocks : m.blocks.map (·.shown) = (m.bare.showing executionOf).blocks := by
      simp only [BareMessage.showing, Message.bare, map_map]
      refine map_congr_left fun block hblock => ?_
      have hall := all_eq_true.mp hshows block hblock
      simp only [AssistantConversationBlock.shown, Function.comp]
      cases hid : block.raw.callId with
      | none => rw [hnone block hblock hid, Option.bind_none]
      | some id =>
        rw [hid, Option.all_some, Bool.or_eq_true] at hall
        rcases hall with hresult | hexecution
        · simp [hresult]
        · rw [hsame block hblock id hid hexecution, Option.bind_some]
    rw [Message.shown, hblocks]
    rfl
  · have hbuilt := resultsOf_built h hrole
    unfold BareMessage.showing
    rw [← hbuilt]
    simp only [Message.shown, assistantMessage, AssistantConversationBlock.shown, map_map]
    rw [← hrole]
    rfl

/-! ## Live state put on messages -/

theorem same_iff {a b : Option Execution} : same a b = true ↔ a.map (·.made) = b.map (·.made) := decide_eq_true_iff

theorem Message.Known.same (h : m.Known executions) (running : Bool) (rest : List Message)
    {block : AssistantConversationBlock} (hblock : block ∈ m.blocks) {id : String} (hid : block.raw.callId = some id)
    (hsame : same block.execution (liveState executions running rest id) = true) :
    block.execution = liveState executions running rest id := by
  rw [same_iff] at hsame
  cases hx : block.execution with
  | none =>
    rw [hx] at hsame
    exact (Option.map_eq_none_iff.mp hsame.symm).symm
  | some x =>
    obtain ⟨hshared, hknown⟩ := (h block hblock).2 id hid x hx
    rw [hx] at hsame
    obtain ⟨y, hy, hmade⟩ := Option.map_eq_some_iff.mp hsame.symm
    rw [hy]
    unfold liveState at hy
    cases hexecution : executions id with
    | some z =>
      rw [hexecution] at hy
      cases hy
      rw [hknown y hexecution hmade.symm]
    | none =>
      rw [hexecution] at hy
      have hy : y = RUNNING := by
        have hy' : (if running && !rest.any (·.isAssistant) then some RUNNING else none) = some y := hy
        split at hy'
        · exact (Option.some_inj.mp hy').symm
        · cases hy'
      have hnone : x.made = none := by
        rw [hy] at hmade
        exact hmade.symm
      rw [hy, hshared hnone]

theorem bare_applyToolExecutions {messages : List Message} (h : ∀ m ∈ messages, m.bare.Built) :
    (applyToolExecutions executions running made messages).map (·.bare) = messages.map (·.bare) := by
  induction messages with
  | nil => rfl
  | cons m rest ih =>
    rw [applyToolExecutions, map_cons, map_cons, ih fun m' hm' => h m' (mem_cons_of_mem _ hm')]
    congr 1
    split
    next hassistant =>
      exact bare_withExecutions (h m mem_cons_self) (of_decide_eq_true hassistant) _ made
    · rfl

def showing (executions : ToolExecutionLookup) (running : Bool) : List BareMessage → List ShownMessage
  | [] => []
  | m :: rest =>
    (if m.role = .assistant then
      m.showing fun id => executions id <|> if running && !rest.any (·.role = .assistant) then some RUNNING else none
    else m.showing fun _ => none) :: showing executions running rest

theorem shown_applyToolExecutions {messages : List Message} (hbuilt : ∀ m ∈ messages, m.bare.Built)
    (hknown : ∀ m ∈ messages, m.Known executions) :
    (applyToolExecutions executions running made messages).map (·.shown) =
      showing executions running (messages.map (·.bare)) := by
  induction messages with
  | nil => rfl
  | cons m rest ih =>
    have hm := hbuilt m mem_cons_self
    rw [applyToolExecutions, map_cons, map_cons, showing,
      ih (fun m' hm' => hbuilt m' (mem_cons_of_mem _ hm')) fun m' hm' => hknown m' (mem_cons_of_mem _ hm')]
    congr 1
    by_cases hrole : m.role = .assistant
    · rw [if_pos (show m.isAssistant = true from decide_eq_true hrole), if_pos (show m.bare.role = .assistant from hrole)]
      have hlive : (fun id => executions id <|>
          if running && !(rest.map (·.bare)).any (·.role = .assistant) then some RUNNING else none) =
            liveState executions running rest := by
        unfold liveState
        rw [any_map]
        rfl
      rw [hlive]
      exact shown_withExecutions hm hrole (fun block hblock => (hknown m mem_cons_self block hblock).1)
        (fun block hblock id hid => (hknown m mem_cons_self).same running rest hblock hid) made
    · rw [if_neg (show ¬m.isAssistant = true from fun h => hrole (of_decide_eq_true h)),
        if_neg (show ¬m.bare.role = .assistant from hrole)]
      unfold BareMessage.Built at hm
      rw [if_neg (show ¬m.bare.role = .assistant from hrole)] at hm
      have hblocks : m.blocks = [] := map_eq_nil_iff.mp hm
      simp [Message.shown, BareMessage.showing, Message.bare, hblocks]

/-- What is shown does not tell which object holds the live state. -/
theorem showing_congr {executions executions' : ToolExecutionLookup}
    (h : ∀ id, (executions id).map (·.value) = (executions' id).map (·.value)) (running : Bool)
    (messages : List BareMessage) : showing executions running messages = showing executions' running messages := by
  induction messages with
  | nil => rfl
  | cons m rest ih =>
    have hlive : ∀ (latest : Option Execution) (id : String),
        (executions id <|> latest).map (·.value) = (executions' id <|> latest).map (·.value) := by
      intro latest id
      have hid := h id
      cases he : executions id with
      | none =>
        rw [he, Option.map_none] at hid
        rw [Option.map_eq_none_iff.mp hid.symm]
      | some x =>
        rw [he, Option.map_some] at hid
        obtain ⟨y, hy, hvalue⟩ := Option.map_eq_some_iff.mp hid.symm
        rw [hy]
        exact congrArg some hvalue.symm
    have hshowing : ∀ latest : Option Execution, m.showing (fun id => executions id <|> latest) =
        m.showing fun id => executions' id <|> latest := by
      intro latest
      unfold BareMessage.showing
      congr 1
      refine map_congr_left fun block _ => ?_
      cases block.1.callId with
      | none => rfl
      | some id => rw [Option.bind_some, Option.bind_some, hlive latest id]
    rw [showing, showing, ih, hshowing]

theorem known_applyToolExecutions {messages : List Message} (hmade : ∀ id x, executions id = some x → x.made ≠ none)
    (h : ∀ m ∈ messages, m.Known executions) :
    ∀ m ∈ applyToolExecutions executions running made messages, m.Known executions := by
  induction messages with
  | nil => exact fun _ => nofun
  | cons m rest ih =>
    intro m' hm'
    rcases mem_cons.mp hm' with rfl | hm'
    · split
      · unfold Message.withExecutions
        split
        · exact h m mem_cons_self
        intro block hblock
        obtain ⟨raw, _, rfl⟩ := mem_map.mp hblock
        refine ⟨fun hid => by simp only at hid; rw [hid]; rfl, fun id hid x hx => ?_⟩
        simp only at hid hx
        rw [hid, Option.bind_some, liveState] at hx
        cases hexecution : executions id with
        | some y =>
          rw [hexecution] at hx
          cases hx
          refine ⟨fun hnone => absurd hnone (hmade id x hexecution), fun y hy _ => ?_⟩
          exact Option.some_inj.mp hy
        | none =>
          rw [hexecution] at hx
          refine ⟨fun _ => ?_, nofun⟩
          have hx' : (if running && !rest.any (·.isAssistant) then some RUNNING else none) = some x := hx
          split at hx'
          · exact (Option.some_inj.mp hx').symm
          · cases hx'
      · exact h m mem_cons_self
    · exact ih (fun m'' hm'' => h m'' (mem_cons_of_mem _ hm'')) m' hm'

theorem objects_applyToolExecutions {messages : List Message} {P : Execution → Prop}
    (hexecutions : ∀ id x, executions id = some x → P x) (hshared : P RUNNING)
    (h : ∀ m ∈ messages, ∀ block ∈ m.blocks, ∀ x, block.execution = some x → P x) :
    ∀ m ∈ applyToolExecutions executions running made messages, ∀ block ∈ m.blocks, ∀ x,
      block.execution = some x → P x := by
  induction messages with
  | nil => exact fun _ => nofun
  | cons m rest ih =>
    intro m' hm'
    rcases mem_cons.mp hm' with rfl | hm'
    · split
      · unfold Message.withExecutions
        split
        · exact h m mem_cons_self
        intro block hblock x hx
        obtain ⟨raw, _, rfl⟩ := mem_map.mp hblock
        obtain ⟨id, _, hlive⟩ := Option.bind_eq_some_iff.mp hx
        unfold liveState at hlive
        cases hexecution : executions id with
        | some y =>
          rw [hexecution] at hlive
          cases hlive
          exact hexecutions id x hexecution
        | none =>
          rw [hexecution] at hlive
          have hlive' : (if running && !rest.any (·.isAssistant) then some RUNNING else none) = some x := hlive
          split at hlive'
          · rw [← Option.some_inj.mp hlive']
            exact hshared
          · cases hlive'
      · exact h m mem_cons_self
    · exact ih (fun m'' hm'' => h m'' (mem_cons_of_mem _ hm'')) m' hm'

theorem applyToolExecutions_append (executions : ToolExecutionLookup) (running : Bool) (made : Nat)
    (before rest : List Message) (m : Message)
    (h : m.showsSame (liveState executions running rest) = true) :
    (applyToolExecutions executions running made (before ++ m :: rest))[before.length]? = some m := by
  induction before with
  | nil =>
    rw [nil_append, applyToolExecutions, Message.withExecutions, if_pos h, ite_self]
    rfl
  | cons m' before ih => exact ih

end

end Reins.Messages
