import Reins.Frontend.TranscriptPages

/-!
# Syncs of a session (`conversations-store.ts`, `active-session-store.ts`)

One session, as it is stored and as a browser holds it. Entries reach the browser as events, any of which may be
lost, and as the pages it asks for: a sync asks for the last page, then for what follows the last entry it has
read, page after page; a sync called while another is in flight joins it. Requests are answered and answers
arrive one step each, so anything can come in between. The store of the session that is viewed calls a sync when
the session's activity ends, and ends the run when that sync has succeeded.
-/

namespace Reins.MessageSyncs

open Chat Conversations
open Store (ConversationEntry)

/-- A call of `syncMessages` that is not resolved. -/
structure Caller where
  stored : List ConversationEntry
  /-- It is `handleSessionCacheUpdate`'s. -/
  endsRun : Bool

structure Answer where
  page : MessageRecordPage Nat
  stored : List ConversationEntry

/-- `fetchMessageTail` in its loop. -/
structure Sync where
  after : Option Nat
  answer : Option Answer
  callers : List Caller

/-- `loadEarlierMessages` waiting. -/
structure Load where
  before : Nat
  answer : Option Answer

structure State where
  stored : List ConversationEntry
  conversation : Conversation Nat
  sync : Option Sync
  loads : List Load
  /-- The session's activity is `running`, as cached. -/
  running : Bool
  /-- `_lastKnownRunning` of the active session's store, while it is this session's. -/
  active : Option Bool
  /-- The entries of the pages loaded since the conversation was pruned. -/
  loaded : List ConversationEntry
  /-- The message an overlay's last snapshot was of. -/
  shown : StreamId → Option Nat
  savedAs : Nat → Option EntryId

def State.init : State := ⟨[], .pruned Nat, none, [], false, none, [], fun _ => none, fun _ => none⟩

def State.held (s : State) : List ConversationEntry := s.conversation.state.entries

def State.overlays (s : State) : List StreamingAssistant := s.conversation.state.streamingAssistants

structure Aside where
  patch : ConversationUpdate Nat
  entries : patch.entries = none
  previousCursor : patch.previousCursor = none
  latestCursor : patch.latestCursor = none
  streamingAssistants : patch.streamingAssistants = none

inductive Event
  | stored (entry : ConversationEntry) (message : Option Nat)
  | entryReceived (place seq : Nat)
  | chatReceived (event : ChatEvent ConversationEntry) (seq message : Nat)
  | syncCalled
  | syncAnswered (page : MessageRecordPage Nat)
  | syncMerged (restoreError : Bool)
  | syncFailed
  | earlierCalled
  | earlierAnswered (load : Nat) (page : MessageRecordPage Nat)
  | earlierMerged (load : Nat)
  | earlierFailed (load : Nat)
  | opened
  | disposed
  | cacheUpdated (running : Bool)
  | pruned
  | patched (aside : Aside)

section

variable (locale : Collation)

def State.change (s : State) (f : ConversationState Nat → ConversationState Nat) : State :=
  { s with conversation := { s.conversation with state := f s.conversation.state } }

/-- `syncMessages`: a call joins the sync in flight. -/
def State.syncMessages (s : State) (endsRun : Bool) : State :=
  let caller : Caller := ⟨s.stored, endsRun⟩
  match s.sync with
  | some sync => { s with sync := some { sync with callers := sync.callers ++ [caller] } }
  | none => { s with sync := some ⟨s.conversation.state.latestCursor, none, [caller]⟩ }

def State.merge (s : State) (page : MessageRecordPage Nat) (earlier restoreError : Bool) : State :=
  { s.change (·.mergeMessages locale page earlier restoreError) with loaded := s.loaded ++ page.items }

def State.arrived (s : State) : Option (Option Nat × Answer × List Caller) :=
  s.sync.bind fun sync => sync.answer.map fun answer => (sync.after, answer, sync.callers)

def State.synced (s : State) (callers : List Caller) : State :=
  if callers.any (·.endsRun) && !s.running then { s.change (·.endRun locale) with sync := none }
  else { s with sync := none }

def State.syncMerged (s : State) (restoreError : Bool) : State :=
  match s.arrived with
  | none => s
  | some (after, answer, callers) =>
    let s := s.merge locale answer.page false restoreError
    if !answer.page.hasNextPage then s.synced locale callers
    else if answer.page.endCursor = none ∨ answer.page.endCursor = after then { s with sync := none }
    else { s with sync := some ⟨answer.page.endCursor, none, callers⟩ }

def State.earlierMerged (s : State) (load : Nat) : State :=
  match s.loads[load]? with
  | some ⟨_, some answer⟩ => { s.merge locale answer.page true false with loads := s.loads.eraseIdx load }
  | _ => s

def State.clearCompacting (s : State) : State :=
  if s.conversation.state.isCompacting then
    s.change (·.update locale { noUpdate Nat with isCompacting := some false })
  else s

def State.handleSessionCacheUpdate (s : State) : State :=
  match s.active with
  | none => s
  | some wasRunning =>
    let hadStreamingState := s.overlays ≠ [] ∨ s.conversation.state.isCompacting = true
    let s := { s with active := some s.running }
    if s.running then s
    else if wasRunning = true ∨ hadStreamingState then (s.clearCompacting locale).syncMessages true
    else s.clearCompacting locale

def step (s : State) : Event → State
  | .stored entry message =>
    if ∀ e ∈ s.stored, e.seq < entry.seq ∧ e.id ≠ entry.id then
      { s with
        stored := s.stored ++ [entry]
        savedAs := fun m => if message = some m then some entry.id else s.savedAs m }
    else s
  | .entryReceived place seq =>
    match s.stored[place]? with
    | some entry => { s with conversation := s.conversation.applyEvent locale (.entryAdded entry) seq }
    | none => s
  | .chatReceived (.entryAdded _) _ _ => s
  | .chatReceived event seq message =>
    { s with
      conversation := s.conversation.applyEvent locale event seq
      shown := fun streamId => if event.keyframeOf = some streamId then some message else s.shown streamId }
  | .syncCalled => s.syncMessages false
  | .syncAnswered page =>
    match s.sync with
    | some ⟨after, none, callers⟩ => { s with sync := some ⟨after, some ⟨page, s.stored⟩, callers⟩ }
    | _ => s
  | .syncMerged restoreError => s.syncMerged locale restoreError
  | .syncFailed => { s with sync := none }
  | .earlierCalled =>
    match s.conversation.state.previousCursor with
    | some before => { s with loads := s.loads ++ [⟨before, none⟩] }
    | none => s
  | .earlierAnswered load page =>
    match s.loads[load]? with
    | some ⟨before, none⟩ => { s with loads := s.loads.set load ⟨before, some ⟨page, s.stored⟩⟩ }
    | _ => s
  | .earlierMerged load => s.earlierMerged locale load
  | .earlierFailed load => { s with loads := s.loads.eraseIdx load }
  | .opened =>
    let s := { s with active := some s.running }
    (if s.running then s else s.clearCompacting locale).syncMessages false
  | .disposed =>
    { s with
      active := none
      sync := s.sync.map fun sync => { sync with callers := sync.callers.map fun c => { c with endsRun := false } } }
  | .cacheUpdated running => { s with running := running }.handleSessionCacheUpdate locale
  | .pruned => { s with conversation := .pruned Nat, loaded := [] }
  | .patched aside => s.change (·.update locale aside.patch)

end

def ServerAnswers (s : State) : Event → Prop
  | .syncAnswered page => ∀ sync, s.sync = some sync → TailPage s.stored sync.after page
  | .earlierAnswered load page => ∀ l, s.loads[load]? = some l → EarlierPage s.stored l.before page
  | _ => True

end Reins.MessageSyncs
