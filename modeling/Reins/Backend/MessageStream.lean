import Reins.Frontend.ChatState

/-!
# Streaming messages (`subscribe`, `messageUpdate`, `backend/src/session-runtime/pi-runtime.ts`)

A runtime hears Pi's steps of a message and sends each on without Pi's snapshot, and with the whole message
as a keyframe on a stream's first update, on every block's start, and when the last keyframe is a while ago.
The content of a keyframe is built from the steps; the snapshot gives only what a step does not carry. A
stream is named by its run and by a count that starts over with every runtime.
-/

namespace Reins.Streams

open Chat

def ofMessage {Entry : Type} : ChatEvent Entry → Bool
  | .messageStart .. | .messageUpdate .. | .messageEnd .. => true
  | _ => false

inductive HarnessEvent (Entry : Type)
  | messageStart (runId : Option String) (message : AgentMessage)
  /-- `message` is Pi's own, which can be ahead of the step. -/
  | messageUpdate (runId : Option String) (message : AgentMessage) (event : AssistantStreamEvent)
  | messageEnd (runId : Option String) (message : AgentMessage) (entryId : Option EntryId)
  /-- One that is of no message, as it is sent on. -/
  | other (event : ChatEvent Entry)

structure MessageStream where
  keyframeAt : Option Nat
  content : Content

/-- `content[index] = block`, with holes before it where the array is shorter. -/
def setBlock (content : Content) (index : Nat) (block : Block) : Content :=
  if index < content.length then content.set index (some block)
  else content ++ List.replicate (index - content.length) none ++ [some block]

/-- `snapshotBlock`, and `streamBlock`: none where it throws. -/
def blockAt (content : Content) (index : Nat) : Option Block := content[index]?.join

def isBlockStart : AssistantStreamEvent → Bool
  | .textStart _ | .thinkingStart _ | .toolcallStart _ => true
  | _ => false

/-- One step with Pi's semantics; none where it throws. -/
def applyStreamStep (content : Content) (step : AssistantStreamEvent) (message : AgentMessage) : Option Content :=
  match step with
  | .textStart i => (blockAt message.content i).map fun b => setBlock content i { b with text := some "" }
  | .thinkingStart i => (blockAt message.content i).map fun b => setBlock content i { b with thinking := some "" }
  | .toolcallStart i =>
    (blockAt message.content i).map fun b =>
      setBlock content i { b with arguments := some (.obj []), partialJson := some "" }
  | .textDelta i delta =>
    (blockAt content i).map fun b => setBlock content i { b with text := some (shown b.text ++ delta) }
  | .thinkingDelta i delta =>
    (blockAt content i).map fun b => setBlock content i { b with thinking := some (shown b.thinking ++ delta) }
  | .toolcallDelta i delta =>
    (blockAt content i).map fun b => setBlock content i { b with partialJson := some (b.partialJson.getD "" ++ delta) }
  | .textEnd i text => (blockAt message.content i).map fun b => setBlock content i { b with text := some text }
  | .thinkingEnd i thinking =>
    (blockAt message.content i).map fun b => setBlock content i { b with thinking := some thinking }
  | .toolcallEnd i toolCall => some (setBlock content i toolCall)

/-- What `subscribe` keeps. -/
structure Subscription where
  activeStreams : String → Option StreamId
  messageStreams : StreamId → Option MessageStream
  nextStream : Nat

def Subscription.init : Subscription := ⟨fun _ => none, fun _ => none, 1⟩

def streamKey (runId : Option String) : String := runId.getD "unscoped"

def Subscription.streamOf (s : Subscription) (runId : Option String) (starts : Bool) : StreamId :=
  ((s.activeStreams (streamKey runId)).filter fun _ => !starts).getD (streamKey runId ++ ":" ++ toString s.nextStream)

def Subscription.opened (s : Subscription) (runId : Option String) (starts : Bool) : Subscription :=
  match (s.activeStreams (streamKey runId)).filter fun _ => !starts with
  | some _ => s
  | none =>
    { s with
      activeStreams := Function.update s.activeStreams (streamKey runId) (some (s.streamOf runId starts))
      nextStream := s.nextStream + 1 }

def Subscription.stream (s : Subscription) (streamId : StreamId) : MessageStream :=
  (s.messageStreams streamId).getD ⟨none, []⟩

def Subscription.setStream (s : Subscription) (streamId : StreamId) (stream : Option MessageStream) :
    Subscription := { s with messageStreams := Function.update s.messageStreams streamId stream }

section

-- The keyframe interval, and the monotonic clock.
variable (intervalMs now : Nat) {Entry : Type}

def MessageStream.keyframe (stream : MessageStream) (step : AssistantStreamEvent) : Bool :=
  stream.keyframeAt.all (fun at' => at' + intervalMs ≤ now) || isBlockStart step

def MessageStream.after (stream : MessageStream) (step : AssistantStreamEvent) (content : Content) :
    MessageStream := ⟨if stream.keyframe intervalMs now step then some now else stream.keyframeAt, content⟩

def messageUpdate (stream : MessageStream) (message : AgentMessage) (step : AssistantStreamEvent)
    (streamId : StreamId) (content : Content) : ChatEvent Entry :=
  .messageUpdate (if stream.keyframe intervalMs now step then some { message with content := content } else none)
    streamId step

/-- What the runtime sends on, if it sends anything, and what it then keeps. -/
def Subscription.emit (s : Subscription) : HarnessEvent Entry → Subscription × Option (ChatEvent Entry)
  | .messageStart runId message =>
    let streamId := s.streamOf runId true
    ((s.opened runId true).setStream streamId (some ⟨none, []⟩), some (.messageStart message streamId))
  | .messageUpdate runId message step =>
    let streamId := s.streamOf runId false
    let stream := s.stream streamId
    match applyStreamStep stream.content step message with
    | some content =>
      ((s.opened runId false).setStream streamId (some (stream.after intervalMs now step content)),
        some (messageUpdate intervalMs now stream message step streamId content))
    | none => ((s.opened runId false).setStream streamId (some stream), none)
  | .messageEnd runId message entryId =>
    let streamId := s.streamOf runId false
    let ended := (s.opened runId false).setStream streamId none
    ({ ended with activeStreams := Function.update ended.activeStreams (streamKey runId) none },
      some (.messageEnd message streamId entryId))
  | .other event => (s, if ofMessage event then none else some event)

end

end Reins.Streams
