import Reins.NodeProtocol.LocalLink
import Reins.Node.StreamSender

/-!
# Streams, end to end (`backend/src/nodes/node-streams.ts`)

The server's end of a connection's streams, and the two ends with the socket between them. A
stream's frames go through the local link's bytes, among all the other frames the node sends; the
server's peer takes the frames it was handed one after the other. What a consumer has read of a
stream is then the start of what its source gave, and a stream that ended without an error was
delivered whole: each frame accepted at one end is the one taken at the other, in order
(`LocalSocket.Direction.messages`), so both are invariants of one stream's two ends.
-/

open Utf Schema List Function

namespace Reins.NodeStreams

open LocalSocket (Text WriteAnswer Side)

variable {q p : Pump} {l : LocalSocket.Link} {e : StreamEnd} {c : Chunk} {rest : Bytes}

/-! ## A stream's body -/

/-- An `OpenStream` and its `ReadableStream`. `read` and `delivered` log what its consumer has got
and what was enqueued. -/
structure Body where
  registered : Bool
  received : Nat
  queue : List Bytes
  waiting : Nat
  read : Bytes
  delivered : Bytes
  ended : Option (Except JsString (Option ProcessExit))

def Body.fresh : Body :=
  { registered := true, received := 0, queue := [], waiting := 0, read := [], delivered := [],
    ended := none }

/-- `controller.error`, and `settle.reject`. -/
def Body.fail (b : Body) (error : JsString) : Body :=
  { b with registered := false, queue := [], waiting := 0, ended := some (.error error) }

def Body.enqueue (b : Body) (chunk : Bytes) : Body :=
  let b := { b with received := b.received + chunk.length, delivered := b.delivered ++ chunk }
  if 0 < b.waiting then { b with waiting := b.waiting - 1, read := b.read ++ chunk }
  else { b with queue := b.queue ++ [chunk] }

/-- What the queue has over its high-water mark: `desiredSize` is below zero. -/
def Body.exceeds (b : Body) (maxBufferedBytes : Nat) : Bool := maxBufferedBytes < (b.queue.map List.length).sum

def offsetGap (id : StreamId) (expected got : Nat) : JsString :=
  js "Stream " ++ id.val ++ js s!" offset gap: expected byte {expected}, got {got}"

def exceeded (maxBufferedBytes : Nat) : JsString :=
  js s!"Stream exceeded its {maxBufferedBytes}-byte buffer: the consumer is not reading it"

def Body.data (maxBufferedBytes : Nat) (b : Body) (d : StreamData) : Body :=
  if d.offset ≠ b.received then b.fail (offsetGap d.streamId b.received d.offset)
  else if (b.enqueue d.bytes).exceeds maxBufferedBytes then
    (b.enqueue d.bytes).fail (exceeded maxBufferedBytes)
  else b.enqueue d.bytes

def Body.stop (b : Body) (e : StreamEnd) : Body :=
  match e.error with
  | none => { b with registered := false, waiting := 0, ended := some (.ok e.exit) }
  | some error => b.fail error

def Body.take (maxBufferedBytes : Nat) (b : Body) : StreamFrame → Body
  | .data d => if b.registered then b.data maxBufferedBytes d else b
  | .stop e => if b.registered then b.stop e else b

/-- The body's `cancel`, and what it drops. -/
def Body.cancel (b : Body) : Body := if b.registered then b.fail (js "Stream cancelled") else { b with queue := [] }

def Body.pull (b : Body) : Body :=
  match b.queue with
  | chunk :: rest => { b with queue := rest, read := b.read ++ chunk }
  | [] => if b.registered then { b with waiting := b.waiting + 1 } else b

/-- `start` rejects, or the connection closed. -/
def Body.lose (b : Body) (error : JsString) : Body := if b.registered then b.fail error else b

/-! ## Both ends -/

structure System where
  link : LocalSocket.Link
  taken : Nat
  closed : Bool
  bodies : StreamId → Option Body
  pumps : StreamId → Option Pump

def System.fresh : System :=
  { link := .fresh, taken := 0, closed := false, bodies := fun _ => none, pumps := fun _ => none }

/-- What becomes of a frame: the peer does not send it (it is closed, or has not negotiated), or
the stream answers its writes so. -/
structure Sending where
  refused : Bool
  answers : Nat → WriteAnswer

inductive Event
  /-- Anything the socket does, but sending a stream's frame. -/
  | link (e : LocalSocket.Event)
  | opens (id : StreamId)
  | serve (id : StreamId) (binary : Bool)
  | yield (id : StreamId) (item : Item)
  | done (id : StreamId) (exit : Option ProcessExit)
  | throws (id : StreamId) (message : JsString) (sending : Sending)
  /-- `pump` goes on, as far as its next await. -/
  | pump (id : StreamId) (first second : Sending)
  /-- `stream.cancel` arrives, or the node's end of the connection closes. -/
  | abort (id : StreamId)
  /-- `pump` sees it while it waits for its source. -/
  | stop (id : StreamId)
  | take
  | pull (id : StreamId)
  | cancel (id : StreamId)
  | refused (id : StreamId) (error : JsString)
  | close

def otherFrame (t : Text) : Bool := (StreamFrame.ofText t).isNone

def plainReaction : LocalSocket.Socket.Reaction → Bool
  | .send data _ => otherFrame data
  | .close => true

def plain : LocalSocket.Event → Option LocalSocket.Event
  | .send .node data answers => if otherFrame data then some (.send .node data answers) else none
  | .arrive .node size handler => some (.arrive .node size fun ms => (handler ms).filter plainReaction)
  | e => some e

def System.setPump (s : System) (id : StreamId) (p : Pump) : System :=
  { s with pumps := Function.update s.pumps id (some p) }

def System.setBody (s : System) (id : StreamId) (b : Body) : System :=
  { s with bodies := Function.update s.bodies id (some b) }

def System.onBody (s : System) (id : StreamId) (f : Body → Body) : System :=
  match s.bodies id with
  | some b => s.setBody id (f b)
  | none => s

def System.onPump (s : System) (id : StreamId) (f : Pump → Pump) : System :=
  match s.pumps id with
  | some p => s.setPump id (f p)
  | none => s

section

variable (maxFrameBytes maxBufferedBytes : Nat)

def notified (l : LocalSocket.Link) (f : StreamFrame) (sending : Sending) : LocalSocket.Link :=
  if sending.refused then l
  else LocalSocket.step maxFrameBytes l (.send .node f.text sending.answers)

/-- `link.data` and `link.end` return whether the frame was sent. -/
def isSent (l l' : LocalSocket.Link) : Bool := (l.sock .node).accepted.length < (l'.sock .node).accepted.length

/-- The `catch`: a stopped stream sends nothing more. -/
def System.failPump (s : System) (id : StreamId) (p : Pump) (message : JsString) (sending : Sending) : System :=
  let s' := if p.aborted then s
    else { s with link := notified maxFrameBytes s.link (errorFrame id message) sending }
  s'.setPump id { p with aborted := true, phase := .over }

def System.sendChunk (s : System) (id : StreamId) (p : Pump) (c : Chunk) (phase : Phase)
    (first second : Sending) : System :=
  if p.aborted then s.setPump id { p with phase := .over }
  else if c.size = 0 then s.setPump id { p with phase := phase }
  else
    let link := notified maxFrameBytes s.link (p.data id c) first
    if isSent s.link link then { s with link := link }.setPump id (p.sent c phase)
    else { s with link := link }.failPump maxFrameBytes id p (js "Stream chunk could not be sent") second

def System.pump (s : System) (id : StreamId) (p : Pump) (first second : Sending) : System :=
  match p.phase with
  | .sending (piece :: rest) =>
    s.sendChunk maxFrameBytes id (p.chunk piece).1 (p.chunk piece).2 (.sending rest) first second
  | .sending [] => s.setPump id { p with phase := .next }
  | .flushing exit => s.sendChunk maxFrameBytes id p p.lastChunk (.ending exit) first second
  | .ending exit =>
    let s' := if p.aborted then s
      else { s with link := notified maxFrameBytes s.link (endFrame id exit) first }
    s'.setPump id { p with phase := .over }
  | .next | .over => s

def StreamFrame.streamId : StreamFrame → StreamId
  | .data d => d.streamId
  | .stop e => e.streamId

def System.nextFrame (s : System) : Option StreamFrame :=
  ((s.link.sock .server).messages[s.taken]?).bind StreamFrame.ofText

def System.takeNext (s : System) : System :=
  if (s.link.sock .server).messages.length ≤ s.taken then s
  else
    let s' := { s with taken := s.taken + 1 }
    match s.nextFrame with
    | some f => if s.closed then s' else s'.onBody f.streamId fun b => b.take maxBufferedBytes f
    | none => s'

/-- `Node connection closed`, as every stream still open fails with it. -/
def System.close (s : System) : System :=
  { s with
    closed := true,
    bodies := fun id => (s.bodies id).map fun b => b.lose (js "Node connection closed") }

def step (s : System) : Event → System
  | .link e =>
    match plain e with
    | some e => { s with link := LocalSocket.step maxFrameBytes s.link e }
    | none => s
  | .opens id => if s.closed ∨ (s.bodies id).isSome then s else s.setBody id .fresh
  | .serve id binary => if (s.bodies id).isSome ∧ (s.pumps id).isNone then s.setPump id (.start binary) else s
  | .yield id item => s.onPump id fun p => p.yield item
  | .done id exit => s.onPump id fun p => p.done exit
  | .throws id message sending =>
    match s.pumps id with
    | some p =>
      match p.phase with
      | .next => s.failPump maxFrameBytes id p message sending
      | _ => s
    | none => s
  | .pump id first second =>
    match s.pumps id with
    | some p => s.pump maxFrameBytes id p first second
    | none => s
  | .abort id => s.onPump id Pump.abort
  | .stop id => s.onPump id Pump.stop
  | .take => s.takeNext maxBufferedBytes
  | .pull id => s.onBody id Body.pull
  | .cancel id => s.onBody id Body.cancel
  | .refused id error => s.onBody id fun b => b.lose error
  | .close => s.close

def run (es : List Event) : System := Run.exec (step maxFrameBytes maxBufferedBytes) .fresh es

end

/-! ## What the frames carry -/

def StreamFrame.isData : StreamFrame → Bool
  | .data _ => true
  | .stop _ => false

def StreamFrame.bytes : StreamFrame → Bytes
  | .data d => d.bytes
  | .stop _ => []

def payload (fs : List StreamFrame) : Bytes := fs.flatMap StreamFrame.bytes

def framesOf (id : StreamId) (ts : List Text) : List StreamFrame :=
  (ts.filterMap StreamFrame.ofText).filter fun f => f.streamId = id

@[simp] theorem payload_append (fs gs : List StreamFrame) :
    payload (fs ++ gs) = payload fs ++ payload gs := flatMap_append

@[simp] theorem framesOf_append (id : StreamId) (ts us : List Text) :
    framesOf id (ts ++ us) = framesOf id ts ++ framesOf id us := by
  simp [framesOf]

theorem payload_mono {fs gs : List StreamFrame} (h : fs <+: gs) : payload fs <+: payload gs := by
  obtain ⟨more, rfl⟩ := h
  exact ⟨payload more, (payload_append _ _).symm⟩

theorem framesOf_singleton {id : StreamId} {t : Text} {f : StreamFrame} (h : StreamFrame.ofText t = some f) :
    framesOf id [t] = if f.streamId = id then [f] else [] := by
  by_cases hid : f.streamId = id <;> simp [framesOf, h, hid]

theorem framesOf_other {id : StreamId} {ts : List Text}
    (h : ∀ t ∈ ts, StreamFrame.ofText t = none) : framesOf id ts = [] := by
  have : ts.filterMap StreamFrame.ofText = [] := filterMap_eq_nil_iff.mpr h
  rw [framesOf, this, filter_nil]

theorem framesOf_data (i id : StreamId) (d : StreamData) (h : d.streamId = id) : framesOf i [(StreamFrame.data d).text]
      = if id = i ∧ d.Accepted then [.data d] else [] := by
  subst h
  by_cases hi : d.streamId = i <;> by_cases ha : d.Accepted <;>
    simp [framesOf, StreamFrame.ofText_data, ha, hi, StreamFrame.streamId]

theorem framesOf_stop (i : StreamId) (h : ∀ m ∈ e.error, m.length ≤ Rpc.MAX_ERROR_MESSAGE) :
    framesOf i [(StreamFrame.stop e).text] = if e.streamId = i then [.stop e] else [] :=
  framesOf_singleton (StreamFrame.ofText_stop e h)

/-! ## The body's invariant -/

structure BodyOk (b : Body) (fs : List StreamFrame) : Prop where
  running : b.registered = true → b.ended = none ∧ (∀ f ∈ fs, f.isData = true) ∧
    b.delivered = payload fs ∧ b.read ++ b.queue.flatten = b.delivered ∧
    (0 < b.waiting → b.queue = [])
  read : b.read ++ b.queue.flatten <+: b.delivered
  delivered : b.delivered <+: payload fs
  ended : ∀ exit, b.ended = some (.ok exit) → ∃ pre e, pre ++ [.stop e] <+: fs ∧
    (∀ f ∈ pre, f.isData = true) ∧ e.error = none ∧ b.delivered = payload pre

section

variable {b : Body} {fs : List StreamFrame} {maxBufferedBytes : Nat}

theorem BodyOk.fresh : BodyOk .fresh [] := by
  constructor <;> simp [Body.fresh, payload]

theorem BodyOk.later (ok : BodyOk b fs) (h : b.registered = false) (more : List StreamFrame) :
    BodyOk b (fs ++ more) := by
  refine ⟨fun hr => absurd hr (by simp [h]), ok.read,
    ok.delivered.trans (payload_mono (prefix_append _ _)), fun exit he => ?_⟩
  obtain ⟨pre, e, hp, hdata, herr, hdel⟩ := ok.ended exit he
  exact ⟨pre, e, hp.trans (prefix_append _ _), hdata, herr, hdel⟩

theorem BodyOk.fail (ok : BodyOk b fs) (error : JsString) : BodyOk (b.fail error) fs := by
  refine ⟨fun h => absurd h (by simp [Body.fail]), ?_, ok.delivered, fun exit h => absurd h (by simp [Body.fail])⟩
  simp only [Body.fail, flatten_nil, append_nil]
  exact (prefix_append _ _).trans ok.read

theorem BodyOk.lose (ok : BodyOk b fs) (error : JsString) : BodyOk (b.lose error) fs := by
  unfold Body.lose
  split
  · exact ok.fail error
  · exact ok

theorem BodyOk.cancel (ok : BodyOk b fs) : BodyOk b.cancel fs := by
  unfold Body.cancel
  split
  · exact ok.fail _
  rename_i hr
  refine ⟨fun h => absurd h hr, ?_, ok.delivered, ok.ended⟩
  simp only [flatten_nil, append_nil]
  exact (prefix_append _ _).trans ok.read

theorem BodyOk.pull (ok : BodyOk b fs) : BodyOk b.pull fs := by
  unfold Body.pull
  split
  next chunk rest hq =>
    have hmove : (b.read ++ chunk) ++ rest.flatten = b.read ++ b.queue.flatten := by
      rw [hq, flatten_cons, append_assoc]
    refine ⟨fun h => ?_, ?_, ok.delivered, ok.ended⟩
    · obtain ⟨h1, h2, h3, h4, h5⟩ := ok.running h
      refine ⟨h1, h2, h3, hmove.trans h4, fun hw => ?_⟩
      exact absurd (h5 hw) (by simp [hq])
    simp only
    rw [hmove]
    exact ok.read
  next hq =>
    split
    · refine { ok with running := fun h => ?_ }
      obtain ⟨h1, h2, h3, h4, -⟩ := ok.running h
      exact ⟨h1, h2, h3, h4, fun _ => hq⟩
    · exact ok

theorem BodyOk.enqueue (ok : BodyOk b fs) (hr : b.registered = true) (d : StreamData) :
    BodyOk (b.enqueue d.bytes) (fs ++ [.data d]) := by
  obtain ⟨h1, h2, h3, h4, h5⟩ := ok.running hr
  have hpay : b.delivered ++ d.bytes = payload (fs ++ [.data d]) := by
    rw [h3, payload_append]
    simp [payload, StreamFrame.bytes]
  have hdata : ∀ f ∈ fs ++ [.data d], f.isData = true := by
    intro f hf
    rcases Places.mem_concat_cases hf with hf | rfl
    · exact h2 f hf
    · rfl
  have hnot : ∀ exit, b.ended ≠ some (.ok exit) := by simp [h1]
  unfold Body.enqueue
  simp only
  split
  next hw =>
    have hq := h5 hw
    have hread : (b.read ++ d.bytes) ++ b.queue.flatten = b.delivered ++ d.bytes := by
      rw [← h4, hq]
      simp
    exact ⟨fun _ => ⟨h1, hdata, hpay, hread, fun _ => hq⟩, hread ▸ prefix_refl _,
      hpay ▸ prefix_refl _, fun exit he => absurd he (hnot exit)⟩
  next hw =>
    have hread : b.read ++ (b.queue ++ [d.bytes]).flatten = b.delivered ++ d.bytes := by
      rw [← h4]
      simp
    exact ⟨fun _ => ⟨h1, hdata, hpay, hread, fun h => absurd h hw⟩, hread ▸ prefix_refl _,
      hpay ▸ prefix_refl _, fun exit he => absurd he (hnot exit)⟩

theorem BodyOk.data (ok : BodyOk b fs) (hr : b.registered = true) (d : StreamData) :
    BodyOk (b.data maxBufferedBytes d) (fs ++ [.data d]) := by
  unfold Body.data
  split
  · have hfail := ok.fail (offsetGap d.streamId b.received d.offset)
    exact hfail.later rfl _
  split
  · exact (ok.enqueue hr d).fail _
  · exact ok.enqueue hr d

theorem BodyOk.stop (ok : BodyOk b fs) (hr : b.registered = true) (e : StreamEnd) :
    BodyOk (b.stop e) (fs ++ [.stop e]) := by
  obtain ⟨-, h2, h3, h4, -⟩ := ok.running hr
  unfold Body.stop
  split
  next he =>
    refine ⟨fun h => absurd h (by simp), ok.read, ?_, fun exit _ => ?_⟩
    · exact ok.delivered.trans (payload_mono (prefix_append _ _))
    · exact ⟨fs, e, prefix_refl _, h2, he, h3⟩
  · exact (ok.fail _).later rfl _

/-- **A frame is taken.** -/
theorem BodyOk.take (ok : BodyOk b fs) (f : StreamFrame) : BodyOk (b.take maxBufferedBytes f) (fs ++ [f]) := by
  cases f with
  | data d =>
    simp only [Body.take]
    split
    next hr =>
      exact ok.data hr d
    next hr =>
      exact ok.later (by simpa using hr) _
  | stop e =>
    simp only [Body.take]
    split
    next hr =>
      exact ok.stop hr e
    next hr =>
      exact ok.later (by simpa using hr) _

end

/-! ## The pump's invariant -/

def Carries (p : Pump) (sent : Bytes) (out : List StreamFrame) : Prop :=
  ((∀ f ∈ out, f.isData = true) ∧ payload out = sent) ∨
    ∃ pre e, out = pre ++ [.stop e] ∧ (∀ f ∈ pre, f.isData = true) ∧ payload pre = sent ∧ p.phase = .over ∧
      (e.error = none → p.finished = true ∧ sent = streamed p.binary p.source)

/-- Past the largest offset the frame's schema takes nothing is said of the frames. -/
def PumpOk (p : Pump) (out : List StreamFrame) : Prop :=
  ∃ sent, p.Sent sent ∧ p.offset = sent.length ∧ (sent.length ≤ MAX_SAFE_INTEGER → Carries p sent out)

section

variable {p q : Pump} {out : List StreamFrame} {sent : Bytes} {id : StreamId}

theorem PumpOk.start (binary : Bool) : PumpOk (.start binary) [] := by
  refine ⟨[], ?_, rfl, fun _ => Or.inl ⟨by simp, rfl⟩⟩
  cases binary <;> simp [Pump.Sent, Pump.start, Pump.Took]

theorem Carries.running (h : Carries p sent out) (hp : p.phase ≠ .over) :
    (∀ f ∈ out, f.isData = true) ∧ payload out = sent :=
  h.resolve_right fun ⟨_, _, _, _, _, ho, _⟩ => hp ho

theorem PumpOk.turn (ok : PumpOk p out) (hp : p.phase ≠ .over)
    (hsent : ∀ sent, p.Sent sent → q.Sent sent) (hoff : q.offset = p.offset) : PumpOk q out := by
  obtain ⟨sent, hs, ho, hc⟩ := ok
  exact ⟨sent, hsent sent hs, hoff.trans ho, fun h => Or.inl ((hc h).running hp)⟩

/-- It stops: what it sent stays the start of the stream. -/
theorem Pump.Sent.over (h : p.Sent sent) (hb : q.binary = p.binary) (hsrc : q.source = p.source)
    (hf : q.finished = p.finished) (hq : q.phase = .over) : q.Sent sent := by
  rw [Pump.Sent, hq]
  intro rest hr
  rw [hb, hsrc]
  exact h.within fun hfin => hr (hf.trans hfin)

theorem PumpOk.yield (ok : PumpOk p out) (item : Item) : PumpOk (p.yield item) out := by
  unfold Pump.yield
  split
  next hp =>
    split
    · exact ok.turn (by simp [hp]) (fun _ h => h.over rfl rfl rfl rfl) rfl
    refine ok.turn (by simp [hp]) (fun sent h => ?_) rfl
    rw [Pump.Sent, hp] at h
    obtain ⟨hflat, hlen⟩ := pieces_spec item.encoded
    exact ⟨p.source, by simp [hflat], h, hlen⟩
  · exact ok

theorem PumpOk.done (ok : PumpOk p out) (exit : Option ProcessExit) : PumpOk (p.done exit) out := by
  unfold Pump.done
  split
  next hp =>
    split
    · exact ok.turn (by simp [hp]) (fun _ h => h.over rfl rfl rfl rfl) rfl
    refine ok.turn (by simp [hp]) (fun sent h => ?_) rfl
    rw [Pump.Sent, hp] at h
    exact ⟨rfl, h⟩
  · exact ok

theorem PumpOk.stop (ok : PumpOk p out) : PumpOk p.stop out := by
  unfold Pump.stop
  split
  next hp =>
    split
    · exact ok.turn (by simp [hp]) (fun _ h => h.over rfl rfl rfl rfl) rfl
    · exact ok
  · exact ok

theorem PumpOk.abort (ok : PumpOk p out) : PumpOk p.abort out := ok

/-- **A chunk is sent**: its frame carries the bytes it is of. -/
theorem PumpOk.chunk (ok : PumpOk p out) (hp : p.phase ≠ .over) {r : Phase}
    (hc : ∀ sent, p.Sent sent → ∃ bytes, c.Good q.binary bytes ∧ (q.sent c r).Sent (sent ++ bytes))
    (hoff : q.offset = p.offset) (hsize : c.size ≠ 0) :
    PumpOk (q.sent c r) (out ++ framesOf id [(q.data id c).text]) := by
  obtain ⟨sent, hs, ho, hcarry⟩ := ok
  obtain ⟨bytes, good, hsent⟩ := hc sent hs
  refine ⟨sent ++ bytes, hsent, ?_, fun hle => Or.inl ?_⟩
  · simp [Pump.sent, good.size, hoff, ho]
  rw [length_append] at hle
  obtain ⟨hdata, hpay⟩ := (hcarry (by omega)).running hp
  have hacc : StreamData.Accepted ⟨id, q.offset, c.data, q.binary⟩ :=
    ⟨by simp only [hoff, ho]; omega, good.pos hsize, good.le, good.base64⟩
  rw [Pump.data, framesOf_data id id _ rfl, if_pos ⟨rfl, hacc⟩]
  refine ⟨fun f hf => ?_, ?_⟩
  · rcases Places.mem_concat_cases hf with hf | rfl
    · exact hdata f hf
    · rfl
  rw [payload_append, hpay]
  simp [payload, StreamFrame.bytes, StreamData.bytes, good.carries]

theorem PumpOk.empty (ok : PumpOk p out) (hp : p.phase ≠ .over)
    (hc : ∀ sent, p.Sent sent → ∃ bytes, c.Good q.binary bytes ∧ q.Sent (sent ++ bytes))
    (hoff : q.offset = p.offset) (hsize : c.size = 0) : PumpOk q out := by
  refine ok.turn hp (fun sent hs => ?_) hoff
  obtain ⟨bytes, good, hsent⟩ := hc sent hs
  have hnil : bytes = [] := length_eq_zero_iff.mp (good.size.symm.trans hsize)
  rw [hnil, append_nil] at hsent
  exact hsent

/-- **An end is sent**, without an error only once everything was. -/
theorem PumpOk.close (ok : PumpOk p out) (hp : p.phase ≠ .over) (hb : q.binary = p.binary)
    (hsrc : q.source = p.source) (hf : q.finished = p.finished) (hq : q.phase = .over)
    (hoff : q.offset = p.offset)
    (he : e.error = none → ∀ sent, p.Sent sent → p.finished = true ∧ sent = streamed p.binary p.source) :
    PumpOk q (out ++ [.stop e]) := by
  obtain ⟨sent, hs, ho, hcarry⟩ := ok
  refine ⟨sent, hs.over hb hsrc hf hq, hoff.trans ho, fun hle => Or.inr ?_⟩
  obtain ⟨hdata, hpay⟩ := (hcarry hle).running hp
  refine ⟨out, e, rfl, hdata, hpay, hq, fun herr => ?_⟩
  rw [hf, hb, hsrc]
  exact he herr sent hs

end

/-! ## Both ends -/

/-- A stream's two ends, against its frames that were sent and those of them that were taken. -/
structure StreamOk (b : Option Body) (p : Option Pump) (out taken : List StreamFrame) : Prop where
  unopened : b = none → p = none
  unserved : p = none → out = []
  pump : ∀ q, p = some q → PumpOk q out
  body : ∀ c, b = some c → BodyOk c taken

def System.accepted (s : System) : List Text := (s.link.sock .node).accepted

structure SystemOk (maxFrameBytes : Nat) (s : System) : Prop where
  link : LocalSocket.LinkOk maxFrameBytes s.link
  bound : s.taken ≤ s.accepted.length
  closed : s.closed = true → ∀ id b, s.bodies id = some b → b.registered = false
  stream : ∀ id, StreamOk (s.bodies id) (s.pumps id) (framesOf id s.accepted) (framesOf id (s.accepted.take s.taken))

section

variable {maxFrameBytes maxBufferedBytes : Nat} {s : System} {id : StreamId}

theorem SystemOk.fresh (maxFrameBytes : Nat) : SystemOk maxFrameBytes .fresh := by
  refine ⟨.fresh _, Nat.le_refl _, by simp [System.fresh], fun id => ?_⟩
  constructor <;> simp [System.fresh, System.accepted, LocalSocket.Link.fresh, LocalSocket.Socket.fresh, framesOf]

theorem taken_prefix (s : System) (id : StreamId) :
    framesOf id (s.accepted.take s.taken) <+: framesOf id s.accepted := by
  conv_rhs => rw [← take_append_drop s.taken s.accepted, framesOf_append]
  exact prefix_append _ _

/-- **The link moves on**, with more frames sent by this stream's pump or none. -/
theorem SystemOk.moved (ok : SystemOk maxFrameBytes s) (more : List Text) (hl : LocalSocket.LinkOk maxFrameBytes l)
    (hm : (l.sock .node).accepted = s.accepted ++ more) {pumps : StreamId → Option Pump}
    (hstream : ∀ i, StreamOk (s.bodies i) (pumps i) (framesOf i s.accepted ++ framesOf i more)
      (framesOf i (s.accepted.take s.taken))) :
    SystemOk maxFrameBytes { s with link := l, pumps := pumps } := by
  have hacc : ({ s with link := l, pumps := pumps } : System).accepted = s.accepted ++ more := hm
  refine ⟨hl, ?_, ok.closed, fun i => ?_⟩
  · rw [hacc, length_append]
    exact Nat.le_add_right_of_le ok.bound
  · rw [hacc, framesOf_append, take_append_of_le_length ok.bound]
    exact hstream i

theorem SystemOk.other (ok : SystemOk maxFrameBytes s) (more : List Text) (hl : LocalSocket.LinkOk maxFrameBytes l)
    (hm : (l.sock .node).accepted = s.accepted ++ more)
    (hnone : ∀ t ∈ more, StreamFrame.ofText t = none) :
    SystemOk maxFrameBytes { s with link := l } := by
  refine ok.moved more hl hm fun i => ?_
  rw [framesOf_other hnone, append_nil]
  exact ok.stream i

theorem SystemOk.pumped (ok : SystemOk maxFrameBytes s) (more : List Text) (hl : LocalSocket.LinkOk maxFrameBytes l)
    (hm : (l.sock .node).accepted = s.accepted ++ more) (hopen : s.bodies id ≠ none)
    (hother : ∀ i, i ≠ id → framesOf i more = [])
    (hq : PumpOk q (framesOf id s.accepted ++ framesOf id more)) :
    SystemOk maxFrameBytes ({ s with link := l }.setPump id q) := by
  refine ok.moved more hl hm fun i => ?_
  by_cases hi : i = id
  · subst hi
    rw [update_self]
    exact ⟨fun h => absurd h hopen, fun h => absurd h (by simp), fun _ h => Option.some.inj h ▸ hq, (ok.stream i).body⟩
  · rw [update_of_ne hi, hother i hi, append_nil]
    exact ok.stream i

theorem SystemOk.setPump (ok : SystemOk maxFrameBytes s) (hopen : s.bodies id ≠ none)
    (hq : PumpOk q (framesOf id s.accepted)) : SystemOk maxFrameBytes (s.setPump id q) :=
  ok.pumped [] ok.link (append_nil _).symm hopen (fun _ _ => rfl)
    (by rw [show framesOf id [] = [] from rfl, append_nil]; exact hq)

theorem SystemOk.opened (ok : SystemOk maxFrameBytes s) (hp : s.pumps id = some p) : s.bodies id ≠ none := fun h => by
  rw [(ok.stream id).unopened h] at hp
  cases hp

theorem SystemOk.onPump (ok : SystemOk maxFrameBytes s) {f : Pump → Pump}
    (hf : ∀ p out, PumpOk p out → PumpOk (f p) out) : SystemOk maxFrameBytes (s.onPump id f) := by
  unfold System.onPump
  split
  next p hp =>
    exact ok.setPump (ok.opened hp) (hf p _ ((ok.stream id).pump p hp))
  · exact ok

/-! ### Sending -/

theorem notified_cases (maxFrameBytes : Nat) (l : LocalSocket.Link) (f : StreamFrame) (sending : Sending) :
    (isSent l (notified maxFrameBytes l f sending) = false ∧
      ((notified maxFrameBytes l f sending).sock .node).accepted = (l.sock .node).accepted) ∨
    (isSent l (notified maxFrameBytes l f sending) = true ∧ ((notified maxFrameBytes l f sending).sock .node).accepted
        = (l.sock .node).accepted ++ [f.text]) := by
  have hsend : ((LocalSocket.step maxFrameBytes l (.send .node f.text sending.answers)).sock .node).accepted = _ :=
    (congrArg LocalSocket.Socket.accepted (LocalSocket.Link.set_self _ _ _)).trans (LocalSocket.send_accepted _ _ _)
  unfold notified isSent
  split
  · exact Or.inl ⟨by simp, rfl⟩
  rw [hsend]
  split
  · exact Or.inr ⟨by simp, rfl⟩
  · exact Or.inl ⟨by simp, rfl⟩

theorem notified_ok (h : LocalSocket.LinkOk maxFrameBytes l) (f : StreamFrame) (sending : Sending) :
    LocalSocket.LinkOk maxFrameBytes (notified maxFrameBytes l f sending) := by
  unfold notified
  split
  · exact h
  · exact h.step _

theorem SystemOk.notified (ok : SystemOk maxFrameBytes s) (hopen : s.bodies id ≠ none)
    (f : StreamFrame) (sending : Sending) (hid : ∀ i, i ≠ id → framesOf i [f.text] = [])
    (hsent : PumpOk q (framesOf id s.accepted ++ framesOf id [f.text]))
    (hnot : PumpOk q (framesOf id s.accepted)) :
    SystemOk maxFrameBytes ({ s with link := NodeStreams.notified maxFrameBytes s.link f sending }.setPump id q) := by
  have hl := notified_ok ok.link f sending
  rcases notified_cases maxFrameBytes s.link f sending with ⟨-, h⟩ | ⟨-, h⟩
  · exact ok.pumped [] hl (h.trans (append_nil _).symm) hopen (fun _ _ => rfl)
      (by rw [show framesOf id [] = [] from rfl, append_nil]; exact hnot)
  · exact ok.pumped _ hl h hopen hid hsent

theorem SystemOk.failPump (ok : SystemOk maxFrameBytes s) (hopen : s.bodies id ≠ none)
    (hp : PumpOk p (framesOf id s.accepted)) (hrun : p.phase ≠ .over) (hb : q.binary = p.binary)
    (hsrc : q.source = p.source) (hf : q.finished = p.finished) (hoff : q.offset = p.offset)
    (message : JsString) (sending : Sending) :
    SystemOk maxFrameBytes (s.failPump maxFrameBytes id q message sending) := by
  have hover : PumpOk { q with aborted := true, phase := .over } (framesOf id s.accepted) :=
    hp.turn hrun (fun _ h => h.over hb hsrc hf rfl) hoff
  unfold System.failPump
  simp only
  split
  · exact ok.setPump hopen hover
  have hstop : ∀ i, framesOf i [(errorFrame id message).text]
      = if id = i then [errorFrame id message] else [] := fun i =>
    framesOf_stop i fun m hm => by
      rw [← Option.some.inj hm]
      exact length_take_le _ _
  refine ok.notified hopen _ sending (fun i hi => ?_) ?_ hover
  · rw [hstop, if_neg (Ne.symm hi)]
  rw [hstop, if_pos rfl]
  exact hp.close (q := { q with aborted := true, phase := .over }) hrun hb hsrc hf rfl hoff
    (e := ⟨id, some (message.take Rpc.MAX_ERROR_MESSAGE), none⟩) fun he => absurd he (by simp)

/-- **`send`**: the chunk goes out, or the stream fails or stops. -/
theorem SystemOk.sendChunk (ok : SystemOk maxFrameBytes s) (hopen : s.bodies id ≠ none)
    (hp : PumpOk p (framesOf id s.accepted)) (hrun : p.phase ≠ .over) (hb : q.binary = p.binary)
    (hsrc : q.source = p.source) (hf : q.finished = p.finished) (hoff : q.offset = p.offset) {phase : Phase}
    (hc : ∀ sent, p.Sent sent → ∃ bytes, c.Good q.binary bytes ∧ (q.sent c phase).Sent (sent ++ bytes))
    (first second : Sending) :
    SystemOk maxFrameBytes (s.sendChunk maxFrameBytes id q c phase first second) := by
  unfold System.sendChunk
  split
  · exact ok.setPump hopen (hp.turn hrun (fun _ h => h.over hb hsrc hf rfl) hoff)
  split
  next hsize =>
    refine ok.setPump hopen (hp.empty hrun (fun sent hs => ?_) hoff hsize)
    exact hc sent hs
  next hsize =>
    have hother : ∀ i, i ≠ id → framesOf i [(q.data id c).text] = [] := by
      intro i hi
      rw [Pump.data, framesOf_data i id _ rfl, if_neg fun h => hi h.1.symm]
    have hl := notified_ok ok.link (q.data id c) first
    simp only
    rcases notified_cases maxFrameBytes s.link (q.data id c) first with
      ⟨hno, h⟩ | ⟨hyes, h⟩
    · rw [if_neg (by simp [hno])]
      have ok' := ok.other [] hl (h.trans (append_nil _).symm) (by simp)
      refine SystemOk.failPump ok' hopen (p := p) ?_ hrun hb hsrc hf hoff _ second
      rw [System.accepted, h]
      exact hp
    · rw [if_pos hyes]
      exact ok.pumped _ hl h hopen hother (hp.chunk hrun hc hoff hsize)

theorem chunk_same (p : Pump) (piece : Bytes) : (p.chunk piece).1.binary = p.binary ∧
    (p.chunk piece).1.source = p.source ∧ (p.chunk piece).1.finished = p.finished ∧
    (p.chunk piece).1.offset = p.offset := by
  unfold Pump.chunk
  split <;> exact ⟨rfl, rfl, rfl, rfl⟩

/-- **`pump` goes on.** -/
theorem SystemOk.pump (ok : SystemOk maxFrameBytes s) (hp : s.pumps id = some p) (first second : Sending) :
    SystemOk maxFrameBytes (s.pump maxFrameBytes id p first second) := by
  have hopen := ok.opened hp
  have hok := (ok.stream id).pump p hp
  unfold System.pump
  split
  next piece rest hphase =>
    obtain ⟨hb, hsrc, hf, hoff⟩ := chunk_same p piece
    refine ok.sendChunk hopen hok (by simp [hphase]) hb hsrc hf hoff (fun sent hs => ?_) first second
    rw [Pump.Sent, hphase] at hs
    obtain ⟨took, hflat, htook, hlen⟩ := hs
    obtain ⟨bytes, good, hnext⟩ := Pump.chunk_spec htook (hlen piece (by simp))
    refine ⟨bytes, hb ▸ good, took ++ piece, ?_, hnext, fun x hx => hlen x (by simp [hx])⟩
    simp only [Pump.sent, hsrc]
    rw [hflat, flatten_cons, append_assoc]
  next hphase =>
    refine ok.setPump hopen (hok.turn (by simp [hphase]) (fun sent hs => ?_) rfl)
    rw [Pump.Sent, hphase] at hs
    obtain ⟨took, hflat, htook, -⟩ := hs
    rw [flatten_nil, append_nil] at hflat
    rw [← hflat] at htook
    exact htook
  next exit hphase =>
    refine ok.sendChunk hopen hok (by simp [hphase]) rfl rfl rfl rfl (fun sent hs => ?_) first second
    rw [Pump.Sent, hphase] at hs
    obtain ⟨bytes, good, hall⟩ := Pump.lastChunk_spec hs.2
    exact ⟨bytes, good, hs.1, hall⟩
  next exit hphase =>
    have hover : PumpOk { p with phase := .over } (framesOf id s.accepted) :=
      hok.turn (by simp [hphase]) (fun _ h => h.over rfl rfl rfl rfl) rfl
    simp only
    split
    · exact ok.setPump hopen hover
    have hstop : ∀ i, framesOf i [(endFrame id exit).text] = if id = i then [endFrame id exit] else [] := fun i =>
      framesOf_stop i (by simp)
    refine ok.notified hopen _ first (fun i hi => ?_) ?_ hover
    · rw [hstop, if_neg (Ne.symm hi)]
    rw [hstop, if_pos rfl]
    refine hok.close (q := { p with phase := .over }) (by simp [hphase]) rfl rfl rfl rfl rfl
      (e := ⟨id, none, exit⟩) fun _ sent hs => ?_
    rw [Pump.Sent, hphase] at hs
    exact hs
  · exact ok
  · exact ok

/-! ### The rest of a step -/

theorem plain_sends {e e' : LocalSocket.Event} (h : plain e = some e') :
    e'.Sends (fun t => StreamFrame.ofText t = none) .node := by
  have hother : ∀ t, otherFrame t = true → StreamFrame.ofText t = none := by
    intro t ht
    simpa [otherFrame] using ht
  cases e with
  | send side data answers =>
    cases side with
    | server =>
      cases h
      exact fun hx => absurd hx (by simp)
    | node =>
      simp only [plain] at h
      split at h
      next hd =>
        cases h
        exact fun _ => hother data hd
      · cases h
  | arrive side size handler =>
    cases side with
    | server =>
      cases h
      exact fun hx => absurd hx (by simp)
    | node =>
      cases h
      intro _ ms r hr
      have hp := (mem_filter.mp hr).2
      cases r with
      | send data answers => exact hother data hp
      | close => trivial
  | drain side answers | drained side waiter | shut side =>
    cases h
    trivial

theorem SystemOk.linkStep (ok : SystemOk maxFrameBytes s) {e e' : LocalSocket.Event} (h : plain e = some e') :
    SystemOk maxFrameBytes { s with link := LocalSocket.step maxFrameBytes s.link e' } := by
  obtain ⟨more, hm, hnone⟩ := LocalSocket.adds_step maxFrameBytes s.link (plain_sends h)
  exact ok.other more (ok.link.step e') hm hnone

theorem SystemOk.setBody (ok : SystemOk maxFrameBytes s) {b : Body}
    (hb : BodyOk b (framesOf id (s.accepted.take s.taken)))
    (hclosed : s.closed = true → b.registered = false) :
    SystemOk maxFrameBytes (s.setBody id b) := by
  refine ⟨ok.link, ok.bound, fun hc i c h => ?_, fun i => ?_⟩
  · by_cases hi : i = id
    · subst hi
      simp only [System.setBody, update_self] at h
      exact Option.some.inj h ▸ hclosed hc
    · simp only [System.setBody, update_of_ne hi] at h
      exact ok.closed hc i c h
  · by_cases hi : i = id
    · subst hi
      simp only [System.setBody, update_self]
      exact ⟨fun h => absurd h (by simp), (ok.stream i).unserved, (ok.stream i).pump, fun _ h => Option.some.inj h ▸ hb⟩
    · simp only [System.setBody, update_of_ne hi]
      exact ok.stream i

theorem SystemOk.onBody (ok : SystemOk maxFrameBytes s) {f : Body → Body} (hf : ∀ b fs, BodyOk b fs → BodyOk (f b) fs)
    (hreg : ∀ b, b.registered = false → (f b).registered = false) :
    SystemOk maxFrameBytes (s.onBody id f) := by
  unfold System.onBody
  split
  next b hb =>
    exact ok.setBody (hf b _ ((ok.stream id).body b hb)) fun hc => hreg b (ok.closed hc id b hb)
  · exact ok

theorem SystemOk.opens (ok : SystemOk maxFrameBytes s) (hclosed : s.closed = false)
    (hb : s.bodies id = none) : SystemOk maxFrameBytes (s.setBody id .fresh) := by
  refine ok.setBody ?_ fun hc => absurd hc (by simp [hclosed])
  have hout : framesOf id s.accepted = [] := (ok.stream id).unserved ((ok.stream id).unopened hb)
  have hnil := taken_prefix s id
  rw [hout, prefix_nil] at hnil
  rw [hnil]
  exact .fresh

theorem SystemOk.close (ok : SystemOk maxFrameBytes s) : SystemOk maxFrameBytes s.close := by
  have hsome : ∀ i c, (s.close.bodies i) = some c →
      ∃ b, s.bodies i = some b ∧ b.lose (js "Node connection closed") = c :=
    fun i c h => Option.map_eq_some_iff.mp h
  refine ⟨ok.link, ok.bound, fun _ i c h => ?_, fun i => ?_⟩
  · obtain ⟨b, -, rfl⟩ := hsome i c h
    unfold Body.lose
    split
    · rfl
    next hr =>
      simpa using hr
  · refine ⟨fun h => (ok.stream i).unopened (by simpa [System.close] using h),
      (ok.stream i).unserved, (ok.stream i).pump, fun c h => ?_⟩
    obtain ⟨b, hb, rfl⟩ := hsome i c h
    exact ((ok.stream i).body b hb).lose _

theorem SystemOk.next (ok : SystemOk maxFrameBytes s) {t : Text} (ht : s.accepted[s.taken]? = some t)
    {bodies : StreamId → Option Body} (hnone : ∀ i, bodies i = none → s.bodies i = none)
    (hclosed : s.closed = true → ∀ i b, bodies i = some b → b.registered = false)
    (hbody : ∀ i c, bodies i = some c → BodyOk c (framesOf i (s.accepted.take s.taken) ++ framesOf i [t])) :
    SystemOk maxFrameBytes { s with taken := s.taken + 1, bodies := bodies } := by
  refine ⟨ok.link, (List.getElem?_eq_some_iff.mp ht).1, hclosed, fun i => ?_⟩
  have htake : s.accepted.take (s.taken + 1) = s.accepted.take s.taken ++ [t] := by
    rw [take_add_one, ht, Option.toList_some]
  refine ⟨fun h => (ok.stream i).unopened (hnone i h), (ok.stream i).unserved, (ok.stream i).pump, fun c hc => ?_⟩
  simp only [System.accepted] at htake ⊢
  rw [htake, framesOf_append]
  exact hbody i c hc

theorem SystemOk.takeNext (ok : SystemOk maxFrameBytes s) : SystemOk maxFrameBytes (s.takeNext maxBufferedBytes) := by
  unfold System.takeNext
  split
  · exact ok
  rename_i hlt
  obtain ⟨t, ht⟩ : ∃ t, (s.link.sock .server).messages[s.taken]? = some t := ⟨_, getElem?_eq_getElem (by omega)⟩
  have hacc : s.accepted[s.taken]? = some t := by
    obtain ⟨more, hm⟩ := (ok.link .server).messages
    rw [System.accepted, show (s.link.sock .node).accepted = _ from hm.symm, getElem?_append_left (by omega)]
    exact ht
  simp only [System.nextFrame, ht, Option.bind_some]
  split
  next f hf =>
    have hsame : ∀ i, i ≠ f.streamId → framesOf i [t] = [] := fun i hi => by
      rw [framesOf_singleton hf, if_neg (Ne.symm hi)]
    split
    next hc =>
      -- The registry is closed: no body is open.
      exact ok.next hacc (fun _ h => h) ok.closed fun i c h => ((ok.stream i).body c h).later (ok.closed hc i c h) _
    next hc =>
      unfold System.onBody
      simp only
      split
      next b hb =>
        refine ok.next hacc (fun i h => ?_) (fun h => absurd h hc) fun i c h => ?_
        · by_cases hi : i = f.streamId
          · rw [hi, update_self] at h
            cases h
          · rwa [update_of_ne hi] at h
        · by_cases hi : i = f.streamId
          · rw [hi, update_self] at h
            rw [hi, framesOf_singleton hf, if_pos rfl, ← Option.some.inj h]
            exact ((ok.stream _).body b hb).take f
          rw [update_of_ne hi] at h
          rw [hsame i hi, append_nil]
          exact (ok.stream i).body c h
      next hb =>
        refine ok.next hacc (fun _ h => h) ok.closed fun i c h => ?_
        have hi : i ≠ f.streamId := by
          rintro rfl
          rw [hb] at h
          cases h
        rw [hsame i hi, append_nil]
        exact (ok.stream i).body c h
  next hf =>
    refine ok.next hacc (fun _ h => h) ok.closed fun i c h => ?_
    have hnil : framesOf i [t] = [] := framesOf_other (by simpa using hf)
    rw [hnil, append_nil]
    exact (ok.stream i).body c h

theorem SystemOk.step (ok : SystemOk maxFrameBytes s) (e : Event) :
    SystemOk maxFrameBytes (step maxFrameBytes maxBufferedBytes s e) := by
  cases e with
  | link e =>
    simp only [NodeStreams.step]
    split
    next e' h =>
      exact ok.linkStep h
    · exact ok
  | opens id =>
    simp only [NodeStreams.step]
    split
    · exact ok
    next h =>
      obtain ⟨hc, hb⟩ := not_or.mp h
      exact ok.opens (by simpa using hc) (by simpa using hb)
  | serve id binary =>
    simp only [NodeStreams.step]
    split
    next h =>
      have hout : framesOf id s.accepted = [] := (ok.stream id).unserved (by simpa using h.2)
      refine ok.setPump (fun hb => ?_) (hout ▸ .start binary)
      rw [hb] at h
      cases h.1
    · exact ok
  | yield id item => exact ok.onPump fun _ _ h => h.yield item
  | done id exit => exact ok.onPump fun _ _ h => h.done exit
  | abort id => exact ok.onPump fun _ _ h => h.abort
  | stop id => exact ok.onPump fun _ _ h => h.stop
  | throws id message sending =>
    simp only [NodeStreams.step]
    split
    next p hp =>
      split
      next hphase =>
        exact ok.failPump (ok.opened hp) ((ok.stream id).pump p hp) (by simp [hphase]) rfl rfl rfl
          rfl message sending
      · exact ok
    · exact ok
  | pump id first second =>
    simp only [NodeStreams.step]
    split
    next p hp =>
      exact ok.pump hp first second
    · exact ok
  | take => exact ok.takeNext
  | pull id =>
    refine ok.onBody (fun _ _ h => h.pull) fun b hb => ?_
    unfold Body.pull
    split
    · exact hb
    · rw [if_neg (by simp [hb])]
      exact hb
  | cancel id =>
    refine ok.onBody (fun _ _ h => h.cancel) fun b hb => ?_
    rw [Body.cancel, if_neg (by simp [hb])]
    exact hb
  | refused id error =>
    refine ok.onBody (fun _ _ h => h.lose error) fun b hb => ?_
    rw [Body.lose, if_neg (by simp [hb])]
    exact hb
  | close => exact ok.close

end

theorem run_ok (maxFrameBytes maxBufferedBytes : Nat) (es : List Event) :
    SystemOk maxFrameBytes (run maxFrameBytes maxBufferedBytes es) :=
  Run.exec_invariant (SystemOk maxFrameBytes) (fun _ e ok => ok.step e) (.fresh maxFrameBytes) es

/-! ## Integrity -/

/-- What a stream is to carry: a text stream the UTF-8 of its source's text, malformed sequences
replaced and a leading byte-order mark kept. -/
def spelled (binary : Bool) (source : Bytes) : Bytes := if binary then source else encode (lossy source)

/-- A binary stream, or one whose source does not begin with a byte-order mark. -/
def Unmarked (binary : Bool) (source : Bytes) : Prop := binary = false → ¬ BOM_BYTES <+: source

/-- Its offsets are ones the frame's schema takes. -/
def Fits (binary : Bool) (source : Bytes) : Prop := (streamed binary source).length ≤ MAX_SAFE_INTEGER

/-- What the source may still give: nothing once it is done. -/
def Pump.MayYield (p : Pump) (rest : Bytes) : Prop := p.finished = true → rest = []

/-- The stream as its consumer has it, where its source goes on to give `rest`. -/
structure Intact (p : Pump) (b : Body) (rest : Bytes) : Prop where
  read : b.read <+: spelled p.binary (p.source ++ rest)
  whole : ∀ exit, b.ended = some (.ok exit) → p.finished = true ∧ b.delivered = spelled p.binary (p.source ++ rest)

def System.Concerns (s : System) (id : StreamId) : Event → Prop
  | .opens i | .serve i _ | .yield i _ | .done i _ | .throws i _ _ | .pump i _ _ | .abort i
  | .stop i | .pull i | .cancel i | .refused i _ => i = id
  | .take => ∃ f, s.nextFrame = some f ∧ f.streamId = id
  | .link _ => False
  | .close => True

/-- **The decoder drops a leading mark and nothing else.** -/
theorem streamed_eq_spelled (binary : Bool) (source : Bytes) :
    streamed binary source = spelled binary source ↔ Unmarked binary source := by
  cases binary with
  | true => simp [streamed, spelled, Unmarked]
  | false =>
    simp only [streamed, spelled, Unmarked, Bool.false_eq_true, if_false, forall_const, ← decodeText_eq_lossy]
    refine ⟨fun h => ?_, fun h => by rw [h]⟩
    have := congrArg decodeFatal h
    rw [decodeFatal_encode, decodeFatal_encode] at this
    exact Option.some.inj this

section

variable {p : Pump} {b : Body} {out taken : List StreamFrame}

theorem delivered_within (hp : PumpOk p out) (hb : BodyOk b taken) (ht : taken <+: out) (hr : p.MayYield rest) (hfits : Fits p.binary (p.source ++ rest)) :
    b.delivered <+: streamed p.binary (p.source ++ rest) := by
  obtain ⟨sent, hs, -, hcarry⟩ := hp
  have hpre := hs.within hr
  have hpay : payload out = sent := by
    rcases hcarry (hpre.length_le.trans hfits) with ⟨-, h⟩ | ⟨pre, e, rfl, -, h, -⟩
    · exact h
    · rw [payload_append, h]
      simp [payload, StreamFrame.bytes]
  exact ((hb.delivered.trans (payload_mono ht)).trans (hpay ▸ prefix_refl _)).trans hpre

theorem pre_eq {pre pre' : List StreamFrame} {e' : StreamEnd}
    (h : pre ++ [.stop e] <+: pre' ++ [.stop e']) (hdata : ∀ f ∈ pre', f.isData = true) :
    pre = pre' ∧ e = e' := by
  rcases prefix_concat_iff.mp h with heq | hlt
  · obtain ⟨h1, h2⟩ := append_inj' heq rfl
    exact ⟨h1, by simpa using h2⟩
  · exact absurd (hdata (.stop e) (hlt.subset (by simp))) (by simp [StreamFrame.isData])

/-- **A stream that ended without an error was delivered whole.** -/
theorem delivered_whole (hp : PumpOk p out) (hb : BodyOk b taken) (ht : taken <+: out) (hr : p.MayYield rest) (hfits : Fits p.binary (p.source ++ rest))
    {exit : Option ProcessExit} (he : b.ended = some (.ok exit)) :
    p.finished = true ∧ b.delivered = streamed p.binary p.source := by
  obtain ⟨sent, hs, -, hcarry⟩ := hp
  obtain ⟨pre, e, hpre, -, herr, hdel⟩ := hb.ended exit he
  rcases hcarry ((hs.within hr).length_le.trans hfits) with
    ⟨hall, -⟩ | ⟨pre', e', rfl, hdata, hpay, -, hwhole⟩
  · have hmem : StreamFrame.stop e ∈ out := ht.subset (hpre.subset (by simp))
    exact absurd (hall _ hmem) (by simp [StreamFrame.isData])
  obtain ⟨rfl, rfl⟩ := pre_eq (hpre.trans ht) hdata
  obtain ⟨hfin, hsent⟩ := hwhole herr
  exact ⟨hfin, by rw [hdel, hpay, hsent]⟩

/-- **A stream with no leading mark is delivered as its source gave it.** -/
theorem Intact.of (hp : PumpOk p out) (hb : BodyOk b taken) (ht : taken <+: out)
    (hr : p.MayYield rest) (hfits : Fits p.binary (p.source ++ rest))
    (hmark : Unmarked p.binary (p.source ++ rest)) : Intact p b rest := by
  have hspell := (streamed_eq_spelled _ _).mpr hmark
  refine ⟨?_, fun exit he => ?_⟩
  · rw [← hspell]
    exact ((prefix_append _ _).trans hb.read).trans (delivered_within hp hb ht hr hfits)
  obtain ⟨hfin, hdel⟩ := delivered_whole hp hb ht hr hfits he
  refine ⟨hfin, ?_⟩
  rw [← hspell, hr hfin, append_nil, hdel]

/-- Where a marked stream ended without an error, its mark is missing. -/
theorem Intact.unmarked (hp : PumpOk p out) (hb : BodyOk b taken) (ht : taken <+: out)
    (hfits : Fits p.binary p.source) {exit : Option ProcessExit} (he : b.ended = some (.ok exit))
    (h : Intact p b []) : Unmarked p.binary p.source := by
  have hr : p.MayYield [] := fun _ => rfl
  have hwhole := (h.whole exit he).2
  obtain ⟨-, hdel⟩ := delivered_whole hp hb ht hr (by rwa [append_nil]) he
  rw [hdel, append_nil] at hwhole
  exact (streamed_eq_spelled _ _).mp hwhole

end

/-! ## Other streams' events -/

section

variable {maxFrameBytes maxBufferedBytes : Nat} {s : System} {id i : StreamId}

/-- Neither end of the stream changed. -/
def Same (id : StreamId) (s s' : System) : Prop := s'.bodies id = s.bodies id ∧ s'.pumps id = s.pumps id

theorem Same.refl (s : System) : Same id s s := ⟨rfl, rfl⟩

theorem Same.setPump (s : System) (h : i ≠ id) (p : Pump) : Same id s (s.setPump i p) :=
  ⟨rfl, update_of_ne h.symm _ _⟩

theorem Same.setBody (s : System) (h : i ≠ id) (b : Body) : Same id s (s.setBody i b) :=
  ⟨update_of_ne h.symm _ _, rfl⟩

theorem Same.onPump (s : System) (h : i ≠ id) (f : Pump → Pump) : Same id s (s.onPump i f) := by
  unfold System.onPump
  split
  · exact .setPump s h _
  · exact .refl s

theorem Same.onBody (s : System) (h : i ≠ id) (f : Body → Body) : Same id s (s.onBody i f) := by
  unfold System.onBody
  split
  · exact .setBody s h _
  · exact .refl s

theorem Same.failPump (s : System) (h : i ≠ id) (p : Pump) (message : JsString)
    (sending : Sending) : Same id s (s.failPump maxFrameBytes i p message sending) := by
  unfold System.failPump
  split
  · exact .setPump s h _
  · exact .setPump { s with link := _ } h _

theorem Same.sendChunk (s : System) (h : i ≠ id) (p : Pump) (c : Chunk) (phase : Phase) (first second : Sending) :
    Same id s (s.sendChunk maxFrameBytes i p c phase first second) := by
  unfold System.sendChunk
  split
  · exact .setPump s h _
  split
  · exact .setPump s h _
  simp only
  split
  · exact .setPump { s with link := _ } h _
  · exact .failPump { s with link := _ } h _ _ _

theorem Same.pump (s : System) (h : i ≠ id) (p : Pump) (first second : Sending) :
    Same id s (s.pump maxFrameBytes i p first second) := by
  unfold System.pump
  split
  · exact .sendChunk s h _ _ _ _ _
  · exact .setPump s h _
  · exact .sendChunk s h _ _ _ _ _
  · simp only
    split
    · exact .setPump s h _
    · exact .setPump { s with link := _ } h _
  · exact .refl s
  · exact .refl s

/-- **What is no event of a stream leaves both its ends as they are.** -/
theorem Same.step (maxFrameBytes maxBufferedBytes : Nat) (e : Event) (h : ¬ s.Concerns id e) :
    Same id s (step maxFrameBytes maxBufferedBytes s e) := by
  cases e with
  | link e =>
    simp only [NodeStreams.step]
    split
    · exact ⟨rfl, rfl⟩
    · exact .refl s
  | opens i =>
    simp only [NodeStreams.step]
    split
    · exact .refl s
    · exact .setBody s h _
  | serve i binary =>
    simp only [NodeStreams.step]
    split
    · exact .setPump s h _
    · exact .refl s
  | yield i item => exact .onPump s h _
  | done i exit => exact .onPump s h _
  | throws i message sending =>
    simp only [NodeStreams.step]
    split
    · split
      · exact .failPump s h _ _ _
      · exact .refl s
    · exact .refl s
  | pump i first second =>
    simp only [NodeStreams.step]
    split
    · exact .pump s h _ _ _
    · exact .refl s
  | abort i => exact .onPump s h _
  | stop i => exact .onPump s h _
  | take =>
    simp only [NodeStreams.step, System.takeNext]
    split
    · exact .refl s
    split
    next f hf =>
      have hne : f.streamId ≠ id := fun hi => h ⟨f, hf, hi⟩
      split
      · exact ⟨rfl, rfl⟩
      · exact .onBody { s with taken := s.taken + 1 } hne _
    · exact ⟨rfl, rfl⟩
  | pull i => exact .onBody s h _
  | cancel i => exact .onBody s h _
  | refused i error => exact .onBody s h _
  | close => exact absurd trivial h

end

/-- **What streams carry.** In every run of a connection's streams, of any number of streams, of
chunks their sources give and of what the sockets between make of their frames: an opened stream
that was not served has carried and ended nothing; one that was is intact, as long as it is no text
stream whose source begins with a byte-order mark, and where it ended without an error it is intact
just then; and a step that is no event of a stream leaves it as it is. -/
theorem stream_intact_iff (maxFrameBytes maxBufferedBytes : Nat) (es : List Event) (id : StreamId)
    (b : Body) (hb : (run maxFrameBytes maxBufferedBytes es).bodies id = some b) :
    ((run maxFrameBytes maxBufferedBytes es).pumps id = none → b.read = [] ∧ ∀ exit, b.ended ≠ some (.ok exit)) ∧
    (∀ p, (run maxFrameBytes maxBufferedBytes es).pumps id = some p →
      (∀ rest, p.MayYield rest → Fits p.binary (p.source ++ rest) →
        Unmarked p.binary (p.source ++ rest) → Intact p b rest) ∧
      ∀ exit, b.ended = some (.ok exit) → Fits p.binary p.source → (Intact p b [] ↔ Unmarked p.binary p.source)) ∧
    ∀ e, ¬ (run maxFrameBytes maxBufferedBytes es).Concerns id e →
      (run maxFrameBytes maxBufferedBytes (es ++ [e])).bodies id = some b ∧
      (run maxFrameBytes maxBufferedBytes (es ++ [e])).pumps id = (run maxFrameBytes maxBufferedBytes es).pumps id := by
  have ok := run_ok maxFrameBytes maxBufferedBytes es
  have hbody := (ok.stream id).body b hb
  have htaken := taken_prefix (run maxFrameBytes maxBufferedBytes es) id
  refine ⟨fun hp => ?_, fun p hp => ?_, fun e he => ?_⟩
  · have hout := (ok.stream id).unserved hp
    rw [hout, prefix_nil] at htaken
    rw [htaken] at hbody
    refine ⟨?_, fun exit hexit => ?_⟩
    · have hread := (prefix_append _ _).trans (hbody.read.trans hbody.delivered)
      exact prefix_nil.mp hread
    · obtain ⟨pre, e, hpre, -⟩ := hbody.ended exit hexit
      exact absurd (prefix_nil.mp hpre) (by simp)
  · have hpump := (ok.stream id).pump p hp
    refine ⟨fun rest hr hfits hmark => .of hpump hbody htaken hr hfits hmark,
      fun exit hexit hfits => ⟨Intact.unmarked hpump hbody htaken hfits hexit, fun hmark => ?_⟩⟩
    exact .of hpump hbody htaken (fun _ => rfl) (by rwa [append_nil]) (by rwa [append_nil])
  · have hsame := Same.step maxFrameBytes maxBufferedBytes e he
    rw [run, Run.exec_append]
    exact ⟨hsame.1.trans hb, hsame.2⟩

/-! ### A run -/

def theStream : StreamId := ⟨js "s", by decide, by decide⟩

def taking : Sending := ⟨false, fun _ => .accepted 1000000⟩

def textRun (bytes : Bytes) : List Event :=
  [.opens theStream, .serve theStream false, .yield theStream (.bytes bytes),
    .pump theStream taking taking, .pump theStream taking taking, .done theStream none,
    .pump theStream taking taking, .pump theStream taking taking,
    .link (.arrive .server 100000 fun _ => []), .take, .take, .pull theStream]

theorem stream_intact_text : ∃ p b, (run 1000000 1000000 (textRun [0x61])).pumps theStream = some p ∧
    (run 1000000 1000000 (textRun [0x61])).bodies theStream = some b ∧ b.read = [0x61] ∧
    Intact p b [] := by
  have hpump : ((run 1000000 1000000 (textRun [0x61])).pumps theStream).map
      (fun p => (p.source, p.binary)) = some ([0x61], false) := by decide +kernel
  have hbody : ((run 1000000 1000000 (textRun [0x61])).bodies theStream).map Body.read
      = some [0x61] := by decide +kernel
  obtain ⟨p, hp, hsource⟩ := Option.map_eq_some_iff.mp hpump
  obtain ⟨b, hb, hread⟩ := Option.map_eq_some_iff.mp hbody
  obtain ⟨hsource, hbinary⟩ := Prod.mk.inj hsource
  refine ⟨p, b, hp, hb, hread, ((stream_intact_iff 1000000 1000000 (textRun [0x61]) theStream b hb).2.1 p hp).1 []
      (fun _ => rfl) ?_ ?_⟩
  · rw [hsource, hbinary, Fits]
    decide
  · rw [hsource, hbinary, Unmarked]
    decide

theorem mark_dropped : ∃ p b, (run 1000000 1000000 (textRun (BOM_BYTES ++ [0x61]))).pumps theStream = some p ∧
    (run 1000000 1000000 (textRun (BOM_BYTES ++ [0x61]))).bodies theStream = some b ∧
    p.source = BOM_BYTES ++ [0x61] ∧ b.read = [0x61] ∧
    spelled p.binary p.source = BOM_BYTES ++ [0x61] ∧
    ¬ b.read <+: spelled p.binary (p.source ++ []) ∧ ¬ Intact p b [] := by
  have hpump : ((run 1000000 1000000 (textRun (BOM_BYTES ++ [0x61]))).pumps theStream).map
      (fun p => (p.source, p.binary)) = some (BOM_BYTES ++ [0x61], false) := by decide +kernel
  have hbody : ((run 1000000 1000000 (textRun (BOM_BYTES ++ [0x61]))).bodies theStream).map
      Body.read = some [0x61] := by decide +kernel
  obtain ⟨p, hp, hsource⟩ := Option.map_eq_some_iff.mp hpump
  obtain ⟨b, hb, hread⟩ := Option.map_eq_some_iff.mp hbody
  obtain ⟨hsource, hbinary⟩ := Prod.mk.inj hsource
  have hspelled : spelled false (BOM_BYTES ++ [0x61]) = BOM_BYTES ++ [0x61] := by decide +kernel
  have hnot : ¬ b.read <+: spelled p.binary (p.source ++ []) := by
    rw [append_nil, hread, hsource, hbinary, hspelled]
    decide
  refine ⟨p, b, hp, hb, hsource, hread, ?_, hnot, fun h => hnot h.read⟩
  rw [hsource, hbinary, hspelled]

end Reins.NodeStreams
