import Reins.Lib.Run
import Reins.Lib.Utf

/-!
# The WebSocket link (`node-protocol/src/websocket-link.ts`)

`createWebSocketLink` hands frames to a WebSocket that may hold what it was given: a frame goes out while
the WebSocket holds nothing unsent, later ones wait in the queue for a `drain`. What `bufferedAmount()`
answers each time it is read and what `send` does are the environment's, and arrive with the event.

`sent`, `handed`, `resolved`, `messages`, `closes` and `oncloses` are what the link did to the outside;
`owed` is that it found the WebSocket holding something since it was last found idle by a `flush`.
-/

open Utf List

namespace Reins.WebSocketLink

abbrev Text := List Char

def UNSUPPORTED_DATA : Nat := 1003
def MESSAGE_TOO_BIG : Nat := 1009

def byteLength (t : Text) : Nat := (encode t).length

/-- What `stream.send` does: it throws, answers 0, or takes the message; where `ended`, the WebSocket
closes while it does. -/
inductive SendAnswer
  | threw
  | dropped
  | taken (ended : Bool)
  deriving DecidableEq

/-- A `drained()` that resolved, and the link then; a closed link does not read what is buffered. -/
structure Resolution where
  waiter : Nat
  closed : Bool
  queued : Nat
  buffered : Option Nat
  deriving DecidableEq

structure Link where
  closed : Bool
  queue : List Text
  drainWaiters : List Nat
  -- done to the outside so far
  sent : List Text
  /-- The frames given to `stream.send`, each with what was buffered. -/
  handed : List (Text × Nat)
  resolved : List Resolution
  messages : List Text
  closes : List (Option Nat)
  oncloses : Nat
  owed : Bool
  deriving DecidableEq

def Link.fresh : Link :=
  { closed := false, queue := [], drainWaiters := [], sent := [], handed := [], resolved := [],
    messages := [], closes := [], oncloses := 0, owed := false }

namespace Link

/-- `stream.bufferedAmount()`. -/
def read (l : Link) (buffered : Nat) : Link := { l with owed := l.owed || 0 < buffered }

def settleWaiters (l : Link) (buffered : Option Nat) : Link :=
  { l with
    drainWaiters := [],
    resolved := l.resolved ++ l.drainWaiters.map fun w => ⟨w, l.closed, l.queue.length, buffered⟩ }

/-- `shut`, which is `close` and `ended` too. -/
def shut (l : Link) (code : Option Nat) : Link :=
  if l.closed then l
  else
    let l := { l with closed := true, queue := [] }.settleWaiters none
    { l with closes := l.closes ++ [code], oncloses := l.oncloses + 1 }

/-- `if (!closed && idle()) settleWaiters()`, with the queue empty. -/
def settleIdle (l : Link) (buffered : Nat) : Link :=
  if buffered = 0 then { l with owed := false }.settleWaiters (some buffered) else l.read buffered

def hand (l : Link) (frame : Text) (buffered : Nat) : Link := { l with handed := l.handed ++ [(frame, buffered)] }

/-- The loop of `flush`, over what is queued: the `i`-th read of the call gets `buffered i`, and its
`i`-th send `answers i`. -/
def flushLoop (l : Link) : List Text → (Nat → Nat) → (Nat → SendAnswer) → Link
  | [], buffered, _ => l.settleIdle (buffered 0)
  | frame :: rest, buffered, answers =>
    if 0 < buffered 0 then l.read (buffered 0)
    else
      let l' := (l.read (buffered 0)).hand frame (buffered 0)
      match answers 0 with
      | .threw => l'.shut none
      | .dropped => l'.shut none
      -- It is shut already as the send returns: the queue is empty, and nothing is shifted.
      | .taken true => l'.shut none
      | .taken false => flushLoop { l' with queue := rest } rest (fun i => buffered (i + 1)) fun i => answers (i + 1)

/-- `flush`, which is `drain` too. -/
def flush (l : Link) (buffered : Nat → Nat) (answers : Nat → SendAnswer) : Link :=
  if l.closed then l else l.flushLoop l.queue buffered answers

def send (maxFrameBytes : Nat) (l : Link) (data : Text) (buffered : Nat → Nat) (answers : Nat → SendAnswer) : Link :=
  if l.closed then l
  else if maxFrameBytes < byteLength data then l
  else
    let l := { l with queue := l.queue ++ [data], sent := l.sent ++ [data] }
    if l.queue.length = 1 then l.flush buffered answers else l

def drained (l : Link) (waiter : Nat) (buffered : Nat) : Link :=
  if l.closed then { l with resolved := l.resolved ++ [⟨waiter, true, l.queue.length, none⟩] }
  else if l.queue = [] then
    let l := l.read buffered
    if buffered = 0 then { l with resolved := l.resolved ++ [⟨waiter, false, 0, some 0⟩] }
    else { l with drainWaiters := l.drainWaiters ++ [waiter] }
  else { l with drainWaiters := l.drainWaiters ++ [waiter] }

inductive Message
  | text (t : Text)
  | binary

def receive (maxFrameBytes : Nat) (l : Link) : Message → Link
  | .binary => l.shut (some UNSUPPORTED_DATA)
  | .text t =>
    if l.closed then l
    else if maxFrameBytes < byteLength t then l.shut (some MESSAGE_TOO_BIG)
    else { l with messages := l.messages ++ [t] }

end Link

/-! ## Steps -/

/-- `onmessage` is called last of all `receive` does, so what its handler does with the link are events
of their own. -/
inductive Event
  | send (data : Text) (buffered : Nat → Nat) (answers : Nat → SendAnswer)
  | drain (buffered : Nat → Nat) (answers : Nat → SendAnswer)
  | drained (waiter : Nat) (buffered : Nat)
  | receive (message : Link.Message)
  | close
  | ended

def step (maxFrameBytes : Nat) (l : Link) : Event → Link
  | .send data buffered answers => l.send maxFrameBytes data buffered answers
  | .drain buffered answers => l.flush buffered answers
  | .drained waiter buffered => l.drained waiter buffered
  | .receive message => l.receive maxFrameBytes message
  | .close => l.shut none
  | .ended => l.shut none

def run (maxFrameBytes : Nat) (es : List Event) : Link := Run.exec (step maxFrameBytes) .fresh es

/-! ## What each operation keeps -/

/-- Where a `drained()` may resolve. -/
def Resolution.Ok (r : Resolution) : Prop := r.closed = true ∨ r.queued = 0 ∧ r.buffered = some 0

structure LinkOk (maxFrameBytes : Nat) (l : Link) : Prop where
  queued : l.closed = false → l.handed.map Prod.fst ++ l.queue = l.sent
  handed : l.handed.map Prod.fst <+: l.sent
  idle : ∀ h ∈ l.handed, h.2 = 0
  resolved : ∀ r ∈ l.resolved, r.Ok
  /-- Something waits only for a WebSocket that was found holding something: a `drain` is due. -/
  waits : l.closed = false → l.queue ≠ [] ∨ l.drainWaiters ≠ [] → l.owed = true
  bounded : ∀ t ∈ l.sent, byteLength t ≤ maxFrameBytes
  dropped : l.closed = true → l.queue = [] ∧ l.drainWaiters = []
  closes : l.closes.length = l.oncloses ∧ l.oncloses = if l.closed then 1 else 0

section

variable {maxFrameBytes : Nat} {l : Link}

theorem LinkOk.fresh : LinkOk maxFrameBytes .fresh := by
  constructor <;> simp [Link.fresh]

theorem LinkOk.shut (ok : LinkOk maxFrameBytes l) (code : Option Nat) : LinkOk maxFrameBytes (l.shut code) := by
  unfold Link.shut
  split
  · exact ok
  rename_i hc
  refine ⟨fun h => ?_, ok.handed, ok.idle, fun r hr => ?_, fun h => ?_, ok.bounded, fun _ => ⟨rfl, rfl⟩, ?_⟩
  · cases h
  · rcases mem_append.mp hr with hr | hr
    · exact ok.resolved r hr
    · obtain ⟨w, -, rfl⟩ := mem_map.mp hr
      exact Or.inl rfl
  · cases h
  · obtain ⟨hlength, hone⟩ := ok.closes
    simp [Link.settleWaiters, hlength, hone, hc]

/-- The invariant inside `flush`: `rest` is what it has not handed over yet. -/
structure Flushing (maxFrameBytes : Nat) (rest : List Text) (l : Link) : Prop where
  opened : l.closed = false
  queued : l.handed.map Prod.fst ++ rest = l.sent
  idle : ∀ h ∈ l.handed, h.2 = 0
  resolved : ∀ r ∈ l.resolved, r.Ok
  bounded : ∀ t ∈ l.sent, byteLength t ≤ maxFrameBytes
  closes : l.closes = [] ∧ l.oncloses = 0

section

variable {rest : List Text}

theorem LinkOk.flushing (ok : LinkOk maxFrameBytes l) (h : l.closed = false) : Flushing maxFrameBytes l.queue l := by
  obtain ⟨hlength, hone⟩ := ok.closes
  have hzero : l.oncloses = 0 := by simpa [h] using hone
  exact ⟨h, ok.queued h, ok.idle, ok.resolved, ok.bounded, eq_nil_of_length_eq_zero (hlength.trans hzero), hzero⟩

/-- `flush` may stop where the WebSocket held something, or nothing waits. -/
theorem Flushing.stop (f : Flushing maxFrameBytes rest l) (hq : l.queue = rest)
    (h : l.queue ≠ [] ∨ l.drainWaiters ≠ [] → l.owed = true) : LinkOk maxFrameBytes l := { f with
  queued := fun _ => hq ▸ f.queued
  handed := ⟨rest, f.queued⟩
  waits := fun _ => h
  dropped := fun hc => absurd hc (by simp [f.opened])
  closes := by simp [f.closes, f.opened] }

theorem Flushing.shut (f : Flushing maxFrameBytes rest l) : LinkOk maxFrameBytes (l.shut none) := by
  have hclosed : l.closed = false := f.opened
  unfold Link.shut
  rw [if_neg (by simp [hclosed])]
  refine ⟨fun h => ?_, ⟨rest, f.queued⟩, f.idle, fun r hr => ?_, fun h => ?_, f.bounded, fun _ => ⟨rfl, rfl⟩, ?_⟩
  · cases h
  · rcases mem_append.mp hr with hr | hr
    · exact f.resolved r hr
    · obtain ⟨w, -, rfl⟩ := mem_map.mp hr
      exact Or.inl rfl
  · cases h
  · simp [Link.settleWaiters, f.closes]

theorem Flushing.settleIdle (f : Flushing maxFrameBytes [] l) (hq : l.queue = []) (buffered : Nat) :
    LinkOk maxFrameBytes (l.settleIdle buffered) := by
  unfold Link.settleIdle
  split
  next hzero =>
    have hresolved : ∀ r ∈ ({ l with owed := false }.settleWaiters (some buffered)).resolved, r.Ok := by
      intro r hr
      rcases mem_append.mp hr with hr | hr
      · exact f.resolved r hr
      · obtain ⟨w, -, rfl⟩ := mem_map.mp hr
        exact Or.inr ⟨by simp [hq], by rw [hzero]⟩
    have f' : Flushing maxFrameBytes [] ({ l with owed := false }.settleWaiters (some buffered)) :=
      { f with resolved := hresolved }
    refine f'.stop hq fun h => ?_
    simp [Link.settleWaiters, hq] at h
  next hpos =>
    have f' : Flushing maxFrameBytes [] (l.read buffered) :=
      { f with }
    exact f'.stop hq fun _ => by simp [Link.read, Nat.pos_of_ne_zero hpos]

theorem Flushing.hand {frame : Text} (f : Flushing maxFrameBytes (frame :: rest) l) :
    Flushing maxFrameBytes rest ((l.read 0).hand frame 0) := { f with
  queued := by simp [Link.hand, Link.read, ← f.queued]
  idle := fun h hh => by
    rcases mem_append.mp hh with hh | hh
    · exact f.idle h hh
    · rw [mem_singleton.mp hh] }

theorem Flushing.loop (f : Flushing maxFrameBytes rest l) (hq : l.queue = rest)
    (buffered : Nat → Nat) (answers : Nat → SendAnswer) :
    LinkOk maxFrameBytes (l.flushLoop rest buffered answers) := by
  induction rest generalizing l buffered answers with
  | nil => exact f.settleIdle hq _
  | cons frame rest ih =>
    rw [Link.flushLoop]
    split
    next hpos =>
      have f' : Flushing maxFrameBytes (frame :: rest) (l.read (buffered 0)) :=
        { f with }
      exact f'.stop hq fun _ => by simp [Link.read, hpos]
    next hpos =>
      have hzero : buffered 0 = 0 := Nat.eq_zero_of_not_pos hpos
      have hnext := f.hand
      simp only [hzero]
      cases answers 0 with
      | threw => exact hnext.shut
      | dropped => exact hnext.shut
      | taken ended =>
        cases ended with
        | true => exact hnext.shut
        | false =>
          have f' : Flushing maxFrameBytes rest { (l.read 0).hand frame 0 with queue := rest } :=
            { hnext with }
          exact ih f' rfl _ _

end

theorem LinkOk.flush (ok : LinkOk maxFrameBytes l) (buffered : Nat → Nat)
    (answers : Nat → SendAnswer) : LinkOk maxFrameBytes (l.flush buffered answers) := by
  unfold Link.flush
  split
  · exact ok
  next hc =>
    exact (ok.flushing (by simpa using hc)).loop rfl _ _

/-- A frame that is queued behind others waits with them; one that is not is flushed. -/
theorem LinkOk.send (ok : LinkOk maxFrameBytes l) (data : Text) (buffered : Nat → Nat) (answers : Nat → SendAnswer) :
    LinkOk maxFrameBytes (l.send maxFrameBytes data buffered answers) := by
  unfold Link.send
  split
  · exact ok
  split
  · exact ok
  rename_i hc hle
  have hopen : l.closed = false := by simpa using hc
  have f := ok.flushing hopen
  have hbounded : ∀ t ∈ l.sent ++ [data], byteLength t ≤ maxFrameBytes := by
    intro t ht
    rcases mem_append.mp ht with ht | ht
    · exact ok.bounded t ht
    · rw [mem_singleton.mp ht]
      exact Nat.not_lt.mp hle
  have f' : Flushing maxFrameBytes (l.queue ++ [data])
      { l with queue := l.queue ++ [data], sent := l.sent ++ [data] } :=
    ⟨hopen, by simp [← f.queued], f.idle, f.resolved, hbounded, f.closes⟩
  simp only
  split
  · unfold Link.flush
    rw [if_neg (by simp [hopen])]
    exact f'.loop rfl _ _
  next hlength =>
    refine f'.stop rfl fun _ => ok.waits hopen (Or.inl fun hnil => hlength ?_)
    simp [hnil]

theorem LinkOk.drained (ok : LinkOk maxFrameBytes l) (waiter buffered : Nat) :
    LinkOk maxFrameBytes (l.drained waiter buffered) := by
  have hresolved : ∀ r : Resolution, r.Ok → ∀ x ∈ l.resolved ++ [r], x.Ok := by
    intro r hr x hx
    rcases mem_append.mp hx with hx | hx
    · exact ok.resolved x hx
    · rwa [mem_singleton.mp hx]
  unfold Link.drained
  split
  · exact { ok with resolved := hresolved _ (Or.inl rfl) }
  rename_i hc
  have hopen : l.closed = false := by simpa using hc
  have f := ok.flushing hopen
  split
  · simp only
    split
    next hzero =>
      have f' : Flushing maxFrameBytes l.queue
          { l.read buffered with resolved := l.resolved ++ [⟨waiter, false, 0, some 0⟩] } :=
        { f with resolved := hresolved _ (Or.inr ⟨rfl, rfl⟩) }
      refine f'.stop rfl fun h => ?_
      simp [Link.read, ok.waits hopen h]
    next hpos =>
      have f' : Flushing maxFrameBytes l.queue { l.read buffered with drainWaiters := l.drainWaiters ++ [waiter] } :=
        { f with }
      exact f'.stop rfl fun _ => by simp [Link.read, Nat.pos_of_ne_zero hpos]
  next hq =>
    have f' : Flushing maxFrameBytes l.queue { l with drainWaiters := l.drainWaiters ++ [waiter] } :=
      { f with }
    exact f'.stop rfl fun _ => ok.waits hopen (Or.inl hq)

theorem LinkOk.receive (ok : LinkOk maxFrameBytes l) (message : Link.Message) :
    LinkOk maxFrameBytes (l.receive maxFrameBytes message) := by
  cases message with
  | binary => exact ok.shut _
  | text t =>
    unfold Link.receive
    simp only
    split
    · exact ok
    split
    · exact ok.shut _
    · exact { ok with }

theorem LinkOk.step (ok : LinkOk maxFrameBytes l) (e : Event) : LinkOk maxFrameBytes (step maxFrameBytes l e) := by
  cases e with
  | send data buffered answers => exact ok.send data buffered answers
  | drain buffered answers => exact ok.flush buffered answers
  | drained waiter buffered => exact ok.drained waiter buffered
  | receive message => exact ok.receive message
  | close => exact ok.shut _
  | ended => exact ok.shut _

/-! ## Draining -/

/-- The WebSocket takes what it is sent and holds nothing of it. -/
theorem flushLoop_empties (queue : List Text) (hq : l.queue = queue) :
    let l' := l.flushLoop queue (fun _ => 0) fun _ => .taken false
    l'.closed = l.closed ∧ l'.queue = [] ∧ l'.drainWaiters = [] ∧
      l'.handed.map Prod.fst = l.handed.map Prod.fst ++ queue := by
  induction queue generalizing l with
  | nil => simp [Link.flushLoop, Link.settleIdle, Link.settleWaiters, hq]
  | cons frame rest ih =>
    obtain ⟨hclosed, hqueue, hwaiters, hhanded⟩ := ih (l := { (l.read 0).hand frame 0 with queue := rest }) rfl
    refine ⟨hclosed, hqueue, hwaiters, ?_⟩
    simpa [Link.flushLoop, Link.hand, Link.read] using hhanded

end

/-- **A link delivers**: what it was sent, in order, each once, as far as it stays open. -/
structure Delivers (maxFrameBytes : Nat) (l : Link) : Prop where
  queued : l.closed = false → l.handed.map Prod.fst ++ l.queue = l.sent
  handed : l.handed.map Prod.fst <+: l.sent
  idle : ∀ h ∈ l.handed, h.2 = 0
  resolved : ∀ r ∈ l.resolved, r.closed = true ∨ r.queued = 0 ∧ r.buffered = some 0
  /-- Nothing waits but for a WebSocket that was found holding something. -/
  waits : l.closed = false → l.queue ≠ [] ∨ l.drainWaiters ≠ [] → l.owed = true
  /-- Once that has written it out, and takes what it is given, `drain` leaves nothing waiting. -/
  drains : l.closed = false → let l' := l.flush (fun _ => 0) fun _ => .taken false
    l'.handed.map Prod.fst = l.sent ∧ l'.queue = [] ∧ l'.drainWaiters = []

theorem Delivers.of {maxFrameBytes : Nat} {l : Link} (ok : LinkOk maxFrameBytes l) : Delivers maxFrameBytes l where
  queued := ok.queued
  handed := ok.handed
  idle := ok.idle
  resolved := ok.resolved
  waits := ok.waits
  drains := fun h => by
    obtain ⟨-, hqueue, hwaiters, hhanded⟩ := flushLoop_empties (l := l) l.queue rfl
    simp only [Link.flush, h, Bool.false_eq_true, if_false]
    exact ⟨hhanded.trans (ok.queued h), hqueue, hwaiters⟩

theorem link_delivers (maxFrameBytes : Nat) (es : List Event) : Delivers maxFrameBytes (run maxFrameBytes es) :=
  .of (Run.exec_invariant (LinkOk maxFrameBytes) (fun _ e ok => ok.step e) .fresh es)

end Reins.WebSocketLink
