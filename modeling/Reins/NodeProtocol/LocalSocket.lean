import Reins.Lib.Lines
import Reins.Lib.Run
import Reins.Lib.Utf
import Reins.Lib.Places

/-!
# The local socket link (`node-protocol/src/local-socket.ts`)

`createNdjsonSocket` is a closure over two halves that share only `closed`: a queue of byte
suffixes the stream has not taken yet, and the parts of a frame whose newline has not arrived.
`Socket` is that closure's state, and below the line the four things it has done to the outside:
the bytes the stream accepted, the frames `send` took, the frames it handed to `onmessage`, and
the number of `onclose` notifications it queued.

A frame is a `JSON.stringify` string, which holds no lone surrogate: a text. What the stream
answers to a write and what `onmessage` does with the socket while `receive` is in its loop are
chosen by the environment, and arrive with the event.
-/

open Utf List

namespace Reins.LocalSocket

abbrev Bytes := List UInt8
abbrev Text := List Char

def NEWLINE : UInt8 := 0x0a

/-! ## The socket -/

/-- What `stream.write` does: it throws, answers a negative number, or accepts some bytes. -/
inductive WriteAnswer
  | threw
  | closed
  | accepted (n : Nat)
  deriving DecidableEq, Repr

structure Socket where
  closed : Bool
  parts : List Bytes
  partBytes : Nat
  queue : List Bytes
  queuedBytes : Int
  drainWaiters : List Nat
  -- done to the outside so far
  written : Bytes
  accepted : List Text
  messages : List Text
  oncloses : Nat
  resolved : List Nat
  deriving DecidableEq

def Socket.fresh : Socket :=
  { closed := false, parts := [], partBytes := 0, queue := [], queuedBytes := 0,
    drainWaiters := [], written := [], accepted := [], messages := [], oncloses := 0,
    resolved := [] }

namespace Socket

variable {t s : Socket} {piece chunk : Bytes}

def release (s : Socket) : Socket := { s with drainWaiters := [], resolved := s.resolved ++ s.drainWaiters }

/-- `close` and `ended`. -/
def shut (s : Socket) : Socket :=
  if s.closed then s
  else
    { s with
      closed := true, queue := [], queuedBytes := 0, parts := [], partBytes := 0,
      drainWaiters := [], resolved := s.resolved ++ s.drainWaiters, oncloses := s.oncloses + 1 }

/-- The loop of `flush`, over what is queued: the `i`-th write of the call gets `answers i`. -/
def flushLoop (s : Socket) : List Bytes → (Nat → WriteAnswer) → Socket
  | [], _ => s.release
  | head :: rest, answers =>
    if s.closed then s
    else
      match answers 0 with
      | .threw => s.shut
      | .closed => s.shut
      | .accepted n =>
        if n < head.length then
          { s with
            queue := head.drop n :: rest, queuedBytes := s.queuedBytes - n,
            written := s.written ++ head.take n }
        else
          flushLoop
            { s with
              queue := rest, queuedBytes := s.queuedBytes - head.length,
              written := s.written ++ head }
            rest (fun i => answers (i + 1))

/-- `flush`, which is also `drain`. -/
def flush (s : Socket) (answers : Nat → WriteAnswer) : Socket := s.flushLoop s.queue answers

def send (maxFrameBytes : Nat) (s : Socket) (data : Text) (answers : Nat → WriteAnswer) : Socket :=
  if s.closed then s
  else if '\n' ∈ data then s
  else
    let bytes := encode (data ++ ['\n'])
    if maxFrameBytes < bytes.length - 1 then s
    else
      let s' :=
        { s with
          queue := s.queue ++ [bytes], queuedBytes := s.queuedBytes + bytes.length,
          accepted := s.accepted ++ [data] }
      if s'.queue.length = 1 then s'.flush answers else s'

def drained (s : Socket) (waiter : Nat) : Socket :=
  if s.closed ∨ s.queue = [] then { s with resolved := s.resolved ++ [waiter] }
  else { s with drainWaiters := s.drainWaiters ++ [waiter] }

/-- What an `onmessage` handler can do with the socket before it returns. -/
inductive Reaction
  | send (data : Text) (answers : Nat → WriteAnswer)
  | close

def react (maxFrameBytes : Nat) (s : Socket) : Reaction → Socket
  | .send data answers => s.send maxFrameBytes data answers
  | .close => s.shut

def clearParts (s : Socket) : Socket := { s with parts := [], partBytes := 0 }

def onmessage (maxFrameBytes : Nat) (handler : List Text → List Reaction) (s : Socket) (text : Text) : Socket :=
  let s' := { s with messages := s.messages ++ [text] }
  (handler s'.messages).foldl (react maxFrameBytes) s'

def receiveLoop (maxFrameBytes : Nat) (handler : List Text → List Reaction) : Nat → Socket → Bytes → Socket
  | 0, s, _ => s
  | fuel + 1, s, chunk =>
    if s.closed ∨ chunk = [] then s
    else
      let piece := chunk.takeWhile (· ≠ NEWLINE)
      if maxFrameBytes < s.partBytes + piece.length then s.shut
      else
        match chunk.dropWhile (· ≠ NEWLINE) with
        | [] => { s with parts := s.parts ++ [piece], partBytes := s.partBytes + piece.length }
        | _ :: rest =>
          let frame := s.parts.flatten ++ piece
          match decodeFatal frame with
          | none => s.clearParts.shut
          | some text => receiveLoop maxFrameBytes handler fuel (s.clearParts.onmessage maxFrameBytes handler text) rest

def receive (maxFrameBytes : Nat) (handler : List Text → List Reaction) (s : Socket) (chunk : Bytes) : Socket :=
  receiveLoop maxFrameBytes handler chunk.length s chunk

end Socket

/-! ## `receive`, a turn at a time

A chunk is either a piece with no newline, which is held, or a piece, a newline and a rest. The
three equations say what one turn does, with no fuel in them, and `chunk_induction` is the
induction the loop's proofs use. -/

theorem chunk_induction {P : Bytes → Prop} (hold : ∀ piece, NEWLINE ∉ piece → P piece)
    (frame : ∀ piece rest, NEWLINE ∉ piece → P rest → P (piece ++ NEWLINE :: rest)) :
    ∀ chunk, P chunk := by
  have key : ∀ n (chunk : Bytes), chunk.length ≤ n → P chunk := by
    intro n
    induction n with
    | zero =>
      intro chunk hl
      rw [eq_nil_of_length_eq_zero (Nat.le_zero.mp hl)]
      exact hold [] (by simp)
    | succ n ih =>
      intro chunk hl
      by_cases hn : NEWLINE ∈ chunk
      · obtain ⟨piece, rest, rfl, hp⟩ := eq_append_cons_of_mem hn
        refine frame piece rest hp (ih rest ?_)
        rw [length_append, length_cons] at hl
        omega
      · exact hold chunk hn
  exact fun chunk => key chunk.length chunk (le_refl _)

section

variable {maxFrameBytes : Nat} {s : Socket} (handler : List Text → List Socket.Reaction)

theorem receiveLoop_fuel {fuel : Nat} (hf : chunk.length ≤ fuel) (s : Socket) :
    Socket.receiveLoop maxFrameBytes handler fuel s chunk = s.receive maxFrameBytes handler chunk := by
  have key : ∀ f g (c : Bytes) (s : Socket), c.length ≤ f → c.length ≤ g →
      Socket.receiveLoop maxFrameBytes handler f s c = Socket.receiveLoop maxFrameBytes handler g s c := by
    intro f
    induction f with
    | zero =>
      intro g c s hf _
      have hnil : c = [] := eq_nil_of_length_eq_zero (by omega)
      cases g <;> simp [Socket.receiveLoop, hnil]
    | succ f ih =>
      intro g c s hf hg
      cases g with
      | zero =>
        have hnil : c = [] := eq_nil_of_length_eq_zero (by omega)
        simp [Socket.receiveLoop, hnil]
      | succ g =>
        rw [Socket.receiveLoop, Socket.receiveLoop]
        by_cases hn : NEWLINE ∈ c
        · obtain ⟨piece, rest, rfl, hp⟩ := eq_append_cons_of_mem hn
          rw [(Lines.takeWhile_line hp rest).2]
          rw [length_append, length_cons] at hf hg
          simp [ih g rest _ (by omega) (by omega)]
        · rw [(Lines.takeWhile_open hn).2]
  exact key fuel chunk.length chunk s hf (le_refl _)

theorem receive_stop (h : s.closed = true ∨ chunk = []) : s.receive maxFrameBytes handler chunk = s := by
  unfold Socket.receive
  cases chunk with
  | nil => rfl
  | cons b rest => rw [length_cons, Socket.receiveLoop, if_pos h]

theorem receive_hold (hs : s.closed = false) (hne : piece ≠ []) (hn : NEWLINE ∉ piece) :
    s.receive maxFrameBytes handler piece = if maxFrameBytes < s.partBytes + piece.length then s.shut
      else { s with parts := s.parts ++ [piece], partBytes := s.partBytes + piece.length } := by
  rw [← receiveLoop_fuel handler (Nat.le_succ _), Socket.receiveLoop, (Lines.takeWhile_open hn).1,
    (Lines.takeWhile_open hn).2, if_neg (by simpa [hs] using hne)]

theorem receive_frame (hs : s.closed = false) (hn : NEWLINE ∉ piece) (rest : Bytes) :
    s.receive maxFrameBytes handler (piece ++ NEWLINE :: rest) =
      if maxFrameBytes < s.partBytes + piece.length then s.shut
      else
        match decodeFatal (s.parts.flatten ++ piece) with
        | none => s.clearParts.shut
        | some text => (s.clearParts.onmessage maxFrameBytes handler text).receive maxFrameBytes handler rest := by
  have hl : rest.length ≤ (piece ++ NEWLINE :: rest).length := by
    rw [length_append, length_cons]
    omega
  rw [← receiveLoop_fuel handler (Nat.le_succ _), Socket.receiveLoop, (Lines.takeWhile_line hn rest).1,
    (Lines.takeWhile_line hn rest).2, if_neg (by simp [hs])]
  simp only [receiveLoop_fuel handler hl]

end

/-! ## What each operation keeps -/

def lines (ts : List Text) : Bytes := Lines.join NEWLINE (ts.map encode)

theorem newline_notMem_encode {t : Text} (h : '\n' ∉ t) : NEWLINE ∉ encode t :=
  fun hm => h (mem_encode_ascii (by decide) hm)

theorem clean_lines {ts : List Text} (h : ∀ t ∈ ts, '\n' ∉ t) : Lines.Clean NEWLINE (ts.map encode) := by
  intro l hl
  obtain ⟨t, ht, rfl⟩ := mem_map.mp hl
  exact newline_notMem_encode (h t ht)

theorem lines_append (ts : List Text) (t : Text) : lines (ts ++ [t]) = lines ts ++ encode (t ++ ['\n']) := by
  simp only [lines, map_append, Lines.join_append, map_cons, map_nil,
    Lines.join_cons, Lines.join_nil, encode_append]
  rfl

structure SenderOk (maxFrameBytes : Nat) (s : Socket) : Prop where
  counted : s.queuedBytes = ((s.queue.map List.length).sum : Nat)
  queued : s.closed = false → s.written ++ s.queue.flatten = lines s.accepted
  written : s.written <+: lines s.accepted
  dropped : s.closed = true → s.queue = []
  oneLine : ∀ t ∈ s.accepted, '\n' ∉ t
  bounded : ∀ t ∈ s.accepted, (encode t).length ≤ maxFrameBytes
  notified : s.oncloses = if s.closed then 1 else 0

/-- What the outbound operations leave of the inbound half, and of what was written. -/
structure Kept (s t : Socket) : Prop where
  messages : t.messages = s.messages
  written : s.written <+: t.written
  inbound : t.closed = false → s.closed = false ∧ t.parts = s.parts ∧ t.partBytes = s.partBytes

theorem Kept.refl (s : Socket) : Kept s s := ⟨rfl, prefix_refl _, fun h => ⟨h, rfl, rfl⟩⟩

theorem Kept.trans {u : Socket} (h : Kept s t) (k : Kept t u) : Kept s u := by
  refine ⟨k.messages.trans h.messages, h.written.trans k.written, fun hu => ?_⟩
  obtain ⟨ht, hp, hb⟩ := k.inbound hu
  obtain ⟨hs, hp', hb'⟩ := h.inbound ht
  exact ⟨hs, hp.trans hp', hb.trans hb'⟩

theorem SenderOk.fresh (maxFrameBytes : Nat) : SenderOk maxFrameBytes .fresh := by
  constructor <;> simp [Socket.fresh, lines]

section

variable {maxFrameBytes : Nat} {s : Socket}

theorem SenderOk.shut (h : SenderOk maxFrameBytes s) : SenderOk maxFrameBytes s.shut := by
  unfold Socket.shut
  split
  · exact h
  next hc =>
    exact ⟨rfl, by simp, h.written, fun _ => rfl, h.oneLine, h.bounded, by simp [h.notified, hc]⟩

theorem Kept.shut (s : Socket) : Kept s s.shut := by
  unfold Socket.shut
  split
  · exact Kept.refl s
  · exact ⟨rfl, prefix_refl _, by simp⟩

theorem Kept.flushLoop (s : Socket) (q : List Bytes) (answers : Nat → WriteAnswer) :
    Kept s (s.flushLoop q answers) := by
  induction q generalizing s answers with
  | nil => exact ⟨rfl, prefix_refl _, fun h => ⟨h, rfl, rfl⟩⟩
  | cons head rest ih =>
    rw [Socket.flushLoop]
    split
    · exact Kept.refl s
    split
    · exact Kept.shut s
    · exact Kept.shut s
    · split
      · exact ⟨rfl, prefix_append _ _, fun h => ⟨h, rfl, rfl⟩⟩
      · refine Kept.trans ?_ (ih _ _)
        exact ⟨rfl, prefix_append _ _, fun h => ⟨h, rfl, rfl⟩⟩

@[simp] theorem shut_accepted (s : Socket) : s.shut.accepted = s.accepted := by
  unfold Socket.shut
  split <;> rfl

theorem flushLoop_accepted (s : Socket) (q : List Bytes) (answers : Nat → WriteAnswer) :
    (s.flushLoop q answers).accepted = s.accepted := by
  induction q generalizing s answers with
  | nil => rfl
  | cons head rest ih =>
    rw [Socket.flushLoop]
    split
    · rfl
    split
    · exact shut_accepted s
    · exact shut_accepted s
    · split
      · rfl
      · exact ih _ _

/-- `flush` writes the queue's bytes in order and keeps the count. The induction is on the queue;
what is written and what is queued always make up the accepted frames. -/
theorem SenderOk.flushLoop {q : List Bytes} (h : SenderOk maxFrameBytes s) (hq : s.queue = q)
    (answers : Nat → WriteAnswer) : SenderOk maxFrameBytes (s.flushLoop q answers) := by
  induction q generalizing s answers with
  | nil => exact { h with }
  | cons head rest ih =>
    rw [Socket.flushLoop]
    split
    · exact h
    rename_i hc
    have hcount := h.counted
    have hall := h.queued (by simpa using hc)
    rw [hq] at hcount hall
    simp only [map_cons, sum_cons, flatten_cons] at hcount hall
    split
    · exact h.shut
    · exact h.shut
    rename_i n _
    split
    · have hsplit : (s.written ++ head.take n) ++ (head.drop n :: rest).flatten = lines s.accepted := by
        rw [flatten_cons, append_assoc, ← append_assoc (head.take n), take_append_drop, hall]
      refine ⟨?_, fun _ => hsplit, ⟨_, hsplit⟩, fun hc' => absurd hc' hc, h.oneLine, h.bounded, h.notified⟩
      simp only [map_cons, sum_cons, length_drop]
      omega
    · have hsplit : (s.written ++ head) ++ rest.flatten = lines s.accepted := by
        rw [append_assoc, hall]
      have hs : SenderOk maxFrameBytes
          { s with
            queue := rest, queuedBytes := s.queuedBytes - head.length,
            written := s.written ++ head } := by
        refine ⟨?_, fun _ => hsplit, ⟨_, hsplit⟩, fun hc' => absurd hc' hc, h.oneLine, h.bounded, h.notified⟩
        simp only
        omega
      exact ih hs rfl _

theorem SenderOk.flush (h : SenderOk maxFrameBytes s) (answers : Nat → WriteAnswer) :
    SenderOk maxFrameBytes (s.flush answers) := h.flushLoop rfl answers

theorem SenderOk.send (h : SenderOk maxFrameBytes s) (data : Text)
    (answers : Nat → WriteAnswer) : SenderOk maxFrameBytes (s.send maxFrameBytes data answers) := by
  unfold Socket.send
  split
  · exact h
  split
  · exact h
  simp only
  split
  · exact h
  rename_i hc hnl hlen
  have hbytes : (encode (data ++ ['\n'])).length = (encode data).length + 1 := by
    rw [encode_append, length_append]
    rfl
  have hs : SenderOk maxFrameBytes
      { s with
        queue := s.queue ++ [encode (data ++ ['\n'])],
        queuedBytes := s.queuedBytes + (encode (data ++ ['\n'])).length,
        accepted := s.accepted ++ [data] } := by
    have hall := h.queued (by simpa using hc)
    refine ⟨?_, fun _ => ?_, ?_, fun hc' => absurd hc' hc, ?_, ?_, h.notified⟩
    · simp only [map_append, sum_append, h.counted, map_cons, map_nil, sum_cons, sum_nil]
      omega
    · simp only [flatten_append, flatten_cons, flatten_nil, append_nil]
      rw [← append_assoc, hall, lines_append]
    · simp only [lines_append]
      exact h.written.trans (prefix_append _ _)
    · intro t ht
      rcases Places.mem_concat_cases ht with ht | rfl
      · exact h.oneLine t ht
      · exact hnl
    · intro t ht
      rcases Places.mem_concat_cases ht with ht | rfl
      · exact h.bounded t ht
      · omega
  split
  · exact hs.flush answers
  · exact hs

theorem Kept.send (s : Socket) (data : Text) (answers : Nat → WriteAnswer) :
    Kept s (s.send maxFrameBytes data answers) := by
  unfold Socket.send
  split
  · exact Kept.refl s
  split
  · exact Kept.refl s
  simp only
  split
  · exact Kept.refl s
  have hk : Kept s
      { s with
        queue := s.queue ++ [encode (data ++ ['\n'])],
        queuedBytes := s.queuedBytes + (encode (data ++ ['\n'])).length,
        accepted := s.accepted ++ [data] } := ⟨rfl, prefix_refl _, fun h => ⟨h, rfl, rfl⟩⟩
  split
  · exact hk.trans (Kept.flushLoop _ _ _)
  · exact hk

theorem SenderOk.drained (h : SenderOk maxFrameBytes s) (waiter : Nat) : SenderOk maxFrameBytes (s.drained waiter) := by
  unfold Socket.drained
  split <;> exact { h with }

theorem Kept.drained (s : Socket) (waiter : Nat) : Kept s (s.drained waiter) := by
  unfold Socket.drained
  split <;> exact ⟨rfl, prefix_refl _, fun h => ⟨h, rfl, rfl⟩⟩

theorem SenderOk.react (h : SenderOk maxFrameBytes s) (r : Socket.Reaction) :
    SenderOk maxFrameBytes (s.react maxFrameBytes r) := by
  cases r with
  | send data answers => exact h.send data answers
  | close => exact h.shut

theorem Kept.react (s : Socket) (r : Socket.Reaction) : Kept s (s.react maxFrameBytes r) := by
  cases r with
  | send data answers => exact Kept.send s data answers
  | close => exact Kept.shut s

theorem SenderOk.reactions (h : SenderOk maxFrameBytes s) (rs : List Socket.Reaction) :
    SenderOk maxFrameBytes (rs.foldl (Socket.react maxFrameBytes) s) := by
  induction rs generalizing s with
  | nil => exact h
  | cons r rs ih => exact ih (h.react r)

theorem Kept.reactions (s : Socket) (rs : List Socket.Reaction) : Kept s (rs.foldl (Socket.react maxFrameBytes) s) := by
  induction rs generalizing s with
  | nil => exact Kept.refl s
  | cons r rs ih => exact (Kept.react s r).trans (ih _)

theorem SenderOk.inbound (h : SenderOk maxFrameBytes s) (parts : List Bytes) (partBytes : Nat) (messages : List Text) :
    SenderOk maxFrameBytes { s with parts := parts, partBytes := partBytes, messages := messages } :=
  { h with }

theorem SenderOk.onmessage (h : SenderOk maxFrameBytes s) (handler : List Text → List Socket.Reaction) (text : Text) :
    SenderOk maxFrameBytes (s.onmessage maxFrameBytes handler text) :=
  (h.inbound s.parts s.partBytes _).reactions _

theorem SenderOk.receive (h : SenderOk maxFrameBytes s) (handler : List Text → List Socket.Reaction) (chunk : Bytes) :
    SenderOk maxFrameBytes (s.receive maxFrameBytes handler chunk) := by
  induction chunk using chunk_induction generalizing s with
  | hold piece hn =>
    by_cases hstop : s.closed = true ∨ piece = []
    · rwa [receive_stop handler hstop]
    rw [receive_hold handler (by simpa using (not_or.mp hstop).1) (not_or.mp hstop).2 hn]
    split
    · exact h.shut
    · exact h.inbound _ _ s.messages
  | frame piece rest hn ih =>
    cases hs : s.closed with
    | true => rwa [receive_stop handler (Or.inl hs)]
    | false =>
      rw [receive_frame handler hs hn]
      have hclear : SenderOk maxFrameBytes s.clearParts := h.inbound [] 0 s.messages
      split
      · exact h.shut
      split
      · exact hclear.shut
      · exact ih (hclear.onmessage handler _)

theorem Kept.onmessage (s : Socket) (handler : List Text → List Socket.Reaction) (text : Text) :
    Kept { s with messages := s.messages ++ [text] } (s.onmessage maxFrameBytes handler text) :=
  Kept.reactions _ _

theorem receive_written (handler : List Text → List Socket.Reaction) (s : Socket)
    (chunk : Bytes) : s.written <+: (s.receive maxFrameBytes handler chunk).written := by
  induction chunk using chunk_induction generalizing s with
  | hold piece hn =>
    by_cases hstop : s.closed = true ∨ piece = []
    · rw [receive_stop handler hstop]
    rw [receive_hold handler (by simpa using (not_or.mp hstop).1) (not_or.mp hstop).2 hn]
    split
    · exact (Kept.shut s).written
    · exact prefix_refl _
  | frame piece rest hn ih =>
    cases hs : s.closed with
    | true => rw [receive_stop handler (Or.inl hs)]
    | false =>
      rw [receive_frame handler hs hn]
      split
      · exact (Kept.shut s).written
      split
      · exact (Kept.shut s.clearParts).written
      · exact (Kept.onmessage s.clearParts handler _).written.trans (ih _)

/-! ## Receiving -/

/-- The inbound half, once the bytes `got` have arrived: it has found the complete frames among
them, and holds the rest. -/
def ReceiverOk (s : Socket) (got : Bytes) : Prop :=
  ∃ frames : List Bytes, frames.map decodeFatal = s.messages.map some ∧ Lines.Clean NEWLINE frames ∧
    Lines.join NEWLINE frames <+: got ∧
    (s.closed = false → got = Lines.join NEWLINE frames ++ s.parts.flatten ∧ NEWLINE ∉ s.parts.flatten ∧
        s.partBytes = s.parts.flatten.length)

variable {got : Bytes}

theorem ReceiverOk.fresh : ReceiverOk .fresh [] := ⟨[], rfl, by simp [Lines.Clean], by simp, by simp [Socket.fresh]⟩

theorem ReceiverOk.kept (h : ReceiverOk s got) (k : Kept s t) : ReceiverOk t got := by
  obtain ⟨frames, hd, hc, hp, hopen⟩ := h
  refine ⟨frames, by rw [hd, k.messages], hc, hp, fun ht => ?_⟩
  obtain ⟨hs, hparts, hbytes⟩ := k.inbound ht
  rw [hparts, hbytes]
  exact hopen hs

theorem ReceiverOk.ignore (h : ReceiverOk s got) (hc : s.closed = true) (chunk : Bytes) :
    ReceiverOk s (got ++ chunk) := by
  obtain ⟨frames, hd, hcl, hp, -⟩ := h
  exact ⟨frames, hd, hcl, hp.trans (prefix_append _ _), by simp [hc]⟩

theorem shut_closed (s : Socket) : s.shut.closed = true := by
  unfold Socket.shut
  split
  · assumption
  · rfl

theorem ReceiverOk.hold (h : ReceiverOk s got) (hc : s.closed = false) (hn : NEWLINE ∉ piece) :
    ReceiverOk { s with parts := s.parts ++ [piece], partBytes := s.partBytes + piece.length } (got ++ piece) := by
  obtain ⟨frames, hd, hcl, hp, hopen⟩ := h
  obtain ⟨hgot, hnl, hlen⟩ := hopen hc
  refine ⟨frames, hd, hcl, hp.trans (prefix_append _ _), fun _ => ⟨?_, ?_, ?_⟩⟩
  · simp [hgot]
  · simpa using ⟨by simpa using hnl, hn⟩
  · simp [hlen]

theorem ReceiverOk.frame (h : ReceiverOk s got) (hc : s.closed = false) (hn : NEWLINE ∉ piece) {text : Text}
    (ht : decodeFatal (s.parts.flatten ++ piece) = some text) :
    ReceiverOk { s.clearParts with messages := s.messages ++ [text] } (got ++ piece ++ [NEWLINE]) := by
  obtain ⟨frames, hd, hcl, hp, hopen⟩ := h
  obtain ⟨hgot, hnl, -⟩ := hopen hc
  have hjoin : got ++ piece ++ [NEWLINE] = Lines.join NEWLINE (frames ++ [s.parts.flatten ++ piece]) := by
    rw [Lines.join_append, Lines.join_cons, Lines.join_nil, hgot]
    simp
  refine ⟨frames ++ [s.parts.flatten ++ piece], ?_, hcl.append ?_, ?_, fun _ => ⟨?_, ?_, rfl⟩⟩
  · simp [hd, ht]
  · rw [mem_append]
    exact fun h => h.elim hnl hn
  · rw [hjoin]
  · simp [hjoin, Socket.clearParts]
  · simp [Socket.clearParts]

theorem ReceiverOk.onmessage (h : ReceiverOk s got) (hc : s.closed = false) (hn : NEWLINE ∉ piece) {text : Text}
    (ht : decodeFatal (s.parts.flatten ++ piece) = some text)
    (handler : List Text → List Socket.Reaction) :
    ReceiverOk (s.clearParts.onmessage maxFrameBytes handler text) (got ++ piece ++ [NEWLINE]) :=
  (h.frame hc hn ht).kept (Kept.onmessage s.clearParts handler text)

/-- **`receive` finds the frames of whatever arrives.** -/
theorem ReceiverOk.receive (handler : List Text → List Socket.Reaction) (h : ReceiverOk s got)
    (chunk : Bytes) : ReceiverOk (s.receive maxFrameBytes handler chunk) (got ++ chunk) := by
  cases hs : s.closed with
  | true =>
    rw [receive_stop handler (Or.inl hs)]
    exact h.ignore hs chunk
  | false =>
    induction chunk using chunk_induction generalizing s got with
    | hold piece hn =>
      by_cases hp : piece = []
      · rw [receive_stop handler (Or.inr hp), hp, append_nil]
        exact h
      rw [receive_hold handler hs hp hn]
      split
      · exact (h.kept (Kept.shut s)).ignore (shut_closed s) _
      · exact h.hold hs hn
    | frame piece rest hn ih =>
      rw [receive_frame handler hs hn]
      split
      · exact (h.kept (Kept.shut s)).ignore (shut_closed s) _
      split
      · have hclear : ReceiverOk s.clearParts.shut got := by
          obtain ⟨frames, hd, hcl, hp, -⟩ := h
          refine ⟨frames, ?_, hcl, hp, fun hc => absurd (shut_closed s.clearParts) (by simp [hc])⟩
          rw [(Kept.shut s.clearParts).messages]
          exact hd
        exact hclear.ignore (shut_closed _) _
      next text ht =>
        have hm : ReceiverOk (s.clearParts.onmessage maxFrameBytes handler text)
            (got ++ piece ++ [NEWLINE]) := h.onmessage hs hn ht handler
        rw [show got ++ (piece ++ NEWLINE :: rest) = (got ++ piece ++ [NEWLINE]) ++ rest by simp]
        cases hc : (s.clearParts.onmessage maxFrameBytes handler text).closed with
        | true =>
          rw [receive_stop handler (Or.inl hc)]
          exact hm.ignore hc rest
        | false => exact ih hm hc

/-! ## Nothing closes but what says so -/

/-- A stream that neither fails nor closes. -/
def Taking (answers : Nat → WriteAnswer) : Prop := ∀ i, ∃ n, answers i = .accepted n

def Socket.Reaction.Quiet : Socket.Reaction → Prop
  | .send _ answers => Taking answers
  | .close => False

theorem flushLoop_open {q : List Bytes} {answers : Nat → WriteAnswer} (ha : Taking answers)
    (hs : s.closed = false) : (s.flushLoop q answers).closed = false := by
  induction q generalizing s answers with
  | nil => exact hs
  | cons head rest ih =>
    obtain ⟨n, hn⟩ := ha 0
    rw [Socket.flushLoop, if_neg (by simp [hs]), hn]
    simp only
    split
    · exact hs
    · exact ih (fun i => ha (i + 1)) hs

theorem send_open {data : Text} {answers : Nat → WriteAnswer} (ha : Taking answers)
    (hs : s.closed = false) : (s.send maxFrameBytes data answers).closed = false := by
  unfold Socket.send
  split
  · exact hs
  split
  · exact hs
  simp only
  split
  · exact hs
  split
  · exact flushLoop_open ha hs
  · exact hs

theorem reactions_open {rs : List Socket.Reaction} (hr : ∀ r ∈ rs, r.Quiet)
    (hs : s.closed = false) : (rs.foldl (Socket.react maxFrameBytes) s).closed = false := by
  induction rs generalizing s with
  | nil => exact hs
  | cons r rs ih =>
    refine ih (fun x hx => hr x (by simp [hx])) ?_
    have hq := hr r (by simp)
    cases r with
    | send data answers => exact send_open hq hs
    | close => exact hq.elim
/-- What is being read of an honest stream is the start of a frame that was sent, and all of it
once the newline is there. -/
theorem ReceiverOk.reading (h : ReceiverOk s got) (hs : s.closed = false) {sent : List Text}
    (hone : ∀ t ∈ sent, '\n' ∉ t) (more : Bytes) (hn : NEWLINE ∉ piece)
    (hne : piece ++ more ≠ []) (hp : got ++ (piece ++ more) <+: lines sent) :
    ∃ t ∈ sent, s.partBytes + piece.length ≤ (encode t).length ∧
      ∀ rest, more = NEWLINE :: rest → s.parts.flatten ++ piece = encode t := by
  obtain ⟨frames, -, hcl, -, hopen⟩ := h
  obtain ⟨rfl, hnl, hlen⟩ := hopen hs
  have hn' : NEWLINE ∉ s.parts.flatten ++ piece := by
    rw [mem_append]
    exact fun h => h.elim hnl hn
  rw [append_assoc] at hp
  obtain ⟨next, hnext, hp⟩ := Lines.join_prefix (clean_lines hone) hcl hp
  cases next with
  | nil => exact absurd (append_eq_nil_iff.mp (prefix_nil.mp hp)).2 hne
  | cons f next =>
    have hf : f ∈ sent.map encode := by simp [hnext]
    obtain ⟨t, ht, rfl⟩ := mem_map.mp hf
    have hpre : s.parts.flatten ++ piece <+: s.parts.flatten ++ (piece ++ more) := by simp
    refine ⟨t, ht, ?_, ?_⟩
    · have hle := (Lines.prefix_join_cons hn' (hpre.trans hp)).length_le
      rwa [length_append, ← hlen] at hle
    rintro rest rfl
    obtain ⟨u, hu⟩ := hp
    rw [Lines.join_cons] at hu
    have hsplit : (s.parts.flatten ++ piece) ++ NEWLINE :: (rest ++ u)
        = encode t ++ NEWLINE :: Lines.join NEWLINE next := by
      rw [← hu]
      simp
    exact (Lines.first_inj hn' (newline_notMem_encode (hone t ht)) hsplit).1

/-- **An honest stream never closes its reader.** As long as the bytes are an initial part of
frames within the cap, however they are cut, the loop neither overflows nor fails to decode. -/
theorem receive_open {handler : List Text → List Socket.Reaction}
    (hh : ∀ ms, ∀ r ∈ handler ms, r.Quiet) {sent : List Text}
    (hone : ∀ t ∈ sent, '\n' ∉ t) (hbound : ∀ t ∈ sent, (encode t).length ≤ maxFrameBytes)
    (h : ReceiverOk s got) (hs : s.closed = false) (hp : got ++ chunk <+: lines sent) :
    (s.receive maxFrameBytes handler chunk).closed = false := by
  induction chunk using chunk_induction generalizing s got with
  | hold piece hn =>
    by_cases hne : piece = []
    · rwa [receive_stop handler (Or.inr hne)]
    obtain ⟨t, ht, hle, -⟩ := h.reading hs hone [] hn (by simpa using hne) (by simpa using hp)
    have := hbound t ht
    rw [receive_hold handler hs hne hn, if_neg (by omega)]
    exact hs
  | frame piece rest hn ih =>
    obtain ⟨t, ht, hle, hframe⟩ := h.reading hs hone (NEWLINE :: rest) hn (by simp) hp
    have := hbound t ht
    have hdecode : decodeFatal (s.parts.flatten ++ piece) = some t := by
      rw [hframe rest rfl, decodeFatal_encode]
    rw [receive_frame handler hs hn, if_neg (by omega), hdecode]
    refine ih (h.onmessage hs hn hdecode handler) (reactions_open (hh _) hs) ?_
    simpa using hp

/-! ## How a chunk is cut does not matter -/

/-- Two sockets that differ only in how the unfinished frame is cut into parts. -/
def Same (s t : Socket) : Prop := ∃ parts, t = { s with parts := parts } ∧ parts.flatten = s.parts.flatten

theorem Same.refl (s : Socket) : Same s s := ⟨s.parts, rfl, rfl⟩

theorem Same.symm (h : Same s t) : Same t s := by
  obtain ⟨parts, rfl, hp⟩ := h
  exact ⟨s.parts, rfl, hp.symm⟩

theorem Same.trans {u : Socket} (h : Same s t) (k : Same t u) : Same s u := by
  obtain ⟨parts, rfl, hp⟩ := h
  obtain ⟨parts', rfl, hp'⟩ := k
  exact ⟨parts', rfl, hp'.trans hp⟩

theorem Same.shut (h : Same s t) : Same s.shut t.shut := by
  obtain ⟨parts, rfl, hp⟩ := h
  unfold Socket.shut
  split
  · exact ⟨parts, rfl, hp⟩
  · exact Same.refl _

theorem Same.reads (h : Same s t) :
    t.closed = s.closed ∧ t.partBytes = s.partBytes ∧ t.parts.flatten = s.parts.flatten ∧
      t.clearParts = s.clearParts := by
  obtain ⟨parts, rfl, hp⟩ := h
  exact ⟨rfl, rfl, hp, rfl⟩

theorem Same.hold (h : Same s t) (piece : Bytes) :
    Same { s with parts := s.parts ++ [piece], partBytes := s.partBytes + piece.length }
      { t with parts := t.parts ++ [piece], partBytes := t.partBytes + piece.length } := by
  obtain ⟨parts, rfl, hp⟩ := h
  exact ⟨parts ++ [piece], rfl, by simp [hp]⟩

/-- From the first newline on the two are equal: a frame does not remember its parts. -/
theorem Same.receive (handler : List Text → List Socket.Reaction) (h : Same s t) (chunk : Bytes) :
    Same (s.receive maxFrameBytes handler chunk) (t.receive maxFrameBytes handler chunk) := by
  obtain ⟨hclosed, hbytes, hflat, hclear⟩ := h.reads
  rcases Bool.eq_false_or_eq_true s.closed with hs | hs
  · rwa [receive_stop handler (Or.inl hs), receive_stop handler (Or.inl (hclosed.trans hs))]
  have ht := hclosed.trans hs
  by_cases hn : NEWLINE ∈ chunk
  · obtain ⟨piece, rest, rfl, hp⟩ := eq_append_cons_of_mem hn
    rw [receive_frame handler hs hp, receive_frame handler ht hp, hbytes, hflat, hclear]
    split
    · exact h.shut
    · exact Same.refl _
  · by_cases hne : chunk = []
    · rwa [receive_stop handler (Or.inr hne), receive_stop handler (Or.inr hne)]
    rw [receive_hold handler hs hne hn, receive_hold handler ht hne hn]
    by_cases hcap : maxFrameBytes < s.partBytes + chunk.length
    · rw [if_pos hcap, if_pos (by rwa [hbytes])]
      exact h.shut
    · rw [if_neg hcap, if_neg (by rwa [hbytes])]
      exact h.hold chunk

theorem receive_newline (handler : List Text → List Socket.Reaction) (hs : s.closed = false) (rest : Bytes) :
    s.receive maxFrameBytes handler (NEWLINE :: rest)
      = (s.receive maxFrameBytes handler [NEWLINE]).receive maxFrameBytes handler rest := by
  have h : ∀ rest, s.receive maxFrameBytes handler (NEWLINE :: rest) = if maxFrameBytes < s.partBytes + 0 then s.shut
        else
          match decodeFatal (s.parts.flatten ++ []) with
          | none => s.clearParts.shut
          | some text =>
            (s.clearParts.onmessage maxFrameBytes handler text).receive maxFrameBytes handler
              rest := by
    have hn : NEWLINE ∉ ([] : Bytes) := by simp
    exact fun rest => receive_frame handler hs hn rest
  rw [h rest, h []]
  split
  · rw [receive_stop handler (Or.inl (shut_closed s))]
  split
  · rw [receive_stop handler (Or.inl (shut_closed _))]
  · rw [receive_stop handler (Or.inr (Eq.refl ([] : Bytes)))]

/-- A first byte that does not: it is held, or it is one too many. -/
theorem receive_byte (handler : List Text → List Socket.Reaction) (hs : s.closed = false)
    {b : UInt8} (hb : b ≠ NEWLINE) (rest : Bytes) :
    Same (s.receive maxFrameBytes handler (b :: rest))
      ((s.receive maxFrameBytes handler [b]).receive maxFrameBytes handler rest) := by
  have hcons : ∀ piece : Bytes, NEWLINE ∉ piece → NEWLINE ∉ b :: piece :=
    fun piece hn hm => (mem_cons.mp hm).elim (fun e => hb e.symm) hn
  rw [receive_hold handler hs (cons_ne_nil b []) (hcons [] (by simp))]
  by_cases hcap : maxFrameBytes < s.partBytes + [b].length
  · have hover : ∀ piece : Bytes, maxFrameBytes < s.partBytes + (b :: piece).length := by
      intro piece
      simp only [length_cons, length_nil] at hcap ⊢
      omega
    have hall : s.receive maxFrameBytes handler (b :: rest) = s.shut := by
      by_cases hn : NEWLINE ∈ rest
      · obtain ⟨piece, more, rfl, hp⟩ := eq_append_cons_of_mem hn
        rw [← cons_append, receive_frame handler hs (hcons piece hp), if_pos (hover piece)]
      · rw [receive_hold handler hs (cons_ne_nil b rest) (hcons rest hn), if_pos (hover rest)]
    rw [hall, if_pos hcap, receive_stop handler (Or.inl (shut_closed s))]
    exact Same.refl _
  · rw [if_neg hcap]
    generalize ht : { s with parts := s.parts ++ [[b]], partBytes := s.partBytes + [b].length } = t
    have htc : t.closed = false := by rw [← ht]; exact hs
    have hbytes : ∀ piece : Bytes, t.partBytes + piece.length = s.partBytes + (b :: piece).length := by
      intro piece
      rw [← ht]
      simp only [length_cons, length_nil]
      omega
    have hflat : ∀ piece : Bytes, t.parts.flatten ++ piece = s.parts.flatten ++ b :: piece := by
      intro piece
      rw [← ht]
      simp
    have hclear : t.clearParts = s.clearParts := by rw [← ht]; rfl
    have hshut : t.shut = s.shut := by rw [← ht]; simp [Socket.shut, hs]
    by_cases hn : NEWLINE ∈ rest
    · obtain ⟨piece, more, rfl, hp⟩ := eq_append_cons_of_mem hn
      rw [← cons_append, receive_frame handler hs (hcons piece hp),
        receive_frame handler htc hp, hbytes, hflat, hclear, hshut]
      exact Same.refl _
    · by_cases hne : rest = []
      · rw [hne, receive_stop handler (Or.inr rfl), receive_hold handler hs (cons_ne_nil b [])
          (hcons [] (by simp)), if_neg hcap, ht]
        exact Same.refl _
      rw [receive_hold handler hs (cons_ne_nil b rest) (hcons rest hn),
        receive_hold handler htc hne hn, hbytes, hshut]
      split
      · exact Same.refl _
      · rw [← ht]
        exact ⟨s.parts ++ [[b]] ++ [rest], rfl, by simp⟩

/-- **A chunk is its first byte as a chunk, then the others as one.** -/
theorem receive_cons (handler : List Text → List Socket.Reaction) (s : Socket) (b : UInt8) (rest : Bytes) :
    Same (s.receive maxFrameBytes handler (b :: rest))
      ((s.receive maxFrameBytes handler [b]).receive maxFrameBytes handler rest) := by
  rcases Bool.eq_false_or_eq_true s.closed with hs | hs
  · simp [receive_stop handler (Or.inl hs), Same.refl]
  by_cases hb : b = NEWLINE
  · rw [hb, receive_newline handler hs]
    exact Same.refl _
  · exact receive_byte handler hs hb rest

theorem receive_append (handler : List Text → List Socket.Reaction) (s : Socket) (a b : Bytes) :
    Same (s.receive maxFrameBytes handler (a ++ b))
      ((s.receive maxFrameBytes handler a).receive maxFrameBytes handler b) := by
  induction a generalizing s with
  | nil =>
    rw [receive_stop handler (Or.inr (Eq.refl ([] : Bytes)))]
    exact Same.refl _
  | cons x a ih =>
    refine (receive_cons handler s x (a ++ b)).trans ((ih _).trans ?_)
    exact ((receive_cons handler s x a).receive handler b).symm

/-- **However the bytes are cut into chunks, the socket reads the same.** -/
theorem receive_chunks (handler : List Text → List Socket.Reaction) (s : Socket) (chunks : List Bytes) :
    Same (s.receive maxFrameBytes handler chunks.flatten)
      (chunks.foldl (fun s c => s.receive maxFrameBytes handler c) s) := by
  induction chunks generalizing s with
  | nil =>
    rw [flatten_nil, receive_stop handler (Or.inr rfl)]
    exact Same.refl s
  | cons c cs ih =>
    rw [flatten_cons, foldl_cons]
    exact (receive_append handler s c cs.flatten).trans (ih _)

end

end Reins.LocalSocket
