import Reins.NodeProtocol.LocalSocket

/-!
# A local link, end to end

Two sockets, each the other's stream. The bytes one has written arrive at the other in chunks of
any size, whenever the environment says; everything else that can happen to a link is an event
of one of its sides. `LinkOk` says of each direction that the sender has written an initial part
of its frames and that the receiver has found the frames among what has arrived: the two meet in
the bytes, and `Lines.join_prefix` turns the prefix of bytes into a prefix of frames.
-/

open Utf List

namespace Reins.LocalSocket

inductive Side
  | server
  | node
  deriving DecidableEq, Repr

def Side.other : Side → Side
  | .server => .node
  | .node => .server

variable {P : Text → Prop} {side : Side} {t : Socket}

@[simp] theorem Side.other_other (side : Side) : side.other.other = side := by cases side <;> rfl

theorem Side.eq_or_eq (a b : Side) : a = b ∨ a = b.other := by cases a <;> cases b <;> simp [other]

theorem Side.other_ne (side : Side) : side.other ≠ side := by cases side <;> simp [other]

/-- Both sockets, and how many of the bytes the other side has written have arrived at each. -/
structure Link where
  sock : Side → Socket
  arrived : Side → Nat

namespace Link

def fresh : Link := { sock := fun _ => .fresh, arrived := fun _ => 0 }

def inTransit (l : Link) (side : Side) : Bytes := (l.sock side.other).written.drop (l.arrived side)

def set (l : Link) (side : Side) (s : Socket) : Link := { l with sock := Function.update l.sock side s }

/-- Some more of the bytes in transit have arrived. -/
def advance (l : Link) (side : Side) (n : Nat) : Link :=
  { l with arrived := Function.update l.arrived side (l.arrived side + n) }

@[simp] theorem set_self (l : Link) (side : Side) (s : Socket) : (l.set side s).sock side = s := Function.update_self ..

@[simp] theorem set_other (l : Link) (side : Side) (s : Socket) : (l.set side s).sock side.other = l.sock side.other :=
  Function.update_of_ne side.other_ne ..

@[simp] theorem set_arrived (l : Link) (side : Side) (s : Socket) : (l.set side s).arrived = l.arrived := rfl

@[simp] theorem advance_sock (l : Link) (side : Side) (n : Nat) : (l.advance side n).sock = l.sock := rfl

@[simp] theorem advance_self (l : Link) (side : Side) (n : Nat) :
    (l.advance side n).arrived side = l.arrived side + n := Function.update_self ..

@[simp] theorem advance_other (l : Link) (side : Side) (n : Nat) :
    (l.advance side n).arrived side.other = l.arrived side.other :=
  Function.update_of_ne side.other_ne ..

end Link

inductive Event
  | send (side : Side) (data : Text) (answers : Nat → WriteAnswer)
  | drain (side : Side) (answers : Nat → WriteAnswer)
  | drained (side : Side) (waiter : Nat)
  /-- `close()`, or the stream ending, failing or closing. -/
  | shut (side : Side)
  /-- The next bytes in transit arrive as one chunk. -/
  | arrive (side : Side) (size : Nat) (handler : List Text → List Socket.Reaction)

def step (maxFrameBytes : Nat) (l : Link) : Event → Link
  | .send side data answers => l.set side ((l.sock side).send maxFrameBytes data answers)
  | .drain side answers => l.set side ((l.sock side).flush answers)
  | .drained side waiter => l.set side ((l.sock side).drained waiter)
  | .shut side => l.set side (l.sock side).shut
  | .arrive side size handler =>
    let chunk := (l.inTransit side).take size
    (l.set side ((l.sock side).receive maxFrameBytes handler chunk)).advance side chunk.length

def Event.Quiet : Event → Prop
  | .send _ _ answers => Taking answers
  | .drain _ answers => Taking answers
  | .drained _ _ => True
  | .shut _ => False
  | .arrive _ _ handler => ∀ ms, ∀ r ∈ handler ms, r.Quiet

/-! ## The invariant -/

def Link.got (l : Link) (side : Side) : Bytes := (l.sock side.other).written.take (l.arrived side)

structure Direction (maxFrameBytes : Nat) (l : Link) (side : Side) : Prop where
  sender : SenderOk maxFrameBytes (l.sock side.other)
  arrived : l.arrived side ≤ (l.sock side.other).written.length
  receiver : ReceiverOk (l.sock side) (l.got side)

def LinkOk (maxFrameBytes : Nat) (l : Link) : Prop := ∀ side, Direction maxFrameBytes l side

theorem LinkOk.fresh (maxFrameBytes : Nat) : LinkOk maxFrameBytes .fresh :=
  fun _ => ⟨SenderOk.fresh _, Nat.zero_le _, ReceiverOk.fresh⟩

section

variable {maxFrameBytes : Nat} {l : Link}

theorem LinkOk.senderOk (h : LinkOk maxFrameBytes l) (side : Side) : SenderOk maxFrameBytes (l.sock side) := by
  simpa using (h side.other).sender

theorem Direction.write (h : Direction maxFrameBytes l side.other)
    (ht : SenderOk maxFrameBytes t) (hw : (l.sock side).written <+: t.written) :
    Direction maxFrameBytes (l.set side t) side.other := by
  have ha : l.arrived side.other ≤ (l.sock side).written.length := by simpa using h.arrived
  obtain ⟨more, hm⟩ := hw
  have hgot : (l.set side t).got side.other = l.got side.other := by
    simp only [Link.got, Side.other_other, Link.set_self, Link.set_arrived, ← hm]
    exact take_append_of_le_length ha
  refine ⟨by simpa using ht, ?_, ?_⟩
  · simp only [Side.other_other, Link.set_self, Link.set_arrived, ← hm, length_append]
    omega
  · rw [hgot, Link.set_other]
    exact h.receiver

theorem LinkOk.set (h : LinkOk maxFrameBytes l) (ht : SenderOk maxFrameBytes t) (k : Kept (l.sock side) t) :
    LinkOk maxFrameBytes (l.set side t) := by
  intro x
  rcases Side.eq_or_eq x side with rfl | rfl
  · obtain ⟨hs, ha, hr⟩ := h x
    refine ⟨by simpa using hs, by simpa using ha, ?_⟩
    rw [Link.set_self, Link.got, Link.set_other]
    exact hr.kept k
  · exact (h side.other).write ht k.written

theorem Direction.got_append (h : Direction maxFrameBytes l side) (size : Nat) :
    (l.sock side.other).written.take (l.arrived side + ((l.inTransit side).take size).length)
        = l.got side ++ (l.inTransit side).take size ∧
      l.arrived side + ((l.inTransit side).take size).length ≤ (l.sock side.other).written.length := by
  have ha := h.arrived
  simp only [Link.got, Link.inTransit, List.length_take, length_drop]
  refine ⟨?_, by omega⟩
  rw [take_add, take_eq_take_min]
  simp

theorem LinkOk.arrive (h : LinkOk maxFrameBytes l) (side : Side) (size : Nat)
    (handler : List Text → List Socket.Reaction) :
    LinkOk maxFrameBytes (step maxFrameBytes l (.arrive side size handler)) := by
  obtain ⟨hgot, ha⟩ := (h side).got_append size
  simp only [step]
  generalize (l.inTransit side).take size = chunk at hgot ha
  have hw : (l.sock side).written <+: ((l.sock side).receive maxFrameBytes handler chunk).written := receive_written ..
  have hs := (h.senderOk side).receive handler chunk
  intro x
  rcases Side.eq_or_eq x side with rfl | rfl
  · refine ⟨by simpa using (h x).sender, by simpa using ha, ?_⟩
    have : ((l.set x ((l.sock x).receive maxFrameBytes handler chunk)).advance x
        chunk.length).got x = l.got x ++ chunk := by
      rw [← hgot]
      simp [Link.got]
    rw [this]
    simpa using (h x).receiver.receive handler chunk
  · obtain ⟨h1, h2, h3⟩ := (h side.other).write hs hw
    exact ⟨h1, by simpa using h2, by simpa [Link.got] using h3⟩

theorem LinkOk.step (h : LinkOk maxFrameBytes l) (e : Event) : LinkOk maxFrameBytes (step maxFrameBytes l e) := by
  cases e with
  | send side data answers => exact h.set ((h.senderOk side).send data answers) (Kept.send _ _ _)
  | drain side answers => exact h.set ((h.senderOk side).flush answers) (Kept.flushLoop _ _ _)
  | drained side waiter => exact h.set ((h.senderOk side).drained waiter) (Kept.drained _ _)
  | shut side => exact h.set (h.senderOk side).shut (Kept.shut _)
  | arrive side size handler => exact h.arrive side size handler

/-! ## What the invariant says -/

theorem messages_within {messages sent : List Text} {frames : List Bytes}
    (hd : frames.map decodeFatal = messages.map some) (hp : frames <+: sent.map encode) :
    messages <+: sent := by
  obtain ⟨rest, hr⟩ := hp
  obtain ⟨first, more, rfl, rfl, -⟩ := append_eq_map_iff.mp hr
  have hfirst : first.map some = messages.map some := by
    rw [← hd, map_map]
    exact map_congr_left fun t _ => (decodeFatal_encode t).symm
  have hsome : Function.Injective (some : Text → Option Text) := fun _ _ => Option.some.inj
  rw [map_injective_iff.mpr hsome hfirst]
  exact prefix_append _ _

/-- **What a side was handed is an initial part of what the other accepted.** -/
theorem Direction.messages (h : Direction maxFrameBytes l side) :
    (l.sock side).messages <+: (l.sock side.other).accepted := by
  obtain ⟨frames, hd, hcl, hp, -⟩ := h.receiver
  have hall : Lines.join NEWLINE frames ++ [] <+: lines (l.sock side.other).accepted := by
    rw [append_nil]
    exact (hp.trans (List.take_prefix _ _)).trans h.sender.written
  obtain ⟨rest, hr, -⟩ := Lines.join_prefix (clean_lines h.sender.oneLine) hcl hall
  exact messages_within hd ⟨rest, hr.symm⟩

theorem Direction.complete (h : Direction maxFrameBytes l side)
    (hopen : (l.sock side).closed = false) (hother : (l.sock side.other).closed = false)
    (hq : (l.sock side.other).queue = []) (ht : l.inTransit side = []) :
    (l.sock side).messages = (l.sock side.other).accepted := by
  obtain ⟨frames, hd, hcl, -, hr⟩ := h.receiver
  obtain ⟨hgot, hnl, -⟩ := hr hopen
  have hlines := h.sender.queued hother
  rw [hq, flatten_nil, append_nil] at hlines
  have hall : l.got side = (l.sock side.other).written := by
    rw [Link.got, take_of_length_le]
    simpa [Link.inTransit] using ht
  rw [hall, hlines] at hgot
  have hf := (Lines.join_inj (clean_lines h.sender.oneLine) hcl hnl hgot.symm).1
  refine (messages_within hd ⟨[], by rw [append_nil, hf]⟩).eq_of_length ?_
  have hlen := congrArg List.length hd
  rw [← hf] at hlen
  simpa using hlen.symm

theorem LinkOk.step_open (h : LinkOk maxFrameBytes l) (ho : ∀ side, (l.sock side).closed = false)
    {e : Event} (he : e.Quiet) (x : Side) :
    ((LocalSocket.step maxFrameBytes l e).sock x).closed = false := by
  have key : ∀ {side : Side} {t : Socket}, t.closed = false → ((l.set side t).sock x).closed = false := by
    intro side t ht
    rcases Side.eq_or_eq x side with rfl | rfl
    · simpa using ht
    · simpa using ho side.other
  cases e with
  | send side data answers => exact key (send_open he (ho side))
  | drain side answers => exact key (flushLoop_open he (ho side))
  | drained side waiter =>
    refine key ?_
    unfold Socket.drained
    split <;> exact ho side
  | shut side => exact he.elim
  | arrive side size handler =>
    refine key (receive_open he (h side).sender.oneLine (h side).sender.bounded (h side).receiver (ho side) ?_)
    rw [← ((h side).got_append size).1]
    exact (List.take_prefix _ _).trans (h side).sender.written

/-- A frame is taken by an open socket when it is one line within the cap, and only then. -/
theorem send_accepted (s : Socket) (data : Text) (answers : Nat → WriteAnswer) :
    (s.send maxFrameBytes data answers).accepted =
      if s.closed = false ∧ '\n' ∉ data ∧ (encode data).length ≤ maxFrameBytes
      then s.accepted ++ [data] else s.accepted := by
  have hbytes : (encode (data ++ ['\n'])).length - 1 = (encode data).length := by
    rw [encode_append, length_append]
    rfl
  unfold Socket.send
  split
  next hc =>
    rw [if_neg (by simp [hc])]
  split
  next hnl =>
    rw [if_neg (by simp [hnl])]
  simp only [hbytes]
  split
  next hcap =>
    rw [if_neg (by omega)]
  rename_i hc hnl hcap
  have hall : s.closed = false ∧ '\n' ∉ data ∧ (encode data).length ≤ maxFrameBytes :=
    ⟨by simpa using hc, hnl, by omega⟩
  simp only [if_pos hall]
  split
  · rw [Socket.flush, flushLoop_accepted]
  · rfl

/-- The frames a side has taken are followed by others, all of them `P`. -/
def Adds (P : Text → Prop) (s t : Socket) : Prop := ∃ more, t.accepted = s.accepted ++ more ∧ ∀ x ∈ more, P x

theorem Adds.same {s : Socket} (h : t.accepted = s.accepted) : Adds P s t := ⟨[], by simp [h], by simp⟩

theorem Adds.trans {s u : Socket} (h : Adds P s t) (k : Adds P t u) : Adds P s u := by
  obtain ⟨more, hm, hp⟩ := h
  obtain ⟨more', hm', hp'⟩ := k
  refine ⟨more ++ more', by rw [hm', hm, append_assoc], fun x hx => ?_⟩
  exact (mem_append.mp hx).elim (hp x) (hp' x)

theorem adds_send (s : Socket) {data : Text} (h : P data)
    (answers : Nat → WriteAnswer) : Adds P s (s.send maxFrameBytes data answers) := by
  unfold Adds
  rw [send_accepted]
  split
  · exact ⟨[data], rfl, by simpa using h⟩
  · exact ⟨[], by simp, by simp⟩

def Socket.Reaction.Sends (P : Text → Prop) : Socket.Reaction → Prop
  | .send data _ => P data
  | .close => True

theorem adds_reactions {rs : List Socket.Reaction} (hr : ∀ r ∈ rs, r.Sends P)
    (s : Socket) : Adds P s (rs.foldl (Socket.react maxFrameBytes) s) := by
  induction rs generalizing s with
  | nil => exact .same rfl
  | cons r rs ih =>
    have hfirst : Adds P s (s.react maxFrameBytes r) := by
      have h := hr r (by simp)
      cases r with
      | send data answers => exact adds_send s h answers
      | close => exact .same (shut_accepted s)
    exact hfirst.trans (ih (fun r hr' => hr r (by simp [hr'])) _)

theorem adds_onmessage {handler : List Text → List Socket.Reaction}
    (hh : ∀ ms, ∀ r ∈ handler ms, r.Sends P) (s : Socket) (text : Text) :
    Adds P s (s.clearParts.onmessage maxFrameBytes handler text) :=
  adds_reactions (hh _) { s.clearParts with messages := s.clearParts.messages ++ [text] }

theorem adds_receive {handler : List Text → List Socket.Reaction}
    (hh : ∀ ms, ∀ r ∈ handler ms, r.Sends P) (s : Socket) (chunk : Bytes) :
    Adds P s (s.receive maxFrameBytes handler chunk) := by
  induction chunk using chunk_induction generalizing s with
  | hold piece hn =>
    by_cases hstop : s.closed = true ∨ piece = []
    · rw [receive_stop handler hstop]
      exact .same rfl
    rw [receive_hold handler (by simpa using (not_or.mp hstop).1) (not_or.mp hstop).2 hn]
    split
    · exact .same (shut_accepted s)
    · exact .same rfl
  | frame piece rest hn ih =>
    cases hs : s.closed with
    | true =>
      rw [receive_stop handler (Or.inl hs)]
      exact .same rfl
    | false =>
      rw [receive_frame handler hs hn]
      split
      · exact .same (shut_accepted s)
      split
      · exact .same (shut_accepted s.clearParts)
      · exact (adds_onmessage hh s _).trans (ih _)

def Event.Sends (P : Text → Prop) (side : Side) : Event → Prop
  | .send x data _ => x = side → P data
  | .arrive x _ handler => x = side → ∀ ms, ∀ r ∈ handler ms, r.Sends P
  | _ => True

theorem adds_step (maxFrameBytes : Nat) (l : Link) {e : Event} (he : e.Sends P side) :
    Adds P (l.sock side) ((LocalSocket.step maxFrameBytes l e).sock side) := by
  have hset : ∀ {x : Side} {t : Socket}, (x = side → Adds P (l.sock x) t) →
      Adds P (l.sock side) ((l.set x t).sock side) := by
    intro x t h
    rcases Side.eq_or_eq side x with rfl | rfl
    · simpa using h rfl
    · exact .same (by simp)
  cases e with
  | send x data answers => exact hset fun hx => adds_send _ (he hx) answers
  | drain x answers => exact hset fun _ => .same (flushLoop_accepted _ _ _)
  | drained x waiter =>
    refine hset fun _ => .same ?_
    unfold Socket.drained
    split <;> rfl
  | shut x => exact hset fun _ => .same (shut_accepted _)
  | arrive x size handler => exact hset fun hx => adds_receive (he hx) _ _

end

def run (maxFrameBytes : Nat) (es : List Event) : Link := Run.exec (step maxFrameBytes) .fresh es

theorem run_ok (maxFrameBytes : Nat) (es : List Event) : LinkOk maxFrameBytes (run maxFrameBytes es) :=
  Run.exec_invariant (LinkOk maxFrameBytes) (fun _ e h => h.step e) (.fresh maxFrameBytes) es

theorem run_open {maxFrameBytes : Nat} {es : List Event} (he : ∀ e ∈ es, e.Quiet) (side : Side) :
    ((run maxFrameBytes es).sock side).closed = false := by
  have key : ∀ (es : List Event) (l : Link), LinkOk maxFrameBytes l →
      (∀ side, (l.sock side).closed = false) → (∀ e ∈ es, e.Quiet) →
      ∀ side, ((Run.exec (step maxFrameBytes) l es).sock side).closed = false := by
    intro es
    induction es with
    | nil => exact fun l _ ho _ => ho
    | cons e es ih =>
      intro l h ho he
      exact ih _ (h.step e) (h.step_open ho (he e (by simp))) fun x hx => he x (by simp [hx])
  exact key es .fresh (LinkOk.fresh maxFrameBytes) (fun _ => rfl) he side

/-- **The link's round trip.** In every run, whatever the streams accept of each write, however the
bytes in transit are cut and whichever side closes when: each side is handed an initial part of
the frames the other accepted, in order, and counts what it has queued. When nothing in the run
closes, both sides are open, and a direction with nothing queued and nothing in transit has handed
over every frame. A frame is accepted exactly when it is one line within the cap. And a socket's
chunks can be cut anywhere: what it hands over and whether it closes depend on their bytes alone. -/
theorem round_trip (maxFrameBytes : Nat) (es : List Event) : (∀ side, ((run maxFrameBytes es).sock side).messages
      <+: ((run maxFrameBytes es).sock side.other).accepted) ∧
    (∀ side, ((run maxFrameBytes es).sock side).queuedBytes
      = ((((run maxFrameBytes es).sock side).queue.map List.length).sum : Nat)) ∧
    ((∀ e ∈ es, e.Quiet) → ∀ side, ((run maxFrameBytes es).sock side).closed = false ∧
      (((run maxFrameBytes es).sock side.other).queue = [] → (run maxFrameBytes es).inTransit side = [] →
        ((run maxFrameBytes es).sock side).messages = ((run maxFrameBytes es).sock side.other).accepted)) ∧
    (∀ (s : Socket) (data : Text) (answers : Nat → WriteAnswer), (s.send maxFrameBytes data answers).accepted =
        if s.closed = false ∧ '\n' ∉ data ∧ (encode data).length ≤ maxFrameBytes
        then s.accepted ++ [data] else s.accepted) ∧
    (∀ (handler : List Text → List Socket.Reaction) (s : Socket) (cs ds : List Bytes), cs.flatten = ds.flatten →
      (cs.foldl (fun s c => s.receive maxFrameBytes handler c) s).messages
          = (ds.foldl (fun s c => s.receive maxFrameBytes handler c) s).messages ∧
        (cs.foldl (fun s c => s.receive maxFrameBytes handler c) s).closed
          = (ds.foldl (fun s c => s.receive maxFrameBytes handler c) s).closed) := by
  have h := run_ok maxFrameBytes es
  refine ⟨fun side => (h side).messages, fun side => (h.senderOk side).counted, ?_, send_accepted, ?_⟩
  · intro he side
    have ho : ∀ side, ((run maxFrameBytes es).sock side).closed = false := run_open he
    exact ⟨ho side, (h side).complete (ho side) (ho side.other)⟩
  intro handler s cs ds hf
  have hsame : Same (cs.foldl (fun s c => s.receive maxFrameBytes handler c) s)
      (ds.foldl (fun s c => s.receive maxFrameBytes handler c) s) :=
    (receive_chunks handler s cs).symm.trans (hf ▸ receive_chunks handler s ds)
  obtain ⟨parts, hd, -⟩ := hsame
  rw [hd]
  exact ⟨rfl, rfl⟩

end Reins.LocalSocket
