import Reins.Lib.TextStream
import Reins.NodeProtocol.StreamFrame

/-!
# The node end of a stream (`node/src/node-connection/streams.ts`)

`pump` reads its source an item at a time and sends each item in pieces, a binary stream's as
base64, a text stream's as what a streaming decoder makes of them. It awaits between any two of its
sends, so a `Pump` is that function between two awaits: what it has of the source, the decoder and
the offset, and what it does next. `source` and `finished` log what its iterator gave it.
-/

open Utf Schema List

namespace Reins.NodeStreams

abbrev Bytes := List UInt8

inductive Item
  | text (s : JsString)
  | bytes (bs : Bytes)

def Item.encoded : Item → Bytes
  | .text s => encodeUnits s
  | .bytes bs => bs

def piecesLoop : Nat → Bytes → List Bytes
  | 0, _ => []
  | _, [] => []
  | fuel + 1, bs => bs.take STREAM_CHUNK_BYTES :: piecesLoop fuel (bs.drop STREAM_CHUNK_BYTES)

def pieces (bs : Bytes) : List Bytes := piecesLoop bs.length bs

/-! ## The pump -/

inductive Phase
  | next
  | sending (pieces : List Bytes)
  /-- The source is done: a text stream's decoder may hold a character's start. -/
  | flushing (exit : Option ProcessExit)
  | ending (exit : Option ProcessExit)
  | over

structure Pump where
  binary : Bool
  aborted : Bool
  offset : Nat
  decoder : TextDecoder
  phase : Phase
  source : Bytes
  finished : Bool

def Pump.start (binary : Bool) : Pump :=
  { binary, aborted := false, offset := 0, decoder := .start, phase := .next, source := [],
    finished := false }

/-- What `send` is given: the data, and its size in the stream. -/
structure Chunk where
  data : JsString
  size : Nat

/-- `sendText`'s. -/
def Chunk.text (cs : List Char) : Chunk := ⟨cs.flatMap units, (encode cs).length⟩

def Chunk.binary (bs : Bytes) : Chunk := ⟨(Base64.encode bs).flatMap units, bs.length⟩

def Pump.chunk (p : Pump) (piece : Bytes) : Pump × Chunk :=
  if p.binary then (p, .binary piece)
  else
    let r := Scan.scan (textStep false) p.decoder piece
    ({ p with decoder := r.1 }, .text r.2)

def Pump.lastChunk (p : Pump) : Chunk := if p.binary then ⟨[], 0⟩ else .text (textEnd false p.decoder)

def Pump.data (p : Pump) (id : StreamId) (c : Chunk) : StreamFrame := .data ⟨id, p.offset, c.data, p.binary⟩

/-- A step of the iterator: a stopped stream takes no more. -/
def Pump.yield (p : Pump) (item : Item) : Pump :=
  match p.phase with
  | .next =>
    if p.aborted then { p with phase := .over }
    else
      { p with source := p.source ++ item.encoded, phase := .sending (pieces item.encoded) }
  | _ => p

def Pump.done (p : Pump) (exit : Option ProcessExit) : Pump :=
  match p.phase with
  | .next =>
    if p.aborted then { p with phase := .over }
    else { p with finished := true, phase := .flushing exit }
  | _ => p

def Pump.abort (p : Pump) : Pump := { p with aborted := true }

/-- The `stopped` promise wins the race. -/
def Pump.stop (p : Pump) : Pump :=
  match p.phase with
  | .next => if p.aborted then { p with phase := .over } else p
  | _ => p

def Pump.sent (p : Pump) (c : Chunk) (phase : Phase) : Pump := { p with offset := p.offset + c.size, phase := phase }

/-- The `catch`'s frame. -/
def errorFrame (id : StreamId) (message : JsString) : StreamFrame :=
  .stop ⟨id, some (message.take Rpc.MAX_ERROR_MESSAGE), none⟩

def endFrame (id : StreamId) (exit : Option ProcessExit) : StreamFrame := .stop ⟨id, none, exit⟩

/-! ## The stream a source is -/

def streamed (binary : Bool) (source : Bytes) : Bytes := if binary then source else encode (decodeText false source)

def StreamData.bytes (d : StreamData) : Bytes := if d.base64 then Base64.decode (scalars d.data) else encodeUnits d.data

/-- What the chunks of some bytes of the source have carried. -/
def Pump.Took (p : Pump) (took payload : Bytes) : Prop :=
  if p.binary then payload = took
  else p.decoder = (Scan.scan (textStep false) .start took).1 ∧
    payload = encode (Scan.scan (textStep false) .start took).2

/-- The chunks so far carried `payload`. -/
def Pump.Sent (p : Pump) (payload : Bytes) : Prop :=
  match p.phase with
  | .next => p.Took p.source payload
  | .sending pieces => ∃ took, p.source = took ++ pieces.flatten ∧ p.Took took payload ∧
      ∀ piece ∈ pieces, piece.length ≤ STREAM_CHUNK_BYTES
  | .flushing _ => p.finished = true ∧ p.Took p.source payload
  | .ending _ => p.finished = true ∧ payload = streamed p.binary p.source
  | .over => ∀ rest, (p.finished = true → rest = []) → payload <+: streamed p.binary (p.source ++ rest)

theorem piecesLoop_spec {fuel : Nat} {bs : Bytes} (h : bs.length ≤ fuel) : (piecesLoop fuel bs).flatten = bs ∧
      ∀ piece ∈ piecesLoop fuel bs, piece.length ≤ STREAM_CHUNK_BYTES := by
  induction fuel generalizing bs with
  | zero =>
    rw [length_eq_zero_iff.mp (Nat.le_zero.mp h)]
    simp [piecesLoop]
  | succ fuel ih =>
    cases bs with
    | nil => simp [piecesLoop]
    | cons b bs =>
      have hlen : ((b :: bs).drop STREAM_CHUNK_BYTES).length ≤ fuel := by
        have : 0 < STREAM_CHUNK_BYTES := by decide
        rw [length_drop]
        simp only [length_cons] at h ⊢
        omega
      obtain ⟨h1, h2⟩ := ih hlen
      rw [piecesLoop, flatten_cons, h1, take_append_drop]
      · refine ⟨rfl, fun piece hp => ?_⟩
        rcases mem_cons.mp hp with rfl | hp
        · exact length_take_le _ _
        · exact h2 piece hp
      · simp

theorem pieces_spec (bs : Bytes) : (pieces bs).flatten = bs ∧ ∀ piece ∈ pieces bs, piece.length ≤ STREAM_CHUNK_BYTES :=
  piecesLoop_spec (Nat.le_refl _)

section

variable {p : Pump} {took payload : Bytes}

/-- What was carried is the start of the stream, whatever the source goes on to give. -/
theorem Pump.Took.within (h : p.Took took payload) (rest : Bytes) : payload <+: streamed p.binary (took ++ rest) := by
  unfold Pump.Took at h
  unfold streamed
  split at h
  next hb =>
    rw [if_pos hb, h]
    exact prefix_append _ _
  next hb =>
    rw [if_neg hb, h.2]
    obtain ⟨more, hm⟩ := emitted_prefix false took rest
    exact ⟨encode more, by rw [← encode_append, hm]⟩

/-- **What was sent is the start of the stream**, whatever the source goes on to give. -/
theorem Pump.Sent.within (h : p.Sent payload) {rest : Bytes} (hr : p.finished = true → rest = []) :
    payload <+: streamed p.binary (p.source ++ rest) := by
  unfold Pump.Sent at h
  split at h
  · exact h.within rest
  · obtain ⟨took, hs, ht, -⟩ := h
    rw [hs, append_assoc]
    exact ht.within _
  · exact h.2.within rest
  · have hall : payload = streamed p.binary (p.source ++ rest) := by
      rw [hr h.1, append_nil, h.2]
    exact hall ▸ prefix_refl _
  · exact h rest hr

/-! ## Chunks -/

/-- A chunk says its size, and its frame's bounds are met where it is sent. -/
structure Chunk.Good (binary : Bool) (c : Chunk) (bs : Bytes) : Prop where
  carries : (if binary then Base64.decode (scalars c.data) else encodeUnits c.data) = bs
  size : c.size = bs.length
  pos : c.size ≠ 0 → 1 ≤ c.data.length
  le : c.data.length ≤ MAX_STREAM_CHUNK_CHARS
  base64 : binary = true → Base64.wellFormed (scalars c.data) = true

theorem flatMap_units_length_pos {cs : List Char} (h : cs ≠ []) : 1 ≤ (cs.flatMap units).length := by
  cases cs with
  | nil => exact absurd rfl h
  | cons c cs =>
    have : 1 ≤ (units c).length := by
      unfold units
      split <;> simp
    simp only [flatMap_cons, length_append]
    omega

theorem Chunk.good_text {cs : List Char} (h : (cs.flatMap units).length ≤ MAX_STREAM_CHUNK_CHARS) :
    (Chunk.text cs).Good false (encode cs) := by
  refine ⟨by simp [Chunk.text, encodeUnits], rfl, fun hs => flatMap_units_length_pos ?_, h, by simp⟩
  rintro rfl
  exact hs rfl

theorem Chunk.good_binary {bs : Bytes} (h : bs.length ≤ STREAM_CHUNK_BYTES) : (Chunk.binary bs).Good true bs := by
  have hlen : ((Base64.encode bs).flatMap units).length = (Base64.encode bs).length :=
    length_flatMap_units (Base64.encode_ascii bs)
  refine ⟨by simp [Chunk.binary, Base64.decode_encode], rfl, fun hs => ?_, ?_, fun _ => ?_⟩
  · refine flatMap_units_length_pos fun he => hs ?_
    have := congrArg List.length he
    rw [Base64.length_encode] at this
    simp only [length_nil, Chunk.binary] at this ⊢
    omega
  · simp only [Chunk.binary, hlen, Base64.length_encode]
    simp only [MAX_STREAM_CHUNK_CHARS, STREAM_CHUNK_BYTES] at h ⊢
    omega
  · simp [Chunk.binary, Base64.wellFormed_encode]

/-- **A piece's chunk carries the piece**, as far as its characters are whole. -/
theorem Pump.chunk_spec (h : p.Took took payload) {piece : Bytes} (hp : piece.length ≤ STREAM_CHUNK_BYTES) :
    ∃ bytes, (p.chunk piece).2.Good p.binary bytes ∧ (p.chunk piece).1.Took (took ++ piece) (payload ++ bytes) := by
  unfold Pump.Took at h
  unfold Pump.chunk
  split at h
  next hb =>
    rw [if_pos hb]
    refine ⟨piece, hb ▸ Chunk.good_binary hp, ?_⟩
    simp [Pump.Took, hb, h]
  next hb =>
    obtain ⟨hd, hpay⟩ := h
    rw [if_neg hb]
    simp only
    have hf : p.binary = false := by simpa using hb
    have hlen := scan_textStep_units false p.decoder piece
    have hinside : p.decoder.1.inside ≤ 1 := by
      unfold DecoderState.inside
      split <;> omega
    refine ⟨encode (Scan.scan (textStep false) p.decoder piece).2, ?_, ?_⟩
    · rw [hf]
      refine Chunk.good_text ?_
      simp only [MAX_STREAM_CHUNK_CHARS, STREAM_CHUNK_BYTES] at hp ⊢
      omega
    · simp [Pump.Took, hb, hpay, hd, Scan.scan_append]

theorem Pump.lastChunk_spec (h : p.Took p.source payload) :
    ∃ bytes, p.lastChunk.Good p.binary bytes ∧ payload ++ bytes = streamed p.binary p.source := by
  unfold Pump.Took at h
  unfold Pump.lastChunk streamed
  split at h
  next hb =>
    refine ⟨[], ?_, ?_⟩
    · rw [if_pos hb, hb]
      refine ⟨?_, rfl, by simp, by simp, fun _ => ?_⟩
      · rw [if_pos rfl]
        rfl
      · rfl
    · rw [if_pos hb, h, append_nil]
  next hb =>
    have hf : p.binary = false := by simpa using hb
    have hend := textEnd_units false p.decoder
    refine ⟨encode (textEnd false p.decoder), ?_, ?_⟩
    · rw [if_neg hb, hf]
      refine Chunk.good_text (hend.trans ?_)
      decide
    · rw [if_neg hb, h.2, ← encode_append, decodeText, ← h.1]

end

end Reins.NodeStreams
