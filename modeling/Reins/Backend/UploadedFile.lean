import Mathlib

/-!
# The dimensions of an image (`readImageDimensions`, `backend/src/models/uploaded-file.ts`)

The readers of four formats walk headers by lengths that stand in the bytes. A read outside of them is none, and so
is a loop that runs out of its fuel; what a reader answers is `some` of dimensions, or of none.
-/

namespace Reins.UploadedFile

abbrev Bytes := List UInt8

structure ImageDimensions where
  width : Nat
  height : Nat
  width_pos : 0 < width
  height_pos : 0 < height

abbrev Answer := Option (Option ImageDimensions)

variable (bytes : Bytes)

/-! ## Reads -/

def getUint16 (offset : Nat) (littleEndian : Bool) : Option Nat := do
  let a ← bytes[offset]?
  let b ← bytes[offset + 1]?
  some (if littleEndian then b.toNat * 256 + a.toNat else a.toNat * 256 + b.toNat)

def getUint32 (offset : Nat) (littleEndian : Bool) : Option Nat := do
  let a ← getUint16 bytes offset littleEndian
  let b ← getUint16 bytes (offset + 2) littleEndian
  some (if littleEndian then b * 65536 + a else a * 65536 + b)

def readUInt24LE (offset : Nat) : Option Nat := do
  let a ← bytes[offset]?
  let b ← bytes[offset + 1]?
  let c ← bytes[offset + 2]?
  some (a.toNat ||| b.toNat <<< 8 ||| c.toNat <<< 16)

def everyAt (offset : Nat) : List UInt8 → Option Bool
  | [] => some true
  | value :: values => do
    let b ← bytes[offset]?
    if b = value then everyAt (offset + 1) values else some false

def «matches» (offset : Nat) (values : List UInt8) : Option Bool :=
  if bytes.length < offset + values.length then some false else everyAt bytes offset values

/-- `if (!matches(bytes, offset, values)) return null`, and then `rest`. -/
def whenMatches (offset : Nat) (values : List UInt8) (rest : Answer) : Answer := do
  if ← «matches» bytes offset values then rest else some none

/-- `while (offset < bytes.length && p(bytes[offset])) offset++`. -/
def skip (p : UInt8 → Bool) (offset : Nat) : Nat := offset + ((bytes.drop offset).takeWhile p).length

def validDimensions (width height : Nat) : Option ImageDimensions :=
  if h : 0 < width ∧ 0 < height then some ⟨width, height, h.1, h.2⟩ else none

/-! ## The formats -/

def PNG_SIGNATURE : List UInt8 := [137, 80, 78, 71, 13, 10, 26, 10]

def readPngDimensions : Answer :=
  if bytes.length < 24 then some none else
    whenMatches bytes 0 PNG_SIGNATURE <| whenMatches bytes 12 [73, 72, 68, 82] do
      some (validDimensions (← getUint32 bytes 16 false) (← getUint32 bytes 20 false))

def readGifDimensions : Answer :=
  if bytes.length < 10 then some none else do
    let isGif87a ← «matches» bytes 0 [71, 73, 70, 56, 55, 97]
    let isGif89a ← «matches» bytes 0 [71, 73, 70, 56, 57, 97]
    if !isGif87a && !isGif89a then some none else
    some (validDimensions (← getUint16 bytes 6 true) (← getUint16 bytes 8 true))

def isJpegStartOfFrame (marker : UInt8) : Bool :=
  0xc0 ≤ marker && marker ≤ 0xc3 || 0xc5 ≤ marker && marker ≤ 0xc7 || 0xc9 ≤ marker && marker ≤ 0xcb ||
    0xcd ≤ marker && marker ≤ 0xcf

def jpegSegments : Nat → Nat → Answer
  | 0, _ => none
  | fuel + 1, offset =>
    if offset + 3 < bytes.length then
      let offset := skip bytes (· = 0xff) (skip bytes (· ≠ 0xff) offset)
      if bytes.length ≤ offset then some none else do
      let marker ← bytes[offset]?
      let offset := offset + 1
      if marker = 0xd9 || marker = 0xda then some none
      else if marker = 0x01 || 0xd0 ≤ marker && marker ≤ 0xd7 then jpegSegments fuel offset
      else if bytes.length < offset + 2 then some none else do
      let segmentLength ← getUint16 bytes offset false
      if segmentLength < 2 then some none else
      let segmentStart := offset + 2
      let segmentEnd := offset + segmentLength
      if bytes.length < segmentEnd then some none
      else if isJpegStartOfFrame marker then
        if segmentEnd < segmentStart + 5 then some none else do
        some (validDimensions (← getUint16 bytes (segmentStart + 3) false) (← getUint16 bytes (segmentStart + 1) false))
      else jpegSegments fuel segmentEnd
    else some none

def readJpegDimensions : Answer :=
  if bytes.length < 4 then some none else do
    if (← bytes[0]?) ≠ 0xff || (← bytes[1]?) ≠ 0xd8 then some none else
    jpegSegments bytes (bytes.length + 1) 2

def readWebpVp8xDimensions (payloadStart chunkSize : Nat) : Answer :=
  if chunkSize < 10 then some none else do
    let width ← readUInt24LE bytes (payloadStart + 4)
    let height ← readUInt24LE bytes (payloadStart + 7)
    some (validDimensions (1 + width) (1 + height))

def readWebpVp8lDimensions (payloadStart chunkSize : Nat) : Answer :=
  if chunkSize < 5 then some none else do
    if (← bytes[payloadStart]?) ≠ 0x2f then some none else
    let bits ← getUint32 bytes (payloadStart + 1) true
    some (validDimensions ((bits &&& 0x3fff) + 1) ((bits >>> 14 &&& 0x3fff) + 1))

def readWebpVp8Dimensions (payloadStart chunkSize : Nat) : Answer :=
  if chunkSize < 10 then some none else whenMatches bytes (payloadStart + 3) [0x9d, 0x01, 0x2a] do
    let width ← getUint16 bytes (payloadStart + 6) true
    let height ← getUint16 bytes (payloadStart + 8) true
    some (validDimensions (width &&& 0x3fff) (height &&& 0x3fff))

def webpChunks : Nat → Nat → Answer
  | 0, _ => none
  | fuel + 1, offset =>
    if offset + 8 ≤ bytes.length then do
      let chunkType := [← bytes[offset]?, ← bytes[offset + 1]?, ← bytes[offset + 2]?, ← bytes[offset + 3]?]
      let chunkSize ← getUint32 bytes (offset + 4) true
      let payloadStart := offset + 8
      let payloadEnd := payloadStart + chunkSize
      if bytes.length < payloadEnd then some none
      else if chunkType = [86, 80, 56, 88] then readWebpVp8xDimensions bytes payloadStart chunkSize
      else if chunkType = [86, 80, 56, 76] then readWebpVp8lDimensions bytes payloadStart chunkSize
      else if chunkType = [86, 80, 56, 32] then readWebpVp8Dimensions bytes payloadStart chunkSize
      else webpChunks fuel (payloadEnd + chunkSize % 2)
    else some none

def readWebpDimensions : Answer :=
  if bytes.length < 20 then some none else
    whenMatches bytes 0 [82, 73, 70, 70] <| whenMatches bytes 8 [87, 69, 66, 80] <|
      webpChunks bytes (bytes.length + 1) 12

def readImageDimensions (mimeType : String) : Answer :=
  match mimeType with
  | "image/png" => readPngDimensions bytes
  | "image/jpeg" => readJpegDimensions bytes
  | "image/gif" => readGifDimensions bytes
  | "image/webp" => readWebpDimensions bytes
  | _ => some none

/-! ## Every reader answers -/

variable {bytes} {offset start size fuel : Nat} {α β : Type}

theorem bind_isSome {x : Option α} {f : α → Option β} (hx : x.isSome) (hf : ∀ a, (f a).isSome) : (x >>= f).isSome := by
  obtain ⟨a, rfl⟩ := Option.isSome_iff_exists.mp hx
  exact hf a

theorem ite_isSome {c : Prop} [Decidable c] {x y : Option α} (hx : c → x.isSome) (hy : ¬c → y.isSome) :
    (if c then x else y).isSome := by
  split
  · exact hx ‹_›
  · exact hy ‹_›

theorem byte_isSome (h : offset < bytes.length) : bytes[offset]?.isSome := by simpa using h

theorem getUint16_isSome (h : offset + 2 ≤ bytes.length) (littleEndian : Bool) :
    (getUint16 bytes offset littleEndian).isSome :=
  bind_isSome (byte_isSome (by omega)) fun _ => bind_isSome (byte_isSome (by omega)) fun _ => rfl

theorem getUint32_isSome (h : offset + 4 ≤ bytes.length) (littleEndian : Bool) :
    (getUint32 bytes offset littleEndian).isSome :=
  bind_isSome (getUint16_isSome (by omega) _) fun _ => bind_isSome (getUint16_isSome (by omega) _) fun _ => rfl

theorem readUInt24LE_isSome (h : offset + 3 ≤ bytes.length) : (readUInt24LE bytes offset).isSome :=
  bind_isSome (byte_isSome (by omega)) fun _ => bind_isSome (byte_isSome (by omega)) fun _ =>
    bind_isSome (byte_isSome (by omega)) fun _ => rfl

theorem everyAt_isSome {values : List UInt8} (h : offset + values.length ≤ bytes.length) :
    (everyAt bytes offset values).isSome := by
  induction values generalizing offset with
  | nil => rfl
  | cons value values ih =>
    rw [List.length_cons] at h
    exact bind_isSome (byte_isSome (by omega)) fun _ => ite_isSome (fun _ => ih (by omega)) fun _ => rfl

theorem matches_isSome (offset : Nat) (values : List UInt8) : («matches» bytes offset values).isSome :=
  ite_isSome (fun _ => rfl) fun h => everyAt_isSome (Nat.not_lt.mp h)

theorem whenMatches_isSome {values : List UInt8} {rest : Answer} (h : rest.isSome) :
    (whenMatches bytes offset values rest).isSome :=
  bind_isSome (matches_isSome ..) fun _ => ite_isSome (fun _ => h) fun _ => rfl

theorem le_skip (bytes : Bytes) (offset : Nat) : offset ≤ skip bytes (· = 0xff) (skip bytes (· ≠ 0xff) offset) :=
  Nat.le_trans (Nat.le_add_right ..) (Nat.le_add_right ..)

theorem readPngDimensions_isSome : (readPngDimensions bytes).isSome :=
  ite_isSome (fun _ => rfl) fun h => whenMatches_isSome <| whenMatches_isSome <|
    bind_isSome (getUint32_isSome (by omega) _) fun _ => bind_isSome (getUint32_isSome (by omega) _) fun _ => rfl

theorem readGifDimensions_isSome : (readGifDimensions bytes).isSome :=
  ite_isSome (fun _ => rfl) fun h => bind_isSome (matches_isSome ..) fun _ => bind_isSome (matches_isSome ..) fun _ =>
    ite_isSome (fun _ => rfl) fun _ => bind_isSome (getUint16_isSome (by omega) _) fun _ =>
      bind_isSome (getUint16_isSome (by omega) _) fun _ => rfl

/-- Every marker is behind the offset it is looked for from, so the loop comes to the end. -/
theorem jpegSegments_isSome (hfuel : bytes.length - offset < fuel) : (jpegSegments bytes fuel offset).isSome := by
  induction fuel generalizing offset with
  | zero => cases hfuel
  | succ fuel ih =>
    refine ite_isSome (fun hmore => ite_isSome (fun _ => rfl) fun hin => ?_) fun _ => rfl
    have hle := le_skip bytes offset
    refine bind_isSome (byte_isSome (by omega)) fun marker => ite_isSome (fun _ => rfl) fun _ =>
      ite_isSome (fun _ => ih (by omega)) fun _ => ite_isSome (fun _ => rfl) fun hlength => ?_
    refine bind_isSome (getUint16_isSome (by omega) _) fun segmentLength => ite_isSome (fun _ => rfl) fun hlong =>
      ite_isSome (fun _ => rfl) fun hend => ite_isSome (fun _ => ite_isSome (fun _ => rfl) fun hframe => ?_)
        fun _ => ih (by omega)
    exact bind_isSome (getUint16_isSome (by omega) _) fun _ => bind_isSome (getUint16_isSome (by omega) _) fun _ => rfl

theorem readJpegDimensions_isSome : (readJpegDimensions bytes).isSome :=
  ite_isSome (fun _ => rfl) fun h => bind_isSome (byte_isSome (by omega)) fun _ =>
    bind_isSome (byte_isSome (by omega)) fun _ => ite_isSome (fun _ => rfl) fun _ => jpegSegments_isSome (by omega)

theorem readWebpVp8xDimensions_isSome (h : start + size ≤ bytes.length) :
    (readWebpVp8xDimensions bytes start size).isSome :=
  ite_isSome (fun _ => rfl) fun _ => bind_isSome (readUInt24LE_isSome (by omega)) fun _ =>
    bind_isSome (readUInt24LE_isSome (by omega)) fun _ => rfl

theorem readWebpVp8lDimensions_isSome (h : start + size ≤ bytes.length) :
    (readWebpVp8lDimensions bytes start size).isSome :=
  ite_isSome (fun _ => rfl) fun _ => bind_isSome (byte_isSome (by omega)) fun _ => ite_isSome (fun _ => rfl) fun _ =>
    bind_isSome (getUint32_isSome (by omega) _) fun _ => rfl

theorem readWebpVp8Dimensions_isSome (h : start + size ≤ bytes.length) :
    (readWebpVp8Dimensions bytes start size).isSome :=
  ite_isSome (fun _ => rfl) fun _ => whenMatches_isSome <|
    bind_isSome (getUint16_isSome (by omega) _) fun _ => bind_isSome (getUint16_isSome (by omega) _) fun _ => rfl

theorem webpChunks_isSome (hfuel : bytes.length - offset < fuel) : (webpChunks bytes fuel offset).isSome := by
  induction fuel generalizing offset with
  | zero => cases hfuel
  | succ fuel ih =>
    refine ite_isSome (fun hmore => ?_) fun _ => rfl
    refine bind_isSome (byte_isSome (by omega)) fun _ => bind_isSome (byte_isSome (by omega)) fun _ =>
      bind_isSome (byte_isSome (by omega)) fun _ => bind_isSome (byte_isSome (by omega)) fun _ => ?_
    refine bind_isSome (getUint32_isSome (by omega) _) fun chunkSize => ite_isSome (fun _ => rfl) fun hend => ?_
    have hend : offset + 8 + chunkSize ≤ bytes.length := Nat.not_lt.mp hend
    exact ite_isSome (fun _ => readWebpVp8xDimensions_isSome hend) fun _ =>
      ite_isSome (fun _ => readWebpVp8lDimensions_isSome hend) fun _ =>
        ite_isSome (fun _ => readWebpVp8Dimensions_isSome hend) fun _ => ih (by omega)

theorem readWebpDimensions_isSome : (readWebpDimensions bytes).isSome :=
  ite_isSome (fun _ => rfl) fun _ => whenMatches_isSome <| whenMatches_isSome <| webpChunks_isSome (by omega)

/-- **Whatever the bytes, a reader comes to its end without a read outside of them**, and what it finds is positive. -/
theorem readImageDimensions_total (bytes : Bytes) (mimeType : String) :
    ∃ dimensions, readImageDimensions bytes mimeType = some dimensions ∧
      ∀ d, dimensions = some d → 0 < d.width ∧ 0 < d.height := by
  have hsome : (readImageDimensions bytes mimeType).isSome := by
    unfold readImageDimensions
    split
    · exact readPngDimensions_isSome
    · exact readJpegDimensions_isSome
    · exact readGifDimensions_isSome
    · exact readWebpDimensions_isSome
    · rfl
  obtain ⟨dimensions, h⟩ := Option.isSome_iff_exists.mp hsome
  exact ⟨dimensions, h, fun d _ => ⟨d.width_pos, d.height_pos⟩⟩

end Reins.UploadedFile
