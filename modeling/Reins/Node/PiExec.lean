import Mathlib.Algebra.Order.Group.Nat
import Reins.NodeProtocol.ExecRecord

/-!
# The node's shell commands (`node/src/pi-exec.ts`)

The node keeps each command's output as records: the tail of them, where the next one starts, and
the view they add up to. `record` adds one and trims the tail; `output` is the generator a stream
pulls its lines from; `attach` answers where a stream asked from some offset starts.

Everything below is said of the *history*, the records ever made: the kept lines are the history
from the `dropped`-th record on, laid out at the offsets their bytes give them (`Kept`). What a
stream yields is then a stretch of the history, and where it starts is a number of records.
-/

open Utf List

namespace Reins.PiExec

/-- A line of the output stream: `${JSON.stringify(value)}\n`. -/
def ExecRecord.text (r : ExecRecord) : List Char := Json.stringify r.toJson ++ ['\n']

def ExecRecord.bytes (r : ExecRecord) : Nat := (encode r.text).length

def ExecRecord.apply (r : ExecRecord) (view : Option ShellOutputView) : Option ShellOutputView :=
  match r with
  | .update u => some (applyShellOutputUpdate view u)
  | .exit _ => view

def ExecRecord.isExit : ExecRecord → Bool
  | .update _ => false
  | .exit _ => true

structure Line where
  offset : Nat
  text : List Char
  bytes : Nat
  deriving DecidableEq

/-- A command the node runs for the server. -/
structure Exec where
  lines : List Line
  dropped : Nat
  end_ : Nat
  view : Option ShellOutputView
  exited : Bool
  /-- The stream serving its output now, by the number of its generator. -/
  consumer : Option Nat

/-- What `exec` puts in the map. -/
def Exec.fresh : Exec := { lines := [], dropped := 0, end_ := 0, view := none, exited := false, consumer := none }

def EXEC_TAIL_BYTES : Nat := 1024 * 1024

/-- The loop that drops what no longer fits, never the latest record. -/
def trim (tailBytes end_ : Nat) : List Line → Nat → List Line × Nat
  | l :: m :: rest, dropped =>
    if tailBytes < end_ - l.offset then trim tailBytes end_ (m :: rest) (dropped + 1)
    else (l :: m :: rest, dropped)
  | lines, dropped => (lines, dropped)

def record (tailBytes : Nat) (exec : Exec) (value : ExecRecord) : Exec :=
  let end_ := exec.end_ + value.bytes
  let kept := trim tailBytes end_ (exec.lines ++ [⟨exec.end_, value.text, value.bytes⟩]) exec.dropped
  { exec with
    lines := kept.1, dropped := kept.2, end_ := end_,
    view := value.apply exec.view, exited := exec.exited || value.isExit }

/-! ## The output generator -/

inductive Status
  | running
  | returned
  | failed (message : String)
  deriving DecidableEq

/-- The generator of `output(execId, exec, offset)`. Nothing of it runs before its first step. -/
structure Output where
  offset : Nat
  begun : Bool
  next : Int
  /-- The connection's signal, and that of the consumer another stream replaced. -/
  signalAborted : Bool
  consumerAborted : Bool
  yielded : List (List Char)
  status : Status

def Output.at (offset : Nat) : Output :=
  { offset, begun := false, next := 0, signalAborted := false, consumerAborted := false,
    yielded := [], status := .running }

variable {n m : Nat} {h rs : List ExecRecord} {o : Output}

def findIndex (p : Line → Bool) (lines : List Line) : Int :=
  match lines.findIdx? p with
  | some i => i
  | none => -1

/-- What runs before the generator's loop, once the consumer before it is aborted. -/
def Output.begin (exec : Exec) (o : Output) : Output :=
  { o with
    begun := true,
    next :=
      if o.offset = exec.end_ then exec.dropped + exec.lines.length
      else exec.dropped + findIndex (fun line => line.offset == o.offset) exec.lines }

/-- One turn of the loop: it stops, yields a line, or waits for a change. -/
def Output.turn (exec : Exec) (o : Output) : Output :=
  if o.signalAborted then { o with status := .returned }
  else if o.consumerAborted then
    { o with status := .failed "Another stream attached to this command" }
  else if o.next - exec.dropped < 0 then
    { o with status := .failed "The stream fell behind the command's kept output" }
  else
    match exec.lines[(o.next - exec.dropped).toNat]? with
    | some line => { o with yielded := o.yielded ++ [line.text], next := o.next + 1 }
    | none => if exec.exited then { o with status := .returned } else o

/-- A step of the generator: none after it ended. -/
def Output.step (exec : Exec) (o : Output) : Output :=
  if o.status = .running then
    if o.begun then o.turn exec else (o.begin exec).turn exec
  else o

/-! ## Attaching -/

/-- `PiExecAttachResult`. -/
structure AttachResult where
  offset : Nat
  view : Option ShellOutputView
  deriving DecidableEq

/-- A refusal: `NodeRejection`. -/
structure Rejection where
  code : String
  message : String
  deriving DecidableEq

/-- `attach` on a command the node has: its answer, and the offset its stream starts at. -/
def attach (exec : Exec) (offset : Nat) : Except Rejection (AttachResult × Output) :=
  let first := match exec.lines with
    | [] => exec.end_
    | l :: _ => l.offset
  if offset < first then .ok (⟨exec.end_, exec.view⟩, .at exec.end_)
  else if exec.end_ < offset ∨ (offset < exec.end_ ∧ ¬ exec.lines.any (·.offset == offset)) then
    .error ⟨"invalid_request", s!"Not the start of an output record: {offset}"⟩
  else .ok (⟨offset, none⟩, .at offset)

/-! ## The history -/

def size (h : List ExecRecord) : Nat := (h.map ExecRecord.bytes).sum

def viewOf (h : List ExecRecord) : Option ShellOutputView := h.foldl (fun v r => r.apply v) none

def layout (offset : Nat) : List ExecRecord → List Line
  | [] => []
  | r :: rs => ⟨offset, r.text, r.bytes⟩ :: layout (offset + r.bytes) rs

theorem ExecRecord.bytes_pos (r : ExecRecord) : 0 < r.bytes := by
  rw [bytes, text, encode_append, length_append]
  exact Nat.lt_of_lt_of_le (by decide : 0 < (encode ['\n']).length) (Nat.le_add_left _ _)

@[simp] theorem size_nil : size [] = 0 := rfl

@[simp] theorem size_cons (r : ExecRecord) (rs : List ExecRecord) : size (r :: rs) = r.bytes + size rs := rfl

@[simp] theorem size_append (rs ss : List ExecRecord) : size (rs ++ ss) = size rs + size ss := by
  simp [size]

theorem size_take_drop (h : List ExecRecord) (k : Nat) : size (h.take k) + size (h.drop k) = size h := by
  rw [← size_append, take_append_drop]

theorem size_take_le (h : List ExecRecord) (k : Nat) : size (h.take k) ≤ size h := by
  have := size_take_drop h k
  omega

theorem size_take_lt {j k : Nat} (hjk : j < k) (hk : k ≤ h.length) : size (h.take j) < size (h.take k) := by
  induction h generalizing j k with
  | nil => exact absurd hk (by simp; omega)
  | cons r rs ih =>
    obtain ⟨k, rfl⟩ : ∃ k', k = k' + 1 := ⟨k - 1, by omega⟩
    have := r.bytes_pos
    cases j with
    | zero => simp; omega
    | succ j =>
      simp only [take_succ_cons, size_cons]
      have := ih (j := j) (k := k) (by omega) (by simpa using hk)
      omega

theorem size_take_inj {j k : Nat} (hj : j ≤ h.length) (hk : k ≤ h.length)
    (e : size (h.take j) = size (h.take k)) : j = k := by
  rcases Nat.lt_trichotomy j k with hlt | heq | hlt
  · have := size_take_lt hlt hk
    omega
  · exact heq
  · have := size_take_lt hlt hj
    omega

@[simp] theorem length_layout (offset : Nat) (rs : List ExecRecord) : (layout offset rs).length = rs.length := by
  induction rs generalizing offset with
  | nil => rfl
  | cons r rs ih => simp [layout, ih]

theorem layout_append (offset : Nat) (rs ss : List ExecRecord) :
    layout offset (rs ++ ss) = layout offset rs ++ layout (offset + size rs) ss := by
  induction rs generalizing offset with
  | nil => rfl
  | cons r rs ih => simp [layout, ih, Nat.add_assoc]

theorem getElem?_layout (offset : Nat) (rs : List ExecRecord) (i : Nat) : (layout offset rs)[i]? =
      rs[i]?.map fun r => ⟨offset + size (rs.take i), r.text, r.bytes⟩ := by
  induction rs generalizing offset i with
  | nil => rfl
  | cons r rs ih =>
    cases i with
    | zero => simp [layout]
    | succ i => simp [layout, ih, Nat.add_assoc]

theorem findIdx?_layout (offset : Nat) {i : Nat} (hi : i < rs.length) :
    (layout offset rs).findIdx? (fun l => l.offset == offset + size (rs.take i)) = some i := by
  induction rs generalizing offset i with
  | nil => cases hi
  | cons r rs ih =>
    cases i with
    | zero => simp [layout, findIdx?_cons]
    | succ i =>
      have hne : (offset == offset + size ((r :: rs).take (i + 1))) = false := by
        have := r.bytes_pos
        rw [beq_eq_false_iff_ne, take_succ_cons, size_cons]
        omega
      have ih' := ih (offset + r.bytes) (i := i) (by simpa using hi)
      rw [Nat.add_assoc] at ih'
      rw [layout, findIdx?_cons, hne, take_succ_cons, size_cons, ih']
      simp

theorem mem_layout {offset : Nat} {l : Line} (h : l ∈ layout offset rs) :
    ∃ i, i < rs.length ∧ l.offset = offset + size (rs.take i) := by
  obtain ⟨i, hi, rfl⟩ := getElem_of_mem h
  have hi' : i < rs.length := by simpa using hi
  refine ⟨i, hi', ?_⟩
  have := getElem?_layout offset rs i
  rw [getElem?_eq_getElem hi, getElem?_eq_getElem hi'] at this
  rw [Option.some.inj this]

/-! ## What the node keeps -/

/-- The trimming loop drops the records that no longer fit, and stops at the first that does or at
the last. -/
theorem trim_layout (tailBytes e offset dropped : Nat) (hne : rs ≠ []) : ∃ j, j < rs.length ∧
      trim tailBytes e (layout offset rs) dropped = (layout (offset + size (rs.take j)) (rs.drop j), dropped + j) ∧
      (j + 1 < rs.length → e - (offset + size (rs.take j)) ≤ tailBytes) ∧
      ∀ i < j, tailBytes < e - (offset + size (rs.take i)) := by
  induction rs generalizing offset dropped with
  | nil => exact absurd rfl hne
  | cons r rs ih =>
    cases rs with
    | nil => exact ⟨0, by simp, by simp [layout, trim], by simp, by simp⟩
    | cons s rs =>
      by_cases hfit : tailBytes < e - offset
      · obtain ⟨j, hj, ht, hstop, hgone⟩ := ih (offset + r.bytes) (dropped + 1) (by simp)
        refine ⟨j + 1, by simpa using hj, ?_, ?_, ?_⟩
        · rw [layout, layout, trim, if_pos hfit, ← layout, ht]
          simp [Nat.add_assoc, Nat.add_comm 1 j]
        · intro h
          simpa [Nat.add_assoc] using hstop (by simpa using h)
        · intro i hi
          cases i with
          | zero => simpa using hfit
          | succ i => simpa [Nat.add_assoc] using hgone i (by omega)
      · refine ⟨0, by simp, ?_, fun _ => by simpa using hfit, by simp⟩
        rw [layout, layout, trim, if_neg hfit]
        simp [layout]

theorem trim_dropped (tailBytes e : Nat) (lines : List Line) (dropped : Nat) :
    dropped ≤ (trim tailBytes e lines dropped).2 := by
  fun_induction trim tailBytes e lines dropped with
  | case1 l m rest dropped _ ih => omega
  | case2 => exact le_refl _
  | case3 => exact le_refl _

/-- The command's state, in terms of its history. -/
structure Kept (tailBytes : Nat) (h : List ExecRecord) (exec : Exec) : Prop where
  lines : exec.lines = layout (size (h.take exec.dropped)) (h.drop exec.dropped)
  end_ : exec.end_ = size h
  view : exec.view = viewOf h
  exited : exec.exited = h.any ExecRecord.isExit
  empty : h = [] → exec.dropped = 0
  latest : h ≠ [] → exec.dropped < h.length
  fits : exec.dropped + 1 < h.length → size h - size (h.take exec.dropped) ≤ tailBytes
  gone : ∀ i < exec.dropped, tailBytes < size h - size (h.take i)

theorem Kept.fresh (tailBytes : Nat) : Kept tailBytes [] .fresh := by
  constructor <;> simp [Exec.fresh, layout, viewOf]

theorem Kept.dropped_le {tailBytes : Nat} {exec : Exec} (k : Kept tailBytes h exec) : exec.dropped ≤ h.length := by
  by_cases hh : h = []
  · rw [k.empty hh]
    exact Nat.zero_le _
  · exact Nat.le_of_lt (k.latest hh)

theorem viewOf_append (h : List ExecRecord) (r : ExecRecord) : viewOf (h ++ [r]) = r.apply (viewOf h) := by
  rw [viewOf, foldl_append]
  rfl

/-- **`record` keeps the invariant.** -/
theorem Kept.record {tailBytes : Nat} {exec : Exec} (k : Kept tailBytes h exec) (r : ExecRecord) :
    Kept tailBytes (h ++ [r]) (record tailBytes exec r) := by
  have hd := k.dropped_le
  have hsize : size (h ++ [r]) = size h + r.bytes := by simp
  have hlines : exec.lines ++ [⟨exec.end_, r.text, r.bytes⟩]
      = layout (size (h.take exec.dropped)) (h.drop exec.dropped ++ [r]) := by
    rw [layout_append, ← k.lines, k.end_, size_take_drop]
    rfl
  have hne : h.drop exec.dropped ++ [r] ≠ [] := by simp
  obtain ⟨j, hj, ht, hstop, hgone⟩ := trim_layout tailBytes (size h + r.bytes)
    (size (h.take exec.dropped)) exec.dropped hne
  -- The dropped part of the longer history.
  have htake : ∀ i, i ≤ j → size (h.take exec.dropped) + size ((h.drop exec.dropped ++ [r]).take i)
      = size ((h ++ [r]).take (exec.dropped + i)) := by
    intro i hi
    rw [← size_append, take_add, take_append_of_le_length hd, drop_append_of_le_length hd]
  have hlen : j < h.length - exec.dropped + 1 := by simpa using hj
  have hrec : PiExec.record tailBytes exec r =
      { exec with
        lines := layout (size ((h ++ [r]).take (exec.dropped + j))) ((h ++ [r]).drop (exec.dropped + j)),
        dropped := exec.dropped + j, end_ := size h + r.bytes,
        view := viewOf (h ++ [r]), exited := exec.exited || r.isExit } := by
    rw [k.end_] at hlines
    simp only [PiExec.record, k.end_, hlines, ht, htake j (le_refl j), viewOf_append, k.view,
      ← drop_drop, drop_append_of_le_length hd]
  rw [hrec]
  refine ⟨rfl, hsize.symm, rfl, by simp [k.exited], by simp, fun _ => ?_, ?_, ?_⟩
  · simp only [length_append, length_cons, length_nil]
    omega
  · intro hlt
    simp only [length_append, length_cons, length_nil] at hlt
    rw [hsize, ← htake j (le_refl j)]
    exact hstop (by simp; omega)
  · intro i hi
    rw [hsize]
    by_cases hi' : i < exec.dropped
    · have := k.gone i hi'
      rw [take_append_of_le_length (by omega)]
      omega
    · have := hgone (i - exec.dropped) (by simp only at hi; omega)
      rwa [htake _ (by simp only at hi; omega), Nat.add_sub_cancel' (by omega)] at this

section

variable {tailBytes : Nat} {h : List ExecRecord} {exec : Exec}

theorem Kept.first (k : Kept tailBytes h exec) : (match exec.lines with
      | [] => exec.end_
      | l :: _ => l.offset) = size (h.take exec.dropped) := by
  rw [k.lines]
  cases hd : h.drop exec.dropped with
  | nil =>
    have hlen : h.length ≤ exec.dropped := by simpa using hd
    rw [k.end_, take_of_length_le hlen]
    rfl
  | cons r rs => rfl

theorem Kept.getElem? (k : Kept tailBytes h exec) (i : Nat) : exec.lines[i]? = h[exec.dropped + i]?.map fun r =>
      ⟨size (h.take (exec.dropped + i)), r.text, r.bytes⟩ := by
  rw [k.lines, getElem?_layout, getElem?_drop, ← size_append, ← take_add]

theorem Kept.length_lines (k : Kept tailBytes h exec) : exec.lines.length = h.length - exec.dropped := by
  rw [k.lines, length_layout, length_drop]

/-- The kept records' boundaries, and no others, are found among the lines. -/
theorem Kept.findIdx? (k : Kept tailBytes h exec) (hn : n < h.length) :
    exec.lines.findIdx? (fun l => l.offset == size (h.take n))
      = if exec.dropped ≤ n then some (n - exec.dropped) else none := by
  split
  next hd =>
    have hi : n - exec.dropped < (h.drop exec.dropped).length := by simp; omega
    have := findIdx?_layout (size (h.take exec.dropped)) hi
    rwa [← size_append, ← take_add, Nat.add_sub_cancel' hd, ← k.lines] at this
  next hd =>
    rw [findIdx?_eq_none_iff]
    intro l hl
    rw [k.lines] at hl
    obtain ⟨i, hi, ho⟩ := mem_layout hl
    rw [← size_append, ← take_add] at ho
    rw [beq_eq_false_iff_ne, ho]
    intro e
    have := size_take_inj (by simp at hi; omega) (by omega) e
    omega

/-- **`attach` at a boundary**: from a record that was dropped it answers the end and the view, from
any other it answers the boundary itself. -/
theorem Kept.attach (k : Kept tailBytes h exec) (hn : n ≤ h.length) : PiExec.attach exec (size (h.take n)) =
      if n < exec.dropped then .ok (⟨size h, viewOf h⟩, .at (size h))
      else .ok (⟨size (h.take n), none⟩, .at (size (h.take n))) := by
  have hdl := k.dropped_le
  rw [PiExec.attach, k.first, k.end_, k.view]
  split
  next hlt =>
    have hnd : n < exec.dropped := by
      by_contra hge
      rcases Nat.lt_or_eq_of_le (Nat.le_of_not_lt hge) with h1 | h1
      · have := size_take_lt h1 hn
        omega
      · rw [h1] at hlt
        omega
    rw [if_pos hnd]
  next hge =>
    have hnd : ¬ n < exec.dropped := fun hlt => hge (size_take_lt hlt hdl)
    rw [if_neg hnd, if_neg]
    rintro (hlt | ⟨hlt, hany⟩)
    · have := size_take_le h n
      omega
    have hnl : n < h.length := by
      by_contra hle
      rw [take_of_length_le (by omega)] at hlt
      omega
    have hf := k.findIdx? hnl
    rw [if_pos (by omega)] at hf
    exact hany (by rw [← findIdx?_isSome, hf]; rfl)

/-! ## What a stream yields -/

def stretch (h : List ExecRecord) (m n : Nat) : List (List Char) := ((h.take n).drop m).map ExecRecord.text

theorem stretch_self (h : List ExecRecord) (m : Nat) : stretch h m m = [] := by
  simp [stretch]

theorem stretch_succ (hmn : m ≤ n) {r : ExecRecord}
    (hr : h[n]? = some r) : stretch h m (n + 1) = stretch h m n ++ [r.text] := by
  have hlen : n < h.length := by
    by_contra hle
    rw [getElem?_eq_none (by omega)] at hr
    cases hr
  rw [stretch, take_add_one, hr, Option.toList_some,
    drop_append_of_le_length (by simp; omega), map_append]
  rfl

theorem stretch_append (hn : n ≤ h.length) (r : ExecRecord) : stretch (h ++ [r]) m n = stretch h m n := by
  rw [stretch, take_append_of_le_length hn, stretch]

/-- A generator's state, in terms of the history: it started at the `m`-th record and has yielded
those before the `n`-th. One that is behind the kept lines yields nothing more. -/
structure Serves (h : List ExecRecord) (exec : Exec) (o : Output) (m n : Nat) : Prop where
  offset : o.offset = size (h.take m)
  le : m ≤ n
  bound : n ≤ h.length
  yielded : o.yielded = stretch h m n
  idle : o.begun = false → n = m
  next : o.begun = true → o.next = n ∨ o.next < exec.dropped

theorem Serves.at (hm : m ≤ h.length) : Serves h exec (.at (size (h.take m))) m m :=
  ⟨rfl, le_refl _, hm, (stretch_self h m).symm, fun _ => rfl, by simp [Output.at]⟩

/-- Another record: what was yielded stays, and what fell behind stays behind. -/
theorem Serves.record (s : Serves h exec o m n) (r : ExecRecord) :
    Serves (h ++ [r]) (PiExec.record tailBytes exec r) o m n := by
  have hd : exec.dropped ≤ (PiExec.record tailBytes exec r).dropped := trim_dropped ..
  refine ⟨?_, s.le, ?_, ?_, s.idle, fun hb => ?_⟩
  · rw [take_append_of_le_length (s.le.trans s.bound)]
    exact s.offset
  · have := s.bound
    rw [length_append]
    omega
  · rw [stretch_append s.bound]
    exact s.yielded
  · rcases s.next hb with e | hlt
    · exact Or.inl e
    · exact Or.inr (by omega)

theorem Serves.begin (s : Serves h exec o m n) (k : Kept tailBytes h exec) (hb : o.begun = false) :
    Serves h exec (o.begin exec) m m ∧ (exec.dropped ≤ m → (o.begin exec).next = m) := by
  have hn := s.idle hb
  subst hn
  have hdl := k.dropped_le
  have hnext : (o.begin exec).next = if exec.dropped ≤ n then (n : Int) else exec.dropped - 1 := by
    simp only [Output.begin, s.offset, k.end_, k.length_lines]
    by_cases hm : n < h.length
    · have hne : ¬ size (h.take n) = size h := by
        have := size_take_lt hm (le_refl _)
        rw [take_length] at this
        omega
      rw [if_neg hne, findIndex, k.findIdx? hm]
      by_cases hd : exec.dropped ≤ n
      · rw [if_pos hd, if_pos hd]
        simp only
        omega
      · rw [if_neg hd, if_neg hd]
        rfl
    · have hlen : n = h.length := by have := s.bound; omega
      rw [hlen, take_length, if_pos rfl, if_pos hdl]
      omega
  refine ⟨⟨s.offset, le_refl _, s.bound, s.yielded, fun _ => rfl, fun _ => ?_⟩, fun hd => ?_⟩
  · rw [hnext]
    split
    · exact Or.inl rfl
    · exact Or.inr (by omega)
  · rw [hnext, if_pos hd]

/-- **A turn of the loop yields the next record or none.** -/
theorem Serves.turn (s : Serves h exec o m n) (k : Kept tailBytes h exec) (hb : o.begun = true) :
    ∃ n', n ≤ n' ∧ Serves h exec (o.turn exec) m n' := by
  have hsame : ∀ status, Serves h exec { o with status } m n :=
    fun status => { s with }
  unfold Output.turn
  split
  · exact ⟨n, le_refl _, hsame _⟩
  split
  · exact ⟨n, le_refl _, hsame _⟩
  split
  · exact ⟨n, le_refl _, hsame _⟩
  rename_i hbehind
  have hnext : o.next = n := (s.next hb).resolve_right (by omega)
  have hidx : exec.dropped + (o.next - exec.dropped).toNat = n := by omega
  rw [k.getElem?, hidx]
  cases hr : h[n]? with
  | none =>
    rw [Option.map_none]
    simp only
    split
    · exact ⟨n, le_refl _, hsame _⟩
    · exact ⟨n, le_refl _, s⟩
  | some r =>
    have hlen : n < h.length := by
      by_contra hle
      rw [getElem?_eq_none (by omega)] at hr
      cases hr
    rw [Option.map_some]
    refine ⟨n + 1, Nat.le_succ n, s.offset, by have := s.le; omega, hlen, ?_, ?_, fun _ => Or.inl ?_⟩
    · simp [s.yielded, stretch_succ s.le hr]
    · simp [hb]
    · simp only [hnext]
      omega

theorem Serves.step (s : Serves h exec o m n)
    (k : Kept tailBytes h exec) : ∃ n', n ≤ n' ∧ Serves h exec (o.step exec) m n' := by
  unfold Output.step
  split
  · cases hb : o.begun with
    | true => exact s.turn k hb
    | false =>
      obtain ⟨hs, -⟩ := s.begin k hb
      rw [s.idle hb]
      exact hs.turn k rfl
  · exact ⟨n, le_refl _, s⟩

end

end Reins.PiExec
