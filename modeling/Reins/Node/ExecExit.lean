import Reins.Node.PiExec

/-!
# The exit of a kept command

After the exit nothing is recorded, so a stream of the command runs to its end: it yields the kept
records from where it starts and returns. From a boundary the node still has, that includes the
exit, which is the last record; but an older one is answered with the end of the records, past the
exit, and a view, which does not hold it.
-/

open Utf List

namespace Reins.PiExec

def exitedWith (us : List ShellOutputUpdate) (e : ExecExit) : List ExecRecord := us.map ExecRecord.update ++ [.exit e]

/-- The state of a command after some records. -/
def kept (tailBytes : Nat) (h : List ExecRecord) : Exec := h.foldl (record tailBytes) .fresh

theorem kept_ok (tailBytes : Nat) (h : List ExecRecord) : Kept tailBytes h (kept tailBytes h) := by
  induction h using List.reverseRecOn with
  | nil => exact Kept.fresh tailBytes
  | append_singleton h r ih =>
    rw [kept, foldl_append]
    exact ih.record r

def Output.toEnd (exec : Exec) (o : Output) : Output := (Output.step exec)^[exec.lines.length + 1] o

section

variable {tailBytes : Nat} {h : List ExecRecord} {exec : Exec} {o : Output}

/-- A generator in its loop that nothing has stopped. -/
structure Output.Looping (o : Output) : Prop where
  begun : o.begun = true
  signal : o.signalAborted = false
  consumer : o.consumerAborted = false
  running : o.status = .running

theorem Output.Looping.step_yield (l : o.Looping) (k : Kept tailBytes h exec) {n : Nat}
    (hd : exec.dropped ≤ n) (ho : o.next = n) {r : ExecRecord} (hr : h[n]? = some r) :
    o.step exec = { o with yielded := o.yielded ++ [r.text], next := n + 1 } := by
  have hidx : exec.dropped + ((n : Int) - exec.dropped).toNat = n := by omega
  rw [Output.step, if_pos l.running, if_pos l.begun, Output.turn, if_neg (by simp [l.signal]),
    if_neg (by simp [l.consumer]), ho, if_neg (by omega), k.getElem?, hidx, hr]
  rfl

theorem Output.Looping.step_return (l : o.Looping) (k : Kept tailBytes h exec)
    (hx : exec.exited = true) (ho : o.next = h.length) :
    o.step exec = { o with status := .returned } := by
  have hd := k.dropped_le
  have hidx : exec.dropped + ((h.length : Int) - exec.dropped).toNat = h.length := by omega
  rw [Output.step, if_pos l.running, if_pos l.begun, Output.turn, if_neg (by simp [l.signal]),
    if_neg (by simp [l.consumer]), ho, if_neg (by omega), k.getElem?, hidx,
    getElem?_eq_none (le_refl _)]
  simp [hx, ← ho]

/-- **A loop after the exit yields all that is left and returns.** -/
theorem Output.Looping.iterate (l : o.Looping) (k : Kept tailBytes h exec)
    (hx : exec.exited = true) {n : Nat} (hd : exec.dropped ≤ n) (hn : n ≤ h.length)
    (ho : o.next = n) {steps : Nat} (hs : h.length - n < steps) :
    ((Output.step exec)^[steps] o).status = .returned ∧
      ((Output.step exec)^[steps] o).yielded = o.yielded ++ (h.drop n).map ExecRecord.text := by
  induction steps generalizing o n with
  | zero => omega
  | succ steps ih =>
    rw [Function.iterate_succ_apply]
    rcases Nat.lt_or_eq_of_le hn with hlt | rfl
    · have hr : h[n]? = some h[n] := getElem?_eq_getElem hlt
      rw [l.step_yield k hd ho hr]
      have hloop : ({ o with yielded := o.yielded ++ [h[n].text], next := n + 1 } : Output).Looping :=
        { l with }
      obtain ⟨h1, h2⟩ := ih hloop (by omega) hlt (by simp) (by omega)
      refine ⟨h1, ?_⟩
      rw [h2, drop_eq_getElem_cons hlt, map_cons, append_assoc]
      rfl
    · have hfix : Output.step exec { o with status := .returned } = { o with status := .returned } := by
        simp [Output.step]
      rw [l.step_return k hx ho, Function.iterate_fixed hfix]
      simp

theorem Kept.toEnd (k : Kept tailBytes h exec) (hx : exec.exited = true) {m : Nat}
    (hd : exec.dropped ≤ m) (hm : m ≤ h.length) :
    ((Output.at (size (h.take m))).toEnd exec).status = .returned ∧
      ((Output.at (size (h.take m))).toEnd exec).yielded = (h.drop m).map ExecRecord.text := by
  have hat : Serves h exec (.at (size (h.take m))) m m := Serves.at hm
  obtain ⟨hs, hnext⟩ := hat.begin k rfl
  have hstep : (Output.at (size (h.take m))).step exec = ((Output.at (size (h.take m))).begin exec).step exec := by
    simp [Output.step, Output.at, Output.begin]
  have hloop : ((Output.at (size (h.take m))).begin exec).Looping := ⟨rfl, rfl, rfl, rfl⟩
  rw [Output.toEnd, Function.iterate_succ_apply, hstep, ← Function.iterate_succ_apply]
  have hsteps : h.length - m < exec.lines.length + 1 := by
    rw [k.length_lines]
    omega
  have hyielded : ((Output.at (size (h.take m))).begin exec).yielded = [] := rfl
  have := hloop.iterate k hx hd hm (hnext hd) hsteps
  rwa [hyielded, nil_append] at this

/-- Which boundaries of an exited command are still kept: those with no more after them than the
tail, and the exit's own. -/
theorem Kept.boundary_kept (k : Kept tailBytes h exec) {n : Nat} (hn : n < h.length) :
    exec.dropped ≤ n ↔ size (h.drop n) ≤ tailBytes ∨ n + 1 = h.length := by
  have hsplit := size_take_drop h n
  constructor
  · intro hd
    rcases Nat.lt_or_ge (exec.dropped + 1) h.length with hlt | hge
    · left
      have hfit := k.fits hlt
      have hle : size (h.take exec.dropped) ≤ size (h.take n) := by
        rcases Nat.lt_or_eq_of_le hd with h1 | h1
        · exact Nat.le_of_lt (size_take_lt h1 (by omega))
        · rw [h1]
      omega
    · right
      omega
  · intro hor
    by_contra hlt
    have hgone := k.gone n (by omega)
    have hdl := k.latest (by rintro rfl; simp at hn)
    rcases hor with hfit | hlast
    · omega
    · omega

theorem Kept.attach_exited (k : Kept tailBytes h exec) (hx : exec.exited = true) {n : Nat} (hn : n < h.length) :
    ∃ result source, PiExec.attach exec (size (h.take n)) = .ok (result, source) ∧
      (source.toEnd exec).status = .returned ∧
      (source.toEnd exec).yielded =
        if size (h.drop n) ≤ tailBytes ∨ n + 1 = h.length then (h.drop n).map ExecRecord.text
        else [] := by
  rw [k.attach (Nat.le_of_lt hn)]
  by_cases hd : exec.dropped ≤ n
  · obtain ⟨hret, hyield⟩ := k.toEnd hx hd (Nat.le_of_lt hn)
    rw [if_neg (by omega)]
    refine ⟨_, _, rfl, hret, ?_⟩
    rw [hyield, if_pos ((k.boundary_kept hn).mp hd)]
  · obtain ⟨hret, hyield⟩ := k.toEnd hx k.dropped_le (le_refl _)
    rw [take_length] at hret hyield
    rw [if_pos (by omega)]
    refine ⟨_, _, rfl, hret, ?_⟩
    rw [hyield, if_neg fun h => hd ((k.boundary_kept hn).mpr h)]
    simp

end

theorem exitedWith_exited (tailBytes : Nat) (us : List ShellOutputUpdate) (e : ExecExit) :
    (kept tailBytes (exitedWith us e)).exited = true := by
  rw [(kept_ok tailBytes _).exited]
  simp [exitedWith, ExecRecord.isExit]

theorem lines_pos : 0 < 2000 := by decide

theorem lines_safe : 2000 ≤ Schema.MAX_SAFE_INTEGER := by decide

def printed : Metadata :=
  { truncation :=
      { truncated := false, truncatedBy := none,
        totalLines := ⟨1, by decide⟩, totalBytes := ⟨1048576, by decide⟩,
        outputLines := ⟨1, by decide⟩, outputBytes := ⟨1048576, by decide⟩,
        lastLinePartial := false, firstLineExceedsLimit := false,
        maxLines := ⟨2000, lines_pos, lines_safe⟩,
        maxBytes := ⟨1048576, by decide, by decide⟩ },
    spillPath := none, lastLineBytes := none }

/-- **When a stream attached to an exited command carries its exit.** The server asks from a record
boundary before the end of the exit; the stream it is given runs to its end, and holds the exit
exactly when the records from that boundary on fit the kept tail or the exit is the first of
them. -/
theorem exit_streamed_iff (tailBytes : Nat) (us : List ShellOutputUpdate) (e : ExecExit) (n : Nat)
    (hn : n ≤ us.length) :
    ∃ result source, attach (kept tailBytes (exitedWith us e)) (size ((exitedWith us e).take n))
        = .ok (result, source) ∧
      (source.toEnd (kept tailBytes (exitedWith us e))).status = .returned ∧
      ((ExecRecord.exit e).text ∈ (source.toEnd (kept tailBytes (exitedWith us e))).yielded ↔
        size ((exitedWith us e).drop n) ≤ tailBytes ∨ n = us.length) := by
  have hlen : (exitedWith us e).length = us.length + 1 := by simp [exitedWith]
  have hlast : ExecRecord.exit e ∈ (exitedWith us e).drop n := by
    rw [exitedWith, drop_append_of_le_length (by simpa using hn)]
    simp
  have hnl : n < (exitedWith us e).length := by omega
  obtain ⟨result, source, ha, hret, hyield⟩ :=
    (kept_ok tailBytes _).attach_exited (exitedWith_exited tailBytes us e) hnl
  have hown : n + 1 = (exitedWith us e).length ↔ n = us.length := by omega
  refine ⟨result, source, ha, hret, ?_⟩
  rw [hyield, ← hown]
  split
  next hfit =>
    exact ⟨fun _ => hfit, fun _ => mem_map_of_mem hlast⟩
  next hfit =>
    exact ⟨fun h => absurd h (by simp), fun h => absurd h hfit⟩

theorem exit_streamed_iff_printed : ∃ result source,
      attach (kept 64 (exitedWith [.metadata printed] (.error .unknown [])))
        (size ((exitedWith [.metadata printed] (.error .unknown [])).take 0)) = .ok (result, source) ∧
      (source.toEnd (kept 64 (exitedWith [.metadata printed] (.error .unknown [])))).status = .returned ∧
      ((ExecRecord.exit (.error .unknown [])).text ∈
          (source.toEnd (kept 64 (exitedWith [.metadata printed] (.error .unknown [])))).yielded ↔
        size ((exitedWith [.metadata printed] (.error .unknown [])).drop 0) ≤ 64
          ∨ 0 = [ShellOutputUpdate.metadata printed].length) :=
  exit_streamed_iff 64 [.metadata printed] (.error .unknown []) 0 (by decide)

/-! ## A command that loses its exit -/

def longLine (n : Nat) : ShellOutputUpdate := .append (List.replicate n 0x78) printed

theorem escape_replicate (n : Nat) : Json.escape (List.replicate n 0x78) = List.replicate n 'x' := by
  induction n with
  | zero => rfl
  | succ n ih =>
    cases n with
    | zero => rfl
    | succ n =>
      rw [replicate_succ, replicate_succ] at ih ⊢
      rw [Json.escape, if_neg (by decide), ih]
      rfl

theorem length_le_encode (cs : List Char) : cs.length ≤ (encode cs).length := by
  induction cs with
  | nil => simp
  | cons c cs ih =>
    rw [encode_cons, length_append, length_cons, String.length_utf8EncodeChar]
    have := c.utf8Size_pos
    omega

theorem lt_longLine_bytes (n : Nat) : n < (ExecRecord.update (longLine n)).bytes := by
  refine Nat.lt_of_lt_of_le ?_ (length_le_encode _)
  simp only [ExecRecord.text, ExecRecord.toJson, longLine, ShellOutputUpdate.toJson, Json.stringify,
    Json.stringifyMembers, Json.quote, escape_replicate, length_append,
    length_cons, length_replicate]
  omega

/-- What is left to read of `longLine` and the exit does not fit a tail of its size. -/
theorem lost_of_longLine (tailBytes : Nat) (e : ExecExit) : ∃ result source,
      attach (kept tailBytes (exitedWith [longLine tailBytes] e)) 0 = .ok (result, source) ∧
      (source.toEnd (kept tailBytes (exitedWith [longLine tailBytes] e))).status = .returned ∧
      (ExecRecord.exit e).text ∉ (source.toEnd (kept tailBytes (exitedWith [longLine tailBytes] e))).yielded := by
  have hlen : (exitedWith [longLine tailBytes] e).length = 2 := rfl
  obtain ⟨result, source, ha, hret, hyield⟩ := (kept_ok tailBytes _).attach_exited
    (exitedWith_exited tailBytes [longLine tailBytes] e) (hlen ▸ Nat.zero_lt_two)
  have hbig := lt_longLine_bytes tailBytes
  refine ⟨result, source, ha, hret, ?_⟩
  rw [hyield, if_neg]
  · exact not_mem_nil
  · rw [hlen, drop_zero, exitedWith, map_cons, size_append, size_cons]
    omega

/-- **A command whose exit is lost.** With the node's own tail size: the link drops before the one
output record is taken, the command exits, and the server attaches from the start. -/
theorem exit_lost : ∃ result source,
      attach (kept EXEC_TAIL_BYTES (exitedWith [longLine EXEC_TAIL_BYTES] (.error .unknown []))) 0
        = .ok (result, source) ∧
      (source.toEnd (kept EXEC_TAIL_BYTES
        (exitedWith [longLine EXEC_TAIL_BYTES] (.error .unknown [])))).status = .returned ∧
      (ExecRecord.exit (.error .unknown [])).text ∉ (source.toEnd (kept EXEC_TAIL_BYTES
          (exitedWith [longLine EXEC_TAIL_BYTES] (.error .unknown [])))).yielded :=
  lost_of_longLine EXEC_TAIL_BYTES (.error .unknown [])

end Reins.PiExec
