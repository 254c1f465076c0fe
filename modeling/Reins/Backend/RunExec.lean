import Reins.Lib.Lines
import Reins.Lib.Places
import Reins.Lib.Run
import Reins.Node.PiExec

/-!
# Picking a command up again (`backend/src/nodes/node-dir-client.ts`, `runExec`)

The server sends `pi.exec` once and then, whenever the stream it reads stops, attaches again at
`taken`, the bytes of the records it has taken. Requests and answers are in flight between the two
ends and may be late, lost, or to a call the server has given up; generators the server no longer
reads may still be running. All of that is the environment's: an event says which request the node
handles, which answer arrives, which generator takes a step, how many bytes the server reads.

`history` is every record the command made and `applied` is what the server took, in order; they
are there to be compared. `Follows` is the comparison: each record taken is the next one, and only
a view jumps, to the records it stands for.
-/

open Utf Places List

namespace Reins.PiExec

def NEWLINE : UInt8 := 10

/-! ## The server's end -/

/-- What the server took: a record off a stream, or an attach's view with its offset. -/
inductive Applied
  | record (r : ExecRecord)
  | view (offset : Nat) (v : ShellOutputView)

/-- The update that is handed to `onUpdate` for it. -/
def Applied.update : Applied → Option ShellOutputUpdate
  | .record (.update u) => some u
  | .record (.exit _) => none
  | .view _ v => some (.replace v)

/-- `runExec`'s state. `reading` is the number of the stream whose body it reads and `readAt` how
many of its bytes it has read; `awaiting` is the call it waits for. -/
structure Server where
  taken : Nat
  pending : List UInt8
  reading : Option Nat
  readAt : Nat
  awaiting : Option Nat
  handed : List ShellOutputUpdate
  callbackError : Bool
  done : Bool
  applied : List Applied

/-- `update`: nothing is handed over once `onUpdate` threw. -/
def Server.update (throws : Nat → Bool) (s : Server) (u : ShellOutputUpdate) : Server :=
  if s.callbackError then s
  else { s with handed := s.handed ++ [u], callbackError := throws s.handed.length }

/-- The record callback of `readRecords`. -/
def Server.take (throws : Nat → Bool) (s : Server) (r : ExecRecord) (bytes : Nat) : Server :=
  let s' := { s with taken := s.taken + bytes, applied := s.applied ++ [.record r] }
  match r with
  | .update u => s'.update throws u
  | .exit _ => s'

def readLine (line : List UInt8) : Option ExecRecord := (Json.parse (decodeText false line)).bind ExecRecord.ofJson

def Server.finish (s : Server) : Server := { s with done := true, reading := none, awaiting := none, pending := [] }

def Server.readLoop (throws : Nat → Bool) : Nat → Server → Server
  | 0, s => s
  | fuel + 1, s =>
    match s.pending.dropWhile (· ≠ NEWLINE) with
    | [] => s
    | _ :: rest =>
      let line := s.pending.takeWhile (· ≠ NEWLINE)
      match readLine line with
      | none => s.finish
      | some r =>
        let s' := { s with pending := rest }.take throws r (line.length + 1)
        if r.isExit then s'.finish else s'.readLoop throws fuel

def Server.read (throws : Nat → Bool) (s : Server) (chunk : List UInt8) : Server :=
  let s' := { s with pending := s.pending ++ chunk, readAt := s.readAt + chunk.length }
  s'.readLoop throws s'.pending.length

/-- The body errored or ended: what was pending is dropped. -/
def Server.cut (s : Server) : Server := { s with reading := none, pending := [] }

def Server.open_ (s : Server) (stream : Nat) : Server :=
  { s with awaiting := none, reading := some stream, readAt := 0, pending := [] }

def Server.attached (throws : Nat → Bool) (s : Server) (result : AttachResult) (stream : Nat) :
    Server :=
  let s' := match result.view with
    | some v => { s with applied := s.applied ++ [Applied.view result.offset v] }.update throws (.replace v)
    | none => s
  { s' with taken := result.offset }.open_ stream

/-! ## The two ends -/

inductive Request
  | exec
  | attach (offset : Nat)

inductive Answer
  | started (stream : Nat)
  | attached (asked : Nat) (result : AttachResult) (stream : Nat)
  | refused

structure World where
  exec : Option Exec
  /-- Whether the node still has the command: it forgets one after its grace period. -/
  known : Bool
  history : List ExecRecord
  outputs : List Output
  requests : List (Nat × Request)
  answers : List (Nat × Answer)
  calls : Nat
  server : Server

/-- A run that sends the command, or one that picks up what an earlier server process sent: there
the call's request is in flight and nobody waits for its answer. -/
def World.start (attach : Bool) : World :=
  { exec := none, known := false, history := [], outputs := [], requests := [(0, .exec)],
    answers := [], calls := 1,
    server :=
      { taken := 0, pending := [], reading := none, readAt := 0,
        awaiting := if attach then none else some 0, handed := [], callbackError := false,
        done := false, applied := [] } }

inductive Event
  /-- The command makes a record: its exit is its last. -/
  | record (r : ExecRecord)
  /-- The node forgets the command: its grace period is over, or the node closes. -/
  | forget
  | send
  | handle (i : Nat)
  | arrive (i : Nat) (throws : Nat → Bool)
  /-- The call the server waits for timed out or was cut off. -/
  | giveUp
  | pull (stream : Nat)
  /-- A generator's connection closed, or its stream was cancelled. -/
  | stop (stream : Nat)
  | read (bytes : Nat) (throws : Nat → Bool)
  | cut
  | abort

def World.serve (w : World) (call : Nat) : Request → World
  | .exec =>
    match w.exec with
    | none =>
      { w with
        exec := some .fresh, known := true, outputs := w.outputs ++ [.at 0],
        answers := w.answers ++ [(call, .started w.outputs.length)] }
    | some _ => { w with answers := w.answers ++ [(call, .refused)] }
  | .attach offset =>
    match w.exec with
    | none => { w with answers := w.answers ++ [(call, .refused)] }
    | some exec =>
      if w.known then
        match attach exec offset with
        | .error _ => { w with answers := w.answers ++ [(call, .refused)] }
        | .ok (result, output) =>
          { w with
            outputs := w.outputs ++ [output],
            answers := w.answers ++ [(call, .attached offset result w.outputs.length)] }
      else { w with answers := w.answers ++ [(call, .refused)] }

def Server.answer (throws : Nat → Bool) (s : Server) : Answer → Server
  | .started stream => s.open_ stream
  | .attached _ result stream => s.attached throws result stream
  | .refused => s.finish

def World.takeOver (w : World) (stream : Nat) : World :=
  match w.exec, w.outputs[stream]? with
  | some exec, some o =>
    if o.status = .running ∧ o.begun = false then
      { w with
        exec := some { exec with consumer := some stream },
        outputs := match exec.consumer with
          | some j => w.outputs.modify j fun o => { o with consumerAborted := true }
          | none => w.outputs }
    else w
  | _, _ => w

/-- A generator's step; one that ends leaves the consumer's place. -/
def World.turn (w : World) (stream : Nat) : World :=
  match w.exec, w.outputs[stream]? with
  | some exec, some o =>
    let o := o.step exec
    let left := o.status ≠ .running ∧ exec.consumer = some stream
    { w with
      exec := some (if left then { exec with consumer := none } else exec),
      outputs := w.outputs.set stream o }
  | _, _ => w

def World.pull (w : World) (stream : Nat) : World := (w.takeOver stream).turn stream

/-- The bytes a generator has yielded: its stream's, as far as it got. -/
def Output.sent (o : Output) : List UInt8 := o.yielded.flatMap encode

def step (tailBytes : Nat) (w : World) : Event → World
  | .record r =>
    match w.exec with
    | some exec =>
      if exec.exited then w
      else { w with exec := some (record tailBytes exec r), history := w.history ++ [r] }
    | none => w
  | .forget => { w with known := false }
  | .send =>
    if w.server.done ∨ w.server.awaiting ≠ none ∨ w.server.reading ≠ none then w
    else if w.server.callbackError then { w with server := w.server.finish }
    else
      { w with
        requests := w.requests ++ [(w.calls, .attach w.server.taken)], calls := w.calls + 1,
        server := { w.server with awaiting := some w.calls } }
  | .handle i =>
    match w.requests[i]? with
    | some (call, request) => { w with requests := w.requests.eraseIdx i }.serve call request
    | none => w
  | .arrive i throws =>
    match w.answers[i]? with
    | some (call, answer) =>
      let w' := { w with answers := w.answers.eraseIdx i }
      if w.server.awaiting = some call then { w' with server := w.server.answer throws answer }
      else w'
    | none => w
  | .giveUp => { w with server := { w.server with awaiting := none } }
  | .pull stream => w.pull stream
  | .stop stream => { w with outputs := w.outputs.modify stream fun o => { o with signalAborted := true } }
  | .read bytes throws =>
    match w.server.reading with
    | some stream =>
      match w.outputs[stream]? with
      | some o => { w with server := w.server.read throws ((o.sent.drop w.server.readAt).take bytes) }
      | none => w
    | none => w
  | .cut => { w with server := w.server.cut }
  | .abort => { w with server := w.server.finish }

def run (tailBytes : Nat) (attach : Bool) (es : List Event) : World := Run.exec (step tailBytes) (.start attach) es

/-! ## Following the history -/

/-- What was taken, against the history: the first `n` records are accounted for. -/
inductive Follows (h : List ExecRecord) : List Applied → Nat → Prop
  | nil : Follows h [] 0
  | record {log : List Applied} {n : Nat} {r : ExecRecord} :
      Follows h log n → h[n]? = some r → Follows h (log ++ [.record r]) (n + 1)
  | view {log : List Applied} {m n : Nat} {v : ShellOutputView} :
      Follows h log m → m ≤ n → n ≤ h.length → viewOf (h.take n) = some v →
      Follows h (log ++ [.view (size (h.take n)) v]) n

def viewOfUpdates (us : List ShellOutputUpdate) : Option ShellOutputView :=
  us.foldl (fun v u => some (applyShellOutputUpdate v u)) none

theorem viewOfUpdates_append (us : List ShellOutputUpdate) (u : ShellOutputUpdate) :
    viewOfUpdates (us ++ [u]) = some (applyShellOutputUpdate (viewOfUpdates us) u) := by
  rw [viewOfUpdates, foldl_append]
  rfl

section

variable {h : List ExecRecord} {log : List Applied} {n : Nat}

theorem Follows.le (f : Follows h log n) : n ≤ h.length := by
  cases f with
  | nil => exact Nat.zero_le _
  | record _ hr => exact lt_of_getElem? hr
  | view _ _ hn _ => exact hn

theorem Follows.grow (f : Follows h log n) (r : ExecRecord) : Follows (h ++ [r]) log n := by
  induction f with
  | nil => exact .nil
  | record f hr ih =>
    refine .record ih ?_
    rw [getElem?_append_left (lt_of_getElem? hr)]
    exact hr
  | @view log m n v f hmn hn hv ih =>
    have htake : (h ++ [r]).take n = h.take n := take_append_of_le_length hn
    rw [← htake] at hv ⊢
    exact .view ih hmn (by simp; omega) hv

/-- **What is handed over adds up to the view of the records it stands for.** -/
theorem Follows.view_eq (f : Follows h log n) : viewOfUpdates (log.filterMap Applied.update) = viewOf (h.take n) := by
  induction f with
  | nil => rfl
  | @record log n r f hr ih =>
    rw [take_add_one, hr, Option.toList_some, viewOf_append, filterMap_append, ← ih]
    cases r with
    | update u => exact viewOfUpdates_append _ u
    | exit e => exact congrArg viewOfUpdates (append_nil _)
  | view f hmn hn hv ih =>
    rw [hv, filterMap_append]
    exact viewOfUpdates_append _ _

/-! ## Reading a stream -/

/-- A record's bytes without their newline. -/
def ExecRecord.line (r : ExecRecord) : List UInt8 := encode (Json.stringify r.toJson)

theorem newline_notMem_line (r : ExecRecord) : NEWLINE ∉ r.line := by
  intro hm
  have := Json.stringify_visible r.toJson _ (mem_encode_ascii (by decide) hm)
  exact absurd this (by decide)

theorem encode_text (r : ExecRecord) : encode r.text = r.line ++ [NEWLINE] := by
  rw [ExecRecord.text, encode_append]
  rfl

theorem length_line (r : ExecRecord) : r.line.length + 1 = r.bytes := by
  rw [ExecRecord.bytes, encode_text, length_append]
  rfl

theorem readLine_line (r : ExecRecord) : readLine r.line = some r := by
  have hbrace : ∃ t, Json.stringify r.toJson = '\x7b' :: t := by
    cases r <;> exact ⟨_, rfl⟩
  obtain ⟨t, ht⟩ := hbrace
  have hhead : (decodeAll (encode (Json.stringify r.toJson))).head? ≠ some (some bom) := by
    rw [decodeAll_encode, ht]
    simp [bom]
  rw [readLine, ExecRecord.line, decodeText_of_head hhead, lossy_encode, Json.parse_stringify,
    Option.bind_some, ExecRecord.ofJson_toJson]

def lines (h : List ExecRecord) (m n : Nat) : List UInt8 := Lines.join NEWLINE (((h.take n).drop m).map ExecRecord.line)

theorem Serves.sent {exec : Exec} {o : Output} {m n : Nat} (s : Serves h exec o m n) : o.sent = lines h m n := by
  rw [Output.sent, s.yielded, stretch, lines]
  induction (h.take n).drop m with
  | nil => rfl
  | cons r rs ih => simp [encode_text, ih]

/-- The server's end in the middle of a stream that started at the `m`-th record: it has taken the
records before the `n`-th, and holds the start of that one. -/
structure Reading (h : List ExecRecord) (m n : Nat) (sent : List UInt8) (s : Server) : Prop where
  le : m ≤ n
  read : sent.take s.readAt = lines h m n ++ s.pending
  bound : s.readAt ≤ sent.length
  partial_ : NEWLINE ∉ s.pending

structure Logged (h : List ExecRecord) (n : Nat) (s : Server) : Prop where
  follows : Follows h s.applied n
  handed : s.callbackError = false → s.handed = s.applied.filterMap Applied.update

structure Taken (h : List ExecRecord) (n : Nat) (s : Server) : Prop where
  taken : s.taken = size (h.take n)
  logged : Logged h n s

/-- What `update` leaves as it was. -/
structure Handed (s t : Server) (u : ShellOutputUpdate) : Prop where
  taken : t.taken = s.taken
  applied : t.applied = s.applied
  pending : t.pending = s.pending
  readAt : t.readAt = s.readAt
  reading : t.reading = s.reading
  awaiting : t.awaiting = s.awaiting
  handed : t.callbackError = false → s.callbackError = false ∧ t.handed = s.handed ++ [u]

theorem Server.update_spec (throws : Nat → Bool) (s : Server) (u : ShellOutputUpdate) :
    Handed s (s.update throws u) u := by
  unfold Server.update
  split
  next hc =>
    exact ⟨rfl, rfl, rfl, rfl, rfl, rfl, fun h => absurd hc (by simp [h])⟩
  next hc =>
    exact ⟨rfl, rfl, rfl, rfl, rfl, rfl, fun _ => ⟨by simpa using hc, rfl⟩⟩

theorem Logged.update {s : Server} {log : List Applied} {a : Applied} {u : ShellOutputUpdate}
    (ha : s.applied = log ++ [a]) (hf : Follows h (log ++ [a]) n) (hu : a.update = some u)
    (hh : s.callbackError = false → s.handed = log.filterMap Applied.update)
    (throws : Nat → Bool) : Logged h n (s.update throws u) := by
  have hs := Server.update_spec throws s u
  refine ⟨by rw [hs.applied, ha]; exact hf, fun hc => ?_⟩
  obtain ⟨hc, he⟩ := hs.handed hc
  rw [he, hs.applied, ha, hh hc, filterMap_append]
  simp [hu]

theorem Taken.record {s : Server} (t : Taken h n s) {r : ExecRecord} (hr : h[n]? = some r)
    (throws : Nat → Bool) : Taken h (n + 1) (s.take throws r (r.line.length + 1)) := by
  have hsize : s.taken + (r.line.length + 1) = size (h.take (n + 1)) := by
    rw [take_add_one, hr, Option.toList_some, size_append, t.taken, length_line]
    rfl
  have hf := Follows.record t.logged.follows hr
  cases r with
  | exit e =>
    refine ⟨hsize, hf, fun hc => ?_⟩
    rw [Server.take, t.logged.handed hc, filterMap_append]
    exact (append_nil _).symm
  | update u =>
    have hl : Logged h (n + 1) (s.take throws (.update u) ((ExecRecord.update u).line.length + 1)) :=
      Logged.update (s := { s with taken := _, applied := s.applied ++ [.record (.update u)] })
        rfl hf rfl t.logged.handed throws
    refine ⟨?_, hl⟩
    rw [Server.take, (Server.update_spec throws _ u).taken]
    exact hsize

theorem Server.take_spec (throws : Nat → Bool) (s : Server) (r : ExecRecord) (bytes : Nat) :
    (s.take throws r bytes).pending = s.pending ∧ (s.take throws r bytes).readAt = s.readAt ∧
      (s.take throws r bytes).reading = s.reading ∧
      (s.take throws r bytes).awaiting = s.awaiting := by
  unfold Server.take
  cases r with
  | exit e => exact ⟨rfl, rfl, rfl, rfl⟩
  | update u =>
    have hs := Server.update_spec throws
      { s with taken := s.taken + bytes, applied := s.applied ++ [.record (.update u)] } u
    exact ⟨hs.pending, hs.readAt, hs.reading, hs.awaiting⟩

theorem lines_succ {m : Nat} (hmn : m ≤ n) {r : ExecRecord} (hr : h[n]? = some r) :
    lines h m (n + 1) = lines h m n ++ (r.line ++ [NEWLINE]) := by
  have := lt_of_getElem? hr
  rw [lines, take_add_one, hr, Option.toList_some,
    drop_append_of_le_length (by simp; omega), map_append, Lines.join_append]
  simp [lines]

theorem lines_split {m k : Nat} (hmn : m ≤ n) (hnk : n ≤ k) (hn : n ≤ h.length) :
    lines h m k = lines h m n ++ lines h n k := by
  have hsplit : (h.take k).drop m = (h.take n).drop m ++ (h.take k).drop n := by
    have htake : (h.take k).take n = h.take n := by rw [take_take, Nat.min_eq_left hnk]
    conv_lhs => rw [← take_append_drop n (h.take k), htake]
    exact drop_append_of_le_length (by simp; omega)
  rw [lines, hsplit, map_append, Lines.join_append]
  rfl

theorem next_record {m k : Nat} {line rest : List UInt8} (hk : k ≤ h.length) (hmn : m ≤ n)
    (hnk : n ≤ k) (hn : NEWLINE ∉ line)
    (hp : lines h m n ++ (line ++ NEWLINE :: rest) <+: lines h m k) :
    ∃ r, h[n]? = some r ∧ line = r.line ∧ n < k := by
  rw [lines_split hmn hnk (by omega), prefix_append_right_inj] at hp
  have hlt : n < k := by
    rcases Nat.lt_or_eq_of_le hnk with h1 | rfl
    · exact h1
    · have := hp.length_le
      simp [lines] at this
  have hr : h[n]? = some h[n] := getElem?_eq_getElem (by omega)
  rw [lines_split (Nat.le_succ n) hlt (by omega), lines_succ (le_refl n) hr] at hp
  obtain ⟨t, ht⟩ := hp
  have heq : line ++ NEWLINE :: (rest ++ t) = h[n].line ++ NEWLINE :: lines h (n + 1) k := by
    simpa [lines] using ht
  exact ⟨h[n], hr, (Lines.first_inj hn (newline_notMem_line _) heq).1, hlt⟩

/-- The loop of `readRecords`: what it takes are the next records, and it stops in the middle of a
record, or over. -/
theorem readLoop_spec (throws : Nat → Bool) {m k fuel : Nat} {s : Server} (hk : k ≤ h.length)
    (t : Taken h n s) (hmn : m ≤ n) (hnk : n ≤ k)
    (hp : lines h m n ++ s.pending <+: lines h m k) (hf : s.pending.length ≤ fuel) :
    ∃ n', n ≤ n' ∧ n' ≤ k ∧ Taken h n' (s.readLoop throws fuel) ∧ ((s.readLoop throws fuel).reading = none ∨
        (s.readLoop throws fuel).reading = s.reading ∧
        (s.readLoop throws fuel).readAt = s.readAt ∧
        lines h m n' ++ (s.readLoop throws fuel).pending = lines h m n ++ s.pending ∧
        NEWLINE ∉ (s.readLoop throws fuel).pending) := by
  induction fuel generalizing s n with
  | zero =>
    have hnil : s.pending = [] := eq_nil_of_length_eq_zero (by omega)
    exact ⟨n, le_refl _, hnk, t, Or.inr ⟨rfl, rfl, rfl, by rw [Server.readLoop, hnil]; simp⟩⟩
  | succ fuel ih =>
    by_cases hn : NEWLINE ∈ s.pending
    · obtain ⟨line, rest, he, hl⟩ := eq_append_cons_of_mem hn
      obtain ⟨htake, hdrop⟩ := Lines.takeWhile_line hl rest
      rw [he] at hp
      obtain ⟨r, hr, rfl, hlt⟩ := next_record hk hmn hnk hl hp
      rw [Server.readLoop, he, hdrop, htake]
      simp only [readLine_line]
      have t' := Taken.record (s := { s with pending := rest }) ⟨t.taken, ⟨t.logged.follows, t.logged.handed⟩⟩ hr throws
      obtain ⟨hpend, hat, hread, -⟩ := Server.take_spec throws { s with pending := rest } r (r.line.length + 1)
      have hsucc : lines h m (n + 1) ++ rest = lines h m n ++ (r.line ++ NEWLINE :: rest) := by
        rw [lines_succ hmn hr]
        simp
      split
      · exact ⟨n + 1, by omega, hlt, ⟨t'.taken, ⟨t'.logged.follows, t'.logged.handed⟩⟩, Or.inl rfl⟩
      have hf' : rest.length ≤ fuel := by
        rw [he, length_append, length_cons] at hf
        omega
      obtain ⟨n', h1, h2, h3, h4⟩ := ih t' (by omega) hlt (by rwa [hpend, hsucc]) (by rwa [hpend])
      refine ⟨n', by omega, h2, h3, h4.imp id fun ⟨h5, h6, h7, h8⟩ => ?_⟩
      exact ⟨h5.trans hread, h6.trans hat, by rw [h7, hpend, hsucc], h8⟩
    · have hstop : s.readLoop throws (fuel + 1) = s := by
        rw [Server.readLoop, (Lines.takeWhile_open hn).2]
      rw [hstop]
      exact ⟨n, le_refl _, hnk, t, Or.inr ⟨rfl, rfl, rfl, hn⟩⟩

end

end Reins.PiExec
