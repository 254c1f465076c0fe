import Reins.Lib.Base64
import Reins.Lib.Schema

/-!
# `fs.write` on the node (`node/src/files.ts`)

One write's part file and its target, as the calls for its chunks leave them. What a chunk does to
the part file runs without an await. Placing the file awaits between its steps, so a `Job` is one
copy of the last chunk between two awaits, and jobs of several copies go on side by side.
-/

open Utf Schema List

namespace Reins.FsWrite

abbrev Bytes := List UInt8

/-- `FsWrite`, but for the path it is to. -/
structure Request where
  writeId : JsString
  offset : Nat
  data : List Char
  last : Bool

inductive Answer
  | ok
  /-- `{ ok: false, error }`: the target's failure. -/
  | failed
  /-- `NodeRejection("invalid_request", message)`. -/
  | rejected (message : JsString)
  | threw
  deriving DecidableEq

def outOfOrder (written offset : Nat) : JsString :=
  js s!"Chunk out of order: {written} bytes written, chunk at {offset}"

/-! ## Jobs -/

/-- The read stream of the part file. -/
inductive Source
  | opening
  | reading (inode pos : Nat)
  | ended
  deriving DecidableEq

inductive Sink
  | opening
  | writing (pos : Nat)
  deriving DecidableEq

/-- `pipeline`, with what it has read and not yet written. -/
structure Pipe where
  source : Source
  sink : Sink
  buffer : Bytes

inductive Phase
  /-- It awaits `absolutePath`. -/
  | resolving
  /-- It awaits `mkdir`. -/
  | making
  | piping (p : Pipe)
  | over

/-- `content` is what Pi's `writeFile` writes, for a write in one chunk; `place` reads its part file
instead. -/
structure Job where
  writeId : JsString
  content : Option Bytes
  phase : Phase

/-- The pipe once the target's directory is there. `writeFile` has its bytes. -/
def Pipe.start : Option Bytes → Pipe
  | some bytes => ⟨.ended, .opening, bytes⟩
  | none => ⟨.opening, .opening, []⟩

/-! ## The node -/

structure Node where
  /-- What the files are, by inode: an open stream reads a file that was removed. -/
  inodes : Nat → Bytes
  nextInode : Nat
  kept : Option Nat
  target : Option Bytes
  finished : List JsString
  jobs : List Job

def Node.fresh (old : Option Bytes) : Node :=
  { inodes := fun _ => [], nextInode := 0, kept := none, target := old, finished := [], jobs := [] }

/-- How the file system answers the part file's calls: it may fail before them, or after some of
the chunk's bytes. -/
inductive Io
  | works
  | refuses
  | cuts (n : Nat)
  deriving DecidableEq

def FINISHED_WRITES : Nat := 1024

/-- `finishedWrites.add`, and the oldest forgotten. -/
def remember (ids : List JsString) (id : JsString) : List JsString :=
  let ids := if id ∈ ids then ids else ids ++ [id]
  if FINISHED_WRITES < ids.length then ids.drop 1 else ids

def Node.written (n : Node) : Nat := (n.kept.map fun i => (n.inodes i).length).getD 0

/-- `writeFileSync`, or `truncateSync` and `appendFileSync`. -/
def Node.keep (n : Node) (offset : Nat) (chunk : Bytes) : Node :=
  match n.kept with
  | some i => { n with inodes := Function.update n.inodes i ((n.inodes i).take offset ++ chunk) }
  | none =>
    { n with
      inodes := Function.update n.inodes n.nextInode chunk,
      nextInode := n.nextInode + 1,
      kept := some n.nextInode }

def Node.start (n : Node) (job : Job) : Node := { n with jobs := n.jobs ++ [job] }

def Node.setJob (n : Node) (k : Nat) (job : Job) : Node := { n with jobs := n.jobs.set k job }

/-- `write`, up to its answer or to its first await. -/
def Node.write (n : Node) (r : Request) (io : Io) : Node × Option Answer :=
  let chunk := Base64.decode r.data
  if r.offset = 0 ∧ r.last then (n.start ⟨r.writeId, some chunk, .resolving⟩, none)
  else if r.last ∧ r.writeId ∈ n.finished then (n, some .ok)
  else if n.written < r.offset then (n, some (.rejected (outOfOrder n.written r.offset)))
  else
    match io with
    | .refuses => (n, some .threw)
    | .cuts k => (n.keep r.offset (chunk.take k), some .threw)
    | .works =>
      if r.last then ((n.keep r.offset chunk).start ⟨r.writeId, none, .resolving⟩, none)
      else (n.keep r.offset chunk, some .ok)

/-- A job's answer, and what follows `place`: its part file removed, the write remembered. -/
def Node.finish (n : Node) (k : Nat) (job : Job) (ok : Bool) : Node × Option Answer :=
  let n := n.setJob k { job with phase := .over }
  let answer := if ok then .ok else .failed
  match job.content with
  | some _ => (n, some answer)
  | none =>
    ({ n with
        kept := none,
        finished := if ok then remember n.finished job.writeId else n.finished }, some answer)

inductive JobEvent
  | resolved
  | made
  /-- The read stream opens; where there is no part file `pipeline` fails, and `opened` says whether
  its write stream did open. -/
  | openSource (opened : Bool)
  /-- The write stream opens, and empties the target. -/
  | openSink
  /-- At most `n + 1` bytes. -/
  | read (n : Nat)
  | write (n : Nat)
  | settle
  | fail (opened : Bool)

def Node.fail (n : Node) (k : Nat) (job : Job) (opened : Bool) : Node × Option Answer :=
  match job.phase with
  | .piping ⟨_, .opening, _⟩ => ({ n with target := if opened then some [] else n.target }).finish k job false
  | _ => n.finish k job false

def Node.setPipe (n : Node) (k : Nat) (job : Job) (p : Pipe) : Node × Option Answer :=
  (n.setJob k { job with phase := .piping p }, none)

/-- Bytes are written at a position: the gap before it, if any, is zeros. -/
def writeAt (content : Bytes) (pos : Nat) (bytes : Bytes) : Bytes :=
  content.take pos ++ List.replicate (pos - content.length) 0 ++ bytes ++ content.drop (pos + bytes.length)

def Node.pipe (n : Node) (k : Nat) (job : Job) (p : Pipe) : JobEvent → Node × Option Answer
  | .openSource opened =>
    match p.source, n.kept with
    | .opening, some i => n.setPipe k job { p with source := .reading i 0 }
    | .opening, none => n.fail k job opened
    | _, _ => (n, none)
  | .openSink =>
    match p.sink with
    | .opening => { n with target := some [] }.setPipe k job { p with sink := .writing 0 }
    | .writing _ => (n, none)
  | .read m =>
    match p.source with
    | .reading i pos =>
      let bytes := ((n.inodes i).drop pos).take (m + 1)
      if bytes = [] then n.setPipe k job { p with source := .ended }
      else
        n.setPipe k job { p with source := .reading i (pos + bytes.length), buffer := p.buffer ++ bytes }
    | _ => (n, none)
  | .write m =>
    match p.sink with
    | .writing pos =>
      let bytes := p.buffer.take (m + 1)
      { n with target := some (writeAt (n.target.getD []) pos bytes) }.setPipe k job
        { p with sink := .writing (pos + bytes.length), buffer := p.buffer.drop (m + 1) }
    | .opening => (n, none)
  | .settle =>
    match p.source, p.sink, p.buffer with
    | .ended, .writing _, [] => n.finish k job true
    | _, _, _ => (n, none)
  | .fail opened => n.fail k job opened
  | .resolved | .made => (n, none)

/-- A job goes on, as far as its next await. -/
def Node.goOn (n : Node) (k : Nat) (e : JobEvent) : Node × Option Answer :=
  match n.jobs[k]? with
  | none => (n, none)
  | some job =>
    match job.phase, e with
    | .resolving, .resolved => (n.setJob k { job with phase := .making }, none)
    | .making, .made => n.setPipe k job (.start job.content)
    | .piping p, e => n.pipe k job p e
    | .resolving, .fail opened | .making, .fail opened => n.fail k job opened
    | _, _ => (n, none)

/-- The node starts again: what was kept is removed, and what was under way is gone. -/
def Node.restart (n : Node) : Node := { n with kept := none, finished := [], jobs := [] }

/-! ## What a job places -/

def Source.rest (file : Bytes) : Source → Bytes
  | .opening => file
  | .reading _ pos => file.drop pos
  | .ended => []

structure Pipe.Ok (file : Bytes) (n : Node) (p : Pipe) : Prop where
  reading : ∀ i pos, p.source = .reading i pos → n.inodes i = file
  flows : ∃ written, written ++ p.buffer ++ p.source.rest file = file ∧ (p.sink = .opening → written = []) ∧
    ∀ pos, p.sink = .writing pos → n.target = some written ∧ pos = written.length

structure Job.Ok (file : Bytes) (n : Node) (job : Job) : Prop where
  content : ∀ bytes, job.content = some bytes → bytes = file
  kept : job.content = none → ∃ i, n.kept = some i ∧ n.inodes i = file
  pipe : ∀ p, job.phase = .piping p → p.Ok file n ∧ (job.content.isSome → p.source = .ended)

def Placed (file : Bytes) (n n' : Node) : Prop :=
  n'.target = n.target ∨ ∃ bytes, n'.target = some bytes ∧ bytes <+: file

inductive Goes (file : Bytes) (n : Node) (k : Nat) (job : Job) : Node × Option Answer → Prop
  | on (job' : Job) (target : Option Bytes) (hid : job'.writeId = job.writeId)
      (hc : job'.content = job.content) (hover : job'.phase ≠ .over)
      (ok : job'.Ok file { n with target := target })
      (hplaced : Placed file n { n with target := target }) :
      Goes file n k job ({ n with target := target }.setJob k job', none)
  | done (hwhole : n.target = some file) : Goes file n k job (n.finish k job true)
  | failed (target : Option Bytes) (hplaced : Placed file n { n with target := target }) :
      Goes file n k job ({ n with target := target }.finish k job false)

section

variable {file : Bytes} {n n' : Node} {k : Nat} {job : Job} {p : Pipe}

theorem Placed.refl (n : Node) : Placed file n n := Or.inl rfl

theorem Pipe.Ok.congr (ok : p.Ok file n) (hi : n'.inodes = n.inodes) (ht : n'.target = n.target) : p.Ok file n' := by
  obtain ⟨written, hw, ho, hp⟩ := ok.flows
  exact ⟨fun i pos h => by rw [hi]; exact ok.reading i pos h, written, hw, ho, fun pos h => by rw [ht]; exact hp pos h⟩

theorem Job.Ok.congr (ok : job.Ok file n) (hk : n'.kept = n.kept) (hi : n'.inodes = n.inodes)
    (ht : n'.target = n.target) : job.Ok file n' := by
  refine ⟨ok.content, fun h => ?_, fun p h => ⟨(ok.pipe p h).1.congr hi ht, (ok.pipe p h).2⟩⟩
  rw [hk, hi]
  exact ok.kept h

theorem Job.Ok.setPipe (ok : job.Ok file n) (target : Option Bytes)
    (hp : p.Ok file { n with target := target }) (hm : job.content.isSome → p.source = .ended)
    (hplaced : Placed file n { n with target := target }) :
    Goes file n k job ({ n with target := target }.setPipe k job p) := by
  refine .on _ target rfl rfl (by simp) ⟨ok.content, ok.kept, fun q hq => ?_⟩ hplaced
  obtain rfl : p = q := by simpa using hq
  exact ⟨hp, hm⟩

theorem Node.fail_goes (opened : Bool) : Goes file n k job (n.fail k job opened) := by
  unfold Node.fail
  split
  · refine .failed _ ?_
    cases opened with
    | true => exact Or.inr ⟨[], rfl, nil_prefix⟩
    | false => exact .refl n
  · exact .failed n.target (.refl n)

theorem writeAt_length (content bytes : Bytes) : writeAt content content.length bytes = content ++ bytes := by
  simp [writeAt, drop_eq_nil_of_le]

theorem Pipe.start_ok (ok : job.Ok file n) : (Pipe.start job.content).Ok file n ∧
    (job.content.isSome → (Pipe.start job.content).source = .ended) := by
  cases hc : job.content with
  | some bytes =>
    refine ⟨⟨by simp [Pipe.start], [], ?_, fun _ => rfl, by simp [Pipe.start]⟩, fun _ => rfl⟩
    simp [Pipe.start, Source.rest, ok.content bytes hc]
  | none =>
    refine ⟨⟨by simp [Pipe.start], [], ?_, fun _ => rfl, by simp [Pipe.start]⟩, by simp⟩
    simp [Pipe.start, Source.rest]

/-- **A pipe's step.** -/
theorem Node.pipe_goes (ok : job.Ok file n) (hphase : job.phase = .piping p) (e : JobEvent) :
    n.pipe k job p e = (n, none) ∨ Goes file n k job (n.pipe k job p e) := by
  obtain ⟨hpipe, hmem⟩ := ok.pipe p hphase
  obtain ⟨written, hflow, hopening, hwriting⟩ := hpipe.flows
  cases e with
  | openSource opened =>
    simp only [Node.pipe]
    split
    next i hs hk =>
      have hcontent : job.content = none := by
        cases hc : job.content with
        | none => rfl
        | some _ => exact absurd (hmem (by simp [hc])) (by simp [hs])
      obtain ⟨i', hk', hfile⟩ := ok.kept hcontent
      cases hk.symm.trans hk'
      refine Or.inr (ok.setPipe n.target ⟨fun j pos h => ?_, written, ?_, hopening,
        hwriting⟩ (by simp [hcontent]) (.refl n))
      · obtain ⟨rfl, -⟩ : i = j ∧ 0 = pos := by simpa using h
        exact hfile
      · rw [hs] at hflow
        exact hflow
    · exact Or.inr (Node.fail_goes opened)
    · exact Or.inl rfl
  | openSink =>
    simp only [Node.pipe]
    split
    next hs =>
      obtain rfl := hopening hs
      refine Or.inr (ok.setPipe _ ⟨hpipe.reading, [], hflow, fun _ => rfl, fun pos h => ?_⟩ hmem
        (Or.inr ⟨[], rfl, nil_prefix⟩))
      obtain rfl : 0 = pos := by simpa using h
      exact ⟨rfl, rfl⟩
    · exact Or.inl rfl
  | read m =>
    simp only [Node.pipe]
    split
    next i pos hs =>
      have hfile := hpipe.reading i pos hs
      rw [hs, Source.rest] at hflow
      have hnot : ¬ job.content.isSome := fun h => absurd (hmem h) (by simp [hs])
      rw [hfile]
      split
      next hnil =>
        have hend : file.drop pos = [] := by
          cases hd : file.drop pos with
          | nil => rfl
          | cons b bs => exact absurd hnil (by simp [hd])
        refine Or.inr (ok.setPipe n.target ⟨by simp, written, ?_, hopening, hwriting⟩ (fun _ => rfl) (.refl n))
        rw [hend] at hflow
        exact hflow
      · refine Or.inr (ok.setPipe n.target ⟨fun j q h => ?_, written, ?_, hopening,
          hwriting⟩ (fun h => absurd h hnot) (.refl n))
        · obtain ⟨rfl, -⟩ : i = j ∧ _ := by simpa using h
          exact hfile
        have hdrop : (file.drop pos).take (m + 1)
            ++ file.drop (pos + ((file.drop pos).take (m + 1)).length) = file.drop pos := by
          rw [← drop_drop, List.length_take]
          conv_rhs => rw [← take_append_drop (m + 1) (file.drop pos)]
          congr 1
          rcases Nat.le_total (m + 1) (file.drop pos).length with h | h
          · rw [Nat.min_eq_left h]
          · rw [Nat.min_eq_right h, drop_eq_nil_of_le h, drop_length]
        simp only [Source.rest]
        rw [← append_assoc, append_assoc (written ++ p.buffer), hdrop]
        exact hflow
    · exact Or.inl rfl
  | write m =>
    simp only [Node.pipe]
    split
    next pos hs =>
      obtain ⟨htarget, rfl⟩ := hwriting pos hs
      rw [htarget, Option.getD_some, writeAt_length]
      have hnext : (written ++ p.buffer.take (m + 1)) ++ p.buffer.drop (m + 1) ++ p.source.rest file = file := by
        rw [append_assoc written, take_append_drop]
        exact hflow
      refine Or.inr (ok.setPipe _ ⟨hpipe.reading, written ++ p.buffer.take (m + 1), hnext,
        by simp, fun q h => ?_⟩ hmem (Or.inr ⟨_, rfl, ?_⟩))
      · obtain rfl : written.length + _ = q := by simpa using h
        exact ⟨rfl, by simp⟩
      · exact ⟨_, (append_assoc _ _ _).symm.trans hnext⟩
    · exact Or.inl rfl
  | settle =>
    simp only [Node.pipe]
    split
    next pos hsource hsink hbuffer =>
      obtain ⟨htarget, -⟩ := hwriting pos hsink
      rw [hsource, hbuffer] at hflow
      refine Or.inr (.done ?_)
      rw [htarget]
      simpa [Source.rest] using hflow
    · exact Or.inl rfl
  | fail opened => exact Or.inr (Node.fail_goes opened)
  | resolved | made => exact Or.inl rfl

/-- **A job's step.** -/
theorem Node.goOn_goes (hjob : n.jobs[k]? = some job) (ok : job.Ok file n) (e : JobEvent) :
    n.goOn k e = (n, none) ∨ Goes file n k job (n.goOn k e) := by
  unfold Node.goOn
  rw [hjob]
  simp only
  split
  · refine Or.inr (.on _ n.target rfl rfl (by simp) ⟨ok.content, ok.kept, by simp⟩ (.refl n))
  · obtain ⟨hp, hm⟩ := Pipe.start_ok ok
    exact Or.inr (ok.setPipe n.target hp hm (.refl n))
  next hphase =>
    exact Node.pipe_goes ok hphase _
  · exact Or.inr (Node.fail_goes _)
  · exact Or.inr (Node.fail_goes _)
  · exact Or.inl rfl

theorem Node.goOn_over (hjob : n.jobs[k]? = some job) (hover : job.phase = .over) (e : JobEvent) :
    n.goOn k e = (n, none) := by
  unfold Node.goOn
  rw [hjob]
  simp [hover]

end

end Reins.FsWrite
