import Reins.Lib.Run
import Reins.Node.FileWrites
import Reins.Lib.Places

/-!
# Writing a file in chunks (`backend/src/nodes/node-dir-client.ts`)

`writeFileFrom` sends a file's chunks one after the other, each again while its outcome is unknown.
Requests reach the node in the order they were sent or not at all, and the node starts their
handlers in that order. So a copy of an earlier chunk is handled before any of a later one, the part
file is always the start of the file, and the last chunk finds the rest of it there.
-/

open Utf Schema List

namespace Reins.FsWrite

/-! ## Cutting the source -/

def WRITE_CHUNK_BYTES : Nat := 512 * 1024

/-- The `while`: what stays pending, and the chunks sent. The length is fuel enough. -/
def cutLoop : Nat → Bytes → Bytes × List Bytes
  | 0, pending => (pending, [])
  | fuel + 1, pending =>
    if WRITE_CHUNK_BYTES < pending.length then
      let r := cutLoop fuel (pending.drop WRITE_CHUNK_BYTES)
      (r.1, pending.take WRITE_CHUNK_BYTES :: r.2)
    else (pending, [])

def cut (pending piece : Bytes) : Bytes × List Bytes := cutLoop (pending ++ piece).length (pending ++ piece)

structure Write where
  writeId : JsString
  chunks : List Bytes
  nonempty : chunks ≠ []

def writeFileFrom (writeId : JsString) (source : List Bytes) : Write :=
  let r := Scan.scan cut [] source
  { writeId, chunks := r.2 ++ [r.1], nonempty := by simp }

namespace Write

variable (w : Write)

def source : Bytes := w.chunks.flatten

def last : Nat := w.chunks.length - 1

def offset (j : Nat) : Nat := (w.chunks.take j).flatten.length

def chunk (j : Nat) : Bytes := w.chunks.getD j []

/-- What `send` sends. -/
def request (j : Nat) : Request :=
  { writeId := w.writeId, offset := w.offset j, data := Base64.encode (w.chunk j),
    last := j = w.last }

end Write

/-! ## Both ends -/

inductive Deed
  /-- A copy of the last chunk was handled, and is being placed. -/
  | placing
  | answered (chunk : Nat) (answer : Answer)
  deriving DecidableEq

/-- `log` is what the node did. `handled` is one past the last chunk it handled, `since` the other
writes it finished since it remembered this one. -/
structure System where
  node : Node
  current : Nat
  queue : List Nat
  log : List Deed
  handled : Nat
  /-- The part file's calls failed, or the node started again. -/
  faulted : Bool
  restarted : Bool
  since : Nat

def System.fresh (old : Option Bytes) : System :=
  { node := .fresh old, current := 0, queue := [], log := [], handled := 0, faulted := false,
    restarted := false, since := 0 }

inductive Event
  /-- The client sends its chunk, for the first time or again. -/
  | send
  | lose (n : Nat)
  | deliver (io : Io)
  | job (k : Nat) (e : JobEvent)
  | advance
  | other (id : JsString)
  | restart

/-- What a request's handling shows. -/
def deed (j : Nat) : Option Answer → Deed
  | none => .placing
  | some a => .answered j a

def answers (j : Nat) (a : Option Answer) : List Deed := (a.map (Deed.answered j)).toList

def step (w : Write) (s : System) : Event → System
  | .send => if s.current < w.chunks.length then { s with queue := s.queue ++ [s.current] } else s
  | .lose n => { s with queue := s.queue.eraseIdx n }
  | .deliver io =>
    match s.queue with
    | [] => s
    | j :: rest =>
      let r := s.node.write (w.request j) io
      { s with
        node := r.1,
        queue := rest,
        log := s.log ++ [deed j r.2],
        handled := max s.handled (j + 1),
        faulted := s.faulted || io ≠ .works }
  | .job k e =>
    let r := s.node.goOn k e
    { s with
      node := r.1,
      log := s.log ++ answers w.last r.2,
      since := if r.2 = some .ok then 0 else s.since }
  | .advance => if .answered s.current .ok ∈ s.log then { s with current := s.current + 1 } else s
  | .other id =>
    if id = w.writeId then s
    else
      { s with
        node := { s.node with finished := remember s.node.finished id }, since := s.since + 1 }
  | .restart => { s with node := s.node.restart, queue := [], faulted := true, restarted := true }

def run (w : Write) (old : Option Bytes) (es : List Event) : System := Run.exec (step w) (.fresh old) es

def Phase.isOver : Phase → Bool
  | .over => true
  | _ => false

/-- No copy of the last chunk is handled while another is being placed. -/
def Apart (w : Write) (s : System) : Event → Prop
  | .deliver _ => s.queue.head? = some w.last → ∀ job ∈ s.node.jobs, job.phase.isOver = true
  | _ => True

instance (w : Write) (s : System) (e : Event) : Decidable (Apart w s e) := by
  cases e <;> unfold Apart <;> infer_instance

/-! ## Chunks -/

section

variable {fuel j : Nat} {pending piece : Bytes} {w : Write}

theorem cutLoop_spec (h : pending.length ≤ fuel) :
    (cutLoop fuel pending).2.flatten ++ (cutLoop fuel pending).1 = pending ∧
      (cutLoop fuel pending).1.length ≤ WRITE_CHUNK_BYTES ∧
      ∀ c ∈ (cutLoop fuel pending).2, c.length = WRITE_CHUNK_BYTES := by
  induction fuel generalizing pending with
  | zero =>
    obtain rfl := length_eq_zero_iff.mp (Nat.le_zero.mp h)
    simp [cutLoop]
  | succ fuel ih =>
    unfold cutLoop
    split
    next hlt =>
      have hlen : (pending.drop WRITE_CHUNK_BYTES).length ≤ fuel := by
        have : 0 < WRITE_CHUNK_BYTES := by decide
        rw [length_drop]
        omega
      obtain ⟨h1, h2, h3⟩ := ih hlen
      refine ⟨?_, h2, fun c hc => ?_⟩
      · rw [flatten_cons, append_assoc, h1, take_append_drop]
      rcases mem_cons.mp hc with rfl | hc
      · rw [List.length_take]
        omega
      · exact h3 c hc
    next hle =>
      exact ⟨rfl, Nat.le_of_not_lt hle, by simp⟩

/-- **What `writeFileFrom` sends is its source, in chunks.** All but the last are full. -/
theorem writeFileFrom_source (writeId : JsString) (source : List Bytes) :
    (writeFileFrom writeId source).source = source.flatten ∧
      (∀ c ∈ (writeFileFrom writeId source).chunks, c.length ≤ WRITE_CHUNK_BYTES) ∧
      ∀ c ∈ (writeFileFrom writeId source).chunks.dropLast, c.length = WRITE_CHUNK_BYTES := by
  have hscan : ∀ pending : Bytes, pending.length ≤ WRITE_CHUNK_BYTES →
      (Scan.scan cut pending source).2.flatten ++ (Scan.scan cut pending source).1 = pending ++ source.flatten ∧
        (Scan.scan cut pending source).1.length ≤ WRITE_CHUNK_BYTES ∧
        ∀ c ∈ (Scan.scan cut pending source).2, c.length = WRITE_CHUNK_BYTES := by
    induction source with
    | nil => exact fun pending h => ⟨by simp, h, by simp⟩
    | cons piece source ih =>
      intro pending _
      obtain ⟨h1, h2, h3⟩ := cutLoop_spec (Nat.le_refl (pending ++ piece).length)
      obtain ⟨i1, i2, i3⟩ := ih (cut pending piece).1 h2
      rw [Scan.scan_cons]
      refine ⟨?_, i2, fun c hc => (mem_append.mp hc).elim (h3 c) (i3 c)⟩
      rw [flatten_append, append_assoc, i1, ← append_assoc, cut, h1,
        flatten_cons, append_assoc]
  obtain ⟨h1, h2, h3⟩ := hscan [] (Nat.zero_le _)
  refine ⟨?_, fun c hc => ?_, fun c hc => ?_⟩
  · simpa [writeFileFrom, Write.source] using h1
  · rcases Places.mem_concat_cases hc with hc | rfl
    · exact (h3 c hc).le
    · exact h2
  · rw [writeFileFrom, dropLast_concat] at hc
    exact h3 c hc

theorem Write.last_lt (w : Write) : w.last < w.chunks.length := by
  have := length_pos_iff.mpr w.nonempty
  unfold Write.last
  omega

@[simp] theorem Write.offset_zero (w : Write) : w.offset 0 = 0 := by simp [Write.offset]

theorem Write.take_succ (h : j < w.chunks.length) :
    (w.chunks.take (j + 1)).flatten = (w.chunks.take j).flatten ++ w.chunk j := by
  rw [take_add_one, flatten_append, Write.chunk, getD_eq_getElem?_getD, getElem?_eq_getElem h]
  simp

theorem Write.offset_le_succ (w : Write) (j : Nat) : w.offset j ≤ w.offset (j + 1) := by
  rw [Write.offset, Write.offset, take_add_one, flatten_append, length_append]
  exact Nat.le_add_right _ _

theorem Write.prefix_source (w : Write) (j : Nat) : (w.chunks.take j).flatten <+: w.source := by
  conv_rhs => rw [Write.source, ← take_append_drop j w.chunks, flatten_append]
  exact prefix_append _ _

theorem Write.source_eq (w : Write) : w.source = (w.chunks.take w.last).flatten ++ w.chunk w.last := by
  rw [← Write.take_succ w.last_lt, Write.source, take_of_length_le]
  unfold Write.last
  omega

end

/-! ## The part file -/

section

variable {w : Write} {n : Node} {j : Nat} {bytes : Bytes}

/-- The part file is the start of the file. -/
def KeptOk (w : Write) (n : Node) : Prop := ∀ i, n.kept = some i → n.inodes i <+: w.source

/-- **A chunk is kept** from where it is of the file. -/
theorem keep_content (hk : KeptOk w n) (hle : w.offset j ≤ n.written) (bytes : Bytes) :
    ∃ i, (n.keep (w.offset j) bytes).kept = some i ∧
      (n.keep (w.offset j) bytes).inodes i = (w.chunks.take j).flatten ++ bytes := by
  unfold Node.keep
  split
  next i hi =>
    refine ⟨i, hi, ?_⟩
    have hlen : w.offset j ≤ (n.inodes i).length := by simpa [Node.written, hi] using hle
    have htake : (n.inodes i).take (w.offset j) = (w.chunks.take j).flatten := by
      rw [prefix_iff_eq_take.mp (hk i hi), take_take, Nat.min_eq_left hlen]
      exact (prefix_iff_eq_take.mp (w.prefix_source j)).symm
    exact (Function.update_self ..).trans (by rw [htake])
  next hi =>
    have h0 : w.offset j = 0 := by
      have : n.written = 0 := by simp [Node.written, hi]
      omega
    refine ⟨_, rfl, ?_⟩
    exact (Function.update_self ..).trans (by rw [length_eq_zero_iff.mp h0, nil_append])

theorem KeptOk.keep (hk : KeptOk w n) (hj : j < w.chunks.length) (hle : w.offset j ≤ n.written)
    (hb : bytes <+: w.chunk j) : KeptOk w (n.keep (w.offset j) bytes) := by
  obtain ⟨i, hi, hfile⟩ := keep_content hk hle bytes
  intro i' hi'
  cases hi.symm.trans hi'
  rw [hfile]
  refine List.IsPrefix.trans ?_ (w.prefix_source (j + 1))
  rw [Write.take_succ hj]
  exact (prefix_append_right_inj _).mpr hb

@[simp] theorem keep_target (n : Node) (offset : Nat) (bytes : Bytes) : (n.keep offset bytes).target = n.target := by
  unfold Node.keep
  split <;> rfl

@[simp] theorem keep_finished (n : Node) (offset : Nat) (bytes : Bytes) :
    (n.keep offset bytes).finished = n.finished := by
  unfold Node.keep
  split <;> rfl

@[simp] theorem keep_jobs (n : Node) (offset : Nat) (bytes : Bytes) : (n.keep offset bytes).jobs = n.jobs := by
  unfold Node.keep
  split <;> rfl

theorem mem_remember {ids : List JsString} {a b : JsString} (h : a ∈ remember ids b) : a ∈ ids ∨ a = b := by
  have hadd : a ∈ (if b ∈ ids then ids else ids ++ [b]) := by
    unfold remember at h
    dsimp only at h
    generalize (if b ∈ ids then ids else ids ++ [b]) = added at h
    split at h
    · exact mem_of_mem_drop h
    · exact h
  split at hadd
  · exact Or.inl hadd
  · simpa using hadd

/-- Remembered, with at most `since` others after it. -/
def Remembered (ids : List JsString) (id : JsString) (since : Nat) : Prop :=
  ∃ before after, ids = before ++ id :: after ∧ after.length ≤ since

section

variable {ids : List JsString} {id added : JsString} {since : Nat}

theorem Remembered.mem (h : Remembered ids id since) : id ∈ ids := by
  obtain ⟨before, after, rfl, -⟩ := h
  simp

/-- The oldest is forgotten: not this one, if few enough come after it. -/
theorem Remembered.drop (h : Remembered ids id since) (hfull : FINISHED_WRITES < ids.length)
    (hlt : since < FINISHED_WRITES) : Remembered (ids.drop 1) id since := by
  obtain ⟨before, after, rfl, hle⟩ := h
  cases before with
  | nil =>
    simp only [nil_append, length_cons] at hfull
    omega
  | cons first before => exact ⟨before, after, rfl, hle⟩

theorem remember_self (h : id ∉ ids) : Remembered (remember ids id) id 0 := by
  have hnew : Remembered (ids ++ [id]) id 0 := ⟨ids, [], rfl, Nat.le_refl _⟩
  simp only [remember, if_neg h]
  split
  next hfull =>
    exact hnew.drop hfull (by decide)
  · exact hnew

/-- **A finished write is remembered** until as many others finished. -/
theorem Remembered.other (h : Remembered ids id since) (hlt : since + 1 < FINISHED_WRITES) :
    Remembered (remember ids added) id (since + 1) := by
  have hadd : Remembered (if added ∈ ids then ids else ids ++ [added]) id (since + 1) := by
    obtain ⟨before, after, rfl, hle⟩ := h
    split
    · exact ⟨before, after, rfl, Nat.le_succ_of_le hle⟩
    · exact ⟨before, after ++ [added], by simp, by simpa using hle⟩
  unfold remember
  dsimp only
  generalize (if added ∈ ids then ids else ids ++ [added]) = now at hadd ⊢
  split
  next hfull =>
    exact hadd.drop hfull hlt
  · exact hadd

end

end

/-! ## The invariant -/

/-- The requests under way are copies of the chunk the client is on and of the one before it, in
order, and none is of a chunk before the last one handled. -/
structure QueueOk (w : Write) (s : System) : Prop where
  sorted : s.queue.Pairwise (· ≤ ·)
  range : ∀ j ∈ s.queue, s.handled ≤ j + 1 ∧ j ≤ s.current ∧ j ≤ w.last
  current : s.current ≤ s.handled
  handled : s.handled ≤ s.current + 1
  answered : ∀ j, .answered j .ok ∈ s.log → j < s.handled

/-- A copy of the last chunk was answered as written, and none was placed since. -/
def Settled (w : Write) (log : List Deed) : Prop :=
  ∃ before after, log = before ++ .answered w.last .ok :: after ∧ .placing ∉ after

/-- The write's part file is one of several chunks. -/
def Write.long (w : Write) : Prop := 0 < w.offset w.last

def Intact (w : Write) (old target : Option Bytes) : Prop :=
  target = old ∨ ∃ bytes, target = some bytes ∧ bytes <+: w.source

inductive Era (w : Write) (old : Option Bytes) (s : System) : Prop
  /-- Its last chunk was not placed yet. Without a fault the part file has every chunk handled. -/
  | waiting (hjobs : s.node.jobs = []) (hplacing : .placing ∉ s.log)
      (hok : .answered w.last .ok ∉ s.log) (htarget : s.node.target = old)
      (hfinished : w.writeId ∉ s.node.finished)
      (hkept : s.faulted = false → s.handled ≤ w.last ∧ (0 < s.handled → s.node.written = w.offset s.handled))
  | placing (done : List Job) (job : Job) (hjobs : s.node.jobs = done ++ [job])
      (hdone : ∀ d ∈ done, d.phase = .over) (hrun : job.phase ≠ .over)
      (hid : job.writeId = w.writeId) (hcontent : job.content = none ↔ w.long)
      (hok : job.Ok w.source s.node) (hhandled : s.handled = w.last + 1)
      (hanswered : w.long → .answered w.last .ok ∉ s.log ∧ w.writeId ∉ s.node.finished)
      (hlog : ∃ before, s.log = before ++ [.placing]) (htarget : Intact w old s.node.target)
  | placed (hdone : ∀ d ∈ s.node.jobs, d.phase = .over) (hplacing : .placing ∈ s.log)
      (hhandled : s.handled = w.last + 1) (hkept : w.long → s.node.kept = none)
      (hsettled : Settled w s.log → s.node.target = some w.source)
      (hok : w.long → .answered w.last .ok ∈ s.log → s.node.target = some w.source)
      (hfinished : w.long → w.writeId ∈ s.node.finished → .answered w.last .ok ∈ s.log)
      (htarget : Intact w old s.node.target)

structure SystemOk (w : Write) (old : Option Bytes) (s : System) : Prop where
  queue : QueueOk w s
  kept : KeptOk w s.node
  era : Era w old s
  restarted : s.restarted = true → s.faulted = true
  remembered : w.long → .answered w.last .ok ∈ s.log → s.restarted = false →
    s.since < FINISHED_WRITES → Remembered s.node.finished w.writeId s.since

section

variable {w : Write} {old : Option Bytes} {s : System} {j k : Nat} {rest : List Nat}

theorem SystemOk.fresh (w : Write) (old : Option Bytes) : SystemOk w old (.fresh old) := by
  refine ⟨⟨.nil, by simp [System.fresh], Nat.le_refl _, Nat.zero_le _, by simp [System.fresh]⟩,
    by simp [KeptOk, System.fresh, Node.fresh], .waiting rfl ?_ ?_ rfl ?_ fun _ => ?_,
    by simp [System.fresh], by simp [System.fresh]⟩
  · simp [System.fresh]
  · simp [System.fresh]
  · simp [System.fresh, Node.fresh]
  · exact ⟨Nat.zero_le _, fun h => absurd h (Nat.lt_irrefl 0)⟩

theorem not_settled_placing (w : Write) (log : List Deed) : ¬ Settled w (log ++ [.placing]) := by
  rintro ⟨before, after, h, hno⟩
  rcases eq_nil_or_concat after with rfl | ⟨more, d, rfl⟩
  · obtain ⟨-, hd⟩ := append_inj' h rfl
    cases hd
  have hlast : log ++ [.placing] = (before ++ .answered w.last .ok :: more) ++ [d] := by simpa using h
  obtain ⟨-, hd⟩ := append_inj' hlast rfl
  obtain rfl : .placing = d := by simpa using hd
  exact hno (by simp)

theorem Settled.of_append {log : List Deed} {d : Deed} (h : Settled w (log ++ [d]))
    (hd : d ≠ .answered w.last .ok) : Settled w log := by
  obtain ⟨before, after, h, hno⟩ := h
  rcases eq_nil_or_concat after with rfl | ⟨more, e, rfl⟩
  · obtain ⟨-, he⟩ := append_inj' h rfl
    exact absurd (by simpa using he) hd
  · have hlast : log ++ [d] = (before ++ .answered w.last .ok :: more) ++ [e] := by simpa using h
    exact ⟨before, more, (append_inj' hlast rfl).1, fun hm => hno (by simp [hm])⟩

/-! ### A chunk is handled -/

/-- What a chunk leaves alone, until its job starts. -/
structure Around (n n' : Node) : Prop where
  jobs : n'.jobs = n.jobs
  target : n'.target = n.target
  finished : n'.finished = n.finished

inductive Wrote (w : Write) (n : Node) (j : Nat) (io : Io) : Node × Option Answer → Prop
  | whole (hj : j = w.last) (hshort : ¬ w.long) : Wrote w n j io (n.start ⟨w.writeId, some w.source, .resolving⟩, none)
  | again (hj : j = w.last) (hlong : w.long) (hf : w.writeId ∈ n.finished) : Wrote w n j io (n, some .ok)
  | refused (hlt : n.written < w.offset j) (a : Answer) (ha : a ≠ .ok) : Wrote w n j io (n, some a)
  | threw (hio : io ≠ .works) (hle : w.offset j ≤ n.written) (hlong : j = w.last → w.long)
      (n' : Node) (hn : Around n n') (hk : KeptOk w n') : Wrote w n j io (n', some .threw)
  | took (hio : io = .works) (hj : j ≠ w.last) (n' : Node) (hn : Around n n') (hk : KeptOk w n')
      (hwritten : n'.written = w.offset (j + 1)) : Wrote w n j io (n', some .ok)
  | placing (hj : j = w.last) (hlong : w.long) (hle : w.offset j ≤ n.written)
      (hf : w.writeId ∉ n.finished) (n' : Node) (i : Nat) (hn : Around n n') (hi : n'.kept = some i)
      (hfile : n'.inodes i = w.source) :
      Wrote w n j io (n'.start ⟨w.writeId, none, .resolving⟩, none)

theorem around_keep (n : Node) (offset : Nat) (bytes : Bytes) : Around n (n.keep offset bytes) :=
  ⟨keep_jobs n offset bytes, keep_target n offset bytes, keep_finished n offset bytes⟩

/-- **`write`.** -/
theorem write_wrote {n : Node} (hk : KeptOk w n) (hj : j ≤ w.last) (io : Io) :
    Wrote w n j io (n.write (w.request j) io) := by
  have hlt : j < w.chunks.length := Nat.lt_of_le_of_lt hj w.last_lt
  simp only [Node.write, Write.request, Base64.decode_encode, decide_eq_true_eq]
  split
  next h =>
    obtain ⟨h0, rfl⟩ := h
    have hsource : w.chunk w.last = w.source := by
      rw [w.source_eq, length_eq_zero_iff.mp h0, nil_append]
    rw [hsource]
    exact .whole rfl (by simp [Write.long, h0])
  rename_i hwhole
  have hlong : j = w.last → w.long := fun hl => Nat.pos_of_ne_zero fun h0 => hwhole ⟨hl ▸ h0, hl⟩
  split
  next h =>
    exact .again h.1 (hlong h.1) h.2
  rename_i hnot
  split
  next hgap =>
    exact .refused hgap _ (by simp)
  rename_i hle
  have hle : w.offset j ≤ n.written := Nat.le_of_not_lt hle
  split
  · exact .threw (by simp) hle hlong n ⟨rfl, rfl, rfl⟩ hk
  · exact .threw (by simp) hle hlong _ (around_keep ..) (hk.keep hlt hle (List.take_prefix _ _))
  · obtain ⟨i, hi, hfile⟩ := keep_content hk hle (w.chunk j)
    split
    next hl =>
      refine .placing hl (hlong hl) hle (fun h => hnot ⟨hl, h⟩) _ i (around_keep ..) hi ?_
      rw [hfile, hl, ← w.source_eq]
    next hl =>
      refine .took rfl hl _ (around_keep ..) (hk.keep hlt hle (prefix_refl _)) ?_
      rw [Node.written, hi, Option.map_some, Option.getD_some, hfile, ← Write.take_succ hlt]
      rfl

theorem Write.offset_mono (w : Write) : Monotone w.offset := monotone_nat_of_le_succ w.offset_le_succ

theorem QueueOk.next (q : QueueOk w s) (hq : s.queue = j :: rest) (node : Node) (faulted : Bool)
    {d : Deed} (hd : ∀ i, d = .answered i .ok → i = j) :
    QueueOk w { s with
      node := node, queue := rest, log := s.log ++ [d], handled := max s.handled (j + 1),
      faulted := faulted } := by
  obtain ⟨hlo, hcur, hlast⟩ := q.range j (by simp [hq])
  have hsorted := q.sorted
  rw [hq, pairwise_cons] at hsorted
  have hmax : max s.handled (j + 1) = j + 1 := Nat.max_eq_right hlo
  refine ⟨hsorted.2, fun i hi => ?_, ?_, ?_, fun i hi => ?_⟩
  · have := q.range i (by simp [hq, hi])
    have := hsorted.1 i hi
    exact ⟨by simp only [hmax]; omega, by tauto⟩
  · exact q.current.trans (Nat.le_max_left _ _)
  · simp only [hmax]
    omega
  · simp only [hmax]
    rcases mem_append.mp hi with hi | hi
    · exact Nat.lt_of_lt_of_le (q.answered i hi) hlo
    · have := hd i (mem_singleton.mp hi).symm
      omega

/-- Without a fault what was kept reaches every request under way. -/
theorem QueueOk.reaches (q : QueueOk w s) (hq : s.queue = j :: rest)
    (hkept : 0 < s.handled → s.node.written = w.offset s.handled) :
    w.offset j ≤ s.node.written := by
  have hj : j ≤ s.handled := (q.range j (by simp [hq])).2.1.trans q.current
  rcases Nat.eq_zero_or_pos s.handled with h0 | hpos
  · obtain rfl : j = 0 := by omega
    simp
  · rw [hkept hpos]
    exact w.offset_mono hj

theorem Phase.isOver_iff (p : Phase) : p.isOver = true ↔ p = .over := by
  cases p <;> simp [Phase.isOver]

theorem start_ok {n : Node} {job : Job} (hphase : job.phase = .resolving)
    (hcontent : ∀ bytes, job.content = some bytes → bytes = w.source)
    (hkept : job.content = none → ∃ i, n.kept = some i ∧ n.inodes i = w.source) :
    job.Ok w.source (n.start job) :=
  ⟨hcontent, hkept, fun p h => absurd h (by simp [hphase])⟩

def System.handling (s : System) (j : Nat) (rest : List Nat) (io : Io) (r : Node × Option Answer) :
    System :=
  { s with
    node := r.1, queue := rest, log := s.log ++ [deed j r.2], handled := max s.handled (j + 1),
    faulted := s.faulted || io ≠ .works }

/-- **Before it was placed**, a chunk is kept, or refused, or the last one's placing starts. -/
theorem Era.handle_waiting (q : QueueOk w s) (hq : s.queue = j :: rest) {io : Io}
    {r : Node × Option Answer} (hw : Wrote w s.node j io r) (hjobs : s.node.jobs = [])
    (hplacing : .placing ∉ s.log) (hok : .answered w.last .ok ∉ s.log) (htarget : s.node.target = old)
    (hfinished : w.writeId ∉ s.node.finished)
    (hkept : s.faulted = false → s.handled ≤ w.last ∧ (0 < s.handled → s.node.written = w.offset s.handled)) :
    Era w old (s.handling j rest io r) := by
  obtain ⟨hlo, -, hlast⟩ := q.range j (by simp [hq])
  have hmax : max s.handled (j + 1) = j + 1 := Nat.max_eq_right hlo
  cases hw with
  | whole hj hshort =>
    refine .placing [] ⟨w.writeId, some w.source, .resolving⟩ ?_ (by simp) (by simp) rfl
      ⟨fun h => absurd h (by simp), fun h => absurd h hshort⟩ ?_ ?_ (fun h => absurd h hshort)
      ⟨s.log, rfl⟩ (Or.inl htarget)
    · simp [System.handling, Node.start, hjobs]
    · exact start_ok rfl (by simp) (by simp)
    · exact hmax.trans (by rw [hj])
  | again hj hlong hf => exact absurd hf hfinished
  | refused hlt a ha =>
    refine .waiting hjobs ?_ ?_ htarget hfinished fun hno => ?_
    · simpa [System.handling, deed] using hplacing
    · have : Deed.answered w.last .ok ≠ .answered j a := fun h => ha (by simp at h; exact h.2.symm)
      simpa [System.handling, deed, this] using hok
    · have hno : s.faulted = false := (Bool.or_eq_false_iff.mp hno).1
      exact absurd (q.reaches hq (hkept hno).2) (Nat.not_le_of_lt hlt)
  | threw hio hle hlong n' hn hk =>
    refine .waiting (hn.jobs.trans hjobs) ?_ ?_ (hn.target.trans htarget) ?_ fun hno => ?_
    · simpa [System.handling, deed] using hplacing
    · simpa [System.handling, deed] using hok
    · simpa [System.handling, hn.finished] using hfinished
    · exact absurd hno (by simp [System.handling, hio])
  | took hio hj n' hn hk hwritten =>
    refine .waiting (hn.jobs.trans hjobs) ?_ ?_ (hn.target.trans htarget) ?_ fun _ => ?_
    · simpa [System.handling, deed] using hplacing
    · simpa [System.handling, deed, Ne.symm hj] using hok
    · simpa [System.handling, hn.finished] using hfinished
    · simp only [System.handling, hmax]
      exact ⟨by omega, fun _ => hwritten⟩
  | placing hj hlong hle hf n' i hn hi hfile =>
    refine .placing [] ⟨w.writeId, none, .resolving⟩ ?_ (by simp) (by simp) rfl
      ⟨fun _ => hlong, fun _ => rfl⟩ ?_ ?_ (fun _ => ⟨?_, ?_⟩) ⟨s.log, rfl⟩ (Or.inl ?_)
    · simp [System.handling, Node.start, hn.jobs, hjobs]
    · exact start_ok rfl (by simp) fun _ => ⟨i, hi, hfile⟩
    · exact hmax.trans (by rw [hj])
    · simpa [System.handling, deed] using hok
    · simpa [System.handling, Node.start, hn.finished] using hf
    · simpa [System.handling, Node.start, hn.target] using htarget

/-- **Once it was placed**, the last chunk is answered as written, or refused, or written again. -/
theorem Era.handle_placed (hj : j = w.last) {io : Io} {r : Node × Option Answer}
    (hw : Wrote w s.node j io r) (hdone : ∀ d ∈ s.node.jobs, d.phase = .over)
    (hplacing : .placing ∈ s.log) (hhandled : s.handled = w.last + 1)
    (hkept : w.long → s.node.kept = none)
    (hsettled : Settled w s.log → s.node.target = some w.source)
    (hok : w.long → .answered w.last .ok ∈ s.log → s.node.target = some w.source)
    (hfinished : w.long → w.writeId ∈ s.node.finished → .answered w.last .ok ∈ s.log)
    (htarget : Intact w old s.node.target) : Era w old (s.handling j rest io r) := by
  have hmax : max s.handled (j + 1) = w.last + 1 := by rw [hhandled, hj, Nat.max_self]
  have hgap : w.long → ¬ w.offset j ≤ s.node.written := fun hl hle => by
    rw [hj, Node.written, hkept hl] at hle
    exact absurd hle (Nat.not_le_of_lt hl)
  have hmem : .placing ∈ (s.handling j rest io r).log := by simp [System.handling, hplacing]
  cases hw with
  | whole _ hshort =>
    refine .placing s.node.jobs ⟨w.writeId, some w.source, .resolving⟩ rfl hdone (by simp) rfl
      ⟨fun h => absurd h (by simp), fun h => absurd h hshort⟩ ?_ hmax (fun h => absurd h hshort)
      ⟨s.log, rfl⟩ htarget
    exact start_ok rfl (by simp) (by simp)
  | again _ hlong hf =>
    have hwhole := hok hlong (hfinished hlong hf)
    exact .placed hdone hmem hmax hkept (fun _ => hwhole) (fun _ _ => hwhole)
      (fun _ _ => by simp [System.handling, deed, hj]) htarget
  | refused hlt a ha =>
    have hne : Deed.answered j a ≠ .answered w.last .ok := fun h => ha (by simp at h; exact h.2)
    have hold : ∀ d, d ∈ (s.handling j rest io (s.node, some a)).log →
        d = .answered w.last .ok → d ∈ s.log := fun d hd he => by
      rcases mem_append.mp hd with hd | hd
      · exact hd
      · exact absurd ((mem_singleton.mp hd).symm.trans he) hne
    exact .placed hdone hmem hmax hkept (fun h => hsettled (h.of_append hne))
      (fun hl h => hok hl (hold _ h rfl)) (fun hl h => mem_append_left _ (hfinished hl h))
      htarget
  | threw _ hle hlong _ _ _ => exact absurd hle (hgap (hlong hj))
  | took _ hne _ _ _ _ => exact absurd hj hne
  | placing _ hlong hle _ _ _ _ _ _ => exact absurd hle (hgap hlong)

/-- **A request is handled.** -/
theorem SystemOk.deliver (ok : SystemOk w old s) {io : Io} (hapart : Apart w s (.deliver io))
    (hq : s.queue = j :: rest) :
    SystemOk w old (s.handling j rest io (s.node.write (w.request j) io)) := by
  have hw := write_wrote ok.kept (ok.queue.range j (by simp [hq])).2.2 io
  generalize s.node.write (w.request j) io = r at hw ⊢
  have hanswer : ∀ i, deed j r.2 = .answered i .ok → i = j := by
    intro i hi
    cases h : r.2 <;> simp [deed, h] at hi
    exact hi.1.symm
  have hera : Era w old (s.handling j rest io r) := by
    rcases ok.era with ⟨hjobs, hplacing, hok, htarget, hfinished, hkept⟩ |
      ⟨done, job, hjobs, -, hrun, -, -, -, hhandled, -, -, -⟩ |
      ⟨hdone, hplacing, hhandled, hkept, hsettled, hok, hfinished, htarget⟩
    · exact .handle_waiting ok.queue hq hw hjobs hplacing hok htarget hfinished hkept
    · -- A copy of the last chunk would be handled while another is placed.
      have hj : j = w.last := by
        have := ok.queue.range j (by simp [hq])
        omega
      have hover := hapart (by rw [hq, hj]; rfl) job (by simp [hjobs])
      exact absurd ((Phase.isOver_iff _).mp hover) hrun
    · have hj : j = w.last := by
        have := ok.queue.range j (by simp [hq])
        omega
      exact .handle_placed hj hw hdone hplacing hhandled hkept hsettled hok hfinished htarget
  have hkept : KeptOk w r.1 := by
    cases hw with
    | whole | again | refused => exact ok.kept
    | threw _ _ _ _ _ hk => exact hk
    | took _ _ _ _ hk _ => exact hk
    | placing _ _ _ _ n' i _ hi hfile =>
      intro i' hi'
      cases hi.symm.trans hi'
      exact hfile ▸ prefix_refl _
  refine ⟨ok.queue.next hq r.1 _ hanswer, hkept, hera, fun h => ?_, fun hlong hmem hr hs => ?_⟩
  · simp [System.handling, ok.restarted h]
  have hold : .answered w.last .ok ∈ s.log ∧ r.1.finished = s.node.finished := by
    have hmem : .answered w.last .ok ∈ s.log ∨ deed j r.2 = .answered w.last .ok := by
      simpa [System.handling, eq_comm] using hmem
    cases hw with
    | whole => exact ⟨by simpa [deed] using hmem, rfl⟩
    | again _ _ hf =>
      rcases ok.era with ⟨-, -, -, -, hno, -⟩ | ⟨-, -, -, -, -, -, -, -, -, hno, -, -⟩ |
        ⟨-, -, -, -, -, -, hfinished, -⟩
      · exact absurd hf hno
      · exact absurd hf (hno hlong).2
      · exact ⟨hfinished hlong hf, rfl⟩
    | refused _ a ha => exact ⟨hmem.resolve_right fun h => ha (by simp [deed] at h; exact h.2), rfl⟩
    | threw _ _ _ n' hn _ => exact ⟨by simpa [deed] using hmem, hn.finished⟩
    | took _ hj n' hn _ _ => exact ⟨by simpa [deed, hj] using hmem, hn.finished⟩
    | placing _ _ _ _ n' i hn _ _ => exact ⟨by simpa [deed] using hmem, hn.finished⟩
  simp only [System.handling]
  rw [hold.2]
  exact ok.remembered hlong hold.1 hr hs

/-! ### The rest of a step -/

theorem QueueOk.answer (q : QueueOk w s) (hhandled : s.handled = w.last + 1) (node : Node)
    (a : Option Answer) (since : Nat) :
    QueueOk w { s with node := node, log := s.log ++ answers w.last a, since := since } := by
  refine { q with answered := fun i hi => ?_ }
  rcases mem_append.mp hi with hi | hi
  · exact q.answered i hi
  cases a with
  | none => exact absurd hi (by simp [answers])
  | some a =>
    obtain ⟨rfl, -⟩ : i = w.last ∧ .ok = a := by simpa [answers] using hi
    simp [hhandled]

structure Finish (n : Node) (k : Nat) (job : Job) (ok : Bool) (r : Node × Option Answer) : Prop where
  answer : r.2 = some (if ok then .ok else .failed)
  jobs : r.1.jobs = n.jobs.set k { job with phase := .over }
  target : r.1.target = n.target
  inodes : r.1.inodes = n.inodes
  long : job.content = none → r.1.kept = none ∧
    r.1.finished = if ok then remember n.finished job.writeId else n.finished
  short : job.content ≠ none → r.1.kept = n.kept ∧ r.1.finished = n.finished

theorem finish_finish (n : Node) (k : Nat) (job : Job) (ok : Bool) : Finish n k job ok (n.finish k job ok) := by
  unfold Node.finish
  dsimp only
  split
  next hc =>
    exact ⟨rfl, rfl, rfl, rfl, fun h => absurd h (by simp [hc]), fun _ => ⟨rfl, rfl⟩⟩
  next hc =>
    exact ⟨rfl, rfl, rfl, rfl, fun _ => ⟨rfl, rfl⟩, fun h => absurd hc h⟩

def System.working (w : Write) (s : System) (r : Node × Option Answer) : System :=
  { s with
    node := r.1, log := s.log ++ answers w.last r.2, since := if r.2 = some .ok then 0 else s.since }

theorem System.working_same (w : Write) (s : System) : s.working w (s.node, none) = s := by
  simp [System.working, answers]

/-- **The copy being placed ends**, with the whole file in place where it says so. -/
theorem SystemOk.finish (ok : SystemOk w old s) {done : List Job} {job : Job} {whole : Bool}
    {n : Node} {r : Node × Option Answer} (hf : Finish n done.length job whole r)
    (hjobs : n.jobs = done ++ [job]) (hdone : ∀ d ∈ done, d.phase = .over)
    (hid : job.writeId = w.writeId) (hcontent : job.content = none ↔ w.long)
    (hhandled : s.handled = w.last + 1)
    (hanswered : w.long → .answered w.last .ok ∉ s.log ∧ w.writeId ∉ n.finished)
    (hlog : ∃ before, s.log = before ++ [.placing]) (hkept : KeptOk w n)
    (htarget : Intact w old n.target) (hwhole : whole = true → n.target = some w.source) :
    SystemOk w old (s.working w r) := by
  have hlog' : (s.working w r).log = s.log ++ [.answered w.last (if whole then .ok else .failed)] := by
    simp [System.working, answers, hf.answer]
  have hlong : w.long → r.1.kept = none ∧
      r.1.finished = if whole then remember n.finished w.writeId else n.finished := fun h => by
    rw [← hid]
    exact hf.long (hcontent.mpr h)
  have hfailed : whole = false → .answered w.last .ok ∈ (s.working w r).log →
      .answered w.last .ok ∈ s.log := fun hw h => by
    rw [hlog', hw] at h
    simpa using h
  refine ⟨ok.queue.answer hhandled r.1 r.2 _, fun i hi => ?_, .placed ?_ ?_ hhandled
    (fun h => (hlong h).1) (fun h => ?_) (fun hl h => ?_) (fun hl h => ?_) ?_, ok.restarted,
    fun hl h hr hs => ?_⟩
  · by_cases hl : job.content = none
    · have hi : r.1.kept = some i := hi
      rw [(hf.long hl).1] at hi
      cases hi
    have hi : n.kept = some i := (hf.short hl).1.symm.trans hi
    simp only [System.working, hf.inodes]
    exact hkept i hi
  · intro d hd
    simp only [System.working, hf.jobs, hjobs] at hd
    rcases mem_append.mp (by simpa using hd : d ∈ done ++ [{ job with phase := .over }]) with hd | hd
    · exact hdone d hd
    · rw [mem_singleton.mp hd]
  · obtain ⟨before, hb⟩ := hlog
    simp [hlog', hb]
  · simp only [System.working, hf.target]
    cases whole with
    | true => exact hwhole rfl
    | false =>
      rw [hlog'] at h
      obtain ⟨before, hb⟩ := hlog
      have hs := h.of_append (by simp)
      rw [hb] at hs
      exact absurd hs (not_settled_placing w before)
  · simp only [System.working, hf.target]
    cases whole with
    | true => exact hwhole rfl
    | false => exact absurd (hfailed rfl h) (hanswered hl).1
  · cases whole with
    | true => simp [hlog']
    | false =>
      simp only [System.working, (hlong hl).2] at h
      exact absurd h (hanswered hl).2
  · simp only [System.working, hf.target]
    exact htarget
  · cases whole with
    | true =>
      simp only [System.working, hf.answer, if_true, (hlong hl).2]
      exact remember_self (hanswered hl).2
    | false => exact absurd (hfailed rfl h) (hanswered hl).1

theorem Intact.placed {n n' : Node} (h : Intact w old n.target) (hp : Placed w.source n n') :
    Intact w old n'.target := by
  rcases hp with hp | hp
  · rwa [hp]
  · exact Or.inr hp

/-- **A job goes on.** -/
theorem SystemOk.job (ok : SystemOk w old s) (e : JobEvent) : SystemOk w old (s.working w (s.node.goOn k e)) := by
  have hsame : s.node.goOn k e = (s.node, none) → SystemOk w old (s.working w (s.node.goOn k e)) := fun h => by
    rw [h, System.working_same]
    exact ok
  have hnone : s.node.jobs[k]? = none → s.node.goOn k e = (s.node, none) := fun h => by
    rw [Node.goOn, h]
  rcases ok.era with ⟨hjobs, -, -, -, -, -⟩ |
    ⟨done, job, hjobs, hdone, hrun, hid, hcontent, hok, hhandled, hanswered, hlog, htarget⟩ |
    ⟨hdone, -, -, -, -, -, -, -⟩
  · exact hsame (hnone (by simp [hjobs]))
  · rcases Nat.lt_trichotomy k done.length with hk | rfl | hk
    · have hjob : s.node.jobs[k]? = some done[k] := by
        rw [hjobs, getElem?_append_left hk, getElem?_eq_getElem hk]
      exact hsame (Node.goOn_over hjob (hdone _ (getElem_mem hk)) e)
    · have hjob : s.node.jobs[done.length]? = some job := by simp [hjobs]
      rcases Node.goOn_goes hjob hok e with hg | hg
      · exact hsame hg
      generalize s.node.goOn done.length e = r at hg ⊢
      cases hg with
      | on job' target hid' hc' hover ok' hplaced =>
        have htarget' := htarget.placed hplaced
        refine ⟨ok.queue.answer hhandled _ none _, ok.kept, .placing done job' ?_ hdone hover
          (hid'.trans hid) (by rw [hc']; exact hcontent) (ok'.congr rfl rfl rfl) hhandled ?_ ?_
          htarget', ok.restarted, fun hl h hr hs => ?_⟩
        · simp [System.working, Node.setJob, hjobs]
        · exact fun hl => ⟨by simpa [System.working, answers] using (hanswered hl).1, (hanswered hl).2⟩
        · simpa [System.working, answers] using hlog
        · exact absurd (by simpa [System.working, answers] using h) (hanswered hl).1
      | done hwhole =>
        exact ok.finish (finish_finish ..) hjobs hdone hid hcontent hhandled hanswered hlog ok.kept
          htarget fun _ => hwhole
      | failed target hplaced =>
        exact ok.finish (finish_finish { s.node with target := target } _ _ _) hjobs hdone hid
          hcontent hhandled hanswered hlog ok.kept (htarget.placed hplaced) (by simp)
    · exact hsame (hnone (by rw [hjobs, getElem?_eq_none (by simp; omega)]))
  · cases hjob : s.node.jobs[k]? with
    | none => exact hsame (hnone hjob)
    | some job => exact hsame (Node.goOn_over hjob (hdone job (mem_of_getElem? hjob)) e)

theorem Era.congr {s' : System} (h : Era w old s) (hn : s'.node = s.node) (hl : s'.log = s.log)
    (hh : s'.handled = s.handled) (hf : s'.faulted = s.faulted) : Era w old s' := by
  obtain ⟨node, current, queue, log, handled, faulted, restarted, since⟩ := s'
  simp only at hn hl hh hf
  subst hn hl hh hf
  cases h with
  | waiting h1 h2 h3 h4 h5 h6 => exact .waiting h1 h2 h3 h4 h5 h6
  | placing done job h1 h2 h3 h4 h5 h6 h7 h8 h9 h10 => exact .placing done job h1 h2 h3 h4 h5 h6 h7 h8 h9 h10
  | placed h1 h2 h3 h4 h5 h6 h7 h8 => exact .placed h1 h2 h3 h4 h5 h6 h7 h8

theorem SystemOk.send (ok : SystemOk w old s) (hlt : s.current < w.chunks.length) :
    SystemOk w old { s with queue := s.queue ++ [s.current] } := by
  refine { ok with queue := { ok.queue with sorted := ?_, range := fun j hj => ?_ }, era := ok.era.congr rfl rfl rfl rfl }
  · refine pairwise_append.mpr ⟨ok.queue.sorted, by simp, fun j hj i hi => ?_⟩
    rw [mem_singleton.mp hi]
    exact (ok.queue.range j hj).2.1
  rcases Places.mem_concat_cases hj with hj | rfl
  · exact ok.queue.range j hj
  · exact ⟨ok.queue.handled, Nat.le_refl _, Nat.le_sub_one_of_lt hlt⟩

theorem SystemOk.lose (ok : SystemOk w old s) (n : Nat) : SystemOk w old { s with queue := s.queue.eraseIdx n } := by
  have hsub := eraseIdx_sublist s.queue n
  exact { ok with queue := { ok.queue with sorted := ok.queue.sorted.sublist hsub, range := fun j hj => ok.queue.range j (hsub.subset hj) }, era := ok.era.congr rfl rfl rfl rfl }

theorem SystemOk.advance (ok : SystemOk w old s) (h : .answered s.current .ok ∈ s.log) :
    SystemOk w old { s with current := s.current + 1 } := by
  refine { ok with queue := ⟨ok.queue.sorted, fun j hj => ?_, ok.queue.answered _ h, ?_, ok.queue.answered⟩, era := ok.era.congr rfl rfl rfl rfl }
  · obtain ⟨h1, h2, h3⟩ := ok.queue.range j hj
    exact ⟨h1, Nat.le_succ_of_le h2, h3⟩
  · exact Nat.le_succ_of_le ok.queue.handled

theorem SystemOk.other (ok : SystemOk w old s) {id : JsString} (hid : id ≠ w.writeId) :
    SystemOk w old { s with
      node := { s.node with finished := remember s.node.finished id }, since := s.since + 1 } := by
  have hmem : w.writeId ∈ remember s.node.finished id → w.writeId ∈ s.node.finished := fun h =>
    (mem_remember h).resolve_right (Ne.symm hid)
  refine ⟨{ ok.queue with },
    ok.kept, ?_, ok.restarted, fun hl h hr hs => ?_⟩
  · cases ok.era with
    | waiting h1 h2 h3 h4 h5 h6 => exact .waiting h1 h2 h3 h4 (fun h => h5 (hmem h)) h6
    | placing done job h1 h2 h3 h4 h5 h6 h7 h8 h9 h10 =>
      exact .placing done job h1 h2 h3 h4 h5 (h6.congr rfl rfl rfl) h7
        (fun hl => ⟨(h8 hl).1, fun h => (h8 hl).2 (hmem h)⟩) h9 h10
    | placed h1 h2 h3 h4 h5 h6 h7 h8 => exact .placed h1 h2 h3 h4 h5 h6 (fun hl h => h7 hl (hmem h)) h8
  · exact (ok.remembered hl h hr (Nat.lt_of_succ_lt hs)).other hs

theorem SystemOk.restart (ok : SystemOk w old s) :
    SystemOk w old { s with
      node := s.node.restart, queue := [], faulted := true, restarted := true } := by
  refine ⟨{ ok.queue with sorted := .nil, range := by simp },
    by simp [KeptOk, Node.restart], ?_, fun _ => rfl, fun _ _ hr => absurd hr (by simp)⟩
  cases ok.era with
  | waiting h1 h2 h3 h4 _ _ => exact .waiting rfl h2 h3 h4 (by simp [Node.restart]) (fun h => absurd h (by simp))
  | placing done job _ _ _ _ _ _ h7 h8 h9 h10 =>
    obtain ⟨before, hb⟩ := h9
    refine .placed (by simp [Node.restart]) (by simp [hb]) h7 (fun _ => rfl) (fun h => ?_)
      (fun hl h => absurd h (h8 hl).1) (by simp [Node.restart]) h10
    exact absurd (hb ▸ h) (not_settled_placing w before)
  | placed _ h2 h3 _ h5 h6 _ h8 =>
    exact .placed (by simp [Node.restart]) h2 h3 (fun _ => rfl) h5 h6 (by simp [Node.restart]) h8

theorem SystemOk.step (ok : SystemOk w old s) (e : Event) (hapart : Apart w s e) : SystemOk w old (step w s e) := by
  cases e with
  | send =>
    simp only [FsWrite.step]
    split
    next h =>
      exact ok.send h
    · exact ok
  | lose n => exact ok.lose n
  | deliver io =>
    simp only [FsWrite.step]
    split
    · exact ok
    next j rest hq =>
      exact ok.deliver hapart hq
  | job k e => exact ok.job e
  | advance =>
    simp only [FsWrite.step]
    split
    next h =>
      exact ok.advance h
    · exact ok
  | other id =>
    simp only [FsWrite.step]
    split
    · exact ok
    next h =>
      exact ok.other h
  | restart => exact ok.restart

theorem run_ok (w : Write) (old : Option Bytes) {es : List Event}
    (h : Run.Along (FsWrite.step w) (Apart w) (.fresh old) es) : SystemOk w old (run w old es) :=
  h.invariant (SystemOk w old) (fun _ e hapart ok => ok.step e hapart) (.fresh w old)

end

/-! ## What a resent write leaves -/

structure Resent (w : Write) (old : Option Bytes) (s : System) : Prop where
  /-- Nothing is seen at the target until a copy of the last chunk is placed. -/
  before : .placing ∉ s.log → s.node.target = old
  /-- While one is, the target holds the start of the source. -/
  always : Intact w old s.node.target
  settled : Settled w s.log → s.node.target = some w.source
  whole : w.long → .answered w.last .ok ∈ s.log → s.node.target = some w.source
  /-- A chunk is answered as written, sent for the first time or again. -/
  again : ∀ j rest, s.queue = j :: rest → j ≠ w.last → s.faulted = false →
    (step w s (.deliver .works)).log = s.log ++ [.answered j .ok]
  /-- The last one is, once it was, for as long as its write is remembered. -/
  lastAgain : ∀ rest io, s.queue = w.last :: rest → w.long → .answered w.last .ok ∈ s.log →
    s.restarted = false → s.since < FINISHED_WRITES →
    (step w s (.deliver io)).log = s.log ++ [.answered w.last .ok]
  short : ∀ rest io, s.queue = w.last :: rest → ¬ w.long → (step w s (.deliver io)).log = s.log ++ [.placing]

theorem Resent.of {w : Write} {old : Option Bytes} {s : System} (ok : SystemOk w old s) : Resent w old s := by
  have hdeliver : ∀ j rest io, s.queue = j :: rest → Wrote w s.node j io (s.node.write (w.request j) io) ∧
      (step w s (.deliver io)).log = s.log ++ [deed j (s.node.write (w.request j) io).2] := fun j rest io hq => by
    refine ⟨write_wrote ok.kept (ok.queue.range j (by simp [hq])).2.2 io, ?_⟩
    simp [step, hq]
  refine ⟨fun hno => ?_, ?_, fun h => ?_, fun hl h => ?_, fun j rest hq hj hf => ?_,
    fun rest io hq hl h hr hs => ?_, fun rest io hq hs => ?_⟩
  · cases ok.era with
    | waiting _ _ _ h => exact h
    | placing _ _ _ _ _ _ _ _ _ _ h9 =>
      obtain ⟨before, hb⟩ := h9
      exact absurd (by simp [hb]) hno
    | placed _ h => exact absurd h hno
  · cases ok.era with
    | waiting _ _ _ h => exact Or.inl h
    | placing _ _ _ _ _ _ _ _ _ _ _ h => exact h
    | placed _ _ _ _ _ _ _ h => exact h
  · cases ok.era with
    | waiting _ _ hok =>
      obtain ⟨before, after, hlog, -⟩ := h
      exact absurd (by simp [hlog]) hok
    | placing _ _ _ _ _ _ _ _ _ _ h9 =>
      obtain ⟨before, hb⟩ := h9
      exact absurd (hb ▸ h) (not_settled_placing w before)
    | placed _ _ _ _ hsettled => exact hsettled h
  · cases ok.era with
    | waiting _ _ hok => exact absurd h hok
    | placing _ _ _ _ _ _ _ _ _ h8 => exact absurd h (h8 hl).1
    | placed _ _ _ _ _ hok => exact hok hl h
  · obtain ⟨hw, hlog⟩ := hdeliver j rest .works hq
    rw [hlog]
    generalize s.node.write (w.request j) .works = r at hw ⊢
    cases hw with
    | whole hj' | again hj' | placing hj' => exact absurd hj' hj
    | threw hio => exact absurd rfl hio
    | took => rfl
    | refused hlt =>
      have hwaiting : 0 < s.handled → s.node.written = w.offset s.handled := by
        have hrange := ok.queue.range j (by simp [hq])
        cases ok.era with
        | waiting _ _ _ _ _ hkept => exact (hkept hf).2
        | placing _ _ _ _ _ _ _ _ h7 => omega
        | placed _ _ h3 => omega
      exact absurd (ok.queue.reaches hq hwaiting) (Nat.not_le_of_lt hlt)
  · obtain ⟨hw, hlog⟩ := hdeliver w.last rest io hq
    rw [hlog]
    have hmem := (ok.remembered hl h hr hs).mem
    have hwrite : s.node.write (w.request w.last) io = (s.node, some .ok) := by
      have h0 : w.offset w.last ≠ 0 := Nat.ne_of_gt hl
      simp [Node.write, Write.request, h0, hmem]
    rw [hwrite]
    rfl
  · obtain ⟨-, hlog⟩ := hdeliver w.last rest io hq
    have h0 : w.offset w.last = 0 := Nat.eq_zero_of_not_pos hs
    rw [hlog]
    simp [Node.write, Write.request, h0, deed]

/-- **A write whose chunks are resent.** In every run in which no copy of the last chunk is handled
while another is being placed. -/
theorem resent_write (w : Write) (old : Option Bytes) (es : List Event)
    (h : Run.Along (step w) (Apart w) (.fresh old) es) : Resent w old (run w old es) :=
  .of (run_ok w old h)

/-! ### A run -/

def twoChunks : Write := ⟨js "w", [[1], [2]], by decide⟩

/-- The first chunk is sent twice, and the last one is handled. -/
def sentRun : List Event :=
  [.send, .send, .deliver .works, .deliver .works, .advance, .send, .deliver .works,
    .job 0 .resolved, .job 0 .made, .job 0 (.openSource false), .job 0 .openSink]

def placedRun : List Event :=
  sentRun ++ [.job 0 (.read 9), .job 0 (.read 9), .job 0 (.write 9), .job 0 .settle, .send, .deliver .works]

theorem resent_write_placed : Resent twoChunks (some [9]) (run twoChunks (some [9]) placedRun) ∧
      (run twoChunks (some [9]) placedRun).node.target = some [1, 2] ∧
      (run twoChunks (some [9]) placedRun).log =
        [.answered 0 .ok, .answered 0 .ok, .placing, .answered 1 .ok, .answered 1 .ok] :=
  ⟨resent_write twoChunks (some [9]) placedRun (by decide +kernel), by decide +kernel, by decide +kernel⟩

/-- The target is emptied before it is filled: it holds neither what was there nor the source. -/
theorem target_emptied : ∃ (w : Write) (old : Option Bytes) (es : List Event),
    Run.Along (step w) (Apart w) (.fresh old) es ∧ (run w old es).node.target ≠ old ∧
      (run w old es).node.target ≠ some w.source :=
  ⟨twoChunks, some [9], sentRun, by decide +kernel, by decide +kernel, by decide +kernel⟩

end Reins.FsWrite
