import Reins.Backend.RunExec

/-!
# Exec output survives link drops

The invariant of the two ends. Of the node: the command's state is that of its history, and every
generator has yielded a stretch of it. Of what is in flight: an attach asks from a boundary, and an
answer is either the boundary asked or the end of the records there were, with their view. Of the
server: what it took follows the history up to `taken`, and what it holds of the stream it reads
is the start of the next record.
-/

open Utf Places List

namespace Reins.PiExec

variable {outputs : List Output} {s : Server} {m n k call : Nat} {o o' : Output} {a : Answer} {exec' : Exec}

/-! ## The parts of the invariant -/

/-- An answer, against the history and the generators. -/
def Answer.Ok (h : List ExecRecord) (outputs : List Output) : Answer → Prop
  | .started stream => ∃ o, outputs[stream]? = some o ∧ o.offset = 0
  | .attached asked result stream =>
    (∃ o, outputs[stream]? = some o ∧ o.offset = result.offset) ∧
      ∃ m n, m ≤ n ∧ n ≤ h.length ∧ asked = size (h.take m) ∧ result.offset = size (h.take n) ∧ match result.view with
        | some v => viewOf (h.take n) = some v
        | none => m = n
  | .refused => True

/-- The server's position when it made the request. -/
def Request.From (taken : Nat) : Request → Prop
  | .exec => taken = 0
  | .attach offset => offset = taken

def Answer.From (taken : Nat) : Answer → Prop
  | .started _ => taken = 0
  | .attached asked _ _ => asked = taken
  | .refused => True

structure NodeOk (tailBytes : Nat) (h : List ExecRecord) (exec : Option Exec) (outputs : List Output) : Prop where
  kept : Kept tailBytes h (exec.getD .fresh)
  last : ∀ (n : Nat) (e : ExecExit), h[n]? = some (.exit e) → n + 1 = h.length
  outputs : ∀ o ∈ outputs, ∃ m n, Serves h (exec.getD .fresh) o m n

structure FlightOk (w : World) : Prop where
  requests : ∀ p ∈ w.requests, p.1 < w.calls ∧
    ∀ offset, p.2 = .attach offset → ∃ m ≤ w.history.length, offset = size (w.history.take m)
  answers : ∀ p ∈ w.answers, p.1 < w.calls ∧ p.2.Ok w.history w.outputs
  awaiting : ∀ c, w.server.awaiting = some c → c < w.calls ∧ w.server.reading = none ∧
    (∀ p ∈ w.requests, p.1 = c → p.2.From w.server.taken) ∧
    ∀ p ∈ w.answers, p.1 = c → p.2.From w.server.taken

def ServerOk (h : List ExecRecord) (exec : Exec) (outputs : List Output) (s : Server) : Prop :=
  ∃ n, Taken h n s ∧ ∀ stream, s.reading = some stream →
    ∃ o m k, outputs[stream]? = some o ∧ Serves h exec o m k ∧ n ≤ k ∧ Reading h m n o.sent s

structure WorldOk (tailBytes : Nat) (w : World) : Prop where
  node : NodeOk tailBytes w.history w.exec w.outputs
  flight : FlightOk w
  server : ServerOk w.history (w.exec.getD .fresh) w.outputs w.server

theorem WorldOk.start (tailBytes : Nat) (attach : Bool) : WorldOk tailBytes (.start attach) := by
  refine ⟨⟨Kept.fresh tailBytes, by simp [World.start], by simp [World.start]⟩,
    ⟨by simp [World.start], by simp [World.start], ?_⟩, 0, ⟨rfl, .nil, fun _ => rfl⟩, ?_⟩
  · cases attach <;> simp [World.start, Request.From]
  · simp [World.start]

section

variable {tailBytes : Nat} {w : World} {h : List ExecRecord} {exec : Exec}

/-! ## The history grows -/

theorem lines_grow (hk : k ≤ h.length) (m : Nat) (r : ExecRecord) : lines (h ++ [r]) m k = lines h m k := by
  rw [lines, take_append_of_le_length hk, lines]

theorem size_take_grow (hk : k ≤ h.length) (r : ExecRecord) : size ((h ++ [r]).take k) = size (h.take k) := by
  rw [take_append_of_le_length hk]

theorem Answer.Ok.grow (ha : a.Ok h outputs) (r : ExecRecord) : a.Ok (h ++ [r]) outputs := by
  cases a with
  | started stream => exact ha
  | refused => exact ha
  | attached asked result stream =>
    obtain ⟨ho, m, n, hmn, hn, h1, h2, h3⟩ := ha
    refine ⟨ho, m, n, hmn, by simp; omega, ?_, ?_, ?_⟩
    · rw [size_take_grow (by omega), h1]
    · rw [size_take_grow hn, h2]
    · rw [take_append_of_le_length hn]
      exact h3

theorem ServerOk.grow (hs : ServerOk h exec outputs s) (r : ExecRecord) :
    ServerOk (h ++ [r]) (PiExec.record tailBytes exec r) outputs s := by
  obtain ⟨n, t, hr⟩ := hs
  have hn := t.logged.follows.le
  refine ⟨n, ⟨by rw [size_take_grow hn, t.taken], t.logged.follows.grow r, t.logged.handed⟩, ?_⟩
  intro stream hstream
  obtain ⟨o, m, k, ho, hsv, hnk, hrd⟩ := hr stream hstream
  refine ⟨o, m, k, ho, hsv.record r, hnk, hrd.le, ?_, hrd.bound, hrd.partial_⟩
  rw [hrd.read, lines_grow hn]

theorem WorldOk.record (hw : WorldOk tailBytes w) (r : ExecRecord) :
    WorldOk tailBytes (step tailBytes w (.record r)) := by
  simp only [step]
  cases he : w.exec with
  | none => exact hw
  | some exec =>
    simp only
    split
    · exact hw
    rename_i hx
    obtain ⟨⟨hk, hlast, hout⟩, ⟨hreq, hans, haw⟩, hs⟩ := hw
    rw [he, Option.getD_some] at hk hout hs
    refine ⟨⟨hk.record r, fun n e hn => ?_, fun o ho => ?_⟩, ⟨fun p hp => ?_, fun p hp => ?_, haw⟩, hs.grow r⟩
    · -- Only the new record can be an exit.
      by_contra hne
      have hlt : n < w.history.length := by
        have := lt_of_getElem? hn
        rw [length_append, length_singleton] at this hne
        omega
      rw [getElem?_append_left hlt] at hn
      have hmem := mem_of_getElem? hn
      apply hx
      rw [hk.exited, any_eq_true]
      exact ⟨_, hmem, rfl⟩
    · obtain ⟨m, n, hsv⟩ := hout o ho
      exact ⟨m, n, hsv.record r⟩
    · refine ⟨(hreq p hp).1, fun offset ho => ?_⟩
      obtain ⟨m, hm, e⟩ := (hreq p hp).2 offset ho
      exact ⟨m, by simp; omega, by rw [size_take_grow hm, e]⟩
    · exact ⟨(hans p hp).1, (hans p hp).2.grow r⟩

/-! ## The node answers -/

theorem Answer.Ok.more (ha : a.Ok h outputs) (more : List Output) : a.Ok h (outputs ++ more) := by
  cases a with
  | started stream =>
    obtain ⟨o, ho, e⟩ := ha
    exact ⟨o, getElem?_append_some ho more, e⟩
  | refused => exact ha
  | attached asked result stream =>
    obtain ⟨⟨o, ho, e⟩, hb⟩ := ha
    exact ⟨⟨o, getElem?_append_some ho more, e⟩, hb⟩

theorem ServerOk.more (hs : ServerOk h exec outputs s) (more : List Output) : ServerOk h exec (outputs ++ more) s := by
  obtain ⟨n, t, hr⟩ := hs
  refine ⟨n, t, fun stream hstream => ?_⟩
  obtain ⟨o, m, k, ho, hrest⟩ := hr stream hstream
  exact ⟨o, m, k, getElem?_append_some ho more, hrest⟩

/-- An answer sets off, with the generator its stream will be pulled from. -/
theorem WorldOk.answer (hw : WorldOk tailBytes w) (more : List Output)
    (hmore : ∀ o ∈ more, ∃ m n, Serves w.history (w.exec.getD .fresh) o m n)
    (hcall : call < w.calls) (ha : a.Ok w.history (w.outputs ++ more))
    (hfrom : w.server.awaiting = some call → a.From w.server.taken) :
    WorldOk tailBytes { w with outputs := w.outputs ++ more, answers := w.answers ++ [(call, a)] } := by
  obtain ⟨⟨hk, hlast, hout⟩, ⟨hreq, hans, haw⟩, hs⟩ := hw
  refine ⟨⟨hk, hlast, fun o ho => ?_⟩, ⟨hreq, fun p hp => ?_, fun c hc => ?_⟩, hs.more more⟩
  · rcases mem_append.mp ho with ho | ho
    · exact hout o ho
    · exact hmore o ho
  · rcases mem_concat_cases hp with hp | rfl
    · exact ⟨(hans p hp).1, (hans p hp).2.more more⟩
    · exact ⟨hcall, ha⟩
  · obtain ⟨h1, h2, h3, h4⟩ := haw c hc
    refine ⟨h1, h2, h3, fun p hp hpc => ?_⟩
    rcases mem_append.mp hp with hp | hp
    · exact h4 p hp hpc
    rw [mem_singleton.mp hp] at hpc ⊢
    subst hpc
    exact hfrom hc

theorem WorldOk.refuse (hw : WorldOk tailBytes w) (hcall : call < w.calls) :
    WorldOk tailBytes { w with answers := w.answers ++ [(call, .refused)] } := by
  have := hw.answer [] (a := .refused) (by simp) hcall trivial fun _ => trivial
  rwa [append_nil] at this

theorem viewOf_isSome (hlast : ∀ (n : Nat) (e : ExecExit), h[n]? = some (.exit e) →
    n + 1 = h.length) (hlen : 1 < h.length) : ∃ v, viewOf h = some v := by
  cases h with
  | nil => cases hlen
  | cons r rs =>
    cases r with
    | exit e =>
      have := hlast 0 e rfl
      omega
    | update u =>
      have key : ∀ (rs : List ExecRecord) (v : ShellOutputView),
          ∃ v', rs.foldl (fun v r => r.apply v) (some v) = some v' := by
        intro rs
        induction rs with
        | nil => exact fun v => ⟨v, rfl⟩
        | cons r rs ih =>
          intro v
          cases r with
          | update u => exact ih _
          | exit e => exact ih v
      exact key rs _

theorem NodeOk.attach (hn : NodeOk tailBytes h (some exec) outputs) (hm : m ≤ h.length) :
    ∃ (n : Nat) (view : Option ShellOutputView), n ≤ h.length ∧ PiExec.attach exec (size (h.take m))
        = .ok (⟨size (h.take n), view⟩, .at (size (h.take n))) ∧
      m ≤ n ∧
      match view with
      | some v => viewOf (h.take n) = some v
      | none => m = n := by
  have hk := hn.kept
  rw [Option.getD_some] at hk
  rw [hk.attach hm]
  by_cases hd : m < exec.dropped
  · have hne : h ≠ [] := by
      rintro rfl
      have := hk.empty rfl
      omega
    have hlen : 1 < h.length := by
      have := hk.latest hne
      omega
    obtain ⟨v, hv⟩ := viewOf_isSome hn.last hlen
    refine ⟨h.length, some v, le_refl _, ?_, hm, ?_⟩
    · rw [if_pos hd, take_length, hv]
    · rw [take_length]
      exact hv
  · exact ⟨m, none, hm, by rw [if_neg hd], le_refl _, rfl⟩

theorem WorldOk.serve (hw : WorldOk tailBytes w) {request : Request} (hcall : call < w.calls)
    (hreq : ∀ offset, request = .attach offset → ∃ m ≤ w.history.length, offset = size (w.history.take m))
    (hfrom : w.server.awaiting = some call → request.From w.server.taken) :
    WorldOk tailBytes (w.serve call request) := by
  cases request with
  | exec =>
    rw [World.serve]
    split
    next he =>
      have hserves : Serves w.history (w.exec.getD .fresh) (.at 0) 0 0 := Serves.at (Nat.zero_le w.history.length)
      have hget : (w.outputs ++ [Output.at 0])[w.outputs.length]? = some (.at 0) := by simp
      have h1 := hw.answer [.at 0] (a := .started w.outputs.length)
        (by simpa using ⟨0, 0, hserves⟩) hcall ⟨_, hget, rfl⟩ hfrom
      obtain ⟨⟨hk, hlast, hout⟩, hflight, hs⟩ := h1
      simp only [he, Option.getD_none] at hk hout hs
      exact ⟨⟨hk, hlast, hout⟩, ⟨hflight.requests, hflight.answers, hflight.awaiting⟩, hs⟩
    · exact hw.refuse hcall
  | attach offset =>
    rw [World.serve]
    split
    · exact hw.refuse hcall
    rename_i exec he
    split
    · obtain ⟨m, hm, rfl⟩ := hreq offset rfl
      have hnode := hw.node
      rw [he] at hnode
      obtain ⟨n, view, hn, ha, hmn, hv⟩ := hnode.attach hm
      rw [ha]
      have hserves : Serves w.history (w.exec.getD .fresh) (.at (size (w.history.take n))) n n := Serves.at hn
      have hget : (w.outputs ++ [Output.at (size (w.history.take n))])[w.outputs.length]?
          = some (.at (size (w.history.take n))) := by simp
      exact hw.answer [.at (size (w.history.take n))] (by simpa using ⟨n, n, hserves⟩) hcall
        ⟨⟨_, hget, rfl⟩, m, n, hmn, hn, rfl, rfl, hv⟩ hfrom
    · exact hw.refuse hcall

theorem WorldOk.fewer (hw : WorldOk tailBytes w) {requests : List (Nat × Request)}
    {answers : List (Nat × Answer)} (h1 : ∀ p ∈ requests, p ∈ w.requests)
    (h2 : ∀ p ∈ answers, p ∈ w.answers) :
    WorldOk tailBytes { w with requests := requests, answers := answers } := by
  obtain ⟨hnode, ⟨hreq, hans, haw⟩, hs⟩ := hw
  refine ⟨hnode, ⟨fun p hp => hreq p (h1 p hp), fun p hp => hans p (h2 p hp), fun c hc => ?_⟩, hs⟩
  obtain ⟨h3, h4, h5, h6⟩ := haw c hc
  exact ⟨h3, h4, fun p hp => h5 p (h1 p hp), fun p hp => h6 p (h2 p hp)⟩

theorem WorldOk.handle (hw : WorldOk tailBytes w) (i : Nat) : WorldOk tailBytes (step tailBytes w (.handle i)) := by
  simp only [step]
  split
  next call request hr =>
    have hmem := mem_of_getElem? hr
    have hw' : WorldOk tailBytes { w with requests := w.requests.eraseIdx i } :=
      hw.fewer (fun p hp => mem_of_mem_eraseIdx hp) fun p hp => hp
    refine hw'.serve (hw.flight.requests _ hmem).1 (hw.flight.requests _ hmem).2 fun hc => ?_
    exact (hw.flight.awaiting call hc).2.2.1 _ hmem rfl
  · exact hw

/-! ## The server's end moves -/

theorem WorldOk.idle (hw : WorldOk tailBytes w)
    (hs : ServerOk w.history (w.exec.getD .fresh) w.outputs s) (ha : s.awaiting = none) :
    WorldOk tailBytes { w with server := s } :=
  ⟨hw.node, ⟨hw.flight.requests, hw.flight.answers, fun c hc => absurd hc (by simp [ha])⟩, hs⟩

theorem ServerOk.still {t : Server} (hs : ServerOk h exec outputs s)
    (hr : t.reading = none) (h1 : t.taken = s.taken) (h2 : t.applied = s.applied)
    (h3 : t.handed = s.handed) (h4 : t.callbackError = s.callbackError) :
    ServerOk h exec outputs t := by
  obtain ⟨n, ht, -⟩ := hs
  refine ⟨n, ⟨h1.trans ht.taken, ?_, ?_⟩, fun stream hstream => absurd hstream (by simp [hr])⟩
  · rw [h2]
    exact ht.logged.follows
  · rw [h2, h3, h4]
    exact ht.logged.handed

theorem WorldOk.finish (hw : WorldOk tailBytes w) : WorldOk tailBytes { w with server := w.server.finish } :=
  hw.idle (hw.server.still rfl rfl rfl rfl rfl) rfl

/-- The call given up: whatever it waited for, nobody does. -/
theorem WorldOk.giveUp (hw : WorldOk tailBytes w) :
    WorldOk tailBytes { w with server := { w.server with awaiting := none } } := by
  obtain ⟨n, t, hr⟩ := hw.server
  refine hw.idle ⟨n, ⟨t.taken, t.logged.follows, t.logged.handed⟩, fun stream hstream => ?_⟩ rfl
  obtain ⟨o, m, k, ho, hsv, hnk, hrd⟩ := hr stream hstream
  exact ⟨o, m, k, ho, hsv, hnk, hrd.le, hrd.read, hrd.bound, hrd.partial_⟩

theorem WorldOk.cut (hw : WorldOk tailBytes w) : WorldOk tailBytes { w with server := w.server.cut } := by
  refine ⟨hw.node, ⟨hw.flight.requests, hw.flight.answers, fun c hc => ?_⟩, hw.server.still rfl rfl rfl rfl rfl⟩
  obtain ⟨h1, -, h3⟩ := hw.flight.awaiting c hc
  exact ⟨h1, rfl, h3⟩

theorem WorldOk.send (hw : WorldOk tailBytes w) : WorldOk tailBytes (step tailBytes w .send) := by
  simp only [PiExec.step]
  split
  · exact hw
  split
  · exact hw.finish
  rename_i hidle _
  obtain ⟨hnode, ⟨hreq, hans, -⟩, hs⟩ := hw
  have hreading : w.server.reading = none := by
    by_contra hne
    exact hidle (Or.inr (Or.inr hne))
  have hserver := hs
  obtain ⟨n, t, -⟩ := hs
  refine ⟨hnode, ⟨fun p hp => ?_, fun p hp => ?_, fun c hc => ?_⟩, hserver.still hreading rfl rfl rfl rfl⟩
  · rcases mem_concat_cases hp with hp | rfl
    · exact ⟨Nat.lt_succ_of_lt (hreq p hp).1, (hreq p hp).2⟩
    refine ⟨Nat.lt_succ_self _, fun offset ho => ⟨n, t.logged.follows.le, ?_⟩⟩
    rw [← t.taken]
    exact (Request.attach.inj ho).symm
  · exact ⟨Nat.lt_succ_of_lt (hans p hp).1, (hans p hp).2⟩
  · -- The call is new: nothing else in flight is of it.
    cases hc
    refine ⟨Nat.lt_succ_self _, hreading, fun p hp hpc => ?_, fun p hp hpc => ?_⟩
    · rcases mem_concat_cases hp with hp | rfl
      · have := (hreq p hp).1
        omega
      · rfl
    · have := (hans p hp).1
      omega

theorem ServerOk.open_ {stream : Nat} (t : Taken h n s) (ho : outputs[stream]? = some o) (hoff : o.offset = s.taken)
    (hserves : ∀ o ∈ outputs, ∃ m k, Serves h exec o m k) :
    ServerOk h exec outputs (s.open_ stream) := by
  refine ⟨n, ⟨t.taken, t.logged.follows, t.logged.handed⟩, fun i hi => ?_⟩
  cases hi
  obtain ⟨m, k, hsv⟩ := hserves o (mem_of_getElem? ho)
  obtain rfl : m = n := by
    refine size_take_inj (hsv.le.trans hsv.bound) t.logged.follows.le ?_
    rw [← hsv.offset, hoff, t.taken]
  refine ⟨o, m, k, ho, hsv, hsv.le, le_refl _, ?_, Nat.zero_le _, by simp [Server.open_]⟩
  simp [Server.open_, lines]

/-- **An attach's answer**: the boundary asked, or the view of the records there were. -/
theorem Taken.attached {result : AttachResult} (t : Taken h m s) (hle : m ≤ n) (hn : n ≤ h.length)
    (hoff : result.offset = size (h.take n))
    (hview : match result.view with
      | some v => viewOf (h.take n) = some v
      | none => m = n) (throws : Nat → Bool) (stream : Nat) :
    ∃ s', s.attached throws result stream = s'.open_ stream ∧ Taken h n s' ∧ s'.taken = result.offset := by
  obtain ⟨offset, view⟩ := result
  simp only at hoff hview
  subst hoff
  cases view with
  | none =>
    subst hview
    exact ⟨{ s with taken := size (h.take m) }, rfl, ⟨rfl, t.logged.follows, t.logged.handed⟩, rfl⟩
  | some v =>
    have hl : Logged h n (Server.update throws
        { s with applied := s.applied ++ [.view (size (h.take n)) v] } (.replace v)) :=
      Logged.update (s := { s with applied := s.applied ++ [.view (size (h.take n)) v] }) rfl
        (.view t.logged.follows hle hn hview) rfl t.logged.handed throws
    exact ⟨_, rfl, ⟨rfl, hl.follows, hl.handed⟩, rfl⟩

theorem WorldOk.arrive (hw : WorldOk tailBytes w) (i : Nat) (throws : Nat → Bool) :
    WorldOk tailBytes (step tailBytes w (.arrive i throws)) := by
  simp only [PiExec.step]
  split
  next call answer ha =>
    have hmem := mem_of_getElem? ha
    have hw' : WorldOk tailBytes { w with answers := w.answers.eraseIdx i } :=
      hw.fewer (fun p hp => hp) fun p hp => mem_of_mem_eraseIdx hp
    split
    next hcall =>
      obtain ⟨-, hok⟩ := hw.flight.answers _ hmem
      have hfrom := (hw.flight.awaiting call hcall).2.2.2 _ hmem rfl
      have hserves := hw.node.outputs
      obtain ⟨m, t, -⟩ := hw.server
      cases answer with
      | refused => exact hw'.finish
      | started stream =>
        obtain ⟨o, ho, hoff⟩ := hok
        have hzero : w.server.taken = 0 := hfrom
        exact hw'.idle (ServerOk.open_ t ho (by rw [hoff, hzero]) hserves) rfl
      | attached asked result stream =>
        obtain ⟨⟨o, ho, hoff⟩, m', n, hmn, hn, h1, h2, h3⟩ := hok
        have hasked : asked = w.server.taken := hfrom
        obtain rfl : m' = m := by
          refine size_take_inj (hmn.trans hn) t.logged.follows.le ?_
          rw [← h1, hasked, t.taken]
        obtain ⟨s', he, t', hs'⟩ := t.attached hmn hn h2 h3 throws stream
        refine hw'.idle ?_ ?_
        · rw [Server.answer, he]
          exact ServerOk.open_ t' ho (by rw [hoff, hs']) hserves
        · rw [Server.answer, he]
          rfl
    · exact hw'
  · exact hw

/-! ## Generators move -/

/-- What moves a generator: it started where it did, and has yielded as much or more. -/
structure Later (h : List ExecRecord) (exec exec' : Exec) (o o' : Output) : Prop where
  offset : o'.offset = o.offset
  serves : ∀ m n, Serves h exec o m n → ∃ n', n ≤ n' ∧ Serves h exec' o' m n'

theorem Serves.congr (s : Serves h exec o m n)
    (hd : exec'.dropped = exec.dropped) (h1 : o'.offset = o.offset) (h2 : o'.begun = o.begun)
    (h3 : o'.next = o.next) (h4 : o'.yielded = o.yielded) : Serves h exec' o' m n :=
  ⟨h1.trans s.offset, s.le, s.bound, h4.trans s.yielded, fun hb => s.idle (h2 ▸ hb),
    fun hb => by rw [h3, hd]; exact s.next (h2 ▸ hb)⟩

theorem Later.same (hd : exec'.dropped = exec.dropped)
    (h1 : o'.offset = o.offset) (h2 : o'.begun = o.begun) (h3 : o'.next = o.next)
    (h4 : o'.yielded = o.yielded) : Later h exec exec' o o' :=
  ⟨h1, fun _ n s => ⟨n, le_refl n, s.congr hd h1 h2 h3 h4⟩⟩

theorem Reading.grow {k' : Nat} (r : Reading h m n o.sent s) (hs : Serves h exec o m k) (hk : k ≤ k')
    (hs' : Serves h exec' o' m k') : Reading h m n o'.sent s := by
  have hsent : o'.sent = o.sent ++ lines h k k' := by
    rw [hs.sent, hs'.sent]
    exact lines_split hs.le hk hs.bound
  refine ⟨r.le, ?_, ?_, r.partial_⟩
  · rw [hsent, take_append_of_le_length r.bound]
    exact r.read
  · rw [hsent, length_append]
    exact Nat.le_add_right_of_le r.bound

theorem WorldOk.later (hw : WorldOk tailBytes w) {exec : Option Exec}
    (f : Nat → Output → Output) (hk : Kept tailBytes w.history (exec.getD .fresh))
    (hget : ∀ i, outputs[i]? = w.outputs[i]?.map (f i))
    (hf : ∀ i o, w.outputs[i]? = some o → Later w.history (w.exec.getD .fresh) (exec.getD .fresh) o (f i o)) :
    WorldOk tailBytes { w with exec := exec, outputs := outputs } := by
  have hmove : ∀ i o, w.outputs[i]? = some o → outputs[i]? = some (f i o) := by
    intro i o ho
    rw [hget, ho]
    rfl
  obtain ⟨⟨-, hlast, hout⟩, ⟨hreq, hans, haw⟩, n, t, hr⟩ := hw
  refine ⟨⟨hk, hlast, fun o' ho' => ?_⟩, ⟨hreq, fun p hp => ⟨(hans p hp).1, ?_⟩, haw⟩, n, t, fun stream hstream => ?_⟩
  · obtain ⟨i, hi⟩ := getElem?_of_mem ho'
    rw [hget, Option.map_eq_some_iff] at hi
    obtain ⟨o, ho, rfl⟩ := hi
    obtain ⟨m, k, hsv⟩ := hout o (mem_of_getElem? ho)
    obtain ⟨k', -, hsv'⟩ := (hf i o ho).serves m k hsv
    exact ⟨m, k', hsv'⟩
  · have hok := (hans p hp).2
    cases hp2 : p.2 with
    | refused => trivial
    | started stream =>
      rw [hp2] at hok
      obtain ⟨o, ho, hoff⟩ := hok
      exact ⟨f stream o, hmove _ _ ho, (hf _ o ho).offset.trans hoff⟩
    | attached asked result stream =>
      rw [hp2] at hok
      obtain ⟨⟨o, ho, hoff⟩, hb⟩ := hok
      exact ⟨⟨f stream o, hmove _ _ ho, (hf _ o ho).offset.trans hoff⟩, hb⟩
  · obtain ⟨o, m, k, ho, hsv, hnk, hrd⟩ := hr stream hstream
    obtain ⟨k', hkk, hsv'⟩ := (hf stream o ho).serves m k hsv
    exact ⟨f stream o, m, k', hmove _ _ ho, hsv', hnk.trans hkk, hrd.grow hsv hkk hsv'⟩

theorem WorldOk.stop (hw : WorldOk tailBytes w) (stream : Nat) :
    WorldOk tailBytes (step tailBytes w (.stop stream)) := by
  refine hw.later (fun i o => if stream = i then { o with signalAborted := true } else o)
    hw.node.kept (fun i => ?_) fun i o _ => ?_
  · rw [getElem?_modify]
    split <;> simp
  · split <;> exact .same rfl rfl rfl rfl rfl

theorem Kept.consumer (k : Kept tailBytes h exec) (c : Option Nat) : Kept tailBytes h { exec with consumer := c } :=
  { k with }

theorem WorldOk.takeOver (hw : WorldOk tailBytes w) (stream : Nat) : WorldOk tailBytes (w.takeOver stream) := by
  unfold World.takeOver
  split
  next exec o he ho =>
    have hk := hw.node.kept
    rw [he, Option.getD_some] at hk
    split
    · refine hw.later (fun i o => if exec.consumer = some i then { o with consumerAborted := true }
        else o) (hk.consumer _) (fun i => ?_) fun i o _ => ?_
      · cases exec.consumer with
        | none => simp
        | some j =>
          simp only [getElem?_modify, Option.some.injEq]
          split <;> simp
      · rw [he]
        split <;> exact .same rfl rfl rfl rfl rfl
    · exact hw
  · exact hw

theorem WorldOk.turn (hw : WorldOk tailBytes w) (stream : Nat) : WorldOk tailBytes (w.turn stream) := by
  unfold World.turn
  split
  next exec o he ho =>
    have hk := hw.node.kept
    rw [he, Option.getD_some] at hk
    have hlt : stream < w.outputs.length := by
      by_contra hle
      rw [getElem?_eq_none (by omega)] at ho
      cases ho
    have hleft : ∃ exec', (if (o.step exec).status ≠ .running ∧ exec.consumer = some stream then
        { exec with consumer := none } else exec) = exec' ∧ exec'.dropped = exec.dropped ∧
        Kept tailBytes w.history exec' := by
      split
      · exact ⟨_, rfl, rfl, hk.consumer none⟩
      · exact ⟨_, rfl, rfl, hk⟩
    obtain ⟨exec', hexec, hd, hk'⟩ := hleft
    simp only [hexec]
    refine hw.later (fun i o => if stream = i then o.step exec else o) hk' (fun i => ?_) fun i o' ho' => ?_
    · rw [getElem?_set]
      by_cases hi : stream = i
      · subst hi
        rw [if_pos rfl, if_pos hlt, ho, Option.map_some, if_pos rfl]
      · simp [hi]
    · rw [he, Option.getD_some, Option.getD_some]
      by_cases hi : stream = i
      · simp only [if_pos hi]
        refine ⟨?_, fun m n hsv => ?_⟩
        · obtain ⟨m, k, hsv⟩ := hw.node.outputs o' (mem_of_getElem? ho')
          rw [he, Option.getD_some] at hsv
          obtain ⟨_, -, hsv'⟩ := hsv.step hk
          exact hsv'.offset.trans hsv.offset.symm
        · obtain ⟨n', hn, hsv'⟩ := hsv.step hk
          exact ⟨n', hn, hsv'.congr hd rfl rfl rfl rfl⟩
      · simp only [if_neg hi]
        exact .same hd rfl rfl rfl rfl
  · exact hw

/-! ## The server reads -/

theorem readLoop_awaiting (throws : Nat → Bool) (fuel : Nat)
    (hs : s.awaiting = none) : (s.readLoop throws fuel).awaiting = none := by
  induction fuel generalizing s with
  | zero => exact hs
  | succ fuel ih =>
    rw [Server.readLoop]
    split
    · exact hs
    simp only
    split
    · rfl
    split
    · rfl
    · exact ih ((Server.take_spec throws _ _ _).2.2.2.trans hs)

theorem WorldOk.read (hw : WorldOk tailBytes w) (bytes : Nat) (throws : Nat → Bool) :
    WorldOk tailBytes (step tailBytes w (.read bytes throws)) := by
  simp only [PiExec.step]
  split
  next stream hstream =>
    split
    next o ho =>
      have hidle : w.server.awaiting = none := by
        by_contra hne
        obtain ⟨c, hc⟩ := Option.ne_none_iff_exists'.mp hne
        have := (hw.flight.awaiting c hc).2.1
        rw [hstream] at this
        cases this
      refine hw.idle ?_ (readLoop_awaiting _ _ hidle)
      obtain ⟨n, t, hr⟩ := hw.server
      obtain ⟨o', m, k, ho', hsv, hnk, hrd⟩ := hr stream hstream
      cases ho.symm.trans ho'
      generalize hchunk : (o.sent.drop w.server.readAt).take bytes = chunk
      have hread : o.sent.take (w.server.readAt + chunk.length)
          = lines w.history m n ++ (w.server.pending ++ chunk) := by
        rw [take_add, hrd.read, append_assoc, ← hchunk, List.length_take, ← take_eq_take_min]
      have hbound : w.server.readAt + chunk.length ≤ o.sent.length := by
        have := hrd.bound
        rw [← hchunk, List.length_take, length_drop]
        omega
      have hinitial : lines w.history m n ++ (w.server.pending ++ chunk) <+: lines w.history m k := by
        rw [← hread, hsv.sent]
        exact take_prefix _ _
      obtain ⟨n', hn', hk', t', hloop⟩ := readLoop_spec throws
        (s := { w.server with
          pending := w.server.pending ++ chunk, readAt := w.server.readAt + chunk.length })
        hsv.bound ⟨t.taken, t.logged.follows, t.logged.handed⟩ hrd.le hnk hinitial (le_refl _)
      refine ⟨n', t', fun i hi => ?_⟩
      rcases hloop with hnone | ⟨h1, h2, h3, h4⟩
      · cases hi.symm.trans hnone
      cases hstream.symm.trans (h1.symm.trans hi)
      refine ⟨o, m, k, ho, hsv, hk', hrd.le.trans hn', ?_, ?_, h4⟩
      · exact ((congrArg o.sent.take h2).trans hread).trans h3.symm
      · exact h2.trans_le hbound
    · exact hw
  · exact hw

/-! ## Runs -/

theorem WorldOk.step (hw : WorldOk tailBytes w) (e : Event) : WorldOk tailBytes (step tailBytes w e) := by
  cases e with
  | record r => exact hw.record r
  | forget => exact ⟨hw.node, ⟨hw.flight.requests, hw.flight.answers, hw.flight.awaiting⟩, hw.server⟩
  | send => exact hw.send
  | handle i => exact hw.handle i
  | arrive i throws => exact hw.arrive i throws
  | giveUp => exact hw.giveUp
  | pull stream => exact (hw.takeOver stream).turn stream
  | stop stream => exact hw.stop stream
  | read bytes throws => exact hw.read bytes throws
  | cut => exact hw.cut
  | abort => exact hw.finish

theorem run_ok (tailBytes : Nat) (attach : Bool) (es : List Event) : WorldOk tailBytes (run tailBytes attach es) :=
  Run.exec_invariant (WorldOk tailBytes) (fun _ e hw => hw.step e) (.start tailBytes attach) es

end

/-- **Exec output survives link drops.** In every run the node's view and end are those of the
command's history, and the server is at a record boundary of it: what it took is each record in
turn, a view standing for the records it jumped, and what it handed to `onUpdate` adds up to the
node's view there. -/
theorem exec_resumes (tailBytes : Nat) (attach : Bool) (es : List Event) :
    (∀ exec, (run tailBytes attach es).exec = some exec → exec.view = viewOf (run tailBytes attach es).history ∧
      exec.end_ = size (run tailBytes attach es).history) ∧
    ∃ n ≤ (run tailBytes attach es).history.length, (run tailBytes attach es).server.taken
        = size ((run tailBytes attach es).history.take n) ∧
      Follows (run tailBytes attach es).history (run tailBytes attach es).server.applied n ∧
      ((run tailBytes attach es).server.callbackError = false → viewOfUpdates (run tailBytes attach es).server.handed
          = viewOf ((run tailBytes attach es).history.take n)) := by
  obtain ⟨⟨hk, -, -⟩, -, n, t, -⟩ := run_ok tailBytes attach es
  refine ⟨fun exec he => ?_, n, t.logged.follows.le, t.taken, t.logged.follows, fun hc => ?_⟩
  · rw [he, Option.getD_some] at hk
    exact ⟨hk.view, hk.end_⟩
  · rw [t.logged.handed hc]
    exact t.logged.follows.view_eq

end Reins.PiExec
