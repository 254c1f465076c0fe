import Mathlib.Data.List.Range
import Reins.NodeProtocol.RpcPeer
import Reins.Lib.Places

/-!
# The peer's bookkeeping

A call is waiting or settled, never both and never twice: the calls that wait and the settlements,
together, are every call once (`Books.calls`). The rest of the invariant says which ids there are:
the waiting ones and the remembered ones are among those given out, apart from each other.
-/

open Utf Schema List

namespace Reins.Rpc

/-- A table's entry under a key, and the entries under the others. -/
theorem perm_cons_filter {α β : Type} [DecidableEq β] (key : α → β) {l : List α}
    (hd : (l.map key).Nodup) {x : α} (hx : x ∈ l) :
    l.Perm (x :: l.filter fun y => key y ≠ key x) := by
  induction l with
  | nil => cases hx
  | cons y l ih =>
    rw [map_cons, nodup_cons] at hd
    rcases mem_cons.mp hx with rfl | hx
    · have hall : l.filter (fun y => decide (key y ≠ key x)) = l := by
        rw [filter_eq_self]
        intro z hz
        have : key z ≠ key x := fun e => hd.1 (e ▸ mem_map_of_mem hz)
        simpa using this
      rw [filter_cons_of_neg (by simp), hall]
    · have hne : key y ≠ key x := fun e => hd.1 (e ▸ mem_map_of_mem hx)
      rw [filter_cons_of_pos (by simpa using hne)]
      exact ((ih hd.2 hx).cons y).trans (List.Perm.swap _ _ _)

structure Books (closed : Bool) (nextId calls : Nat) (pending : List Pending)
    (expired : List JsString) (settled : List Settlement) (issued : List (Nat × JsString)) :
    Prop where
  ids : issued.map Prod.snd = (List.range nextId).map fun k => rpcId (k + 1)
  callers : (issued.map Prod.fst).Nodup ∧ ∀ c ∈ issued.map Prod.fst, c < calls
  own : ∀ c ∈ pending, (c.call, c.id) ∈ issued
  distinct : (pending.map Pending.id).Nodup
  apart : ∀ c ∈ pending, c.id ∉ expired
  remembered : ∀ id ∈ expired, id ∈ issued.map Prod.snd
  forgotten : expired.Nodup
  expired_le : expired.length ≤ MAX_EXPIRED
  pending_le : pending.length ≤ MAX_IN_FLIGHT
  closed : closed = true → pending = []
  calls : (pending.map Pending.call ++ settled.map Settlement.call).Perm (List.range calls)
  replied : ∀ s ∈ settled, ∀ id, s.cause = .reply id → (s.call, id.key) ∈ issued
  abandoned : ∀ s ∈ settled, ∀ id, s.cause = .abandoned id → (s.call, id) ∈ issued

def Peer.Books (p : Peer) : Prop := Rpc.Books p.closed p.nextId p.calls p.pending p.expired p.settled p.issued

structure Handlers (inbound dispatched : Nat) (handling : List Handling) : Prop where
  count : inbound = handling.length
  le : inbound ≤ MAX_IN_FLIGHT
  distinct : (handling.map Handling.number).Nodup
  lt : ∀ h ∈ handling, h.number < dispatched

def Peer.Handlers (p : Peer) : Prop := Rpc.Handlers p.inbound p.dispatched p.handling

section

variable {cfg : Config} {p : Peer}

/-! ## Calls -/

theorem Peer.Books.fresh : Peer.fresh.Books := by
  constructor <;> simp [Peer.fresh]

theorem issued_nodup {closed : Bool} {nextId calls : Nat} {pending : List Pending}
    {expired : List JsString} {settled : List Settlement} {issued : List (Nat × JsString)}
    (b : Rpc.Books closed nextId calls pending expired settled issued) :
    (issued.map Prod.snd).Nodup := by
  rw [b.ids]
  refine nodup_range.map fun m n h => ?_
  have := rpcId_inj.mp h
  omega

theorem Peer.Books.issued_inj (b : p.Books) {call : Nat} {i j : JsString}
    (hi : (call, i) ∈ p.issued) (hj : (call, j) ∈ p.issued) : i = j :=
  congrArg Prod.snd (inj_on_of_nodup_map b.callers.1 hi hj rfl)

theorem Peer.Books.settled_lt (b : p.Books) {s : Settlement} (hs : s ∈ p.settled) : s.call < p.calls := by
  have hmem : s.call ∈ p.pending.map Pending.call ++ p.settled.map Settlement.call :=
    mem_append_right _ (mem_map_of_mem hs)
  exact mem_range.mp (b.calls.mem_iff.mp hmem)

theorem Peer.Books.refused (b : p.Books) (cause : Cause) (outcome : Except RpcFailure Value)
    (h1 : ∀ id, cause ≠ .reply id) (h2 : ∀ id, cause ≠ .abandoned id) :
    ({ p with calls := p.calls + 1 }.settle p.calls cause outcome).Books := by
  refine { b with callers := ⟨b.callers.1, fun c hc => Nat.lt_succ_of_lt (b.callers.2 c hc)⟩, calls := ?_, replied := fun s hs id hid => ?_, abandoned := fun s hs id hid => ?_ }
  · simp only [Peer.settle, map_append, map_cons, map_nil, ← append_assoc, range_succ]
    exact b.calls.append_right _
  · rcases mem_append.mp hs with hs | hs
    · exact b.replied s hs id hid
    · rw [mem_singleton.mp hs] at hid
      exact absurd hid (h1 id)
  · rcases mem_append.mp hs with hs | hs
    · exact b.abandoned s hs id hid
    · rw [mem_singleton.mp hs] at hid
      exact absurd hid (h2 id)

theorem Peer.Books.fail (b : p.Books) : p.fail.Books := by
  unfold Peer.fail
  split
  · exact b
  refine ⟨b.ids, b.callers, by simp, by simp, by simp, b.remembered, b.forgotten, b.expired_le,
    Nat.zero_le _, fun _ => rfl, ?_, fun s hs id hid => ?_, fun s hs id hid => ?_⟩
  · simp only [map_nil, nil_append, map_append, map_map]
    exact perm_append_comm.trans b.calls
  · rcases mem_append.mp hs with hs | hs
    · exact b.replied s hs id hid
    · obtain ⟨c, -, rfl⟩ := mem_map.mp hs
      cases hid
  · rcases mem_append.mp hs with hs | hs
    · exact b.abandoned s hs id hid
    · obtain ⟨c, -, rfl⟩ := mem_map.mp hs
      cases hid

theorem Peer.Books.issue (b : p.Books) : ((p.issued ++ [(p.calls, rpcId (p.nextId + 1))]).map Prod.snd
        = (List.range (p.nextId + 1)).map fun k => rpcId (k + 1)) ∧
      (((p.issued ++ [(p.calls, rpcId (p.nextId + 1))]).map Prod.fst).Nodup ∧
        ∀ c ∈ (p.issued ++ [(p.calls, rpcId (p.nextId + 1))]).map Prod.fst, c < p.calls + 1) ∧
      rpcId (p.nextId + 1) ∉ p.issued.map Prod.snd := by
  refine ⟨?_, ⟨?_, fun c hc => ?_⟩, fun hmem => ?_⟩
  · simp [b.ids, range_succ]
  · rw [map_append]
    refine nodup_append.mpr ⟨b.callers.1, by simp, fun c hc d hd => ?_⟩
    have := b.callers.2 c hc
    rw [map_singleton, mem_singleton] at hd
    simp only at hd
    omega
  · rw [map_append, mem_append] at hc
    rcases hc with hc | hc
    · exact Nat.lt_succ_of_lt (b.callers.2 c hc)
    rw [map_singleton, mem_singleton] at hc
    simp only at hc ⊢
    omega
  · rw [b.ids] at hmem
    obtain ⟨k, hk, e⟩ := mem_map.mp hmem
    have := rpcId_inj.mp e
    have := mem_range.mp hk
    omega

theorem Peer.Books.call (b : p.Books) (r : CallRequest) (throws : Bool) : (p.call cfg throws r).Books := by
  obtain ⟨hids, hcallers, hnew⟩ := b.issue
  have hgrow : ∀ x ∈ p.issued, x ∈ p.issued ++ [(p.calls, rpcId (p.nextId + 1))] :=
    fun x hx => mem_append_left _ hx
  have hknown : ∀ id ∈ p.issued.map Prod.snd, id ∈ (p.issued ++ [(p.calls, rpcId (p.nextId + 1))]).map Prod.snd := by
    intro id hid
    rw [map_append]
    exact mem_append_left _ hid
  -- The call given its id, and settled at once: its frame was not taken.
  have hfailed : ∀ outcome : Except RpcFailure Value,
      ({ p with
        calls := p.calls + 1, nextId := p.nextId + 1,
        issued := p.issued ++ [(p.calls, rpcId (p.nextId + 1))] }.settle p.calls .sendFailed outcome).Books := by
    intro outcome
    have b' := b.refused .sendFailed outcome (by simp) (by simp)
    exact { b' with ids := hids, callers := hcallers, own := fun c hc => hgrow _ (b'.own c hc), remembered := fun id hid => hknown id (b'.remembered id hid), replied := fun s hs id hid => hgrow _ (b'.replied s hs id hid), abandoned := fun s hs id hid => hgrow _ (b'.abandoned s hs id hid) }
  unfold Peer.call
  simp only
  split
  · exact b.refused _ _ (by simp) (by simp)
  split
  · exact b.refused _ _ (by simp) (by simp)
  split
  · exact b.refused _ _ (by simp) (by simp)
  rename_i hopen hcap _
  split
  · refine ⟨hids, hcallers, fun c hc => ?_, ?_, fun c hc => ?_, fun id hid => ?_, b.forgotten,
      b.expired_le, ?_, fun hc => absurd hc hopen, ?_,
      fun s hs id hid => hgrow _ (b.replied s hs id hid),
      fun s hs id hid => hgrow _ (b.abandoned s hs id hid)⟩
    · rcases Places.mem_concat_cases hc with hc | rfl
      · exact hgrow _ (b.own c hc)
      · exact mem_append_right _ (mem_singleton_self _)
    · rw [map_append]
      refine nodup_append.mpr ⟨b.distinct, by simp, fun i hi j hj => ?_⟩
      rw [map_singleton, mem_singleton] at hj
      rintro rfl
      obtain ⟨c, hc, rfl⟩ := mem_map.mp hi
      have hmem : c.id ∈ p.issued.map Prod.snd := mem_map_of_mem (b.own c hc)
      rw [hj] at hmem
      exact hnew hmem
    · rcases Places.mem_concat_cases hc with hc | rfl
      · exact b.apart c hc
      · exact fun hmem => hnew (b.remembered _ hmem)
    · exact hknown id (b.remembered id hid)
    · rw [length_append]
      simp only [length_singleton]
      omega
    · simp only [Peer.send, map_append, map_cons, map_nil, range_succ, append_assoc]
      refine (List.Perm.append_left _ perm_append_comm).trans ?_
      rw [← append_assoc]
      exact b.calls.append_right _
  · exact hfailed _
  · exact (hfailed _).fail

/-! ## Leaving the table -/

theorem Peer.Books.drop (b : p.Books) {id : JsString} {c : Pending} (hc : p.waiting id = some c) :
    c.id = id ∧ c ∈ p.pending ∧ p.pending.Perm (c :: (p.drop id).pending) := by
  have hid : c.id = id := by simpa using find?_some hc
  have hmem : c ∈ p.pending := mem_of_find?_eq_some hc
  refine ⟨hid, hmem, ?_⟩
  have := perm_cons_filter Pending.id b.distinct hmem
  rwa [hid] at this

/-- A call leaves the table and is settled; what is remembered may change with it. -/
theorem Peer.Books.settle (b : p.Books) {id : JsString} {c : Pending} (hc : p.waiting id = some c)
    {cause : Cause} (outcome : Except RpcFailure Value) {expired : List JsString}
    (h1 : ∀ i, cause = .reply i → i.key = id) (h2 : ∀ i, cause = .abandoned i → i = id)
    (hn : expired.Nodup) (hl : expired.length ≤ MAX_EXPIRED)
    (hsub : ∀ i ∈ expired, i ∈ p.expired ∨ i = id) :
    ({ p.drop id with expired := expired }.settle c.call cause outcome).Books := by
  obtain ⟨hid, hmem, hperm⟩ := b.drop hc
  have hown := b.own c hmem
  rw [hid] at hown
  have hrest : ∀ d ∈ (p.drop id).pending, d ∈ p.pending ∧ d.id ≠ id := by
    intro d hd
    simpa [Peer.drop] using hd
  refine ⟨b.ids, b.callers, fun d hd => b.own d (hrest d hd).1,
    b.distinct.sublist (filter_sublist.map _), fun d hd => ?_, fun i hi => ?_, hn, hl, ?_,
    fun hcl => ?_, ?_, fun s hs i hi => ?_, fun s hs i hi => ?_⟩
  · intro hex
    rcases hsub _ hex with h | h
    · exact b.apart d (hrest d hd).1 h
    · exact (hrest d hd).2 h
  · rcases hsub i hi with h | rfl
    · exact b.remembered i h
    · exact mem_map_of_mem hown
  · exact (filter_sublist.length_le).trans b.pending_le
  · rw [b.closed hcl] at hmem
    cases hmem
  · simp only [Peer.settle, map_append, map_cons, map_nil]
    refine List.Perm.trans ?_ b.calls
    have := (hperm.map Pending.call).symm.append_right (p.settled.map Settlement.call)
    refine List.Perm.trans ?_ this
    rw [← append_assoc, map_cons, cons_append]
    exact perm_append_singleton _ _
  · rcases mem_append.mp hs with hs | hs
    · exact b.replied s hs i hi
    rw [mem_singleton.mp hs] at hi ⊢
    rw [h1 i hi]
    exact hown
  · rcases mem_append.mp hs with hs | hs
    · exact b.abandoned s hs i hi
    rw [mem_singleton.mp hs] at hi ⊢
    rw [h2 i hi]
    exact hown

/-- The set keeps its cap: it holds no id twice, and forgets its oldest. -/
theorem remember_spec {expired : List JsString} (hn : expired.Nodup)
    (hl : expired.length ≤ MAX_EXPIRED) (id : JsString) :
    (remember expired id).Nodup ∧ (remember expired id).length ≤ MAX_EXPIRED ∧
      ∀ i ∈ remember expired id, i ∈ expired ∨ i = id := by
  have hadd : (if id ∈ expired then expired else expired ++ [id]).Nodup ∧
      (if id ∈ expired then expired else expired ++ [id]).length ≤ MAX_EXPIRED + 1 ∧
      ∀ i ∈ (if id ∈ expired then expired else expired ++ [id]), i ∈ expired ∨ i = id := by
    split
    · exact ⟨hn, by omega, fun i hi => Or.inl hi⟩
    rename_i hid
    refine ⟨?_, by simp; omega, fun i hi => by simpa using hi⟩
    refine nodup_append.mpr ⟨hn, by simp, fun i hi j hj => ?_⟩
    rintro rfl
    exact hid (mem_singleton.mp hj ▸ hi)
  unfold remember
  simp only
  generalize (if id ∈ expired then expired else expired ++ [id]) = l at hadd
  obtain ⟨h1, h2, h3⟩ := hadd
  split
  · exact ⟨h1.tail, by rw [length_tail]; omega, fun i hi => h3 i (mem_of_mem_tail hi)⟩
  · exact ⟨h1, by omega, h3⟩

theorem Peer.Books.abandon (b : p.Books) (id : JsString) (why : Abandonment) : (p.abandon id why).Books := by
  unfold Peer.abandon
  split
  · exact b
  next c hc =>
    obtain ⟨hn, hl, hsub⟩ := remember_spec b.forgotten b.expired_le id
    exact b.settle hc _ (by simp) (by simp) hn hl hsub

/-! ## Frames -/

/-- A reply's id is looked up: the cases of `Peer.reply`. -/
theorem Peer.Books.reply (b : p.Books) (id : Id) {settle : Peer → Pending → Peer}
    (h : ∀ c, p.waiting id.key = some c → (settle (p.drop id.key) c).Books) :
    (p.reply id settle).Books := by
  unfold Peer.reply
  split
  · split
    next hmem =>
      exact { b with apart := fun c hc hex => b.apart c hc (mem_of_mem_erase hex), remembered := fun i hi => b.remembered i (mem_of_mem_erase hi), forgotten := b.forgotten.erase _, expired_le := (length_erase_le).trans b.expired_le }
    · exact b.fail
  next c hc =>
    exact h c hc

theorem Peer.Books.replied_to (b : p.Books) {id : Id} {c : Pending}
    (hc : p.waiting id.key = some c) (outcome : Except RpcFailure Value) :
    ((p.drop id.key).settle c.call (.reply id) outcome).Books :=
  b.settle hc outcome (by simp) (by simp) b.forgotten b.expired_le fun _ hi => Or.inl hi

theorem Peer.Books.result (b : p.Books) (id : Id) (value : Value) : (p.result id value).Books := by
  refine b.reply id fun c hc => ?_
  split
  · exact (b.replied_to hc _).fail
  next v hv =>
    rw [c.schema.again hv]
    exact b.replied_to hc _

theorem Peer.Books.error (b : p.Books) (id : Id) (code : SafeInt) (message : JsString)
    (data : Value) : (p.error id code message data).Books := by
  refine b.reply id fun c hc => ?_
  split
  · exact (b.replied_to hc _).fail
  split
  · exact (b.replied_to hc _).fail
  · exact b.replied_to hc _

theorem Peer.Books.request (b : p.Books) (throws : Bool) (id : Id) (method : JsString)
    (params : Value) : (p.request cfg throws id method params).Books := by
  have hrefuse : ∀ request code message, (p.refuse cfg throws request id code message).Books := by
    intro request code message
    unfold Peer.refuse
    simp only
    split <;> exact b
  unfold Peer.request
  simp only
  split
  · exact b
  · exact hrefuse _ _ _
  · exact hrefuse _ _ _
  · split
    · exact hrefuse _ _ _
    split
    · exact hrefuse _ _ _
    · exact b

theorem Peer.Books.notification (b : p.Books) (method : JsString) (params : Value) :
    (p.notification cfg method params).Books := by
  unfold Peer.notification
  split
  · exact b
  split
  · split <;> exact b
  · exact b

theorem Peer.Books.take (b : p.Books) (throws : Bool) (f : Frame) : (p.take cfg throws f).Books := by
  cases f with
  | request id method params => exact b.request throws id method params
  | notification method params => exact b.notification method params
  | result id value => exact b.result id value
  | error id code message data => exact b.error id code message data

theorem Peer.Books.receive (b : p.Books) (throws : Bool) (data : Data) : (p.receive cfg throws data).Books := by
  have b' : { p with heard := true }.Books := b
  unfold Peer.receive
  split
  · exact b
  simp only
  split
  · exact b'.fail
  split
  · exact b'.fail
  split
  · exact b'.fail
  · exact b'.take throws _

theorem Peer.Books.step (b : p.Books) (e : Event) : (step cfg p e).Books := by
  cases e with
  | call r throws => exact b.call r throws
  | abandon n why => exact b.abandon _ why
  | receive data throws => exact b.receive throws data
  | close => exact b.fail
  | notify method params throws =>
    simp only [Rpc.step, Peer.notify]
    split
    · exact b
    split
    · exact b
    · exact b
    · exact b.fail
  | finish number o throws throwsAgain =>
    simp only [Rpc.step, Peer.finish]
    split
    · exact b
    split
    · exact b
    · split <;> exact b
  | release number =>
    simp only [Rpc.step, Peer.release]
    split <;> exact b
  | beat throws =>
    have b' : ∀ heard missed, { p with heard := heard, missed := missed }.Books := fun _ _ => b
    simp only [Rpc.step, Peer.beat]
    split
    · exact b
    split
    · exact (b' p.heard p.silence).fail
    split
    · exact b' false p.silence
    · exact (b' false p.silence).fail

/-! ## Handlers -/

theorem Peer.Handlers.fresh : Peer.fresh.Handlers := by
  constructor <;> simp [Peer.fresh]

theorem Peer.Handlers.fail (h : p.Handlers) : p.fail.Handlers := by
  unfold Peer.fail
  split <;> exact h

theorem Peer.Handlers.request (h : p.Handlers) (throws : Bool) (id : Id) (method : JsString)
    (params : Value) : (p.request cfg throws id method params).Handlers := by
  have hrefuse : ∀ request code message, (p.refuse cfg throws request id code message).Handlers := by
    intro request code message
    unfold Peer.refuse
    simp only
    split <;> exact h
  unfold Peer.request
  simp only
  split
  · exact h
  · exact hrefuse _ _ _
  · exact hrefuse _ _ _
  split
  · exact hrefuse _ _ _
  split
  · exact hrefuse _ _ _
  rename_i hbusy
  refine ⟨?_, by simp only; omega, ?_, fun x hx => ?_⟩
  · simp [h.count]
  · rw [map_append]
    refine nodup_append.mpr ⟨h.distinct, by simp, fun i hi j hj => ?_⟩
    rw [map_singleton, mem_singleton] at hj
    obtain ⟨x, hx, rfl⟩ := mem_map.mp hi
    have := h.lt x hx
    simp only at hj
    omega
  · rcases Places.mem_concat_cases hx with hx | rfl
    · exact Nat.lt_succ_of_lt (h.lt x hx)
    · exact Nat.lt_succ_self _

theorem Peer.Handlers.notification (h : p.Handlers) (method : JsString) (params : Value) :
    (p.notification cfg method params).Handlers := by
  unfold Peer.notification
  split
  · exact h
  split
  · split <;> exact h
  · exact h

theorem Peer.Handlers.result (h : p.Handlers) (id : Id) (value : Value) : (p.result id value).Handlers := by
  unfold Peer.result Peer.reply
  split
  · split
    · exact h
    · exact h.fail
  simp only
  split
  · exact Peer.Handlers.fail h
  · split <;> exact h

theorem Peer.Handlers.error (h : p.Handlers) (id : Id) (code : SafeInt) (message : JsString)
    (data : Value) : (p.error id code message data).Handlers := by
  unfold Peer.error Peer.reply
  split
  · split
    · exact h
    · exact h.fail
  simp only
  split
  · exact Peer.Handlers.fail h
  split
  · exact Peer.Handlers.fail h
  · exact h

theorem Peer.Handlers.take (h : p.Handlers) (throws : Bool) (f : Frame) : (p.take cfg throws f).Handlers := by
  cases f with
  | request id method params => exact h.request throws id method params
  | notification method params => exact h.notification method params
  | result id value => exact h.result id value
  | error id code message data => exact h.error id code message data

theorem Peer.Handlers.receive (h : p.Handlers) (throws : Bool) (data : Data) :
    (p.receive cfg throws data).Handlers := by
  have h' : { p with heard := true }.Handlers := h
  unfold Peer.receive
  split
  · exact h
  simp only
  split
  · exact h'.fail
  split
  · exact h'.fail
  split
  · exact h'.fail
  · exact h'.take throws _

theorem Peer.Handlers.finished (h : p.Handlers) (number : Nat) : (p.finished number).Handlers := by
  refine ⟨by simp [Peer.finished, h.count], h.le, ?_, fun x hx => ?_⟩
  · have hmap : (p.finished number).handling.map Handling.number = p.handling.map Handling.number := by
      rw [Peer.finished, map_map]
      refine map_congr_left fun x _ => ?_
      simp only [Function.comp_apply]
      split <;> rfl
    rw [hmap]
    exact h.distinct
  · obtain ⟨y, hy, rfl⟩ := mem_map.mp hx
    split
    · exact h.lt y hy
    · exact h.lt y hy

theorem Peer.Handlers.finish (h : p.Handlers) (throws throwsAgain : Bool) (number : Nat)
    (o : Outcome) : (p.finish cfg throws throwsAgain number o).Handlers := by
  have h' := h.finished number
  unfold Peer.finish
  split
  · exact h
  simp only
  split
  · exact h'
  · split <;> exact h'

theorem Peer.Handlers.release (h : p.Handlers) (number : Nat) : (p.release number).Handlers := by
  unfold Peer.release
  split
  · exact h
  rename_i x hx
  have hmem : x ∈ p.handling := mem_of_find?_eq_some hx
  have hnum : x.number = number := by
    have := find?_some hx
    simp only [decide_eq_true_eq] at this
    exact this.1
  have hlen : (p.handling.filter fun y => decide (y.number ≠ number)).length + 1 = p.handling.length := by
    have := (perm_cons_filter Handling.number h.distinct hmem).length_eq
    rw [hnum] at this
    exact this.symm
  refine ⟨?_, (Nat.sub_le _ _).trans h.le, h.distinct.sublist (filter_sublist.map _),
    fun y hy => h.lt y (mem_filter.mp hy).1⟩
  simp only
  rw [h.count, ← hlen]
  rfl

theorem Peer.Handlers.step (h : p.Handlers) (e : Event) : (step cfg p e).Handlers := by
  cases e with
  | receive data throws => exact h.receive throws data
  | finish number o throws throwsAgain => exact h.finish throws throwsAgain number o
  | release number => exact h.release number
  | close => exact h.fail
  | abandon n why =>
    simp only [Rpc.step, Peer.abandon]
    split <;> exact h
  | notify method params throws =>
    simp only [Rpc.step, Peer.notify]
    split
    · exact h
    split
    · exact h
    · exact h
    · exact h.fail
  | beat throws =>
    have h' : ∀ heard missed, { p with heard := heard, missed := missed }.Handlers := fun _ _ => h
    simp only [Rpc.step, Peer.beat]
    split
    · exact h
    split
    · exact (h' p.heard p.silence).fail
    split
    · exact h' false p.silence
    · exact (h' false p.silence).fail
  | call r throws =>
    simp only [Rpc.step, Peer.call]
    split
    · exact h
    split
    · exact h
    split
    · exact h
    split
    · exact h
    · exact h
    · exact Peer.Handlers.fail h

end

/-! ## Runs -/

theorem run_books (cfg : Config) (es : List Event) : (run cfg es).Books :=
  Run.exec_invariant Peer.Books (fun _ e b => b.step e) .fresh es

theorem run_handlers (cfg : Config) (es : List Event) : (run cfg es).Handlers :=
  Run.exec_invariant Peer.Handlers (fun _ e h => h.step e) .fresh es

def Frame.replyId : Frame → Option Id
  | .result id _ => some id
  | .error id _ _ _ => some id
  | _ => none

/-- A peer's books, as they are kept in every state. `handling` are the handlers still running: one
runs until its `finally`. -/
structure Peer.Kept (cfg : Config) (p : Peer) : Prop where
  once : ∀ c < p.calls, (p.settled.map Settlement.call).count c = if c ∈ p.pending.map Pending.call then 0 else 1
  /-- Ids are given to one call each, and a call is settled by the reply or the abandonment of its
  own. -/
  issued : (p.issued.map Prod.fst).Nodup ∧ (p.issued.map Prod.snd).Nodup
  replied : ∀ s ∈ p.settled, ∀ id, s.cause = .reply id → (s.call, id.key) ∈ p.issued
  abandoned : ∀ s ∈ p.settled, ∀ id, s.cause = .abandoned id → (s.call, id) ∈ p.issued
  apart : ∀ c ∈ p.pending, c.id ∉ p.expired
  pending_le : p.pending.length ≤ MAX_IN_FLIGHT
  expired_le : p.expired.length ≤ MAX_EXPIRED
  closed : p.closed = true → p.pending = []
  inbound : p.inbound = p.handling.length ∧ p.inbound ≤ MAX_IN_FLIGHT
  /-- A reply to an id that is remembered leaves the link open; one to an id never given out closes
  it. -/
  late : p.closed = false → ∀ t f id throws, byteLength t ≤ cfg.maxFrameBytes →
    (Json.parse t).bind Frame.read = some f → f.replyId = some id →
      (id.key ∈ p.expired → (p.receive cfg throws (.text t)).closed = false) ∧
      (id.key ∉ p.issued.map Prod.snd → (p.receive cfg throws (.text t)).closed = true)

theorem fail_closed (p : Peer) : p.fail.closed = true := by
  unfold Peer.fail
  split
  · assumption
  · rfl

theorem reply_unknown {p : Peer} {id : Id} (h : p.waiting id.key = none) (settle : Peer → Pending → Peer) :
    p.reply id settle = if id.key ∈ p.expired then { p with expired := p.expired.erase id.key }
      else p.fail := by
  rw [Peer.reply, h]

theorem Peer.Books.late {cfg : Config} {p : Peer} (b : p.Books) (hopen : p.closed = false)
    {t : List Char} {f : Frame} {id : Id} (throws : Bool) (ht : byteLength t ≤ cfg.maxFrameBytes)
    (hf : (Json.parse t).bind Frame.read = some f) (hid : f.replyId = some id) :
    (id.key ∈ p.expired → (p.receive cfg throws (.text t)).closed = false) ∧
      (id.key ∉ p.issued.map Prod.snd → (p.receive cfg throws (.text t)).closed = true) := by
  have hreceive : p.receive cfg throws (.text t) = { p with heard := true }.take cfg throws f := by
    rw [Peer.receive, if_neg (by simp [hopen])]
    simp [if_neg (Nat.not_lt.mpr ht), hf]
  have hnone : id.key ∈ p.expired ∨ id.key ∉ p.issued.map Prod.snd →
      { p with heard := true }.waiting id.key = none := by
    intro hor
    rw [Peer.waiting, find?_eq_none]
    intro c hc he
    have he : c.id = id.key := by simpa using he
    rcases hor with h | h
    · exact b.apart c hc (he ▸ h)
    · exact h (he ▸ mem_map_of_mem (b.own c hc))
  have key : ∀ settle, (id.key ∈ p.expired → ({ p with heard := true }.reply id settle).closed = false) ∧
      (id.key ∉ p.issued.map Prod.snd → ({ p with heard := true }.reply id settle).closed = true) := by
    refine fun settle => ⟨fun h => ?_, fun h => ?_⟩
    · rw [reply_unknown (hnone (Or.inl h)), if_pos h]
      exact hopen
    · rw [reply_unknown (hnone (Or.inr h)), if_neg fun hmem => h (b.remembered _ hmem)]
      exact fail_closed _
  rw [hreceive]
  cases f with
  | request | notification => exact absurd hid (by simp [Frame.replyId])
  | result i value =>
    cases hid
    exact key _
  | error i code message data =>
    cases hid
    exact key _

/-- **The peer's bookkeeping**, for every order of calls, timeouts, aborts, frames, send failures and
a close. -/
theorem bookkeeping (cfg : Config) (es : List Event) : (run cfg es).Kept cfg := by
  have b := run_books cfg es
  have h := run_handlers cfg es
  refine ⟨fun c hc => ?_, ⟨b.callers.1, issued_nodup b⟩, b.replied, b.abandoned, b.apart,
    b.pending_le, b.expired_le, b.closed, ⟨h.count, h.le⟩,
    fun hopen t f id throws ht hf hid => b.late hopen throws ht hf hid⟩
  have hcount := b.calls.count_eq c
  rw [count_append, count_eq_one_of_mem nodup_range (mem_range.mpr hc)] at hcount
  split
  next hmem =>
    have := count_pos_iff.mpr hmem
    omega
  next hmem =>
    have := count_eq_zero.mpr hmem
    omega

end Reins.Rpc
