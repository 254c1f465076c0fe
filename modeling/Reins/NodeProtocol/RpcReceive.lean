import Reins.NodeProtocol.RpcCalls

/-!
# What escapes the peer

A frame that is answered at once is answered from inside `receive`, and a handler's failure from
inside a `catch` that nothing catches after: where `send` throws there, the exception leaves the
peer. A method that every object inherits is looked up and found, and has no schema to parse with.
`Taken` says of a step that none of this happens, in terms of what the step is given.
-/

open Utf Schema List

namespace Reins.Rpc

def refusal (cfg : Config) (p : Peer) (method : JsString) (params : Value) : Option (SafeInt × String) :=
  match cfg.handler method with
  | .inherited => none
  | .missing | .own (.notification _) => some (METHOD_NOT_FOUND, "Method not found")
  | .own (.request schema _) =>
    match schema params with
    | none => some (INVALID_PARAMS, "Invalid params")
    | some _ => if MAX_IN_FLIGHT ≤ p.inbound then some (BUSY, "Busy") else none

def RequestTaken (cfg : Config) (p : Peer) (throws : Bool) (id : Id) (method : JsString) (params : Value) : Prop :=
  cfg.handler method ≠ .inherited ∧ ∀ code message, refusal cfg p method params = some (code, message) →
    cfg.sendError throws (.error id code (js message) none) = none

/-- Nothing escapes the step: the request it receives is taken, and where the handler that settles
fails, or its result cannot be sent, the error reply can be. -/
def Taken (cfg : Config) (p : Peer) : Event → Prop
  | .receive (.text t) throws => p.closed = false → byteLength t ≤ cfg.maxFrameBytes →
    ∀ id method params, (Json.parse t).bind Frame.read = some (.request id method params) →
      RequestTaken cfg p throws id method params
  | .finish number o throws throwsAgain => p.closed = false →
    ∀ h, (p.handling.find? fun h => h.number = number ∧ h.done = false) = some h →
      ∀ failure, cfg.answer throws h o = .error failure → cfg.sendError throwsAgain (errorReply h.id failure) = none
  | _ => True

def Peer.Quiet (p : Peer) : Prop := p.threw = [] ∧ p.unhandled = []

section

variable {cfg : Config} {p : Peer}

theorem Peer.quiet_fail : p.fail.Quiet ↔ p.Quiet := by
  unfold Peer.fail
  split <;> exact Iff.rfl

theorem Peer.quiet_threw {f : Frame} : ¬ { p with threw := p.threw ++ [f] }.Quiet := by
  simp [Peer.Quiet]

theorem Peer.quiet_refuse {throws : Bool} {request : Frame} {id : Id} {code : SafeInt} {message : String} :
    (p.refuse cfg throws request id code message).Quiet ↔
      p.Quiet ∧ cfg.sendError throws (.error id code (js message) none) = none := by
  unfold Peer.refuse
  simp only
  split
  next h =>
    exact ⟨fun hq => ⟨hq, h⟩, And.left⟩
  rename_i h
  refine ⟨fun hq => absurd hq Peer.quiet_threw, fun hq => ?_⟩
  rw [hq.2] at h
  cases h

theorem Peer.quiet_request {throws : Bool} {id : Id} {method : JsString} {params : Value} :
    (p.request cfg throws id method params).Quiet ↔ p.Quiet ∧ RequestTaken cfg p throws id method params := by
  unfold Peer.request RequestTaken refusal
  simp only
  cases hm : cfg.handler method with
  | inherited => simp [Peer.quiet_threw]
  | missing => simp [Peer.quiet_refuse]
  | own h =>
    cases h with
    | notification schema => simp [Peer.quiet_refuse]
    | request schema result =>
      cases hs : schema params with
      | none => simp [hs, Peer.quiet_refuse]
      | some parsed =>
        by_cases hb : MAX_IN_FLIGHT ≤ p.inbound
        · simp [hs, hb, Peer.quiet_refuse]
        · simp [hs, hb, Peer.Quiet]

theorem Peer.quiet_reply {id : Id} {settle : Peer → Pending → Peer}
    (h : ∀ c, (settle (p.drop id.key) c).Quiet ↔ p.Quiet) : (p.reply id settle).Quiet ↔ p.Quiet := by
  unfold Peer.reply
  split
  · split
    · exact Iff.rfl
    · exact Peer.quiet_fail
  · exact h _

theorem Peer.quiet_result {id : Id} {value : Value} : (p.result id value).Quiet ↔ p.Quiet := by
  refine Peer.quiet_reply fun c => ?_
  split
  · exact Peer.quiet_fail
  next v hv =>
    rw [c.schema.again hv]
    exact Iff.rfl

theorem Peer.quiet_error {id : Id} {code : SafeInt} {message : JsString} {data : Value} :
    (p.error id code message data).Quiet ↔ p.Quiet := by
  refine Peer.quiet_reply fun c => ?_
  split
  · exact Peer.quiet_fail
  split
  · exact Peer.quiet_fail
  · exact Iff.rfl

theorem Peer.quiet_notification {method : JsString} {params : Value} :
    (p.notification cfg method params).Quiet ↔ p.Quiet := by
  unfold Peer.notification
  split
  · exact Iff.rfl
  split
  · split <;> exact Iff.rfl
  · exact Iff.rfl

theorem Peer.quiet_receive {throws : Bool} {data : Data} :
    (p.receive cfg throws data).Quiet ↔ p.Quiet ∧ Taken cfg p (.receive data throws) := by
  have hheard : { p with heard := true }.Quiet ↔ p.Quiet := Iff.rfl
  by_cases hc : p.closed = true
  · rw [Peer.receive, if_pos hc]
    cases data with
    | binary => simp [Taken]
    | text t => simp [Taken, hc]
  have hopen : p.closed = false := by simpa using hc
  rw [Peer.receive, if_neg hc]
  cases data with
  | binary => simp [Taken, Peer.quiet_fail, hheard]
  | text t =>
    simp only
    by_cases hl : cfg.maxFrameBytes < byteLength t
    · rw [if_pos hl, Peer.quiet_fail, hheard]
      exact ⟨fun hq => ⟨hq, fun _ h => absurd h (by omega)⟩, And.left⟩
    rw [if_neg hl]
    have htaken : Taken cfg p (.receive (.text t) throws) ↔
        ∀ id method params, (Json.parse t).bind Frame.read = some (.request id method params) →
          RequestTaken cfg p throws id method params :=
      ⟨fun h => h hopen (by omega), fun h _ _ => h⟩
    rw [htaken]
    cases hf : (Json.parse t).bind Frame.read with
    | none => simp [Peer.quiet_fail, hheard]
    | some f =>
      cases f with
      | notification method params => simp [Peer.take, Peer.quiet_notification, hheard]
      | result id value => simp [Peer.take, Peer.quiet_result, hheard]
      | error id code message data => simp [Peer.take, Peer.quiet_error, hheard]
      | request id method params =>
        simp only [Peer.take, Peer.quiet_request, hheard]
        refine and_congr_right fun _ => ⟨fun h i m ps e => ?_, fun h => h _ _ _ rfl⟩
        cases Option.some.inj e
        exact h

theorem Peer.quiet_finish {throws throwsAgain : Bool} {number : Nat} {o : Outcome} :
    (p.finish cfg throws throwsAgain number o).Quiet ↔ p.Quiet ∧ Taken cfg p (.finish number o throws throwsAgain) := by
  unfold Peer.finish Taken
  split
  next hnone =>
    refine ⟨fun hq => ⟨hq, fun _ h hh => ?_⟩, And.left⟩
    rw [hnone] at hh
    cases hh
  rename_i h hh
  have hfin : (p.finished number).Quiet ↔ p.Quiet := Iff.rfl
  by_cases hc : p.closed = true
  · simp [hc, hfin]
  have hopen : p.closed = false := by simpa using hc
  simp only [hh, hopen, Option.some.injEq, forall_const, forall_eq']
  unfold Config.replyTo
  cases ha : cfg.answer throws h o with
  | ok f => simp [Peer.Quiet, Peer.send, Peer.finished]
  | error failure =>
    by_cases hs : cfg.sendError throwsAgain (errorReply h.id failure) = none
    · simp [hs, Peer.Quiet, Peer.send, Peer.finished]
    · simp [hs, Peer.Quiet, Peer.finished]

/-- **Nothing escapes a step exactly when it is taken.** -/
theorem Peer.quiet_step (e : Event) : (step cfg p e).Quiet ↔ p.Quiet ∧ Taken cfg p e := by
  cases e with
  | receive data throws => exact Peer.quiet_receive
  | finish number o throws throwsAgain => exact Peer.quiet_finish
  | close => simp [Rpc.step, Peer.quiet_fail, Taken]
  | abandon n why =>
    simp only [Rpc.step, Peer.abandon, Taken, and_true]
    split <;> exact Iff.rfl
  | release number =>
    simp only [Rpc.step, Peer.release, Taken, and_true]
    split <;> exact Iff.rfl
  | notify method params throws =>
    simp only [Rpc.step, Peer.notify, Taken, and_true]
    split
    · exact Iff.rfl
    split
    · exact Iff.rfl
    · exact Iff.rfl
    · exact Peer.quiet_fail
  | beat throws =>
    simp only [Rpc.step, Peer.beat, Taken, and_true]
    split
    · exact Iff.rfl
    split
    · exact Peer.quiet_fail
    split
    · exact Iff.rfl
    · exact Peer.quiet_fail
  | call r throws =>
    simp only [Rpc.step, Peer.call, Taken, and_true]
    split
    · exact Iff.rfl
    split
    · exact Iff.rfl
    split
    · exact Iff.rfl
    split
    · exact Iff.rfl
    · exact Iff.rfl
    · exact Peer.quiet_fail

end

/-! ## Replies -/

/-- A request's handler is still to be answered. -/
def Unanswered (handling : List Handling) (k : Nat) : Prop := ∃ h ∈ handling, h.number = k ∧ h.done = false

instance (handling : List Handling) (k : Nat) : Decidable (Unanswered handling k) :=
  inferInstanceAs (Decidable (∃ h ∈ handling, h.number = k ∧ h.done = false))

/-- Replies against the requests dispatched: none twice, none while its handler runs, and on an open
link none missing but what escaped. -/
structure Replies (closed : Bool) (dispatched : Nat) (handling : List Handling)
    (replies : List (Nat × Frame)) (unhandled : List Nat) : Prop where
  once : (replies.map Prod.fst).Nodup
  lt : ∀ k ∈ replies.map Prod.fst, k < dispatched
  waiting : ∀ k, Unanswered handling k → k ∉ replies.map Prod.fst
  answered : closed = false → ∀ k < dispatched, Unanswered handling k ∨ k ∈ replies.map Prod.fst ∨ k ∈ unhandled

def Peer.Replies (p : Peer) : Prop := Rpc.Replies p.closed p.dispatched p.handling p.replies p.unhandled

section

variable {cfg : Config} {p : Peer}

theorem Peer.Replies.fresh : Peer.fresh.Replies := by
  constructor <;> simp [Peer.fresh, Unanswered]

theorem Peer.Replies.fail (r : p.Replies) : p.fail.Replies := by
  unfold Peer.fail
  split
  · exact r
  · exact ⟨r.once, r.lt, r.waiting, fun h => absurd h (by simp)⟩

theorem Peer.Replies.dispatch (r : p.Replies) (inbound : Nat) {x : Handling}
    (hnum : x.number = p.dispatched) (hdone : x.done = false) :
    { p with
      inbound := inbound, dispatched := p.dispatched + 1,
      handling := p.handling ++ [x] }.Replies := by
  have hnew : ∀ k, Unanswered (p.handling ++ [x]) k ↔ Unanswered p.handling k ∨ k = p.dispatched := by
    refine fun k => ⟨fun ⟨h, hh, hk⟩ => ?_, fun hor => ?_⟩
    · rcases mem_append.mp hh with hh | hh
      · exact Or.inl ⟨h, hh, hk⟩
      · rw [mem_singleton.mp hh] at hk
        exact Or.inr (hk.1.symm.trans hnum)
    · rcases hor with ⟨h, hh, hk⟩ | rfl
      · exact ⟨h, mem_append_left _ hh, hk⟩
      · exact ⟨x, by simp, hnum, hdone⟩
  refine ⟨r.once, fun k hk => Nat.lt_succ_of_lt (r.lt k hk), fun k hk => ?_, fun hc k hk => ?_⟩
  · rcases (hnew k).mp hk with h | rfl
    · exact r.waiting k h
    · exact fun hmem => Nat.lt_irrefl _ (r.lt _ hmem)
  rcases Nat.lt_or_eq_of_le (Nat.le_of_lt_succ hk) with hlt | rfl
  · exact (r.answered hc k hlt).imp (fun h => (hnew k).mpr (Or.inl h)) id
  · exact Or.inl ((hnew _).mpr (Or.inr rfl))

theorem Peer.Replies.request (r : p.Replies) (throws : Bool) (id : Id) (method : JsString)
    (params : Value) : (p.request cfg throws id method params).Replies := by
  have hrefuse : ∀ request code message, (p.refuse cfg throws request id code message).Replies := by
    intro request code message
    unfold Peer.refuse
    simp only
    split <;> exact r
  unfold Peer.request
  simp only
  split
  · exact r
  · exact hrefuse _ _ _
  · exact hrefuse _ _ _
  split
  · exact hrefuse _ _ _
  split
  · exact hrefuse _ _ _
  · exact r.dispatch _ rfl rfl

theorem Peer.Replies.reply (r : p.Replies) (id : Id) {settle : Peer → Pending → Peer}
    (h : ∀ c, (settle (p.drop id.key) c).Replies) : (p.reply id settle).Replies := by
  unfold Peer.reply
  split
  · split
    · exact r
    · exact r.fail
  · exact h _

theorem Peer.Replies.take (r : p.Replies) (throws : Bool) (f : Frame) : (p.take cfg throws f).Replies := by
  cases f with
  | request id method params => exact r.request throws id method params
  | notification method params =>
    simp only [Peer.take, Peer.notification]
    split
    · exact r
    split
    · split <;> exact r
    · exact r
  | result id value =>
    refine r.reply id fun c => ?_
    split
    · exact Peer.Replies.fail r
    · split <;> exact r
  | error id code message data =>
    refine r.reply id fun c => ?_
    split
    · exact Peer.Replies.fail r
    split
    · exact Peer.Replies.fail r
    · exact r

theorem Peer.Replies.receive (r : p.Replies) (throws : Bool) (data : Data) : (p.receive cfg throws data).Replies := by
  have r' : { p with heard := true }.Replies := r
  unfold Peer.receive
  split
  · exact r
  simp only
  split
  · exact r'.fail
  split
  · exact r'.fail
  split
  · exact r'.fail
  · exact r'.take throws _

theorem unanswered_finished (number k : Nat) :
    Unanswered (p.finished number).handling k ↔ Unanswered p.handling k ∧ k ≠ number := by
  constructor
  · rintro ⟨h, hh, rfl, hd⟩
    obtain ⟨x, hx, rfl⟩ := mem_map.mp hh
    by_cases hn : x.number = number
    · simp [hn] at hd
    · simp only [if_neg hn] at hd ⊢
      exact ⟨⟨x, hx, rfl, hd⟩, hn⟩
  · rintro ⟨⟨x, hx, rfl, hd⟩, hn⟩
    refine ⟨x, mem_map.mpr ⟨x, hx, if_neg hn⟩, rfl, hd⟩

theorem Peer.Replies.finish (r : p.Replies) (hs : p.Handlers) (throws throwsAgain : Bool)
    (number : Nat) (o : Outcome) : (p.finish cfg throws throwsAgain number o).Replies := by
  unfold Peer.finish
  split
  · exact r
  rename_i h hh
  have hmem : h ∈ p.handling := mem_of_find?_eq_some hh
  have hnum : h.number = number ∧ h.done = false := by
    simpa using find?_some hh
  have hun : Unanswered p.handling number := ⟨h, hmem, hnum⟩
  have hlt : number < p.dispatched := hnum.1 ▸ hs.lt h hmem
  have hnew := r.waiting number hun
  simp only
  split
  next hc =>
    exact ⟨r.once, r.lt, fun k hk => r.waiting k ((unanswered_finished _ _).mp hk).1,
      fun hopen => absurd (hc.symm.trans hopen) (by simp)⟩
  · split
    next f _ =>
      have hfst : (p.replies ++ [(number, f)]).map Prod.fst = p.replies.map Prod.fst ++ [number] := by
        simp
      refine ⟨?_, fun k hk => ?_, fun k hk => ?_, fun hc k hk => ?_⟩
      · rw [hfst]
        refine nodup_append.mpr ⟨r.once, by simp, fun i hi j hj => ?_⟩
        rw [mem_singleton.mp hj]
        rintro rfl
        exact hnew hi
      · rw [hfst] at hk
        rcases mem_append.mp hk with hk | hk
        · exact r.lt k hk
        · rw [mem_singleton.mp hk]
          exact hlt
      · obtain ⟨h1, h2⟩ := (unanswered_finished _ _).mp hk
        rw [hfst]
        simpa [h2] using r.waiting k h1
      · rw [hfst]
        by_cases hkn : k = number
        · exact Or.inr (Or.inl (by simp [hkn]))
        rcases r.answered hc k hk with h1 | h1 | h1
        · exact Or.inl ((unanswered_finished _ _).mpr ⟨h1, hkn⟩)
        · exact Or.inr (Or.inl (mem_append_left _ h1))
        · exact Or.inr (Or.inr h1)
    · refine ⟨r.once, r.lt, fun k hk => r.waiting k ((unanswered_finished _ _).mp hk).1, fun hc k hk => ?_⟩
      by_cases hkn : k = number
      · exact Or.inr (Or.inr (by simp [hkn]))
      rcases r.answered hc k hk with h1 | h1 | h1
      · exact Or.inl ((unanswered_finished _ _).mpr ⟨h1, hkn⟩)
      · exact Or.inr (Or.inl h1)
      · exact Or.inr (Or.inr (mem_append_left _ h1))

theorem Peer.Replies.release (r : p.Replies) (hs : p.Handlers) (number : Nat) : (p.release number).Replies := by
  unfold Peer.release
  split
  · exact r
  rename_i h hh
  have hmem : h ∈ p.handling := mem_of_find?_eq_some hh
  have hnum : h.number = number ∧ h.done = true := by simpa using find?_some hh
  have hsame : ∀ k, Unanswered (p.handling.filter fun h => h.number ≠ number) k ↔ Unanswered p.handling k := by
    refine fun k => ⟨fun ⟨x, hx, hk⟩ => ⟨x, (mem_filter.mp hx).1, hk⟩, fun ⟨x, hx, hk⟩ => ?_⟩
    refine ⟨x, mem_filter.mpr ⟨hx, ?_⟩, hk⟩
    rw [decide_eq_true_eq]
    intro e
    -- The handler released is past its reply.
    obtain rfl := inj_on_of_nodup_map hs.distinct hx hmem (e.trans hnum.1.symm)
    rw [hk.2] at hnum
    cases hnum.2
  exact ⟨r.once, r.lt, fun k hk => r.waiting k ((hsame k).mp hk),
    fun hc k hk => (r.answered hc k hk).imp (hsame k).mpr id⟩

theorem Peer.Replies.step (r : p.Replies) (hs : p.Handlers) (e : Event) : (step cfg p e).Replies := by
  cases e with
  | receive data throws => exact r.receive throws data
  | finish number o throws throwsAgain => exact r.finish hs throws throwsAgain number o
  | release number => exact r.release hs number
  | close => exact r.fail
  | abandon n why =>
    simp only [Rpc.step, Peer.abandon]
    split <;> exact r
  | notify method params throws =>
    simp only [Rpc.step, Peer.notify]
    split
    · exact r
    split
    · exact r
    · exact r
    · exact r.fail
  | beat throws =>
    have r' : ∀ heard missed, { p with heard := heard, missed := missed }.Replies := fun _ _ => r
    simp only [Rpc.step, Peer.beat]
    split
    · exact r
    split
    · exact (r' p.heard p.silence).fail
    split
    · exact r' false p.silence
    · exact (r' false p.silence).fail
  | call q throws =>
    simp only [Rpc.step, Peer.call]
    split
    · exact r
    split
    · exact r
    split
    · exact r
    split
    · exact r
    · exact r
    · exact Peer.Replies.fail r

end

/-- `receive` is total: nothing escaped, no request was answered twice, and on an open link every
request dispatched is answered once its handler settled. -/
structure Peer.Total (p : Peer) : Prop where
  threw : p.threw = []
  unhandled : p.unhandled = []
  once : ∀ k, (p.replies.map Prod.fst).count k ≤ 1
  answered : p.closed = false → ∀ k < p.dispatched,
    (p.replies.map Prod.fst).count k = if Unanswered p.handling k then 0 else 1

end Reins.Rpc
