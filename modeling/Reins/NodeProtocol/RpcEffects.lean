import Reins.NodeProtocol.NodeError
import Reins.NodeProtocol.RpcCalls

/-!
# What a step of the peer does

Said once for every step: the frame it may send (`step_sends`), the calls it may settle and how
(`step_settles`), the ids it gives out (`step_issued`), what it keeps (`step_later`) and the
handlers it starts (`step_handling`).
-/

open Utf Schema List

namespace Reins.Rpc

variable {id : Id} {throws : Bool} {s : Settlement} {f : Frame} {settle : Peer → Pending → Peer} {p' p : Peer}

/-! ## Frames -/

def Frame.requestId : Frame → Option JsString
  | .request id _ _ => some id.key
  | _ => none

/-- The request that is refused, by a rejection that says it was not run. -/
def Frame.refuses : Frame → Option JsString
  | .error id code _ data => if refusing code data then some id.key else none
  | _ => none

def RpcFailure.refused (f : RpcFailure) : Bool :=
  match f.code with
  | .number n => refusing n f.data
  | .unavailable => false

theorem refuses_errorReply {f : RpcFailure} {i : JsString}
    (h : (errorReply id f).refuses = some i) : i = id.key ∧ f.refused = true := by
  have hinternal : ∀ data, refusing INTERNAL_ERROR data = false := by
    intro data
    have : INTERNAL_ERROR ≠ APPLICATION_ERROR := by decide
    simp [refusing, this]
  unfold errorReply at h
  simp only at h
  split at h
  · simp [Frame.refuses] at h
  split at h
  · simp [Frame.refuses, hinternal] at h
  simp only [Frame.refuses, RpcFailure.refused] at h ⊢
  cases hc : f.code with
  | unavailable => simp [hc, hinternal] at h
  | number n =>
    simp only [hc] at h
    split at h
    next hr =>
      exact ⟨(Option.some.inj h).symm, hr⟩
    · cases h

@[simp] theorem requestId_errorReply (id : Id) (f : RpcFailure) : (errorReply id f).requestId = none := by
  unfold errorReply
  simp only
  split
  · rfl
  · split <;> rfl

def requests (fs : List Frame) : List JsString := fs.filterMap Frame.requestId

@[simp] theorem requests_append (fs gs : List Frame) :
    requests (fs ++ gs) = requests fs ++ requests gs := filterMap_append

def Sendable (p : Peer) (f : Frame) : Event → Prop
  | .call r _ => f = .request (.str (rpcId (p.nextId + 1))) r.method r.params
  | .notify method params _ => f = .notification method params
  | .receive _ _ => ∃ id code message, f = .error id code message none
  | .finish number o _ _ => ∃ h ∈ p.handling, h.number = number ∧ h.done = false ∧ ((∃ v, f = .result h.id v) ∨
        ∃ failure, f = errorReply h.id failure ∧ (failure.data = none ∨ o = .failed failure))
  | .beat _ => f = .notification HEARTBEAT_METHOD (some (.obj []))
  | _ => False

def Peer.Sends (p p' : Peer) (P : Frame → Prop) : Prop := p'.sent = p.sent ∨ ∃ f, p'.sent = p.sent ++ [f] ∧ P f

section

variable {cfg : Config} {p : Peer} {P : Frame → Prop}

theorem Peer.Sends.none (h : p'.sent = p.sent) : p.Sends p' P := Or.inl h

theorem Peer.Sends.one (h : p'.sent = p.sent ++ [f]) (hf : P f) : p.Sends p' P := Or.inr ⟨f, h, hf⟩

@[simp] theorem Peer.fail_sent (p : Peer) : p.fail.sent = p.sent := by
  unfold Peer.fail
  split <;> rfl

@[simp] theorem Peer.fail_issued (p : Peer) : p.fail.issued = p.issued := by
  unfold Peer.fail
  split <;> rfl

@[simp] theorem Peer.fail_handling (p : Peer) : p.fail.handling = p.handling := by
  unfold Peer.fail
  split <;> rfl

theorem Peer.sends_refuse {request : Frame} {code : SafeInt} {message : String} :
    p.Sends (p.refuse cfg throws request id code message)
      fun f => ∃ id code message, f = .error id code message none := by
  unfold Peer.refuse
  simp only
  split
  · exact .one rfl ⟨_, _, _, rfl⟩
  · exact .none rfl

theorem Peer.sent_reply (h : ∀ c, (settle (p.drop id.key) c).sent = p.sent) : (p.reply id settle).sent = p.sent := by
  unfold Peer.reply
  split
  · split
    · rfl
    · exact Peer.fail_sent p
  · exact h _

theorem Peer.sent_result {value : Value} : (p.result id value).sent = p.sent := by
  refine Peer.sent_reply fun c => ?_
  split
  · exact Peer.fail_sent _
  · split <;> rfl

theorem Peer.sent_error {code : SafeInt} {message : JsString} {data : Value} :
    (p.error id code message data).sent = p.sent := by
  refine Peer.sent_reply fun c => ?_
  split
  · exact Peer.fail_sent _
  split
  · exact Peer.fail_sent _
  · rfl

theorem Peer.sends_take (f : Frame) :
    p.Sends (p.take cfg throws f) fun f => ∃ id code message, f = .error id code message none := by
  cases f with
  | result id value => exact .none Peer.sent_result
  | error id code message data => exact .none Peer.sent_error
  | notification method params =>
    simp only [Peer.take, Peer.notification]
    split
    · exact .none rfl
    split
    · split <;> exact .none rfl
    · exact .none rfl
  | request id method params =>
    simp only [Peer.take, Peer.request]
    split
    · exact .none rfl
    · exact Peer.sends_refuse
    · exact Peer.sends_refuse
    split
    · exact Peer.sends_refuse
    split
    · exact Peer.sends_refuse
    · exact .none rfl

theorem replyTo_cases {throwsAgain : Bool} {h : Handling} {o : Outcome}
    (hf : cfg.replyTo throws throwsAgain h o = some f) :
    (∃ v, f = .result h.id v) ∨
      ∃ failure, f = errorReply h.id failure ∧ (failure.data = none ∨ o = .failed failure) := by
  have hanswer : ∀ failure, cfg.answer throws h o = .error failure → failure.data = none ∨ o = .failed failure := by
    intro failure he
    unfold Config.answer at he
    split at he
    · exact Or.inr (by rw [Except.error.inj he])
    · rw [← Except.error.inj he]
      exact Or.inl rfl
    · split at he
      · rw [← Except.error.inj he]
        exact Or.inl rfl
      simp only at he
      split at he
      · cases he
      · rw [← Except.error.inj he]
        exact Or.inl rfl
      · rw [← Except.error.inj he]
        exact Or.inl rfl
  unfold Config.replyTo at hf
  split at hf
  next g ha =>
    cases hf
    refine Or.inl ?_
    unfold Config.answer at ha
    split at ha
    · cases ha
    · cases ha
    · split at ha
      · cases ha
      rename_i checked _
      simp only at ha
      split at ha
      · exact ⟨checked, (Except.ok.inj ha).symm⟩
      · cases ha
      · cases ha
  next failure ha =>
    split at hf
    · exact Or.inr ⟨failure, (Option.some.inj hf).symm, hanswer failure ha⟩
    · cases hf

/-- **The frame a step may send.** -/
theorem step_sends (e : Event) : p.Sends (step cfg p e) (Sendable p · e) := by
  cases e with
  | close => exact .none (Peer.fail_sent p)
  | receive data throws =>
    simp only [step, Peer.receive]
    split
    · exact .none rfl
    split
    · exact .none (Peer.fail_sent _)
    split
    · exact .none (Peer.fail_sent _)
    split
    · exact .none (Peer.fail_sent _)
    · exact Peer.sends_take (p := { p with heard := true }) _
  | abandon n why =>
    simp only [step, Peer.abandon]
    split <;> exact .none rfl
  | release number =>
    simp only [step, Peer.release]
    split <;> exact .none rfl
  | notify method params throws =>
    simp only [step, Peer.notify]
    split
    · exact .none rfl
    split
    · exact .one rfl rfl
    · exact .none rfl
    · exact .none (Peer.fail_sent p)
  | beat throws =>
    simp only [step, Peer.beat]
    split
    · exact .none rfl
    split
    · exact .none (Peer.fail_sent _)
    split
    · exact .one rfl rfl
    · exact .none (Peer.fail_sent _)
  | call r throws =>
    simp only [step, Peer.call]
    split
    · exact .none rfl
    split
    · exact .none rfl
    split
    · exact .none rfl
    split
    · exact .one rfl rfl
    · exact .none rfl
    · exact .none (Peer.fail_sent _)
  | finish number o throws throwsAgain =>
    simp only [step, Peer.finish]
    split
    · exact .none rfl
    rename_i h hh
    have hnum : h.number = number ∧ h.done = false := by simpa using find?_some hh
    split
    · exact .none rfl
    split
    next f hf =>
      exact .one rfl ⟨h, mem_of_find?_eq_some hh, hnum.1, hnum.2, replyTo_cases hf⟩
    · exact .none rfl

/-! ## Ids -/

theorem Peer.issued_reply (h : ∀ c, (settle (p.drop id.key) c).issued = p.issued) :
    (p.reply id settle).issued = p.issued := by
  unfold Peer.reply
  split
  · split
    · rfl
    · exact Peer.fail_issued p
  · exact h _

theorem Peer.issued_take (f : Frame) : (p.take cfg throws f).issued = p.issued := by
  have hrefuse : ∀ request id code message, (p.refuse cfg throws request id code message).issued = p.issued := by
    intro request id code message
    unfold Peer.refuse
    simp only
    split <;> rfl
  cases f with
  | result id value =>
    refine Peer.issued_reply fun c => ?_
    split
    · exact Peer.fail_issued _
    · split <;> rfl
  | error id code message data =>
    refine Peer.issued_reply fun c => ?_
    split
    · exact Peer.fail_issued _
    split
    · exact Peer.fail_issued _
    · rfl
  | notification method params =>
    simp only [Peer.take, Peer.notification]
    split
    · rfl
    split
    · split <;> rfl
    · rfl
  | request id method params =>
    simp only [Peer.take, Peer.request]
    split
    · rfl
    · exact hrefuse _ _ _ _
    · exact hrefuse _ _ _ _
    split
    · exact hrefuse _ _ _ _
    split
    · exact hrefuse _ _ _ _
    · rfl

/-- **Only `call` gives out an id**: the next one, to the call it is. -/
theorem step_issued (cfg : Config) (e : Event) : (step cfg p e).issued = p.issued ∨ ∃ r throws, e = .call r throws ∧
        (step cfg p e).issued = p.issued ++ [(p.calls, rpcId (p.nextId + 1))] := by
  cases e with
  | close => exact Or.inl (Peer.fail_issued p)
  | receive data throws =>
    refine Or.inl ?_
    simp only [step, Peer.receive]
    split
    · rfl
    split
    · exact Peer.fail_issued _
    split
    · exact Peer.fail_issued _
    split
    · exact Peer.fail_issued _
    · exact Peer.issued_take (p := { p with heard := true }) _
  | abandon n why =>
    refine Or.inl ?_
    simp only [step, Peer.abandon]
    split <;> rfl
  | release number =>
    refine Or.inl ?_
    simp only [step, Peer.release]
    split <;> rfl
  | notify method params throws =>
    refine Or.inl ?_
    simp only [step, Peer.notify]
    split
    · rfl
    split
    · rfl
    · rfl
    · exact Peer.fail_issued p
  | beat throws =>
    refine Or.inl ?_
    simp only [step, Peer.beat]
    split
    · rfl
    split
    · exact Peer.fail_issued _
    split
    · rfl
    · exact Peer.fail_issued _
  | finish number o throws throwsAgain =>
    refine Or.inl ?_
    simp only [step, Peer.finish]
    split
    · rfl
    split
    · rfl
    · split <;> rfl
  | call r throws =>
    have hnext : ∀ x : Peer, x.issued = p.issued ++ [(p.calls, rpcId (p.nextId + 1))] →
        x.issued = p.issued ∨ ∃ r' throws', Event.call r throws = .call r' throws' ∧
          x.issued = p.issued ++ [(p.calls, rpcId (p.nextId + 1))] :=
      fun x hx => Or.inr ⟨r, throws, rfl, hx⟩
    simp only [step, Peer.call]
    split
    · exact Or.inl rfl
    split
    · exact Or.inl rfl
    split
    · exact Or.inl rfl
    split
    · exact hnext _ rfl
    · exact hnext _ rfl
    · exact hnext _ (Peer.fail_issued _)

theorem call_sent (cfg : Config) (r : CallRequest) (throws : Bool) : (step cfg p (.call r throws)).sent = p.sent ∨
      (step cfg p (.call r throws)).sent = p.sent ++ [.request (.str (rpcId (p.nextId + 1))) r.method r.params] ∧
        (step cfg p (.call r throws)).issued = p.issued ++ [(p.calls, rpcId (p.nextId + 1))] ∧
        (step cfg p (.call r throws)).settled = p.settled := by
  simp only [step, Peer.call]
  split
  · exact Or.inl rfl
  split
  · exact Or.inl rfl
  split
  · exact Or.inl rfl
  split
  · exact Or.inr ⟨rfl, rfl, rfl⟩
  · exact Or.inl rfl
  · exact Or.inl (Peer.fail_sent _)

/-! ## Settlements -/

def Settlement.Unknown (s : Settlement) : Prop := ∃ f, s.outcome = .error f ∧ f.code = .unavailable ∧ f.unknown = true

def Settlement.By (s : Settlement) (f : Frame) (id : Id) : Prop :=
  f.replyId = some id ∧ s.cause = .reply id ∧ ∀ e, s.outcome = .error e →
    ∃ n, e.code = .number n ∧ (refusing n e.data = true → f.refuses = some id.key)

def Settles (p : Peer) (s : Settlement) : Event → Prop
  | .call _ _ => s.call = p.calls ∧ s.cause = .refused ∨ s.call = p.calls ∧ s.cause = .sendFailed ∧
        ∀ e, s.outcome = .error e → e.code = .number FRAME_TOO_LARGE
  | .receive (.text t) _ => ∃ f id c, (Json.parse t).bind Frame.read = some f ∧ s.By f id ∧
      p.waiting id.key = some c ∧ s.call = c.call
  | _ => False

theorem Peer.fail_settled (hs : s ∈ p.fail.settled) : s ∈ p.settled ∨ s.Unknown := by
  unfold Peer.fail at hs
  split at hs
  · exact Or.inl hs
  rcases mem_append.mp hs with hs | hs
  · exact Or.inl hs
  · obtain ⟨c, -, rfl⟩ := mem_map.mp hs
    exact Or.inr ⟨_, rfl, rfl, rfl⟩

theorem Peer.settle_settled {call : Nat} {cause : Cause} {outcome : Except RpcFailure Value} (hs : s ∈ (p.settle call cause outcome).settled) :
    s ∈ p.settled ∨ s = ⟨call, cause, outcome⟩ := by
  rcases mem_append.mp hs with hs | hs
  · exact Or.inl hs
  · exact Or.inr (mem_singleton.mp hs)

/-- A reply settles the call that waits for it, and none else but where it closes the link. -/
theorem Peer.settled_reply (h : ∀ c, p.waiting id.key = some c →
      ∀ s ∈ (settle (p.drop id.key) c).settled, s ∈ p.settled ∨ s.Unknown ∨ s.call = c.call ∧ s.By f id)
    (hs : s ∈ (p.reply id settle).settled) :
    s ∈ p.settled ∨ s.Unknown ∨ ∃ c, p.waiting id.key = some c ∧ s.call = c.call ∧ s.By f id := by
  unfold Peer.reply at hs
  split at hs
  · split at hs
    · exact Or.inl hs
    · exact (Peer.fail_settled hs).imp_right Or.inl
  next c hc =>
    exact (h c hc s hs).imp_right (Or.imp_right fun hq => ⟨c, hc, hq⟩)

theorem settled_invalid {c : Pending} {message : String} (hid : f.replyId = some id)
    (hs : s ∈ (((p.drop id.key).settle c.call (.reply id) (.error (internal message))).fail).settled) :
    s ∈ p.settled ∨ s.Unknown ∨ s.call = c.call ∧ s.By f id := by
  rcases Peer.fail_settled hs with hs | hs
  · rcases Peer.settle_settled hs with hs | rfl
    · exact Or.inl hs
    refine Or.inr (Or.inr ⟨rfl, hid, rfl, fun e he => ?_⟩)
    obtain rfl := Except.error.inj he
    exact ⟨INTERNAL_ERROR, rfl, fun h => absurd h (by simp [internal])⟩
  · exact Or.inr (Or.inl hs)

theorem Peer.settled_take (hs : s ∈ (p.take cfg throws f).settled) :
    s ∈ p.settled ∨ s.Unknown ∨ ∃ id c, p.waiting id.key = some c ∧ s.call = c.call ∧ s.By f id := by
  have hrefuse : ∀ request id code message, (p.refuse cfg throws request id code message).settled = p.settled := by
    intro request id code message
    unfold Peer.refuse
    simp only
    split <;> rfl
  cases f with
  | result id value =>
    refine (Peer.settled_reply (fun c _ s hs => ?_) hs).imp_right (Or.imp_right fun hq => ⟨id, hq⟩)
    split at hs
    · exact settled_invalid rfl hs
    split at hs
    · exact Or.inl hs
    rcases Peer.settle_settled hs with hs | rfl
    · exact Or.inl hs
    · exact Or.inr (Or.inr ⟨rfl, rfl, rfl, fun e he => absurd he (by simp)⟩)
  | error id code message data =>
    refine (Peer.settled_reply (fun c _ s hs => ?_) hs).imp_right (Or.imp_right fun hq => ⟨id, hq⟩)
    split at hs
    · exact settled_invalid rfl hs
    rename_i detail hd
    split at hs
    · exact settled_invalid rfl hs
    rcases Peer.settle_settled hs with hs | rfl
    · exact Or.inl hs
    refine Or.inr (Or.inr ⟨rfl, rfl, rfl, fun e he => ⟨code, ?_⟩⟩)
    obtain rfl := Except.error.inj he
    refine ⟨rfl, fun hr => ?_⟩
    rcases readErrorData_same hd with rfl | rfl
    · simp at hr
    · simp only at hr
      simp [Frame.refuses, hr]
  | notification method params =>
    simp only [Peer.take, Peer.notification] at hs
    split at hs
    · exact Or.inl hs
    split at hs
    · split at hs <;> exact Or.inl hs
    · exact Or.inl hs
  | request id method params =>
    simp only [Peer.take, Peer.request] at hs
    split at hs
    · exact Or.inl hs
    · rw [hrefuse] at hs
      exact Or.inl hs
    · rw [hrefuse] at hs
      exact Or.inl hs
    split at hs
    · rw [hrefuse] at hs
      exact Or.inl hs
    split at hs
    · rw [hrefuse] at hs
      exact Or.inl hs
    · exact Or.inl hs

/-- **What a step settles**: a call with its outcome unknown, or as the step says. -/
theorem step_settles (e : Event) (hs : s ∈ (step cfg p e).settled) : s ∈ p.settled ∨ s.Unknown ∨ Settles p s e := by
  cases e with
  | close => exact (Peer.fail_settled hs).imp_right Or.inl
  | receive data throws =>
    simp only [step, Peer.receive] at hs
    split at hs
    · exact Or.inl hs
    split at hs
    · exact (Peer.fail_settled hs).imp_right Or.inl
    split at hs
    · exact (Peer.fail_settled hs).imp_right Or.inl
    split at hs
    · exact (Peer.fail_settled hs).imp_right Or.inl
    next f hf =>
      refine (Peer.settled_take hs).imp_right (Or.imp_right ?_)
      rintro ⟨id, c, hc, h1, h2⟩
      exact ⟨f, id, c, hf, h2, hc, h1⟩
  | abandon n why =>
    simp only [step, Peer.abandon] at hs
    split at hs
    · exact Or.inl hs
    rcases Peer.settle_settled hs with hs | rfl
    · exact Or.inl hs
    · exact Or.inr (Or.inl ⟨_, rfl, rfl, rfl⟩)
  | release number =>
    simp only [step, Peer.release] at hs
    split at hs <;> exact Or.inl hs
  | notify method params throws =>
    simp only [step, Peer.notify] at hs
    split at hs
    · exact Or.inl hs
    split at hs
    · exact Or.inl hs
    · exact Or.inl hs
    · exact (Peer.fail_settled hs).imp_right Or.inl
  | beat throws =>
    simp only [step, Peer.beat] at hs
    split at hs
    · exact Or.inl hs
    split at hs
    · exact (Peer.fail_settled hs).imp_right Or.inl
    split at hs
    · exact Or.inl hs
    · exact (Peer.fail_settled hs).imp_right Or.inl
  | finish number o throws throwsAgain =>
    simp only [step, Peer.finish] at hs
    split at hs
    · exact Or.inl hs
    split at hs
    · exact Or.inl hs
    · split at hs <;> exact Or.inl hs
  | call r throws =>
    have hrefused : ∀ outcome, s ∈ ({ p with calls := p.calls + 1 }.settle p.calls .refused
        outcome).settled → s ∈ p.settled ∨ s.Unknown ∨ Settles p s (.call r throws) := by
      intro outcome hs
      rcases Peer.settle_settled hs with hs | rfl
      · exact Or.inl hs
      · exact Or.inr (Or.inr (Or.inl ⟨rfl, rfl⟩))
    simp only [step, Peer.call] at hs
    split at hs
    · exact hrefused _ hs
    split at hs
    · exact hrefused _ hs
    split at hs
    · exact hrefused _ hs
    split at hs
    · exact Or.inl hs
    · rcases Peer.settle_settled hs with hs | rfl
      · exact Or.inl hs
      refine Or.inr (Or.inr (Or.inr ⟨rfl, rfl, fun e he => ?_⟩))
      rw [← Except.error.inj he]
      rfl
    · rcases Peer.fail_settled hs with hs | hs
      · rcases Peer.settle_settled hs with hs | rfl
        · exact Or.inl hs
        · exact Or.inr (Or.inl ⟨_, rfl, rfl, rfl⟩)
      · exact Or.inr (Or.inl hs)

/-! ## What a step keeps -/

structure Peer.Later (p p' : Peer) : Prop where
  calls : p'.calls = p.calls
  settled : p.settled ⊆ p'.settled

theorem Peer.Later.same (hc : p'.calls = p.calls) (hs : p'.settled = p.settled) :
    p.Later p' := ⟨hc, hs ▸ List.Subset.refl _⟩

theorem Peer.Later.trans {q r : Peer} (h : p.Later q) (h' : q.Later r) : p.Later r :=
  ⟨h'.calls.trans h.calls, List.Subset.trans h.settled h'.settled⟩

theorem Peer.Later.of {q r : Peer} (h : q.Later r) (hc : q.calls = p.calls)
    (hs : q.settled = p.settled) : p.Later r := Peer.Later.trans (.same hc hs) h

theorem Peer.later_fail (p : Peer) : p.Later p.fail := by
  unfold Peer.fail
  split
  · exact .same rfl rfl
  · exact ⟨rfl, subset_append_left _ _⟩

theorem Peer.later_settle (p : Peer) (call : Nat) (cause : Cause)
    (outcome : Except RpcFailure Value) : p.Later (p.settle call cause outcome) :=
  ⟨rfl, subset_append_left _ _⟩

theorem Peer.later_reply (h : ∀ c, (p.drop id.key).Later (settle (p.drop id.key) c)) : p.Later (p.reply id settle) := by
  unfold Peer.reply
  split
  · split
    · exact .same rfl rfl
    · exact p.later_fail
  · exact (h _).of rfl rfl

theorem Peer.later_take (f : Frame) : p.Later (p.take cfg throws f) := by
  have hrefuse : ∀ request id code message, p.Later (p.refuse cfg throws request id code message) := by
    intro request id code message
    unfold Peer.refuse
    simp only
    split <;> exact .same rfl rfl
  cases f with
  | result id value =>
    simp only [Peer.take, Peer.result]
    refine Peer.later_reply fun c => ?_
    split
    · exact (Peer.later_settle _ _ _ _).trans (Peer.later_fail _)
    split
    · exact .same rfl rfl
    · exact Peer.later_settle _ _ _ _
  | error id code message data =>
    simp only [Peer.take, Peer.error]
    refine Peer.later_reply fun c => ?_
    split
    · exact (Peer.later_settle _ _ _ _).trans (Peer.later_fail _)
    split
    · exact (Peer.later_settle _ _ _ _).trans (Peer.later_fail _)
    · exact Peer.later_settle _ _ _ _
  | notification method params =>
    simp only [Peer.take, Peer.notification]
    split
    · exact .same rfl rfl
    split
    · split <;> exact .same rfl rfl
    · exact .same rfl rfl
  | request id method params =>
    simp only [Peer.take, Peer.request]
    split
    · exact .same rfl rfl
    · exact hrefuse _ _ _ _
    · exact hrefuse _ _ _ _
    split
    · exact hrefuse _ _ _ _
    split
    · exact hrefuse _ _ _ _
    · exact .same rfl rfl

def Peer.begun (p : Peer) : Event → Peer
  | .call _ _ => { p with calls := p.calls + 1 }
  | _ => p

/-- **A step keeps what is settled**, and only `call` makes a call. -/
theorem step_later (cfg : Config) (p : Peer) (e : Event) : (p.begun e).Later (step cfg p e) := by
  cases e with
  | close => exact p.later_fail
  | receive data throws =>
    simp only [Peer.begun, step, Peer.receive]
    have hheard : p.Later { p with heard := true } := .same rfl rfl
    split
    · exact .same rfl rfl
    split
    · exact hheard.trans (Peer.later_fail _)
    split
    · exact hheard.trans (Peer.later_fail _)
    split
    · exact hheard.trans (Peer.later_fail _)
    · exact hheard.trans (Peer.later_take _)
  | abandon n why =>
    simp only [Peer.begun, step, Peer.abandon]
    split
    · exact .same rfl rfl
    · exact (Peer.later_settle _ _ _ _).of rfl rfl
  | release number =>
    simp only [Peer.begun, step, Peer.release]
    split <;> exact .same rfl rfl
  | notify method params throws =>
    simp only [Peer.begun, step, Peer.notify]
    split
    · exact .same rfl rfl
    split
    · exact .same rfl rfl
    · exact .same rfl rfl
    · exact p.later_fail
  | beat throws =>
    simp only [Peer.begun, step, Peer.beat]
    split
    · exact .same rfl rfl
    split
    · exact (Peer.later_fail _).of rfl rfl
    split
    · exact .same rfl rfl
    · exact (Peer.later_fail _).of rfl rfl
  | finish number o throws throwsAgain =>
    simp only [Peer.begun, step, Peer.finish]
    split
    · exact .same rfl rfl
    split
    · exact .same rfl rfl
    · split <;> exact .same rfl rfl
  | call r throws =>
    simp only [Peer.begun, step, Peer.call]
    split
    · exact Peer.later_settle _ _ _ _
    split
    · exact Peer.later_settle _ _ _ _
    split
    · exact Peer.later_settle _ _ _ _
    split
    · exact .same rfl rfl
    · exact (Peer.later_settle _ _ _ _).of rfl rfl
    · exact ((Peer.later_settle _ _ _ _).trans (Peer.later_fail _)).of rfl rfl

/-! ## Handlers -/

def Handling.ident (h : Handling) : Nat × JsString × JsString := (h.number, h.id.key, h.method)

theorem Peer.handling_reply (h : ∀ c, (settle (p.drop id.key) c).handling = p.handling) :
    (p.reply id settle).handling = p.handling := by
  unfold Peer.reply
  split
  · split
    · rfl
    · exact Peer.fail_handling p
  · exact h _

theorem Peer.handling_take (f : Frame) : (p.take cfg throws f).handling = p.handling ∨
      ∃ h, (p.take cfg throws f).handling = p.handling ++ [h] ∧ h.number = p.dispatched ∧
        f.requestId = some h.id.key ∧ h.done = false := by
  have hrefuse : ∀ request id code message, (p.refuse cfg throws request id code message).handling = p.handling := by
    intro request id code message
    unfold Peer.refuse
    simp only
    split <;> rfl
  cases f with
  | result id value =>
    refine Or.inl (Peer.handling_reply fun c => ?_)
    split
    · exact Peer.fail_handling _
    · split <;> rfl
  | error id code message data =>
    refine Or.inl (Peer.handling_reply fun c => ?_)
    split
    · exact Peer.fail_handling _
    split
    · exact Peer.fail_handling _
    · rfl
  | notification method params =>
    refine Or.inl ?_
    simp only [Peer.take, Peer.notification]
    split
    · rfl
    split
    · split <;> rfl
    · rfl
  | request id method params =>
    simp only [Peer.take, Peer.request]
    split
    · exact Or.inl rfl
    · exact Or.inl (hrefuse _ _ _ _)
    · exact Or.inl (hrefuse _ _ _ _)
    split
    · exact Or.inl (hrefuse _ _ _ _)
    split
    · exact Or.inl (hrefuse _ _ _ _)
    · exact Or.inr ⟨_, rfl, rfl, rfl, rfl⟩

/-- **A frame starts at most the handler of the request it is.** -/
theorem receive_handling (cfg : Config) (p : Peer) (throws : Bool) (f : Frame) :
    (p.receive cfg throws (.text f.text)).handling = p.handling ∨
      ∃ h, (p.receive cfg throws (.text f.text)).handling = p.handling ++ [h] ∧
        h.number = p.dispatched ∧ f.requestId = some h.id.key ∧ h.done = false := by
  unfold Peer.receive
  split
  · exact Or.inl rfl
  simp only
  split
  · exact Or.inl (Peer.fail_handling _)
  · rw [Frame.read_text]
    exact Peer.handling_take (p := { p with heard := true }) f

/-- **No other step starts one.** -/
theorem step_handling (e : Event) (he : ∀ data throws, e ≠ .receive data throws) :
    ((step cfg p e).handling.map Handling.ident).Sublist (p.handling.map Handling.ident) := by
  have hsame : ∀ x : Peer, x.handling = p.handling →
      (x.handling.map Handling.ident).Sublist (p.handling.map Handling.ident) :=
    fun x hx => hx ▸ List.Sublist.refl _
  cases e with
  | receive data throws => exact absurd rfl (he data throws)
  | close => exact hsame _ (Peer.fail_handling p)
  | abandon n why =>
    simp only [step, Peer.abandon]
    split <;> exact hsame _ rfl
  | release number =>
    simp only [step, Peer.release]
    split
    · exact hsame _ rfl
    · exact filter_sublist.map _
  | notify method params throws =>
    simp only [step, Peer.notify]
    split
    · exact hsame _ rfl
    split
    · exact hsame _ rfl
    · exact hsame _ rfl
    · exact hsame _ (Peer.fail_handling p)
  | beat throws =>
    simp only [step, Peer.beat]
    split
    · exact hsame _ rfl
    split
    · exact hsame _ (Peer.fail_handling _)
    split
    · exact hsame _ rfl
    · exact hsame _ (Peer.fail_handling _)
  | finish number o throws throwsAgain =>
    have hmap : (p.finished number).handling.map Handling.ident = p.handling.map Handling.ident := by
      rw [Peer.finished, map_map]
      refine map_congr_left fun x _ => ?_
      simp only [Function.comp_apply]
      split <;> rfl
    have hfin : ∀ x : Peer, x.handling = (p.finished number).handling →
        (x.handling.map Handling.ident).Sublist (p.handling.map Handling.ident) :=
      fun x hx => by rw [hx, hmap]
    simp only [step, Peer.finish]
    split
    · exact hsame _ rfl
    split
    · exact hfin _ rfl
    · split <;> exact hfin _ rfl
  | call r throws =>
    simp only [step, Peer.call]
    split
    · exact hsame _ rfl
    split
    · exact hsame _ rfl
    split
    · exact hsame _ rfl
    split
    · exact hsame _ rfl
    · exact hsame _ rfl
    · exact hsame _ (Peer.fail_handling _)

def Peer.Handles (p : Peer) (cfg : Config) : Prop :=
  ∀ h ∈ p.handling, ∃ params result, cfg.handler h.method = .own (.request params result)

theorem Peer.Handles.take (hp : p.Handles cfg) (f : Frame) : (p.take cfg throws f).Handles cfg := by
  have hsame : ∀ x : Peer, x.handling = p.handling → x.Handles cfg := fun x hx h hh => hp h (hx ▸ hh)
  have hrefuse : ∀ request id code message, (p.refuse cfg throws request id code message).Handles cfg := by
    intro request id code message
    unfold Peer.refuse
    simp only
    split <;> exact hsame _ rfl
  cases f with
  | result id value =>
    refine hsame _ (Peer.handling_reply fun c => ?_)
    split
    · exact Peer.fail_handling _
    · split <;> rfl
  | error id code message data =>
    refine hsame _ (Peer.handling_reply fun c => ?_)
    split
    · exact Peer.fail_handling _
    split
    · exact Peer.fail_handling _
    · rfl
  | notification method params =>
    simp only [Peer.take, Peer.notification]
    split
    · exact hsame _ rfl
    split
    · split <;> exact hsame _ rfl
    · exact hsame _ rfl
  | request id method params =>
    simp only [Peer.take, Peer.request]
    split
    · exact hsame _ rfl
    · exact hrefuse _ _ _ _
    · exact hrefuse _ _ _ _
    rename_i schema result hown
    split
    · exact hrefuse _ _ _ _
    split
    · exact hrefuse _ _ _ _
    intro h hh
    rcases mem_append.mp hh with hh | hh
    · exact hp h hh
    · cases mem_singleton.mp hh
      exact ⟨schema, result, hown⟩

theorem Peer.Handles.step (hp : p.Handles cfg) (e : Event) : (step cfg p e).Handles cfg := by
  by_cases he : ∃ data throws, e = .receive data throws
  · obtain ⟨data, throws, rfl⟩ := he
    have hfail : ∀ x : Peer, x.handling = p.handling → x.fail.Handles cfg :=
      fun x hx h hh => hp h (hx ▸ Peer.fail_handling x ▸ hh)
    simp only [Rpc.step, Peer.receive]
    split
    · exact hp
    split
    · exact hfail _ rfl
    split
    · exact hfail _ rfl
    split
    · exact hfail _ rfl
    · exact Peer.Handles.take (p := { p with heard := true }) hp _
  · -- No other step starts a handler.
    intro h hh
    have hsub : ((Rpc.step cfg p e).handling.map Handling.ident).Sublist (p.handling.map Handling.ident) :=
      step_handling e fun data throws hr => he ⟨data, throws, hr⟩
    obtain ⟨x, hx, hident⟩ := mem_map.mp (hsub.subset (mem_map_of_mem hh))
    have hmethod : x.method = h.method := congrArg (fun i => i.2.2) hident
    rw [← hmethod]
    exact hp x hx

end

end Reins.Rpc
