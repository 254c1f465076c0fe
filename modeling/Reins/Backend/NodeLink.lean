import Reins.Node.NodeConnection

/-!
# A call across a node's link (`backend/src/nodes/{node-dir-client,server-peer,node-streams}.ts`)

The two peers of one connection and the frames between them. Each end's socket delivers the frames
the other end sent, in order, as far as it gets: `toNode` and `toServer` count those delivered. A
call goes through the transport, and through the stream layer if it opens a stream, before it
reaches the peer. At the node a request's handler gets to its command at some point (`execute`) and
answers later (`answer`); `started` logs the requests whose command ran.

`notRun` is what a caller makes of the error its call rejects with. That it is never wrong is an
invariant over both ends (`LinkOk`): a request that is refused as not run was seen by the node, did
not run, and has no handler left that could run it.
-/

open Utf Schema List

namespace Reins.NodeLink

open Rpc

/-! ## Reading a failure -/

def refusal (f : RpcFailure) : Option NodeError :=
  match f.code with
  | .number n => if n = APPLICATION_ERROR then f.data.bind NodeError.ofJson else none
  | .unavailable => none

def unreachable (f : RpcFailure) : Bool :=
  f.code = .unavailable || (refusal f).any fun e => e.code = .unavailable && e.retryable

def notRun (f : RpcFailure) : Bool := unreachable f && !f.unknown

theorem unreachable_eq (f : RpcFailure) : unreachable f = (decide (f.code = .unavailable) || f.refused) := by
  unfold unreachable refusal RpcFailure.refused refusing
  cases f.code with
  | unavailable => simp
  | number n => by_cases hn : n = APPLICATION_ERROR <;> simp [hn]

def NotRun (s : Settlement) : Prop := ∃ f, s.outcome = .error f ∧ notRun f = true

theorem not_notRun_of_unknown {s : Settlement} (h : s.Unknown) : ¬ NotRun s := by
  rintro ⟨f, hf, hn⟩
  obtain ⟨g, hg, -, hu⟩ := h
  obtain rfl := Except.error.inj (hf.symm.trans hg)
  simp [notRun, hu] at hn

/-! ## The link -/

structure Link where
  server : Peer
  node : Peer
  ready : Bool
  streamsClosed : Bool
  negotiated : Bool
  toNode : Nat
  toServer : Nat
  /-- The outcome of each handler that got to its command, by its number. -/
  outcomes : List (Nat × Outcome)
  /-- The requests whose command ran, with their method. -/
  started : List (JsString × JsString)

def Link.fresh : Link :=
  { server := .fresh, node := .fresh, ready := false, streamsClosed := false, negotiated := false,
    toNode := 0, toServer := 0, outcomes := [], started := [] }

inductive Event
  | call (r : CallRequest) (stream throws : Bool)
  /-- The server's challenge, which is called before the hello is answered. -/
  | authenticate (r : CallRequest) (throws : Bool)
  /-- What else happens at the server's peer: no call, and no frame. -/
  | server (e : Rpc.Event)
  /-- What else happens at the node's: no frame, and no handler that settles. -/
  | node (e : Rpc.Event)
  | ready
  | negotiated
  | closeStreams
  | toNode (throws : Bool)
  | toServer (throws : Bool)
  | execute (number : Nat) (running pausing : Bool) (ran : Ran)
  | answer (number : Nat) (throws throwsAgain : Bool)

/-- A call the transport or the stream layer rejects: the peer does not see it. -/
def refuse (p : Peer) (message : String) : Peer :=
  { p with calls := p.calls + 1 }.settle p.calls .refused (.error (unavailable message false))

/-- `transport.call` and `transport.openStream`. -/
def Link.call (cfg : Config) (throws : Bool) (l : Link) (r : CallRequest) (stream : Bool) : Link :=
  if l.ready = false then { l with server := refuse l.server "Node not negotiated" }
  else if stream = true ∧ l.streamsClosed = true then
    { l with server := refuse l.server "Node connection closed" }
  else { l with server := Rpc.step cfg l.server (.call r throws) }

def AtServer : Rpc.Event → Prop
  | .call _ _ | .receive _ _ => False
  | _ => True

def AtNode : Rpc.Event → Prop
  | .receive _ _ | .finish _ _ _ _ => False
  | _ => True

instance : DecidablePred AtServer
  | .call .. | .receive .. => isFalse id
  | .notify .. | .abandon .. | .finish .. | .release .. | .beat .. | .close => isTrue trivial

instance : DecidablePred AtNode
  | .receive .. | .finish .. => isFalse id
  | .call .. | .notify .. | .abandon .. | .release .. | .beat .. | .close => isTrue trivial

def Link.execute (l : Link) (h : Handling) (running pausing : Bool) (ran : Ran) : Link :=
  let served := NodeState.serve ⟨l.negotiated, running, pausing⟩ h.method ran
  { l with
    outcomes := l.outcomes ++ [(h.number, served.1)],
    started := if served.2 then l.started ++ [(h.id.key, h.method)] else l.started }

def step (serverCfg nodeCfg : Config) (l : Link) : Event → Link
  | .call r stream throws => l.call serverCfg throws r stream
  | .authenticate r throws =>
    { l with server := Rpc.step serverCfg l.server (.call { r with method := NODE_AUTHENTICATE } throws) }
  | .server e => if AtServer e then { l with server := Rpc.step serverCfg l.server e } else l
  | .node e => if AtNode e then { l with node := Rpc.step nodeCfg l.node e } else l
  | .ready => { l with ready := true }
  | .negotiated => { l with negotiated := true }
  | .closeStreams => { l with streamsClosed := true }
  | .toNode throws =>
    match l.server.sent[l.toNode]? with
    | some f =>
      { l with
        toNode := l.toNode + 1,
        node := Rpc.step nodeCfg l.node (.receive (.text f.text) throws) }
    | none => l
  | .toServer throws =>
    match l.node.sent[l.toServer]? with
    | some f =>
      { l with
        toServer := l.toServer + 1,
        server := Rpc.step serverCfg l.server (.receive (.text f.text) throws) }
    | none => l
  | .execute number running pausing ran =>
    match l.node.handling.find? fun h => h.number = number with
    | some h => if number ∈ l.outcomes.map Prod.fst then l else l.execute h running pausing ran
    | none => l
  | .answer number throws throwsAgain =>
    match l.outcomes.lookup number with
    | some o => { l with node := Rpc.step nodeCfg l.node (.finish number o throws throwsAgain) }
    | none => l

def run (serverCfg nodeCfg : Config) (es : List Event) : Link := Run.exec (step serverCfg nodeCfg) .fresh es

/-! ## What a step keeps of the calls -/

/-- A later state of the server's peer: the calls made and what settled them are kept. -/
structure Keeps (p p' : Peer) : Prop where
  calls : p.calls ≤ p'.calls
  settled : p.settled ⊆ p'.settled
  issued : p.issued ⊆ p'.issued

section

variable {serverCfg nodeCfg : Config} {l : Link} {p : Peer}

theorem Keeps.refl (p : Peer) : Keeps p p := ⟨le_refl _, List.Subset.refl _, List.Subset.refl _⟩

theorem peer_keeps (e : Rpc.Event) : Keeps p (Rpc.step serverCfg p e) := by
  have h := step_later serverCfg p e
  refine ⟨?_, ?_, ?_⟩
  · rw [h.calls]
    cases e <;> simp [Peer.begun]
  · refine List.Subset.trans ?_ h.settled
    cases e <;> exact List.Subset.refl _
  · rcases step_issued (p := p) serverCfg e with hi | ⟨_, _, -, hi⟩
    · exact hi ▸ List.Subset.refl _
    · exact hi ▸ subset_append_left _ _

theorem refuse_keeps (message : String) : Keeps p (refuse p message) :=
  ⟨Nat.le_succ _, subset_append_left _ _, List.Subset.refl _⟩

theorem step_keeps (e : Event) : Keeps l.server (step serverCfg nodeCfg l e).server := by
  cases e with
  | call r stream throws =>
    simp only [NodeLink.step, Link.call]
    split
    · exact refuse_keeps _
    split
    · exact refuse_keeps _
    · exact peer_keeps (.call r throws)
  | authenticate r throws => exact peer_keeps (.call _ throws)
  | server e =>
    simp only [NodeLink.step]
    split
    · exact peer_keeps e
    · exact .refl _
  | toServer throws =>
    simp only [NodeLink.step]
    split
    next f _ =>
      exact peer_keeps (.receive (.text f.text) throws)
    · exact .refl _
  | execute number running pausing ran =>
    simp only [NodeLink.step]
    split
    · split <;> exact .refl _
    · exact .refl _
  | node e | toNode throws | answer number throws again =>
    simp only [NodeLink.step]
    split <;> exact .refl _
  | ready | negotiated | closeStreams => exact .refl _

theorem call_calls (serverCfg : Config) (l : Link) (r : CallRequest) (stream throws : Bool) :
    (l.call serverCfg throws r stream).server.calls = l.server.calls + 1 := by
  unfold Link.call
  split
  · rfl
  split
  · rfl
  · exact (step_later serverCfg l.server (.call r throws)).calls

theorem peer_asks {e : Rpc.Event} {id : Id} {method : JsString} {params : Value}
    (h : .request id method params ∈ (Rpc.step serverCfg p e).sent) :
    .request id method params ∈ p.sent ∨ ∃ r throws, e = .call r throws ∧
      (p.calls, id.key) ∈ (Rpc.step serverCfg p e).issued ∧
      method = r.method ∧ params = r.params := by
  have hnew : ∀ f, (Rpc.step serverCfg p e).sent = p.sent ++ [f] → f.requestId = none →
      .request id method params ∈ p.sent := by
    intro f hf hid
    rw [hf, mem_append, mem_singleton] at h
    rcases h with h | rfl
    · exact h
    · exact absurd hid (by simp [Frame.requestId])
  rcases step_sends e with hs | ⟨f, hf, hs⟩
  · exact Or.inl (hs ▸ h)
  cases e with
  | call r throws =>
    rcases call_sent serverCfg r throws with hq | ⟨hq, hi, -⟩
    · exact Or.inl (hq ▸ h)
    rw [hq, mem_append, mem_singleton] at h
    refine h.imp_right fun h => ?_
    cases h
    exact ⟨r, throws, rfl, by rw [hi]; simp [Id.key], rfl, rfl⟩
  | notify method params throws =>
    obtain rfl := hs
    exact Or.inl (hnew _ hf rfl)
  | receive data throws =>
    obtain ⟨_, _, _, rfl⟩ := hs
    exact Or.inl (hnew _ hf rfl)
  | beat throws =>
    obtain rfl := hs
    exact Or.inl (hnew _ hf rfl)
  | finish number o throws throwsAgain =>
    obtain ⟨_, -, -, -, ⟨v, rfl⟩ | ⟨failure, rfl, -⟩⟩ := hs
    · exact Or.inl (hnew _ hf rfl)
    · exact Or.inl (hnew _ hf (requestId_errorReply _ _))
  | abandon n why => exact hs.elim
  | release number => exact hs.elim
  | close => exact hs.elim

theorem step_asks {e : Event} {id : Id} {method : JsString} {params : Value}
    (h : .request id method params ∈ (step serverCfg nodeCfg l e).server.sent) :
    .request id method params ∈ l.server.sent ∨ method = NODE_AUTHENTICATE ∨
      ∃ r stream throws, e = .call r stream throws ∧
        (l.server.calls, id.key) ∈ (step serverCfg nodeCfg l e).server.issued ∧
        method = r.method ∧ params = r.params := by
  cases e with
  | call r stream throws =>
    simp only [NodeLink.step, Link.call] at h ⊢
    split at h
    · exact Or.inl h
    split at h
    · exact Or.inl h
    rename_i hr hc
    rw [if_neg hr, if_neg hc]
    refine (peer_asks h).imp_right fun ⟨r', throws', he, hi, hm⟩ => Or.inr ?_
    cases he
    exact ⟨r, stream, throws, rfl, hi, hm⟩
  | authenticate r throws =>
    refine (peer_asks h).imp_right fun ⟨r', throws', he, _, hm, _⟩ => Or.inl ?_
    cases he
    exact hm
  | server e =>
    simp only [NodeLink.step] at h
    split at h
    next he =>
      refine (peer_asks h).imp_right fun ⟨r, throws, hc, _⟩ => ?_
      exact absurd he (by simp [hc, AtServer])
    · exact Or.inl h
  | toServer throws =>
    simp only [NodeLink.step] at h
    split at h
    · refine (peer_asks h).imp_right fun ⟨r, throws, hc, _⟩ => ?_
      cases hc
    · exact Or.inl h
  | execute number running pausing ran =>
    simp only [NodeLink.step] at h
    split at h
    · split at h <;> exact Or.inl h
    · exact Or.inl h
  | node e | toNode throws | answer number throws again =>
    simp only [NodeLink.step] at h
    split at h <;> exact Or.inl h
  | ready | negotiated | closeStreams => exact Or.inl h

end

/-! ## The node's side of the invariant -/

/-- A request that was not run and never will be: the node has seen it, and a handler it may still
have is past its command. -/
structure Spent (seen : List JsString) (idents : List (Nat × JsString × JsString))
    (outcomes : List (Nat × Outcome)) (started : List (JsString × JsString)) (id : JsString) :
    Prop where
  seen : id ∈ seen
  notStarted : id ∉ started.map Prod.fst
  past : ∀ x ∈ idents, x.2.1 = id → x.1 ∈ outcomes.map Prod.fst

/-- The handlers, their outcomes, the commands that ran and the refusals sent, against the requests
the node has seen. -/
structure Served (seen : List JsString) (idents : List (Nat × JsString × JsString))
    (outcomes : List (Nat × Outcome)) (started : List (JsString × JsString)) (sent : List Frame) :
    Prop where
  distinct : (idents.map fun x => x.2.1).Nodup
  handled : ∀ x ∈ idents, x.2.1 ∈ seen
  once : (started.map Prod.fst).Nodup
  known : ∀ id ∈ started.map Prod.fst, id ∈ seen
  idle : ∀ x ∈ idents, x.1 ∉ outcomes.map Prod.fst → x.2.1 ∉ started.map Prod.fst
  refused : ∀ o ∈ outcomes, o.2.refused = true → ∀ x ∈ idents, x.1 = o.1 → x.2.1 ∉ started.map Prod.fst
  refusals : ∀ f ∈ sent, ∀ id, f.refuses = some id → Spent seen idents outcomes started id

section

variable {seen : List JsString} {idents idents' : List (Nat × JsString × JsString)}
  {outcomes : List (Nat × Outcome)} {started : List (JsString × JsString)} {sent : List Frame}
  {id : JsString}

theorem Spent.fewer (s : Spent seen idents outcomes started id) (h : idents'.Sublist idents) :
    Spent seen idents' outcomes started id :=
  ⟨s.seen, s.notStarted, fun x hx => s.past x (h.subset hx)⟩

theorem Served.fewer (s : Served seen idents outcomes started sent) (h : idents'.Sublist idents) :
    Served seen idents' outcomes started sent :=
  ⟨s.distinct.sublist (h.map _), fun x hx => s.handled x (h.subset hx), s.once, s.known,
    fun x hx => s.idle x (h.subset hx), fun o ho hr x hx => s.refused o ho hr x (h.subset hx),
    fun f hf i hi => (s.refusals f hf i hi).fewer h⟩

theorem Served.send (s : Served seen idents outcomes started sent) {f : Frame}
    (hf : ∀ id, f.refuses = some id → Spent seen idents outcomes started id) :
    Served seen idents outcomes started (sent ++ [f]) := by
  refine { s with refusals := fun g hg i hi => ?_ }
  rcases mem_append.mp hg with hg | hg
  · exact s.refusals g hg i hi
  · rw [mem_singleton.mp hg] at hi
    exact hf i hi

theorem Spent.more (s : Spent seen idents outcomes started id) (ids : List JsString) :
    Spent (seen ++ ids) idents outcomes started id :=
  ⟨mem_append_left _ s.seen, s.notStarted, s.past⟩

theorem Served.more (s : Served seen idents outcomes started sent) (ids : List JsString) :
    Served (seen ++ ids) idents outcomes started sent :=
  { s with handled := fun x hx => mem_append_left _ (s.handled x hx), known := fun i hi => mem_append_left _ (s.known i hi), refusals := fun f hf i hi => (s.refusals f hf i hi).more ids }

theorem Served.arrive (s : Served seen idents outcomes started sent)
    {x : Nat × JsString × JsString} (hx : x.2.1 ∉ seen) :
    Served (seen ++ [x.2.1]) (idents ++ [x]) outcomes started sent := by
  have hns : x.2.1 ∉ started.map Prod.fst := fun h => hx (s.known _ h)
  refine ⟨?_, fun y hy => ?_, s.once, fun i hi => mem_append_left _ (s.known i hi),
    fun y hy => ?_, fun o ho hr y hy he => ?_, fun f hf i hi => ?_⟩
  · rw [map_append]
    refine nodup_append.mpr ⟨s.distinct, by simp, fun i hi j hj => ?_⟩
    rw [map_singleton, mem_singleton] at hj
    rintro rfl
    obtain ⟨y, hy, rfl⟩ := mem_map.mp hi
    exact hx (hj ▸ s.handled y hy)
  · rcases Places.mem_concat_cases hy with hy | rfl
    · exact mem_append_left _ (s.handled y hy)
    · simp
  · rcases Places.mem_concat_cases hy with hy | rfl
    · exact s.idle y hy
    · exact fun _ => hns
  · rcases Places.mem_concat_cases hy with hy | rfl
    · exact s.refused o ho hr y hy he
    · exact hns
  · have hs := s.refusals f hf i hi
    refine ⟨mem_append_left _ hs.seen, hs.notStarted, fun y hy hyi => ?_⟩
    rcases mem_append.mp hy with hy | hy
    · exact hs.past y hy hyi
    · rw [mem_singleton.mp hy] at hyi
      exact absurd (hyi ▸ hs.seen) hx

theorem Spent.arrive (s : Spent seen idents outcomes started id) {x : Nat × JsString × JsString}
    (hx : x.2.1 ∉ seen) : Spent (seen ++ [x.2.1]) (idents ++ [x]) outcomes started id := by
  refine ⟨mem_append_left _ s.seen, s.notStarted, fun y hy hyi => ?_⟩
  rcases mem_append.mp hy with hy | hy
  · exact s.past y hy hyi
  · rw [mem_singleton.mp hy] at hyi
    exact absurd (hyi ▸ s.seen) hx

/-- A handler gets to its command, which runs or is refused. -/
theorem Spent.execute (s : Spent seen idents outcomes started id)
    {x : Nat × JsString × JsString} (hx : x ∈ idents) (hno : x.1 ∉ outcomes.map Prod.fst)
    {o : Outcome} {method : JsString} {effect : Bool} :
    Spent seen idents (outcomes ++ [(x.1, o)]) (if effect then started ++ [(x.2.1, method)] else started) id := by
  have hne : x.2.1 ≠ id := fun he => hno (s.past x hx he)
  refine ⟨s.seen, ?_, fun y hy hyi => ?_⟩
  · split
    · have := s.notStarted
      simpa [Ne.symm hne] using this
    · exact s.notStarted
  · rw [map_append]
    exact mem_append_left _ (s.past y hy hyi)

theorem Served.execute (s : Served seen idents outcomes started sent)
    {x : Nat × JsString × JsString} (hx : x ∈ idents) (hno : x.1 ∉ outcomes.map Prod.fst)
    (hnum : (idents.map Prod.fst).Nodup) {o : Outcome} {method : JsString} {effect : Bool}
    (ho : o.refused = true → effect = false) :
    Served seen idents (outcomes ++ [(x.1, o)]) (if effect then started ++ [(x.2.1, method)] else started) sent := by
  have hns := s.idle x hx hno
  have hmem : ∀ i, i ∈ (if effect then started ++ [(x.2.1, method)] else started).map Prod.fst →
      i ∈ started.map Prod.fst ∨ effect = true ∧ i = x.2.1 := by
    intro i hi
    split at hi
    next he =>
      rw [map_append, mem_append] at hi
      exact hi.imp_right fun h => ⟨he, by simpa using h⟩
    · exact Or.inl hi
  have hout : (outcomes ++ [(x.1, o)]).map Prod.fst = outcomes.map Prod.fst ++ [x.1] := by simp
  -- Another handler has another request.
  have hother : ∀ y ∈ idents, y.1 ≠ x.1 → y.2.1 ≠ x.2.1 := by
    intro y hy hne he
    obtain rfl := inj_on_of_nodup_map s.distinct hy hx he
    exact hne rfl
  refine ⟨s.distinct, s.handled, ?_, fun i hi => ?_, fun y hy hyo hi => ?_,
    fun p hp hr y hy he hi => ?_, fun f hf i hi => ?_⟩
  · split
    · rw [map_append]
      refine nodup_append.mpr ⟨s.once, by simp, fun i hi j hj => ?_⟩
      rw [map_singleton, mem_singleton] at hj
      rintro rfl
      exact hns (hj ▸ hi)
    · exact s.once
  · rcases hmem i hi with h | ⟨-, rfl⟩
    · exact s.known i h
    · exact s.handled x hx
  · rw [hout, mem_append, not_or, mem_singleton] at hyo
    rcases hmem _ hi with h | ⟨-, h⟩
    · exact s.idle y hy hyo.1 h
    · exact hother y hy hyo.2 h
  · rcases mem_append.mp hp with hp | hp
    · rcases hmem _ hi with h | ⟨-, h⟩
      · exact s.refused p hp hr y hy he h
      · have hne : y.1 ≠ x.1 := fun e => hno (e ▸ he ▸ mem_map_of_mem hp)
        exact hother y hy hne h
    · rw [mem_singleton.mp hp] at hr he
      obtain rfl := inj_on_of_nodup_map hnum hy hx he
      rcases hmem _ hi with h | ⟨h, -⟩
      · exact hns h
      · exact absurd h (by simp [ho hr])
  · exact (s.refusals f hf i hi).execute hx hno

/-- The handler settles that got this outcome: a refusal it sends is of a request that is spent. -/
theorem Served.answer (s : Served seen idents outcomes started sent)
    {x : Nat × JsString × JsString} (hx : x ∈ idents) {o : Outcome} (ho : (x.1, o) ∈ outcomes)
    (hr : o.refused = true) : Spent seen idents outcomes started x.2.1 := by
  refine ⟨s.handled x hx, s.refused _ ho hr x hx rfl, fun y hy hyi => ?_⟩
  obtain rfl := inj_on_of_nodup_map s.distinct hy hx hyi
  exact mem_map_of_mem ho

end

/-! ## The link's invariant -/

def Link.seen (l : Link) : List JsString := requests (l.server.sent.take l.toNode)

def Link.idents (l : Link) : List (Nat × JsString × JsString) := l.node.handling.map Handling.ident

def Link.Spent (l : Link) (id : JsString) : Prop := NodeLink.Spent l.seen l.idents l.outcomes l.started id

structure SettledOk (l : Link) (s : Settlement) (id : JsString) : Prop where
  notRun : NotRun s → id ∉ requests l.server.sent ∨ l.Spent id
  unknown : id ∈ requests l.server.sent → (∃ i, s.cause = .reply i) ∨ s.Unknown
  /-- One the peer settled itself, knowing its outcome, has no request. -/
  unsent : s.cause = .refused ∨ s.cause = .sendFailed → ¬ s.Unknown → id ∉ requests l.server.sent

structure LinkOk (l : Link) : Prop where
  books : l.server.Books
  handlers : l.node.Handlers
  asked : (requests l.server.sent).Nodup
  issued : ∀ id ∈ requests l.server.sent, id ∈ l.server.issued.map Prod.snd
  bound : l.toNode ≤ l.server.sent.length
  served : Served l.seen l.idents l.outcomes l.started l.node.sent
  settled : ∀ s ∈ l.server.settled, ∀ id, (s.call, id) ∈ l.server.issued → SettledOk l s id

theorem SettledOk.of_unknown {l : Link} {s : Settlement} {id : JsString} (h : s.Unknown) : SettledOk l s id :=
  ⟨fun hn => absurd hn (not_notRun_of_unknown h), fun _ => Or.inr h, fun _ hu => absurd h hu⟩

theorem LinkOk.fresh : LinkOk .fresh := by
  refine ⟨.fresh, .fresh, by simp [Link.fresh, Peer.fresh, requests],
    by simp [Link.fresh, Peer.fresh, requests], le_refl _, ?_, by simp [Link.fresh, Peer.fresh]⟩
  constructor <;> simp [Link.fresh, Peer.fresh, Link.idents]

section

variable {serverCfg nodeCfg : Config} {l : Link}

theorem Link.mem_requests_of_seen {id : JsString} (h : id ∈ l.seen) : id ∈ requests l.server.sent :=
  ((take_sublist _ _).filterMap _).subset h

theorem seen_append {sent : List Frame} {n : Nat} (hn : n ≤ sent.length) (fs : List Frame) :
    requests ((sent ++ fs).take n) = requests (sent.take n) := by
  rw [take_append_of_le_length hn]

/-! ## Steps of the server's end -/

theorem LinkOk.server (ok : LinkOk l) {p : Peer} (b : p.Books) (hsent : l.server.Sends p fun f => f.requestId = none)
    (hissued : p.issued = l.server.issued)
    (hsettled : ∀ s ∈ p.settled, s ∈ l.server.settled ∨ s.Unknown ∨
      ∀ id, (s.call, id) ∈ l.server.issued → SettledOk l s id) :
    LinkOk { l with server := p } := by
  have hseen : requests (p.sent.take l.toNode) = l.seen ∧ requests p.sent = requests l.server.sent ∧
      l.toNode ≤ p.sent.length := by
    rcases hsent with h | ⟨f, h, hf⟩
    · rw [h]
      exact ⟨rfl, rfl, ok.bound⟩
    rw [h]
    refine ⟨seen_append ok.bound _, ?_, ?_⟩
    · simp [requests, hf]
    · rw [length_append]
      exact Nat.le_add_right_of_le ok.bound
  obtain ⟨hseen, hreq, hbound⟩ := hseen
  have hsame : ∀ s id, SettledOk l s id → SettledOk { l with server := p } s id := by
    intro s id h
    refine ⟨fun hn => ?_, fun hid => h.unknown (hreq ▸ hid), fun hc hu hid => h.unsent hc hu (hreq ▸ hid)⟩
    rcases h.notRun hn with h1 | h1
    · exact Or.inl (by rw [hreq]; exact h1)
    refine Or.inr ?_
    rw [Link.Spent, Link.seen, hseen]
    exact h1
  refine ⟨b, ok.handlers, by rw [hreq]; exact ok.asked, fun id hid => ?_, hbound, ?_, fun s hs id hid => ?_⟩
  · rw [hissued]
    exact ok.issued id (hreq ▸ hid)
  · rw [Link.seen, hseen]
    exact ok.served
  · rw [hissued] at hid
    rcases hsettled s hs with h | h | h
    · exact hsame s id (ok.settled s h id hid)
    · exact .of_unknown h
    · exact hsame s id (h id hid)

/-- A call the peer does not see is settled without a request. -/
theorem LinkOk.refuse (ok : LinkOk l) (message : String) : LinkOk { l with server := refuse l.server message } := by
  refine ok.server (ok.books.refused _ _ (by simp) (by simp)) (.none rfl) rfl fun s hs => ?_
  rcases Peer.settle_settled hs with hs | rfl
  · exact Or.inl hs
  refine Or.inr (Or.inr fun id hid => ?_)
  have := ok.books.callers.2 _ (mem_map_of_mem hid)
  exact absurd this (Nat.lt_irrefl _)

/-- **A call**: its request is new, and a call settled at once is settled without one. -/
theorem LinkOk.peerCall (ok : LinkOk l) (r : CallRequest) (throws : Bool) :
    LinkOk { l with server := Rpc.step serverCfg l.server (.call r throws) } := by
  have b := ok.books
  have b' : (Rpc.step serverCfg l.server (.call r throws)).Books := b.step _
  have hnew : rpcId (l.server.nextId + 1) ∉ l.server.issued.map Prod.snd := b.issue.2.2
  have hissued : (Rpc.step serverCfg l.server (.call r throws)).issued = l.server.issued ∨
      (Rpc.step serverCfg l.server (.call r throws)).issued
        = l.server.issued ++ [(l.server.calls, rpcId (l.server.nextId + 1))] := by
    rcases step_issued serverCfg (.call r throws) with h | ⟨_, _, _, h⟩
    · exact Or.inl h
    · exact Or.inr h
  have hmem : ∀ x, x ∈ (Rpc.step serverCfg l.server (.call r throws)).issued →
      x ∈ l.server.issued ∨ x = (l.server.calls, rpcId (l.server.nextId + 1)) := by
    intro x hx
    rcases hissued with h | h
    · exact Or.inl (h ▸ hx)
    · rw [h] at hx
      simpa using hx
  -- The calls there were have the ids they had.
  have hold : ∀ s ∈ l.server.settled, ∀ id, (s.call, id) ∈ (Rpc.step serverCfg l.server (.call r throws)).issued →
      (s.call, id) ∈ l.server.issued := by
    intro s hs id hid
    rcases hmem _ hid with h | h
    · exact h
    have := b.settled_lt hs
    rw [(Prod.mk.inj h).1] at this
    exact absurd this (Nat.lt_irrefl _)
  rcases call_sent serverCfg r throws with hsent | ⟨hsent, hgiven, hkeep⟩
  · have hreq : requests (Rpc.step serverCfg l.server (.call r throws)).sent = requests l.server.sent := by rw [hsent]
    refine ⟨b', ok.handlers, by rw [hreq]; exact ok.asked, fun id hid => ?_, by rw [hsent]; exact ok.bound,
      ?_, fun s hs id hid => ?_⟩
    · rw [hreq] at hid
      rcases hissued with h | h
      · rw [h]
        exact ok.issued id hid
      · rw [h, map_append]
        exact mem_append_left _ (ok.issued id hid)
    · rw [Link.seen, hsent]
      exact ok.served
    · have hsame : SettledOk l s id → SettledOk
          { l with server := Rpc.step serverCfg l.server (.call r throws) } s id := by
        intro h
        refine ⟨fun hn => ?_, fun hi => h.unknown (hreq ▸ hi), fun hc hu hi => h.unsent hc hu (hreq ▸ hi)⟩
        rw [hreq, Link.Spent, Link.seen, hsent]
        exact h.notRun hn
      -- A call that is settled at once has no request.
      have hnone : s.call = l.server.calls → id ∉ requests l.server.sent := by
        intro hc hi
        rcases hmem _ hid with h | h
        · have := b.callers.2 _ (mem_map_of_mem h)
          rw [hc] at this
          exact absurd this (Nat.lt_irrefl _)
        · rw [(Prod.mk.inj h).2] at hi
          exact hnew (ok.issued _ hi)
      rcases step_settles (.call r throws) hs with h | h | h
      · exact hsame (ok.settled s h id (hold s h id hid))
      · exact .of_unknown h
      · have hc : s.call = l.server.calls := h.elim And.left And.left
        exact hsame ⟨fun _ => Or.inl (hnone hc), fun hi => absurd hi (hnone hc), fun _ _ => hnone hc⟩
  · have hreq : requests (Rpc.step serverCfg l.server (.call r throws)).sent
        = requests l.server.sent ++ [rpcId (l.server.nextId + 1)] := by
      rw [hsent, requests_append]
      rfl
    have hseen : requests ((Rpc.step serverCfg l.server (.call r throws)).sent.take l.toNode) = l.seen := by
      rw [hsent]
      exact seen_append ok.bound _
    refine ⟨b', ok.handlers, ?_, fun id hid => ?_, ?_, ?_, fun s hs id hid => ?_⟩
    · rw [hreq]
      refine nodup_append.mpr ⟨ok.asked, by simp, fun i hi j hj => ?_⟩
      rw [mem_singleton.mp hj]
      rintro rfl
      exact hnew (ok.issued _ hi)
    · rw [hreq] at hid
      rw [hgiven, map_append]
      rcases mem_append.mp hid with hid | hid
      · exact mem_append_left _ (ok.issued id hid)
      · exact mem_append_right _ (by simpa using hid)
    · rw [hsent, length_append]
      exact Nat.le_add_right_of_le ok.bound
    · rw [Link.seen, hseen]
      exact ok.served
    · rw [hkeep] at hs
      have hid := hold s hs id hid
      have h := ok.settled s hs id hid
      have hne : id ≠ rpcId (l.server.nextId + 1) := by
        rintro rfl
        exact hnew (mem_map_of_mem hid)
      have hin : id ∈ requests (Rpc.step serverCfg l.server (.call r throws)).sent ↔ id ∈ requests l.server.sent := by
        rw [hreq]
        simp [hne]
      refine ⟨fun hn => ?_, fun hi => h.unknown (hin.mp hi), fun hc hu hi => h.unsent hc hu (hin.mp hi)⟩
      rw [hin, Link.Spent, Link.seen, hseen]
      exact h.notRun hn

theorem LinkOk.call (ok : LinkOk l) (r : CallRequest) (stream throws : Bool) :
    LinkOk (l.call serverCfg throws r stream) := by
  unfold Link.call
  split
  · exact ok.refuse _
  split
  · exact ok.refuse _
  · exact ok.peerCall r throws

theorem LinkOk.atServer (ok : LinkOk l) {e : Rpc.Event} (he : AtServer e) :
    LinkOk { l with server := Rpc.step serverCfg l.server e } := by
  refine ok.server (ok.books.step e) ?_ ?_ fun s hs => ?_
  · refine (step_sends e).imp id fun ⟨f, hf, hs⟩ => ⟨f, hf, ?_⟩
    cases e with
    | call r throws => exact he.elim
    | receive data throws => exact he.elim
    | notify method params throws =>
      obtain rfl := hs
      rfl
    | beat throws =>
      obtain rfl := hs
      rfl
    | finish number o throws throwsAgain =>
      obtain ⟨h, -, -, -, ⟨v, rfl⟩ | ⟨failure, rfl, -⟩⟩ := hs
      · rfl
      · exact requestId_errorReply _ _
    | abandon n why => exact hs.elim
    | release number => exact hs.elim
    | close => exact hs.elim
  · rcases step_issued serverCfg e with h | ⟨r, throws, rfl, -⟩
    · exact h
    · exact he.elim
  · refine (step_settles e hs).imp_right (Or.imp_right fun h => ?_)
    cases e with
    | call r throws => exact he.elim
    | receive data throws => exact he.elim
    | _ => exact h.elim

/-- **A frame arrives at the server**: what it settles as not run, the node refused. -/
theorem LinkOk.toServer (ok : LinkOk l) (throws : Bool) : LinkOk (step serverCfg nodeCfg l (.toServer throws)) := by
  simp only [step]
  split
  next f hf =>
    have hmem : f ∈ l.node.sent := mem_of_getElem? hf
    have key : LinkOk { l with server := Rpc.step serverCfg l.server (.receive (.text f.text) throws) } := by
      refine ok.server (ok.books.step _) ?_ ?_ fun s hs => ?_
      · refine (step_sends _).imp id fun ⟨g, hg, _, _, _, e⟩ => ⟨g, hg, ?_⟩
        rw [e]
        rfl
      · rcases step_issued serverCfg (.receive (.text f.text) throws) with h | ⟨_, _, e, -⟩
        · exact h
        · cases e
      · refine (step_settles _ hs).imp_right (Or.imp_right ?_)
        rintro ⟨g, id, c, hg, ⟨-, hcause, hcode⟩, hc, hcall⟩ i hi
        cases (Frame.read_text f).symm.trans hg
        -- The call that waited has this id and no other.
        obtain ⟨hcid, hcmem, -⟩ := ok.books.drop hc
        have hown := ok.books.own c hcmem
        rw [hcid, ← hcall] at hown
        obtain rfl := ok.books.issued_inj hi hown
        refine ⟨fun ⟨e, he, hn⟩ => Or.inr ?_, fun _ => Or.inl ⟨id, hcause⟩, fun h => absurd h (by simp [hcause])⟩
        obtain ⟨n, hn', hrefuses⟩ := hcode e he
        refine ok.served.refusals f hmem _ (hrefuses ?_)
        rw [NodeLink.notRun, unreachable_eq, RpcFailure.refused, hn'] at hn
        simp at hn
        exact hn.1
    exact { key with settled := fun s hs id hid => ⟨(key.settled s hs id hid).notRun, (key.settled s hs id hid).unknown,
        (key.settled s hs id hid).unsent⟩ }
  · exact ok

/-! ## Steps of the node's end -/

/-- What the settlements need of the node's side to stay right. -/
theorem LinkOk.settled_of (ok : LinkOk l) {l' : Link} (hserver : l'.server = l.server)
    (hspent : ∀ id, l.Spent id → l'.Spent id) :
    ∀ s ∈ l'.server.settled, ∀ id, (s.call, id) ∈ l'.server.issued → SettledOk l' s id := by
  rw [hserver]
  intro s hs id hid
  have h := ok.settled s hs id hid
  refine ⟨fun hn => ?_, fun hi => h.unknown (hserver ▸ hi), fun hc hu hi => h.unsent hc hu (hserver ▸ hi)⟩
  rw [hserver]
  exact (h.notRun hn).imp_right (hspent id)

theorem LinkOk.node (ok : LinkOk l) {p : Peer} (h : p.Handlers)
    (hidents : (p.handling.map Handling.ident).Sublist l.idents)
    (hsent : l.node.Sends p fun f => ∀ id, f.refuses = some id → l.Spent id) :
    LinkOk { l with node := p } := by
  refine ⟨ok.books, h, ok.asked, ok.issued, ok.bound, ?_, ok.settled_of rfl fun id hs => Spent.fewer hs hidents⟩
  rcases hsent with hs | ⟨f, hs, hf⟩
  · rw [hs]
    exact ok.served.fewer hidents
  · rw [hs]
    exact (ok.served.fewer hidents).send fun id hid => Spent.fewer (hf id hid) hidents

theorem LinkOk.atNode (ok : LinkOk l) {e : Rpc.Event} (he : AtNode e) :
    LinkOk { l with node := Rpc.step nodeCfg l.node e } := by
  have hno : ∀ data throws, e ≠ .receive data throws := by
    rintro data throws rfl
    exact he
  refine ok.node (ok.handlers.step e) (step_handling e hno) ?_
  refine (step_sends e).imp id fun ⟨f, hf, hs⟩ => ⟨f, hf, fun id hid => ?_⟩
  cases e with
  | receive data throws => exact he.elim
  | finish number o throws throwsAgain => exact he.elim
  | call r throws =>
    rw [show f = _ from hs] at hid
    exact absurd hid (by simp [Frame.refuses])
  | notify method params throws =>
    rw [show f = _ from hs] at hid
    exact absurd hid (by simp [Frame.refuses])
  | beat throws =>
    rw [show f = _ from hs] at hid
    exact absurd hid (by simp [Frame.refuses])
  | abandon n why => exact hs.elim
  | release number => exact hs.elim
  | close => exact hs.elim

/-- **A frame arrives at the node**: a request it has not seen. -/
theorem LinkOk.toNode (ok : LinkOk l) (throws : Bool) : LinkOk (step serverCfg nodeCfg l (.toNode throws)) := by
  simp only [step]
  split
  next f hf =>
    have hlt : l.toNode < l.server.sent.length := by
      by_contra hle
      rw [getElem?_eq_none (by omega)] at hf
      cases hf
    have hseen : requests (l.server.sent.take (l.toNode + 1)) = l.seen ++ requests [f] := by
      rw [take_add_one, hf, Option.toList_some, requests_append]
      rfl
    have hfresh : ∀ id, f.requestId = some id → requests [f] = [id] ∧ id ∉ l.seen := by
      intro id hid
      have hone : requests [f] = [id] := by simp [requests, hid]
      refine ⟨hone, fun hmem => ?_⟩
      have hnd : (l.seen ++ requests [f]).Nodup := by
        rw [← hseen]
        exact ok.asked.sublist ((take_sublist _ _).filterMap _)
      rw [hone] at hnd
      exact (nodup_append.mp hnd).2.2 id hmem id (by simp) rfl
    have hsent : l.node.Sends (Rpc.step nodeCfg l.node (.receive (.text f.text) throws))
        fun g => ∀ id, g.refuses ≠ some id := by
      refine (step_sends _).imp id fun ⟨g, hg, _, _, _, e⟩ => ⟨g, hg, fun id => ?_⟩
      simp [e, Frame.refuses]
    have hrefuses : ∀ {seen idents} (_ : Served seen idents l.outcomes l.started l.node.sent),
        Served seen idents l.outcomes l.started (Rpc.step nodeCfg l.node (.receive (.text f.text) throws)).sent := by
      intro seen idents s
      rcases hsent with h | ⟨g, h, hg⟩
      · rw [h]
        exact s
      · rw [h]
        exact s.send fun id hid => absurd hid (hg id)
    have hh : (Rpc.step nodeCfg l.node (.receive (.text f.text) throws)).Handlers := ok.handlers.step _
    rcases receive_handling nodeCfg l.node throws f with h | ⟨x, h, -, hid, -⟩
    · -- No handler was started.
      have hidents : (Rpc.step nodeCfg l.node (.receive (.text f.text) throws)).handling.map
          Handling.ident = l.idents := congrArg (List.map Handling.ident) h
      refine ⟨ok.books, hh, ok.asked, ok.issued, hlt, ?_, ok.settled_of rfl fun id hs => ?_⟩
      · rw [Link.seen, Link.idents, hseen, hidents]
        exact hrefuses (ok.served.more _)
      · rw [Link.Spent, Link.seen, Link.idents, hseen, hidents]
        exact Spent.more hs _
    · have hidents : (Rpc.step nodeCfg l.node (.receive (.text f.text) throws)).handling.map
          Handling.ident = l.idents ++ [x.ident] := by
        rw [show (Rpc.step nodeCfg l.node (.receive (.text f.text) throws)).handling = _ from h, map_append]
        rfl
      obtain ⟨hone, hnew⟩ := hfresh _ hid
      refine ⟨ok.books, hh, ok.asked, ok.issued, hlt, ?_, ok.settled_of rfl fun id hs => ?_⟩
      · rw [Link.seen, Link.idents, hseen, hidents, hone]
        exact hrefuses (ok.served.arrive (x := x.ident) hnew)
      · rw [Link.Spent, Link.seen, Link.idents, hseen, hidents, hone]
        exact Spent.arrive (x := x.ident) hs hnew
  · exact ok

theorem LinkOk.execute (ok : LinkOk l) {number : Nat} (running pausing : Bool) (ran : Ran) :
    LinkOk (step serverCfg nodeCfg l (.execute number running pausing ran)) := by
  simp only [step]
  split
  next h hh =>
    split
    · exact ok
    rename_i hno
    have hnum : h.number = number := by simpa using find?_some hh
    have hmem : h.ident ∈ l.idents := mem_map_of_mem (mem_of_find?_eq_some hh)
    have hnumbers : (l.idents.map Prod.fst).Nodup := by
      rw [Link.idents, map_map]
      exact ok.handlers.distinct
    rw [← hnum] at hno
    refine { ok with served := ?_, settled := ok.settled_of rfl fun id hs => ?_ }
    · exact ok.served.execute hmem hno hnumbers serve_refused
    · exact Spent.execute hs hmem hno
  · exact ok

/-- **A handler answers**: a refusal is of a request whose command was not run. -/
theorem LinkOk.answer (ok : LinkOk l) (number : Nat) (throws throwsAgain : Bool) :
    LinkOk (step serverCfg nodeCfg l (.answer number throws throwsAgain)) := by
  simp only [step]
  split
  next o ho =>
    have hmem : (number, o) ∈ l.outcomes := by
      obtain ⟨as, bs, he, -⟩ := lookup_eq_some_iff.mp ho
      rw [he]
      simp
    refine ok.node (ok.handlers.step _) (step_handling _ (by simp)) ?_
    refine (step_sends _).imp id fun ⟨f, hf, h, hh, hnum, _, hr⟩ => ⟨f, hf, fun id hid => ?_⟩
    rcases hr with ⟨v, rfl⟩ | ⟨failure, rfl, hr⟩
    · exact absurd hid (by simp [Frame.refuses])
    obtain ⟨rfl, hrefused⟩ := refuses_errorReply hid
    have hx : h.ident ∈ l.idents := mem_map_of_mem hh
    rcases hr with hdata | rfl
    · -- A failure with no data says nothing of the kind.
      unfold RpcFailure.refused at hrefused
      rw [hdata] at hrefused
      split at hrefused <;> exact absurd hrefused (by simp)
    · rw [← hnum] at hmem
      exact ok.served.answer (x := h.ident) hx hmem hrefused
  · exact ok

/-! ## Runs -/

theorem LinkOk.step (ok : LinkOk l) (e : Event) : LinkOk (step serverCfg nodeCfg l e) := by
  cases e with
  | call r stream throws => exact ok.call r stream throws
  | authenticate r throws => exact ok.peerCall _ throws
  | toNode throws => exact ok.toNode throws
  | toServer throws => exact ok.toServer throws
  | execute number running pausing ran => exact ok.execute running pausing ran
  | answer number throws throwsAgain => exact ok.answer number throws throwsAgain
  | server e =>
    simp only [NodeLink.step]
    split
    next he =>
      exact ok.atServer he
    · exact ok
  | node e =>
    simp only [NodeLink.step]
    split
    next he =>
      exact ok.atNode he
    · exact ok
  | ready | negotiated | closeStreams =>
    exact { ok with settled := ok.settled_of rfl fun _ hs => hs }

end

theorem run_ok (serverCfg nodeCfg : Config) (es : List Event) : LinkOk (run serverCfg nodeCfg es) :=
  Run.exec_invariant LinkOk (fun _ e ok => ok.step e) .fresh es

/-- **Failures are classified soundly.** In every state of a link, the request of a call that
failed as not run has run no command at the node, nor has that of a call the peer settled itself
with its outcome known: not connected, too many in flight, aborted before sending, too large. A call
whose request the socket took is settled by its reply, or with its outcome unknown. -/
theorem notRun_sound (serverCfg nodeCfg : Config) (es : List Event) : ∀ s ∈ (run serverCfg nodeCfg es).server.settled,
      ∀ id, (s.call, id) ∈ (run serverCfg nodeCfg es).server.issued → (∀ f, s.outcome = .error f → notRun f = true →
          id ∉ (run serverCfg nodeCfg es).started.map Prod.fst) ∧
        (s.cause = .refused ∨ s.cause = .sendFailed → ¬ s.Unknown →
          id ∉ (run serverCfg nodeCfg es).started.map Prod.fst) ∧
        (id ∈ requests (run serverCfg nodeCfg es).server.sent → (∃ i, s.cause = .reply i) ∨
            ∃ f, s.outcome = .error f ∧ f.code = .unavailable ∧ f.unknown = true) := by
  intro s hs id hid
  have ok := run_ok serverCfg nodeCfg es
  have h := ok.settled s hs id hid
  have hsent : id ∈ (run serverCfg nodeCfg es).started.map Prod.fst →
      id ∈ requests (run serverCfg nodeCfg es).server.sent :=
    fun hmem => Link.mem_requests_of_seen (ok.served.known id hmem)
  refine ⟨fun f hf hn hmem => ?_, fun hc hu hmem => h.unsent hc hu (hsent hmem), h.unknown⟩
  rcases h.notRun ⟨f, hf, hn⟩ with hnot | hspent
  · exact hnot (hsent hmem)
  · exact hspent.notStarted hmem

/-- A call whose frame the server's peer finds too large: it fails with its outcome known. -/
theorem notRun_sound_tooLarge : let cfg : Config := { handlers := [], maxFrameBytes := 0, missedIntervals := 1 }
    let r : CallRequest := ⟨js "ls", none, ⟨some, fun _ => rfl⟩, none, false⟩
    let l := run cfg cfg [.ready, .call r false false]
    (0, rpcId 1) ∈ l.server.issued ∧ rpcId 1 ∉ l.started.map Prod.fst := by
  intro cfg r l
  have hissued : (0, rpcId 1) ∈ l.server.issued := mem_singleton.mpr rfl
  have hsettled : ⟨0, .sendFailed, .error cfg.tooLarge⟩ ∈ l.server.settled := mem_singleton.mpr rfl
  refine ⟨hissued, (notRun_sound cfg cfg _ _ hsettled _ hissued).2.1 (Or.inr rfl) ?_⟩
  rintro ⟨f, hf, hcode, -⟩
  obtain rfl := Except.error.inj hf
  cases hcode

end Reins.NodeLink
