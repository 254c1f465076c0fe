import Reins.Backend.NodeLink

/-!
# Sending a call again (`backend/src/nodes/node-dir-client.ts`, `onNode` and its callers)

A `NodeDirClient`'s calls over every link the node ever has. A call goes to the hub's link of the
moment; `onNode` sends it again where its failure allows, on the link there is then. Links drop and
are replaced, the node pauses and restarts, calls time out: all of it is the environment's, in any
order. A node that restarted serves its new links only.

A command and a process are not safe to repeat, so they are sent again only after a failure that
says they did not run. That what was read off the failure is right is the link's invariant
(`NodeLink.LinkOk`); here every attempt of such a call but the last failed so, hence at most one of
them ever started anything.
-/

open Utf Schema List

namespace Reins.NodeDirClient

open Rpc NodeLink Places

/-! ## What is asked of the node -/

inductive FileMethod
  | absolutePath
  | canonicalPath
  | info
  | list
  | read
  | write
  deriving DecidableEq

def FileMethod.name : FileMethod → String
  | .absolutePath => "fs.absolutePath"
  | .canonicalPath => "fs.canonicalPath"
  | .info => "fs.info"
  | .list => "fs.list"
  | .read => "fs.read"
  | .write => "fs.write"

/-- A call the server makes of the node. All but `node.reload` go through `onNode`. -/
inductive Operation
  | file (method : FileMethod) (input : Members)
  | spawn (cwd : JsString) (argv : List JsString) (env : Option Json) (binary : Bool)
  | exec (cwd execId command : JsString) (options : Json)
  | attach (execId : JsString) (offset : SafeInt)
  | kill (execId : JsString)
  | reload (force : Bool)

def Operation.method : Operation → JsString
  | .file method _ => js method.name
  | .spawn .. => PROCESS_RUN
  | .exec .. => PI_EXEC
  | .attach .. => js "pi.execAttach"
  | .kill _ => js "pi.execKill"
  | .reload _ => js "node.reload"

def Operation.stream : Operation → Bool
  | .file method _ => method = .read
  | .spawn .. | .exec .. | .attach .. => true
  | .kill _ | .reload _ => false

def Operation.input : Operation → Members
  | .file _ input => input
  | .spawn cwd argv env binary =>
    [(js "cwd", .str cwd), (js "argv", .arr (argv.map .str))] ++ optionalMember "env" env ++
      optionalMember "binary" (if binary then some (.bool true) else none)
  | .exec cwd execId command options =>
    [(js "cwd", .str cwd), (js "execId", .str execId), (js "command", .str command), (js "options", options)]
  | .attach execId offset => [(js "execId", .str execId), (js "offset", Json.ofInt offset.val)]
  | .kill execId => [(js "execId", .str execId)]
  | .reload force => [(js "force", .bool force)]

def Operation.params (o : Operation) (streamId : JsString) : Value :=
  some (.obj (o.input ++ if o.stream then [(js "streamId", .str streamId)] else []))

/-- It has an `unknownWindowMs`: safe to repeat, so sent again with its outcome unknown too. -/
def Operation.repeatable : Operation → Bool
  | .file .. | .attach .. | .kill _ => true
  | .spawn .. | .exec .. | .reload _ => false

def Operation.execId : Operation → Option JsString
  | .exec _ execId _ _ => some execId
  | _ => none

theorem Operation.exec_once {o : Operation} {execId : JsString} (h : o.execId = some execId) :
    o.repeatable = false := by
  cases o with
  | exec cwd e command options => rfl
  | _ => exact absurd h (by simp [Operation.execId])

/-! ## Sending it -/

inductive Phase
  /-- It sends its next attempt when its backoff is over. -/
  | idle
  | calling (conn call : Nat)
  | over
  deriving DecidableEq

structure Op where
  operation : Operation
  waitForNode : Bool
  phase : Phase
  /-- The connection and the call of each attempt the peer or the stream layer has seen. -/
  attempts : List (Nat × Nat)

/-- What `onNode` reads besides the failure: its signal, and whether its deadlines have passed. -/
structure Moment where
  aborted : Bool
  late : Bool
  unknownLate : Bool

/-- `onNode`'s `catch`: the call is sent again. -/
def Op.resends (op : Op) (m : Moment) (f : RpcFailure) : Bool :=
  op.waitForNode && unreachable f && !m.aborted && !m.late && (notRun f || op.operation.repeatable && !m.unknownLate)

def Op.failed (op : Op) (m : Moment) (f : RpcFailure) : Op :=
  { op with phase := if op.resends m f then .idle else .over }

/-- A node's connection, and the run of the node's process it is to. -/
structure Conn where
  life : Nat
  link : Link

variable {op : Op} {n i c : Nat} {a : Nat × Nat} {x : Nat × JsString} {conn : Conn} {phase : Phase}

inductive Hub
  | linked (conn : Nat)
  | unlinked
  | removed

structure System where
  life : Nat
  conns : List Conn
  hub : Hub
  ops : List Op

def System.fresh : System := { life := 0, conns := [], hub := .unlinked, ops := [] }

structure Attempt where
  streamId : JsString
  schema : CallSchema
  errorData : Option ErrorData
  throws : Bool
  moment : Moment

def Op.request (op : Op) (a : Attempt) : CallRequest :=
  { method := op.operation.method, params := op.operation.params a.streamId, schema := a.schema,
    errorData := a.errorData, aborted := a.moment.aborted }

inductive Event
  | connect
  /-- The hub registers a link, or has none; the app is replaced. -/
  | hub (h : Hub)
  | restart
  /-- Anything but a call on one of the connections. -/
  | link (conn : Nat) (e : NodeLink.Event)
  | begin (o : Operation) (waitForNode : Bool)
  | attempt (n : Nat) (a : Attempt)
  /-- The caller goes on once its call is settled. -/
  | settle (n : Nat) (m : Moment)

def atNodeEnd : NodeLink.Event → Bool
  | .node _ | .negotiated | .toNode _ | .execute .. | .answer .. => true
  | _ => false

def isCall : NodeLink.Event → Bool
  | .call .. => true
  | _ => false

def System.linked (s : System) : Option (Nat × Conn) :=
  match s.hub with
  | .linked i => (s.conns[i]?).map fun conn => (i, conn)
  | _ => none

def System.begin (s : System) (o : Operation) (waitForNode : Bool) : System :=
  -- `crypto.randomUUID()`: no command was sent under it before.
  if o.execId ≠ none ∧ o.execId ∈ s.ops.map fun op => op.operation.execId then s
  else { s with ops := s.ops ++ [⟨o, waitForNode, .idle, []⟩] }

section

variable (serverCfg nodeCfg : Config)

def System.attempt (s : System) (n : Nat) (op : Op) (a : Attempt) : System :=
  match s.hub, s.linked with
  | .removed, _ => { s with ops := s.ops.set n { op with phase := .over } }
  | _, none => { s with ops := s.ops.set n (op.failed a.moment (unavailable "Node not connected" false)) }
  | _, some (i, conn) =>
    { s with
      conns := s.conns.set i { conn with
        link := NodeLink.step serverCfg nodeCfg conn.link (.call (op.request a) op.operation.stream a.throws) },
      ops := s.ops.set n { op with
        phase := .calling i conn.link.server.calls,
        attempts := op.attempts ++ [(i, conn.link.server.calls)] } }

def System.settlement (s : System) (conn call : Nat) : Option Settlement :=
  (s.conns[conn]?).bind fun c => c.link.server.settled.find? fun t => t.call = call

def System.settle (s : System) (n : Nat) (op : Op) (m : Moment) (t : Settlement) : System :=
  match t.outcome with
  | .ok _ => { s with ops := s.ops.set n { op with phase := .over } }
  | .error f => { s with ops := s.ops.set n (op.failed m f) }

def step (s : System) : Event → System
  | .connect => { s with conns := s.conns ++ [⟨s.life, .fresh⟩] }
  | .hub h => { s with hub := h }
  | .restart => { s with life := s.life + 1 }
  | .link i e =>
    match s.conns[i]? with
    | some conn =>
      if isCall e ∨ atNodeEnd e ∧ conn.life ≠ s.life then s
      else
        { s with
          conns := s.conns.set i { conn with link := NodeLink.step serverCfg nodeCfg conn.link e } }
    | none => s
  | .begin o waitForNode => s.begin o waitForNode
  | .attempt n a =>
    match s.ops[n]? with
    | some op => if op.phase = .idle then s.attempt serverCfg nodeCfg n op a else s
    | none => s
  | .settle n m =>
    match s.ops[n]? with
    | some op =>
      match op.phase with
      | .calling i c =>
        match s.settlement i c with
        | some t => s.settle n op m t
        | none => s
      | _ => s
    | none => s

def run (es : List Event) : System := Run.exec (step serverCfg nodeCfg) .fresh es

end

/-! ## What started -/

/-- The requests whose command ran, on every connection. -/
def System.starts (s : System) : List (Nat × JsString) :=
  s.conns.zipIdx.flatMap fun (conn, i) => conn.link.started.map fun x => (i, x.1)

def System.callOf (s : System) (x : Nat × JsString) : Option (Nat × Nat) :=
  (s.conns[x.1]?).bind fun conn => (conn.link.server.issued.find? fun y => y.2 = x.2).map fun y => (x.1, y.1)

def System.startsOf (s : System) (op : Op) : List (Nat × JsString) :=
  s.starts.filter fun x => (s.callOf x).any (· ∈ op.attempts)

def asksFor (execId : JsString) (id : JsString) : Frame → Bool
  | .request i method (some (.obj ms)) =>
    i.key = id && method = PI_EXEC && required readString "execId" ms = some execId
  | _ => false

def System.execStarts (s : System) (execId : JsString) : List (Nat × JsString) :=
  s.starts.filter fun x => (s.conns[x.1]?).any fun conn => conn.link.server.sent.any (asksFor execId x.2)

def challenges (id : JsString) : Frame → Bool
  | .request i method _ => i.key = id && method = NODE_AUTHENTICATE
  | _ => false

def System.isChallenge (s : System) (x : Nat × JsString) : Bool :=
  (s.conns[x.1]?).any fun conn => conn.link.server.sent.any (challenges x.2)

/-! ## The invariant -/

def NotRunAt (conns : List Conn) (a : Nat × Nat) : Prop :=
  ∃ conn t, conns[a.1]? = some conn ∧ t ∈ conn.link.server.settled ∧ t.call = a.2 ∧ NotRun t

def Op.earlier (op : Op) : List (Nat × Nat) := if op.phase = .idle then op.attempts else op.attempts.dropLast

/-- The request is one of the operation's, for an attempt it made on this connection. -/
def Op.Asks (op : Op) (i : Nat) (p : Peer) (id : Id) (method : JsString) (params : Value) : Prop :=
  ∃ c streamId, (i, c) ∈ op.attempts ∧ (c, id.key) ∈ p.issued ∧ method = op.operation.method ∧
    params = op.operation.params streamId

structure Ok (conns : List Conn) (ops : List Op) : Prop where
  link : ∀ conn ∈ conns, LinkOk conn.link
  made : ∀ op ∈ ops, ∀ a ∈ op.attempts, ∃ conn, conns[a.1]? = some conn ∧ a.2 < conn.link.server.calls
  own : ∀ op ∈ ops, op.attempts.Nodup
  apart : ∀ (n m : Nat) (op op' : Op), ops[n]? = some op → ops[m]? = some op' →
    ∀ a ∈ op.attempts, a ∈ op'.attempts → n = m
  execs : ∀ (n m : Nat) (op op' : Op) (e : JsString), ops[n]? = some op → ops[m]? = some op' →
    op.operation.execId = some e → op'.operation.execId = some e → n = m
  current : ∀ op ∈ ops, ∀ i c, op.phase = .calling i c → op.attempts.getLast? = some (i, c)
  asked : ∀ (i : Nat) (conn : Conn), conns[i]? = some conn → ∀ id method params,
    .request id method params ∈ conn.link.server.sent → method ≠ NODE_AUTHENTICATE →
      ∃ op ∈ ops, op.Asks i conn.link.server id method params
  spent : ∀ op ∈ ops, op.operation.repeatable = false → ∀ a ∈ op.earlier, NotRunAt conns a

/-- The connections there were are there, each in a later state. -/
def Grown (conns conns' : List Conn) : Prop :=
  ∀ (i : Nat) (conn : Conn), conns[i]? = some conn →
    ∃ conn', conns'[i]? = some conn' ∧ Keeps conn.link.server conn'.link.server

theorem Ok.fresh : Ok [] [] := by
  constructor <;> simp

section

variable {conns conns' : List Conn} {ops : List Op}

theorem Grown.refl (conns : List Conn) : Grown conns conns := fun _ conn h => ⟨conn, h, .refl _⟩

theorem Grown.append (conns : List Conn) (conn : Conn) : Grown conns (conns ++ [conn]) := by
  intro i c h
  exact ⟨c, getElem?_append_some h [conn], .refl _⟩

theorem Grown.set {conn' : Conn} (h : conns[i]? = some conn)
    (hk : Keeps conn.link.server conn'.link.server) : Grown conns (conns.set i conn') := by
  intro j c hc
  have hlt : i < conns.length := (List.getElem?_eq_some_iff.mp h).1
  by_cases hij : i = j
  · subst hij
    cases h.symm.trans hc
    exact ⟨conn', getElem?_set_self hlt, hk⟩
  · exact ⟨c, by rw [getElem?_set_ne hij]; exact hc, .refl _⟩

theorem Grown.notRunAt (g : Grown conns conns') (h : NotRunAt conns a) : NotRunAt conns' a := by
  obtain ⟨conn, t, hc, ht, hcall, hn⟩ := h
  obtain ⟨conn', hc', hk⟩ := g _ _ hc
  exact ⟨conn', t, hc', hk.settled ht, hcall, hn⟩

theorem Grown.made (g : Grown conns conns')
    (h : ∃ conn : Conn, conns[a.1]? = some conn ∧ a.2 < conn.link.server.calls) :
    ∃ conn : Conn, conns'[a.1]? = some conn ∧ a.2 < conn.link.server.calls := by
  obtain ⟨conn, hc, hlt⟩ := h
  obtain ⟨conn', hc', hk⟩ := g _ _ hc
  exact ⟨conn', hc', hlt.trans_le hk.calls⟩

/-- **Only the connections move on**: no request is added. -/
theorem Ok.moved (ok : Ok conns ops) (g : Grown conns conns') (hlink : ∀ conn ∈ conns', LinkOk conn.link)
    (hasked : ∀ (i : Nat) (conn' : Conn), conns'[i]? = some conn' → ∀ id method params,
      .request id method params ∈ conn'.link.server.sent → method ≠ NODE_AUTHENTICATE →
        ∃ conn, conns[i]? = some conn ∧ .request id method params ∈ conn.link.server.sent) :
    Ok conns' ops := by
  refine ⟨hlink, fun op hop a ha => g.made (ok.made op hop a ha), ok.own, ok.apart, ok.execs,
    ok.current, fun i conn' hc' id method params hq hm => ?_,
    fun op hop hr a ha => g.notRunAt (ok.spent op hop hr a ha)⟩
  obtain ⟨conn, hc, hmem⟩ := hasked i conn' hc' id method params hq hm
  obtain ⟨op, hop, c, streamId, hatt, hiss, hp⟩ := ok.asked i conn hc id method params hmem hm
  obtain ⟨conn'', hc'', hk⟩ := g i conn hc
  cases hc'.symm.trans hc''
  exact ⟨op, hop, c, streamId, hatt, hk.issued hiss, hp⟩

/-- **An operation goes on**, with an attempt of its own or none: every attempt it will follow
failed as not run, if it is not repeatable. -/
theorem Ok.goes (ok : Ok conns ops) (made : List (Nat × Nat)) (g : Grown conns conns')
    (hlink : ∀ conn ∈ conns', LinkOk conn.link) {op' : Op}
    (hn : ops[n]? = some op) (hop : op'.operation = op.operation)
    (hatt : op'.attempts = op.attempts ++ made) (hown : made.Nodup)
    (hnew : ∀ a ∈ made, (∃ conn, conns'[a.1]? = some conn ∧ a.2 < conn.link.server.calls) ∧
      ∀ conn : Conn, conns[a.1]? = some conn → conn.link.server.calls ≤ a.2)
    (hcurrent : ∀ i c, op'.phase = .calling i c → op'.attempts.getLast? = some (i, c))
    (hasked : ∀ (i : Nat) (conn' : Conn), conns'[i]? = some conn' → ∀ id method params,
      .request id method params ∈ conn'.link.server.sent → method ≠ NODE_AUTHENTICATE →
        (∃ conn, conns[i]? = some conn ∧ .request id method params ∈ conn.link.server.sent) ∨
          op'.Asks i conn'.link.server id method params)
    (hspent : op.operation.repeatable = false → ∀ a ∈ op'.earlier, NotRunAt conns a) :
    Ok conns' (ops.set n op') := by
  have hmem : op ∈ ops := mem_of_getElem? hn
  have hlt : n < ops.length := (List.getElem?_eq_some_iff.mp hn).1
  have hself : op' ∈ ops.set n op' := mem_set hlt _
  -- No attempt anyone made is one of the new ones.
  have hfresh : ∀ q ∈ ops, ∀ a ∈ q.attempts, a ∉ made := by
    intro q hq a ha hmade
    obtain ⟨conn, hc, hcalls⟩ := ok.made q hq a ha
    exact absurd ((hnew a hmade).2 conn hc) (by omega)
  refine ⟨hlink, fun q hq a ha => ?_, fun q hq => ?_, fun i j q q' hi hj a ha ha' => ?_,
    fun i j q q' e hi hj hq hq' => ?_, fun q hq i c hp => ?_,
    fun i conn' hc' id method params hsent hne => ?_, fun q hq hr a ha => ?_⟩
  · rcases mem_or_eq_of_mem_set hq with hq | rfl
    · exact g.made (ok.made q hq a ha)
    rw [hatt, mem_append] at ha
    rcases ha with ha | ha
    · exact g.made (ok.made op hmem a ha)
    · exact (hnew a ha).1
  · rcases mem_or_eq_of_mem_set hq with hq | rfl
    · exact ok.own q hq
    rw [hatt]
    refine nodup_append.mpr ⟨ok.own op hmem, hown, fun a ha b hb => ?_⟩
    rintro rfl
    exact hfresh op hmem a ha hb
  · rcases getElem?_set_cases hi with ⟨rfl, rfl⟩ | ⟨-, hi'⟩ <;> rcases getElem?_set_cases hj with ⟨rfl, rfl⟩ | ⟨-, hj'⟩
    · rfl
    · rw [hatt, mem_append] at ha
      rcases ha with ha | ha
      · exact ok.apart _ _ _ _ hn hj' a ha ha'
      · exact absurd ha (hfresh _ (mem_of_getElem? hj') a ha')
    · rw [hatt, mem_append] at ha'
      rcases ha' with ha' | ha'
      · exact ok.apart _ _ _ _ hi' hn a ha ha'
      · exact absurd ha' (hfresh _ (mem_of_getElem? hi') a ha)
    · exact ok.apart _ _ _ _ hi' hj' a ha ha'
  · rcases getElem?_set_cases hi with ⟨rfl, rfl⟩ | ⟨-, hi'⟩ <;> rcases getElem?_set_cases hj with ⟨rfl, rfl⟩ | ⟨-, hj'⟩
    · rfl
    · exact ok.execs _ _ _ _ e hn hj' (hop ▸ hq) hq'
    · exact ok.execs _ _ _ _ e hi' hn hq (hop ▸ hq')
    · exact ok.execs _ _ _ _ e hi' hj' hq hq'
  · rcases mem_or_eq_of_mem_set hq with hq | rfl
    · exact ok.current q hq i c hp
    · exact hcurrent i c hp
  · rcases hasked i conn' hc' id method params hsent hne with ⟨conn, hc, hs⟩ | h
    · obtain ⟨q, hq, c, streamId, ha, hiss, hm, hps⟩ := ok.asked i conn hc id method params hs hne
      obtain ⟨conn'', hc'', hk⟩ := g i conn hc
      cases hc'.symm.trans hc''
      obtain ⟨j, hj⟩ := getElem?_of_mem hq
      by_cases hjn : j = n
      · subst hjn
        cases hn.symm.trans hj
        exact ⟨op', hself, c, streamId, hatt ▸ mem_append_left _ ha, hk.issued hiss, hop ▸ hm, hop ▸ hps⟩
      refine ⟨q, mem_of_getElem? (i := j) ?_, c, streamId, ha, hk.issued hiss, hm, hps⟩
      rw [getElem?_set_ne (Ne.symm hjn)]
      exact hj
    · exact ⟨op', hself, h⟩
  · rcases mem_or_eq_of_mem_set hq with hq | rfl
    · exact g.notRunAt (ok.spent q hq hr a ha)
    · exact g.notRunAt (hspent (hop ▸ hr) a ha)

/-! ## Steps -/

/-- The same with no attempt: the operation stops, or waits to be sent again. -/
theorem Ok.turns (ok : Ok conns ops) (hn : ops[n]? = some op) (hphase : ∀ i c, phase ≠ .calling i c)
    (hspent : op.operation.repeatable = false → ∀ a ∈ ({ op with phase := phase } : Op).earlier, NotRunAt conns a) :
    Ok conns (ops.set n { op with phase := phase }) :=
  ok.goes [] (.refl conns) ok.link hn rfl (by simp) (by simp) (by simp)
    (fun i c h => absurd h (hphase i c)) (fun i conn hc _ _ _ h _ => Or.inl ⟨conn, hc, h⟩) hspent

theorem Op.earlier_idle (h : op.phase = .idle) : op.earlier = op.attempts := if_pos h

theorem Op.earlier_dropLast (h : op.phase ≠ .idle) : op.earlier = op.attempts.dropLast := if_neg h

theorem Op.earlier_subset (op : Op) : op.earlier ⊆ op.attempts := by
  unfold Op.earlier
  split
  · exact List.Subset.refl _
  · exact dropLast_subset _

theorem Op.notRun_of_resends {m : Moment} {f : RpcFailure}
    (h : op.resends m f = true) (hr : op.operation.repeatable = false) : notRun f = true := by
  simp only [Op.resends, hr, Bool.false_and, Bool.or_false, Bool.and_eq_true] at h
  exact h.2

/-- An operation that has sent nothing since its last failure stops, or waits once more. -/
theorem Ok.unsent (ok : Ok conns ops) (hn : ops[n]? = some op)
    (hidle : op.phase = .idle) (hphase : ∀ i c, phase ≠ .calling i c) :
    Ok conns (ops.set n { op with phase := phase }) :=
  ok.turns hn hphase fun hr a ha => by
    refine ok.spent op (mem_of_getElem? hn) hr a ?_
    rw [Op.earlier_idle hidle]
    exact Op.earlier_subset { op with phase := phase } ha

/-- **A call is settled**: its operation is over, or sent again. -/
theorem Ok.settled (ok : Ok conns ops) (hn : ops[n]? = some op)
    (hp : op.phase = .calling i c) (hphase : ∀ i c, phase ≠ .calling i c)
    (hagain : op.operation.repeatable = false → phase = .idle → NotRunAt conns (i, c)) :
    Ok conns (ops.set n { op with phase := phase }) := by
  have hmem : op ∈ ops := mem_of_getElem? hn
  have hlast := ok.current op hmem i c hp
  refine ok.turns hn hphase fun hr a ha => ?_
  have hearlier := ok.spent op hmem hr
  rw [Op.earlier_dropLast (by rw [hp]; simp)] at hearlier
  by_cases hidle : phase = .idle
  · rw [Op.earlier_idle hidle] at ha
    -- All the attempts are now followed by another: the last one too.
    rw [← dropLast_append_getLast? _ hlast, mem_append, mem_singleton] at ha
    rcases ha with ha | rfl
    · exact hearlier a ha
    · exact hagain hr hidle
  · rw [Op.earlier_dropLast hidle] at ha
    exact hearlier a ha

variable {serverCfg nodeCfg : Config}

/-- **A call is made**: all attempts before it failed as not run, if it is not repeatable. -/
theorem Ok.called (ok : Ok conns ops) (hn : ops[n]? = some op)
    (hidle : op.phase = .idle) (hi : conns[i]? = some conn) (a : Attempt) :
    Ok (conns.set i { conn with
        link := NodeLink.step serverCfg nodeCfg conn.link (.call (op.request a) op.operation.stream a.throws) })
      (ops.set n { op with
        phase := .calling i conn.link.server.calls,
        attempts := op.attempts ++ [(i, conn.link.server.calls)] }) := by
  have hmem : op ∈ ops := mem_of_getElem? hn
  have hlt : i < conns.length := (List.getElem?_eq_some_iff.mp hi).1
  have hcalls := call_calls serverCfg conn.link (op.request a) op.operation.stream a.throws
  refine ok.goes _ (.set hi (step_keeps _)) (fun c hc => ?_) hn rfl rfl (by simp) (fun b hb => ?_)
    (fun j c hp => ?_) (fun j c hc id method params hsent hne => ?_) fun hr b hb => ?_
  · rcases mem_or_eq_of_mem_set hc with hc | rfl
    · exact ok.link c hc
    · exact (ok.link conn (mem_of_getElem? hi)).call _ _ _
  · rw [mem_singleton.mp hb]
    refine ⟨⟨_, getElem?_set_self hlt, ?_⟩, fun c hc => ?_⟩
    · simp only [NodeLink.step, hcalls]
      exact Nat.lt_succ_self _
    · rw [Option.some.inj (hi.symm.trans hc)]
  · cases hp
    simp
  · rcases getElem?_set_cases hc with ⟨rfl, rfl⟩ | ⟨-, hc⟩
    · rcases step_asks hsent with h | h | ⟨r, stream, throws, he, hiss, rfl, rfl⟩
      · exact Or.inl ⟨conn, hi, h⟩
      · exact absurd h hne
      · cases he
        exact Or.inr ⟨_, a.streamId, mem_append_right _ (by simp), hiss, rfl, rfl⟩
    · exact Or.inl ⟨c, hc, hsent⟩
  · rw [Op.earlier_dropLast (by simp), dropLast_concat] at hb
    exact ok.spent op hmem hr b (Op.earlier_idle hidle ▸ hb)

theorem Ok.linkStep (ok : Ok conns ops) (hi : conns[i]? = some conn) {e : NodeLink.Event} (he : isCall e = false) :
    Ok (conns.set i { conn with link := NodeLink.step serverCfg nodeCfg conn.link e }) ops := by
  refine ok.moved (.set hi (step_keeps _)) (fun c hc => ?_) fun j c hc id method params hsent hne => ?_
  · rcases mem_or_eq_of_mem_set hc with hc | rfl
    · exact ok.link c hc
    · exact LinkOk.step (ok.link conn (mem_of_getElem? hi)) e
  rcases getElem?_set_cases hc with ⟨rfl, rfl⟩ | ⟨-, hc⟩
  · refine ⟨conn, hi, ?_⟩
    rcases step_asks hsent with h | h | ⟨r, stream, throws, rfl, -⟩
    · exact h
    · exact absurd h hne
    · exact absurd he (by simp [isCall])
  · exact ⟨c, hc, hsent⟩

theorem Ok.connect (ok : Ok conns ops) (life : Nat) : Ok (conns ++ [⟨life, .fresh⟩]) ops := by
  refine ok.moved (.append _ _) (fun c hc => ?_) fun j c hc id method params hsent _ => ?_
  · rcases mem_concat_cases hc with hc | rfl
    · exact ok.link c hc
    · exact .fresh
  rcases getElem?_concat_cases hc with hc | ⟨-, rfl⟩
  · exact ⟨c, hc, hsent⟩
  · exact absurd hsent not_mem_nil

theorem Ok.begin (ok : Ok conns ops) {o : Operation} (waitForNode : Bool)
    (hnew : o.execId ≠ none → o.execId ∉ ops.map fun op => op.operation.execId) :
    Ok conns (ops ++ [⟨o, waitForNode, .idle, []⟩]) := by
  have hexec : ∀ (n : Nat) (op : Op) (e : JsString), ops[n]? = some op →
      op.operation.execId = some e → o.execId ≠ some e := by
    intro n op e hn he ho
    refine hnew (by simp [ho]) ?_
    rw [ho, ← he]
    exact mem_map_of_mem (mem_of_getElem? hn)
  have hmem : ∀ op ∈ ops ++ [⟨o, waitForNode, .idle, []⟩], op ∈ ops ∨ op.attempts = [] ∧ op.phase = .idle := by
    intro op hop
    rw [mem_append, mem_singleton] at hop
    exact hop.imp_right fun h => by rw [h]; exact ⟨rfl, rfl⟩
  refine ⟨ok.link, fun op hop a ha => ?_, fun op hop => ?_, fun n m op op' hn hm a ha ha' => ?_,
    fun n m op op' e hn hm he he' => ?_, fun op hop i c hp => ?_,
    fun i conn hc id method params hsent hne => ?_, fun op hop hr a ha => ?_⟩
  · rcases hmem op hop with h | ⟨h, -⟩
    · exact ok.made op h a ha
    · rw [h] at ha
      exact absurd ha not_mem_nil
  · rcases hmem op hop with h | ⟨h, -⟩
    · exact ok.own op h
    · rw [h]
      exact nodup_nil
  · rcases getElem?_concat_cases hn with hn | ⟨-, rfl⟩
    · rcases getElem?_concat_cases hm with hm | ⟨-, rfl⟩
      · exact ok.apart n m op op' hn hm a ha ha'
      · exact absurd ha' not_mem_nil
    · exact absurd ha not_mem_nil
  · rcases getElem?_concat_cases hn with hn' | ⟨hn', rfl⟩ <;> rcases getElem?_concat_cases hm with hm' | ⟨hm', rfl⟩
    · exact ok.execs n m op op' e hn' hm' he he'
    · exact absurd he' (hexec n op e hn' he)
    · exact absurd he (hexec m op' e hm' he')
    · rw [hn', hm']
  · rcases hmem op hop with h | ⟨-, h⟩
    · exact ok.current op h i c hp
    · rw [h] at hp
      cases hp
  · obtain ⟨op, hop, h⟩ := ok.asked i conn hc id method params hsent hne
    exact ⟨op, mem_append_left _ hop, h⟩
  · rcases hmem op hop with h | ⟨h, -⟩
    · exact ok.spent op h hr a ha
    have := Op.earlier_subset op ha
    rw [h] at this
    exact absurd this not_mem_nil

end

section

variable {serverCfg nodeCfg : Config} {s : System}

theorem Ok.failed (ok : Ok s.conns s.ops) (hn : s.ops[n]? = some op)
    (hidle : op.phase = .idle) (m : Moment) (f : RpcFailure) :
    Ok s.conns (s.ops.set n (op.failed m f)) :=
  ok.unsent hn hidle (by intro i c; split <;> simp)

theorem Ok.attempt (ok : Ok s.conns s.ops) (hn : s.ops[n]? = some op) (hidle : op.phase = .idle) (a : Attempt) :
    Ok (s.attempt serverCfg nodeCfg n op a).conns (s.attempt serverCfg nodeCfg n op a).ops := by
  unfold System.attempt
  split
  · exact ok.unsent hn hidle (by simp)
  · exact ok.failed hn hidle _ _
  next i conn hlinked _ =>
    refine ok.called hn hidle ?_ a
    unfold System.linked at hlinked
    split at hlinked
    · obtain ⟨c, hc, he⟩ := Option.map_eq_some_iff.mp hlinked
      cases he
      exact hc
    · cases hlinked

theorem System.settlement_spec {t : Settlement} (h : s.settlement i c = some t) :
    ∃ conn, s.conns[i]? = some conn ∧ t ∈ conn.link.server.settled ∧ t.call = c := by
  obtain ⟨conn, hc, ht⟩ := Option.bind_eq_some_iff.mp h
  exact ⟨conn, hc, mem_of_find?_eq_some ht, by simpa using find?_some ht⟩

theorem Ok.settle (ok : Ok s.conns s.ops) (hn : s.ops[n]? = some op) (hp : op.phase = .calling i c) {t : Settlement} (ht : s.settlement i c = some t)
    (m : Moment) : Ok (s.settle n op m t).conns (s.settle n op m t).ops := by
  obtain ⟨conn, hc, hmem, hcall⟩ := System.settlement_spec ht
  unfold System.settle
  split
  · exact ok.settled hn hp (by simp) (fun _ h => absurd h (by simp))
  rename_i f hf
  refine ok.settled hn hp (by intro i c; split <;> simp) fun hr hidle => ?_
  have hre : op.resends m f = true := by
    by_contra hno
    rw [if_neg hno] at hidle
    cases hidle
  exact ⟨conn, t, hc, hmem, hcall, f, hf, Op.notRun_of_resends hre hr⟩

theorem Ok.step (ok : Ok s.conns s.ops) (e : Event) :
    Ok (step serverCfg nodeCfg s e).conns (step serverCfg nodeCfg s e).ops := by
  cases e with
  | connect => exact ok.connect s.life
  | hub h => exact ok
  | restart => exact ok
  | link i e =>
    simp only [NodeDirClient.step]
    split
    next conn hi =>
      split
      · exact ok
      next he =>
        exact ok.linkStep hi (by simpa using (not_or.mp he).1)
    · exact ok
  | begin o waitForNode =>
    simp only [NodeDirClient.step, System.begin]
    split
    · exact ok
    next he =>
      exact ok.begin waitForNode fun h hmem => he ⟨h, hmem⟩
  | attempt n a =>
    simp only [NodeDirClient.step]
    split
    next op hn =>
      split
      next hidle =>
        exact ok.attempt hn hidle a
      · exact ok
    · exact ok
  | settle n m =>
    simp only [NodeDirClient.step]
    split
    next op hn =>
      split
      next i c hp =>
        split
        next t ht =>
          exact ok.settle hn hp ht m
        · exact ok
      · exact ok
    · exact ok

end

theorem run_ok (serverCfg nodeCfg : Config) (es : List Event) :
    Ok (run serverCfg nodeCfg es).conns (run serverCfg nodeCfg es).ops :=
  Run.exec_invariant (fun s : System => Ok s.conns s.ops) (fun _ e ok => ok.step e) .fresh es

/-! ## What started is of one attempt -/

section

variable {s : System}

/-- The request that started is of this attempt. -/
def Of (s : System) (x : Nat × JsString) (a : Nat × Nat) : Prop :=
  a.1 = x.1 ∧ ∃ conn, s.conns[x.1]? = some conn ∧ (a.2, x.2) ∈ conn.link.server.issued

theorem mem_starts : x ∈ s.starts ↔ ∃ conn, s.conns[x.1]? = some conn ∧ x.2 ∈ conn.link.started.map Prod.fst := by
  obtain ⟨i, id⟩ := x
  simp only [System.starts, mem_flatMap, mem_map, Prod.exists, mem_zipIdx_iff_getElem?]
  constructor
  · rintro ⟨conn, j, hc, id', method, hm, he⟩
    cases he
    exact ⟨conn, hc, _, method, hm, rfl⟩
  · rintro ⟨conn, hc, id', method, hm, rfl⟩
    exact ⟨conn, i, hc, _, method, hm, rfl⟩

theorem Ok.starts_nodup (ok : Ok s.conns s.ops) : s.starts.Nodup := by
  refine nodup_flatMap.mpr ⟨fun ⟨conn, i⟩ hc => ?_, ?_⟩
  · have link := ok.link conn (mem_of_getElem? (mem_zipIdx_iff_getElem?.mp hc))
    have := link.served.once.map (f := fun id => (i, id)) fun _ _ h => (Prod.mk.inj h).2
    rwa [map_map] at this
  have hnd : (s.conns.zipIdx.map Prod.snd).Nodup := by
    rw [zipIdx_map_snd]
    exact nodup_range'
  refine (pairwise_map.mp hnd).imp fun {c d} hne => ?_
  intro x hx hy
  obtain ⟨y, -, rfl⟩ := mem_map.mp hx
  obtain ⟨z, -, hz⟩ := mem_map.mp hy
  exact hne (Prod.mk.inj hz).1.symm

/-- **What started was never refused as not run.** -/
theorem Ok.not_notRunAt (ok : Ok s.conns s.ops) (hx : x ∈ s.starts) (ha : Of s x a) : ¬ NotRunAt s.conns a := by
  obtain ⟨conn, hc, hst⟩ := mem_starts.mp hx
  obtain ⟨hax, conn', hc', hiss⟩ := ha
  cases hc.symm.trans hc'
  rintro ⟨conn'', t, hc'', ht, hcall, hn⟩
  rw [hax] at hc''
  cases hc.symm.trans hc''
  have link := ok.link conn (mem_of_getElem? hc)
  rw [← hcall] at hiss
  rcases (link.settled t ht _ hiss).notRun hn with h | h
  · exact h (Link.mem_requests_of_seen (link.served.known _ hst))
  · exact h.notStarted hst

theorem Ok.last (ok : Ok s.conns s.ops) (hop : op ∈ s.ops) (hr : op.operation.repeatable = false) (ha : a ∈ op.attempts)
    (hn : ¬ NotRunAt s.conns a) : op.attempts.getLast? = some a ∧ op.phase ≠ .idle := by
  have hearlier : a ∉ op.earlier := fun h => hn (ok.spent op hop hr a h)
  have hphase : op.phase ≠ .idle := fun h => hearlier (Op.earlier_idle h ▸ ha)
  rw [Op.earlier_dropLast hphase] at hearlier
  refine ⟨?_, hphase⟩
  by_contra hne
  exact hearlier (mem_dropLast_of_mem_of_ne_getLast? ha fun h => hne h.symm)

theorem Ok.one (ok : Ok s.conns s.ops) (hop : op ∈ s.ops)
    (hr : op.operation.repeatable = false) {y : Nat × JsString} {b : Nat × Nat}
    (hx : x ∈ s.starts) (ha : a ∈ op.attempts) (hxa : Of s x a) (hy : y ∈ s.starts)
    (hb : b ∈ op.attempts) (hyb : Of s y b) : x = y := by
  have hla := (ok.last hop hr ha (ok.not_notRunAt hx hxa)).1
  have hlb := (ok.last hop hr hb (ok.not_notRunAt hy hyb)).1
  cases hla.symm.trans hlb
  obtain ⟨hax, conn, hc, hi⟩ := hxa
  obtain ⟨hay, conn', hc', hj⟩ := hyb
  have hxy : x.1 = y.1 := hax.symm.trans hay
  rw [← hxy] at hc'
  cases hc.symm.trans hc'
  exact Prod.ext hxy ((ok.link conn (mem_of_getElem? hc)).books.issued_inj hi hj)

theorem length_le_one {α : Type} {l : List α} (h : l.Nodup) (heq : ∀ x ∈ l, ∀ y ∈ l, x = y) : l.length ≤ 1 := by
  match l, h, heq with
  | [], _, _ => simp
  | [_], _, _ => simp
  | a :: b :: _, h, heq => exact absurd (heq a (by simp) b (by simp)) fun e => by simp [e] at h

theorem Ok.accounted (ok : Ok s.conns s.ops) (hx : x ∈ s.starts) :
    s.isChallenge x = true ∨ ∃ op ∈ s.ops, ∃ a ∈ op.attempts, Of s x a := by
  obtain ⟨conn, hc, hst⟩ := mem_starts.mp hx
  have link := ok.link conn (mem_of_getElem? hc)
  have hreq := Link.mem_requests_of_seen (link.served.known _ hst)
  obtain ⟨f, hf, hid⟩ := mem_filterMap.mp hreq
  cases f with
  | request id method params =>
    have hkey : id.key = x.2 := Option.some.inj hid
    by_cases hm : method = NODE_AUTHENTICATE
    · refine Or.inl ((Option.any_eq_true _ _).mpr ⟨conn, hc, any_eq_true.mpr ⟨_, hf, ?_⟩⟩)
      simp [challenges, hkey, hm]
    obtain ⟨op, hop, c, streamId, ha, hi, -⟩ := ok.asked x.1 conn hc id method params hf hm
    rw [hkey] at hi
    exact Or.inr ⟨op, hop, _, ha, rfl, conn, hc, hi⟩
  | notification method params => exact absurd hid (by simp [Frame.requestId])
  | result id value => exact absurd hid (by simp [Frame.requestId])
  | error id code message data => exact absurd hid (by simp [Frame.requestId])

theorem Ok.of_unique (ok : Ok s.conns s.ops) {b : Nat × Nat} (ha : Of s x a) (hb : Of s x b) : a = b := by
  obtain ⟨hax, conn, hc, hi⟩ := ha
  obtain ⟨hbx, conn', hc', hj⟩ := hb
  cases hc.symm.trans hc'
  have books := (ok.link conn (mem_of_getElem? hc)).books
  have := inj_on_of_nodup_map (issued_nodup books) hi hj rfl
  exact Prod.ext (hax.trans hbx.symm) (congrArg Prod.fst this)

theorem Ok.mem_startsOf (ok : Ok s.conns s.ops) : x ∈ s.startsOf op ↔ x ∈ s.starts ∧ ∃ a ∈ op.attempts, Of s x a := by
  have hcall : ∀ a, s.callOf x = some a ↔ Of s x a := by
    have hof : ∀ b, s.callOf x = some b → Of s x b := by
      intro b hb
      obtain ⟨conn, hc, hfind⟩ := Option.bind_eq_some_iff.mp hb
      obtain ⟨y, hy, rfl⟩ := Option.map_eq_some_iff.mp hfind
      have hid : y.2 = x.2 := by simpa using find?_some hy
      exact ⟨rfl, conn, hc, hid ▸ mem_of_find?_eq_some hy⟩
    refine fun a => ⟨hof a, fun ha => ?_⟩
    have ⟨_, conn, hc, hi⟩ := ha
    have hsome : (s.callOf x).isSome := by
      simp only [System.callOf, hc, Option.bind_some, Option.isSome_map, find?_isSome]
      exact ⟨_, hi, by simp⟩
    obtain ⟨b, hb⟩ := Option.isSome_iff_exists.mp hsome
    rw [hb, ok.of_unique (hof b hb) ha]
  have hany : (s.callOf x).any (· ∈ op.attempts) = true ↔ ∃ a ∈ op.attempts, Of s x a := by
    rw [Option.any_eq_true]
    refine ⟨fun ⟨a, h, ha⟩ => ⟨a, by simpa using ha, (hcall a).mp h⟩, fun ⟨a, ha, h⟩ => ?_⟩
    exact ⟨a, (hcall a).mpr h, by simpa using ha⟩
  rw [System.startsOf, mem_filter, hany]

theorem asksFor_request {execId i : JsString} {id : Id} {method : JsString} {params : Value}
    (h : asksFor execId i (.request id method params) = true) :
    id.key = i ∧ method ≠ NODE_AUTHENTICATE := by
  unfold asksFor at h
  split at h
  next heq =>
    obtain ⟨rfl, rfl, -⟩ := Frame.request.inj heq
    simp only [Bool.and_eq_true, decide_eq_true_eq] at h
    refine ⟨h.1.1, ?_⟩
    rw [h.1.2]
    simp [PI_EXEC, NODE_AUTHENTICATE, js_inj]
  · cases h

theorem asksFor_operation (o : Operation) (streamId execId : JsString) (id : Id) :
    asksFor execId id.key (.request id o.method (o.params streamId)) = true ↔ o.execId = some execId := by
  cases o with
  | file method input => cases method <;>
      simp [asksFor, Operation.method, Operation.params, Operation.execId, PI_EXEC, js_inj, FileMethod.name]
  | exec cwd e command options =>
    simp [asksFor, Operation.method, Operation.params, Operation.execId, Operation.input,
      required, Json.member?, js_inj, Operation.stream, readString]
  | _ => simp [asksFor, Operation.method, Operation.params, Operation.execId, PI_EXEC, PROCESS_RUN, js_inj]

theorem Ok.of_mem_execStarts (ok : Ok s.conns s.ops) {execId : JsString} (h : x ∈ s.execStarts execId) : x ∈ s.starts ∧
      ∃ op ∈ s.ops, op.operation.execId = some execId ∧ ∃ a ∈ op.attempts, Of s x a := by
  obtain ⟨hx, hany⟩ := mem_filter.mp h
  obtain ⟨conn, hc, hsent⟩ := (Option.any_eq_true _ _).mp hany
  obtain ⟨f, hf, hasks⟩ := any_eq_true.mp hsent
  cases f with
  | request id method params =>
    obtain ⟨hid, hm⟩ := asksFor_request hasks
    obtain ⟨op, hop, c, streamId, ha, hi, rfl, rfl⟩ := ok.asked x.1 conn hc id method params hf hm
    rw [← hid, asksFor_operation] at hasks
    rw [hid] at hi
    exact ⟨hx, op, hop, hasks, _, ha, rfl, conn, hc, hi⟩
  | notification method params => exact absurd hasks (by simp [asksFor])
  | result id value => exact absurd hasks (by simp [asksFor])
  | error id code message data => exact absurd hasks (by simp [asksFor])

end

/-! ## At most once -/

/-- The attempt's frame was handed to its link, and no reply to it was taken. -/
def System.Unanswered (s : System) (a : Nat × Nat) : Prop :=
  ∃ conn id, s.conns[a.1]? = some conn ∧ (a.2, id) ∈ conn.link.server.issued ∧ id ∈ requests conn.link.server.sent ∧
      ∀ t ∈ conn.link.server.settled, t.call = a.2 → ∀ i, t.cause ≠ .reply i

structure System.AtMostOnce (s : System) : Prop where
  /-- A command is run by one operation and started by one request, whatever run of the node. -/
  exec : ∀ execId, (s.execStarts execId).length ≤ 1
  spawn : ∀ op ∈ s.ops, op.operation.repeatable = false → (s.startsOf op).length ≤ 1
  /-- Nothing else starts anything, but the server's challenge its answer. -/
  counted : ∀ x ∈ s.starts, s.isChallenge x = true ∨ ∃ op ∈ s.ops, x ∈ s.startsOf op
  /-- A call whose outcome is unknown is not followed by another. -/
  unknown : ∀ op ∈ s.ops, op.operation.repeatable = false → ∀ a ∈ op.attempts, s.Unanswered a →
    op.attempts.getLast? = some a ∧ op.phase ≠ .idle

theorem not_notRunAt_of_unanswered {s : System} (ok : Ok s.conns s.ops)
    (h : s.Unanswered a) : ¬ NotRunAt s.conns a := by
  obtain ⟨conn, id, hc, hi, hsent, hno⟩ := h
  rintro ⟨conn', t, hc', ht, hcall, hn⟩
  cases hc.symm.trans hc'
  have link := ok.link conn (mem_of_getElem? hc)
  rw [← hcall] at hi
  rcases (link.settled t ht id hi).unknown hsent with ⟨i, h⟩ | h
  · exact hno t ht hcall i h
  · exact not_notRun_of_unknown h hn

/-- **At most once.** For every order of drops, timeouts, aborts, replaced links, pauses, restarts
and calls made again: a command and a process are started at most once over all the runs of the
node, and neither's call is sent again once its outcome is unknown. -/
theorem at_most_once (serverCfg nodeCfg : Config) (es : List Event) : (run serverCfg nodeCfg es).AtMostOnce := by
  have ok := run_ok serverCfg nodeCfg es
  generalize run serverCfg nodeCfg es = s at ok
  refine ⟨fun execId => ?_, fun op hop hr => ?_, fun x hx => ?_, fun op hop hr a ha hu => ?_⟩
  · refine length_le_one (ok.starts_nodup.filter _) fun x hx y hy => ?_
    obtain ⟨hx, op, hop, he, a, ha, hxa⟩ := ok.of_mem_execStarts hx
    obtain ⟨hy, q, hq, he', b, hb, hyb⟩ := ok.of_mem_execStarts hy
    -- One operation runs the command.
    obtain ⟨n, hn⟩ := getElem?_of_mem hop
    obtain ⟨m, hm⟩ := getElem?_of_mem hq
    obtain rfl := ok.execs n m op q execId hn hm he he'
    cases hn.symm.trans hm
    exact ok.one hop (Operation.exec_once he) hx ha hxa hy hb hyb
  · refine length_le_one (ok.starts_nodup.filter _) fun x hx y hy => ?_
    obtain ⟨hx, a, ha, hxa⟩ := ok.mem_startsOf.mp hx
    obtain ⟨hy, b, hb, hyb⟩ := ok.mem_startsOf.mp hy
    exact ok.one hop hr hx ha hxa hy hb hyb
  · refine (ok.accounted hx).imp_right fun ⟨op, hop, a, ha, hxa⟩ => ?_
    exact ⟨op, hop, ok.mem_startsOf.mpr ⟨hx, a, ha, hxa⟩⟩
  · exact ok.last hop hr ha (not_notRunAt_of_unanswered ok hu)

end Reins.NodeDirClient
