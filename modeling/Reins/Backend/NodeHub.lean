import Reins.Lib.Run
import Reins.Lib.Schema
import Reins.Lib.Places

/-!
# The node hub (`backend/src/nodes/{node-hub,server-peer}.ts`, `backend/src/models/node.ts`)

The connections a hub accepted, the hellos they are answering, the link each node has and what
browsers were told of it. A hello awaits twice, for the connection's authentication and for the
app's build, and its connection becomes a link in a turn of its own: between any two of these the
hub's other handlers run.
-/

open Utf Schema List Function

namespace Reins.NodeHub

abbrev NodeId := JsString
abbrev BuildId := JsString

/-! ## Nodes -/

/-- A `nodes` row: `paired` where it has a key. -/
structure Row where
  paired : Bool
  revoked : Bool
  removed : Bool
  deriving DecidableEq

def Row.blocked (r : Row) : Bool := r.revoked || r.removed

inductive BuildStatus
  | current
  | outdated
  | updating
  deriving DecidableEq

structure NodeBuild where
  id : BuildId
  status : BuildStatus
  deriving DecidableEq

structure NodeFailure where
  message : JsString
  time : JsString
  deriving DecidableEq

structure View where
  connected : Bool
  build : Option NodeBuild
  failure : Option NodeFailure
  deriving DecidableEq

/-! ## Hellos -/

def protocolVersion : Nat := 16

structure NodeDocs where
  dir : JsString
  devDocs : Bool
  deriving DecidableEq

structure Hello where
  nodeId : NodeId
  buildId : Option BuildId
  minVersion : Nat
  maxVersion : Nat
  docs : Option NodeDocs

structure Negotiated where
  nodeId : NodeId
  buildId : Option BuildId
  docs : NodeDocs
  deriving DecidableEq

structure Bundle where
  buildId : BuildId
  sha256 : JsString
  bunVersion : JsString
  deriving DecidableEq

inductive HelloAnswer
  | ready
  | update (bundle : Bundle)
  /-- `NODE_REFUSED`. -/
  | refused (message : JsString)
  | unauthorized (message : JsString)
  /-- `NEGOTIATION_FAILED`. -/
  | failed (message : JsString)
  deriving DecidableEq

def noCommonVersion (least greatest : Nat) : JsString :=
  js s!"No common protocol version: this server speaks {protocolVersion}, the node "
    ++ if least = greatest then js s!"{least}" else js s!"{least} to {greatest}"

/-- A hello that is being answered. -/
inductive TaskPhase
  /-- It awaits `authenticated`. -/
  | authenticating
  /-- The server will serve it; it awaits `offerUpdate`. -/
  | building
  | over
  deriving DecidableEq

structure Task where
  conn : Nat
  hello : Hello
  phase : TaskPhase

/-! ## The hub -/

/-- `authenticated` is settled once it is `some`: with the node proved, or failed. `rejected` is
`negotiated`'s rejection, `ended` that the socket's `onclose` ran. -/
structure Conn where
  authenticate : Bool
  authenticated : Option (Option NodeId)
  ready : Bool
  negotiated : Option Negotiated
  rejected : Bool
  socketClosed : Bool
  ended : Bool
  link : Option NodeId

def Conn.fresh (authenticate : Bool) : Conn :=
  { authenticate, authenticated := none, ready := false, negotiated := none, rejected := false,
    socketClosed := false, ended := false, link := none }

/-- `shown` is what was last published of each node, `replaced` that a link replaced another since
without its being published, `registered` the links in the order they were registered. -/
structure Hub where
  conns : List Conn
  tasks : List Task
  /-- The connections whose `negotiated` resolved, that are not yet links. -/
  pending : List Nat
  links : NodeId → Option Nat
  builds : NodeId → Option NodeBuild
  failures : NodeId → Option NodeFailure
  serverBuildId : Option BuildId
  closed : Bool
  rows : NodeId → Option Row
  answers : List (Nat × HelloAnswer)
  shown : NodeId → View
  replaced : NodeId → Bool
  registered : List (NodeId × Nat)

def Hub.fresh (rows : NodeId → Option Row) : Hub :=
  { conns := [], tasks := [], pending := [], links := fun _ => none, builds := fun _ => none,
    failures := fun _ => none, serverBuildId := none, closed := false, rows, answers := [],
    shown := fun _ => ⟨false, none, none⟩, replaced := fun _ => false, registered := [] }

namespace Hub

variable (h : Hub)

def setConn (c : Nat) (conn : Conn) : Hub := { h with conns := h.conns.set c conn }

def isClosed (c : Nat) : Bool := (h.conns[c]?).all Conn.socketClosed

def open? (n : NodeId) : Option Nat := (h.links n).filter fun c => !h.isClosed c

/-- `linked`: where a call goes. -/
def linked (n : NodeId) : Except JsString Nat :=
  match h.open? n with
  | some c => .ok c
  | none => .error (js "Node not connected")

def view (n : NodeId) : View := ⟨(h.open? n).isSome, h.builds n, h.failures n⟩

def publish (n : NodeId) : Hub :=
  { h with
    shown := Function.update h.shown n (h.view n),
    replaced := Function.update h.replaced n false }

def shut (c : Nat) : Hub :=
  match h.conns[c]? with
  | some conn => h.setConn c { conn with socketClosed := true }
  | none => h

def answer (c : Nat) (a : HelloAnswer) : Hub := { h with answers := h.answers ++ [(c, a)] }

def negotiationFailed (n : NodeId) (message time : JsString) : Hub :=
  if (h.failures n).any fun f => f.message = message then h
  else { h with failures := Function.update h.failures n (some ⟨message, time⟩) }.publish n

/-- `assertMayConnect`: why the server will not serve a node. -/
def serveNode (n : NodeId) : Option JsString :=
  match h.rows n with
  | none => some (js "Node not found: " ++ n)
  | some row =>
    if row.removed then some (js "Node removed: " ++ n)
    else if row.revoked then some (js "Node revoked: " ++ n)
    else none

/-! ### A hello -/

/-- `ready`, and `negotiated`'s resolution. -/
def becomeReady (c : Nat) (hello : Hello) (docs : NodeDocs) : Hub :=
  match h.conns[c]? with
  | some conn =>
    if conn.rejected then (h.setConn c { conn with ready := true }).answer c .ready
    else
      { h.setConn c
          { conn with ready := true, negotiated := some ⟨hello.nodeId, hello.buildId, docs⟩ } with
        pending := h.pending ++ [c] }.answer c .ready
  | none => h

def negotiate (c : Nat) (hello : Hello) (time : JsString) : Hub :=
  if protocolVersion < hello.minVersion ∨ hello.maxVersion < protocolVersion then
    let message := noCommonVersion hello.minVersion hello.maxVersion
    (h.negotiationFailed hello.nodeId message time).answer c (.failed message)
  else
    match hello.docs with
    | none => h.answer c (.failed (js "Invalid negotiation: the hello did not say where the node's docs are"))
    | some docs => h.becomeReady c hello docs

def serve (c : Nat) (conn : Conn) (hello : Hello) (time : JsString) : Hub :=
  if conn.ready then h.answer c (.unauthorized (js "Already negotiated"))
  else
    match h.serveNode hello.nodeId with
    | some message => h.answer c (.refused message)
    | none =>
      match hello.buildId with
      | some _ => { h with tasks := h.tasks ++ [⟨c, hello, .building⟩] }
      | none => h.negotiate c hello time

def endTask (t : Nat) (task : Task) : Hub := { h with tasks := h.tasks.set t { task with phase := .over } }

/-- The hello's `authenticated` settled. -/
def resume (task : Task) (conn : Conn) (proved : Option NodeId) (time : JsString) : Hub :=
  match proved with
  | none => h.answer task.conn (.refused (js "Not authenticated"))
  | some n =>
    if task.hello.nodeId ≠ n then
      h.answer task.conn (.refused (js "Connection authenticated as node " ++ n ++ js ", not " ++ task.hello.nodeId))
    else h.serve task.conn conn task.hello time

/-- What `nodeBundle.build` answers. -/
inductive Built
  | building
  | failed
  | done (bundle : Bundle)

/-- The hello once no update is due. -/
def goOn (task : Task) (conn : Conn) (time : JsString) : Hub :=
  if conn.ready then h.answer task.conn (.unauthorized (js "Already negotiated"))
  else h.negotiate task.conn task.hello time

def offerUpdate (task : Task) (conn : Conn) (built : Built) (time : JsString) : Hub :=
  match built, task.hello.buildId with
  | .building, _ => h.answer task.conn (.failed (js "The server's node build is not ready yet"))
  | .failed, _ => { h with serverBuildId := none }.goOn task conn time
  | .done bundle, buildId =>
    let h' := { h with serverBuildId := some bundle.buildId }
    match buildId with
    | none => h'.goOn task conn time
    | some id =>
      if bundle.buildId = id then h'.goOn task conn time
      else
        ({ h' with
            builds := Function.update h'.builds task.hello.nodeId (some ⟨id, .updating⟩) }.publish
          task.hello.nodeId).answer task.conn (.update bundle)

/-! ### Links -/

def announced (buildId : Option BuildId) : Option NodeBuild :=
  buildId.map fun id => ⟨id, if some id = h.serverBuildId then .current else .outdated⟩

def closePrevious (h : Hub) : Option Nat → Hub
  | some p => h.shut p
  | none => h

def relink (c : Nat) (conn : Conn) (neg : Negotiated) : Hub :=
  let n := neg.nodeId
  let linked := { h.setConn c { conn with link := some n } with
    links := Function.update h.links n (some c) }.closePrevious (h.links n)
  { linked with
    failures := Function.update h.failures n none,
    builds := Function.update h.builds n (h.announced neg.buildId),
    registered := h.registered ++ [(n, c)] }

/-- `negotiated.then`: the connection becomes its node's link. -/
def register (c : Nat) (conn : Conn) (neg : Negotiated) : Hub :=
  if conn.socketClosed then h
  else if h.closed then h.shut c
  else
    let n := neg.nodeId
    let updated := (h.builds n).any fun b => b.status = .updating
    let linked := h.relink c conn neg
    if (h.links n).isNone ∨ updated then linked.publish n
    else { linked with replaced := Function.update h.replaced n true }

/-- `socket.onclose`. -/
def onclose (c : Nat) (conn : Conn) : Hub :=
  let h' := h.setConn c { conn with ended := true, rejected := conn.rejected || conn.negotiated.isNone }
  match conn.link with
  | some n =>
    if h.links n = some c then
      { h' with
        links := Function.update h'.links n none,
        builds := Function.update h'.builds n none }.publish n
    else h'
  | none => h'

def disconnect (n : NodeId) : Hub :=
  match h.links n with
  | some c => h.shut c
  | none => h

/-- `revoke`, `remove`: the row as it now is, and the node's link closed. -/
def block (n : NodeId) (row : Row) : Hub :=
  ({ h with rows := Function.update h.rows n (some row) }.disconnect n).publish n

def close : Hub :=
  { h with
    closed := true,
    conns := h.conns.mapIdx fun c conn =>
      if conn.link.bind h.links = some c then { conn with socketClosed := true } else conn,
    links := fun _ => none }

end Hub

inductive Event
  | accept (authenticate : Bool)
  /-- The answer to `node.authenticate`: `valid` says that its signature is. -/
  | proves (c : Nat) (n : NodeId) (valid : Bool)
  /-- The call of `node.authenticate` fails. -/
  | fails (c : Nat)
  | hello (c : Nat) (hello : Hello) (time : JsString)
  | resume (t : Nat) (time : JsString)
  | built (t : Nat) (built : Hub.Built) (time : JsString)
  | register
  | shut (c : Nat)
  | onclose (c : Nat)
  | pair (n : NodeId)
  | revoke (n : NodeId)
  | remove (n : NodeId)
  | close

def step (h : Hub) : Event → Hub
  | .accept authenticate =>
    let conn := Conn.fresh authenticate
    { h with
      conns := h.conns ++ [if h.closed then { conn with socketClosed := true, ended := true } else conn] }
  | .proves c n valid =>
    match h.conns[c]? with
    | some conn =>
      if conn.authenticate ∧ conn.authenticated = none then
        let paired := (h.rows n).any Row.paired
        h.setConn c { conn with authenticated := some (if paired ∧ valid then some n else none) }
      else h
    | none => h
  | .fails c =>
    match h.conns[c]? with
    | some conn =>
      if conn.authenticate ∧ conn.authenticated = none then
        h.setConn c { conn with authenticated := some none }
      else h
    | none => h
  | .hello c hello time =>
    match h.conns[c]? with
    | some conn =>
      if conn.socketClosed then h
      else if conn.authenticate then { h with tasks := h.tasks ++ [⟨c, hello, .authenticating⟩] }
      else h.serve c conn hello time
    | none => h
  | .resume t time =>
    match h.tasks[t]? with
    | some task =>
      match task.phase, h.conns[task.conn]? with
      | .authenticating, some conn =>
        match conn.authenticated with
        | some proved => (h.endTask t task).resume task conn proved time
        | none => h
      | _, _ => h
    | none => h
  | .built t built time =>
    match h.tasks[t]? with
    | some task =>
      match task.phase, h.conns[task.conn]? with
      | .building, some conn => (h.endTask t task).offerUpdate task conn built time
      | _, _ => h
    | none => h
  | .register =>
    match h.pending with
    | c :: rest =>
      match h.conns[c]? with
      | some conn =>
        match conn.negotiated with
        | some neg => { h with pending := rest }.register c conn neg
        | none => h
      | none => h
    | [] => h
  | .shut c => h.shut c
  | .onclose c =>
    match h.conns[c]? with
    | some conn => if conn.socketClosed ∧ ¬ conn.ended then h.onclose c conn else h
    | none => h
  | .pair n =>
    match h.rows n with
    | none => { h with rows := Function.update h.rows n (some ⟨true, false, false⟩) }.publish n
    | some _ => h
  | .revoke n =>
    match h.rows n with
    | some row => if row.removed ∨ ¬ row.paired then h else h.block n { row with revoked := true }
    | none => h
  | .remove n =>
    match h.rows n with
    | some row => if row.removed ∨ ¬ row.paired then h else h.block n { row with removed := true }
    | none => h
  | .close => h.close

def run (rows : NodeId → Option Row) (es : List Event) : Hub := Run.exec step (.fresh rows) es

/-! ## The link table -/

structure LinksOk (h : Hub) : Prop where
  link : ∀ n c, h.links n = some c → ∃ conn : Conn, h.conns[c]? = some conn ∧ conn.link = some n ∧ conn.ended = false
  last : ∀ n c, h.links n = some c → (h.registered.filter fun r => r.1 = n).getLast? = some (n, c)
  old : ∀ r ∈ h.registered, h.links r.1 ≠ some r.2 → h.isClosed r.2 = true
  linked : ∀ r ∈ h.registered, ∃ conn : Conn, h.conns[r.2]? = some conn ∧ conn.link = some r.1
  pending : ∀ c ∈ h.pending, ∃ conn : Conn, h.conns[c]? = some conn ∧ conn.ready = true ∧ conn.link = none
  nodup : h.pending.Nodup
  ready : ∀ (c : Nat) (conn : Conn), h.conns[c]? = some conn → conn.link ≠ none → conn.ready = true
  ended : ∀ (c : Nat) (conn : Conn), h.conns[c]? = some conn → conn.ended = true → conn.socketClosed = true

/-- What was last published of a node is its view, or its link is closed and its `onclose` is still
to run, or a link replaced another since. -/
def ShownAt (h : Hub) (n : NodeId) : Prop :=
  h.replaced n = false → h.closed = false → h.shown n = h.view n ∨ ∃ c, h.links n = some c ∧ h.isClosed c = true

structure HubOk (h : Hub) : Prop where
  links : LinksOk h
  shown : ∀ n, ShownAt h n

section

variable {h h' : Hub} {n : NodeId} {c : Nat} {conn conn' : Conn}

theorem HubOk.fresh (rows : NodeId → Option Row) : HubOk (.fresh rows) := by
  constructor
  · constructor <;> simp [Hub.fresh]
  · intro n _ _
    exact Or.inl rfl

theorem LinksOk.congr (ok : LinksOk h) (hc : h'.conns = h.conns) (hl : h'.links = h.links)
    (hp : h'.pending = h.pending) (hr : h'.registered = h.registered) : LinksOk h' := by
  have hclosed : ∀ c, h'.isClosed c = h.isClosed c := fun c => by simp only [Hub.isClosed, hc]
  refine ⟨?_, ?_, ?_, ?_, ?_, hp ▸ ok.nodup, hc ▸ ok.ready, hc ▸ ok.ended⟩
  · rw [hl, hc]
    exact ok.link
  · rw [hl, hr]
    exact ok.last
  · intro r hmem hne
    rw [hr] at hmem
    rw [hl] at hne
    rw [hclosed]
    exact ok.old r hmem hne
  · rw [hr, hc]
    exact ok.linked
  · rw [hp, hc]
    exact ok.pending

theorem view_congr (hl : h'.links n = h.links n) (hb : h'.builds n = h.builds n)
    (hf : h'.failures n = h.failures n) (hc : ∀ c, h.links n = some c → h'.isClosed c = h.isClosed c) :
    h'.view n = h.view n := by
  have hopen : h'.open? n = h.open? n := by
    unfold Hub.open?
    rw [hl]
    cases hn : h.links n with
    | none => rfl
    | some c => simp [Option.filter, hc c hn]
  rw [Hub.view, Hub.view, hopen, hb, hf]

theorem ShownAt.congr (sh : ShownAt h n) (hl : h'.links n = h.links n)
    (hb : h'.builds n = h.builds n) (hf : h'.failures n = h.failures n)
    (hc : ∀ c, h.links n = some c → h'.isClosed c = h.isClosed c) (hs : h'.shown n = h.shown n)
    (hr : h'.replaced n = h.replaced n) (hx : h'.closed = h.closed) : ShownAt h' n := by
  intro hr' hx'
  rcases sh (hr ▸ hr') (hx ▸ hx') with he | ⟨c, hn, hcl⟩
  · exact Or.inl (by rw [hs, he, view_congr hl hb hf hc])
  · exact Or.inr ⟨c, hl.trans hn, (hc c hn).trans hcl⟩

/-- A change to what neither the link table nor the view reads. -/
theorem HubOk.congr (ok : HubOk h) (hc : h'.conns = h.conns) (hl : h'.links = h.links)
    (hp : h'.pending = h.pending) (hr : h'.registered = h.registered) (hb : h'.builds = h.builds)
    (hf : h'.failures = h.failures) (hs : h'.shown = h.shown) (hrep : h'.replaced = h.replaced)
    (hx : h'.closed = h.closed) : HubOk h' :=
  ⟨ok.links.congr hc hl hp hr, fun n => (ok.shown n).congr (congrFun hl n) (congrFun hb n)
    (congrFun hf n) (fun c _ => by simp only [Hub.isClosed, hc]) (congrFun hs n) (congrFun hrep n) hx⟩

theorem HubOk.answer (ok : HubOk h) (c : Nat) (a : HelloAnswer) : HubOk (h.answer c a) :=
  ok.congr rfl rfl rfl rfl rfl rfl rfl rfl rfl

/-- **What was published of a node is its view.** -/
theorem HubOk.publish (ok : LinksOk h) (hother : ∀ m, m ≠ n → ShownAt h m) : HubOk (h.publish n) := by
  refine ⟨ok.congr rfl rfl rfl rfl, fun m => ?_⟩
  by_cases hm : m = n
  · subst hm
    intro _ _
    exact Or.inl (update_self ..)
  · exact (hother m hm).congr rfl rfl rfl (fun _ _ => rfl) (update_of_ne hm ..)
      (update_of_ne hm ..) rfl

theorem HubOk.record (ok : HubOk h) (hc : h'.conns = h.conns) (hl : h'.links = h.links)
    (hp : h'.pending = h.pending) (hr : h'.registered = h.registered)
    (hb : ∀ m, m ≠ n → h'.builds m = h.builds m) (hf : ∀ m, m ≠ n → h'.failures m = h.failures m)
    (hs : h'.shown = h.shown) (hrep : h'.replaced = h.replaced) (hx : h'.closed = h.closed) :
    HubOk (h'.publish n) :=
  .publish (ok.links.congr hc hl hp hr) fun m hm => (ok.shown m).congr (congrFun hl m) (hb m hm)
    (hf m hm) (fun c _ => by simp only [Hub.isClosed, hc]) (congrFun hs m) (congrFun hrep m) hx

/-! ### Connections -/

/-- What becomes of a connection that is no link yet or stays the one it is. -/
structure Follows (conn conn' : Conn) : Prop where
  link : conn'.link = conn.link
  ended : conn'.ended = conn.ended
  socketClosed : conn.socketClosed = true → conn'.socketClosed = true
  ready : conn.ready = true → conn'.ready = true

theorem isClosed_setConn (hconn : h.conns[c]? = some conn) (i : Nat) :
    (h.setConn c conn').isClosed i = if i = c then conn'.socketClosed else h.isClosed i := by
  have hlt := (List.getElem?_eq_some_iff.mp hconn).1
  unfold Hub.isClosed Hub.setConn
  simp only [getElem?_set]
  by_cases hi : i = c
  · subst hi
    simp [hlt]
  · rw [if_neg (Ne.symm hi), if_neg hi]

theorem getElem?_setConn (hconn : h.conns[c]? = some conn) (i : Nat) :
    (h.setConn c conn').conns[i]? = if i = c then some conn' else h.conns[i]? := by
  have hlt := (List.getElem?_eq_some_iff.mp hconn).1
  simp only [Hub.setConn, List.getElem?_set]
  by_cases hi : i = c
  · subst hi
    simp [hlt]
  · rw [if_neg (Ne.symm hi), if_neg hi]

theorem LinksOk.setConn (ok : LinksOk h) (hconn : h.conns[c]? = some conn)
    (hf : Follows conn conn') : LinksOk (h.setConn c conn') := by
  have hget : ∀ (i : Nat) (x : Conn), h.conns[i]? = some x →
      ∃ x' : Conn, (h.setConn c conn').conns[i]? = some x' ∧ Follows x x' := fun i x hx => by
    rw [getElem?_setConn hconn]
    by_cases hi : i = c
    · subst hi
      cases hconn.symm.trans hx
      exact ⟨conn', by simp, hf⟩
    · exact ⟨x, by rw [if_neg hi, hx], ⟨rfl, rfl, id, id⟩⟩
  have hall : ∀ (i : Nat) (x : Conn), (h.setConn c conn').conns[i]? = some x →
      ∃ y : Conn, h.conns[i]? = some y ∧ Follows y x := fun i x hx => by
    rw [getElem?_setConn hconn] at hx
    split at hx
    next hi =>
      exact ⟨conn, hi ▸ hconn, Option.some.inj hx ▸ hf⟩
    · exact ⟨x, hx, ⟨rfl, rfl, id, id⟩⟩
  refine ⟨fun n i hn => ?_, ok.last, fun r hr hne => ?_, fun r hr => ?_, fun i hi => ?_, ok.nodup,
    fun i x hx hl => ?_, fun i x hx he => ?_⟩
  · obtain ⟨x, hx, hl, he⟩ := ok.link n i hn
    obtain ⟨x', hx', hfx⟩ := hget i x hx
    exact ⟨x', hx', hfx.link.trans hl, hfx.ended.trans he⟩
  · have hcl := ok.old r hr hne
    rw [isClosed_setConn hconn]
    split
    next hi =>
      rw [hi, Hub.isClosed, hconn] at hcl
      exact hf.socketClosed hcl
    · exact hcl
  · obtain ⟨x, hx, hl⟩ := ok.linked r hr
    obtain ⟨x', hx', hfx⟩ := hget r.2 x hx
    exact ⟨x', hx', hfx.link.trans hl⟩
  · obtain ⟨x, hx, hready, hl⟩ := ok.pending i hi
    obtain ⟨x', hx', hfx⟩ := hget i x hx
    exact ⟨x', hx', hfx.ready hready, hfx.link.trans hl⟩
  · obtain ⟨y, hy, hf⟩ := hall i x hx
    exact hf.ready (ok.ready i y hy (hf.link ▸ hl))
  · obtain ⟨y, hy, hf⟩ := hall i x hx
    exact hf.socketClosed (ok.ended i y hy (hf.ended ▸ he))

theorem HubOk.setConn (ok : HubOk h) (hconn : h.conns[c]? = some conn) (hf : Follows conn conn')
    (hs : conn'.socketClosed = conn.socketClosed) : HubOk (h.setConn c conn') := by
  refine ⟨ok.links.setConn hconn hf, fun n => (ok.shown n).congr rfl rfl rfl (fun i _ => ?_) rfl rfl
    rfl⟩
  rw [isClosed_setConn hconn]
  split
  next hi =>
    simp [hi, Hub.isClosed, hconn, hs]
  · rfl

theorem LinksOk.shut (ok : LinksOk h) (c : Nat) : LinksOk (h.shut c) := by
  unfold Hub.shut
  split
  next conn hconn =>
    exact ok.setConn hconn ⟨rfl, rfl, fun _ => rfl, id⟩
  · exact ok

theorem isClosed_shut (h : Hub) (c i : Nat) : (h.shut c).isClosed i = (h.isClosed i || i = c) := by
  unfold Hub.shut
  split
  next conn hconn =>
    rw [isClosed_setConn hconn]
    by_cases hi : i = c <;> simp [hi]
  next hnone =>
    by_cases hi : i = c
    · simp [hi, Hub.isClosed, hnone]
    · simp [hi]

@[simp] theorem shut_links (h : Hub) (c : Nat) : (h.shut c).links = h.links := by
  unfold Hub.shut
  split <;> rfl

@[simp] theorem shut_builds (h : Hub) (c : Nat) : (h.shut c).builds = h.builds := by
  unfold Hub.shut
  split <;> rfl

@[simp] theorem shut_failures (h : Hub) (c : Nat) : (h.shut c).failures = h.failures := by
  unfold Hub.shut
  split <;> rfl

@[simp] theorem shut_shown (h : Hub) (c : Nat) : (h.shut c).shown = h.shown := by
  unfold Hub.shut
  split <;> rfl

@[simp] theorem shut_replaced (h : Hub) (c : Nat) : (h.shut c).replaced = h.replaced := by
  unfold Hub.shut
  split <;> rfl

@[simp] theorem shut_closed (h : Hub) (c : Nat) : (h.shut c).closed = h.closed := by
  unfold Hub.shut
  split <;> rfl

@[simp] theorem shut_registered (h : Hub) (c : Nat) : (h.shut c).registered = h.registered := by
  unfold Hub.shut
  split <;> rfl

@[simp] theorem shut_rows (h : Hub) (c : Nat) : (h.shut c).rows = h.rows := by
  unfold Hub.shut
  split <;> rfl

/-- **A socket closes**: a link's `onclose` is still to run. -/
theorem HubOk.shut (ok : HubOk h) (c : Nat) : HubOk (h.shut c) := by
  refine ⟨ok.links.shut c, fun n => ?_⟩
  by_cases hn : h.links n = some c
  · exact fun _ _ => Or.inr ⟨c, by rw [shut_links, hn], by simp [isClosed_shut]⟩
  refine (ok.shown n).congr (by simp) (by simp) (by simp) (fun i hi => ?_) (by simp) (by simp) (by simp)
  have : i ≠ c := fun he => hn (he ▸ hi)
  simp [isClosed_shut, this]

/-! ### Hellos -/

theorem HubOk.negotiationFailed (ok : HubOk h) (n : NodeId) (message time : JsString) :
    HubOk (h.negotiationFailed n message time) := by
  unfold Hub.negotiationFailed
  split
  · exact ok
  · exact ok.record rfl rfl rfl rfl (fun _ _ => rfl) (fun m hm => update_of_ne hm ..) rfl rfl
      rfl

theorem HubOk.becomeReady (ok : HubOk h) (hconn : h.conns[c]? = some conn)
    (hready : conn.ready = false) (hello : Hello) (docs : NodeDocs) :
    HubOk (h.becomeReady c hello docs) := by
  unfold Hub.becomeReady
  rw [hconn]
  simp only
  split
  · have hset : HubOk (h.setConn c { conn with ready := true }) := ok.setConn hconn ⟨rfl, rfl, id, fun _ => rfl⟩ rfl
    exact hset.answer c _
  refine HubOk.answer ?_ c _
  have hset : HubOk (h.setConn c { conn with ready := true, negotiated := some ⟨hello.nodeId, hello.buildId, docs⟩ }) :=
    ok.setConn hconn ⟨rfl, rfl, id, fun _ => rfl⟩ rfl
  have hlink : conn.link = none := by
    by_contra hl
    exact absurd (ok.links.ready c conn hconn hl) (by simp [hready])
  refine ⟨{ hset.links with pending := fun i hi => ?_, nodup := ?_ }, fun m => (hset.shown m).congr rfl rfl rfl (fun _ _ => rfl)
    rfl rfl rfl⟩
  · rcases Places.mem_concat_cases hi with hi | rfl
    · exact hset.links.pending i hi
    · exact ⟨_, (getElem?_setConn hconn i).trans (if_pos rfl), rfl, hlink⟩
  refine nodup_append.mpr ⟨ok.links.nodup, by simp, fun i hi j hj => ?_⟩
  rw [mem_singleton.mp hj]
  rintro rfl
  obtain ⟨x, hx, hr, -⟩ := ok.links.pending i hi
  cases hconn.symm.trans hx
  exact absurd hr (by simp [hready])

theorem HubOk.negotiate (ok : HubOk h) (hconn : h.conns[c]? = some conn)
    (hready : conn.ready = false) (hello : Hello) (time : JsString) :
    HubOk (h.negotiate c hello time) := by
  unfold Hub.negotiate
  split
  · exact (ok.negotiationFailed _ _ _).answer c _
  split
  · exact ok.answer c _
  · exact ok.becomeReady hconn hready hello _

theorem HubOk.tasks (ok : HubOk h) (tasks : List Task) : HubOk { h with tasks := tasks } :=
  ok.congr rfl rfl rfl rfl rfl rfl rfl rfl rfl

theorem HubOk.endTask (ok : HubOk h) (t : Nat) (task : Task) : HubOk (h.endTask t task) := ok.tasks _

theorem HubOk.serve (ok : HubOk h) (hconn : h.conns[c]? = some conn) (hello : Hello)
    (time : JsString) : HubOk (h.serve c conn hello time) := by
  unfold Hub.serve
  split
  · exact ok.answer c _
  rename_i hready
  split
  · exact ok.answer c _
  split
  · exact ok.tasks _
  · exact ok.negotiate hconn (by simpa using hready) hello time

theorem HubOk.resume (ok : HubOk h) {task : Task} (hconn : h.conns[task.conn]? = some conn)
    (proved : Option NodeId) (time : JsString) : HubOk (h.resume task conn proved time) := by
  unfold Hub.resume
  split
  · exact ok.answer _ _
  split
  · exact ok.answer _ _
  · exact ok.serve hconn _ time

theorem HubOk.goOn (ok : HubOk h) {task : Task} (hconn : h.conns[task.conn]? = some conn)
    (time : JsString) : HubOk (h.goOn task conn time) := by
  unfold Hub.goOn
  split
  · exact ok.answer _ _
  next hready =>
    exact ok.negotiate hconn (by simpa using hready) _ time

theorem HubOk.offerUpdate (ok : HubOk h) {task : Task} (hconn : h.conns[task.conn]? = some conn)
    (built : Hub.Built) (time : JsString) : HubOk (h.offerUpdate task conn built time) := by
  have hbuild : ∀ id, HubOk { h with serverBuildId := id } := fun id => ok.congr rfl rfl rfl rfl rfl rfl rfl rfl rfl
  unfold Hub.offerUpdate
  split
  · exact ok.answer _ _
  · exact (hbuild none).goOn hconn time
  next bundle =>
    have hbundle := hbuild (some bundle.buildId)
    simp only
    split
    · exact hbundle.goOn hconn time
    split
    · exact hbundle.goOn hconn time
    · refine HubOk.answer ?_ _ _
      exact hbundle.record rfl rfl rfl rfl (fun m hm => update_of_ne hm ..) (fun _ _ => rfl) rfl rfl rfl

/-! ### Links -/

theorem getElem?_shut (h : Hub) (p i : Nat) : (h.shut p).conns[i]? =
      (h.conns[i]?).map fun x => if i = p then { x with socketClosed := true } else x := by
  unfold Hub.shut
  split
  next conn hconn =>
    rw [getElem?_setConn hconn]
    by_cases hi : i = p
    · simp [hi, hconn]
    · simp [hi]
  next hnone =>
    by_cases hi : i = p
    · simp [hi, hnone]
    · simp [hi]

theorem LinksOk.register (ok : LinksOk h) (hconn : h.conns[c]? = some conn)
    (hlink : conn.link = none) (hready : conn.ready = true) (hopen : conn.socketClosed = false)
    (hpending : ∀ i ∈ h'.pending, i ∈ h.pending ∧ i ≠ c) (hnodup : h'.pending.Nodup)
    (hnew : h'.conns[c]? = some { conn with link := some n })
    (hconns : ∀ i, i ≠ c → ∃ f : Conn → Conn, (∀ x, Follows x (f x)) ∧ h'.conns[i]? = (h.conns[i]?).map f)
    (hlinks : h'.links = Function.update h.links n (some c))
    (hregistered : h'.registered = h.registered ++ [(n, c)])
    (hprevious : ∀ p, h.links n = some p → h'.isClosed p = true) : LinksOk h' := by
  have hget : ∀ (i : Nat) (x : Conn), i ≠ c → h.conns[i]? = some x →
      ∃ x' : Conn, h'.conns[i]? = some x' ∧ Follows x x' := fun i x hi hx => by
    obtain ⟨f, hf, he⟩ := hconns i hi
    exact ⟨f x, by rw [he, hx, Option.map_some], hf x⟩
  have hall : ∀ (i : Nat) (x : Conn), i ≠ c → h'.conns[i]? = some x →
      ∃ y : Conn, h.conns[i]? = some y ∧ Follows y x := fun i x hi hx => by
    obtain ⟨f, hf, he⟩ := hconns i hi
    rw [he] at hx
    obtain ⟨y, hy, rfl⟩ := Option.map_eq_some_iff.mp hx
    exact ⟨y, hy, hf y⟩
  have hne : ∀ (i : Nat) (x : Conn), h.conns[i]? = some x → x.link ≠ none → i ≠ c := by
    rintro i x hx hl rfl
    cases hconn.symm.trans hx
    exact hl hlink
  refine ⟨fun m i hm => ?_, fun m i hm => ?_, fun r hr hold => ?_, fun r hr => ?_, fun i hi => ?_,
    hnodup, fun i x hx hl => ?_, fun i x hx he => ?_⟩
  · by_cases hmn : m = n
    · subst hmn
      rw [hlinks, update_self] at hm
      cases hm
      have hend : conn.ended = false := by
        by_contra he
        exact absurd (ok.ended c conn hconn (by simpa using he)) (by simp [hopen])
      exact ⟨_, hnew, rfl, hend⟩
    · rw [hlinks, update_of_ne hmn] at hm
      obtain ⟨x, hx, hl, he⟩ := ok.link m i hm
      obtain ⟨x', hx', hf⟩ := hget i x (hne i x hx (by simp [hl])) hx
      exact ⟨x', hx', hf.link.trans hl, hf.ended.trans he⟩
  · rw [hregistered, filter_append]
    by_cases hmn : m = n
    · subst hmn
      rw [hlinks, update_self] at hm
      cases hm
      simp
    · rw [hlinks, update_of_ne hmn] at hm
      simpa [Ne.symm hmn] using ok.last m i hm
  · rw [hregistered] at hr
    rcases mem_append.mp hr with hr | hr
    · obtain ⟨x, hx, hl⟩ := ok.linked r hr
      have hrc := hne r.2 x hx (by simp [hl])
      have hwas : h.links r.1 ≠ some r.2 → h'.isClosed r.2 = true := fun hno => by
        have hcl := ok.old r hr hno
        obtain ⟨x', hx', hf⟩ := hget r.2 x hrc hx
        simp only [Hub.isClosed, hx, hx', Option.all_some] at hcl ⊢
        exact hf.socketClosed hcl
      by_cases hrn : r.1 = n
      · by_cases hp : h.links n = some r.2
        · exact hprevious r.2 hp
        · exact hwas (by rwa [hrn])
      · rw [hlinks, update_of_ne hrn] at hold
        exact hwas hold
    · rw [mem_singleton.mp hr, hlinks, update_self] at hold
      exact absurd rfl hold
  · rw [hregistered] at hr
    rcases Places.mem_concat_cases hr with hr | rfl
    · obtain ⟨x, hx, hl⟩ := ok.linked r hr
      obtain ⟨x', hx', hf⟩ := hget r.2 x (hne r.2 x hx (by simp [hl])) hx
      exact ⟨x', hx', hf.link.trans hl⟩
    · exact ⟨_, hnew, rfl⟩
  · obtain ⟨hold, hi⟩ := hpending i hi
    obtain ⟨x, hx, hr, hl⟩ := ok.pending i hold
    obtain ⟨x', hx', hf⟩ := hget i x hi hx
    exact ⟨x', hx', hf.ready hr, hf.link.trans hl⟩
  · by_cases hi : i = c
    · rw [hi, hnew] at hx
      cases hx
      exact hready
    · obtain ⟨y, hy, hf⟩ := hall i x hi hx
      exact hf.ready (ok.ready i y hy (hf.link ▸ hl))
  · by_cases hi : i = c
    · rw [hi, hnew] at hx
      cases hx
      exact ok.ended c conn hconn he
    · obtain ⟨y, hy, hf⟩ := hall i x hi hx
      exact hf.socketClosed (ok.ended i y hy (hf.ended ▸ he))

theorem HubOk.pop (ok : HubOk h) {rest : List Nat} (hp : h.pending = c :: rest) : HubOk { h with pending := rest } := by
  have hnodup := ok.links.nodup
  rw [hp] at hnodup
  refine ⟨{ ok.links with pending := fun i hi => ?_, nodup := (nodup_cons.mp hnodup).2 }, fun m =>
    (ok.shown m).congr rfl rfl rfl (fun _ _ => rfl) rfl rfl rfl⟩
  exact ok.links.pending i (by simp only at hi; simp [hp, hi])

theorem getElem?_closePrevious (h : Hub) (previous : Option Nat) (i : Nat) :
    (h.closePrevious previous).conns[i]? = (h.conns[i]?).map fun x =>
      if previous = some i then { x with socketClosed := true } else x := by
  cases previous with
  | none => simp [Hub.closePrevious]
  | some p =>
    rw [Hub.closePrevious, getElem?_shut]
    simp [eq_comm]

/-- Closing the link before it closes a socket and nothing else. -/
theorem closePrevious_eq (h : Hub) (previous : Option Nat) :
    ∃ conns, h.closePrevious previous = { h with conns := conns } := by
  unfold Hub.closePrevious Hub.shut
  split
  · split
    · exact ⟨_, rfl⟩
    · exact ⟨_, rfl⟩
  · exact ⟨_, rfl⟩

theorem relink_eq (h : Hub) (c : Nat) (conn : Conn) (neg : Negotiated) : ∃ conns, h.relink c conn neg =
      { h with
        conns := conns, links := Function.update h.links neg.nodeId (some c),
        failures := Function.update h.failures neg.nodeId none,
        builds := Function.update h.builds neg.nodeId (h.announced neg.buildId),
        registered := h.registered ++ [(neg.nodeId, c)] } := by
  obtain ⟨conns, he⟩ := closePrevious_eq { h.setConn c { conn with link := some neg.nodeId } with
    links := Function.update h.links neg.nodeId (some c) } (h.links neg.nodeId)
  exact ⟨conns, by simp only [Hub.relink, he]; rfl⟩

theorem getElem?_relink (hconn : h.conns[c]? = some conn) (neg : Negotiated) (i : Nat) :
    (h.relink c conn neg).conns[i]? =
      ((if i = c then some { conn with link := some neg.nodeId } else h.conns[i]?) : Option Conn).map
        fun x => if h.links neg.nodeId = some i then { x with socketClosed := true } else x := by
  simp only [Hub.relink, getElem?_closePrevious]
  rw [← getElem?_setConn hconn]

/-- **A connection becomes its node's link.** -/
theorem HubOk.register (ok : HubOk h) {rest : List Nat} (hp : h.pending = c :: rest)
    (hconn : h.conns[c]? = some conn) (neg : Negotiated) :
    HubOk ({ h with pending := rest }.register c conn neg) := by
  obtain ⟨x, hx, hready, hlink⟩ := ok.links.pending c (by simp [hp])
  cases hconn.symm.trans hx
  have hnodup := ok.links.nodup
  rw [hp, nodup_cons] at hnodup
  unfold Hub.register
  split
  · exact ok.pop hp
  split
  · exact (ok.pop hp).shut c
  rename_i hopen _
  have hprev : h.links neg.nodeId ≠ some c := fun hn => by
    obtain ⟨y, hy, hl, -⟩ := ok.links.link _ c hn
    cases hconn.symm.trans hy
    exact absurd hl (by simp [hlink])
  obtain ⟨conns, he⟩ := relink_eq { h with pending := rest } c conn neg
  have hget := getElem?_relink (h := { h with pending := rest }) hconn neg
  have hclosed : ∀ i, i ≠ c → ({ h with pending := rest }.relink c conn neg).isClosed i
        = (h.isClosed i || h.links neg.nodeId = some i) := fun i hi => by
    simp only [Hub.isClosed, hget, if_neg hi]
    cases h.conns[i]? with
    | none => simp
    | some y => by_cases hn : h.links neg.nodeId = some i <;> simp [hn]
  have hlinks : LinksOk ({ h with pending := rest }.relink c conn neg) := by
    refine ok.links.register hconn hlink hready (by simpa using hopen) (n := neg.nodeId) ?_ ?_ ?_
      (fun i hi => ⟨fun y => if h.links neg.nodeId = some i then { y with socketClosed := true }
        else y, fun y => ?_, ?_⟩) ?_ ?_ fun p hn => ?_
    · rw [he]
      exact fun i hi => ⟨by simp [hp, show i ∈ rest from hi], fun hic => hnodup.1 (hic ▸ hi)⟩
    · rw [he]
      exact hnodup.2
    · rw [hget, if_pos rfl, Option.map_some, if_neg hprev]
    · split
      · exact ⟨rfl, rfl, fun _ => rfl, id⟩
      · exact ⟨rfl, rfl, id, id⟩
    · rw [hget, if_neg hi]
    · rw [he]
    · rw [he]
    · rw [hclosed p fun hpc => hprev (hpc ▸ hn)]
      simp [hn]
  have hshown : ∀ m, m ≠ neg.nodeId → ShownAt ({ h with pending := rest }.relink c conn neg) m := by
    intro m hm
    refine (ok.shown m).congr ?_ ?_ ?_ (fun i hi => ?_) ?_ ?_ ?_
    · rw [he]
      exact update_of_ne hm ..
    · rw [he]
      exact update_of_ne hm ..
    · rw [he]
      exact update_of_ne hm ..
    · obtain ⟨y, hy, hl, -⟩ := ok.links.link m i hi
      have hic : i ≠ c := by
        rintro rfl
        cases hconn.symm.trans hy
        exact absurd hl (by simp [hlink])
      have hn : h.links neg.nodeId ≠ some i := fun hn => by
        obtain ⟨z, hz, hlz, -⟩ := ok.links.link _ i hn
        cases hy.symm.trans hz
        exact hm (Option.some.inj (hl.symm.trans hlz))
      rw [hclosed i hic]
      simp [hn]
    · rw [he]
    · rw [he]
    · rw [he]
  simp only
  split
  · exact .publish hlinks hshown
  refine ⟨hlinks.congr rfl rfl rfl rfl, fun m => ?_⟩
  by_cases hm : m = neg.nodeId
  · intro hr
    rw [hm] at hr
    exact absurd hr (by simp)
  refine (hshown m hm).congr rfl rfl rfl (fun _ _ => rfl) rfl ?_ rfl
  rw [he]
  exact update_of_ne hm ..

/-- A closed connection ends: it is no node's link any more. -/
theorem LinksOk.drop (ok : LinksOk h) (conn' : Conn) (hconn : h.conns[c]? = some conn)
    (hl : conn'.link = conn.link) (hr : conn'.ready = conn.ready)
    (hs : conn'.socketClosed = true) (hconns : h'.conns = h.conns.set c conn')
    (hkeeps : ∀ m i, h'.links m = some i → h.links m = some i ∧ i ≠ c)
    (hloses : ∀ m i, h.links m = some i → h'.links m = some i ∨ i = c)
    (hp : h'.pending = h.pending) (hreg : h'.registered = h.registered) : LinksOk h' := by
  have hget : ∀ i : Nat, h'.conns[i]? = if i = c then some conn' else h.conns[i]? := fun i => by
    rw [hconns]
    exact getElem?_setConn hconn i
  refine ⟨fun m i hm => ?_, fun m i hm => ?_, fun r hmem hold => ?_, fun r hmem => ?_, fun i hi => ?_,
    hp ▸ ok.nodup, fun i x hx hlx => ?_, fun i x hx he => ?_⟩
  · obtain ⟨hm, hi⟩ := hkeeps m i hm
    rw [hget, if_neg hi]
    exact ok.link m i hm
  · rw [hreg]
    exact ok.last m i (hkeeps m i hm).1
  · rw [hreg] at hmem
    simp only [Hub.isClosed, hget]
    split
    · exact hs
    next hi =>
      refine ok.old r hmem fun hlink => hold ((hloses _ _ hlink).resolve_right hi)
  · rw [hreg] at hmem
    obtain ⟨x, hx, hlx⟩ := ok.linked r hmem
    rw [hget]
    split
    next hi =>
      rw [hi] at hx
      cases hconn.symm.trans hx
      exact ⟨conn', rfl, hl.trans hlx⟩
    · exact ⟨x, hx, hlx⟩
  · rw [hp] at hi
    obtain ⟨x, hx, hrx, hlx⟩ := ok.pending i hi
    rw [hget]
    split
    next hic =>
      rw [hic] at hx
      cases hconn.symm.trans hx
      exact ⟨conn', rfl, hr.trans hrx, hl.trans hlx⟩
    · exact ⟨x, hx, hrx, hlx⟩
  · rw [hget] at hx
    split at hx
    · cases hx
      exact hr.trans (ok.ready c conn hconn (hl ▸ hlx))
    · exact ok.ready i x hx hlx
  · rw [hget] at hx
    split at hx
    · cases hx
      exact hs
    · exact ok.ended i x hx he

theorem HubOk.onclose (ok : HubOk h) (hconn : h.conns[c]? = some conn)
    (hclosed : conn.socketClosed = true) : HubOk (h.onclose c conn) := by
  have hisClosed : ∀ (conn' : Conn) (i : Nat), conn'.socketClosed = true →
      (h.setConn c conn').isClosed i = h.isClosed i := fun conn' i hs => by
    rw [isClosed_setConn hconn]
    split
    next hi =>
      simp [hi, Hub.isClosed, hconn, hs, hclosed]
    · rfl
  -- A connection that is no node's link has none.
  have hother : ∀ m, h.links m = some c → conn.link = some m := fun m hm => by
    obtain ⟨x, hx, hl, -⟩ := ok.links.link m c hm
    cases hconn.symm.trans hx
    exact hl
  have hstays : ∀ conn' : Conn, conn'.link = conn.link → conn'.ready = conn.ready →
      conn'.socketClosed = true → (∀ m, h.links m ≠ some c) →
      HubOk (h.setConn c conn') := fun conn' hl hr hclosed hno =>
    ⟨ok.links.drop conn' hconn hl hr hclosed rfl (fun m i hm => ⟨hm, fun hi => hno m (hi ▸ hm)⟩)
      (fun _ _ hm => Or.inl hm) rfl rfl, fun m => (ok.shown m).congr rfl rfl rfl
      (fun i _ => hisClosed _ i hclosed) rfl rfl rfl⟩
  unfold Hub.onclose
  simp only
  split
  next n hn =>
    split
    next hlink =>
      refine .publish (ok.links.drop { conn with
          ended := true, rejected := conn.rejected || conn.negotiated.isNone } hconn rfl rfl hclosed
        rfl (fun m i hm => ?_)
        (fun m i hm => ?_) rfl rfl) fun m hm => ?_
      · by_cases hmn : m = n
        · simp [hmn] at hm
        have hm : h.links m = some i := by simpa [Hub.setConn, hmn] using hm
        refine ⟨hm, fun hi => hmn ?_⟩
        exact Option.some.inj ((hother m (hi ▸ hm)).symm.trans hn)
      · by_cases hmn : m = n
        · exact Or.inr (Option.some.inj (hm.symm.trans (hmn ▸ hlink)))
        · exact Or.inl (by simpa [Hub.setConn, hmn] using hm)
      · exact (ok.shown m).congr (update_of_ne hm ..) (update_of_ne hm ..) rfl
          (fun i _ => hisClosed _ i hclosed) rfl rfl rfl
    next hlink =>
      refine hstays _ rfl rfl hclosed fun m hm => hlink ?_
      rw [show n = m from Option.some.inj (hn.symm.trans (hother m hm))]
      exact hm
  next hn =>
    exact hstays _ rfl rfl hclosed fun m hm => absurd (hother m hm) (by simp [hn])

theorem HubOk.again (ok : HubOk h) (n : NodeId) : HubOk (h.publish n) := .publish ok.links fun m _ => ok.shown m

theorem HubOk.disconnect (ok : HubOk h) (n : NodeId) : HubOk (h.disconnect n) := by
  unfold Hub.disconnect
  split
  · exact ok.shut _
  · exact ok

theorem HubOk.block (ok : HubOk h) (n : NodeId) (row : Row) : HubOk (h.block n row) := by
  have hrows : HubOk { h with rows := Function.update h.rows n (some row) } :=
    ok.congr rfl rfl rfl rfl rfl rfl rfl rfl rfl
  exact (hrows.disconnect n).again n

theorem HubOk.accept (ok : HubOk h) (hl : conn.link = none) (he : conn.ended = true → conn.socketClosed = true) :
    HubOk { h with conns := h.conns ++ [conn] } := by
  have hget : ∀ (i : Nat) (x : Conn), h.conns[i]? = some x → (h.conns ++ [conn])[i]? = some x :=
    fun i x hx => by rw [List.getElem?_append_left (List.getElem?_eq_some_iff.mp hx).1, hx]
  have hnew : ∀ (i : Nat) (x : Conn), (h.conns ++ [conn])[i]? = some x →
      h.conns[i]? = some x ∨ x = conn := fun i x hx => by
    rw [getElem?_append] at hx
    split at hx
    · exact Or.inl hx
    · exact Or.inr (mem_singleton.mp (mem_of_getElem? hx))
  have hisClosed : ∀ (i : Nat) (x : Conn), h.conns[i]? = some x →
      ({ h with conns := h.conns ++ [conn] } : Hub).isClosed i = h.isClosed i := fun i x hx => by
    simp [Hub.isClosed, hget i x hx, hx]
  refine ⟨⟨fun n i hn => ?_, ok.links.last, fun r hr hold => ?_, fun r hr => ?_, fun i hi => ?_,
    ok.links.nodup, fun i x hx hlx => ?_, fun i x hx hex => ?_⟩, fun n =>
    (ok.shown n).congr rfl rfl rfl (fun i hi => ?_) rfl rfl rfl⟩
  · obtain ⟨x, hx, hlx⟩ := ok.links.link n i hn
    exact ⟨x, hget i x hx, hlx⟩
  · obtain ⟨x, hx, -⟩ := ok.links.linked r hr
    rw [hisClosed r.2 x hx]
    exact ok.links.old r hr hold
  · obtain ⟨x, hx, hlx⟩ := ok.links.linked r hr
    exact ⟨x, hget r.2 x hx, hlx⟩
  · obtain ⟨x, hx, hlx⟩ := ok.links.pending i hi
    exact ⟨x, hget i x hx, hlx⟩
  · rcases hnew i x hx with hx | rfl
    · exact ok.links.ready i x hx hlx
    · exact absurd hl hlx
  · rcases hnew i x hx with hx | rfl
    · exact ok.links.ended i x hx hex
    · exact he hex
  · obtain ⟨x, hx, -⟩ := ok.links.link n i hi
    exact hisClosed i x hx

theorem HubOk.close (ok : HubOk h) : HubOk h.close := by
  have hget : ∀ i : Nat, h.close.conns[i]? = (h.conns[i]?).map fun x =>
      if x.link.bind h.links = some i then { x with socketClosed := true } else x := fun i => by
    simp [Hub.close]
  have hfollows : ∀ (i : Nat) (x : Conn),
      Follows x (if x.link.bind h.links = some i then { x with socketClosed := true } else x) := by
    intro i x
    split
    · exact ⟨rfl, rfl, fun _ => rfl, id⟩
    · exact ⟨rfl, rfl, id, id⟩
  have hall : ∀ (i : Nat) (x : Conn), h.close.conns[i]? = some x →
      ∃ y : Conn, h.conns[i]? = some y ∧ Follows y x := fun i x hx => by
    rw [hget] at hx
    obtain ⟨y, hy, rfl⟩ := Option.map_eq_some_iff.mp hx
    exact ⟨y, hy, hfollows i y⟩
  refine ⟨⟨fun n i hn => absurd hn (by simp [Hub.close]), fun n i hn => absurd hn (by simp [Hub.close]),
    fun r hr _ => ?_, fun r hr => ?_, fun i hi => ?_, ok.links.nodup, fun i x hx hl => ?_,
    fun i x hx he => ?_⟩, fun n _ hx => absurd hx (by simp [Hub.close])⟩
  · obtain ⟨x, hx, hl⟩ := ok.links.linked r hr
    simp only [Hub.isClosed, hget, hx, Option.map_some, Option.all_some]
    by_cases hlink : h.links r.1 = some r.2
    · simp [hl, hlink]
    have hcl := ok.links.old r hr hlink
    rw [Hub.isClosed, hx] at hcl
    exact (hfollows r.2 x).socketClosed hcl
  · obtain ⟨x, hx, hl⟩ := ok.links.linked r hr
    exact ⟨_, by rw [hget, hx, Option.map_some], (hfollows r.2 x).link.trans hl⟩
  · obtain ⟨x, hx, hr, hl⟩ := ok.links.pending i hi
    exact ⟨_, by rw [hget, hx, Option.map_some], (hfollows i x).ready hr, (hfollows i x).link.trans hl⟩
  · obtain ⟨y, hy, hf⟩ := hall i x hx
    exact hf.ready (ok.links.ready i y hy (hf.link ▸ hl))
  · obtain ⟨y, hy, hf⟩ := hall i x hx
    exact hf.socketClosed (ok.links.ended i y hy (hf.ended ▸ he))

theorem HubOk.step (ok : HubOk h) (e : Event) : HubOk (step h e) := by
  cases e with
  | accept authenticate =>
    refine ok.accept ?_ ?_
    · split <;> rfl
    split
    · exact fun _ => rfl
    · exact fun he => absurd he (by simp [Conn.fresh])
  | proves c n valid =>
    simp only [NodeHub.step]
    split
    next conn hconn =>
      split
      · exact ok.setConn hconn ⟨rfl, rfl, id, id⟩ rfl
      · exact ok
    · exact ok
  | fails c =>
    simp only [NodeHub.step]
    split
    next conn hconn =>
      split
      · exact ok.setConn hconn ⟨rfl, rfl, id, id⟩ rfl
      · exact ok
    · exact ok
  | hello c hello time =>
    simp only [NodeHub.step]
    split
    next conn hconn =>
      split
      · exact ok
      split
      · exact ok.tasks _
      · exact ok.serve hconn hello time
    · exact ok
  | resume t time =>
    simp only [NodeHub.step]
    split
    · split
      next conn _ hconn =>
        split
        · exact (ok.endTask t _).resume hconn _ time
        · exact ok
      · exact ok
    · exact ok
  | built t built time =>
    simp only [NodeHub.step]
    split
    · split
      next conn _ hconn =>
        exact (ok.endTask t _).offerUpdate hconn built time
      · exact ok
    · exact ok
  | register =>
    simp only [NodeHub.step]
    split
    next c rest hp =>
      split
      next conn hconn =>
        split
        · exact ok.register hp hconn _
        · exact ok
      · exact ok
    · exact ok
  | shut c => exact ok.shut c
  | onclose c =>
    simp only [NodeHub.step]
    split
    next conn hconn =>
      split
      next hc =>
        exact ok.onclose hconn hc.1
      · exact ok
    · exact ok
  | pair n =>
    simp only [NodeHub.step]
    split
    · refine HubOk.again ?_ n
      exact ok.congr rfl rfl rfl rfl rfl rfl rfl rfl rfl
    · exact ok
  | revoke n =>
    simp only [NodeHub.step]
    split
    · split
      · exact ok
      · exact ok.block n _
    · exact ok
  | remove n =>
    simp only [NodeHub.step]
    split
    · split
      · exact ok
      · exact ok.block n _
    · exact ok
  | close => exact ok.close

end

theorem run_ok (rows : NodeId → Option Row) (es : List Event) : HubOk (run rows es) :=
  Run.exec_invariant HubOk (fun _ e ok => ok.step e) (.fresh rows) es

/-! ## What the hub reports -/

structure Viewed (h : Hub) : Prop where
  one : ∀ n c c', (n, c) ∈ h.registered → (n, c') ∈ h.registered → h.isClosed c = false → h.isClosed c' = false → c = c'
  newest : ∀ n c, h.linked n = .ok c → h.isClosed c = false ∧
    (h.registered.filter fun r => r.1 = n).getLast? = some (n, c)
  /-- The close of one that was replaced changes nothing of any node's. -/
  older : ∀ c, (∀ n, h.links n ≠ some c) → (step h (.onclose c)).links = h.links ∧
    (step h (.onclose c)).builds = h.builds ∧ (step h (.onclose c)).failures = h.failures ∧
    (step h (.onclose c)).shown = h.shown
  /-- What browsers were last told of a node is its view, or its link's close will tell them. -/
  published : ∀ n, h.replaced n = false → h.closed = false → h.shown n = h.view n ∨
    ∃ c, h.links n = some c ∧ h.isClosed c = true ∧ (step h (.onclose c)).shown n = (step h (.onclose c)).view n

theorem open?_eq {h : Hub} {n : NodeId} {c : Nat} (hopen : h.open? n = some c) :
    h.links n = some c ∧ h.isClosed c = false := by
  obtain ⟨hl, hc⟩ := Option.filter_eq_some_iff.mp hopen
  exact ⟨hl, by simpa using hc⟩

theorem Viewed.of {h : Hub} (ok : HubOk h) : Viewed h := by
  have hlink : ∀ n c, (n, c) ∈ h.registered → h.isClosed c = false → h.links n = some c :=
    fun n c hr hc => by
      by_contra hl
      exact absurd (ok.links.old (n, c) hr hl) (by simp [hc])
  refine ⟨fun n c c' hr hr' hc hc' => ?_, fun n c hcall => ?_, fun c hno => ?_, fun n hr hx => ?_⟩
  · exact Option.some.inj ((hlink n c hr hc).symm.trans (hlink n c' hr' hc'))
  · have hopen : h.open? n = some c := by
      unfold Hub.linked at hcall
      split at hcall
      next i hi =>
        obtain rfl : i = c := by simpa using hcall
        exact hi
      · cases hcall
    obtain ⟨hl, hc⟩ := open?_eq hopen
    exact ⟨hc, ok.links.last n c hl⟩
  · simp only [step]
    split
    · split
      · unfold Hub.onclose
        simp only
        split
        next n _ =>
          rw [if_neg (hno n)]
          exact ⟨rfl, rfl, rfl, rfl⟩
        · exact ⟨rfl, rfl, rfl, rfl⟩
      · exact ⟨rfl, rfl, rfl, rfl⟩
    · exact ⟨rfl, rfl, rfl, rfl⟩
  · refine (ok.shown n hr hx).imp_right fun ⟨c, hl, hc⟩ => ⟨c, hl, hc, ?_⟩
    obtain ⟨conn, hconn, hn, he⟩ := ok.links.link n c hl
    have hs : conn.socketClosed = true := by simpa [Hub.isClosed, hconn] using hc
    have hstep : ∃ g : Hub, step h (.onclose c) = g.publish n := by
      simp only [step, hconn, Hub.onclose, hn]
      rw [if_pos ⟨hs, by simp [he]⟩, if_pos hl]
      exact ⟨_, rfl⟩
    obtain ⟨g, hg⟩ := hstep
    rw [hg]
    exact update_self ..

/-- **The link table and its published view.** -/
theorem hub_viewed (rows : NodeId → Option Row) (es : List Event) : Viewed (run rows es) := .of (run_ok rows es)

def theNode : NodeId := js "n"

def source (minVersion maxVersion : Nat) : Hello :=
  { nodeId := theNode, buildId := none, minVersion, maxVersion, docs := some ⟨js "docs", false⟩ }

/-- A second connection of a linked node fails to negotiate, and a third replaces its link. -/
def replacingRun : List Event :=
  [.pair theNode, .accept false, .hello 0 (source 16 16) (js "1"), .register, .accept false,
    .hello 1 (source 9 9) (js "2"), .accept false, .hello 2 (source 16 16) (js "3"), .register,
    .onclose 0]

/-- Browsers keep the failure they were told of, which the new link cleared. -/
theorem replacing_unpublished : (run (fun _ => none) replacingRun).linked theNode = .ok 2 ∧
      ((run (fun _ => none) replacingRun).shown theNode).failure.isSome = true ∧
      ((run (fun _ => none) replacingRun).view theNode).failure = none ∧
      (run (fun _ => none) replacingRun).shown theNode ≠ (run (fun _ => none) replacingRun).view theNode ∧
      ∀ c, (run (fun _ => none) replacingRun).links theNode = some c →
        (run (fun _ => none) replacingRun).isClosed c = false := by
  have hlinks : (run (fun _ => none) replacingRun).links theNode = some 2 := by decide +kernel
  refine ⟨?_, by decide +kernel, by decide +kernel, by decide +kernel, fun c hc => ?_⟩
  · have hopen : (run (fun _ => none) replacingRun).open? theNode = some 2 := by decide +kernel
    rw [Hub.linked, hopen]
  · cases hlinks.symm.trans hc
    decide +kernel

end Reins.NodeHub
