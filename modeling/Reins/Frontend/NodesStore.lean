import Reins.Lib.Replica
import Reins.Backend.CodeReviews
import Reins.Frontend.Loadable

/-!
# The nodes a browser lists (`frontend/src/models/stores/nodes-store.ts`)

The list is loaded whenever the app connects, and kept current from the messages the server sends of each
node it changes or removes. A list, and what a rename or a removal answers, is written over what is there.
The messages come in the server's order over one channel, the answers over another.
-/

namespace Reins.NodesStore

open CodeReviews (trim)
open Places Replica Run List
open Schema (JsString)
open Utf (js)

abbrev NodeId := JsString

structure NodeView where
  id : NodeId
  name : JsString
  connected : Bool
  paired : Bool
  hostname : Option JsString
  pairedAt : Option JsString
  revokedAt : Option JsString
  deriving DecidableEq

/-! ## The server's nodes (`backend/src/models/nodes.ts`, `models/node.ts`) -/

structure NodeRow where
  view : NodeView
  removed : Bool

inductive NodeMessage
  | nodeUpdated (node : NodeView)
  | nodeRemoved (nodeId : NodeId)

structure Server where
  rows : List NodeRow
  broadcasts : List NodeMessage

variable {nodes : List NodeView} {server : Server} {view : NodeView} {made : Nat}

/-- SQLite's order of the listed: by name, then ID. -/
abbrev Order := NodeView → NodeView → Bool

def Server.row (s : Server) (id : NodeId) : Option NodeRow := s.rows.find? fun row => row.view.id = id

def Server.list (order : Order) (s : Server) : List NodeView :=
  ((s.rows.filter (!·.removed)).map (·.view)).insertionSort fun a b => order a b

def Server.publish (s : Server) (id : NodeId) : Server :=
  { s with broadcasts := s.broadcasts ++ [
      match s.row id with
      | some row => if row.removed then .nodeRemoved id else .nodeUpdated row.view
      | none => .nodeRemoved id] }

def Server.write (s : Server) (row : NodeRow) : Server :=
  let rows := s.rows.filter (fun r => r.view.id ≠ row.view.id) ++ [row]
  { s with rows }.publish row.view.id

/-- A node is paired, or connects, disconnects or is changed in any way but its removal. -/
def Server.put (s : Server) (view : NodeView) : Server := s.write ⟨view, (s.row view.id).any (·.removed)⟩

def maxNodeNameLength : Nat := 100

def Server.rename (s : Server) (id : NodeId) (name : JsString) : Except JsString (Server × NodeView) :=
  match s.row id with
  | none => .error (js "Node not found: " ++ id)
  | some row =>
    let trimmed := trim name
    if row.removed then .error (js "Node removed: " ++ id)
    else if trimmed.length = 0 ∨ maxNodeNameLength < trimmed.length then
      .error (js "A node name must have 1 to 100 characters")
    else
      let view := { row.view with name := trimmed }
      .ok (s.write ⟨view, false⟩, view)

def Server.remove (s : Server) (id : NodeId) : Except JsString Server :=
  match s.row id with
  | none => .error (js "Node not found: " ++ id)
  | some row =>
    if !row.view.paired then .error (js "Node was never paired and cannot be removed: " ++ id)
    else if row.removed then .ok s
    else .ok (s.write ⟨row.view, true⟩)

/-! ## The store -/

inductive Call
  | list
  | rename (nodeId : NodeId) (name : JsString)
  | remove (nodeId : NodeId)

inductive Answer
  | nodes (nodes : List NodeView)
  | node (node : NodeView)
  | removed (nodeId : NodeId)
  | failed (message : JsString)

/-- A request, and once the server made it its answer, after how many messages. -/
structure Request where
  call : Call
  answer : Option (Nat × Answer)
  landed : Bool

structure State where
  server : Server
  requests : List Request
  taken : Nat
  nodes : Loadable (List NodeView)

def State.init (rows : List NodeRow) : State := ⟨⟨rows, []⟩, [], 0, .idle⟩

inductive Event
  | put (view : NodeView)
  | removed (nodeId : NodeId)
  | answer (i : Nat)
  | fail (i : Nat) (message : JsString)
  | message
  | land (i : Nat)
  | load
  | rename (nodeId : NodeId) (name : JsString)
  | remove (nodeId : NodeId)

def byName (a b : NodeView) : Bool := a.name < b.name || a.name = b.name && (a.id < b.id || a.id = b.id)

def upsert (nodes : List NodeView) (node : NodeView) : List NodeView :=
  (nodes.filter (·.id ≠ node.id) ++ [node]).insertionSort fun a b => byName a b

def drop (nodes : List NodeView) (nodeId : NodeId) : List NodeView := nodes.filter (·.id ≠ nodeId)

def State.setNodes (s : State) (nodes : Loadable (List NodeView)) : State := { s with nodes }

def State.change (s : State) (f : List NodeView → List NodeView) : State :=
  match s.nodes.data with
  | some nodes => s.setNodes (.asLoaded (f nodes))
  | none => s

def State.received (s : State) : NodeMessage → State
  | .nodeUpdated node => s.change (upsert · node)
  | .nodeRemoved nodeId => s.change (drop · nodeId)

def State.send (s : State) (call : Call) : State := { s with requests := s.requests ++ [⟨call, none, false⟩] }

def State.message (s : State) : State :=
  match s.server.broadcasts[s.taken]? with
  | some message => { s with taken := s.taken + 1 }.received message
  | none => s

def Server.answer (order : Order) (s : Server) : Call → Server × Answer
  | .list => (s, .nodes (s.list order))
  | .rename nodeId name =>
    match s.rename nodeId name with
    | .ok (s', view) => (s', .node view)
    | .error message => (s, .failed message)
  | .remove nodeId =>
    match s.remove nodeId with
    | .ok s' => (s', .removed nodeId)
    | .error message => (s, .failed message)

def State.answered (s : State) (i : Nat) (r : Request) (server : Server) (answer : Answer) : State :=
  { s with server, requests := s.requests.set i { r with answer := some (server.broadcasts.length, answer) } }

def State.answer (order : Order) (s : State) (i : Nat) (r : Request) : State :=
  match r.answer with
  | none => s.answered i r (s.server.answer order r.call).1 (s.server.answer order r.call).2
  | some _ => s

def State.fail (s : State) (i : Nat) (message : JsString) (r : Request) : State :=
  match r.answer with
  | none => s.answered i r s.server (.failed message)
  | some _ => s

def State.settle (s : State) (call : Call) (answer : Answer) : State :=
  match answer with
  | .nodes nodes => s.setNodes (.asLoaded nodes)
  | .node node => s.change (upsert · node)
  | .removed nodeId => s.change (drop · nodeId)
  | .failed message =>
    match call with
    | .list => s.setNodes (s.nodes.asError message)
    | .rename .. | .remove _ => s

def State.land (s : State) (i : Nat) (r : Request) : State :=
  match r.landed, r.answer with
  | false, some (_, answer) =>
    { s with requests := s.requests.set i { r with landed := true } }.settle r.call answer
  | _, _ => s

def State.onRequest (s : State) (i : Nat) (f : Request → State) : State := (s.requests[i]?).elim s f

def step (order : Order) (s : State) : Event → State
  | .put view => { s with server := s.server.put view }
  | .removed nodeId => { s with server := (s.server.remove nodeId).toOption.getD s.server }
  | .answer i => s.onRequest i (s.answer order i)
  | .fail i message => s.onRequest i (s.fail i message)
  | .message => s.message
  | .land i => s.onRequest i (s.land i)
  | .load => ({ s with nodes := s.nodes.asLoading } : State).send .list
  | .rename nodeId name => s.send (.rename nodeId (trim name))
  | .remove nodeId => s.send (.remove nodeId)

/-! ## What is asked of it -/

def Server.node (s : Server) (id : NodeId) : Option NodeView := ((s.row id).filter (!·.removed)).map (·.view)

def NodeMessage.word : NodeMessage → NodeId × Option NodeView
  | .nodeUpdated node => (node.id, some node)
  | .nodeRemoved nodeId => (nodeId, none)

def State.log (s : State) : List (NodeId × Option NodeView) := s.server.broadcasts.map (·.word)

def Answer.word (id : NodeId) : Answer → Option (Option NodeView)
  | .nodes listed => some (table (·.id) listed id)
  | .node view => if id = view.id then some (some view) else none
  | .removed nodeId => if id = nodeId then some none else none
  | .failed _ => none

/-- Once the list is loaded, each node that no message on its way is about is listed as the server has it. -/
def Converged (s : State) : Prop :=
  ∀ nodes, s.nodes.data = some nodes → ∀ id, ¬OnItsWay s.log s.taken id → table (·.id) nodes id = s.server.node id

/-- The answer that lands, with after how many messages it was made, where it is written into the list. -/
def State.landing (s : State) : Event → Option (Nat × Answer)
  | .land i => (s.requests[i]?).bind fun r =>
    match r.landed, r.answer with
    | false, some (made, .nodes nodes) => some (made, .nodes nodes)
    | false, some (made, answer) => if s.nodes.data.isSome then some (made, answer) else none
    | _, _ => none
  | _ => none

/-- No answer lands that takes back what a later message that has arrived says of a node, with no other message
about that node on its way. -/
def InServerOrder (s : State) (e : Event) : Prop :=
  ∀ made answer, s.landing e = some (made, answer) → ∀ id word, answer.word id = some word →
    Overtaken s.log made s.taken id → ¬OnItsWay s.log s.taken id → word = s.server.node id

/-! ## The server's table -/

section

variable {server server' : Server}

def Server.Ids (server : Server) : Prop := (server.rows.map (·.view.id)).Nodup

def NodeRow.word (row : NodeRow) : NodeId × Option NodeView := (row.view.id, if row.removed then none else some row.view)

theorem node_eq (server : Server) (id : NodeId) :
    server.node id = ((table (·.view.id) server.rows id).filter (!·.removed)).map (·.view) := rfl

theorem row_id {id : NodeId} {row : NodeRow} (h : server.row id = some row) : row.view.id = id :=
  of_decide_eq_true (find?_some (p := fun row : NodeRow => row.view.id = id) h)

theorem write_ids (h : server.Ids) (row : NodeRow) : (server.write row).Ids :=
  @nodup_replace _ _ _ (fun r : NodeRow => r.view.id) _ _ _ h (List.Perm.refl _)

theorem write_row (h : server.Ids) (row : NodeRow) :
    (server.write row).row = Function.update server.row row.view.id (some row) :=
  @table_replace _ _ _ (fun r : NodeRow => r.view.id) _ _ _ h (List.Perm.refl _)

theorem write_node (h : server.Ids) (row : NodeRow) :
    (server.write row).node = Function.update server.node row.word.1 row.word.2 := by
  funext id
  unfold Server.node
  rw [write_row h]
  by_cases heq : id = row.view.id
  · subst heq
    rw [Function.update_self, show row.word.1 = row.view.id from rfl, Function.update_self]
    cases hremoved : row.removed <;> simp [NodeRow.word, hremoved]
  · rw [Function.update_of_ne heq, show row.word.1 = row.view.id from rfl, Function.update_of_ne heq]

theorem write_broadcasts (h : server.Ids) (row : NodeRow) :
    ∃ m, (server.write row).broadcasts = server.broadcasts ++ [m] ∧ m.word = row.word := by
  have hrow : ({ server with rows := server.rows.filter (fun r => r.view.id ≠ row.view.id) ++ [row] } : Server).row
      row.view.id = some row := by
    have := congrFun (write_row h row) row.view.id
    rw [Function.update_self] at this
    exact this
  refine ⟨_, rfl, ?_⟩
  rw [hrow]
  cases hremoved : row.removed <;> simp [NodeMessage.word, NodeRow.word, hremoved]

theorem mem_list {order : Order} :
    view ∈ server.list order ↔ ∃ row ∈ server.rows, row.removed = false ∧ row.view = view := by
  unfold Server.list
  rw [(perm_insertionSort _ _).mem_iff, mem_map]
  simp [and_assoc]

theorem list_ids (h : server.Ids) (order : Order) : ((server.list order).map (·.id)).Nodup := by
  unfold Server.list
  rw [((perm_insertionSort _ _).map _).nodup_iff, map_map]
  exact @nodup_filter _ _ (fun r : NodeRow => r.view.id) _ h _

theorem table_list (h : server.Ids) (order : Order) : table (·.id) (server.list order) = server.node := by
  funext id
  refine Option.ext fun view => ?_
  rw [table_eq_some (list_ids h order), mem_list, node_eq, Option.map_eq_some_iff]
  constructor
  · rintro ⟨⟨row, hrow, hremoved, rfl⟩, rfl⟩
    refine ⟨row, ?_, rfl⟩
    rw [Option.filter_eq_some_iff, table_eq_some h]
    exact ⟨⟨hrow, rfl⟩, hremoved ▸ rfl⟩
  · rintro ⟨row, hrow, rfl⟩
    rw [Option.filter_eq_some_iff, table_eq_some h] at hrow
    obtain ⟨⟨hrow, hid⟩, hremoved⟩ := hrow
    exact ⟨⟨row, hrow, by simpa using hremoved, rfl⟩, hid⟩

def Server.Next (server server' : Server) : Prop := server' = server ∨ ∃ row, server' = server.write row

theorem remove_next {id : NodeId} (h : server.remove id = .ok server') : Server.Next server server' := by
  unfold Server.remove at h
  split at h
  · cases h
  split at h
  · cases h
  split at h
  · exact .inl (Except.ok.inj h).symm
  · exact .inr ⟨_, (Except.ok.inj h).symm⟩

theorem removed_next (server : Server) (id : NodeId) :
    Server.Next server ((server.remove id).toOption.getD server) := by
  cases h : server.remove id with
  | error message => exact .inl rfl
  | ok server' => exact remove_next h

theorem remove_node (hids : server.Ids) {id : NodeId} (h : server.remove id = .ok server') :
    server'.node id = none := by
  unfold Server.remove at h
  split at h
  · cases h
  rename_i row hrow
  split at h
  · cases h
  split at h
  next hremoved =>
    rw [← Except.ok.inj h, Server.node, hrow]
    simp [hremoved]
  · rw [← Except.ok.inj h, write_node hids, ← row_id hrow]
    exact Function.update_self _ _ _

theorem rename_next {id : NodeId} {name : JsString}
    (h : server.rename id name = .ok (server', view)) : server' = server.write ⟨view, false⟩ := by
  unfold Server.rename at h
  split at h
  · cases h
  dsimp only at h
  split at h
  · cases h
  split at h
  · cases h
  · cases Except.ok.inj h
    rfl

end

/-! ## Every run -/

section

variable {s s' : State} {base : NodeId → Option NodeView}

structure Answer.Says (answer : Answer) (table : NodeId → Option NodeView) : Prop where
  word : ∀ id word, answer.word id = some word → word = table id
  ids : ∀ nodes, answer = .nodes nodes → (nodes.map (·.id)).Nodup

structure Kept (base : NodeId → Option NodeView) (s : State) : Prop where
  ids : s.server.Ids
  node : s.server.node = after base s.log
  taken : s.taken ≤ s.log.length
  answers : ∀ r ∈ s.requests, ∀ made answer, r.answer = some (made, answer) →
    made ≤ s.log.length ∧ answer.Says (after base (s.log.take made))
  listed : ∀ nodes, s.nodes.data = some nodes → (nodes.map (·.id)).Nodup

theorem converged_iff (h : Kept base s) :
    Converged s ↔ ∀ nodes, s.nodes.data = some nodes → Fresh base s.log s.taken (table (·.id) nodes) := by
  unfold Converged Fresh
  rw [h.node]

theorem kept_init (rows : List NodeRow) (h : (rows.map (·.view.id)).Nodup) :
    Kept (Server.node ⟨rows, []⟩) (.init rows) := by
  refine ⟨h, rfl, Nat.le_refl _, nofun, nofun⟩

/-! ### The server's steps -/

theorem log_write (hids : s.server.Ids) (row : NodeRow) :
    ({ s with server := s.server.write row } : State).log = s.log ++ [row.word] := by
  obtain ⟨m, hm, hword⟩ := write_broadcasts hids row
  unfold State.log
  rw [hm, map_append, map_singleton, hword]

theorem Kept.next (h : Kept base s) (hn : Server.Next s.server server) : Kept base { s with server } := by
  rcases hn with rfl | ⟨row, rfl⟩
  · exact h
  have hlog := log_write h.ids row
  constructor
  · exact write_ids h.ids row
  · rw [hlog, after_concat, ← h.node]
    exact write_node h.ids row
  · rw [hlog, length_append]
    exact Nat.le_add_right_of_le h.taken
  · intro r hr made answer hanswer
    obtain ⟨hle, htells⟩ := h.answers r hr made answer hanswer
    rw [hlog, length_append, take_append_of_le_length hle]
    exact ⟨Nat.le_add_right_of_le hle, htells⟩
  · exact h.listed

theorem Kept.converged_next (h : Kept base s) (hn : Server.Next s.server server)
    (hc : Converged s) : Converged { s with server } := by
  rw [converged_iff (h.next hn)]
  rw [converged_iff h] at hc
  rcases hn with rfl | ⟨row, rfl⟩
  · exact hc
  intro nodes hnodes
  rw [log_write h.ids row]
  exact (hc nodes hnodes).append h.taken row.word

theorem answer_next (order : Order) (server : Server) (call : Call) :
    Server.Next server (server.answer order call).1 := by
  cases call with
  | list => exact .inl rfl
  | rename nodeId name =>
    unfold Server.answer
    dsimp only
    split
    next hok =>
      exact .inr ⟨_, rename_next hok⟩
    · exact .inl rfl
  | remove nodeId =>
    unfold Server.answer
    dsimp only
    split
    next hok =>
      exact remove_next hok
    · exact .inl rfl

theorem says_node {t : NodeId → Option NodeView} (h : t view.id = some view) : (Answer.node view).Says t := by
  refine ⟨?_, nofun⟩
  intro id word hword
  change (if id = view.id then some (some view) else none) = some word at hword
  split at hword
  next hid =>
    rw [← Option.some_inj.mp hword, hid, h]
  · cases hword

theorem says_removed {nodeId : NodeId} {t : NodeId → Option NodeView} (h : t nodeId = none) :
    (Answer.removed nodeId).Says t := by
  refine ⟨?_, nofun⟩
  intro id word hword
  change (if id = nodeId then some none else none) = some word at hword
  split at hword
  next hid =>
    rw [← Option.some_inj.mp hword, hid, h]
  · cases hword

theorem says_failed (message : JsString) (t : NodeId → Option NodeView) : (Answer.failed message).Says t :=
  ⟨nofun, nofun⟩

theorem answer_tells (hids : server.Ids) (order : Order) (call : Call) :
    (server.answer order call).2.Says (server.answer order call).1.node := by
  cases call with
  | list =>
    refine ⟨?_, ?_⟩
    · intro id word hword
      rw [← Option.some_inj.mp hword]
      exact congrFun (table_list hids order) id
    intro nodes hnodes
    rw [← Answer.nodes.inj hnodes]
    exact list_ids hids order
  | rename nodeId name =>
    unfold Server.answer
    dsimp only
    split
    next server' view hok =>
      apply says_node
      rw [rename_next hok, write_node hids]
      exact Function.update_self _ _ _
    · exact says_failed _ _
  | remove nodeId =>
    unfold Server.answer
    dsimp only
    split
    next hok =>
      exact says_removed (remove_node hids hok)
    · exact says_failed _ _

theorem Kept.answered (h : Kept base s) {i : Nat} {r : Request} {answer : Answer}
    (hn : Server.Next s.server server) (htells : answer.Says server.node) :
    Kept base (s.answered i r server answer) := by
  have hnext := h.next hn
  refine { hnext with answers := ?_ }
  intro r' hr' made answer' hanswer
  rcases mem_or_eq_of_mem_set hr' with hr' | rfl
  · exact hnext.answers r' hr' made answer' hanswer
  cases Option.some_inj.mp hanswer
  have hlength : server.broadcasts.length = ({ s with server } : State).log.length := length_map _ |>.symm
  refine ⟨Nat.le_of_eq hlength, ?_⟩
  have htake : (s.answered i r server answer).log.take server.broadcasts.length = ({ s with server } : State).log := by
    rw [hlength]
    exact take_length
  rw [htake, ← hnext.node]
  exact htells

/-! ### The store's steps -/

/-- The nodes, the messages and the requests are as they were, but for which have landed and new ones. -/
structure Sends (s s' : State) : Prop where
  server : s'.server = s.server
  taken : s'.taken = s.taken
  requests : ∀ r' ∈ s'.requests, r'.answer = none ∨ ∃ r ∈ s.requests, r'.answer = r.answer

theorem Sends.log (h : Sends s s') : s'.log = s.log := by
  unfold State.log
  rw [h.server]

theorem Kept.sends (h : Kept base s) (hs : Sends s s')
    (hlisted : ∀ nodes, s'.nodes.data = some nodes → (nodes.map (·.id)).Nodup) : Kept base s' := by
  constructor
  · rw [hs.server]
    exact h.ids
  · rw [hs.server, hs.log]
    exact h.node
  · rw [hs.taken, hs.log]
    exact h.taken
  · intro r' hr' made answer hanswer
    rw [hs.log]
    rcases hs.requests r' hr' with hnone | ⟨r, hr, hsame⟩
    · cases hnone.symm.trans hanswer
    · exact h.answers r hr made answer (hsame ▸ hanswer)
  · exact hlisted

theorem Converged.same (h : Converged s) (hs : Sends s s') (hnodes : s'.nodes.data = s.nodes.data) : Converged s' := by
  unfold Converged
  rw [hnodes, hs.log, hs.taken, hs.server]
  exact h

theorem Sends.send (s : State) (call : Call) (nodes : Loadable (List NodeView)) :
    Sends s (({ s with nodes } : State).send call) := by
  refine ⟨rfl, rfl, ?_⟩
  intro r hr
  rcases mem_concat_cases hr with hr | rfl
  · exact .inr ⟨r, hr, rfl⟩
  · exact .inl rfl

theorem upsert_perm (nodes : List NodeView) (node : NodeView) :
    (upsert nodes node).Perm (nodes.filter (·.id ≠ node.id) ++ [node]) := perm_insertionSort _ _

theorem upsert_ids (h : (nodes.map (·.id)).Nodup) (node : NodeView) :
    ((upsert nodes node).map (·.id)).Nodup := nodup_replace h (upsert_perm nodes node)

theorem table_upsert (h : (nodes.map (·.id)).Nodup) (node : NodeView) :
    table (·.id) (upsert nodes node) = Function.update (table (·.id) nodes) node.id (some node) :=
  table_replace h (upsert_perm nodes node)

theorem drop_ids (h : (nodes.map (·.id)).Nodup) (nodeId : NodeId) :
    ((drop nodes nodeId).map (·.id)).Nodup := nodup_filter h _

theorem table_drop (h : (nodes.map (·.id)).Nodup) (nodeId : NodeId) :
    table (·.id) (drop nodes nodeId) = Function.update (table (·.id) nodes) nodeId none := table_filter h nodeId

theorem change_data (s : State) (f : List NodeView → List NodeView) : (s.change f).nodes.data = s.nodes.data.map f := by
  unfold State.change
  cases hdata : s.nodes.data with
  | none => simp [hdata]
  | some nodes => rfl

theorem change_sends (s : State) (f : List NodeView → List NodeView) : Sends s (s.change f) := by
  unfold State.change
  split <;> exact ⟨rfl, rfl, fun r hr => .inr ⟨r, hr, rfl⟩⟩

theorem received_data (s : State) (h : ∀ nodes, s.nodes.data = some nodes → (nodes.map (·.id)).Nodup)
    (m : NodeMessage) {nodes' : List NodeView} (hnodes' : (s.received m).nodes.data = some nodes') :
    ∃ nodes, s.nodes.data = some nodes ∧ (nodes'.map (·.id)).Nodup ∧
      table (·.id) nodes' = Function.update (table (·.id) nodes) m.word.1 m.word.2 := by
  cases m with
  | nodeUpdated node =>
    rw [State.received, change_data] at hnodes'
    obtain ⟨nodes, hnodes, rfl⟩ := Option.map_eq_some_iff.mp hnodes'
    exact ⟨nodes, hnodes, upsert_ids (h nodes hnodes) node, table_upsert (h nodes hnodes) node⟩
  | nodeRemoved nodeId =>
    rw [State.received, change_data] at hnodes'
    obtain ⟨nodes, hnodes, rfl⟩ := Option.map_eq_some_iff.mp hnodes'
    exact ⟨nodes, hnodes, drop_ids (h nodes hnodes) nodeId, table_drop (h nodes hnodes) nodeId⟩

theorem received_sends (s : State) (m : NodeMessage) : Sends s (s.received m) := by
  cases m with
  | nodeUpdated node => exact change_sends s _
  | nodeRemoved nodeId => exact change_sends s _

theorem Kept.message (h : Kept base s) : Kept base s.message ∧ (Converged s → Converged s.message) := by
  unfold State.message
  split
  next m hm =>
    have hlog : s.log[s.taken]? = some m.word := by
      unfold State.log
      rw [getElem?_map, hm, Option.map_some]
    have htaken : Kept base { s with taken := s.taken + 1 } := { h with taken := lt_of_getElem? hlog }
    have hsends := received_sends { s with taken := s.taken + 1 } m
    have hdata := fun nodes' hnodes' => @received_data { s with taken := s.taken + 1 } h.listed m nodes' hnodes'
    have hkept := htaken.sends hsends fun nodes' hnodes' => by
      obtain ⟨nodes, -, hids, -⟩ := hdata nodes' hnodes'
      exact hids
    refine ⟨hkept, ?_⟩
    rw [converged_iff h, converged_iff hkept, hsends.log, hsends.taken]
    intro hc nodes' hnodes'
    obtain ⟨nodes, hnodes, -, htable⟩ := hdata nodes' hnodes'
    rw [htable]
    exact (hc nodes hnodes).take hlog
  · exact ⟨h, id⟩

theorem inServerOrder_iff {e : Event} {answer : Answer} (h : s.landing e = some (made, answer)) :
    InServerOrder s e ↔ ∀ id word, answer.word id = some word →
      Overtaken s.log made s.taken id → ¬OnItsWay s.log s.taken id → word = s.server.node id := by
  unfold InServerOrder
  rw [h]
  constructor
  · exact fun hok => hok made answer rfl
  intro hok made' answer' heq
  cases Option.some_inj.mp heq
  exact hok

theorem inServerOrder_none {e : Event} (h : s.landing e = none) : InServerOrder s e := by
  intro made answer heq
  cases h.symm.trans heq

theorem Kept.converged_one (h : Kept base s) (hnodes : s.nodes.data = some nodes)
    (hc : Converged s) {k : NodeId} {w : Option NodeView}
    (hw : w = after base (s.log.take made) k) :
    Fresh base s.log s.taken (Function.update (table (·.id) nodes) k w) ↔
      ∀ id word, (if id = k then some w else none) = some word →
        Overtaken s.log made s.taken id → ¬OnItsWay s.log s.taken id → word = s.server.node id := by
  have hfresh := (converged_iff h).mp hc nodes hnodes
  subst hw
  rw [hfresh.update_iff, h.node]
  constructor
  · intro hok id word hword hover hnot
    split at hword
    next hid =>
      subst hid
      rw [← Option.some_inj.mp hword]
      exact hok hover hnot
    · cases hword
  · exact fun hok => hok k _ (if_pos rfl)

theorem settle_sends (s : State) (call : Call) (answer : Answer) : Sends s (s.settle call answer) := by
  unfold State.settle
  split
  · exact ⟨rfl, rfl, fun r hr => .inr ⟨r, hr, rfl⟩⟩
  · exact change_sends s _
  · exact change_sends s _
  · split <;> exact ⟨rfl, rfl, fun r hr => .inr ⟨r, hr, rfl⟩⟩

theorem Kept.settle (h : Kept base s) (call : Call) {answer : Answer}
    (htells : answer.Says (after base (s.log.take made))) :
    Kept base (s.settle call answer) ∧ (Converged s → (Converged (s.settle call answer) ↔
      ((∃ listed, answer = .nodes listed) ∨ s.nodes.data.isSome = true → ∀ id word, answer.word id = some word →
        Overtaken s.log made s.taken id → ¬OnItsWay s.log s.taken id → word = s.server.node id))) := by
  have hsends := settle_sends s call answer
  -- a change of the list that writes one node
  have hone : ∀ {k : NodeId} {w : Option NodeView} (f : List NodeView → List NodeView),
      (∀ nodes, s.nodes.data = some nodes → ((f nodes).map (·.id)).Nodup ∧
        table (·.id) (f nodes) = Function.update (table (·.id) nodes) k w) →
      w = after base (s.log.take made) k →
      Kept base (s.change f) ∧ (Converged s → (Converged (s.change f) ↔
        (s.nodes.data.isSome = true → ∀ id word, (if id = k then some w else none) = some word →
          Overtaken s.log made s.taken id → ¬OnItsWay s.log s.taken id → word = s.server.node id))) := by
    intro k w f hf hw
    have hchange := change_sends s f
    have hkept := h.sends hchange fun nodes' hnodes' => by
      rw [change_data] at hnodes'
      obtain ⟨nodes, hnodes, rfl⟩ := Option.map_eq_some_iff.mp hnodes'
      exact (hf nodes hnodes).1
    refine ⟨hkept, ?_⟩
    intro hc
    rw [converged_iff hkept, change_data, hchange.log, hchange.taken]
    cases hdata : s.nodes.data with
    | none => exact iff_of_true nofun nofun
    | some nodes =>
      have hwritten := h.converged_one hdata hc hw
      rw [← (hf nodes hdata).2] at hwritten
      rw [← hwritten]
      constructor
      · exact fun hfresh _ => hfresh (f nodes) rfl
      rintro hfresh nodes' hnodes'
      cases hnodes'
      exact hfresh rfl
  cases answer with
  | nodes listed =>
    have hkept := h.sends hsends fun nodes' hnodes' => by
      cases hnodes'
      exact htells.ids listed rfl
    refine ⟨hkept, ?_⟩
    intro _
    have htable : table (·.id) listed = after base (s.log.take made) := by
      funext id
      exact htells.word id _ rfl
    rw [converged_iff hkept, hsends.log, hsends.taken]
    have hsnapshot := @fresh_snapshot _ _ _ base s.log s.taken made
    rw [← htable] at hsnapshot
    constructor
    · intro hfresh _ id word hword hover hnot
      rw [← Option.some_inj.mp hword, h.node]
      exact hsnapshot.mp (hfresh listed rfl) id hover hnot
    intro hok nodes' hnodes'
    cases hnodes'
    refine hsnapshot.mpr ?_
    intro id hover hnot
    rw [← h.node]
    exact hok (.inl ⟨listed, rfl⟩) id _ rfl hover hnot
  | node view =>
    obtain ⟨hkept, hc⟩ := hone (upsert · view)
      (fun nodes hnodes => ⟨upsert_ids (h.listed nodes hnodes) view, table_upsert (h.listed nodes hnodes) view⟩)
      (htells.word view.id _ (if_pos rfl))
    refine ⟨hkept, fun hconverged => ?_⟩
    rw [show s.settle call (.node view) = s.change (upsert · view) from rfl, hc hconverged]
    exact ⟨fun hok hdata => hok (hdata.resolve_left nofun), fun hok hdata => hok (.inr hdata)⟩
  | removed nodeId =>
    obtain ⟨hkept, hc⟩ := hone (drop · nodeId)
      (fun nodes hnodes => ⟨drop_ids (h.listed nodes hnodes) nodeId, table_drop (h.listed nodes hnodes) nodeId⟩)
      (htells.word nodeId _ (if_pos rfl))
    refine ⟨hkept, fun hconverged => ?_⟩
    rw [show s.settle call (.removed nodeId) = s.change (drop · nodeId) from rfl, hc hconverged]
    exact ⟨fun hok hdata => hok (hdata.resolve_left nofun), fun hok hdata => hok (.inr hdata)⟩
  | failed message =>
    have hdata : (s.settle call (.failed message)).nodes.data = s.nodes.data := by
      cases call <;> rfl
    refine ⟨h.sends hsends (hdata ▸ h.listed), fun hconverged => ?_⟩
    exact iff_of_true (hconverged.same hsends hdata) nofun

theorem Kept.land (h : Kept base s) {i : Nat} {r : Request} (hr : s.requests[i]? = some r) :
    Kept base (s.land i r) ∧ (Converged s → (Converged (s.land i r) ↔ InServerOrder s (.land i))) := by
  have hlanding : s.landing (.land i) = match r.landed, r.answer with
      | false, some (made, .nodes nodes) => some (made, .nodes nodes)
      | false, some (made, answer) => if s.nodes.data.isSome then some (made, answer) else none
      | _, _ => none := by
    simp [State.landing, hr]
  unfold State.land
  split
  case h_2 hnot =>
    refine ⟨h, fun hc => iff_of_true hc (inServerOrder_none ?_)⟩
    rw [hlanding]
    split
    · exact absurd ‹_› (hnot _ _ ‹_›)
    · exact absurd ‹_› (hnot _ _ ‹_›)
    · rfl
  case h_1 made answer hlanded hanswer =>
    obtain ⟨hle, htells⟩ := h.answers r (mem_of_getElem? hr) made answer hanswer
    rw [hlanded, hanswer] at hlanding
    have hsends : Sends s { s with requests := s.requests.set i { r with landed := true } } := by
      refine ⟨rfl, rfl, ?_⟩
      intro r' hr'
      rcases mem_or_eq_of_mem_set hr' with hr' | rfl
      · exact .inr ⟨r', hr', rfl⟩
      · exact .inr ⟨r, mem_of_getElem? hr, rfl⟩
    obtain ⟨hkept, hc⟩ := (h.sends hsends h.listed).settle r.call htells
    refine ⟨hkept, fun hconverged => ?_⟩
    rw [hc (hconverged.same hsends rfl)]
    change (_ ∨ s.nodes.data.isSome = true → _) ↔ _
    by_cases hwrites : (∃ listed, answer = .nodes listed) ∨ s.nodes.data.isSome = true
    · have hlands : s.landing (.land i) = some (made, answer) := by
        rw [hlanding]
        cases answer with
        | nodes listed => rfl
        | _ => exact if_pos (hwrites.resolve_left nofun)
      rw [inServerOrder_iff hlands]
      exact ⟨fun hok => hok hwrites, fun hok _ => hok⟩
    · have hlands : s.landing (.land i) = none := by
        rw [hlanding]
        cases answer with
        | nodes listed => exact absurd (.inl ⟨listed, rfl⟩) hwrites
        | _ => exact if_neg fun hdata => hwrites (.inr hdata)
      exact iff_of_true (fun hdata => absurd hdata hwrites) (inServerOrder_none hlands)

/-! ### The theorem -/

theorem Kept.step (order : Order) (h : Kept base s) (e : Event) : Kept base (NodesStore.step order s e) ∧
      (Converged s → (Converged (NodesStore.step order s e) ↔ InServerOrder s e)) := by
  cases e with
  | put view =>
    have hnext : Server.Next s.server (s.server.put view) := .inr ⟨_, rfl⟩
    exact ⟨h.next hnext, fun hc => iff_of_true (h.converged_next hnext hc) (inServerOrder_none rfl)⟩
  | removed nodeId =>
    have hnext := removed_next s.server nodeId
    exact ⟨h.next hnext, fun hc => iff_of_true (h.converged_next hnext hc) (inServerOrder_none rfl)⟩
  | answer i =>
    change Kept base (s.onRequest i (s.answer order i)) ∧ (_ → (Converged (s.onRequest i (s.answer order i)) ↔ _))
    unfold State.onRequest
    cases hr : s.requests[i]? with
    | none => exact ⟨h, fun hc => iff_of_true hc (inServerOrder_none rfl)⟩
    | some r =>
      change Kept base (s.answer order i r) ∧ (_ → (Converged (s.answer order i r) ↔ _))
      unfold State.answer
      split
      · have hnext := answer_next order s.server r.call
        refine ⟨h.answered hnext (answer_tells h.ids order r.call), fun hc => ?_⟩
        exact iff_of_true (h.converged_next hnext hc) (inServerOrder_none rfl)
      · exact ⟨h, fun hc => iff_of_true hc (inServerOrder_none rfl)⟩
  | fail i message =>
    change Kept base (s.onRequest i (s.fail i message)) ∧ (_ → (Converged (s.onRequest i (s.fail i message)) ↔ _))
    unfold State.onRequest
    cases hr : s.requests[i]? with
    | none => exact ⟨h, fun hc => iff_of_true hc (inServerOrder_none rfl)⟩
    | some r =>
      change Kept base (s.fail i message r) ∧ (_ → (Converged (s.fail i message r) ↔ _))
      unfold State.fail
      split
      · refine ⟨h.answered (.inl rfl) (says_failed message _), fun hc => ?_⟩
        exact iff_of_true hc (inServerOrder_none rfl)
      · exact ⟨h, fun hc => iff_of_true hc (inServerOrder_none rfl)⟩
  | message => exact ⟨h.message.1, fun hc => iff_of_true (h.message.2 hc) (inServerOrder_none rfl)⟩
  | land i =>
    change Kept base (s.onRequest i (s.land i)) ∧ (_ → (Converged (s.onRequest i (s.land i)) ↔ _))
    unfold State.onRequest
    cases hr : s.requests[i]? with
    | none => exact ⟨h, fun hc => iff_of_true hc (inServerOrder_none (by simp [State.landing, hr]))⟩
    | some r => exact h.land hr
  | load =>
    have hsends := Sends.send s .list s.nodes.asLoading
    exact ⟨h.sends hsends h.listed, fun hc => iff_of_true (hc.same hsends rfl) (inServerOrder_none rfl)⟩
  | rename nodeId name =>
    have hsends := Sends.send s (.rename nodeId (trim name)) s.nodes
    exact ⟨h.sends hsends h.listed, fun hc => iff_of_true (hc.same hsends rfl) (inServerOrder_none rfl)⟩
  | remove nodeId =>
    have hsends := Sends.send s (.remove nodeId) s.nodes
    exact ⟨h.sends hsends h.listed, fun hc => iff_of_true (hc.same hsends rfl) (inServerOrder_none rfl)⟩

end

/-- **The list converges exactly where no answer takes back what a later message said.** -/
theorem nodes_converge (order : Order) (rows : List NodeRow) (hrows : (rows.map (·.view.id)).Nodup) (es : List Event) :
    (Always (step order) Converged (.init rows) es ↔ Along (step order) InServerOrder (.init rows) es) ∧
    (Along (step order) InServerOrder (.init rows) es →
      (exec (step order) (.init rows) es).taken = (exec (step order) (.init rows) es).server.broadcasts.length →
      ∀ nodes, (exec (step order) (.init rows) es).nodes.data = some nodes →
        nodes.Perm ((exec (step order) (.init rows) es).server.list order)) := by
  have hinit := kept_init rows hrows
  have hconverged : Converged (.init rows) := nofun
  constructor
  · exact always_iff_along_of (Kept (Server.node ⟨rows, []⟩)) Converged (fun s e h => (h.step order e).1)
      (fun s e h hc => (h.step order e).2 hc) hinit hconverged es
  intro hes htaken nodes hnodes
  obtain ⟨hkept, hc⟩ := hes.invariant (fun s => Kept (Server.node ⟨rows, []⟩) s ∧ Converged s)
    (fun s e hok h => ⟨(h.1.step order e).1, ((h.1.step order e).2 h.2).mpr hok⟩) ⟨hinit, hconverged⟩
  refine perm_of_table (hkept.listed nodes hnodes) (list_ids hkept.ids order) ?_
  rw [table_list hkept.ids]
  funext id
  apply hc nodes hnodes id
  -- every message has arrived
  rintro ⟨e, he, -⟩
  rw [htaken, State.log, drop_eq_nil_of_le (length_map _).le] at he
  cases he

def laptop : NodeView := ⟨[1], [2], true, true, none, none, none⟩

theorem nodes_converge_removed : (([⟨laptop, false⟩] : List NodeRow).map (·.view.id)).Nodup ∧
      Always (step byName) Converged (.init [⟨laptop, false⟩]) [.load, .answer 0, .removed [1], .land 0, .message] := by
  refine ⟨by decide, (nodes_converge byName [⟨laptop, false⟩] (by decide) _).1.mpr ?_⟩
  refine ⟨inServerOrder_none rfl, inServerOrder_none rfl, inServerOrder_none rfl, ?_, inServerOrder_none rfl, trivial⟩
  rintro made answer - id word - ⟨e, he, -⟩ -
  exact absurd (mem_of_mem_drop he) not_mem_nil

theorem removed_node_reappears :
    let s := exec (step byName) (.init [⟨laptop, false⟩]) [.load, .answer 0, .removed [1], .message, .land 0]
    s.taken = s.server.broadcasts.length ∧ (∀ r ∈ s.requests, r.landed = true) ∧
      s.nodes.data = some [laptop] ∧ s.server.list byName = [] := by
  refine ⟨rfl, ?_, rfl, rfl⟩
  intro r hr
  rw [mem_singleton.mp hr]

end Reins.NodesStore
