import Reins.Lib.Places
import Reins.Lib.Run

/-!
# Cached sessions and lists (`frontend/src/models/stores/{session-cache,project-store,projects-store}.ts`)

The server's sessions and tasks, each change announced some time after it on one ordered socket; and the
browser's cache and lists, written by what announcements say and by the answers to five kinds of requests,
each answered with the server's state at some moment and handled at any later one. A session stays in its
project and task.
-/

namespace Reins.SessionCache

open Places Run List

abbrev SessionId := Nat
abbrev ProjectId := Nat
abbrev TaskId := Nat

abbrev Value := Option String

inductive Field
  | name
  | createdAt
  | updatedAt
  | firstMessage
  | messageCount
  | activityState
  | placement
  | pinnedAt
  | archivedAt
  | sourceExtension
  | pendingOperation
  | runtimeType
  | state
  deriving DecidableEq

instance : Fintype Field :=
  Fintype.ofList [.name, .createdAt, .updatedAt, .firstMessage, .messageCount, .activityState, .placement, .pinnedAt,
    .archivedAt, .sourceExtension, .pendingOperation, .runtimeType, .state] fun f => by cases f <;> decide

/-- `SessionListView` has it. -/
def Field.listed : Field → Bool
  | .pendingOperation | .runtimeType | .state => false
  | _ => true

/-- `SessionDetailView` has it. -/
def Field.detailed : Field → Bool
  | .firstMessage => false
  | _ => true

def Field.required : Field → Bool
  | .createdAt | .updatedAt | .messageCount | .placement => true
  | _ => false

structure Fields where
  get : Field → Value
  get_isSome : ∀ f, f.required → (get f).isSome

structure Place where
  projectId : Option ProjectId
  taskId : Option TaskId
  parentSessionId : Option SessionId
  background : Bool
  deriving DecidableEq

structure Session where
  place : Place
  fields : Fields

def Session.get (x : Session) (f : Field) : Value := x.fields.get f

/-- A `TaskListItem`, the rest of it as JSON. -/
structure Task where
  id : TaskId
  view : String
  deriving DecidableEq

/-! ## The server (`backend/src/session-store.ts`, `models/sessions.ts`) -/

structure Server where
  ids : List SessionId
  nextId : SessionId
  session : SessionId → Session
  tasks : ProjectId → List Task
  fresh : ∀ x ∈ ids, x < nextId

abbrev Row := SessionId × Session

/-- SQLite's order of a list: pinned first, then the latest. -/
abbrev Order := Row → Row → Bool

def Session.listed (x : Session) : Bool := !x.place.background && x.get .archivedAt = none

def Session.isIn (x : Session) (p : ProjectId) (t : Option TaskId) : Bool :=
  x.place.projectId = some p && x.place.taskId = t && x.listed

def Server.rows (s : Server) (f : Session → Bool) : List Row :=
  (s.ids.filter fun x => f (s.session x)).map fun x => (x, s.session x)

def Server.list (order : Order) (s : Server) (p : ProjectId) (t : Option TaskId) : List Row :=
  (s.rows fun x => x.isIn p t).insertionSort fun a b => order a b

def Server.listUnowned (order : Order) (s : Server) : List Row :=
  (s.rows fun x => x.place.projectId = none && x.listed).insertionSort fun a b => order a b

def Server.activity (s : Server) : List Row := s.rows fun x => !x.place.background && (x.get .activityState).isSome

section

variable (s : Server)

def Server.change (x : SessionId) (fields : Fields) : Server :=
  { s with session := Function.update s.session x { s.session x with fields } }

def Server.create (place : Place) (fields : Fields) (tasks : List Task) : Server where
  ids := s.ids ++ [s.nextId]
  nextId := s.nextId + 1
  session := Function.update s.session s.nextId ⟨place, fields⟩
  tasks :=
    match place.projectId with
    | some p => if place.background then s.tasks else Function.update s.tasks p tasks
    | none => s.tasks
  fresh x hx := by
    obtain hx | hx := mem_append.mp hx
    · exact Nat.lt_succ_of_lt (s.fresh x hx)
    · simp [mem_singleton.mp hx]

def Server.changeTasks (p : ProjectId) (tasks : List Task) : Server :=
  { s with tasks := Function.update s.tasks p tasks }

def Session.ofTask (x : Session) (p : ProjectId) (t : TaskId) : Bool :=
  x.place.projectId = some p && x.place.taskId = some t

def Server.deleteTask (p : ProjectId) (t : TaskId) (tasks : List Task) : Server :=
  { s with
    ids := s.ids.filter fun x => !(s.session x).ofTask p t
    tasks := Function.update s.tasks p tasks
    fresh := fun x hx => s.fresh x (mem_filter.mp hx).1 }

end

inductive Message
  | taskUpdated (projectId : ProjectId)
  | sessionCreated (sessionId : SessionId) (place : Place)
  | sessionUpdated (sessionId : SessionId) (projectId : Option ProjectId)
  deriving DecidableEq

/-! ## The browser -/

/-- A `CachedSession`; a field that was never written reads as null. -/
structure Cached where
  projectId : Option ProjectId
  taskId : Option TaskId
  parentSessionId : Option SessionId
  background : Bool
  fields : Field → Option Value

def emptyCachedSession : Cached :=
  { projectId := none, taskId := none, parentSessionId := none, background := false, fields := fun _ => none }

def Cached.get (c : Cached) (f : Field) : Value := (c.fields f).getD none

def isSessionListItem (c : Cached) : Bool :=
  (c.get .createdAt).isSome && (c.get .updatedAt).isSome && (c.get .messageCount).isSome && (c.get .placement).isSome

def Cached.isTaskSession (c : Cached) (p : ProjectId) (t : TaskId) : Bool :=
  !c.background && c.projectId = some p && c.taskId = some t && c.get .archivedAt = none && isSessionListItem c

structure Store where
  tasks : List Task
  sessionIds : List SessionId
  loadedTaskSessionIds : List TaskId
  loaded : Bool

def Store.loadTask (store : Store) (t : TaskId) : Store :=
  { store with loadedTaskSessionIds := store.loadedTaskSessionIds.insert t }

inductive Request
  /-- `fetchLists`, whose two answers are handled together, with what is fetched after it. -/
  | lists (p : ProjectId) (tasks : Option (List Task)) (sessions : Option (List Row)) (next : Option TaskId)
  | taskSessions (p : ProjectId) (t : TaskId) (answer : Option (List Row))
  | unowned (answer : Option (List Row))
  | activity (answer : Option (List Row))
  | detail (x : SessionId) (answer : Option (Option Session))

structure State where
  server : Server
  /-- Announcements to come, and those on the socket. -/
  unannounced : List Message
  socket : List Message
  cache : SessionId → Option Cached
  stores : ProjectId → Option Store
  unownedSessionIds : List SessionId
  requests : List Request

def State.init (server : Server) : State :=
  { server, unannounced := [], socket := [], cache := fun _ => none, stores := fun _ => none
    unownedSessionIds := [], requests := [] }

inductive Event
  | change (x : SessionId) (fields : Fields)
  | create (place : Place) (fields : Fields) (tasks : List Task)
  | changeTasks (p : ProjectId) (tasks : List Task)
  | deleteTask (p : ProjectId) (t : TaskId) (tasks : List Task)
  | announce (i : Nat)
  | handle
  | load (p : ProjectId)
  | expand (p : ProjectId) (t : TaskId)
  | fetchUnowned
  | fetchActivitySnapshot
  | loadDetail (x : SessionId)
  /-- The server answers a request; `answerTasks` the tasks' part of `fetchLists`. -/
  | answer (i : Nat)
  | answerTasks (i : Nat)
  | land (i : Nat)

variable {x : SessionId} {p : ProjectId} {f : Field} {r : Request} {cache : SessionId → Option Cached}
  {t : Option TaskId} {m : Message} {server : Server} {v : Session} {patch : Session → Cached → Cached}
  {store : Store}

def set (cache : SessionId → Option Cached) (x : SessionId) (patch : Cached → Cached) : SessionId → Option Cached :=
  Function.update cache x (some (patch ((cache x).getD emptyCachedSession)))

def Session.listPatch (v : Session) (c : Cached) : Cached :=
  { c with
    projectId := v.place.projectId, taskId := v.place.taskId, parentSessionId := v.place.parentSessionId
    fields := fun f => if f.listed then some (v.get f) else c.fields f }

def Session.detailPatch (v : Session) (c : Cached) : Cached :=
  { projectId := v.place.projectId, taskId := v.place.taskId, parentSessionId := v.place.parentSessionId
    background := v.place.background
    fields := fun f => if f.detailed then some (v.get f) else c.fields f }

def Session.activityPatch (v : Session) (c : Cached) : Cached :=
  { c with
    projectId := v.place.projectId, taskId := v.place.taskId
    fields := Function.update c.fields .activityState (some (v.get .activityState)) }

def Place.createdPatch (place : Place) (c : Cached) : Cached :=
  { c with projectId := place.projectId, taskId := place.taskId, parentSessionId := place.parentSessionId }

def clearActivity (c : Cached) : Cached := { c with fields := Function.update c.fields .activityState (some none) }

def setMany (cache : SessionId → Option Cached) (rows : List Row) : SessionId → Option Cached :=
  rows.foldl (fun cache row => set cache row.1 row.2.listPatch) cache

/-- `fetchActivitySnapshot`, of its answer: what had activity and is not in it has none. -/
def setActivity (cache : SessionId → Option Cached) (rows : List Row) : SessionId → Option Cached := fun x =>
  let written := rows.foldl (fun cache row => set cache row.1 row.2.activityPatch) cache
  match cache x with
  | some c =>
    if !c.background && (c.get .activityState).isSome && rows.all fun row => row.1 ≠ x then
      set written x clearActivity x
    else written x
  | none => written x

section

variable (s : State)

def State.sessions (store : Store) : List SessionId :=
  store.sessionIds.filter fun x => (s.cache x).any fun c => isSessionListItem c && c.get .archivedAt = none

def State.isTaskSession (p : ProjectId) (t : TaskId) (x : SessionId) : Bool := (s.cache x).any (·.isTaskSession p t)

def State.request (r : Request) : State := { s with requests := s.requests ++ [r] }

def State.getStore (p : ProjectId) : State :=
  if (s.stores p).isSome then s else { s with stores := Function.update s.stores p (some ⟨[], [], [], false⟩) }

/-- `refresh`, and the task sublist that follows. -/
def State.refresh (p : ProjectId) (next : Option TaskId) : State :=
  if (s.stores p).isSome then s.request (.lists p none none next) else s

def Request.isDetail (x : SessionId) : Request → Bool
  | .detail y _ => y = x
  | _ => false

def State.loadDetail (x : SessionId) : State := if s.requests.any (·.isDetail x) then s else s.request (.detail x none)

def State.handled : Message → State
  | .taskUpdated p => s.refresh p none
  | .sessionCreated x place =>
    match place.projectId with
    | none => { s with cache := set s.cache x place.createdPatch }.request (.unowned none)
    | some p =>
      let s := if place.parentSessionId.isSome then s.getStore p else s
      { s with cache := set s.cache x place.createdPatch }.refresh p place.taskId
  | .sessionUpdated x projectId =>
    match projectId with
    | none => (s.loadDetail x).request (.unowned none)
    | some p => (s.loadDetail x).refresh p none

variable (order : Order)

def Server.answer (server : Server) : Request → Request
  | .lists p tasks none next => .lists p tasks (some (server.list order p none)) next
  | .taskSessions p t none => .taskSessions p t (some (server.list order p (some t)))
  | .unowned none => .unowned (some (server.listUnowned order))
  | .activity none => .activity (some server.activity)
  | .detail x none => .detail x (some (if x ∈ server.ids then some (server.session x) else none))
  | r => r

def Server.answerTasks (server : Server) : Request → Request
  | .lists p none sessions next => .lists p (some (server.tasks p)) sessions next
  | r => r

def State.setStore (p : ProjectId) (store : Store) : State :=
  { s with stores := Function.update s.stores p (some store) }

def State.landRequest : Request → State
  | .lists p (some tasks) (some rows) next =>
    match s.stores p with
    | some store =>
      { s.setStore p { store with tasks, sessionIds := rows.map (·.1), loaded := true } with
        cache := setMany s.cache rows
        requests := s.requests ++ (store.loadedTaskSessionIds ++ next.toList).map fun t => .taskSessions p t none }
    | none => s
  | .taskSessions p t (some rows) =>
    match s.stores p with
    | some store => { s.setStore p (store.loadTask t) with cache := setMany s.cache rows }
    | none => s
  | .unowned (some rows) => { s with cache := setMany s.cache rows, unownedSessionIds := rows.map (·.1) }
  | .activity (some rows) => { s with cache := setActivity s.cache rows }
  | .detail x (some (some v)) => { s with cache := set s.cache x v.detailPatch }
  | _ => s

def Request.answered : Request → Bool
  | .lists _ tasks sessions _ => tasks.isSome && sessions.isSome
  | .taskSessions _ _ answer => answer.isSome
  | .unowned answer => answer.isSome
  | .activity answer => answer.isSome
  | .detail _ answer => answer.isSome

def State.land (i : Nat) : State :=
  match s.requests[i]? with
  | some r => if r.answered then { s with requests := s.requests.eraseIdx i }.landRequest r else s
  | none => s

def State.unannounce (m : Message) : State := { s with unannounced := s.unannounced ++ [m] }

def State.onRequest (i : Nat) (f : Request → Request) : State := { s with requests := s.requests.modify i f }

end

def step (order : Order) (s : State) : Event → State
  | .change x fields =>
    if x ∈ s.server.ids then
      { s with server := s.server.change x fields }.unannounce (.sessionUpdated x (s.server.session x).place.projectId)
    else s
  | .create place fields tasks =>
    -- No one is told of one in the background.
    let created : State := { s with server := s.server.create place fields tasks }
    if place.background then created else created.unannounce (.sessionCreated s.server.nextId place)
  | .changeTasks p tasks => { s with server := s.server.changeTasks p tasks }.unannounce (.taskUpdated p)
  | .deleteTask p t tasks => { s with server := s.server.deleteTask p t tasks }.unannounce (.taskUpdated p)
  | .announce i =>
    match s.unannounced[i]? with
    | some m => { s with unannounced := s.unannounced.eraseIdx i, socket := s.socket ++ [m] }
    | none => s
  | .handle =>
    match s.socket with
    | m :: socket => { s with socket }.handled m
    | [] => s
  | .load p => (s.getStore p).refresh p none
  | .expand p t => if (s.stores p).isSome then s.request (.taskSessions p t none) else s
  | .fetchUnowned => s.request (.unowned none)
  | .fetchActivitySnapshot => s.request (.activity none)
  | .loadDetail x => s.loadDetail x
  | .answer i => s.onRequest i (s.server.answer order)
  | .answerTasks i => s.onRequest i s.server.answerTasks
  | .land i => s.land i

/-! ## What is still to come -/

section

variable (s : State)

def State.messages : List Message := s.unannounced ++ s.socket

def Message.projectId : Message → Option ProjectId
  | .taskUpdated p => some p
  | .sessionCreated _ place => place.projectId
  | .sessionUpdated _ p => p

def Message.next : Message → Option TaskId
  | .sessionCreated _ place => place.taskId
  | _ => none

def Message.updates (x : SessionId) : Message → Bool
  | .sessionUpdated y _ => y = x
  | _ => false

def Message.creates (x : SessionId) : Message → Bool
  | .sessionCreated y _ => y = x
  | _ => false

def State.Lists (x : SessionId) : Prop :=
  (s.server.session x).listed ∧ ∃ p ∈ (s.server.session x).place.projectId, ∃ store ∈ s.stores p,
    ((s.server.session x).place.taskId = none → store.loaded) ∧
      ∀ t ∈ (s.server.session x).place.taskId, t ∈ store.loadedTaskSessionIds

def State.Reaches (x : SessionId) (next : Option TaskId) : Prop :=
  (s.server.session x).listed ∧ ∃ p ∈ (s.server.session x).place.projectId, ∃ store ∈ s.stores p,
    ∀ t ∈ (s.server.session x).place.taskId, t ∈ store.loadedTaskSessionIds ∨ next = some t

def Message.Refreshes (x : SessionId) (m : Message) : Prop :=
  m.projectId = (s.server.session x).place.projectId ∧ s.Reaches x m.next

def Answered (x : SessionId) (f : Field) (rows : List Row) : Prop :=
  ∃ row ∈ rows, row.1 = x ∧ row.2.get f = (s.server.session x).get f

def Message.Brings (x : SessionId) (f : Field) (m : Message) : Prop :=
  f.detailed ∧ m.updates x ∨ f.listed ∧ m.Refreshes s x

def Request.Brings (x : SessionId) (f : Field) : Request → Prop
  | .lists p _ answer next =>
    f.listed ∧ (s.server.session x).place.projectId = some p ∧ s.Reaches x next ∧
      ((s.server.session x).place.taskId = none → ∀ rows ∈ answer, Answered s x f rows)
  | .taskSessions p t answer =>
    f.listed ∧ (s.server.session x).isIn p (some t) ∧ (s.stores p).isSome ∧ ∀ rows ∈ answer, Answered s x f rows
  | .unowned _ => False
  | .activity answer =>
    f = .activityState ∧ (s.cache x).isSome ∧ (s.server.session x).place.background = false ∧
      ∀ rows ∈ answer, Answered s x f rows ∨ (∀ row ∈ rows, row.1 ≠ x) ∧ (s.server.session x).get f = none
  | .detail y answer => y = x ∧ f.detailed ∧ ∀ found ∈ answer, ∃ v ∈ found, v.get f = (s.server.session x).get f

def State.Due (x : SessionId) (f : Field) : Prop :=
  (∃ m ∈ s.messages, m.Brings s x f) ∨ ∃ r ∈ s.requests, r.Brings s x f

def Request.BringsTasks (p : ProjectId) : Request → Prop
  | .lists q answer _ _ => q = p ∧ ∀ tasks ∈ answer, tasks = s.server.tasks p
  | _ => False

def State.TasksDue (p : ProjectId) : Prop :=
  (∃ m ∈ s.messages, m.projectId = some p) ∨ ∃ r ∈ s.requests, r.BringsTasks s p

def Server.sessionIds (order : Order) (server : Server) (p : ProjectId) (t : Option TaskId) : List SessionId :=
  (server.list order p t).map (·.1)

def Request.BringsIds (order : Order) (p : ProjectId) : Request → Prop
  | .lists q _ answer _ => q = p ∧ ∀ rows ∈ answer, rows.map (·.1) = s.server.sessionIds order p none
  | _ => False

def State.IdsDue (order : Order) (p : ProjectId) : Prop :=
  (∃ m ∈ s.messages, m.projectId = some p) ∨ ∃ r ∈ s.requests, r.BringsIds s order p

def State.Current (x : SessionId) (f : Field) : Prop := ∃ c ∈ s.cache x, c.get f = (s.server.session x).get f

def State.Needs (x : SessionId) (f : Field) : Prop :=
  (s.server.session x).place.projectId.isSome ∧
    (f.detailed ∧ (∃ c ∈ s.cache x, (c.fields f).isSome) ∨ f.listed ∧ s.Lists x)

/-! ## The condition -/

def State.Good (x : SessionId) (f : Field) (value : Value) : Prop := value = (s.server.session x).get f ∨ s.Due x f

/-- The rows of one list: nothing in them is behind, nor is one of the list missing, that nothing more brings. -/
def State.RowsOk (p : ProjectId) (t : Option TaskId) (rows : List Row) : Prop :=
  (∀ row ∈ rows, ∀ f, f.listed → f.detailed ∨ (s.server.session row.1).listed → s.Good row.1 f (row.2.get f)) ∧
    ∀ x ∈ s.server.ids, (s.server.session x).isIn p t → (∀ row ∈ rows, row.1 ≠ x) →
      ∀ f, f.listed → s.Current x f ∨ s.Due x f

/-- What it has but no longer stands, something more brings; `s` is without the request. -/
def LandOk (order : Order) : Request → Prop
  | .lists p (some tasks) (some rows) _ =>
    (s.stores p).isSome → (tasks = s.server.tasks p ∨ s.TasksDue p) ∧
      (rows.map (·.1) = s.server.sessionIds order p none ∨ s.IdsDue order p) ∧ s.RowsOk p none rows
  | .taskSessions p t (some rows) => ∀ store ∈ s.stores p, (s.setStore p (store.loadTask t)).RowsOk p (some t) rows
  | .activity (some rows) =>
    (∀ row ∈ rows, (s.server.session row.1).place.projectId.isSome →
        s.Good row.1 .activityState (row.2.get .activityState)) ∧
      ∀ x ∈ s.server.ids, ∀ c ∈ s.cache x, (s.server.session x).place.projectId.isSome → c.background = false →
        (c.get .activityState).isSome → (∀ row ∈ rows, row.1 ≠ x) → s.Good x .activityState none
  | .detail x (some (some v)) => (s.server.session x).place.projectId.isSome → ∀ f, f.detailed → s.Good x f (v.get f)
  | _ => True

def Request.rows : Request → List Row
  | .lists _ _ rows _ => rows.getD []
  | .taskSessions _ _ answer | .unowned answer | .activity answer => answer.getD []
  | .detail x (some (some v)) => [(x, v)]
  | .detail _ _ => []

/-- The browser has nothing of the session, and nothing of it is on the way. -/
def State.Unknown (x : SessionId) : Prop :=
  s.cache x = none ∧ (∀ r ∈ s.requests, ∀ row ∈ r.rows, row.1 ≠ x) ∧ ∀ m ∈ s.messages, m.creates x = false

def JoinOk : Message → Prop
  | .sessionUpdated x p =>
    x ∈ s.server.ids → (∃ r ∈ s.requests, r.isDetail x) → ∀ f, s.Needs x f →
      s.Current x f ∨ s.Due x f ∨ f.listed ∧ (Message.sessionUpdated x p).Refreshes s x
  | _ => True

end

/-- An answer brings nothing that stays behind, a detail in flight that an announcement joins is not behind, and
a task deleted had no session in the browser or on the way to it. -/
def Ok (order : Order) (s : State) : Event → Prop
  | .handle => ∀ m ∈ s.socket.head?, JoinOk { s with socket := s.socket.tail } m
  | .land i => ∀ r ∈ s.requests[i]?, LandOk { s with requests := s.requests.eraseIdx i } order r
  | .deleteTask p t _ => ∀ x ∈ s.server.ids, (s.server.session x).ofTask p t → s.Unknown x
  | _ => True

section

variable (s : State) (x : SessionId) (f : Field)

instance (next : Option TaskId) : Decidable (s.Reaches x next) := by unfold State.Reaches; infer_instance
instance : Decidable (s.Lists x) := by unfold State.Lists; infer_instance
instance (rows : List Row) : Decidable (Answered s x f rows) := by unfold Answered; infer_instance
instance (m : Message) : Decidable (m.Refreshes s x) := by unfold Message.Refreshes; infer_instance
instance (m : Message) : Decidable (m.Brings s x f) := by unfold Message.Brings; infer_instance
instance (r : Request) : Decidable (r.Brings s x f) := by cases r <;> unfold Request.Brings <;> infer_instance
instance : Decidable (s.Due x f) := by unfold State.Due; infer_instance
instance : Decidable (s.Current x f) := by unfold State.Current; infer_instance
instance : Decidable (s.Needs x f) := by unfold State.Needs; infer_instance
instance (value : Value) : Decidable (s.Good x f value) := by unfold State.Good; infer_instance
instance : Decidable (s.Unknown x) := by unfold State.Unknown; infer_instance
instance (m : Message) : Decidable (JoinOk s m) := by cases m <;> unfold JoinOk <;> infer_instance

variable (order : Order) (p : ProjectId)

instance (r : Request) : Decidable (r.BringsTasks s p) := by cases r <;> unfold Request.BringsTasks <;> infer_instance
instance (r : Request) : Decidable (r.BringsIds s order p) := by cases r <;> unfold Request.BringsIds <;> infer_instance
instance : Decidable (s.TasksDue p) := by unfold State.TasksDue; infer_instance
instance : Decidable (s.IdsDue order p) := by unfold State.IdsDue; infer_instance
instance (t : Option TaskId) (rows : List Row) : Decidable (s.RowsOk p t rows) := by unfold State.RowsOk; infer_instance

instance (r : Request) : Decidable (LandOk s order r) :=
  match r with
  | .lists p (some tasks) (some rows) _ => by unfold LandOk; infer_instance
  | .taskSessions p t (some rows) => by unfold LandOk; infer_instance
  | .activity (some rows) => by unfold LandOk; infer_instance
  | .detail x (some (some v)) => by unfold LandOk; infer_instance
  | .lists _ none _ _ | .lists _ (some _) none _ | .taskSessions _ _ none | .unowned _ | .activity none
  | .detail _ none | .detail _ (some none) => .isTrue trivial

instance (e : Event) : Decidable (Ok order s e) := by cases e <;> unfold Ok <;> infer_instance

end

/-! ## Writing the cache -/

def Holds (server : Server) (due : SessionId → Field → Prop) (cache : SessionId → Option Cached) (x : SessionId)
    (f : Field) : Prop :=
  (∃ c ∈ cache x, c.get f = (server.session x).get f) ∨ due x f

@[simp] theorem set_self (cache : SessionId → Option Cached) (x : SessionId) (patch : Cached → Cached) :
    set cache x patch x = some (patch ((cache x).getD emptyCachedSession)) := Function.update_self ..

theorem set_other (cache : SessionId → Option Cached) {y : SessionId} (patch : Cached → Cached) (h : y ≠ x) :
    set cache x patch y = cache y := Function.update_of_ne h ..

section

variable {patch : Session → Cached → Cached} {written : Field → Bool} {server : Server} {due : SessionId → Field → Prop}
  (hpatch : ∀ v c f, (patch v c).fields f = if written f then some (v.get f) else c.fields f)

include hpatch

theorem patch_get (v : Session) (c : Cached) (f : Field) :
    (patch v c).get f = if written f then v.get f else c.get f := by
  rw [Cached.get, hpatch, Cached.get]
  split <;> rfl

theorem Holds.set {row : Row} (h : Holds server due cache x f)
    (hrow : row.1 = x → written f → row.2.get f = (server.session x).get f ∨ due x f) :
    Holds server due (set cache row.1 (patch row.2)) x f := by
  by_cases hx : x = row.1
  · subst hx
    obtain ⟨c, hc, hget⟩ | h := h
    · by_cases hf : written f
      · refine (hrow rfl hf).imp_left fun heq => ⟨_, set_self .., ?_⟩
        rw [patch_get hpatch, if_pos hf, heq]
      refine .inl ⟨_, set_self .., ?_⟩
      rw [patch_get hpatch, if_neg hf, Option.mem_def.mp hc]
      exact hget
    · exact .inr h
  · refine h.imp_left fun ⟨c, hc, hget⟩ => ⟨c, ?_, hget⟩
    rwa [set_other _ _ hx]

theorem Holds.of_set {row : Row} (hf : written f) (hrow : row.2.get f = (server.session row.1).get f ∨ due row.1 f) :
    Holds server due (SessionCache.set cache row.1 (patch row.2)) row.1 f := by
  refine hrow.imp_left fun heq => ⟨_, set_self .., ?_⟩
  rw [patch_get hpatch, if_pos hf, heq]

theorem Holds.setRows {rows : List Row} (h : Holds server due cache x f ∨ written f ∧ ∃ row ∈ rows, row.1 = x)
    (hrows : ∀ row ∈ rows, row.1 = x → written f → row.2.get f = (server.session x).get f ∨ due x f) :
    Holds server due (rows.foldl (fun cache row => SessionCache.set cache row.1 (patch row.2)) cache) x f := by
  induction rows generalizing cache with
  | nil =>
    obtain h | ⟨-, row, hrow, -⟩ := h
    · exact h
    · exact absurd hrow not_mem_nil
  | cons row rows ih =>
    refine ih ?_ fun row' hrow' => hrows row' (mem_cons_of_mem row hrow')
    have hhead := hrows row mem_cons_self
    obtain h | ⟨hf, row', hrow', hx⟩ := h
    · exact .inl (h.set hpatch hhead)
    obtain rfl | hrow' := mem_cons.mp hrow'
    · subst hx
      exact .inl (Holds.of_set hpatch hf (hhead rfl hf))
    · exact .inr ⟨hf, row', hrow', hx⟩

theorem carried_setRows (rows : List Row)
    (h : ∃ c ∈ rows.foldl (fun cache row => SessionCache.set cache row.1 (patch row.2)) cache x, (c.fields f).isSome) :
    (∃ c ∈ cache x, (c.fields f).isSome) ∨ written f ∧ ∃ row ∈ rows, row.1 = x := by
  induction rows generalizing cache with
  | nil => exact .inl h
  | cons row rows ih =>
    obtain ⟨c, hc, hcarried⟩ | ⟨hf, row', hrow', hx⟩ := ih h
    · beta_reduce at hc
      by_cases hx : x = row.1
      · subst hx
        rw [set_self, Option.mem_some_iff] at hc
        subst hc
        rw [hpatch] at hcarried
        by_cases hf : written f
        · exact .inr ⟨hf, row, mem_cons_self, rfl⟩
        rw [if_neg hf] at hcarried
        cases hcache : cache row.1 with
        | none => simp [hcache, emptyCachedSession] at hcarried
        | some c => exact .inl ⟨c, rfl, by simpa [hcache] using hcarried⟩
      · rw [set_other _ _ hx] at hc
        exact .inl ⟨c, hc, hcarried⟩
    · exact .inr ⟨hf, row', mem_cons_of_mem row hrow', hx⟩

end

theorem listPatch_fields (v : Session) (c : Cached) (f : Field) :
    (v.listPatch c).fields f = if f.listed then some (v.get f) else c.fields f := rfl

theorem detailPatch_fields (v : Session) (c : Cached) (f : Field) :
    (v.detailPatch c).fields f = if f.detailed then some (v.get f) else c.fields f := rfl

def Field.active : Field → Bool
  | .activityState => true
  | _ => false

theorem activityPatch_fields (v : Session) (c : Cached) (f : Field) :
    (v.activityPatch c).fields f = if f.active then some (v.get f) else c.fields f := by
  cases f <;> rfl

structure CachedOk (server : Server) (x : SessionId) (c : Cached) : Prop where
  mem : x ∈ server.ids
  projectId : c.projectId = (server.session x).place.projectId
  taskId : c.taskId = (server.session x).place.taskId
  background : c.background = (server.session x).place.background
  whole : (c.fields .createdAt).isSome → c.parentSessionId = (server.session x).place.parentSessionId ∧
    ∀ f, f.listed → f.detailed → (c.fields f).isSome

structure RowOk (server : Server) (row : Row) : Prop where
  mem : row.1 ∈ server.ids
  place : row.2.place = (server.session row.1).place

def CacheOk (server : Server) (cache : SessionId → Option Cached) : Prop := ∀ x, ∀ c ∈ cache x, CachedOk server x c

section

variable {server : Server} {cache : SessionId → Option Cached} {x : SessionId} {c : Cached} {row : Row}

structure Patchable (server : Server) (x : SessionId) (c : Cached) : Prop where
  background : c.background = (server.session x).place.background
  whole : (c.fields .createdAt).isSome → c.parentSessionId = (server.session x).place.parentSessionId ∧
    ∀ f, f.listed → f.detailed → (c.fields f).isSome

theorem CacheOk.patchable (h : CacheOk server cache) (hb : (server.session x).place.background = false) :
    Patchable server x ((cache x).getD emptyCachedSession) := by
  cases hc : cache x with
  | none => exact ⟨hb.symm, fun h => absurd h (by simp [emptyCachedSession])⟩
  | some c => exact ⟨(h x c hc).background, (h x c hc).whole⟩

theorem CacheOk.set {patch : Cached → Cached} (h : CacheOk server cache)
    (hpatch : CachedOk server x (patch ((cache x).getD emptyCachedSession))) :
    CacheOk server (SessionCache.set cache x patch) := by
  intro y c hc
  by_cases hy : y = x
  · subst hy
    rw [set_self, Option.mem_some_iff] at hc
    exact hc ▸ hpatch
  · rw [set_other _ _ hy] at hc
    exact h y c hc

theorem Patchable.list (h : Patchable server row.1 c) (hrow : RowOk server row) :
    CachedOk server row.1 (row.2.listPatch c) := { hrow with
  projectId := congrArg Place.projectId hrow.place
  taskId := congrArg Place.taskId hrow.place
  background := h.background
  whole _ := ⟨congrArg Place.parentSessionId hrow.place, fun f hf _ => by simp [listPatch_fields, hf]⟩ }

theorem Patchable.activity (h : Patchable server row.1 c) (hrow : RowOk server row) :
    CachedOk server row.1 (row.2.activityPatch c) := { hrow with
  projectId := congrArg Place.projectId hrow.place
  taskId := congrArg Place.taskId hrow.place
  background := h.background
  whole hcreated := by
    obtain ⟨hparent, hall⟩ := h.whole hcreated
    refine ⟨hparent, fun f hf hf' => ?_⟩
    rw [activityPatch_fields]
    split
    · rfl
    · exact hall f hf hf' }

theorem RowOk.detail (hrow : RowOk server row) : CachedOk server row.1 (row.2.detailPatch c) := { hrow with
  projectId := congrArg Place.projectId hrow.place
  taskId := congrArg Place.taskId hrow.place
  background := congrArg Place.background hrow.place
  whole _ := ⟨congrArg Place.parentSessionId hrow.place, fun f _ hf => by simp [detailPatch_fields, hf]⟩ }

theorem Patchable.created (h : Patchable server x c) (hx : x ∈ server.ids) :
    CachedOk server x ((server.session x).place.createdPatch c) := { h with
  mem := hx
  projectId := rfl
  taskId := rfl
  whole hcreated := ⟨rfl, (h.whole hcreated).2⟩ }

theorem CachedOk.clearActivity (h : CachedOk server x c) : CachedOk server x (clearActivity c) := { h with
  whole hcreated := by
    obtain ⟨hparent, hall⟩ := h.whole (by simpa [SessionCache.clearActivity] using hcreated)
    refine ⟨hparent, fun f hf hf' => ?_⟩
    by_cases hact : f = .activityState
    · simp [SessionCache.clearActivity, hact]
    · simpa [SessionCache.clearActivity, hact] using hall f hf hf' }

theorem CacheOk.setRows {rows : List Row} (h : CacheOk server cache)
    (hrows : ∀ row ∈ rows, RowOk server row ∧ row.2.place.background = false)
    (hpatch : ∀ row c, Patchable server row.1 c → RowOk server row → CachedOk server row.1 (patch row.2 c)) :
    CacheOk server (rows.foldl (fun cache row => SessionCache.set cache row.1 (patch row.2)) cache) := by
  induction rows generalizing cache with
  | nil => exact h
  | cons row rows ih =>
    obtain ⟨hrow, hb⟩ := hrows row mem_cons_self
    refine ih (h.set (hpatch row _ (h.patchable ?_) hrow)) fun row' hrow' => hrows row' (mem_cons_of_mem row hrow')
    rw [← hrow.place, hb]

theorem setRows_other {rows : List Row} (h : ∀ row ∈ rows, row.1 ≠ x) :
    rows.foldl (fun cache row => SessionCache.set cache row.1 (patch row.2)) cache x = cache x := by
  induction rows generalizing cache with
  | nil => rfl
  | cons row rows ih =>
    rw [foldl_cons, ih fun row' hrow' => h row' (mem_cons_of_mem row hrow'),
      set_other _ _ (h row mem_cons_self).symm]

/-- An entry is cleared, or it is written as its rows say and has no activity if it has none. -/
theorem setActivity_cases (cache : SessionId → Option Cached) (rows : List Row) (x : SessionId) :
    (∃ c, cache x = some c ∧ c.background = false ∧ (c.get .activityState).isSome ∧ (∀ row ∈ rows, row.1 ≠ x) ∧
      setActivity cache rows x = some (clearActivity c)) ∨
    setActivity cache rows x = rows.foldl (fun cache row => SessionCache.set cache row.1 row.2.activityPatch) cache x ∧
      ∀ c ∈ cache x, c.background = false → (∀ row ∈ rows, row.1 ≠ x) → c.get .activityState = none := by
  simp only [setActivity]
  cases hc : cache x with
  | none => exact .inr ⟨rfl, nofun⟩
  | some c =>
    by_cases hclear : !c.background && (c.get .activityState).isSome && rows.all fun row => row.1 ≠ x
    · obtain ⟨⟨hb, hact⟩, hrows⟩ :
          (c.background = false ∧ (c.get .activityState).isSome) ∧ ∀ row ∈ rows, row.1 ≠ x := by
        simpa only [Bool.and_eq_true, Bool.not_eq_true', all_eq_true, decide_eq_true_eq] using hclear
      refine .inl ⟨c, rfl, hb, hact, hrows, ?_⟩
      simp only [hclear, if_true, set_self, setRows_other hrows, hc, Option.getD_some]
    · refine .inr ⟨by simp only [hclear, Bool.false_eq_true, if_false], fun c' hc' hb hrows => ?_⟩
      cases Option.mem_some_iff.mp hc'
      by_contra hact
      refine hclear ?_
      replace hact := Option.ne_none_iff_isSome.mp hact
      simpa only [Bool.and_eq_true, Bool.not_eq_true', all_eq_true, decide_eq_true_eq] using ⟨⟨hb, hact⟩, hrows⟩

theorem CacheOk.setActivity {rows : List Row} (h : CacheOk server cache)
    (hrows : ∀ row ∈ rows, RowOk server row ∧ row.2.place.background = false) :
    CacheOk server (SessionCache.setActivity cache rows) := by
  intro y c hc
  obtain ⟨c', hc', -, -, -, heq⟩ | ⟨heq, -⟩ := setActivity_cases cache rows y
  · rw [heq, Option.mem_some_iff] at hc
    exact hc ▸ (h y c' hc').clearActivity
  · rw [heq] at hc
    exact (h.setRows hrows fun row c => Patchable.activity) y c hc

end

/-! ## The invariant -/

structure Later (x : SessionId) (s s' : State) : Prop where
  session : s'.server.session x = s.server.session x
  stores : ∀ p, ∀ store ∈ s.stores p, ∃ store' ∈ s'.stores p, store.loadedTaskSessionIds ⊆ store'.loadedTaskSessionIds
  cache : (s.cache x).isSome → (s'.cache x).isSome

theorem Later.trans {s s' s'' : State} (h : Later x s s') (h' : Later x s' s'') : Later x s s'' where
  session := h'.session.trans h.session
  stores p store hstore := by
    obtain ⟨store', hstore', hsub⟩ := h.stores p store hstore
    obtain ⟨store'', hstore'', hsub'⟩ := h'.stores p store' hstore'
    exact ⟨store'', hstore'', fun _ ht => hsub' (hsub ht)⟩
  cache hx := h'.cache (h.cache hx)

section

variable {s s' : State} {x : SessionId} {f : Field}

theorem State.Reaches.later {next : Option TaskId} (h : s.Reaches x next) (hl : Later x s s') : s'.Reaches x next := by
  obtain ⟨hlisted, p, hp, store, hstore, htask⟩ := h
  obtain ⟨store', hstore', hsub⟩ := hl.stores p store hstore
  rw [State.Reaches, hl.session]
  exact ⟨hlisted, p, hp, store', hstore', fun t ht => (htask t ht).imp_left fun h => hsub h⟩

theorem State.Lists.reaches (h : s.Lists x) (next : Option TaskId) : s.Reaches x next := by
  obtain ⟨hlisted, p, hp, store, hstore, -, htask⟩ := h
  exact ⟨hlisted, p, hp, store, hstore, fun t ht => .inl (htask t ht)⟩

theorem Message.Brings.later (h : m.Brings s x f) (hl : Later x s s') : m.Brings s' x f := by
  refine h.imp_right fun ⟨hf, hp, hreach⟩ => ⟨hf, ?_, hreach.later hl⟩
  rwa [hl.session]

theorem Answered.later {rows : List Row} (h : Answered s x f rows) (hl : Later x s s') : Answered s' x f rows := by
  rw [Answered, hl.session]
  exact h

theorem Request.Brings.later (h : r.Brings s x f) (hl : Later x s s') : r.Brings s' x f := by
  cases r with
  | lists p tasks answer next =>
    obtain ⟨hf, hp, hreach, hrows⟩ := h
    simp only [Request.Brings, hl.session]
    exact ⟨hf, hp, hreach.later hl, fun ht rows hanswer => (hrows ht rows hanswer).later hl⟩
  | taskSessions p t answer =>
    obtain ⟨hf, hin, hstore, hrows⟩ := h
    obtain ⟨store, hstore⟩ := Option.isSome_iff_exists.mp hstore
    obtain ⟨store', hstore', -⟩ := hl.stores p store hstore
    simp only [Request.Brings, hl.session]
    exact ⟨hf, hin, Option.isSome_iff_exists.mpr ⟨store', hstore'⟩, fun rows hanswer => (hrows rows hanswer).later hl⟩
  | unowned => exact h
  | activity answer =>
    obtain ⟨hf, hcache, hb, hrows⟩ := h
    simp only [Request.Brings, hl.session]
    exact ⟨hf, hl.cache hcache, hb, fun rows hanswer => (hrows rows hanswer).imp_left fun h => h.later hl⟩
  | detail y answer =>
    simp only [Request.Brings, hl.session]
    exact h

end

/-- Where the sessions of its answer may be. -/
def Request.Fits (place : Place) : Request → Prop
  | .detail _ _ => True
  | .unowned _ => place.background = false ∧ place.projectId = none
  | _ => place.background = false

structure Wf (s : State) : Prop where
  created : ∀ x place, .sessionCreated x place ∈ s.messages →
    x ∈ s.server.ids ∧ place = (s.server.session x).place ∧ place.background = false
  rows : ∀ r ∈ s.requests, ∀ row ∈ r.rows, RowOk s.server row ∧ r.Fits row.2.place
  cache : CacheOk s.server s.cache

/-- What the browser has that is behind is due, or what was just taken brought it. -/
structure InvBut (order : Order) (s : State) (brought : SessionId → Field → Prop)
    (tasksBrought idsBrought : ProjectId → Prop) : Prop extends Wf s where
  fields : ∀ x ∈ s.server.ids, ∀ f, s.Needs x f → s.Current x f ∨ s.Due x f ∨ brought x f
  tasks : ∀ p, ∀ store ∈ s.stores p, store.loaded → store.tasks = s.server.tasks p ∨ s.TasksDue p ∨ tasksBrought p
  ids : ∀ p, ∀ store ∈ s.stores p, store.loaded →
    store.sessionIds = s.server.sessionIds order p none ∨ s.IdsDue order p ∨ idsBrought p

def Inv (order : Order) (s : State) : Prop := InvBut order s (fun _ _ => False) (fun _ => False) fun _ => False

structure Asks (s s' : State) : Prop where
  server : s'.server = s.server
  cache : s'.cache = s.cache
  messages : ∀ m, m ∈ s'.messages ↔ m ∈ s.messages
  requests : s.requests ⊆ s'.requests
  unanswered : ∀ r ∈ s'.requests, r ∈ s.requests ∨ r.rows = []
  stores : ∀ p, ∀ store ∈ s.stores p, store ∈ s'.stores p
  made : ∀ p, ∀ store ∈ s'.stores p, store ∈ s.stores p ∨ store = ⟨[], [], [], false⟩

section

variable {order : Order} {s s' s'' : State} {brought : SessionId → Field → Prop}
  {tasksBrought idsBrought : ProjectId → Prop}

theorem Asks.refl (s : State) : Asks s s :=
  ⟨rfl, rfl, fun _ => Iff.rfl, fun _ h => h, fun _ h => .inl h, fun _ _ h => h, fun _ _ h => .inl h⟩

theorem Asks.trans (h : Asks s s') (h' : Asks s' s'') : Asks s s'' where
  server := h'.server.trans h.server
  cache := h'.cache.trans h.cache
  messages m := (h'.messages m).trans (h.messages m)
  requests _ hr := h'.requests (h.requests hr)
  unanswered r hr := (h'.unanswered r hr).elim (h.unanswered r) .inr
  stores p store hstore := h'.stores p store (h.stores p store hstore)
  made p store hstore := (h'.made p store hstore).elim (h.made p store) .inr

theorem Asks.later (h : Asks s s') (x : SessionId) : Later x s s' where
  session := by rw [h.server]
  stores p store hstore := ⟨store, h.stores p store hstore, fun _ ht => ht⟩
  cache hx := by rwa [h.cache]

theorem asks_request (s : State) (hr : r.rows = []) : Asks s (s.request r) where
  server := rfl
  cache := rfl
  messages _ := Iff.rfl
  requests _ h := mem_append_left [r] h
  unanswered r' h := (mem_append.mp h).imp_right fun h => by rw [mem_singleton.mp h, hr]
  stores _ _ h := h
  made _ _ h := .inl h

theorem asks_getStore (s : State) (p : ProjectId) : Asks s (s.getStore p) := by
  rw [State.getStore]
  split
  · exact .refl s
  rename_i hp
  rw [Option.not_isSome_iff_eq_none] at hp
  refine ⟨rfl, rfl, fun _ => Iff.rfl, fun _ h => h, fun _ h => .inl h, fun q store h => ?_, fun q store h => ?_⟩
  · have hq : q ≠ p := by
      rintro rfl
      exact absurd (Option.mem_def.mp h) (by simp [hp])
    exact (Function.update_of_ne hq ..).trans h
  · dsimp only at h
    by_cases hq : q = p
    · subst hq
      rw [Function.update_self, Option.mem_some_iff] at h
      exact .inr h.symm
    · rw [Function.update_of_ne hq] at h
      exact .inl h

theorem asks_refresh (s : State) (p : ProjectId) (next : Option TaskId) : Asks s (s.refresh p next) := by
  rw [State.refresh]
  split
  · exact asks_request s rfl
  · exact .refl s

theorem refresh_mem (h : (s.stores p).isSome) (next : Option TaskId) :
    .lists p none none next ∈ (s.refresh p next).requests := by
  rw [State.refresh, if_pos h]
  exact mem_append_right _ mem_cons_self

theorem asks_loadDetail (s : State) (x : SessionId) : Asks s (s.loadDetail x) := by
  rw [State.loadDetail]
  split
  · exact .refl s
  · exact asks_request s rfl

theorem Asks.needs (h : Asks s s') (hneeds : s'.Needs x f) : s.Needs x f := by
  rw [State.Needs, h.server, h.cache] at hneeds
  refine ⟨hneeds.1, hneeds.2.imp_right fun ⟨hf, hlists⟩ => ⟨hf, ?_⟩⟩
  rw [State.Lists, h.server] at hlists
  obtain ⟨hlisted, p, hp, store, hstore, hloaded, htask⟩ := hlists
  obtain hstore | rfl := h.made p store hstore
  · exact ⟨hlisted, p, hp, store, hstore, hloaded, htask⟩
  -- A store that was just made has loaded nothing.
  cases ht : (s.server.session x).place.taskId with
  | none => cases hloaded ht
  | some t => exact absurd (htask t ht) not_mem_nil

theorem Asks.current (h : Asks s s') (hc : s.Current x f) : s'.Current x f := by
  rw [State.Current, h.server, h.cache]
  exact hc

theorem Asks.due (h : Asks s s') (hdue : s.Due x f) : s'.Due x f := by
  obtain ⟨m, hm, hbrings⟩ | ⟨r, hr, hbrings⟩ := hdue
  · exact .inl ⟨m, (h.messages m).mpr hm, hbrings.later (h.later x)⟩
  · exact .inr ⟨r, h.requests hr, hbrings.later (h.later x)⟩

theorem Request.BringsTasks.of_server (h : r.BringsTasks s p) (hs : s'.server = s.server) : r.BringsTasks s' p := by
  cases r with
  | lists => rwa [Request.BringsTasks, hs]
  | _ => exact h

theorem Request.BringsIds.of_server (h : r.BringsIds s order p)
    (hs : s'.server = s.server) : r.BringsIds s' order p := by
  cases r with
  | lists => rwa [Request.BringsIds, hs]
  | _ => exact h

theorem Asks.tasksDue (h : Asks s s') (hdue : s.TasksDue p) : s'.TasksDue p :=
  hdue.imp (fun ⟨m, hm, hp⟩ => ⟨m, (h.messages m).mpr hm, hp⟩)
    fun ⟨r, hr, hbrings⟩ => ⟨r, h.requests hr, hbrings.of_server h.server⟩

theorem Asks.idsDue (h : Asks s s') (hdue : s.IdsDue order p) : s'.IdsDue order p :=
  hdue.imp (fun ⟨m, hm, hp⟩ => ⟨m, (h.messages m).mpr hm, hp⟩)
    fun ⟨r, hr, hbrings⟩ => ⟨r, h.requests hr, hbrings.of_server h.server⟩

theorem Wf.asks (h : Wf s) (ha : Asks s s') : Wf s' where
  created x place hm := by
    rw [ha.server]
    exact h.created x place ((ha.messages _).mp hm)
  rows r hr row hrow := by
    rw [ha.server]
    obtain hr | hr := ha.unanswered r hr
    · exact h.rows r hr row hrow
    · exact absurd (hr ▸ hrow) not_mem_nil
  cache := by
    rw [ha.server, ha.cache]
    exact h.cache

theorem InvBut.asks (h : InvBut order s brought tasksBrought idsBrought) (ha : Asks s s')
    (hfields : ∀ x ∈ s.server.ids, ∀ f, s.Needs x f → brought x f → s'.Current x f ∨ s'.Due x f)
    (htasks : ∀ p, (s.stores p).isSome → tasksBrought p → s'.TasksDue p)
    (hids : ∀ p, (s.stores p).isSome → idsBrought p → s'.IdsDue order p) : Inv order s' where
  toWf := h.toWf.asks ha
  fields x hx f hneeds := by
    rw [ha.server] at hx
    have hneeds := ha.needs hneeds
    obtain hc | hdue | hb := h.fields x hx f hneeds
    · exact .inl (ha.current hc)
    · exact .inr (.inl (ha.due hdue))
    · exact (hfields x hx f hneeds hb).imp_right .inl
  tasks p store hstore hloaded := by
    obtain hstore | rfl := ha.made p store hstore
    · rw [ha.server]
      obtain heq | hdue | hb := h.tasks p store hstore hloaded
      · exact .inl heq
      · exact .inr (.inl (ha.tasksDue hdue))
      · exact .inr (.inl (htasks p (Option.isSome_iff_exists.mpr ⟨store, hstore⟩) hb))
    · cases hloaded
  ids p store hstore hloaded := by
    obtain hstore | rfl := ha.made p store hstore
    · rw [ha.server]
      obtain heq | hdue | hb := h.ids p store hstore hloaded
      · exact .inl heq
      · exact .inr (.inl (ha.idsDue hdue))
      · exact .inr (.inl (hids p (Option.isSome_iff_exists.mpr ⟨store, hstore⟩) hb))
    · cases hloaded

theorem Inv.asks (h : Inv order s) (ha : Asks s s') : Inv order s' :=
  InvBut.asks h ha (fun _ _ _ _ => False.elim) (fun _ _ => False.elim) fun _ _ => False.elim

end

/-! ## Announcements -/

section

variable {order : Order} {s : State} {brought : SessionId → Field → Prop} {tasksBrought idsBrought : ProjectId → Prop}

/-- What was due by a message that is taken is brought by it now. -/
theorem due_losing {ms ms' : List Message} {P : Message → Prop} {A R : Prop} (hmem : ∀ m', m' ∈ ms ↔ m' = m ∨ m' ∈ ms')
    (h : A ∨ ((∃ m ∈ ms, P m) ∨ R) ∨ False) : A ∨ ((∃ m ∈ ms', P m) ∨ R) ∨ P m := by
  obtain ha | (⟨m', hm', hp⟩ | hr) | hb := h
  · exact .inl ha
  · obtain rfl | hm' := (hmem m').mp hm'
    · exact .inr (.inr hp)
    · exact .inr (.inl (.inl ⟨m', hm', hp⟩))
  · exact .inr (.inl (.inr hr))
  · exact hb.elim

theorem Inv.losing {socket : List Message} (h : Inv order s) (hsocket : s.socket = m :: socket) :
    InvBut order { s with socket } (fun x f => m.Brings { s with socket } x f) (fun p => m.projectId = some p)
      fun p => m.projectId = some p := by
  have hmem : ∀ m', m' ∈ s.messages ↔ m' = m ∨ m' ∈ { s with socket }.messages := fun m' => by
    simp only [State.messages, hsocket, mem_append, mem_cons]
    exact or_left_comm
  refine
    { created := fun x place hx => h.created x place ((hmem _).mpr (.inr hx)), rows := h.rows, cache := h.cache
      fields := fun x hx f hneeds => ?_, tasks := fun p store hstore hloaded => ?_
      ids := fun p store hstore hloaded => ?_ }
  · exact due_losing hmem (h.fields x hx f hneeds)
  · exact due_losing hmem (h.tasks p store hstore hloaded)
  · exact due_losing hmem (h.ids p store hstore hloaded)

theorem createdPatch_get (place : Place) (c : Cached) (f : Field) : (place.createdPatch c).get f = c.get f := rfl

theorem later_set (s : State) (x : SessionId) (patch : Cached → Cached) (y : SessionId) :
    Later y s { s with cache := set s.cache x patch } := by
  refine ⟨rfl, fun p store hstore => ⟨store, hstore, fun _ ht => ht⟩, fun hcached => ?_⟩
  dsimp only
  by_cases hxy : y = x
  · simp [hxy]
  · rwa [set_other _ _ hxy]

theorem InvBut.place (h : InvBut order s brought tasksBrought idsBrought) (hx : x ∈ s.server.ids)
    (hb : (s.server.session x).place.background = false) :
    InvBut order { s with cache := set s.cache x (s.server.session x).place.createdPatch } brought tasksBrought
      idsBrought := { h with
  cache := h.cache.set ((h.cache.patchable hb).created hx)
  fields y hy f hneeds := by
    have hlater := later_set s x (s.server.session x).place.createdPatch y
    have hneeds : s.Needs y f := by
      refine ⟨hneeds.1, hneeds.2.imp_left fun ⟨hf, c, hc, hcarried⟩ => ⟨hf, ?_⟩⟩
      dsimp only at hc
      by_cases hxy : y = x
      · subst hxy
        rw [set_self, Option.mem_some_iff] at hc
        subst hc
        cases hcache : s.cache y with
        | none => simp [hcache, Place.createdPatch, emptyCachedSession] at hcarried
        | some c => exact ⟨c, rfl, by simpa [hcache, Place.createdPatch] using hcarried⟩
      · exact ⟨c, by rwa [set_other _ _ hxy] at hc, hcarried⟩
    obtain ⟨c, hc, hget⟩ | hdue | hb := h.fields y hy f hneeds
    · refine .inl ?_
      by_cases hxy : y = x
      · subst hxy
        refine ⟨_, set_self .., ?_⟩
        rw [createdPatch_get, Option.mem_def.mp hc]
        exact hget
      · exact ⟨c, (set_other _ _ hxy).trans hc, hget⟩
    · exact .inr (.inl (hdue.imp (fun ⟨m, hm, hbrings⟩ => ⟨m, hm, hbrings.later hlater⟩)
        fun ⟨r, hr, hbrings⟩ => ⟨r, hr, hbrings.later hlater⟩))
    · exact .inr (.inr hb) }

theorem refreshed_due {s s' : State} (hp : m.projectId = some p)
    (hlists : (s.stores p).isSome → .lists p none none m.next ∈ s'.requests) (hl : Later x s s') (hf : f.listed)
    (h : m.Refreshes s x) : s'.Due x f := by
  obtain ⟨hproject, hreach⟩ := h
  have hin : (s.server.session x).place.projectId = some p := hproject.symm.trans hp
  obtain ⟨-, p', hp', store, hstore, -⟩ := id hreach
  cases hin.symm.trans hp'
  refine .inr ⟨_, hlists (Option.isSome_iff_exists.mpr ⟨store, hstore⟩), hf, ?_, hreach.later hl, ?_⟩
  · rw [hl.session, hin]
  · exact nofun

/-- A detail that is asked for brings what the update announced, unless it was in flight. -/
theorem loadDetail_due (hf : f.detailed) : (∃ r ∈ s.requests, r.isDetail x) ∨ (s.loadDetail x).Due x f := by
  by_cases h : s.requests.any (·.isDetail x)
  · obtain ⟨r, hr, hdetail⟩ := any_eq_true.mp h
    exact .inl ⟨r, hr, hdetail⟩
  refine .inr (.inr ⟨.detail x none, ?_, rfl, hf, nofun⟩)
  rw [State.loadDetail, if_neg h]
  exact mem_append_right _ mem_cons_self

theorem Inv.handled (hwf : ∀ x place, m = .sessionCreated x place →
      x ∈ s.server.ids ∧ place = (s.server.session x).place ∧ place.background = false)
    (h : InvBut order s (fun x f => m.Brings s x f) (fun p => m.projectId = some p) fun p => m.projectId = some p)
    (hok : JoinOk s m) : Inv order (s.handled m) := by
  cases m with
  | taskUpdated p =>
    have ha := asks_refresh s p none
    have hmem : (s.stores p).isSome → .lists p none none none ∈ (s.refresh p none).requests :=
      fun hp => refresh_mem hp none
    refine h.asks ha (fun x _ f _ hbrings => .inr ?_) (fun q hq hpq => ?_) fun q hq hpq => ?_
    · obtain ⟨-, hupdates⟩ | ⟨hf, hrefreshes⟩ := hbrings
      · cases hupdates
      · exact refreshed_due rfl hmem (ha.later x) hf hrefreshes
    · cases hpq
      exact .inr ⟨_, hmem hq, rfl, nofun⟩
    · cases hpq
      exact .inr ⟨_, hmem hq, rfl, nofun⟩
  | sessionCreated x place =>
    obtain ⟨hx, rfl, hb⟩ := hwf x place rfl
    cases hproject : (s.server.session x).place.projectId with
    | none =>
      have ha := asks_request { s with cache := set s.cache x (s.server.session x).place.createdPatch }
        (r := .unowned none) rfl
      have := (h.place hx hb).asks ha (fun y _ f _ hbrings => ?_) (fun q _ hq => ?_) fun q _ hq => ?_
      · simpa [State.handled, hproject] using this
      · obtain ⟨-, hupdates⟩ | ⟨-, hp, -, p, hp', -⟩ := hbrings
        · cases hupdates
        · exact absurd (hproject.symm.trans (hp.trans hp')) (Option.some_ne_none p).symm
      · exact absurd (hproject.symm.trans hq) (Option.some_ne_none q).symm
      · exact absurd (hproject.symm.trans hq) (Option.some_ne_none q).symm
    | some p =>
      let placed : State := { s with cache := set s.cache x (s.server.session x).place.createdPatch }
      let made : State := if (s.server.session x).place.parentSessionId.isSome then placed.getStore p else placed
      have hmade : Asks placed made := by
        show Asks placed (ite _ _ _)
        split
        · exact asks_getStore placed p
        · exact .refl placed
      have heq : s.handled (.sessionCreated x (s.server.session x).place) =
          made.refresh p (s.server.session x).place.taskId := by
        simp only [State.handled, hproject, made, placed]
        split
        · simp only [State.getStore]
          split <;> rfl
        · rfl
      have ha := hmade.trans (asks_refresh made p (s.server.session x).place.taskId)
      have hmem : (s.stores p).isSome → .lists p none none (s.server.session x).place.taskId ∈
            (made.refresh p (s.server.session x).place.taskId).requests := by
        intro hp
        obtain ⟨store, hstore⟩ := Option.isSome_iff_exists.mp hp
        exact refresh_mem (Option.isSome_iff_exists.mpr ⟨store, hmade.stores p store hstore⟩) _
      rw [heq]
      refine (h.place hx hb).asks ha (fun y _ f _ hbrings => .inr ?_) (fun q hq hpq => ?_) fun q hq hpq => ?_
      · obtain ⟨-, hupdates⟩ | ⟨hf, hrefreshes⟩ := hbrings
        · cases hupdates
        · have hlater := (later_set s x (s.server.session x).place.createdPatch y).trans (ha.later y)
          exact refreshed_due (m := .sessionCreated x _) hproject hmem hlater hf hrefreshes
      · cases hproject.symm.trans hpq
        exact .inr ⟨_, hmem hq, rfl, nofun⟩
      · cases hproject.symm.trans hpq
        exact .inr ⟨_, hmem hq, rfl, nofun⟩
  | sessionUpdated x project =>
    cases project with
    | none =>
      have ha := (asks_loadDetail s x).trans (asks_request (s.loadDetail x) (r := .unowned none) rfl)
      refine h.asks ha (fun y hy f hneeds hbrings => ?_) (fun q _ hq => (nomatch hq)) nofun
      obtain ⟨hf, hupdates⟩ | ⟨-, hp, -, p, hp', -⟩ := hbrings
      · obtain rfl : x = y := by simpa [Message.updates] using hupdates
        obtain hjoined | hdue := loadDetail_due (s := s) (x := x) hf
        · obtain hc | hdue | ⟨-, hp, -, p, hp', -⟩ := hok hy hjoined f hneeds
          · exact .inl (ha.current hc)
          · exact .inr (ha.due hdue)
          · exact absurd (hp.trans hp') (Option.some_ne_none p).symm
        · exact .inr ((asks_request _ rfl).due hdue)
      · exact absurd (hp.trans hp') (Option.some_ne_none p).symm
    | some p =>
      have ha := (asks_loadDetail s x).trans (asks_refresh (s.loadDetail x) p none)
      have hmem : (s.stores p).isSome → .lists p none none none ∈ ((s.loadDetail x).refresh p none).requests := by
        intro hp
        obtain ⟨store, hstore⟩ := Option.isSome_iff_exists.mp hp
        exact refresh_mem (Option.isSome_iff_exists.mpr ⟨store, (asks_loadDetail s x).stores p store hstore⟩) none
      refine h.asks ha (fun y hy f hneeds hbrings => ?_) (fun q hq hpq => ?_) fun q hq hpq => ?_
      · obtain ⟨hf, hupdates⟩ | ⟨hf, hrefreshes⟩ := hbrings
        · obtain rfl : x = y := by simpa [Message.updates] using hupdates
          obtain hjoined | hdue := loadDetail_due (s := s) (x := x) hf
          · obtain hc | hdue | ⟨hf, hrefreshes⟩ := hok hy hjoined f hneeds
            · exact .inl (ha.current hc)
            · exact .inr (ha.due hdue)
            · exact .inr (refreshed_due rfl hmem (ha.later x) hf hrefreshes)
          · exact .inr ((asks_refresh _ p none).due hdue)
        · exact .inr (refreshed_due rfl hmem (ha.later y) hf hrefreshes)
      · cases hpq
        exact .inr ⟨_, hmem hq, rfl, nofun⟩
      · cases hpq
        exact .inr ⟨_, hmem hq, rfl, nofun⟩

end

/-! ## Answers -/

section

variable {order : Order} {s : State}

theorem mem_list {row : Row} : row ∈ server.list order p t ↔
      row.1 ∈ server.ids ∧ (server.session row.1).isIn p t ∧ row.2 = server.session row.1 := by
  simp only [Server.list, Server.rows, mem_insertionSort, mem_map, mem_filter]
  refine ⟨fun ⟨x, ⟨hx, hin⟩, heq⟩ => heq ▸ ⟨hx, hin, rfl⟩, fun ⟨hx, hin, heq⟩ => ⟨row.1, ⟨hx, hin⟩, ?_⟩⟩
  rw [← heq]

theorem mem_listUnowned {row : Row} (h : row ∈ server.listUnowned order) :
    row.1 ∈ server.ids ∧ (server.session row.1).place.background = false ∧
      (server.session row.1).place.projectId = none ∧ row.2 = server.session row.1 := by
  simp only [Server.listUnowned, Server.rows, mem_insertionSort, mem_map, mem_filter, Session.listed,
    Bool.and_eq_true, Bool.not_eq_true', decide_eq_true_eq] at h
  obtain ⟨x, ⟨hx, hp, hb, -⟩, rfl⟩ := h
  exact ⟨hx, hb, hp, rfl⟩

theorem mem_activity {row : Row} :
    row ∈ server.activity ↔ row.1 ∈ server.ids ∧ (server.session row.1).place.background = false ∧
      ((server.session row.1).get .activityState).isSome ∧ row.2 = server.session row.1 := by
  simp only [Server.activity, Server.rows, mem_map, mem_filter, Bool.and_eq_true, Bool.not_eq_true']
  refine ⟨fun ⟨x, ⟨hx, hb, hact⟩, heq⟩ => heq ▸ ⟨hx, hb, hact, rfl⟩,
    fun ⟨hx, hb, hact, heq⟩ => ⟨row.1, ⟨hx, hb, hact⟩, ?_⟩⟩
  rw [← heq]

theorem Session.isIn_background (h : v.isIn p t) : v.place.background = false := by
  simp only [Session.isIn, Session.listed, Bool.and_eq_true, Bool.not_eq_true'] at h
  exact h.2.1

theorem Session.isIn_iff : v.isIn p t ↔ v.place.projectId = some p ∧ v.place.taskId = t ∧ v.listed := by
  simp [Session.isIn, and_assoc]

theorem Request.Brings.answer (hx : x ∈ s.server.ids) (h : r.Brings s x f) :
    (s.server.answer order r).Brings s x f := by
  cases r with
  | lists p tasks answer next =>
    cases answer with
    | none =>
      obtain ⟨hf, hp, hreach, -⟩ := h
      refine ⟨hf, hp, hreach, fun ht rows hrows => ?_⟩
      rw [← Option.some.inj hrows]
      exact ⟨(x, s.server.session x), mem_list.mpr ⟨hx, Session.isIn_iff.mpr ⟨hp, ht, hreach.1⟩, rfl⟩, rfl, rfl⟩
    | some => exact h
  | taskSessions p t answer =>
    cases answer with
    | none =>
      obtain ⟨hf, hin, hstore, -⟩ := h
      refine ⟨hf, hin, hstore, fun rows hrows => ?_⟩
      rw [← Option.some.inj hrows]
      exact ⟨(x, s.server.session x), mem_list.mpr ⟨hx, hin, rfl⟩, rfl, rfl⟩
    | some => exact h
  | unowned => exact h.elim
  | activity answer =>
    cases answer with
    | none =>
      obtain ⟨rfl, hcache, hb, -⟩ := h
      refine ⟨rfl, hcache, hb, fun rows hrows => ?_⟩
      rw [← Option.some.inj hrows]
      cases hact : (s.server.session x).get .activityState with
      | none =>
        refine .inr ⟨fun row hrow hrx => ?_, rfl⟩
        obtain ⟨-, -, hsome, -⟩ := mem_activity.mp hrow
        rw [hrx, hact] at hsome
        exact Bool.false_ne_true hsome
      | some a =>
        refine .inl ⟨(x, s.server.session x), mem_activity.mpr ⟨hx, hb, ?_, rfl⟩, rfl, rfl⟩
        rw [hact]
        rfl
    | some => exact h
  | detail y answer =>
    cases answer with
    | none =>
      obtain ⟨rfl, hf, -⟩ := h
      refine ⟨rfl, hf, fun found hfound => ?_⟩
      rw [← Option.some.inj hfound, if_pos hx]
      exact ⟨_, rfl, rfl⟩
    | some => exact h

theorem Request.Brings.answerTasks (h : r.Brings s x f) : (s.server.answerTasks r).Brings s x f := by
  cases r with
  | lists p tasks answer next => cases tasks <;> exact h
  | _ => exact h

theorem rows_answer {row : Row} (h : row ∈ (server.answer order r).rows) :
    row ∈ r.rows ∨ RowOk server row ∧ r.Fits row.2.place := by
  cases r with
  | lists p tasks answer next =>
    cases answer with
    | none =>
      obtain ⟨hx, hin, heq⟩ := mem_list.mp (show row ∈ server.list order p none from h)
      rw [heq]
      exact .inr ⟨⟨hx, congrArg Session.place heq⟩, Session.isIn_background hin⟩
    | some => exact .inl h
  | taskSessions p t answer =>
    cases answer with
    | none =>
      obtain ⟨hx, hin, heq⟩ := mem_list.mp (show row ∈ server.list order p (some t) from h)
      rw [heq]
      exact .inr ⟨⟨hx, congrArg Session.place heq⟩, Session.isIn_background hin⟩
    | some => exact .inl h
  | unowned answer =>
    cases answer with
    | none =>
      obtain ⟨hx, hb, hp, heq⟩ := mem_listUnowned (show row ∈ server.listUnowned order from h)
      rw [heq]
      exact .inr ⟨⟨hx, congrArg Session.place heq⟩, hb, hp⟩
    | some => exact .inl h
  | activity answer =>
    cases answer with
    | none =>
      obtain ⟨hx, hb, -, heq⟩ := mem_activity.mp (show row ∈ server.activity from h)
      rw [heq]
      exact .inr ⟨⟨hx, congrArg Session.place heq⟩, hb⟩
    | some => exact .inl h
  | detail x answer =>
    cases answer with
    | none =>
      refine .inr ⟨?_, trivial⟩
      by_cases hx : x ∈ server.ids
      · have hrow : row ∈ [(x, server.session x)] := by simpa only [Server.answer, if_pos hx, Request.rows] using h
        rw [mem_singleton.mp hrow]
        exact ⟨hx, rfl⟩
      · have hrow : row ∈ ([] : List Row) := by simpa only [Server.answer, if_neg hx, Request.rows] using h
        exact absurd hrow not_mem_nil
    | some => exact .inl h

theorem fits_answer (server : Server) (place : Place) (r : Request) :
    (server.answer order r).Fits place = r.Fits place := by
  cases r with
  | lists p tasks answer next => cases answer <;> rfl
  | taskSessions p t answer => cases answer <;> rfl
  | unowned answer => cases answer <;> rfl
  | activity answer => cases answer <;> rfl
  | detail x answer => cases answer <;> rfl

/-- What a request brings it brings when it got further. -/
theorem due_onRequest {rs : List Request} (i : Nat) {answer : Request → Request} {P : Request → Prop} {A M C : Prop}
    (hanswer : ∀ r, P r → P (answer r)) (h : A ∨ (M ∨ ∃ r ∈ rs, P r) ∨ C) :
    A ∨ (M ∨ ∃ r ∈ rs.modify i answer, P r) ∨ C := by
  refine h.imp_right (Or.imp_left (Or.imp_right fun ⟨r, hr, hp⟩ => ?_))
  obtain hr | hr := mem_modify_or hr i answer
  · exact ⟨r, hr, hp⟩
  · exact ⟨_, hr, hanswer r hp⟩

theorem Inv.onRequest (h : Inv order s) (i : Nat) {answer : Request → Request}
    (hfields : ∀ x ∈ s.server.ids, ∀ f r, Request.Brings s x f r → (answer r).Brings s x f)
    (htasks : ∀ p r, Request.BringsTasks s p r → (answer r).BringsTasks s p)
    (hids : ∀ p r, Request.BringsIds s order p r → (answer r).BringsIds s order p)
    (hfits : ∀ place r, (answer r).Fits place = r.Fits place)
    (hrows : ∀ r, ∀ row ∈ (answer r).rows, row ∈ r.rows ∨ RowOk s.server row ∧ r.Fits row.2.place) :
    Inv order (s.onRequest i answer) := { h with
  rows r hr row hrow := by
    obtain hmem | ⟨r, hmem, rfl⟩ := mem_modify_cases hr
    · exact h.rows r hmem row hrow
    · rw [hfits]
      exact (hrows r row hrow).elim (h.rows r hmem row) id
  fields x hx f hneeds := by
    exact due_onRequest i (hfields x hx f) (h.fields x hx f hneeds)
  tasks p store hstore hloaded := due_onRequest i (htasks p) (h.tasks p store hstore hloaded)
  ids p store hstore hloaded := due_onRequest i (hids p) (h.ids p store hstore hloaded) }

theorem Inv.answer (h : Inv order s) (i : Nat) : Inv order (s.onRequest i (s.server.answer order)) := by
  refine h.onRequest i (fun x hx f r hbrings => hbrings.answer hx) (fun p r hbrings => ?_) (fun p r hbrings => ?_)
    (fits_answer s.server) fun r row hrow => rows_answer hrow
  · cases r with
    | lists q tasks answer next => cases answer <;> exact hbrings
    | _ => exact hbrings.elim
  cases r with
  | lists q tasks answer next =>
    cases answer with
    | none => exact ⟨hbrings.1, fun rows hrows => by rw [← Option.some.inj hrows, hbrings.1]; rfl⟩
    | some => exact hbrings
  | _ => exact hbrings.elim

theorem Inv.answerTasks (h : Inv order s) (i : Nat) : Inv order (s.onRequest i s.server.answerTasks) := by
  refine h.onRequest i (fun x _ f r hbrings => hbrings.answerTasks) (fun p r hbrings => ?_) (fun p r hbrings => ?_)
    (fun place r => ?_) fun r row hrow => .inl ?_
  · cases r with
    | lists q answer rows next =>
      cases answer with
      | none => exact ⟨hbrings.1, fun tasks htasks => by rw [← Option.some.inj htasks, hbrings.1]⟩
      | some => exact hbrings
    | _ => exact hbrings.elim
  · cases r with
    | lists q answer rows next => cases answer <;> exact hbrings
    | _ => exact hbrings.elim
  · cases r with
    | lists q answer rows next => cases answer <;> rfl
    | _ => rfl
  · cases r with
    | lists q answer rows next => cases answer <;> exact hrow
    | _ => exact hrow

end

/-! ## The server's changes -/

section

variable {order : Order} {s : State} {server server' : Server}

theorem change_session_self (server : Server) (x : SessionId) (fields : Fields) :
    (server.change x fields).session x = { server.session x with fields } := Function.update_self ..

theorem change_session_other {y : SessionId} (fields : Fields) (h : y ≠ x) :
    (server.change x fields).session y = server.session y := Function.update_of_ne h ..

theorem create_session_self (server : Server) (place : Place) (fields : Fields) (tasks : List Task) :
    (server.create place fields tasks).session server.nextId = ⟨place, fields⟩ := Function.update_self ..

theorem create_session_old (place : Place) (fields : Fields) (tasks : List Task) (h : x ∈ server.ids) :
    (server.create place fields tasks).session x = server.session x :=
  Function.update_of_ne (Nat.ne_of_lt (server.fresh x h)) ..

theorem list_congr (hids : (server'.ids.filter fun x => (server'.session x).isIn p t) =
      server.ids.filter fun x => (server.session x).isIn p t)
    (hsession : ∀ x ∈ server.ids, (server.session x).isIn p t → server'.session x = server.session x) :
    server'.list order p t = server.list order p t := by
  have hrows : (server'.rows fun x => x.isIn p t) = server.rows fun x => x.isIn p t := by
    rw [Server.rows, Server.rows, hids]
    refine map_congr_left fun x hx => ?_
    obtain ⟨hx, hin⟩ := mem_filter.mp hx
    rw [hsession x hx hin]
  rw [Server.list, Server.list, hrows]

theorem isIn_eq_false (h : v.place.projectId ≠ some p) : v.isIn p t = false := by
  simp [Session.isIn, h]

theorem list_change (t : Option TaskId) (fields : Fields) (hp : (server.session x).place.projectId ≠ some p) :
    (server.change x fields).list order p t = server.list order p t := by
  refine list_congr (filter_congr fun y _ => ?_) fun y _ hin => change_session_other fields ?_
  · by_cases hy : y = x
    · subst hy
      rw [isIn_eq_false hp, isIn_eq_false]
      rwa [change_session_self]
    · rw [change_session_other fields hy]
  · rintro rfl
    exact hp (Session.isIn_iff.mp hin).1

theorem list_create {place : Place} (fields : Fields) (tasks : List Task)
    (h : (Session.mk place fields).isIn p t = false) :
    (server.create place fields tasks).list order p t = server.list order p t := by
  refine list_congr ?_ fun y hy _ => create_session_old place fields tasks hy
  show (server.ids ++ [server.nextId]).filter _ = _
  rw [filter_append, filter_cons_of_neg, filter_nil, append_nil]
  · exact filter_congr fun y hy => by rw [create_session_old place fields tasks hy]
  · rw [create_session_self, h]
    exact Bool.false_ne_true

theorem list_deleteTask (p q : ProjectId) (t : TaskId) (tasks : List Task) :
    (server.deleteTask p t tasks).list order q none = server.list order q none := by
  refine list_congr ?_ fun _ _ _ => rfl
  show (server.ids.filter _).filter _ = _
  rw [filter_filter]
  refine filter_congr fun y _ => ?_
  cases ht : (server.session y).place.taskId with
  | none => simp [Server.deleteTask, Session.ofTask, ht]
  | some t' => simp [Server.deleteTask, Session.isIn, ht]

theorem Inv.changed (h : Inv order s) {ms : List Message} (hkept : ∀ x ∈ s.server.ids,
      x ∈ server'.ids ∧ (server'.session x).place = (s.server.session x).place ∨ s.Unknown x)
    (hcreated : ∀ x place, .sessionCreated x place ∈ ms →
      x ∈ server'.ids ∧ place = (server'.session x).place ∧ place.background = false)
    (hfields : ∀ x ∈ server'.ids, x ∈ s.server.ids ∧ server'.session x = s.server.session x ∨
      ∀ f, { s with server := server' }.Needs x f → ∃ m ∈ ms, m.Brings { s with server := server' } x f)
    (htasks : ∀ p, server'.tasks p = s.server.tasks p ∨ ∃ m ∈ ms, m.projectId = some p)
    (hids : ∀ p, server'.list order p none = s.server.list order p none ∨ ∃ m ∈ ms, m.projectId = some p) :
    Inv order { s with server := server', unannounced := s.unannounced ++ ms } := by
  have hmem : ∀ m, m ∈ { s with server := server', unannounced := s.unannounced ++ ms }.messages ↔
      m ∈ s.messages ∨ m ∈ ms := fun m => by
    simp only [State.messages, mem_append]
    exact or_right_comm
  have hknown : ∀ x ∈ s.server.ids, ¬s.Unknown x →
      x ∈ server'.ids ∧ (server'.session x).place = (s.server.session x).place :=
    fun x hx hknown => (hkept x hx).resolve_right hknown
  refine
    { created := fun x place hm => ?_, rows := fun r hr row hrow => ?_, cache := fun x c hc => ?_
      fields := fun x hx f hneeds => ?_, tasks := fun p store hstore hloaded => ?_
      ids := fun p store hstore hloaded => ?_ }
  · obtain hm | hm := (hmem _).mp hm
    · obtain ⟨hx, hplace, hb⟩ := h.created x place hm
      obtain ⟨hx', hplace'⟩ := hknown x hx fun hunknown => by simpa [Message.creates] using hunknown.2.2 _ hm
      exact ⟨hx', hplace.trans hplace'.symm, hb⟩
    · exact hcreated x place hm
  · obtain ⟨⟨hx, hplace⟩, hb⟩ := h.rows r hr row hrow
    obtain ⟨hx', hplace'⟩ := hknown row.1 hx fun hunknown => hunknown.2.1 r hr row hrow rfl
    exact ⟨⟨hx', hplace.trans hplace'.symm⟩, hb⟩
  · have hold := h.cache x c hc
    obtain ⟨hx', hplace'⟩ := hknown x hold.mem fun hunknown =>
      Option.some_ne_none c ((Option.mem_def.mp hc).symm.trans hunknown.1)
    exact
      { mem := hx', projectId := by rw [hplace', hold.projectId], taskId := by rw [hplace', hold.taskId]
        background := by rw [hplace', hold.background], whole := by rw [hplace']; exact hold.whole }
  · obtain ⟨hxs, hsame⟩ | hdue := hfields x hx
    · have hlater : Later x s { s with server := server', unannounced := s.unannounced ++ ms } :=
        ⟨hsame, fun p store hstore => ⟨store, hstore, fun _ ht => ht⟩, id⟩
      have hneeds : s.Needs x f := by
        simpa [State.Needs, State.Lists, hsame] using hneeds
      obtain ⟨c, hc, hget⟩ | (⟨m, hm, hbrings⟩ | ⟨r, hr, hbrings⟩) | hb := h.fields x hxs f hneeds
      · exact .inl ⟨c, hc, hget.trans (congrArg (·.get f) hsame.symm)⟩
      · exact .inr (.inl (.inl ⟨m, (hmem m).mpr (.inl hm), hbrings.later hlater⟩))
      · exact .inr (.inl (.inr ⟨r, hr, hbrings.later hlater⟩))
      · exact hb.elim
    · obtain ⟨m, hm, hbrings⟩ := hdue f hneeds
      exact .inr (.inl (.inl ⟨m, (hmem m).mpr (.inr hm), hbrings⟩))
  · obtain hsame | ⟨m, hm, hp⟩ := htasks p
    · obtain heq | (⟨m, hm, hp⟩ | ⟨r, hr, hbrings⟩) | hb := h.tasks p store hstore hloaded
      · exact .inl (heq.trans hsame.symm)
      · exact .inr (.inl (.inl ⟨m, (hmem m).mpr (.inl hm), hp⟩))
      · refine .inr (.inl (.inr ⟨r, hr, ?_⟩))
        cases r with
        | lists => exact ⟨hbrings.1, fun tasks htasks => (hbrings.2 tasks htasks).trans hsame.symm⟩
        | _ => exact hbrings.elim
      · exact hb.elim
    · exact .inr (.inl (.inl ⟨m, (hmem m).mpr (.inr hm), hp⟩))
  · obtain hsame | ⟨m, hm, hp⟩ := hids p
    · have hsame : server'.sessionIds order p none = s.server.sessionIds order p none := congrArg (List.map _) hsame
      obtain heq | (⟨m, hm, hp⟩ | ⟨r, hr, hbrings⟩) | hb := h.ids p store hstore hloaded
      · exact .inl (heq.trans hsame.symm)
      · exact .inr (.inl (.inl ⟨m, (hmem m).mpr (.inl hm), hp⟩))
      · refine .inr (.inl (.inr ⟨r, hr, ?_⟩))
        cases r with
        | lists => exact ⟨hbrings.1, fun rows hrows => (hbrings.2 rows hrows).trans hsame.symm⟩
        | _ => exact hbrings.elim
      · exact hb.elim
    · exact .inr (.inl (.inl ⟨m, (hmem m).mpr (.inr hm), hp⟩))

theorem Inv.change (fields : Fields) (h : Inv order s) (hx : x ∈ s.server.ids) :
    Inv order ({ s with server := s.server.change x fields }.unannounce
      (.sessionUpdated x (s.server.session x).place.projectId)) := by
  have hplace : ∀ y, ((s.server.change x fields).session y).place = (s.server.session y).place := fun y => by
    by_cases hy : y = x
    · subst hy
      rw [change_session_self]
    · rw [change_session_other fields hy]
  refine h.changed (fun y hy => .inl ⟨hy, hplace y⟩) (fun y place hm => ?_) (fun y hy => ?_) (fun p => .inl rfl)
    fun p => ?_
  · cases mem_singleton.mp hm
  · by_cases hyx : y = x
    · subst hyx
      refine .inr fun f hneeds => ⟨_, mem_cons_self, ?_⟩
      by_cases hf : f.detailed
      · exact .inl ⟨hf, decide_eq_true rfl⟩
      obtain ⟨hf', -⟩ | ⟨hf', hlists⟩ := hneeds.2
      · exact absurd hf' hf
      · exact .inr ⟨hf', by rw [Message.projectId, hplace y], hlists.reaches _⟩
    · exact .inl ⟨hy, change_session_other fields hyx⟩
  · by_cases hp : (s.server.session x).place.projectId = some p
    · exact .inr ⟨_, mem_cons_self, hp⟩
    · exact .inl (list_change none fields hp)

theorem Inv.create {place : Place} (fields : Fields) (tasks : List Task) (h : Inv order s) :
    Inv order (step order s (.create place fields tasks)) := by
  let ms : List Message := if place.background then [] else [.sessionCreated s.server.nextId place]
  have heq : step order s (.create place fields tasks) =
      { s with server := s.server.create place fields tasks, unannounced := s.unannounced ++ ms } := by
    simp only [step, ms]
    split
    · rw [append_nil]
    · rfl
  rw [heq]
  have hfresh : s.cache s.server.nextId = none := by
    cases hc : s.cache s.server.nextId with
    | none => rfl
    | some c => exact absurd (s.server.fresh _ (h.cache _ c hc).mem) (lt_irrefl _)
  refine h.changed (fun y hy => .inl ⟨mem_append_left _ hy, by rw [create_session_old place fields tasks hy]⟩)
    (fun y place' hm => ?_) (fun y hy => ?_) (fun p => ?_) fun p => ?_
  · simp only [ms] at hm
    split at hm
    · cases hm
    next hb =>
      cases mem_singleton.mp hm
      exact ⟨mem_append_right _ mem_cons_self, by rw [create_session_self], Bool.eq_false_iff.mpr hb⟩
  · obtain hy | hy := mem_append.mp (show y ∈ s.server.ids ++ [s.server.nextId] from hy)
    · exact .inl ⟨hy, create_session_old place fields tasks hy⟩
    obtain rfl := mem_singleton.mp hy
    refine .inr fun f hneeds => ?_
    obtain ⟨-, c, hc, -⟩ | ⟨hf, hlists⟩ := hneeds.2
    · cases (Option.mem_def.mp hc).symm.trans hfresh
    have hb : place.background = false := by
      have := hlists.1
      simp only [create_session_self, Session.listed, Bool.and_eq_true, Bool.not_eq_true'] at this
      exact this.1
    refine ⟨.sessionCreated s.server.nextId place, by simp [ms, hb], .inr ⟨hf, ?_, hlists.reaches _⟩⟩
    rw [create_session_self]
    rfl
  · simp only [Server.create]
    cases hproject : place.projectId with
    | none => exact .inl rfl
    | some q =>
      by_cases hb : place.background
      · exact .inl (by simp [hb])
      by_cases hp : p = q
      · exact .inr ⟨.sessionCreated s.server.nextId place, by simp [ms, hb], by rw [hp]; exact hproject⟩
      · exact .inl (by simp [hb, Function.update_of_ne hp])
  · by_cases hin : (Session.mk place fields).isIn p none
    · refine .inr ⟨.sessionCreated s.server.nextId place, ?_, (Session.isIn_iff.mp hin).1⟩
      simp [ms, show place.background = false from Session.isIn_background hin]
    · exact .inl (list_create fields tasks (Bool.eq_false_iff.mpr hin))

theorem Inv.changeTasks (p : ProjectId) (tasks : List Task) (h : Inv order s) :
    Inv order ({ s with server := s.server.changeTasks p tasks }.unannounce (.taskUpdated p)) := by
  refine h.changed (fun y hy => .inl ⟨hy, rfl⟩) (fun y place hm => ?_) (fun y hy => .inl ⟨hy, rfl⟩) (fun q => ?_)
    fun q => .inl rfl
  · cases mem_singleton.mp hm
  by_cases hq : q = p
  · subst hq
    exact .inr ⟨_, mem_cons_self, rfl⟩
  · exact .inl (Function.update_of_ne hq ..)

theorem Inv.deleteTask (p : ProjectId) (t : TaskId) (tasks : List Task) (h : Inv order s)
    (hok : Ok order s (.deleteTask p t tasks)) :
    Inv order ({ s with server := s.server.deleteTask p t tasks }.unannounce (.taskUpdated p)) := by
  refine h.changed (fun y hy => ?_) (fun y place hm => ?_) (fun y hy => .inl ⟨(mem_filter.mp hy).1, rfl⟩)
    (fun q => ?_) fun q => .inl (list_deleteTask p q t tasks)
  · by_cases hof : (s.server.session y).ofTask p t
    · exact .inr (hok y hy hof)
    · exact .inl ⟨mem_filter.mpr ⟨hy, by simp [hof]⟩, rfl⟩
  · cases mem_singleton.mp hm
  · by_cases hq : q = p
    · subst hq
      exact .inr ⟨_, mem_cons_self, rfl⟩
    · exact .inl (Function.update_of_ne hq ..)

end

/-! ## Landing -/

section

variable {order : Order} {s s' : State} {brought : SessionId → Field → Prop}
  {tasksBrought idsBrought : ProjectId → Prop}

theorem due_taking {rs : List Request} {i : Nat} {P : Request → Prop} {A M : Prop} (hr : rs[i]? = some r)
    (h : A ∨ (M ∨ ∃ r ∈ rs, P r) ∨ False) : A ∨ (M ∨ ∃ r ∈ rs.eraseIdx i, P r) ∨ P r := by
  obtain ha | (hm | ⟨r', hr', hp⟩) | hb := h
  · exact .inl ha
  · exact .inr (.inl (.inl hm))
  · obtain rfl | hr' := eq_or_mem_eraseIdx hr hr'
    · exact .inr (.inr hp)
    · exact .inr (.inl (.inr ⟨r', hr', hp⟩))
  · exact hb.elim

theorem Inv.taking {i : Nat} (h : Inv order s) (hr : s.requests[i]? = some r) :
    InvBut order { s with requests := s.requests.eraseIdx i }
      (fun x f => r.Brings { s with requests := s.requests.eraseIdx i } x f)
      (fun p => r.BringsTasks { s with requests := s.requests.eraseIdx i } p)
      fun p => r.BringsIds { s with requests := s.requests.eraseIdx i } order p := { h with
  rows r' hr' := h.rows r' (mem_of_mem_eraseIdx hr')
  fields x hx f hneeds := due_taking hr (h.fields x hx f hneeds)
  tasks p store hstore hloaded := due_taking hr (h.tasks p store hstore hloaded)
  ids p store hstore hloaded := due_taking hr (h.ids p store hstore hloaded) }

structure Writes (s s' : State) : Prop where
  server : s'.server = s.server
  messages : s'.messages = s.messages
  requests : s.requests ⊆ s'.requests
  unanswered : ∀ r ∈ s'.requests, r ∈ s.requests ∨ r.rows = []
  stores : ∀ p, ∀ store ∈ s.stores p, ∃ store' ∈ s'.stores p, store.loadedTaskSessionIds ⊆ store'.loadedTaskSessionIds
  cached : ∀ x, (s.cache x).isSome → (s'.cache x).isSome

theorem Writes.later (h : Writes s s') (x : SessionId) : Later x s s' := ⟨by rw [h.server], h.stores, h.cached x⟩

theorem Writes.due (h : Writes s s') (hdue : s.Due x f) : s'.Due x f := by
  refine hdue.imp (fun ⟨m, hm, hbrings⟩ => ⟨m, ?_, hbrings.later (h.later x)⟩)
    fun ⟨r, hr, hbrings⟩ => ⟨r, h.requests hr, hbrings.later (h.later x)⟩
  rwa [h.messages]

theorem Writes.tasksDue (h : Writes s s') (hdue : s.TasksDue p) : s'.TasksDue p := by
  refine hdue.imp (fun ⟨m, hm, hp⟩ => ⟨m, ?_, hp⟩)
    fun ⟨r, hr, hbrings⟩ => ⟨r, h.requests hr, hbrings.of_server h.server⟩
  rwa [h.messages]

theorem Writes.idsDue (h : Writes s s') (hdue : s.IdsDue order p) : s'.IdsDue order p := by
  refine hdue.imp (fun ⟨m, hm, hp⟩ => ⟨m, ?_, hp⟩)
    fun ⟨r, hr, hbrings⟩ => ⟨r, h.requests hr, hbrings.of_server h.server⟩
  rwa [h.messages]

theorem InvBut.writes (h : InvBut order s brought tasksBrought idsBrought) (hw : Writes s s')
    (hcache : CacheOk s.server s'.cache)
    (hfields : ∀ x ∈ s.server.ids, ∀ f, s'.Needs x f → Holds s.server s'.Due s'.cache x f)
    (htasks : ∀ p, ∀ store ∈ s'.stores p, store.loaded → store.tasks = s.server.tasks p ∨ s'.TasksDue p)
    (hids : ∀ p, ∀ store ∈ s'.stores p, store.loaded →
      store.sessionIds = s.server.sessionIds order p none ∨ s'.IdsDue order p) : Inv order s' where
  created x place hm := by
    rw [hw.messages] at hm
    rw [hw.server]
    exact h.created x place hm
  rows r hr row hrow := by
    rw [hw.server]
    obtain hr | hr := hw.unanswered r hr
    · exact h.rows r hr row hrow
    · exact absurd (hr ▸ hrow) not_mem_nil
  cache := by rwa [hw.server]
  fields x hx f hneeds := by
    rw [hw.server] at hx
    refine (hfields x hx f hneeds).imp (fun ⟨c, hc, hget⟩ => ⟨c, hc, ?_⟩) .inl
    rwa [hw.server]
  tasks p store hstore hloaded := by
    rw [hw.server]
    exact (htasks p store hstore hloaded).imp_right .inl
  ids p store hstore hloaded := by
    rw [hw.server]
    exact (hids p store hstore hloaded).imp_right .inl

theorem setRows_isSome {rows : List Row} (h : (cache x).isSome) :
    (rows.foldl (fun cache row => set cache row.1 (patch row.2)) cache x).isSome := by
  induction rows generalizing cache with
  | nil => exact h
  | cons row rows ih =>
    apply ih
    by_cases hx : x = row.1
    · subst hx
      simp
    · simpa [set_other _ _ hx] using h

theorem holds_setMany {due : SessionId → Field → Prop} {rows : List Row}
    (hrows : ∀ row ∈ rows, ∀ f, f.listed → f.detailed ∨ (server.session row.1).listed →
      row.2.get f = (server.session row.1).get f ∨ due row.1 f)
    (hkind : f.detailed ∨ (server.session x).listed)
    (h : Holds server due cache x f ∨ f.listed ∧ ∃ row ∈ rows, row.1 = x) :
    Holds server due (setMany cache rows) x f := by
  refine Holds.setRows listPatch_fields h fun row hrow hx hf => ?_
  subst hx
  exact hrows row hrow f hf hkind

end

section

variable {order : Order} {s : State} {brought : SessionId → Field → Prop}

theorem setStore_self (p : ProjectId) (store : Store) : (s.setStore p store).stores p = some store :=
  Function.update_self ..

theorem setStore_other {q : ProjectId} (store : Store) (h : q ≠ p) : (s.setStore p store).stores q = s.stores q :=
  Function.update_of_ne h ..

theorem setStore_cases {q : ProjectId} {store' : Store} (h : store' ∈ (s.setStore p store).stores q) :
    q = p ∧ store' = store ∨ q ≠ p ∧ store' ∈ s.stores q := by
  by_cases hq : q = p
  · subst hq
    rw [setStore_self, Option.mem_some_iff] at h
    exact .inl ⟨rfl, h.symm⟩
  · rw [setStore_other store hq] at h
    exact .inr ⟨hq, h⟩

theorem setStore_grows {store' : Store} (hstore : s.stores p = some store)
    (hsub : store.loadedTaskSessionIds ⊆ store'.loadedTaskSessionIds) (q : ProjectId) :
    ∀ store₀ ∈ s.stores q, ∃ store₁ ∈ (s.setStore p store').stores q,
      store₀.loadedTaskSessionIds ⊆ store₁.loadedTaskSessionIds := by
  intro store₀ hstore₀
  by_cases hq : q = p
  · subst hq
    cases hstore.symm.trans hstore₀
    exact ⟨store', setStore_self q store', hsub⟩
  · exact ⟨store₀, (setStore_other store' hq).trans hstore₀, fun _ ht => ht⟩

theorem InvBut.landLists {tasks : List Task} {rows : List Row} {next : Option TaskId}
    (h : InvBut order s (fun x f => Request.Brings s x f (.lists p (some tasks) (some rows) next))
      (fun q => Request.BringsTasks s q (.lists p (some tasks) (some rows) next))
      fun q => Request.BringsIds s order q (.lists p (some tasks) (some rows) next))
    (hrows : ∀ row ∈ rows, RowOk s.server row ∧ row.2.place.background = false)
    (hok : LandOk s order (.lists p (some tasks) (some rows) next)) :
    Inv order (s.landRequest (.lists p (some tasks) (some rows) next)) := by
  cases hstore : s.stores p with
  | none =>
    simp only [State.landRequest, hstore]
    refine h.asks (.refl s) (fun x _ f _ hbrings => ?_) (fun q hq hpq => ?_) fun q hq hpq => ?_
    · obtain ⟨-, hp, ⟨-, p', hp', store, hstore', -⟩, -⟩ := hbrings
      cases hp.symm.trans hp'
      exact absurd (hstore.symm.trans hstore') (Option.some_ne_none store).symm
    · obtain ⟨rfl, -⟩ := hpq
      simp [hstore] at hq
    · obtain ⟨rfl, -⟩ := hpq
      simp [hstore] at hq
  | some store =>
    obtain ⟨htasks, hids, hfresh, hmissed⟩ := hok (by rw [hstore]; rfl)
    let store' : Store := { store with tasks, sessionIds := rows.map (·.1), loaded := true }
    let more : List Request := (store.loadedTaskSessionIds ++ next.toList).map fun t => .taskSessions p t none
    let s' : State := { s.setStore p store' with cache := setMany s.cache rows, requests := s.requests ++ more }
    have heq : s.landRequest (.lists p (some tasks) (some rows) next) = s' := by
      simp [State.landRequest, hstore, store', more, s']
    rw [heq]
    have hw : Writes s s' := by
      refine ⟨rfl, rfl, fun r hr => mem_append_left _ hr, fun r hr => ?_, setStore_grows hstore fun _ ht => ht,
        fun x hx => setRows_isSome hx⟩
      refine (mem_append.mp hr).imp_right fun hr => ?_
      obtain ⟨t, -, rfl⟩ := mem_map.mp hr
      rfl
    refine h.writes hw (h.cache.setRows hrows fun row c => Patchable.list) (fun x hx f hneeds => ?_)
      (fun q store₁ hstore₁ hloaded => ?_) fun q store₁ hstore₁ hloaded => ?_
    · have hold : s.Needs x f → Holds s.server s'.Due s.cache x f ∨ f.listed ∧ ∃ row ∈ rows, row.1 = x := by
        intro hneeds
        obtain hc | hdue | ⟨hf, hp, hreach, hanswered⟩ := h.fields x hx f hneeds
        · exact .inl (.inl hc)
        · exact .inl (.inr (hw.due hdue))
        · cases ht : (s.server.session x).place.taskId with
          | none =>
            obtain ⟨row, hrow, hrx, -⟩ := hanswered ht rows rfl
            exact .inr ⟨hf, row, hrow, hrx⟩
          | some t =>
            -- A loaded task's sessions are fetched after the lists.
            obtain ⟨hlisted, p', hp', store₁, hstore₁, htask⟩ := hreach
            cases hp.symm.trans hp'
            cases hstore.symm.trans hstore₁
            have hmore : .taskSessions p t none ∈ more := by
              refine mem_map.mpr ⟨t, mem_append.mpr ?_, rfl⟩
              exact (htask t ht).imp_right fun hnext => by simp [hnext]
            refine .inl (.inr (.inr ⟨_, mem_append_right _ hmore, hf, Session.isIn_iff.mpr ⟨hp, ht, hlisted⟩, ?_⟩))
            exact ⟨by rw [setStore_self]; rfl, nofun⟩
      have hfresh := fun row hrow f hf hkind => (hfresh row hrow f hf hkind).imp_right hw.due
      obtain ⟨hp, ⟨hf, hcarried⟩ | ⟨hf, hlists⟩⟩ := hneeds
      · refine holds_setMany hfresh (.inl hf) ?_
        obtain hcarried | hrow := carried_setRows listPatch_fields _ hcarried
        · exact hold ⟨hp, .inl ⟨hf, hcarried⟩⟩
        · exact .inr hrow
      · refine holds_setMany hfresh (.inr hlists.1) ?_
        obtain ⟨hlisted, q, hq, store₁, hstore₁, hloaded, htask⟩ := hlists
        obtain ⟨rfl, rfl⟩ | ⟨-, hstore₁⟩ := setStore_cases hstore₁
        · cases ht : (s.server.session x).place.taskId with
          | none =>
            by_cases hrow : ∃ row ∈ rows, row.1 = x
            · exact .inr ⟨hf, hrow⟩
            · refine .inl ((hmissed x hx (Session.isIn_iff.mpr ⟨hq, ht, hlisted⟩) ?_ f hf).imp_right hw.due)
              exact fun row hrow' hrx => hrow ⟨row, hrow', hrx⟩
          | some t =>
            refine hold ⟨hp, .inr ⟨hf, hlisted, q, hq, store, hstore, fun h => ?_, htask⟩⟩
            cases ht.symm.trans h
        · exact hold ⟨hp, .inr ⟨hf, hlisted, q, hq, store₁, hstore₁, hloaded, htask⟩⟩
    · obtain ⟨rfl, rfl⟩ | ⟨hq, hstore₁⟩ := setStore_cases hstore₁
      · exact htasks.imp_right hw.tasksDue
      obtain hsame | hdue | ⟨rfl, -⟩ := h.tasks q store₁ hstore₁ hloaded
      · exact .inl hsame
      · exact .inr (hw.tasksDue hdue)
      · exact absurd rfl hq
    · obtain ⟨rfl, rfl⟩ | ⟨hq, hstore₁⟩ := setStore_cases hstore₁
      · exact hids.imp_right hw.idsDue
      obtain hsame | hdue | ⟨rfl, -⟩ := h.ids q store₁ hstore₁ hloaded
      · exact .inl hsame
      · exact .inr (hw.idsDue hdue)
      · exact absurd rfl hq

theorem InvBut.landTaskSessions {t : TaskId} {rows : List Row}
    (h : InvBut order s (fun x f => Request.Brings s x f (.taskSessions p t (some rows))) (fun _ => False)
      fun _ => False)
    (hrows : ∀ row ∈ rows, RowOk s.server row ∧ row.2.place.background = false)
    (hok : LandOk s order (.taskSessions p t (some rows))) :
    Inv order (s.landRequest (.taskSessions p t (some rows))) := by
  cases hstore : s.stores p with
  | none =>
    simp only [State.landRequest, hstore]
    refine h.asks (.refl s) (fun x _ f _ hbrings => ?_) (fun _ _ => False.elim) fun _ _ => False.elim
    obtain ⟨-, -, hsome, -⟩ := hbrings
    simp [hstore] at hsome
  | some store =>
    obtain ⟨hfresh, hmissed⟩ := hok store hstore
    let s₁ : State := s.setStore p (store.loadTask t)
    let s' : State := { s₁ with cache := setMany s.cache rows }
    have heq : s.landRequest (.taskSessions p t (some rows)) = s' := by
      simp [State.landRequest, hstore, s', s₁]
    rw [heq]
    have hsub : store.loadedTaskSessionIds ⊆ (store.loadTask t).loadedTaskSessionIds :=
      fun _ ht => mem_insert_of_mem ht
    have hw : Writes s s' :=
      ⟨rfl, rfl, fun _ hr => hr, fun _ hr => .inl hr, setStore_grows hstore hsub, fun x hx => setRows_isSome hx⟩
    have hw₁ : Writes s₁ s' :=
      ⟨rfl, rfl, fun _ hr => hr, fun _ hr => .inl hr, fun _ store hstore => ⟨store, hstore, fun _ ht => ht⟩,
        fun x hx => setRows_isSome hx⟩
    refine h.writes hw (h.cache.setRows hrows fun row c => Patchable.list) (fun x hx f hneeds => ?_)
      (fun q store₁ hstore₁ hloaded => ?_) fun q store₁ hstore₁ hloaded => ?_
    · have hold : s.Needs x f → Holds s.server s'.Due s.cache x f ∨ f.listed ∧ ∃ row ∈ rows, row.1 = x := by
        intro hneeds
        obtain hc | hdue | ⟨hf, -, -, hanswered⟩ := h.fields x hx f hneeds
        · exact .inl (.inl hc)
        · exact .inl (.inr (hw.due hdue))
        · obtain ⟨row, hrow, hrx, -⟩ := hanswered rows rfl
          exact .inr ⟨hf, row, hrow, hrx⟩
      have hfresh := fun row hrow f hf hkind => (hfresh row hrow f hf hkind).imp_right hw₁.due
      obtain ⟨hp, ⟨hf, hcarried⟩ | ⟨hf, hlists⟩⟩ := hneeds
      · refine holds_setMany hfresh (.inl hf) ?_
        obtain hcarried | hrow := carried_setRows listPatch_fields _ hcarried
        · exact hold ⟨hp, .inl ⟨hf, hcarried⟩⟩
        · exact .inr hrow
      · refine holds_setMany hfresh (.inr hlists.1) ?_
        obtain ⟨hlisted, q, hq, store₁, hstore₁, hloaded, htask⟩ := hlists
        obtain ⟨rfl, rfl⟩ | ⟨-, hstore₁⟩ := setStore_cases hstore₁
        · by_cases ht : (s.server.session x).place.taskId = some t
          · by_cases hrow : ∃ row ∈ rows, row.1 = x
            · exact .inr ⟨hf, hrow⟩
            · refine .inl ((hmissed x hx (Session.isIn_iff.mpr ⟨hq, ht, hlisted⟩) ?_ f hf).imp_right hw₁.due)
              exact fun row hrow' hrx => hrow ⟨row, hrow', hrx⟩
          · refine hold ⟨hp, .inr ⟨hf, hlisted, q, hq, store, hstore, hloaded, fun t' ht' => ?_⟩⟩
            refine (mem_insert_iff.mp (htask t' ht')).resolve_left ?_
            rintro rfl
            exact ht ht'
        · exact hold ⟨hp, .inr ⟨hf, hlisted, q, hq, store₁, hstore₁, hloaded, htask⟩⟩
    · obtain ⟨rfl, rfl⟩ | ⟨-, hstore₁⟩ := setStore_cases hstore₁
      · exact (h.tasks q store hstore hloaded).imp_right fun hdue => hw.tasksDue (hdue.resolve_right id)
      · exact (h.tasks q store₁ hstore₁ hloaded).imp_right fun hdue => hw.tasksDue (hdue.resolve_right id)
    · obtain ⟨rfl, rfl⟩ | ⟨-, hstore₁⟩ := setStore_cases hstore₁
      · exact (h.ids q store hstore hloaded).imp_right fun hdue => hw.idsDue (hdue.resolve_right id)
      · exact (h.ids q store₁ hstore₁ hloaded).imp_right fun hdue => hw.idsDue (hdue.resolve_right id)

theorem InvBut.writesCache {unownedSessionIds : List SessionId}
    (h : InvBut order s brought (fun _ => False) fun _ => False) (hcache : CacheOk s.server cache)
    (hcached : ∀ x, (s.cache x).isSome → (cache x).isSome)
    (hfields : ∀ x ∈ s.server.ids, ∀ f, (s.server.session x).place.projectId.isSome →
      (f.detailed ∧ (∃ c ∈ cache x, (c.fields f).isSome) → s.Needs x f ∨ Holds s.server s.Due cache x f) ∧
        (s.Needs x f → Holds s.server s.Due cache x f)) :
    Inv order { s with cache, unownedSessionIds } := by
  have hw : Writes s { s with cache, unownedSessionIds } :=
    ⟨rfl, rfl, fun _ hr => hr, fun _ hr => .inl hr, fun _ store hstore => ⟨store, hstore, fun _ ht => ht⟩, hcached⟩
  refine h.writes hw hcache (fun x hx f hneeds => ?_) (fun p store hstore hloaded => ?_)
    fun p store hstore hloaded => ?_
  · obtain ⟨hp, hneeds⟩ := hneeds
    obtain ⟨hcarried, hold⟩ := hfields x hx f hp
    refine Or.imp_right hw.due ?_
    obtain hneeds | hlists := hneeds
    · exact (hcarried hneeds).elim hold id
    · exact hold ⟨hp, .inr hlists⟩
  · exact (h.tasks p store hstore hloaded).imp_right fun hdue => hw.tasksDue (hdue.resolve_right id)
  · exact (h.ids p store hstore hloaded).imp_right fun hdue => hw.idsDue (hdue.resolve_right id)

theorem InvBut.landUnowned {rows : List Row} (h : InvBut order s (fun _ _ => False) (fun _ => False) fun _ => False)
    (hrows : ∀ row ∈ rows, RowOk s.server row ∧ row.2.place.background = false ∧ row.2.place.projectId = none) :
    Inv order (s.landRequest (.unowned (some rows))) := by
  refine h.writesCache (h.cache.setRows (fun row hrow => ⟨(hrows row hrow).1, (hrows row hrow).2.1⟩)
    fun row c => Patchable.list) (fun x hx => setRows_isSome hx) fun x hx f hp => ?_
  have hother : ∀ row ∈ rows, row.1 ≠ x := by
    rintro row hrow rfl
    rw [← (hrows row hrow).1.place, (hrows row hrow).2.2] at hp
    cases hp
  have hsame : setMany s.cache rows x = s.cache x := setRows_other hother
  simp only [Holds, hsame]
  exact ⟨fun hcarried => .inl ⟨hp, .inl hcarried⟩, fun hneeds =>
    (h.fields x hx f hneeds).imp_right fun hdue => hdue.resolve_right id⟩

theorem clearActivity_get {c : Cached} (h : f ≠ .activityState) : (clearActivity c).get f = c.get f := by
  show Option.getD (Function.update c.fields .activityState (some none) f) none = c.get f
  rw [Function.update_of_ne h, Cached.get]

theorem InvBut.landActivity {rows : List Row}
    (h : InvBut order s (fun x f => Request.Brings s x f (.activity (some rows))) (fun _ => False) fun _ => False)
    (hrows : ∀ row ∈ rows, RowOk s.server row ∧ row.2.place.background = false)
    (hok : LandOk s order (.activity (some rows))) : Inv order (s.landRequest (.activity (some rows))) := by
  obtain ⟨hfresh, hcleared⟩ := hok
  refine h.writesCache (h.cache.setActivity hrows) (fun x hx => ?_) fun x hx f hp => ?_
  · obtain ⟨c, -, -, -, -, heq⟩ | ⟨heq, -⟩ := setActivity_cases s.cache rows x
    · exact heq ▸ rfl
    · rw [heq]
      exact setRows_isSome hx
  · obtain ⟨c, hc, hb, hact, hother, heq⟩ | ⟨heq, hnone⟩ := setActivity_cases s.cache rows x
    · by_cases hf : f = .activityState
      · subst hf
        have hholds : Holds s.server s.Due (setActivity s.cache rows) x .activityState :=
          (hcleared x hx c hc hp hb hact hother).imp_left fun hget => ⟨clearActivity c, heq, hget⟩
        exact ⟨fun _ => .inr hholds, fun _ => hholds⟩
      · refine ⟨fun ⟨hdetailed, c', hc', hcarried⟩ => .inl ⟨hp, .inl ⟨hdetailed, c, hc, ?_⟩⟩, fun hneeds => ?_⟩
        · cases heq.symm.trans hc'
          have hsame : (clearActivity c).fields f = c.fields f := Function.update_of_ne hf ..
          rwa [hsame] at hcarried
        obtain ⟨c', hc', hget⟩ | hdue | ⟨hf', -⟩ := h.fields x hx f hneeds
        · cases hc.symm.trans hc'
          exact .inl ⟨clearActivity c, heq, (clearActivity_get hf).trans hget⟩
        · exact .inr hdue
        · exact absurd hf' hf
    · have hrow : ∀ row ∈ rows, row.1 = x → f.active → row.2.get f = (s.server.session x).get f ∨ s.Due x f := by
        rintro row hrow rfl hf
        cases f <;> first | exact absurd hf Bool.false_ne_true | exact hfresh row hrow hp
      have hholds : Holds s.server s.Due s.cache x f ∨ f.active ∧ (∃ row ∈ rows, row.1 = x) →
          Holds s.server s.Due (setActivity s.cache rows) x f := fun h => by
        simpa [Holds, heq] using Holds.setRows activityPatch_fields h hrow
      refine ⟨fun ⟨hdetailed, hcarried⟩ => ?_, fun hneeds => ?_⟩
      · rw [heq] at hcarried
        obtain hcarried | hwritten := carried_setRows activityPatch_fields _ hcarried
        · exact .inl ⟨hp, .inl ⟨hdetailed, hcarried⟩⟩
        · exact .inr (hholds (.inr hwritten))
      · obtain hc | hdue | ⟨rfl, hcached, hb, hanswered⟩ := h.fields x hx f hneeds
        · exact hholds (.inl (.inl hc))
        · exact hholds (.inl (.inr hdue))
        · obtain ⟨row, hrow, hrx, -⟩ | ⟨hother, hget⟩ := hanswered rows rfl
          · exact hholds (.inr ⟨rfl, row, hrow, hrx⟩)
          obtain ⟨c, hc⟩ := Option.isSome_iff_exists.mp hcached
          refine hholds (.inl (.inl ⟨c, hc, ?_⟩))
          rw [hnone c hc ((h.cache x c hc).background.trans hb) hother, hget]

theorem InvBut.landDetail
    (h : InvBut order s (fun y f => Request.Brings s y f (.detail x (some (some v)))) (fun _ => False) fun _ => False)
    (hrow : RowOk s.server (x, v)) (hok : LandOk s order (.detail x (some (some v)))) :
    Inv order (s.landRequest (.detail x (some (some v)))) := by
  refine h.writesCache (h.cache.set hrow.detail) (fun y hy => (later_set s x _ y).cache hy) fun y hy f hp => ?_
  have hfresh : x = y → f.detailed → v.get f = (s.server.session y).get f ∨ s.Due y f := by
    rintro rfl hf
    exact hok hp f hf
  -- A detail is a list of one row.
  have hholds : Holds s.server s.Due s.cache y f ∨ f.detailed ∧ (∃ row ∈ [(x, v)], row.1 = y) →
      Holds s.server s.Due (set s.cache x v.detailPatch) y f := fun h =>
    Holds.setRows detailPatch_fields h fun row hrow hxy hf => by
      obtain rfl := mem_singleton.mp hrow
      exact hfresh hxy hf
  refine ⟨fun ⟨hdetailed, hcarried⟩ => ?_, fun hneeds => ?_⟩
  · obtain hcarried | hwritten := carried_setRows detailPatch_fields [(x, v)] hcarried
    · exact .inl ⟨hp, .inl ⟨hdetailed, hcarried⟩⟩
    · exact .inr (hholds (.inr hwritten))
  obtain hc | hdue | ⟨rfl, hf, -⟩ := h.fields y hy f hneeds
  · exact hholds (.inl (.inl hc))
  · exact hholds (.inl (.inr hdue))
  · exact hholds (.inr ⟨hf, _, mem_cons_self, rfl⟩)

theorem Inv.land (i : Nat) (h : Inv order s) (hok : Ok order s (.land i)) : Inv order (s.land i) := by
  cases hr : s.requests[i]? with
  | none => simpa [State.land, hr] using h
  | some r =>
    have hbut := h.taking hr
    have hrows := h.rows r (mem_of_getElem? hr)
    have hok := hok r hr
    by_cases ha : r.answered
    · simp only [State.land, hr, ha, if_true]
      cases r with
      | lists p tasks answer next =>
        obtain ⟨hsome, hsome'⟩ := Bool.and_eq_true _ _ ▸ ha
        obtain ⟨tasks, rfl⟩ := Option.isSome_iff_exists.mp hsome
        obtain ⟨rows, rfl⟩ := Option.isSome_iff_exists.mp hsome'
        exact hbut.landLists hrows hok
      | taskSessions p t answer =>
        obtain ⟨rows, rfl⟩ := Option.isSome_iff_exists.mp ha
        exact hbut.landTaskSessions hrows hok
      | unowned answer =>
        obtain ⟨rows, rfl⟩ := Option.isSome_iff_exists.mp ha
        exact hbut.landUnowned hrows
      | activity answer =>
        obtain ⟨rows, rfl⟩ := Option.isSome_iff_exists.mp ha
        exact hbut.landActivity hrows hok
      | detail x answer =>
        obtain ⟨found, rfl⟩ := Option.isSome_iff_exists.mp ha
        cases found with
        | none =>
          -- The session is gone, and the cache keeps what it has.
          refine hbut.asks (.refl _) (fun y _ f _ hbrings => ?_) (fun _ _ => False.elim) fun _ _ => False.elim
          obtain ⟨-, -, hfound⟩ := hbrings
          obtain ⟨v, hv, -⟩ := hfound none rfl
          cases hv
        | some v => exact hbut.landDetail (hrows (x, v) mem_cons_self).1 hok
    · simpa [State.land, hr, ha] using h

end

/-! ## Convergence -/

section

variable {order : Order} {s : State}

theorem Inv.init (server : Server) : Inv order (.init server) where
  created x place hm := absurd hm not_mem_nil
  rows r hr := absurd hr not_mem_nil
  cache x c hc := (nomatch hc)
  fields x _ f hneeds := by
    obtain ⟨-, ⟨-, c, hc, -⟩ | ⟨-, -, p, -, store, hstore, -⟩⟩ := hneeds
    · exact (nomatch hc)
    · exact (nomatch hstore)
  tasks p store hstore := (nomatch hstore)
  ids p store hstore := (nomatch hstore)

theorem asks_announce {i : Nat} (h : s.unannounced[i]? = some m) :
    Asks s { s with unannounced := s.unannounced.eraseIdx i, socket := s.socket ++ [m] } where
  server := rfl
  cache := rfl
  messages m' := by
    simp only [State.messages, mem_append, mem_singleton]
    refine ⟨fun hm => ?_, fun hm => ?_⟩
    · obtain hm | hm | rfl := hm
      · exact .inl (mem_of_mem_eraseIdx hm)
      · exact .inr hm
      · exact .inl (mem_of_getElem? h)
    · obtain hm | hm := hm
      · exact (eq_or_mem_eraseIdx h hm).elim (fun heq => .inr (.inr heq)) .inl
      · exact .inr (.inl hm)
  requests _ hr := hr
  unanswered _ hr := .inl hr
  stores _ _ hstore := hstore
  made _ _ hstore := .inl hstore

theorem Inv.step (s : State) (e : Event) (hok : Ok order s e) (h : Inv order s) : Inv order (step order s e) := by
  cases e with
  | change x fields =>
    simp only [SessionCache.step]
    split
    next hx => exact h.change fields hx
    next => exact h
  | create place fields tasks => exact h.create fields tasks
  | changeTasks p tasks => exact h.changeTasks p tasks
  | deleteTask p t tasks => exact h.deleteTask p t tasks hok
  | announce i =>
    simp only [SessionCache.step]
    split
    next m hm => exact h.asks (asks_announce hm)
    next => exact h
  | handle =>
    simp only [SessionCache.step]
    split
    next m socket hsocket =>
      simp only [Ok, hsocket] at hok
      refine Inv.handled (fun x place hm => ?_) (h.losing hsocket) (hok m rfl)
      exact InvBut.toWf h |>.created x place (mem_append_right _ (by rw [hsocket, hm]; exact mem_cons_self))
    next => exact h
  | load p => exact h.asks ((asks_getStore s p).trans (asks_refresh _ p none))
  | expand p t =>
    simp only [SessionCache.step]
    split
    next => exact h.asks (asks_request s rfl)
    next => exact h
  | fetchUnowned => exact h.asks (asks_request s rfl)
  | fetchActivitySnapshot => exact h.asks (asks_request s rfl)
  | loadDetail x => exact h.asks (asks_loadDetail s x)
  | answer i => exact h.answer i
  | answerTasks i => exact h.answerTasks i
  | land i => exact h.land i hok

structure Converged (order : Order) (s : State) : Prop where
  places : ∀ x, ∀ c ∈ s.cache x, CachedOk s.server x c
  fields : ∀ x, ∀ c ∈ s.cache x, c.projectId.isSome → ∀ f, f.detailed → (c.fields f).isSome →
    c.get f = (s.server.session x).get f
  tasks : ∀ p, ∀ store ∈ s.stores p, store.loaded → store.tasks = s.server.tasks p
  sessions : ∀ p, ∀ store ∈ s.stores p, store.loaded →
    store.sessionIds = s.server.sessionIds order p none ∧ s.sessions store = s.server.sessionIds order p none
  taskSessions : ∀ p, ∀ store ∈ s.stores p, ∀ t ∈ store.loadedTaskSessionIds, ∀ x,
    s.isTaskSession p t x ↔ x ∈ s.server.sessionIds order p (some t)
  rows : ∀ x ∈ s.server.ids, s.Lists x → ∃ c ∈ s.cache x, ∀ f, f.listed → c.get f = (s.server.session x).get f

theorem mem_sessionIds : x ∈ s.server.sessionIds order p t ↔ x ∈ s.server.ids ∧ (s.server.session x).isIn p t := by
  simp only [Server.sessionIds, mem_map, mem_list]
  exact ⟨fun ⟨row, ⟨hx, hin, _⟩, hrow⟩ => hrow ▸ ⟨hx, hin⟩,
    fun ⟨hx, hin⟩ => ⟨(x, s.server.session x), ⟨hx, hin, rfl⟩, rfl⟩⟩

section

variable (h : Inv order s) (hmessages : s.messages = []) (hrequests : s.requests = [])

include h hmessages hrequests

theorem Inv.current (hx : x ∈ s.server.ids) (hneeds : s.Needs x f) : s.Current x f := by
  obtain hc | (⟨m, hm, -⟩ | ⟨r, hr, -⟩) | hb := h.fields x hx f hneeds
  · exact hc
  · exact absurd (hmessages ▸ hm) not_mem_nil
  · exact absurd (hrequests ▸ hr) not_mem_nil
  · exact hb.elim

theorem Inv.row (hx : x ∈ s.server.ids) (hlists : s.Lists x) :
    ∃ c ∈ s.cache x, ∀ f, f.listed → c.get f = (s.server.session x).get f := by
  have hproject : (s.server.session x).place.projectId.isSome := by
    obtain ⟨-, p, hp, -⟩ := hlists
    exact Option.isSome_iff_exists.mpr ⟨p, hp⟩
  have hcurrent := fun f (hf : Field.listed f) => h.current hmessages hrequests hx ⟨hproject, .inr ⟨hf, hlists⟩⟩
  obtain ⟨c, hc, -⟩ := hcurrent .name rfl
  refine ⟨c, hc, fun f hf => ?_⟩
  obtain ⟨c', hc', hget⟩ := hcurrent f hf
  cases hc.symm.trans hc'
  exact hget

theorem Inv.item (hx : x ∈ s.server.ids) (hlists : s.Lists x) :
    ∃ c ∈ s.cache x, isSessionListItem c ∧ c.get .archivedAt = none := by
  obtain ⟨c, hc, hget⟩ := h.row hmessages hrequests hx hlists
  refine ⟨c, hc, ?_, ?_⟩
  · have hsome : ∀ f, f.listed → f.required → (c.get f).isSome := fun f hf hreq => by
      rw [hget f hf]
      exact (s.server.session x).fields.get_isSome f hreq
    simp only [isSessionListItem, Bool.and_eq_true]
    exact ⟨⟨⟨hsome _ rfl rfl, hsome _ rfl rfl⟩, hsome _ rfl rfl⟩, hsome _ rfl rfl⟩
  · rw [hget _ rfl]
    have := hlists.1
    simp only [Session.listed, Bool.and_eq_true, decide_eq_true_eq] at this
    exact this.2

theorem Inv.isTaskSession_iff {t : TaskId} (hstore : store ∈ s.stores p) (ht : t ∈ store.loadedTaskSessionIds) :
    s.isTaskSession p t x ↔ x ∈ s.server.sessionIds order p (some t) := by
  rw [mem_sessionIds]
  refine ⟨fun hshown => ?_, fun ⟨hx, hin⟩ => ?_⟩
  · cases hc : s.cache x with
    | none => simp [State.isTaskSession, hc] at hshown
    | some c =>
      rw [State.isTaskSession, hc, Option.any_some] at hshown
      simp only [Cached.isTaskSession, Bool.and_eq_true, Bool.not_eq_true', decide_eq_true_eq] at hshown
      obtain ⟨⟨⟨⟨hb, hp⟩, htask⟩, harchived⟩, hitem⟩ := hshown
      have hplace := h.cache x c hc
      rw [hplace.background] at hb
      rw [hplace.projectId] at hp
      rw [hplace.taskId] at htask
      have hcreated : (c.fields .createdAt).isSome := by
        simp only [isSessionListItem, Bool.and_eq_true] at hitem
        cases hfield : c.fields .createdAt with
        | none => simp [Cached.get, hfield] at hitem
        | some _ => rfl
      -- What was answered has all the list shows.
      have hcarried := (hplace.whole hcreated).2 .archivedAt rfl rfl
      obtain ⟨c', hc', hget⟩ := h.current hmessages hrequests hplace.mem ⟨by rw [hp]; rfl, .inl ⟨rfl, c, hc, hcarried⟩⟩
      cases hc.symm.trans hc'
      refine ⟨hplace.mem, Session.isIn_iff.mpr ⟨hp, htask, ?_⟩⟩
      simp [Session.listed, hb, ← hget, harchived]
  · obtain ⟨hp, htask, hlisted⟩ := Session.isIn_iff.mp hin
    have hlists : s.Lists x := by
      refine ⟨hlisted, p, hp, store, hstore, fun hnone => ?_, fun t' ht' => ?_⟩
      · cases htask.symm.trans hnone
      · cases htask.symm.trans ht'
        exact ht
    obtain ⟨c, hc, hitem, harchived⟩ := h.item hmessages hrequests hx hlists
    have hplace := h.cache x c hc
    rw [State.isTaskSession, Option.mem_def.mp hc, Option.any_some]
    simp [Cached.isTaskSession, hplace.projectId, hplace.taskId, hplace.background, hp, htask, hitem, harchived,
      Session.isIn_background hin]

end

/-- In every run in which no answer leaves behind what nothing more brings, what the browser has is the server's
once all is announced, handled and answered. -/
theorem cache_converges (order : Order) (server : Server) (es : List Event)
    (hok : Along (step order) (Ok order) (.init server) es)
    (hmessages : (exec (step order) (.init server) es).messages = [])
    (hrequests : (exec (step order) (.init server) es).requests = []) :
    Converged order (exec (step order) (.init server) es) := by
  have h : Inv order (exec (step order) (.init server) es) := hok.invariant (Inv order) Inv.step (Inv.init server)
  refine
    { places := h.cache, fields := fun x c hc hp f hf hcarried => ?_, tasks := fun p store hstore hloaded => ?_
      sessions := fun p store hstore hloaded => ?_
      taskSessions := fun p store hstore t ht x => h.isTaskSession_iff hmessages hrequests hstore ht
      rows := fun x hx hlists => h.row hmessages hrequests hx hlists }
  · have hplace := h.cache x c hc
    rw [hplace.projectId] at hp
    obtain ⟨c', hc', hget⟩ := h.current hmessages hrequests hplace.mem ⟨hp, .inl ⟨hf, c, hc, hcarried⟩⟩
    cases hc.symm.trans hc'
    exact hget
  · obtain heq | (⟨m, hm, -⟩ | ⟨r, hr, -⟩) | hb := h.tasks p store hstore hloaded
    · exact heq
    · exact absurd (hmessages ▸ hm) not_mem_nil
    · exact absurd (hrequests ▸ hr) not_mem_nil
    · exact hb.elim
  · have hids : store.sessionIds = (exec (step order) (.init server) es).server.sessionIds order p none := by
      obtain heq | (⟨m, hm, -⟩ | ⟨r, hr, -⟩) | hb := h.ids p store hstore hloaded
      · exact heq
      · exact absurd (hmessages ▸ hm) not_mem_nil
      · exact absurd (hrequests ▸ hr) not_mem_nil
      · exact hb.elim
    refine ⟨hids, ?_⟩
    rw [State.sessions, hids]
    refine filter_eq_self.mpr fun x hx => ?_
    obtain ⟨hx, hin⟩ := mem_sessionIds.mp hx
    obtain ⟨hp, htask, hlisted⟩ := Session.isIn_iff.mp hin
    have hlists : (exec (step order) (.init server) es).Lists x :=
      ⟨hlisted, p, hp, store, hstore, fun _ => hloaded, fun t ht => (nomatch (htask.symm.trans ht))⟩
    obtain ⟨c, hc, hitem, harchived⟩ := h.item hmessages hrequests hx hlists
    rw [Option.mem_def.mp hc, Option.any_some, hitem, harchived]
    rfl

/-- A session's fields in the examples. -/
def fieldsOf (state : String) : Fields where
  get f := if f.required then some "1" else if f = .state then some state else none
  get_isSome f hf := by simp [hf]

def exampleServer : Server where
  ids := [0, 1]
  nextId := 2
  session x := ⟨⟨some 1, if x = 0 then none else some 7, none, false⟩, fieldsOf "idle"⟩
  tasks _ := [⟨7, "Fix it"⟩]
  fresh := by decide

def unordered : Order := fun _ _ => true

theorem cache_converges_joined : Converged unordered (exec (step unordered) (.init exampleServer)
      [.load 1, .answer 0, .answerTasks 0, .land 0, .expand 1 7, .answer 0, .land 0, .loadDetail 0,
        .change 0 (fieldsOf "running"), .announce 0, .handle, .answer 0, .land 0, .answer 0, .answerTasks 0, .land 0,
        .answer 0, .land 0]) :=
  cache_converges unordered exampleServer _ (by decide) (by decide) (by decide)

def staleRun : List Event :=
  [.load 1, .answer 0, .answerTasks 0, .land 0, .loadDetail 0, .answer 0, .change 0 (fieldsOf "running"), .announce 0,
    .handle, .land 0, .answer 0, .answerTasks 0, .land 0]

/-- The detail was answered before the change, and the announcement of the change joins it. -/
theorem joined_detail_stale : ¬∀ (order : Order) (server : Server) (es : List Event),
      (exec (step order) (.init server) es).messages = [] → (exec (step order) (.init server) es).requests = [] →
        Converged order (exec (step order) (.init server) es) := by
  intro h
  have hstate : ∀ c ∈ (exec (step unordered) (.init exampleServer) staleRun).cache 0, c.projectId.isSome →
      (c.fields .state).isSome →
        c.get .state = ((exec (step unordered) (.init exampleServer) staleRun).server.session 0).get .state :=
    fun c hc hp hcarried =>
      (h unordered exampleServer staleRun (by decide) (by decide)).fields 0 c hc hp .state rfl hcarried
  exact absurd hstate (by decide)

end

end Reins.SessionCache
