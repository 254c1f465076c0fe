import Reins.Backend.CodeReview
import Reins.Lib.Places
import Reins.Lib.Run

/-!
# Code review commands (`backend/src/models/code-reviews.ts`, `code-review-store.ts`, `models/code-review-submission.ts`)

The `code_reviews` table, the project's commands over it, each in one transaction, and submissions, which
wait for the session's runtime between reading a review and consuming it. Beside them anyone may keep a
detached review, change it and save it at any time. A row is the review `fromRow` restores from it. What
the environment chose is in the event: times, `randomUUID`'s ids and what `reviewAnchorFromPatch` made of a
patch.
-/

namespace Reins.CodeReviews

open Places Schema Throwing Utf List

abbrev ReviewId := JsString
abbrev ProjectId := Nat
abbrev TaskId := Nat
abbrev SessionId := JsString

structure CodeReview where
  id : ReviewId
  projectId : ProjectId
  taskId : Option TaskId
  revision : Nat
  createdAt : JsString
  updatedAt : JsString
  annotations : List ReviewAnnotation
  deriving DecidableEq

structure Task where
  id : TaskId
  projectId : ProjectId
  deriving DecidableEq

structure Session where
  id : SessionId
  projectId : Option ProjectId
  taskId : Option TaskId
  deriving DecidableEq

/-- The tables the commands read, and the reviews. -/
structure Db where
  projects : List ProjectId
  tasks : List Task
  sessions : List Session
  codeReviews : List CodeReview
  given : List ReviewId
  deriving DecidableEq

inductive Thrown
  | codeReviewError (error : CodeReviewError)
  | codeReviewRevisionConflictError (message : JsString)
  | error (message : JsString)
  deriving DecidableEq

abbrev DbM := EStateM Thrown Db

def refuse {α : Type} (message : JsString) (kind : CodeReviewErrorKind) : DbM α :=
  throw (.codeReviewError ⟨message, kind⟩)

/-! ## `code-review-store.ts` -/

def number (n : Nat) : JsString := js (toString n)

def revisionConflict (id : ReviewId) (expectedRevision actualRevision : Nat) : JsString :=
  js "Code review " ++ id ++ js " revision conflict: expected " ++ number expectedRevision ++
    js ", found " ++ number actualRevision

def Db.insert (db : Db) (row : CodeReview) : Db :=
  { db with codeReviews := db.codeReviews ++ [row], given := row.id :: db.given }

/-- The table's constraints: one primary key, one review a scope, and its project and task there. -/
def createCodeReview (id : ReviewId) (projectId : ProjectId) (taskId : Option TaskId)
    (now : JsString) : DbM CodeReview := do
  let db ← get
  if db.codeReviews.any fun row => row.id = id || row.projectId = projectId && row.taskId = taskId then
    throw (.error (js "UNIQUE constraint failed"))
  else if projectId ∉ db.projects ∨ ∃ task ∈ taskId, task ∉ db.tasks.map (·.id) then
    throw (.error (js "FOREIGN KEY constraint failed"))
  else
    let row : CodeReview :=
      { id, projectId, taskId, revision := 0, createdAt := now, updatedAt := now, annotations := [] }
    set (db.insert row)
    return row

def getCodeReview (id : ReviewId) : DbM (Option CodeReview) := do
  let db ← get
  return db.codeReviews.find? (·.id = id)

def getOpenCodeReview (projectId : ProjectId) (taskId : Option TaskId) : DbM (Option CodeReview) := do
  let db ← get
  return db.codeReviews.find? fun row => row.projectId = projectId && row.taskId = taskId

def CodeReview.isAt (id : ReviewId) (revision : Nat) (row : CodeReview) : Bool := row.id = id && row.revision = revision

def CodeReview.saved (annotations : List ReviewAnnotation) (now : JsString) (row : CodeReview) :
    CodeReview :=
  { row with annotations, revision := row.revision + 1, updatedAt := now }

/-- The `UPDATE`. -/
def Db.write (db : Db) (id : ReviewId) (revision : Nat) (annotations : List ReviewAnnotation) (now : JsString) : Db :=
  { db with
    codeReviews := db.codeReviews.map fun row => if row.isAt id revision then row.saved annotations now else row }

def saveCodeReview (review : CodeReview) (now : JsString) : DbM (Option CodeReview) := do
  let db ← get
  match db.codeReviews.find? (·.isAt review.id review.revision) with
  | some row =>
    set (db.write review.id review.revision review.annotations now)
    return some (row.saved review.annotations now)
  | none =>
    match db.codeReviews.find? (·.id = review.id) with
    | none => return none
    | some current =>
      throw (.codeReviewRevisionConflictError (revisionConflict review.id review.revision current.revision))

def Db.remove (db : Db) (gone : CodeReview → Bool) : Db := { db with codeReviews := db.codeReviews.filter (! gone ·) }

def acceptCodeReviewSubmission (review : CodeReview) (text : JsString) : DbM JsString := do
  let db ← get
  match db.codeReviews.find? (·.isAt review.id review.revision) with
  | some _ =>
    set (db.remove (·.isAt review.id review.revision))
    return text
  | none =>
    match db.codeReviews.find? (·.id = review.id) with
    | none => throw (.error (js "Code review " ++ review.id ++ js " no longer exists"))
    | some current =>
      throw (.codeReviewRevisionConflictError (revisionConflict review.id review.revision current.revision))

def deleteCodeReview (id : ReviewId) : DbM Bool := do
  let db ← get
  set (db.remove (·.id = id))
  return db.codeReviews.any (·.id = id)

/-! ## `ProjectCodeReviews` -/

structure ExpectedCodeReview where
  id : ReviewId
  revision : Nat
  deriving DecidableEq

structure AddCodeReviewAnnotationCommand where
  taskId : Option TaskId
  expectedReview : Option ExpectedCodeReview
  annotation : NewReviewAnnotation

structure NewReviewComment where
  path : JsString
  side : ReviewSide
  startLine : Int
  endLine : Int
  filePatch : JsString
  body : JsString

structure AddCodeReviewCommentCommand where
  taskId : Option TaskId
  expectedReview : Option ExpectedCodeReview
  comment : NewReviewComment
  author : JsString

structure DeleteCodeReviewCommentCommand where
  taskId : Option TaskId
  expectedReview : ExpectedCodeReview
  commentId : JsString

def ensureScope (projectId : ProjectId) : Option TaskId → DbM Unit
  | none => pure ()
  | some taskId => do
    let db ← get
    if (db.tasks.find? (·.id = taskId)).any (·.projectId = projectId) then pure ()
    else refuse (js "Code review task scope not found") .notFound

def getReview (projectId : ProjectId) (taskId : Option TaskId) (reviewId : ReviewId) : DbM CodeReview := do
  ensureScope projectId taskId
  match ← getCodeReview reviewId with
  | some review =>
    if review.projectId ≠ projectId ∨ review.taskId ≠ taskId then
      refuse (js "Code review does not belong to the requested scope") .conflict
    else pure review
  | none => refuse (js "Code review does not belong to the requested scope") .conflict

def expectRevision (review : CodeReview) (expectedRevision : Nat) : DbM Unit :=
  if review.revision ≠ expectedRevision then
    refuse (js "Code review revision conflict: expected " ++ number expectedRevision ++ js ", found " ++
      number review.revision) .conflict
  else pure ()

def getExpected (projectId : ProjectId) (taskId : Option TaskId) (expected : ExpectedCodeReview) : DbM CodeReview := do
  let review ← getReview projectId taskId expected.id
  expectRevision review expected.revision
  return review

def resolveReview (projectId : ProjectId) (command : AddCodeReviewAnnotationCommand)
    (uuid : ReviewId) (now : JsString) : DbM (CodeReview × Bool) :=
  match command.expectedReview with
  | some expected => do
    let review ← getExpected projectId command.taskId expected
    return (review, false)
  | none => do
    match ← getOpenCodeReview projectId command.taskId with
    | some existing => return (existing, false)
    | none =>
      let review ← createCodeReview uuid projectId command.taskId now
      return (review, true)

def CodeReview.run (review : CodeReview) (command : Command) : DbM CodeReview :=
  match command.run review.annotations with
  | .ok _ annotations => pure { review with annotations }
  | .error error _ => throw (.codeReviewError error)

def saveExisting (review : CodeReview) (now : JsString) : DbM CodeReview := do
  match ← saveCodeReview review now with
  | some saved => pure saved
  | none => refuse (js "Code review " ++ review.id ++ js " no longer exists") .conflict

/-- The `catch` around a transaction. -/
def translateConflict {α : Type} (m : DbM α) : DbM α := fun db =>
  match m db with
  | .error (.codeReviewRevisionConflictError message) db' => .error (.codeReviewError ⟨message, .conflict⟩) db'
  | result => result

def addMutation (projectId : ProjectId) (command : AddCodeReviewAnnotationCommand)
    (uuid : ReviewId) (now : JsString) : DbM (CodeReview × Bool) := do
  ensureScope projectId command.taskId
  translateConflict <| transaction do
    let (review, created) ← resolveReview projectId command uuid now
    let review ← review.run (.add command.annotation)
    let saved ← saveExisting review now
    return (saved, created)

/-- The code units `String.prototype.trim` takes off. -/
def isWhiteSpace (u : UInt16) : Bool :=
  0x09 ≤ u && u ≤ 0x0D || u = 0x20 || u = 0xA0 || u = 0x1680 || 0x2000 ≤ u && u ≤ 0x200A ||
    u = 0x2028 || u = 0x2029 || u = 0x202F || u = 0x205F || u = 0x3000 || u = 0xFEFF

def trim (s : JsString) : JsString := ((s.dropWhile isWhiteSpace).reverse.dropWhile isWhiteSpace).reverse

/-- The ids and the time of what `addComment` makes. -/
structure Stamps where
  annotationId : JsString
  entryId : JsString
  createdAt : JsString

def commentAnnotation (command : AddCodeReviewCommentCommand)
    (anchor : Except JsString ReviewAnchorEvidence) (stamps : Stamps) :
    Except CodeReviewError NewReviewAnnotation :=
  let body := trim command.comment.body
  if body = [] then .error ⟨js "Review comment body cannot be empty", .invalid⟩
  else match anchor with
    | .error message => .error ⟨message, .invalid⟩
    | .ok anchor => .ok
      { id := stamps.annotationId, anchor
        entry :=
          { id := stamps.entryId, author := command.author, body, createdAt := stamps.createdAt
            sourceKey := none, sourceUrl := none } }

def deleteMutation (projectId : ProjectId) (command : DeleteCodeReviewCommentCommand)
    (now : JsString) : DbM CodeReview :=
  translateConflict <| transaction do
    let review ← getExpected projectId command.taskId command.expectedReview
    let review ← review.run (.deleteComment command.commentId)
    saveExisting review now

/-! ## `CodeReviewSubmission` -/

structure SubmitCodeReviewCommand where
  taskId : Option TaskId
  reviewId : ReviewId
  expectedRevision : Nat
  sessionId : SessionId

/-- What is said of one place of the diff. -/
structure Location where
  key : List Char
  anchor : ReviewAnchorEvidence
  entries : List ReviewEntry

def ReviewSide.text : ReviewSide → JsString
  | .old => js "old"
  | .new => js "new"

def ReviewDiffLineKind.text : ReviewDiffLineKind → JsString
  | .context => js "context"
  | .addition => js "addition"
  | .deletion => js "deletion"

def ReviewDiffLine.json (line : ReviewDiffLine) : Json :=
  .obj [(js "kind", .str line.kind.text), (js "text", .str line.text)]

def ReviewAnchorEvidence.key (anchor : ReviewAnchorEvidence) : List Char :=
  Json.stringify (.arr [.str anchor.path, .str anchor.side.text, Json.ofInt anchor.startLine,
    .arr (anchor.lines.map (·.json))])

/-- One turn of the loop over the annotations; `locations` is a `Map`, in the order of its insertions. -/
def locate (locations : List Location) (a : ReviewAnnotation) : List Location :=
  if locations.any (·.key = a.anchor.key) then
    locations.map fun (location : Location) =>
      if location.key = a.anchor.key then
        { location with entries := location.entries ++ a.entries }
      else location
  else locations ++ [⟨a.anchor.key, a.anchor, a.entries⟩]

/-- `replace(/\n$/, "")`. -/
def withoutLastNewline (s : JsString) : JsString := if s.getLast? = some LF then s.dropLast else s

def join (separator : JsString) (parts : List JsString) : JsString := separator.intercalate parts

def ReviewEntry.comment (index : Nat) (entry : ReviewEntry) : JsString :=
  (if index = 0 then [] else js "↳ ") ++ entry.author ++ js ": " ++ entry.body

def Location.feedback (location : Location) : JsString :=
  let diff := join [LF] (((withoutLastNewline location.anchor.filePatch).splitOn LF).map (js "    " ++ ·))
  let comments := join [LF] (location.entries.mapIdx ReviewEntry.comment)
  location.anchor.path ++ js "\n\nDiff:\n" ++ diff ++ js "\n\n" ++ comments

def compileFeedback (annotations : List ReviewAnnotation) : JsString :=
  join (js "\n\n---\n\n") ((annotations.foldl locate []).map (·.feedback))

/-- `submit` up to its await: the review, and its feedback. -/
def prepareSubmission (projectId : ProjectId) (command : SubmitCodeReviewCommand) : DbM (CodeReview × JsString) := do
  let review ← getExpected projectId command.taskId ⟨command.reviewId, command.expectedRevision⟩
  if review.annotations.length = 0 then
    refuse (js "Code review has no saved comments") .invalid
  else
    let db ← get
    if (db.sessions.find? (·.id = command.sessionId)).any fun session =>
        session.projectId = some projectId && session.taskId = command.taskId then
      return (review, compileFeedback review.annotations)
    else refuse (js "Submission session does not belong to the review scope") .notFound

/-! ## Everyone at once -/

structure Detached where
  review : CodeReview
  loaded : List ReviewAnnotation
  commands : List Command

/-- A submission that waits for the runtime to admit its prompt, or has ended. -/
structure Submission where
  review : CodeReview
  feedback : JsString
  settled : Bool

variable {annotations : List ReviewAnnotation} {α : Type} {uuid : ReviewId} {command : SubmitCodeReviewCommand}
  {k i : Nat} {outcome : Except Thrown Unit} {d : Detached} {b : Submission}

inductive Success
  | saved (id : ReviewId) (commands : List Command)
  | submitted (id : ReviewId) (feedback : JsString)
  deriving DecidableEq

def Success.id : Success → ReviewId
  | .saved id _ => id
  | .submitted id _ => id

structure CodeReviewUpdated where
  projectId : ProjectId
  taskId : Option TaskId
  reviewId : ReviewId
  revision : Nat

structure State where
  db : Db
  detached : List Detached
  submissions : List Submission
  done : List Success
  broadcasts : List CodeReviewUpdated

def State.init : State :=
  { db := { projects := [], tasks := [], sessions := [], codeReviews := [], given := [] }
    detached := [], submissions := [], done := [], broadcasts := [] }

inductive Event
  | tables (projects : List ProjectId) (tasks : List Task) (sessions : List Session)
  /-- `deleteCodeReview`, or the cascade from its task or project. -/
  | deleteCodeReview (id : ReviewId)
  | createCodeReview (projectId : ProjectId) (taskId : Option TaskId) (uuid : ReviewId) (now : JsString)
  /-- `getCodeReview`, by someone who keeps what it gives. -/
  | load (id : ReviewId)
  | mutate (i : Nat) (command : Command)
  | save (i : Nat) (now : JsString)
  | add (projectId : ProjectId) (command : AddCodeReviewAnnotationCommand) (uuid : ReviewId) (now : JsString)
  | addComment (projectId : ProjectId) (command : AddCodeReviewCommentCommand)
      (anchor : Except JsString ReviewAnchorEvidence) (stamps : Stamps) (uuid : ReviewId)
      (now : JsString)
  | deleteComment (projectId : ProjectId) (command : DeleteCodeReviewCommentCommand) (now : JsString)
  | submit (projectId : ProjectId) (command : SubmitCodeReviewCommand)
  /-- `Sessions.submit` of the `k`-th submission settled. -/
  | admitted (k : Nat) (outcome : Except Thrown Unit)

abbrev Step := EStateM Thrown State

def onDb {α : Type} (m : DbM α) : Step α := fun s =>
  match m s.db with
  | .ok a db => .ok a { s with db }
  | .error e db => .error e { s with db }

def CodeReview.updated (review : CodeReview) : CodeReviewUpdated :=
  { projectId := review.projectId, taskId := review.taskId, reviewId := review.id,
    revision := review.revision }

def succeeded (saved : CodeReview) (commands : List Command) : Step Unit :=
  modify fun s => { s with
    done := s.done ++ [.saved saved.id commands], broadcasts := s.broadcasts ++ [saved.updated] }

def State.detach (s : State) (review : CodeReview) : State :=
  { s with detached := s.detached ++ [{ review, loaded := review.annotations, commands := [] }] }

def Detached.mutated (d : Detached) (command : Command) (annotations : List ReviewAnnotation) :
    Detached :=
  { d with review := { d.review with annotations }, commands := d.commands ++ [command] }

def mutate (i : Nat) (command : Command) : Step Unit := fun s =>
  match s.detached[i]? with
  | none => .ok () s
  | some d =>
    match command.run d.review.annotations with
    | .ok _ annotations => .ok () { s with detached := s.detached.set i (d.mutated command annotations) }
    | .error error annotations => .error (.codeReviewError error) { s with
        detached := s.detached.set i { d with review := { d.review with annotations } } }

def save (i : Nat) (now : JsString) : Step Unit := do
  let s ← get
  match s.detached[i]? with
  | none => pure ()
  | some d =>
    match ← onDb (saveCodeReview d.review now) with
    | none => pure ()
    | some saved =>
      succeeded saved d.commands
      modify (·.detach saved)

def ProjectCodeReviews.addAnnotation (projectId : ProjectId) (command : AddCodeReviewAnnotationCommand)
    (uuid : ReviewId) (now : JsString) : Step Unit := do
  let (saved, _) ← onDb (addMutation projectId command uuid now)
  succeeded saved [.add command.annotation]

def ProjectCodeReviews.addComment (projectId : ProjectId) (command : AddCodeReviewCommentCommand)
    (anchor : Except JsString ReviewAnchorEvidence) (stamps : Stamps) (uuid : ReviewId)
    (now : JsString) : Step Unit :=
  match commentAnnotation command anchor stamps with
  | .error error => throw (.codeReviewError error)
  | .ok input =>
    ProjectCodeReviews.addAnnotation projectId
      { taskId := command.taskId, expectedReview := command.expectedReview,
        annotation := input } uuid now

def ProjectCodeReviews.deleteComment (projectId : ProjectId) (command : DeleteCodeReviewCommentCommand)
    (now : JsString) : Step Unit := do
  let saved ← onDb (deleteMutation projectId command now)
  succeeded saved [.deleteComment command.commentId]

def CodeReviewSubmission.submit (projectId : ProjectId) (command : SubmitCodeReviewCommand) : Step Unit := do
  let (review, feedback) ← onDb (prepareSubmission projectId command)
  modify fun s => { s with submissions := s.submissions ++ [{ review, feedback, settled := false }] }

/-- `submit` after its await. -/
def CodeReviewSubmission.admitted (k : Nat) (outcome : Except Thrown Unit) : Step Unit := do
  let s ← get
  match s.submissions[k]? with
  | none => pure ()
  | some b =>
    if b.settled then pure ()
    else
      set { s with submissions := s.submissions.set k { b with settled := true } }
      match outcome with
      | .error error => throw error
      | .ok () =>
        let text ← onDb (acceptCodeReviewSubmission b.review b.feedback)
        modify fun s => { s with
          done := s.done ++ [.submitted b.review.id text]
          broadcasts := s.broadcasts ++ [{ b.review.updated with revision := b.review.revision + 1 }] }

/-- `randomUUID` gives no id twice. -/
def ifNew (uuid : ReviewId) (m : Step Unit) : Step Unit := do
  let s ← get
  if uuid ∈ s.db.given then pure () else m

def act : Event → Step Unit
  | .tables projects tasks sessions => modify fun s => { s with db := { s.db with projects, tasks, sessions } }
  | .deleteCodeReview id => do
    let _ ← onDb (deleteCodeReview id)
  | .createCodeReview projectId taskId uuid now => ifNew uuid do
    let review ← onDb (createCodeReview uuid projectId taskId now)
    modify (·.detach review)
  | .load id => do
    match ← onDb (getCodeReview id) with
    | none => pure ()
    | some review => modify (·.detach review)
  | .mutate i command => CodeReviews.mutate i command
  | .save i now => CodeReviews.save i now
  | .add projectId command uuid now => ifNew uuid <| ProjectCodeReviews.addAnnotation projectId command uuid now
  | .addComment projectId command anchor stamps uuid now =>
    ifNew uuid (ProjectCodeReviews.addComment projectId command anchor stamps uuid now)
  | .deleteComment projectId command now => ProjectCodeReviews.deleteComment projectId command now
  | .submit projectId command => CodeReviewSubmission.submit projectId command
  | .admitted k outcome => CodeReviewSubmission.admitted k outcome

def step (s : State) (e : Event) : State :=
  match act e s with
  | .ok _ s' => s'
  | .error _ s' => s'

/-! ## What is asked of it -/

def Event.expected (s : State) : Event → Option ExpectedCodeReview
  | .save i _ => s.detached[i]?.map fun d => ⟨d.review.id, d.review.revision⟩
  | .add _ command _ _ => command.expectedReview
  | .addComment _ command _ _ _ _ => command.expectedReview
  | .deleteComment _ command _ => some command.expectedReview
  | .admitted k _ => s.submissions[k]?.map fun b => ⟨b.review.id, b.review.revision⟩
  | _ => none

def runAll : List Command → List ReviewAnnotation → Option (List ReviewAnnotation)
  | [], annotations => some annotations
  | command :: commands, annotations =>
    match command.run annotations with
    | .ok _ annotations' => runAll commands annotations'
    | .error _ _ => none

inductive Standing
  | pending (revision : Nat) (annotations : List ReviewAnnotation)
  | submitted

/-- What a success makes of the review the one before it left. -/
def Success.after : Success → Standing → Option Standing
  | .saved _ commands, .pending revision annotations => (runAll commands annotations).map (.pending (revision + 1))
  | .submitted _ feedback, .pending _ annotations =>
    if feedback = compileFeedback annotations then some .submitted else none
  | _, .submitted => none

/-- What the successes of a review, in order, make of a new one. -/
def history (successes : List Success) : Option Standing :=
  successes.foldlM (fun standing success => success.after standing) (.pending 0 [])

def State.successes (s : State) (id : ReviewId) : List Success := s.done.filter (·.id = id)

structure Reviewed (s : State) : Prop where
  sound : ∀ row ∈ s.db.codeReviews, Sound row.annotations
  detached : ∀ d ∈ s.detached, Sound d.review.annotations
  past : ∀ id, ∃ standing, history (s.successes id) = some standing ∧
    ∀ row ∈ s.db.codeReviews, row.id = id → standing = .pending row.revision row.annotations

structure Steps (s : State) (e : Event) : Prop where
  thrown : ∀ error s', act e s = .error error s' → s'.db = s.db ∧ s'.detached = s.detached ∧ s'.done = s.done
  /-- From 0 where the review is made by the command itself. -/
  raised : ∀ id commands, (step s e).done = s.done ++ [.saved id commands] →
    ∃ revision, (∀ row ∈ s.db.codeReviews, row.id = id → row.revision = revision) ∧
      ((∀ row ∈ s.db.codeReviews, row.id ≠ id) → revision = 0) ∧
      ∃ row ∈ (step s e).db.codeReviews, row.id = id ∧ row.revision = revision + 1
  consumed : ∀ id feedback, (step s e).done = s.done ++ [.submitted id feedback] →
    ∀ row ∈ (step s e).db.codeReviews, row.id ≠ id
  expected : ∀ x ∈ e.expected s, ∀ success, (step s e).done = s.done ++ [success] →
    success.id = x.id ∧ ∃ row ∈ s.db.codeReviews, row.id = x.id ∧ row.revision = x.revision
  submitting : ∀ projectId command b, e = .submit projectId command → (step s e).submissions = s.submissions ++ [b] →
    b.review.id = command.reviewId ∧ b.review.revision = command.expectedRevision
  kept : ∀ row ∈ s.db.codeReviews, (∃ row' ∈ (step s e).db.codeReviews, row'.id = row.id) ∨
    (∃ feedback, (step s e).done = s.done ++ [.submitted row.id feedback]) ∨
    e = .deleteCodeReview row.id

/-! ## What each command does to the table -/

variable {db db' : Db} {row review saved : CodeReview} {id : ReviewId} {revision : Nat}
  {annotations : List ReviewAnnotation} {now : JsString} {projectId : ProjectId}
  {taskId : Option TaskId}

theorem isAt_iff : row.isAt id revision = true ↔ row.id = id ∧ row.revision = revision := by
  simp [CodeReview.isAt]

theorem find_id {rows : List CodeReview} (h : rows.find? (·.id = id) = some row) : row ∈ rows ∧ row.id = id :=
  ⟨mem_of_find?_eq_some h, by simpa using find?_some h⟩

theorem reads_refuse (message : JsString) (kind : CodeReviewErrorKind) :
    Reads (refuse message kind : DbM α) := reads_throw _

theorem ensureScope_reads (projectId : ProjectId) (taskId : Option TaskId) : Reads (ensureScope projectId taskId) := by
  cases taskId with
  | none => exact reads_pure _
  | some taskId =>
    refine reads_bind reads_get fun db => ?_
    split
    · exact reads_pure _
    · exact reads_refuse _ _

theorem getCodeReview_reads (id : ReviewId) : Reads (getCodeReview id) := reads_bind reads_get fun _ => reads_pure _

theorem getReview_reads (projectId : ProjectId) (taskId : Option TaskId) (id : ReviewId) :
    Reads (getReview projectId taskId id) := by
  refine reads_bind (ensureScope_reads _ _) fun _ => reads_bind (getCodeReview_reads _) fun found => ?_
  split
  · split
    · exact reads_refuse _ _
    · exact reads_pure _
  · exact reads_refuse _ _

theorem expectRevision_reads (review : CodeReview) (revision : Nat) : Reads (expectRevision review revision) := by
  unfold expectRevision
  split
  · exact reads_refuse _ _
  · exact reads_pure _

theorem getExpected_reads (projectId : ProjectId) (taskId : Option TaskId)
    (expected : ExpectedCodeReview) : Reads (getExpected projectId taskId expected) :=
  reads_bind (getReview_reads _ _ _) fun _ => reads_bind (expectRevision_reads _ _) fun _ => reads_pure _

theorem getReview_ok (h : getReview projectId taskId id db = .ok review db') :
    review ∈ db.codeReviews ∧ review.id = id := by
  obtain ⟨_, db₁, hscope, h⟩ := bind_ok h
  cases (ensureScope_reads _ _).ok hscope
  obtain ⟨found, _, hget, h⟩ := bind_ok h
  cases hget
  cases hf : db.codeReviews.find? (·.id = id) with
  | none =>
    simp only [hf] at h
    cases h
  | some row =>
    simp only [hf] at h
    split at h
    · cases h
    · cases h
      exact find_id hf

theorem getExpected_ok {expected : ExpectedCodeReview} (h : getExpected projectId taskId expected db = .ok review db') :
    review ∈ db.codeReviews ∧ review.id = expected.id ∧ review.revision = expected.revision := by
  obtain ⟨row, db₁, hget, h⟩ := bind_ok h
  cases (getReview_reads _ _ _).ok hget
  obtain ⟨_, db₂, hrev, h⟩ := bind_ok h
  cases (expectRevision_reads _ _).ok hrev
  cases h
  obtain ⟨hmem, hid⟩ := getReview_ok hget
  refine ⟨hmem, hid, ?_⟩
  unfold expectRevision at hrev
  split at hrev
  · cases hrev
  next hne =>
    exact not_not.mp hne

theorem createCodeReview_ok (h : createCodeReview id projectId taskId now db = .ok review db') :
    review.id = id ∧ review.revision = 0 ∧ review.annotations = [] ∧ db' = db.insert review := by
  obtain ⟨_, _, hget, h⟩ := bind_ok h
  cases hget
  split at h
  · cases h
  split at h
  · cases h
  · cases h
    exact ⟨rfl, rfl, rfl, rfl⟩

theorem saveCodeReview_ok {found : Option CodeReview} (h : saveCodeReview review now db = .ok found db') :
    found = none ∧ db' = db ∨ ∃ row ∈ db.codeReviews, row.id = review.id ∧ row.revision = review.revision ∧
        found = some (row.saved review.annotations now) ∧
        db' = db.write review.id review.revision review.annotations now := by
  obtain ⟨_, _, hget, h⟩ := bind_ok h
  cases hget
  cases hf : db.codeReviews.find? (·.isAt review.id review.revision) with
  | none =>
    simp only [hf] at h
    cases hc : db.codeReviews.find? (·.id = review.id) with
    | none =>
      simp only [hc] at h
      cases h
      exact .inl ⟨rfl, rfl⟩
    | some current =>
      simp only [hc] at h
      cases h
  | some row =>
    simp only [hf] at h
    obtain ⟨_, _, hset, h⟩ := bind_ok h
    cases hset
    cases h
    obtain ⟨hid, hrevision⟩ := isAt_iff.mp (find?_some hf)
    exact .inr ⟨row, mem_of_find?_eq_some hf, hid, hrevision, rfl, rfl⟩

theorem total_set_db (db : Db) (a : α) : Total (do set db; return a : DbM α) := fun _ => ⟨a, db, rfl⟩

theorem saveCodeReview_atomic (review : CodeReview) (now : JsString) : Atomic (saveCodeReview review now) := by
  refine atomic_bind_of_reads reads_get fun db => ?_
  split
  · exact (total_set_db _ _).atomic
  split
  · exact (reads_pure _).atomic
  · exact (reads_throw _).atomic

theorem acceptCodeReviewSubmission_ok {text text' : JsString}
    (h : acceptCodeReviewSubmission review text db = .ok text' db') :
    text' = text ∧ db' = db.remove (·.isAt review.id review.revision) ∧
      ∃ row ∈ db.codeReviews, row.id = review.id ∧ row.revision = review.revision := by
  obtain ⟨_, _, hget, h⟩ := bind_ok h
  cases hget
  cases hf : db.codeReviews.find? (·.isAt review.id review.revision) with
  | none =>
    simp only [hf] at h
    cases hc : db.codeReviews.find? (·.id = review.id) with
    | none =>
      simp only [hc] at h
      cases h
    | some current =>
      simp only [hc] at h
      cases h
  | some row =>
    simp only [hf] at h
    obtain ⟨_, _, hset, h⟩ := bind_ok h
    cases hset
    cases h
    exact ⟨rfl, rfl, row, mem_of_find?_eq_some hf, isAt_iff.mp (find?_some hf)⟩

theorem acceptCodeReviewSubmission_atomic (review : CodeReview) (text : JsString) :
    Atomic (acceptCodeReviewSubmission review text) := by
  refine atomic_bind_of_reads reads_get fun db => ?_
  split
  · exact (total_set_db _ _).atomic
  split
  · exact (reads_throw _).atomic
  · exact (reads_throw _).atomic

/-- The end of a transaction: the mutation, and the save of what it left. -/
theorem run_saveExisting_ok {command : Command} {saved : CodeReview}
    (h : (do let review ← review.run command; saveExisting review now : DbM CodeReview) db = .ok saved db') :
    ∃ annotations, command.run review.annotations = .ok () annotations ∧ saved.id = review.id ∧
      db' = db.write review.id review.revision annotations now := by
  obtain ⟨changed, db₁, hrun, h⟩ := bind_ok h
  unfold CodeReview.run at hrun
  cases hc : command.run review.annotations with
  | error error left =>
    simp only [hc] at hrun
    cases hrun
  | ok _ annotations =>
    simp only [hc] at hrun
    cases hrun
    obtain ⟨found, db₂, hsave, h⟩ := bind_ok h
    rcases saveCodeReview_ok hsave with ⟨rfl, -⟩ | ⟨row, -, hid, -, rfl, rfl⟩
    · cases h
    · cases h
      exact ⟨annotations, rfl, hid, rfl⟩

theorem translateConflict_ok {m : DbM α} {a : α} (h : translateConflict m db = .ok a db') : m db = .ok a db' := by
  unfold translateConflict at h
  split at h
  · cases h
  · exact h

theorem atomic_translateConflict {m : DbM α} (hm : Atomic m) : Atomic (translateConflict m) := by
  intro s e s' h
  unfold translateConflict at h
  split at h
  next heq =>
    cases h
    exact hm _ _ _ heq
  · exact hm _ _ _ h

/-- The table a command goes on from: with the review it is to change. -/
def Resolved (db db₁ : Db) (expected : Option ExpectedCodeReview) (review : CodeReview) : Prop :=
  review ∈ db₁.codeReviews ∧ (∀ x ∈ expected, review.id = x.id ∧ review.revision = x.revision) ∧
    (db₁ = db ∨ expected = none ∧ review.id ∉ db.given ∧ review.revision = 0 ∧
      review.annotations = [] ∧ db₁ = db.insert review)

theorem resolveReview_ok {command : AddCodeReviewAnnotationCommand}
    {resolved : CodeReview × Bool} (hnew : uuid ∉ db.given)
    (h : resolveReview projectId command uuid now db = .ok resolved db') :
    Resolved db db' command.expectedReview resolved.1 := by
  unfold resolveReview at h
  cases he : command.expectedReview with
  | some expected =>
    simp only [he] at h
    obtain ⟨review, db₁, hget, h⟩ := bind_ok h
    cases (getExpected_reads _ _ _).ok hget
    cases h
    obtain ⟨hmem, hid, hrevision⟩ := getExpected_ok hget
    refine ⟨hmem, fun x hx => ?_, .inl rfl⟩
    cases hx
    exact ⟨hid, hrevision⟩
  | none =>
    simp only [he] at h
    obtain ⟨found, _, hget, h⟩ := bind_ok h
    cases hget
    cases hf : db.codeReviews.find? fun row => row.projectId = projectId && row.taskId = command.taskId with
    | some existing =>
      simp only [hf] at h
      cases h
      exact ⟨mem_of_find?_eq_some hf, nofun, .inl rfl⟩
    | none =>
      simp only [hf] at h
      obtain ⟨review, db₁, hcreate, h⟩ := bind_ok h
      cases h
      obtain ⟨hid, hrevision, hannotations, rfl⟩ := createCodeReview_ok hcreate
      refine ⟨mem_append_right _ (mem_singleton_self _), nofun, .inr ?_⟩
      exact ⟨rfl, hid ▸ hnew, hrevision, hannotations, rfl⟩

theorem addMutation_ok {command : AddCodeReviewAnnotationCommand} {saved : CodeReview × Bool} (hnew : uuid ∉ db.given)
    (h : addMutation projectId command uuid now db = .ok saved db') :
    ∃ db₁ review annotations, Resolved db db₁ command.expectedReview review ∧
      (Command.add command.annotation).run review.annotations = .ok () annotations ∧
      saved.1.id = review.id ∧ db' = db₁.write review.id review.revision annotations now := by
  obtain ⟨_, db₀, hscope, h⟩ := bind_ok h
  cases (ensureScope_reads _ _).ok hscope
  have h := transaction_ok.mp (translateConflict_ok h)
  obtain ⟨resolved, db₁, hresolve, h⟩ := bind_ok h
  obtain ⟨changed, db₂, hrun, h⟩ := bind_ok h
  obtain ⟨stored, db₃, hsave, h⟩ := bind_ok h
  cases h
  have hend : (do let review ← resolved.1.run (.add command.annotation)
                  saveExisting review now : DbM CodeReview) db₁ = .ok stored db' := by
    rw [bind_of_ok hrun]
    exact hsave
  obtain ⟨annotations, hcommand, hid, rfl⟩ := run_saveExisting_ok hend
  exact ⟨db₁, resolved.1, annotations, resolveReview_ok hnew hresolve, hcommand, hid, rfl⟩

theorem addMutation_atomic (projectId : ProjectId) (command : AddCodeReviewAnnotationCommand)
    (uuid : ReviewId) (now : JsString) : Atomic (addMutation projectId command uuid now) :=
  atomic_bind_of_reads (ensureScope_reads _ _) fun _ => atomic_translateConflict (atomic_transaction _)

theorem deleteMutation_ok {command : DeleteCodeReviewCommentCommand}
    (h : deleteMutation projectId command now db = .ok saved db') :
    ∃ review ∈ db.codeReviews, ∃ annotations,
      review.id = command.expectedReview.id ∧ review.revision = command.expectedReview.revision ∧
      (Command.deleteComment command.commentId).run review.annotations = .ok () annotations ∧
      saved.id = review.id ∧ db' = db.write review.id review.revision annotations now := by
  have h := transaction_ok.mp (translateConflict_ok h)
  obtain ⟨review, db₁, hget, h⟩ := bind_ok h
  cases (getExpected_reads _ _ _).ok hget
  obtain ⟨annotations, hcommand, hid, rfl⟩ := run_saveExisting_ok h
  obtain ⟨hmem, hexpected⟩ := getExpected_ok hget
  exact ⟨review, hmem, annotations, hexpected.1, hexpected.2, hcommand, hid, rfl⟩

theorem deleteMutation_atomic (projectId : ProjectId) (command : DeleteCodeReviewCommentCommand)
    (now : JsString) : Atomic (deleteMutation projectId command now) :=
  atomic_translateConflict (atomic_transaction _)

theorem prepareSubmission_reads (projectId : ProjectId) (command : SubmitCodeReviewCommand) :
    Reads (prepareSubmission projectId command) := by
  refine reads_bind (getExpected_reads _ _ _) fun review => ?_
  split
  · exact reads_refuse _ _
  refine reads_bind reads_get fun db => ?_
  split
  · exact reads_pure _
  · exact reads_refuse _ _

theorem prepareSubmission_ok {prepared : CodeReview × JsString}
    (h : prepareSubmission projectId command db = .ok prepared db') :
    prepared.1 ∈ db.codeReviews ∧ prepared.1.id = command.reviewId ∧ prepared.1.revision = command.expectedRevision ∧
      prepared.2 = compileFeedback prepared.1.annotations := by
  obtain ⟨review, db₁, hget, h⟩ := bind_ok h
  cases (getExpected_reads _ _ _).ok hget
  split at h
  · cases h
  obtain ⟨_, _, hdb, h⟩ := bind_ok h
  cases hdb
  split at h
  · cases h
    obtain ⟨hmem, hid, hrevision⟩ := getExpected_ok hget
    exact ⟨hmem, hid, hrevision, rfl⟩
  · cases h

/-! ## What a step does -/

variable {α : Type} {s s' : State} {e : Event} {m : DbM α} {a : α}

theorem onDb_ok (h : onDb m s = .ok a s') : ∃ db', m s.db = .ok a db' ∧ s' = { s with db := db' } := by
  unfold onDb at h
  cases hm : m s.db with
  | ok b db =>
    simp only [hm] at h
    cases h
    exact ⟨db, rfl, rfl⟩
  | error error db =>
    simp only [hm] at h
    cases h

theorem atomic_onDb (hm : Atomic m) : Atomic (onDb m) := by
  intro s error s' h
  unfold onDb at h
  cases hr : m s.db with
  | ok b db =>
    simp only [hr] at h
    cases h
  | error error' db =>
    simp only [hr] at h
    cases h
    rw [hm _ _ _ hr]

def State.raise (s : State) (db : Db) (row : CodeReview) (annotations : List ReviewAnnotation)
    (now : JsString) (commands : List Command) (broadcasts : List CodeReviewUpdated) : State :=
  { s with
    db := db.write row.id row.revision annotations now
    done := s.done ++ [.saved row.id commands]
    broadcasts }

inductive Moves (s : State) : Event → State → Prop
  | idle (e : Event) : Moves s e s
  | tables (projects : List ProjectId) (tasks : List Task) (sessions : List Session) :
      Moves s (.tables projects tasks sessions) { s with db := { s.db with projects, tasks, sessions } }
  | deleted (id : ReviewId) : Moves s (.deleteCodeReview id) { s with db := s.db.remove (·.id = id) }
  | created {projectId : ProjectId} {taskId : Option TaskId} {uuid : ReviewId} {now : JsString}
      {row : CodeReview} (hnew : uuid ∉ s.db.given)
      (hrow : row.id = uuid ∧ row.revision = 0 ∧ row.annotations = []) :
      Moves s (.createCodeReview projectId taskId uuid now) ({ s with db := s.db.insert row }.detach row)
  | loaded {id : ReviewId} {row : CodeReview} (hrow : row ∈ s.db.codeReviews) : Moves s (.load id) (s.detach row)
  | mutated {i : Nat} {d : Detached} {command : Command} {annotations : List ReviewAnnotation}
      (hd : s.detached[i]? = some d)
      (hrun : command.run d.review.annotations = .ok () annotations) :
      Moves s (.mutate i command) { s with detached := s.detached.set i (d.mutated command annotations) }
  | saved {i : Nat} {d : Detached} {row : CodeReview} {now : JsString}
      {broadcasts : List CodeReviewUpdated} (hd : s.detached[i]? = some d)
      (hrow : row ∈ s.db.codeReviews) (hid : row.id = d.review.id)
      (hrevision : row.revision = d.review.revision) :
      Moves s (.save i now) ((s.raise s.db row d.review.annotations now d.commands broadcasts).detach
          (row.saved d.review.annotations now))
  | changed {e : Event} {db : Db} {row : CodeReview} {command : Command}
      {annotations : List ReviewAnnotation} {now : JsString} {broadcasts : List CodeReviewUpdated}
      (hrow : Resolved s.db db (e.expected s) row)
      (hrun : command.run row.annotations = .ok () annotations) :
      Moves s e (s.raise db row annotations now [command] broadcasts)
  | prepared {projectId : ProjectId} {command : SubmitCodeReviewCommand} {row : CodeReview}
      (hrow : row ∈ s.db.codeReviews) (hid : row.id = command.reviewId)
      (hrevision : row.revision = command.expectedRevision) :
      Moves s (.submit projectId command)
        { s with submissions := s.submissions ++
          [{ review := row, feedback := compileFeedback row.annotations, settled := false }] }
  | settled {k : Nat} {b : Submission} {outcome : Except Thrown Unit} (hb : s.submissions[k]? = some b) :
      Moves s (.admitted k outcome) { s with submissions := s.submissions.set k { b with settled := true } }
  | submitted {k : Nat} {b : Submission} {row : CodeReview} {broadcasts : List CodeReviewUpdated}
      (hb : s.submissions[k]? = some b) (hrow : row ∈ s.db.codeReviews) (hid : row.id = b.review.id)
      (hrevision : row.revision = b.review.revision) :
      Moves s (.admitted k (.ok ()))
        { s with
          submissions := s.submissions.set k { b with settled := true }
          db := s.db.remove (·.isAt row.id row.revision)
          done := s.done ++ [.submitted row.id b.feedback]
          broadcasts }

theorem addAnnotation_moves {command : AddCodeReviewAnnotationCommand}
    (hnew : uuid ∉ s.db.given) (he : e.expected s = command.expectedReview)
    (h : ProjectCodeReviews.addAnnotation projectId command uuid now s = .ok () s') :
    Moves s e s' := by
  obtain ⟨saved, s₁, hdb, h⟩ := bind_ok h
  obtain ⟨db', hm, rfl⟩ := onDb_ok hdb
  obtain ⟨db₁, review, annotations, hresolved, hrun, hid, rfl⟩ := addMutation_ok hnew hm
  cases h
  rw [hid]
  exact .changed (he ▸ hresolved) hrun

theorem deleteComment_moves {command : DeleteCodeReviewCommentCommand}
    (h : ProjectCodeReviews.deleteComment projectId command now s = .ok () s') :
    Moves s (.deleteComment projectId command now) s' := by
  obtain ⟨saved, s₁, hdb, h⟩ := bind_ok h
  obtain ⟨db', hm, rfl⟩ := onDb_ok hdb
  obtain ⟨review, hmem, annotations, hid, hrevision, hrun, hsaved, rfl⟩ := deleteMutation_ok hm
  cases h
  rw [hsaved]
  refine .changed ⟨hmem, fun x hx => ?_, .inl rfl⟩ hrun
  cases hx
  exact ⟨hid, hrevision⟩

theorem save_moves (h : save i now s = .ok () s') : Moves s (.save i now) s' := by
  obtain ⟨_, _, hget, h⟩ := bind_ok h
  cases hget
  cases hd : s.detached[i]? with
  | none =>
    simp only [hd] at h
    cases h
    exact .idle _
  | some d =>
    simp only [hd] at h
    obtain ⟨found, s₁, hdb, h⟩ := bind_ok h
    obtain ⟨db', hm, rfl⟩ := onDb_ok hdb
    rcases saveCodeReview_ok hm with ⟨rfl, rfl⟩ | ⟨row, hmem, hid, hrevision, rfl, rfl⟩
    · cases h
      exact .idle _
    cases h
    rw [← hid, ← hrevision]
    exact .saved hd hmem hid hrevision

theorem mutate_moves {command : Command} (h : mutate i command s = .ok () s') : Moves s (.mutate i command) s' := by
  unfold mutate at h
  cases hd : s.detached[i]? with
  | none =>
    simp only [hd] at h
    cases h
    exact .idle _
  | some d =>
    simp only [hd] at h
    cases hc : command.run d.review.annotations with
    | ok _ annotations =>
      simp only [hc] at h
      cases h
      exact .mutated hd hc
    | error error left =>
      simp only [hc] at h
      cases h

theorem submit_ok (h : CodeReviewSubmission.submit projectId command s = .ok () s') :
    ∃ row ∈ s.db.codeReviews, row.id = command.reviewId ∧ row.revision = command.expectedRevision ∧
      s' = { s with submissions := s.submissions ++
        [{ review := row, feedback := compileFeedback row.annotations, settled := false }] } := by
  obtain ⟨prepared, s₁, hdb, h⟩ := bind_ok h
  obtain ⟨db', hm, rfl⟩ := onDb_ok hdb
  cases (prepareSubmission_reads _ _).ok hm
  obtain ⟨hmem, hid, hrevision, hfeedback⟩ := prepareSubmission_ok hm
  cases h
  refine ⟨prepared.1, hmem, hid, hrevision, ?_⟩
  rw [hfeedback]

theorem submit_moves (h : CodeReviewSubmission.submit projectId command s = .ok () s') :
    Moves s (.submit projectId command) s' := by
  obtain ⟨row, hmem, hid, hrevision, rfl⟩ := submit_ok h
  exact .prepared hmem hid hrevision

theorem admitted_ok (h : CodeReviewSubmission.admitted k outcome s = .ok () s') :
    s' = s ∨ outcome = .ok () ∧ ∃ b row broadcasts, s.submissions[k]? = some b ∧
      row ∈ s.db.codeReviews ∧ row.id = b.review.id ∧ row.revision = b.review.revision ∧
      s' = { s with
        submissions := s.submissions.set k { b with settled := true }
        db := s.db.remove (·.isAt row.id row.revision)
        done := s.done ++ [.submitted row.id b.feedback]
        broadcasts } := by
  obtain ⟨_, _, hget, h⟩ := bind_ok h
  cases hget
  cases hb : s.submissions[k]? with
  | none =>
    simp only [hb] at h
    cases h
    exact .inl rfl
  | some b =>
    simp only [hb] at h
    split at h
    · cases h
      exact .inl rfl
    obtain ⟨_, s₁, hset, h⟩ := bind_ok h
    cases hset
    cases outcome with
    | error error => cases h
    | ok =>
      obtain ⟨text, s₂, hdb, h⟩ := bind_ok h
      obtain ⟨db', hm, rfl⟩ := onDb_ok hdb
      obtain ⟨rfl, rfl, row, hmem, hid, hrevision⟩ := acceptCodeReviewSubmission_ok hm
      cases h
      rw [← hid, ← hrevision]
      exact .inr ⟨rfl, b, row, _, rfl, hmem, hid, hrevision, rfl⟩

theorem admitted_moves (h : CodeReviewSubmission.admitted k outcome s = .ok () s') :
    Moves s (.admitted k outcome) s' := by
  rcases admitted_ok h with rfl | ⟨rfl, b, row, broadcasts, hb, hmem, hid, hrevision, rfl⟩
  · exact .idle _
  · exact .submitted hb hmem hid hrevision

theorem ifNew_ok {m : Step Unit} (h : ifNew uuid m s = .ok () s') : s' = s ∨ uuid ∉ s.db.given ∧ m s = .ok () s' := by
  obtain ⟨_, _, hget, h⟩ := bind_ok h
  cases hget
  split at h
  · cases h
    exact .inl rfl
  next hnew =>
    exact .inr ⟨hnew, h⟩

theorem act_ok (h : act e s = .ok () s') : Moves s e s' := by
  cases e with
  | tables projects tasks sessions =>
    cases h
    exact .tables _ _ _
  | deleteCodeReview id =>
    obtain ⟨_, s₁, hdb, h⟩ := bind_ok h
    obtain ⟨db', hm, rfl⟩ := onDb_ok hdb
    cases hm
    cases h
    exact .deleted id
  | createCodeReview projectId taskId uuid now =>
    rcases ifNew_ok h with rfl | ⟨hnew, h⟩
    · exact .idle _
    obtain ⟨review, s₁, hdb, h⟩ := bind_ok h
    obtain ⟨db', hm, rfl⟩ := onDb_ok hdb
    obtain ⟨hid, hrevision, hannotations, rfl⟩ := createCodeReview_ok hm
    cases h
    exact .created hnew ⟨hid, hrevision, hannotations⟩
  | load id =>
    obtain ⟨found, s₁, hdb, h⟩ := bind_ok h
    obtain ⟨db', hm, rfl⟩ := onDb_ok hdb
    cases hm
    cases hf : s.db.codeReviews.find? (·.id = id) with
    | none =>
      simp only [hf] at h
      cases h
      exact .idle _
    | some row =>
      simp only [hf] at h
      cases h
      exact .loaded (find_id hf).1
  | mutate i command => exact mutate_moves h
  | save i now => exact save_moves h
  | add projectId command uuid now =>
    rcases ifNew_ok h with rfl | ⟨hnew, h⟩
    · exact .idle _
    · exact addAnnotation_moves hnew rfl h
  | addComment projectId command anchor stamps uuid now =>
    rcases ifNew_ok h with rfl | ⟨hnew, h⟩
    · exact .idle _
    unfold ProjectCodeReviews.addComment at h
    cases hc : commentAnnotation command anchor stamps with
    | error error =>
      simp only [hc] at h
      cases h
    | ok input =>
      simp only [hc] at h
      exact addAnnotation_moves hnew rfl h
  | deleteComment projectId command now => exact deleteComment_moves h
  | submit projectId command => exact submit_moves h
  | admitted k outcome => exact admitted_moves h

/-! ## What a throw leaves -/

theorem reads_getState : Reads (get : Step State) := reads_get

theorem total_modify (f : State → State) : Total (modify f : Step PUnit) := fun _ => ⟨_, _, rfl⟩

theorem atomic_ifNew (uuid : ReviewId) {m : Step Unit} (hm : Atomic m) : Atomic (ifNew uuid m) := by
  refine atomic_bind_of_reads reads_getState fun s => ?_
  split
  · exact (reads_pure _).atomic
  · exact hm

theorem createCodeReview_atomic (id : ReviewId) (projectId : ProjectId) (taskId : Option TaskId)
    (now : JsString) : Atomic (createCodeReview id projectId taskId now) := by
  refine atomic_bind_of_reads reads_get fun db => ?_
  split
  · exact (reads_throw _).atomic
  split
  · exact (reads_throw _).atomic
  · exact (total_set_db _ _).atomic

theorem addCommand_atomic (projectId : ProjectId) (command : AddCodeReviewAnnotationCommand)
    (uuid : ReviewId) (now : JsString) :
    Atomic <| ProjectCodeReviews.addAnnotation projectId command uuid now :=
  atomic_bind_total (atomic_onDb (addMutation_atomic _ _ _ _)) fun _ => total_modify _

theorem save_atomic (i : Nat) (now : JsString) : Atomic (save i now) := by
  refine atomic_bind_of_reads reads_getState fun s => ?_
  split
  · exact (reads_pure _).atomic
  refine atomic_bind_total (atomic_onDb (saveCodeReview_atomic _ _)) fun found => ?_
  split
  · exact fun s => ⟨_, _, rfl⟩
  · exact fun s => ⟨_, _, rfl⟩

theorem set_same {ds : List Detached} (h : ds[i]? = some d) : ds.set i d = ds := by
  obtain ⟨hlt, rfl⟩ := List.getElem?_eq_some_iff.mp h
  exact List.set_getElem_self hlt

theorem mutate_atomic (i : Nat) (command : Command) : Atomic (mutate i command) := by
  intro s error s' h
  unfold mutate at h
  cases hd : s.detached[i]? with
  | none =>
    simp only [hd] at h
    cases h
  | some d =>
    simp only [hd] at h
    cases hc : command.run d.review.annotations with
    | ok _ annotations =>
      simp only [hc] at h
      cases h
    | error error left =>
      simp only [hc] at h
      cases h
      rw [command.run_atomic _ _ _ hc, set_same hd]

theorem admitted_error {error : Thrown} (h : CodeReviewSubmission.admitted k outcome s = .error error s') :
    ∃ b, s.submissions[k]? = some b ∧
      s' = { s with submissions := s.submissions.set k { b with settled := true } } := by
  rcases bind_error h with h | ⟨_, _, hget, h⟩
  · cases h
  cases hget
  cases hb : s.submissions[k]? with
  | none =>
    simp only [hb] at h
    cases h
  | some b =>
    simp only [hb] at h
    split at h
    · cases h
    refine ⟨b, rfl, ?_⟩
    rcases bind_error h with h | ⟨_, s₁, hset, h⟩
    · cases h
    cases hset
    cases outcome with
    | error error => cases h; rfl
    | ok =>
      rcases bind_error h with h | ⟨text, s₂, hdb, h⟩
      · exact atomic_onDb (acceptCodeReviewSubmission_atomic _ _) _ _ _ h
      · cases h

theorem act_error {error : Thrown} (h : act e s = .error error s') :
    s' = s ∨ ∃ k outcome b, e = .admitted k outcome ∧ s.submissions[k]? = some b ∧
      s' = { s with submissions := s.submissions.set k { b with settled := true } } := by
  cases e with
  | admitted k outcome =>
    obtain ⟨b, hb, hs⟩ := admitted_error h
    exact .inr ⟨k, outcome, b, rfl, hb, hs⟩
  | tables projects tasks sessions => cases h
  | deleteCodeReview id =>
    exact .inl (atomic_bind_total (atomic_onDb (Total.atomic fun db => ⟨_, _, rfl⟩))
      (fun _ s => ⟨_, _, rfl⟩) s error s' h)
  | createCodeReview projectId taskId uuid now =>
    exact .inl (atomic_ifNew _ (atomic_bind_total (atomic_onDb (createCodeReview_atomic _ _ _ _))
      fun _ => total_modify _) s error s' h)
  | load id =>
    refine .inl (atomic_bind_total (atomic_onDb (getCodeReview_reads _).atomic) (fun found => ?_) s error s' h)
    split
    · exact fun s => ⟨_, _, rfl⟩
    · exact total_modify _
  | mutate i command => exact .inl (mutate_atomic i command s error s' h)
  | save i now => exact .inl (save_atomic i now s error s' h)
  | add projectId command uuid now => exact .inl (atomic_ifNew _ (addCommand_atomic _ _ _ _) s error s' h)
  | addComment projectId command anchor stamps uuid now =>
    refine .inl (atomic_ifNew _ ?_ s error s' h)
    unfold ProjectCodeReviews.addComment
    split
    · exact (reads_throw _).atomic
    · exact addCommand_atomic _ _ _ _
  | deleteComment projectId command now =>
    exact .inl (atomic_bind_total (atomic_onDb (deleteMutation_atomic _ _ _)) (fun _ => total_modify _) s error s' h)
  | submit projectId command =>
    exact .inl (atomic_bind_total (atomic_onDb (prepareSubmission_reads _ _).atomic)
      (fun _ => total_modify _) s error s' h)

theorem moves_step (s : State) (e : Event) : Moves s e (step s e) := by
  unfold step
  cases h : act e s with
  | ok _ s' => exact act_ok h
  | error error s' =>
    rcases act_error h with rfl | ⟨k, outcome, b, rfl, hb, rfl⟩
    · exact .idle e
    · exact .settled hb

/-! ## The invariant -/

/-- What was read of a review at a revision is what the table has of it, or the table is ahead. -/
def Current (db : Db) (id : ReviewId) (revision : Nat) (annotations : List ReviewAnnotation) : Prop :=
  id ∈ db.given ∧ ∀ row ∈ db.codeReviews, row.id = id →
    revision ≤ row.revision ∧ (row.revision = revision → row.annotations = annotations)

/-- What is kept outside the table stays true of it. -/
def Later (db db' : Db) : Prop :=
  ∀ id revision annotations, Current db id revision annotations → Current db' id revision annotations

structure Tidy (db : Db) : Prop where
  ids : ∀ row ∈ db.codeReviews, ∀ row' ∈ db.codeReviews, row'.id = row.id → row' = row
  given : ∀ row ∈ db.codeReviews, row.id ∈ db.given
  sound : ∀ row ∈ db.codeReviews, Sound row.annotations

structure Detached.Ok (db : Db) (d : Detached) : Prop where
  current : Current db d.review.id d.review.revision d.loaded
  run : runAll d.commands d.loaded = some d.review.annotations
  sound : Sound d.review.annotations

structure Submission.Ok (db : Db) (b : Submission) : Prop where
  current : Current db b.review.id b.review.revision b.review.annotations
  feedback : b.feedback = compileFeedback b.review.annotations

def Past (db : Db) (done : List Success) : Prop :=
  ∀ id, ∃ standing, history (done.filter (·.id = id)) = some standing ∧
    ∀ row ∈ db.codeReviews, row.id = id → standing = .pending row.revision row.annotations

structure Inv (s : State) : Prop where
  tidy : Tidy s.db
  done : ∀ success ∈ s.done, success.id ∈ s.db.given
  past : Past s.db s.done
  detached : ∀ d ∈ s.detached, d.Ok s.db
  submissions : ∀ b ∈ s.submissions, b.Ok s.db

theorem Later.refl (db : Db) : Later db db := fun _ _ _ => id

theorem Detached.Ok.later (h : d.Ok db) (hl : Later db db') : d.Ok db' := ⟨hl _ _ _ h.current, h.run, h.sound⟩

theorem Submission.Ok.later (h : b.Ok db) (hl : Later db db') : b.Ok db' := ⟨hl _ _ _ h.current, h.feedback⟩

/-! ### The table -/

theorem mem_write (h : row ∈ (db.write id revision annotations now).codeReviews) :
    ∃ old ∈ db.codeReviews, old.isAt id revision = true ∧ row = old.saved annotations now ∨
      old.isAt id revision = false ∧ row = old := by
  obtain ⟨old, hold, rfl⟩ := mem_map.mp h
  refine ⟨old, hold, ?_⟩
  split
  next hat =>
    exact .inl ⟨hat, rfl⟩
  next hat =>
    exact .inr ⟨Bool.not_eq_true _ ▸ hat, rfl⟩

theorem saved_mem_write (hrow : row ∈ db.codeReviews) (annotations : List ReviewAnnotation) (now : JsString) :
    row.saved annotations now ∈ (db.write row.id row.revision annotations now).codeReviews := by
  refine mem_map.mpr ⟨row, hrow, ?_⟩
  rw [if_pos (isAt_iff.mpr ⟨rfl, rfl⟩)]

theorem Tidy.insert (h : Tidy db) (hnew : row.id ∉ db.given) (hrow : row.annotations = []) : Tidy (db.insert row) := by
  refine ⟨?_, ?_, ?_⟩
  · intro a ha b hb hid
    rcases mem_append.mp ha with ha | ha <;> rcases mem_append.mp hb with hb | hb
    · exact h.ids a ha b hb hid
    · rw [mem_singleton.mp hb] at hid
      exact absurd (h.given a ha) (hid ▸ hnew)
    · rw [mem_singleton.mp ha] at hid
      exact absurd (h.given b hb) (hid.symm ▸ hnew)
    · rw [mem_singleton.mp ha, mem_singleton.mp hb]
  · intro a ha
    rcases mem_concat_cases ha with ha | rfl
    · exact mem_cons_of_mem _ (h.given a ha)
    · exact mem_cons_self
  · intro a ha
    rcases mem_append.mp ha with ha | ha
    · exact h.sound a ha
    · rw [mem_singleton.mp ha, hrow]
      exact sound_nil

theorem later_insert (hnew : row.id ∉ db.given) : Later db (db.insert row) := by
  intro id revision annotations h
  refine ⟨mem_cons_of_mem _ h.1, fun a ha hid => ?_⟩
  rcases mem_append.mp ha with ha | ha
  · exact h.2 a ha hid
  · rw [mem_singleton.mp ha] at hid
    exact absurd h.1 (hid ▸ hnew)

theorem Tidy.write (h : Tidy db) (hs : Sound annotations) (id : ReviewId) (revision : Nat) (now : JsString) :
    Tidy (db.write id revision annotations now) := by
  refine ⟨?_, ?_, ?_⟩
  · intro a ha b hb hid
    obtain ⟨x, hx, hax⟩ := mem_write ha
    obtain ⟨y, hy, hby⟩ := mem_write hb
    have hxy : y = x := by
      refine h.ids x hx y hy ?_
      rcases hax with ⟨-, rfl⟩ | ⟨-, rfl⟩ <;> rcases hby with ⟨-, rfl⟩ | ⟨-, rfl⟩ <;> exact hid
    subst hxy
    rcases hax with ⟨hat, rfl⟩ | ⟨hat, rfl⟩ <;> rcases hby with ⟨hat', rfl⟩ | ⟨hat', rfl⟩
    · rfl
    · cases hat.symm.trans hat'
    · cases hat.symm.trans hat'
    · rfl
  · intro a ha
    obtain ⟨x, hx, ⟨-, rfl⟩ | ⟨-, rfl⟩⟩ := mem_write ha
    · exact h.given x hx
    · exact h.given _ hx
  · intro a ha
    obtain ⟨x, hx, ⟨-, rfl⟩ | ⟨-, rfl⟩⟩ := mem_write ha
    · exact hs
    · exact h.sound _ hx

/-- A row that was updated is past every revision that was read of it. -/
theorem later_write (db : Db) (id : ReviewId) (revision : Nat) (annotations : List ReviewAnnotation) (now : JsString) :
    Later db (db.write id revision annotations now) := by
  intro id' revision' annotations' h
  refine ⟨h.1, fun a ha hid => ?_⟩
  obtain ⟨x, hx, ⟨-, rfl⟩ | ⟨-, rfl⟩⟩ := mem_write ha
  · have hle := (h.2 x hx hid).1
    refine ⟨Nat.le_succ_of_le hle, fun heq => ?_⟩
    have heq : x.revision + 1 = revision' := heq
    rw [← heq] at hle
    exact absurd hle (Nat.not_succ_le_self _)
  · exact h.2 _ hx hid

theorem Tidy.remove (h : Tidy db) (gone : CodeReview → Bool) : Tidy (db.remove gone) :=
  ⟨fun a ha b hb => h.ids a (mem_filter.mp ha).1 b (mem_filter.mp hb).1,
   fun a ha => h.given a (mem_filter.mp ha).1, fun a ha => h.sound a (mem_filter.mp ha).1⟩

theorem later_remove (db : Db) (gone : CodeReview → Bool) : Later db (db.remove gone) :=
  fun _ _ _ h => ⟨h.1, fun a ha => h.2 a (mem_filter.mp ha).1⟩

/-! ### What succeeded -/

variable {done : List Success} {commands : List Command}

theorem history_concat (successes : List Success) (success : Success) :
    history (successes ++ [success]) = (history successes).bind fun standing => success.after standing := by
  unfold history
  rw [foldlM_append]
  simp

theorem filter_concat_self (done : List Success) (success : Success) :
    (done ++ [success]).filter (·.id = success.id) = done.filter (·.id = success.id) ++ [success] := by
  simp

theorem filter_concat_other (done : List Success) {success : Success} (h : success.id ≠ id) :
    (done ++ [success]).filter (·.id = id) = done.filter (·.id = id) := by
  simp [h]

theorem Past.insert (h : Past db done) (hdone : ∀ success ∈ done, success.id ∈ db.given)
    (hnew : row.id ∉ db.given) (hrevision : row.revision = 0) (hrow : row.annotations = []) :
    Past (db.insert row) done := by
  intro id
  obtain ⟨standing, hhistory, hrows⟩ := h id
  refine ⟨standing, hhistory, fun a ha hid => ?_⟩
  rcases mem_append.mp ha with ha | ha
  · exact hrows a ha hid
  -- nothing succeeded on a review that was not there
  rw [mem_singleton.mp ha] at hid
  have hnone : done.filter (·.id = id) = [] := by
    refine filter_eq_nil_iff.mpr fun success hs heq => ?_
    rw [decide_eq_true_eq] at heq
    exact hnew (hid ▸ heq ▸ hdone success hs)
  rw [hnone] at hhistory
  rw [mem_singleton.mp ha, hrevision, hrow]
  exact (Option.some_inj.mp hhistory).symm

theorem Past.remove (h : Past db done) (gone : CodeReview → Bool) : Past (db.remove gone) done := by
  intro id
  obtain ⟨standing, hhistory, hrows⟩ := h id
  exact ⟨standing, hhistory, fun a ha => hrows a (mem_filter.mp ha).1⟩

/-- **A save takes the review one success further.** -/
theorem Past.write (h : Past db done) (ht : Tidy db) (hrow : row ∈ db.codeReviews) (hrun : runAll commands row.annotations = some annotations)
    (now : JsString) :
    Past (db.write row.id row.revision annotations now) (done ++ [.saved row.id commands]) := by
  intro id
  obtain ⟨standing, hhistory, hrows⟩ := h id
  by_cases hid : row.id = id
  · subst hid
    refine ⟨.pending (row.revision + 1) annotations, ?_, fun a ha hid => ?_⟩
    · have hlast := filter_concat_self done (.saved row.id commands)
      rw [Success.id] at hlast
      rw [hlast, history_concat, hhistory, hrows row hrow rfl]
      simp [Success.after, hrun]
    · obtain ⟨old, hold, ⟨-, rfl⟩ | ⟨hat, rfl⟩⟩ := mem_write ha
      · rw [ht.ids row hrow old hold hid]
        rfl
      · rw [ht.ids row hrow _ hold hid, isAt_iff.mpr ⟨rfl, rfl⟩] at hat
        cases hat
  · refine ⟨standing, ?_, fun a ha hida => ?_⟩
    · have hsame : (Success.saved row.id commands).id ≠ id := hid
      rw [filter_concat_other done hsame]
      exact hhistory
    obtain ⟨old, hold, ⟨hat, rfl⟩ | ⟨-, rfl⟩⟩ := mem_write ha
    · exact absurd ((isAt_iff.mp hat).1.symm.trans hida) hid
    · exact hrows _ hold hida

theorem Past.submit (h : Past db done) (ht : Tidy db) (hrow : row ∈ db.codeReviews) :
    Past (db.remove (·.isAt row.id row.revision)) (done ++ [.submitted row.id (compileFeedback row.annotations)]) := by
  intro id
  obtain ⟨standing, hhistory, hrows⟩ := h id
  by_cases hid : row.id = id
  · subst hid
    refine ⟨.submitted, ?_, fun a ha hid => ?_⟩
    · have hlast := filter_concat_self done (.submitted row.id (compileFeedback row.annotations))
      rw [Success.id] at hlast
      rw [hlast, history_concat, hhistory, hrows row hrow rfl]
      simp [Success.after]
    · obtain ⟨hmem, hat⟩ := mem_filter.mp ha
      beta_reduce at hat
      rw [ht.ids row hrow a hmem hid, isAt_iff.mpr ⟨rfl, rfl⟩] at hat
      cases hat
  · refine ⟨standing, ?_, fun a ha => hrows a (mem_filter.mp ha).1⟩
    have hsame : (Success.submitted row.id (compileFeedback row.annotations)).id ≠ id := hid
    rw [filter_concat_other done hsame]
    exact hhistory

theorem runAll_append (commands commands' : List Command) (annotations : List ReviewAnnotation) :
    runAll (commands ++ commands') annotations = (runAll commands annotations).bind (runAll commands') := by
  induction commands generalizing annotations with
  | nil => rfl
  | cons command commands ih =>
    rw [cons_append, runAll, runAll]
    split
    · exact ih _
    · rfl

/-! ### Each move keeps the invariant -/

theorem Detached.ok_of_mem (ht : Tidy db) (hrow : row ∈ db.codeReviews) :
    Detached.Ok db { review := row, loaded := row.annotations, commands := [] } := by
  refine ⟨⟨ht.given row hrow, fun a ha hid => ?_⟩, rfl, ht.sound row hrow⟩
  rw [ht.ids row hrow a ha hid]
  exact ⟨Nat.le_refl _, fun _ => rfl⟩

theorem Inv.detach (h : Inv s) (hrow : row ∈ s.db.codeReviews) : Inv (s.detach row) := by
  refine { h with detached := fun d hd => ?_ }
  rcases mem_concat_cases hd with hd | rfl
  · exact h.detached d hd
  · exact Detached.ok_of_mem h.tidy hrow

theorem Inv.insert (h : Inv s) (hnew : row.id ∉ s.db.given) (hrevision : row.revision = 0)
    (hrow : row.annotations = []) : Inv { s with db := s.db.insert row } :=
  ⟨h.tidy.insert hnew hrow, fun success hs => mem_cons_of_mem _ (h.done success hs),
   h.past.insert h.done hnew hrevision hrow, fun d hd => (h.detached d hd).later (later_insert hnew),
   fun b hb => (h.submissions b hb).later (later_insert hnew)⟩

theorem Inv.remove (h : Inv s) (gone : CodeReview → Bool) : Inv { s with db := s.db.remove gone } :=
  ⟨h.tidy.remove gone, h.done, h.past.remove gone, fun d hd => (h.detached d hd).later (later_remove _ _),
   fun b hb => (h.submissions b hb).later (later_remove _ _)⟩

theorem Inv.raise (h : Inv s) (hrow : row ∈ s.db.codeReviews)
    (hrun : runAll commands row.annotations = some annotations) (hs : Sound annotations)
    (now : JsString) (broadcasts : List CodeReviewUpdated) :
    Inv (s.raise s.db row annotations now commands broadcasts) := by
  refine ⟨h.tidy.write hs _ _ _, fun success hsuccess => ?_, h.past.write h.tidy hrow hrun now,
    fun d hd => (h.detached d hd).later (later_write _ _ _ _ _),
    fun b hb => (h.submissions b hb).later (later_write _ _ _ _ _)⟩
  rcases mem_concat_cases hsuccess with hsuccess | rfl
  · exact h.done success hsuccess
  · exact h.tidy.given row hrow

theorem Inv.settle (h : Inv s) (hb : s.submissions[k]? = some b) :
    Inv { s with submissions := s.submissions.set k { b with settled := true } } := by
  refine { h with submissions := fun c hc => ?_ }
  rcases mem_or_eq_of_mem_set hc with hc | rfl
  · exact h.submissions c hc
  · have hok := h.submissions b (mem_of_getElem? hb)
    exact ⟨hok.current, hok.feedback⟩

theorem Inv.submit (h : Inv s) (hrow : row ∈ s.db.codeReviews) (broadcasts : List CodeReviewUpdated) :
    Inv { s with
      db := s.db.remove (·.isAt row.id row.revision)
      done := s.done ++ [.submitted row.id (compileFeedback row.annotations)]
      broadcasts } := by
  refine ⟨h.tidy.remove _, fun success hsuccess => ?_, h.past.submit h.tidy hrow,
    fun d hd => (h.detached d hd).later (later_remove _ _),
    fun b hb => (h.submissions b hb).later (later_remove _ _)⟩
  rcases mem_concat_cases hsuccess with hsuccess | rfl
  · exact h.done success hsuccess
  · exact h.tidy.given row hrow

theorem Inv.loaded_of (h : Inv s) (hd : d ∈ s.detached) (hrow : row ∈ s.db.codeReviews) (hid : row.id = d.review.id)
    (hrevision : row.revision = d.review.revision) :
    runAll d.commands row.annotations = some d.review.annotations := by
  have hok := h.detached d hd
  rw [(hok.current.2 row hrow hid).2 hrevision]
  exact hok.run

theorem runAll_singleton {command : Command} {annotations' : List ReviewAnnotation}
    (h : command.run annotations = .ok () annotations') :
    runAll [command] annotations = some annotations' := by
  rw [runAll, h]
  rfl

theorem Inv.moves (h : Inv s) (hm : Moves s e s') : Inv s' := by
  cases hm with
  | idle => exact h
  | tables projects tasks sessions =>
    exact ⟨⟨h.tidy.ids, h.tidy.given, h.tidy.sound⟩, h.done, h.past,
      fun d hd => ⟨(h.detached d hd).current, (h.detached d hd).run, (h.detached d hd).sound⟩,
      fun b hb => ⟨(h.submissions b hb).current, (h.submissions b hb).feedback⟩⟩
  | deleted id => exact h.remove _
  | created hnew hrow =>
    exact (h.insert (hrow.1.symm ▸ hnew) hrow.2.1 hrow.2.2).detach (mem_append_right _ (mem_singleton_self _))
  | loaded hrow => exact h.detach hrow
  | @mutated i d command annotations hd hrun =>
    have hok := h.detached d (mem_of_getElem? hd)
    refine { h with detached := fun d' hd' => ?_ }
    rcases mem_or_eq_of_mem_set hd' with hd' | rfl
    · exact h.detached d' hd'
    refine ⟨hok.current, ?_, hok.sound.run hrun⟩
    show runAll (d.commands ++ [command]) d.loaded = some annotations
    rw [runAll_append, hok.run]
    exact runAll_singleton hrun
  | @saved i d row now broadcasts hd hrow hid hrevision =>
    have hmem := mem_of_getElem? hd
    have hraised := h.raise hrow (h.loaded_of hmem hrow hid hrevision) (h.detached d hmem).sound now broadcasts
    exact hraised.detach (saved_mem_write hrow _ _)
  | changed hrow hrun =>
    obtain ⟨hmem, -, rfl | ⟨-, hnew, hrevision, hannotations, rfl⟩⟩ := hrow
    · exact h.raise hmem (runAll_singleton hrun) ((h.tidy.sound _ hmem).run hrun) _ _
    · have hinsert := h.insert hnew hrevision hannotations
      exact hinsert.raise hmem (runAll_singleton hrun) ((hinsert.tidy.sound _ hmem).run hrun) _ _
  | @prepared projectId command row hrow hid hrevision =>
    refine { h with submissions := fun b hb => ?_ }
    rcases mem_concat_cases hb with hb | rfl
    · exact h.submissions b hb
    · exact ⟨(Detached.ok_of_mem h.tidy hrow).current, rfl⟩
  | settled hb => exact h.settle hb
  | @submitted k b row broadcasts hb hrow hid hrevision =>
    have hok := h.submissions b (mem_of_getElem? hb)
    have hfeedback : b.feedback = compileFeedback row.annotations := by
      rw [hok.feedback, (hok.current.2 row hrow hid).2 hrevision]
    have hi := (h.settle hb).submit hrow broadcasts
    rw [← hfeedback] at hi
    exact hi

theorem inv_init : Inv State.init := by
  refine ⟨⟨nofun, nofun, nofun⟩, nofun, fun id => ⟨.pending 0 [], rfl, nofun⟩, nofun, nofun⟩

theorem inv_step (s : State) (e : Event) (h : Inv s) : Inv (step s e) := h.moves (moves_step s e)

/-! ## Every run -/

theorem Inv.holds (h : Inv s) : Reviewed s := ⟨h.tidy.sound, fun d hd => (h.detached d hd).sound, h.past⟩

theorem Resolved.before {x : Option ExpectedCodeReview} {db₁ : Db} (h : Resolved db db₁ x row) (ht : Tidy db) :
    (∀ old ∈ db.codeReviews, old.id = row.id → old.revision = row.revision) ∧
      ((∀ old ∈ db.codeReviews, old.id ≠ row.id) → row.revision = 0) := by
  obtain ⟨hmem, -, rfl | ⟨-, hnew, hrevision, -, rfl⟩⟩ := h
  · exact ⟨fun old hold hid => by rw [ht.ids row hmem old hold hid], fun hnone => absurd rfl (hnone row hmem)⟩
  · exact ⟨fun old hold hid => absurd (hid ▸ ht.given old hold) hnew, fun _ => hrevision⟩

theorem id_mem_write (hrow : row ∈ db.codeReviews) (id : ReviewId) (revision : Nat)
    (annotations : List ReviewAnnotation) (now : JsString) :
    ∃ row' ∈ (db.write id revision annotations now).codeReviews, row'.id = row.id := by
  refine ⟨_, mem_map_of_mem hrow, ?_⟩
  split
  · rfl
  · rfl

theorem concat_inj {done : List Success} {a b : Success} (h : done ++ [a] = done ++ [b]) : a = b := by
  simpa using h

theorem Moves.raised (hm : Moves s e s') (h : Inv s) (hdone : s'.done = s.done ++ [.saved id commands]) :
    ∃ revision, (∀ row ∈ s.db.codeReviews, row.id = id → row.revision = revision) ∧
      ((∀ row ∈ s.db.codeReviews, row.id ≠ id) → revision = 0) ∧
      ∃ row ∈ s'.db.codeReviews, row.id = id ∧ row.revision = revision + 1 := by
  cases hm with
  | @saved i d row now broadcasts hd hrow hid hrevision =>
    cases concat_inj hdone
    have hb := Resolved.before (x := none) ⟨hrow, nofun, .inl rfl⟩ h.tidy
    exact ⟨row.revision, hb.1, hb.2, _, saved_mem_write hrow _ _, rfl, rfl⟩
  | @changed _ db row command annotations now broadcasts hrow hrun =>
    cases concat_inj hdone
    have hb := hrow.before h.tidy
    exact ⟨row.revision, hb.1, hb.2, _, saved_mem_write hrow.1 _ _, rfl, rfl⟩
  | submitted => cases concat_inj hdone
  | _ => simp [State.detach] at hdone

theorem Moves.consumed {feedback : JsString} (hm : Moves s e s') (h : Inv s)
    (hdone : s'.done = s.done ++ [.submitted id feedback]) :
    ∀ row ∈ s'.db.codeReviews, row.id ≠ id := by
  cases hm with
  | saved => cases concat_inj hdone
  | changed => cases concat_inj hdone
  | @submitted k b row broadcasts hb hrow hid hrevision =>
    cases concat_inj hdone
    intro other hother heq
    obtain ⟨hmem, hat⟩ := mem_filter.mp hother
    beta_reduce at hat
    rw [h.tidy.ids row hrow other hmem heq, isAt_iff.mpr ⟨rfl, rfl⟩] at hat
    cases hat
  | _ => simp [State.detach] at hdone

/-- **A command that carries a revision succeeds on the review at that revision only.** -/
theorem Moves.expected {x : ExpectedCodeReview} {success : Success} (hm : Moves s e s')
    (hx : x ∈ e.expected s) (hdone : s'.done = s.done ++ [success]) :
    success.id = x.id ∧ ∃ row ∈ s.db.codeReviews, row.id = x.id ∧ row.revision = x.revision := by
  cases hm with
  | @saved i d row now broadcasts hd hrow hid hrevision =>
    cases concat_inj hdone
    rw [Event.expected, hd] at hx
    cases hx
    exact ⟨hid, row, hrow, hid, hrevision⟩
  | @changed _ db row command annotations now broadcasts hrow hrun =>
    cases concat_inj hdone
    obtain ⟨hmem, hexpected, rfl | ⟨hnone, -⟩⟩ := hrow
    · exact ⟨(hexpected x hx).1, row, hmem, hexpected x hx⟩
    · cases hnone.symm.trans hx
  | @submitted k b row broadcasts hb hrow hid hrevision =>
    cases concat_inj hdone
    rw [Event.expected, hb] at hx
    cases hx
    exact ⟨hid, row, hrow, hid, hrevision⟩
  | _ => simp [State.detach] at hdone

theorem Moves.submitting (hm : Moves s (.submit projectId command) s') (hb : s'.submissions = s.submissions ++ [b]) :
    b.review.id = command.reviewId ∧ b.review.revision = command.expectedRevision := by
  cases hm with
  | prepared hrow hid hrevision =>
    have heq := append_cancel_left hb
    cases heq
    exact ⟨hid, hrevision⟩
  | idle => simp at hb
  | changed => simp [State.raise] at hb

theorem Moves.kept (hm : Moves s e s') (hrow : row ∈ s.db.codeReviews) :
    (∃ row' ∈ s'.db.codeReviews, row'.id = row.id) ∨ (∃ feedback, s'.done = s.done ++ [.submitted row.id feedback]) ∨
      e = .deleteCodeReview row.id := by
  cases hm with
  | deleted id =>
    by_cases hid : row.id = id
    · exact .inr (.inr (hid ▸ rfl))
    · exact .inl ⟨row, mem_filter.mpr ⟨hrow, by simp [hid]⟩, rfl⟩
  | created => exact .inl ⟨row, mem_append_left _ hrow, rfl⟩
  | saved => exact .inl (id_mem_write hrow _ _ _ _)
  | @changed _ db changed command annotations now broadcasts hresolved hrun =>
    obtain ⟨-, -, rfl | ⟨-, -, -, -, rfl⟩⟩ := hresolved
    · exact .inl (id_mem_write hrow _ _ _ _)
    · exact .inl (id_mem_write (mem_append_left _ hrow) _ _ _ _)
  | @submitted k b gone broadcasts hb hgone hid hrevision =>
    by_cases heq : row.id = gone.id
    · exact .inr (.inl ⟨b.feedback, heq ▸ rfl⟩)
    · refine .inl ⟨row, mem_filter.mpr ⟨hrow, ?_⟩, rfl⟩
      simp [CodeReview.isAt, heq]
  | _ => exact .inl ⟨row, hrow, rfl⟩

theorem Inv.steps (h : Inv s) (e : Event) : Steps s e where
  thrown error s' hthrow := by
    rcases act_error hthrow with rfl | ⟨k, outcome, b, rfl, hb, rfl⟩
    · exact ⟨rfl, rfl, rfl⟩
    · exact ⟨rfl, rfl, rfl⟩
  raised _ _ hdone := (moves_step s e).raised h hdone
  consumed _ _ hdone := (moves_step s e).consumed h hdone
  expected _ hx _ hdone := (moves_step s e).expected hx hdone
  submitting _ _ _ he hb := by
    subst he
    exact (moves_step s _).submitting hb
  kept _ hrow := (moves_step s e).kept hrow

/-- **Reviews stay sound, a throw changes none, and no success is lost under another.** -/
theorem reviewed (es : List Event) : Reviewed (Run.exec step .init es) ∧ ∀ e, Steps (Run.exec step .init es) e := by
  have h : Inv (Run.exec step .init es) := Run.exec_invariant Inv inv_step inv_init es
  exact ⟨h.holds, h.steps⟩

/-- A comment's annotation, and its submission from a session of the project. -/
def oneComment : NewReviewAnnotation :=
  { id := [1]
    anchor :=
      { path := [2], oldPath := none, side := .new, startLine := 1, lines := [⟨.addition, [3]⟩]
        fileFingerprint := none, filePatch := js "diff --git ", baseRevision := none
        headRevision := none }
    entry := { id := [4], author := [5], body := [6], createdAt := [7], sourceKey := none,
               sourceUrl := none } }

def oneSubmission : List Event :=
  [.tables [1] [] [⟨[8], some 1, none⟩], .add 1 ⟨none, none, oneComment⟩ [9] [], .submit 1 ⟨none, [9], 1, [8]⟩]

theorem submission_raises_none : ¬ ∀ es e, (step (Run.exec step .init es) e).done ≠ (Run.exec step .init es).done →
      ∃ row ∈ (step (Run.exec step .init es) e).db.codeReviews, ∀ old ∈ (Run.exec step .init es).db.codeReviews,
          old.id = row.id → row.revision = old.revision + 1 := by
  intro h
  have hgone : (step (Run.exec step .init oneSubmission) (.admitted 0 (.ok ()))).db.codeReviews = [] := by decide
  have hdone : (step (Run.exec step .init oneSubmission) (.admitted 0 (.ok ()))).done.length ≠
      (Run.exec step .init oneSubmission).done.length := by decide
  obtain ⟨row, hrow, -⟩ := h oneSubmission (.admitted 0 (.ok ())) fun heq => hdone (by rw [heq])
  rw [hgone] at hrow
  cases hrow

end Reins.CodeReviews
