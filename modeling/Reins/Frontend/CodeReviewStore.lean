import Reins.Backend.CodeReviews

/-!
# The code review a browser shows (`frontend/src/models/stores/code-review-store.ts`)

One open review is shown at a time, that of the store's scope. A refresh shows what it was answered unless
the scope has changed; a comment's addition or deletion shows its answer in the same scope unless the same
review is shown at a later revision; a submission shows none. The server runs its own commands in between,
and the answers land in any order.
-/

namespace Reins.CodeReviewStore

open CodeReviews Places Run List
open Schema (JsString)

structure CodeReviewScope where
  projectId : ProjectId
  taskId : Option TaskId
  deriving DecidableEq

/-- What a request failed with: the status of a `ReinsHttpError`, and the message. -/
structure Failure where
  status : Option Nat
  message : JsString
  deriving DecidableEq

/-- The `catch` that waits for a refresh: the scope of its call, and its error's message. -/
structure Conflict where
  scope : CodeReviewScope
  message : JsString
  deriving DecidableEq

inductive Call
  | get (generation : Nat) (conflict : Option Conflict)
  | addComment (expectedReview : Option ExpectedCodeReview) (comment : NewReviewComment)
  | deleteComment (commentId : JsString) (expectedReview : ExpectedCodeReview)
  | submit (reviewId : ReviewId) (expectedRevision : Nat) (sessionId : SessionId)

inductive Answer
  /-- Of `get`. -/
  | review (review : Option CodeReview)
  | saved (review : CodeReview)
  | submitted (messageId : JsString)
  | failed (failure : Failure)
  deriving DecidableEq

structure Request where
  scope : CodeReviewScope
  call : Call
  answer : Option (Nat × Answer)
  landed : Bool

variable {r : Request} {a : Nat × CodeReview} {x : CodeReview} {i : Nat}

structure Store where
  scope : Option CodeReviewScope
  review : Option CodeReview
  loading : Bool
  error : Option JsString
  submitting : Bool
  submissionError : Option JsString
  generation : Nat

structure State where
  server : CodeReviews.State
  clock : Nat
  requests : List Request
  store : Store
  answers : List (Nat × CodeReview)
  accepted : List (Nat × ReviewId)
  /-- The reviews shown so far, and the submissions the store knows to be accepted. -/
  shown : List (Nat × CodeReview)
  submitted : List (Nat × ReviewId)

def State.init : State :=
  { server := .init, clock := 0, requests := []
    store := ⟨none, none, false, none, false, none, 0⟩
    answers := [], accepted := [], shown := [], submitted := [] }

inductive Event
  /-- Anyone's command on the server, this client's included. -/
  | server (e : CodeReviews.Event)
  | answer (i : Nat) (answer : Answer)
  | land (i : Nat)
  | setScope (scope : Option CodeReviewScope)
  | refresh
  | addComment (comment : NewReviewComment)
  | deleteComment (commentId : JsString)
  | submit (sessionId : SessionId)
  | handleUpdated (update : CodeReviewUpdated)

/-! ## The server's answers -/

def CodeReviewScope.has (scope : CodeReviewScope) (row : CodeReview) : Bool :=
  row.projectId = scope.projectId && row.taskId = scope.taskId

def Request.mayHear (r : Request) (db : Db) : Answer → Bool
  | .review review =>
    match r.call with
    | .get .. => review = db.codeReviews.find? r.scope.has
    | _ => false
  | .saved review =>
    match r.call with
    | .addComment .. | .deleteComment .. => db.codeReviews.contains review && r.scope.has review
    | _ => false
  | .submitted _ =>
    match r.call with
    | .submit reviewId _ _ => db.codeReviews.all (·.id ≠ reviewId)
    | _ => false
  | .failed _ => true

def Answer.shows : Answer → Option CodeReview
  | .review found => found
  | .saved found => some found
  | .submitted _ | .failed _ => none

def Request.accepts (r : Request) : Answer → Option ReviewId
  | .submitted _ =>
    match r.call with
    | .submit reviewId _ _ => some reviewId
    | _ => none
  | _ => none

def State.answer (s : State) (i : Nat) (r : Request) (answer : Answer) : State :=
  if r.answer = none ∧ r.mayHear s.server.db answer = true then
    { s with
      requests := s.requests.set i { r with answer := some (s.clock, answer) }
      answers := s.answers ++ answer.shows.toList.map (s.clock, ·)
      accepted := s.accepted ++ (r.accepts answer).toList.map (s.clock, ·) }
  else s

/-! ## The store -/

def State.send (s : State) (scope : CodeReviewScope) (call : Call) : State :=
  { s with requests := s.requests ++ [⟨scope, call, none, false⟩] }

/-- `refresh`, with what waits for it. -/
def State.refresh (s : State) (conflict : Option Conflict) : State :=
  match s.store.scope with
  | none => s
  | some scope =>
    { s with store := { s.store with loading := true, error := none } }.send scope (.get s.store.generation conflict)

def State.setScope (s : State) (scope : Option CodeReviewScope) : State :=
  if s.store.scope = scope then s
  else
    let s : State := { s with store :=
      { s.store with
        generation := s.store.generation + 1, scope, review := none, error := none, submissionError := none
        submitting := false, loading := scope.isSome } }
    s.refresh none

def expectedReview (review : CodeReview) : ExpectedCodeReview := ⟨review.id, review.revision⟩

def State.addComment (s : State) (comment : NewReviewComment) : State :=
  match s.store.scope with
  | none => s
  | some scope => s.send scope (.addComment (s.store.review.map expectedReview) comment)

def State.deleteComment (s : State) (commentId : JsString) : State :=
  match s.store.scope, s.store.review with
  | some scope, some review => s.send scope (.deleteComment commentId (expectedReview review))
  | _, _ => s

def State.submit (s : State) (sessionId : SessionId) : State :=
  match s.store.scope, s.store.review with
  | some scope, some review =>
    if review.annotations.length = 0 ∨ s.store.submitting = true then s
    else
      { s with store := { s.store with submitting := true, submissionError := none } }.send scope
        (.submit review.id review.revision sessionId)
  | _, _ => s

def State.handleUpdated (s : State) (update : CodeReviewUpdated) : State :=
  if s.store.scope ≠ some ⟨update.projectId, update.taskId⟩ then s
  else if s.store.review.any fun review => update.reviewId = review.id && update.revision ≤ review.revision then s
  else s.refresh none

def State.setStore (s : State) (store : Store) : State := { s with store }

def State.show (s : State) (made : Nat) (review : CodeReview) (store : Store) : State :=
  { s with store := { store with review := some review }, shown := s.shown ++ [(made, review)] }

/-- The answer of an addition or a deletion is not older than what is shown. -/
def Store.accepts (store : Store) (review : CodeReview) : Bool :=
  store.review.all fun current => current.id ≠ review.id || current.revision ≤ review.revision

def State.takes (s : State) (r : Request) : Option (Nat × CodeReview) :=
  match r.call, r.answer with
  | .get generation _, some (made, .review (some review)) =>
    if generation = s.store.generation ∧ s.store.scope = some r.scope then some (made, review) else none
  | .addComment .., some (made, .saved review) | .deleteComment .., some (made, .saved review) =>
    if s.store.scope = some r.scope ∧ s.store.accepts review = true then some (made, review) else none
  | _, _ => none

def State.concluded (s : State) (conflict : Option Conflict) : State :=
  match conflict with
  | some ⟨scope, message⟩ =>
    if s.store.scope = some scope then { s with store := { s.store with error := some message } } else s
  | none => s

/-- The rest of `refresh`, and of what waits for it. -/
def State.landGet (s : State) (r : Request) (generation : Nat) (conflict : Option Conflict) (made : Nat)
    (answer : Answer) : State :=
  let kept : Bool := generation = s.store.generation && s.store.scope = some r.scope
  let s :=
    if kept then
      match answer with
      | .review (some review) => s.show made review { s.store with loading := false }
      | .review none => s.setStore { s.store with review := none, loading := false }
      | .failed failure => s.setStore { s.store with error := some failure.message, loading := false }
      | _ => s
    else s
  s.concluded conflict

/-- The rest of `addComment` and `deleteComment`. -/
def State.landSave (s : State) (r : Request) (made : Nat) (answer : Answer) : State :=
  match answer with
  | .saved review =>
    if s.store.scope = some r.scope then
      if s.store.accepts review then
        s.show made review { s.store with error := none }
      else s.setStore { s.store with error := none }
    else s
  | .failed failure =>
    if failure.status = some 409 ∧ s.store.scope.isSome = true then
      s.refresh (some ⟨r.scope, failure.message⟩)
    else s.concluded (some ⟨r.scope, failure.message⟩)
  | _ => s

/-- The rest of `submit`. -/
def State.landSubmit (s : State) (r : Request) (reviewId : ReviewId) (made : Nat) (answer : Answer) : State :=
  let here : Bool := s.store.scope = some r.scope
  match answer with
  | .submitted _ =>
    let s : State := { s with submitted := s.submitted ++ [(made, reviewId)] }
    if here then s.setStore { s.store with review := none, error := none, submitting := false } else s
  | .failed failure =>
    if here then s.setStore { s.store with submissionError := some failure.message, submitting := false } else s
  | _ => s

def State.received (s : State) (i : Nat) (r : Request) : State :=
  { s with requests := s.requests.set i { r with landed := true } }

def State.land (s : State) (i : Nat) (r : Request) : State :=
  if r.landed then s
  else
    match r.answer with
    | none => s
    | some (made, answer) =>
      match r.call with
      | .get generation conflict => (s.received i r).landGet r generation conflict made answer
      | .addComment .. | .deleteComment .. => (s.received i r).landSave r made answer
      | .submit reviewId _ _ => (s.received i r).landSubmit r reviewId made answer

def State.onRequest (s : State) (i : Nat) (f : Request → State) : State := (s.requests[i]?).elim s f

def step (s : State) : Event → State
  | .server e => { s with server := CodeReviews.step s.server e, clock := s.clock + 1 }
  | .answer i answer => s.onRequest i fun r => s.answer i r answer
  | .land i => s.onRequest i (s.land i)
  | .setScope scope => s.setScope scope
  | .refresh => s.refresh none
  | .addComment comment => s.addComment comment
  | .deleteComment commentId => s.deleteComment commentId
  | .submit sessionId => s.submit sessionId
  | .handleUpdated update => s.handleUpdated update

/-! ## What is asked of it -/

def ForwardOnly (s : State) : Prop :=
  ∀ x ∈ s.store.review, (∀ h ∈ s.shown, h.2.id = x.id → h.2.revision ≤ x.revision) ∧ ∀ g ∈ s.submitted, g.2 ≠ x.id

/-- The review a step shows, with when the server answered with it. -/
def State.taken (s : State) : Event → Option (Nat × CodeReview)
  | .land i => (s.requests[i]?).bind fun r => if r.landed then none else s.takes r
  | _ => none

/-- No answer is taken that the server made before it changed its review, where a review it answered with since
was shown, or before it accepted a submission of it that the store knows of. -/
def InServerOrder (s : State) (e : Event) : Prop :=
  ∀ a ∈ s.taken e, (∀ h ∈ s.shown, h.2.id = a.2.id → a.1 < h.1 → h.2.revision = a.2.revision) ∧
    ∀ g ∈ s.submitted, g.2 = a.2.id → g.1 ≤ a.1

/-! ## The server's reviews -/

/-- The table goes on from another: a review keeps its scope, goes up, and does not come back. -/
structure Continues (db db' : Db) : Prop where
  given : ∀ id ∈ db.given, id ∈ db'.given
  rows : ∀ row' ∈ db'.codeReviews, row'.id ∈ db.given → ∃ row ∈ db.codeReviews, row.id = row'.id ∧
    row.projectId = row'.projectId ∧ row.taskId = row'.taskId ∧ row.revision ≤ row'.revision

section

variable {db db' db'' : Db} {row : CodeReview}

theorem Continues.refl (db : Db) : Continues db db :=
  ⟨fun _ => id, fun row hrow _ => ⟨row, hrow, rfl, rfl, rfl, Nat.le_refl _⟩⟩

theorem Continues.trans (h : Continues db db') (h' : Continues db' db'') : Continues db db'' := by
  constructor
  · exact fun id hid => h'.given id (h.given id hid)
  intro c hc hid
  obtain ⟨b, hb, hbid, hbp, hbt, hbr⟩ := h'.rows c hc (h.given _ hid)
  obtain ⟨a, ha, haid, hap, hat, har⟩ := h.rows b hb (hbid ▸ hid)
  exact ⟨a, ha, haid.trans hbid, hap.trans hbp, hat.trans hbt, Nat.le_trans har hbr⟩

theorem continues_insert (hnew : row.id ∉ db.given) : Continues db (db.insert row) := by
  constructor
  · exact fun id hid => mem_cons_of_mem _ hid
  intro a ha hid
  rcases mem_append.mp ha with ha | ha
  · exact ⟨a, ha, rfl, rfl, rfl, Nat.le_refl _⟩
  · rw [mem_singleton.mp ha] at hid
    exact absurd hid hnew

theorem continues_write (db : Db) (id : ReviewId) (revision : Nat) (annotations : List ReviewAnnotation)
    (now : JsString) : Continues db (db.write id revision annotations now) := by
  constructor
  · exact fun id hid => hid
  intro a ha _
  obtain ⟨old, hold, ⟨-, rfl⟩ | ⟨-, rfl⟩⟩ := mem_write ha
  · exact ⟨old, hold, rfl, rfl, rfl, Nat.le_succ _⟩
  · exact ⟨a, hold, rfl, rfl, rfl, Nat.le_refl _⟩

theorem continues_remove (db : Db) (gone : CodeReview → Bool) : Continues db (db.remove gone) :=
  ⟨fun _ => id, fun a ha _ => ⟨a, mem_of_mem_filter ha, rfl, rfl, rfl, Nat.le_refl _⟩⟩

theorem moves_continues {s s' : CodeReviews.State} {e : CodeReviews.Event} (hm : Moves s e s') :
    Continues s.db s'.db := by
  cases hm with
  | created hnew hrow => exact continues_insert (hrow.1.symm ▸ hnew)
  | deleted => exact continues_remove ..
  | submitted => exact continues_remove ..
  | saved => exact continues_write ..
  | changed hresolved _ =>
    obtain ⟨-, -, rfl | ⟨-, hnew, -, -, rfl⟩⟩ := hresolved
    · exact continues_write ..
    · exact (continues_insert hnew).trans (continues_write ..)
  | tables => exact ⟨fun _ => id, (Continues.refl s.db).rows⟩
  | _ => exact .refl _

/-- A review that the server had: what it has of it now is of the same scope, and no earlier revision. -/
def Behind (db : Db) (x : CodeReview) : Prop :=
  x.id ∈ db.given ∧ ∀ row ∈ db.codeReviews, row.id = x.id →
    x.projectId = row.projectId ∧ x.taskId = row.taskId ∧ x.revision ≤ row.revision

def Gone (db : Db) (id : ReviewId) : Prop := id ∈ db.given ∧ ∀ row ∈ db.codeReviews, row.id ≠ id

theorem Behind.continues (h : Behind db x) (hc : Continues db db') : Behind db' x := by
  refine ⟨hc.given _ h.1, ?_⟩
  intro row' hrow' hid
  obtain ⟨row, hrow, hrid, hp, ht, hr⟩ := hc.rows row' hrow' (hid ▸ h.1)
  obtain ⟨hp', ht', hr'⟩ := h.2 row hrow (hrid.trans hid)
  exact ⟨hp'.trans hp, ht'.trans ht, Nat.le_trans hr' hr⟩

theorem Gone.continues {id : ReviewId} (h : Gone db id) (hc : Continues db db') : Gone db' id := by
  refine ⟨hc.given _ h.1, ?_⟩
  intro row' hrow' hid
  obtain ⟨row, hrow, hrid, -⟩ := hc.rows row' hrow' (hid ▸ h.1)
  exact h.2 row hrow (hrid.trans hid)

theorem Behind.of_mem (ht : Tidy db) (hrow : row ∈ db.codeReviews) : Behind db row := by
  refine ⟨ht.given row hrow, ?_⟩
  intro row' hrow' hid
  rw [ht.ids row hrow row' hrow' hid]
  exact ⟨rfl, rfl, Nat.le_refl _⟩

end

/-! ## The answers -/

/-- Of two answers about a review the later is of the same scope and no earlier revision, and none is about a
review whose submission was accepted before. -/
structure Served (s : State) : Prop where
  inv : CodeReviews.Inv s.server
  made : ∀ a ∈ s.answers, a.1 ≤ s.clock ∧ Behind s.server.db a.2
  now : ∀ a ∈ s.answers, a.1 = s.clock → a.2 ∈ s.server.db.codeReviews
  ordered : ∀ a ∈ s.answers, ∀ b ∈ s.answers, a.2.id = b.2.id → a.1 ≤ b.1 → a.2.revision ≤ b.2.revision
  scope : ∀ a ∈ s.answers, ∀ b ∈ s.answers, a.2.id = b.2.id → a.2.projectId = b.2.projectId ∧ a.2.taskId = b.2.taskId
  accepted : ∀ g ∈ s.accepted, Gone s.server.db g.2 ∧ ∀ a ∈ s.answers, a.2.id = g.2 → a.1 < g.1

section

variable {s s' : State}

theorem served_init : Served .init := by
  refine ⟨inv_init, ?_, ?_, ?_, ?_, ?_⟩ <;> exact nofun

theorem Served.congr (h : Served s) (hserver : s'.server = s.server) (hclock : s'.clock = s.clock)
    (hanswers : s'.answers = s.answers) (haccepted : s'.accepted = s.accepted) : Served s' := by
  obtain ⟨h1, h2, h3, h4, h5, h6⟩ := h
  constructor
  · rwa [hserver]
  · rwa [hserver, hclock, hanswers]
  · rwa [hserver, hclock, hanswers]
  · rwa [hanswers]
  · rwa [hanswers]
  · rwa [hserver, hanswers, haccepted]

theorem Served.server (h : Served s) (e : CodeReviews.Event) : Served (step s (.server e)) := by
  have hc := moves_continues (moves_step s.server e)
  constructor
  · exact inv_step s.server e h.inv
  · intro a ha
    obtain ⟨hle, hbehind⟩ := h.made a ha
    exact ⟨Nat.le_succ_of_le hle, hbehind.continues hc⟩
  · intro a ha heq
    -- the answers so far were made before this step
    have hle := (h.made a ha).1
    rw [heq] at hle
    exact absurd hle (Nat.not_succ_le_self _)
  · exact h.ordered
  · exact h.scope
  · intro g hg
    obtain ⟨hgone, hbefore⟩ := h.accepted g hg
    exact ⟨hgone.continues hc, hbefore⟩

theorem Served.add (h : Served s) (hx : x ∈ s.server.db.codeReviews) :
    Served { s with answers := s.answers ++ [(s.clock, x)] } := by
  have hcases : ∀ a ∈ s.answers ++ [(s.clock, x)], a ∈ s.answers ∨ a = (s.clock, x) := by
    intro a ha
    exact (mem_append.mp ha).imp_right mem_singleton.mp
  constructor
  · exact h.inv
  · intro a ha
    rcases hcases a ha with ha | rfl
    · exact h.made a ha
    · exact ⟨Nat.le_refl _, .of_mem h.inv.tidy hx⟩
  · intro a ha heq
    rcases hcases a ha with ha | rfl
    · exact h.now a ha heq
    · exact hx
  · intro a ha b hb hid hle
    rcases hcases a ha with ha | rfl
    · rcases hcases b hb with hb | rfl
      · exact h.ordered a ha b hb hid hle
      · exact ((h.made a ha).2.2 x hx hid.symm).2.2
    rcases hcases b hb with hb | rfl
    · -- made at the same time, it is the same row
      have hb' := h.now b hb (Nat.le_antisymm (h.made b hb).1 hle)
      rw [h.inv.tidy.ids b.2 hb' x hx hid]
    · exact Nat.le_refl _
  · intro a ha b hb hid
    rcases hcases a ha with ha | rfl
    · rcases hcases b hb with hb | rfl
      · exact h.scope a ha b hb hid
      · have hbehind := (h.made a ha).2.2 x hx hid.symm
        exact ⟨hbehind.1, hbehind.2.1⟩
    · rcases hcases b hb with hb | rfl
      · have hbehind := (h.made b hb).2.2 x hx hid
        exact ⟨hbehind.1.symm, hbehind.2.1.symm⟩
      · exact ⟨rfl, rfl⟩
  · intro g hg
    obtain ⟨hgone, hbefore⟩ := h.accepted g hg
    refine ⟨hgone, ?_⟩
    intro a ha hid
    rcases hcases a ha with ha | rfl
    · exact hbefore a ha hid
    · exact absurd hid (hgone.2 x hx)

theorem Served.accept (h : Served s) {id : ReviewId} (hgone : Gone s.server.db id) :
    Served { s with accepted := s.accepted ++ [(s.clock, id)] } := by
  refine { h with accepted := ?_ }
  intro g hg
  rcases mem_append.mp hg with hg | hg
  · exact h.accepted g hg
  rw [mem_singleton.mp hg]
  refine ⟨hgone, ?_⟩
  intro a ha hid
  refine Nat.lt_of_le_of_ne (h.made a ha).1 ?_
  intro heq
  exact hgone.2 a.2 (h.now a ha heq) hid

end

/-! ## What a step of the store does -/

structure Sends (s s' : State) : Prop where
  server : s'.server = s.server
  clock : s'.clock = s.clock
  answers : s'.answers = s.answers
  accepted : s'.accepted = s.accepted
  requests : ∀ r' ∈ s'.requests, (∃ r ∈ s.requests, r'.scope = r.scope ∧ r'.call = r.call ∧ r'.answer = r.answer) ∨
      r'.answer = none ∧ ∀ id revision sessionId, r'.call = .submit id revision sessionId →
        ∃ x ∈ s.store.review, x.id = id ∧ s.store.scope = some r'.scope

structure Still (s s' : State) : Prop where
  review : s'.store.review = s.store.review
  scope : s'.store.scope = s.store.scope
  shown : s'.shown = s.shown
  submitted : s'.submitted = s.submitted

structure Clears (s s' : State) : Prop where
  review : s'.store.review = none
  shown : s'.shown = s.shown
  submitted : s'.submitted = s.submitted

structure Shows (s : State) (a : Nat × CodeReview) (s' : State) : Prop where
  review : s'.store.review = some a.2
  scope : s'.store.scope = s.store.scope
  shown : s'.shown = s.shown ++ [a]
  submitted : s'.submitted = s.submitted

structure Submits (s : State) (r : Request) (made : Nat) (reviewId : ReviewId) (s' : State) : Prop where
  review : s'.store.review = none ∨ s'.store.review = s.store.review ∧
    s'.store.scope = s.store.scope ∧ s.store.scope ≠ some r.scope
  shown : s'.shown = s.shown
  submitted : s'.submitted = s.submitted ++ [(made, reviewId)]

/-- What a step that takes `taken` does to what is shown. -/
inductive View (s : State) (taken : Option (Nat × CodeReview)) (s' : State) : Prop
  | still (hnone : taken = none) (h : Still s s')
  | cleared (hnone : taken = none) (h : Clears s s')
  | shown (a : Nat × CodeReview) (htaken : taken = some a) (h : Shows s a s')
  | submitted (hnone : taken = none) (r : Request) (hr : r ∈ s.requests) (made : Nat) (answer : Answer)
    (hanswer : r.answer = some (made, answer)) (reviewId : ReviewId) (haccepts : r.accepts answer = some reviewId)
    (h : Submits s r made reviewId s')

section

variable {s s' s'' : State}

theorem Still.refl (s : State) : Still s s := ⟨rfl, rfl, rfl, rfl⟩

theorem Still.trans (h : Still s s') (h' : Still s' s'') : Still s s'' :=
  ⟨h'.review.trans h.review, h'.scope.trans h.scope, h'.shown.trans h.shown, h'.submitted.trans h.submitted⟩

theorem Sends.refl (s : State) : Sends s s := ⟨rfl, rfl, rfl, rfl, fun r hr => .inl ⟨r, hr, rfl, rfl, rfl⟩⟩

theorem Sends.store (s : State) (store : Store) (shown : List (Nat × CodeReview)) (submitted : List (Nat × ReviewId)) :
    Sends s { s with store, shown, submitted } :=
  ⟨rfl, rfl, rfl, rfl, fun r hr => .inl ⟨r, hr, rfl, rfl, rfl⟩⟩

/-- One step after another, where the first sent nothing or the store still shows the same. -/
theorem Sends.trans (h : Sends s s') (h' : Sends s' s'') (hstill : Still s s') : Sends s s'' := by
  refine ⟨h'.server.trans h.server, h'.clock.trans h.clock, h'.answers.trans h.answers,
    h'.accepted.trans h.accepted, ?_⟩
  intro r'' hr''
  rcases h'.requests r'' hr'' with ⟨r', hr', hscope, hcall, hanswer⟩ | ⟨hanswer, hsubmit⟩
  · rcases h.requests r' hr' with ⟨r, hr, hscope', hcall', hanswer'⟩ | ⟨hanswer', hsubmit⟩
    · exact .inl ⟨r, hr, hscope.trans hscope', hcall.trans hcall', hanswer.trans hanswer'⟩
    refine .inr ⟨hanswer.trans hanswer', ?_⟩
    intro id revision sessionId heq
    rw [hscope]
    exact hsubmit id revision sessionId (hcall ▸ heq)
  · refine .inr ⟨hanswer, ?_⟩
    intro id revision sessionId heq
    obtain ⟨x, hx, hid, hscope⟩ := hsubmit id revision sessionId heq
    exact ⟨x, hstill.review ▸ hx, hid, hstill.scope ▸ hscope⟩

theorem Sends.send (s : State) (scope : CodeReviewScope) (call : Call) (store : Store)
    (hsubmit : ∀ id revision sessionId, call = .submit id revision sessionId →
      ∃ x ∈ s.store.review, x.id = id ∧ s.store.scope = some scope) :
    Sends s ({ s with store }.send scope call) := by
  refine ⟨rfl, rfl, rfl, rfl, ?_⟩
  intro r hr
  rcases mem_append.mp hr with hr | hr
  · exact .inl ⟨r, hr, rfl, rfl, rfl⟩
  · rw [mem_singleton.mp hr]
    exact .inr ⟨rfl, hsubmit⟩

theorem Sends.landed (hr : s.requests[i]? = some r) : Sends s (s.received i r) := by
  refine ⟨rfl, rfl, rfl, rfl, ?_⟩
  intro r' hr'
  rcases mem_or_eq_of_mem_set hr' with hr' | rfl
  · exact .inl ⟨r', hr', rfl, rfl, rfl⟩
  · exact .inl ⟨r, mem_of_getElem? hr, rfl, rfl, rfl⟩

theorem refresh_sends (s : State) (conflict : Option Conflict) : Sends s (s.refresh conflict) := by
  unfold State.refresh
  split
  · exact .refl s
  · exact .send s _ _ _ nofun

theorem refresh_still (s : State) (conflict : Option Conflict) : Still s (s.refresh conflict) := by
  unfold State.refresh
  split
  · exact .refl s
  next hscope =>
    exact ⟨rfl, rfl, rfl, rfl⟩

theorem concluded_sends (s : State) (conflict : Option Conflict) : Sends s (s.concluded conflict) := by
  unfold State.concluded
  split
  · split
    · exact .store s _ _ _
    · exact .refl s
  · exact .refl s

theorem concluded_still (s : State) (conflict : Option Conflict) : Still s (s.concluded conflict) := by
  unfold State.concluded
  split
  · split <;> exact ⟨rfl, rfl, rfl, rfl⟩
  · exact .refl s

theorem takes_answer (h : s.takes r = some a) :
    ∃ answer, r.answer = some (a.1, answer) ∧ answer.shows = some a.2 ∧ s.store.scope = some r.scope := by
  unfold State.takes at h
  split at h
  next hanswer =>
    split at h
    next hkept =>
      rw [← Option.some_inj.mp h]
      exact ⟨_, hanswer, rfl, hkept.2⟩
    · cases h
  next hanswer =>
    split at h
    next hkept =>
      rw [← Option.some_inj.mp h]
      exact ⟨_, hanswer, rfl, hkept.1⟩
    · cases h
  next hanswer =>
    split at h
    next hkept =>
      rw [← Option.some_inj.mp h]
      exact ⟨_, hanswer, rfl, hkept.1⟩
    · cases h
  · cases h

theorem Shows.still (h : Shows s a s') (h' : Still s' s'') : Shows s a s'' :=
  ⟨h'.review.trans h.review, h'.scope.trans h.scope, h'.shown.trans h.shown, h'.submitted.trans h.submitted⟩

theorem Clears.still (h : Clears s s') (h' : Still s' s'') : Clears s s'' :=
  ⟨h'.review.trans h.review, h'.shown.trans h.shown, h'.submitted.trans h.submitted⟩

def Turns (s : State) (taken : Option (Nat × CodeReview)) (s' : State) : Prop :=
  taken = none ∧ (Still s s' ∨ Clears s s') ∨ ∃ a, taken = some a ∧ Shows s a s'

theorem Turns.still {taken : Option (Nat × CodeReview)} (h : Turns s taken s') (h' : Still s' s'') :
    Turns s taken s'' := by
  rcases h with ⟨hnone, hs | hc⟩ | ⟨a, ha, hs⟩
  · exact .inl ⟨hnone, .inl (hs.trans h')⟩
  · exact .inl ⟨hnone, .inr (hc.still h')⟩
  · exact .inr ⟨a, ha, hs.still h'⟩

theorem landGet_turns (s : State) {generation made : Nat} {conflict : Option Conflict}
    {answer : Answer} (hcall : r.call = .get generation conflict) (hanswer : r.answer = some (made, answer)) :
    Turns s (s.takes r) (s.landGet r generation conflict made answer) := by
  unfold State.landGet
  by_cases hkept : generation = s.store.generation ∧ s.store.scope = some r.scope
  · have hbool : (decide (generation = s.store.generation) && decide (s.store.scope = some r.scope)) = true := by
      simp [hkept]
    simp only [hbool, if_true]
    refine Turns.still ?_ (concluded_still _ conflict)
    cases answer with
    | review found =>
      cases found with
      | none => exact .inl ⟨by simp [State.takes, hcall, hanswer], .inr ⟨rfl, rfl, rfl⟩⟩
      | some x => exact .inr ⟨(made, x), by simp [State.takes, hcall, hanswer, hkept], ⟨rfl, rfl, rfl, rfl⟩⟩
    | failed failure => exact .inl ⟨by simp [State.takes, hcall, hanswer], .inl ⟨rfl, rfl, rfl, rfl⟩⟩
    | saved _ | submitted _ => exact .inl ⟨by simp [State.takes, hcall, hanswer], .inl (.refl s)⟩
  · have hbool : (decide (generation = s.store.generation) && decide (s.store.scope = some r.scope)) = false := by
      simpa using hkept
    simp only [hbool, Bool.false_eq_true, if_false]
    refine .inl ⟨?_, .inl (concluded_still s conflict)⟩
    unfold State.takes
    rw [hcall, hanswer]
    cases answer with
    | review found =>
      cases found with
      | none => rfl
      | some x => exact if_neg hkept
    | _ => rfl

theorem landGet_sends (s : State) (r : Request) (generation : Nat) (conflict : Option Conflict) (made : Nat)
    (answer : Answer) : Sends s (s.landGet r generation conflict made answer) := by
  have hconcluded : ∀ (store : Store) (shown : List (Nat × CodeReview)),
      Sends s (({ s with store, shown } : State).concluded conflict) := by
    intro store shown
    unfold State.concluded
    split
    · split
      · exact .store s _ _ _
      · exact .store s _ _ _
    · exact .store s _ _ _
  unfold State.landGet
  dsimp only
  split
  · cases answer with
    | review found => cases found <;> exact hconcluded _ _
    | _ => exact hconcluded _ _
  · exact hconcluded s.store s.shown

theorem landSave_turns (s : State) {made : Nat} {answer : Answer}
    (hcall : (∃ expected comment, r.call = .addComment expected comment) ∨
      ∃ commentId expected, r.call = .deleteComment commentId expected)
    (hanswer : r.answer = some (made, answer)) :
    Turns s (s.takes r) (s.landSave r made answer) ∧ Sends s (s.landSave r made answer) := by
  have htakes : ∀ x, answer = .saved x → s.takes r =
      if s.store.scope = some r.scope ∧ s.store.accepts x = true then some (made, x) else none := by
    rintro x rfl
    rcases hcall with ⟨expected, comment, hcall⟩ | ⟨commentId, expected, hcall⟩ <;> simp [State.takes, hcall, hanswer]
  have hnone : (∀ x, answer ≠ .saved x) → s.takes r = none := by
    intro hsaved
    rcases hcall with ⟨expected, comment, hcall⟩ | ⟨commentId, expected, hcall⟩ <;>
      cases answer <;> simp_all [State.takes]
  unfold State.landSave
  cases answer with
  | saved x =>
    rw [htakes x rfl]
    dsimp only
    by_cases hscope : s.store.scope = some r.scope
    · rw [if_pos hscope]
      by_cases haccepts : s.store.accepts x = true
      · rw [if_pos haccepts, if_pos ⟨hscope, haccepts⟩]
        exact ⟨.inr ⟨(made, x), rfl, ⟨rfl, rfl, rfl, rfl⟩⟩, .store s _ _ _⟩
      · rw [if_neg haccepts, if_neg fun h => haccepts h.2]
        exact ⟨.inl ⟨rfl, .inl ⟨rfl, rfl, rfl, rfl⟩⟩, .store s _ _ _⟩
    · rw [if_neg hscope, if_neg fun h => hscope h.1]
      exact ⟨.inl ⟨rfl, .inl (.refl s)⟩, .refl s⟩
  | failed failure =>
    have hno := hnone nofun
    dsimp only
    split
    · exact ⟨.inl ⟨hno, .inl (refresh_still s _)⟩, refresh_sends s _⟩
    · exact ⟨.inl ⟨hno, .inl (concluded_still s _)⟩, concluded_sends s _⟩
  | _ => exact ⟨.inl ⟨hnone nofun, .inl (.refl s)⟩, .refl s⟩

theorem landSubmit_sends (s : State) (r : Request) (reviewId : ReviewId) (made : Nat) (answer : Answer) :
    Sends s (s.landSubmit r reviewId made answer) := by
  unfold State.landSubmit
  dsimp only
  cases answer with
  | submitted messageId =>
    dsimp only
    split <;> exact .store s _ _ _
  | failed failure =>
    dsimp only
    split
    · exact .store s _ _ _
    · exact .refl s
  | _ => exact .refl s

theorem landSubmit_view (s : State) {reviewId : ReviewId} {revision : Nat} {sessionId : SessionId}
    (made : Nat) (answer : Answer) (hcall : r.call = .submit reviewId revision sessionId) :
    (r.accepts answer = none ∧ Still s (s.landSubmit r reviewId made answer)) ∨
      r.accepts answer = some reviewId ∧ Submits s r made reviewId (s.landSubmit r reviewId made answer) := by
  unfold State.landSubmit
  cases answer with
  | submitted messageId =>
    refine .inr ⟨by simp [Request.accepts, hcall], ?_⟩
    dsimp only
    split
    · exact ⟨.inl rfl, rfl, rfl⟩
    next hhere =>
      exact ⟨.inr ⟨rfl, rfl, by simpa using hhere⟩, rfl, rfl⟩
  | failed failure =>
    refine .inl ⟨rfl, ?_⟩
    dsimp only
    split
    · exact ⟨rfl, rfl, rfl, rfl⟩
    · exact .refl s
  | _ => exact .inl ⟨rfl, .refl s⟩

theorem land_turns (hr : s.requests[i]? = some r) : Sends s (s.land i r) ∧ View s (s.taken (.land i)) (s.land i r) := by
  have htaken : s.taken (.land i) = if r.landed then none else s.takes r := by
    simp [State.taken, hr]
  rw [htaken]
  unfold State.land
  split
  · exact ⟨.refl s, .still rfl (.refl s)⟩
  cases hanswer : r.answer with
  | none =>
    refine ⟨.refl s, .still ?_ (.refl s)⟩
    cases htakes : s.takes r with
    | none => rfl
    | some a =>
      obtain ⟨answer, heq, -⟩ := takes_answer htakes
      cases hanswer.symm.trans heq
  | some a =>
    obtain ⟨made, answer⟩ := a
    have hlanded : Sends s (s.received i r) := .landed hr
    have hstill : Still s (s.received i r) := ⟨rfl, rfl, rfl, rfl⟩
    -- what a get, an addition or a deletion comes to
    have hview : ∀ {t : State}, Turns s (s.takes r) t → View s (s.takes r) t := by
      rintro t (⟨hnone, hs | hc⟩ | ⟨a, ha, hs⟩)
      · exact .still hnone hs
      · exact .cleared hnone hc
      · exact .shown a ha hs
    have hlift : ∀ {t : State}, Turns (s.received i r) (s.takes r) t → Turns s (s.takes r) t := by
      rintro t (⟨hnone, hs | hc⟩ | ⟨a, ha, hs⟩)
      · exact .inl ⟨hnone, .inl (hstill.trans hs)⟩
      · exact .inl ⟨hnone, .inr ⟨hc.review, hc.shown, hc.submitted⟩⟩
      · exact .inr ⟨a, ha, { hs with }⟩
    dsimp only
    cases hcall : r.call with
    | get generation conflict =>
      exact ⟨hlanded.trans (landGet_sends _ r generation conflict made answer) hstill,
        hview (hlift (landGet_turns _ hcall hanswer))⟩
    | addComment expected comment =>
      obtain ⟨hturns, hsends⟩ := landSave_turns (s.received i r) (.inl ⟨expected, comment, hcall⟩) hanswer
      exact ⟨hlanded.trans hsends hstill, hview (hlift hturns)⟩
    | deleteComment commentId expected =>
      obtain ⟨hturns, hsends⟩ := landSave_turns (s.received i r) (.inr ⟨commentId, expected, hcall⟩) hanswer
      exact ⟨hlanded.trans hsends hstill, hview (hlift hturns)⟩
    | submit reviewId revision sessionId =>
      refine ⟨hlanded.trans (landSubmit_sends _ r reviewId made answer) hstill, ?_⟩
      have hnone : s.takes r = none := by simp [State.takes, hcall]
      rcases landSubmit_view (s.received i r) made answer hcall with ⟨-, hs⟩ | ⟨haccepts, hs⟩
      · exact .still hnone (hstill.trans hs)
      · exact .submitted hnone r (mem_of_getElem? hr) made answer hanswer reviewId haccepts
          ⟨hs.review, hs.shown, hs.submitted⟩

def Event.isServer : Event → Bool
  | .server _ | .answer .. => true
  | _ => false

theorem step_turns (s : State) {e : Event} (he : e.isServer = false) :
    Sends s (step s e) ∧ View s (s.taken e) (step s e) := by
  cases e with
  | server _ | answer _ _ => cases he
  | land i =>
    change Sends s (s.onRequest i (s.land i)) ∧ View s _ (s.onRequest i (s.land i))
    unfold State.onRequest
    cases hr : s.requests[i]? with
    | none => exact ⟨.refl s, .still (by simp [State.taken, hr]) (.refl s)⟩
    | some r => exact land_turns hr
  | setScope scope =>
    change Sends s (s.setScope scope) ∧ View s _ (s.setScope scope)
    unfold State.setScope
    split
    · exact ⟨.refl s, .still rfl (.refl s)⟩
    constructor
    · cases scope with
      | none => exact .store s _ _ _
      | some scope => exact .send s _ _ _ nofun
    have hstill := refresh_still { s with store :=
      { s.store with
        generation := s.store.generation + 1, scope, review := none, error := none, submissionError := none
        submitting := false, loading := scope.isSome } } none
    exact .cleared rfl ⟨hstill.review, hstill.shown, hstill.submitted⟩
  | refresh => exact ⟨refresh_sends s none, .still rfl (refresh_still s none)⟩
  | addComment comment =>
    change Sends s (s.addComment comment) ∧ View s _ (s.addComment comment)
    unfold State.addComment
    split
    · exact ⟨.refl s, .still rfl (.refl s)⟩
    · exact ⟨.send s _ _ s.store nofun, .still rfl ⟨rfl, rfl, rfl, rfl⟩⟩
  | deleteComment commentId =>
    change Sends s (s.deleteComment commentId) ∧ View s _ (s.deleteComment commentId)
    unfold State.deleteComment
    split
    · exact ⟨.send s _ _ s.store nofun, .still rfl ⟨rfl, rfl, rfl, rfl⟩⟩
    · exact ⟨.refl s, .still rfl (.refl s)⟩
  | submit sessionId =>
    change Sends s (s.submit sessionId) ∧ View s _ (s.submit sessionId)
    unfold State.submit
    split
    next scope review hscope hreview =>
      split
      · exact ⟨.refl s, .still rfl (.refl s)⟩
      refine ⟨.send s _ _ _ ?_, .still rfl ⟨rfl, rfl, rfl, rfl⟩⟩
      intro id revision sessionId' heq
      cases heq
      exact ⟨review, hreview, rfl, hscope⟩
    · exact ⟨.refl s, .still rfl (.refl s)⟩
  | handleUpdated update =>
    change Sends s (s.handleUpdated update) ∧ View s _ (s.handleUpdated update)
    unfold State.handleUpdated
    split
    · exact ⟨.refl s, .still rfl (.refl s)⟩
    split
    · exact ⟨.refl s, .still rfl (.refl s)⟩
    · exact ⟨refresh_sends s none, .still rfl (refresh_still s none)⟩

end

/-! ## Every run -/

structure Kept (s : State) : Prop where
  served : Served s
  answers : ∀ r ∈ s.requests, ∀ made answer, r.answer = some (made, answer) →
    (∀ x, answer.shows = some x → (made, x) ∈ s.answers ∧ r.scope.has x = true) ∧
      ∀ id, r.accepts answer = some id → (made, id) ∈ s.accepted
  submits : ∀ r ∈ s.requests, ∀ id revision sessionId, r.call = .submit id revision sessionId →
    ∃ a ∈ s.answers, a.2.id = id ∧ r.scope.has a.2 = true
  shown : ∀ h ∈ s.shown, h ∈ s.answers
  review : ∀ x ∈ s.store.review, ∃ scope, s.store.scope = some scope ∧ scope.has x = true ∧ ∃ a ∈ s.answers, a.2 = x
  submitted : ∀ g ∈ s.submitted, g ∈ s.accepted

section

variable {s s' : State}

theorem kept_init : Kept .init := by
  refine ⟨served_init, ?_, ?_, ?_, ?_, ?_⟩ <;> intro x hx <;> cases hx

theorem Served.scope_eq (h : Served s) {b : Nat × CodeReview} (ha : a ∈ s.answers) (hb : b ∈ s.answers)
    (hid : a.2.id = b.2.id) {scope scope' : CodeReviewScope} (hscope : scope.has a.2 = true)
    (hscope' : scope'.has b.2 = true) : scope = scope' := by
  obtain ⟨hproject, htask⟩ := h.scope a ha b hb hid
  simp only [CodeReviewScope.has, Bool.and_eq_true, decide_eq_true_iff] at hscope hscope'
  obtain ⟨projectId, taskId⟩ := scope
  obtain ⟨projectId', taskId'⟩ := scope'
  congr 1
  · exact hscope.1.symm.trans (hproject.trans hscope'.1)
  · exact hscope.2.symm.trans (htask.trans hscope'.2)

theorem Kept.server (h : Kept s) (e : CodeReviews.Event) : Kept (step s (.server e)) :=
  { h with served := h.served.server e }

theorem mayHear_shows {db : Db} {answer : Answer} (h : r.mayHear db answer = true)
    (hx : answer.shows = some x) : x ∈ db.codeReviews ∧ r.scope.has x = true := by
  unfold Request.mayHear at h
  split at h
  next found =>
    split at h
    · rw [show found = some x from hx, decide_eq_true_iff] at h
      exact ⟨mem_of_find?_eq_some h.symm, find?_some (p := r.scope.has) h.symm⟩
    · cases h
  next found =>
    cases hx
    split at h
    · obtain ⟨hmem, hscope⟩ := Bool.and_eq_true_iff.mp h
      exact ⟨contains_iff_mem.mp hmem, hscope⟩
    · obtain ⟨hmem, hscope⟩ := Bool.and_eq_true_iff.mp h
      exact ⟨contains_iff_mem.mp hmem, hscope⟩
    · cases h
  · cases hx
  · cases hx

theorem mayHear_accepts {db : Db} {answer : Answer} {id : ReviewId} (h : r.mayHear db answer = true)
    (hid : r.accepts answer = some id) :
    (∃ revision sessionId, r.call = .submit id revision sessionId) ∧ ∀ row ∈ db.codeReviews, row.id ≠ id := by
  unfold Request.accepts at hid
  split at hid
  · split at hid
    next revision sessionId hcall =>
      cases hid
      refine ⟨⟨revision, sessionId, hcall⟩, ?_⟩
      simpa [Request.mayHear, hcall] using h
    · cases hid
  · cases hid

theorem Kept.answered (h : Kept s) (hr : s.requests[i]? = some r) (answer : Answer) : Kept (s.answer i r answer) := by
  unfold State.answer
  split
  next hmay =>
    have hmem := mem_of_getElem? hr
    -- the server's side first
    have hserved : Served { s with
        answers := s.answers ++ answer.shows.toList.map (s.clock, ·)
        accepted := s.accepted ++ (r.accepts answer).toList.map (s.clock, ·) } := by
      cases hx : answer.shows with
      | some x =>
        have hnone : r.accepts answer = none := by
          cases answer <;> first | rfl | cases hx
        rw [hnone]
        refine (h.served.add (mayHear_shows hmay.2 hx).1).congr rfl rfl rfl ?_
        exact append_nil _
      | none =>
        cases hid : r.accepts answer with
        | none => exact h.served.congr rfl rfl (append_nil _) (append_nil _)
        | some id =>
          obtain ⟨⟨revision, sessionId, hcall⟩, hrows⟩ := mayHear_accepts hmay.2 hid
          obtain ⟨a, ha, haid, -⟩ := h.submits r hmem id revision sessionId hcall
          have hgone : Gone s.server.db id := ⟨haid ▸ (h.served.made a ha).2.1, hrows⟩
          exact (h.served.accept hgone).congr rfl rfl (append_nil _) rfl
    constructor
    · exact hserved.congr rfl rfl rfl rfl
    · intro r' hr' made answer' hanswer'
      rcases mem_or_eq_of_mem_set hr' with hr' | rfl
      · obtain ⟨hshows, haccepts⟩ := h.answers r' hr' made answer' hanswer'
        refine ⟨fun x hx => ?_, fun id hid => mem_append_left _ (haccepts id hid)⟩
        exact ⟨mem_append_left _ (hshows x hx).1, (hshows x hx).2⟩
      cases Option.some_inj.mp hanswer'
      refine ⟨fun x hx => ⟨mem_append_right _ ?_, (mayHear_shows hmay.2 hx).2⟩, fun id hid => ?_⟩
      · rw [hx]
        exact mem_singleton_self _
      apply mem_append_right
      rw [show r.accepts answer = some id from hid]
      exact mem_singleton_self _
    · intro r' hr' id revision sessionId hcall
      have hold : ∃ r₀ ∈ s.requests, r₀.call = r'.call ∧ r₀.scope = r'.scope := by
        rcases mem_or_eq_of_mem_set hr' with hr' | rfl
        · exact ⟨r', hr', rfl, rfl⟩
        · exact ⟨r, hmem, rfl, rfl⟩
      obtain ⟨r₀, hr₀, hcall₀, hscope₀⟩ := hold
      obtain ⟨a, ha, haid, hscope⟩ := h.submits r₀ hr₀ id revision sessionId (hcall₀.trans hcall)
      exact ⟨a, mem_append_left _ ha, haid, hscope₀ ▸ hscope⟩
    · exact fun a ha => mem_append_left _ (h.shown a ha)
    · intro x hx
      obtain ⟨scope, hscope, hhas, a, ha, heq⟩ := h.review x hx
      exact ⟨scope, hscope, hhas, a, mem_append_left _ ha, heq⟩
    · exact fun g hg => mem_append_left _ (h.submitted g hg)
  · exact h

theorem Kept.taken (h : Kept s) {e : Event} (ha : s.taken e = some a) :
    a ∈ s.answers ∧ ∃ scope, s.store.scope = some scope ∧ scope.has a.2 = true := by
  unfold State.taken at ha
  split at ha
  · obtain ⟨r, hr, htakes⟩ := Option.bind_eq_some_iff.mp ha
    split at htakes
    · cases htakes
    obtain ⟨answer, hanswer, hshows, hscope⟩ := takes_answer htakes
    obtain ⟨hmem, hhas⟩ := (h.answers r (mem_of_getElem? hr) a.1 answer hanswer).1 a.2 hshows
    exact ⟨hmem, r.scope, hscope, hhas⟩
  · cases ha

theorem Kept.turned (h : Kept s) {taken : Option (Nat × CodeReview)} (hs : Sends s s') (hv : View s taken s')
    (htaken : ∀ a, taken = some a →
      a ∈ s.answers ∧ ∃ scope, s.store.scope = some scope ∧ scope.has a.2 = true) : Kept s' := by
  have hreviewed : ∀ x ∈ s.store.review, ∃ scope, s.store.scope = some scope ∧ scope.has x = true ∧
      ∃ a ∈ s'.answers, a.2 = x := by
    rw [hs.answers]
    exact h.review
  constructor
  · exact h.served.congr hs.server hs.clock hs.answers hs.accepted
  · intro r' hr' made answer hanswer
    rw [hs.answers, hs.accepted]
    rcases hs.requests r' hr' with ⟨r, hr, hscope, hcall, hsame⟩ | ⟨hnone, -⟩
    · have hold := h.answers r hr made answer (hsame ▸ hanswer)
      rw [hscope, show r'.accepts answer = r.accepts answer by simp only [Request.accepts, hcall]]
      exact hold
    · cases hnone.symm.trans hanswer
  · intro r' hr' id revision sessionId hsubmit
    rw [hs.answers]
    rcases hs.requests r' hr' with ⟨r, hr, hscope, hcall, -⟩ | ⟨-, hnew⟩
    · rw [hscope]
      exact h.submits r hr id revision sessionId (hcall ▸ hsubmit)
    obtain ⟨x, hx, rfl, hscope⟩ := hnew id revision sessionId hsubmit
    obtain ⟨scope, hscope', hhas, a, ha, rfl⟩ := h.review x hx
    cases hscope.symm.trans hscope'
    exact ⟨a, ha, rfl, hhas⟩
  · rw [hs.answers]
    cases hv with
    | still _ hstill => exact hstill.shown ▸ h.shown
    | cleared _ hclears => exact hclears.shown ▸ h.shown
    | submitted _ _ _ _ _ _ _ _ hsubmits => exact hsubmits.shown ▸ h.shown
    | shown a ha hshows =>
      rw [hshows.shown]
      intro g hg
      rcases mem_append.mp hg with hg | hg
      · exact h.shown g hg
      · rw [mem_singleton.mp hg]
        exact (htaken a ha).1
  · intro x hx
    cases hv with
    | still _ hstill =>
      rw [hstill.scope]
      exact hreviewed x (hstill.review ▸ hx)
    | cleared _ hclears =>
      rw [hclears.review] at hx
      cases hx
    | submitted _ _ _ _ _ _ _ _ hsubmits =>
      rcases hsubmits.review with hnone | ⟨hsame, hscope, -⟩
      · cases hnone.symm.trans hx
      · rw [hscope]
        exact hreviewed x (hsame ▸ hx)
    | shown a ha hshows =>
      rw [hshows.review] at hx
      cases hx
      obtain ⟨hmem, scope, hscope, hhas⟩ := htaken a ha
      exact ⟨scope, hshows.scope.trans hscope, hhas, a, hs.answers ▸ hmem, rfl⟩
  · rw [hs.accepted]
    cases hv with
    | still _ hstill => exact hstill.submitted ▸ h.submitted
    | cleared _ hclears => exact hclears.submitted ▸ h.submitted
    | shown _ _ hshows => exact hshows.submitted ▸ h.submitted
    | submitted _ r hr made answer hanswer reviewId haccepts hsubmits =>
      rw [hsubmits.submitted]
      intro g hg
      rcases mem_append.mp hg with hg | hg
      · exact h.submitted g hg
      · rw [mem_singleton.mp hg]
        exact (h.answers r hr made answer hanswer).2 reviewId haccepts

/-- A step that takes nothing keeps what is shown from going back. -/
theorem Kept.forward_of_none (h : Kept s) {taken : Option (Nat × CodeReview)} (hv : View s taken s')
    (hnone : taken = none) (hf : ForwardOnly s) : ForwardOnly s' := by
  intro x hx
  cases hv with
  | still _ hstill =>
    rw [hstill.shown, hstill.submitted]
    exact hf x (hstill.review ▸ hx)
  | cleared _ hclears =>
    rw [hclears.review] at hx
    cases hx
  | shown a ha _ =>
    cases hnone.symm.trans ha
  | submitted _ r hr made answer hanswer reviewId haccepts hsubmits =>
    rcases hsubmits.review with hreview | ⟨hsame, -, hscope⟩
    · cases hreview.symm.trans hx
    rw [hsame] at hx
    rw [hsubmits.shown, hsubmits.submitted]
    refine ⟨(hf x hx).1, ?_⟩
    intro g hg
    rcases mem_append.mp hg with hg | hg
    · exact (hf x hx).2 g hg
    -- the submitted review is of the scope it was submitted from, which is another
    rw [mem_singleton.mp hg]
    intro heq
    obtain ⟨revision, sessionId, hcall⟩ : ∃ revision sessionId, r.call = .submit reviewId revision sessionId := by
      unfold Request.accepts at haccepts
      split at haccepts
      · split at haccepts
        next hcall =>
          exact ⟨_, _, Option.some_inj.mp haccepts ▸ hcall⟩
        · cases haccepts
      · cases haccepts
    obtain ⟨a, ha, haid, hhas⟩ := h.submits r hr reviewId revision sessionId hcall
    obtain ⟨scope, hscope', hhas', b, hb, rfl⟩ := h.review x hx
    rw [h.served.scope_eq ha hb (haid.trans heq) hhas hhas'] at hscope
    exact hscope hscope'

/-- A step that takes a review keeps it from going back where it takes it in order. -/
theorem Kept.forward_of_some (h : Kept s) (ha : a ∈ s.answers) (hshows : Shows s a s') :
    ForwardOnly s' ↔ (∀ g ∈ s.shown, g.2.id = a.2.id → a.1 < g.1 → g.2.revision = a.2.revision) ∧
      ∀ g ∈ s.submitted, g.2 = a.2.id → g.1 ≤ a.1 := by
  constructor
  · intro hf
    obtain ⟨hshown, hsubmitted⟩ := hf a.2 hshows.review
    constructor
    · intro g hg hid hlt
      have hle : g.2.revision ≤ a.2.revision := hshown g (hshows.shown ▸ mem_append_left _ hg) hid
      have hge := h.served.ordered a ha g (h.shown g hg) hid.symm (Nat.le_of_lt hlt)
      exact Nat.le_antisymm hle hge
    · intro g hg hid
      exact absurd hid (hsubmitted g (hshows.submitted ▸ hg))
  · rintro ⟨hshown, hsubmitted⟩ x hx
    rw [hshows.review] at hx
    cases hx
    constructor
    · intro g hg hid
      rw [hshows.shown] at hg
      rcases mem_append.mp hg with hg | hg
      · rcases Nat.lt_or_ge a.1 g.1 with hlt | hge
        · exact Nat.le_of_eq (hshown g hg hid hlt)
        · exact h.served.ordered g (h.shown g hg) a ha hid hge
      · rw [mem_singleton.mp hg]
    · intro g hg hid
      rw [hshows.submitted] at hg
      -- the server had it before it accepted the submission
      have hlt := (h.served.accepted g (h.submitted g hg)).2 a ha hid.symm
      exact absurd (hsubmitted g hg hid) (Nat.not_le_of_lt hlt)

theorem Kept.step (h : Kept s) (e : Event) : Kept (CodeReviewStore.step s e) := by
  cases e with
  | server e => exact h.server e
  | answer i answer =>
    change Kept (s.onRequest i fun r => s.answer i r answer)
    unfold State.onRequest
    cases hr : s.requests[i]? with
    | none => exact h
    | some r => exact h.answered hr answer
  | _ =>
    have hturns := fun e he => step_turns s (e := e) he
    exact h.turned (hturns _ rfl).1 (hturns _ rfl).2 fun a ha => h.taken ha

theorem Kept.forward_step (h : Kept s) (e : Event) (hf : ForwardOnly s) :
    ForwardOnly (CodeReviewStore.step s e) ↔ InServerOrder s e := by
  have hstore : ∀ {taken}, s.taken e = taken → View s taken (CodeReviewStore.step s e) →
      (ForwardOnly (CodeReviewStore.step s e) ↔ InServerOrder s e) := by
    intro taken htaken hv
    unfold InServerOrder
    cases taken with
    | none =>
      rw [htaken]
      exact iff_of_true (h.forward_of_none hv rfl hf) nofun
    | some a =>
      rw [htaken]
      cases hv with
      | shown b hb hshows =>
        cases hb
        rw [h.forward_of_some (h.taken htaken).1 hshows]
        exact ⟨fun hok b hb => Option.some_inj.mp hb ▸ hok, fun hok => hok a rfl⟩
      | still hnone _ | cleared hnone _ | submitted hnone => cases hnone
  cases e with
  | server e => exact hstore rfl (.still rfl ⟨rfl, rfl, rfl, rfl⟩)
  | answer i answer =>
    refine hstore rfl (.still rfl ?_)
    change Still s (s.onRequest i fun r => s.answer i r answer)
    unfold State.onRequest
    cases s.requests[i]? with
    | none => exact .refl s
    | some r =>
      change Still s (s.answer i r answer)
      unfold State.answer
      split
      · exact ⟨rfl, rfl, rfl, rfl⟩
      · exact .refl s
  | _ => exact hstore rfl (step_turns s rfl).2

end

/-- **The shown review goes back exactly where an answer is taken out of the server's order.** -/
theorem review_forward (es : List Event) : Always step ForwardOnly .init es ↔ Along step InServerOrder .init es :=
  always_iff_along_of Kept ForwardOnly (fun _ e h => h.step e) (fun _ e h hf => h.forward_step e hf) kept_init
    nofun es

def firstComment : NewReviewAnnotation :=
  { id := [1]
    anchor :=
      { path := [2], oldPath := none, side := .new, startLine := 1, lines := [⟨.addition, [3]⟩]
        fileFingerprint := none, filePatch := Utf.js "diff --git ", baseRevision := none, headRevision := none }
    entry := { id := [5], author := [6], body := [7], createdAt := [8], sourceKey := none, sourceUrl := none } }

def emptyReview : CodeReview :=
  { id := [9], projectId := 1, taskId := none, revision := 0, createdAt := [], updatedAt := [], annotations := [] }

def commentedReview : CodeReview := emptyReview.saved [⟨firstComment.id, firstComment.anchor, [firstComment.entry]⟩] []

def overtakenRefresh : List Event :=
  [.server (.tables [1] [] []), .server (.createCodeReview 1 none [9] []), .setScope (some ⟨1, none⟩), .refresh,
   .answer 0 (.review (some emptyReview)), .server (.add 1 ⟨none, some ⟨[9], 0⟩, firstComment⟩ [10] []),
   .answer 1 (.review (some commentedReview)), .land 1, .land 0]

/-- The refresh that lands last shows the review at a revision before the one that was shown. -/
theorem overtaken_refresh_goes_back :
    (Run.exec step .init overtakenRefresh).shown.map (fun h => (h.2.id, h.2.revision)) = [([9], 1), ([9], 0)] ∧
      ¬ForwardOnly (Run.exec step .init overtakenRefresh) := by
  have hshown : (Run.exec step .init overtakenRefresh).shown = [(3, commentedReview), (2, emptyReview)] := by
    decide
  have hreview : (Run.exec step .init overtakenRefresh).store.review = some emptyReview := by decide
  refine ⟨hshown ▸ rfl, ?_⟩
  intro h
  have hle := (h emptyReview hreview).1 (3, commentedReview) (by rw [hshown]; exact mem_cons_self) rfl
  cases hle

end Reins.CodeReviewStore
