import Reins.Lib.Run
import Reins.Lib.TailChain
import Reins.Frontend.ConversationsStore

/-!
# A client's session operations (`frontend/src/models/session-operations.ts`)

A session's submissions, model changes and compactions go one at a time: each is chained on the tail in the
session's entry of `tails`, which is the newest's until that settles. A submission shows its input in the
session's conversation at once and is sent until the server answers it. The saved entry takes the input's
place, or the refusal takes it away, whichever comes; a conversation that nobody views is dropped with both.
-/

namespace Reins.SessionOperations

open Chat Conversations Places List Run
open Store (ConversationEntry)

abbrev SessionId := String

inductive SubmissionOp
  | prompt
  | steer
  deriving DecidableEq

def SubmissionOp.text : SubmissionOp → String
  | .prompt => "prompt"
  | .steer => "steer"

inductive Failure
  /-- fetch's `TypeError`. -/
  | network (message : String)
  /-- A `ReinsHttpError`. -/
  | http (status : Nat) (message : String)
  | other (message : String)
  deriving DecidableEq

def Failure.message : Failure → String
  | .network message | .http _ message | .other message => message

/-- The request failed on the network, or the server was between apps (503). -/
def Failure.unanswered : Failure → Bool
  | .network _ => true
  | .http status _ => status = 503
  | .other _ => false

structure SessionModelUpdate where
  runtimeType : Option String
  provider : String
  modelId : String
  thinkingLevel : Option String

inductive Request
  | submission (op : SubmissionOp) (clientId : String) (message : Content)
  | setModel (update : SessionModelUpdate)
  | compact (instructions : Option String)

/-- It is sent until it is answered. -/
def Request.isSubmission : Request → Bool
  | .submission .. => true
  | .setModel _ | .compact _ => false

def firstRetryMs : Nat := 1000
def maxRetryMs : Nat := 10000

inductive Phase
  | queued
  /-- Its request is made; `delay` is how long it would wait to make it again. -/
  | inFlight (delay : Nat)
  | waiting (delay : Nat)
  /-- `sent`, and so its tail. -/
  | settled (failure : Option Failure)
  deriving DecidableEq

structure Operation where
  request : Request
  after : Option Nat
  phase : Phase
  sent : List Request
  heard : List (Option Failure)
  /-- A submission's refusal has reached its conversation. -/
  rejected : Bool

section

variable (γ : Type)

structure Session where
  operations : List Operation
  /-- The operation whose tail is in `tails`. -/
  tail : Option Nat
  conversation : Conversation γ
  listeners : Nat
  running : Bool

def Session.init : Session γ := ⟨[], none, .pruned γ, 0, false⟩

inductive Event
  | submit (op : SubmissionOp) (content : Content) (clientId : String)
  | setModel (update : SessionModelUpdate)
  | compact (instructions : Option String)
  | send (i : Nat)
  | answer (i : Nat) (failure : Option Failure)
  | sendAgain (i : Nat)
  /-- The continuation of a submission that was refused. -/
  | reject (i : Nat)
  | clearTail (i : Nat)
  | mergeMessages (page : MessageRecordPage γ) (earlier restoreError : Bool)
  | applyEvent (event : ChatEvent ConversationEntry) (seq : Nat)
  | endRun
  | clearCompactingState
  | setError (errorMessage : String)
  | subscribe
  | unsubscribe
  | cacheUpdate (running : Bool)
  | pruneInactive

end

variable {γ : Type}

def Event.clientId : Event γ → Option String
  | .submit _ _ clientId => some clientId
  | _ => none

def Event.entries : Event γ → List ConversationEntry
  | .mergeMessages page _ _ => page.items
  | .applyEvent (.entryAdded entry) _ => [entry]
  | _ => []

section

variable (locale : Collation) (sessionId : SessionId) (s : Session γ)

def Session.converse (f : ConversationState γ → ConversationState γ) : Session γ :=
  if sessionId = "" then s else { s with conversation := { s.conversation with state := f s.conversation.state } }

def Session.inOrder (request : Request) : Session γ :=
  { s with
    operations := s.operations ++ [⟨request, s.tail, .queued, [], [], false⟩]
    tail := some s.operations.length }

def Session.addOptimisticUserMessage (content : Content) (clientId : String) :
    Option (LiveConversationEntry × ConversationState γ) :=
  if sessionId = "" then none else s.conversation.state.addPendingSubmission locale content clientId

def Session.submit (op : SubmissionOp) (content : Content) (clientId : String) : Session γ :=
  match s.addOptimisticUserMessage locale sessionId content clientId with
  | none => s
  | some (_, state) =>
    ({ s with conversation := { s.conversation with state } } : Session γ).inOrder (.submission op clientId content)

def Operation.isSettled (o : Operation) : Bool :=
  match o.phase with
  | .settled _ => true
  | _ => false

def Operation.isInFlight (o : Operation) : Bool :=
  match o.phase with
  | .inFlight _ => true
  | _ => false

/-- The operation that was made at place `i` goes on. -/
def Session.onOperation (i : Nat) (f : Operation → Session γ) : Session γ := (s.operations[i]?).elim s f

def Session.setOperation (i : Nat) (o : Operation) : Session γ := { s with operations := s.operations.set i o }

/-- The tail it waits for has settled, or there was none. -/
def Session.ready (o : Operation) : Bool := o.after.all fun t => (s.operations[t]?).any (·.isSettled)

def Operation.requested (o : Operation) (delay : Nat) : Operation :=
  { o with phase := .inFlight delay, sent := o.sent ++ [o.request] }

def Session.send (i : Nat) (o : Operation) : Session γ :=
  match o.phase with
  | .queued => if s.ready o then s.setOperation i (o.requested firstRetryMs) else s
  | _ => s

def Operation.answered (o : Operation) (delay : Nat) (failure : Option Failure) : Operation :=
  { o with
    heard := o.heard ++ [failure]
    phase := if o.request.isSubmission && failure.any (·.unanswered) then .waiting delay else .settled failure }

def Session.answer (i : Nat) (o : Operation) (failure : Option Failure) : Session γ :=
  match o.phase with
  | .inFlight delay => s.setOperation i (o.answered delay failure)
  | _ => s

def Session.sendAgain (i : Nat) (o : Operation) : Session γ :=
  match o.phase with
  | .waiting delay => s.setOperation i (o.requested (min (delay * 2) maxRetryMs))
  | _ => s

def Session.reject (i : Nat) (o : Operation) : Session γ :=
  match o.request, o.phase, o.rejected with
  | .submission op clientId _, .settled (some failure), false =>
    (s.setOperation i { o with rejected := true }).converse sessionId
      (·.rejectSubmission locale clientId (op.text ++ " failed: " ++ failure.message))
  | _, _, _ => s

def Session.clearTail (i : Nat) (o : Operation) : Session γ :=
  if o.isSettled then { s with tail := if s.tail = some i then none else s.tail } else s

def Session.pruneSessionIfInactive : Session γ :=
  if s.listeners = 0 ∧ s.running = false then { s with conversation := .pruned γ } else s

def Session.unsubscribe : Session γ :=
  match s.listeners with
  | 0 => s
  | 1 => ({ s with listeners := 0 } : Session γ).pruneSessionIfInactive
  | listeners + 2 => { s with listeners := listeners + 1 }

def Session.step : Event γ → Session γ
  | .submit op content clientId => s.submit locale sessionId op content clientId
  | .setModel update => s.inOrder (.setModel update)
  | .compact instructions => s.inOrder (.compact instructions)
  | .send i => s.onOperation i (s.send i)
  | .answer i failure => s.onOperation i fun o => s.answer i o failure
  | .sendAgain i => s.onOperation i (s.sendAgain i)
  | .reject i => s.onOperation i (s.reject locale sessionId i)
  | .clearTail i => s.onOperation i (s.clearTail i)
  | .mergeMessages page earlier restoreError => s.converse sessionId (·.mergeMessages locale page earlier restoreError)
  | .applyEvent event seq =>
    if sessionId = "" then s else { s with conversation := s.conversation.applyEvent locale event seq }
  | .endRun => s.converse sessionId (·.endRun locale)
  | .clearCompactingState => s.converse sessionId (·.clearCompactingState locale)
  | .setError errorMessage => s.converse sessionId (·.setError locale errorMessage)
  | .subscribe => if sessionId = "" then s else { s with listeners := s.listeners + 1 }
  | .unsubscribe => s.unsubscribe
  | .cacheUpdate running => ({ s with running } : Session γ).pruneSessionIfInactive
  | .pruneInactive => s.pruneSessionIfInactive

def Session.Drops : Event γ → Prop
  | .unsubscribe => s.listeners = 1 ∧ s.running = false
  | .cacheUpdate running => s.listeners = 0 ∧ running = false
  | .pruneInactive => s.listeners = 0 ∧ s.running = false
  | _ => False

end

abbrev State (γ : Type) := SessionId → Session γ

def State.init (γ : Type) : State γ := fun _ => .init γ

def step (locale : Collation) : State γ → SessionId × Event γ → State γ :=
  stepAt fun sessionId s e => s.step locale sessionId e

/-! ## What holds of every run -/

def Session.Pending (s : Session γ) (clientId : String) : Prop :=
  ∃ p ∈ s.conversation.state.pendingSubmissions, p.clientId = clientId

def Session.Stored (s : Session γ) (clientId : String) : Prop :=
  ∃ e ∈ s.conversation.state.entries, e.clientId = some clientId

structure InOrder (locale : Collation) (sessionId : SessionId) (s : Session γ) : Prop where
  single : ∀ (i j : Nat) (a b : Operation), s.operations[i]? = some a → s.operations[j]? = some b →
    a.isInFlight = true → b.isInFlight = true → i = j
  order : ∀ (i j : Nat) (a b : Operation), i < j → s.operations[i]? = some a → s.operations[j]? = some b →
    b.sent ≠ [] → a.isSettled = true
  /-- Once those before it have settled, however they did, the next is sent. -/
  unblocked : ∀ (j : Nat) (b : Operation), s.operations[j]? = some b → b.phase = .queued →
    (∀ (i : Nat) (a : Operation), i < j → s.operations[i]? = some a → a.isSettled = true) →
    (s.step locale sessionId (.send j)).operations[j]? = some (b.requested firstRetryMs)
  own : ∀ o ∈ s.operations, ∀ r ∈ o.sent, r = o.request
  /-- A request made again is a submission's, and the one before it was not answered. -/
  again : ∀ o ∈ s.operations, ∀ k, k + 1 < o.sent.length →
    o.request.isSubmission = true ∧ ∃ failure, o.heard[k]? = some (some failure) ∧ failure.unanswered = true
  answered : ∀ o ∈ s.operations, o.request.isSubmission = true → ∀ failure, o.phase = .settled failure →
    o.heard.getLast? = some failure ∧ failure.any (·.unanswered) = false

structure Shown (locale : Collation) (sessionId : SessionId) (s : Session γ) : Prop where
  notBoth : ∀ clientId, ¬(s.Pending clientId ∧ s.Stored clientId)
  refusal : ∀ (i : Nat) (o : Operation) (op : SubmissionOp) (clientId : String) (content : Content)
    (failure : Failure), s.operations[i]? = some o → o.request = .submission op clientId content →
    o.phase = .settled (some failure) → o.rejected = false →
    ¬(s.step locale sessionId (.reject i)).Pending clientId ∧
      (s.step locale sessionId (.reject i)).conversation.state.errorMessage = op.text ++ " failed: " ++ failure.message

/-- `admitted` has settled. -/
def Operation.isAnswered (o : Operation) : Bool := o.phase = .settled none || o.rejected

def HeldOrRefused (locale : Collation) (es : List (SessionId × Event γ)) : Prop :=
  ∀ (clientOf : EntryId → Option String) (before after : List (SessionId × Event γ)) (sessionId : SessionId)
    (op : SubmissionOp) (content : Content) (clientId : String),
    es = before ++ (sessionId, .submit op content clientId) :: after →
    let s := exec (step locale) (State.init γ) before sessionId
    let s' := exec (step locale) (State.init γ) es sessionId
    (s.addOptimisticUserMessage locale sessionId content clientId).isSome = true →
    (∀ e, (sessionId, e) ∈ before ++ after → e.clientId ≠ some clientId) →
    -- an entry's id is one saved row's
    (∀ e, (sessionId, e) ∈ es → ∀ entry ∈ e.entries, entry.clientId = clientOf entry.id) →
    Along (fun t e => Session.step locale sessionId t e) (fun t e => ¬t.Drops e)
      (s.submit locale sessionId op content clientId) (ofKey sessionId after) →
    ∃ o, s'.operations[s.operations.length]? = some o ∧ o.request = .submission op clientId content ∧
      (s'.Pending clientId ∧ ¬s'.Stored clientId ∨ s'.Stored clientId ∧ ¬s'.Pending clientId ∨
        ¬s'.Pending clientId ∧ ¬s'.Stored clientId ∧ o.rejected = true ∧ ∃ failure, o.phase = .settled (some failure))

/-! ## The operations -/

inductive Moves (s : Session γ) (o : Operation) : Operation → Prop
  | send (hphase : o.phase = .queued) (hready : s.ready o = true) : Moves s o (o.requested firstRetryMs)
  | answer {delay : Nat} (hphase : o.phase = .inFlight delay) (failure : Option Failure) :
    Moves s o (o.answered delay failure)
  | sendAgain {delay : Nat} (hphase : o.phase = .waiting delay) : Moves s o (o.requested (min (delay * 2) maxRetryMs))
  | reject {failure : Failure} (hphase : o.phase = .settled (some failure)) : Moves s o { o with rejected := true }

inductive Works (sessionId : SessionId) (s : Session γ) (e : Event γ) (s' : Session γ) : Prop
  | none (hops : s'.operations = s.operations) (htail : s'.tail = s.tail)
  | enter (request : Request) (hrequest : ∀ op clientId content, request = .submission op clientId content →
      sessionId ≠ "" ∧ e.clientId = some clientId)
    (hops : s'.operations = s.operations ++ [⟨request, s.tail, .queued, [], [], false⟩])
    (htail : s'.tail = some s.operations.length)
  | move (i : Nat) (o o' : Operation) (ho : s.operations[i]? = some o) (hmove : Moves s o o')
    (hops : s'.operations = s.operations.set i o') (htail : s'.tail = s.tail)
  | release (i : Nat) (o : Operation) (ho : s.operations[i]? = some o) (hsettled : o.isSettled = true)
    (hops : s'.operations = s.operations) (htail : s'.tail = if s.tail = some i then Option.none else s.tail)

section

variable (locale : Collation) (sessionId : SessionId) (s : Session γ)

@[simp] theorem converse_operations (f : ConversationState γ → ConversationState γ) :
    (s.converse sessionId f).operations = s.operations := by
  unfold Session.converse
  split <;> rfl

@[simp] theorem converse_tail (f : ConversationState γ → ConversationState γ) :
    (s.converse sessionId f).tail = s.tail := by
  unfold Session.converse
  split <;> rfl

@[simp] theorem prune_operations : s.pruneSessionIfInactive.operations = s.operations := by
  unfold Session.pruneSessionIfInactive
  split <;> rfl

@[simp] theorem prune_tail : s.pruneSessionIfInactive.tail = s.tail := by
  unfold Session.pruneSessionIfInactive
  split <;> rfl

theorem works_onOperation {e : Event γ} {i : Nat} {f : Operation → Session γ}
    (h : ∀ o, s.operations[i]? = some o → Works sessionId s e (f o)) :
    Works sessionId s e (s.onOperation i f) := by
  unfold Session.onOperation
  cases ho : s.operations[i]? with
  | none => exact .none rfl rfl
  | some o => exact h o ho

theorem step_works (e : Event γ) : Works sessionId s e (s.step locale sessionId e) := by
  cases e with
  | submit op content clientId =>
    change Works sessionId s _ (s.submit locale sessionId op content clientId)
    unfold Session.submit
    split
    · exact .none rfl rfl
    rename_i hadd
    refine .enter (.submission op clientId content) ?_ rfl rfl
    intro op' clientId' content' heq
    obtain ⟨-, rfl, -⟩ := Request.submission.inj heq
    refine ⟨?_, rfl⟩
    intro hsession
    unfold Session.addOptimisticUserMessage at hadd
    rw [if_pos hsession] at hadd
    cases hadd
  | setModel update => exact .enter (.setModel update) nofun rfl rfl
  | compact instructions => exact .enter (.compact instructions) nofun rfl rfl
  | send i =>
    apply works_onOperation
    intro o ho
    unfold Session.send
    split
    next hphase =>
      split
      next hready =>
        exact .move i o _ ho (.send hphase hready) rfl rfl
      · exact .none rfl rfl
    · exact .none rfl rfl
  | answer i failure =>
    apply works_onOperation
    intro o ho
    unfold Session.answer
    split
    next delay hphase =>
      exact .move i o _ ho (.answer hphase failure) rfl rfl
    · exact .none rfl rfl
  | sendAgain i =>
    apply works_onOperation
    intro o ho
    unfold Session.sendAgain
    split
    next delay hphase =>
      exact .move i o _ ho (.sendAgain hphase) rfl rfl
    · exact .none rfl rfl
  | reject i =>
    apply works_onOperation
    intro o ho
    unfold Session.reject
    split
    next hphase _ =>
      refine .move i o _ ho (.reject hphase) ?_ ?_
      · rw [converse_operations]
        rfl
      · rw [converse_tail]
        rfl
    · exact .none rfl rfl
  | clearTail i =>
    apply works_onOperation
    intro o ho
    unfold Session.clearTail
    split
    next hsettled =>
      exact .release i o ho hsettled rfl rfl
    · exact .none rfl rfl
  | applyEvent event seq =>
    change Works sessionId s _ (if sessionId = "" then s else _)
    split <;> exact .none rfl rfl
  | subscribe =>
    change Works sessionId s _ (if sessionId = "" then s else _)
    split <;> exact .none rfl rfl
  | unsubscribe =>
    change Works sessionId s _ s.unsubscribe
    unfold Session.unsubscribe
    split
    · exact .none rfl rfl
    · exact .none (prune_operations _) (prune_tail _)
    · exact .none rfl rfl
  | cacheUpdate running => exact .none (prune_operations _) (prune_tail _)
  | pruneInactive => exact .none (prune_operations s) (prune_tail s)
  | mergeMessages page earlier restoreError => exact .none (converse_operations ..) (converse_tail ..)
  | endRun => exact .none (converse_operations ..) (converse_tail ..)
  | clearCompactingState => exact .none (converse_operations ..) (converse_tail ..)
  | setError errorMessage => exact .none (converse_operations ..) (converse_tail ..)

end

/-! ### One operation -/

structure Operation.Ok (o : Operation) : Prop where
  own : ∀ r ∈ o.sent, r = o.request
  sent : o.sent.length = o.heard.length + if o.isInFlight then 1 else 0
  queued : o.phase = .queued → o.heard = []
  pending : o.isSettled = false → ∀ heard ∈ o.heard,
    o.request.isSubmission = true ∧ ∃ failure, heard = some failure ∧ failure.unanswered = true
  settled : ∀ failure, o.phase = .settled failure → ∃ earlier, o.heard = earlier ++ [failure] ∧ (∀ heard ∈ earlier,
      o.request.isSubmission = true ∧ ∃ failure, heard = some failure ∧ failure.unanswered = true) ∧
    (o.request.isSubmission = true → failure.any (·.unanswered) = false)
  refused : o.rejected = true → ∃ failure, o.phase = .settled (some failure)

section

variable {s : Session γ} {o o' : Operation}

theorem Operation.Ok.enter (request : Request) (after : Option Nat) :
    Operation.Ok ⟨request, after, .queued, [], [], false⟩ where
  own := nofun
  sent := rfl
  queued _ := rfl
  pending _ := nofun
  settled := nofun
  refused := nofun

theorem Operation.Ok.requested (h : o.Ok) (hflight : o.isInFlight = false) (hsettled : o.isSettled = false)
    (delay : Nat) : (o.requested delay).Ok where
  own r hr := by
    rcases mem_append.mp hr with hr | hr
    · exact h.own r hr
    · exact mem_singleton.mp hr
  sent := by
    have hsent := h.sent
    rw [hflight] at hsent
    simp [Operation.requested, Operation.isInFlight, hsent]
  queued := nofun
  pending _ := h.pending hsettled
  settled := nofun
  refused hrejected := by
    obtain ⟨failure, hphase⟩ := h.refused hrejected
    simp [Operation.isSettled, hphase] at hsettled

theorem Operation.Ok.answered (h : o.Ok) {delay : Nat} (hphase : o.phase = .inFlight delay)
    (failure : Option Failure) : (o.answered delay failure).Ok := by
  have hopen := h.pending (by simp [Operation.isSettled, hphase])
  have hsent : o.sent.length = o.heard.length + 1 := by
    simpa [Operation.isInFlight, hphase] using h.sent
  have hrefused : o.rejected ≠ true := by
    intro hrejected
    obtain ⟨f, hsettled⟩ := h.refused hrejected
    cases hphase.symm.trans hsettled
  by_cases hagain : (o.request.isSubmission && failure.any (·.unanswered)) = true
  · have hnext : (o.answered delay failure).phase = .waiting delay := if_pos hagain
    obtain ⟨hsubmission, hfailure⟩ := Bool.and_eq_true_iff.mp hagain
    constructor
    · exact h.own
    · have hflight : (o.answered delay failure).isInFlight = false := by simp [Operation.isInFlight, hnext]
      rw [hflight]
      simpa [Operation.answered] using hsent
    · simp [hnext]
    · intro _ heard hheard
      rcases mem_append.mp hheard with hheard | hheard
      · exact hopen heard hheard
      rw [mem_singleton.mp hheard]
      refine ⟨hsubmission, ?_⟩
      cases failure with
      | none => cases hfailure
      | some f => exact ⟨f, rfl, hfailure⟩
    · simp [hnext]
    · exact fun hrejected => absurd hrejected hrefused
  · have hnext : (o.answered delay failure).phase = .settled failure := if_neg hagain
    constructor
    · exact h.own
    · have hflight : (o.answered delay failure).isInFlight = false := by simp [Operation.isInFlight, hnext]
      rw [hflight]
      simpa [Operation.answered] using hsent
    · simp [hnext]
    · simp [Operation.isSettled, hnext]
    · intro f hf
      cases hnext.symm.trans hf
      refine ⟨o.heard, rfl, hopen, ?_⟩
      intro hsubmission
      have hnot := Bool.eq_false_iff.mpr hagain
      rwa [show o.request.isSubmission = true from hsubmission, Bool.true_and] at hnot
    · exact fun hrejected => absurd hrejected hrefused

theorem Operation.Ok.moves (h : o.Ok) (hmove : Moves s o o') : o'.Ok := by
  cases hmove with
  | send hphase _ => apply h.requested <;> simp [Operation.isInFlight, Operation.isSettled, hphase]
  | answer hphase failure => exact h.answered hphase failure
  | sendAgain hphase => apply h.requested <;> simp [Operation.isInFlight, Operation.isSettled, hphase]
  | reject hphase => exact { h with refused := fun _ => ⟨_, hphase⟩ }

theorem Moves.after (hmove : Moves s o o') : o'.after = o.after := by cases hmove <;> rfl

theorem Moves.request (hmove : Moves s o o') : o'.request = o.request := by cases hmove <;> rfl

theorem Moves.settled (hmove : Moves s o o') (hsettled : o.isSettled = true) : o'.isSettled = true := by
  cases hmove with
  | reject _ => exact hsettled
  | _ => simp_all [Operation.isSettled]

theorem Moves.rejected (hmove : Moves s o o') (hrejected : o.rejected = true) : o'.rejected = true := by
  cases hmove with
  | reject _ => rfl
  | _ => exact hrejected

theorem Moves.begins (hmove : Moves s o o') (hbegun : o'.phase ≠ .queued) : o.phase ≠ .queued ∨ s.ready o = true := by
  cases hmove with
  | send _ hready => exact .inr hready
  | answer hphase _ => exact .inl (by rw [hphase]; exact nofun)
  | sendAgain hphase => exact .inl (by rw [hphase]; exact nofun)
  | reject _ => exact .inl hbegun

end

/-! ### The chain -/

structure Chained (s : Session γ) : Prop where
  line : TailChain.Line (·.after) (·.phase ≠ .queued) (·.isSettled = true) s.operations
  table : TailChain.Table (·.isSettled = true) s.operations s.tail
  ok : ∀ o ∈ s.operations, o.Ok

section

variable {s s' : Session γ}

theorem begun_of_settled (o : Operation) (h : o.isSettled = true) : o.phase ≠ .queued := by
  intro hphase
  simp [Operation.isSettled, hphase] at h

theorem Chained.init : Chained (.init γ) where
  line := .nil
  table := .nil
  ok := nofun

theorem Chained.works {sessionId : SessionId} {e : Event γ} (h : Chained s) (hw : Works sessionId s e s') :
    Chained s' := by
  cases hw with
  | none hops htail => exact ⟨hops ▸ h.line, hops ▸ htail ▸ h.table, hops ▸ h.ok⟩
  | enter request _ hops htail =>
    constructor
    · rw [hops]
      exact h.line.enter h.table rfl (fun hnot => hnot rfl)
    · rw [hops, htail]
      exact .enter _ _ _
    · rw [hops]
      intro o ho
      rcases mem_append.mp ho with ho | ho
      · exact h.ok o ho
      · rw [mem_singleton.mp ho]
        exact .enter request s.tail
  | move i o o' ho hmove hops htail =>
    constructor
    · rw [hops]
      apply h.line.set ho hmove.after hmove.settled
      intro hbegun
      rcases hmove.begins hbegun with hbegun | hready
      · exact .inl hbegun
      right
      intro k z hki hz
      refine h.line.ready begun_of_settled ho ?_ hki hz
      -- the tail it waits for has settled
      intro t ht x hx
      unfold Session.ready at hready
      rw [Option.mem_def.mp ht, Option.all_some, hx, Option.any_some] at hready
      exact hready
    · rw [hops, htail]
      exact h.table.set ho hmove.settled
    · rw [hops]
      intro p hp
      rcases mem_or_eq_of_mem_set hp with hp | rfl
      · exact h.ok p hp
      · exact (h.ok o (mem_of_getElem? ho)).moves hmove
  | release i o ho hsettled hops htail =>
    refine ⟨hops ▸ h.line, ?_, hops ▸ h.ok⟩
    rw [hops, htail]
    exact h.table.release h.line ho hsettled (begun_of_settled o hsettled)

theorem Chained.begun (h : Chained s) {o : Operation} (ho : o ∈ s.operations) (hsent : o.sent ≠ []) :
    o.phase ≠ .queued := by
  intro hphase
  have hlength := (h.ok o ho).sent
  rw [(h.ok o ho).queued hphase] at hlength
  simp [Operation.isInFlight, hphase] at hlength
  exact hsent hlength

theorem inFlight_begun {o : Operation} (h : o.isInFlight = true) : o.phase ≠ .queued ∧ ¬o.isSettled = true := by
  unfold Operation.isInFlight at h
  split at h
  next hphase =>
    simp [Operation.isSettled, hphase]
  · cases h

theorem Chained.inOrder (locale : Collation) (sessionId : SessionId) (h : Chained s) : InOrder locale sessionId s where
  single i j a b ha hb hfa hfb :=
    have hba := inFlight_begun hfa
    have hbb := inFlight_begun hfb
    h.line.alone ha hb hba.1 hbb.1 hba.2 hbb.2
  order i j a b hij ha hb hsent := h.line.order i j a b hij ha hb (h.begun (mem_of_getElem? hb) hsent)
  unblocked j b hb hphase hbefore := by
    have hready : s.ready b = true := by
      unfold Session.ready
      rw [Option.all_eq_true]
      intro t ht
      have htj := h.line.waits j b hb t ht
      obtain ⟨x, hx⟩ : ∃ x, s.operations[t]? = some x :=
        ⟨_, getElem?_eq_getElem (Nat.lt_trans (htj ▸ Nat.lt_succ_self t) (lt_of_getElem? hb))⟩
      rw [hx, Option.any_some]
      exact hbefore t x (htj ▸ Nat.lt_succ_self t) hx
    have hstep : s.step locale sessionId (.send j) = s.setOperation j (b.requested firstRetryMs) := by
      change s.onOperation j (s.send j) = _
      rw [Session.onOperation, hb]
      change s.send j b = _
      rw [Session.send, hphase]
      exact if_pos hready
    rw [hstep]
    exact getElem?_set_self (lt_of_getElem? hb)
  own o ho := (h.ok o ho).own
  again o ho k hk := by
    have hok := h.ok o ho
    have hlt : k < o.heard.length := by
      have hsent := hok.sent
      split at hsent <;> omega
    suffices hmem : o.request.isSubmission = true ∧ ∃ failure, o.heard[k] = some failure ∧ failure.unanswered = true by
      obtain ⟨hsubmission, failure, heq, hunanswered⟩ := hmem
      exact ⟨hsubmission, failure, by rw [getElem?_eq_getElem hlt, heq], hunanswered⟩
    cases hsettled : o.isSettled with
    | false => exact hok.pending hsettled _ (getElem_mem hlt)
    | true =>
      -- as many were sent as were heard, and the last of these is another
      unfold Operation.isSettled at hsettled
      split at hsettled
      next failure hphase =>
        obtain ⟨earlier, hheard, hearlier, -⟩ := hok.settled failure hphase
        have hsent := hok.sent
        have hflight : o.isInFlight = false := by simp [Operation.isInFlight, hphase]
        rw [hflight, hheard] at hsent
        have hke : k < earlier.length := by simp at hsent; omega
        have heq : o.heard[k] = earlier[k] := by
          simp only [hheard]
          exact getElem_append_left hke
        rw [heq]
        exact hearlier _ (getElem_mem hke)
      · cases hsettled
  answered o ho hsubmission failure hphase := by
    obtain ⟨earlier, hheard, -, hlast⟩ := (h.ok o ho).settled failure hphase
    exact ⟨by rw [hheard, getLast?_concat], hlast hsubmission⟩

end

/-! ## The conversation -/

/-! ### Entries -/

theorem mem_setEntry {entries : List ConversationEntry} {entry x : ConversationEntry}
    (hx : x ∈ setEntry entries entry) : x ∈ entries ∨ x = entry := by
  induction entries with
  | nil => exact .inr (mem_singleton.mp hx)
  | cons current rest ih =>
    unfold setEntry at hx
    split at hx
    · rcases mem_cons.mp hx with rfl | hx
      · exact .inr rfl
      · exact .inl (mem_cons_of_mem _ hx)
    rcases mem_cons.mp hx with rfl | hx
    · exact .inl mem_cons_self
    · exact (ih hx).imp_left (mem_cons_of_mem _)

/-- Under every id that was there, and the new one's, something is. -/
theorem setEntry_holds {entries : List ConversationEntry} {entry : ConversationEntry} {id : EntryId}
    (h : (∃ x ∈ entries, x.id = id) ∨ entry.id = id) : ∃ x ∈ setEntry entries entry, x.id = id := by
  induction entries with
  | nil =>
    rcases h with ⟨x, hx, -⟩ | h
    · cases hx
    · exact ⟨entry, mem_singleton_self entry, h⟩
  | cons current rest ih =>
    unfold setEntry
    split
    next hid =>
      rcases h with ⟨x, hx, hxid⟩ | h
      · rcases mem_cons.mp hx with rfl | hx
        · exact ⟨entry, mem_cons_self, hid ▸ hxid⟩
        · exact ⟨x, mem_cons_of_mem _ hx, hxid⟩
      · exact ⟨entry, mem_cons_self, h⟩
    · have hrest : current.id = id ∨ (∃ x ∈ rest, x.id = id) ∨ entry.id = id := by
        rcases h with ⟨x, hx, hxid⟩ | h
        · rcases mem_cons.mp hx with rfl | hx
          · exact .inl hxid
          · exact .inr (.inl ⟨x, hx, hxid⟩)
        · exact .inr (.inr h)
      rcases hrest with hcurrent | hrest
      · exact ⟨current, mem_cons_self, hcurrent⟩
      · obtain ⟨x, hx, hxid⟩ := ih hrest
        exact ⟨x, mem_cons_of_mem _ hx, hxid⟩

theorem mem_foldl_setEntry {incoming entries : List ConversationEntry} {x : ConversationEntry}
    (hx : x ∈ incoming.foldl setEntry entries) : x ∈ entries ∨ x ∈ incoming := by
  induction incoming generalizing entries with
  | nil => exact .inl hx
  | cons entry incoming ih =>
    rcases ih hx with hx | hx
    · rcases mem_setEntry hx with hx | rfl
      · exact .inl hx
      · exact .inr mem_cons_self
    · exact .inr (mem_cons_of_mem _ hx)

theorem foldl_setEntry_holds {incoming entries : List ConversationEntry} {id : EntryId}
    (h : (∃ x ∈ entries, x.id = id) ∨ ∃ x ∈ incoming, x.id = id) :
    ∃ x ∈ incoming.foldl setEntry entries, x.id = id := by
  induction incoming generalizing entries with
  | nil => exact h.resolve_right (by rintro ⟨x, hx, -⟩; cases hx)
  | cons entry incoming ih =>
    apply ih
    rcases h with h | ⟨x, hx, hid⟩
    · exact .inl (setEntry_holds (.inl h))
    rcases mem_cons.mp hx with rfl | hx
    · exact .inl (setEntry_holds (.inr hid))
    · exact .inr ⟨x, hx, hid⟩

/-! ### Changes -/

/-- A change that brings entries, and takes the inputs off that these answer. -/
structure Merged (incoming : List ConversationEntry) (c c' : ConversationState γ) : Prop where
  pending : ∀ p, p ∈ c'.pendingSubmissions ↔ p ∈ c.pendingSubmissions ∧ ∀ e ∈ incoming, e.clientId ≠ some p.clientId
  entries : ∀ e ∈ c'.entries, e ∈ c.entries ∨ e ∈ incoming
  holds : ∀ e, e ∈ c.entries ∨ e ∈ incoming → ∃ e' ∈ c'.entries, e'.id = e.id

section

variable {locale : Collation} {c c' : ConversationState γ}

theorem Merged.refl (c : ConversationState γ) : Merged [] c c where
  pending _ := ⟨fun hp => ⟨hp, nofun⟩, And.left⟩
  entries _ he := .inl he
  holds e he := ⟨e, he.resolve_right (not_mem_nil), rfl⟩

theorem update_pending (locale : Collation) (c : ConversationState γ) (patch : ConversationUpdate γ)
    (p : LiveConversationEntry) : p ∈ (c.update locale patch).pendingSubmissions ↔
      p ∈ patch.pendingSubmissions.getD c.pendingSubmissions ∧
        ∀ e ∈ patch.entries.getD [], e.clientId ≠ some p.clientId := by
  change p ∈ List.filter _ _ ↔ _
  rw [mem_filter, decide_eq_true_iff, mem_filterMap]
  constructor
  · rintro ⟨hp, hnot⟩
    exact ⟨hp, fun e he heq => hnot ⟨e, he, heq⟩⟩
  · rintro ⟨hp, hnot⟩
    exact ⟨hp, fun ⟨e, he, heq⟩ => hnot e he heq⟩

theorem update_merged (locale : Collation) (c : ConversationState γ) (patch : ConversationUpdate γ)
    (hpatch : patch.pendingSubmissions = none) :
    Merged (patch.entries.getD []) c (c.update locale patch) := by
  constructor
  · intro p
    rw [update_pending, hpatch, Option.getD_none]
  · intro e he
    change e ∈ patch.entries.elim c.entries (upsertEntries locale c.entries) at he
    cases hentries : patch.entries with
    | none =>
      rw [hentries] at he
      exact .inl he
    | some incoming =>
      rw [hentries] at he
      have he' := mem_mergeSort.mp he
      exact mem_append.mp ((mem_foldl_setEntry he').resolve_left not_mem_nil)
  · intro e he
    change ∃ e' ∈ patch.entries.elim c.entries (upsertEntries locale c.entries), e'.id = e.id
    cases hentries : patch.entries with
    | none =>
      rw [hentries] at he
      exact ⟨e, he.resolve_right not_mem_nil, rfl⟩
    | some incoming =>
      rw [hentries] at he
      obtain ⟨e', he', hid⟩ : ∃ x ∈ (c.entries ++ incoming).foldl setEntry [], x.id = e.id :=
        foldl_setEntry_holds (.inr ⟨e, mem_append.mpr he, rfl⟩)
      exact ⟨e', mem_mergeSort.mpr he', hid⟩

theorem Merged.trans {incoming : List ConversationEntry} {c₁ c₂ c₃ : ConversationState γ} (h : Merged [] c₁ c₂)
    (h' : Merged incoming c₂ c₃) : Merged incoming c₁ c₃ where
  pending p := by
    rw [h'.pending, h.pending]
    exact and_congr_left fun _ => ⟨And.left, fun hp => ⟨hp, nofun⟩⟩
  entries e he := by
    rcases h'.entries e he with he | he
    · exact .inl ((h.entries e he).resolve_right not_mem_nil)
    · exact .inr he
  holds e he := by
    rcases he with he | he
    · obtain ⟨e', he', hid⟩ := h.holds e (.inl he)
      obtain ⟨e'', he'', hid'⟩ := h'.holds e' (.inl he')
      exact ⟨e'', he'', hid'.trans hid⟩
    · exact h'.holds e (.inr he)

def brought : ChatEvent ConversationEntry → List ConversationEntry
  | .entryAdded entry => [entry]
  | _ => []

theorem apply_merged (locale : Collation) (c : ConversationState γ) (event : ChatEvent ConversationEntry) :
    Merged (brought event) c (c.apply locale event) := by
  obtain ⟨patch, happly, hpending, hentries⟩ : ∃ patch : ConversationUpdate γ,
      c.apply locale event = c.update locale patch ∧ patch.pendingSubmissions = none ∧
        patch.entries.getD [] = brought event := by
    cases event <;> exact ⟨_, rfl, rfl, rfl⟩
  rw [happly, ← hentries]
  exact update_merged locale c patch hpending

theorem applyEvent_merged (locale : Collation) (c : Conversation γ) (event : ChatEvent ConversationEntry)
    (seq : Nat) : Merged (brought event) c.state (c.applyEvent locale event seq).state := by
  unfold Conversation.applyEvent
  dsimp only
  split
  · exact apply_merged locale c.state event
  · refine Merged.trans ?_ (apply_merged locale _ event)
    exact update_merged locale c.state { noUpdate γ with streamingAssistants := _ } rfl

end

/-! ### Inputs -/

section

variable {locale : Collation} {c c' : ConversationState γ} {clientId : String}

theorem addPendingSubmission_eq {content : Content} {entry : LiveConversationEntry}
    (h : c.addPendingSubmission locale content clientId = some (entry, c')) :
    (∀ p ∈ c.pendingSubmissions, p.clientId ≠ clientId) ∧ (∀ e ∈ c.entries, e.clientId ≠ some clientId) ∧
      entry.clientId = clientId ∧ (∀ p, p ∈ c'.pendingSubmissions ↔ p ∈ c.pendingSubmissions ∨ p = entry) ∧
      c'.entries = c.entries := by
  unfold ConversationState.addPendingSubmission at h
  split at h
  · cases h
  rename_i hnot
  cases Option.some_inj.mp h
  have hpending : ∀ p ∈ c.pendingSubmissions, p.clientId ≠ clientId := by
    intro p hp heq
    exact hnot (Bool.or_eq_true_iff.mpr (.inl (any_eq_true.mpr ⟨p, hp, decide_eq_true heq⟩)))
  have hentries : ∀ e ∈ c.entries, e.clientId ≠ some clientId := by
    intro e he heq
    exact hnot (Bool.or_eq_true_iff.mpr (.inr (any_eq_true.mpr ⟨e, he, decide_eq_true heq⟩)))
  refine ⟨hpending, hentries, rfl, ?_, rfl⟩
  intro p
  rw [update_pending]
  simp [noUpdate]

theorem rejectSubmission_eq (locale : Collation) (c : ConversationState γ) (clientId errorMessage : String) :
    (∀ p, p ∈ (c.rejectSubmission locale clientId errorMessage).pendingSubmissions ↔
      p ∈ c.pendingSubmissions ∧ p.clientId ≠ clientId) ∧
    (c.rejectSubmission locale clientId errorMessage).entries = c.entries ∧
    (c.rejectSubmission locale clientId errorMessage).errorMessage = errorMessage := by
  unfold ConversationState.rejectSubmission
  split
  · refine ⟨?_, rfl, rfl⟩
    intro p
    rw [update_pending]
    simp [noUpdate]
  next hnot =>
    refine ⟨?_, rfl, rfl⟩
    intro p
    unfold ConversationState.setError
    rw [update_pending]
    -- there is none to take away
    have hothers : p ∈ c.pendingSubmissions → p.clientId ≠ clientId := by
      intro hp heq
      exact hnot (any_eq_true.mpr ⟨p, hp, decide_eq_true heq⟩)
    simpa [noUpdate] using hothers

end

inductive Talks (sessionId : SessionId) (s : Session γ) (e : Event γ) (s' : Session γ) : Prop
  | same (hconversation : s'.conversation = s.conversation)
  | merged (hmerged : Merged e.entries s.conversation.state s'.conversation.state)
  | dropped (hdrops : s.Drops e) (hconversation : s'.conversation = .pruned γ)
  | submitted (entry : LiveConversationEntry) (hclient : e.clientId = some entry.clientId)
    (hpending : ¬s.Pending entry.clientId) (hstored : ¬s.Stored entry.clientId)
    (hp : ∀ p, p ∈ s'.conversation.state.pendingSubmissions ↔ p ∈ s.conversation.state.pendingSubmissions ∨ p = entry)
    (hentries : s'.conversation.state.entries = s.conversation.state.entries)
  | rejected (i : Nat) (o : Operation) (op : SubmissionOp) (clientId : String) (content : Content)
    (ho : s.operations[i]? = some o) (hrequest : o.request = .submission op clientId content)
    (hops : s'.operations = s.operations.set i { o with rejected := true })
    (hp : ∀ p, p ∈ s'.conversation.state.pendingSubmissions ↔
      p ∈ s.conversation.state.pendingSubmissions ∧ p.clientId ≠ clientId)
    (hentries : s'.conversation.state.entries = s.conversation.state.entries)

section

variable (locale : Collation) (sessionId : SessionId) (s : Session γ)

theorem talks_converse {e : Event γ} {f : ConversationState γ → ConversationState γ}
    (h : Merged e.entries s.conversation.state (f s.conversation.state)) :
    Talks sessionId s e (s.converse sessionId f) := by
  unfold Session.converse
  split
  · exact .same rfl
  · exact .merged h

theorem talks_prune {e : Event γ} {t : Session γ} (hsame : t.conversation = s.conversation)
    (hdrops : t.listeners = 0 ∧ t.running = false → s.Drops e) :
    Talks sessionId s e t.pruneSessionIfInactive := by
  unfold Session.pruneSessionIfInactive
  split
  next hidle =>
    exact .dropped (hdrops hidle) rfl
  · exact .same hsame

theorem talks_onOperation {e : Event γ} {i : Nat} {f : Operation → Session γ}
    (h : ∀ o, s.operations[i]? = some o → Talks sessionId s e (f o)) :
    Talks sessionId s e (s.onOperation i f) := by
  unfold Session.onOperation
  cases ho : s.operations[i]? with
  | none => exact .same rfl
  | some o => exact h o ho

theorem step_talks (e : Event γ) : Talks sessionId s e (s.step locale sessionId e) := by
  cases e with
  | submit op content clientId =>
    change Talks sessionId s _ (s.submit locale sessionId op content clientId)
    unfold Session.submit
    split
    · exact .same rfl
    rename_i entry state hadd
    unfold Session.addOptimisticUserMessage at hadd
    split at hadd
    · cases hadd
    obtain ⟨hpending, hstored, rfl, hp, hentries⟩ := addPendingSubmission_eq hadd
    apply Talks.submitted entry rfl ?_ ?_ hp hentries
    · rintro ⟨p, hmem, heq⟩
      exact hpending p hmem heq
    · rintro ⟨x, hmem, heq⟩
      exact hstored x hmem heq
  | setModel update => exact .same rfl
  | compact instructions => exact .same rfl
  | send i =>
    apply talks_onOperation
    intro o ho
    unfold Session.send
    split
    · split <;> exact .same rfl
    · exact .same rfl
  | answer i failure =>
    apply talks_onOperation
    intro o ho
    unfold Session.answer
    split <;> exact .same rfl
  | sendAgain i =>
    apply talks_onOperation
    intro o ho
    unfold Session.sendAgain
    split <;> exact .same rfl
  | reject i =>
    apply talks_onOperation
    intro o ho
    unfold Session.reject
    split
    next op clientId content failure hrequest hphase _ =>
      unfold Session.converse
      split
      · exact .same rfl
      obtain ⟨hp, hentries, -⟩ := rejectSubmission_eq locale s.conversation.state clientId
        (op.text ++ " failed: " ++ failure.message)
      exact .rejected i o op clientId content ho hrequest rfl hp hentries
    · exact .same rfl
  | clearTail i =>
    apply talks_onOperation
    intro o ho
    unfold Session.clearTail
    split <;> exact .same rfl
  | mergeMessages page earlier restoreError =>
    refine talks_converse sessionId s (f := (·.mergeMessages locale page earlier restoreError)) ?_
    exact update_merged locale s.conversation.state { noUpdate γ with
      entries := some page.items, previousCursor := _, latestCursor := _, errorMessage := _ } rfl
  | applyEvent event seq =>
    change Talks sessionId s _ (if sessionId = "" then s else _)
    split
    · exact .same rfl
    · have hmerged := applyEvent_merged locale s.conversation event seq
      cases event <;> exact .merged hmerged
  | endRun =>
    apply talks_converse
    exact update_merged locale s.conversation.state { noUpdate γ with
      streamingAssistants := some [], toolExecutions := some [] } rfl
  | clearCompactingState =>
    apply talks_converse
    unfold ConversationState.clearCompactingState
    split
    · exact update_merged locale s.conversation.state { noUpdate γ with isCompacting := some false } rfl
    · exact .refl _
  | setError errorMessage =>
    refine talks_converse sessionId s (f := (·.setError locale errorMessage)) ?_
    exact update_merged locale s.conversation.state { noUpdate γ with errorMessage := some errorMessage } rfl
  | subscribe =>
    change Talks sessionId s _ (if sessionId = "" then s else _)
    split <;> exact .same rfl
  | unsubscribe =>
    change Talks sessionId s _ s.unsubscribe
    unfold Session.unsubscribe
    split
    · exact .same rfl
    next hlisteners =>
      apply talks_prune sessionId s
      · rfl
      · exact fun hidle => ⟨hlisteners, hidle.2⟩
    · exact .same rfl
  | cacheUpdate running =>
    apply talks_prune sessionId s
    · rfl
    · exact id
  | pruneInactive =>
    apply talks_prune sessionId s
    · rfl
    · exact id

end

/-! ### What is held -/

section

variable {sessionId : SessionId} {s s' : Session γ} {e : Event γ} {op : SubmissionOp} {content : Content}
  {clientId : String} {clientOf : EntryId → Option String} {i : Nat}

/-- No input is shown beside its entry. -/
def NotBoth (s : Session γ) : Prop := ∀ clientId, ¬(s.Pending clientId ∧ s.Stored clientId)

theorem NotBoth.talks (h : NotBoth s) (ht : Talks sessionId s e s') : NotBoth s' := by
  rintro clientId ⟨⟨p, hp, rfl⟩, x, hx, hclient⟩
  cases ht with
  | same hconversation =>
    rw [hconversation] at hp hx
    exact h p.clientId ⟨⟨p, hp, rfl⟩, x, hx, hclient⟩
  | merged hmerged =>
    obtain ⟨hp, hnot⟩ := (hmerged.pending p).mp hp
    rcases hmerged.entries x hx with hx | hx
    · exact h p.clientId ⟨⟨p, hp, rfl⟩, x, hx, hclient⟩
    · exact hnot x hx hclient
  | dropped _ hconversation =>
    rw [hconversation] at hp
    cases hp
  | submitted entry _ _ hstored hpending hentries =>
    rw [hentries] at hx
    rcases (hpending p).mp hp with hp | rfl
    · exact h p.clientId ⟨⟨p, hp, rfl⟩, x, hx, hclient⟩
    · exact hstored ⟨x, hx, hclient⟩
  | rejected _ _ _ _ _ _ _ _ hpending hentries =>
    rw [hentries] at hx
    exact h p.clientId ⟨⟨p, ((hpending p).mp hp).1, rfl⟩, x, hx, hclient⟩

/-- The submission at place `i` is the only one of its client id, and is held unless it was refused. -/
structure Held (clientOf : EntryId → Option String) (op : SubmissionOp) (content : Content) (clientId : String)
    (i : Nat) (s : Session γ) : Prop where
  rows : ∀ x ∈ s.conversation.state.entries, x.clientId = clientOf x.id
  alone : ∀ (j : Nat) (o : Operation) (op' : SubmissionOp) (content' : Content), s.operations[j]? = some o →
    o.request = .submission op' clientId content' → j = i
  held : ∃ o, s.operations[i]? = some o ∧ o.request = .submission op clientId content ∧
    (s.Pending clientId ∨ s.Stored clientId ∨ o.rejected = true)

theorem Works.operation (hw : Works sessionId s e s') {o : Operation} (ho : s.operations[i]? = some o) :
    ∃ o', s'.operations[i]? = some o' ∧ o'.request = o.request ∧ (o.rejected = true → o'.rejected = true) := by
  cases hw with
  | none hops _ => exact ⟨o, hops ▸ ho, rfl, id⟩
  | enter request _ hops _ => exact ⟨o, hops ▸ getElem?_append_some ho _, rfl, id⟩
  | release _ _ _ _ hops _ => exact ⟨o, hops ▸ ho, rfl, id⟩
  | move j a a' ha hmove hops _ =>
    rw [hops]
    by_cases hji : j = i
    · subst hji
      cases ha.symm.trans ho
      exact ⟨a', getElem?_set_self (lt_of_getElem? ha), hmove.request, hmove.rejected⟩
    · exact ⟨o, by rw [getElem?_set_ne hji]; exact ho, rfl, id⟩

theorem Works.others {P : Nat → Prop} (hw : Works sessionId s e s') (hnew : e.clientId ≠ some clientId)
    (h : ∀ (j : Nat) (o : Operation) (op' : SubmissionOp) (content' : Content), s.operations[j]? = some o →
      o.request = .submission op' clientId content' → P j) (j : Nat) (o : Operation) (op' : SubmissionOp)
    (content' : Content) (ho : s'.operations[j]? = some o) (hrequest : o.request = .submission op' clientId content') :
    P j := by
  cases hw with
  | none hops _ => exact h j o op' content' (hops ▸ ho) hrequest
  | release _ _ _ _ hops _ => exact h j o op' content' (hops ▸ ho) hrequest
  | enter request hclient hops _ =>
    rw [hops] at ho
    rcases getElem?_concat_cases ho with ho | ⟨-, rfl⟩
    · exact h j o op' content' ho hrequest
    · exact absurd (hclient op' clientId content' hrequest).2 hnew
  | move k a a' ha hmove hops _ =>
    rw [hops] at ho
    rcases getElem?_set_cases ho with ⟨rfl, rfl⟩ | ⟨-, ho⟩
    · exact h k a op' content' ha (hmove.request ▸ hrequest)
    · exact h j o op' content' ho hrequest

theorem Talks.rows (ht : Talks sessionId s e s') (hentries : ∀ x ∈ e.entries, x.clientId = clientOf x.id)
    (h : ∀ x ∈ s.conversation.state.entries, x.clientId = clientOf x.id) :
    ∀ x ∈ s'.conversation.state.entries, x.clientId = clientOf x.id := by
  intro x hx
  cases ht with
  | same hconversation => exact h x (hconversation ▸ hx)
  | merged hmerged => exact (hmerged.entries x hx).elim (h x) (hentries x)
  | dropped _ hconversation =>
    rw [hconversation] at hx
    cases hx
  | submitted _ _ _ _ _ hsame => exact h x (hsame ▸ hx)
  | rejected _ _ _ _ _ _ _ _ _ hsame => exact h x (hsame ▸ hx)

/-- What is saved stays saved: another row may come under its id, of the same input. -/
theorem Talks.stored (ht : Talks sessionId s e s') (hkept : ¬s.Drops e)
    (hrows : ∀ x ∈ s.conversation.state.entries, x.clientId = clientOf x.id)
    (hrows' : ∀ x ∈ s'.conversation.state.entries, x.clientId = clientOf x.id) (h : s.Stored clientId) :
    s'.Stored clientId := by
  obtain ⟨x, hx, hclient⟩ := h
  cases ht with
  | same hconversation => exact ⟨x, hconversation ▸ hx, hclient⟩
  | merged hmerged =>
    obtain ⟨x', hx', hid⟩ := hmerged.holds x (.inl hx)
    refine ⟨x', hx', ?_⟩
    rw [hrows' x' hx', hid, ← hrows x hx]
    exact hclient
  | dropped hdrops _ => exact absurd hdrops hkept
  | submitted _ _ _ _ _ hsame => exact ⟨x, hsame ▸ hx, hclient⟩
  | rejected _ _ _ _ _ _ _ _ _ hsame => exact ⟨x, hsame ▸ hx, hclient⟩

/-- A pending input stays, or its entry takes its place, or its refusal takes it away. -/
theorem Talks.pending (ht : Talks sessionId s e s') (hkept : ¬s.Drops e)
    (hentries : ∀ x ∈ e.entries, x.clientId = clientOf x.id)
    (hrows' : ∀ x ∈ s'.conversation.state.entries, x.clientId = clientOf x.id)
    (halone : ∀ (j : Nat) (o : Operation) (op' : SubmissionOp) (content' : Content), s.operations[j]? = some o →
      o.request = .submission op' clientId content' → j = i) (h : s.Pending clientId) :
    s'.Pending clientId ∨ s'.Stored clientId ∨ ∃ o, s'.operations[i]? = some o ∧ o.rejected = true := by
  obtain ⟨p, hp, hclient⟩ := h
  cases ht with
  | same hconversation => exact .inl ⟨p, hconversation ▸ hp, hclient⟩
  | merged hmerged =>
    by_cases hanswered : ∀ x ∈ e.entries, x.clientId ≠ some p.clientId
    · exact .inl ⟨p, (hmerged.pending p).mpr ⟨hp, hanswered⟩, hclient⟩
    simp only [not_forall, not_not] at hanswered
    obtain ⟨x, hx, hxp⟩ := hanswered
    obtain ⟨x', hx', hid⟩ := hmerged.holds x (.inr hx)
    refine .inr (.inl ⟨x', hx', ?_⟩)
    rw [hrows' x' hx', hid, ← hentries x hx, hxp, hclient]
  | dropped hdrops _ => exact absurd hdrops hkept
  | submitted entry _ _ _ hpending _ => exact .inl ⟨p, (hpending p).mpr (.inl hp), hclient⟩
  | rejected j o op' refused content' ho hrequest hops hpending _ =>
    by_cases hrefused : refused = clientId
    · subst hrefused
      obtain rfl := halone j o op' content' ho hrequest
      exact .inr (.inr ⟨_, hops ▸ getElem?_set_self (lt_of_getElem? ho), rfl⟩)
    refine .inl ⟨p, (hpending p).mpr ⟨hp, ?_⟩, hclient⟩
    rw [hclient]
    exact Ne.symm hrefused

theorem Held.step {locale : Collation} (h : Held clientOf op content clientId i s) (hkept : ¬s.Drops e)
    (hnew : e.clientId ≠ some clientId) (hentries : ∀ x ∈ e.entries, x.clientId = clientOf x.id) :
    Held clientOf op content clientId i (s.step locale sessionId e) := by
  have hw := step_works locale sessionId s e
  have ht := step_talks locale sessionId s e
  have hrows' := ht.rows hentries h.rows
  refine ⟨hrows', hw.others hnew h.alone, ?_⟩
  obtain ⟨o, ho, hrequest, hheld⟩ := h.held
  obtain ⟨o', ho', hrequest', hrejected⟩ := hw.operation ho
  refine ⟨o', ho', hrequest'.trans hrequest, ?_⟩
  rcases hheld with hpending | hstored | hrefused
  · rcases ht.pending hkept hentries hrows' h.alone hpending with hpending | hstored | ⟨o'', ho'', hrefused⟩
    · exact .inl hpending
    · exact .inr (.inl hstored)
    · rw [ho'] at ho''
      cases ho''
      exact .inr (.inr hrefused)
  · exact .inr (.inl (ht.stored hkept h.rows hrows' hstored))
  · exact .inr (.inr (hrejected hrefused))

theorem Held.submit {locale : Collation} (hrows : ∀ x ∈ s.conversation.state.entries, x.clientId = clientOf x.id)
    (hnone : ∀ (j : Nat) (o : Operation) (op' : SubmissionOp) (content' : Content), s.operations[j]? = some o →
      o.request = .submission op' clientId content' → False)
    (h : (s.addOptimisticUserMessage locale sessionId content clientId).isSome = true) :
    Held clientOf op content clientId s.operations.length (s.submit locale sessionId op content clientId) := by
  obtain ⟨⟨entry, state⟩, hadd⟩ := Option.isSome_iff_exists.mp h
  have hsubmit : s.submit locale sessionId op content clientId =
      ({ s with conversation := { s.conversation with state } } : Session γ).inOrder
        (.submission op clientId content) := by
    unfold Session.submit
    rw [hadd]
  unfold Session.addOptimisticUserMessage at hadd
  split at hadd
  · cases hadd
  obtain ⟨-, -, hclient, hpending, hentries⟩ := addPendingSubmission_eq hadd
  rw [hsubmit]
  constructor
  · intro x hx
    exact hrows x (hentries ▸ hx)
  · intro j o op' content' ho hrequest
    rcases getElem?_concat_cases ho with ho | ⟨rfl, -⟩
    · exact (hnone j o op' content' ho hrequest).elim
    · rfl
  · exact ⟨_, getElem?_concat_length, rfl, .inl ⟨entry, (hpending entry).mpr (.inr rfl), hclient⟩⟩

theorem Works.named (hw : Works sessionId s e s')
    (h : ∀ o ∈ s.operations, o.request.isSubmission = true → sessionId ≠ "") :
    ∀ o ∈ s'.operations, o.request.isSubmission = true → sessionId ≠ "" := by
  intro o ho hsubmission
  cases hw with
  | none hops _ => exact h o (hops ▸ ho) hsubmission
  | release _ _ _ _ hops _ => exact h o (hops ▸ ho) hsubmission
  | enter request hnamed hops _ =>
    rcases mem_append.mp (hops ▸ ho) with ho | ho
    · exact h o ho hsubmission
    rw [mem_singleton.mp ho] at hsubmission
    cases request with
    | submission op clientId content => exact (hnamed op clientId content rfl).1
    | _ => cases hsubmission
  | move i a a' ha hmove hops _ =>
    rcases mem_or_eq_of_mem_set (hops ▸ ho) with ho | rfl
    · exact h o ho hsubmission
    · exact h a (mem_of_getElem? ha) (hmove.request ▸ hsubmission)

end

/-! ## Runs -/

section

variable (locale : Collation) (sessionId : SessionId) (es : List (SessionId × Event γ))

theorem exec_at (s : State γ) : exec (step locale) s es sessionId =
    exec (fun s e => Session.step locale sessionId s e) (s sessionId) (ofKey sessionId es) :=
  exec_stepAt (fun sessionId s e => Session.step locale sessionId s e) s es sessionId

theorem exec_session {P : Session γ → Prop} (hinit : P (.init γ))
    (hstep : ∀ s e, (sessionId, e) ∈ es → P s → P (s.step locale sessionId e)) :
    P (exec (step locale) (State.init γ) es sessionId) := by
  rw [exec_at]
  refine @Along.invariant _ _ _ (fun _ e => (sessionId, e) ∈ es) P (fun s e he hs => hstep s e he hs) _ hinit _ ?_
  exact along_of_forall fun e he => mem_ofKey.mp he

theorem exec_chained : Chained (exec (step locale) (State.init γ) es sessionId) :=
  exec_session locale sessionId es .init fun s e _ h => h.works (step_works locale sessionId s e)

theorem exec_shown : Shown locale sessionId (exec (step locale) (State.init γ) es sessionId) := by
  constructor
  · refine exec_session (P := NotBoth) locale sessionId es ?_ ?_
    · rintro clientId ⟨⟨p, hp, -⟩, -⟩
      cases hp
    · exact fun s e _ h => h.talks (step_talks locale sessionId s e)
  · have hnamed := exec_session (P := fun s : Session γ => ∀ o ∈ s.operations,
        o.request.isSubmission = true → sessionId ≠ "") locale sessionId es nofun
      fun s e _ h => (step_works locale sessionId s e).named h
    revert hnamed
    generalize exec (step locale) (State.init γ) es sessionId = s
    intro hnamed i o op clientId content failure ho hrequest hphase hrejected
    have hsession : sessionId ≠ "" := by
      apply hnamed o (mem_of_getElem? ho)
      rw [hrequest]
      rfl
    have hstep : s.step locale sessionId (.reject i) = (s.setOperation i { o with rejected := true }).converse sessionId
          (·.rejectSubmission locale clientId (op.text ++ " failed: " ++ failure.message)) := by
      change s.onOperation i (s.reject locale sessionId i) = _
      rw [Session.onOperation, ho]
      change s.reject locale sessionId i o = _
      rw [Session.reject, hrequest, hphase, hrejected]
    obtain ⟨hpending, -, herror⟩ := rejectSubmission_eq locale s.conversation.state clientId
      (op.text ++ " failed: " ++ failure.message)
    rw [hstep, Session.converse, if_neg hsession]
    refine ⟨?_, herror⟩
    rintro ⟨p, hp, heq⟩
    exact ((hpending p).mp hp).2 heq

theorem exec_held : HeldOrRefused (γ := γ) locale es := by
  rintro clientOf before after sessionId op content clientId rfl s s' hadd hnew hrows hkept
  have hrowsBefore : ∀ x ∈ s.conversation.state.entries, x.clientId = clientOf x.id := by
    refine exec_session (P := fun s : Session γ => ∀ x ∈ s.conversation.state.entries, x.clientId = clientOf x.id)
      locale sessionId before nofun ?_
    intro t e he h
    exact (step_talks locale sessionId t e).rows (hrows e (mem_append_left _ he)) h
  have hnone : ∀ (j : Nat) (o : Operation) (op' : SubmissionOp) (content' : Content), s.operations[j]? = some o →
      o.request = .submission op' clientId content' → False := by
    refine exec_session (P := fun s : Session γ => ∀ (j : Nat) (o : Operation) (op' : SubmissionOp)
      (content' : Content), s.operations[j]? = some o → o.request = .submission op' clientId content' → False)
      locale sessionId before nofun ?_
    intro t e he h
    exact (step_works locale sessionId t e).others (P := fun _ => False) (hnew e (mem_append_left _ he)) h
  have hs' : s' = exec (fun t e => Session.step locale sessionId t e)
      (s.submit locale sessionId op content clientId) (ofKey sessionId after) := by
    change exec (step locale) (State.init γ) (before ++ (sessionId, .submit op content clientId) :: after)
      sessionId = _
    rw [exec_append, exec_cons, exec_at, step, stepAt, Function.update_self]
    rfl
  have hheld : Held clientOf op content clientId s.operations.length s' := by
    rw [hs']
    have hboth := @Along.and _ _ _ _ (fun _ e => (sessionId, e) ∈ after) _ _ hkept
      (along_of_forall fun e he => mem_ofKey.mp he)
    refine hboth.invariant (Held clientOf op content clientId s.operations.length) ?_
      (Held.submit hrowsBefore hnone hadd)
    rintro t e ⟨hdrops, he⟩ h
    refine h.step hdrops (hnew e (mem_append_right _ he)) (hrows e ?_)
    exact mem_append_right _ (mem_cons_of_mem _ he)
  obtain ⟨o, ho, hrequest, h⟩ := hheld.held
  refine ⟨o, ho, hrequest, ?_⟩
  have hnot := (exec_shown locale sessionId
    (before ++ (sessionId, .submit op content clientId) :: after)).notBoth clientId
  by_cases hpending : s'.Pending clientId
  · exact .inl ⟨hpending, fun hstored => hnot ⟨hpending, hstored⟩⟩
  by_cases hstored : s'.Stored clientId
  · exact .inr (.inl ⟨hstored, hpending⟩)
  have hrejected := (h.resolve_left hpending).resolve_left hstored
  have hok := (exec_chained locale sessionId
    (before ++ (sessionId, .submit op content clientId) :: after)).ok o (mem_of_getElem? ho)
  exact .inr (.inr ⟨hpending, hstored, hrejected, hok.refused hrejected⟩)

end

/-- **Submissions are ordered and answered.** -/
theorem submissions_answered (locale : Collation) (es : List (SessionId × Event γ)) :
    (∀ sessionId, InOrder locale sessionId (exec (step locale) (State.init γ) es sessionId)) ∧
    -- what other sessions do, and what becomes of it, changes nothing
    (∀ sessionId, exec (step locale) (State.init γ) es sessionId =
      exec (fun s e => Session.step locale sessionId s e) (.init γ) (ofKey sessionId es)) ∧
    (∀ sessionId, Shown locale sessionId (exec (step locale) (State.init γ) es sessionId)) ∧
    HeldOrRefused locale es := by
  refine ⟨?_, ?_, ?_, ?_⟩
  · exact fun sessionId => (exec_chained locale sessionId es).inOrder locale sessionId
  · exact fun sessionId => exec_at locale sessionId es (State.init γ)
  · exact fun sessionId => exec_shown locale sessionId es
  · exact exec_held locale es

/-- The client stops viewing a session before the server answers: the input is in no list, and no refusal shown. -/
def viewedElsewhere : List (SessionId × Event Unit) :=
  [("s", .subscribe), ("s", .submit .prompt [] "c"), ("s", .send 0), ("s", .unsubscribe), ("s", .answer 0 none)]

theorem unviewed_submission_forgotten : let s := exec (step .codePoints) (State.init Unit) viewedElsewhere "s"
    (s.operations[0]?).any (·.isAnswered) = true ∧ ¬s.Pending "c" ∧ ¬s.Stored "c" ∧
      (s.operations[0]?).any (·.rejected) = false ∧ s.conversation.state.errorMessage = "" := by
  refine ⟨rfl, ?_, ?_, rfl, rfl⟩
  · rintro ⟨p, hp, -⟩
    cases hp
  · rintro ⟨x, hx, -⟩
    cases hx

end Reins.SessionOperations
