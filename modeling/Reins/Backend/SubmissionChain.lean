import Reins.Backend.StoredInputs

/-!
# A session's submissions (`inSessionOrder`, `models/sessions.ts`; `withSessionRuntime`, `live.ts`)

A submission enters its session's chain as it is called: it waits for the tail that is in the table then,
and puts its own there. Its work opens a runtime, whichever that is, and makes its call on it, once more
where a storage call failed under the first. The tail settles after the work, however the work did, and
its callbacks run in the order they were added: the one that clears the table, then the next submission's
work. The session's runtimes share the lane that its storage holds, over a restart of the process too.
-/

namespace Reins.SubmissionChain

open Places PiRuntime StoredInputs List
open LiveSessions (RuntimeId)

inductive SubmissionOp
  | prompt
  | steer
  deriving DecidableEq

def SubmissionOp.toOp : SubmissionOp → Op
  | .prompt => .prompt
  | .steer => .steer

inductive Work
  | waiting
  /-- `openSessionRuntime`, the first time or again. -/
  | opening (again : Bool)
  /-- `use`, its call. -/
  | running (r : RuntimeId) (call : CallId) (again : Bool)
  | settled (failed : Bool)
  | tailed
  | cleaned
  deriving DecidableEq

def Work.finished : Work → Bool
  | .settled _ | .tailed | .cleaned => true
  | .waiting | .opening _ | .running .. => false

structure Submission where
  op : SubmissionOp
  clientId : ReinsId
  after : Option Nat
  work : Work
  deriving DecidableEq

structure State where
  submissions : List Submission
  chain : Option Nat
  lane : Lane
  runtimes : RuntimeId → Runtime

/-- A session with nothing stored. Each runtime finds what is pending as it opens. -/
def State.init (openOperations : RuntimeId → List OpenOperation) : State :=
  { submissions := [], chain := none, lane := ⟨none, [], [], []⟩
    runtimes := fun r => .init (openOperations r) }

def State.setWork (s : State) (i : Nat) (b : Submission) (work : Work) : State :=
  { s with submissions := s.submissions.set i { b with work } }

/-- `inSessionOrder`. -/
def State.submit (s : State) (op : SubmissionOp) (clientId : ReinsId) : State :=
  { s with
    submissions := s.submissions ++ [⟨op, clientId, s.chain, .waiting⟩]
    chain := some s.submissions.length }

/-- The callbacks a tail had before have run. -/
def State.cleanedUp (s : State) (i : Nat) : Bool := (s.submissions[i]?).any fun b => b.work = .cleaned

def State.callDone (s : State) (r : RuntimeId) (call : CallId) : Bool :=
  ((s.runtimes r).calls[call]?).any fun c => c.phase = .done

inductive Event
  | prompt (clientId : ReinsId)
  | steer (clientId : ReinsId)
  | start (i : Nat)
  | opened (i : Nat) (r : RuntimeId)
  | openFailed (i : Nat)
  /-- It failed under a runtime that a storage call faulted. -/
  | again (i : Nat)
  | settle (i : Nat) (failed : Bool)
  | tail (i : Nat)
  | cleanUp (i : Nat)
  | runtime (r : RuntimeId) (e : PiRuntime.Event)
  /-- The process is gone with all but what the lane stores. -/
  | restart (openOperations : RuntimeId → List OpenOperation)

def State.start (s : State) (i : Nat) (b : Submission) : State :=
  if b.work = .waiting ∧ ∀ t ∈ b.after, s.cleanedUp t = true then s.setWork i b (.opening false) else s

def State.opened (s : State) (i : Nat) (b : Submission) (r : RuntimeId) : State :=
  match b.work with
  | .opening again =>
    { s.setWork i b (.running r (s.runtimes r).calls.length again) with
      runtimes := Function.update s.runtimes r ((s.runtimes r).call b.op.toOp b.clientId) }
  | _ => s

def State.openFailed (s : State) (i : Nat) (b : Submission) : State :=
  match b.work with
  | .opening _ => s.setWork i b (.settled true)
  | _ => s

def State.again (s : State) (i : Nat) (b : Submission) : State :=
  match b.work with
  | .opening false => s.setWork i b (.opening true)
  | .running r call false => if s.callDone r call then s.setWork i b (.opening true) else s
  | _ => s

def State.settle (s : State) (i : Nat) (b : Submission) (failed : Bool) : State :=
  match b.work with
  | .running r call _ => if s.callDone r call then s.setWork i b (.settled failed) else s
  | _ => s

def State.tail (s : State) (i : Nat) (b : Submission) : State :=
  match b.work with
  | .settled _ => s.setWork i b .tailed
  | _ => s

def State.cleanUp (s : State) (i : Nat) (b : Submission) : State :=
  match b.work with
  | .tailed => { s.setWork i b .cleaned with chain := if s.chain = some i then none else s.chain }
  | _ => s

def State.advance (s : State) (r : RuntimeId) (e : PiRuntime.Event) : State :=
  let next := PiRuntime.step ⟨s.lane, s.runtimes r⟩ e
  { s with lane := next.lane, runtimes := Function.update s.runtimes r next.runtime }

def State.onSubmission (s : State) (i : Nat) (f : Submission → State) : State := (s.submissions[i]?).elim s f

def step (s : State) : Event → State
  | .prompt clientId => s.submit .prompt clientId
  | .steer clientId => s.submit .steer clientId
  | .start i => s.onSubmission i (s.start i)
  | .opened i r => s.onSubmission i fun b => s.opened i b r
  | .openFailed i => s.onSubmission i (s.openFailed i)
  | .again i => s.onSubmission i (s.again i)
  | .settle i failed => s.onSubmission i fun b => s.settle i b failed
  | .tail i => s.onSubmission i (s.tail i)
  | .cleanUp i => s.onSubmission i (s.cleanUp i)
  | .runtime r e => if submits e then s else s.advance r e
  | .restart openOperations => { State.init openOperations with lane := s.lane }

/-! ## Order -/

/-- One submission at a time, in the order they were made, and no input stored twice. -/
structure Ordered (s : State) : Prop where
  /-- A submission that has begun comes after finished ones only. -/
  inOrder : ∀ (i j : Nat) (a b : Submission), i < j → s.submissions[i]? = some a →
    s.submissions[j]? = some b → b.work ≠ .waiting → a.work.finished = true
  /-- Once those before it are finished, however they did, the next begins. -/
  notBlocked : ∀ (j : Nat) (b : Submission), s.submissions[j]? = some b → b.work = .waiting →
    (∀ (i : Nat) (a : Submission), i < j → s.submissions[i]? = some a → a.work.finished = true) →
    ∃ b', (Run.exec step s [.tail (j - 1), .cleanUp (j - 1), .start j]).submissions[j]? = some b' ∧
      b'.work = .opening false
  entry : s.chain.isSome = true ↔ ∃ a ∈ s.submissions, a.work ≠ .cleaned
  cleared : (∀ a ∈ s.submissions, a.work.finished = true) →
    (Run.exec step s [.tail (s.submissions.length - 1), .cleanUp (s.submissions.length - 1)]).chain = none
  once : ∀ x : ReinsId, (storedIds s.lane).count x ≤ 1

/-! ### The chain -/

structure Line (submissions : List Submission) : Prop where
  after : ∀ (j : Nat) (b : Submission), submissions[j]? = some b → ∀ t ∈ b.after, t + 1 = j
  first : ∀ (i j : Nat) (a b : Submission), i < j → submissions[i]? = some a →
    submissions[j]? = some b → b.after = none → a.work = .cleaned
  order : ∀ (i j : Nat) (a b : Submission), i < j → submissions[i]? = some a →
    submissions[j]? = some b → b.work ≠ .waiting → a.work = .cleaned

structure Entry (submissions : List Submission) (chain : Option Nat) : Prop where
  newest : ∀ t ∈ chain, t + 1 = submissions.length ∧ ∀ a, submissions[t]? = some a → a.work ≠ .cleaned
  clear : chain = none → ∀ a ∈ submissions, a.work = .cleaned

section

variable {submissions : List Submission} {chain : Option Nat} {i : Nat} {b : Submission} {work : Work}

theorem Line.nil : Line [] := by
  constructor
  · intro j b hb
    cases hb
  · intro i j a b hij ha
    cases ha
  · intro i j a b hij ha
    cases ha

theorem Entry.nil : Entry [] none := by
  constructor
  · intro t ht
    cases ht
  · intro _ a ha
    cases ha

theorem Line.setWork (h : Line submissions) (hb : submissions[i]? = some b)
    (hbegin : b.work = .waiting → work ≠ .waiting →
      ∀ (k : Nat) (a : Submission), k < i → submissions[k]? = some a → a.work = .cleaned)
    (hclean : b.work = .cleaned → work = .cleaned) :
    Line (submissions.set i { b with work }) := by
  constructor
  · intro j c hc
    rcases getElem?_set_cases hc with ⟨rfl, rfl⟩ | ⟨-, hc⟩
    · exact h.after i b hb
    · exact h.after j c hc
  · intro k j a c hkj ha hc hnone
    have hold : ∃ c', submissions[j]? = some c' ∧ c'.after = none := by
      rcases getElem?_set_cases hc with ⟨rfl, rfl⟩ | ⟨-, hc⟩
      · exact ⟨b, hb, hnone⟩
      · exact ⟨c, hc, hnone⟩
    obtain ⟨c', hc', hnone'⟩ := hold
    rcases getElem?_set_cases ha with ⟨rfl, rfl⟩ | ⟨-, ha⟩
    · exact hclean (h.first i j b c' hkj hb hc' hnone')
    · exact h.first k j a c' hkj ha hc' hnone'
  · intro k j a c hkj ha hc hbegun
    rcases getElem?_set_cases ha with ⟨rfl, rfl⟩ | ⟨-, ha⟩
    · rcases getElem?_set_cases hc with ⟨rfl, -⟩ | ⟨-, hc⟩
      · exact absurd hkj (Nat.lt_irrefl i)
      · exact hclean (h.order i j b c hkj hb hc hbegun)
    rcases getElem?_set_cases hc with ⟨rfl, rfl⟩ | ⟨-, hc⟩
    · by_cases hwaiting : b.work = .waiting
      · exact hbegin hwaiting hbegun k a hkj ha
      · exact h.order k i a b hkj ha hb hwaiting
    · exact h.order k j a c hkj ha hc hbegun

theorem Entry.setWork (h : Entry submissions chain) (hb : submissions[i]? = some b)
    (hclean : b.work = .cleaned ↔ work = .cleaned) :
    Entry (submissions.set i { b with work }) chain := by
  constructor
  · intro t ht
    obtain ⟨hlen, hnot⟩ := h.newest t ht
    rw [length_set]
    refine ⟨hlen, ?_⟩
    intro a ha
    rcases getElem?_set_cases ha with ⟨rfl, rfl⟩ | ⟨-, ha⟩
    · exact fun hcleaned => hnot b hb (hclean.mpr hcleaned)
    · exact hnot a ha
  · intro hnone a ha
    rcases mem_or_eq_of_mem_set ha with ha | rfl
    · exact h.clear hnone a ha
    · exact hclean.mp (h.clear hnone b (mem_of_getElem? hb))

/-- The clean-up of the newest, after every other's, clears the table; another's leaves it. -/
theorem Entry.cleanUp (h : Entry submissions chain) (hline : Line submissions)
    (hb : submissions[i]? = some b) (hbegun : b.work ≠ .waiting) :
    Entry (submissions.set i { b with work := .cleaned }) (if chain = some i then none else chain) := by
  by_cases hchain : chain = some i
  · rw [if_pos hchain]
    obtain ⟨hlen, -⟩ := h.newest i hchain
    constructor
    · intro t ht
      cases ht
    intro _ a ha
    obtain ⟨k, hk⟩ := mem_iff_getElem?.mp ha
    rcases getElem?_set_cases hk with ⟨rfl, rfl⟩ | ⟨hne, hk⟩
    · rfl
    obtain ⟨hlt, -⟩ := List.getElem?_eq_some_iff.mp hk
    have hki : k < i := by omega
    exact hline.order k i a b hki hk hb hbegun
  · rw [if_neg hchain]
    constructor
    · intro t ht
      obtain ⟨hlen, hnot⟩ := h.newest t ht
      rw [length_set]
      refine ⟨hlen, ?_⟩
      intro a ha
      rcases getElem?_set_cases ha with ⟨rfl, -⟩ | ⟨-, ha⟩
      · exact absurd ht hchain
      · exact hnot a ha
    · intro hnone a ha
      rcases mem_or_eq_of_mem_set ha with ha | rfl
      · exact h.clear hnone a ha
      · rfl

theorem Line.submit (h : Line submissions) (hentry : Entry submissions chain) (op : SubmissionOp)
    (clientId : ReinsId) : Line (submissions ++ [⟨op, clientId, chain, .waiting⟩]) := by
  constructor
  · intro j c hc t ht
    rcases getElem?_concat_cases hc with hc | ⟨rfl, rfl⟩
    · exact h.after j c hc t ht
    · exact (hentry.newest t ht).1
  · intro k j a c hkj ha hc hnone
    rcases getElem?_concat_cases ha with ha | ⟨rfl, -⟩
    · rcases getElem?_concat_cases hc with hc | ⟨rfl, rfl⟩
      · exact h.first k j a c hkj ha hc hnone
      · exact hentry.clear hnone a (mem_of_getElem? ha)
    rcases getElem?_concat_cases hc with hc | ⟨rfl, -⟩
    · exact absurd (Nat.lt_trans hkj (lt_of_getElem? hc)) (Nat.lt_irrefl _)
    · exact absurd hkj (Nat.lt_irrefl _)
  · intro k j a c hkj ha hc hbegun
    rcases getElem?_concat_cases hc with hc | ⟨rfl, rfl⟩
    · rcases getElem?_concat_cases ha with ha | ⟨rfl, -⟩
      · exact h.order k j a c hkj ha hc hbegun
      · exact absurd (Nat.lt_trans hkj (lt_of_getElem? hc)) (Nat.lt_irrefl _)
    · exact absurd rfl hbegun

theorem Entry.submit (submissions : List Submission) (chain : Option Nat) (op : SubmissionOp) (clientId : ReinsId) :
    Entry (submissions ++ [⟨op, clientId, chain, .waiting⟩]) (some submissions.length) := by
  constructor
  · intro t ht
    cases ht
    refine ⟨by rw [length_append, length_singleton], ?_⟩
    intro a ha
    rw [getElem?_concat_length] at ha
    rw [← Option.some_inj.mp ha]
    exact nofun
  · intro hnone
    cases hnone

end

/-! ### The stored inputs -/

/-- A call that may still commit an input is the one a submission waits for, and goes by what holds. -/
structure Inv (s : State) : Prop where
  line : Line s.submissions
  entry : Entry s.submissions s.chain
  calls : ∀ (r : RuntimeId) (i : CallId) (call : Call), (s.runtimes r).calls[i]? = some call →
    submitting call = true → ∃ (j : Nat) (b : Submission) (again : Bool),
      s.submissions[j]? = some b ∧ b.work = .running r i again
  goes : ∀ (r : RuntimeId) (i : CallId) (call : Call), (s.runtimes r).calls[i]? = some call → GoesBy s.lane call
  nodup : (storedIds s.lane).Nodup

section

variable {s : State} {i j : Nat} {b : Submission} {r r' : RuntimeId} {c c' : CallId} {call call' : Call}

theorem Inv.alone (h : Inv s) (hcall : (s.runtimes r).calls[c]? = some call)
    (hsubmitting : submitting call = true) (hcall' : (s.runtimes r').calls[c']? = some call')
    (hsubmitting' : submitting call' = true) : r = r' ∧ c = c' := by
  obtain ⟨j, b, again, hb, hwork⟩ := h.calls r c call hcall hsubmitting
  obtain ⟨j', b', again', hb', hwork'⟩ := h.calls r' c' call' hcall' hsubmitting'
  have hbegun : b.work ≠ .waiting := by
    rw [hwork]
    exact nofun
  have hbegun' : b'.work ≠ .waiting := by
    rw [hwork']
    exact nofun
  -- of two submissions that have begun, the earlier is cleaned up and has no call to wait for
  rcases Nat.lt_trichotomy j j' with hlt | rfl | hgt
  · have hcleaned := h.line.order j j' b b' hlt hb hb' hbegun'
    cases hwork.symm.trans hcleaned
  · cases hb.symm.trans hb'
    cases hwork.symm.trans hwork'
    exact ⟨rfl, rfl⟩
  · have hcleaned := h.line.order j' j b' b hgt hb' hb hbegun
    cases hwork'.symm.trans hcleaned

theorem Inv.submit (h : Inv s) (op : SubmissionOp) (clientId : ReinsId) : Inv (s.submit op clientId) := by
  constructor
  · exact h.line.submit h.entry op clientId
  · exact Entry.submit s.submissions s.chain op clientId
  · intro r c call hcall hsubmitting
    obtain ⟨j, b, again, hb, hwork⟩ := h.calls r c call hcall hsubmitting
    refine ⟨j, b, again, ?_, hwork⟩
    exact getElem?_append_some hb _
  · exact h.goes
  · exact h.nodup

theorem Inv.calls_setWork (h : Inv s) (hb : s.submissions[i]? = some b) (work : Work)
    (hdone : ∀ r c again, b.work = .running r c again → s.callDone r c = true)
    (hcall : (s.runtimes r).calls[c]? = some call) (hsubmitting : submitting call = true) :
    ∃ (j : Nat) (b' : Submission) (again : Bool),
      (s.submissions.set i { b with work })[j]? = some b' ∧ b'.work = .running r c again := by
  obtain ⟨j, b', again, hb', hwork⟩ := h.calls r c call hcall hsubmitting
  refine ⟨j, b', again, ?_, hwork⟩
  by_cases heq : i = j
  · -- this one's call is done
    rw [← heq, hb] at hb'
    cases hb'
    have hcallDone := hdone r c again hwork
    unfold State.callDone at hcallDone
    rw [hcall, Option.any_some] at hcallDone
    unfold submitting at hsubmitting
    rw [of_decide_eq_true hcallDone] at hsubmitting
    cases hsubmitting
  · rw [getElem?_set_ne heq]
    exact hb'

theorem Inv.setWork (h : Inv s) (hb : s.submissions[i]? = some b) {work : Work}
    (hbegin : b.work = .waiting → work ≠ .waiting →
      ∀ (k : Nat) (a : Submission), k < i → s.submissions[k]? = some a → a.work = .cleaned)
    (hclean : b.work = .cleaned ↔ work = .cleaned)
    (hdone : ∀ r c again, b.work = .running r c again → s.callDone r c = true) :
    Inv (s.setWork i b work) :=
  ⟨h.line.setWork hb hbegin hclean.mp, h.entry.setWork hb hclean,
    fun _ _ _ hcall hsubmitting => h.calls_setWork hb work hdone hcall hsubmitting, h.goes, h.nodup⟩

theorem Inv.finishCall (h : Inv s) (hb : s.submissions[i]? = some b) {again : Bool}
    (hwork : b.work = .running r c again) (hdone : s.callDone r c = true) {work : Work}
    (hnot : work ≠ .cleaned) : Inv (s.setWork i b work) := by
  apply h.setWork hb
  · intro hwaiting
    cases hwork.symm.trans hwaiting
  · rw [hwork]
    exact ⟨nofun, fun hcleaned => absurd hcleaned hnot⟩
  · intro r' c' again' hwork'
    cases hwork.symm.trans hwork'
    exact hdone

theorem Inv.start (h : Inv s) (hb : s.submissions[i]? = some b) : Inv (s.start i b) := by
  unfold State.start
  split
  next hready =>
    obtain ⟨hwaiting, hafter⟩ := hready
    apply h.setWork hb
    · intro _ _ k a hk ha
      -- those before it are cleaned up, by what it waited for
      cases hwait : b.after with
      | none => exact h.line.first k i a b hk ha hb hwait
      | some t =>
        have hlast := h.line.after i b hb t hwait
        have hcleaned := hafter t hwait
        unfold State.cleanedUp at hcleaned
        obtain ⟨p, hp, hpwork⟩ := (Option.any_eq_true _ _).mp hcleaned
        have hpcleaned : p.work = .cleaned := of_decide_eq_true hpwork
        rcases Nat.lt_or_eq_of_le (Nat.le_of_lt_succ (hlast ▸ hk)) with hlt | rfl
        · apply h.line.order k t a p hlt ha hp
          rw [hpcleaned]
          exact nofun
        rw [hp] at ha
        rw [← Option.some_inj.mp ha]
        exact hpcleaned
    · rw [hwaiting]
      exact ⟨nofun, nofun⟩
    · intro r c again hwork
      cases hwaiting.symm.trans hwork
  · exact h

theorem Inv.addCall (h : Inv s) (hb : s.submissions[i]? = some b) {again : Bool}
    (hwork : b.work = .running r (s.runtimes r).calls.length again) (op : SubmissionOp) (x : ReinsId) :
    Inv { s with runtimes := Function.update s.runtimes r ((s.runtimes r).call op.toOp x) } := by
  have hcalls : ((s.runtimes r).call op.toOp x).calls = (s.runtimes r).calls ++ [.new op.toOp x .expanding 0] := by
    cases op <;> rfl
  have hget : ∀ (r' : RuntimeId) (c : CallId) (call : Call),
      (Function.update s.runtimes r ((s.runtimes r).call op.toOp x) r').calls[c]? = some call →
      (s.runtimes r').calls[c]? = some call ∨
        (r' = r ∧ c = (s.runtimes r).calls.length ∧ call = .new op.toOp x .expanding 0) := by
    intro r' c call hcall
    by_cases hr : r' = r
    · subst hr
      rw [Function.update_self, hcalls] at hcall
      rcases getElem?_concat_cases hcall with hcall | ⟨heq, hnew⟩
      · exact .inl hcall
      · exact .inr ⟨rfl, heq, hnew⟩
    · rw [Function.update_of_ne hr] at hcall
      exact .inl hcall
  refine ⟨h.line, h.entry, ?_, ?_, h.nodup⟩
  · intro r' c call hcall hsubmitting
    rcases hget r' c call hcall with hcall | ⟨rfl, rfl, -⟩
    · exact h.calls r' c call hcall hsubmitting
    · exact ⟨i, b, again, hb, hwork⟩
  · intro r' c call hcall
    rcases hget r' c call hcall with hcall | ⟨-, -, rfl⟩
    · exact h.goes r' c call hcall
    · -- it has looked for nothing yet
      trivial

theorem Inv.opened (h : Inv s) (hb : s.submissions[i]? = some b) (r : RuntimeId) : Inv (s.opened i b r) := by
  unfold State.opened
  split
  next again hwork =>
    have hset : Inv (s.setWork i b (.running r (s.runtimes r).calls.length again)) := by
      apply h.setWork hb
      · intro hwaiting
        cases hwork.symm.trans hwaiting
      · rw [hwork]
        exact ⟨nofun, nofun⟩
      · intro r c again hwork'
        cases hwork.symm.trans hwork'
    refine hset.addCall (i := i) (b := { b with work := .running r (s.runtimes r).calls.length again })
      ?_ rfl b.op b.clientId
    exact getElem?_set_self (lt_of_getElem? hb)
  · exact h

theorem Inv.goes_of (h : Inv s) {l' : Lane} (hcall : (s.runtimes r).calls[c]? = some call)
    (hcall' : (s.runtimes r').calls[c']? = some call') (hne : ¬ (r = r' ∧ c = c'))
    (hkeeps : Keeps s.lane l' ∨ submitting call = true) : GoesBy l' call' := by
  rcases hkeeps with hkeeps | hsubmitting
  · exact (h.goes r' c' call' hcall').keeps hkeeps
  apply GoesBy.of_not_submitting
  by_contra hyes
  exact hne (h.alone hcall hsubmitting hcall' (by simpa using hyes))

theorem Inv.advance (h : Inv s) (r : RuntimeId) {e : PiRuntime.Event} (he : submits e = false) :
    Inv (s.advance r e) := by
  have hstepped := stepped ⟨s.lane, s.runtimes r⟩ he
  unfold State.advance
  generalize PiRuntime.step ⟨s.lane, s.runtimes r⟩ e = next at hstepped
  have hother : ∀ r', r' ≠ r → Function.update s.runtimes r next.runtime r' = s.runtimes r' :=
    fun r' hr' => Function.update_of_ne hr' _ _
  have hself : Function.update s.runtimes r next.runtime r = next.runtime := Function.update_self ..
  -- by what the step does to the runtime's calls
  cases hstepped with
  | same hcalls hkeeps =>
    have hget : ∀ (r' : RuntimeId), (Function.update s.runtimes r next.runtime r').calls = (s.runtimes r').calls := by
      intro r'
      by_cases hr : r' = r
      · rw [hr, hself, hcalls]
      · rw [hother r' hr]
    refine ⟨h.line, h.entry, ?_, ?_, hkeeps.nodup h.nodup⟩
    · intro r' c call hcall
      rw [hget] at hcall
      exact h.calls r' c call hcall
    intro r' c call hcall
    rw [hget] at hcall
    exact (h.goes r' c call hcall).keeps hkeeps
  | added new hnew hcalls hkeeps =>
    have hget : ∀ (r' : RuntimeId) (c : CallId) (call : Call),
        (Function.update s.runtimes r next.runtime r').calls[c]? = some call →
        (s.runtimes r').calls[c]? = some call ∨ submitting call = false := by
      intro r' c call hcall
      by_cases hr : r' = r
      · rw [hr, hself, hcalls] at hcall
        rcases getElem?_concat_cases hcall with hcall | ⟨-, rfl⟩
        · rw [hr]
          exact .inl hcall
        · exact .inr hnew
      · rw [hother r' hr] at hcall
        exact .inl hcall
    refine ⟨h.line, h.entry, ?_, ?_, hkeeps.nodup h.nodup⟩
    · intro r' c call hcall hsubmitting
      rcases hget r' c call hcall with hcall | hnot
      · exact h.calls r' c call hcall hsubmitting
      · cases hnot.symm.trans hsubmitting
    · intro r' c call hcall
      rcases hget r' c call hcall with hcall | hnot
      · exact (h.goes r' c call hcall).keeps hkeeps
      · exact .of_not_submitting hnot
  | went i old new hold hcalls hsubmitting hkeeps hgoes =>
    obtain ⟨hnodup, hnew⟩ := hgoes h.nodup (h.goes r i old hold)
    have hget : ∀ (r' : RuntimeId) (c : CallId) (call : Call),
        (Function.update s.runtimes r next.runtime r').calls[c]? = some call →
        (r = r' ∧ i = c ∧ call = new) ∨ (¬ (r = r' ∧ i = c) ∧ (s.runtimes r').calls[c]? = some call) := by
      intro r' c call hcall
      by_cases hr : r' = r
      · rw [hr, hself, hcalls] at hcall
        rcases getElem?_set_cases hcall with ⟨hi, hnewcall⟩ | ⟨hi, hcall⟩
        · exact .inl ⟨hr.symm, hi, hnewcall⟩
        · rw [hr]
          exact .inr ⟨fun heq => hi heq.2, hcall⟩
      · rw [hother r' hr] at hcall
        exact .inr ⟨fun heq => hr heq.1.symm, hcall⟩
    refine ⟨h.line, h.entry, ?_, ?_, hnodup⟩
    · intro r' c call hcall hyes
      rcases hget r' c call hcall with ⟨rfl, rfl, rfl⟩ | ⟨-, hcall⟩
      · exact h.calls r i old hold (hsubmitting hyes)
      · exact h.calls r' c call hcall hyes
    · intro r' c call hcall
      rcases hget r' c call hcall with ⟨rfl, rfl, rfl⟩ | ⟨hne, hcall⟩
      · exact hnew
      · exact h.goes_of hold hcall hne hkeeps

/-- **What one step keeps.** -/
theorem Inv.kept (h : Inv s) (e : Event) : Inv (step s e) := by
  -- an event of a submission that was not made changes nothing
  have hon : ∀ (i : Nat) (f : Submission → State),
      (∀ b, s.submissions[i]? = some b → Inv (f b)) → Inv (s.onSubmission i f) := by
    intro i f hf
    unfold State.onSubmission
    cases hb : s.submissions[i]? with
    | none => exact h
    | some b => exact hf b hb
  cases e with
  | prompt clientId => exact h.submit .prompt clientId
  | steer clientId => exact h.submit .steer clientId
  | start i => exact hon i _ fun b hb => h.start hb
  | opened i r => exact hon i _ fun b hb => h.opened hb r
  | openFailed i =>
    apply hon
    intro b hb
    unfold State.openFailed
    split
    next hwork =>
      exact h.setWork hb (by rw [hwork]; exact nofun) (by rw [hwork]; exact ⟨nofun, nofun⟩) (by rw [hwork]; exact nofun)
    · exact h
  | again i =>
    apply hon
    intro b hb
    unfold State.again
    split
    next hwork =>
      exact h.setWork hb (by rw [hwork]; exact nofun) (by rw [hwork]; exact ⟨nofun, nofun⟩) (by rw [hwork]; exact nofun)
    next r c hwork =>
      split
      next hdone =>
        exact h.finishCall hb hwork hdone nofun
      · exact h
    · exact h
  | settle i failed =>
    apply hon
    intro b hb
    unfold State.settle
    split
    next r c again hwork =>
      split
      next hdone =>
        exact h.finishCall hb hwork hdone nofun
      · exact h
    · exact h
  | tail i =>
    apply hon
    intro b hb
    unfold State.tail
    split
    next hwork =>
      exact h.setWork hb (by rw [hwork]; exact nofun) (by rw [hwork]; exact ⟨nofun, nofun⟩) (by rw [hwork]; exact nofun)
    · exact h
  | cleanUp i =>
    apply hon
    intro b hb
    unfold State.cleanUp
    split
    next hwork =>
      have hbegun : b.work ≠ .waiting := by
        rw [hwork]
        exact nofun
      refine ⟨h.line.setWork hb (fun hwaiting => absurd hwaiting hbegun) fun _ => rfl,
        h.entry.cleanUp h.line hb hbegun, ?_, h.goes, h.nodup⟩
      intro r c call hcall hsubmitting
      exact h.calls_setWork hb .cleaned (by rw [hwork]; exact nofun) hcall hsubmitting
    · exact h
  | runtime r e =>
    show Inv (if _ then _ else _)
    split
    · exact h
    next he =>
      exact h.advance r (by simpa using he)
  | restart openOperations =>
    constructor
    · exact Line.nil
    · exact Entry.nil
    · intro r c call hcall
      cases hcall
    · intro r c call hcall
      cases hcall
    · exact h.nodup

theorem Inv.init (openOperations : RuntimeId → List OpenOperation) : Inv (.init openOperations) := by
  constructor
  · exact Line.nil
  · exact Entry.nil
  · intro r c call hcall
    cases hcall
  · intro r c call hcall
    cases hcall
  · exact nodup_nil

/-! ### Its callbacks -/

theorem onSubmission_eq (hb : s.submissions[i]? = some b) (f : Submission → State) : s.onSubmission i f = f b := by
  unfold State.onSubmission
  rw [hb, Option.elim_some]

theorem get_setWork (hb : s.submissions[i]? = some b) (work : Work) :
    (s.setWork i b work).submissions[i]? = some { b with work } :=
  getElem?_set_self (lt_of_getElem? hb)

theorem exec_callbacks (hb : s.submissions[i]? = some b) (hfinished : b.work.finished = true) :
    (Run.exec step s [.tail i, .cleanUp i]).submissions = s.submissions.set i { b with work := .cleaned } ∧
      (Run.exec step s [.tail i, .cleanUp i]).chain
        = if b.work = .cleaned then s.chain else if s.chain = some i then none else s.chain := by
  have htail : step s (.tail i) = s.tail i b := onSubmission_eq hb _
  show (step (step s (.tail i)) (.cleanUp i)).submissions = _ ∧ (step (step s (.tail i)) (.cleanUp i)).chain = _
  rw [htail]
  unfold State.tail
  cases hwork : b.work with
  | settled failed =>
    -- both callbacks have still to run
    have hclean : step (s.setWork i b .tailed) (.cleanUp i)
        = (s.setWork i b .tailed).cleanUp i { b with work := .tailed } :=
      onSubmission_eq (get_setWork hb .tailed) _
    dsimp only
    rw [hclean]
    exact ⟨set_set .., rfl⟩
  | tailed =>
    have hclean : step s (.cleanUp i) = s.cleanUp i b := onSubmission_eq hb _
    dsimp only
    rw [hclean]
    unfold State.cleanUp
    rw [hwork]
    exact ⟨rfl, rfl⟩
  | cleaned =>
    have hclean : step s (.cleanUp i) = s.cleanUp i b := onSubmission_eq hb _
    have hsame : { b with work := .cleaned } = b := by rw [← hwork]
    dsimp only
    rw [hclean]
    unfold State.cleanUp
    rw [hwork, hsame, if_pos rfl]
    obtain ⟨hi, rfl⟩ := List.getElem?_eq_some_iff.mp hb
    exact ⟨(List.set_getElem_self hi).symm, rfl⟩
  | waiting | opening | running =>
    rw [hwork] at hfinished
    cases hfinished

theorem Inv.notBlocked (h : Inv s) (hb : s.submissions[j]? = some b) (hwaiting : b.work = .waiting)
    (hfinished : ∀ (i : Nat) (a : Submission), i < j → s.submissions[i]? = some a → a.work.finished = true) :
    ∃ b', (Run.exec step s [.tail (j - 1), .cleanUp (j - 1), .start j]).submissions[j]? = some b' ∧
      b'.work = .opening false := by
  have hstart : ∀ s' : State, s'.submissions[j]? = some b → (∀ t ∈ b.after, s'.cleanedUp t = true) →
      ∃ b', (step s' (.start j)).submissions[j]? = some b' ∧ b'.work = .opening false := by
    intro s' hb' hafter
    refine ⟨{ b with work := .opening false }, ?_, rfl⟩
    show (s'.onSubmission j (s'.start j)).submissions[j]? = _
    rw [onSubmission_eq hb']
    unfold State.start
    rw [if_pos ⟨hwaiting, hafter⟩]
    exact get_setWork hb' _
  cases j with
  | zero =>
    -- nothing to wait for
    have htail : step s (.tail 0) = s := by
      show s.onSubmission 0 _ = s
      rw [onSubmission_eq hb]
      unfold State.tail
      rw [hwaiting]
    have hclean : step s (.cleanUp 0) = s := by
      show s.onSubmission 0 _ = s
      rw [onSubmission_eq hb]
      unfold State.cleanUp
      rw [hwaiting]
    show ∃ b', (step (step (step s (.tail 0)) (.cleanUp 0)) (.start 0)).submissions[0]? = some b' ∧ _
    rw [htail, hclean]
    apply hstart s hb
    intro t ht
    cases h.line.after 0 b hb t ht
  | succ k =>
    obtain ⟨hlt, -⟩ := List.getElem?_eq_some_iff.mp hb
    have hk : k < s.submissions.length := Nat.lt_of_succ_lt hlt
    have ha : s.submissions[k]? = some s.submissions[k] := List.getElem?_eq_getElem hk
    obtain ⟨hsubmissions, -⟩ := exec_callbacks ha (hfinished k _ (Nat.lt_succ_self k) ha)
    apply hstart (Run.exec step s [.tail k, .cleanUp k])
    · rw [hsubmissions, getElem?_set_ne (Nat.ne_of_lt (Nat.lt_succ_self k))]
      exact hb
    intro t ht
    obtain rfl : t = k := Nat.succ.inj (h.line.after (k + 1) b hb t ht)
    unfold State.cleanedUp
    rw [hsubmissions, getElem?_set_self hk]
    rfl

theorem Inv.cleared (h : Inv s) (hfinished : ∀ a ∈ s.submissions, a.work.finished = true) :
    (Run.exec step s [.tail (s.submissions.length - 1), .cleanUp (s.submissions.length - 1)]).chain = none := by
  generalize hlast : s.submissions.length - 1 = last
  cases hb : s.submissions[last]? with
  | none =>
    have hnone : ∀ f, s.onSubmission last f = s := by
      intro f
      unfold State.onSubmission
      rw [hb, Option.elim_none]
    show (step (step s (.tail last)) (.cleanUp last)).chain = none
    have htail : step s (.tail last) = s := hnone _
    have hclean : step s (.cleanUp last) = s := hnone _
    rw [htail, hclean]
    cases hchain : s.chain with
    | none => rfl
    | some t =>
      obtain ⟨hlen, -⟩ := h.entry.newest t hchain
      have hout := getElem?_eq_none_iff.mp hb
      omega
  | some b =>
    obtain ⟨-, hchain⟩ := exec_callbacks hb (hfinished b (mem_of_getElem? hb))
    rw [hchain]
    have hnewest : ∀ t, s.chain = some t → t = last ∧ b.work ≠ .cleaned := by
      intro t ht
      obtain ⟨hlen, hnot⟩ := h.entry.newest t ht
      obtain rfl : t = last := by omega
      exact ⟨rfl, hnot b hb⟩
    cases ht : s.chain with
    | none =>
      split
      · rfl
      · rfl
    | some t =>
      obtain ⟨rfl, hnot⟩ := hnewest t ht
      rw [if_neg hnot, if_pos rfl]

theorem Inv.ordered (h : Inv s) : Ordered s := by
  constructor
  · intro i j a b hij ha hb hbegun
    rw [h.line.order i j a b hij ha hb hbegun]
    rfl
  · intro j b hb hwaiting hfinished
    exact h.notBlocked hb hwaiting hfinished
  · constructor
    · intro hsome
      obtain ⟨t, ht⟩ := Option.isSome_iff_exists.mp hsome
      obtain ⟨hlen, hnot⟩ := h.entry.newest t ht
      have hlt : t < s.submissions.length := by omega
      exact ⟨s.submissions[t], getElem_mem hlt, hnot _ (getElem?_eq_getElem hlt)⟩
    · rintro ⟨a, ha, hnot⟩
      by_contra hnone
      exact hnot (h.entry.clear (by simpa using hnone) a ha)
  · exact h.cleared
  · exact nodup_iff_count_le_one.mp h.nodup

end

/-- **Submissions run one at a time in the order they were made and no input is stored twice**, in every
run: whatever is repeated, fails or is reopened. -/
theorem submissions_ordered (openOperations : RuntimeId → List OpenOperation) (es : List Event) :
    Ordered (Run.exec step (.init openOperations) es) :=
  (Run.exec_invariant Inv (fun _ e h => h.kept e) (Inv.init openOperations) es).ordered

/-- The table still has the entry of a submission whose work is finished, until its callbacks ran. -/
theorem entry_outlives_work :
    ¬ ((Run.exec step (.init fun _ => []) [.prompt "input", .start 0, .openFailed 0]).chain.isSome = true ↔
      ∃ a ∈ (Run.exec step (.init fun _ => []) [.prompt "input", .start 0, .openFailed 0]).submissions,
        a.work.finished = false) := by
  decide

end Reins.SubmissionChain
