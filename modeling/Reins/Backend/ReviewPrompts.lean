import Reins.Backend.CodeReviews
import Reins.NodeProtocol.RpcFrame

/-!
# A review's prompt (`backend/src/models/code-review-submission.ts`, over `submitToSession`)

`submit` reads a review, has its session's runtime admit the prompt, and then consumes the review. The
first and last steps are `Reins/Backend/CodeReviews.lean`'s; here is what lies between, with everyone else's
steps in between as well. A runtime admits a prompt once under its client id, and a submission's promise
resolves only after that; it can reject before or after.
-/

namespace Reins.ReviewPrompts

open CodeReviews Schema Utf List

structure Prompt where
  sessionId : SessionId
  clientId : JsString
  text : JsString
  review : CodeReview
  deriving DecidableEq

def reinsId (review : CodeReview) : JsString := js "code-review:" ++ review.id ++ js ":" ++ number review.revision

structure State where
  reviews : CodeReviews.State
  sessions : List SessionId
  prompts : List Prompt

def State.init : State := ⟨.init, [], []⟩

variable {s : State} {entry : ReviewEntry} {e : CodeReviews.Event}

def State.submission? (s : State) (k : Nat) : Option (Submission × SessionId) :=
  match s.reviews.submissions[k]?, s.sessions[k]? with
  | some b, some sessionId => some (b, sessionId)
  | _, _ => none

def State.findAdmitted (s : State) (sessionId : SessionId) (clientId : JsString) : Bool :=
  s.prompts.any fun p => p.sessionId = sessionId && p.clientId = clientId

inductive Event
  /-- Anything but a step of a submission: edits, deletions, loads, the other tables. -/
  | other (e : CodeReviews.Event)
  | submit (projectId : ProjectId) (command : SubmitCodeReviewCommand)
  /-- The runtime of the `k`-th submission's session comes to its prompt. -/
  | admitPrompt (k : Nat)
  /-- The `k`-th submission's promise settles. -/
  | settle (k : Nat) (outcome : Except Thrown Unit)

def isSubmission : CodeReviews.Event → Bool
  | .submit .. | .admitted .. => true
  | _ => false

def step (s : State) : Event → State
  | .other e => if isSubmission e then s else { s with reviews := CodeReviews.step s.reviews e }
  | .submit projectId command =>
    match prepareSubmission projectId command s.reviews.db with
    | .error .. => s
    | .ok .. =>
      { s with
        reviews := CodeReviews.step s.reviews (.submit projectId command)
        sessions := s.sessions ++ [command.sessionId] }
  | .admitPrompt k =>
    match s.submission? k with
    | none => s
    | some (b, sessionId) =>
      if s.findAdmitted sessionId (reinsId b.review) then s
      else { s with prompts := s.prompts ++ [⟨sessionId, reinsId b.review, b.feedback, b.review⟩] }
  | .settle k (.error error) => { s with reviews := CodeReviews.step s.reviews (.admitted k (.error error)) }
  | .settle k (.ok ()) =>
    match s.submission? k with
    | none => s
    | some (b, sessionId) =>
      if s.findAdmitted sessionId (reinsId b.review) then
        { s with reviews := CodeReviews.step s.reviews (.admitted k (.ok ())) }
      else s

/-! ## What is asked of it -/

def CodeReview.entries (review : CodeReview) : List ReviewEntry := review.annotations.flatMap (·.entries)

def Shares (p q : Prompt) : Prop :=
  p.review.id = q.review.id ∧ ∃ x ∈ CodeReview.entries p.review, ∃ y ∈ CodeReview.entries q.review, x.id = y.id

/-- No comment is delivered in two different prompts. -/
def Once (s : State) : Prop := s.prompts.Pairwise fun p q => ¬Shares p q

def Carries (s : State) (e : Event) : Prop :=
  ∀ id text, (step s e).reviews.done = s.reviews.done ++ [.submitted id text] →
    ∃ row ∈ s.reviews.db.codeReviews, row.id = id ∧ ∃ p ∈ s.prompts,
      p.clientId = reinsId row ∧ p.text = text ∧ text = compileFeedback row.annotations ∧
      ∀ entry ∈ CodeReview.entries row, entry.author ++ js ": " ++ entry.body <:+: p.text

/-- A submission's steps keep unchanged every review that has no prompt admitted at its revision, and so do
they all where its promise rejects. -/
def Keeps (s : State) (e : Event) : Prop :=
  ∀ row ∈ s.reviews.db.codeReviews, ((∀ e', e ≠ .other e') ∧ ∀ p ∈ s.prompts, p.clientId ≠ reinsId row) ∨
      (∃ k error, e = .settle k (.error error)) →
    row ∈ (step s e).reviews.db.codeReviews

def Edits (s : CodeReviews.State) (e : CodeReviews.Event) (id : ReviewId) : Prop :=
  ∃ row ∈ s.db.codeReviews, row.id = id ∧
    ∃ row' ∈ (CodeReviews.step s e).db.codeReviews, row'.id = id ∧ row'.revision ≠ row.revision

def Undisturbed (s : State) : Event → Prop
  | .other e => isSubmission e = false → ∀ p ∈ s.prompts, ¬Edits s.reviews e p.review.id
  | .admitPrompt k =>
    ∀ x ∈ s.submission? k, s.findAdmitted x.2 (reinsId x.1.review) = false →
      (∀ p ∈ s.prompts, p.review.id = x.1.review.id → p.sessionId = x.2) ∧
        ∃ row ∈ s.reviews.db.codeReviews, row.id = x.1.review.id ∧ row.revision = x.1.review.revision
  | _ => True

/-! ## A prompt's text has its comments -/

theorem infix_join {part separator : JsString} {parts : List JsString} (h : part ∈ parts) :
    part <:+: join separator parts := by
  unfold join
  induction parts with
  | nil => cases h
  | cons x rest ih =>
    cases rest with
    | nil =>
      obtain rfl := mem_singleton.mp h
      simp [List.intercalate]
    | cons y rest =>
      have hcons : separator.intercalate (x :: y :: rest) = x ++ (separator ++ separator.intercalate (y :: rest)) := by
        simp [List.intercalate]
      rw [hcons]
      rcases mem_cons.mp h with rfl | h
      · exact (prefix_append _ _).isInfix
      · exact ((ih h).trans (suffix_append _ _).isInfix).trans (suffix_append _ _).isInfix

/-- A turn of the loop keeps the entries that were placed, and places the annotation's. -/
theorem mem_locate {locations : List Location} {a : ReviewAnnotation}
    (h : entry ∈ a.entries ∨ ∃ l ∈ locations, entry ∈ l.entries) :
    ∃ l ∈ locate locations a, entry ∈ l.entries := by
  unfold locate
  split
  next hany =>
    rcases h with h | ⟨l, hl, h⟩
    · obtain ⟨l, hl, hkey⟩ := any_eq_true.mp hany
      refine ⟨_, mem_map_of_mem hl, ?_⟩
      rw [if_pos (by simpa using hkey)]
      exact mem_append_right _ h
    · refine ⟨_, mem_map_of_mem hl, ?_⟩
      split
      · exact mem_append_left _ h
      · exact h
  · rcases h with h | ⟨l, hl, h⟩
    · exact ⟨_, mem_append_right _ (mem_singleton_self _), h⟩
    · exact ⟨l, mem_append_left _ hl, h⟩

theorem mem_foldl_locate {annotations : List ReviewAnnotation} {locations : List Location}
    (h : (∃ a ∈ annotations, entry ∈ a.entries) ∨ ∃ l ∈ locations, entry ∈ l.entries) :
    ∃ l ∈ annotations.foldl locate locations, entry ∈ l.entries := by
  induction annotations generalizing locations with
  | nil => simpa using h
  | cons a annotations ih =>
    refine ih ?_
    rcases h with ⟨b, hb, h⟩ | h
    · rcases mem_cons.mp hb with rfl | hb
      · exact .inr (mem_locate (.inl h))
      · exact .inl ⟨b, hb, h⟩
    · exact .inr (mem_locate (.inr h))

theorem comment_infix_feedback {location : Location} (h : entry ∈ location.entries) :
    entry.author ++ js ": " ++ entry.body <:+: location.feedback := by
  obtain ⟨i, hi, rfl⟩ := getElem_of_mem h
  have hcomment : ReviewEntry.comment i location.entries[i] ∈ location.entries.mapIdx ReviewEntry.comment :=
    mem_mapIdx.mpr ⟨i, hi, rfl⟩
  have hown : location.entries[i].author ++ js ": " ++ location.entries[i].body <:+:
      ReviewEntry.comment i location.entries[i] :=
    ⟨if i = 0 then [] else js "↳ ", [], by simp [ReviewEntry.comment]⟩
  exact (hown.trans (infix_join hcomment)).trans (suffix_append _ _).isInfix

theorem comment_infix_compileFeedback {annotations : List ReviewAnnotation}
    (h : entry ∈ annotations.flatMap (·.entries)) :
    entry.author ++ js ": " ++ entry.body <:+: compileFeedback annotations := by
  have hplaced : ∃ l ∈ annotations.foldl locate [], entry ∈ l.entries := mem_foldl_locate (.inl (mem_flatMap.mp h))
  obtain ⟨l, hl, hentry⟩ := hplaced
  exact (comment_infix_feedback hentry).trans (infix_join (mem_map_of_mem hl))

/-! ## A client id tells the review and its revision -/

theorem colon_notMem_number (n : Nat) : (0x3A : UInt16) ∉ number n := by
  intro h
  obtain ⟨c, hc, hu⟩ := mem_flatMap.mp h
  have hdigits : c ∈ Nat.toDigits 10 n := by simpa using hc
  have hle : c.toNat ≤ 57 := by
    have hd := Nat.isDigit_of_mem_toDigits (by decide) (by decide) hdigits
    simp only [Char.isDigit, Bool.and_eq_true, decide_eq_true_eq] at hd
    exact hd.2
  have hlt : c.toNat < 0x10000 := by omega
  rw [units, if_pos hlt, mem_singleton] at hu
  have hcolon : 0x3A = c.toNat := (congrArg UInt16.toNat hu).trans (toNat_unit hlt)
  omega

theorem append_colon_inj {a b x y : JsString} (hx : (0x3A : UInt16) ∉ x) (hy : (0x3A : UInt16) ∉ y)
    (h : a ++ 0x3A :: x = b ++ 0x3A :: y) : a = b ∧ x = y := by
  rcases append_eq_append_iff.mp h with ⟨c, rfl, hc⟩ | ⟨c, rfl, hc⟩
  · cases c with
    | nil => simpa using hc
    | cons u c =>
      rw [cons_append] at hc
      cases hc
      exact absurd (mem_append_right _ mem_cons_self) hx
  · cases c with
    | nil => simpa using hc.symm
    | cons u c =>
      rw [cons_append] at hc
      cases hc
      exact absurd (mem_append_right _ mem_cons_self) hy

theorem reinsId_inj {review review' : CodeReview} (h : reinsId review = reinsId review') :
    review.id = review'.id ∧ review.revision = review'.revision := by
  have hcolon : js ":" = [0x3A] := by decide
  simp only [reinsId, append_assoc, append_cancel_left_eq, hcolon, singleton_append] at h
  obtain ⟨hid, hnumber⟩ := append_colon_inj (colon_notMem_number _) (colon_notMem_number _) h
  exact ⟨hid, js_toString_inj.mp hnumber⟩

/-! ## What every run keeps -/

structure Prompt.Ok (db : Db) (p : Prompt) : Prop where
  clientId : p.clientId = reinsId p.review
  text : p.text = compileFeedback p.review.annotations
  current : Current db p.review.id p.review.revision p.review.annotations

structure Inv (s : State) : Prop where
  reviews : CodeReviews.Inv s.reviews
  prompts : ∀ p ∈ s.prompts, p.Ok s.reviews.db

theorem findAdmitted_eq_true {sessionId : SessionId} {clientId : JsString} : s.findAdmitted sessionId clientId = true ↔
      ∃ p ∈ s.prompts, p.sessionId = sessionId ∧ p.clientId = clientId := by
  simp [State.findAdmitted]

theorem submission?_eq_some {k : Nat} {b : Submission} {sessionId : SessionId}
    (h : s.submission? k = some (b, sessionId)) : s.reviews.submissions[k]? = some b := by
  unfold State.submission? at h
  split at h
  next b' sessionId' hb _ =>
    cases h
    exact hb
  · cases h

/-- What a step of the reviews keeps of what was read of them. -/
theorem later_moves {s s' : CodeReviews.State} (h : Moves s e s') : Later s.db s'.db := by
  cases h with
  | deleted id => exact later_remove _ _
  | created hnew hrow => exact later_insert (by simpa [hrow.1] using hnew)
  | saved => exact later_write _ _ _ _ _
  | changed hrow =>
    obtain ⟨-, -, rfl | ⟨-, hnew, -, -, rfl⟩⟩ := hrow
    · exact later_write _ _ _ _ _
    · intro id revision annotations hc
      exact later_write _ _ _ _ _ _ _ _ (later_insert hnew _ _ _ hc)
  | submitted => exact later_remove _ _
  | _ => exact Later.refl _

/-- A step moves the reviews by a step of theirs, or adds a prompt, said once. -/
inductive Moved (s : State) : Event → State → Prop
  | idle (e : Event) : Moved s e s
  | other (e : CodeReviews.Event) (h : isSubmission e = false) :
      Moved s (.other e) { s with reviews := CodeReviews.step s.reviews e }
  | submitted (projectId : ProjectId) (command : SubmitCodeReviewCommand) : Moved s (.submit projectId command)
        ⟨CodeReviews.step s.reviews (.submit projectId command), s.sessions ++ [command.sessionId], s.prompts⟩
  | rejected (k : Nat) (error : Thrown) : Moved s (.settle k (.error error))
        { s with reviews := CodeReviews.step s.reviews (.admitted k (.error error)) }
  | resolved {k : Nat} {b : Submission} {sessionId : SessionId} (hb : s.submission? k = some (b, sessionId))
      (hp : ∃ p ∈ s.prompts, p.sessionId = sessionId ∧ p.clientId = reinsId b.review) :
      Moved s (.settle k (.ok ())) { s with reviews := CodeReviews.step s.reviews (.admitted k (.ok ())) }
  | prompted {k : Nat} {b : Submission} {sessionId : SessionId} (hb : s.submission? k = some (b, sessionId))
      (hf : s.findAdmitted sessionId (reinsId b.review) = false) :
      Moved s (.admitPrompt k) { s with prompts := s.prompts ++ [⟨sessionId, reinsId b.review, b.feedback, b.review⟩] }

theorem moved (s : State) (e : Event) : Moved s e (step s e) := by
  cases e with
  | other e =>
    simp only [step]
    split
    · exact .idle _
    next h =>
      exact .other e (by simpa using h)
  | submit projectId command =>
    simp only [step]
    split
    · exact .idle _
    · exact .submitted projectId command
  | admitPrompt k =>
    simp only [step]
    split
    · exact .idle _
    rename_i b sessionId hb
    split
    · exact .idle _
    next hf =>
      exact .prompted hb (by simpa using hf)
  | settle k outcome =>
    cases outcome with
    | error error => exact .rejected k error
    | ok =>
      simp only [step]
      split
      · exact .idle _
      rename_i b sessionId hb
      split
      next hf =>
        exact .resolved hb (findAdmitted_eq_true.mp hf)
      · exact .idle _

/-- A step of the reviews keeps the invariant, whatever becomes of the submissions' sessions. -/
theorem Inv.reviewsStep (h : Inv s) (e : CodeReviews.Event) (sessions : List SessionId) :
    Inv ⟨CodeReviews.step s.reviews e, sessions, s.prompts⟩ := by
  refine ⟨inv_step _ _ h.reviews, fun p hp => ?_⟩
  have hok := h.prompts p hp
  exact ⟨hok.clientId, hok.text, later_moves (moves_step _ _) _ _ _ hok.current⟩

theorem Inv.moved {s' : State} {e : Event} (h : Inv s) (hm : Moved s e s') : Inv s' := by
  cases hm with
  | idle => exact h
  | other e => exact h.reviewsStep e _
  | submitted => exact h.reviewsStep _ _
  | rejected => exact h.reviewsStep _ _
  | resolved => exact h.reviewsStep _ _
  | @prompted k b sessionId hb =>
    refine ⟨h.reviews, fun p hp => ?_⟩
    rcases Places.mem_concat_cases hp with hp | rfl
    · exact h.prompts p hp
    · have hok := h.reviews.submissions b (mem_of_getElem? (submission?_eq_some hb))
      exact ⟨rfl, hok.feedback, hok.current⟩

/-! ## Consumed, and kept -/

theorem step_submit (s : CodeReviews.State) (projectId : ProjectId) (command : SubmitCodeReviewCommand) :
    (CodeReviews.step s (.submit projectId command)).db = s.db ∧
      (CodeReviews.step s (.submit projectId command)).done = s.done := by
  unfold CodeReviews.step
  cases h : act (.submit projectId command) s with
  | ok _ s' =>
    obtain ⟨row, -, -, -, rfl⟩ := submit_ok h
    exact ⟨rfl, rfl⟩
  | error error s' =>
    rcases act_error h with rfl | ⟨_, _, _, he, -⟩
    · exact ⟨rfl, rfl⟩
    · cases he

/-- One that ends has consumed its review, or leaves the table. -/
theorem step_admitted (s : CodeReviews.State) (k : Nat) (outcome : Except Thrown Unit) :
    ((CodeReviews.step s (.admitted k outcome)).db = s.db ∧ (CodeReviews.step s (.admitted k outcome)).done = s.done) ∨
    outcome = .ok () ∧ ∃ b row, s.submissions[k]? = some b ∧ row ∈ s.db.codeReviews ∧
      row.id = b.review.id ∧ row.revision = b.review.revision ∧
      (CodeReviews.step s (.admitted k outcome)).db = s.db.remove (·.isAt row.id row.revision) ∧
      (CodeReviews.step s (.admitted k outcome)).done = s.done ++ [.submitted row.id b.feedback] := by
  unfold CodeReviews.step
  cases h : act (.admitted k outcome) s with
  | ok _ s' =>
    rcases admitted_ok h with rfl | ⟨ho, b, row, broadcasts, hb, hmem, hid, hrevision, rfl⟩
    · exact .inl ⟨rfl, rfl⟩
    · exact .inr ⟨ho, b, row, hb, hmem, hid, hrevision, rfl, rfl⟩
  | error error s' =>
    rcases act_error h with rfl | ⟨_, _, _, -, -, rfl⟩
    · exact .inl ⟨rfl, rfl⟩
    · exact .inl ⟨rfl, rfl⟩

theorem not_submitted {s : CodeReviews.State} (he : isSubmission e = false) {id : ReviewId} {text : JsString} :
    (CodeReviews.step s e).done ≠ s.done ++ [.submitted id text] := by
  intro hdone
  have hm := moves_step s e
  generalize CodeReviews.step s e = s' at hm hdone
  cases hm with
  | saved => cases concat_inj hdone
  | changed => cases concat_inj hdone
  | submitted => cases he
  | _ => simp [CodeReviews.State.detach] at hdone

theorem Inv.carries (h : Inv s) (e : Event) : Carries s e := by
  intro id text hdone
  have hm := ReviewPrompts.moved s e
  generalize step s e = s' at hm hdone
  cases hm with
  | idle => simp at hdone
  | other e he => exact absurd hdone (not_submitted he)
  | submitted projectId command =>
    rw [(step_submit _ _ _).2] at hdone
    simp at hdone
  | rejected k error =>
    rcases step_admitted s.reviews k (.error error) with ⟨-, hsame⟩ | ⟨ho, -⟩
    · rw [hsame] at hdone
      simp at hdone
    · cases ho
  | @resolved k b sessionId hb hp =>
    rcases step_admitted s.reviews k (.ok ()) with ⟨-, hsame⟩ | ⟨-, b', row, hb', hrow, hid, hrevision, -, hdone'⟩
    · rw [hsame] at hdone
      simp at hdone
    obtain rfl := Option.some.inj (hb'.symm.trans (submission?_eq_some hb))
    cases concat_inj (hdone'.symm.trans hdone)
    obtain ⟨p, hp, -, hclient⟩ := hp
    have hok := h.prompts p hp
    have hreins : reinsId row = reinsId b'.review := by simp [reinsId, hid, hrevision]
    obtain ⟨hpid, hprevision⟩ := reinsId_inj (hok.clientId.symm.trans hclient)
    have hannotations : row.annotations = p.review.annotations :=
      (hok.current.2 row hrow (hid.trans hpid.symm)).2 (hrevision.trans hprevision.symm)
    have htext : p.text = compileFeedback row.annotations := by rw [hok.text, hannotations]
    have hfeedback : b'.feedback = compileFeedback row.annotations := by
      have hsub := h.reviews.submissions b' (mem_of_getElem? hb')
      rw [hsub.feedback, (hsub.current.2 row hrow hid).2 hrevision]
    refine ⟨row, hrow, rfl, p, hp, hclient.trans hreins.symm, htext.trans hfeedback.symm, hfeedback,
      fun entry hentry => ?_⟩
    rw [htext]
    exact comment_infix_compileFeedback hentry
  | prompted => simp at hdone

theorem keeps (s : State) (e : Event) : Keeps s e := by
  intro row hrow hcase
  have hm := ReviewPrompts.moved s e
  generalize step s e = s' at hm
  cases hm with
  | idle => exact hrow
  | other e he =>
    rcases hcase with ⟨hne, -⟩ | ⟨k, error, heq⟩
    · exact absurd rfl (hne e)
    · cases heq
  | submitted projectId command =>
    rw [(step_submit _ _ _).1]
    exact hrow
  | rejected k error =>
    rcases step_admitted s.reviews k (.error error) with ⟨hsame, -⟩ | ⟨ho, -⟩
    · rw [hsame]
      exact hrow
    · cases ho
  | @resolved k b sessionId hb hp =>
    rcases hcase with ⟨-, hnone⟩ | ⟨k, error, heq⟩
    · rcases step_admitted s.reviews k (.ok ()) with ⟨hsame, -⟩ | ⟨-, b', gone, hb', hgone, hid, hrevision, hdb, -⟩
      · rw [hsame]
        exact hrow
      -- the review that goes has the prompt, so it is another one
      rw [hdb]
      refine mem_filter.mpr ⟨hrow, ?_⟩
      cases hb'.symm.trans (submission?_eq_some hb)
      obtain ⟨p, hp, -, hclient⟩ := hp
      have hne : ¬(row.id = gone.id ∧ row.revision = gone.revision) := by
        rintro ⟨hi, hr⟩
        exact hnone p hp (by rw [hclient]; simp [reinsId, hi, hr, hid, hrevision])
      simpa [CodeReview.isAt, imp_iff_not_or] using hne
    · cases heq
  | prompted => exact hrow

/-! ## One prompt a review -/

structure Single (s : State) : Prop where
  settled : ∀ p ∈ s.prompts, ∀ row ∈ s.reviews.db.codeReviews, row.id = p.review.id → row.revision = p.review.revision
  one : s.prompts.Pairwise fun p q => p.review.id ≠ q.review.id

theorem Single.once (h : Single s) : Once s := h.one.imp fun hne hshares => hne hshares.1

theorem row_of_given {s s' : CodeReviews.State} (hm : Moves s e s')
    {row : CodeReview} (hrow : row ∈ s'.db.codeReviews) (hgiven : row.id ∈ s.db.given) :
    ∃ old ∈ s.db.codeReviews, old.id = row.id := by
  have hwrite {db : Db} {id : ReviewId} {revision : Nat} {annotations : List ReviewAnnotation}
      {now : JsString} (h : row ∈ (db.write id revision annotations now).codeReviews) :
      ∃ old ∈ db.codeReviews, old.id = row.id := by
    obtain ⟨old, hold, ⟨-, rfl⟩ | ⟨-, rfl⟩⟩ := mem_write h
    · exact ⟨old, hold, rfl⟩
    · exact ⟨row, hold, rfl⟩
  cases hm with
  | deleted => exact ⟨row, mem_of_mem_filter hrow, rfl⟩
  | @created _ _ _ _ new hnew hnewrow =>
    rcases Places.mem_concat_cases hrow with hrow | rfl
    · exact ⟨row, hrow, rfl⟩
    · exact absurd (hnewrow.1 ▸ hgiven) hnew
  | saved => exact hwrite hrow
  | @changed _ db changed command annotations now broadcasts hresolved =>
    obtain ⟨old, hold, hid⟩ := hwrite hrow
    obtain ⟨-, -, rfl | ⟨-, hnew, -, -, rfl⟩⟩ := hresolved
    · exact ⟨old, hold, hid⟩
    rcases Places.mem_concat_cases hold with hold | rfl
    · exact ⟨old, hold, hid⟩
    · exact absurd (hid ▸ hgiven) hnew
  | submitted => exact ⟨row, mem_of_mem_filter hrow, rfl⟩
  | _ => exact ⟨row, hrow, rfl⟩

theorem Single.subset (h : Single s) {reviews : CodeReviews.State} {sessions : List SessionId}
    (hsub : ∀ row ∈ reviews.db.codeReviews, row ∈ s.reviews.db.codeReviews) :
    Single ⟨reviews, sessions, s.prompts⟩ :=
  ⟨fun p hp row hrow => h.settled p hp row (hsub row hrow), h.one⟩

/-- **The step lemma**: an undisturbed step gives no review a second prompt. -/
theorem Single.moved {s' : State} {e : Event} (hi : Inv s) (h : Single s) (hu : Undisturbed s e)
    (hm : Moved s e s') : Single s' := by
  cases hm with
  | idle => exact h
  | other e he =>
    refine ⟨fun p hp row hrow hid => ?_, h.one⟩
    have hgiven : row.id ∈ s.reviews.db.given := hid ▸ (hi.prompts p hp).current.1
    obtain ⟨old, hold, holdid⟩ := row_of_given (moves_step s.reviews e) hrow hgiven
    by_contra hne
    refine hu he p hp ⟨old, hold, holdid.trans hid, row, hrow, hid, ?_⟩
    rw [h.settled p hp old hold (holdid.trans hid)]
    exact hne
  | submitted projectId command =>
    refine h.subset fun row hrow => ?_
    rwa [(step_submit _ _ _).1] at hrow
  | rejected k error =>
    refine h.subset fun row hrow => ?_
    rcases step_admitted s.reviews k (.error error) with ⟨hsame, -⟩ | ⟨ho, -⟩
    · rwa [hsame] at hrow
    · cases ho
  | @resolved k b sessionId hb hp =>
    refine h.subset fun row hrow => ?_
    rcases step_admitted s.reviews k (.ok ()) with ⟨hsame, -⟩ | ⟨-, _, _, -, -, -, -, hdb, -⟩
    · rwa [hsame] at hrow
    · rw [hdb] at hrow
      exact mem_of_mem_filter hrow
  | @prompted k b sessionId hb hf =>
    obtain ⟨hsession, row, hrow, hid, hrevision⟩ := hu (b, sessionId) hb hf
    refine ⟨fun p hp row' hrow' hid' => ?_, ?_⟩
    · rcases Places.mem_concat_cases hp with hp | rfl
      · exact h.settled p hp row' hrow' hid'
      · obtain rfl := hi.reviews.tidy.ids row hrow row' hrow' (hid'.trans hid.symm)
        exact hrevision
    · refine pairwise_append.mpr ⟨h.one, pairwise_singleton _ _, fun p hp q hq heq => ?_⟩
      obtain rfl := mem_singleton.mp hq
      -- a prompt of the review is of this session and at this revision, so it is this one
      have hp' : p.review.revision = b.review.revision := by
        rw [← hrevision]
        exact (h.settled p hp row hrow (hid.trans heq.symm)).symm
      have hclient : p.clientId = reinsId b.review := by
        rw [(hi.prompts p hp).clientId]
        simp [reinsId, heq, hp']
      have hfound := findAdmitted_eq_true.mpr ⟨p, hp, hsession p hp heq, hclient⟩
      cases hf.symm.trans hfound

theorem inv_start : Inv .init := ⟨inv_init, nofun⟩

theorem single_start : Single .init := ⟨nofun, List.Pairwise.nil⟩

theorem inv_run (es : List Event) : Inv (Run.exec step .init es) :=
  Run.exec_invariant Inv (fun s e h => h.moved (ReviewPrompts.moved s e)) inv_start es

/-- **A review that is consumed was carried whole by its prompt, one whose prompt was not admitted is kept,
and where nothing disturbs the submissions no comment is delivered twice.** -/
theorem delivered_once (es : List Event) :
    (∀ e, Carries (Run.exec step .init es) e ∧ Keeps (Run.exec step .init es) e) ∧
      (Run.Along step Undisturbed .init es → Once (Run.exec step .init es)) := by
  refine ⟨fun e => ⟨(inv_run es).carries e, keeps _ e⟩, fun h => ?_⟩
  have hboth : Inv (Run.exec step .init es) ∧ Single (Run.exec step .init es) :=
    Run.Along.invariant (fun s => Inv s ∧ Single s)
      (fun s e hu hs => ⟨hs.1.moved (ReviewPrompts.moved s e), hs.2.moved hs.1 hu (ReviewPrompts.moved s e)⟩)
      ⟨inv_start, single_start⟩ h
  exact hboth.2.once

instance (s : CodeReviews.State) (e : CodeReviews.Event) (id : ReviewId) : Decidable (Edits s e id) :=
  inferInstanceAs (Decidable (∃ _ ∈ _, _ ∧ ∃ _ ∈ _, _ ∧ _))

instance Undisturbed.decidable (s : State) : (e : Event) → Decidable (Undisturbed s e)
  | .other _ => inferInstanceAs (Decidable (_ → ∀ _ ∈ _, _))
  | .admitPrompt _ => inferInstanceAs (Decidable (∀ _ ∈ _, _ → _ ∧ ∃ _ ∈ _, _))
  | .submit .. | .settle .. => .isTrue trivial

instance (p q : Prompt) : Decidable (Shares p q) := inferInstanceAs (Decidable (_ ∧ _))

instance (s : State) : Decidable (Once s) := inferInstanceAs (Decidable (List.Pairwise _ _))

def anotherComment : NewReviewAnnotation :=
  { oneComment with id := [21], entry := { oneComment.entry with id := [24] } }

def submittedTwice : List Event :=
  [.other (.tables [1] [] [⟨[8], some 1, none⟩]), .other (.add 1 ⟨none, none, oneComment⟩ [9] []),
   .submit 1 ⟨none, [9], 1, [8]⟩,
   .submit 1 ⟨none, [9], 1, [8]⟩,
   .admitPrompt 0,
   .settle 0 (.ok ()),
   .admitPrompt 1,
   .settle 1 (.ok ())]

theorem submittedTwice_once : Once (Run.exec step .init submittedTwice) :=
  (delivered_once submittedTwice).2 (by decide +kernel)

def editedMeanwhile : List Event :=
  [.other (.tables [1] [] [⟨[8], some 1, none⟩]), .other (.add 1 ⟨none, none, oneComment⟩ [9] []),
   .submit 1 ⟨none, [9], 1, [8]⟩,
   .admitPrompt 0,
   .other (.add 1 ⟨none, none, anotherComment⟩ [10] []),
   .settle 0 (.ok ()),
   .submit 1 ⟨none, [9], 2, [8]⟩,
   .admitPrompt 1,
   .settle 1 (.ok ())]

theorem comment_delivered_twice : ¬∀ es, Once (Run.exec step .init es) := by
  intro h
  exact absurd (h editedMeanwhile) (by decide +kernel)

end Reins.ReviewPrompts
