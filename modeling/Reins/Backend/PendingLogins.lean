import Reins.Lib.Places
import Reins.Lib.Run

/-!
# Pending provider logins (`backend/src/routes/oauth.ts`)

A login is pending in a table that has one entry a provider: a start puts its own there, superseding what
it finds, and a callback takes what is there, gives it the code, and once that login ended deletes what is
there then. A start's continuation after `createPiModelRuntime` is one event, and so is a callback's after
each of its awaits. What `modelRuntime.login` does, and when, is the environment's.
-/

namespace Reins.PendingLogins

open Run Places Function

/-- `manualCodePromise`. -/
inductive Code
  | unsettled
  | submitted (code : String)
  | rejected (message : String)
  deriving DecidableEq

def Code.resolve (code : String) : Code → Code
  | .unsettled => .submitted code
  | c => c

def Code.reject (message : String) : Code → Code
  | .unsettled => .rejected message
  | c => c

def Code.isSubmitted : Code → Bool
  | .submitted _ => true
  | _ => false

/-- `loginPromise`. -/
inductive Login
  | running
  | signedIn
  | failed (message : String)
  deriving DecidableEq

/-- The start request, from the login's begin. -/
inductive Start
  /-- For `authReady`. -/
  | waiting
  | ready
  | answered (url instructions : String)
  | timedOut
  deriving DecidableEq

structure Attempt where
  provider : String
  code : Code
  login : Login
  authUrl : String
  authInstructions : String
  start : Start
  /-- It failed, or its start timed out, when no code was submitted to it. -/
  early : Bool
  deriving DecidableEq

/-- What `notify` is called with. -/
inductive AuthEvent
  | authUrl (url : String) (instructions : Option String)
  | deviceCode (verificationUri userCode : String)

inductive Answer
  | ok
  | badRequest (message : String)
  deriving DecidableEq

inductive CallbackPhase
  | reading
  | waiting
  | answered (answer : Answer)
  deriving DecidableEq

structure Callback where
  provider : String
  pending : Option Nat
  phase : CallbackPhase
  deriving DecidableEq

inductive Body
  | invalid
  | code (code : Option String)

structure State where
  attempts : List Attempt
  pendingLogins : String → Option Nat
  callbacks : List Callback

def State.init : State := ⟨[], fun _ => none, []⟩

inductive Event
  | start (providerId : String)
  | notify (a : Nat) (event : AuthEvent)
  | answer (a : Nat)
  | timeout (a : Nat)
  | signedIn (a : Nat)
  | fails (a : Nat) (message : String)
  | callback (providerId : String)
  | body (c : Nat) (body : Body)
  | ends (c : Nat)
  | clearPendingLogins

def Attempt.reject (x : Attempt) (message : String) : Attempt := { x with code := x.code.reject message }

def Attempt.submit (code : String) (x : Attempt) : Attempt := { x with code := x.code.resolve code }

variable {s : State} {f : Attempt → Attempt} {a c : Nat} {b : Callback}

def Attempt.failsEarly (x : Attempt) : Bool := x.early || !x.code.isSubmitted

def State.onAttempt (s : State) (a : Nat) (f : Attempt → Attempt) : State :=
  { s with attempts := s.attempts.modify a f }

def State.supersede (s : State) (providerId : String) : State :=
  match s.pendingLogins providerId with
  | some existing => s.onAttempt existing fun x => x.reject "Login superseded by new attempt"
  | none => s

def State.start (s : State) (providerId : String) : State :=
  { s.supersede providerId with
    attempts := (s.supersede providerId).attempts ++ [⟨providerId, .unsettled, .running, "", "", .waiting, false⟩]
    pendingLogins := Function.update s.pendingLogins providerId (some s.attempts.length) }

def Attempt.notify (event : AuthEvent) (x : Attempt) : Attempt :=
  let start := if x.start = .waiting then .ready else x.start
  match event with
  | .authUrl url instructions => { x with authUrl := url, authInstructions := instructions.getD "", start }
  | .deviceCode verificationUri userCode =>
    { x with authUrl := verificationUri, authInstructions := "Enter code " ++ userCode, start }

def Attempt.answer (x : Attempt) : Attempt :=
  if x.start = .ready then { x with start := .answered x.authUrl x.authInstructions } else x

/-- `Timeout waiting for auth URL`: the request fails, and nothing else. -/
def Attempt.timeout (x : Attempt) : Attempt :=
  if x.start = .waiting then { x with start := .timedOut, early := x.failsEarly } else x

def Attempt.signIn (x : Attempt) : Attempt := if x.login = .running then { x with login := .signedIn } else x

def Attempt.fails (message : String) (x : Attempt) : Attempt :=
  if x.login = .running then { x with login := .failed message, early := x.failsEarly } else x

def State.callback (s : State) (providerId : String) : State :=
  match s.pendingLogins providerId with
  | some a => { s with callbacks := s.callbacks ++ [⟨providerId, some a, .reading⟩] }
  | none =>
    { s with callbacks := s.callbacks ++
        [⟨providerId, none, .answered (.badRequest ("No pending login for provider: " ++ providerId))⟩] }

def State.setPhase (s : State) (c : Nat) (b : Callback) (phase : CallbackPhase) : State :=
  { s with callbacks := s.callbacks.set c { b with phase } }

def State.body (s : State) (c : Nat) (b : Callback) (body : Body) : State :=
  match b.phase, b.pending with
  | .reading, some a =>
    match body with
    | .invalid => s.setPhase c b (.answered (.badRequest "Invalid JSON in request body"))
    | .code none | .code (some "") => s.setPhase c b (.answered (.badRequest "Missing or invalid 'code' field"))
    | .code (some code) => (s.onAttempt a (·.submit code)).setPhase c b .waiting
  | _, _ => s

def Login.answer : Login → Option Answer
  | .running => none
  | .signedIn => some .ok
  | .failed message => some (.badRequest ("OAuth login failed: " ++ message))

def State.loginAnswer (s : State) (a : Nat) : Option Answer := (s.attempts[a]?).bind (·.login.answer)

def State.ends (s : State) (c : Nat) (b : Callback) : State :=
  match b.phase, b.pending with
  | .waiting, some a =>
    match s.loginAnswer a with
    | some answer =>
      { s.setPhase c b (.answered answer) with pendingLogins := Function.update s.pendingLogins b.provider none }
    | none => s
  | _, _ => s

def State.clearPendingLogins (s : State) : State :=
  { s with
    attempts := s.attempts.mapIdx fun a x =>
      if s.pendingLogins x.provider = some a then x.reject "Login cancelled" else x
    pendingLogins := fun _ => none }

def State.atCallback (s : State) (c : Nat) (f : Callback → State) : State :=
  match s.callbacks[c]? with
  | some b => f b
  | none => s

def step (s : State) : Event → State
  | .start providerId => s.start providerId
  | .notify a event => s.onAttempt a (·.notify event)
  | .answer a => s.onAttempt a (·.answer)
  | .timeout a => s.onAttempt a (·.timeout)
  | .signedIn a => s.onAttempt a (·.signIn)
  | .fails a message => s.onAttempt a (·.fails message)
  | .callback providerId => s.callback providerId
  | .body c body => s.atCallback c fun b => s.body c b body
  | .ends c => s.atCallback c fun b => s.ends c b
  | .clearPendingLogins => s.clearPendingLogins

/-! ## What is promised -/

def State.isPending (s : State) (a : Nat) : Prop := ∃ providerId, s.pendingLogins providerId = some a

def OnePending (s : State) : Prop :=
  ∀ (a b : Nat) (x y : Attempt), s.isPending a → s.isPending b → s.attempts[a]? = some x → s.attempts[b]? = some y →
    x.provider = y.provider → a = b

def NoneFailed (s : State) : Prop :=
  ∀ (a : Nat) (x : Attempt), s.isPending a → s.attempts[a]? = some x → x.early = false

def Removes (s : State) (a : Nat) : Event → Prop
  | .ends c => ∃ b, s.callbacks[c]? = some b ∧ b.pending = some a
  | .start providerId => ∃ x, s.attempts[a]? = some x ∧ x.provider = providerId
  | .clearPendingLogins => True
  | _ => False

def Stays (s : State) (e : Event) : Prop := ∀ a, s.isPending a → (step s e).isPending a ∨ Removes s a e

def Starts (s : State) (e : Event) : Prop :=
  ∀ providerId, e = .start providerId → (step s e).pendingLogins providerId = some s.attempts.length

def Sound (s : State) (e : Event) : Prop := OnePending (step s e) ∧ (Starts s e ∧ Stays s e) ∧ NoneFailed (step s e)

def Orderly (s : State) : Event → Prop
  | .ends c => ∀ (b : Callback) (a a' : Nat), s.callbacks[c]? = some b → b.phase = .waiting → b.pending = some a →
      (s.loginAnswer a).isSome → s.pendingLogins b.provider = some a' → a' = a
  | .fails a _ => ∀ x, s.attempts[a]? = some x → x.login = .running → x.code.isSubmitted = false → ¬s.isPending a
  | .timeout a => ∀ x, s.attempts[a]? = some x → x.start = .waiting → x.code.isSubmitted = false → ¬s.isPending a
  | _ => True

/-! ## Who is on the table -/

structure Placed (s : State) : Prop where
  entries : ∀ (providerId : String) (a : Nat), s.pendingLogins providerId = some a →
    ∃ x, s.attempts[a]? = some x ∧ x.provider = providerId
  found : ∀ b ∈ s.callbacks, ∀ a, b.pending = some a → ∃ x, s.attempts[a]? = some x ∧ x.provider = b.provider

theorem Placed.init : Placed .init := by
  exact ⟨nofun, nofun⟩

theorem Placed.onePending (h : Placed s) : OnePending s := by
  rintro a b x y ⟨p, hp⟩ ⟨q, hq⟩ hx hy hxy
  obtain ⟨x', hx', rfl⟩ := h.entries p a hp
  obtain ⟨y', hy', rfl⟩ := h.entries q b hq
  cases hx.symm.trans hx'
  cases hy.symm.trans hy'
  rw [hxy, hq] at hp
  exact (Option.some_inj.mp hp).symm

/-- Where what changes of the attempts leaves their providers, and what changes of the table only leaves
entries out. -/
theorem Placed.mono {s' : State} (h : Placed s)
    (hattempts : ∀ (a : Nat) (x : Attempt), s.attempts[a]? = some x → ∃ y, s'.attempts[a]? = some y ∧ y.provider = x.provider)
    (hentries : ∀ providerId a, s'.pendingLogins providerId = some a → s.pendingLogins providerId = some a)
    (hcallbacks : ∀ b ∈ s'.callbacks, ∀ a, b.pending = some a →
      s.pendingLogins b.provider = some a ∨ ∃ b' ∈ s.callbacks, b'.pending = some a ∧ b'.provider = b.provider) :
    Placed s' := by
  have hthere : ∀ (p : String) (a : Nat), (∃ x, s.attempts[a]? = some x ∧ x.provider = p) →
      ∃ y, s'.attempts[a]? = some y ∧ y.provider = p := by
    rintro p a ⟨x, hx, rfl⟩
    exact hattempts a x hx
  constructor
  · intro providerId a ha
    exact hthere _ a (h.entries providerId a (hentries providerId a ha))
  intro b hb a ha
  rcases hcallbacks b hb a ha with hp | ⟨b', hb', ha', hprovider⟩
  · exact hthere _ a (h.entries b.provider a hp)
  · rw [← hprovider]
    exact hthere _ a (h.found b' hb' a ha')

theorem getElem?_onAttempt {b : Nat} {y : Attempt} (h : (s.onAttempt a f).attempts[b]? = some y) :
    (b ≠ a ∧ s.attempts[b]? = some y) ∨ (b = a ∧ ∃ x, s.attempts[b]? = some x ∧ f x = y) := by
  change (s.attempts.modify a f)[b]? = some y at h
  rw [List.getElem?_modify] at h
  obtain ⟨x, hx, rfl⟩ := Option.map_eq_some_iff.mp h
  by_cases hab : a = b
  · subst hab
    exact .inr ⟨rfl, x, hx, by simp⟩
  · exact .inl ⟨Ne.symm hab, by simpa [hab] using hx⟩

theorem onAttempt_provider (hf : ∀ x, (f x).provider = x.provider)
    (b : Nat) (x : Attempt) (h : s.attempts[b]? = some x) :
    ∃ y, (s.onAttempt a f).attempts[b]? = some y ∧ y.provider = x.provider := by
  refine ⟨if a = b then f x else x, ?_, ?_⟩
  · change (s.attempts.modify a f)[b]? = _
    rw [List.getElem?_modify, h]
    rfl
  split
  · exact hf x
  · rfl

theorem Placed.onAttempt (h : Placed s) (a : Nat) (hf : ∀ x, (f x).provider = x.provider) : Placed (s.onAttempt a f) :=
  h.mono (onAttempt_provider hf) (fun _ _ => id) fun b hb _ ha => .inr ⟨b, hb, ha, rfl⟩

theorem Placed.setPhase (h : Placed s) (hb : s.callbacks[c]? = some b)
    (phase : CallbackPhase) : Placed (s.setPhase c b phase) := by
  refine h.mono (fun _ x hx => ⟨x, hx, rfl⟩) (fun _ _ => id) ?_
  intro b' hb' a ha
  rcases List.mem_or_eq_of_mem_set hb' with hb' | rfl
  · exact .inr ⟨b', hb', ha, rfl⟩
  · exact .inr ⟨b, List.mem_of_getElem? hb, ha, rfl⟩

theorem Placed.supersede (h : Placed s) (providerId : String) : Placed (s.supersede providerId) := by
  unfold State.supersede
  split
  · exact h.onAttempt _ fun _ => rfl
  · exact h

@[simp] theorem supersede_length (s : State) (providerId : String) :
    (s.supersede providerId).attempts.length = s.attempts.length := by
  unfold State.supersede State.onAttempt
  split <;> simp

@[simp] theorem supersede_pendingLogins (s : State) (providerId : String) :
    (s.supersede providerId).pendingLogins = s.pendingLogins := by
  unfold State.supersede State.onAttempt
  split <;> rfl

theorem Placed.start (h : Placed s) (providerId : String) : Placed (s.start providerId) := by
  have h' := h.supersede providerId
  have hkept : ∀ (p : String) (a : Nat), (∃ x, (s.supersede providerId).attempts[a]? = some x ∧ x.provider = p) →
      ∃ x, (s.start providerId).attempts[a]? = some x ∧ x.provider = p := by
    rintro p a ⟨x, hx, rfl⟩
    exact ⟨x, getElem?_append_some hx _, rfl⟩
  constructor
  · intro p a ha
    by_cases hp : p = providerId
    · subst hp
      change Function.update s.pendingLogins p _ p = some a at ha
      rw [update_self] at ha
      cases ha
      refine ⟨⟨p, .unsettled, .running, "", "", .waiting, false⟩, ?_, rfl⟩
      change (_ ++ [_])[s.attempts.length]? = _
      rw [← supersede_length s p, List.getElem?_concat_length]
    · change Function.update s.pendingLogins providerId _ p = some a at ha
      rw [update_of_ne hp] at ha
      exact hkept p a (h'.entries p a (by rw [supersede_pendingLogins]; exact ha))
  · intro b hb a ha
    refine hkept _ a (h'.found b ?_ a ha)
    exact hb

theorem Placed.callback (h : Placed s) (providerId : String) : Placed (s.callback providerId) := by
  unfold State.callback
  split
  next a ha =>
    refine h.mono (fun _ x hx => ⟨x, hx, rfl⟩) (fun _ _ => id) ?_
    intro b hb a' ha'
    rcases mem_concat_cases hb with hb | rfl
    · exact .inr ⟨b, hb, ha', rfl⟩
    · cases ha'
      exact .inl ha
  · refine h.mono (fun _ x hx => ⟨x, hx, rfl⟩) (fun _ _ => id) ?_
    intro b hb a' ha'
    rcases mem_concat_cases hb with hb | rfl
    · exact .inr ⟨b, hb, ha', rfl⟩
    · cases ha'

theorem Placed.body (h : Placed s) (hb : s.callbacks[c]? = some b) (body : Body) : Placed (s.body c b body) := by
  unfold State.body
  split
  · split
    · exact h.setPhase hb _
    · exact h.setPhase hb _
    · exact h.setPhase hb _
    · refine Placed.setPhase (h.onAttempt _ ?_) ?_ _
      · intro x
        rfl
      · exact hb
  · exact h

theorem update_none {table : String → Option Nat} {p q : String}
    (h : Function.update table q none p = some a) : p ≠ q ∧ table p = some a := by
  by_cases hpq : p = q
  · subst hpq
    simp at h
  · rw [update_of_ne hpq] at h
    exact ⟨hpq, h⟩

theorem Placed.ends (h : Placed s) (hb : s.callbacks[c]? = some b) : Placed (s.ends c b) := by
  unfold State.ends
  split
  · split
    next answer _ =>
      refine (h.setPhase hb (.answered answer)).mono (fun _ x hx => ⟨x, hx, rfl⟩) (fun p a hp => (update_none hp).2) ?_
      intro b' hb' a ha
      exact .inr ⟨b', hb', ha, rfl⟩
    · exact h
  · exact h

theorem Placed.clear (h : Placed s) : Placed s.clearPendingLogins := by
  refine h.mono ?_ nofun fun b hb a ha => .inr ⟨b, hb, ha, rfl⟩
  intro a x hx
  refine ⟨if s.pendingLogins x.provider = some a then x.reject "Login cancelled" else x, ?_, ?_⟩
  · simp [State.clearPendingLogins, hx]
  · split <;> rfl

theorem notify_provider (event : AuthEvent) (x : Attempt) : (x.notify event).provider = x.provider := by
  cases event <;> rfl

theorem Attempt.answer_provider (x : Attempt) : x.answer.provider = x.provider := by
  unfold Attempt.answer
  split <;> rfl

theorem timeout_provider (x : Attempt) : x.timeout.provider = x.provider := by
  unfold Attempt.timeout
  split <;> rfl

theorem signIn_provider (x : Attempt) : x.signIn.provider = x.provider := by
  unfold Attempt.signIn
  split <;> rfl

theorem fails_provider (message : String) (x : Attempt) : (x.fails message).provider = x.provider := by
  unfold Attempt.fails
  split <;> rfl

theorem Placed.atCallback (h : Placed s) (c : Nat) {f : Callback → State}
    (hf : ∀ b, s.callbacks[c]? = some b → Placed (f b)) : Placed (s.atCallback c f) := by
  unfold State.atCallback
  split
  next b hb =>
    exact hf b hb
  · exact h

theorem Placed.step (h : Placed s) (e : Event) : Placed (step s e) := by
  cases e with
  | start providerId => exact h.start providerId
  | notify a event => exact h.onAttempt a (notify_provider event)
  | answer a => exact h.onAttempt a Attempt.answer_provider
  | timeout a => exact h.onAttempt a timeout_provider
  | signedIn a => exact h.onAttempt a signIn_provider
  | fails a message => exact h.onAttempt a (fails_provider message)
  | callback providerId => exact h.callback providerId
  | body c body => exact h.atCallback c fun b hb => h.body hb body
  | ends c => exact h.atCallback c fun b hb => h.ends hb
  | clearPendingLogins => exact h.clear

/-! ## What a step takes off the table, and what it leaves on it -/

/-- A step that is no callback's end leaves what is pending, or may take it. -/
theorem stays_of_not_ends (s : State) (e : Event) (he : ∀ c, e ≠ .ends c) (hplaced : Placed s) : Stays s e := by
  rintro a ⟨p, hp⟩
  cases e with
  | start providerId =>
    by_cases hpq : p = providerId
    · subst hpq
      exact .inr (hplaced.entries p a hp)
    refine .inl ⟨p, ?_⟩
    change Function.update s.pendingLogins providerId _ p = some a
    rw [update_of_ne hpq]
    exact hp
  | callback providerId =>
    refine .inl ⟨p, ?_⟩
    simp only [step, State.callback]
    split <;> exact hp
  | body c body =>
    refine .inl ⟨p, ?_⟩
    simp only [step, State.atCallback]
    split
    · unfold State.body
      split
      · split <;> exact hp
      · exact hp
    · exact hp
  | ends c => exact absurd rfl (he c)
  | clearPendingLogins => exact .inr trivial
  | notify a' event => exact .inl ⟨p, hp⟩
  | answer a' => exact .inl ⟨p, hp⟩
  | timeout a' => exact .inl ⟨p, hp⟩
  | signedIn a' => exact .inl ⟨p, hp⟩
  | fails a' message => exact .inl ⟨p, hp⟩

/-- A callback's end takes what is pending of its provider off the table. -/
theorem stays_ends_iff (h : Placed s) (c : Nat) : Stays s (.ends c) ↔ Orderly s (.ends c) := by
  constructor
  · intro hstays b a a' hb hphase ha hsettled ha'
    rcases hstays a' ⟨b.provider, ha'⟩ with ⟨p, hp⟩ | ⟨b', hb', hpending⟩
    · -- it is pending still, but of another provider
      exfalso
      obtain ⟨answer, hanswer⟩ := Option.isSome_iff_exists.mp hsettled
      simp only [step, State.atCallback, hb, State.ends, hphase, ha, hanswer] at hp
      obtain ⟨hpb, hp⟩ := update_none hp
      obtain ⟨x, hx, rfl⟩ := h.entries p a' hp
      obtain ⟨y, hy, hprovider⟩ := h.entries b.provider a' ha'
      cases hx.symm.trans hy
      exact hpb hprovider
    · cases hb.symm.trans hb'
      exact Option.some_inj.mp (hpending.symm.trans ha)
  · rintro horderly a ⟨p, hp⟩
    simp only [step, State.atCallback]
    split
    next b hb =>
      unfold State.ends
      split
      next a₀ hphase ha₀ =>
        split
        next answer hanswer =>
          by_cases hpb : p = b.provider
          · subst hpb
            obtain rfl := horderly b a₀ a hb hphase ha₀ (hanswer ▸ rfl) hp
            exact .inr ⟨b, hb, ha₀⟩
          refine .inl ⟨p, ?_⟩
          change Function.update s.pendingLogins b.provider none p = some a
          rw [update_of_ne hpb]
          exact hp
        · exact .inl ⟨p, hp⟩
      · exact .inl ⟨p, hp⟩
    · exact .inl ⟨p, hp⟩

theorem NoneFailed.mono {s' : State} (h : NoneFailed s)
    (hkept : ∀ (a : Nat) (y : Attempt), s'.isPending a → s'.attempts[a]? = some y → y.early = true →
      s.isPending a ∧ ∃ x, s.attempts[a]? = some x ∧ x.early = true) : NoneFailed s' := by
  intro a y ha hy
  cases hearly : y.early with
  | false => rfl
  | true =>
    obtain ⟨hpending, x, hx, hxe⟩ := hkept a y ha hy hearly
    exact absurd (h a x hpending hx) (by simp [hxe])

theorem NoneFailed.onAttempt (h : NoneFailed s) (a : Nat)
    (hf : ∀ x, (f x).early = x.early) : NoneFailed (s.onAttempt a f) := by
  refine h.mono fun b y hb hy hearly => ⟨hb, ?_⟩
  rcases getElem?_onAttempt hy with ⟨-, hy⟩ | ⟨-, x, hx, rfl⟩
  · exact ⟨y, hy, hearly⟩
  · exact ⟨x, hx, (hf x).symm.trans hearly⟩

theorem NoneFailed.setPhase (h : NoneFailed s) (c : Nat) (b : Callback) (phase : CallbackPhase) :
    NoneFailed (s.setPhase c b phase) := h

theorem NoneFailed.supersede (h : NoneFailed s) (providerId : String) : NoneFailed (s.supersede providerId) := by
  unfold State.supersede
  split
  · exact h.onAttempt _ fun _ => rfl
  · exact h

theorem NoneFailed.start (h : NoneFailed s) (providerId : String) : NoneFailed (s.start providerId) := by
  refine (h.supersede providerId).mono fun a y ha hy hearly => ?_
  rcases getElem?_concat_cases hy with hy | ⟨-, rfl⟩
  · refine ⟨?_, y, hy, hearly⟩
    obtain ⟨p, hp⟩ := ha
    change Function.update s.pendingLogins providerId _ p = some a at hp
    by_cases hpq : p = providerId
    · -- the new one's place is none that there was
      subst hpq
      rw [update_self] at hp
      have hlt := lt_of_getElem? hy
      rw [supersede_length, ← Option.some_inj.mp hp] at hlt
      exact absurd hlt (Nat.lt_irrefl _)
    · rw [update_of_ne hpq] at hp
      exact ⟨p, (congrFun (supersede_pendingLogins s providerId) p).trans hp⟩
  · cases hearly

theorem NoneFailed.step_iff (h : NoneFailed s) (a : Nat) (due : Attempt → Prop)
    (hdue : ∀ x, due x → (f x).early = x.failsEarly) (hnot : ∀ x, ¬due x → f x = x) :
    NoneFailed (s.onAttempt a f) ↔
      ∀ x, s.attempts[a]? = some x → due x → x.code.isSubmitted = false → ¬s.isPending a := by
  constructor
  · intro h' x hx hdx hcode ha
    have hy : (s.onAttempt a f).attempts[a]? = some (f x) := by
      change (s.attempts.modify a f)[a]? = _
      simp [hx]
    have hearly := h' a (f x) ha hy
    rw [hdue x hdx, Attempt.failsEarly, hcode] at hearly
    simp at hearly
  · intro hok
    refine h.mono fun b y hb hy hearly => ⟨hb, ?_⟩
    rcases getElem?_onAttempt hy with ⟨-, hy⟩ | ⟨rfl, x, hx, rfl⟩
    · exact ⟨y, hy, hearly⟩
    by_cases hdx : due x
    · rw [hdue x hdx, Attempt.failsEarly] at hearly
      cases hcode : x.code.isSubmitted with
      | false => exact absurd hb (hok x hx hdx hcode)
      | true => exact ⟨x, hx, by simpa [hcode] using hearly⟩
    · rw [hnot x hdx] at hearly
      exact ⟨x, hx, hearly⟩

theorem NoneFailed.body (h : NoneFailed s) (c : Nat) (b : Callback) (body : Body) : NoneFailed (s.body c b body) := by
  unfold State.body
  split
  · split
    · exact h
    · exact h
    · exact h
    · refine NoneFailed.setPhase (h.onAttempt _ ?_) c b _
      intro x
      rfl
  · exact h

theorem NoneFailed.ends (h : NoneFailed s) (c : Nat) (b : Callback) : NoneFailed (s.ends c b) := by
  unfold State.ends
  split
  · split
    · refine h.mono ?_
      rintro a y ⟨p, hp⟩ hy hearly
      exact ⟨⟨p, (update_none hp).2⟩, y, hy, hearly⟩
    · exact h
  · exact h

theorem NoneFailed.atCallback (h : NoneFailed s) (c : Nat) {f : Callback → State}
    (hf : ∀ b, NoneFailed (f b)) : NoneFailed (s.atCallback c f) := by
  unfold State.atCallback
  split
  · exact hf _
  · exact h

theorem noneFailed_iff (h : NoneFailed s) (e : Event) : NoneFailed (step s e) ↔ match e with
      | .fails a _ => ∀ x, s.attempts[a]? = some x → x.login = .running → x.code.isSubmitted = false → ¬s.isPending a
      | .timeout a => ∀ x, s.attempts[a]? = some x → x.start = .waiting → x.code.isSubmitted = false → ¬s.isPending a
      | _ => True := by
  cases e with
  | start providerId => exact iff_of_true (h.start providerId) trivial
  | notify a event => exact iff_of_true (h.onAttempt a fun x => by cases event <;> rfl) trivial
  | answer a =>
    refine iff_of_true (h.onAttempt a fun x => ?_) trivial
    unfold Attempt.answer
    split <;> rfl
  | signedIn a =>
    refine iff_of_true (h.onAttempt a fun x => ?_) trivial
    unfold Attempt.signIn
    split <;> rfl
  | timeout a =>
    refine h.step_iff a (fun x => x.start = .waiting) ?_ ?_
    · intro x hx
      rw [Attempt.timeout, if_pos hx]
    · intro x hx
      rw [Attempt.timeout, if_neg hx]
  | fails a message =>
    refine h.step_iff a (fun x => x.login = .running) ?_ ?_
    · intro x hx
      rw [Attempt.fails, if_pos hx]
    · intro x hx
      rw [Attempt.fails, if_neg hx]
  | callback providerId =>
    refine iff_of_true ?_ trivial
    simp only [step, State.callback]
    split <;> exact h
  | body c body => exact iff_of_true (h.atCallback c fun b => h.body c b body) trivial
  | ends c => exact iff_of_true (h.atCallback c fun b => h.ends c b) trivial
  | clearPendingLogins =>
    refine iff_of_true ?_ trivial
    rintro a x ⟨p, hp⟩
    cases hp

theorem sound_iff (hplaced : Placed s) (hfailed : NoneFailed s) (e : Event) : Sound s e ↔ Orderly s e := by
  have hone : OnePending (step s e) := (hplaced.step e).onePending
  have hstarts : Starts s e := by
    rintro providerId rfl
    exact update_self ..
  have hstays : (∀ c, e ≠ .ends c) → Starts s e ∧ Stays s e := fun he => ⟨hstarts, stays_of_not_ends s e he hplaced⟩
  have hnone := noneFailed_iff hfailed e
  cases e with
  | ends c =>
    constructor
    · intro h
      exact (stays_ends_iff hplaced c).mp h.2.1.2
    · intro h
      exact ⟨hone, ⟨hstarts, (stays_ends_iff hplaced c).mpr h⟩, hnone.mpr trivial⟩
  | fails a message =>
    constructor
    · intro h
      exact hnone.mp h.2.2
    · intro h
      exact ⟨hone, hstays nofun, hnone.mpr h⟩
  | timeout a =>
    constructor
    · intro h
      exact hnone.mp h.2.2
    · intro h
      exact ⟨hone, hstays nofun, hnone.mpr h⟩
  | start providerId => exact iff_of_true ⟨hone, hstays nofun, hnone.mpr trivial⟩ trivial
  | notify a event => exact iff_of_true ⟨hone, hstays nofun, hnone.mpr trivial⟩ trivial
  | answer a => exact iff_of_true ⟨hone, hstays nofun, hnone.mpr trivial⟩ trivial
  | signedIn a => exact iff_of_true ⟨hone, hstays nofun, hnone.mpr trivial⟩ trivial
  | callback providerId => exact iff_of_true ⟨hone, hstays nofun, hnone.mpr trivial⟩ trivial
  | body c body => exact iff_of_true ⟨hone, hstays nofun, hnone.mpr trivial⟩ trivial
  | clearPendingLogins => exact iff_of_true ⟨hone, hstays nofun, hnone.mpr trivial⟩ trivial

/-! ## Over a run -/

/-- **Pending logins.** At most one of a provider's is pending, each until it is itself answered, superseded
or cancelled, and none that failed before its code, exactly in the runs where no callback ends while a
login other than its own is pending and no pending login fails before a code was submitted to it. -/
theorem pending_logins (es : List Event) : Along step Sound .init es ↔ Along step Orderly .init es := by
  refine along_iff_along_under (fun s => Placed s ∧ NoneFailed s) ?_ ?_ ⟨.init, ?_⟩ es
  · intro s e h
    exact sound_iff h.1 h.2 e
  · intro s e h hok
    exact ⟨h.1.step e, ((sound_iff h.1 h.2 e).mpr hok).2.2⟩
  · rintro a x ⟨p, hp⟩
    cases hp

/-- A code is being exchanged when the login is started anew: the end of that exchange takes the new login
off the table. -/
theorem earlier_removes_newer :
    let es : List Event := [.start "anthropic", .callback "anthropic", .body 0 (.code (some "one")), .start "anthropic",
      .signedIn 0, .ends 0]
    ¬Along step Sound .init es ∧ (exec step .init es).pendingLogins "anthropic" = none := by
  refine ⟨?_, rfl⟩
  intro h
  obtain ⟨-, -, -, -, -, ⟨-, ⟨-, hstays⟩, -⟩, -⟩ := h
  rcases hstays 1 ⟨"anthropic", rfl⟩ with ⟨p, hp⟩ | ⟨b, hb, hpending⟩
  · obtain ⟨hne, hp⟩ := update_none (q := "anthropic") hp
    change (Function.update (Function.update (fun _ => none) "anthropic" (some 0)) "anthropic" (some 1) :
      String → Option Nat) p = some 1 at hp
    rw [update_of_ne hne, update_of_ne hne] at hp
    cases hp
  · cases hb
    cases hpending

end Reins.PendingLogins
