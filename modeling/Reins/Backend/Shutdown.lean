import Reins.Backend.LiveSessions

/-!
# Shutdown (`backend/src/process-state.ts`, `session-runtime/live.ts`)

`suspendSessions` waits for the runs to pause and the openings to finish, as long as it may. Then it
takes every runtime out of the table in one step, asks each to suspend, and waits for them as long as it
may. Sessions go on around it all the while: runtimes are opened, and closed for reasons of their own.
-/

namespace Reins.Shutdown

open LiveSessions Places Run List Option

def SHUTDOWN_SUSPEND_MS : Nat := 5000

def liveRuntime (s : Session) : Option RuntimeId := s.live.map OpenSession.runtime

def registers (s : Session) : LiveSessions.Event → Option RuntimeId
  | .built o _ _ =>
    match s.openings[o]? with
    | some (.building _ r) => some r
    | _ => none
  | _ => none

def closes (idleMs : Nat) (s : Session) (e : LiveSessions.Event) : Option RuntimeId :=
  if s.takes idleMs e then liveRuntime s else none

structure Watched where
  session : Session
  /-- Those in the table when the shutdown began, or since, up to where it took the entries. -/
  registered : List RuntimeId
  closed : List RuntimeId
  asked : List RuntimeId
  late : List RuntimeId

def Watched.init : Watched := { session := .init, registered := [], closed := [], asked := [], late := [] }

inductive Phase
  | serving
  | waiting (deadline : Nat)
  /-- The sessions whose runtime has not settled its `suspend`, and until when they are waited for. -/
  | suspending (pending : List SessionId) (bound : Nat)
  | resolved
  deriving DecidableEq

def Phase.taken : Phase → Bool
  | .serving | .waiting _ => false
  | .suspending .. | .resolved => true

structure Process where
  phase : Phase
  ids : List SessionId
  sessions : SessionId → Watched

def Process.init : Process := { phase := .serving, ids := [], sessions := fun _ => .init }

/-! ## `suspendSessions` -/

def Watched.begin (w : Watched) : Watched :=
  { w with registered := (liveRuntime w.session).toList, closed := [], asked := [], late := [] }

/-- `isPaused` is what each runtime answers. -/
def Process.unpaused (p : Process) (isPaused : SessionId → Bool) : Nat :=
  (p.ids.filter fun id => (p.sessions id).session.live.isSome && !isPaused id).length +
    (p.ids.filter fun id => (p.sessions id).session.opening.isSome).length

def Watched.suspend (w : Watched) : Watched :=
  { w with session := { w.session with live := none }, asked := w.asked ++ (liveRuntime w.session).toList }

def Process.suspend (p : Process) (now : Nat) : Process :=
  { p with
    phase := .suspending (p.ids.filter fun id => (p.sessions id).session.live.isSome) (now + SHUTDOWN_SUSPEND_MS)
    sessions := fun id => (p.sessions id).suspend }

def Process.poll (p : Process) (now : Nat) (isPaused : SessionId → Bool) : Process :=
  match p.phase with
  | .waiting deadline => if 0 < p.unpaused isPaused ∧ now < deadline then p else p.suspend now
  | _ => p

/-- A second signal does nothing (`stopping`). -/
def Process.suspendSessions (p : Process) (pauseMs started now : Nat) (isPaused : SessionId → Bool) : Process :=
  match p.phase with
  | .serving =>
    ({ p with phase := .waiting (started + pauseMs), sessions := fun id => (p.sessions id).begin } : Process).poll
      now isPaused
  | _ => p

def Watched.step (idleMs : Nat) (phase : Phase) (w : Watched) (e : LiveSessions.Event) : Watched :=
  let w' := { w with session := w.session.step idleMs e }
  match phase with
  | .serving => w'
  | .waiting _ =>
    { w' with
      registered := w.registered ++ (registers w.session e).toList
      closed := w.closed ++ (closes idleMs w.session e).toList }
  | .suspending .. | .resolved => { w' with late := w.late ++ (registers w.session e).toList }

inductive Event
  | session (id : SessionId) (e : LiveSessions.Event)
  | suspendSessions (started now : Nat) (isPaused : SessionId → Bool)
  | poll (now : Nat) (isPaused : SessionId → Bool)
  /-- A runtime's `suspend` has settled. -/
  | suspended (id : SessionId)
  | race (now : Nat)

def step (idleMs pauseMs : Nat) (p : Process) : Event → Process
  | .session id e =>
    { p with
      ids := if id ∈ p.ids then p.ids else p.ids ++ [id]
      sessions := Function.update p.sessions id ((p.sessions id).step idleMs p.phase e) }
  | .suspendSessions started now isPaused => p.suspendSessions pauseMs started now isPaused
  | .poll now isPaused => p.poll now isPaused
  | .suspended id =>
    match p.phase with
    | .suspending pending bound => { p with phase := .suspending (pending.erase id) bound }
    | _ => p
  | .race now =>
    match p.phase with
    | .suspending pending bound => if pending = [] ∨ bound ≤ now then { p with phase := .resolved } else p
    | _ => p

/-! ## What a session's event comes to -/

section

variable {s s' : Session} {idleMs : Nat}

@[simp] theorem liveRuntime_touch (now : Nat) : liveRuntime (s.touch now) = liveRuntime s := by
  unfold liveRuntime Session.touch
  rw [Option.map_map]
  rfl

@[simp] theorem liveRuntime_takeOut (s : Session) : liveRuntime s.takeOut = none := by
  unfold liveRuntime
  rw [takeOut_live]
  rfl

theorem takes_open (idleMs : Nat) (s : Session) (binding : String) (now : Nat) : s.takes idleMs (.open binding now) =
      ((s.current binding).isNone && s.opening.isNone && s.live.any s.replaces) := rfl

theorem liveRuntime_startOpening (s : Session) (binding : String) (now : Nat) :
    liveRuntime (s.startOpening binding now) = if s.live.any s.replaces then none else liveRuntime s := by
  unfold Session.startOpening
  cases hlive : s.live with
  | none => simp [liveRuntime, Session.addOpening, Session.addRuntime, hlive]
  | some e =>
    rw [any_some]
    by_cases hreplaces : s.replaces e = true
    · simp only [hreplaces, if_true]
      exact liveRuntime_takeOut s
    simp only [hreplaces, Bool.false_eq_true, if_false]
    split
    · rfl
    · exact liveRuntime_touch now

theorem liveRuntime_open (s : Session) (binding : String) (now : Nat) : liveRuntime (s.openSessionRuntime binding now) =
      if s.takes idleMs (.open binding now) then none else liveRuntime s := by
  rw [takes_open]
  unfold Session.openSessionRuntime
  cases hcurrent : s.current binding with
  | some e => exact liveRuntime_touch now
  | none =>
    cases hopening : s.opening with
    | some o => rfl
    | none => exact liveRuntime_startOpening s binding now

theorem liveRuntime_step (idleMs : Nat) (s : Session) (e : LiveSessions.Event) : liveRuntime (s.step idleMs e) =
      (registers s e).or (if s.takes idleMs e then none else liveRuntime s) := by
  cases e with
  | «open» binding now => exact liveRuntime_open s binding now
  | closed r =>
    show liveRuntime (if _ then _ else _) = liveRuntime s
    split <;> rfl
  | build o =>
    show liveRuntime (s.build o) = liveRuntime s
    unfold Session.build
    split
    · split <;> rfl
    · rfl
  | built o retired now =>
    show liveRuntime (s.built o retired now) = (registers s (.built o retired now)).or (liveRuntime s)
    unfold Session.built
    cases hget : s.openings[o]? with
    | none => simp [registers, hget]
    | some t => cases t <;> simp [registers, hget, liveRuntime]
  | buildFailed o =>
    show liveRuntime (s.buildFailed o) = liveRuntime s
    unfold Session.buildFailed
    split <;> rfl
  | openingDone o =>
    show liveRuntime (s.openingDone o) = liveRuntime s
    unfold Session.openingDone
    split <;> rfl
  | deliver c =>
    show liveRuntime (s.deliver c) = liveRuntime s
    unfold Session.deliver
    split
    · rfl
    split
    · rfl
    split
    · split <;> rfl
    · rfl
  | close => rfl
  | closeOn i =>
    show liveRuntime (s.closeOn i) = if s.closerReady i then none else liveRuntime s
    unfold Session.closeOn
    split
    · exact liveRuntime_takeOut _
    · rfl
  | sweep now =>
    show liveRuntime (s.sweep idleMs now) = if s.sweeps idleMs now then none else liveRuntime s
    unfold Session.sweep
    split
    · exact liveRuntime_takeOut s
    · rfl
  | retire =>
    show liveRuntime s.retire = if s.retires then none else liveRuntime s
    unfold Session.retire
    split
    · exact liveRuntime_takeOut s
    show (s.live.map _).map _ = _
    rw [Option.map_map]
    rfl
  | streaming r on => rfl
  | activity r now =>
    show liveRuntime (if _ then _ else _) = liveRuntime s
    split
    · exact liveRuntime_touch now
    · rfl
  | fault r =>
    show (s.live.map _).map _ = s.live.map _
    rw [Option.map_map]
    congr 1
    funext e
    show (if _ then _ else _ : OpenSession).runtime = _
    split <;> rfl

/-! ### The session's openings -/

/-- What a step says of the openings, if anything. -/
def changesOpenings : LiveSessions.Event → Bool
  | .open .. | .build _ | .built .. | .buildFailed _ | .openingDone _ => true
  | _ => false

theorem openings_step {e : LiveSessions.Event} (he : changesOpenings e = false) :
    (s.step idleMs e).openings = s.openings ∧ (s.step idleMs e).opening = s.opening := by
  cases e with
  | «open» binding now => cases he
  | build o => cases he
  | built o retired now => cases he
  | buildFailed o => cases he
  | openingDone o => cases he
  | closed r =>
    show (if _ then _ else _ : Session).openings = _ ∧ (if _ then _ else _ : Session).opening = _
    split <;> exact ⟨rfl, rfl⟩
  | deliver c =>
    show (s.deliver c).openings = _ ∧ (s.deliver c).opening = _
    unfold Session.deliver
    split
    · exact ⟨rfl, rfl⟩
    split
    · exact ⟨rfl, rfl⟩
    split
    · split <;> exact ⟨rfl, rfl⟩
    · exact ⟨rfl, rfl⟩
  | close => exact ⟨rfl, rfl⟩
  | closeOn i =>
    show (s.closeOn i).openings = _ ∧ (s.closeOn i).opening = _
    unfold Session.closeOn
    split
    · exact ⟨takeOut_openings _, takeOut_opening _⟩
    · exact ⟨rfl, rfl⟩
  | sweep now =>
    show (s.sweep idleMs now).openings = _ ∧ (s.sweep idleMs now).opening = _
    unfold Session.sweep
    split
    · exact ⟨takeOut_openings s, takeOut_opening s⟩
    · exact ⟨rfl, rfl⟩
  | retire =>
    show s.retire.openings = _ ∧ s.retire.opening = _
    unfold Session.retire
    split
    · exact ⟨takeOut_openings s, takeOut_opening s⟩
    · exact ⟨rfl, rfl⟩
  | streaming r on => exact ⟨rfl, rfl⟩
  | activity r now =>
    show (if _ then _ else _ : Session).openings = _ ∧ (if _ then _ else _ : Session).opening = _
    split <;> exact ⟨rfl, rfl⟩
  | fault r => exact ⟨rfl, rfl⟩

theorem takeOut_runtimes_length (s : Session) : s.takeOut.runtimes.length = s.runtimes.length := by
  unfold Session.takeOut
  split
  · rfl
  · exact length_set

theorem runtimes_length_step (idleMs : Nat) (s : Session) (e : LiveSessions.Event) :
    s.runtimes.length ≤ (s.step idleMs e).runtimes.length := by
  have hadd : s.runtimes.length ≤ s.addRuntime.runtimes.length := by
    show _ ≤ (s.runtimes ++ [_]).length
    rw [length_append]
    exact Nat.le_add_right _ _
  have htake : s.runtimes.length ≤ s.takeOut.runtimes.length := Nat.le_of_eq (takeOut_runtimes_length s).symm
  cases e with
  | «open» binding now =>
    show _ ≤ (s.openSessionRuntime binding now).runtimes.length
    unfold Session.openSessionRuntime
    split
    · exact Nat.le_refl _
    split
    · exact Nat.le_refl _
    show _ ≤ (s.startOpening binding now).runtimes.length
    unfold Session.startOpening
    split
    · split
      · exact htake
      · split <;> exact Nat.le_refl _
    · exact hadd
  | closed r =>
    show _ ≤ (if _ then _ else _ : Session).runtimes.length
    split
    · exact Nat.le_of_eq length_set.symm
    · exact Nat.le_refl _
  | build o =>
    show _ ≤ (s.build o).runtimes.length
    unfold Session.build
    split
    · split
      · exact hadd
      · exact Nat.le_refl _
    · exact Nat.le_refl _
  | built o retired now =>
    show _ ≤ (s.built o retired now).runtimes.length
    unfold Session.built
    split
    · exact Nat.le_of_eq length_set.symm
    · exact Nat.le_refl _
  | buildFailed o =>
    show _ ≤ (s.buildFailed o).runtimes.length
    unfold Session.buildFailed
    split
    · exact Nat.le_of_eq length_set.symm
    · exact Nat.le_refl _
  | openingDone o =>
    show _ ≤ (s.openingDone o).runtimes.length
    unfold Session.openingDone
    split <;> exact Nat.le_refl _
  | deliver c =>
    show _ ≤ (s.deliver c).runtimes.length
    unfold Session.deliver
    split
    · exact Nat.le_refl _
    split
    · exact Nat.le_refl _
    split
    · split <;> exact Nat.le_refl _
    · exact Nat.le_refl _
  | close => exact Nat.le_refl _
  | closeOn i =>
    show _ ≤ (s.closeOn i).runtimes.length
    unfold Session.closeOn
    split
    · exact Nat.le_of_eq (takeOut_runtimes_length { s with closers := s.closers.eraseIdx i }).symm
    · exact Nat.le_refl _
  | sweep now =>
    show _ ≤ (s.sweep idleMs now).runtimes.length
    unfold Session.sweep
    split
    · exact htake
    · exact Nat.le_refl _
  | retire =>
    show _ ≤ s.retire.runtimes.length
    unfold Session.retire
    split
    · exact htake
    · exact Nat.le_refl _
  | streaming r on => exact Nat.le_refl _
  | activity r now =>
    show _ ≤ (if _ then _ else _ : Session).runtimes.length
    split <;> exact Nat.le_refl _
  | fault r => exact Nat.le_refl _

structure Sound (s : Session) : Prop where
  progress : ∀ (o : OpeningId) (t : Opening), s.openings[o]? = some t → t.settled = false →
    s.opening = some o ∧ liveRuntime s = none
  building : ∀ (o : OpeningId) (binding : String) (r : RuntimeId), s.openings[o]? = some (.building binding r) →
    r < s.runtimes.length
  live : ∀ r ∈ liveRuntime s, r < s.runtimes.length

theorem Sound.init : Sound .init := by
  exact ⟨nofun, nofun, nofun⟩

theorem Sound.unique (h : Sound s) {o o' : OpeningId} {t t' : Opening} (ht : s.openings[o]? = some t)
    (hgoing : t.settled = false) (ht' : s.openings[o']? = some t') (hgoing' : t'.settled = false) : o = o' :=
  some_inj.mp ((h.progress o t ht hgoing).1.symm.trans (h.progress o' t' ht' hgoing').1)

theorem Sound.all_settled (h : Sound s) (hnone : s.opening = none) {o : OpeningId} {t : Opening}
    (ht : s.openings[o]? = some t) : t.settled = true := by
  by_contra hgoing
  have hin := (h.progress o t ht (Bool.eq_false_iff.mpr hgoing)).1
  cases hnone.symm.trans hin

/-- What is in progress after a step was so before, or began or went on with it. -/
inductive Goes (s s' : Session) (o : OpeningId) : Opening → Prop
  | same {t : Opening} (ht : s.openings[o]? = some t) : Goes s s' o t
  | closing (binding : String) (existing : RuntimeId) : Goes s s' o (.closing binding existing)
  | building (binding : String) (hnew : s.runtimes.length < s'.runtimes.length) :
    Goes s s' o (.building binding s.runtimes.length)

theorem lt_addRuntime (s : Session) : s.runtimes.length < s.addRuntime.runtimes.length := by
  show _ < (s.runtimes ++ [_]).length
  rw [length_append]
  exact Nat.lt_succ_self _

theorem Sound.startOpening (h : Sound s) {binding : String} {now : Nat} (hnone : s.opening = none) {o : OpeningId}
    {t : Opening} (ht : (s.startOpening binding now).openings[o]? = some t) (hgoing : t.settled = false) :
    (s.startOpening binding now).opening = some o ∧ liveRuntime (s.startOpening binding now) = none ∧
      Goes s (s.startOpening binding now) o t := by
  have hlive := liveRuntime_startOpening s binding now
  revert ht hlive
  unfold Session.startOpening
  split
  next e he =>
    rw [he, any_some]
    split
    · intro ht hlive
      have ht : (s.takeOut.openings ++ [_])[o]? = some t := ht
      rcases getElem?_concat_cases ht with hold | ⟨rfl, rfl⟩
      · rw [takeOut_openings] at hold
        rw [h.all_settled hnone hold] at hgoing
        cases hgoing
      · exact ⟨rfl, hlive, .closing _ _⟩
    · -- it settles where it begins
      split
      · intro ht
        rcases getElem?_concat_cases ht with hold | ⟨-, rfl⟩
        · rw [h.all_settled hnone hold] at hgoing
          cases hgoing
        · cases hgoing
      · intro ht
        rcases getElem?_concat_cases ht with hold | ⟨-, rfl⟩
        · rw [h.all_settled hnone hold] at hgoing
          cases hgoing
        · cases hgoing
  next he =>
    intro ht hlive
    rw [he, any_none, if_neg Bool.false_ne_true] at hlive
    rcases getElem?_concat_cases ht with hold | ⟨rfl, rfl⟩
    · rw [h.all_settled hnone hold] at hgoing
      cases hgoing
    refine ⟨rfl, ?_, .building binding (lt_addRuntime s)⟩
    rw [hlive, liveRuntime, he]
    rfl

theorem built_cases (s : Session) (o : OpeningId) (retired : Bool) (now : Nat) :
    (∃ binding r, s.openings[o]? = some (.building binding r) ∧ registers s (.built o retired now) = some r) ∨
      registers s (.built o retired now) = none ∧ s.built o retired now = s := by
  unfold Session.built
  cases hget : s.openings[o]? with
  | none => exact .inr ⟨by simp [registers, hget], rfl⟩
  | some t =>
    cases t with
    | building binding r => exact .inl ⟨binding, r, rfl, by simp [registers, hget]⟩
    | closing binding existing => exact .inr ⟨by simp [registers, hget], rfl⟩
    | resolved r => exact .inr ⟨by simp [registers, hget], rfl⟩
    | rejected => exact .inr ⟨by simp [registers, hget], rfl⟩

theorem openings_built {o : OpeningId} {binding : String} {r : RuntimeId}
    (hget : s.openings[o]? = some (.building binding r)) (retired : Bool) (now : Nat) :
    (s.built o retired now).openings = s.openings.set o (.resolved r) := by
  unfold Session.built
  rw [hget]

theorem Sound.settles (h : Sound s) {o o' : OpeningId} {t t' t'' : Opening} (hget : s.openings[o']? = some t')
    (hgoing' : t'.settled = false) (hset : (s.openings.set o' t'')[o]? = some t) (hsettled : t''.settled = true) :
    t.settled = true := by
  rcases getElem?_set_cases hset with ⟨-, rfl⟩ | ⟨hne, hold⟩
  · exact hsettled
  · by_contra hgoing
    exact hne (h.unique hget hgoing' hold (Bool.eq_false_iff.mpr hgoing))

theorem Sound.step_progress (h : Sound s) {e : LiveSessions.Event} {o : OpeningId} {t : Opening}
    (ht : (s.step idleMs e).openings[o]? = some t) (hgoing : t.settled = false) :
    registers s e = none ∧ (s.step idleMs e).opening = some o ∧ liveRuntime (s.step idleMs e) = none ∧
      Goes s (s.step idleMs e) o t := by
  cases hkind : changesOpenings e with
  | false =>
    obtain ⟨hopenings, hopening⟩ := @openings_step s idleMs _ hkind
    rw [hopenings] at ht
    have hprogress := h.progress o t ht hgoing
    have hregisters : registers s e = none := by cases e <;> first | rfl | cases hkind
    refine ⟨hregisters, hopening.trans hprogress.1, ?_, .same ht⟩
    rw [liveRuntime_step, hregisters, hprogress.2, ite_self]
    rfl
  | true =>
    cases e with
    | «open» binding now =>
      revert ht
      show (s.openSessionRuntime binding now).openings[o]? = some t →
        none = none ∧ (s.openSessionRuntime binding now).opening = some o ∧
        liveRuntime (s.openSessionRuntime binding now) = none ∧ Goes s (s.openSessionRuntime binding now) o t
      unfold Session.openSessionRuntime
      split
      · intro ht
        have hprogress := h.progress o t ht hgoing
        exact ⟨rfl, hprogress.1, (liveRuntime_touch now).trans hprogress.2, .same ht⟩
      split
      · intro ht
        have hprogress := h.progress o t ht hgoing
        exact ⟨rfl, hprogress.1, hprogress.2, .same ht⟩
      next hnone =>
        intro ht
        obtain ⟨hopening, hlive, hgoes⟩ := h.startOpening hnone ht hgoing
        refine ⟨rfl, hopening, hlive, ?_⟩
        cases hgoes with
        | same ht => exact .same ht
        | closing binding existing => exact .closing binding existing
        | building binding hnew => exact .building binding hnew
    | build o' =>
      revert ht
      show (s.build o').openings[o]? = some t →
        none = none ∧ (s.build o').opening = some o ∧ liveRuntime (s.build o') = none ∧ Goes s (s.build o') o t
      unfold Session.build
      split
      next binding r hget =>
        split
        · intro ht
          rcases getElem?_set_cases ht with ⟨rfl, rfl⟩ | ⟨hne, hold⟩
          · have hprogress := h.progress _ _ hget rfl
            exact ⟨rfl, hprogress.1, hprogress.2, .building binding (lt_addRuntime s)⟩
          · exact absurd (h.unique hget rfl hold hgoing) hne
        · intro ht
          have hprogress := h.progress o t ht hgoing
          exact ⟨rfl, hprogress.1, hprogress.2, .same ht⟩
      · intro ht
        have hprogress := h.progress o t ht hgoing
        exact ⟨rfl, hprogress.1, hprogress.2, .same ht⟩
    | built o' retired now =>
      have ht : (s.built o' retired now).openings[o]? = some t := ht
      rcases built_cases s o' retired now with ⟨binding, r, hget, -⟩ | ⟨hregisters, hsame⟩
      · rw [openings_built hget] at ht
        rw [h.settles hget rfl ht rfl] at hgoing
        cases hgoing
      rw [hsame] at ht
      have hprogress := h.progress o t ht hgoing
      refine ⟨hregisters, ?_⟩
      show (s.built o' retired now).opening = some o ∧ liveRuntime (s.built o' retired now) = none ∧ _
      rw [hsame]
      exact ⟨hprogress.1, hprogress.2, .same ht⟩
    | buildFailed o' =>
      revert ht
      show (s.buildFailed o').openings[o]? = some t →
        none = none ∧ (s.buildFailed o').opening = some o ∧ liveRuntime (s.buildFailed o') = none ∧
        Goes s (s.buildFailed o') o t
      unfold Session.buildFailed
      split
      next binding r hget =>
        intro ht
        rw [h.settles hget rfl ht rfl] at hgoing
        cases hgoing
      · intro ht
        have hprogress := h.progress o t ht hgoing
        exact ⟨rfl, hprogress.1, hprogress.2, .same ht⟩
    | openingDone o' =>
      revert ht
      show (s.openingDone o').openings[o]? = some t →
        none = none ∧ (s.openingDone o').opening = some o ∧ liveRuntime (s.openingDone o') = none ∧
        Goes s (s.openingDone o') o t
      unfold Session.openingDone
      split
      next hdone =>
        intro ht
        -- the one that is done has settled
        have hprogress := h.progress o t ht hgoing
        rw [hdone.1, some_inj] at hprogress
        rw [hprogress.1, show s.openings[o]? = some t from ht, any_some, hgoing] at hdone
        cases hdone.2
      · intro ht
        have hprogress := h.progress o t ht hgoing
        exact ⟨rfl, hprogress.1, hprogress.2, .same ht⟩
    | closed r => cases hkind
    | deliver c => cases hkind
    | close => cases hkind
    | closeOn i => cases hkind
    | sweep now => cases hkind
    | retire => cases hkind
    | streaming r on => cases hkind
    | activity r now => cases hkind
    | fault r => cases hkind

/-- A runtime is put in the table by the opening that built it, which is then no longer in progress. -/
theorem building_of_registers {e : LiveSessions.Event} {r : RuntimeId} (hr : registers s e = some r) :
    ∃ (o : OpeningId) (binding : String), s.openings[o]? = some (.building binding r) := by
  cases e with
  | built o retired now =>
    rcases built_cases s o retired now with ⟨binding, r', hget, hr'⟩ | ⟨hnone, -⟩
    · cases hr.symm.trans hr'
      exact ⟨o, binding, hget⟩
    · cases hr.symm.trans hnone
  | _ => cases hr

theorem Sound.step (h : Sound s) (idleMs : Nat) (e : LiveSessions.Event) : Sound (s.step idleMs e) := by
  have hlen := runtimes_length_step idleMs s e
  constructor
  · intro o t ht hgoing
    have hstep := h.step_progress ht hgoing
    exact ⟨hstep.2.1, hstep.2.2.1⟩
  · intro o binding r hr
    cases (h.step_progress hr rfl).2.2.2 with
    | same ht => exact Nat.lt_of_lt_of_le (h.building o binding r ht) hlen
    | building binding hnew => exact hnew
  · intro r hr
    rw [liveRuntime_step] at hr
    cases hregisters : registers s e with
    | some r' =>
      rw [hregisters] at hr
      obtain rfl : r' = r := some_inj.mp hr
      obtain ⟨o, binding, hget⟩ := building_of_registers hregisters
      exact Nat.lt_of_lt_of_le (h.building o binding r' hget) hlen
    | none =>
      rw [hregisters] at hr
      have hr : (if s.takes idleMs e then none else liveRuntime s) = some r := hr
      split at hr
      · cases hr
      · exact Nat.lt_of_lt_of_le (h.live r hr) hlen

end

/-! ## The runtimes that the shutdown finds -/

section

variable {w : Watched}

structure Waits (w : Watched) : Prop where
  sound : Sound w.session
  nodup : w.registered.Nodup
  known : ∀ r ∈ w.registered, r < w.session.runtimes.length
  fresh : ∀ (o : OpeningId) (binding : String) (r : RuntimeId),
    w.session.openings[o]? = some (.building binding r) → r ∉ w.registered
  parts : w.registered.Perm (w.closed ++ (liveRuntime w.session).toList)
  asked : w.asked = []
  late : w.late = []

/-- Once it took the entries, what was registered is closed or was asked to suspend. -/
structure Taken (w : Watched) : Prop where
  nodup : w.registered.Nodup
  parts : w.registered.Perm (w.closed ++ w.asked)

def Fits : Phase → Watched → Prop
  | .serving, w => Sound w.session
  | .waiting _, w => Waits w
  | .suspending .., w | .resolved, w => Taken w

theorem Waits.begin (h : Sound w.session) : Waits w.begin := by
  constructor
  · exact h
  · show (liveRuntime w.session).toList.Nodup
    cases liveRuntime w.session with
    | none => exact nodup_nil
    | some r => exact nodup_singleton r
  · intro r hr
    exact h.live r (mem_toList.mp hr)
  · intro o binding r hget hr
    -- the table is empty while it is in progress
    have hnone := (h.progress o _ hget rfl).2
    have hr : r ∈ (liveRuntime w.session).toList := hr
    rw [hnone] at hr
    cases hr
  · exact List.Perm.refl _
  · rfl
  · rfl

theorem Waits.suspend (h : Waits w) : Taken w.suspend := by
  constructor
  · exact h.nodup
  show w.registered.Perm (w.closed ++ (w.asked ++ _))
  rw [h.asked, nil_append]
  exact h.parts

theorem closes_of_none {idleMs : Nat} {s : Session} (hlive : liveRuntime s = none) (e : LiveSessions.Event) :
    closes idleMs s e = none := by
  unfold closes
  rw [hlive, ite_self]

theorem Waits.step (h : Waits w) (idleMs deadline : Nat) (e : LiveSessions.Event) :
    Waits (w.step idleMs (.waiting deadline) e) := by
  have hlen := runtimes_length_step idleMs w.session e
  have hlive := liveRuntime_step idleMs w.session e
  have hsound := h.sound.step idleMs e
  cases hregisters : registers w.session e with
  | some r =>
    obtain ⟨o, binding, hget⟩ := building_of_registers hregisters
    have hnone := (h.sound.progress o _ hget rfl).2
    have hw : w.step idleMs (.waiting deadline) e =
        { w with session := w.session.step idleMs e, registered := w.registered ++ [r], closed := w.closed ++ [] } := by
      unfold Watched.step
      rw [hregisters, closes_of_none hnone e]
      rfl
    rw [hw]
    constructor
    · exact hsound
    · apply List.Nodup.append h.nodup (nodup_singleton r)
      intro r' hr' hr
      rw [mem_singleton.mp hr] at hr'
      exact h.fresh o binding r hget hr'
    · intro r' hr'
      apply Nat.lt_of_lt_of_le _ hlen
      rcases mem_append.mp hr' with hr' | hr'
      · exact h.known r' hr'
      · rw [mem_singleton.mp hr']
        exact h.sound.building o binding r hget
    · intro o' binding' r' hget'
      have hregisters' := (h.sound.step_progress hget' rfl).1
      cases hregisters.symm.trans hregisters'
    · rw [hregisters] at hlive
      rw [hlive, append_nil]
      apply List.Perm.append_right
      have hparts := h.parts
      rw [hnone, toList_none, append_nil] at hparts
      exact hparts
    · exact h.asked
    · exact h.late
  | none =>
    have hw : w.step idleMs (.waiting deadline) e =
        { w with
          session := w.session.step idleMs e
          registered := w.registered ++ []
          closed := w.closed ++ (closes idleMs w.session e).toList } := by
      unfold Watched.step
      rw [hregisters]
      rfl
    rw [hw, append_nil]
    constructor
    · exact hsound
    · exact h.nodup
    · intro r hr
      exact Nat.lt_of_lt_of_le (h.known r hr) hlen
    · intro o binding r hget hr
      cases (h.sound.step_progress hget rfl).2.2.2 with
      | same ht => exact h.fresh o binding r ht hr
      | building binding hnew => exact Nat.lt_irrefl _ (h.known _ hr)
    · rw [hregisters, none_or] at hlive
      rw [hlive]
      unfold closes
      split
      · rw [toList_none, append_nil]
        exact h.parts
      · rw [toList_none, append_nil]
        exact h.parts
    · exact h.asked
    · exact h.late

theorem Taken.step (h : Taken w) (idleMs : Nat) {phase : Phase} (hphase : phase.taken = true)
    (e : LiveSessions.Event) : Taken (w.step idleMs phase e) := by
  cases phase with
  | serving => cases hphase
  | waiting deadline => cases hphase
  | suspending pending bound => exact ⟨h.nodup, h.parts⟩
  | resolved => exact ⟨h.nodup, h.parts⟩

theorem Taken.once (h : Taken w) {r : RuntimeId} (hr : r ∈ w.registered) : w.asked.count r + w.closed.count r = 1 := by
  have hcount := h.parts.count_eq r
  rw [count_append, count_eq_one_of_mem h.nodup hr] at hcount
  rw [Nat.add_comm, ← hcount]

theorem Fits.step {phase : Phase} (h : Fits phase w) (idleMs : Nat) (e : LiveSessions.Event) :
    Fits phase (w.step idleMs phase e) := by
  cases phase with
  | serving => exact Sound.step (s := w.session) h idleMs e
  | waiting deadline => exact Waits.step (w := w) h idleMs deadline e
  | suspending pending bound => exact Taken.step (w := w) h idleMs rfl e
  | resolved => exact Taken.step (w := w) h idleMs rfl e

end

/-! ## Runs -/

section

variable {p : Process} {idleMs pauseMs : Nat}

structure Inv (p : Process) : Prop where
  fits : ∀ id, Fits p.phase (p.sessions id)
  others : ∀ id, id ∉ p.ids → (p.sessions id).session = .init

theorem Inv.init : Inv .init := by
  constructor
  · intro id
    exact Sound.init
  · intro id _
    rfl

theorem Inv.suspend (h : Inv p) {deadline : Nat} (hphase : p.phase = .waiting deadline) (now : Nat) :
    Inv (p.suspend now) := by
  constructor
  · intro id
    have hwaits := h.fits id
    rw [hphase] at hwaits
    exact Waits.suspend hwaits
  · intro id hid
    show { (p.sessions id).session with live := none } = Session.init
    rw [h.others id hid]
    rfl

theorem poll_cases (p : Process) (now : Nat) (isPaused : SessionId → Bool) :
    p.poll now isPaused = p ∧ (∀ deadline, p.phase = .waiting deadline → 0 < p.unpaused isPaused) ∨
      ∃ deadline, p.phase = .waiting deadline ∧ p.poll now isPaused = p.suspend now ∧
        (p.unpaused isPaused = 0 ∨ deadline ≤ now) := by
  unfold Process.poll
  split
  next deadline hphase =>
    split
    next hwaits =>
      exact .inl ⟨rfl, fun _ _ => hwaits.1⟩
    rename_i hover
    refine .inr ⟨deadline, hphase, rfl, ?_⟩
    rcases Nat.eq_zero_or_pos (p.unpaused isPaused) with hzero | hpos
    · exact .inl hzero
    · exact .inr (Nat.le_of_not_lt fun hlt => hover ⟨hpos, hlt⟩)
  next hphase =>
    exact .inl ⟨rfl, fun deadline hwaiting => absurd hwaiting (hphase deadline)⟩

theorem Inv.poll (h : Inv p) (now : Nat) (isPaused : SessionId → Bool) : Inv (p.poll now isPaused) := by
  rcases poll_cases p now isPaused with ⟨hsame, -⟩ | ⟨deadline, hphase, hover, -⟩
  · rw [hsame]
    exact h
  · rw [hover]
    exact h.suspend hphase now

def Process.begin (p : Process) (deadline : Nat) : Process :=
  { p with phase := .waiting deadline, sessions := fun id => (p.sessions id).begin }

theorem Inv.begin (h : Inv p) (hphase : p.phase = .serving) (deadline : Nat) : Inv (p.begin deadline) := by
  refine { h with fits := ?_ }
  intro id
  have hsound := h.fits id
  rw [hphase] at hsound
  exact Waits.begin hsound

theorem suspendSessions_cases (p : Process) (pauseMs started now : Nat) (isPaused : SessionId → Bool) :
    p.suspendSessions pauseMs started now isPaused = p ∨
      p.phase = .serving ∧ p.suspendSessions pauseMs started now isPaused =
        (p.begin (started + pauseMs)).poll now isPaused := by
  unfold Process.suspendSessions
  split
  next hphase =>
    exact .inr ⟨hphase, rfl⟩
  · exact .inl rfl

theorem Inv.session (h : Inv p) (id : SessionId) (e : LiveSessions.Event) :
    Inv (step idleMs pauseMs p (.session id e)) := by
  constructor
  · intro id'
    show Fits p.phase (Function.update p.sessions id _ id')
    by_cases heq : id' = id
    · subst heq
      rw [Function.update_self]
      exact (h.fits id').step idleMs e
    · rw [Function.update_of_ne heq]
      exact h.fits id'
  · intro id' hid'
    have hids : id' ∉ if id ∈ p.ids then p.ids else p.ids ++ [id] := hid'
    have hnot : id' ∉ p.ids ∧ id' ≠ id := by
      split at hids
      next hin =>
        exact ⟨hids, fun heq => hids (heq ▸ hin)⟩
      · exact ⟨fun hin => hids (mem_append_left _ hin),
          fun heq => hids (mem_append_right _ (mem_singleton.mpr heq))⟩
    show (Function.update p.sessions id _ id').session = _
    rw [Function.update_of_ne hnot.2]
    exact h.others id' hnot.1

theorem Inv.step (h : Inv p) (e : Event) : Inv (step idleMs pauseMs p e) := by
  cases e with
  | session id e => exact h.session id e
  | suspendSessions started now isPaused =>
    show Inv (p.suspendSessions pauseMs started now isPaused)
    rcases suspendSessions_cases p pauseMs started now isPaused with hsame | ⟨hphase, hbegins⟩
    · rw [hsame]
      exact h
    · rw [hbegins]
      exact (h.begin hphase _).poll now isPaused
  | poll now isPaused => exact h.poll now isPaused
  | suspended id =>
    show Inv (match p.phase with | .suspending .. => _ | _ => p)
    split
    next pending bound hphase =>
      have hfits := h.fits
      rw [hphase] at hfits
      exact ⟨hfits, h.others⟩
    · exact h
  | race now =>
    show Inv (match p.phase with | .suspending .. => _ | _ => p)
    split
    next pending bound hphase =>
      split
      · have hfits := h.fits
        rw [hphase] at hfits
        exact ⟨hfits, h.others⟩
      · exact h
    · exact h

/-! ### Nothing afterwards -/

structure Ended (w : Watched) : Prop where
  live : w.session.live = none
  opening : w.session.opening = none
  late : w.late = []

def opens : LiveSessions.Event → Bool
  | .open .. => true
  | _ => false

def Process.inTime (p : Process) (now deadline : Nat) : Prop :=
  now < deadline ∨ ∀ id ∈ p.ids, (p.sessions id).session.opening = none

instance (p : Process) (now deadline : Nat) : Decidable (p.inTime now deadline) :=
  inferInstanceAs (Decidable (_ ∨ _))

/-- No opening outlasts the wait, and none is requested once the entries are taken. -/
def Settles (pauseMs : Nat) (p : Process) : Event → Prop
  | .session _ e => opens e = true → p.phase.taken = false
  | .suspendSessions started now _ => p.phase = .serving → p.inTime now (started + pauseMs)
  | .poll now _ =>
    match p.phase with
    | .waiting deadline => p.inTime now deadline
    | _ => True
  | .suspended _ | .race _ => True

instance (pauseMs : Nat) (p : Process) (e : Event) : Decidable (Settles pauseMs p e) := by
  unfold Settles
  split
  · infer_instance
  · infer_instance
  · split <;> infer_instance
  · infer_instance
  · infer_instance

theorem opening_none_step {s : Session} (hnone : s.opening = none) {e : LiveSessions.Event} (he : opens e = false) :
    (s.step idleMs e).opening = none := by
  cases hkind : changesOpenings e with
  | false => rw [(openings_step hkind).2, hnone]
  | true =>
    cases e with
    | «open» binding now => cases he
    | build o =>
      show (s.build o).opening = none
      unfold Session.build
      split
      · split <;> exact hnone
      · exact hnone
    | built o retired now =>
      show (s.built o retired now).opening = none
      unfold Session.built
      split <;> exact hnone
    | buildFailed o =>
      show (s.buildFailed o).opening = none
      unfold Session.buildFailed
      split <;> exact hnone
    | openingDone o =>
      show (s.openingDone o).opening = none
      unfold Session.openingDone
      split
      · rfl
      · exact hnone
    | closed r => cases hkind
    | deliver c => cases hkind
    | close => cases hkind
    | closeOn i => cases hkind
    | sweep now => cases hkind
    | retire => cases hkind
    | streaming r on => cases hkind
    | activity r now => cases hkind
    | fault r => cases hkind

/-- Without an opening in progress no runtime comes to the table. -/
theorem Ended.step {w : Watched} (h : Ended w) (hsound : Sound w.session) {phase : Phase}
    (hphase : phase.taken = true) {e : LiveSessions.Event} (he : opens e = false) :
    Ended (w.step idleMs phase e) ∧ Sound (w.step idleMs phase e).session := by
  have hregisters : registers w.session e = none := by
    cases hr : registers w.session e with
    | none => rfl
    | some r =>
      obtain ⟨o, binding, hget⟩ := building_of_registers hr
      cases hsound.all_settled h.opening hget
  have hlive : (w.session.step idleMs e).live = none := by
    have hstep := liveRuntime_step idleMs w.session e
    rw [hregisters, none_or, liveRuntime, liveRuntime, h.live, map_none, ite_self] at hstep
    exact map_eq_none_iff.mp hstep
  have hlate : w.late ++ (registers w.session e).toList = [] := by rw [hregisters, h.late]; rfl
  have hopening := @opening_none_step idleMs _ h.opening _ he
  cases phase with
  | serving => cases hphase
  | waiting deadline => cases hphase
  | suspending pending bound => exact ⟨⟨hlive, hopening, hlate⟩, hsound.step idleMs e⟩
  | resolved => exact ⟨⟨hlive, hopening, hlate⟩, hsound.step idleMs e⟩

def AllEnded (p : Process) : Prop := p.phase.taken = true → ∀ id, Ended (p.sessions id) ∧ Sound (p.sessions id).session

theorem opening_of_unpaused {isPaused : SessionId → Bool} (h : p.unpaused isPaused = 0) {id : SessionId}
    (hid : id ∈ p.ids) : (p.sessions id).session.opening = none := by
  have hnone := eq_nil_of_length_eq_zero (Nat.eq_zero_of_add_eq_zero h).2
  have hnot := filter_eq_nil_iff.mp hnone id hid
  exact not_isSome_iff_eq_none.mp hnot

/-- The entries are taken where no opening is in progress. -/
theorem AllEnded.suspend (h : Inv p) {deadline : Nat} (hphase : p.phase = .waiting deadline) (now : Nat)
    (hopening : ∀ id ∈ p.ids, (p.sessions id).session.opening = none) : AllEnded (p.suspend now) := by
  intro _ id
  have hwaits : Waits (p.sessions id) := by
    have hfits := h.fits id
    rw [hphase] at hfits
    exact hfits
  constructor
  · constructor
    · rfl
    · by_cases hid : id ∈ p.ids
      · exact hopening id hid
      show (p.sessions id).session.opening = none
      rw [h.others id hid]
      rfl
    · exact hwaits.late
  · constructor
    · intro o t ht hgoing
      exact ⟨(hwaits.sound.progress o t ht hgoing).1, rfl⟩
    · exact hwaits.sound.building
    · exact nofun

theorem AllEnded.poll (h : AllEnded p) (hinv : Inv p) (now : Nat) (isPaused : SessionId → Bool)
    (hin : ∀ deadline, p.phase = .waiting deadline → p.inTime now deadline) : AllEnded (p.poll now isPaused) := by
  rcases poll_cases p now isPaused with ⟨hsame, -⟩ | ⟨deadline, hphase, hover, hwhy⟩
  · rw [hsame]
    exact h
  rw [hover]
  apply AllEnded.suspend hinv hphase now
  rcases hwhy with hpaused | hlate
  · intro id hid
    exact opening_of_unpaused hpaused hid
  rcases hin deadline hphase with hlt | hnone
  · exact absurd hlt (Nat.not_lt.mpr hlate)
  · exact hnone

theorem AllEnded.step (h : AllEnded p) (hinv : Inv p) {e : Event} (hok : Settles pauseMs p e) :
    AllEnded (step idleMs pauseMs p e) := by
  cases e with
  | session id e =>
    intro hphase id'
    have hphase : p.phase.taken = true := hphase
    have hopens : opens e = false := by
      by_contra hopens
      rw [hok (eq_true_of_ne_false hopens)] at hphase
      cases hphase
    show Ended (Function.update p.sessions id _ id') ∧ Sound (Function.update p.sessions id _ id').session
    by_cases heq : id' = id
    · subst heq
      rw [Function.update_self]
      obtain ⟨hended, hsound⟩ := h hphase id'
      exact hended.step hsound hphase hopens
    · rw [Function.update_of_ne heq]
      exact h hphase id'
  | suspendSessions started now isPaused =>
    show AllEnded (p.suspendSessions pauseMs started now isPaused)
    rcases suspendSessions_cases p pauseMs started now isPaused with hsame | ⟨hphase, hbegins⟩
    · rw [hsame]
      exact h
    rw [hbegins]
    apply AllEnded.poll _ (hinv.begin hphase _)
    · intro deadline hdeadline
      obtain rfl : started + pauseMs = deadline := Phase.waiting.inj hdeadline
      exact hok hphase
    · exact nofun
  | poll now isPaused =>
    apply h.poll hinv
    intro deadline hphase
    have hin : match p.phase with | .waiting deadline => p.inTime now deadline | _ => True := hok
    rw [hphase] at hin
    exact hin
  | suspended id =>
    show AllEnded (match p.phase with | .suspending .. => _ | _ => p)
    split
    next pending bound hphase =>
      intro _
      exact h (hphase ▸ rfl)
    · exact h
  | race now =>
    show AllEnded (match p.phase with | .suspending .. => _ | _ => p)
    split
    next pending bound hphase =>
      split
      · intro _
        exact h (hphase ▸ rfl)
      · exact h
    · exact h

end

/-- Each runtime that the shutdown found in the table, or that came to it up to where the entries were taken,
was asked to suspend or was closed, once in all. With the openings settled by then and none requested
afterwards, no session is left with a runtime in the table or an opening, and none comes to it. -/
theorem suspended_or_closed (idleMs pauseMs : Nat) (es : List Event)
    (hphase : (exec (step idleMs pauseMs) .init es).phase.taken = true) :
    (∀ (id : SessionId) (r : RuntimeId), r ∈ ((exec (step idleMs pauseMs) .init es).sessions id).registered →
      ((exec (step idleMs pauseMs) .init es).sessions id).asked.count r +
        ((exec (step idleMs pauseMs) .init es).sessions id).closed.count r = 1) ∧
      (Along (step idleMs pauseMs) (Settles pauseMs) .init es →
        ∀ id, Ended ((exec (step idleMs pauseMs) .init es).sessions id)) := by
  have hinv : Inv (exec (step idleMs pauseMs) .init es) := exec_invariant Inv (fun p e h => h.step e) Inv.init es
  constructor
  · intro id r hr
    have hfits := hinv.fits id
    cases hreached : (exec (step idleMs pauseMs) .init es).phase with
    | serving => rw [hreached] at hphase; cases hphase
    | waiting deadline => rw [hreached] at hphase; cases hphase
    | suspending pending bound =>
      rw [hreached] at hfits
      exact Taken.once hfits hr
    | resolved =>
      rw [hreached] at hfits
      exact Taken.once hfits hr
  · intro hok id
    have hended := hok.invariant (fun p => Inv p ∧ AllEnded p)
      (fun p e he h => ⟨h.1.step e, h.2.step h.1 he⟩) ⟨Inv.init, nofun⟩
    exact (hended.2 hphase id).1

def openedOne (id : SessionId) : List Event :=
  [.session id (.open "main" 0), .session id (.built 0 false 0), .session id (.openingDone 0)]

def sweptAndSuspended : List Event :=
  openedOne "a" ++ [.session "b" (.open "main" 0), .suspendSessions 50 50 fun _ => true, .session "a" (.sweep 60),
    .session "b" (.built 0 false 60), .session "b" (.openingDone 0), .poll 70 fun _ => true, .suspended "b", .race 80]

theorem suspended_or_closed_two : (exec (step 10 3000) .init sweptAndSuspended).phase = .resolved ∧
      ((exec (step 10 3000) .init sweptAndSuspended).sessions "b").asked.count 0 +
        ((exec (step 10 3000) .init sweptAndSuspended).sessions "b").closed.count 0 = 1 ∧
      ∀ id, Ended ((exec (step 10 3000) .init sweptAndSuspended).sessions id) :=
  ⟨by decide, (suspended_or_closed 10 3000 sweptAndSuspended (by decide)).1 "b" 0 (by decide),
    (suspended_or_closed 10 3000 sweptAndSuspended (by decide)).2 (by decide)⟩

/-- A runtime that the sweep closes meanwhile is not asked to suspend; one whose opening outlasts the wait comes
to the table when `suspendSessions` has resolved, and nobody asks it. -/
theorem closed_and_late : let p := exec (step 10 3000) .init (openedOne "a" ++ [.session "b" (.open "main" 0),
      .suspendSessions 50 50 fun _ => true, .session "a" (.sweep 60), .poll 3050 fun _ => true, .race 3050,
      .session "b" (.built 0 false 4000)])
    p.phase = .resolved ∧ (p.sessions "a").registered = [0] ∧ (p.sessions "a").asked = [] ∧
      (p.sessions "b").late = [0] ∧ (p.sessions "b").asked = [] ∧ liveRuntime (p.sessions "b").session = some 0 := by
  decide

end Reins.Shutdown
