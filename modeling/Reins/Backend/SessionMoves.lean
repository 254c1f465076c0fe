import Reins.Lib.Places
import Reins.Lib.Run

/-!
# Moving a session (`models/sessions.ts`, `sessions/session-ownership.ts`, `session-runtime/live.ts`)

One session: its row's source, its runtimes, who opens one for a call and what the calls do with it. A move
points the row at another source while the session is idle, and then closes the runtime there is. Calls in
the session's order (submissions, model changes, compactions, a child's reports) keep the session busy from
the moment they are made; a resume does so once it is in the runtime.

What takes microtasks only (a promise that has settled going on) comes before what takes longer: a move
that has nothing left to wait for goes on before an opening is built or a runtime has closed.
-/

namespace Reins.SessionMoves

open Places Run List

abbrev SourceId := Nat
abbrev RuntimeId := Nat
abbrev OpeningId := Nat
abbrev CallId := Nat
abbrev MoveId := Nat

inductive RuntimePhase
  | building
  | opened
  | closing
  | closed
  deriving DecidableEq

structure Runtime where
  /-- The source it was built for, where its runs work, and the moves there had been then. -/
  source : SourceId
  epoch : Nat
  phase : RuntimePhase
  running : Bool
  ends : Nat
  deriving DecidableEq

inductive Opening
  | closing (source : SourceId) (epoch : Nat) (existing : RuntimeId)
  | building (runtime : RuntimeId)
  | resolved (runtime : RuntimeId)
  | rejected
  deriving DecidableEq

def Opening.settled : Opening → Bool
  | .closing .. | .building _ => false
  | .resolved _ | .rejected => true

inductive Kind
  /-- In the session's order: `inSessionOrder`. -/
  | ordered
  | resume
  deriving DecidableEq

inductive CallPhase
  | waiting
  /-- `openSessionRuntime`'s promise has the live runtime, or is an opening's. -/
  | returned (runtime : RuntimeId)
  | joined (opening : OpeningId)
  /-- In the runtime's `trackAdmission`. -/
  | inside (runtime : RuntimeId)
  | done
  deriving DecidableEq

structure Call where
  kind : Kind
  phase : CallPhase
  deriving DecidableEq

inductive MovePhase
  /-- `closeSessionRuntime` waits for the opening it found. -/
  | waiting (opening : Option OpeningId)
  | closing (runtime : RuntimeId)
  | resolved
  deriving DecidableEq

structure Move where
  epoch : Nat
  phase : MovePhase
  /-- Nothing ran and no call was in progress when the row was updated. -/
  atRest : Bool
  deriving DecidableEq

structure Start where
  source : SourceId
  row : SourceId
  deriving DecidableEq

structure State where
  row : SourceId
  /-- Pi has an operation of the session in progress. -/
  pending : Bool
  runtimes : List Runtime
  live : Option RuntimeId
  opening : Option OpeningId
  openings : List Opening
  calls : List Call
  moves : List Move
  starts : List Start
  /-- Runs cut short by the closing of their runtime. -/
  aborted : Nat
  deriving DecidableEq

/-- A session nothing is open of; a run an exit cut off may be pending in Pi. -/
def State.init (row : SourceId) (pending : Bool) : State :=
  { row, pending, runtimes := [], live := none, opening := none, openings := [], calls := [], moves := [],
    starts := [], aborted := 0 }

inductive Event
  | submit
  | resume
  | turn (c : CallId)
  | built (o : OpeningId)
  | buildFailed (o : OpeningId)
  /-- The opening leaves `opening`, before anyone who waits for it goes on. -/
  | openingDone (o : OpeningId)
  /-- The call gets its runtime, and its admission begins. -/
  | deliver (c : CallId)
  | start (c : CallId)
  | leave (c : CallId)
  | runEnd (r : RuntimeId) (left : Bool)
  | endApplied (r : RuntimeId)
  | move (target : SourceId)
  /-- A move's `closeSessionRuntime` goes on. -/
  | close (m : MoveId)
  | closed (r : RuntimeId)
  deriving DecidableEq

section

variable (s : State)

def State.setRuntime (r : RuntimeId) (f : Runtime → Runtime) : State := { s with runtimes := s.runtimes.modify r f }

def State.setCall (c : CallId) (call : Call) (phase : CallPhase) : State :=
  { s with calls := s.calls.set c { call with phase } }

/-! ## Opening -/

def State.current : Option RuntimeId :=
  s.live.filter fun r => (s.runtimes[r]?).any fun runtime => runtime.source = s.row

def State.admitting (r : RuntimeId) : Bool := s.calls.any fun c => c.phase = .inside r

def State.isStreaming (r : RuntimeId) : Bool := s.admitting r || (s.runtimes[r]?).any Runtime.running

def State.isBusy (r : RuntimeId) : Bool := s.isStreaming r || (s.runtimes[r]?).any fun runtime => runtime.ends ≠ 0

def State.newRuntime (source : SourceId) (epoch : Nat) : State :=
  { s with runtimes := s.runtimes ++ [⟨source, epoch, .building, false, 0⟩] }

def State.newOpening (opening : Opening) : State :=
  { s with opening := some s.openings.length, openings := s.openings ++ [opening] }

def State.takeOut (r : RuntimeId) : State :=
  { s.setRuntime r fun runtime => { runtime with phase := .closing } with live := none }

/-- An opening up to its first `await`: `SessionRuntimeBusyError`, the runtime it replaces, or a new one. -/
def State.startOpening : State :=
  match s.live with
  | some r =>
    if s.isStreaming r then s.newOpening .rejected
    else (s.takeOut r).newOpening (.closing s.row s.moves.length r)
  | none => (s.newRuntime s.row s.moves.length).newOpening (.building s.runtimes.length)

def State.openSessionRuntime (c : CallId) (call : Call) : State :=
  match s.current with
  | some r => s.setCall c call (.returned r)
  | none =>
    match s.opening with
    | some o => s.setCall c call (.joined o)
    | none => s.startOpening.setCall c call (.joined s.openings.length)

def State.promised (phase : CallPhase) : Option (Option RuntimeId) :=
  match phase with
  | .returned r => some (some r)
  | .joined o =>
    if s.opening = some o then none
    else
      match s.openings[o]? with
      | some (.resolved r) => some (some r)
      | some .rejected => some none
      | _ => none
  | _ => none

def State.deliver (c : CallId) (call : Call) : State :=
  match s.promised call.phase with
  | some (some r) => s.setCall c call (.inside r)
  | some none => s.setCall c call .done
  | none => s

/-! ## Moving -/

def State.sessionBusy : Bool :=
  (s.calls.any fun c => c.kind = .ordered && c.phase ≠ .done) || s.live.any s.isBusy || s.opening.isSome && s.pending

def State.atRest : Bool := (s.calls.all fun c => c.phase = .done) && (List.range s.runtimes.length).all fun r => !s.isBusy r

/-- `requestSessionMove`, and `closeSessionRuntime` up to its first `await`. -/
def State.move (target : SourceId) : State :=
  if s.row = target || s.sessionBusy then s
  else
    { s with
      row := target,
      moves := s.moves ++ [⟨s.moves.length + 1, .waiting s.opening, s.atRest⟩] }

def State.ready (m : Move) : Bool :=
  match m.phase with
  | .waiting none => true
  | .waiting (some o) => s.opening ≠ some o
  | _ => false

def State.setMove (m : MoveId) (move : Move) (phase : MovePhase) : State :=
  { s with moves := s.moves.set m { move with phase } }

def State.close (m : MoveId) (move : Move) : State :=
  if s.ready move then
    match s.live with
    | some r => (s.takeOut r).setMove m move (.closing r)
    | none => s.setMove m move .resolved
  else s

/-! ## Runtimes -/

/-- Nothing short of it is left to do. -/
def State.quiet : Bool := s.moves.all fun m => !s.ready m

def State.built (o : OpeningId) : State :=
  match s.openings[o]? with
  | some (.building r) =>
    { s.setRuntime r fun runtime => { runtime with phase := .opened } with
      live := some r, openings := s.openings.set o (.resolved r) }
  | _ => s

def State.buildFailed (o : OpeningId) : State :=
  match s.openings[o]? with
  | some (.building r) =>
    { s.setRuntime r fun runtime => { runtime with phase := .closed } with
      openings := s.openings.set o .rejected }
  | _ => s

def State.afterClosed (r : RuntimeId) : State :=
  match s.openings.findIdx? fun o => match o with | .closing _ _ existing => existing = r | _ => false with
  | some o =>
    match s.openings[o]? with
    | some (.closing source epoch _) =>
      { s.newRuntime source epoch with openings := s.openings.set o (.building s.runtimes.length) }
    | _ => s
  | none =>
    match s.moves.findIdx? fun m => m.phase = .closing r with
    | some m =>
      match s.moves[m]? with
      | some move => s.setMove m move .resolved
      | none => s
    | none => s

def State.closed (r : RuntimeId) : State :=
  match s.runtimes[r]? with
  | some runtime =>
    if runtime.phase = .closing && !s.admitting r then
      State.afterClosed
        { s with
          runtimes := s.runtimes.set r { runtime with phase := .closed, running := false },
          aborted := s.aborted + if runtime.running then 1 else 0 } r
    else s
  | none => s

def State.start (c : CallId) : State :=
  match s.calls[c]? with
  | some ⟨kind, .inside r⟩ =>
    match s.runtimes[r]? with
    | some runtime =>
      if !runtime.running && runtime.phase ≠ .closed && (kind = .ordered || s.pending) then
        { s with
          runtimes := s.runtimes.set r { runtime with running := true }, pending := true,
          starts := s.starts ++ [⟨runtime.source, s.row⟩] }
      else s
    | none => s
  | _ => s

def State.leave (c : CallId) : State :=
  match s.calls[c]? with
  | some ⟨kind, .inside r⟩ => s.setCall c ⟨kind, .inside r⟩ .done
  | _ => s

def State.runEnd (r : RuntimeId) (left : Bool) : State :=
  match s.runtimes[r]? with
  | some runtime =>
    if runtime.running then
      { s with
        runtimes := s.runtimes.set r { runtime with running := false, ends := runtime.ends + 1 },
        pending := left }
    else s
  | none => s

def State.endApplied (r : RuntimeId) : State :=
  match s.runtimes[r]? with
  | some runtime => { s with runtimes := s.runtimes.set r { runtime with ends := runtime.ends - 1 } }
  | none => s

end

def State.turn (s : State) (c : CallId) : State :=
  match s.calls[c]? with
  | some call =>
    if call.phase = .waiting && (s.calls.take c).all fun d => d.kind = .resume || d.phase = .done then
      s.openSessionRuntime c call
    else s
  | none => s

def step (s : State) : Event → State
  | .submit => { s with calls := s.calls ++ [⟨.ordered, .waiting⟩] }
  | .resume =>
    State.openSessionRuntime { s with calls := s.calls ++ [⟨.resume, .waiting⟩] } s.calls.length ⟨.resume, .waiting⟩
  | .turn c => s.turn c
  | .built o => if s.quiet then s.built o else s
  | .buildFailed o => if s.quiet then s.buildFailed o else s
  | .openingDone o =>
    if s.opening = some o && (s.openings[o]?).any Opening.settled then { s with opening := none } else s
  | .deliver c =>
    match s.calls[c]? with
    | some call => s.deliver c call
    | none => s
  | .start c => s.start c
  | .leave c => s.leave c
  | .runEnd r left => s.runEnd r left
  | .endApplied r => s.endApplied r
  | .move target => s.move target
  | .close m =>
    match s.moves[m]? with
    | some move => s.close m move
    | none => s
  | .closed r => if s.quiet then s.closed r else s

/-! ## What holds where no move finds a resume or an earlier move on its way -/

section

variable (s : State)

def Move.waits (m : Move) : Bool :=
  match m.phase with
  | .waiting _ => true
  | _ => false

/-- A move has updated the row, and has yet to take the runtime out. -/
def State.moving : Bool := s.moves.any Move.waits

/-- The call has got its runtime, and marks it busy while it uses it. -/
def CallPhase.arrived : CallPhase → Bool
  | .inside _ | .done => true
  | _ => false

/-- A move that succeeds does so while no resume is on its way to a runtime, and no other move is. -/
def Undisturbed (s : State) : Event → Prop
  | .move target =>
    s.row ≠ target → s.sessionBusy = false →
      (∀ c ∈ s.calls, c.kind = .resume → c.phase.arrived = true) ∧ s.moving = false
  | _ => True

def Fits (r : RuntimeId) : Prop :=
  ∃ runtime, s.runtimes[r]? = some runtime ∧ runtime.source = s.row ∧ runtime.epoch = s.moves.length

def OpeningOk : Option Opening → Prop
  | some (.closing source epoch _) => source = s.row ∧ epoch = s.moves.length
  | some (.building r) => Fits s r
  | some (.resolved r) => s.live = some r ∧ Fits s r
  | some .rejected => True
  | none => False

def CallOk : CallPhase → Prop
  | .returned r | .inside r => s.live = some r ∧ Fits s r
  | .joined o => OpeningOk s s.openings[o]?
  | .waiting | .done => True

def LiveOk (runtime : Runtime) : Prop :=
  runtime.phase = .opened ∧ if s.moving then runtime.source ≠ s.row ∧ runtime.epoch + 1 = s.moves.length
    else runtime.source = s.row ∧ runtime.epoch = s.moves.length

structure MoveOk (n : Nat) (i : MoveId) (m : Move) : Prop where
  epoch : m.epoch = i + 1
  atRest : m.atRest = true
  waits : m.waits = true → m.phase = .waiting none ∧ i + 1 = n

structure Inv : Prop where
  live : ∀ r, s.live = some r → ∃ runtime, s.runtimes[r]? = some runtime ∧ LiveOk s runtime
  calls : ∀ c ∈ s.calls, CallOk s c.phase
  busy : ∀ (r : RuntimeId) runtime, s.runtimes[r]? = some runtime → runtime.running = true ∨ runtime.ends ≠ 0 →
    s.live = some r ∧ Fits s r
  opening : ∀ o, s.opening = some o → ∃ c ∈ s.calls, c.phase = .joined o
  unsettled : ∀ (o : OpeningId) opening, s.openings[o]? = some opening → opening.settled = false →
    s.opening = some o ∧ s.live = none
  moves : ∀ (i : MoveId) m, s.moves[i]? = some m → MoveOk s.moves.length i m
  starts : ∀ t ∈ s.starts, t.source = t.row
  aborted : s.aborted = 0

end

section

variable {s : State} {c : CallId} {call : Call} {r : RuntimeId} {o : OpeningId}

theorem Inv.not_fits (h : Inv s) (hmoving : s.moving = true) (hlive : s.live = some r) : ¬ Fits s r := by
  rintro ⟨runtime, hr, hsource, -⟩
  obtain ⟨runtime', hr', -, hok⟩ := h.live r hlive
  cases hr.symm.trans hr'
  rw [if_pos hmoving] at hok
  exact hok.1 hsource

theorem Inv.fits (h : Inv s) (hmoving : s.moving = false) (hlive : s.live = some r) : Fits s r := by
  obtain ⟨runtime, hr, -, hok⟩ := h.live r hlive
  rw [if_neg (by simp [hmoving])] at hok
  exact ⟨runtime, hr, hok⟩

theorem Inv.setCall (h : Inv s) (hc : s.calls[c]? = some call) {phase : CallPhase} (hok : CallOk s phase)
    (hjoined : ∀ o, s.opening = some o → call.phase ≠ .joined o) : Inv (s.setCall c call phase) := by
  refine { h with calls := fun d hd => ?_, opening := fun o ho => ?_ }
  · rcases mem_or_eq_of_mem_set hd with hd | rfl
    · exact h.calls d hd
    · exact hok
  obtain ⟨d, hd, hphase⟩ := h.opening o ho
  obtain ⟨i, hi⟩ := getElem?_of_mem hd
  refine ⟨d, mem_of_getElem? (i := i) ?_, hphase⟩
  show (s.calls.set c _)[i]? = some d
  rw [getElem?_set_ne, hi]
  rintro rfl
  cases hc.symm.trans hi
  exact hjoined o ho hphase

theorem Inv.addCall (h : Inv s) (kind : Kind) : Inv { s with calls := s.calls ++ [⟨kind, .waiting⟩] } := by
  refine { h with calls := fun d hd => ?_, opening := fun o ho => ?_ }
  · rcases mem_concat_cases hd with hd | rfl
    · exact h.calls d hd
    · trivial
  · obtain ⟨d, hd, hphase⟩ := h.opening o ho
    exact ⟨d, mem_append_left _ hd, hphase⟩

theorem Inv.deliver (h : Inv s) (hc : s.calls[c]? = some call) : Inv (s.deliver c call) := by
  have hok := h.calls call (mem_of_getElem? hc)
  have hsettled : ∀ o, s.opening = some o → s.promised call.phase ≠ none → call.phase ≠ .joined o := by
    intro o ho hp hphase
    rw [hphase, State.promised, if_pos ho] at hp
    exact hp rfl
  unfold State.deliver
  split
  next r hp =>
    refine h.setCall hc ?_ fun o ho => hsettled o ho (by simp [hp])
    unfold State.promised at hp
    split at hp
    next hphase =>
      cases hp
      rw [hphase] at hok
      exact hok
    next o hphase =>
      rw [hphase] at hok
      split at hp
      · cases hp
      split at hp
      next ho =>
        cases hp
        rw [CallOk, ho] at hok
        exact hok
      next => cases hp
      next => cases hp
    next => cases hp
  next hp => exact h.setCall hc trivial fun o ho => hsettled o ho (by simp [hp])
  next => exact h

/-! ### Runtimes -/

theorem Fits.congr {s' : State} (h : Fits s r) (hruntimes : ∀ runtime, s.runtimes[r]? = some runtime →
      ∃ runtime', s'.runtimes[r]? = some runtime' ∧ runtime'.source = runtime.source ∧ runtime'.epoch = runtime.epoch)
    (hrow : s'.row = s.row) (hmoves : s'.moves.length = s.moves.length) : Fits s' r := by
  obtain ⟨runtime, hr, hsource, hepoch⟩ := h
  obtain ⟨runtime', hr', hsource', hepoch'⟩ := hruntimes runtime hr
  exact ⟨runtime', hr', hsource'.trans (hsource.trans hrow.symm), hepoch'.trans (hepoch.trans hmoves.symm)⟩

theorem Fits.modify (h : Fits s r) (q : RuntimeId) {f : Runtime → Runtime}
    (hsource : ∀ x, (f x).source = x.source) (hepoch : ∀ x, (f x).epoch = x.epoch) :
    Fits { s with runtimes := s.runtimes.modify q f } r := by
  refine h.congr (fun runtime hr => ⟨if q = r then f runtime else runtime, ?_, ?_, ?_⟩) rfl rfl
  · rw [getElem?_modify, hr]
    rfl
  · split
    · exact hsource runtime
    · rfl
  · split
    · exact hepoch runtime
    · rfl

theorem OpeningOk.congr {s' : State} {opening : Option Opening} (h : OpeningOk s opening)
    (hfits : ∀ r, Fits s r → Fits s' r) (hlive : ∀ r, s.live = some r → Fits s r → s'.live = some r)
    (hrow : s'.row = s.row) (hmoves : s'.moves.length = s.moves.length) : OpeningOk s' opening := by
  cases opening with
  | none => exact h
  | some opening =>
    cases opening with
    | closing source epoch existing => exact ⟨h.1.trans hrow.symm, h.2.trans hmoves.symm⟩
    | building r => exact hfits r h
    | resolved r => exact ⟨hlive r h.1 h.2, hfits r h.2⟩
    | rejected => trivial

theorem CallOk.congr {s' : State} {phase : CallPhase} (h : CallOk s phase)
    (hfits : ∀ r, Fits s r → Fits s' r) (hlive : ∀ r, s.live = some r → Fits s r → s'.live = some r)
    (hrow : s'.row = s.row) (hmoves : s'.moves.length = s.moves.length)
    (hopenings : ∀ (o : OpeningId) opening, s.openings[o]? = some opening → s'.openings[o]? = some opening) :
    CallOk s' phase := by
  cases phase with
  | waiting | done => trivial
  | returned r | inside r => exact ⟨hlive r h.1 h.2, hfits r h.2⟩
  | joined o =>
    cases ho : s.openings[o]? with
    | none =>
      rw [CallOk, ho] at h
      exact h.elim
    | some opening =>
      rw [CallOk, ho] at h
      rw [CallOk, hopenings o opening ho]
      exact h.congr hfits hlive hrow hmoves

theorem Inv.setRuntimeAt (h : Inv s) {runtime runtime' : Runtime} (hr : s.runtimes[r]? = some runtime)
    (hsource : runtime'.source = runtime.source) (hepoch : runtime'.epoch = runtime.epoch)
    (hphase : s.live = some r → runtime'.phase = runtime.phase)
    (hbusy : runtime'.running = true ∨ runtime'.ends ≠ 0 → s.live = some r ∧ Fits s r) :
    Inv { s with runtimes := s.runtimes.set r runtime' } := by
  have hfits : ∀ q, Fits s q → Fits { s with runtimes := s.runtimes.set r runtime' } q := by
    intro q hq
    refine hq.congr (fun x hx => ?_) rfl rfl
    show ∃ y, (s.runtimes.set r runtime')[q]? = some y ∧ _
    rw [getElem?_set]
    split
    next heq =>
      subst heq
      cases hr.symm.trans hx
      rw [if_pos (lt_of_getElem? hr)]
      exact ⟨runtime', rfl, hsource, hepoch⟩
    next => exact ⟨x, hx, rfl, rfl⟩
  refine { h with live := fun q hq => ?_, calls := fun d hd => ?_, busy := fun q x hx hrun => ?_ }
  · obtain ⟨x, hx, hopened, hok⟩ := h.live q hq
    show ∃ y, (s.runtimes.set r runtime')[q]? = some y ∧ _
    rw [getElem?_set]
    split
    next heq =>
      subst heq
      cases hr.symm.trans hx
      rw [if_pos (lt_of_getElem? hr)]
      refine ⟨runtime', rfl, (hphase hq).trans hopened, ?_⟩
      rw [hsource, hepoch]
      exact hok
    next => exact ⟨x, hx, hopened, hok⟩
  · exact (h.calls d hd).congr hfits (fun _ hlive _ => hlive) rfl rfl (fun _ _ ho => ho)
  · rcases getElem?_set_cases hx with ⟨rfl, rfl⟩ | ⟨-, hx⟩
    · exact ⟨(hbusy hrun).1, hfits _ (hbusy hrun).2⟩
    · exact ⟨(h.busy q x hx hrun).1, hfits _ (h.busy q x hx hrun).2⟩

theorem Inv.start (h : Inv s) (c : CallId) : Inv (s.start c) := by
  unfold State.start
  split
  next kind r hc =>
    split
    next runtime hr =>
      split
      next =>
        obtain ⟨hlive, hfits⟩ := h.calls _ (mem_of_getElem? hc)
        have hrow : runtime.source = s.row := by
          obtain ⟨x, hx, hsource, -⟩ := hfits
          cases hr.symm.trans hx
          exact hsource
        have h' := @Inv.setRuntimeAt s r h runtime { runtime with running := true } hr rfl rfl (fun _ => rfl)
          (fun _ => ⟨hlive, hfits⟩)
        refine { h' with starts := fun t ht => ?_ }
        rcases mem_concat_cases ht with ht | rfl
        · exact h.starts t ht
        · exact hrow
      next => exact h
    next => exact h
  next => exact h

theorem Inv.leave (h : Inv s) (c : CallId) : Inv (s.leave c) := by
  unfold State.leave
  split
  next kind r hc => exact h.setCall hc trivial (by simp)
  next => exact h

theorem Inv.runEnd (h : Inv s) (r : RuntimeId) (left : Bool) : Inv (s.runEnd r left) := by
  unfold State.runEnd
  split
  next runtime hr =>
    split
    next hrunning =>
      have hbusy := h.busy r runtime hr (.inl hrunning)
      have h' := @Inv.setRuntimeAt s r h runtime { runtime with running := false, ends := runtime.ends + 1 } hr
        rfl rfl (fun _ => rfl) (fun _ => hbusy)
      exact { h' with }
    next => exact h
  next => exact h

theorem Inv.endApplied (h : Inv s) (r : RuntimeId) : Inv (s.endApplied r) := by
  unfold State.endApplied
  split
  next runtime hr =>
    refine h.setRuntimeAt hr rfl rfl (fun _ => rfl) fun hbusy => h.busy r runtime hr ?_
    rcases hbusy with hrunning | hends
    · exact .inl hrunning
    · exact .inr fun hzero => hends (by show runtime.ends - 1 = 0; rw [hzero])
  next => exact h

/-! ### Openings -/

theorem Inv.fits_of_busy (h : Inv s) (hbusy : s.isBusy r = true) : s.live = some r ∧ Fits s r := by
  rw [State.isBusy, State.isStreaming, Bool.or_eq_true, Bool.or_eq_true] at hbusy
  rcases hbusy with (hadmitting | hrunning) | hends
  · obtain ⟨d, hd, hphase⟩ := any_eq_true.mp hadmitting
    have hok := h.calls d hd
    rw [of_decide_eq_true hphase] at hok
    exact hok
  · obtain ⟨runtime, hr, hrunning⟩ := (Option.any_eq_true _ _).mp hrunning
    exact h.busy r runtime hr (.inl hrunning)
  · obtain ⟨runtime, hr, hends⟩ := (Option.any_eq_true _ _).mp hends
    exact h.busy r runtime hr (.inr (of_decide_eq_true hends))

theorem isBusy_of_streaming (h : s.isStreaming r = true) : s.isBusy r = true := by
  rw [State.isBusy, h, Bool.true_or]

theorem Inv.addOpening (h : Inv s) (hc : s.calls[c]? = some call)
    (hnone : s.opening = none) (hlive : ∀ r, s.live = some r → ¬ Fits s r) {runtimes : List Runtime}
    (hfits : ∀ r, Fits s r → Fits { s with runtimes } r)
    (hidle : ∀ (r : RuntimeId) runtime, runtimes[r]? = some runtime → runtime.running = false ∧ runtime.ends = 0)
    {opening : Opening} (hopening : OpeningOk { s with runtimes, live := none } (some opening)) :
    Inv ((State.newOpening { s with runtimes, live := none } opening).setCall c call (.joined s.openings.length)) := by
  have hnew : (s.openings ++ [opening])[s.openings.length]? = some opening := getElem?_concat_length
  refine ⟨fun r hr => (by cases hr), fun d hd => ?_, fun r runtime hr hbusy => ?_, fun o ho => ?_, fun o x ho hx => ?_,
    h.moves, h.starts, h.aborted⟩
  · rcases mem_or_eq_of_mem_set hd with hd | rfl
    · refine (h.calls d hd).congr hfits (fun r hr hf => absurd hf (hlive r hr)) rfl rfl fun o x ho => ?_
      exact getElem?_append_some ho _
    show OpeningOk _ (s.openings ++ [opening])[s.openings.length]?
    rw [hnew]
    exact hopening
  · obtain ⟨hrunning, hends⟩ := hidle r runtime hr
    rcases hbusy with hbusy | hbusy
    · cases hrunning.symm.trans hbusy
    · exact absurd hends hbusy
  · cases ho
    exact ⟨⟨call.kind, .joined s.openings.length⟩, mem_set (lt_of_getElem? hc) _, rfl⟩
  · rcases getElem?_concat_cases ho with ho | ⟨rfl, rfl⟩
    · cases hnone.symm.trans (h.unsettled o x ho hx).1
    · exact ⟨rfl, rfl⟩

theorem Inv.openSessionRuntime (h : Inv s) (hc : s.calls[c]? = some call) (hwaiting : call.phase = .waiting) :
    Inv (s.openSessionRuntime c call) := by
  have hjoined : ∀ o, s.opening = some o → call.phase ≠ .joined o := by
    intro o _ hphase
    cases hwaiting.symm.trans hphase
  unfold State.openSessionRuntime
  split
  next r hcurrent =>
    obtain ⟨hlive, hsource⟩ := Option.filter_eq_some_iff.mp hcurrent
    refine h.setCall hc ⟨hlive, ?_⟩ hjoined
    rcases Bool.eq_false_or_eq_true s.moving with hmoving | hmoving
    · obtain ⟨runtime, hr, -, hok⟩ := h.live r hlive
      rw [if_pos hmoving] at hok
      rw [hr] at hsource
      exact absurd (of_decide_eq_true hsource) hok.1
    · exact h.fits hmoving hlive
  next hcurrent =>
    have hnofit : ∀ r, s.live = some r → ¬ Fits s r := by
      rintro r hlive ⟨runtime, hr, hsource, -⟩
      rw [State.current, hlive, Option.filter_eq_none_iff] at hcurrent
      exact hcurrent r rfl (by rw [hr]; exact decide_eq_true hsource)
    have hidle : ∀ (r : RuntimeId) runtime, s.runtimes[r]? = some runtime →
        runtime.running = false ∧ runtime.ends = 0 := by
      intro r runtime hr
      by_contra hbusy
      have hbusy' : runtime.running = true ∨ runtime.ends ≠ 0 := by
        cases hrunning : runtime.running with
        | true => exact .inl rfl
        | false => exact .inr fun hends => hbusy ⟨hrunning, hends⟩
      obtain ⟨hlive, hfits⟩ := h.busy r runtime hr hbusy'
      exact hnofit r hlive hfits
    split
    next o ho =>
      obtain ⟨d, hd, hphase⟩ := h.opening o ho
      have hok := h.calls d hd
      rw [hphase] at hok
      exact h.setCall hc hok hjoined
    next hnone =>
      unfold State.startOpening
      split
      next r hlive =>
        split
        next hstreaming =>
          obtain ⟨-, hfits⟩ := h.fits_of_busy (isBusy_of_streaming hstreaming)
          exact absurd hfits (hnofit r hlive)
        next =>
          exact @Inv.addOpening s c call h hc hnone hnofit
            (s.runtimes.modify r fun runtime => { runtime with phase := .closing })
            (fun q hq => hq.modify r (fun _ => rfl) (fun _ => rfl))
            (fun q runtime hq => by
              obtain ⟨x, hx, rfl⟩ := getElem?_modify_cases hq
              split <;> exact hidle q x hx)
            (.closing s.row s.moves.length r) ⟨rfl, rfl⟩
      next hlive =>
        have h' := @Inv.addOpening s c call h hc hnone hnofit
          (s.runtimes ++ [⟨s.row, s.moves.length, .building, false, 0⟩])
          (fun q hq => hq.congr (fun x hx => ⟨x, getElem?_append_some hx _, rfl, rfl⟩) rfl rfl)
          (fun q runtime hq => by
            rcases getElem?_concat_cases hq with hq | ⟨-, rfl⟩
            · exact hidle q runtime hq
            · exact ⟨rfl, rfl⟩)
          (.building s.runtimes.length) ⟨_, getElem?_concat_length, rfl, rfl⟩
        rw [← hlive] at h'
        exact h'

theorem Inv.turn (h : Inv s) (c : CallId) : Inv (s.turn c) := by
  unfold State.turn
  split
  next call hc =>
    split
    next hturn =>
      refine h.openSessionRuntime hc ?_
      exact of_decide_eq_true (Bool.and_eq_true_iff.mp hturn).1
    next => exact h
  next => exact h

theorem Inv.openingDone (h : Inv s) (hsettled : (s.openings[o]?).any Opening.settled = true)
    (ho : s.opening = some o) : Inv { s with opening := none } := by
  refine { h with opening := fun _ ho => (by cases ho), unsettled := fun q x hq hx => ?_ }
  obtain ⟨hopening, -⟩ := h.unsettled q x hq hx
  cases ho.symm.trans hopening
  rw [hq] at hsettled
  cases hx.symm.trans hsettled

/-- No move waits once nothing is left to do that is short. -/
theorem Inv.not_moving (h : Inv s) (hquiet : s.quiet = true) : s.moving = false := by
  refine Bool.eq_false_iff.mpr fun hmoving => ?_
  obtain ⟨m, hm, hwaits⟩ := any_eq_true.mp hmoving
  obtain ⟨i, hi⟩ := getElem?_of_mem hm
  obtain ⟨hphase, -⟩ := (h.moves i m hi).waits hwaits
  have hready := all_eq_true.mp hquiet m hm
  rw [State.ready, hphase] at hready
  cases hready

/-- A runtime being built fits, for whoever it is built for waits for it. -/
theorem Inv.unsettled_ok (h : Inv s) {opening : Opening} (ho : s.openings[o]? = some opening)
    (hunsettled : opening.settled = false) : OpeningOk s (some opening) := by
  obtain ⟨hopening, -⟩ := h.unsettled o opening ho hunsettled
  obtain ⟨d, hd, hphase⟩ := h.opening o hopening
  have hok := h.calls d hd
  rw [hphase, CallOk, ho] at hok
  exact hok

theorem Inv.setOpening (h : Inv s) {opening opening' : Opening} (ho : s.openings[o]? = some opening)
    (hunsettled : opening.settled = false) {runtimes : List Runtime} {live : Option RuntimeId}
    (hfits : ∀ r, Fits s r → Fits { s with runtimes } r)
    (hbusy : ∀ (r : RuntimeId) runtime, runtimes[r]? = some runtime → runtime.running = false ∧ runtime.ends = 0)
    (hlive : ∀ r, live = some r → ∃ runtime, runtimes[r]? = some runtime ∧ LiveOk s runtime)
    (hopening : OpeningOk { s with runtimes, live } (some opening'))
    (hsettled : opening'.settled = false → live = none) :
    Inv { s with runtimes, live, openings := s.openings.set o opening' } := by
  obtain ⟨hcurrent, hnone⟩ := h.unsettled o opening ho hunsettled
  have hset : (s.openings.set o opening')[o]? = some opening' := getElem?_set_self (lt_of_getElem? ho)
  refine ⟨hlive, fun d hd => ?_, fun r runtime hr hrun => ?_, h.opening, fun q x hq hx => ?_, h.moves, h.starts,
    h.aborted⟩
  · have hok := h.calls d hd
    cases hphase : d.phase with
    | waiting | done => trivial
    | returned r | inside r =>
      rw [hphase] at hok
      cases hnone.symm.trans hok.1
    | joined q =>
      rw [hphase, CallOk] at hok
      show OpeningOk _ (s.openings.set o opening')[q]?
      by_cases heq : o = q
      · subst heq
        rw [hset]
        exact hopening
      · rw [getElem?_set_ne heq]
        exact hok.congr hfits (fun r hr _ => by cases hnone.symm.trans hr) rfl rfl
  · obtain ⟨hrunning, hends⟩ := hbusy r runtime hr
    rcases hrun with hrun | hrun
    · cases hrunning.symm.trans hrun
    · exact absurd hends hrun
  · rcases getElem?_set_cases hq with ⟨rfl, rfl⟩ | ⟨hne, hq⟩
    · exact ⟨hcurrent, hsettled hx⟩
    · obtain ⟨hopening', -⟩ := h.unsettled q x hq hx
      exact absurd (Option.some.inj (hcurrent.symm.trans hopening')) hne

theorem Inv.idle (h : Inv s) (hnone : s.live = none) {runtime : Runtime} (hr : s.runtimes[r]? = some runtime) :
    runtime.running = false ∧ runtime.ends = 0 := by
  have hnot : ¬ (runtime.running = true ∨ runtime.ends ≠ 0) := by
    intro hbusy
    cases hnone.symm.trans (h.busy r runtime hr hbusy).1
  rw [not_or, Bool.not_eq_true, not_not] at hnot
  exact hnot

theorem Inv.built (h : Inv s) (hquiet : s.quiet = true) (o : OpeningId) : Inv (s.built o) := by
  have hstill := h.not_moving hquiet
  unfold State.built
  split
  next r ho =>
    obtain ⟨runtime, hr, hsource, hepoch⟩ := h.unsettled_ok ho rfl
    have hnone := (h.unsettled o _ ho rfl).2
    have hopened : (s.runtimes.modify r fun runtime => { runtime with phase := .opened })[r]? =
        some { runtime with phase := .opened } := by
      rw [getElem?_modify, hr]
      simp
    refine @Inv.setOpening s o h _ (.resolved r) ho rfl
      (s.runtimes.modify r fun runtime => { runtime with phase := .opened }) (some r)
      (fun q hq => hq.modify r (fun _ => rfl) (fun _ => rfl)) (fun q x hq => ?_) (fun q hq => ?_)
      ⟨rfl, _, hopened, hsource, hepoch⟩ nofun
    · obtain ⟨y, hy, rfl⟩ := getElem?_modify_cases hq
      have hidle := h.idle hnone hy
      split <;> exact hidle
    cases hq
    refine ⟨_, hopened, rfl, ?_⟩
    rw [if_neg (by simp [hstill])]
    exact ⟨hsource, hepoch⟩
  next => exact h

theorem Inv.buildFailed (h : Inv s) (o : OpeningId) : Inv (s.buildFailed o) := by
  unfold State.buildFailed
  split
  next r ho =>
    have hnone := (h.unsettled o _ ho rfl).2
    have h' := @Inv.setOpening s o h _ .rejected ho rfl
      (s.runtimes.modify r fun runtime => { runtime with phase := .closed }) none
      (fun q hq => hq.modify r (fun _ => rfl) (fun _ => rfl))
      (fun q x hq => by
        obtain ⟨y, hy, rfl⟩ := getElem?_modify_cases hq
        have hidle := h.idle hnone hy
        split <;> exact hidle)
      nofun trivial (fun _ => rfl)
    rw [← hnone] at h'
    exact h'
  next => exact h

theorem moving_setMove {m : MoveId} {move move' : Move} (hm : s.moves[m]? = some move) (hold : move.waits = false)
    (hnew : move'.waits = false) : (s.moves.set m move').any Move.waits = s.moving := by
  rw [State.moving, any_set _ hm, any_of_getElem? _ hm, hold, hnew]

theorem Inv.setMove (h : Inv s) {m : MoveId} {move : Move} (hm : s.moves[m]? = some move) {phase : MovePhase}
    (hnew : Move.waits { move with phase } = false) (hlive : move.waits = true → s.live = none) :
    Inv (s.setMove m move phase) := by
  have hlength : (s.moves.set m { move with phase }).length = s.moves.length := length_set
  have hfits : ∀ r, Fits s r → Fits (s.setMove m move phase) r := by
    intro r hr
    exact hr.congr (fun x hx => ⟨x, hx, rfl, rfl⟩) rfl hlength
  refine { h with live := fun r hr => ?_, calls := fun d hd => ?_, busy := fun r x hx hbusy => ?_, moves := fun i x hx => ?_ }
  · obtain ⟨runtime, hruntime, hopened, hok⟩ := h.live r hr
    refine ⟨runtime, hruntime, hopened, ?_⟩
    have hold : move.waits = false := by
      refine Bool.eq_false_iff.mpr fun hwaits => ?_
      cases (hlive hwaits).symm.trans hr
    have hmoving : (s.setMove m move phase).moving = s.moving := moving_setMove hm hold hnew
    rw [hmoving, State.setMove, hlength]
    exact hok
  · exact (h.calls d hd).congr hfits (fun _ hr _ => hr) rfl hlength (fun _ _ ho => ho)
  · exact ⟨(h.busy r x hx hbusy).1, hfits r (h.busy r x hx hbusy).2⟩
  · rw [State.setMove, hlength]
    rcases getElem?_set_cases hx with ⟨rfl, rfl⟩ | ⟨-, hx⟩
    · have hok := h.moves m move hm
      exact ⟨hok.epoch, hok.atRest, fun hwaits => by cases hnew.symm.trans hwaits⟩
    · exact h.moves i x hx

theorem Inv.afterClosed (h : Inv s) (r : RuntimeId) : Inv (s.afterClosed r) := by
  unfold State.afterClosed
  split
  next o _ =>
    split
    next source epoch existing ho =>
      obtain ⟨rfl, rfl⟩ := h.unsettled_ok ho rfl
      have hnone := (h.unsettled o _ ho rfl).2
      have hnew : (s.runtimes ++ [(⟨s.row, s.moves.length, .building, false, 0⟩ : Runtime)])[s.runtimes.length]? =
          some ⟨s.row, s.moves.length, .building, false, 0⟩ := getElem?_concat_length
      have h' := @Inv.setOpening s o h _ (.building s.runtimes.length) ho rfl
        (s.runtimes ++ [⟨s.row, s.moves.length, .building, false, 0⟩]) none
        (fun q hq => hq.congr (fun x hx => ⟨x, getElem?_append_some hx _, rfl, rfl⟩) rfl rfl)
        (fun q x hq => by
          rcases getElem?_concat_cases hq with hq | ⟨-, rfl⟩
          · exact h.idle hnone hq
          · exact ⟨rfl, rfl⟩)
        nofun ⟨_, hnew, rfl, rfl⟩ (fun _ => rfl)
      rw [← hnone] at h'
      exact h'
    next => exact h
  next =>
    split
    next i hi =>
      split
      next move hm =>
        obtain ⟨hlt, hclosing, -⟩ := findIdx?_eq_some_iff_getElem.mp hi
        have hold : move.waits = false := by
          rw [getElem?_eq_getElem hlt] at hm
          cases hm
          rw [Move.waits, of_decide_eq_true hclosing]
        exact h.setMove hm rfl fun hwaits => by cases hold.symm.trans hwaits
      next => exact h
    next => exact h

theorem Inv.closed (h : Inv s) (r : RuntimeId) : Inv (s.closed r) := by
  unfold State.closed
  split
  next runtime hr =>
    split
    next hclosing =>
      have hphase : runtime.phase = .closing := of_decide_eq_true (Bool.and_eq_true_iff.mp hclosing).1
      have hnotlive : s.live ≠ some r := by
        intro hlive
        obtain ⟨x, hx, hopened, -⟩ := h.live r hlive
        cases hr.symm.trans hx
        cases hphase.symm.trans hopened
      have hrunning : runtime.running = false := by
        refine Bool.eq_false_iff.mpr fun hrunning => ?_
        exact hnotlive (h.busy r runtime hr (.inl hrunning)).1
      have h' := @Inv.setRuntimeAt s r h runtime { runtime with phase := .closed, running := false } hr rfl rfl
        (fun hlive => absurd hlive hnotlive) (fun hbusy => by
          rcases hbusy with hbusy | hbusy
          · cases hbusy
          · exact h.busy r runtime hr (.inr hbusy))
      refine Inv.afterClosed ?_ r
      refine { h' with aborted := ?_ }
      show s.aborted + (if runtime.running = true then 1 else 0) = 0
      rw [hrunning, h.aborted]
      rfl
    next => exact h
  next => exact h

/-! ### Moves -/

theorem Inv.takeOut (h : Inv s) (hlive : ∀ q, s.live = some q → ¬ Fits s q) : Inv (s.takeOut r) := by
  have hfits : ∀ q, Fits s q → Fits (s.takeOut r) q := fun q hq => hq.modify r (fun _ => rfl) (fun _ => rfl)
  refine ⟨fun q hq => (by cases hq), fun d hd => ?_, fun q x hx hbusy => ?_, h.opening, fun o x ho hx => ?_, h.moves,
    h.starts, h.aborted⟩
  · refine (h.calls d hd).congr hfits (fun q hq hf => absurd hf (hlive q hq)) rfl rfl (fun _ _ ho => ho)
  · obtain ⟨y, hy, rfl⟩ := getElem?_modify_cases hx
    have hold : y.running = true ∨ y.ends ≠ 0 := by
      split at hbusy <;> exact hbusy
    obtain ⟨hq, hf⟩ := h.busy q y hy hold
    exact absurd hf (hlive q hq)
  · exact ⟨(h.unsettled o x ho hx).1, rfl⟩

theorem Inv.close (h : Inv s) {m : MoveId} {move : Move} (hm : s.moves[m]? = some move) : Inv (s.close m move) := by
  unfold State.close
  split
  next hready =>
    have hwaits : move.waits = true := by
      unfold State.ready at hready
      unfold Move.waits
      split at hready
      next hphase =>
        rw [hphase]
      next hphase =>
        rw [hphase]
      · cases hready
    have hmoving : s.moving = true := any_eq_true.mpr ⟨move, mem_of_getElem? hm, hwaits⟩
    split
    next r _ =>
      have h' : Inv (s.takeOut r) := h.takeOut fun q hq => h.not_fits hmoving hq
      exact h'.setMove (m := m) hm rfl fun _ => rfl
    next hnone => exact h.setMove hm rfl fun _ => hnone
  next => exact h

theorem Inv.rest (h : Inv s) (hidle : s.sessionBusy = false)
    (hresume : ∀ c ∈ s.calls, c.kind = .resume → c.phase.arrived = true) :
    (∀ r, s.isBusy r = false) ∧ ∀ c ∈ s.calls, c.phase = .done := by
  rw [State.sessionBusy, Bool.or_eq_false_iff, Bool.or_eq_false_iff] at hidle
  obtain ⟨⟨hordered, hlive⟩, -⟩ := hidle
  have hquiet : ∀ r, s.isBusy r = false := by
    intro r
    refine Bool.eq_false_iff.mpr fun hbusy => ?_
    rw [(h.fits_of_busy hbusy).1, Option.any_some, hbusy] at hlive
    cases hlive
  refine ⟨hquiet, fun c hc => ?_⟩
  cases hkind : c.kind with
  | ordered =>
    have hnot := any_eq_false.mp hordered c hc
    rw [hkind] at hnot
    simpa using hnot
  | resume =>
    have harrived := hresume c hc hkind
    cases hphase : c.phase with
    | waiting | returned | joined =>
      rw [hphase] at harrived
      cases harrived
    | inside r =>
      have hadmitting : s.admitting r = true := any_eq_true.mpr ⟨c, hc, decide_eq_true hphase⟩
      have hstreaming : s.isStreaming r = true := by rw [State.isStreaming, hadmitting, Bool.true_or]
      cases (isBusy_of_streaming hstreaming).symm.trans (hquiet r)
    | done => rfl

theorem Inv.move (h : Inv s) {target : SourceId} (hok : Undisturbed s (.move target)) : Inv (s.move target) := by
  unfold State.move
  split
  next => exact h
  next hmoves =>
    rw [Bool.or_eq_true, not_or, decide_eq_true_iff, Bool.not_eq_true] at hmoves
    obtain ⟨htarget, hidle⟩ := hmoves
    obtain ⟨hresume, hstill⟩ := hok htarget hidle
    obtain ⟨hquiet, hdone⟩ := h.rest hidle hresume
    have hnone : s.opening = none := by
      cases ho : s.opening with
      | none => rfl
      | some o =>
        obtain ⟨c, hc, hphase⟩ := h.opening o ho
        cases (hdone c hc).symm.trans hphase
    have hrest : s.atRest = true := by
      rw [State.atRest, Bool.and_eq_true]
      refine ⟨all_eq_true.mpr fun c hc => decide_eq_true (hdone c hc), all_eq_true.mpr fun r _ => ?_⟩
      rw [hquiet r]
      rfl
    have hmoving : (s.moves ++ [(⟨s.moves.length + 1, .waiting s.opening, s.atRest⟩ : Move)]).any Move.waits = true := by
      rw [any_append]
      exact Bool.or_true _
    have hnobody : ∀ (r : RuntimeId) runtime, s.runtimes[r]? = some runtime →
        ¬ (runtime.running = true ∨ runtime.ends ≠ 0) := by
      intro r runtime hr hbusy
      have hnot := hquiet r
      rw [State.isBusy, State.isStreaming, hr, Bool.or_eq_false_iff, Bool.or_eq_false_iff] at hnot
      rcases hbusy with hbusy | hbusy
      · cases hbusy.symm.trans hnot.1.2
      · exact hbusy (by simpa using hnot.2)
    refine ⟨fun r hr => ?_, fun c hc => ?_, fun r runtime hr hbusy => absurd hbusy (hnobody r runtime hr),
      fun o ho => (by cases hnone.symm.trans ho), h.unsettled, fun i m hm => ?_, h.starts, h.aborted⟩
    · obtain ⟨runtime, hruntime, hopened, hplace⟩ := h.live r hr
      rw [if_neg (by simp [hstill])] at hplace
      refine ⟨runtime, hruntime, hopened, ?_⟩
      refine (if_pos hmoving).mpr ?_
      rw [length_append]
      exact ⟨fun heq => htarget (hplace.1.symm.trans heq), congrArg (· + 1) hplace.2⟩
    · rw [hdone c hc]
      trivial
    · rw [length_append, length_singleton]
      rcases getElem?_concat_cases hm with hm | ⟨rfl, rfl⟩
      · have hold := h.moves i m hm
        refine ⟨hold.epoch, hold.atRest, fun hwaits => ?_⟩
        cases (any_eq_true.mpr ⟨m, mem_of_getElem? hm, hwaits⟩ : s.moving = true).symm.trans hstill
      · exact ⟨rfl, hrest, fun _ => ⟨by rw [hnone], rfl⟩⟩

theorem Inv.resume (h : Inv s) :
    Inv (State.openSessionRuntime { s with calls := s.calls ++ [⟨.resume, .waiting⟩] } s.calls.length
      ⟨.resume, .waiting⟩) :=
  (h.addCall .resume).openSessionRuntime getElem?_concat_length rfl

theorem Inv.step (h : Inv s) {e : Event} (hok : Undisturbed s e) : Inv (step s e) := by
  cases e with
  | submit => exact h.addCall .ordered
  | resume => exact h.resume
  | turn c => exact h.turn c
  | built o =>
    simp only [SessionMoves.step]
    split
    next hquiet => exact h.built hquiet o
    next => exact h
  | buildFailed o =>
    simp only [SessionMoves.step]
    split
    next => exact h.buildFailed o
    next => exact h
  | openingDone o =>
    simp only [SessionMoves.step]
    split
    next hdone =>
      rw [Bool.and_eq_true, decide_eq_true_iff] at hdone
      exact h.openingDone hdone.2 hdone.1
    next => exact h
  | deliver c =>
    simp only [SessionMoves.step]
    split
    next call hc => exact h.deliver hc
    next => exact h
  | start c => exact h.start c
  | leave c => exact h.leave c
  | runEnd r left => exact h.runEnd r left
  | endApplied r => exact h.endApplied r
  | move target => exact h.move hok
  | close m =>
    simp only [SessionMoves.step]
    split
    next move hm => exact h.close hm
    next => exact h
  | closed r =>
    simp only [SessionMoves.step]
    split
    next => exact h.closed r
    next => exact h

theorem Inv.init (row : SourceId) (pending : Bool) : Inv (.init row pending) := by
  constructor <;> simp [State.init]

end

/-! ## A session runs in one place -/

section

variable (s : State)

def State.gets : CallPhase → Option RuntimeId
  | .returned r | .inside r => some r
  | .joined o =>
    match s.openings[o]? with
    | some (.resolved r) => some r
    | _ => none
  | _ => none

/-- The moves that succeeded found the session at rest and cut no run short, each run started where the row
was, and what is registered or handed to a caller is no older than any move that has resolved. -/
structure OnePlace : Prop where
  atRest : ∀ m ∈ s.moves, m.atRest = true
  aborted : s.aborted = 0
  starts : ∀ t ∈ s.starts, t.source = t.row
  registered : ∀ m ∈ s.moves, m.phase = .resolved → ∀ r, s.live = some r →
    ∃ runtime, s.runtimes[r]? = some runtime ∧ m.epoch ≤ runtime.epoch
  handed : ∀ m ∈ s.moves, m.phase = .resolved → ∀ c ∈ s.calls, ∀ r, s.gets c.phase = some r →
    ∃ runtime, s.runtimes[r]? = some runtime ∧ m.epoch ≤ runtime.epoch

end

section

variable {s : State} {r : RuntimeId}

theorem Inv.epoch_le (h : Inv s) {m : Move} (hm : m ∈ s.moves) : m.epoch ≤ s.moves.length := by
  obtain ⟨i, hi⟩ := getElem?_of_mem hm
  rw [(h.moves i m hi).epoch]
  exact lt_of_getElem? hi

theorem Inv.epoch_lt (h : Inv s) {m : Move} (hm : m ∈ s.moves) (hresolved : m.phase = .resolved)
    (hmoving : s.moving = true) : m.epoch < s.moves.length := by
  obtain ⟨w, hw, hwaits⟩ := any_eq_true.mp hmoving
  obtain ⟨i, hi⟩ := getElem?_of_mem hm
  obtain ⟨j, hj⟩ := getElem?_of_mem hw
  obtain ⟨-, hlast⟩ := (h.moves j w hj).waits hwaits
  rw [(h.moves i m hi).epoch]
  have hle := lt_of_getElem? hi
  refine Nat.lt_of_le_of_ne hle fun heq => ?_
  obtain rfl : i = j := Nat.succ.inj (heq.trans hlast.symm)
  cases hi.symm.trans hj
  rw [Move.waits, hresolved] at hwaits
  cases hwaits

theorem Inv.gets (h : Inv s) {c : Call} (hc : c ∈ s.calls) (hgets : s.gets c.phase = some r) : Fits s r := by
  have hok := h.calls c hc
  cases hphase : c.phase with
  | waiting | done =>
    rw [hphase] at hgets
    cases hgets
  | returned q | inside q =>
    rw [hphase] at hgets hok
    cases hgets
    exact hok.2
  | joined o =>
    rw [hphase] at hgets hok
    rw [State.gets] at hgets
    split at hgets
    next q ho =>
      cases hgets
      rw [CallOk, ho] at hok
      exact hok.2
    next => cases hgets

theorem Inv.onePlace (h : Inv s) : OnePlace s := by
  refine ⟨fun m hm => ?_, h.aborted, h.starts, fun m hm hresolved r hr => ?_, fun m hm hresolved c hc r hr => ?_⟩
  · obtain ⟨i, hi⟩ := getElem?_of_mem hm
    exact (h.moves i m hi).atRest
  · obtain ⟨runtime, hruntime, -, hok⟩ := h.live r hr
    refine ⟨runtime, hruntime, ?_⟩
    rcases Bool.eq_false_or_eq_true s.moving with hmoving | hmoving
    · rw [if_pos hmoving] at hok
      have hlt := h.epoch_lt hm hresolved hmoving
      rw [← hok.2] at hlt
      exact Nat.le_of_lt_succ hlt
    · rw [if_neg (by simp [hmoving])] at hok
      rw [hok.2]
      exact h.epoch_le hm
  · obtain ⟨runtime, hruntime, -, hepoch⟩ := h.gets hc hr
    refine ⟨runtime, hruntime, ?_⟩
    rw [hepoch]
    exact h.epoch_le hm

end

theorem one_place (row : SourceId) (pending : Bool) (es : List Event)
    (h : Along step Undisturbed (.init row pending) es) : OnePlace (exec step (.init row pending) es) :=
  (h.invariant Inv (fun _ _ hok hinv => hinv.step hok) (Inv.init row pending)).onePlace

/-- A call in order opens the runtime, uses it and leaves; nothing runs, and an operation is pending. -/
def opened : List Event := [.submit, .turn 0, .built 0, .openingDone 0, .deliver 0, .leave 0]

def movedAtRest : List Event :=
  opened ++ [.move 1, .close 0, .closed 0, .submit, .turn 1, .built 1, .openingDone 1, .deliver 1, .start 1]

/-- A resume that has its runtime and is not in it yet, a move, and then both go on. -/
def movedUnderResume : List Event := opened ++ [.resume, .move 1, .deliver 1, .close 0, .start 1, .leave 1, .closed 0]

/-- The resumed run starts at the source the session has left, and the move cuts it short. -/
theorem resumed_and_moved : (exec step (.init 0 true) movedUnderResume).starts = [⟨0, 1⟩] ∧
    (exec step (.init 0 true) movedUnderResume).aborted = 1 ∧
    ¬ OnePlace (exec step (.init 0 true) movedUnderResume) := by
  have haborted : (exec step (.init 0 true) movedUnderResume).aborted = 1 := by decide
  refine ⟨by decide, haborted, fun h => ?_⟩
  cases haborted.symm.trans h.aborted

instance (s : State) (e : Event) : Decidable (Undisturbed s e) := by
  unfold Undisturbed
  split <;> infer_instance

theorem one_place_movedAtRest : OnePlace (exec step (.init 0 true) movedAtRest) ∧
    (exec step (.init 0 true) movedAtRest).starts = [⟨1, 1⟩] :=
  ⟨one_place 0 true movedAtRest (by decide), by decide⟩

end Reins.SessionMoves
