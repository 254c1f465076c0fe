import Reins.Lib.Places
import Reins.Lib.Run

/-!
# The running app (`backend/src/server-process.ts`, `dev-watch.ts`)

The process loads an app, stops the one that runs and starts the loaded one in its place. It does so at its
start and at each reload, and reloads do not wait for each other. `running` is cleared before the app's
`stop` is awaited, and set when the next has started; the exit takes what it finds there.
-/

namespace Reins.RunningApp

open Places Run List Option

abbrev AppId := Nat
abbrev LoadId := Nat

/-- A started app, up to what its `stop` settled to. -/
inductive AppPhase
  | started
  | stopping
  | stopped (failed : Bool)
  deriving DecidableEq

structure App where
  phase : AppPhase
  /-- Calls of `stop`. -/
  stops : Nat
  deriving DecidableEq

inductive Load
  | importing
  | stopping (previous : AppId)
  | starting
  | settled
  deriving DecidableEq

/-- It took the running app's place, and has yet to fill it. -/
def Load.between : Load → Bool
  | .stopping _ | .starting => true
  | .importing | .settled => false

inductive Exit
  | none
  | suspending
  | stopping (app : Option AppId)
  | exited (app : Option AppId)
  deriving DecidableEq

def Exit.app : Exit → Option AppId
  | .none | .suspending => .none
  | .stopping app | .exited app => app

structure State where
  running : Option AppId
  apps : List App
  loads : List Load
  exit : Exit
  /-- The process has its "exit" and signal handlers. -/
  handlers : Bool
  /-- Apps that started once the exit had taken the running one. -/
  late : Nat
  deriving DecidableEq

def State.init : State :=
  { running := none, apps := [], loads := [.importing], exit := .none, handlers := false, late := 0 }

/-- `stop` is called. -/
def App.stop (app : App) : App :=
  { phase := if app.phase = .started then .stopping else app.phase, stops := app.stops + 1 }

def State.stop (s : State) (a : AppId) : State := { s with apps := s.apps.modify a App.stop }

/-! ## `loadApp` -/

/-- The first load's failure ends the process, which has no "exit" handler yet. -/
def State.fail (s : State) (i : LoadId) : State :=
  { s with loads := s.loads.set i .settled, exit := if i = 0 then .exited s.exit.app else s.exit }

def State.imported (s : State) (i : LoadId) : State :=
  match s.loads[i]? with
  | some .importing =>
    match s.running with
    | none => { s with loads := s.loads.set i .starting }
    | some a => { s.stop a with running := none, loads := s.loads.set i (.stopping a) }
  | _ => s

def State.importFails (s : State) (i : LoadId) : State :=
  match s.loads[i]? with
  | some .importing => s.fail i
  | _ => s

/-- The previous app's `stop` has settled, and the load goes on. -/
def State.goOn (s : State) (i : LoadId) : State :=
  match s.loads[i]? with
  | some (.stopping a) =>
    match (s.apps[a]?).map App.phase with
    | some (.stopped failed) => if failed then s.fail i else { s with loads := s.loads.set i .starting }
    | _ => s
  | _ => s

/-- `start` has resolved. -/
def State.started (s : State) (i : LoadId) : State :=
  match s.loads[i]? with
  | some .starting =>
    { s with
      running := some s.apps.length
      apps := s.apps ++ [{ phase := .started, stops := 0 }]
      loads := s.loads.set i .settled
      handlers := s.handlers || i == 0
      late := match s.exit with
        | .stopping _ => s.late + 1
        | _ => s.late }
  | _ => s

def State.startFails (s : State) (i : LoadId) : State :=
  match s.loads[i]? with
  | some .starting => s.fail i
  | _ => s

/-! ## `exitProcess` -/

def State.exitProcess (s : State) : State :=
  match s.exit with
  | .none => { s with exit := .suspending }
  | _ => s

def State.stopRunningApp (s : State) : State :=
  match s.exit with
  | .suspending =>
    match s.running with
    | none => { s with exit := .stopping none }
    | some a => { s.stop a with running := none, exit := .stopping (some a) }
  | _ => s

/-- `process.exit`, once the app has stopped or long enough was waited for it; the "exit" handler stops what
runs. -/
def State.exits (s : State) (timedOut : Bool) : State :=
  match s.exit with
  | .stopping app =>
    if timedOut || app.all fun a => ((s.apps[a]?).map App.phase).any (· matches .stopped _) then
      let s' := { s with exit := .exited app }
      match s.running with
      | some a => if s.handlers then s'.stop a else s'
      | none => s'
    else s
  | _ => s

inductive Event
  | reload
  | imported (i : LoadId)
  | importFails (i : LoadId)
  | stopSettles (a : AppId) (failed : Bool)
  | goOn (i : LoadId)
  | started (i : LoadId)
  | startFails (i : LoadId)
  | exitProcess
  | stopRunningApp
  | exits (timedOut : Bool)
  deriving DecidableEq

def State.stopSettles (s : State) (a : AppId) (failed : Bool) : State :=
  if (s.apps[a]?).map App.phase = some .stopping then
    { s with apps := s.apps.modify a fun app => { app with phase := .stopped failed } }
  else s

def State.act (s : State) : Event → State
  | .reload => { s with loads := s.loads ++ [.importing] }
  | .imported i => s.imported i
  | .importFails i => s.importFails i
  | .stopSettles a failed => s.stopSettles a failed
  | .goOn i => s.goOn i
  | .started i => s.started i
  | .startFails i => s.startFails i
  | .exitProcess => s.exitProcess
  | .stopRunningApp => s.stopRunningApp
  | .exits timedOut => s.exits timedOut

/-- Nothing happens once the process has exited. -/
def step (s : State) (e : Event) : State :=
  match s.exit with
  | .exited _ => s
  | _ => s.act e

/-! ## At most one app -/

def State.Alive (s : State) (a : AppId) : Prop :=
  ∃ app, s.apps[a]? = some app ∧ ∀ failed, app.phase ≠ .stopped failed

/-- At most one app runs; every other was told to stop once, all by the exit; and none starts after it. -/
structure OneApp (s : State) : Prop where
  one : ∀ a b, s.Alive a → s.Alive b → a = b
  stops : ∀ (a : AppId) (app : App), s.apps[a]? = some app → app.stops = if s.running = some a then 0 else 1
  exited : ∀ app, s.exit = .exited app → s.running = none
  late : s.late = 0

def Orderly (s : State) : Event → Prop
  | .imported i =>
    s.loads[i]? = some .importing → (∀ l ∈ s.loads, l.between = false) ∧ (s.exit = .none ∨ s.exit = .suspending)
  | .stopRunningApp => s.exit = .suspending → ∀ l ∈ s.loads, l.between = false
  | .importFails i => i = 0 → s.running = none
  | _ => True

instance (s : State) (e : Event) : Decidable (Orderly s e) := by
  cases e <;> unfold Orderly <;> infer_instance

/-! ## The invariant -/

structure Inv (s : State) : Prop where
  between : ∀ (i j : LoadId) (l l' : Load), s.loads[i]? = some l → s.loads[j]? = some l' → l.between = true →
    l'.between = true → i = j
  free : ∀ l ∈ s.loads, l.between = true → s.running = none ∧ s.exit.app = none ∧ ∀ app, s.exit ≠ .stopping app
  stops : ∀ (a : AppId) (app : App), s.apps[a]? = some app → app.stops = if s.running = some a then 0 else 1
  running : ∀ a, s.running = some a → (s.apps[a]?).map App.phase = some .started
  alive : ∀ a, s.Alive a → s.running = some a ∨ Load.stopping a ∈ s.loads ∨ s.exit.app = some a
  taken : s.exit = .none ∨ s.exit = .suspending ∨ s.running = none
  late : s.late = 0

section

variable {s : State} {i : LoadId} {a b : AppId}

theorem Inv.init : Inv .init := by
  constructor
  · intro i j l l' hl _ hbetween
    rw [mem_singleton.mp (mem_of_getElem? hl)] at hbetween
    cases hbetween
  · intro l hl hbetween
    rw [mem_singleton.mp hl] at hbetween
    cases hbetween
  · exact nofun
  · exact nofun
  · intro a ha
    obtain ⟨app, happ, -⟩ := ha
    cases happ
  · exact .inl rfl
  · rfl

/-! ### A call of `stop` -/

theorem getElem?_stop (s : State) (a b : AppId) :
    (s.stop a).apps[b]? = if a = b then (s.apps[b]?).map App.stop else s.apps[b]? := by
  show (s.apps.modify a App.stop)[b]? = _
  rw [getElem?_modify]
  split
  · rfl
  · cases s.apps[b]? <;> rfl

theorem alive_of_stop (h : (s.stop a).Alive b) : s.Alive b := by
  obtain ⟨app, happ, hphase⟩ := h
  rw [getElem?_stop] at happ
  split at happ
  · obtain ⟨app', happ', rfl⟩ := map_eq_some_iff.mp happ
    refine ⟨app', happ', ?_⟩
    intro failed hstopped
    apply hphase failed
    unfold App.stop
    rw [hstopped]
    rfl
  · exact ⟨app, happ, hphase⟩

theorem Inv.stops_stop (h : Inv s) (hrunning : s.running = some a) {app : App}
    (happ : (s.stop a).apps[b]? = some app) : app.stops = 1 := by
  rw [getElem?_stop] at happ
  split at happ
  next heq =>
    obtain ⟨app', happ', rfl⟩ := map_eq_some_iff.mp happ
    have hstops := h.stops b app' happ'
    rw [hrunning, if_pos (congrArg some heq)] at hstops
    show app'.stops + 1 = 1
    rw [hstops]
  next hne =>
    have hstops := h.stops b app happ
    rw [hrunning, if_neg fun heq => hne (some_inj.mp heq)] at hstops
    exact hstops

/-! ### Loads -/

/-- A load that goes from its import, or from one wait to the next, takes no other's place. -/
theorem Inv.between_set (h : Inv s) {l : Load}
    (hl : l.between = true → ∀ j l', s.loads[j]? = some l' → l'.between = true → i = j) (j k : LoadId)
    (m m' : Load) (hm : (s.loads.set i l)[j]? = some m) (hm' : (s.loads.set i l)[k]? = some m')
    (hbetween : m.between = true) (hbetween' : m'.between = true) : j = k := by
  rcases getElem?_set_cases hm with ⟨rfl, rfl⟩ | ⟨-, hold⟩
  · rcases getElem?_set_cases hm' with ⟨rfl, -⟩ | ⟨-, hold'⟩
    · rfl
    · exact hl hbetween k m' hold' hbetween'
  rcases getElem?_set_cases hm' with ⟨rfl, rfl⟩ | ⟨-, hold'⟩
  · exact (hl hbetween' j m hold hbetween).symm
  · exact h.between j k m m' hold hold' hbetween hbetween'

theorem mem_set_of_ne {l : Load} (hl : l ∈ s.loads) (hi : s.loads[i]? ≠ some l) (l' : Load) :
    l ∈ s.loads.set i l' := by
  obtain ⟨j, hj⟩ := mem_iff_getElem?.mp hl
  apply mem_of_getElem? (i := j)
  rw [getElem?_set_ne, hj]
  rintro rfl
  exact hi hj

theorem Inv.fail (h : Inv s) {l : Load} (hl : s.loads[i]? = some l) (hdead : ∀ a, l = .stopping a → ¬ s.Alive a)
    (hfirst : i = 0 → s.running = none) : Inv (s.fail i) := by
  have happ : (s.fail i).exit.app = s.exit.app := by
    show (if i = 0 then Exit.exited s.exit.app else s.exit).app = _
    split <;> rfl
  constructor
  · exact h.between_set nofun
  · intro m hm hbetween
    rcases mem_or_eq_of_mem_set hm with hm | rfl
    · obtain ⟨hrunning, hexit, hnot⟩ := h.free m hm hbetween
      refine ⟨hrunning, happ.trans hexit, ?_⟩
      intro app hstopping
      have hstopping : (if i = 0 then Exit.exited s.exit.app else s.exit) = .stopping app := hstopping
      split at hstopping
      · cases hstopping
      · exact hnot app hstopping
    · cases hbetween
  · exact h.stops
  · exact h.running
  · intro a halive
    rw [happ]
    rcases h.alive a halive with hrunning | hstopping | hexit
    · exact .inl hrunning
    · refine .inr (.inl (mem_set_of_ne hstopping ?_ _))
      intro hat
      rw [hl] at hat
      exact hdead a (some_inj.mp hat) halive
    · exact .inr (.inr hexit)
  · show (if i = 0 then Exit.exited s.exit.app else s.exit) = .none ∨
      (if i = 0 then Exit.exited s.exit.app else s.exit) = .suspending ∨ s.running = none
    split
    next hzero =>
      exact .inr (.inr (hfirst hzero))
    · exact h.taken
  · exact h.late

theorem Inv.imported (h : Inv s) (hok : Orderly s (.imported i)) : Inv (s.imported i) := by
  unfold State.imported
  split
  next himporting =>
    obtain ⟨hnone, hexit⟩ := hok himporting
    have happ : s.exit.app = none := by rcases hexit with hexit | hexit <;> rw [hexit] <;> rfl
    have hnot : ∀ app, s.exit ≠ .stopping app := by
      intro app hstopping
      rw [hstopping] at hexit
      rcases hexit with hexit | hexit <;> cases hexit
    have hdead : ∀ a, Load.stopping a ∉ s.loads := by
      intro a ha
      have hbetween := hnone _ ha
      cases hbetween
    have hother : ∀ (l : Load) (j : LoadId) (l' : Load), s.loads[j]? = some l' → l'.between = true → i = j := by
      intro l j l' hl' hbetween
      rw [hnone l' (mem_of_getElem? hl')] at hbetween
      cases hbetween
    split
    next hrunning =>
      refine { h with between := ?_, free := ?_, alive := ?_ }
      · exact h.between_set fun _ => hother .starting
      · intro m _ _
        exact ⟨hrunning, happ, hnot⟩
      · intro a halive
        rcases h.alive a halive with hrun | hstopping | hexit
        · exact .inl hrun
        · exact absurd hstopping (hdead a)
        · exact .inr (.inr hexit)
    next a hrunning =>
      constructor
      · exact h.between_set fun _ => hother (.stopping a)
      · intro m _ _
        exact ⟨rfl, happ, hnot⟩
      · intro b app hb
        rw [h.stops_stop hrunning hb]
        rfl
      · exact nofun
      · intro b halive
        rcases h.alive b (alive_of_stop (s := s) (a := a) halive) with hrun | hstopping | hexit
        · cases hrunning.symm.trans hrun
          exact .inr (.inl (mem_set (lt_of_getElem? himporting) _))
        · exact absurd hstopping (hdead b)
        · exact .inr (.inr hexit)
      · exact .inr (.inr rfl)
      · exact h.late
  · exact h

theorem Inv.importFails (h : Inv s) (hok : Orderly s (.importFails i)) : Inv (s.importFails i) := by
  unfold State.importFails
  split
  next himporting =>
    apply h.fail himporting
    · exact nofun
    · exact hok
  · exact h

theorem not_alive_of_stopped {failed : Bool} (h : (s.apps[a]?).map App.phase = some (.stopped failed)) :
    ¬ s.Alive a := by
  rintro ⟨app, happ, hphase⟩
  rw [happ] at h
  exact hphase failed (some_inj.mp h)

theorem Inv.goOn (h : Inv s) (i : LoadId) : Inv (s.goOn i) := by
  unfold State.goOn
  split
  next a hstopping =>
    split
    next failed hstopped =>
      have hmem := mem_of_getElem? hstopping
      obtain ⟨hrunning, hexit, hnot⟩ := h.free _ hmem rfl
      have hdead := not_alive_of_stopped hstopped
      split
      · apply h.fail hstopping
        · intro b hb
          rw [← Load.stopping.inj hb]
          exact hdead
        · intro _
          exact hrunning
      · refine { h with between := ?_, free := ?_, alive := ?_ }
        · apply h.between_set
          intro _ j l' hl' hbetween
          exact h.between i j _ l' hstopping hl' rfl hbetween
        · intro m hm hbetween
          exact ⟨hrunning, hexit, hnot⟩
        · intro b halive
          rcases h.alive b halive with hrun | hload | hexit
          · exact .inl hrun
          · refine .inr (.inl (mem_set_of_ne hload ?_ _))
            intro hat
            rw [hstopping] at hat
            rw [Load.stopping.inj (some_inj.mp hat)] at hdead
            exact hdead halive
          · exact .inr (.inr hexit)
    · exact h
  · exact h

theorem Inv.startFails (h : Inv s) (i : LoadId) : Inv (s.startFails i) := by
  unfold State.startFails
  split
  next hstarting =>
    apply h.fail hstarting
    · exact nofun
    · intro _
      exact (h.free _ (mem_of_getElem? hstarting) rfl).1
  · exact h

theorem Inv.reload (h : Inv s) : Inv { s with loads := s.loads ++ [.importing] } := by
  refine { h with between := ?_, free := ?_, alive := ?_ }
  · intro i j l l' hl hl' hbetween hbetween'
    rcases getElem?_concat_cases hl with hold | ⟨-, rfl⟩
    · rcases getElem?_concat_cases hl' with hold' | ⟨-, rfl⟩
      · exact h.between i j l l' hold hold' hbetween hbetween'
      · cases hbetween'
    · cases hbetween
  · intro l hl hbetween
    rcases mem_append.mp hl with hl | hl
    · exact h.free l hl hbetween
    · rw [mem_singleton.mp hl] at hbetween
      cases hbetween
  · intro a halive
    rcases h.alive a halive with hrunning | hload | hexit
    · exact .inl hrunning
    · exact .inr (.inl (mem_append_left _ hload))
    · exact .inr (.inr hexit)

theorem getElem?_settles (s : State) (a b : AppId) (failed : Bool) :
    (s.apps.modify a fun app => { app with phase := .stopped failed })[b]? =
      if a = b then (s.apps[b]?).map fun app => { app with phase := .stopped failed } else s.apps[b]? := by
  rw [getElem?_modify]
  split
  · rfl
  · cases s.apps[b]? <;> rfl

theorem Inv.stopSettles (h : Inv s) (a : AppId) (failed : Bool) : Inv (s.stopSettles a failed) := by
  unfold State.stopSettles
  split
  next hstopping =>
    refine { h with stops := ?_, running := ?_, alive := ?_ }
    · intro b app hb
      have hget := getElem?_settles s a b failed
      rw [show (s.apps.modify a _)[b]? = some app from hb] at hget
      split at hget
      · obtain ⟨app', happ', rfl⟩ := map_eq_some_iff.mp hget.symm
        exact h.stops b app' happ'
      · exact h.stops b app hget.symm
    · intro b hb
      have hstarted := h.running b hb
      have hne : a ≠ b := by
        rintro rfl
        cases hstopping.symm.trans hstarted
      rw [getElem?_settles, if_neg hne]
      exact hstarted
    · intro b halive
      apply h.alive b
      obtain ⟨app, happ, hphase⟩ := halive
      rw [getElem?_settles] at happ
      split at happ
      · obtain ⟨app', happ', rfl⟩ := map_eq_some_iff.mp happ
        exact absurd rfl (hphase failed)
      · exact ⟨app, happ, hphase⟩
  · exact h

theorem Inv.started (h : Inv s) (hgoes : ∀ app, s.exit ≠ .exited app) (i : LoadId) : Inv (s.started i) := by
  unfold State.started
  split
  next hstarting =>
    obtain ⟨hrunning, hexit, hnot⟩ := h.free _ (mem_of_getElem? hstarting) rfl
    have hlast : ∀ (a : AppId) (app : App), s.apps[a]? = some app → a ≠ s.apps.length := by
      intro a app happ
      exact Nat.ne_of_lt (lt_of_getElem? happ)
    constructor
    · exact h.between_set nofun
    · intro m hm hbetween
      -- no other load is between an app and the next
      obtain ⟨j, hj⟩ := mem_iff_getElem?.mp hm
      rcases getElem?_set_cases hj with ⟨-, rfl⟩ | ⟨hne, hold⟩
      · cases hbetween
      · exact absurd (h.between i j _ m hstarting hold rfl hbetween) hne
    · intro a app happ
      show app.stops = if some s.apps.length = some a then 0 else 1
      rcases getElem?_concat_cases happ with hold | ⟨rfl, rfl⟩
      · have hstops := h.stops a app hold
        rw [hrunning, if_neg nofun] at hstops
        rw [if_neg fun heq => hlast a app hold (some_inj.mp heq).symm]
        exact hstops
      · rw [if_pos rfl]
    · intro a ha
      cases ha
      rw [getElem?_concat_length]
      rfl
    · intro a halive
      obtain ⟨app, happ, hphase⟩ := halive
      rcases getElem?_concat_cases happ with hold | ⟨rfl, -⟩
      · rcases h.alive a ⟨app, hold, hphase⟩ with hrun | hload | hexit'
        · cases hrunning.symm.trans hrun
        · refine .inr (.inl (mem_set_of_ne hload ?_ _))
          intro hat
          cases hstarting.symm.trans hat
        · exact .inr (.inr hexit')
      · exact .inl rfl
    · cases hphase : s.exit with
      | none => exact .inl rfl
      | suspending => exact .inr (.inl rfl)
      | stopping app => exact absurd hphase (hnot app)
      | exited app => exact absurd hphase (hgoes app)
    · have hlate := h.late
      cases hphase : s.exit with
      | stopping app => exact absurd hphase (hnot app)
      | none => exact hlate
      | suspending => exact hlate
      | exited app => exact hlate
  · exact h

theorem Inv.exitProcess (h : Inv s) : Inv s.exitProcess := by
  unfold State.exitProcess
  split
  next hnone =>
    refine { h with free := ?_, alive := ?_, taken := ?_ }
    · intro l hl hbetween
      obtain ⟨hrunning, -, -⟩ := h.free l hl hbetween
      exact ⟨hrunning, rfl, nofun⟩
    · intro a halive
      rcases h.alive a halive with hrunning | hload | hexit
      · exact .inl hrunning
      · exact .inr (.inl hload)
      · rw [hnone] at hexit
        cases hexit
    · exact .inr (.inl rfl)
  · exact h

theorem Inv.stopRunningApp (h : Inv s) (hok : Orderly s .stopRunningApp) : Inv s.stopRunningApp := by
  unfold State.stopRunningApp
  split
  next hsuspending =>
    have hnone := hok hsuspending
    have hdead : ∀ a, Load.stopping a ∉ s.loads := by
      intro a ha
      cases hnone _ ha
    have hexit : s.exit.app = none := hsuspending ▸ rfl
    split
    next hrunning =>
      refine { h with free := ?_, alive := ?_, taken := ?_ }
      · intro l hl hbetween
        rw [hnone l hl] at hbetween
        cases hbetween
      · intro a halive
        rcases h.alive a halive with hrun | hload | hexit'
        · exact .inl hrun
        · exact absurd hload (hdead a)
        · cases hexit.symm.trans hexit'
      · exact .inr (.inr hrunning)
    next a hrunning =>
      constructor
      · exact h.between
      · intro l hl hbetween
        rw [hnone l hl] at hbetween
        cases hbetween
      · intro b app hb
        rw [h.stops_stop hrunning hb]
        rfl
      · exact nofun
      · intro b halive
        rcases h.alive b (alive_of_stop (s := s) (a := a) halive) with hrun | hload | hexit'
        · rw [hrunning] at hrun
          exact .inr (.inr hrun)
        · exact absurd hload (hdead b)
        · cases hexit.symm.trans hexit'
      · exact .inr (.inr rfl)
      · exact h.late
  · exact h

/-- Nothing runs once the exit has taken the app, so its handler stops nothing. -/
theorem exits_cases (h : Inv s) (timedOut : Bool) :
    s.exits timedOut = s ∨
      ∃ app, s.exit = .stopping app ∧ s.running = none ∧ s.exits timedOut = { s with exit := .exited app } := by
  unfold State.exits
  split
  next app hstopping =>
    have hrunning : s.running = none := by
      rcases h.taken with hexit | hexit | hrunning
      · cases hstopping.symm.trans hexit
      · cases hstopping.symm.trans hexit
      · exact hrunning
    split
    · refine .inr ⟨app, hstopping, hrunning, ?_⟩
      simp [hrunning]
    · exact .inl rfl
  · exact .inl rfl

theorem Inv.exits (h : Inv s) (timedOut : Bool) : Inv (s.exits timedOut) := by
  rcases exits_cases h timedOut with hsame | ⟨app, hstopping, hrunning, hexits⟩
  · rw [hsame]
    exact h
  rw [hexits]
  refine { h with free := ?_, alive := ?_, taken := ?_ }
  · intro l hl hbetween
    exact absurd hstopping ((h.free l hl hbetween).2.2 app)
  · intro a halive
    rcases h.alive a halive with hrun | hload | hexit
    · exact .inl hrun
    · exact .inr (.inl hload)
    · rw [hstopping] at hexit
      exact .inr (.inr hexit)
  · exact .inr (.inr hrunning)

theorem Inv.step (h : Inv s) {e : Event} (hok : Orderly s e) : Inv (step s e) := by
  unfold RunningApp.step
  split
  · exact h
  rename_i hgoes
  cases e with
  | reload => exact h.reload
  | imported i => exact h.imported hok
  | importFails i => exact h.importFails hok
  | stopSettles a failed => exact h.stopSettles a failed
  | goOn i => exact h.goOn i
  | started i => exact h.started hgoes i
  | startFails i => exact h.startFails i
  | exitProcess => exact h.exitProcess
  | stopRunningApp => exact h.stopRunningApp hok
  | exits timedOut => exact h.exits timedOut

theorem Inv.oneApp (h : Inv s) : OneApp s := by
  constructor
  · intro a b ha hb
    rcases h.alive a ha with hrun | hload | hexit
    · rcases h.alive b hb with hrun' | hload' | hexit'
      · exact some_inj.mp (hrun.symm.trans hrun')
      · rw [(h.free _ hload' rfl).1] at hrun
        cases hrun
      · -- the exit has taken it
        rcases h.taken with hphase | hphase | hnone
        · rw [hphase] at hexit'
          cases hexit'
        · rw [hphase] at hexit'
          cases hexit'
        · rw [hnone] at hrun
          cases hrun
    · rcases h.alive b hb with hrun' | hload' | hexit'
      · rw [(h.free _ hload rfl).1] at hrun'
        cases hrun'
      · obtain ⟨i, hi⟩ := mem_iff_getElem?.mp hload
        obtain ⟨j, hj⟩ := mem_iff_getElem?.mp hload'
        obtain rfl := h.between i j _ _ hi hj rfl rfl
        exact Load.stopping.inj (some_inj.mp (hi.symm.trans hj))
      · rw [(h.free _ hload rfl).2.1] at hexit'
        cases hexit'
    · rcases h.alive b hb with hrun' | hload' | hexit'
      · rcases h.taken with hphase | hphase | hnone
        · rw [hphase] at hexit
          cases hexit
        · rw [hphase] at hexit
          cases hexit
        · rw [hnone] at hrun'
          cases hrun'
      · rw [(h.free _ hload' rfl).2.1] at hexit
        cases hexit
      · exact some_inj.mp (hexit.symm.trans hexit')
  · exact h.stops
  · intro app hexited
    rcases h.taken with hphase | hphase | hnone
    · cases hexited.symm.trans hphase
    · cases hexited.symm.trans hphase
    · exact hnone
  · exact h.late

end

/-- **In a run whose steps are all orderly**, at most one app runs in every state; one that was replaced, or that
the exit took, was told to stop once; and none starts after that. -/
theorem one_app (es : List Event) (hes : Along step Orderly .init es) : Always step OneApp .init es :=
  hes.of_invariant Inv (fun _ _ hok h => h.step hok) (fun _ _ hok h => (h.step hok).oneApp) Inv.init

def reloaded : List Event :=
  [.imported 0, .started 0, .reload, .reload, .imported 2, .stopSettles 0 false, .goOn 2, .startFails 2, .imported 1,
    .started 1, .exitProcess, .stopRunningApp, .stopSettles 1 true, .exits false]

theorem one_app_reloaded : Always step OneApp .init reloaded := one_app reloaded (by decide)

/-- Of two reloads the second finds no app to stop while the first waits for it: both start theirs, and the
process exits with one that nothing told to stop. -/
theorem two_apps :
    let s := exec step .init
      [.imported 0, .started 0, .reload, .reload, .imported 1, .imported 2, .started 2, .stopSettles 0 false, .goOn 1,
        .started 1, .exitProcess, .stopRunningApp, .stopSettles 2 false, .exits false]
    s.exit = .exited (some 2) ∧ s.apps =
      [{ phase := .stopped false, stops := 1 }, { phase := .started, stops := 0 },
        { phase := .stopped false, stops := 1 }] := by
  decide

end Reins.RunningApp
