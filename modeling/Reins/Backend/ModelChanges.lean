import Reins.Lib.Run

/-!
# Model changes (`models/sessions.ts`, `sessions/session-runs.ts`, `session-runtime/pi-runtime.ts`)

One session's model selection, in its three copies: the row's, Pi's lane's and that of each runtime. A
change, in the session's order, sets the lane through a runtime and then stores what it asked for on the row,
with the level the row had when the change began where it asks for none. A run's settlement stores what the
runtime had as its run ended, once the report to the parent is done, which takes as long as it takes. The
row names a model throughout.
-/

namespace Reins.ModelChanges

open Run

abbrev Level := String
abbrev RuntimeId := Nat

structure Model where
  provider : String
  modelId : String
  deriving DecidableEq

structure Selection where
  model : Model
  level : Level
  deriving DecidableEq

inductive Phase
  /-- It looks the model up: `findPiModel`. -/
  | validating
  /-- `openSessionRuntime`. -/
  | opening
  /-- Pi's `lane.setModel` is under way, or has committed. -/
  | setting (runtime : RuntimeId)
  | set (runtime : RuntimeId)
  /-- Pi's `lane.setThinkingLevel` is under way, or has committed. -/
  | leveling (runtime : RuntimeId)
  | leveled (runtime : RuntimeId)
  /-- The runtime's `setModel` is done. -/
  | writing
  deriving DecidableEq

structure Change where
  model : Model
  level : Option Level
  /-- `sessionRow.thinking_level`. -/
  read : Level
  phase : Phase
  /-- The lane is no longer as the change found it. -/
  touched : Bool
  deriving DecidableEq

structure State where
  row : Selection
  lane : Option Selection
  /-- Each runtime's `metadata`. -/
  runtimes : List Selection
  live : Option RuntimeId
  queue : List (Model × Option Level)
  current : Option Change
  /-- Settlements being applied, with the selection their runtime had; none of an end that is Reins'. -/
  settlements : List (Option Selection)
  /-- The selection of the last change that succeeded, or what there was before. -/
  wanted : Selection
  deriving DecidableEq

def State.init (row : Selection) : State :=
  { row, lane := none, runtimes := [], live := none, queue := [], current := none, settlements := [],
    wanted := row }

inductive Event
  | change (model : Model) (level : Option Level)
  | turn
  | validated (found : Bool)
  /-- The change has a runtime: the live one, or one opened with its model. -/
  | opened
  | openFailed (made : Bool)
  | laneSet
  /-- Pi's call failed; the runtime is opened again if that was a storage fault. -/
  | laneFailed (again : Bool)
  | modelSet
  | levelSet
  | levelFailed (again : Bool)
  | levelRead
  | write
  /-- Someone else opens the session's runtime, or it is closed. -/
  | openRuntime
  | closeRuntime
  /-- A run of a runtime ends, in Pi or by Reins' own account. -/
  | settle (r : RuntimeId) (pi : Bool)
  | record (i : Nat)
  | lose (i : Nat)
  deriving DecidableEq

section

variable (s : State)

def State.addRuntime (seed : Selection) : State :=
  let lane := s.lane.getD seed
  { s with lane := some lane, runtimes := s.runtimes ++ [lane], live := some s.runtimes.length }

def State.setCurrent (c : Change) : State := { s with current := some c }

def State.fail : State := { s with current := none }

def Change.seed (c : Change) (row : Selection) : Selection := ⟨c.model, c.level.getD row.level⟩

def State.opened (c : Change) : State :=
  match s.live with
  | some r => s.setCurrent { c with phase := .setting r }
  | none =>
    (s.addRuntime (c.seed s.row)).setCurrent
      { c with
        phase := .setting s.runtimes.length
        touched := c.touched || decide (s.lane = none ∧ c.seed s.row ≠ s.row) }

def State.openFailed (made : Bool) (c : Change) : State :=
  if made then { s with lane := some (s.lane.getD (c.seed s.row)) }.fail else s.fail

def State.failedOr (again : Bool) (c : Change) : State :=
  if again then { s with live := none }.setCurrent { c with phase := .opening } else s.fail

def State.setMetadata (r : RuntimeId) (f : Selection → Selection) : State :=
  { s with runtimes := s.runtimes.modify r f }

def State.laneSet (c : Change) (r : RuntimeId) : State :=
  { s with
    lane := s.lane.map fun lane => { lane with model := c.model },
    current := some { c with phase := .set r, touched := c.touched || s.lane.any fun lane => c.model ≠ lane.model } }

/-- Pi's levels: what a lane selects when it is asked for one. -/
abbrev Pick := Model → Level → Level

variable (pick : Pick)

def State.leveled (c : Change) (r : RuntimeId) (level : Level) : State :=
  { s with
    lane := s.lane.map fun lane => { lane with level := pick lane.model level },
    current := some
      { c with
        phase := .leveled r
        touched := c.touched || s.lane.any fun lane => pick lane.model level ≠ lane.level } }

/-- `updateSessionMeta`, at a change's end. -/
def State.write (c : Change) : State :=
  { s with
    row := ⟨c.model, c.level.getD c.read⟩, current := none,
    wanted := ⟨c.model, c.level.getD s.wanted.level⟩ }

def State.advance (c : Change) (e : Event) : State :=
  match e, c.phase with
  | .validated found, .validating => if found then s.setCurrent { c with phase := .opening } else s.fail
  | .opened, .opening => s.opened c
  | .openFailed made, .opening => s.openFailed made c
  | .laneSet, .setting r => s.laneSet c r
  | .laneFailed again, .setting _ => s.failedOr again c
  | .modelSet, .set r =>
    (s.setMetadata r fun metadata => { metadata with model := c.model }).setCurrent
      { c with phase := if c.level.isSome then .leveling r else .writing }
  | .levelSet, .leveling r =>
    match c.level with
    | some level => s.leveled pick c r level
    | none => s
  | .levelFailed again, .leveling _ => s.failedOr again c
  | .levelFailed again, .leveled _ => s.failedOr again c
  | .levelRead, .leveled r =>
    (s.setMetadata r fun metadata => { metadata with level := (s.lane.getD metadata).level }).setCurrent
      { c with phase := .writing }
  | .write, .writing => s.write c
  | _, _ => s

/-- `runSettled`'s transaction, of the model: an end of Reins' keeps the row's. -/
def State.record (settled : Option Selection) : State := { s with row := settled.getD s.row }

def step (s : State) : Event → State
  | .change model level => { s with queue := s.queue ++ [(model, level)] }
  | .turn =>
    match s.current, s.queue with
    | none, (model, level) :: queue => { s with queue, current := some ⟨model, level, s.row.level, .validating, false⟩ }
    | _, _ => s
  | .openRuntime => if s.live.isNone then s.addRuntime s.row else s
  | .closeRuntime => { s with live := none }
  | .settle r pi =>
    match s.runtimes[r]? with
    | some metadata => { s with settlements := s.settlements ++ [if pi then some metadata else none] }
    | none => s
  | .record i =>
    match s.settlements[i]? with
    | some settled => { s.record settled with settlements := s.settlements.eraseIdx i }
    | none => s
  | .lose i => { s with settlements := s.settlements.eraseIdx i }
  | e =>
    match s.current with
    | some c => s.advance pick c e
    | none => s

end

/-! ### What holds where -/

def State.AsWanted (s : State) : Prop := s.row = s.wanted ∧ ∀ l, s.lane = some l → l = s.wanted

instance (s : State) : Decidable s.AsWanted :=
  decidable_of_iff (s.row = s.wanted ∧ s.lane.all fun l => decide (l = s.wanted)) <| by
    unfold State.AsWanted
    cases s.lane <;> simp

def State.touched (s : State) : Bool := s.current.any (·.touched)

/-- A settlement carries the lane's selection, or the change under way has changed the lane; a change fails
only where it has left the lane as it was; and Pi selects the level it is asked for. -/
def Ok (pick : Pick) (s : State) : Event → Prop
  | .record i => ∀ settled ∈ (s.settlements[i]?).join, s.lane = some settled ∨ s.touched
  | .openFailed made => s.touched = false ∧ (made → ∀ c ∈ s.current, s.lane.getD (c.seed s.row) = s.row)
  | .laneFailed again => again ∨ s.touched = false
  | .levelFailed again => again ∨ s.touched = false
  | .levelSet => ∀ c ∈ s.current, ∀ level ∈ c.level, pick c.model level = level
  | _ => True

instance (pick : Pick) (s : State) (e : Event) : Decidable (Ok pick s e) := by
  cases e <;> unfold Ok <;> infer_instance

def Change.Reached (c : Change) (wanted l : Selection) : Prop :=
  match c.phase with
  | .validating | .opening | .setting _ => c.level = none → l.level = wanted.level
  | .set _ | .leveling _ => l.model = c.model ∧ (c.level = none → l.level = wanted.level)
  | .leveled _ | .writing => l = ⟨c.model, c.level.getD wanted.level⟩

def Phase.early : Phase → Bool
  | .validating | .opening => true
  | _ => false

structure Underway (lane : Option Selection) (wanted : Selection) (c : Change) : Prop where
  read : c.read = wanted.level
  reached : ∀ l, lane = some l → c.Reached wanted l
  /-- Only a change that has no runtime finds no lane. -/
  noLane : lane = none → c.touched = false ∧ c.phase.early
  fresh : c.phase = .validating → c.touched = false

structure Inv (s : State) : Prop where
  rest : s.touched = false → s.AsWanted
  change : ∀ c, s.current = some c → Underway s.lane s.wanted c
  live : s.live.isSome → s.lane.isSome

theorem Inv.init (row : Selection) : Inv (.init row) where
  rest _ := ⟨rfl, nofun⟩
  change _ h := nomatch h
  live h := nomatch h

/-! ### One step -/

section

variable {pick : Pick} {s : State} {c : Change}

theorem Inv.untouched (h : Inv s) (hc : s.current = some c) (ht : c.touched = false) : s.AsWanted :=
  h.rest (by simp [State.touched, hc, ht])

/-- With no lane there is nothing a change could have reached. -/
theorem Inv.noLane (h : Inv s) (hlane : s.lane = none) : s.touched = false := by
  unfold State.touched
  cases hc : s.current with
  | none => rfl
  | some c => exact ((h.change c hc).noLane hlane).1

theorem Underway.hasLane {lane : Option Selection} {wanted : Selection} (h : Underway lane wanted c)
    (hearly : c.phase.early = false) : lane ≠ none := by
  intro hnone
  rw [(h.noLane hnone).2] at hearly
  cases hearly

theorem Inv.setCurrent (h : Inv s) (hc : s.current = some c) {c' : Change} (ht : c'.touched = c.touched)
    (hu : Underway s.lane s.wanted c') : Inv (s.setCurrent c') := { h with
  rest ht' := h.untouched hc (ht.symm.trans ht')
  change d hd := by
    cases hd
    exact hu }

theorem Inv.fail (h : Inv s) (ht : s.touched = false) : Inv s.fail := { h with
  rest _ := h.rest ht
  change _ hd := nomatch hd }

theorem Change.Reached.early {wanted l : Selection} (h : c.Reached wanted l) (hnone : c.level = none) :
    l.level = wanted.level := by
  unfold Change.Reached at h
  split at h
  · exact h hnone
  · exact h hnone
  · exact h hnone
  · exact h.2 hnone
  · exact h.2 hnone
  · rw [h, hnone]
    rfl
  · rw [h, hnone]
    rfl

theorem Underway.again {lane : Option Selection} {wanted : Selection} (h : Underway lane wanted c) :
    Underway lane wanted { c with phase := .opening } := { h with
  reached l hl := (h.reached l hl).early
  noLane hlane := ⟨(h.noLane hlane).1, rfl⟩
  fresh hphase := nomatch hphase }

theorem Inv.failedOr (h : Inv s) (hc : s.current = some c) {again : Bool}
    (hok : again = true ∨ s.touched = false) : Inv (s.failedOr again c) := by
  unfold State.failedOr
  split
  · have hu := (h.change c hc).again
    exact
      { rest := fun ht => h.untouched hc ht
        change := by
          intro d hd
          cases hd
          exact hu
        live := fun hlive => nomatch hlive }
  · next hagain => exact h.fail (hok.resolve_left hagain)

theorem Inv.openRuntime (h : Inv s) : Inv (s.addRuntime s.row) := by
  cases hlane : s.lane with
  | some l =>
    have heq : s.addRuntime s.row = { s with runtimes := s.runtimes ++ [l], live := some s.runtimes.length } := by
      simp [State.addRuntime, hlane]
    rw [heq]
    exact ⟨h.rest, h.change, fun _ => by simp [hlane]⟩
  | none =>
    have hrow : s.row = s.wanted := (h.rest (h.noLane hlane)).1
    have hmade : (s.addRuntime s.row).lane = some s.wanted := by simp [State.addRuntime, hlane, hrow]
    refine ⟨fun _ => ⟨hrow, fun l hl => ?_⟩, fun c hc => ?_, fun _ => hmade ▸ rfl⟩
    · rw [hmade] at hl
      exact (Option.some_inj.mp hl).symm
    have hu := h.change c hc
    rw [hmade]
    refine ⟨hu.read, fun l hl => ?_, nofun, hu.fresh⟩
    cases hl
    have hearly := (hu.noLane hlane).2
    unfold Change.Reached
    unfold Phase.early at hearly
    split
    · exact fun _ => rfl
    · exact fun _ => rfl
    all_goals
      next hphase =>
        rw [hphase] at hearly
        cases hearly

theorem Inv.opened (h : Inv s) (hc : s.current = some c) : Inv (s.opened c) := by
  have hu := h.change c hc
  have hreached (l : Selection) (hl : s.lane = some l) (r : RuntimeId) :
      Change.Reached { c with phase := .setting r } s.wanted l := (hu.reached l hl).early
  unfold State.opened
  split
  · next r hr =>
    have hsome : s.lane.isSome := h.live (hr ▸ rfl)
    refine h.setCurrent hc rfl ⟨hu.read, fun l hl => hreached l hl r, fun hnone => ?_, nofun⟩
    rw [hnone] at hsome
    cases hsome
  · cases hlane : s.lane with
    | some l =>
      refine ⟨fun ht => ?_, fun d hd => ?_, fun _ => rfl⟩
      · have ht' : c.touched = false := (Bool.or_eq_false_iff.mp ht).1
        have haw := h.untouched hc ht'
        refine ⟨haw.1, fun l' hl' => haw.2 l' ?_⟩
        simpa [State.addRuntime, State.setCurrent, hlane] using hl'
      · cases hd
        refine ⟨hu.read, fun l' hl' => ?_, nofun, nofun⟩
        have hl : s.lane = some l' := by simpa [State.addRuntime, State.setCurrent, hlane] using hl'
        exact (hu.reached l' hl).early
    | none =>
      have hrow : s.row = s.wanted := (h.rest (h.noLane hlane)).1
      have hmade : (s.addRuntime (c.seed s.row)).lane = some (c.seed s.row) := by
        simp [State.addRuntime, hlane]
      refine ⟨fun ht => ?_, fun d hd => ?_, fun _ => rfl⟩
      · -- untouched, the lane was made as the row is
        have hseed : c.seed s.row = s.row := by
          have := (Bool.or_eq_false_iff.mp ht).2
          simpa [hlane] using this
        refine ⟨hrow, fun l hl => ?_⟩
        rw [State.setCurrent, hmade] at hl
        rw [← Option.some_inj.mp hl, hseed]
        exact hrow
      · cases hd
        refine ⟨hu.read, fun l hl => ?_, nofun, nofun⟩
        rw [State.setCurrent, hmade] at hl
        cases hl
        intro hnone
        show (c.level.getD s.row.level) = s.wanted.level
        have hn : c.level = none := hnone
        rw [hn, hrow]
        rfl

theorem Inv.openFailed (h : Inv s) (hc : s.current = some c) {made : Bool}
    (hok : Ok pick s (.openFailed made)) : Inv (s.openFailed made c) := by
  obtain ⟨ht, hmade⟩ := hok
  have haw := h.rest ht
  unfold State.openFailed
  split
  · next hm =>
    have hrow : s.lane.getD (c.seed s.row) = s.row := hmade hm c hc
    refine ⟨fun _ => ⟨haw.1, fun l hl => ?_⟩, nofun, fun _ => rfl⟩
    have hl' : l = s.row := by
      rw [← hrow]
      exact (Option.some_inj.mp hl).symm
    rw [hl']
    exact haw.1
  · exact h.fail ht

theorem Inv.laneSet (h : Inv s) (hc : s.current = some c) {r : RuntimeId} (hphase : c.phase = .setting r) :
    Inv (s.laneSet c r) := by
  have hu := h.change c hc
  cases hlane : s.lane with
  | none => exact absurd hlane (hu.hasLane (hphase ▸ rfl))
  | some l =>
    have hset : (s.laneSet c r).lane = some { l with model := c.model } := by simp [State.laneSet, hlane]
    refine ⟨fun ht => ?_, fun d hd => ?_, fun _ => hset ▸ rfl⟩
    · -- untouched, the lane had that model
      have ht' := Bool.or_eq_false_iff.mp ht
      have hmodel : c.model = l.model := by simpa [hlane] using ht'.2
      have haw := h.untouched hc ht'.1
      refine ⟨haw.1, fun l' hl' => ?_⟩
      rw [hset, hmodel] at hl'
      rw [← Option.some_inj.mp hl']
      exact haw.2 l hlane
    · cases hd
      refine ⟨hu.read, fun l' hl' => ?_, fun hnone => ?_, nofun⟩
      · cases hset.symm.trans hl'
        exact ⟨rfl, (hu.reached l hlane).early⟩
      · cases hset.symm.trans hnone

theorem Inv.modelSet (h : Inv s) (hc : s.current = some c) {r : RuntimeId} (hphase : c.phase = .set r)
    (f : Selection → Selection) :
    Inv ((s.setMetadata r f).setCurrent { c with phase := if c.level.isSome then .leveling r else .writing }) := by
  have hu := h.change c hc
  have hreached (l : Selection) (hl : s.lane = some l) :
      l.model = c.model ∧ (c.level = none → l.level = s.wanted.level) := by
    have := hu.reached l hl
    rwa [Change.Reached, hphase] at this
  have hsome : s.lane ≠ none := hu.hasLane (hphase ▸ rfl)
  refine ⟨fun ht => h.untouched hc ht, fun d hd => ?_, h.live⟩
  cases hd
  refine ⟨hu.read, fun l hl => ?_, fun hnone => absurd hnone hsome, fun hp => ?_⟩
  · have hl' := hreached l hl
    cases hlevel : c.level with
    | some level =>
      rw [Change.Reached]
      simp [hl'.1]
    | none =>
      have heq : l = ⟨c.model, s.wanted.level⟩ := by rw [← hl'.1, ← hl'.2 hlevel]
      rw [Change.Reached]
      simp [heq, State.setMetadata, State.setCurrent]
  · simp only at hp
    split at hp <;> cases hp

theorem Inv.leveled (h : Inv s) (hc : s.current = some c) {r : RuntimeId} (hphase : c.phase = .leveling r)
    {level : Level} (hlevel : c.level = some level) (hpick : pick c.model level = level) :
    Inv (s.leveled pick c r level) := by
  have hu := h.change c hc
  cases hlane : s.lane with
  | none => exact absurd hlane (hu.hasLane (hphase ▸ rfl))
  | some l =>
    have hmodel : l.model = c.model := by
      have := hu.reached l hlane
      rw [Change.Reached, hphase] at this
      exact this.1
    have hset : (s.leveled pick c r level).lane = some ⟨c.model, level⟩ := by
      simp [State.leveled, hlane, hmodel, hpick]
    refine ⟨fun ht => ?_, fun d hd => ?_, fun _ => hset ▸ rfl⟩
    · have ht' := Bool.or_eq_false_iff.mp ht
      have hsame : level = l.level := by simpa [hlane, hmodel, hpick] using ht'.2
      have haw := h.untouched hc ht'.1
      refine ⟨haw.1, fun l' hl' => ?_⟩
      rw [hset, hsame, ← hmodel] at hl'
      rw [← Option.some_inj.mp hl']
      exact haw.2 l hlane
    · cases hd
      refine ⟨hu.read, fun l' hl' => ?_, fun hnone => ?_, nofun⟩
      · cases hset.symm.trans hl'
        simp [Change.Reached, hlevel]
      · cases hset.symm.trans hnone

theorem Inv.levelRead (h : Inv s) (hc : s.current = some c) {r : RuntimeId} (hphase : c.phase = .leveled r)
    (f : Selection → Selection) :
    Inv ((s.setMetadata r f).setCurrent { c with phase := .writing }) := by
  have hu := h.change c hc
  have hsome : s.lane ≠ none := hu.hasLane (hphase ▸ rfl)
  refine ⟨fun ht => h.untouched hc ht, fun d hd => ?_, h.live⟩
  cases hd
  refine ⟨hu.read, fun l hl => ?_, fun hnone => absurd hnone hsome, nofun⟩
  have := hu.reached l hl
  rwa [Change.Reached, hphase] at this

theorem Inv.write (h : Inv s) (hc : s.current = some c) (hphase : c.phase = .writing) : Inv (s.write c) := by
  have hu := h.change c hc
  refine ⟨fun _ => ⟨?_, fun l hl => ?_⟩, nofun, h.live⟩
  · show (⟨c.model, c.level.getD c.read⟩ : Selection) = ⟨c.model, c.level.getD s.wanted.level⟩
    rw [hu.read]
  · have := hu.reached l hl
    rwa [Change.Reached, hphase] at this

theorem Inv.advance (h : Inv s) (hc : s.current = some c) {e : Event} (hok : Ok pick s e) :
    Inv (s.advance pick c e) := by
  have hu := h.change c hc
  unfold State.advance
  split
  · next hphase =>
    have ht : s.touched = false := by simp [State.touched, hc, hu.fresh hphase]
    split
    · exact h.setCurrent hc rfl hu.again
    · exact h.fail ht
  · exact h.opened hc
  · exact h.openFailed hc hok
  · next hphase => exact h.laneSet hc hphase
  · exact h.failedOr hc hok
  · next hphase => exact h.modelSet hc hphase _
  · next hphase =>
    split
    · next level hlevel => exact h.leveled hc hphase hlevel (hok c hc level hlevel)
    · exact h
  · exact h.failedOr hc hok
  · exact h.failedOr hc hok
  · next hphase => exact h.levelRead hc hphase _
  · next hphase => exact h.write hc hphase
  · exact h

theorem Inv.record (h : Inv s) {i : Nat} {settled : Option Selection} (hi : s.settlements[i]? = some settled)
    (hok : Ok pick s (.record i)) :
    Inv { s.record settled with settlements := s.settlements.eraseIdx i } := by
  refine ⟨fun ht => ?_, h.change, h.live⟩
  have haw := h.rest ht
  cases settled with
  | none => exact haw
  | some selection =>
    have hlane : s.lane = some selection := by
      have := hok selection (by simp [hi])
      exact this.resolve_right (by rw [show s.touched = false from ht]; simp)
    exact ⟨haw.2 selection hlane, haw.2⟩

theorem Inv.step (h : Inv s) {e : Event} (hok : Ok pick s e) : Inv (step pick s e) := by
  have hadvance : Inv (match s.current with | some c => s.advance pick c e | none => s) := by
    cases hc : s.current with
    | none => exact h
    | some c => exact h.advance hc hok
  cases e with
  | change model level => exact ⟨h.rest, h.change, h.live⟩
  | turn =>
    simp only [ModelChanges.step]
    split
    · next model level queue hc hqueue =>
      have haw : s.AsWanted := h.rest (by simp [State.touched, hc])
      refine ⟨fun _ => haw, fun d hd => ?_, h.live⟩
      cases hd
      refine ⟨congrArg Selection.level haw.1, fun l hl _ => ?_, fun _ => ⟨rfl, rfl⟩, fun _ => rfl⟩
      exact congrArg Selection.level (haw.2 l hl)
    · exact h
  | openRuntime =>
    simp only [ModelChanges.step]
    split
    · exact h.openRuntime
    · exact h
  | closeRuntime => exact ⟨h.rest, h.change, nofun⟩
  | settle r pi =>
    simp only [ModelChanges.step]
    split
    · exact ⟨h.rest, h.change, h.live⟩
    · exact h
  | record i =>
    simp only [ModelChanges.step]
    split
    · next settled hi => exact h.record hi hok
    · exact h
  | lose i => exact ⟨h.rest, h.change, h.live⟩
  | validated found => exact hadvance
  | opened => exact hadvance
  | openFailed made => exact hadvance
  | laneSet => exact hadvance
  | laneFailed again => exact hadvance
  | modelSet => exact hadvance
  | levelSet => exact hadvance
  | levelFailed again => exact hadvance
  | levelRead => exact hadvance
  | write => exact hadvance

end

/-! ### Whole runs -/

/-- **The row shows what the session runs with**: in a run whose steps all meet the condition, wherever no
change is under way the row is as the last change that succeeded asked, and so is the lane. -/
theorem row_is_lane {pick : Pick} {row : Selection} {es : List Event} (hes : Along (step pick) (Ok pick) (.init row) es)
    (hdone : (exec (step pick) (.init row) es).current = none) :
    (exec (step pick) (.init row) es).row = (exec (step pick) (.init row) es).wanted ∧
      ∀ l, (exec (step pick) (.init row) es).lane = some l → l = (exec (step pick) (.init row) es).row := by
  have hinv : Inv (exec (step pick) (.init row) es) := hes.invariant Inv (fun _ _ hok h => h.step hok) (.init row)
  have haw := hinv.rest (by simp [State.touched, hdone])
  refine ⟨haw.1, fun l hl => ?_⟩
  rw [haw.1]
  exact haw.2 l hl

def sonnet : Selection := ⟨⟨"anthropic", "sonnet"⟩, "off"⟩
def opus : Selection := ⟨⟨"anthropic", "opus"⟩, "high"⟩

def settledThenChanged : List Event :=
  [.openRuntime, .settle 0 true, .record 0, .change opus.model (some "high"), .turn, .validated true, .opened,
    .laneSet, .modelSet, .levelSet, .levelRead, .write]

/-- The same run's settlement waits for its parent, and is recorded once the change is done. -/
def changedThenSettled : List Event :=
  [.openRuntime, .settle 0 true, .change opus.model (some "high"), .turn, .validated true, .opened, .laneSet,
    .modelSet, .levelSet, .levelRead, .write, .record 0]

theorem row_is_lane_settledThenChanged :
    Along (step fun _ level => level) (Ok fun _ level => level) (.init sonnet) settledThenChanged ∧
      (exec (step fun _ level => level) (.init sonnet) settledThenChanged).row =
        (exec (step fun _ level => level) (.init sonnet) settledThenChanged).wanted := by
  have hes : Along (step fun _ level => level) (Ok fun _ level => level) (.init sonnet) settledThenChanged := by
    decide
  exact ⟨hes, (row_is_lane hes (by decide)).1⟩

/-- A settlement puts the row back to the model its run ended with, which the lane has no more. -/
theorem old_model_recorded : ¬ ∀ (pick : Pick) (row : Selection) (es : List Event),
      (exec (step pick) (.init row) es).current = none → (exec (step pick) (.init row) es).queue = [] →
        (exec (step pick) (.init row) es).settlements = [] → (exec (step pick) (.init row) es).AsWanted := by
  intro h
  have := h (fun _ level => level) sonnet changedThenSettled (by decide) (by decide) (by decide)
  revert this
  decide

end Reins.ModelChanges
