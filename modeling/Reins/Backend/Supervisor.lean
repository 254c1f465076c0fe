import Mathlib
import Reins.Lib.Places
import Reins.Lib.Run

/-!
# The process supervisor (`backend/src/supervisor.ts`)

Each service has a child process, or a timer that will start one, or neither; the maps of
`runSupervisor` are by the service's name. What a child does and when a timer fires are the
environment's, and so is what `Date.now()` says and whether a spawn succeeds.
-/

namespace Reins.Supervisor

open Places List

structure Backoff where
  initialMs : Nat
  maxMs : Nat
  resetAfterMs : Nat
  deriving DecidableEq

def WATCHER_RESTART : Backoff := { initialMs := 1000, maxMs := 1000, resetAfterMs := 0 }
def NODE_RESTART : Backoff := { initialMs := 1000, maxMs := 30000, resetAfterMs := 30000 }
def SERVER_RESTART_EXIT_CODE : Nat := 75
def NODE_RELOAD_EXIT_CODE : Nat := 75
def NODE_REFUSED_EXIT_CODE : Nat := 77

structure ExitReason where
  code : Nat
  reason : String
  deriving DecidableEq

inductive OnExit
  | stopAll
  | restart (backoff : Backoff) (notRestartedOn : Option ExitReason)
  deriving DecidableEq

structure Service where
  name : String
  restartAtOnceOn : Option ExitReason
  onExit : OnExit
  deriving DecidableEq

/-- What `runSupervisor` is given: a name is one service's. -/
structure Services where
  list : List Service
  names_nodup : (list.map Service.name).Nodup

inductive SupervisorMode
  | start
  | dev

def server : Service :=
  { name := "server", restartAtOnceOn := some ⟨SERVER_RESTART_EXIT_CODE, "restarting"⟩,
    onExit := .stopAll }

def node : Service :=
  { name := "node", restartAtOnceOn := some ⟨NODE_RELOAD_EXIT_CODE, "reloading"⟩
    onExit := .restart NODE_RESTART (some ⟨NODE_REFUSED_EXIT_CODE, "refused by the server"⟩) }

def watcher (name : String) : Service := { name, restartAtOnceOn := none, onExit := .restart WATCHER_RESTART none }

def createServices : SupervisorMode → Services
  | .start => ⟨[server, node], by decide⟩
  | .dev => ⟨[watcher "frontend:bundle", watcher "frontend:css", server, node], by decide⟩

structure Child where
  service : Service
  startedAt : Int
  exitCode : Option Nat

def Child.Alive (c : Child) : Prop := c.exitCode = none

structure Timer where
  service : Service
  backoff : Backoff
  /-- How long the child that ended was up, 0 for one that did not start. -/
  uptimeMs : Int
  delay : Nat

def Timer.Stable (t : Timer) : Prop := t.uptimeMs ≥ t.backoff.resetAfterMs

instance (t : Timer) : Decidable t.Stable := inferInstanceAs (Decidable (_ ≥ _))

inductive Restart
  | atOnce (service : Service)
  | delayed (timer : Timer)

def Restart.service : Restart → Service
  | .atOnce service => service
  | .delayed timer => timer.service

structure State where
  /-- The services the first loop has not come to. -/
  starting : List Service
  children : List Child
  running : AList fun _ : String => Nat
  /-- Every restart there was; a timer is known by its place. -/
  restarts : List Restart
  /-- The timers that are set, and neither fired nor cleared. -/
  armed : List Nat
  restartTimers : AList fun _ : String => Nat
  failures : AList fun _ : String => Nat
  stopping : Bool
  /-- What `stopChildren` was given, with the code to finish with. -/
  stopped : Option (List Nat × Nat)
  killed : List Nat
  result : Option Nat

def State.init (services : Services) : State :=
  { starting := services.list, children := [], running := ∅, restarts := [], armed := [],
    restartTimers := ∅, failures := ∅, stopping := false, stopped := none, killed := [],
    result := none }

def values (m : AList fun _ : String => Nat) : List Nat := m.entries.map Sigma.snd

variable {v : Service} {rs : List Restart} {fs : AList fun _ : String => Nat} {t : Timer} {n : Nat}

/-- `shutdown`, with the synchronous part of `stopChildren`. -/
def State.shutdown (s : State) (code : Nat) : State :=
  if s.stopping then s
  else
    { s with
      stopping := true
      armed := s.armed.filter fun t => t ∉ values s.restartTimers
      restartTimers := ∅
      stopped := some (values s.running, code)
      running := ∅ }

/-- `2 ** previous` is a float in the source: exact, and past every `maxMs` where it is not finite. -/
def Backoff.delay (b : Backoff) (previous : Nat) : Nat := min b.maxMs (b.initialMs * 2 ^ previous)

def State.scheduleRestart (s : State) (service : Service) (backoff : Backoff) (uptimeMs : Int) :
    State :=
  let previous := if uptimeMs ≥ backoff.resetAfterMs then 0 else (s.failures.lookup service.name).getD 0
  { s with
    failures := s.failures.insert service.name (previous + 1)
    restarts := s.restarts ++ [.delayed ⟨service, backoff, uptimeMs, backoff.delay previous⟩]
    armed := s.armed ++ [s.restarts.length]
    restartTimers := s.restartTimers.insert service.name s.restarts.length }

def State.start (s : State) (service : Service) (now : Int) (spawned : Bool) : State :=
  if spawned then
    { s with
      children := s.children ++ [⟨service, now, none⟩]
      running := s.running.insert service.name s.children.length }
  else
    match service.onExit with
    | .stopAll => s.shutdown 1
    | .restart backoff _ => s.scheduleRestart service backoff 0

/-- The next service of the loop `runSupervisor` begins with. -/
def State.next (s : State) (service : Service) (rest : List Service) (now : Int) (spawned : Bool) :
    State :=
  if s.stopping then { s with starting := [] }
  else { s with starting := rest }.start service now spawned

/-- A process ends, with nothing of the supervisor run yet. -/
def State.exit (s : State) (c : Nat) (code : Nat) : State :=
  match s.children[c]? with
  | some child =>
    if child.exitCode = none then
      { s with children := s.children.set c { child with exitCode := some code } }
    else s
  | none => s

/-- What follows a tracked child's exit while the supervisor is not stopping. -/
def State.ended (s : State) (service : Service) (startedAt : Int) (code : Nat) (now : Int) (spawned : Bool) : State :=
  if service.restartAtOnceOn.map ExitReason.code = some code then
    let s' : State :=
      { s with failures := s.failures.erase service.name
               restarts := s.restarts ++ [.atOnce service] }
    s'.start service now spawned
  else
    match service.onExit with
    | .stopAll => s.shutdown (if code = 0 then 1 else code)
    | .restart backoff notRestartedOn =>
      if notRestartedOn.map ExitReason.code = some code then s
      else s.scheduleRestart service backoff (now - startedAt)

def State.exited (s : State) (c : Nat) (now : Int) (spawned : Bool) : State :=
  match s.children[c]? with
  | some ⟨service, startedAt, some code⟩ =>
    if s.running.lookup service.name ≠ some c then s
    else
      let s' := { s with running := s.running.erase service.name }
      if s.stopping then s' else s'.ended service startedAt code now spawned
  | _ => s

def State.fire (s : State) (t : Nat) (now : Int) (spawned : Bool) : State :=
  match s.restarts[t]? with
  | some (.delayed timer) =>
    if t ∈ s.armed then
      let s' := { s with armed := s.armed.filter (· ≠ t)
                         restartTimers := s.restartTimers.erase timer.service.name }
      if s.stopping then s' else s'.start timer.service now spawned
    else s
  | _ => s

/-- `stopChildren` ends: its children are gone, or those left are sent SIGKILL. -/
def State.stopChildrenEnds (s : State) (timedOut : Bool) : State :=
  match s.stopped with
  | some (ids, code) =>
    if s.result ≠ none then s
    else if timedOut then { s with killed := ids, result := some code }
    else if ids.all fun c => (s.children[c]?.bind Child.exitCode).isSome then
      { s with result := some code }
    else s
  | none => s

inductive Event
  /-- The loop comes to its next service; nothing else runs before it is done. -/
  | next (now : Int) (spawned : Bool)
  | exit (child : Nat) (code : Nat)
  | exited (child : Nat) (now : Int) (spawned : Bool)
  | fire (timer : Nat) (now : Int) (spawned : Bool)
  | signal
  | stopChildrenEnds (timedOut : Bool)

def step (s : State) (e : Event) : State :=
  match s.starting, e with
  | service :: rest, .next now spawned => s.next service rest now spawned
  -- a process may end at any time, what waits for it only runs between tasks
  | _, .exit c code => s.exit c code
  | [], .exited c now spawned => s.exited c now spawned
  | [], .fire t now spawned => s.fire t now spawned
  | [], .signal => s.shutdown 0
  | [], .stopChildrenEnds timedOut => s.stopChildrenEnds timedOut
  | _, _ => s

def run (services : Services) (es : List Event) : State := Run.exec step (.init services) es

/-! ## What is asked of it -/

def OneChild (s : State) : Prop :=
  ∀ (c d : Nat) (chC chD : Child), s.children[c]? = some chC → s.children[d]? = some chD →
    chC.Alive → chD.Alive → chC.service = chD.service → c = d

def OneTimer (s : State) : Prop :=
  ∀ t ∈ s.armed, ∀ u ∈ s.armed, ∀ tmT tmU : Timer, s.restarts[t]? = some (.delayed tmT) →
    s.restarts[u]? = some (.delayed tmU) → tmT.service = tmU.service → t = u

def restartsOf (service : Service) (rs : List Restart) : List Restart := rs.filter (·.service = service)

/-- The restart counts as the first in a row: nothing failed before it, or the run it follows was
stable. -/
def BeginsRow (before : List Restart) (t : Timer) : Prop :=
  before = [] ∨ (∃ sv, before.getLast? = some (.atOnce sv)) ∨ t.Stable

/-- A service's restarts by a timer, in a row after the first: the `k`th waits `initial * 2 ^ k`, and
never more than the maximum. -/
def DelaysDouble (s : State) : Prop :=
  ∀ (service : Service) (before : List Restart) (first : Timer) (row : List Timer)
      (after : List Restart) (k : Nat) (t : Timer),
    restartsOf service s.restarts = before ++ (first :: row).map .delayed ++ after →
    BeginsRow before first → (∀ u ∈ row, ¬ u.Stable) → (first :: row)[k]? = some t →
    (∃ on, service.onExit = .restart t.backoff on) ∧ t.delay = min t.backoff.maxMs (t.backoff.initialMs * 2 ^ k)

/-! ## The history and the failures counted -/

/-- The failures in a row after one more restart. -/
def count (k : Nat) : Restart → Nat
  | .atOnce _ => 0
  | .delayed t => (if t.Stable then 0 else k) + 1

def streak (rs : List Restart) : Nat := rs.foldl count 0

@[simp] theorem streak_nil : streak [] = 0 := rfl

@[simp] theorem streak_concat (rs : List Restart) (r : Restart) : streak (rs ++ [r]) = count (streak rs) r := by
  rw [streak, foldl_append]
  rfl

theorem restartsOf_append (service : Service) (rs : List Restart) (r : Restart) : restartsOf service (rs ++ [r]) =
      if r.service = service then restartsOf service rs ++ [r] else restartsOf service rs := by
  rw [restartsOf, filter_append, filter_singleton]
  by_cases h : r.service = service
  · simp [h, restartsOf]
  · simp [h, restartsOf]

/-- A member of a list with one more at its end is the last, or was there. -/
theorem concat_eq_append_cons {α : Type*} {xs before after : List α} {x y : α} (h : xs ++ [y] = before ++ x :: after) :
    xs = before ∧ y = x ∨ ∃ after', xs = before ++ x :: after' := by
  rcases eq_nil_or_concat after with rfl | ⟨after', z, rfl⟩
  · have hp := append_inj' h rfl
    exact .inl ⟨hp.1, singleton_inj.mp hp.2⟩
  · rw [concat_eq_append, ← cons_append, ← append_assoc] at h
    exact .inr ⟨after', (append_inj' h rfl).1⟩

structure History (services : Services) (rs : List Restart) (failures : AList fun _ : String => Nat) : Prop where
  known : ∀ r ∈ rs, r.service ∈ services.list
  failures_eq : ∀ v ∈ services.list, (failures.lookup v.name).getD 0 = streak (restartsOf v rs)
  counted : ∀ (v : Service) (before : List Restart) (t : Timer) (after : List Restart),
    restartsOf v rs = before ++ .delayed t :: after →
    (∃ on, v.onExit = .restart t.backoff on) ∧ t.delay = t.backoff.delay (if t.Stable then 0 else streak before)

variable {services : Services}

theorem Services.eq_of_name {w : Service} (hv : v ∈ services.list) (hw : w ∈ services.list)
    (h : v.name = w.name) : v = w :=
  inj_on_of_nodup_map services.names_nodup hv hw h

theorem History.init : History services [] ∅ :=
  { known := by intro r hr; cases hr
    failures_eq := by intro v _; rfl
    counted := by intro v before t after h; cases before <;> cases h }

theorem History.atOnce (h : History services rs fs) (hv : v ∈ services.list) :
    History services (rs ++ [.atOnce v]) (fs.erase v.name) := by
  constructor
  · intro r hr
    rcases mem_concat_cases hr with hr | rfl
    · exact h.known r hr
    · exact hv
  · intro w hw
    rw [restartsOf_append]
    by_cases hn : v = w
    · subst hn
      rw [AList.lookup_erase, if_pos (show (Restart.atOnce v).service = v from rfl), streak_concat]
      rfl
    have hne : w.name ≠ v.name := fun he => hn (Services.eq_of_name hv hw he.symm)
    rw [AList.lookup_erase_ne hne, if_neg (show (Restart.atOnce v).service ≠ w from hn)]
    exact h.failures_eq w hw
  · intro w before t after he
    rw [restartsOf_append] at he
    split at he
    · rcases concat_eq_append_cons he with ⟨_, hx⟩ | ⟨after', he'⟩
      · cases hx
      · exact h.counted w before t after' he'
    · exact h.counted w before t after he

/-- The failures in a row that `scheduleRestart` counts before a timer of its own. -/
def previous (fs : AList fun _ : String => Nat) (t : Timer) : Nat :=
  if t.Stable then 0 else (fs.lookup t.service.name).getD 0

theorem History.previous_eq (h : History services rs fs) (ht : t.service ∈ services.list) :
    previous fs t = if t.Stable then 0 else streak (restartsOf t.service rs) := by
  rw [previous, h.failures_eq t.service ht]

theorem History.delayed {on : Option ExitReason} (h : History services rs fs) (ht : t.service ∈ services.list)
    (hb : t.service.onExit = .restart t.backoff on)
    (hd : t.delay = t.backoff.delay (previous fs t)) :
    History services (rs ++ [.delayed t]) (fs.insert t.service.name (previous fs t + 1)) := by
  have hp := h.previous_eq ht
  constructor
  · intro r hr
    rcases mem_concat_cases hr with hr | rfl
    · exact h.known r hr
    · exact ht
  · intro w hw
    rw [restartsOf_append]
    by_cases hn : t.service = w
    · subst hn
      rw [AList.lookup_insert, if_pos (show (Restart.delayed t).service = t.service from rfl), streak_concat, hp]
      rfl
    have hne : w.name ≠ t.service.name := fun he => hn (Services.eq_of_name ht hw he.symm)
    rw [AList.lookup_insert_ne hne, if_neg (show (Restart.delayed t).service ≠ w from hn)]
    exact h.failures_eq w hw
  · intro w before u after he
    rw [restartsOf_append] at he
    split at he
    next hw =>
      rcases concat_eq_append_cons he with ⟨rfl, hx⟩ | ⟨after', he'⟩
      · cases hx
        cases hw
        exact ⟨⟨on, hb⟩, hd.trans (congrArg t.backoff.delay hp)⟩
      · exact h.counted w before u after' he'
    · exact h.counted w before u after he

/-! ### A row of restarts -/

theorem streak_row (before : List Restart) (first : Timer) (row : List Timer) (hrow : ∀ u ∈ row, ¬ u.Stable) :
    streak (before ++ (first :: row).map .delayed) = (if first.Stable then 0 else streak before) + 1 + row.length := by
  induction row using List.reverseRecOn with
  | nil =>
    rw [map_singleton, streak_concat]
    rfl
  | append_singleton row u ih =>
    have hu : ¬ u.Stable := hrow u (by simp)
    have hrow' : ∀ u ∈ row, ¬ u.Stable := fun v hv => hrow v (by simp [hv])
    rw [← cons_append, map_append, ← append_assoc, map_singleton,
      streak_concat, ih hrow', count, if_neg hu, length_append, length_singleton]
    omega

theorem BeginsRow.previous {before : List Restart} {first : Timer} (h : BeginsRow before first) :
    (if first.Stable then 0 else streak before) = 0 := by
  rcases h with rfl | ⟨sv, hl⟩ | hs
  · simp
  · obtain ⟨before', rfl⟩ := getLast?_eq_some_iff.mp hl
    rw [streak_concat, count, ite_self]
  · rw [if_pos hs]

/-- The `k`th of a row has `k` failures before it. -/
theorem BeginsRow.previous_get {before : List Restart} {first : Timer} {row : List Timer}
    (h : BeginsRow before first) (hrow : ∀ u ∈ row, ¬ u.Stable) {k : Nat}
    (ht : (first :: row)[k]? = some t) :
    (if t.Stable then 0 else streak (before ++ ((first :: row).take k).map .delayed)) = k := by
  cases k with
  | zero =>
    cases ht
    rw [take_zero, map_nil, append_nil]
    exact h.previous
  | succ k =>
    have hk : row[k]? = some t := ht
    have hu : ¬ t.Stable := hrow t (mem_of_getElem? hk)
    have hlen : k < row.length := lt_of_getElem? hk
    rw [if_neg hu, take_succ_cons,
      streak_row before first (row.take k) fun u hm => hrow u (mem_of_mem_take hm), h.previous,
      List.length_take]
    omega

theorem History.delaysDouble {s : State} (h : History services s.restarts s.failures) : DelaysDouble s := by
  intro v before first row after k t he hb hrow ht
  have hsplit : first :: row = (first :: row).take k ++ t :: (first :: row).drop (k + 1) := by
    obtain ⟨hlt, rfl⟩ := List.getElem?_eq_some_iff.mp ht
    rw [← List.drop_eq_getElem_cons hlt, List.take_append_drop]
  have hat : restartsOf v s.restarts = (before ++ ((first :: row).take k).map .delayed) ++
      .delayed t :: (((first :: row).drop (k + 1)).map .delayed ++ after) := by
    rw [he, hsplit, map_append, map_cons, append_assoc, append_assoc,
      append_assoc, cons_append, ← hsplit]
  have hc := h.counted v _ t _ hat
  refine ⟨hc.1, ?_⟩
  rw [hc.2, hb.previous_get hrow ht, Backoff.delay]

/-! ## One child or one timer of each service -/

structure Inv (services : Services) (s : State) : Prop where
  starting : s.starting <:+ services.list
  /-- The services the loop has not come to have nothing yet. -/
  fresh : ∀ v ∈ s.starting, s.running.lookup v.name = none ∧ s.restartTimers.lookup v.name = none
  child_known : ∀ (c : Nat) (child : Child), s.children[c]? = some child → child.service ∈ services.list
  tracked : ∀ (c : Nat) (child : Child), s.children[c]? = some child → child.Alive →
    s.stopping = true ∨ s.running.lookup child.service.name = some c
  one_child : OneChild s
  armed_set : ∀ t ∈ s.armed, ∃ timer, s.restarts[t]? = some (.delayed timer) ∧
    s.restartTimers.lookup timer.service.name = some t
  /-- A service with a timer has no child that is tracked. -/
  exclusive : ∀ n t, s.restartTimers.lookup n = some t → s.running.lookup n = none
  history : History services s.restarts s.failures

structure Free (services : Services) (s : State) (v : Service) : Prop where
  known : v ∈ services.list
  running : s.running.lookup v.name = none
  timer : s.restartTimers.lookup v.name = none
  come : ∀ u ∈ s.starting, u.name ≠ v.name

theorem Inv.init : Inv services (.init services) :=
  { starting := suffix_rfl
    fresh := by intro v _; exact ⟨rfl, rfl⟩
    child_known := by intro c child h; cases h
    tracked := by intro c child h; cases h
    one_child := by intro c d chC chD h; cases h
    armed_set := by intro t h; cases h
    exclusive := by intro n t h; cases h
    history := History.init }

variable {s : State}

theorem Inv.oneTimer (h : Inv services s) : OneTimer s := by
  intro t ht u hu tmT tmU hT hU he
  obtain ⟨tm, htm, hlt⟩ := h.armed_set t ht
  obtain ⟨um, hum, hlu⟩ := h.armed_set u hu
  cases htm.symm.trans hT
  cases hum.symm.trans hU
  rw [he, hlu] at hlt
  exact (Option.some_inj.mp hlt).symm

theorem Inv.shutdown (h : Inv services s) (code : Nat) : Inv services (s.shutdown code) := by
  rw [State.shutdown]
  split
  · exact h
  exact
    { h with
      fresh := by intro v _; exact ⟨rfl, rfl⟩
      tracked := by intro c child _ _; exact .inl rfl
      armed_set := by
        intro t ht
        -- each timer that is set is in the map, so none is left
        obtain ⟨hm, hv⟩ := mem_filter.mp ht
        obtain ⟨timer, _, hl⟩ := h.armed_set t hm
        have hmem : t ∈ values s.restartTimers := mem_map.mpr ⟨⟨_, t⟩, AList.mem_lookup_iff.mp hl, rfl⟩
        exact absurd hmem (by simpa using hv)
      exclusive := by intro n t hl; cases hl }

theorem Inv.spawned (h : Inv services s) (hf : Free services s v) (hs : s.stopping = false) (now : Int) : Inv services
      { s with
        children := s.children ++ [⟨v, now, none⟩]
        running := s.running.insert v.name s.children.length } := by
  -- nothing of the service is alive: it would be tracked
  have hdead : ∀ (c : Nat) (child : Child), s.children[c]? = some child → child.Alive → child.service ≠ v := by
    intro c child hc ha he
    rcases h.tracked c child hc ha with hst | hl
    · cases hs.symm.trans hst
    · rw [he, hf.running] at hl
      cases hl
  exact
    { h with
      fresh := by
        intro u hu
        rw [AList.lookup_insert_ne (hf.come u hu)]
        exact h.fresh u hu
      child_known := by
        intro c child hc
        rcases getElem?_concat_cases hc with hc | ⟨_, rfl⟩
        · exact h.child_known c child hc
        · exact hf.known
      tracked := by
        intro c child hc ha
        right
        rcases getElem?_concat_cases hc with hc | ⟨rfl, rfl⟩
        · have hne : child.service.name ≠ v.name := fun he =>
            hdead c child hc ha (Services.eq_of_name (h.child_known c child hc) hf.known he)
          rw [AList.lookup_insert_ne hne]
          exact (h.tracked c child hc ha).resolve_left (by rw [hs]; decide)
        · exact AList.lookup_insert _
      one_child := by
        intro c d chC chD hc hd ha hb he
        rcases getElem?_concat_cases hc with hc | ⟨rfl, rfl⟩ <;> rcases getElem?_concat_cases hd with hd | ⟨rfl, rfl⟩
        · exact h.one_child c d chC chD hc hd ha hb he
        · exact absurd he (hdead c chC hc ha)
        · exact absurd he.symm (hdead d chD hd hb)
        · rfl
      exclusive := by
        intro n t hl
        have hne : n ≠ v.name := by
          rintro rfl
          rw [hf.timer] at hl
          cases hl
        rw [AList.lookup_insert_ne hne]
        exact h.exclusive n t hl }

theorem Inv.scheduleRestart (h : Inv services s) (hf : Free services s v)
    {b : Backoff} {on : Option ExitReason} (hb : v.onExit = .restart b on) (up : Int) :
    Inv services (s.scheduleRestart v b up) :=
  { h with
    fresh := by
      intro u hu
      refine ⟨(h.fresh u hu).1, ?_⟩
      exact (AList.lookup_insert_ne (hf.come u hu)).trans (h.fresh u hu).2
    armed_set := by
      intro t ht
      rcases mem_concat_cases ht with ht | rfl
      · obtain ⟨timer, htm, hl⟩ := h.armed_set t ht
        have hne : timer.service.name ≠ v.name := by
          intro he
          rw [he, hf.timer] at hl
          cases hl
        exact ⟨timer, getElem?_append_some htm _, (AList.lookup_insert_ne hne).trans hl⟩
      · exact ⟨_, getElem?_concat_length, AList.lookup_insert _⟩
    exclusive := by
      intro n t hl
      by_cases hn : n = v.name
      · rw [hn]
        exact hf.running
      · exact h.exclusive n t ((AList.lookup_insert_ne hn).symm.trans hl)
    history := h.history.delayed (t := ⟨v, b, up, _⟩) hf.known hb rfl }

theorem Inv.start (h : Inv services s) (hf : Free services s v) (hs : s.stopping = false) (now : Int) (spawned : Bool) :
    Inv services (s.start v now spawned) := by
  rw [State.start]
  split
  · exact h.spawned hf hs now
  split
  · exact h.shutdown 1
  next b on hb =>
    exact h.scheduleRestart hf hb 0

theorem Inv.next (h : Inv services s) {rest : List Service} (hv : s.starting = v :: rest) (now : Int) (spawned : Bool) :
    Inv services (s.next v rest now spawned) := by
  have hsuf : v :: rest <:+ services.list := hv ▸ h.starting
  have hrest : rest <:+ services.list := (suffix_cons v rest).trans hsuf
  have hfresh := h.fresh v (by rw [hv]; exact mem_cons_self)
  rw [State.next]
  split
  · exact { h with starting := nil_suffix, fresh := by intro u hu; cases hu }
  rename_i hs
  have hnodup : ((v :: rest).map Service.name).Nodup := services.names_nodup.sublist (hsuf.sublist.map _)
  have h' : Inv services { s with starting := rest } :=
    { h with
      starting := hrest
      fresh := fun u hu => h.fresh u (by rw [hv]; exact mem_cons_of_mem v hu) }
  refine h'.start ⟨hsuf.mem mem_cons_self, hfresh.1, hfresh.2, ?_⟩ (by simpa using hs) now spawned
  intro u hu he
  exact (nodup_cons.mp hnodup).1 (he ▸ mem_map_of_mem hu)

theorem Inv.exit (h : Inv services s) (c code : Nat) : Inv services (s.exit c code) := by
  rw [State.exit]
  split
  next child hc =>
    split
    · -- a child that is alive after this was alive before it
      have hold : ∀ (d : Nat) (ch : Child), (s.children.set c { child with exitCode := some code })[d]? = some ch →
          s.children[d]? = some ch ∨ d = c ∧ ch.service = child.service ∧ ¬ ch.Alive := by
        intro d ch hd
        rcases getElem?_set_cases hd with ⟨rfl, rfl⟩ | ⟨_, hd⟩
        · exact .inr ⟨rfl, rfl, nofun⟩
        · exact .inl hd
      exact
        { h with
          child_known := by
            intro d ch hd
            rcases hold d ch hd with hd | ⟨rfl, he, _⟩
            · exact h.child_known d ch hd
            · rw [he]
              exact h.child_known d child hc
          tracked := by
            intro d ch hd ha
            rcases hold d ch hd with hd | ⟨_, _, hna⟩
            · exact h.tracked d ch hd ha
            · exact absurd ha hna
          one_child := by
            intro d e chD chE hd he ha hb heq
            rcases hold d chD hd with hd | ⟨_, _, hna⟩
            · rcases hold e chE he with he | ⟨_, _, hnb⟩
              · exact h.one_child d e chD chE hd he ha hb heq
              · exact absurd hb hnb
            · exact absurd ha hna }
    · exact h
  · exact h

theorem Inv.untracked (h : Inv services s) {c code : Nat} {startedAt : Int}
    (hc : s.children[c]? = some ⟨v, startedAt, some code⟩)
    (hr : s.running.lookup v.name = some c) (hnil : s.starting = []) :
    Inv services { s with running := s.running.erase v.name } ∧
      Free services { s with running := s.running.erase v.name } v := by
  constructor
  · exact
      { h with
        fresh := by
          intro u hu
          rw [hnil] at hu
          cases hu
        tracked := by
          intro d ch hd ha
          rcases h.tracked d ch hd ha with hs | hl
          · exact .inl hs
          right
          have hne : ch.service.name ≠ v.name := by
            intro he
            rw [he, hr] at hl
            cases hl
            cases hd.symm.trans hc
            cases ha
          rw [AList.lookup_erase_ne hne]
          exact hl
        exclusive := by
          intro n t hl
          by_cases hn : n = v.name
          · rw [hn]
            exact AList.lookup_erase _ _
          · rw [AList.lookup_erase_ne hn]
            exact h.exclusive n t hl }
  · refine ⟨h.child_known c _ hc, AList.lookup_erase _ _, ?_, ?_⟩
    · cases ht : s.restartTimers.lookup v.name with
      | none => rfl
      | some t =>
        rw [h.exclusive v.name t ht] at hr
        cases hr
    · intro u hu
      rw [hnil] at hu
      cases hu

theorem Inv.ended (h : Inv services s) (hf : Free services s v)
    (hs : s.stopping = false) (startedAt : Int) (code : Nat) (now : Int) (spawned : Bool) :
    Inv services (s.ended v startedAt code now spawned) := by
  rw [State.ended]
  split
  · have h' : Inv services { s with failures := s.failures.erase v.name, restarts := s.restarts ++ [.atOnce v] } :=
      { h with
        armed_set := by
          intro t ht
          obtain ⟨timer, htm, hl⟩ := h.armed_set t ht
          exact ⟨timer, getElem?_append_some htm _, hl⟩
        history := h.history.atOnce hf.known }
    exact h'.start { hf with } hs now spawned
  · split
    · exact h.shutdown _
    rename_i b on hb
    split
    · exact h
    · exact h.scheduleRestart hf hb _

theorem Inv.exited (h : Inv services s) (hnil : s.starting = []) (c : Nat) (now : Int)
    (spawned : Bool) : Inv services (s.exited c now spawned) := by
  rw [State.exited]
  split
  next v startedAt code hc =>
    split
    · exact h
    rename_i hr
    obtain ⟨h', hf⟩ := h.untracked hc (not_not.mp hr) hnil
    show Inv services (if s.stopping = true then _ else _)
    split
    · exact h'
    next hs =>
      exact h'.ended hf (by simpa using hs) startedAt code now spawned
  · exact h

theorem Inv.fire (h : Inv services s) (hnil : s.starting = []) (t : Nat) (now : Int)
    (spawned : Bool) : Inv services (s.fire t now spawned) := by
  rw [State.fire]
  split
  next timer ht =>
    split
    next hm =>
      obtain ⟨tm, htm, hl⟩ := h.armed_set t hm
      cases htm.symm.trans ht
      have h' : Inv services
          { s with
            armed := s.armed.filter (· ≠ t)
            restartTimers := s.restartTimers.erase timer.service.name } :=
        { h with
          fresh := by
            intro u hu
            rw [hnil] at hu
            cases hu
          armed_set := by
            intro u hu
            obtain ⟨hum, hut⟩ := mem_filter.mp hu
            obtain ⟨um, hur, hul⟩ := h.armed_set u hum
            refine ⟨um, hur, ?_⟩
            have hne : um.service.name ≠ timer.service.name := by
              intro he
              rw [he, hl] at hul
              cases hul
              simp at hut
            rw [AList.lookup_erase_ne hne]
            exact hul
          exclusive := by
            intro n u hu
            by_cases hn : n = timer.service.name
            · rw [hn, AList.lookup_erase] at hu
              cases hu
            · rw [AList.lookup_erase_ne hn] at hu
              exact h.exclusive n u hu }
      show Inv services (if s.stopping = true then _ else _)
      split
      · exact h'
      rename_i hs
      refine h'.start ⟨?_, ?_, AList.lookup_erase _ _, ?_⟩ (by simpa using hs) now spawned
      · exact h.history.known _ (mem_of_getElem? ht)
      · exact h.exclusive _ t hl
      · intro u hu
        rw [hnil] at hu
        cases hu
    · exact h
  · exact h

theorem Inv.stopChildrenEnds (h : Inv services s) (timedOut : Bool) : Inv services (s.stopChildrenEnds timedOut) := by
  rw [State.stopChildrenEnds]
  split
  · split
    · exact h
    split
    · exact { h with }
    split
    · exact { h with }
    · exact h
  · exact h

theorem Inv.kept (h : Inv services s) (e : Event) : Inv services (step s e) := by
  unfold step
  split
  · exact h.next ‹_› _ _
  · exact h.exit _ _
  · exact h.exited ‹_› _ _ _
  · exact h.fire ‹_› _ _ _
  · exact h.shutdown 0
  · exact h.stopChildrenEnds _
  · exact h

theorem run_inv (services : Services) (es : List Event) : Inv services (run services es) :=
  Run.exec_invariant (Inv services) (fun _ e h => h.kept e) Inv.init es

/-! ## Once the supervisor stops -/

/-- It stops, having started `n` children. -/
def Stopped (n : Nat) (s : State) : Prop := s.stopping = true ∧ s.children.length = n

theorem Stopped.shutdown (h : Stopped n s) (code : Nat) : Stopped n (s.shutdown code) := by
  rw [State.shutdown, if_pos h.1]
  exact h

theorem Stopped.kept (h : Stopped n s) (e : Event) : Stopped n (step s e) := by
  unfold step
  split
  · rw [State.next, if_pos h.1]
    exact h
  · rw [State.exit]
    split
    · split
      · exact ⟨h.1, length_set.trans h.2⟩
      · exact h
    · exact h
  · rw [State.exited]
    split
    · split
      · exact h
      show Stopped n (if s.stopping = true then _ else _)
      rw [if_pos h.1]
      exact h
    · exact h
  · rw [State.fire]
    split
    · split
      · show Stopped n (if s.stopping = true then _ else _)
        rw [if_pos h.1]
        exact h
      · exact h
    · exact h
  · exact h.shutdown 0
  · rw [State.stopChildrenEnds]
    split
    · split
      · exact h
      split
      · exact h
      split
      · exact h
      · exact h
    · exact h
  · exact h

theorem Stopped.exec (h : Stopped n s) (es : List Event) : Stopped n (Run.exec step s es) :=
  Run.exec_invariant (Stopped n) (fun _ e h => h.kept e) h es

/-- **The supervisor**, over every order of what its children, its timers and signals do. -/
theorem supervised (services : Services) (es : List Event) :
    OneChild (run services es) ∧ OneTimer (run services es) ∧ DelaysDouble (run services es) ∧
      ((run services es).stopping = true → ∀ fs,
        (run services (es ++ fs)).children.length = (run services es).children.length) := by
  have h := run_inv services es
  refine ⟨h.one_child, h.oneTimer, h.history.delaysDouble, ?_⟩
  intro hs fs
  have hstop : Stopped (run services es).children.length (run services es) := ⟨hs, rfl⟩
  rw [run, Run.exec_append]
  exact (hstop.exec fs).2

/-- A node that does not start waits a second, then two; a stable run returns it to one. -/
example : (run (createServices .start) [.next 0 true, .next 0 false, .fire 0 10 false, .fire 1 20 true, .exit 1 1,
        .exited 1 40000 true]).restarts.map (fun r => match r with
          | .delayed t => t.delay
          | .atOnce _ => 0) = [1000, 2000, 1000] := by
  decide

end Reins.Supervisor
