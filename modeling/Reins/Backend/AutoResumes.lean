import Mathlib
import Reins.Lib.Run

/-!
# Automatic resumes (`takeAutoResume`, `backend/src/sessions/session-runs.ts`)

The column `sessions.auto_resumes`, each session's own, and the asks of a run of the server in the order of
their transactions. What was granted to whom is kept beside the table: no code reads it.
-/

namespace Reins.AutoResumes

open Run List

abbrev SessionId := String

def AUTO_RESUME_LIMIT : Nat := 3

def AUTO_RESUME_WINDOW_MS : Int := 600000

/-- A session's row, if it has one, with its `auto_resumes`. -/
abbrev Row := Option (Option (List Int))

abbrev Sessions := SessionId → Row

def recent (times : List Int) (now : Int) : List Int := times.filter fun time => now - time < AUTO_RESUME_WINDOW_MS

def allowed (row : Row) (now : Int) : Bool :=
  (recent ((row.bind id).getD []) now).length < AUTO_RESUME_LIMIT

/-- What the `UPDATE` leaves of a session's row, if it has one. -/
def spent (row : Row) (now : Int) : Row := row.map fun resumes =>
  some (if allowed row now then recent (resumes.getD []) now ++ [now] else recent (resumes.getD []) now)

def takeAutoResume (db : Sessions) (sessionId : SessionId) (now : Int) : Sessions × Bool :=
  (Function.update db sessionId (spent (db sessionId) now), allowed (db sessionId) now)

structure State where
  db : Sessions
  granted : SessionId → List Int

def step (s : State) (ask : SessionId × Int) : State :=
  let taken := takeAutoResume s.db ask.1 ask.2
  ⟨taken.1, if taken.2 then Function.update s.granted ask.1 (s.granted ask.1 ++ [ask.2]) else s.granted⟩

def run (db : Sessions) (asks : List (SessionId × Int)) : State := exec step ⟨db, fun _ => []⟩ asks

def timesOf (id : SessionId) (asks : List (SessionId × Int)) : List Int := (asks.filter (·.1 = id)).map (·.2)

/-! ## One session on its own -/

/-- A session's row and its grants. -/
def State.own (s : State) (id : SessionId) : Row × List Int := (s.db id, s.granted id)

def ownStep (o : Row × List Int) (now : Int) : Row × List Int :=
  (spent o.1 now, if allowed o.1 now then o.2 ++ [now] else o.2)

theorem own_step (s : State) (ask : SessionId × Int) (id : SessionId) :
    (step s ask).own id = if ask.1 = id then ownStep (s.own id) ask.2 else s.own id := by
  by_cases hid : ask.1 = id
  · subst hid
    by_cases hok : allowed (s.db ask.1) ask.2 <;> simp [step, takeAutoResume, State.own, ownStep, hok]
  · have hne : id ≠ ask.1 := fun h => hid h.symm
    by_cases hok : allowed (s.db ask.1) ask.2 <;> simp [step, takeAutoResume, State.own, hok, hid, hne]

theorem own_exec (s : State) (asks : List (SessionId × Int)) (id : SessionId) :
    (exec step s asks).own id = exec ownStep (s.own id) (timesOf id asks) := by
  induction asks generalizing s with
  | nil => rfl
  | cons ask asks ih =>
    rw [exec_cons, ih, own_step]
    by_cases hid : ask.1 = id <;> simp [timesOf, hid]

theorem own_run (db : Sessions) (asks : List (SessionId × Int)) (id : SessionId) :
    (run db asks).own id = exec ownStep (db id, []) (timesOf id asks) := own_exec _ asks id

/-! ## The window -/

/-- The row keeps every grant that a later ask may still count. -/
structure Window (now : Int) (times granted : List Int) : Prop where
  le : ∀ time ∈ granted, time ≤ now
  kept : ∀ later, now ≤ later → recent times later = recent granted later
  within : ∀ start, (granted.filter fun time => start ≤ time ∧ time < start + AUTO_RESUME_WINDOW_MS).length
    ≤ AUTO_RESUME_LIMIT

variable {now later : Int} {times granted : List Int}

theorem recent_recent (h : now ≤ later) : recent (recent times now) later = recent times later := by
  rw [recent, recent, filter_filter]
  refine filter_congr fun time _ => ?_
  simp only [← Bool.decide_and, decide_eq_decide]
  omega

theorem recent_append (times : List Int) (time : Int) (now : Int) :
    recent (times ++ [time]) now = recent times now ++ recent [time] now := filter_append ..

/-- Time passing without an ask. -/
theorem Window.mono (hw : Window now times granted) (h : now ≤ later) : Window later times granted where
  le time htime := (hw.le time htime).trans h
  kept later' h' := hw.kept later' (h.trans h')
  within := hw.within

theorem Window.grant (hw : Window now times granted) (hlt : (recent times now).length < AUTO_RESUME_LIMIT) :
    Window now (recent times now ++ [now]) (granted ++ [now]) where
  le time htime := by
    rcases mem_append.mp htime with htime | htime
    · exact hw.le time htime
    · exact (mem_singleton.mp htime).le
  kept later h := by rw [recent_append, recent_append, recent_recent h, hw.kept later h]
  within start := by
    rw [filter_append, length_append]
    by_cases hin : start ≤ now ∧ now < start + AUTO_RESUME_WINDOW_MS
    · -- a window the grant lies in begins after those that are no longer recent
      have hsub : (granted.filter fun time => start ≤ time ∧ time < start + AUTO_RESUME_WINDOW_MS).length ≤
          (recent times now).length := by
        rw [hw.kept now le_rfl, recent, ← countP_eq_length_filter, ← countP_eq_length_filter]
        refine countP_mono_left fun time _ htime => ?_
        simp only [decide_eq_true_eq] at htime ⊢
        omega
      rw [filter_cons_of_pos (by simpa using hin)]
      exact Nat.succ_le_of_lt (hsub.trans_lt hlt)
    · rw [filter_cons_of_neg (by simpa using hin)]
      exact hw.within start

theorem Window.refuse (hw : Window now times granted) : Window now (recent times now) granted where
  le := hw.le
  kept later h := by rw [recent_recent h, hw.kept later h]
  within := hw.within

/-- What a session's asks leave of a row that has none, up to the time of any later ask. -/
theorem exec_window (asks : List Int) (hsorted : asks.Pairwise (· ≤ ·)) : ∃ resumes granted,
    exec ownStep (some none, []) asks = (some resumes, granted) ∧
      ∀ now, (∀ time ∈ asks, time ≤ now) → Window now (resumes.getD []) granted := by
  induction asks using List.reverseRecOn with
  | nil => exact ⟨none, [], rfl, fun now _ => ⟨nofun, fun _ _ => rfl, fun _ => Nat.zero_le _⟩⟩
  | append_singleton asks now ih =>
    obtain ⟨hsorted, -, hle⟩ := pairwise_append.mp hsorted
    obtain ⟨resumes, granted, heq, hw⟩ := ih hsorted
    have hw := hw now fun time htime => hle time htime now (mem_singleton_self _)
    have hlast {later : Int} (h : ∀ time ∈ asks ++ [now], time ≤ later) : now ≤ later := h now (by simp)
    rw [exec_append, heq]
    by_cases hlt : (recent (resumes.getD []) now).length < AUTO_RESUME_LIMIT
    · refine ⟨some (recent (resumes.getD []) now ++ [now]), granted ++ [now], ?_, fun later h => ?_⟩
      · simp [ownStep, spent, allowed, hlt]
      · exact (hw.grant hlt).mono (hlast h)
    · refine ⟨some (recent (resumes.getD []) now), granted, ?_, fun later h => hw.refuse.mono (hlast h)⟩
      simp [ownStep, spent, allowed, hlt]

/-- **Automatic resumes are a sliding window**, each session's its own. -/
theorem takeAutoResume_window (db : Sessions) (asks : List (SessionId × Int)) (id : SessionId)
    (hrow : db id = some none) (hsorted : (timesOf id asks).Pairwise (· ≤ ·)) :
    (∀ start, (((run db asks).granted id).filter fun time =>
        start ≤ time ∧ time < start + AUTO_RESUME_WINDOW_MS).length ≤ AUTO_RESUME_LIMIT) ∧
      (∀ now, (∀ time ∈ timesOf id asks, time ≤ now) → (takeAutoResume (run db asks).db id now).2 = false →
        AUTO_RESUME_LIMIT ≤ (((run db asks).granted id).filter fun time =>
          now - AUTO_RESUME_WINDOW_MS < time ∧ time ≤ now).length) ∧
      ∀ db' asks', db' id = db id → timesOf id asks' = timesOf id asks →
        (run db' asks').db id = (run db asks).db id ∧ (run db' asks').granted id = (run db asks).granted id ∧
          ∀ now, (takeAutoResume (run db' asks').db id now).2 = (takeAutoResume (run db asks).db id now).2 := by
  have hown := own_run db asks id
  obtain ⟨resumes, granted, heq, hw⟩ := exec_window (timesOf id asks) hsorted
  rw [hrow, heq] at hown
  obtain ⟨hdb, hgranted⟩ := Prod.mk.injEq .. ▸ hown
  refine ⟨fun start => ?_, fun now hnow hno => ?_, fun db' asks' hdb' htimes => ?_⟩
  · rw [hgranted]
    obtain ⟨now, hnow⟩ := (timesOf id asks).finite_toSet.bddAbove
    exact (hw now hnow).within start
  · rw [hgranted]
    have hw := hw now hnow
    simp only [takeAutoResume, hdb, allowed, decide_eq_false_iff_not, Nat.not_lt] at hno
    refine hno.trans (le_of_eq ?_)
    change (recent (resumes.getD []) now).length = _
    rw [hw.kept now le_rfl]
    refine congrArg _ (filter_congr fun time htime => ?_)
    have := hw.le time htime
    simp only [decide_eq_decide]
    omega
  · have hown' := own_run db' asks' id
    rw [hdb', htimes, ← own_run] at hown'
    obtain ⟨hdb', hgranted'⟩ := Prod.mk.injEq .. ▸ hown'
    exact ⟨hdb', hgranted', fun now => congrArg (allowed · now) hdb'⟩

theorem takeAutoResume_window_two : (((run (fun _ => some none) [("a", 0), ("b", 1), ("a", 2)]).granted "a").filter
    fun time => 0 ≤ time ∧ time < 0 + AUTO_RESUME_WINDOW_MS).length ≤ AUTO_RESUME_LIMIT :=
  (takeAutoResume_window (fun _ => some none) [("a", 0), ("b", 1), ("a", 2)] "a" rfl (by decide)).1 0

end Reins.AutoResumes
