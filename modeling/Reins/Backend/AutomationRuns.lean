import Mathlib.Data.List.Basic
import Mathlib.Data.List.Pairwise

/-!
# Run records of an automation (`backend/src/extensions/automations/store.ts`)

One automation's rows of `automation_runs`, oldest first. A row that is added drops those before the latest
`KEPT_RUNS`, whether or not their runs have ended.
-/

namespace Reins.AutomationRuns

open List

inductive RunOutcome
  | sent
  | skipped
  | running
  | completed
  | failed
  | cancelled
  | lost
  deriving DecidableEq

/-- The sessions of an automation, in the order of their starts. -/
abbrev SessionId := Nat

structure RunRow where
  id : Nat
  sessionId : Option SessionId
  outcome : RunOutcome
  deriving DecidableEq

@[irreducible] def KEPT_RUNS : Nat := 200

structure Store where
  rows : List RunRow
  nextId : Nat
  sorted : rows.Pairwise (·.id < ·.id)
  id_lt : ∀ r ∈ rows, r.id < nextId

def Store.empty : Store := { rows := [], nextId := 0, sorted := .nil, id_lt := by simp }

variable {r : RunRow} {s : Store} {outcome : RunOutcome} {f : Option SessionId → Option SessionId}
  {g : RunOutcome → RunOutcome}

/-- What deleting all but the latest leaves. -/
@[irreducible] def latest (rows : List RunRow) : List RunRow := rows.drop (rows.length - KEPT_RUNS)

theorem latest_sublist (rows : List RunRow) : (latest rows).Sublist rows := by
  unfold latest
  exact drop_sublist ..

def Store.pruned (s : Store) : List RunRow := s.rows.take (s.rows.length + 1 - KEPT_RUNS)

def Store.addRun (s : Store) (sessionId : Option SessionId) (outcome : RunOutcome) : Store where
  rows := latest (s.rows ++ [⟨s.nextId, sessionId, outcome⟩])
  nextId := s.nextId + 1
  sorted := by
    refine List.Pairwise.sublist (latest_sublist _)
      (pairwise_append.mpr ⟨s.sorted, pairwise_singleton .., ?_⟩)
    intro r hr r' hr'
    rw [mem_singleton.mp hr']
    exact s.id_lt r hr
  id_lt := by
    intro r hr
    rcases mem_append.mp ((latest_sublist _).subset hr) with hr | hr
    · exact Nat.lt_succ_of_lt (s.id_lt r hr)
    · obtain rfl := mem_singleton.mp hr
      exact Nat.lt_succ_self _

def Store.modify (s : Store) (id : Nat) (sessionId : Option SessionId → Option SessionId)
    (outcome : RunOutcome → RunOutcome) : Store where
  rows := s.rows.map fun r => if r.id = id then ⟨r.id, sessionId r.sessionId, outcome r.outcome⟩ else r
  nextId := s.nextId
  sorted := by
    rw [pairwise_map]
    refine s.sorted.imp fun {r r'} hlt => ?_
    split <;> split <;> exact hlt
  id_lt := by
    intro r hr
    obtain ⟨r', hr', rfl⟩ := mem_map.mp hr
    split <;> exact s.id_lt r' hr'

def Store.setRunSession (s : Store) (runId : Nat) (sessionId : SessionId) : Store :=
  s.modify runId (fun _ => some sessionId) id

def Store.endRun (s : Store) (runId : Nat) (outcome : RunOutcome) : Store := s.modify runId id fun _ => outcome

/-- The runs in progress, the latest first. -/
def Store.running (s : Store) : List RunRow := (s.rows.filter (·.outcome = .running)).reverse

def Store.runningOn (s : Store) (sessionId : SessionId) : List RunRow :=
  (s.rows.filter fun r => r.sessionId = some sessionId ∧ r.outcome = .running).reverse

def Store.endRuns (s : Store) (runs : List RunRow) (outcome : RunOutcome) : Store :=
  runs.foldl (fun s r => s.endRun r.id outcome) s

/-! ## What is in the store -/

theorem Store.eq_of_id (s : Store) {r' : RunRow} (hr : r ∈ s.rows) (hr' : r' ∈ s.rows) (h : r.id = r'.id) : r = r' := by
  by_contra hne
  have hids : s.rows.Pairwise fun r r' => r.id ≠ r'.id := s.sorted.imp Nat.ne_of_lt
  have hsymm : Std.Symm fun r r' : RunRow => r.id ≠ r'.id := ⟨fun _ _ hne => hne.symm⟩
  exact hids.forall hr hr' hne h

theorem Store.mem_running : r ∈ s.running ↔ r ∈ s.rows ∧ r.outcome = .running := by
  simp [Store.running]

theorem Store.mem_runningOn {sessionId : SessionId} :
    r ∈ s.runningOn sessionId ↔ r ∈ s.rows ∧ r.sessionId = some sessionId ∧ r.outcome = .running := by
  simp [Store.runningOn]

theorem Store.running_nodup (s : Store) : (s.running.map (·.id)).Nodup := by
  rw [Store.running, map_reverse, List.Nodup, pairwise_reverse, pairwise_map]
  exact (s.sorted.sublist filter_sublist).imp fun hlt => Nat.ne_of_gt hlt

theorem latest_concat (rows : List RunRow) (r : RunRow) :
    latest (rows ++ [r]) = rows.drop (rows.length + 1 - KEPT_RUNS) ++ [r] := by
  have hle : rows.length + 1 - KEPT_RUNS ≤ rows.length := by
    unfold KEPT_RUNS
    omega
  unfold latest
  rw [length_append, length_singleton, drop_append_of_le_length hle]

theorem Store.mem_addRun {sessionId : Option SessionId} : r ∈ (s.addRun sessionId outcome).rows ↔
      r ∈ s.rows.drop (s.rows.length + 1 - KEPT_RUNS) ∨ r = ⟨s.nextId, sessionId, outcome⟩ := by
  have hrows := latest_concat s.rows ⟨s.nextId, sessionId, outcome⟩
  simp only [Store.addRun]
  rw [hrows, mem_append, mem_singleton]

theorem Store.added (s : Store) (sessionId : Option SessionId) (outcome : RunOutcome) :
    ⟨s.nextId, sessionId, outcome⟩ ∈ (s.addRun sessionId outcome).rows :=
  Store.mem_addRun.mpr (.inr rfl)

theorem Store.kept (hr : r ∈ s.rows) (hpruned : r ∉ s.pruned)
    (sessionId : Option SessionId) (outcome : RunOutcome) : r ∈ (s.addRun sessionId outcome).rows := by
  refine Store.mem_addRun.mpr (.inl ?_)
  rw [← take_append_drop (s.rows.length + 1 - KEPT_RUNS) s.rows, mem_append] at hr
  exact hr.resolve_left hpruned

theorem Store.mem_modify {id : Nat} (hr : r ∈ s.rows) (hid : r.id = id) : ⟨r.id, f r.sessionId, g r.outcome⟩ ∈ (s.modify id f g).rows :=
  mem_map.mpr ⟨r, hr, if_pos hid⟩

theorem Store.mem_modify_of_ne {id : Nat} (hr : r ∈ s.rows) (hid : r.id ≠ id) : r ∈ (s.modify id f g).rows :=
  mem_map.mpr ⟨r, hr, if_neg hid⟩

theorem Store.of_mem_modify {id : Nat} (h : r ∈ (s.modify id f g).rows) :
    (∃ r' ∈ s.rows, r'.id = id ∧ r = ⟨r'.id, f r'.sessionId, g r'.outcome⟩) ∨ r ∈ s.rows ∧ r.id ≠ id := by
  obtain ⟨r', hr', rfl⟩ := mem_map.mp h
  split
  next hid =>
    exact .inl ⟨r', hr', hid, rfl⟩
  next hid =>
    exact .inr ⟨hr', hid⟩

theorem Store.mem_endRuns_of_notMem {runs : List RunRow}
    (hr : r ∈ s.rows) (hids : ∀ x ∈ runs, r.id ≠ x.id) : r ∈ (s.endRuns runs outcome).rows := by
  induction runs generalizing s with
  | nil => exact hr
  | cons x runs ih =>
    exact ih (s.mem_modify_of_ne hr (hids x mem_cons_self)) fun y hy => hids y (mem_cons_of_mem x hy)

theorem Store.endRuns_nextId (s : Store) (runs : List RunRow) (outcome : RunOutcome) :
    (s.endRuns runs outcome).nextId = s.nextId := by
  induction runs generalizing s with
  | nil => rfl
  | cons r runs ih => exact ih (s.endRun r.id outcome)

theorem Store.of_mem_endRuns {runs : List RunRow} (houtcome : outcome ≠ .running) (hr : r ∈ (s.endRuns runs outcome).rows) (hopen : r.outcome = .running) :
    r ∈ s.rows ∧ ∀ x ∈ runs, r.id ≠ x.id := by
  induction runs generalizing s with
  | nil => exact ⟨hr, nofun⟩
  | cons y runs ih =>
    obtain ⟨hr, hrest⟩ := ih hr
    rcases Store.of_mem_modify hr with ⟨r', -, -, rfl⟩ | ⟨hr, hne⟩
    · exact absurd hopen houtcome
    refine ⟨hr, fun x hx => ?_⟩
    rcases mem_cons.mp hx with rfl | hx
    · exact hne
    · exact hrest x hx

end Reins.AutomationRuns
