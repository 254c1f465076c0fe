import Reins.Lib.Commits
import Reins.Lib.Schema

/-!
# Database migrations (`backend/src/migrations.ts`)

`runMigrations` applies what is not applied yet, in order, and records each migration by its name. A script
is given to `db.exec`, where every statement commits by itself; a function runs its own transaction, one
commit; the record is a commit of its own. What a statement does to the schema and data (`σ`) is a change of
`Reins/Lib/Commits.lean`, under the `PRAGMA`s its script has set by then.
-/

namespace Reins.Migrations

open Commits Schema Utf List

variable {σ : Type}

abbrev Name := JsString

/-- The schema and data, and the names in the table `migrations`: none before there is one. -/
structure Database (σ : Type) where
  content : σ
  migrations : Option (List Name)
  deriving DecidableEq

def Database.applied (db : Database σ) : List Name := db.migrations.getD []

inductive Migration (σ : Type)
  | sql (statements : List (Change σ))
  | function (run : Change σ)

variable {db db' : Database σ} {ms : List (Name × Migration σ)} {name : Name} {migration : Migration σ}
  {found applied : List Name}

def Migration.commits : Migration σ → List (Change σ)
  | .sql statements => statements
  | .function run => [run]

def onContent (c : Change σ) : Change (Database σ) := fun db => (c db.content).map fun content => { db with content }

/-- `CREATE TABLE IF NOT EXISTS migrations`. -/
def createMigrations : Change (Database σ) := fun db => some { db with migrations := some db.applied }

def insertMigration (name : Name) : Change (Database σ) := fun db =>
  match db.migrations with
  | none => none
  | some names => if name ∈ names then none else some { db with migrations := some (names ++ [name]) }

def migrate (applied : List Name) (name : Name) (migration : Migration σ) : Program (Database σ) Unit := do
  if name ∈ applied then return
  match migration with
  | .sql statements => commitAll (statements.map onContent)
  | .function run => commit (onContent run)
  commit (insertMigration name)

def runMigrations (migrations : List (Name × Migration σ)) : Program (Database σ) Unit := do
  commit createMigrations
  let applied := (← get).store.applied
  forM migrations fun (name, migration) => migrate applied name migration

abbrev run (migrations : List (Name × Migration σ)) (db : Database σ) : Option (Database σ) :=
  finished (runMigrations migrations) db

/-- What a run leaves whose process stops after `n` commits, if it is still running then. -/
abbrev stoppedAfter (n : Nat) (migrations : List (Name × Migration σ)) (db : Database σ) : Database σ :=
  left (runMigrations migrations) db (some n)

/-- Wherever the process stops, running the migrations again comes to what one uninterrupted run does. -/
def Survives (migrations : List (Name × Migration σ)) (db : Database σ) : Prop :=
  ∀ db', run migrations db = some db' → ∀ n, run migrations (stoppedAfter n migrations db) = some db'

/-- After any number of its commits the migration can be run again, to what it comes to when run once. -/
def Repeatable (migration : Migration σ) (content : σ) : Prop :=
  ∀ content', changeAll migration.commits content = some content' →
    ∀ n part, changeAll (migration.commits.take n) content = some part →
      changeAll migration.commits part = some content'

def RepeatableIn (migrations : List (Name × Migration σ)) (db : Database σ) : Prop :=
  ∀ before name migration after, migrations = before ++ (name, migration) :: after →
    name ∉ db.applied → ∀ db₁, run before db = some db₁ →
      (run (before ++ [(name, migration)]) db).isSome → Repeatable migration db₁.content

/-! ## A run as its commits -/

def commitsOf (name : Name) (migration : Migration σ) : List (Change (Database σ)) :=
  migration.commits.map onContent ++ [insertMigration name]

/-- What a run commits after it has found `applied`. -/
def pending (applied : List Name) : List (Name × Migration σ) → List (Change (Database σ))
  | [] => []
  | (name, migration) :: rest =>
    if name ∈ applied then pending applied rest else commitsOf name migration ++ pending applied rest

theorem migrate_eq (applied : List Name) (name : Name) (migration : Migration σ) : migrate applied name migration =
      if name ∈ applied then pure () else commitAll (commitsOf name migration) := by
  unfold migrate
  split
  · rfl
  rw [commitsOf, commitAll_append, commitAll_singleton]
  cases migration with
  | sql statements => rfl
  | function run => rw [Migration.commits, map_singleton, commitAll_singleton]

theorem forM_migrate (applied : List Name) (migrations : List (Name × Migration σ)) :
    (forM migrations fun (name, migration) => migrate applied name migration) =
      commitAll (pending applied migrations) := by
  induction migrations with
  | nil => rfl
  | cons m rest ih =>
    obtain ⟨name, migration⟩ := m
    rw [forM_cons, ih, pending]
    simp only [migrate_eq]
    split
    · rfl
    · rw [commitAll_append]

def Database.ready (db : Database σ) : Database σ := { db with migrations := some db.applied }

/-- **A run is its commits**: the table, then what is pending on the names found there. -/
theorem runMigrations_eq (migrations : List (Name × Migration σ)) (db : Database σ) (n : Option Nat) :
    runMigrations migrations ⟨db, n⟩ = commitAll (createMigrations :: pending db.applied migrations) ⟨db, n⟩ := by
  rw [runMigrations, commitAll_cons, bind_run, bind_run]
  rcases n with _ | _ | n
  · simp only [commit, createMigrations]
    rw [← forM_migrate]
    rfl
  · rfl
  · simp only [commit, createMigrations]
    rw [← forM_migrate]
    rfl

theorem run_eq (migrations : List (Name × Migration σ)) (db : Database σ) :
    run migrations db = changeAll (pending db.applied migrations) db.ready := by
  rw [run, finished, runMigrations_eq]
  exact finished_commitAll (createMigrations :: pending db.applied migrations) db

theorem stoppedAfter_zero (migrations : List (Name × Migration σ)) (db : Database σ) :
    stoppedAfter 0 migrations db = db := by
  rw [stoppedAfter, left, runMigrations_eq]
  rfl

theorem stoppedAfter_succ {migrations : List (Name × Migration σ)} {x : Database σ} {n : Nat}
    (h : changeAll ((pending db.applied migrations).take n) db.ready = some x) :
    stoppedAfter (n + 1) migrations db = x := by
  rw [stoppedAfter, left, runMigrations_eq]
  have htake : changeAll ((createMigrations :: pending db.applied migrations).take (n + 1)) db = some x := h
  exact left_commitAll htake

theorem pending_append (applied : List Name) (ms ns : List (Name × Migration σ)) :
    pending applied (ms ++ ns) = pending applied ms ++ pending applied ns := by
  induction ms with
  | nil => rfl
  | cons m ms ih =>
    rw [cons_append, pending, pending, ih]
    split
    · rfl
    · rw [append_assoc]

theorem changeAll_onContent (cs : List (Change σ)) (db : Database σ) : changeAll (cs.map onContent) db =
      (changeAll cs db.content).map fun content => { db with content } := by
  induction cs generalizing db with
  | nil => rfl
  | cons c cs ih =>
    rw [map_cons, changeAll_cons, changeAll_cons, onContent]
    cases c db.content with
    | none => rfl
    | some content => exact ih _

theorem changeAll_commitsOf (hdb : db.migrations.isSome) : changeAll (commitsOf name migration) db = some db' ↔
      name ∉ db.applied ∧ ∃ content, changeAll migration.commits db.content = some content ∧
        db' = ⟨content, some (db.applied ++ [name])⟩ := by
  obtain ⟨names, hnames⟩ := Option.isSome_iff_exists.mp hdb
  rw [commitsOf, changeAll_append, changeAll_onContent]
  cases changeAll migration.commits db.content with
  | none => simp
  | some content =>
    by_cases hin : name ∈ names
    · simp [insertMigration, Database.applied, hnames, hin]
    · simp [insertMigration, Database.applied, hnames, hin, eq_comm]

theorem ready_eq (hdb : db.migrations.isSome) : db.ready = db := by
  obtain ⟨names, hnames⟩ := Option.isSome_iff_exists.mp hdb
  cases db
  simp_all [Database.ready, Database.applied]

/-! ## What is recorded -/

/-- A change that takes no record away. -/
def Grows (c : Change (Database σ)) : Prop :=
  ∀ db db', db.migrations.isSome → c db = some db' → db'.migrations.isSome ∧ db.applied ⊆ db'.applied

theorem grows_onContent (c : Change σ) : Grows (onContent c) := by
  intro db db' hdb h
  obtain ⟨content, -, rfl⟩ := Option.map_eq_some_iff.mp h
  exact ⟨hdb, List.Subset.refl _⟩

theorem grows_insertMigration (name : Name) : Grows (insertMigration name : Change (Database σ)) := by
  intro db db' hdb h
  obtain ⟨names, hnames⟩ := Option.isSome_iff_exists.mp hdb
  simp only [insertMigration, hnames] at h
  split at h
  · cases h
  · cases h
    simp [Database.applied, hnames]

theorem grows_of_mem_pending {c : Change (Database σ)} (hc : c ∈ pending applied ms) : Grows c := by
  induction ms with
  | nil => cases hc
  | cons m rest ih =>
    rw [pending] at hc
    split at hc
    · exact ih hc
    rcases mem_append.mp hc with hc | hc
    · rcases mem_append.mp hc with hc | hc
      · obtain ⟨c', -, rfl⟩ := mem_map.mp hc
        exact grows_onContent c'
      · obtain rfl := mem_singleton.mp hc
        exact grows_insertMigration _
    · exact ih hc

theorem grows_changeAll {cs : List (Change (Database σ))} (hcs : ∀ c ∈ cs, Grows c) : Grows (changeAll cs) := by
  induction cs with
  | nil =>
    intro db db' hdb h
    obtain rfl : db = db' := by simpa using h
    exact ⟨hdb, List.Subset.refl _⟩
  | cons c cs ih =>
    intro db db' hdb h
    rw [changeAll_cons] at h
    obtain ⟨db₁, h₁, h⟩ := Option.bind_eq_some_iff.mp h
    obtain ⟨hdb₁, hsub⟩ := hcs c mem_cons_self db db₁ hdb h₁
    obtain ⟨hdb', hsub'⟩ := ih (fun c hc => hcs c (mem_cons_of_mem _ hc)) db₁ db' hdb₁ h
    exact ⟨hdb', List.Subset.trans hsub hsub'⟩

theorem grows_pending_take (applied : List Name) (ms : List (Name × Migration σ)) (n : Nat) :
    Grows (changeAll ((pending applied ms).take n)) :=
  grows_changeAll fun _ hc => grows_of_mem_pending (mem_of_mem_take hc)

theorem grows_pending (applied : List Name) (ms : List (Name × Migration σ)) :
    Grows (changeAll (pending applied ms)) := grows_changeAll fun _ => grows_of_mem_pending

theorem mem_applied_of_pending (hdb : db.migrations.isSome) (ha : applied ⊆ db.applied)
    (h : changeAll (pending applied ms) db = some db')
    (hm : (name, migration) ∈ ms) : name ∈ db'.applied := by
  induction ms generalizing db with
  | nil => cases hm
  | cons m rest ih =>
    obtain ⟨name', migration'⟩ := m
    rw [pending] at h
    split at h
    next hin =>
      rcases mem_cons.mp hm with hm | hm
      · cases hm
        exact (grows_pending applied rest db db' hdb h).2 (ha hin)
      · exact ih hdb ha h hm
    · obtain ⟨db₁, h₁, hrest⟩ := changeAll_append_eq_some.mp h
      obtain ⟨-, content, -, rfl⟩ := (changeAll_commitsOf hdb).mp h₁
      rcases mem_cons.mp hm with hm | hm
      · cases hm
        exact (grows_pending applied rest _ db' rfl hrest).2 (mem_append_right _ (mem_singleton_self _))
      · exact ih rfl (fun _ hx => mem_append_left _ (ha hx)) hrest hm

theorem pending_eq_nil (h : ∀ m ∈ ms, m.1 ∈ applied) : pending applied ms = [] := by
  induction ms with
  | nil => rfl
  | cons m rest ih =>
    rw [pending, if_pos (h m mem_cons_self)]
    exact ih fun m hm => h m (mem_cons_of_mem _ hm)

/-- A run that comes to its end had found everything recorded when it began: what it did not find it
recorded itself, which the primary key allows once. -/
theorem pending_congr {recorded : List Name}
    (hdb : db.migrations.isSome) (hfound : found ⊆ recorded) (hrec : recorded ⊆ db.applied)
    (h : changeAll (pending found ms) db = some db') : pending recorded ms = pending found ms := by
  induction ms generalizing db with
  | nil => rfl
  | cons m rest ih =>
    obtain ⟨name, migration⟩ := m
    rw [pending] at h
    rw [pending, pending]
    split at h
    next hin =>
      rw [if_pos hin, if_pos (hfound hin)]
      exact ih hdb hrec h
    next hnin =>
      obtain ⟨db₁, h₁, h⟩ := changeAll_append_eq_some.mp h
      obtain ⟨hname, content, -, rfl⟩ := (changeAll_commitsOf hdb).mp h₁
      rw [if_neg hnin, if_neg (fun hin => hname (hrec hin)), ih rfl (fun _ hx => mem_append_left _ (hrec hx)) h]

/-! ## Stopping and running again -/

def RepeatableFrom (found : List Name) (ms : List (Name × Migration σ)) (db : Database σ) : Prop :=
  ∀ before name migration after, ms = before ++ (name, migration) :: after → name ∉ found →
    ∀ db₁, changeAll (pending found before) db = some db₁ →
      (changeAll (commitsOf name migration) db₁).isSome → Repeatable migration db₁.content

theorem RepeatableFrom.skip {rest : List (Name × Migration σ)}
    (h : RepeatableFrom found ((name, migration) :: rest) db) (hin : name ∈ found) :
    RepeatableFrom found rest db := by
  rintro before name' migration' after rfl hnin db₁ h₁ hsome
  exact h ((name, migration) :: before) name' migration' after rfl hnin db₁
    (by rw [pending, if_pos hin]; exact h₁) hsome

theorem RepeatableFrom.next {rest : List (Name × Migration σ)} {db₁ : Database σ}
    (h : RepeatableFrom found ((name, migration) :: rest) db) (hnin : name ∉ found)
    (h₁ : changeAll (commitsOf name migration) db = some db₁) : RepeatableFrom found rest db₁ := by
  rintro before name' migration' after rfl hnin' db₂ h₂ hsome
  refine h ((name, migration) :: before) name' migration' after rfl hnin' db₂ ?_ hsome
  rw [pending, if_neg hnin, changeAll_append_eq_some]
  exact ⟨db₁, h₁, h₂⟩

/-- **The run lemma**: wherever a run of repeatable migrations stops, what is pending then comes to what
the run does. The induction is on the migrations left; the one it stopped in is run again, the ones before
it are found recorded. -/
theorem rerun_pending {x : Database σ} {n : Nat} (hdb : db.migrations.isSome) (hfound : found ⊆ db.applied)
    (hrep : RepeatableFrom found ms db) (h : changeAll (pending found ms) db = some db')
    (hx : changeAll ((pending found ms).take n) db = some x) :
    changeAll (pending x.applied ms) x = some db' := by
  induction ms generalizing db n with
  | nil =>
    obtain rfl : db = x := by simpa [pending] using hx
    exact h
  | cons m rest ih =>
    obtain ⟨name, migration⟩ := m
    by_cases hin : name ∈ found
    · rw [pending, if_pos hin] at h hx
      have hgrow := grows_pending_take found rest n db x hdb hx
      rw [pending, if_pos (hgrow.2 (hfound hin))]
      exact ih hdb hfound (hrep.skip hin) h hx
    rw [pending, if_neg hin] at h hx
    obtain ⟨db₁, h₁, h⟩ := changeAll_append_eq_some.mp h
    have hrep₁ := hrep [] name migration rest rfl hin db rfl (h₁ ▸ rfl)
    have hnext := hrep.next hin h₁
    obtain ⟨hname, content, hcontent, hdb₁⟩ := (changeAll_commitsOf hdb).mp h₁
    have happlied₁ : db₁.applied = db.applied ++ [name] := hdb₁ ▸ rfl
    have hdb₁' : db₁.migrations.isSome := hdb₁ ▸ rfl
    have hfound₁ : found ⊆ db₁.applied := by
      rw [happlied₁]
      exact fun _ hy => mem_append_left _ (hfound hy)
    by_cases hn : n ≤ migration.commits.length
    · -- it stopped before the record: the migration is run again
      have htake : (commitsOf name migration ++ pending found rest).take n =
          (migration.commits.take n).map onContent := by
        rw [commitsOf, append_assoc, take_append_of_le_length (by simpa using hn), map_take]
      rw [htake, changeAll_onContent] at hx
      obtain ⟨part, hpart, rfl⟩ := Option.map_eq_some_iff.mp hx
      have hagain : changeAll (commitsOf name migration) { db with content := part } = some db₁ :=
        (changeAll_commitsOf (by exact hdb)).mpr ⟨hname, content, hrep₁ content hcontent n part hpart, hdb₁⟩
      have hrest : pending db.applied rest = pending found rest :=
        pending_congr hdb₁' hfound (by rw [happlied₁]; exact subset_append_left _ _) h
      have happlied : ({ db with content := part } : Database σ).applied = db.applied := rfl
      rw [happlied, pending, if_neg hname, hrest, changeAll_append_eq_some]
      exact ⟨db₁, hagain, h⟩
    · -- it stopped later: the migration is found recorded
      have hlen : (commitsOf name migration).length ≤ n := by
        simp [commitsOf]
        omega
      rw [take_append, take_of_length_le hlen, changeAll_append_eq_some] at hx
      obtain ⟨db₁', h₁', hx⟩ := hx
      cases h₁'.symm.trans h₁
      have hgrow := grows_pending_take found rest _ _ x hdb₁' hx
      rw [pending, if_pos (hgrow.2 (by simp [happlied₁]))]
      exact ih hdb₁' hfound₁ hnext h hx

theorem repeatableIn_iff : RepeatableIn ms db ↔ RepeatableFrom db.applied ms db.ready := by
  have hrun (before : List (Name × Migration σ)) (name : Name) (migration : Migration σ)
      (hnin : name ∉ db.applied) {db₁ : Database σ} (h₁ : run before db = some db₁) :
      run (before ++ [(name, migration)]) db = changeAll (commitsOf name migration) db₁ := by
    rw [run_eq] at h₁ ⊢
    rw [pending_append, changeAll_append, h₁]
    simp [pending, hnin]
  constructor
  · intro h before name migration after hms hnin db₁ h₁ hsome
    rw [← run_eq] at h₁
    exact h before name migration after hms hnin db₁ h₁ (by rw [hrun before name migration hnin h₁]; exact hsome)
  intro h before name migration after hms hnin db₁ h₁ hsome
  rw [hrun before name migration hnin h₁] at hsome
  exact h before name migration after hms hnin db₁ (by rw [← run_eq]; exact h₁) hsome

theorem RepeatableIn.survives (h : RepeatableIn ms db) : Survives ms db := by
  intro db' hrun n
  cases n with
  | zero =>
    rw [stoppedAfter_zero]
    exact hrun
  | succ n =>
    rw [run_eq] at hrun
    obtain ⟨x, hx⟩ := exists_changeAll_take hrun n
    have hready := (grows_pending_take db.applied ms n db.ready x rfl hx).1
    rw [stoppedAfter_succ hx, run_eq, ready_eq hready]
    exact rerun_pending rfl (List.Subset.refl _) (repeatableIn_iff.mp h) hrun hx

theorem RepeatableIn.take (h : RepeatableIn ms db) (l : Nat) : RepeatableIn (ms.take l) db := by
  intro before name migration after hms
  refine h before name migration (after ++ ms.drop l) ?_
  rw [← cons_append, ← append_assoc, ← hms, take_append_drop]

theorem Survives.repeatable {before : List (Name × Migration σ)}
    {db₁ : Database σ} (h : Survives (before ++ [(name, migration)]) db) (hnin : name ∉ db.applied)
    (h₁ : run before db = some db₁) (hsome : (run (before ++ [(name, migration)]) db).isSome) :
    Repeatable migration db₁.content := by
  obtain ⟨db', hrun⟩ := Option.isSome_iff_exists.mp hsome
  rw [run_eq] at h₁
  have hpending : pending db.applied (before ++ [(name, migration)]) =
      pending db.applied before ++ commitsOf name migration := by
    simp [pending_append, pending, hnin]
  have hdb₁ := (grows_pending db.applied before db.ready db₁ rfl h₁).1
  have hlast : changeAll (commitsOf name migration) db₁ = some db' := by
    rw [run_eq, hpending, changeAll_append, h₁] at hrun
    exact hrun
  obtain ⟨hname, content, hcontent, rfl⟩ := (changeAll_commitsOf hdb₁).mp hlast
  intro content' hcontent' n part hpart
  cases hcontent.symm.trans hcontent'
  -- the process stops `k` commits into the migration
  obtain ⟨k, hk, htake⟩ : ∃ k ≤ migration.commits.length, migration.commits.take n = migration.commits.take k :=
    ⟨_, Nat.min_le_right n _, by simp⟩
  rw [htake] at hpart
  have hx : changeAll ((pending db.applied (before ++ [(name, migration)])).take
      ((pending db.applied before).length + k)) db.ready = some { db₁ with content := part } := by
    rw [hpending, take_length_add_append, changeAll_append, h₁, commitsOf,
      take_append_of_le_length (by simpa using hk), ← map_take, Option.bind_some,
      changeAll_onContent, hpart]
    rfl
  have hagain := h _ hrun ((pending db.applied before).length + k + 1)
  have hrecorded : ∀ m ∈ before, m.1 ∈ db₁.applied := fun m hm =>
    mem_applied_of_pending rfl (List.Subset.refl _) h₁ (show (m.1, m.2) ∈ before from hm)
  have happlied : ({ db₁ with content := part } : Database σ).applied = db₁.applied := rfl
  rw [stoppedAfter_succ hx, run_eq, ready_eq (by exact hdb₁), happlied, pending_append,
    pending_eq_nil hrecorded, nil_append, pending, if_neg hname, pending, append_nil,
    changeAll_commitsOf (by exact hdb₁)] at hagain
  obtain ⟨-, content', hcontent', heq⟩ := hagain
  rw [hcontent']
  exact congrArg (some ∘ Database.content) heq.symm

/-- **Migrations survive a crash exactly where each of them can be run again** after any number of its own
commits: the lists of migrations that are a beginning of this one, a release each, all survive one. -/
theorem survives_iff_repeatable (migrations : List (Name × Migration σ)) (db : Database σ) :
    (∀ l, Survives (migrations.take l) db) ↔ RepeatableIn migrations db := by
  constructor
  · intro h before name migration after hms hnin db₁ h₁ hsome
    have htake : migrations.take (before.length + 1) = before ++ [(name, migration)] := by
      rw [hms, take_length_add_append]
      rfl
    exact (htake ▸ h (before.length + 1)).repeatable hnin h₁ hsome
  · intro h l
    exact (h.take l).survives

/-- **Releases may be skipped**: what a release's migrations come to, they come to over an earlier release's. -/
theorem run_over_earlier (ms ns : List (Name × Migration σ)) (db : Database σ) :
    run (ms ++ ns) db = none ∨ (run ms db).bind (run (ms ++ ns)) = run (ms ++ ns) db := by
  cases h : run (ms ++ ns) db with
  | none => exact .inl rfl
  | some db' =>
    right
    rw [run_eq, pending_append] at h
    obtain ⟨db₁, h₁, h₂⟩ := changeAll_append_eq_some.mp h
    obtain ⟨hdb₁, hfound⟩ := grows_pending db.applied ms db.ready db₁ rfl h₁
    have hms : pending db₁.applied ms = [] := pending_eq_nil fun _ hm =>
      mem_applied_of_pending rfl (List.Subset.refl _) h₁ hm
    have hns := pending_congr hdb₁ hfound (List.Subset.refl _) h₂
    rw [run_eq, h₁, Option.bind_some, run_eq, pending_append, hms, nil_append, ready_eq hdb₁, hns]
    exact h₂

/-! ## Scripts that cannot be run again -/

structure Table where
  name : JsString
  columns : List JsString
  deriving DecidableEq

/-- The schema of a database without rows. -/
structure Schema where
  tables : List Table
  indexes : List JsString
  deriving DecidableEq

def createTable (name : String) (columns : List String) : Change Schema := fun s =>
  if s.tables.any (·.name = js name) then none
  else some { s with tables := s.tables ++ [⟨js name, columns.map js⟩] }

def createIndex (name table : String) (columns : List String) : Change Schema := fun s =>
  if js name ∈ s.indexes then none
  else if s.tables.any fun t => t.name = js table && columns.all fun c => js c ∈ t.columns then
    some { s with indexes := s.indexes ++ [js name] }
  else none

/-- `ALTER TABLE … ADD COLUMN`: a table that has the column already is an error. -/
def addColumn (table column : String) : Change Schema := fun s =>
  if s.tables.any fun t => t.name = js table && js column ∉ t.columns then
    some { s with
      tables := s.tables.map fun t => if t.name = js table then ⟨t.name, t.columns ++ [js column]⟩ else t }
  else none

def migration022 : Name × Migration Schema :=
  (js "022_create_code_reviews", .sql [
      createTable "code_reviews" ["id", "project_id", "task_id", "status", "annotations_json", "revision",
        "created_at", "updated_at"],
      createIndex "idx_code_reviews_scope" "code_reviews" ["project_id", "task_id", "status", "updated_at"]])

def migration024 : Name × Migration Schema :=
  (js "024_add_code_review_submission_receipt", .sql [ addColumn "code_reviews" "submitted_session_id",
      addColumn "code_reviews" "submitted_message_id",
      createIndex "idx_code_reviews_submitted_message" "code_reviews" ["submitted_message_id"]])

/-- The process stops between the first two statements of a script: run again, the first one finds its
column there. -/
theorem stopped_script_not_survived : ¬∀ (migrations : List (Name × Migration Schema)) (k : Nat) (db : Database Schema),
      run (migrations.take k) ⟨⟨[], []⟩, none⟩ = some db → Survives migrations db := by
  intro h
  have hsurvives := h [migration022, migration024] 1 _ (by rfl)
  have hrun := hsurvives _ (by rfl) 2
  exact absurd hrun (by decide +kernel)

end Reins.Migrations
