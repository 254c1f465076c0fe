import Mathlib.Data.UInt

/-!
# Runs of a state machine

A machine is its step function: the event says everything the environment chose, so the next
state is computed. A run is a list of events, folded over the step. What is proved about runs
is proved here once, by induction on that list: a property one step keeps holds at the end of
every run, and a property that one step keeps *when a side condition holds where it is taken*
holds at the end of every run all of whose steps meet it.
-/

namespace Run

variable {σ ε τ : Type*}

def exec (step : σ → ε → σ) (s : σ) (es : List ε) : σ := es.foldl step s

@[simp] theorem exec_nil (step : σ → ε → σ) (s : σ) : exec step s [] = s := rfl

@[simp] theorem exec_cons (step : σ → ε → σ) (s : σ) (e : ε) (es : List ε) :
    exec step s (e :: es) = exec step (step s e) es := rfl

theorem exec_append (step : σ → ε → σ) (s : σ) (es fs : List ε) :
    exec step s (es ++ fs) = exec step (exec step s es) fs := List.foldl_append

/-- `ok` holds of every step the run takes, read in the state the step is taken in. -/
def Along (step : σ → ε → σ) (ok : σ → ε → Prop) : σ → List ε → Prop
  | _, [] => True
  | s, e :: es => ok s e ∧ Along step ok (step s e) es

instance Along.decidable (step : σ → ε → σ) (ok : σ → ε → Prop) [∀ s e, Decidable (ok s e)]
    (s : σ) (es : List ε) : Decidable (Along step ok s es) :=
  match es with
  | [] => .isTrue trivial
  | e :: es =>
    have := Along.decidable step ok (step s e) es
    inferInstanceAs (Decidable (ok s e ∧ Along step ok (step s e) es))

theorem along_of_forall {step : σ → ε → σ} {P : ε → Prop} {s : σ} {es : List ε} (h : ∀ e ∈ es, P e) :
    Along step (fun _ e => P e) s es := by
  induction es generalizing s with
  | nil => trivial
  | cons e es ih => exact ⟨h e (List.mem_cons_self ..), ih fun e' he' => h e' (List.mem_cons_of_mem e he')⟩

theorem along_append (step : σ → ε → σ) (ok : σ → ε → Prop) (s : σ) (es fs : List ε) :
    Along step ok s (es ++ fs) ↔ Along step ok s es ∧ Along step ok (exec step s es) fs := by
  induction es generalizing s with
  | nil => simp [Along]
  | cons e es ih => rw [List.cons_append, Along, Along, exec_cons, ih, and_assoc]

theorem Along.and {step : σ → ε → σ} {ok ok' : σ → ε → Prop} {s : σ} {es : List ε} (h : Along step ok s es)
    (h' : Along step ok' s es) : Along step (fun s e => ok s e ∧ ok' s e) s es := by
  induction es generalizing s with
  | nil => trivial
  | cons e es ih => exact ⟨⟨h.1, h'.1⟩, ih h.2 h'.2⟩

/-- **The invariant rule.** -/
theorem exec_invariant {step : σ → ε → σ} (Inv : σ → Prop)
    (hstep : ∀ s e, Inv s → Inv (step s e)) {s : σ} (hs : Inv s) (es : List ε) :
    Inv (exec step s es) := by
  induction es generalizing s with
  | nil => exact hs
  | cons e es ih => exact ih (hstep s e hs)

/-- The invariant rule along the runs whose steps all meet `ok`. -/
theorem Along.invariant {step : σ → ε → σ} {ok : σ → ε → Prop} (Inv : σ → Prop)
    (hstep : ∀ s e, ok s e → Inv s → Inv (step s e)) {s : σ} (hs : Inv s) {es : List ε}
    (hes : Along step ok s es) : Inv (exec step s es) := by
  induction es generalizing s with
  | nil => exact hs
  | cons e es ih => exact ih (hstep s e hes.1 hs) hes.2

theorem Along.of_invariant {step : σ → ε → σ} {ok P : σ → ε → Prop} (Inv : σ → Prop)
    (hstep : ∀ s e, ok s e → Inv s → Inv (step s e)) (hP : ∀ s e, ok s e → Inv s → P s e) {s : σ}
    (hs : Inv s) {es : List ε} (hes : Along step ok s es) : Along step P s es := by
  induction es generalizing s with
  | nil => trivial
  | cons e es ih => exact ⟨hP s e hes.1 hs, ih (hstep s e hes.1 hs) hes.2⟩

/-- Two conditions that agree where an invariant holds agree along every run that keeps it. -/
theorem Along.congr_invariant {step : σ → ε → σ} {ok P Q : σ → ε → Prop} (Inv : σ → Prop)
    (hstep : ∀ s e, ok s e → Inv s → Inv (step s e)) (hPQ : ∀ s e, ok s e → Inv s → (P s e ↔ Q s e)) {s : σ}
    (hs : Inv s) {es : List ε} (hes : Along step ok s es) : Along step P s es ↔ Along step Q s es := by
  induction es generalizing s with
  | nil => exact Iff.rfl
  | cons e es ih => exact and_congr (hPQ s e hes.1 hs) (ih (hstep s e hes.1 hs) hes.2)

/-- The same of a step that keeps an invariant and is judged where the invariant holds. -/
theorem exec_iff_along_of {step : σ → ε → σ} {ok : σ → ε → Prop} (Base Inv : σ → Prop)
    (hbase : ∀ s e, Base s → Base (step s e))
    (hstep : ∀ s e, Base s → (Inv (step s e) ↔ Inv s ∧ ok s e)) {s : σ} (hs : Base s)
    (es : List ε) : Inv (exec step s es) ↔ Inv s ∧ Along step ok s es := by
  induction es generalizing s with
  | nil => simp [Along]
  | cons e es ih => rw [exec_cons, ih (hbase s e hs), hstep s e hs, Along, and_assoc]

/-- `P` holds of every state the run comes to. -/
abbrev Always (step : σ → ε → σ) (P : σ → Prop) : σ → List ε → Prop := Along step fun s e => P (step s e)

/-- What a step from a state that has it keeps exactly when it meets `ok`, every state of a run has
exactly when all the run's steps meet `ok`; an invariant may be used in showing it. -/
theorem always_iff_along_of {step : σ → ε → σ} {ok : σ → ε → Prop} (Base Inv : σ → Prop)
    (hbase : ∀ s e, Base s → Base (step s e))
    (hstep : ∀ s e, Base s → Inv s → (Inv (step s e) ↔ ok s e)) {s : σ} (hb : Base s) (hs : Inv s)
    (es : List ε) : Always step Inv s es ↔ Along step ok s es := by
  induction es generalizing s with
  | nil => exact Iff.rfl
  | cons e es ih =>
    constructor
    · intro h
      exact ⟨(hstep s e hb hs).mp h.1, (ih (hbase s e hb) h.1).mp h.2⟩
    intro h
    have hi := (hstep s e hb hs).mpr h.1
    exact ⟨hi, (ih (hbase s e hb) hi).mpr h.2⟩

theorem always_iff_along {step : σ → ε → σ} {ok : σ → ε → Prop} (Inv : σ → Prop)
    (hstep : ∀ s e, Inv s → (Inv (step s e) ↔ ok s e)) {s : σ} (hs : Inv s) (es : List ε) :
    Always step Inv s es ↔ Along step ok s es :=
  always_iff_along_of (fun _ => True) Inv (fun _ _ => id) (fun s e _ => hstep s e) trivial hs es

/-- What a step has exactly when it meets `ok`, where an invariant holds that such steps keep, all of a run's
steps have exactly when all meet `ok`. -/
theorem along_iff_along_under {step : σ → ε → σ} {ok P : σ → ε → Prop} (Inv : σ → Prop)
    (hP : ∀ s e, Inv s → (P s e ↔ ok s e)) (hstep : ∀ s e, Inv s → ok s e → Inv (step s e)) {s : σ} (hs : Inv s)
    (es : List ε) : Along step P s es ↔ Along step ok s es := by
  induction es generalizing s with
  | nil => exact Iff.rfl
  | cons e es ih =>
    constructor
    · intro h
      have hok := (hP s e hs).mp h.1
      exact ⟨hok, (ih (hstep s e hs hok)).mp h.2⟩
    · intro h
      exact ⟨(hP s e hs).mpr h.1, (ih (hstep s e hs h.1)).mpr h.2⟩

theorem always_iff_along_under {step : σ → ε → σ} {ok : σ → ε → Prop} (Inv P : σ → Prop)
    (hP : ∀ s e, Inv s → (P (step s e) ↔ ok s e)) (hstep : ∀ s e, Inv s → ok s e → Inv (step s e)) {s : σ} (hs : Inv s)
    (es : List ε) : Always step P s es ↔ Along step ok s es :=
  along_iff_along_under Inv hP hstep hs es

/-- Two side conditions that agree wherever an invariant holds agree along every run from there. -/
theorem along_congr_of {step : σ → ε → σ} {ok ok' : σ → ε → Prop} (Base : σ → Prop)
    (hbase : ∀ s e, Base s → Base (step s e)) (hok : ∀ s e, Base s → (ok s e ↔ ok' s e)) {s : σ}
    (hs : Base s) (es : List ε) : Along step ok s es ↔ Along step ok' s es := by
  induction es generalizing s with
  | nil => exact Iff.rfl
  | cons e es ih => exact and_congr (hok s e hs) (ih (hbase s e hs))

/-! ### Families of machines -/

section

variable {κ : Type*} [DecidableEq κ]

/-- One machine a key: an event goes to its key's. -/
def stepAt (step : κ → σ → ε → σ) (s : κ → σ) (e : κ × ε) : κ → σ := Function.update s e.1 (step e.1 (s e.1) e.2)

def ofKey (k : κ) (es : List (κ × ε)) : List ε := es.filterMap fun e => if e.1 = k then some e.2 else none

theorem mem_ofKey {k : κ} {es : List (κ × ε)} {e : ε} : e ∈ ofKey k es ↔ (k, e) ∈ es := by
  unfold ofKey
  rw [List.mem_filterMap]
  constructor
  · rintro ⟨⟨k', e'⟩, he, heq⟩
    split at heq
    next hk =>
      rw [← Option.some_inj.mp heq, ← hk]
      exact he
    · cases heq
  · intro he
    exact ⟨(k, e), he, if_pos rfl⟩

/-- What a machine comes to it comes to by its own events. -/
theorem exec_stepAt (step : κ → σ → ε → σ) (s : κ → σ) (es : List (κ × ε)) (k : κ) :
    exec (stepAt step) s es k = exec (step k) (s k) (ofKey k es) := by
  induction es generalizing s with
  | nil => rfl
  | cons e es ih =>
    rw [exec_cons, ih]
    by_cases hk : e.1 = k
    · subst hk
      simp [stepAt, ofKey]
    · simp [stepAt, ofKey, hk, Function.update_of_ne (Ne.symm hk)]

end

end Run
