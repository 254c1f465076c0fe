import Mathlib.Logic.Basic

/-!
# Programs that throw, and what they leave behind

A program over a state may change it and throw after: `EStateM` hands back the state a throw left.
One that throws only before its first change leaves the state as it was, and so does any program in a
transaction.
-/

namespace Throwing

variable {ε σ α β : Type}

/-- It changes nothing, whether it throws or not. -/
def Reads (m : EStateM ε σ α) : Prop := ∀ s, (∃ a, m s = .ok a s) ∨ ∃ e, m s = .error e s

/-- A throw leaves the state as it was. -/
def Atomic (m : EStateM ε σ α) : Prop := ∀ s e s', m s = .error e s' → s' = s

def Total (m : EStateM ε σ α) : Prop := ∀ s, ∃ a s', m s = .ok a s'

/-- A transaction: what was changed before a throw is rolled back. -/
def transaction (m : EStateM ε σ α) : EStateM ε σ α := fun s =>
  match m s with
  | .ok a s' => .ok a s'
  | .error e _ => .error e s

/-! ## What a sequence did -/

theorem bind_of_ok {x : EStateM ε σ α} {s s₁ : σ} {a : α} (h : x s = .ok a s₁)
    (f : α → EStateM ε σ β) : (x >>= f) s = f a s₁ := by
  simp [bind, EStateM.bind, h]

theorem bind_of_error {x : EStateM ε σ α} {s s₁ : σ} {e : ε} (h : x s = .error e s₁)
    (f : α → EStateM ε σ β) : (x >>= f) s = .error e s₁ := by
  simp [bind, EStateM.bind, h]

theorem bind_ok {x : EStateM ε σ α} {f : α → EStateM ε σ β} {s s' : σ} {b : β}
    (h : (x >>= f) s = .ok b s') : ∃ a s₁, x s = .ok a s₁ ∧ f a s₁ = .ok b s' := by
  cases hx : x s with
  | ok a s₁ =>
    rw [bind_of_ok hx] at h
    exact ⟨a, s₁, rfl, h⟩
  | error e s₁ =>
    rw [bind_of_error hx] at h
    cases h

theorem bind_error {x : EStateM ε σ α} {f : α → EStateM ε σ β} {s s' : σ} {e : ε} (h : (x >>= f) s = .error e s') :
    x s = .error e s' ∨ ∃ a s₁, x s = .ok a s₁ ∧ f a s₁ = .error e s' := by
  cases hx : x s with
  | ok a s₁ =>
    rw [bind_of_ok hx] at h
    exact .inr ⟨a, s₁, rfl, h⟩
  | error e₁ s₁ =>
    rw [bind_of_error hx] at h
    cases h
    exact .inl rfl

theorem transaction_ok {m : EStateM ε σ α} {s s' : σ} {a : α} : transaction m s = .ok a s' ↔ m s = .ok a s' := by
  unfold transaction
  cases m s <;> simp

/-! ## Programs that read -/

theorem reads_get : Reads (get : EStateM ε σ σ) := fun s => .inl ⟨s, rfl⟩

theorem reads_pure (a : α) : Reads (pure a : EStateM ε σ α) := fun _ => .inl ⟨a, rfl⟩

theorem reads_throw (e : ε) : Reads (throw e : EStateM ε σ α) := fun _ => .inr ⟨e, rfl⟩

theorem reads_bind {x : EStateM ε σ α} {f : α → EStateM ε σ β} (hx : Reads x)
    (hf : ∀ a, Reads (f a)) : Reads (x >>= f) := by
  intro s
  rcases hx s with ⟨a, ha⟩ | ⟨e, he⟩
  · rw [bind_of_ok ha]
    exact hf a s
  · exact .inr ⟨e, bind_of_error he f⟩

theorem Reads.ok {m : EStateM ε σ α} (h : Reads m) {s s' : σ} {a : α} (hs : m s = .ok a s') : s' = s := by
  rcases h s with ⟨b, hb⟩ | ⟨e, he⟩
  · cases hb.symm.trans hs
    rfl
  · cases he.symm.trans hs

/-! ## Programs whose throws leave the state -/

theorem Reads.atomic {m : EStateM ε σ α} (h : Reads m) : Atomic m := by
  intro s e s' hs
  rcases h s with ⟨a, ha⟩ | ⟨e', he⟩
  · cases ha.symm.trans hs
  cases he.symm.trans hs
  rfl

theorem Total.atomic {m : EStateM ε σ α} (h : Total m) : Atomic m := by
  intro s e s' hs
  obtain ⟨a, s₁, ha⟩ := h s
  cases ha.symm.trans hs

/-- What throws after reading only leaves the state as it was. -/
theorem atomic_bind_of_reads {x : EStateM ε σ α} {f : α → EStateM ε σ β} (hx : Reads x)
    (hf : ∀ a, Atomic (f a)) : Atomic (x >>= f) := by
  intro s e s' hs
  rcases bind_error hs with he | ⟨a, s₁, ha, he⟩
  · exact hx.atomic s e s' he
  · cases hx.ok ha
    exact hf a _ _ _ he

/-- And so does what no longer throws once it may have changed something. -/
theorem atomic_bind_total {x : EStateM ε σ α} {f : α → EStateM ε σ β} (hx : Atomic x)
    (hf : ∀ a, Total (f a)) : Atomic (x >>= f) := by
  intro s e s' hs
  rcases bind_error hs with he | ⟨a, s₁, ha, he⟩
  · exact hx s e s' he
  obtain ⟨b, s₂, hb⟩ := hf a s₁
  cases hb.symm.trans he

theorem atomic_transaction (m : EStateM ε σ α) : Atomic (transaction m) := by
  intro s e s' hs
  unfold transaction at hs
  cases hm : m s with
  | ok a s₁ =>
    rw [hm] at hs
    cases hs
  | error e₁ s₁ =>
    rw [hm] at hs
    cases hs
    rfl

/-! ## What a program makes of the state -/

/-- From a state with `P` it ends in one with `Q`, and it throws in one with `E`. -/
def Triple (P : σ → Prop) (m : EStateM ε σ α) (Q : α → σ → Prop) (E : ε → σ → Prop) : Prop :=
  ∀ s, P s → match m s with
    | .ok a s' => Q a s'
    | .error e s' => E e s'

section

variable {P P' : σ → Prop} {Q Q' : α → σ → Prop} {R : β → σ → Prop} {E E' : ε → σ → Prop}

theorem Triple.ok {m : EStateM ε σ α} (h : Triple P m Q E) {s s' : σ} {a : α} (hs : P s) (hm : m s = .ok a s') :
    Q a s' := by
  have := h s hs
  rwa [hm] at this

theorem Triple.error {m : EStateM ε σ α} (h : Triple P m Q E) {s s' : σ} {e : ε} (hs : P s)
    (hm : m s = .error e s') : E e s' := by
  have := h s hs
  rwa [hm] at this

theorem Triple.mono {m : EStateM ε σ α} (h : Triple P m Q E) (hP : ∀ s, P' s → P s) (hQ : ∀ a s, Q a s → Q' a s)
    (hE : ∀ e s, E e s → E' e s) : Triple P' m Q' E' := by
  intro s hs
  cases hm : m s with
  | ok a s' => exact hQ a s' (h.ok (hP s hs) hm)
  | error e s' => exact hE e s' (h.error (hP s hs) hm)

theorem triple_mono_left {m : EStateM ε σ α} (hP : ∀ s, P' s → P s) (h : Triple P m Q E) : Triple P' m Q E :=
  h.mono hP (fun _ _ h => h) fun _ _ h => h

theorem Triple.bind {x : EStateM ε σ α} {f : α → EStateM ε σ β} (hx : Triple P x Q E)
    (hf : ∀ a, Triple (Q a) (f a) R E) : Triple P (x >>= f) R E := by
  intro s hs
  cases hm : x s with
  | ok a s' =>
    rw [bind_of_ok hm]
    exact hf a s' (hx.ok hs hm)
  | error e s' =>
    rw [bind_of_error hm]
    exact hx.error hs hm

/-- What does not depend on the state may be assumed of the program. -/
theorem triple_assume {p : Prop} {m : EStateM ε σ α} (h : p → Triple P m Q E) : Triple (fun s => P s ∧ p) m Q E :=
  fun s hs => h hs.2 s hs.1

theorem triple_exists {ι : Type} {P : ι → σ → Prop} {m : EStateM ε σ α} (h : ∀ i, Triple (P i) m Q E) :
    Triple (fun s => ∃ i, P i s) m Q E := fun s ⟨i, hi⟩ => h i s hi

theorem triple_pure {a : α} (h : ∀ s, P s → Q a s) : Triple P (pure a) Q E := h

theorem triple_throw {e : ε} (h : ∀ s, P s → E e s) : Triple P (throw e) Q E := h

theorem triple_ite {c : Prop} [Decidable c] {x y : EStateM ε σ α} (hx : c → Triple P x Q E)
    (hy : ¬ c → Triple P y Q E) : Triple P (if c then x else y) Q E := by
  split
  case isTrue h => exact hx h
  case isFalse h => exact hy h

end

end Throwing
