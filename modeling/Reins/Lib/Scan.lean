import Mathlib.Data.UInt

/-!
# Scanners: machines that read a stream one symbol at a time

A scanner takes one symbol, changes its state and emits what the symbol completed. Fed a chunk
it is fed the chunk's symbols in turn, so **how a stream is cut into chunks cannot matter**:
`scan_append` is that statement.
-/

namespace Scan

variable {σ α β : Type*}

/-- The symbols of one chunk, in turn: the state after them and what they emitted. -/
def scan (step : σ → α → σ × List β) : σ → List α → σ × List β
  | s, [] => (s, [])
  | s, a :: as =>
      let r := scan step (step s a).1 as
      (r.1, (step s a).2 ++ r.2)

variable (step : σ → α → σ × List β)

@[simp] theorem scan_nil (s : σ) : scan step s [] = (s, []) := rfl

@[simp] theorem scan_cons (s : σ) (a : α) (as : List α) : scan step s (a :: as) =
      ((scan step (step s a).1 as).1, (step s a).2 ++ (scan step (step s a).1 as).2) := rfl

theorem scan_append (s : σ) (as bs : List α) : scan step s (as ++ bs) = ((scan step (scan step s as).1 bs).1,
        (scan step s as).2 ++ (scan step (scan step s as).1 bs).2) := by
  induction as generalizing s with
  | nil => simp
  | cons a as ih => simp [ih]

/-- One scanner reading what another emits. -/
def comp {τ γ : Type*} (f : σ → α → σ × List β) (g : τ → β → τ × List γ) : σ × τ → α → (σ × τ) × List γ := fun st a =>
  let r := f st.1 a
  let q := scan g st.2 r.2
  ((r.1, q.1), q.2)

theorem scan_comp {τ γ : Type*} (f : σ → α → σ × List β) (g : τ → β → τ × List γ) (s : σ) (t : τ) (as : List α) :
    scan (comp f g) (s, t) as = (((scan f s as).1, (scan g t (scan f s as).2).1), (scan g t (scan f s as).2).2) := by
  induction as generalizing s t with
  | nil => rfl
  | cons a as ih => simp [comp, ih, scan_append]

end Scan
