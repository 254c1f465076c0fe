import Mathlib

/-!
# Rebasing a branch (`backend/src/git.ts`)

`rebaseBranch` runs up to five git commands, any of which may fail. A command's effect is git's; what comes of
it is the outcome it is given.
-/

namespace Reins.Rebase

abbrev Commit := String

/-- A local branch; git makes none called `HEAD`. -/
structure Branch where
  name : String
  ne_head : name ≠ "HEAD"
  deriving DecidableEq

inductive Head
  | branch (branch : Branch)
  | detached (commit : Commit)
  deriving DecidableEq

/-! ## Git -/

structure Checkout where
  head : Head
  branches : Branch → Option Commit
  remotes : Branch → Option Commit

structure State extends Checkout where
  rebasing : Option Head

inductive RebaseOutcome
  | done (tip : Commit)
  /-- It stops at a conflict, in progress, with HEAD at what it has replayed. -/
  | stopped (commit : Commit)
  /-- It does not start: the tree is dirty, or there is no such base. -/
  | refused
  deriving DecidableEq

section

variable (s : State)

/-- `git rev-parse --abbrev-ref HEAD`, which a branch without commits fails. -/
def abbrevRef : Option String :=
  match s.head with
  | .branch b => if (s.branches b).isSome then some b.name else none
  | .detached _ => some "HEAD"

/-- `git checkout`: of `HEAD` it stays where it is, and it makes a branch that only the remote has. -/
def checkout (name : String) : Option State :=
  if h : name = "HEAD" then some s
  else
    let b : Branch := ⟨name, h⟩
    match s.branches b, s.remotes b with
    | some _, _ => some { s with head := .branch b }
    | none, some commit => some { s with head := .branch b, branches := Function.update s.branches b (some commit) }
    | none, none => none

/-- `git rebase`, and whether it exits 0. -/
def rebase (outcome : RebaseOutcome) : Bool × State :=
  match s.rebasing, outcome with
  | none, .done tip =>
    match s.head with
    | .branch b => (true, { s with branches := Function.update s.branches b (some tip) })
    | .detached _ => (true, { s with head := .detached tip })
  | none, .stopped commit => (false, { s with head := .detached commit, rebasing := some s.head })
  | none, .refused | some _, _ => (false, s)

/-- `git rebase --abort`, which fails if none is in progress. -/
def rebaseAbort : Option State :=
  match s.rebasing with
  | some head => some { s with head, rebasing := none }
  | none => none

end

/-! ## `Git` -/

inductive Failure
  | revParse
  | checkout
  | rebase
  | abort
  deriving DecidableEq

/-- What comes of each command of a call: whether one that can succeed does. -/
structure Outcomes where
  revParse : Bool
  checkout : Bool
  rebase : RebaseOutcome
  abort : Bool
  restore : Bool

def getCurrentBranch (o : Outcomes) (s : State) : Option String := if o.revParse then abbrevRef s else none

/-- The branch that was checked out is checked out again; that this fails is not told. -/
def restore (o : Outcomes) (previousBranch : String) (s : State) : State :=
  if o.restore then (checkout s previousBranch).getD s else s

def rebaseBranch (o : Outcomes) (branch : Branch) (s : State) : Except Failure Unit × State :=
  match getCurrentBranch o s with
  | none => (.error .revParse, s)
  | some previousBranch =>
    let restored (s : State) := if previousBranch ≠ branch.name then restore o previousBranch s else s
    match if o.checkout then checkout s branch.name else none with
    | none => (.error .checkout, s)
    | some s =>
      match rebase s o.rebase with
      | (true, s) => (.ok (), restored s)
      | (false, s) =>
        -- An abort that fails is what the call rejects with, and nothing is restored.
        match if o.abort then rebaseAbort s else none with
        | none => (.error .abort, s)
        | some s => (.error .rebase, restored s)

/-! ## Where it leaves the checkout -/

/-- No rebase is in progress, HEAD is where it was, and no other branch has moved, nor this one unless the call
resolved. -/
structure Kept (start : Checkout) (branch : Branch) (result : Except Failure Unit × State) : Prop where
  rebasing : result.2.rebasing = none
  head : result.2.head = start.head
  others : ∀ b, b ≠ branch → result.2.branches b = start.branches b
  unmoved : result.1.isOk = false → ∀ commit, start.branches branch = some commit →
    result.2.branches branch = some commit

def Restores (start : Checkout) (branch : Branch) (o : Outcomes) : Prop :=
  getCurrentBranch o ⟨start, none⟩ = none ∨
    o.checkout = false ∨ start.branches branch = none ∧ start.remotes branch = none ∨
      (∀ commit, o.rebase = .stopped commit → o.abort = true) ∧
        (start.head = .branch branch ∨ (∃ b, start.head = .branch b) ∧ o.rebase ≠ .refused ∧ o.restore = true)

section

variable {s s' : State} {b branch : Branch} {o : Outcomes} {start : Checkout} {previousBranch : String}

theorem checkout_head (s : State) : checkout s "HEAD" = some s := by
  simp [checkout]

theorem checkout_of_isSome (h : (s.branches b).isSome) : checkout s b.name = some { s with head := .branch b } := by
  obtain ⟨commit, hcommit⟩ := Option.isSome_iff_exists.mp h
  simp [checkout, b.ne_head, hcommit]

theorem checkout_eq_none_iff : checkout s b.name = none ↔ s.branches b = none ∧ s.remotes b = none := by
  simp only [checkout, b.ne_head, dif_neg, not_false_eq_true]
  cases hbranch : s.branches b with
  | some commit => simp
  | none => cases s.remotes b <;> simp

structure Onto (b : Branch) (s s' : State) : Prop where
  head : s'.head = .branch b
  rebasing : s'.rebasing = s.rebasing
  others : ∀ b', b' ≠ b → s'.branches b' = s.branches b'
  unmoved : ∀ commit, s.branches b = some commit → s'.branches b = some commit

theorem checkout_onto (h : checkout s b.name = some s') : Onto b s s' := by
  simp only [checkout, b.ne_head, dif_neg, not_false_eq_true] at h
  split at h
  · cases h
    exact ⟨rfl, rfl, fun _ _ => rfl, fun _ hc => hc⟩
  next hnone _ =>
    cases h
    exact ⟨rfl, rfl, fun b' hb' => Function.update_of_ne hb' .., fun commit hc => (nomatch hnone.symm.trans hc)⟩
  · cases h

theorem getCurrentBranch_cases (h : getCurrentBranch o s = some previousBranch) :
    (∃ b, s.head = .branch b ∧ (s.branches b).isSome ∧ previousBranch = b.name) ∨
      (∃ commit, s.head = .detached commit) ∧ previousBranch = "HEAD" := by
  rw [getCurrentBranch] at h
  split at h
  · rw [abbrevRef] at h
    cases hhead : s.head with
    | branch b =>
      simp only [hhead, Option.ite_none_right_eq_some] at h
      exact .inl ⟨b, rfl, h.1, (Option.some.inj h.2).symm⟩
    | detached commit =>
      simp only [hhead] at h
      exact .inr ⟨⟨commit, rfl⟩, (Option.some.inj h).symm⟩
  · cases h

theorem restored_iff (hprevious : getCurrentBranch o ⟨start, none⟩ = some previousBranch)
    (hhead : s.head = .branch branch) (hothers : ∀ b, b ≠ branch → s.branches b = start.branches b) :
    (if previousBranch ≠ branch.name then restore o previousBranch s else s).head = start.head ↔
      start.head = .branch branch ∨ (∃ b, start.head = .branch b) ∧ o.restore = true := by
  obtain ⟨b, hb, hsome, rfl⟩ | ⟨⟨commit, hcommit⟩, rfl⟩ := getCurrentBranch_cases hprevious
  · replace hb : start.head = .branch b := hb
    by_cases heq : b = branch
    · subst heq
      simp [hb, hhead]
    have hname : b.name ≠ branch.name := fun hname => heq (by
      cases b
      cases branch
      cases hname
      rfl)
    have hsome : (s.branches b).isSome := by
      rw [hothers b heq]
      exact hsome
    rw [if_pos hname, restore, checkout_of_isSome hsome, hb]
    cases o.restore <;> simp [hhead, heq, Ne.symm heq]
  · replace hcommit : start.head = .detached commit := hcommit
    rw [if_pos branch.ne_head.symm, restore, checkout_head, hcommit]
    simp [hhead]

theorem restored_kept (hothers : ∀ b, b ≠ branch → s.branches b = start.branches b)
    (hprevious : getCurrentBranch o ⟨start, none⟩ = some previousBranch) :
    (if previousBranch ≠ branch.name then restore o previousBranch s else s).rebasing = s.rebasing ∧
      (if previousBranch ≠ branch.name then restore o previousBranch s else s).branches = s.branches := by
  by_cases hname : previousBranch = branch.name
  · simp [hname]
  rw [if_pos hname, restore]
  cases o.restore with
  | false => exact ⟨rfl, rfl⟩
  | true =>
    obtain ⟨b, -, hsome, rfl⟩ | ⟨-, rfl⟩ := getCurrentBranch_cases hprevious
    · have hb : b ≠ branch := fun heq => hname (heq ▸ rfl)
      have hsome : (s.branches b).isSome := by
        rw [hothers b hb]
        exact hsome
      rw [checkout_of_isSome hsome]
      exact ⟨rfl, rfl⟩
    · rw [checkout_head]
      exact ⟨rfl, rfl⟩

theorem rebase_done (hidle : s.rebasing = none) (hhead : s.head = .branch b) (tip : Commit) :
    rebase s (.done tip) = (true, { s with branches := Function.update s.branches b (some tip) }) := by
  simp [rebase, hidle, hhead]

theorem rebase_stopped (hidle : s.rebasing = none) (commit : Commit) :
    rebase s (.stopped commit) = (false, { s with head := .detached commit, rebasing := some s.head }) := by
  simp [rebase, hidle]

theorem rebase_refused (hidle : s.rebasing = none) : rebase s .refused = (false, s) := by
  simp [rebase, hidle]

theorem rebaseBranch_checked (hprevious : getCurrentBranch o ⟨start, none⟩ = some previousBranch)
    (hran : o.checkout = true) (hchecked : checkout ⟨start, none⟩ branch.name = some s) :
    rebaseBranch o branch ⟨start, none⟩ = match rebase s o.rebase with
      | (true, s) => (.ok (), if previousBranch ≠ branch.name then restore o previousBranch s else s)
      | (false, s) =>
        match if o.abort then rebaseAbort s else none with
        | none => (.error .abort, s)
        | some s => (.error .rebase, if previousBranch ≠ branch.name then restore o previousBranch s else s) := by
  simp [rebaseBranch, hprevious, hran, hchecked]

/-- A call that has HEAD on its branch keeps the checkout if it puts HEAD back where it was. -/
theorem kept_restored_iff (outcome : Except Failure Unit)
    (hprevious : getCurrentBranch o ⟨start, none⟩ = some previousBranch) (hhead : s.head = .branch branch)
    (hrebasing : s.rebasing = none) (hothers : ∀ b, b ≠ branch → s.branches b = start.branches b)
    (hunmoved : outcome.isOk = false → ∀ commit, start.branches branch = some commit →
      s.branches branch = some commit) :
    Kept start branch (outcome, if previousBranch ≠ branch.name then restore o previousBranch s else s) ↔
      start.head = .branch branch ∨ (∃ b, start.head = .branch b) ∧ o.restore = true := by
  obtain ⟨hidle, hbranches⟩ := restored_kept hothers hprevious
  constructor
  · intro h
    exact (restored_iff hprevious hhead hothers).mp h.head
  intro h
  refine ⟨hidle.trans hrebasing, (restored_iff hprevious hhead hothers).mpr h, fun b hb => ?_, fun hok commit hc => ?_⟩
  · rw [hbranches, hothers b hb]
  · rw [hbranches, hunmoved hok commit hc]

theorem kept_self (outcome : Except Failure Unit) : Kept start branch (outcome, ⟨start, none⟩) :=
  ⟨rfl, rfl, fun _ _ => rfl, fun _ _ hc => hc⟩

end

/-- Whatever comes of its commands, the checkout is where it was just if the branch was checked out and a stopped
rebase is aborted, or another was and the rebase starts and that branch is checked out again. -/
theorem rebase_keeps_iff (start : Checkout) (branch : Branch) (o : Outcomes) :
    Kept start branch (rebaseBranch o branch ⟨start, none⟩) ↔ Restores start branch o := by
  cases hprevious : getCurrentBranch o ⟨start, none⟩ with
  | none =>
    simp only [rebaseBranch, hprevious]
    exact iff_of_true (kept_self _) (.inl hprevious)
  | some previousBranch =>
    cases hcheckout : if o.checkout then checkout ⟨start, none⟩ branch.name else none with
    | none =>
      simp only [rebaseBranch, hprevious, hcheckout]
      refine iff_of_true (kept_self _) (.inr ?_)
      cases hran : o.checkout with
      | false => exact .inl rfl
      | true =>
        rw [hran, if_pos rfl] at hcheckout
        exact .inr (.inl (checkout_eq_none_iff.mp hcheckout))
    | some s =>
      obtain ⟨hran, hchecked⟩ : o.checkout = true ∧ checkout ⟨start, none⟩ branch.name = some s := by
        simpa using hcheckout
      have honto := checkout_onto hchecked
      have hidle : s.rebasing = none := honto.rebasing
      have hexists : ¬(start.branches branch = none ∧ start.remotes branch = none) := fun hnone =>
        nomatch (checkout_eq_none_iff (s := ⟨start, none⟩).mpr hnone).symm.trans hchecked
      rw [rebaseBranch_checked hprevious hran hchecked]
      simp only [Restores, hprevious, hran, hexists, reduceCtorEq, Bool.true_eq_false, false_or]
      cases hrebase : o.rebase with
      | done tip =>
        rw [rebase_done hidle honto.head]
        have hothers : ∀ b, b ≠ branch → Function.update s.branches branch (some tip) b = start.branches b :=
          fun b hb => (Function.update_of_ne hb ..).trans (honto.others b hb)
        refine (kept_restored_iff (.ok ()) hprevious
          (s := { s with branches := Function.update s.branches branch (some tip) }) honto.head hidle hothers
          nofun).trans ?_
        simp
      | stopped commit =>
        rw [rebase_stopped hidle]
        cases habort : o.abort with
        | false =>
          -- The rebase stays in progress.
          refine iff_of_false (fun h => nomatch h.rebasing) (fun h => ?_)
          cases h.1 commit rfl
        | true =>
          -- Where the rebase began is the branch, as it was checked out.
          refine (kept_restored_iff _ (s := { s with rebasing := none }) hprevious honto.head rfl honto.others
            fun _ => honto.unmoved).trans ?_
          simp
      | refused =>
        rw [rebase_refused hidle]
        dsimp only
        rw [show (if o.abort then rebaseAbort s else none) = none by simp [rebaseAbort, hidle]]
        constructor
        · intro h
          exact ⟨nofun, .inl (h.head.symm.trans honto.head)⟩
        rintro ⟨-, hhead | ⟨-, hrefused, -⟩⟩
        · exact ⟨hidle, honto.head.trans hhead.symm, honto.others, fun _ => honto.unmoved⟩
        · exact absurd rfl hrefused

/-- With `main` checked out and changes in its tree, the rebase of `task` does not start, and there is none to
abort: `task` stays checked out. -/
theorem dirty_left_elsewhere : ¬ ∀ (start : Checkout) (branch : Branch) (o : Outcomes),
      (rebaseBranch o branch ⟨start, none⟩).2.rebasing = none ∧
        (rebaseBranch o branch ⟨start, none⟩).2.head = start.head := by
  intro h
  let main : Branch := ⟨"main", by decide⟩
  let task : Branch := ⟨"task", by decide⟩
  have hhead := (h ⟨.branch main, fun b => if b.name = "main" ∨ b.name = "task" then some "c0" else none, fun _ => none⟩
    task ⟨true, true, .refused, true, true⟩).2
  exact absurd hhead (by decide)

end Reins.Rebase
