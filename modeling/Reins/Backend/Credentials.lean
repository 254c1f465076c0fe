import Mathlib
import Reins.Lib.Run
import Reins.Lib.TailChain

/-!
# A provider's stored credentials (`DbCredentialStore`, `createCredentialLocks`)

A refresh or a login is `modify`: under the provider's lock it reads the credential, gives it to its
update function, and once that answers puts what it answered in place of all the provider's rows. The
routes that save and delete an API key and that disconnect OAuth write the same rows directly, with no
lock, so they may write between that read and that write. A call that is on its way to its effect is run
by events of its own; whatever is written directly is written in one.
-/

namespace Reins.Credentials

open Run Places List

structure OAuthCredentialValue where
  refresh : String
  access : String
  expires : Int
  /-- What else the provider keeps with them, as JSON. -/
  more : List (String × String)
  deriving DecidableEq

/-- The provider's rows of `auth_credentials`, by type. -/
structure Rows where
  apiKey : Option String
  oauth : Option OAuthCredentialValue
  deriving DecidableEq

inductive Credential
  | apiKey (key : Option String)
  | oauth (value : OAuthCredentialValue)
  deriving DecidableEq

def deleteAllAuthCredentials (_ : Rows) : Rows := ⟨none, none⟩

def setApiKeyCredential (rows : Rows) (apiKey : String) : Rows := { rows with apiKey := some apiKey }

def setOAuthCredential (rows : Rows) (value : OAuthCredentialValue) : Rows := { rows with oauth := some value }

/-- `getPreferredAuthCredential`: an API key is preferred. -/
def readCredential (rows : Rows) : Option Credential :=
  match rows.apiKey with
  | some key => some (.apiKey (some key))
  | none => rows.oauth.map .oauth

def writeCredential (rows : Rows) (credential : Credential) : Rows :=
  match credential with
  | .apiKey key => setApiKeyCredential (deleteAllAuthCredentials rows) (key.getD "")
  | .oauth value => setOAuthCredential (deleteAllAuthCredentials rows) value

inductive Outcome
  | stores (next : Credential)
  /-- `undefined`. -/
  | keeps
  /-- It rejects, its signal aborts meanwhile, or what it answers is refused. -/
  | throws

/-- What is run under the lock; `aborted` by the time it begins, it throws at once. -/
inductive Call
  | modify (aborted : Bool) (fn : Option Credential → Outcome)
  | delete (aborted : Bool)

inductive DirectWrite
  | saveApiKey (apiKey : String)
  | deleteApiKey
  | disconnect
  deriving DecidableEq

def DirectWrite.run : DirectWrite → Rows → Rows
  | .saveApiKey apiKey, rows => setApiKeyCredential rows apiKey
  | .deleteApiKey, rows => { rows with apiKey := none }
  | .disconnect, rows => { rows with oauth := none }

/-! ## The lock and the store -/

inductive Phase
  /-- For `previous`. -/
  | waiting
  | working (read : Rows)
  | settled
  /-- Its `finally` has run. -/
  | done
  deriving DecidableEq

structure Work where
  call : Call
  /-- The work whose promise is its `previous`. -/
  after : Option Nat
  phase : Phase
  started : Nat

inductive Op
  | call (c : Call)
  | write (w : DirectWrite)

/-- An operation that has had its effect; `ended` then. -/
structure Done where
  op : Op
  started : Nat
  ended : Nat

structure State where
  rows : Rows
  /-- The work whose promise is the provider's in `pending`. -/
  pending : Option Nat
  /-- Every work the lock was given, in the order asked. -/
  works : List Work
  clock : Nat
  done : List Done
  /-- What was written directly since a work last read the rows, or had its effect. -/
  since : List Done

def State.init (rows : Rows) : State := { rows, pending := none, works := [], clock := 0, done := [], since := [] }

def State.setPhase (s : State) (i : Nat) (w : Work) (phase : Phase) : State :=
  { s with works := s.works.set i { w with phase } }

def State.released (s : State) (t : Nat) : Bool := (s.works[t]?).any fun w => w.phase = .done

inductive Event
  | run (call : Call)
  | start (i : Nat)
  | settle (i : Nat)
  | release (i : Nat)
  | write (w : DirectWrite)

variable {s : State} {w : Work} {rows : Rows} {i : Nat} {base ds : List Done} {works : List Work}
  {pending : Option Nat} {fn : Option Credential → Outcome} {phase : Phase}

/-- `CredentialLocks.run`, up to its first await. -/
def State.run (s : State) (call : Call) : State :=
  { s with
    works := s.works ++ [⟨call, s.pending, .waiting, s.clock⟩]
    pending := some s.works.length }

/-- It leaves `rows` and goes on to its `finally`. -/
def State.effect (s : State) (i : Nat) (w : Work) (rows : Rows) : State :=
  { s.setPhase i w .settled with
    rows
    done := s.done ++ [⟨.call w.call, w.started, s.clock⟩]
    since := [] }

def State.start (s : State) (i : Nat) (w : Work) : State :=
  if w.phase = .waiting ∧ ∀ t ∈ w.after, s.released t = true then
    match w.call with
    | .modify false _ => { s.setPhase i w (.working s.rows) with since := [] }
    | .delete false => s.effect i w (deleteAllAuthCredentials s.rows)
    | .modify true _ | .delete true => s.effect i w s.rows
  else s

/-- The update function has answered. -/
def State.settle (s : State) (i : Nat) (w : Work) : State :=
  match w.phase, w.call with
  | .working read, .modify _ fn =>
    match fn (readCredential read) with
    | .stores next => s.effect i w (writeCredential s.rows next)
    | .keeps | .throws => s.effect i w s.rows
  | _, _ => s

def State.release (s : State) (i : Nat) (w : Work) : State :=
  match w.phase with
  | .settled => { s.setPhase i w .done with pending := if s.pending = some i then none else s.pending }
  | _ => s

def State.write (s : State) (w : DirectWrite) : State :=
  { s with
    rows := w.run s.rows
    done := s.done ++ [⟨.write w, s.clock, s.clock⟩]
    since := s.since ++ [⟨.write w, s.clock, s.clock⟩] }

def State.atWork (s : State) (i : Nat) (f : State → Nat → Work → State) : State :=
  match s.works[i]? with
  | some w => f s i w
  | none => s

def State.act (s : State) : Event → State
  | .run call => s.run call
  | .start i => s.atWork i State.start
  | .settle i => s.atWork i State.settle
  | .release i => s.atWork i State.release
  | .write w => s.write w

def State.tick (s : State) : State := { s with clock := s.clock + 1 }

def step (s : State) (e : Event) : State := (s.act e).tick

/-! ## One at a time -/

def Call.run : Call → Rows → Rows
  | .modify false fn, rows =>
    match fn (readCredential rows) with
    | .stores next => writeCredential rows next
    | .keeps | .throws => rows
  | .delete false, rows => deleteAllAuthCredentials rows
  | .modify true _, rows | .delete true, rows => rows

def Op.run : Op → Rows → Rows
  | .call c => c.run
  | .write w => w.run

def play (order : List Done) (rows : Rows) : Rows := order.foldl (fun rows d => d.op.run rows) rows

abbrev InOrder (order : List Done) : Prop := order.Pairwise fun a b => a.started ≤ b.ended

/-- The rows are what the operations give one at a time, in an order that keeps each between its start and
its end. -/
def Serialized (rows : Rows) (s : State) : Prop :=
  ∃ order : List Done, order.Perm s.done ∧ InOrder order ∧ play order rows = s.rows

def Work.begun (w : Work) : Prop := w.phase ≠ .waiting

def Work.finished (w : Work) : Prop := w.phase = .done

/-- One work at a time, in the order asked, and nothing kept of the provider once all are done. -/
structure Locked (s : State) : Prop where
  alone : ∀ (i j : Nat) (v w : Work), s.works[i]? = some v → s.works[j]? = some w → v.begun → w.begun →
    ¬v.finished → ¬w.finished → i = j
  order : ∀ (i j : Nat) (v w : Work), i < j → s.works[i]? = some v → s.works[j]? = some w → w.begun → v.finished
  forgets : s.pending = none ↔ ∀ w ∈ s.works, w.finished

/-- Where an update function is about to have its answer written: it answers the same of the credential
that an earlier part of what was written meanwhile leaves, and the rest changes nothing of what it
writes. -/
def Undisturbed (s : State) : Event → Prop
  | .settle i => ∀ (w : Work) (aborted : Bool) (fn : Option Credential → Outcome) (read : Rows) (next : Credential),
      s.works[i]? = some w → w.phase = .working read → w.call = .modify aborted fn →
      fn (readCredential read) = .stores next →
      ∃ earlier later : List Done, s.since = earlier ++ later ∧ fn (readCredential (play earlier read)) = .stores next ∧
        play later (writeCredential s.rows next) = writeCredential s.rows next
  | _ => True

/-- It stores new tokens for the tokens it is given, and nothing otherwise. -/
def Refreshes (fn : Option Credential → Outcome) : Prop :=
  ∀ (current : Option Credential) (next : Credential), fn current = .stores next →
    ∃ value value', current = some (.oauth value) ∧ next = .oauth value'

def RefreshKeeps (s : State) : Event → Prop
  | .settle i => ∀ (w : Work) (aborted : Bool) (fn : Option Credential → Outcome) (read : Rows),
      s.works[i]? = some w → w.phase = .working read → w.call = .modify aborted fn → Refreshes fn →
      (step s (.settle i)).rows.apiKey = s.rows.apiKey ∧
        ((∃ d ∈ s.since, d.op = .write .disconnect) → (step s (.settle i)).rows.oauth = none)
  | _ => True

/-! ## Rows -/

theorem writeCredential_rows (rows rows' : Rows) (credential : Credential) :
    writeCredential rows credential = writeCredential rows' credential := by
  cases credential <;> rfl

theorem Call.run_stores {next : Credential}
    (h : fn (readCredential rows) = .stores next) : (Call.modify false fn).run rows = writeCredential rows next := by
  simp [Call.run, h]

theorem Call.run_same
    (h : ∀ next, fn (readCredential rows) ≠ .stores next) : (Call.modify false fn).run rows = rows := by
  cases hfn : fn (readCredential rows) with
  | stores next => exact absurd hfn (h next)
  | keeps => simp [Call.run, hfn]
  | throws => simp [Call.run, hfn]

theorem play_append (xs ys : List Done) (rows : Rows) : play (xs ++ ys) rows = play ys (play xs rows) :=
  foldl_append

theorem play_cons (d : Done) (ds : List Done) (rows : Rows) : play (d :: ds) rows = play ds (d.op.run rows) := rfl

theorem play_concat (ds : List Done) (d : Done) (rows : Rows) : play (ds ++ [d]) rows = d.op.run (play ds rows) := by
  rw [play_append]
  rfl

theorem readCredential_oauth {value : OAuthCredentialValue}
    (h : readCredential rows = some (.oauth value)) : rows.apiKey = none ∧ rows.oauth = some value := by
  unfold readCredential at h
  cases hkey : rows.apiKey with
  | some key =>
    rw [hkey] at h
    cases Option.some_inj.mp h
  | none =>
    rw [hkey] at h
    obtain ⟨value', hvalue, heq⟩ := Option.map_eq_some_iff.mp h
    cases heq
    exact ⟨rfl, hvalue⟩

def Direct (ds : List Done) : Prop := ∀ d ∈ ds, ∃ w, d.op = .write w

theorem play_oauth (h : Direct ds) (rows : Rows) : (play ds rows).oauth = rows.oauth ∨ (play ds rows).oauth = none := by
  induction ds generalizing rows with
  | nil => exact .inl rfl
  | cons d ds ih =>
    rw [play_cons]
    obtain ⟨w, hw⟩ := h d mem_cons_self
    have hrest := ih (fun d' hd' => h d' (mem_cons_of_mem d hd')) (d.op.run rows)
    have hrun : (d.op.run rows).oauth = rows.oauth ∨ (d.op.run rows).oauth = none := by
      rw [hw]
      cases w with
      | saveApiKey key => exact .inl rfl
      | deleteApiKey => exact .inl rfl
      | disconnect => exact .inr rfl
    rcases hrest with hrest | hrest
    · rw [hrest]
      exact hrun
    · exact .inr hrest

theorem play_apiKey (h : Direct ds) {rows' : Rows} (heq : rows.apiKey = rows'.apiKey) :
    (play ds rows).apiKey = (play ds rows').apiKey := by
  induction ds generalizing rows rows' with
  | nil => exact heq
  | cons d ds ih =>
    rw [play_cons, play_cons]
    obtain ⟨w, hw⟩ := h d mem_cons_self
    refine ih (fun d' hd' => h d' (mem_cons_of_mem d hd')) ?_
    rw [hw]
    cases w with
    | saveApiKey key => rfl
    | deleteApiKey => rfl
    | disconnect => exact heq

theorem play_disconnected (h : Direct ds) (hd : ∃ d ∈ ds, d.op = .write .disconnect) (rows : Rows) :
    (play ds rows).oauth = none := by
  induction ds generalizing rows with
  | nil =>
    obtain ⟨d, hd, -⟩ := hd
    cases hd
  | cons d ds ih =>
    rw [play_cons]
    have hrest : Direct ds := fun d' hd' => h d' (mem_cons_of_mem d hd')
    obtain ⟨d', hd', hop⟩ := hd
    rcases mem_cons.mp hd' with rfl | hd'
    · rcases play_oauth hrest (d'.op.run rows) with heq | heq
      · rw [heq, hop]
        rfl
      · exact heq
    · exact ih hrest ⟨d', hd', hop⟩ _

/-! ## The lock -/

/-- The works wait for one another, and the table holds the newest that is not done. -/
structure Queue (works : List Work) (pending : Option Nat) : Prop where
  line : TailChain.Line Work.after Work.begun Work.finished works
  table : TailChain.Table Work.finished works pending
  held : ∀ t ∈ pending, ∀ w, works[t]? = some w → ¬w.finished

theorem Work.finished.begun (h : w.finished) : w.begun := by
  intro hwaiting
  cases h.symm.trans hwaiting

theorem Queue.locked (h : Queue s.works s.pending) : Locked s := by
  constructor
  · intro i j v w hv hw hbv hbw hdv hdw
    exact h.line.alone hv hw hbv hbw hdv hdw
  · intro i j v w hij hv hw hbw
    exact h.line.order i j v w hij hv hw hbw
  · refine ⟨h.table.clear, fun hall => ?_⟩
    cases hpending : s.pending with
    | none => rfl
    | some t =>
      have hlt : t < s.works.length := Nat.lt_of_succ_le (le_of_eq (h.table.newest t hpending))
      have hw : s.works[t]? = some s.works[t] := getElem?_eq_getElem hlt
      exact absurd (hall _ (getElem_mem hlt)) (h.held t hpending _ hw)

theorem Queue.nil : Queue [] none := by
  constructor
  · exact .nil
  · exact .nil
  · intro t ht
    cases ht

theorem Queue.enter (h : Queue works pending) (call : Call) (now : Nat) :
    Queue (works ++ [⟨call, pending, .waiting, now⟩]) (some works.length) := by
  constructor
  · exact h.line.enter h.table rfl fun hbegun => hbegun rfl
  · exact .enter ..
  · intro t ht w hw hdone
    cases ht
    rw [getElem?_concat_length] at hw
    cases hw
    cases hdone

theorem Queue.goesOn (h : Queue works pending) (hw : works[i]? = some w) (hnot : ¬w.finished) (hphase : phase ≠ .done)
    (hbegun : w.begun ∨ ∀ (k : Nat) (z : Work), k < i → works[k]? = some z → z.finished) :
    Queue (works.set i { w with phase }) pending := by
  constructor
  · exact h.line.set hw rfl (fun hdone => absurd hdone hnot) fun _ => hbegun
  · exact h.table.set hw fun hdone => absurd hdone hnot
  · intro t ht v hv
    rcases getElem?_set_cases hv with ⟨rfl, rfl⟩ | ⟨-, hv⟩
    · exact hphase
    · exact h.held t ht v hv

theorem Queue.release (h : Queue works pending) (hw : works[i]? = some w) (hbegun : w.begun) :
    Queue (works.set i { w with phase := .done }) (if pending = some i then none else pending) := by
  have hfinished : Work.finished { w with phase := .done } := rfl
  have hline : TailChain.Line Work.after Work.begun Work.finished (works.set i { w with phase := .done }) :=
    h.line.set hw rfl (fun _ => hfinished) fun _ => .inl hbegun
  have hself : (works.set i { w with phase := .done })[i]? = some { w with phase := .done } :=
    getElem?_set_self (lt_of_getElem? hw)
  constructor
  · exact hline
  · refine (h.table.set hw fun _ => hfinished).release hline hself hfinished ?_
    intro hwaiting
    cases hwaiting
  · intro t ht v hv
    split at ht
    · cases ht
    rename_i hne
    -- it is another's promise that the table holds
    rcases getElem?_set_cases hv with ⟨rfl, -⟩ | ⟨-, hv⟩
    · exact absurd ht hne
    · exact h.held t ht v hv

theorem Queue.ready (h : Queue s.works s.pending) (hw : s.works[i]? = some w)
    (hreleased : ∀ t ∈ w.after, s.released t = true) {k : Nat} {z : Work} (hki : k < i)
    (hz : s.works[k]? = some z) : z.finished := by
  refine h.line.ready (fun _ => Work.finished.begun) hw ?_ hki hz
  intro t ht x hx
  have hdone := hreleased t ht
  unfold State.released at hdone
  rw [hx] at hdone
  have hphase : x.phase = .done := of_decide_eq_true hdone
  exact hphase

/-! ## What every run keeps -/

def Idle (works : List Work) : Prop := ∀ w ∈ works, ∀ read, w.phase ≠ .working read

structure Kept (s : State) : Prop where
  queue : Queue s.works s.pending
  called : ∀ w ∈ s.works, w.started ≤ s.clock
  ops : ∀ d ∈ s.done, d.started ≤ s.clock
  direct : Direct s.since
  modifies : ∀ w ∈ s.works, ∀ read, w.phase = .working read → ∃ fn, w.call = .modify false fn

theorem Kept.init (rows : Rows) : Kept (.init rows) := by
  constructor
  · exact .nil
  · intro w hw
    cases hw
  · intro d hd
    cases hd
  · intro d hd
    cases hd
  · intro w hw
    cases hw

theorem Kept.idle (h : Kept s) (hw : s.works[i]? = some w)
    (hwaiting : w.phase = .waiting) (hreleased : ∀ t ∈ w.after, s.released t = true) : Idle s.works := by
  intro v hv read hread
  obtain ⟨j, hj⟩ := mem_iff_getElem?.mp hv
  have hvbegun : v.begun := by
    intro hv
    cases hread.symm.trans hv
  rcases Nat.lt_trichotomy j i with hji | rfl | hij
  · cases hread.symm.trans (h.queue.ready hw hreleased hji hj)
  · cases hw.symm.trans hj
    exact hvbegun hwaiting
  · cases hwaiting.symm.trans (h.queue.locked.order i j w v hij hw hj hvbegun)

theorem Kept.tick (h : Kept s) : Kept s.tick := by
  refine { h with called := ?_, ops := ?_ }
  · intro w hw
    exact Nat.le_succ_of_le (h.called w hw)
  · intro d hd
    exact Nat.le_succ_of_le (h.ops d hd)

theorem Kept.setPhase (h : Kept s) (hw : s.works[i]? = some w) (hqueue : Queue (s.setPhase i w phase).works pending)
    (hmodifies : ∀ read, phase = .working read → ∃ fn, w.call = .modify false fn) :
    Kept { s.setPhase i w phase with pending } := by
  have hmem : w ∈ s.works := mem_of_getElem? hw
  constructor
  · exact hqueue
  · intro v hv
    rcases mem_or_eq_of_mem_set hv with hv | rfl
    · exact h.called v hv
    · exact h.called w hmem
  · exact h.ops
  · exact h.direct
  · intro v hv read hread
    rcases mem_or_eq_of_mem_set hv with hv | rfl
    · exact h.modifies v hv read hread
    · exact hmodifies read hread

theorem Kept.effect (h : Kept s) (hw : s.works[i]? = some w) (hnot : ¬w.finished)
    (hbegun : w.begun ∨ ∀ (k : Nat) (z : Work), k < i → s.works[k]? = some z → z.finished) (rows : Rows) :
    Kept (s.effect i w rows) := by
  have hset : Kept (s.setPhase i w .settled) := by
    refine h.setPhase hw (h.queue.goesOn hw hnot ?_ hbegun) ?_
    · intro hdone
      cases hdone
    · intro read hread
      cases hread
  refine { hset with ops := ?_, direct := ?_ }
  · intro d hd
    rcases mem_concat_cases hd with hd | rfl
    · exact h.ops d hd
    · exact h.called w (mem_of_getElem? hw)
  · intro d hd
    cases hd

theorem Kept.run (h : Kept s) (call : Call) : Kept (s.run call) := by
  constructor
  · exact h.queue.enter call s.clock
  · intro w hw
    rcases mem_concat_cases hw with hw | rfl
    · exact h.called w hw
    · exact le_rfl
  · exact h.ops
  · exact h.direct
  · intro w hw read hread
    rcases mem_concat_cases hw with hw | rfl
    · exact h.modifies w hw read hread
    · cases hread

theorem Kept.start (h : Kept s) (hw : s.works[i]? = some w) : Kept (s.start i w) := by
  unfold State.start
  split
  next hready =>
    obtain ⟨hwaiting, hreleased⟩ := hready
    have hnot : ¬w.finished := by
      intro hdone
      cases hwaiting.symm.trans hdone
    have hbefore : w.begun ∨ ∀ (k : Nat) (z : Work), k < i → s.works[k]? = some z → z.finished :=
      .inr fun k z hk hz => h.queue.ready hw hreleased hk hz
    split
    next fn hcall =>
      have hset : Kept (s.setPhase i w (.working s.rows)) := by
        refine h.setPhase hw (h.queue.goesOn hw hnot ?_ hbefore) fun _ _ => ⟨fn, hcall⟩
        intro hdone
        cases hdone
      refine { hset with direct := ?_ }
      intro d hd
      cases hd
    · exact h.effect hw hnot hbefore _
    · exact h.effect hw hnot hbefore _
    · exact h.effect hw hnot hbefore _
  · exact h

theorem Kept.settle (h : Kept s) (hw : s.works[i]? = some w) : Kept (s.settle i w) := by
  unfold State.settle
  split
  next read _ fn hphase _ =>
    have hnot : ¬w.finished := by
      intro hdone
      cases hphase.symm.trans hdone
    have hbegun : w.begun := by
      intro hwaiting
      cases hphase.symm.trans hwaiting
    split
    · exact h.effect hw hnot (.inl hbegun) _
    · exact h.effect hw hnot (.inl hbegun) _
    · exact h.effect hw hnot (.inl hbegun) _
  · exact h

theorem Kept.release (h : Kept s) (hw : s.works[i]? = some w) : Kept (s.release i w) := by
  unfold State.release
  split
  next hphase =>
    refine h.setPhase hw (h.queue.release hw ?_) ?_
    · intro hwaiting
      cases hphase.symm.trans hwaiting
    · intro read hread
      cases hread
  · exact h

theorem Kept.write (h : Kept s) (w : DirectWrite) : Kept (s.write w) := by
  refine { h with ops := ?_, direct := ?_ }
  · intro d hd
    rcases mem_concat_cases hd with hd | rfl
    · exact h.ops d hd
    · exact le_rfl
  · intro d hd
    rcases mem_concat_cases hd with hd | rfl
    · exact h.direct d hd
    · exact ⟨w, rfl⟩

theorem Kept.atWork (h : Kept s) (i : Nat) {f : State → Nat → Work → State}
    (hf : ∀ w, s.works[i]? = some w → Kept (f s i w)) : Kept (s.atWork i f) := by
  unfold State.atWork
  split
  next w hw =>
    exact hf w hw
  · exact h

theorem Kept.act (h : Kept s) (e : Event) : Kept (s.act e) := by
  cases e with
  | run call => exact h.run call
  | start i => exact h.atWork i fun w hw => h.start hw
  | settle i => exact h.atWork i fun w hw => h.settle hw
  | release i => exact h.atWork i fun w hw => h.release hw
  | write w => exact h.write w

theorem Kept.step (h : Kept s) (e : Event) : Kept (step s e) := (h.act e).tick

/-! ## The order that explains the rows -/

structure Explained (rows : Rows) (s : State) (base : List Done) : Prop where
  perm : (base ++ s.since).Perm s.done
  inOrder : InOrder (base ++ s.since)
  now : play s.since (play base rows) = s.rows
  read : ∀ w ∈ s.works, ∀ read, w.phase = .working read → play base rows = read ∧ ∀ d ∈ s.since, w.started ≤ d.ended

theorem Explained.serialized (h : Explained rows s base) : Serialized rows s := by
  refine ⟨base ++ s.since, h.perm, h.inOrder, ?_⟩
  rw [play_append]
  exact h.now

theorem Explained.init (rows : Rows) : Explained rows (.init rows) [] := by
  constructor
  · exact .refl _
  · exact .nil
  · rfl
  · intro w hw
    cases hw

theorem InOrder.insert {before later : List Done} {d : Done} (h : InOrder (before ++ later))
    (hnow : ∀ a ∈ before, a.started ≤ d.ended) (hlater : ∀ b ∈ later, d.started ≤ b.ended) :
    InOrder (before ++ d :: later) := by
  obtain ⟨hbefore, hafter, hcross⟩ := pairwise_append.mp h
  refine pairwise_append.mpr ⟨hbefore, pairwise_cons.mpr ⟨hlater, hafter⟩, ?_⟩
  intro a ha b hb
  rcases mem_cons.mp hb with rfl | hb
  · exact hnow a ha
  · exact hcross a ha b hb

/-- A work has its effect, the same as on its own between two of the writes made meanwhile. -/
theorem Explained.effect (h : Explained rows s base) (hkept : Kept s) {rows' : Rows} {earlier later : List Done} (hidle : Idle (s.works.set i { w with phase := .settled }))
    (hsince : s.since = earlier ++ later) (hlater : ∀ d ∈ later, w.started ≤ d.ended)
    (hrows : play later (w.call.run (play earlier (play base rows))) = rows') :
    Explained rows (s.effect i w rows') (base ++ earlier ++ ⟨.call w.call, w.started, s.clock⟩ :: later) := by
  have hassoc : base ++ s.since = base ++ earlier ++ later := by rw [hsince, append_assoc]
  have hperm := hassoc ▸ h.perm
  have hin := hassoc ▸ h.inOrder
  constructor
  · change List.Perm (_ ++ []) (s.done ++ [_])
    rw [append_nil]
    exact perm_middle.trans ((hperm.cons _).trans (perm_append_singleton ..).symm)
  · change InOrder (_ ++ [])
    rw [append_nil]
    refine hin.insert (fun a ha => ?_) hlater
    exact hkept.ops a (hperm.subset (mem_append_left later ha))
  · change play [] _ = rows'
    rw [← hrows, play_append, play_append, play_cons]
    rfl
  · intro v hv read hread
    exact absurd hread (hidle v hv read)

theorem Explained.setPhase (h : Explained rows s base) (hphase : ∀ read, phase ≠ .working read) (pending : Option Nat) :
    Explained rows { s.setPhase i w phase with pending } base := by
  refine { h with read := ?_ }
  intro v hv read hread
  rcases mem_or_eq_of_mem_set hv with hv | rfl
  · exact h.read v hv read hread
  · exact absurd hread (hphase read)

theorem Explained.run (h : Explained rows s base) (call : Call) : Explained rows (s.run call) base := by
  refine { h with read := ?_ }
  intro w hw read hread
  rcases mem_concat_cases hw with hw | rfl
  · exact h.read w hw read hread
  · cases hread

theorem Explained.write (h : Explained rows s base) (hkept : Kept s)
    (w : DirectWrite) : Explained rows (s.write w) base := by
  have hassoc : base ++ (s.write w).since = (base ++ s.since) ++ ⟨.write w, s.clock, s.clock⟩ :: [] :=
    (append_assoc ..).symm
  constructor
  · rw [hassoc]
    exact h.perm.append_right _
  · rw [hassoc]
    refine InOrder.insert ?_ (fun a ha => hkept.ops a (h.perm.subset ha)) ?_
    · rw [append_nil]
      exact h.inOrder
    · intro b hb
      cases hb
  · change play (s.since ++ [_]) _ = w.run s.rows
    rw [play_concat, h.now]
    rfl
  · intro v hv read hread
    obtain ⟨hplay, hstarted⟩ := h.read v hv read hread
    refine ⟨hplay, fun d hd => ?_⟩
    rcases mem_concat_cases hd with hd | rfl
    · exact hstarted d hd
    · exact hkept.called v hv

theorem Idle.set (h : Idle works) (i : Nat) (w : Work) : Idle (works.set i { w with phase := .settled }) := by
  intro v hv read hread
  rcases mem_or_eq_of_mem_set hv with hv | rfl
  · exact h v hv read hread
  · cases hread

theorem Explained.start (h : Explained rows s base) (hkept : Kept s) (hw : s.works[i]? = some w) : ∃ base', Explained rows (s.start i w) base' := by
  unfold State.start
  split
  next hready =>
    have hidle : Idle s.works := hkept.idle hw hready.1 hready.2
    have hat : ∀ {rows' : Rows}, w.call.run s.rows = rows' → ∃ base', Explained rows (s.effect i w rows') base' := by
      intro rows' hrows
      refine ⟨_, h.effect hkept (hidle.set i w) (append_nil s.since).symm ?_ ?_⟩
      · intro d hd
        cases hd
      · rw [h.now]
        exact hrows
    split
    · refine ⟨base ++ s.since, ?_⟩
      constructor
      · change List.Perm (_ ++ []) s.done
        rw [append_nil]
        exact h.perm
      · change InOrder (_ ++ [])
        rw [append_nil]
        exact h.inOrder
      · change play [] _ = s.rows
        rw [play_append]
        exact h.now
      · intro v hv read hread
        rcases mem_or_eq_of_mem_set hv with hv | rfl
        · exact absurd hread (hidle v hv read)
        cases hread
        refine ⟨?_, nofun⟩
        rw [play_append]
        exact h.now
    next hcall =>
      exact hat (hcall ▸ rfl)
    next hcall =>
      exact hat (hcall ▸ rfl)
    next hcall =>
      exact hat (hcall ▸ rfl)
  · exact ⟨base, h⟩

theorem Explained.settle (h : Explained rows s base) (hkept : Kept s) (hw : s.works[i]? = some w) (hundisturbed : Undisturbed s (.settle i)) :
    ∃ base', Explained rows (s.settle i w) base' := by
  unfold State.settle
  split
  next read aborted fn hphase hcall =>
    have hmem : w ∈ s.works := mem_of_getElem? hw
    obtain ⟨hread, hstarted⟩ := h.read w hmem read hphase
    obtain ⟨fn', hcall'⟩ := hkept.modifies w hmem read hphase
    obtain ⟨rfl, rfl⟩ : aborted = false ∧ fn = fn' := by
      cases hcall.symm.trans hcall'
      exact ⟨rfl, rfl⟩
    have hidle : Idle (s.works.set i { w with phase := .settled }) := by
      intro v hv read' hread'
      obtain ⟨j, hj⟩ := mem_iff_getElem?.mp hv
      rcases getElem?_set_cases hj with ⟨-, rfl⟩ | ⟨hji, hj⟩
      · cases hread'
      have hbegun : w.begun := fun hwaiting => by cases hphase.symm.trans hwaiting
      have hnot : ¬w.finished := fun hdone => by cases hphase.symm.trans hdone
      have hvbegun : v.begun := fun hwaiting => by cases hread'.symm.trans hwaiting
      have hvnot : ¬v.finished := fun hdone => by cases hread'.symm.trans hdone
      exact hji (hkept.queue.locked.alone i j w v hw hj hbegun hvbegun hnot hvnot)
    -- one that writes nothing comes where it read
    have hnothing : w.call.run read = read → ∃ base', Explained rows (s.effect i w s.rows) base' := by
      intro hsame
      refine ⟨_, h.effect hkept hidle (nil_append s.since).symm hstarted ?_⟩
      change play s.since (w.call.run (play base rows)) = s.rows
      rw [hread, hsame, ← hread]
      exact h.now
    split
    next next hnext =>
      obtain ⟨earlier, later, hsince, hearlier, hlater⟩ := hundisturbed w false fn read next hw hphase hcall hnext
      refine ⟨_, h.effect hkept hidle hsince (fun d hd => hstarted d ?_) ?_⟩
      · rw [hsince]
        exact mem_append_right earlier hd
      · rw [hread, hcall]
        rw [Call.run_stores hearlier, writeCredential_rows _ s.rows, hlater]
    next hkeeps =>
      refine hnothing ?_
      rw [hcall]
      refine Call.run_same ?_
      rw [hkeeps]
      intro next hnext
      cases hnext
    next hthrows =>
      refine hnothing ?_
      rw [hcall]
      refine Call.run_same ?_
      rw [hthrows]
      intro next hnext
      cases hnext
  · exact ⟨base, h⟩

theorem Explained.release (h : Explained rows s base) (i : Nat) (w : Work) : Explained rows (s.release i w) base := by
  unfold State.release
  split
  · exact h.setPhase (by intro read hread; cases hread) _
  · exact h

theorem Explained.step (h : Explained rows s base) (hkept : Kept s)
    {e : Event} (hundisturbed : Undisturbed s e) : ∃ base', Explained rows (step s e) base' := by
  have hact : ∃ base', Explained rows (s.act e) base' := by
    have hat : ∀ (i : Nat) (f : State → Nat → Work → State),
        (∀ w, s.works[i]? = some w → ∃ base', Explained rows (f s i w) base') →
        ∃ base', Explained rows (s.atWork i f) base' := by
      intro i f hf
      unfold State.atWork
      split
      next w hw =>
        exact hf w hw
      · exact ⟨base, h⟩
    cases e with
    | run call => exact ⟨base, h.run call⟩
    | start i => exact hat i _ fun w hw => h.start hkept hw
    | settle i => exact hat i _ fun w hw => h.settle hkept hw hundisturbed
    | release i => exact hat i _ fun w _ => ⟨base, h.release i w⟩
    | write w => exact ⟨base, h.write hkept w⟩
  obtain ⟨base', h'⟩ := hact
  refine ⟨base', ?_⟩
  exact { h' with }

/-! ## A refresh -/

theorem settle_rows {aborted : Bool} {read : Rows}
    (hw : s.works[i]? = some w) (hphase : w.phase = .working read) (hcall : w.call = .modify aborted fn) :
    (step s (.settle i)).rows = match fn (readCredential read) with
      | .stores next => writeCredential s.rows next
      | .keeps | .throws => s.rows := by
  simp only [step, State.tick, State.act, State.atWork, hw, State.settle, hphase, hcall]
  cases fn (readCredential read) <;> rfl

theorem Direct.stays (h : Direct ds) {value : OAuthCredentialValue}
    (hread : readCredential (play ds rows) = some (.oauth value)) : ¬∃ d ∈ ds, d.op = .write .disconnect := by
  intro hd
  cases (play_disconnected h hd rows).symm.trans (readCredential_oauth hread).2

theorem Kept.refreshKeeps (h : Explained rows s base) (hkept : Kept s)
    {e : Event} (hundisturbed : Undisturbed s e) : RefreshKeeps s e := by
  cases e with
  | settle i =>
    intro w aborted fn read hw hphase hcall hrefreshes
    obtain ⟨hread, -⟩ := h.read w (mem_of_getElem? hw) read hphase
    have hnow : play s.since read = s.rows := hread ▸ h.now
    rw [settle_rows hw hphase hcall]
    cases hfn : fn (readCredential read) with
    | stores next =>
      obtain ⟨earlier, later, hsince, hearlier, hlater⟩ := hundisturbed w aborted fn read next hw hphase hcall hfn
      obtain ⟨value, value', hcurrent, rfl⟩ := hrefreshes _ next hearlier
      have hdirect : Direct earlier := fun d hd => hkept.direct d (hsince ▸ mem_append_left later hd)
      have hdirect' : Direct later := fun d hd => hkept.direct d (hsince ▸ mem_append_right earlier hd)
      refine ⟨?_, fun hd => ?_⟩
      · -- the later writes change neither what it writes nor, from no key, the key
        have hkey : (play earlier read).apiKey = (writeCredential s.rows (.oauth value')).apiKey :=
          (readCredential_oauth hcurrent).1
        calc (writeCredential s.rows (.oauth value')).apiKey
            = (play later (writeCredential s.rows (.oauth value'))).apiKey := congrArg Rows.apiKey hlater.symm
          _ = (play later (play earlier read)).apiKey := play_apiKey hdirect' hkey.symm
          _ = (play s.since read).apiKey := by rw [hsince, play_append]
          _ = s.rows.apiKey := congrArg Rows.apiKey hnow
      · obtain ⟨d, hd, hop⟩ := hd
        rw [hsince] at hd
        rcases mem_append.mp hd with hd | hd
        · exact absurd ⟨d, hd, hop⟩ (hdirect.stays hcurrent)
        · cases (congrArg Rows.oauth hlater).symm.trans (play_disconnected hdirect' ⟨d, hd, hop⟩ _)
    | keeps =>
      refine ⟨rfl, fun hd => ?_⟩
      rw [← hnow]
      exact play_disconnected hkept.direct hd read
    | throws =>
      refine ⟨rfl, fun hd => ?_⟩
      rw [← hnow]
      exact play_disconnected hkept.direct hd read
  | run call => trivial
  | start i => trivial
  | release i => trivial
  | write w => trivial

/-! ## The store over a run -/

/-- **Credentials one at a time.** The lock runs a provider's work one at a time in the order asked and
forgets the provider once nothing waits, in every run; and in a run whose update functions are answered
undisturbed the rows are at every point what the operations give one at a time, and a refresh neither
signs a disconnected provider in nor deletes a saved key. -/
theorem credentials_serialized (rows : Rows) (es : List Event) : Always step Locked (.init rows) es ∧
      (Along step Undisturbed (.init rows) es →
        Always step (Serialized rows) (.init rows) es ∧ Along step RefreshKeeps (.init rows) es) := by
  constructor
  · have hall : Along step (fun _ _ => True) (.init rows) es := along_of_forall fun _ _ => trivial
    exact hall.of_invariant Kept (fun _ e _ h => h.step e) (fun _ e _ h => (h.step e).queue.locked) (.init rows)
  intro hes
  have hinv : Kept (.init rows) ∧ ∃ base, Explained rows (.init rows) base := ⟨.init rows, [], .init rows⟩
  have hstep : ∀ s e, Undisturbed s e → (Kept s ∧ ∃ base, Explained rows s base) →
      (Kept (step s e) ∧ ∃ base, Explained rows (step s e) base) := by
    intro s e hundisturbed ⟨hkept, base, h⟩
    exact ⟨hkept.step e, h.step hkept hundisturbed⟩
  constructor
  · refine hes.of_invariant (fun s => Kept s ∧ ∃ base, Explained rows s base) hstep ?_ hinv
    intro s e hundisturbed h
    obtain ⟨-, base, h⟩ := hstep s e hundisturbed h
    exact h.serialized
  · refine hes.of_invariant (fun s => Kept s ∧ ∃ base, Explained rows s base) hstep ?_ hinv
    intro s e hundisturbed ⟨hkept, base, h⟩
    exact hkept.refreshKeeps h hundisturbed

def tokens (n : Nat) : OAuthCredentialValue := ⟨toString n, toString n, n, []⟩

theorem credentials_serialized_login : let es : List Event :=
      [.run (.modify false fun _ => .stores (.oauth (tokens 1))), .start 0, .write .disconnect, .settle 0, .release 0]
    Always step (Serialized ⟨none, some (tokens 0)⟩) (.init ⟨none, some (tokens 0)⟩) es := by
  intro es
  refine ((credentials_serialized _ es).2 ⟨trivial, trivial, trivial, ?_, trivial, trivial⟩).1
  intro w aborted fn read next hw hphase hcall hnext
  cases hw
  cases hphase
  cases hcall
  exact ⟨[_], [], rfl, hnext, rfl⟩

theorem disconnected_signed_in : let refresh : Option Credential → Outcome := fun current =>
      match current with
      | some (.oauth _) => .stores (.oauth (tokens 1))
      | _ => .keeps
    let s := exec step (.init ⟨none, some (tokens 0)⟩)
      [.run (.modify false refresh), .start 0, .write .disconnect, .settle 0, .release 0]
    s.rows.oauth = some (tokens 1) ∧ ¬Serialized ⟨none, some (tokens 0)⟩ s := by
  refine ⟨rfl, ?_⟩
  rintro ⟨order, hperm, -, hplay⟩
  rcases perm_pair.mp hperm with rfl | rfl
  · cases congrArg Rows.oauth hplay
  · cases congrArg Rows.oauth hplay

end Reins.Credentials
