import Reins.Lib.Places
import Reins.Lib.Run
import Reins.Backend.PiStorage

/-!
# Committing (`backend/src/pi-storage.ts`, `backend/src/session-runtime/storage.ts`)

A commit is one transaction over the tables of Pi's storage: its writes are applied one after
another, any of which can fail, and a failure puts every table back. Pi's own part is a parameter:
`prepare` numbers the writes it is given, `validate` checks them, and that what it accepts is numbered
one by one from the session's next number is the assumption (`Pi.Numbered`).

A runtime's commits go through a `SessionStorage`, which prepares and commits them one at a time.
Preparing takes as long as it takes: a step of its own, and other storages' steps in between.

What holds of the stored tree is an invariant of the database (`Db.Ok`): a parent is stored before its
child, so it has the smaller number. `readBranch` is then never cut short (`readBranch_whole`).
-/

namespace Reins.Store

open Places List

/-! ## The database -/

/-- Pi's `Usage`, but for its cost. -/
structure Usage where
  input : Nat
  output : Nat
  cacheRead : Nat
  cacheWrite : Nat
  cacheWrite1h : Option Nat
  reasoning : Option Nat
  totalTokens : Nat

def ZERO_USAGE : Usage := ⟨0, 0, 0, 0, none, none, 0⟩

/-- A count that either may be without. -/
def addOptional : Option Nat → Option Nat → Option Nat
  | none, none => none
  | a, b => some (a.getD 0 + b.getD 0)

def addUsage (total usage : Usage) : Usage :=
  { input := total.input + usage.input
    output := total.output + usage.output
    cacheRead := total.cacheRead + usage.cacheRead
    cacheWrite := total.cacheWrite + usage.cacheWrite
    cacheWrite1h := addOptional total.cacheWrite1h usage.cacheWrite1h
    reasoning := addOptional total.reasoning usage.reasoning
    totalTokens := total.totalTokens + usage.totalTokens }

structure UsageRow where
  sessionId : SessionId
  id : EntryId
  seq : Nat
  entryId : Option EntryId
  adjustment : Bool
  usage : Usage
  details : Option Json

structure ListRow where
  sessionId : SessionId
  ns : String
  key : String
  seq : Nat
  value : Json

/-- A row of `pi_values`, by its primary key. -/
abbrev ValueKey := SessionId × String × String

structure Db where
  nextSeq : SessionId → Option Nat
  messages : SessionMessages
  values : ValueKey → Option (Nat × Json)
  lists : List ListRow
  usage : List UsageRow

def SessionMessages.empty : SessionMessages :=
  { rows := [], nextId := 1, below := by simp, ids := by simp, seqs := by simp,
    harnessIds := by simp }

def Db.empty : Db :=
  { nextSeq := fun _ => none, messages := .empty, values := fun _ => none, lists := [],
    usage := [] }

/-! ## One write -/

inductive CommittedWrite
  | entry (seq : Nat) (id : EntryId) (parentId : Option EntryId) (envelope : Envelope)
  | usage (seq : Nat) (id : EntryId) (entryId : Option EntryId) (adjustment : Bool)
    (usage : Usage) (details : Option Json)
  | setValue (seq : Nat) (ns key : String) (value : Json)
  | deleteValue (seq : Nat) (ns key : String)
  | appendList (seq : Nat) (ns key : String) (value : Json)
  | deleteList (seq : Nat) (ns key : String)

def CommittedWrite.seq : CommittedWrite → Nat
  | .entry seq .. | .usage seq .. | .setValue seq .. | .deleteValue seq .. | .appendList seq ..
  | .deleteList seq .. => seq

def SessionMessages.insert (t : SessionMessages) (s : SessionId) (seq : Nat)
    (parentId : Option RowId) (harnessId : EntryId) (envelope : Envelope) :
    Option SessionMessages :=
  let row : Row := ⟨t.nextId, s, seq, parentId, harnessId, envelope⟩
  if h : row.seqKey ∉ t.rows.map Row.seqKey ∧ row.harnessKey ∉ t.rows.map Row.harnessKey then
    some
      { rows := t.rows ++ [row]
        nextId := t.nextId + 1
        below := by
          intro r hr
          rcases mem_concat_cases hr with hr | rfl
          · exact Nat.lt_succ_of_lt (t.below r hr)
          · exact Nat.lt_succ_self _
        ids := by
          rw [map_append, nodup_append]
          refine ⟨t.ids, nodup_singleton _, ?_⟩
          rintro id hid _ hrow rfl
          obtain ⟨r, hr, rfl⟩ := mem_map.mp hid
          exact absurd (mem_singleton.mp hrow) (Nat.ne_of_lt (t.below r hr))
        seqs := by
          rw [map_append, nodup_append]
          refine ⟨t.seqs, nodup_singleton _, ?_⟩
          rintro k hk _ hrow rfl
          exact h.1 (mem_singleton.mp hrow ▸ hk)
        harnessIds := by
          rw [map_append, nodup_append]
          refine ⟨t.harnessIds, nodup_singleton _, ?_⟩
          rintro k hk _ hrow rfl
          exact h.2 (mem_singleton.mp hrow ▸ hk) }
  else none

def SessionMessages.parentRow (t : SessionMessages) (s : SessionId) : Option EntryId → Except String (Option RowId)
  | none => .ok none
  | some id =>
    match t.rowForEntry? s id with
    | some row => .ok (some row.id)
    | none => .error s!"Missing parent entry: {id}"

def UNIQUE_FAILED : String := "UNIQUE constraint failed"

def Db.applyWrite (s : SessionId) (db : Db) : CommittedWrite → Except String Db
  | .entry seq id parentId envelope =>
    match db.messages.parentRow s parentId with
    | .error e => .error e
    | .ok parent =>
      match db.messages.insert s seq parent id envelope with
      | some messages => .ok { db with messages := messages }
      | none => .error UNIQUE_FAILED
  | .usage seq id entryId adjustment usage details =>
    if db.usage.any fun u => u.sessionId = s && (u.id = id || u.seq = seq) then .error UNIQUE_FAILED
    else .ok { db with usage := db.usage ++ [⟨s, id, seq, entryId, adjustment, usage, details⟩] }
  | .setValue seq ns key value => .ok { db with values := Function.update db.values (s, ns, key) (some (seq, value)) }
  | .deleteValue _ ns key => .ok { db with values := Function.update db.values (s, ns, key) none }
  | .appendList seq ns key value =>
    if db.lists.any fun l => l.sessionId = s && l.ns = ns && l.key = key && l.seq = seq then
      .error UNIQUE_FAILED
    else .ok { db with lists := db.lists ++ [⟨s, ns, key, seq, value⟩] }
  | .deleteList _ ns key =>
    .ok { db with
          lists := db.lists.filter fun l => !(l.sessionId = s && l.ns = ns && l.key = key) }

/-! ## A commit -/

structure SessionStats where
  messageCount : Nat
  usage : Usage

def Db.readStats (db : Db) (s : SessionId) : SessionStats :=
  { messageCount := ((db.messages.ofSession s).filter fun r => r.envelope.type = .message).length
    usage := ((db.usage.filter fun u => u.sessionId = s).map UsageRow.usage).foldl addUsage ZERO_USAGE }

def Db.hasEntry (db : Db) (s : SessionId) (id : EntryId) : Bool := (db.messages.rowForEntry? s id).isSome

def Db.hasUsage (db : Db) (s : SessionId) (id : EntryId) : Bool := db.usage.any fun u => u.sessionId = s && u.id = id

/-- Pi's part of a commit. `ω` is its writes, as callers give them, and `ρ` what a commit tells of
each. -/
structure Pi (ω ρ : Type) where
  /-- `prepareStorageCommit(writes, nextSeq, now)`. -/
  prepare : List ω → Nat → Int → Except String (List CommittedWrite × ρ)
  validate : List CommittedWrite → Nat → (EntryId → Bool) → (EntryId → Bool) → Except String Unit

/-- What is accepted is numbered one by one from the session's next number on. -/
def Pi.Numbered {ω ρ : Type} (pi : Pi ω ρ) : Prop :=
  ∀ writes nextSeq now prepared result hasEntryOrUsageId hasEntryId,
    pi.prepare writes nextSeq now = .ok (prepared, result) →
    pi.validate prepared nextSeq hasEntryOrUsageId hasEntryId = .ok () →
    prepared.map CommittedWrite.seq = List.range' nextSeq prepared.length

/-- `db.transaction`: what throws puts the tables back. -/
def transaction {α : Type} (body : Db → Db × Except String α) (db : Db) : Db × Except String α :=
  match body db with
  | (db', .ok a) => (db', .ok a)
  | (_, .error e) => (db, .error e)

def Db.applyWrites (s : SessionId) (db : Db) : List CommittedWrite → Db × Except String Unit
  | [] => (db, .ok ())
  | w :: ws =>
    match db.applyWrite s w with
    | .ok db' => db'.applyWrites s ws
    | .error e => (db, .error e)

section

variable {ω ρ : Type} (pi : Pi ω ρ)

def Db.commitBody (s : SessionId) (writes : List ω) (now : Int) (db : Db) : Db × Except String (ρ × SessionStats) :=
  match db.nextSeq s with
  | none => (db, .error s!"Unknown session: {s}")
  | some next =>
    match pi.prepare writes next now with
    | .error e => (db, .error e)
    | .ok (prepared, result) =>
      match pi.validate prepared next (fun id => db.hasEntry s id || db.hasUsage s id) (db.hasEntry s) with
      | .error e => (db, .error e)
      | .ok () =>
        match db.applyWrites s prepared with
        | (db', .error e) => (db', .error e)
        | (db', .ok ()) =>
          ({ db' with nextSeq := Function.update db'.nextSeq s (some (next + prepared.length)) },
            .ok (result, db'.readStats s))

def Db.applyCommit (s : SessionId) (writes : List ω) (now : Int) (db : Db) : Db × Except String (ρ × SessionStats) :=
  transaction (Db.commitBody pi s writes now) db

end

/-! ## What holds of the stored tree -/

structure Stored (t : SessionMessages) (s : SessionId) (next : Nat) : Prop where
  below : ∀ r ∈ t.ofSession s, r.seq < next
  parents : ∀ r ∈ t.ofSession s, ∀ id ∈ r.parentId, ∃ p ∈ t.ofSession s, p.id = id ∧ p.seq < r.seq

def Db.Ok (db : Db) : Prop :=
  ∀ s, match db.nextSeq s with
    | some next => Stored db.messages s next
    | none => db.messages.ofSession s = []

section

variable {t t' : SessionMessages} {s s' : SessionId} {next n : Nat} {r p : Row} {db db' : Db} {w : CommittedWrite}

/-- What one write does to the entries: nothing, or one more of the session with the write's
number, whose parent was there. -/
inductive Wrote (s : SessionId) (seq : Nat) (t : SessionMessages) : SessionMessages → Prop
  | same : Wrote s seq t t
  | inserted {t' : SessionMessages} (row : Row) (hrows : t'.rows = t.rows ++ [row])
      (hs : row.sessionId = s) (hseq : row.seq = seq)
      (hparent : ∀ id ∈ row.parentId, ∃ p ∈ t.ofSession s, p.id = id) : Wrote s seq t t'

theorem SessionMessages.insert_rows {seq : Nat} {parent : Option RowId} {id : EntryId}
    {env : Envelope} (h : t.insert s seq parent id env = some t') :
    t'.rows = t.rows ++ [⟨t.nextId, s, seq, parent, id, env⟩] := by
  unfold SessionMessages.insert at h
  dsimp only at h
  split at h
  · cases h
    rfl
  · cases h

theorem SessionMessages.parentRow_mem {parentId : Option EntryId} {parent : Option RowId}
    (h : t.parentRow s parentId = .ok parent) :
    ∀ id ∈ parent, ∃ p ∈ t.ofSession s, p.id = id := by
  cases parentId with
  | none =>
    obtain rfl := Except.ok.inj h
    intro id hid
    cases hid
  | some parentId =>
    rw [SessionMessages.parentRow] at h
    cases hrow : t.rowForEntry? s parentId with
    | none => simp [hrow] at h
    | some row =>
      simp only [hrow, Except.ok.injEq] at h
      intro id hid
      obtain rfl : row.id = id := by simpa [← h] using hid
      exact ⟨row, (rowForEntry?_mem hrow).1, rfl⟩

theorem Db.applyWrite_wrote (h : db.applyWrite s w = .ok db') :
    db'.nextSeq = db.nextSeq ∧ Wrote s w.seq db.messages db'.messages := by
  cases w with
  | entry seq id parentId env =>
    simp only [Db.applyWrite] at h
    cases hp : db.messages.parentRow s parentId with
    | error e => simp [hp] at h
    | ok parent =>
      cases hi : db.messages.insert s seq parent id env with
      | none => simp [hp, hi] at h
      | some messages =>
        simp only [hp, hi, Except.ok.injEq] at h
        obtain rfl := h
        exact ⟨rfl, .inserted _ (SessionMessages.insert_rows hi) rfl rfl (SessionMessages.parentRow_mem hp)⟩
  | usage | appendList =>
    simp only [Db.applyWrite] at h
    split at h
    · cases h
    · obtain rfl := Except.ok.inj h
      exact ⟨rfl, .same⟩
  | setValue | deleteValue | deleteList =>
    obtain rfl := Except.ok.inj h
    exact ⟨rfl, .same⟩

theorem Stored.mono (h : Stored t s next) (hn : next ≤ n) : Stored t s n :=
  ⟨fun r hr => Nat.lt_of_lt_of_le (h.below r hr) hn, h.parents⟩

/-- **One write keeps the tree**: the new row's number is above all there were, its parent's with
them. -/
theorem Stored.wrote (h : Stored t s next) (hw : Wrote s next t t') : Stored t' s (next + 1) := by
  cases hw with
  | same => exact h.mono (Nat.le_succ next)
  | inserted row hrows hs hseq hparent =>
    have hmem : ∀ r, r ∈ t'.ofSession s ↔ r ∈ t.ofSession s ∨ r = row := by
      intro r
      rw [SessionMessages.mem_ofSession, SessionMessages.mem_ofSession, hrows, mem_append, mem_singleton]
      constructor
      · rintro ⟨hr | hr, he⟩
        · exact Or.inl ⟨hr, he⟩
        · exact Or.inr hr
      rintro (⟨hr, he⟩ | rfl)
      · exact ⟨Or.inl hr, he⟩
      · exact ⟨Or.inr rfl, hs⟩
    constructor
    · intro r hr
      rcases (hmem r).mp hr with hr | rfl
      · exact Nat.lt_succ_of_lt (h.below r hr)
      · exact hseq ▸ Nat.lt_succ_self next
    · intro r hr id hid
      rcases (hmem r).mp hr with hr | rfl
      · obtain ⟨p, hp, hpid, hlt⟩ := h.parents r hr id hid
        exact ⟨p, (hmem p).mpr (Or.inl hp), hpid, hlt⟩
      · obtain ⟨p, hp, hpid⟩ := hparent id hid
        exact ⟨p, (hmem p).mpr (Or.inl hp), hpid, hseq ▸ h.below p hp⟩

theorem Wrote.other {seq : Nat} (h : Wrote s seq t t') (hs : s' ≠ s) : t'.ofSession s' = t.ofSession s' := by
  cases h with
  | same => rfl
  | inserted row hrows hrow _ _ =>
    have hne : row.sessionId ≠ s' := fun he => hs (he ▸ hrow)
    rw [SessionMessages.ofSession, SessionMessages.ofSession, hrows, filter_append]
    simp [hne]

theorem Db.applyWrites_stored {ws : List CommittedWrite} {a : Except String Unit}
    (hnum : ws.map CommittedWrite.seq = List.range' next ws.length)
    (h : Stored db.messages s next) (hw : db.applyWrites s ws = (db', a)) (ha : a = .ok ()) :
    db'.nextSeq = db.nextSeq ∧ Stored db'.messages s (next + ws.length) ∧
    ∀ s' ≠ s, db'.messages.ofSession s' = db.messages.ofSession s' := by
  induction ws generalizing db next with
  | nil =>
    cases hw
    exact ⟨rfl, h, fun _ _ => rfl⟩
  | cons w ws ih =>
    rw [map_cons, length_cons, range'_succ] at hnum
    obtain ⟨hseq, hrest⟩ := List.cons.inj hnum
    rw [Db.applyWrites] at hw
    cases hone : db.applyWrite s w with
    | error e =>
      simp only [hone] at hw
      obtain ⟨-, rfl⟩ := Prod.mk.inj hw
      cases ha
    | ok one =>
      simp only [hone] at hw
      obtain ⟨hnext, hwrote⟩ := Db.applyWrite_wrote hone
      rw [hseq] at hwrote
      obtain ⟨hnext', hstored, hother⟩ := ih hrest (h.wrote hwrote) hw
      refine ⟨hnext'.trans hnext, ?_, ?_⟩
      · rw [length_cons, Nat.add_comm ws.length, ← Nat.add_assoc]
        exact hstored
      · intro s' hs'
        exact (hother s' hs').trans (hwrote.other hs')

theorem Db.applyWrites_numbers {ws : List CommittedWrite} {a : Except String Unit}
    (hw : db.applyWrites s ws = (db', a)) (ha : a = .ok ()) :
    ∃ new, (db'.messages.ofSession s).map Row.seq = (db.messages.ofSession s).map Row.seq ++ new ∧
      new.Sublist (ws.map CommittedWrite.seq) := by
  induction ws generalizing db with
  | nil =>
    cases hw
    exact ⟨[], (append_nil _).symm, List.Sublist.refl _⟩
  | cons w ws ih =>
    rw [Db.applyWrites] at hw
    cases hone : db.applyWrite s w with
    | error e =>
      simp only [hone] at hw
      obtain ⟨-, rfl⟩ := Prod.mk.inj hw
      cases ha
    | ok one =>
      simp only [hone] at hw
      obtain ⟨new, hnew, hsub⟩ := ih hw
      have hwrote := (Db.applyWrite_wrote hone).2
      generalize hone : one.messages = m at hnew hwrote
      cases hwrote with
      | same => exact ⟨new, hnew, hsub.cons _⟩
      | inserted row hrows hs hseq _ =>
        refine ⟨w.seq :: new, ?_, hsub.cons_cons _⟩
        have hrow : (m.ofSession s).map Row.seq = (db.messages.ofSession s).map Row.seq ++ [w.seq] := by
          rw [SessionMessages.ofSession, SessionMessages.ofSession, hrows, filter_append]
          simp [hs, hseq]
        rw [hnew, hrow, append_assoc]
        rfl

theorem Stored.congr (h : Stored t s next) (he : t'.ofSession s = t.ofSession s) : Stored t' s next :=
  ⟨fun r hr => h.below r (he ▸ hr), fun r hr => by rw [he] at hr ⊢; exact h.parents r hr⟩

/-! ### A commit -/

variable {ω ρ : Type} {pi : Pi ω ρ} {writes : List ω} {now : Int}

/-- **A commit that fails leaves every table as it was.** -/
theorem transaction_error {α : Type} {body : Db → Db × Except String α} {e : String}
    (h : (transaction body db).2 = .error e) : (transaction body db).1 = db := by
  unfold transaction at h ⊢
  split at h
  · cases h
  · rfl

theorem transaction_ok {α : Type} {body : Db → Db × Except String α} {a : α}
    (h : (transaction body db).2 = .ok a) : body db = ((transaction body db).1, .ok a) := by
  unfold transaction at h ⊢
  split at h
  next hb =>
    exact hb.trans (congrArg (Prod.mk _) h)
  · cases h

theorem commitBody_ok {out : ρ × SessionStats} (hpi : pi.Numbered)
    (h : Db.commitBody pi s writes now db = (db', .ok out)) :
    ∃ next prepared, db.nextSeq s = some next ∧ prepared.map CommittedWrite.seq = List.range' next prepared.length ∧
      ∃ mid, db.applyWrites s prepared = (mid, .ok ()) ∧
        db' = { mid with nextSeq := Function.update mid.nextSeq s (some (next + prepared.length)) } := by
  unfold Db.commitBody at h
  cases hnext : db.nextSeq s with
  | none => simp [hnext] at h
  | some next =>
    simp only [hnext] at h
    cases hprep : pi.prepare writes next now with
    | error e => simp [hprep] at h
    | ok p =>
      obtain ⟨prepared, result⟩ := p
      simp only [hprep] at h
      split at h
      · cases (Prod.mk.inj h).2
      rename_i hvalid
      split at h
      · cases (Prod.mk.inj h).2
      next mid hmid =>
        exact ⟨next, prepared, rfl, hpi _ _ _ _ _ _ _ hprep hvalid, mid, hmid, (Prod.mk.inj h).1.symm⟩

/-- **A commit keeps the tree of every session.** -/
theorem Db.Ok.applyCommit (ok : db.Ok) (hpi : pi.Numbered) : (db.applyCommit pi s writes now).1.Ok := by
  unfold Db.applyCommit
  cases hres : (transaction (Db.commitBody pi s writes now) db).2 with
  | error e =>
    rw [transaction_error hres]
    exact ok
  | ok out =>
    obtain ⟨next, prepared, hnext, hnum, mid, hmid, hdb⟩ := commitBody_ok hpi (transaction_ok hres)
    have hs := ok s
    simp only [hnext] at hs
    obtain ⟨hseq, hstored, hother⟩ := Db.applyWrites_stored hnum hs hmid rfl
    rw [hdb]
    intro s'
    by_cases he : s' = s
    · subst he
      simp only [Function.update_self]
      exact hstored
    simp only [Function.update_of_ne he, hseq]
    have hs' := ok s'
    cases hn : db.nextSeq s' with
    | none =>
      simp only [hn] at hs'
      exact (hother s' he).trans hs'
    | some n =>
      simp only [hn] at hs'
      exact hs'.congr (hother s' he)

/-- **A commit's writes take the next numbers**, its entries among them. -/
theorem Db.applyCommit_numbers {out : ρ × SessionStats} (hpi : pi.Numbered)
    (h : (db.applyCommit pi s writes now).2 = .ok out) :
    ∃ next n new, db.nextSeq s = some next ∧ (db.applyCommit pi s writes now).1.nextSeq s = some (next + n) ∧
      ((db.applyCommit pi s writes now).1.messages.ofSession s).map Row.seq
        = (db.messages.ofSession s).map Row.seq ++ new ∧
      new.Sublist (List.range' next n) := by
  obtain ⟨next, prepared, hnext, hnum, mid, hmid, hdb⟩ := commitBody_ok hpi (transaction_ok h)
  obtain ⟨new, hnew, hsub⟩ := Db.applyWrites_numbers hmid rfl
  refine ⟨next, prepared.length, new, hnext, ?_, ?_, hnum ▸ hsub⟩
  · rw [Db.applyCommit, hdb]
    exact Function.update_self ..
  · rw [Db.applyCommit, hdb]
    exact hnew

/-! ### Walks -/

theorem Stored.parent_lt (h : Stored t s next) (hr : r ∈ t.ofSession s)
    (hp : t.parent? s r = some p) : p ∈ t.ofSession s ∧ p.seq < r.seq := by
  obtain ⟨hmem, hid⟩ := SessionMessages.parent?_mem hp
  obtain ⟨p', hmem', hid', hlt⟩ := h.parents r hr p.id hid
  obtain rfl : p' = p := inj_on_of_nodup_map (t.ids_ofSession s) hmem' hmem hid'
  exact ⟨hmem, hlt⟩

theorem rowForEntry?_self (hr : r ∈ t.ofSession s) : t.rowForEntry? s r.harnessId = some r := by
  obtain ⟨hmem, hs⟩ := SessionMessages.mem_ofSession.mp hr
  cases hf : t.rowForEntry? s r.harnessId with
  | none =>
    have hno := find?_eq_none.mp hf r hmem
    simp [hs] at hno
  | some r' =>
    obtain ⟨hmem', hid⟩ := SessionMessages.rowForEntry?_mem hf
    obtain ⟨hrows', hs'⟩ := SessionMessages.mem_ofSession.mp hmem'
    have hkey : r'.harnessKey = r.harnessKey := by
      rw [Row.harnessKey, Row.harnessKey, hs', hs, hid]
    exact congrArg some (inj_on_of_nodup_map t.harnessIds hrows' hmem hkey)

def leafScan (id : EntryId) : BranchScan := ⟨id, none, none, none, none, none, none, none⟩

/-- **A branch is never cut short**: from any entry down to one without a parent, the numbers going
down all the way; and the session's entry count is bound enough for the query, whatever stops it. -/
theorem readBranch_whole (h : Stored t s next) (hr : r ∈ t.ofSession s) :
    (∃ es, readBranch t s (leafScan r.harnessId) = .ok es ∧ es.head? = some (t.decodeEntry s r) ∧
      es.Pairwise (fun newer older => older.seq < newer.seq) ∧
      ∀ e ∈ es.getLast?, e.parentId = none) ∧
    ∀ stop bound, (t.ofSession s).length ≤ bound →
      branchRows t s stop bound 0 r = branchRows t s stop (t.ofSession s).length 0 r := by
  have hdown : ∀ b c, b ∈ t.ofSession s → t.parent? s b = some c →
      c ∈ t.ofSession s ∧ c.seq < b.seq := fun b c hb hc => h.parent_lt hb hc
  have hkey : ∀ b c, b ∈ t.ofSession s → c ∈ t.ofSession s → b.id = c.id → b = c :=
    fun b c hb hc he => inj_on_of_nodup_map (t.ids_ofSession s) hb hc he
  have hpool : ∀ b, b ∈ t.ofSession s → b.seq < r.seq → b.id ∈ othersOf t s r := by
    intro b hb hlt
    refine (mem_erase_of_ne fun he => ?_).mpr (mem_map_of_mem hb)
    exact absurd hlt (hkey b r hb hr he ▸ Nat.lt_irrefl _)
  constructor
  · refine ⟨walkFrom t s (fun _ => false) r, ?_, ?_, ?_, ?_⟩
    · rw [readBranch_plain, plainBranch, leafScan]
      simp only [rowForEntry?_self hr]
      rfl
    · rw [walkFrom, Walk.walk, map_cons, head?_cons]
    · rw [walkFrom, pairwise_map]
      exact Walk.walk_decreasing hdown hr
    · intro e he
      rw [walkFrom, getLast?_map, Option.mem_def, Option.map_eq_some_iff] at he
      obtain ⟨last, hlast, rfl⟩ := he
      rcases Walk.walk_ends hdown hkey hr hpool last hlast with hstop | hnone
      · cases hstop
      · exact congrArg (Option.map Row.harnessId) hnone
  · intro stop bound hbound
    have hlen : (Walk.walk Row.id (t.parent? s) stop (othersOf t s r) r).length ≤ _ := Walk.length_walk_le stop _ r
    have hothers := length_othersOf hr
    have hall (m : Nat) (hm : (t.ofSession s).length ≤ m) : branchRows t s stop m 0 r
        = Walk.walk Row.id (t.parent? s) stop (othersOf t s r) r := by
      rw [branchRows_eq_path, Walk.path_eq_walk hdown hkey hr hpool]
      exact take_of_length_le (by omega)
    rw [hall bound hbound, hall _ (Nat.le_refl _)]

end

/-! ## Storages

Each runtime's `SessionStorage` over the one database. `queue` is its commits that are not settled,
the oldest first: the oldest is being prepared, or, once `committing`, waits for its turn in the
adapter. -/

structure SessionStorage (ω ρ : Type) where
  sessionId : SessionId
  closed : Bool
  calls : Nat
  queue : List (Nat × List ω)
  committing : Option (List ω)
  settled : List (Nat × Except String (ρ × SessionStats))

inductive Change (ω : Type)
  | created (s : SessionId)
  | committed (storage call : Nat) (s : SessionId) (writes : List ω) (now : Int)

structure World (ω ρ : Type) where
  db : Db
  storages : List (SessionStorage ω ρ)
  history : List (Change ω)

inductive Event (ω : Type)
  | createSession (s : SessionId)
  | openStorage (s : SessionId)
  | commit (storage : Nat) (writes : List ω)
  /-- The oldest commit's `prepare` settles. -/
  | prepared (storage : Nat) (writes : Except String (List ω))
  | apply (storage : Nat) (now : Int)
  | close (storage : Nat)

section

variable {ω ρ : Type} (pi : Pi ω ρ)

def World.empty : World ω ρ := { db := .empty, storages := [], history := [] }

def SessionStorage.fresh (s : SessionId) : SessionStorage ω ρ :=
  { sessionId := s, closed := false, calls := 0, queue := [], committing := none, settled := [] }

def SessionStorage.settle (st : SessionStorage ω ρ) (r : Except String (ρ × SessionStats)) : SessionStorage ω ρ :=
  match st.queue with
  | [] => st
  | (call, _) :: queue => { st with queue := queue, committing := none, settled := st.settled ++ [(call, r)] }

/-- `this.storage.commit(await this.prepare(writes), context)`, up to the adapter's queue. -/
def SessionStorage.prepared (st : SessionStorage ω ρ) : Except String (List ω) → SessionStorage ω ρ
  | .error e => st.settle (.error e)
  | .ok writes =>
    if st.closed then st.settle (.error "PiStorageAdapter is closed")
    else { st with committing := some writes }

def Db.create (db : Db) (s : SessionId) : Db := { db with nextSeq := Function.update db.nextSeq s (some 1) }

def World.apply (w : World ω ρ) (storage : Nat) (st : SessionStorage ω ρ) (now : Int) : World ω ρ :=
  match st.queue, st.committing with
  | (call, _) :: _, some writes =>
    match w.db.applyCommit pi st.sessionId writes now with
    | (db, r) =>
      { db := db
        storages := w.storages.set storage (st.settle r)
        history := match r with
          | .ok _ => w.history ++ [.committed storage call st.sessionId writes now]
          | .error _ => w.history }
  | _, _ => w

def World.step (w : World ω ρ) : Event ω → World ω ρ
  | .createSession s =>
    match w.db.nextSeq s with
    | none => { w with db := w.db.create s, history := w.history ++ [.created s] }
    | some _ => w
  | .openStorage s =>
    match w.db.nextSeq s with
    | none => w
    | some _ => { w with storages := w.storages ++ [.fresh s] }
  | .commit i writes =>
    match w.storages[i]? with
    | none => w
    | some st =>
      { w with
        storages := w.storages.set i { st with calls := st.calls + 1, queue := st.queue ++ [(st.calls, writes)] } }
  | .prepared i writes =>
    match w.storages[i]? with
    | none => w
    | some st =>
      match st.committing with
      | some _ => w
      | none => { w with storages := w.storages.set i (st.prepared writes) }
  | .apply i now =>
    match w.storages[i]? with
    | none => w
    | some st => w.apply pi i st now
  | .close i =>
    match w.storages[i]? with
    | none => w
    | some st => { w with storages := w.storages.set i { st with closed := true } }

def World.run (es : List (Event ω)) : World ω ρ := Run.exec (World.step pi) .empty es

/-! ### Its invariant -/

def Db.redo (db : Db) : Change ω → Db
  | .created s => db.create s
  | .committed _ _ s writes now => (db.applyCommit pi s writes now).1

def Change.callOf (storage : Nat) : Change ω → Option Nat
  | .created _ => none
  | .committed i call _ _ _ => if i = storage then some call else none

structure SessionStorage.InOrder (st : SessionStorage ω ρ) (calls : List Nat) : Prop where
  settled : st.settled.map Prod.fst ++ st.queue.map Prod.fst = List.range st.calls
  committed : calls.Sublist (st.settled.map Prod.fst)

structure World.Ok (w : World ω ρ) : Prop where
  db : w.db.Ok
  redone : w.db = w.history.foldl (Db.redo pi) .empty
  storages : ∀ (i : Nat) (st : SessionStorage ω ρ), w.storages[i]? = some st →
    st.InOrder (w.history.filterMap (Change.callOf i))
  absent : ∀ i, w.storages.length ≤ i → w.history.filterMap (Change.callOf i) = []

variable {pi} {w : World ω ρ} {st st' : SessionStorage ω ρ} {i : Nat} {calls : List Nat}

theorem Db.Ok.empty : Db.empty.Ok := fun _ => rfl

theorem Db.Ok.create {db : Db} {s : SessionId} (ok : db.Ok) (hs : db.nextSeq s = none) : (db.create s).Ok := by
  intro s'
  by_cases he : s' = s
  · subst he
    have hnone : db.messages.ofSession s' = [] := by simpa [hs] using ok s'
    simp only [Db.create, Function.update_self]
    constructor
    · intro r hr
      simp [hnone] at hr
    · intro r hr
      simp [hnone] at hr
  · simp only [Db.create, Function.update_of_ne he]
    exact ok s'

theorem SessionStorage.InOrder.settle (h : st.InOrder calls)
    (r : Except String (ρ × SessionStats)) : (st.settle r).InOrder calls := by
  unfold SessionStorage.settle
  cases hq : st.queue with
  | nil => exact h
  | cons c queue =>
    constructor
    · have hs := h.settled
      rw [hq] at hs
      simpa using hs
    · exact h.committed.trans (by simp)

theorem SessionStorage.InOrder.commit {call : Nat} {ws : List ω} {queue : List (Nat × List ω)}
    (h : st.InOrder calls) (hq : st.queue = (call, ws) :: queue)
    (r : Except String (ρ × SessionStats)) : (st.settle r).InOrder (calls ++ [call]) := by
  constructor
  · exact (h.settle r).settled
  · rw [SessionStorage.settle, hq]
    simpa using h.committed.append (List.Sublist.refl [call])

theorem SessionStorage.InOrder.prepared (h : st.InOrder calls) (r : Except String (List ω)) :
    (st.prepared r).InOrder calls := by
  cases r with
  | error e => exact h.settle _
  | ok writes =>
    rw [SessionStorage.prepared]
    split
    · exact h.settle _
    · exact ⟨h.settled, h.committed⟩

theorem SessionStorage.InOrder.call (h : st.InOrder calls) (writes : List ω) : SessionStorage.InOrder
      { st with calls := st.calls + 1, queue := st.queue ++ [(st.calls, writes)] } calls := by
  constructor
  · simp only [map_append, map_cons, map_nil, range_succ]
    rw [← h.settled, append_assoc]
  · exact h.committed

theorem World.Ok.setStorage (ok : w.Ok pi) (hi : w.storages[i]? = some st)
    (h : ∀ calls, st.InOrder calls → st'.InOrder calls) :
    World.Ok pi { w with storages := w.storages.set i st' } := by
  refine ⟨ok.db, ok.redone, ?_, ?_⟩
  · intro j x hj
    rcases getElem?_set_cases hj with ⟨rfl, rfl⟩ | ⟨-, hj⟩
    · exact h _ (ok.storages i st hi)
    · exact ok.storages j x hj
  · intro j hj
    rw [length_set] at hj
    exact ok.absent j hj

/-- A storage that commits: of its calls, the one settled was the oldest. -/
theorem World.Ok.apply (ok : w.Ok pi) (hpi : pi.Numbered) (hi : w.storages[i]? = some st)
    (now : Int) : (w.apply pi i st now).Ok pi := by
  unfold World.apply
  split
  next call ws queue writes hq _ =>
    have hdb : (w.db.applyCommit pi st.sessionId writes now).1.Ok := ok.db.applyCommit hpi
    have hfail : ∀ e, (w.db.applyCommit pi st.sessionId writes now).2 = .error e →
        (w.db.applyCommit pi st.sessionId writes now).1 = w.db :=
      fun e he => transaction_error he
    split
    rename_i db r hres
    rw [hres] at hdb hfail
    cases r with
    | error e =>
      obtain rfl : db = w.db := hfail e rfl
      exact ok.setStorage hi fun calls h => h.settle (.error e)
    | ok out =>
      have hlog (j : Nat) : (w.history ++ [Change.committed i call st.sessionId writes now]).filterMap (Change.callOf j)
          = w.history.filterMap (Change.callOf j) ++ if i = j then [call] else [] := by
        rw [filterMap_append]
        by_cases hij : i = j <;> simp [Change.callOf, hij]
      refine ⟨hdb, ?_, ?_, ?_⟩
      · show db = (w.history ++ [_]).foldl _ _
        rw [foldl_append, ← ok.redone]
        exact (congrArg Prod.fst hres).symm
      · intro j x hj
        show x.InOrder ((w.history ++ [_]).filterMap _)
        rw [hlog]
        have hj : (w.storages.set i (st.settle (.ok out)))[j]? = some x := hj
        rcases getElem?_set_cases hj with ⟨rfl, rfl⟩ | ⟨hij, hj⟩
        · rw [if_pos rfl]
          exact (ok.storages i st hi).commit hq (.ok out)
        · rw [if_neg hij, append_nil]
          exact ok.storages j x hj
      · intro j hj
        show (w.history ++ [_]).filterMap _ = _
        have hj : w.storages.length ≤ j := by simpa using hj
        have hlt : i < w.storages.length := (List.getElem?_eq_some_iff.mp hi).1
        rw [hlog, ok.absent j hj, if_neg (Nat.ne_of_lt (Nat.lt_of_lt_of_le hlt hj))]
        rfl
  · exact ok

theorem World.Ok.step (ok : w.Ok pi) (hpi : pi.Numbered) (e : Event ω) : (World.step pi w e).Ok pi := by
  cases e with
  | createSession s =>
    simp only [World.step]
    cases hs : w.db.nextSeq s with
    | some next => exact ok
    | none =>
      have hlog (j : Nat) : (w.history ++ [Change.created s]).filterMap (Change.callOf j)
          = w.history.filterMap (Change.callOf j) := by
        simp [Change.callOf]
      refine ⟨ok.db.create hs, ?_, ?_, ?_⟩
      · show w.db.create s = (w.history ++ [_]).foldl _ _
        rw [foldl_append, ← ok.redone]
        rfl
      · intro j x hj
        rw [hlog]
        exact ok.storages j x hj
      · intro j hj
        rw [hlog]
        exact ok.absent j hj
  | openStorage s =>
    simp only [World.step]
    cases w.db.nextSeq s with
    | none => exact ok
    | some next =>
      refine ⟨ok.db, ok.redone, ?_, ?_⟩
      · intro j x hj
        rw [getElem?_append] at hj
        split at hj
        · exact ok.storages j x hj
        rename_i hlen
        have hnone := ok.absent j (Nat.le_of_not_lt hlen)
        obtain rfl : SessionStorage.fresh s = x := mem_singleton.mp (mem_of_getElem? hj) |>.symm
        show SessionStorage.InOrder _ (w.history.filterMap _)
        rw [hnone]
        exact ⟨rfl, nil_sublist _⟩
      · intro j hj
        exact ok.absent j (Nat.le_trans (by simp) hj)
  | commit i writes =>
    simp only [World.step]
    split
    · exact ok
    next hi =>
      exact ok.setStorage hi fun calls h => h.call writes
  | prepared i writes =>
    simp only [World.step]
    split
    · exact ok
    rename_i hi
    split
    · exact ok
    · exact ok.setStorage hi fun calls h => h.prepared writes
  | apply i now =>
    simp only [World.step]
    split
    · exact ok
    next hi =>
      exact ok.apply hpi hi now
  | close i =>
    simp only [World.step]
    split
    · exact ok
    next hi =>
      exact ok.setStorage hi fun calls h => ⟨h.settled, h.committed⟩

theorem World.run_ok (hpi : pi.Numbered) (es : List (Event ω)) : (World.run pi es).Ok pi := by
  refine Run.exec_invariant (World.Ok pi) (fun w e ok => ok.step hpi e) ?_ es
  refine ⟨.empty, rfl, ?_, fun _ _ => rfl⟩
  intro i st hi
  cases hi

/-- **Commits are atomic and keep the trees**, in every run of any storages. A commit that fails
leaves every table as it was; the database is that of the commits that succeeded, made alone, and a
storage commits and settles in the order of its calls. A commit's writes take the session's next
numbers. A session's entries have numbers of their own below its next one, a parent a smaller one
than its child, and a branch is read down to the root whatever its leaf. -/
theorem commits_kept (hpi : pi.Numbered) (es : List (Event ω)) :
    (∀ s writes now e, ((World.run pi es).db.applyCommit pi s writes now).2 = .error e →
      ((World.run pi es).db.applyCommit pi s writes now).1 = (World.run pi es).db) ∧
    (World.run pi es).db = (World.run pi es).history.foldl (Db.redo pi) .empty ∧
    (∀ (i : Nat) (st : SessionStorage ω ρ), (World.run pi es).storages[i]? = some st →
      st.InOrder ((World.run pi es).history.filterMap (Change.callOf i))) ∧
    (∀ s writes now out, ((World.run pi es).db.applyCommit pi s writes now).2 = .ok out →
      ∃ next n new, (World.run pi es).db.nextSeq s = some next ∧
        ((World.run pi es).db.applyCommit pi s writes now).1.nextSeq s = some (next + n) ∧
        (((World.run pi es).db.applyCommit pi s writes now).1.messages.ofSession s).map Row.seq
          = ((World.run pi es).db.messages.ofSession s).map Row.seq ++ new ∧
        new.Sublist (List.range' next n)) ∧
    ∀ s next, (World.run pi es).db.nextSeq s = some next →
      (((World.run pi es).db.messages.ofSession s).map Row.seq).Nodup ∧
      Stored (World.run pi es).db.messages s next ∧
      ∀ r ∈ (World.run pi es).db.messages.ofSession s,
        (∃ entries, readBranch (World.run pi es).db.messages s (leafScan r.harnessId) = .ok entries ∧
          entries.head? = some ((World.run pi es).db.messages.decodeEntry s r) ∧
          entries.Pairwise (fun newer older => older.seq < newer.seq) ∧
          ∀ e ∈ entries.getLast?, e.parentId = none) ∧
        ∀ stop bound, ((World.run pi es).db.messages.ofSession s).length ≤ bound →
          branchRows (World.run pi es).db.messages s stop bound 0 r = branchRows (World.run pi es).db.messages s stop
                ((World.run pi es).db.messages.ofSession s).length 0 r := by
  have ok := World.run_ok hpi es
  refine ⟨fun s writes now e he => transaction_error he, ok.redone, ok.storages,
    fun s writes now out hout => Db.applyCommit_numbers hpi hout, ?_⟩
  intro s next hnext
  have hstored : Stored (World.run pi es).db.messages s next := by simpa [hnext] using ok.db s
  exact ⟨SessionMessages.seqs_ofSession _ s, hstored, fun r hr => readBranch_whole hstored hr⟩

end

/-! ### Numbers are the commits', not the entries' -/

def CommittedWrite.withSeq (seq : Nat) : CommittedWrite → CommittedWrite
  | .entry _ id parentId envelope => .entry seq id parentId envelope
  | .usage _ id entryId adjustment u details => .usage seq id entryId adjustment u details
  | .setValue _ ns key value => .setValue seq ns key value
  | .deleteValue _ ns key => .deleteValue seq ns key
  | .appendList _ ns key value => .appendList seq ns key value
  | .deleteList _ ns key => .deleteList seq ns key

def numberFrom (next : Nat) : List CommittedWrite → List CommittedWrite
  | [] => []
  | w :: ws => w.withSeq next :: numberFrom (next + 1) ws

theorem numberFrom_seq (next : Nat) (ws : List CommittedWrite) :
    (numberFrom next ws).map CommittedWrite.seq = List.range' next (numberFrom next ws).length := by
  induction ws generalizing next with
  | nil => rfl
  | cons w ws ih =>
    rw [numberFrom, map_cons, length_cons, range'_succ, ih]
    cases w <;> rfl

def numbering : Pi CommittedWrite Unit :=
  { prepare := fun writes next _ => .ok (numberFrom next writes, ())
    validate := fun _ _ _ _ => .ok () }

theorem numbering_numbered : numbering.Numbered := by
  intro writes next now prepared result _ _ hprep _
  obtain ⟨rfl, -⟩ := Prod.mk.inj (Except.ok.inj hprep)
  exact numberFrom_seq next writes

def twoCommits : List (Event CommittedWrite) :=
  let note := Envelope.custom "note" 0 []
  [.createSession "s", .openStorage "s",
    .commit 0 [.entry 0 "a" none note], .prepared 0 (.ok [.entry 0 "a" none note]), .apply 0 0,
    .commit 0 [.setValue 0 "pi.branch.tip" "main" .null, .entry 0 "b" (some "a") note],
    .prepared 0 (.ok [.setValue 0 "pi.branch.tip" "main" .null, .entry 0 "b" (some "a") note]),
    .apply 0 0]

theorem entries_not_consecutive : (((World.run numbering twoCommits).db.messages.ofSession "s").map Row.seq = [1, 3]) ∧
    ¬ ∃ first n, ((World.run numbering twoCommits).db.messages.ofSession "s").map Row.seq = List.range' first n := by
  have hseqs : ((World.run numbering twoCommits).db.messages.ofSession "s").map Row.seq = [1, 3] := rfl
  refine ⟨hseqs, ?_⟩
  rintro ⟨first, n, h⟩
  rw [hseqs] at h
  obtain rfl : n = 2 := by simpa using (congrArg List.length h).symm
  obtain ⟨rfl, h3⟩ : 1 = first ∧ first = 2 := by simpa [List.range'] using h
  cases h3

theorem commits_kept_two : (World.run numbering twoCommits).db.nextSeq "s" = some 4 ∧
    Stored (World.run numbering twoCommits).db.messages "s" 4 := by
  have hnext : (World.run numbering twoCommits).db.nextSeq "s" = some 4 := rfl
  exact ⟨hnext, ((commits_kept numbering_numbered twoCommits).2.2.2.2 "s" 4 hnext).2.1⟩

end Reins.Store
