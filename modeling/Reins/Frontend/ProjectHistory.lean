import Reins.Lib.Paging
import Reins.Lib.Places
import Reins.Lib.Run

/-!
# A project's history (`frontend/src/models/stores/project-history-store.ts`)

The archived sessions come in pages, each asked for by its offset (`backend/src/routes/project-sessions.ts`,
`session-store.ts`). A session that is unarchived leaves the list at once and comes back if the server
refuses; the server's list loses it once the server accepts. Requests are answered at any time and in any
order, and the store goes on with an answer later still.
-/

namespace Reins.ProjectHistory

open Paging Places Run List

abbrev SessionId := String
abbrev Search := String

def PAGE_SIZE : Nat := 20

inductive PageAnswer
  | pending
  | page (items : List SessionId) (hasMore : Bool)
  | failed
  | settled
  deriving DecidableEq

structure PageRequest where
  generation : Nat
  reset : Bool
  search : Search
  offset : Int
  answer : PageAnswer
  deriving DecidableEq

inductive UnarchiveAnswer
  | pending
  | accepted
  | refused
  | settled
  deriving DecidableEq

structure UnarchiveRequest where
  session : SessionId
  index : Nat
  loadedFor : Option Nat
  answer : UnarchiveAnswer
  deriving DecidableEq

structure State where
  server : List SessionId
  archivedSessions : List SessionId
  archivedOffset : Int
  archivedHasMore : Bool
  loadingArchived : Bool
  search : Search
  generation : Nat
  loadedFor : Option Nat
  pages : List PageRequest
  unarchives : List UnarchiveRequest

def State.init (server : List SessionId) : State :=
  { server, archivedSessions := [], archivedOffset := 0, archivedHasMore := false, loadingArchived := false,
    search := "", generation := 0, loadedFor := none, pages := [], unarchives := [] }

/-! ## The server -/

abbrev Finds := Search → SessionId → Bool

def listArchivedByProject (finds : Finds) (server : List SessionId) (search : Search) (limit offset : Nat) :
    List SessionId :=
  ((server.filter (finds search)).drop offset).take limit

/-- The route: one more than the page tells whether there are more. -/
def PageRequest.read (finds : Finds) (server : List SessionId) (p : PageRequest) : PageAnswer :=
  if p.offset < 0 then .failed
  else
    let archived := listArchivedByProject finds server p.search (PAGE_SIZE + 1) p.offset.toNat
    .page (archived.take PAGE_SIZE) (decide (PAGE_SIZE < archived.length))

def State.answerPage (finds : Finds) (s : State) (i : Nat) : State :=
  match s.pages[i]? with
  | none => s
  | some p =>
    if p.answer = .pending then { s with pages := s.pages.set i { p with answer := p.read finds s.server } } else s

def State.losePage (s : State) (i : Nat) : State :=
  match s.pages[i]? with
  | none => s
  | some p => if p.answer = .settled then s else { s with pages := s.pages.set i { p with answer := .failed } }

def State.answerUnarchive (s : State) (i : Nat) (accepts : Bool) : State :=
  match s.unarchives[i]? with
  | none => s
  | some u =>
    if u.answer = .pending then
      if accepts then
        { s with
          server := s.server.filter (· != u.session)
          unarchives := s.unarchives.set i { u with answer := .accepted } }
      else { s with unarchives := s.unarchives.set i { u with answer := .refused } }
    else s

/-! ## The store -/

def State.loadArchivedPage (s : State) (generation : Nat) (reset : Bool) : State :=
  { s with
    loadingArchived := true
    pages := s.pages ++
      [{ generation, reset, search := s.search, offset := if reset then 0 else s.archivedOffset, answer := .pending }] }

def State.load (s : State) : State :=
  ({ s with
    generation := s.generation + 1, archivedSessions := [], archivedOffset := 0,
    archivedHasMore := false } : State).loadArchivedPage (s.generation + 1) true

/-- `normalized` is the search less the blanks around it. -/
def State.setSearch (s : State) (normalized : Search) : State :=
  if normalized = s.search then s else ({ s with search := normalized } : State).load

def State.loadMoreArchived (s : State) : State :=
  if s.loadingArchived || !s.archivedHasMore then s else s.loadArchivedPage s.generation false

/-- `unarchive`, up to its await. -/
def State.unarchive (s : State) (session : SessionId) : State :=
  match s.archivedSessions.findIdx? (· == session) with
  | none => s
  | some index =>
    { s with
      archivedSessions := s.archivedSessions.filter (· != session)
      archivedOffset := s.archivedOffset - 1
      unarchives := s.unarchives ++ [{ session, index, loadedFor := s.loadedFor, answer := .pending }] }

def State.rollback (s : State) (u : UnarchiveRequest) : State :=
  { s with
    archivedSessions := s.archivedSessions.take u.index ++ u.session :: s.archivedSessions.drop u.index
    archivedOffset := s.archivedOffset + 1 }

def State.unarchiveSettles (s : State) (i : Nat) : State :=
  match s.unarchives[i]? with
  | none => s
  | some u =>
    let s' := { s with unarchives := s.unarchives.set i { u with answer := .settled } }
    match u.answer with
    | .accepted => s'
    | .refused => s'.rollback u
    | .pending | .settled => s

def State.addPage (s : State) (p : PageRequest) (items : List SessionId) (hasMore : Bool) : State :=
  { s with
    archivedSessions := if p.reset then items else s.archivedSessions ++ items
    archivedOffset := (if p.reset then 0 else s.archivedOffset) + items.length
    archivedHasMore := hasMore
    loadingArchived := false
    loadedFor := some s.generation }

/-- `loadArchivedPage` goes on. -/
def State.pageSettles (s : State) (i : Nat) : State :=
  match s.pages[i]? with
  | none => s
  | some p =>
    let s' := { s with pages := s.pages.set i { p with answer := .settled } }
    match p.answer with
    | .page items hasMore => if p.generation = s.generation then s'.addPage p items hasMore else s'
    -- what was loaded stays
    | .failed => if p.generation = s.generation then { s' with loadingArchived := false } else s'
    | .pending | .settled => s

inductive Event
  | load
  | setSearch (normalized : Search)
  | loadMoreArchived
  | unarchive (session : SessionId)
  | answerPage (i : Nat)
  | losePage (i : Nat)
  | answerUnarchive (i : Nat) (accepts : Bool)
  | pageSettles (i : Nat)
  | unarchiveSettles (i : Nat)
  deriving DecidableEq

def step (finds : Finds) (s : State) : Event → State
  | .load => s.load
  | .setSearch normalized => s.setSearch normalized
  | .loadMoreArchived => s.loadMoreArchived
  | .unarchive session => s.unarchive session
  | .answerPage i => s.answerPage finds i
  | .losePage i => s.losePage i
  | .answerUnarchive i accepts => s.answerUnarchive i accepts
  | .pageSettles i => s.pageSettles i
  | .unarchiveSettles i => s.unarchiveSettles i

/-! ## The list once all has settled -/

def State.listed (finds : Finds) (s : State) : List SessionId := s.server.filter (finds s.search)

def State.Settled (s : State) : Prop := (∀ p ∈ s.pages, p.answer = .settled) ∧ ∀ u ∈ s.unarchives, u.answer = .settled

instance (s : State) : Decidable s.Settled := inferInstanceAs (Decidable (_ ∧ _))

def State.more (finds : Finds) (s : State) : State :=
  exec (step finds) s [.loadMoreArchived, .answerPage s.pages.length, .pageSettles s.pages.length]

def State.moreTimes (finds : Finds) : Nat → State → State
  | 0, s => s
  | n + 1, s => State.moreTimes finds n (s.more finds)

structure ShowsOnce (finds : Finds) (s : State) : Prop where
  once : s.archivedSessions.Nodup
  first : s.archivedSessions = (s.listed finds).take s.archivedSessions.length
  all : 0 < s.generation → ∀ n, (s.listed finds).length ≤ n → (s.moreTimes finds n).archivedSessions = s.listed finds

/-! ### What is out of the list -/

/-- A session taken out of the list of this load that the server still has and the store has not put back. -/
def UnarchiveRequest.out (generation : Nat) (u : UnarchiveRequest) : Option SessionId :=
  if u.loadedFor = some generation ∧ (u.answer = .pending ∨ u.answer = .refused) then some u.session else none

def State.out (s : State) : List SessionId := s.unarchives.filterMap (·.out s.generation)

/-- How much of the server's list the store has loaded. -/
def State.covered (s : State) : Nat := s.archivedSessions.length + s.out.length

def State.Current (s : State) : Prop := s.loadedFor = some s.generation

instance (s : State) : Decidable s.Current := inferInstanceAs (Decidable (_ = _))

def State.coming (s : State) (p : PageRequest) : List SessionId :=
  match p.answer with
  | .page items _ => if p.generation = s.generation then items else []
  | _ => []

/-- A page is read where the store's offset is what it has loaded; a session unarchived before the last load is
accepted only where the load does not show it; one that is put back comes to its place in the list it was taken
from, or where the load's first page is still to come; and that page comes. -/
def Orderly (finds : Finds) (s : State) : Event → Prop
  | .answerPage i =>
    ∀ p ∈ s.pages[i]?, p.answer = .pending → p.generation = s.generation → p.reset = false → p.offset = s.covered
  | .answerUnarchive i accepts =>
    ∀ u ∈ s.unarchives[i]?, u.answer = .pending → accepts = true → u.loadedFor ≠ some s.generation →
      (s.Current → u.session ∉ s.archivedSessions ∧ u.session ∉ s.out) ∧ ∀ p ∈ s.pages, u.session ∉ s.coming p
  | .unarchiveSettles i =>
    ∀ u ∈ s.unarchives[i]?, u.answer = .refused → if u.loadedFor = some s.generation then
        min u.index s.archivedSessions.length = ahead (s.listed finds) s.archivedSessions u.session
      else ¬ s.Current
  | .pageSettles i => ∀ p ∈ s.pages[i]?, p.answer = .failed → p.generation = s.generation → p.reset = false
  | _ => True

instance (finds : Finds) (s : State) (e : Event) : Decidable (Orderly finds s e) := by
  cases e <;> unfold Orderly <;> infer_instance

/-! ## The invariant -/

/-- A request of the current load that the store has yet to go on with. -/
def State.Going (s : State) (p : PageRequest) : Prop := p.generation = s.generation ∧ p.answer ≠ .settled

/-- Where a page of the current load begins. -/
def State.base (s : State) (p : PageRequest) : Nat := if p.reset then 0 else s.covered

def Reads (finds : Finds) (s : State) (p : PageRequest) : Prop :=
  ∀ (items : List SessionId) (hasMore : Bool), p.answer = .page items hasMore →
    items = ((s.listed finds).drop (s.base p)).take PAGE_SIZE ∧
      (hasMore = false → (s.listed finds).length ≤ s.base p + PAGE_SIZE)

/-- A request on its way: of the load's first page where that has yet to come, of a further one else. -/
structure PageOk (finds : Finds) (s : State) (p : PageRequest) : Prop where
  loading : s.loadingArchived = true
  search : p.search = s.search
  reset : p.reset = true ↔ ¬ s.Current
  offset : p.reset = true → p.offset = 0
  reads : Reads finds s p

/-- With the first page there, the list and what is out of it are the first part of the server's. -/
structure Loaded (finds : Finds) (s : State) : Prop where
  view : View (s.listed finds) s.archivedSessions s.out
  offset : s.archivedOffset = s.archivedSessions.length
  all : s.archivedHasMore = false → (s.listed finds).length ≤ s.covered

structure Inv (finds : Finds) (s : State) : Prop where
  server : s.server.Nodup
  pages : ∀ p ∈ s.pages, p.generation ≤ s.generation
  going : ∀ (i : Nat) (p : PageRequest), s.pages[i]? = some p → s.Going p → PageOk finds s p
  one : ∀ (i j : Nat) (p q : PageRequest), s.pages[i]? = some p → s.pages[j]? = some q → s.Going p → s.Going q → i = j
  loads : ∀ g ∈ s.loadedFor, g ≤ s.generation
  unarchives : ∀ u ∈ s.unarchives, ∀ g ∈ u.loadedFor, g ≤ s.generation
  taken : ∀ u ∈ s.unarchives, u.loadedFor = some s.generation → s.Current
  waiting : ¬ s.Current → s.archivedHasMore = false ∧
    ((∃ (i : Nat) (p : PageRequest), s.pages[i]? = some p ∧ s.Going p) ∨
      s.generation = 0 ∧ s.archivedSessions = [] ∧ s.pages = [] ∧ s.unarchives = [])
  loaded : s.Current → Loaded finds s
  busy : s.loadingArchived = true → ∃ (i : Nat) (p : PageRequest), s.pages[i]? = some p ∧ s.Going p

section

variable {finds : Finds} {s s' : State} {i : Nat} {p : PageRequest} {u : UnarchiveRequest}

theorem Inv.init {server : List SessionId} (hserver : server.Nodup) : Inv finds (.init server) := by
  constructor
  · exact hserver
  · exact nofun
  · exact nofun
  · exact nofun
  · exact nofun
  · exact nofun
  · exact nofun
  · intro _
    exact ⟨rfl, .inr ⟨rfl, rfl, rfl, rfl⟩⟩
  · exact nofun
  · exact nofun

theorem listed_nodup (h : s.server.Nodup) : (s.listed finds).Nodup := h.filter _

/-! ### What was out -/

theorem out_of_taken {generation : Nat} (htaken : u.loadedFor = some generation)
    (hanswer : u.answer = .pending ∨ u.answer = .refused) : u.out generation = some u.session :=
  if_pos ⟨htaken, hanswer⟩

theorem out_of_other {generation : Nat} (hother : u.loadedFor ≠ some generation) : u.out generation = none :=
  if_neg fun h => hother h.1

theorem out_of_answered {generation : Nat} (hanswer : u.answer = .accepted ∨ u.answer = .settled) :
    u.out generation = none := by
  apply if_neg
  rintro ⟨-, hout⟩
  rcases hanswer with hanswer | hanswer <;> rw [hanswer] at hout <;> rcases hout with hout | hout <;> cases hout

/-- Before the load's first page comes, nothing was taken out of its list. -/
theorem Inv.out_nil (h : Inv finds s) (hnot : ¬ s.Current) : s.out = [] := by
  apply filterMap_eq_nil_iff.mpr
  intro u hu
  exact out_of_other fun htaken => hnot (h.taken u hu htaken)

theorem State.Settled.out (h : s.Settled) : s.out = [] := by
  apply filterMap_eq_nil_iff.mpr
  intro u hu
  exact out_of_answered (.inr (h.2 u hu))

/-! ### Asking -/

theorem Inv.load (h : Inv finds s) (search : Search) : Inv finds ({ s with search } : State).load := by
  have hlt : ∀ g : Nat, g ≤ s.generation → g ≠ s.generation + 1 := by
    intro g hle heq
    exact absurd hle (heq ▸ Nat.not_succ_le_self s.generation)
  have hnot : ¬ ({ s with search } : State).load.Current := by
    intro hcurrent
    have hcurrent : s.loadedFor = some (s.generation + 1) := hcurrent
    exact hlt _ (h.loads _ hcurrent) rfl
  -- only the new request is of the new load
  have hnew : ∀ (i : Nat) (p : PageRequest), ({ s with search } : State).load.pages[i]? = some p →
      ({ s with search } : State).load.Going p → i = s.pages.length ∧ p =
        { generation := s.generation + 1, reset := true, search, offset := 0, answer := .pending } := by
    intro i p hp hgoing
    rcases getElem?_concat_cases hp with hold | hnew
    · exact absurd hgoing.1 (hlt _ (h.pages p (mem_of_getElem? hold)))
    · exact hnew
  have hgoes : ∃ (i : Nat) (p : PageRequest), ({ s with search } : State).load.pages[i]? = some p ∧
      ({ s with search } : State).load.Going p := by
    refine ⟨s.pages.length, _, getElem?_concat_length, rfl, ?_⟩
    intro hsettled
    cases hsettled
  constructor
  · exact h.server
  · intro p hp
    rcases mem_concat_cases hp with hp | rfl
    · exact Nat.le_succ_of_le (h.pages p hp)
    · exact Nat.le_refl _
  · intro i p hp hgoing
    obtain ⟨-, rfl⟩ := hnew i p hp hgoing
    constructor
    · rfl
    · rfl
    · exact iff_of_true rfl hnot
    · intro _
      rfl
    · exact nofun
  · intro i j p q hp hq hpgoing hqgoing
    exact (hnew i p hp hpgoing).1.trans (hnew j q hq hqgoing).1.symm
  · intro g hg
    exact Nat.le_succ_of_le (h.loads g hg)
  · intro u hu g hg
    exact Nat.le_succ_of_le (h.unarchives u hu g hg)
  · intro u hu htaken
    exact absurd rfl (hlt _ (h.unarchives u hu _ htaken))
  · intro _
    exact ⟨rfl, .inl hgoes⟩
  · intro hcurrent
    exact absurd hcurrent hnot
  · intro _
    exact hgoes

theorem Inv.setSearch (h : Inv finds s) (normalized : Search) : Inv finds (s.setSearch normalized) := by
  unfold State.setSearch
  split
  · exact h
  · exact h.load normalized

/-- A further page is asked for where the store has one and none is on its way. -/
theorem Inv.loadMoreArchived (h : Inv finds s) : Inv finds s.loadMoreArchived := by
  unfold State.loadMoreArchived
  split
  · exact h
  rename_i hasks
  rw [Bool.or_eq_true, not_or, Bool.not_eq_true, Bool.not_eq_true'] at hasks
  obtain ⟨hidle, hmore⟩ := hasks
  have hcurrent : s.Current := by
    by_contra hnot
    exact hmore (h.waiting hnot).1
  have hnone : ∀ (i : Nat) (p : PageRequest), s.pages[i]? = some p → ¬ s.Going p := by
    intro i p hp hgoing
    have hloading := (h.going i p hp hgoing).loading
    cases hidle.symm.trans hloading
  have hnew : ∀ (i : Nat) (p : PageRequest), (s.loadArchivedPage s.generation false).pages[i]? = some p →
      (s.loadArchivedPage s.generation false).Going p → i = s.pages.length ∧ p =
        { generation := s.generation, reset := false, search := s.search, offset := s.archivedOffset,
          answer := .pending } := by
    intro i p hp hgoing
    rcases getElem?_concat_cases hp with hold | hnew
    · exact absurd hgoing (hnone i p hold)
    · exact hnew
  constructor
  · exact h.server
  · intro p hp
    rcases mem_concat_cases hp with hp | rfl
    · exact h.pages p hp
    · exact Nat.le_refl _
  · intro i p hp hgoing
    obtain ⟨-, rfl⟩ := hnew i p hp hgoing
    constructor
    · rfl
    · rfl
    · constructor
      · exact nofun
      · intro hnot
        exact absurd hcurrent hnot
    · exact nofun
    · exact nofun
  · intro i j p q hp hq hpgoing hqgoing
    exact (hnew i p hp hpgoing).1.trans (hnew j q hq hqgoing).1.symm
  · exact h.loads
  · exact h.unarchives
  · exact h.taken
  · intro hnot
    exact absurd hcurrent hnot
  · intro _
    obtain ⟨hview, hoffset, hall⟩ := h.loaded hcurrent
    exact ⟨hview, hoffset, hall⟩
  · intro _
    refine ⟨s.pages.length, _, getElem?_concat_length, rfl, ?_⟩
    intro hsettled
    cases hsettled

/-! ### Answers to pages -/

theorem Inv.setAnswer (h : Inv finds s) (hp : s.pages[i]? = some p) (hgoes : p.answer ≠ .settled)
    {answer : PageAnswer} (hgoes' : answer ≠ .settled) (hreads : s.Going p → Reads finds s { p with answer }) :
    Inv finds { s with pages := s.pages.set i { p with answer } } := by
  -- what is on its way afterwards was so before, but for its answer
  have hold : ∀ (j : Nat) (q : PageRequest), (s.pages.set i { p with answer })[j]? = some q → s.Going q →
      ∃ q', s.pages[j]? = some q' ∧ s.Going q' := by
    intro j q hq hgoing
    rcases getElem?_set_cases hq with ⟨rfl, rfl⟩ | ⟨-, hq⟩
    · exact ⟨p, hp, hgoing.1, hgoes⟩
    · exact ⟨q, hq, hgoing⟩
  have hcarried : ∀ (j : Nat) (q : PageRequest), s.pages[j]? = some q → s.Going q →
      ∃ (j : Nat) (q : PageRequest), (s.pages.set i { p with answer })[j]? = some q ∧ s.Going q := by
    intro j q hq hgoing
    by_cases heq : i = j
    · subst heq
      cases hp.symm.trans hq
      exact ⟨i, _, getElem?_set_self (lt_of_getElem? hp), hgoing.1, hgoes'⟩
    · exact ⟨j, q, (getElem?_set_ne heq).trans hq, hgoing⟩
  constructor
  · exact h.server
  · intro q hq
    rcases mem_or_eq_of_mem_set hq with hq | rfl
    · exact h.pages q hq
    · exact h.pages p (mem_of_getElem? hp)
  · intro j q hq hgoing
    rcases getElem?_set_cases hq with ⟨rfl, rfl⟩ | ⟨-, hq⟩
    · have hwas : s.Going p := ⟨hgoing.1, hgoes⟩
      have hok := h.going _ p hp hwas
      exact { hok with reads := hreads hwas }
    · have hok := h.going j q hq hgoing
      exact { hok with }
  · intro j k q r hq hr hqgoing hrgoing
    obtain ⟨q', hq', hqgoing'⟩ := hold j q hq hqgoing
    obtain ⟨r', hr', hrgoing'⟩ := hold k r hr hrgoing
    exact h.one j k q' r' hq' hr' hqgoing' hrgoing'
  · exact h.loads
  · exact h.unarchives
  · exact h.taken
  · intro hnot
    obtain ⟨hmore, hcoming⟩ := h.waiting hnot
    refine ⟨hmore, .inl ?_⟩
    rcases hcoming with ⟨j, q, hq, hgoing⟩ | ⟨-, -, hpages, -⟩
    · exact hcarried j q hq hgoing
    · rw [hpages] at hp
      cases hp
  · intro hcurrent
    obtain ⟨hview, hoffset, hall⟩ := h.loaded hcurrent
    exact ⟨hview, hoffset, hall⟩
  · intro hbusy
    obtain ⟨j, q, hq, hgoing⟩ := h.busy hbusy
    exact hcarried j q hq hgoing

theorem length_listArchivedByProject (server : List SessionId) (search : Search) (offset : Nat) :
    PAGE_SIZE < (listArchivedByProject finds server search (PAGE_SIZE + 1) offset).length ↔
      offset + PAGE_SIZE < (server.filter (finds search)).length := by
  unfold listArchivedByProject
  rw [List.length_take, length_drop, Nat.lt_min, Nat.lt_sub_iff_add_lt']
  exact and_iff_right (Nat.lt_succ_self _)

/-- A page that is read where it begins holds what is there. -/
theorem reads_of_offset (hsearch : p.search = s.search) (hoffset : p.offset = s.base p) :
    Reads finds s { p with answer := p.read finds s.server } := by
  intro items hasMore hanswer
  have hanswer : p.read finds s.server = .page items hasMore := hanswer
  unfold PageRequest.read at hanswer
  rw [hoffset, if_neg (Int.not_lt.mpr (Int.natCast_nonneg _)), Int.toNat_natCast, hsearch] at hanswer
  obtain ⟨hitems, hmore⟩ := PageAnswer.page.inj hanswer
  constructor
  · rw [← hitems]
    unfold listArchivedByProject
    rw [take_take, Nat.min_eq_left (Nat.le_succ _)]
    rfl
  · intro hlast
    rw [hlast, decide_eq_false_iff_not, length_listArchivedByProject] at hmore
    exact Nat.le_of_not_lt hmore

theorem Inv.answerPage (h : Inv finds s) (hok : Orderly finds s (.answerPage i)) :
    Inv finds (s.answerPage finds i) := by
  unfold State.answerPage
  split
  · exact h
  rename_i p hp
  split
  next hpending =>
    apply h.setAnswer hp
    · rw [hpending]
      exact nofun
    · unfold PageRequest.read
      split <;> exact nofun
    · intro hgoing
      have hpage := h.going i p hp hgoing
      apply reads_of_offset hpage.search
      unfold State.base
      split
      next hreset =>
        exact hpage.offset hreset
      next hmore =>
        exact hok p hp hpending hgoing.1 (Bool.eq_false_iff.mpr hmore)
  · exact h

theorem Inv.losePage (h : Inv finds s) (i : Nat) : Inv finds (s.losePage i) := by
  unfold State.losePage
  split
  · exact h
  rename_i p hp
  split
  · exact h
  rename_i hgoes
  apply h.setAnswer hp hgoes
  · exact nofun
  · exact nofun

/-! ### The store goes on with a page -/

theorem generation_le_of_settled (h : Inv finds s) (hp : s.pages[i]? = some p) {q : PageRequest}
    (hq : q ∈ s.pages.set i { p with answer := .settled }) : q.generation ≤ s.generation := by
  rcases mem_or_eq_of_mem_set hq with hq | rfl
  · exact h.pages q hq
  · exact h.pages p (mem_of_getElem? hp)

theorem Inv.dropPage (h : Inv finds s) (hp : s.pages[i]? = some p) (hstale : p.generation ≠ s.generation) :
    Inv finds { s with pages := s.pages.set i { p with answer := .settled } } := by
  have hold : ∀ (j : Nat) (q : PageRequest), (s.pages.set i { p with answer := .settled })[j]? = some q → s.Going q →
      s.pages[j]? = some q := by
    intro j q hq hgoing
    rcases getElem?_set_cases hq with ⟨-, rfl⟩ | ⟨-, hq⟩
    · exact absurd rfl hgoing.2
    · exact hq
  have hgoes : ∀ (j : Nat) (q : PageRequest), s.pages[j]? = some q → s.Going q →
      ∃ (j : Nat) (q : PageRequest), (s.pages.set i { p with answer := .settled })[j]? = some q ∧ s.Going q := by
    intro j q hq hgoing
    have hne : i ≠ j := by
      rintro rfl
      cases hp.symm.trans hq
      exact hstale hgoing.1
    exact ⟨j, q, (getElem?_set_ne hne).trans hq, hgoing⟩
  constructor
  · exact h.server
  · intro q hq
    exact generation_le_of_settled h hp hq
  · intro j q hq hgoing
    have hok := h.going j q (hold j q hq hgoing) hgoing
    exact { hok with }
  · intro j k q r hq hr hqgoing hrgoing
    exact h.one j k q r (hold j q hq hqgoing) (hold k r hr hrgoing) hqgoing hrgoing
  · exact h.loads
  · exact h.unarchives
  · exact h.taken
  · intro hnot
    obtain ⟨hmore, hcoming⟩ := h.waiting hnot
    refine ⟨hmore, .inl ?_⟩
    rcases hcoming with ⟨j, q, hq, hgoing⟩ | ⟨-, -, hpages, -⟩
    · exact hgoes j q hq hgoing
    · rw [hpages] at hp
      cases hp
  · intro hcurrent
    obtain ⟨hview, hoffset, hall⟩ := h.loaded hcurrent
    exact ⟨hview, hoffset, hall⟩
  · intro hbusy
    obtain ⟨j, q, hq, hgoing⟩ := h.busy hbusy
    exact hgoes j q hq hgoing

theorem Inv.none_going (h : Inv finds s) (hp : s.pages[i]? = some p) (hgoing : s.Going p) {j : Nat}
    {q : PageRequest} (hq : (s.pages.set i { p with answer := .settled })[j]? = some q) : ¬ s.Going q := by
  intro hqgoing
  rcases getElem?_set_cases hq with ⟨-, rfl⟩ | ⟨hne, hq⟩
  · exact hqgoing.2 rfl
  · exact hne (h.one i j p q hp hq hgoing hqgoing)

/-- A further page's request failed: what was loaded stays, and it can be asked for again. -/
theorem Inv.failPage (h : Inv finds s) (hp : s.pages[i]? = some p) (hgoing : s.Going p) (hcurrent : s.Current) :
    Inv finds { s with pages := s.pages.set i { p with answer := .settled }, loadingArchived := false } := by
  constructor
  · exact h.server
  · intro q hq
    exact generation_le_of_settled h hp hq
  · intro j q hq hqgoing
    exact absurd hqgoing (h.none_going hp hgoing hq)
  · intro j k q r hq hr hqgoing hrgoing
    exact absurd hqgoing (h.none_going hp hgoing hq)
  · exact h.loads
  · exact h.unarchives
  · exact h.taken
  · intro hnot
    exact absurd hcurrent hnot
  · intro _
    obtain ⟨hview, hoffset, hall⟩ := h.loaded hcurrent
    exact ⟨hview, hoffset, hall⟩
  · exact nofun

theorem Inv.addPage (h : Inv finds s) (hp : s.pages[i]? = some p) (hgoing : s.Going p) {items : List SessionId}
    {hasMore : Bool} (hanswer : p.answer = .page items hasMore) :
    Inv finds (({ s with pages := s.pages.set i { p with answer := .settled } } : State).addPage p items hasMore) := by
  have hok := h.going i p hp hgoing
  obtain ⟨hitems, hlast⟩ := hok.reads items hasMore hanswer
  constructor
  · exact h.server
  · intro q hq
    exact generation_le_of_settled h hp hq
  · intro j q hq hqgoing
    exact absurd hqgoing (h.none_going hp hgoing hq)
  · intro j k q r hq hr hqgoing hrgoing
    exact absurd hqgoing (h.none_going hp hgoing hq)
  · intro g hg
    cases hg
    exact Nat.le_refl _
  · exact h.unarchives
  · intro u hu _
    rfl
  · intro hnot
    exact absurd rfl hnot
  · intro _
    rcases Bool.eq_false_or_eq_true p.reset with hreset | hreset
    · have hnil := h.out_nil (hok.reset.mp hreset)
      have hbase : s.base p = 0 := if_pos hreset
      rw [hbase, drop_zero] at hitems
      have hview : View (s.listed finds) items s.out := by
        rw [hnil, hitems]
        exact View.first _ _
      have hs' : ({ s with pages := s.pages.set i { p with answer := .settled } } : State).addPage p items hasMore =
          { s with
            pages := s.pages.set i { p with answer := .settled }, archivedSessions := items,
            archivedOffset := (0 : Int) + items.length, archivedHasMore := hasMore, loadingArchived := false,
            loadedFor := some s.generation } := by
        unfold State.addPage
        rw [hreset]
        rfl
      rw [hs']
      constructor
      · exact hview
      · exact Int.zero_add _
      · intro hmore
        have hle := hlast hmore
        rw [hbase, Nat.zero_add] at hle
        show _ ≤ items.length + s.out.length
        rw [hitems, List.length_take, Nat.min_eq_right hle]
        exact Nat.le_add_right _ _
    · have hcurrent : s.Current := by
        by_contra hnot
        have htrue := hok.reset.mpr hnot
        cases hreset.symm.trans htrue
      obtain ⟨hview, hoffset, -⟩ := h.loaded hcurrent
      have hbase : s.base p = s.covered := if_neg (by rw [hreset]; exact Bool.false_ne_true)
      rw [hbase] at hitems hlast
      have hs' : ({ s with pages := s.pages.set i { p with answer := .settled } } : State).addPage p items hasMore =
          { s with
            pages := s.pages.set i { p with answer := .settled }, archivedSessions := s.archivedSessions ++ items,
            archivedOffset := s.archivedOffset + items.length, archivedHasMore := hasMore, loadingArchived := false,
            loadedFor := some s.generation } := by
        unfold State.addPage
        rw [hreset]
        rfl
      rw [hs']
      constructor
      · show View (s.listed finds) (s.archivedSessions ++ items) s.out
        rw [hitems]
        exact hview.append PAGE_SIZE
      · show s.archivedOffset + items.length = ((s.archivedSessions ++ items).length : Int)
        rw [hoffset, length_append, Int.natCast_add]
      · intro hmore
        have hle := hlast hmore
        have hlen : items.length = (s.listed finds).length - s.covered := by
          rw [hitems, List.length_take, length_drop, Nat.min_eq_right]
          exact Nat.sub_le_of_le_add (Nat.add_comm _ _ ▸ hle)
        have hcovered : s.covered = s.archivedSessions.length + s.out.length := rfl
        show (s.listed finds).length ≤ (s.archivedSessions ++ items).length + s.out.length
        rw [length_append]
        omega
  · exact nofun

theorem Inv.pageSettles (h : Inv finds s) (hok : Orderly finds s (.pageSettles i)) : Inv finds (s.pageSettles i) := by
  unfold State.pageSettles
  split
  · exact h
  rename_i p hp
  cases hanswer : p.answer with
  | pending => exact h
  | settled => exact h
  | page items hasMore =>
    by_cases hgeneration : p.generation = s.generation
    · have hgoing : s.Going p := ⟨hgeneration, by rw [hanswer]; exact nofun⟩
      have hadd := h.addPage hp hgoing hanswer
      simp only [hgeneration, if_true]
      simp only [hgeneration] at hadd
      exact hadd
    · have hdrop := h.dropPage hp hgeneration
      simp only [hgeneration, if_false]
      exact hdrop
  | failed =>
    by_cases hgeneration : p.generation = s.generation
    · have hgoing : s.Going p := ⟨hgeneration, by rw [hanswer]; exact nofun⟩
      have hcurrent : s.Current := by
        by_contra hnot
        have hreset := (h.going i p hp hgoing).reset.mpr hnot
        rw [hok p hp hanswer hgeneration] at hreset
        cases hreset
      have hfail := h.failPage hp hgoing hcurrent
      simp only [hgeneration, if_true]
      simp only [hgeneration] at hfail
      exact hfail
    · have hdrop := h.dropPage hp hgeneration
      simp only [hgeneration, if_false]
      exact hdrop

/-! ### Sessions taken out and put back -/

theorem mem_of_findIdx? {session : SessionId} {index : Nat} {xs : List SessionId}
    (hfound : xs.findIdx? (· == session) = some index) : session ∈ xs := by
  obtain ⟨hlt, hat, -⟩ := findIdx?_eq_some_iff_getElem.mp hfound
  rw [← beq_iff_eq.mp hat]
  exact getElem_mem hlt

theorem Inv.unarchive (h : Inv finds s) (session : SessionId) : Inv finds (s.unarchive session) := by
  unfold State.unarchive
  split
  · exact h
  rename_i index hfound
  have hin := mem_of_findIdx? hfound
  have hout : s.Current → (s.unarchives ++ [({ session, index, loadedFor := s.loadedFor, answer := .pending } :
      UnarchiveRequest)]).filterMap (·.out s.generation) = s.out ++ [session] := by
    intro hcurrent
    have hnew := out_of_taken (u := { session, index, loadedFor := s.loadedFor, answer := .pending }) hcurrent
      (.inl rfl)
    rw [filterMap_append, filterMap_cons, filterMap_nil, hnew]
    rfl
  -- what is loaded is as much as before
  have hcovered : s.Current → (s.archivedSessions.erase session).length + (s.out ++ [session]).length = s.covered := by
    intro _
    have hpos := length_pos_of_mem hin
    have hcovered : s.covered = s.archivedSessions.length + s.out.length := rfl
    rw [length_erase_of_mem hin, length_append, length_singleton]
    omega
  have herase : s.Current → s.archivedSessions.filter (· != session) = s.archivedSessions.erase session := by
    intro hcurrent
    have hnodup := (h.loaded hcurrent).view.nodup (listed_nodup h.server)
    exact ((nodup_append.mp hnodup).1.erase_eq_filter session).symm
  refine { h with going := ?_, unarchives := ?_, taken := ?_, waiting := ?_, loaded := ?_ }
  · intro i p hp hgoing
    have hok := h.going i p hp hgoing
    refine { hok with reads := ?_ }
    intro items hasMore hanswer
    obtain ⟨hitems, hlast⟩ := hok.reads items hasMore hanswer
    rcases Bool.eq_false_or_eq_true p.reset with hreset | hreset
    · unfold State.base at hitems hlast ⊢
      rw [if_pos hreset] at hitems hlast ⊢
      exact ⟨hitems, hlast⟩
    have hcurrent : s.Current := by
      by_contra hnot
      rw [hok.reset.mpr hnot] at hreset
      cases hreset
    have hnot : ¬ p.reset = true := by rw [hreset]; exact Bool.false_ne_true
    unfold State.base at hitems hlast ⊢
    rw [if_neg hnot] at hitems hlast ⊢
    unfold State.covered State.out
    rw [hout hcurrent, herase hcurrent, hcovered hcurrent]
    exact ⟨hitems, hlast⟩
  · intro u hu g hg
    rcases mem_append.mp hu with hu | hu
    · exact h.unarchives u hu g hg
    · rw [mem_singleton.mp hu] at hg
      exact h.loads g hg
  · intro u hu htaken
    rcases mem_append.mp hu with hu | hu
    · exact h.taken u hu htaken
    · rw [mem_singleton.mp hu] at htaken
      exact htaken
  · intro hnot
    obtain ⟨hmore, hcoming⟩ := h.waiting hnot
    refine ⟨hmore, ?_⟩
    rcases hcoming with hcoming | ⟨-, hempty, -⟩
    · exact .inl hcoming
    · rw [hempty] at hin
      cases hin
  · intro hcurrent
    have hcurrent : s.Current := hcurrent
    obtain ⟨hview, hoffset, hall⟩ := h.loaded hcurrent
    constructor
    · unfold State.out
      rw [hout hcurrent]
      show View (s.listed finds) (s.archivedSessions.filter (· != session)) _
      rw [herase hcurrent]
      exact (hview.takeOut hin).congr (perm_append_singleton session s.out).symm
    · show s.archivedOffset - 1 = ((s.archivedSessions.filter (· != session)).length : Int)
      have hpos := length_pos_of_mem hin
      rw [herase hcurrent, length_erase_of_mem hin, hoffset]
      omega
    · intro hmore
      unfold State.covered State.out
      rw [hout hcurrent]
      show (s.listed finds).length ≤ (s.archivedSessions.filter (· != session)).length + _
      rw [herase hcurrent, hcovered hcurrent]
      exact hall hmore

/-- The store puts a session back, or has no more to do with it: the list is what it is with the rest out. -/
theorem Inv.withUnarchives (h : Inv finds s) {unarchives : List UnarchiveRequest}
    {archivedSessions : List SessionId} {archivedOffset : Int}
    (hsame : ∀ u' ∈ unarchives, ∃ u ∈ s.unarchives, u'.loadedFor = u.loadedFor) (hsome : s.unarchives ≠ [])
    (hcovered : s.Current → ({ s with unarchives, archivedSessions, archivedOffset } : State).covered = s.covered)
    (hview : s.Current → View (s.listed finds) archivedSessions (unarchives.filterMap (·.out s.generation)))
    (hoffset : s.Current → archivedOffset = archivedSessions.length) :
    Inv finds { s with unarchives, archivedSessions, archivedOffset } := by
  refine { h with going := ?_, unarchives := ?_, taken := ?_, waiting := ?_, loaded := ?_ }
  · intro i p hp hgoing
    have hok := h.going i p hp hgoing
    refine { hok with reads := ?_ }
    intro items hasMore hanswer
    have hbase : ({ s with unarchives, archivedSessions, archivedOffset } : State).base p = s.base p := by
      unfold State.base
      split
      · rfl
      rename_i hreset
      apply hcovered
      by_contra hnot
      exact hreset (hok.reset.mpr hnot)
    rw [hbase]
    exact hok.reads items hasMore hanswer
  · intro u' hu' g hg
    obtain ⟨u, hu, heq⟩ := hsame u' hu'
    rw [heq] at hg
    exact h.unarchives u hu g hg
  · intro u' hu' htaken
    obtain ⟨u, hu, heq⟩ := hsame u' hu'
    rw [heq] at htaken
    exact h.taken u hu htaken
  · intro hnot
    obtain ⟨hmore, hcoming⟩ := h.waiting hnot
    refine ⟨hmore, ?_⟩
    rcases hcoming with hcoming | ⟨-, -, -, hempty⟩
    · exact .inl hcoming
    · exact absurd hempty hsome
  · intro hcurrent
    have hcurrent : s.Current := hcurrent
    constructor
    · exact hview hcurrent
    · exact hoffset hcurrent
    · intro hmore
      rw [hcovered hcurrent]
      exact (h.loaded hcurrent).all hmore

theorem loadedFor_of_mem_set (hu : s.unarchives[i]? = some u) {answer : UnarchiveAnswer} {u' : UnarchiveRequest}
    (hu' : u' ∈ s.unarchives.set i { u with answer }) : ∃ u ∈ s.unarchives, u'.loadedFor = u.loadedFor := by
  rcases mem_or_eq_of_mem_set hu' with hu' | rfl
  · exact ⟨u', hu', rfl⟩
  · exact ⟨u, mem_of_getElem? hu, rfl⟩

theorem ne_nil_of_getElem? (hu : s.unarchives[i]? = some u) : s.unarchives ≠ [] := by
  intro hnil
  rw [hnil] at hu
  cases hu

theorem Inv.setUnarchive (h : Inv finds s) (hu : s.unarchives[i]? = some u) {answer : UnarchiveAnswer}
    (hsame : ({ u with answer } : UnarchiveRequest).out s.generation = u.out s.generation) :
    Inv finds { s with unarchives := s.unarchives.set i { u with answer } } := by
  have hout := filterMap_set_same (f := fun u => u.out s.generation) hu hsame
  apply h.withUnarchives
  · intro u' hu'
    exact loadedFor_of_mem_set hu hu'
  · exact ne_nil_of_getElem? hu
  · intro _
    show s.archivedSessions.length + _ = _
    unfold State.out
    rw [hout]
    rfl
  · intro hcurrent
    rw [hout]
    exact (h.loaded hcurrent).view
  · intro hcurrent
    exact (h.loaded hcurrent).offset

theorem Inv.rollback (h : Inv finds s) (hok : Orderly finds s (.unarchiveSettles i))
    (hu : s.unarchives[i]? = some u) (hrefused : u.answer = .refused) :
    Inv finds (({ s with unarchives := s.unarchives.set i { u with answer := .settled } } : State).rollback u) := by
  have hplace := hok u hu hrefused
  unfold State.rollback
  by_cases htaken : u.loadedFor = some s.generation
  · rw [if_pos htaken] at hplace
    have hcurrent := h.taken u (mem_of_getElem? hu) htaken
    obtain ⟨hview, hoffset, -⟩ := h.loaded hcurrent
    have hperm : s.out.Perm (u.session ::
        (s.unarchives.set i { u with answer := .settled }).filterMap (·.out s.generation)) :=
      filterMap_set_none hu (out_of_taken htaken (.inr hrefused)) (out_of_answered (.inr rfl))
    have hlen : (s.archivedSessions.take u.index ++ u.session :: s.archivedSessions.drop u.index).length =
        s.archivedSessions.length + 1 := by
      rw [length_append, length_cons, ← Nat.add_assoc, ← length_append, take_append_drop]
    apply h.withUnarchives
    · intro u' hu'
      exact loadedFor_of_mem_set hu hu'
    · exact ne_nil_of_getElem? hu
    · intro _
      have houtlen := hperm.length_eq
      rw [length_cons] at houtlen
      show (s.archivedSessions.take u.index ++ u.session :: s.archivedSessions.drop u.index).length +
        ((s.unarchives.set i { u with answer := .settled }).filterMap (·.out s.generation)).length =
          s.archivedSessions.length + s.out.length
      rw [hlen, houtlen]
      omega
    · intro _
      exact (hview.congr hperm).putBack (listed_nodup h.server) hplace
    · intro _
      rw [hlen, hoffset]
      rfl
  · -- the first page is still to come, and what is shown until then does not matter
    rw [if_neg htaken] at hplace
    apply h.withUnarchives
    · intro u' hu'
      exact loadedFor_of_mem_set hu hu'
    · exact ne_nil_of_getElem? hu
    · intro hcurrent
      exact absurd hcurrent hplace
    · intro hcurrent
      exact absurd hcurrent hplace
    · intro hcurrent
      exact absurd hcurrent hplace

theorem Inv.unarchiveSettles (h : Inv finds s) (hok : Orderly finds s (.unarchiveSettles i)) :
    Inv finds (s.unarchiveSettles i) := by
  unfold State.unarchiveSettles
  split
  · exact h
  rename_i u hu
  cases hanswer : u.answer with
  | pending => exact h
  | settled => exact h
  | accepted =>
    apply h.setUnarchive hu
    rw [out_of_answered (.inr rfl), out_of_answered (.inl hanswer)]
  | refused => exact h.rollback hok hu hanswer

/-! ### The server accepts -/

def State.accept (s : State) (i : Nat) (u : UnarchiveRequest) : State :=
  { s with
    server := s.server.filter (· != u.session)
    unarchives := s.unarchives.set i { u with answer := .accepted } }

theorem listed_accept (h : Inv finds s) (i : Nat) (u : UnarchiveRequest) :
    (s.accept i u).listed finds = (s.listed finds).erase u.session := by
  show (s.server.filter (· != u.session)).filter (finds s.search) = _
  rw [(listed_nodup h.server).erase_eq_filter, State.listed, filter_filter, filter_filter]
  congr 1
  funext id
  exact Bool.and_comm _ _

theorem Inv.accept_taken (h : Inv finds s) (hu : s.unarchives[i]? = some u) (hpending : u.answer = .pending)
    (htaken : u.loadedFor = some s.generation) :
    (∀ (j : Nat) (p : PageRequest), s.pages[j]? = some p → s.Going p → Reads finds (s.accept i u) p) ∧
      Loaded finds (s.accept i u) := by
  have hcurrent := h.taken u (mem_of_getElem? hu) htaken
  obtain ⟨hview, hoffset, hall⟩ := h.loaded hcurrent
  have hperm : s.out.Perm (u.session :: (s.accept i u).out) :=
    filterMap_set_none hu (out_of_taken htaken (.inl hpending)) (out_of_answered (.inl rfl))
  have hview' := hview.congr hperm
  have hcovered : s.covered = (s.accept i u).covered + 1 := by
    show s.archivedSessions.length + s.out.length = _
    rw [hperm.length_eq, length_cons, ← Nat.add_assoc]
    rfl
  have hin : u.session ∈ (s.listed finds).take ((s.accept i u).covered + 1) := by
    rw [← hcovered]
    exact hview.mem.mpr (.inr (hperm.mem_iff.mpr mem_cons_self))
  have hlen : ((s.accept i u).listed finds).length + 1 = (s.listed finds).length := by
    have hmem := mem_of_mem_take hin
    rw [listed_accept h, length_erase_of_mem hmem, Nat.sub_add_cancel (length_pos_of_mem hmem)]
  constructor
  · intro j p hp hgoing items hasMore hanswer
    have hpage := h.going j p hp hgoing
    obtain ⟨hitems, hlast⟩ := hpage.reads items hasMore hanswer
    have hnot : ¬ p.reset = true := fun hreset => hpage.reset.mp hreset hcurrent
    unfold State.base at hitems hlast ⊢
    rw [if_neg hnot, hcovered] at hitems hlast
    rw [if_neg hnot]
    constructor
    · have hle : (s.accept i u).covered + 1 ≤ (s.listed finds).length := hview'.le
      rw [listed_accept h, drop_erase_of_mem hle hin]
      exact hitems
    intro hmore
    have hle := hlast hmore
    omega
  · constructor
    · rw [listed_accept h]
      exact hview'.erase (listed_nodup h.server)
    · exact hoffset
    · intro hmore
      have hle := hall hmore
      omega

/-- What was taken out of an earlier load's list, and this load does not show, leaves the list as it was. -/
theorem Inv.accept_other (h : Inv finds s) (hok : Orderly finds s (.answerUnarchive i true))
    (hu : s.unarchives[i]? = some u) (hpending : u.answer = .pending) (hother : u.loadedFor ≠ some s.generation) :
    (∀ (j : Nat) (p : PageRequest), s.pages[j]? = some p → s.Going p → Reads finds (s.accept i u) p) ∧
      (s.Current → Loaded finds (s.accept i u)) := by
  obtain ⟨hshown, hcoming⟩ := hok u hu hpending rfl hother
  have hout : (s.accept i u).out = s.out := by
    have hnone : ({ u with answer := .accepted } : UnarchiveRequest).out s.generation = none := out_of_other hother
    exact filterMap_set_same hu (hnone.trans (out_of_other hother).symm)
  have hcovered : (s.accept i u).covered = s.covered := by
    show s.archivedSessions.length + (s.accept i u).out.length = _
    rw [hout]
    rfl
  constructor
  · intro j p hp hgoing items hasMore hanswer
    have hpage := h.going j p hp hgoing
    obtain ⟨hitems, hlast⟩ := hpage.reads items hasMore hanswer
    have hbase : (s.accept i u).base p = s.base p := by
      unfold State.base
      rw [hcovered]
    have hbefore : u.session ∉ (s.listed finds).take (s.base p) := by
      unfold State.base
      split
      · rw [take_zero]
        exact not_mem_nil
      rename_i hreset
      have hcurrent : s.Current := by
        by_contra hnot
        exact hreset (hpage.reset.mpr hnot)
      have hnot := hshown hcurrent
      exact fun hin => ((h.loaded hcurrent).view.mem.mp hin).elim hnot.1 hnot.2
    have hnot : u.session ∉ items := by
      have hcoming := hcoming p (mem_of_getElem? hp)
      unfold State.coming at hcoming
      rw [hanswer] at hcoming
      simp only [hgoing.1, if_true] at hcoming
      exact hcoming
    rw [hbase, listed_accept h]
    constructor
    · rw [hitems] at hnot
      rw [page_erase_of_not_mem hbefore hnot]
      exact hitems
    · intro hmore
      exact Nat.le_trans length_erase_le (hlast hmore)
  · intro hcurrent
    obtain ⟨hview, hoffset, hall⟩ := h.loaded hcurrent
    obtain ⟨hnot, hnotOut⟩ := hshown hcurrent
    constructor
    · rw [listed_accept h, hout]
      exact hview.erase_of_not_mem hnot hnotOut
    · exact hoffset
    · intro hmore
      rw [listed_accept h, hcovered]
      exact Nat.le_trans length_erase_le (hall hmore)

theorem Inv.accept (h : Inv finds s) (hok : Orderly finds s (.answerUnarchive i true))
    (hu : s.unarchives[i]? = some u) (hpending : u.answer = .pending) : Inv finds (s.accept i u) := by
  have hsame : ∀ u' ∈ s.unarchives.set i { u with answer := .accepted }, ∃ u ∈ s.unarchives,
      u'.loadedFor = u.loadedFor := fun u' hu' => loadedFor_of_mem_set hu hu'
  have hrest : (∀ (j : Nat) (p : PageRequest), s.pages[j]? = some p → s.Going p → Reads finds (s.accept i u) p) ∧
      (s.Current → Loaded finds (s.accept i u)) := by
    by_cases htaken : u.loadedFor = some s.generation
    · obtain ⟨hreads, hloaded⟩ := h.accept_taken hu hpending htaken
      exact ⟨hreads, fun _ => hloaded⟩
    · exact h.accept_other hok hu hpending htaken
  constructor
  · exact h.server.filter _
  · exact h.pages
  · intro j p hp hgoing
    have hpage := h.going j p hp hgoing
    exact { hpage with reads := hrest.1 j p hp hgoing }
  · exact h.one
  · exact h.loads
  · intro u' hu' g hg
    obtain ⟨u, hu, heq⟩ := hsame u' hu'
    rw [heq] at hg
    exact h.unarchives u hu g hg
  · intro u' hu' htaken
    obtain ⟨u, hu, heq⟩ := hsame u' hu'
    rw [heq] at htaken
    exact h.taken u hu htaken
  · intro hnot
    obtain ⟨hmore, hcoming⟩ := h.waiting hnot
    refine ⟨hmore, ?_⟩
    rcases hcoming with hcoming | ⟨-, -, -, hempty⟩
    · exact .inl hcoming
    · exact absurd hempty (ne_nil_of_getElem? hu)
  · exact hrest.2
  · exact h.busy

theorem Inv.answerUnarchive (h : Inv finds s) {accepts : Bool} (hok : Orderly finds s (.answerUnarchive i accepts)) :
    Inv finds (s.answerUnarchive i accepts) := by
  unfold State.answerUnarchive
  split
  · exact h
  rename_i u hu
  split
  next hpending =>
    split
    next haccepts =>
      rw [haccepts] at hok
      exact h.accept hok hu hpending
    · apply h.setUnarchive hu
      by_cases htaken : u.loadedFor = some s.generation
      · rw [out_of_taken htaken (.inl hpending)]
        exact out_of_taken htaken (.inr rfl)
      · rw [out_of_other htaken]
        exact out_of_other htaken
  · exact h

theorem Inv.step (h : Inv finds s) {e : Event} (hok : Orderly finds s e) : Inv finds (step finds s e) := by
  cases e with
  | load => exact h.load s.search
  | setSearch normalized => exact h.setSearch normalized
  | loadMoreArchived => exact h.loadMoreArchived
  | unarchive session => exact h.unarchive session
  | answerPage i => exact h.answerPage hok
  | losePage i => exact h.losePage i
  | answerUnarchive i accepts => exact h.answerUnarchive hok
  | pageSettles i => exact h.pageSettles hok
  | unarchiveSettles i => exact h.unarchiveSettles hok

/-! ### Once all has settled -/

theorem Inv.current_of_settled (h : Inv finds s) (hsettled : s.Settled) (hloads : 0 < s.generation) : s.Current := by
  by_contra hnot
  rcases (h.waiting hnot).2 with ⟨i, p, hp, hgoing⟩ | ⟨hzero, -⟩
  · exact hgoing.2 (hsettled.1 p (mem_of_getElem? hp))
  · exact absurd hzero (Nat.pos_iff_ne_zero.mp hloads)

theorem Inv.view_of_settled (h : Inv finds s) (hsettled : s.Settled) : View (s.listed finds) s.archivedSessions [] := by
  by_cases hcurrent : s.Current
  · have hview := (h.loaded hcurrent).view
    rw [hsettled.out] at hview
    exact hview
  rcases (h.waiting hcurrent).2 with ⟨i, p, hp, hgoing⟩ | ⟨-, hempty, -⟩
  · exact absurd (hsettled.1 p (mem_of_getElem? hp)) hgoing.2
  · rw [hempty]
    exact View.first _ 0

theorem Inv.idle_of_settled (h : Inv finds s) (hsettled : s.Settled) : s.loadingArchived = false := by
  by_contra hbusy
  obtain ⟨i, p, hp, hgoing⟩ := h.busy (eq_true_of_ne_false hbusy)
  exact hgoing.2 (hsettled.1 p (mem_of_getElem? hp))

theorem more_of_not_hasMore (h : s.archivedHasMore = false) : s.more finds = s := by
  have hasks : s.loadMoreArchived = s := by
    unfold State.loadMoreArchived
    rw [h, Bool.not_false, Bool.or_true, if_pos rfl]
  have hanswer : s.answerPage finds s.pages.length = s := by
    unfold State.answerPage
    rw [getElem?_eq_none (Nat.le_refl _)]
  have hsettles : s.pageSettles s.pages.length = s := by
    unfold State.pageSettles
    rw [getElem?_eq_none (Nat.le_refl _)]
  show ((s.loadMoreArchived).answerPage finds s.pages.length).pageSettles s.pages.length = s
  rw [hasks, hanswer, hsettles]

def State.next (s : State) : PageRequest :=
  { generation := s.generation, reset := false, search := s.search, offset := s.archivedOffset, answer := .pending }

/-- What it gets, with all else settled. -/
def State.nextAnswer (finds : Finds) (s : State) : PageAnswer := s.next.read finds s.server

theorem answerPage_next (s : State) : (s.loadArchivedPage s.generation false).answerPage finds s.pages.length =
      { s with
        loadingArchived := true, pages := s.pages ++ [{ s.next with answer := s.nextAnswer finds }] } := by
  have hget : (s.loadArchivedPage s.generation false).pages[s.pages.length]? = some s.next :=
    getElem?_concat_length
  have hset : (s.pages ++ [s.next]).set s.pages.length { s.next with answer := s.nextAnswer finds } =
      s.pages ++ [{ s.next with answer := s.nextAnswer finds }] := by
    rw [set_append_right _ _ (Nat.le_refl _), Nat.sub_self]
    rfl
  unfold State.answerPage
  rw [hget]
  show (if PageAnswer.pending = .pending then _ else _ : State) = _
  rw [if_pos rfl]
  show { s with loadingArchived := true, pages := (s.pages ++ [s.next]).set s.pages.length _ } = _
  exact congrArg (fun pages => { s with loadingArchived := true, pages }) hset

theorem more_of_hasMore (hidle : s.loadingArchived = false) (hmore : s.archivedHasMore = true)
    {items : List SessionId} {hasMore : Bool} (hanswer : s.nextAnswer finds = .page items hasMore) :
    s.more finds =
      { s with
        archivedSessions := s.archivedSessions ++ items, archivedOffset := s.archivedOffset + items.length,
        archivedHasMore := hasMore, loadingArchived := false, loadedFor := some s.generation,
        pages := s.pages ++ [{ s.next with answer := .settled }] } := by
  have hasks : s.loadMoreArchived = s.loadArchivedPage s.generation false := by
    unfold State.loadMoreArchived
    rw [hidle, hmore]
    rfl
  have hset : (s.pages ++ [{ s.next with answer := s.nextAnswer finds }]).set s.pages.length
      { s.next with answer := .settled } = s.pages ++ [{ s.next with answer := .settled }] := by
    rw [set_append_right _ _ (Nat.le_refl _), Nat.sub_self]
    rfl
  show ((s.loadMoreArchived).answerPage finds s.pages.length).pageSettles s.pages.length = _
  rw [hasks, answerPage_next]
  unfold State.pageSettles
  rw [getElem?_concat_length]
  simp only [hanswer] at hset ⊢
  show (if s.generation = s.generation then _ else _ : State) = _
  rw [if_pos rfl]
  unfold State.addPage
  simp only [hset]
  rfl

theorem nextAnswer_of_offset {n : Nat} (hoffset : s.archivedOffset = n) :
    ∃ hasMore, s.nextAnswer finds = .page (((s.listed finds).drop n).take PAGE_SIZE) hasMore := by
  have hread : s.nextAnswer finds = .page ((listArchivedByProject finds s.server s.search (PAGE_SIZE + 1) n).take PAGE_SIZE)
      (decide (PAGE_SIZE < (listArchivedByProject finds s.server s.search (PAGE_SIZE + 1) n).length)) := by
    have hnext : s.next.offset = n := hoffset
    unfold State.nextAnswer PageRequest.read
    rw [hnext, if_neg (Int.not_lt.mpr (Int.natCast_nonneg n)), Int.toNat_natCast]
    rfl
  have hitems : (listArchivedByProject finds s.server s.search (PAGE_SIZE + 1) n).take PAGE_SIZE =
      ((s.listed finds).drop n).take PAGE_SIZE := by
    unfold listArchivedByProject
    rw [take_take, Nat.min_eq_left (Nat.le_succ _)]
    rfl
  rw [hitems] at hread
  exact ⟨_, hread⟩

theorem Inv.more (h : Inv finds s) (hsettled : s.Settled) (hloads : 0 < s.generation) :
    Inv finds (s.more finds) ∧ (s.more finds).Settled ∧ (s.more finds).generation = s.generation ∧
      (s.more finds).listed finds = s.listed finds ∧
      min (s.archivedSessions.length + 1) (s.listed finds).length ≤ (s.more finds).archivedSessions.length := by
  have hcurrent := h.current_of_settled hsettled hloads
  have hidle := h.idle_of_settled hsettled
  obtain ⟨hview, hoffset, hall⟩ := h.loaded hcurrent
  have hcovered : s.covered = s.archivedSessions.length := by
    unfold State.covered
    rw [hsettled.out, length_nil, Nat.add_zero]
  cases hmore : s.archivedHasMore with
  | false =>
    rw [more_of_not_hasMore hmore]
    have hle := hall hmore
    rw [hcovered] at hle
    exact ⟨h, hsettled, rfl, rfl, Nat.le_trans (Nat.min_le_right _ _) hle⟩
  | true =>
    obtain ⟨hasMore, hanswer⟩ := @nextAnswer_of_offset finds _ _ hoffset
    have hnext := more_of_hasMore hidle hmore hanswer
    have hasks : s.loadMoreArchived = s.loadArchivedPage s.generation false := by
      unfold State.loadMoreArchived
      rw [hidle, hmore]
      rfl
    refine ⟨?_, ?_, ?_, ?_, ?_⟩
    · -- each of the three steps is orderly
      have hasked := h.loadMoreArchived
      rw [hasks] at hasked
      have hread : Orderly finds (s.loadArchivedPage s.generation false) (.answerPage s.pages.length) := by
        intro p hp _ _ _
        have hget : (s.pages ++ [s.next])[s.pages.length]? = some p := hp
        rw [getElem?_concat_length] at hget
        rw [← Option.some_inj.mp hget]
        show s.archivedOffset = (s.covered : Int)
        rw [hcovered]
        exact hoffset
      have hanswered := hasked.answerPage hread
      rw [answerPage_next] at hanswered
      have hcomes := hanswered.pageSettles (i := s.pages.length) (by
        intro p hp hfailed
        rw [getElem?_concat_length] at hp
        rw [← Option.some_inj.mp hp] at hfailed
        have hfailed : s.nextAnswer finds = .failed := hfailed
        rw [hanswer] at hfailed
        cases hfailed)
      rw [← answerPage_next, ← hasks] at hcomes
      exact hcomes
    · rw [hnext]
      constructor
      · intro p hp
        rcases mem_append.mp hp with hp | hp
        · exact hsettled.1 p hp
        · rw [mem_singleton.mp hp]
      · exact hsettled.2
    · rw [hnext]
    · exact hnext ▸ rfl
    · rw [hnext]
      show _ ≤ (s.archivedSessions ++ ((s.listed finds).drop s.archivedSessions.length).take PAGE_SIZE).length
      rw [length_append, List.length_take, length_drop, PAGE_SIZE]
      omega

theorem Inv.moreTimes (h : Inv finds s) (hsettled : s.Settled) (hloads : 0 < s.generation) {n : Nat}
    (hn : (s.listed finds).length ≤ s.archivedSessions.length + n) :
    (s.moreTimes finds n).archivedSessions = s.listed finds := by
  induction n generalizing s with
  | zero =>
    have htake := (h.view_of_settled hsettled).eq_take
    rw [Nat.add_zero] at hn
    rw [take_of_length_le hn] at htake
    exact htake
  | succ n ih =>
    obtain ⟨hinv, hsettled', hgeneration, hlisted, hgrown⟩ := h.more hsettled hloads
    rw [← hgeneration] at hloads
    have hmore := ih hinv hsettled' hloads (by rw [hlisted]; omega)
    rw [hlisted] at hmore
    exact hmore

theorem Inv.showsOnce (h : Inv finds s) (hsettled : s.Settled) : ShowsOnce finds s := by
  have hview := h.view_of_settled hsettled
  constructor
  · have hnodup := hview.nodup (listed_nodup h.server)
    rw [append_nil] at hnodup
    exact hnodup
  · exact hview.eq_take
  · intro hloads n hn
    exact h.moreTimes hsettled hloads (Nat.le_add_left_of_le hn)

end

/-- **In a run whose steps are all orderly**, wherever all requests have settled the list is the first entries of
the server's, each once, and loading more to the end shows all of them. -/
theorem shows_once (finds : Finds) {server : List SessionId} (hserver : server.Nodup) {es : List Event}
    (hes : Along (step finds) (Orderly finds) (.init server) es) :
    Always (step finds) (fun s => s.Settled → ShowsOnce finds s) (.init server) es := by
  apply hes.of_invariant (Inv finds)
  · intro s e hok h
    exact h.step hok
  · intro s e hok h hsettled
    exact (h.step hok).showsOnce hsettled
  · exact Inv.init hserver

/-- One unarchive is refused and rolled back; the next is accepted before a search's page is read. -/
def refusedAndSearched : List Event :=
  [.load, .answerPage 0, .pageSettles 0, .unarchive "b", .answerUnarchive 0 false, .unarchiveSettles 0, .unarchive "a",
    .setSearch "x", .answerUnarchive 1 true, .answerPage 1, .pageSettles 1, .unarchiveSettles 1]

theorem shows_once_two :
    Always (step fun _ _ => true) (fun s => s.Settled → ShowsOnce (fun _ _ => true) s) (.init ["a", "b"])
      refusedAndSearched :=
  shows_once (fun _ _ => true) (by decide) (by decide)

/-- A session whose unarchive is refused comes back to a list that was loaded anew and has it already. -/
theorem shown_twice : (exec (step fun _ _ => true) (.init ["a"])
      [.load, .answerPage 0, .pageSettles 0, .unarchive "a", .setSearch "x", .answerPage 1, .pageSettles 1,
        .answerUnarchive 0 false, .unarchiveSettles 0]).Settled ∧
      ¬ ShowsOnce (fun _ _ => true) (exec (step fun _ _ => true) (.init ["a"])
        [.load, .answerPage 0, .pageSettles 0, .unarchive "a", .setSearch "x", .answerPage 1, .pageSettles 1,
          .answerUnarchive 0 false, .unarchiveSettles 0]) := by
  constructor
  · decide
  intro h
  have htwice : ¬ ["a", "a"].Nodup := by decide
  exact htwice h.once

end Reins.ProjectHistory
