import Reins.Backend.CodeReviews

/-!
# Edits of a session's name, pin and archive state (`frontend/src/models/stores/project-store.ts`)

An update is shown in the cache at once and sent. The server's answer is written over what is cached; a refused
update is taken back where the cache still shows it, to what was cached when it began. Updates overlap, each may
be refused, and the answers land in any order. A session's details, which are loaded anew after every change, are
written over what is cached too.
-/

namespace Reins.SessionMetadata

open CodeReviews (trim)
open Places Run List
open Schema (JsString)
open Utf (js)

inductive Field
  | name
  | pinnedAt
  | archivedAt
  deriving DecidableEq

abbrev Value := Option JsString

abbrev Fields := Field → Value

abbrev SessionPatch := Field → Option Value

structure SessionMetadataUpdate where
  name : Option Value
  pinned : Option Bool
  archived : Option Bool

def trimmed (name : Value) : Value := (name.map trim).filter fun name => !name.isEmpty

def set (session : Fields) (data : SessionPatch) : Fields := fun f => (data f).getD (session f)

def SessionPatch.pick (patch : SessionPatch) (session : Fields) : SessionPatch := fun f => (patch f).map fun _ => session f

def SessionMetadataUpdate.optimistic (updates : SessionMetadataUpdate) (optimisticAt : JsString) : SessionPatch
  | .name => updates.name.map trimmed
  | .pinnedAt => updates.pinned.map fun pinned => if pinned then some optimisticAt else none
  | .archivedAt => updates.archived.map fun archived => if archived then some optimisticAt else none

/-! ## The server (`backend/src/session-store.ts`) -/

/-- A stamp is kept, not made anew. -/
def stamp (stamped : Option Bool) (now : JsString) (value : Value) : Value :=
  match stamped with
  | some true => value <|> some now
  | some false => none
  | none => value

def updateSessionMetadata (row : Fields) (updates : SessionMetadataUpdate) (now : JsString) : Fields
  | .name => (updates.name.map trimmed).getD (row .name)
  | .pinnedAt => stamp updates.pinned now (row .pinnedAt)
  | .archivedAt => stamp updates.archived now (row .archivedAt)

/-! ## The client -/

inductive Call
  /-- `session` is what is cached as the update begins. -/
  | update (updates : SessionMetadataUpdate) (optimisticAt : JsString) (session : Fields)
  | loadDetail

def Call.optimistic : Call → SessionPatch
  | .update updates optimisticAt _ => updates.optimistic optimisticAt
  | .loadDetail => fun _ => none

def Call.previous : Call → SessionPatch
  | .update updates optimisticAt session => (updates.optimistic optimisticAt).pick session
  | .loadDetail => fun _ => none

/-- What the cache is given of an answer. -/
def Call.confirmed (data : Fields) : Call → SessionPatch
  | .update updates optimisticAt _ => (updates.optimistic optimisticAt).pick data
  | .loadDetail => fun f => some (data f)

def Call.rollback (current : Fields) (call : Call) : SessionPatch :=
  fun f => if call.optimistic f = some (current f) then call.previous f else none

inductive Answer
  /-- The `made`-th that the server gave, with the session as it was then. -/
  | accepted (made : Nat) (data : Fields)
  | refused

structure Request where
  call : Call
  answer : Option Answer
  landed : Bool

structure State where
  server : Fields
  /-- How many requests the server accepted, and which of them wrote a field last. -/
  served : Nat
  written : Field → Nat
  requests : List Request
  cache : Fields
  /-- Of the answers for a field that have landed, the last that the server gave. -/
  confirmed : Field → Nat × Value

def State.init (session : Fields) : State :=
  ⟨session, 0, fun _ => 0, [], session, fun f => (0, session f)⟩

inductive Event
  | update (updates : SessionMetadataUpdate) (optimisticAt : JsString)
  | loadDetail
  | accept (i : Nat) (now : JsString)
  | refuse (i : Nat)
  | land (i : Nat)

def State.send (s : State) (call : Call) : State := { s with requests := s.requests ++ [⟨call, none, false⟩] }

def State.setCache (s : State) (data : SessionPatch) : State := { s with cache := set s.cache data }

def State.update (s : State) (updates : SessionMetadataUpdate) (optimisticAt : JsString) : State :=
  (s.setCache (updates.optimistic optimisticAt)).send (.update updates optimisticAt s.cache)

def State.answer (s : State) (i : Nat) (r : Request) (answer : Answer) : State :=
  { s with requests := s.requests.set i { r with answer := some answer } }

def State.serve (s : State) (now : JsString) : Call → State
  | .update updates optimisticAt _ =>
    { s with
      server := updateSessionMetadata s.server updates now
      served := s.served + 1
      written := fun f => if (updates.optimistic optimisticAt f).isSome then s.served + 1 else s.written f }
  | .loadDetail => { s with served := s.served + 1 }

def State.accept (s : State) (i : Nat) (now : JsString) (r : Request) : State :=
  match r.answer with
  | none => (s.serve now r.call).answer i r (.accepted (s.served + 1) (s.serve now r.call).server)
  | some _ => s

def State.refuse (s : State) (i : Nat) (r : Request) : State :=
  match r.answer with
  | none => s.answer i r .refused
  | some _ => s

def State.confirm (s : State) (made : Nat) (data : SessionPatch) : State :=
  { s with confirmed := fun f =>
      match data f with
      | some value => if (s.confirmed f).1 < made then (made, value) else s.confirmed f
      | none => s.confirmed f }

/-- What is left of `updateSessionMetadata`, or of `loadDetail`. -/
def State.settle (s : State) (call : Call) : Answer → State
  | .accepted made data => (s.setCache (call.confirmed data)).confirm made (call.confirmed data)
  | .refused => s.setCache (call.rollback s.cache)

def State.received (s : State) (i : Nat) (r : Request) : State :=
  { s with requests := s.requests.set i { r with landed := true } }

def State.land (s : State) (i : Nat) (r : Request) : State :=
  match r.landed, r.answer with
  | false, some answer => (s.received i r).settle r.call answer
  | _, _ => s

def State.onRequest (s : State) (i : Nat) (f : Request → State) : State := (s.requests[i]?).elim s f

def step (s : State) : Event → State
  | .update updates optimisticAt => s.update updates optimisticAt
  | .loadDetail => s.send .loadDetail
  | .accept i now => s.onRequest i (s.accept i now)
  | .refuse i => s.onRequest i (s.refuse i)
  | .land i => s.onRequest i (s.land i)

/-! ## What is asked of it -/

/-- The `i`-th request is an update in flight that shows `value`. -/
def State.InFlight (s : State) (i : Nat) (f : Field) (value : Value) : Prop :=
  ∃ r, s.requests[i]? = some r ∧ r.landed = false ∧ r.call.optimistic f = some value

structure Converges (s : State) : Prop where
  shown : ∀ f, s.cache f = (s.confirmed f).2 ∨ ∃ i, s.InFlight i f (s.cache f)
  settled : (∀ r ∈ s.requests, r.landed = true) → ∀ f, s.cache f = s.server f

/-- `value` is what was last confirmed, or what an update in flight shows, other than the `i`-th. -/
def State.Known (s : State) (i : Nat) (f : Field) (value : Value) : Prop :=
  value = (s.confirmed f).2 ∨ ∃ j, j ≠ i ∧ s.InFlight j f value

/-- What is accepted is no older than what was confirmed, or it is known; and what a refused update that is still
shown goes back to is known. -/
def State.KeepsAnswer (s : State) (i : Nat) (call : Call) : Answer → Prop
  | .accepted made data => ∀ f value, call.confirmed data f = some value → (s.confirmed f).1 < made ∨ s.Known i f value
  | .refused => ∀ f value, call.optimistic f = some (s.cache f) → call.previous f = some value → s.Known i f value

def Keeps (s : State) : Event → Prop
  | .land i => ∀ r answer, s.requests[i]? = some r → r.landed = false → r.answer = some answer →
    s.KeepsAnswer i r.call answer
  | _ => True

section

variable {s : State} {call : Call} {r : Request} {data : Fields} {f : Field} {value : Value} {i j made : Nat}

/-! ## Patches -/

theorem pick_eq_some {patch : SessionPatch} {session : Fields} :
    patch.pick session f = some value ↔ (patch f).isSome = true ∧ session f = value := by
  unfold SessionPatch.pick
  cases patch f <;> simp

theorem confirmed_value (h : call.confirmed data f = some value) : data f = value := by
  cases call with
  | update updates optimisticAt session => exact (pick_eq_some.mp h).2
  | loadDetail => exact Option.some_inj.mp h

theorem confirmed_of_optimistic (h : call.optimistic f = some value) (data : Fields) :
    call.confirmed data f = some (data f) := by
  cases call with
  | update updates optimisticAt session => exact pick_eq_some.mpr ⟨Option.isSome_iff_exists.mpr ⟨value, h⟩, rfl⟩
  | loadDetail => cases h

theorem previous_of_optimistic (h : call.optimistic f = some value) : ∃ before, call.previous f = some before := by
  cases call with
  | update updates optimisticAt session =>
    exact ⟨session f, pick_eq_some.mpr ⟨Option.isSome_iff_exists.mpr ⟨value, h⟩, rfl⟩⟩
  | loadDetail => cases h

theorem updateSessionMetadata_of_none {updates : SessionMetadataUpdate} {optimisticAt : JsString}
    (h : updates.optimistic optimisticAt f = none) (row : Fields) (now : JsString) :
    updateSessionMetadata row updates now f = row f := by
  cases f with
  | name =>
    have hname : updates.name = none := Option.map_eq_none_iff.mp h
    simp [updateSessionMetadata, hname]
  | pinnedAt =>
    have hpinned : updates.pinned = none := Option.map_eq_none_iff.mp h
    simp [updateSessionMetadata, stamp, hpinned]
  | archivedAt =>
    have harchived : updates.archived = none := Option.map_eq_none_iff.mp h
    simp [updateSessionMetadata, stamp, harchived]

theorem serve_cases (s : State) (now : JsString) (call : Call) (f : Field) :
    (s.serve now call).written f = s.served + 1 ∧ (∀ data, call.confirmed data f = some (data f)) ∨
    (s.serve now call).written f = s.written f ∧ (s.serve now call).server f = s.server f := by
  cases call with
  | update updates optimisticAt session =>
    cases h : updates.optimistic optimisticAt f with
    | some value =>
      refine .inl ⟨by simp [State.serve, h], fun data => ?_⟩
      exact pick_eq_some.mpr ⟨Option.isSome_iff_exists.mpr ⟨value, h⟩, rfl⟩
    | none => exact .inr ⟨by simp [State.serve, h], updateSessionMetadata_of_none h s.server now⟩
  | loadDetail => exact .inr ⟨rfl, rfl⟩

theorem serve_served (s : State) (now : JsString) (call : Call) : (s.serve now call).served = s.served + 1 := by
  cases call <;> rfl

theorem serve_requests (s : State) (now : JsString) (call : Call) : (s.serve now call).requests = s.requests := by
  cases call <;> rfl

theorem serve_confirmed (s : State) (now : JsString) (call : Call) : (s.serve now call).confirmed = s.confirmed := by
  cases call <;> rfl

theorem serve_cache (s : State) (now : JsString) (call : Call) : (s.serve now call).cache = s.cache := by
  cases call <;> rfl

/-! ## What the answers say of the server -/

/-- An answer about a field, no older than its last write, is in flight. -/
def State.Coming (s : State) (f : Field) : Prop :=
  ∃ (i : Nat) (r : Request) (made : Nat) (data : Fields), s.requests[i]? = some r ∧ r.landed = false ∧
    r.answer = some (.accepted made data) ∧ r.call.confirmed data f = some (data f) ∧ s.written f ≤ made

structure Dated (s : State) : Prop where
  answered : ∀ r ∈ s.requests, r.landed = true → r.answer.isSome = true
  made : ∀ r ∈ s.requests, ∀ made data, r.answer = some (.accepted made data) → made ≤ s.served ∧
    ∀ f, r.call.confirmed data f = some (data f) → s.written f ≤ made → data f = s.server f
  confirmed : ∀ f, (s.confirmed f).1 ≤ s.served ∧
    (s.written f ≤ (s.confirmed f).1 → (s.confirmed f).2 = s.server f)
  coming : ∀ f, (s.confirmed f).1 < s.written f → s.Coming f

theorem dated_init (session : Fields) : Dated (.init session) :=
  ⟨fun _ => nofun, fun _ => nofun, fun _ => ⟨Nat.le_refl _, fun _ => rfl⟩, fun _ h => absurd h (Nat.lt_irrefl _)⟩

theorem Dated.setCache (h : Dated s) (data : SessionPatch) : Dated (s.setCache data) :=
  { h with }

theorem Dated.send (h : Dated s) (call : Call) : Dated (s.send call) := by
  refine ⟨?_, ?_, h.confirmed, ?_⟩
  · intro r hr hlanded
    rcases mem_append.mp hr with hr | hr
    · exact h.answered r hr hlanded
    · rw [mem_singleton.mp hr] at hlanded
      cases hlanded
  · intro r hr made data hanswer
    rcases mem_append.mp hr with hr | hr
    · exact h.made r hr made data hanswer
    · rw [mem_singleton.mp hr] at hanswer
      cases hanswer
  · intro f hlt
    obtain ⟨i, r, made, data, hr, hrest⟩ := h.coming f hlt
    exact ⟨i, r, made, data, getElem?_append_some hr _, hrest⟩

theorem State.Coming.set (h : s.Coming f) (hr : s.requests[i]? = some r) (hne : ∀ made data, r.landed = false →
    r.answer = some (.accepted made data) → ¬(r.call.confirmed data f = some (data f) ∧ s.written f ≤ made))
    (r' : Request) : State.Coming { s with requests := s.requests.set i r' } f := by
  obtain ⟨j, rj, made, data, hrj, hlanded, hanswer, hconfirms, hle⟩ := h
  have hij : i ≠ j := by
    rintro rfl
    cases hr.symm.trans hrj
    exact hne made data hlanded hanswer ⟨hconfirms, hle⟩
  exact ⟨j, rj, made, data, by rw [getElem?_set_ne hij]; exact hrj, hlanded, hanswer, hconfirms, hle⟩

theorem Dated.refuse (h : Dated s) (hr : s.requests[i]? = some r) : Dated (s.refuse i r) := by
  unfold State.refuse
  cases hanswer : r.answer with
  | some answer => exact h
  | none =>
    refine ⟨?_, ?_, h.confirmed, fun f hlt => (h.coming f hlt).set hr ?_ _⟩
    · intro r' hr' hlanded
      rcases mem_or_eq_of_mem_set hr' with hr' | rfl
      · exact h.answered r' hr' hlanded
      · rfl
    · intro r' hr' made data hanswer'
      rcases mem_or_eq_of_mem_set hr' with hr' | rfl
      · exact h.made r' hr' made data hanswer'
      · cases hanswer'
    · intro made data _ hsome
      cases hanswer.symm.trans hsome

theorem Dated.accept (h : Dated s) (now : JsString) (hr : s.requests[i]? = some r) : Dated (s.accept i now r) := by
  unfold State.accept
  cases hanswer : r.answer with
  | some answer => exact h
  | none =>
    have hserve := serve_cases s now r.call
    refine ⟨?_, ?_, ?_, ?_⟩
    · intro r' hr' hlanded
      simp only [State.answer, serve_requests] at hr'
      rcases mem_or_eq_of_mem_set hr' with hr' | rfl
      · exact h.answered r' hr' hlanded
      · rfl
    · intro r' hr' made data hanswer'
      simp only [State.answer, serve_served, serve_requests] at hr' ⊢
      rcases mem_or_eq_of_mem_set hr' with hr' | rfl
      · obtain ⟨hle, hright⟩ := h.made r' hr' made data hanswer'
        refine ⟨Nat.le_succ_of_le hle, fun f hvalue hwritten => ?_⟩
        rcases hserve f with ⟨heq, _⟩ | ⟨heq, hsame⟩
        · -- written now, after the answer
          rw [heq] at hwritten
          exact absurd (hwritten.trans hle) (Nat.not_succ_le_self _)
        rw [heq] at hwritten
        rw [hsame]
        exact hright f hvalue hwritten
      · cases hanswer'
        exact ⟨Nat.le_refl _, fun f _ _ => rfl⟩
    · intro f
      simp only [State.answer, serve_served, serve_confirmed]
      obtain ⟨hle, hright⟩ := h.confirmed f
      refine ⟨Nat.le_succ_of_le hle, fun hwritten => ?_⟩
      rcases hserve f with ⟨heq, _⟩ | ⟨heq, hsame⟩
      · rw [heq] at hwritten
        exact absurd (hwritten.trans hle) (Nat.not_succ_le_self _)
      rw [heq] at hwritten
      rw [hsame]
      exact hright hwritten
    · intro f hlt
      rcases hserve f with ⟨heq, hconfirms⟩ | ⟨heq, _⟩
      · -- the answer given now
        have hlanded : r.landed = false := by
          cases hlanded : r.landed with
          | false => rfl
          | true =>
            have := h.answered r (mem_of_getElem? hr) hlanded
            rw [hanswer] at this
            cases this
        refine ⟨i, { r with answer := some (.accepted (s.served + 1) (s.serve now r.call).server) }, s.served + 1,
          (s.serve now r.call).server, ?_, hlanded, rfl, hconfirms _, heq.le⟩
        simp only [State.answer, serve_requests]
        exact getElem?_set_self (lt_of_getElem? hr)
      · simp only [State.answer, serve_confirmed, heq] at hlt
        have hcoming := (h.coming f hlt).set hr (fun made data _ hsome => by rw [hanswer] at hsome; cases hsome)
          { r with answer := some (.accepted (s.served + 1) (s.serve now r.call).server) }
        obtain ⟨j, r', made, data, hr', hlanded, hanswer', hconfirms, hle⟩ := hcoming
        refine ⟨j, r', made, data, ?_, hlanded, hanswer', hconfirms, heq.le.trans hle⟩
        simp only [State.answer, serve_requests]
        exact hr'

theorem Dated.confirm (h : Dated s) (hr : s.requests[i]? = some r)
    (hanswer : r.answer = some (.accepted made data)) :
    Dated ((s.received i r).confirm made
      (r.call.confirmed data)) := by
  obtain ⟨hmade, hright⟩ := h.made r (mem_of_getElem? hr) made data hanswer
  have hmem : ∀ r' ∈ s.requests.set i { r with landed := true },
      ∃ r₀ ∈ s.requests, r₀.answer = r'.answer ∧ r₀.call = r'.call := by
    intro r' hr'
    rcases mem_or_eq_of_mem_set hr' with hr' | rfl
    · exact ⟨r', hr', rfl, rfl⟩
    · exact ⟨r, mem_of_getElem? hr, rfl, rfl⟩
  refine ⟨?_, ?_, ?_, ?_⟩
  · intro r' hr' hlanded'
    rcases mem_or_eq_of_mem_set hr' with hr' | rfl
    · exact h.answered r' hr' hlanded'
    · exact hanswer ▸ rfl
  · intro r' hr' made' data' hanswer'
    obtain ⟨r₀, hr₀, heq, hcall⟩ := hmem r' hr'
    rw [← hcall]
    exact h.made r₀ hr₀ made' data' (heq.trans hanswer')
  · intro f
    obtain ⟨hle, hconfirmed⟩ := h.confirmed f
    simp only [State.confirm]
    split
    next value hvalue =>
      split
      · have hvalue' := confirmed_value hvalue
        subst hvalue'
        exact ⟨hmade, hright f hvalue⟩
      · exact ⟨hle, hconfirmed⟩
    · exact ⟨hle, hconfirmed⟩
  · intro f hlt
    have hbefore : (s.confirmed f).1 < s.written f ∧
        (r.call.confirmed data f = some (data f) → made < s.written f) := by
      simp only [State.confirm] at hlt
      split at hlt
      next value hvalue =>
        split at hlt
        next hnewer =>
          exact ⟨hnewer.trans hlt, fun _ => hlt⟩
        next holder =>
          exact ⟨hlt, fun _ => lt_of_le_of_lt (Nat.not_lt.mp holder) hlt⟩
      next hvalue =>
        refine ⟨hlt, fun hsome => ?_⟩
        cases hvalue.symm.trans hsome
    refine (h.coming f hbefore.1).set hr ?_ _
    rintro made' data' _ hanswer' ⟨hconfirms, hle⟩
    cases hanswer.symm.trans hanswer'
    exact absurd (hbefore.2 hconfirms) (Nat.not_lt.mpr hle)

theorem Dated.land (h : Dated s) (hr : s.requests[i]? = some r) : Dated (s.land i r) := by
  unfold State.land
  split
  next answer hlanded hanswer =>
    cases answer with
    | accepted made data => exact (h.confirm hr hanswer).setCache _
    | refused =>
      have hreceived : Dated (s.received i r) := by
        refine ⟨?_, ?_, h.confirmed, fun f hlt => (h.coming f hlt).set hr ?_ _⟩
        · intro r' hr' hlanded'
          rcases mem_or_eq_of_mem_set hr' with hr' | rfl
          · exact h.answered r' hr' hlanded'
          · exact hanswer ▸ rfl
        · intro r' hr' made data hanswer'
          rcases mem_or_eq_of_mem_set hr' with hr' | rfl
          · exact h.made r' hr' made data hanswer'
          · exact h.made r (mem_of_getElem? hr) made data hanswer'
        · intro made data _ hanswer'
          cases hanswer.symm.trans hanswer'
      exact hreceived.setCache _
  · exact h

theorem Dated.onRequest (h : Dated s) {g : Request → State} (hg : ∀ r, s.requests[i]? = some r → Dated (g r)) :
    Dated (s.onRequest i g) := by
  unfold State.onRequest
  cases hr : s.requests[i]? with
  | none => exact h
  | some r => exact hg r hr

theorem Dated.step (s : State) (e : Event) (h : Dated s) : Dated (step s e) := by
  cases e with
  | update updates optimisticAt => exact (h.setCache _).send _
  | loadDetail => exact h.send _
  | accept i now => exact h.onRequest fun r hr => h.accept now hr
  | refuse i => exact h.onRequest fun r hr => h.refuse hr
  | land i => exact h.onRequest fun r hr => h.land hr

/-! ## What is shown -/

def Shown (s : State) : Prop := ∀ f, s.cache f = (s.confirmed f).2 ∨ ∃ i, s.InFlight i f (s.cache f)

/-- Once all have settled, what was last confirmed is the server's. -/
theorem Dated.converges_iff (h : Dated s) : Converges s ↔ Shown s := by
  refine ⟨fun hconv => hconv.shown, fun hshown => ⟨hshown, fun hlanded f => ?_⟩⟩
  have hwritten : s.written f ≤ (s.confirmed f).1 := by
    refine Nat.not_lt.mp fun hlt => ?_
    obtain ⟨i, r, _, _, hr, hcoming, _⟩ := h.coming f hlt
    rw [hlanded r (mem_of_getElem? hr)] at hcoming
    cases hcoming
  rcases hshown f with hconfirmed | ⟨i, r, hr, hflight, _⟩
  · exact hconfirmed.trans ((h.confirmed f).2 hwritten)
  · rw [hlanded r (mem_of_getElem? hr)] at hflight
    cases hflight

theorem State.InFlight.send (h : s.InFlight i f value) (call : Call) : (s.send call).InFlight i f value := by
  obtain ⟨r, hr, hrest⟩ := h
  exact ⟨r, getElem?_append_some hr _, hrest⟩

theorem shown_update (h : Shown s) (updates : SessionMetadataUpdate) (optimisticAt : JsString) :
    Shown (s.update updates optimisticAt) := by
  intro f
  have hcache : (s.update updates optimisticAt).cache f = (updates.optimistic optimisticAt f).getD (s.cache f) := rfl
  rw [hcache]
  cases hsome : updates.optimistic optimisticAt f with
  | some value => exact .inr ⟨_, _, getElem?_concat_length, rfl, hsome⟩
  | none => exact (h f).imp id fun ⟨i, hi⟩ => ⟨i, State.InFlight.send hi _⟩

theorem inFlight_answer (hr : s.requests[i]? = some r) {s' : State} (answer : Answer)
    (hs' : s'.requests = s.requests.set i { r with answer := some answer }) (h : s.InFlight j f value) :
    s'.InFlight j f value := by
  obtain ⟨rj, hrj, hrest⟩ := h
  by_cases hij : i = j
  · subst hij
    cases hr.symm.trans hrj
    exact ⟨{ r with answer := some answer }, by rw [hs']; exact getElem?_set_self (lt_of_getElem? hr), hrest⟩
  · exact ⟨rj, by rw [hs', getElem?_set_ne hij]; exact hrj, hrest⟩

theorem shown_accept (h : Shown s) (now : JsString) (hr : s.requests[i]? = some r) : Shown (s.accept i now r) := by
  unfold State.accept
  cases r.answer with
  | some answer => exact h
  | none =>
    intro f
    have hs' := congrArg (List.set · i { r with answer := some (.accepted (s.served + 1) (s.serve now r.call).server) })
      (serve_requests s now r.call)
    simp only [State.answer, serve_cache, serve_confirmed]
    exact (h f).imp id fun ⟨j, hj⟩ => ⟨j, inFlight_answer hr _ hs' hj⟩

theorem shown_refuse (h : Shown s) (hr : s.requests[i]? = some r) : Shown (s.refuse i r) := by
  unfold State.refuse
  cases r.answer with
  | some answer => exact h
  | none => exact fun f => (h f).imp id fun ⟨j, hj⟩ => ⟨j, inFlight_answer hr _ rfl hj⟩

theorem inFlight_landed (hr : s.requests[i]? = some r) {s' : State}
    (hs' : s'.requests = s.requests.set i { r with landed := true }) :
    s'.InFlight j f value ↔ j ≠ i ∧ s.InFlight j f value := by
  unfold State.InFlight
  rw [hs']
  by_cases hij : i = j
  · subst hij
    rw [getElem?_set_self (lt_of_getElem? hr)]
    simp
  · rw [getElem?_set_ne hij]
    simp [Ne.symm hij]

/-- A field that a landing leaves is shown as it was: the request that landed did not show it. -/
theorem shown_other (h : Shown s) (hr : s.requests[i]? = some r) (hnot : r.call.optimistic f ≠ some (s.cache f)) :
    s.Known i f (s.cache f) := by
  rcases h f with hconfirmed | ⟨j, rj, hrj, hrest⟩
  · exact .inl hconfirmed
  refine .inr ⟨j, ?_, rj, hrj, hrest⟩
  rintro rfl
  cases hr.symm.trans hrj
  exact hnot hrest.2

theorem shown_accepted_iff (h : Shown s) (hr : s.requests[i]? = some r) :
    Shown ((s.received i r).settle r.call (.accepted made data)) ↔
      ∀ f value, r.call.confirmed data f = some value → (s.confirmed f).1 < made ∨ s.Known i f value := by
  refine forall_congr' fun f => ?_
  simp only [@inFlight_landed _ _ _ _ _ _ hr ((s.received i r).settle r.call (.accepted made data)) rfl]
  simp only [State.settle, State.confirm, State.setCache, State.received, set]
  cases hvalue : r.call.confirmed data f with
  | some value =>
    by_cases hnewer : (s.confirmed f).1 < made
    · simp [hnewer]
    · simp [hnewer, State.Known]
  | none =>
    refine iff_of_true (shown_other h hr fun hshows => ?_) (fun _ => nofun)
    rw [confirmed_of_optimistic hshows data] at hvalue
    cases hvalue

theorem shown_refused_iff (h : Shown s) (hr : s.requests[i]? = some r) :
    Shown ((s.received i r).settle r.call .refused) ↔
      ∀ f value, r.call.optimistic f = some (s.cache f) → r.call.previous f = some value → s.Known i f value := by
  refine forall_congr' fun f => ?_
  simp only [@inFlight_landed _ _ _ _ _ _ hr ((s.received i r).settle r.call .refused) rfl]
  simp only [State.settle, State.setCache, State.received, set, Call.rollback]
  by_cases hshows : r.call.optimistic f = some (s.cache f)
  · obtain ⟨before, hbefore⟩ := previous_of_optimistic hshows
    simp [hshows, hbefore, State.Known]
  · simp only [hshows, if_false, Option.getD_none]
    exact iff_of_true (shown_other h hr hshows) (fun _ => nofun)

theorem shown_land_iff (h : Shown s) (hr : s.requests[i]? = some r) : Shown (s.land i r) ↔ Keeps s (.land i) := by
  have hkeeps : Keeps s (.land i) ↔ ∀ answer, r.landed = false → r.answer = some answer →
      s.KeepsAnswer i r.call answer := by
    refine ⟨fun h answer => h r answer hr, fun h r' answer hr' => ?_⟩
    cases hr.symm.trans hr'
    exact h answer
  rw [hkeeps]
  unfold State.land
  split
  next answer hlanded hanswer =>
    have hanswers : (∀ answer, r.landed = false → r.answer = some answer → s.KeepsAnswer i r.call answer) ↔
        s.KeepsAnswer i r.call answer := by
      simp [hlanded, hanswer]
    rw [hanswers]
    cases answer with
    | accepted made data => exact shown_accepted_iff h hr
    | refused => exact shown_refused_iff h hr
  next hnone =>
    exact iff_of_true h fun answer hlanded hanswer => absurd hanswer (hnone answer hlanded)

theorem shown_step (s : State) (e : Event) (h : Shown s) : Shown (step s e) ↔ Keeps s e := by
  cases e with
  | update updates optimisticAt => exact iff_of_true (shown_update h updates optimisticAt) trivial
  | loadDetail => exact iff_of_true (fun f => (h f).imp id fun ⟨i, hi⟩ => ⟨i, hi.send _⟩) trivial
  | accept i now =>
    refine iff_of_true ?_ trivial
    simp only [step, State.onRequest]
    cases hr : s.requests[i]? with
    | none => exact h
    | some r => exact shown_accept h now hr
  | refuse i =>
    refine iff_of_true ?_ trivial
    simp only [step, State.onRequest]
    cases hr : s.requests[i]? with
    | none => exact h
    | some r => exact shown_refuse h hr
  | land i =>
    simp only [step, State.onRequest]
    cases hr : s.requests[i]? with
    | none => exact iff_of_true h fun r _ hsome => by rw [hr] at hsome; cases hsome
    | some r => exact shown_land_iff h hr

end

/-- Along every run the cache shows what was last confirmed or an update in flight, and the server's fields once
all have settled, exactly when every landing keeps to what is known. -/
theorem edits_converge (session : Fields) (es : List Event) :
    Always step Converges (.init session) es ↔ Along step Keeps (.init session) es := by
  have hinit := dated_init session
  refine always_iff_along_of Dated Converges Dated.step ?_ hinit (hinit.converges_iff.mpr fun f => .inl rfl) es
  intro s e h hconv
  rw [(h.step s e).converges_iff]
  exact shown_step s e hconv.shown

/-- Two renames are refused in turn; the later one goes back to the earlier one's name. -/
theorem refused_name_stays :
    let s := exec step (.init fun _ => none)
      [.update ⟨some (some [97]), none, none⟩ [], .update ⟨some (some [98]), none, none⟩ [], .refuse 0, .refuse 1,
        .land 0, .land 1]
    (∀ r ∈ s.requests, r.landed = true) ∧ s.cache .name = some [97] ∧ s.server .name = none := by
  refine ⟨?_, rfl, rfl⟩
  intro r hr
  rcases mem_cons.mp hr with rfl | hr
  · rfl
  · rw [mem_singleton.mp hr]

end Reins.SessionMetadata
