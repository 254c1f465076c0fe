import Reins.Backend.McpServers

/-!
# Edits of an MCP server (`McpServers.create`, `McpServerModel.update`)

One server from its creation on. An edit checks what it is given against the row and the secrets it read,
writes the row whole, and then its secrets one after another; each of these is a step, and any call of the
secret storage may fail. What an update has written when it throws stays.
-/

namespace Reins.McpEdits

open Run Places Schema Utf McpServers List
open CodeReviews (trim)
open McpTools (truthy)

inductive McpSecretKind
  | headerValue
  | clientSecret
  | clientInformation
  | tokens
  | discovery
  | codeVerifier
  | signInClientInformation
  deriving DecidableEq

def OAUTH_SECRETS : List McpSecretKind := [.clientInformation, .tokens, .codeVerifier, .discovery]

inductive Write
  /-- `setSecret`; null deletes it. -/
  | set (kind : McpSecretKind) (value : Option JsString)
  /-- The row's columns of a sign-in in progress. -/
  | endSignIn
  deriving DecidableEq

/-- What an edit gives of a secret by what it writes: a value, its removal, or nothing. -/
def givenSecret (update : McpServerUpdate) (fields : McpServerFields) : McpSecretKind → Option (Option JsString)
  | .headerValue =>
    if fields.authKind ≠ .header then some none else (McpServerUpdate.value update.headerValue).map some
  | .clientSecret =>
    if fields.oauthClientId = none ∨ update.oauthClientSecret = some none then some none
    else (McpServerUpdate.value update.oauthClientSecret).map some
  | _ => none

def Write.ofSecret (update : McpServerUpdate) (fields : McpServerFields) (kind : McpSecretKind) : List Write :=
  ((givenSecret update fields kind).map (Write.set kind)).toList

def updateWrites (update : McpServerUpdate) (before fields : McpServerFields) : List Write :=
  Write.ofSecret update fields .headerValue ++ Write.ofSecret update fields .clientSecret ++
    if reauthorize before fields then
      OAUTH_SECRETS.map (Write.set · none) ++
        [.endSignIn, .set .codeVerifier none, .set .signInClientInformation none]
    else []

def createHeader (input : McpServerUpdate) (fields : McpServerFields) : List Write :=
  if fields.authKind = .header then [.set .headerValue input.headerValue.join] else []

def createClient (input : McpServerUpdate) (fields : McpServerFields) : List Write :=
  match fields.oauthClientId, McpServerUpdate.value input.oauthClientSecret with
  | some _, some secret => [.set .clientSecret (some secret)]
  | _, _ => []

def createWrites (input : McpServerUpdate) (fields : McpServerFields) : List Write :=
  createHeader input fields ++ createClient input fields

inductive Phase
  /-- For `secretKinds`. -/
  | reading
  | checking (hasHeaderValue : Bool)
  | writing (todo : List Write)
  /-- A creation whose secrets cannot be stored: it deletes these, once it knows them, and the row. -/
  | undoing (kinds : Option (List McpSecretKind))
  | resolved
  | thrown (error : Error)
  deriving DecidableEq

structure Edit where
  creates : Bool
  update : McpServerUpdate
  before : McpServerFields
  fields : McpServerFields
  phase : Phase
  /-- Something it wrote changed the row or a secret. -/
  changed : Bool
  deriving DecidableEq

structure Written where
  edit : Nat
  update : McpServerUpdate
  fields : McpServerFields
  deriving DecidableEq

structure State where
  row : Option McpServerFields
  secrets : McpSecretKind → Option JsString
  signIn : Option JsString
  edits : List Edit
  /-- The edits whose rows were written, in that order. -/
  written : List Written

def State.init : State := { row := none, secrets := fun _ => none, signIn := none, edits := [], written := [] }

inductive Event
  | create (input : McpServerUpdate) (taken : Bool)
  | update (update : McpServerUpdate)
  | readKinds (e : Nat)
  /-- The checks and the row's write; another server may have the name. -/
  | writeRow (e : Nat) (taken : Bool)
  | next (e : Nat)
  | fails (e : Nat)
  | undo (e : Nat)
  /-- The rest: its connection closed, the server read again and published. -/
  | finish (e : Nat)

def State.setEdit (s : State) (e : Nat) (x : Edit) : State := { s with edits := s.edits.set e x }

def needsValue : Error := .invalidMcpServer (js "Header authentication needs a value")

variable {s : State} {e : Nat} {x y : Edit} {value : Option JsString} {kind : McpSecretKind}
  {fields row : McpServerFields} {ws : List Written} {input : McpServerUpdate}

def createFields (input : McpServerUpdate) : McpServerFields :=
  input.merge
    { name := [], instructions := [], url := [], transport := .http, authKind := .none, headerName := none
      oauthClientId := none, oauthScope := none, enabled := true }

section

variable (protocol : JsString → Option JsString)

def State.create (s : State) (input : McpServerUpdate) (taken : Bool) : State :=
  if s.edits ≠ [] then s
  else
    match validMcpServerFields protocol (createFields input) with
    | .error _ => s
    | .ok fields =>
      if fields.authKind = .header ∧ McpServerUpdate.value input.headerValue = none then s
      else if taken then s
      else
        { s with
          row := some fields
          edits := [⟨true, input, createFields input, fields, .writing (createWrites input fields), true⟩]
          written := [⟨0, input, fields⟩] }

/-- To its await of `secretKinds`. -/
def State.update (s : State) (update : McpServerUpdate) : State :=
  match s.row with
  | none => s
  | some before =>
    match validMcpServerFields protocol (update.merge before) with
    | .error error => { s with edits := s.edits ++ [⟨false, update, before, update.merge before, .thrown error, false⟩] }
    | .ok fields => { s with edits := s.edits ++ [⟨false, update, before, fields, .reading, false⟩] }

end

def State.readKinds (s : State) (e : Nat) (x : Edit) : State :=
  match x.phase with
  | .reading => s.setEdit e { x with phase := .checking (s.secrets .headerValue).isSome }
  | _ => s

def Edit.refused (x : Edit) (hasHeaderValue : Bool) : Bool :=
  x.fields.authKind = .header &&
    (x.update.headerValue = some none ||
      (McpServerUpdate.value x.update.headerValue).isNone && !(x.before.authKind = .header && hasHeaderValue))

def State.writeRow (s : State) (e : Nat) (x : Edit) (taken : Bool) : State :=
  match x.phase with
  | .checking hasHeaderValue =>
    if x.refused hasHeaderValue then s.setEdit e { x with phase := .thrown needsValue }
    else
      match s.row with
      | none => s.setEdit e { x with phase := .writing (updateWrites x.update x.before x.fields) }
      | some row =>
        if taken then s.setEdit e { x with phase := .thrown (.nameTaken x.fields.name) }
        else { s.setEdit e { x with
            phase := .writing (updateWrites x.update x.before x.fields)
            changed := x.changed || row ≠ x.fields } with
          row := some x.fields
          written := s.written ++ [⟨e, x.update, x.fields⟩] }
  | _ => s

def State.write (s : State) : Write → State
  | .set kind value => { s with secrets := Function.update s.secrets kind value }
  | .endSignIn => { s with signIn := none }

/-- Whether it leaves something else than there was. -/
def State.changes (s : State) : Write → Bool
  | .set kind value => s.secrets kind ≠ value
  | .endSignIn => s.signIn.isSome

def State.next (s : State) (e : Nat) (x : Edit) : State :=
  match x.phase with
  | .writing (w :: todo) =>
    (s.write w).setEdit e { x with phase := .writing todo, changed := x.changed || s.changes w }
  | _ => s

def State.fails (s : State) (e : Nat) (x : Edit) : State :=
  match x.phase with
  | .reading => s.setEdit e { x with phase := .thrown .storage }
  | .writing (_ :: _) =>
    if x.creates then s.setEdit e { x with phase := .undoing none }
    else s.setEdit e { x with phase := .thrown .storage }
  | .writing [] => s.setEdit e { x with phase := .thrown .storage }
  | .undoing _ => s.setEdit e { x with phase := .thrown .storage }
  | _ => s

def allKinds : List McpSecretKind :=
  [.headerValue, .clientSecret, .clientInformation, .tokens, .discovery, .codeVerifier, .signInClientInformation]

/-- `McpStore.delete`. -/
def State.undo (s : State) (e : Nat) (x : Edit) : State :=
  match x.phase with
  | .undoing none => s.setEdit e { x with phase := .undoing (some (allKinds.filter fun k => (s.secrets k).isSome)) }
  | .undoing (some (k :: kinds)) => (s.write (.set k none)).setEdit e { x with phase := .undoing (some kinds) }
  | .undoing (some []) => { s.setEdit e { x with phase := .thrown .storage } with row := none, signIn := none }
  | _ => s

def State.finish (s : State) (e : Nat) (x : Edit) : State :=
  match x.phase, s.row with
  | .writing [], some _ => s.setEdit e { x with phase := .resolved }
  | .writing [], none => s.setEdit e { x with phase := .thrown .notFound }
  | _, _ => s

def State.onEdit (s : State) (e : Nat) (f : Edit → State) : State :=
  match s.edits[e]? with
  | some x => f x
  | none => s

def step (protocol : JsString → Option JsString) (s : State) : Event → State
  | .create input taken => s.create protocol input taken
  | .update update => s.update protocol update
  | .readKinds e => s.onEdit e fun x => s.readKinds e x
  | .writeRow e taken => s.onEdit e fun x => s.writeRow e x taken
  | .next e => s.onEdit e fun x => s.next e x
  | .fails e => s.onEdit e fun x => s.fails e x
  | .undo e => s.onEdit e fun x => s.undo e x
  | .finish e => s.onEdit e fun x => s.finish e x

/-! ## What is promised -/

/-- The fields an update gave, as stored, over the others: a field of another auth kind than it leaves is
given too, as cleared. -/
def Written.over (last : McpServerFields) (w : Written) : McpServerFields :=
  { name := if w.update.name.isSome then w.fields.name else last.name
    instructions := if w.update.instructions.isSome then w.fields.instructions else last.instructions
    url := if w.update.url.isSome then w.fields.url else last.url
    transport := if w.update.transport.isSome then w.fields.transport else last.transport
    authKind := if w.update.authKind.isSome then w.fields.authKind else last.authKind
    headerName :=
      if w.update.headerName.isSome ∨ w.fields.authKind ≠ .header then w.fields.headerName else last.headerName
    oauthClientId :=
      if w.update.oauthClientId.isSome ∨ w.fields.authKind ≠ .oauth then w.fields.oauthClientId else last.oauthClientId
    oauthScope :=
      if w.update.oauthScope.isSome ∨ w.fields.authKind ≠ .oauth then w.fields.oauthScope else last.oauthScope
    enabled := if w.update.enabled.isSome then w.fields.enabled else last.enabled }

def lastFields : List Written → Option McpServerFields
  | [] => none
  | created :: ws => some (ws.foldl Written.over created.fields)

def lastGiven (kind : McpSecretKind) (ws : List Written) : Option (Nat × Option JsString) :=
  (ws.filterMap fun w => (givenSecret w.update w.fields kind).map (w.edit, ·)).getLast?

def lastSecret (kind : McpSecretKind) (ws : List Written) : Option JsString := (lastGiven kind ws).bind (·.2)

def Edit.todo (x : Edit) : List Write :=
  match x.phase with
  | .writing todo => todo
  | _ => []

def Edit.inFlight (x : Edit) : Bool :=
  match x.phase with
  | .resolved | .thrown _ => false
  | _ => true

def Edit.isUndoing (x : Edit) : Bool :=
  match x.phase with
  | .undoing _ => true
  | _ => false

def Edit.hasThrown (x : Edit) : Bool :=
  match x.phase with
  | .thrown _ => true
  | _ => false

abbrev Given (kind : McpSecretKind) : Prop := kind = .headerValue ∨ kind = .clientSecret

/-- What is stored of a server that is not being removed by its failed creation. -/
structure Whole (s : State) : Prop where
  fields : ∀ row, s.row = some row → (∀ x ∈ s.edits, x.isUndoing = false) → lastFields s.written = some row
  secrets : s.row.isSome → (∀ x ∈ s.edits, x.inFlight = false) →
    ∀ kind, Given kind → s.secrets kind = lastSecret kind s.written
  thrown : ∀ x ∈ s.edits, x.creates = false → x.hasThrown = true → x.changed = false
  /-- A server with header authentication has a header value, or an edit is about to store it. -/
  header : ∀ row, s.row = some row → (∀ x ∈ s.edits, x.isUndoing = false) → row.authKind = .header →
    ∃ value, s.secrets .headerValue = some value ∨ ∃ x ∈ s.edits, .set .headerValue (some value) ∈ x.todo

def Fresh (x : Edit) (row : McpServerFields) : Prop :=
  trimmed (x.update.merge row) = trimmed (x.update.merge x.before) ∧
    (x.fields.authKind = .header → McpServerUpdate.value x.update.headerValue = none → row.authKind = .header)

instance (x : Edit) (row : McpServerFields) : Decidable (Fresh x row) := inferInstanceAs (Decidable (_ ∧ _))

/-- No update writes the row over what it leaves out and was changed since it read it, none writes a secret over what an update
whose row came later has written, and none fails once its row is written; a creation's undoing does not
fail. -/
def Orderly (s : State) : Event → Prop
  | .writeRow e taken => ∀ x hasHeaderValue row, s.edits[e]? = some x → x.phase = .checking hasHeaderValue →
      x.refused hasHeaderValue = false → taken = false → s.row = some row → Fresh x row
  | .next e => ∀ x kind value todo e' value', s.edits[e]? = some x → x.phase = .writing (.set kind value :: todo) →
      lastGiven kind s.written = some (e', value') →
      e' = e ∨ ∃ y, s.edits[e']? = some y ∧ .set kind value' ∈ y.todo
  | .fails e => ∀ x, s.edits[e]? = some x →
      (∀ todo, x.phase = .writing todo → x.creates = true) ∧ x.isUndoing = false
  | .finish e => ∀ x, s.edits[e]? = some x → x.phase = .writing [] → x.creates = false → s.row.isSome
  | _ => True

/-! ## What the last edit gave -/

theorem lastGiven_concat (kind : McpSecretKind) (ws : List Written) (w : Written) :
    lastGiven kind (ws ++ [w]) =
      match givenSecret w.update w.fields kind with
      | some value => some (w.edit, value)
      | none => lastGiven kind ws := by
  unfold lastGiven
  rw [filterMap_append]
  cases hgiven : givenSecret w.update w.fields kind with
  | some value => simp [hgiven]
  | none => simp [hgiven]

theorem lastGiven_mem
    (h : lastGiven kind ws = some (e, value)) : ∃ w ∈ ws, w.edit = e ∧ givenSecret w.update w.fields kind = some value := by
  obtain ⟨w, hw, heq⟩ := mem_filterMap.mp (mem_of_getLast? h)
  obtain ⟨value', hgiven, hpair⟩ := Option.map_eq_some_iff.mp heq
  cases hpair
  exact ⟨w, hw, rfl, hgiven⟩

theorem lastFields_concat (h : lastFields ws = some row) (w : Written) :
    lastFields (ws ++ [w]) = some (Written.over row w) := by
  cases ws with
  | nil => cases h
  | cons created ws =>
    cases h
    simp [lastFields]

theorem mem_ofSecret {update : McpServerUpdate} {kind' : McpSecretKind} :
    .set kind value ∈ Write.ofSecret update fields kind' ↔ kind = kind' ∧ givenSecret update fields kind' = some value := by
  unfold Write.ofSecret
  cases givenSecret update fields kind' with
  | none => simp
  | some value' => simp [eq_comm]

theorem mem_updateWrites {update : McpServerUpdate} {before : McpServerFields} (hkind : Given kind) :
    .set kind value ∈ updateWrites update before fields ↔ givenSecret update fields kind = some value := by
  unfold updateWrites
  rw [mem_append, mem_append, mem_ofSecret, mem_ofSecret]
  have hoauth : ¬(.set kind value ∈ if reauthorize before fields then OAUTH_SECRETS.map (Write.set · none) ++
      [.endSignIn, .set .codeVerifier none, .set .signInClientInformation none] else []) := by
    split
    · rcases hkind with rfl | rfl <;> simp [OAUTH_SECRETS]
    · simp
  rcases hkind with rfl | rfl
  · simp [hoauth]
  · simp [hoauth]

theorem value_eq {secret : Option (Option JsString)} {v : JsString} (h : McpServerUpdate.value secret = some v) :
    secret.join = some v := by
  unfold McpServerUpdate.value truthy at h
  exact (Option.filter_eq_some_iff.mp h).1

theorem mem_createHeader :
    .set kind value ∈ createHeader input fields ↔
      kind = .headerValue ∧ fields.authKind = .header ∧ value = input.headerValue.join := by
  unfold createHeader
  split
  next hheader =>
    simp [hheader]
  next hheader =>
    simp [hheader]

theorem mem_createClient :
    .set kind value ∈ createClient input fields ↔
      kind = .clientSecret ∧ fields.oauthClientId ≠ none ∧
        ∃ secret, McpServerUpdate.value input.oauthClientSecret = some secret ∧ value = some secret := by
  unfold createClient
  cases hclient : fields.oauthClientId with
  | none => simp
  | some id =>
    cases McpServerUpdate.value input.oauthClientSecret with
    | none => simp
    | some secret => simp

theorem value_ne {secret : Option (Option JsString)} {v : JsString} (h : McpServerUpdate.value secret = some v) :
    secret ≠ some none := by
  rintro rfl
  cases h

theorem mem_createWrites (hkind : Given kind)
    (hneeds : fields.authKind = .header → McpServerUpdate.value input.headerValue ≠ none) :
    (.set kind value ∈ createWrites input fields → givenSecret input fields kind = some value) ∧
      (givenSecret input fields kind = some value → .set kind value ∈ createWrites input fields ∨ value = none) := by
  unfold createWrites
  rw [mem_append, mem_createHeader, mem_createClient]
  rcases hkind with rfl | rfl
  · by_cases hheader : fields.authKind = .header
    · obtain ⟨v, hv⟩ := Option.ne_none_iff_exists'.mp (hneeds hheader)
      have hgiven : givenSecret input fields .headerValue = some (some v) := by simp [givenSecret, hheader, hv]
      rw [hgiven, value_eq hv]
      constructor
      · rintro (⟨-, -, rfl⟩ | ⟨hkind, -⟩)
        · rfl
        · cases hkind
      · intro hvalue
        exact .inl (.inl ⟨rfl, hheader, (Option.some_inj.mp hvalue).symm⟩)
    · simp [givenSecret, hheader, eq_comm]
  · by_cases hclient : fields.oauthClientId = none
    · simp [givenSecret, hclient, eq_comm]
    constructor
    · rintro (⟨hkind, -⟩ | ⟨-, -, secret, hsecret, rfl⟩)
      · cases hkind
      · simp [givenSecret, hclient, hsecret, value_ne hsecret]
    intro hgiven
    by_cases hnull : input.oauthClientSecret = some none
    · simp [givenSecret, hnull] at hgiven
      exact .inr hgiven.symm
    simp only [givenSecret, hclient, hnull, or_self, if_false] at hgiven
    obtain ⟨secret, hsecret, rfl⟩ := Option.map_eq_some_iff.mp hgiven
    exact .inl (.inr ⟨rfl, hclient, secret, hsecret, rfl⟩)

/-! ## What every run keeps -/

def Edit.early (x : Edit) : Bool :=
  match x.phase with
  | .reading | .checking _ => true
  | _ => false

structure Kept (s : State) : Prop where
  todo : ∀ (e : Nat) (x : Edit), s.edits[e]? = some x → ∀ kind value, Given kind → .set kind value ∈ x.todo →
    ∀ w ∈ s.written, w.edit = e → givenSecret w.update w.fields kind = some value
  begun : ∀ w ∈ s.written, ∃ x, s.edits[w.edit]? = some x ∧ x.early = false
  first : s.edits = [] → s = .init
  fields : ∀ (e : Nat) (x : Edit), s.edits[e]? = some x → x.early = true → x.fields = trimmed (x.update.merge x.before)

theorem Kept.setEdit (h : Kept s) (hx : s.edits[e]? = some x)
    (htodo : ∀ w ∈ y.todo, w ∈ x.todo) (hearly : y.early = true → x.early = true ∧ y.fields = x.fields ∧
      y.update = x.update ∧ y.before = x.before) : Kept (s.setEdit e y) := by
  constructor
  · intro e' z hz kind value hkind hmem w hw hwe
    rcases getElem?_set_cases hz with ⟨rfl, rfl⟩ | ⟨-, hz⟩
    · exact h.todo _ x hx kind value hkind (htodo _ hmem) w hw hwe
    · exact h.todo e' z hz kind value hkind hmem w hw hwe
  · intro w hw
    obtain ⟨z, hz, hlate⟩ := h.begun w hw
    by_cases he : w.edit = e
    · subst he
      refine ⟨y, getElem?_set_self (lt_of_getElem? hz), ?_⟩
      cases hy : y.early with
      | false => rfl
      | true =>
        cases hx.symm.trans hz
        exact absurd (hearly hy).1 (by simp [hlate])
    · exact ⟨z, (getElem?_set_ne (Ne.symm he)).trans hz, hlate⟩
  · intro hnil
    exfalso
    have hlen := congrArg List.length hnil
    change (s.edits.set e y).length = 0 at hlen
    rw [length_set] at hlen
    exact absurd (lt_of_getElem? hx) (by omega)
  · intro e' z hz hz'
    rcases getElem?_set_cases hz with ⟨rfl, rfl⟩ | ⟨-, hz⟩
    · obtain ⟨hxe, hfields, hupdate, hbefore⟩ := hearly hz'
      rw [hfields, hupdate, hbefore]
      exact h.fields _ x hx hxe
    · exact h.fields e' z hz hz'

/-- Nothing of an edit's is asked of the secrets, the sign-in or the row. -/
theorem Kept.congr {s' : State} (h : Kept s) (hedits : s'.edits = s.edits) (hwritten : s'.written = s.written)
    (hne : s.edits ≠ []) : Kept s' := by
  constructor
  · rw [hedits, hwritten]
    exact h.todo
  · rw [hedits, hwritten]
    exact h.begun
  · rw [hedits]
    intro hnil
    exact absurd hnil hne
  · rw [hedits]
    exact h.fields

theorem ne_nil_of_getElem? {α : Type} {xs : List α} {i : Nat} {x : α} (h : xs[i]? = some x) : xs ≠ [] := by
  rintro rfl
  cases h

theorem setEdit_ne_nil (h : s.edits[e]? = some x) (y : Edit) : (s.setEdit e y).edits ≠ [] :=
  ne_nil_of_getElem? (getElem?_set_self (lt_of_getElem? h))

theorem Kept.append (h : Kept s) (htodo : y.todo = [])
    (hfields : y.early = true → y.fields = trimmed (y.update.merge y.before)) :
    Kept { s with edits := s.edits ++ [y] } := by
  constructor
  · intro e x hx kind value hkind hmem w hw hwe
    rcases getElem?_concat_cases hx with hx | ⟨-, rfl⟩
    · exact h.todo e x hx kind value hkind hmem w hw hwe
    · rw [htodo] at hmem
      cases hmem
  · intro w hw
    obtain ⟨x, hx, hlate⟩ := h.begun w hw
    exact ⟨x, getElem?_append_some hx _, hlate⟩
  · intro hnil
    cases (append_eq_nil_iff.mp hnil).2
  · intro e x hx hearly
    rcases getElem?_concat_cases hx with hx | ⟨-, rfl⟩
    · exact h.fields e x hx hearly
    · exact hfields hearly

theorem Kept.init : Kept .init := by
  constructor
  · intro e x hx
    cases hx
  · intro w hw
    cases hw
  · intro _
    rfl
  · intro e x hx
    cases hx

theorem Kept.create (h : Kept s) (protocol : JsString → Option JsString) (input : McpServerUpdate)
    (taken : Bool) : Kept (s.create protocol input taken) := by
  unfold State.create
  split
  · exact h
  split
  · exact h
  rename_i fields _
  split
  · exact h
  rename_i hneeds
  split
  · exact h
  constructor
  · intro e x hx kind value hkind hmem w hw _
    obtain rfl := mem_singleton.mp hw
    obtain ⟨-, rfl⟩ : e = 0 ∧ x = _ := by
      cases e with
      | zero => exact ⟨rfl, (Option.some_inj.mp hx).symm⟩
      | succ e => cases hx
    exact (mem_createWrites hkind fun hheader hnone => hneeds ⟨hheader, hnone⟩).1 hmem
  · intro w hw
    obtain rfl := mem_singleton.mp hw
    exact ⟨_, rfl, rfl⟩
  · intro hnil
    cases hnil
  · intro e x hx hearly
    cases e with
    | zero =>
      cases hx
      cases hearly
    | succ e => cases hx

theorem Kept.update (h : Kept s) (protocol : JsString → Option JsString) (update : McpServerUpdate) :
    Kept (s.update protocol update) := by
  unfold State.update
  split
  · exact h
  split
  · refine h.append rfl ?_
    intro hearly
    cases hearly
  next fields hfields =>
    refine h.append rfl ?_
    intro _
    exact valid_eq hfields

theorem Kept.readKinds (h : Kept s) (hx : s.edits[e]? = some x) : Kept (s.readKinds e x) := by
  unfold State.readKinds
  split
  next hphase =>
    refine h.setEdit hx nofun ?_
    intro _
    refine ⟨?_, rfl, rfl, rfl⟩
    rw [Edit.early, hphase]
  · exact h

theorem Kept.writeRow (h : Kept s) (hx : s.edits[e]? = some x) (taken : Bool) : Kept (s.writeRow e x taken) := by
  have hnothing : ∀ error, Kept (s.setEdit e { x with phase := .thrown error }) := by
    intro error
    refine h.setEdit hx nofun ?_
    intro hearly
    cases hearly
  unfold State.writeRow
  split
  next hasHeaderValue hphase =>
    have hxearly : x.early = true := by rw [Edit.early, hphase]
    -- it is none of those whose rows are written
    have hnew : ∀ w ∈ s.written, w.edit ≠ e := by
      rintro w hw rfl
      obtain ⟨z, hz, hlate⟩ := h.begun w hw
      cases hx.symm.trans hz
      exact absurd hxearly (by simp [hlate])
    split
    · exact hnothing _
    split
    · constructor
      · intro e' z hz kind value hkind hmem w hw hwe
        rcases getElem?_set_cases hz with ⟨rfl, -⟩ | ⟨-, hz⟩
        · exact absurd hwe (hnew w hw)
        · exact h.todo e' z hz kind value hkind hmem w hw hwe
      · intro w hw
        obtain ⟨z, hz, hlate⟩ := h.begun w hw
        exact ⟨z, (getElem?_set_ne (Ne.symm (hnew w hw))).trans hz, hlate⟩
      · intro hnil
        exact absurd hnil (setEdit_ne_nil hx _)
      · intro e' z hz hearly
        rcases getElem?_set_cases hz with ⟨rfl, rfl⟩ | ⟨-, hz⟩
        · cases hearly
        · exact h.fields e' z hz hearly
    · split
      · exact hnothing _
      constructor
      · intro e' z hz kind value hkind hmem w hw hwe
        rcases getElem?_set_cases hz with ⟨rfl, rfl⟩ | ⟨hne, hz⟩
        · rcases mem_concat_cases hw with hw | rfl
          · exact absurd hwe (hnew w hw)
          · exact (mem_updateWrites hkind).mp hmem
        rcases mem_concat_cases hw with hw | rfl
        · exact h.todo e' z hz kind value hkind hmem w hw hwe
        · exact absurd hwe hne
      · intro w hw
        rcases mem_concat_cases hw with hw | rfl
        · obtain ⟨z, hz, hlate⟩ := h.begun w hw
          exact ⟨z, (getElem?_set_ne (Ne.symm (hnew w hw))).trans hz, hlate⟩
        · exact ⟨_, getElem?_set_self (lt_of_getElem? hx), rfl⟩
      · intro hnil
        exact absurd hnil (setEdit_ne_nil hx _)
      · intro e' z hz hearly
        rcases getElem?_set_cases hz with ⟨rfl, rfl⟩ | ⟨-, hz⟩
        · cases hearly
        · exact h.fields e' z hz hearly
  · exact h

/-- An edit that is writing goes on to a phase in which it has as much to write or less. -/
theorem Kept.later (h : Kept s) (hx : s.edits[e]? = some x) {phase : Phase}
    {changed : Bool} (htodo : ∀ w ∈ Edit.todo { x with phase, changed }, w ∈ x.todo)
    (hlate : Edit.early { x with phase, changed } = false) : Kept (s.setEdit e { x with phase, changed }) := by
  refine h.setEdit hx htodo fun hearly => ?_
  cases hlate.symm.trans hearly

theorem Kept.next (h : Kept s) (hx : s.edits[e]? = some x) : Kept (s.next e x) := by
  unfold State.next
  split
  next w todo hphase =>
    have hset : Kept (s.setEdit e { x with phase := .writing todo, changed := x.changed || s.changes w }) := by
      refine h.later hx ?_ rfl
      intro w' hw'
      rw [Edit.todo, hphase]
      exact mem_cons_of_mem w hw'
    refine hset.congr ?_ ?_ (setEdit_ne_nil hx _)
    · cases w <;> rfl
    · cases w <;> rfl
  · exact h

theorem Kept.fails (h : Kept s) (hx : s.edits[e]? = some x) : Kept (s.fails e x) := by
  have hnothing : ∀ phase, (∀ todo, phase ≠ .writing todo) → Edit.early { x with phase } = false →
      Kept (s.setEdit e { x with phase }) := by
    intro phase hphase hlate
    refine h.later hx ?_ hlate
    intro w hw
    cases phase with
    | writing todo => exact absurd rfl (hphase todo)
    | _ => cases hw
  unfold State.fails
  split
  · exact hnothing _ nofun rfl
  · split
    · exact hnothing _ nofun rfl
    · exact hnothing _ nofun rfl
  · exact hnothing _ nofun rfl
  · exact hnothing _ nofun rfl
  · exact h

theorem Kept.undo (h : Kept s) (hx : s.edits[e]? = some x) : Kept (s.undo e x) := by
  unfold State.undo
  split
  · exact h.later hx nofun rfl
  next kinds _ =>
    have hset : Kept (s.setEdit e { x with phase := .undoing (some kinds) }) :=
      h.later hx nofun rfl
    exact hset.congr rfl rfl (setEdit_ne_nil hx _)
  · have hset : Kept (s.setEdit e { x with phase := .thrown .storage }) := h.later hx nofun rfl
    exact hset.congr rfl rfl (setEdit_ne_nil hx _)
  · exact h

theorem Kept.finish (h : Kept s) (hx : s.edits[e]? = some x) : Kept (s.finish e x) := by
  unfold State.finish
  split
  · exact h.later hx nofun rfl
  · exact h.later hx nofun rfl
  · exact h

theorem onEdit_cases {P : State → Prop} (h : P s) (e : Nat) {f : Edit → State}
    (hf : ∀ x, s.edits[e]? = some x → P (f x)) : P (s.onEdit e f) := by
  unfold State.onEdit
  split
  next x hx =>
    exact hf x hx
  · exact h

theorem Kept.step (h : Kept s) (protocol : JsString → Option JsString) (e : Event) : Kept (step protocol s e) := by
  cases e with
  | create input taken => exact h.create protocol input taken
  | update update => exact h.update protocol update
  | readKinds e => exact onEdit_cases h e fun x hx => h.readKinds hx
  | writeRow e taken => exact onEdit_cases h e fun x hx => h.writeRow hx taken
  | next e => exact onEdit_cases h e fun x hx => h.next hx
  | fails e => exact onEdit_cases h e fun x hx => h.fails hx
  | undo e => exact onEdit_cases h e fun x hx => h.undo hx
  | finish e => exact onEdit_cases h e fun x hx => h.finish hx

/-! ## What an orderly run keeps -/

/-- The server is not there, or about not to be. -/
def Undone (s : State) : Prop := s.row = none ∨ ∃ x ∈ s.edits, x.isUndoing = true

structure Good (s : State) : Prop where
  row : ∃ row, s.row = some row ∧ lastFields s.written = some row
  entered : ∀ (e : Nat) (x : Edit), s.edits[e]? = some x → x.todo ≠ [] → ∃ w ∈ s.written, w.edit = e
  normal : ∀ row, s.row = some row → Normal row
  secrets : ∀ kind, Given kind → s.secrets kind = lastSecret kind s.written ∨
    ∃ (e : Nat) (x : Edit) (value : Option JsString), lastGiven kind s.written = some (e, value) ∧
      s.edits[e]? = some x ∧ .set kind value ∈ x.todo
  backed : ∀ row, s.row = some row → row.authKind = .header → (lastSecret .headerValue s.written).isSome

/-- An update that threw, or has written nothing yet, has changed nothing; none is being undone. -/
def Quiet (s : State) : Prop :=
  ∀ x ∈ s.edits, x.creates = false → (x.early = true ∨ x.hasThrown = true ∨ x.isUndoing = true) → x.changed = false

theorem Good.whole (h : Undone s ∨ Good s) (hquiet : Quiet s) : Whole s := by
  have hgood : ∀ row, s.row = some row → (∀ x ∈ s.edits, x.isUndoing = false) → Good s := by
    intro row hrow hnone
    rcases h with (hnil | ⟨x, hx, hundoing⟩) | h
    · cases hnil.symm.trans hrow
    · cases (hnone x hx).symm.trans hundoing
    · exact h
  constructor
  · intro row hrow hnone
    obtain ⟨row', hrow', hlast⟩ := (hgood row hrow hnone).row
    cases hrow.symm.trans hrow'
    exact hlast
  · intro hrow hended kind hkind
    obtain ⟨row, hrow⟩ := Option.isSome_iff_exists.mp hrow
    have hnone : ∀ x ∈ s.edits, x.isUndoing = false := by
      intro x hx
      have hx := hended x hx
      unfold Edit.inFlight at hx
      unfold Edit.isUndoing
      cases hphase : x.phase <;> simp [hphase] at hx ⊢
    rcases (hgood row hrow hnone).secrets kind hkind with hsecret | ⟨e, x, value, -, hx, hmem⟩
    · exact hsecret
    -- an edit with something to write is in flight
    exfalso
    have hx := hended x (mem_of_getElem? hx)
    unfold Edit.inFlight at hx
    unfold Edit.todo at hmem
    cases hphase : x.phase <;> simp [hphase] at hx hmem
  · intro x hx hcreates hthrown
    exact hquiet x hx hcreates (.inr (.inl hthrown))
  · intro row hrow hnone hheader
    have hgood := hgood row hrow hnone
    obtain ⟨value, hvalue⟩ := Option.isSome_iff_exists.mp (hgood.backed row hrow hheader)
    refine ⟨value, ?_⟩
    rcases hgood.secrets .headerValue (.inl rfl) with hsecret | ⟨e, x, value', hgiven, hx, hmem⟩
    · exact .inl (hsecret.trans hvalue)
    unfold lastSecret at hvalue
    rw [hgiven] at hvalue
    obtain rfl : value' = some value := hvalue
    exact .inr ⟨x, mem_of_getElem? hx, hmem⟩

theorem Undone.setEdit (h : Undone s) (hx : s.edits[e]? = some x)
    (hundoing : x.isUndoing = true → y.isUndoing = true) : Undone (s.setEdit e y) := by
  rcases h with hrow | ⟨z, hz, hzu⟩
  · exact .inl hrow
  obtain ⟨j, hj⟩ := mem_iff_getElem?.mp hz
  by_cases hje : j = e
  · subst hje
    cases hx.symm.trans hj
    exact .inr ⟨y, mem_of_getElem? (getElem?_set_self (lt_of_getElem? hx)), hundoing hzu⟩
  · exact .inr ⟨z, mem_of_getElem? ((getElem?_set_ne (Ne.symm hje)).trans hj), hzu⟩

theorem Good.setEdit (h : Good s) (hx : s.edits[e]? = some x)
    (htodo : ∀ kind value, Given kind → .set kind value ∈ x.todo → .set kind value ∈ y.todo)
    (hmore : y.todo ≠ [] → x.todo ≠ []) : Good (s.setEdit e y) := by
  refine { h with entered := ?_, secrets := ?_ }
  · intro e' z hz hne
    rcases getElem?_set_cases hz with ⟨rfl, rfl⟩ | ⟨-, hz⟩
    · exact h.entered _ x hx (hmore hne)
    · exact h.entered e' z hz hne
  · intro kind hkind
    rcases h.secrets kind hkind with hsecret | ⟨e', z, value, hgiven, hz, hmem⟩
    · exact .inl hsecret
    by_cases he : e' = e
    · subst he
      cases hx.symm.trans hz
      exact .inr ⟨e', y, value, hgiven, getElem?_set_self (lt_of_getElem? hx), htodo kind value hkind hmem⟩
    · exact .inr ⟨e', z, value, hgiven, (getElem?_set_ne (Ne.symm he)).trans hz, hmem⟩

theorem Good.append (h : Good s) (htodo : y.todo = []) : Good { s with edits := s.edits ++ [y] } := by
  refine { h with entered := ?_, secrets := ?_ }
  · intro e x hx hne
    rcases getElem?_concat_cases hx with hx | ⟨-, rfl⟩
    · exact h.entered e x hx hne
    · exact absurd htodo hne
  · intro kind hkind
    rcases h.secrets kind hkind with hsecret | ⟨e, x, value, hgiven, hx, hmem⟩
    · exact .inl hsecret
    · exact .inr ⟨e, x, value, hgiven, getElem?_append_some hx _, hmem⟩

/-- An edit that is not writing goes to a phase in which it is not. -/
theorem idle_setEdit (h : Undone s ∨ Good s) (hx : s.edits[e]? = some x)
    (htodo : x.todo = []) (htodo' : y.todo = []) (hundoing : x.isUndoing = true → y.isUndoing = true) :
    Undone (s.setEdit e y) ∨ Good (s.setEdit e y) := by
  rcases h with h | h
  · exact .inl (h.setEdit hx hundoing)
  refine .inr (h.setEdit hx (fun kind value _ hw => ?_) fun hne => absurd htodo' hne)
  rw [htodo] at hw
  cases hw

theorem Quiet.setEdit (h : Quiet s) (e : Nat)
    (hy : y.creates = false → (y.early = true ∨ y.hasThrown = true ∨ y.isUndoing = true) → y.changed = false) : Quiet (s.setEdit e y) := by
  intro z hz
  rcases mem_or_eq_of_mem_set hz with hz | rfl
  · exact h z hz
  · exact hy

theorem Quiet.append (h : Quiet s) (hy : y.changed = false) : Quiet { s with edits := s.edits ++ [y] } := by
  intro z hz hcreates hphase
  rcases mem_concat_cases hz with hz | rfl
  · exact h z hz hcreates hphase
  · exact hy

/-- A field of one auth kind in a stored row, under whichever kind. -/
theorem stored_ofKind {p : Prop} [Decidable p]
    (h : (if p then trimmedOrNull value else none) = value) : trimmedOrNull value = value := by
  split at h
  · exact h
  · rw [← h]
    rfl

theorem given_ofKind {given : Option (Option JsString)} {p : Prop} [Decidable p] (h : trimmedOrNull value = value) :
    (if p then trimmedOrNull (given.getD value) else none) =
      if given.isSome ∨ ¬p then (if p then trimmedOrNull (given.getD value) else none) else value := by
  cases given with
  | some given => simp
  | none => by_cases hp : p <;> simp [hp, h]

/-- What an update writes over a row that it left out nothing changed of is what it gave over it. -/
theorem fields_eq_over (hfields : x.fields = trimmed (x.update.merge x.before))
    (hnormal : Normal row) (hfresh : trimmed (x.update.merge row) = trimmed (x.update.merge x.before)) (e : Nat) :
    x.fields = Written.over row ⟨e, x.update, x.fields⟩ := by
  have heq : x.fields = trimmed (x.update.merge row) := hfields.trans hfresh.symm
  have hname : trim row.name = row.name := congrArg McpServerFields.name hnormal
  have hurl : trim row.url = row.url := congrArg McpServerFields.url hnormal
  have hinstructions : trim row.instructions = row.instructions := congrArg McpServerFields.instructions hnormal
  have hheader := stored_ofKind (congrArg McpServerFields.headerName hnormal)
  have hclient := stored_ofKind (congrArg McpServerFields.oauthClientId hnormal)
  have hscope := stored_ofKind (congrArg McpServerFields.oauthScope hnormal)
  rw [heq]
  simp only [Written.over, trimmed, McpServerUpdate.merge, McpServerFields.mk.injEq, ne_eq]
  refine ⟨?_, ?_, ?_, ?_, ?_, given_ofKind hheader, given_ofKind hclient, given_ofKind hscope, ?_⟩
  · cases x.update.name <;> simp [hname]
  · cases x.update.instructions <;> simp [hinstructions]
  · cases x.update.url <;> simp [hurl]
  · cases x.update.transport <;> simp
  · cases x.update.authKind <;> simp
  · cases x.update.enabled <;> simp

theorem create_good (hkept : Kept s) (h : Undone s ∨ Good s) (protocol : JsString → Option JsString)
    (input : McpServerUpdate) (taken : Bool) :
    Undone (s.create protocol input taken) ∨ Good (s.create protocol input taken) := by
  unfold State.create
  split
  · exact h
  rename_i hnil
  obtain rfl := hkept.first (not_not.mp hnil)
  split
  · exact h
  rename_i fields hvalid
  split
  · exact h
  rename_i hneeds
  split
  · exact h
  right
  have hneeds' : fields.authKind = .header → McpServerUpdate.value input.headerValue ≠ none :=
    fun hheader hnone => hneeds ⟨hheader, hnone⟩
  constructor
  · exact ⟨fields, rfl, rfl⟩
  · intro e x hx _
    cases e with
    | zero => exact ⟨_, mem_singleton_self _, rfl⟩
    | succ e => cases hx
  · intro row hrow
    cases hrow
    rw [valid_eq hvalid]
    exact trimmed_normal _
  · intro kind hkind
    cases hgiven : givenSecret input fields kind with
    | none =>
      left
      simp [State.init, lastSecret, lastGiven, hgiven]
    | some value =>
      rcases (mem_createWrites hkind hneeds').2 hgiven with hmem | rfl
      · exact .inr ⟨0, _, value, by simp [lastGiven, hgiven], rfl, hmem⟩
      · left
        simp [State.init, lastSecret, lastGiven, hgiven]
  · intro row hrow hheader
    cases hrow
    obtain ⟨v, hv⟩ := Option.ne_none_iff_exists'.mp (hneeds' hheader)
    simp [lastSecret, lastGiven, givenSecret, hheader, hv]

theorem Good.writeRow (hkept : Kept s) (h : Good s) (hx : s.edits[e]? = some x)
    {hasHeaderValue : Bool} (hphase : x.phase = .checking hasHeaderValue) (hrow : s.row = some row) (hfresh : Fresh x row) (changed : Bool) :
    Good { s.setEdit e { x with phase := .writing (updateWrites x.update x.before x.fields), changed } with
      row := some x.fields, written := s.written ++ [⟨e, x.update, x.fields⟩] } := by
  have htodo : x.todo = [] := by rw [Edit.todo, hphase]
  have hfields : x.fields = trimmed (x.update.merge x.before) := hkept.fields e x hx (by rw [Edit.early, hphase])
  obtain ⟨row', hrow', hlast⟩ := h.row
  cases hrow.symm.trans hrow'
  constructor
  · refine ⟨x.fields, rfl, ?_⟩
    rw [lastFields_concat hlast, ← fields_eq_over hfields (h.normal row hrow) hfresh.1 e]
  · intro e' z hz hne
    rcases getElem?_set_cases hz with ⟨rfl, -⟩ | ⟨-, hz⟩
    · exact ⟨_, mem_append_right _ (mem_singleton_self _), rfl⟩
    · obtain ⟨w, hw, hwe⟩ := h.entered e' z hz hne
      exact ⟨w, mem_append_left _ hw, hwe⟩
  · intro row' hrow'
    cases hrow'
    rw [hfields]
    exact trimmed_normal _
  · intro kind hkind
    have hconcat := lastGiven_concat kind s.written ⟨e, x.update, x.fields⟩
    cases hgiven : givenSecret x.update x.fields kind with
    | some value =>
      simp only [hgiven] at hconcat
      exact .inr ⟨e, _, value, hconcat, getElem?_set_self (lt_of_getElem? hx), (mem_updateWrites hkind).mpr hgiven⟩
    | none =>
      simp only [hgiven] at hconcat
      rcases h.secrets kind hkind with hsecret | ⟨e', z, value, hgiven', hz, hmem⟩
      · left
        change s.secrets kind = lastSecret kind (s.written ++ [_])
        unfold lastSecret
        rw [hconcat]
        exact hsecret
      · refine .inr ⟨e', z, value, hconcat.trans hgiven', ?_, hmem⟩
        have hne : e' ≠ e := by
          rintro rfl
          cases hx.symm.trans hz
          rw [htodo] at hmem
          cases hmem
        exact (getElem?_set_ne (Ne.symm hne)).trans hz
  · intro row' hrow' hheader
    cases hrow'
    change (lastSecret .headerValue (s.written ++ [_])).isSome
    unfold lastSecret
    rw [lastGiven_concat]
    cases hvalue : McpServerUpdate.value x.update.headerValue with
    | some v => simp [givenSecret, hheader, hvalue]
    | none =>
      -- the value there is stays, for the row has header authentication still
      have hbacked := h.backed row hrow (hfresh.2 hheader hvalue)
      simpa [givenSecret, hheader, hvalue, lastSecret] using hbacked

theorem lastGiven_ne_none {w : Written} (hw : w ∈ ws) (hgiven : givenSecret w.update w.fields kind = some value) : lastGiven kind ws ≠ none := by
  unfold lastGiven
  rw [ne_eq, getLast?_eq_none_iff]
  refine ne_nil_of_mem (a := (w.edit, value)) ?_
  exact mem_filterMap.mpr ⟨w, hw, hgiven ▸ rfl⟩

/-- A secret is written: it is the last given, or that is to be written yet. -/
theorem Good.next (hkept : Kept s) (h : Good s) (hx : s.edits[e]? = some x) {w : Write}
    {todo : List Write} (hphase : x.phase = .writing (w :: todo)) (horderly : Orderly s (.next e)) (changed : Bool) :
    Good ((s.write w).setEdit e { x with phase := .writing todo, changed }) := by
  have htodo : x.todo = w :: todo := by rw [Edit.todo, hphase]
  cases w with
  | endSignIn =>
    have hset : Good (s.setEdit e { x with phase := .writing todo, changed }) := by
      refine h.setEdit hx (fun kind value _ hmem => ?_) fun _ => by rw [htodo]; exact cons_ne_nil _ _
      rw [htodo] at hmem
      rcases mem_cons.mp hmem with heq | hmem
      · cases heq
      · exact hmem
    exact { hset with }
  | set kind value =>
    refine { h with entered := ?_, secrets := ?_ }
    · intro e' z hz hne
      rcases getElem?_set_cases hz with ⟨rfl, -⟩ | ⟨-, hz⟩
      · exact h.entered _ x hx (by rw [htodo]; exact cons_ne_nil _ _)
      · exact h.entered e' z hz hne
    · intro kind' hkind'
      by_cases hkk : kind' = kind
      · subst hkk
        have hself : Function.update s.secrets kind' value kind' = value := Function.update_self ..
        have hmem : .set kind' value ∈ x.todo := by
          rw [htodo]
          exact mem_cons_self
        obtain ⟨wr, hwr, hwe⟩ := h.entered e x hx (ne_nil_of_mem hmem)
        have hgiven := hkept.todo e x hx kind' value hkind' hmem wr hwr hwe
        obtain ⟨⟨e', value'⟩, hlast⟩ := Option.ne_none_iff_exists'.mp (lastGiven_ne_none hwr hgiven)
        by_cases he : e' = e
        · subst he
          obtain ⟨w', hw', hwe', hgiven'⟩ := lastGiven_mem hlast
          have hsame := hkept.todo e' x hx kind' value hkind' hmem w' hw' hwe'
          cases hsame.symm.trans hgiven'
          left
          change Function.update s.secrets kind' value kind' = lastSecret kind' s.written
          rw [hself, lastSecret, hlast]
          rfl
        · rcases horderly x kind' value todo e' value' hx hphase hlast with heq | ⟨y, hy, hpending⟩
          · exact absurd heq he
          · exact .inr ⟨e', y, value', hlast, (getElem?_set_ne (Ne.symm he)).trans hy, hpending⟩
      · have hother : Function.update s.secrets kind value kind' = s.secrets kind' := Function.update_of_ne hkk ..
        rcases h.secrets kind' hkind' with hsecret | ⟨e', z, value', hlast, hz, hmem⟩
        · exact .inl (hother.trans hsecret)
        by_cases he : e' = e
        · subst he
          cases hx.symm.trans hz
          rw [htodo] at hmem
          rcases mem_cons.mp hmem with heq | hmem
          · cases heq
            exact absurd rfl hkk
          · exact .inr ⟨e', _, value', hlast, getElem?_set_self (lt_of_getElem? hx), hmem⟩
        · exact .inr ⟨e', z, value', hlast, (getElem?_set_ne (Ne.symm he)).trans hz, hmem⟩

theorem writeRow_good (hkept : Kept s) (h : Undone s ∨ Good s)
    (hx : s.edits[e]? = some x) {taken : Bool} (horderly : Orderly s (.writeRow e taken)) :
    Undone (s.writeRow e x taken) ∨ Good (s.writeRow e x taken) := by
  unfold State.writeRow
  split
  next hasHeaderValue hphase =>
    have htodo : x.todo = [] := by rw [Edit.todo, hphase]
    have hnot : ∀ {phase changed}, x.isUndoing = true → Edit.isUndoing { x with phase, changed } = true := by
      intro phase changed hundoing
      rw [Edit.isUndoing, hphase] at hundoing
      cases hundoing
    split
    · exact idle_setEdit h hx htodo rfl hnot
    rename_i hrefused
    split
    next hrow =>
      exact .inl (.inl hrow)
    rename_i row hrow
    split
    · exact idle_setEdit h hx htodo rfl hnot
    rename_i htaken
    rcases h with h | h
    · rcases h.setEdit (y := { x with
          phase := .writing (updateWrites x.update x.before x.fields)
          changed := x.changed || row ≠ x.fields }) hx hnot with hnone | hundoing
      · cases hrow.symm.trans hnone
      · exact .inl (.inr hundoing)
    · have hfresh := horderly x hasHeaderValue row hx hphase (Bool.eq_false_iff.mpr hrefused)
        (Bool.eq_false_iff.mpr htaken) hrow
      exact .inr (h.writeRow hkept hx hphase hrow hfresh _)
  · exact h

theorem next_good (hkept : Kept s) (h : Undone s ∨ Good s)
    (hx : s.edits[e]? = some x) (horderly : Orderly s (.next e)) : Undone (s.next e x) ∨ Good (s.next e x) := by
  unfold State.next
  split
  next w todo hphase =>
    rcases h with h | h
    · have hset := h.setEdit (y := { x with phase := .writing todo, changed := x.changed || s.changes w }) hx (by
        intro hundoing
        rw [Edit.isUndoing, hphase] at hundoing
        cases hundoing)
      cases w <;> exact .inl hset
    · exact .inr (h.next hkept hx hphase horderly _)
  · exact h

theorem fails_good (h : Undone s ∨ Good s) (hx : s.edits[e]? = some x)
    (horderly : Orderly s (.fails e)) : Undone (s.fails e x) ∨ Good (s.fails e x) := by
  obtain ⟨hcreates, hundoing⟩ := horderly x hx
  have hnot : ∀ {phase}, x.isUndoing = true → Edit.isUndoing { x with phase } = true := by
    intro phase h
    cases hundoing.symm.trans h
  unfold State.fails
  split
  next hphase =>
    exact idle_setEdit h hx (by rw [Edit.todo, hphase]) rfl hnot
  next w todo hphase =>
    rw [if_pos (hcreates (w :: todo) hphase)]
    exact .inl (.inr ⟨_, mem_of_getElem? (getElem?_set_self (lt_of_getElem? hx)), rfl⟩)
  next hphase =>
    exact idle_setEdit h hx (by rw [Edit.todo, hphase]) rfl hnot
  next kinds hphase =>
    rw [Edit.isUndoing, hphase] at hundoing
    cases hundoing
  · exact h

theorem undo_good (h : Undone s ∨ Good s) (hx : s.edits[e]? = some x) : Undone (s.undo e x) ∨ Good (s.undo e x) := by
  unfold State.undo
  split
  · exact .inl (.inr ⟨_, mem_of_getElem? (getElem?_set_self (lt_of_getElem? hx)), rfl⟩)
  · exact .inl (.inr ⟨_, mem_of_getElem? (getElem?_set_self (lt_of_getElem? hx)), rfl⟩)
  · exact .inl (.inl rfl)
  · exact h

theorem finish_good (h : Undone s ∨ Good s) (hx : s.edits[e]? = some x) :
    Undone (s.finish e x) ∨ Good (s.finish e x) := by
  unfold State.finish
  split
  next hphase _ =>
    refine idle_setEdit h hx (by rw [Edit.todo, hphase]) rfl fun hundoing => ?_
    rw [Edit.isUndoing, hphase] at hundoing
    cases hundoing
  next hrow =>
    exact .inl (.inl hrow)
  · exact h

theorem step_good (hkept : Kept s) (h : Undone s ∨ Good s) (protocol : JsString → Option JsString)
    {e : Event} (horderly : Orderly s e) : Undone (step protocol s e) ∨ Good (step protocol s e) := by
  cases e with
  | create input taken => exact create_good hkept h protocol input taken
  | update update =>
    simp only [step, State.update]
    split
    · exact h
    rename_i before hrow
    have happend : ∀ y : Edit, y.todo = [] →
        Undone { s with edits := s.edits ++ [y] } ∨ Good { s with edits := s.edits ++ [y] } := by
      intro y hy
      rcases h with (hnone | ⟨z, hz, hzu⟩) | h
      · cases hrow.symm.trans hnone
      · exact .inl (.inr ⟨z, mem_append_left _ hz, hzu⟩)
      · exact .inr (h.append hy)
    split
    · exact happend _ rfl
    · exact happend _ rfl
  | readKinds e =>
    refine onEdit_cases (P := fun s => Undone s ∨ Good s) h e fun x hx => ?_
    unfold State.readKinds
    split
    next hphase =>
      refine idle_setEdit h hx (by rw [Edit.todo, hphase]) rfl fun hundoing => ?_
      rw [Edit.isUndoing, hphase] at hundoing
      cases hundoing
    · exact h
  | writeRow e taken =>
    exact onEdit_cases (P := fun s => Undone s ∨ Good s) h e fun x hx => writeRow_good hkept h hx horderly
  | next e => exact onEdit_cases (P := fun s => Undone s ∨ Good s) h e fun x hx => next_good hkept h hx horderly
  | fails e => exact onEdit_cases (P := fun s => Undone s ∨ Good s) h e fun x hx => fails_good h hx horderly
  | undo e => exact onEdit_cases (P := fun s => Undone s ∨ Good s) h e fun x hx => undo_good h hx
  | finish e => exact onEdit_cases (P := fun s => Undone s ∨ Good s) h e fun x hx => finish_good h hx

/-! ## What has changed nothing -/

theorem step_quiet (h : Quiet s) (protocol : JsString → Option JsString) {e : Event}
    (horderly : Orderly s e) : Quiet (step protocol s e) := by
  cases e with
  | create input taken =>
    simp only [step, State.create]
    split
    · exact h
    split
    · exact h
    split
    · exact h
    split
    · exact h
    intro x hx hcreates
    obtain rfl := mem_singleton.mp hx
    cases hcreates
  | update update =>
    simp only [step, State.update]
    split
    · exact h
    split
    · exact h.append rfl
    · exact h.append rfl
  | readKinds e =>
    refine onEdit_cases (P := Quiet) h e fun x hx => ?_
    unfold State.readKinds
    split
    next hphase =>
      refine h.setEdit e fun hcreates _ => h x (mem_of_getElem? hx) hcreates (.inl ?_)
      rw [Edit.early, hphase]
    · exact h
  | writeRow e taken =>
    refine onEdit_cases (P := Quiet) h e fun x hx => ?_
    unfold State.writeRow
    split
    next hasHeaderValue hphase =>
      have hthrown : ∀ error, Quiet (s.setEdit e { x with phase := .thrown error }) := by
        intro error
        refine h.setEdit e fun hcreates _ => h x (mem_of_getElem? hx) hcreates (.inl ?_)
        rw [Edit.early, hphase]
      have hwriting : ∀ todo changed, Quiet (s.setEdit e { x with phase := .writing todo, changed }) := by
        intro todo changed
        refine h.setEdit e fun _ hphase => ?_
        rcases hphase with hphase | hphase | hphase <;> cases hphase
      split
      · exact hthrown _
      split
      · exact hwriting _ _
      split
      · exact hthrown _
      · exact hwriting _ _
    · exact h
  | next e =>
    refine onEdit_cases (P := Quiet) h e fun x hx => ?_
    unfold State.next
    split
    next w todo hphase =>
      have hset : Quiet (s.setEdit e { x with phase := .writing todo, changed := x.changed || s.changes w }) := by
        refine h.setEdit e fun _ hphase => ?_
        rcases hphase with hphase | hphase | hphase <;> cases hphase
      cases w <;> exact hset
    · exact h
  | fails e =>
    refine onEdit_cases (P := Quiet) h e fun x hx => ?_
    obtain ⟨hcreates, hundoing⟩ := horderly x hx
    unfold State.fails
    split
    next hphase =>
      refine h.setEdit e fun hcreates _ => h x (mem_of_getElem? hx) hcreates (.inl ?_)
      rw [Edit.early, hphase]
    next w todo hphase =>
      rw [if_pos (hcreates (w :: todo) hphase)]
      refine h.setEdit e fun hupdate _ => ?_
      cases (hcreates (w :: todo) hphase).symm.trans hupdate
    next hphase =>
      refine h.setEdit e fun hupdate _ => ?_
      cases (hcreates [] hphase).symm.trans hupdate
    next kinds hphase =>
      rw [Edit.isUndoing, hphase] at hundoing
      cases hundoing
    · exact h
  | undo e =>
    refine onEdit_cases (P := Quiet) h e fun x hx => ?_
    have hset : ∀ kinds phase, x.phase = .undoing kinds → Quiet (s.setEdit e { x with phase }) := by
      intro kinds phase hphase
      refine h.setEdit e fun hcreates _ => h x (mem_of_getElem? hx) hcreates (.inr (.inr ?_))
      rw [Edit.isUndoing, hphase]
    unfold State.undo
    split
    next hphase =>
      exact hset _ _ hphase
    next hphase =>
      exact hset _ _ hphase
    next hphase =>
      exact hset _ _ hphase
    · exact h
  | finish e =>
    refine onEdit_cases (P := Quiet) h e fun x hx => ?_
    unfold State.finish
    split
    · refine h.setEdit e fun _ hphase => ?_
      rcases hphase with hphase | hphase | hphase <;> cases hphase
    next hphase hrow =>
      refine h.setEdit e fun hcreates _ => ?_
      have hsome := horderly x hx hphase hcreates
      rw [hrow] at hsome
      cases hsome
    · exact h

/-! ## Over a run -/

/-- **Whole edits.** In a run whose steps are orderly the server's fields and secrets are those last given, an
update that threw has changed nothing, and header authentication has its value. -/
theorem edits_whole (protocol : JsString → Option JsString) (es : List Event)
    (h : Along (step protocol) Orderly .init es) : Always (step protocol) Whole .init es := by
  refine h.of_invariant (fun s => Kept s ∧ (Undone s ∨ Good s) ∧ Quiet s) ?_ ?_ ⟨.init, .inl (.inl rfl), ?_⟩
  · intro s e horderly ⟨hkept, hgood, hquiet⟩
    exact ⟨hkept.step protocol e, step_good hkept hgood protocol horderly, step_quiet hquiet protocol horderly⟩
  · intro s e horderly ⟨hkept, hgood, hquiet⟩
    exact Good.whole (step_good hkept hgood protocol horderly) (step_quiet hquiet protocol horderly)
  · intro x hx
    cases hx

/-- An `https` URL, whatever it is. -/
def https (_ : JsString) : Option JsString := some (js "https:")

def named : McpServerUpdate :=
  { McpServerUpdate.keep with name := some (js "s"), url := some (js "u"), authKind := some .none }

theorem edits_whole_two :
    Always (step https) Whole .init
      [.create named false, .finish 0, .update { McpServerUpdate.keep with enabled := some false }, .readKinds 1,
        .writeRow 1 false] := by
  refine edits_whole https _ ⟨trivial, ?_, trivial, trivial, ?_, trivial⟩
  · intro x hx _ hcreates
    cases hx
    cases hcreates
  intro x hasHeaderValue row hx hphase _ _ hrow
  cases hx
  cases hrow
  exact ⟨by decide, by decide⟩

theorem overlapping_lost :
    let s := exec (step https) .init
      [.create named false, .finish 0, .update { McpServerUpdate.keep with instructions := some (js "a") },
        .update { McpServerUpdate.keep with enabled := some false }, .readKinds 1, .readKinds 2, .writeRow 1 false,
        .writeRow 2 false, .next 1, .next 1, .next 2, .next 2, .finish 1, .finish 2]
    (∀ x ∈ s.edits, x.phase = .resolved) ∧ s.row.map (·.instructions) = some [] ∧ ¬Whole s := by
  intro s
  have hended : ∀ x ∈ s.edits, x.phase = .resolved := by decide
  have hlost : s.row.map (·.instructions) = some [] := by decide
  have hlast : (lastFields s.written).map (·.instructions) = some (js "a") := by decide
  refine ⟨hended, hlost, fun h => ?_⟩
  obtain ⟨row, hrow⟩ := Option.isSome_iff_exists.mp (show s.row.isSome by decide)
  have hfields := h.fields row hrow fun x hx => by rw [Edit.isUndoing, hended x hx]
  rw [hfields, ← hrow, hlost] at hlast
  revert hlast
  decide

end Reins.McpEdits
