import Reins.Lib.Base64
import Reins.Lib.Schema
import Reins.Lib.Segment
import Reins.Backend.SessionTables

/-!
# Pages of the transcript (`backend/src/messages-store.ts`)

`loadMessagePage` reads the display entries next to a cursor and extends them so that a tool call and
its results stay together. Whatever it extends, what it reads is a segment of the session's display
entries in sequence order (`load_after`, `load_before`): from the cursor to where the page ends
(`pageEnd`), or begins (`pageStart`).
-/

open Utf Schema List

namespace Reins.Store

/-! ## Cursors -/

inductive DisplayCursorDirection
  | before
  | after
  deriving DecidableEq

def DisplayCursorDirection.name : DisplayCursorDirection → String
  | .before => "before"
  | .after => "after"

def displayCursor (s : SessionId) (seq : Int) (direction : DisplayCursorDirection) : List Char :=
  Base64.encodeUrl (encode (Json.obj [(js "sessionId", .str (js s)), (js "seq", .ofInt seq),
    (js "direction", .str (js direction.name))]).stringify)

def parseDisplayCursor (s : SessionId) (cursor : List Char) (direction : DisplayCursorDirection) : Option Int :=
  match Json.parse (lossy (Base64.decode cursor)) with
  | some (.obj ms) =>
    match Json.member? (js "sessionId") ms, Json.member? (js "direction") ms,
        (Json.member? (js "seq") ms).bind readSafeInt with
    | some (.str session), some (.str d), some seq =>
      if session = js s ∧ d = js direction.name ∧ 0 ≤ seq.val then some seq.val else none
    | _, _, _ => none
  | _ => none

theorem parseDisplayCursor_written (s : SessionId) (n : Nat) (direction : DisplayCursorDirection) :
    parseDisplayCursor s (displayCursor s n direction) direction
      = if n ≤ MAX_SAFE_INTEGER then some (n : Int) else none := by
  have hnames : js "sessionId" ≠ js "seq" ∧ js "sessionId" ≠ js "direction" ∧ js "seq" ≠ js "direction" := by decide
  by_cases hn : n ≤ MAX_SAFE_INTEGER
  · have hread : readSafeInt (Json.ofInt (n : Int)) = some ⟨n, by simpa using hn⟩ :=
      readSafeInt_ofInt ⟨n, by simpa using hn⟩
    rw [if_pos hn]
    simp [parseDisplayCursor, displayCursor, Base64.decode_encodeUrl, lossy_encode,
      Json.parse_stringify, Json.member?, hread, hnames, hnames.1.symm, hnames.2.1.symm,
      hnames.2.2.symm]
  · have hread : readSafeInt (Json.ofInt (n : Int)) = none := by
      rw [readSafeInt, Json.toInt?_ofInt, Option.bind_some, dif_neg]
      exact hn
    rw [if_neg hn]
    simp [parseDisplayCursor, displayCursor, Base64.decode_encodeUrl, lossy_encode,
      Json.parse_stringify, Json.member?, hread, hnames, hnames.1.symm, hnames.2.1.symm,
      hnames.2.2.symm]

theorem parseDisplayCursor_displayCursor (s : SessionId) (n : Nat) (hn : n ≤ MAX_SAFE_INTEGER)
    (direction : DisplayCursorDirection) :
    parseDisplayCursor s (displayCursor s n direction) direction = some (n : Int) := by
  rw [parseDisplayCursor_written, if_pos hn]

/-! ## Messages of rows -/

def parsePersistedMessage : Envelope → Option Message
  | .message (.message m) _ => some m
  | .message (.reinsInput _ content metadata timestamp) entryTimestamp =>
    some (.user content metadata (timestamp.getD entryTimestamp))
  | .compaction summary timestamp _ => some (.compactionSummary summary timestamp)
  | .branchSummary .. | .custom .. => none

def persistedClientId : Envelope → Option String
  | .message (.reinsInput reinsId ..) _ => if reinsId = "" then none else some reinsId
  | _ => none

def Envelope.content : Envelope → List ContentBlock
  | .message (.message (.user content ..)) _ | .message (.message (.assistant content ..)) _
  | .message (.message (.toolResult _ _ content ..)) _ | .message (.reinsInput _ content ..) _ => content
  | _ => []

def Envelope.toolCallId : Envelope → Option String
  | .message (.message (.toolResult toolCallId ..)) _ => some toolCallId
  | _ => none

def toolCallIds (content : List ContentBlock) : List String :=
  content.filterMap fun
    | .toolCall id .. => some id
    | _ => none

/-! ## Queries -/

def Row.displays (r : Row) : Bool := r.envelope.type = .message || r.envelope.type = .compaction

abbrev Row.key (r : Row) : Int := r.seq

section

variable (t : SessionMessages) (s : SessionId)

def displayRows : List Row := Segment.sortBy Row.key ((t.ofSession s).filter Row.displays)

def queryDisplayRows (condition : Row → Bool) : List Row := (displayRows t s).filter condition

/-- `SELECT 1 … LIMIT 1`. -/
def presentRow (condition : Row → Bool) : Bool := (displayRows t s).any condition

def parseDisplayRows (rows : List Row) : List (Row × Message) :=
  rows.filterMap fun r => (parsePersistedMessage r.envelope).map fun m => (r, m)

def assistantOf (first : Row) (toolCallId : String) : Option Row :=
  (Segment.sortBy Row.key ((t.ofSession s).filter fun r =>
    r.seq < first.seq && r.role = "assistant" && (toolCallIds r.envelope.content).contains toolCallId)).getLast?

def lastResult (last : Row) (ids : List String) : Option Nat :=
  (((t.ofSession s).filter fun r =>
    last.seq < r.seq && r.role = "toolResult" && r.envelope.toolCallId.any ids.contains).map Row.seq).max?

def resultsEnd (last : Row) (content : List ContentBlock) : Option Nat :=
  if toolCallIds content = [] then none else lastResult t s last (toolCallIds content)

/-! ## `loadMessagePage` -/

/-- `none` where a member is `undefined`. -/
structure MessagePagePosition where
  beforeSeq : Option Int
  afterSeq : Option Int

structure ConversationEntry where
  id : EntryId
  parentId : Option EntryId
  seq : Nat
  clientId : Option String
  message : Message

structure PageInfo where
  hasPreviousPage : Bool
  previousCursor : Option (List Char)
  hasNextPage : Bool
  endCursor : Option (List Char)

structure SessionMessagePage where
  items : List ConversationEntry
  pageInfo : PageInfo

def expandBackward (page : List (Row × Message)) : List (Row × Message) :=
  match page with
  | (first, .toolResult toolCallId ..) :: _ =>
    match assistantOf t s first toolCallId with
    | some assistant =>
      parseDisplayRows (queryDisplayRows t s fun r => assistant.seq ≤ r.seq && r.seq < first.seq) ++ page
    | none => page
  | _ => page

def expandForward (page : List (Row × Message)) : List (Row × Message) :=
  match page.getLast? with
  | some (last, .assistant content ..) =>
    match resultsEnd t s last content with
    | some seq => page ++ parseDisplayRows (queryDisplayRows t s fun r => last.seq < r.seq && r.seq ≤ seq)
    | none => page
  | _ => page

def emptyPage (position : MessagePagePosition) : SessionMessagePage :=
  match position.afterSeq with
  | some boundary =>
    let hasPreviousPage := presentRow t s fun r => r.key ≤ boundary
    { items := []
      pageInfo :=
        { hasPreviousPage := hasPreviousPage
          previousCursor := if hasPreviousPage then some (displayCursor s boundary .before) else none
          hasNextPage := presentRow t s fun r => boundary < r.key
          endCursor := some (displayCursor s boundary .after) } }
  | none =>
    let boundary := position.beforeSeq.getD MAX_SAFE_INTEGER
    let hasPreviousPage := presentRow t s fun r => r.key < boundary
    { items := []
      pageInfo :=
        { hasPreviousPage := hasPreviousPage
          previousCursor := if hasPreviousPage then some (displayCursor s boundary .before) else none
          hasNextPage := presentRow t s fun r => boundary ≤ r.key
          endCursor := none } }

def conversationEntry (p : Row × Message) : ConversationEntry :=
  { id := p.1.harnessId, parentId := (t.parent? s p.1).map Row.harnessId, seq := p.1.seq,
    clientId := persistedClientId p.1.envelope, message := p.2 }

def pageOf (page : List (Row × Message)) : Option SessionMessagePage :=
  match page.head?, page.getLast? with
  | some first, some last =>
    let hasPreviousPage := presentRow t s fun r => r.seq < first.1.seq
    some
      { items := page.map (conversationEntry t s)
        pageInfo :=
          { hasPreviousPage := hasPreviousPage
            previousCursor := if hasPreviousPage then some (displayCursor s first.1.seq .before) else none
            hasNextPage := presentRow t s fun r => last.1.seq < r.seq
            endCursor := some (displayCursor s last.1.seq .after) } }
  | _, _ => none

/-- `none` where it throws. -/
def loadMessagePage (limit : Nat) (position : MessagePagePosition) : Option SessionMessagePage :=
  match position.afterSeq with
  | some after =>
    let rows := (queryDisplayRows t s fun r => after < r.key).take limit
    if rows = [] then some (emptyPage t s position)
    else pageOf t s (expandForward t s (parseDisplayRows rows))
  | none =>
    let rows := (queryDisplayRows t s fun r => r.key < position.beforeSeq.getD MAX_SAFE_INTEGER)
      |>.reverse.take limit
    if rows = [] then some (emptyPage t s position)
    else pageOf t s (expandBackward t s (parseDisplayRows rows.reverse))

end

/-! ## Pages are segments -/

def pageEnd (t : SessionMessages) (s : SessionId) (last : Row) : Nat :=
  match parsePersistedMessage last.envelope with
  | some (.assistant content ..) => (resultsEnd t s last content).getD last.seq
  | _ => last.seq

/-- Where a backward page begins that the query began at `first`. -/
def pageStart (t : SessionMessages) (s : SessionId) (first : Row) : Nat :=
  match parsePersistedMessage first.envelope with
  | some (.toolResult toolCallId ..) =>
    match assistantOf t s first toolCallId with
    | some assistant => assistant.seq
    | none => first.seq
  | _ => first.seq

def segment (t : SessionMessages) (s : SessionId) (p : Row → Bool) : List (Row × Message) :=
  parseDisplayRows (queryDisplayRows t s p)

section

variable {t : SessionMessages} {s : SessionId} {r first last : Row} {p q : Row → Bool}

theorem sorted_rows (t : SessionMessages) (s : SessionId) (p : Row → Bool) :
    Segment.Sorted Row.key (Segment.sortBy Row.key ((t.ofSession s).filter p)) := by
  apply Segment.sorted_sortBy
  have hseqs : (((t.ofSession s).filter p).map Row.seq).Nodup :=
    (t.seqs_ofSession s).sublist (filter_sublist.map _)
  have hkeys : ((t.ofSession s).filter p).map Row.key = (((t.ofSession s).filter p).map Row.seq).map Nat.cast := by
    rw [map_map]
    rfl
  rw [hkeys]
  exact hseqs.map Nat.cast_injective

theorem sorted_displayRows (t : SessionMessages) (s : SessionId) :
    Segment.Sorted Row.key (displayRows t s) := sorted_rows t s Row.displays

theorem mem_displayRows : r ∈ displayRows t s ↔ r ∈ t.ofSession s ∧ r.displays = true := by
  rw [displayRows, Segment.mem_sortBy, mem_filter]

theorem mem_queryDisplayRows : r ∈ queryDisplayRows t s p ↔ r ∈ displayRows t s ∧ p r = true := mem_filter

theorem sorted_queryDisplayRows (t : SessionMessages) (s : SessionId) (p : Row → Bool) :
    Segment.Sorted Row.key (queryDisplayRows t s p) :=
  (sorted_displayRows t s).filter p

/-- **Two segments next to each other are one.** -/
theorem queryDisplayRows_append {pq : Row → Bool} (hlt : ∀ a b, p a = true → q b = true → a.key < b.key)
    (hpq : ∀ a, pq a = true ↔ p a = true ∨ q a = true) :
    queryDisplayRows t s p ++ queryDisplayRows t s q = queryDisplayRows t s pq := by
  have hsorted : Segment.Sorted Row.key (queryDisplayRows t s p ++ queryDisplayRows t s q) := by
    rw [Segment.Sorted, pairwise_append]
    refine ⟨sorted_queryDisplayRows t s p, sorted_queryDisplayRows t s q, ?_⟩
    intro a ha b hb
    exact hlt a b (mem_queryDisplayRows.mp ha).2 (mem_queryDisplayRows.mp hb).2
  apply hsorted.ext (sorted_queryDisplayRows t s pq)
  intro a
  rw [mem_append, mem_queryDisplayRows, mem_queryDisplayRows, mem_queryDisplayRows, hpq]
  exact and_or_left.symm

theorem segment_append {pq : Row → Bool} (hlt : ∀ a b, p a = true → q b = true → a.key < b.key)
    (hpq : ∀ a, pq a = true ↔ p a = true ∨ q a = true) : segment t s p ++ segment t s q = segment t s pq := by
  rw [segment, segment, segment, ← queryDisplayRows_append hlt hpq, parseDisplayRows,
    parseDisplayRows, parseDisplayRows, filterMap_append]

/-! ### Messages of display rows -/

theorem parsePersistedMessage_isSome (h : r.displays = true) : (parsePersistedMessage r.envelope).isSome = true := by
  unfold Row.displays at h
  cases he : r.envelope with
  | message m ts => cases m <;> rfl
  | compaction => rfl
  | branchSummary | custom => simp [he, Envelope.type] at h

theorem displays_of_role (hsummary : r.role ≠ "branch_summary") (hcustom : r.role ≠ "custom") : r.displays = true := by
  unfold Row.displays
  unfold Row.role at hsummary hcustom
  cases he : r.envelope with
  | message m ts => rfl
  | compaction => rfl
  | branchSummary => exact absurd (he ▸ rfl) hsummary
  | custom => exact absurd (he ▸ rfl) hcustom

theorem parseDisplayRows_fst {rows : List Row} (h : ∀ r ∈ rows, r.displays = true) :
    (parseDisplayRows rows).map Prod.fst = rows := by
  induction rows with
  | nil => rfl
  | cons r rows ih =>
    obtain ⟨m, hm⟩ := Option.isSome_iff_exists.mp (parsePersistedMessage_isSome (h r mem_cons_self))
    have hrest := ih fun r' hr' => h r' (mem_cons_of_mem r hr')
    rw [parseDisplayRows, filterMap_cons, hm]
    exact congrArg (r :: ·) hrest

theorem displays_of_mem {rows : List Row} (h : ∀ r ∈ rows, r ∈ displayRows t s) :
    ∀ r ∈ rows, r.displays = true := fun r hr => (mem_displayRows.mp (h r hr)).2

theorem segment_fst : (segment t s p).map Prod.fst = queryDisplayRows t s p :=
  parseDisplayRows_fst (displays_of_mem (t := t) (s := s) fun _ hr => (mem_queryDisplayRows.mp hr).1)

/-! ### What is extended -/

theorem lastResult_eq {ids : List String} {seq : Nat} (h : lastResult t s last ids = some seq) :
    ∃ r ∈ displayRows t s, r.seq = seq ∧ last.seq < r.seq ∧ ∃ id ∈ r.envelope.toolCallId, ids.contains id = true := by
  obtain ⟨hmem, -⟩ := max?_eq_some_iff.mp h
  obtain ⟨r, hr, rfl⟩ := mem_map.mp hmem
  simp only [mem_filter, Bool.and_eq_true, decide_eq_true_eq] at hr
  obtain ⟨hs, ⟨hlt, hrole⟩, hid⟩ := hr
  have hdisplays : r.displays = true := by
    apply displays_of_role <;> rw [hrole] <;> decide
  refine ⟨r, mem_displayRows.mpr ⟨hs, hdisplays⟩, rfl, hlt, ?_⟩
  cases hcall : r.envelope.toolCallId with
  | none => simp [hcall] at hid
  | some id => exact ⟨id, rfl, by simpa [hcall] using hid⟩

theorem resultsEnd_eq {content : List ContentBlock} {seq : Nat} (h : resultsEnd t s last content = some seq) :
    ∃ r ∈ displayRows t s, r.seq = seq ∧ last.seq < r.seq ∧
      ∃ id ∈ r.envelope.toolCallId, (toolCallIds content).contains id = true := by
  unfold resultsEnd at h
  split at h
  · cases h
  · exact lastResult_eq h

theorem assistantOf_eq {id : String} {a : Row} (h : assistantOf t s first id = some a) :
    a ∈ displayRows t s ∧ a.seq < first.seq ∧ a.role = "assistant" ∧
      (toolCallIds a.envelope.content).contains id = true := by
  have hmem := mem_of_getLast? h
  simp only [Segment.mem_sortBy, mem_filter, Bool.and_eq_true, decide_eq_true_eq] at hmem
  obtain ⟨hs, ⟨hlt, hrole⟩, hid⟩ := hmem
  have hdisplays : a.displays = true := by
    apply displays_of_role <;> rw [hrole] <;> decide
  exact ⟨mem_displayRows.mpr ⟨hs, hdisplays⟩, hlt, hrole, hid⟩

theorem pageEnd_mem (h : last ∈ displayRows t s) :
    last.seq ≤ pageEnd t s last ∧ ∃ r ∈ displayRows t s, r.seq = pageEnd t s last := by
  have hself : last.seq ≤ last.seq ∧ ∃ r ∈ displayRows t s, r.seq = last.seq := ⟨Nat.le_refl _, last, h, rfl⟩
  unfold pageEnd
  split
  next content _ _ _ =>
    cases hres : resultsEnd t s last content with
    | none => exact hself
    | some seq =>
      obtain ⟨r, hr, rfl, hlt, -⟩ := resultsEnd_eq hres
      exact ⟨Nat.le_of_lt hlt, r, hr, rfl⟩
  · exact hself

theorem pageStart_mem (h : first ∈ displayRows t s) :
    pageStart t s first ≤ first.seq ∧ ∃ r ∈ displayRows t s, r.seq = pageStart t s first := by
  have hself : first.seq ≤ first.seq ∧ ∃ r ∈ displayRows t s, r.seq = first.seq := ⟨Nat.le_refl _, first, h, rfl⟩
  unfold pageStart
  split
  · split
    next a ha =>
      obtain ⟨hmem, hlt, -⟩ := assistantOf_eq ha
      exact ⟨Nat.le_of_lt hlt, a, hmem, rfl⟩
    · exact hself
  · exact hself

theorem mem_parseDisplayRows {rows : List Row} {x : Row × Message} (h : x ∈ parseDisplayRows rows) :
    x.1 ∈ rows ∧ parsePersistedMessage x.1.envelope = some x.2 := by
  obtain ⟨r, hr, hx⟩ := mem_filterMap.mp h
  obtain ⟨m, hm, rfl⟩ := Option.map_eq_some_iff.mp hx
  exact ⟨hr, hm⟩

/-- **A forward page**: from the cursor to where the last entry of the query says. -/
theorem expandForward_segment {after : Int} {x : Row × Message}
    (hlast : (segment t s fun r => after < r.key && r.key ≤ last.key).getLast? = some x)
    (hx : x.1 = last) (hafter : after < last.key) :
    expandForward t s (segment t s fun r => after < r.key && r.key ≤ last.key)
      = segment t s fun r => after < r.key && r.key ≤ pageEnd t s last := by
  obtain ⟨row, m⟩ := x
  obtain rfl : row = last := hx
  have hm := (mem_parseDisplayRows (mem_of_getLast? hlast)).2
  have hself : pageEnd t s row = row.seq → segment t s (fun r => after < r.key && r.key ≤ row.key)
        = segment t s fun r => after < r.key && r.key ≤ pageEnd t s row := by
    intro he
    rw [he]
  rw [expandForward, hlast]
  cases m with
  | user | toolResult | compactionSummary => exact hself (by rw [pageEnd, hm])
  | assistant content stop ts =>
    have hend : pageEnd t s row = (resultsEnd t s row content).getD row.seq := by
      rw [pageEnd, hm]
    cases hres : resultsEnd t s row content with
    | none =>
      simp only [hres]
      exact hself (hend.trans (by rw [hres, Option.getD_none]))
    | some seq =>
      obtain ⟨r, -, rfl, hlt, -⟩ := resultsEnd_eq hres
      rw [hres, Option.getD_some] at hend
      have hafter' : after < (row.seq : Int) := hafter
      simp only [hres, hend]
      apply segment_append
      · intro a b ha hb
        simp only [Bool.and_eq_true, decide_eq_true_eq] at ha hb
        have hb' : row.key < b.key := Int.ofNat_lt.mpr hb.1
        exact lt_of_le_of_lt ha.2 hb'
      · intro a
        simp only [Row.key, Bool.and_eq_true, decide_eq_true_eq]
        constructor <;> intro h <;> omega

/-- **A backward page**: from where the first entry of the query says to the cursor. -/
theorem expandBackward_segment {before : Int} {x : Row × Message}
    (hfirst : (segment t s fun r => first.key ≤ r.key && r.key < before).head? = some x)
    (hx : x.1 = first) (hbefore : first.key < before) :
    expandBackward t s (segment t s fun r => first.key ≤ r.key && r.key < before)
      = segment t s fun r => pageStart t s first ≤ r.key && r.key < before := by
  obtain ⟨row, m⟩ := x
  obtain rfl : row = first := hx
  have hm := (mem_parseDisplayRows (mem_of_head? hfirst)).2
  have hself : pageStart t s row = row.seq → segment t s (fun r => row.key ≤ r.key && r.key < before)
        = segment t s fun r => pageStart t s row ≤ r.key && r.key < before := by
    intro he
    rw [he]
  cases hseg : segment t s fun r => row.key ≤ r.key && r.key < before with
  | nil =>
    rw [hseg] at hfirst
    cases hfirst
  | cons y page =>
    rw [hseg] at hfirst
    cases hfirst
    rw [hseg] at hself
    cases m with
    | user | assistant | compactionSummary => exact hself (by rw [pageStart, hm])
    | toolResult id name content isError ts =>
      cases ha : assistantOf t s row id with
      | none =>
        have hstart : pageStart t s row = row.seq := by
          rw [pageStart, hm]
          simp [ha]
        simp only [expandBackward, ha]
        exact hself hstart
      | some a =>
        have hstart : pageStart t s row = a.seq := by
          rw [pageStart, hm]
          simp [ha]
        obtain ⟨-, hlt, -⟩ := assistantOf_eq ha
        have hbefore' : (row.seq : Int) < before := hbefore
        simp only [expandBackward, ha, hstart]
        rw [← hseg]
        apply segment_append
        · intro a b ha hb
          simp only [Bool.and_eq_true, decide_eq_true_eq] at ha hb
          have ha' : a.key < row.key := Int.ofNat_lt.mpr ha.2
          exact lt_of_lt_of_le ha' hb.1
        · intro a
          simp only [Row.key, Bool.and_eq_true, decide_eq_true_eq]
          constructor <;> intro h <;> omega

/-! ### What is loaded -/

def entriesOf (t : SessionMessages) (s : SessionId) (p : Row → Bool) : List ConversationEntry :=
  (segment t s p).map (conversationEntry t s)

/-- The flags of a page: what is there before its entries and after them, or on either side of the
cursor where it has none. -/
structure FlagsOk (t : SessionMessages) (s : SessionId) (position : MessagePagePosition)
    (page : SessionMessagePage) : Prop where
  previous : page.items ≠ [] → (page.pageInfo.hasPreviousPage = true ↔
    ∃ r ∈ displayRows t s, ∀ e ∈ page.items, r.seq < e.seq)
  next : page.items ≠ [] → (page.pageInfo.hasNextPage = true ↔ ∃ r ∈ displayRows t s, ∀ e ∈ page.items, e.seq < r.seq)
  emptyAfter : page.items = [] → ∀ after ∈ position.afterSeq,
    (page.pageInfo.hasPreviousPage = true ↔ ∃ r ∈ displayRows t s, r.key ≤ after) ∧
    (page.pageInfo.hasNextPage = true ↔ ∃ r ∈ displayRows t s, after < r.key)
  emptyBefore : page.items = [] → position.afterSeq = none → (page.pageInfo.hasPreviousPage = true ↔
      ∃ r ∈ displayRows t s, r.key < position.beforeSeq.getD MAX_SAFE_INTEGER) ∧
    (page.pageInfo.hasNextPage = true ↔ ∃ r ∈ displayRows t s, position.beforeSeq.getD MAX_SAFE_INTEGER ≤ r.key)

theorem presentRow_iff : presentRow t s p = true ↔ ∃ r ∈ displayRows t s, p r = true := any_eq_true

theorem emptyPage_flags (position : MessagePagePosition) : FlagsOk t s position (emptyPage t s position) := by
  have hitems : (emptyPage t s position).items = [] := by
    unfold emptyPage
    cases position.afterSeq <;> rfl
  refine ⟨fun h => absurd hitems h, fun h => absurd hitems h, ?_, ?_⟩
  · intro _ after hafter
    simp [emptyPage, Option.mem_def.mp hafter, presentRow_iff]
  · intro _ hnone
    simp [emptyPage, hnone, presentRow_iff]

theorem pageOf_segment {f l : Row} (hf : (queryDisplayRows t s p).head? = some f)
    (hl : (queryDisplayRows t s p).getLast? = some l) :
    pageOf t s (segment t s p) = some
      { items := entriesOf t s p
        pageInfo :=
          { hasPreviousPage := presentRow t s fun r => r.seq < f.seq
            previousCursor := if presentRow t s (fun r => r.seq < f.seq) then
              some (displayCursor s f.seq .before) else none
            hasNextPage := presentRow t s fun r => l.seq < r.seq
            endCursor := some (displayCursor s l.seq .after) } } := by
  rw [← segment_fst, head?_map, Option.map_eq_some_iff] at hf
  rw [← segment_fst, getLast?_map, Option.map_eq_some_iff] at hl
  obtain ⟨x, hx, rfl⟩ := hf
  obtain ⟨y, hy, rfl⟩ := hl
  simp [pageOf, hx, hy, entriesOf]

theorem mem_entriesOf {e : ConversationEntry} (h : e ∈ entriesOf t s p) :
    ∃ r ∈ queryDisplayRows t s p, e.seq = r.seq ∧ e.id = r.harnessId := by
  obtain ⟨x, hx, rfl⟩ := mem_map.mp h
  exact ⟨x.1, (mem_parseDisplayRows hx).1, rfl, rfl⟩

theorem entriesOf_mem (h : r ∈ queryDisplayRows t s p) : ∃ e ∈ entriesOf t s p, e.seq = r.seq := by
  rw [← segment_fst] at h
  obtain ⟨x, hx, rfl⟩ := mem_map.mp h
  exact ⟨conversationEntry t s x, mem_map_of_mem hx, rfl⟩

theorem pageOf_flags {f l : Row} {page : SessionMessagePage} (position : MessagePagePosition)
    (hf : (queryDisplayRows t s p).head? = some f)
    (hl : (queryDisplayRows t s p).getLast? = some l)
    (hpage : pageOf t s (segment t s p) = some page) : FlagsOk t s position page := by
  rw [pageOf_segment hf hl] at hpage
  cases hpage
  have hsorted := sorted_queryDisplayRows t s p
  have hfmem := mem_of_head? hf
  have hlmem := mem_of_getLast? hl
  obtain ⟨ef, hef, hefseq⟩ := entriesOf_mem hfmem
  obtain ⟨el, hel, helseq⟩ := entriesOf_mem hlmem
  have hfirst : ∀ r ∈ queryDisplayRows t s p, f.seq ≤ r.seq := fun r hr => Int.ofNat_le.mp (hsorted.head_le hf r hr)
  have hlast : ∀ r ∈ queryDisplayRows t s p, r.seq ≤ l.seq := fun r hr => Int.ofNat_le.mp (hsorted.le_getLast hl r hr)
  refine ⟨fun _ => ?_, fun _ => ?_, fun h => ?_, fun h => ?_⟩
  · simp only [presentRow_iff, decide_eq_true_eq]
    constructor
    · rintro ⟨r, hr, hlt⟩
      refine ⟨r, hr, fun e he => ?_⟩
      obtain ⟨r', hr', he', -⟩ := mem_entriesOf he
      exact Nat.lt_of_lt_of_le hlt (he' ▸ hfirst r' hr')
    · rintro ⟨r, hr, hall⟩
      exact ⟨r, hr, hefseq ▸ hall ef hef⟩
  · simp only [presentRow_iff, decide_eq_true_eq]
    constructor
    · rintro ⟨r, hr, hlt⟩
      refine ⟨r, hr, fun e he => ?_⟩
      obtain ⟨r', hr', he', -⟩ := mem_entriesOf he
      exact Nat.lt_of_le_of_lt (he' ▸ hlast r' hr') hlt
    · rintro ⟨r, hr, hall⟩
      exact ⟨r, hr, helseq ▸ hall el hel⟩
  · exact absurd h (ne_nil_of_mem hef)
  · exact absurd h (ne_nil_of_mem hef)

/-- The entries a forward page is read from: the next ones after the cursor. -/
def windowAfter (t : SessionMessages) (s : SessionId) (limit : Nat) (after : Int) : List Row :=
  (queryDisplayRows t s fun r => after < r.key).take limit

/-- The entries a backward page is read from: the last ones before the cursor. -/
def windowBefore (t : SessionMessages) (s : SessionId) (limit : Nat) (before : Int) : List Row :=
  ((queryDisplayRows t s fun r => r.key < before).reverse.take limit).reverse

variable {limit : Nat} {after before : Int}

theorem windowAfter_eq (hlast : (windowAfter t s limit after).getLast? = some last) :
    last ∈ displayRows t s ∧ after < last.key ∧
      windowAfter t s limit after = queryDisplayRows t s fun r => after < r.key && r.key ≤ last.key := by
  have hsorted := sorted_queryDisplayRows t s fun r => after < r.key
  have hmem := mem_of_mem_take (mem_of_getLast? hlast)
  obtain ⟨hdisplay, hafter⟩ := mem_queryDisplayRows.mp hmem
  refine ⟨hdisplay, of_decide_eq_true hafter, ?_⟩
  apply (hsorted.sublist (take_sublist _ _)).ext (sorted_queryDisplayRows t s _)
  intro a
  rw [hsorted.mem_take hlast, mem_queryDisplayRows, mem_queryDisplayRows, Bool.and_eq_true,
    decide_eq_true_eq, decide_eq_true_eq, and_assoc]

theorem windowBefore_eq (hfirst : (windowBefore t s limit before).head? = some first) :
    first ∈ displayRows t s ∧ first.key < before ∧
      windowBefore t s limit before = queryDisplayRows t s fun r => first.key ≤ r.key && r.key < before := by
  have hsorted := sorted_queryDisplayRows t s fun r => r.key < before
  rw [windowBefore, head?_reverse] at hfirst
  have hmem := mem_reverse.mp (mem_of_mem_take (mem_of_getLast? hfirst))
  obtain ⟨hdisplay, hbefore⟩ := mem_queryDisplayRows.mp hmem
  refine ⟨hdisplay, of_decide_eq_true hbefore, ?_⟩
  have hwindow : Segment.Sorted Row.key (windowBefore t s limit before) := by
    rw [windowBefore, Segment.Sorted, pairwise_reverse]
    exact List.Pairwise.sublist (take_sublist _ _) (pairwise_reverse.mpr hsorted)
  apply hwindow.ext (sorted_queryDisplayRows t s _)
  intro a
  rw [windowBefore, mem_reverse, hsorted.mem_take_reverse hfirst, mem_queryDisplayRows,
    mem_queryDisplayRows, Bool.and_eq_true, decide_eq_true_eq, decide_eq_true_eq, and_assoc,
    and_comm (a := a.key < before)]

theorem exists_head {p : Row → Bool} (h : r ∈ queryDisplayRows t s p) :
    ∃ f, (queryDisplayRows t s p).head? = some f := by
  cases hq : queryDisplayRows t s p with
  | nil => simp [hq] at h
  | cons f rest => exact ⟨f, rfl⟩

theorem exists_getLast {p : Row → Bool} (h : r ∈ queryDisplayRows t s p) :
    ∃ l, (queryDisplayRows t s p).getLast? = some l :=
  ⟨_, getLast?_eq_some_getLast (ne_nil_of_mem h)⟩

theorem load_after_eq (b : Option Int) (hlast : (windowAfter t s limit after).getLast? = some last) :
    loadMessagePage t s limit ⟨b, some after⟩
      = pageOf t s (segment t s fun r => after < r.key && r.key ≤ pageEnd t s last) := by
  obtain ⟨-, hafter, hwindow⟩ := windowAfter_eq hlast
  have hne : windowAfter t s limit after ≠ [] := fun h => by simp [h] at hlast
  have hseglast : ∃ x, (segment t s fun r => after < r.key && r.key ≤ last.key).getLast? = some x ∧ x.1 = last := by
    rw [hwindow, ← segment_fst, getLast?_map, Option.map_eq_some_iff] at hlast
    exact hlast
  obtain ⟨x, hx, hxlast⟩ := hseglast
  show (if windowAfter t s limit after = [] then _ else
    pageOf t s (expandForward t s (parseDisplayRows (windowAfter t s limit after)))) = _
  rw [if_neg hne, hwindow]
  exact congrArg _ (expandForward_segment hx hxlast hafter)

/-- **What a forward page is.** -/
theorem load_after (b : Option Int) (hlast : (windowAfter t s limit after).getLast? = some last) :
    ∃ page, loadMessagePage t s limit ⟨b, some after⟩ = some page ∧
      page.items = entriesOf t s (fun r => after < r.key && r.key ≤ pageEnd t s last) ∧
      page.pageInfo.hasNextPage = presentRow t s (fun r => pageEnd t s last < r.seq) ∧
      page.pageInfo.endCursor = some (displayCursor s (pageEnd t s last) .after) ∧
      FlagsOk t s ⟨b, some after⟩ page := by
  obtain ⟨hdisplay, hafter, -⟩ := windowAfter_eq hlast
  obtain ⟨hle, e, he, heseq⟩ := pageEnd_mem hdisplay
  have hend : e ∈ queryDisplayRows t s fun r => after < r.key && r.key ≤ pageEnd t s last := by
    rw [mem_queryDisplayRows, Bool.and_eq_true, decide_eq_true_eq, decide_eq_true_eq]
    refine ⟨he, lt_of_lt_of_le hafter ?_, ?_⟩
    · exact Int.ofNat_le.mpr (heseq ▸ hle)
    · exact Int.ofNat_le.mpr (Nat.le_of_eq heseq)
  obtain ⟨f, hf⟩ := exists_head hend
  obtain ⟨l, hl⟩ := exists_getLast hend
  have hlseq : l.seq = pageEnd t s last := by
    apply Nat.le_antisymm
    · have hmem := (mem_queryDisplayRows.mp (mem_of_getLast? hl)).2
      simp only [Bool.and_eq_true, decide_eq_true_eq] at hmem
      exact Int.ofNat_le.mp hmem.2
    · have hmax := (sorted_queryDisplayRows t s _).le_getLast hl e hend
      exact heseq ▸ Int.ofNat_le.mp hmax
  rw [load_after_eq b hlast, pageOf_segment hf hl]
  refine ⟨_, rfl, rfl, ?_, ?_, pageOf_flags _ hf hl (pageOf_segment hf hl)⟩
  · simp [hlseq]
  · simp [hlseq]

theorem load_before_eq {b : Option Int}
    (hfirst : (windowBefore t s limit (b.getD MAX_SAFE_INTEGER)).head? = some first) :
    loadMessagePage t s limit ⟨b, none⟩ = pageOf t s (segment t s fun r =>
      pageStart t s first ≤ r.key && r.key < b.getD MAX_SAFE_INTEGER) := by
  obtain ⟨-, hbefore, hwindow⟩ := windowBefore_eq hfirst
  have hne : (queryDisplayRows t s fun r => r.key < b.getD MAX_SAFE_INTEGER).reverse.take limit ≠ [] := by
    intro h
    simp [windowBefore, h] at hfirst
  have hseghead : ∃ x, (segment t s fun r => first.key ≤ r.key &&
      r.key < b.getD MAX_SAFE_INTEGER).head? = some x ∧ x.1 = first := by
    rw [hwindow, ← segment_fst, head?_map, Option.map_eq_some_iff] at hfirst
    exact hfirst
  obtain ⟨x, hx, hxfirst⟩ := hseghead
  show (if (queryDisplayRows t s fun r => r.key < b.getD MAX_SAFE_INTEGER).reverse.take limit
      = [] then _ else pageOf t s (expandBackward t s (parseDisplayRows
        (windowBefore t s limit (b.getD MAX_SAFE_INTEGER))))) = _
  rw [if_neg hne, hwindow]
  exact congrArg _ (expandBackward_segment hx hxfirst hbefore)

/-- **What a backward page is.** -/
theorem load_before {b : Option Int} (hfirst : (windowBefore t s limit (b.getD MAX_SAFE_INTEGER)).head? = some first) :
    ∃ page, loadMessagePage t s limit ⟨b, none⟩ = some page ∧ page.items = entriesOf t s
        (fun r => pageStart t s first ≤ r.key && r.key < b.getD MAX_SAFE_INTEGER) ∧
      page.pageInfo.hasPreviousPage = presentRow t s (fun r => r.seq < pageStart t s first) ∧
      page.pageInfo.previousCursor = (if presentRow t s (fun r => r.seq < pageStart t s first) then
            some (displayCursor s (pageStart t s first) .before) else none) ∧
      FlagsOk t s ⟨b, none⟩ page := by
  obtain ⟨hdisplay, hbefore, -⟩ := windowBefore_eq hfirst
  obtain ⟨hle, e, he, heseq⟩ := pageStart_mem hdisplay
  have hstart : e ∈ queryDisplayRows t s fun r => pageStart t s first ≤ r.key && r.key < b.getD MAX_SAFE_INTEGER := by
    rw [mem_queryDisplayRows, Bool.and_eq_true, decide_eq_true_eq, decide_eq_true_eq]
    refine ⟨he, ?_, lt_of_le_of_lt ?_ hbefore⟩
    · exact Int.ofNat_le.mpr (Nat.le_of_eq heseq.symm)
    · exact Int.ofNat_le.mpr (heseq ▸ hle)
  obtain ⟨f, hf⟩ := exists_head hstart
  obtain ⟨l, hl⟩ := exists_getLast hstart
  have hfseq : f.seq = pageStart t s first := by
    apply Nat.le_antisymm
    · have hmin := (sorted_queryDisplayRows t s _).head_le hf e hstart
      exact heseq ▸ Int.ofNat_le.mp hmin
    have hmem := (mem_queryDisplayRows.mp (mem_of_head? hf)).2
    simp only [Bool.and_eq_true, decide_eq_true_eq] at hmem
    exact Int.ofNat_le.mp hmem.1
  rw [load_before_eq hfirst, pageOf_segment hf hl]
  refine ⟨_, rfl, rfl, ?_, ?_, pageOf_flags _ hf hl (pageOf_segment hf hl)⟩
  · simp [hfseq]
  · simp [hfseq]

theorem load_empty_after (b : Option Int) (h : windowAfter t s limit after = []) :
    loadMessagePage t s limit ⟨b, some after⟩ = some (emptyPage t s ⟨b, some after⟩) :=
  if_pos h

theorem load_empty_before {b : Option Int} (h : windowBefore t s limit (b.getD MAX_SAFE_INTEGER) = []) :
    loadMessagePage t s limit ⟨b, none⟩ = some (emptyPage t s ⟨b, none⟩) :=
  if_pos (reverse_eq_nil_iff.mp h)

end

end Reins.Store
