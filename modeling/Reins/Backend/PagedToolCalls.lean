import Reins.Backend.MessagePages

/-!
# Tool calls and their results on pages

`loadMessagePage` extends a forward page that ends on an assistant message to the last of its results,
and a backward page that begins on a tool result to its call. A boundary anywhere else is left where it
is, so a page that ends on one of several results is cut between them. What a walk needs for its pages
to be whole is that no boundary of it has a call on one side and a result of it on the other
(`Uncrossed`), and where the next boundary is can be read off the entries that the page is read from.
-/

open Schema List

namespace Reins.Store

section

variable (t : SessionMessages) (s : SessionId)

def ResultOf (c r : Row) : Prop :=
  c ∈ t.ofSession s ∧ r ∈ t.ofSession s ∧ c.role = "assistant" ∧ c.seq < r.seq ∧
    ∃ id ∈ r.envelope.toolCallId, id ∈ toolCallIds c.envelope.content

def Answers (c r : Row) : Prop := ResultOf t s c r ∧ ∀ c', ResultOf t s c' r → c'.seq ≤ c.seq

/-- A page that has a call has its results, and one that has a result has its call. -/
def Whole (page : SessionMessagePage) : Prop :=
  ∀ c r, Answers t s c r → ((∃ e ∈ page.items, e.seq = c.seq) ↔ ∃ e ∈ page.items, e.seq = r.seq)

def Uncrossed (boundary : Int) : Prop := ∀ c r, Answers t s c r → c.key < boundary → r.key < boundary

def ThroughResults (last : Row) (seq : Nat) : Prop := seq ≤ last.seq ∨ ∃ r, ResultOf t s last r ∧ seq ≤ r.seq

def FromCall (first : Row) (seq : Nat) : Prop := first.seq ≤ seq ∨ ∃ c, Answers t s c first ∧ c.seq ≤ seq

/-- Of the entries a forward page is read from, the last is one up to whose results every call that is
made has its own. -/
def EndsWhole (limit : Nat) (after : Int) : Prop :=
  ∀ last ∈ (windowAfter t s limit after).getLast?, ∀ c r, Answers t s c r →
    ThroughResults t s last c.seq → ThroughResults t s last r.seq

/-- Of the entries a backward page is read from, the first is one from whose call on every result has
its own. -/
def BeginsWhole (limit : Nat) (before : Int) : Prop :=
  ∀ first ∈ (windowBefore t s limit before).head?, ∀ c r, Answers t s c r →
    FromCall t s first r.seq → FromCall t s first c.seq

end

section

variable {t : SessionMessages} {s : SessionId} {limit : Nat} {r c first last : Row} {page : SessionMessagePage}

/-! ## Messages of rows -/

theorem envelope_of_role (h : r.role = "assistant") :
    ∃ content stop ts ts', r.envelope = .message (.message (.assistant content stop ts)) ts' := by
  unfold Row.role at h
  cases he : r.envelope with
  | message m ts =>
    cases m with
    | message m =>
      cases m with
      | assistant content stop ts' => exact ⟨content, stop, ts', ts, rfl⟩
      | user | toolResult | compactionSummary => simp [he, Envelope.role, StoredMessage.role, Message.role] at h
    | reinsInput => simp [he, Envelope.role, StoredMessage.role] at h
  | compaction | branchSummary | custom => simp [he, Envelope.role, Envelope.type, EntryType.name] at h

theorem role_of_assistant {content : List ContentBlock} {stop : Option String} {ts : Int}
    (h : parsePersistedMessage r.envelope = some (.assistant content stop ts)) :
    r.role = "assistant" := by
  unfold Row.role
  cases he : r.envelope with
  | message m ts' =>
    rw [he] at h
    cases m with
    | message m =>
      cases h
      rfl
    | reinsInput => cases h
  | compaction | branchSummary | custom =>
    rw [he] at h
    cases h

theorem toolCallId_of_toolResult {id name : String} {content : List ContentBlock} {isError : Bool}
    {ts : Int} (h : parsePersistedMessage r.envelope = some (.toolResult id name content isError ts)) :
    r.envelope.toolCallId = some id := by
  cases he : r.envelope with
  | message m ts' =>
    rw [he] at h
    cases m with
    | message m =>
      cases h
      rfl
    | reinsInput => cases h
  | compaction | branchSummary | custom =>
    rw [he] at h
    cases h

theorem envelope_of_toolCallId {id : String} (h : r.envelope.toolCallId = some id) : ∃ name content isError ts ts',
      r.envelope = .message (.message (.toolResult id name content isError ts)) ts' := by
  cases he : r.envelope with
  | message m ts =>
    cases m with
    | message m =>
      cases m with
      | toolResult id' name content isError ts' =>
        rw [he] at h
        cases h
        exact ⟨name, content, isError, ts', ts, rfl⟩
      | user | assistant | compactionSummary =>
        rw [he] at h
        cases h
    | reinsInput =>
      rw [he] at h
      cases h
  | compaction | branchSummary | custom =>
    rw [he] at h
    cases h

theorem role_of_toolCallId {id : String} (h : r.envelope.toolCallId = some id) : r.role = "toolResult" := by
  obtain ⟨name, content, isError, ts, ts', he⟩ := envelope_of_toolCallId h
  rw [Row.role, he]
  rfl

theorem ResultOf.displays (h : ResultOf t s c r) : c ∈ displayRows t s ∧ r ∈ displayRows t s := by
  obtain ⟨hc, hr, hrole, -, id, hid, -⟩ := h
  constructor
  · refine mem_displayRows.mpr ⟨hc, ?_⟩
    apply displays_of_role <;> rw [hrole] <;> decide
  · refine mem_displayRows.mpr ⟨hr, ?_⟩
    apply displays_of_role <;> rw [role_of_toolCallId hid] <;> decide

theorem le_lastResult {ids : List String} {seq : Nat} (h : lastResult t s last ids = some seq)
    (hr : r ∈ t.ofSession s) (hlt : last.seq < r.seq) {id : String}
    (hid : r.envelope.toolCallId = some id) (hmem : id ∈ ids) : r.seq ≤ seq := by
  apply (max?_eq_some_iff.mp h).2
  apply mem_map_of_mem
  simp only [mem_filter, Bool.and_eq_true, decide_eq_true_eq]
  refine ⟨hr, ⟨hlt, role_of_toolCallId hid⟩, ?_⟩
  rw [hid, Option.any_some]
  exact contains_iff_mem.mpr hmem

theorem lastResult_none {ids : List String} (h : lastResult t s last ids = none)
    (hr : r ∈ t.ofSession s) (hlt : last.seq < r.seq) {id : String}
    (hid : r.envelope.toolCallId = some id) : id ∉ ids := by
  intro hmem
  rw [lastResult, max?_eq_none_iff, map_eq_nil_iff, filter_eq_nil_iff] at h
  apply h r hr
  simp only [Bool.and_eq_true, decide_eq_true_eq]
  refine ⟨⟨hlt, role_of_toolCallId hid⟩, ?_⟩
  rw [hid, Option.any_some]
  exact contains_iff_mem.mpr hmem

/-! ## Where pages end and begin -/

/-- **A forward page ends at the last of the results of its window's last entry.** -/
theorem le_pageEnd_iff (h : last ∈ displayRows t s) (seq : Nat) :
    seq ≤ pageEnd t s last ↔ ThroughResults t s last seq := by
  have hlast := (mem_displayRows.mp h).1
  by_cases hrole : last.role = "assistant"
  · obtain ⟨content, stop, ts, ts', he⟩ := envelope_of_role hrole
    have hend : pageEnd t s last = (resultsEnd t s last content).getD last.seq := by
      rw [pageEnd, he]
      rfl
    have hcalls : ∀ r, ResultOf t s last r ↔ r ∈ t.ofSession s ∧ last.seq < r.seq ∧
        ∃ id ∈ r.envelope.toolCallId, id ∈ toolCallIds content := by
      intro r
      rw [ResultOf, he]
      exact ⟨fun h => h.2.2.2.elim fun hlt hid => ⟨h.2.1, hlt, hid⟩, fun h => ⟨hlast, h.1, hrole, h.2.1, h.2.2⟩⟩
    rw [hend]
    cases hres : resultsEnd t s last content with
    | none =>
      have hnone : ∀ r, ¬ ResultOf t s last r := by
        intro r hr
        obtain ⟨hr, hlt, id, hid, hmem⟩ := (hcalls r).mp hr
        rw [resultsEnd, if_neg (ne_nil_of_mem hmem)] at hres
        exact lastResult_none hres hr hlt hid hmem
      rw [Option.getD_none]
      constructor
      · exact Or.inl
      rintro (hle | ⟨r, hr, -⟩)
      · exact hle
      · exact absurd hr (hnone r)
    | some stopSeq =>
      rw [Option.getD_some]
      constructor
      · intro hle
        obtain ⟨r, hr, rfl, hlt, id, hid, hmem⟩ := resultsEnd_eq hres
        refine Or.inr ⟨r, (hcalls r).mpr ⟨(mem_displayRows.mp hr).1, hlt, id, hid, ?_⟩, hle⟩
        exact contains_iff_mem.mp hmem
      · rintro (hle | ⟨r, hr, hle⟩)
        · obtain ⟨r, -, rfl, hlt, -⟩ := resultsEnd_eq hres
          exact Nat.le_trans hle (Nat.le_of_lt hlt)
        obtain ⟨hr, hlt, id, hid, hmem⟩ := (hcalls r).mp hr
        rw [resultsEnd, if_neg (ne_nil_of_mem hmem)] at hres
        exact Nat.le_trans hle (le_lastResult hres hr hlt hid hmem)
  · have hend : pageEnd t s last = last.seq := by
      unfold pageEnd
      split
      next content stop ts hm =>
        exact absurd (role_of_assistant hm) hrole
      · rfl
    rw [hend]
    constructor
    · exact Or.inl
    rintro (hle | ⟨r, hr, -⟩)
    · exact hle
    · exact absurd hr.2.2.1 hrole

theorem assistantOf_iff {id : String} (hr : r ∈ t.ofSession s)
    (hid : r.envelope.toolCallId = some id) : assistantOf t s r id = some c ↔ Answers t s c r := by
  have hmem : ∀ c, c ∈ Segment.sortBy Row.key ((t.ofSession s).filter fun a =>
      a.seq < r.seq && a.role = "assistant" && (toolCallIds a.envelope.content).contains id) ↔ ResultOf t s c r := by
    intro c
    simp only [Segment.mem_sortBy, mem_filter, Bool.and_eq_true, decide_eq_true_eq,
      contains_iff_mem, ResultOf, hid, Option.mem_def, Option.some.injEq, exists_eq_left']
    exact ⟨fun ⟨hc, ⟨hlt, hrole⟩, hcall⟩ => ⟨hc, hr, hrole, hlt, hcall⟩,
      fun ⟨hc, _, hrole, hlt, hcall⟩ => ⟨hc, ⟨hlt, hrole⟩, hcall⟩⟩
  have hsorted := sorted_rows t s fun a =>
    a.seq < r.seq && a.role = "assistant" && (toolCallIds a.envelope.content).contains id
  constructor
  · intro ha
    refine ⟨(hmem c).mp (mem_of_getLast? ha), fun c' hc' => ?_⟩
    exact Int.ofNat_le.mp (hsorted.le_getLast ha c' ((hmem c').mpr hc'))
  rintro ⟨hc, hnewest⟩
  obtain ⟨a, ha⟩ : ∃ a, assistantOf t s r id = some a :=
    ⟨_, getLast?_eq_some_getLast (ne_nil_of_mem ((hmem c).mpr hc))⟩
  have hra := (hmem a).mp (mem_of_getLast? ha)
  have hle : c.seq ≤ a.seq := Int.ofNat_le.mp (hsorted.le_getLast ha c ((hmem c).mpr hc))
  have hseq : c.seq = a.seq := Nat.le_antisymm hle (hnewest a hra)
  have hsame : c = a := inj_on_of_nodup_map (t.seqs_ofSession s) hc.1 hra.1 hseq
  rw [ha, hsame]

/-- **A backward page begins at the call of its window's first entry.** -/
theorem pageStart_le_iff (h : first ∈ displayRows t s) (seq : Nat) :
    pageStart t s first ≤ seq ↔ FromCall t s first seq := by
  have hfirst := (mem_displayRows.mp h).1
  have hself : pageStart t s first = first.seq → (∀ c, ¬ Answers t s c first) →
      (pageStart t s first ≤ seq ↔ FromCall t s first seq) := by
    intro hstart hnone
    rw [hstart]
    constructor
    · exact Or.inl
    rintro (hle | ⟨c, hc, -⟩)
    · exact hle
    · exact absurd hc (hnone c)
  cases hid : first.envelope.toolCallId with
  | none =>
    apply hself
    · unfold pageStart
      split
      next hm =>
        rw [toolCallId_of_toolResult hm] at hid
        cases hid
      · rfl
    · rintro c ⟨⟨-, -, -, -, id, hcall, -⟩, -⟩
      cases hid.symm.trans hcall
  | some id =>
    obtain ⟨name, content, isError, ts, ts', he⟩ := envelope_of_toolCallId hid
    have hm : parsePersistedMessage first.envelope = some (.toolResult id name content isError ts) := he ▸ rfl
    cases ha : assistantOf t s first id with
    | none =>
      apply hself
      · rw [pageStart, hm]
        simp [ha]
      intro c hc
      rw [(assistantOf_iff hfirst hid).mpr hc] at ha
      cases ha
    | some a =>
      have hstart : pageStart t s first = a.seq := by
        rw [pageStart, hm]
        simp [ha]
      have hanswers := (assistantOf_iff hfirst hid).mp ha
      rw [hstart]
      constructor
      · intro hle
        exact Or.inr ⟨a, hanswers, hle⟩
      rintro (hle | ⟨c, hc, hle⟩)
      · exact Nat.le_trans (Nat.le_of_lt hanswers.1.2.2.2.1) hle
      · exact Nat.le_trans (hc.2 a hanswers.1) hle

/-! ## Boundaries -/

theorem endsWhole_iff {after : Int} (h : (windowAfter t s limit after).getLast? = some last) :
    EndsWhole t s limit after ↔ Uncrossed t s (pageEnd t s last + 1) := by
  have hlast := (windowAfter_eq h).1
  have hkey : ∀ r : Row, r.key < pageEnd t s last + 1 ↔ ThroughResults t s last r.seq := by
    intro r
    rw [← le_pageEnd_iff hlast, Int.lt_add_one_iff]
    exact Int.ofNat_le
  constructor
  · intro hends c r hcr hc
    exact (hkey r).mpr (hends last h c r hcr ((hkey c).mp hc))
  intro hun last' hlast' c r hcr hc
  cases h.symm.trans hlast'
  exact (hkey r).mp (hun c r hcr ((hkey c).mpr hc))

theorem beginsWhole_iff {before : Int} (h : (windowBefore t s limit before).head? = some first) :
    BeginsWhole t s limit before ↔ Uncrossed t s (pageStart t s first) := by
  have hfirst := (windowBefore_eq h).1
  have hkey : ∀ r : Row, r.key < pageStart t s first ↔ ¬ FromCall t s first r.seq := by
    intro r
    rw [← pageStart_le_iff hfirst, Nat.not_le]
    exact Int.ofNat_lt
  constructor
  · intro hbegins c r hcr hc
    rw [hkey] at hc ⊢
    exact fun hr => hc (hbegins first h c r hcr hr)
  intro hun first' hfirst' c r hcr hr
  cases h.symm.trans hfirst'
  by_contra hc
  exact (hkey r).mp (hun c r hcr ((hkey c).mpr hc)) hr

theorem shown_iff {p : Row → Bool} (hr : r ∈ displayRows t s) :
    (∃ e ∈ entriesOf t s p, e.seq = r.seq) ↔ p r = true := by
  constructor
  · rintro ⟨e, he, hseq⟩
    obtain ⟨r', hr', he', -⟩ := mem_entriesOf he
    obtain ⟨hdisplay, hp⟩ := mem_queryDisplayRows.mp hr'
    have hsame : r' = r := by
      apply inj_on_of_nodup_map (t.seqs_ofSession s) (mem_displayRows.mp hdisplay).1 (mem_displayRows.mp hr).1
      rw [← he', hseq]
    exact hsame ▸ hp
  · intro hp
    exact entriesOf_mem (mem_queryDisplayRows.mpr ⟨hr, hp⟩)

theorem whole_iff {lo hi : Int} {p : Row → Bool} (hitems : page.items = entriesOf t s p)
    (hp : ∀ r, p r = true ↔ lo ≤ r.key ∧ r.key < hi) :
    Whole t s page ↔ ∀ c r, Answers t s c r → (lo ≤ c.key ∧ c.key < hi ↔ lo ≤ r.key ∧ r.key < hi) := by
  constructor
  · intro h c r hcr
    have hshown := h c r hcr
    rw [hitems, shown_iff hcr.1.displays.1, shown_iff hcr.1.displays.2, hp, hp] at hshown
    exact hshown
  · intro h c r hcr
    rw [hitems, shown_iff hcr.1.displays.1, shown_iff hcr.1.displays.2, hp, hp]
    exact h c r hcr

theorem Answers.lt (h : Answers t s c r) : c.key < r.key := Int.ofNat_lt.mpr h.1.2.2.2.1

/-- **A page with one boundary uncrossed is whole where the other is.** -/
theorem whole_iff_low {lo hi : Int} {p : Row → Bool} (hitems : page.items = entriesOf t s p)
    (hp : ∀ r, p r = true ↔ lo ≤ r.key ∧ r.key < hi) (hle : lo ≤ hi) (hhi : Uncrossed t s hi) :
    Whole t s page ↔ Uncrossed t s lo := by
  rw [whole_iff hitems hp]
  constructor
  · intro h c r hcr hc
    have hr := hhi c r hcr (lt_of_lt_of_le hc hle)
    by_contra hlo
    exact absurd ((h c r hcr).mpr ⟨Int.not_lt.mp hlo, hr⟩).1 (not_le_of_gt hc)
  · intro hlo c r hcr
    constructor
    · rintro ⟨hc, hc'⟩
      exact ⟨le_of_lt (lt_of_le_of_lt hc hcr.lt), hhi c r hcr hc'⟩
    rintro ⟨hr, hr'⟩
    refine ⟨?_, lt_trans hcr.lt hr'⟩
    by_contra hc
    exact absurd (hlo c r hcr (Int.not_le.mp hc)) (not_lt_of_ge hr)

theorem whole_iff_high {lo hi : Int} {p : Row → Bool} (hitems : page.items = entriesOf t s p)
    (hp : ∀ r, p r = true ↔ lo ≤ r.key ∧ r.key < hi) (hle : lo ≤ hi) (hlo : Uncrossed t s lo) :
    Whole t s page ↔ Uncrossed t s hi := by
  constructor
  · intro h c r hcr hc
    by_contra hr
    have hlow : lo ≤ c.key := by
      by_contra hcl
      have hrl := hlo c r hcr (Int.not_le.mp hcl)
      exact hr (lt_of_lt_of_le hrl hle)
    exact hr (((whole_iff hitems hp).mp h c r hcr).mp ⟨hlow, hc⟩).2
  · intro hhi
    exact (whole_iff_low hitems hp hle hhi).mpr hlo

theorem whole_nil (hitems : page.items = []) : Whole t s page := by
  intro c r _
  rw [hitems]
  simp

/-- Nothing crosses a boundary with no entry from it on, or none before it. -/
theorem uncrossed_above {boundary : Int} (h : ∀ r ∈ displayRows t s, r.key < boundary) :
    Uncrossed t s boundary := fun _ r hcr _ => h r hcr.1.displays.2

theorem uncrossed_below {boundary : Int} (h : ∀ r ∈ displayRows t s, boundary ≤ r.key) : Uncrossed t s boundary :=
  fun c _ hcr hc => absurd hc (not_lt_of_ge (h c hcr.1.displays.1))

/-! ## Walks -/

/-- **The pages of a backward walk are whole exactly where its windows say.** -/
theorem backwardWalk_whole (hlimit : 0 < limit) {fuel : Nat} {b : Option Int} {walk : Walk}
    (h : backwardWalk t s limit fuel ⟨b, none⟩ = some walk) :
    (∀ p ∈ walk, Whole t s p.2) ↔ Uncrossed t s (b.getD MAX_SAFE_INTEGER) ∧
      ∀ p ∈ walk, BeginsWhole t s limit p.1.before := by
  induction fuel generalizing b walk with
  | zero => cases h
  | succ fuel ih =>
    obtain ⟨page, hload, hpage⟩ := backward_step (t := t) (s := s) hlimit b
    rw [backwardWalk, hload, Option.bind_some] at h
    -- the boundary below the page, and what its being uncrossed says of the page
    have hstep : ∀ first, (windowBefore t s limit (b.getD MAX_SAFE_INTEGER)).head? = some first →
        page.items = entriesOf t s (fun r => pageStart t s first ≤ r.key && r.key < b.getD MAX_SAFE_INTEGER) →
        Uncrossed t s (pageStart t s first) →
        (Whole t s page ↔ Uncrossed t s (b.getD MAX_SAFE_INTEGER)) := by
      intro first hwindow hitems hun
      obtain ⟨hfirst, hbefore, -⟩ := windowBefore_eq hwindow
      have hle : (pageStart t s first : Int) ≤ first.key := Int.ofNat_le.mpr (pageStart_mem hfirst).1
      refine whole_iff_high hitems (fun r => ?_) (le_of_lt (lt_of_le_of_lt hle hbefore)) hun
      rw [Bool.and_eq_true, decide_eq_true_eq, decide_eq_true_eq]
    cases hpage with
    | nothing hdone hitems hcursor =>
      simp only [hcursor, Option.some.injEq] at h
      subst h
      have hnil : windowBefore t s limit (b.getD MAX_SAFE_INTEGER) = [] := by
        rw [windowBefore, queryDisplayRows, filter_eq_nil_iff.mpr]
        · rw [reverse_nil, take_nil, reverse_nil]
        · intro r hr hlt
          exact absurd (of_decide_eq_true hlt) (not_lt_of_ge (hdone r hr))
      simp only [forall_mem_singleton]
      refine ⟨fun _ => ⟨uncrossed_below hdone, fun first hfirst => ?_⟩, fun _ => whole_nil hitems⟩
      rw [MessagePagePosition.before, hnil] at hfirst
      cases hfirst
    | last first hwindow hitems hdone hcursor =>
      simp only [hcursor, Option.some.injEq] at h
      subst h
      have hun : Uncrossed t s (pageStart t s first) := uncrossed_below fun r hr => Int.ofNat_le.mpr (hdone r hr)
      simp only [forall_mem_singleton]
      rw [hstep first hwindow hitems hun, MessagePagePosition.before, beginsWhole_iff hwindow]
      exact ⟨fun hb => ⟨hb, hun⟩, fun hb => hb.1⟩
    | more first hwindow hitems hcursor =>
      simp only [hcursor] at h
      obtain ⟨beforeSeq, hseq, h⟩ := Option.bind_eq_some_iff.mp h
      obtain ⟨rest, hrest, rfl⟩ := Option.map_eq_some_iff.mp h
      obtain rfl := parseDisplayCursor_eq hseq
      simp only [forall_mem_cons]
      rw [ih hrest, MessagePagePosition.before, beginsWhole_iff hwindow, Option.getD_some]
      constructor
      · rintro ⟨hwhole, hun, hends⟩
        exact ⟨(hstep first hwindow hitems hun).mp hwhole, hun, hends⟩
      · rintro ⟨hb, hun, hends⟩
        exact ⟨(hstep first hwindow hitems hun).mpr hb, hun, hends⟩

/-- **The same of a forward walk.** -/
theorem forwardWalk_whole (hlimit : 0 < limit) {fuel : Nat} {b : Option Int} {after : Int}
    {walk : Walk} (h : forwardWalk t s limit fuel ⟨b, some after⟩ = some walk) :
    (∀ p ∈ walk, Whole t s p.2) ↔ Uncrossed t s (after + 1) ∧
      ∀ p ∈ walk, ∀ a ∈ p.1.afterSeq, EndsWhole t s limit a := by
  induction fuel generalizing b after walk with
  | zero => cases h
  | succ fuel ih =>
    obtain ⟨page, hload, hpage⟩ := forward_step (t := t) (s := s) hlimit b after
    rw [forwardWalk, hload, Option.bind_some] at h
    have hstep : ∀ last, (windowAfter t s limit after).getLast? = some last →
        page.items = entriesOf t s (fun r => after < r.key && r.key ≤ pageEnd t s last) →
        Uncrossed t s (pageEnd t s last + 1) →
        (Whole t s page ↔ Uncrossed t s (after + 1)) := by
      intro last hwindow hitems hun
      obtain ⟨hlast, hafter, -⟩ := windowAfter_eq hwindow
      have hle : last.key ≤ (pageEnd t s last : Int) := Int.ofNat_le.mpr (pageEnd_mem hlast).1
      refine whole_iff_low hitems (fun r => ?_) (by omega) hun
      rw [Bool.and_eq_true, decide_eq_true_eq, decide_eq_true_eq]
      omega
    cases hpage with
    | nothing hdone hitems hnext =>
      rw [if_neg (Bool.eq_false_iff.mp hnext)] at h
      cases h
      have hnil : windowAfter t s limit after = [] := by
        rw [windowAfter, queryDisplayRows, filter_eq_nil_iff.mpr]
        · exact take_nil
        · intro r hr hlt
          exact absurd (of_decide_eq_true hlt) (not_lt_of_ge (hdone r hr))
      have hun : Uncrossed t s (after + 1) := uncrossed_above fun r hr => Int.lt_add_one_iff.mpr (hdone r hr)
      simp only [forall_mem_singleton]
      refine ⟨fun _ => ⟨hun, ?_⟩, fun _ => whole_nil hitems⟩
      intro a ha last hlast
      cases ha
      rw [hnil] at hlast
      cases hlast
    | last last hwindow hitems hdone hnext =>
      rw [if_neg (Bool.eq_false_iff.mp hnext)] at h
      cases h
      have hun : Uncrossed t s (pageEnd t s last + 1) :=
        uncrossed_above fun r hr => Int.lt_add_one_iff.mpr (Int.ofNat_le.mpr (hdone r hr))
      simp only [forall_mem_singleton]
      rw [hstep last hwindow hitems hun]
      refine ⟨fun ha => ⟨ha, ?_⟩, fun ha => ha.1⟩
      intro a ha'
      cases ha'
      exact (endsWhole_iff hwindow).mpr hun
    | more last hwindow hitems hnext hcursor =>
      rw [if_pos hnext, hcursor, Option.bind_some] at h
      obtain ⟨afterSeq, hseq, h⟩ := Option.bind_eq_some_iff.mp h
      obtain ⟨rest, hrest, rfl⟩ := Option.map_eq_some_iff.mp h
      obtain rfl := parseDisplayCursor_eq hseq
      simp only [forall_mem_cons]
      rw [ih hrest]
      constructor
      · rintro ⟨hwhole, hun, hends⟩
        refine ⟨(hstep last hwindow hitems hun).mp hwhole, ?_, hends⟩
        intro a ha'
        cases ha'
        exact (endsWhole_iff hwindow).mpr hun
      · rintro ⟨hafter, hends, hrest⟩
        have hun := (endsWhole_iff hwindow).mp (hends after rfl)
        exact ⟨(hstep last hwindow hitems hun).mpr hafter, hun, hrest⟩

/-- **The pages of a walk keep calls and results together exactly where its first cursor and the ends
of its windows do.** -/
theorem walk_whole_iff (t : SessionMessages) (s : SessionId) (limit : Nat) (hlimit : 0 < limit) :
    (∀ fuel b walk, backwardWalk t s limit fuel ⟨b, none⟩ = some walk →
      ((∀ p ∈ walk, Whole t s p.2) ↔ Uncrossed t s (b.getD MAX_SAFE_INTEGER) ∧
        ∀ p ∈ walk, BeginsWhole t s limit p.1.before)) ∧
    ∀ fuel after walk, forwardWalk t s limit fuel ⟨none, some after⟩ = some walk →
      ((∀ p ∈ walk, Whole t s p.2) ↔ Uncrossed t s (after + 1) ∧
        ∀ p ∈ walk, ∀ a ∈ p.1.afterSeq, EndsWhole t s limit a) :=
  ⟨fun _ _ _ h => backwardWalk_whole hlimit h, fun _ _ _ h => forwardWalk_whole hlimit h⟩

end

/-! ### A message with two calls -/

def callRow : Row :=
  ⟨1, "s", 1, none, "a", .message (.message (.assistant
    [.toolCall "x" "bash" .null, .toolCall "y" "bash" .null] (some "toolUse") 0)) 0⟩

def resultRow (seq : Nat) (entry : EntryId) (call : String) : Row :=
  ⟨seq, "s", seq, some (seq - 1), entry, .message (.message (.toolResult call "bash" [.text "done"] false 0)) 0⟩

def twoCalls : SessionMessages where
  rows := [callRow, resultRow 2 "b" "x", resultRow 3 "c" "y"]
  nextId := 4
  below := by decide
  ids := by decide
  seqs := by decide
  harnessIds := by decide

theorem displayRows_twoCalls : displayRows twoCalls "s" = twoCalls.rows := mergeSort_of_pairwise (by decide)

theorem answers_twoCalls : Answers twoCalls "s" callRow (resultRow 3 "c" "y") := by
  refine ⟨⟨?_, ?_, rfl, by decide, "y", rfl, by decide⟩, ?_⟩
  · exact SessionMessages.mem_ofSession.mpr ⟨mem_cons_self, rfl⟩
  · exact SessionMessages.mem_ofSession.mpr ⟨by simp [twoCalls], rfl⟩
  · rintro c' ⟨hc', -, hrole, -⟩
    have hrow := (SessionMessages.mem_ofSession.mp hc').1
    simp only [twoCalls, mem_cons, not_mem_nil, or_false] at hrow
    rcases hrow with rfl | rfl | rfl
    · exact Nat.le_refl _
    · exact absurd hrole (by decide)
    · exact absurd hrole (by decide)

theorem safe_twoCalls : SafeSeqs twoCalls "s" := by
  intro r hr
  have hrow := (SessionMessages.mem_ofSession.mp hr).1
  simp only [twoCalls, mem_cons, not_mem_nil, or_false] at hrow
  rcases hrow with rfl | rfl | rfl <;> decide

/-- A page of one entry is extended from the message to both results. -/
theorem walk_whole_iff_twoCalls : 0 < 1 ∧ ∃ fuel walk, forwardWalk twoCalls "s" 1 fuel ⟨none, some 0⟩ = some walk ∧
      ∀ p ∈ walk, Whole twoCalls "s" p.2 := by
  obtain ⟨page, hload, hpage⟩ := forward_step (t := twoCalls) (s := "s") Nat.one_pos none 0
  have hwindow : (windowAfter twoCalls "s" 1 0).getLast? = some callRow := by
    rw [windowAfter, queryDisplayRows, displayRows_twoCalls]
    rfl
  have hthrough : ∀ r ∈ displayRows twoCalls "s", ThroughResults twoCalls "s" callRow r.seq := by
    intro r hr
    refine Or.inr ⟨_, answers_twoCalls.1, ?_⟩
    rw [displayRows_twoCalls] at hr
    simp only [twoCalls, mem_cons, not_mem_nil, or_false] at hr
    rcases hr with rfl | rfl | rfl <;> decide
  have hends : EndsWhole twoCalls "s" 1 0 := by
    intro last hlast c r hcr _
    cases hwindow.symm.trans hlast
    exact hthrough r hcr.1.displays.2
  have hdone : ∀ r ∈ displayRows twoCalls "s", r.seq ≤ pageEnd twoCalls "s" callRow := by
    intro r hr
    exact (le_pageEnd_iff (windowAfter_eq hwindow).1 r.seq).mpr (hthrough r hr)
  have hnext : page.pageInfo.hasNextPage = false := by
    obtain ⟨page', hload', -, hnext, -⟩ := load_after none hwindow
    cases hload.symm.trans hload'
    rw [hnext]
    exact presentRow_false.mpr fun r hr => decide_eq_false (Nat.not_lt.mpr (hdone r hr))
  have hwalk : forwardWalk twoCalls "s" 1 1 ⟨none, some 0⟩ = some [(⟨none, some 0⟩, page)] := by
    rw [forwardWalk, hload, Option.bind_some, if_neg (Bool.eq_false_iff.mp hnext)]
  refine ⟨Nat.one_pos, 1, _, hwalk, ?_⟩
  apply ((walk_whole_iff twoCalls "s" 1 Nat.one_pos).2 1 0 _ hwalk).mpr
  constructor
  · apply uncrossed_below
    intro r hr
    rw [displayRows_twoCalls] at hr
    simp only [twoCalls, mem_cons, not_mem_nil, or_false] at hr
    rcases hr with rfl | rfl | rfl <;> decide
  · simp only [forall_mem_singleton]
    intro a ha
    cases ha
    exact hends

/-- A page of two ends on the first of the results, and the second is on the next. -/
theorem results_separated : ¬ ∀ fuel walk, forwardWalk twoCalls "s" 2 fuel ⟨none, some 0⟩ = some walk →
      ∀ p ∈ walk, Whole twoCalls "s" p.2 := by
  intro h
  obtain ⟨fuel, walk, hwalk, -⟩ := forwardWalk_ends Nat.two_pos safe_twoCalls none 0
  have hwindow : (windowAfter twoCalls "s" 2 0).getLast? = some (resultRow 2 "b" "x") := by
    rw [windowAfter, queryDisplayRows, displayRows_twoCalls]
    rfl
  obtain ⟨page, hpage⟩ := forwardWalk_head hwalk
  have hends := ((forwardWalk_whole Nat.two_pos hwalk).mp (h fuel walk hwalk)).2 _ hpage 0 rfl
  have hthrough := hends _ hwindow _ _ answers_twoCalls (Or.inl (by decide))
  rcases hthrough with hle | ⟨r, hr, -⟩
  · exact absurd hle (by decide)
  · exact absurd hr.2.2.1 (by decide)

end Reins.Store
