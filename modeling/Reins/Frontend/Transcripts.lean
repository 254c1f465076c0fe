import Reins.Frontend.HeldEntries
import Reins.Lib.Places

/-!
# What a browser holds of a transcript

What has been read of a session is known by its two cursors: all that is stored from the first entry held up to the
entry the sync has read to. Pages keep it so where they join what is held. Entries past that come as events, and
a sync that resolves has read past all of them if those stored since its last answer have come.
-/

namespace Reins.MessageSyncs

open Chat Conversations List Run
open Store (ConversationEntry)

/-! ## What has been read -/

def AtEntry (stored : List ConversationEntry) (cursor : Option Nat) : Prop :=
  ∀ k, cursor = some k → ∃ e ∈ stored, e.seq = k

def Reading (stored : List ConversationEntry) (v : View) : Prop :=
  match v.latestCursor with
  | none => v.previousCursor = none
  | some c => ∃ first ∈ v.held, first.seq ≤ c ∧
      (∀ e ∈ stored, e.seq ≤ c → (e ∈ v.held ↔ first.seq ≤ e.seq)) ∧ CursorBefore stored first.seq v.previousCursor

/-- Where a sync's page joins what is held: it follows the last entry read; or it is the first that is held; or
nothing before its end is missing. -/
def Joins (stored : List ConversationEntry) (v : View) (after : Option Nat) (page : MessageRecordPage Nat) : Prop :=
  after.isSome = true ∧ v.latestCursor = after ∨ v.held = [] ∧ page.items ≠ [] ∨
    ∀ d, page.endCursor = some d → ∀ e ∈ stored, e.seq ≤ d → e ∈ v.held ∨ e ∈ page.items

section

variable {stored answered : List ConversationEntry} {v v' : View} {after : Option Nat} {before : Nat}
  {page : MessageRecordPage Nat}

theorem Ordered.exists_first (h : Ordered stored) {x : ConversationEntry} (hx : x ∈ stored) :
    ∃ first ∈ stored, ∀ e ∈ stored, first.seq ≤ e.seq := by
  cases hfirst : stored.head? with
  | none =>
    rw [head?_eq_none_iff.mp hfirst] at hx
    cases hx
  | some first => exact ⟨first, mem_of_head? hfirst, h.inOrder.head_le hfirst⟩

theorem cursorBefore_grows {first : Nat} {cursor : Option Nat} (hc : CursorBefore answered first cursor)
    (hp : answered <+: stored) (hlater : ∀ e ∈ stored, e ∈ answered ∨ first ≤ e.seq) :
    CursorBefore stored first cursor := by
  cases cursor with
  | none => exact fun e he => (hlater e he).elim (hc e) id
  | some b =>
    obtain ⟨rfl, e, he, hlt⟩ := hc
    exact ⟨rfl, e, hp.subset he, hlt⟩

theorem Reading.of_all (h : Ordered stored) {held : List ConversationEntry} {c : Nat} {x : ConversationEntry}
    (hx : x ∈ stored) (hc : x.seq = c) (hall : ∀ e ∈ stored, e.seq ≤ c → e ∈ held) :
    Reading stored ⟨held, none, some c⟩ := by
  obtain ⟨first, hfirst, hmin⟩ := h.exists_first hx
  have hle : first.seq ≤ c := hc ▸ hmin x hx
  refine ⟨first, hall first hfirst hle, hle, fun e he hec => ?_, hmin⟩
  exact ⟨fun _ => hmin e he, fun _ => hall e he hec⟩

theorem Reading.of_mem {held held' : List ConversationEntry} {previousCursor latestCursor : Option Nat}
    (hr : Reading stored ⟨held, previousCursor, latestCursor⟩) (hmem : ∀ e, e ∈ held' ↔ e ∈ held) :
    Reading stored ⟨held', previousCursor, latestCursor⟩ := by
  cases latestCursor with
  | none => exact hr
  | some c =>
    obtain ⟨first, hfirst, hle, hread, hcursor⟩ := hr
    exact ⟨first, (hmem first).mpr hfirst, hle, fun e he hec => (hmem e).trans (hread e he hec), hcursor⟩

theorem Reading.merge_nothing (h : Ordered stored) (hv : Reading stored v) (hafter : AtEntry stored after)
    (hlatest : v.latestCursor = none ∨ v.latestCursor = after) (hnext : page.endCursor = after)
    (hitems : page.items = []) (hprevious : page.previousCursor = none ∨ page.previousCursor = after)
    (hjoins : Joins stored v after page) {previousCursor : Option Nat}
    (hp : previousCursor = if v.held.isEmpty then page.previousCursor else v.previousCursor) :
    Reading stored ⟨v.held, previousCursor, after⟩ := by
  cases after with
  | none =>
    have hnone : v.latestCursor = none := hlatest.elim id id
    rw [Reading, hnone] at hv
    show previousCursor = none
    rw [hp]
    split
    · exact hprevious.elim id id
    · exact hv
  | some k =>
    rcases hlatest with hnone | hsome
    · rw [Reading, hnone] at hv
      obtain ⟨x, hx, hxk⟩ := hafter k rfl
      have hall : ∀ e ∈ stored, e.seq ≤ k → e ∈ v.held := by
        intro e he hek
        rcases hjoins with ⟨-, hsame⟩ | ⟨-, hne⟩ | hall
        · cases hnone.symm.trans hsame
        · exact absurd hitems hne
        · exact (hall k hnext e he hek).resolve_right (by simp [hitems])
      have hheld : v.held.isEmpty = false := by
        rw [isEmpty_eq_false_iff]
        exact ne_nil_of_mem (hall x hx hxk.le)
      rw [hp, hheld, if_neg Bool.false_ne_true, hv]
      exact Reading.of_all h hx hxk hall
    · rw [Reading, hsome] at hv
      obtain ⟨first, hfirst, hrest⟩ := hv
      have hheld : v.held.isEmpty = false := isEmpty_eq_false_iff.mpr (ne_nil_of_mem hfirst)
      rw [hp, hheld, if_neg Bool.false_ne_true]
      exact ⟨first, hfirst, hrest⟩

/-- **A sync's page where it joins** leaves all read from the first entry held up to the page's end. -/
theorem Reading.merge_tail (h : Ordered stored) (hpre : answered <+: stored) (hv : Reading stored v)
    (hafter : AtEntry answered after) (hlatest : v.latestCursor = none ∨ v.latestCursor = after)
    (hpage : TailPage answered after page) (hjoins : Joins stored v after page)
    (hheld : ∀ e, e ∈ v'.held ↔ e ∈ v.held ∨ e ∈ page.items)
    (hprevious : v'.previousCursor = if v.held.isEmpty then page.previousCursor else v.previousCursor)
    (hcursor : v'.latestCursor = page.endCursor) : Reading stored v' := by
  obtain ⟨held', previous', latest'⟩ := v'
  dsimp only at hheld hprevious hcursor
  cases hpage with
  | nothing hitems hend hnext hpageprev hdone =>
    have hstored : AtEntry stored after := fun k hk => (hafter k hk).imp fun e he => he.imp_left (hpre.subset ·)
    have hread := hv.merge_nothing h hstored hlatest hend hitems hpageprev hjoins hprevious
    rw [hcursor, hend]
    exact hread.of_mem fun e => by rw [hheld e, hitems]; simp
  | entries first last hfirst hlast hitems hfollows hpageprev hend hnext =>
    have hpast : ∀ e ∈ stored, e.seq ≤ last.seq → e ∈ answered := fun e he hle =>
      h.stored_of_le hpre he ((hitems last).mp hlast).1 hle
    obtain ⟨hfirst', -, hfl⟩ := (hitems first).mp hfirst
    have hlast' := hpre.subset ((hitems last).mp hlast).1
    rw [hcursor, hend]
    by_cases hcontinues : after.isSome = true ∧ v.latestCursor = after
    · -- The page follows what was read.
      obtain ⟨k, rfl⟩ := Option.isSome_iff_exists.mp hcontinues.1
      rw [Reading, hcontinues.2] at hv
      obtain ⟨f, hf, hfk, hread, hcur⟩ := hv
      obtain ⟨hkf, hnone⟩ := hfollows k rfl
      rw [isEmpty_eq_false_iff.mpr (ne_nil_of_mem hf), if_neg Bool.false_ne_true] at hprevious
      rw [hprevious]
      refine ⟨f, (hheld f).mpr (.inl hf), by omega, fun e he hel => ?_, hcur⟩
      rw [hheld e, hitems e]
      by_cases hek : e.seq ≤ k
      · rw [← hread e he hek]
        exact or_iff_left fun hin => by omega
      have hin := hpast e he hel
      have hfe := hnone e hin (Nat.lt_of_not_le hek)
      exact iff_of_true (.inr ⟨hin, hfe, hel⟩) (by omega)
    · have hlatest : v.latestCursor = none := by
        rcases hlatest with hnone | hsame
        · exact hnone
        cases after with
        | none => exact hsame
        | some k => exact absurd ⟨rfl, hsame⟩ hcontinues
      rw [Reading, hlatest] at hv
      cases hempty : v.held.isEmpty with
      | true =>
        -- The page is all that is held.
        have hnil := isEmpty_iff.mp hempty
        rw [hempty, if_pos rfl] at hprevious
        rw [hprevious]
        refine ⟨first, (hheld first).mpr (.inr hfirst), hfl, fun e he hel => ?_, ?_⟩
        · rw [hheld e, hnil, hitems e]
          simp [hpast e he hel, hel]
        · exact cursorBefore_grows hpageprev hpre fun e he =>
            (h.stored_or_later hpre he).imp id fun hlater => (hlater first hfirst').le
      | false =>
        -- Nothing before the page's end is missing.
        have hne : v.held ≠ [] := isEmpty_eq_false_iff.mp hempty
        have hall := (hjoins.resolve_left hcontinues).resolve_left fun h => hne h.1
        rw [hempty, if_neg Bool.false_ne_true, hv] at hprevious
        rw [hprevious]
        exact Reading.of_all h hlast' rfl fun e he hel => (hheld e).mpr (hall _ hend e he hel)

theorem Reading.merge_earlier (h : Ordered stored) (hpre : answered <+: stored) (hv : Reading stored v)
    (hbefore : AtEntry answered (some before)) (hfirst : v.previousCursor = some before)
    (hpage : EarlierPage answered before page) (hheld : ∀ e, e ∈ v'.held ↔ e ∈ v.held ∨ e ∈ page.items)
    (hprevious : v'.previousCursor = page.previousCursor) (hcursor : v'.latestCursor = v.latestCursor) :
    Reading stored v' := by
  obtain ⟨held', previous', latest'⟩ := v'
  dsimp only at hheld hprevious hcursor
  rw [hprevious, hcursor]
  obtain ⟨x, hx, hxb⟩ := hbefore before rfl
  rw [Reading, hfirst] at hv
  cases hlatest : v.latestCursor with
  | none =>
    rw [hlatest] at hv
    cases hv
  | some c =>
    rw [hlatest] at hv
    obtain ⟨f, hf, hfc, hread, rfl, e₀, he₀, hlt⟩ := hv
    have hpast : ∀ e ∈ stored, e.seq < f.seq → e ∈ answered := fun e he hle => h.stored_of_le hpre he hx (by omega)
    cases hpage with
    | nothing _ _ hdone => exact absurd (hdone e₀ (hpast e₀ he₀ hlt)) (Nat.not_le.mpr hlt)
    | entries first hmem hitems hpageprev =>
      obtain ⟨hstored, -, hfb⟩ := (hitems first).mp hmem
      refine ⟨first, (hheld first).mpr (.inr hmem), by omega, fun e he hec => ?_, ?_⟩
      · rw [hheld e, hread e he hec, hitems e]
        constructor
        · rintro (hfe | hin)
          · omega
          · exact hin.2.1
        intro hfe
        rcases Nat.lt_or_ge e.seq f.seq with hef | hef
        · exact .inr ⟨hpast e he hef, hfe, hef⟩
        · exact .inl hef
      · exact cursorBefore_grows hpageprev hpre fun e he =>
          (h.stored_or_later hpre he).imp id fun hlater => (hlater first hstored).le

theorem Reading.receive (hv : Reading stored v) {entry : ConversationEntry} (hentry : entry ∈ stored)
    (hinside : ∀ b, v.previousCursor = some b → b ≤ entry.seq)
    (hheld : ∀ e, e ∈ v'.held ↔ e ∈ v.held ∨ e = entry) (hprevious : v'.previousCursor = v.previousCursor)
    (hcursor : v'.latestCursor = v.latestCursor) : Reading stored v' := by
  obtain ⟨held', previous', latest'⟩ := v'
  dsimp only at hheld hprevious hcursor
  rw [hprevious, hcursor]
  rw [Reading] at hv
  cases hlatest : v.latestCursor with
  | none =>
    rw [hlatest] at hv
    exact hv
  | some c =>
    rw [hlatest] at hv
    obtain ⟨first, hfirst, hle, hread, hcur⟩ := hv
    have hin : first.seq ≤ entry.seq := by
      cases hp : v.previousCursor with
      | none =>
        rw [hp] at hcur
        exact hcur entry hentry
      | some b =>
        rw [hp] at hcur
        exact hcur.1 ▸ hinside b hp
    refine ⟨first, (hheld first).mpr (.inl hfirst), hle, fun e he hec => ?_, hcur⟩
    rw [hheld e, hread e he hec]
    exact or_iff_left_of_imp fun heq => heq ▸ hin

theorem Reading.grows (hv : Reading stored v) (hat : AtEntry stored v.latestCursor) {entry : ConversationEntry}
    (hlater : ∀ e ∈ stored, e.seq < entry.seq) (hheld : ∀ e ∈ v.held, e ∈ stored) :
    Reading (stored ++ [entry]) v := by
  rw [Reading] at hv ⊢
  cases hlatest : v.latestCursor with
  | none =>
    rw [hlatest] at hv
    exact hv
  | some c =>
    rw [hlatest] at hv
    obtain ⟨first, hfirst, hle, hread, hcur⟩ := hv
    obtain ⟨x, hx, rfl⟩ := hat c hlatest
    refine ⟨first, hfirst, hle, fun e he hec => ?_, ?_⟩
    · rcases Places.mem_concat_cases he with he | rfl
      · exact hread e he hec
      · exact absurd (hlater x hx) (Nat.not_lt.mpr hec)
    refine cursorBefore_grows hcur (prefix_append ..) fun e he => (mem_append.mp he).imp id fun he => ?_
    obtain rfl := mem_singleton.mp he
    exact (hlater first (hheld first hfirst)).le

theorem tail_cursor (h : TailPage answered after page) (hafter : AtEntry answered after) :
    AtEntry answered page.endCursor := by
  cases h with
  | nothing _ hcursor => exact hcursor ▸ hafter
  | entries _ last _ hlast hitems _ _ hcursor =>
    intro k hk
    rw [hcursor] at hk
    exact ⟨last, ((hitems last).mp hlast).1, Option.some_inj.mp hk⟩

theorem AtEntry.grows {cursor : Option Nat} (h : AtEntry answered cursor) (hp : answered <+: stored) :
    AtEntry stored cursor := fun k hk => (h k hk).imp fun _ he => he.imp_left (hp.subset ·)

end

/-! ## The invariant -/

/-- A sync goes on from where the conversation has been read to, or from where it had been before it was
pruned. -/
structure Sync.Placed (stored : List ConversationEntry) (latestCursor : Option Nat) (sync : Sync) : Prop where
  after : AtEntry stored sync.after
  latest : latestCursor = none ∨ latestCursor = sync.after
  answer : ∀ a, sync.answer = some a → AtEntry a.stored sync.after

structure Load.Placed (stored : List ConversationEntry) (load : Load) : Prop where
  before : AtEntry stored (some load.before)
  answer : ∀ a, load.answer = some a → AtEntry a.stored (some load.before)

structure Sound (s : State) : Prop extends Known s where
  latest : AtEntry s.stored s.view.latestCursor
  reading : Reading s.stored s.view
  placed : ∀ sync, s.sync = some sync → sync.Placed s.stored s.view.latestCursor
  loadsPlaced : ∀ l ∈ s.loads, l.Placed s.stored

theorem sound_init : Sound .init :=
  { known_init with latest := nofun, reading := rfl, placed := nofun, loadsPlaced := nofun }

/-- What was received when a sync resolves: of the entries stored since its last answer, those up to the newest
that is held, and those a caller's sync is to bring after the entries of pages. -/
def State.CaughtUp (s : State) (answer : Answer) (callers : List Caller) : Prop :=
  ∀ e ∈ s.stored, e ∉ answer.stored → ((∃ x ∈ s.held, e.seq ≤ x.seq) ∨
      (∃ x ∈ s.loaded ++ answer.page.items, x.seq ≤ e.seq) ∧ ∃ c ∈ callers, e ∈ c.stored) → e ∈ s.held

/-- The steps that keep what is held without a gap. -/
def InStep (s : State) : Event → Prop
  | .entryReceived place _ => ∀ e, s.stored[place]? = some e → ∀ b, s.view.previousCursor = some b → b ≤ e.seq
  | .syncMerged _ => ∀ after answer callers, s.arrived = some (after, answer, callers) →
      Joins s.stored s.view after answer.page ∧ (answer.page.hasNextPage = false → s.CaughtUp answer callers)
  | .earlierMerged load => ∀ before answer, s.loads[load]? = some ⟨before, some answer⟩ →
      s.view.previousCursor = some before ∨
        s.view.previousCursor = answer.page.previousCursor ∧ ∀ e ∈ answer.page.items, e ∈ s.held
  | _ => True

/-- What a sync that succeeds is to leave, for those that called it. -/
structure Complete (s : State) (callers : List Caller) : Prop where
  /-- All that was stored at a call, from the oldest entry of the loaded pages on. -/
  held : ∀ c ∈ callers, ∀ e ∈ c.stored, (∃ x ∈ s.loaded, x.seq ≤ e.seq) → e ∈ s.held
  contiguous : s.held <:+: s.stored
  /-- `hasEarlierMessages`. -/
  earlier : s.view.previousCursor.isSome = true ↔ ∃ first, s.held.head? = some first ∧ ∃ e ∈ s.stored, e.seq < first.seq

/-- A step in which `syncMessages` resolves true leaves what it is to. -/
def Synced (locale : Collation) (s : State) : Event → Prop
  | .syncMerged restoreError => ∀ after answer callers, s.arrived = some (after, answer, callers) →
      answer.page.hasNextPage = false → Complete (step locale s (.syncMerged restoreError)) callers
  | _ => True

section

variable {locale : Collation} {s s' : State}

theorem Sound.same (h : Sound s) (hs : Same s s') : Sound s' := by
  refine { h.toKnown.same hs with latest := ?_, reading := ?_, placed := fun x hx => ?_, loadsPlaced := ?_ }
  · rw [hs.view, hs.stored]
    exact h.latest
  · rw [hs.view, hs.stored]
    exact h.reading
  · rw [hs.view, hs.stored]
    cases hs.sync x hx with
    | joined sync was after answer _ =>
      have hplaced := h.placed sync was
      exact ⟨after ▸ hplaced.after, after ▸ hplaced.latest, fun a ha => after ▸ hplaced.answer a (answer ▸ ha)⟩
    | begun after answer _ =>
      refine ⟨after ▸ h.latest, .inr after.symm, fun a ha => ?_⟩
      cases answer.symm.trans ha
  · rw [hs.loads, hs.stored]
    exact h.loadsPlaced

theorem Sound.previous_atEntry (h : Sound s) {before : Nat} (hbefore : s.view.previousCursor = some before) :
    AtEntry s.stored (some before) := by
  have hreading := h.reading
  rw [Reading, hbefore] at hreading
  split at hreading
  · cases hreading
  obtain ⟨first, hfirst, -, -, rfl, -⟩ := hreading
  intro k hk
  exact ⟨first, h.held first hfirst, Option.some_inj.mp hk⟩

/-! ## A page of a sync -/

section

variable {after : Option Nat} {answer : Answer} {callers : List Caller}

theorem Sound.reads (locale : Collation) (h : Sound s) (harrived : s.arrived = some (after, answer, callers))
    (hjoins : Joins s.stored s.view after answer.page) (restoreError : Bool) :
    Reading s.stored (s.merge locale answer.page false restoreError).view := by
  have hplaced := h.placed _ (arrived_eq harrived)
  obtain ⟨hprior, hpage⟩ := h.answered harrived
  exact h.reading.merge_tail h.stored hprior (hplaced.answer answer rfl) hplaced.latest hpage hjoins
    (h.mem_merge locale harrived restoreError) rfl rfl

theorem Sound.mergeTail (h : Sound s) (harrived : s.arrived = some (after, answer, callers))
    (hjoins : Joins s.stored s.view after answer.page) (restoreError : Bool) (sync : Option Sync)
    (hsync : ∀ x, sync = some x → x = ⟨answer.page.endCursor, none, callers⟩) :
    Sound { s.merge locale answer.page false restoreError with sync := sync } := by
  have hknown := h.toKnown.mergeTail locale harrived restoreError sync fun x hx => by
    rw [hsync x hx]
    exact ⟨rfl, rfl⟩
  obtain ⟨hprior, hpage⟩ := h.answered harrived
  have hcursor : AtEntry s.stored answer.page.endCursor :=
    (tail_cursor hpage ((h.placed _ (arrived_eq harrived)).answer answer rfl)).grows hprior
  refine { hknown with
    latest := hcursor
    reading := h.reads locale harrived hjoins restoreError
    placed := fun x hx => ?_
    loadsPlaced := h.loadsPlaced }
  rw [hsync x hx]
  exact ⟨hcursor, .inr rfl, nofun⟩

theorem Sound.syncMerged (h : Sound s) {restoreError : Bool} (hstep : InStep s (.syncMerged restoreError)) :
    Sound (s.syncMerged locale restoreError) := by
  unfold State.syncMerged
  split
  · exact h
  next after answer callers harrived =>
  have hjoins := (hstep after answer callers harrived).1
  dsimp only
  split
  · exact (h.mergeTail harrived hjoins restoreError none nofun).same (synced_same locale _ callers)
  split
  · exact h.mergeTail harrived hjoins restoreError none nofun
  · exact h.mergeTail harrived hjoins restoreError (some _) fun x hx => (Option.some_inj.mp hx).symm

theorem Sound.nothing_missing (locale : Collation) (h : Sound s) (harrived : s.arrived = some (after, answer, callers))
    (hjoins : Joins s.stored s.view after answer.page) (hnext : answer.page.hasNextPage = false)
    (hcaught : s.CaughtUp answer callers) (restoreError : Bool) :
    ∀ e ∈ s.stored, (∃ x ∈ (s.merge locale answer.page false restoreError).held, x.seq ≤ e.seq) →
      ((∃ x ∈ (s.merge locale answer.page false restoreError).held, e.seq ≤ x.seq) ∨
        (∃ x ∈ s.loaded ++ answer.page.items, x.seq ≤ e.seq) ∧ ∃ c ∈ callers, e ∈ c.stored) →
      e ∈ (s.merge locale answer.page false restoreError).held := by
  obtain ⟨hprior, hpage⟩ := h.answered harrived
  have hmerged := h.toKnown.mergeTail locale harrived restoreError none nofun
  have hmem := h.mem_merge locale harrived restoreError
  rintro e he ⟨x, hx, hxe⟩ hup
  by_cases hanswered : e ∈ answer.stored
  · -- The page was read past it.
    obtain ⟨c, hc, hec⟩ := tail_last hpage hnext e hanswered
    have hread := h.reads locale harrived hjoins restoreError
    rw [Reading, show (s.merge locale answer.page false restoreError).view.latestCursor = some c from hc] at hread
    obtain ⟨first, -, -, hheld, -⟩ := hread
    have hfirst := (hheld x (hmerged.held x hx) (hxe.trans hec)).mp hx
    exact (hheld e he hec).mpr (hfirst.trans hxe)
  · refine (hmem e).mpr (.inl (hcaught e he hanswered (hup.imp_left ?_)))
    rintro ⟨y, hy, hey⟩
    refine ⟨y, ((hmem y).mp hy).resolve_right fun hin => hanswered ?_, hey⟩
    exact h.stored.stored_of_le hprior he (tail_stored hpage y hin) hey

/-- **A sync that succeeds is complete**, where what was stored since its last answer has come. -/
theorem Sound.complete (locale : Collation) (h : Sound s) (harrived : s.arrived = some (after, answer, callers))
    (hjoins : Joins s.stored s.view after answer.page) (hnext : answer.page.hasNextPage = false)
    (hcaught : s.CaughtUp answer callers) (restoreError : Bool) :
    Complete (s.merge locale answer.page false restoreError) callers := by
  have hmerged := h.toKnown.mergeTail locale harrived restoreError none nofun
  have hmem := h.mem_merge locale harrived restoreError
  have hall := h.nothing_missing locale harrived hjoins hnext hcaught restoreError
  refine ⟨fun c hc e he ⟨x, hx, hxe⟩ => ?_, ?_, ?_⟩
  · exact hall e ((h.sync _ (arrived_eq harrived)).callers c hc e he) ⟨x, hmerged.loaded x hx, hxe⟩ (.inr ⟨⟨x, hx, hxe⟩, c, hc, he⟩)
  · refine h.stored.inOrder.infix_of_convex hmerged.inOrder hmerged.held fun e he a ha b hb hae heb => ?_
    exact hall e he ⟨a, ha, hae⟩ (.inl ⟨b, hb, heb⟩)
  · have hread := h.reads locale harrived hjoins restoreError
    rw [Reading] at hread
    cases hlatest : (s.merge locale answer.page false restoreError).view.latestCursor with
    | none =>
      -- Nothing was stored when it was answered.
      rw [hlatest] at hread
      rw [hread]
      refine iff_of_false Bool.false_ne_true ?_
      rintro ⟨first, hfirst, e, he, hlt⟩
      obtain ⟨-, hpage⟩ := h.answered harrived
      have hnone : ∀ x, x ∉ answer.stored := fun x hx => by
        obtain ⟨c, hc, -⟩ := tail_last hpage hnext x hx
        cases hlatest.symm.trans hc
      have hfirst' := ((hmem first).mp (mem_of_head? hfirst)).resolve_right fun hin =>
        hnone first (tail_stored hpage first hin)
      have he' := hcaught e he (hnone e) (.inl ⟨first, hfirst', hlt.le⟩)
      exact absurd (hmerged.inOrder.head_le hfirst e ((hmem e).mpr (.inl he'))) (Nat.not_le.mpr hlt)
    | some c =>
      rw [hlatest] at hread
      obtain ⟨f, hf, hfc, hheld, hcursor⟩ := hread
      obtain ⟨first, hfirst⟩ : ∃ first, (s.merge locale answer.page false restoreError).held.head? = some first :=
        ⟨_, head?_eq_some_head (ne_nil_of_mem hf)⟩
      have hmin := hmerged.inOrder.head_le hfirst f hf
      have hseq : first.seq = f.seq := by
        refine le_antisymm hmin ?_
        have hstored := hmerged.held first (mem_of_head? hfirst)
        exact (hheld first hstored (hmin.trans hfc)).mp (mem_of_head? hfirst)
      cases hprevious : (s.merge locale answer.page false restoreError).view.previousCursor with
      | none =>
        rw [hprevious] at hcursor
        refine iff_of_false Bool.false_ne_true ?_
        rintro ⟨x, hx, e, he, hlt⟩
        cases hfirst.symm.trans hx
        exact absurd (hcursor e he) (Nat.not_le.mpr (hseq ▸ hlt))
      | some b =>
        rw [hprevious] at hcursor
        obtain ⟨-, e, he, hlt⟩ := hcursor
        exact iff_of_true rfl ⟨first, hfirst, e, he, hseq ▸ hlt⟩

end

/-! ## Every step -/

theorem Sound.store (h : Sound s) {entry : ConversationEntry} {message : Option Nat}
    (hnew : ∀ e ∈ s.stored, e.seq < entry.seq ∧ e.id ≠ entry.id) :
    Sound { s with
      stored := s.stored ++ [entry]
      savedAs := fun m => if message = some m then some entry.id else s.savedAs m } := by
  have hgrows : s.stored <+: s.stored ++ [entry] := prefix_append ..
  exact
    { h.toKnown.store hnew with
      latest := h.latest.grows hgrows
      reading := h.reading.grows h.latest (fun e he => (hnew e he).1) h.held
      placed := fun x hx => { h.placed x hx with after := (h.placed x hx).after.grows hgrows }
      loadsPlaced := fun l hl => { h.loadsPlaced l hl with before := (h.loadsPlaced l hl).before.grows hgrows } }

theorem Sound.entryReceived (h : Sound s) {entry : ConversationEntry} {seq : Nat} (hentry : entry ∈ s.stored)
    (hinside : ∀ b, s.view.previousCursor = some b → b ≤ entry.seq) :
    Sound { s with conversation := s.conversation.applyEvent locale (.entryAdded entry) seq } := by
  have hview := entryReceived_view locale s entry seq
  have hincoming : ∀ e ∈ [entry], e ∈ s.stored := fun e he => mem_singleton.mp he ▸ hentry
  have hmem := (upsertEntries_spec locale h.stored h.held hincoming).2
  have hlatest := congrArg View.latestCursor hview
  refine { h.toKnown.entryReceived hentry with
    latest := ?_, reading := ?_, placed := ?_, loadsPlaced := h.loadsPlaced }
  · rw [hlatest]
    exact h.latest
  · rw [hview]
    exact h.reading.receive hentry hinside (fun e => by rw [hmem e, mem_singleton]; rfl) rfl rfl
  · rw [hlatest]
    exact h.placed

theorem Sound.earlierMerged (h : Sound s) {load : Nat} (hstep : InStep s (.earlierMerged load)) :
    Sound (s.earlierMerged locale load) := by
  have hknown := h.toKnown.earlierMerged locale load
  unfold State.earlierMerged at hknown ⊢
  split at hknown
  · next before answer hload =>
    obtain ⟨hprior, hpage⟩ := h.loads _ (mem_of_getElem? hload) answer rfl
    have hposition := (h.loadsPlaced _ (mem_of_getElem? hload)).answer answer rfl
    have hitems : ∀ e ∈ answer.page.items, e ∈ s.stored := fun e he => hprior.subset (earlier_stored hpage e he)
    have hmem := (upsertEntries_spec locale h.stored h.held hitems).2
    refine { hknown with
      latest := h.latest
      reading := ?_
      placed := h.placed
      loadsPlaced := fun l hl => h.loadsPlaced l (mem_of_mem_eraseIdx hl) }
    rcases hstep before answer hload with hfirst | ⟨hsame, hheld⟩
    · exact h.reading.merge_earlier h.stored hprior hposition hfirst hpage hmem rfl rfl
    -- It had been loaded, by another call.
    refine (show Reading s.stored ⟨s.held, answer.page.previousCursor, s.view.latestCursor⟩ from
      hsame ▸ h.reading).of_mem fun e => (hmem e).trans ?_
    exact or_iff_left_of_imp (hheld e)
  · exact h

theorem Sound.step (h : Sound s) (e : Event) (hserver : ServerAnswers s e) (hstep : InStep s e) :
    Sound (MessageSyncs.step locale s e) := by
  have hknown := h.toKnown.step locale e hserver
  cases e with
  | stored entry message =>
    rw [MessageSyncs.step]
    split
    · next hnew => exact h.store hnew
    · exact h
  | entryReceived place seq =>
    rw [MessageSyncs.step]
    split
    · next entry hentry => exact h.entryReceived (mem_of_getElem? hentry) (hstep entry hentry)
    · exact h
  | syncAnswered page =>
    rw [MessageSyncs.step] at hknown ⊢
    split at hknown
    · next after callers hsync =>
      refine { hknown with latest := h.latest, reading := h.reading, placed := ?_, loadsPlaced := h.loadsPlaced }
      intro x hx
      cases hx
      have hplaced := h.placed _ hsync
      refine ⟨hplaced.after, hplaced.latest, fun a ha => ?_⟩
      cases ha
      exact hplaced.after
    · exact h
  | syncMerged restoreError => exact h.syncMerged hstep
  | earlierCalled =>
    rw [MessageSyncs.step] at hknown ⊢
    split at hknown
    · next before hbefore =>
      refine { hknown with latest := h.latest, reading := h.reading, placed := h.placed, loadsPlaced := ?_ }
      intro l hl
      rcases Places.mem_concat_cases hl with hl | rfl
      · exact h.loadsPlaced l hl
      · exact ⟨h.previous_atEntry hbefore, by simp⟩
    · exact h
  | earlierAnswered load page =>
    rw [MessageSyncs.step] at hknown ⊢
    split at hknown
    · next before hload =>
      refine { hknown with latest := h.latest, reading := h.reading, placed := h.placed, loadsPlaced := ?_ }
      intro l hl
      rcases mem_or_eq_of_mem_set hl with hl | rfl
      · exact h.loadsPlaced l hl
      have hbefore := (h.loadsPlaced _ (mem_of_getElem? hload)).before
      refine ⟨hbefore, fun a ha => ?_⟩
      cases ha
      exact hbefore
    · exact h
  | earlierMerged load => exact h.earlierMerged hstep
  | earlierFailed load =>
    exact { hknown with
      latest := h.latest
      reading := h.reading
      placed := h.placed
      loadsPlaced := fun l hl => h.loadsPlaced l (mem_of_mem_eraseIdx hl) }
  | pruned =>
    exact { hknown with
      latest := fun k hk => by cases hk
      reading := rfl
      placed := fun x hx => { h.placed x hx with latest := .inl rfl }
      loadsPlaced := h.loadsPlaced }
  | _ => exact h.same (aside_same s rfl)

theorem Complete.same {callers : List Caller} (h : Complete s callers) (hs : Same s s') : Complete s' callers := by
  have hheld : s'.held = s.held := congrArg View.held hs.view
  refine ⟨?_, ?_, ?_⟩
  · rw [hheld, hs.loaded]
    exact h.held
  · rw [hheld, hs.stored]
    exact h.contiguous
  · rw [hheld, hs.view, hs.stored]
    exact h.earlier

theorem Sound.resolves (h : Sound s) (e : Event) (hstep : InStep s e) : Synced locale s e := by
  cases e with
  | syncMerged restoreError =>
    intro after answer callers harrived hnext
    obtain ⟨hjoins, hcaught⟩ := hstep after answer callers harrived
    have hcomplete := h.complete locale harrived hjoins hnext (hcaught hnext) restoreError
    rw [MessageSyncs.step, State.syncMerged, harrived]
    dsimp only
    rw [hnext, Bool.not_false, if_pos rfl]
    have hdone : Complete { s.merge locale answer.page false restoreError with sync := none } callers :=
      ⟨hcomplete.held, hcomplete.contiguous, hcomplete.earlier⟩
    exact hdone.same (synced_same locale _ callers)
  | _ => trivial

end

/-- **A sync that succeeds leaves the transcript complete**: whatever entries the server stores, whichever of
their events come, and in whatever order calls, answers, earlier pages and prunings follow, while each page joins
what is held and the entries stored after a sync's last answer have come when it resolves. -/
theorem syncs_complete (locale : Collation) {es : List Event}
    (hserver : Along (step locale) ServerAnswers .init es) (hsteps : Along (step locale) InStep .init es) :
    Along (step locale) (Synced locale) .init es :=
  Along.of_invariant Sound (fun _ e hok h => h.step e hok.1 hok.2) (fun _ e hok h => h.resolves e hok.2)
    sound_init (hserver.and hsteps)

def userEntry (n : Nat) : ConversationEntry := ⟨toString n, none, n, none, .user [] [] n⟩

def onePage : MessageRecordPage Nat := ⟨[userEntry 1], none, false, some 1, none⟩

theorem onePage_tail : TailPage [userEntry 1] none onePage := by
  refine .entries (userEntry 1) (userEntry 1) (mem_singleton_self _) (mem_singleton_self _) (fun e => ?_)
    nofun (fun e he => ?_) rfl (iff_of_true rfl fun e he => ?_)
  · refine ⟨fun he => ⟨he, ?_⟩, And.left⟩
    rw [mem_singleton.mp he]
    exact ⟨Nat.le_refl _, Nat.le_refl _⟩
  · rw [mem_singleton.mp he]
  · rw [mem_singleton.mp he]

def firstSync : List Event := [.stored (userEntry 1) none, .syncCalled, .syncAnswered onePage, .syncMerged true]

theorem syncs_complete_firstSync : Along (step .codePoints) (Synced .codePoints) .init firstSync := by
  refine syncs_complete .codePoints ⟨trivial, trivial, fun sync hsync => ?_, trivial, trivial⟩
    ⟨trivial, trivial, trivial, fun after answer callers harrived => ?_, trivial⟩
  · cases hsync
    exact onePage_tail
  · obtain ⟨rfl, rfl, rfl⟩ := Prod.mk.inj (Option.some_inj.mp harrived) |>.imp_right Prod.mk.inj
    exact ⟨.inr (.inl ⟨rfl, cons_ne_nil _ _⟩), fun _ e he hno => absurd he hno⟩

/-! ## A session in the background -/

theorem exec_stored (locale : Collation) (s : State) (entries : List ConversationEntry)
    (h : Ordered (s.stored ++ entries)) :
    exec (step locale) s (entries.map (.stored · none)) = { s with stored := s.stored ++ entries } := by
  induction entries generalizing s with
  | nil => rw [append_nil]; rfl
  | cons e rest ih =>
    have hnew : ∀ x ∈ s.stored, x.seq < e.seq ∧ x.id ≠ e.id := by
      intro x hx
      refine ⟨(pairwise_append.mp h.inOrder).2.2 x hx e (mem_cons_self ..), fun hid => ?_⟩
      have hids := h.ids
      rw [map_append, nodup_append] at hids
      exact hids.2.2 _ (mem_map_of_mem hx) _ (mem_map_of_mem (mem_cons_self ..)) hid
    rw [map_cons, exec_cons, step, if_pos hnew]
    have hsaved : (fun m => if (none : Option Nat) = some m then some e.id else s.savedAs m) = s.savedAs :=
      funext fun m => if_neg (by simp)
    rw [hsaved, ih _ (by rwa [append_assoc, singleton_append]), append_assoc, singleton_append]

theorem along_stored (locale : Collation) (s : State) (entries : List ConversationEntry) :
    Along (step locale) ServerAnswers s (entries.map (.stored · none)) := by
  induction entries generalizing s with
  | nil => trivial
  | cons e rest ih => exact ⟨trivial, ih _⟩

def entries51 : List ConversationEntry := (List.range 51).map fun n => userEntry (n + 1)

def lastPage : MessageRecordPage Nat := ⟨(List.range 50).map fun n => userEntry (n + 2), some 2, false, some 51, none⟩

def backgroundSession : List Event :=
  entries51.map (.stored · none) ++ [.entryReceived 50 1, .opened, .syncAnswered lastPage, .syncMerged true]

theorem ordered_entries51 : Ordered entries51 where
  inOrder := by
    rw [entries51, Segment.Sorted, pairwise_map]
    exact pairwise_lt_range.imp fun h => Nat.succ_lt_succ h
  ids := by decide +kernel

theorem lastPage_tail : TailPage entries51 none lastPage := by
  refine .entries (userEntry 2) (userEntry 51) ?_ ?_ (fun e => ?_) nofun ⟨rfl, userEntry 1, ?_, ?_⟩ rfl ?_
  · exact mem_map.mpr ⟨0, by simp, rfl⟩
  · exact mem_map.mpr ⟨49, by simp, rfl⟩
  · simp only [lastPage, entries51, mem_map, mem_range]
    constructor
    · rintro ⟨n, hn, rfl⟩
      exact ⟨⟨n + 1, by omega, rfl⟩, Nat.le_add_left 2 n, show n + 2 ≤ 51 by omega⟩
    rintro ⟨⟨n, hn, rfl⟩, hge, -⟩
    have hge : 2 ≤ n + 1 := hge
    exact ⟨n - 1, by omega, by rw [show n - 1 + 2 = n + 1 by omega]⟩
  · exact mem_map.mpr ⟨0, by simp, rfl⟩
  · exact Nat.lt_succ_self 1
  · refine iff_of_true rfl fun e he => ?_
    obtain ⟨n, hn, rfl⟩ := mem_map.mp he
    exact Nat.succ_le_of_lt (mem_range.mp hn)

theorem more_not_known : Along (step .codePoints) ServerAnswers .init backgroundSession ∧
      ¬ Along (step .codePoints) (Synced .codePoints) .init backgroundSession := by
  have hexec : exec (step .codePoints) .init (entries51.map (.stored · none)) =
      { State.init with stored := entries51 } := exec_stored .codePoints .init entries51 ordered_entries51
  have hlast : entries51[50]? = some (userEntry 51) := rfl
  have hreceived : step .codePoints { State.init with stored := entries51 } (.entryReceived 50 1) =
      { State.init with
        stored := entries51
        conversation := (Conversation.pruned Nat).applyEvent .codePoints (.entryAdded (userEntry 51)) 1 } := by
    simp only [step, hlast]
    rfl
  constructor
  · rw [backgroundSession, along_append, hexec]
    refine ⟨along_stored .., trivial, trivial, fun sync hsync => ?_, trivial, trivial⟩
    rw [hreceived] at hsync ⊢
    cases hsync
    exact lastPage_tail
  · intro h
    rw [backgroundSession, along_append, hexec] at h
    have hsynced := h.2.2.2.2.1
    rw [hreceived] at hsynced
    have hcomplete := hsynced none ⟨lastPage, entries51⟩ [⟨entries51, false⟩] rfl rfl
    -- What is held is the page, which begins with the second entry.
    have hlastEntry : ∀ e ∈ [userEntry 51], e ∈ entries51 := fun e he =>
      mem_singleton.mp he ▸ mem_of_getElem? hlast
    have hnone : ∀ e ∈ ([] : List ConversationEntry), e ∈ entries51 := by simp
    have hfirst := (upsertEntries_spec .codePoints ordered_entries51 hnone hlastEntry).2
    have hmem := (upsertEntries_spec .codePoints ordered_entries51
      (fun e he => ((hfirst e).mp he).elim (hnone e) (hlastEntry e)) (tail_stored lastPage_tail)).2
    have hpage : ∀ e ∈ lastPage.items, 2 ≤ e.seq := by
      intro e he
      obtain ⟨n, -, rfl⟩ := mem_map.mp he
      exact Nat.le_add_left 2 n
    have hheld : ∀ e ∈ upsertEntries .codePoints (upsertEntries .codePoints [] [userEntry 51]) lastPage.items,
        2 ≤ e.seq := by
      intro e he
      rcases (hmem e).mp he with he | he
      · rcases (hfirst e).mp he with he | he
        · cases he
        · rw [mem_singleton.mp he]
          exact Nat.le_add_left 2 49
      · exact hpage e he
    have hsecond := (hmem (userEntry 2)).mpr (.inr (mem_map.mpr ⟨0, by simp, rfl⟩))
    have hfirstHeld := head?_eq_some_head (ne_nil_of_mem hsecond)
    have hmore : (if (upsertEntries .codePoints [] [userEntry 51]).isEmpty then some 2 else none : Option Nat).isSome =
        true := hcomplete.earlier.mpr ⟨_, hfirstHeld, userEntry 1, mem_map.mpr ⟨0, by simp, rfl⟩,
      hheld _ (mem_of_head? hfirstHeld)⟩
    have hevent := ne_nil_of_mem ((hfirst (userEntry 51)).mpr (.inr (mem_singleton_self _)))
    rw [isEmpty_eq_false_iff.mpr hevent, if_neg Bool.false_ne_true] at hmore
    cases hmore

end Reins.MessageSyncs
