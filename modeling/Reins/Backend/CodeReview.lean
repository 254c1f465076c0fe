import Mathlib.Data.List.Flatten
import Reins.Lib.Schema
import Reins.Lib.Throwing

/-!
# The code review entity (`backend/src/models/code-review.ts`)

`CodeReview` and its four mutations. `annotations` is its one field that is not `readonly`, so that is
what a mutation runs over, and what a throw leaves of it can be asked. An entry found by its source key
is found by where it is, since it is changed in place.
-/

namespace Reins.CodeReviews

open Schema Throwing Utf List

inductive ReviewSide
  | old
  | new
  deriving DecidableEq

inductive ReviewDiffLineKind
  | context
  | addition
  | deletion
  deriving DecidableEq

structure ReviewDiffLine where
  kind : ReviewDiffLineKind
  text : JsString
  deriving DecidableEq

structure ReviewAnchorEvidence where
  path : JsString
  oldPath : Option JsString
  side : ReviewSide
  startLine : Int
  lines : List ReviewDiffLine
  fileFingerprint : Option JsString
  filePatch : JsString
  baseRevision : Option JsString
  headRevision : Option JsString
  deriving DecidableEq

structure ReviewEntry where
  id : JsString
  author : JsString
  body : JsString
  createdAt : JsString
  sourceKey : Option JsString
  sourceUrl : Option JsString
  deriving DecidableEq

structure ReviewAnnotation where
  id : JsString
  anchor : ReviewAnchorEvidence
  entries : List ReviewEntry
  deriving DecidableEq

structure NewReviewAnnotation where
  id : JsString
  anchor : ReviewAnchorEvidence
  entry : ReviewEntry
  deriving DecidableEq

inductive CodeReviewErrorKind
  | invalid
  | notFound
  | conflict
  deriving DecidableEq

structure CodeReviewError where
  message : JsString
  kind : CodeReviewErrorKind
  deriving DecidableEq

abbrev ReviewM := EStateM CodeReviewError (List ReviewAnnotation)

def LF : UInt16 := 0x0A
def CR : UInt16 := 0x0D

def ensureValidAnchor (anchor : ReviewAnchorEvidence) : ReviewM Unit :=
  if anchor.startLine < 1 ∨ anchor.lines.length = 0 then
    throw ⟨js "Review annotation diff selection is invalid", .invalid⟩
  else if anchor.lines.any fun line => line.text.contains LF || line.text.contains CR then
    throw ⟨js "Review annotation diff line text is invalid", .invalid⟩
  else if (js "diff --git ").isPrefixOf anchor.filePatch = false then
    throw ⟨js "Review annotation file patch is invalid", .invalid⟩
  else pure ()

def findIdentityCollision (annotations : List ReviewAnnotation) (annotationId : Option JsString)
    (entry : ReviewEntry) : Option ReviewAnnotation :=
  annotations.find? fun a =>
    decide (annotationId = some a.id) || a.entries.any fun existing =>
      decide (existing.id = entry.id) || entry.sourceKey.isSome && decide (existing.sourceKey = entry.sourceKey)

def findEntryBySourceKey (annotations : List ReviewAnnotation) (sourceKey : JsString) : Option (Nat × Nat) :=
  (annotations.findIdx? fun a =>
    a.entries.any (·.sourceKey = some sourceKey)).bind fun i =>
      annotations[i]?.bind fun a => (a.entries.findIdx? (·.sourceKey = some sourceKey)).map (i, ·)

def addAnnotation (input : NewReviewAnnotation) : ReviewM Unit := do
  ensureValidAnchor input.anchor
  let annotations ← get
  if (findIdentityCollision annotations (some input.id) input.entry).isSome then
    throw ⟨js "Review annotation or entry identity is already in use", .conflict⟩
  else set (annotations ++ [⟨input.id, input.anchor, [input.entry]⟩])

/-- What an upsert takes over of a new version of the entry. -/
def refresh (entry existing : ReviewEntry) : ReviewEntry :=
  { existing with author := entry.author, body := entry.body, sourceUrl := entry.sourceUrl }

def upsertAnnotation (input : NewReviewAnnotation) : ReviewM Unit :=
  match input.entry.sourceKey with
  | none => throw ⟨js "Review annotation upsert requires sourceKey", .invalid⟩
  | some sourceKey => do
    let annotations ← get
    match findEntryBySourceKey annotations sourceKey with
    | none => addAnnotation input
    | some (i, j) => set (annotations.modify i fun a => { a with entries := a.entries.modify j (refresh input.entry) })

def addReply (annotationId : JsString) (entry : ReviewEntry) : ReviewM Unit := do
  let annotations ← get
  if (findIdentityCollision annotations none entry).isSome then
    throw ⟨js "Review entry identity is already in use", .conflict⟩
  else
    match annotations.findIdx? (·.id = annotationId) with
    | none => throw ⟨js "Review annotation not found: " ++ annotationId, .notFound⟩
    | some i => set (annotations.modify i fun a => { a with entries := a.entries ++ [entry] })

def without (entryId : JsString) (a : ReviewAnnotation) : ReviewAnnotation :=
  { a with entries := a.entries.filter (·.id ≠ entryId) }

def deleteComment (entryId : JsString) : ReviewM Unit := do
  let annotations ← get
  match annotations.findIdx? fun a => a.entries.any (·.id = entryId) with
  | none => throw ⟨js "Review comment not found: " ++ entryId, .notFound⟩
  | some annotationIndex =>
    set (annotations.modify annotationIndex (without entryId))
    modify fun annotations =>
      if annotations[annotationIndex]?.any (·.entries.length = 0) then
        annotations.eraseIdx annotationIndex
      else annotations

inductive Command
  | add (input : NewReviewAnnotation)
  | upsert (input : NewReviewAnnotation)
  | addReply (annotationId : JsString) (entry : ReviewEntry)
  | deleteComment (entryId : JsString)
  deriving DecidableEq

def Command.run : Command → ReviewM Unit
  | .add input => addAnnotation input
  | .upsert input => upsertAnnotation input
  | .addReply annotationId entry => CodeReviews.addReply annotationId entry
  | .deleteComment entryId => CodeReviews.deleteComment entryId

/-! ## What a review may hold -/

def entriesOf (annotations : List ReviewAnnotation) : List ReviewEntry := annotations.flatMap (·.entries)

structure Sound (annotations : List ReviewAnnotation) : Prop where
  annotationIds : (annotations.map (·.id)).Nodup
  entryIds : ((entriesOf annotations).map (·.id)).Nodup
  sourceKeys : ((entriesOf annotations).filterMap (·.sourceKey)).Nodup
  nonempty : ∀ a ∈ annotations, a.entries ≠ []

def Distinct (entries : List ReviewEntry) : Prop := (entries.map (·.id)).Nodup ∧ (entries.filterMap (·.sourceKey)).Nodup

variable {annotations annotations' : List ReviewAnnotation} {entries entries' : List ReviewEntry} {entry : ReviewEntry}

theorem Sound.distinct (h : Sound annotations) : Distinct (entriesOf annotations) := ⟨h.entryIds, h.sourceKeys⟩

theorem Distinct.perm (h : Distinct entries) (hp : entries'.Perm entries) : Distinct entries' :=
  ⟨(hp.map _).nodup_iff.mpr h.1, (hp.filterMap _).nodup_iff.mpr h.2⟩

theorem Distinct.sublist (h : Distinct entries) (hs : entries'.Sublist entries) : Distinct entries' :=
  ⟨h.1.sublist (hs.map _), h.2.sublist (hs.filterMap _)⟩

def New (entries : List ReviewEntry) (entry : ReviewEntry) : Prop :=
  ∀ existing ∈ entries, existing.id ≠ entry.id ∧ ∀ key ∈ entry.sourceKey, existing.sourceKey ≠ some key

theorem Distinct.concat (h : Distinct entries) (hn : New entries entry) : Distinct (entries ++ [entry]) := by
  constructor
  · rw [map_append, map_singleton]
    refine h.1.append (nodup_singleton _) ?_
    rw [disjoint_singleton]
    intro hm
    obtain ⟨existing, he, hid⟩ := mem_map.mp hm
    exact (hn existing he).1 hid
  · rw [filterMap_append]
    cases hk : entry.sourceKey with
    | none =>
      rw [filterMap_cons_none hk, filterMap_nil, append_nil]
      exact h.2
    | some key =>
      rw [filterMap_cons_some hk, filterMap_nil]
      refine h.2.append (nodup_singleton _) ?_
      rw [disjoint_singleton]
      intro hm
      obtain ⟨existing, he, hkey⟩ := mem_filterMap.mp hm
      exact (hn existing he).2 key hk hkey

theorem findIdentityCollision_none {annotationId : Option JsString}
    (h : findIdentityCollision annotations annotationId entry = none) :
    (∀ a ∈ annotations, annotationId ≠ some a.id) ∧ New (entriesOf annotations) entry := by
  have hall := find?_eq_none.mp h
  constructor
  · intro a ha heq
    exact hall a ha (by simp [heq])
  intro existing he
  obtain ⟨a, ha, hin⟩ := mem_flatMap.mp he
  have hno := hall a ha
  rw [Bool.or_eq_true, not_or, any_eq_true] at hno
  have hthis : ¬ _ := fun hm => hno.2 ⟨existing, hin, hm⟩
  rw [Bool.or_eq_true, not_or, decide_eq_true_eq] at hthis
  refine ⟨hthis.1, fun key hk heq => hthis.2 ?_⟩
  rw [Option.mem_def] at hk
  rw [hk, heq]
  simp

/-! ## Lists changed at one place -/

theorem map_modify_of {α β : Type} {f : α → α} {g : α → β} (h : ∀ x, g (f x) = g x)
    (xs : List α) (i : Nat) : (xs.modify i f).map g = xs.map g := by
  induction xs generalizing i with
  | nil => rw [modify_nil]
  | cons x xs ih =>
    cases i with
    | zero => rw [modify_zero_cons, map_cons, map_cons, h]
    | succ i => rw [modify_succ_cons, map_cons, map_cons, ih]

theorem flatMap_modify_sublist {α β : Type} {f : α → α} {g : α → List β}
    (h : ∀ x, (g (f x)).Sublist (g x)) (xs : List α) (i : Nat) :
    ((xs.modify i f).flatMap g).Sublist (xs.flatMap g) := by
  induction xs generalizing i with
  | nil => rw [modify_nil]
  | cons x xs ih =>
    cases i with
    | zero =>
      rw [modify_zero_cons, flatMap_cons, flatMap_cons]
      exact (h x).append_right _
    | succ i =>
      rw [modify_succ_cons, flatMap_cons, flatMap_cons]
      exact (ih i).append_left _

theorem entriesOf_append_at (annotations : List ReviewAnnotation) {i : Nat}
    (hi : i < annotations.length) (entry : ReviewEntry) :
    (entriesOf (annotations.modify i fun a =>
      { a with entries := a.entries ++ [entry] })).Perm
      (entriesOf annotations ++ [entry]) := by
  induction annotations generalizing i with
  | nil => exact absurd hi (Nat.not_lt_zero _)
  | cons a rest ih =>
    cases i with
    | zero =>
      simp only [entriesOf, modify_zero_cons, flatMap_cons, append_assoc]
      exact (perm_append_comm).append_left _
    | succ i =>
      simp only [entriesOf, modify_succ_cons, flatMap_cons, append_assoc]
      exact (ih (Nat.lt_of_succ_lt_succ hi)).append_left _

/-! ## What each mutation does -/

theorem ensureValidAnchor_reads (anchor : ReviewAnchorEvidence) : Reads (ensureValidAnchor anchor) := by
  unfold ensureValidAnchor
  split
  · exact reads_throw _
  split
  · exact reads_throw _
  split
  · exact reads_throw _
  · exact reads_pure _

theorem total_set (annotations : List ReviewAnnotation) : Total (set annotations : ReviewM Unit) :=
  fun _ => ⟨(), annotations, rfl⟩

theorem addAnnotation_atomic (input : NewReviewAnnotation) : Atomic <| addAnnotation input := by
  refine atomic_bind_of_reads (ensureValidAnchor_reads _) fun _ => ?_
  refine atomic_bind_of_reads reads_get fun annotations => ?_
  split
  · exact (reads_throw _).atomic
  · exact (total_set _).atomic

theorem upsertAnnotation_atomic (input : NewReviewAnnotation) : Atomic <| upsertAnnotation input := by
  unfold upsertAnnotation
  split
  · exact (reads_throw _).atomic
  refine atomic_bind_of_reads reads_get fun annotations => ?_
  split
  · exact addAnnotation_atomic input
  · exact (total_set _).atomic

theorem addReply_atomic (annotationId : JsString) (entry : ReviewEntry) : Atomic (addReply annotationId entry) := by
  refine atomic_bind_of_reads reads_get fun annotations => ?_
  split
  · exact (reads_throw _).atomic
  split
  · exact (reads_throw _).atomic
  · exact (total_set _).atomic

theorem deleteComment_atomic (entryId : JsString) : Atomic (deleteComment entryId) := by
  refine atomic_bind_of_reads reads_get fun annotations => ?_
  split
  · exact (reads_throw _).atomic
  · exact atomic_bind_total (total_set _).atomic fun _ _ => ⟨_, _, rfl⟩

/-- **A mutation that throws leaves the review as it was.** -/
theorem Command.run_atomic (command : Command) : Atomic command.run := by
  cases command with
  | add input => exact addAnnotation_atomic input
  | upsert input => exact upsertAnnotation_atomic input
  | addReply annotationId entry => exact addReply_atomic annotationId entry
  | deleteComment entryId => exact deleteComment_atomic entryId

theorem addAnnotation_ok {input : NewReviewAnnotation} (h : addAnnotation input annotations = .ok () annotations') :
    findIdentityCollision annotations (some input.id) input.entry = none ∧
      annotations' = annotations ++ [⟨input.id, input.anchor, [input.entry]⟩] := by
  obtain ⟨_, s₁, hv, h⟩ := bind_ok h
  cases (ensureValidAnchor_reads _).ok hv
  obtain ⟨_, _, hg, h⟩ := bind_ok h
  cases hg
  split at h
  · cases h
  rename_i hc
  cases h
  rw [Bool.not_eq_true, Option.isSome_eq_false_iff, Option.isNone_iff_eq_none] at hc
  exact ⟨hc, rfl⟩

theorem Sound.addAnnotation {input : NewReviewAnnotation} (hs : Sound annotations)
    (h : CodeReviews.addAnnotation input annotations = .ok () annotations') :
    Sound annotations' := by
  obtain ⟨hc, rfl⟩ := addAnnotation_ok h
  obtain ⟨hid, hnew⟩ := findIdentityCollision_none hc
  have hentries : entriesOf (annotations ++ [⟨input.id, input.anchor, [input.entry]⟩]) =
      entriesOf annotations ++ [input.entry] := by
    rw [entriesOf, flatMap_append, flatMap_singleton]
    rfl
  have hd : Distinct (entriesOf (annotations ++ [⟨input.id, input.anchor, [input.entry]⟩])) :=
    hentries ▸ hs.distinct.concat hnew
  refine ⟨?_, hd.1, hd.2, ?_⟩
  · rw [map_append, map_singleton]
    refine hs.annotationIds.append (nodup_singleton _) ?_
    rw [disjoint_singleton]
    intro hm
    obtain ⟨a, ha, heq⟩ := mem_map.mp hm
    exact hid a ha (congrArg some heq.symm)
  · intro a ha
    rcases mem_append.mp ha with ha | ha
    · exact hs.nonempty a ha
    · rw [mem_singleton.mp ha]
      exact cons_ne_nil _ _

theorem nonempty_modify {f : ReviewAnnotation → ReviewAnnotation} (hf : ∀ a, a.entries ≠ [] → (f a).entries ≠ [])
    (h : ∀ a ∈ annotations, a.entries ≠ []) (i : Nat) :
    ∀ a ∈ annotations.modify i f, a.entries ≠ [] := by
  intro a ha
  obtain ⟨j, hj⟩ := mem_iff_getElem?.mp ha
  rw [getElem?_modify] at hj
  obtain ⟨old, hold, rfl⟩ := Option.map_eq_some_iff.mp hj
  have hne := h old (mem_of_getElem? hold)
  split
  · exact hf old hne
  · exact hne

theorem Sound.refresh (hs : Sound annotations) (entry : ReviewEntry) (i j : Nat) : Sound (annotations.modify i fun a =>
      { a with entries := a.entries.modify j (CodeReviews.refresh entry) }) := by
  have hmap {β : Type} (g : ReviewEntry → β) (hg : ∀ e, g (CodeReviews.refresh entry e) = g e) :
      (entriesOf (annotations.modify i fun a =>
        { a with entries := a.entries.modify j (CodeReviews.refresh entry) })).map g =
        (entriesOf annotations).map g := by
    rw [entriesOf, entriesOf, map_flatMap, map_flatMap, flatMap_def, flatMap_def, map_modify_of]
    intro a
    exact map_modify_of hg _ _
  have hkeys : ∀ entries : List ReviewEntry,
      entries.filterMap (·.sourceKey) = (entries.map (·.sourceKey)).filterMap id := by
    intro entries
    rw [filterMap_map]
    rfl
  refine ⟨?_, ?_, ?_, nonempty_modify (fun a hne => ?_) hs.nonempty i⟩
  · rw [map_modify_of]
    · exact hs.annotationIds
    · intro a
      rfl
  · rw [hmap _ fun _ => rfl]
    exact hs.entryIds
  · rw [hkeys, hmap _ fun _ => rfl, ← hkeys]
    exact hs.sourceKeys
  · simpa using hne

theorem Sound.upsertAnnotation {input : NewReviewAnnotation} (hs : Sound annotations)
    (h : CodeReviews.upsertAnnotation input annotations = .ok () annotations') :
    Sound annotations' := by
  unfold CodeReviews.upsertAnnotation at h
  cases hk : input.entry.sourceKey with
  | none =>
    simp only [hk] at h
    cases h
  | some sourceKey =>
    simp only [hk] at h
    obtain ⟨_, _, hg, h⟩ := bind_ok h
    cases hg
    cases hf : findEntryBySourceKey annotations sourceKey with
    | none =>
      simp only [hf] at h
      exact hs.addAnnotation h
    | some places =>
      simp only [hf] at h
      cases h
      exact hs.refresh _ _ _

theorem Sound.addReply {annotationId : JsString} (hs : Sound annotations)
    (h : CodeReviews.addReply annotationId entry annotations = .ok () annotations') :
    Sound annotations' := by
  obtain ⟨_, _, hg, h⟩ := bind_ok h
  cases hg
  split at h
  · cases h
  rename_i hc
  rw [Bool.not_eq_true, Option.isSome_eq_false_iff, Option.isNone_iff_eq_none] at hc
  cases hi : annotations.findIdx? (·.id = annotationId) with
  | none =>
    simp only [hi] at h
    cases h
  | some i =>
    simp only [hi] at h
    cases h
    have hlt : i < annotations.length := (findIdx?_eq_some_iff_getElem.mp hi).1
    have hd := (hs.distinct.concat (findIdentityCollision_none hc).2).perm (entriesOf_append_at annotations hlt entry)
    refine ⟨?_, hd.1, hd.2, nonempty_modify (fun a _ => ?_) hs.nonempty i⟩
    · rw [map_modify_of]
      · exact hs.annotationIds
      · intro a
        rfl
    · exact append_ne_nil_of_right_ne_nil _ (cons_ne_nil _ _)

theorem deleteComment_ok {entryId : JsString} (h : deleteComment entryId annotations = .ok () annotations') :
    ∃ i, let kept := annotations.modify i (without entryId)
      annotations' = if kept[i]?.any (·.entries.length = 0) then kept.eraseIdx i else kept := by
  obtain ⟨_, _, hg, h⟩ := bind_ok h
  cases hg
  cases hi : annotations.findIdx? fun a => a.entries.any (·.id = entryId) with
  | none =>
    simp only [hi] at h
    cases h
  | some i =>
    simp only [hi] at h
    obtain ⟨_, _, hset, h⟩ := bind_ok h
    cases hset
    cases h
    exact ⟨i, rfl⟩

theorem Sound.deleteComment {entryId : JsString} (hs : Sound annotations)
    (h : CodeReviews.deleteComment entryId annotations = .ok () annotations') :
    Sound annotations' := by
  obtain ⟨i, h⟩ := deleteComment_ok h
  have hids : (annotations.modify i (without entryId)).map (·.id) = annotations.map (·.id) :=
    map_modify_of (f := without entryId) (fun _ => rfl) _ _
  have hsub : (entriesOf (annotations.modify i (without entryId))).Sublist (entriesOf annotations) :=
    flatMap_modify_sublist (f := without entryId) (fun _ => filter_sublist) _ _
  -- elsewhere the annotations are as they were
  have helse : ∀ j a, j ≠ i → (annotations.modify i (without entryId))[j]? = some a → a.entries ≠ [] := by
    intro j a hne hj
    rw [getElem?_modify_ne _ _ (Ne.symm hne)] at hj
    exact hs.nonempty a (mem_of_getElem? hj)
  subst h
  generalize annotations.modify i (without entryId) = kept at hids hsub helse
  split
  · have hd := hs.distinct.sublist (((eraseIdx_sublist kept i).flatMap _).trans hsub)
    refine ⟨?_, hd.1, hd.2, ?_⟩
    · exact (hids ▸ hs.annotationIds).sublist ((eraseIdx_sublist kept i).map _)
    intro a ha
    obtain ⟨j, hne, hj⟩ := mem_eraseIdx_iff_getElem?.mp ha
    exact helse j a hne hj
  next hempty =>
    have hd := hs.distinct.sublist hsub
    refine ⟨hids ▸ hs.annotationIds, hd.1, hd.2, ?_⟩
    intro a ha
    obtain ⟨j, hj⟩ := mem_iff_getElem?.mp ha
    by_cases hji : j = i
    · subst hji
      rw [hj] at hempty
      intro hnil
      exact hempty (by simp [hnil])
    · exact helse j a hji hj

/-- **A mutation keeps the review sound.** -/
theorem Sound.run {command : Command} (hs : Sound annotations)
    (h : command.run annotations = .ok () annotations') : Sound annotations' := by
  cases command with
  | add input => exact hs.addAnnotation h
  | upsert input => exact hs.upsertAnnotation h
  | addReply annotationId entry => exact hs.addReply h
  | deleteComment entryId => exact hs.deleteComment h

theorem sound_nil : Sound [] := ⟨nodup_nil, nodup_nil, nodup_nil, nofun⟩

end Reins.CodeReviews
