import Reins.Backend.CodeReviews
import Reins.Lib.Search

/-!
# Skill blocks (`backend/src/models/skill.ts`, `expandSkills` of `session-runtime/environment.ts`)

Invoked skills are put in front of the prompt's text, each as the package formats it, and stripped from it where the
text is shown. `formatSkillInvocation` is the package's.
-/

namespace Reins.SkillBlocks

open Utf Schema CodeReviews List

/-! ## Expansion -/

structure Skill where
  name : JsString
  content : JsString

inductive PromptBlock
  | text (text : JsString)
  | image (data : JsString)

/-- `[a-z0-9-]`. -/
def isNameUnit (u : UInt16) : Bool := 0x61 ≤ u && u ≤ 0x7A || 0x30 ≤ u && u ≤ 0x39 || u = 0x2D

/-- The `/name`s of a text that white space or its ends are on both sides of. -/
def tokens (text : JsString) : List JsString := (text.splitOnP isWhiteSpace).filterMap fun
  | 0x2F :: name => if !name.isEmpty && name.all isNameUnit then some name else none
  | _ => none

def PromptBlock.tokens : PromptBlock → List JsString
  | .text s => SkillBlocks.tokens s
  | .image _ => []

/-- The skills a prompt invokes; of two of one name the `Map` has the later. -/
def invoked (skills : List Skill) (content : List PromptBlock) : List Skill :=
  (content.flatMap (·.tokens)).filterMap fun name => skills.reverse.find? (·.name = name)

def inFront (format : Skill → JsString) (skills : List Skill) : JsString :=
  (js "\n\n").intercalate (skills.map format) ++ js "\n\n"

/-- Before the first text block's text. -/
def expandFirst (front : JsString) : List PromptBlock → List PromptBlock
  | [] => []
  | .text text :: rest => .text (front ++ text) :: rest
  | block :: rest => block :: expandFirst front rest

def expandSkills (format : Skill → JsString) (skills : List Skill) (content : List PromptBlock) : List PromptBlock :=
  if invoked skills content = [] then content else expandFirst (inFront format (invoked skills content)) content

/-! ## Stripping -/

/-- `\w`. -/
def isWord (u : UInt16) : Bool :=
  0x61 ≤ u && u ≤ 0x7A || 0x41 ≤ u && u ≤ 0x5A || 0x30 ≤ u && u ≤ 0x39 || u = 0x5F

/-- What is left behind a match of `blockRe`. -/
def blockRe (text : JsString) : Option JsString := do
  let tag ← (Search.after (js "<skill") text).filter fun tag => !tag.head?.any isWord
  let body ← Search.afterFirst (js ">") tag
  let rest ← Search.afterFirst (js "</skill>") body
  some (rest.dropWhile isWhiteSpace)

def strip : Nat → JsString → JsString
  | 0, rest => rest
  | fuel + 1, rest => match blockRe rest with
    | none => rest
    | some rest => strip fuel rest

/-- A match takes something off, so there are at most as many as the text is long. -/
def stripLeadingSkillBlocks (text : JsString) : JsString := strip text.length text

def firstText : List PromptBlock → Option JsString
  | [] => none
  | .text text :: _ => some text
  | _ :: rest => firstText rest

/-! ## What is stripped -/

variable {s t r p : JsString}

theorem afterFirst_append {q : JsString} (hq : q ≠ []) :
    Search.afterFirst q (s ++ t) = some (r ++ t) ↔ Search.afterFirst q s = some r := by
  refine ⟨fun h => ?_, fun h => Search.afterFirst_append_of_some h t⟩
  cases hs : Search.afterFirst q s with
  | some r' =>
    rw [Search.afterFirst_append_of_some hs] at h
    rw [append_cancel_right (Option.some.inj h)]
  | none =>
    obtain ⟨w, hw⟩ := Search.afterFirst_eq_some h
    rw [← append_assoc] at hw
    exact absurd ⟨w, r, (append_cancel_right hw).symm⟩ ((Search.afterFirst_eq_none_iff hq).mp hs)

theorem blockRe_eq_some_iff : blockRe s = some r ↔ ∃ tag body rest, s = js "<skill" ++ tag ∧
    tag.head?.any isWord = false ∧ Search.afterFirst (js ">") tag = some body ∧
      Search.afterFirst (js "</skill>") body = some rest ∧ rest.dropWhile isWhiteSpace = r := by
  simp [blockRe, Option.bind_eq_some_iff, Search.after_eq_some_iff, and_assoc]

theorem blockRe_suffix (h : blockRe s = some r) : r <:+ s ∧ r.length < s.length := by
  obtain ⟨tag, body, rest, rfl, -, hbody, hrest, rfl⟩ := blockRe_eq_some_iff.mp h
  obtain ⟨v, rfl⟩ := Search.afterFirst_eq_some hbody
  obtain ⟨w, rfl⟩ := Search.afterFirst_eq_some hrest
  have hdrop := dropWhile_suffix (l := rest) isWhiteSpace
  refine ⟨hdrop.trans ?_, ?_⟩
  · simp only [← append_assoc]
    exact suffix_append ..
  · have := hdrop.length_le
    simp [js, units]
    omega

/-- More behind a match is left, less its white space where the match ended the text. -/
theorem blockRe_append (h : blockRe s = some r) (t : JsString) :
    blockRe (s ++ t) = some (if r = [] then t.dropWhile isWhiteSpace else r ++ t) := by
  obtain ⟨tag, body, rest, rfl, hword, hbody, hrest, rfl⟩ := blockRe_eq_some_iff.mp h
  refine blockRe_eq_some_iff.mpr ⟨tag ++ t, body ++ t, rest ++ t, append_assoc .., ?_,
    Search.afterFirst_append_of_some hbody t, Search.afterFirst_append_of_some hrest t, ?_⟩
  · cases tag with
    | nil => cases hbody
    | cons u tag => exact hword
  · simp [dropWhile_append]

theorem blockRe_of_append (h : blockRe (s ++ t) = some (r ++ t)) : blockRe s = some r := by
  obtain ⟨tag, body, rest, htag, hword, hbody, hrest, heq⟩ := blockRe_eq_some_iff.mp h
  obtain ⟨rest, rfl⟩ : ∃ rest', rest = rest' ++ t := ⟨rest.takeWhile isWhiteSpace ++ r, by
    rw [append_assoc, ← heq, takeWhile_append_dropWhile]⟩
  obtain ⟨w, hw⟩ := Search.afterFirst_eq_some hrest
  obtain ⟨body, rfl⟩ : ∃ body', body = body' ++ t := ⟨_, hw.trans (append_assoc ..).symm⟩
  obtain ⟨v, hv⟩ := Search.afterFirst_eq_some hbody
  obtain ⟨tag, rfl⟩ : ∃ tag', tag = tag' ++ t := ⟨_, hv.trans (append_assoc ..).symm⟩
  rw [afterFirst_append (by simp [js, units])] at hbody hrest
  have hs : blockRe s = some (rest.dropWhile isWhiteSpace) := by
    refine blockRe_eq_some_iff.mpr ⟨tag, body, rest, ?_, ?_, hbody, hrest, rfl⟩
    · rw [← append_assoc] at htag
      exact append_cancel_right htag
    · cases tag with
      | nil => cases hbody
      | cons u tag => exact hword
  rw [blockRe_append hs, Option.some_inj] at h
  rw [hs]
  split at h
  next hnil =>
    have hle := congrArg List.length h
    have := (dropWhile_suffix (l := t) isWhiteSpace).length_le
    rw [hnil, eq_nil_of_length_eq_zero (l := r) (by simp at hle; omega)]
  · rw [append_cancel_right h]

theorem strip_suffix (n : Nat) (s : JsString) : strip n s <:+ s := by
  induction n generalizing s with
  | zero => exact suffix_refl s
  | succ n ih =>
    unfold strip
    split
    · exact suffix_refl s
    next r h => exact (ih r).trans (blockRe_suffix h).1

/-- A text that is matches of the pattern one behind the other. -/
def Blocks (s : JsString) : Prop := Relation.ReflTransGen (fun s r => blockRe s = some r) s []

theorem strip_append_iff {n : Nat} (hn : (p ++ t).length ≤ n) :
    strip n (p ++ t) = t ↔ Blocks p ∧ (p ≠ [] → t.dropWhile isWhiteSpace = t) ∧ blockRe t = none := by
  induction n generalizing p with
  | zero =>
    obtain ⟨rfl, rfl⟩ := append_eq_nil_iff.mp (eq_nil_of_length_eq_zero (Nat.le_zero.mp hn))
    exact iff_of_true rfl ⟨.refl, fun h => absurd rfl h, rfl⟩
  | succ n ih =>
    unfold strip
    constructor
    · intro h
      split at h
      next hnone =>
        obtain rfl : p = [] := append_cancel_right h
        exact ⟨.refl, fun h => absurd rfl h, hnone⟩
      next r hr =>
        obtain ⟨w, rfl⟩ := h ▸ strip_suffix n r
        have hp := blockRe_of_append hr
        have hlt := (blockRe_suffix hp).2
        obtain ⟨hblocks, hspace, hnone⟩ := (ih (by simp at hn ⊢; omega)).mp h
        refine ⟨.head hp hblocks, fun _ => ?_, hnone⟩
        by_cases hw : w = []
        · have := Option.some.inj ((blockRe_append hp t).symm.trans hr)
          simpa [hw] using this
        · exact hspace hw
    · rintro ⟨hblocks, hspace, hnone⟩
      rcases Relation.ReflTransGen.cases_head hblocks with rfl | ⟨w, hw, hblocks⟩
      · simp [hnone]
      have hlt := (blockRe_suffix hw).2
      have hp : p ≠ [] := by
        rintro rfl
        cases hw
      have hr : blockRe (p ++ t) = some (w ++ t) := by
        rw [blockRe_append hw]
        split
        next hnil => rw [hnil, hspace hp, nil_append]
        · rfl
      rw [hr]
      exact (ih (by simp at hn ⊢; omega)).mpr ⟨hblocks, fun _ => hspace hp, hnone⟩

theorem firstText_expandFirst (front : JsString) (content : List PromptBlock) :
    firstText (expandFirst front content) = (firstText content).map (front ++ ·) := by
  induction content with
  | nil => rfl
  | cons block content ih => cases block <;> simp [expandFirst, firstText, ih]

/-- **Stripping undoes expansion** of a text that neither white space nor a block begins, where the blocks in front end
where the pattern ends them. -/
theorem expandSkills_stripped_iff (format : Skill → JsString) {skills : List Skill} {content : List PromptBlock}
    (hinvoked : invoked skills content ≠ []) {text : JsString} (htext : firstText content = some text) :
    (firstText (expandSkills format skills content)).map stripLeadingSkillBlocks = some text ↔
      Blocks (inFront format (invoked skills content)) ∧ text.dropWhile isWhiteSpace = text ∧ blockRe text = none := by
  have hne : inFront format (invoked skills content) ≠ [] := by simp [inFront, js, units]
  rw [expandSkills, if_neg hinvoked, firstText_expandFirst, htext, Option.map_some, Option.map_some, Option.some_inj,
    stripLeadingSkillBlocks, strip_append_iff le_rfl]
  simp [hne]

theorem expandSkills_stripped_one : (firstText (expandSkills (fun _ => js "<skill>a</skill>")
    [⟨js "a", []⟩] [.text (js "/a")])).map stripLeadingSkillBlocks = some (js "/a") :=
  (expandSkills_stripped_iff _ (by decide +kernel) rfl).mpr ⟨.head (b := []) (by decide +kernel) .refl,
    by decide +kernel, by decide +kernel⟩

/-- A content that has a closing tag in it. -/
theorem closing_tag_left : ¬ ∀ (skills : List Skill) (content : List PromptBlock) (text : JsString),
    invoked skills content ≠ [] → firstText content = some text →
      (firstText (expandSkills (fun skill => js "<skill name=\"a\">\n" ++ skill.content ++ js "\n</skill>") skills
        content)).map stripLeadingSkillBlocks = some text := fun h =>
  absurd (h [⟨js "a", js "b</skill>c"⟩] [.text (js "/a")] (js "/a") (by decide +kernel) rfl) (by decide +kernel)

end Reins.SkillBlocks
