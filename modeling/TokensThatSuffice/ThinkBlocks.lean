import TokensThatSuffice.CompletionScoring
import TokensThatSuffice.WordGrams

namespace TokensThatSuffice

open WordGrams

inductive ThinkTag where
  | opening
  | closing
  deriving DecidableEq, Repr

def openTag : List Char := "<think>".toList

def closeTag : List Char := "</think>".toList

def tagAt (s : List Char) : Option ThinkTag :=
  if openTag.isPrefixOf s then some .opening
  else if closeTag.isPrefixOf s then some .closing
  else none

def tags : List Char → List ThinkTag
  | [] => []
  | c :: s => (tagAt (c :: s)).toList ++ tags s

def openAfter : Bool → List ThinkTag → Option Bool
  | inside, [] => some inside
  | false, .opening :: ts => openAfter true ts
  | true, .closing :: ts => openAfter false ts
  | _, _ :: _ => none

theorem openAfter_append (inside : Bool) (xs ys : List ThinkTag) :
    openAfter inside (xs ++ ys) = (openAfter inside xs).bind (openAfter · ys) := by
  induction xs generalizing inside with
  | nil => rfl
  | cons t xs ih => cases inside <;> cases t <;> simp [openAfter, ih]

theorem openAfter_closing {ts : List ThinkTag} (h : openAfter true ts = some false) : ts.head? = some .closing := by
  cases ts with
  | nil => cases h
  | cons t ts =>
    cases t with
    | opening => cases h
    | closing => rfl

theorem openAfter_not_closing {ts : List ThinkTag} (h : openAfter false ts = some false) :
    ts.head? ≠ some .closing := by
  cases ts with
  | nil => simp
  | cons t ts =>
    cases t with
    | opening => simp
    | closing => cases h

section Seams

variable {c : Char} (hopen : c ∉ openTag.tail) (hclose : c ∉ closeTag.tail)

include hopen hclose

theorem tagAt_append_cons (d : Char) (x y : List Char) : tagAt (d :: (x ++ c :: y)) = tagAt (d :: x) := by
  have hprefix {m : Char} {marker : List Char} (hc : c ∉ marker) :
      (m :: marker).isPrefixOf (d :: (x ++ c :: y)) = (m :: marker).isPrefixOf (d :: x) := by
    rw [Bool.eq_iff_iff, List.isPrefixOf_iff_prefix, List.isPrefixOf_iff_prefix, List.cons_prefix_cons,
      List.cons_prefix_cons, prefix_append_cons hc]
  have hopens : openTag = '<' :: openTag.tail := rfl
  have hcloses : closeTag = '<' :: closeTag.tail := rfl
  rw [tagAt, tagAt, hopens, hcloses, hprefix hopen, hprefix hclose]

theorem tags_append_cons (x y : List Char) : tags (x ++ c :: y) = tags x ++ tags (c :: y) := by
  induction x with
  | nil => rfl
  | cons d x ih =>
    rw [List.cons_append, tags, tags, tagAt_append_cons hopen hclose d x y, ih, List.append_assoc]

end Seams

theorem tags_newline (x y : List Char) : tags (x ++ '\n' :: y) = tags x ++ tags y :=
  tags_append_cons (by decide) (by decide) x y

theorem tags_before_tag (x y : List Char) : tags (x ++ '<' :: y) = tags x ++ tags ('<' :: y) :=
  tags_append_cons (by decide) (by decide) x y

theorem not_both_tags {s : List Char} (h : openTag.isPrefixOf s = true) : closeTag.isPrefixOf s = false := by
  rw [List.isPrefixOf_iff_prefix] at h
  rw [← Bool.not_eq_true, List.isPrefixOf_iff_prefix]
  intro hclose
  rcases List.prefix_or_prefix_of_prefix h hclose with hshort | hlong
  · exact absurd hshort (by decide)
  · exact absurd hlong (by decide)

theorem completionOpensInThink_iff (completion : String) :
    completionOpensInThink completion = true ↔ (tags completion.toList).head? = some .closing := by
  have hclose : "</think>".toList = closeTag := rfl
  have hopen : "<think>".toList = openTag := rfl
  unfold completionOpensInThink find
  rw [hclose, hopen]
  generalize completion.toList = s
  induction s with
  | nil => decide
  | cons c s ih =>
    rw [List.tails_cons, List.findIdx?_cons, List.findIdx?_cons, tags, tagAt]
    by_cases hopens : openTag.isPrefixOf (c :: s) = true
    · rw [if_pos hopens, if_pos hopens, not_both_tags hopens]
      cases s.tails.findIdx? (closeTag.isPrefixOf ·) <;> simp
    · by_cases hcloses : closeTag.isPrefixOf (c :: s) = true
      · rw [if_neg hopens, if_neg hopens, if_pos hcloses, if_pos hcloses]
        cases s.tails.findIdx? (openTag.isPrefixOf ·) <;> simp
      · rw [if_neg hopens, if_neg hopens, if_neg hcloses, if_neg hcloses, Option.toList_none, List.nil_append]
        apply Iff.trans _ ih
        cases s.tails.findIdx? (closeTag.isPrefixOf ·) <;> cases s.tails.findIdx? (openTag.isPrefixOf ·) <;> simp

theorem closeThinkBlock_marker (a completion : String) :
    closeThinkBlock (a ++ thinkOpen) completion =
      a ++ if completionOpensInThink completion then thinkOpen else thinkClosed := by
  have hends : endsWith (a ++ thinkOpen) thinkOpen = true := by
    rw [endsWith, List.isSuffixOf_iff_suffix, String.toList_append]
    exact List.suffix_append _ _
  have htake : String.ofList ((a ++ thinkOpen).toList.take ((a ++ thinkOpen).length - thinkOpen.length)) = a := by
    rw [String.length_append, Nat.add_sub_cancel, String.toList_append, ← String.length_toList,
      List.take_left, String.ofList_toList]
  rw [closeThinkBlock, hends, htake]
  cases completionOpensInThink completion <;> rfl

theorem eq_append_of_endsWith {s suf : String} (h : endsWith s suf = true) : ∃ a, s = a ++ suf := by
  rw [endsWith, List.isSuffixOf_iff_suffix] at h
  obtain ⟨a, ha⟩ := h
  exact ⟨String.ofList a, String.toList_injective (by rw [String.toList_append, String.toList_ofList, ha])⟩

theorem tags_thinkOpen (a s : String) :
    tags (a ++ thinkOpen ++ s).toList = tags a.toList ++ .opening :: tags s.toList := by
  have hmarker : (a ++ thinkOpen ++ s).toList = a.toList ++ '<' :: ("think>".toList ++ '\n' :: s.toList) := by
    rw [String.toList_append, String.toList_append, List.append_assoc]
    rfl
  rw [hmarker, tags_before_tag, ← List.cons_append, tags_newline]
  rfl

theorem tags_thinkClosed (a s : String) :
    tags (a ++ thinkClosed ++ s).toList = tags a.toList ++ .opening :: .closing :: tags s.toList := by
  have hmarker : (a ++ thinkClosed ++ s).toList =
      a.toList ++ '<' :: ("think>\n\n</think>\n".toList ++ '\n' :: s.toList) := by
    rw [String.toList_append, String.toList_append, List.append_assoc]
    rfl
  rw [hmarker, tags_before_tag, ← List.cons_append, tags_newline]
  rfl

theorem openAfter_before_marker {a : String} (h : openAfter false (tags (a ++ thinkOpen).toList) = some true) :
    openAfter false (tags a.toList) = some false := by
  have htags := tags_thinkOpen a ""
  rw [String.append_empty] at htags
  rw [htags, openAfter_append] at h
  cases hbefore : openAfter false (tags a.toList) with
  | none => simp [hbefore] at h
  | some inside =>
    cases inside with
    | false => rfl
    | true => simp [hbefore, openAfter] at h

theorem closeThinkBlock_balanced (completion : String) :
    (∀ prompt, endsWith prompt thinkOpen = true → openAfter false (tags prompt.toList) = some true →
        openAfter false (tags completion.toList) = some false ∨
          openAfter true (tags completion.toList) = some false →
        openAfter false (tags (closeThinkBlock prompt completion ++ completion).toList) = some false) ∧
      ∃ ending, ∀ a, closeThinkBlock (a ++ thinkOpen) completion = a ++ ending := by
  constructor
  · intro prompt hends hprompt hcompletion
    obtain ⟨a, rfl⟩ := eq_append_of_endsWith hends
    have hbefore := openAfter_before_marker hprompt
    rw [closeThinkBlock_marker]
    rcases hcompletion with hvisible | hreasoning
    · have hopens : ¬ completionOpensInThink completion = true := by
        rw [completionOpensInThink_iff]
        exact openAfter_not_closing hvisible
      rw [if_neg hopens, tags_thinkClosed, openAfter_append, hbefore]
      exact hvisible
    · have hopens : completionOpensInThink completion = true := by
        rw [completionOpensInThink_iff]
        exact openAfter_closing hreasoning
      rw [if_pos hopens, tags_thinkOpen, openAfter_append, hbefore]
      exact hreasoning
  · exact ⟨_, fun a => closeThinkBlock_marker a completion⟩

theorem closeThinkBlock_balanced_reasoning :
    openAfter false (tags (closeThinkBlock "a<think>\n" "b</think>c" ++ "b</think>c").toList) = some false :=
  (closeThinkBlock_balanced "b</think>c").1 "a<think>\n" (by decide) (by decide) (.inr (by decide))

end TokensThatSuffice
