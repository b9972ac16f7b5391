import Mathlib.Data.List.TakeWhile
import TokensThatSuffice.Masking
import TokensThatSuffice.WordGrams

namespace TokensThatSuffice

open WordGrams

variable (py : Python)

def inlineMarker (s : List Char) : Bool :=
  keepOutputWords.any (fun w => (s.map foldCase).tails.any ((w.toList.map foldCase).isPrefixOf ·)) ||
    diffWordFrom py false s

theorem shouldKeepToolOutput_text (s : String) :
    shouldKeepToolOutput py (.text s) = (inlineMarker py s.toList || startsWithDiffMarker s.toList) := rfl

theorem inlineMarker_iff (s : List Char) :
    inlineMarker py s = true ↔
      (∃ w ∈ keepOutputWords, w.toList.map foldCase <:+: s.map foldCase) ∨ diffWordFrom py false s = true := by
  rw [inlineMarker, Bool.or_eq_true, List.any_eq_true]
  simp only [any_tails_isPrefixOf]

theorem foldCase_newline : foldCase '\n' = '\n' := by decide

theorem keepOutputWords_oneLine : ∀ w ∈ keepOutputWords, '\n' ∉ w.toList.map foldCase := by decide

variable {py} (hbreak : py.isWord '\n' = false)

include hbreak

theorem diffWordFrom_newline (before : Bool) (b : List Char) :
    diffWordFrom py before ('\n' :: b) = diffWordFrom py false b := by
  have hno : "diff".toList.isPrefixOf (('\n' :: b).map foldCase) = false := by
    rw [List.map_cons, foldCase_newline]
    rfl
  rw [diffWordFrom, hno, hbreak, Bool.and_false, Bool.false_and, Bool.false_or]

theorem diffWordFrom_append_line (before : Bool) (a b : List Char) :
    diffWordFrom py before (a ++ '\n' :: b) = (diffWordFrom py before a || diffWordFrom py false b) := by
  induction a generalizing before with
  | nil =>
    rw [List.nil_append, diffWordFrom_newline hbreak]
    rfl
  | cons c a ih =>
    have hprefix : "diff".toList.isPrefixOf ((c :: (a ++ '\n' :: b)).map foldCase) =
        "diff".toList.isPrefixOf ((c :: a).map foldCase) := by
      rw [← List.cons_append, Bool.eq_iff_iff, List.isPrefixOf_iff_prefix, List.isPrefixOf_iff_prefix,
        List.map_append, List.map_cons (a := '\n'), foldCase_newline, prefix_append_cons (by decide)]
    rw [List.cons_append, diffWordFrom, diffWordFrom, ih, hprefix, ← Bool.or_assoc]
    congr 2
    cases h : "diff".toList.isPrefixOf ((c :: a).map foldCase) with
    | false => rw [Bool.and_false, Bool.false_and, Bool.false_and]
    | true =>
      -- what follows the word is the rest of its line, or the line break, which is no word character
      have hlen : 4 ≤ (c :: a).length := by
        rw [← List.length_map foldCase]
        exact (List.isPrefixOf_iff_prefix.mp h).length_le
      rw [← List.cons_append, List.drop_append_of_le_length hlen]
      cases (c :: a).drop 4 with
      | nil => simp only [List.nil_append, List.head?_cons, List.head?_nil, Option.any_some, Option.any_none, hbreak]
      | cons x rest => rfl

theorem inlineMarker_append_line (a b : List Char) :
    inlineMarker py (a ++ '\n' :: b) = true ↔ inlineMarker py a = true ∨ inlineMarker py b = true := by
  have hwords : (∃ w ∈ keepOutputWords, w.toList.map foldCase <:+: (a ++ '\n' :: b).map foldCase) ↔
      (∃ w ∈ keepOutputWords, w.toList.map foldCase <:+: a.map foldCase) ∨
        ∃ w ∈ keepOutputWords, w.toList.map foldCase <:+: b.map foldCase := by
    rw [List.map_append, List.map_cons, foldCase_newline, ← exists_or]
    apply exists_congr
    intro w
    rw [← and_or_left]
    apply and_congr_right
    intro hw
    exact infix_append_cons (keepOutputWords_oneLine w hw) _ _
  rw [inlineMarker_iff, inlineMarker_iff, inlineMarker_iff, hwords, diffWordFrom_append_line hbreak, Bool.or_eq_true,
    or_or_or_comm]

omit hbreak

theorem startsWithDiffMarker_append_line (a b : List Char) :
    startsWithDiffMarker (a ++ '\n' :: b) = true ↔
      startsWithDiffMarker a = true ∨ a.all isSpace = true ∧ startsWithDiffMarker b = true := by
  have hspace : isSpace '\n' = true := by decide
  have hall : a.all isSpace = true ↔ a.dropWhile isSpace = [] := by
    rw [List.all_eq_true, List.dropWhile_eq_nil_iff]
  rw [hall]
  unfold startsWithDiffMarker
  dsimp only
  rw [List.dropWhile_append]
  cases a.dropWhile isSpace with
  | nil => simp [List.dropWhile_cons_of_pos hspace]
  | cons c body =>
    -- neither marker holds a line break
    simp only [List.isEmpty_cons, Bool.false_eq_true, ↓reduceIte, Bool.or_eq_true, List.isPrefixOf_iff_prefix,
      prefix_append_cons (show '\n' ∉ "+++".toList by decide),
      prefix_append_cons (show '\n' ∉ "---".toList by decide), reduceCtorEq, false_and, or_false]

def Blank (s : String) : Prop := s.toList.all isSpace = true

inductive FoundBetween (py : Python) (p o q : String) : Prop
  | before (h : shouldKeepToolOutput py (.text p) = true)
  | inside (h : inlineMarker py o.toList = true)
  | after (h : inlineMarker py q.toList = true)
  | first (h : Blank p)

theorem keep_between_lines (hbreak : py.isWord '\n' = false) {o : String}
    (ho : shouldKeepToolOutput py (.text o) = true) (p q : String) :
    shouldKeepToolOutput py (.text (p ++ "\n" ++ o ++ "\n" ++ q)) = true ↔ FoundBetween py p o q := by
  have htext : (p ++ "\n" ++ o ++ "\n" ++ q).toList = p.toList ++ '\n' :: (o.toList ++ '\n' :: q.toList) := by
    simp [String.toList_append]
  rw [shouldKeepToolOutput_text, htext, Bool.or_eq_true, inlineMarker_append_line hbreak,
    inlineMarker_append_line hbreak, startsWithDiffMarker_append_line]
  constructor
  · rintro ((h | h | h) | h | ⟨h, -⟩)
    · exact .before (by rw [shouldKeepToolOutput_text, h, Bool.true_or])
    · exact .inside h
    · exact .after h
    · exact .before (by rw [shouldKeepToolOutput_text, h, Bool.or_true])
    · exact .first h
  · intro h
    cases h with
    | before h =>
      rw [shouldKeepToolOutput_text, Bool.or_eq_true] at h
      exact h.elim (fun h => .inl (.inl h)) (fun h => .inr (.inl h))
    | inside h => exact .inl (.inr (.inl h))
    | after h => exact .inl (.inr (.inr h))
    | first hp =>
      rw [shouldKeepToolOutput_text, Bool.or_eq_true] at ho
      rcases ho with ho | ho
      · exact .inl (.inr (.inl ho))
      · right
        right
        exact ⟨hp, (startsWithDiffMarker_append_line o.toList q.toList).mpr (.inl ho)⟩

theorem keep_between_lines_indented :
    shouldKeepToolOutput asciiPython (.text (" " ++ "\n" ++ "--- a.py" ++ "\n" ++ "+++ b.py")) = true :=
  (keep_between_lines (by decide) (by decide) " " "+++ b.py").mpr (.first (by unfold Blank; decide))

theorem keep_between_lines_masks_diff :
    ¬ ∀ o p q : String, shouldKeepToolOutput asciiPython (.text o) = true →
      shouldKeepToolOutput asciiPython (.text (p ++ "\n" ++ o ++ "\n" ++ q)) = true := by
  intro h
  have hkept := h "--- a.py" "patch:" "+++ b.py" (by decide)
  exact absurd hkept (by decide)

end TokensThatSuffice
