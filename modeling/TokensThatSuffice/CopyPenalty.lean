import Mathlib.Tactic.Linarith
import TokensThatSuffice.CompletionScoring
import TokensThatSuffice.Masking
import TokensThatSuffice.WordGrams

namespace TokensThatSuffice

open WordGrams

def split (s : String) : List (List Char) := words isSpace s.toList

def ngramOverlap (summary source : String) (n : ℕ) : ℚ := overlap n (split summary) (split source)

def copyMarkers : List String := ["<EVENT", "</EVENT>", "<tool_call>", "</tool_call>"]

/-- `lower` is enough here: the only other characters whose lower case has an ASCII letter in it are the Kelvin sign and the
dotted capital I, with k and i, which no marker has. -/
def hasCopyMarkers (summary : String) : Bool := copyMarkers.any (fun m => isIn (lower m) (lower summary))

structure CopyWeights where
  lambdaLen : ℚ := 0
  lambdaCopy : ℚ := 0
  copyThreshold : ℚ := 3 / 10
  markerPenalty : ℚ := 0
  deriving Repr

structure PenaltyComponents where
  nZTokens : ℕ
  nXTokens : ℕ
  lenRatio : ℚ
  overlap : ℚ
  lenPenalty : ℚ
  copyPenalty : ℚ
  markerPenalty : ℚ
  totalPenalty : ℚ
  deriving Repr

variable (py : Python) (tokenizer : Tokenizer)

def messagesText (messages : List Message) : String :=
  join "\n" ((messages.filter (fun m => m.role ≠ .system)).map (fun m => m.contentOrEmpty.toStr py))

def copyPenalty (summary : String) (xMessages : List Message) (w : CopyWeights) : ℚ × PenaltyComponents :=
  let xText := messagesText py xMessages
  let nZ := if summary ≠ "" then (tokenizer.encode summary).length else 0
  let nX := if xText ≠ "" then (tokenizer.encode xText).length else 0
  let lenRatio : ℚ := if nX ≠ 0 then nZ / nX else 0
  let lenPen := w.lambdaLen * lenRatio
  let overlap := ngramOverlap summary xText 8
  let excess := max 0 (overlap - w.copyThreshold)
  let denom := 1 - w.copyThreshold
  let copyPen := w.lambdaCopy * (if 0 < denom then excess / denom else 0)
  let markerPen := if hasCopyMarkers summary then w.markerPenalty else 0
  let total := lenPen + copyPen + markerPen
  (total, {
    nZTokens := nZ
    nXTokens := nX
    lenRatio
    overlap
    lenPenalty := lenPen
    copyPenalty := copyPen
    markerPenalty := markerPen
    totalPenalty := total })

structure CopyWeights.Valid (w : CopyWeights) : Prop where
  threshold_nonneg : 0 ≤ w.copyThreshold
  threshold_lt_one : w.copyThreshold < 1
  lambdaLen_nonneg : 0 ≤ w.lambdaLen
  lambdaCopy_nonneg : 0 ≤ w.lambdaCopy
  markerPenalty_nonneg : 0 ≤ w.markerPenalty

namespace CopyWeights

variable (w : CopyWeights)

def ramp (overlap : ℚ) : ℚ :=
  w.lambdaCopy * (if 0 < 1 - w.copyThreshold then max 0 (overlap - w.copyThreshold) / (1 - w.copyThreshold) else 0)

variable {w} (hw : w.Valid)

include hw

theorem ramp_eq (overlap : ℚ) :
    w.ramp overlap = w.lambdaCopy * (max 0 (overlap - w.copyThreshold) / (1 - w.copyThreshold)) := by
  rw [ramp, if_pos (sub_pos.mpr hw.threshold_lt_one)]

theorem ramp_mono {a b : ℚ} (h : a ≤ b) : w.ramp a ≤ w.ramp b := by
  rw [ramp_eq hw, ramp_eq hw]
  apply mul_le_mul_of_nonneg_left _ hw.lambdaCopy_nonneg
  apply div_le_div_of_nonneg_right _ (sub_nonneg.mpr hw.threshold_lt_one.le)
  exact max_le_max_left 0 (sub_le_sub_right h _)

theorem ramp_of_le {a : ℚ} (h : a ≤ w.copyThreshold) : w.ramp a = 0 := by
  rw [ramp_eq hw, max_eq_left (sub_nonpos.mpr h), zero_div, mul_zero]

theorem ramp_one : w.ramp 1 = w.lambdaCopy := by
  have hdenom : 0 < 1 - w.copyThreshold := sub_pos.mpr hw.threshold_lt_one
  rw [ramp_eq hw, max_eq_right hdenom.le, div_self hdenom.ne', mul_one]

theorem ramp_nonneg (a : ℚ) : 0 ≤ w.ramp a := by
  rcases le_total a w.copyThreshold with h | h
  · exact (ramp_of_le hw h).ge
  · rw [← ramp_of_le hw le_rfl]
    exact ramp_mono hw h

theorem ramp_le {a : ℚ} (h : a ≤ 1) : w.ramp a ≤ w.lambdaCopy := by
  rw [← ramp_one hw]
  exact ramp_mono hw h

end CopyWeights

def Charged (summary : String) (xMessages : List Message) : Prop :=
  ∀ w : CopyWeights, w.Valid → min w.lambdaCopy w.markerPenalty ≤ (copyPenalty py tokenizer summary xMessages w).1

section Terms

variable {summary : String} {xMessages : List Message} {w : CopyWeights}

theorem ratio_nonneg (a b : ℕ) : (0 : ℚ) ≤ if b ≠ 0 then (a : ℚ) / b else 0 := by
  split_ifs
  · positivity
  · exact le_rfl

theorem lenPenalty_nonneg (summary : String) (xMessages : List Message) (hw : w.Valid) :
    0 ≤ (copyPenalty py tokenizer summary xMessages w).2.lenPenalty :=
  mul_nonneg hw.lambdaLen_nonneg (ratio_nonneg _ _)

theorem markerPenalty_eq (summary : String) (xMessages : List Message) (w : CopyWeights) :
    (copyPenalty py tokenizer summary xMessages w).2.markerPenalty =
      if hasCopyMarkers summary then w.markerPenalty else 0 := by
  simp only [copyPenalty]

theorem markerPenalty_nonneg (summary : String) (xMessages : List Message) (hw : w.Valid) :
    0 ≤ (copyPenalty py tokenizer summary xMessages w).2.markerPenalty := by
  rw [markerPenalty_eq]
  split_ifs
  · exact hw.markerPenalty_nonneg
  · exact le_rfl

theorem copyPenalty_overlap (summary : String) (xMessages : List Message) (w : CopyWeights) :
    (copyPenalty py tokenizer summary xMessages w).2.overlap = ngramOverlap summary (messagesText py xMessages) 8 := rfl

theorem copyPenalty_ramp (summary : String) (xMessages : List Message) (w : CopyWeights) :
    (copyPenalty py tokenizer summary xMessages w).2.copyPenalty =
      w.ramp (ngramOverlap summary (messagesText py xMessages) 8) := rfl

theorem copyPenalty_total (summary : String) (xMessages : List Message) (w : CopyWeights) :
    (copyPenalty py tokenizer summary xMessages w).1 =
      (copyPenalty py tokenizer summary xMessages w).2.lenPenalty +
        (copyPenalty py tokenizer summary xMessages w).2.copyPenalty +
        (copyPenalty py tokenizer summary xMessages w).2.markerPenalty := by
  simp only [copyPenalty]

variable {py tokenizer}

theorem charged_of_markers (h : hasCopyMarkers summary) : Charged py tokenizer summary xMessages := by
  intro w hw
  have hlen := lenPenalty_nonneg py tokenizer summary xMessages hw
  have hcopy := CopyWeights.ramp_nonneg hw (ngramOverlap summary (messagesText py xMessages) 8)
  have hmin := min_le_right w.lambdaCopy w.markerPenalty
  rw [copyPenalty_total, copyPenalty_ramp, markerPenalty_eq, if_pos h]
  linarith

theorem charged_of_overlap (h : ngramOverlap summary (messagesText py xMessages) 8 = 1) :
    Charged py tokenizer summary xMessages := by
  intro w hw
  have hlen := lenPenalty_nonneg py tokenizer summary xMessages hw
  have hmarker := markerPenalty_nonneg py tokenizer summary xMessages hw
  have hmin := min_le_left w.lambdaCopy w.markerPenalty
  rw [copyPenalty_total, copyPenalty_ramp, h, CopyWeights.ramp_one hw]
  linarith

theorem not_charged (hmarked : hasCopyMarkers summary = false)
    (hoverlap : ngramOverlap summary (messagesText py xMessages) 8 ≠ 1) :
    ¬ Charged py tokenizer summary xMessages := by
  intro h
  have hlt : ngramOverlap summary (messagesText py xMessages) 8 < 1 :=
    lt_of_le_of_ne (overlap_le_one _ _ _) hoverlap
  have hw : CopyWeights.Valid ⟨0, 1, 0, 1⟩ := ⟨le_rfl, zero_lt_one, le_rfl, zero_le_one, zero_le_one⟩
  have htotal := h ⟨0, 1, 0, 1⟩ hw
  simp only [copyPenalty, hmarked, min_self, zero_mul, zero_add, one_mul, sub_zero, div_one, zero_lt_one,
    if_true, Bool.false_eq_true, if_false, add_zero] at htotal
  exact absurd htotal (not_le.mpr (max_lt zero_lt_one hlt))

end Terms

variable {py tokenizer}

theorem charged_iff {summary : String} (hlong : 8 ≤ (split summary).length) (xMessages : List Message) :
    Charged py tokenizer summary xMessages ↔ hasCopyMarkers summary = true ∨
      ∀ g, g <:+: split summary → g.length = 8 → g <:+: split (messagesText py xMessages) := by
  have hoverlap : ngramOverlap summary (messagesText py xMessages) 8 = 1 ↔
      ∀ g, g <:+: split summary → g.length = 8 → g <:+: split (messagesText py xMessages) := by
    rw [ngramOverlap, overlap_eq_one_iff hlong]
    constructor
    · intro h g hg hlen
      exact (mem_grams_of_length hlen).mp (h g ((mem_grams_of_length hlen).mpr hg))
    · intro h g hg
      obtain ⟨hlen, hinfix⟩ := (mem_grams hlong).mp hg
      exact (mem_grams_of_length hlen).mpr (h g hinfix hlen)
  rw [← hoverlap]
  constructor
  · intro h
    by_contra hnot
    rw [not_or, Bool.not_eq_true] at hnot
    exact not_charged hnot.1 hnot.2 h
  · rintro (hmarked | hoverlap)
    · exact charged_of_markers hmarked
    · exact charged_of_overlap hoverlap

theorem split_append_sep (c : Char) (hc : isSpace c = true) (a b : String) :
    split (a ++ String.singleton c ++ b) = split a ++ split b := by
  rw [split, String.toList_append, String.toList_append, String.toList_singleton, List.append_assoc]
  exact words_append hc a.toList b.toList

theorem split_join (parts : List String) : split (join "\n" parts) = parts.flatMap split := by
  induction parts with
  | nil => rfl
  | cons a rest ih =>
    cases rest with
    | nil => rw [List.flatMap_singleton, join]
    | cons b rest =>
      rw [List.flatMap_cons, ← ih]
      exact split_append_sep '\n' rfl a (join "\n" (b :: rest))

theorem isIn_iff (needle s : String) : isIn needle s = true ↔ needle.toList <:+: s.toList := by
  rw [isIn, any_tails_isPrefixOf]

end TokensThatSuffice
