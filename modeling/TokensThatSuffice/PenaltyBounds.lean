import TokensThatSuffice.CopyPenalty

namespace TokensThatSuffice

open WordGrams

structure OverlapLaws (n : ℕ) : Prop where
  bounded : ∀ summary source, 0 ≤ ngramOverlap summary source n ∧ ngramOverlap summary source n ≤ 1
  saturates : ∀ summary source, n ≤ (split summary).length → split summary <:+: split source →
    ngramOverlap summary source n = 1
  grows : ∀ summary source source' more, split source' = split source ++ more →
    ngramOverlap summary source n ≤ ngramOverlap summary source' n

theorem overlapLaws (n : ℕ) : OverlapLaws n where
  bounded summary source := ⟨overlap_nonneg n _ _, overlap_le_one n _ _⟩
  saturates summary source hn h := overlap_eq_one_of_infix hn h
  grows summary source source' more h := by
    rw [ngramOverlap, ngramOverlap, h]
    exact overlap_append n _ _ more

structure PenaltyLaws (summary xText : String) (w : CopyWeights) (penalty : ℚ) (c : PenaltyComponents) : Prop where
  overlap : c.overlap = ngramOverlap summary xText 8
  bounded : 0 ≤ c.copyPenalty ∧ c.copyPenalty ≤ w.lambdaCopy
  free : c.overlap ≤ w.copyThreshold → c.copyPenalty = 0
  full : c.overlap = 1 → c.copyPenalty = w.lambdaCopy
  total : c.lenPenalty ≤ penalty ∧ c.copyPenalty ≤ penalty ∧ c.markerPenalty ≤ penalty

section Laws

variable (py : Python) (tokenizer : Tokenizer) {w : CopyWeights}

theorem penaltyLaws (hw : w.Valid) (summary : String) (xMessages : List Message) :
    PenaltyLaws summary (messagesText py xMessages) w (copyPenalty py tokenizer summary xMessages w).1
      (copyPenalty py tokenizer summary xMessages w).2 := by
  have hle := overlap_le_one 8 (split summary) (split (messagesText py xMessages))
  have hlen := lenPenalty_nonneg py tokenizer summary xMessages hw
  have hcopy := CopyWeights.ramp_nonneg hw (ngramOverlap summary (messagesText py xMessages) 8)
  have hmarker := markerPenalty_nonneg py tokenizer summary xMessages hw
  have htotal := copyPenalty_total py tokenizer summary xMessages w
  constructor
  · rfl
  · exact ⟨hcopy, CopyWeights.ramp_le hw hle⟩
  · intro h
    exact CopyWeights.ramp_of_le hw h
  · intro h
    rw [copyPenalty_ramp, ← copyPenalty_overlap py tokenizer summary xMessages w, h]
    exact CopyWeights.ramp_one hw
  · rw [copyPenalty_ramp] at htotal ⊢
    refine ⟨?_, ?_, ?_⟩ <;> linarith

theorem copyPenalty_laws (n : ℕ) (hw : w.Valid) :
    OverlapLaws n ∧
      (∀ summary xMessages, PenaltyLaws summary (messagesText py xMessages) w
        (copyPenalty py tokenizer summary xMessages w).1 (copyPenalty py tokenizer summary xMessages w).2) ∧
      ∀ summary xMessages summary' xMessages',
        (copyPenalty py tokenizer summary xMessages w).2.overlap ≤
            (copyPenalty py tokenizer summary' xMessages' w).2.overlap →
          (copyPenalty py tokenizer summary xMessages w).2.copyPenalty ≤
            (copyPenalty py tokenizer summary' xMessages' w).2.copyPenalty :=
  ⟨overlapLaws n, penaltyLaws py tokenizer hw, fun _ _ _ _ h => CopyWeights.ramp_mono hw h⟩

theorem copyPenalty_laws_observation :
    (copyPenalty asciiPython charTokenizer "1 2 3 4 5 6 7 8 9"
        [{ role := .tool, content := some (.text "1 2 3 4 5 6 7 8") }] ⟨0, 1, 1 / 4, 0⟩).2.overlap = 1 / 2 ∧
      PenaltyLaws "1 2 3 4 5 6 7 8 9"
        (messagesText asciiPython [{ role := .tool, content := some (.text "1 2 3 4 5 6 7 8") }]) ⟨0, 1, 1 / 4, 0⟩
        (copyPenalty asciiPython charTokenizer "1 2 3 4 5 6 7 8 9"
          [{ role := .tool, content := some (.text "1 2 3 4 5 6 7 8") }] ⟨0, 1, 1 / 4, 0⟩).1
        (copyPenalty asciiPython charTokenizer "1 2 3 4 5 6 7 8 9"
          [{ role := .tool, content := some (.text "1 2 3 4 5 6 7 8") }] ⟨0, 1, 1 / 4, 0⟩).2 := by
  constructor
  · decide +kernel
  · have hw : CopyWeights.Valid ⟨0, 1, 1 / 4, 0⟩ := ⟨by norm_num, by norm_num, by norm_num, zero_le_one, le_rfl⟩
    exact (copyPenalty_laws asciiPython charTokenizer 8 hw).2.1 _ _

end Laws

end TokensThatSuffice
