import TokensThatSuffice.GroupAdvantages

namespace TokensThatSuffice

open HalfEven Means

/-- What is used of `tinker.types.ModelInput`; `append` takes the tokens of an `EncodedTextChunk`. -/
structure ModelInputs (M : Type) where
  tokens : M → List ℕ
  length : M → ℕ
  append : M → List ℕ → M

structure ModelInputs.Lawful {M : Type} (inputs : ModelInputs M) : Prop where
  length_eq : ∀ m, inputs.length m = (inputs.tokens m).length
  tokens_append : ∀ m chunk, inputs.tokens (inputs.append m chunk) = inputs.tokens m ++ chunk

def chunkInputs : ModelInputs (List (List ℕ)) where
  tokens m := m.flatten
  length m := (m.map List.length).sum
  append m chunk := m ++ [chunk]

theorem chunkInputs_lawful : chunkInputs.Lawful where
  length_eq m := List.length_flatten.symm
  tokens_append m chunk := by
    show (m ++ [chunk]).flatten = m.flatten ++ chunk
    simp

structure Datum (M R : Type) where
  modelInput : M
  targetTokens : List ℕ
  logprobs : List (Option PyFloat)
  advantages : List R

def hasBadLogprob (g : ScoredSample) : Bool := g.logprobs.any (fun lp => (finiteValue lp).isNone)

section Assembly

variable {M R : Type} [Field R] (inputs : ModelInputs M) (prompt : M)

def buildDatum (sampledTokens : List ℕ) (logprobs : List (Option PyFloat)) (advantage : R) : Datum M R :=
  let obLen : ℤ := inputs.length prompt - 1
  let modelInput := inputs.append prompt sampledTokens.dropLast
  { modelInput := modelInput
    targetTokens := List.replicate obLen.toNat 0 ++ sampledTokens
    logprobs := List.replicate obLen.toNat (some (.finite 0)) ++ logprobs
    advantages := List.replicate obLen.toNat 0 ++
      List.replicate ((inputs.length modelInput : ℤ) - obLen).toNat advantage }

/-- The datums of `zip(group, advantages_G)`; an advantage in exact arithmetic is always finite. -/
def groupDatums (pairs : List (ScoredSample × R)) : List (Datum M R) :=
  (pairs.filter (fun p => !hasBadLogprob p.1)).map (fun p => buildDatum inputs prompt p.1.tokens p.1.logprobs p.2)

def groupStep [LinearOrder R] (sqrt : ℚ → R) (cfg : AdvantageConfig) (group : List ScoredSample) :
    Except PyError (List ℚ × List (Datum M R)) := do
  let outcome ← scoreGroup sqrt cfg group
  return (outcome.meanReward.toList, groupDatums inputs prompt (outcome.advantages.getD []))

end Assembly

section Alignment

variable {M R : Type} [Field R] {inputs : ModelInputs M} {prompt : M} {sampledTokens : List ℕ}
  {logprobs : List (Option PyFloat)} {advantage : R}

structure Datum.Aligned (inputs : ModelInputs M) (prompt : M) (sampledTokens : List ℕ)
    (logprobs : List (Option PyFloat)) (advantage : R) (d : Datum M R) : Prop where
  targetTokens_length : d.targetTokens.length = inputs.length d.modelInput
  logprobs_length : d.logprobs.length = inputs.length d.modelInput
  advantages_length : d.advantages.length = inputs.length d.modelInput
  next_token : ∀ i, inputs.length prompt - 1 ≤ i → i + 1 < inputs.length d.modelInput →
    ∃ t, d.targetTokens[i]? = some t ∧ (inputs.tokens d.modelInput)[i + 1]? = some t
  sampled : d.targetTokens.drop (inputs.length prompt - 1) = sampledTokens
  sampled_logprobs : d.logprobs.drop (inputs.length prompt - 1) = logprobs
  sampled_advantages : d.advantages.drop (inputs.length prompt - 1) = List.replicate sampledTokens.length advantage
  observed : ∀ i < inputs.length prompt - 1, d.logprobs[i]? = some (some (.finite 0)) ∧ d.advantages[i]? = some 0

variable (hlaws : inputs.Lawful)

include hlaws

theorem length_append (m : M) (chunk : List ℕ) :
    inputs.length (inputs.append m chunk) = inputs.length m + chunk.length := by
  rw [hlaws.length_eq, hlaws.length_eq, hlaws.tokens_append, List.length_append]

theorem buildDatum_aligned (hprompt : 1 ≤ inputs.length prompt) (hsampled : sampledTokens ≠ [])
    (hlogprobs : logprobs.length = sampledTokens.length) :
    (buildDatum inputs prompt sampledTokens logprobs advantage).Aligned inputs prompt sampledTokens logprobs
      advantage := by
  have hpos := List.length_pos_of_ne_nil hsampled
  have hobLen : ((inputs.length prompt : ℤ) - 1).toNat = inputs.length prompt - 1 := by omega
  have hmodel : inputs.length (inputs.append prompt sampledTokens.dropLast) =
      inputs.length prompt - 1 + sampledTokens.length := by
    rw [length_append hlaws, List.length_dropLast]
    omega
  have hrest : ((inputs.length (inputs.append prompt sampledTokens.dropLast) : ℤ) -
      ((inputs.length prompt : ℤ) - 1)).toNat = sampledTokens.length := by omega
  unfold buildDatum
  dsimp only
  rw [hrest, hobLen]
  constructor
  · simp only [List.length_append, List.length_replicate, hmodel]
  · simp only [List.length_append, List.length_replicate, hmodel, hlogprobs]
  · simp only [List.length_append, List.length_replicate, hmodel]
  · intro i hi hlast
    dsimp only at hlast ⊢
    rw [hmodel] at hlast
    have hshift : i + 1 - (inputs.tokens prompt).length = i - (inputs.length prompt - 1) := by
      rw [← hlaws.length_eq]
      omega
    have htoken : i - (inputs.length prompt - 1) < sampledTokens.length - 1 := by omega
    refine ⟨sampledTokens[i - (inputs.length prompt - 1)], ?_, ?_⟩
    · rw [List.getElem?_append_right (by rwa [List.length_replicate]), List.length_replicate,
        List.getElem?_eq_getElem]
    · rw [hlaws.tokens_append, List.getElem?_append_right (by rw [← hlaws.length_eq]; omega), hshift,
        List.getElem?_eq_getElem (by rwa [List.length_dropLast]), List.getElem_dropLast]
  · rw [List.drop_left' List.length_replicate]
  · rw [List.drop_left' List.length_replicate]
  · rw [List.drop_left' List.length_replicate]
  · intro i hi
    dsimp only
    constructor
    · rw [List.getElem?_append_left (by rwa [List.length_replicate]), List.getElem?_replicate_of_lt hi]
    · rw [List.getElem?_append_left (by rwa [List.length_replicate]), List.getElem?_replicate_of_lt hi]

end Alignment

theorem buildDatum_aligned_pair :
    (buildDatum chunkInputs [[1, 2], [3]] [7, 8] [some (.finite (-1)), some (.finite (-2))] (1 / 2 : ℚ)).Aligned
      chunkInputs [[1, 2], [3]] [7, 8] [some (.finite (-1)), some (.finite (-2))] (1 / 2) := by
  have hprompt : 1 ≤ chunkInputs.length [[1, 2], [3]] := by decide
  exact buildDatum_aligned chunkInputs_lawful hprompt (List.cons_ne_nil 7 [8]) rfl

section Centering

variable {M R : Type} [Field R] {inputs : ModelInputs M} {prompt : M} {sqrt : ℚ → R} {cfg : AdvantageConfig}
  {group : List ScoredSample} {means : List ℚ} {datums : List (Datum M R)}

def Datum.carried (d : Datum M R) : R := d.advantages.getLastD 0

def cleanSamples (group : List ScoredSample) : List ScoredSample :=
  (validSamples group).filter (fun g => !hasBadLogprob g)

theorem carried_buildDatum (hlaws : inputs.Lawful) (sampledTokens : List ℕ) (logprobs : List (Option PyFloat))
    (advantage : R) : (buildDatum inputs prompt sampledTokens logprobs advantage).carried = advantage := by
  obtain ⟨n, hn⟩ : ∃ n, ((inputs.length (inputs.append prompt sampledTokens.dropLast) : ℤ) -
      ((inputs.length prompt : ℤ) - 1)).toNat = n + 1 := by
    rw [length_append hlaws]
    exact ⟨sampledTokens.dropLast.length, by omega⟩
  unfold Datum.carried buildDatum
  dsimp only
  rw [hn, List.replicate_succ', ← List.append_assoc, List.getLastD_concat]

theorem carried_groupDatums (hlaws : inputs.Lawful) :
    (groupDatums inputs prompt ((validSamples group).map (withAdvantage sqrt cfg group))).map Datum.carried =
      ((cleanSamples group).map ScoredSample.value).map (advantageOf sqrt cfg (validRewards group)) := by
  rw [groupDatums, List.filter_map, List.map_map, List.map_map, cleanSamples, List.map_map]
  apply List.map_congr_left
  intro g _
  exact carried_buildDatum hlaws _ _ _

variable [LinearOrder R]

theorem groupStep_scored (h : groupStep inputs prompt sqrt cfg group = .ok (means, datums)) (hne : datums ≠ []) :
    datums = groupDatums inputs prompt ((validSamples group).map (withAdvantage sqrt cfg group)) ∧
      advantageScale sqrt cfg (validRewards group) ≠ 0 := by
  obtain ⟨outcome, hok, h⟩ := bind_eq_ok.mp h
  have hcases := scoreGroup_outcomeOf sqrt cfg group
  rw [hok] at hcases
  cases h
  cases hcases with
  | tooFew => exact absurd rfl hne
  | tied => exact absurd rfl hne
  | scored _ _ hscale => exact ⟨rfl, hscale⟩

variable [IsStrictOrderedRing R]

theorem carried_sum_eq_zero_iff (hlaws : inputs.Lawful)
    (h : groupStep inputs prompt sqrt cfg group = .ok (means, datums)) (hne : datums ≠ []) :
    (datums.map Datum.carried).sum = 0 ↔
      mean (snappedRewards cfg ((cleanSamples group).map ScoredSample.value)) =
        mean (snappedRewards cfg (validRewards group)) := by
  obtain ⟨rfl, hscale⟩ := groupStep_scored h hne
  have hclean : snappedRewards cfg ((cleanSamples group).map ScoredSample.value) ≠ [] := by
    intro hnil
    rw [snappedRewards, List.map_eq_nil_iff, List.map_eq_nil_iff] at hnil
    apply hne
    rw [← List.map_eq_nil_iff, carried_groupDatums hlaws, hnil]
    rfl
  rw [carried_groupDatums hlaws, sum_advantageOf, div_eq_zero_iff, or_iff_left hscale, Rat.cast_eq_zero,
    sum_sub_eq_zero_iff hclean]

theorem carried_sum_of_clean (hlaws : inputs.Lawful)
    (h : groupStep inputs prompt sqrt cfg group = .ok (means, datums)) (hne : datums ≠ [])
    (hclean : ∀ g ∈ validSamples group, hasBadLogprob g = false) : (datums.map Datum.carried).sum = 0 := by
  have hall : cleanSamples group = validSamples group := by
    apply List.filter_eq_self.mpr
    intro g hg
    rw [hclean g hg]
    rfl
  rw [carried_sum_eq_zero_iff hlaws h hne, hall, ← validRewards_eq_map]

theorem groupStep_of_spread (hsqrt : ∀ v, 0 ≤ sqrt v) (heps : 0 < cfg.advantageEps)
    (htwo : 2 ≤ (validRewards group).length)
    (hspread : ¬ Narrow cfg.minRewardSpread (snappedRewards cfg (validRewards group))) :
    groupStep inputs prompt sqrt cfg group = .ok ([mean (validRewards group)],
      groupDatums inputs prompt ((validSamples group).map (withAdvantage sqrt cfg group))) := by
  obtain ⟨outcome, hok⟩ := scoreGroup_ok hsqrt heps group
  have hcases := scoreGroup_outcomeOf sqrt cfg group
  rw [hok] at hcases
  rw [groupStep, hok]
  cases hcases with
  | tooFew hfew => omega
  | tied _ hnarrow => exact absurd hnarrow hspread
  | scored => rfl

end Centering

theorem groupStep_centered_iff {M : Type} {inputs : ModelInputs M} (hlaws : inputs.Lawful) (prompt : M)
    (cfg : AdvantageConfig) (group : List ScoredSample) {means : List ℚ} {datums : List (Datum M ℝ)}
    (h : groupStep inputs prompt realSqrt cfg group = .ok (means, datums)) (hne : datums ≠ []) :
    ((datums.map Datum.carried).sum = 0 ↔
        mean (snappedRewards cfg ((cleanSamples group).map ScoredSample.value)) =
          mean (snappedRewards cfg (validRewards group))) ∧
      ((∀ g ∈ validSamples group, hasBadLogprob g = false) → (datums.map Datum.carried).sum = 0) :=
  ⟨carried_sum_eq_zero_iff hlaws h hne, carried_sum_of_clean hlaws h hne⟩

def infiniteLogprob : List ScoredSample :=
  [sampleOf 0 (some (.finite 0)), sampleOf 1 (some (.finite (1 / 2))),
    { sampleOf 2 (some (.finite 1)) with logprobs := [some (.finite (-1)), some .negInf] }]

theorem groupStep_infiniteLogprob : groupStep chunkInputs [[1, 2, 3]] realSqrt {} infiniteLogprob =
    .ok ([1 / 2], groupDatums chunkInputs [[1, 2, 3]]
      ((validSamples infiniteLogprob).map (withAdvantage realSqrt {} infiniteLogprob))) := by
  have heps : (0 : ℚ) < 1 / 10 := by norm_num
  have hmean : mean (validRewards infiniteLogprob) = 1 / 2 := by decide +kernel
  rw [← hmean]
  apply groupStep_of_spread realSqrt_nonneg heps
  · decide
  · intro hnarrow
    have hlt := hnarrow 1 (by decide +kernel) 0 (by decide +kernel)
    exact absurd hlt (by decide +kernel)

theorem datums_infiniteLogprob_ne_nil : groupDatums chunkInputs [[1, 2, 3]]
    ((validSamples infiniteLogprob).map (withAdvantage realSqrt {} infiniteLogprob)) ≠ [] := by
  rw [Ne, ← List.map_eq_nil_iff, carried_groupDatums chunkInputs_lawful, List.map_eq_nil_iff, List.map_eq_nil_iff]
  decide +kernel

theorem not_centered_infiniteLogprob : ∃ means datums,
    groupStep chunkInputs [[1, 2, 3]] realSqrt {} infiniteLogprob = .ok (means, datums) ∧ datums ≠ [] ∧
      (datums.map Datum.carried).sum ≠ 0 := by
  refine ⟨_, _, groupStep_infiniteLogprob, datums_infiniteLogprob_ne_nil, ?_⟩
  rw [Ne, carried_sum_eq_zero_iff chunkInputs_lawful groupStep_infiniteLogprob datums_infiniteLogprob_ne_nil]
  decide +kernel

theorem groupStep_centered_infiniteLogprob : ∃ means datums,
    groupStep chunkInputs [[1, 2, 3]] realSqrt {} infiniteLogprob = .ok (means, datums) ∧ datums ≠ [] ∧
      ((datums.map Datum.carried).sum = 0 ↔
        mean (snappedRewards {} ((cleanSamples infiniteLogprob).map ScoredSample.value)) =
          mean (snappedRewards {} (validRewards infiniteLogprob))) ∧
      ((∀ g ∈ validSamples infiniteLogprob, hasBadLogprob g = false) → (datums.map Datum.carried).sum = 0) := by
  refine ⟨_, _, groupStep_infiniteLogprob, datums_infiniteLogprob_ne_nil, ?_⟩
  exact groupStep_centered_iff chunkInputs_lawful [[1, 2, 3]] {} infiniteLogprob groupStep_infiniteLogprob
    datums_infiniteLogprob_ne_nil

end TokensThatSuffice
