import Mathlib.Algebra.Order.Field.Basic
import Mathlib.Algebra.Order.Field.Rat
import TokensThatSuffice.TrainingLoops

namespace TokensThatSuffice

open NumberedBlocks

section Schedule

variable (learningRate : ℚ) (cfg : TrainConfig) (base : List AgentTrajectory)

def totalBatchesEstimate : ℕ := cfg.numEpochs * (base.length / cfg.batchSize)

def lrMult (globalBatchIdx : ℕ) : ℚ := max 0 (1 - globalBatchIdx / max 1 (totalBatchesEstimate cfg base : ℚ))

def currentLr (globalBatchIdx : ℕ) : ℚ := learningRate * lrMult cfg base globalBatchIdx

def TrainEvent.lr? : TrainEvent → Option ℚ
  | .save _ => none
  | .gradientStep _ globalBatchIdx _ => some (currentLr learningRate cfg base globalBatchIdx)

def stepRates (trace : List TrainEvent) : List ℚ := trace.filterMap (TrainEvent.lr? learningRate cfg base)

end Schedule

structure CoversRun (rates : List ℚ) : Prop where
  positive : ∀ r ∈ rates, 0 < r
  decaying : rates.Pairwise (fun r r' => r' ≤ r)

def examplesPerEpoch (o : SftOptions) (base : List AgentTrajectory) : ℕ :=
  base.length + if o.augmentWithPrefixes then base.countP (fun t => 2 ≤ t.steps.length) else 0

section Lengths

variable {rng : RandomModule} {cfg : TrainConfig} {o : SftOptions} {base : List AgentTrajectory}

theorem length_augmentWith {fractionOf : ℕ → ℤ} {g g' : rng.Gen} {ts more : List AgentTrajectory}
    (h : augmentWith rng fractionOf g ts = .ok (more, g')) :
    more.length = ts.countP (fun t => 2 ≤ t.steps.length) := by
  induction ts generalizing g more with
  | nil =>
    cases h
    rfl
  | cons t ts ih =>
    rw [augmentWith] at h
    dsimp only at h
    split_ifs at h with hshort
    · rw [ih h, List.countP_cons_of_neg (by simpa using hshort)]
    · obtain ⟨⟨k, g₁⟩, -, h⟩ := bind_eq_ok.mp h
      obtain ⟨⟨more', g₂⟩, hmore, h⟩ := bind_eq_ok.mp h
      cases h
      rw [List.length_cons, ih hmore, List.countP_cons_of_pos (by rw [decide_eq_true_iff]; omega)]

theorem length_epochTrajectories {epoch : ℕ} {ts : List AgentTrajectory}
    (h : epochTrajectories rng o base epoch = .ok ts) : ts.length = examplesPerEpoch o base := by
  obtain ⟨⟨sampled, g⟩, hsampled, h⟩ := bind_eq_ok.mp h
  cases h
  rw [(rng.shuffle_perm g sampled).length_eq, examplesPerEpoch]
  unfold sampleTrainingTrajectories at hsampled
  split_ifs at hsampled with haugment
  · obtain ⟨⟨more, g'⟩, hmore, hsampled⟩ := bind_eq_ok.mp hsampled
    cases hsampled
    rw [if_pos haugment, List.length_append, length_augmentWith hmore]
  · cases hsampled
    rw [if_neg haugment, Nat.add_zero]

theorem fst_batchSteps (startBatch : ℕ) (steps : ℕ → TrainUnit → Bool) (u : ℕ → TrainUnit)
    (batch : ℕ → ℕ → List AgentTrajectory) (batches : List ℕ) (s : LoopState) :
    (batches.foldl (fun s b => batchStep cfg startBatch steps (u b) (batch b) s) s).1 = s.1 + batches.length := by
  induction batches generalizing s with
  | nil => rfl
  | cons b batches ih =>
    have hstep : (batchStep cfg startBatch steps (u b) (batch b) s).1 = s.1 + 1 := by
      unfold batchStep
      split_ifs <;> rfl
    rw [List.foldl_cons, ih, hstep, List.length_cons]
    omega

theorem fst_sftEpochs {epochs : List ℕ} {startBatch : ℕ} {s final : LoopState}
    (h : epochs.foldlM (sftEpoch rng cfg o base startBatch) s = .ok final) :
    final.1 = s.1 + epochs.length * (examplesPerEpoch o base / cfg.batchSize) ∧
      (epochs ≠ [] → cfg.batchSize ≠ 0) := by
  induction epochs generalizing s with
  | nil =>
    cases h
    simp
  | cons epoch epochs ih =>
    rw [List.foldlM_cons] at h
    obtain ⟨s₁, hepoch, h⟩ := bind_eq_ok.mp h
    obtain ⟨ts, hts, hepoch⟩ := bind_eq_ok.mp hepoch
    split_ifs at hepoch with hzero
    cases hepoch
    rw [(ih h).1, fst_batchSteps, List.length_range, length_epochTrajectories hts, List.length_cons, Nat.succ_mul]
    exact ⟨by omega, fun _ => hzero⟩

end Lengths

theorem unroll_singles {α ε : Type} (f : ℕ → ε) (i : ℕ) (us : List α) :
    unroll (fun k _ => [f k]) i us = (List.range' i us.length).map f := by
  induction us generalizing i with
  | nil => rfl
  | cons u us ih => rw [unroll, ih, List.length_cons, List.range'_succ, List.map_cons, List.singleton_append]

theorem stepRates_eq {rng : RandomModule} {cfg : TrainConfig} {o : SftOptions} {base : List AgentTrajectory}
    {trace : List TrainEvent} (learningRate : ℚ) (h : trainSftMain rng cfg o base none = .ok trace) :
    stepRates learningRate cfg base trace =
        (List.range (cfg.numEpochs * (examplesPerEpoch o base / cfg.batchSize))).map
          (currentLr learningRate cfg base) ∧
      cfg.batchSize ≤ base.length ∧ (cfg.numEpochs ≠ 0 → cfg.batchSize ≠ 0) := by
  obtain ⟨works, hmain⟩ := trainSftMain_runsWork rng cfg h
  have htrace := hmain none
  rw [h, Option.getD_none, Except.ok.injEq, Nat.zero_add] at htrace
  unfold trainSftMain at h
  split_ifs at h with hsmall
  obtain ⟨final, hfinal, h⟩ := bind_eq_ok.mp h
  cases h
  obtain ⟨hlast, hzero⟩ := fst_sftEpochs hfinal
  have hworks : works.length = final.1 := by
    have hsaves := congrArg List.getLast? htrace
    rw [List.getLast?_concat, List.getLast?_concat, Option.some.injEq] at hsaves
    exact (TrainEvent.save.inj hsaves).symm
  have hblock (i : ℕ) (w : Work) :
      (workBlock cfg (fun _ _ => true) i w).filterMap (TrainEvent.lr? learningRate cfg base) =
      [currentLr learningRate cfg base i] := by
    have hsave : (checkpointAt cfg i).filterMap (TrainEvent.lr? learningRate cfg base) = [] := by
      unfold checkpointAt
      split_ifs <;> rfl
    rw [workBlock, List.filterMap_append, hsave]
    rfl
  refine ⟨?_, not_lt.mp hsmall, ?_⟩
  · rw [stepRates, htrace, List.filterMap_append, filterMap_unroll hblock, unroll_singles, hworks, hlast,
      List.length_range, List.range_eq_range', Option.getD_none, Nat.zero_add]
    exact List.append_nil _
  · intro hepochs
    apply hzero
    rwa [ne_eq, List.range_eq_nil]

section Rates

variable {learningRate : ℚ} {cfg : TrainConfig} {base : List AgentTrajectory}

theorem lrMult_antitone {g g' : ℕ} (h : g ≤ g') : lrMult cfg base g' ≤ lrMult cfg base g := by
  have hpos : (0 : ℚ) < max 1 (totalBatchesEstimate cfg base : ℚ) := lt_max_of_lt_left one_pos
  apply max_le_max_left
  apply sub_le_sub_left
  exact div_le_div_of_nonneg_right (Nat.cast_le.mpr h) hpos.le

theorem lrMult_pos_iff (g : ℕ) : 0 < lrMult cfg base g ↔ g < max 1 (totalBatchesEstimate cfg base) := by
  have hpos : (0 : ℚ) < max 1 (totalBatchesEstimate cfg base : ℚ) := lt_max_of_lt_left one_pos
  rw [lrMult, lt_max_iff, or_iff_right (lt_irrefl 0), sub_pos, div_lt_one hpos]
  exact_mod_cast Iff.rfl

theorem coversRun_range_iff {n : ℕ} (hn : 0 < n) :
    CoversRun ((List.range n).map (currentLr learningRate cfg base)) ↔
      0 < learningRate ∧ n ≤ max 1 (totalBatchesEstimate cfg base) := by
  constructor
  · rintro ⟨hpos, -⟩
    have hfirst : 0 < lrMult cfg base 0 := (lrMult_pos_iff 0).mpr (lt_max_of_lt_left one_pos)
    have hrate := hpos _ (List.mem_map_of_mem (List.mem_range.mpr hn))
    have hlast := hpos _ (List.mem_map_of_mem (List.mem_range.mpr (Nat.sub_one_lt_of_lt hn)))
    have hlr : 0 < learningRate := (mul_pos_iff_of_pos_right hfirst).mp hrate
    have hmult : 0 < lrMult cfg base (n - 1) := (mul_pos_iff_of_pos_left hlr).mp hlast
    rw [lrMult_pos_iff] at hmult
    exact ⟨hlr, by omega⟩
  · rintro ⟨hlr, hle⟩
    constructor
    · intro r hr
      obtain ⟨g, hg, rfl⟩ := List.mem_map.mp hr
      rw [List.mem_range] at hg
      exact mul_pos hlr ((lrMult_pos_iff g).mpr (by omega))
    · rw [List.pairwise_map]
      apply List.pairwise_lt_range.imp
      intro g g' h
      exact mul_le_mul_of_nonneg_left (lrMult_antitone h.le) hlr.le

end Rates

theorem coversRun_iff {rng : RandomModule} {cfg : TrainConfig} {o : SftOptions} {base : List AgentTrajectory}
    {trace : List TrainEvent} (learningRate : ℚ) (h : trainSftMain rng cfg o base none = .ok trace) :
    CoversRun (stepRates learningRate cfg base trace) ↔
      cfg.numEpochs = 0 ∨ 0 < learningRate ∧ (o.augmentWithPrefixes = true →
        (base.length + base.countP (fun t => 2 ≤ t.steps.length)) / cfg.batchSize = base.length / cfg.batchSize) := by
  obtain ⟨hrates, hsmall, hzero⟩ := stepRates_eq learningRate h
  rw [hrates]
  by_cases hepochs : cfg.numEpochs = 0
  · rw [hepochs, Nat.zero_mul, List.range_zero, List.map_nil]
    exact ⟨fun _ => .inl rfl, fun _ => ⟨by simp, .nil⟩⟩
  · have hsize := Nat.pos_of_ne_zero (hzero hepochs)
    have hbase : 0 < base.length / cfg.batchSize := Nat.div_pos hsmall hsize
    have hgrows : base.length / cfg.batchSize ≤ examplesPerEpoch o base / cfg.batchSize :=
      Nat.div_le_div_right (Nat.le_add_right _ _)
    have hpos := Nat.pos_of_ne_zero hepochs
    have hhorizon : max 1 (totalBatchesEstimate cfg base) = cfg.numEpochs * (base.length / cfg.batchSize) :=
      max_eq_right (Nat.mul_pos hpos hbase)
    rw [coversRun_range_iff (Nat.mul_pos hpos (hbase.trans_le hgrows)), or_iff_right hepochs, hhorizon,
      Nat.mul_le_mul_left_iff hpos]
    apply and_congr_right
    intro _
    unfold examplesPerEpoch at hgrows ⊢
    cases haugment : o.augmentWithPrefixes with
    | false => simp
    | true =>
      rw [haugment, if_pos rfl] at hgrows
      rw [if_pos rfl, imp_iff_right rfl]
      exact ⟨fun hle => le_antisymm hle hgrows, fun heq => heq.le⟩

def oneEpoch : TrainConfig := { batchSize := 1, numEpochs := 1, saveEvery := 0 }

def twoSteps : AgentTrajectory where
  task := .text "t"
  steps := [{ role := .assistant, content := .text "ls" }, { role := .tool, content := .text "a" }]
  continuation := []
  summary := "s"

def augmentedRun : List TrainEvent :=
  [.gradientStep (0, 0) 0 [twoSteps], .gradientStep (0, 1) 1 [twoSteps.withPrefix 1], .save 2]

theorem not_coversRun_augmented :
    trainSftMain twoElementRandom oneEpoch ⟨true, fun n => (3 * n / 10 : ℤ)⟩ [twoSteps] none = .ok augmentedRun ∧
      ¬ CoversRun (stepRates (1 / 10000) oneEpoch [twoSteps] augmentedRun) := by
  refine ⟨rfl, ?_⟩
  intro h
  have hzero : currentLr (1 / 10000) oneEpoch [twoSteps] 1 = 0 := by decide +kernel
  have hpos := h.positive (currentLr (1 / 10000) oneEpoch [twoSteps] 1)
    (by simp [stepRates, augmentedRun, TrainEvent.lr?])
  rw [hzero] at hpos
  exact lt_irrefl 0 hpos

def twoEpochs : TrainConfig := { batchSize := 1, numEpochs := 2, saveEvery := 0 }

def storedRun : List TrainEvent :=
  [.gradientStep (0, 0) 0 [twoSteps], .gradientStep (0, 1) 1 [labelled "s"], .gradientStep (1, 0) 2 [twoSteps],
    .gradientStep (1, 1) 3 [labelled "s"], .save 4]

theorem coversRun_iff_stored :
    stepRates (1 / 10000) twoEpochs [twoSteps, labelled "s"] storedRun = [1 / 10000, 3 / 40000, 1 / 20000, 1 / 40000] ∧
      CoversRun (stepRates (1 / 10000) twoEpochs [twoSteps, labelled "s"] storedRun) := by
  constructor
  · decide +kernel
  · have hrun : trainSftMain twoElementRandom twoEpochs ⟨false, fun _ => 0⟩ [twoSteps, labelled "s"] none =
        .ok storedRun := rfl
    exact (coversRun_iff (1 / 10000) hrun).mpr (.inr ⟨by norm_num, fun h => absurd h (by decide)⟩)

end TokensThatSuffice
