import TokensThatSuffice.NumberedBlocks
import TokensThatSuffice.TrajectoryRecords

namespace TokensThatSuffice

open NumberedBlocks

abbrev TrainUnit := ℕ × ℕ

/-- The calls of a training run that change or save the model, in order. `save` carries `loop_state["batch"]`. -/
inductive TrainEvent where
  | save (batch : ℕ)
  | gradientStep (u : TrainUnit) (globalBatchIdx : ℕ) (batch : List AgentTrajectory)

def TrainEvent.unit? : TrainEvent → Option TrainUnit
  | .save _ => none
  | .gradientStep u _ _ => some u

def executed (trace : List TrainEvent) : List TrainUnit := trace.filterMap TrainEvent.unit?

structure TrainConfig where
  batchSize : ℕ
  numEpochs : ℕ
  saveEvery : ℕ

abbrev LoopState := ℕ × List TrainEvent

def datasetTooSmall (length batchSize : ℕ) : PyError :=
  .valueError ("Dataset has " ++ toString length ++ " trajectories but batch_size=" ++ toString batchSize ++
    ". Reduce batch_size or add more data.")

def checkpointAt (cfg : TrainConfig) (globalBatchIdx : ℕ) : List TrainEvent :=
  if 0 < cfg.saveEvery ∧ globalBatchIdx % cfg.saveEvery = 0 ∧ 0 < globalBatchIdx then [.save globalBatchIdx] else []

/-- One iteration of the batch loop: units before the start are skipped, and `steps` tells whether the
unit, run at the current index, has anything to take a gradient step on. -/
def batchStep (cfg : TrainConfig) (startBatch : ℕ) (steps : ℕ → TrainUnit → Bool) (u : TrainUnit)
    (batch : ℕ → List AgentTrajectory) (s : LoopState) : LoopState :=
  if s.1 < startBatch then (s.1 + 1, s.2)
  else
    (s.1 + 1, s.2 ++ checkpointAt cfg s.1 ++ if steps s.1 u then [.gradientStep u s.1 (batch s.1)] else [])

structure RlOptions where
  splitAtTrainTime : Bool
  minSplitPrefix : ℤ
  minSplitSuffix : ℤ

variable (rng : RandomModule) (cfg : TrainConfig)

def batchAt (shuffled : List AgentTrajectory) (batchInEpoch : ℕ) : List AgentTrajectory :=
  (shuffled.drop (batchInEpoch * cfg.batchSize)).take cfg.batchSize

def rlBatch (o : RlOptions) (shuffled : List AgentTrajectory) (batchInEpoch globalBatchIdx : ℕ) :
    List AgentTrajectory :=
  let rawBatch := batchAt cfg shuffled batchInEpoch
  if o.splitAtTrainTime then
    splitBatch rng o.minSplitPrefix o.minSplitSuffix (rng.seeded globalBatchIdx) rawBatch
  else rawBatch

def rlEpoch (o : RlOptions) (trajectories : List AgentTrajectory) (hasDatums : ℕ → TrainUnit → Bool)
    (startBatch nBatchesPerEpoch : ℕ) (s : LoopState) (epoch : ℕ) : LoopState :=
  let shuffled := (rng.shuffle (rng.seeded epoch) trajectories).1
  (List.range nBatchesPerEpoch).foldl (fun s batchInEpoch =>
    batchStep cfg startBatch hasDatums (epoch, batchInEpoch) (rlBatch rng cfg o shuffled batchInEpoch) s) s

/-- `train_rl.main` after the dataset is loaded. `hasDatums` tells whether the rollouts of a unit at a global
index leave any datum for its gradient step. -/
def trainRlMain (o : RlOptions) (trajectories : List AgentTrajectory) (hasDatums : ℕ → TrainUnit → Bool)
    (resumeInfo : Option ℕ) : Except PyError (List TrainEvent) :=
  if trajectories.length < cfg.batchSize then .error (datasetTooSmall trajectories.length cfg.batchSize)
  else if cfg.batchSize = 0 then .error .zeroDivisionError
  else
    let nBatchesPerEpoch := trajectories.length / cfg.batchSize
    let startBatch := resumeInfo.getD 0
    let final := (List.range cfg.numEpochs).foldl
      (rlEpoch rng cfg o trajectories hasDatums startBatch nBatchesPerEpoch) (startBatch, [])
    .ok (final.2 ++ [.save final.1])

structure SftOptions where
  augmentWithPrefixes : Bool
  /-- `int(n * min_prefix_fraction)`. -/
  fractionOf : ℕ → ℤ

def augmentWith (fractionOf : ℕ → ℤ) (g : rng.Gen) :
    List AgentTrajectory → Except PyError (List AgentTrajectory × rng.Gen)
  | [] => .ok ([], g)
  | t :: rest =>
    let n := t.steps.length
    if n < 2 then augmentWith fractionOf g rest
    else do
      let minSteps := max 1 (fractionOf n)
      let (k, g) ← rng.draw g minSteps (n - 1)
      let (more, g) ← augmentWith fractionOf g rest
      return (t.withPrefix k :: more, g)

def sampleTrainingTrajectories (o : SftOptions) (g : rng.Gen) (trajectories : List AgentTrajectory) :
    Except PyError (List AgentTrajectory × rng.Gen) :=
  if o.augmentWithPrefixes then do
    let (more, g) ← augmentWith rng o.fractionOf g trajectories
    return (trajectories ++ more, g)
  else .ok (trajectories, g)

def epochTrajectories (o : SftOptions) (baseTrajectories : List AgentTrajectory) (epoch : ℕ) :
    Except PyError (List AgentTrajectory) := do
  let (trajectories, g) ← sampleTrainingTrajectories rng o (rng.seeded epoch) baseTrajectories
  return (rng.shuffle g trajectories).1

def sftEpoch (o : SftOptions) (baseTrajectories : List AgentTrajectory) (startBatch : ℕ) (s : LoopState)
    (epoch : ℕ) : Except PyError LoopState := do
  let trajectories ← epochTrajectories rng o baseTrajectories epoch
  if cfg.batchSize = 0 then .error .zeroDivisionError
  else
    let nBatches := trajectories.length / cfg.batchSize
    return (List.range nBatches).foldl (fun s batchInEpoch =>
      batchStep cfg startBatch (fun _ _ => true) (epoch, batchInEpoch)
        (fun _ => batchAt cfg trajectories batchInEpoch) s) s

def trainSftMain (o : SftOptions) (baseTrajectories : List AgentTrajectory) (resumeInfo : Option ℕ) :
    Except PyError (List TrainEvent) :=
  if baseTrajectories.length < cfg.batchSize then
    .error (datasetTooSmall baseTrajectories.length cfg.batchSize)
  else do
    let startBatch := resumeInfo.getD 0
    let final ← (List.range cfg.numEpochs).foldlM (sftEpoch rng cfg o baseTrajectories startBatch) (startBatch, [])
    return final.2 ++ [.save final.1]

abbrev Work := TrainUnit × (ℕ → List AgentTrajectory)

def workStep (startBatch : ℕ) (steps : ℕ → TrainUnit → Bool) (s : LoopState) (w : Work) : LoopState :=
  batchStep cfg startBatch steps w.1 w.2 s

def workBlock (steps : ℕ → TrainUnit → Bool) (i : ℕ) (w : Work) : List TrainEvent :=
  checkpointAt cfg i ++ if steps i w.1 then [.gradientStep w.1 i (w.2 i)] else []

theorem foldl_workStep (startBatch : ℕ) (steps : ℕ → TrainUnit → Bool) (works : List Work) :
    works.foldl (workStep cfg startBatch steps) (startBatch, []) =
      (startBatch + works.length, unroll (workBlock cfg steps) startBatch works) := by
  have hstep : ∀ k, startBatch ≤ k → ∀ out w,
      workStep cfg startBatch steps (k, out) w = (k + 1, out ++ workBlock cfg steps k w) := by
    intro k hk out w
    -- the counter starts at `startBatch` and only grows
    have hskip : ¬ k < startBatch := by omega
    unfold workStep batchStep workBlock
    rw [if_neg hskip, List.append_assoc]
  rw [foldl_eq_unroll hstep, List.nil_append]

def RunsWork (main : Option ℕ → Except PyError (List TrainEvent)) (steps : ℕ → TrainUnit → Bool) (works : List Work) :
    Prop :=
  ∀ resumeInfo, main resumeInfo = .ok (unroll (workBlock cfg steps) (resumeInfo.getD 0) works ++
    [.save (resumeInfo.getD 0 + works.length)])

def epochUnits (nBatches epoch : ℕ) : List TrainUnit := (List.range nBatches).map (epoch, ·)

def schedule (numEpochs nBatches : ℕ) : List TrainUnit := (List.range numEpochs).flatMap (epochUnits nBatches)

theorem trainRlMain_runsWork {o : RlOptions} {trajectories : List AgentTrajectory} {hasDatums : ℕ → TrainUnit → Bool}
    {trace : List TrainEvent} (h : trainRlMain rng cfg o trajectories hasDatums none = .ok trace) :
    ∃ works, RunsWork cfg (trainRlMain rng cfg o trajectories hasDatums) hasDatums works ∧
      works.map Prod.fst = schedule cfg.numEpochs (trajectories.length / cfg.batchSize) := by
  unfold trainRlMain at h
  split_ifs at h with hsmall hzero
  let epochWork (epoch : ℕ) : List Work := (List.range (trajectories.length / cfg.batchSize)).map (fun b =>
    ((epoch, b), rlBatch rng cfg o (rng.shuffle (rng.seeded epoch) trajectories).1 b))
  refine ⟨(List.range cfg.numEpochs).flatMap epochWork, ?_, ?_⟩
  · intro resumeInfo
    have hepoch : rlEpoch rng cfg o trajectories hasDatums (resumeInfo.getD 0) (trajectories.length / cfg.batchSize) =
        fun s epoch => (epochWork epoch).foldl (workStep cfg (resumeInfo.getD 0) hasDatums) s := by
      funext s epoch
      rw [List.foldl_map]
      rfl
    unfold trainRlMain
    rw [if_neg hsmall, if_neg hzero]
    dsimp only
    rw [hepoch, ← List.foldl_flatMap, foldl_workStep]
  · rw [schedule, List.map_flatMap]
    congr 1
    funext epoch
    rw [List.map_map]
    rfl

theorem sftEpochs_works {o : SftOptions} {base : List AgentTrajectory} {epochs : List ℕ} {startBatch : ℕ}
    {s final : LoopState} (h : epochs.foldlM (sftEpoch rng cfg o base startBatch) s = .ok final) :
    ∃ works : List Work, ∀ startBatch' s', epochs.foldlM (sftEpoch rng cfg o base startBatch') s' =
      .ok (works.foldl (workStep cfg startBatch' (fun _ _ => true)) s') := by
  induction epochs generalizing s with
  | nil => exact ⟨[], fun _ _ => rfl⟩
  | cons epoch epochs ih =>
    rw [List.foldlM_cons] at h
    obtain ⟨s₁, hepoch, h⟩ := bind_eq_ok.mp h
    obtain ⟨works, hworks⟩ := ih h
    obtain ⟨trajectories, htrajectories, hepoch⟩ := bind_eq_ok.mp hepoch
    split_ifs at hepoch with hzero
    let epochWork : List Work := (List.range (trajectories.length / cfg.batchSize)).map (fun b =>
      ((epoch, b), fun _ => batchAt cfg trajectories b))
    refine ⟨epochWork ++ works, ?_⟩
    intro startBatch' s'
    have hrun : sftEpoch rng cfg o base startBatch' s' epoch =
        .ok (epochWork.foldl (workStep cfg startBatch' (fun _ _ => true)) s') := by
      unfold sftEpoch
      rw [htrajectories, ok_bind, if_neg hzero, List.foldl_map]
      rfl
    rw [List.foldlM_cons, hrun, ok_bind, hworks, List.foldl_append]

theorem trainSftMain_runsWork {o : SftOptions} {base : List AgentTrajectory} {trace : List TrainEvent}
    (h : trainSftMain rng cfg o base none = .ok trace) :
    ∃ works, RunsWork cfg (trainSftMain rng cfg o base) (fun _ _ => true) works := by
  unfold trainSftMain at h
  split_ifs at h with hsmall
  obtain ⟨final, hfinal, -⟩ := bind_eq_ok.mp h
  obtain ⟨works, hworks⟩ := sftEpochs_works rng cfg hfinal
  refine ⟨works, ?_⟩
  intro resumeInfo
  unfold trainSftMain
  rw [if_neg hsmall]
  dsimp only
  rw [hworks, ok_bind, foldl_workStep]
  rfl

section Resuming

variable {cfg} {steps : ℕ → TrainUnit → Bool} {works : List Work}

theorem executed_unroll (i : ℕ) :
    executed (unroll (workBlock cfg steps) i works) = sift steps i (works.map Prod.fst) := by
  rw [sift, ← unroll_map]
  apply filterMap_unroll
  intro i w
  have hsave : (checkpointAt cfg i).filterMap TrainEvent.unit? = [] := by
    unfold checkpointAt
    split_ifs <;> rfl
  rw [workBlock, List.filterMap_append, hsave, List.nil_append]
  split_ifs <;> rfl

theorem save_of_workBlock {i k : ℕ} {w : Work} {a b : List TrainEvent}
    (h : workBlock cfg steps i w = a ++ .save k :: b) : a = [] ∧ k = i := by
  have hstep (a' : List TrainEvent) :
      (if steps i w.1 then [.gradientStep w.1 i (w.2 i)] else []) ≠ a' ++ TrainEvent.save k :: b := by
    intro hsteps
    have hmem : TrainEvent.save k ∈ (if steps i w.1 then [.gradientStep w.1 i (w.2 i)] else []) := by
      rw [hsteps]
      simp
    split_ifs at hmem <;> simp at hmem
  unfold workBlock checkpointAt at h
  by_cases hdue : 0 < cfg.saveEvery ∧ i % cfg.saveEvery = 0 ∧ 0 < i
  · rw [if_pos hdue] at h
    cases a with
    | nil => exact ⟨rfl, (TrainEvent.save.inj (List.cons.inj h).1).symm⟩
    | cons e a => exact absurd (List.cons.inj h).2 (hstep a)
  · rw [if_neg hdue] at h
    exact absurd h (hstep a)

theorem checkpoint_prefix {pre post : List TrainEvent} {k : ℕ}
    (h : unroll (workBlock cfg steps) 0 works ++ [.save works.length] = pre ++ .save k :: post) :
    ∃ done rest, works = done ++ rest ∧ k = done.length ∧ pre = unroll (workBlock cfg steps) 0 done := by
  have hinside (mid : List TrainEvent) (hunroll : unroll (workBlock cfg steps) 0 works = pre ++ .save k :: mid) :
      ∃ done rest, works = done ++ rest ∧ k = done.length ∧ pre = unroll (workBlock cfg steps) 0 done := by
    obtain ⟨done, rest, hworks, hk, hpre⟩ := unroll_split (fun _ _ _ _ _ => save_of_workBlock) hunroll
    exact ⟨done, rest, hworks, by rw [hk, Nat.zero_add], hpre⟩
  have hatEnd (hpre : pre = unroll (workBlock cfg steps) 0 works) (hk : works.length = k) :
      ∃ done rest, works = done ++ rest ∧ k = done.length ∧ pre = unroll (workBlock cfg steps) 0 done :=
    ⟨works, [], by simp, hk.symm, hpre⟩
  rcases List.append_eq_append_iff.mp h with ⟨mid, hpre, hfinal⟩ | ⟨mid, hunroll, hrest⟩
  · cases mid with
    | nil =>
      rw [List.nil_append, List.cons.injEq] at hfinal
      rw [List.append_nil] at hpre
      exact hatEnd hpre (TrainEvent.save.inj hfinal.1)
    | cons e mid => simp at hfinal
  · cases mid with
    | nil =>
      rw [List.nil_append, List.cons.injEq] at hrest
      rw [List.append_nil] at hunroll
      exact hatEnd hunroll.symm (TrainEvent.save.inj hrest.1).symm
    | cons e mid =>
      rw [List.cons_append, List.cons.injEq] at hrest
      rw [← hrest.1] at hunroll
      exact hinside mid hunroll

def ResumesAt (main : Option ℕ → Except PyError (List TrainEvent)) (pre : List TrainEvent) (k : ℕ)
    (trace : List TrainEvent) : Prop :=
  ∃ resumed, main (some k) = .ok resumed ∧ executed pre ++ executed resumed = executed trace

theorem resumesAt_iff {main : Option ℕ → Except PyError (List TrainEvent)} (hmain : RunsWork cfg main steps works)
    {trace pre post : List TrainEvent} {k : ℕ} (htrace : main none = .ok trace)
    (hsave : trace = pre ++ .save k :: post) :
    k ≤ works.length ∧
      (ResumesAt main pre k trace ↔
        sift steps k (works.map Prod.fst) = sift steps k ((works.map Prod.fst).drop k)) := by
  have hwhole := hmain none
  rw [htrace, Option.getD_none, Except.ok.injEq, Nat.zero_add] at hwhole
  obtain ⟨done, rest, hworks, rfl, hpre⟩ := checkpoint_prefix (hwhole.symm.trans hsave)
  refine ⟨by rw [hworks, List.length_append]; omega, ?_⟩
  have hfinal (i : ℕ) (n : ℕ) :
      executed (unroll (workBlock cfg steps) i works ++ [.save n]) = sift steps i (works.map Prod.fst) := by
    rw [executed, List.filterMap_append, ← executed, executed_unroll]
    exact List.append_nil _
  have hsplit : executed trace = executed pre ++ sift steps done.length ((works.map Prod.fst).drop done.length) := by
    have hlen : (done.map Prod.fst).length = done.length := List.length_map _
    rw [hwhole, hfinal, hpre, executed_unroll, hworks, List.map_append, List.drop_left' hlen, sift, unroll_append,
      Nat.zero_add, hlen]
  unfold ResumesAt
  rw [hmain (some done.length), hsplit]
  constructor
  · rintro ⟨resumed, heq, hexec⟩
    cases heq
    rw [hfinal] at hexec
    exact List.append_cancel_left hexec
  · intro hsame
    refine ⟨_, rfl, ?_⟩
    rw [hfinal]
    exact congrArg (executed pre ++ ·) hsame

end Resuming

theorem schedule_nodup (numEpochs nBatches : ℕ) : (schedule numEpochs nBatches).Nodup :=
  List.nodup_range.product List.nodup_range

theorem resume_repeats_iff :
    (∀ o trajectories hasDatums trace pre k post,
        trainRlMain rng cfg o trajectories hasDatums none = .ok trace → trace = pre ++ .save k :: post →
        (ResumesAt (trainRlMain rng cfg o trajectories hasDatums) pre k trace ↔
          ∀ i u, (schedule cfg.numEpochs (trajectories.length / cfg.batchSize))[i]? = some u →
            hasDatums (k + i) u = (decide (k ≤ i) && hasDatums i u))) ∧
      ∀ o baseTrajectories trace pre k post,
        trainSftMain rng cfg o baseTrajectories none = .ok trace → trace = pre ++ .save k :: post →
        (ResumesAt (trainSftMain rng cfg o baseTrajectories) pre k trace ↔ k = 0) := by
  constructor
  · intro o trajectories hasDatums trace pre k post htrace hsave
    obtain ⟨works, hmain, hunits⟩ := trainRlMain_runsWork rng cfg htrace
    have hdrop := sift_drop k 0 (works.map Prod.fst) (p := hasDatums)
    rw [Nat.zero_add] at hdrop
    rw [(resumesAt_iff hmain htrace hsave).2, hdrop, hunits, sift_eq_iff (schedule_nodup _ _)]
    simp only [Nat.zero_add]
  · intro o baseTrajectories trace pre k post htrace hsave
    obtain ⟨works, hmain⟩ := trainSftMain_runsWork rng cfg htrace
    obtain ⟨hk, hiff⟩ := resumesAt_iff hmain htrace hsave
    rw [hiff, sift_eq_self fun _ _ => rfl, sift_eq_self fun _ _ => rfl]
    constructor
    · intro hsame
      have hlen := congrArg List.length hsame
      rw [List.length_drop, List.length_map] at hlen
      omega
    · rintro rfl
      rfl

def twoElementRandom : RandomModule where
  Gen := Unit
  seeded _ := ()
  randint g lo _ := (lo, g)
  shuffle g xs := (xs, g)
  randint_mem _ lo _ h := ⟨Int.le_refl lo, h⟩
  shuffle_perm _ xs := .refl xs

def savingConfig : TrainConfig := { batchSize := 1, numEpochs := 1, saveEvery := 1 }

def labelled (summary : String) : AgentTrajectory :=
  { task := .text "t", steps := [], continuation := [], summary := summary }

def wholeRun : List TrainEvent :=
  [.gradientStep (0, 0) 0 [labelled "a"], .save 1, .gradientStep (0, 1) 1 [labelled "b"], .save 2]

theorem resume_runs_first_unit_twice :
    trainSftMain twoElementRandom savingConfig ⟨false, fun _ => 0⟩ [labelled "a", labelled "b"] none = .ok wholeRun ∧
      trainRlMain twoElementRandom savingConfig ⟨false, 3, 3⟩ [labelled "a", labelled "b"] (fun _ _ => true) none =
        .ok wholeRun ∧
      ∃ resumed,
        trainSftMain twoElementRandom savingConfig ⟨false, fun _ => 0⟩ [labelled "a", labelled "b"] (some 1) =
          .ok resumed ∧
        trainRlMain twoElementRandom savingConfig ⟨false, 3, 3⟩ [labelled "a", labelled "b"] (fun _ _ => true) (some 1) =
          .ok resumed ∧
        executed [.gradientStep (0, 0) 0 [labelled "a"]] ++ executed resumed = [(0, 0), (0, 0), (0, 1)] ∧
        executed wholeRun = [(0, 0), (0, 1)] :=
  ⟨rfl, rfl, _, rfl, rfl, rfl, rfl⟩

theorem resume_repeats_iff_two :
    ¬ ResumesAt (trainSftMain twoElementRandom savingConfig ⟨false, fun _ => 0⟩ [labelled "a", labelled "b"])
        [.gradientStep (0, 0) 0 [labelled "a"]] 1 wholeRun ∧
      ResumesAt (trainRlMain twoElementRandom savingConfig ⟨false, 3, 3⟩ [labelled "a", labelled "b"] (fun _ _ => false))
        [] 1 [.save 1, .save 2] := by
  obtain ⟨hrl, hsft⟩ := resume_repeats_iff twoElementRandom savingConfig
  constructor
  · intro h
    have hzero := (hsft ⟨false, fun _ => 0⟩ [labelled "a", labelled "b"] wholeRun
      [.gradientStep (0, 0) 0 [labelled "a"]] 1 _ rfl rfl).mp h
    cases hzero
  · apply (hrl ⟨false, 3, 3⟩ [labelled "a", labelled "b"] (fun _ _ => false) _ [] 1 [.save 2] rfl rfl).mpr
    simp

end TokensThatSuffice
