import Mathlib.Data.List.ReduceOption
import TokensThatSuffice.RebuiltContexts
import TokensThatSuffice.SplitFrames
import TokensThatSuffice.TrainingLoops

namespace TokensThatSuffice

open NumberedBlocks

/-- The options of `train_rl` that choose what is trained on and what is held out. -/
structure RlDataConfig where
  splitAtTokens : ℤ := 0
  compactionTokenBudget : ℤ := 9000
  minSummaryTokens : ℤ := 512
  minSplitPrefix : ℤ := 3
  minSplitSuffix : ℤ := 3
  distortionMaxSize : ℕ := 20
  distortionKeepFirst : ℕ := 4
  evalSize : ℤ := 16
  evalEvery : ℤ := 10
  evalSeed : ℕ := 12345
  evalOnTrain : Bool := false

namespace TrainRl

variable (py : Python) (tokenizer : Tokenizer) (inputIds : String → List ℕ) (rng : RandomModule) (cfg : TrainConfig)
variable (o : RlDataConfig)

def maxContinuation : ℤ := o.splitAtTokens - o.compactionTokenBudget

def maxH4t3 : ℤ := o.compactionTokenBudget - o.minSummaryTokens

def keepLastTurns : ℤ := (((o.distortionMaxSize / 2 : ℕ) : ℤ) - o.distortionKeepFirst) / 2

def splitOptions : SplitOptions where
  splitAtTokens := o.splitAtTokens
  minPrefix := o.minSplitPrefix
  minSuffix := o.minSplitSuffix
  maxContinuationTokens := maxContinuation o

def noRoom : PyError :=
  .valueError ("compaction_token_budget=" ++ toString o.compactionTokenBudget ++ " leaves no room for " ++
    "the continuation within split_at_tokens=" ++ toString o.splitAtTokens)

def noneReaches : PyError :=
  .valueError ("No trajectory reaches split_at_tokens=" ++ toString o.splitAtTokens ++ " with " ++
    "min_prefix=" ++ toString o.minSplitPrefix ++ "/min_suffix=" ++ toString o.minSplitSuffix ++ " " ++
    "and h4t3 <= " ++ toString (maxH4t3 o))

/-- What the head and the tail of the compacted context cost; a negative number of turns keeps none, as 0 does. -/
def h4t3 (s : AgentTrajectory) : Except PyError ℕ :=
  s.compactionTokens py tokenizer (.text systemPrompt) o.distortionKeepFirst (keepLastTurns o).toNat

def thresholdTrajectories (trajectories : List AgentTrajectory) : Except PyError (List AgentTrajectory) :=
  if maxContinuation o ≤ 0 then .error (noRoom o)
  else do
    let split ← trajectories.mapM (·.thresholdSplit py inputIds (splitOptions o))
    let sized ← split.reduceOption.mapM (fun s => do
      let n ← h4t3 py tokenizer o s
      return (s, n))
    let kept := (sized.filter (fun p => (p.2 : ℤ) ≤ maxH4t3 o)).map Prod.fst
    if kept.isEmpty then .error (noneReaches o) else return kept

def prepare (loaded : List AgentTrajectory × Bool) : Except PyError (List AgentTrajectory × Bool) :=
  if 0 < o.splitAtTokens then
    if !loaded.2 then .error (.valueError "split_at_tokens requires full (unsplit) trajectories")
    else do
      let kept ← thresholdTrajectories py tokenizer inputIds o loaded.1
      return (kept, false)
  else .ok loaded

def evalTooLarge (n : ℕ) : PyError :=
  .valueError ("eval_size=" ++ toString o.evalSize ++ " >= dataset size " ++ toString n)

def evalRaw (trajectories : List AgentTrajectory) : Except PyError (List AgentTrajectory × List AgentTrajectory) :=
  if o.evalOnTrain then .ok (slice trajectories 0 o.evalSize, trajectories)
  else if (trajectories.length : ℤ) ≤ o.evalSize then .error (evalTooLarge o trajectories.length)
  else .ok (sliceFrom trajectories (-o.evalSize), slice trajectories 0 (-o.evalSize))

def reserve (splitAtTrainTime : Bool) (trajectories : List AgentTrajectory) :
    Except PyError (List AgentTrajectory × List AgentTrajectory) :=
  if 0 < o.evalSize ∧ 0 < o.evalEvery then do
    let (raw, rest) ← evalRaw o trajectories
    let evalTrajs :=
      if splitAtTrainTime then splitBatch rng o.minSplitPrefix o.minSplitSuffix (rng.seeded o.evalSeed) raw else raw
    -- a pool of no workers
    if evalTrajs.isEmpty then .error (.valueError "max_workers must be greater than 0")
    else return (evalTrajs, rest)
  else .ok ([], trajectories)

def rlOptions (splitAtTrainTime : Bool) : RlOptions := ⟨splitAtTrainTime, o.minSplitPrefix, o.minSplitSuffix⟩

/-- `train_rl.main` on a loaded dataset: the trajectories of the eval set, and what the training does. -/
def main (loaded : List AgentTrajectory × Bool) (hasDatums : ℕ → TrainUnit → Bool) (resumeInfo : Option ℕ) :
    Except PyError (List AgentTrajectory × List TrainEvent) := do
  let (trajectories, splitAtTrainTime) ← prepare py tokenizer inputIds o loaded
  let (evalTrajs, rest) ← reserve rng o splitAtTrainTime trajectories
  let trace ← trainRlMain rng cfg (rlOptions o splitAtTrainTime) rest hasDatums resumeInfo
  return (evalTrajs, trace)

def trained (epoch : ℕ) : TrainEvent → List String
  | .save _ => []
  | .gradientStep u _ batch => if u.1 = epoch then batch.map AgentTrajectory.trajectoryId else []

def trainedIn (epoch : ℕ) (trace : List TrainEvent) : List String := trace.flatMap (trained epoch)

section Chunks

variable {α : Type*}

theorem flatMap_chunks (xs : List α) (width count : ℕ) :
    (List.range count).flatMap (fun b => (xs.drop (b * width)).take width) = xs.take (count * width) := by
  induction count with
  | zero => simp
  | succ count ih =>
    rw [List.range_succ, List.flatMap_append, ih, List.flatMap_singleton, Nat.succ_mul, List.take_add]

theorem flatMap_at_sublist {l : List ℕ} (hl : l.Nodup) (f : ℕ → List α) (a : ℕ) :
    (l.flatMap fun e => if e = a then f e else []).Sublist (f a) := by
  induction l with
  | nil => exact List.nil_sublist _
  | cons x l ih =>
    obtain ⟨hx, hl⟩ := List.nodup_cons.mp hl
    rw [List.flatMap_cons]
    by_cases hxa : x = a
    · subst hxa
      have hrest : (l.flatMap fun e => if e = x then f e else []) = [] := by
        rw [List.flatMap_eq_nil_iff]
        intro e he
        exact if_neg (ne_of_mem_of_not_mem he hx)
      rw [hrest, if_pos rfl, List.append_nil]
    · rw [if_neg hxa, List.nil_append]
      exact ih hl

end Chunks

section HeldOut

variable {py tokenizer inputIds rng cfg o}

theorem splitBatch_ids (minPrefix minSuffix : ℤ) (g : rng.Gen) (ts : List AgentTrajectory) :
    (splitBatch rng minPrefix minSuffix g ts).map AgentTrajectory.trajectoryId =
      ts.map AgentTrajectory.trajectoryId := by
  induction ts generalizing g with
  | nil => rfl
  | cons t ts ih =>
    rw [splitBatch, List.map_cons, List.map_cons, ih]
    rfl

theorem rlBatch_ids (ro : RlOptions) (shuffled : List AgentTrajectory) (b i : ℕ) :
    (rlBatch rng cfg ro shuffled b i).map AgentTrajectory.trajectoryId =
      (batchAt cfg shuffled b).map AgentTrajectory.trajectoryId := by
  unfold rlBatch
  dsimp only
  split_ifs
  · exact splitBatch_ids _ _ _ _
  · rfl

variable (rng cfg) in
def shuffledFor (trajectories : List AgentTrajectory) (epoch : ℕ) : List AgentTrajectory :=
  (rng.shuffle (rng.seeded epoch) trajectories).1

variable (rng cfg) in
def rlWorks (ro : RlOptions) (trajectories : List AgentTrajectory) : List Work :=
  (List.range cfg.numEpochs).flatMap fun epoch => (List.range (trajectories.length / cfg.batchSize)).map fun b =>
    ((epoch, b), rlBatch rng cfg ro (shuffledFor rng trajectories epoch) b)

theorem trainRlMain_works {ro : RlOptions} {trajectories : List AgentTrajectory} {hasDatums : ℕ → TrainUnit → Bool}
    {resumeInfo : Option ℕ} {trace : List TrainEvent}
    (h : trainRlMain rng cfg ro trajectories hasDatums resumeInfo = .ok trace) :
    ∃ n, trace = unroll (workBlock cfg hasDatums) (resumeInfo.getD 0) (rlWorks rng cfg ro trajectories) ++
      [.save n] := by
  unfold trainRlMain at h
  split_ifs at h
  have hepoch : rlEpoch rng cfg ro trajectories hasDatums (resumeInfo.getD 0) (trajectories.length / cfg.batchSize) =
      fun s epoch => ((List.range (trajectories.length / cfg.batchSize)).map fun b =>
        ((epoch, b), rlBatch rng cfg ro (shuffledFor rng trajectories epoch) b)).foldl
          (workStep cfg (resumeInfo.getD 0) hasDatums) s := by
    funext s epoch
    rw [List.foldl_map]
    rfl
  dsimp only at h
  rw [hepoch, ← List.foldl_flatMap, foldl_workStep, Except.ok.injEq] at h
  exact ⟨_, h.symm⟩

theorem trainedIn_workBlock (hasDatums : ℕ → TrainUnit → Bool) (epoch i : ℕ) (w : Work) :
    (trainedIn epoch (workBlock cfg hasDatums i w)).Sublist
      (if w.1.1 = epoch then (w.2 i).map AgentTrajectory.trajectoryId else []) := by
  have hsave : (checkpointAt cfg i).flatMap (trained epoch) = [] := by
    unfold checkpointAt
    split_ifs <;> rfl
  rw [trainedIn, workBlock, List.flatMap_append, hsave, List.nil_append]
  by_cases hsteps : hasDatums i w.1 = true
  · rw [if_pos hsteps, List.flatMap_singleton]
    exact .refl _
  · rw [if_neg hsteps]
    exact List.nil_sublist _

theorem trainedIn_subperm {ro : RlOptions} {trajectories : List AgentTrajectory} {hasDatums : ℕ → TrainUnit → Bool}
    {resumeInfo : Option ℕ} {trace : List TrainEvent}
    (h : trainRlMain rng cfg ro trajectories hasDatums resumeInfo = .ok trace) (epoch : ℕ) :
    (trainedIn epoch trace).Subperm (trajectories.map AgentTrajectory.trajectoryId) := by
  obtain ⟨n, rfl⟩ := trainRlMain_works h
  let ids (u : TrainUnit) : List String :=
    (batchAt cfg (shuffledFor rng trajectories u.1) u.2).map AgentTrajectory.trajectoryId
  have hblocks : (trainedIn epoch (unroll (workBlock cfg hasDatums) (resumeInfo.getD 0)
      (rlWorks rng cfg ro trajectories))).Sublist
        ((rlWorks rng cfg ro trajectories).flatMap fun w => if w.1.1 = epoch then ids w.1 else []) := by
    apply flatMap_unroll_sublist
    intro i w hw
    obtain ⟨e, -, hw⟩ := List.mem_flatMap.mp hw
    obtain ⟨b, -, rfl⟩ := List.mem_map.mp hw
    refine (trainedIn_workBlock hasDatums epoch i _).trans ?_
    dsimp only
    rw [rlBatch_ids]
  have hunits : ((rlWorks rng cfg ro trajectories).flatMap fun w => if w.1.1 = epoch then ids w.1 else []).Sublist
      ((List.range (trajectories.length / cfg.batchSize)).flatMap fun b => ids (epoch, b)) := by
    rw [rlWorks, List.flatMap_assoc]
    have hsame (e : ℕ) : (((List.range (trajectories.length / cfg.batchSize)).map fun b =>
        (((e, b), rlBatch rng cfg ro (shuffledFor rng trajectories e) b) : Work)).flatMap fun w =>
          if w.1.1 = epoch then ids w.1 else []) =
        if e = epoch then (List.range (trajectories.length / cfg.batchSize)).flatMap fun b => ids (e, b) else [] := by
      rw [List.flatMap_map]
      split_ifs with he
      · rfl
      · simp
    simp only [hsame]
    exact flatMap_at_sublist List.nodup_range
      (fun e => (List.range (trajectories.length / cfg.batchSize)).flatMap fun b => ids (e, b)) epoch
  have hepoch : ((List.range (trajectories.length / cfg.batchSize)).flatMap fun b => ids (epoch, b)) =
      ((shuffledFor rng trajectories epoch).take
        (trajectories.length / cfg.batchSize * cfg.batchSize)).map AgentTrajectory.trajectoryId := by
    rw [← flatMap_chunks, List.map_flatMap]
    rfl
  have hshuffled := (rng.shuffle_perm (rng.seeded epoch) trajectories).map AgentTrajectory.trajectoryId
  have htrace : trainedIn epoch (unroll (workBlock cfg hasDatums) (resumeInfo.getD 0)
      (rlWorks rng cfg ro trajectories) ++ [.save n]) = trainedIn epoch (unroll (workBlock cfg hasDatums)
        (resumeInfo.getD 0) (rlWorks rng cfg ro trajectories)) := by
    simp [trainedIn, trained]
  rw [htrace]
  rw [hepoch] at hunits
  exact ((hblocks.trans hunits).trans ((List.take_sublist _ _).map _)).subperm.trans hshuffled.subperm

theorem thresholdSplit_ids {so : SplitOptions} {ts : List AgentTrajectory} {splits : List (Option AgentTrajectory)}
    (h : ts.mapM (·.thresholdSplit py inputIds so) = .ok splits) :
    (splits.reduceOption.map AgentTrajectory.trajectoryId).Sublist (ts.map AgentTrajectory.trajectoryId) := by
  rw [mapM_eq_ok] at h
  induction h with
  | nil => exact .slnil
  | @cons t split ts splits hsplit _ ih =>
    cases split with
    | none => exact ih.cons _
    | some s =>
      rw [List.reduceOption_cons_of_some, List.map_cons, List.map_cons,
        (splitOf_sameRecord (.thresholdSplit hsplit)).1.trajectoryId]
      exact ih.cons_cons _

theorem sized_fst {ss : List AgentTrajectory} {sized : List (AgentTrajectory × ℕ)}
    (h : (ss.mapM fun s => do
      let n ← h4t3 py tokenizer o s
      return (s, n)) = .ok sized) : sized.map Prod.fst = ss ∧ ∀ p ∈ sized, h4t3 py tokenizer o p.1 = .ok p.2 := by
  rw [mapM_eq_ok] at h
  induction h with
  | nil => exact ⟨rfl, nofun⟩
  | cons hsize _ ih =>
    obtain ⟨n, hn, hp⟩ := bind_eq_ok.mp hsize
    cases hp
    refine ⟨by rw [List.map_cons, ih.1], ?_⟩
    intro p hp
    rcases List.mem_cons.mp hp with rfl | hp
    · exact hn
    · exact ih.2 p hp

structure Kept (py : Python) (tokenizer : Tokenizer) (inputIds : String → List ℕ) (o : RlDataConfig)
    (loaded : List AgentTrajectory) (s : AgentTrajectory) : Prop where
  split : ∃ t ∈ loaded, t.thresholdSplit py inputIds (splitOptions o) = .ok (some s)
  room : ∃ n, h4t3 py tokenizer o s = .ok n ∧ (n : ℤ) ≤ maxH4t3 o

theorem thresholdTrajectories_kept {ts kept : List AgentTrajectory}
    (h : thresholdTrajectories py tokenizer inputIds o ts = .ok kept) :
    0 < maxContinuation o ∧ (∀ s ∈ kept, Kept py tokenizer inputIds o ts s) ∧
      (kept.map AgentTrajectory.trajectoryId).Sublist (ts.map AgentTrajectory.trajectoryId) := by
  unfold thresholdTrajectories at h
  split_ifs at h with hroom
  obtain ⟨splits, hsplits, h⟩ := bind_eq_ok.mp h
  obtain ⟨sized, hsized, h⟩ := bind_eq_ok.mp h
  obtain ⟨hfst, hsizes⟩ := sized_fst hsized
  dsimp only at h
  split_ifs at h
  cases h
  refine ⟨not_le.mp hroom, ?_, ?_⟩
  · intro s hs
    obtain ⟨p, hp, rfl⟩ := List.mem_map.mp hs
    obtain ⟨hp, hle⟩ := List.mem_filter.mp hp
    refine ⟨?_, p.2, hsizes p hp, of_decide_eq_true hle⟩
    have hmem : p.1 ∈ splits.reduceOption := by
      rw [← hfst]
      exact List.mem_map_of_mem hp
    exact mem_of_mapM_ok hsplits (List.reduceOption_mem_iff.mp hmem)
  · refine List.Sublist.trans ?_ (thresholdSplit_ids hsplits)
    rw [← hfst]
    exact (List.filter_sublist.map _).map _

theorem prepare_ids {loaded prepared : List AgentTrajectory × Bool}
    (h : prepare py tokenizer inputIds o loaded = .ok prepared) :
    (prepared.1.map AgentTrajectory.trajectoryId).Sublist (loaded.1.map AgentTrajectory.trajectoryId) := by
  unfold prepare at h
  split_ifs at h
  · obtain ⟨kept, hkept, h⟩ := bind_eq_ok.mp h
    cases h
    exact (thresholdTrajectories_kept hkept).2.2
  · cases h
    exact .refl _

theorem slice_append_sliceFrom {α : Type} (xs : List α) (i : ℤ) : slice xs 0 i ++ sliceFrom xs i = xs := by
  have hzero : sliceIndex xs.length 0 = 0 := by simp [sliceIndex]
  rw [slice, sliceFrom, hzero, List.drop_zero, List.take_append_drop]

theorem reserve_parts {later : Bool} {ts evalTrajs rest : List AgentTrajectory} (heval : o.evalOnTrain = false)
    (h : reserve rng o later ts = .ok (evalTrajs, rest)) :
    ∃ raw, ts = rest ++ raw ∧ evalTrajs.map AgentTrajectory.trajectoryId = raw.map AgentTrajectory.trajectoryId := by
  unfold reserve at h
  by_cases hdue : 0 < o.evalSize ∧ 0 < o.evalEvery
  · rw [if_pos hdue] at h
    obtain ⟨⟨raw, rest'⟩, hraw, h⟩ := bind_eq_ok.mp h
    unfold evalRaw at hraw
    rw [heval, if_neg Bool.false_ne_true] at hraw
    split_ifs at hraw
    cases hraw
    have hids : (if later then splitBatch rng o.minSplitPrefix o.minSplitSuffix (rng.seeded o.evalSeed)
        (sliceFrom ts (-o.evalSize)) else sliceFrom ts (-o.evalSize)).map AgentTrajectory.trajectoryId =
        (sliceFrom ts (-o.evalSize)).map AgentTrajectory.trajectoryId := by
      split_ifs
      · exact splitBatch_ids _ _ _ _
      · rfl
    dsimp only at h
    generalize (if later then splitBatch rng o.minSplitPrefix o.minSplitSuffix (rng.seeded o.evalSeed)
      (sliceFrom ts (-o.evalSize)) else sliceFrom ts (-o.evalSize)) = pinned at h hids
    split_ifs at h
    cases h
    exact ⟨_, (slice_append_sliceFrom ts _).symm, hids⟩
  · rw [if_neg hdue] at h
    cases h
    exact ⟨[], (List.append_nil ts).symm, rfl⟩

theorem heldOut_untrained {loaded : List AgentTrajectory × Bool} {hasDatums : ℕ → TrainUnit → Bool}
    {resumeInfo : Option ℕ} {evalTrajs : List AgentTrajectory} {trace : List TrainEvent} (heval : o.evalOnTrain = false)
    (h : main py tokenizer inputIds rng cfg o loaded hasDatums resumeInfo = .ok (evalTrajs, trace)) (epoch : ℕ) :
    (trainedIn epoch trace ++ evalTrajs.map AgentTrajectory.trajectoryId).Subperm
      (loaded.1.map AgentTrajectory.trajectoryId) := by
  obtain ⟨⟨ts, later⟩, hprepare, h⟩ := bind_eq_ok.mp h
  obtain ⟨⟨evalTrajs', rest⟩, hreserve, h⟩ := bind_eq_ok.mp h
  obtain ⟨trace', htrain, h⟩ := bind_eq_ok.mp h
  cases h
  obtain ⟨raw, rfl, hraw⟩ := reserve_parts heval hreserve
  have hids := prepare_ids hprepare
  rw [List.map_append] at hids
  rw [hraw]
  exact ((trainedIn_subperm htrain epoch).append (List.Subperm.refl _)).trans hids.subperm

end HeldOut

section Window

def SameButPrompt (m m' : Message) : Prop := m = m' ∨ m.role = .system ∧ m'.role = .system

theorem SameButPrompt.refl (m : Message) : SameButPrompt m m := .inl rfl

theorem SameButPrompt.isTool {m m' : Message} (h : SameButPrompt m m') : m.isTool = m'.isTool := by
  rcases h with rfl | ⟨hm, hm'⟩
  · rfl
  · rw [Message.isTool, Message.isTool, hm, hm']

variable {ms ms' : List Message}

theorem stepsToMessages_samePrompt {py : Python} {steps : List TrajectoryStep} {task prompt prompt' : Content}
    (h : stepsToMessages py steps task prompt = .ok ms) (h' : stepsToMessages py steps task prompt' = .ok ms') :
    List.Forall₂ SameButPrompt ms ms' := by
  obtain ⟨rendered, hrendered, h⟩ := bind_eq_ok.mp h
  obtain ⟨rendered', hrendered', h'⟩ := bind_eq_ok.mp h'
  rw [hrendered, Except.ok.injEq] at hrendered'
  subst hrendered'
  cases h
  cases h'
  exact .cons (.inr ⟨rfl, rfl⟩) (.cons (.refl _) (List.forall₂_same.mpr fun m _ => .refl m))

theorem lastNTurns_toNat (ms : List Message) (n : ℤ) : lastNTurns ms n.toNat = lastNTurns ms n := by
  rcases le_or_gt n 0 with hn | hn
  · rw [Int.toNat_of_nonpos hn, lastNTurns, lastNTurns, if_pos hn]
    rfl
  · rw [Int.toNat_of_nonneg hn.le]

def textTokens (py : Python) (tokenizer : Tokenizer) (messages : List Message) : ℕ :=
  if messagesText py messages ≠ "" then (tokenizer.encode (messagesText py messages)).length else 0

variable {py tokenizer inputIds rng cfg o}

theorem h4t3_counts {s : AgentTrajectory} {n : ℕ} (hn : h4t3 py tokenizer o s = .ok n)
    {scored : List Message × List Message} (hscored : precomputeXForTraj py s = .ok scored) (summary : String) :
    ∃ head tail counted, buildZScoringMessages summary scored.1 o.distortionMaxSize o.distortionKeepFirst =
        head ++ summaryAsToolTurn summary ++ tail ∧
      List.Forall₂ SameButPrompt counted (head ++ tail) ∧ textTokens py tokenizer counted = n := by
  obtain ⟨msgs, hmsgs, hn⟩ := bind_eq_ok.mp hn
  obtain ⟨partialMessages, hpartial, hscored⟩ := bind_eq_ok.mp hscored
  obtain ⟨continuationMessages, -, hscored⟩ := bind_eq_ok.mp hscored
  cases hscored
  have hsame := stepsToMessages_samePrompt hmsgs hpartial
  refine ⟨partialMessages.take o.distortionKeepFirst,
    lastNTurns (partialMessages.drop o.distortionKeepFirst) (keepLastTurns o),
    msgs.take o.distortionKeepFirst ++ lastNTurns (msgs.drop o.distortionKeepFirst) (keepLastTurns o).toNat,
    rfl, ?_, Except.ok.inj hn⟩
  rw [lastNTurns_toNat]
  exact List.rel_append (List.forall₂_take _ hsame) (lastNTurns_forall₂ SameButPrompt.isTool (List.forall₂_drop _ hsame) _)

theorem turnTexts_take {steps : List TrajectoryStep} {texts : List String} (h : turnTexts py steps = .ok texts) (j : ℕ) :
    turnTexts py (steps.take (2 * j)) = .ok (texts.take j) := by
  induction steps using turnTexts.induct generalizing texts j with
  | case1 =>
    cases h
    rw [List.take_nil, List.take_nil]
    rfl
  | case2 a =>
    cases h
    cases j <;> rfl
  | case3 a b rest ih =>
    rw [turnTexts] at h
    obtain ⟨text, htext, h⟩ := bind_eq_ok.mp h
    obtain ⟨more, hmore, h⟩ := bind_eq_ok.mp h
    cases h
    cases j with
    | zero => rfl
    | succ j =>
      change turnTexts py (a :: b :: rest.take (2 * j)) = _
      rw [turnTexts, htext, ok_bind, ih hmore j]
      rfl

theorem turnTokenLens_take {steps : List TrajectoryStep} {lens : List ℕ}
    (h : turnTokenLens py inputIds steps = .ok lens) (j : ℕ) :
    turnTokenLens py inputIds (steps.take (2 * j)) = .ok (lens.take j) := by
  obtain ⟨texts, htexts, h⟩ := bind_eq_ok.mp h
  cases h
  rw [turnTokenLens, turnTexts_take htexts j, ok_bind, ← List.map_take]
  rfl

structure InWindow (py : Python) (tokenizer : Tokenizer) (inputIds : String → List ℕ) (o : RlDataConfig)
    (s : AgentTrajectory) : Prop where
  context : ∃ lens, turnTokenLens py inputIds s.steps = .ok lens ∧ o.splitAtTokens ≤ (lens.sum : ℤ) ∧
    ∀ j < lens.length, ((lens.take j).sum : ℤ) < o.splitAtTokens
  scored : ∃ (lens : List ℕ) (n : ℕ), turnTokenLens py inputIds s.continuation = .ok lens ∧ 0 < lens.length ∧
    (n + lens.sum : ℕ) + o.minSummaryTokens ≤ o.splitAtTokens ∧
    ∀ scored, precomputeXForTraj py s = .ok scored → ∀ summary, ∃ head tail counted,
      buildZScoringMessages summary scored.1 o.distortionMaxSize o.distortionKeepFirst =
        head ++ summaryAsToolTurn summary ++ tail ∧
      List.Forall₂ SameButPrompt counted (head ++ tail) ∧ textTokens py tokenizer counted = n

theorem Kept.inWindow {ts : List AgentTrajectory} {s : AgentTrajectory} (hthreshold : 0 < o.splitAtTokens)
    (hroom : 0 < maxContinuation o) (h : Kept py tokenizer inputIds o ts s) : InWindow py tokenizer inputIds o s := by
  obtain ⟨⟨t, -, hsplit⟩, n, hn, hle⟩ := h
  obtain ⟨lens, hlens, ⟨-, hnone⟩ | ⟨k, hk, hcut⟩⟩ := AgentTrajectory.thresholdSplit_cases hsplit
  · cases hnone
  obtain ⟨hnone, hsome⟩ := AgentTrajectory.splitAtTurn_cases hcut
  obtain ⟨hsteps, hcontinuation⟩ := hsome s rfl
  constructor
  · refine ⟨lens.take k, by rw [hsteps]; exact turnTokenLens_take hlens k, of_decide_eq_true hk.1.2.2, ?_⟩
    intro j hj
    rw [List.length_take, lt_min_iff] at hj
    rw [List.take_take, Nat.min_eq_left hj.1.le]
    rcases Nat.eq_zero_or_pos j with rfl | hpos
    · exact hthreshold
    · by_contra hreached
      exact absurd (hk.2 ⟨hpos, hj.2.le, decide_eq_true (not_lt.mp hreached)⟩) (not_le.mpr hj.1)
  · generalize hrest : t.steps.drop (2 * k) ++ t.continuation = rest at hcontinuation
    have hfits : ¬ NoTurnFits py inputIds (maxContinuation o) rest := by
      intro hnofit
      rw [← hrest] at hnofit
      cases hnone.mpr (.inr (.inr ⟨hroom, hnofit⟩))
    generalize s.continuation = cut at hcontinuation ⊢
    cases hcontinuation with
    | uncapped hcap => exact absurd hcap (not_le.mpr hroom)
    | @capped restLens j hcap hrestLens longest =>
      have hpos : j ≠ 0 := fun hzero => hfits ((noTurnFits_iff hrestLens longest).mpr hzero)
      refine ⟨restLens.take j, n, turnTokenLens_take hrestLens j, ?_, ?_,
        fun _ hscored summary => h4t3_counts hn hscored summary⟩
      · rw [List.length_take]
        have hj := longest.1.1
        omega
      · have hfit := longest.1.2
        change ((restLens.take j).sum : ℤ) ≤ o.splitAtTokens - o.compactionTokenBudget at hfit
        rw [maxH4t3] at hle
        omega

theorem batchAt_subset (ts : List AgentTrajectory) (b : ℕ) : batchAt cfg ts b ⊆ ts :=
  ((List.take_sublist _ _).trans (List.drop_sublist _ _)).subset

theorem gradientStep_batch {ro : RlOptions} {ts : List AgentTrajectory} {hasDatums : ℕ → TrainUnit → Bool}
    {resumeInfo : Option ℕ} {trace : List TrainEvent} (hsplit : ro.splitAtTrainTime = false)
    (h : trainRlMain rng cfg ro ts hasDatums resumeInfo = .ok trace) {u : TrainUnit} {i : ℕ}
    {batch : List AgentTrajectory} (hstep : .gradientStep u i batch ∈ trace) : batch ⊆ ts := by
  obtain ⟨n, rfl⟩ := trainRlMain_works h
  rcases List.mem_append.mp hstep with hstep | hstep
  · obtain ⟨j, w, hw, hstep⟩ := mem_unroll hstep
    obtain ⟨e, -, hw⟩ := List.mem_flatMap.mp hw
    obtain ⟨b, -, rfl⟩ := List.mem_map.mp hw
    rcases List.mem_append.mp hstep with hsave | hstep
    · unfold checkpointAt at hsave
      split_ifs at hsave
      · cases List.mem_singleton.mp hsave
      · cases hsave
    · split_ifs at hstep
      · cases List.mem_singleton.mp hstep
        change rlBatch rng cfg ro (shuffledFor rng ts e) b _ ⊆ ts
        unfold rlBatch
        rw [hsplit]
        exact List.Subset.trans (batchAt_subset _ _) (rng.shuffle_perm _ _).subset
      · cases hstep
  · cases List.mem_singleton.mp hstep

theorem evalTrajs_subset {ts evalTrajs rest : List AgentTrajectory}
    (h : reserve rng o false ts = .ok (evalTrajs, rest)) : evalTrajs ⊆ ts ∧ rest ⊆ ts := by
  have hfrom (i : ℤ) : sliceFrom ts i ⊆ ts := List.drop_subset _ _
  have hslice (i : ℤ) : slice ts 0 i ⊆ ts := ((List.drop_sublist _ _).trans (List.take_sublist _ _)).subset
  unfold reserve at h
  by_cases hdue : 0 < o.evalSize ∧ 0 < o.evalEvery
  · rw [if_pos hdue] at h
    obtain ⟨⟨raw, rest'⟩, hraw, h⟩ := bind_eq_ok.mp h
    dsimp only at h
    rw [if_neg Bool.false_ne_true] at h
    split_ifs at h
    cases h
    unfold evalRaw at hraw
    split_ifs at hraw
    · cases hraw
      exact ⟨hslice _, List.Subset.refl _⟩
    · cases hraw
      exact ⟨hfrom _, hslice _⟩
  · rw [if_neg hdue] at h
    cases h
    exact ⟨List.nil_subset _, List.Subset.refl _⟩

theorem main_inWindow {loaded : List AgentTrajectory × Bool} {hasDatums : ℕ → TrainUnit → Bool}
    {resumeInfo : Option ℕ} {evalTrajs : List AgentTrajectory} {trace : List TrainEvent}
    (hthreshold : 0 < o.splitAtTokens)
    (h : main py tokenizer inputIds rng cfg o loaded hasDatums resumeInfo = .ok (evalTrajs, trace)) :
    ∀ s, (s ∈ evalTrajs ∨ ∃ u i batch, .gradientStep u i batch ∈ trace ∧ s ∈ batch) →
      InWindow py tokenizer inputIds o s := by
  obtain ⟨⟨ts, later⟩, hprepare, h⟩ := bind_eq_ok.mp h
  obtain ⟨⟨evalTrajs', rest⟩, hreserve, h⟩ := bind_eq_ok.mp h
  obtain ⟨trace', htrain, h⟩ := bind_eq_ok.mp h
  cases h
  rw [prepare, if_pos hthreshold] at hprepare
  split_ifs at hprepare
  obtain ⟨kept, hkept, hprepare⟩ := bind_eq_ok.mp hprepare
  cases hprepare
  obtain ⟨hroom, hkept, -⟩ := thresholdTrajectories_kept hkept
  obtain ⟨heval, hrest⟩ := evalTrajs_subset hreserve
  rintro s (hs | ⟨u, i, batch, hstep, hs⟩)
  · exact (hkept s (heval hs)).inWindow hthreshold hroom
  · exact (hkept s (hrest (gradientStep_batch rfl htrain hstep hs))).inWindow hthreshold hroom

def oneTokenTokenizer : Tokenizer := ⟨oneToken, fun _ _ _ => .ok ""⟩

def threeTurnWindow : RlDataConfig where
  splitAtTokens := 3
  compactionTokenBudget := 2
  minSummaryTokens := 1
  evalSize := 1
  evalEvery := 1

def namedRun (uid : String) : AgentTrajectory := { shellRun 6 with trajectoryId := uid }

def namedSplit (uid : String) : AgentTrajectory := { cappedSplit with trajectoryId := uid }

theorem main_threeTurnWindow : main asciiPython oneTokenTokenizer oneToken highestRandom savingConfig threeTurnWindow
    ([namedRun "a", namedRun "b"], true) (fun _ _ => true) none =
      .ok ([namedSplit "b"], [.gradientStep (0, 0) 0 [namedSplit "a"], .save 1]) := rfl

theorem heldOut_untrained_threeTurnWindow : ["a", "b"].Subperm ["a", "b"] :=
  heldOut_untrained rfl main_threeTurnWindow 0

theorem main_inWindow_threeTurnWindow :
    InWindow asciiPython oneTokenTokenizer oneToken threeTurnWindow (namedSplit "a") := by
  apply main_inWindow (by decide) main_threeTurnWindow
  exact .inr ⟨(0, 0), 0, [namedSplit "a"], List.mem_cons_self, List.mem_cons_self⟩

end Window

end TrainRl

end TokensThatSuffice
