import TokensThatSuffice.CompletionOrder
import TokensThatSuffice.CoverageReward
import TokensThatSuffice.MultiTurnReward
import TokensThatSuffice.SortedKeys
import TokensThatSuffice.SubtaskThemes
import TokensThatSuffice.TeacherForcing
import TokensThatSuffice.TrainingDatums

namespace TokensThatSuffice

open CompletionOrder SortedKeys

structure SampledSequence where
  tokens : List ℕ
  logprobs : Option (List (Option PyFloat))

/-- One of `zip(futures_P, prompts_P, batch_trajectories, convos_P)`; `sampled` is the result of the future. -/
structure Rollout (M : Type) where
  traj : AgentTrajectory
  convo : List Message
  prompt : M
  sampled : Except PyError (List SampledSequence)

inductive RewardFn where
  | coverage
  | distortion
  deriving DecidableEq

abbrev Contexts := List (List Message × XContext ℚ)

structure WorkItem (M : Type) where
  trajIdx : ℕ
  seqIdx : ℕ
  traj : AgentTrajectory
  convo : List Message
  prompt : M
  tokens : List ℕ
  logprobs : List (Option PyFloat)
  content : String
  xCtxs : Option Contexts

structure SummaryRecord where
  batch : ℕ
  trajIdx : ℕ
  seqIdx : ℕ
  trajectoryId : String
  nPrefixSteps : ℕ
  nContinuationSteps : ℕ
  reward : Option PyFloat
  summary : String
  copy : PenaltyComponents
  summarizerInput : List Message
  deliberatorInput : List Message

structure BatchResult (M R : Type) where
  datumsD : List (Datum M R)
  rewardsP : List ℚ
  summaries : List SummaryRecord

/-- The configuration, the scoring server and the renderer: `responseText` is the text of a parsed response. -/
structure RlSetup (M : Type) where
  py : Python
  tokenizer : Tokenizer
  server : TextCompletion ℚ
  model : String
  apiBase : String
  tanh : ℚ → ℚ
  options : RewardOptions ℚ
  nTurns : ℤ
  rewardFn : RewardFn
  toLower : String → String
  responseText : List ℕ → String
  inputs : ModelInputs M
  advantages : AdvantageConfig
  saveSummaries : Bool

def stripThinking (text : String) : String :=
  match rfind text "</think>" with
  | some i => String.ofList ((text.toList.drop (i + 8)).dropWhile (· = '\n'))
  | none => text

namespace RlSetup

variable {M R : Type} (s : RlSetup M)

def stepMessages (traj : AgentTrajectory) (steps : List TrajectoryStep) : Except PyError (List Message) :=
  let sysPrompt := if traj.agentSystemPrompt.truthy then traj.agentSystemPrompt else .text agentSystemPrompt
  stepsToMessages s.py steps traj.task sysPrompt

def precomputeXForTraj (args : ℕ × AgentTrajectory) : Except PyError (Option Contexts) := do
  let partialMessages ← s.stepMessages args.2 args.2.steps
  let continuationMessages ← s.stepMessages args.2 args.2.continuation
  let xCtxs ← precomputeXContexts s.py s.server s.tokenizer s.model s.apiBase partialMessages
    (continuationMessages.drop 2) s.nTurns 0 s.options.tools
  return if xCtxs.isEmpty then none else some xCtxs

def contextMap (completed : List (ℕ × AgentTrajectory)) : Except PyError (ℕ → Option (Option Contexts)) :=
  match s.rewardFn with
  | .distortion => assign Prod.fst s.precomputeXForTraj completed (fun _ => none)
  | .coverage => .ok (fun _ => none)

def sequenceItem (rollout : Rollout M) (trajIdx : ℕ) (xCtxs : Option Contexts) (p : SampledSequence × ℕ) :
    Except PyError (WorkItem M) :=
  match p.1.logprobs with
  | none => .error (.other "AssertionError")
  | some logprobs => .ok {
      trajIdx := trajIdx
      seqIdx := p.2
      traj := rollout.traj
      convo := rollout.convo
      prompt := rollout.prompt
      tokens := p.1.tokens
      logprobs := logprobs
      content := stripThinking (s.responseText p.1.tokens)
      xCtxs := xCtxs }

def rolloutItems (xCtxMap : ℕ → Option (Option Contexts)) (p : Rollout M × ℕ) : Except PyError (List (WorkItem M)) :=
  match p.1.sampled with
  | .error _ => .ok []
  | .ok sequences => sequences.zipIdx.mapM (s.sequenceItem p.1 p.2 (xCtxMap p.2).join)

def workItems (xCtxMap : ℕ → Option (Option Contexts)) (rollouts : List (Rollout M)) :
    Except PyError (List (WorkItem M)) := do
  let items ← rollouts.zipIdx.mapM (s.rolloutItems xCtxMap)
  return items.flatten

def itemReward (item : WorkItem M) : Except PyError (Option PyFloat) :=
  match s.rewardFn with
  | .distortion => do
    let partialMessages ← s.stepMessages item.traj item.traj.steps
    match item.xCtxs with
    | some xCtxs =>
      let reward ← distortionRewardZMulti s.py s.server s.tokenizer s.model s.apiBase s.tanh s.options xCtxs
        item.content partialMessages
      return reward.map .finite
    | none => return none
  | .coverage => do
    let reward ← coverageReward s.toLower item.content item.traj
    return some (.finite reward)

def scoreItem (item : WorkItem M) : Except PyError ScoredSample := do
  let reward ← s.itemReward item
  return {
    seqIdx := item.seqIdx
    reward := reward
    tokens := item.tokens
    logprobs := item.logprobs
    convo := item.convo }

def summaryRecord (batch : ℕ) (scored : ℕ → List ScoredSample) (item : WorkItem M) : Except PyError SummaryRecord := do
  let reward := ((scored item.trajIdx).find? (fun g => g.seqIdx = item.seqIdx)).bind (·.reward)
  let partialMessages ← s.stepMessages item.traj item.traj.steps
  return {
    batch := batch
    trajIdx := item.trajIdx
    seqIdx := item.seqIdx
    trajectoryId := item.traj.trajectoryId
    nPrefixSteps := item.traj.steps.length
    nContinuationSteps := item.traj.continuation.length
    reward := reward
    summary := item.content
    copy := (copyPenalty s.py s.tokenizer item.content partialMessages s.options.weights).2
    summarizerInput := item.convo
    deliberatorInput := buildZScoringMessages item.content partialMessages s.options.maxSize s.options.keepFirst }

def sortedGroup (group : List ScoredSample) : List ScoredSample :=
  group.mergeSort (fun a b => decide (a.seqIdx ≤ b.seqIdx))

variable [Field R] [LinearOrder R] (sqrt : ℚ → R)

def rolloutStep (scored : ℕ → List ScoredSample) (p : Rollout M × ℕ) : Except PyError (List ℚ × List (Datum M R)) :=
  groupStep s.inputs p.1.prompt sqrt s.advantages (sortedGroup (scored p.2))

/-- A batch after the rollout phase, on the orders in which the tasks of the two pools complete. -/
def runBatch (batch : ℕ) (rollouts : List (Rollout M)) (precomputing : Schedule (ℕ × AgentTrajectory))
    (scoring : Schedule (WorkItem M)) : Except PyError (BatchResult M R) := do
  let tasks := rollouts.zipIdx.map (fun p => (p.2, p.1.traj))
  let xCtxMap ← s.contextMap (precomputing.order tasks)
  let items ← s.workItems xCtxMap rollouts
  let scored ← collect WorkItem.trajIdx s.scoreItem (scoring.order items) (fun _ => [])
  let summaries ← (if s.saveSummaries then items.mapM (s.summaryRecord batch scored) else .ok [])
  let groups ← rollouts.zipIdx.mapM (s.rolloutStep sqrt scored)
  return ⟨(groups.map Prod.snd).flatten, (groups.map Prod.fst).flatten, summaries⟩

section Keys

variable {s} {rollouts : List (Rollout M)} {items : List (WorkItem M)} {xCtxMap : ℕ → Option (Option Contexts)}

theorem sequenceItem_keys {rollout : Rollout M} {i : ℕ} {xCtxs : Option Contexts} {p : SampledSequence × ℕ}
    {item : WorkItem M} (h : s.sequenceItem rollout i xCtxs p = .ok item) : item.trajIdx = i ∧ item.seqIdx = p.2 := by
  rw [sequenceItem] at h
  split at h
  · cases h
  · cases h
    exact ⟨rfl, rfl⟩

theorem rolloutItems_keys {p : Rollout M × ℕ} (h : s.rolloutItems xCtxMap p = .ok items) :
    (∀ item ∈ items, item.trajIdx = p.2) ∧ (items.map WorkItem.seqIdx).Nodup := by
  rw [rolloutItems] at h
  split at h
  · cases h
    simp
  · rename_i sequences _
    constructor
    · intro item hitem
      obtain ⟨q, -, hq⟩ := mem_of_mapM_ok h hitem
      exact (sequenceItem_keys hq).1
    · have hseq : items.map WorkItem.seqIdx = sequences.zipIdx.map Prod.snd := by
        rw [eq_comm, ← List.forall₂_eq_eq_eq, List.forall₂_map_left_iff, List.forall₂_map_right_iff]
        exact (mapM_eq_ok.mp h).imp fun q item hq => (sequenceItem_keys hq).2.symm
      rw [hseq, List.zipIdx_map_snd]
      exact List.nodup_range' _

theorem flatten_keys {i : ℕ} {blocks : List (List (WorkItem M))}
    (h : List.Forall₂ (fun p block => s.rolloutItems xCtxMap p = .ok block) (rollouts.zipIdx i) blocks) :
    (∀ item ∈ blocks.flatten, i ≤ item.trajIdx) ∧
      (blocks.flatten.map (fun item => (item.trajIdx, item.seqIdx))).Nodup := by
  induction rollouts generalizing i blocks with
  | nil =>
    cases h
    simp
  | cons rollout rollouts ih =>
    rw [List.zipIdx_cons, List.forall₂_cons_left_iff] at h
    obtain ⟨block, rest, hblock, hrest, rfl⟩ := h
    obtain ⟨htraj, hseq⟩ := rolloutItems_keys hblock
    obtain ⟨hlater, hkeys⟩ := ih hrest
    constructor
    · intro item hitem
      rw [List.flatten_cons, List.mem_append] at hitem
      rcases hitem with hitem | hitem
      · exact (htraj item hitem).ge
      · exact Nat.le_of_succ_le (hlater item hitem)
    · rw [List.flatten_cons, List.map_append, List.nodup_append']
      refine ⟨?_, hkeys, ?_⟩
      · apply List.Nodup.of_map Prod.snd
        rw [List.map_map]
        exact hseq
      · -- the blocks of later trajectories carry larger indices
        intro key hkey hkey'
        obtain ⟨item, hitem, rfl⟩ := List.mem_map.mp hkey
        obtain ⟨item', hitem', heq⟩ := List.mem_map.mp hkey'
        have hsame : item'.trajIdx = item.trajIdx := congrArg Prod.fst heq
        have hle := hlater item' hitem'
        rw [hsame, htraj item hitem] at hle
        exact absurd hle (Nat.not_succ_le_self i)

theorem workItems_keys (h : s.workItems xCtxMap rollouts = .ok items) :
    (items.map (fun item => (item.trajIdx, item.seqIdx))).Nodup := by
  obtain ⟨blocks, hblocks, h⟩ := bind_eq_ok.mp h
  cases h
  exact (flatten_keys (mapM_eq_ok.mp hblocks)).2

theorem scoreItem_seqIdx {item : WorkItem M} {sample : ScoredSample} (h : s.scoreItem item = .ok sample) :
    sample.seqIdx = item.seqIdx := by
  obtain ⟨reward, -, h⟩ := bind_eq_ok.mp h
  cases h
  rfl

theorem tasks_keys (rollouts : List (Rollout M)) :
    ((rollouts.zipIdx.map (fun p => (p.2, p.1.traj))).map Prod.fst).Nodup := by
  have hkeys : (rollouts.zipIdx.map (fun p => (p.2, p.1.traj))).map Prod.fst = rollouts.zipIdx.map Prod.snd :=
    List.map_map
  rw [hkeys, List.zipIdx_map_snd]
  exact List.nodup_range' _

end Keys

theorem contextMap_perm {xs ys : List (ℕ × AgentTrajectory)} (hperm : xs.Perm ys) (hkeys : (xs.map Prod.fst).Nodup)
    {xCtxMap : ℕ → Option (Option Contexts)} (h : s.contextMap xs = .ok xCtxMap) : s.contextMap ys = .ok xCtxMap := by
  cases hfn : s.rewardFn with
  | distortion =>
    simp only [contextMap, hfn] at h ⊢
    exact assign_perm hperm hkeys h
  | coverage =>
    simp only [contextMap, hfn] at h ⊢
    exact h

section Readers

variable {s} {scored scored' : ℕ → List ScoredSample} (hperm : ∀ k, (scored k).Perm (scored' k))
  (hkeys : ∀ k, ((scored k).map ScoredSample.seqIdx).Nodup)
include hperm hkeys

theorem summaryRecord_congr (batch : ℕ) : s.summaryRecord batch scored = s.summaryRecord batch scored' := by
  funext item
  have hfind := find?_key_eq_of_perm (hperm item.trajIdx) (hkeys item.trajIdx) item.seqIdx
  simp only [summaryRecord, hfind]

theorem rolloutStep_congr : s.rolloutStep sqrt scored = s.rolloutStep sqrt scored' := by
  funext p
  have hsorted : sortedGroup (scored p.2) = sortedGroup (scored' p.2) :=
    mergeSort_key_eq_of_perm (hperm p.2) (hkeys p.2)
  rw [rolloutStep, rolloutStep, hsorted]

end Readers

theorem runBatch_reorder {batch : ℕ} {rollouts : List (Rollout M)}
    {precomputing precomputing' : Schedule (ℕ × AgentTrajectory)} {scoring scoring' : Schedule (WorkItem M)}
    {out : BatchResult M R} (h : s.runBatch sqrt batch rollouts precomputing scoring = .ok out) :
    s.runBatch sqrt batch rollouts precomputing' scoring' = .ok out := by
  obtain ⟨xCtxMap, hxCtxMap, h⟩ := bind_eq_ok.mp h
  obtain ⟨items, hitems, h⟩ := bind_eq_ok.mp h
  obtain ⟨scored, hscored, h⟩ := bind_eq_ok.mp h
  let tasks := rollouts.zipIdx.map (fun p => (p.2, p.1.traj))
  have htasks : (precomputing.order tasks).Perm (precomputing'.order tasks) :=
    (precomputing.perm tasks).trans (precomputing'.perm tasks).symm
  have hxCtxMap' : s.contextMap (precomputing'.order tasks) = .ok xCtxMap := by
    apply contextMap_perm s htasks _ hxCtxMap
    exact ((precomputing.perm tasks).map Prod.fst).nodup_iff.mpr (tasks_keys rollouts)
  have horder : (scoring.order items).Perm (scoring'.order items) :=
    (scoring.perm items).trans (scoring'.perm items).symm
  obtain ⟨scored', hscored', hgroups⟩ := collect_perm horder hscored
  have hkeys (k : ℕ) : ((scored k).map ScoredSample.seqIdx).Nodup := by
    simp only [(collect_eq_ok_iff.mp hscored).2, List.nil_append]
    apply nodup_map_gather fun item sample => scoreItem_seqIdx
    exact ((scoring.perm items).map _).nodup_iff.mpr (workItems_keys hitems)
  rw [summaryRecord_congr hgroups hkeys, rolloutStep_congr sqrt hgroups hkeys] at h
  exact bind_eq_ok.mpr ⟨xCtxMap, hxCtxMap', bind_eq_ok.mpr ⟨items, hitems, bind_eq_ok.mpr ⟨scored', hscored', h⟩⟩⟩

theorem runBatch_order_independent (batch : ℕ) (rollouts : List (Rollout M))
    (precomputing precomputing' : Schedule (ℕ × AgentTrajectory)) (scoring scoring' : Schedule (WorkItem M))
    (out : BatchResult M R) :
    s.runBatch sqrt batch rollouts precomputing scoring = .ok out ↔
      s.runBatch sqrt batch rollouts precomputing' scoring' = .ok out :=
  ⟨runBatch_reorder s sqrt, runBatch_reorder s sqrt⟩

end RlSetup

end TokensThatSuffice
