import Mathlib.Data.List.ReduceOption
import TokensThatSuffice.CollectedTurns
import TokensThatSuffice.OrderedDicts
import TokensThatSuffice.ScoredBatches
import TokensThatSuffice.SplitFrames
import TokensThatSuffice.TemplateArguments

namespace TokensThatSuffice

open OrderedDicts

def wireText (py : Python) (tc : WireToolCall) : WireToolCall :=
  match tc.arguments with
  | some (.object fields) => { tc with arguments := some (.str (py.dumps (.object fields))) }
  | _ => tc

def toWireToolCalls (py : Python) (messages : List Message) : List Message :=
  messages.map (fun m => { m with toolCalls := m.toolCalls.map (wireText py) })

def buildTruncationScoringMessages (partialMessages : List Message) (keepFirst keepLastTurns : ℕ) : List Message :=
  let s := splitHeadTail partialMessages keepFirst keepLastTurns
  s.head ++ s.tail

namespace EvalTopSummaries

structure TopSummary where
  trajectoryId : String
  summary : String
  reward : Option PyFloat
  overlap : Option ℚ

structure Setup where
  py : Python
  tok : Tokenizer
  inputIds : String → List ℕ
  server : TextCompletion ℚ
  scoringModel : String
  scoringBaseUrl : String
  tanh : ℚ → ℚ
  tools : Option (List Json)
  splitAtTokens : ℤ := 16384
  compactionTokenBudget : ℤ := 9000
  minSplitPrefix : ℤ := 6
  minSplitSuffix : ℤ := 3
  keepFirst : ℕ := 4
  keepLastTurns : ℕ := 3
  maxSize : ℕ := 20
  beta : ℚ := 1

structure Arm where
  fidelityBounded : Option ℚ
  nZCtxTokens : Option ℕ
  fractionKept : Option ℚ

structure Arms (α : Type) where
  full : α
  truncation : α
  mask : α
  trained : α

structure Entry where
  instanceId : String
  nPrefixSteps : ℕ
  trainReward : Option PyFloat
  trainOverlap : Option ℚ
  nXCtxTokens : ℕ
  nYTokens : ℤ
  arms : Arms Arm

structure Means where
  meanFidelity : Option ℚ
  meanFractionKept : Option ℚ

structure Report where
  aggregate : Arms Means
  instances : List Entry

namespace Setup

variable (s : Setup)

def splitOptions : SplitOptions where
  splitAtTokens := s.splitAtTokens
  minPrefix := s.minSplitPrefix
  minSuffix := s.minSplitSuffix
  maxContinuationTokens := s.splitAtTokens - s.compactionTokenBudget

def rewardOptions : RewardOptions ℚ where
  maxSize := s.maxSize
  keepFirst := s.keepFirst
  beta := s.beta
  tools := s.tools

def arm (xCtx : XContext ℚ) (zMessages : List Message) : Except PyError Arm := do
  match ← distortionRewardMessages s.py s.server s.tok s.scoringModel s.scoringBaseUrl s.tanh s.rewardOptions xCtx
    zMessages "" with
  | .error _ => return ⟨none, none, none⟩
  | .scored r =>
    let n := r.distortion.nZCtxTokens
    if n = 0 then return ⟨r.distortion.fidelityBounded, some n, none⟩
    else if xCtx.xLogprobs.nXCtx = 0 then .error .zeroDivisionError
    else return ⟨r.distortion.fidelityBounded, some n, some (n / xCtx.xLogprobs.nXCtx)⟩

def arms (context : List Message) (xCtx : XContext ℚ) (z : String) : Except PyError (Arms Arm) := do
  let full ← s.arm xCtx context
  let truncation ← s.arm xCtx (buildTruncationScoringMessages context s.keepFirst s.keepLastTurns)
  let mask ← s.arm xCtx (buildMaskenvScoringMessages s.py context s.keepFirst s.keepLastTurns)
  let trained ← s.arm xCtx (buildZScoringMessages z context s.maxSize s.keepFirst)
  return ⟨full, truncation, mask, trained⟩

def stepMessages (split : AgentTrajectory) (steps : List TrajectoryStep) : Except PyError (List Message) := do
  let sysPrompt := if split.agentSystemPrompt.truthy then split.agentSystemPrompt else .text agentSystemPrompt
  let messages ← stepsToMessages s.py steps split.task sysPrompt
  return toWireToolCalls s.py messages

def scoreSplit (r : TopSummary) (split : AgentTrajectory) : Except PyError (Option Entry) := do
  let context ← s.stepMessages split split.steps
  let cont ← s.stepMessages split split.continuation
  match (cont.drop 2).find? (·.role = .assistant) with
  | none => return none
  | some y =>
    match ← precomputeXContext s.py s.server s.tok s.scoringModel s.scoringBaseUrl context y 0 s.tools with
    | none => return none
    | some xCtx =>
      let arms ← s.arms context xCtx r.summary
      -- the progress line formats both of these as floats
      match r.reward, arms.trained.fidelityBounded with
      | some _, some _ => return some {
          instanceId := r.trajectoryId
          nPrefixSteps := split.steps.length
          trainReward := r.reward
          trainOverlap := r.overlap
          nXCtxTokens := xCtx.xLogprobs.nXCtx
          nYTokens := xCtx.xLogprobs.nCompletion
          arms := arms }
      | _, _ => .error .typeError

def instance? (src : List AgentTrajectory) (r : TopSummary) : Except PyError (Option Entry) :=
  match (keepLast AgentTrajectory.trajectoryId src).lookup r.trajectoryId with
  | none => .ok none
  | some traj => do
    match ← traj.thresholdSplit s.py s.inputIds s.splitOptions with
    | none => return none
    | some split => s.scoreSplit r split

def agg (perInstance : List Entry) (column : Entry → Option ℚ) : Option ℚ :=
  let vals := perInstance.filterMap column
  if vals.isEmpty then none else some (vals.sum / vals.length)

def means (perInstance : List Entry) (name : Arms Arm → Arm) : Means where
  meanFidelity := agg perInstance fun i => (name i.arms).fidelityBounded
  meanFractionKept := agg perInstance fun i => (name i.arms).fractionKept

def main (topSummaries : List TopSummary) (sourceTrajectories : List RawRecord) : Except PyError Report := do
  let src ← sourceTrajectories.mapM (AgentTrajectory.fromCollectDict s.py)
  let scored ← (keepLast TopSummary.trajectoryId topSummaries).mapM fun r => s.instance? src r.2
  let perInstance := scored.reduceOption
  return {
    aggregate := ⟨means perInstance Arms.full, means perInstance Arms.truncation, means perInstance Arms.mask,
      means perInstance Arms.trained⟩
    instances := perInstance }

end Setup

end EvalTopSummaries

section Wire

variable {py : Python} {messages : List Message}

/-- `json.loads` gives back the mapping that `json.dumps` wrote. -/
def RoundTrips (py : Python) (v : Json) : Prop := v.IsMapping → py.loads (py.dumps v) = some v

theorem templateArguments_wireText {tc : WireToolCall} (h : ∀ v ∈ tc.arguments, RoundTrips py v) :
    templateArguments py (wireText py tc) = templateArguments py tc := by
  obtain ⟨id, name, _ | v⟩ := tc
  · rfl
  · cases v with
    | object fields =>
      have hloads := h _ rfl ⟨fields, rfl⟩
      simp [wireText, templateArguments, hloads]
    | _ => rfl

theorem toTemplateToolCalls_toWireToolCalls (h : Everywhere (RoundTrips py) messages) :
    toTemplateToolCalls py (toWireToolCalls py messages) = toTemplateToolCalls py messages := by
  unfold toTemplateToolCalls toWireToolCalls
  rw [List.map_map]
  apply List.map_congr_left
  intro m hm
  have hcalls : (m.toolCalls.map (wireText py)).map (templateArguments py) = m.toolCalls.map (templateArguments py) := by
    rw [List.map_map]
    exact List.map_congr_left fun tc htc => templateArguments_wireText (h m hm tc htc)
  simp only [Function.comp_apply, hcalls]

theorem stripReasoning_toWireToolCalls (messages : List Message) :
    stripReasoning (toWireToolCalls py messages) = toWireToolCalls py (stripReasoning messages) := by
  simp [stripReasoning, toWireToolCalls]

theorem toTemplateToolCalls_append (xs ys : List Message) :
    toTemplateToolCalls py (xs ++ ys) = toTemplateToolCalls py xs ++ toTemplateToolCalls py ys := List.map_append

theorem everywhere_of_subset {P : Json → Prop} {xs : List Message} (h : Everywhere P messages) (hsub : xs ⊆ messages) :
    Everywhere P xs := fun m hm => h m (hsub hm)

theorem toTemplateToolCalls_buildZScoringMessages (h : Everywhere (RoundTrips py) messages) (summary : String)
    (maxSize keepFirst : ℕ) :
    toTemplateToolCalls py (buildZScoringMessages summary (toWireToolCalls py messages) maxSize keepFirst) =
      toTemplateToolCalls py (buildZScoringMessages summary messages maxSize keepFirst) := by
  have hhead : Everywhere (RoundTrips py) (messages.take keepFirst) :=
    everywhere_of_subset h (List.take_subset keepFirst messages)
  have htail (n : ℤ) : Everywhere (RoundTrips py) (lastNTurns (messages.drop keepFirst) n) :=
    everywhere_of_subset h (List.Subset.trans (lastNTurns_suffix _ n).subset (List.drop_subset keepFirst messages))
  have hkept (n : ℤ) : lastNTurns ((toWireToolCalls py messages).drop keepFirst) n =
      toWireToolCalls py (lastNTurns (messages.drop keepFirst) n) := by
    unfold toWireToolCalls
    rw [← List.map_drop]
    apply lastNTurns_map
    exact fun m => rfl
  have htake : (toWireToolCalls py messages).take keepFirst = toWireToolCalls py (messages.take keepFirst) :=
    List.map_take.symm
  unfold buildZScoringMessages splitHeadTail
  dsimp only
  rw [hkept, htake]
  simp only [toTemplateToolCalls_append, toTemplateToolCalls_toWireToolCalls hhead,
    toTemplateToolCalls_toWireToolCalls (htail _)]

variable {R : Type} {server : TextCompletion R} {tokenizer : Tokenizer} {model apiBase : String}

theorem precomputeXContext_toWireToolCalls {action : Message} (h : Everywhere (RoundTrips py) messages)
    (haction : Everywhere (RoundTrips py) [action]) (k : ℤ) (tools : Option (List Json)) :
    precomputeXContext py server tokenizer model apiBase (toWireToolCalls py messages)
        { action with toolCalls := action.toolCalls.map (wireText py) } k tools =
      precomputeXContext py server tokenizer model apiBase messages action k tools := by
  have hcontext : toTemplateToolCalls py (buildXScoringMessages (toWireToolCalls py messages)) =
      toTemplateToolCalls py (buildXScoringMessages messages) := by
    rw [buildXScoringMessages, buildXScoringMessages, stripReasoning_toWireToolCalls]
    exact toTemplateToolCalls_toWireToolCalls ((everywhere_stripReasoning _).mpr h)
  have hturn : toTemplateToolCalls py [{ action with toolCalls := action.toolCalls.map (wireText py) }] =
      toTemplateToolCalls py [action] := toTemplateToolCalls_toWireToolCalls haction
  unfold precomputeXContext reconstructGeneration
  dsimp only
  rw [hcontext, hturn]

theorem computeDistortionMessages_congr [Field R] [LinearOrder R] {tanh : R → R} {xCtx : XContext R}
    {zMessages zMessages' : List Message} (h : toTemplateToolCalls py zMessages = toTemplateToolCalls py zMessages')
    (beta : R) (tools : Option (List Json)) :
    computeDistortionMessages py server tokenizer model apiBase tanh xCtx zMessages beta tools =
      computeDistortionMessages py server tokenizer model apiBase tanh xCtx zMessages' beta tools := by
  unfold computeDistortionMessages
  dsimp only
  rw [h]

end Wire

namespace RlSetup

open CompletionOrder SortedKeys

variable {M R : Type} {s : RlSetup M} {rollouts : List (Rollout M)} {items : List (WorkItem M)} {item : WorkItem M}
  {xCtxMap : ℕ → Option (Option Contexts)}

def contentReward (s : RlSetup M) (traj : AgentTrajectory) (xCtxs : Option Contexts) (content : String) :
    Except PyError (Option PyFloat) := do
  let partialMessages ← s.stepMessages traj traj.steps
  match xCtxs with
  | some xCtxs =>
    let reward ← distortionRewardZMulti s.py s.server s.tokenizer s.model s.apiBase s.tanh s.options xCtxs content
      partialMessages
    return reward.map .finite
  | none => return none

theorem workItems_rollout (h : s.workItems xCtxMap rollouts = .ok items) (hitem : item ∈ items) :
    ∃ p ∈ rollouts.zipIdx, item.traj = p.1.traj ∧ item.xCtxs = (xCtxMap p.2).join := by
  obtain ⟨blocks, hblocks, h⟩ := bind_eq_ok.mp h
  cases h
  obtain ⟨block, hblock, hmem⟩ := List.mem_flatten.mp hitem
  obtain ⟨p, hp, hbuilt⟩ := mem_of_mapM_ok hblocks hblock
  refine ⟨p, hp, ?_⟩
  rw [rolloutItems] at hbuilt
  split at hbuilt
  · cases hbuilt
    cases hmem
  · obtain ⟨q, -, hq⟩ := mem_of_mapM_ok hbuilt hmem
    rw [sequenceItem] at hq
    split at hq
    · cases hq
    · cases hq
      exact ⟨rfl, rfl⟩

theorem contextMap_rollout (hreward : s.rewardFn = .distortion) {order : List (ℕ × AgentTrajectory)}
    (hperm : order.Perm (rollouts.zipIdx.map fun p => (p.2, p.1.traj))) (h : s.contextMap order = .ok xCtxMap)
    {p : Rollout M × ℕ} (hp : p ∈ rollouts.zipIdx) :
    ∃ xCtxs, s.precomputeXForTraj (p.2, p.1.traj) = .ok xCtxs ∧ xCtxMap p.2 = some xCtxs := by
  rw [contextMap, hreward] at h
  obtain ⟨hruns, rfl⟩ := assign_eq_ok_iff.mp h
  have hmem : (p.2, p.1.traj) ∈ order := hperm.mem_iff.mpr (List.mem_map_of_mem hp)
  have hkeys : (order.map Prod.fst).Nodup := (hperm.map Prod.fst).nodup_iff.mpr (tasks_keys rollouts)
  obtain ⟨xCtxs, hxCtxs⟩ := hruns _ hmem
  refine ⟨xCtxs, hxCtxs, ?_⟩
  have hlast := getLast?_gather hkeys hmem hxCtxs
  dsimp only at hlast ⊢
  rw [hlast]
  rfl

theorem collected_sample {order : List (WorkItem M)} (hperm : order.Perm items)
    (hkeys : (items.map fun item => (item.trajIdx, item.seqIdx)).Nodup) {scored : ℕ → List ScoredSample}
    (h : collect WorkItem.trajIdx s.scoreItem order (fun _ => []) = .ok scored) (hitem : item ∈ items) :
    ∃ sample, s.scoreItem item = .ok sample ∧
      (scored item.trajIdx).find? (fun g => g.seqIdx = item.seqIdx) = some sample := by
  obtain ⟨hruns, rfl⟩ := collect_eq_ok_iff.mp h
  have hmem := hperm.mem_iff.mpr hitem
  obtain ⟨sample, hsample⟩ := hruns item hmem
  refine ⟨sample, hsample, ?_⟩
  have hnodup : ((gather WorkItem.trajIdx s.scoreItem order item.trajIdx).map ScoredSample.seqIdx).Nodup := by
    apply nodup_map_gather fun item sample => scoreItem_seqIdx
    exact (hperm.map _).nodup_iff.mpr hkeys
  dsimp only
  rw [List.nil_append, ← scoreItem_seqIdx hsample]
  exact find?_key_of_mem hnodup (mem_gather.mpr ⟨item, hmem, rfl, hsample⟩)

theorem runBatch_summary [Field R] [LinearOrder R] {sqrt : ℚ → R} (hreward : s.rewardFn = .distortion) {batch : ℕ}
    {precomputing : Schedule (ℕ × AgentTrajectory)} {scoring : Schedule (WorkItem M)} {out : BatchResult M R}
    (h : s.runBatch sqrt batch rollouts precomputing scoring = .ok out) {r : SummaryRecord} (hr : r ∈ out.summaries) :
    ∃ rollout ∈ rollouts, ∃ i xCtxs, r.trajectoryId = rollout.traj.trajectoryId ∧
      s.precomputeXForTraj (i, rollout.traj) = .ok xCtxs ∧
        s.contentReward rollout.traj xCtxs r.summary = .ok r.reward := by
  obtain ⟨xCtxMap, hxCtxMap, h⟩ := bind_eq_ok.mp h
  obtain ⟨items, hitems, h⟩ := bind_eq_ok.mp h
  obtain ⟨scored, hscored, h⟩ := bind_eq_ok.mp h
  obtain ⟨summaries, hsummaries, h⟩ := bind_eq_ok.mp h
  obtain ⟨groups, -, h⟩ := bind_eq_ok.mp h
  cases h
  split_ifs at hsummaries with hsave
  · obtain ⟨item, hitem, hrecord⟩ := mem_of_mapM_ok hsummaries hr
    obtain ⟨p, hp, htraj, hctxs⟩ := workItems_rollout hitems hitem
    obtain ⟨xCtxs, hxCtxs, hmap⟩ := contextMap_rollout hreward (precomputing.perm _) hxCtxMap hp
    obtain ⟨sample, hsample, hfind⟩ := collected_sample (scoring.perm items) (workItems_keys hitems) hscored hitem
    obtain ⟨partialMessages, hmade, hrecord⟩ := bind_eq_ok.mp hrecord
    cases hrecord
    rw [hmap] at hctxs
    refine ⟨p.1, List.fst_mem_of_mem_zipIdx hp, p.2, xCtxs, by rw [htraj], hxCtxs, ?_⟩
    obtain ⟨reward, hitemReward, hsample⟩ := bind_eq_ok.mp hsample
    cases hsample
    simp only [hfind]
    rw [itemReward, hreward, htraj, hctxs] at hitemReward
    exact hitemReward
  · cases hsummaries
    cases hr

end RlSetup

section Splits

variable {py : Python} {inputIds : String → List ℕ} {o : SplitOptions} {t split : AgentTrajectory}

def ArgumentsRoundTrip (py : Python) (steps : List TrajectoryStep) : Prop :=
  ∀ step ∈ steps, ∀ tc ∈ step.toolCalls, ∀ v, wireArguments py tc.arguments = .ok v → RoundTrips py v

theorem wireCalls_arguments {i : ℕ} {calls : List ToolCall} {out : List WireToolCall}
    (h : wireCalls py i calls = .ok out) {call : WireToolCall} (hcall : call ∈ out) :
    ∃ tc ∈ calls, ∃ v, wireArguments py tc.arguments = .ok v ∧ call.arguments = some v := by
  induction calls generalizing i out with
  | nil =>
    cases h
    cases hcall
  | cons tc calls ih =>
    obtain ⟨first, hfirst, h⟩ := bind_eq_ok.mp h
    obtain ⟨rest, hrest, h⟩ := bind_eq_ok.mp h
    obtain ⟨v, hv, hfirst⟩ := bind_eq_ok.mp hfirst
    cases h
    cases hfirst
    rcases List.mem_cons.mp hcall with rfl | hcall
    · exact ⟨tc, List.mem_cons_self, v, hv, rfl⟩
    · obtain ⟨tc', htc', hcall⟩ := ih hrest hcall
      exact ⟨tc', List.mem_cons_of_mem _ htc', hcall⟩

theorem everywhere_stepsToMessages {steps : List TrajectoryStep} (hround : ArgumentsRoundTrip py steps)
    {task prompt : Content} {messages : List Message} (h : stepsToMessages py steps task prompt = .ok messages) :
    Everywhere (RoundTrips py) messages := by
  obtain ⟨rendered, hrendered, h⟩ := bind_eq_ok.mp h
  cases h
  intro m hm tc htc v hv
  rcases List.mem_cons.mp hm with rfl | hm
  · cases htc
  rcases List.mem_cons.mp hm with rfl | hm
  · cases htc
  · obtain ⟨step, hstep, hbuilt⟩ := mem_of_mapM_ok hrendered hm
    rw [stepToMessage] at hbuilt
    by_cases hrole : step.role = .assistant
    · rw [if_pos hrole] at hbuilt
      obtain ⟨calls, hcalls, hbuilt⟩ := bind_eq_ok.mp hbuilt
      cases hbuilt
      obtain ⟨tc', htc', w, hw, harguments⟩ := wireCalls_arguments hcalls htc
      rw [harguments] at hv
      cases hv
      exact hround step hstep tc' htc' _ hw
    · rw [if_neg hrole] at hbuilt
      cases hbuilt
      cases htc

theorem CutTo.isPrefix {cap : ℤ} {rest cut : List TrajectoryStep} (h : CutTo py inputIds cap rest cut) : cut <+: rest := by
  cases h with
  | uncapped hcap => exact List.prefix_rfl
  | capped hcap hlens longest => exact List.take_prefix _ _

theorem thresholdSplit_parts (halternates : Alternates t.steps) (hwhole : t.continuation = [])
    (h : t.thresholdSplit py inputIds o = .ok (some split)) :
    split.steps ⊆ t.steps ∧ split.continuation ⊆ t.steps ∧ ∀ a ∈ split.continuation.head?, a.role = .assistant := by
  obtain ⟨lens, -, ⟨-, hnone⟩ | ⟨k, -, hsplit⟩⟩ := AgentTrajectory.thresholdSplit_cases h
  · cases hnone
  · obtain ⟨hsteps, hcut⟩ := (AgentTrajectory.splitAtTurn_cases hsplit).2 split rfl
    rw [hwhole, List.append_nil] at hcut
    have hprefix := hcut.isPrefix
    refine ⟨?_, ?_, ?_⟩
    · rw [hsteps]
      exact List.take_subset _ _
    · exact List.Subset.trans hprefix.subset (List.drop_subset _ _)
    · intro a ha
      obtain ⟨more, hmore⟩ := hprefix
      have hfirst : (t.steps.drop (2 * k)).head? = some a := by
        rw [← hmore, List.head?_append, ha]
        rfl
      rw [List.head?_drop] at hfirst
      have hrole := halternates (2 * k) a hfirst
      rw [if_pos (by omega)] at hrole
      exact hrole

end Splits

namespace RlSetup

variable {M : Type} {s : RlSetup M} {split : AgentTrajectory}

theorem stepMessages_everywhere {steps : List TrajectoryStep} (hround : ArgumentsRoundTrip s.py steps)
    {messages : List Message} (h : s.stepMessages split steps = .ok messages) : Everywhere (RoundTrips s.py) messages :=
  everywhere_stepsToMessages hround h

theorem stepMessages_turns {steps : List TrajectoryStep} (hfirst : ∀ a ∈ steps.head?, a.role = .assistant)
    {messages : List Message} (h : s.stepMessages split steps = .ok messages) :
    ∀ m ∈ (messages.drop 2).head?, m.role = .assistant := by
  obtain ⟨rendered, hrendered, h⟩ := bind_eq_ok.mp h
  cases h
  intro m hm
  cases steps with
  | nil =>
    cases hrendered
    cases hm
  | cons a steps =>
    rw [List.mapM_cons] at hrendered
    obtain ⟨first, ha, hrendered⟩ := bind_eq_ok.mp hrendered
    obtain ⟨rest, -, hrendered⟩ := bind_eq_ok.mp hrendered
    cases hrendered
    cases hm
    rw [(stepToMessage_fields s.py ha).1]
    exact hfirst a rfl

theorem precomputeXForTraj_single (hturns : s.nTurns = 1) {i : ℕ} {xCtxs : Option Contexts}
    (h : s.precomputeXForTraj (i, split) = .ok xCtxs) {partialMessages continuation : List Message}
    (hmade : s.stepMessages split split.steps = .ok partialMessages)
    (hcontinuation : s.stepMessages split split.continuation = .ok continuation)
    (hassistant : ∀ m ∈ (continuation.drop 2).head?, m.role = .assistant) :
    (continuation.drop 2 = [] ∧ xCtxs = none) ∨ ∃ y rest xCtx, continuation.drop 2 = y :: rest ∧
      precomputeXContext s.py s.server s.tokenizer s.model s.apiBase partialMessages y 0 s.options.tools = .ok xCtx ∧
      xCtxs = xCtx.map fun x => [([], x)] := by
  unfold precomputeXForTraj at h
  dsimp only at h
  rw [hmade, ok_bind, hcontinuation, ok_bind, hturns] at h
  unfold precomputeXContexts at h
  cases hrest : continuation.drop 2 with
  | nil =>
    rw [hrest] at h
    cases h
    exact .inl ⟨rfl, rfl⟩
  | cons y rest =>
    have hy : y.role = .assistant := hassistant y (by rw [hrest]; rfl)
    have hturn : continuationTurns (y :: rest) 1 = [([], y)] := by
      unfold continuationTurns turnsFrom
      simp [hy]
    rw [hrest, hturn, StoppingLoops.untilNone, turnContext, List.append_nil] at h
    refine .inr ⟨y, rest, ?_⟩
    dsimp only at h
    cases hx : precomputeXContext s.py s.server s.tokenizer s.model s.apiBase partialMessages y 0 s.options.tools with
    | error e =>
      rw [hx] at h
      cases h
    | ok xCtx =>
      rw [hx] at h
      cases xCtx with
      | none =>
        cases h
        exact ⟨none, rfl, rfl, rfl⟩
      | some x =>
        cases h
        exact ⟨some x, rfl, rfl, rfl⟩

end RlSetup

namespace EvalTopSummaries

section Reproduction

variable {M : Type} {s : RlSetup M} {e : Setup} {r : TopSummary} {split : AgentTrajectory} {xCtx : XContext ℚ}

def Setup.withTraining (e : Setup) (s : RlSetup M) : Setup :=
  { e with
    py := s.py
    tok := s.tokenizer
    server := s.server
    scoringModel := s.model
    scoringBaseUrl := s.apiBase
    tanh := s.tanh
    tools := s.options.tools
    keepFirst := s.options.keepFirst
    maxSize := s.options.maxSize
    beta := s.options.beta }

structure Reproduces (s : RlSetup M) (r : TopSummary) (split : AgentTrajectory) (entry : Entry) : Prop where
  instanceId : entry.instanceId = r.trajectoryId
  nPrefixSteps : entry.nPrefixSteps = split.steps.length
  reward : ∃ fidelity partialMessages, entry.arms.trained.fidelityBounded = some fidelity ∧
    s.stepMessages split split.steps = .ok partialMessages ∧
    r.reward = some (.finite (fidelity - summaryPenalty s.py s.tokenizer s.options r.summary
      (toTemplateToolCalls s.py (buildXScoringMessages partialMessages))))

theorem base_of_fidelityBounded {zMessages : List Message} {d : Distortion ℚ} {f : ℚ}
    (h : computeDistortionMessages s.py s.server s.tokenizer s.model s.apiBase s.tanh xCtx zMessages s.options.beta
      s.options.tools = .ok (.scored d)) (hf : d.fidelityBounded = some f) : d.base s.options.beta = f := by
  unfold computeDistortionMessages at h
  obtain ⟨scores, -, h⟩ := bind_eq_ok.mp h
  cases scores with
  | none => cases h
  | some kl =>
    dsimp only at h
    by_cases hlength : kl.length = 0
    · rw [if_pos hlength] at h
      cases h
    · rw [if_neg hlength] at h
      obtain ⟨rendered, -, h⟩ := bind_eq_ok.mp h
      cases h
      by_cases hbeta : 0 < s.options.beta
      · simp only [if_pos hbeta] at hf
        simp only [Distortion.base, if_pos hbeta, hf, Option.getD_some]
      · simp only [if_neg hbeta] at hf
        cases hf

theorem arm_scored {zMessages : List Message} {a : Arm} {f : ℚ} (h : (e.withTraining s).arm xCtx zMessages = .ok a)
    (hf : a.fidelityBounded = some f) :
    ∃ d, computeDistortionMessages s.py s.server s.tokenizer s.model s.apiBase s.tanh xCtx zMessages s.options.beta
      s.options.tools = .ok (.scored d) ∧ d.base s.options.beta = f := by
  obtain ⟨result, hresult, h⟩ := bind_eq_ok.mp h
  cases result with
  | error text =>
    cases h
    cases hf
  | scored columns =>
    obtain ⟨result, hd, hresult⟩ := bind_eq_ok.mp hresult
    cases result with
    | error text => cases hresult
    | scored d =>
      cases hresult
      refine ⟨d, hd, base_of_fidelityBounded hd ?_⟩
      dsimp only at h
      split_ifs at h
      · cases h
        exact hf
      · cases h
        exact hf

theorem single_reward {partialMessages : List Message} {summary : String} {d : Distortion ℚ}
    (h : computeDistortionMessages s.py s.server s.tokenizer s.model s.apiBase s.tanh xCtx
      (buildZScoringMessages summary partialMessages s.options.maxSize s.options.keepFirst) s.options.beta
      s.options.tools = .ok (.scored d)) :
    distortionRewardZMulti s.py s.server s.tokenizer s.model s.apiBase s.tanh s.options [([], xCtx)] summary
      partialMessages =
        .ok (some (d.base s.options.beta - summaryPenalty s.py s.tokenizer s.options summary xCtx.xMessages)) := by
  rw [distortionRewardZMulti_single]
  unfold distortionRewardZ distortionRewardMessages summaryPenalty
  dsimp only
  rw [h, ok_bind]
  split_ifs
  · simp
  · simp

theorem trained_reward {partialMessages : List Message} (hround : Everywhere (RoundTrips s.py) partialMessages)
    {summary : String} {arms : Arms Arm} {fidelity : ℚ}
    (h : (e.withTraining s).arms (toWireToolCalls s.py partialMessages) xCtx summary = .ok arms)
    (hfidelity : arms.trained.fidelityBounded = some fidelity) :
    distortionRewardZMulti s.py s.server s.tokenizer s.model s.apiBase s.tanh s.options [([], xCtx)] summary
      partialMessages =
        .ok (some (fidelity - summaryPenalty s.py s.tokenizer s.options summary xCtx.xMessages)) := by
  obtain ⟨full, -, h⟩ := bind_eq_ok.mp h
  obtain ⟨truncation, -, h⟩ := bind_eq_ok.mp h
  obtain ⟨mask, -, h⟩ := bind_eq_ok.mp h
  obtain ⟨trained, htrained, h⟩ := bind_eq_ok.mp h
  cases h
  obtain ⟨d, hd, rfl⟩ := arm_scored htrained hfidelity
  apply single_reward
  rw [← hd]
  apply computeDistortionMessages_congr
  exact (toTemplateToolCalls_buildZScoringMessages hround summary _ _).symm

theorem scoreSplit_cases (hturns : s.nTurns = 1) (hassistant : ∀ a ∈ split.continuation.head?, a.role = .assistant)
    (hsteps : ArgumentsRoundTrip s.py split.steps) (hcontinuation : ArgumentsRoundTrip s.py split.continuation)
    {i : ℕ} {xCtxs : Option Contexts} (hxCtxs : s.precomputeXForTraj (i, split) = .ok xCtxs)
    (hreward : s.contentReward split xCtxs r.summary = .ok r.reward) {entry : Option Entry}
    (h : (e.withTraining s).scoreSplit r split = .ok entry) :
    (r.reward = none ∧ entry = none) ∨ ∃ scored, entry = some scored ∧ Reproduces s r split scored := by
  obtain ⟨context, hcontext, h⟩ := bind_eq_ok.mp h
  obtain ⟨cont, hcont, h⟩ := bind_eq_ok.mp h
  obtain ⟨partialMessages, hmade, hcontext⟩ := bind_eq_ok.mp hcontext
  obtain ⟨continuation, hrest, hcont⟩ := bind_eq_ok.mp hcont
  cases hcontext
  cases hcont
  change s.stepMessages split split.steps = .ok partialMessages at hmade
  change s.stepMessages split split.continuation = .ok continuation at hrest
  have hround := RlSetup.stepMessages_everywhere hsteps hmade
  have hroundRest := RlSetup.stepMessages_everywhere hcontinuation hrest
  rw [RlSetup.contentReward, hmade, ok_bind] at hreward
  have hcut : (toWireToolCalls (e.withTraining s).py continuation).drop 2 = toWireToolCalls s.py (continuation.drop 2) :=
    List.map_drop.symm
  rw [hcut] at h
  obtain ⟨hnil, rfl⟩ | ⟨y, rest, xCtx, hy, hx, rfl⟩ :=
    RlSetup.precomputeXForTraj_single hturns hxCtxs hmade hrest (RlSetup.stepMessages_turns hassistant hrest)
  · rw [hnil] at h
    cases h
    exact .inl ⟨(Except.ok.inj hreward).symm, rfl⟩
  · have hassist : y.role = .assistant := RlSetup.stepMessages_turns hassistant hrest y (by rw [hy]; rfl)
    have hmem : y ∈ continuation := List.mem_of_mem_drop (by rw [hy]; exact List.mem_cons_self)
    have hroundTurn : Everywhere (RoundTrips s.py) [y] := everywhere_of_subset hroundRest (by simpa using hmem)
    have hfind : (toWireToolCalls s.py (continuation.drop 2)).find? (fun m => decide (m.role = .assistant)) =
        some { y with toolCalls := y.toolCalls.map (wireText s.py) } := by
      rw [hy, toWireToolCalls, List.map_cons, List.find?_cons_of_pos]
      exact decide_eq_true hassist
    rw [hfind] at h
    obtain ⟨found, hfound, h⟩ := bind_eq_ok.mp h
    have hsame := (precomputeXContext_toWireToolCalls hround hroundTurn 0 s.options.tools).trans hx
    cases hsame.symm.trans hfound
    cases xCtx with
    | none =>
      cases h
      exact .inl ⟨(Except.ok.inj hreward).symm, rfl⟩
    | some x =>
      obtain ⟨arms, harms, h⟩ := bind_eq_ok.mp h
      cases hrecorded : r.reward with
      | none =>
        rw [hrecorded] at h
        cases h
      | some reward =>
        cases hfidelity : arms.trained.fidelityBounded with
        | none =>
          rw [hrecorded, hfidelity] at h
          cases h
        | some fidelity =>
          rw [hrecorded, hfidelity] at h
          cases h
          refine .inr ⟨_, rfl, rfl, rfl, fidelity, partialMessages, hfidelity, hmade, ?_⟩
          obtain ⟨penalised, hpenalised, hreward⟩ := bind_eq_ok.mp hreward
          cases (trained_reward hround harms hfidelity).symm.trans hpenalised
          rw [← Except.ok.inj hreward, (precomputeXContext_ok hx).1]
          rfl

def Logged {R : Type} [Field R] [LinearOrder R] (s : RlSetup M) (sqrt : ℚ → R) (inputIds : String → List ℕ)
    (o : SplitOptions) (loaded : List AgentTrajectory) (r : TopSummary) : Prop :=
  ∃ batch rollouts precomputing scoring out, s.runBatch sqrt batch rollouts precomputing scoring = .ok out ∧
    (∀ rollout ∈ rollouts, ∃ t ∈ loaded, t.thresholdSplit s.py inputIds o = .ok (some rollout.traj)) ∧
    ∃ record ∈ out.summaries,
      record.trajectoryId = r.trajectoryId ∧ record.summary = r.summary ∧ record.reward = r.reward

structure Whole (py : Python) (t : AgentTrajectory) : Prop where
  alternates : Alternates t.steps
  whole : t.continuation = []
  roundTrips : ArgumentsRoundTrip py t.steps

theorem lookup_source {loaded src : List AgentTrajectory} (hids : (loaded.map AgentTrajectory.trajectoryId).Nodup)
    (hsrc : src ⊆ loaded) {t t' : AgentTrajectory} (ht : t ∈ loaded)
    (h : (keepLast AgentTrajectory.trajectoryId src).lookup t.trajectoryId = some t') : t' = t := by
  rw [lookup_keepLast] at h
  have hmem := hsrc (List.mem_reverse.mp (List.mem_of_find?_eq_some h))
  have hkey : t'.trajectoryId = t.trajectoryId := by simpa using List.find?_some h
  exact List.inj_on_of_nodup_map hids hmem ht hkey

theorem instance_cases {R : Type} [Field R] [LinearOrder R] {sqrt : ℚ → R} (hreward : s.rewardFn = .distortion)
    (hturns : s.nTurns = 1) {loaded src : List AgentTrajectory}
    (hids : (loaded.map AgentTrajectory.trajectoryId).Nodup) (hwhole : ∀ t ∈ loaded, Whole s.py t) (hsrc : src ⊆ loaded)
    (hlogged : Logged s sqrt e.inputIds e.splitOptions loaded r) {entry : Option Entry}
    (h : (e.withTraining s).instance? src r = .ok entry) :
    ((r.reward = none ∨ ∀ t ∈ src, t.trajectoryId ≠ r.trajectoryId) ∧ entry = none) ∨
      (r.reward ≠ none ∧ ∃ t ∈ src, t.trajectoryId = r.trajectoryId ∧ ∃ split scored,
        t.thresholdSplit s.py e.inputIds e.splitOptions = .ok (some split) ∧ entry = some scored ∧
          Reproduces s r split scored) := by
  obtain ⟨batch, rollouts, precomputing, scoring, out, hrun, hsplits, record, hrecord, hid, hsummary, hrecorded⟩ := hlogged
  obtain ⟨rollout, hrollout, i, xCtxs, htraj, hxCtxs, hcontent⟩ := RlSetup.runBatch_summary hreward hrun hrecord
  obtain ⟨t, ht, hsplit⟩ := hsplits rollout hrollout
  have hsameId : t.trajectoryId = r.trajectoryId := by
    rw [← hid, htraj, (splitOf_sameRecord (.thresholdSplit hsplit)).1.trajectoryId]
  rw [hsummary, hrecorded] at hcontent
  unfold Setup.instance? at h
  cases hlookup : (keepLast AgentTrajectory.trajectoryId src).lookup r.trajectoryId with
  | none =>
    rw [hlookup] at h
    cases h
    rw [lookup_keepLast, last_eq_none_iff] at hlookup
    exact .inl ⟨.inr hlookup, rfl⟩
  | some t' =>
    rw [hlookup] at h
    rw [← hsameId] at hlookup
    obtain rfl := lookup_source hids hsrc ht hlookup
    have hmem : t' ∈ src := by
      rw [lookup_keepLast] at hlookup
      exact List.mem_reverse.mp (List.mem_of_find?_eq_some hlookup)
    obtain ⟨found, hfound, h⟩ := bind_eq_ok.mp h
    cases hsplit.symm.trans hfound
    obtain ⟨halternates, hcontinuation, hround⟩ := hwhole t' ht
    obtain ⟨hsteps, hrest, hassistant⟩ := thresholdSplit_parts halternates hcontinuation hsplit
    rcases scoreSplit_cases hturns hassistant (fun step hstep => hround step (hsteps hstep))
      (fun step hstep => hround step (hrest hstep)) hxCtxs hcontent h with ⟨hnone, hentry⟩ | ⟨scored, hentry, hscored⟩
    · exact .inl ⟨.inl hnone, hentry⟩
    · refine .inr ⟨?_, t', hmem, hsameId, rollout.traj, scored, hsplit, hentry, hscored⟩
      obtain ⟨fidelity, partialMessages, -, -, hreward⟩ := hscored.reward
      rw [hreward]
      nofun

theorem map_reduceOption {α β κ ε : Type} {f : α → Except ε (Option β)} {g : β → κ} {k : α → κ} {p : α → Bool}
    {xs : List α} {ys : List (Option β)} (h : xs.mapM f = .ok ys)
    (hcases : ∀ x ∈ xs, ∀ y, f x = .ok y → (p x = false ∧ y = none) ∨ (p x = true ∧ ∃ b, y = some b ∧ g b = k x)) :
    ys.reduceOption.map g = (xs.filter p).map k := by
  rw [mapM_eq_ok] at h
  induction h with
  | nil => rfl
  | @cons x y xs ys hxy _ ih =>
    have hrest := ih fun x hx => hcases x (List.mem_cons_of_mem _ hx)
    rcases hcases x List.mem_cons_self y hxy with ⟨hp, rfl⟩ | ⟨hp, b, rfl, hb⟩
    · rw [List.reduceOption_cons_of_none, List.filter_cons_of_neg (by simp [hp]), hrest]
    · rw [List.reduceOption_cons_of_some, List.filter_cons_of_pos hp, List.map_cons, List.map_cons, hrest, hb]

theorem sources_any {py : Python} {sources : List RawRecord} {src : List AgentTrajectory}
    (h : sources.mapM (AgentTrajectory.fromCollectDict py) = .ok src) (k : String) :
    sources.any (fun d => d.uid.getD "" = k) = true ↔ ∃ t ∈ src, t.trajectoryId = k := by
  have hid (d : RawRecord) (t : AgentTrajectory) (hbuilt : AgentTrajectory.fromCollectDict py d = .ok t) :
      t.trajectoryId = d.uid.getD "" := by
    obtain ⟨task, -, hbuilt⟩ := bind_eq_ok.mp hbuilt
    obtain ⟨agentSystemPrompt, -, hbuilt⟩ := bind_eq_ok.mp hbuilt
    cases hbuilt
    rfl
  rw [List.any_eq_true]
  constructor
  · rintro ⟨d, hd, hk⟩
    obtain ⟨t, hbuilt⟩ := mapM_ok_iff_forall.mp ⟨src, h⟩ d hd
    exact ⟨t, mem_mapM_ok h hd hbuilt, (hid d t hbuilt).trans (of_decide_eq_true hk)⟩
  · rintro ⟨t, ht, hk⟩
    obtain ⟨d, hd, hbuilt⟩ := mem_of_mapM_ok h ht
    exact ⟨d, hd, decide_eq_true ((hid d t hbuilt).symm.trans hk)⟩

theorem main_reproduces {R : Type} [Field R] [LinearOrder R] {sqrt : ℚ → R} (hreward : s.rewardFn = .distortion)
    (hturns : s.nTurns = 1) {dataset sources : List RawRecord} {loaded : List AgentTrajectory}
    (hloaded : dataset.mapM (AgentTrajectory.fromCollectDict s.py) = .ok loaded)
    (hids : (loaded.map AgentTrajectory.trajectoryId).Nodup)
    (hanswered : ∀ d ∈ dataset, AnsweredAtOnce (d.messages.getD []))
    (hround : ∀ t ∈ loaded, ArgumentsRoundTrip s.py t.steps) (hsources : sources ⊆ dataset) {top : List TopSummary}
    (hlogged : ∀ r ∈ top, Logged s sqrt e.inputIds e.splitOptions loaded r) {report : Report}
    (h : (e.withTraining s).main top sources = .ok report) :
    report.instances.map Entry.instanceId = ((keepLast TopSummary.trajectoryId top).filter fun r =>
        r.2.reward.isSome && sources.any (fun d => d.uid.getD "" = r.1)).map Prod.fst ∧
      ∀ entry ∈ report.instances, ∃ r t split, last TopSummary.trajectoryId top entry.instanceId = some r ∧
        t ∈ loaded ∧ t.thresholdSplit s.py e.inputIds e.splitOptions = .ok (some split) ∧
        Reproduces s r split entry := by
  obtain ⟨src, hsrc, h⟩ := bind_eq_ok.mp h
  obtain ⟨scored, hscored, h⟩ := bind_eq_ok.mp h
  cases h
  have hwhole : ∀ t ∈ loaded, Whole s.py t := by
    intro t ht
    obtain ⟨d, hd, hbuilt⟩ := mem_of_mapM_ok hloaded ht
    obtain ⟨task, -, hbuilt⟩ := bind_eq_ok.mp hbuilt
    obtain ⟨agentSystemPrompt, -, hbuilt⟩ := bind_eq_ok.mp hbuilt
    have hsteps := hround t ht
    cases hbuilt
    exact ⟨(collectSteps_alternates_iff _).mpr (hanswered d hd), rfl, hsteps⟩
  have hsub : src ⊆ loaded := by
    intro t ht
    obtain ⟨d, hd, hbuilt⟩ := mem_of_mapM_ok hsrc ht
    exact mem_mapM_ok hloaded (hsources hd) hbuilt
  constructor
  · apply map_reduceOption hscored
    rintro ⟨k, r⟩ hkept entry hentry
    obtain ⟨-, hr, rfl⟩ := mem_keepLast hkept
    rcases instance_cases hreward hturns hids hwhole hsub (hlogged r hr) hentry with
      ⟨hskipped, hnone⟩ | ⟨hsome, t, ht, hid, split, scored, -, hscored, hreproduces⟩
    · refine .inl ⟨?_, hnone⟩
      rw [Bool.and_eq_false_iff]
      refine hskipped.imp (fun hnone => by rw [hnone]; rfl) ?_
      intro hmissing
      rw [Bool.eq_false_iff, ne_eq, sources_any hsrc]
      rintro ⟨t, ht, hid⟩
      exact hmissing t ht hid
    · refine .inr ⟨?_, scored, hscored, hreproduces.instanceId⟩
      rw [Bool.and_eq_true, Option.isSome_iff_ne_none, sources_any hsrc]
      exact ⟨hsome, t, ht, hid⟩
  · intro entry hentry
    obtain ⟨⟨k, r⟩, hkept, hevaluated⟩ := mem_of_mapM_ok hscored (List.reduceOption_mem_iff.mp hentry)
    obtain ⟨hlast, hr, rfl⟩ := mem_keepLast hkept
    rcases instance_cases hreward hturns hids hwhole hsub (hlogged r hr) hevaluated with
      ⟨-, hnone⟩ | ⟨-, t, ht, -, split, scored, hsplit, hscored, hreproduces⟩
    · cases hnone
    · cases hscored
      refine ⟨r, t, split, ?_, hsub ht, hsplit, hreproduces⟩
      rw [hreproduces.instanceId]
      exact hlast

def hashTokenizer : Tokenizer where
  encode s := s.toList.map Char.toNat
  applyChatTemplate messages _ _ := .ok (String.ofList (messages.map fun _ => '#'))

def constantServer : TextCompletion ℚ := fun request =>
  .ok ⟨some request.prompt.length, some (request.prompt.toList.map fun _ => some (-1))⟩

def shortRun : RlSetup (List (List ℕ)) where
  py := asciiPython
  tokenizer := hashTokenizer
  server := constantServer
  model := "m"
  apiBase := "b"
  tanh x := x
  options := { beta := 1 }
  nTurns := 1
  rewardFn := .distortion
  toLower := id
  responseText _ := "s"
  inputs := chunkInputs
  advantages := {}
  saveSummaries := true

def shortRecord : RawRecord where
  uid := some "u"
  messages := some [feedbackMessage, commandMessage "a", resultMessage "a", commandMessage "b", resultMessage "b"]

def shortLoaded : AgentTrajectory := { collected shortRecord (.text "call one tool") with trajectoryId := "u" }

def shortEval : Setup where
  py := asciiPython
  tok := hashTokenizer
  inputIds _ := [0]
  server := constantServer
  scoringModel := "m"
  scoringBaseUrl := "b"
  tanh x := x
  tools := none
  splitAtTokens := 1
  compactionTokenBudget := 1
  minSplitPrefix := 1
  minSplitSuffix := 1

def shortRollout : Rollout (List (List ℕ)) where
  traj := shortLoaded.withPrefix 2
  convo := []
  prompt := [[1]]
  sampled := .ok [⟨[2], some [some (.finite 0)]⟩]

def shortTop : TopSummary := ⟨"u", "s", some (.finite 0), none⟩

theorem shortTop_logged :
    Logged shortRun (id : ℚ → ℚ) shortEval.inputIds shortEval.splitOptions [shortLoaded] shortTop := by
  refine ⟨0, [shortRollout], ⟨id, fun _ => .refl _⟩, ⟨id, fun _ => .refl _⟩, _, by with_unfolding_all rfl, ?_, _,
    List.mem_singleton_self _, rfl, rfl, by with_unfolding_all rfl⟩
  intro rollout hrollout
  rw [List.mem_singleton.mp hrollout]
  exact ⟨shortLoaded, List.mem_singleton_self _, rfl⟩

theorem main_reproduces_short : ∃ report, (shortEval.withTraining shortRun).main [shortTop] [shortRecord] = .ok report ∧
    report.instances.map Entry.instanceId = ["u"] ∧
    ∀ entry ∈ report.instances, ∃ r t split, last TopSummary.trajectoryId [shortTop] entry.instanceId = some r ∧
      t ∈ [shortLoaded] ∧ t.thresholdSplit asciiPython shortEval.inputIds shortEval.splitOptions = .ok (some split) ∧
      Reproduces shortRun r split entry := by
  have hanswered : ∀ d ∈ [shortRecord], AnsweredAtOnce (d.messages.getD []) := by
    intro d hd
    rw [List.mem_singleton.mp hd, ← @collectSteps_alternates_iff asciiPython]
    exact alternates_cons_cons.mpr ⟨rfl, rfl, alternates_cons_cons.mpr ⟨rfl, rfl, alternates_nil⟩⟩
  have hround : ∀ t ∈ [shortLoaded], ArgumentsRoundTrip asciiPython t.steps := by
    intro t ht step hstep tc htc v hv hmapping
    have hsteps : shortLoaded.steps = [collectAssistant asciiPython (commandMessage "a"), collectTool (resultMessage "a"),
        collectAssistant asciiPython (commandMessage "b"), collectTool (resultMessage "b")] := rfl
    have harguments : tc.arguments = .object [] := by
      rw [List.mem_singleton.mp ht, hsteps] at hstep
      simp only [List.mem_cons, List.not_mem_nil, or_false] at hstep
      obtain rfl | rfl | rfl | rfl := hstep
      · rw [List.mem_singleton.mp htc]
        rfl
      · cases htc
      · rw [List.mem_singleton.mp htc]
        rfl
      · cases htc
    rw [harguments] at hv
    cases hv
    rfl
  have hlogged : ∀ r ∈ [shortTop],
      Logged shortRun (id : ℚ → ℚ) shortEval.inputIds shortEval.splitOptions [shortLoaded] r := by
    simpa using shortTop_logged
  have hloaded : [shortRecord].mapM (AgentTrajectory.fromCollectDict asciiPython) = .ok [shortLoaded] := rfl
  have hids : ([shortLoaded].map AgentTrajectory.trajectoryId).Nodup := List.nodup_singleton _
  refine ⟨_, by with_unfolding_all rfl, ?_⟩
  exact main_reproduces rfl rfl hloaded hids hanswered hround (List.Subset.refl _) hlogged (by with_unfolding_all rfl)

end Reproduction

end EvalTopSummaries

end TokensThatSuffice
