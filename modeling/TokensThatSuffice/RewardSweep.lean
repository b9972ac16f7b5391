import TokensThatSuffice.Compactors
import TokensThatSuffice.CopyPenalty
import TokensThatSuffice.KeyedLog
import TokensThatSuffice.SelfDistortion
import TokensThatSuffice.StepMessages
import TokensThatSuffice.TrajectoryRecords

namespace TokensThatSuffice

open KeyedLog Runs

structure RewardOptions (R : Type) where
  maxSize : ℕ := 20
  keepFirst : ℕ := 4
  weights : CopyWeights := {}
  beta : R
  tools : Option (List Json) := none

structure ScoredReward (R : Type) where
  distortion : Distortion R
  components : Option PenaltyComponents
  base : R
  penalty : R
  reward : R

inductive RewardResult (R : Type) where
  | error (text : String)
  | scored (columns : ScoredReward R)

def RewardResult.columns? {R : Type} : RewardResult R → Option (ScoredReward R)
  | .error _ => none
  | .scored columns => some columns

section Rewards

variable {R : Type} (py : Python) (server : TextCompletion R) (tokenizer : Tokenizer) (model apiBase : String)

variable [Field R] [LinearOrder R] (tanh : R → R) (o : RewardOptions R)

def Distortion.base (d : Distortion R) (beta : R) : R :=
  if 0 < beta then d.fidelityBounded.getD d.fidelity else d.fidelity

def distortionRewardMessages (xCtx : XContext R) (zMessages : List Message) (summary : String) :
    Except PyError (RewardResult R) := do
  match ← computeDistortionMessages py server tokenizer model apiBase tanh xCtx zMessages o.beta o.tools with
  | .error text => return .error text
  | .scored d =>
    let base := d.base o.beta
    if summary ≠ "" then
      let (penalty, components) := copyPenalty py tokenizer summary xCtx.xMessages o.weights
      return .scored ⟨d, some components, base, penalty, base - penalty⟩
    else return .scored ⟨d, none, base, 0, base - 0⟩

end Rewards

def agentSystemPrompt : String :=
  "You are a helpful assistant that can interact with a computer shell to solve programming tasks."

/-- A parsed `hXtY` spec; `max_size` 0 selects the masking of the environment text. -/
structure SweepSpec where
  spec : String
  keepFirst : ℕ
  keepLastTurns : ℕ
  maxSize : ℕ
  deriving DecidableEq, Repr

structure SweepUnit where
  traj : AgentTrajectory
  kTurns : ℕ
  contextTokens : ℕ

/-- The command line and the servers; `excText` is `str(exc)`, `systemPrompt` the summarizer's prompt. -/
structure SweepSetup where
  py : Python
  tokenizer : Tokenizer
  server : TextCompletion ℚ
  model : String
  apiBase : String
  tanh : ℚ → ℚ
  summarize : List TrajectoryStep → Except PyError String
  excText : PyError → String
  systemPrompt : Content
  bashTool : Json
  specs : List SweepSpec
  weights : CopyWeights
  beta : ℚ

inductive RowStatus where
  | noNextAction
  | summarizeFailed
  | xPrecomputeFailed
  | scoreFailed
  | ok
  | unitFailed
  deriving DecidableEq, Repr

structure UnitColumns where
  summary : String
  nYTokens : ℤ
  nXCtxTokens : ℕ
  yVerified : Option Bool
  deriving Repr

structure SpecColumns where
  spec : SweepSpec
  compactionTokens : ℕ
  deriving Repr

structure SweepRow where
  trajectoryId : String
  nPrefixTurns : ℕ
  contextTokens : ℕ
  nContinuationTurns : Option ℕ := none
  unit : Option UnitColumns := none
  spec : Option SpecColumns := none
  status : RowStatus
  error : Option String := none
  reward : Option (ScoredReward ℚ) := none

def AgentTrajectory.compactionTokens (py : Python) (tokenizer : Tokenizer) (systemPrompt : Content)
    (t : AgentTrajectory) (keepFirst keepLastTurns : ℕ) : Except PyError ℕ := do
  let msgs ← stepsToMessages py t.steps t.task systemPrompt
  let head := msgs.take keepFirst
  let tail := lastNTurns (msgs.drop keepFirst) keepLastTurns
  let text := messagesText py (head ++ tail)
  return if text ≠ "" then (tokenizer.encode text).length else 0

def buildZScoringMessages (summary : String) (partialMessages : List Message) (maxSize keepFirst : ℕ) :
    List Message :=
  let keepTurns := (((maxSize / 2 : ℕ) : ℤ) - keepFirst) / 2
  let s := splitHeadTail partialMessages keepFirst keepTurns
  s.head ++ summaryAsToolTurn summary ++ s.tail

def buildMaskenvScoringMessages (py : Python) (partialMessages : List Message) (keepFirst keepLastTurns : ℕ) :
    List Message :=
  let s := splitHeadTail partialMessages keepFirst keepLastTurns
  s.head ++ maskEnvMessages py {} s.middle ++ s.tail

def Generation.verified (g : Generation) : Option Bool :=
  g.recordedNTokens.map (fun n => decide (g.tokenIds.length = n))

namespace SweepSetup

variable (s : SweepSetup)

def rewardOptions : RewardOptions ℚ where
  weights := s.weights
  beta := s.beta
  tools := some [s.bashTool]

def zMessages (summary : String) (partialMessages : List Message) (spec : SweepSpec) : List Message × String :=
  if spec.maxSize = 0 then
    (buildMaskenvScoringMessages s.py partialMessages spec.keepFirst spec.keepLastTurns, "")
  else (buildZScoringMessages summary partialMessages spec.maxSize spec.keepFirst, summary)

def specRow (baseRow : SweepRow) (split : AgentTrajectory) (partialMessages : List Message) (summary : String)
    (xCtx : XContext ℚ) (spec : SweepSpec) : Except PyError SweepRow := do
  let z := s.zMessages summary partialMessages spec
  let result ← distortionRewardMessages s.py s.server s.tokenizer s.model s.apiBase s.tanh s.rewardOptions xCtx z.1 z.2
  let compactionTokens ←
    split.compactionTokens s.py s.tokenizer s.systemPrompt spec.keepFirst spec.keepLastTurns
  let row := { baseRow with spec := some ⟨spec, compactionTokens⟩ }
  match result with
  | .error text => return { row with status := .scoreFailed, error := some text }
  | .scored columns => return { row with status := .ok, reward := some columns }

def thirdMessage : List Message → Except PyError Message
  | _ :: _ :: m :: _ => .ok m
  | _ => .error (.indexError "list index out of range")

def baseRow (u : SweepUnit) (status : RowStatus) : SweepRow where
  trajectoryId := u.traj.trajectoryId
  nPrefixTurns := u.kTurns
  contextTokens := u.contextTokens
  status := status

def unitColumns (summary : String) (xCtx : XContext ℚ) : UnitColumns where
  summary := summary
  nYTokens := xCtx.xLogprobs.nCompletion
  nXCtxTokens := xCtx.xLogprobs.nXCtx
  yVerified := xCtx.generation.bind Generation.verified

def sweepOne (u : SweepUnit) : Except PyError (List SweepRow) := do
  let sysPrompt :=
    if u.traj.agentSystemPrompt.truthy then u.traj.agentSystemPrompt else .text agentSystemPrompt
  let split := u.traj.withPrefix (u.kTurns * 2)
  match split.continuation.find? (·.role = .assistant) with
  | none => return [baseRow u .noNextAction]
  | some nextAction =>
    let partialMessages ← stepsToMessages s.py split.steps split.task sysPrompt
    let nextMessages ← stepsToMessages s.py [nextAction] split.task sysPrompt
    let nextActionMessage ← thirdMessage nextMessages
    let needsSummary := s.specs.any (fun spec => spec.maxSize ≠ 0)
    match if needsSummary then s.summarize split.steps else .ok "" with
    | .error exc =>
      return [{ baseRow u .summarizeFailed with nContinuationTurns := some 1, error := some (s.excText exc) }]
    | .ok summary =>
      match ← precomputeXContext s.py s.server s.tokenizer s.model s.apiBase partialMessages nextActionMessage 0
        (some [s.bashTool]) with
      | none => return [{ baseRow u .xPrecomputeFailed with nContinuationTurns := some 1 }]
      | some xCtx =>
        let row := {
          baseRow u .ok with
          nContinuationTurns := some 1
          unit := some (unitColumns summary xCtx) }
        s.specs.mapM (s.specRow row split partialMessages summary xCtx)

def unitRows (u : SweepUnit) : List SweepRow :=
  match s.sweepOne u with
  | .ok rows => rows
  | .error exc => [{ baseRow u .unitFailed with error := some (s.excText exc) }]

end SweepSetup

end TokensThatSuffice
