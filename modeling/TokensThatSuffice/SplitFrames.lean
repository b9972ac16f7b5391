import TokensThatSuffice.RewardSweep
import TokensThatSuffice.SampledSplits

namespace TokensThatSuffice

/-- The prompt of `_precompute_x_for_traj`. -/
def trainSystemPrompt (traj : AgentTrajectory) : Content :=
  if traj.agentSystemPrompt.truthy then traj.agentSystemPrompt else .text agentSystemPrompt

def precomputeXForTraj (py : Python) (traj : AgentTrajectory) : Except PyError (List Message × List Message) := do
  let sysPrompt := trainSystemPrompt traj
  let partialMessages ← stepsToMessages py traj.steps traj.task sysPrompt
  let continuationMessages ← stepsToMessages py traj.continuation traj.task sysPrompt
  return (partialMessages, continuationMessages.drop 2)

inductive SplitOf (t : AgentTrajectory) : AgentTrajectory → Prop
  | withPrefix (nSteps : ℤ) : SplitOf t (t.withPrefix nSteps)
  | sampleSplit (rng : RandomModule) (minPrefix minSuffix : ℤ) (g : rng.Gen) :
      SplitOf t (t.sampleSplit rng minPrefix minSuffix g).1
  | thresholdSplit {py : Python} {inputIds : String → List ℕ} {o : SplitOptions} {s : AgentTrajectory}
      (h : t.thresholdSplit py inputIds o = .ok (some s)) : SplitOf t s

structure SameRecord (t r : AgentTrajectory) : Prop where
  task : r.task = t.task
  summary : r.summary = t.summary
  trajectoryId : r.trajectoryId = t.trajectoryId
  metadata : r.metadata = t.metadata

structure ChangesOnlySplit (py : Python) (t r : AgentTrajectory) : Prop extends SameRecord t r where
  agentSystemPrompt : r.agentSystemPrompt = t.agentSystemPrompt
  scoredPrompt : t.agentSystemPrompt.truthy = true → ∀ scored, precomputeXForTraj py r = .ok scored →
    scored.1.head? = some { role := .system, content := some t.agentSystemPrompt }

theorem precomputeXForTraj_head? {py : Python} {traj : AgentTrajectory} {scored : List Message × List Message}
    (h : precomputeXForTraj py traj = .ok scored) :
    scored.1.head? = some { role := .system, content := some (trainSystemPrompt traj) } := by
  obtain ⟨partialMessages, hpartial, h⟩ := bind_eq_ok.mp h
  obtain ⟨continuationMessages, -, h⟩ := bind_eq_ok.mp h
  obtain ⟨rest, -, hmessages⟩ := bind_eq_ok.mp hpartial
  cases h
  cases hmessages
  rfl

section Copies

variable {py : Python} {inputIds : String → List ℕ} {t s r : AgentTrajectory}

theorem SameRecord.trans (hs : SameRecord t s) (hr : SameRecord s r) : SameRecord t r where
  task := hr.task.trans hs.task
  summary := hr.summary.trans hs.summary
  trajectoryId := hr.trajectoryId.trans hs.trajectoryId
  metadata := hr.metadata.trans hs.metadata

theorem withPrefix_sameRecord (nSteps : ℤ) : SameRecord t (t.withPrefix nSteps) := ⟨rfl, rfl, rfl, rfl⟩

theorem truncateContinuation_sameRecord {maxTokens : ℤ}
    (h : t.truncateContinuation py inputIds maxTokens = .ok (some s)) :
    SameRecord t s ∧ (s = t ∨ s.agentSystemPrompt = .text "") := by
  obtain ⟨lens, -, h⟩ := bind_eq_ok.mp h
  dsimp only at h
  split_ifs at h with hzero hall
  · cases h
  · cases h
    exact ⟨⟨rfl, rfl, rfl, rfl⟩, .inl rfl⟩
  · cases h
    exact ⟨⟨rfl, rfl, rfl, rfl⟩, .inr rfl⟩

theorem splitAtTurn_sameRecord {o : SplitOptions} {n k : ℕ}
    (h : t.splitAtTurn py inputIds o n k = .ok (some s)) : SameRecord t s ∧ s.agentSystemPrompt = .text "" := by
  unfold AgentTrajectory.splitAtTurn at h
  dsimp only at h
  split_ifs at h with hfew hcap
  · cases h
  · obtain ⟨hsame, rfl | hprompt⟩ := truncateContinuation_sameRecord h
    · exact ⟨withPrefix_sameRecord _, rfl⟩
    · exact ⟨(withPrefix_sameRecord _).trans hsame, hprompt⟩
  · cases h
    exact ⟨withPrefix_sameRecord _, rfl⟩

theorem splitOf_sameRecord (h : SplitOf t r) : SameRecord t r ∧ r.agentSystemPrompt = .text "" := by
  cases h with
  | withPrefix nSteps => exact ⟨withPrefix_sameRecord nSteps, rfl⟩
  | sampleSplit rng minPrefix minSuffix g => exact ⟨withPrefix_sameRecord _, rfl⟩
  | thresholdSplit h =>
    obtain ⟨lens, -, ⟨-, hnone⟩ | ⟨k, -, hsplit⟩⟩ := AgentTrajectory.thresholdSplit_cases h
    · cases hnone
    · exact splitAtTurn_sameRecord hsplit

theorem splitOf_scoredPrompt (h : SplitOf t r) {scored : List Message × List Message}
    (hscored : precomputeXForTraj py r = .ok scored) :
    scored.1.head? = some { role := .system, content := some (.text agentSystemPrompt) } := by
  have hdefault : trainSystemPrompt r = .text agentSystemPrompt := by
    rw [trainSystemPrompt, (splitOf_sameRecord h).2]
    rfl
  rw [precomputeXForTraj_head? hscored, hdefault]

theorem splitOf_changesOnlySplit_iff (py : Python) (h : SplitOf t r) :
    ChangesOnlySplit py t r ↔ t.agentSystemPrompt = .text "" := by
  obtain ⟨hsame, hprompt⟩ := splitOf_sameRecord h
  constructor
  · intro hkept
    rw [← hkept.agentSystemPrompt, hprompt]
  · intro hempty
    refine { toSameRecord := hsame, agentSystemPrompt := hprompt.trans hempty.symm, scoredPrompt := ?_ }
    intro htruthy
    rw [hempty] at htruthy
    cases htruthy

end Copies

def promptedRun : AgentTrajectory := { shellRun 6 with agentSystemPrompt := .text "You fix bugs." }

theorem splitOf_changesOnlySplit_iff_capped :
    ChangesOnlySplit asciiPython (shellRun 6) cappedSplit ↔ (shellRun 6).agentSystemPrompt = .text "" :=
  splitOf_changesOnlySplit_iff asciiPython (.thresholdSplit cappedSplit_eq)

theorem withPrefix_drops_prompt :
    ¬ ∀ (py : Python) (t r : AgentTrajectory), SplitOf t r → ChangesOnlySplit py t r := by
  intro h
  have hprompt := (h asciiPython promptedRun _ (.withPrefix 6)).agentSystemPrompt
  rw [AgentTrajectory.withPrefix, promptedRun, Content.text.injEq] at hprompt
  exact absurd hprompt (by decide)

end TokensThatSuffice
