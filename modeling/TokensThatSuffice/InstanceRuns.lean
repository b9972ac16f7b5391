import TokensThatSuffice.AgentLoop
import TokensThatSuffice.TryBlocks

namespace TokensThatSuffice

open TryBlocks

structure Raised where
  typeName : String
  text : String
  traceback : String
  isException : Bool := true
  deriving Repr

structure RunInfo where
  exitStatus : Option String
  submission : Option String
  deriving Repr

/-- The report of `evaluate_trajectory`; `fields` is the whole dictionary. -/
structure Report where
  resolved : Bool
  fields : Json
  deriving Repr

structure Prediction where
  modelNameOrPath : String
  instanceId : String
  modelPatch : String
  deriving DecidableEq, Repr

abbrev Predictions := List (String × Prediction)

def updatePredsFile (preds : Predictions) (instanceId modelName result : String) : Predictions :=
  let entry : Prediction := ⟨modelName, instanceId, result⟩
  if preds.any (·.1 = instanceId) then preds.map (fun e => if e.1 = instanceId then (instanceId, entry) else e)
  else preds ++ [(instanceId, entry)]

def removeFromPredsFile (preds : Predictions) (instanceId : String) : Predictions :=
  preds.filter (·.1 ≠ instanceId)

theorem lookup_eq_none_of_ne {preds : Predictions} {instanceId : String} (h : ∀ e ∈ preds, e.1 ≠ instanceId) :
    preds.lookup instanceId = none := by
  rw [List.lookup_eq_none_iff]
  intro e he
  rw [bne_iff_ne]
  exact (h e he).symm

theorem lookup_updatePredsFile (preds : Predictions) (instanceId modelName result : String) :
    (updatePredsFile preds instanceId modelName result).lookup instanceId = some ⟨modelName, instanceId, result⟩ := by
  unfold updatePredsFile
  by_cases hany : preds.any (·.1 = instanceId) = true
  · rw [if_pos hany]
    induction preds with
    | nil => cases hany
    | cons e rest ih =>
      obtain ⟨key, entry⟩ := e
      by_cases hkey : key = instanceId
      · simp [hkey]
      · have hrest : rest.any (·.1 = instanceId) = true := by simpa [hkey] using hany
        have hbeq : (instanceId == key) = false := beq_eq_false_iff_ne.mpr (Ne.symm hkey)
        rw [List.map_cons, if_neg hkey, List.lookup_cons, hbeq]
        exact ih hrest
  · rw [if_neg hany]
    have hnone : preds.lookup instanceId = none := by
      apply lookup_eq_none_of_ne
      intro e he heq
      exact hany (List.any_eq_true.mpr ⟨e, he, by simpa using heq⟩)
    rw [List.lookup_append, hnone]
    simp

/-- What each stage of `process_instance` meets, in the order of the code. `agentAtEnd` is the agent's state as
the `finally` clause finds it, `meanwhile` what other workers did to the predictions file. -/
structure Stages where
  setup : Except Raised Unit := .ok ()
  environment : Except Raised Unit := .ok ()
  construct : Except Raised Unit := .ok ()
  run : Except Raised RunInfo
  status : Except Raised Unit := .ok ()
  evaluate : String → Except Raised Report
  stepGitDiffs : Except Raised Json := .ok (.array [])
  save : Except Raised Unit := .ok ()
  writePreds : Except Raised Unit := .ok ()
  agentAtEnd : AgentState
  meanwhile : Predictions → Predictions := id

namespace EvalSwebench

structure Config where
  runName : String
  mode : String
  grade : Bool := true

structure LightRecord where
  index : ℕ
  kind : CompactionKind
  nCallsAt : ℕ
  nMsgsBefore : ℕ
  nMsgsAfter : ℕ
  tokensBefore : ℕ
  tokensAfter : ℕ
  summary : Option String
  metadata : List (String × Json)
  deriving Repr

def light (c : CompactionRecord) : LightRecord :=
  ⟨c.index, c.kind, c.nCallsAt, c.nMsgsBefore, c.nMsgsAfter, c.tokensBefore, c.tokensAfter, c.summary, c.metadata⟩

structure SavedRun where
  exitStatus : Option String
  submission : Option String
  errorInfo : Option (String × String)
  instanceId : String
  mode : String
  nCompressions : ℕ
  nSummaries : ℕ
  compressions : List LightRecord
  contextTokensPerTurn : List ℕ
  resolved : Option Bool
  evaluation : Option Report
  deriving Repr

structure Locals where
  agent : Option AgentState := none
  exitStatus : Option String := none
  result : Option String := none
  resolved : Option Bool := none
  evaluation : Option Report := none
  errorInfo : Option (String × String) := none
  preds : Predictions
  trajectory : Option SavedRun := none

variable (cfg : Config) (o : Stages) (instanceId : String)

def grading (info : RunInfo) : Attempt Locals Raised Unit :=
  if cfg.grade then do
    outcome o.status
    let evaluation ← outcome (o.evaluate (info.submission.getD ""))
    assign fun s => { s with evaluation := some evaluation, resolved := some evaluation.resolved }
  else pure ()

def body : Attempt Locals Raised Unit := do
  outcome o.environment
  outcome o.construct
  assign fun s => { s with agent := some o.agentAtEnd }
  let info ← outcome o.run
  assign fun s => { s with exitStatus := info.exitStatus, result := info.submission }
  grading cfg o info

def onException (e : Raised) (s : Locals) : Locals :=
  { s with exitStatus := some e.typeName, result := some "", errorInfo := some (e.traceback, e.text) }

def savedRun (agent : AgentState) (s : Locals) : SavedRun where
  exitStatus := s.exitStatus
  submission := s.result
  errorInfo := s.errorInfo
  instanceId := instanceId
  mode := cfg.mode
  nCompressions := agent.nCompressions
  nSummaries := agent.compressions.countP (·.kind = .summary)
  compressions := agent.compressions.map light
  contextTokensPerTurn := agent.contextTokens
  resolved := s.resolved
  evaluation := s.evaluation

def save : Attempt Locals Raised Unit := fun s =>
  match s.agent, o.save with
  | none, _ => (.ok (), s)
  | some _, .error e => (.error e, s)
  | some agent, .ok _ => (.ok (), { s with trajectory := some (savedRun cfg instanceId agent s) })

def finallyClause : Attempt Locals Raised Unit := do
  save cfg o instanceId
  outcome o.writePreds
  assign fun s => { s with
    preds := updatePredsFile (o.meanwhile s.preds) instanceId cfg.runName (s.result.getD "") }

def start (preds : Predictions) : Locals := { preds := removeFromPredsFile preds instanceId }

def processInstance (preds : Predictions) : Except Raised (Option String) × Locals :=
  let run : Attempt Locals Raised Unit := do
    outcome o.setup
    tryFinally (tryExcept (body cfg o) (·.isException) onException) (finallyClause cfg o instanceId)
  match run (start instanceId preds) with
  | (.ok _, s) => (.ok (if s.agent.isSome then some instanceId else none), s)
  | (.error e, s) => (.error e, s)

end EvalSwebench

namespace CollectTrajectories

structure SavedRun where
  uid : String
  instanceId : String
  exitStatus : Option String
  isCorrect : PyFloat
  evaluation : Option Report
  numCalls : ℕ
  submission : Option String
  messages : List Message
  stepGitDiffs : Json
  errorInfo : Option (String × String)
  deriving Repr

structure Locals where
  agent : Option AgentState := none
  exitStatus : Option String := none
  result : Option String := none
  isCorrect : PyFloat := .finite 0
  evaluation : Option Report := none
  errorInfo : Option (String × String) := none
  trajectory : Option SavedRun := none

variable (o : Stages) (instanceId uid : String)

def grading (info : RunInfo) : Attempt Locals Raised Unit := do
  let evaluation ← outcome (o.evaluate (info.submission.getD ""))
  assign fun s => { s with evaluation := some evaluation, isCorrect := .finite (if evaluation.resolved then 1 else 0) }

def body : Attempt Locals Raised Unit := do
  outcome o.environment
  outcome o.construct
  assign fun s => { s with agent := some o.agentAtEnd }
  let info ← outcome o.run
  assign fun s => { s with exitStatus := info.exitStatus, result := info.submission }
  grading o info

def onException (e : Raised) (s : Locals) : Locals :=
  { s with exitStatus := some e.typeName, result := some "", errorInfo := some (e.traceback, e.text) }

def savedRun (agent : AgentState) (stepGitDiffs : Json) (s : Locals) : SavedRun where
  uid := uid
  instanceId := instanceId
  exitStatus := s.exitStatus
  isCorrect := s.isCorrect
  evaluation := s.evaluation
  numCalls := agent.nCalls
  submission := s.result
  messages := agent.messages
  stepGitDiffs := stepGitDiffs
  errorInfo := s.errorInfo

def save : Attempt Locals Raised Unit := fun s =>
  match s.agent, o.stepGitDiffs, o.save with
  | none, _, _ => (.ok (), s)
  | some _, .error e, _ => (.error e, s)
  | some _, .ok _, .error e => (.error e, s)
  | some agent, .ok diffs, .ok _ => (.ok (), { s with trajectory := some (savedRun instanceId uid agent diffs s) })

def processInstance : Except Raised (Option String) × Locals :=
  let run : Attempt Locals Raised Unit := do
    outcome o.setup
    tryFinally (tryExcept (body o) (·.isException) onException) (save o instanceId uid)
  match run {} with
  | (.ok _, s) => (.ok (if s.agent.isSome then some uid else none), s)
  | (.error e, s) => (.error e, s)

end CollectTrajectories

structure Stages.Finished (o : Stages) (info : RunInfo) : Prop where
  setup : o.setup = .ok ()
  environment : o.environment = .ok ()
  construct : o.construct = .ok ()
  run : o.run = .ok info

def Stages.evaluateError (o : Stages) (info : RunInfo) : Option Raised :=
  match o.evaluate (info.submission.getD "") with
  | .error e => some e
  | .ok _ => none

section Grading

variable {σ : Type} (agent : σ → Option AgentState) (status result : σ → Option String) (handler : Raised → σ → σ)
  {grade : Attempt σ Raised Unit} {failure : Option Raised} {info : RunInfo} {s : σ}

theorem graded_keeps (saved : Prop)
    (hgrade : (∃ e, failure = some e ∧ grade s = (.error e, s)) ∨ (failure = none ∧ ∃ t, grade s = (.ok (), t) ∧
      agent t = agent s ∧ status t = status s ∧ result t = result s))
    (hhandler : ∀ e, agent (handler e s) = agent s ∧ status (handler e s) = some e.typeName ∧
      result (handler e s) = some "")
    (hstatus : status s = info.exitStatus) (hresult : result s = info.submission) :
    agent (tryExcept grade (·.isException) handler s).2 = agent s ∧
      ((saved → status (tryExcept grade (·.isException) handler s).2 = info.exitStatus ∧
          result (tryExcept grade (·.isException) handler s).2 = info.submission) ↔
        ∀ e, failure = some e → e.isException = true → saved →
          info.exitStatus = some e.typeName ∧ info.submission = some "") := by
  rcases hgrade with ⟨e, hfailure, hrun⟩ | ⟨hfailure, t, hrun, hagent, htstatus, htresult⟩
  · rw [tryExcept_error hrun, hfailure]
    by_cases hcaught : e.isException = true
    · obtain ⟨hagent, hname, hempty⟩ := hhandler e
      rw [if_pos hcaught, hname, hempty]
      refine ⟨hagent, ?_, ?_⟩
      · rintro hlaw _ ⟨⟩ - hsaved
        exact ⟨(hlaw hsaved).1.symm, (hlaw hsaved).2.symm⟩
      · intro hlaw hsaved
        obtain ⟨hs, hr⟩ := hlaw e rfl hcaught hsaved
        exact ⟨hs.symm, hr.symm⟩
    · rw [if_neg hcaught]
      refine ⟨rfl, ?_, fun _ _ => ⟨hstatus, hresult⟩⟩
      rintro - _ ⟨⟩ hc
      exact absurd hc hcaught
  · rw [tryExcept_ok hrun, hfailure]
    refine ⟨hagent, ?_, fun _ _ => ⟨htstatus.trans hstatus, htresult.trans hresult⟩⟩
    rintro - _ ⟨⟩

end Grading

namespace EvalSwebench

variable {cfg : Config} {o : Stages} {instanceId : String} {info : RunInfo}

def gradingError (cfg : Config) (o : Stages) (info : RunInfo) : Option Raised :=
  if cfg.grade then
    match o.status with
    | .error e => some e
    | .ok _ => o.evaluateError info
  else none

structure KeepsRun (o : Stages) (instanceId : String) (info : RunInfo) (s : Locals) : Prop where
  trajectory : o.save = .ok () →
    ∃ t, s.trajectory = some t ∧ t.exitStatus = info.exitStatus ∧ t.submission = info.submission
  prediction : o.save = .ok () → o.writePreds = .ok () →
    ∃ p, s.preds.lookup instanceId = some p ∧ p.modelPatch = info.submission.getD ""

def finished (o : Stages) (info : RunInfo) (s : Locals) : Locals :=
  { s with agent := some o.agentAtEnd, exitStatus := info.exitStatus, result := info.submission }

theorem body_finished (h : o.Finished info) (s : Locals) :
    body cfg o s = grading cfg o info (finished o info s) := by
  unfold body
  rw [bind_ok (by rw [outcome_apply, h.environment]), bind_ok (by rw [outcome_apply, h.construct]),
    bind_ok (by rw [assign_apply]), bind_ok (by rw [outcome_apply, h.run]), bind_ok (by rw [assign_apply])]
  rfl

theorem grading_cases (cfg : Config) (o : Stages) (info : RunInfo) (s : Locals) :
    (∃ e, gradingError cfg o info = some e ∧ grading cfg o info s = (.error e, s)) ∨
      (gradingError cfg o info = none ∧ ∃ t, grading cfg o info s = (.ok (), t) ∧
        t.agent = s.agent ∧ t.exitStatus = s.exitStatus ∧ t.result = s.result) := by
  unfold gradingError grading
  by_cases hgrade : cfg.grade = true
  · rw [if_pos hgrade, if_pos hgrade]
    cases hstatus : o.status with
    | error e =>
      left
      exact ⟨e, rfl, bind_error (outcome_apply _ s)⟩
    | ok u =>
      rw [bind_ok (outcome_apply _ s)]
      cases hreport : o.evaluate (info.submission.getD "") with
      | error e =>
        left
        exact ⟨e, by rw [Stages.evaluateError, hreport], bind_error (outcome_apply _ s)⟩
      | ok report =>
        right
        rw [bind_ok (outcome_apply _ s)]
        exact ⟨by rw [Stages.evaluateError, hreport], _, rfl, rfl, rfl, rfl⟩
  · rw [if_neg hgrade, if_neg hgrade]
    exact .inr ⟨rfl, s, rfl, rfl, rfl, rfl⟩

theorem finallyClause_saved {s : Locals} (hagent : s.agent = some o.agentAtEnd) (hsave : o.save = .ok ()) :
    (finallyClause cfg o instanceId s).2.trajectory = some (savedRun cfg instanceId o.agentAtEnd s) ∧
      (o.writePreds = .ok () → (finallyClause cfg o instanceId s).2.preds.lookup instanceId =
        some ⟨cfg.runName, instanceId, s.result.getD ""⟩) := by
  have hsaved : save cfg o instanceId s =
      (.ok (), { s with trajectory := some (savedRun cfg instanceId o.agentAtEnd s) }) := by
    unfold save
    rw [hagent, hsave]
  unfold finallyClause
  rw [bind_ok hsaved]
  cases hwrite : o.writePreds with
  | error e =>
    rw [bind_error (outcome_apply _ _)]
    exact ⟨rfl, fun hc => by cases hc⟩
  | ok u =>
    rw [bind_ok (outcome_apply _ _)]
    exact ⟨rfl, fun _ => lookup_updatePredsFile _ _ _ _⟩

theorem finallyClause_keeps {s : Locals} (hagent : s.agent = some o.agentAtEnd) :
    KeepsRun o instanceId info (finallyClause cfg o instanceId s).2 ↔
      (o.save = .ok () → s.exitStatus = info.exitStatus ∧ s.result = info.submission) := by
  constructor
  · intro hkeeps hsave
    obtain ⟨t, ht, hstatus, hsubmission⟩ := hkeeps.trajectory hsave
    rw [(finallyClause_saved hagent hsave).1] at ht
    cases ht
    exact ⟨hstatus, hsubmission⟩
  · intro hlaw
    constructor
    · intro hsave
      exact ⟨_, (finallyClause_saved hagent hsave).1, hlaw hsave⟩
    · intro hsave hwrite
      refine ⟨_, (finallyClause_saved hagent hsave).2 hwrite, ?_⟩
      rw [(hlaw hsave).2]

theorem processInstance_state (h : o.Finished info) (preds : Predictions) :
    (processInstance cfg o instanceId preds).2 = (finallyClause cfg o instanceId
      (tryExcept (grading cfg o info) (·.isException) onException
        (finished o info (start instanceId preds))).2).2 := by
  rw [← tryExcept_congr (body_finished h (start instanceId preds)), ← tryFinally_state]
  unfold processInstance
  dsimp only
  rw [bind_ok (by rw [outcome_apply, h.setup])]
  generalize tryFinally _ _ _ = r
  obtain ⟨r, s⟩ := r
  cases r with
  | ok _ => rfl
  | error e => rfl

def GradingHarmless (cfg : Config) (o : Stages) (info : RunInfo) : Prop :=
  ∀ e, gradingError cfg o info = some e → e.isException = true → o.save = .ok () →
    info.exitStatus = some e.typeName ∧ info.submission = some ""

theorem keepsRun_iff (h : o.Finished info) (preds : Predictions) :
    KeepsRun o instanceId info (processInstance cfg o instanceId preds).2 ↔ GradingHarmless cfg o info := by
  obtain ⟨hagent, hlaw⟩ := graded_keeps Locals.agent Locals.exitStatus Locals.result onException (o.save = .ok ())
    (grading_cases cfg o info (finished o info (start instanceId preds))) (fun e => ⟨rfl, rfl, rfl⟩) rfl rfl
  rw [processInstance_state h, finallyClause_keeps hagent]
  exact hlaw

end EvalSwebench

namespace CollectTrajectories

variable {o : Stages} {instanceId uid : String} {info : RunInfo}

def KeepsRun (o : Stages) (info : RunInfo) (s : Locals) : Prop :=
  (∃ diffs, o.stepGitDiffs = .ok diffs) → o.save = .ok () →
    ∃ t, s.trajectory = some t ∧ t.exitStatus = info.exitStatus ∧ t.submission = info.submission

def finished (o : Stages) (info : RunInfo) (s : Locals) : Locals :=
  { s with agent := some o.agentAtEnd, exitStatus := info.exitStatus, result := info.submission }

theorem body_finished (h : o.Finished info) (s : Locals) : body o s = grading o info (finished o info s) := by
  unfold body
  rw [bind_ok (by rw [outcome_apply, h.environment]), bind_ok (by rw [outcome_apply, h.construct]),
    bind_ok (by rw [assign_apply]), bind_ok (by rw [outcome_apply, h.run]), bind_ok (by rw [assign_apply])]
  rfl

theorem grading_cases (o : Stages) (info : RunInfo) (s : Locals) :
    (∃ e, o.evaluateError info = some e ∧ grading o info s = (.error e, s)) ∨
      (o.evaluateError info = none ∧ ∃ t, grading o info s = (.ok (), t) ∧
        t.agent = s.agent ∧ t.exitStatus = s.exitStatus ∧ t.result = s.result) := by
  unfold Stages.evaluateError grading
  cases hreport : o.evaluate (info.submission.getD "") with
  | error e =>
    left
    exact ⟨e, rfl, bind_error (outcome_apply _ s)⟩
  | ok report =>
    right
    rw [bind_ok (outcome_apply _ s)]
    exact ⟨rfl, _, rfl, rfl, rfl, rfl⟩

theorem save_keeps {s : Locals} (hagent : s.agent = some o.agentAtEnd) :
    KeepsRun o info (save o instanceId uid s).2 ↔
      ((∃ diffs, o.stepGitDiffs = .ok diffs) → o.save = .ok () →
        s.exitStatus = info.exitStatus ∧ s.result = info.submission) := by
  apply forall_congr'
  rintro ⟨diffs, hdiffs⟩
  apply forall_congr'
  intro hsave
  have hsaved : save o instanceId uid s =
      (.ok (), { s with trajectory := some (savedRun instanceId uid o.agentAtEnd diffs s) }) := by
    unfold save
    rw [hagent, hdiffs, hsave]
  rw [hsaved]
  constructor
  · rintro ⟨t, ht, hlaw⟩
    cases ht
    exact hlaw
  · intro hlaw
    exact ⟨_, rfl, hlaw⟩

theorem processInstance_state (h : o.Finished info) :
    (processInstance o instanceId uid).2 = (save o instanceId uid
      (tryExcept (grading o info) (·.isException) onException (finished o info {})).2).2 := by
  rw [← tryExcept_congr (body_finished h {}), ← tryFinally_state]
  unfold processInstance
  dsimp only
  rw [bind_ok (by rw [outcome_apply, h.setup])]
  generalize tryFinally _ _ _ = r
  obtain ⟨r, s⟩ := r
  cases r with
  | ok _ => rfl
  | error e => rfl

def GradingHarmless (o : Stages) (info : RunInfo) : Prop :=
  ∀ e, o.evaluateError info = some e → e.isException = true → (∃ diffs, o.stepGitDiffs = .ok diffs) →
    o.save = .ok () → info.exitStatus = some e.typeName ∧ info.submission = some ""

theorem keepsRun_iff (h : o.Finished info) :
    KeepsRun o info (processInstance o instanceId uid).2 ↔ GradingHarmless o info := by
  obtain ⟨hagent, hlaw⟩ := graded_keeps Locals.agent Locals.exitStatus Locals.result onException
    ((∃ diffs, o.stepGitDiffs = .ok diffs) ∧ o.save = .ok ()) (grading_cases o info (finished o info {}))
    (fun e => ⟨rfl, rfl, rfl⟩) rfl rfl
  rw [processInstance_state h, save_keeps hagent]
  simp only [and_imp] at hlaw
  exact hlaw

end CollectTrajectories

theorem processInstance_keeps_run (cfg : EvalSwebench.Config) {o o' : Stages} {info info' : RunInfo}
    (h : o.Finished info) (h' : o'.Finished info') (preds : Predictions) (instanceId instanceId' uid : String) :
    (EvalSwebench.KeepsRun o instanceId info (EvalSwebench.processInstance cfg o instanceId preds).2 ↔
        EvalSwebench.GradingHarmless cfg o info) ∧
      (CollectTrajectories.KeepsRun o' info' (CollectTrajectories.processInstance o' instanceId' uid).2 ↔
        CollectTrajectories.GradingHarmless o' info') :=
  ⟨EvalSwebench.keepsRun_iff h preds, CollectTrajectories.keepsRun_iff h'⟩

def submittedInfo : RunInfo := ⟨some "Submitted", some "diff --git"⟩

def submittedStages (evaluate : Except Raised Report) : Stages where
  run := .ok submittedInfo
  evaluate _ := evaluate
  agentAtEnd := { messages := [] }

def resolvedReport : Report := ⟨true, .null⟩

def gradedConfig : EvalSwebench.Config := { runName := "m", mode := "mask" }

theorem submittedStages_finished (evaluate : Except Raised Report) :
    (submittedStages evaluate).Finished submittedInfo := ⟨rfl, rfl, rfl, rfl⟩

theorem processInstance_keeps_graded :
    EvalSwebench.KeepsRun (submittedStages (.ok resolvedReport)) "i" submittedInfo
        (EvalSwebench.processInstance gradedConfig (submittedStages (.ok resolvedReport)) "i" []).2 ∧
      CollectTrajectories.KeepsRun (submittedStages (.ok resolvedReport)) submittedInfo
        (CollectTrajectories.processInstance (submittedStages (.ok resolvedReport)) "i" "u").2 := by
  have hfinished := submittedStages_finished (.ok resolvedReport)
  obtain ⟨heval, hcollect⟩ := processInstance_keeps_run gradedConfig hfinished hfinished [] "i" "i" "u"
  constructor
  · apply heval.mpr
    intro e he
    cases he
  · apply hcollect.mpr
    intro e he
    cases he

def gradingTimeout : Raised where
  typeName := "TimeoutExpired"
  text := "timed out"
  traceback := "Traceback"

theorem processInstance_loses_run :
    (submittedStages (.error gradingTimeout)).Finished submittedInfo ∧
      ¬ EvalSwebench.KeepsRun (submittedStages (.error gradingTimeout)) "i" submittedInfo
        (EvalSwebench.processInstance gradedConfig (submittedStages (.error gradingTimeout)) "i" []).2 ∧
      ¬ CollectTrajectories.KeepsRun (submittedStages (.error gradingTimeout)) submittedInfo
        (CollectTrajectories.processInstance (submittedStages (.error gradingTimeout)) "i" "u").2 := by
  have hfinished := submittedStages_finished (.error gradingTimeout)
  refine ⟨hfinished, ?_, ?_⟩
  · intro h
    obtain ⟨hstatus, -⟩ := (EvalSwebench.keepsRun_iff hfinished []).mp h gradingTimeout rfl rfl rfl
    revert hstatus
    decide
  · intro h
    obtain ⟨hstatus, -⟩ := (CollectTrajectories.keepsRun_iff hfinished).mp h gradingTimeout rfl rfl ⟨_, rfl⟩ rfl
    revert hstatus
    decide

end TokensThatSuffice
