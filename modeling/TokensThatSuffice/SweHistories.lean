import TokensThatSuffice.TrajectoryRecords

namespace TokensThatSuffice

structure SweMessage where
  role : Option Role := none
  content : Option Content := none
  deriving Repr

structure SweRecord where
  history : Option (List SweMessage) := none
  problemStatement : Option String := none
  task : Option String := none
  instanceId : Option String := none
  trajectoryId : Option String := none
  deriving Repr

def SweMessage.roleOr (msg : SweMessage) : Role := msg.role.getD .user

def SweMessage.isEvent (msg : SweMessage) : Bool := msg.roleOr ≠ .system

def followsAssistant (result : List TrajectoryStep) : Bool := result.getLast?.any (·.role = .assistant)

def parseMessageInto (result : List TrajectoryStep) (msg : SweMessage) : List TrajectoryStep :=
  let content := msg.content.getD (.text "")
  if msg.roleOr = .system then result
  else if msg.roleOr = .user ∧ followsAssistant result then
    result ++ [{ role := .tool, name := "bash", content := content }]
  else result ++ [{ role := msg.roleOr, content := content }]

def parseMessages (msgs : List SweMessage) : List TrajectoryStep := msgs.foldl parseMessageInto []

def AgentTrajectory.fromSweAgentDict (d : SweRecord) (summary : String) (cutpoint : Option ℤ) : AgentTrajectory :=
  let rawHistory := d.history.getD []
  let halves := match cutpoint with
    | some c => (parseMessages (slice rawHistory 0 c), parseMessages (sliceFrom rawHistory c))
    | none => (parseMessages rawHistory, [])
  {
    task := .text (d.problemStatement.getD (d.task.getD ""))
    steps := halves.1
    continuation := halves.2
    summary := summary
    trajectoryId := d.instanceId.getD (d.trajectoryId.getD "")
    metadata := .object [("source", .str "swe_agent"), ("cutpoint", cutpoint.elim .null .int)] }

def CutsResult (history : List SweMessage) (c : ℕ) : Prop :=
  (∃ m ∈ ((history.take c).filter SweMessage.isEvent).getLast?, m.roleOr = .assistant) ∧
    ∃ m ∈ ((history.drop c).filter SweMessage.isEvent).head?, m.roleOr = .user

def stepsAfter (afterAssistant : Bool) : List SweMessage → List TrajectoryStep
  | [] => []
  | msg :: rest =>
    if msg.isEvent then
      (if msg.roleOr = .user ∧ afterAssistant then
        { role := .tool, name := "bash", content := msg.content.getD (.text "") }
      else { role := msg.roleOr, content := msg.content.getD (.text "") }) ::
        stepsAfter (msg.roleOr = .assistant) rest
    else stepsAfter afterAssistant rest

theorem followsAssistant_concat (result : List TrajectoryStep) (step : TrajectoryStep) :
    followsAssistant (result ++ [step]) = decide (step.role = .assistant) := by
  rw [followsAssistant, List.getLast?_concat]
  rfl

theorem followsAssistant_parseMessageInto {msg : SweMessage} (h : msg.isEvent = true) (result : List TrajectoryStep) :
    followsAssistant (parseMessageInto result msg) = decide (msg.roleOr = .assistant) := by
  have hevent : ¬ msg.roleOr = .system := of_decide_eq_true h
  unfold parseMessageInto
  dsimp only
  rw [if_neg hevent]
  split_ifs with hresult
  · rw [followsAssistant_concat, hresult.1]
    rfl
  · rw [followsAssistant_concat]

theorem foldl_parseMessageInto (result : List TrajectoryStep) (msgs : List SweMessage) :
    msgs.foldl parseMessageInto result = result ++ stepsAfter (followsAssistant result) msgs := by
  induction msgs generalizing result with
  | nil => exact (List.append_nil result).symm
  | cons msg rest ih =>
    rw [List.foldl_cons, ih, stepsAfter]
    by_cases hevent : msg.isEvent = true
    · rw [followsAssistant_parseMessageInto hevent, if_pos hevent]
      have hsystem : ¬ msg.roleOr = .system := of_decide_eq_true hevent
      unfold parseMessageInto
      dsimp only
      rw [if_neg hsystem]
      split_ifs with hresult
      · rw [List.append_assoc, List.singleton_append]
      · rw [List.append_assoc, List.singleton_append]
    · have hsystem : msg.roleOr = .system := by simpa [SweMessage.isEvent] using hevent
      have hskip : parseMessageInto result msg = result := if_pos hsystem
      rw [hskip, if_neg hevent]

theorem parseMessages_append (xs ys : List SweMessage) :
    parseMessages (xs ++ ys) = parseMessages xs ++ stepsAfter (followsAssistant (parseMessages xs)) ys := by
  rw [parseMessages, List.foldl_append, foldl_parseMessageInto _ ys]
  rfl

theorem parseMessages_eq (ys : List SweMessage) : parseMessages ys = stepsAfter false ys :=
  parseMessages_append [] ys

theorem followsAssistant_parseMessages (xs : List SweMessage) :
    followsAssistant (parseMessages xs) = true ↔
      ∃ m ∈ (xs.filter SweMessage.isEvent).getLast?, m.roleOr = .assistant := by
  induction xs using List.reverseRecOn with
  | nil => simp [parseMessages, followsAssistant]
  | append_singleton xs msg ih =>
    have hstep : parseMessages (xs ++ [msg]) = parseMessageInto (parseMessages xs) msg := by
      rw [parseMessages, List.foldl_append]
      rfl
    rw [hstep, List.filter_append]
    by_cases hevent : msg.isEvent = true
    · have hone : [msg].filter SweMessage.isEvent = [msg] := List.filter_cons_of_pos hevent
      rw [followsAssistant_parseMessageInto hevent, hone, List.getLast?_concat, decide_eq_true_eq]
      exact ⟨fun h => ⟨msg, rfl, h⟩, fun ⟨m, hm, h⟩ => by cases hm; exact h⟩
    · have hsystem : msg.roleOr = .system := by simpa [SweMessage.isEvent] using hevent
      have hskip : parseMessageInto (parseMessages xs) msg = parseMessages xs := if_pos hsystem
      have hnone : [msg].filter SweMessage.isEvent = [] := List.filter_cons_of_neg hevent
      rw [hskip, hnone, List.append_nil, ih]

theorem stepsAfter_eq_iff (ys : List SweMessage) :
    stepsAfter true ys = stepsAfter false ys ↔ ¬ ∃ m ∈ (ys.filter SweMessage.isEvent).head?, m.roleOr = .user := by
  induction ys with
  | nil => simp [stepsAfter]
  | cons msg rest ih =>
    rw [stepsAfter, stepsAfter]
    by_cases hevent : msg.isEvent = true
    · rw [if_pos hevent, if_pos hevent, List.filter_cons_of_pos hevent, List.head?_cons]
      by_cases huser : msg.roleOr = .user
      · simp [huser]
      · simp [huser]
    · rw [if_neg hevent, if_neg hevent, List.filter_cons_of_neg hevent, ih]

theorem fromSweAgentDict_cut_iff (d : SweRecord) (summary : String) (c : ℕ) :
    (AgentTrajectory.fromSweAgentDict d summary (some c)).steps ++
        (AgentTrajectory.fromSweAgentDict d summary (some c)).continuation =
      (AgentTrajectory.fromSweAgentDict d summary none).steps ↔ ¬ CutsResult (d.history.getD []) c := by
  have hhalves : (AgentTrajectory.fromSweAgentDict d summary (some c)).steps ++
      (AgentTrajectory.fromSweAgentDict d summary (some c)).continuation =
        parseMessages ((d.history.getD []).take c) ++ parseMessages ((d.history.getD []).drop c) := by
    show parseMessages (slice _ (0 : ℕ) c) ++ parseMessages (sliceFrom _ c) = _
    rw [slice_natCast, sliceFrom_natCast, List.drop_zero]
  have hwhole : (AgentTrajectory.fromSweAgentDict d summary none).steps =
      parseMessages ((d.history.getD []).take c ++ (d.history.getD []).drop c) := by
    rw [List.take_append_drop]
    rfl
  rw [hhalves, hwhole, parseMessages_append, List.append_cancel_left_eq, parseMessages_eq (List.drop c _), CutsResult,
    ← followsAssistant_parseMessages]
  cases followsAssistant (parseMessages ((d.history.getD []).take c)) with
  | false => simp
  | true => rw [eq_comm, stepsAfter_eq_iff, and_iff_right rfl]

def shellHistory : SweRecord where
  history := some [{ role := some .assistant, content := some (.text "ls") },
    { role := some .user, content := some (.text "a.py") }]

theorem cut_keeps_result_as_user :
    ¬ ∀ (d : SweRecord) (summary : String) (c : ℕ), c ≤ (d.history.getD []).length →
      (AgentTrajectory.fromSweAgentDict d summary (some c)).steps ++
          (AgentTrajectory.fromSweAgentDict d summary (some c)).continuation =
        (AgentTrajectory.fromSweAgentDict d summary none).steps := by
  intro h
  have hroles := congrArg (List.map TrajectoryStep.role) (h shellHistory "" 1 (by decide))
  exact absurd hroles (by decide)

end TokensThatSuffice
