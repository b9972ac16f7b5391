import TokensThatSuffice.TrajectorySteps

namespace TokensThatSuffice

variable (py : Python)

def wireArguments (arguments : Json) : Except PyError Json :=
  match arguments with
  | .object fields => .ok (.object fields)
  | .str s =>
    match py.loads s with
    | some v => .ok v
    | none => .error (.valueError "JSONDecodeError")
  | _ => .error .typeError

def wireCall (i : ℕ) (tc : ToolCall) : Except PyError WireToolCall := do
  let arguments ← wireArguments py tc.arguments
  return ⟨some (if tc.id ≠ "" then tc.id else "call_" ++ toString i), some tc.name, some arguments⟩

def wireCalls (i : ℕ) : List ToolCall → Except PyError (List WireToolCall)
  | [] => .ok []
  | tc :: rest => do
    let call ← wireCall py i tc
    let calls ← wireCalls (i + 1) rest
    return call :: calls

def stepToMessage (step : TrajectoryStep) : Except PyError Message :=
  if step.role = .assistant then do
    let calls ← wireCalls py 0 step.toolCalls
    return {
      role := .assistant
      content := some step.content
      toolCalls := calls
      reasoningContent := if step.reasoningContent ≠ "" then some step.reasoningContent else none }
  else .ok { role := step.role, content := some step.content }

def stepsToMessages (steps : List TrajectoryStep) (task systemPrompt : Content) : Except PyError (List Message) := do
  let messages ← steps.mapM (stepToMessage py)
  return { role := .system, content := some systemPrompt } :: { role := .user, content := some task } :: messages

theorem stepToMessage_fields {step : TrajectoryStep} {m : Message} (h : stepToMessage py step = .ok m) :
    m.role = step.role ∧ m.content = some step.content ∧ m.toolCallId = none := by
  rw [stepToMessage] at h
  by_cases hrole : step.role = .assistant
  · rw [if_pos hrole] at h
    obtain ⟨calls, -, h⟩ := bind_eq_ok.mp h
    cases h
    exact ⟨hrole.symm, rfl, rfl⟩
  · rw [if_neg hrole] at h
    cases h
    exact ⟨rfl, rfl, rfl⟩

theorem stepsToMessages_mem {steps : List TrajectoryStep} {task systemPrompt : Content} {messages : List Message}
    (h : stepsToMessages py steps task systemPrompt = .ok messages) {step : TrajectoryStep} (hstep : step ∈ steps) :
    ∃ m ∈ messages, m.role = step.role ∧ m.content = some step.content := by
  obtain ⟨rendered, hrendered, hmessages⟩ := bind_eq_ok.mp h
  cases hmessages
  obtain ⟨before, after, rfl⟩ := List.append_of_mem hstep
  obtain ⟨a, b, -, hrest, rfl⟩ := mapM_append_ok hrendered
  rw [List.mapM_cons] at hrest
  obtain ⟨m, hm, hrest⟩ := bind_eq_ok.mp hrest
  obtain ⟨ms, -, hb⟩ := bind_eq_ok.mp hrest
  cases hb
  obtain ⟨hrole, hcontent, -⟩ := stepToMessage_fields py hm
  refine ⟨m, ?_, hrole, hcontent⟩
  simp only [List.mem_cons, List.mem_append, true_or, or_true]

end TokensThatSuffice
