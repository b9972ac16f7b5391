import TokensThatSuffice.Messages

namespace TokensThatSuffice

structure ToolCall where
  name : String
  arguments : Json := .object []
  id : String := ""
  deriving Repr

structure TrajectoryStep where
  role : Role
  content : Content
  toolCalls : List ToolCall := []
  toolCallId : String := ""
  name : String := ""
  reasoningContent : String := ""
  deriving Repr

variable (py : Python)

/-- Left out is the `RecursionError` of `json.loads` on arguments nested too deeply, which the `except` clause does not
catch. -/
def parseArguments (args : Option Json) : Json :=
  match args.getD (.object []) with
  | .str s => (py.loads s).getD (.object [])
  | v => v

def parseToolCall (tc : WireToolCall) : ToolCall :=
  ⟨tc.name.getD "", parseArguments py tc.arguments, tc.id.getD ""⟩

def parseToolCalls (raw : List WireToolCall) : List ToolCall := raw.map (parseToolCall py)

def messagesToStepsFrom (seenTask : Bool) : List Message → List TrajectoryStep
  | [] => []
  | m :: rest =>
    match m.role with
    | .system => messagesToStepsFrom seenTask rest
    | .user =>
      if seenTask then { role := .user, content := m.contentOrEmpty } :: messagesToStepsFrom true rest
      else messagesToStepsFrom true rest
    | .assistant =>
      { role := .assistant, content := m.contentOrEmpty, toolCalls := parseToolCalls py m.toolCalls } ::
        messagesToStepsFrom seenTask rest
    | .tool =>
      { role := .tool, content := m.contentOrEmpty, toolCallId := m.toolCallId.getD "" } ::
        messagesToStepsFrom seenTask rest
    | .other _ => messagesToStepsFrom seenTask rest

def messagesToSteps (messages : List Message) : List TrajectoryStep := messagesToStepsFrom py false messages

def Role.label : Role → String
  | .system => "system"
  | .user => "user"
  | .assistant => "assistant"
  | .tool => "tool"
  | .other name => name

/-- An element of the list that `"\n".join` receives; a list of parts makes it raise. -/
def Content.joinItem : Content → Except PyError String
  | .text s => .ok s
  | _ => .error .typeError

def formatToolCall (tc : ToolCall) : String :=
  "Action: " ++ tc.name ++ "\n" ++ (if tc.arguments.truthy then py.dumpsIndent tc.arguments else "{}")

def stepLabel (step : TrajectoryStep) : String :=
  match step.role with
  | .assistant => "assistant"
  | .tool => if step.name ≠ "" then step.name ++ " observation" else "observation"
  | role => role.label

def stepParts (step : TrajectoryStep) : Except PyError (List String) := do
  if step.role = .assistant then
    let calls := step.toolCalls.map (formatToolCall py)
    if step.content.truthy then
      let s ← step.content.joinItem
      return s :: calls
    else return calls
  else
    let s ← step.content.joinItem
    return [s]

def formatStep (step : TrajectoryStep) : Except PyError String := do
  let parts ← stepParts py step
  return "<EVENT type=" ++ py.repr (.str (stepLabel step)) ++ ">\n" ++ join "\n" parts ++ "\n</EVENT>"

def formatTrajectoryText (steps : List TrajectoryStep) : Except PyError String := do
  let sections ← steps.mapM (formatStep py)
  return join "\n\n" sections

end TokensThatSuffice
