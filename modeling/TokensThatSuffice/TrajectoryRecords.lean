import TokensThatSuffice.TrajectorySteps

namespace TokensThatSuffice

structure AgentTrajectory where
  task : Content
  steps : List TrajectoryStep
  continuation : List TrajectoryStep
  summary : String
  trajectoryId : String := ""
  metadata : Json := .object []
  agentSystemPrompt : Content := .text ""
  deriving Repr

structure RawStep where
  role : Option Role
  content : Option Content := none
  toolCalls : Option (List WireToolCall) := none
  toolCallId : Option String := none
  name : Option String := none
  reasoningContent : Option String := none
  deriving Repr

/-- A decoded line of a dataset file: the fields of both formats, `none` where the key is absent. -/
structure RawRecord where
  messages : Option (List Message) := none
  uid : Option String := none
  instanceId : Option Json := none
  isCorrect : Option Json := none
  numCalls : Option Json := none
  task : Option String := none
  steps : Option (List RawStep) := none
  continuation : Option (List RawStep) := none
  summary : Option String := none
  trajectoryId : Option String := none
  metadata : Option Json := none
  deriving Repr

def required {α : Type} (key : String) (field : Option α) : Except PyError α :=
  match field with
  | some v => .ok v
  | none => .error (.keyError key)

theorem required_ok_iff {α : Type} (key : String) (field : Option α) :
    (∃ v, required key field = .ok v) ↔ field.isSome := by
  cases field <;> simp [required]

namespace ToolCall

def fromDict (d : WireToolCall) : Except PyError ToolCall := do
  let name ← required "name" d.name
  return { name := name, arguments := d.arguments.getD (.object []), id := d.id.getD "" }

end ToolCall

namespace TrajectoryStep

def fromDict (d : RawStep) : Except PyError TrajectoryStep := do
  let role ← required "role" d.role
  let toolCalls ← (d.toolCalls.getD []).mapM ToolCall.fromDict
  return {
    role := role
    content := (d.content.getD (.text "")).orEmpty
    toolCalls := toolCalls
    toolCallId := d.toolCallId.getD ""
    name := d.name.getD ""
    reasoningContent := d.reasoningContent.getD "" }

end TrajectoryStep

variable (py : Python)

def collectAssistant (m : Message) : TrajectoryStep where
  role := .assistant
  content := m.contentOrEmpty
  toolCalls := parseToolCalls py m.toolCalls
  reasoningContent := m.reasoningContent.getD ""

def collectTool (t : Message) : TrajectoryStep where
  role := .tool
  content := t.contentOrEmpty
  toolCallId := t.toolCallId.getD ""

def Message.callsTools (m : Message) : Bool := m.role = .assistant && !m.toolCalls.isEmpty

def collectSteps : List Message → List TrajectoryStep
  | [] => []
  | [m] => if m.callsTools then [collectAssistant py m] else []
  | m :: t :: rest =>
    if m.callsTools then
      if t.isTool then collectAssistant py m :: collectTool t :: collectSteps rest
      else collectAssistant py m :: collectSteps (t :: rest)
    else collectSteps (t :: rest)

def firstContent (role : Role) (messages : List Message) : Except PyError Content :=
  match messages.find? (·.role = role) with
  | some m => required "content" m.content
  | none => .ok (.text "")

namespace AgentTrajectory

def fromDict (d : RawRecord) : Except PyError AgentTrajectory := do
  let task ← required "task" d.task
  let steps ← (d.steps.getD []).mapM TrajectoryStep.fromDict
  let continuation ← (d.continuation.getD []).mapM TrajectoryStep.fromDict
  let summary ← required "summary" d.summary
  return {
    task := .text task
    steps := steps
    continuation := continuation
    summary := summary
    trajectoryId := d.trajectoryId.getD ""
    metadata := d.metadata.getD (.object []) }

def fromCollectDict (d : RawRecord) : Except PyError AgentTrajectory := do
  let messages := d.messages.getD []
  let task ← firstContent .user messages
  let agentSystemPrompt ← firstContent .system messages
  return {
    task := task
    steps := collectSteps py messages
    continuation := []
    summary := ""
    trajectoryId := d.uid.getD ""
    metadata := .object [("instance_id", d.instanceId.getD .null), ("is_correct", d.isCorrect.getD .null),
      ("num_calls", d.numCalls.getD .null)]
    agentSystemPrompt := agentSystemPrompt }

end AgentTrajectory

section Loading

variable {α : Type} (parse : String → Except PyError RawRecord) (build : RawRecord → Except PyError α)

def readRecords : List String → Except PyError (List RawRecord)
  | [] => .ok []
  | line :: rest =>
    if strip line = "" then readRecords rest
    else do
      let d ← parse (strip line)
      let ds ← readRecords rest
      return d :: ds

/-- The loop of both loaders: each line is decoded and built before the next one is read. -/
def loadLines : List String → Except PyError (List α)
  | [] => .ok []
  | line :: rest =>
    if strip line = "" then loadLines rest
    else do
      let d ← parse (strip line)
      let t ← build d
      let ts ← loadLines rest
      return t :: ts

def loadTrajectories (file : List String) : Except PyError (List AgentTrajectory) :=
  loadLines parse AgentTrajectory.fromDict file

def loadCollectTrajectories (file : List String) : Except PyError (List AgentTrajectory) :=
  loadLines parse (AgentTrajectory.fromCollectDict py) file

theorem loadLines_eq_mapM {file : List String} {ds : List RawRecord} (h : readRecords parse file = .ok ds) :
    loadLines parse build file = ds.mapM build := by
  induction file generalizing ds with
  | nil =>
    cases h
    rfl
  | cons line rest ih =>
    unfold readRecords at h
    unfold loadLines
    by_cases hblank : strip line = ""
    · rw [if_pos hblank] at h ⊢
      exact ih h
    · rw [if_neg hblank] at h ⊢
      obtain ⟨d, hd, h⟩ := bind_eq_ok.mp h
      obtain ⟨tail, htail, h⟩ := bind_eq_ok.mp h
      cases h
      rw [hd, ok_bind, ih htail, List.mapM_cons]

end Loading

/-- `random.Random`: generators made from a seed, with the documented ranges of their results. -/
structure RandomModule where
  Gen : Type
  seeded : ℕ → Gen
  randint : Gen → ℤ → ℤ → ℤ × Gen
  shuffle : {α : Type} → Gen → List α → List α × Gen
  randint_mem : ∀ g lo hi, lo ≤ hi → lo ≤ (randint g lo hi).1 ∧ (randint g lo hi).1 ≤ hi
  shuffle_perm : ∀ {α : Type} (g : Gen) (xs : List α), (shuffle g xs).1.Perm xs

def RandomModule.draw (rng : RandomModule) (g : rng.Gen) (lo hi : ℤ) : Except PyError (ℤ × rng.Gen) :=
  if lo ≤ hi then .ok (rng.randint g lo hi) else .error (.valueError "empty range for randrange()")

namespace AgentTrajectory

def withPrefix (t : AgentTrajectory) (nSteps : ℤ) : AgentTrajectory where
  task := t.task
  steps := slice t.steps 0 nSteps
  continuation := sliceFrom t.steps nSteps ++ t.continuation
  summary := t.summary
  trajectoryId := t.trajectoryId
  metadata := t.metadata

def splitRange (minPrefix minSuffix n : ℤ) : ℤ × ℤ :=
  (minPrefix, if n - minSuffix < minPrefix then max minPrefix (n / 2) else n - minSuffix)

theorem splitRange_le (minPrefix minSuffix n : ℤ) :
    (splitRange minPrefix minSuffix n).1 ≤ (splitRange minPrefix minSuffix n).2 := by
  unfold splitRange
  dsimp only
  split_ifs <;> omega

/-- `randint` cannot raise here: the range is never empty. -/
def sampleSplit (rng : RandomModule) (minPrefix minSuffix : ℤ) (g : rng.Gen) (t : AgentTrajectory) :
    AgentTrajectory × rng.Gen :=
  let range := splitRange minPrefix minSuffix (t.steps.length / 2 : ℕ)
  let (k, g) := rng.randint g range.1 range.2
  (t.withPrefix (k * 2), g)

end AgentTrajectory

def splitBatch (rng : RandomModule) (minPrefix minSuffix : ℤ) (g : rng.Gen) :
    List AgentTrajectory → List AgentTrajectory
  | [] => []
  | t :: rest =>
    let (split, g) := t.sampleSplit rng minPrefix minSuffix g
    split :: splitBatch rng minPrefix minSuffix g rest

end TokensThatSuffice
