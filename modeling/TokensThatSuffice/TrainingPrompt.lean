import TokensThatSuffice.TrajectoryRecords

namespace TokensThatSuffice

structure ToolTurn where
  assistant : Message
  results : List Message
  isAssistant : assistant.role = .assistant
  called : assistant.toolCalls ≠ []
  areTools : ∀ m ∈ results, m.role = .tool
  answered : results.length = assistant.toolCalls.length

structure RecordedHistory where
  system : Message
  user : Message
  turns : List ToolTurn
  exit : Option Message
  isSystem : system.role = .system
  isUser : user.role = .user
  isExit : ∀ m ∈ exit, m.role = .other "exit"

def ToolTurn.messages (t : ToolTurn) : List Message := t.assistant :: t.results

def RecordedHistory.messages (h : RecordedHistory) : List Message :=
  h.system :: h.user :: (h.turns.flatMap ToolTurn.messages ++ h.exit.toList)

variable (py : Python)

def evaluationPrompt (messages : List Message) : Except PyError String :=
  formatTrajectoryText py (messagesToSteps py messages)

def trainingPrompt (messages : List Message) : Except PyError String := do
  let trajectory ← AgentTrajectory.fromCollectDict py { messages := some messages }
  formatTrajectoryText py trajectory.steps

def SamePrompt (messages : List Message) : Prop :=
  ∃ text, evaluationPrompt py messages = .ok text ∧ trainingPrompt py messages = .ok text

section Joining

theorem sublist_lengths {xs ys : List String} (h : xs.Sublist ys) (hpos : ∀ s ∈ ys, 0 < s.length) :
    (xs.map String.length).sum + ys.length ≤ (ys.map String.length).sum + xs.length := by
  induction h with
  | slnil => rfl
  | cons y h ih =>
    have hy := hpos y (by simp)
    have hrest := ih fun s hs => hpos s (by simp [hs])
    simp only [List.map_cons, List.sum_cons, List.length_cons]
    omega
  | cons_cons y h ih =>
    have hrest := ih fun s hs => hpos s (by simp [hs])
    simp only [List.map_cons, List.sum_cons, List.length_cons]
    omega

theorem join_sublist_length {sep : String} {xs ys : List String} (h : xs.Sublist ys)
    (hpos : ∀ s ∈ ys, 0 < s.length) (heq : join sep xs = join sep ys) : xs.length = ys.length := by
  have hlen := congrArg String.length heq
  have hsum := sublist_lengths h hpos
  have hle := h.length_le
  have hsep := Nat.mul_le_mul_left sep.length (Nat.sub_le_sub_right hle 1)
  rw [length_join, length_join] at hlen
  omega

end Joining

section Formatting

theorem formatStep_pos {step : TrajectoryStep} {s : String} (h : formatStep py step = .ok s) : 0 < s.length := by
  obtain ⟨parts, -, h⟩ := bind_eq_ok.mp h
  cases h
  simp only [String.length_append]
  have hend : "\n</EVENT>".length = 9 := rfl
  omega

theorem formatStep_ok_iff (step : TrajectoryStep) :
    (∃ s, formatStep py step = .ok s) ↔
      step.content.isText ∨ (step.role = .assistant ∧ step.content.truthy = false) := by
  unfold formatStep stepParts
  by_cases hr : step.role = .assistant
  · rw [if_pos hr]
    cases hc : step.content with
    | null => simp [Content.truthy, hr]
    | text s => by_cases hs : s = "" <;> simp [Content.truthy, Content.joinItem, Content.isText, hs]
    | parts ps => cases ps <;> simp [Content.truthy, Content.joinItem, Content.isText, hr]
  · rw [if_neg hr]
    cases hc : step.content <;> simp [Content.joinItem, Content.isText, hr]

theorem orEmpty_isText {c : Content} (h : c.orEmpty.truthy = false) : c.orEmpty.isText = true := by
  unfold Content.orEmpty at h ⊢
  split_ifs at h ⊢ with hc
  · rw [hc] at h
    cases h
  · rfl

theorem formatSteps_sublist {xs ys : List TrajectoryStep} {ss ts : List String} (h : xs.Sublist ys)
    (hs : xs.mapM (formatStep py) = .ok ss) (ht : ys.mapM (formatStep py) = .ok ts) : ss.Sublist ts := by
  induction h generalizing ss ts with
  | slnil =>
    cases hs
    exact List.nil_sublist _
  | cons y h ih =>
    rw [List.mapM_cons] at ht
    obtain ⟨t, -, ht⟩ := bind_eq_ok.mp ht
    obtain ⟨rest, hrest, ht⟩ := bind_eq_ok.mp ht
    cases ht
    apply List.Sublist.cons
    exact ih hs hrest
  | cons_cons y h ih =>
    rw [List.mapM_cons] at hs ht
    obtain ⟨s, hy, hs⟩ := bind_eq_ok.mp hs
    obtain ⟨rest, hrest, hs⟩ := bind_eq_ok.mp hs
    obtain ⟨t, hy', ht⟩ := bind_eq_ok.mp ht
    obtain ⟨rest', hrest', ht⟩ := bind_eq_ok.mp ht
    cases hs
    cases ht
    rw [hy] at hy'
    cases hy'
    apply List.Sublist.cons_cons
    exact ih hrest hrest'

def forgetReasoning (step : TrajectoryStep) : TrajectoryStep := { step with reasoningContent := "" }

theorem formatSteps_forgetReasoning (steps : List TrajectoryStep) :
    (steps.map forgetReasoning).mapM (formatStep py) = steps.mapM (formatStep py) := by
  rw [List.mapM_map]
  congr 1

end Formatting

section Converting

def liveTurn (t : ToolTurn) : List TrajectoryStep :=
  { role := .assistant, content := t.assistant.contentOrEmpty, toolCalls := parseToolCalls py t.assistant.toolCalls } ::
    t.results.map collectTool

def collectedTurn (t : ToolTurn) : List TrajectoryStep :=
  collectAssistant py t.assistant :: (t.results.take 1).map collectTool

theorem messagesToStepsFrom_tools {run : List Message} (hrun : ∀ m ∈ run, m.role = .tool) (rest : List Message) :
    messagesToStepsFrom py true (run ++ rest) = run.map collectTool ++ messagesToStepsFrom py true rest := by
  induction run with
  | nil => rfl
  | cons m run ih =>
    have hm : m.role = .tool := hrun m (by simp)
    rw [List.cons_append, messagesToStepsFrom, hm, ih fun x hx => hrun x (by simp [hx])]
    rfl

theorem messagesToSteps_recorded (h : RecordedHistory) :
    messagesToSteps py h.messages = h.turns.flatMap (liveTurn py) := by
  have hexit : messagesToStepsFrom py true h.exit.toList = [] := by
    cases hm : h.exit with
    | none => rfl
    | some m =>
      have hrole := h.isExit m hm
      simp [messagesToStepsFrom, hrole]
  have hturns (ts : List ToolTurn) : messagesToStepsFrom py true (ts.flatMap ToolTurn.messages ++ h.exit.toList) =
      ts.flatMap (liveTurn py) := by
    induction ts with
    | nil => exact hexit
    | cons t ts ih =>
      rw [List.flatMap_cons, ToolTurn.messages, List.append_assoc, List.cons_append, messagesToStepsFrom,
        t.isAssistant, messagesToStepsFrom_tools py t.areTools, ih]
      rfl
  unfold messagesToSteps RecordedHistory.messages
  rw [messagesToStepsFrom, h.isSystem]
  dsimp only
  rw [messagesToStepsFrom, h.isUser]
  exact hturns h.turns

theorem collectSteps_skip {m : Message} (hm : m.callsTools = false) (rest : List Message) :
    collectSteps py (m :: rest) = collectSteps py rest := by
  cases rest with
  | nil => simp [collectSteps, hm]
  | cons t rest => simp [collectSteps, hm]

theorem collectSteps_tools {run : List Message} (hrun : ∀ m ∈ run, m.role = .tool) (rest : List Message) :
    collectSteps py (run ++ rest) = collectSteps py rest := by
  induction run with
  | nil => rfl
  | cons m run ih =>
    have hm : m.callsTools = false := by simp [Message.callsTools, hrun m (by simp)]
    rw [List.cons_append, collectSteps_skip py hm, ih fun x hx => hrun x (by simp [hx])]

theorem ToolTurn.results_pos (t : ToolTurn) : 0 < t.results.length := by
  rw [t.answered]
  exact List.length_pos_iff.mpr t.called

theorem collectSteps_turn (t : ToolTurn) (rest : List Message) :
    collectSteps py (t.messages ++ rest) = collectedTurn py t ++ collectSteps py rest := by
  obtain ⟨first, others, hres⟩ := List.exists_cons_of_length_pos t.results_pos
  have hcalls : t.assistant.callsTools = true := by simp [Message.callsTools, t.isAssistant, t.called]
  have htools := t.areTools
  rw [hres] at htools
  have hfirst : first.isTool = true := by simp [Message.isTool, htools first (by simp)]
  have hothers : ∀ m ∈ others, m.role = .tool := fun m hm => htools m (by simp [hm])
  have hskip := collectSteps_tools py hothers rest
  simp [ToolTurn.messages, collectedTurn, hres, collectSteps, hcalls, hfirst, hskip]

theorem collectSteps_recorded (h : RecordedHistory) :
    collectSteps py h.messages = h.turns.flatMap (collectedTurn py) := by
  have hsystem : h.system.callsTools = false := by simp [Message.callsTools, h.isSystem]
  have huser : h.user.callsTools = false := by simp [Message.callsTools, h.isUser]
  have hexit : collectSteps py h.exit.toList = [] := by
    cases hm : h.exit with
    | none => rfl
    | some m => simp [collectSteps, Message.callsTools, h.isExit m hm]
  have hturns (ts : List ToolTurn) : collectSteps py (ts.flatMap ToolTurn.messages ++ h.exit.toList) =
      ts.flatMap (collectedTurn py) := by
    induction ts with
    | nil => exact hexit
    | cons t ts ih => rw [List.flatMap_cons, List.append_assoc, collectSteps_turn, ih, List.flatMap_cons]
  rw [RecordedHistory.messages, collectSteps_skip py hsystem, collectSteps_skip py huser]
  exact hturns h.turns

theorem collectSteps_sublist (h : RecordedHistory) :
    ((collectSteps py h.messages).map forgetReasoning).Sublist (messagesToSteps py h.messages) := by
  rw [collectSteps_recorded, messagesToSteps_recorded]
  induction h.turns with
  | nil => exact .slnil
  | cons t ts ih =>
    rw [List.flatMap_cons, List.flatMap_cons, List.map_append]
    apply List.Sublist.append _ ih
    unfold collectedTurn liveTurn
    rw [List.map_cons, List.map_map]
    apply List.Sublist.cons_cons
    apply List.Sublist.map
    exact List.take_sublist 1 t.results

theorem single_of_length_eq (ts : List ToolTurn)
    (h : (ts.flatMap (collectedTurn py)).length = (ts.flatMap (liveTurn py)).length) :
    ∀ t ∈ ts, t.results.length = 1 := by
  have hle (us : List ToolTurn) : (us.flatMap (collectedTurn py)).length ≤ (us.flatMap (liveTurn py)).length := by
    induction us with
    | nil => rfl
    | cons u us ih =>
      simp only [List.flatMap_cons, List.length_append, collectedTurn, liveTurn, List.length_cons, List.length_map,
        List.length_take]
      omega
  induction ts with
  | nil => simp
  | cons t ts ih =>
    have hpos := t.results_pos
    have hrest := hle ts
    simp only [List.flatMap_cons, List.length_append, collectedTurn, liveTurn, List.length_cons, List.length_map,
      List.length_take] at h hrest ih
    intro u hu
    rcases List.mem_cons.mp hu with rfl | hu
    · omega
    · apply ih _ u hu
      omega

theorem firstContent_recorded (h : RecordedHistory) :
    firstContent .user h.messages = required "content" h.user.content ∧
      firstContent .system h.messages = required "content" h.system.content := by
  simp [firstContent, RecordedHistory.messages, List.find?, h.isSystem, h.isUser]

end Converting

/-- One call a turn, contents that `str.join` accepts, and the two keys the record reader insists on. -/
structure RendersAlike (h : RecordedHistory) : Prop where
  opened : h.system.content.isSome ∧ h.user.content.isSome
  single : ∀ t ∈ h.turns, t.assistant.toolCalls.length = 1
  text : ∀ t ∈ h.turns, ∀ m ∈ t.messages, m.contentOrEmpty.isText

theorem trainingPrompt_ok_iff (h : RecordedHistory) (text : String) :
    trainingPrompt py h.messages = .ok text ↔
      (h.system.content.isSome ∧ h.user.content.isSome) ∧
        formatTrajectoryText py (collectSteps py h.messages) = .ok text := by
  obtain ⟨huser, hsystem⟩ := firstContent_recorded h
  unfold trainingPrompt AgentTrajectory.fromCollectDict
  dsimp only [Option.getD_some]
  rw [huser, hsystem, ← required_ok_iff "content" h.system.content, ← required_ok_iff "content" h.user.content]
  cases required "content" h.system.content <;> cases required "content" h.user.content <;> simp

theorem formatSteps_live_iff (h : RecordedHistory) :
    (∃ ss, (messagesToSteps py h.messages).mapM (formatStep py) = .ok ss) ↔
      ∀ t ∈ h.turns, ∀ m ∈ t.messages, m.contentOrEmpty.isText := by
  rw [mapM_ok_iff_forall, messagesToSteps_recorded]
  have htext {step : TrajectoryStep} {m : Message} (hstep : step.content = m.contentOrEmpty) :
      (∃ s, formatStep py step = .ok s) ↔ m.contentOrEmpty.isText := by
    rw [formatStep_ok_iff, hstep]
    constructor
    · rintro (h | ⟨-, h⟩)
      · exact h
      · exact orEmpty_isText h
    · exact .inl
  have htool (m : Message) : (∃ s, formatStep py (collectTool m) = .ok s) ↔ m.contentOrEmpty.isText := htext rfl
  simp only [List.forall_mem_flatMap, liveTurn, ToolTurn.messages, List.forall_mem_cons, List.forall_mem_map, htool]
  refine forall₂_congr fun t _ => and_congr_left fun _ => ?_
  exact htext rfl

theorem samePrompt_iff (h : RecordedHistory) : SamePrompt py h.messages ↔ RendersAlike h := by
  have hsub := collectSteps_sublist py h
  constructor
  · rintro ⟨text, heval, htrain⟩
    obtain ⟨hopened, htrain⟩ := (trainingPrompt_ok_iff py h text).mp htrain
    obtain ⟨ss, hss, heval⟩ := bind_eq_ok.mp heval
    obtain ⟨ts, hts, htrain⟩ := bind_eq_ok.mp htrain
    rw [pure_eq_ok, Except.ok.injEq] at heval htrain
    have hts' := (formatSteps_forgetReasoning py _).trans hts
    have hpos : ∀ s ∈ ss, 0 < s.length := by
      intro s hs
      obtain ⟨step, -, hstep⟩ := mem_of_mapM_ok hss hs
      exact formatStep_pos py hstep
    -- the training sections are among the live ones, so equal texts leave none out
    have hlen := join_sublist_length (formatSteps_sublist py hsub hts' hss) hpos (htrain.trans heval.symm)
    rw [← (mapM_eq_ok.mp hts).length_eq, ← (mapM_eq_ok.mp hss).length_eq, collectSteps_recorded,
      messagesToSteps_recorded] at hlen
    refine ⟨hopened, ?_, (formatSteps_live_iff py h).mp ⟨ss, hss⟩⟩
    intro t ht
    rw [← t.answered]
    exact single_of_length_eq py h.turns hlen t ht
  · rintro ⟨hopened, hsingle, htext⟩
    obtain ⟨ss, hss⟩ := (formatSteps_live_iff py h).mpr htext
    have hsteps : (collectSteps py h.messages).map forgetReasoning = messagesToSteps py h.messages := by
      apply hsub.eq_of_length
      rw [List.length_map, collectSteps_recorded, messagesToSteps_recorded]
      have hturn : ∀ t ∈ h.turns, (collectedTurn py t).length = (liveTurn py t).length := by
        intro t ht
        have hone := t.answered.trans (hsingle t ht)
        simp [collectedTurn, liveTurn, hone]
      rw [List.length_flatMap, List.length_flatMap, List.map_congr_left hturn]
    have hts : (collectSteps py h.messages).mapM (formatStep py) = .ok ss := by
      rw [← formatSteps_forgetReasoning, hsteps, hss]
    refine ⟨join "\n\n" ss, ?_, (trainingPrompt_ok_iff py h _).mpr ⟨hopened, ?_⟩⟩
    · rw [evaluationPrompt, formatTrajectoryText, hss, ok_bind, pure_eq_ok]
    · rw [formatTrajectoryText, hts, ok_bind, pure_eq_ok]

def twoCallTurn : ToolTurn where
  assistant := {
    role := .assistant
    content := some (.text "")
    toolCalls := [⟨some "call_0", some "bash", some (.str "{}")⟩, ⟨some "call_1", some "bash", some (.str "{}")⟩] }
  results := [
    { role := .tool, toolCallId := some "call_0", content := some (.text "first") },
    { role := .tool, toolCallId := some "call_1", content := some (.text "second") }]
  isAssistant := Eq.refl Role.assistant
  called := by simp
  areTools := by simp
  answered := rfl

def twoCallHistory : RecordedHistory where
  system := { role := .system, content := some (.text "s") }
  user := { role := .user, content := some (.text "u") }
  turns := [twoCallTurn]
  exit := none
  isSystem := Eq.refl Role.system
  isUser := Eq.refl Role.user
  isExit := by simp

theorem training_prompt_drops_second_result : ¬ SamePrompt asciiPython twoCallHistory.messages := by
  rintro ⟨text, heval, htrain⟩
  have hne : evaluationPrompt asciiPython twoCallHistory.messages ≠
      trainingPrompt asciiPython twoCallHistory.messages := by decide
  exact hne (heval.trans htrain.symm)

end TokensThatSuffice
