import TokensThatSuffice.CollectedTurns
import TokensThatSuffice.StepMessages
import TokensThatSuffice.ToolPairing

namespace TokensThatSuffice

variable (py : Python)

/-- The default prompt of `steps_to_messages`. -/
def systemPrompt : String := join "\n" [
  "You are maintaining a context-aware state summary for an interactive coding agent.",
  "You will be given a task description followed by a sequence of agent actions and observations.",
  "The agent has not yet finished. Produce a concise summary of what has happened so far.",
  "Respond with plain text only — do not call any tools or emit tool call syntax.",
  "",
  "Fill in each section with concrete details from the events. Skip sections with nothing to report.",
  "",
  "Example output format:",
  "USER_CONTEXT: Fix the signal decoding bug in cantools where decode_choices=False is ignored.",
  "COMPLETED: Located the bug in conversion.py line 243. Applied a one-line fix. All tests pass.",
  "PENDING: Open a PR with the fix.",
  "CODE_STATE: cantools/database/conversion.py — raw_to_scaled() modified.",
  "TESTS: test_conversion.py passed after fix.",
  "CHANGES: Replaced str(val) with f\"\x7bval:.16G\x7d\" in raw_to_scaled().",
  "DEPS: None modified.",
  "VERSION_CONTROL_STATUS: Branch fix-float-precision, latest commit a1b2c3d."]

def OneCallEach : List Message → Prop :=
  AtEach fun m after => m.role = .assistant →
    ∃ call id, m.toolCalls = [call] ∧ call.id = some id ∧ ∃ t ∈ after.head?, t.isTool = true ∧ t.toolCallId = some id

def parsedCall (tc : WireToolCall) : WireToolCall := { tc with arguments := some (parseArguments py tc.arguments) }

/-- A message with its argument strings parsed and without bookkeeping keys. -/
def essential (m : Message) : Message :=
  match m.role with
  | .assistant => {
      role := .assistant
      content := some m.contentOrEmpty
      toolCalls := m.toolCalls.map (parsedCall py)
      reasoningContent := m.reasoningContent.filter (· ≠ "") }
  | .tool => { role := .tool, content := some m.contentOrEmpty, toolCallId := m.toolCallId }
  | role => { role := role, content := m.content }

def isStep (m : Message) : Bool := m.role = .assistant || m.role = .tool

def originals (messages : List Message) : List Message :=
  (messages.find? (·.role = .system)).toList ++ (messages.find? (·.role = .user)).toList ++ messages.filter isStep

def Rebuilds (systemPrompt : Content) (messages : List Message) (t : AgentTrajectory) : Prop :=
  ∃ rebuilt, stepsToMessages py t.steps t.task systemPrompt = .ok rebuilt ∧ Accepted rebuilt ∧
    rebuilt = (originals messages).map (essential py)

structure OnlyOpening (systemPrompt : Content) (messages : List Message) : Prop where
  noSteps : ∀ m ∈ messages, isStep m = false
  task : ∃ m ∈ messages, m.role = .user
  prompt : ∃ m, messages.find? (·.role = .system) = some m ∧ m.content = some systemPrompt

section Rebuilt

variable {py}

theorem wireCalls_eq_nil_iff {i : ℕ} {calls : List ToolCall} {out : List WireToolCall}
    (h : wireCalls py i calls = .ok out) : out = [] ↔ calls = [] := by
  cases calls with
  | nil =>
    cases h
    exact ⟨fun _ => rfl, fun _ => rfl⟩
  | cons tc rest =>
    obtain ⟨call, -, h⟩ := bind_eq_ok.mp h
    obtain ⟨more, -, h⟩ := bind_eq_ok.mp h
    cases h
    simp

theorem stepToMessage_calls {m : Message} (hm : m.callsTools = true) {out : Message}
    (h : stepToMessage py (collectAssistant py m) = .ok out) : out.role = .assistant ∧ out.toolCalls ≠ [] := by
  obtain ⟨calls, hcalls, h⟩ := bind_eq_ok.mp h
  cases h
  refine ⟨rfl, ?_⟩
  rw [Ne, wireCalls_eq_nil_iff hcalls]
  simp only [Message.callsTools, Bool.and_eq_true, Bool.not_eq_true', List.isEmpty_eq_false_iff] at hm
  simpa [collectAssistant, parseToolCalls] using hm.2

theorem no_calls_of_accepted {messages : List Message} (hids : ∀ m ∈ messages, m.toolCallId = none) {i : ℕ}
    (h : validateFrom i messages = .ok (true, none, none)) :
    ∀ m ∈ messages, m.role = .assistant → m.toolCalls = [] := by
  induction messages generalizing i with
  | nil =>
    intro m hm
    cases hm
  | cons msg rest ih =>
    rw [List.forall_mem_cons] at hids ⊢
    rw [validateFrom] at h
    by_cases hcalls : msg.role = .assistant ∧ msg.toolCalls ≠ []
    · rw [if_pos hcalls] at h
      obtain ⟨expected, hexpected, h⟩ := bind_eq_ok.mp h
      have hmissing : expected.toFinset.filter (fun id => some id ∉ responded rest) ≠ ∅ := by
        rw [callIds_eq_ok] at hexpected
        have hne : expected ≠ [] := by
          rintro rfl
          exact hcalls.2 (List.map_eq_nil_iff.mp hexpected)
        obtain ⟨id, hid⟩ := List.exists_mem_of_ne_nil expected hne
        apply Finset.ne_empty_of_mem (a := id)
        rw [Finset.mem_filter, List.mem_toFinset]
        refine ⟨hid, fun hmem => ?_⟩
        obtain ⟨m, hm, hmid⟩ := List.mem_map.mp hmem
        rw [hids.2 m (List.takeWhile_subset _ hm)] at hmid
        cases hmid
      dsimp only at h
      rw [if_pos hmissing] at h
      cases h
    · rw [if_neg hcalls] at h
      refine ⟨fun hrole => ?_, ih hids.2 h⟩
      by_contra hne
      exact hcalls ⟨hrole, hne⟩

theorem rebuilt_accepted_iff {messages rebuilt : List Message} {task systemPrompt : Content}
    (h : stepsToMessages py (collectSteps py messages) task systemPrompt = .ok rebuilt) :
    Accepted rebuilt ↔ collectSteps py messages = [] := by
  obtain ⟨rendered, hrendered, hrebuilt⟩ := bind_eq_ok.mp h
  cases hrebuilt
  cases hsteps : collectSteps py messages with
  | nil =>
    rw [hsteps] at hrendered
    cases hrendered
    exact ⟨fun _ => rfl, fun _ => rfl⟩
  | cons s more =>
    refine ⟨fun hvalid => ?_, fun h => by cases h⟩
    obtain ⟨m, hm, rfl⟩ := @collectSteps_head py messages s (by rw [hsteps]; rfl)
    have hids : ∀ x ∈ rendered, x.toolCallId = none := by
      intro x hx
      obtain ⟨step, -, hstep⟩ := mem_of_mapM_ok hrendered hx
      exact (stepToMessage_fields py hstep).2.2
    rw [hsteps, List.mapM_cons] at hrendered
    obtain ⟨out, hout, hrendered⟩ := bind_eq_ok.mp hrendered
    obtain ⟨outs, -, hrendered⟩ := bind_eq_ok.mp hrendered
    cases hrendered
    obtain ⟨hrole, hcalls⟩ := stepToMessage_calls hm hout
    have hnone := no_calls_of_accepted (by simpa using hids) hvalid out (by simp) hrole
    exact absurd hnone hcalls

theorem essential_role (m : Message) : (essential py m).role = m.role := by
  unfold essential
  cases hrole : m.role <;> rfl

theorem essential_opening {m : Message} (h : m.role = .system ∨ m.role = .user) :
    essential py m = { role := m.role, content := m.content } := by
  unfold essential
  rcases h with h | h <;> rw [h]

theorem step_role {messages : List Message} {m : Message} (h : m ∈ (messages.filter isStep).map (essential py)) :
    m.role ≠ .system ∧ m.role ≠ .user := by
  obtain ⟨x, hx, rfl⟩ := List.mem_map.mp h
  have hstep := (List.mem_filter.mp hx).2
  simp only [isStep, Bool.or_eq_true, decide_eq_true_eq] at hstep
  rw [essential_role]
  rcases hstep with h | h <;> simp [h]

theorem found_role {messages : List Message} {r : Role} {m : Message}
    (h : messages.find? (·.role = r) = some m) : m.role = r := by simpa using List.find?_some h

theorem originals_eq_opening_iff {messages : List Message} {systemPrompt task : Content} :
    [{ role := .system, content := some systemPrompt }, { role := .user, content := some task }] =
        (originals messages).map (essential py) ↔
      (∃ m, messages.find? (·.role = .system) = some m ∧ m.content = some systemPrompt) ∧
        (∃ m, messages.find? (·.role = .user) = some m ∧ m.content = some task) ∧
          ∀ m ∈ messages, isStep m = false := by
  have hnone : messages.filter isStep = [] ↔ ∀ m ∈ messages, isStep m = false := by
    simp [List.filter_eq_nil_iff]
  rw [originals, ← hnone, List.map_append, List.map_append]
  constructor
  · intro h
    cases hs : messages.find? (·.role = .system) with
    | none =>
      rw [hs] at h
      have hmem := h ▸ List.mem_cons_self
      rcases List.mem_append.mp hmem with hmem | hmem
      · obtain ⟨u, hu, hessential⟩ := List.mem_map.mp hmem
        have huser := found_role (Option.mem_toList.mp hu)
        rw [← @essential_role py, hessential] at huser
        cases huser
      · exact absurd rfl (step_role hmem).1
    | some s =>
      rw [hs] at h
      cases hu : messages.find? (·.role = .user) with
      | none =>
        rw [hu] at h
        obtain ⟨-, h⟩ := List.cons.inj h
        have hmem := h ▸ List.mem_cons_self
        exact absurd rfl (step_role hmem).2
      | some u =>
        rw [hu] at h
        obtain ⟨hprompt, h⟩ := List.cons.inj h
        obtain ⟨htask, h⟩ := List.cons.inj h
        rw [essential_opening (.inl (found_role hs)), Message.mk.injEq] at hprompt
        rw [essential_opening (.inr (found_role hu)), Message.mk.injEq] at htask
        exact ⟨⟨s, rfl, hprompt.2.1.symm⟩, ⟨u, rfl, htask.2.1.symm⟩, List.map_eq_nil_iff.mp h.symm⟩
  · rintro ⟨⟨s, hs, hprompt⟩, ⟨u, hu, htask⟩, hsteps⟩
    rw [hs, hu, hsteps]
    show _ = [essential py s, essential py u]
    rw [essential_opening (.inl (found_role hs)), essential_opening (.inr (found_role hu)), found_role hs,
      found_role hu, hprompt, htask]

theorem callsTools_isStep {m : Message} (h : m.callsTools = true) : isStep m = true := by
  simp only [Message.callsTools, Bool.and_eq_true, decide_eq_true_eq] at h
  simp [isStep, h.1]

theorem firstContent_user {messages : List Message} {task : Content} (h : firstContent .user messages = .ok task)
    (huser : ∃ m ∈ messages, m.role = .user) :
    ∃ m, messages.find? (·.role = .user) = some m ∧ m.content = some task := by
  obtain ⟨u, hu⟩ : ∃ u, messages.find? (·.role = .user) = some u := by
    rw [← Option.isSome_iff_exists, List.find?_isSome]
    simpa using huser
  refine ⟨u, hu, ?_⟩
  rw [firstContent, hu] at h
  dsimp only at h
  cases hcontent : u.content with
  | none =>
    rw [hcontent] at h
    cases h
  | some content =>
    rw [hcontent] at h
    cases h
    rfl

theorem rebuilds_iff {d : RawRecord} {t : AgentTrajectory} (systemPrompt : Content)
    (h : AgentTrajectory.fromCollectDict py d = .ok t) :
    Rebuilds py systemPrompt (d.messages.getD []) t ↔ OnlyOpening systemPrompt (d.messages.getD []) := by
  obtain ⟨task, htask, h⟩ := bind_eq_ok.mp h
  obtain ⟨agentSystemPrompt, -, h⟩ := bind_eq_ok.mp h
  cases h
  have hopening : stepsToMessages py [] task systemPrompt =
      .ok [{ role := .system, content := some systemPrompt }, { role := .user, content := some task }] := rfl
  constructor
  · rintro ⟨rebuilt, hrebuilt, hvalid, hsame⟩
    have hsteps := (rebuilt_accepted_iff hrebuilt).mp hvalid
    dsimp only at hrebuilt
    rw [hsteps, hopening] at hrebuilt
    cases hrebuilt
    obtain ⟨hprompt, ⟨u, hu, -⟩, hnone⟩ := originals_eq_opening_iff.mp hsame
    exact ⟨hnone, ⟨u, List.mem_of_find?_eq_some hu, found_role hu⟩, hprompt⟩
  · rintro ⟨hnone, huser, hprompt⟩
    have hsteps : collectSteps py (d.messages.getD []) = [] := by
      rw [collectSteps_eq_nil_iff]
      intro m hm
      by_contra hcall
      rw [Bool.not_eq_false] at hcall
      exact absurd (hnone m hm) (by rw [callsTools_isStep hcall]; decide)
    have hrebuilt : stepsToMessages py (collectSteps py (d.messages.getD [])) task systemPrompt =
        .ok [{ role := .system, content := some systemPrompt }, { role := .user, content := some task }] := by
      rw [hsteps, hopening]
    exact ⟨_, hrebuilt, (rebuilt_accepted_iff hrebuilt).mpr hsteps,
      originals_eq_opening_iff.mpr ⟨hprompt, firstContent_user htask huser, hnone⟩⟩

end Rebuilt

def calledRecord : RawRecord where
  messages := some [{ role := .system, content := some (.text systemPrompt) }, feedbackMessage, commandMessage "a",
    resultMessage "a"]

def calledTrajectory : AgentTrajectory :=
  { collected calledRecord (.text "call one tool") with agentSystemPrompt := .text systemPrompt }

theorem rebuilds_iff_called :
    Rebuilds asciiPython (.text systemPrompt) (calledRecord.messages.getD []) calledTrajectory ↔
      OnlyOpening (.text systemPrompt) (calledRecord.messages.getD []) :=
  @rebuilds_iff asciiPython calledRecord calledTrajectory (.text systemPrompt) rfl

theorem rebuilt_loses_call_link :
    ¬ ∀ (py : Python) (d : RawRecord) (t : AgentTrajectory), OneCallEach (d.messages.getD []) →
      Accepted (d.messages.getD []) → AgentTrajectory.fromCollectDict py d = .ok t →
        Rebuilds py (.text systemPrompt) (d.messages.getD []) t := by
  intro h
  have hcalls : OneCallEach (calledRecord.messages.getD []) := by
    simp [OneCallEach, calledRecord, atEach_cons, atEach_nil, feedbackMessage, commandMessage, resultMessage,
      Message.isTool]
  obtain ⟨rebuilt, hrebuilt, hvalid, -⟩ := h asciiPython calledRecord calledTrajectory hcalls rfl rfl
  have hsteps := (rebuilt_accepted_iff hrebuilt).mp hvalid
  cases hsteps

end TokensThatSuffice
