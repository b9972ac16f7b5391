import TokensThatSuffice.TurnSplits

namespace TokensThatSuffice

def Alternates (steps : List TrajectoryStep) : Prop :=
  ∀ i s, steps[i]? = some s → s.role = if i % 2 = 0 then .assistant else .tool

def AtEach (p : Message → List Message → Prop) (messages : List Message) : Prop :=
  ∀ before m after, messages = before ++ m :: after → p m after

def AnsweredAtOnce : List Message → Prop :=
  AtEach fun m after => m.callsTools = true →
    (∃ t ∈ after.head?, t.isTool = true) ∨ ∀ x ∈ after, x.callsTools = false

structure TurnAligned (t : AgentTrajectory) : Prop where
  alternate : Alternates t.steps
  cut : ∀ k : ℕ, 2 * k ≤ t.steps.length → ∀ s ∈ (t.withPrefix (2 * k : ℕ)).steps.getLast?, s.role = .tool
  resume : ∀ k : ℕ, ∀ s ∈ (t.withPrefix (2 * k : ℕ)).continuation.head?, s.role = .assistant

theorem alternates_nil : Alternates [] := by
  intro i s h
  cases h

theorem alternates_singleton {a : TrajectoryStep} : Alternates [a] ↔ a.role = .assistant := by
  constructor
  · intro h
    exact h 0 a rfl
  · intro ha i s h
    cases i with
    | zero =>
      cases h
      exact ha
    | succ i => cases h

theorem alternates_cons_cons {a b : TrajectoryStep} {rest : List TrajectoryStep} :
    Alternates (a :: b :: rest) ↔ a.role = .assistant ∧ b.role = .tool ∧ Alternates rest := by
  constructor
  · intro h
    refine ⟨h 0 a rfl, h 1 b rfl, ?_⟩
    intro i s hs
    have hrole := h (i + 2) s hs
    rw [Nat.add_mod_right] at hrole
    exact hrole
  · rintro ⟨ha, hb, hrest⟩ i s hs
    match i with
    | 0 =>
      cases hs
      exact ha
    | 1 =>
      cases hs
      exact hb
    | i + 2 =>
      rw [Nat.add_mod_right]
      exact hrest i s hs

section Splits

variable {p : Message → List Message → Prop} {m : Message} {rest : List Message}

theorem atEach_nil : AtEach p [] := by
  intro before m after h
  cases before <;> cases h

theorem atEach_cons : AtEach p (m :: rest) ↔ p m rest ∧ AtEach p rest := by
  constructor
  · intro h
    refine ⟨h [] m rest rfl, ?_⟩
    rintro before x after rfl
    exact h (m :: before) x after rfl
  · rintro ⟨hm, hrest⟩ before x after hsplit
    cases before with
    | nil =>
      cases hsplit
      exact hm
    | cons y before =>
      cases hsplit
      exact hrest before x after rfl

end Splits

theorem callsTools_of_isTool {t : Message} (h : t.isTool = true) : t.callsTools = false := by
  rw [Message.isTool, decide_eq_true_eq] at h
  simp [Message.callsTools, h]

section Collected

variable {py : Python}

theorem collectSteps_eq_nil_iff {messages : List Message} :
    collectSteps py messages = [] ↔ ∀ m ∈ messages, m.callsTools = false := by
  induction messages using collectSteps.induct with
  | case1 => simp [collectSteps]
  | case2 m hm => simp [collectSteps, hm]
  | case3 m hm => simp [collectSteps, hm]
  | case4 m t rest hm ht ih => simp [collectSteps, hm, ht]
  | case5 m t rest hm ht ih => simp [collectSteps, hm, ht]
  | case6 m t rest hm ih =>
    rw [Bool.not_eq_true] at hm
    rw [collectSteps, hm, if_neg Bool.false_ne_true, ih, List.forall_mem_cons (a := m), and_iff_right hm]

theorem collectSteps_head {messages : List Message} {s : TrajectoryStep}
    (h : s ∈ (collectSteps py messages).head?) : ∃ m, m.callsTools = true ∧ s = collectAssistant py m := by
  induction messages using collectSteps.induct with
  | case1 => cases h
  | case2 m hm =>
    rw [collectSteps, if_pos hm] at h
    cases h
    exact ⟨m, hm, rfl⟩
  | case3 m hm =>
    rw [collectSteps, if_neg hm] at h
    cases h
  | case4 m t rest hm ht ih =>
    rw [collectSteps, if_pos hm, if_pos ht] at h
    cases h
    exact ⟨m, hm, rfl⟩
  | case5 m t rest hm ht ih =>
    rw [collectSteps, if_pos hm, if_neg ht] at h
    cases h
    exact ⟨m, hm, rfl⟩
  | case6 m t rest hm ih =>
    rw [collectSteps, if_neg hm] at h
    exact ih h

theorem alternates_unanswered {a : TrajectoryStep} {messages : List Message} (ha : a.role = .assistant) :
    Alternates (a :: collectSteps py messages) ↔ ∀ m ∈ messages, m.callsTools = false := by
  rw [← @collectSteps_eq_nil_iff py]
  cases hsteps : collectSteps py messages with
  | nil => simp [alternates_singleton, ha]
  | cons b rest =>
    obtain ⟨m, -, hb⟩ := @collectSteps_head py messages b (by rw [hsteps]; rfl)
    simp [alternates_cons_cons, hb, collectAssistant]

theorem collectSteps_alternates_iff (messages : List Message) :
    Alternates (collectSteps py messages) ↔ AnsweredAtOnce messages := by
  induction messages using collectSteps.induct with
  | case1 => exact ⟨fun _ => atEach_nil, fun _ => alternates_nil⟩
  | case2 m hm =>
    rw [collectSteps, if_pos hm, alternates_singleton, AnsweredAtOnce, atEach_cons]
    exact ⟨fun _ => ⟨fun _ => .inr (fun x hx => by cases hx), atEach_nil⟩, fun _ => rfl⟩
  | case3 m hm =>
    rw [collectSteps, if_neg hm, AnsweredAtOnce, atEach_cons]
    exact ⟨fun _ => ⟨fun h => absurd h hm, atEach_nil⟩, fun _ => alternates_nil⟩
  | case4 m t rest hm ht ih =>
    have hquiet : ¬ t.callsTools = true := by
      rw [callsTools_of_isTool ht]
      exact Bool.false_ne_true
    rw [collectSteps, if_pos hm, if_pos ht, alternates_cons_cons, ih, AnsweredAtOnce, atEach_cons, atEach_cons]
    constructor
    · rintro ⟨-, -, hrest⟩
      exact ⟨fun _ => .inl ⟨t, rfl, ht⟩, fun h => absurd h hquiet, hrest⟩
    · rintro ⟨-, -, hrest⟩
      exact ⟨rfl, rfl, hrest⟩
  | case5 m t rest hm ht ih =>
    rw [collectSteps, if_pos hm, if_neg ht, alternates_unanswered rfl, AnsweredAtOnce, atEach_cons]
    constructor
    · intro hquiet
      refine ⟨fun _ => .inr hquiet, ih.mp ?_⟩
      rw [collectSteps_eq_nil_iff.mpr hquiet]
      exact alternates_nil
    · rintro ⟨hanswered, -⟩
      rcases hanswered hm with ⟨x, hx, htool⟩ | hquiet
      · cases hx
        exact absurd htool ht
      · exact hquiet
  | case6 m t rest hm ih =>
    rw [collectSteps, if_neg hm, ih, AnsweredAtOnce, atEach_cons (m := m)]
    exact ⟨fun h => ⟨fun hcalls => absurd hcalls hm, h⟩, fun h => h.2⟩

end Collected

theorem turnAligned_of_alternates {t : AgentTrajectory} (h : Alternates t.steps) (hcontinuation : t.continuation = []) :
    TurnAligned t := by
  refine ⟨h, ?_, ?_⟩
  · intro k hk s hs
    rw [AgentTrajectory.withPrefix_steps, List.getLast?_take] at hs
    split_ifs at hs with hzero
    · cases hs
    · have hlast : 2 * k - 1 < t.steps.length := by omega
      rw [List.getElem?_eq_getElem hlast, Option.some_or] at hs
      have hrole := h (2 * k - 1) s ((List.getElem?_eq_getElem hlast).trans hs)
      rw [if_neg (by omega)] at hrole
      exact hrole
  · intro k s hs
    rw [AgentTrajectory.withPrefix_continuation, hcontinuation, List.append_nil, List.head?_drop] at hs
    have hrole := h (2 * k) s hs
    rw [if_pos (by omega)] at hrole
    exact hrole

theorem fromCollectDict_turnAligned_iff {py : Python} {d : RawRecord} {t : AgentTrajectory}
    (h : AgentTrajectory.fromCollectDict py d = .ok t) : TurnAligned t ↔ AnsweredAtOnce (d.messages.getD []) := by
  obtain ⟨task, -, h⟩ := bind_eq_ok.mp h
  obtain ⟨agentSystemPrompt, -, h⟩ := bind_eq_ok.mp h
  cases h
  rw [← @collectSteps_alternates_iff py]
  exact ⟨fun h => h.alternate, fun h => turnAligned_of_alternates h rfl⟩

def commandMessage (id : String) : Message where
  role := .assistant
  content := some (.text "")
  toolCalls := [⟨some id, some "bash", none⟩]

def resultMessage (id : String) : Message := { role := .tool, content := some (.text "ok"), toolCallId := some id }

def feedbackMessage : Message := { role := .user, content := some (.text "call one tool") }

def answeredRecord : RawRecord where
  messages := some [feedbackMessage, commandMessage "a", resultMessage "a", commandMessage "b"]

def rejectedRecord : RawRecord where
  messages := some [feedbackMessage, commandMessage "a", feedbackMessage, commandMessage "b", resultMessage "b"]

def collected (d : RawRecord) (task : Content) : AgentTrajectory where
  task := task
  steps := collectSteps asciiPython (d.messages.getD [])
  continuation := []
  summary := ""
  metadata := .object [("instance_id", .null), ("is_correct", .null), ("num_calls", .null)]

theorem fromCollectDict_turnAligned_iff_answered :
    TurnAligned (collected answeredRecord (.text "call one tool")) ↔ AnsweredAtOnce (answeredRecord.messages.getD []) :=
  @fromCollectDict_turnAligned_iff asciiPython _ _ rfl

theorem rejected_call_shifts_turns :
    ¬ ∀ (py : Python) (d : RawRecord) (t : AgentTrajectory), AgentTrajectory.fromCollectDict py d = .ok t →
      TurnAligned t := by
  intro h
  have haligned := h asciiPython rejectedRecord (collected rejectedRecord (.text "call one tool")) rfl
  cases haligned.alternate 1 _ rfl

end TokensThatSuffice
