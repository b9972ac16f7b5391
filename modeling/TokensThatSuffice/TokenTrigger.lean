import TokensThatSuffice.AgentRuns

namespace TokensThatSuffice

open Runs

variable (py : Python) (cfg : AgentConfig)

theorem maybeCompress_called (compact : Compact) (save : SaveOutcome) (s : AgentState) :
    (maybeCompress py cfg (some compact) save s).called = true ↔
      shouldCompact py cfg (some compact) s = .ok true ∧ ∃ n, tokensOf py cfg s.messages = .ok n := by
  have hcases := maybeCompress_cases py cfg compact save s
  generalize maybeCompress py cfg (some compact) save s = c at hcases ⊢
  cases hcases with
  | idle hdue => simp [hdue]
  | undecided hdue => simp [hdue]
  | unsized hdue hsize => simp [hsize]
  | failed e hdue hsize => simp [hdue, hsize]
  | compacted hdue hsize hr hafter => simp [hdue, hsize]

theorem maybeCompress_lastPromptTokens (compact : Compact) (save : SaveOutcome) (s : AgentState) :
    (maybeCompress py cfg (some compact) save s).state.lastPromptTokens = s.lastPromptTokens := by
  have hcases := maybeCompress_cases py cfg compact save s
  generalize maybeCompress py cfg (some compact) save s = c at hcases ⊢
  cases hcases with
  | idle hdue => rfl
  | undecided hdue => rfl
  | unsized hdue hsize => rfl
  | failed e hdue hsize => rfl
  | @compacted r before after hdue hsize hr hafter =>
    rcases acceptCompaction_cases cfg save s r before after with ⟨-, -, heq⟩ | ⟨-, heq, -⟩
    · rw [heq]
    · exact heq

theorem shouldCompact_reported (hturns : cfg.compressAtTurns = 0) {s : AgentState} {p : ℕ}
    (hlast : s.lastPromptTokens = some p) (hlen : cfg.keepFirst + 2 < s.messages.length) (compact : Compact) :
    shouldCompact py cfg (some compact) s = .ok (decide (cfg.compressAtTokens ≤ p)) := by
  have hshort : ¬ s.messages.length ≤ cfg.keepFirst + 2 := by omega
  have hzero : ¬ 0 < cfg.compressAtTurns := by omega
  unfold shouldCompact overBudget contextTokens
  rw [if_neg (by simp), if_neg hshort, if_neg hzero, hlast]
  rfl

def reportedBy (e : StepEvent) : Option (List Message) :=
  match e.sent, e.reply with
  | some sent, .ok msg => if msg.promptTokens.isSome then some sent else none
  | _, _ => none

def lastReported (events : List StepEvent) : Option (List Message) :=
  events.foldl (fun last e => (reportedBy e).or last) none

theorem lastReported_snoc (events : List StepEvent) (e : StepEvent) :
    lastReported (events ++ [e]) = (reportedBy e).or (lastReported events) := by
  simp [lastReported]

/-- Any compactor, any appended messages, and a server that reports `tok` of what it was sent when it
reports usage at all. -/
def ReportingStep (tok : List Message → ℕ) (s : AgentState) (e : StepEvent) (s' : AgentState) : Prop :=
  ∃ i compact, i.compactor = some compact ∧ step py cfg i s = (s', e) ∧
    ∀ sent msg p, e.sent = some sent → e.reply = .ok msg → msg.promptTokens = some p → p = tok sent

theorem sendQuery_lastPromptTokens (i : StepInput) (s : AgentState) :
    (sendQuery i s).1.lastPromptTokens =
      match (sendQuery i s).2 with
      | .ok msg => msg.promptTokens.or s.lastPromptTokens
      | .error _ => s.lastPromptTokens := by
  unfold sendQuery
  cases i.reply with
  | error e => rfl
  | ok msg =>
    dsimp only [captureUsage]
    cases msg.promptTokens <;> rfl

theorem step_lastPromptTokens {i : StepInput} {compact : Compact} (hi : i.compactor = some compact)
    (s : AgentState) :
    (step py cfg i s).1.lastPromptTokens =
      match (step py cfg i s).2.sent, (step py cfg i s).2.reply with
      | some _, .ok msg => msg.promptTokens.or s.lastPromptTokens
      | _, _ => s.lastPromptTokens := by
  have hkept := maybeCompress_lastPromptTokens py cfg compact i.save s
  unfold step query
  rw [hi]
  dsimp only
  split
  · exact hkept
  · split
    · exact hkept
    · dsimp only
      rw [sendQuery_lastPromptTokens]
      cases (sendQuery i _).2 <;> dsimp only <;> rw [hkept]

theorem reportingRun_lastPromptTokens {tok : List Message → ℕ} {start : List Message} {s : AgentState}
    {events : List StepEvent} (h : Run (ReportingStep py cfg tok) { messages := start } s events) :
    s.lastPromptTokens = (lastReported events).map tok := by
  apply Run.invariant (fun s events => s.lastPromptTokens = (lastReported events).map tok) ?_ ?_ h
  · rfl
  · rintro s events e s' hinv ⟨i, compact, hi, hstep, htok⟩
    have hlast := step_lastPromptTokens py cfg hi s
    rw [hstep] at hlast
    rw [lastReported_snoc, hlast, hinv]
    unfold reportedBy
    cases hsent : e.sent with
    | none => rfl
    | some sent =>
      cases hreply : e.reply with
      | error err => rfl
      | ok msg =>
        cases hp : msg.promptTokens with
        | none => simp [hp]
        | some p => simp [hp, htok sent msg p hsent hreply hp]

theorem called_iff_reported {tok : List Message → ℕ} (hturns : cfg.compressAtTurns = 0) {start : List Message}
    {s : AgentState} {events : List StepEvent} (h : Run (ReportingStep py cfg tok) { messages := start } s events)
    {reported : List Message} (hreported : lastReported events = some reported)
    (hlen : cfg.keepFirst + 2 < s.messages.length) {i : StepInput} {compact : Compact}
    (hi : i.compactor = some compact) :
    (query py cfg i s).called = true ↔
      cfg.compressAtTokens ≤ tok reported ∧ ∃ n, tokensOf py cfg s.messages = .ok n := by
  have hlast := reportingRun_lastPromptTokens py cfg h
  rw [hreported, Option.map_some] at hlast
  have hcalled : (query py cfg i s).called = (maybeCompress py cfg (some compact) i.save s).called := by
    unfold query
    rw [hi]
    dsimp only
    split
    · rfl
    · split <;> rfl
  rw [hcalled, maybeCompress_called, shouldCompact_reported py cfg hturns hlast hlen]
  simp

def tokenConfig : AgentConfig := { compressAtTokens := 6, keepFirst := 2, keepLastTurns := 1 }

def countedInput (promptTokens : ℕ) : StepInput where
  compactor := some TruncationBasedSummarizer.compact
  reply := .ok { bashPair.assistant with usage := some ⟨some promptTokens, none⟩ }
  appended := [bashPair.result]

def countedState : ℕ → AgentState
  | 0 => { messages := [systemMessage, userMessage] }
  | k + 1 => (step asciiPython tokenConfig (countedInput (2 * k + 2)) (countedState k)).1

def countedEvent (k : ℕ) : StepEvent :=
  (step asciiPython tokenConfig (countedInput (2 * k + 2)) (countedState k)).2

theorem countedStep (k : ℕ) (hsent : (countedEvent k).sent.map List.length = some (2 * k + 2)) :
    ReportingStep asciiPython tokenConfig List.length (countedState k) (countedEvent k) (countedState (k + 1)) := by
  refine ⟨countedInput (2 * k + 2), _, rfl, rfl, ?_⟩
  intro sent msg p hs hreply hp
  have hquery : (countedEvent k).reply = .ok msg → msg.promptTokens = some (2 * k + 2) := by
    intro h
    unfold countedEvent step query at h
    dsimp only at h
    split at h
    · cases h
    · split at h <;> cases h
      rfl
  rw [hs, Option.map_some, Option.some.injEq] at hsent
  rw [hquery hreply, Option.some.injEq] at hp
  omega

theorem countedRun_two :
    Run (ReportingStep asciiPython tokenConfig List.length) { messages := [systemMessage, userMessage] }
      (countedState 2) [countedEvent 0, countedEvent 1] :=
  .snoc (.snoc .nil (countedStep 0 rfl)) (countedStep 1 rfl)

theorem trigger_reads_previous_count :
    ∃ s events reported, Run (ReportingStep asciiPython tokenConfig List.length)
        { messages := [systemMessage, userMessage] } s events ∧
      lastReported events = some reported ∧ tokenConfig.keepFirst + 2 < s.messages.length ∧
      tokenConfig.compressAtTokens ≤ s.messages.length ∧
      (query asciiPython tokenConfig (countedInput 6) s).called = false :=
  ⟨_, _, _, countedRun_two, rfl, by decide, by decide, rfl⟩

theorem called_iff_reported_next : (query asciiPython tokenConfig (countedInput 8) (countedState 3)).called = true := by
  have hrun : Run (ReportingStep asciiPython tokenConfig List.length) { messages := [systemMessage, userMessage] }
      (countedState 3) [countedEvent 0, countedEvent 1, countedEvent 2] := .snoc countedRun_two (countedStep 2 rfl)
  apply (called_iff_reported asciiPython tokenConfig rfl hrun rfl (by decide) rfl).mpr
  exact ⟨by decide, _, rfl⟩

end TokensThatSuffice
