import TokensThatSuffice.AgentLoop
import TokensThatSuffice.Pairs
import TokensThatSuffice.Runs

namespace TokensThatSuffice

open CompactedLog Runs

section Size

variable (py : Python) {cfg : AgentConfig}

theorem tokensOf_insert (htok : cfg.tokenizer = none) {xs mid ys : List Message} {before after : ℕ}
    (hb : tokensOf py cfg (xs ++ ys) = .ok before) (ha : tokensOf py cfg (xs ++ mid ++ ys) = .ok after) :
    before ≤ after := by
  obtain ⟨tb, htb, hb⟩ := bind_eq_ok.mp hb
  obtain ⟨ta, hta, ha⟩ := bind_eq_ok.mp ha
  obtain ⟨tx, ty, htx, hty, rfl⟩ := mapM_append_ok htb
  obtain ⟨txm, ty', htxm, hty', rfl⟩ := mapM_append_ok hta
  obtain ⟨tx', tm, htx', -, rfl⟩ := mapM_append_ok htxm
  rw [htx] at htx'
  rw [hty] at hty'
  cases htx'
  cases hty'
  simp only [htok, pure_eq_ok, Except.ok.injEq] at hb ha
  have hlen : (join "\n" (tx ++ ty)).length ≤ (join "\n" (tx ++ tm ++ ty)).length := by
    rw [length_join, length_join]
    have hsep : "\n".length = 1 := rfl
    simp only [List.map_append, List.sum_append, List.length_append, hsep]
    omega
  have hdiv := Nat.div_le_div_right (c := 3) hlen
  simp only [List.length_append] at ha hb
  omega

end Size

variable (py : Python) (cfg : AgentConfig)

theorem sendQuery_messages (i : StepInput) (s : AgentState) :
    (sendQuery i s).1.messages ++ i.appended = s.messages ++ recorded (sendQuery i s).2 i.appended := by
  unfold sendQuery recorded
  cases i.reply with
  | error e => rfl
  | ok msg =>
    have hcap (s' : AgentState) : (captureUsage msg s').messages = s'.messages := by
      unfold captureUsage
      split <;> rfl
    simp [hcap]

theorem step_messages (i : StepInput) (s : AgentState) :
    (step py cfg i s).1.messages =
      (maybeCompress py cfg i.compactor i.save s).state.messages ++ (step py cfg i s).2.recorded := by
  unfold step query
  dsimp only
  split
  · rfl
  · split
    · rfl
    · exact sendQuery_messages i _

theorem step_sent (i : StepInput) (s : AgentState) (sent : List Message)
    (h : (step py cfg i s).2.sent = some sent) : sent = (maybeCompress py cfg i.compactor i.save s).state.messages := by
  rw [step, query] at h
  dsimp only at h
  cases hraised : (maybeCompress py cfg i.compactor i.save s).raised with
  | some e =>
    rw [hraised] at h
    cases h
  | none =>
    rw [hraised] at h
    dsimp only at h
    split at h
    · cases h
    · cases h
      rfl

/-- A step that appends one assistant message with a single call and its result, or nothing when it raises. -/
def TurnStep (strategy : Strategy) (s : AgentState) (e : StepEvent) (s' : AgentState) : Prop :=
  ∃ i compact, i.compactor = some compact ∧ strategy.Allows py compact ∧
    (e.recorded = [] ∨ ∃ p : Pair, e.recorded = p.messages) ∧ step py cfg i s = (s', e)

def recordedLog (start : List Message) (events : List StepEvent) : List Message :=
  start ++ events.flatMap (·.recorded)

@[simp] theorem recordedLog_snoc (start : List Message) (events : List StepEvent) (e : StepEvent) :
    recordedLog start (events ++ [e]) = recordedLog start events ++ e.recorded := by
  simp [recordedLog]

theorem TurnStep.recorded_pairs {strategy : Strategy} {s s' : AgentState} {e : StepEvent}
    (h : TurnStep py cfg strategy s e s') : ∃ qs, e.recorded = pairMessages qs := by
  obtain ⟨i, compact, -, -, hrec | ⟨p, hrec⟩, -⟩ := h
  · exact ⟨[], hrec⟩
  · exact ⟨[p], hrec⟩

theorem TurnStep.messages {strategy : Strategy} {s s' : AgentState} {e : StepEvent}
    (h : TurnStep py cfg strategy s e s') :
    s'.messages = s.messages ++ e.recorded ∨
      ∃ r before after, CompactsTo strategy s.messages cfg.keepFirst cfg.keepLastTurns r ∧
        tokensOf py cfg s.messages = .ok before ∧ tokensOf py cfg r = .ok after ∧
        (r.length < s.messages.length ∨ after < before) ∧ cfg.keepFirst + 2 < s.messages.length ∧
        s'.messages = r ++ e.recorded := by
  obtain ⟨i, compact, hi, ha, -, hstep⟩ := h
  have hmsgs := step_messages py cfg i s
  rw [hstep, hi] at hmsgs
  rcases maybeCompress_messages py cfg compact i.save s with hsame | ⟨r, b, a, hr, hb, ha', hguard, hlen, heq⟩
  · rw [hsame] at hmsgs
    exact .inl hmsgs
  · rw [heq] at hmsgs
    exact .inr ⟨r.messages, b, a, Strategy.compact_cases ha hr, hb, ha', hguard, hlen, hmsgs⟩

theorem CompactsTo.take_keepFirst {strategy : Strategy} {messages out : List Message} {keepFirst : ℕ}
    {keepLastTurns : ℤ} (h : CompactsTo strategy messages keepFirst keepLastTurns out)
    (hlen : keepFirst ≤ messages.length) : out.take keepFirst = messages.take keepFirst := by
  have htake : (messages.take keepFirst).length = keepFirst := by simp [hlen]
  cases h with
  | dropped => exact List.take_left' htake
  | summarized z => rw [List.append_assoc, List.take_left' htake]
  | masked hmask middle same => rw [List.append_assoc, List.take_left' htake]

theorem turnRun_head {strategy : Strategy} {start s : AgentState} {events : List StepEvent}
    (h : Run (TurnStep py cfg strategy) start s events) :
    s.messages.take cfg.keepFirst = (recordedLog start.messages events).take cfg.keepFirst := by
  apply Run.invariant (fun s events =>
    s.messages.take cfg.keepFirst = (recordedLog start.messages events).take cfg.keepFirst) ?_ ?_ h
  · rw [recordedLog, List.flatMap_nil, List.append_nil]
  · intro s events e s' hinv hstep
    rw [recordedLog_snoc]
    rcases hstep.messages with heq | ⟨r, b, a, hr, -, -, -, hlen, heq⟩
    · rw [heq]
      exact take_append_congr hinv
    · rw [heq]
      apply take_append_congr
      rw [hr.take_keepFirst (by omega), hinv]

theorem turnRun_pairs {strategy : Strategy} {system user : Message} {j n : ℕ}
    (hkeep : cfg.keepFirst = 2 + 2 * j) (hlast : cfg.keepLastTurns = n) {s : AgentState}
    {events : List StepEvent} (h : Run (TurnStep py cfg strategy) { messages := [system, user] } s events) :
    ∃ ps, s.messages = opened system user ps := by
  apply Run.invariant (fun s _ => ∃ ps, s.messages = opened system user ps) ?_ ?_ h
  · exact ⟨[], rfl⟩
  · rintro s events e s' ⟨ps, hps⟩ hstep
    obtain ⟨qs, hqs⟩ := hstep.recorded_pairs
    rcases hstep.messages with heq | ⟨r, b, a, hr, -, -, -, -, heq⟩
    · exact ⟨ps ++ qs, by rw [heq, hps, hqs, opened_append]⟩
    · rw [hps, hkeep, hlast] at hr
      obtain ⟨mid, rfl, -⟩ := compactsTo_opened system user hr
      exact ⟨_ ++ qs, by rw [heq, hqs, ← opened_append]⟩

theorem accepted_rtake (htok : cfg.tokenizer = none) {system user : Message} {j n : ℕ} {ps mid : List Pair}
    {before after : ℕ} (hb : tokensOf py cfg (opened system user ps) = .ok before)
    (ha : tokensOf py cfg (opened system user (ps.take j ++ mid ++ (ps.drop j).rtake n)) = .ok after)
    (hguard : (opened system user (ps.take j ++ mid ++ (ps.drop j).rtake n)).length <
      (opened system user ps).length ∨ after < before) : n < (ps.drop j).length := by
  by_contra hle
  have hall : (ps.drop j).rtake n = ps.drop j := by
    rw [List.rtake, Nat.sub_eq_zero_of_le (Nat.le_of_not_lt hle), List.drop_zero]
  rw [hall] at ha hguard
  have hsplit : opened system user ps = opened system user (ps.take j) ++ pairMessages (ps.drop j) := by
    rw [← opened_append, List.take_append_drop]
  rw [hsplit] at hb hguard
  rw [opened_append, opened_append] at ha hguard
  have hmono := tokensOf_insert py htok hb ha
  simp only [List.length_append] at hguard
  omega

theorem turnRun_view (htok : cfg.tokenizer = none) {system user : Message} {j n : ℕ}
    (hkeep : cfg.keepFirst = 2 + 2 * j) (hlast : cfg.keepLastTurns = n) {s : AgentState}
    {events : List StepEvent} (h : Run (TurnStep py cfg .model) { messages := [system, user] } s events) :
    ∃ ps log, s.messages = opened system user ps ∧
      recordedLog [system, user] events = opened system user log ∧ IsView IsSummary j log ps := by
  apply Run.invariant (fun s events => ∃ ps log, s.messages = opened system user ps ∧
    recordedLog [system, user] events = opened system user log ∧ IsView IsSummary j log ps) ?_ ?_ h
  · exact ⟨[], [], rfl, rfl, .refl []⟩
  · rintro s events e s' ⟨ps, log, hps, hlog, hview⟩ hstep
    obtain ⟨qs, hqs⟩ := hstep.recorded_pairs
    have hlog' : recordedLog [system, user] (events ++ [e]) = opened system user (log ++ qs) := by
      rw [recordedLog_snoc, hlog, hqs, opened_append]
    rcases hstep.messages with heq | ⟨r, b, a, hr, hb, ha, hguard, -, heq⟩
    · exact ⟨ps ++ qs, log ++ qs, by rw [heq, hps, hqs, opened_append], hlog', hview.append qs⟩
    · rw [hps, hkeep, hlast] at hr
      obtain ⟨mid, rfl, hmid⟩ := compactsTo_opened system user hr
      obtain ⟨hone, hsum⟩ := hmid (by simp)
      rw [hps] at hb hguard
      -- fewer pairs stay than lie behind the head, so an earlier summary is among those dropped
      have hn := accepted_rtake py cfg htok hb ha hguard
      refine ⟨_ ++ qs, log ++ qs, by rw [heq, hqs, ← opened_append], hlog', ?_⟩
      apply IsView.append
      exact hview.compact hone hsum hn

structure KeepsTurns (cfg : AgentConfig) (strategy : Strategy) (system user : Message)
    (log messages : List Message) : Prop where
  turns : ∃ ps, messages = system :: user :: pairMessages ps
  head : messages.take cfg.keepFirst = log.take cfg.keepFirst
  summary : strategy = .model → ∃ mid rest, messages.drop cfg.keepFirst = mid ++ rest ∧
    (mid = [] ∨ ∃ z, mid = summaryAsToolTurn z) ∧ rest <:+ log.drop cfg.keepFirst

theorem turnRun_keepsTurns {strategy : Strategy} {system user : Message} {j n : ℕ}
    (htok : cfg.tokenizer = none) (hkeep : cfg.keepFirst = 2 + 2 * j) (hlast : cfg.keepLastTurns = n)
    {s : AgentState} {events : List StepEvent}
    (h : Run (TurnStep py cfg strategy) { messages := [system, user] } s events) :
    KeepsTurns cfg strategy system user (recordedLog [system, user] events) s.messages := by
  constructor
  · exact turnRun_pairs py cfg hkeep hlast h
  · exact turnRun_head py cfg h
  · rintro rfl
    obtain ⟨ps, log, hps, hlog, hview⟩ := turnRun_view py cfg htok hkeep hlast h
    obtain ⟨mid, rest, hdrop, hone, hsum, pre, hpre⟩ := hview.drop
    refine ⟨pairMessages mid, pairMessages rest, ?_, ?_, pairMessages pre, ?_⟩
    · rw [hps, hkeep, drop_opened, hdrop, pairMessages_append]
    · cases mid with
      | nil => exact .inl rfl
      | cons p tail =>
        have hnil : tail = [] := by
          rw [List.length_cons] at hone
          apply List.eq_nil_of_length_eq_zero
          omega
        obtain ⟨z, rfl⟩ := hsum p (by simp)
        subst hnil
        exact .inr ⟨z, rfl⟩
    · rw [hlog, hkeep, drop_opened, ← hpre, pairMessages_append]

def bashPair : Pair where
  assistant := {
    role := .assistant
    content := some (.text "")
    toolCalls := [⟨some "call_0", some "bash", some (.str "{}")⟩] }
  result := { role := .tool, toolCallId := some "call_0", content := some (.text "ok") }
  call := ⟨some "call_0", some "bash", some (.str "{}")⟩
  isAssistant := rfl
  oneCall := rfl
  isTool := rfl
  answers := rfl

def fixedSummarizer : ModelBasedSummarizer := ⟨fun _ => .ok "z"⟩

def bashInput : StepInput where
  compactor := some (fixedSummarizer.compact asciiPython)
  reply := .ok bashPair.assistant
  appended := [bashPair.result]

def threeTurnConfig : AgentConfig := { compressAtTurns := 3, keepFirst := 2, keepLastTurns := 1 }

def systemMessage : Message := { role := .system, content := some (.text "s") }

def userMessage : Message := { role := .user, content := some (.text "u") }

def bashState : ℕ → AgentState
  | 0 => { messages := [systemMessage, userMessage] }
  | k + 1 => (step asciiPython threeTurnConfig bashInput (bashState k)).1

def bashEvent (k : ℕ) : StepEvent := (step asciiPython threeTurnConfig bashInput (bashState k)).2

def bashEvents (k : ℕ) : List StepEvent := (List.range k).map bashEvent

theorem bashRun (k : ℕ) (h : ∀ m < k, (bashEvent m).recorded = bashPair.messages) :
    Run (TurnStep asciiPython threeTurnConfig .model) { messages := [systemMessage, userMessage] } (bashState k)
      (bashEvents k) := by
  induction k with
  | zero => exact .nil
  | succ k ih =>
    have hlast : bashEvents (k + 1) = bashEvents k ++ [bashEvent k] := by
      rw [bashEvents, List.range_succ, List.map_append]
      rfl
    rw [hlast]
    apply Run.snoc (ih fun m hm => h m (by omega))
    exact ⟨bashInput, _, rfl, ⟨fixedSummarizer, rfl⟩, .inr ⟨bashPair, h k (by omega)⟩, rfl⟩

theorem bashEvent_recorded : ∀ m < 4, (bashEvent m).recorded = bashPair.messages
  | 0, _ => rfl
  | 1, _ => rfl
  | 2, _ => rfl
  | 3, _ => rfl

theorem turnRun_keepsTurns_summarized :
    (bashState 4).messages.drop 2 = summaryAsToolTurn "z" ++ bashPair.messages ++ bashPair.messages ∧
      KeepsTurns threeTurnConfig .model systemMessage userMessage
        (recordedLog [systemMessage, userMessage] (bashEvents 4)) (bashState 4).messages :=
  ⟨rfl, turnRun_keepsTurns (j := 0) (n := 1) asciiPython threeTurnConfig rfl rfl rfl
    (bashRun 4 bashEvent_recorded)⟩

end TokensThatSuffice
