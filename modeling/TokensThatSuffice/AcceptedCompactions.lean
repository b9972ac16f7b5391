import TokensThatSuffice.AgentRuns

namespace TokensThatSuffice

variable (py : Python) (cfg : AgentConfig)

structure Logged (s s' : AgentState) (r : CompactionResult) (before after : ℕ) : Prop where
  compressions : s'.compressions = s.compressions ++ [compactionRecord s r before after]
  nCompressions : s'.nCompressions = s.compressions.length + 1

inductive Accepting (s : AgentState) (r : CompactionResult) (before after : ℕ) :
    AgentState × Option PyError → Prop
  | refused (hlen : s.messages.length ≤ r.messages.length) (htokens : before ≤ after) :
      Accepting s r before after (s, none)
  | halted {saved : AgentState} (e : PyError) (hguard : r.messages.length < s.messages.length ∨ after < before)
      (hlog : Logged s saved r before after) (hmessages : saved.messages = s.messages) :
      Accepting s r before after (saved, some e)
  | applied {saved : AgentState} (hguard : r.messages.length < s.messages.length ∨ after < before)
      (hlog : Logged s saved r before after) (hmessages : saved.messages = r.messages) :
      Accepting s r before after (saved, none)

theorem saveCompaction_log (save : SaveOutcome) (record : CompactionRecord) (s : AgentState) :
    (saveCompaction cfg save record s).1.compressions = s.compressions ∧
      (saveCompaction cfg save record s).1.nCompressions = s.nCompressions := by
  obtain ⟨compactionFiles, countFile, h⟩ := saveCompaction_files cfg save record s
  rw [h]
  exact ⟨rfl, rfl⟩

theorem acceptCompaction_accepting (save : SaveOutcome) (s : AgentState) (r : CompactionResult) (before after : ℕ) :
    Accepting s r before after (acceptCompaction cfg save s r before after) := by
  unfold acceptCompaction
  by_cases hguard : s.messages.length ≤ r.messages.length ∧ before ≤ after
  · rw [if_pos hguard]
    exact .refused hguard.1 hguard.2
  · rw [if_neg hguard]
    have hshrunk : r.messages.length < s.messages.length ∨ after < before := by omega
    have hmessages := saveCompaction_messages cfg save (compactionRecord s r before after)
      (s.record (compactionRecord s r before after))
    have hlog := saveCompaction_log cfg save (compactionRecord s r before after)
      (s.record (compactionRecord s r before after))
    dsimp only
    generalize saveCompaction cfg save _ _ = saved at hmessages hlog ⊢
    obtain ⟨saved, raised⟩ := saved
    cases raised with
    | none => exact .applied hshrunk ⟨hlog.1, hlog.2⟩ rfl
    | some e => exact .halted e hshrunk ⟨hlog.1, hlog.2⟩ hmessages.1

section Reduction

def Reduced (old new : List Message) : Prop :=
  ∃ before after, tokensOf py cfg old = .ok before ∧ tokensOf py cfg new = .ok after ∧
    (new.length < old.length ∨ after < before)

theorem maybeCompress_none (save : SaveOutcome) (s : AgentState) :
    maybeCompress py cfg none save s = { state := s } := rfl

theorem maybeCompress_reduced (compactor : Option Compact) (save : SaveOutcome) (s : AgentState) :
    ((maybeCompress py cfg compactor save s).state.messages ≠ s.messages →
        Reduced py cfg s.messages (maybeCompress py cfg compactor save s).state.messages) ∧
      ((maybeCompress py cfg compactor save s).raised = none →
        (maybeCompress py cfg compactor save s).state.messages = s.messages →
        (maybeCompress py cfg compactor save s).state.compressions = s.compressions ∧
          (maybeCompress py cfg compactor save s).state.nCompressions = s.nCompressions) := by
  cases compactor with
  | none =>
    rw [maybeCompress_none]
    exact ⟨fun h => absurd rfl h, fun _ _ => ⟨rfl, rfl⟩⟩
  | some compact =>
    have hcases := maybeCompress_cases py cfg compact save s
    generalize maybeCompress py cfg (some compact) save s = c at hcases ⊢
    cases hcases with
    | @compacted r before after hdue hsize hr hafter =>
      dsimp only
      have haccepting := acceptCompaction_accepting cfg save s r before after
      generalize acceptCompaction cfg save s r before after = accepted at haccepting ⊢
      cases haccepting with
      | refused hlen htokens => exact ⟨fun h => absurd rfl h, fun _ _ => ⟨rfl, rfl⟩⟩
      | halted e hguard hlog hmessages => exact ⟨fun h => absurd hmessages h, fun h => by cases h⟩
      | applied hguard hlog hmessages =>
        rw [hmessages]
        refine ⟨fun _ => ⟨before, after, hsize, hafter, hguard⟩, ?_⟩
        -- a list as long as before with the same estimate would have been refused
        intro _ hsame
        rw [hsame] at hafter hguard
        have htokens := Except.ok.inj (hsize.symm.trans hafter)
        omega
    | _ => exact ⟨fun h => absurd rfl h, fun _ _ => ⟨rfl, rfl⟩⟩

def longSummary : String := "The agent listed the files, read the module under test and ran the suite once."

def threeTurns : AgentState where
  messages := systemMessage :: userMessage :: pairMessages [bashPair, bashPair, bashPair]

def longSummarizer : Compact := ModelBasedSummarizer.compact asciiPython ⟨fun _ => .ok longSummary⟩

theorem maybeCompress_grows :
    ¬ ∀ (cfg : AgentConfig) (compact : Compact) (save : SaveOutcome) (s : AgentState),
      (maybeCompress asciiPython cfg (some compact) save s).state.messages ≠ s.messages →
        ∃ before after, tokensOf asciiPython cfg s.messages = .ok before ∧
          tokensOf asciiPython cfg (maybeCompress asciiPython cfg (some compact) save s).state.messages = .ok after ∧
          after < before := by
  intro h
  have hnew : (maybeCompress asciiPython threeTurnConfig (some longSummarizer) {} threeTurns).state.messages =
      [systemMessage, userMessage] ++ summaryAsToolTurn longSummary ++ bashPair.messages := rfl
  have hbefore : tokensOf asciiPython threeTurnConfig threeTurns.messages = .ok 44 := rfl
  have hafter : tokensOf asciiPython threeTurnConfig
      ([systemMessage, userMessage] ++ summaryAsToolTurn longSummary ++ bashPair.messages) = .ok 61 := rfl
  obtain ⟨before, after, hb, ha, hlt⟩ := h threeTurnConfig longSummarizer {} threeTurns (by
    rw [hnew]
    intro heq
    have hlen := congrArg List.length heq
    exact absurd hlen (by decide))
  rw [hnew, hafter] at ha
  rw [hbefore] at hb
  cases ha
  cases hb
  omega

end Reduction

section Writing

structure SaveFailed (compact : Compact) (save : SaveOutcome) (s : AgentState) (r : CompactionResult)
    (e : PyError) : Prop where
  due : shouldCompact py cfg (some compact) s = .ok true
  sized : ∃ before, tokensOf py cfg s.messages = .ok before
  compacted : compact s.messages cfg.keepFirst cfg.keepLastTurns = .ok r
  resized : ∃ after, tokensOf py cfg r.messages = .ok after
  raised : (maybeCompress py cfg (some compact) save s).raised = some e

structure Applied (s s' : AgentState) (r : CompactionResult) : Prop where
  messages : s'.messages = r.messages
  compressions : ∃ record, record.inputMessages = s.messages ∧ s'.compressions = s.compressions ++ [record]
  nCompressions : s'.nCompressions = s.compressions.length + 1

structure Untouched (s s' : AgentState) : Prop where
  messages : s'.messages = s.messages
  compressions : s'.compressions = s.compressions
  nCompressions : s'.nCompressions = s.nCompressions

def AllOrNothing (s s' : AgentState) (r : CompactionResult) : Prop := Applied s s' r ∨ Untouched s s'

variable {py cfg}

theorem SaveFailed.halfway {compact : Compact} {save : SaveOutcome} {s : AgentState} {r : CompactionResult}
    {e : PyError} (h : SaveFailed py cfg compact save s r e) :
    ∃ before after, Logged s (maybeCompress py cfg (some compact) save s).state r before after ∧
      (maybeCompress py cfg (some compact) save s).state.messages = s.messages ∧ r.messages ≠ s.messages := by
  obtain ⟨hdue, ⟨before, hsize⟩, hr, ⟨after, hafter⟩, hraised⟩ := h
  have heq : maybeCompress py cfg (some compact) save s =
      { state := (acceptCompaction cfg save s r before after).1
        called := true
        raised := (acceptCompaction cfg save s r before after).2 } := by
    simp only [maybeCompress, hdue, runCompactor, hsize, hr, hafter]
  rw [heq] at hraised ⊢
  have haccepting := acceptCompaction_accepting cfg save s r before after
  generalize acceptCompaction cfg save s r before after = accepted at haccepting hraised ⊢
  cases haccepting with
  | refused hlen htokens => cases hraised
  | applied hguard hlog hmessages => cases hraised
  | halted e' hguard hlog hmessages =>
    refine ⟨before, after, hlog, hmessages, ?_⟩
    intro hsame
    rw [hsame] at hafter hguard
    have htokens := Except.ok.inj (hsize.symm.trans hafter)
    omega

theorem saveFailed_not_allOrNothing {compact : Compact} {save : SaveOutcome} {s : AgentState}
    {r : CompactionResult} {e : PyError} (h : SaveFailed py cfg compact save s r e) :
    ¬ AllOrNothing s (maybeCompress py cfg (some compact) save s).state r := by
  obtain ⟨before, after, hlog, hmessages, hne⟩ := h.halfway
  rintro (happlied | huntouched)
  · exact hne (happlied.messages.symm.trans hmessages)
  · have hlen := congrArg List.length (hlog.compressions.symm.trans huntouched.compressions)
    rw [List.length_append, List.length_singleton] at hlen
    omega

def writingConfig : AgentConfig := { threeTurnConfig with compressionsDir := true }

def fixedCompact : Compact := fixedSummarizer.compact asciiPython

def writeRefused : SaveOutcome := { write := some .osError }

def fixedResult : CompactionResult where
  messages := [systemMessage, userMessage] ++ summaryAsToolTurn "z" ++ bashPair.messages
  kind := .summary
  summary := some "z"

theorem writeRefused_saveFailed :
    SaveFailed asciiPython writingConfig fixedCompact writeRefused threeTurns fixedResult .osError :=
  ⟨rfl, ⟨44, rfl⟩, rfl, ⟨_, rfl⟩, rfl⟩

theorem saveFailed_not_allOrNothing_writeRefused :
    ¬ AllOrNothing threeTurns (maybeCompress asciiPython writingConfig (some fixedCompact) writeRefused threeTurns).state
      fixedResult :=
  saveFailed_not_allOrNothing writeRefused_saveFailed

theorem save_failure_leaves_half :
    ¬ ∀ (cfg : AgentConfig) (compact : Compact) (save : SaveOutcome) (s : AgentState) (r : CompactionResult)
      (e : PyError), SaveFailed asciiPython cfg compact save s r e →
        AllOrNothing s (maybeCompress asciiPython cfg (some compact) save s).state r := by
  intro h
  rcases h writingConfig fixedCompact writeRefused threeTurns fixedResult .osError writeRefused_saveFailed with
    happlied | huntouched
  · have hlen := congrArg List.length happlied.messages
    exact absurd hlen (by decide)
  · have hlen := congrArg List.length huntouched.compressions
    exact absurd hlen (by decide)

end Writing

end TokensThatSuffice
