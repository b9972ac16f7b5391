import TokensThatSuffice.AgentRuns
import TokensThatSuffice.SubtaskContract

namespace TokensThatSuffice

open Runs

structure Extends (before after : List Message) : Prop where
  summaries : before.filter isSubtaskSummary <+: after.filter isSubtaskSummary
  opening : before.take 2 <+: after.take 2

theorem Extends.refl (messages : List Message) : Extends messages messages :=
  ⟨List.prefix_rfl, List.prefix_rfl⟩

theorem Extends.trans {a b c : List Message} (hab : Extends a b) (hbc : Extends b c) : Extends a c :=
  ⟨hab.summaries.trans hbc.summaries, hab.opening.trans hbc.opening⟩

theorem Extends.append (messages more : List Message) : Extends messages (messages ++ more) := by
  constructor
  · rw [List.filter_append]
    exact List.prefix_append _ _
  · rw [List.take_append]
    exact List.prefix_append _ _

theorem extends_rebuilt {messages : List Message} (hlen : 2 ≤ messages.length) (blocks : List Message) :
    Extends messages (messages.take 2 ++ (messages.drop 2).filter isSubtaskSummary ++ blocks) := by
  constructor
  · have hsplit : messages.filter isSubtaskSummary =
        (messages.take 2).filter isSubtaskSummary ++ (messages.drop 2).filter isSubtaskSummary := by
      rw [← List.filter_append, List.take_append_drop]
    rw [hsplit, List.filter_append, List.filter_append, List.filter_filter]
    simp only [Bool.and_self]
    exact List.prefix_append _ _
  · rw [List.append_assoc, List.take_left' (List.length_take_of_le hlen)]

variable (dec : Decoder) (cfg : AgentConfig)

theorem compact_extends (c : SubtaskModelBasedSummarizer) (keepRecentSteps : ℤ) {messages : List Message}
    {keepFirst : ℕ} {keepLastTurns : ℤ} {r : CompactionResult}
    (h : c.compact dec keepRecentSteps messages keepFirst keepLastTurns = .ok r) : Extends messages r.messages := by
  rcases compact_cases dec c keepRecentSteps messages keepFirst keepLastTurns with
    ⟨-, r', hr, hsame⟩ | ⟨themes, hthemes, hr⟩
  · rw [hr] at h
    cases h
    rw [hsame]
    exact .refl messages
  · rw [hr] at h
    obtain ⟨sorted, -, h⟩ := bind_eq_ok.mp h
    obtain ⟨blocks, -, h⟩ := bind_eq_ok.mp h
    obtain ⟨texts, -, h⟩ := bind_eq_ok.mp h
    cases h
    dsimp only
    rw [(splitHeadTail_two messages).1, priorSummaries_eq]
    exact extends_rebuilt hthemes.two_le blocks.messages

def SubtaskStep (s : AgentState) (e : StepEvent) (s' : AgentState) : Prop :=
  ∃ (i : StepInput) (c : SubtaskModelBasedSummarizer) (keepRecentSteps : ℤ),
    i.compactor = some (c.compact dec keepRecentSteps) ∧ step dec.toPython cfg i s = (s', e)

theorem SubtaskStep.extends {s s' : AgentState} {e : StepEvent} (h : SubtaskStep dec cfg s e s') :
    Extends s.messages s'.messages ∧
      ∀ sent, e.sent = some sent → Extends s.messages sent ∧ Extends sent s'.messages := by
  obtain ⟨i, c, keepRecentSteps, hi, hstep⟩ := h
  have hmessages := step_messages dec.toPython cfg i s
  have hsent := step_sent dec.toPython cfg i s
  rw [hstep] at hmessages hsent
  have hcompacted : Extends s.messages (maybeCompress dec.toPython cfg i.compactor i.save s).state.messages := by
    rw [hi]
    rcases maybeCompress_messages dec.toPython cfg (c.compact dec keepRecentSteps) i.save s with
      hsame | ⟨r, -, -, hr, -, -, -, -, heq⟩
    · rw [hsame]
      exact .refl s.messages
    · rw [heq]
      exact compact_extends dec c keepRecentSteps hr
  have happended := Extends.append (maybeCompress dec.toPython cfg i.compactor i.save s).state.messages e.recorded
  rw [← hmessages] at happended
  refine ⟨hcompacted.trans happended, ?_⟩
  intro sent hs
  rw [hsent sent hs]
  exact ⟨hcompacted, happended⟩

theorem subtaskRun_extends {start s : AgentState} {events : List StepEvent}
    (h : Run (SubtaskStep dec cfg) start s events) :
    Extends start.messages s.messages ∧ ∀ e ∈ events, ∀ sent, e.sent = some sent →
      Extends start.messages sent ∧ Extends sent s.messages := by
  apply Run.invariant (fun s events => Extends start.messages s.messages ∧ ∀ e ∈ events, ∀ sent,
    e.sent = some sent → Extends start.messages sent ∧ Extends sent s.messages) ?_ ?_ h
  · exact ⟨.refl start.messages, by simp⟩
  · rintro s events e s' ⟨hstart, hevents⟩ hstep
    obtain ⟨hnext, hsent⟩ := hstep.extends
    refine ⟨hstart.trans hnext, ?_⟩
    intro e' he' sent hs
    rcases List.mem_append.mp he' with he' | he'
    · obtain ⟨hbefore, hafter⟩ := hevents e' he' sent hs
      exact ⟨hbefore, hafter.trans hnext⟩
    · rw [List.mem_singleton.mp he'] at hs
      obtain ⟨hbefore, hafter⟩ := hsent sent hs
      exact ⟨hstart.trans hbefore, hafter⟩

theorem step_answered {py : Python} {cfg : AgentConfig} {i : StepInput} {compact : Compact} {s : AgentState}
    {r : CompactionResult} (hcompact : i.compactor = some compact)
    (h : compact s.messages cfg.keepFirst cfg.keepLastTurns = .ok r) :
    step py cfg i s = step py cfg { i with compactor := some (fun _ _ _ => .ok r) } s := by
  have hrun : runCompactor py cfg compact i.save s = runCompactor py cfg (fun _ _ _ => .ok r) i.save s := by
    rw [runCompactor, runCompactor, h]
  have hdue : shouldCompact py cfg (some compact) s = shouldCompact py cfg (some (fun _ _ _ => .ok r)) s := rfl
  have hcompress : maybeCompress py cfg i.compactor i.save s =
      maybeCompress py cfg (some (fun _ _ _ => .ok r)) i.save s := by
    unfold maybeCompress
    rw [hcompact, hdue]
    cases shouldCompact py cfg (some fun _ _ _ => .ok r) s with
    | error e => rfl
    | ok due =>
      cases due with
      | false => rfl
      | true => exact hrun
  rw [step, step, query, hcompress]
  rfl

def orderedThemes : List Json := [themeJson "a" 0 1 false (.str "z"), themeJson "b" 2 2 true .null]

theorem orderedThemes_sorted :
    sortThemes [themeJson "b" 2 2 true .null, themeJson "a" 0 1 false (.str "z")] = .ok orderedThemes := by
  apply @sortThemes_eq startOf _ _ (.swap _ _ _)
  · intro t ht
    rcases List.mem_cons.mp ht with rfl | ht
    · rfl
    · rw [List.mem_singleton.mp ht]
      rfl
  · decide

def twoThemesResult (messages : List Message) (kept : Message) : CompactionResult where
  messages := messages.take 2 ++ (messages.drop 2).filter isSubtaskSummary ++ [headed "z", kept]
  kind := .summary
  summary := some "z"
  metadata := [("theme", .bool true), ("n_subtasks", .int 2), ("n_compressed_msgs", .int 2),
    ("n_kept_progress_msgs", .int 1), ("subtasks", .array [])]

theorem twoThemes_compact {messages : List Message} {kept : Message} (keepFirst : ℕ) (keepLastTurns : ℤ)
    (hsteps : (messagesToSteps twoThemesDecoder.toPython (freshMessages messages)).length = 3)
    (hblocks : themeBlocks twoThemesDecoder 3 (freshMessages messages) 30 orderedThemes =
      .ok { messages := [headed "z", kept], compressed := 2, kept := 1 }) :
    SubtaskModelBasedSummarizer.compact twoThemesDecoder ⟨fun _ => .ok twoThemes⟩ 30 messages keepFirst keepLastTurns =
      .ok (twoThemesResult messages kept) := by
  have hanswers : AnswersThemes twoThemesDecoder ⟨fun _ => .ok twoThemes⟩ messages _ :=
    ⟨List.ne_nil_of_length_eq_add_one hsteps, twoThemes_answer _⟩
  have htexts : summaryTexts orderedThemes = .ok ["z"] := rfl
  rcases compact_cases twoThemesDecoder ⟨fun _ => .ok twoThemes⟩ 30 messages keepFirst keepLastTurns with
    ⟨hnone, -⟩ | ⟨themes, hthemes, hr⟩
  · exact absurd hanswers (hnone _)
  · rw [hr, ← hanswers.unique hthemes, themesResult, orderedThemes_sorted, ok_bind, hsteps, hblocks, ok_bind, htexts,
      ok_bind, (splitHeadTail_two messages).1, priorSummaries_eq]
    rfl

def threeStepsConfig : AgentConfig := { compressAtTurns := 1, keepFirst := 2, keepLastTurns := 1 }

def threeStepsInput (compact : Compact) : StepInput where
  compactor := some compact
  reply := .ok { role := .assistant, content := some (.text "c") }
  appended := [{ role := .tool, content := some (.text "t") }]

def twoThemesStep (s : AgentState) (kept : Message) : AgentState × StepEvent :=
  step twoThemesDecoder.toPython threeStepsConfig (threeStepsInput fun _ _ _ => .ok (twoThemesResult s.messages kept)) s

theorem twoThemesStep_step {s : AgentState} {kept : Message}
    (hsteps : (messagesToSteps twoThemesDecoder.toPython (freshMessages s.messages)).length = 3)
    (hblocks : themeBlocks twoThemesDecoder 3 (freshMessages s.messages) 30 orderedThemes =
      .ok { messages := [headed "z", kept], compressed := 2, kept := 1 }) :
    SubtaskStep twoThemesDecoder threeStepsConfig s (twoThemesStep s kept).2 (twoThemesStep s kept).1 :=
  ⟨threeStepsInput (SubtaskModelBasedSummarizer.compact twoThemesDecoder ⟨fun _ => .ok twoThemes⟩ 30), _, 30, rfl,
    step_answered rfl (twoThemes_compact 2 1 hsteps hblocks)⟩

def compactedOnce : AgentState :=
  (twoThemesStep { messages := threeSteps } { role := .assistant, content := some (.text "b") }).1

def compactedTwice : AgentState :=
  (twoThemesStep compactedOnce { role := .tool, content := some (.text "t") }).1

theorem subtaskRun_extends_twice : compactedOnce.messages.countP isSubtaskSummary = 1 ∧
    compactedTwice.messages.countP isSubtaskSummary = 2 ∧
      Extends threeSteps compactedTwice.messages ∧ Extends compactedOnce.messages compactedTwice.messages := by
  have hfirst := @twoThemesStep_step { messages := threeSteps } _ rfl rfl
  have hsecond := @twoThemesStep_step compactedOnce { role := .tool, content := some (.text "t") } rfl rfl
  refine ⟨by decide +kernel, by decide +kernel, ?_, ?_⟩
  · exact (subtaskRun_extends twoThemesDecoder threeStepsConfig (.snoc (.snoc .nil hfirst) hsecond)).1
  · exact (subtaskRun_extends twoThemesDecoder threeStepsConfig (.snoc .nil hsecond)).1

end TokensThatSuffice
