import TokensThatSuffice.AgentRuns

namespace TokensThatSuffice

open Runs

variable (py : Python) (cfg : AgentConfig)

theorem query_sent {i : StepInput} {s : AgentState} {sent : List Message}
    (h : (query py cfg i s).sent = some sent) :
    (maybeCompress py cfg i.compactor i.save s).raised = none ∧
      sent = (maybeCompress py cfg i.compactor i.save s).state.messages := by
  unfold query at h
  dsimp only at h
  split at h
  · cases h
  · next hraised =>
    split at h
    · cases h
    · exact ⟨hraised, (Option.some.inj h).symm⟩

theorem shouldCompact_turns {T : ℕ} (hturns : cfg.compressAtTurns = T) (hpos : 0 < T) (compact : Compact)
    (s : AgentState) :
    shouldCompact py cfg (some compact) s =
      .ok (decide (cfg.keepFirst + 2 < s.messages.length ∧ T ≤ toolCount s.messages)) := by
  unfold shouldCompact overBudget
  rw [if_neg (by simp)]
  by_cases hlen : s.messages.length ≤ cfg.keepFirst + 2
  · have hnot : ¬ (cfg.keepFirst + 2 < s.messages.length ∧ T ≤ toolCount s.messages) := by omega
    rw [if_pos hlen, decide_eq_false hnot]
  · have hT : 0 < cfg.compressAtTurns := by omega
    have hlt : cfg.keepFirst + 2 < s.messages.length := by omega
    rw [if_neg hlen, if_pos hT, hturns]
    simp [hlt]

theorem toolCount_opened {system user : Message} {ps : List Pair} (j : ℕ) :
    toolCount ((opened system user ps).take (2 + 2 * j)) = toolCount [system, user] + min j ps.length := by
  rw [take_opened, opened, toolCount_cons, toolCount_cons, toolCount_pairMessages, List.length_take,
    toolCount_cons, toolCount_cons, toolCount_nil]
  omega

theorem compacted_toolCount {strategy : Strategy} (hstrategy : ∀ c, strategy ≠ .mask c)
    {system user : Message} {ps : List Pair} {j n T : ℕ} {out : List Message}
    (hbound : toolCount ((opened system user ps).take (2 + 2 * j)) + n + 2 ≤ T)
    (hdue : T ≤ toolCount (opened system user ps))
    (h : CompactsTo strategy (opened system user ps) (2 + 2 * j) n out) :
    out.length < (opened system user ps).length ∧ toolCount out < T := by
  obtain ⟨mid, rfl, hmid⟩ := compactsTo_opened system user h
  obtain ⟨hone, -⟩ := hmid hstrategy
  have hkept : ((ps.drop j).rtake n).length ≤ n := by
    rw [List.rtake, List.length_drop]
    omega
  rw [toolCount_opened] at hbound
  simp only [opened, toolCount_cons, toolCount_pairMessages, toolCount_nil] at hbound hdue
  simp only [opened, List.length_cons, length_pairMessages, toolCount_cons, toolCount_pairMessages,
    List.length_append, List.length_take]
  constructor <;> omega

theorem sent_toolCount_lt {strategy : Strategy} (hstrategy : strategy = .truncation ∨ strategy = .model)
    {system user : Message} {j n T : ℕ} (hkeep : cfg.keepFirst = 2 + 2 * j) (hlast : cfg.keepLastTurns = n)
    (hturns : cfg.compressAtTurns = T) {s : AgentState} {events : List StepEvent}
    (h : Run (TurnStep py cfg strategy) { messages := [system, user] } s events)
    (hbound : toolCount (s.messages.take cfg.keepFirst) + n + 2 ≤ T) {i : StepInput} {compact : Compact}
    (hi : i.compactor = some compact) (ha : strategy.Allows py compact) {sent : List Message}
    (hsent : (query py cfg i s).sent = some sent) : toolCount sent < T := by
  have hnomask : ∀ c, strategy ≠ .mask c := by
    rintro c rfl
    rcases hstrategy with h | h <;> cases h
  obtain ⟨ps, hps⟩ := turnRun_pairs py cfg hkeep hlast h
  obtain ⟨hraised, rfl⟩ := query_sent py cfg hsent
  rw [hi] at hraised ⊢
  rw [hps, hkeep] at hbound
  have hdue := shouldCompact_turns py cfg hturns (by omega) compact s
  have hcases := maybeCompress_cases py cfg compact i.save s
  generalize maybeCompress py cfg (some compact) i.save s = c at hraised hcases ⊢
  -- a due compaction shortens the history, so neither the length guard nor the no-reduction guard stops it
  cases hcases with
  | idle hidle =>
    rw [hidle] at hdue
    by_contra hge
    have hge' : T ≤ toolCount (opened system user ps) := hps ▸ Nat.le_of_not_lt hge
    have hlong : cfg.keepFirst + 2 < s.messages.length := by
      rw [toolCount_opened] at hbound
      simp only [opened, toolCount_cons, toolCount_pairMessages, toolCount_nil] at hbound hge'
      rw [hps, hkeep, opened, List.length_cons, List.length_cons, length_pairMessages]
      omega
    rw [hps] at hlong hdue
    simp [hlong, hge'] at hdue
  | undecided hundecided => cases hraised
  | unsized _ hsize => cases hraised
  | failed e _ hsize => cases hraised
  | @compacted r before after htrue hsize hr hafter =>
    rw [htrue, hps] at hdue
    have hover : T ≤ toolCount (opened system user ps) :=
      (of_decide_eq_true (Except.ok.inj hdue).symm).2
    have hto := Strategy.compact_cases ha hr
    rw [hps, hkeep, hlast] at hto
    obtain ⟨hshort, hcount⟩ := compacted_toolCount hnomask hbound hover hto
    rw [← hps] at hshort
    rcases acceptCompaction_cases cfg i.save s r before after with
      ⟨hlen, -, -⟩ | ⟨-, -, ⟨e, he, -⟩ | ⟨-, heq⟩⟩
    · apply absurd hlen
      exact Nat.not_le_of_lt hshort
    · dsimp only at hraised
      rw [he] at hraised
      cases hraised
    · dsimp only
      rwa [heq]

theorem sent_toolCount_lt_due :
    toolCount (bashState 3).messages = 3 ∧
      ∃ sent, (query asciiPython threeTurnConfig bashInput (bashState 3)).sent = some sent ∧ toolCount sent < 3 := by
  refine ⟨rfl, _, rfl, ?_⟩
  have hrun := bashRun 3 fun m hm => bashEvent_recorded m (by omega)
  exact sent_toolCount_lt (j := 0) (n := 1) (T := 3) (i := bashInput) asciiPython threeTurnConfig (.inr rfl) rfl rfl
    rfl hrun (by decide) rfl ⟨fixedSummarizer, rfl⟩ rfl

end TokensThatSuffice
