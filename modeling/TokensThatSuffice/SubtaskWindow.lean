import TokensThatSuffice.SubtaskPlans

namespace TokensThatSuffice

section Sizes

variable (dec : Decoder) {fresh : List Message}

theorem length_recentMessages_le (fresh : List Message) {start : ℤ} (hstart : 0 ≤ start) (stop : ℤ) :
    (recentMessages fresh start stop).length ≤ (stop + 1 - start).toNat := by
  rw [recentMessages, List.length_drop, List.length_take]
  omega

theorem countP_markerBlock (start fold : ℤ) (text : String) :
    (markerBlock start fold text).countP StepBlock.isVerbatim = 0 ∧ (markerBlock start fold text).length ≤ 1 := by
  rw [markerBlock]
  split_ifs
  · exact ⟨rfl, le_rfl⟩
  · exact ⟨rfl, Nat.zero_le 1⟩

theorem recentBlocks_marker_sizes (fresh : List Message) {start : ℤ} (hstart : 0 ≤ start) (stop first fold : ℤ)
    (text : String) {keep : ℕ} (hwindow : stop + 1 - start ≤ keep) :
    (recentBlocks fresh start stop ++ markerBlock first fold text).countP StepBlock.isVerbatim ≤ keep ∧
      (recentBlocks fresh start stop ++ markerBlock first fold text).length ≤
        (recentBlocks fresh start stop ++ markerBlock first fold text).countP StepBlock.isVerbatim + 1 := by
  have hlen := length_recentMessages_le fresh hstart stop
  have hblocks : (recentBlocks fresh start stop).length = (recentMessages fresh start stop).length := by
    rw [recentBlocks, List.length_map, List.length_zipIdx]
  obtain ⟨hnone, hone⟩ := countP_markerBlock first fold text
  rw [List.countP_append, List.length_append, (recentBlocks_counts fresh start stop).1, hnone, hblocks]
  constructor <;> omega

theorem boundsOf_nonneg (hpos : 0 < (stepMessages fresh).length) {t : Json} (h : UsableTheme t) :
    0 ≤ (boundsOf (stepMessages fresh).length t).1 ∧ 0 ≤ (boundsOf (stepMessages fresh).length t).2 := by
  obtain ⟨h1, h2, -, -⟩ := themeBounds_bounds hpos (h.boundsOf_eq _)
  exact ⟨h1, h2⟩

theorem themePlan_sizes (hpos : 0 < (stepMessages fresh).length) {t : Json} (h : UsableTheme t) (keep : ℕ) :
    (themePlan dec fresh keep t).countP StepBlock.isVerbatim ≤ (if keepsSteps t then keep else 0) ∧
      (themePlan dec fresh keep t).length ≤ (themePlan dec fresh keep t).countP StepBlock.isVerbatim + 1 := by
  obtain ⟨h1, h2⟩ := boundsOf_nonneg hpos h
  rw [themePlan]
  by_cases hkeep : keepsSteps t = true
  · rw [if_pos hkeep, if_pos hkeep]
    apply recentBlocks_marker_sizes
    · rw [folded]
      omega
    · rw [folded]
      omega
  · rw [if_neg hkeep, if_neg hkeep]
    exact ⟨le_rfl, le_rfl⟩

theorem flatMap_themePlan_sizes (hpos : 0 < (stepMessages fresh).length) {themes : List Json}
    (h : ∀ t ∈ themes, UsableTheme t) (keep : ℕ) :
    (themes.flatMap (themePlan dec fresh keep)).countP StepBlock.isVerbatim ≤ keep * themes.countP keepsSteps ∧
      (themes.flatMap (themePlan dec fresh keep)).length ≤
        (themes.flatMap (themePlan dec fresh keep)).countP StepBlock.isVerbatim + themes.length := by
  induction themes with
  | nil => exact ⟨Nat.zero_le _, le_rfl⟩
  | cons t ts ih =>
    obtain ⟨hcount, hlen⟩ := themePlan_sizes dec hpos (h t (by simp)) keep
    obtain ⟨hcounts, hlens⟩ := ih fun s hs => h s (List.mem_cons_of_mem t hs)
    rw [List.flatMap_cons, List.countP_append, List.length_append, List.countP_cons, List.length_cons, Nat.mul_add]
    constructor
    · split_ifs at hcount ⊢ <;> omega
    · omega

def fallbacks (themes : List Json) : ℕ := if themes.any isCurrent then 0 else 1

theorem fallbackPlan_sizes (hpos : 0 < (stepMessages fresh).length) {themes : List Json}
    (h : ∀ t ∈ themes, UsableTheme t) {keep : ℕ} (hkeep : 1 ≤ keep) :
    (fallbackPlan fresh keep themes).countP StepBlock.isVerbatim ≤ keep * fallbacks themes ∧
      (fallbackPlan fresh keep themes).length ≤
        (fallbackPlan fresh keep themes).countP StepBlock.isVerbatim + fallbacks themes := by
  rw [fallbackPlan, fallbacks]
  split_ifs with hcurrent
  · exact ⟨Nat.zero_le _, le_rfl⟩
  · cases hlast : themes.getLast? with
    | none => exact ⟨Nat.zero_le _, Nat.zero_le _⟩
    | some t =>
      obtain ⟨h1, h2⟩ := boundsOf_nonneg hpos (h t (List.mem_of_getLast? hlast))
      rw [Option.toList_some, List.flatMap_singleton, Nat.mul_one, lastPlan]
      apply recentBlocks_marker_sizes
      · omega
      · omega

end Sizes

section Bound

variable {dec : Decoder}

theorem Planned.drop {keepRecentSteps : ℤ} {messages : List Message} {themes : List Json} {plan : List StepBlock}
    {r : CompactionResult} (h : Planned dec keepRecentSteps messages themes plan r) (hlen : 2 ≤ messages.length) :
    r.messages.drop 2 = priorSummaries messages ++ plan.map StepBlock.message := by
  rw [h.history, List.append_assoc, List.drop_left' (List.length_take_of_le hlen)]

theorem Planned.filter {keepRecentSteps : ℤ} {messages : List Message} {themes : List Json} {plan : List StepBlock}
    {r : CompactionResult} (h : Planned dec keepRecentSteps messages themes plan r) (hlen : 2 ≤ messages.length) :
    (r.messages.drop 2).filter (!isSubtaskSummary ·) = keptMessages plan := by
  have hprior : (priorSummaries messages).filter (!isSubtaskSummary ·) = [] := by
    rw [priorSummaries, List.filter_filter, List.filter_eq_nil_iff]
    intro m _
    simp
  rw [h.drop hlen, List.filter_append, hprior, List.nil_append, filter_message h.placed]

structure WindowBound (keep : ℕ) (messages : List Message) (themes : List Json) (r : CompactionResult) : Prop where
  verbatim : (r.messages.drop 2).countP (!isSubtaskSummary ·) ≤
    keep * (themes.countP keepsSteps + fallbacks themes)
  history : r.messages.length ≤ 2 + (priorSummaries messages).length +
    keep * (themes.countP keepsSteps + fallbacks themes) + themes.length + fallbacks themes

theorem compact_window {c : SubtaskModelBasedSummarizer} {keep : ℕ} (hkeep : 1 ≤ keep) {messages : List Message}
    {keepFirst : ℕ} {keepLastTurns : ℤ} {themes : List Json} (hthemes : AnswersThemes dec c messages themes)
    {r : CompactionResult} (h : c.compact dec keep messages keepFirst keepLastTurns = .ok r) :
    WindowBound keep messages themes r := by
  obtain ⟨husable, plan, hplanned⟩ := compact_planned hthemes h
  obtain ⟨sorted, hsorted, hplan⟩ := hplanned.sorted
  have hperm := sortThemes_perm hsorted
  have husable' : ∀ t ∈ sorted, UsableTheme t := fun t ht => husable t (hperm.mem_iff.mp ht)
  have hfallbacks : fallbacks sorted = fallbacks themes := by
    rw [fallbacks, fallbacks, hperm.any_eq]
  have htwo := hthemes.two_le
  obtain ⟨hcount, hlen⟩ := flatMap_themePlan_sizes dec hthemes.pos husable' keep
  obtain ⟨hcount', hlen'⟩ := fallbackPlan_sizes hthemes.pos husable' hkeep
  rw [hperm.countP_eq] at hcount
  rw [hperm.length_eq] at hlen
  rw [hfallbacks] at hcount' hlen'
  have hverbatim : plan.countP StepBlock.isVerbatim ≤ keep * (themes.countP keepsSteps + fallbacks themes) := by
    rw [hplan, stepPlan, List.countP_append, Nat.mul_add]
    omega
  have hblocks : plan.length ≤ plan.countP StepBlock.isVerbatim + themes.length + fallbacks themes := by
    rw [hplan, stepPlan, List.countP_append, List.length_append]
    omega
  constructor
  · rw [List.countP_eq_length_filter, hplanned.filter htwo, ← countP_isVerbatim]
    exact hverbatim
  · rw [hplanned.history]
    simp only [List.length_append, List.length_take, List.length_map]
    omega

theorem compact_returns {c : SubtaskModelBasedSummarizer} {messages : List Message} {themes sorted : List Json}
    (hthemes : AnswersThemes dec c messages themes) (hsorted : sortThemes themes = .ok sorted)
    (husable : ∀ t ∈ themes, UsableTheme t) (keepRecentSteps : ℤ) (keepFirst : ℕ) (keepLastTurns : ℤ) :
    ∃ r, c.compact dec keepRecentSteps messages keepFirst keepLastTurns = .ok r := by
  rw [compact_returns_iff]
  intro themes' hthemes'
  rw [← hthemes.unique hthemes']
  exact ⟨(sortThemes_ok_iff themes).mp ⟨sorted, hsorted⟩, husable⟩

end Bound

section Listed

def emptyObject : String := "\x7b\x7d"

def listedDecoder (themes : List Json) : Decoder where
  toPython := { asciiPython with
    loads := fun s => if s = emptyObject then some (.object [("subtasks", .array themes)]) else none }
  loadsError _ := ⟨"Expecting value", true⟩

def listedSummarizer : SubtaskModelBasedSummarizer := ⟨fun _ => .ok emptyObject⟩

theorem listed_answers (t : Json) (ts : List Json) {messages : List Message}
    (h : stepMessages (freshMessages messages) ≠ []) :
    AnswersThemes (listedDecoder (t :: ts)) listedSummarizer messages (t :: ts) := by
  constructor
  · rw [← List.length_pos_iff, length_messagesToSteps]
    exact List.length_pos_iff.mpr h
  · rfl

theorem themeJson_isTheme (name : String) (start stop : ℕ) (inProgress : Bool) (summary : Json) :
    IsTheme start stop inProgress summary (themeJson name start stop inProgress summary) :=
  ⟨_, rfl, rfl, rfl, rfl, rfl⟩

def bothCurrent : List Json := [themeJson "a" 0 2 true .null, themeJson "b" 1 2 true .null]

theorem threeSteps_fresh : stepMessages (freshMessages threeSteps) = threeSteps.drop 2 := rfl

theorem bothCurrent_answers : AnswersThemes (listedDecoder bothCurrent) listedSummarizer threeSteps bothCurrent :=
  listed_answers _ _ (by rw [threeSteps_fresh]; exact List.cons_ne_nil _ _)

theorem bothCurrent_sorted : sortThemes bothCurrent = .ok bothCurrent := by
  have hfirst := (themeJson_isTheme "a" 0 2 true .null).startOf_eq
  have hsecond := (themeJson_isTheme "b" 1 2 true .null).startOf_eq
  apply @sortThemes_eq startOf _ _ (.refl _)
  · simp [bothCurrent, hfirst.2, hsecond.2]
  · simp [bothCurrent, hfirst.1, hsecond.1]

theorem bothCurrent_compact :
    ∃ r, listedSummarizer.compact (listedDecoder bothCurrent) (3 : ℕ) threeSteps 2 0 = .ok r := by
  apply compact_returns bothCurrent_answers bothCurrent_sorted
  intro t ht
  rcases List.mem_cons.mp ht with rfl | ht
  · exact (themeJson_isTheme _ _ _ _ _).usable
  · rw [List.mem_singleton.mp ht]
    exact (themeJson_isTheme _ _ _ _ _).usable

theorem compact_window_bothCurrent :
    ∃ r, listedSummarizer.compact (listedDecoder bothCurrent) (3 : ℕ) threeSteps 2 0 = .ok r ∧
      WindowBound 3 threeSteps bothCurrent r := by
  obtain ⟨r, hr⟩ := bothCurrent_compact
  exact ⟨r, hr, compact_window (by decide) bothCurrent_answers hr⟩

theorem compact_exceeds_window :
    ¬ ∀ (dec : Decoder) (c : SubtaskModelBasedSummarizer) (keep : ℕ) (messages : List Message) (themes : List Json)
      (r : CompactionResult), 1 ≤ keep → AnswersThemes dec c messages themes →
        c.compact dec keep messages 2 0 = .ok r →
          (r.messages.drop 2).countP (!isSubtaskSummary ·) ≤ keep ∧
            r.messages.length ≤ 2 + (priorSummaries messages).length + keep + 2 * themes.length + 1 := by
  intro h
  obtain ⟨r, hr⟩ := bothCurrent_compact
  have hcount := (h _ _ _ _ _ r (by decide) bothCurrent_answers hr).1
  obtain ⟨-, plan, hplanned⟩ := compact_planned bothCurrent_answers hr
  obtain ⟨sorted, hsorted, hplan⟩ := hplanned.sorted
  rw [bothCurrent_sorted] at hsorted
  cases hsorted
  have hfive : plan.countP StepBlock.isVerbatim = 5 := by
    rw [hplan]
    rfl
  rw [List.countP_eq_length_filter, hplanned.filter (by decide), ← countP_isVerbatim, hfive] at hcount
  omega

end Listed

end TokensThatSuffice
