import TokensThatSuffice.SubtaskOrder

namespace TokensThatSuffice

def hasStepRole (m : Message) : Bool := m.role = .user || m.role = .assistant || m.role = .tool

def StepBlock.replacedSteps (fresh : List Message) : StepBlock → List Message
  | verbatim _ _ => []
  | standing a b _ => recentMessages fresh a b

def replacedSteps (fresh : List Message) (plan : List StepBlock) : List Message :=
  plan.flatMap (StepBlock.replacedSteps fresh)

section Steps

def takenForTask (seenTask : Bool) (messages : List Message) : List Message :=
  if seenTask then [] else (messages.find? (·.role = .user)).toList

theorem stepMessagesFrom_perm (seenTask : Bool) (messages : List Message) :
    (messages.filter hasStepRole).Perm (takenForTask seenTask messages ++ stepMessagesFrom seenTask messages) := by
  -- a message that is neither a step nor a user message leaves the rest as it is
  have hskip (m : Message) (rest : List Message) (seen : Bool) (hm : m.role ≠ .user) :
      takenForTask seen (m :: rest) = takenForTask seen rest := by
    rw [takenForTask, takenForTask, List.find?_cons_of_neg (by simpa using hm)]
  have hstep (m : Message) (rest steps : List Message) (seen : Bool)
      (ih : (rest.filter hasStepRole).Perm (takenForTask seen rest ++ steps)) :
      (m :: rest.filter hasStepRole).Perm (takenForTask seen rest ++ m :: steps) :=
    (ih.cons m).trans List.perm_middle.symm
  induction messages generalizing seenTask with
  | nil => cases seenTask <;> exact .nil
  | cons m rest ih =>
    rw [stepMessagesFrom]
    cases hrole : m.role with
    | user =>
      have hcounts : hasStepRole m = true := by rw [hasStepRole, hrole]; rfl
      rw [List.filter_cons_of_pos hcounts]
      cases seenTask with
      | true => exact (ih true).cons m
      | false =>
        have hfirst : takenForTask false (m :: rest) = [m] := by
          rw [takenForTask, List.find?_cons_of_pos (by simpa using hrole)]
          rfl
        rw [hfirst]
        exact (ih true).cons m
    | assistant =>
      have hcounts : hasStepRole m = true := by rw [hasStepRole, hrole]; rfl
      rw [List.filter_cons_of_pos hcounts, hskip m rest seenTask (by rw [hrole]; decide)]
      exact hstep m rest _ seenTask (ih seenTask)
    | tool =>
      have hcounts : hasStepRole m = true := by rw [hasStepRole, hrole]; rfl
      rw [List.filter_cons_of_pos hcounts, hskip m rest seenTask (by rw [hrole]; decide)]
      exact hstep m rest _ seenTask (ih seenTask)
    | system =>
      have hcounts : ¬ hasStepRole m = true := by rw [hasStepRole, hrole]; decide
      rw [List.filter_cons_of_neg hcounts, hskip m rest seenTask (by rw [hrole]; decide)]
      exact ih seenTask
    | other name =>
      have hcounts : ¬ hasStepRole m = true := by rw [hasStepRole, hrole]; simp
      rw [List.filter_cons_of_neg hcounts, hskip m rest seenTask (by rw [hrole]; simp)]
      exact ih seenTask

end Steps

section Replaced

variable (dec : Decoder) {fresh : List Message} (keepRecentSteps : ℤ)

theorem replacedSteps_append (p q : List StepBlock) :
    replacedSteps fresh (p ++ q) = replacedSteps fresh p ++ replacedSteps fresh q := List.flatMap_append

theorem replacedSteps_recent (start stop : ℤ) (first : ℕ) {fold : ℤ} (hfold : 0 ≤ fold) (text : String) :
    replacedSteps fresh (recentBlocks fresh start stop ++ markerBlock first fold text) =
      ((stepMessages fresh).take (first + fold).toNat).drop first := by
  have hnone : replacedSteps fresh (recentBlocks fresh start stop) = [] := by
    rw [replacedSteps, List.flatMap_eq_nil_iff]
    intro b hb
    obtain ⟨p, -, rfl⟩ := List.mem_map.mp hb
    rfl
  rw [replacedSteps_append, hnone, List.nil_append, markerBlock]
  split_ifs with hpos
  · have htake : ((first : ℤ) + fold - 1 + 1).toNat = (first + fold).toNat := by omega
    rw [replacedSteps, List.flatMap_singleton, StepBlock.replacedSteps, recentMessages, htake, Int.toNat_natCast]
  · have htake : ((first : ℤ) + fold).toNat = first := by omega
    rw [htake, List.drop_eq_nil_of_le (by rw [List.length_take]; omega)]
    rfl

theorem completed_replaces {a b : ℕ} {ts : List Json} {zs : List String} (h : CompletedThemes a ts zs b)
    (hb : b ≤ (stepMessages fresh).length) :
    keptMessages (ts.flatMap (themePlan dec fresh keepRecentSteps)) = [] ∧
      replacedSteps fresh (ts.flatMap (themePlan dec fresh keepRecentSteps)) =
        ((stepMessages fresh).take b).drop a := by
  induction h with
  | nil a =>
    refine ⟨rfl, ?_⟩
    rw [List.drop_eq_nil_of_le (by rw [List.length_take]; omega)]
    rfl
  | @cons a stop b t z ts zs theme said order rest ih =>
    have hle := rest.le
    obtain ⟨hkept, hreplaced⟩ := ih hb
    obtain ⟨text, hplan⟩ := themePlan_summarized dec keepRecentSteps theme said order
      (show stop < (stepMessages fresh).length by omega)
    have hafter : a ≤ stop + 1 := by omega
    have hone : replacedSteps fresh [.standing a stop text] = ((stepMessages fresh).take (stop + 1)).drop a := by
      have htake : ((stop : ℤ) + 1).toNat = stop + 1 := by omega
      rw [replacedSteps, List.flatMap_singleton, StepBlock.replacedSteps, recentMessages, htake, Int.toNat_natCast]
    rw [List.flatMap_cons, hplan, keptMessages_append, hkept, replacedSteps_append, hreplaced, hone,
      drop_take_append (stepMessages fresh) hafter hle (hle.trans hb)]
    exact ⟨rfl, rfl⟩

theorem contract_perm {lastStart : ℕ} {completed : List Json} {summaries : List String} {last : Json}
    (hcompleted : CompletedThemes 0 completed summaries lastStart)
    (hlast : lastStart < (stepMessages fresh).length)
    (hcurrent : IsTheme lastStart ((stepMessages fresh).length - 1) true .null last) :
    (keptMessages (stepPlan dec fresh keepRecentSteps (completed ++ [last])) ++
      replacedSteps fresh (stepPlan dec fresh keepRecentSteps (completed ++ [last]))).Perm (stepMessages fresh) := by
  obtain ⟨text, hplan⟩ := stepPlan_contract dec keepRecentSteps completed hlast hcurrent
  obtain ⟨hkept, hreplaced⟩ := completed_replaces dec keepRecentSteps hcompleted hlast.le
  have hfold : 0 ≤ folded keepRecentSteps lastStart ((stepMessages fresh).length - 1 : ℕ) := by
    rw [folded]
    omega
  rw [hplan]
  generalize folded keepRecentSteps lastStart ((stepMessages fresh).length - 1 : ℕ) = fold at hfold ⊢
  have hstop : (((stepMessages fresh).length - 1 : ℕ) + 1 : ℤ).toNat = (stepMessages fresh).length := by omega
  have hstart : lastStart ≤ (lastStart + fold).toNat := by omega
  have hjoined : (stepMessages fresh).take lastStart ++
      ((stepMessages fresh).take (lastStart + fold).toNat).drop lastStart =
        (stepMessages fresh).take (lastStart + fold).toNat := by
    have hsplit := drop_take_append (stepMessages fresh) (Nat.zero_le lastStart) hstart hlast.le
    rw [List.drop_zero, List.drop_zero] at hsplit
    exact hsplit.symm
  rw [keptMessages_append, hkept, List.nil_append, keptMessages_recent, recentMessages, hstop, List.take_length,
    replacedSteps_append, hreplaced, replacedSteps_recent _ _ _ hfold, List.drop_zero, hjoined]
  exact List.perm_append_comm.trans (.of_eq (List.take_append_drop _ _))

end Replaced

section Accounted

variable {dec : Decoder}

def Accounted (messages : List Message) (plan : List StepBlock) (r : CompactionResult) : Prop :=
  ((messages.drop 2).filter hasStepRole).Subperm
    (r.messages.drop 2 ++ replacedSteps (freshMessages messages) plan)

theorem region_perm (messages : List Message) :
    ((messages.drop 2).filter hasStepRole).Perm ((priorSummaries messages).filter hasStepRole ++
      (takenForTask false (freshMessages messages) ++ stepMessages (freshMessages messages))) := by
  have hsplit := (List.filter_append_perm isSubtaskSummary (messages.drop 2)).filter hasStepRole
  rw [← priorSummaries_eq, ← freshMessages_eq, List.filter_append] at hsplit
  exact hsplit.symm.trans ((stepMessagesFrom_perm false _).append_left _)

theorem message_perm (plan : List StepBlock) :
    ∃ headers, (∀ m ∈ headers, isSubtaskSummary m = true) ∧
      (plan.map StepBlock.message).Perm (headers ++ keptMessages plan) := by
  induction plan with
  | nil => exact ⟨[], by simp, .nil⟩
  | cons b plan ih =>
    obtain ⟨headers, hheaders, hperm⟩ := ih
    cases b with
    | verbatim i m => exact ⟨headers, hheaders, (hperm.cons m).trans List.perm_middle.symm⟩
    | standing first last text =>
      refine ⟨headed text :: headers, ?_, hperm.cons (headed text)⟩
      intro m hm
      rcases List.mem_cons.mp hm with rfl | hm
      · exact headed_isSubtaskSummary text
      · exact hheaders m hm

theorem takenForTask_eq_nil (messages : List Message) :
    takenForTask false messages = [] ↔ ∀ m ∈ messages, m.role ≠ .user := by
  rw [takenForTask, if_neg Bool.false_ne_true, Option.toList_eq_nil_iff, List.find?_eq_none]
  simp only [decide_eq_true_eq, ne_eq]

theorem takenForTask_fresh {messages : List Message} {m : Message}
    (h : m ∈ takenForTask false (freshMessages messages)) : isSubtaskSummary m = false := by
  rw [takenForTask, if_neg Bool.false_ne_true, Option.mem_toList] at h
  simpa using (List.mem_filter.mp (List.mem_of_find?_eq_some h)).2

theorem Planned.returned_perm {keepRecentSteps : ℤ} {messages : List Message} {themes : List Json}
    {plan : List StepBlock} {r : CompactionResult} (h : Planned dec keepRecentSteps messages themes plan r)
    (hlen : 2 ≤ messages.length)
    (hsteps : (keptMessages plan ++ replacedSteps (freshMessages messages) plan).Perm
      (stepMessages (freshMessages messages))) :
    ∃ headers, (∀ m ∈ headers, isSubtaskSummary m = true) ∧
      (r.messages.drop 2 ++ replacedSteps (freshMessages messages) plan).Perm
        (priorSummaries messages ++ (headers ++ stepMessages (freshMessages messages))) := by
  obtain ⟨headers, hheaders, hperm⟩ := message_perm plan
  refine ⟨headers, hheaders, ?_⟩
  rw [h.drop hlen, List.append_assoc]
  apply List.Perm.append_left
  have hblocks := hperm.append_right (replacedSteps (freshMessages messages) plan)
  rw [List.append_assoc] at hblocks
  exact hblocks.trans (hsteps.append_left headers)

theorem Planned.accounted_iff {keepRecentSteps : ℤ} {messages : List Message} {themes : List Json}
    {plan : List StepBlock} {r : CompactionResult} (h : Planned dec keepRecentSteps messages themes plan r)
    (hlen : 2 ≤ messages.length)
    (hsteps : (keptMessages plan ++ replacedSteps (freshMessages messages) plan).Perm
      (stepMessages (freshMessages messages))) :
    Accounted messages plan r ↔ ∀ m ∈ freshMessages messages, m.role ≠ .user := by
  obtain ⟨headers, hheaders, hreturned⟩ := h.returned_perm hlen hsteps
  rw [Accounted, ← takenForTask_eq_nil, (region_perm messages).subperm_right, hreturned.subperm_left]
  constructor
  · intro hsub
    -- only the steps are not summaries on the right, so nothing is left there for the message taken for the task
    have hcount := hsub.countP_le (!isSubtaskSummary ·)
    have hnone : headers.countP (!isSubtaskSummary ·) = 0 := by
      rw [List.countP_eq_zero]
      intro m hm
      simp [hheaders m hm]
    have hprior : (priorSummaries messages).countP (!isSubtaskSummary ·) = 0 := by
      rw [List.countP_eq_zero, priorSummaries]
      intro m hm
      simp [(List.mem_filter.mp hm).2]
    have htask : (takenForTask false (freshMessages messages)).countP (!isSubtaskSummary ·) =
        (takenForTask false (freshMessages messages)).length := by
      rw [List.countP_eq_length]
      intro m hm
      rw [takenForTask_fresh hm]
      rfl
    simp only [List.countP_append, hnone, hprior, htask] at hcount
    exact List.length_eq_zero_iff.mp (by omega)
  · intro htask
    rw [htask, List.nil_append]
    exact List.filter_sublist.subperm.append (List.sublist_append_right _ _).subperm

theorem compact_accounted {c : SubtaskModelBasedSummarizer} (keepRecentSteps : ℤ) {messages : List Message}
    (keepFirst : ℕ) (keepLastTurns : ℤ) {themes : List Json} {summaries : List String} {lastStart : ℕ} {last : Json}
    (hthemes : AnswersThemes dec c messages themes)
    (hcontract : ContractA (messagesToSteps dec.toPython (freshMessages messages)).length themes summaries
      lastStart last) :
    ∃ r plan, c.compact dec keepRecentSteps messages keepFirst keepLastTurns = .ok r ∧
      Planned dec keepRecentSteps messages themes plan r ∧
      (Accounted messages plan r ↔ ∀ m ∈ freshMessages messages, m.role ≠ .user) := by
  rw [length_messagesToSteps] at hcontract
  obtain ⟨completed, r, hcompleted, hr, hplanned⟩ :=
    compact_planned_contract keepRecentSteps keepFirst keepLastTurns hthemes hcontract
  have hsteps := contract_perm dec keepRecentSteps hcompleted hcontract.nonempty hcontract.current
  exact ⟨r, _, hr, hplanned, hplanned.accounted_iff hthemes.two_le hsteps⟩

theorem compact_accounted_agentOnly :
    ∃ r plan, listedSummarizer.compact (listedDecoder oneCurrent) 1 threeSteps 2 0 = .ok r ∧
      Planned (listedDecoder oneCurrent) 1 threeSteps oneCurrent plan r ∧ Accounted threeSteps plan r := by
  obtain ⟨r, plan, hr, hplanned, hiff⟩ := compact_accounted 1 2 0 oneCurrent_answers oneCurrent_contract
  refine ⟨r, plan, hr, hplanned, hiff.mpr ?_⟩
  have hagent : ∀ m ∈ threeSteps.drop 2, m.role ≠ .user := by
    simp [threeSteps]
  exact hagent

def formatErrorRun : List Message :=
  [⟨.system, some (.text "s"), [], none, none, none⟩, ⟨.user, some (.text "u"), [], none, none, none⟩,
    ⟨.assistant, some (.text "a"), [], none, none, none⟩, ⟨.user, some (.text "f"), [], none, none, none⟩,
    ⟨.assistant, some (.text "b"), [], none, none, none⟩]

def twoStepTheme : Json := themeJson "a" 0 1 true .null

theorem compact_loses_feedback :
    ¬ ∀ (dec : Decoder) (c : SubtaskModelBasedSummarizer) (keepRecentSteps : ℤ) (messages : List Message)
      (themes : List Json) (summaries : List String) (lastStart : ℕ) (last : Json),
        AnswersThemes dec c messages themes →
        ContractA (messagesToSteps dec.toPython (freshMessages messages)).length themes summaries lastStart last →
          ∃ r plan, c.compact dec keepRecentSteps messages 2 0 = .ok r ∧
            Planned dec keepRecentSteps messages themes plan r ∧ Accounted messages plan r := by
  intro h
  have hfresh : stepMessages (freshMessages formatErrorRun) = [formatErrorRun[2], formatErrorRun[4]] := rfl
  have hanswers : AnswersThemes (listedDecoder [twoStepTheme]) listedSummarizer formatErrorRun [twoStepTheme] :=
    listed_answers _ _ (by rw [hfresh]; exact List.cons_ne_nil _ _)
  have hcontract : ContractA 2 [twoStepTheme] [] 0 twoStepTheme := by
    constructor
    · exact ⟨[], .nil 0, .refl _⟩
    · exact themeJson_isTheme _ _ _ _ _
    · decide
  obtain ⟨r, plan, hr, hplanned, haccounted⟩ := h _ _ 30 _ _ _ _ _ hanswers hcontract
  obtain ⟨completed, hcompleted, hsorted, -⟩ := hcontract.sorted
  obtain rfl := hplanned.plan_eq hsorted
  have hcurrent : IsTheme 0 ((stepMessages (freshMessages formatErrorRun)).length - 1) true .null twoStepTheme :=
    hcontract.current
  have hsteps := contract_perm (listedDecoder [twoStepTheme]) 30 hcompleted (by rw [hfresh]; decide) hcurrent
  have hfeedback : formatErrorRun[3] ∈ freshMessages formatErrorRun := .tail _ (.head _)
  exact (hplanned.accounted_iff (by decide) hsteps).mp haccounted _ hfeedback rfl

end Accounted

end TokensThatSuffice
