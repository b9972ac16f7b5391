import TokensThatSuffice.Spans
import TokensThatSuffice.SubtaskCoverage

namespace TokensThatSuffice

open Spans

section Contract

variable (dec : Decoder) {fresh : List Message} (keepRecentSteps : ℤ)

theorem IsTheme.marks {start stop : ℕ} {inProgress : Bool} {summary t : Json}
    (h : IsTheme start stop inProgress summary t) :
    isCurrent t = inProgress ∧ keepsSteps t = (inProgress || !summary.truthy) := by
  obtain ⟨fields, rfl, -, -, hprogress, hsummary⟩ := h
  have hprogress' : field fields "in_progress" (.bool false) = .bool inProgress := by
    rw [field, hprogress]
    rfl
  have hsummary' : field fields "summary" .null = summary := by
    rw [field, hsummary]
    rfl
  have hcurrent : isCurrent (.object fields) = inProgress := by
    rw [isCurrent, themeFields, hprogress']
    rfl
  refine ⟨hcurrent, ?_⟩
  rw [keepsSteps, hcurrent, themeFields, hsummary']

theorem themePlan_summarized {start stop : ℕ} {z : String} {t : Json} (h : IsTheme start stop false (.str z) t)
    (hz : z ≠ "") (horder : start ≤ stop) (hstop : stop < (stepMessages fresh).length) :
    ∃ text, themePlan dec fresh keepRecentSteps t = [.standing start stop text] := by
  have hkeeps : keepsSteps t = false := by
    rw [h.marks.2, Json.truthy]
    simp [hz]
  have hmin : min (start : ℤ) stop = start := by omega
  have hmax : max (start : ℤ) stop = stop := by omega
  rw [themePlan, h.hasRange.boundsOf_eq horder hstop, hkeeps, if_neg Bool.false_ne_true]
  dsimp only
  rw [hmin, hmax]
  exact ⟨_, rfl⟩

theorem themePlan_current {start stop : ℕ} {t : Json} (h : IsTheme start stop true .null t) (horder : start ≤ stop)
    (hstop : stop < (stepMessages fresh).length) :
    ∃ text, themePlan dec fresh keepRecentSteps t =
      recentBlocks fresh (start + folded keepRecentSteps start stop) stop ++
        markerBlock start (folded keepRecentSteps start stop) text := by
  have hmin : min (start : ℤ) stop = start := by omega
  have hmax : max (start : ℤ) stop = stop := by omega
  rw [themePlan, h.hasRange.boundsOf_eq horder hstop, h.marks.2, Bool.true_or, if_pos rfl]
  dsimp only
  rw [hmin, hmax]
  exact ⟨_, rfl⟩

theorem tiles_completed {a b : ℕ} {ts : List Json} {zs : List String} (h : CompletedThemes a ts zs b)
    (hb : b ≤ (stepMessages fresh).length) :
    Tiles StepBlock.first StepBlock.last a (ts.flatMap (themePlan dec fresh keepRecentSteps)) b := by
  induction h with
  | nil a => exact .nil a
  | @cons a stop b t z ts zs theme said order rest ih =>
    have hle := rest.le
    obtain ⟨text, hplan⟩ := themePlan_summarized dec keepRecentSteps theme said order
      (show stop < (stepMessages fresh).length by omega)
    rw [List.flatMap_cons, hplan]
    have hfirst : Tiles StepBlock.first StepBlock.last a [.standing a stop text] (stop + 1 : ℕ) := by
      have horder : (a : ℤ) ≤ stop := by omega
      exact Tiles.cons (x := StepBlock.standing a stop text) horder (.nil _)
    exact hfirst.append (ih hb)

theorem tiles_zipIdx (ms : List Message) (k : ℕ) :
    Tiles StepBlock.first StepBlock.last k ((ms.zipIdx k).map (fun p => .verbatim p.2 p.1)) (k + ms.length : ℕ) := by
  induction ms generalizing k with
  | nil => exact .nil _
  | cons m ms ih =>
    have hnext : k + (m :: ms).length = k + 1 + ms.length := by
      rw [List.length_cons]
      omega
    rw [List.zipIdx_cons, List.map_cons, hnext]
    exact Tiles.cons (x := StepBlock.verbatim k m) (Int.le_refl _) (ih (k + 1))

theorem tiles_recent (fresh : List Message) (start stop : ℤ) (hstart : 0 ≤ start) (horder : start ≤ stop + 1)
    (hstop : stop + 1 ≤ (stepMessages fresh).length) :
    Tiles StepBlock.first StepBlock.last start (recentBlocks fresh start stop) (stop + 1) := by
  have htiles := tiles_zipIdx (recentMessages fresh start stop) start.toNat
  rw [length_recentMessages hstart hstop] at htiles
  have hfirst : (start.toNat : ℤ) = start := Int.toNat_of_nonneg hstart
  have hlast : ((start.toNat + (stop + 1 - start).toNat : ℕ) : ℤ) = stop + 1 := by omega
  rw [hfirst, hlast] at htiles
  exact htiles

theorem stepPlan_contract {lastStart : ℕ} (completed : List Json) {last : Json}
    (hlast : lastStart < (stepMessages fresh).length)
    (hcurrent : IsTheme lastStart ((stepMessages fresh).length - 1) true .null last) :
    ∃ text, stepPlan dec fresh keepRecentSteps (completed ++ [last]) =
      completed.flatMap (themePlan dec fresh keepRecentSteps) ++
        (recentBlocks fresh
            (lastStart + folded keepRecentSteps lastStart ((stepMessages fresh).length - 1 : ℕ))
            ((stepMessages fresh).length - 1 : ℕ) ++
          markerBlock lastStart (folded keepRecentSteps lastStart ((stepMessages fresh).length - 1 : ℕ)) text) := by
  obtain ⟨text, hplan⟩ := themePlan_current dec keepRecentSteps hcurrent
    (by omega) (show (stepMessages fresh).length - 1 < (stepMessages fresh).length by omega)
  have hany : (completed ++ [last]).any isCurrent = true := by
    rw [List.any_append, List.any_cons, hcurrent.marks.1, Bool.true_or, Bool.or_true]
  refine ⟨text, ?_⟩
  rw [stepPlan, fallbackPlan, if_pos hany, List.append_nil, List.flatMap_append, List.flatMap_singleton, hplan]

theorem marker_not_chronological (before : List StepBlock) {start fold stop : ℤ} (hstart : 0 ≤ start)
    (hfold : 0 < fold) (hrecent : start + fold ≤ stop) (hstop : stop + 1 ≤ (stepMessages fresh).length)
    (text : String) :
    ¬ Chronological StepBlock.first StepBlock.last
      (before ++ (recentBlocks fresh (start + fold) stop ++ markerBlock start fold text)) := by
  intro hchron
  -- the window is not empty, and its first step comes right after those the marker stands for
  have hwindow : 0 < (recentBlocks fresh (start + fold) stop).length := by
    rw [recentBlocks, List.length_map, List.length_zipIdx, length_recentMessages (by omega) hstop]
    omega
  obtain ⟨x, hx⟩ := List.exists_mem_of_length_pos hwindow
  have hfirst := ((tiles_recent fresh (start + fold) stop (by omega) (by omega) hstop).bounds x hx).1
  rw [markerBlock, if_pos hfold, ← List.append_assoc] at hchron
  have hafter := hchron.not_before (List.mem_append_right _ hx) (List.mem_singleton_self _)
  rw [StepBlock.last] at hafter
  omega

theorem chronological_contract_iff {lastStart : ℕ} {completed : List Json} {summaries : List String} {last : Json}
    (hcompleted : CompletedThemes 0 completed summaries lastStart)
    (hlast : lastStart < (stepMessages fresh).length)
    (hcurrent : IsTheme lastStart ((stepMessages fresh).length - 1) true .null last) (hkeep : 1 ≤ keepRecentSteps) :
    Chronological StepBlock.first StepBlock.last (stepPlan dec fresh keepRecentSteps (completed ++ [last])) ↔
      ((stepMessages fresh).length - lastStart : ℤ) ≤ keepRecentSteps := by
  obtain ⟨text, hplan⟩ := stepPlan_contract dec keepRecentSteps completed hlast hcurrent
  have hfold : folded keepRecentSteps lastStart ((stepMessages fresh).length - 1 : ℕ) =
      max 0 ((stepMessages fresh).length - lastStart - keepRecentSteps) := by
    rw [folded]
    omega
  rw [hplan, hfold]
  constructor
  · intro hchron
    by_contra hlong
    exact marker_not_chronological _ (Int.natCast_nonneg lastStart) (by omega) (by omega) (by omega) text hchron
  · intro hshort
    have hzero : max 0 ((stepMessages fresh).length - lastStart - keepRecentSteps) = 0 := by omega
    have hdone := tiles_completed dec keepRecentSteps hcompleted hlast.le
    have hrecent := tiles_recent fresh lastStart ((stepMessages fresh).length - 1 : ℕ) (by omega) (by omega) (by omega)
    rw [hzero, Int.add_zero, markerBlock, if_neg (lt_irrefl 0), List.append_nil]
    exact (hdone.append hrecent).chronological

end Contract

section Order

variable {dec : Decoder}

theorem compact_planned_contract {c : SubtaskModelBasedSummarizer} (keepRecentSteps : ℤ) {messages : List Message}
    (keepFirst : ℕ) (keepLastTurns : ℤ) {themes : List Json} {summaries : List String} {lastStart : ℕ} {last : Json}
    (hthemes : AnswersThemes dec c messages themes)
    (hcontract : ContractA (stepMessages (freshMessages messages)).length themes summaries lastStart last) :
    ∃ completed r, CompletedThemes 0 completed summaries lastStart ∧
      c.compact dec keepRecentSteps messages keepFirst keepLastTurns = .ok r ∧
      Planned dec keepRecentSteps messages themes
        (stepPlan dec (freshMessages messages) keepRecentSteps (completed ++ [last])) r := by
  obtain ⟨completed, hcompleted, hsorted, husable⟩ := hcontract.sorted
  have husable' : ∀ t ∈ themes, UsableTheme t := fun t ht =>
    husable t ((sortThemes_perm hsorted).mem_iff.mpr ht)
  obtain ⟨r, hr⟩ := compact_returns hthemes hsorted husable' keepRecentSteps keepFirst keepLastTurns
  obtain ⟨-, plan, hplanned⟩ := compact_planned hthemes hr
  rw [hplanned.plan_eq hsorted] at hplanned
  exact ⟨completed, r, hcompleted, hr, hplanned⟩

theorem compact_chronological {c : SubtaskModelBasedSummarizer} {keepRecentSteps : ℤ} (hkeep : 1 ≤ keepRecentSteps)
    {messages : List Message} (keepFirst : ℕ) (keepLastTurns : ℤ) {themes : List Json} {summaries : List String}
    {lastStart : ℕ} {last : Json} (hthemes : AnswersThemes dec c messages themes)
    (hcontract : ContractA (messagesToSteps dec.toPython (freshMessages messages)).length themes summaries
      lastStart last) :
    ∃ r plan, c.compact dec keepRecentSteps messages keepFirst keepLastTurns = .ok r ∧
      Planned dec keepRecentSteps messages themes plan r ∧
      (Chronological StepBlock.first StepBlock.last plan ↔
        ((messagesToSteps dec.toPython (freshMessages messages)).length - lastStart : ℤ) ≤ keepRecentSteps) := by
  rw [length_messagesToSteps] at hcontract ⊢
  obtain ⟨completed, r, hcompleted, hr, hplanned⟩ :=
    compact_planned_contract keepRecentSteps keepFirst keepLastTurns hthemes hcontract
  exact ⟨r, _, hr, hplanned,
    chronological_contract_iff dec keepRecentSteps hcompleted hcontract.nonempty hcontract.current hkeep⟩

def oneCurrent : List Json := [themeJson "a" 0 2 true .null]

theorem oneCurrent_answers : AnswersThemes (listedDecoder oneCurrent) listedSummarizer threeSteps oneCurrent :=
  listed_answers _ _ (by rw [threeSteps_fresh]; exact List.cons_ne_nil _ _)

theorem oneCurrent_contract : ContractA 3 oneCurrent [] 0 (themeJson "a" 0 2 true .null) := by
  constructor
  · exact ⟨[], .nil 0, .refl _⟩
  · exact themeJson_isTheme _ _ _ _ _
  · decide

theorem compact_chronological_short :
    ∃ r plan, listedSummarizer.compact (listedDecoder oneCurrent) 3 threeSteps 2 0 = .ok r ∧
      Planned (listedDecoder oneCurrent) 3 threeSteps oneCurrent plan r ∧
      Chronological StepBlock.first StepBlock.last plan := by
  have hkeep : (1 : ℤ) ≤ 3 := by decide
  obtain ⟨r, plan, hr, hplanned, hiff⟩ := compact_chronological hkeep 2 0 oneCurrent_answers oneCurrent_contract
  exact ⟨r, plan, hr, hplanned, hiff.mpr (by decide)⟩

theorem compact_folds_late :
    ¬ ∀ (dec : Decoder) (c : SubtaskModelBasedSummarizer) (keepRecentSteps : ℤ) (messages : List Message)
      (themes : List Json) (summaries : List String) (lastStart : ℕ) (last : Json), 1 ≤ keepRecentSteps →
        AnswersThemes dec c messages themes →
        ContractA (messagesToSteps dec.toPython (freshMessages messages)).length themes summaries lastStart last →
          ∃ r plan, c.compact dec keepRecentSteps messages 2 0 = .ok r ∧
            Planned dec keepRecentSteps messages themes plan r ∧
            Chronological StepBlock.first StepBlock.last plan := by
  intro h
  obtain ⟨r, plan, hr, hplanned, hchron⟩ := h _ _ 1 _ _ _ _ _ (by decide) oneCurrent_answers oneCurrent_contract
  obtain ⟨completed, hcompleted, hsorted, -⟩ := oneCurrent_contract.sorted
  rw [hplanned.plan_eq hsorted] at hchron
  have hcurrent : IsTheme 0 ((stepMessages (freshMessages threeSteps)).length - 1) true .null
      (themeJson "a" 0 2 true .null) := oneCurrent_contract.current
  have hshort := (chronological_contract_iff _ 1 hcompleted (by decide) hcurrent le_rfl).mp hchron
  exact absurd hshort (by decide)

end Order

end TokensThatSuffice
