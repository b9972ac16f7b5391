import TokensThatSuffice.SubtaskWindow

namespace TokensThatSuffice

inductive Covering : ℕ → List Json → ℕ → Prop
  | nil (a : ℕ) : Covering a [] a
  | cons {a stop b : ℕ} {t : Json} {ts : List Json} (theme : HasRange a stop t) (order : a ≤ stop)
      (rest : Covering (stop + 1) ts b) : Covering a (t :: ts) b

def CoversSteps (n : ℕ) (themes : List Json) : Prop := ∃ ordered, Covering 0 ordered n ∧ themes.Perm ordered

section Covering

theorem Covering.le {a b : ℕ} {ts : List Json} (h : Covering a ts b) : a ≤ b := by
  induction h with
  | nil a => exact le_rfl
  | cons theme order rest ih => omega

theorem Covering.keys {a b : ℕ} {ts : List Json} (h : Covering a ts b) :
    ∀ t ∈ ts, UsableTheme t ∧ sortKey t = .ok (.int (startOf t)) ∧ (a : ℤ) ≤ startOf t := by
  induction h with
  | nil a => simp
  | cons theme order rest ih =>
    intro t ht
    rcases List.mem_cons.mp ht with rfl | ht
    · exact ⟨theme.usable, theme.startOf_eq.2, theme.startOf_eq.1.ge⟩
    · obtain ⟨husable, hkey, hle⟩ := ih t ht
      exact ⟨husable, hkey, by omega⟩

theorem Covering.sorted {a b : ℕ} {ts : List Json} (h : Covering a ts b) :
    ts.Pairwise (fun s t => startOf s < startOf t) := by
  induction h with
  | nil a => exact .nil
  | cons theme order rest ih =>
    rw [List.pairwise_cons]
    refine ⟨?_, ih⟩
    intro s hs
    have hfirst := theme.startOf_eq.1
    have hnext := (rest.keys s hs).2.2
    omega

theorem CoversSteps.sorted {n : ℕ} {themes : List Json} (h : CoversSteps n themes) :
    ∃ ordered, Covering 0 ordered n ∧ sortThemes themes = .ok ordered ∧ themes.Perm ordered := by
  obtain ⟨ordered, hcover, hperm⟩ := h
  refine ⟨ordered, hcover, ?_, hperm⟩
  apply sortThemes_eq hperm _ hcover.sorted
  intro t ht
  exact (hcover.keys t (hperm.mem_iff.mp ht)).2.1

end Covering

section Counting

variable (dec : Decoder) {fresh : List Message} (keepRecentSteps : ℤ)

def accounted (plan : List StepBlock) : ℤ :=
  (plan.map StepBlock.compressed).sum + plan.countP StepBlock.isVerbatim

theorem accounted_append (p q : List StepBlock) : accounted (p ++ q) = accounted p + accounted q := by
  simp only [accounted, List.map_append, List.sum_append, List.countP_append]
  omega

theorem accounted_standing (a b : ℤ) (text : String) : accounted [.standing a b text] = b - a + 1 := by
  simp [accounted, StepBlock.compressed, StepBlock.isVerbatim]

theorem length_recentMessages {start stop : ℤ} (hstart : 0 ≤ start) (hstop : stop + 1 ≤ (stepMessages fresh).length) :
    (recentMessages fresh start stop).length = (stop + 1 - start).toNat := by
  rw [recentMessages, List.length_drop, List.length_take]
  omega

theorem accounted_recent {start stop first fold : ℤ} (hstart : 0 ≤ start)
    (hstop : stop + 1 ≤ (stepMessages fresh).length) (text : String) :
    accounted (recentBlocks fresh start stop ++ markerBlock first fold text) =
      max 0 fold + (stop + 1 - start).toNat := by
  have hmarker : accounted (markerBlock first fold text) = max 0 fold := by
    rw [markerBlock]
    split_ifs with hfold
    · rw [accounted_standing]
      omega
    · simp only [accounted, List.map_nil, List.sum_nil, List.countP_nil]
      omega
  obtain ⟨hcount, hsum⟩ := recentBlocks_counts fresh start stop
  rw [accounted_append, hmarker, accounted, hcount, hsum, length_recentMessages hstart hstop]
  omega

theorem HasRange.boundsOf_eq {n start stop : ℕ} {t : Json} (h : HasRange start stop t) (horder : start ≤ stop)
    (hn : stop < n) : boundsOf n t = ((start : ℤ), (stop : ℤ)) := by
  rw [boundsOf, h.bounds horder hn]
  rfl

theorem HasRange.themePlan_eq {start stop : ℕ} {t : Json} (h : HasRange start stop t) (horder : start ≤ stop)
    (hstop : stop < (stepMessages fresh).length) :
    themePlan dec fresh keepRecentSteps t =
      let fold := folded keepRecentSteps start stop
      if keepsSteps t then
        recentBlocks fresh (start + fold) stop ++ markerBlock start fold
          (progressText ((field (themeFields t) "name" (.str "work")).toStr dec) start fold stop)
      else [.standing start stop ((field (themeFields t) "summary" .null).toStr dec)] := by
  rw [themePlan, h.boundsOf_eq horder hstop]
  dsimp only
  have hmin : min (start : ℤ) stop = start := by omega
  have hmax : max (start : ℤ) stop = stop := by omega
  rw [hmin, hmax]

theorem accounted_themePlan {start stop : ℕ} {t : Json} (h : HasRange start stop t) (horder : start ≤ stop)
    (hstop : stop < (stepMessages fresh).length) :
    accounted (themePlan dec fresh keepRecentSteps t) =
      stop + 1 - start + if keepsSteps t then max 0 (-keepRecentSteps) else 0 := by
  rw [h.themePlan_eq dec keepRecentSteps horder hstop]
  dsimp only
  split_ifs
  · rw [accounted_recent (by rw [folded]; omega) (by omega), folded]
    omega
  · rw [accounted_standing]
    omega

theorem accounted_lastPlan {start stop : ℕ} {t : Json} (h : HasRange start stop t) (horder : start ≤ stop)
    (hstop : stop < (stepMessages fresh).length) :
    accounted (lastPlan fresh keepRecentSteps t) = stop + 1 - start := by
  rw [lastPlan, h.boundsOf_eq horder hstop]
  dsimp only
  rw [accounted_recent (by omega) (by omega)]
  omega

theorem accounted_covering {a b : ℕ} {ts : List Json} (h : Covering a ts b)
    (hb : b ≤ (stepMessages fresh).length) :
    accounted (ts.flatMap (themePlan dec fresh keepRecentSteps)) =
      b - a + max 0 (-keepRecentSteps) * ts.countP keepsSteps := by
  induction h with
  | nil a => simp [accounted]
  | @cons a stop b t ts theme order rest ih =>
    have hle := rest.le
    rw [List.flatMap_cons, accounted_append, accounted_themePlan dec keepRecentSteps theme order (by omega), ih hb]
    by_cases hkeep : keepsSteps t = true
    · rw [if_pos hkeep, List.countP_cons_of_pos hkeep]
      push_cast
      rw [Int.mul_add]
      omega
    · rw [if_neg hkeep, List.countP_cons_of_neg hkeep]
      push_cast
      omega

theorem Covering.last {a b : ℕ} {ts : List Json} (h : Covering a ts b) {t : Json} (ht : ts.getLast? = some t) :
    ∃ start stop, HasRange start stop t ∧ start ≤ stop ∧ stop + 1 = b := by
  induction h with
  | nil a => cases ht
  | @cons a stop b t' ts theme order rest ih =>
    cases rest with
    | nil =>
      rw [List.getLast?_singleton, Option.some.injEq] at ht
      exact ⟨a, stop, ht ▸ theme, order, rfl⟩
    | cons theme' order' rest' =>
      rw [List.getLast?_cons_cons] at ht
      exact ih ht

theorem accounted_stepPlan_iff {ordered : List Json} (hpos : 0 < (stepMessages fresh).length)
    (h : Covering 0 ordered (stepMessages fresh).length) :
    accounted (stepPlan dec fresh keepRecentSteps ordered) = (stepMessages fresh).length ↔
      0 ≤ keepRecentSteps ∧ ∃ t ∈ ordered, isCurrent t = true := by
  have hnonneg : 0 ≤ max 0 (-keepRecentSteps) * (ordered.countP keepsSteps : ℤ) :=
    Int.mul_nonneg (le_max_left 0 (-keepRecentSteps)) (Int.natCast_nonneg _)
  rw [stepPlan, accounted_append, accounted_covering dec keepRecentSteps h le_rfl, fallbackPlan]
  by_cases hcurrent : ordered.any isCurrent = true
  · obtain ⟨t, ht, hmark⟩ := List.any_eq_true.mp hcurrent
    have hkeeps : 0 < ordered.countP keepsSteps := by
      rw [List.countP_pos_iff]
      exact ⟨t, ht, by rw [keepsSteps, hmark, Bool.true_or]⟩
    have hnil : accounted [] = 0 := rfl
    rw [if_pos hcurrent, hnil]
    constructor
    · intro heq
      refine ⟨?_, t, ht, hmark⟩
      by_contra hneg
      -- a negative window makes each open theme fold more steps than it has
      have hextra : 0 < max 0 (-keepRecentSteps) * (ordered.countP keepsSteps : ℤ) :=
        Int.mul_pos (by omega) (by omega)
      omega
    · rintro ⟨hkeep, -⟩
      have hzero : max 0 (-keepRecentSteps) = 0 := by omega
      rw [hzero, Int.zero_mul]
      omega
  · rw [if_neg hcurrent]
    cases hlast : ordered.getLast? with
    | none =>
      rw [List.getLast?_eq_none_iff.mp hlast] at h
      generalize (stepMessages fresh).length = n at h hpos
      cases h
      exact absurd hpos (lt_irrefl 0)
    | some t =>
      -- the fallback accounts for the last theme a second time
      obtain ⟨start, stop, htheme, horder, hstop⟩ := h.last hlast
      rw [Option.toList_some, List.flatMap_singleton, accounted_lastPlan keepRecentSteps htheme horder (by omega)]
      constructor
      · intro heq
        omega
      · rintro ⟨-, s, hs, hmark⟩
        exact absurd (List.any_eq_true.mpr ⟨s, hs, hmark⟩) hcurrent

end Counting

section Once

variable (dec : Decoder) {fresh : List Message} (keepRecentSteps : ℤ)

theorem keptMessages_append (p q : List StepBlock) : keptMessages (p ++ q) = keptMessages p ++ keptMessages q :=
  List.filterMap_append

theorem keptMessages_recent (fresh : List Message) (start stop first fold : ℤ) (text : String) :
    keptMessages (recentBlocks fresh start stop ++ markerBlock first fold text) = recentMessages fresh start stop := by
  have hrecent : keptMessages (recentBlocks fresh start stop) = recentMessages fresh start stop := by
    have hfst : (StepBlock.kept? ∘ fun p : Message × ℕ => StepBlock.verbatim p.2 p.1) = some ∘ Prod.fst := rfl
    rw [keptMessages, recentBlocks, List.filterMap_map, hfst, List.filterMap_eq_map, List.zipIdx_map_fst]
  have hmarker : keptMessages (markerBlock first fold text) = [] := by
    rw [markerBlock]
    split_ifs <;> rfl
  rw [keptMessages_append, hrecent, hmarker, List.append_nil]

theorem drop_take_append {α : Type} (xs : List α) {a b c : ℕ} (hab : a ≤ b) (hbc : b ≤ c) (hb : b ≤ xs.length) :
    (xs.take c).drop a = (xs.take b).drop a ++ (xs.take c).drop b := by
  have htake : xs.take c = xs.take b ++ (xs.take c).drop b := by
    conv_lhs => rw [← List.take_append_drop b (xs.take c), List.take_take, Nat.min_eq_left hbc]
  conv_lhs => rw [htake]
  rw [List.drop_append_of_le_length]
  rw [List.length_take]
  omega

theorem keptMessages_themePlan {start stop : ℕ} {t : Json} (h : HasRange start stop t) (horder : start ≤ stop)
    (hstop : stop < (stepMessages fresh).length) :
    (keptMessages (themePlan dec fresh keepRecentSteps t)).Sublist
      (((stepMessages fresh).take (stop + 1)).drop start) := by
  rw [h.themePlan_eq dec keepRecentSteps horder hstop]
  dsimp only
  split_ifs
  · have hstart : start ≤ ((start : ℤ) + folded keepRecentSteps start stop).toNat := by
      rw [folded]
      omega
    have htake : ((stop : ℤ) + 1).toNat = stop + 1 := by omega
    rw [keptMessages_recent, recentMessages, htake]
    exact List.drop_sublist_drop_left _ hstart
  · exact List.nil_sublist _

theorem keptMessages_covering {a b : ℕ} {ts : List Json} (h : Covering a ts b)
    (hb : b ≤ (stepMessages fresh).length) :
    (keptMessages (ts.flatMap (themePlan dec fresh keepRecentSteps))).Sublist
      (((stepMessages fresh).take b).drop a) := by
  induction h with
  | nil a => exact List.nil_sublist _
  | @cons a stop b t ts theme order rest ih =>
    have hle := rest.le
    have hafter : a ≤ stop + 1 := by omega
    rw [List.flatMap_cons, keptMessages_append, drop_take_append (stepMessages fresh) hafter hle (hle.trans hb)]
    exact (keptMessages_themePlan dec keepRecentSteps theme order (by omega)).append (ih hb)

end Once

section Result

variable (dec : Decoder)

structure OnceEach (messages : List Message) (r : CompactionResult) : Prop where
  once : ((r.messages.drop 2).filter (!isSubtaskSummary ·)).Subperm (stepMessages (freshMessages messages))
  counts : ∃ compressed kept : ℤ, r.metadata.lookup "n_compressed_msgs" = some (.int compressed) ∧
    r.metadata.lookup "n_kept_progress_msgs" = some (.int kept) ∧
    compressed + kept = (messagesToSteps dec.toPython (freshMessages messages)).length

variable {dec}

theorem Planned.onceEach_iff {keepRecentSteps : ℤ} {messages : List Message} {themes ordered : List Json}
    {plan : List StepBlock} {r : CompactionResult} (h : Planned dec keepRecentSteps messages themes plan r)
    (hlen : 2 ≤ messages.length) (hpos : 0 < (stepMessages (freshMessages messages)).length)
    (hsorted : sortThemes themes = .ok ordered)
    (hcover : Covering 0 ordered (stepMessages (freshMessages messages)).length) :
    OnceEach dec messages r ↔ 0 ≤ keepRecentSteps ∧ ∃ t ∈ ordered, isCurrent t = true := by
  have hplan := h.plan_eq hsorted
  have hiff := accounted_stepPlan_iff dec keepRecentSteps hpos hcover
  rw [← hplan, accounted] at hiff
  constructor
  · rintro ⟨-, compressed, kept, hcompressed, hkept, hsum⟩
    rw [h.compressed] at hcompressed
    rw [h.kept] at hkept
    cases hcompressed
    cases hkept
    rw [length_messagesToSteps] at hsum
    exact hiff.mp hsum
  · intro hcond
    refine ⟨?_, _, _, h.compressed, h.kept, ?_⟩
    · obtain ⟨-, t, ht, hmark⟩ := hcond
      have hall := keptMessages_covering dec keepRecentSteps hcover le_rfl
      rw [List.take_length, List.drop_zero] at hall
      rw [h.filter hlen, hplan, stepPlan, fallbackPlan, if_pos (List.any_eq_true.mpr ⟨t, ht, hmark⟩), List.append_nil]
      exact hall.subperm
    · rw [length_messagesToSteps]
      exact hiff.mpr hcond

theorem compact_once {c : SubtaskModelBasedSummarizer} (keepRecentSteps : ℤ) {messages : List Message}
    (keepFirst : ℕ) (keepLastTurns : ℤ) {themes : List Json} (hthemes : AnswersThemes dec c messages themes)
    (hcover : CoversSteps (messagesToSteps dec.toPython (freshMessages messages)).length themes) :
    ∃ r, c.compact dec keepRecentSteps messages keepFirst keepLastTurns = .ok r ∧
      (OnceEach dec messages r ↔ 0 ≤ keepRecentSteps ∧ ∃ t ∈ themes, isCurrent t = true) := by
  obtain ⟨ordered, hordered, hsorted, hperm⟩ := hcover.sorted
  rw [length_messagesToSteps] at hordered
  have husable : ∀ t ∈ themes, UsableTheme t := fun t ht => (hordered.keys t (hperm.mem_iff.mp ht)).1
  obtain ⟨r, hr⟩ := compact_returns hthemes hsorted husable keepRecentSteps keepFirst keepLastTurns
  obtain ⟨-, plan, hplanned⟩ := compact_planned hthemes hr
  refine ⟨r, hr, ?_⟩
  rw [hplanned.onceEach_iff hthemes.two_le hthemes.pos hsorted hordered]
  simp only [hperm.mem_iff]

def doneAndCurrent : List Json := [themeJson "a" 0 1 false (.str "z"), themeJson "b" 2 2 true .null]

theorem compact_once_current :
    ∃ r, listedSummarizer.compact (listedDecoder doneAndCurrent) 30 threeSteps 2 0 = .ok r ∧
      OnceEach (listedDecoder doneAndCurrent) threeSteps r := by
  have hanswers : AnswersThemes (listedDecoder doneAndCurrent) listedSummarizer threeSteps doneAndCurrent :=
    listed_answers _ _ (by rw [threeSteps_fresh]; exact List.cons_ne_nil _ _)
  obtain ⟨r, hr, honce⟩ := compact_once 30 2 0 hanswers
    ⟨doneAndCurrent, .cons (themeJson_isTheme _ _ _ _ _).hasRange (Nat.zero_le 1)
      (.cons (themeJson_isTheme _ _ _ _ _).hasRange le_rfl (.nil 3)), .refl _⟩
  exact ⟨r, hr, honce.mpr ⟨by decide, themeJson "b" 2 2 true .null, by simp [doneAndCurrent], rfl⟩⟩

def openWork : List Json := [themeJson "a" 0 2 false .null]

theorem compact_keeps_twice :
    ¬ ∀ (dec : Decoder) (c : SubtaskModelBasedSummarizer) (keepRecentSteps : ℤ) (messages : List Message)
      (themes : List Json), 0 ≤ keepRecentSteps → AnswersThemes dec c messages themes →
        CoversSteps (messagesToSteps dec.toPython (freshMessages messages)).length themes →
          ∃ r, c.compact dec keepRecentSteps messages 2 0 = .ok r ∧ OnceEach dec messages r := by
  intro h
  have hanswers : AnswersThemes (listedDecoder openWork) listedSummarizer threeSteps openWork :=
    listed_answers _ _ (by rw [threeSteps_fresh]; exact List.cons_ne_nil _ _)
  have hcover : CoversSteps 3 openWork :=
    ⟨openWork, .cons (themeJson_isTheme _ _ _ _ _).hasRange (Nat.zero_le 2) (.nil 3), .refl _⟩
  obtain ⟨r, hr, honce⟩ := h _ _ 30 _ _ (by decide) hanswers hcover
  obtain ⟨-, plan, hplanned⟩ := compact_planned hanswers hr
  obtain ⟨ordered, hordered, hsorted, hperm⟩ := hcover.sorted
  obtain ⟨-, t, ht, hmark⟩ := (hplanned.onceEach_iff (by decide) hanswers.pos hsorted hordered).mp honce
  rw [List.mem_singleton.mp (hperm.mem_iff.mpr ht)] at hmark
  exact absurd hmark (by decide)

end Result

end TokensThatSuffice
