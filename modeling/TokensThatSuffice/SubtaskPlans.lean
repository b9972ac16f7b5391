import Mathlib.Algebra.BigOperators.Group.List.Basic
import Mathlib.Algebra.Ring.Int.Defs
import TokensThatSuffice.SubtaskContract

namespace TokensThatSuffice

inductive StepBlock where
  | verbatim (i : ℕ) (m : Message)
  | standing (first last : ℤ) (text : String)

namespace StepBlock

def message : StepBlock → Message
  | verbatim _ m => m
  | standing _ _ text => headed text

def first : StepBlock → ℤ
  | verbatim i _ => i
  | standing a _ _ => a

def last : StepBlock → ℤ
  | verbatim i _ => i
  | standing _ b _ => b

def isVerbatim : StepBlock → Bool
  | verbatim _ _ => true
  | standing _ _ _ => false

def compressed : StepBlock → ℤ
  | verbatim _ _ => 0
  | standing a b _ => b - a + 1

end StepBlock

section Plan

def recentBlocks (fresh : List Message) (start stop : ℤ) : List StepBlock :=
  ((recentMessages fresh start stop).zipIdx start.toNat).map (fun p => .verbatim p.2 p.1)

def markerBlock (start fold : ℤ) (text : String) : List StepBlock :=
  if 0 < fold then [.standing start (start + fold - 1) text] else []

def themeFields : Json → List (String × Json)
  | .object fields => fields
  | _ => []

def isCurrent (t : Json) : Bool := (field (themeFields t) "in_progress" (.bool false)).truthy

def keepsSteps (t : Json) : Bool := isCurrent t || !(field (themeFields t) "summary" .null).truthy

def boundsOf (nSteps : ℕ) (t : Json) : ℤ × ℤ := (themeBounds nSteps t).toOption.getD (0, 0)

variable (dec : Decoder) (fresh : List Message) (keepRecentSteps : ℤ)

def themePlan (t : Json) : List StepBlock :=
  let bounds := boundsOf (stepMessages fresh).length t
  let start := min bounds.1 bounds.2
  let stop := max bounds.1 bounds.2
  let fold := folded keepRecentSteps start stop
  if keepsSteps t then
    recentBlocks fresh (start + fold) stop ++ markerBlock start fold
      (progressText ((field (themeFields t) "name" (.str "work")).toStr dec) start fold stop)
  else [.standing start stop ((field (themeFields t) "summary" .null).toStr dec)]

def lastPlan (t : Json) : List StepBlock :=
  let bounds := boundsOf (stepMessages fresh).length t
  let fold := max 0 (bounds.2 - bounds.1 + 1 - max 1 keepRecentSteps)
  recentBlocks fresh (bounds.1 + fold) bounds.2 ++ markerBlock bounds.1 fold (earlierText bounds.1 fold)

def fallbackPlan (themes : List Json) : List StepBlock :=
  if themes.any isCurrent then [] else themes.getLast?.toList.flatMap (lastPlan fresh keepRecentSteps)

def stepPlan (themes : List Json) : List StepBlock :=
  themes.flatMap (themePlan dec fresh keepRecentSteps) ++ fallbackPlan fresh keepRecentSteps themes

end Plan

section Erasure

def Blocks.extend (acc : Blocks) (plan : List StepBlock) : Blocks where
  messages := acc.messages ++ plan.map StepBlock.message
  compressed := acc.compressed + (plan.map StepBlock.compressed).sum
  kept := acc.kept + plan.countP StepBlock.isVerbatim

theorem Blocks.extend_nil (acc : Blocks) : acc.extend [] = acc := by
  simp [Blocks.extend]

theorem Blocks.extend_append (acc : Blocks) (p q : List StepBlock) : acc.extend (p ++ q) = (acc.extend p).extend q := by
  simp only [Blocks.extend, List.map_append, List.sum_append, List.countP_append, List.append_assoc,
    Blocks.mk.injEq, true_and]
  omega

theorem recentBlocks_message (fresh : List Message) (start stop : ℤ) :
    (recentBlocks fresh start stop).map StepBlock.message = recentMessages fresh start stop := by
  rw [recentBlocks, List.map_map]
  exact List.zipIdx_map_fst start.toNat _

theorem recentBlocks_verbatim (fresh : List Message) (start stop : ℤ) :
    ∀ b ∈ recentBlocks fresh start stop, b.isVerbatim = true ∧ b.compressed = 0 := by
  intro b hb
  obtain ⟨p, -, rfl⟩ := List.mem_map.mp hb
  exact ⟨rfl, rfl⟩

theorem recentBlocks_counts (fresh : List Message) (start stop : ℤ) :
    (recentBlocks fresh start stop).countP StepBlock.isVerbatim = (recentMessages fresh start stop).length ∧
      ((recentBlocks fresh start stop).map StepBlock.compressed).sum = 0 := by
  have hall := recentBlocks_verbatim fresh start stop
  constructor
  · rw [List.countP_eq_length.mpr fun b hb => (hall b hb).1, recentBlocks, List.length_map, List.length_zipIdx]
  · apply List.sum_eq_zero
    intro k hk
    obtain ⟨b, hb, rfl⟩ := List.mem_map.mp hk
    exact (hall b hb).2

theorem Blocks.extend_recent (acc : Blocks) (fresh : List Message) (start stop fold : ℤ) (text : String)
    (first : ℤ) :
    acc.extend (recentBlocks fresh start stop ++ markerBlock first fold text) = {
      messages := acc.messages ++ recentMessages fresh start stop ++ if 0 < fold then [headed text] else []
      compressed := acc.compressed + if 0 < fold then fold else 0
      kept := acc.kept + (recentMessages fresh start stop).length } := by
  obtain ⟨hcount, hsum⟩ := recentBlocks_counts fresh start stop
  rw [Blocks.extend, List.map_append, recentBlocks_message, List.map_append, List.sum_append, hsum, List.countP_append,
    hcount, markerBlock]
  split_ifs
  · have hsize : first + fold - 1 - first + 1 = fold := by omega
    simp [StepBlock.message, StepBlock.compressed, StepBlock.isVerbatim, hsize]
  · simp

variable {dec : Decoder} {nSteps : ℕ} {fresh : List Message} {keepRecentSteps : ℤ}

theorem UsableTheme.boundsOf_eq {t : Json} (h : UsableTheme t) (nSteps : ℕ) :
    themeBounds nSteps t = .ok (boundsOf nSteps t) := by
  obtain ⟨bounds, hb⟩ := (themeBounds_ok_iff t).mpr h
  rw [boundsOf, hb]
  rfl

theorem addTheme_plan (hn : nSteps = (stepMessages fresh).length) (hpos : 0 < nSteps) {t : Json} (h : UsableTheme t)
    (acc : Blocks) :
    addTheme dec nSteps fresh keepRecentSteps acc t = .ok (acc.extend (themePlan dec fresh keepRecentSteps t)) := by
  have hb := h.boundsOf_eq nSteps
  obtain ⟨fields, rfl, -⟩ := h
  have hbranch : ((field fields "in_progress" (.bool false)).truthy || !(field fields "summary" .null).truthy) =
      keepsSteps (.object fields) := rfl
  rw [addTheme_eq hn hpos hb, themeAdds, themePlan, ← hn, hbranch]
  by_cases hkeep : keepsSteps (.object fields) = true
  · rw [if_pos hkeep, if_pos hkeep, Blocks.extend_recent]
    rfl
  · rw [if_neg hkeep, if_neg hkeep]
    simp only [Blocks.extend, List.map_cons, List.map_nil, List.sum_cons, List.sum_nil, StepBlock.message,
      StepBlock.compressed, StepBlock.isVerbatim, List.countP_cons, List.countP_nil, Bool.false_eq_true, if_false,
      add_zero, themeFields]

theorem keepLastTheme_plan (hn : nSteps = (stepMessages fresh).length) (hpos : 0 < nSteps) {t : Json}
    (h : UsableTheme t) (acc : Blocks) :
    keepLastTheme nSteps fresh keepRecentSteps acc t = .ok (acc.extend (lastPlan fresh keepRecentSteps t)) := by
  have hb := h.boundsOf_eq nSteps
  obtain ⟨h1, h2, h3, h4⟩ := themeBounds_bounds hpos hb
  rw [keepLastTheme, hb, ok_bind, lastPlan, ← hn]
  dsimp only
  rw [mapM_messageForStep fresh (by omega) (by omega), ok_bind, Blocks.extend_recent]
  rfl

theorem foldlM_addTheme_plan (hn : nSteps = (stepMessages fresh).length) (hpos : 0 < nSteps) {themes : List Json}
    (h : ∀ t ∈ themes, UsableTheme t) (acc : Blocks) :
    themes.foldlM (addTheme dec nSteps fresh keepRecentSteps) acc =
      .ok (acc.extend (themes.flatMap (themePlan dec fresh keepRecentSteps))) := by
  induction themes generalizing acc with
  | nil => rw [List.flatMap_nil, Blocks.extend_nil, List.foldlM_nil, pure_eq_ok]
  | cons t ts ih =>
    rw [List.foldlM_cons, addTheme_plan hn hpos (h t (by simp)), ok_bind,
      ih fun s hs => h s (List.mem_cons_of_mem t hs), List.flatMap_cons, Blocks.extend_append]

theorem anyInProgress_eq {themes : List Json} (h : ∀ t ∈ themes, UsableTheme t) :
    anyInProgress themes = .ok (themes.any isCurrent) := by
  have hmarks : themes.mapM (fun t => getOr t "in_progress" (.bool false)) =
      .ok (themes.map (fun t => field (themeFields t) "in_progress" (.bool false))) := by
    apply mapM_eq_map
    intro t ht
    obtain ⟨fields, rfl, -⟩ := h t ht
    exact getOr_object _ _ _
  rw [anyInProgress, hmarks, ok_bind, pure_eq_ok, List.any_map]
  rfl

theorem themeBlocks_plan (hn : nSteps = (stepMessages fresh).length) (hpos : 0 < nSteps) {themes : List Json}
    (h : ∀ t ∈ themes, UsableTheme t) :
    themeBlocks dec nSteps fresh keepRecentSteps themes =
      .ok (Blocks.extend {} (stepPlan dec fresh keepRecentSteps themes)) := by
  rw [themeBlocks, foldlM_addTheme_plan hn hpos h, ok_bind, anyInProgress_eq h, ok_bind, stepPlan, fallbackPlan]
  cases hcurrent : themes.any isCurrent with
  | true => rw [if_pos rfl, List.append_nil]; rfl
  | false =>
    rw [if_neg Bool.false_ne_true]
    cases hlast : themes.getLast? with
    | none => rw [Option.toList_none, List.flatMap_nil, List.append_nil]; rfl
    | some t =>
      rw [Option.toList_some, List.flatMap_singleton, Blocks.extend_append]
      exact keepLastTheme_plan hn hpos (h t (List.mem_of_getLast? hlast)) _

end Erasure

section Placement

def StepBlock.kept? : StepBlock → Option Message
  | verbatim _ m => some m
  | standing _ _ _ => none

def keptMessages (plan : List StepBlock) : List Message := plan.filterMap StepBlock.kept?

def Placed (fresh : List Message) (plan : List StepBlock) : Prop :=
  ∀ b ∈ plan, ∀ i m, b = .verbatim i m → (stepMessages fresh)[i]? = some m

theorem stepMessages_fresh {messages : List Message} {m : Message} (h : m ∈ stepMessages (freshMessages messages)) :
    isSubtaskSummary m = false := by
  have hfresh := (stepMessages_sublist _).mem h
  simpa using (List.mem_filter.mp hfresh).2

theorem headed_isSubtaskSummary (text : String) : isSubtaskSummary (headed text) = true := startsWith_append _ _

theorem recentBlocks_placed (fresh : List Message) (start stop : ℤ) : Placed fresh (recentBlocks fresh start stop) := by
  intro b hb i m heq
  obtain ⟨⟨m', j⟩, hp, rfl⟩ := List.mem_map.mp hb
  cases heq
  obtain ⟨hle, hget⟩ := List.mk_mem_zipIdx_iff_le_and_getElem?_sub.mp hp
  rw [recentMessages, List.getElem?_drop] at hget
  have hindex : start.toNat + (j - start.toNat) = j := by omega
  rw [hindex] at hget
  obtain ⟨hlt, rfl⟩ := List.getElem?_eq_some_iff.mp hget
  rw [List.getElem_take, List.getElem?_eq_getElem]

theorem markerBlock_placed (fresh : List Message) (start fold : ℤ) (text : String) :
    Placed fresh (markerBlock start fold text) := by
  intro b hb i m heq
  rw [markerBlock] at hb
  split_ifs at hb
  · rw [List.mem_singleton.mp hb] at heq
    cases heq
  · cases hb

theorem Placed.append {fresh : List Message} {p q : List StepBlock} (hp : Placed fresh p) (hq : Placed fresh q) :
    Placed fresh (p ++ q) := by
  intro b hb
  exact (List.mem_append.mp hb).elim (hp b) (hq b)

theorem stepPlan_placed (dec : Decoder) (fresh : List Message) (keepRecentSteps : ℤ) (themes : List Json) :
    Placed fresh (stepPlan dec fresh keepRecentSteps themes) := by
  have hrecent (start stop first fold : ℤ) (text : String) :
      Placed fresh (recentBlocks fresh start stop ++ markerBlock first fold text) :=
    (recentBlocks_placed fresh start stop).append (markerBlock_placed fresh first fold text)
  rw [stepPlan, fallbackPlan]
  apply Placed.append
  · intro b hb i m heq
    obtain ⟨t, -, hb⟩ := List.mem_flatMap.mp hb
    rw [themePlan] at hb
    split_ifs at hb
    · exact hrecent _ _ _ _ _ b hb i m heq
    · rw [List.mem_singleton.mp hb] at heq
      cases heq
  · intro b hb i m heq
    split_ifs at hb
    · cases hb
    · obtain ⟨t, -, hb⟩ := List.mem_flatMap.mp hb
      exact hrecent _ _ _ _ _ b hb i m heq

theorem countP_isVerbatim (plan : List StepBlock) :
    plan.countP StepBlock.isVerbatim = (keptMessages plan).length := by
  induction plan with
  | nil => rfl
  | cons b plan ih =>
    rw [List.countP_cons, ih, keptMessages, keptMessages, List.filterMap_cons]
    cases b <;> rfl

theorem filter_message {plan : List StepBlock} {messages : List Message}
    (h : Placed (freshMessages messages) plan) :
    (plan.map StepBlock.message).filter (!isSubtaskSummary ·) = keptMessages plan := by
  induction plan with
  | nil => rfl
  | cons b plan ih =>
    have hrest := ih fun b' hb' => h b' (List.mem_cons_of_mem b hb')
    rw [List.map_cons, keptMessages, List.filterMap_cons]
    cases b with
    | verbatim i m =>
      have hm := stepMessages_fresh (List.mem_of_getElem? (h _ (by simp) i m rfl))
      rw [StepBlock.message, List.filter_cons_of_pos (by rw [hm]; rfl), hrest]
      rfl
    | standing a b text =>
      rw [StepBlock.message, List.filter_cons_of_neg (by rw [headed_isSubtaskSummary]; exact Bool.false_ne_true), hrest]
      rfl

end Placement

section Result

variable (dec : Decoder)

structure Planned (keepRecentSteps : ℤ) (messages : List Message) (themes : List Json) (plan : List StepBlock)
    (r : CompactionResult) : Prop where
  sorted : ∃ sorted, sortThemes themes = .ok sorted ∧
    plan = stepPlan dec (freshMessages messages) keepRecentSteps sorted
  placed : Placed (freshMessages messages) plan
  history : r.messages = messages.take 2 ++ priorSummaries messages ++ plan.map StepBlock.message
  compressed : r.metadata.lookup "n_compressed_msgs" = some (.int (plan.map StepBlock.compressed).sum)
  kept : r.metadata.lookup "n_kept_progress_msgs" = some (.int (plan.countP StepBlock.isVerbatim))

variable {dec}

theorem Planned.plan_eq {keepRecentSteps : ℤ} {messages : List Message} {themes sorted : List Json}
    {plan : List StepBlock} {r : CompactionResult} (h : Planned dec keepRecentSteps messages themes plan r)
    (hsorted : sortThemes themes = .ok sorted) :
    plan = stepPlan dec (freshMessages messages) keepRecentSteps sorted := by
  obtain ⟨sorted', hsorted', hplan⟩ := h.sorted
  rw [Except.ok.inj (hsorted.symm.trans hsorted'), hplan]

theorem AnswersThemes.pos {c : SubtaskModelBasedSummarizer} {messages : List Message} {themes : List Json}
    (h : AnswersThemes dec c messages themes) : 0 < (stepMessages (freshMessages messages)).length := by
  rw [← length_messagesToSteps dec.toPython]
  exact List.length_pos_iff.mpr h.1

theorem compact_planned {c : SubtaskModelBasedSummarizer} {keepRecentSteps : ℤ} {messages : List Message}
    {keepFirst : ℕ} {keepLastTurns : ℤ} {themes : List Json} (hthemes : AnswersThemes dec c messages themes)
    {r : CompactionResult} (h : c.compact dec keepRecentSteps messages keepFirst keepLastTurns = .ok r) :
    (∀ t ∈ themes, UsableTheme t) ∧ ∃ plan, Planned dec keepRecentSteps messages themes plan r := by
  have husable := ((compact_returns_iff dec c keepRecentSteps messages keepFirst keepLastTurns).mp ⟨r, h⟩ themes hthemes).2
  have hn := length_messagesToSteps dec.toPython (freshMessages messages)
  rcases compact_cases dec c keepRecentSteps messages keepFirst keepLastTurns with
    ⟨hnone, -⟩ | ⟨themes', hthemes', hr⟩
  · exact absurd hthemes (hnone themes)
  · rw [hr, ← hthemes.unique hthemes'] at h
    obtain ⟨sorted, hsorted, h⟩ := bind_eq_ok.mp h
    have husable' : ∀ t ∈ sorted, UsableTheme t := fun t ht => husable t ((sortThemes_perm hsorted).mem_iff.mp ht)
    have hpos := hthemes.pos
    rw [← hn] at hpos
    rw [themeBlocks_plan hn hpos husable', ok_bind] at h
    obtain ⟨texts, -, h⟩ := bind_eq_ok.mp h
    cases h
    refine ⟨husable, _, ⟨sorted, hsorted, rfl⟩, stepPlan_placed dec _ _ _, ?_, ?_, ?_⟩
    · rw [(splitHeadTail_two messages).1]
      rfl
    · rw [← zero_add (List.sum _)]
      rfl
    · rw [← zero_add (List.countP _ _ : ℤ)]
      rfl

end Result

end TokensThatSuffice
