import TokensThatSuffice.Compactors
import TokensThatSuffice.StepPositions
import TokensThatSuffice.SubtaskThemes

namespace TokensThatSuffice

def subtaskSummaryHeader : String := "<subtask-summary> "

def isSubtaskSummary (m : Message) : Bool :=
  match m.content with
  | some (.text s) => startsWith s subtaskSummaryHeader
  | _ => false

def pyRange (start stop : ℤ) : List ℤ := (List.range (stop - start).toNat).map (fun i : ℕ => start + i)

def headed (text : String) : Message where
  role := .user
  content := some (.text (subtaskSummaryHeader ++ text))

def progressText (name : String) (start fold stop : ℤ) : String :=
  "Progress on subtask '" ++ name ++ "' (steps " ++ toString start ++ ".." ++ toString (start + fold - 1) ++ " of " ++
    toString (stop + 1) ++ ", " ++ toString fold ++ " steps) is summarized below; continue from step " ++
    toString (start + fold) ++ "."

def earlierText (start fold : ℤ) : String :=
  "Earlier progress on this task (steps " ++ toString start ++ ".." ++ toString (start + fold - 1) ++
    ") is folded into this summary."

structure Blocks where
  messages : List Message := []
  compressed : ℤ := 0
  kept : ℕ := 0

variable (dec : Decoder)

def Json.toStr : Json → String
  | .str s => s
  | v => dec.repr v

def getOr (t : Json) (key : String) (default : Json) : Except PyError Json := do
  let v ← t.getKey key
  return v.getD default

def clamp (nSteps : ℕ) (i : ℤ) : ℤ := max 0 (min (nSteps - 1) i)

def themeBounds (nSteps : ℕ) (t : Json) : Except PyError (ℤ × ℤ) := do
  let start ← (← getOr t "start_idx" (.int 0)).toInt
  let stop ← (← getOr t "end_idx" (.int start)).toInt
  return (clamp nSteps start, clamp nSteps stop)

def addTheme (nSteps : ℕ) (fresh : List Message) (keepRecentSteps : ℤ) (acc : Blocks) (t : Json) :
    Except PyError Blocks := do
  let bounds ← themeBounds nSteps t
  let start := min bounds.1 bounds.2
  let stop := max bounds.1 bounds.2
  let inProgress ← getOr t "in_progress" (.bool false)
  let summary ← getOr t "summary" .null
  let total := stop - start + 1
  if inProgress.truthy || !summary.truthy then
    let fold := total - min total keepRecentSteps
    let recent ← (pyRange (start + fold) (stop + 1)).mapM (messageForStep fresh)
    let name ← getOr t "name" (.str "work")
    return {
      messages := acc.messages ++ recent ++
        if 0 < fold then [headed (progressText (name.toStr dec) start fold stop)] else []
      compressed := acc.compressed + if 0 < fold then fold else 0
      kept := acc.kept + recent.length }
  else
    return { acc with
      messages := acc.messages ++ [headed (summary.toStr dec)]
      compressed := acc.compressed + total }

def keepLastTheme (nSteps : ℕ) (fresh : List Message) (keepRecentSteps : ℤ) (acc : Blocks) (last : Json) :
    Except PyError Blocks := do
  let bounds ← themeBounds nSteps last
  let start := bounds.1
  let stop := bounds.2
  let fold := max 0 (stop - start + 1 - max 1 keepRecentSteps)
  let recent ← (pyRange (start + fold) (stop + 1)).mapM (messageForStep fresh)
  return {
    messages := acc.messages ++ recent ++ if 0 < fold then [headed (earlierText start fold)] else []
    compressed := acc.compressed + if 0 < fold then fold else 0
    kept := acc.kept + recent.length }

def anyInProgress (themes : List Json) : Except PyError Bool := do
  let marks ← themes.mapM (fun t => getOr t "in_progress" (.bool false))
  return marks.any Json.truthy

def themeBlocks (nSteps : ℕ) (fresh : List Message) (keepRecentSteps : ℤ) (themes : List Json) :
    Except PyError Blocks := do
  let blocks ← themes.foldlM (addTheme dec nSteps fresh keepRecentSteps) {}
  let marked ← anyInProgress themes
  match marked, themes.getLast? with
  | false, some last => keepLastTheme nSteps fresh keepRecentSteps blocks last
  | _, _ => return blocks

def summaryTexts (themes : List Json) : Except PyError (List String) := do
  let summaries ← themes.mapM (fun t => getOr t "summary" .null)
  return summaries.filterMap Json.str?

/-- `summarize` fails with the text of the exception its backend raised. -/
structure SubtaskModelBasedSummarizer where
  summarize : List TrajectoryStep → Except String String

def priorSummaries (messages : List Message) : List Message :=
  (splitHeadTail messages 2 0).middle.filter isSubtaskSummary

def freshMessages (messages : List Message) : List Message :=
  (splitHeadTail messages 2 0).middle.filter (!isSubtaskSummary ·)

def unchanged (messages : List Message) : CompactionResult where
  messages := messages
  kind := .summary
  metadata := [("subtasks", .array []), ("n_compressed", .int 0)]

def themesResult (keepRecentSteps : ℤ) (messages : List Message) (nSteps : ℕ) (themes : List Json) :
    Except PyError CompactionResult := do
  let sorted ← sortThemes themes
  let blocks ← themeBlocks dec nSteps (freshMessages messages) keepRecentSteps sorted
  let texts ← summaryTexts sorted
  let summaryText := join "\n\n" texts
  return {
    messages := (splitHeadTail messages 2 0).head ++ priorSummaries messages ++ blocks.messages
    kind := .summary
    summary := if summaryText = "" then none else some summaryText
    metadata := [("theme", .bool true), ("n_subtasks", .int sorted.length),
      ("n_compressed_msgs", .int blocks.compressed), ("n_kept_progress_msgs", .int blocks.kept),
      ("subtasks", .array [])] }

def SubtaskModelBasedSummarizer.answer (c : SubtaskModelBasedSummarizer) (steps : List TrajectoryStep) :
    Except String (List Json) := do
  let raw ← c.summarize steps
  parseSubtasks dec raw

/-- The head is always two messages and no tail is kept, whatever the agent asks for. -/
def SubtaskModelBasedSummarizer.compact (c : SubtaskModelBasedSummarizer) (keepRecentSteps : ℤ) : Compact :=
  fun messages _ _ =>
    if (splitHeadTail messages 2 0).middle.isEmpty then .ok (unchanged messages)
    else
      let steps := messagesToSteps dec.toPython (freshMessages messages)
      if steps.isEmpty then .ok (unchanged messages)
      else
        match c.answer dec steps with
        | .error text => .ok {
            messages := messages
            kind := .summaryFailed
            metadata := [("error", .str text)] }
        | .ok themes => themesResult dec keepRecentSteps messages steps.length themes

theorem mapM_messageForStep (messages : List Message) {a b : ℤ} (ha : 0 ≤ a)
    (hb : b ≤ (stepMessages messages).length) :
    (pyRange a b).mapM (messageForStep messages) =
      .ok (((stepMessages messages).take b.toNat).drop a.toNat) := by
  rw [mapM_eq_ok, List.forall₂_iff_get]
  have hlen : (pyRange a b).length = (((stepMessages messages).take b.toNat).drop a.toNat).length := by
    simp only [pyRange, List.length_map, List.length_range, List.length_drop, List.length_take]
    omega
  refine ⟨hlen, ?_⟩
  intro i hi hi'
  have hindex : (pyRange a b).get ⟨i, hi⟩ = ((a.toNat + i : ℕ) : ℤ) := by
    simp only [pyRange, List.get_eq_getElem, List.getElem_map, List.getElem_range]
    omega
  have hbound : a.toNat + i < (stepMessages messages).length := by
    simp only [List.length_drop, List.length_take] at hi'
    omega
  rw [hindex, messageForStep_ok hbound]
  simp

section Totality

theorem clamp_bounds {n : ℕ} (hn : 0 < n) (i : ℤ) : 0 ≤ clamp n i ∧ clamp n i + 1 ≤ n := by
  rw [clamp]
  omega

def field (fields : List (String × Json)) (key : String) (default : Json) : Json :=
  (fields.lookup key).getD default

@[simp] theorem getOr_object (fields : List (String × Json)) (key : String) (default : Json) :
    getOr (.object fields) key default = .ok (field fields key default) := rfl

def folded (keepRecentSteps start stop : ℤ) : ℤ := stop - start + 1 - min (stop - start + 1) keepRecentSteps

def recentMessages (fresh : List Message) (start stop : ℤ) : List Message :=
  ((stepMessages fresh).take (stop + 1).toNat).drop start.toNat

def themeAdds (fresh : List Message) (keepRecentSteps : ℤ) (acc : Blocks) (fields : List (String × Json))
    (start stop : ℤ) : Blocks :=
  let summary := field fields "summary" .null
  let fold := folded keepRecentSteps start stop
  let recent := recentMessages fresh (start + fold) stop
  if (field fields "in_progress" (.bool false)).truthy || !summary.truthy then {
    messages := acc.messages ++ recent ++ if 0 < fold then
      [headed (progressText ((field fields "name" (.str "work")).toStr dec) start fold stop)] else []
    compressed := acc.compressed + if 0 < fold then fold else 0
    kept := acc.kept + recent.length }
  else { acc with
    messages := acc.messages ++ [headed (summary.toStr dec)]
    compressed := acc.compressed + (stop - start + 1) }

variable {dec} {nSteps : ℕ} {fresh : List Message}

theorem themeBounds_bounds (hn : 0 < nSteps) {t : Json} {bounds : ℤ × ℤ} (h : themeBounds nSteps t = .ok bounds) :
    0 ≤ bounds.1 ∧ 0 ≤ bounds.2 ∧ bounds.1 + 1 ≤ nSteps ∧ bounds.2 + 1 ≤ nSteps := by
  obtain ⟨v, -, h⟩ := bind_eq_ok.mp h
  obtain ⟨start, -, h⟩ := bind_eq_ok.mp h
  obtain ⟨w, -, h⟩ := bind_eq_ok.mp h
  obtain ⟨stop, -, h⟩ := bind_eq_ok.mp h
  cases h
  have hstart := clamp_bounds hn start
  have hstop := clamp_bounds hn stop
  exact ⟨hstart.1, hstop.1, hstart.2, hstop.2⟩

theorem addTheme_eq (hn : nSteps = (stepMessages fresh).length) (hpos : 0 < nSteps) {keepRecentSteps : ℤ}
    {acc : Blocks} {fields : List (String × Json)} {bounds : ℤ × ℤ}
    (hb : themeBounds nSteps (.object fields) = .ok bounds) :
    addTheme dec nSteps fresh keepRecentSteps acc (.object fields) =
      .ok (themeAdds dec fresh keepRecentSteps acc fields (min bounds.1 bounds.2) (max bounds.1 bounds.2)) := by
  obtain ⟨h1, h2, h3, h4⟩ := themeBounds_bounds hpos hb
  rw [addTheme, hb, ok_bind, getOr_object, ok_bind, getOr_object, ok_bind, themeAdds]
  by_cases hkeep : ((field fields "in_progress" (.bool false)).truthy ||
      !(field fields "summary" .null).truthy) = true
  · dsimp only
    rw [if_pos hkeep, if_pos hkeep, mapM_messageForStep fresh (by omega) (by omega), ok_bind, getOr_object, ok_bind]
    rfl
  · dsimp only
    rw [if_neg hkeep, if_neg hkeep]
    rfl

def UsableTheme (t : Json) : Prop :=
  ∃ fields, t = .object fields ∧ (∃ n, (field fields "start_idx" (.int 0)).toInt = .ok n) ∧
    ∀ v, fields.lookup "end_idx" = some v → ∃ n, v.toInt = .ok n

theorem themeBounds_ok_iff (t : Json) : (∃ bounds, themeBounds nSteps t = .ok bounds) ↔ UsableTheme t := by
  constructor
  · rintro ⟨bounds, h⟩
    cases t with
    | object fields =>
      rw [themeBounds, getOr_object, ok_bind] at h
      obtain ⟨start, hstart, h⟩ := bind_eq_ok.mp h
      rw [getOr_object, ok_bind] at h
      obtain ⟨stop, hstop, -⟩ := bind_eq_ok.mp h
      refine ⟨fields, rfl, ⟨start, hstart⟩, ?_⟩
      intro v hv
      rw [field, hv, Option.getD_some] at hstop
      exact ⟨stop, hstop⟩
    | _ => cases h
  · rintro ⟨fields, rfl, ⟨start, hstart⟩, hend⟩
    have hstop : ∃ n, (field fields "end_idx" (.int start)).toInt = .ok n := by
      cases hlookup : fields.lookup "end_idx" with
      | none => exact ⟨start, by rw [field, hlookup]; rfl⟩
      | some v =>
        rw [field, hlookup]
        exact hend v hlookup
    obtain ⟨stop, hstop⟩ := hstop
    refine ⟨(clamp nSteps start, clamp nSteps stop), ?_⟩
    rw [themeBounds, getOr_object, ok_bind, hstart, ok_bind, getOr_object, ok_bind, hstop, ok_bind]
    rfl

theorem mapM_getOr_ok {themes : List Json} (h : ∀ t ∈ themes, UsableTheme t) (key : String) (default : Json) :
    ∃ values, themes.mapM (fun t => getOr t key default) = .ok values := by
  apply mapM_ok_iff_forall.mpr
  intro t ht
  obtain ⟨fields, rfl, -⟩ := h t ht
  exact ⟨_, getOr_object _ _ _⟩

theorem anyInProgress_ok {themes : List Json} (h : ∀ t ∈ themes, UsableTheme t) :
    ∃ marked, anyInProgress themes = .ok marked := by
  obtain ⟨marks, hmarks⟩ := mapM_getOr_ok h "in_progress" (.bool false)
  refine ⟨marks.any Json.truthy, ?_⟩
  rw [anyInProgress, hmarks]
  rfl

theorem keepLastTheme_ok (hn : nSteps = (stepMessages fresh).length) (hpos : 0 < nSteps) (keepRecentSteps : ℤ)
    (acc : Blocks) {last : Json} (h : UsableTheme last) :
    ∃ blocks, keepLastTheme nSteps fresh keepRecentSteps acc last = .ok blocks := by
  obtain ⟨bounds, hb⟩ := (themeBounds_ok_iff last).mpr h
  obtain ⟨h1, h2, h3, h4⟩ := themeBounds_bounds hpos hb
  rw [keepLastTheme, hb, ok_bind]
  dsimp only
  rw [mapM_messageForStep fresh (by omega) (by omega), ok_bind]
  exact ⟨_, rfl⟩

theorem themeBlocks_ok_iff (hn : nSteps = (stepMessages fresh).length) (hpos : 0 < nSteps) (keepRecentSteps : ℤ)
    (themes : List Json) :
    (∃ blocks, themeBlocks dec nSteps fresh keepRecentSteps themes = .ok blocks) ↔ ∀ t ∈ themes, UsableTheme t := by
  constructor
  · rintro ⟨blocks, h⟩ t ht
    obtain ⟨acc, hacc, -⟩ := bind_eq_ok.mp h
    obtain ⟨a, a', ha⟩ := foldlM_ok_mem hacc ht
    obtain ⟨bounds, hb, -⟩ := bind_eq_ok.mp ha
    exact (themeBounds_ok_iff t).mp ⟨bounds, hb⟩
  · intro h
    have hadd : ∀ acc, ∀ t ∈ themes, ∃ acc', addTheme dec nSteps fresh keepRecentSteps acc t = .ok acc' := by
      intro acc t ht
      obtain ⟨bounds, hb⟩ := (themeBounds_ok_iff t).mpr (h t ht)
      obtain ⟨fields, rfl, -⟩ := h t ht
      exact ⟨_, addTheme_eq hn hpos hb⟩
    obtain ⟨acc, hacc⟩ := foldlM_ok {} hadd
    obtain ⟨marked, hmarked⟩ := anyInProgress_ok h
    rw [themeBlocks, hacc, ok_bind, hmarked, ok_bind]
    cases marked with
    | true => exact ⟨acc, rfl⟩
    | false =>
      cases hlast : themes.getLast? with
      | none => exact ⟨acc, rfl⟩
      | some last => exact keepLastTheme_ok hn hpos keepRecentSteps acc (h last (List.mem_of_getLast? hlast))

def ComparableStarts (themes : List Json) : Prop :=
  ∃ keys, themes.mapM sortKey = .ok keys ∧ comparable keys = true

theorem sortThemes_ok_iff (themes : List Json) :
    (∃ sorted, sortThemes themes = .ok sorted) ↔ ComparableStarts themes := by
  constructor
  · rintro ⟨sorted, h⟩
    obtain ⟨keys, hkeys, h⟩ := bind_eq_ok.mp h
    by_cases hcomparable : comparable keys = true
    · exact ⟨keys, hkeys, hcomparable⟩
    · rw [if_neg hcomparable] at h
      cases h
  · rintro ⟨keys, hkeys, hcomparable⟩
    rw [sortThemes, hkeys, ok_bind, if_pos hcomparable]
    exact ⟨_, rfl⟩

theorem summaryTexts_ok {themes : List Json} (h : ∀ t ∈ themes, UsableTheme t) :
    ∃ texts, summaryTexts themes = .ok texts := by
  obtain ⟨summaries, hsummaries⟩ := mapM_getOr_ok h "summary" .null
  refine ⟨summaries.filterMap Json.str?, ?_⟩
  rw [summaryTexts, hsummaries]
  rfl

theorem themesResult_ok_iff (keepRecentSteps : ℤ) (messages : List Message)
    (hn : nSteps = (stepMessages (freshMessages messages)).length) (hpos : 0 < nSteps) (themes : List Json) :
    (∃ r, themesResult dec keepRecentSteps messages nSteps themes = .ok r) ↔
      ComparableStarts themes ∧ ∀ t ∈ themes, UsableTheme t := by
  constructor
  · rintro ⟨r, h⟩
    obtain ⟨sorted, hsorted, h⟩ := bind_eq_ok.mp h
    obtain ⟨blocks, hblocks, -⟩ := bind_eq_ok.mp h
    refine ⟨(sortThemes_ok_iff themes).mp ⟨sorted, hsorted⟩, ?_⟩
    intro t ht
    apply (themeBlocks_ok_iff hn hpos keepRecentSteps sorted).mp ⟨blocks, hblocks⟩
    exact (sortThemes_perm hsorted).mem_iff.mpr ht
  · rintro ⟨hcomparable, husable⟩
    obtain ⟨sorted, hsorted⟩ := (sortThemes_ok_iff themes).mpr hcomparable
    have husable' : ∀ t ∈ sorted, UsableTheme t := fun t ht =>
      husable t ((sortThemes_perm hsorted).mem_iff.mp ht)
    obtain ⟨blocks, hblocks⟩ := (themeBlocks_ok_iff hn hpos keepRecentSteps sorted).mpr husable'
    obtain ⟨texts, htexts⟩ := summaryTexts_ok husable'
    rw [themesResult, hsorted, ok_bind, hblocks, ok_bind, htexts, ok_bind]
    exact ⟨_, rfl⟩

end Totality

def AnswersThemes (dec : Decoder) (c : SubtaskModelBasedSummarizer) (messages : List Message)
    (themes : List Json) : Prop :=
  messagesToSteps dec.toPython (freshMessages messages) ≠ [] ∧
    c.answer dec (messagesToSteps dec.toPython (freshMessages messages)) = .ok themes

theorem freshMessages_of_empty {messages : List Message} (h : (splitHeadTail messages 2 0).middle = []) :
    freshMessages messages = [] := by
  rw [freshMessages, h, List.filter_nil]

theorem compact_cases (c : SubtaskModelBasedSummarizer) (keepRecentSteps : ℤ) (messages : List Message)
    (keepFirst : ℕ) (keepLastTurns : ℤ) :
    ((∀ themes, ¬ AnswersThemes dec c messages themes) ∧
        ∃ r, c.compact dec keepRecentSteps messages keepFirst keepLastTurns = .ok r ∧ r.messages = messages) ∨
      ∃ themes, AnswersThemes dec c messages themes ∧
        c.compact dec keepRecentSteps messages keepFirst keepLastTurns = themesResult dec keepRecentSteps messages
          (messagesToSteps dec.toPython (freshMessages messages)).length themes := by
  rw [SubtaskModelBasedSummarizer.compact]
  dsimp only
  by_cases hsteps : messagesToSteps dec.toPython (freshMessages messages) = []
  · left
    have hnone : ∀ themes, ¬ AnswersThemes dec c messages themes := fun _ h => h.1 hsteps
    rw [if_pos (List.isEmpty_iff.mpr hsteps), ite_self]
    exact ⟨hnone, _, rfl, rfl⟩
  · have hmiddle : ¬ (splitHeadTail messages 2 0).middle.isEmpty = true := by
      intro hempty
      rw [freshMessages_of_empty (List.isEmpty_iff.mp hempty)] at hsteps
      exact hsteps rfl
    rw [if_neg hmiddle, if_neg (mt List.isEmpty_iff.mp hsteps)]
    cases hanswer : c.answer dec (messagesToSteps dec.toPython (freshMessages messages)) with
    | error text =>
      left
      refine ⟨?_, _, rfl, rfl⟩
      rintro themes ⟨-, hok⟩
      rw [hanswer] at hok
      cases hok
    | ok themes => exact .inr ⟨themes, ⟨hsteps, hanswer⟩, rfl⟩

theorem AnswersThemes.unique {dec : Decoder} {c : SubtaskModelBasedSummarizer} {messages : List Message}
    {themes themes' : List Json}
    (h : AnswersThemes dec c messages themes) (h' : AnswersThemes dec c messages themes') : themes = themes' := by
  have heq := h.2.symm.trans h'.2
  exact Except.ok.inj heq

theorem compact_returns_iff (c : SubtaskModelBasedSummarizer) (keepRecentSteps : ℤ) (messages : List Message)
    (keepFirst : ℕ) (keepLastTurns : ℤ) :
    (∃ r, c.compact dec keepRecentSteps messages keepFirst keepLastTurns = .ok r) ↔
      ∀ themes, AnswersThemes dec c messages themes → ComparableStarts themes ∧ ∀ t ∈ themes, UsableTheme t := by
  rcases compact_cases dec c keepRecentSteps messages keepFirst keepLastTurns with
    ⟨hnone, r, hr, -⟩ | ⟨themes, hthemes, hr⟩
  · constructor
    · intro _ themes h
      exact absurd h (hnone themes)
    · intro _
      exact ⟨r, hr⟩
  · have hlen := length_messagesToSteps dec.toPython (freshMessages messages)
    rw [hr, themesResult_ok_iff keepRecentSteps messages hlen (List.length_pos_iff.mpr hthemes.1)]
    constructor
    · intro husable themes' h
      rw [← hthemes.unique h]
      exact husable
    · intro h
      exact h themes hthemes

def fixAnswer : String := "\x7b\"subtasks\": [\"fix\"]\x7d"

def fixDecoder : Decoder where
  toPython := { asciiPython with
    loads := fun s => if s = fixAnswer then some (.object [("subtasks", .array [.str "fix"])]) else none }
  loadsError _ := ⟨"Expecting value", true⟩

def fixSummarizer : SubtaskModelBasedSummarizer := ⟨fun _ => .ok fixAnswer⟩

def workMessages : List Message :=
  [⟨.system, some (.text "s"), [], none, none, none⟩, ⟨.user, some (.text "u"), [], none, none, none⟩,
    ⟨.assistant, some (.text "a"), [], none, none, none⟩]

theorem compact_raises_on_string_theme :
    ¬ ∀ (dec : Decoder) (c : SubtaskModelBasedSummarizer) (messages : List Message),
      ∃ r, c.compact dec 30 messages 4 3 = .ok r := by
  intro h
  obtain ⟨r, hr⟩ := h fixDecoder fixSummarizer workMessages
  have hraises : fixSummarizer.compact fixDecoder 30 workMessages 4 3 = .error .attributeError := by rfl
  rw [hraises] at hr
  cases hr

end TokensThatSuffice
