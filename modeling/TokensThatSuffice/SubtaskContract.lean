import Mathlib.Data.List.DropRight
import TokensThatSuffice.SubtaskCompaction

namespace TokensThatSuffice

def IsTheme (start stop : ℕ) (inProgress : Bool) (summary t : Json) : Prop :=
  ∃ fields, t = .object fields ∧ fields.lookup "start_idx" = some (.int start) ∧
    fields.lookup "end_idx" = some (.int stop) ∧ fields.lookup "in_progress" = some (.bool inProgress) ∧
    fields.lookup "summary" = some summary

inductive CompletedThemes : ℕ → List Json → List String → ℕ → Prop
  | nil (a : ℕ) : CompletedThemes a [] [] a
  | cons {a stop b : ℕ} {t : Json} {z : String} {ts : List Json} {zs : List String}
      (theme : IsTheme a stop false (.str z) t) (said : z ≠ "") (order : a ≤ stop)
      (rest : CompletedThemes (stop + 1) ts zs b) : CompletedThemes a (t :: ts) (z :: zs) b

structure ContractA (n : ℕ) (themes : List Json) (summaries : List String) (lastStart : ℕ) (last : Json) :
    Prop where
  listed : ∃ completed, CompletedThemes 0 completed summaries lastStart ∧ themes.Perm (completed ++ [last])
  current : IsTheme lastStart (n - 1) true .null last
  nonempty : lastStart < n

def startOf (t : Json) : ℤ :=
  match t.getKey "start_idx" with
  | .ok (some (.int k)) => k
  | _ => 0

def HasRange (start stop : ℕ) (t : Json) : Prop :=
  ∃ fields, t = .object fields ∧ fields.lookup "start_idx" = some (.int start) ∧
    fields.lookup "end_idx" = some (.int stop)

theorem HasRange.startOf_eq {start stop : ℕ} {t : Json} (h : HasRange start stop t) :
    startOf t = start ∧ sortKey t = .ok (.int (startOf t)) := by
  obtain ⟨fields, rfl, hstart, -⟩ := h
  have hget : (Json.object fields).getKey "start_idx" = .ok (some (.int start)) := by rw [Json.getKey, hstart]
  rw [startOf, sortKey, hget]
  exact ⟨rfl, rfl⟩

theorem HasRange.usable {start stop : ℕ} {t : Json} (h : HasRange start stop t) : UsableTheme t := by
  obtain ⟨fields, rfl, hstart, hstop⟩ := h
  refine ⟨fields, rfl, ⟨start, by rw [field, hstart]; rfl⟩, ?_⟩
  intro v hv
  rw [hstop] at hv
  cases hv
  exact ⟨stop, rfl⟩

theorem HasRange.bounds {n start stop : ℕ} {t : Json} (h : HasRange start stop t) (horder : start ≤ stop)
    (hn : stop < n) : themeBounds n t = .ok (start, stop) := by
  obtain ⟨fields, rfl, hstart, hstop⟩ := h
  have hclamp (i : ℕ) (hi : i < n) : clamp n i = i := by
    rw [clamp]
    omega
  rw [themeBounds, getOr_object, field, hstart]
  simp only [Option.getD_some, ok_bind, Json.toInt, getOr_object, field, hstop, hclamp start (by omega),
    hclamp stop hn, pure_eq_ok]

theorem IsTheme.hasRange {start stop : ℕ} {inProgress : Bool} {summary t : Json}
    (h : IsTheme start stop inProgress summary t) : HasRange start stop t := by
  obtain ⟨fields, rfl, hstart, hstop, -⟩ := h
  exact ⟨fields, rfl, hstart, hstop⟩

theorem IsTheme.startOf_eq {start stop : ℕ} {inProgress : Bool} {summary t : Json}
    (h : IsTheme start stop inProgress summary t) : startOf t = start ∧ sortKey t = .ok (.int (startOf t)) :=
  h.hasRange.startOf_eq

theorem IsTheme.usable {start stop : ℕ} {inProgress : Bool} {summary t : Json}
    (h : IsTheme start stop inProgress summary t) : UsableTheme t := h.hasRange.usable

theorem IsTheme.bounds {n start stop : ℕ} {inProgress : Bool} {summary t : Json}
    (h : IsTheme start stop inProgress summary t) (horder : start ≤ stop) (hn : stop < n) :
    themeBounds n t = .ok (start, stop) := h.hasRange.bounds horder hn

theorem CompletedThemes.le {a b : ℕ} {ts : List Json} {zs : List String} (h : CompletedThemes a ts zs b) : a ≤ b := by
  induction h with
  | nil a => exact le_rfl
  | cons theme said order rest ih => omega

theorem CompletedThemes.sorted {a b : ℕ} {ts : List Json} {zs : List String} (h : CompletedThemes a ts zs b)
    {last : Json} (hlast : startOf last = b) :
    (ts ++ [last]).Pairwise (fun s t => startOf s < startOf t) ∧ ∀ t ∈ ts ++ [last], a ≤ startOf t := by
  induction h with
  | nil a => simp [hlast]
  | @cons a stop b t z ts zs theme said order rest ih =>
    obtain ⟨hpw, hle⟩ := ih hlast
    have hstart := theme.startOf_eq.1
    constructor
    · rw [List.cons_append, List.pairwise_cons]
      refine ⟨?_, hpw⟩
      intro s hs
      have hs' := hle s hs
      omega
    · intro s hs
      rcases List.mem_cons.mp hs with rfl | hs
      · omega
      · have hs' := hle s hs
        omega

theorem CompletedThemes.usable {a b : ℕ} {ts : List Json} {zs : List String} (h : CompletedThemes a ts zs b) :
    ∀ t ∈ ts, UsableTheme t ∧ sortKey t = .ok (.int (startOf t)) := by
  induction h with
  | nil a => simp
  | cons theme said order rest ih =>
    intro t ht
    rcases List.mem_cons.mp ht with rfl | ht
    · exact ⟨theme.usable, theme.startOf_eq.2⟩
    · exact ih t ht

variable {dec : Decoder} {nSteps : ℕ} {fresh : List Message} {keepRecentSteps : ℤ}

theorem addTheme_completed (hn : nSteps = (stepMessages fresh).length) {start stop : ℕ} {z : String} {t : Json}
    (h : IsTheme start stop false (.str z) t) (hz : z ≠ "") (horder : start ≤ stop) (hstop : stop < nSteps)
    (acc : Blocks) :
    addTheme dec nSteps fresh keepRecentSteps acc t = .ok { acc with
      messages := acc.messages ++ [headed z]
      compressed := acc.compressed + (stop + 1 - start) } := by
  have hb := h.bounds horder hstop
  obtain ⟨fields, rfl, -, -, hprogress, hsummary⟩ := h
  have hprogress' : field fields "in_progress" (.bool false) = .bool false := by
    rw [field, hprogress]
    rfl
  have hsummary' : field fields "summary" .null = .str z := by
    rw [field, hsummary]
    rfl
  have hsaid : ((Json.bool false).truthy || !(Json.str z).truthy) = false := by
    simp only [Json.truthy, hz, ne_eq, not_false_eq_true, decide_true, Bool.not_true, Bool.or_false]
  rw [addTheme_eq hn (by omega) hb, themeAdds]
  dsimp only
  rw [hprogress', hsummary', hsaid, if_neg Bool.false_ne_true, Json.toStr]
  congr 2
  omega

theorem addTheme_completedThemes (hn : nSteps = (stepMessages fresh).length) {a b : ℕ} {ts : List Json}
    {zs : List String} (h : CompletedThemes a ts zs b) (hb : b ≤ nSteps) (acc : Blocks) :
    ts.foldlM (addTheme dec nSteps fresh keepRecentSteps) acc = .ok { acc with
      messages := acc.messages ++ zs.map headed
      compressed := acc.compressed + (b - a) } := by
  induction h generalizing acc with
  | nil a => simp
  | cons theme said order rest ih =>
    have hle := rest.le
    rw [List.foldlM_cons, addTheme_completed hn theme said order (by omega), ok_bind, ih hb]
    simp only [List.append_assoc, List.singleton_append, List.map_cons, Except.ok.injEq, Blocks.mk.injEq,
      true_and, and_true]
    omega

def nameOf (dec : Decoder) (t : Json) : String :=
  match t.getKey "name" with
  | .ok (some name) => name.toStr dec
  | _ => "work"

def foldMarker (dec : Decoder) (last : Json) (lastStart keepRecentSteps n : ℕ) : List Message :=
  if keepRecentSteps < n - lastStart then
    [headed (progressText (nameOf dec last) lastStart (n - lastStart - keepRecentSteps : ℕ) (n - 1 : ℕ))]
  else []

theorem addTheme_current (hn : nSteps = (stepMessages fresh).length) {lastStart : ℕ} (hlast : lastStart < nSteps)
    {last : Json} (h : IsTheme lastStart (nSteps - 1) true .null last) (keep : ℕ) (acc : Blocks) :
    addTheme dec nSteps fresh keep acc last = .ok {
      messages := acc.messages ++ (stepMessages fresh).rtake (min (nSteps - lastStart) keep) ++
        foldMarker dec last lastStart keep nSteps
      compressed := acc.compressed + (nSteps - lastStart - keep : ℕ)
      kept := acc.kept + min (nSteps - lastStart) keep } := by
  have hb : themeBounds nSteps last = .ok (lastStart, (nSteps - 1 : ℕ)) := h.bounds (by omega) (by omega)
  obtain ⟨fields, rfl, -, -, hprogress, hsummary⟩ := h
  have hfold : folded keep lastStart (nSteps - 1 : ℕ) = (nSteps - lastStart - keep : ℕ) := by
    rw [folded]
    omega
  have hrecent : recentMessages fresh (lastStart + (nSteps - lastStart - keep : ℕ)) (nSteps - 1 : ℕ) =
      (stepMessages fresh).rtake (min (nSteps - lastStart) keep) := by
    have hstop : (((nSteps - 1 : ℕ) : ℤ) + 1).toNat = (stepMessages fresh).length := by omega
    have hstart : (lastStart + (nSteps - lastStart - keep : ℕ) : ℤ).toNat =
        (stepMessages fresh).length - min (nSteps - lastStart) keep := by omega
    rw [recentMessages, hstop, hstart, List.take_length, List.rtake]
  have hlen : ((stepMessages fresh).rtake (min (nSteps - lastStart) keep)).length =
      min (nSteps - lastStart) keep := by
    rw [List.rtake, List.length_drop]
    omega
  have hname : nameOf dec (.object fields) = (field fields "name" (.str "work")).toStr dec := by
    rw [nameOf, Json.getKey, field]
    cases fields.lookup "name" <;> rfl
  have hmin : min (lastStart : ℤ) (nSteps - 1 : ℕ) = lastStart := by omega
  have hmax : max (lastStart : ℤ) (nSteps - 1 : ℕ) = (nSteps - 1 : ℕ) := by omega
  have hcurrent : ((field fields "in_progress" (.bool false)).truthy || !(field fields "summary" .null).truthy) =
      true := by
    rw [field, hprogress]
    rfl
  rw [addTheme_eq hn (by omega) hb, themeAdds]
  dsimp only
  rw [if_pos hcurrent, hmin, hmax, hfold, hrecent, hlen, foldMarker, hname]
  by_cases hmore : keep < nSteps - lastStart
  · rw [if_pos hmore, if_pos (by omega), if_pos (by omega)]
  · have hzero : ((nSteps - lastStart - keep : ℕ) : ℤ) = 0 := by omega
    rw [if_neg hmore, hzero, if_neg (by omega), if_neg (by omega)]

theorem splitHeadTail_two (messages : List Message) :
    (splitHeadTail messages 2 0).head = messages.take 2 ∧ (splitHeadTail messages 2 0).middle = messages.drop 2 := by
  have htail : lastNTurns (messages.drop 2) 0 = [] := lastNTurns_nonpos _ le_rfl
  simp only [splitHeadTail, htail, List.isEmpty_nil, ↓reduceIte, List.take_length, and_self]

theorem freshMessages_eq (messages : List Message) :
    freshMessages messages = (messages.drop 2).filter (!isSubtaskSummary ·) := by
  rw [freshMessages, (splitHeadTail_two messages).2]

theorem priorSummaries_eq (messages : List Message) :
    priorSummaries messages = (messages.drop 2).filter isSubtaskSummary := by
  rw [priorSummaries, (splitHeadTail_two messages).2]

theorem AnswersThemes.two_le {dec : Decoder} {c : SubtaskModelBasedSummarizer} {messages : List Message}
    {themes : List Json} (h : AnswersThemes dec c messages themes) : 2 ≤ messages.length := by
  by_contra hshort
  have hdrop : messages.drop 2 = [] := List.drop_eq_nil_of_le (by omega)
  apply h.1
  rw [freshMessages_eq, hdrop]
  rfl

theorem ContractA.sorted {n lastStart : ℕ} {themes : List Json} {summaries : List String} {last : Json}
    (h : ContractA n themes summaries lastStart last) :
    ∃ completed, CompletedThemes 0 completed summaries lastStart ∧ sortThemes themes = .ok (completed ++ [last]) ∧
      ∀ t ∈ completed ++ [last], UsableTheme t := by
  obtain ⟨completed, hcompleted, hperm⟩ := h.listed
  have husable : ∀ t ∈ completed ++ [last], UsableTheme t ∧ sortKey t = .ok (.int (startOf t)) := by
    intro t ht
    rcases List.mem_append.mp ht with ht | ht
    · exact hcompleted.usable t ht
    · rw [List.mem_singleton.mp ht]
      exact ⟨h.current.usable, h.current.startOf_eq.2⟩
  refine ⟨completed, hcompleted, ?_, fun t ht => (husable t ht).1⟩
  apply sortThemes_eq hperm
  · intro t ht
    exact (husable t (hperm.mem_iff.mp ht)).2
  · exact (hcompleted.sorted h.current.startOf_eq.1).1

theorem anyInProgress_current {completed : List Json} {last : Json} {start stop : ℕ} {summary : Json}
    (h : ∀ t ∈ completed ++ [last], UsableTheme t) (hlast : IsTheme start stop true summary last) :
    anyInProgress (completed ++ [last]) = .ok true := by
  obtain ⟨marked, hmarked⟩ := anyInProgress_ok h
  obtain ⟨marks, hmarks, hany⟩ := bind_eq_ok.mp hmarked
  obtain ⟨before, after, -, hafter, rfl⟩ := mapM_append_ok hmarks
  obtain ⟨fields, rfl, -, -, hprogress, -⟩ := hlast
  rw [List.mapM_cons, List.mapM_nil, getOr_object, field, hprogress] at hafter
  cases hafter
  rw [hmarked, ← hany]
  simp [Json.truthy]

theorem themeBlocks_contract (hn : nSteps = (stepMessages fresh).length) {lastStart : ℕ} {completed : List Json}
    {summaries : List String} {last : Json} (hcompleted : CompletedThemes 0 completed summaries lastStart)
    (hlast : lastStart < nSteps) (hcurrent : IsTheme lastStart (nSteps - 1) true .null last)
    (husable : ∀ t ∈ completed ++ [last], UsableTheme t) (keep : ℕ) :
    ∃ blocks, themeBlocks dec nSteps fresh keep (completed ++ [last]) = .ok blocks ∧
      blocks.messages = summaries.map headed ++ (stepMessages fresh).rtake (min (nSteps - lastStart) keep) ++
        foldMarker dec last lastStart keep nSteps ∧
      blocks.compressed + blocks.kept = nSteps := by
  have hblocks : themeBlocks dec nSteps fresh keep (completed ++ [last]) = .ok {
      messages := summaries.map headed ++ (stepMessages fresh).rtake (min (nSteps - lastStart) keep) ++
        foldMarker dec last lastStart keep nSteps
      compressed := 0 + (lastStart - (0 : ℕ)) + (nSteps - lastStart - keep : ℕ)
      kept := 0 + min (nSteps - lastStart) keep } := by
    rw [themeBlocks, List.foldlM_append, addTheme_completedThemes hn hcompleted hlast.le, ok_bind, List.foldlM_cons,
      addTheme_current hn hlast hcurrent, ok_bind, List.foldlM_nil, pure_eq_ok, ok_bind,
      anyInProgress_current husable hcurrent, ok_bind]
    rfl
  refine ⟨_, hblocks, rfl, ?_⟩
  simp only
  omega

structure FollowsContract (dec : Decoder) (messages : List Message) (keepRecentSteps : ℕ) (summaries : List String)
    (lastStart : ℕ) (last : Json) (r : CompactionResult) : Prop where
  kind : r.kind = .summary
  history : r.messages = messages.take 2 ++ (messages.drop 2).filter isSubtaskSummary ++ (summaries.map headed ++
    (stepMessages (freshMessages messages)).rtake
      (min ((stepMessages (freshMessages messages)).length - lastStart) keepRecentSteps) ++
    foldMarker dec last lastStart keepRecentSteps (stepMessages (freshMessages messages)).length)
  counts : ∃ compressed kept : ℤ, r.metadata.lookup "n_compressed_msgs" = some (.int compressed) ∧
    r.metadata.lookup "n_kept_progress_msgs" = some (.int kept) ∧
    compressed + kept = (messagesToSteps dec.toPython (freshMessages messages)).length

theorem compact_contract (dec : Decoder) (c : SubtaskModelBasedSummarizer) (keepRecentSteps : ℕ)
    (messages : List Message) (keepFirst : ℕ) (keepLastTurns : ℤ) {themes : List Json} {summaries : List String}
    {lastStart : ℕ} {last : Json}
    (hanswer : c.answer dec (messagesToSteps dec.toPython (freshMessages messages)) = .ok themes)
    (hcontract : ContractA (messagesToSteps dec.toPython (freshMessages messages)).length themes summaries
      lastStart last) :
    ∃ r, c.compact dec keepRecentSteps messages keepFirst keepLastTurns = .ok r ∧
      FollowsContract dec messages keepRecentSteps summaries lastStart last r := by
  have hn := length_messagesToSteps dec.toPython (freshMessages messages)
  have hlast := hcontract.nonempty
  have hthemes : AnswersThemes dec c messages themes := by
    refine ⟨?_, hanswer⟩
    intro hnil
    rw [hnil] at hlast
    exact absurd hlast (Nat.not_lt_zero _)
  obtain ⟨completed, hcompleted, hsorted, husable⟩ := hcontract.sorted
  obtain ⟨blocks, hblocks, hmessages, hcounts⟩ :=
    themeBlocks_contract hn hcompleted hlast hcontract.current husable keepRecentSteps
  obtain ⟨texts, htexts⟩ := summaryTexts_ok husable
  rcases compact_cases dec c keepRecentSteps messages keepFirst keepLastTurns with
    ⟨hnone, -⟩ | ⟨themes', hthemes', hr⟩
  · exact absurd hthemes (hnone themes)
  · rw [← hthemes.unique hthemes', themesResult, hsorted, ok_bind, hblocks, ok_bind, htexts, ok_bind] at hr
    refine ⟨_, hr, rfl, ?_, ?_⟩
    · rw [hmessages, hn, (splitHeadTail_two messages).1, priorSummaries_eq]
    · exact ⟨blocks.compressed, blocks.kept, rfl, rfl, hcounts⟩

def twoThemes : String :=
  "\x7b" ++ ("\"subtasks\": [\x7b\"name\": \"b\", \"start_idx\": 2, \"end_idx\": 2, \"in_progress\": true, " ++
    "\"summary\": null\x7d, \x7b\"name\": \"a\", \"start_idx\": 0, \"end_idx\": 1, \"in_progress\": false, " ++
    "\"summary\": \"z\"\x7d]" ++ "\x7d")

def themeJson (name : String) (start stop : ℕ) (inProgress : Bool) (summary : Json) : Json :=
  .object [("name", .str name), ("start_idx", .int start), ("end_idx", .int stop), ("in_progress", .bool inProgress),
    ("summary", summary)]

def twoThemesLoads (s : String) : Option Json :=
  if s = twoThemes then
    some (.object [("subtasks", .array [themeJson "b" 2 2 true .null, themeJson "a" 0 1 false (.str "z")])])
  else none

def twoThemesDecoder : Decoder where
  toPython := { asciiPython with loads := twoThemesLoads }
  loadsError _ := ⟨"Expecting value", true⟩

def threeSteps : List Message :=
  [⟨.system, some (.text "s"), [], none, none, none⟩, ⟨.user, some (.text "u"), [], none, none, none⟩,
    ⟨.assistant, some (.text "a"), [], none, none, none⟩, ⟨.tool, some (.text "t"), [], none, none, none⟩,
    ⟨.assistant, some (.text "b"), [], none, none, none⟩]

theorem stripFences_object {s : String} (hfirst : s.toList.head? = some '\x7b')
    (hlast : s.toList.getLast? = some '\x7d') : stripFences s = s := by
  have htrimmed : Trimmed isSpace s.toList := by
    refine ⟨?_, ?_, ?_⟩
    · intro hempty
      rw [hempty] at hfirst
      cases hfirst
    · intro c hc
      rw [hfirst] at hc
      cases hc
      rfl
    · intro c hc
      rw [hlast] at hc
      cases hc
      rfl
  have hstrip : strip s = s := by
    have h := strip_ofList htrimmed
    rwa [String.ofList_toList] at h
  have hfence : startsWith s "```" = false := by
    obtain ⟨rest, hrest⟩ := List.head?_eq_some_iff.mp hfirst
    rw [startsWith, hrest]
    rfl
  rw [stripFences, hstrip, hfence]
  rfl

theorem twoThemes_answer (steps : List TrajectoryStep) :
    SubtaskModelBasedSummarizer.answer twoThemesDecoder ⟨fun _ => .ok twoThemes⟩ steps =
      .ok [themeJson "b" 2 2 true .null, themeJson "a" 0 1 false (.str "z")] := by
  have hfirst : twoThemes.toList.head? = some '\x7b' := by
    rw [twoThemes, String.toList_append]
    rfl
  have hlast : twoThemes.toList.getLast? = some '\x7d' := by
    rw [twoThemes, String.toList_append, String.toList_append, List.getLast?_append, List.getLast?_append]
    rfl
  have hloads : twoThemesDecoder.loads = twoThemesLoads := rfl
  rw [SubtaskModelBasedSummarizer.answer, ok_bind, parseSubtasks, stripFences_object hfirst hlast, loadObject, loads,
    hloads, twoThemesLoads, if_pos rfl]
  rfl

theorem compact_contract_two_themes :
    ∃ r, SubtaskModelBasedSummarizer.compact twoThemesDecoder ⟨fun _ => .ok twoThemes⟩ (1 : ℕ) threeSteps 4 3 = .ok r ∧
      FollowsContract twoThemesDecoder threeSteps 1 ["z"] 2 (themeJson "b" 2 2 true .null) r := by
  apply compact_contract twoThemesDecoder ⟨fun _ => .ok twoThemes⟩ 1 threeSteps 4 3 (twoThemes_answer _)
  constructor
  · refine ⟨[themeJson "a" 0 1 false (.str "z")], ?_, ?_⟩
    · apply CompletedThemes.cons ⟨_, rfl, rfl, rfl, rfl, rfl⟩ _ (Nat.zero_le 1) (.nil 2)
      decide
    · exact List.Perm.swap _ _ _
  · exact ⟨_, rfl, rfl, rfl, rfl, rfl⟩
  · decide

end TokensThatSuffice
