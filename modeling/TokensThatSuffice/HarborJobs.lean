import Mathlib.Algebra.BigOperators.Ring.Finset
import TokensThatSuffice.AuditTrail
import TokensThatSuffice.CompressionStats

namespace TokensThatSuffice.CompressionStats

open OrderedDicts Runs SortedKeys

/-- `f"{i:03d}"` -/
def paddedIndex (i : ℕ) : List Char :=
  let digits := Nat.toDigits 10 i
  List.replicate (3 - digits.length) '0' ++ digits

def compactionName (index : ℕ) : String := "compaction_" ++ String.ofList (paddedIndex index) ++ ".json"

def kindText : CompactionKind → String
  | .summary => "summary"
  | .mask => "mask"
  | .truncation => "truncation"
  | .summaryFailed => "summary_failed"

def lightFields (r : CompactionRecord) : List (String × Json) :=
  [("index", .int r.index), ("kind", .str (kindText r.kind)), ("n_calls_at", .int r.nCallsAt),
    ("n_msgs_before", .int r.nMsgsBefore), ("n_msgs_after", .int r.nMsgsAfter), ("tokens_before", .int r.tokensBefore),
    ("tokens_after", .int r.tokensAfter), ("summary", (r.summary.map Json.str).getD .null),
    ("metadata", .object r.metadata)]

/-- A trial of a harbor job, with the agent as its run left it. -/
structure AgentTrial where
  name : String
  agent : AgentState

structure Job where
  result : Option JsonFile
  trials : List AgentTrial
  distinct : (trials.map AgentTrial.name).Nodup

section Directories

-- What `json.loads` reads where `json.dumps` wrote the messages of a record.
variable (inputJson : List Message → Json)

def recordJson (r : CompactionRecord) : Json := .object (lightFields r ++ [("input_messages", inputJson r.inputMessages)])

def compactionFile (f : ℕ × CompactionRecord) : String × JsonFile := (compactionName f.1, some (recordJson inputJson f.2))

/-- The directory that harbor syncs back from the container of a trial. -/
def AgentTrial.dir (t : AgentTrial) : Trial where
  name := t.name
  count := t.agent.countFile.map fun n => countFile n
  compactions := t.agent.compactionFiles.map (compactionFile inputJson)

def Job.runDir (job : Job) : RunDir where
  result := job.result
  trials := job.trials.map (AgentTrial.dir inputJson)
  distinct := by
    rw [List.map_map]
    exact job.distinct

end Directories

section Statistics

variable (job : Job)

def Job.inOrder : List AgentTrial := job.trials.mergeSort (fun a b => decide (a.name ≤ b.name))

def Job.counts : List ℕ := job.inOrder.filterMap fun t => t.agent.countFile

def Job.counted : ℕ := job.counts.sum

def Job.compactions : ℕ := (job.trials.map fun t => t.agent.nCompressions).sum

def Job.filed : List CompactionRecord := job.inOrder.flatMap fun t => t.agent.compactionFiles.map Prod.snd

def Job.fired : List CompactionRecord := job.inOrder.flatMap fun t => t.agent.compressions

end Statistics

section Names

variable {i j : ℕ}

theorem paddedIndex_eq (h : i < 1000) : paddedIndex i =
    [Nat.digitChar (i / 100), Nat.digitChar (i / 10 % 10), Nat.digitChar (i % 10)] := by
  have hall : ∀ i < 1000, paddedIndex i =
      [Nat.digitChar (i / 100), Nat.digitChar (i / 10 % 10), Nat.digitChar (i % 10)] := by
    decide +kernel
  exact hall i h

theorem digitChar_lt (hij : i < j) (hj : j < 10) : Nat.digitChar i < Nat.digitChar j := by
  have hall : ∀ j < 10, ∀ i < j, Nat.digitChar i < Nat.digitChar j := by
    decide
  exact hall j hj i hij

theorem toList_compactionName (i : ℕ) :
    (compactionName i).toList = "compaction_".toList ++ (paddedIndex i ++ ".json".toList) := by
  have hpadded : (String.ofList (paddedIndex i)).toList = paddedIndex i := String.toList_ofList
  rw [compactionName, String.toList_append, String.toList_append, hpadded, List.append_assoc]

theorem compactionName_lt (hij : i < j) (hj : j < 1000) : compactionName i < compactionName j := by
  rw [String.lt_iff_toList_lt, toList_compactionName, toList_compactionName, paddedIndex_eq hj,
    paddedIndex_eq (hij.trans hj)]
  apply List.append_left_lt
  simp only [List.cons_append, List.cons_lt_cons_iff]
  rcases lt_trichotomy (i / 100) (j / 100) with hundreds | hundreds | hundreds
  · exact .inl (digitChar_lt hundreds (by omega))
  · rw [hundreds]
    refine .inr ⟨rfl, ?_⟩
    rcases lt_trichotomy (i / 10 % 10) (j / 10 % 10) with tens | tens | tens
    · exact .inl (digitChar_lt tens (by omega))
    · rw [tens]
      exact .inr ⟨rfl, .inl (digitChar_lt (by omega) (by omega))⟩
    · omega
  · omega

end Names

section Runs

variable (py : Python)

def AgentTrial.Ran (t : AgentTrial) : Prop :=
  ∃ cfg messages counted events, cfg.compressionsDir = true ∧
    Run (AuditStep py cfg) (cfg.initial messages counted) t.agent events

def AgentTrial.Undisturbed (t : AgentTrial) : Prop :=
  ∃ cfg messages events, cfg.compressionsDir = true ∧ (∀ e ∈ events, e.1.save = {}) ∧
    Run (AuditStep py cfg) (cfg.initial messages true) t.agent events

variable {py} {t : AgentTrial}

theorem AgentTrial.Undisturbed.ran (h : t.Undisturbed py) : t.Ran py := by
  obtain ⟨cfg, messages, events, hdir, -, hrun⟩ := h
  exact ⟨cfg, messages, true, events, hdir, hrun⟩

theorem AgentTrial.Ran.audited (h : t.Ran py) : ∃ log, Audited t.agent log := by
  obtain ⟨cfg, messages, counted, events, hdir, hrun⟩ := h
  exact ⟨_, audited_run hdir hrun⟩

theorem AgentTrial.Undisturbed.complete (h : t.Undisturbed py) : CompleteFiles t.agent := by
  obtain ⟨cfg, messages, events, hdir, hsaves, hrun⟩ := h
  exact completeFiles_run hdir hrun hsaves

end Runs

section Paths

variable {inputJson : List Message → Json} {job : Job}

def countEntry (t : AgentTrial) : Option FoundFile :=
  t.agent.countFile.map fun n => ⟨[t.name, "agent", "count.json"], countFile n⟩

variable (inputJson) in
def outputEntries (t : AgentTrial) : List FoundFile :=
  (t.agent.compactionFiles.map (compactionFile inputJson)).map fun c => ⟨[t.name, "agent", c.1], c.2⟩

theorem agentCounts_runDir : agentCounts (job.runDir inputJson) = job.trials.filterMap countEntry := by
  rw [agentCounts, Job.runDir, List.filterMap_map]
  apply List.filterMap_congr
  intro t _
  simp [AgentTrial.dir, countEntry]

theorem path_lt {name name' : String} (h : name < name') (rest rest' : List String) : name :: rest < name' :: rest' :=
  List.cons_lt_cons_iff.mpr (.inl h)

theorem sortedPaths_agentCounts :
    sortedPaths (agentCounts (job.runDir inputJson)) = job.inOrder.filterMap countEntry := by
  have hmem {t : AgentTrial} {f : FoundFile} (hf : f ∈ (countEntry t).toList) :
      ∃ n, f = ⟨[t.name, "agent", "count.json"], countFile n⟩ := by
    obtain ⟨n, -, rfl⟩ := Option.map_eq_some_iff.mp (Option.mem_toList.mp hf)
    exact ⟨n, rfl⟩
  rw [agentCounts_runDir, List.filterMap_eq_flatMap_toList, List.filterMap_eq_flatMap_toList]
  apply mergeSort_key_flatMap job.distinct
  · intro t _
    cases countEntry t <;> simp
  · intro a b hab x hx y hy
    obtain ⟨n, rfl⟩ := hmem hx
    obtain ⟨m, rfl⟩ := hmem hy
    exact path_lt hab _ _

theorem compPaths_runDir (hnumbers : ∀ t ∈ job.trials,
      (t.agent.compactionFiles.map Prod.fst).Sublist (List.range t.agent.nCompressions))
    (hfew : ∀ t ∈ job.trials, t.agent.nCompressions ≤ 1000) :
    compPaths (job.runDir inputJson) = job.inOrder.flatMap (outputEntries inputJson) := by
  rw [compPaths, Job.runDir, List.flatMap_map]
  apply mergeSort_key_flatMap job.distinct
  · intro t ht
    have hordered : t.agent.compactionFiles.Pairwise (fun f g => f.1 < g.1) :=
      List.pairwise_map.mp (List.pairwise_lt_range.sublist (hnumbers t ht))
    have hsmall : ∀ f ∈ t.agent.compactionFiles, f.1 < 1000 := by
      intro f hf
      have hnumber := (hnumbers t ht).subset (List.mem_map_of_mem hf)
      exact (List.mem_range.mp hnumber).trans_le (hfew t ht)
    apply List.pairwise_map.mpr
    apply List.pairwise_map.mpr
    apply hordered.imp_of_mem
    intro f g _ hg hfg
    have hname := compactionName_lt hfg (hsmall g hg)
    simp [compactionFile, List.cons_lt_cons_iff, hname]
  · intro a b hab x hx y hy
    obtain ⟨c, -, rfl⟩ := List.mem_map.mp hx
    obtain ⟨d, -, rfl⟩ := List.mem_map.mp hy
    exact path_lt hab _ _

end Paths

section Written

variable {inputJson : List Message → Json} {job : Job} {root : Option CompressionsRoot}

theorem readCount_countFile (n : ℤ) : readCount (countFile n) = .ok (some n) := rfl

theorem record_recordJson (r : CompactionRecord) :
    record (some (recordJson inputJson r)) = some (.object (lightFields r)) := by
  simp [record, recordJson, popInputMessages, lightFields]

theorem countPaths_runDir (h : ∃ t ∈ job.trials, t.agent.countFile ≠ none) :
    countPaths (job.runDir inputJson) root = job.inOrder.filterMap countEntry := by
  obtain ⟨t, ht, hcount⟩ := h
  obtain ⟨n, hn⟩ := Option.ne_none_iff_exists'.mp hcount
  have hmem : ⟨[t.name, "agent", "count.json"], countFile n⟩ ∈ agentCounts (job.runDir inputJson) := by
    rw [agentCounts_runDir]
    exact List.mem_filterMap.mpr ⟨t, ht, by rw [countEntry, hn]; rfl⟩
  rw [← sortedPaths_agentCounts]
  unfold countPaths
  split
  next hnil _ =>
    rw [hnil] at hmem
    cases hmem
  next => rfl

theorem countTable_runDir (h : ∃ t ∈ job.trials, t.agent.countFile ≠ none) :
    countTable (job.runDir inputJson) root =
      (job.counts.map Nat.cast).map ("agent", ·) := by
  rw [countTable, countPaths_runDir h, table, Job.counts, List.filterMap_filterMap, List.map_filterMap, List.map_filterMap]
  apply List.filterMap_congr
  intro t _
  unfold countEntry
  cases t.agent.countFile <;> rfl

theorem recordTable_runDir (hcomp : compPaths (job.runDir inputJson) = job.inOrder.flatMap (outputEntries inputJson)) :
    recordTable (job.runDir inputJson) = (job.filed.map fun r => Json.object (lightFields r)).map ("agent", ·) := by
  rw [recordTable, hcomp, table, Job.filed, List.filterMap_flatMap, List.map_flatMap, List.map_flatMap]
  congr 1
  funext t
  rw [outputEntries, List.map_map, List.filterMap_map, List.map_map, List.map_map, ← List.filterMap_eq_map]
  apply List.filterMap_congr
  intro f _
  simp only [Function.comp_def, compactionFile, record_recordJson]
  rfl

theorem writable_runDir (hcounted : ∃ t ∈ job.trials, t.agent.countFile ≠ none)
    (hcomp : compPaths (job.runDir inputJson) = job.inOrder.flatMap (outputEntries inputJson))
    {fields stats : List (String × Json)} (hresult : job.result = some (some (.object fields)))
    (hstats : (fields.lookup "stats").getD (.object []) = .object stats) : Writable (job.runDir inputJson) root := by
  refine ⟨⟨fields, stats, hresult, hstats⟩, ?_, ?_⟩
  · intro f hf
    rw [countPaths_runDir hcounted] at hf
    obtain ⟨t, -, ht⟩ := List.mem_filterMap.mp hf
    obtain ⟨n, -, rfl⟩ := Option.map_eq_some_iff.mp ht
    exact ⟨_, readCount_countFile n⟩
  · intro f hf v hv
    rw [hcomp] at hf
    obtain ⟨t, -, hf⟩ := List.mem_flatMap.mp hf
    obtain ⟨c, hc, rfl⟩ := List.mem_map.mp hf
    obtain ⟨r, -, rfl⟩ := List.mem_map.mp hc
    cases hv
    exact ⟨_, rfl⟩

structure Job.Recorded (job : Job) (stats new : List (String × Json)) : Prop where
  total : new.lookup "n_compressions" = some (.int job.counted)
  perTrial : ∃ latest ∈ job.trials, ∃ n, latest.agent.countFile = some n ∧
    (∀ t ∈ job.trials, t.agent.countFile ≠ none → t.name ≤ latest.name) ∧
      new.lookup "n_compressions_per_trial" = some (.object [("agent", .int n)])
  outputs : new.lookup "compressions" = if job.filed = [] then stats.lookup "compressions"
    else some (.object [("agent", .array (job.filed.map fun r => .object (lightFields r)))])
  others : ∀ key, key ∉ ["n_compressions", "n_compressions_per_trial", "compressions"] →
    new.lookup key = stats.lookup key

theorem inOrder_perm (job : Job) : job.inOrder.Perm job.trials := List.mergeSort_perm _ _

theorem exists_latest (h : ∃ t ∈ job.trials, t.agent.countFile ≠ none) : ∃ latest ∈ job.trials, ∃ n,
    latest.agent.countFile = some n ∧ (∀ t ∈ job.trials, t.agent.countFile ≠ none → t.name ≤ latest.name) ∧
      job.counts.getLast? = some n := by
  have hlast : job.counts.getLast? ≠ none := by
    obtain ⟨t, ht, hcount⟩ := h
    obtain ⟨n, hn⟩ := Option.ne_none_iff_exists'.mp hcount
    rw [ne_eq, List.getLast?_eq_none_iff]
    exact List.ne_nil_of_mem (List.mem_filterMap.mpr ⟨t, (inOrder_perm job).mem_iff.mpr ht, hn⟩)
  obtain ⟨n, hn⟩ := Option.ne_none_iff_exists'.mp hlast
  have hsorted := List.pairwise_reverse.mpr (pairwise_mergeSort_key AgentTrial.name job.trials)
  have hfound := hn
  rw [Job.counts, List.getLast?_filterMap, List.findSome?_eq_some_iff] at hfound
  obtain ⟨later, latest, earlier, hreverse, hcount, hlater⟩ := hfound
  have hmem {t : AgentTrial} : t ∈ job.trials ↔ t ∈ later ++ latest :: earlier := by
    rw [← hreverse, List.mem_reverse, (inOrder_perm job).mem_iff]
  change job.inOrder.reverse.Pairwise _ at hsorted
  rw [hreverse, List.pairwise_append, List.pairwise_cons] at hsorted
  refine ⟨latest, hmem.mpr (by simp), n, hcount, ?_, hn⟩
  intro t ht hcounted
  rcases List.mem_append.mp (hmem.mp ht) with ht | ht
  · exact absurd (hlater t ht) hcounted
  · rcases List.mem_cons.mp ht with rfl | ht
    · exact le_rfl
    · exact hsorted.2.1.1 t ht

theorem counted_runDir (h : ∃ t ∈ job.trials, t.agent.countFile ≠ none) :
    (counted (job.runDir inputJson) root).total = job.counted ∧
      (counted (job.runDir inputJson) root).perTrial =
        (job.counts.getLast?.map fun n => ("agent", (Nat.cast n : ℤ))).toList := by
  rw [counted, countTable_runDir h]
  constructor
  · simp [Job.counted, Function.comp_def, Nat.cast_list_sum]
  · rw [foldl_set_const, List.getLast?_map, Option.map_map]
    rfl

theorem grouped_runDir (hcomp : compPaths (job.runDir inputJson) = job.inOrder.flatMap (outputEntries inputJson)) :
    grouped (job.runDir inputJson) =
      if job.filed = [] then [] else [("agent", job.filed.map fun r => Json.object (lightFields r))] := by
  rw [grouped, recordTable_runDir hcomp, foldl_appendTo_const]
  simp only [List.map_eq_nil_iff]

theorem recorded_runDir (hcounted : ∃ t ∈ job.trials, t.agent.countFile ≠ none)
    (hcomp : compPaths (job.runDir inputJson) = job.inOrder.flatMap (outputEntries inputJson))
    (stats : List (String × Json)) :
    job.Recorded stats (newStats stats (counted (job.runDir inputJson) root) (grouped (job.runDir inputJson))) := by
  obtain ⟨htotal, hperTrial⟩ : _ ∧ (counted (job.runDir inputJson) root).perTrial = _ := counted_runDir hcounted
  obtain ⟨latest, hlatest, n, hn, hall, hlast⟩ := exists_latest hcounted
  constructor
  · rw [lookup_newStats (by decide), htotal]
    rfl
  · refine ⟨latest, hlatest, n, hn, hall, ?_⟩
    rw [lookup_newStats (by decide), if_pos rfl, hperTrial, hlast]
    rfl
  · rw [grouped_runDir hcomp]
    by_cases hfiled : job.filed = []
    · rw [if_pos hfiled, if_pos hfiled, newStats, if_pos rfl, lookup_set, if_neg (by decide), lookup_set,
        if_neg (by decide)]
    · rw [if_neg hfiled, if_neg hfiled, lookup_compressions (List.cons_ne_nil _ _)]
      rfl
  · intro key hkey
    simp only [List.mem_cons, List.not_mem_nil, or_false, not_or] at hkey
    rw [lookup_newStats hkey.2.2, if_neg hkey.2.1, if_neg hkey.1]

theorem sum_filterMap_le {α : Type} {f : α → Option ℕ} {g : α → ℕ} {xs : List α}
    (h : ∀ a ∈ xs, ∀ n ∈ f a, n ≤ g a) : (xs.filterMap f).sum ≤ (xs.map g).sum := by
  induction xs with
  | nil => exact le_rfl
  | cons a xs ih =>
    rw [List.forall_mem_cons] at h
    rw [List.map_cons, List.sum_cons, List.filterMap_cons]
    cases hcount : f a with
    | none => exact (ih h.2).trans (Nat.le_add_left _ _)
    | some n =>
      rw [List.sum_cons]
      exact Nat.add_le_add (h.1 n hcount) (ih h.2)

theorem sum_inOrder (job : Job) : (job.inOrder.map fun t => t.agent.nCompressions).sum = job.compactions :=
  ((inOrder_perm job).map _).sum_nat

theorem main_records {py : Python} (inputJson : List Message → Json) (root : Option CompressionsRoot)
    (hran : ∀ t ∈ job.trials, t.Ran py) (hfew : ∀ t ∈ job.trials, t.agent.nCompressions ≤ 1000)
    (hcounted : ∃ t ∈ job.trials, t.agent.countFile ≠ none) {fields stats : List (String × Json)}
    (hresult : job.result = some (some (.object fields)))
    (hstats : (fields.lookup "stats").getD (.object []) = .object stats) :
    ∃ new, main (job.runDir inputJson) root = .ok (0, some (.object (set fields "stats" (.object new)))) ∧
      job.Recorded stats new ∧ job.counted ≤ job.compactions ∧ job.filed.Sublist job.fired ∧
      ((∀ t ∈ job.trials, t.Undisturbed py) → job.counted = job.compactions ∧ job.filed = job.fired) := by
  have hcomp : compPaths (job.runDir inputJson) = job.inOrder.flatMap (outputEntries inputJson) := by
    apply compPaths_runDir _ hfew
    intro t ht
    obtain ⟨log, haudited⟩ := (hran t ht).audited
    exact haudited.numbers
  have hmem {t : AgentTrial} : t ∈ job.inOrder ↔ t ∈ job.trials := (inOrder_perm job).mem_iff
  refine ⟨_, main_eq (writable_runDir hcounted hcomp hresult hstats) hresult hstats, recorded_runDir hcounted hcomp stats,
    ?_, ?_, ?_⟩
  · rw [← sum_inOrder]
    apply sum_filterMap_le
    intro t ht
    obtain ⟨log, haudited⟩ := (hran t (hmem.mp ht)).audited
    exact haudited.count
  · apply List.Sublist.flatMap_right
    intro t ht
    obtain ⟨log, haudited⟩ := (hran t (hmem.mp ht)).audited
    have hrecords := haudited.files.map Prod.snd
    rwa [List.map_map, Function.comp_def, List.map_id'] at hrecords
  · intro hundisturbed
    have hcomplete : ∀ t ∈ job.inOrder, CompleteFiles t.agent := fun t ht => (hundisturbed t (hmem.mp ht)).complete
    constructor
    · rw [← sum_inOrder, Job.counted, Job.counts, ← List.filterMap_eq_map]
      exact congrArg List.sum (List.filterMap_congr fun t ht => (hcomplete t ht).count)
    · apply List.flatMap_congr
      intro t ht
      rw [(hcomplete t ht).files, List.map_map, Function.comp_def, List.map_id']

def bashTrial (name : String) : AgentTrial := ⟨name, written bashInput writingStart⟩

def twoAgents : Job where
  result := some (some (.object [("stats", .object [])]))
  trials := [bashTrial "trial-b", bashTrial "trial-a"]
  distinct := by decide

def contentsJson (messages : List Message) : Json :=
  .array (messages.map fun m => .object [("content", .str ((m.content.getD .null).toStr asciiPython))])

theorem bashTrial_undisturbed (name : String) : (bashTrial name).Undisturbed asciiPython := by
  have hstep : AuditStep asciiPython writingConfig writingStart (writing bashInput writingStart)
      (written bashInput writingStart) := ⟨nofun, rfl⟩
  refine ⟨writingConfig, threeTurns.messages, _, rfl, ?_, .snoc .nil hstep⟩
  intro e he
  rw [List.nil_append, List.mem_singleton] at he
  rw [he]
  rfl

theorem main_records_twoAgents : ∃ new,
    main (twoAgents.runDir contentsJson) none =
        .ok (0, some (.object (set [("stats", .object [])] "stats" (.object new)))) ∧
      twoAgents.Recorded [] new ∧ twoAgents.counted = 2 ∧ twoAgents.filed = twoAgents.fired := by
  have hundisturbed : ∀ t ∈ twoAgents.trials, t.Undisturbed asciiPython := by
    intro t ht
    simp only [twoAgents, List.mem_cons, List.not_mem_nil, or_false] at ht
    obtain rfl | rfl := ht
    · exact bashTrial_undisturbed _
    · exact bashTrial_undisturbed _
  have hfew : ∀ t ∈ twoAgents.trials, t.agent.nCompressions ≤ 1000 := by
    intro t ht
    simp only [twoAgents, List.mem_cons, List.not_mem_nil, or_false] at ht
    obtain rfl | rfl := ht
    · exact Nat.succ_le_succ (Nat.zero_le _)
    · exact Nat.succ_le_succ (Nat.zero_le _)
  have hcounted : ∃ t ∈ twoAgents.trials, t.agent.countFile ≠ none := ⟨_, List.mem_cons_self, nofun⟩
  obtain ⟨new, hmain, hrecorded, -, -, hall⟩ := main_records contentsJson none (fun t ht => (hundisturbed t ht).ran) hfew
    hcounted rfl rfl
  obtain ⟨htotal, hfiled⟩ := hall hundisturbed
  exact ⟨new, hmain, hrecorded, htotal, hfiled⟩

end Written

end TokensThatSuffice.CompressionStats
