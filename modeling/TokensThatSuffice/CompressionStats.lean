import Mathlib.Algebra.Ring.Int.Defs
import Mathlib.Data.List.Lex
import Mathlib.Data.String.Basic
import TokensThatSuffice.OrderedDicts
import TokensThatSuffice.SubtaskThemes

namespace TokensThatSuffice.CompressionStats

open OrderedDicts

/-- What `json.loads` makes of a file's text, unless reading or decoding it raises. -/
abbrev JsonFile := Option Json

/-- A trial of a run: its `agent/count.json`, and the files of its `agent` that match `compaction_*.json`. -/
structure Trial where
  name : String
  count : Option JsonFile := none
  compactions : List (String × JsonFile) := []

structure RunDir where
  result : Option JsonFile
  trials : List Trial
  distinct : (trials.map (·.name)).Nodup

/-- The trials under `compressions_root` that have a `count.json`. -/
structure CompressionsRoot where
  counts : List (String × JsonFile)
  distinct : (counts.map Prod.fst).Nodup

structure FoundFile where
  path : List String
  content : JsonFile

def FoundFile.parentName (f : FoundFile) : String := f.path.dropLast.getLastD ""

def sortedPaths (files : List FoundFile) : List FoundFile := files.mergeSort (fun a b => decide (a.path ≤ b.path))

section Run

variable (run : RunDir) (root : Option CompressionsRoot)

/-- `run.glob("*/agent/count.json")` -/
def agentCounts : List FoundFile :=
  run.trials.filterMap fun t => t.count.map fun content => ⟨[t.name, "agent", "count.json"], content⟩

/-- `root.glob("*/count.json")` -/
def rootCounts (root : CompressionsRoot) : List FoundFile := root.counts.map fun c => ⟨[c.1, "count.json"], c.2⟩

def countPaths : List FoundFile :=
  match agentCounts run, root with
  | [], some root => sortedPaths (rootCounts root)
  | files, _ => sortedPaths files

/-- `run.glob("*/agent/compaction_*.json")` -/
def compPaths : List FoundFile :=
  sortedPaths (run.trials.flatMap fun t => t.compactions.map fun c => ⟨[t.name, "agent", c.1], c.2⟩)

def readCount : JsonFile → Except PyError (Option ℤ)
  | none => .ok none
  | some v => do
    let n ← v.getKey "n_compressions"
    match (n.getD (.int 0)).toInt with
    | .ok n => .ok (some n)
    | .error (.valueError _) => .ok none
    | .error e => .error e

structure Counts where
  perTrial : List (String × ℤ) := []
  total : ℤ := 0

def countStep (acc : Counts) (f : FoundFile) : Except PyError Counts := do
  match ← readCount f.content with
  | none => return acc
  | some n => return ⟨set acc.perTrial f.parentName n, acc.total + n⟩

def popInputMessages : Json → Except PyError Json
  | .object fields => .ok (.object (fields.filter (·.1 ≠ "input_messages")))
  | .array _ => .error .typeError
  | _ => .error .attributeError

def compactionStep (acc : List (String × List Json)) (f : FoundFile) : Except PyError (List (String × List Json)) :=
  match f.content with
  | none => .ok acc
  | some v => do return appendTo acc f.parentName (← popInputMessages v)

def recordStats (d : Json) (counts : Counts) (compressions : List (String × List Json)) : Except PyError Json :=
  match d with
  | .object fields =>
    match (fields.lookup "stats").getD (.object []) with
    | .object stats =>
      let stats := set stats "n_compressions" (.int counts.total)
      let stats := set stats "n_compressions_per_trial" (.object (counts.perTrial.map fun p => (p.1, .int p.2)))
      let stats := if compressions = [] then stats
        else set stats "compressions" (.object (compressions.map fun p => (p.1, .array p.2)))
      .ok (.object (set fields "stats" (.object stats)))
    | _ => .error .typeError
  | _ => .error .attributeError

/-- The exit code, and what `result.json` holds afterwards where there is one. -/
def main : Except PyError (ℕ × Option Json) :=
  match run.result with
  | none => .ok (2, none)
  | some file => do
    let counts ← (countPaths run root).foldlM countStep {}
    let compressions ← (compPaths run).foldlM compactionStep []
    match file with
    | none => .error (.valueError "Expecting value")
    | some d => return (0, some (← recordStats d counts compressions))

end Run

def FoundFile.trial (f : FoundFile) : String := f.path.headD ""

def readable (content : JsonFile) : Option ℤ :=
  match readCount content with
  | .ok n => n
  | .error _ => none

def record (content : JsonFile) : Option Json :=
  content.bind fun v =>
    match popInputMessages v with
    | .ok v => some v
    | .error _ => none

section Loops

variable {files : List FoundFile}

theorem countStep_of_readable (acc : Counts) {f : FoundFile} (h : ∃ n, readCount f.content = .ok n) :
    countStep acc f = .ok (match readable f.content with
      | none => acc
      | some n => ⟨set acc.perTrial f.parentName n, acc.total + n⟩) := by
  obtain ⟨n, hn⟩ := h
  rw [countStep, readable, hn, ok_bind]
  cases n <;> rfl

theorem foldlM_countStep (acc : Counts) (h : ∀ f ∈ files, ∃ n, readCount f.content = .ok n) :
    files.foldlM countStep acc = .ok
      ⟨(table FoundFile.parentName (fun f => readable f.content) files).foldl (fun d x => set d x.1 x.2) acc.perTrial,
        acc.total + ((table FoundFile.parentName (fun f => readable f.content) files).map Prod.snd).sum⟩ := by
  induction files generalizing acc with
  | nil => simp [table]
  | cons f files ih =>
    rw [List.forall_mem_cons] at h
    rw [List.foldlM_cons, countStep_of_readable acc h.1, ok_bind, ih _ h.2, table, table, List.filterMap_cons]
    cases readable f.content with
    | none => rfl
    | some n =>
      simp only [Option.map_some, List.foldl_cons, List.map_cons, List.sum_cons, Except.ok.injEq, Counts.mk.injEq]
      exact ⟨trivial, Int.add_assoc _ _ _⟩

theorem readCount_of_foldlM {acc counts : Counts} (h : files.foldlM countStep acc = .ok counts) :
    ∀ f ∈ files, ∃ n, readCount f.content = .ok n := by
  intro f hf
  obtain ⟨before, after, hstep⟩ := foldlM_ok_mem h hf
  obtain ⟨n, hn, -⟩ := bind_eq_ok.mp hstep
  exact ⟨n, hn⟩

theorem popInputMessages_ok_iff {v : Json} : (∃ v', popInputMessages v = .ok v') ↔ v.IsMapping := by
  constructor
  · rintro ⟨v', h⟩
    cases v with
    | object fields => exact ⟨fields, rfl⟩
    | _ => cases h
  · rintro ⟨fields, rfl⟩
    exact ⟨_, rfl⟩

theorem foldlM_compactionStep (acc : List (String × List Json))
    (h : ∀ f ∈ files, ∀ v, f.content = some v → v.IsMapping) : files.foldlM compactionStep acc = .ok
      ((table FoundFile.parentName (fun f => record f.content) files).foldl (fun d x => appendTo d x.1 x.2) acc) := by
  induction files generalizing acc with
  | nil => rfl
  | cons f files ih =>
    rw [List.forall_mem_cons] at h
    rw [List.foldlM_cons, compactionStep, table, List.filterMap_cons, record]
    cases hcontent : f.content with
    | none => exact ih acc h.2
    | some v =>
      obtain ⟨v', hv'⟩ := popInputMessages_ok_iff.mpr (h.1 v hcontent)
      simp only [hv', ok_bind, Option.bind_some, Option.map_some, List.foldl_cons]
      exact ih _ h.2

theorem isMapping_of_foldlM {acc groups : List (String × List Json)}
    (h : files.foldlM compactionStep acc = .ok groups) :
    ∀ f ∈ files, ∀ v, f.content = some v → v.IsMapping := by
  intro f hf v hv
  obtain ⟨before, after, hstep⟩ := foldlM_ok_mem h hf
  rw [compactionStep, hv] at hstep
  obtain ⟨v', hv', -⟩ := bind_eq_ok.mp hstep
  exact popInputMessages_ok_iff.mp ⟨v', hv'⟩

end Loops

section Writing

variable {fields stats : List (String × Json)} {counts : Counts} {compressions : List (String × List Json)}

def newStats (stats : List (String × Json)) (counts : Counts) (compressions : List (String × List Json)) :
    List (String × Json) :=
  let stats := set stats "n_compressions" (.int counts.total)
  let stats := set stats "n_compressions_per_trial" (.object (counts.perTrial.map fun p => (p.1, .int p.2)))
  if compressions = [] then stats
  else set stats "compressions" (.object (compressions.map fun p => (p.1, .array p.2)))

theorem recordStats_object (h : (fields.lookup "stats").getD (.object []) = .object stats) :
    recordStats (.object fields) counts compressions =
      .ok (.object (set fields "stats" (.object (newStats stats counts compressions)))) := by
  rw [recordStats, h]
  rfl

theorem object_of_recordStats {d v : Json} (h : recordStats d counts compressions = .ok v) :
    ∃ fields stats, d = .object fields ∧ (fields.lookup "stats").getD (.object []) = .object stats := by
  unfold recordStats at h
  split at h
  next fields =>
    split at h
    next stats hstats => exact ⟨fields, stats, rfl, hstats⟩
    next => cases h
  next => cases h

theorem lookup_newStats {key : String} (h : key ≠ "compressions") : (newStats stats counts compressions).lookup key =
    if key = "n_compressions_per_trial" then some (.object (counts.perTrial.map fun p => (p.1, .int p.2)))
    else if key = "n_compressions" then some (.int counts.total) else stats.lookup key := by
  unfold newStats
  by_cases hnil : compressions = []
  · rw [if_pos hnil, lookup_set, lookup_set]
  · rw [if_neg hnil, lookup_set, if_neg h, lookup_set, lookup_set]

theorem lookup_compressions (h : compressions ≠ []) : (newStats stats counts compressions).lookup "compressions" =
    some (.object (compressions.map fun p => (p.1, .array p.2))) := by
  unfold newStats
  rw [if_neg h, lookup_set, if_pos rfl]

theorem newStats_newStats : newStats (newStats stats counts compressions) counts compressions =
    newStats stats counts compressions := by
  have htotal : (newStats stats counts compressions).lookup "n_compressions" = some (.int counts.total) := by
    rw [lookup_newStats (by decide)]
    rfl
  have hperTrial : (newStats stats counts compressions).lookup "n_compressions_per_trial" =
      some (.object (counts.perTrial.map fun p => (p.1, .int p.2))) := by
    rw [lookup_newStats (by decide)]
    rfl
  rw [newStats, set_of_lookup htotal, set_of_lookup hperTrial]
  by_cases hnil : compressions = []
  · rw [if_pos hnil]
  · rw [if_neg hnil, set_of_lookup (lookup_compressions hnil)]

end Writing

section Statistics

variable (run : RunDir) (root : Option CompressionsRoot)

def layoutCounts : List (String × JsonFile) :=
  match table Trial.name Trial.count run.trials, root with
  | [], some root => root.counts
  | counts, _ => counts

def trialCount (name : String) : Option ℤ := ((layoutCounts run root).lookup name).bind readable

def trialRecords (name : String) : List Json :=
  ((compPaths run).filter (fun f => f.trial = name)).filterMap fun f => record f.content

structure AddsUp (stats : List (String × Json)) : Prop where
  counts : ∃ perTrial : List (String × ℤ), (perTrial.map Prod.fst).Nodup ∧
    (∀ name, perTrial.lookup name = trialCount run root name) ∧
      stats.lookup "n_compressions_per_trial" = some (.object (perTrial.map fun p => (p.1, .int p.2))) ∧
        stats.lookup "n_compressions" = some (.int (perTrial.map Prod.snd).sum)
  compressions : ∀ name, trialRecords run name ≠ [] → ∃ groups : List (String × List Json),
    (groups.map Prod.fst).Nodup ∧
      (∀ name, groups.lookup name = if trialRecords run name = [] then none else some (trialRecords run name)) ∧
        stats.lookup "compressions" = some (.object (groups.map fun p => (p.1, .array p.2)))

def StatsAddUp : Prop :=
  ∃ fields stats, main run root = .ok (0, some (.object fields)) ∧ fields.lookup "stats" = some (.object stats) ∧
    AddsUp run root stats ∧ main { run with result := some (some (.object fields)) } root = main run root

structure Writable : Prop where
  result : ∃ fields stats, run.result = some (some (.object fields)) ∧
    (fields.lookup "stats").getD (.object []) = .object stats
  counts : ∀ f ∈ countPaths run root, ∃ n, readCount f.content = .ok n
  compactions : ∀ f ∈ compPaths run, ∀ v, f.content = some v → v.IsMapping

structure NamedAgent : Prop where
  counts : ∀ t ∈ run.trials, t.count.bind readable ≠ none → t.name = "agent"
  compactions : ∀ t ∈ run.trials, ∀ c ∈ t.compactions, record c.2 ≠ none → t.name = "agent"

def countTable : List (String × ℤ) := table FoundFile.parentName (fun f => readable f.content) (countPaths run root)

def recordTable : List (String × Json) := table FoundFile.parentName (fun f => record f.content) (compPaths run)

def counted : Counts where
  perTrial := (countTable run root).foldl (fun d x => set d x.1 x.2) []
  total := ((countTable run root).map Prod.snd).sum

def grouped : List (String × List Json) := (recordTable run).foldl (fun d x => appendTo d x.1 x.2) []

variable {run root}

theorem main_eq (h : Writable run root) {fields stats : List (String × Json)}
    (hfields : run.result = some (some (.object fields)))
    (hstats : (fields.lookup "stats").getD (.object []) = .object stats) : main run root =
      .ok (0, some (.object (set fields "stats" (.object (newStats stats (counted run root) (grouped run)))))) := by
  have hcounts : (countPaths run root).foldlM countStep {} = .ok (counted run root) := by
    rw [foldlM_countStep {} h.counts]
    exact congrArg (fun total => Except.ok (Counts.mk (counted run root).perTrial total)) (Int.zero_add _)
  rw [main, hfields]
  dsimp only
  rw [hcounts, ok_bind, foldlM_compactionStep [] h.compactions, ok_bind]
  show (recordStats _ _ (grouped run) >>= _) = _
  rw [recordStats_object hstats]
  rfl

theorem writable_of_ok {v : Json} (h : main run root = .ok (0, some v)) : Writable run root := by
  unfold main at h
  cases hresult : run.result with
  | none =>
    rw [hresult] at h
    cases h
  | some file =>
    rw [hresult] at h
    obtain ⟨counts, hcounts, h⟩ := bind_eq_ok.mp h
    obtain ⟨compressions, hcompressions, h⟩ := bind_eq_ok.mp h
    cases file with
    | none => cases h
    | some d =>
      obtain ⟨v', hv', -⟩ := bind_eq_ok.mp h
      obtain ⟨fields, stats, rfl, hstats⟩ := object_of_recordStats hv'
      exact ⟨⟨fields, stats, hresult, hstats⟩, readCount_of_foldlM hcounts, isMapping_of_foldlM hcompressions⟩

section Layouts

variable (run root)

theorem map_agentCounts :
    (agentCounts run).map (fun f => (f.trial, f.content)) = table Trial.name Trial.count run.trials := by
  rw [agentCounts, table, List.map_filterMap]
  apply List.filterMap_congr
  intro t _
  cases t.count <;> rfl

theorem countPaths_perm :
    ((countPaths run root).map fun f => (f.trial, f.content)).Perm (layoutCounts run root) := by
  have hagent := map_agentCounts run
  have hsorted (files : List FoundFile) : ((sortedPaths files).map fun f => (f.trial, f.content)).Perm
      (files.map fun f => (f.trial, f.content)) := (List.mergeSort_perm files _).map _
  unfold countPaths layoutCounts
  cases hfiles : agentCounts run with
  | nil =>
    rw [hfiles] at hagent
    rw [← hagent]
    cases root with
    | none => exact hsorted []
    | some root =>
      have hroot : (rootCounts root).map (fun f => (f.trial, f.content)) = root.counts := by
        rw [rootCounts, List.map_map]
        exact List.map_id _
      exact (hsorted _).trans (.of_eq hroot)
  | cons f files =>
    rw [hfiles] at hagent
    rw [← hagent]
    exact hsorted _

theorem nodup_layoutCounts : ((layoutCounts run root).map Prod.fst).Nodup := by
  have hagent := (keys_table_sublist Trial.name Trial.count run.trials).nodup run.distinct
  unfold layoutCounts
  split
  next root _ => exact root.distinct
  next => exact hagent

variable {run root} {f : FoundFile}

theorem mem_countPaths (hf : f ∈ countPaths run root) :
    (∃ t ∈ run.trials, t.count = some f.content ∧ f.trial = t.name ∧ f.parentName = "agent") ∨
      agentCounts run = [] ∧ f.parentName = f.trial := by
  unfold countPaths at hf
  split at hf
  next root _ hnil =>
    obtain ⟨c, -, rfl⟩ := List.mem_map.mp (List.mem_mergeSort.mp hf)
    exact .inr ⟨hnil, rfl⟩
  next =>
    obtain ⟨t, ht, hcount⟩ := List.mem_filterMap.mp (List.mem_mergeSort.mp hf)
    obtain ⟨content, hcontent, rfl⟩ := Option.map_eq_some_iff.mp hcount
    exact .inl ⟨t, ht, hcontent, rfl, rfl⟩

theorem mem_compPaths : f ∈ compPaths run ↔
    ∃ t ∈ run.trials, ∃ c ∈ t.compactions, f = ⟨[t.name, "agent", c.1], c.2⟩ := by
  rw [compPaths, sortedPaths, List.mem_mergeSort, List.mem_flatMap]
  simp only [List.mem_map, eq_comm]

end Layouts

section Keys

variable {name : String}

theorem mem_keys_countTable (h : name ∈ (counted run root).perTrial.map Prod.fst) :
    ∃ f ∈ countPaths run root, f.parentName = name := by
  rw [counted, keys_foldl_set, List.map_nil, or_iff_right List.not_mem_nil] at h
  obtain ⟨x, hx, rfl⟩ := List.mem_map.mp h
  obtain ⟨f, hf, hread⟩ := List.mem_filterMap.mp hx
  obtain ⟨n, -, rfl⟩ := Option.map_eq_some_iff.mp hread
  exact ⟨f, hf, rfl⟩

variable (run) in
theorem lookup_grouped (name : String) : (grouped run).lookup name =
    if (recordTable run).filter (fun x => x.1 = name) = [] then none
    else some (((recordTable run).filter (fun x => x.1 = name)).map Prod.snd) := by
  rw [grouped, lookup_foldl_appendTo]
  rfl

theorem trialRecords_ne_nil {t : Trial} (ht : t ∈ run.trials) {c : String × JsonFile} (hc : c ∈ t.compactions)
    (hrecord : record c.2 ≠ none) : trialRecords run t.name ≠ [] := by
  obtain ⟨v, hv⟩ := Option.ne_none_iff_exists'.mp hrecord
  apply List.ne_nil_of_mem (a := v)
  refine List.mem_filterMap.mpr ⟨⟨[t.name, "agent", c.1], c.2⟩, List.mem_filter.mpr ⟨?_, ?_⟩, hv⟩
  · exact mem_compPaths.mpr ⟨t, ht, c, hc, rfl⟩
  · exact decide_eq_true rfl

theorem trialCount_of_mem {t : Trial} (ht : t ∈ run.trials) {content : JsonFile} (hcount : t.count = some content) :
    trialCount run root t.name = readable content := by
  have hmem : (t.name, content) ∈ table Trial.name Trial.count run.trials :=
    List.mem_filterMap.mpr ⟨t, ht, by rw [hcount]; rfl⟩
  have hlayout : layoutCounts run root = table Trial.name Trial.count run.trials := by
    unfold layoutCounts
    split
    next hnil =>
      rw [hnil] at hmem
      cases hmem
    next => rfl
  rw [← hlayout] at hmem
  rw [trialCount, (lookup_eq_some_iff_mem (nodup_layoutCounts run root)).mpr hmem]
  rfl

theorem fst_of_mem_recordTable {x : String × Json} (hx : x ∈ recordTable run) : x.1 = "agent" := by
  obtain ⟨f, hf, hrecord⟩ := List.mem_filterMap.mp hx
  obtain ⟨v, -, rfl⟩ := Option.map_eq_some_iff.mp hrecord
  obtain ⟨t, -, c, -, rfl⟩ := mem_compPaths.mp hf
  rfl

theorem grouped_ne_nil {t : Trial} (ht : t ∈ run.trials) {c : String × JsonFile} (hc : c ∈ t.compactions)
    (hrecord : record c.2 ≠ none) : grouped run ≠ [] := by
  obtain ⟨v, hv⟩ := Option.ne_none_iff_exists'.mp hrecord
  have hmem : ("agent", v) ∈ recordTable run :=
    List.mem_filterMap.mpr ⟨⟨[t.name, "agent", c.1], c.2⟩, mem_compPaths.mpr ⟨t, ht, c, hc, rfl⟩,
      by simp only [hv]; rfl⟩
  have hfilter : (recordTable run).filter (fun x => x.1 = "agent") ≠ [] :=
    List.ne_nil_of_mem (List.mem_filter.mpr ⟨hmem, decide_eq_true rfl⟩)
  intro hnil
  have hlookup := lookup_grouped run "agent"
  rw [hnil, if_neg hfilter] at hlookup
  cases hlookup

theorem intFields_injective : Function.Injective (List.map fun p : String × ℤ => (p.1, Json.int p.2)) := by
  apply List.map_injective_iff.mpr
  rintro ⟨k, n⟩ ⟨k', n'⟩ h
  simpa using h

theorem arrayFields_injective :
    Function.Injective (List.map fun p : String × List Json => (p.1, Json.array p.2)) := by
  apply List.map_injective_iff.mpr
  rintro ⟨k, xs⟩ ⟨k', xs'⟩ h
  simpa using h

theorem namedAgent_of_addsUp {stats : List (String × Json)}
    (h : AddsUp run root (newStats stats (counted run root) (grouped run))) : NamedAgent run := by
  constructor
  · intro t ht hcount
    cases hcontent : t.count with
    | none =>
      rw [hcontent] at hcount
      exact absurd rfl hcount
    | some content =>
      rw [hcontent, Option.bind_some] at hcount
      obtain ⟨n, hn⟩ := Option.ne_none_iff_exists'.mp hcount
      obtain ⟨perTrial, -, hlookup, hstats, -⟩ := h.counts
      rw [lookup_newStats (by decide), if_pos rfl, Option.some.injEq, Json.object.injEq] at hstats
      have hname := hlookup t.name
      rw [← intFields_injective hstats, trialCount_of_mem ht hcontent, hn] at hname
      obtain ⟨f, hf, hparent⟩ := mem_keys_countTable (mem_keys_of_lookup hname)
      rcases mem_countPaths hf with ⟨-, -, -, -, hagent⟩ | ⟨hnil, -⟩
      · rw [← hparent, hagent]
      · have htable := map_agentCounts run
        have hmem : (t.name, content) ∈ table Trial.name Trial.count run.trials :=
          List.mem_filterMap.mpr ⟨t, ht, by rw [hcontent]; rfl⟩
        rw [← htable, hnil] at hmem
        cases hmem
  · intro t ht c hc hrecord
    have hne := trialRecords_ne_nil ht hc hrecord
    obtain ⟨groups, -, hlookup, hstats⟩ := h.compressions t.name hne
    rw [lookup_compressions (grouped_ne_nil ht hc hrecord), Option.some.injEq, Json.object.injEq] at hstats
    have hname := hlookup t.name
    rw [← arrayFields_injective hstats, lookup_grouped, if_neg hne] at hname
    split_ifs at hname with hfilter
    obtain ⟨x, hx⟩ := List.exists_mem_of_ne_nil _ hfilter
    rw [List.mem_filter, decide_eq_true_iff] at hx
    rw [← hx.2, fst_of_mem_recordTable hx.1]

variable (root) in
theorem countTable_perm (h : NamedAgent run) :
    (countTable run root).Perm (table Prod.fst (fun c => readable c.2) (layoutCounts run root)) := by
  have htrial : countTable run root = table FoundFile.trial (fun f => readable f.content) (countPaths run root) := by
    apply table_congr
    intro f hf hread
    rcases mem_countPaths hf with ⟨t, ht, hcount, htrial, hparent⟩ | ⟨-, hparent⟩
    · rw [hparent, htrial, h.counts t ht (by rwa [hcount])]
    · exact hparent
  have hmap : table FoundFile.trial (fun f => readable f.content) (countPaths run root) =
      table Prod.fst (fun c => readable c.2) ((countPaths run root).map fun f => (f.trial, f.content)) := by
    rw [table, table, List.filterMap_map]
    rfl
  rw [htrial, hmap]
  exact table_perm _ _ (countPaths_perm run root)

theorem members_recordTable (h : NamedAgent run) (name : String) :
    ((recordTable run).filter (fun x => x.1 = name)).map Prod.snd = trialRecords run name := by
  have htrial : recordTable run = table FoundFile.trial (fun f => record f.content) (compPaths run) := by
    apply table_congr
    intro f hf hrecord
    obtain ⟨t, ht, c, hc, rfl⟩ := mem_compPaths.mp hf
    exact (h.compactions t ht c hc hrecord).symm
  rw [htrial, table_members]
  rfl

theorem addsUp_of_namedAgent (h : NamedAgent run) (stats : List (String × Json)) :
    AddsUp run root (newStats stats (counted run root) (grouped run)) := by
  constructor
  · have hperm := countTable_perm root h
    have hlayout := nodup_layoutCounts run root
    have hkeys : ((countTable run root).map Prod.fst).Nodup :=
      (hperm.map Prod.fst).nodup_iff.mpr ((keys_table_sublist _ _ _).nodup hlayout)
    have hfold : (counted run root).perTrial = countTable run root := foldl_set_of_nodup [] _ hkeys
    refine ⟨countTable run root, hkeys, ?_, ?_, ?_⟩
    · intro name
      rw [lookup_perm hperm hkeys, lookup_table readable hlayout, trialCount]
    · rw [lookup_newStats (by decide), if_pos rfl, hfold]
    · rw [lookup_newStats (by decide)]
      rfl
  · intro name hname
    have hgroups (name : String) : (grouped run).lookup name =
        if trialRecords run name = [] then none else some (trialRecords run name) := by
      rw [lookup_grouped, ← members_recordTable h]
      simp only [List.map_eq_nil_iff]
    have hne : grouped run ≠ [] := by
      intro hnil
      have hlookup := hgroups name
      rw [hnil, if_neg hname] at hlookup
      cases hlookup
    exact ⟨grouped run, nodup_foldl_appendTo [] _ List.nodup_nil, hgroups, lookup_compressions hne⟩

end Keys

theorem namedAgent_of_statsAddUp (h : StatsAddUp run root) : Writable run root ∧ NamedAgent run := by
  obtain ⟨fields, stats, hmain, hstats, hadds, -⟩ := h
  have hwritable := writable_of_ok hmain
  obtain ⟨fields', stats', hfields', hstats'⟩ := hwritable.result
  rw [main_eq hwritable hfields' hstats'] at hmain
  cases hmain
  rw [lookup_set, if_pos rfl, Option.some.injEq, Json.object.injEq] at hstats
  rw [← hstats] at hadds
  exact ⟨hwritable, namedAgent_of_addsUp hadds⟩

theorem statsAddUp_iff (run : RunDir) (root : Option CompressionsRoot) :
    StatsAddUp run root ↔ Writable run root ∧ NamedAgent run := by
  constructor
  · exact namedAgent_of_statsAddUp
  · rintro ⟨hwritable, hnamed⟩
    obtain ⟨fields, stats, hfields, hstats⟩ := hwritable.result
    have hlookup : (set fields "stats" (.object (newStats stats (counted run root) (grouped run)))).lookup "stats" =
        some (.object (newStats stats (counted run root) (grouped run))) := by
      rw [lookup_set, if_pos rfl]
    refine ⟨_, _, main_eq hwritable hfields hstats, hlookup, addsUp_of_namedAgent hnamed stats, ?_⟩
    have hagain : Writable { run with result := some (some (.object
        (set fields "stats" (.object (newStats stats (counted run root) (grouped run)))))) } root :=
      ⟨⟨_, _, rfl, by rw [hlookup]; rfl⟩, hwritable.counts, hwritable.compactions⟩
    have hsame (stats : List (String × Json)) : set (set fields "stats" (.object (newStats stats (counted run root)
        (grouped run)))) "stats" (.object (newStats (newStats stats (counted run root) (grouped run))
          (counted run root) (grouped run))) =
            set fields "stats" (.object (newStats stats (counted run root) (grouped run))) := by
      rw [newStats_newStats, set_set]
    rw [main_eq hwritable hfields hstats, main_eq hagain rfl (by rw [hlookup]; rfl)]
    exact congrArg (fun fields => Except.ok (0, some (Json.object fields))) (hsame stats)

end Statistics

def countFile (n : ℤ) : JsonFile := some (.object [("n_compressions", .int n)])

def twoTrials : RunDir where
  result := some (some (.object [("stats", .object [])]))
  trials := [{ name := "trial-a", count := some (countFile 1) }, { name := "trial-b", count := some (countFile 2) }]
  distinct := by decide

theorem not_statsAddUp_twoTrials : ¬ StatsAddUp twoTrials none := by
  intro h
  have hnamed := (namedAgent_of_statsAddUp h).2.counts { name := "trial-a", count := some (countFile 1) }
    List.mem_cons_self nofun
  exact absurd hnamed (by decide)

end TokensThatSuffice.CompressionStats
