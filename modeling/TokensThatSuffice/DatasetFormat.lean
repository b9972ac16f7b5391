import TokensThatSuffice.TrajectoryRecords

namespace TokensThatSuffice

variable (py : Python) (parse : String → Except PyError RawRecord)

/-- The dataset loading of `train_rl.main`: the trajectories and `split_at_train_time`. -/
def loadDataset (file : List String) : Except PyError (List AgentTrajectory × Bool) :=
  match loadCollectTrajectories py parse file with
  | .ok trajectories => .ok (trajectories, true)
  -- the two exceptions that are taken for the pre-split format
  | .error (.keyError _) | .error .typeError => do
    let trajectories ← loadTrajectories parse file
    return (trajectories, false)
  | .error e => .error e

structure RawStep.WellFormed (step : RawStep) : Prop where
  role : step.role.isSome
  names : ∀ tc ∈ step.toolCalls.getD [], tc.name.isSome

structure RawRecord.PreSplit (d : RawRecord) : Prop where
  messages : d.messages = none
  task : d.task.isSome
  summary : d.summary.isSome
  steps : ∃ steps, d.steps = some steps ∧ ∀ step ∈ steps, step.WellFormed
  continuation : ∃ steps, d.continuation = some steps ∧ ∀ step ∈ steps, step.WellFormed

structure RawRecord.Collected (d : RawRecord) : Prop where
  messages : ∃ messages, d.messages = some messages ∧
    ∀ m ∈ messages, m.role = .user ∨ m.role = .system → m.content.isSome

structure LoadsFormat (file : List String) (ds : List RawRecord) : Prop where
  preSplit : ds ≠ [] → (∀ d ∈ ds, d.PreSplit) → ∃ trajectories,
    ds.mapM AgentTrajectory.fromDict = .ok trajectories ∧ loadDataset py parse file = .ok (trajectories, false)
  collected : (∀ d ∈ ds, d.Collected) → ∃ trajectories,
    ds.mapM (AgentTrajectory.fromCollectDict py) = .ok trajectories ∧
      loadDataset py parse file = .ok (trajectories, true)

theorem firstContent_ok (role : Role) {messages : List Message}
    (h : ∀ m ∈ messages, m.role = role → m.content.isSome) : ∃ c, firstContent role messages = .ok c := by
  unfold firstContent
  cases hfind : messages.find? (·.role = role) with
  | none => exact ⟨_, rfl⟩
  | some m =>
    apply (required_ok_iff "content" m.content).mpr
    apply h m (List.mem_of_find?_eq_some hfind)
    simpa using List.find?_some hfind

theorem RawRecord.Collected.fromCollectDict_ok {d : RawRecord} (h : d.Collected) :
    ∃ trajectory, AgentTrajectory.fromCollectDict py d = .ok trajectory := by
  obtain ⟨messages, hmessages, hcontent⟩ := h.messages
  obtain ⟨task, htask⟩ := firstContent_ok .user fun m hm hr => hcontent m hm (.inl hr)
  obtain ⟨prompt, hprompt⟩ := firstContent_ok .system fun m hm hr => hcontent m hm (.inr hr)
  unfold AgentTrajectory.fromCollectDict
  dsimp only
  rw [hmessages, Option.getD_some, htask, ok_bind, hprompt, ok_bind, pure_eq_ok]
  exact ⟨_, rfl⟩

theorem RawRecord.PreSplit.fromCollectDict_eq {d : RawRecord} (h : d.PreSplit) :
    ∃ trajectory, AgentTrajectory.fromCollectDict py d = .ok trajectory ∧ trajectory.steps = [] ∧
      trajectory.continuation = [] := by
  unfold AgentTrajectory.fromCollectDict
  rw [h.messages]
  exact ⟨_, rfl, rfl, rfl⟩

theorem loadDataset_of_collect {file : List String} {ds : List RawRecord} {trajectories : List AgentTrajectory}
    (hread : readRecords parse file = .ok ds)
    (hbuild : ds.mapM (AgentTrajectory.fromCollectDict py) = .ok trajectories) :
    loadDataset py parse file = .ok (trajectories, true) := by
  have hload : loadCollectTrajectories py parse file = .ok trajectories := by
    rw [loadCollectTrajectories, loadLines_eq_mapM parse _ hread, hbuild]
  rw [loadDataset, hload]

theorem loadDataset_preSplit {file : List String} {ds : List RawRecord} (hread : readRecords parse file = .ok ds)
    (h : ∀ d ∈ ds, d.PreSplit) : ∃ trajectories, loadDataset py parse file = .ok (trajectories, true) ∧
      ∀ t ∈ trajectories, t.steps = [] ∧ t.continuation = [] := by
  obtain ⟨trajectories, hbuild⟩ : ∃ trajectories, ds.mapM (AgentTrajectory.fromCollectDict py) = .ok trajectories := by
    apply mapM_ok_iff_forall.mpr
    intro d hd
    obtain ⟨t, ht, -⟩ := (h d hd).fromCollectDict_eq py
    exact ⟨t, ht⟩
  refine ⟨trajectories, loadDataset_of_collect py parse hread hbuild, ?_⟩
  intro t ht
  obtain ⟨d, hd, hbuilt⟩ := mem_of_mapM_ok hbuild ht
  obtain ⟨t', ht', hempty⟩ := (h d hd).fromCollectDict_eq py
  rw [ht'] at hbuilt
  cases hbuilt
  exact hempty

theorem loadsFormat_iff {file : List String} {ds : List RawRecord} (hread : readRecords parse file = .ok ds)
    (hformat : (∀ d ∈ ds, d.PreSplit) ∨ ∀ d ∈ ds, d.Collected) :
    LoadsFormat py parse file ds ↔ ∀ d ∈ ds, d.Collected := by
  constructor
  · rintro ⟨hpre, -⟩
    rcases hformat with hall | hall
    · by_cases hnil : ds = []
      · simp [hnil]
      · obtain ⟨ts, -, hload⟩ := hpre hnil hall
        obtain ⟨us, hload', -⟩ := loadDataset_preSplit py parse hread hall
        rw [hload] at hload'
        cases hload'
    · exact hall
  · intro hall
    constructor
    · intro hnil hpre
      obtain ⟨d, hd⟩ := List.exists_mem_of_ne_nil ds hnil
      obtain ⟨messages, hsome, -⟩ := (hall d hd).messages
      rw [(hpre d hd).messages] at hsome
      cases hsome
    · intro _
      obtain ⟨ts, hbuild⟩ := mapM_ok_iff_forall.mpr fun d hd => (hall d hd).fromCollectDict_ok py
      exact ⟨ts, hbuild, loadDataset_of_collect py parse hread hbuild⟩

def collectLine : String :=
  "\x7b\"uid\": \"u\", \"messages\": [\x7b\"role\": \"system\", \"content\": \"s\"\x7d, " ++
    "\x7b\"role\": \"user\", \"content\": \"t\"\x7d, \x7b\"role\": \"assistant\", \"content\": \"\", " ++
    "\"tool_calls\": [\x7b\"id\": \"c\", \"function\": \x7b\"name\": \"bash\", \"arguments\": \"\x7b\x7d\"\x7d\x7d]\x7d, " ++
    "\x7b\"role\": \"tool\", \"content\": \"o\", \"tool_call_id\": \"c\"\x7d]\x7d"

def collectRecord : RawRecord where
  uid := some "u"
  messages := some [{ role := .system, content := some (.text "s") }, { role := .user, content := some (.text "t") },
    { role := .assistant, content := some (.text ""), toolCalls := [⟨some "c", some "bash", some (.str "\x7b\x7d")⟩] },
    { role := .tool, content := some (.text "o"), toolCallId := some "c" }]

def preSplitLine : String :=
  "\x7b\"task\": \"t\", \"steps\": [\x7b\"role\": \"assistant\", \"content\": \"a\"\x7d], " ++
    "\"continuation\": [], \"summary\": \"s\"\x7d"

def preSplitRecord : RawRecord where
  task := some "t"
  steps := some [{ role := some .assistant, content := some (.text "a") }]
  continuation := some []
  summary := some "s"

def parseLine (line : String) : Except PyError RawRecord :=
  if line = collectLine then .ok collectRecord
  else if line = preSplitLine then .ok preSplitRecord
  else .error (.valueError "Expecting value")

theorem loadsFormat_collect_file :
    LoadsFormat asciiPython parseLine [collectLine ++ "\n", "\n"] [collectRecord] := by
  have hcollected : ∀ d ∈ [collectRecord], d.Collected := by
    simp only [List.mem_singleton, forall_eq]
    exact ⟨_, rfl, by simp⟩
  have hread : readRecords parseLine [collectLine ++ "\n", "\n"] = .ok [collectRecord] := by
    have hstrip : strip (collectLine ++ "\n") = collectLine := by decide +kernel
    have hne : collectLine ≠ "" := by decide +kernel
    rw [readRecords, hstrip, if_neg hne, parseLine, if_pos rfl]
    rfl
  exact (loadsFormat_iff asciiPython parseLine hread (.inr hcollected)).mpr hcollected

theorem preSplit_file_loaded_without_steps :
    readRecords parseLine [preSplitLine ++ "\n"] = .ok [preSplitRecord] ∧ preSplitRecord.PreSplit ∧
      ¬ LoadsFormat asciiPython parseLine [preSplitLine ++ "\n"] [preSplitRecord] := by
  have hstrip : strip (preSplitLine ++ "\n") = preSplitLine := by decide +kernel
  have hne : preSplitLine ≠ "" ∧ preSplitLine ≠ collectLine := by decide +kernel
  have hread : readRecords parseLine [preSplitLine ++ "\n"] = .ok [preSplitRecord] := by
    rw [readRecords, hstrip, if_neg hne.1, parseLine, if_neg hne.2, if_pos rfl]
    rfl
  have hpre : preSplitRecord.PreSplit := ⟨rfl, rfl, rfl, ⟨_, rfl, by simpa using ⟨rfl, by simp⟩⟩, ⟨_, rfl, by simp⟩⟩
  refine ⟨hread, hpre, ?_⟩
  rintro ⟨hload, -⟩
  obtain ⟨ts, -, hfalse⟩ := hload (by simp) (by simpa using hpre)
  obtain ⟨us, htrue, -⟩ := loadDataset_preSplit asciiPython parseLine hread (by simpa using hpre)
  rw [hfalse] at htrue
  cases htrue

end TokensThatSuffice
