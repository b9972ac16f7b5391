import TokensThatSuffice.RewardSweep

namespace TokensThatSuffice

open KeyedLog Runs

def SweepRow.key (r : SweepRow) : String × ℕ := (r.trajectoryId, r.nPrefixTurns)

def SweepUnit.key (u : SweepUnit) : String × ℕ := (u.traj.trajectoryId, u.kTurns)

def SweepRow.isFor (k : String × ℕ) (spec : SweepSpec) (r : SweepRow) : Bool :=
  r.key = k && r.spec.any (fun columns => columns.spec.spec = spec.spec)

namespace SweepSetup

variable {s : SweepSetup} {u : SweepUnit}

theorem specRow_key {row r : SweepRow} {split : AgentTrajectory} {partialMessages : List Message}
    {summary : String} {xCtx : XContext ℚ} {spec : SweepSpec}
    (h : s.specRow row split partialMessages summary xCtx spec = .ok r) : r.key = row.key := by
  obtain ⟨result, -, h⟩ := bind_eq_ok.mp h
  obtain ⟨compactionTokens, -, h⟩ := bind_eq_ok.mp h
  cases result with
  | error text =>
    cases h
    rfl
  | scored columns =>
    cases h
    rfl

theorem sweepOne_key {rows : List SweepRow} (h : s.sweepOne u = .ok rows) : ∀ r ∈ rows, r.key = u.key := by
  have hone {row : SweepRow} (hrow : row.key = u.key) (heq : (.ok [row] : Except PyError _) = .ok rows) :
      ∀ r ∈ rows, r.key = u.key := by
    cases heq
    intro r hr
    rw [List.mem_singleton.mp hr, hrow]
  unfold sweepOne at h
  dsimp only at h
  split at h
  · exact hone rfl h
  · obtain ⟨partialMessages, -, h⟩ := bind_eq_ok.mp h
    obtain ⟨nextMessages, -, h⟩ := bind_eq_ok.mp h
    obtain ⟨nextActionMessage, -, h⟩ := bind_eq_ok.mp h
    split at h
    · exact hone rfl h
    · obtain ⟨context, -, h⟩ := bind_eq_ok.mp h
      cases context with
      | none => exact hone rfl h
      | some xCtx =>
        intro r hr
        obtain ⟨spec, -, hspec⟩ := mem_of_mapM_ok h hr
        rw [specRow_key hspec]
        rfl

theorem unitRows_key (s : SweepSetup) (u : SweepUnit) : ∀ r ∈ s.unitRows u, r.key = u.key := by
  unfold unitRows
  split
  next rows h => exact sweepOne_key h
  next exc h =>
    intro r hr
    rw [List.mem_singleton.mp hr]
    rfl

def jobs (s : SweepSetup) : Jobs SweepUnit (String × ℕ) SweepRow where
  key := SweepUnit.key
  rowKey := SweepRow.key
  rows := s.unitRows
  rows_key := s.unitRows_key

end SweepSetup

theorem isFor_key {k : String × ℕ} (spec : SweepSpec) (r : SweepRow) (h : r.isFor k spec) : r.key = k := by
  rw [SweepRow.isFor, Bool.and_eq_true, decide_eq_true_eq] at h
  exact h.1

section Resume

variable {s : SweepSetup} {units : List SweepUnit} {file final whole : List SweepRow} {events : List Ending}

def KeepsRows (s : SweepSetup) (units : List SweepUnit) (whole final : List SweepRow) : Prop :=
  ∀ u ∈ units, ∀ spec ∈ s.specs, whole.countP (·.isFor u.key spec) = 1 → final.countP (·.isFor u.key spec) = 1

def NoTornUnit (s : SweepSetup) (units : List SweepUnit) (whole file : List SweepRow) : Prop :=
  ∀ u ∈ units, ∀ spec ∈ s.specs, whole.countP (·.isFor u.key spec) = 1 →
    u.key ∈ file.map SweepRow.key → ∃ r ∈ file, r.isFor u.key spec

theorem sweep_resumed (hwhole : s.jobs.Attempt units [] .finished whole)
    (hkilled : Run (s.jobs.Attempt units) [] file events) (hfinal : s.jobs.Attempt units file .finished final) :
    KeepsRows s units whole final ↔ NoTornUnit s units whole file := by
  have hcount (u : SweepUnit) (spec : SweepSpec) :
      whole.countP (·.isFor u.key spec) = (s.jobs.output units).countP (·.isFor u.key spec) := by
    cases hwhole with
    | finished order horder =>
      rw [Jobs.countP_written (isFor_key spec) horder]
      exact if_neg List.not_mem_nil
  apply forall₂_congr
  intro u hu
  apply forall₂_congr
  intro spec hspec
  apply forall_congr'
  intro honce
  rw [hcount] at honce
  exact Jobs.resumed_once_iff (isFor_key spec) hkilled hfinal honce

end Resume

def twoSpecs : SweepSetup where
  py := asciiPython
  tokenizer := charTokenizer
  server request := .ok ⟨some request.prompt.length, some (request.prompt.toList.map (fun _ => some (-1)))⟩
  model := "m"
  apiBase := "b"
  tanh := id
  summarize _ := .ok "Listed the files."
  excText _ := ""
  systemPrompt := .text ""
  bashTool := .str "bash"
  specs := [⟨"h2t1", 2, 1, 8⟩, ⟨"h4t3", 4, 3, 20⟩]
  weights := {}
  beta := 0

def lsStep (id : String) : TrajectoryStep where
  role := .assistant
  content := .text "List."
  toolCalls := [⟨"bash", .object [("command", .str "ls")], id⟩]

def lsUnit : SweepUnit where
  traj := {
    task := .text "Fix it."
    steps := [lsStep "c0", { role := .tool, content := .text "a.py", toolCallId := "c0" }, lsStep "c1"]
    continuation := []
    summary := ""
    trajectoryId := "t"
    agentSystemPrompt := .text "s" }
  kTurns := 1
  contextTokens := 10

theorem lsUnit_todo {file : List SweepRow} (h : lsUnit.key ∈ file.map SweepRow.key) :
    twoSpecs.jobs.todo [lsUnit] file = [] := by
  rw [Jobs.todo, List.filter_eq_nil_iff]
  intro u hu
  rw [List.mem_singleton.mp hu, Bool.not_eq_true, decide_eq_false_iff_not, not_not]
  exact h

theorem lsUnit_rows : ∃ a b : SweepRow, twoSpecs.jobs.output [lsUnit] = [a, b] ∧
    lsUnit.key ∈ [a].map SweepRow.key ∧ [a, b].countP (·.isFor lsUnit.key ⟨"h4t3", 4, 3, 20⟩) = 1 ∧
    [a].countP (·.isFor lsUnit.key ⟨"h4t3", 4, 3, 20⟩) = 0 := by
  have hrows : (twoSpecs.unitRows lsUnit).map (fun r => (r.key, r.isFor lsUnit.key ⟨"h4t3", 4, 3, 20⟩)) =
      [(("t", 1), false), (("t", 1), true)] := by decide +kernel
  obtain ⟨a, rest, hunit, ha, hrest⟩ := List.map_eq_cons_iff.mp hrows
  obtain ⟨b, rest, rfl, hb, hnil⟩ := List.map_eq_cons_iff.mp hrest
  obtain rfl := List.map_eq_nil_iff.mp hnil
  obtain ⟨hkey, ha⟩ := Prod.mk.inj ha
  obtain ⟨-, hb⟩ := Prod.mk.inj hb
  refine ⟨a, b, ?_, ?_, ?_, ?_⟩
  · rw [Jobs.output, List.flatMap_singleton]
    exact hunit
  · rw [List.map_singleton, hkey]
    exact List.mem_singleton_self _
  · rw [List.countP_cons_of_neg (by rw [ha]; decide), List.countP_cons_of_pos hb, List.countP_nil]
  · rw [List.countP_cons_of_neg (by rw [ha]; decide), List.countP_nil]

theorem lsUnit_killed : ∃ whole file final : List SweepRow,
    twoSpecs.jobs.Attempt [lsUnit] [] .finished whole ∧
      Run (twoSpecs.jobs.Attempt [lsUnit]) [] file [.killed] ∧
      twoSpecs.jobs.Attempt [lsUnit] file .finished final ∧ ¬ KeepsRows twoSpecs [lsUnit] whole final := by
  obtain ⟨a, b, hout, hkey, honce, hnone⟩ := lsUnit_rows
  have hwhole : twoSpecs.jobs.Attempt [lsUnit] [] .finished [a, b] := by
    rw [← hout]
    exact .finished [lsUnit] (.refl _)
  have hkilled : twoSpecs.jobs.Attempt [lsUnit] [] .killed [a] := by
    apply Jobs.Attempt.killed [lsUnit] [a] (.refl _)
    rw [hout]
    exact ⟨[b], rfl⟩
  have hfinal : twoSpecs.jobs.Attempt [lsUnit] [a] .finished ([a] ++ twoSpecs.jobs.output []) := by
    apply Jobs.Attempt.finished []
    rw [lsUnit_todo hkey]
  refine ⟨[a, b], [a], [a], hwhole, .snoc .nil hkilled, hfinal, ?_⟩
  intro h
  have hfound := h lsUnit (List.mem_singleton_self _) ⟨"h4t3", 4, 3, 20⟩ (by decide) honce
  rw [hnone] at hfound
  exact absurd hfound zero_ne_one

theorem sweep_resumed_lsUnit : ∃ whole file final : List SweepRow,
    Run (twoSpecs.jobs.Attempt [lsUnit]) [] file [.killed] ∧
      (KeepsRows twoSpecs [lsUnit] whole final ↔ NoTornUnit twoSpecs [lsUnit] whole file) := by
  obtain ⟨whole, file, final, hwhole, hkilled, hfinal, -⟩ := lsUnit_killed
  exact ⟨whole, file, final, hkilled, sweep_resumed hwhole hkilled hfinal⟩

theorem sweep_loses_rows : ¬ ∀ (s : SweepSetup) (units : List SweepUnit) (whole file final : List SweepRow)
    (events : List Ending), s.jobs.Attempt units [] .finished whole → Run (s.jobs.Attempt units) [] file events →
      s.jobs.Attempt units file .finished final → KeepsRows s units whole final := by
  intro h
  obtain ⟨whole, file, final, hwhole, hkilled, hfinal, hlost⟩ := lsUnit_killed
  exact hlost (h _ _ _ _ _ _ hwhole hkilled hfinal)

end TokensThatSuffice
