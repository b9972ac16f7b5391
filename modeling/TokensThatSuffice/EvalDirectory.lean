import TokensThatSuffice.InstanceRuns
import TokensThatSuffice.Runs

namespace TokensThatSuffice

open Runs TryBlocks

/-- A `.traj.json`; a killed writer leaves it torn, and no JSON. -/
inductive TrajFile where
  | torn
  | run (r : EvalSwebench.SavedRun)

inductive PredsFile where
  | absent
  | torn
  | preds (p : Predictions)

structure OutputDir where
  preds : PredsFile := .absent
  traj : String → Option TrajFile := fun _ => none

def Predictions.ids (p : Predictions) : List String := p.map Prod.fst

namespace OutputDir

def setTraj (d : OutputDir) (instanceId : String) (t : Option TrajFile) : OutputDir :=
  { d with traj := fun i => if i = instanceId then t else d.traj i }

/-- The instances that a start of the evaluation runs; `none` where it raises. -/
def selected (d : OutputDir) (redoExisting : Bool) (instances : List String) : Option (List String) :=
  if redoExisting then some instances
  else
    match d.preds with
    | .absent => some instances
    | .torn => none
    | .preds p => some (instances.filter (· ∉ p.ids))

/-- `remove_from_preds_file` and the unlinking of the trajectory; `none` where reading the predictions raises. -/
def begin? (d : OutputDir) (instanceId : String) : Option OutputDir :=
  match d.preds with
  | .absent => some (d.setTraj instanceId none)
  | .torn => none
  | .preds p => some ({ d with preds := .preds (removeFromPredsFile p instanceId) }.setTraj instanceId none)

/-- `update_preds_file`, which raises on a file that it cannot read. -/
def addPrediction (d : OutputDir) (instanceId : String) (e : Prediction) : OutputDir :=
  match d.preds with
  | .absent => { d with preds := .preds (updatePredsFile [] instanceId e.modelNameOrPath e.modelPatch) }
  | .torn => d
  | .preds p => { d with preds := .preds (updatePredsFile p instanceId e.modelNameOrPath e.modelPatch) }

def finish (d : OutputDir) (cfg : EvalSwebench.Config) (instanceId : String) (o : Stages) : OutputDir :=
  let s := (EvalSwebench.processInstance cfg { o with meanwhile := id } instanceId []).2
  let d := match s.trajectory with
    | none => d
    | some r => d.setTraj instanceId (some (.run r))
  match s.preds.lookup instanceId with
  | none => d
  | some e => d.addPrediction instanceId e

def exitStatusOf : Option TrajFile → Option String
  | some (.run r) => r.exitStatus
  | _ => none

def isFailed (statuses : List String) (t : Option TrajFile) : Bool := (exitStatusOf t).any (· ∈ statuses)

/-- `clean_dir`, not as a dry run; it reads the predictions first and writes them last. -/
def clean (d : OutputDir) (statuses : List String) : OutputDir :=
  match d.preds with
  | .preds p => {
      preds := .preds (p.filter (fun e => !isFailed statuses (d.traj e.1)))
      traj := fun i => if isFailed statuses (d.traj i) then none else d.traj i }
  | _ => d

/-- A cleaning that is killed after it removed the directories of `removed`. -/
def cleanPart (d : OutputDir) (removed : List String) : OutputDir :=
  { d with traj := fun i => if i ∈ removed then none else d.traj i }

def regrade (resolved : Bool) (evaluation : Report) : TrajFile → TrajFile
  | .torn => .torn
  | .run r => .run { r with resolved := some resolved, evaluation := some evaluation }

/-- `_update_traj`; it raises on a torn file, and leaves it. -/
def grade (d : OutputDir) (instanceId : String) (resolved : Bool) (evaluation : Report) : OutputDir :=
  d.setTraj instanceId ((d.traj instanceId).map (regrade resolved evaluation))

end OutputDir

structure EvalRun where
  cfg : EvalSwebench.Config
  pending : List String
  running : List String := []

structure EvalSystem where
  dir : OutputDir := {}
  eval : Option EvalRun := none

inductive DirEvent where
  | started (redoExisting : Bool) (instances : List String)
  | begun (instanceId : String)
  | ended (instanceId : String)
  | completed
  | killed
  | cleaned (statuses : List String)
  | cleanKilled (statuses : List String)
  | graded (instanceId : String)
  deriving DecidableEq

/-- Taken for granted, as no tool holds a lock on the directory: while an evaluation runs, with any number of workers,
nothing else starts, cleans or grades, and a cleaning or a grading has the directory to itself. -/
inductive DirStep : EvalSystem → DirEvent → EvalSystem → Prop
  | started (d : OutputDir) (cfg : EvalSwebench.Config) (redo : Bool) (instances pending : List String)
      (hnodup : instances.Nodup) (hselected : d.selected redo instances = some pending) :
      DirStep ⟨d, none⟩ (.started redo instances) ⟨d, some ⟨cfg, pending, []⟩⟩
  | begun (d d' : OutputDir) (r : EvalRun) (before : List String) (i : String) (after : List String)
      (hpending : r.pending = before ++ i :: after) (hbegin : d.begin? i = some d') :
      DirStep ⟨d, some r⟩ (.begun i) ⟨d', some { r with pending := before ++ after, running := i :: r.running }⟩
  | refused (d : OutputDir) (r : EvalRun) (before : List String) (i : String) (after : List String)
      (hpending : r.pending = before ++ i :: after) (hbegin : d.begin? i = none) :
      DirStep ⟨d, some r⟩ (.ended i) ⟨d, some { r with pending := before ++ after }⟩
  | ended (d : OutputDir) (r : EvalRun) (before : List String) (i : String) (after : List String) (o : Stages)
      (hrunning : r.running = before ++ i :: after) :
      DirStep ⟨d, some r⟩ (.ended i) ⟨d.finish r.cfg i o, some { r with running := before ++ after }⟩
  | completed (d : OutputDir) (r : EvalRun) (hpending : r.pending = []) (hrunning : r.running = []) :
      DirStep ⟨d, some r⟩ .completed ⟨d, none⟩
  | killed (d : OutputDir) (r : EvalRun) : DirStep ⟨d, some r⟩ .killed ⟨d, none⟩
  | killedBeginning (d : OutputDir) (p : Predictions) (r : EvalRun) (i : String) (hpending : i ∈ r.pending)
      (hpreds : d.preds = .preds p) :
      DirStep ⟨d, some r⟩ .killed ⟨{ d with preds := .preds (removeFromPredsFile p i) }, none⟩
  | killedSaving (d : OutputDir) (r : EvalRun) (i : String) (hrunning : i ∈ r.running) :
      DirStep ⟨d, some r⟩ .killed ⟨d.setTraj i (some .torn), none⟩
  | killedWriting (d : OutputDir) (r : EvalRun) : DirStep ⟨d, some r⟩ .killed ⟨{ d with preds := .torn }, none⟩
  | cleaned (d : OutputDir) (statuses : List String) :
      DirStep ⟨d, none⟩ (.cleaned statuses) ⟨d.clean statuses, none⟩
  | cleanKilled (d : OutputDir) (p : Predictions) (statuses removed : List String) (hpreds : d.preds = .preds p)
      (hremoved : ∀ i ∈ removed, OutputDir.isFailed statuses (d.traj i)) :
      DirStep ⟨d, none⟩ (.cleanKilled statuses) ⟨d.cleanPart removed, none⟩
  | cleanKilledWriting (d : OutputDir) (p : Predictions) (statuses : List String) (hpreds : d.preds = .preds p) :
      DirStep ⟨d, none⟩ (.cleanKilled statuses) ⟨{ d.clean statuses with preds := .torn }, none⟩
  | graded (d : OutputDir) (p : Predictions) (i : String) (resolved : Bool) (evaluation : Report)
      (hpreds : d.preds = .preds p) (hi : i ∈ p.ids) :
      DirStep ⟨d, none⟩ (.graded i) ⟨d.grade i resolved evaluation, none⟩
  | gradeKilled (d : OutputDir) (p : Predictions) (i : String) (hpreds : d.preds = .preds p) (hi : i ∈ p.ids)
      (htraj : (d.traj i).isSome) :
      DirStep ⟨d, none⟩ (.graded i) ⟨d.setTraj i (some .torn), none⟩

section Worker

namespace EvalSwebench

variable (cfg : Config) {o : Stages} {i : String}

theorem body_frame (s : Locals) :
    (body cfg o s).2.preds = s.preds ∧ (body cfg o s).2.trajectory = s.trajectory := by
  unfold body
  cases henvironment : o.environment with
  | error e =>
    rw [bind_error (outcome_apply _ _)]
    exact ⟨rfl, rfl⟩
  | ok u =>
    rw [bind_ok (outcome_apply _ _)]
    cases hconstruct : o.construct with
    | error e =>
      rw [bind_error (outcome_apply _ _)]
      exact ⟨rfl, rfl⟩
    | ok u =>
      rw [bind_ok (outcome_apply _ _), bind_ok (assign_apply _ _)]
      cases hrun : o.run with
      | error e =>
        rw [bind_error (outcome_apply _ _)]
        exact ⟨rfl, rfl⟩
      | ok info =>
        rw [bind_ok (outcome_apply _ _), bind_ok (assign_apply _ _)]
        unfold grading
        split_ifs
        · cases hstatus : o.status with
          | error e =>
            rw [bind_error (outcome_apply _ _)]
            exact ⟨rfl, rfl⟩
          | ok u =>
            rw [bind_ok (outcome_apply _ _)]
            cases hreport : o.evaluate (info.submission.getD "") with
            | error e =>
              rw [bind_error (outcome_apply _ _)]
              exact ⟨rfl, rfl⟩
            | ok report =>
              rw [bind_ok (outcome_apply _ _)]
              exact ⟨rfl, rfl⟩
        · exact ⟨rfl, rfl⟩

theorem guarded_frame (s : Locals) :
    (tryExcept (body cfg o) (·.isException) onException s).2.preds = s.preds ∧
      (tryExcept (body cfg o) (·.isException) onException s).2.trajectory = s.trajectory := by
  have hframe := body_frame cfg (o := o) s
  unfold tryExcept
  generalize body cfg o s = r at hframe
  obtain ⟨r, t⟩ := r
  cases r with
  | ok _ => exact hframe
  | error e =>
    dsimp only
    split_ifs
    · exact hframe
    · exact hframe

structure Written (cfg : Config) (i : String) (s : Locals) : Prop where
  trajectory : ∀ r, s.trajectory = some r → r.instanceId = i
  prediction : ∀ e, s.preds.lookup i = some e → e.modelNameOrPath = cfg.runName ∧ e.instanceId = i ∧
    ∀ r, s.trajectory = some r → e.modelPatch = r.submission.getD ""

theorem finallyClause_written {s : Locals} (hpreds : s.preds = [])
    (htraj : s.trajectory = none) : Written cfg i (finallyClause cfg o i s).2 := by
  have hadded {t : Locals} (hpreds : t.preds = []) (hinstance : ∀ r, t.trajectory = some r → r.instanceId = i)
      (hresult : ∀ r, t.trajectory = some r → r.submission = t.result) :
      Written cfg i ((outcome o.writePreds >>= fun _ => assign fun s => { s with
        preds := updatePredsFile (o.meanwhile s.preds) i cfg.runName (s.result.getD "") } :
        Attempt Locals Raised Unit) t).2 := by
    cases o.writePreds with
    | error e =>
      rw [bind_error (outcome_apply _ _)]
      exact ⟨hinstance, by simp [hpreds]⟩
    | ok u =>
      rw [bind_ok (outcome_apply _ _)]
      refine ⟨hinstance, ?_⟩
      intro e he
      rw [assign_apply] at he
      dsimp only at he
      rw [lookup_updatePredsFile] at he
      cases he
      refine ⟨rfl, rfl, ?_⟩
      intro r hr
      rw [hresult r hr]
  cases hagent : s.agent with
  | none =>
    have hsaved : save cfg o i s = (.ok (), s) := by
      unfold save
      rw [hagent]
    unfold finallyClause
    rw [bind_ok hsaved]
    exact hadded hpreds (by simp [htraj]) (by simp [htraj])
  | some agent =>
    cases hsave : o.save with
    | error e =>
      have hsaved : save cfg o i s = (.error e, s) := by
        unfold save
        rw [hagent, hsave]
      unfold finallyClause
      rw [bind_error hsaved]
      exact ⟨by simp [htraj], by simp [hpreds]⟩
    | ok u =>
      have hsaved : save cfg o i s = (.ok (), { s with trajectory := some (savedRun cfg i agent s) }) := by
        unfold save
        rw [hagent, hsave]
      unfold finallyClause
      rw [bind_ok hsaved]
      refine hadded ?_ ?_ ?_
      · exact hpreds
      · rintro r ⟨⟩
        rfl
      · rintro r ⟨⟩
        rfl

theorem processInstance_written : Written cfg i (processInstance cfg o i []).2 := by
  obtain ⟨hpreds, htraj⟩ := guarded_frame cfg (o := o) (start i [])
  have hwritten := finallyClause_written cfg (o := o) (i := i) hpreds htraj
  rw [← tryFinally_state] at hwritten
  unfold processInstance
  dsimp only
  cases hsetup : o.setup with
  | error e =>
    rw [bind_error (outcome_apply _ _)]
    exact ⟨nofun, nofun⟩
  | ok u =>
    rw [bind_ok (outcome_apply _ _)]
    generalize tryFinally _ _ _ = r at hwritten ⊢
    obtain ⟨r, t⟩ := r
    cases r with
    | ok _ => exact hwritten
    | error e => exact hwritten

end EvalSwebench

end Worker

section Predictions

variable {p : Predictions} {i : String} {e : String × Prediction}

theorem mem_removeFromPredsFile : e ∈ removeFromPredsFile p i ↔ e ∈ p ∧ e.1 ≠ i := by
  rw [removeFromPredsFile, List.mem_filter, decide_eq_true_eq]

theorem mem_updatePredsFile {name result : String} (h : e ∈ updatePredsFile p i name result) :
    e = (i, ⟨name, i, result⟩) ∨ e ∈ p ∧ e.1 ≠ i := by
  unfold updatePredsFile at h
  dsimp only at h
  split_ifs at h with hany
  · obtain ⟨e', he', rfl⟩ := List.mem_map.mp h
    by_cases hkey : e'.1 = i
    · exact .inl (if_pos hkey)
    · rw [if_neg hkey]
      exact .inr ⟨he', hkey⟩
  · rcases List.mem_append.mp h with he | he
    · refine .inr ⟨he, ?_⟩
      intro hkey
      exact hany (List.any_eq_true.mpr ⟨e, he, decide_eq_true hkey⟩)
    · exact .inl (List.mem_singleton.mp he)

theorem mem_updatePredsFile_of_ne {name result : String} (he : e ∈ p) (hne : e.1 ≠ i) :
    e ∈ updatePredsFile p i name result := by
  unfold updatePredsFile
  dsimp only
  split_ifs
  · exact List.mem_map.mpr ⟨e, he, if_neg hne⟩
  · exact List.mem_append_left _ he

theorem ids_updatePredsFile (p : Predictions) (i name result : String) :
    (updatePredsFile p i name result).ids = if i ∈ p.ids then p.ids else p.ids ++ [i] := by
  have hany : p.any (·.1 = i) = true ↔ i ∈ p.ids := by
    rw [List.any_eq_true, Predictions.ids, List.mem_map]
    simp only [decide_eq_true_eq]
  unfold updatePredsFile
  dsimp only
  by_cases hi : i ∈ p.ids
  · rw [if_pos (hany.mpr hi), if_pos hi, Predictions.ids, List.map_map]
    apply List.map_congr_left
    intro e _
    rw [Function.comp_apply]
    split_ifs with hkey
    · exact hkey.symm
    · rfl
  · rw [if_neg (mt hany.mp hi), if_neg hi, Predictions.ids, List.map_append]
    rfl

theorem nodup_updatePredsFile (h : p.ids.Nodup) (i name result : String) :
    (updatePredsFile p i name result).ids.Nodup := by
  rw [ids_updatePredsFile]
  split_ifs with hi
  · exact h
  · rw [List.nodup_append]
    refine ⟨h, List.nodup_singleton i, ?_⟩
    rintro a ha b hb rfl
    exact hi (List.mem_singleton.mp hb ▸ ha)

end Predictions

namespace OutputDir

structure Consistent (d : OutputDir) : Prop where
  ids : ∀ p, d.preds = .preds p → p.ids.Nodup
  entries : ∀ p, d.preds = .preds p → ∀ e ∈ p, e.2.instanceId = e.1 ∧
    ∀ r, d.traj e.1 = some (.run r) → r.instanceId = e.1 ∧ e.2.modelPatch = r.submission.getD ""

structure Cleared (d : OutputDir) (i : String) : Prop where
  preds : ∀ p, d.preds = .preds p → i ∉ p.ids
  traj : d.traj i = none

section Operations

variable {d : OutputDir} {i : String}

@[simp] theorem setTraj_preds (d : OutputDir) (i : String) (t : Option TrajFile) : (d.setTraj i t).preds = d.preds := rfl

theorem setTraj_same (d : OutputDir) (i : String) (t : Option TrajFile) : (d.setTraj i t).traj i = t := if_pos rfl

theorem setTraj_of_ne (d : OutputDir) (t : Option TrajFile) {j : String} (h : j ≠ i) :
    (d.setTraj i t).traj j = d.traj j := if_neg h

theorem Consistent.setTraj (h : d.Consistent) {t : Option TrajFile}
    (ht : ∀ p, d.preds = .preds p → ∀ e ∈ p, e.1 = i → ∀ r, t = some (.run r) →
      r.instanceId = i ∧ e.2.modelPatch = r.submission.getD "") : (d.setTraj i t).Consistent where
  ids := h.ids
  entries p hp e he := by
    refine ⟨(h.entries p hp e he).1, ?_⟩
    intro r hr
    by_cases hkey : e.1 = i
    · rw [hkey, setTraj_same] at hr
      rw [hkey]
      exact ht p hp e he hkey r hr
    · rw [setTraj_of_ne d t hkey] at hr
      exact (h.entries p hp e he).2 r hr

theorem Cleared.notMem (h : d.Cleared i) {p : Predictions} (hp : d.preds = .preds p) {e : String × Prediction}
    (he : e ∈ p) : e.1 ≠ i := by
  rintro rfl
  exact h.preds p hp (List.mem_map_of_mem he)

theorem Consistent.addPrediction (h : d.Consistent) {e : Prediction}
    (htraj : ∀ r, d.traj i = some (.run r) → r.instanceId = i ∧ e.modelPatch = r.submission.getD "") :
    (d.addPrediction i e).Consistent := by
  have hupdate (p : Predictions) (hnodup : p.ids.Nodup) (hentries : ∀ e ∈ p, e.2.instanceId = e.1 ∧
      ∀ r, d.traj e.1 = some (.run r) → r.instanceId = e.1 ∧ e.2.modelPatch = r.submission.getD "") :
      Consistent { d with preds := .preds (updatePredsFile p i e.modelNameOrPath e.modelPatch) } := by
    constructor
    · rintro _ ⟨⟩
      exact nodup_updatePredsFile hnodup _ _ _
    · rintro _ ⟨⟩ e' he'
      rcases mem_updatePredsFile he' with rfl | ⟨he', -⟩
      · exact ⟨rfl, htraj⟩
      · exact hentries e' he'
  unfold OutputDir.addPrediction
  cases hpreds : d.preds with
  | absent => exact hupdate [] List.nodup_nil (by simp)
  | torn => exact h
  | preds p => exact hupdate p (h.ids p hpreds) (h.entries p hpreds)

theorem Consistent.begin (h : d.Consistent) {d' : OutputDir} (hbegin : d.begin? i = some d') :
    d'.Consistent ∧ d'.Cleared i := by
  unfold begin? at hbegin
  cases hpreds : d.preds with
  | absent =>
    rw [hpreds] at hbegin
    cases hbegin
    refine ⟨h.setTraj (by simp), ?_, setTraj_same _ _ _⟩
    intro p hp
    rw [setTraj_preds, hpreds] at hp
    cases hp
  | torn =>
    rw [hpreds] at hbegin
    cases hbegin
  | preds p =>
    rw [hpreds] at hbegin
    cases hbegin
    refine ⟨Consistent.setTraj ?_ (by simp), ?_, setTraj_same _ _ _⟩
    · constructor
      · rintro _ ⟨⟩
        exact (h.ids p hpreds).sublist (List.filter_sublist.map Prod.fst)
      · rintro _ ⟨⟩ e he
        exact h.entries p hpreds e (mem_removeFromPredsFile.mp he).1
    · rintro _ ⟨⟩ hmem
      obtain ⟨e, he, hkey⟩ := List.mem_map.mp hmem
      exact (mem_removeFromPredsFile.mp he).2 hkey

theorem Consistent.finish (h : d.Consistent) (hcleared : d.Cleared i) (cfg : EvalSwebench.Config) (o : Stages) :
    (d.finish cfg i o).Consistent := by
  obtain ⟨htraj, hpred⟩ := EvalSwebench.processInstance_written cfg (o := { o with meanwhile := id }) (i := i)
  unfold OutputDir.finish
  dsimp only
  generalize (EvalSwebench.processInstance cfg { o with meanwhile := id } i []).2 = s at htraj hpred ⊢
  cases hs : s.trajectory with
  | none =>
    cases hlookup : s.preds.lookup i with
    | none => exact h
    | some e =>
      apply h.addPrediction
      rw [hcleared.traj]
      exact nofun
  | some r =>
    have hsaved : (d.setTraj i (some (.run r))).Consistent := by
      apply h.setTraj
      intro p hp e he hkey
      exact absurd hkey (hcleared.notMem hp he)
    cases hlookup : s.preds.lookup i with
    | none => exact hsaved
    | some e =>
      obtain ⟨-, -, hpatch⟩ := hpred e hlookup
      apply hsaved.addPrediction
      intro r' hr'
      rw [setTraj_same] at hr'
      cases hr'
      exact ⟨htraj r hs, hpatch r hs⟩

theorem Consistent.clean (h : d.Consistent) (statuses : List String) : (d.clean statuses).Consistent := by
  unfold OutputDir.clean
  cases hpreds : d.preds with
  | absent => exact h
  | torn => exact h
  | preds p =>
    constructor
    · rintro _ ⟨⟩
      exact (h.ids p hpreds).sublist (List.filter_sublist.map Prod.fst)
    · rintro _ ⟨⟩ e he
      obtain ⟨hid, htraj⟩ := h.entries p hpreds e (List.mem_of_mem_filter he)
      refine ⟨hid, ?_⟩
      intro r hr
      dsimp only at hr
      split_ifs at hr
      exact htraj r hr

theorem Consistent.cleanPart (h : d.Consistent) (removed : List String) : (d.cleanPart removed).Consistent where
  ids := h.ids
  entries p hp e he := by
    obtain ⟨hid, htraj⟩ := h.entries p hp e he
    refine ⟨hid, ?_⟩
    intro r hr
    unfold OutputDir.cleanPart at hr
    dsimp only at hr
    split_ifs at hr
    exact htraj r hr

theorem Consistent.grade (h : d.Consistent) (resolved : Bool) (evaluation : Report) :
    (d.grade i resolved evaluation).Consistent := by
  apply h.setTraj
  rintro p hp e he rfl r hr
  obtain ⟨t, ht, hgraded⟩ := Option.map_eq_some_iff.mp hr
  cases t with
  | torn => cases hgraded
  | run r' =>
    cases hgraded
    exact (h.entries p hp e he).2 r' ht

theorem Consistent.tornPreds (traj : String → Option TrajFile) : Consistent ⟨.torn, traj⟩ := ⟨nofun, nofun⟩

end Operations

section Frames

variable {d : OutputDir} {i j : String}

structure SameAt (d d' : OutputDir) (j : String) : Prop where
  traj : d'.traj j = d.traj j
  preds : ∀ p', d'.preds = .preds p' → ∀ e, e.1 = j → (e ∈ p' ↔ ∃ p, d.preds = .preds p ∧ e ∈ p)

theorem sameAt_begin {d' : OutputDir} (hbegin : d.begin? i = some d') (hne : j ≠ i) : SameAt d d' j := by
  unfold begin? at hbegin
  cases hpreds : d.preds with
  | absent =>
    rw [hpreds] at hbegin
    cases hbegin
    refine ⟨setTraj_of_ne d none hne, ?_⟩
    intro p' hp'
    rw [setTraj_preds, hpreds] at hp'
    cases hp'
  | torn =>
    rw [hpreds] at hbegin
    cases hbegin
  | preds p =>
    rw [hpreds] at hbegin
    cases hbegin
    refine ⟨setTraj_of_ne _ none hne, ?_⟩
    rintro _ ⟨⟩ e rfl
    rw [mem_removeFromPredsFile]
    exact ⟨fun he => ⟨p, hpreds, he.1⟩, fun ⟨p', hp', he⟩ => by
      rw [hpreds] at hp'
      cases hp'
      exact ⟨he, hne⟩⟩

theorem sameAt_addPrediction (d : OutputDir) (e : Prediction) (hne : j ≠ i) : SameAt d (d.addPrediction i e) j := by
  unfold OutputDir.addPrediction
  cases hpreds : d.preds with
  | absent =>
    refine ⟨rfl, ?_⟩
    rintro _ ⟨⟩ e' rfl
    constructor
    · intro he'
      rcases mem_updatePredsFile he' with rfl | ⟨he', -⟩
      · exact absurd rfl hne
      · cases he'
    · rintro ⟨p, hp, -⟩
      rw [hpreds] at hp
      cases hp
  | torn => exact ⟨rfl, fun p' hp' => by rw [hpreds] at hp'; cases hp'⟩
  | preds p =>
    refine ⟨rfl, ?_⟩
    rintro _ ⟨⟩ e' rfl
    constructor
    · intro he'
      rcases mem_updatePredsFile he' with rfl | ⟨he', -⟩
      · exact absurd rfl hne
      · exact ⟨p, hpreds, he'⟩
    · rintro ⟨p', hp', he'⟩
      rw [hpreds] at hp'
      cases hp'
      exact mem_updatePredsFile_of_ne he' hne

theorem SameAt.of_setTraj {t : Option TrajFile} {d' : OutputDir} (h : SameAt (d.setTraj i t) d' j) (hne : j ≠ i) :
    SameAt d d' j := ⟨h.traj.trans (setTraj_of_ne d t hne), h.preds⟩

theorem SameAt.refl (d : OutputDir) (j : String) : SameAt d d j := by
  refine ⟨rfl, ?_⟩
  intro p' hp' e _
  refine ⟨fun he => ⟨p', hp', he⟩, ?_⟩
  rintro ⟨p, hp, he⟩
  rw [hp'] at hp
  cases hp
  exact he

theorem sameAt_finish (d : OutputDir) (cfg : EvalSwebench.Config) (o : Stages) (hne : j ≠ i) :
    SameAt d (d.finish cfg i o) j := by
  unfold OutputDir.finish
  dsimp only
  generalize (EvalSwebench.processInstance cfg { o with meanwhile := id } i []).2 = s
  cases s.trajectory with
  | none =>
    cases s.preds.lookup i with
    | none => exact .refl d j
    | some e => exact sameAt_addPrediction d e hne
  | some r =>
    cases s.preds.lookup i with
    | none => exact (SameAt.refl _ j).of_setTraj hne
    | some e => exact (sameAt_addPrediction _ e hne).of_setTraj hne

theorem SameAt.cleared {d' : OutputDir} (h : SameAt d d' j) (hcleared : d.Cleared j) : d'.Cleared j where
  traj := h.traj.trans hcleared.traj
  preds p' hp' hj := by
    obtain ⟨e, he, hkey⟩ := List.mem_map.mp hj
    obtain ⟨p, hp, he⟩ := (h.preds p' hp' e hkey).mp he
    exact hcleared.notMem hp he hkey

end Frames

end OutputDir

structure EvalSystem.Agrees (s : EvalSystem) : Prop where
  consistent : s.dir.Consistent
  active : ∀ r ∈ s.eval, (r.running ++ r.pending).Nodup
  cleared : ∀ r ∈ s.eval, ∀ i ∈ r.running, s.dir.Cleared i

section Lifecycle

open OutputDir

variable {s s' : EvalSystem} {e : DirEvent} {events : List DirEvent}

theorem EvalSystem.Agrees.idle {d : OutputDir} (h : d.Consistent) : EvalSystem.Agrees ⟨d, none⟩ := ⟨h, nofun, nofun⟩

theorem selected_sublist {d : OutputDir} {redo : Bool} {instances pending : List String}
    (h : d.selected redo instances = some pending) : pending.Sublist instances := by
  unfold OutputDir.selected at h
  split_ifs at h with hredo
  · cases h
    exact .refl _
  · cases hpreds : d.preds with
    | absent =>
      rw [hpreds] at h
      cases h
      exact .refl _
    | torn =>
      rw [hpreds] at h
      cases h
    | preds p =>
      rw [hpreds] at h
      cases h
      exact List.filter_sublist

theorem agrees_step (h : s.Agrees) (hstep : DirStep s e s') : s'.Agrees := by
  cases hstep with
  | started d cfg redo instances pending hnodup hselected =>
    refine ⟨h.consistent, ?_, ?_⟩
    · rintro r ⟨⟩
      exact hnodup.sublist (selected_sublist hselected)
    · rintro r ⟨⟩ i hi
      cases hi
  | begun d d' r before i after hpending hbegin =>
    obtain ⟨hconsistent, hcleared⟩ := h.consistent.begin hbegin
    have hactive := h.active r rfl
    rw [hpending] at hactive
    have hperm : (r.running ++ (before ++ i :: after)).Perm (i :: r.running ++ (before ++ after)) :=
      (List.perm_middle.append_left _).trans List.perm_middle
    have hactive' := hperm.nodup_iff.mp hactive
    refine ⟨hconsistent, ?_, ?_⟩
    · rintro _ ⟨⟩
      exact hactive'
    · rintro _ ⟨⟩ j hj
      rcases List.mem_cons.mp hj with rfl | hjr
      · exact hcleared
      · apply (sameAt_begin hbegin _).cleared (h.cleared r rfl j hjr)
        rintro rfl
        rw [List.cons_append, List.nodup_cons] at hactive'
        exact hactive'.1 (List.mem_append_left _ hjr)
  | refused d r before i after hpending hbegin =>
    refine ⟨h.consistent, ?_, ?_⟩
    · rintro _ ⟨⟩
      have hactive := h.active r rfl
      rw [hpending] at hactive
      exact hactive.sublist (((List.sublist_cons_self i after).append_left before).append_left r.running)
    · rintro _ ⟨⟩ j hj
      exact h.cleared r rfl j hj
  | ended d r before i after o hrunning =>
    have hactive := h.active r rfl
    rw [hrunning] at hactive
    have hperm : (before ++ i :: after ++ r.pending).Perm (i :: (before ++ after ++ r.pending)) :=
      List.perm_middle.append_right r.pending
    have hactive' := List.nodup_cons.mp (hperm.nodup_iff.mp hactive)
    have hi : i ∈ r.running := by simp [hrunning]
    refine ⟨h.consistent.finish (h.cleared r rfl i hi) r.cfg o, ?_, ?_⟩
    · rintro _ ⟨⟩
      exact hactive'.2
    · rintro _ ⟨⟩ j hj
      have hjr : j ∈ r.running := by
        rw [hrunning]
        exact ((List.sublist_cons_self i after).append_left before).subset hj
      apply (sameAt_finish d r.cfg o _).cleared (h.cleared r rfl j hjr)
      rintro rfl
      exact hactive'.1 (List.mem_append_left _ hj)
  | completed d r hpending hrunning => exact .idle h.consistent
  | killed d r => exact .idle h.consistent
  | killedBeginning d p r i hpending hpreds =>
    apply EvalSystem.Agrees.idle
    constructor
    · rintro _ ⟨⟩
      exact (h.consistent.ids p hpreds).sublist (List.filter_sublist.map Prod.fst)
    · rintro _ ⟨⟩ e he
      exact h.consistent.entries p hpreds e (mem_removeFromPredsFile.mp he).1
  | killedSaving d r i hrunning => exact .idle (h.consistent.setTraj (by simp))
  | killedWriting d r => exact .idle (.tornPreds _)
  | cleaned d statuses => exact .idle (h.consistent.clean statuses)
  | cleanKilled d p statuses removed hpreds hremoved => exact .idle (h.consistent.cleanPart removed)
  | cleanKilledWriting d p statuses hpreds => exact .idle (.tornPreds _)
  | graded d p i resolved evaluation hpreds hi => exact .idle (h.consistent.grade resolved evaluation)
  | gradeKilled d p i hpreds hi htraj => exact .idle (h.consistent.setTraj (by simp))

theorem run_agrees (h : Run DirStep {} s events) : s.Agrees := by
  apply Run.invariant (fun s _ => s.Agrees) _ _ h
  · exact .idle ⟨nofun, nofun⟩
  · intro s _ e s' hs hstep
    exact agrees_step hs hstep

theorem isFailed_mono {fewer all : List String} (hall : fewer ⊆ all) {t : Option TrajFile}
    (h : isFailed fewer t = true) : isFailed all t = true := by
  unfold isFailed at h ⊢
  rw [Option.any_eq_true] at h ⊢
  obtain ⟨status, hstatus, hmem⟩ := h
  exact ⟨status, hstatus, decide_eq_true (hall (of_decide_eq_true hmem))⟩

theorem isFailed_regrade (statuses : List String) (resolved : Bool) (evaluation : Report) (t : Option TrajFile) :
    isFailed statuses (t.map (regrade resolved evaluation)) = isFailed statuses t := by
  rcases t with _ | _ | r
  · rfl
  · rfl
  · rfl

structure Settled (statuses : List String) (i : String) (e : Prediction) (s : EvalSystem) : Prop where
  prediction : s.dir.preds = .torn ∨ ∃ p, s.dir.preds = .preds p ∧ (i, e) ∈ p
  traj : isFailed statuses (s.dir.traj i) = false
  inactive : ∀ r ∈ s.eval, i ∉ r.running ∧ i ∉ r.pending

def DirEvent.Respects (statuses : List String) : DirEvent → Prop
  | .started redo _ => redo = false
  | .cleaned fewer => fewer ⊆ statuses
  | .cleanKilled fewer => fewer ⊆ statuses
  | _ => True

variable {statuses : List String} {i : String} {entry : Prediction}

theorem Settled.notSelected {d : OutputDir} (h : Settled statuses i entry ⟨d, none⟩) {instances pending : List String}
    (hselected : d.selected false instances = some pending) : i ∉ pending := by
  unfold OutputDir.selected at hselected
  rw [if_neg (by simp)] at hselected
  rcases h.prediction with htorn | ⟨p, hp, he⟩
  · rw [htorn] at hselected
    cases hselected
  · rw [hp] at hselected
    cases hselected
    intro hi
    have hnot := of_decide_eq_true (List.mem_filter.mp hi).2
    exact hnot (List.mem_map.mpr ⟨_, he, rfl⟩)

theorem Settled.sameAt {d d' : OutputDir} {run run' : Option EvalRun} (h : Settled statuses i entry ⟨d, run⟩)
    (hsame : SameAt d d' i) (hpreds : d.preds = .torn → d'.preds = .torn)
    (hreadable : ∀ p, d.preds = .preds p → ∃ p', d'.preds = .preds p')
    (hinactive : ∀ r ∈ run', i ∉ r.running ∧ i ∉ r.pending) : Settled statuses i entry ⟨d', run'⟩ where
  prediction := by
    rcases h.prediction with htorn | ⟨p, hp, he⟩
    · exact .inl (hpreds htorn)
    · obtain ⟨p', hp'⟩ := hreadable p hp
      exact .inr ⟨p', hp', (hsame.preds p' hp' (i, entry) rfl).mpr ⟨p, hp, he⟩⟩
  traj := by
    dsimp only
    rw [hsame.traj]
    exact h.traj
  inactive := hinactive

theorem Settled.withTraj {d : OutputDir} (h : Settled statuses i entry ⟨d, none⟩) {t : Option TrajFile} {j : String}
    (ht : j = i → isFailed statuses t = false) : Settled statuses i entry ⟨d.setTraj j t, none⟩ where
  prediction := h.prediction
  traj := by
    by_cases hij : i = j
    · subst hij
      dsimp only
      rw [setTraj_same]
      exact ht rfl
    · dsimp only
      rw [setTraj_of_ne d t hij]
      exact h.traj
  inactive := nofun

theorem begin_preds {d d' : OutputDir} {j : String} (h : d.begin? j = some d') :
    d.preds ≠ .torn ∧ ∀ p, d.preds = .preds p → ∃ p', d'.preds = .preds p' := by
  unfold begin? at h
  cases hpreds : d.preds with
  | absent => exact ⟨nofun, nofun⟩
  | torn =>
    rw [hpreds] at h
    cases h
  | preds p =>
    rw [hpreds] at h
    cases h
    exact ⟨nofun, fun _ _ => ⟨_, rfl⟩⟩

theorem addPrediction_preds (d : OutputDir) (j : String) (e : Prediction) :
    ((d.addPrediction j e).preds = .torn ↔ d.preds = .torn) ∧
      ∀ p, d.preds = .preds p → ∃ p', (d.addPrediction j e).preds = .preds p' := by
  unfold OutputDir.addPrediction
  cases hpreds : d.preds with
  | absent => exact ⟨iff_of_false nofun nofun, nofun⟩
  | torn => exact ⟨iff_of_true hpreds rfl, nofun⟩
  | preds p => exact ⟨iff_of_false nofun nofun, fun _ _ => ⟨_, rfl⟩⟩

theorem finish_preds (d : OutputDir) (cfg : EvalSwebench.Config) (j : String) (o : Stages) :
    ((d.finish cfg j o).preds = .torn ↔ d.preds = .torn) ∧
      ∀ p, d.preds = .preds p → ∃ p', (d.finish cfg j o).preds = .preds p' := by
  unfold OutputDir.finish
  dsimp only
  generalize (EvalSwebench.processInstance cfg { o with meanwhile := id } j []).2 = t
  have hadd (d' : OutputDir) (hd' : d'.preds = d.preds) :
      ((match t.preds.lookup j with
        | none => d'
        | some e => d'.addPrediction j e).preds = .torn ↔ d.preds = .torn) ∧
      ∀ p, d.preds = .preds p → ∃ p', (match t.preds.lookup j with
        | none => d'
        | some e => d'.addPrediction j e).preds = .preds p' := by
    rw [← hd']
    cases t.preds.lookup j with
    | none => exact ⟨Iff.rfl, fun p hp => ⟨p, hp⟩⟩
    | some e => exact addPrediction_preds d' j e
  cases t.trajectory with
  | none => exact hadd d rfl
  | some r => exact hadd _ rfl

theorem settled_step (h : Settled statuses i entry s) (hrespects : e.Respects statuses) (hstep : DirStep s e s') :
    Settled statuses i entry s' ∧ e ≠ .begun i := by
  cases hstep with
  | started d cfg redo instances pending hnodup hselected =>
    rw [DirEvent.Respects] at hrespects
    subst hrespects
    refine ⟨⟨h.prediction, h.traj, ?_⟩, nofun⟩
    rintro r ⟨⟩
    exact ⟨List.not_mem_nil, h.notSelected hselected⟩
  | begun d d' r before j after hpending hbegin =>
    obtain ⟨hrunning, hnot⟩ := h.inactive r rfl
    rw [hpending, List.mem_append, List.mem_cons, not_or, not_or] at hnot
    refine ⟨h.sameAt (sameAt_begin hbegin hnot.2.1) (fun htorn => absurd htorn (begin_preds hbegin).1)
      (begin_preds hbegin).2 ?_, ?_⟩
    · rintro _ ⟨⟩
      exact ⟨by simp [hrunning, hnot.2.1], by simp [hnot.1, hnot.2.2]⟩
    · rintro ⟨⟩
      exact hnot.2.1 rfl
  | refused d r before j after hpending hbegin =>
    obtain ⟨hrunning, hnot⟩ := h.inactive r rfl
    rw [hpending, List.mem_append, List.mem_cons, not_or, not_or] at hnot
    refine ⟨⟨h.prediction, h.traj, ?_⟩, nofun⟩
    rintro _ ⟨⟩
    exact ⟨hrunning, by simp [hnot.1, hnot.2.2]⟩
  | ended d r before j after o hrunning =>
    obtain ⟨hnot, hpending⟩ := h.inactive r rfl
    rw [hrunning, List.mem_append, List.mem_cons, not_or, not_or] at hnot
    refine ⟨h.sameAt (sameAt_finish d r.cfg o hnot.2.1) (finish_preds d r.cfg j o).1.mpr
      (finish_preds d r.cfg j o).2 ?_,
      nofun⟩
    rintro _ ⟨⟩
    exact ⟨by simp [hnot.1, hnot.2.2], hpending⟩
  | completed d r hpending hrunning => exact ⟨⟨h.prediction, h.traj, nofun⟩, nofun⟩
  | killed d r => exact ⟨⟨h.prediction, h.traj, nofun⟩, nofun⟩
  | killedBeginning d p r j hpending hpreds =>
    refine ⟨⟨?_, h.traj, nofun⟩, nofun⟩
    rcases h.prediction with htorn | ⟨p', hp', he⟩
    · rw [hpreds] at htorn
      cases htorn
    · rw [hpreds] at hp'
      cases hp'
      refine .inr ⟨_, rfl, mem_removeFromPredsFile.mpr ⟨he, ?_⟩⟩
      rintro rfl
      exact (h.inactive r rfl).2 hpending
  | killedSaving d r j hrunning =>
    refine ⟨Settled.withTraj ⟨h.prediction, h.traj, nofun⟩ (fun _ => rfl), nofun⟩
  | killedWriting d r => exact ⟨⟨.inl rfl, h.traj, nofun⟩, nofun⟩
  | cleaned d fewer =>
    refine ⟨?_, nofun⟩
    have hkept : isFailed fewer (d.traj i) = false := by
      rw [← Bool.not_eq_true]
      intro hfailed
      have htrue := isFailed_mono hrespects hfailed
      rw [h.traj] at htrue
      cases htrue
    rcases h.prediction with htorn | ⟨p, hp, he⟩
    · have hsame : d.clean fewer = d := by
        unfold OutputDir.clean
        dsimp only at htorn
        rw [htorn]
      rw [hsame]
      exact h
    · unfold OutputDir.clean
      dsimp only at hp
      rw [hp]
      refine ⟨.inr ⟨_, rfl, ?_⟩, ?_, nofun⟩
      · rw [List.mem_filter]
        exact ⟨he, by simp [hkept]⟩
      · dsimp only
        rw [hkept]
        exact h.traj
  | cleanKilled d p fewer removed hpreds hremoved =>
    refine ⟨⟨h.prediction, ?_, nofun⟩, nofun⟩
    unfold OutputDir.cleanPart
    dsimp only
    split_ifs
    · rfl
    · exact h.traj
  | cleanKilledWriting d p fewer hpreds =>
    refine ⟨⟨.inl rfl, ?_, nofun⟩, nofun⟩
    unfold OutputDir.clean
    rw [hpreds]
    dsimp only
    split_ifs
    · rfl
    · exact h.traj
  | graded d p j resolved evaluation hpreds hj =>
    refine ⟨h.withTraj ?_, nofun⟩
    rintro rfl
    rw [isFailed_regrade]
    exact h.traj
  | gradeKilled d p j hpreds hj htraj => exact ⟨h.withTraj (fun _ => rfl), nofun⟩

def DirEvent.IsKill : DirEvent → Prop
  | .killed => True
  | .cleanKilled _ => True
  | _ => False

theorem torn_step (hstep : DirStep s e s') (htorn : s'.dir.preds = .torn) : s.dir.preds = .torn ∨ e.IsKill := by
  cases hstep with
  | begun d d' r before j after hpending hbegin =>
    cases hpreds : d.preds with
    | torn => exact .inl rfl
    | absent =>
      unfold begin? at hbegin
      rw [hpreds] at hbegin
      cases hbegin
      rw [setTraj_preds, hpreds] at htorn
      cases htorn
    | preds p =>
      obtain ⟨p', hp'⟩ := (begin_preds hbegin).2 p hpreds
      rw [hp'] at htorn
      cases htorn
  | ended d r before j after o hrunning => exact .inl ((finish_preds d r.cfg j o).1.mp htorn)
  | killed => exact .inr trivial
  | killedBeginning => exact .inr trivial
  | killedSaving => exact .inr trivial
  | killedWriting => exact .inr trivial
  | cleanKilled => exact .inr trivial
  | cleanKilledWriting => exact .inr trivial
  | cleaned d fewer =>
    unfold OutputDir.clean at htorn
    cases hpreds : d.preds with
    | torn => exact .inl rfl
    | absent =>
      rw [hpreds] at htorn
      dsimp only at htorn
      rw [hpreds] at htorn
      cases htorn
    | preds p =>
      rw [hpreds] at htorn
      cases htorn
  | started => exact .inl htorn
  | refused => exact .inl htorn
  | completed => exact .inl htorn
  | graded => exact .inl htorn
  | gradeKilled => exact .inl htorn

theorem run_settled (h : Settled statuses i entry s) (hrespects : ∀ e ∈ events, e.Respects statuses)
    (hrun : Run DirStep s s' events) : Settled statuses i entry s' ∧ .begun i ∉ events ∧
      (s'.dir.preds = .torn → s.dir.preds = .torn ∨ ∃ e ∈ events, e.IsKill) := by
  induction hrun with
  | nil => exact ⟨h, List.not_mem_nil, .inl⟩
  | snoc before last ih =>
    obtain ⟨hsettled, hnone, htorn⟩ := ih (fun e he => hrespects e (List.mem_append_left _ he))
    obtain ⟨hsettled', hne⟩ :=
      settled_step hsettled (hrespects _ (List.mem_append_right _ (List.mem_singleton_self _))) last
    refine ⟨hsettled', ?_, ?_⟩
    · intro hmem
      rcases List.mem_append.mp hmem with hmem | hmem
      · exact hnone hmem
      · exact hne (List.mem_singleton.mp hmem).symm
    · intro hlast
      rcases torn_step last hlast with hbefore | hkill
      · rcases htorn hbefore with hstart | ⟨e, he, hkill⟩
        · exact .inl hstart
        · exact .inr ⟨e, List.mem_append_left _ he, hkill⟩
      · exact .inr ⟨_, List.mem_append_right _ (List.mem_singleton_self _), hkill⟩

def DirEvent.begun? : DirEvent → Option String
  | .begun i => some i
  | _ => none

def DirEvent.IsWork (e : DirEvent) : Prop := ∃ i, e = .begun i ∨ e = .ended i

theorem clean_ids (p : Predictions) (failed : String → Bool) :
    (Predictions.ids (p.filter (fun e => !failed e.1))) = p.ids.filter (fun i => !failed i) := by
  rw [Predictions.ids, Predictions.ids, List.filter_map]
  rfl

theorem selected_clean {d : OutputDir} {p : Predictions} (hp : d.preds = .preds p) (redo : Bool)
    (instances : List String) : (d.clean statuses).selected redo instances = some (if redo then instances else
      instances.filter (fun i => i ∉ p.ids ∨ isFailed statuses (d.traj i) = true)) := by
  unfold OutputDir.clean
  rw [hp]
  unfold OutputDir.selected
  cases redo with
  | true => rfl
  | false =>
    rw [if_neg (by simp), if_neg (by simp)]
    dsimp only
    congr 1
    apply List.filter_congr
    intro i _
    simp only [clean_ids p (fun i => isFailed statuses (d.traj i)), List.mem_filter, decide_eq_decide]
    by_cases hi : i ∈ p.ids
    · simp [hi]
    · simp [hi]

theorem work_run {pending : List String} {d : OutputDir} {cfg : EvalSwebench.Config} (hreadable : d.preds ≠ .torn)
    (hwork : ∀ e ∈ events, e.IsWork) (h : Run DirStep ⟨d, some ⟨cfg, pending, []⟩⟩ s events) :
    s.dir.preds ≠ .torn ∧ ∃ r, s.eval = some r ∧ (events.filterMap DirEvent.begun? ++ r.pending).Perm pending := by
  induction h with
  | nil => exact ⟨hreadable, _, rfl, .refl _⟩
  | @snoc s s' events e before last ih =>
    obtain ⟨hpreds, r, hr, hperm⟩ := ih (fun e he => hwork e (List.mem_append_left _ he))
    obtain ⟨j, rfl | rfl⟩ := hwork e (List.mem_append_right _ (List.mem_singleton_self _))
    · cases last with
      | begun d d' r' first _ after hpending hbegin =>
        cases hr
        refine ⟨?_, _, rfl, ?_⟩
        · unfold begin? at hbegin
          split at hbegin
          next habsent =>
            cases hbegin
            rw [setTraj_preds, habsent]
            exact nofun
          next => cases hbegin
          next p _ =>
            cases hbegin
            exact nofun
        · apply List.Perm.trans _ hperm
          have hbegun : [DirEvent.begun j].filterMap DirEvent.begun? = [j] := rfl
          rw [List.filterMap_append, hbegun, hpending, List.append_assoc]
          apply List.Perm.append_left
          rw [List.singleton_append]
          exact List.perm_middle.symm
    · have hnone : (events ++ [DirEvent.ended j]).filterMap DirEvent.begun? = events.filterMap DirEvent.begun? := by
        rw [List.filterMap_append]
        exact List.append_nil _
      rw [hnone]
      cases last with
      | refused d r' first _ after hpending hbegin =>
        unfold begin? at hbegin
        split at hbegin
        next => cases hbegin
        next htorn => exact absurd htorn hpreds
        next => cases hbegin
      | ended d r' first _ after o hrunning =>
        cases hr
        exact ⟨fun htorn => hpreds ((finish_preds d r.cfg j o).1.mp htorn), _, rfl, hperm⟩

theorem attempts_after_clean {d : OutputDir} {p : Predictions} {instances : List String}
    {cleaned started final : EvalSystem}
    (hp : d.preds = .preds p) (hclean : DirStep ⟨d, none⟩ (.cleaned statuses) cleaned)
    {redo : Bool} (hstart : DirStep cleaned (.started redo instances) started) (hwork : ∀ e ∈ events, e.IsWork)
    (hrun : Run DirStep started s events) (hdone : DirStep s .completed final) :
    (events.filterMap DirEvent.begun?).Perm
      (if redo then instances else
        instances.filter (fun i => i ∉ p.ids ∨ isFailed statuses (d.traj i) = true)) := by
  cases hclean with
  | cleaned _ _ =>
    cases hstart with
    | started _ cfg _ _ pending hnodup hselected =>
      rw [selected_clean hp, Option.some.injEq] at hselected
      have hreadable : (d.clean statuses).preds ≠ .torn := by
        unfold OutputDir.clean
        rw [hp]
        exact nofun
      obtain ⟨-, r, hr, hperm⟩ := work_run hreadable hwork hrun
      cases hdone with
      | completed d' r' hpending hrunning =>
        cases hr
        rw [hpending, List.append_nil, ← hselected] at hperm
        exact hperm

end Lifecycle

def plainConfig : EvalSwebench.Config := { runName := "m", mode := "full" }

theorem run_agrees_graded : ∃ s, Run DirStep {} s [.started false ["i"], .begun "i", .ended "i", .completed,
    .graded "i"] ∧ s.Agrees := by
  have hstart := Run.snoc .nil (DirStep.started {} plainConfig false ["i"] ["i"] (List.nodup_singleton _) rfl)
  have hbegun := Run.snoc hstart (.begun _ _ _ [] "i" [] rfl rfl)
  have hended := Run.snoc hbegun (.ended _ _ [] "i" [] (submittedStages (.ok resolvedReport)) rfl)
  have hdone := Run.snoc hended (.completed _ _ rfl rfl)
  have hgraded := Run.snoc hdone (.graded _ [("i", ⟨"m", "i", "diff --git"⟩)] "i" true resolvedReport rfl (by decide))
  exact ⟨_, hgraded, run_agrees hgraded⟩

def noEnvironment : OutputDir where
  preds := .preds [("i", ⟨"m", "i", ""⟩)]

theorem run_settled_noEnvironment : ∃ s, Run DirStep ⟨noEnvironment, none⟩ s
    [.cleaned ["InternalServerError"], .started false ["i", "j"]] ∧
      Settled ["InternalServerError"] "i" ⟨"m", "i", ""⟩ s := by
  have hclean := Run.snoc .nil (DirStep.cleaned noEnvironment ["InternalServerError"])
  have hstart := Run.snoc hclean (.started _ plainConfig false ["i", "j"] ["j"] (by decide) rfl)
  have hsettled : Settled ["InternalServerError"] "i" ⟨"m", "i", ""⟩ ⟨noEnvironment, none⟩ :=
    ⟨.inr ⟨_, rfl, List.mem_singleton_self _⟩, rfl, nofun⟩
  refine ⟨_, hstart, (run_settled hsettled ?_ hstart).1⟩
  intro e he
  rw [List.mem_append, List.mem_append, List.mem_singleton, List.mem_singleton] at he
  rcases he with (he | rfl) | rfl
  · cases he
  · exact List.Subset.refl _
  · rfl

def serverError : OutputDir where
  preds := .preds [("i", ⟨"m", "i", ""⟩)]
  traj := fun i => if i = "i" then some (.run {
    exitStatus := some "InternalServerError"
    submission := some ""
    errorInfo := none
    instanceId := "i"
    mode := "full"
    nCompressions := 0
    nSummaries := 0
    compressions := []
    contextTokensPerTurn := []
    resolved := none
    evaluation := none }) else none

theorem attempts_after_clean_serverError : ∃ events : List DirEvent,
    (events.filterMap DirEvent.begun?).Perm (["i"].filter (fun i => i ∉ ["i"] ∨
      OutputDir.isFailed ["InternalServerError"] (serverError.traj i) = true)) := by
  have hstart := DirStep.started (serverError.clean ["InternalServerError"]) plainConfig false ["i"] ["i"]
    (List.nodup_singleton _) rfl
  have hbegun := Run.snoc .nil (DirStep.begun (serverError.clean ["InternalServerError"]) _ ⟨plainConfig, ["i"], []⟩
    [] "i" [] rfl rfl)
  have hended := Run.snoc hbegun (.ended _ _ [] "i" [] (submittedStages (.ok resolvedReport)) rfl)
  refine ⟨_, attempts_after_clean rfl (.cleaned serverError _) hstart ?_ hended (.completed _ _ rfl rfl)⟩
  intro e he
  rw [List.mem_append, List.mem_append, List.mem_singleton, List.mem_singleton] at he
  rcases he with (he | rfl) | rfl
  · cases he
  · exact ⟨"i", .inl rfl⟩
  · exact ⟨"i", .inr rfl⟩

end TokensThatSuffice
