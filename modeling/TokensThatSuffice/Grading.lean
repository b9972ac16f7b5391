import Mathlib.Data.String.Basic
import TokensThatSuffice.EvalDirectory
import TokensThatSuffice.SortedKeys

namespace TokensThatSuffice

open Runs SortedKeys

structure Grade where
  resolved : Bool
  evaluation : Report

/-- The evaluation of a patch in its container. -/
abbrev Evaluate := String → String → Except Raised Report

def Report.evalError (r : Report) : Option String :=
  match r.fields with
  | .object fields =>
    match fields.lookup "eval_error" with
    | some (.str text) => some text
    | _ => none
  | _ => none

def gradeOne (evaluate : Evaluate) (instanceId modelPatch : String) : Grade :=
  match evaluate instanceId modelPatch with
  | .ok report => ⟨report.resolved, report⟩
  | .error e => ⟨false, ⟨false, .object [("eval_error", .str e.text)]⟩⟩

def cachedGrade : Option TrajFile → Option Grade
  | some (.run r) =>
    match r.resolved, r.evaluation with
    | none, _ => none
    | some resolved, none => some ⟨resolved, ⟨false, .object []⟩⟩
    | some resolved, some evaluation =>
      if evaluation.evalError.isSome then none else some ⟨resolved, evaluation⟩
  | _ => none

structure GradeReport where
  n : ℕ
  nResolved : ℕ
  resolveRate : ℚ
  resolved : List String
  unresolved : List String
  perInstance : List (String × Bool)

def sortedIds (ids : List String) : List String := ids.mergeSort (fun a b => decide (a ≤ b))

def gradeReport (results : List (String × Grade)) : GradeReport :=
  let resolved := sortedIds ((results.filter (fun r => r.2.resolved)).map Prod.fst)
  {
    n := results.length
    nResolved := resolved.length
    resolveRate := if results.length = 0 then 0 else resolved.length / results.length
    resolved := resolved
    unresolved := sortedIds ((results.filter (fun r => !r.2.resolved)).map Prod.fst)
    perInstance := results.map (fun r => (r.1, r.2.resolved)) }

def gradeTodo (byId : List String) (p : Predictions) : List String := p.ids.filter (· ∈ byId)

def toGrade (skipGraded : Bool) (d : OutputDir) (todo : List String) : List String :=
  if skipGraded then todo.filter (fun i => (cachedGrade (d.traj i)).isNone) else todo

def cachedResults (d : OutputDir) (todo : List String) : List (String × Grade) :=
  todo.filterMap (fun i => (cachedGrade (d.traj i)).map (i, ·))

section Main

variable (evaluate : Evaluate)

def gradeOf (p : Predictions) (i : String) : Grade :=
  gradeOne evaluate i (((p.lookup i).map (·.modelPatch)).getD "")

/-- The grades in the order they come in; a torn trajectory ends the program. -/
def gradeAll (p : Predictions) (d : OutputDir) : List String → OutputDir × Except PyError Unit
  | [] => (d, .ok ())
  | i :: order =>
    match d.traj i with
    | some .torn => (d, .error (.valueError "Expecting value"))
    | _ => gradeAll p (d.grade i (gradeOf evaluate p i).resolved (gradeOf evaluate p i).evaluation) order

def gradePreds (byId : List String) (skipGraded : Bool) (d : OutputDir) (order : List String) :
    OutputDir × Except PyError GradeReport :=
  match d.preds with
  | .absent => (d, .error (.valueError "No preds.json"))
  | .torn => (d, .error (.valueError "Expecting value"))
  | .preds p =>
    let todo := gradeTodo byId p
    let cached := if skipGraded then cachedResults d todo else []
    match gradeAll evaluate p d order with
    | (d, .error e) => (d, .error e)
    | (d, .ok _) => (d, .ok (gradeReport (cached ++ order.map (fun i => (i, gradeOf evaluate p i)))))

end Main

section Reports

variable {results results' : List (String × Grade)}

theorem sortedIds_perm {ids ids' : List String} (h : ids.Perm ids') (hnodup : ids.Nodup) :
    sortedIds ids = sortedIds ids' := by
  have hkeys : (ids.map id).Nodup := by
    rw [List.map_id]
    exact hnodup
  exact mergeSort_key_eq_of_perm h hkeys

structure GradeReport.Same (r r' : GradeReport) : Prop where
  n : r.n = r'.n
  nResolved : r.nResolved = r'.nResolved
  resolveRate : r.resolveRate = r'.resolveRate
  resolved : r.resolved = r'.resolved
  unresolved : r.unresolved = r'.unresolved
  perInstance : r.perInstance.Perm r'.perInstance

theorem gradeReport_perm (h : results.Perm results') (hnodup : (results.map Prod.fst).Nodup) :
    (gradeReport results).Same (gradeReport results') := by
  have hids (p : String × Grade → Bool) : sortedIds ((results.filter p).map Prod.fst) =
      sortedIds ((results'.filter p).map Prod.fst) := by
    apply sortedIds_perm ((h.filter p).map Prod.fst)
    exact hnodup.sublist (List.filter_sublist.map Prod.fst)
  constructor
  · exact h.length_eq
  · exact congrArg List.length (hids _)
  · unfold gradeReport
    dsimp only
    rw [hids, h.length_eq]
  · exact hids _
  · exact hids _
  · exact h.map _

theorem gradeReport_parts (results : List (String × Grade)) :
    ((gradeReport results).resolved ++ (gradeReport results).unresolved).Perm (results.map Prod.fst) ∧
      (gradeReport results).nResolved ≤ (gradeReport results).n := by
  have hsorted (ids : List String) : (sortedIds ids).Perm ids := List.mergeSort_perm _ _
  constructor
  · apply ((hsorted _).append (hsorted _)).trans
    rw [← List.map_append]
    exact (List.filter_append_perm _ _).map Prod.fst
  · change (sortedIds _).length ≤ results.length
    rw [(hsorted _).length_eq, List.length_map]
    exact List.length_filter_le _ _

end Reports

section Twice

open OutputDir

variable {evaluate : Evaluate} {p : Predictions} {d d' : OutputDir} {order : List String}

theorem grade_traj (d : OutputDir) (i j : String) (resolved : Bool) (evaluation : Report) :
    (d.grade i resolved evaluation).traj j =
      if j = i then (d.traj i).map (regrade resolved evaluation) else d.traj j := rfl

def gradedDir (evaluate : Evaluate) (p : Predictions) (d : OutputDir) (order : List String) : OutputDir :=
  { d with traj := fun i =>
      if i ∈ order then (d.traj i).map (regrade (gradeOf evaluate p i).resolved (gradeOf evaluate p i).evaluation)
      else d.traj i }

theorem gradeAll_ok (hnodup : order.Nodup) (hreadable : ∀ i ∈ order, d.traj i ≠ some .torn) :
    gradeAll evaluate p d order = (gradedDir evaluate p d order, .ok ()) := by
  induction order generalizing d with
  | nil => simp [gradeAll, gradedDir]
  | cons i order ih =>
    rw [List.nodup_cons] at hnodup
    have hrest : ∀ j ∈ order, (d.grade i (gradeOf evaluate p i).resolved (gradeOf evaluate p i).evaluation).traj j ≠
        some .torn := by
      intro j hj
      have hne : j ≠ i := by
        rintro rfl
        exact hnodup.1 hj
      rw [grade_traj, if_neg hne]
      exact hreadable j (List.mem_cons_of_mem _ hj)
    have hstep : gradeAll evaluate p d (i :: order) = gradeAll evaluate p
        (d.grade i (gradeOf evaluate p i).resolved (gradeOf evaluate p i).evaluation) order := by
      rw [gradeAll]
      split
      next htorn => exact absurd htorn (hreadable i List.mem_cons_self)
      next => rfl
    rw [hstep, ih hnodup.2 hrest]
    congr 1
    unfold gradedDir
    congr 1
    funext j
    simp only [grade_traj, List.mem_cons]
    by_cases hj : j = i
    · subst hj
      simp [hnodup.1]
    · simp [hj]

theorem gradeAll_readable (h : gradeAll evaluate p d order = (d', .ok ())) (hnodup : order.Nodup) :
    ∀ i ∈ order, d.traj i ≠ some .torn := by
  induction order generalizing d with
  | nil => simp
  | cons i order ih =>
    rw [List.nodup_cons] at hnodup
    rw [gradeAll] at h
    split at h
    next => cases h
    next hreadable =>
      intro j hj
      rcases List.mem_cons.mp hj with rfl | hjrest
      · exact hreadable
      · have hrest := ih h hnodup.2 j hjrest
        have hne : j ≠ i := by
          rintro rfl
          exact hnodup.1 hjrest
        rwa [grade_traj, if_neg hne] at hrest

theorem gradePreds_ok {byId : List String} {skip : Bool} {report : GradeReport} (hp : d.preds = .preds p)
    (hnodup : order.Nodup) :
    gradePreds evaluate byId skip d order = (d', .ok report) ↔ (∀ i ∈ order, d.traj i ≠ some .torn) ∧
      d' = gradedDir evaluate p d order ∧
      report = gradeReport ((if skip then cachedResults d (gradeTodo byId p) else []) ++
        order.map (fun i => (i, gradeOf evaluate p i))) := by
  unfold gradePreds
  rw [hp]
  dsimp only
  constructor
  · intro h
    generalize hall : gradeAll evaluate p d order = out at h
    obtain ⟨d1, r1⟩ := out
    cases r1 with
    | error e => cases h
    | ok u =>
      have hreadable := gradeAll_readable hall hnodup
      rw [gradeAll_ok hnodup hreadable] at hall
      cases hall
      cases h
      exact ⟨hreadable, rfl, rfl⟩
  · rintro ⟨hreadable, rfl, rfl⟩
    rw [gradeAll_ok hnodup hreadable]

theorem regrade_regrade (resolved : Bool) (evaluation : Report) (t : TrajFile) :
    regrade resolved evaluation (regrade resolved evaluation t) = regrade resolved evaluation t := by
  cases t with
  | torn => rfl
  | run r => rfl

theorem gradedDir_again {order' : List String} (hsubset : order' ⊆ order) :
    gradedDir evaluate p (gradedDir evaluate p d order) order' = gradedDir evaluate p d order := by
  unfold gradedDir
  congr 1
  funext i
  dsimp only
  split_ifs with hi' hi
  · rw [Option.map_map]
    congr 1
    funext t
    exact regrade_regrade _ _ t
  · exact absurd (hsubset hi') hi
  · rfl
  · rfl

theorem cachedGrade_graded {t : Option TrajFile} (ht : t ≠ some .torn) (g : Grade) :
    cachedGrade (t.map (regrade g.resolved g.evaluation)) =
      if t.isNone ∨ g.evaluation.evalError.isSome then none else some g := by
  rcases t with _ | _ | r
  · rfl
  · exact absurd rfl ht
  · simp only [Option.map_some, regrade, cachedGrade, Option.isNone_some, Bool.false_eq_true, false_or]

theorem gradedDir_traj {i : String} (hi : i ∈ order) : (gradedDir evaluate p d order).traj i =
    (d.traj i).map (regrade (gradeOf evaluate p i).resolved (gradeOf evaluate p i).evaluation) :=
  if_pos hi

theorem gradedDir_readable {i : String} (hi : i ∈ order) (hreadable : d.traj i ≠ some .torn) :
    (gradedDir evaluate p d order).traj i ≠ some .torn := by
  rw [gradedDir_traj hi]
  intro htorn
  obtain ⟨t, ht, hgraded⟩ := Option.map_eq_some_iff.mp htorn
  cases t with
  | torn => exact hreadable ht
  | run r => cases hgraded

theorem cachedGrade_gradedDir {i : String} (hi : i ∈ order) (hreadable : d.traj i ≠ some .torn) :
    cachedGrade ((gradedDir evaluate p d order).traj i) =
      if (d.traj i).isNone ∨ (gradeOf evaluate p i).evaluation.evalError.isSome then none
      else some (gradeOf evaluate p i) := by
  rw [gradedDir_traj hi]
  exact cachedGrade_graded hreadable _

theorem toGrade_sublist (skip : Bool) (d : OutputDir) (todo : List String) : (toGrade skip d todo).Sublist todo := by
  unfold toGrade
  split_ifs
  · exact List.filter_sublist
  · exact List.Sublist.refl _

theorem cachedResults_append_left (d : OutputDir) (todo : List String) {f : String → Grade}
    (h : ∀ i ∈ todo, ∀ g, cachedGrade (d.traj i) = some g → g = f i) :
    (cachedResults d todo ++ (toGrade true d todo).map (fun i => (i, f i))).Perm (todo.map (fun i => (i, f i))) := by
  have hcached : cachedResults d todo =
      (todo.filter (fun i => !(cachedGrade (d.traj i)).isNone)).map (fun i => (i, f i)) := by
    unfold cachedResults
    induction todo with
    | nil => rfl
    | cons i todo ih =>
      have hrest := ih (fun j hj => h j (List.mem_cons_of_mem _ hj))
      cases hg : cachedGrade (d.traj i) with
      | none => simp [hg, hrest]
      | some g =>
        have heq := h i List.mem_cons_self g hg
        simp [hg, hrest, heq]
  rw [hcached, toGrade, if_pos rfl, ← List.map_append]
  apply List.Perm.map
  exact List.perm_append_comm.trans (List.filter_append_perm _ _)

theorem cachedResults_again {todo order' : List String} (hreadable : ∀ i ∈ order, d.traj i ≠ some .torn)
    (horder : order.Perm todo) (skip : Bool)
    (horder' : order'.Perm (toGrade skip (gradedDir evaluate p d order) todo)) :
    ((if skip then cachedResults (gradedDir evaluate p d order) todo else []) ++
      order'.map (fun i => (i, gradeOf evaluate p i))).Perm (order.map (fun i => (i, gradeOf evaluate p i))) := by
  apply List.Perm.trans _ (horder.symm.map _)
  cases skip with
  | false => exact horder'.map _
  | true =>
    apply List.Perm.trans ((horder'.map _).append_left _)
    apply cachedResults_append_left
    intro i hi g hg
    have hmem := horder.mem_iff.mpr hi
    rw [cachedGrade_gradedDir hmem (hreadable i hmem)] at hg
    split_ifs at hg
    exact (Option.some.inj hg).symm

theorem gradeAll_run (hp : d.preds = .preds p) (horder : order ⊆ p.ids) :
    ∃ events, (∀ e ∈ events, ∃ i, e = .graded i) ∧
      Run DirStep ⟨d, none⟩ ⟨(gradeAll evaluate p d order).1, none⟩ events := by
  induction order generalizing d with
  | nil => exact ⟨[], by simp, .nil⟩
  | cons i order ih =>
    rw [gradeAll]
    split
    next => exact ⟨[], by simp, .nil⟩
    next =>
      obtain ⟨events, hall, hrun⟩ := ih (d := d.grade i (gradeOf evaluate p i).resolved
        (gradeOf evaluate p i).evaluation) hp (fun j hj => horder (List.mem_cons_of_mem _ hj))
      have hfirst := Run.snoc .nil (DirStep.graded d p i (gradeOf evaluate p i).resolved
        (gradeOf evaluate p i).evaluation hp (horder List.mem_cons_self))
      refine ⟨_, ?_, hfirst.append hrun⟩
      intro e he
      rcases List.mem_append.mp he with he | he
      · exact ⟨i, List.mem_singleton.mp he⟩
      · exact hall e he

theorem grade_again {byId : List String} {report : GradeReport} (hp : d.preds = .preds p) (hids : p.ids.Nodup)
    (horder : order.Perm (gradeTodo byId p)) (h : gradePreds evaluate byId false d order = (d', .ok report)) :
    (∀ skip order', order'.Perm (toGrade skip d' (gradeTodo byId p)) → ∃ report',
        gradePreds evaluate byId skip d' order' = (d', .ok report') ∧ report'.Same report) ∧
      (∀ i, i ∈ toGrade true d' (gradeTodo byId p) ↔ i ∈ gradeTodo byId p ∧
        (d.traj i = none ∨ (gradeOf evaluate p i).evaluation.evalError.isSome = true)) ∧
      (∃ events, (∀ e ∈ events, ∃ i, e = .graded i) ∧ Run DirStep ⟨d, none⟩ ⟨d', none⟩ events) ∧
      (report.resolved ++ report.unresolved).Perm (gradeTodo byId p) ∧ report.nResolved ≤ report.n := by
  have htodo : (gradeTodo byId p).Nodup := hids.sublist List.filter_sublist
  have hnodup := horder.nodup_iff.mpr htodo
  obtain ⟨hreadable, rfl, rfl⟩ := (gradePreds_ok hp hnodup).mp h
  refine ⟨?_, ?_, ?_, ?_⟩
  · intro skip order' horder'
    have hsub := toGrade_sublist skip (gradedDir evaluate p d order) (gradeTodo byId p)
    have hnodup' : order'.Nodup := horder'.nodup_iff.mpr (htodo.sublist hsub)
    have hmem : order' ⊆ order := fun i hi => horder.mem_iff.mpr (hsub.subset (horder'.subset hi))
    have hread' : ∀ i ∈ order', (gradedDir evaluate p d order).traj i ≠ some .torn :=
      fun i hi => gradedDir_readable (hmem hi) (hreadable i (hmem hi))
    refine ⟨_, (gradePreds_ok (d := gradedDir evaluate p d order) hp hnodup').mpr
      ⟨hread', (gradedDir_again hmem).symm, rfl⟩, ?_⟩
    have hall := cachedResults_again hreadable horder skip horder'
    apply gradeReport_perm
    · simpa using hall
    · apply (hall.map Prod.fst).nodup_iff.mpr
      rwa [List.map_map, Function.comp_def, List.map_id']
  · intro i
    rw [toGrade, if_pos rfl, List.mem_filter]
    apply and_congr_right
    intro hi
    have hmem := horder.mem_iff.mpr hi
    rw [cachedGrade_gradedDir hmem (hreadable i hmem), ← Option.isNone_iff_eq_none]
    split_ifs with hagain
    · exact iff_of_true rfl hagain
    · exact iff_of_false nofun hagain
  · have hrun := @gradeAll_run evaluate p d order hp (fun i hi => List.mem_of_mem_filter (horder.subset hi))
    rwa [gradeAll_ok hnodup hreadable] at hrun
  · obtain ⟨hparts, hle⟩ := gradeReport_parts (order.map (fun i => (i, gradeOf evaluate p i)))
    rw [List.map_map, Function.comp_def, List.map_id'] at hparts
    exact ⟨hparts.trans horder, hle⟩

end Twice

def acceptAll : Evaluate := fun _ _ => .ok resolvedReport

theorem grade_again_serverError : ∃ d' report report',
    gradePreds acceptAll ["i"] false serverError ["i"] = (d', .ok report) ∧
    gradePreds acceptAll ["i"] true d' [] = (d', .ok report') ∧ report'.Same report := by
  obtain ⟨report, hreport⟩ : ∃ report, gradePreds acceptAll ["i"] false serverError ["i"] =
      (gradedDir acceptAll [("i", ⟨"m", "i", ""⟩)] serverError ["i"], .ok report) :=
    ⟨_, (gradePreds_ok rfl (List.nodup_singleton "i")).mpr ⟨by simp [serverError], rfl, rfl⟩⟩
  have h := grade_again (p := [("i", ⟨"m", "i", ""⟩)]) rfl (List.nodup_singleton _) (.refl _) hreport
  obtain ⟨report', hreport', hsame⟩ := h.1 true [] (.refl _)
  exact ⟨_, report, report', hreport, hreport', hsame⟩

end TokensThatSuffice
