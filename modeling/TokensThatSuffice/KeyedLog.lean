import Mathlib.Data.List.Nodup
import Mathlib.Data.List.Perm.Subperm
import TokensThatSuffice.Runs

namespace TokensThatSuffice.KeyedLog

open Runs

structure Jobs (Job Key Row : Type) where
  key : Job → Key
  rowKey : Row → Key
  rows : Job → List Row
  rows_key : ∀ j, ∀ r ∈ rows j, rowKey r = key j

inductive Ending where
  | killed
  | finished
  deriving DecidableEq, Repr

variable {Job Key Row : Type} (J : Jobs Job Key Row)

namespace Jobs

def output (order : List Job) : List Row := order.flatMap J.rows

def Whole (jobs : List Job) (file : List Row) : Prop := ∃ written, written.Subperm jobs ∧ file = J.output written

section Counting

variable {J} {file : List Row} {p : Row → Bool} {k : Key}

theorem countP_output_eq_zero {order : List Job} (hp : ∀ r, p r → J.rowKey r = k)
    (horder : ∀ j ∈ order, J.key j ≠ k) : (J.output order).countP p = 0 := by
  rw [List.countP_eq_zero]
  intro r hr hpr
  obtain ⟨j, hj, hr⟩ := List.mem_flatMap.mp hr
  apply horder j hj
  rw [← J.rows_key j r hr, hp r hpr]

theorem countP_of_notMem (hp : ∀ r, p r → J.rowKey r = k) (hk : k ∉ file.map J.rowKey) : file.countP p = 0 := by
  rw [List.countP_eq_zero]
  intro r hr hpr
  exact hk (List.mem_map.mpr ⟨r, hr, hp r hpr⟩)

end Counting

variable [DecidableEq Key]

def todo (jobs : List Job) (file : List Row) : List Job :=
  jobs.filter (fun j => J.key j ∉ file.map J.rowKey)

/-- One attempt at the jobs whose key is not in the file; a killed one leaves a prefix of what it had. -/
inductive Attempt (jobs : List Job) (file : List Row) : Ending → List Row → Prop
  | killed (order : List Job) (left : List Row) (horder : order.Perm (J.todo jobs file))
      (hleft : left <+: file ++ J.output order) : Attempt jobs file .killed left
  | finished (order : List Job) (horder : order.Perm (J.todo jobs file)) :
      Attempt jobs file .finished (file ++ J.output order)

variable {J} {jobs : List Job} {file final : List Row} {p : Row → Bool} {k : Key}

theorem countP_output_todo_of_mem (hp : ∀ r, p r → J.rowKey r = k) (hk : k ∈ file.map J.rowKey) :
    (J.output (J.todo jobs file)).countP p = 0 := by
  apply countP_output_eq_zero hp
  intro j hj hjk
  rw [todo, List.mem_filter, decide_eq_true_eq, hjk] at hj
  exact hj.2 hk

theorem countP_output_todo_of_notMem (hp : ∀ r, p r → J.rowKey r = k) (hk : k ∉ file.map J.rowKey) :
    (J.output (J.todo jobs file)).countP p = (J.output jobs).countP p := by
  induction jobs with
  | nil => rfl
  | cons j rest ih =>
    have hcons (rest : List Job) :
        (J.output (j :: rest)).countP p = (J.rows j).countP p + (J.output rest).countP p := by
      rw [output, List.flatMap_cons, List.countP_append]
      rfl
    rw [todo, List.filter_cons, hcons]
    split_ifs with hj
    · rw [hcons, ← ih, todo]
    · have hzero : (J.rows j).countP p = 0 := by
        rw [List.countP_eq_zero]
        intro r hr hpr
        apply hj
        rw [decide_eq_true_eq, ← J.rows_key j r hr, hp r hpr]
        exact hk
      rw [hzero, Nat.zero_add, ← ih, todo]

theorem countP_written {order : List Job} (hp : ∀ r, p r → J.rowKey r = k)
    (horder : order.Perm (J.todo jobs file)) : (file ++ J.output order).countP p =
      if k ∈ file.map J.rowKey then file.countP p else (J.output jobs).countP p := by
  have hperm : (J.output order).countP p = (J.output (J.todo jobs file)).countP p :=
    (horder.flatMap_right J.rows).countP_eq p
  rw [List.countP_append, hperm]
  split_ifs with hk
  · rw [countP_output_todo_of_mem hp hk, Nat.add_zero]
  · rw [countP_output_todo_of_notMem hp hk, countP_of_notMem hp hk, Nat.zero_add]

theorem attempt_countP_le {e : Ending} (hp : ∀ r, p r → J.rowKey r = k) (h : J.Attempt jobs file e final)
    (hfile : file.countP p ≤ (J.output jobs).countP p) : final.countP p ≤ (J.output jobs).countP p := by
  have hwritten {order : List Job} (horder : order.Perm (J.todo jobs file)) :
      (file ++ J.output order).countP p ≤ (J.output jobs).countP p := by
    rw [countP_written hp horder]
    split_ifs
    · exact hfile
    · exact Nat.le_refl _
  cases h with
  | killed order _ horder hleft => exact Nat.le_trans hleft.sublist.countP_le (hwritten horder)
  | finished order horder => exact hwritten horder

theorem run_countP_le {events : List Ending} (hp : ∀ r, p r → J.rowKey r = k)
    (h : Run (J.Attempt jobs) [] file events) : file.countP p ≤ (J.output jobs).countP p := by
  apply Run.invariant (fun file _ => file.countP p ≤ (J.output jobs).countP p) _ _ h
  · exact Nat.zero_le _
  · intro file events e file' hfile hstep
    exact attempt_countP_le hp hstep hfile

theorem resumed_once_iff {events : List Ending} (hp : ∀ r, p r → J.rowKey r = k)
    (h : Run (J.Attempt jobs) [] file events) (hfinal : J.Attempt jobs file .finished final)
    (honce : (J.output jobs).countP p = 1) :
    final.countP p = 1 ↔ (k ∈ file.map J.rowKey → ∃ r ∈ file, p r) := by
  have hle := run_countP_le hp h
  cases hfinal with
  | finished order horder =>
    rw [countP_written hp horder]
    split_ifs with hk
    · rw [← List.countP_pos_iff]
      constructor
      · intro hfile _
        omega
      · intro hpos
        have hpos := hpos hk
        omega
    · rw [honce]
      exact ⟨fun _ hmem => absurd hmem hk, fun _ => rfl⟩

omit [DecidableEq Key] in
theorem Whole.productive (h : J.Whole jobs file) :
    ∃ written, written.Subperm jobs ∧ file = J.output written ∧ ∀ j ∈ written, J.rows j ≠ [] := by
  obtain ⟨written, hsub, rfl⟩ := h
  refine ⟨written.filter (fun j => !(J.rows j).isEmpty), List.filter_sublist.subperm.trans hsub, ?_, ?_⟩
  · clear hsub
    induction written with
    | nil => rfl
    | cons j rest ih =>
      rw [List.filter_cons]
      cases hrows : J.rows j with
      | nil =>
        rw [output, List.flatMap_cons, hrows]
        exact ih
      | cons r rows =>
        simp only [List.isEmpty_cons, Bool.not_false, if_true]
        rw [output, List.flatMap_cons, output, List.flatMap_cons]
        exact congrArg (J.rows j ++ ·) ih
  · intro j hj
    simpa using (List.mem_filter.mp hj).2

theorem finished_perm (hkeys : (jobs.map J.key).Nodup) (hwhole : J.Whole jobs file)
    (h : J.Attempt jobs file .finished final) : ∃ order, order.Perm jobs ∧ final = J.output order := by
  classical
  obtain ⟨written, hsub, rfl, hrows⟩ := hwhole.productive
  have hjobs : jobs.Nodup := List.Nodup.of_map _ hkeys
  have hmem : ∀ j ∈ jobs, J.key j ∈ (J.output written).map J.rowKey ↔ j ∈ written := by
    intro j hj
    constructor
    · intro hkey
      obtain ⟨r, hr, hrj⟩ := List.mem_map.mp hkey
      obtain ⟨j', hj', hr⟩ := List.mem_flatMap.mp hr
      have hsame : J.key j' = J.key j := by rw [← J.rows_key j' r hr, hrj]
      rwa [← List.inj_on_of_nodup_map hkeys (hsub.subset hj') hj hsame]
    · intro hwritten
      obtain ⟨r, hr⟩ := List.exists_mem_of_ne_nil _ (hrows j hwritten)
      exact List.mem_map.mpr ⟨r, List.mem_flatMap.mpr ⟨j, hwritten, hr⟩, J.rows_key j r hr⟩
  cases h with
  | finished order horder =>
    refine ⟨written ++ order, ?_, by rw [output, output, output, List.flatMap_append]⟩
    have htodo : J.todo jobs (J.output written) = jobs.filter (fun j => j ∉ written) := by
      apply List.filter_congr
      intro j hj
      exact decide_eq_decide.mpr (not_congr (hmem j hj))
    have hdone : written.Perm (jobs.filter (fun j => j ∈ written)) := by
      obtain ⟨sub, hperm, hsublist⟩ := hsub
      have hnodup := hperm.nodup_iff.mp (hjobs.sublist hsublist)
      apply (List.perm_ext_iff_of_nodup hnodup (hjobs.filter _)).mpr
      intro j
      rw [List.mem_filter, decide_eq_true_eq]
      exact ⟨fun hj => ⟨hsublist.subset (hperm.mem_iff.mpr hj), hj⟩, fun hj => hj.2⟩
    rw [htodo] at horder
    apply (hdone.append horder).trans
    have hparts := List.filter_append_perm (fun j => decide (j ∈ written)) jobs
    simp only [← decide_not] at hparts
    exact hparts

end Jobs

end TokensThatSuffice.KeyedLog
