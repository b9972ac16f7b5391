import TokensThatSuffice.OrderedDicts
import TokensThatSuffice.SplitEnumeration
import TokensThatSuffice.SweepResume

namespace TokensThatSuffice

open KeyedLog OrderedDicts PrefixSums Runs

def SweepRow.mergeKey (r : SweepRow) : (String × ℕ) × Option String := (r.key, r.spec.map (·.spec.spec))

def loadRows (files : List (List SweepRow)) : List SweepRow :=
  (keepLast SweepRow.mergeKey files.flatten).map Prod.snd

section Shards

variable (py : Python) (inputIds : String → List ℕ) (w : TurnWindow) (stride : ℤ)

def trajectoryUnits (traj : AgentTrajectory) : Except PyError (List SweepUnit) := do
  let turns ← enumerateSplitTurns py inputIds w stride traj
  return turns.map (fun turn => ⟨traj, turn.1, turn.2⟩)

def sweepUnits (trajectories : List AgentTrajectory) : Except PyError (List SweepUnit) := do
  let units ← trajectories.mapM (trajectoryUnits py inputIds w stride)
  return units.flatten

/-- `trajectories[idx::n_shards]` -/
def shardOf (nShards idx : ℕ) (trajectories : List AgentTrajectory) : List AgentTrajectory :=
  everyNth nShards idx trajectories

end Shards

section Partition

variable {α : Type}

theorem everyNth_perm {n : ℕ} (hn : 0 < n) (xs : List α) :
    ((List.range n).flatMap (fun i => everyNth n i xs)).Perm xs := by
  obtain ⟨m, rfl⟩ : ∃ m, n = m + 1 := ⟨n - 1, by omega⟩
  induction xs with
  | nil => simp [everyNth]
  | cons x xs ih =>
    -- the first shard takes `x` and is then the last one, each other shard moves one place down
    have hmove : (List.range (m + 1)).flatMap (fun i => everyNth (m + 1) i (x :: xs)) =
        x :: (everyNth (m + 1) m xs ++ (List.range m).flatMap (fun i => everyNth (m + 1) i xs)) := by
      rw [List.range_succ_eq_map, List.flatMap_cons, List.flatMap_map]
      rfl
    rw [hmove]
    apply List.Perm.cons
    apply List.perm_append_comm.trans
    apply List.Perm.trans _ ih
    rw [List.range_succ, List.flatMap_append, List.flatMap_singleton]

theorem everyNth_sublist (n skip : ℕ) (xs : List α) : (everyNth n skip xs).Sublist xs := by
  induction xs generalizing skip with
  | nil => cases skip <;> exact .refl _
  | cons x xs ih =>
    cases skip with
    | zero => exact (ih _).cons_cons x
    | succ skip => exact (ih _).cons x

theorem shardOf_subset (n i : ℕ) (trajectories : List AgentTrajectory) :
    shardOf n i trajectories ⊆ trajectories := (everyNth_sublist n i trajectories).subset

end Partition

section Units

variable {py : Python} {inputIds : String → List ℕ} {w : TurnWindow} {stride : ℤ}

theorem enumerateSplitTurns_nodup {traj : AgentTrajectory} {turns : List (ℕ × ℕ)}
    (h : enumerateSplitTurns py inputIds w stride traj = .ok turns) : (turns.map Prod.fst).Nodup := by
  obtain ⟨lens, -, h⟩ := bind_eq_ok.mp h
  have hall : ((enumerateFrom w lens.length 0 0 lens).map Prod.fst).Nodup := by
    rw [enumerateFrom_filter]
    apply List.Nodup.sublist (List.filter_sublist.map Prod.fst)
    apply List.pairwise_map.mpr
    exact (sums_numbered lens).imp (fun hlt => Nat.ne_of_lt hlt)
  cases h
  split_ifs
  · exact hall.sublist ((everyNth_sublist _ _ _).map Prod.fst)
  · exact hall

theorem trajectoryUnits_traj {traj : AgentTrajectory} {units : List SweepUnit}
    (h : trajectoryUnits py inputIds w stride traj = .ok units) : ∀ u ∈ units, u.traj = traj := by
  obtain ⟨turns, -, h⟩ := bind_eq_ok.mp h
  cases h
  intro u hu
  obtain ⟨turn, -, rfl⟩ := List.mem_map.mp hu
  rfl

theorem trajectoryUnits_nodup {traj : AgentTrajectory} {units : List SweepUnit}
    (h : trajectoryUnits py inputIds w stride traj = .ok units) : (units.map SweepUnit.key).Nodup := by
  obtain ⟨turns, hturns, h⟩ := bind_eq_ok.mp h
  cases h
  rw [List.map_map]
  have hfirst := enumerateSplitTurns_nodup hturns
  rw [List.Nodup, List.pairwise_map] at hfirst ⊢
  exact hfirst.imp (fun hne heq => hne (Prod.mk.inj heq).2)

theorem sweepUnits_flatMap {trajectories : List AgentTrajectory} {units : List SweepUnit}
    (h : sweepUnits py inputIds w stride trajectories = .ok units) :
    ∃ g : AgentTrajectory → List SweepUnit, (∀ t ∈ trajectories, trajectoryUnits py inputIds w stride t = .ok (g t)) ∧
      ∀ sub, sub ⊆ trajectories → sweepUnits py inputIds w stride sub = .ok (sub.flatMap g) := by
  obtain ⟨each, heach, -⟩ := bind_eq_ok.mp h
  have hall := mapM_ok_iff_forall.mp ⟨each, heach⟩
  have hg : ∀ t ∈ trajectories, trajectoryUnits py inputIds w stride t =
      .ok ((trajectoryUnits py inputIds w stride t).toOption.getD []) := by
    intro t ht
    obtain ⟨u, hu⟩ := hall t ht
    rw [hu]
    rfl
  refine ⟨_, hg, ?_⟩
  intro sub hsub
  rw [sweepUnits, mapM_eq_map (fun t ht => hg t (hsub ht)), ok_bind, pure_eq_ok, List.flatMap_def]

theorem units_nodup {trajectories : List AgentTrajectory} {g : AgentTrajectory → List SweepUnit}
    (hids : (trajectories.map AgentTrajectory.trajectoryId).Nodup)
    (hg : ∀ t ∈ trajectories, trajectoryUnits py inputIds w stride t = .ok (g t)) :
    ((trajectories.flatMap g).map SweepUnit.key).Nodup := by
  rw [List.map_flatMap, List.nodup_flatMap]
  refine ⟨fun t ht => trajectoryUnits_nodup (hg t ht), ?_⟩
  rw [List.Nodup, List.pairwise_map] at hids
  apply hids.imp_of_mem
  intro t t' ht ht' hne k hk hk'
  obtain ⟨u, hu, rfl⟩ := List.mem_map.mp hk
  obtain ⟨u', hu', hkey⟩ := List.mem_map.mp hk'
  apply hne
  rw [← trajectoryUnits_traj (hg t ht) u hu, ← trajectoryUnits_traj (hg t' ht') u' hu']
  exact (Prod.mk.inj hkey).1.symm

end Units

section Merge

variable {s : SweepSetup} {order order' : List SweepUnit}

theorem unitRows_last_eq_none {u : SweepUnit} {k : (String × ℕ) × Option String} (hu : u.key ≠ k.1) :
    last SweepRow.mergeKey (s.unitRows u) k = none := by
  rw [last_eq_none_iff]
  rintro r hr rfl
  exact hu (s.unitRows_key u r hr).symm

theorem output_last_eq_none {k : (String × ℕ) × Option String} (h : ∀ u ∈ order, u.key ≠ k.1) :
    last SweepRow.mergeKey (s.jobs.output order) k = none := by
  rw [last_eq_none_iff]
  intro r hr
  obtain ⟨u, hu, hr⟩ := List.mem_flatMap.mp hr
  exact last_eq_none_iff.mp (unitRows_last_eq_none (h u hu)) r hr

theorem output_last_eq (hkeys : (order.map SweepUnit.key).Nodup) {u : SweepUnit} (hu : u ∈ order)
    {k : (String × ℕ) × Option String} (hk : u.key = k.1) :
    last SweepRow.mergeKey (s.jobs.output order) k = last SweepRow.mergeKey (s.unitRows u) k := by
  obtain ⟨before, after, rfl⟩ := List.append_of_mem hu
  have hothers : ∀ u' ∈ before ++ after, u'.key ≠ k.1 := by
    have hmiddle := (List.perm_middle.map SweepUnit.key).nodup_iff.mp hkeys
    rw [List.map_cons, List.nodup_cons, hk] at hmiddle
    intro u' hu' heq
    exact hmiddle.1 (List.mem_map.mpr ⟨u', hu', heq⟩)
  have hsplit : s.jobs.output (before ++ u :: after) = s.jobs.output before ++ (s.unitRows u ++ s.jobs.output after) := by
    rw [Jobs.output, List.flatMap_append, List.flatMap_cons]
    rfl
  rw [hsplit, last_append, last_append,
    output_last_eq_none (fun u' hu' => hothers u' (List.mem_append_right _ hu')),
    output_last_eq_none (fun u' hu' => hothers u' (List.mem_append_left _ hu')), Option.none_or, Option.or_none]

theorem output_last_perm (hperm : order.Perm order') (hkeys : (order.map SweepUnit.key).Nodup)
    (k : (String × ℕ) × Option String) :
    last SweepRow.mergeKey (s.jobs.output order) k = last SweepRow.mergeKey (s.jobs.output order') k := by
  have hkeys' := (hperm.map SweepUnit.key).nodup_iff.mp hkeys
  by_cases hunit : ∃ u ∈ order, u.key = k.1
  · obtain ⟨u, hu, hk⟩ := hunit
    rw [output_last_eq hkeys hu hk, output_last_eq hkeys' (hperm.subset hu) hk]
  · have hnone : ∀ u ∈ order, u.key ≠ k.1 := fun u hu hk => hunit ⟨u, hu, hk⟩
    rw [output_last_eq_none hnone, output_last_eq_none (fun u hu => hnone u (hperm.mem_iff.mpr hu))]

theorem swept_output {units : List SweepUnit} {final : List SweepRow}
    (h : s.jobs.Attempt units [] .finished final) : ∃ order, order.Perm units ∧ final = s.jobs.output order := by
  cases h with
  | finished order horder =>
    refine ⟨order, ?_, rfl⟩
    apply horder.trans
    rw [Jobs.todo, List.filter_eq_self.mpr (by simp)]

theorem keepLast_values {rows : List SweepRow} :
    ((keepLast SweepRow.mergeKey rows).map Prod.snd).map SweepRow.mergeKey =
      (keepLast SweepRow.mergeKey rows).map Prod.fst := by
  rw [List.map_map]
  apply List.map_congr_left
  rintro ⟨k, r⟩ hmem
  have hlast := (lookup_eq_some_iff_mem (nodup_keepLast rows)).mpr hmem
  rw [lookup_keepLast, last] at hlast
  simpa using List.find?_some hlast

end Merge

section Sharding

variable {s : SweepSetup} {py : Python} {inputIds : String → List ℕ} {w : TurnWindow} {stride : ℤ}
  {trajectories : List AgentTrajectory} {n : ℕ}

/-- The shard's file is what killed attempts at its own trajectories and one that finishes leave, in whatever order the
units finished, where the last attempt starts on a file in which each unit has all its rows or none. -/
def SweptShard (s : SweepSetup) (py : Python) (inputIds : String → List ℕ) (w : TurnWindow) (stride : ℤ)
    (trajectories : List AgentTrajectory) (n i : ℕ) (final : List SweepRow) : Prop :=
  ∃ units file events, sweepUnits py inputIds w stride (shardOf n i trajectories) = .ok units ∧
    Run (s.jobs.Attempt units) [] file events ∧ s.jobs.Whole units file ∧ s.jobs.Attempt units file .finished final

theorem shards_output {g : AgentTrajectory → List SweepUnit}
    (hids : (trajectories.map AgentTrajectory.trajectoryId).Nodup)
    (hunits : ∀ t ∈ trajectories, trajectoryUnits py inputIds w stride t = .ok (g t))
    (hg : ∀ sub, sub ⊆ trajectories → sweepUnits py inputIds w stride sub = .ok (sub.flatMap g)) {idxs : List ℕ}
    {files : List (List SweepRow)} (h : List.Forall₂ (SweptShard s py inputIds w stride trajectories n) idxs files) :
    ∃ order, files.flatten = s.jobs.output order ∧
      order.Perm ((idxs.flatMap (fun i => shardOf n i trajectories)).flatMap g) := by
  induction h with
  | nil => exact ⟨[], rfl, .refl _⟩
  | @cons i final idxs files hfinal _ ih =>
    obtain ⟨units, file, events, hshard, -, hwhole, hfinal⟩ := hfinal
    rw [hg _ (shardOf_subset n i trajectories), Except.ok.injEq] at hshard
    subst hshard
    have hkeys := units_nodup (hids.sublist ((everyNth_sublist n i trajectories).map _))
      (fun t ht => hunits t (shardOf_subset n i trajectories ht))
    obtain ⟨first, hfirst, rfl⟩ := Jobs.finished_perm hkeys hwhole hfinal
    obtain ⟨rest, hrest, hperm⟩ := ih
    refine ⟨first ++ rest, ?_, ?_⟩
    · rw [List.flatten_cons, hrest, Jobs.output, Jobs.output, Jobs.output, List.flatMap_append]
    · rw [List.flatMap_cons, List.flatMap_append]
      exact hfirst.append hperm

theorem sharded_sweep {units : List SweepUnit} {whole : List SweepRow} {finals files old : List (List SweepRow)}
    (hn : 0 < n) (hids : (trajectories.map AgentTrajectory.trajectoryId).Nodup)
    (hunits : sweepUnits py inputIds w stride trajectories = .ok units)
    (hwhole : s.jobs.Attempt units [] .finished whole)
    (hshards : List.Forall₂ (SweptShard s py inputIds w stride trajectories n) (List.range n) finals)
    (hfiles : files.Perm finals) (hold : ∀ r ∈ old.flatten, r.mergeKey ∈ whole.map SweepRow.mergeKey) :
    (loadRows (old ++ files)).Perm (loadRows [whole]) ∧
      ((loadRows (old ++ files)).map SweepRow.mergeKey).Nodup := by
  obtain ⟨g, hg, hsub⟩ := sweepUnits_flatMap hunits
  rw [hsub _ (List.Subset.refl _), Except.ok.injEq] at hunits
  subst hunits
  obtain ⟨order, horder, rfl⟩ := swept_output hwhole
  obtain ⟨idxs, hshards', hidxs⟩ := List.perm_comp_forall₂ hfiles hshards.flip
  obtain ⟨order', hflat, horder'⟩ := shards_output hids hg hsub hshards'.flip
  have hperm : order.Perm order' := by
    apply horder.trans
    apply List.Perm.trans _ horder'.symm
    apply List.Perm.flatMap_right
    apply List.Perm.trans _ (hidxs.symm.flatMap_right _)
    exact (everyNth_perm hn trajectories).symm
  have hkeys : (order.map SweepUnit.key).Nodup :=
    (horder.map SweepUnit.key).nodup_iff.mpr (units_nodup hids hg)
  have hsame : ∀ k, last SweepRow.mergeKey (old ++ files).flatten k =
      last SweepRow.mergeKey [s.jobs.output order].flatten k := by
    intro k
    rw [List.flatten_append, last_append, hflat, List.flatten_singleton, ← output_last_perm hperm hkeys]
    cases hlast : last SweepRow.mergeKey (s.jobs.output order) k with
    | some r => rfl
    | none =>
      rw [Option.none_or, last_eq_none_iff]
      rintro r hr rfl
      obtain ⟨r', hr', hkey⟩ := List.mem_map.mp (hold r hr)
      exact last_eq_none_iff.mp hlast r' hr' hkey
  refine ⟨(keepLast_perm hsame).map Prod.snd, ?_⟩
  rw [loadRows, keepLast_values]
  exact nodup_keepLast _

end Sharding

def lsWindow : TurnWindow := ⟨0, 1000, 0, 0⟩

def lsTrajectories : List AgentTrajectory :=
  [lsUnit.traj, { lsUnit.traj with trajectoryId := "u" }, { lsUnit.traj with trajectoryId := "v" }]

theorem lsTrajectories_units : ∃ units, units.length = 3 ∧
    sweepUnits asciiPython charTokenizer.encode lsWindow 1 lsTrajectories = .ok units := by
  have h : (sweepUnits asciiPython charTokenizer.encode lsWindow 1 lsTrajectories).toOption.map List.length = some 3 := by
    decide +kernel
  obtain ⟨units, hunits, hlen⟩ := Option.map_eq_some_iff.mp h
  cases hsweep : sweepUnits asciiPython charTokenizer.encode lsWindow 1 lsTrajectories with
  | error e =>
    rw [hsweep] at hunits
    cases hunits
  | ok units' =>
    rw [hsweep] at hunits
    cases hunits
    exact ⟨units, hlen, rfl⟩

theorem sharded_sweep_lsTrajectories : ∃ (units : List SweepUnit) (whole a b : List SweepRow), units.length = 3 ∧
    twoSpecs.jobs.Attempt units [] .finished whole ∧ (loadRows [b, a]).Perm (loadRows [whole]) := by
  obtain ⟨units, hlen, hunits⟩ := lsTrajectories_units
  obtain ⟨g, -, hsub⟩ := sweepUnits_flatMap hunits
  have hswept (units : List SweepUnit) : twoSpecs.jobs.Attempt units [] .finished (twoSpecs.jobs.output units) := by
    have htodo : twoSpecs.jobs.todo units [] = units := List.filter_eq_self.mpr (by simp)
    apply Jobs.Attempt.finished units
    rw [htodo]
  have hsecond : SweptShard twoSpecs asciiPython charTokenizer.encode lsWindow 1 lsTrajectories 2 1
      (twoSpecs.jobs.output ((shardOf 2 1 lsTrajectories).flatMap g)) :=
    ⟨_, [], [], hsub _ (shardOf_subset 2 1 lsTrajectories), .nil, ⟨[], List.nil_subperm, rfl⟩, hswept _⟩
  have hkilled : twoSpecs.jobs.Attempt ((shardOf 2 0 lsTrajectories).flatMap g) [] .killed
      (twoSpecs.jobs.output (g lsUnit.traj)) := by
    refine .killed ((shardOf 2 0 lsTrajectories).flatMap g) _ ?_ ?_
    · rw [Jobs.todo, List.filter_eq_self.mpr (by simp)]
    · rw [List.nil_append]
      exact (List.prefix_append (g lsUnit.traj) _).flatMap _
  have hfirst : SweptShard twoSpecs asciiPython charTokenizer.encode lsWindow 1 lsTrajectories 2 0 _ :=
    ⟨_, _, [.killed], hsub _ (shardOf_subset 2 0 lsTrajectories), .snoc .nil hkilled,
      ⟨g lsUnit.traj, (List.sublist_append_left _ _).subperm, rfl⟩, .finished _ (.refl _)⟩
  have hold : ∀ r ∈ ([] : List (List SweepRow)).flatten,
      r.mergeKey ∈ (twoSpecs.jobs.output units).map SweepRow.mergeKey := by simp
  have h := sharded_sweep Nat.two_pos (by decide) hunits (hswept units)
    (.cons hfirst (.cons hsecond .nil)) (.swap _ _ []) hold
  exact ⟨units, _, _, _, hlen, hswept units, h.1⟩

end TokensThatSuffice
