import TokensThatSuffice.EndedChunks
import TokensThatSuffice.SweepSpecs
import TokensThatSuffice.TeacherForcing

namespace TokensThatSuffice

open EndedChunks

/-- `random.Random(uid).sample` -/
structure Sampler where
  sample : String → List ℕ → ℕ → List ℕ
  sample_subperm : ∀ uid xs k, k ≤ xs.length → (sample uid xs k).Subperm xs

structure PartialTrajectory where
  uid : String
  trajectory : List Message
  stepIndex : ℕ
  deriving Repr

def chunkTrajectoryByAssistant (trajectory : List Message) : List (List Message) :=
  chunksFrom isAssistant [] trajectory

def getBeforeTrajForStep (messages : List Message) (step : ℕ) : Option (List Message) :=
  let chunks := chunkTrajectoryByAssistant messages
  if chunks.length ≤ step then none else some (chunks.take (step + 1)).flatten.dropLast

def eligibleIndices (maxSteps : ℕ) (sampleLimit : Option ℤ) : List ℕ :=
  let upper := match sampleLimit with
    | some limit => limit - 5
    | none => (maxSteps : ℤ) - 5
  (List.range maxSteps).filter fun i => 5 ≤ i ∧ (i : ℤ) < upper

def branchPoints (s : Sampler) (uid : String) (maxBranchPoints : Option ℤ) (eligible : List ℕ) :
    Except PyError (List ℕ) :=
  match maxBranchPoints with
  | some k =>
    if k < eligible.length then
      if k < 0 then .error (.valueError "Sample larger than population or is negative")
      else .ok ((s.sample uid eligible k.toNat).mergeSort (fun i j => decide (i ≤ j)))
    else .ok eligible
  | none => .ok eligible

def beforeUid (uid : String) (i : ℕ) : String := uid ++ ":" ++ toString i ++ ":before_init"

def afterUid (uid : String) (i n : ℕ) : String := uid ++ ":" ++ toString i ++ ":after:" ++ toString n

section Loop

variable (uid : String) (nRollouts : ℤ) (eligible : List ℕ)

def branchesAt (i : ℕ) (current : List Message) (next : Option (List Message)) : List PartialTrajectory :=
  if i ∈ eligible then
    ⟨beforeUid uid i, current.dropLast, i⟩ ::
      match next with
      | some chunk => (List.range nRollouts.toNat).map fun n => ⟨afterUid uid i n, current ++ chunk.dropLast, i + 1⟩
      | none => []
  else []

def branchesFrom (i : ℕ) (current : List Message) : List (List Message) → List PartialTrajectory
  | [] => []
  | chunk :: rest =>
    branchesAt uid nRollouts eligible i (current ++ chunk) rest.head? ++ branchesFrom (i + 1) (current ++ chunk) rest

end Loop

/-- The entries of the three lists that are returned. -/
def createPartialTrajectoriesFromMessages (s : Sampler) (messages : List Message) (uid : String) (nRollouts : ℤ)
    (maxBranchPoints sampleLimit : Option ℤ) : Except PyError (List PartialTrajectory) := do
  let chunked := chunkTrajectoryByAssistant messages
  let eligible ← branchPoints s uid maxBranchPoints (eligibleIndices chunked.length sampleLimit)
  return branchesFrom uid nRollouts eligible 0 [] chunked

section Names

variable {uid : String} {i j n m : ℕ} {s t : List Char}

theorem takeWhile_numeral (n : ℕ) (s : List Char) :
    (Nat.toDigits 10 n ++ ':' :: s).takeWhile Char.isDigit = Nat.toDigits 10 n := by
  rw [List.takeWhile_append_of_pos toDigits_isDigit, List.takeWhile_cons_of_neg (by decide), List.append_nil]

theorem toDigits_inj (h : Nat.toDigits 10 i = Nat.toDigits 10 j) : i = j := by
  have hvalue := congrArg (Nat.ofDigitChars 10 · 0) h
  simpa only [Nat.ofDigitChars_ten_toDigits] using hvalue

theorem numeral_inj (h : Nat.toDigits 10 i ++ ':' :: s = Nat.toDigits 10 j ++ ':' :: t) : i = j ∧ s = t := by
  have hdigits := congrArg (List.takeWhile Char.isDigit) h
  rw [takeWhile_numeral, takeWhile_numeral] at hdigits
  rw [hdigits] at h
  exact ⟨toDigits_inj hdigits, List.tail_eq_of_cons_eq (List.append_cancel_left h)⟩

theorem toList_beforeUid (uid : String) (i : ℕ) :
    (beforeUid uid i).toList = uid.toList ++ ':' :: (Nat.toDigits 10 i ++ ':' :: "before_init".toList) := by
  have hdigits : (toString i).toList = Nat.toDigits 10 i := Nat.toList_repr
  simp only [beforeUid, String.toList_append, hdigits, List.append_assoc]
  rfl

theorem toList_afterUid (uid : String) (i n : ℕ) : (afterUid uid i n).toList =
    uid.toList ++ ':' :: (Nat.toDigits 10 i ++ ':' :: ("after:".toList ++ Nat.toDigits 10 n)) := by
  have hdigits (i : ℕ) : (toString i).toList = Nat.toDigits 10 i := Nat.toList_repr
  simp only [afterUid, String.toList_append, hdigits, List.append_assoc]
  rfl

theorem beforeUid_inj (h : beforeUid uid i = beforeUid uid j) : i = j := by
  have hlists := congrArg String.toList h
  rw [toList_beforeUid, toList_beforeUid] at hlists
  exact (numeral_inj (List.tail_eq_of_cons_eq (List.append_cancel_left hlists))).1

theorem afterUid_inj (h : afterUid uid i n = afterUid uid j m) : i = j ∧ n = m := by
  have hlists := congrArg String.toList h
  rw [toList_afterUid, toList_afterUid] at hlists
  obtain ⟨hstep, hrest⟩ := numeral_inj (List.tail_eq_of_cons_eq (List.append_cancel_left hlists))
  exact ⟨hstep, toDigits_inj (List.append_cancel_left hrest)⟩

theorem beforeUid_ne_afterUid : beforeUid uid i ≠ afterUid uid j n := by
  intro h
  have hlists := congrArg String.toList h
  rw [toList_beforeUid, toList_afterUid] at hlists
  obtain ⟨-, hrest⟩ := numeral_inj (List.tail_eq_of_cons_eq (List.append_cancel_left hlists))
  have hhead : 'b' = 'a' := by simpa using congrArg List.head? hrest
  exact absurd hhead (by decide)

end Names

section Entries

variable (uid : String) (nRollouts : ℤ) (eligible : List ℕ) (chunks : List (List Message))

def cutBefore (i : ℕ) : List Message := (chunks.take (i + 1)).flatten.dropLast

def entriesAt (i : ℕ) : List PartialTrajectory :=
  if i ∈ eligible then
    ⟨beforeUid uid i, cutBefore chunks i, i⟩ ::
      if i + 1 < chunks.length then
        (List.range nRollouts.toNat).map fun n => ⟨afterUid uid i n, cutBefore chunks (i + 1), i + 1⟩
      else []
  else []

variable {uid nRollouts eligible chunks} {i : ℕ}

theorem branchesAt_eq (hchunks : [] ∉ chunks) :
    branchesAt uid nRollouts eligible i (chunks.take (i + 1)).flatten chunks[i + 1]? =
      entriesAt uid nRollouts eligible chunks i := by
  unfold branchesAt entriesAt
  split_ifs with hmem hnext
  · have hne : chunks[i + 1] ≠ [] := fun hnil => hchunks (hnil ▸ List.getElem_mem hnext)
    have hcut : cutBefore chunks (i + 1) = (chunks.take (i + 1)).flatten ++ chunks[i + 1].dropLast := by
      rw [cutBefore, List.take_succ_eq_append_getElem hnext, List.flatten_append, List.flatten_singleton,
        List.dropLast_append_of_ne_nil hne]
    rw [List.getElem?_eq_getElem hnext, hcut]
    rfl
  · rw [List.getElem?_eq_none (Nat.le_of_not_lt hnext)]
    rfl
  · rfl

theorem branchesFrom_eq (hchunks : [] ∉ chunks) {k : ℕ} (hk : i + k = chunks.length) :
    branchesFrom uid nRollouts eligible i (chunks.take i).flatten (chunks.drop i) =
      (List.range' i k).flatMap (entriesAt uid nRollouts eligible chunks) := by
  induction k generalizing i with
  | zero =>
    rw [List.drop_of_length_le (by omega)]
    rfl
  | succ k ih =>
    have hi : i < chunks.length := by omega
    have htake : (chunks.take (i + 1)).flatten = (chunks.take i).flatten ++ chunks[i] := by
      rw [List.take_succ_eq_append_getElem hi, List.flatten_append, List.flatten_singleton]
    rw [List.drop_eq_getElem_cons hi, branchesFrom, ← htake, List.head?_drop, branchesAt_eq hchunks,
      ih (by omega), List.range'_succ, List.flatMap_cons]

theorem mem_entriesAt {q : PartialTrajectory} : q ∈ entriesAt uid nRollouts eligible chunks i ↔
    i ∈ eligible ∧ (q = ⟨beforeUid uid i, cutBefore chunks i, i⟩ ∨
      i + 1 < chunks.length ∧ ∃ n < nRollouts.toNat, q = ⟨afterUid uid i n, cutBefore chunks (i + 1), i + 1⟩) := by
  unfold entriesAt
  split_ifs with hmem hnext
  · simp [hmem, hnext, eq_comm]
  · simp [hmem, hnext]
  · simp [hmem]

theorem nodup_entriesAt : ((entriesAt uid nRollouts eligible chunks i).map (·.uid)).Nodup := by
  unfold entriesAt
  split_ifs with hmem hnext
  · rw [List.map_cons, List.nodup_cons, List.map_map]
    constructor
    · simp only [List.mem_map, not_exists, not_and]
      intro n _ h
      exact beforeUid_ne_afterUid h.symm
    · apply List.Nodup.map _ List.nodup_range
      intro n m h
      exact (afterUid_inj h).2
  · simp
  · simp

theorem mem_entries {q : PartialTrajectory} :
    q ∈ (List.range chunks.length).flatMap (entriesAt uid nRollouts eligible chunks) ↔
      ∃ i < chunks.length, i ∈ eligible ∧ (q = ⟨beforeUid uid i, cutBefore chunks i, i⟩ ∨
        i + 1 < chunks.length ∧ ∃ n < nRollouts.toNat, q = ⟨afterUid uid i n, cutBefore chunks (i + 1), i + 1⟩) := by
  simp only [List.mem_flatMap, List.mem_range, mem_entriesAt]

theorem nodup_entries (is : List ℕ) (his : is.Nodup) :
    ((is.flatMap (entriesAt uid nRollouts eligible chunks)).map (·.uid)).Nodup := by
  rw [List.map_flatMap, List.nodup_flatMap]
  refine ⟨fun i _ => nodup_entriesAt, his.imp ?_⟩
  intro i j hne x hi hj
  apply hne
  obtain ⟨q, hq, rfl⟩ := List.mem_map.mp hi
  obtain ⟨q', hq', huid⟩ := List.mem_map.mp hj
  rcases (mem_entriesAt.mp hq).2 with rfl | ⟨-, n, -, rfl⟩ <;>
    rcases (mem_entriesAt.mp hq').2 with rfl | ⟨-, n', -, rfl⟩
  · exact (beforeUid_inj huid).symm
  · exact absurd huid.symm beforeUid_ne_afterUid
  · exact absurd huid beforeUid_ne_afterUid
  · exact (afterUid_inj huid).1.symm

end Entries

theorem branchPoints_subset {s : Sampler} {uid : String} {maxBranchPoints : Option ℤ} {eligible points : List ℕ}
    (h : branchPoints s uid maxBranchPoints eligible = .ok points) : points ⊆ eligible := by
  unfold branchPoints at h
  cases maxBranchPoints with
  | none =>
    cases h
    exact List.Subset.refl _
  | some k =>
    dsimp only at h
    split_ifs at h with hlt hneg
    · cases h
      intro i hi
      exact (s.sample_subperm uid eligible k.toNat (by omega)).subset (List.mem_mergeSort.mp hi)
    · cases h
      exact List.Subset.refl _

theorem mem_eligibleIndices {maxSteps i : ℕ} {sampleLimit : Option ℤ} (h : i ∈ eligibleIndices maxSteps sampleLimit) :
    i < maxSteps ∧ (sampleLimit = none → i + 5 < maxSteps) := by
  unfold eligibleIndices at h
  rw [List.mem_filter, List.mem_range, decide_eq_true_eq] at h
  refine ⟨h.1, ?_⟩
  rintro rfl
  have hupper := h.2.2
  dsimp only at hupper
  omega

structure DecisionPoint (messages trajectory : List Message) (i : ℕ) : Prop where
  action : ∃ m after, messages = trajectory ++ m :: after ∧ isAssistant m = true
  counted : trajectory.countP isAssistant = i

structure RealBranches (messages : List Message) (uid : String) (branches : List PartialTrajectory) : Prop where
  kinds : ∀ q ∈ branches, (∃ i, q.uid = beforeUid uid i) ∨ ∃ i n, q.uid = afterUid uid i n
  before : ∀ q ∈ branches, ∀ i, q.uid = beforeUid uid i →
    getBeforeTrajForStep messages i = some q.trajectory ∧ DecisionPoint messages q.trajectory i
  after : ∀ q ∈ branches, ∀ i n, q.uid = afterUid uid i n → DecisionPoint messages q.trajectory (i + 1)
  counted : ∀ q ∈ branches, q.stepIndex = q.trajectory.countP isAssistant
  distinct : (branches.map (·.uid)).Nodup

section Cuts

variable {messages : List Message} {i : ℕ}

def Trailing (messages : List Message) : Prop := messages.getLast?.any (fun m => !isAssistant m) = true

instance : Decidable (Trailing messages) := inferInstanceAs (Decidable (_ = true))

theorem length_chunks (messages : List Message) : (chunkTrajectoryByAssistant messages).length =
    messages.countP isAssistant + if Trailing messages then 1 else 0 := by
  rw [chunkTrajectoryByAssistant, length_chunksFrom (by simp), List.nil_append]
  rfl

theorem cutBefore_spec (hi : i < (chunkTrajectoryByAssistant messages).length) :
    ∃ m after, messages = cutBefore (chunkTrajectoryByAssistant messages) i ++ m :: after ∧
      (cutBefore (chunkTrajectoryByAssistant messages) i).countP isAssistant = i ∧
        (isAssistant m = true ↔ i < messages.countP isAssistant) := by
  obtain ⟨before, m, after, hmessages, htake, hcount, hlast⟩ := exists_cut hi
  have hcut : cutBefore (chunkTrajectoryByAssistant messages) i = before := by
    rw [cutBefore, chunkTrajectoryByAssistant, htake, List.dropLast_concat]
  rw [hcut]
  exact ⟨m, after, hmessages, hcount, hlast⟩

theorem decisionPoint_iff (hi : i < (chunkTrajectoryByAssistant messages).length) :
    DecisionPoint messages (cutBefore (chunkTrajectoryByAssistant messages) i) i ↔
      i < messages.countP isAssistant := by
  obtain ⟨m, after, hmessages, hcount, hlast⟩ := cutBefore_spec hi
  constructor
  · rintro ⟨⟨m', after', hmessages', haction⟩, -⟩
    have hrest := List.append_cancel_left (hmessages.symm.trans hmessages')
    rw [← (List.cons.inj hrest).1] at haction
    exact hlast.mp haction
  · intro hlt
    exact ⟨⟨m, after, hmessages, hlast.mpr hlt⟩, hcount⟩

theorem getBeforeTrajForStep_eq (hi : i < (chunkTrajectoryByAssistant messages).length) :
    getBeforeTrajForStep messages i = some (cutBefore (chunkTrajectoryByAssistant messages) i) :=
  if_neg (Nat.not_le_of_lt hi)

end Cuts

section Branches

variable {messages : List Message} {uid : String} {nRollouts : ℤ} {points : List ℕ}

theorem trailing_points_iff (hpoints : ∀ i ∈ points, i < (chunkTrajectoryByAssistant messages).length) :
    (Trailing messages → ∀ i ∈ points, i ≠ messages.countP isAssistant ∧
        (0 < nRollouts → i + 1 ≠ messages.countP isAssistant)) ↔
      ∀ i ∈ points, i < messages.countP isAssistant ∧ (0 < nRollouts →
        i + 1 < (chunkTrajectoryByAssistant messages).length → i + 1 < messages.countP isAssistant) := by
  have hlength := length_chunks messages
  by_cases htrailing : Trailing messages
  · rw [if_pos htrailing] at hlength
    constructor
    · intro h i hi
      have hlt := hpoints i hi
      obtain ⟨hself, hnext⟩ := h htrailing i hi
      refine ⟨by omega, fun hrollouts _ => ?_⟩
      have hne := hnext hrollouts
      omega
    · intro h _ i hi
      obtain ⟨hself, hnext⟩ := h i hi
      refine ⟨by omega, fun hrollouts => ?_⟩
      have hlt := hnext hrollouts
      omega
  · rw [if_neg htrailing] at hlength
    constructor
    · intro _ i hi
      have hlt := hpoints i hi
      exact ⟨by omega, fun _ _ => by omega⟩
    · exact fun _ h => absurd h htrailing

theorem realBranches_actions (hpoints : ∀ i ∈ points, i < (chunkTrajectoryByAssistant messages).length) :
    RealBranches messages uid ((List.range (chunkTrajectoryByAssistant messages).length).flatMap
        (entriesAt uid nRollouts points (chunkTrajectoryByAssistant messages))) ↔
      ∀ i ∈ points, i < messages.countP isAssistant ∧ (0 < nRollouts →
        i + 1 < (chunkTrajectoryByAssistant messages).length → i + 1 < messages.countP isAssistant) := by
  constructor
  · intro h i hi
    have hlt := hpoints i hi
    constructor
    · exact (decisionPoint_iff hlt).mp (h.before _ (mem_entries.mpr ⟨i, hlt, hi, .inl rfl⟩) i rfl).2
    · intro hrollouts hnext
      have hpoint := h.after _ (mem_entries.mpr ⟨i, hlt, hi, .inr ⟨hnext, 0, by omega, rfl⟩⟩) i 0 rfl
      exact (decisionPoint_iff hnext).mp hpoint
  · intro haction
    have hbefore {i : ℕ} (hlt : i < (chunkTrajectoryByAssistant messages).length) (hi : i ∈ points) :
        DecisionPoint messages (cutBefore (chunkTrajectoryByAssistant messages) i) i :=
      (decisionPoint_iff hlt).mpr (haction i hi).1
    have hafter {i n : ℕ} (hi : i ∈ points) (hnext : i + 1 < (chunkTrajectoryByAssistant messages).length)
        (hn : n < nRollouts.toNat) :
        DecisionPoint messages (cutBefore (chunkTrajectoryByAssistant messages) (i + 1)) (i + 1) :=
      (decisionPoint_iff hnext).mpr ((haction i hi).2 (by omega) hnext)
    constructor
    · intro q hq
      obtain ⟨i, -, -, rfl | ⟨-, n, -, rfl⟩⟩ := mem_entries.mp hq
      · exact .inl ⟨i, rfl⟩
      · exact .inr ⟨i, n, rfl⟩
    · intro q hq j huid
      obtain ⟨i, hlt, hi, rfl | ⟨-, n, -, rfl⟩⟩ := mem_entries.mp hq
      · rw [← beforeUid_inj huid]
        exact ⟨getBeforeTrajForStep_eq hlt, hbefore hlt hi⟩
      · exact absurd huid.symm beforeUid_ne_afterUid
    · intro q hq j m huid
      obtain ⟨i, -, hi, rfl | ⟨hnext, n, hn, rfl⟩⟩ := mem_entries.mp hq
      · exact absurd huid beforeUid_ne_afterUid
      · rw [← (afterUid_inj huid).1]
        exact hafter hi hnext hn
    · intro q hq
      obtain ⟨i, hlt, hi, rfl | ⟨hnext, n, hn, rfl⟩⟩ := mem_entries.mp hq
      · exact (hbefore hlt hi).counted.symm
      · exact (hafter hi hnext hn).counted.symm
    · exact nodup_entries _ List.nodup_range

variable (uid nRollouts) in
theorem realBranches_entries (hpoints : ∀ i ∈ points, i < (chunkTrajectoryByAssistant messages).length) :
    RealBranches messages uid ((List.range (chunkTrajectoryByAssistant messages).length).flatMap
        (entriesAt uid nRollouts points (chunkTrajectoryByAssistant messages))) ↔
      (Trailing messages → ∀ i ∈ points, i ≠ messages.countP isAssistant ∧
        (0 < nRollouts → i + 1 ≠ messages.countP isAssistant)) :=
  (realBranches_actions hpoints).trans (trailing_points_iff hpoints).symm

theorem create_eq (s : Sampler) (maxBranchPoints sampleLimit : Option ℤ) :
    createPartialTrajectoriesFromMessages s messages uid nRollouts maxBranchPoints sampleLimit =
      (branchPoints s uid maxBranchPoints (eligibleIndices (chunkTrajectoryByAssistant messages).length sampleLimit)).map
        fun points => (List.range (chunkTrajectoryByAssistant messages).length).flatMap
          (entriesAt uid nRollouts points (chunkTrajectoryByAssistant messages)) := by
  have hloop (points : List ℕ) : branchesFrom uid nRollouts points 0 [] (chunkTrajectoryByAssistant messages) =
      (List.range' 0 (chunkTrajectoryByAssistant messages).length).flatMap
        (entriesAt uid nRollouts points (chunkTrajectoryByAssistant messages)) :=
    branchesFrom_eq nil_notMem_chunksFrom (Nat.zero_add _)
  rw [createPartialTrajectoriesFromMessages]
  cases branchPoints s uid maxBranchPoints
      (eligibleIndices (chunkTrajectoryByAssistant messages).length sampleLimit) with
  | error e => rfl
  | ok points =>
    rw [ok_bind, pure_eq_ok, hloop, ← List.range_eq_range']
    rfl

end Branches

theorem realBranches_iff (s : Sampler) (messages : List Message) (uid : String) (nRollouts : ℤ)
    (maxBranchPoints sampleLimit : Option ℤ) :
    (∀ branches, createPartialTrajectoriesFromMessages s messages uid nRollouts maxBranchPoints sampleLimit =
        .ok branches → RealBranches messages uid branches) ↔
      sampleLimit = none ∨ ¬ Trailing messages ∨ ∀ points, branchPoints s uid maxBranchPoints
        (eligibleIndices (chunkTrajectoryByAssistant messages).length sampleLimit) = .ok points →
          ∀ i ∈ points, i ≠ messages.countP isAssistant ∧ (0 < nRollouts → i + 1 ≠ messages.countP isAssistant) := by
  rw [create_eq]
  cases hpoints : branchPoints s uid maxBranchPoints
      (eligibleIndices (chunkTrajectoryByAssistant messages).length sampleLimit) with
  | error e => exact ⟨fun _ => .inr (.inr nofun), fun _ => nofun⟩
  | ok points =>
    have heligible {i : ℕ} (hi : i ∈ points) := mem_eligibleIndices (branchPoints_subset hpoints hi)
    have hreal := realBranches_entries uid nRollouts fun i hi => (heligible hi).1
    constructor
    · intro h
      by_cases htrailing : Trailing messages
      · refine .inr (.inr ?_)
        rintro _ ⟨⟩
        exact hreal.mp (h _ rfl) htrailing
      · exact .inr (.inl htrailing)
    · rintro h _ ⟨⟩
      apply hreal.mpr
      intro htrailing i hi
      rcases h with hnone | hnot | hpoints
      · have hfar := (heligible hi).2 hnone
        rw [length_chunks, if_pos htrailing] at hfar
        exact ⟨by omega, fun _ => by omega⟩
      · exact absurd htrailing hnot
      · exact hpoints points rfl i hi

def firstIndices : Sampler where
  sample _ xs k := xs.take k
  sample_subperm _ xs k _ := (List.take_sublist k xs).subperm

def interruptedRun : List Message := List.replicate 5 { role := .assistant } ++ [{ role := .tool }]

theorem not_realBranches_interrupted : ∃ branches,
    createPartialTrajectoriesFromMessages firstIndices interruptedRun "a:0" 1 none (some 11) = .ok branches ∧
      ¬ RealBranches interruptedRun "a:0" branches := by
  have hbranches : createPartialTrajectoriesFromMessages firstIndices interruptedRun "a:0" 1 none (some 11) =
      .ok [⟨beforeUid "a:0" 5, List.replicate 5 { role := .assistant }, 5⟩] := rfl
  refine ⟨_, hbranches, fun h => ?_⟩
  obtain ⟨-, ⟨m, after, hmessages, haction⟩, -⟩ := h.before _ (List.mem_singleton_self _) 5 rfl
  have hnext := List.append_cancel_left hmessages
  rw [← (List.cons.inj hnext).1] at haction
  exact absurd haction (by decide)

end TokensThatSuffice
