import TokensThatSuffice.BranchPoints

namespace TokensThatSuffice

open SpanMatching

/-- `[a-f0-9-]` -/
def isUidChar (c : Char) : Bool := ('a' ≤ c && c ≤ 'f') || c.isDigit || c = '-'

/-- `^([a-f0-9-]+:0):(\d+)`, and the rest of the name. -/
def matchStep (name : List Char) : Option (String × List Char × List Char) := do
  let (hex, rest) ← spanOf isUidChar name
  let rest ← literal ":0:".toList rest
  let (step, rest) ← spanOf isDecimal rest
  return (String.ofList hex ++ ":0", step, rest)

/-- `\.json$`, where the anchor also stands before a final line break. -/
def endsJson (rest : List Char) : Bool := rest = ".json".toList ∨ rest = ".json\n".toList

/-- `(?::\d+)?\.json$` -/
def matchEnd (rest : List Char) : Bool :=
  endsJson rest || ((literal ":".toList rest).bind (spanOf isDecimal)).any fun (_, rest) => endsJson rest

/-- `^([a-f0-9-]+:0):(\d+):kind:(\d+)(?::\d+)?\.json$` -/
def matchNumbered (kind : String) (name : String) : Option (String × List Char × List Char) := do
  let (uid, step, rest) ← matchStep name.toList
  let rest ← literal (":" ++ kind ++ ":").toList rest
  let (k, rest) ← spanOf isDecimal rest
  if matchEnd rest then some (uid, step, k) else none

def matchAfter : String → Option (String × List Char × List Char) := matchNumbered "after"

def matchBefore : String → Option (String × List Char × List Char) := matchNumbered "before"

def matchBeforeInit (name : String) : Option (String × List Char) := do
  let (uid, step, rest) ← matchStep name.toList
  let rest ← literal ":before_init".toList rest
  if matchEnd rest then some (uid, step) else none

section Sets

variable {κ : Type} [DecidableEq κ]

def addTo (sets : κ → Finset ℕ) (key : κ) (x : ℕ) : κ → Finset ℕ := Function.update sets key (insert x (sets key))

theorem mem_addTo {sets : κ → Finset ℕ} {key key' : κ} {x y : ℕ} :
    y ∈ addTo sets key x key' ↔ (key' = key ∧ y = x) ∨ y ∈ sets key' := by
  by_cases hkey : key' = key
  · rw [hkey, addTo, Function.update_self, Finset.mem_insert]
    simp
  · rw [addTo, Function.update_of_ne hkey]
    simp [hkey]

end Sets

structure MissingScan where
  afterSteps : String → Finset ℕ := fun _ => ∅
  beforeSteps : String → Finset ℕ := fun _ => ∅

def missingStep (scan : MissingScan) (f : String) : Except PyError MissingScan :=
  match matchAfter f with
  | some (uid, step, _) => do return { scan with afterSteps := addTo scan.afterSteps uid (← readGroup step) }
  | none =>
    match matchBefore f with
    | some (uid, step, _) => do return { scan with beforeSteps := addTo scan.beforeSteps uid (← readGroup step) }
    | none => .ok scan

def getStepsMissingBefore (files : List String) : Except PyError (String → Option (Finset ℕ)) := do
  let scan ← files.foldlM missingStep {}
  return fun baseUid =>
    let missing := scan.afterSteps baseUid \ scan.beforeSteps baseUid
    if missing = ∅ then none else some missing

structure IncompleteScan where
  afterSteps : String → Finset ℕ := fun _ => ∅
  beforeKs : String × ℕ → Finset ℕ := fun _ => ∅
  beforeInitSteps : String → Finset ℕ := fun _ => ∅

structure IncompleteStep where
  existingKs : Finset ℕ
  hasBeforeInit : Bool

def incompleteStep (scan : IncompleteScan) (f : String) : Except PyError IncompleteScan :=
  match matchAfter f with
  | some (uid, step, _) => do return { scan with afterSteps := addTo scan.afterSteps uid (← readGroup step) }
  | none =>
    match matchBefore f with
    | some (uid, step, k) => do
      return { scan with beforeKs := addTo scan.beforeKs (uid, ← readGroup step) (← readGroup k) }
    | none =>
      match matchBeforeInit f with
      | some (uid, step) => do
        return { scan with beforeInitSteps := addTo scan.beforeInitSteps uid (← readGroup step) }
      | none => .ok scan

def getStepsIncompleteBefore (files : List String) (nRollouts : ℤ) :
    Except PyError (String → ℕ → Option IncompleteStep) := do
  let scan ← files.foldlM incompleteStep {}
  return fun baseUid step =>
    let existingKs := scan.beforeKs (baseUid, step)
    if step ∈ scan.afterSteps baseUid ∧ (existingKs.card : ℤ) < nRollouts then
      some ⟨existingKs, step ∈ scan.beforeInitSteps baseUid⟩
    else none

section Names

variable {kind f uid : String} {d e rest : List Char}

def NameEnd (rest : List Char) : Prop :=
  ∃ suffix ending, rest = suffix ++ ending ∧ (suffix = [] ∨ ∃ n, Spans isDecimal n ∧ suffix = ':' :: n) ∧
    (ending = ".json".toList ∨ ending = ".json\n".toList)

def BaseUid (uid : String) : Prop := ∃ hex, Spans isUidChar hex ∧ uid = String.ofList hex ++ ":0"

structure StepName (uid : String) (step rest name : List Char) : Prop where
  base : BaseUid uid
  number : Spans isDecimal step
  name : name = uid.toList ++ (':' :: (step ++ rest))

theorem endsJson_iff : endsJson rest = true ↔ rest = ".json".toList ∨ rest = ".json\n".toList := decide_eq_true_iff

theorem stops_ending (h : rest = ".json".toList ∨ rest = ".json\n".toList) : Stops isDecimal rest := by
  rcases h with rfl | rfl <;> exact stops_cons (by decide)

theorem matchEnd_iff : matchEnd rest = true ↔ NameEnd rest := by
  rw [matchEnd, Bool.or_eq_true, endsJson_iff, Option.any_eq_true]
  constructor
  · rintro (h | ⟨⟨n, ending⟩, hmatch, h⟩)
    · exact ⟨[], rest, rfl, .inl rfl, h⟩
    · obtain ⟨after, hliteral, hspan⟩ := Option.bind_eq_some_iff.mp hmatch
      obtain ⟨rfl, hn, -⟩ := spanOf_eq_some.mp hspan
      obtain rfl := literal_eq_some.mp hliteral
      exact ⟨':' :: n, ending, rfl, .inr ⟨n, hn, rfl⟩, endsJson_iff.mp h⟩
  · rintro ⟨suffix, ending, rfl, rfl | ⟨n, hn, rfl⟩, hending⟩
    · exact .inl hending
    · refine .inr ⟨(n, ending), ?_, endsJson_iff.mpr hending⟩
      refine Option.bind_eq_some_iff.mpr ⟨n ++ ending, literal_eq_some.mpr rfl, ?_⟩
      exact spanOf_eq_some.mpr ⟨rfl, hn, stops_ending hending⟩

theorem NameEnd.stops (h : NameEnd rest) : Stops isDecimal rest := by
  obtain ⟨suffix, ending, rfl, rfl | ⟨n, -, rfl⟩, hending⟩ := h
  · exact stops_ending hending
  · exact stops_cons (by decide)

theorem toList_base (hex rest : List Char) :
    (String.ofList hex ++ ":0").toList ++ ':' :: rest = hex ++ (":0:".toList ++ rest) := by
  have hhex : (String.ofList hex).toList = hex := String.toList_ofList
  rw [String.toList_append, hhex, List.append_assoc]
  rfl

theorem matchStep_eq_some {name : List Char} :
    matchStep name = some (uid, d, rest) ↔ StepName uid d rest name ∧ Stops isDecimal rest := by
  unfold matchStep
  constructor
  · intro h
    obtain ⟨⟨hex, s⟩, hspan, h⟩ := Option.bind_eq_some_iff.mp h
    obtain ⟨t, hliteral, h⟩ := Option.bind_eq_some_iff.mp h
    obtain ⟨⟨d', rest'⟩, hnumber, h⟩ := Option.bind_eq_some_iff.mp h
    cases h
    obtain ⟨rfl, hhex, -⟩ := spanOf_eq_some.mp hspan
    obtain ⟨rfl, hd, hstops⟩ := spanOf_eq_some.mp hnumber
    obtain rfl := literal_eq_some.mp hliteral
    exact ⟨⟨⟨hex, hhex, rfl⟩, hd, (toList_base hex (d ++ rest)).symm⟩, hstops⟩
  · rintro ⟨⟨⟨hex, hhex, rfl⟩, hd, rfl⟩, hstops⟩
    rw [toList_base]
    refine Option.bind_eq_some_iff.mpr ⟨(hex, ":0:".toList ++ (d ++ rest)), ?_, ?_⟩
    · exact spanOf_eq_some.mpr ⟨rfl, hhex, stops_cons (by decide)⟩
    refine Option.bind_eq_some_iff.mpr ⟨d ++ rest, literal_eq_some.mpr rfl, ?_⟩
    exact Option.bind_eq_some_iff.mpr ⟨(d, rest), spanOf_eq_some.mpr ⟨rfl, hd, hstops⟩, rfl⟩

def NumberedName (kind f uid : String) (step k : List Char) : Prop :=
  Spans isDecimal k ∧ ∃ ending, NameEnd ending ∧
    StepName uid step (':' :: (kind.toList ++ ':' :: (k ++ ending))) f.toList

def InitName (f uid : String) (step : List Char) : Prop :=
  ∃ ending, NameEnd ending ∧ StepName uid step (":before_init".toList ++ ending) f.toList

theorem matchNumbered_eq_some : matchNumbered kind f = some (uid, d, e) ↔ NumberedName kind f uid d e := by
  have htext (s : List Char) : (":" ++ kind ++ ":").toList ++ s = ':' :: (kind.toList ++ ':' :: s) := by
    rw [String.toList_append, String.toList_append, List.append_assoc, List.append_assoc]
    rfl
  unfold matchNumbered
  constructor
  · intro h
    obtain ⟨⟨uid', d', rest⟩, hstep, h⟩ := Option.bind_eq_some_iff.mp h
    obtain ⟨t, hliteral, h⟩ := Option.bind_eq_some_iff.mp h
    obtain ⟨⟨e', ending⟩, hspan, h⟩ := Option.bind_eq_some_iff.mp h
    dsimp only at h
    split_ifs at h with hend
    cases h
    obtain rfl := literal_eq_some.mp hliteral
    obtain ⟨rfl, he, -⟩ := spanOf_eq_some.mp hspan
    rw [htext] at hstep
    exact ⟨he, ending, matchEnd_iff.mp hend, (matchStep_eq_some.mp hstep).1⟩
  · rintro ⟨he, ending, hend, hname⟩
    refine Option.bind_eq_some_iff.mpr ⟨_, matchStep_eq_some.mpr ⟨hname, stops_cons (by decide)⟩, ?_⟩
    refine Option.bind_eq_some_iff.mpr ⟨e ++ ending, literal_eq_some.mpr (htext _).symm, ?_⟩
    refine Option.bind_eq_some_iff.mpr ⟨(e, ending), spanOf_eq_some.mpr ⟨rfl, he, hend.stops⟩, ?_⟩
    exact if_pos (matchEnd_iff.mpr hend)

theorem matchBeforeInit_eq_some : matchBeforeInit f = some (uid, d) ↔ InitName f uid d := by
  unfold matchBeforeInit
  constructor
  · intro h
    obtain ⟨⟨uid', d', rest⟩, hstep, h⟩ := Option.bind_eq_some_iff.mp h
    obtain ⟨ending, hliteral, h⟩ := Option.bind_eq_some_iff.mp h
    split_ifs at h with hend
    cases h
    obtain rfl := literal_eq_some.mp hliteral
    exact ⟨ending, matchEnd_iff.mp hend, (matchStep_eq_some.mp hstep).1⟩
  · rintro ⟨ending, hend, hname⟩
    refine Option.bind_eq_some_iff.mpr ⟨_, matchStep_eq_some.mpr ⟨hname, stops_cons (by decide)⟩, ?_⟩
    refine Option.bind_eq_some_iff.mpr ⟨ending, literal_eq_some.mpr rfl, ?_⟩
    exact if_pos (matchEnd_iff.mpr hend)

theorem StepName.unique {uid' : String} {d' rest' name : List Char} (h : StepName uid d rest name)
    (h' : StepName uid' d' rest' name) (hrest : Stops isDecimal rest) (hrest' : Stops isDecimal rest') :
    rest = rest' := by
  have hmatch := (matchStep_eq_some.mpr ⟨h, hrest⟩).symm.trans (matchStep_eq_some.mpr ⟨h', hrest'⟩)
  simp only [Option.some.injEq, Prod.mk.injEq] at hmatch
  exact hmatch.2.2

theorem matchAfter_eq_none_of_before (h : NumberedName "before" f uid d e) : matchAfter f = none := by
  rw [Option.eq_none_iff_forall_ne_some]
  rintro ⟨uid', d', e'⟩ hafter
  obtain ⟨-, ending, -, hname⟩ := h
  obtain ⟨-, ending', -, hname'⟩ := matchNumbered_eq_some.mp hafter
  have hrest := hname.unique hname' (stops_cons (by decide)) (stops_cons (by decide))
  simp at hrest

theorem matchNumbered_eq_none_of_init (hkind : kind = "after" ∨ kind = "before") (h : InitName f uid d) :
    matchNumbered kind f = none := by
  rw [Option.eq_none_iff_forall_ne_some]
  rintro ⟨uid', d', e'⟩ hnumbered
  obtain ⟨ending, -, hname⟩ := h
  obtain ⟨-, ending', -, hname'⟩ := matchNumbered_eq_some.mp hnumbered
  have hrest := hname.unique hname' (stops_cons (by decide)) (stops_cons (by decide))
  rcases hkind with rfl | rfl <;> simp at hrest

end Names

inductive BranchFile where
  | after (uid : String) (step : ℕ)
  | before (uid : String) (step k : ℕ)
  | beforeInit (uid : String) (step : ℕ)
  deriving DecidableEq, Repr

def readName (f : String) : Except PyError (Option BranchFile) :=
  match matchAfter f with
  | some (uid, step, _) => do return some (.after uid (← readGroup step))
  | none =>
    match matchBefore f with
    | some (uid, step, k) => do return some (.before uid (← readGroup step) (← readGroup k))
    | none =>
      match matchBeforeInit f with
      | some (uid, step) => do return some (.beforeInit uid (← readGroup step))
      | none => .ok none

def IncompleteScan.record (scan : IncompleteScan) : Option BranchFile → IncompleteScan
  | some (.after uid step) => { scan with afterSteps := addTo scan.afterSteps uid step }
  | some (.before uid step k) => { scan with beforeKs := addTo scan.beforeKs (uid, step) k }
  | some (.beforeInit uid step) => { scan with beforeInitSteps := addTo scan.beforeInitSteps uid step }
  | none => scan

def MissingScan.record (scan : MissingScan) : Option BranchFile → MissingScan
  | some (.after uid step) => { scan with afterSteps := addTo scan.afterSteps uid step }
  | some (.before uid step _) => { scan with beforeSteps := addTo scan.beforeSteps uid step }
  | _ => scan

section Scans

theorem incompleteStep_eq (scan : IncompleteScan) (f : String) :
    incompleteStep scan f = (readName f).map scan.record := by
  unfold incompleteStep readName
  rcases matchAfter f with - | ⟨uid, d, k⟩
  · rcases matchBefore f with - | ⟨uid, d, k⟩
    · rcases matchBeforeInit f with - | ⟨uid, d⟩
      · rfl
      · dsimp only
        cases readGroup d <;> rfl
    · dsimp only
      cases readGroup d with
      | error e => rfl
      | ok step => cases readGroup k <;> rfl
  · dsimp only
    cases readGroup d <;> rfl

theorem missingStep_eq (scan : MissingScan) {f : String} {found : Option BranchFile} (h : readName f = .ok found) :
    missingStep scan f = .ok (scan.record found) := by
  revert h
  unfold readName missingStep
  rcases matchAfter f with - | ⟨uid, d, k⟩
  · rcases matchBefore f with - | ⟨uid, d, k⟩
    · rcases matchBeforeInit f with - | ⟨uid, d⟩
      · rintro ⟨⟩
        rfl
      · intro h
        obtain ⟨step, -, h⟩ := bind_eq_ok.mp h
        cases h
        rfl
    · intro h
      obtain ⟨step, hstep, h⟩ := bind_eq_ok.mp h
      obtain ⟨n, -, h⟩ := bind_eq_ok.mp h
      cases h
      dsimp only
      rw [hstep]
      rfl
  · intro h
    obtain ⟨step, hstep, h⟩ := bind_eq_ok.mp h
    cases h
    dsimp only
    rw [hstep]
    rfl

variable {files : List String} {founds : List (Option BranchFile)}

theorem foldlM_incompleteStep (scan : IncompleteScan) (files : List String) :
    files.foldlM incompleteStep scan = (files.mapM readName).map (List.foldl IncompleteScan.record scan) := by
  induction files generalizing scan with
  | nil => rfl
  | cons f files ih =>
    rw [List.foldlM_cons, List.mapM_cons, incompleteStep_eq]
    cases readName f with
    | error e => rfl
    | ok found =>
      rw [ok_bind]
      show files.foldlM incompleteStep (scan.record found) = _
      rw [ih]
      cases files.mapM readName <;> rfl

theorem foldlM_missingStep (scan : MissingScan) (h : files.mapM readName = .ok founds) :
    files.foldlM missingStep scan = .ok (founds.foldl MissingScan.record scan) := by
  induction files generalizing scan founds with
  | nil =>
    cases h
    rfl
  | cons f files ih =>
    rw [List.mapM_cons] at h
    obtain ⟨found, hfound, h⟩ := bind_eq_ok.mp h
    obtain ⟨founds, hfounds, h⟩ := bind_eq_ok.mp h
    cases h
    rw [List.foldlM_cons, missingStep_eq scan hfound, ok_bind]
    exact ih _ hfounds

theorem foldl_record_iff {σ α : Type} {record : σ → α → σ} (P : σ → Prop) {Q : α → Prop}
    (h : ∀ s x, P (record s x) ↔ P s ∨ Q x) (s : σ) (xs : List α) :
    P (xs.foldl record s) ↔ P s ∨ ∃ x ∈ xs, Q x := by
  induction xs generalizing s with
  | nil => simp
  | cons x xs ih => rw [List.foldl_cons, ih, h, or_assoc, List.exists_mem_cons_iff]

variable {uid : String} {step k : ℕ}

theorem mem_afterSteps : step ∈ (founds.foldl IncompleteScan.record {}).afterSteps uid ↔
    some (.after uid step) ∈ founds := by
  have hrecord (s : IncompleteScan) (found : Option BranchFile) : step ∈ (s.record found).afterSteps uid ↔
      step ∈ s.afterSteps uid ∨ found = some (.after uid step) := by
    rcases found with - | - | - | - <;> simp [IncompleteScan.record, mem_addTo, or_comm, eq_comm]
  simpa using foldl_record_iff (fun s : IncompleteScan => step ∈ s.afterSteps uid) hrecord {} founds

theorem mem_beforeKs : k ∈ (founds.foldl IncompleteScan.record {}).beforeKs (uid, step) ↔
    some (.before uid step k) ∈ founds := by
  have hrecord (s : IncompleteScan) (found : Option BranchFile) : k ∈ (s.record found).beforeKs (uid, step) ↔
      k ∈ s.beforeKs (uid, step) ∨ found = some (.before uid step k) := by
    rcases found with - | - | - | - <;> simp [IncompleteScan.record, mem_addTo, or_comm, eq_comm, and_assoc]
  simpa using foldl_record_iff (fun s : IncompleteScan => k ∈ s.beforeKs (uid, step)) hrecord {} founds

theorem beforeKs_empty_iff (uid : String) (step : ℕ) :
    (founds.foldl IncompleteScan.record {}).beforeKs (uid, step) = ∅ ↔ ∀ k, some (.before uid step k) ∉ founds := by
  simp only [Finset.eq_empty_iff_forall_notMem, mem_beforeKs]

theorem mem_beforeInitSteps : step ∈ (founds.foldl IncompleteScan.record {}).beforeInitSteps uid ↔
    some (.beforeInit uid step) ∈ founds := by
  have hrecord (s : IncompleteScan) (found : Option BranchFile) : step ∈ (s.record found).beforeInitSteps uid ↔
      step ∈ s.beforeInitSteps uid ∨ found = some (.beforeInit uid step) := by
    rcases found with - | - | - | - <;> simp [IncompleteScan.record, mem_addTo, or_comm, eq_comm]
  simpa using foldl_record_iff (fun s : IncompleteScan => step ∈ s.beforeInitSteps uid) hrecord {} founds

theorem mem_missing_afterSteps : step ∈ (founds.foldl MissingScan.record {}).afterSteps uid ↔
    some (.after uid step) ∈ founds := by
  have hrecord (s : MissingScan) (found : Option BranchFile) : step ∈ (s.record found).afterSteps uid ↔
      step ∈ s.afterSteps uid ∨ found = some (.after uid step) := by
    rcases found with - | - | - | - <;> simp [MissingScan.record, mem_addTo, or_comm, eq_comm]
  simpa using foldl_record_iff (fun s : MissingScan => step ∈ s.afterSteps uid) hrecord {} founds

theorem mem_missing_beforeSteps : step ∈ (founds.foldl MissingScan.record {}).beforeSteps uid ↔
    ∃ k, some (.before uid step k) ∈ founds := by
  have hrecord (s : MissingScan) (found : Option BranchFile) : step ∈ (s.record found).beforeSteps uid ↔
      step ∈ s.beforeSteps uid ∨ ∃ k, found = some (.before uid step k) := by
    rcases found with - | - | - | - <;> simp [MissingScan.record, mem_addTo, or_comm, eq_comm]
  have hfold := foldl_record_iff (fun s : MissingScan => step ∈ s.beforeSteps uid) hrecord {} founds
  simp only [Finset.notMem_empty, false_or] at hfold
  rw [hfold]
  constructor
  · rintro ⟨found, hmem, k, rfl⟩
    exact ⟨k, hmem⟩
  · rintro ⟨k, hmem⟩
    exact ⟨_, hmem, k, rfl⟩

end Scans

section Readings

variable {f uid : String} {step k : ℕ}

theorem readName_before : readName f = .ok (some (.before uid step k)) ↔
    ∃ d e, NumberedName "before" f uid d e ∧ readGroup d = .ok step ∧ readGroup e = .ok k := by
  constructor
  · unfold readName
    rcases hafter : matchAfter f with - | ⟨uid', d, e⟩
    · rcases hbefore : matchBefore f with - | ⟨uid', d, e⟩
      · rcases matchBeforeInit f with - | ⟨uid', d⟩
        · nofun
        · intro h
          obtain ⟨n, -, h⟩ := bind_eq_ok.mp h
          cases h
      · intro h
        obtain ⟨n, hd, h⟩ := bind_eq_ok.mp h
        obtain ⟨m, he, h⟩ := bind_eq_ok.mp h
        cases h
        exact ⟨d, e, matchNumbered_eq_some.mp hbefore, hd, he⟩
    · intro h
      obtain ⟨n, -, h⟩ := bind_eq_ok.mp h
      cases h
  · rintro ⟨d, e, hname, hd, he⟩
    have hbefore : matchBefore f = some (uid, d, e) := matchNumbered_eq_some.mpr hname
    simp only [readName, matchAfter_eq_none_of_before hname, hbefore, hd, he]
    rfl

theorem readName_after {d e : List Char} (hname : NumberedName "after" f uid d e) (hd : readGroup d = .ok step) :
    readName f = .ok (some (.after uid step)) := by
  have hafter : matchAfter f = some (uid, d, e) := matchNumbered_eq_some.mpr hname
  simp only [readName, hafter, hd]
  rfl

theorem readName_beforeInit : readName f = .ok (some (.beforeInit uid step)) ↔
    ∃ d, InitName f uid d ∧ readGroup d = .ok step := by
  constructor
  · unfold readName
    rcases matchAfter f with - | ⟨uid', d, e⟩
    · rcases matchBefore f with - | ⟨uid', d, e⟩
      · rcases hinit : matchBeforeInit f with - | ⟨uid', d⟩
        · nofun
        · intro h
          obtain ⟨n, hd, h⟩ := bind_eq_ok.mp h
          cases h
          exact ⟨d, matchBeforeInit_eq_some.mp hinit, hd⟩
      · intro h
        obtain ⟨n, -, h⟩ := bind_eq_ok.mp h
        obtain ⟨m, -, h⟩ := bind_eq_ok.mp h
        cases h
    · intro h
      obtain ⟨n, -, h⟩ := bind_eq_ok.mp h
      cases h
  · rintro ⟨d, hname, hd⟩
    have hafter : matchAfter f = none := matchNumbered_eq_none_of_init (.inl rfl) hname
    have hbefore : matchBefore f = none := matchNumbered_eq_none_of_init (.inr rfl) hname
    simp only [readName, hafter, hbefore, matchBeforeInit_eq_some.mpr hname, hd]
    rfl

theorem decimal_plain {c : Char} (hc : isDecimal c = true) : isSpace c = false ∧ c ≠ '_' ∧ c ≠ '+' ∧ c ≠ '-' := by
  have hall : ∀ z ∈ digitZeros, ∀ k < 10, isSpace (Char.ofNat (z + k)) = false ∧ Char.ofNat (z + k) ≠ '_' ∧
      Char.ofNat (z + k) ≠ '+' ∧ Char.ofNat (z + k) ≠ '-' := by decide +kernel
  rw [isDecimal, digitValue, Option.isSome_map, List.find?_isSome] at hc
  obtain ⟨z, hz, hrange⟩ := hc
  rw [decide_eq_true_eq] at hrange
  have hplain := hall z hz (c.toNat - z) (by omega)
  rwa [Nat.add_sub_cancel' hrange.1, Char.ofNat_toNat] at hplain

theorem readDigits_decimal (afterDigit : Bool) {d : List Char} (hd : ∀ c ∈ d, isDecimal c = true)
    (hne : afterDigit = true ∨ d ≠ []) : ∃ ds, readDigits afterDigit d = some ds ∧ ds.length = d.length := by
  induction d generalizing afterDigit with
  | nil =>
    rw [or_iff_left (by simp)] at hne
    exact ⟨[], by rw [hne]; rfl, rfl⟩
  | cons c d ih =>
    rw [List.forall_mem_cons] at hd
    obtain ⟨ds, hds, hlength⟩ := ih true hd.2 (.inl rfl)
    obtain ⟨v, hv⟩ := Option.isSome_iff_exists.mp hd.1
    rw [readDigits, if_neg (decimal_plain hd.1).2.1, hv, hds]
    exact ⟨v :: ds, rfl, by rw [List.length_cons, List.length_cons, hlength]⟩

theorem readGroup_decimal {d : List Char} (hd : Spans isDecimal d) (hlength : d.length ≤ 4300) :
    ∃ n, readGroup d = .ok n := by
  have hspace : ∀ c ∈ d, isIntSpace c = false := by
    intro c hc
    rw [isIntSpace, (decimal_plain (hd.all c hc)).1]
    rfl
  have htrim : Trimmed isIntSpace d := ⟨hd.nonempty, fun c hc => hspace c (List.mem_of_mem_head? hc),
    fun c hc => hspace c (List.mem_of_mem_getLast? hc)⟩
  have hint : intOfString (String.ofList d) = readUnsigned false d := by
    unfold intOfString
    rw [String.toList_ofList, dropWhile_trimmed htrim, rstrip_trimmed htrim, String.toList_ofList]
    split
    next rest => exact absurd rfl (decimal_plain (hd.all '-' (by simp))).2.2.2
    next rest => exact absurd rfl (decimal_plain (hd.all '+' (by simp))).2.2.1
    next => rfl
  obtain ⟨ds, hds, hcount⟩ := readDigits_decimal false hd.all (.inr hd.nonempty)
  have hread : readUnsigned false d = some (ds.foldl (fun n d => 10 * n + d) 0 : ℕ) := by
    rw [readUnsigned, hds]
    exact if_pos (hcount.trans_le hlength)
  rw [readGroup, hint, hread]
  exact ⟨_, rfl⟩

theorem StepName.length_le {rest d : List Char} (h : StepName uid d rest f.toList) :
    d.length ≤ f.length ∧ rest.length ≤ f.length := by
  have hlength := congrArg List.length h.name
  simp only [String.length_toList, List.length_append, List.length_cons] at hlength
  omega

theorem readName_ok (hf : f.length ≤ 4300) : ∃ found, readName f = .ok found := by
  unfold readName
  rcases hafter : matchAfter f with - | ⟨uid, d, e⟩
  · rcases hbefore : matchBefore f with - | ⟨uid, d, e⟩
    · rcases hinit : matchBeforeInit f with - | ⟨uid, d⟩
      · exact ⟨none, rfl⟩
      · obtain ⟨ending, -, hname⟩ := matchBeforeInit_eq_some.mp hinit
        obtain ⟨n, hn⟩ := readGroup_decimal hname.number (hname.length_le.1.trans hf)
        simp only [hn]
        exact ⟨_, rfl⟩
    · obtain ⟨he, ending, -, hname⟩ := matchNumbered_eq_some.mp hbefore
      have hlength := hname.length_le.2
      simp only [List.length_cons, List.length_append] at hlength
      obtain ⟨n, hn⟩ := readGroup_decimal hname.number (hname.length_le.1.trans hf)
      obtain ⟨m, hm⟩ := readGroup_decimal he (by omega)
      simp only [hn, hm]
      exact ⟨_, rfl⟩
  · obtain ⟨-, ending, -, hname⟩ := matchNumbered_eq_some.mp hafter
    obtain ⟨n, hn⟩ := readGroup_decimal hname.number (hname.length_le.1.trans hf)
    simp only [hn]
    exact ⟨_, rfl⟩

end Readings

def HasBefore (files : List String) (uid : String) (step k : ℕ) : Prop :=
  ∃ f ∈ files, ∃ d e, NumberedName "before" f uid d e ∧ readGroup d = .ok step ∧ readGroup e = .ok k

def HasBeforeInit (files : List String) (uid : String) (step : ℕ) : Prop :=
  ∃ f ∈ files, ∃ d, InitName f uid d ∧ readGroup d = .ok step

/-- `int` reads numbers of 4300 digits at most, which is all that names of that length can hold. -/
structure ScannersAgree (files : List String) : Prop where
  returns : (∀ f ∈ files, f.length ≤ 4300) → ∀ nRollouts, ∃ found, getStepsIncompleteBefore files nRollouts = .ok found
  same : ∀ found, getStepsIncompleteBefore files 1 = .ok found → ∃ missing, getStepsMissingBefore files = .ok missing ∧
    ∀ uid step, (found uid step).isSome = true ↔ ∃ steps, missing uid = some steps ∧ step ∈ steps
  includes : ∀ nRollouts ≥ 1, ∀ found, getStepsIncompleteBefore files nRollouts = .ok found →
    ∃ missing, getStepsMissingBefore files = .ok missing ∧
      ∀ uid steps step, missing uid = some steps → step ∈ steps → (found uid step).isSome = true
  exact : ∀ nRollouts found, getStepsIncompleteBefore files nRollouts = .ok found →
    ∀ uid step state, found uid step = some state → (∀ k, k ∈ state.existingKs ↔ HasBefore files uid step k) ∧
      (state.hasBeforeInit = true ↔ HasBeforeInit files uid step)

structure AttributedInit (f uid : String) (i : ℕ) : Prop where
  incomplete : ∀ scan, incompleteStep scan f = .ok { scan with beforeInitSteps := addTo scan.beforeInitSteps uid i }
  missing : ∀ scan, missingStep scan f = .ok scan

structure AttributedAfter (f uid : String) (i : ℕ) : Prop where
  incomplete : ∀ scan, incompleteStep scan f = .ok { scan with afterSteps := addTo scan.afterSteps uid i }
  missing : ∀ scan, missingStep scan f = .ok { scan with afterSteps := addTo scan.afterSteps uid i }

section Agreement

variable {files : List String}

theorem scans_of_ok {nRollouts : ℤ} {found : String → ℕ → Option IncompleteStep}
    (h : getStepsIncompleteBefore files nRollouts = .ok found) : ∃ founds, files.mapM readName = .ok founds := by
  obtain ⟨scan, hscan, -⟩ := bind_eq_ok.mp h
  rw [foldlM_incompleteStep] at hscan
  cases hfounds : files.mapM readName with
  | error e =>
    rw [hfounds] at hscan
    cases hscan
  | ok founds => exact ⟨founds, rfl⟩

variable {founds : List (Option BranchFile)} (h : files.mapM readName = .ok founds)

include h

theorem getStepsIncompleteBefore_eq (nRollouts : ℤ) : getStepsIncompleteBefore files nRollouts =
    .ok fun uid step =>
      if step ∈ (founds.foldl IncompleteScan.record {}).afterSteps uid ∧
          (((founds.foldl IncompleteScan.record {}).beforeKs (uid, step)).card : ℤ) < nRollouts then
        some ⟨(founds.foldl IncompleteScan.record {}).beforeKs (uid, step),
          step ∈ (founds.foldl IncompleteScan.record {}).beforeInitSteps uid⟩
      else none := by
  rw [getStepsIncompleteBefore, foldlM_incompleteStep, h]
  rfl

theorem incomplete_isSome {nRollouts : ℤ} {found : String → ℕ → Option IncompleteStep}
    (hfound : getStepsIncompleteBefore files nRollouts = .ok found) (uid : String) (step : ℕ) :
    (found uid step).isSome = true ↔ some (.after uid step) ∈ founds ∧
      (((founds.foldl IncompleteScan.record {}).beforeKs (uid, step)).card : ℤ) < nRollouts := by
  rw [getStepsIncompleteBefore_eq h, Except.ok.injEq] at hfound
  rw [← hfound, ← mem_afterSteps]
  dsimp only
  split_ifs with hcond <;> simp [hcond]

theorem missing_iff : ∃ missing, getStepsMissingBefore files = .ok missing ∧ ∀ uid step,
    (∃ steps, missing uid = some steps ∧ step ∈ steps) ↔
      some (.after uid step) ∈ founds ∧ ∀ k, some (.before uid step k) ∉ founds := by
  refine ⟨_, by rw [getStepsMissingBefore, foldlM_missingStep {} h]; rfl, ?_⟩
  intro uid step
  rw [← mem_missing_afterSteps, ← not_exists, ← mem_missing_beforeSteps, ← Finset.mem_sdiff]
  constructor
  · rintro ⟨steps, hsteps, hmem⟩
    dsimp only at hsteps
    split_ifs at hsteps
    cases hsteps
    exact hmem
  · intro hmem
    exact ⟨_, if_neg (Finset.ne_empty_of_mem hmem), hmem⟩

theorem incomplete_exact {nRollouts : ℤ} {found : String → ℕ → Option IncompleteStep}
    (hfound : getStepsIncompleteBefore files nRollouts = .ok found) {uid : String} {step : ℕ} {state : IncompleteStep}
    (hstate : found uid step = some state) : (∀ k, k ∈ state.existingKs ↔ HasBefore files uid step k) ∧
      (state.hasBeforeInit = true ↔ HasBeforeInit files uid step) := by
  have hmem (file : BranchFile) : some file ∈ founds ↔ ∃ f ∈ files, readName f = .ok (some file) :=
    ⟨mem_of_mapM_ok h, fun ⟨f, hf, hread⟩ => mem_mapM_ok h hf hread⟩
  rw [getStepsIncompleteBefore_eq h, Except.ok.injEq] at hfound
  rw [← hfound] at hstate
  dsimp only at hstate
  split_ifs at hstate
  cases hstate
  constructor
  · intro k
    rw [mem_beforeKs, hmem]
    simp only [readName_before]
    rfl
  · rw [decide_eq_true_iff, mem_beforeInitSteps, hmem]
    simp only [readName_beforeInit]
    rfl

end Agreement

section Attribution

variable {uid : String} (huid : BaseUid uid) {i n : ℕ}

theorem StepName.readGroup {f : String} {rest : List Char} (h : StepName uid (Nat.toDigits 10 i) rest f.toList)
    (hf : f.length ≤ 4300) : TokensThatSuffice.readGroup (Nat.toDigits 10 i) = .ok i := by
  have hdigits : (toString i).length = (Nat.toDigits 10 i).length := congrArg List.length (Nat.toList_repr (n := i))
  rw [readGroup_toDigits, if_pos (hdigits.trans_le (h.length_le.1.trans hf))]

theorem nameEnd_json : NameEnd ".json".toList := ⟨[], ".json".toList, rfl, .inl rfl, .inl rfl⟩

include huid

theorem attributedInit (hf : (beforeUid uid i ++ ".json").length ≤ 4300) :
    AttributedInit (beforeUid uid i ++ ".json") uid i := by
  have hname : StepName uid (Nat.toDigits 10 i) (":before_init".toList ++ ".json".toList)
      (beforeUid uid i ++ ".json").toList := by
    refine ⟨huid, spans_toDigits i, ?_⟩
    rw [String.toList_append, toList_beforeUid]
    simp
  have hread : readName (beforeUid uid i ++ ".json") = .ok (some (.beforeInit uid i)) :=
    readName_beforeInit.mpr ⟨_, ⟨_, nameEnd_json, hname⟩, hname.readGroup hf⟩
  constructor
  · intro scan
    rw [incompleteStep_eq, hread]
    rfl
  · intro scan
    exact missingStep_eq scan hread

theorem attributedAfter (hf : (afterUid uid i n ++ ".json").length ≤ 4300) :
    AttributedAfter (afterUid uid i n ++ ".json") uid i := by
  have hname : StepName uid (Nat.toDigits 10 i)
      (':' :: ("after".toList ++ ':' :: (Nat.toDigits 10 n ++ ".json".toList)))
      (afterUid uid i n ++ ".json").toList := by
    refine ⟨huid, spans_toDigits i, ?_⟩
    rw [String.toList_append, toList_afterUid]
    simp
  have hread : readName (afterUid uid i n ++ ".json") = .ok (some (.after uid i)) :=
    readName_after ⟨spans_toDigits n, _, nameEnd_json, hname⟩ (hname.readGroup hf)
  constructor
  · intro scan
    rw [incompleteStep_eq, hread]
    rfl
  · intro scan
    exact missingStep_eq scan hread

theorem attributed {s : Sampler} {messages : List Message} {nRollouts : ℤ} {maxBranchPoints sampleLimit : Option ℤ}
    {branches : List PartialTrajectory}
    (h : createPartialTrajectoriesFromMessages s messages uid nRollouts maxBranchPoints sampleLimit = .ok branches)
    {q : PartialTrajectory} (hq : q ∈ branches) (hf : (q.uid ++ ".json").length ≤ 4300) :
    (∃ i, q.uid = beforeUid uid i ∧ AttributedInit (q.uid ++ ".json") uid i) ∨
      ∃ i n, q.uid = afterUid uid i n ∧ AttributedAfter (q.uid ++ ".json") uid i := by
  rw [create_eq] at h
  cases hpoints : branchPoints s uid maxBranchPoints
      (eligibleIndices (chunkTrajectoryByAssistant messages).length sampleLimit) with
  | error e =>
    rw [hpoints] at h
    cases h
  | ok points =>
    rw [hpoints] at h
    cases h
    obtain ⟨i, -, -, rfl | ⟨-, n, -, rfl⟩⟩ := mem_entries.mp hq
    · exact .inl ⟨i, rfl, attributedInit huid hf⟩
    · exact .inr ⟨i, n, rfl, attributedAfter huid hf⟩

end Attribution

end TokensThatSuffice
