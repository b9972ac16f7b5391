import TokensThatSuffice.SpanMatching
import TokensThatSuffice.SubtaskThemes
import TokensThatSuffice.SweepResume

namespace TokensThatSuffice

def isDecimal (c : Char) : Bool := (digitValue c).isSome

/-- The two groups of digits of `h(\d+)t(\d+)$`. -/
def matchBudget : List Char → Option (List Char × List Char)
  | 'h' :: rest =>
    match rest.dropWhile isDecimal with
    | 't' :: y =>
      let x := rest.takeWhile isDecimal
      if x ≠ [] ∧ y ≠ [] ∧ y.all isDecimal then some (x, y) else none
    | _ => none
  | _ => none

/-- `^(maskenv-)?h(\d+)t(\d+)$`, with whether the first group is there. -/
def matchSpec (s : List Char) : Option (Bool × List Char × List Char) :=
  if "maskenv-".toList.isPrefixOf s then (matchBudget (s.drop 8)).map (true, ·) else (matchBudget s).map (false, ·)

def readGroup (digits : List Char) : Except PyError ℕ :=
  match intOfString (String.ofList digits) with
  | some n => .ok n.toNat
  | none => .error (.valueError "Exceeds the limit (4300 digits) for integer string conversion")

def parseSpec (py : Python) (spec : String) : Except PyError (ℕ × ℕ × ℕ) :=
  match matchSpec (strip spec).toList with
  | none => .error (.other ("spec must look like 'h4t3' or 'maskenv-h4t3', got " ++ py.repr (.str spec)))
  | some (masked, x, y) => do
    let keepFirst ← readGroup x
    let keepLastTurns ← readGroup y
    return (keepFirst, keepLastTurns, if masked then 0 else 2 * (keepFirst + 2 * keepLastTurns))

def sweepSpec (py : Python) (s : String) : Except PyError SweepSpec := do
  let (keepFirst, keepLastTurns, maxSize) ← parseSpec py s
  return ⟨strip s, keepFirst, keepLastTurns, maxSize⟩

example : parseSpec asciiPython " maskenv-h4t10\n" = .ok (4, 10, 0) := by decide +kernel

section Numerals

theorem isDigit_range {c : Char} (hc : c.isDigit = true) : 48 ≤ c.toNat ∧ c.toNat ≤ 57 := by
  simp only [Char.isDigit, Bool.and_eq_true, decide_eq_true_eq, ge_iff_le, UInt32.le_iff_toNat_le] at hc
  exact hc

theorem digitValue_digit {c : Char} (hc : c.isDigit = true) : digitValue c = some (c.toNat - 48) := by
  have hrange := isDigit_range hc
  rw [digitValue, digitZeros, List.find?_cons_of_pos (by simp; omega)]
  rfl

theorem isDecimal_digit {c : Char} (hc : c.isDigit = true) : isDecimal c = true := by
  rw [isDecimal, digitValue_digit hc]
  rfl

theorem isSpace_digit {c : Char} (hc : c.isDigit = true) : isSpace c = false := by
  have hrange := isDigit_range hc
  simp only [isSpace, List.mem_cons, List.not_mem_nil, or_false, decide_eq_false_iff_not]
  omega

variable {digits : List Char}

theorem readDigits_digits (hdigits : ∀ c ∈ digits, c.isDigit = true) :
    readDigits true digits = some (digits.map (fun c => c.toNat - 48)) := by
  induction digits with
  | nil => rfl
  | cons c rest ih =>
    rw [List.forall_mem_cons] at hdigits
    have hunderscore : c ≠ '_' := by
      rintro rfl
      exact absurd hdigits.1 (by decide)
    rw [readDigits, if_neg hunderscore, digitValue_digit hdigits.1, ih hdigits.2]
    rfl

theorem readUnsigned_digits (hne : digits ≠ []) (hdigits : ∀ c ∈ digits, c.isDigit = true) :
    readUnsigned false digits =
      if digits.length ≤ 4300 then some (Nat.ofDigitChars 10 digits 0 : ℤ) else none := by
  have hread : readDigits false digits = some (digits.map (fun c => c.toNat - 48)) := by
    obtain ⟨c, rest, rfl⟩ := List.exists_cons_of_ne_nil hne
    rw [List.forall_mem_cons] at hdigits
    have hunderscore : c ≠ '_' := by
      rintro rfl
      exact absurd hdigits.1 (by decide)
    rw [readDigits, if_neg hunderscore, digitValue_digit hdigits.1, readDigits_digits hdigits.2]
    rfl
  have hvalue : (digits.map (fun c => c.toNat - 48)).foldl (fun n d => 10 * n + d) 0 =
      Nat.ofDigitChars 10 digits 0 := by
    rw [List.foldl_map, Nat.ofDigitChars_eq_foldl]
    rfl
  rw [readUnsigned, hread]
  show (if (digits.map (fun c => c.toNat - 48)).length ≤ 4300 then _ else none) = _
  rw [hvalue, List.length_map]
  rfl

theorem trimmed_digits {p : Char → Bool} (hp : ∀ c : Char, c.isDigit = true → p c = false) (hne : digits ≠ [])
    (hdigits : ∀ c ∈ digits, c.isDigit = true) : Trimmed p digits where
  nonempty := hne
  first c hc := hp c (hdigits c (List.mem_of_mem_head? hc))
  last c hc := hp c (hdigits c (List.mem_of_mem_getLast? hc))

theorem readGroup_digits (hne : digits ≠ []) (hdigits : ∀ c ∈ digits, c.isDigit = true) :
    readGroup digits = if digits.length ≤ 4300 then .ok (Nat.ofDigitChars 10 digits 0)
      else .error (.valueError "Exceeds the limit (4300 digits) for integer string conversion") := by
  have hspace : ∀ c : Char, c.isDigit = true → isIntSpace c = false := by
    intro c hc
    rw [isIntSpace, isSpace_digit hc]
    rfl
  have htrim := trimmed_digits hspace hne hdigits
  have hint : intOfString (String.ofList digits) = readUnsigned false digits := by
    unfold intOfString
    rw [String.toList_ofList, dropWhile_trimmed htrim, rstrip_trimmed htrim, String.toList_ofList]
    split
    next rest h => exact absurd (hdigits '-' (by simp)) (by decide)
    next rest h => exact absurd (hdigits '+' (by simp)) (by decide)
    next => rfl
  unfold readGroup
  rw [hint, readUnsigned_digits hne hdigits]
  by_cases hlen : digits.length ≤ 4300
  · rw [if_pos hlen, if_pos hlen]
    rfl
  · rw [if_neg hlen, if_neg hlen]

end Numerals

section Budgets

variable (X Y : ℕ)

def budgetText : String := "h" ++ toString X ++ "t" ++ toString Y

def maskedBudgetText : String := "maskenv-" ++ budgetText X Y

def budgetChars : List Char := 'h' :: (Nat.toDigits 10 X ++ 't' :: Nat.toDigits 10 Y)

def ReadableBudget : Prop := (toString X).length ≤ 4300 ∧ (toString Y).length ≤ 4300

instance : Decidable (ReadableBudget X Y) := inferInstanceAs (Decidable (_ ∧ _))

theorem toList_budgetText : (budgetText X Y).toList = budgetChars X Y := by
  have hX : (toString X).toList = Nat.toDigits 10 X := Nat.toList_repr
  have hY : (toString Y).toList = Nat.toDigits 10 Y := Nat.toList_repr
  rw [budgetText, String.toList_append, String.toList_append, String.toList_append, hX, hY, List.append_assoc]
  rfl

theorem toDigits_isDigit {n : ℕ} : ∀ c ∈ Nat.toDigits 10 n, c.isDigit = true :=
  fun _ hc => Nat.isDigit_of_mem_toDigits (by decide) (by decide) hc

theorem spans_toDigits (n : ℕ) : SpanMatching.Spans isDecimal (Nat.toDigits 10 n) :=
  ⟨Nat.toDigits_ne_nil, fun c hc => isDecimal_digit (toDigits_isDigit c hc)⟩

theorem readGroup_toDigits (n : ℕ) : readGroup (Nat.toDigits 10 n) = if (toString n).length ≤ 4300 then .ok n
    else .error (.valueError "Exceeds the limit (4300 digits) for integer string conversion") := by
  have hlength : (toString n).length = (Nat.toDigits 10 n).length := by
    rw [← String.length_toList]
    exact congrArg List.length Nat.toList_repr
  rw [readGroup_digits Nat.toDigits_ne_nil toDigits_isDigit, Nat.ofDigitChars_ten_toDigits, hlength]

theorem matchBudget_budgetChars :
    matchBudget (budgetChars X Y) = some (Nat.toDigits 10 X, Nat.toDigits 10 Y) := by
  have hdecimal {n : ℕ} : ∀ c ∈ Nat.toDigits 10 n, isDecimal c = true :=
    fun c hc => isDecimal_digit (toDigits_isDigit c hc)
  have ht : isDecimal 't' = false := by decide
  have hdrop : (Nat.toDigits 10 X ++ 't' :: Nat.toDigits 10 Y).dropWhile isDecimal = 't' :: Nat.toDigits 10 Y := by
    rw [List.dropWhile_append_of_pos hdecimal, List.dropWhile_cons_of_neg (by rw [ht]; exact Bool.false_ne_true)]
  have htake : (Nat.toDigits 10 X ++ 't' :: Nat.toDigits 10 Y).takeWhile isDecimal = Nat.toDigits 10 X := by
    rw [List.takeWhile_append_of_pos hdecimal, List.takeWhile_cons_of_neg (by rw [ht]; exact Bool.false_ne_true),
      List.append_nil]
  rw [budgetChars, matchBudget, hdrop]
  dsimp only
  rw [htake]
  exact if_pos ⟨Nat.toDigits_ne_nil, Nat.toDigits_ne_nil, List.all_eq_true.mpr hdecimal⟩

theorem trimmed_budgetChars (before : List Char) (hbefore : before.any isSpace = false) :
    Trimmed isSpace (before ++ budgetChars X Y) := by
  have hall : ∀ c ∈ before ++ budgetChars X Y, isSpace c = false := by
    intro c hc
    rw [budgetChars, List.mem_append, List.mem_cons, List.mem_append, List.mem_cons] at hc
    rcases hc with hc | rfl | hc | rfl | hc
    · exact Bool.eq_false_iff.mpr (List.any_eq_false.mp hbefore c hc)
    · decide
    · exact isSpace_digit (toDigits_isDigit c hc)
    · decide
    · exact isSpace_digit (toDigits_isDigit c hc)
  exact ⟨by simp [budgetChars], fun c hc => hall c (List.mem_of_mem_head? hc),
    fun c hc => hall c (List.mem_of_mem_getLast? hc)⟩

variable (py : Python)

theorem sweepSpec_eq {text : String} {masked : Bool} (hstrip : strip text = text)
    (hmatch : matchSpec text.toList = some (masked, Nat.toDigits 10 X, Nat.toDigits 10 Y)) :
    sweepSpec py text = if ReadableBudget X Y then .ok ⟨text, X, Y, if masked then 0 else 2 * (X + 2 * Y)⟩
      else .error (.valueError "Exceeds the limit (4300 digits) for integer string conversion") := by
  unfold sweepSpec parseSpec
  rw [hstrip, hmatch]
  dsimp only
  rw [readGroup_toDigits, readGroup_toDigits]
  by_cases hX : (toString X).length ≤ 4300
  · by_cases hY : (toString Y).length ≤ 4300
    · have hread : ReadableBudget X Y := ⟨hX, hY⟩
      rw [if_pos hX, if_pos hY, if_pos hread]
      rfl
    · have hread : ¬ ReadableBudget X Y := fun h => hY h.2
      rw [if_pos hX, if_neg hY, if_neg hread]
      rfl
  · have hread : ¬ ReadableBudget X Y := fun h => hX h.1
    rw [if_neg hX, if_neg hread]
    rfl

theorem sweepSpec_budgetText :
    sweepSpec py (budgetText X Y) = if ReadableBudget X Y then .ok ⟨budgetText X Y, X, Y, 2 * (X + 2 * Y)⟩
      else .error (.valueError "Exceeds the limit (4300 digits) for integer string conversion") := by
  have hstrip : strip (budgetText X Y) = budgetText X Y := by
    have h := strip_ofList (trimmed_budgetChars X Y [] rfl)
    rw [List.nil_append, ← toList_budgetText, String.ofList_toList] at h
    exact h
  have hmatch : matchSpec (budgetText X Y).toList = some (false, Nat.toDigits 10 X, Nat.toDigits 10 Y) := by
    have hplain : "maskenv-".toList.isPrefixOf (budgetChars X Y) = false := rfl
    rw [toList_budgetText, matchSpec, hplain, if_neg Bool.false_ne_true, matchBudget_budgetChars]
    rfl
  exact sweepSpec_eq X Y py hstrip hmatch

theorem sweepSpec_maskedBudgetText :
    sweepSpec py (maskedBudgetText X Y) = if ReadableBudget X Y then .ok ⟨maskedBudgetText X Y, X, Y, 0⟩
      else .error (.valueError "Exceeds the limit (4300 digits) for integer string conversion") := by
  have hchars : (maskedBudgetText X Y).toList = "maskenv-".toList ++ budgetChars X Y := by
    rw [maskedBudgetText, String.toList_append, toList_budgetText]
  have hstrip : strip (maskedBudgetText X Y) = maskedBudgetText X Y := by
    have h := strip_ofList (trimmed_budgetChars X Y "maskenv-".toList rfl)
    rw [← hchars, String.ofList_toList] at h
    exact h
  have hmatch : matchSpec (maskedBudgetText X Y).toList = some (true, Nat.toDigits 10 X, Nat.toDigits 10 Y) := by
    have hmasked : "maskenv-".toList.isPrefixOf ("maskenv-".toList ++ budgetChars X Y) = true :=
      List.isPrefixOf_iff_prefix.mpr (List.prefix_append _ _)
    have hdrop : ("maskenv-".toList ++ budgetChars X Y).drop 8 = budgetChars X Y := rfl
    rw [hchars, matchSpec, hmasked, if_pos rfl, hdrop, matchBudget_budgetChars]
    rfl
  exact sweepSpec_eq X Y py hstrip hmatch

def summaryContext (summary : String) (messages : List Message) : List Message × String :=
  (messages.take X ++ summaryAsToolTurn summary ++ lastNTurns (messages.drop X) Y, summary)

def maskedContext (_summary : String) (messages : List Message) : List Message × String :=
  (messages.take X ++ maskEnvMessages py {} (splitHeadTail messages X Y).middle ++ lastNTurns (messages.drop X) Y, "")

theorem zMessages_budget (s : SweepSetup) (text : String) (hbudget : X ≠ 0 ∨ Y ≠ 0) :
    (fun summary messages => s.zMessages summary messages ⟨text, X, Y, 2 * (X + 2 * Y)⟩) = summaryContext X Y := by
  funext summary messages
  have hsize : ¬ 2 * (X + 2 * Y) = 0 := by omega
  have hturns : (((2 * (X + 2 * Y) / 2 : ℕ) : ℤ) - X) / 2 = Y := by omega
  rw [SweepSetup.zMessages]
  dsimp only
  rw [if_neg hsize, buildZScoringMessages, hturns]
  rfl

end Budgets

namespace SweepSetup

variable {s : SweepSetup} {u : SweepUnit}

def sysPromptOf (traj : AgentTrajectory) : Content :=
  if traj.agentSystemPrompt.truthy then traj.agentSystemPrompt else .text agentSystemPrompt

def IsContext (s : SweepSetup) (u : SweepUnit) (partialMessages : List Message) (xCtx : XContext ℚ) : Prop :=
  let split := u.traj.withPrefix (u.kTurns * 2)
  ∃ nextAction nextMessages nextActionMessage,
    stepsToMessages s.py split.steps split.task (sysPromptOf u.traj) = .ok partialMessages ∧
      split.continuation.find? (·.role = .assistant) = some nextAction ∧
      stepsToMessages s.py [nextAction] split.task (sysPromptOf u.traj) = .ok nextMessages ∧
      thirdMessage nextMessages = .ok nextActionMessage ∧
      precomputeXContext s.py s.server s.tokenizer s.model s.apiBase partialMessages nextActionMessage 0
        (some [s.bashTool]) = .ok (some xCtx)

def ScoredOn (s : SweepSetup) (u : SweepUnit) (generates : Bool) (z : String → List Message → List Message × String)
    (row : SweepRow) : Prop :=
  ∃ partialMessages summary xCtx result, s.IsContext u partialMessages xCtx ∧
    (generates = true → s.summarize (u.traj.withPrefix (u.kTurns * 2)).steps = .ok summary) ∧
    distortionRewardMessages s.py s.server s.tokenizer s.model s.apiBase s.tanh s.rewardOptions xCtx
      (z summary partialMessages).1 (z summary partialMessages).2 = .ok result ∧
    row.reward = result.columns?

theorem specRow_scored {row r : SweepRow} {split : AgentTrajectory} {partialMessages : List Message}
    {summary : String} {xCtx : XContext ℚ} {spec : SweepSpec} (hrow : row.reward = none)
    (h : s.specRow row split partialMessages summary xCtx spec = .ok r) :
    ∃ result n, distortionRewardMessages s.py s.server s.tokenizer s.model s.apiBase s.tanh s.rewardOptions xCtx
      (s.zMessages summary partialMessages spec).1 (s.zMessages summary partialMessages spec).2 = .ok result ∧
        r.reward = result.columns? ∧
        r.spec = some ⟨spec, n⟩ := by
  obtain ⟨result, hresult, h⟩ := bind_eq_ok.mp h
  obtain ⟨compactionTokens, -, h⟩ := bind_eq_ok.mp h
  refine ⟨result, compactionTokens, hresult, ?_⟩
  cases result with
  | error text =>
    cases h
    exact ⟨hrow, rfl⟩
  | scored columns =>
    cases h
    exact ⟨rfl, rfl⟩

theorem sweepOne_scored {rows : List SweepRow} (h : s.sweepOne u = .ok rows) {row : SweepRow} (hrow : row ∈ rows)
    {spec : SweepSpec} {n : ℕ} (hspec : row.spec = some ⟨spec, n⟩) :
    s.ScoredOn u (s.specs.any (·.maxSize ≠ 0)) (fun summary messages => s.zMessages summary messages spec) row := by
  have hnone {r : SweepRow} (hr : r.spec = none) (heq : (.ok [r] : Except PyError _) = .ok rows) :
      s.ScoredOn u (s.specs.any (·.maxSize ≠ 0)) (fun summary messages => s.zMessages summary messages spec) row := by
    cases heq
    rw [List.mem_singleton.mp hrow, hr] at hspec
    cases hspec
  unfold sweepOne at h
  dsimp only at h
  split at h
  · exact hnone rfl h
  · next nextAction hnext =>
    obtain ⟨partialMessages, hpartial, h⟩ := bind_eq_ok.mp h
    obtain ⟨nextMessages, hmessages, h⟩ := bind_eq_ok.mp h
    obtain ⟨nextActionMessage, hthird, h⟩ := bind_eq_ok.mp h
    split at h
    · exact hnone rfl h
    · next summary hsummary =>
      obtain ⟨context, hcontext, h⟩ := bind_eq_ok.mp h
      cases context with
      | none => exact hnone rfl h
      | some xCtx =>
        obtain ⟨spec', -, hscored⟩ := mem_of_mapM_ok h hrow
        obtain ⟨result, n', hresult, hreward, hcolumns⟩ := specRow_scored rfl hscored
        rw [hspec] at hcolumns
        cases hcolumns
        refine ⟨partialMessages, summary, xCtx, result,
          ⟨nextAction, nextMessages, nextActionMessage, hpartial, hnext, hmessages, hthird, hcontext⟩, ?_, hresult, hreward⟩
        intro hgenerates
        rw [if_pos hgenerates] at hsummary
        exact hsummary

end SweepSetup

def SpecScores (py : Python) (text : String) (generates : Bool)
    (z : Python → String → List Message → List Message × String) : Prop :=
  ∃ spec, sweepSpec py text = .ok spec ∧
    ∀ (s : SweepSetup) (u : SweepUnit) (rows : List SweepRow), spec ∈ s.specs → s.sweepOne u = .ok rows →
      ∀ row ∈ rows, ∀ n, row.spec = some ⟨spec, n⟩ → s.ScoredOn u generates (z s.py) row

section Meaning

variable (py : Python) {X Y : ℕ}

theorem specScores_budget (hbudget : X ≠ 0 ∨ Y ≠ 0) (hread : ReadableBudget X Y) :
    SpecScores py (budgetText X Y) true (fun _ => summaryContext X Y) := by
  refine ⟨_, (sweepSpec_budgetText X Y py).trans (if_pos hread), ?_⟩
  intro s u rows hmem hrows row hrow n hspec
  have hscored := SweepSetup.sweepOne_scored hrows hrow hspec
  have hgenerates : s.specs.any (·.maxSize ≠ 0) = true := by
    rw [List.any_eq_true]
    refine ⟨_, hmem, ?_⟩
    rw [decide_eq_true_eq]
    dsimp only
    omega
  rw [hgenerates, zMessages_budget X Y s _ hbudget] at hscored
  exact hscored

theorem specScores_masked_iff :
    SpecScores py (maskedBudgetText X Y) false (maskedContext X Y) ↔ ReadableBudget X Y := by
  constructor
  · rintro ⟨spec, hspec, -⟩
    by_contra hread
    rw [sweepSpec_maskedBudgetText, if_neg hread] at hspec
    cases hspec
  · intro hread
    refine ⟨_, (sweepSpec_maskedBudgetText X Y py).trans (if_pos hread), ?_⟩
    intro s u rows hmem hrows row hrow n hspec
    obtain ⟨partialMessages, summary, xCtx, result, hpartial, -, hresult⟩ :=
      SweepSetup.sweepOne_scored hrows hrow hspec
    exact ⟨partialMessages, summary, xCtx, result, hpartial, (fun h => by cases h), hresult⟩

end Meaning

def failingSweep : SweepSetup := {
  twoSpecs with
  summarize := fun _ => .error .typeError
  specs := [⟨"h0t0", 0, 0, 0⟩] }

theorem failingSweep_rows : ∃ rows row n, failingSweep.sweepOne lsUnit = .ok rows ∧ row ∈ rows ∧
    row.spec = some ⟨⟨"h0t0", 0, 0, 0⟩, n⟩ := by
  have hrows : (failingSweep.sweepOne lsUnit).toOption.map (·.map (fun row => row.spec.map (·.spec))) =
      some [some ⟨"h0t0", 0, 0, 0⟩] := by decide +kernel
  cases hsweep : failingSweep.sweepOne lsUnit with
  | error exc =>
    rw [hsweep] at hrows
    cases hrows
  | ok rows =>
    rw [hsweep] at hrows
    obtain ⟨row, rest, rfl, hrow, -⟩ := List.map_eq_cons_iff.mp (Option.some.inj hrows)
    obtain ⟨⟨spec, n⟩, hcolumns, rfl⟩ := Option.map_eq_some_iff.mp hrow
    exact ⟨_, row, n, rfl, List.mem_cons_self, hcolumns⟩

theorem not_specScores_empty (py : Python) : ¬ SpecScores py (budgetText 0 0) true (fun _ => summaryContext 0 0) := by
  rintro ⟨spec, hspec, hscores⟩
  have hempty : sweepSpec py (budgetText 0 0) = .ok ⟨"h0t0", 0, 0, 0⟩ := rfl
  rw [hempty] at hspec
  cases hspec
  obtain ⟨rows, row, n, hrows, hrow, hcolumns⟩ := failingSweep_rows
  obtain ⟨-, summary, -, -, -, hsummary, -⟩ :=
    hscores failingSweep lsUnit rows List.mem_cons_self hrows row hrow n hcolumns
  cases hsummary rfl

theorem budget_scores_iff (py : Python) (X Y : ℕ) :
    SpecScores py (budgetText X Y) true (fun _ => summaryContext X Y) ∧
        SpecScores py (maskedBudgetText X Y) false (maskedContext X Y) ↔
      (X ≠ 0 ∨ Y ≠ 0) ∧ ReadableBudget X Y := by
  constructor
  · rintro ⟨hsummary, hmasked⟩
    refine ⟨?_, (specScores_masked_iff py).mp hmasked⟩
    by_contra hempty
    obtain ⟨rfl, rfl⟩ : X = 0 ∧ Y = 0 := by omega
    exact not_specScores_empty py hsummary
  · rintro ⟨hbudget, hread⟩
    exact ⟨specScores_budget py hbudget hread, (specScores_masked_iff py).mpr hread⟩

theorem empty_budget_is_masked :
    ¬ ∀ (py : Python) (X Y : ℕ), SpecScores py (budgetText X Y) true (fun _ => summaryContext X Y) ∧
      SpecScores py (maskedBudgetText X Y) false (maskedContext X Y) := by
  intro h
  exact not_specScores_empty asciiPython (h asciiPython 0 0).1

end TokensThatSuffice
