import Mathlib.Algebra.Order.Group.Nat
import TokensThatSuffice.PrefixSums
import TokensThatSuffice.TrainingPrompt
import TokensThatSuffice.TrajectoryRecords

namespace TokensThatSuffice

open PrefixSums

structure SplitOptions where
  splitAtTokens : ℤ
  minPrefix : ℤ := 3
  minSuffix : ℤ := 3
  maxContinuationTokens : ℤ := 0
  deriving Repr

variable (py : Python) (inputIds : String → List ℕ)

def turnTexts : List TrajectoryStep → Except PyError (List String)
  | [] => .ok []
  | [_] => .ok []
  | a :: b :: rest => do
    let text ← formatTrajectoryText py [a, b]
    let texts ← turnTexts rest
    return text :: texts

def turnTokenLens (steps : List TrajectoryStep) : Except PyError (List ℕ) := do
  let texts ← turnTexts py steps
  return texts.map (fun text => (inputIds text).length)

def keptSteps (maxTokens : ℤ) (i total kept : ℕ) : List ℕ → ℕ
  | [] => kept
  | tl :: rest =>
    if maxTokens < (total + tl : ℕ) then kept else keptSteps maxTokens (i + 1) (total + tl) ((i + 1) * 2) rest

namespace AgentTrajectory

def truncateContinuation (maxTokens : ℤ) (t : AgentTrajectory) : Except PyError (Option AgentTrajectory) := do
  let turnLens ← turnTokenLens py inputIds t.continuation
  let kept := keptSteps maxTokens 0 0 0 turnLens
  if kept = 0 then return none
  else if kept = t.continuation.length then return some t
  else return some {
    task := t.task
    steps := t.steps
    continuation := t.continuation.take kept
    summary := t.summary
    trajectoryId := t.trajectoryId
    metadata := t.metadata }

def splitAtTurn (o : SplitOptions) (t : AgentTrajectory) (n k : ℕ) : Except PyError (Option AgentTrajectory) :=
  if (k : ℤ) < o.minPrefix ∨ (n - k : ℤ) < o.minSuffix then .ok none
  else
    let split := t.withPrefix (k * 2)
    if 0 < o.maxContinuationTokens then split.truncateContinuation py inputIds o.maxContinuationTokens
    else .ok (some split)

def thresholdSplitFrom (o : SplitOptions) (t : AgentTrajectory) (n k total : ℕ) :
    List ℕ → Except PyError (Option AgentTrajectory)
  | [] => .ok none
  | l :: rest =>
    if o.splitAtTokens ≤ (total + l : ℕ) then t.splitAtTurn py inputIds o n (k + 1)
    else thresholdSplitFrom o t n (k + 1) (total + l) rest

def thresholdSplit (o : SplitOptions) (t : AgentTrajectory) : Except PyError (Option AgentTrajectory) := do
  let turnLens ← turnTokenLens py inputIds t.steps
  t.thresholdSplitFrom py inputIds o turnLens.length 0 0 turnLens

theorem withPrefix_steps (t : AgentTrajectory) (n : ℕ) : (t.withPrefix n).steps = t.steps.take n := by
  show slice t.steps (0 : ℕ) n = _
  rw [slice_natCast, List.drop_zero]

theorem withPrefix_continuation (t : AgentTrajectory) (n : ℕ) :
    (t.withPrefix n).continuation = t.steps.drop n ++ t.continuation := by
  show sliceFrom t.steps n ++ t.continuation = _
  rw [sliceFrom_natCast]

end AgentTrajectory

section Turns

variable {py inputIds}

theorem turnTexts_length {steps : List TrajectoryStep} {texts : List String} (h : turnTexts py steps = .ok texts) :
    texts.length = steps.length / 2 := by
  induction steps using turnTexts.induct generalizing texts with
  | case1 =>
    cases h
    rfl
  | case2 a =>
    cases h
    simp
  | case3 a b rest ih =>
    rw [turnTexts] at h
    obtain ⟨text, -, h⟩ := bind_eq_ok.mp h
    obtain ⟨more, hmore, h⟩ := bind_eq_ok.mp h
    cases h
    rw [List.length_cons, ih hmore, List.length_cons, List.length_cons]
    omega

theorem turnTokenLens_length {steps : List TrajectoryStep} {lens : List ℕ}
    (h : turnTokenLens py inputIds steps = .ok lens) : lens.length = steps.length / 2 := by
  obtain ⟨texts, htexts, h⟩ := bind_eq_ok.mp h
  cases h
  rw [List.length_map, turnTexts_length htexts]

def Readable (steps : List TrajectoryStep) : Prop := ∀ step ∈ steps, step.content.isText = true

theorem formatTrajectoryText_ok (py : Python) {steps : List TrajectoryStep} (h : Readable steps) :
    ∃ text, formatTrajectoryText py steps = .ok text := by
  have hsteps : ∀ step ∈ steps, ∃ s, formatStep py step = .ok s := by
    intro step hstep
    rw [formatStep_ok_iff]
    exact .inl (h step hstep)
  obtain ⟨sections, hsections⟩ := mapM_ok_iff_forall.mpr hsteps
  exact ⟨_, by rw [formatTrajectoryText, hsections]; rfl⟩

theorem turnTexts_ok (py : Python) {steps : List TrajectoryStep} (h : Readable steps) :
    ∃ texts, turnTexts py steps = .ok texts := by
  induction steps using turnTexts.induct with
  | case1 => exact ⟨[], rfl⟩
  | case2 a => exact ⟨[], rfl⟩
  | case3 a b rest ih =>
    have hturn : Readable [a, b] := by
      intro step hstep
      apply h step
      rcases List.mem_cons.mp hstep with rfl | hstep
      · simp
      · rw [List.mem_singleton.mp hstep]
        simp
    obtain ⟨text, htext⟩ := formatTrajectoryText_ok py hturn
    obtain ⟨texts, htexts⟩ := ih fun step hstep => h step (by simp [hstep])
    exact ⟨_, by rw [turnTexts, htext, ok_bind, htexts]; rfl⟩

theorem turnTokenLens_ok (py : Python) (inputIds : String → List ℕ) {steps : List TrajectoryStep} (h : Readable steps) :
    ∃ lens, turnTokenLens py inputIds steps = .ok lens := by
  obtain ⟨texts, htexts⟩ := turnTexts_ok py h
  exact ⟨_, by rw [turnTokenLens, htexts]; rfl⟩

end Turns

section Specification

variable (o : SplitOptions)

def SplitOptions.reached (total : ℕ) : Bool := o.splitAtTokens ≤ (total : ℤ)

def NoTurnFits (maxTokens : ℤ) (steps : List TrajectoryStep) : Prop :=
  ∃ lens, turnTokenLens py inputIds steps = .ok lens ∧ ∀ l ∈ lens.head?, maxTokens < (l : ℤ)

def SplitOptions.Rejects (t : AgentTrajectory) (n k : ℕ) : Prop :=
  (k : ℤ) < o.minPrefix ∨ (n - k : ℤ) < o.minSuffix ∨
    0 < o.maxContinuationTokens ∧
      NoTurnFits py inputIds o.maxContinuationTokens (t.steps.drop (2 * k) ++ t.continuation)

inductive CutTo (maxTokens : ℤ) (rest : List TrajectoryStep) : List TrajectoryStep → Prop
  | uncapped (h : maxTokens ≤ 0) : CutTo maxTokens rest rest
  | capped {lens : List ℕ} {j : ℕ} (h : 0 < maxTokens) (hlens : turnTokenLens py inputIds rest = .ok lens)
      (longest : IsGreatest {j | j ≤ lens.length ∧ ((lens.take j).sum : ℤ) ≤ maxTokens} j) :
      CutTo maxTokens rest (rest.take (2 * j))

structure SplitSpec (t : AgentTrajectory) (lens : List ℕ) (r : Option AgentTrajectory) : Prop where
  none_iff : r = none ↔ (∀ k, ¬ Reaches o.reached lens k) ∨
    ∃ k, IsLeast {k | Reaches o.reached lens k} k ∧ o.Rejects py inputIds t lens.length k
  some : ∀ s, r = some s → ∃ k, IsLeast {k | Reaches o.reached lens k} k ∧ s.steps = t.steps.take (2 * k) ∧
    CutTo py inputIds o.maxContinuationTokens (t.steps.drop (2 * k) ++ t.continuation) s.continuation

variable {py inputIds o}

theorem keptSteps_eq (maxTokens : ℤ) (i total : ℕ) (lens : List ℕ) :
    keptSteps maxTokens i total (2 * i) lens =
      2 * (i + ((sumsFrom i total lens).takeWhile (fun a => decide ((a.2 : ℤ) ≤ maxTokens))).length) := by
  induction lens generalizing i total with
  | nil => rfl
  | cons tl rest ih =>
    rw [keptSteps, sumsFrom]
    by_cases hover : maxTokens < (total + tl : ℕ)
    · rw [if_pos hover, List.takeWhile_cons_of_neg (by simpa using hover)]
      rfl
    · rw [if_neg hover, List.takeWhile_cons_of_pos (by simpa using hover), Nat.mul_comm (i + 1) 2, ih,
        List.length_cons]
      omega

theorem keptSteps_longest {maxTokens : ℤ} (hpos : 0 < maxTokens) (lens : List ℕ) :
    ∃ j, keptSteps maxTokens 0 0 0 lens = 2 * j ∧
      IsGreatest {j | j ≤ lens.length ∧ ((lens.take j).sum : ℤ) ≤ maxTokens} j := by
  have hmono : ∀ a b : ℕ, a ≤ b → decide ((b : ℤ) ≤ maxTokens) = true → decide ((a : ℤ) ≤ maxTokens) = true := by
    intro a b hab hb
    rw [decide_eq_true_eq] at hb ⊢
    omega
  obtain ⟨hle, hiff⟩ := takeWhile_sumsFrom_longest hmono 0 0 lens rfl
  have hkept := keptSteps_eq maxTokens 0 0 lens
  rw [Nat.zero_add] at hkept
  refine ⟨_, hkept, ⟨hle, ?_⟩, ?_⟩
  · rcases Nat.eq_zero_or_pos ((sumsFrom 0 0 lens).takeWhile (fun a => decide ((a.2 : ℤ) ≤ maxTokens))).length with
      hzero | hone
    · rw [hzero, List.take_zero, List.sum_nil]
      exact hpos.le
    · have hfits := (hiff _ hone hle).mpr le_rfl
      rw [zero_add, decide_eq_true_eq] at hfits
      exact hfits
  · rintro i ⟨hile, hfits⟩
    rcases Nat.eq_zero_or_pos i with rfl | hi
    · exact Nat.zero_le _
    · apply (hiff i hi hile).mp
      rw [zero_add, decide_eq_true_eq]
      exact hfits

theorem noTurnFits_iff {maxTokens : ℤ} {steps : List TrajectoryStep} {lens : List ℕ} {j : ℕ}
    (hlens : turnTokenLens py inputIds steps = .ok lens)
    (hj : IsGreatest {j | j ≤ lens.length ∧ ((lens.take j).sum : ℤ) ≤ maxTokens} j) :
    NoTurnFits py inputIds maxTokens steps ↔ j = 0 := by
  have hall : NoTurnFits py inputIds maxTokens steps ↔ ∀ l ∈ lens.head?, maxTokens < (l : ℤ) := by
    rw [NoTurnFits, hlens]
    simp
  have hmono : ∀ a b : ℕ, a ≤ b → (b : ℤ) ≤ maxTokens → (a : ℤ) ≤ maxTokens := by
    intro a b hab hb
    omega
  rw [hall]
  cases lens with
  | nil =>
    have hzero : j = 0 := Nat.le_zero.mp hj.1.1
    simp [hzero]
  | cons l rest =>
    have hone : 1 ≤ (l :: rest).length := by simp
    have hfirst := le_longest_iff hmono hj hone
    rw [List.take_succ_cons, List.take_zero, List.sum_singleton] at hfirst
    simp only [List.head?_cons, Option.mem_some_iff, forall_eq']
    omega

namespace AgentTrajectory

theorem truncateContinuation_cases {maxTokens : ℤ} (hpos : 0 < maxTokens) {t : AgentTrajectory}
    {r : Option AgentTrajectory} (h : t.truncateContinuation py inputIds maxTokens = .ok r) :
    ∃ lens j, turnTokenLens py inputIds t.continuation = .ok lens ∧
      IsGreatest {j | j ≤ lens.length ∧ ((lens.take j).sum : ℤ) ≤ maxTokens} j ∧
      ((j = 0 ∧ r = none) ∨
        0 < j ∧ ∃ s, r = some s ∧ s.steps = t.steps ∧ s.continuation = t.continuation.take (2 * j)) := by
  obtain ⟨lens, hlens, h⟩ := bind_eq_ok.mp h
  obtain ⟨j, hkept, hj⟩ := keptSteps_longest hpos lens
  dsimp only at h
  rw [hkept] at h
  refine ⟨lens, j, hlens, hj, ?_⟩
  split_ifs at h with hzero hall
  · cases h
    exact .inl ⟨by omega, rfl⟩
  · cases h
    refine .inr ⟨by omega, t, rfl, rfl, ?_⟩
    rw [hall, List.take_length]
  · cases h
    exact .inr ⟨by omega, _, rfl, rfl, rfl⟩

theorem truncateContinuation_ok (py : Python) (inputIds : String → List ℕ) (maxTokens : ℤ) {t : AgentTrajectory}
    (h : Readable t.continuation) : ∃ r, t.truncateContinuation py inputIds maxTokens = .ok r := by
  obtain ⟨lens, hlens⟩ := turnTokenLens_ok py inputIds h
  rw [truncateContinuation, hlens, ok_bind]
  dsimp only
  split_ifs <;> exact ⟨_, rfl⟩

theorem thresholdSplitFrom_eq (t : AgentTrajectory) (n k total : ℕ) (lens : List ℕ) :
    t.thresholdSplitFrom py inputIds o n k total lens =
      match (sumsFrom k total lens).find? (fun a => o.reached a.2) with
      | none => .ok none
      | some a => t.splitAtTurn py inputIds o n a.1 := by
  induction lens generalizing k total with
  | nil => rfl
  | cons l rest ih =>
    rw [thresholdSplitFrom, sumsFrom]
    by_cases hreached : o.splitAtTokens ≤ (total + l : ℕ)
    · rw [if_pos hreached, List.find?_cons_of_pos (by simpa [SplitOptions.reached] using hreached)]
    · rw [if_neg hreached, List.find?_cons_of_neg (by simpa [SplitOptions.reached] using hreached), ih]

theorem withPrefix_turns (t : AgentTrajectory) (k : ℕ) : (t.withPrefix (k * 2)).steps = t.steps.take (2 * k) ∧
    (t.withPrefix (k * 2)).continuation = t.steps.drop (2 * k) ++ t.continuation := by
  rw [Nat.mul_comm 2 k, ← withPrefix_steps, ← withPrefix_continuation]
  push_cast
  exact ⟨rfl, rfl⟩

theorem rejects_of_enough_turns {t : AgentTrajectory} {n k : ℕ}
    (hfew : ¬ ((k : ℤ) < o.minPrefix ∨ (n - k : ℤ) < o.minSuffix)) :
    o.Rejects py inputIds t n k ↔ 0 < o.maxContinuationTokens ∧
      NoTurnFits py inputIds o.maxContinuationTokens (t.steps.drop (2 * k) ++ t.continuation) := by
  rw [SplitOptions.Rejects, ← or_assoc]
  exact or_iff_right hfew

theorem splitAtTurn_cases {t : AgentTrajectory} {n k : ℕ} {r : Option AgentTrajectory}
    (h : t.splitAtTurn py inputIds o n k = .ok r) :
    (r = none ↔ o.Rejects py inputIds t n k) ∧ ∀ s, r = some s → s.steps = t.steps.take (2 * k) ∧
      CutTo py inputIds o.maxContinuationTokens (t.steps.drop (2 * k) ++ t.continuation) s.continuation := by
  obtain ⟨hsteps, hcontinuation⟩ := withPrefix_turns t k
  unfold splitAtTurn at h
  split_ifs at h with hfew hcap
  · cases h
    refine ⟨⟨fun _ => hfew.imp_right .inl, fun _ => rfl⟩, ?_⟩
    intro s hs
    cases hs
  · obtain ⟨lens, j, hlens, hj, hcases⟩ := truncateContinuation_cases hcap h
    rw [hcontinuation] at hlens hcases
    rw [rejects_of_enough_turns hfew, noTurnFits_iff hlens hj, and_iff_right hcap]
    rcases hcases with ⟨hzero, rfl⟩ | ⟨hone, s, rfl, hs, hcut⟩
    · exact ⟨⟨fun _ => hzero, fun _ => rfl⟩, fun s hs => by cases hs⟩
    · refine ⟨⟨fun hnone => (by cases hnone), fun hzero => absurd hzero (by omega)⟩, ?_⟩
      intro s' hs'
      cases hs'
      rw [hs, hcut]
      exact ⟨hsteps, .capped hcap hlens hj⟩
  · cases h
    rw [rejects_of_enough_turns hfew]
    refine ⟨⟨fun hnone => (by cases hnone), fun hnone => absurd hnone.1 hcap⟩, ?_⟩
    intro s hs
    cases hs
    rw [hsteps, hcontinuation]
    exact ⟨rfl, .uncapped (not_lt.mp hcap)⟩

theorem thresholdSplit_cases {t : AgentTrajectory} {r : Option AgentTrajectory}
    (h : t.thresholdSplit py inputIds o = .ok r) :
    ∃ lens, turnTokenLens py inputIds t.steps = .ok lens ∧
      ((∀ k, ¬ Reaches o.reached lens k) ∧ r = none ∨
        ∃ k, IsLeast {k | Reaches o.reached lens k} k ∧ t.splitAtTurn py inputIds o lens.length k = .ok r) := by
  obtain ⟨lens, hlens, h⟩ := bind_eq_ok.mp h
  refine ⟨lens, hlens, ?_⟩
  rw [thresholdSplitFrom_eq] at h
  cases hfind : (sumsFrom 0 0 lens).find? (fun a => o.reached a.2) with
  | none =>
    rw [hfind] at h
    cases h
    exact .inl ⟨find?_sums_eq_none.mp hfind, rfl⟩
  | some a =>
    rw [hfind] at h
    exact .inr ⟨a.1, (find?_sums_eq_some.mp hfind).1, h⟩

theorem thresholdSplit_ok (py : Python) (inputIds : String → List ℕ) (o : SplitOptions) {t : AgentTrajectory}
    (hsteps : Readable t.steps) (hcontinuation : Readable t.continuation) :
    ∃ r, t.thresholdSplit py inputIds o = .ok r := by
  obtain ⟨lens, hlens⟩ := turnTokenLens_ok py inputIds hsteps
  rw [thresholdSplit, hlens, ok_bind, thresholdSplitFrom_eq]
  cases (sumsFrom 0 0 lens).find? (fun a => o.reached a.2) with
  | none => exact ⟨none, rfl⟩
  | some a =>
    dsimp only
    rw [splitAtTurn]
    split_ifs
    · exact ⟨none, rfl⟩
    · apply truncateContinuation_ok
      rw [(withPrefix_turns t a.1).2]
      intro step hstep
      rcases List.mem_append.mp hstep with hstep | hstep
      · exact hsteps step (List.mem_of_mem_drop hstep)
      · exact hcontinuation step hstep
    · exact ⟨_, rfl⟩

end AgentTrajectory

end Specification

end TokensThatSuffice
