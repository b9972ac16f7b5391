import TokensThatSuffice.TurnSplits

namespace TokensThatSuffice

open PrefixSums

def wholeTurns (steps : List TrajectoryStep) : ℕ := steps.length / 2

section Bounds

variable {py : Python} {inputIds : String → List ℕ} {o : SplitOptions} {t s : AgentTrajectory}

theorem thresholdSplit_some (h : t.thresholdSplit py inputIds o = .ok (some s)) :
    ∃ k : ℕ, k ≤ wholeTurns t.steps ∧ wholeTurns s.steps = k ∧ s.steps.length = 2 * k ∧
      ¬ o.Rejects py inputIds t (wholeTurns t.steps) k ∧
      CutTo py inputIds o.maxContinuationTokens (t.steps.drop (2 * k) ++ t.continuation) s.continuation := by
  obtain ⟨lens, hlens, ⟨-, hnone⟩ | ⟨k, hk, hsplit⟩⟩ := AgentTrajectory.thresholdSplit_cases h
  · cases hnone
  · obtain ⟨hnone, hsome⟩ := AgentTrajectory.splitAtTurn_cases hsplit
    obtain ⟨hsteps, hcut⟩ := hsome s rfl
    have hn := turnTokenLens_length hlens
    have hle := hk.1.2.1
    rw [hn] at hnone hle
    have hlen : s.steps.length = 2 * k := by
      rw [hsteps, List.length_take]
      omega
    refine ⟨k, hle, ?_, hlen, ?_, hcut⟩
    · rw [wholeTurns, hlen]
      omega
    · intro hrejects
      cases hnone.mpr hrejects

def SuffixFits (py : Python) (inputIds : String → List ℕ) (o : SplitOptions) (t s : AgentTrajectory) : Prop :=
  ∃ lens, turnTokenLens py inputIds (t.steps.drop s.steps.length ++ t.continuation) = .ok lens ∧
    ((lens.take o.minSuffix.toNat).sum : ℤ) ≤ o.maxContinuationTokens

structure LeavesTurns (py : Python) (inputIds : String → List ℕ) (o : SplitOptions) (t s : AgentTrajectory) : Prop where
  before : o.minPrefix ≤ wholeTurns s.steps
  after : o.minSuffix ≤ (wholeTurns t.steps - wholeTurns s.steps : ℤ)
  nonempty : 1 ≤ wholeTurns s.continuation
  suffix : o.minSuffix ≤ wholeTurns s.continuation ↔ o.maxContinuationTokens ≤ 0 ∨ SuffixFits py inputIds o t s

theorem wholeTurns_cut {rest : List TrajectoryStep} {lens : List ℕ} {j : ℕ}
    (hlens : turnTokenLens py inputIds rest = .ok lens) (hj : j ≤ lens.length) :
    wholeTurns (rest.take (2 * j)) = j := by
  rw [turnTokenLens_length hlens] at hj
  rw [wholeTurns, List.length_take]
  omega

theorem cutTo_nonempty {cap : ℤ} {rest cut : List TrajectoryStep} (hrest : 1 ≤ wholeTurns rest)
    (hfits : ¬ (0 < cap ∧ NoTurnFits py inputIds cap rest)) (hcut : CutTo py inputIds cap rest cut) :
    1 ≤ wholeTurns cut := by
  cases hcut with
  | uncapped hcap => exact hrest
  | @capped lens j hcap hlens longest =>
    rw [wholeTurns_cut hlens longest.1.1, Nat.one_le_iff_ne_zero]
    exact fun hzero => hfits ⟨hcap, (noTurnFits_iff hlens longest).mpr hzero⟩

theorem cutTo_suffix_iff {cap : ℤ} {n : ℕ} {rest cut : List TrajectoryStep} (hrest : n ≤ wholeTurns rest)
    (hcut : CutTo py inputIds cap rest cut) : n ≤ wholeTurns cut ↔
      cap ≤ 0 ∨ ∃ lens, turnTokenLens py inputIds rest = .ok lens ∧ ((lens.take n).sum : ℤ) ≤ cap := by
  cases hcut with
  | uncapped hcap => exact iff_of_true hrest (.inl hcap)
  | @capped lens j hcap hlens longest =>
    have hn : n ≤ lens.length := by
      rw [turnTokenLens_length hlens]
      exact hrest
    have hmono : ∀ a b : ℕ, a ≤ b → (b : ℤ) ≤ cap → (a : ℤ) ≤ cap := by
      intro a b hab hb
      omega
    rw [wholeTurns_cut hlens longest.1.1, le_longest_iff hmono longest hn, hlens, or_iff_right (by omega)]
    simp

theorem thresholdSplit_leavesTurns (hsuffix : 1 ≤ o.minSuffix)
    (h : t.thresholdSplit py inputIds o = .ok (some s)) : LeavesTurns py inputIds o t s := by
  obtain ⟨k, hle, hk, hlen, hrejects, hcut⟩ := thresholdSplit_some h
  have hbefore : o.minPrefix ≤ k := by
    by_contra hfew
    exact hrejects (.inl (by omega))
  have hafter : o.minSuffix ≤ (wholeTurns t.steps - k : ℤ) := by
    by_contra hfew
    exact hrejects (.inr (.inl (by omega)))
  have hrest : o.minSuffix.toNat ≤ wholeTurns (t.steps.drop (2 * k) ++ t.continuation) := by
    rw [wholeTurns, List.length_append, List.length_drop]
    rw [wholeTurns] at hafter
    omega
  have hkept := cutTo_suffix_iff hrest hcut
  refine ⟨by rw [hk]; exact hbefore, by rw [hk]; exact hafter, ?_, ?_⟩
  · exact cutTo_nonempty (by omega) (fun hnone => hrejects (.inr (.inr hnone))) hcut
  · rw [SuffixFits, hlen, ← hkept]
    omega

end Bounds

def shellTurn (command output : String) : List TrajectoryStep :=
  [{ role := .assistant, content := .text command }, { role := .tool, content := .text output }]

def shellRun (turns : ℕ) : AgentTrajectory where
  task := .text "fix it"
  steps := (List.replicate turns (shellTurn "ls" "a.py")).flatten
  continuation := []
  summary := ""

def oneToken : String → List ℕ := fun _ => [0]

def cappedAtOne : SplitOptions := { splitAtTokens := 3, maxContinuationTokens := 1 }

def cappedSplit : AgentTrajectory := { shellRun 3 with continuation := shellTurn "ls" "a.py" }

theorem cappedSplit_eq :
    (shellRun 6).thresholdSplit asciiPython oneToken cappedAtOne = .ok (some cappedSplit) := rfl

theorem thresholdSplit_leavesTurns_capped : LeavesTurns asciiPython oneToken cappedAtOne (shellRun 6) cappedSplit :=
  thresholdSplit_leavesTurns (by decide) cappedSplit_eq

theorem thresholdSplit_cuts_suffix :
    ¬ ∀ (py : Python) (inputIds : String → List ℕ) (o : SplitOptions) (t s : AgentTrajectory), 1 ≤ o.minSuffix →
      t.thresholdSplit py inputIds o = .ok (some s) →
        o.minPrefix ≤ wholeTurns s.steps ∧ o.minSuffix ≤ wholeTurns s.continuation := by
  intro h
  have hsuffix := (h asciiPython oneToken cappedAtOne (shellRun 6) cappedSplit (by decide) cappedSplit_eq).2
  exact absurd hsuffix (by decide)

end TokensThatSuffice
