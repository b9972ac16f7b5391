import TokensThatSuffice.SplitBounds

namespace TokensThatSuffice

structure LeavesBoth (minPrefix minSuffix : ℤ) (t s : AgentTrajectory) : Prop where
  nonempty : s.steps ≠ [] ∧ s.continuation ≠ []
  even : s.steps.length % 2 = 0
  concatenation : s.steps ++ s.continuation = t.steps
  turns : minPrefix + minSuffix ≤ wholeTurns t.steps →
    minPrefix ≤ wholeTurns s.steps ∧ minSuffix ≤ wholeTurns s.continuation

theorem leavesBoth_withPrefix_iff {minPrefix minSuffix : ℤ} {k : ℕ} {t : AgentTrajectory} (hk : 1 ≤ k)
    (hturns : minPrefix + minSuffix ≤ wholeTurns t.steps → minPrefix ≤ k ∧ (k : ℤ) ≤ wholeTurns t.steps - minSuffix)
    (hcontinuation : t.continuation = []) :
    LeavesBoth minPrefix minSuffix t (t.withPrefix (2 * k : ℕ)) ↔ 2 * k < t.steps.length := by
  have hsteps := t.withPrefix_steps (2 * k)
  have hrest := t.withPrefix_continuation (2 * k)
  rw [hcontinuation, List.append_nil] at hrest
  constructor
  · intro h
    have hafter := h.nonempty.2
    rw [hrest, Ne, List.drop_eq_nil_iff] at hafter
    omega
  · intro h
    have hlen : (t.withPrefix (2 * k : ℕ)).steps.length = 2 * k := by
      rw [hsteps, List.length_take]
      omega
    refine ⟨⟨?_, ?_⟩, ?_, ?_, ?_⟩
    · rw [← List.length_pos_iff_ne_nil, hlen]
      omega
    · rw [hrest, Ne, List.drop_eq_nil_iff]
      omega
    · rw [hlen]
      omega
    · rw [hsteps, hrest, List.take_append_drop]
    · intro hlong
      obtain ⟨hbefore, hafter⟩ := hturns hlong
      rw [wholeTurns, wholeTurns, hlen, hrest, List.length_drop]
      rw [wholeTurns] at hafter
      omega

def drawnTurns (rng : RandomModule) (minPrefix minSuffix : ℤ) (g : rng.Gen) (t : AgentTrajectory) : ℤ :=
  let range := AgentTrajectory.splitRange minPrefix minSuffix (wholeTurns t.steps)
  (rng.randint g range.1 range.2).1

section Draws

variable (rng : RandomModule) (minPrefix minSuffix : ℤ) (g : rng.Gen) (t : AgentTrajectory)

theorem sampleSplit_fst :
    (t.sampleSplit rng minPrefix minSuffix g).1 = t.withPrefix (drawnTurns rng minPrefix minSuffix g t * 2) := rfl

theorem drawnTurns_mem :
    minPrefix ≤ drawnTurns rng minPrefix minSuffix g t ∧
      (drawnTurns rng minPrefix minSuffix g t ≤ wholeTurns t.steps - minSuffix ∨
        wholeTurns t.steps < minPrefix + minSuffix ∧
          drawnTurns rng minPrefix minSuffix g t ≤ max minPrefix (wholeTurns t.steps / 2)) := by
  obtain ⟨hlo, hhi⟩ := rng.randint_mem g _ _ (AgentTrajectory.splitRange_le minPrefix minSuffix (wholeTurns t.steps))
  refine ⟨hlo, ?_⟩
  unfold drawnTurns
  revert hhi
  unfold AgentTrajectory.splitRange
  dsimp only
  split_ifs with hshort
  · intro hhi
    exact .inr ⟨by omega, hhi⟩
  · intro hhi
    exact .inl hhi

variable {rng minPrefix minSuffix g t}

theorem sampleSplit_leavesBoth_iff (hbefore : 1 ≤ minPrefix) (hsuffix : 1 ≤ minSuffix)
    (hcontinuation : t.continuation = []) :
    LeavesBoth minPrefix minSuffix t (t.sampleSplit rng minPrefix minSuffix g).1 ↔
      2 * minPrefix < t.steps.length := by
  obtain ⟨hlo, hhi⟩ := drawnTurns_mem rng minPrefix minSuffix g t
  rw [sampleSplit_fst]
  generalize drawnTurns rng minPrefix minSuffix g t = drawn at hlo hhi ⊢
  obtain ⟨k, rfl⟩ : ∃ k : ℕ, drawn = k := ⟨drawn.toNat, by omega⟩
  have hk : (k : ℤ) * 2 = (2 * k : ℕ) := by omega
  rw [hk, leavesBoth_withPrefix_iff (by omega) (by omega) hcontinuation]
  unfold wholeTurns at hhi
  omega

end Draws

def highestRandom : RandomModule where
  Gen := Unit
  seeded _ := ()
  randint g _ hi := (hi, g)
  shuffle g xs := (xs, g)
  randint_mem _ _ hi h := ⟨h, Int.le_refl hi⟩
  shuffle_perm _ xs := .refl xs

theorem sampleSplit_leavesBoth_iff_four :
    LeavesBoth 3 3 (shellRun 4) ((shellRun 4).sampleSplit highestRandom 3 3 ()).1 ↔ (2 * 3 : ℤ) < 8 :=
  sampleSplit_leavesBoth_iff (by decide) (by decide) rfl

theorem sampleSplit_leaves_nothing :
    ¬ ∀ (rng : RandomModule) (minPrefix minSuffix : ℤ) (g : rng.Gen) (t : AgentTrajectory), 1 ≤ minPrefix →
      1 ≤ minSuffix → 2 ≤ wholeTurns t.steps → t.continuation = [] →
        LeavesBoth minPrefix minSuffix t (t.sampleSplit rng minPrefix minSuffix g).1 := by
  intro h
  have hsplit := h highestRandom 3 3 () (shellRun 2) (by decide) (by decide) (by decide) rfl
  exact hsplit.nonempty.2 rfl

end TokensThatSuffice
