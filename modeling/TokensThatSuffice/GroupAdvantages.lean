import Mathlib.Analysis.Real.Sqrt
import Mathlib.Data.Rat.BigOperators
import TokensThatSuffice.HalfEven
import TokensThatSuffice.Means
import TokensThatSuffice.Messages

namespace TokensThatSuffice

open HalfEven Means

structure AdvantageConfig where
  minRewardSpread : ℚ := 1 / 50
  rewardSnap : ℚ := 1 / 20
  normalizeAdvantage : Bool := false
  advantageEps : ℚ := 1 / 10
  deriving Repr

structure ScoredSample where
  seqIdx : ℕ
  reward : Option PyFloat
  tokens : List ℕ
  logprobs : List (Option PyFloat)
  convo : List Message
  deriving Repr

def finiteValue : Option PyFloat → Option ℚ
  | some (.finite q) => some q
  | _ => none

def ScoredSample.isValid (g : ScoredSample) : Bool := (finiteValue g.reward).isSome

def validSamples (group : List ScoredSample) : List ScoredSample := group.filter ScoredSample.isValid

def validRewards (group : List ScoredSample) : List ℚ := group.filterMap (fun g => finiteValue g.reward)

/-- What a group adds to `rewards_P`, and its `zip(group, advantages_G)`; `none` where the loop goes on before. -/
structure GroupOutcome (R : Type) where
  meanReward : Option ℚ
  advantages : Option (List (ScoredSample × R))

section Division

variable {K : Type} [Field K] [DecidableEq K]

def divide (a b : K) : Except PyError K := if b = 0 then .error .zeroDivisionError else .ok (a / b)

def averageOf (xs : List K) : Except PyError K := divide xs.sum xs.length

end Division

def maxOf (xs : List ℚ) : Except PyError ℚ :=
  match xs.max? with
  | some m => .ok m
  | none => .error (.valueError "max() arg is an empty sequence")

def minOf (xs : List ℚ) : Except PyError ℚ :=
  match xs.min? with
  | some m => .ok m
  | none => .error (.valueError "min() arg is an empty sequence")

def snapRewards (snap : ℚ) (rewardsG : List ℚ) : Except PyError (List ℚ) :=
  if 0 < snap then
    rewardsG.mapM (fun r => do
      let q ← divide r snap
      return roundHalfEven q * snap)
  else .ok rewardsG

section Advantages

variable {R : Type} [Field R] [LinearOrder R] (sqrt : ℚ → R) (cfg : AdvantageConfig)

def normalizeAdvantages (advantagesG : List ℚ) : Except PyError (List R) := do
  let var ← averageOf (advantagesG.map (fun a => a * a))
  let std := sqrt var
  advantagesG.mapM (fun a : ℚ => divide (a : R) (std + cfg.advantageEps))

def groupAdvantages (rewardsG : List ℚ) : Except PyError (Option (List R)) := do
  let snappedG ← snapRewards cfg.rewardSnap rewardsG
  let spread := (← maxOf snappedG) - (← minOf snappedG)
  if spread < cfg.minRewardSpread then return none
  else
    let snappedMean ← averageOf snappedG
    let advantagesG := snappedG.map (· - snappedMean)
    if cfg.normalizeAdvantage then
      let advantagesG ← normalizeAdvantages sqrt cfg advantagesG
      return some advantagesG
    else return some (advantagesG.map (fun a : ℚ => (a : R)))

/-- The body of the advantage loop, on a group sorted by `seq_idx`. -/
def scoreGroup (group : List ScoredSample) : Except PyError (GroupOutcome R) := do
  let group := validSamples group
  if group.length < 2 then return ⟨none, none⟩
  else
    let rewardsG := validRewards group
    let meanReward ← averageOf rewardsG
    let advantagesG ← groupAdvantages sqrt cfg rewardsG
    return ⟨some meanReward, advantagesG.map (group.zip ·)⟩

end Advantages

section Division

variable {K : Type} [Field K] [DecidableEq K] {a b : K} {xs : List K}

theorem divide_ok (hb : b ≠ 0) : divide a b = .ok (a / b) := if_neg hb

theorem divide_zero (a : K) : divide a 0 = .error .zeroDivisionError := if_pos rfl

theorem averageOf_ok [CharZero K] (h : xs ≠ []) : averageOf xs = .ok (mean xs) := divide_ok (length_ne_zero h)

end Division

section Snapping

def snapReward (snap r : ℚ) : ℚ := if 0 < snap then roundHalfEven (r / snap) * snap else r

theorem snapRewards_ok (snap : ℚ) (rewardsG : List ℚ) :
    snapRewards snap rewardsG = .ok (rewardsG.map (snapReward snap)) := by
  unfold snapRewards
  split_ifs with hsnap
  · apply mapM_eq_map
    intro r _
    rw [divide_ok hsnap.ne', snapReward, if_pos hsnap]
    rfl
  · have hid : snapReward snap = id := funext fun r => if_neg hsnap
    rw [hid, List.map_id]

theorem snapReward_mono (snap : ℚ) {r r' : ℚ} (h : r ≤ r') : snapReward snap r ≤ snapReward snap r' := by
  unfold snapReward
  split_ifs with hsnap
  · have hround := roundHalfEven_mono (div_le_div_of_nonneg_right h hsnap.le)
    exact mul_le_mul_of_nonneg_right (by exact_mod_cast hround) hsnap.le
  · exact h

variable {xs : List ℚ}

theorem maxOf_ok (h : xs ≠ []) : ∃ m, maxOf xs = .ok m ∧ m ∈ xs ∧ ∀ x ∈ xs, x ≤ m := by
  unfold maxOf
  cases hmax : xs.max? with
  | none => exact absurd (List.max?_eq_none_iff.mp hmax) h
  | some m => exact ⟨m, rfl, List.max?_eq_some_iff.mp hmax⟩

theorem minOf_ok (h : xs ≠ []) : ∃ m, minOf xs = .ok m ∧ m ∈ xs ∧ ∀ x ∈ xs, m ≤ x := by
  unfold minOf
  cases hmin : xs.min? with
  | none => exact absurd (List.min?_eq_none_iff.mp hmin) h
  | some m => exact ⟨m, rfl, List.min?_eq_some_iff.mp hmin⟩

def SharesCell (snap r r' : ℚ) : Prop := ∃ m : ℤ, InCell m (r / snap) ∧ InCell m (r' / snap)

def EndsOfEvenCell (snap r r' : ℚ) : Prop :=
  ∃ m : ℤ, Even m ∧ |r / snap - m| = 1 / 2 ∧ |r' / snap - m| = 1 / 2 ∧ r ≠ r'

section Cells

variable {snap r r' : ℚ} (hsnap : 0 < snap)

include hsnap

theorem snapReward_eq_iff : snapReward snap r = snapReward snap r' ↔ SharesCell snap r r' := by
  rw [snapReward, snapReward, if_pos hsnap, if_pos hsnap, mul_left_inj' hsnap.ne', Int.cast_inj,
    roundHalfEven_eq_roundHalfEven_iff]
  rfl

theorem le_dist_iff : snap ≤ |r - r'| ↔ 1 ≤ |r / snap - r' / snap| := by
  rw [← sub_div, abs_div, abs_of_pos hsnap, one_le_div hsnap]

theorem endsOfEvenCell_of_sharesCell (h : SharesCell snap r r') (hfar : snap ≤ |r - r'|) :
    EndsOfEvenCell snap r r' := by
  obtain ⟨m, hr, hr'⟩ := h
  obtain ⟨heven, hend, hend'⟩ := hr.ends hr' ((le_dist_iff hsnap).mp hfar)
  refine ⟨m, heven, hend, hend', ?_⟩
  rintro rfl
  rw [sub_self, abs_zero] at hfar
  exact absurd hfar (not_le.mpr hsnap)

theorem EndsOfEvenCell.sharesCell (h : EndsOfEvenCell snap r r') : SharesCell snap r r' ∧ snap ≤ |r - r'| := by
  obtain ⟨m, heven, hend, hend', hne⟩ := h
  refine ⟨⟨m, .inr ⟨heven, hend⟩, .inr ⟨heven, hend'⟩⟩, ?_⟩
  have hquotient : r / snap ≠ r' / snap := fun heq => hne ((div_left_inj' hsnap.ne').mp heq)
  rw [le_dist_iff hsnap]
  -- two points at a distance of one half from `m` are equal or on its two sides
  rcases abs_eq_abs.mp (hend.trans hend'.symm) with heq | heq
  · exact absurd (sub_left_inj.mp heq) hquotient
  · have hsum : r / snap - r' / snap = 2 * (r / snap - m) := by linarith
    rw [hsum, abs_mul, hend]
    norm_num

theorem ties_iff_cells :
    ((|r - r'| < snap → snapReward snap r = snapReward snap r') ∧
        (snap ≤ |r - r'| → snapReward snap r ≠ snapReward snap r')) ↔
      (|r - r'| < snap → SharesCell snap r r') ∧ ¬ EndsOfEvenCell snap r r' := by
  rw [Ne, snapReward_eq_iff hsnap]
  refine and_congr_right fun _ => ⟨?_, ?_⟩
  · intro hfar hends
    obtain ⟨hshares, hdist⟩ := hends.sharesCell hsnap
    exact hfar hdist hshares
  · intro hends hdist hshares
    exact hends (endsOfEvenCell_of_sharesCell hsnap hshares hdist)

end Cells

def Narrow (d : ℚ) (xs : List ℚ) : Prop := ∀ x ∈ xs, ∀ y ∈ xs, x - y < d

theorem narrow_iff {d high low : ℚ} (hhigh : high ∈ xs ∧ ∀ x ∈ xs, x ≤ high) (hlow : low ∈ xs ∧ ∀ x ∈ xs, low ≤ x) :
    high - low < d ↔ Narrow d xs := by
  constructor
  · intro h x hx y hy
    exact (sub_le_sub (hhigh.2 x hx) (hlow.2 y hy)).trans_lt h
  · intro h
    exact h high hhigh.1 low hlow.1

end Snapping

section Spec

variable {R : Type} [Field R] [LinearOrder R] (sqrt : ℚ → R) (cfg : AdvantageConfig) (rewardsG : List ℚ)

def snappedRewards : List ℚ := rewardsG.map (snapReward cfg.rewardSnap)

def centeredRewards : List ℚ := (snappedRewards cfg rewardsG).map (· - mean (snappedRewards cfg rewardsG))

def advantageScale : R :=
  if cfg.normalizeAdvantage then sqrt (mean ((centeredRewards cfg rewardsG).map (fun a => a * a))) + cfg.advantageEps
  else 1

def advantageOf (r : ℚ) : R :=
  ((snapReward cfg.rewardSnap r - mean (snappedRewards cfg rewardsG) : ℚ) : R) / advantageScale sqrt cfg rewardsG

variable {sqrt cfg rewardsG}

theorem normalizeAdvantages_eq {a : ℚ} {rest : List ℚ} (h : centeredRewards cfg rewardsG = a :: rest)
    (hnormalize : cfg.normalizeAdvantage = true) :
    normalizeAdvantages sqrt cfg (centeredRewards cfg rewardsG) =
      if advantageScale sqrt cfg rewardsG = 0 then .error .zeroDivisionError
      else .ok ((centeredRewards cfg rewardsG).map (fun a : ℚ => (a : R) / advantageScale sqrt cfg rewardsG)) := by
  have hsquares : (centeredRewards cfg rewardsG).map (fun a => a * a) ≠ [] := by
    rw [h]
    exact List.cons_ne_nil _ _
  have hscale : sqrt (mean ((centeredRewards cfg rewardsG).map (fun a => a * a))) + cfg.advantageEps =
      advantageScale sqrt cfg rewardsG := (if_pos hnormalize).symm
  rw [normalizeAdvantages, averageOf_ok hsquares, ok_bind]
  dsimp only
  rw [hscale]
  split_ifs with hzero
  · rw [h, List.mapM_cons, hzero, divide_zero]
    rfl
  · exact mapM_eq_map fun a _ => divide_ok hzero

theorem groupAdvantages_cases (sqrt : ℚ → R) (cfg : AdvantageConfig) {rewardsG : List ℚ} (h : rewardsG ≠ []) :
    (Narrow cfg.minRewardSpread (snappedRewards cfg rewardsG) ∧ groupAdvantages sqrt cfg rewardsG = .ok none) ∨
      (¬ Narrow cfg.minRewardSpread (snappedRewards cfg rewardsG) ∧
        groupAdvantages sqrt cfg rewardsG = if advantageScale sqrt cfg rewardsG = 0 then .error .zeroDivisionError
          else .ok (some (rewardsG.map (advantageOf sqrt cfg rewardsG)))) := by
  have hne : snappedRewards cfg rewardsG ≠ [] := by rwa [snappedRewards, Ne, List.map_eq_nil_iff]
  obtain ⟨high, hmax, hhigh⟩ := maxOf_ok hne
  obtain ⟨low, hmin, hlow⟩ := minOf_ok hne
  rw [groupAdvantages, snapRewards_ok, ← snappedRewards, ok_bind, hmax, ok_bind, hmin, ok_bind, averageOf_ok hne,
    ok_bind, ← centeredRewards]
  by_cases hspread : high - low < cfg.minRewardSpread
  · rw [if_pos hspread]
    exact .inl ⟨(narrow_iff hhigh hlow).mp hspread, rfl⟩
  · rw [if_neg hspread]
    refine .inr ⟨(narrow_iff hhigh hlow).not.mp hspread, ?_⟩
    have hmap : (centeredRewards cfg rewardsG).map (fun a : ℚ => (a : R) / advantageScale sqrt cfg rewardsG) =
        rewardsG.map (advantageOf sqrt cfg rewardsG) := by
      rw [centeredRewards, snappedRewards, List.map_map, List.map_map]
      rfl
    by_cases hnormalize : cfg.normalizeAdvantage = true
    · obtain ⟨a, rest, hcons⟩ := List.exists_cons_of_ne_nil hne
      have hcentered : centeredRewards cfg rewardsG = (a - mean (snappedRewards cfg rewardsG)) ::
          rest.map (· - mean (snappedRewards cfg rewardsG)) := by
        conv_lhs => rw [centeredRewards, hcons, List.map_cons]
        rw [hcons]
      rw [if_pos hnormalize, normalizeAdvantages_eq hcentered hnormalize, hmap]
      split_ifs <;> rfl
    · have hone : advantageScale sqrt cfg rewardsG = 1 := if_neg hnormalize
      rw [if_neg hnormalize, hone, if_neg one_ne_zero, ← hmap, hone]
      simp only [div_one]
      rfl

variable [IsStrictOrderedRing R]

theorem advantageScale_pos (hsqrt : ∀ v, 0 ≤ sqrt v) (heps : 0 < cfg.advantageEps) :
    0 < advantageScale sqrt cfg rewardsG := by
  unfold advantageScale
  split_ifs
  · exact add_pos_of_nonneg_of_pos (hsqrt _) (by exact_mod_cast heps)
  · exact one_pos

theorem advantageOf_mono (hsqrt : ∀ v, 0 ≤ sqrt v) (heps : 0 < cfg.advantageEps) {r r' : ℚ} (h : r ≤ r') :
    advantageOf sqrt cfg rewardsG r ≤ advantageOf sqrt cfg rewardsG r' := by
  have hsnap := sub_le_sub_right (snapReward_mono cfg.rewardSnap h) (mean (snappedRewards cfg rewardsG))
  exact div_le_div_of_nonneg_right (by exact_mod_cast hsnap) (advantageScale_pos hsqrt heps).le

theorem advantageOf_inj (hscale : advantageScale sqrt cfg rewardsG ≠ 0) {r r' : ℚ} :
    advantageOf sqrt cfg rewardsG r = advantageOf sqrt cfg rewardsG r' ↔
      snapReward cfg.rewardSnap r = snapReward cfg.rewardSnap r' := by
  rw [advantageOf, advantageOf, div_left_inj' hscale, Rat.cast_inj, sub_left_inj]

theorem sum_advantageOf (sqrt : ℚ → R) (cfg : AdvantageConfig) (rewardsG rs : List ℚ) :
    (rs.map (advantageOf sqrt cfg rewardsG)).sum =
      (((snappedRewards cfg rs).map (· - mean (snappedRewards cfg rewardsG))).sum : ℚ) /
        advantageScale sqrt cfg rewardsG := by
  have hmap : rs.map (advantageOf sqrt cfg rewardsG) =
      (((snappedRewards cfg rs).map (· - mean (snappedRewards cfg rewardsG))).map (fun q : ℚ => (q : R))).map
        (· / advantageScale sqrt cfg rewardsG) := by
    simp only [snappedRewards, List.map_map]
    rfl
  rw [hmap, sum_div, ← Rat.cast_list_sum]

end Spec

section Groups

variable {R : Type} [Field R] {sqrt : ℚ → R} {cfg : AdvantageConfig} {group : List ScoredSample}
  {outcome : GroupOutcome R}

def ScoredSample.value (g : ScoredSample) : ℚ := (finiteValue g.reward).getD 0

theorem value_eq {g : ScoredSample} {r : ℚ} (h : g.reward = some (.finite r)) : g.value = r := by
  rw [ScoredSample.value, h]
  rfl

theorem validRewards_eq_map (group : List ScoredSample) :
    validRewards group = (validSamples group).map ScoredSample.value := by
  induction group with
  | nil => rfl
  | cons g group ih =>
    unfold validRewards validSamples ScoredSample.isValid ScoredSample.value at *
    cases h : finiteValue g.reward with
    | none => simp [h, ih]
    | some r => simp [h, ih]

theorem validRewards_validSamples (group : List ScoredSample) :
    validRewards (validSamples group) = validRewards group := by
  rw [validRewards_eq_map, validRewards_eq_map, validSamples, validSamples, List.filter_filter]
  simp only [Bool.and_self]

def withAdvantage (sqrt : ℚ → R) (cfg : AdvantageConfig) (group : List ScoredSample) (g : ScoredSample) :
    ScoredSample × R :=
  (g, advantageOf sqrt cfg (validRewards group) g.value)

inductive OutcomeOf (sqrt : ℚ → R) (cfg : AdvantageConfig) (group : List ScoredSample) :
    Except PyError (GroupOutcome R) → Prop
  | tooFew (hfew : (validRewards group).length < 2) : OutcomeOf sqrt cfg group (.ok ⟨none, none⟩)
  | tied (htwo : 2 ≤ (validRewards group).length)
      (hspread : Narrow cfg.minRewardSpread (snappedRewards cfg (validRewards group))) :
      OutcomeOf sqrt cfg group (.ok ⟨some (mean (validRewards group)), none⟩)
  | scored (htwo : 2 ≤ (validRewards group).length)
      (hspread : ¬ Narrow cfg.minRewardSpread (snappedRewards cfg (validRewards group)))
      (hscale : advantageScale sqrt cfg (validRewards group) ≠ 0) :
      OutcomeOf sqrt cfg group (.ok ⟨some (mean (validRewards group)),
        some ((validSamples group).map (withAdvantage sqrt cfg group))⟩)
  | dividedByZero (hscale : advantageScale sqrt cfg (validRewards group) = 0) :
      OutcomeOf sqrt cfg group (.error .zeroDivisionError)

theorem snd_withAdvantage (sqrt : ℚ → R) (cfg : AdvantageConfig) (group gs : List ScoredSample) :
    (gs.map (withAdvantage sqrt cfg group)).map Prod.snd =
      (gs.map ScoredSample.value).map (advantageOf sqrt cfg (validRewards group)) := by
  rw [List.map_map, List.map_map]
  rfl

theorem OutcomeOf.skipped (h : OutcomeOf sqrt cfg group (.ok outcome)) :
    outcome.advantages = none ↔
      (validRewards group).length < 2 ∨ Narrow cfg.minRewardSpread (snappedRewards cfg (validRewards group)) := by
  cases h with
  | tooFew hfew => exact iff_of_true rfl (.inl hfew)
  | tied _ hspread => exact iff_of_true rfl (.inr hspread)
  | scored htwo hspread => exact iff_of_false (by simp) (not_or.mpr ⟨by omega, hspread⟩)

theorem OutcomeOf.pairs (h : OutcomeOf sqrt cfg group (.ok outcome)) {pairs : List (ScoredSample × R)}
    (hpairs : pairs ∈ outcome.advantages) : pairs = (validSamples group).map (withAdvantage sqrt cfg group) ∧
      advantageScale sqrt cfg (validRewards group) ≠ 0 := by
  cases h with
  | tooFew => cases hpairs
  | tied => cases hpairs
  | scored _ _ hscale => exact ⟨(Option.some.inj hpairs).symm, hscale⟩

variable [LinearOrder R]

theorem scoreGroup_outcomeOf (sqrt : ℚ → R) (cfg : AdvantageConfig) (group : List ScoredSample) :
    OutcomeOf sqrt cfg group (scoreGroup sqrt cfg group) := by
  have hlength : (validSamples group).length = (validRewards group).length := by
    rw [validRewards_eq_map, List.length_map]
  have hzip : (validSamples group).zip ((validRewards group).map (advantageOf sqrt cfg (validRewards group))) =
      (validSamples group).map (withAdvantage sqrt cfg group) := by
    conv_lhs => rw [validRewards_eq_map, List.map_map, ← List.map_prod_left_eq_zip, ← validRewards_eq_map]
    rfl
  unfold scoreGroup
  dsimp only
  rw [validRewards_validSamples, hlength]
  by_cases hfew : (validRewards group).length < 2
  · rw [if_pos hfew]
    exact .tooFew hfew
  · have htwo : 2 ≤ (validRewards group).length := not_lt.mp hfew
    have hne : validRewards group ≠ [] := List.ne_nil_of_length_pos (by omega)
    rw [if_neg hfew, averageOf_ok hne, ok_bind]
    rcases groupAdvantages_cases sqrt cfg hne with ⟨hspread, hnone⟩ | ⟨hspread, heq⟩
    · rw [hnone]
      exact .tied htwo hspread
    · rw [heq]
      split_ifs with hscale
      · exact .dividedByZero hscale
      · rw [ok_bind, Option.map_some, hzip]
        exact .scored htwo hspread hscale

theorem scoreGroup_ok [IsStrictOrderedRing R] (hsqrt : ∀ v, 0 ≤ sqrt v) (heps : 0 < cfg.advantageEps)
    (group : List ScoredSample) : ∃ outcome : GroupOutcome R, scoreGroup sqrt cfg group = .ok outcome := by
  have h := scoreGroup_outcomeOf sqrt cfg group
  revert h
  generalize scoreGroup sqrt cfg group = result
  rintro (hfew | ⟨htwo, hspread⟩ | ⟨htwo, hspread, hscale⟩ | hscale)
  · exact ⟨_, rfl⟩
  · exact ⟨_, rfl⟩
  · exact ⟨_, rfl⟩
  · exact absurd hscale (advantageScale_pos hsqrt heps).ne'

structure FaithfullyCentered (sqrt : ℚ → R) (cfg : AdvantageConfig) (group : List ScoredSample)
    (outcome : GroupOutcome R) : Prop where
  unaffected : ∀ other, validRewards other = validRewards group → ∃ o, scoreGroup sqrt cfg other = .ok o ∧
    o.advantages.map (List.map Prod.snd) = outcome.advantages.map (List.map Prod.snd)
  skipped : outcome.advantages = none ↔
    (validRewards group).length < 2 ∨ Narrow cfg.minRewardSpread (snappedRewards cfg (validRewards group))
  samples : ∀ pairs ∈ outcome.advantages, pairs.map Prod.fst = validSamples group
  values : ∀ pairs ∈ outcome.advantages, ∀ p ∈ pairs, ∀ r : ℚ, p.1.reward = some (.finite r) →
    p.2 = advantageOf sqrt cfg (validRewards group) r
  centered : ∀ pairs ∈ outcome.advantages, (pairs.map Prod.snd).sum = 0
  monotone : ∀ pairs ∈ outcome.advantages, ∀ p ∈ pairs, ∀ q ∈ pairs, ∀ r r' : ℚ,
    p.1.reward = some (.finite r) → q.1.reward = some (.finite r') → r ≤ r' → p.2 ≤ q.2

theorem OutcomeOf.unaffected {other : List ScoredSample} {o : GroupOutcome R}
    (h : OutcomeOf sqrt cfg group (.ok outcome)) (ho : OutcomeOf sqrt cfg other (.ok o))
    (hother : validRewards other = validRewards group) :
    o.advantages.map (List.map Prod.snd) = outcome.advantages.map (List.map Prod.snd) := by
  cases ho with
  | tooFew hfew =>
    rw [hother] at hfew
    cases h with
    | tooFew => rfl
    | tied htwo => omega
    | scored htwo => omega
  | tied htwo hspread =>
    rw [hother] at htwo hspread
    cases h with
    | tooFew => rfl
    | tied => rfl
    | scored _ hnot => exact absurd hspread hnot
  | scored htwo hspread =>
    rw [hother] at htwo hspread
    cases h with
    | tooFew hfew => omega
    | tied _ hnarrow => exact absurd hnarrow hspread
    | scored =>
      simp only [Option.map_some, snd_withAdvantage]
      rw [← validRewards_eq_map, ← validRewards_eq_map, hother]

theorem faithfullyCentered_of_ok [IsStrictOrderedRing R] (hsqrt : ∀ v, 0 ≤ sqrt v) (heps : 0 < cfg.advantageEps)
    (hok : scoreGroup sqrt cfg group = .ok outcome) : FaithfullyCentered sqrt cfg group outcome := by
  have h := scoreGroup_outcomeOf sqrt cfg group
  rw [hok] at h
  constructor
  · intro other hother
    obtain ⟨o, ho⟩ := scoreGroup_ok hsqrt heps other
    have hcases := scoreGroup_outcomeOf sqrt cfg other
    rw [ho] at hcases
    exact ⟨o, ho, h.unaffected hcases hother⟩
  · exact h.skipped
  · intro pairs hpairs
    rw [(h.pairs hpairs).1, List.map_map]
    exact List.map_id _
  · intro pairs hpairs p hp r hr
    rw [(h.pairs hpairs).1] at hp
    obtain ⟨g, -, rfl⟩ := List.mem_map.mp hp
    have hvalue : g.value = r := value_eq hr
    rw [withAdvantage, hvalue]
  · intro pairs hpairs
    rw [(h.pairs hpairs).1, snd_withAdvantage, ← validRewards_eq_map, sum_advantageOf, sum_sub_mean, Rat.cast_zero,
      zero_div]
  · intro pairs hpairs p hp q hq r r' hr hr' hle
    rw [(h.pairs hpairs).1] at hp hq
    obtain ⟨g, -, rfl⟩ := List.mem_map.mp hp
    obtain ⟨g', -, rfl⟩ := List.mem_map.mp hq
    have hvalue : g.value = r := value_eq hr
    have hvalue' : g'.value = r' := value_eq hr'
    rw [withAdvantage, withAdvantage, hvalue, hvalue']
    exact advantageOf_mono hsqrt heps hle

structure TiesAsPromised (sqrt : ℚ → R) (cfg : AdvantageConfig) (group : List ScoredSample) : Prop where
  snapped : ∀ r ∈ validRewards group, ∀ r' ∈ validRewards group,
    (|r - r'| < cfg.rewardSnap → snapReward cfg.rewardSnap r = snapReward cfg.rewardSnap r') ∧
      (cfg.rewardSnap ≤ |r - r'| → snapReward cfg.rewardSnap r ≠ snapReward cfg.rewardSnap r')
  advantages : ∀ outcome, scoreGroup sqrt cfg group = .ok outcome → ∀ pairs ∈ outcome.advantages,
    ∀ p ∈ pairs, ∀ q ∈ pairs, ∀ r r' : ℚ, p.1.reward = some (.finite r) → q.1.reward = some (.finite r') →
      (|r - r'| < cfg.rewardSnap → p.2 = q.2) ∧ (cfg.rewardSnap ≤ |r - r'| → p.2 ≠ q.2)

theorem tiesAsPromised_of_snapped [IsStrictOrderedRing R]
    (h : ∀ r ∈ validRewards group, ∀ r' ∈ validRewards group,
      (|r - r'| < cfg.rewardSnap → snapReward cfg.rewardSnap r = snapReward cfg.rewardSnap r') ∧
        (cfg.rewardSnap ≤ |r - r'| → snapReward cfg.rewardSnap r ≠ snapReward cfg.rewardSnap r')) :
    TiesAsPromised sqrt cfg group := by
  refine ⟨h, ?_⟩
  intro outcome hok pairs hpairs p hp q hq r r' hr hr'
  have hcases := scoreGroup_outcomeOf sqrt cfg group
  rw [hok] at hcases
  obtain ⟨hmap, hscale⟩ := hcases.pairs hpairs
  rw [hmap] at hp hq
  obtain ⟨g, hg, rfl⟩ := List.mem_map.mp hp
  obtain ⟨g', hg', rfl⟩ := List.mem_map.mp hq
  have hvalue : g.value = r := value_eq hr
  have hvalue' : g'.value = r' := value_eq hr'
  have hmem : r ∈ validRewards group := by
    rw [validRewards_eq_map, ← hvalue]
    exact List.mem_map_of_mem hg
  have hmem' : r' ∈ validRewards group := by
    rw [validRewards_eq_map, ← hvalue']
    exact List.mem_map_of_mem hg'
  rw [withAdvantage, withAdvantage, hvalue, hvalue', Ne, advantageOf_inj hscale]
  exact h r hmem r' hmem'

end Groups

noncomputable def realSqrt (v : ℚ) : ℝ := √(v : ℝ)

theorem realSqrt_nonneg (v : ℚ) : 0 ≤ realSqrt v := Real.sqrt_nonneg _

theorem scoreGroup_faithfullyCentered (cfg : AdvantageConfig) (heps : 0 < cfg.advantageEps)
    (group : List ScoredSample) :
    ∃ outcome, scoreGroup realSqrt cfg group = .ok outcome ∧ FaithfullyCentered realSqrt cfg group outcome := by
  obtain ⟨outcome, hok⟩ := scoreGroup_ok realSqrt_nonneg heps group
  exact ⟨outcome, hok, faithfullyCentered_of_ok realSqrt_nonneg heps hok⟩

def sampleOf (seqIdx : ℕ) (reward : Option PyFloat) : ScoredSample where
  seqIdx := seqIdx
  reward := reward
  tokens := [7, 8]
  logprobs := [some (.finite (-1)), some (.finite (-2))]
  convo := []

theorem scoreGroup_faithfullyCentered_trio :
    ∃ outcome, scoreGroup realSqrt { normalizeAdvantage := true }
        [sampleOf 0 (some (.finite 0)), sampleOf 1 none, sampleOf 2 (some (.finite 1))] = .ok outcome ∧
      FaithfullyCentered realSqrt { normalizeAdvantage := true }
        [sampleOf 0 (some (.finite 0)), sampleOf 1 none, sampleOf 2 (some (.finite 1))] outcome := by
  have heps : (0 : ℚ) < 1 / 10 := by norm_num
  exact scoreGroup_faithfullyCentered { normalizeAdvantage := true } heps _

theorem tiesAsPromised_iff (cfg : AdvantageConfig) (hsnap : 0 < cfg.rewardSnap) (group : List ScoredSample) :
    TiesAsPromised realSqrt cfg group ↔ ∀ r ∈ validRewards group, ∀ r' ∈ validRewards group,
      (|r - r'| < cfg.rewardSnap → SharesCell cfg.rewardSnap r r') ∧ ¬ EndsOfEvenCell cfg.rewardSnap r r' := by
  constructor
  · intro h r hr r' hr'
    exact (ties_iff_cells hsnap).mp (h.snapped r hr r' hr')
  · intro h
    apply tiesAsPromised_of_snapped
    intro r hr r' hr'
    exact (ties_iff_cells hsnap).mpr (h r hr r' hr')

def closePair : List ScoredSample :=
  [sampleOf 0 (some (.finite (1 / 50))), sampleOf 1 (some (.finite (3 / 100)))]

def stepPair : List ScoredSample :=
  [sampleOf 0 (some (.finite (-1 / 40))), sampleOf 1 (some (.finite (1 / 40)))]

theorem tiesAsPromised_iff_closePair :
    TiesAsPromised realSqrt {} closePair ↔ ∀ r ∈ validRewards closePair, ∀ r' ∈ validRewards closePair,
      (|r - r'| < (1 : ℚ) / 20 → SharesCell (1 / 20) r r') ∧ ¬ EndsOfEvenCell (1 / 20) r r' := by
  have hsnap : (0 : ℚ) < 1 / 20 := by norm_num
  exact tiesAsPromised_iff {} hsnap closePair

theorem not_tiesAsPromised : ¬ TiesAsPromised realSqrt {} closePair ∧ ¬ TiesAsPromised realSqrt {} stepPair := by
  constructor
  · intro h
    have hclose := (h.snapped (1 / 50) (by decide +kernel) (3 / 100) (by decide +kernel)).1 (by decide +kernel)
    exact absurd hclose (by decide +kernel)
  · intro h
    have hfar := (h.snapped (-1 / 40) (by decide +kernel) (1 / 40) (by decide +kernel)).2 (by decide +kernel)
    exact absurd (by decide +kernel) hfar

end TokensThatSuffice
