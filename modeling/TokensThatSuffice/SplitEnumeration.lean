import TokensThatSuffice.SplitBounds

namespace TokensThatSuffice

open PrefixSums

structure TurnWindow where
  minTokens : ℤ
  maxTokens : ℤ
  minPrefix : ℤ
  minSuffix : ℤ
  deriving Repr

def enumerateFrom (w : TurnWindow) (n k total : ℕ) : List ℕ → List (ℕ × ℕ)
  | [] => []
  | l :: rest =>
    if (total + l : ℕ) < w.minTokens then enumerateFrom w n (k + 1) (total + l) rest
    else if w.maxTokens < (total + l : ℕ) then []
    else if (k + 1 : ℕ) < w.minPrefix ∨ (n - (k + 1 : ℕ) : ℤ) < w.minSuffix then
      enumerateFrom w n (k + 1) (total + l) rest
    else (k + 1, total + l) :: enumerateFrom w n (k + 1) (total + l) rest

def everyNth {α : Type} (stride : ℕ) : ℕ → List α → List α
  | _, [] => []
  | 0, x :: xs => x :: everyNth stride (stride - 1) xs
  | skip + 1, _ :: xs => everyNth stride skip xs

def enumerateSplitTurns (py : Python) (inputIds : String → List ℕ) (w : TurnWindow) (stride : ℤ)
    (traj : AgentTrajectory) : Except PyError (List (ℕ × ℕ)) := do
  let turnLens ← turnTokenLens py inputIds traj.steps
  let out := enumerateFrom w turnLens.length 0 0 turnLens
  return if 1 < stride then everyNth stride.toNat 0 out else out

example : everyNth 3 0 [0, 1, 2, 3, 4, 5, 6] = [0, 3, 6] := rfl

theorem everyNth_getElem? {α : Type} {stride : ℕ} (hpos : 0 < stride) (skip : ℕ) (xs : List α) (i : ℕ) :
    (everyNth stride skip xs)[i]? = xs[skip + i * stride]? := by
  induction xs generalizing skip i with
  | nil => cases skip <;> rfl
  | cons x xs ih =>
    cases skip with
    | zero =>
      rw [everyNth, Nat.zero_add]
      cases i with
      | zero => rw [Nat.zero_mul]; rfl
      | succ i =>
        have hnext : (i + 1) * stride = stride - 1 + i * stride + 1 := by
          rw [Nat.add_one_mul]
          omega
        rw [List.getElem?_cons_succ, ih, hnext, List.getElem?_cons_succ]
    | succ skip =>
      have hnext : skip + 1 + i * stride = skip + i * stride + 1 := by omega
      rw [everyNth, ih, hnext, List.getElem?_cons_succ]

section Window

variable (w : TurnWindow)

def TurnWindow.goesOn (total : ℕ) : Bool := (total : ℤ) < w.minTokens || (total : ℤ) ≤ w.maxTokens

def TurnWindow.takes (n : ℕ) (a : ℕ × ℕ) : Bool :=
  w.minTokens ≤ (a.2 : ℤ) && w.minPrefix ≤ (a.1 : ℤ) && w.minSuffix ≤ (n - a.1 : ℤ)

theorem enumerateFrom_eq (n k total : ℕ) (lens : List ℕ) :
    enumerateFrom w n k total lens =
      ((sumsFrom k total lens).takeWhile (fun a => w.goesOn a.2)).filter (w.takes n) := by
  induction lens generalizing k total with
  | nil => rfl
  | cons l rest ih =>
    rw [enumerateFrom, sumsFrom]
    have hpositive (h : w.goesOn (total + l) = true) :
        ((k + 1, total + l) :: sumsFrom (k + 1) (total + l) rest).takeWhile (fun a => w.goesOn a.2) =
          (k + 1, total + l) :: (sumsFrom (k + 1) (total + l) rest).takeWhile (fun a => w.goesOn a.2) :=
      List.takeWhile_cons_of_pos h
    by_cases hbelow : ((total + l : ℕ) : ℤ) < w.minTokens
    · have hgoes : w.goesOn (total + l) = true := by
        simp only [TurnWindow.goesOn, Bool.or_eq_true, decide_eq_true_eq]
        omega
      have hskips : ¬ w.takes n (k + 1, total + l) = true := by
        simp only [TurnWindow.takes, Bool.and_eq_true, decide_eq_true_eq]
        omega
      rw [if_pos hbelow, hpositive hgoes, List.filter_cons_of_neg hskips, ih]
    · rw [if_neg hbelow]
      by_cases hover : w.maxTokens < ((total + l : ℕ) : ℤ)
      · have hstops : ¬ w.goesOn (total + l) = true := by
          simp only [TurnWindow.goesOn, Bool.or_eq_true, decide_eq_true_eq]
          omega
        rw [if_pos hover, List.takeWhile_cons_of_neg (p := fun a : ℕ × ℕ => w.goesOn a.2) hstops]
        rfl
      · have hgoes : w.goesOn (total + l) = true := by
          simp only [TurnWindow.goesOn, Bool.or_eq_true, decide_eq_true_eq]
          omega
        rw [if_neg hover, hpositive hgoes]
        by_cases hfew : ((k + 1 : ℕ) : ℤ) < w.minPrefix ∨ (n - (k + 1 : ℕ) : ℤ) < w.minSuffix
        · have hskips : ¬ w.takes n (k + 1, total + l) = true := by
            simp only [TurnWindow.takes, Bool.and_eq_true, decide_eq_true_eq]
            omega
          rw [if_pos hfew, List.filter_cons_of_neg hskips, ih]
        · have htakes : w.takes n (k + 1, total + l) = true := by
            simp only [TurnWindow.takes, Bool.and_eq_true, decide_eq_true_eq]
            omega
          rw [if_neg hfew, List.filter_cons_of_pos htakes, ih]

def TurnWindow.takesTurn (n : ℕ) (a : ℕ × ℕ) : Bool := w.takes n a && w.goesOn a.2

theorem enumerateFrom_filter (n : ℕ) (lens : List ℕ) :
    enumerateFrom w n 0 0 lens = (sums lens).filter (w.takesTurn n) := by
  have hmono : ∀ a b : ℕ, a ≤ b → w.goesOn b = true → w.goesOn a = true := by
    intro a b hab hb
    simp only [TurnWindow.goesOn, Bool.or_eq_true, decide_eq_true_eq] at hb ⊢
    omega
  rw [enumerateFrom_eq]
  change ((sums lens).takeWhile (fun a => w.goesOn a.2)).filter (w.takes n) = _
  rw [takeWhile_sums hmono, List.filter_filter]
  rfl

end Window

structure SplitTurn (w : TurnWindow) (lens : List ℕ) (k total : ℕ) : Prop where
  turn : 1 ≤ k ∧ k ≤ lens.length
  cumulative : total = (lens.take k).sum
  window : w.minTokens ≤ total ∧ (total : ℤ) ≤ w.maxTokens
  before : w.minPrefix ≤ k
  after : w.minSuffix ≤ (lens.length - k : ℤ)

def TurnWindow.trainingSplit (w : TurnWindow) : SplitOptions where
  splitAtTokens := w.minTokens
  minPrefix := w.minPrefix
  minSuffix := w.minSuffix

structure EnumeratesTurns (py : Python) (inputIds : String → List ℕ) (w : TurnWindow) (traj : AgentTrajectory)
    (lens : List ℕ) (out : List (ℕ × ℕ)) : Prop where
  increasing : out.Pairwise (fun a b => a.1 < b.1)
  exact : ∀ k total, (k, total) ∈ out ↔ SplitTurn w lens k total
  strided : ∀ stride : ℕ, 1 < stride →
    ∃ sub, enumerateSplitTurns py inputIds w stride traj = .ok sub ∧ ∀ i, sub[i]? = out[i * stride]?
  first : ∀ split k, traj.thresholdSplit py inputIds w.trainingSplit = .ok (some split) →
    split.steps.length = 2 * k → ((lens.take k).sum : ℤ) ≤ w.maxTokens → out.head? = some (k, (lens.take k).sum)

section Enumerated

variable {py : Python} {inputIds : String → List ℕ} {w : TurnWindow} {traj : AgentTrajectory} {lens : List ℕ}

theorem takesTurn_iff {n : ℕ} {a : ℕ × ℕ} : w.takesTurn n a = true ↔
    w.minTokens ≤ a.2 ∧ (a.2 : ℤ) ≤ w.maxTokens ∧ w.minPrefix ≤ a.1 ∧ w.minSuffix ≤ (n - a.1 : ℤ) := by
  simp only [TurnWindow.takesTurn, TurnWindow.takes, TurnWindow.goesOn, Bool.and_eq_true, Bool.or_eq_true,
    decide_eq_true_eq]
  omega

theorem mem_takenTurns (k total : ℕ) :
    (k, total) ∈ (sums lens).filter (w.takesTurn lens.length) ↔ SplitTurn w lens k total := by
  rw [List.mem_filter, mem_sums, takesTurn_iff]
  constructor
  · rintro ⟨⟨hone, hle, hsum⟩, hmin, hmax, hbefore, hafter⟩
    exact ⟨⟨hone, hle⟩, hsum, ⟨hmin, hmax⟩, hbefore, hafter⟩
  · rintro ⟨⟨hone, hle⟩, hsum, ⟨hmin, hmax⟩, hbefore, hafter⟩
    exact ⟨⟨hone, hle, hsum⟩, hmin, hmax, hbefore, hafter⟩

theorem enumerateSplitTurns_strided (hlens : turnTokenLens py inputIds traj.steps = .ok lens) {stride : ℕ}
    (hstride : 1 < stride) : enumerateSplitTurns py inputIds w stride traj =
      .ok (everyNth stride 0 ((sums lens).filter (w.takesTurn lens.length))) := by
  have hmany : (1 : ℤ) < stride := by omega
  rw [enumerateSplitTurns, hlens, ok_bind, enumerateFrom_filter]
  simp only [if_pos hmany, Int.toNat_natCast, pure_eq_ok]

theorem takenTurns_head (hlens : turnTokenLens py inputIds traj.steps = .ok lens) {split : AgentTrajectory} {k : ℕ}
    (hsplit : traj.thresholdSplit py inputIds w.trainingSplit = .ok (some split)) (hk : split.steps.length = 2 * k)
    (hmax : ((lens.take k).sum : ℤ) ≤ w.maxTokens) :
    ((sums lens).filter (w.takesTurn lens.length)).head? = some (k, (lens.take k).sum) := by
  obtain ⟨lens', hlens', ⟨-, hnone⟩ | ⟨k', hk', hturn⟩⟩ := AgentTrajectory.thresholdSplit_cases hsplit
  · cases hnone
  · cases hlens.symm.trans hlens'
    obtain ⟨hnone, hsome⟩ := AgentTrajectory.splitAtTurn_cases hturn
    have hn := turnTokenLens_length hlens
    have hle := hk'.1.2.1
    obtain rfl : k' = k := by
      rw [(hsome split rfl).1, List.length_take] at hk
      omega
    have haccepted : ¬ w.trainingSplit.Rejects py inputIds traj lens.length k' := fun hrejects => by
      cases hnone.mpr hrejects
    have hreached : w.minTokens ≤ ((lens.take k').sum : ℤ) := of_decide_eq_true hk'.1.2.2
    simp only [SplitOptions.Rejects, TurnWindow.trainingSplit, not_or, not_lt] at haccepted
    rw [List.head?_filter, find?_eq_some_iff_first (sums_numbered lens), mem_sums, takesTurn_iff]
    refine ⟨⟨hk'.1.1, hle, rfl⟩, ⟨hreached, hmax, haccepted.1, haccepted.2.1⟩, ?_⟩
    rintro ⟨j, total⟩ hj htakes
    obtain ⟨hone, hjle, rfl⟩ := mem_sums.mp hj
    exact hk'.2 ⟨hone, hjle, decide_eq_true (takesTurn_iff.mp htakes).1⟩

end Enumerated

end TokensThatSuffice
