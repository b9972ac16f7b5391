import Mathlib.Algebra.Order.Floor.Ring

namespace TokensThatSuffice.HalfEven

variable {K : Type*} [Field K] [LinearOrder K]

/-- The points around `m` that round to it: an even integer takes both half-way points next to it. -/
def InCell (m : ℤ) (x : K) : Prop := |x - m| < 1 / 2 ∨ Even m ∧ |x - m| = 1 / 2

def roundHalfEven [FloorRing K] (x : K) : ℤ :=
  if x - ⌊x⌋ < 1 / 2 then ⌊x⌋
  else if 1 / 2 < x - ⌊x⌋ then ⌊x⌋ + 1
  else if ⌊x⌋ % 2 = 0 then ⌊x⌋
  else ⌊x⌋ + 1

variable {x y : K} {m n : ℤ}

theorem InCell.dist_le (h : InCell m x) : |x - m| ≤ 1 / 2 := by
  rcases h with h | ⟨-, h⟩
  · exact h.le
  · exact h.le

theorem InCell.even_of_le (h : InCell m x) (hx : 1 / 2 ≤ |x - m|) : Even m := by
  rcases h with h | ⟨heven, -⟩
  · exact absurd h (not_lt.mpr hx)
  · exact heven

variable [IsStrictOrderedRing K]

theorem InCell.unique (hm : InCell m x) (hn : InCell n x) : m = n := by
  wlog hlt : m < n generalizing m n
  · rcases (not_lt.mp hlt).eq_or_lt with heq | hgt
    · exact heq.symm
    · exact (this hn hm hgt).symm
  have hsucc : (m : K) + 1 ≤ n := by exact_mod_cast Int.add_one_le_of_lt hlt
  have hxm := abs_le.mp hm.dist_le
  have hxn := abs_le.mp hn.dist_le
  -- the cells touch in one point, which only the even one of two neighbours takes
  have hnext : n = m + 1 := by
    have hle : (n : K) ≤ m + 1 := by linarith
    exact le_antisymm (by exact_mod_cast hle) hlt
  have hmeven : Even m := hm.even_of_le (by rw [le_abs]; left; linarith)
  have hneven : Even n := hn.even_of_le (by rw [le_abs]; right; linarith)
  rw [hnext, Int.even_add_one] at hneven
  exact absurd hmeven hneven

theorem InCell.ends (hx : InCell m x) (hy : InCell m y) (h : 1 ≤ |x - y|) :
    Even m ∧ |x - m| = 1 / 2 ∧ |y - m| = 1 / 2 := by
  have htriangle : |x - y| ≤ |x - m| + |y - m| := by
    rw [abs_sub_comm y]
    exact abs_sub_le x m y
  have hxle := hx.dist_le
  have hyle := hy.dist_le
  refine ⟨hx.even_of_le (by linarith), ?_, ?_⟩
  · exact le_antisymm hxle (by linarith)
  · exact le_antisymm hyle (by linarith)

variable [FloorRing K]

theorem inCell_roundHalfEven (x : K) : InCell (roundHalfEven x) x := by
  have hlow := Int.floor_le x
  have hhigh := Int.lt_floor_add_one x
  unfold roundHalfEven
  split_ifs with hdown hup heven
  · left
    rw [abs_of_nonneg (sub_nonneg.mpr hlow)]
    exact hdown
  · left
    push_cast
    rw [abs_lt]
    constructor <;> linarith
  · right
    refine ⟨Int.even_iff.mpr heven, ?_⟩
    rw [abs_of_nonneg (sub_nonneg.mpr hlow)]
    exact le_antisymm (not_lt.mp hup) (not_lt.mp hdown)
  · right
    refine ⟨Int.even_add_one.mpr (Int.not_even_iff.mpr (by omega)), ?_⟩
    push_cast
    rw [abs_of_nonpos (by linarith)]
    linarith

theorem roundHalfEven_eq_iff : roundHalfEven x = m ↔ InCell m x := by
  constructor
  · rintro rfl
    exact inCell_roundHalfEven x
  · intro h
    exact (inCell_roundHalfEven x).unique h

theorem roundHalfEven_eq_roundHalfEven_iff :
    roundHalfEven x = roundHalfEven y ↔ ∃ m : ℤ, InCell m x ∧ InCell m y := by
  constructor
  · intro h
    exact ⟨roundHalfEven x, inCell_roundHalfEven x, roundHalfEven_eq_iff.mp h.symm⟩
  · rintro ⟨m, hx, hy⟩
    rw [roundHalfEven_eq_iff.mpr hx, roundHalfEven_eq_iff.mpr hy]

theorem roundHalfEven_mono (h : x ≤ y) : roundHalfEven x ≤ roundHalfEven y := by
  rcases h.eq_or_lt with rfl | hlt
  · exact le_rfl
  · have hx := abs_le.mp (inCell_roundHalfEven x).dist_le
    have hy := abs_le.mp (inCell_roundHalfEven y).dist_le
    have hcast : (roundHalfEven x : K) < roundHalfEven y + 1 := by linarith
    exact Int.lt_add_one_iff.mp (by exact_mod_cast hcast)

end TokensThatSuffice.HalfEven
