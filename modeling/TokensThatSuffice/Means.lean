import Mathlib.Algebra.BigOperators.Ring.List
import Mathlib.Algebra.Order.BigOperators.Group.List
import Mathlib.Algebra.Order.Field.Basic
import Mathlib.Tactic.Ring

namespace TokensThatSuffice.Means

variable {K : Type*} [Field K] {xs : List K} {c : K}

def mean (xs : List K) : K := xs.sum / xs.length

theorem sum_sub (xs : List K) (c : K) : (xs.map (· - c)).sum = xs.sum - xs.length * c := by
  induction xs with
  | nil => simp
  | cons x xs ih =>
    rw [List.map_cons, List.sum_cons, List.sum_cons, List.length_cons, ih]
    push_cast
    ring

theorem sum_div (xs : List K) (c : K) : (xs.map (· / c)).sum = xs.sum / c := by
  simp only [div_eq_mul_inv, List.sum_map_mul_right, List.map_id']

theorem mean_set {i : ℕ} (hi : i < xs.length) (x : K) : mean (xs.set i x) - mean xs = (x - xs[i]) / xs.length := by
  rw [mean, mean, List.sum_set', dif_pos hi, List.length_set, ← sub_div]
  congr 1
  ring

section Centering

variable [CharZero K]

theorem length_ne_zero (h : xs ≠ []) : (xs.length : K) ≠ 0 := by
  rw [Nat.cast_ne_zero]
  exact (List.length_pos_of_ne_nil h).ne'

theorem sum_sub_eq_zero_iff (h : xs ≠ []) : (xs.map (· - c)).sum = 0 ↔ mean xs = c := by
  rw [sum_sub, sub_eq_zero, mean, div_eq_iff (length_ne_zero h), mul_comm]

theorem sum_sub_mean (xs : List K) : (xs.map (· - mean xs)).sum = 0 := by
  by_cases h : xs = []
  · rw [h]
    rfl
  · exact (sum_sub_eq_zero_iff h).mpr rfl

end Centering

section Order

variable [LinearOrder K] [IsStrictOrderedRing K]

theorem length_pos (h : xs ≠ []) : (0 : K) < xs.length := by
  rw [Nat.cast_pos]
  exact List.length_pos_of_ne_nil h

theorem mean_le (h : xs ≠ []) (hle : ∀ x ∈ xs, x ≤ c) : mean xs ≤ c := by
  rw [mean, div_le_iff₀ (length_pos h), mul_comm, ← nsmul_eq_mul]
  exact List.sum_le_card_nsmul xs c hle

theorem le_mean (h : xs ≠ []) (hle : ∀ x ∈ xs, c ≤ x) : c ≤ mean xs := by
  rw [mean, le_div_iff₀ (length_pos h), mul_comm, ← nsmul_eq_mul]
  exact List.card_nsmul_le_sum xs c hle

theorem mean_between (h : xs ≠ []) :
    ∃ low ∈ xs, ∃ high ∈ xs, (∀ x ∈ xs, low ≤ x ∧ x ≤ high) ∧ low ≤ mean xs ∧ mean xs ≤ high := by
  obtain ⟨low, hmin⟩ := Option.ne_none_iff_exists'.mp (mt List.min?_eq_none_iff.mp h)
  obtain ⟨high, hmax⟩ := Option.ne_none_iff_exists'.mp (mt List.max?_eq_none_iff.mp h)
  obtain ⟨hlow, hlow_le⟩ := List.min?_eq_some_iff.mp hmin
  obtain ⟨hhigh, hle_high⟩ := List.max?_eq_some_iff.mp hmax
  exact ⟨low, hlow, high, hhigh, fun x hx => ⟨hlow_le x hx, hle_high x hx⟩, le_mean h hlow_le, mean_le h hle_high⟩

theorem mean_lt (h : xs ≠ []) (hlt : ∀ x ∈ xs, x < c) : mean xs < c := by
  have hsum := List.sum_lt_sum_of_ne_nil h (fun x => x) (fun _ => c) hlt
  rw [List.map_id', List.map_const', List.sum_replicate, nsmul_eq_mul] at hsum
  rw [mean, div_lt_iff₀ (length_pos h), mul_comm]
  exact hsum

theorem lt_mean (h : xs ≠ []) (hlt : ∀ x ∈ xs, c < x) : c < mean xs := by
  have hsum := List.sum_lt_sum_of_ne_nil h (fun _ => c) (fun x => x) hlt
  rw [List.map_id', List.map_const', List.sum_replicate, nsmul_eq_mul] at hsum
  rw [mean, lt_div_iff₀ (length_pos h), mul_comm]
  exact hsum

end Order

end TokensThatSuffice.Means
