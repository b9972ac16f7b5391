import Mathlib.Algebra.Order.Monoid.Canonical.Defs
import Mathlib.Algebra.BigOperators.Group.List.Basic
import Mathlib.Order.Bounds.Basic

namespace TokensThatSuffice.PrefixSums

variable {M : Type*} [AddMonoid M] {xs : List M} {p : M → Bool} {j k : ℕ} {s total : M}

def sumsFrom (k : ℕ) (total : M) : List M → List (ℕ × M)
  | [] => []
  | x :: xs => (k + 1, total + x) :: sumsFrom (k + 1) (total + x) xs

def sums (xs : List M) : List (ℕ × M) := sumsFrom 0 0 xs

theorem mem_sumsFrom :
    (j, s) ∈ sumsFrom k total xs ↔ ∃ i, i < xs.length ∧ j = k + i + 1 ∧ s = total + (xs.take (i + 1)).sum := by
  induction xs generalizing k total with
  | nil => simp [sumsFrom]
  | cons x xs ih =>
    rw [sumsFrom, List.mem_cons, ih]
    constructor
    · rintro (heq | ⟨i, hi, rfl, rfl⟩)
      · obtain ⟨rfl, rfl⟩ := Prod.mk.inj heq
        exact ⟨0, Nat.succ_pos _, rfl, by simp⟩
      · refine ⟨i + 1, Nat.succ_lt_succ hi, by omega, ?_⟩
        rw [List.take_succ_cons, List.sum_cons, add_assoc]
    · rintro ⟨i, hi, rfl, rfl⟩
      cases i with
      | zero => exact .inl (by simp)
      | succ i =>
        refine .inr ⟨i, Nat.lt_of_succ_lt_succ hi, by omega, ?_⟩
        rw [List.take_succ_cons, List.sum_cons, add_assoc]

theorem mem_sums : (j, s) ∈ sums xs ↔ 1 ≤ j ∧ j ≤ xs.length ∧ s = (xs.take j).sum := by
  rw [sums, mem_sumsFrom]
  constructor
  · rintro ⟨i, hi, rfl, rfl⟩
    exact ⟨by omega, by omega, by rw [Nat.zero_add, zero_add]⟩
  · rintro ⟨hpos, hle, rfl⟩
    obtain ⟨i, rfl⟩ : ∃ i, j = i + 1 := ⟨j - 1, by omega⟩
    exact ⟨i, by omega, by omega, by rw [zero_add]⟩

theorem sumsFrom_pairwise {r : ℕ × M → ℕ × M → Prop}
    (hr : ∀ k total n more, k < n → r (k, total) (n, total + more)) (k : ℕ) (total : M) (xs : List M) :
    (sumsFrom k total xs).Pairwise r := by
  induction xs generalizing k total with
  | nil => exact .nil
  | cons x xs ih =>
    rw [sumsFrom, List.pairwise_cons]
    refine ⟨?_, ih _ _⟩
    rintro ⟨j, s⟩ hb
    obtain ⟨i, -, rfl, rfl⟩ := mem_sumsFrom.mp hb
    exact hr _ _ _ _ (by omega)

theorem sums_numbered (xs : List M) : (sums xs).Pairwise (fun a b => a.1 < b.1) :=
  sumsFrom_pairwise (fun _ _ _ _ hlt => hlt) 0 0 xs

section First

variable {α : Type*} {l : List α} {q : α → Bool} {key : α → ℕ}

theorem find?_eq_some_iff_first (hl : l.Pairwise (fun a b => key a < key b)) {a : α} :
    l.find? q = some a ↔ a ∈ l ∧ q a = true ∧ ∀ b ∈ l, q b = true → key a ≤ key b := by
  induction l with
  | nil => simp
  | cons c l ih =>
    rw [List.pairwise_cons] at hl
    by_cases hc : q c = true
    · rw [List.find?_cons_of_pos hc]
      constructor
      · intro heq
        obtain rfl := Option.some.inj heq
        refine ⟨by simp, hc, ?_⟩
        intro b hb _
        rcases List.mem_cons.mp hb with rfl | hb
        · exact le_rfl
        · exact (hl.1 b hb).le
      · rintro ⟨ha, -, hfirst⟩
        rcases List.mem_cons.mp ha with rfl | ha
        · rfl
        · have hle := hfirst c (by simp) hc
          have hlt := hl.1 a ha
          omega
    · rw [List.find?_cons_of_neg hc, ih hl.2]
      constructor
      · rintro ⟨ha, hqa, hfirst⟩
        refine ⟨List.mem_cons_of_mem c ha, hqa, ?_⟩
        intro b hb hqb
        rcases List.mem_cons.mp hb with rfl | hb
        · exact absurd hqb hc
        · exact hfirst b hb hqb
      · rintro ⟨ha, hqa, hfirst⟩
        rcases List.mem_cons.mp ha with rfl | ha
        · exact absurd hqa hc
        · exact ⟨ha, hqa, fun b hb => hfirst b (List.mem_cons_of_mem c hb)⟩

theorem takeWhile_eq_filter (hl : l.Pairwise (fun a b => q b = true → q a = true)) : l.takeWhile q = l.filter q := by
  induction l with
  | nil => rfl
  | cons c l ih =>
    rw [List.pairwise_cons] at hl
    by_cases hc : q c = true
    · rw [List.takeWhile_cons_of_pos hc, List.filter_cons_of_pos hc, ih hl.2]
    · rw [List.takeWhile_cons_of_neg hc, List.filter_cons_of_neg hc, eq_comm, List.filter_eq_nil_iff]
      intro b hb hqb
      exact hc (hl.1 b hb hqb)

end First

def Reaches (p : M → Bool) (xs : List M) (j : ℕ) : Prop := 1 ≤ j ∧ j ≤ xs.length ∧ p (xs.take j).sum = true

theorem find?_sums_eq_some :
    (sums xs).find? (fun a => p a.2) = some (j, s) ↔ IsLeast {j | Reaches p xs j} j ∧ s = (xs.take j).sum := by
  rw [find?_eq_some_iff_first (sums_numbered xs), mem_sums]
  constructor
  · rintro ⟨⟨hpos, hle, rfl⟩, hp, hfirst⟩
    refine ⟨⟨⟨hpos, hle, hp⟩, ?_⟩, rfl⟩
    rintro i ⟨hi, hile, hpi⟩
    exact hfirst (i, _) (mem_sums.mpr ⟨hi, hile, rfl⟩) hpi
  · rintro ⟨⟨⟨hpos, hle, hp⟩, hfirst⟩, rfl⟩
    refine ⟨⟨hpos, hle, rfl⟩, hp, ?_⟩
    rintro ⟨i, t⟩ hi hpi
    obtain ⟨hone, hile, rfl⟩ := mem_sums.mp hi
    exact hfirst ⟨hone, hile, hpi⟩

theorem find?_sums_eq_none : (sums xs).find? (fun a => p a.2) = none ↔ ∀ j, ¬ Reaches p xs j := by
  rw [List.find?_eq_none]
  constructor
  · rintro h j ⟨hpos, hle, hp⟩
    exact h (j, _) (mem_sums.mpr ⟨hpos, hle, rfl⟩) hp
  · rintro h ⟨j, s⟩ hj hp
    obtain ⟨hpos, hle, rfl⟩ := mem_sums.mp hj
    exact h j ⟨hpos, hle, hp⟩

section Ordered

variable [PartialOrder M] [CanonicallyOrderedAdd M]

theorem sumsFrom_sorted (k : ℕ) (total : M) (xs : List M) :
    (sumsFrom k total xs).Pairwise (fun a b => a.2 ≤ b.2) :=
  sumsFrom_pairwise (fun _ _ _ _ _ => le_self_add) k total xs

theorem sum_take_mono (h : j ≤ k) : (xs.take j).sum ≤ (xs.take k).sum := by
  obtain ⟨more, hmore⟩ : xs.take j <+: xs.take k := List.take_prefix_take_left h
  rw [← hmore, List.sum_append]
  exact le_self_add

theorem le_longest_iff {P : M → Prop} (hP : ∀ a b : M, a ≤ b → P b → P a)
    (hj : IsGreatest {j | j ≤ xs.length ∧ P (xs.take j).sum} j) (hk : k ≤ xs.length) :
    k ≤ j ↔ P (xs.take k).sum := by
  constructor
  · exact fun hle => hP _ _ (sum_take_mono hle) hj.1.2
  · exact fun hsum => hj.2 ⟨hk, hsum⟩

theorem takeWhile_sums (hp : ∀ a b : M, a ≤ b → p b = true → p a = true) :
    (sums xs).takeWhile (fun a => p a.2) = (sums xs).filter (fun a => p a.2) := by
  apply takeWhile_eq_filter
  exact (sumsFrom_sorted 0 0 xs).imp fun h => hp _ _ h

theorem takeWhile_sumsFrom_longest (hp : ∀ a b : M, a ≤ b → p b = true → p a = true) (k : ℕ) (total : M)
    (xs : List M) {n : ℕ} (hn : n = ((sumsFrom k total xs).takeWhile (fun a => p a.2)).length) :
    n ≤ xs.length ∧ ∀ i, 1 ≤ i → i ≤ xs.length → (p (total + (xs.take i).sum) = true ↔ i ≤ n) := by
  induction xs generalizing k total n with
  | nil =>
    subst hn
    refine ⟨Nat.zero_le _, ?_⟩
    intro i hi hle
    exact absurd hle (by simp only [List.length_nil]; omega)
  | cons x xs ih =>
    rw [sumsFrom] at hn
    by_cases hx : p (total + x) = true
    · rw [List.takeWhile_cons_of_pos (p := fun a : ℕ × M => p a.2) hx, List.length_cons] at hn
      obtain ⟨hle, hiff⟩ := ih (k + 1) (total + x) rfl
      refine ⟨by rw [List.length_cons]; omega, ?_⟩
      intro i hi hile
      obtain ⟨i, rfl⟩ : ∃ i', i = i' + 1 := ⟨i - 1, by omega⟩
      rw [List.take_succ_cons, List.sum_cons, ← add_assoc]
      rw [List.length_cons] at hile
      cases i with
      | zero =>
        rw [List.take_zero, List.sum_nil, add_zero]
        exact ⟨fun _ => by omega, fun _ => hx⟩
      | succ i =>
        rw [hiff (i + 1) (by omega) (by omega)]
        omega
    · rw [List.takeWhile_cons_of_neg (p := fun a : ℕ × M => p a.2) hx, List.length_nil] at hn
      refine ⟨by omega, ?_⟩
      intro i hi hile
      obtain ⟨i, rfl⟩ : ∃ i', i = i' + 1 := ⟨i - 1, by omega⟩
      rw [List.take_succ_cons, List.sum_cons, ← add_assoc]
      constructor
      · intro hpi
        exact absurd (hp _ _ le_self_add hpi) hx
      · intro hle
        omega

end Ordered

end TokensThatSuffice.PrefixSums
