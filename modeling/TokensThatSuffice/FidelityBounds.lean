import Mathlib.Analysis.SpecialFunctions.Artanh
import TokensThatSuffice.Means
import TokensThatSuffice.SelfDistortion

namespace TokensThatSuffice

open Means

section Squash

variable {beta : ℝ}

noncomputable def squash (beta d : ℝ) : ℝ := Real.tanh (-d / beta)

theorem abs_squash_lt_one (beta d : ℝ) : |squash beta d| < 1 := Real.abs_tanh_lt_one _

theorem squash_neg (beta d : ℝ) : squash beta (-d) = -squash beta d := by
  rw [squash, squash, ← Real.tanh_neg, neg_div]

theorem squash_strictAnti (hbeta : 0 < beta) : StrictAnti (squash beta) := by
  intro x y h
  have hquotient : -y / beta < -x / beta := div_lt_div_of_pos_right (neg_lt_neg h) hbeta
  rw [← Real.artanh_tanh (-y / beta), ← Real.artanh_tanh (-x / beta)] at hquotient
  exact (Real.strictMonoOn_artanh.lt_iff_lt ⟨Real.neg_one_lt_tanh _, Real.tanh_lt_one _⟩
    ⟨Real.neg_one_lt_tanh _, Real.tanh_lt_one _⟩).mp hquotient

end Squash

section Fidelity

variable {ds : List ℝ} {beta : ℝ}

theorem boundedFidelity_eq_mean (h : ds ≠ []) (beta : ℝ) :
    boundedFidelity Real.tanh ds beta = mean (ds.map (squash beta)) := by
  rw [boundedFidelity, if_neg (mt List.length_eq_zero_iff.mp h), mean, List.length_map]
  rfl

theorem boundedFidelity_bounded (h : ds ≠ []) (beta : ℝ) :
    -1 < boundedFidelity Real.tanh ds beta ∧ boundedFidelity Real.tanh ds beta < 1 := by
  have hmap : ds.map (squash beta) ≠ [] := by rwa [Ne, List.map_eq_nil_iff]
  rw [boundedFidelity_eq_mean h]
  constructor
  · apply lt_mean hmap
    intro y hy
    obtain ⟨d, -, rfl⟩ := List.mem_map.mp hy
    exact (abs_lt.mp (abs_squash_lt_one beta d)).1
  · apply mean_lt hmap
    intro y hy
    obtain ⟨d, -, rfl⟩ := List.mem_map.mp hy
    exact (abs_lt.mp (abs_squash_lt_one beta d)).2

theorem boundedFidelity_perm {ds' : List ℝ} (h : ds.Perm ds') (beta : ℝ) :
    boundedFidelity Real.tanh ds beta = boundedFidelity Real.tanh ds' beta := by
  rw [boundedFidelity, boundedFidelity, h.length_eq, (h.map _).sum_eq]

theorem boundedFidelity_neg (ds : List ℝ) (beta : ℝ) :
    boundedFidelity Real.tanh (ds.map (- ·)) beta = -boundedFidelity Real.tanh ds beta := by
  by_cases h : ds = []
  · subst h
    simp [boundedFidelity]
  · have hneg : ds.map (- ·) ≠ [] := by rwa [Ne, List.map_eq_nil_iff]
    have hmap : (ds.map (- ·)).map (squash beta) = (ds.map (squash beta)).map (- ·) := by
      rw [List.map_map, List.map_map]
      apply List.map_congr_left
      intro d _
      exact squash_neg beta d
    rw [boundedFidelity_eq_mean hneg, boundedFidelity_eq_mean h, hmap, mean, mean, List.length_map,
      ← List.sum_neg, neg_div]

theorem boundedFidelity_set {i : ℕ} (hi : i < ds.length) (x beta : ℝ) :
    boundedFidelity Real.tanh (ds.set i x) beta - boundedFidelity Real.tanh ds beta =
      (squash beta x - squash beta ds[i]) / ds.length := by
  have h : ds ≠ [] := List.ne_nil_of_length_pos (Nat.zero_lt_of_lt hi)
  have hset : ds.set i x ≠ [] := by rwa [Ne, List.set_eq_nil_iff]
  have hi' : i < (ds.map (squash beta)).length := by rwa [List.length_map]
  rw [boundedFidelity_eq_mean hset, boundedFidelity_eq_mean h, List.map_set, mean_set hi']
  simp only [List.getElem_map, List.length_map]

structure BoundedAndRobust (ds : List ℝ) (beta : ℝ) : Prop where
  bounded : -1 < boundedFidelity Real.tanh ds beta ∧ boundedFidelity Real.tanh ds beta < 1
  order_free : ∀ ds', ds.Perm ds' → boundedFidelity Real.tanh ds' beta = boundedFidelity Real.tanh ds beta
  decreasing : ∀ i, ∀ hi : i < ds.length, ∀ x, ds[i] < x →
    boundedFidelity Real.tanh (ds.set i x) beta < boundedFidelity Real.tanh ds beta
  odd : boundedFidelity Real.tanh (ds.map (- ·)) beta = -boundedFidelity Real.tanh ds beta
  influence : ∀ i < ds.length, ∀ x,
    |boundedFidelity Real.tanh (ds.set i x) beta - boundedFidelity Real.tanh ds beta| < 2 / ds.length

theorem boundedFidelity_robust (h : ds ≠ []) (hbeta : 0 < beta) : BoundedAndRobust ds beta where
  bounded := boundedFidelity_bounded h beta
  order_free ds' hperm := (boundedFidelity_perm hperm beta).symm
  decreasing i hi x hx := by
    rw [← sub_neg, boundedFidelity_set hi]
    exact div_neg_of_neg_of_pos (sub_neg.mpr (squash_strictAnti hbeta hx)) (length_pos h)
  odd := boundedFidelity_neg ds beta
  influence i hi x := by
    have hdist : |squash beta x - squash beta ds[i]| < 2 := by
      have hx := abs_squash_lt_one beta x
      have hd := abs_squash_lt_one beta ds[i]
      have htriangle := abs_sub (squash beta x) (squash beta ds[i])
      linarith
    rw [boundedFidelity_set hi, abs_div, abs_of_pos (length_pos h)]
    exact div_lt_div_of_pos_right hdist (length_pos h)

theorem fidelityBounded_mem (py : Python) (server : TextCompletion ℝ) (tokenizer : Tokenizer)
    (model apiBase : String) (xCtx : XContext ℝ) (zMessages : List Message) (tools : Option (List Json))
    {d : Distortion ℝ} (hbeta : 0 < beta)
    (h : computeDistortionMessages py server tokenizer model apiBase Real.tanh xCtx zMessages beta tools =
      .ok (.scored d)) : ∃ f ∈ d.fidelityBounded, -1 < f ∧ f < 1 := by
  obtain ⟨scores, -, h⟩ := bind_eq_ok.mp h
  cases scores with
  | none => cases h
  | some klPerToken =>
    dsimp only at h
    by_cases hlength : klPerToken.length = 0
    · rw [if_pos hlength] at h
      cases h
    · rw [if_neg hlength] at h
      obtain ⟨rendered, -, h⟩ := bind_eq_ok.mp h
      cases h
      refine ⟨_, if_pos hbeta, boundedFidelity_bounded ?_ beta⟩
      exact mt List.length_eq_zero_iff.mpr hlength

end Fidelity

theorem boundedFidelity_robust_pair : BoundedAndRobust [1, -2] (1 / 2) :=
  boundedFidelity_robust (List.cons_ne_nil 1 [-2]) (by norm_num)

end TokensThatSuffice
