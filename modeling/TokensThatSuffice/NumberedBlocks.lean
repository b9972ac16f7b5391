import Mathlib.Data.List.Basic

namespace TokensThatSuffice.NumberedBlocks

variable {α ε : Type*} {block : ℕ → α → List ε} {mark : ℕ → ε}

def unroll (block : ℕ → α → List ε) : ℕ → List α → List ε
  | _, [] => []
  | i, u :: us => block i u ++ unroll block (i + 1) us

theorem foldl_eq_unroll {f : ℕ × List ε → α → ℕ × List ε} {i : ℕ}
    (hf : ∀ k, i ≤ k → ∀ out u, f (k, out) u = (k + 1, out ++ block k u)) (us : List α) (out : List ε) :
    us.foldl f (i, out) = (i + us.length, out ++ unroll block i us) := by
  induction us generalizing i out with
  | nil => simp [unroll]
  | cons u us ih =>
    have hnext : i + 1 + us.length = i + (us.length + 1) := by omega
    rw [List.foldl_cons, hf i (Nat.le_refl i), ih fun k hk => hf k (by omega), unroll, List.append_assoc,
      List.length_cons, hnext]

theorem filterMap_unroll {β : Type*} {f : ε → Option β} {block' : ℕ → α → List β}
    (h : ∀ i u, (block i u).filterMap f = block' i u) (i : ℕ) (us : List α) :
    (unroll block i us).filterMap f = unroll block' i us := by
  induction us generalizing i with
  | nil => rfl
  | cons u us ih => rw [unroll, List.filterMap_append, h, ih, unroll]

theorem unroll_map {β : Type*} (f : β → α) (i : ℕ) (us : List β) :
    unroll (fun i u => block i (f u)) i us = unroll block i (us.map f) := by
  induction us generalizing i with
  | nil => rfl
  | cons u us ih => rw [unroll, ih, List.map_cons, unroll]

theorem mem_unroll {us : List α} {i : ℕ} {e : ε} (h : e ∈ unroll block i us) : ∃ j, ∃ u ∈ us, e ∈ block j u := by
  induction us generalizing i with
  | nil => cases h
  | cons u us ih =>
    rcases List.mem_append.mp h with hu | hus
    · exact ⟨i, u, List.mem_cons_self, hu⟩
    · obtain ⟨j, v, hv, he⟩ := ih hus
      exact ⟨j, v, List.mem_cons_of_mem u hv, he⟩

theorem flatMap_unroll_sublist {β : Type*} {f : ε → List β} {g : α → List β} {us : List α}
    (h : ∀ i, ∀ u ∈ us, ((block i u).flatMap f).Sublist (g u)) (i : ℕ) :
    ((unroll block i us).flatMap f).Sublist (us.flatMap g) := by
  induction us generalizing i with
  | nil => exact .slnil
  | cons u us ih =>
    rw [unroll, List.flatMap_append, List.flatMap_cons]
    exact (h i u List.mem_cons_self).append (ih (fun i v hv => h i v (List.mem_cons_of_mem u hv)) (i + 1))

theorem unroll_append (i : ℕ) (us vs : List α) :
    unroll block i (us ++ vs) = unroll block i us ++ unroll block (i + us.length) vs := by
  induction us generalizing i with
  | nil => rfl
  | cons u us ih =>
    have hnext : i + 1 + us.length = i + (us.length + 1) := by omega
    rw [List.cons_append, unroll, ih, unroll, List.append_assoc, List.length_cons, hnext]

theorem unroll_split (hmark : ∀ i u k a b, block i u = a ++ mark k :: b → a = [] ∧ k = i) {us : List α} {i k : ℕ}
    {pre post : List ε} (h : unroll block i us = pre ++ mark k :: post) :
    ∃ done rest, us = done ++ rest ∧ k = i + done.length ∧ pre = unroll block i done := by
  induction us generalizing i pre with
  | nil =>
    rw [unroll] at h
    exact absurd h.symm (by simp)
  | cons u us ih =>
    rw [unroll] at h
    have hnext (pre' : List ε) (h' : unroll block (i + 1) us = pre' ++ mark k :: post)
        (hpre : pre = block i u ++ pre') :
        ∃ done rest, u :: us = done ++ rest ∧ k = i + done.length ∧ pre = unroll block i done := by
      obtain ⟨done, rest, hus, hk, hdone⟩ := ih h'
      refine ⟨u :: done, rest, by rw [hus, List.cons_append], ?_, by rw [hpre, hdone, unroll]⟩
      rw [List.length_cons]
      omega
    rcases List.append_eq_append_iff.mp h with ⟨mid, hpre, hrest⟩ | ⟨mid, hblock, hrest⟩
    · exact hnext mid hrest hpre
    · cases mid with
      | nil =>
        rw [List.append_nil] at hblock
        apply hnext [] hrest.symm
        rw [hblock, List.append_nil]
      | cons e mid =>
        rw [List.cons_append, List.cons.injEq] at hrest
        rw [← hrest.1] at hblock
        obtain ⟨rfl, rfl⟩ := hmark i u k pre mid hblock
        exact ⟨[], u :: us, rfl, rfl, rfl⟩

def sift (p : ℕ → α → Bool) : ℕ → List α → List α := unroll fun i u => if p i u then [u] else []

section Sift

variable {p q : ℕ → α → Bool} {us : List α}

theorem sift_cons (i : ℕ) (u : α) :
    sift p i (u :: us) = if p i u then u :: sift p (i + 1) us else sift p (i + 1) us := by
  unfold sift
  rw [unroll]
  split_ifs <;> rfl

theorem mem_of_mem_sift {i : ℕ} {u : α} (h : u ∈ sift p i us) : u ∈ us := by
  induction us generalizing i with
  | nil => exact h
  | cons v us ih =>
    rw [sift_cons] at h
    split_ifs at h
    · rcases List.mem_cons.mp h with rfl | h
      · exact List.mem_cons_self
      · apply List.mem_cons_of_mem
        exact ih h
    · apply List.mem_cons_of_mem
      exact ih h

theorem sift_eq_self (h : ∀ i u, p i u = true) (i : ℕ) : sift p i us = us := by
  induction us generalizing i with
  | nil => rfl
  | cons u us ih => rw [sift_cons, if_pos (h i u), ih]

theorem sift_congr {i j : ℕ} (h : ∀ n u, us[n]? = some u → p (i + n) u = q (j + n) u) :
    sift p i us = sift q j us := by
  induction us generalizing i j with
  | nil => rfl
  | cons u us ih =>
    have hhead := h 0 u rfl
    have htail : sift p (i + 1) us = sift q (j + 1) us := by
      apply ih
      intro n v hv
      have hnext := h (n + 1) v hv
      rwa [Nat.add_assoc, Nat.add_assoc, Nat.add_comm 1]
    rw [Nat.add_zero, Nat.add_zero] at hhead
    rw [sift_cons, sift_cons, hhead, htail]

theorem sift_eq_iff (hus : us.Nodup) {i j : ℕ} :
    sift p i us = sift q j us ↔ ∀ n u, us[n]? = some u → p (i + n) u = q (j + n) u := by
  refine ⟨?_, sift_congr⟩
  intro h
  induction us generalizing i j with
  | nil =>
    intro n u hu
    cases hu
  | cons v us ih =>
    obtain ⟨hv, hus⟩ := List.nodup_cons.mp hus
    have hhead : p i v = q j v := by
      rw [sift_cons, sift_cons] at h
      by_cases hp : p i v = true
      · by_cases hq : q j v = true
        · rw [hp, hq]
        · rw [if_pos hp, if_neg hq] at h
          apply absurd _ hv
          apply mem_of_mem_sift
          rw [← h]
          exact List.mem_cons_self
      · by_cases hq : q j v = true
        · rw [if_neg hp, if_pos hq] at h
          apply absurd _ hv
          apply mem_of_mem_sift
          rw [h]
          exact List.mem_cons_self
        · rw [Bool.not_eq_true] at hp hq
          rw [hp, hq]
    have htail : sift p (i + 1) us = sift q (j + 1) us := by
      rw [sift_cons, sift_cons, hhead] at h
      split_ifs at h
      · exact (List.cons.inj h).2
      · exact h
    intro n u hu
    cases n with
    | zero =>
      cases hu
      exact hhead
    | succ n =>
      have hnext := ih hus htail n u hu
      rwa [Nat.add_assoc, Nat.add_assoc, Nat.add_comm 1] at hnext

theorem sift_drop (k i : ℕ) (us : List α) :
    sift p (i + k) (us.drop k) = sift (fun m u => decide (i + k ≤ m) && p m u) i us := by
  induction k generalizing i us with
  | zero =>
    apply sift_congr
    intro n u _
    simp
  | succ k ih =>
    cases us with
    | nil => rfl
    | cons u us =>
      have hbefore : ¬ i + (k + 1) ≤ i := by omega
      have hskip : ¬ (decide (i + (k + 1) ≤ i) && p i u) = true := by simp [hbefore]
      have hnext : i + (k + 1) = i + 1 + k := by omega
      rw [sift_cons, if_neg hskip, List.drop_succ_cons, hnext]
      exact ih (i + 1) us

end Sift

end TokensThatSuffice.NumberedBlocks
