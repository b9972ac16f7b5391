import Mathlib.Tactic.Positivity

namespace TokensThatSuffice.WordGrams

variable {α β : Type}

def words (sep : α → Bool) (s : List α) : List (List α) := (s.splitOnP sep).filter (!·.isEmpty)

theorem words_append {sep : α → Bool} {c : α} (hc : sep c = true) (a b : List α) :
    words sep (a ++ c :: b) = words sep a ++ words sep b := by
  rw [words, List.splitOnP_append_cons a b hc, List.filter_append]
  rfl

theorem prefix_append_cons {c : α} {w : List α} (hc : c ∉ w) (a b : List α) : w <+: a ++ c :: b ↔ w <+: a := by
  induction a generalizing w with
  | nil =>
    cases w with
    | nil => simp
    | cons x w =>
      have hne : x ≠ c := fun h => hc (by simp [h])
      simp [List.cons_prefix_cons, hne]
  | cons y a ih =>
    cases w with
    | nil => simp
    | cons x w =>
      rw [List.cons_append, List.cons_prefix_cons, List.cons_prefix_cons, ih (List.not_mem_of_not_mem_cons hc)]

theorem infix_append_cons {c : α} {w : List α} (hc : c ∉ w) (a b : List α) :
    w <:+: a ++ c :: b ↔ w <:+: a ∨ w <:+: b := by
  induction a with
  | nil =>
    have hprefix := prefix_append_cons hc [] b
    rw [List.nil_append] at hprefix ⊢
    rw [List.infix_cons_iff, hprefix, List.prefix_nil, List.infix_nil]
  | cons y a ih =>
    rw [List.cons_append, List.infix_cons_iff, List.infix_cons_iff, ih, ← List.cons_append,
      prefix_append_cons hc, or_assoc]

theorem any_tails_isPrefixOf [DecidableEq α] (w s : List α) : s.tails.any (w.isPrefixOf ·) = true ↔ w <:+: s := by
  simp only [List.any_eq_true, List.mem_tails, List.isPrefixOf_iff_prefix, List.infix_iff_prefix_suffix, and_comm]

theorem splitOnP_pieces (sep : α → Bool) (s : List α) :
    ∃ first rest, s.splitOnP sep = first :: rest ∧ first <+: s ∧ ∀ w ∈ rest, w <:+: s := by
  induction s with
  | nil => exact ⟨[], [], rfl, List.nil_prefix, by simp⟩
  | cons c s ih =>
    obtain ⟨first, rest, hsplit, hfirst, hrest⟩ := ih
    have hlater (w : List α) (hw : w ∈ rest) : w <:+: c :: s := (hrest w hw).trans (List.suffix_cons c s).isInfix
    rw [List.splitOnP_cons_eq_if_modifyHead, hsplit]
    split_ifs
    · refine ⟨[], first :: rest, rfl, List.nil_prefix, ?_⟩
      intro w hw
      rcases List.mem_cons.mp hw with rfl | hw
      · exact hfirst.isInfix.trans (List.suffix_cons c s).isInfix
      · exact hlater w hw
    · exact ⟨c :: first, rest, rfl, List.cons_prefix_cons.mpr ⟨rfl, hfirst⟩, hlater⟩

theorem infix_of_mem_words {sep : α → Bool} {s w : List α} (h : w ∈ words sep s) : w <:+: s := by
  obtain ⟨first, rest, hsplit, hfirst, hrest⟩ := splitOnP_pieces sep s
  have hw := List.mem_of_mem_filter h
  rw [hsplit] at hw
  rcases List.mem_cons.mp hw with rfl | hw
  · exact hfirst.isInfix
  · exact hrest w hw

theorem words_of_forall {sep : α → Bool} {s : List α} (hne : s ≠ []) (h : ∀ c ∈ s, sep c = false) :
    words sep s = [s] := by
  rw [words, List.splitOnP_eq_singleton h, List.filter_singleton, List.isEmpty_eq_false_iff.mpr hne]
  rfl

theorem exists_word_of_infix {sep : α → Bool} {w s : List α} (hne : w ≠ []) (hw : ∀ c ∈ w, sep c = false)
    (h : w <:+: s) : ∃ v ∈ words sep s, w <:+: v := by
  induction hlen : s.length using Nat.strong_induction_on generalizing s with
  | h n ih =>
    by_cases hsep : ∃ c ∈ s, sep c = true
    · obtain ⟨c, hc, hsep⟩ := hsep
      obtain ⟨a, b, rfl⟩ := List.append_of_mem hc
      have hcw : c ∉ w := by
        intro hmem
        rw [hw c hmem] at hsep
        cases hsep
      rw [List.length_append, List.length_cons] at hlen
      rw [words_append hsep]
      rcases (infix_append_cons hcw a b).mp h with h | h
      · obtain ⟨v, hv, hwv⟩ := ih a.length (by omega) h rfl
        exact ⟨v, List.mem_append_left _ hv, hwv⟩
      · obtain ⟨v, hv, hwv⟩ := ih b.length (by omega) h rfl
        exact ⟨v, List.mem_append_right _ hv, hwv⟩
    · have hsnone : ∀ c ∈ s, sep c = false := fun c hc => Bool.eq_false_iff.mpr fun hsepc => hsep ⟨c, hc, hsepc⟩
      have hs : s ≠ [] := by
        rintro rfl
        exact hne (List.infix_nil.mp h)
      rw [words_of_forall hs hsnone]
      exact ⟨s, List.mem_singleton_self s, h⟩

theorem exists_key_of_windows {κ : Type} {key : α → κ} {n : ℕ} (hn : 2 ≤ n) {s : List α} (hlong : n ≤ s.length)
    (h : ∀ w, w <:+: s → w.length = n → ∃ k, ∀ x ∈ w, key x = k) : ∃ k, ∀ x ∈ s, key x = k := by
  induction s with
  | nil => exact h [] (List.infix_refl _) (by simp at hlong; omega)
  | cons a s ih =>
    by_cases hs : n ≤ s.length
    · obtain ⟨k, hk⟩ := ih hs fun w hw => h w (hw.trans (List.suffix_cons a s).isInfix)
      obtain ⟨k', hk'⟩ := h ((a :: s).take n) (List.take_prefix n _).isInfix
        (by rw [List.length_take, List.length_cons]; omega)
      obtain ⟨m, rfl⟩ : ∃ m, n = m + 2 := ⟨n - 2, by omega⟩
      cases s with
      | nil => simp at hs
      | cons b s =>
        have hab : key a = key b := by
          rw [hk' a (by simp), hk' b (by simp)]
        refine ⟨k, ?_⟩
        intro x hx
        rcases List.mem_cons.mp hx with rfl | hx
        · rw [hab]
          exact hk b List.mem_cons_self
        · exact hk x hx
    · apply h (a :: s) (List.infix_refl _)
      rw [List.length_cons] at hlong ⊢
      omega

def grams (n : ℕ) (ws : List β) : List (List β) :=
  (List.range (ws.length - n + 1)).map (fun i => (ws.drop i).take n)

theorem mem_grams {n : ℕ} {ws g : List β} (hn : n ≤ ws.length) :
    g ∈ grams n ws ↔ g.length = n ∧ g <:+: ws := by
  rw [grams, List.mem_map]
  constructor
  · rintro ⟨i, hi, rfl⟩
    rw [List.mem_range] at hi
    constructor
    · rw [List.length_take, List.length_drop]
      omega
    · exact (List.take_prefix n _).isInfix.trans (List.drop_suffix i ws).isInfix
  · rintro ⟨hlen, pre, suf, rfl⟩
    refine ⟨pre.length, ?_, ?_⟩
    · rw [List.mem_range]
      simp only [List.length_append]
      omega
    · rw [List.append_assoc, List.drop_left, List.take_left' hlen]

theorem mem_grams_of_length {n : ℕ} {ws g : List β} (hg : g.length = n) : g ∈ grams n ws ↔ g <:+: ws := by
  by_cases hn : n ≤ ws.length
  · rw [mem_grams hn]
    exact and_iff_right hg
  · constructor
    · intro hmem
      obtain ⟨i, -, rfl⟩ := List.mem_map.mp hmem
      rw [List.length_take, List.length_drop] at hg
      omega
    · intro hinfix
      have := hinfix.length_le
      omega

theorem grams_of_infix {n : ℕ} {xs ys : List β} (h : xs <:+: ys) (hn : n ≤ xs.length) {g : List β}
    (hg : g ∈ grams n xs) : g ∈ grams n ys := by
  rw [mem_grams hn] at hg
  rw [mem_grams (hn.trans h.length_le)]
  exact ⟨hg.1, hg.2.trans h⟩

variable [DecidableEq β]

def overlap (n : ℕ) (ss xs : List β) : ℚ :=
  if ss.length < n ∨ xs.length < n then 0
  else ((grams n ss).countP (· ∈ grams n xs) : ℚ) / (grams n ss).length

theorem overlap_le_one (n : ℕ) (ss xs : List β) : overlap n ss xs ≤ 1 := by
  rw [overlap]
  split_ifs
  · exact zero_le_one
  · apply div_le_one_of_le₀
    · exact_mod_cast List.countP_le_length
    · positivity

theorem overlap_nonneg (n : ℕ) (ss xs : List β) : 0 ≤ overlap n ss xs := by
  rw [overlap]
  split_ifs
  · exact le_rfl
  · positivity

theorem overlap_append (n : ℕ) (ss xs more : List β) : overlap n ss xs ≤ overlap n ss (xs ++ more) := by
  by_cases hshort : ss.length < n ∨ xs.length < n
  · rw [overlap, if_pos hshort]
    exact overlap_nonneg n ss (xs ++ more)
  · rw [not_or, not_lt, not_lt] at hshort
    have hlong : ¬ (ss.length < n ∨ (xs ++ more).length < n) := by
      rw [List.length_append]
      omega
    rw [overlap, overlap, if_neg (by omega), if_neg hlong]
    have hcount : (grams n ss).countP (· ∈ grams n xs) ≤ (grams n ss).countP (· ∈ grams n (xs ++ more)) := by
      apply List.countP_mono_left
      intro g _ hg
      simp only [decide_eq_true_eq] at hg ⊢
      exact grams_of_infix (List.prefix_append xs more).isInfix hshort.2 hg
    apply div_le_div_of_nonneg_right
    · exact_mod_cast hcount
    · positivity

theorem overlap_eq_one_iff {n : ℕ} {ss : List β} (hn : n ≤ ss.length) (xs : List β) :
    overlap n ss xs = 1 ↔ ∀ g ∈ grams n ss, g ∈ grams n xs := by
  have hpos : 0 < (grams n ss).length := by
    rw [grams, List.length_map, List.length_range]
    omega
  rw [overlap]
  by_cases hx : xs.length < n
  · rw [if_pos (.inr hx)]
    constructor
    · intro h
      exact absurd h zero_ne_one
    · intro h
      obtain ⟨g, hg⟩ := List.exists_mem_of_length_pos hpos
      have hlen := ((mem_grams hn).mp hg).1
      obtain ⟨i, -, rfl⟩ := List.mem_map.mp (h g hg)
      rw [List.length_take, List.length_drop] at hlen
      omega
  · have hne : ((grams n ss).length : ℚ) ≠ 0 := by
      exact_mod_cast hpos.ne'
    rw [if_neg (by omega), div_eq_one_iff_eq hne]
    norm_cast
    rw [List.countP_eq_length]
    simp only [decide_eq_true_eq]

theorem overlap_eq_one_of_infix {n : ℕ} {ss xs : List β} (hn : n ≤ ss.length) (h : ss <:+: xs) :
    overlap n ss xs = 1 :=
  (overlap_eq_one_iff hn xs).mpr fun _ hg => grams_of_infix h hn hg

end TokensThatSuffice.WordGrams
