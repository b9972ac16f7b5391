import Mathlib.Data.List.Infix

namespace TokensThatSuffice.Lowercase

/-- What the Unicode character database says of single characters. -/
structure CaseData where
  lowerChar : Char → List Char
  cased : Char → Bool
  ignorable : Char → Bool

variable (u : CaseData)

def step (before : Bool) (c : Char) : Bool := if u.ignorable c then before else u.cased c

def scan (before : Bool) (s : List Char) : Bool := s.foldl (step u) before

def casedNext (next : Bool) : List Char → Bool
  | [] => next
  | c :: s => if u.ignorable c then casedNext next s else u.cased c

/-- Lower-casing by characters, but for the sigma, which is final after a cased character and before none. -/
def lowerFrom (before next : Bool) : List Char → List Char
  | [] => []
  | c :: s =>
    (if c = 'Σ' then [if before && !casedNext u next s then 'ς' else 'σ'] else u.lowerChar c) ++
      lowerFrom (step u before c) next s

def lower (s : List Char) : List Char := lowerFrom u false false s

def Stable (c : Char) : Prop := c ≠ 'Σ' ∧ u.lowerChar c = [c]

structure CaseData.Lawful : Prop where
  stable : ∀ c, c ≠ 'Σ' → ∀ d ∈ u.lowerChar c, Stable u d
  nonempty : ∀ c, u.lowerChar c ≠ []
  scan_lowerChar : ∀ before c, scan u before (u.lowerChar c) = step u before c
  ignorable_lowerChar : ∀ c, u.ignorable c = true → ∀ d ∈ u.lowerChar c, u.ignorable d = true
  letters : ∀ c ∈ ['a', 'ς', 'σ', 'Σ'], u.cased c = true ∧ u.ignorable c = false
  stable_letters : ∀ c ∈ ['a', 'ς', 'σ'], Stable u c
  separators : ∀ c ∈ [' ', '0'], Stable u c ∧ u.ignorable c = false

def Losable (e : List Char) : Prop :=
  ∃ x y, e = x ++ 'ς' :: y ∧ scan u true x = true ∧ ∀ c ∈ y, u.ignorable c = true

variable {u}

theorem scan_append (before : Bool) (s t : List Char) : scan u before (s ++ t) = scan u (scan u before s) t :=
  List.foldl_append

theorem scan_cons (before : Bool) (c : Char) (s : List Char) :
    scan u before (c :: s) = scan u (step u before c) s := rfl

theorem scan_true {before : Bool} {s : List Char} (h : scan u before s = true) : scan u true s = true := by
  induction s generalizing before with
  | nil => rfl
  | cons c s ih =>
    rw [scan_cons] at h ⊢
    by_cases hc : u.ignorable c = true
    · have hstep (b : Bool) : step u b c = b := if_pos hc
      rw [hstep] at h ⊢
      exact ih h
    · have hstep (b : Bool) : step u b c = u.cased c := if_neg hc
      rwa [hstep] at h ⊢

theorem casedNext_append (next : Bool) (s t : List Char) :
    casedNext u next (s ++ t) = casedNext u (casedNext u next t) s := by
  induction s with
  | nil => rfl
  | cons c s ih => rw [List.cons_append, casedNext, casedNext, ih]

theorem casedNext_ignorable {next : Bool} {s : List Char} (h : ∀ c ∈ s, u.ignorable c = true) :
    casedNext u next s = next := by
  induction s with
  | nil => rfl
  | cons c s ih =>
    rw [casedNext, if_pos (h c (by simp))]
    exact ih fun d hd => h d (by simp [hd])

theorem casedNext_const (s : List Char) :
    (∀ c ∈ s, u.ignorable c = true) ∨ casedNext u true s = casedNext u false s := by
  induction s with
  | nil => simp
  | cons c s ih =>
    by_cases hc : u.ignorable c = true
    · rw [casedNext, casedNext, if_pos hc, if_pos hc, List.forall_mem_cons]
      exact ih.imp_left fun h => ⟨hc, h⟩
    · rw [casedNext, casedNext, if_neg hc, if_neg hc]
      exact .inr rfl

theorem lowerFrom_append (before next : Bool) (s t : List Char) :
    lowerFrom u before next (s ++ t) =
      lowerFrom u before (casedNext u next t) s ++ lowerFrom u (scan u before s) next t := by
  induction s generalizing before with
  | nil => rfl
  | cons c s ih =>
    rw [List.cons_append, lowerFrom, lowerFrom, ih, casedNext_append, scan_cons, List.append_assoc]

theorem lowerFrom_stable {before next : Bool} {s : List Char} (h : ∀ c ∈ s, Stable u c) :
    lowerFrom u before next s = s := by
  induction s generalizing before with
  | nil => rfl
  | cons c s ih =>
    obtain ⟨hsigma, hc⟩ := h c (by simp)
    rw [lowerFrom, if_neg hsigma, hc, ih fun d hd => h d (by simp [hd])]
    rfl

theorem infix_append_cons_cases {α : Type} {e a b : List α} {c : α} (h : e <:+: a ++ c :: b) :
    e <:+: a ∨ e <:+: b ∨ ∃ x y, e = x ++ c :: y ∧ x <:+ a ∧ y <+: b := by
  rw [List.infix_append_iff, List.infix_cons_iff] at h
  rcases h with hleft | (hfront | hright) | ⟨x, y, rfl, hback, hfront⟩
  · exact .inl hleft
  · rcases List.prefix_cons_iff.mp hfront with rfl | ⟨y, rfl, hy⟩
    · exact .inl List.nil_infix
    · exact .inr (.inr ⟨[], y, rfl, List.nil_suffix, hy⟩)
  · exact .inr (.inl hright)
  · rcases List.prefix_cons_iff.mp hfront with rfl | ⟨y, rfl, hy⟩
    · rw [List.append_nil]
      exact .inl hback.isInfix
    · exact .inr (.inr ⟨x, y, rfl, hback, hy⟩)

theorem lowerFrom_next (before next : Bool) (s : List Char) :
    lowerFrom u before next s = lowerFrom u before false s ∨
      next = true ∧ ∃ x y, s = x ++ 'Σ' :: y ∧ scan u before x = true ∧ ∀ c ∈ y, u.ignorable c = true := by
  cases next with
  | false => exact .inl rfl
  | true =>
    induction s generalizing before with
    | nil => exact .inl rfl
    | cons c s ih =>
      rcases ih (step u before c) with hsame | ⟨-, x, y, rfl, hscan, hy⟩
      · rw [lowerFrom, lowerFrom, hsame]
        rcases casedNext_const (u := u) s with hignorable | hconst
        · by_cases hsigma : c = 'Σ' ∧ before = true
          · exact .inr ⟨rfl, [], s, by rw [hsigma.1]; rfl, hsigma.2, hignorable⟩
          · rw [not_and, Bool.not_eq_true] at hsigma
            by_cases hc : c = 'Σ'
            · rw [hsigma hc]
              exact .inl rfl
            · rw [if_neg hc, if_neg hc]
              exact .inl rfl
        · rw [hconst]
          exact .inl rfl
      · exact .inr ⟨rfl, c :: x, y, rfl, hscan, hy⟩

section Laws

variable (hu : u.Lawful)

include hu

theorem sigma_letter : u.cased 'Σ' = true ∧ u.ignorable 'Σ' = false := hu.letters 'Σ' (by decide)

theorem lowerFrom_ignorable {before next : Bool} {s : List Char} (h : ∀ c ∈ s, u.ignorable c = true) :
    lowerFrom u before next s = s.flatMap u.lowerChar := by
  induction s generalizing before with
  | nil => rfl
  | cons c s ih =>
    have hsigma : c ≠ 'Σ' := by
      rintro rfl
      have hc := h 'Σ' (by simp)
      rw [(sigma_letter hu).2] at hc
      cases hc
    rw [lowerFrom, if_neg hsigma, ih fun d hd => h d (by simp [hd]), List.flatMap_cons]

theorem scan_lowerFrom (before next : Bool) (s : List Char) :
    scan u before (lowerFrom u before next s) = scan u before s := by
  have hletter {c : Char} (hc : c ∈ ['a', 'ς', 'σ', 'Σ']) (b : Bool) : step u b c = true := by
    rw [step, if_neg (by simp [(hu.letters c hc).2]), (hu.letters c hc).1]
  induction s generalizing before with
  | nil => rfl
  | cons c s ih =>
    rw [lowerFrom, scan_append, scan_cons, ← ih (step u before c)]
    congr 1
    split_ifs with hsigma hfinal
    · rw [hsigma, scan_cons, hletter (by decide), hletter (by decide)]
      rfl
    · rw [hsigma, scan_cons, hletter (by decide), hletter (by decide)]
      rfl
    · exact hu.scan_lowerChar before c

theorem lowerFrom_sigma {before next : Bool} {x y : List Char} (hbefore : scan u before x = true)
    (hy : ∀ c ∈ y, u.ignorable c = true) :
    lowerFrom u before next (x ++ 'Σ' :: y) =
      lowerFrom u before true x ++ (if next then 'σ' else 'ς') :: y.flatMap u.lowerChar := by
  have hnext : casedNext u next ('Σ' :: y) = true := by
    rw [casedNext, if_neg (by simp [(sigma_letter hu).2]), (sigma_letter hu).1]
  rw [lowerFrom_append, hnext, hbefore, lowerFrom, if_pos rfl, casedNext_ignorable hy, lowerFrom_ignorable hu hy]
  cases next <;> rfl

theorem stable_lower {before next : Bool} {s : List Char} : ∀ d ∈ lowerFrom u before next s, Stable u d := by
  induction s generalizing before with
  | nil => simp [lowerFrom]
  | cons c s ih =>
    intro d hd
    rw [lowerFrom] at hd
    rcases List.mem_append.mp hd with hd | hd
    · split_ifs at hd with hsigma hfinal
      · exact List.mem_singleton.mp hd ▸ hu.stable_letters 'ς' (by decide)
      · exact List.mem_singleton.mp hd ▸ hu.stable_letters 'σ' (by decide)
      · exact hu.stable c hsigma d hd
    · exact ih d hd

theorem lower_eq_nil_iff {s : List Char} : lower u s = [] ↔ s = [] := by
  cases s with
  | nil => simp [lower, lowerFrom]
  | cons c s =>
    have hhead := hu.nonempty c
    rw [lower, lowerFrom, List.append_eq_nil_iff]
    split_ifs <;> simp [hhead]

theorem infix_lower_append {e : List Char} (he : ¬ Losable u e) {s : List Char} (h : e <:+: lower u s)
    (t : List Char) :
    e <:+: lower u (s ++ t) := by
  rw [lower, lowerFrom_append]
  apply List.infix_append_of_infix_left
  rcases lowerFrom_next (u := u) false (casedNext u false t) s with hsame | ⟨hnext, x, y, rfl, hscan, hy⟩
  · rw [hsame]
    exact h
  · rw [lower, lowerFrom_sigma hu hscan hy] at h
    rw [lowerFrom_sigma hu hscan hy]
    rcases infix_append_cons_cases h with hleft | hright | ⟨e₁, e₂, rfl, hback, hfront⟩
    · exact List.infix_append_of_infix_left hleft
    · exact List.infix_append_of_infix_right (List.infix_cons hright)
    · refine absurd ⟨e₁, e₂, rfl, ?_, ?_⟩ he
      · obtain ⟨z, hz⟩ := hback
        have hlower := scan_lowerFrom hu false true x
        rw [← hz, scan_append, hscan] at hlower
        exact scan_true hlower
      · intro d hd
        obtain ⟨c, hc, hdc⟩ := List.mem_flatMap.mp (hfront.subset hd)
        exact hu.ignorable_lowerChar c (hy c hc) d hdc

end Laws

section Separated

variable {α : Type} {e x y : List α} {z : α} {n : ℕ}

theorem infix_separated (hhead : e.head? ≠ some z) (hlast : e.getLast? ≠ some z) (hn : e.length ≤ n)
    (h : e <:+: x ++ (List.replicate n z ++ y)) : e <:+: x ∨ e <:+: y := by
  have hrun {e' : List α} (hne : e' ≠ []) (hz : ∀ c ∈ e', c = z) : e'.head? = some z ∧ e'.getLast? = some z := by
    rw [List.head?_eq_some_head hne, List.getLast?_eq_some_getLast hne, hz _ (List.head_mem hne),
      hz _ (List.getLast_mem hne)]
    exact ⟨rfl, rfl⟩
  have hmem {e' : List α} (hsub : e' ⊆ List.replicate n z) : ∀ c ∈ e', c = z :=
    fun c hc => List.eq_of_mem_replicate (hsub hc)
  rw [List.infix_append_iff_ne_nil] at h
  rcases h with hleft | hright | ⟨l, r, -, hr, rfl, -, hfront⟩
  · exact .inl hleft
  · rw [List.infix_append_iff_ne_nil] at hright
    rcases hright with hrun' | hright | ⟨l, r, hl, -, rfl, hback, -⟩
    · by_cases hne : e = []
      · rw [hne]
        exact .inl List.nil_infix
      · exact absurd (hrun hne (hmem hrun'.subset)).1 hhead
    · exact .inr hright
    · rw [List.head?_append_of_ne_nil _ hl] at hhead
      exact absurd (hrun hl (hmem hback.subset)).1 hhead
  · have hlength : r.length ≤ (List.replicate n z).length := by
      rw [List.length_append] at hn
      rw [List.length_replicate]
      omega
    have hinside := List.prefix_of_prefix_length_le hfront (List.prefix_append _ y) hlength
    rw [List.getLast?_append_of_ne_nil _ hr] at hlast
    exact absurd (hrun hr (hmem hinside.subset)).2 hlast

theorem infix_blocks (hhead : e.head? ≠ some z) (hlast : e.getLast? ≠ some z) (hn : e.length ≤ n)
    {blocks : List (List α)} (hblocks : ∀ b ∈ blocks, ¬ e <:+: b) (hy : ¬ e <:+: y) :
    ¬ e <:+: blocks.flatMap (· ++ List.replicate n z) ++ y := by
  induction blocks with
  | nil => exact hy
  | cons b blocks ih =>
    intro h
    rw [List.flatMap_cons, List.append_assoc, List.append_assoc] at h
    rcases infix_separated hhead hlast hn h with hb | hrest
    · exact hblocks b (by simp) hb
    · exact ih (fun b' hb' => hblocks b' (by simp [hb'])) hrest

end Separated

section Loss

variable (hu : u.Lawful) {x y : List Char}

include hu

theorem exists_separator (hy : ∀ c ∈ y, u.ignorable c = true) :
    ∃ z, Stable u z ∧ (x ++ 'ς' :: y).head? ≠ some z ∧ (x ++ 'ς' :: y).getLast? ≠ some z := by
  have hlast {z : Char} (hz : z ∈ [' ', '0']) : (x ++ 'ς' :: y).getLast? ≠ some z := by
    intro h
    rw [List.getLast?_append_of_ne_nil _ (List.cons_ne_nil _ _)] at h
    rcases List.mem_cons.mp (List.mem_of_getLast? h) with hsigma | hmem
    · rw [hsigma] at hz
      exact absurd hz (by decide)
    · have hignorable := hy z hmem
      rw [(hu.separators z hz).2] at hignorable
      cases hignorable
  by_cases hspace : (x ++ 'ς' :: y).head? = some ' '
  · refine ⟨'0', (hu.separators '0' (by decide)).1, ?_, hlast (by decide)⟩
    rw [hspace]
    decide
  · exact ⟨' ', (hu.separators ' ' (by decide)).1, hspace, hlast (by decide)⟩

theorem lower_final (next : Bool) {p : List Char} (hp : ∀ c ∈ p, Stable u c) (hx : ∀ c ∈ x, Stable u c)
    (hystable : ∀ c ∈ y, Stable u c) (hscan : scan u true x = true) (hy : ∀ c ∈ y, u.ignorable c = true) :
    lowerFrom u false next (p ++ 'a' :: x ++ 'Σ' :: y) = p ++ 'a' :: x ++ (if next then 'σ' else 'ς') :: y := by
  have ha := hu.letters 'a' (by decide)
  have hbefore : scan u false (p ++ 'a' :: x) = true := by
    rw [scan_append, scan_cons, step, if_neg (by simp [ha.2]), ha.1, hscan]
  have hstable : ∀ c ∈ p ++ 'a' :: x, Stable u c := by
    intro c hc
    rcases List.mem_append.mp hc with hc | hc
    · exact hp c hc
    · rcases List.mem_cons.mp hc with rfl | hc
      · exact hu.stable_letters 'a' (by decide)
      · exact hx c hc
  have hlower : y.flatMap u.lowerChar = y := by
    have hignorable : lowerFrom u false false y = y.flatMap u.lowerChar := lowerFrom_ignorable hu hy
    rw [← hignorable, lowerFrom_stable hystable]
  rw [lowerFrom_sigma hu hbefore hy, lowerFrom_stable hstable, hlower]

omit hu in
theorem final_not_infix (x y : List Char) : ¬ (x ++ 'ς' :: y) <:+: 'a' :: x ++ ('σ' :: y ++ ['a']) := by
  -- the text without its final sigma has one of them less
  intro h
  have hcount := h.sublist.count_le 'ς'
  have ha : List.count 'ς' ['a'] = 0 := rfl
  have hsigma : List.count 'ς' ('σ' :: y) = List.count 'ς' y := List.count_cons_of_ne (by decide)
  rw [List.cons_append, List.count_cons_of_ne (by decide), List.count_append, List.count_append, List.count_append,
    List.count_cons_self, hsigma, ha] at hcount
  omega

theorem exists_loss {e : List Char} (hstable : ∀ c ∈ e, Stable u c) (he : Losable u e) (others : List (List Char))
    (hothers : ∀ o ∈ others, ∀ c ∈ o, Stable u c) :
    ∃ s t, e <:+: lower u s ∧ ¬ e <:+: lower u (s ++ t) ∧ ∀ o ∈ others, ¬ e <:+: o → o <:+: lower u s := by
  obtain ⟨x, y, rfl, hscan, hy⟩ := he
  obtain ⟨z, hz, hhead, hlast⟩ := exists_separator hu (x := x) hy
  let kept := others.filter (fun o => ¬ (x ++ 'ς' :: y) <:+: o)
  let p := kept.flatMap (· ++ List.replicate (x ++ 'ς' :: y).length z)
  have hp : ∀ c ∈ p, Stable u c := by
    intro c hc
    obtain ⟨o, ho, hc⟩ := List.mem_flatMap.mp hc
    rcases List.mem_append.mp hc with hc | hc
    · exact hothers o (List.mem_of_mem_filter ho) c hc
    · exact List.eq_of_mem_replicate hc ▸ hz
  have hlower (next : Bool) := lower_final hu next hp (fun c hc => hstable c (by simp [hc]))
    (fun c hc => hstable c (by simp [hc])) hscan hy
  refine ⟨p ++ 'a' :: x ++ 'Σ' :: y, ['a'], ?_, ?_, ?_⟩
  · rw [lower, hlower]
    exact ⟨p ++ ['a'], [], by simp⟩
  · have ha := hu.letters 'a' (by decide)
    have hnext : casedNext u false ['a'] = true := by
      rw [casedNext, if_neg (by simp [ha.2]), ha.1]
    have hafter : lowerFrom u (scan u false (p ++ 'a' :: x ++ 'Σ' :: y)) false ['a'] = ['a'] :=
      lowerFrom_stable fun c hc => List.mem_singleton.mp hc ▸ hu.stable_letters 'a' (by decide)
    rw [lower, lowerFrom_append, hnext, hlower, hafter, List.append_assoc, List.append_assoc]
    apply infix_blocks hhead hlast le_rfl
    · intro b hb
      exact of_decide_eq_true (List.mem_filter.mp hb).2
    · exact final_not_infix x y
  · intro o ho hnot
    rw [lower, hlower, List.append_assoc]
    apply List.infix_append_of_infix_left
    have hmem : o ++ List.replicate (x ++ 'ς' :: y).length z ∈
        kept.map (· ++ List.replicate (x ++ 'ς' :: y).length z) :=
      List.mem_map_of_mem (List.mem_filter.mpr ⟨ho, decide_eq_true hnot⟩)
    exact (List.prefix_append _ _).isInfix.trans (List.infix_of_mem_flatten hmem)

end Loss

end TokensThatSuffice.Lowercase
