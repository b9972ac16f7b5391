import Mathlib.Data.List.DropRight
import TokensThatSuffice.SubtaskThemes
import TokensThatSuffice.WordGrams

namespace TokensThatSuffice

section Lists

variable {α : Type} {c : α} {a b x y s marker : List α}

theorem append_cons_first (ha : c ∉ a) (hb : c ∉ b) (h : a ++ c :: x = b ++ c :: y) : a = b ∧ x = y := by
  rcases List.append_eq_append_iff.mp h with ⟨d, rfl, hx⟩ | ⟨d, rfl, hy⟩
  · cases d with
    | nil => simpa using hx
    | cons e d =>
      obtain ⟨rfl, -⟩ := List.cons.inj hx
      simp at hb
  · cases d with
    | nil => simpa [eq_comm] using hy
    | cons e d =>
      obtain ⟨rfl, -⟩ := List.cons.inj hy
      simp at ha

theorem append_cons_last (hx : c ∉ x) (hy : c ∉ y) (h : a ++ c :: x = b ++ c :: y) : a = b ∧ x = y := by
  have hreverse := congrArg List.reverse h
  simp only [List.reverse_append, List.reverse_cons, List.append_assoc, List.singleton_append] at hreverse
  obtain ⟨hxy, hab⟩ := append_cons_first (by simpa using hx) (by simpa using hy) hreverse
  exact ⟨List.reverse_injective hab, List.reverse_injective hxy⟩

theorem eq_append_cons_last (h : c ∈ s) : ∃ x y, s = x ++ c :: y ∧ c ∉ y := by
  obtain ⟨y, x, hs, hy⟩ := List.eq_append_cons_of_mem (List.mem_reverse.mpr h)
  refine ⟨x.reverse, y.reverse, ?_, by simpa using hy⟩
  rw [← List.reverse_reverse s, hs]
  simp

structure LastMarker (marker y : List α) : Prop where
  here : marker <+: y
  last : ¬ marker <:+: y.tail

theorem exists_lastMarker (hne : marker ≠ []) (h : marker <:+: s) : ∃ x y, s = x ++ y ∧ LastMarker marker y := by
  induction s with
  | nil => exact absurd (List.infix_nil.mp h) hne
  | cons c s ih =>
    by_cases hs : marker <:+: s
    · obtain ⟨x, y, rfl, hy⟩ := ih hs
      exact ⟨c :: x, y, rfl, hy⟩
    · rcases List.infix_cons_iff.mp h with hstart | hwithin
      · exact ⟨[], c :: s, rfl, hstart, hs⟩
      · exact absurd hwithin hs

theorem lastMarker_append_cons (hc : c ∉ marker) (hne : marker ≠ []) (hb : ¬ marker <:+: b) :
    LastMarker marker (a ++ c :: b) ↔ LastMarker marker a := by
  have htail (hstart : marker <+: a) : marker <:+: (a ++ c :: b).tail ↔ marker <:+: a.tail := by
    cases a with
    | nil => exact absurd (List.prefix_nil.mp hstart) hne
    | cons d a =>
      rw [List.cons_append, List.tail_cons, List.tail_cons, WordGrams.infix_append_cons hc]
      exact or_iff_left hb
  constructor
  · intro h
    have hstart := (WordGrams.prefix_append_cons hc a b).mp h.here
    exact ⟨hstart, mt (htail hstart).mpr h.last⟩
  · intro h
    exact ⟨(WordGrams.prefix_append_cons hc a b).mpr h.here, mt (htail h.here).mp h.last⟩

theorem lastMarker_inside (hne : marker ≠ []) (h : marker <:+: s ++ b) (hb : ¬ marker <:+: b) :
    ∃ x d, s = x ++ d ∧ d ≠ [] ∧ LastMarker marker (d ++ b) := by
  obtain ⟨x, y, heq, hy⟩ := exists_lastMarker hne h
  rcases List.append_eq_append_iff.mp heq with ⟨d, rfl, rfl⟩ | ⟨d, rfl, rfl⟩
  · exact absurd (hy.here.isInfix.trans (List.suffix_append d y).isInfix) hb
  · refine ⟨x, d, rfl, ?_, hy⟩
    rintro rfl
    exact hb hy.here.isInfix

theorem find?_reverse_range {p : ℕ → Bool} {i n : ℕ} (hi : i < n) (hp : p i = true)
    (hlast : ∀ j, i < j → p j = false) : (List.range n).reverse.find? p = some i := by
  induction n with
  | zero => omega
  | succ n ih =>
    rw [List.range_succ, List.reverse_append, List.reverse_singleton, List.singleton_append]
    rcases Nat.lt_succ_iff_lt_or_eq.mp hi with hlt | rfl
    · rw [List.find?_cons_of_neg (by simp [hlast n hlt]), ih hlt]
    · rw [List.find?_cons_of_pos hp]

end Lists

section Finding

variable {needle : String} {c : Char} {x y s : List Char}

theorem rfind_last (hy : LastMarker needle.toList y) : rfind (String.ofList (x ++ y)) needle = some x.length := by
  rw [rfind, String.toList_ofList, String.length_ofList]
  apply find?_reverse_range
  · rw [List.length_append]
    omega
  · rw [List.drop_left, List.isPrefixOf_iff_prefix]
    exact hy.here
  · intro j hj
    rw [← Bool.not_eq_true, List.isPrefixOf_iff_prefix]
    intro hstart
    apply hy.last
    obtain ⟨k, rfl⟩ : ∃ k, j = x.length + (k + 1) := ⟨j - x.length - 1, by omega⟩
    rw [List.drop_length_add_append, ← List.drop_tail] at hstart
    exact hstart.isInfix.trans (List.drop_suffix _ _).isInfix

theorem rfind_none (h : ¬ needle.toList <:+: s) : rfind (String.ofList s) needle = none := by
  rw [rfind, List.find?_eq_none, String.toList_ofList]
  intro i hi hstart
  rw [List.isPrefixOf_iff_prefix] at hstart
  exact h (hstart.isInfix.trans (List.drop_suffix _ _).isInfix)

theorem find_first (hneedle : needle.toList = [c]) (hx : c ∉ x) :
    find (String.ofList (x ++ c :: y)) needle = some x.length := by
  rw [find, String.toList_ofList, hneedle]
  induction x with
  | nil => simp [List.findIdx?_cons]
  | cons d x ih =>
    obtain ⟨hd, hx⟩ := not_or.mp (mt List.mem_cons.mpr hx)
    have hfirst : [c].isPrefixOf (d :: (x ++ c :: y)) = false := by simp [List.isPrefixOf, hd]
    rw [List.cons_append, List.tails_cons, List.findIdx?_cons, hfirst, if_neg Bool.false_ne_true, ih hx]
    rfl

theorem find_none (hneedle : needle.toList = [c]) (hs : c ∉ s) : find (String.ofList s) needle = none := by
  rw [find, String.toList_ofList, hneedle, List.findIdx?_eq_none_iff]
  intro t ht
  rw [← Bool.not_eq_true, List.isPrefixOf_iff_prefix]
  intro hstart
  apply hs
  have hwithin := hstart.isInfix.trans ((List.mem_tails _ _).mp ht).isInfix
  exact hwithin.subset List.mem_cons_self

theorem rfind_lastChar (hneedle : needle.toList = [c]) (hy : c ∉ y) :
    rfind (String.ofList (x ++ c :: y)) needle = some x.length := by
  apply rfind_last
  rw [hneedle]
  exact ⟨⟨y, rfl⟩, fun h => hy (h.subset List.mem_cons_self)⟩

theorem rfind_noChar (hneedle : needle.toList = [c]) (hs : c ∉ s) : rfind (String.ofList s) needle = none := by
  apply rfind_none
  rw [hneedle]
  exact fun h => hs (h.subset List.mem_cons_self)

end Finding

section Cutting

variable {needle : String} {c : Char} {a b x y s : List Char}

theorem beforeLast_last (hy : LastMarker needle.toList y) :
    beforeLast needle (String.ofList (x ++ y)) = String.ofList x := by
  rw [beforeLast, rfind_last hy]
  dsimp only
  rw [String.toList_ofList, List.take_left]

theorem beforeLast_none (h : ¬ needle.toList <:+: s) : beforeLast needle (String.ofList s) = String.ofList s := by
  rw [beforeLast, rfind_none h]

theorem beforeLast_prefix (needle : String) (s : List Char) :
    ∃ x, x <+: s ∧ beforeLast needle (String.ofList s) = String.ofList x := by
  rw [beforeLast]
  cases rfind (String.ofList s) needle with
  | none => exact ⟨s, List.prefix_rfl, rfl⟩
  | some i => exact ⟨s.take i, List.take_prefix i s, by rw [String.toList_ofList]⟩

theorem afterFirst_first (ha : c ∉ a) : afterFirst c (String.ofList (a ++ c :: b)) = String.ofList b := by
  have hall : ∀ d ∈ a, (decide (d ≠ c)) = true := by
    intro d hd
    rw [decide_eq_true_eq]
    rintro rfl
    exact ha hd
  rw [afterFirst, String.toList_ofList, List.dropWhile_append_of_pos hall,
    List.dropWhile_cons_of_neg (by simp)]

theorem afterFirst_none (hs : c ∉ s) : afterFirst c (String.ofList s) = String.ofList s := by
  have hall : s.dropWhile (· ≠ c) = [] := by
    rw [List.dropWhile_eq_nil_iff]
    intro d hd
    rw [decide_eq_true_eq]
    rintro rfl
    exact hs hd
  rw [afterFirst, String.toList_ofList, hall]

theorem strip_eq (s : String) : strip s = String.ofList ((s.toList.dropWhile isSpace).rdropWhile isSpace) := by
  rw [strip, rstrip, String.toList_ofList, List.rdropWhile]

theorem strip_parts (s : List Char) : ∃ l r, s = l ++ ((strip (String.ofList s)).toList ++ r) ∧
    (∀ c ∈ l, isSpace c = true) ∧ ∀ c ∈ r, isSpace c = true := by
  refine ⟨s.takeWhile isSpace, (s.dropWhile isSpace).rtakeWhile isSpace, ?_, ?_, ?_⟩
  · rw [strip_eq, String.toList_ofList, String.toList_ofList, List.rdropWhile_append_rtakeWhile,
      List.takeWhile_append_dropWhile]
  · exact fun c hc => List.mem_takeWhile_imp hc
  · exact fun c hc => List.mem_rtakeWhile_imp hc

theorem strip_trimmed (s : String) : strip s = "" ∨ Trimmed isSpace (strip s).toList := by
  rw [strip_eq, String.toList_ofList]
  by_cases hne : (s.toList.dropWhile isSpace).rdropWhile isSpace = []
  · rw [hne]
    exact .inl rfl
  · refine .inr ⟨hne, ?_, ?_⟩
    · intro c hc
      have hfirst := List.head?_dropWhile_not isSpace s.toList
      obtain ⟨rest, hrest⟩ := List.rdropWhile_prefix isSpace (s.toList.dropWhile isSpace)
      rw [← List.head?_append_of_ne_nil _ hne, hrest] at hc
      rw [Option.mem_def.mp hc] at hfirst
      exact hfirst
    · intro c hc
      have hlast := List.rdropWhile_last_not isSpace _ hne
      rw [List.getLast?_eq_some_getLast hne, Option.mem_some_iff] at hc
      rwa [hc, Bool.not_eq_true] at hlast

theorem strip_strip (s : String) : strip (strip s) = strip s := by
  rcases strip_trimmed s with hs | hs
  · rw [hs]
    rfl
  · have h := strip_ofList hs
    rwa [String.ofList_toList] at h

theorem dropWhile_first {p : Char → Bool} {v : List Char} (hne : v ≠ []) (hv : ∀ c ∈ v.head?, p c = false)
    (s w : List Char) : ∀ c ∈ (s.dropWhile p ++ (v ++ w)).head?, p c = false := by
  intro c hc
  have hfirst := List.head?_dropWhile_not p s
  cases hs : s.dropWhile p with
  | nil =>
    rw [hs, List.nil_append, List.head?_append_of_ne_nil _ hne] at hc
    exact hv c hc
  | cons d rest =>
    rw [hs, List.cons_append] at hc
    rw [hs] at hfirst
    cases hc
    exact hfirst

theorem strip_decorated {v : List Char} (hv : Trimmed isSpace v) (p q : List Char) :
    strip (String.ofList (p ++ (v ++ q))) =
      String.ofList (p.dropWhile isSpace ++ (v ++ q.rdropWhile isSpace)) := by
  have htrimmed : Trimmed isSpace (p.dropWhile isSpace ++ (v ++ q.rdropWhile isSpace)) := by
    refine ⟨?_, dropWhile_first hv.nonempty hv.first _ _, ?_⟩
    · exact List.append_ne_nil_of_right_ne_nil _ (List.append_ne_nil_of_left_ne_nil hv.nonempty _)
    · have hne : v.reverse ≠ [] := mt List.reverse_eq_nil_iff.mp hv.nonempty
      have hlast : ∀ c ∈ v.reverse.head?, isSpace c = false := by
        rw [List.head?_reverse]
        exact hv.last
      have hreverse := dropWhile_first hne hlast q.reverse (p.dropWhile isSpace).reverse
      rw [← List.head?_reverse, List.reverse_append, List.reverse_append, List.rdropWhile, List.reverse_reverse,
        List.append_assoc]
      exact hreverse
  have hp : p = p.takeWhile isSpace ++ p.dropWhile isSpace := List.takeWhile_append_dropWhile.symm
  have hq : q = q.rdropWhile isSpace ++ q.rtakeWhile isSpace := List.rdropWhile_append_rtakeWhile.symm
  have hparts : p ++ (v ++ q) = p.takeWhile isSpace ++
      ((p.dropWhile isSpace ++ (v ++ q.rdropWhile isSpace)) ++ q.rtakeWhile isSpace) := by
    conv_lhs => rw [hp, hq]
    simp only [List.append_assoc]
  rw [hparts]
  exact strip_around (fun c hc => List.mem_takeWhile_imp hc) htrimmed (fun c hc => List.mem_rtakeWhile_imp hc)

end Cutting

end TokensThatSuffice
