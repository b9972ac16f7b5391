import Mathlib.Data.List.Nodup

namespace TokensThatSuffice.LinePatches

section Hunks

variable {α : Type*}

/-- The lines of one side of a hunk and the place that its header gives them: that of the first line,
counted from one, or that of the line before them when there are none. -/
structure Side (α : Type*) where
  start : ℕ
  count : ℕ
  lines : List α

structure Side.Stands (side : Side α) (n : ℕ) : Prop where
  count : side.count = side.lines.length
  start : side.start = if side.count = 0 then n else n + 1

structure Hunk (α : Type*) where
  old : Side α
  new : Side α

def Hunk.inverse (h : Hunk α) : Hunk α := ⟨h.new, h.old⟩

inductive Applies : ℕ → ℕ → List (Hunk α) → List α → List α → Prop
  | nil (i j : ℕ) (rest : List α) : Applies i j [] rest rest
  | cons {i j : ℕ} {h : Hunk α} {hunks : List (Hunk α)} {s t : List α} (kept : List α)
      (hold : h.old.Stands (i + kept.length)) (hnew : h.new.Stands (j + kept.length))
      (hrest : Applies (i + kept.length + h.old.lines.length) (j + kept.length + h.new.lines.length) hunks s t) :
      Applies i j (h :: hunks) (kept ++ (h.old.lines ++ s)) (kept ++ (h.new.lines ++ t))

variable {i j : ℕ} {h : Hunk α} {hunks : List (Hunk α)} {s t t' : List α}

theorem Side.Stands.unique {side : Side α} {m n : ℕ} (hm : side.Stands m) (hn : side.Stands n) : m = n := by
  have hstart := hm.start.symm.trans hn.start
  split_ifs at hstart <;> omega

theorem Applies.inverse (happlies : Applies i j hunks s t) : Applies j i (hunks.map Hunk.inverse) t s := by
  induction happlies with
  | nil i j rest => exact .nil j i rest
  | cons kept hold hnew _ ih => exact .cons (h := Hunk.inverse _) kept hnew hold ih

theorem applies_nil_iff : Applies i j ([] : List (Hunk α)) s t ↔ t = s := by
  constructor
  · rintro ⟨⟩
    rfl
  · rintro rfl
    exact .nil i j _

theorem applies_cons_iff : Applies i j (h :: hunks) s t ↔
    ∃ kept s' t', s = kept ++ (h.old.lines ++ s') ∧ t = kept ++ (h.new.lines ++ t') ∧
      h.old.Stands (i + kept.length) ∧ h.new.Stands (j + kept.length) ∧
        Applies (i + kept.length + h.old.lines.length) (j + kept.length + h.new.lines.length) hunks s' t' := by
  constructor
  · rintro ⟨⟩
    exact ⟨_, _, _, rfl, rfl, by assumption, by assumption, by assumption⟩
  · rintro ⟨kept, s', t', rfl, rfl, hold, hnew, hrest⟩
    exact .cons kept hold hnew hrest

theorem Applies.unique (ht : Applies i j hunks s t) (ht' : Applies i j hunks s t') : t = t' := by
  induction hunks generalizing i j s t t' with
  | nil => rw [applies_nil_iff.mp ht, applies_nil_iff.mp ht']
  | cons h hunks ih =>
    obtain ⟨kept, s₁, t₁, rfl, rfl, hold, -, hrest⟩ := applies_cons_iff.mp ht
    obtain ⟨kept', s₂, t₂, hs, rfl, hold', -, hrest'⟩ := applies_cons_iff.mp ht'
    have hlength : kept.length = kept'.length := Nat.add_left_cancel (hold.unique hold')
    obtain ⟨rfl, hlines⟩ := List.append_inj hs hlength
    obtain rfl := List.append_cancel_left hlines
    rw [ih hrest hrest']

end Hunks

section Edits

variable {κ ν : Type*}

structure Edit (κ ν : Type*) where
  key : κ
  Changes : ν → ν → Prop

def Edit.Applies (e : Edit κ ν) (T T' : κ → ν) : Prop :=
  e.Changes (T e.key) (T' e.key) ∧ ∀ k ≠ e.key, T' k = T k

def AppliesAll : List (Edit κ ν) → (κ → ν) → (κ → ν) → Prop
  | [], T, T' => T' = T
  | e :: edits, T, T' => ∃ S, e.Applies T S ∧ AppliesAll edits S T'

structure Pointwise (edits : List (Edit κ ν)) (T T' : κ → ν) : Prop where
  changes : ∀ e ∈ edits, e.Changes (T e.key) (T' e.key)
  keeps : ∀ k ∉ edits.map Edit.key, T' k = T k

variable {e : Edit κ ν} {edits : List (Edit κ ν)} {S T T' T'' : κ → ν}

theorem key_ne_of_mem (hkey : e.key ∉ edits.map Edit.key) {e' : Edit κ ν} (he' : e' ∈ edits) : e'.key ≠ e.key :=
  fun heq => hkey (heq ▸ List.mem_map_of_mem he')

theorem Pointwise.cons (hkey : e.key ∉ edits.map Edit.key) (happlies : e.Applies T S) (h : Pointwise edits S T') :
    Pointwise (e :: edits) T T' := by
  obtain ⟨hchanges, hkeeps⟩ := happlies
  constructor
  · refine List.forall_mem_cons.mpr ⟨?_, fun e' he' => ?_⟩
    · rw [h.keeps e.key hkey]
      exact hchanges
    · rw [← hkeeps e'.key (key_ne_of_mem hkey he')]
      exact h.changes e' he'
  · intro k hk
    obtain ⟨hne, hk⟩ := not_or.mp (mt List.mem_cons.mpr hk)
    rw [h.keeps k hk, hkeeps k hne]

theorem Pointwise.exists_applies (hkey : e.key ∉ edits.map Edit.key) (h : Pointwise (e :: edits) T T') :
    ∃ S, e.Applies T S ∧ Pointwise edits S T' := by
  classical
  obtain ⟨hchanges, hrest⟩ := List.forall_mem_cons.mp h.changes
  refine ⟨Function.update T e.key (T' e.key), ⟨?_, fun k hk => Function.update_of_ne hk _ _⟩, ?_, ?_⟩
  · rw [Function.update_self]
    exact hchanges
  · intro e' he'
    rw [Function.update_of_ne (key_ne_of_mem hkey he')]
    exact hrest e' he'
  · intro k hk
    by_cases hne : k = e.key
    · rw [hne, Function.update_self]
    · rw [Function.update_of_ne hne]
      exact h.keeps k (by simp [hne, hk])

theorem appliesAll_iff_pointwise (hnodup : (edits.map Edit.key).Nodup) :
    AppliesAll edits T T' ↔ Pointwise edits T T' := by
  induction edits generalizing T with
  | nil =>
    constructor
    · rintro rfl
      exact ⟨List.forall_mem_nil _, fun k _ => rfl⟩
    · intro h
      funext k
      exact h.keeps k List.not_mem_nil
  | cons e edits ih =>
    obtain ⟨hkey, hnodup⟩ := List.nodup_cons.mp hnodup
    constructor
    · rintro ⟨S, happlies, hrest⟩
      exact .cons hkey happlies ((ih hnodup).mp hrest)
    · intro h
      obtain ⟨S, happlies, hrest⟩ := h.exists_applies hkey
      exact ⟨S, happlies, (ih hnodup).mpr hrest⟩

theorem AppliesAll.inverse {ι : Type*} {xs : List ι} {edit inverse : ι → Edit κ ν}
    (hnodup : ((xs.map edit).map Edit.key).Nodup) (hkey : ∀ x ∈ xs, (inverse x).key = (edit x).key)
    (hchanges : ∀ x ∈ xs, ∀ v w, (edit x).Changes v w → (inverse x).Changes w v)
    (h : AppliesAll (xs.map edit) T T') : AppliesAll (xs.map inverse) T' T := by
  have hkeys : (xs.map inverse).map Edit.key = (xs.map edit).map Edit.key := by
    rw [List.map_map, List.map_map]
    exact List.map_congr_left hkey
  have hpoint := (appliesAll_iff_pointwise hnodup).mp h
  refine (appliesAll_iff_pointwise (hkeys ▸ hnodup)).mpr ⟨?_, ?_⟩
  · rw [List.forall_mem_map]
    intro x hx
    rw [hkey x hx]
    exact hchanges x hx _ _ (hpoint.changes (edit x) (List.mem_map_of_mem hx))
  · intro k hk
    rw [hkeys] at hk
    exact (hpoint.keeps k hk).symm

theorem AppliesAll.unique (hunique : ∀ e ∈ edits, ∀ x y z, e.Changes x y → e.Changes x z → y = z)
    (h : AppliesAll edits T T') (h' : AppliesAll edits T T'') : T' = T'' := by
  induction edits generalizing T with
  | nil => exact h.trans h'.symm
  | cons e edits ih =>
    obtain ⟨he, hrest⟩ := List.forall_mem_cons.mp hunique
    obtain ⟨S, ⟨hchanges, hkeeps⟩, hS⟩ := h
    obtain ⟨S', ⟨hchanges', hkeeps'⟩, hS'⟩ := h'
    have hsame : S = S' := by
      funext k
      by_cases hk : k = e.key
      · rw [hk]
        exact he _ _ _ hchanges hchanges'
      · rw [hkeeps k hk, hkeeps' k hk]
    exact ih hrest hS (hsame ▸ hS')

end Edits

end TokensThatSuffice.LinePatches
