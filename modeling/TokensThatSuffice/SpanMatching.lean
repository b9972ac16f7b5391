import Mathlib.Tactic.Common

namespace TokensThatSuffice.SpanMatching

variable {α : Type*}

def spanOf (p : α → Bool) (s : List α) : Option (List α × List α) :=
  if (s.takeWhile p).isEmpty then none else some (s.takeWhile p, s.dropWhile p)

def literal [DecidableEq α] (text s : List α) : Option (List α) :=
  if text.isPrefixOf s then some (s.drop text.length) else none

structure Spans (p : α → Bool) (s : List α) : Prop where
  nonempty : s ≠ []
  all : ∀ c ∈ s, p c = true

def Stops (p : α → Bool) (s : List α) : Prop := ∀ c ∈ s.head?, p c = false

variable {p : α → Bool} {s t rest : List α}

theorem stops_cons {c : α} (hc : p c = false) : Stops p (c :: s) := by
  intro d hd
  rw [← Option.mem_some.mp hd]
  exact hc

theorem takeWhile_append_stops (hs : ∀ c ∈ s, p c = true) (ht : Stops p t) : (s ++ t).takeWhile p = s := by
  rw [List.takeWhile_append_of_pos hs]
  cases t with
  | nil => simp
  | cons c t => rw [List.takeWhile_cons_of_neg (by simp [ht c rfl]), List.append_nil]

theorem dropWhile_append_stops (hs : ∀ c ∈ s, p c = true) (ht : Stops p t) : (s ++ t).dropWhile p = t := by
  rw [List.dropWhile_append_of_pos hs]
  cases t with
  | nil => rfl
  | cons c t => rw [List.dropWhile_cons_of_neg (by simp [ht c rfl])]

theorem stops_dropWhile : Stops p (s.dropWhile p) := by
  intro c hc
  have hhead := List.head?_dropWhile_not p s
  rw [Option.mem_def.mp hc] at hhead
  exact hhead

theorem spanOf_eq_some : spanOf p s = some (t, rest) ↔ s = t ++ rest ∧ Spans p t ∧ Stops p rest := by
  unfold spanOf
  constructor
  · intro h
    split_ifs at h with hempty
    rw [Option.some.injEq, Prod.mk.injEq] at h
    obtain ⟨rfl, rfl⟩ := h
    refine ⟨List.takeWhile_append_dropWhile.symm, ⟨?_, ?_⟩, stops_dropWhile⟩
    · rwa [List.isEmpty_iff] at hempty
    · exact List.all_eq_true.mp List.all_takeWhile
  · rintro ⟨rfl, ht, hrest⟩
    rw [takeWhile_append_stops ht.all hrest, dropWhile_append_stops ht.all hrest,
      if_neg (by rw [List.isEmpty_iff]; exact ht.nonempty)]

theorem spanOf_append (ht : Spans p t) (hrest : Stops p rest) : spanOf p (t ++ rest) = some (t, rest) :=
  spanOf_eq_some.mpr ⟨rfl, ht, hrest⟩

variable [DecidableEq α]

theorem literal_eq_some : literal t s = some rest ↔ s = t ++ rest := by
  unfold literal
  constructor
  · intro h
    split_ifs at h with hfront
    obtain ⟨u, rfl⟩ := List.isPrefixOf_iff_prefix.mp hfront
    rw [List.drop_left, Option.some.injEq] at h
    rw [h]
  · rintro rfl
    rw [if_pos (List.isPrefixOf_iff_prefix.mpr (List.prefix_append t rest)), List.drop_left]

theorem literal_append : literal t (t ++ rest) = some rest := literal_eq_some.mpr rfl

end TokensThatSuffice.SpanMatching
