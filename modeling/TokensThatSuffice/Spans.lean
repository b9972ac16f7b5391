import Mathlib.Data.Int.Notation
import Mathlib.Data.List.Basic

namespace TokensThatSuffice.Spans

variable {α : Type*} {first last : α → ℤ} {a b c : ℤ} {xs ys : List α}

inductive Tiles (first last : α → ℤ) : ℤ → List α → ℤ → Prop
  | nil (a : ℤ) : Tiles first last a [] a
  | cons {x : α} {xs : List α} {b : ℤ} (order : first x ≤ last x) (rest : Tiles first last (last x + 1) xs b) :
      Tiles first last (first x) (x :: xs) b

def Chronological (first last : α → ℤ) (xs : List α) : Prop :=
  ∀ (i j : ℕ) (x y : α), xs[i]? = some x → xs[j]? = some y → last x < first y → i < j

theorem chronological_iff (h : ∀ x ∈ xs, first x ≤ last x) :
    Chronological first last xs ↔ xs.Pairwise (fun x y => ¬ last y < first x) := by
  rw [List.pairwise_iff_getElem]
  constructor
  · intro hchron i j hi hj hij hlt
    have hji := hchron j i _ _ (List.getElem?_eq_getElem hj) (List.getElem?_eq_getElem hi) hlt
    omega
  · intro hpairs i j x y hx hy hlt
    obtain ⟨hi, rfl⟩ := List.getElem?_eq_some_iff.mp hx
    obtain ⟨hj, rfl⟩ := List.getElem?_eq_some_iff.mp hy
    by_contra hle
    rcases Nat.lt_or_ge j i with hji | hij
    · exact hpairs j i hj hi hji hlt
    · have heq : j = i := by omega
      subst heq
      have hself := h _ (List.getElem_mem hj)
      omega

theorem Chronological.not_before (h : Chronological first last (xs ++ ys)) {x y : α} (hx : x ∈ xs) (hy : y ∈ ys) :
    ¬ last y < first x := by
  intro hlt
  obtain ⟨i, hi, rfl⟩ := List.mem_iff_getElem.mp hx
  obtain ⟨j, hj, rfl⟩ := List.mem_iff_getElem.mp hy
  have hxi : (xs ++ ys)[i]? = some xs[i] := by rw [List.getElem?_append_left hi, List.getElem?_eq_getElem hi]
  have hyj : (xs ++ ys)[xs.length + j]? = some ys[j] := by
    rw [List.getElem?_append_right (Nat.le_add_right _ _), Nat.add_sub_cancel_left, List.getElem?_eq_getElem hj]
  have hbefore := h _ _ _ _ hyj hxi hlt
  omega

namespace Tiles

theorem append (h : Tiles first last a xs b) (h' : Tiles first last b ys c) : Tiles first last a (xs ++ ys) c := by
  induction h with
  | nil a => exact h'
  | cons order rest ih => exact .cons order (ih h')

theorem bounds (h : Tiles first last a xs b) : ∀ x ∈ xs, a ≤ first x ∧ first x ≤ last x := by
  induction h with
  | nil a => simp
  | cons order rest ih =>
    intro y hy
    rcases List.mem_cons.mp hy with rfl | hy
    · exact ⟨Int.le_refl _, order⟩
    · obtain ⟨hle, hself⟩ := ih y hy
      exact ⟨by omega, hself⟩

theorem chronological (h : Tiles first last a xs b) : Chronological first last xs := by
  rw [chronological_iff fun x hx => (h.bounds x hx).2]
  induction h with
  | nil a => exact .nil
  | cons order rest ih =>
    rw [List.pairwise_cons]
    refine ⟨?_, ih⟩
    intro y hy
    obtain ⟨hle, hself⟩ := rest.bounds y hy
    omega

end Tiles

end TokensThatSuffice.Spans
