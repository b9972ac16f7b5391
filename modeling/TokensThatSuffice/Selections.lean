import Mathlib.Data.List.Infix
import Mathlib.Order.Fin.Basic

namespace TokensThatSuffice.Selections

variable {σ α : Type*} (picks : σ → α → Bool) (next : σ → α → σ)

def selected (s : σ) : List α → List α
  | [] => []
  | x :: xs => if picks s x then x :: selected (next s x) xs else selected (next s x) xs

structure SelectedAt (s : σ) (xs : List α) (i p : ℕ) (x : α) : Prop where
  element : xs[p]? = some x
  before : (selected picks next s (xs.take p)).length = i
  added : selected picks next s (xs.take (p + 1)) = selected picks next s (xs.take p) ++ [x]

variable {picks next} {s : σ} {xs : List α}

theorem selected_append (s : σ) (xs ys : List α) :
    selected picks next s (xs ++ ys) = selected picks next s xs ++ selected picks next (xs.foldl next s) ys := by
  induction xs generalizing s with
  | nil => rfl
  | cons x xs ih =>
    simp only [List.cons_append, selected, List.foldl_cons, ih]
    split <;> rfl

theorem selected_sublist (s : σ) (xs : List α) : (selected picks next s xs).Sublist xs := by
  induction xs generalizing s with
  | nil => exact .slnil
  | cons x xs ih =>
    rw [selected]
    split
    · exact (ih (next s x)).cons_cons x
    · exact (ih (next s x)).cons x

theorem selected_take_mono {m n : ℕ} (h : m ≤ n) :
    selected picks next s (xs.take m) <+: selected picks next s (xs.take n) := by
  obtain ⟨rest, hrest⟩ := List.take_prefix_take_left (l := xs) h
  rw [← hrest, selected_append]
  exact List.prefix_append _ _

namespace SelectedAt

variable {i j p q : ℕ} {x y : α}

theorem cons (h : SelectedAt picks next (next s x) xs i p y) :
    SelectedAt picks next s (x :: xs) ((selected picks next s [x]).length + i) (p + 1) y := by
  have hread (ys : List α) :
      selected picks next s (x :: ys) = selected picks next s [x] ++ selected picks next (next s x) ys :=
    selected_append s [x] ys
  refine ⟨h.element, ?_, ?_⟩
  · rw [List.take_succ_cons, hread, List.length_append, h.before]
  · rw [List.take_succ_cons, List.take_succ_cons, hread (xs.take p), hread (xs.take (p + 1)), h.added,
      List.append_assoc]

theorem length_le (h : SelectedAt picks next s xs i p x) (hq : q ≤ p) :
    (selected picks next s (xs.take q)).length ≤ i := by
  rw [← h.before]
  exact (selected_take_mono hq).length_le

theorem getElem?_take (h : SelectedAt picks next s xs i p x) (hq : p < q) :
    (selected picks next s (xs.take q))[i]? = some x := by
  obtain ⟨rest, hrest⟩ : selected picks next s (xs.take (p + 1)) <+: selected picks next s (xs.take q) :=
    selected_take_mono hq
  rw [← hrest, h.added, ← h.before]
  simp

theorem getElem? (h : SelectedAt picks next s xs i p x) : (selected picks next s xs)[i]? = some x := by
  obtain ⟨hp, -⟩ := List.getElem?_eq_some_iff.mp h.element
  have hall := h.getElem?_take hp
  rwa [List.take_length] at hall

theorem lt (h : SelectedAt picks next s xs i p x) (h' : SelectedAt picks next s xs j q y) (hij : i < j) : p < q := by
  by_contra hle
  have hlength := h.length_le (Nat.le_of_not_lt hle)
  rw [h'.before] at hlength
  omega

end SelectedAt

theorem exists_selectedAt {i : ℕ} {y : α} (h : (selected picks next s xs)[i]? = some y) :
    ∃ p, SelectedAt picks next s xs i p y := by
  induction xs generalizing s i with
  | nil => cases h
  | cons x xs ih =>
    rw [selected] at h
    cases hpick : picks s x with
    | false =>
      have hnone : selected picks next s [x] = [] := by simp [selected, hpick]
      rw [if_neg (by simp [hpick])] at h
      obtain ⟨p, hp⟩ := ih h
      have hcons := hp.cons
      rw [hnone, List.length_nil, Nat.zero_add] at hcons
      exact ⟨p + 1, hcons⟩
    | true =>
      have hone : selected picks next s [x] = [x] := by simp [selected, hpick]
      rw [if_pos hpick] at h
      cases i with
      | zero =>
        cases h
        exact ⟨0, rfl, rfl, hone⟩
      | succ i =>
        obtain ⟨p, hp⟩ := ih h
        have hcons := hp.cons
        rw [hone, List.length_singleton, Nat.add_comm] at hcons
        exact ⟨p + 1, hcons⟩

theorem exists_positions {n : ℕ} (hn : n ≤ (selected picks next s xs).length) :
    ∃ position : Fin n → ℕ, StrictMono position ∧
      ∀ i : Fin n, ∃ x, SelectedAt picks next s xs i (position i) x := by
  have hfound (i : Fin n) : ∃ p x, SelectedAt picks next s xs i p x := by
    obtain ⟨p, hp⟩ := exists_selectedAt (List.getElem?_eq_getElem (i.isLt.trans_le hn))
    exact ⟨p, _, hp⟩
  choose position x hposition using hfound
  refine ⟨position, ?_, fun i => ⟨x i, hposition i⟩⟩
  intro i j hij
  exact (hposition i).lt (hposition j) hij

end TokensThatSuffice.Selections
