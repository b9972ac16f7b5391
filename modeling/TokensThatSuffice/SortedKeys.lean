import Mathlib.Data.List.Nodup
import Mathlib.Order.Lattice

namespace TokensThatSuffice.SortedKeys

variable {α κ : Type} [LinearOrder κ] {key : α → κ} {xs ys : List α}

theorem pairwise_mergeSort_key (key : α → κ) (xs : List α) :
    (xs.mergeSort (fun a b => decide (key a ≤ key b))).Pairwise (fun a b => key a ≤ key b) := by
  let le := fun a b => decide (key a ≤ key b)
  have htrans : ∀ a b c, le a b = true → le b c = true → le a c = true := by
    intro a b c hab hbc
    simp only [le, decide_eq_true_eq] at hab hbc ⊢
    exact le_trans hab hbc
  have htotal : ∀ a b, (le a b || le b a) = true := by
    intro a b
    simpa [le] using le_total (key a) (key b)
  exact (List.pairwise_mergeSort htrans htotal xs).imp fun h => of_decide_eq_true h

theorem mergeSort_key_eq_of_perm (hperm : xs.Perm ys) (hkeys : (xs.map key).Nodup) :
    xs.mergeSort (fun a b => decide (key a ≤ key b)) = ys.mergeSort (fun a b => decide (key a ≤ key b)) := by
  apply List.Perm.eq_of_pairwise _ (pairwise_mergeSort_key key xs) (pairwise_mergeSort_key key ys)
  · exact (List.mergeSort_perm xs _).trans (hperm.trans (List.mergeSort_perm ys _).symm)
  · intro a b ha hb hab hba
    have ha' : a ∈ xs := (List.mergeSort_perm xs _).mem_iff.mp ha
    have hb' : b ∈ xs := hperm.mem_iff.mpr ((List.mergeSort_perm ys _).mem_iff.mp hb)
    exact List.inj_on_of_nodup_map hkeys ha' hb' (le_antisymm hab hba)

theorem find?_key_of_mem {x : α} (hkeys : (xs.map key).Nodup) (hx : x ∈ xs) :
    xs.find? (fun y => key y = key x) = some x := by
  cases hfind : xs.find? (fun y => key y = key x) with
  | none =>
    have hno := List.find?_eq_none.mp hfind x hx
    simp at hno
  | some y =>
    have hkey : key y = key x := by simpa using List.find?_some hfind
    rw [List.inj_on_of_nodup_map hkeys (List.mem_of_find?_eq_some hfind) hx hkey]

theorem find?_key_eq_of_perm (hperm : xs.Perm ys) (hkeys : (xs.map key).Nodup) (k : κ) :
    xs.find? (fun x => key x = k) = ys.find? (fun x => key x = k) := by
  cases hxs : xs.find? (fun x => key x = k) with
  | none =>
    rw [List.find?_eq_none] at hxs
    rw [eq_comm, List.find?_eq_none]
    intro x hx
    exact hxs x (hperm.mem_iff.mpr hx)
  | some a =>
    have hmem := List.mem_of_find?_eq_some hxs
    have hkey : key a = k := by simpa using List.find?_some hxs
    cases hys : ys.find? (fun x => key x = k) with
    | none =>
      rw [List.find?_eq_none] at hys
      exact absurd hkey (by simpa using hys a (hperm.mem_iff.mp hmem))
    | some b =>
      have hmem' := hperm.mem_iff.mpr (List.mem_of_find?_eq_some hys)
      have hkey' : key b = k := by simpa using List.find?_some hys
      rw [List.inj_on_of_nodup_map hkeys hmem hmem' (hkey.trans hkey'.symm)]

theorem mergeSort_not_lt (key : α → κ) (hperm : xs.Perm ys) (hys : ys.Pairwise (fun a b => key a < key b)) :
    xs.mergeSort (fun a b => !decide (key b < key a)) = ys := by
  have hle : (fun a b => !decide (key b < key a)) = fun a b => decide (key a ≤ key b) := by
    funext a b
    rw [← decide_not, decide_eq_decide, not_lt]
  have hkeys : (ys.map key).Nodup := List.pairwise_map.mpr (hys.imp fun h => h.ne)
  rw [hle, mergeSort_key_eq_of_perm hperm ((hperm.map key).nodup_iff.mpr hkeys)]
  apply List.mergeSort_of_pairwise
  exact hys.imp fun h => decide_eq_true h.le

section Files

variable {β : Type} {κ' : Type} [LinearOrder κ'] {key' : β → κ'} {files : α → List β}

theorem mergeSort_key_flatMap (hkeys : (xs.map key).Nodup)
    (hwithin : ∀ a ∈ xs, (files a).Pairwise (fun x y => key' x < key' y))
    (hacross : ∀ a b, key a < key b → ∀ x ∈ files a, ∀ y ∈ files b, key' x < key' y) :
    (xs.flatMap files).mergeSort (fun x y => decide (key' x ≤ key' y)) =
      (xs.mergeSort (fun a b => decide (key a ≤ key b))).flatMap files := by
  have hsorted := List.mergeSort_perm xs (fun a b => decide (key a ≤ key b))
  have hne : ∀ a ∈ xs, ∀ b ∈ xs, a ≠ b → key a ≠ key b := fun a ha b hb hab heq =>
    hab (List.inj_on_of_nodup_map hkeys ha hb heq)
  have hnodup := hsorted.nodup_iff.mpr (List.Nodup.of_map key hkeys)
  have horder : ((xs.mergeSort (fun a b => decide (key a ≤ key b))).flatMap files).Pairwise
      (fun x y => key' x < key' y) := by
    apply List.pairwise_flatMap.mpr
    constructor
    · intro a ha
      exact hwithin a (hsorted.mem_iff.mp ha)
    · apply ((pairwise_mergeSort_key key xs).and hnodup).imp_of_mem
      rintro a b ha hb ⟨hle, hab⟩
      exact hacross a b (lt_of_le_of_ne hle (hne a (hsorted.mem_iff.mp ha) b (hsorted.mem_iff.mp hb) hab))
  have hperm := hsorted.symm.flatMap_right files
  have hdistinct : ((xs.flatMap files).map key').Nodup := by
    rw [(hperm.map key').nodup_iff]
    exact List.pairwise_map.mpr (horder.imp fun h => h.ne)
  rw [mergeSort_key_eq_of_perm hperm hdistinct]
  apply List.mergeSort_of_pairwise
  exact horder.imp fun h => decide_eq_true h.le

end Files

end TokensThatSuffice.SortedKeys
