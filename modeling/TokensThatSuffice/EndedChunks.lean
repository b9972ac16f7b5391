import Mathlib.Data.List.Basic

namespace TokensThatSuffice.EndedChunks

variable {α : Type*} (p : α → Bool)

def chunksFrom (current : List α) : List α → List (List α)
  | [] => if current.isEmpty then [] else [current]
  | x :: xs => if p x then (current ++ [x]) :: chunksFrom [] xs else chunksFrom (current ++ [x]) xs

variable {p} {current xs : List α}

theorem nil_notMem_chunksFrom : [] ∉ chunksFrom p current xs := by
  induction xs generalizing current with
  | nil => cases current <;> simp [chunksFrom]
  | cons x xs ih =>
    rw [chunksFrom]
    split_ifs <;> simp [ih]

theorem countP_eq_zero_of_false {l : List α} (h : ∀ x ∈ l, p x = false) : l.countP p = 0 :=
  List.countP_eq_zero.mpr fun x hx => by simp [h x hx]

theorem exists_cut_from (hcurrent : ∀ x ∈ current, p x = false) {i : ℕ} (hi : i < (chunksFrom p current xs).length) :
    ∃ before x after, current ++ xs = before ++ x :: after ∧
      ((chunksFrom p current xs).take (i + 1)).flatten = before ++ [x] ∧ before.countP p = i ∧
        (p x = false → after = []) := by
  induction xs generalizing current i with
  | nil =>
    rcases List.eq_nil_or_concat current with rfl | ⟨before, x, rfl⟩
    · simp [chunksFrom] at hi
    · rw [List.concat_eq_append] at hcurrent hi ⊢
      have hchunks : chunksFrom p (before ++ [x]) [] = [before ++ [x]] := by simp [chunksFrom]
      rw [hchunks, List.length_singleton, Nat.lt_one_iff] at hi
      refine ⟨before, x, [], by simp, ?_, ?_, fun _ => rfl⟩
      · rw [hchunks, hi]
        simp
      · rw [hi]
        exact countP_eq_zero_of_false fun y hy => hcurrent y (List.mem_append_left _ hy)
  | cons x xs ih =>
    by_cases hx : p x = true
    · rw [chunksFrom, if_pos hx] at hi ⊢
      cases i with
      | zero =>
        exact ⟨current, x, xs, rfl, by simp, countP_eq_zero_of_false hcurrent, fun hfalse => absurd hx (by simp [hfalse])⟩
      | succ i =>
        obtain ⟨before, y, after, hxs, htake, hcount, hlast⟩ := ih (by simp) (Nat.lt_of_succ_lt_succ hi)
        rw [List.nil_append] at hxs
        refine ⟨current ++ x :: before, y, after, by simp [hxs], ?_, ?_, hlast⟩
        · rw [List.take_succ_cons, List.flatten_cons, htake]
          simp
        · rw [List.countP_append, List.countP_cons_of_pos hx, hcount, countP_eq_zero_of_false hcurrent, Nat.zero_add]
    · rw [chunksFrom, if_neg hx] at hi ⊢
      have hcurrent' : ∀ y ∈ current ++ [x], p y = false := by
        intro y hy
        rcases List.mem_append.mp hy with hy | hy
        · exact hcurrent y hy
        · rw [List.mem_singleton.mp hy]
          simpa using hx
      obtain ⟨before, y, after, hxs, hrest⟩ := ih hcurrent' hi
      exact ⟨before, y, after, by simpa using hxs, hrest⟩

theorem exists_cut {i : ℕ} (hi : i < (chunksFrom p [] xs).length) :
    ∃ before x after, xs = before ++ x :: after ∧ ((chunksFrom p [] xs).take (i + 1)).flatten = before ++ [x] ∧
      before.countP p = i ∧ (p x = true ↔ i < xs.countP p) := by
  obtain ⟨before, x, after, hxs, htake, hcount, hlast⟩ := exists_cut_from (by simp) hi
  rw [List.nil_append] at hxs
  refine ⟨before, x, after, hxs, htake, hcount, ?_⟩
  rw [hxs, List.countP_append, List.countP_cons, hcount]
  cases hx : p x with
  | true => simp
  | false => simp [hlast hx]

theorem length_chunksFrom (hcurrent : ∀ x ∈ current, p x = false) : (chunksFrom p current xs).length =
    xs.countP p + if (current ++ xs).getLast?.any (fun x => !p x) then 1 else 0 := by
  induction xs generalizing current with
  | nil =>
    rcases List.eq_nil_or_concat current with rfl | ⟨before, x, rfl⟩
    · rfl
    · rw [List.concat_eq_append] at hcurrent ⊢
      have hx := hcurrent x (by simp)
      simp [chunksFrom, hx]
  | cons x xs ih =>
    have hlast : (current ++ x :: xs).getLast? = (x :: xs).getLast? := by
      rw [List.getLast?_append_of_ne_nil _ (List.cons_ne_nil x xs)]
    rw [chunksFrom, hlast]
    by_cases hx : p x = true
    · rw [if_pos hx, List.length_cons, ih (by simp), List.nil_append, List.countP_cons_of_pos hx]
      cases xs with
      | nil => simp [hx]
      | cons y ys =>
        rw [List.getLast?_cons_cons]
        omega
    · have hnot : p x = false := by simpa using hx
      rw [if_neg hx, List.countP_cons_of_neg hx, ih (by simpa [or_imp, forall_and] using ⟨hcurrent, hnot⟩),
        List.append_assoc, List.singleton_append, hlast]

end TokensThatSuffice.EndedChunks
