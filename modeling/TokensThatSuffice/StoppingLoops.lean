import Mathlib.Data.List.Forall2

namespace TokensThatSuffice.StoppingLoops

variable {α β ε : Type} {f : α → Except ε (Option β)} {xs : List α}

def untilNone (f : α → Except ε (Option β)) : List α → Except ε (List β)
  | [] => .ok []
  | x :: xs =>
    match f x with
    | .error e => .error e
    | .ok none => .ok []
    | .ok (some y) => (untilNone f xs).map (y :: ·)

def allOrNone (f : α → Except ε (Option β)) : List α → Except ε (Option (List β))
  | [] => .ok (some [])
  | x :: xs =>
    match f x with
    | .error e => .error e
    | .ok none => .ok none
    | .ok (some y) => (allOrNone f xs).map (Option.map (y :: ·))

theorem map_eq_ok {γ δ : Type} {g : γ → δ} {x : Except ε γ} {d : δ} :
    x.map g = .ok d ↔ ∃ c, x = .ok c ∧ g c = d := by
  cases x with
  | error e => simp [Except.map]
  | ok c => simp [Except.map]

def InitialRun (f : α → Except ε (Option β)) (xs : List α) (ys : List β) : Prop :=
  ∃ done rest, xs = done ++ rest ∧ List.Forall₂ (fun x y => f x = .ok (some y)) done ys ∧
    ∀ x ∈ rest.head?, f x = .ok none

theorem initialRun_cons_nil {x : α} : InitialRun f (x :: xs) ([] : List β) ↔ f x = .ok none := by
  constructor
  · rintro ⟨done, rest, heq, hrun, hstop⟩
    cases hrun
    rw [List.nil_append] at heq
    subst heq
    exact hstop x rfl
  · intro hx
    refine ⟨[], x :: xs, rfl, .nil, ?_⟩
    intro z hz
    cases hz
    exact hx

theorem initialRun_cons_cons {x : α} {y : β} {ys : List β} :
    InitialRun f (x :: xs) (y :: ys) ↔ f x = .ok (some y) ∧ InitialRun f xs ys := by
  constructor
  · rintro ⟨done, rest, heq, hrun, hstop⟩
    cases hrun with
    | cons hx hrun =>
      obtain ⟨rfl, hxs⟩ := List.cons.inj heq
      exact ⟨hx, _, rest, hxs, hrun, hstop⟩
  · rintro ⟨hx, done, rest, rfl, hrun, hstop⟩
    exact ⟨x :: done, rest, rfl, .cons hx hrun, hstop⟩

theorem untilNone_eq_ok_iff {ys : List β} : untilNone f xs = .ok ys ↔ InitialRun f xs ys := by
  induction xs generalizing ys with
  | nil =>
    constructor
    · intro h
      cases h
      exact ⟨[], [], rfl, .nil, by simp⟩
    · rintro ⟨done, rest, heq, hrun, -⟩
      obtain ⟨rfl, rfl⟩ := List.append_eq_nil_iff.mp heq.symm
      cases hrun
      rfl
  | cons x xs ih =>
    rw [untilNone]
    cases ys with
    | nil =>
      rw [initialRun_cons_nil]
      rcases f x with e | _ | y <;> simp [map_eq_ok]
    | cons y ys =>
      rw [initialRun_cons_cons, ← ih]
      rcases f x with e | _ | z <;> simp [map_eq_ok, and_comm]

theorem allOrNone_eq_some_iff {ys : List β} :
    allOrNone f xs = .ok (some ys) ↔ List.Forall₂ (fun x y => f x = .ok (some y)) xs ys := by
  induction xs generalizing ys with
  | nil => simp [allOrNone, eq_comm]
  | cons x xs ih =>
    rw [allOrNone, List.forall₂_cons_left_iff]
    cases hx : f x with
    | error e => simp
    | ok r =>
      cases r with
      | none => simp
      | some y =>
        simp only [map_eq_ok, Option.map_eq_some_iff]
        constructor
        · rintro ⟨_, hrest, zs, rfl, rfl⟩
          exact ⟨y, zs, rfl, ih.mp hrest, rfl⟩
        · rintro ⟨z, zs, hz, hrest, rfl⟩
          cases hz
          exact ⟨some zs, ih.mpr hrest, zs, rfl, rfl⟩

theorem eq_none_iff_of_allOrNone {r : Option (List β)} (h : allOrNone f xs = .ok r) :
    r = none ↔ ∃ x ∈ xs, f x = .ok none := by
  induction xs generalizing r with
  | nil =>
    cases h
    simp
  | cons x xs ih =>
    rw [allOrNone] at h
    cases hx : f x with
    | error e => simp [hx] at h
    | ok s =>
      cases s with
      | none =>
        simp only [hx, Except.ok.injEq] at h
        subst h
        exact iff_of_true rfl ⟨x, List.mem_cons_self, hx⟩
      | some y =>
        simp only [hx, map_eq_ok] at h
        obtain ⟨s, hs, rfl⟩ := h
        simp [Option.map_eq_none_iff, ih hs, hx]

theorem allOrNone_ok (h : ∀ x ∈ xs, ∃ r, f x = .ok r) : ∃ r, allOrNone f xs = .ok r := by
  induction xs with
  | nil => exact ⟨_, rfl⟩
  | cons x xs ih =>
    rw [List.forall_mem_cons] at h
    obtain ⟨r, hx⟩ := h.1
    obtain ⟨rest, hrest⟩ := ih h.2
    rw [allOrNone, hx, hrest]
    cases r with
    | none => exact ⟨_, rfl⟩
    | some y => exact ⟨_, rfl⟩

end TokensThatSuffice.StoppingLoops
