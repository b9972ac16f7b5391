import Mathlib.Data.List.Nodup
import Mathlib.Order.Lattice

namespace TokensThatSuffice.CompletionOrder

/-- In which order the tasks of a pool complete. -/
structure Schedule (α : Type) where
  order : List α → List α
  perm : ∀ xs, (order xs).Perm xs

section Loops

variable {α β κ ε : Type} [DecidableEq κ] (key : α → κ) (run : α → Except ε β)

def collect : List α → (κ → List β) → Except ε (κ → List β)
  | [], d => .ok d
  | x :: xs, d =>
    match run x with
    | .error e => .error e
    | .ok y => collect xs (Function.update d (key x) (d (key x) ++ [y]))

def assign : List α → (κ → Option β) → Except ε (κ → Option β)
  | [], m => .ok m
  | x :: xs, m =>
    match run x with
    | .error e => .error e
    | .ok y => assign xs (Function.update m (key x) (some y))

def gather (xs : List α) (k : κ) : List β := (xs.filter (fun x => key x = k)).filterMap (fun x => (run x).toOption)

variable {key run} {xs ys : List α} {x : α} {y : β}

theorem gather_cons_self (hx : run x = .ok y) : gather key run (x :: xs) (key x) = y :: gather key run xs (key x) := by
  simp [gather, hx, Except.toOption]

theorem gather_cons_of_ne {k : κ} (hk : k ≠ key x) : gather key run (x :: xs) k = gather key run xs k := by
  simp [gather, hk.symm]

theorem gather_perm (h : xs.Perm ys) (k : κ) : (gather key run xs k).Perm (gather key run ys k) :=
  (h.filter _).filterMap _

theorem collect_eq_ok_iff {d r : κ → List β} :
    collect key run xs d = .ok r ↔
      (∀ x ∈ xs, ∃ y, run x = .ok y) ∧ r = fun k => d k ++ gather key run xs k := by
  induction xs generalizing d with
  | nil => simp [collect, gather, eq_comm]
  | cons x xs ih =>
    rw [collect, List.forall_mem_cons]
    cases hx : run x with
    | error e => simp
    | ok y =>
      have hstep : (fun k => Function.update d (key x) (d (key x) ++ [y]) k ++ gather key run xs k) =
          fun k => d k ++ gather key run (x :: xs) k := by
        funext k
        by_cases hk : k = key x
        · rw [hk, Function.update_self, gather_cons_self hx, List.append_assoc]
          rfl
        · rw [Function.update_of_ne hk, gather_cons_of_ne hk]
      simp [ih, hstep]

theorem assign_eq_ok_iff {m r : κ → Option β} :
    assign key run xs m = .ok r ↔
      (∀ x ∈ xs, ∃ y, run x = .ok y) ∧ r = fun k => (gather key run xs k).getLast?.or (m k) := by
  induction xs generalizing m with
  | nil => simp [assign, gather, eq_comm]
  | cons x xs ih =>
    rw [assign, List.forall_mem_cons]
    cases hx : run x with
    | error e => simp
    | ok y =>
      have hstep : (fun k => (gather key run xs k).getLast?.or (Function.update m (key x) (some y) k)) =
          fun k => (gather key run (x :: xs) k).getLast?.or (m k) := by
        funext k
        by_cases hk : k = key x
        · rw [hk, Function.update_self, gather_cons_self hx, List.getLast?_cons]
          cases (gather key run xs (key x)).getLast? <;> rfl
        · rw [Function.update_of_ne hk, gather_cons_of_ne hk]
      simp [ih, hstep]

theorem length_gather_le_one (h : (xs.map key).Nodup) (k : κ) : (gather key run xs k).length ≤ 1 := by
  have hcount : (xs.filter (fun x => key x = k)).length ≤ 1 := by
    have hle := List.nodup_iff_count_le_one.mp h k
    rwa [List.count, List.countP_map, List.countP_eq_length_filter] at hle
  exact Nat.le_trans (List.length_filterMap_le _ _) hcount

theorem mem_gather {k : κ} : y ∈ gather key run xs k ↔ ∃ x ∈ xs, key x = k ∧ run x = .ok y := by
  simp only [gather, List.mem_filterMap, List.mem_filter, decide_eq_true_eq, and_assoc]
  apply exists_congr
  intro x
  cases run x <;> simp [Except.toOption]

theorem getLast?_gather (hkeys : (xs.map key).Nodup) (hx : x ∈ xs) (hy : run x = .ok y) :
    (gather key run xs (key x)).getLast? = some y := by
  have hlength : (gather key run xs (key x)).length ≤ 1 := length_gather_le_one hkeys (key x)
  have hmem : y ∈ gather key run xs (key x) := mem_gather.mpr ⟨x, hx, rfl, hy⟩
  obtain ⟨z, hz⟩ := List.length_eq_one_iff.mp (le_antisymm hlength (List.length_pos_of_mem hmem))
  rw [hz, List.mem_singleton] at hmem
  rw [hz, hmem]
  rfl

theorem nodup_map_gather {κ' : Type} {seq : α → κ'} {sub : β → κ'} (hsub : ∀ x y, run x = .ok y → sub y = seq x)
    (hkeys : (xs.map (fun x => (key x, seq x))).Nodup) (k : κ) : ((gather key run xs k).map sub).Nodup := by
  induction xs with
  | nil => simp [gather]
  | cons x xs ih =>
    obtain ⟨hnew, hkeys⟩ := List.nodup_cons.mp hkeys
    by_cases hk : k = key x
    · cases hx : run x with
      | error e =>
        have hgather : gather key run (x :: xs) k = gather key run xs k := by simp [gather, hk, hx, Except.toOption]
        rw [hgather]
        exact ih hkeys
      | ok y =>
        rw [hk, gather_cons_self hx, List.map_cons, List.nodup_cons]
        refine ⟨fun hmem => hnew ?_, hk ▸ ih hkeys⟩
        obtain ⟨y', hy', hsame⟩ := List.mem_map.mp hmem
        obtain ⟨x', hx', hkey, hrun⟩ := mem_gather.mp hy'
        have hseq : seq x' = seq x := by rw [← hsub x' y' hrun, hsame, hsub x y hx]
        exact List.mem_map.mpr ⟨x', hx', by rw [hkey, hseq]⟩
    · rw [gather_cons_of_ne hk]
      exact ih hkeys

theorem assign_perm {m r : κ → Option β} (hperm : xs.Perm ys) (hkeys : (xs.map key).Nodup)
    (h : assign key run xs m = .ok r) : assign key run ys m = .ok r := by
  rw [assign_eq_ok_iff] at h ⊢
  refine ⟨fun x hx => h.1 x (hperm.mem_iff.mpr hx), ?_⟩
  rw [h.2]
  funext k
  have hgather : gather key run xs k = gather key run ys k := by
    have hlength : (gather key run xs k).length ≤ 1 := length_gather_le_one hkeys k
    have hgathers : (gather key run xs k).Perm (gather key run ys k) := gather_perm hperm k
    rcases hxs : gather key run xs k with _ | ⟨a, _ | ⟨b, rest⟩⟩
    · rw [hxs] at hgathers
      exact hgathers.nil_eq
    · rw [hxs] at hgathers
      exact (List.singleton_perm.mp hgathers)
    · rw [hxs, List.length_cons, List.length_cons] at hlength
      omega
  rw [hgather]

theorem collect_perm {d r : κ → List β} (hperm : xs.Perm ys) (h : collect key run xs d = .ok r) :
    ∃ r', collect key run ys d = .ok r' ∧ ∀ k, (r k).Perm (r' k) := by
  rw [collect_eq_ok_iff] at h
  refine ⟨_, collect_eq_ok_iff.mpr ⟨fun x hx => h.1 x (hperm.mem_iff.mpr hx), rfl⟩, ?_⟩
  intro k
  rw [h.2]
  exact (gather_perm hperm k).append_left (d k)

end Loops

end TokensThatSuffice.CompletionOrder
