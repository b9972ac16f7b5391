import Mathlib.Data.List.DropRight
import Mathlib.Data.List.Infix

namespace TokensThatSuffice.CompactedLog

variable {α : Type*} {S : α → Prop} {j n : ℕ} {log view : List α}

/-- What a log looks like once its middle has been compacted any number of times: the first `j` entries,
at most one synthesized entry, and a suffix of what came after the first `j`. -/
def IsView (S : α → Prop) (j : ℕ) (log view : List α) : Prop :=
  ∃ mid rest, view = log.take j ++ mid ++ rest ∧ mid.length ≤ 1 ∧ (∀ x ∈ mid, S x) ∧
    rest <:+ log.drop j ∧ (mid ≠ [] → j ≤ log.length)

theorem IsView.refl (log : List α) : IsView S j log log := by
  refine ⟨[], log.drop j, ?_, by simp, by simp, List.suffix_rfl, by simp⟩
  rw [List.append_nil, List.take_append_drop]

theorem IsView.eq_of_short (h : IsView S j log view) (hlen : log.length < j) : view = log := by
  obtain ⟨mid, rest, rfl, -, -, hrest, hmid⟩ := h
  have hnil : mid = [] := by
    by_contra hne
    have := hmid hne
    omega
  rw [List.drop_eq_nil_of_le hlen.le, List.suffix_nil] at hrest
  rw [hnil, hrest, List.append_nil, List.append_nil, List.take_of_length_le hlen.le]

theorem IsView.drop (h : IsView S j log view) :
    ∃ mid rest, view.drop j = mid ++ rest ∧ mid.length ≤ 1 ∧ (∀ x ∈ mid, S x) ∧ rest <:+ log.drop j := by
  rcases Nat.lt_or_ge log.length j with hlen | hlen
  · refine ⟨[], [], ?_, by simp, by simp, List.nil_suffix⟩
    rw [h.eq_of_short hlen, List.drop_eq_nil_of_le hlen.le, List.append_nil]
  · obtain ⟨mid, rest, rfl, hone, hS, hrest, -⟩ := h
    refine ⟨mid, rest, ?_, hone, hS, hrest⟩
    have htake : (log.take j).length = j := by simp [hlen]
    rw [List.append_assoc, List.drop_left' htake]

theorem IsView.append (h : IsView S j log view) (xs : List α) : IsView S j (log ++ xs) (view ++ xs) := by
  rcases Nat.lt_or_ge log.length j with hlen | hlen
  · rw [h.eq_of_short hlen]
    exact .refl _
  · obtain ⟨mid, rest, rfl, hone, hS, hrest, -⟩ := h
    refine ⟨mid, rest ++ xs, ?_, hone, hS, ?_, ?_⟩
    · rw [List.take_append_of_le_length hlen, List.append_assoc]
    · rw [List.drop_append_of_le_length hlen]
      obtain ⟨pre, hpre⟩ := hrest
      refine ⟨pre, ?_⟩
      rw [← hpre, List.append_assoc]
    · intro _
      rw [List.length_append]
      omega

theorem rtake_append_of_le {xs ys : List α} (h : n ≤ ys.length) : (xs ++ ys).rtake n = ys.rtake n := by
  have hle : xs.length ≤ xs.length + ys.length - n := by omega
  rw [List.rtake, List.rtake, List.length_append, List.drop_append, List.drop_eq_nil_of_le hle, List.nil_append]
  congr 1
  omega

theorem IsView.compact (h : IsView S j log view) {mid' : List α} (hone' : mid'.length ≤ 1)
    (hS' : ∀ x ∈ mid', S x) (hn : n < (view.drop j).length) :
    IsView S j log (view.take j ++ mid' ++ (view.drop j).rtake n) := by
  rcases Nat.lt_or_ge log.length j with hlen | hlen
  · rw [h.eq_of_short hlen, List.drop_eq_nil_of_le hlen.le] at hn
    apply absurd hn
    exact Nat.not_lt_zero n
  · obtain ⟨mid, rest, rfl, hone, hS, hrest, -⟩ := h
    have htake : (log.take j).length = j := by simp [hlen]
    -- the kept entries all come after `mid`, since at least one entry goes
    rw [List.append_assoc, List.drop_left' htake, List.length_append] at hn
    rw [List.append_assoc (log.take j), List.drop_left' htake, List.take_left' htake,
      rtake_append_of_le (by omega)]
    exact ⟨mid', rest.rtake n, rfl, hone', hS', (List.drop_suffix _ _).trans hrest, fun _ => hlen⟩

def Recent (j n : ℕ) (log view : List α) : Prop := (log.drop j).rtake n <:+ view.drop j

theorem rtake_append_suffix (xs ys : List α) (n : ℕ) : (xs ++ ys).rtake n <:+ xs.rtake n ++ ys := by
  rw [List.rtake, List.rtake, List.length_append]
  rcases Nat.le_total xs.length (xs.length + ys.length - n) with hle | hle
  · rw [List.drop_append, List.drop_eq_nil_of_le hle, List.nil_append]
    exact (List.drop_suffix _ _).trans (List.suffix_append _ _)
  · rw [List.drop_append_of_le_length hle]
    obtain ⟨k, hk⟩ := Nat.exists_eq_add_of_le (show xs.length - n ≤ xs.length + ys.length - n by omega)
    rw [hk, ← List.drop_drop]
    obtain ⟨pre, hpre⟩ := List.drop_suffix k (xs.drop (xs.length - n))
    refine ⟨pre, ?_⟩
    rw [← List.append_assoc, hpre]

theorem Recent.append (hview : IsView S j log view) (h : Recent j n log view) (xs : List α) :
    Recent j n (log ++ xs) (view ++ xs) := by
  rcases Nat.lt_or_ge log.length j with hlen | hlen
  · rw [hview.eq_of_short hlen]
    exact List.drop_suffix _ _
  · have htake : (log.take j).length = j := by simp [hlen]
    have hle : j ≤ view.length := by
      obtain ⟨mid, rest, rfl, -⟩ := hview
      simp only [List.length_append, htake]
      omega
    rw [Recent, List.drop_append_of_le_length hlen, List.drop_append_of_le_length hle]
    obtain ⟨pre, hpre⟩ := h
    refine (rtake_append_suffix _ _ _).trans ⟨pre, ?_⟩
    rw [← List.append_assoc, hpre]

theorem Recent.compact (h : Recent j n log view) (hn : n < (view.drop j).length) (mid' : List α) :
    Recent j n log (view.take j ++ mid' ++ (view.drop j).rtake n) := by
  rw [List.length_drop] at hn
  have htake : (view.take j).length = j := by
    rw [List.length_take]
    omega
  rw [Recent, List.append_assoc, List.drop_left' htake]
  refine List.IsSuffix.trans ?_ (List.suffix_append _ _)
  apply List.suffix_of_suffix_length_le h (List.drop_suffix _ _)
  simp only [List.rtake, List.length_drop]
  omega

theorem take_append_congr {xs : List α} (h : view.take j = log.take j) :
    (view ++ xs).take j = (log ++ xs).take j := by
  have hlen := congrArg List.length h
  rw [List.length_take, List.length_take] at hlen
  have hrest : j - view.length = j - log.length := by omega
  rw [List.take_append, List.take_append, h, hrest]

section Snapshots

structure Snapshot (α : Type*) where
  input : List α
  kept : ℕ

def rebuildFrom (n : ℕ) : List (Snapshot α) → List α → List α
  | [], current => current.drop n
  | s :: rest, current => s.input.drop n ++ rebuildFrom s.kept rest current

def keptLast (n : ℕ) : List (Snapshot α) → ℕ
  | [] => n
  | s :: rest => keptLast s.kept rest

variable {snapshots : List (Snapshot α)} {current : List α}

theorem rebuildFrom_append (h : keptLast n snapshots ≤ current.length) (xs : List α) :
    rebuildFrom n snapshots (current ++ xs) = rebuildFrom n snapshots current ++ xs := by
  induction snapshots generalizing n with
  | nil => exact List.drop_append_of_le_length h
  | cons s rest ih =>
    rw [rebuildFrom, rebuildFrom, ih h, List.append_assoc]

theorem rebuildFrom_snapshot (replacement : List α) :
    rebuildFrom n (snapshots ++ [⟨current, replacement.length⟩]) replacement = rebuildFrom n snapshots current := by
  induction snapshots generalizing n with
  | nil => simp [rebuildFrom]
  | cons s rest ih =>
    rw [List.cons_append, rebuildFrom, rebuildFrom, ih]

@[simp] theorem keptLast_append (n : ℕ) (snapshots : List (Snapshot α)) (s : Snapshot α) :
    keptLast n (snapshots ++ [s]) = s.kept := by
  induction snapshots generalizing n with
  | nil => rfl
  | cons _ _ ih => exact ih _

end Snapshots

end TokensThatSuffice.CompactedLog
