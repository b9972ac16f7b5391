import Mathlib.Data.List.Induction
import Mathlib.Data.List.Nodup

namespace TokensThatSuffice.OrderedDicts

variable {κ ν : Type*} [DecidableEq κ]

def set (d : List (κ × ν)) (k : κ) (v : ν) : List (κ × ν) :=
  match d with
  | [] => [(k, v)]
  | p :: rest => if p.1 = k then (k, v) :: rest else p :: set rest k v

def appendTo (d : List (κ × List ν)) (k : κ) (x : ν) : List (κ × List ν) := set d k ((d.lookup k).getD [] ++ [x])

variable {d : List (κ × ν)} {k k' : κ} {v w : ν}

theorem lookup_cons_eq (p : κ × ν) (d : List (κ × ν)) (k : κ) :
    (p :: d).lookup k = if k = p.1 then some p.2 else d.lookup k := by
  obtain ⟨k', v⟩ := p
  rw [List.lookup_cons]
  by_cases h : k = k'
  · rw [if_pos h, h, beq_self_eq_true]
  · rw [if_neg h, beq_false_of_ne h]

theorem lookup_set (d : List (κ × ν)) (k k' : κ) (v : ν) :
    (set d k v).lookup k' = if k' = k then some v else d.lookup k' := by
  induction d with
  | nil => rw [set, lookup_cons_eq]
  | cons p rest ih =>
    rw [set]
    by_cases hp : p.1 = k
    · rw [if_pos hp, lookup_cons_eq, lookup_cons_eq, hp]
      split_ifs <;> rfl
    · rw [if_neg hp, lookup_cons_eq, lookup_cons_eq, ih]
      by_cases h : k' = p.1
      · rw [if_pos h, if_pos h, if_neg (h ▸ hp)]
      · rw [if_neg h, if_neg h]

theorem set_of_lookup (h : d.lookup k = some v) : set d k v = d := by
  induction d with
  | nil => cases h
  | cons p rest ih =>
    rw [set]
    by_cases hp : p.1 = k
    · rw [← hp, List.lookup_cons_self] at h
      cases h
      rw [if_pos hp, ← hp]
    · rw [lookup_cons_eq, if_neg (Ne.symm hp)] at h
      rw [if_neg hp, ih h]

theorem set_set (d : List (κ × ν)) (k : κ) (v : ν) : set (set d k v) k v = set d k v :=
  set_of_lookup (by rw [lookup_set, if_pos rfl])

theorem set_of_notMem (h : k ∉ d.map Prod.fst) : set d k v = d ++ [(k, v)] := by
  induction d with
  | nil => rfl
  | cons p rest ih =>
    rw [List.map_cons, List.mem_cons, not_or] at h
    rw [set, if_neg (Ne.symm h.1), ih h.2]
    rfl

theorem keys_set (d : List (κ × ν)) (k : κ) (v : ν) :
    (set d k v).map Prod.fst = if k ∈ d.map Prod.fst then d.map Prod.fst else d.map Prod.fst ++ [k] := by
  induction d with
  | nil => rfl
  | cons p rest ih =>
    rw [set]
    by_cases hp : p.1 = k
    · simp [hp]
    · rw [if_neg hp, List.map_cons, ih]
      by_cases hk : k ∈ rest.map Prod.fst
      · simp [hk]
      · simp [hk, Ne.symm hp]

theorem foldl_set_of_nodup (d xs : List (κ × ν)) (h : ((d ++ xs).map Prod.fst).Nodup) :
    xs.foldl (fun d x => set d x.1 x.2) d = d ++ xs := by
  induction xs generalizing d with
  | nil => simp
  | cons x xs ih =>
    have hassoc : d ++ x :: xs = d ++ [x] ++ xs := by simp
    have hnew : x.1 ∉ d.map Prod.fst := by
      rw [List.map_append, List.nodup_append] at h
      exact fun hmem => h.2.2 x.1 hmem x.1 (by simp) rfl
    rw [hassoc] at h ⊢
    rw [List.foldl_cons, set_of_notMem hnew, ih _ h]

theorem keys_foldl_set (d xs : List (κ × ν)) (k : κ) :
    k ∈ (xs.foldl (fun d x => set d x.1 x.2) d).map Prod.fst ↔ k ∈ d.map Prod.fst ∨ k ∈ xs.map Prod.fst := by
  induction xs generalizing d with
  | nil => simp
  | cons x xs ih =>
    rw [List.foldl_cons, ih, keys_set, List.map_cons, List.mem_cons]
    split_ifs with hx
    · constructor
      · exact Or.imp_right .inr
      · rintro (hd | rfl | hxs)
        · exact .inl hd
        · exact .inl hx
        · exact .inr hxs
    · rw [List.mem_append, List.mem_singleton, or_assoc]

theorem nodup_set (h : (d.map Prod.fst).Nodup) (k : κ) (v : ν) : ((set d k v).map Prod.fst).Nodup := by
  rw [keys_set]
  split_ifs with hk
  · exact h
  · rw [List.nodup_append]
    refine ⟨h, List.nodup_singleton k, ?_⟩
    rintro a ha b hb rfl
    exact hk (List.mem_singleton.mp hb ▸ ha)

theorem lookup_eq_some_iff_mem (h : (d.map Prod.fst).Nodup) : d.lookup k = some v ↔ (k, v) ∈ d := by
  induction d with
  | nil => simp
  | cons p rest ih =>
    rw [List.map_cons, List.nodup_cons] at h
    rw [lookup_cons_eq, List.mem_cons]
    by_cases hk : k = p.1
    · have hrest : (k, v) ∉ rest := fun hmem => h.1 (hk ▸ List.mem_map_of_mem hmem)
      rw [if_pos hk, or_iff_left hrest, Option.some.injEq, Prod.ext_iff]
      exact ⟨fun hv => ⟨hk, hv.symm⟩, fun hp => hp.2.symm⟩
    · rw [if_neg hk, ih h.2, or_iff_right]
      rintro rfl
      exact hk rfl

theorem mem_keys_of_lookup (h : d.lookup k = some v) : k ∈ d.map Prod.fst := by
  induction d with
  | nil => cases h
  | cons p rest ih =>
    rw [lookup_cons_eq] at h
    split_ifs at h with hk
    · rw [hk]
      exact List.mem_cons_self
    · exact List.mem_cons_of_mem _ (ih h)

theorem lookup_perm {d' : List (κ × ν)} (hperm : d.Perm d') (h : (d.map Prod.fst).Nodup) (k : κ) :
    d.lookup k = d'.lookup k := by
  have h' : (d'.map Prod.fst).Nodup := (hperm.map Prod.fst).nodup_iff.mp h
  apply Option.ext
  intro v
  rw [lookup_eq_some_iff_mem h, lookup_eq_some_iff_mem h', hperm.mem_iff]

section Tables

variable {α : Type*} (name : α → κ) (g : α → Option ν)

def table (xs : List α) : List (κ × ν) := xs.filterMap fun a => (g a).map (name a, ·)

omit [DecidableEq κ] in
theorem keys_table_sublist (xs : List α) : ((table name g xs).map Prod.fst).Sublist (xs.map name) := by
  induction xs with
  | nil => exact List.Sublist.refl []
  | cons x xs ih =>
    rw [table, List.filterMap_cons]
    cases g x with
    | none => exact ih.cons _
    | some v => exact ih.cons_cons _

omit [DecidableEq κ] in
theorem table_perm {xs ys : List α} (h : xs.Perm ys) : (table name g xs).Perm (table name g ys) := h.filterMap _

omit [DecidableEq κ] in
theorem table_congr {name' : α → κ} {xs : List α} (h : ∀ a ∈ xs, g a ≠ none → name a = name' a) :
    table name g xs = table name' g xs := by
  apply List.filterMap_congr
  intro a ha
  cases hg : g a with
  | none => rfl
  | some v => rw [h a ha (by rw [hg]; nofun)]

theorem lookup_table {ω : Type*} (f : ν → Option ω) {d : List (κ × ν)} (h : (d.map Prod.fst).Nodup) (k : κ) :
    (table Prod.fst (fun p => f p.2) d).lookup k = (d.lookup k).bind f := by
  have hkeys := (keys_table_sublist Prod.fst (fun p => f p.2) d).nodup h
  apply Option.ext
  intro w
  rw [lookup_eq_some_iff_mem hkeys, Option.bind_eq_some_iff, table, List.mem_filterMap]
  constructor
  · rintro ⟨⟨k', v⟩, hmem, hw⟩
    obtain ⟨w', hf, hpair⟩ := Option.map_eq_some_iff.mp hw
    cases hpair
    exact ⟨v, (lookup_eq_some_iff_mem h).mpr hmem, hf⟩
  · rintro ⟨v, hv, hf⟩
    exact ⟨(k, v), (lookup_eq_some_iff_mem h).mp hv, by rw [hf]; rfl⟩

theorem table_members (xs : List α) (k : κ) : ((table name g xs).filter (fun x => x.1 = k)).map Prod.snd =
    (xs.filter (fun a => name a = k)).filterMap g := by
  induction xs with
  | nil => rfl
  | cons x xs ih =>
    rw [table, List.filterMap_cons, List.filter_cons]
    by_cases hx : name x = k
    · rw [if_pos (decide_eq_true hx), List.filterMap_cons, ← ih]
      cases g x with
      | none => rfl
      | some v => simp [hx, table]
    · have hnot : ¬ decide (name x = k) = true := by simpa using hx
      rw [if_neg hnot, ← ih]
      cases g x with
      | none => rfl
      | some v => simp [hx, table]

end Tables

section Groups

variable (d : List (κ × List ν)) (xs : List (κ × ν))

theorem lookup_foldl_appendTo (k : κ) : (xs.foldl (fun d x => appendTo d x.1 x.2) d).lookup k =
    if xs.filter (fun x => x.1 = k) = [] then d.lookup k
    else some ((d.lookup k).getD [] ++ (xs.filter (fun x => x.1 = k)).map Prod.snd) := by
  induction xs generalizing d with
  | nil => simp
  | cons x xs ih =>
    rw [List.foldl_cons, ih, appendTo, lookup_set, List.filter_cons]
    by_cases hx : x.1 = k
    · rw [if_pos hx.symm, if_pos (decide_eq_true hx), hx, if_neg (List.cons_ne_nil _ _), Option.getD_some]
      split_ifs with hrest
      · simp [hrest]
      · simp
    · have hfilter : (if decide (x.1 = k) = true then x :: xs.filter (fun x => x.1 = k)
          else xs.filter (fun x => x.1 = k)) = xs.filter (fun x => x.1 = k) := if_neg (by simpa using hx)
      rw [if_neg (Ne.symm hx), hfilter]

theorem nodup_foldl_appendTo (h : (d.map Prod.fst).Nodup) :
    ((xs.foldl (fun d x => appendTo d x.1 x.2) d).map Prod.fst).Nodup := by
  induction xs generalizing d with
  | nil => exact h
  | cons x xs ih => exact ih _ (nodup_set h _ _)

variable (k : κ) (vs : List ν)

theorem foldl_set_const : (vs.map (k, ·)).foldl (fun d x => set d x.1 x.2) [] = (vs.getLast?.map (k, ·)).toList := by
  induction vs using List.reverseRecOn with
  | nil => rfl
  | append_singleton vs v ih =>
    rw [List.map_append, List.foldl_append, ih, List.getLast?_concat]
    cases vs.getLast? with
    | none => rfl
    | some v' => simp [set]

theorem foldl_appendTo_const : (vs.map (k, ·)).foldl (fun d x => appendTo d x.1 x.2) [] =
    if vs = [] then [] else [(k, vs)] := by
  induction vs using List.reverseRecOn with
  | nil => rfl
  | append_singleton vs v ih =>
    rw [List.map_append, List.foldl_append, ih, if_neg (List.append_ne_nil_of_right_ne_nil _ (List.cons_ne_nil v []))]
    by_cases hvs : vs = []
    · rw [if_pos hvs, hvs]
      rfl
    · rw [if_neg hvs]
      simp [appendTo, set]

end Groups

section Last

variable {α : Type*} (key : α → κ)

def keepLast (xs : List α) : List (κ × α) := xs.foldl (fun d x => set d (key x) x) []

def last (xs : List α) (k : κ) : Option α := xs.reverse.find? (fun x => key x = k)

variable {key} {xs ys : List α}

theorem last_append (xs ys : List α) (k : κ) : last key (xs ++ ys) k = (last key ys k).or (last key xs k) := by
  rw [last, List.reverse_append, List.find?_append]
  rfl

theorem last_eq_none_iff : last key xs k = none ↔ ∀ x ∈ xs, key x ≠ k := by
  simp [last]

theorem lookup_keepLast (xs : List α) (k : κ) : (keepLast key xs).lookup k = last key xs k := by
  induction xs using List.reverseRecOn with
  | nil => rfl
  | append_singleton xs x ih =>
    rw [keepLast, List.foldl_append, List.foldl_cons, List.foldl_nil, lookup_set, last_append, ← ih]
    by_cases hx : k = key x
    · simp [last, hx]
    · simp [last, hx, Ne.symm hx, keepLast]

theorem nodup_keepLast (xs : List α) : ((keepLast key xs).map Prod.fst).Nodup := by
  induction xs using List.reverseRecOn with
  | nil => exact List.nodup_nil
  | append_singleton xs x ih =>
    rw [keepLast, List.foldl_append, List.foldl_cons, List.foldl_nil]
    exact nodup_set ih _ _

theorem mem_keepLast {x : α} (h : (k, x) ∈ keepLast key xs) : last key xs k = some x ∧ x ∈ xs ∧ key x = k := by
  have hlast : last key xs k = some x := by
    rw [← lookup_keepLast]
    exact (lookup_eq_some_iff_mem (nodup_keepLast xs)).mpr h
  exact ⟨hlast, List.mem_reverse.mp (List.mem_of_find?_eq_some hlast), by simpa using List.find?_some hlast⟩

theorem keepLast_perm (h : ∀ k, last key xs k = last key ys k) : (keepLast key xs).Perm (keepLast key ys) := by
  rw [List.perm_ext_iff_of_nodup (List.Nodup.of_map _ (nodup_keepLast xs)) (List.Nodup.of_map _ (nodup_keepLast ys))]
  rintro ⟨k, v⟩
  rw [← lookup_eq_some_iff_mem (nodup_keepLast xs), ← lookup_eq_some_iff_mem (nodup_keepLast ys), lookup_keepLast,
    lookup_keepLast, h]

end Last

end TokensThatSuffice.OrderedDicts
