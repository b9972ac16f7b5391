import Mathlib.Data.List.Nodup
import Mathlib.Data.List.Perm.Subperm
import TokensThatSuffice.Runs

namespace TokensThatSuffice.ResumablePool

open Runs

/-- Tasks for a pool of workers; `yields` is what a finished task can give back, a row or nothing. -/
structure Workload (Task Key Row : Type) where
  key : Task → Key
  rowKey : Row → Key
  yields : Task → Option Row → Prop
  rowKey_eq : ∀ t r, yields t (some r) → rowKey r = key t

structure Launch (Task : Type) where
  tasks : List Task
  workers : ℕ
  limit : ℕ

structure Pool (Task Key Row : Type) where
  launch : Launch Task
  rows : List Row
  done : List Key
  scored : ℕ
  candidates : List Task
  inFlight : List Task
  leaving : Bool := false

structure System (Task Key Row : Type) where
  file : Option (List Row) := none
  pool : Option (Pool Task Key Row) := none

/-- `killed` is also a task that raises: either way the process ends and the file stays. -/
inductive Event (Task Row : Type) where
  | started (o : Launch Task)
  | finished (t : Task) (r : Option Row)
  | left
  | killed

variable {Task Key Row : Type}

def System.rows (s : System Task Key Row) : List Row := s.file.getD []

namespace Event

def task? : Event Task Row → Option Task
  | .finished t _ => some t
  | _ => none

def row? : Event Task Row → Option Row
  | .finished _ r => r
  | _ => none

def isFinished (e : Event Task Row) : Prop := ∃ t r, e = .finished t r

end Event

namespace Workload

variable (W : Workload Task Key Row)

def load (o : Launch Task) (rows : List Row) : Pool Task Key Row where
  launch := o
  rows := rows
  done := rows.map W.rowKey
  scored := rows.length
  candidates := o.tasks
  inFlight := []

def record (p : Pool Task Key Row) (r : Row) : Pool Task Key Row :=
  { p with rows := p.rows ++ [r], done := W.rowKey r :: p.done, scored := p.scored + 1 }

structure Accounted (file : Option (List Row)) (p : Pool Task Key Row) (since : List (Event Task Row)) : Prop where
  distinct : (p.launch.tasks.map W.key).Nodup
  rows : p.rows = file.getD []
  done : ∀ k, k ∈ p.done ↔ k ∈ p.rows.map W.rowKey
  scored : p.scored = p.rows.length
  capped : since.filterMap Event.row? = [] ∨ p.scored ≤ p.launch.limit
  positive : 0 < p.launch.workers
  workers : p.inFlight.length ≤ p.launch.workers
  split : ∃ old, (since.filterMap Event.task? ++ p.inFlight ++ p.candidates ++ old).Perm p.launch.tasks ∧
    ∀ t ∈ old, W.key t ∈ p.done
  fresh : ∀ t ∈ p.inFlight, W.key t ∉ p.done

structure Ready (p : Pool Task Key Row) : Prop where
  leaving : p.leaving = true → p.launch.limit ≤ p.scored
  room : p.leaving = false → p.inFlight = [] ∨ p.scored < p.launch.limit
  filled : p.leaving = false → p.scored < p.launch.limit → p.inFlight.length < p.launch.workers → p.candidates = []

section Accounting

variable {W} {file : Option (List Row)} {p : Pool Task Key Row} {since : List (Event Task Row)}

theorem accounted_load {o : Launch Task} (hdistinct : (o.tasks.map W.key).Nodup) (hworkers : 0 < o.workers) :
    W.Accounted file (W.load o (file.getD [])) [] where
  distinct := hdistinct
  rows := rfl
  done _ := Iff.rfl
  scored := rfl
  capped := .inl rfl
  positive := hworkers
  workers := Nat.zero_le _
  split := ⟨[], by simp [load], by simp⟩
  fresh := by simp [load]

theorem Accounted.remove (h : W.Accounted file p since) {before after : List Task} {t : Task} (r : Option Row)
    (hflight : p.inFlight = before ++ t :: after) (hroom : p.scored < p.launch.limit) :
    W.Accounted file { p with inFlight := before ++ after } (since ++ [.finished t r]) := by
  obtain ⟨old, hperm, hold⟩ := h.split
  have hsublist : (before ++ after).Sublist p.inFlight := by
    rw [hflight]
    exact (List.sublist_cons_self t after).append_left before
  constructor
  · exact h.distinct
  · exact h.rows
  · exact h.done
  · exact h.scored
  · exact .inr (Nat.le_of_lt hroom)
  · exact h.positive
  · exact Nat.le_trans hsublist.length_le h.workers
  · refine ⟨old, ?_, hold⟩
    apply List.Perm.trans _ hperm
    have htask : [Event.finished t r].filterMap Event.task? = [t] := rfl
    rw [List.filterMap_append, htask, hflight]
    apply List.Perm.append_right
    apply List.Perm.append_right
    simp only [List.append_assoc]
    apply List.Perm.append_left
    rw [List.singleton_append]
    exact List.perm_middle.symm
  · intro t' ht'
    exact h.fresh t' (hsublist.subset ht')

theorem Accounted.apart (h : W.Accounted file p since) {before after : List Task} {t : Task}
    (hflight : p.inFlight = before ++ t :: after) : ∀ t' ∈ before ++ after, W.key t' ≠ W.key t := by
  obtain ⟨old, hperm, -⟩ := h.split
  have hdistinct := (hperm.map W.key).nodup_iff.mpr h.distinct
  have hpart : p.inFlight.Sublist (since.filterMap Event.task? ++ p.inFlight ++ p.candidates ++ old) := by
    rw [List.append_assoc, List.append_assoc]
    exact (List.sublist_append_left _ _).trans (List.sublist_append_right _ _)
  have hmiddle : (p.inFlight.map W.key).Nodup := hdistinct.sublist (hpart.map W.key)
  have hfirst : p.inFlight.Perm (t :: (before ++ after)) := by
    rw [hflight]
    exact List.perm_middle
  have hcons := (hfirst.map W.key).nodup_iff.mp hmiddle
  rw [List.map_cons, List.nodup_cons] at hcons
  intro t' ht' heq
  exact hcons.1 (List.mem_map.mpr ⟨t', ht', heq⟩)

theorem Accounted.record (h : W.Accounted file p since) {r : Row} (hapart : ∀ t ∈ p.inFlight, W.key t ≠ W.rowKey r)
    (hroom : p.scored < p.launch.limit) :
    W.Accounted (some (W.record p r).rows) (W.record p r) since where
  distinct := h.distinct
  rows := rfl
  done k := by
    simp only [Workload.record, List.mem_cons, List.map_append, List.mem_append, h.done, List.map_cons,
      List.map_nil, List.not_mem_nil, or_false]
    exact or_comm
  scored := by
    simp only [Workload.record, List.length_append, List.length_singleton, h.scored]
  capped := .inr hroom
  positive := h.positive
  workers := h.workers
  split := by
    obtain ⟨old, hperm, hold⟩ := h.split
    exact ⟨old, hperm, fun t ht => List.mem_cons_of_mem _ (hold t ht)⟩
  fresh t ht := by
    simp only [Workload.record, List.mem_cons, not_or]
    exact ⟨hapart t ht, h.fresh t ht⟩

theorem Accounted.leave (h : W.Accounted file p since) : W.Accounted file { p with leaving := true } since :=
  ⟨h.distinct, h.rows, h.done, h.scored, h.capped, h.positive, h.workers, h.split, h.fresh⟩

end Accounting

variable [DecidableEq Key]

/-- The candidates are an iterator: a key is looked up when its task is reached, not before. -/
def refillFrom (p : Pool Task Key Row) : List Task → Pool Task Key Row
  | [] => { p with candidates := [] }
  | t :: rest =>
    if p.inFlight.length < p.launch.workers ∧ p.scored < p.launch.limit then
      if W.key t ∈ p.done then refillFrom p rest
      else refillFrom { p with inFlight := p.inFlight ++ [t] } rest
    else { p with candidates := t :: rest }

def refill (p : Pool Task Key Row) : Pool Task Key Row := W.refillFrom p p.candidates

def advance (p : Pool Task Key Row) : Pool Task Key Row :=
  if p.launch.limit ≤ p.scored then { p with leaving := true } else W.refill p

def finish (file : Option (List Row)) (p : Pool Task Key Row) (r : Option Row) : System Task Key Row :=
  match r with
  | none => ⟨file, some (W.advance p)⟩
  | some row =>
    if p.scored < p.launch.limit then ⟨some (W.record p row).rows, some (W.advance (W.record p row))⟩
    else ⟨file, some (W.advance p)⟩

inductive Step : System Task Key Row → Event Task Row → System Task Key Row → Prop
  | started (file : Option (List Row)) (o : Launch Task) (hworkers : 0 < o.workers) :
      Step ⟨file, none⟩ (.started o) ⟨file, some (W.refill (W.load o (file.getD [])))⟩
  | finished (file : Option (List Row)) (p : Pool Task Key Row) (before : List Task) (t : Task) (after : List Task)
      (r : Option Row) (hflight : p.inFlight = before ++ t :: after) (hleaving : p.leaving = false)
      (hyields : W.yields t r) :
      Step ⟨file, some p⟩ (.finished t r) (W.finish file { p with inFlight := before ++ after } r)
  | left (file : Option (List Row)) (p : Pool Task Key Row) (hleft : p.leaving = true ∨ p.inFlight = []) :
      Step ⟨file, some p⟩ .left ⟨some p.rows, none⟩
  | killed (file : Option (List Row)) (p : Pool Task Key Row) : Step ⟨file, some p⟩ .killed ⟨file, none⟩

section Refill

variable {W}

structure Refilled (W : Workload Task Key Row) (p p' : Pool Task Key Row) : Prop where
  same : p' = { p with candidates := p'.candidates, inFlight := p'.inFlight }
  taken : ∃ consumed, p.candidates = consumed ++ p'.candidates ∧
    p'.inFlight = p.inFlight ++ consumed.filter (fun t => W.key t ∉ p.done)
  workers : p.inFlight.length ≤ p.launch.workers → p'.inFlight.length ≤ p.launch.workers
  full : p'.inFlight.length < p.launch.workers → p.scored < p.launch.limit → p'.candidates = []
  idle : p.launch.limit ≤ p.scored → p'.inFlight = p.inFlight

theorem refillFrom_spec (p : Pool Task Key Row) (candidates : List Task) :
    Refilled W { p with candidates } (W.refillFrom p candidates) := by
  induction candidates generalizing p with
  | nil => exact ⟨rfl, ⟨[], rfl, by simp [refillFrom]⟩, id, fun _ _ => rfl, fun _ => rfl⟩
  | cons t rest ih =>
    rw [refillFrom]
    by_cases hroom : p.inFlight.length < p.launch.workers ∧ p.scored < p.launch.limit
    · rw [if_pos hroom]
      split_ifs with hdone
      · obtain ⟨hsame, ⟨consumed, hconsumed, htaken⟩, hworkers, hfull, hidle⟩ := ih p
        refine ⟨hsame, ⟨t :: consumed, by rw [List.cons_append, ← hconsumed], ?_⟩, hworkers, hfull, hidle⟩
        rw [htaken, List.filter_cons_of_neg (by simpa using hdone)]
      · obtain ⟨hsame, ⟨consumed, hconsumed, htaken⟩, hworkers, hfull, hidle⟩ :=
          ih { p with inFlight := p.inFlight ++ [t] }
        refine ⟨hsame, ⟨t :: consumed, by rw [List.cons_append, ← hconsumed], ?_⟩, ?_, hfull, ?_⟩
        · rw [htaken, List.filter_cons_of_pos (by simpa using hdone), List.append_assoc]
          rfl
        · intro _
          apply hworkers
          rw [List.length_append, List.length_singleton]
          exact hroom.1
        · intro hlimit
          exact absurd hroom.2 (Nat.not_lt.mpr hlimit)
    · rw [if_neg hroom]
      refine ⟨rfl, ⟨[], rfl, by simp⟩, id, ?_, fun _ => rfl⟩
      intro hlt hlimit
      exact absurd ⟨hlt, hlimit⟩ hroom

variable (W) in
theorem refill_spec (p : Pool Task Key Row) : Refilled W p (W.refill p) := refillFrom_spec p p.candidates

end Refill

section Steps

variable {W} {file : Option (List Row)} {p : Pool Task Key Row} {since : List (Event Task Row)}

theorem Accounted.refill (h : W.Accounted file p since) : W.Accounted file (W.refill p) since := by
  obtain ⟨hsame, ⟨consumed, hconsumed, htaken⟩, hworkers, -, -⟩ := W.refill_spec p
  generalize W.refill p = p' at *
  obtain ⟨old, hperm, hold⟩ := h.split
  have hdone : p'.done = p.done := by rw [hsame]
  have hlaunch : p'.launch = p.launch := by rw [hsame]
  constructor
  · rw [hlaunch]
    exact h.distinct
  · rw [hsame]
    exact h.rows
  · rw [hsame]
    exact h.done
  · rw [hsame]
    exact h.scored
  · rw [hsame]
    exact h.capped
  · rw [hlaunch]
    exact h.positive
  · rw [hlaunch]
    exact hworkers h.workers
  · refine ⟨consumed.filter (fun t => W.key t ∈ p.done) ++ old, ?_, ?_⟩
    · rw [hlaunch]
      apply List.Perm.trans _ hperm
      rw [htaken, hconsumed]
      have hparts := List.filter_append_perm (fun t => decide (W.key t ∉ p.done)) consumed
      simp only [decide_not, Bool.not_not] at hparts ⊢
      simp only [List.append_assoc]
      apply List.Perm.append_left
      apply List.Perm.append_left
      rw [← List.append_assoc (p'.candidates)]
      apply (List.perm_append_comm.append_right old).append_left _ |>.trans
      simp only [← List.append_assoc]
      exact (hparts.append_right p'.candidates).append_right old
    · intro t ht
      rw [hdone]
      rcases List.mem_append.mp ht with ht | ht
      · exact of_decide_eq_true (List.mem_filter.mp ht).2
      · exact hold t ht
  · intro t ht
    rw [hdone]
    rw [htaken] at ht
    rcases List.mem_append.mp ht with ht | ht
    · exact h.fresh t ht
    · exact of_decide_eq_true (List.mem_filter.mp ht).2

theorem Accounted.advance (h : W.Accounted file p since) : W.Accounted file (W.advance p) since := by
  unfold Workload.advance
  split_ifs
  · exact h.leave
  · exact h.refill

theorem ready_refill (hleaving : p.leaving = false) (hroom : p.inFlight = [] ∨ p.scored < p.launch.limit) :
    Ready (W.refill p) := by
  obtain ⟨hsame, -, -, hfull, hidle⟩ := W.refill_spec p
  generalize W.refill p = p' at *
  have hlaunch : p'.launch = p.launch := by rw [hsame]
  have hscored : p'.scored = p.scored := by rw [hsame]
  have hstays : p'.leaving = false := by rw [hsame, hleaving]
  constructor
  · intro hleave
    rw [hstays] at hleave
    cases hleave
  · intro _
    rw [hlaunch, hscored]
    rcases Nat.lt_or_ge p.scored p.launch.limit with hlt | hge
    · exact .inr hlt
    · rw [hidle hge]
      exact hroom
  · intro _ hlt hworkers
    rw [hlaunch, hscored] at hlt
    rw [hlaunch] at hworkers
    exact hfull hworkers hlt

theorem ready_advance (hleaving : p.leaving = false) : Ready (W.advance p) := by
  unfold Workload.advance
  split_ifs with hlimit
  · exact ⟨fun _ => hlimit, nofun, nofun⟩
  · exact ready_refill hleaving (.inr (Nat.not_le.mp hlimit))

theorem advance_launch (p : Pool Task Key Row) : (W.advance p).launch = p.launch := by
  unfold Workload.advance
  split_ifs
  · rfl
  · rw [(W.refill_spec p).same]

end Steps

structure Safe (s : System Task Key Row) (events : List (Event Task Row)) : Prop where
  log : s.rows = events.filterMap Event.row?
  finished : ∀ t r, .finished t r ∈ events → W.yields t r ∧ ∃ o, .started o ∈ events ∧ t ∈ o.tasks
  keys : (s.rows.map W.rowKey).Nodup
  limit : ∀ n, (∀ o, .started o ∈ events → o.limit ≤ n) → s.rows.length ≤ n
  ready : ∀ p ∈ s.pool, Ready p
  accounted : ∀ p ∈ s.pool, ∃ earlier since, events = earlier ++ .started p.launch :: since ∧
    (∀ e ∈ since, e.isFinished) ∧ W.Accounted s.file p since

section Safety

variable {W} {s : System Task Key Row} {file : Option (List Row)} {p : Pool Task Key Row}
  {events : List (Event Task Row)}

omit [DecidableEq Key] in
theorem safe_start : W.Safe {} [] where
  log := rfl
  finished := by simp
  keys := List.nodup_nil
  limit _ _ := Nat.zero_le _
  ready := by simp
  accounted := by simp

theorem Safe.started (h : W.Safe ⟨file, none⟩ events) {o : Launch Task} (hdistinct : (o.tasks.map W.key).Nodup)
    (hworkers : 0 < o.workers) :
    W.Safe ⟨file, some (W.refill (W.load o (file.getD [])))⟩ (events ++ [.started o]) where
  log := by
    rw [List.filterMap_append]
    exact h.log.trans (List.append_nil _).symm
  finished t r ht := by
    rcases List.mem_append.mp ht with ht | ht
    · obtain ⟨hyields, o', ho', hmem⟩ := h.finished t r ht
      exact ⟨hyields, o', List.mem_append_left _ ho', hmem⟩
    · simp at ht
  keys := h.keys
  limit n hn := h.limit n (fun o' ho' => hn o' (List.mem_append_left _ ho'))
  ready p hp := by
    obtain rfl := Option.mem_some.mp hp
    exact ready_refill rfl (.inl rfl)
  accounted p hp := by
    obtain rfl := Option.mem_some.mp hp
    have hlaunch : (W.refill (W.load o (file.getD []))).launch = o := by
      rw [(W.refill_spec _).same]
      rfl
    refine ⟨events, [], by rw [hlaunch], by simp, ?_⟩
    exact (accounted_load hdistinct hworkers).refill

omit [DecidableEq Key] in
theorem Safe.stopped (h : W.Safe s events) {e : Event Task Row} (hrow : e.row? = none) (htask : ∀ t r, e ≠ .finished t r)
    {s' : System Task Key Row} (hrows : s'.rows = s.rows) (hpool : s'.pool = none) : W.Safe s' (events ++ [e]) where
  log := by
    rw [hrows, h.log, List.filterMap_append, List.filterMap_cons_none hrow, List.filterMap_nil, List.append_nil]
  finished t r ht := by
    rcases List.mem_append.mp ht with ht | ht
    · obtain ⟨hyields, o, ho, hmem⟩ := h.finished t r ht
      exact ⟨hyields, o, List.mem_append_left _ ho, hmem⟩
    · exact absurd (List.mem_singleton.mp ht).symm (htask t r)
  keys := by
    rw [hrows]
    exact h.keys
  limit n hn := by
    rw [hrows]
    exact h.limit n (fun o ho => hn o (List.mem_append_left _ ho))
  ready := by simp [hpool]
  accounted := by simp [hpool]

theorem finish_eq (file : Option (List Row)) (p : Pool Task Key Row) (r : Option Row) (hroom : p.scored < p.launch.limit) :
    W.finish file p r = match r with
      | none => ⟨file, some (W.advance p)⟩
      | some row => ⟨some (p.rows ++ [row]), some (W.advance (W.record p row))⟩ := by
  cases r with
  | none => rfl
  | some row =>
    rw [finish]
    exact if_pos hroom

omit [DecidableEq Key] in
theorem Safe.finished_append (h : W.Safe s events) {t : Task} {r : Option Row} {o : Launch Task}
    (hyields : W.yields t r) (hstarted : .started o ∈ events) (hmem : t ∈ o.tasks) :
    ∀ t' r', Event.finished t' r' ∈ events ++ [.finished t r] →
      W.yields t' r' ∧ ∃ o, .started o ∈ events ++ [.finished t r] ∧ t' ∈ o.tasks := by
  intro t' r' ht'
  rcases List.mem_append.mp ht' with ht' | ht'
  · obtain ⟨hyields', o', ho', hmem'⟩ := h.finished t' r' ht'
    exact ⟨hyields', o', List.mem_append_left _ ho', hmem'⟩
  · obtain ⟨rfl, rfl⟩ := Event.finished.inj (List.mem_singleton.mp ht')
    exact ⟨hyields, o, List.mem_append_left _ hstarted, hmem⟩

theorem accounted_advance {earlier since : List (Event Task Row)} {q : Pool Task Key Row} {t : Task} {r : Option Row}
    (hevents : events = earlier ++ .started p.launch :: since) (hsince : ∀ e ∈ since, e.isFinished)
    (hlaunch : q.launch = p.launch) (hacc : W.Accounted file q (since ++ [.finished t r])) :
    ∀ p' ∈ some (W.advance q), ∃ earlier since', events ++ [.finished t r] = earlier ++ .started p'.launch :: since' ∧
      (∀ e ∈ since', e.isFinished) ∧ W.Accounted file p' since' := by
  intro p' hp'
  obtain rfl := Option.mem_some.mp hp'
  refine ⟨earlier, since ++ [.finished t r], ?_, ?_, hacc.advance⟩
  · rw [advance_launch, hlaunch, hevents, List.append_assoc, List.cons_append]
  · intro e he
    rcases List.mem_append.mp he with he | he
    · exact hsince e he
    · exact ⟨t, r, List.mem_singleton.mp he⟩

theorem Safe.finish (h : W.Safe ⟨file, some p⟩ events) {before after : List Task} {t : Task} {r : Option Row}
    (hflight : p.inFlight = before ++ t :: after) (hleaving : p.leaving = false) (hyields : W.yields t r) :
    W.Safe (W.finish file { p with inFlight := before ++ after } r) (events ++ [.finished t r]) := by
  obtain ⟨earlier, since, hevents, hsince, hacc⟩ := h.accounted p rfl
  have hinFlight : t ∈ p.inFlight := by simp [hflight]
  have hroom : p.scored < p.launch.limit :=
    ((h.ready p rfl).room hleaving).resolve_left (List.ne_nil_of_mem hinFlight)
  have hremoved := hacc.remove r hflight hroom
  have hstarted : .started p.launch ∈ events := by simp [hevents]
  have hmem : t ∈ p.launch.tasks := by
    obtain ⟨old, hperm, -⟩ := hacc.split
    apply hperm.subset
    simp [hflight]
  have hfinished := h.finished_append hyields hstarted hmem
  have hlog : (events ++ [Event.finished t r]).filterMap Event.row? = file.getD [] ++ r.toList := by
    rw [List.filterMap_append, ← h.log]
    cases r with
    | none => rfl
    | some row => rfl
  rw [finish_eq file { p with inFlight := before ++ after } r hroom]
  cases r with
  | none =>
    refine ⟨?_, hfinished, h.keys, ?_, ?_, accounted_advance hevents hsince rfl hremoved⟩
    · rw [hlog]
      exact (List.append_nil _).symm
    · intro n hn
      exact h.limit n (fun o ho => hn o (List.mem_append_left _ ho))
    · intro p' hp'
      obtain rfl := Option.mem_some.mp hp'
      exact ready_advance hleaving
  | some row =>
    have hkey := W.rowKey_eq t row hyields
    have hfresh : W.rowKey row ∉ (file.getD []).map W.rowKey := by
      rw [hkey, ← hacc.rows, ← hacc.done]
      exact hacc.fresh t hinFlight
    have hrecorded := hremoved.record (r := row) (by
      rw [hkey]
      exact hacc.apart hflight) hroom
    refine ⟨?_, hfinished, ?_, ?_, ?_, accounted_advance hevents hsince rfl hrecorded⟩
    · rw [hlog]
      exact congrArg (· ++ [row]) hacc.rows
    · change ((p.rows ++ [row]).map W.rowKey).Nodup
      rw [hacc.rows, List.map_append, List.map_singleton, ← List.concat_eq_append, List.nodup_concat]
      exact ⟨hfresh, h.keys⟩
    · intro n hn
      have hle := hn p.launch (List.mem_append_left _ hstarted)
      have hlen : (p.rows ++ [row]).length = p.scored + 1 := by
        rw [List.length_append, List.length_singleton, hacc.scored]
      exact Nat.le_trans (Nat.le_of_eq hlen) (Nat.le_trans hroom hle)
    · intro p' hp'
      obtain rfl := Option.mem_some.mp hp'
      exact ready_advance hleaving

theorem safe_step {e : Event Task Row} {s' : System Task Key Row} (h : W.Safe s events)
    (hdistinct : ∀ o, e = .started o → (o.tasks.map W.key).Nodup) (hstep : W.Step s e s') :
    W.Safe s' (events ++ [e]) := by
  cases hstep with
  | started file o hworkers => exact h.started (hdistinct o rfl) hworkers
  | finished file p before t after r hflight hleaving hyields => exact h.finish hflight hleaving hyields
  | left file p hleft =>
    obtain ⟨_, _, _, _, hacc⟩ := h.accounted p rfl
    exact h.stopped rfl (by simp) hacc.rows rfl
  | killed file p => exact h.stopped rfl (by simp) rfl rfl

def Distinct (W : Workload Task Key Row) (events : List (Event Task Row)) : Prop :=
  ∀ o, .started o ∈ events → (o.tasks.map W.key).Nodup

theorem run_safe (hdistinct : W.Distinct events) (h : Run W.Step {} s events) : W.Safe s events := by
  refine Run.invariant (fun s events => W.Distinct events → W.Safe s events) (fun _ => safe_start) ?_ h hdistinct
  intro s events e s' ih hstep hall
  apply safe_step (ih (fun o ho => hall o (List.mem_append_left _ ho))) _ hstep
  rintro o rfl
  exact hall o (List.mem_append_right _ (List.mem_singleton_self _))

structure Checkpoint (W : Workload Task Key Row) (s : System Task Key Row) (events : List (Event Task Row)) : Prop where
  log : s.rows = events.filterMap Event.row?
  keys : (s.rows.map W.rowKey).Nodup
  limit : ∀ n, (∀ o, .started o ∈ events → o.limit ≤ n) → s.rows.length ≤ n
  workers : ∀ p ∈ s.pool, p.inFlight.length ≤ p.launch.workers
  fresh : ∀ p ∈ s.pool, ∀ t ∈ p.inFlight, W.key t ∉ s.rows.map W.rowKey
  once : ∀ p ∈ s.pool, ∃ earlier since, events = earlier ++ .started p.launch :: since ∧
    ((since.filterMap Event.task? ++ p.inFlight).map W.key).Nodup

theorem run_checkpoint (hdistinct : W.Distinct events) (h : Run W.Step {} s events) : W.Checkpoint s events := by
  have hsafe := run_safe hdistinct h
  constructor
  · exact hsafe.log
  · exact hsafe.keys
  · exact hsafe.limit
  · intro p hp
    obtain ⟨_, _, _, _, hacc⟩ := hsafe.accounted p hp
    exact hacc.workers
  · intro p hp t ht
    obtain ⟨_, _, _, _, hacc⟩ := hsafe.accounted p hp
    rw [System.rows, ← hacc.rows, ← hacc.done]
    exact hacc.fresh t ht
  · intro p hp
    obtain ⟨earlier, since, hevents, -, hacc⟩ := hsafe.accounted p hp
    obtain ⟨old, hperm, -⟩ := hacc.split
    refine ⟨earlier, since, hevents, ?_⟩
    have hall := (hperm.map W.key).nodup_iff.mpr hacc.distinct
    rw [List.append_assoc (since.filterMap Event.task? ++ p.inFlight)] at hall
    exact hall.sublist ((List.sublist_append_left _ _).map W.key)

def Achieved (W : Workload Task Key Row) (o : Launch Task) (since : List (Event Task Row)) (rows : List Row) : Prop :=
  o.limit ≤ rows.length ∨ ∀ t ∈ o.tasks, W.key t ∈ rows.map W.rowKey ∨ .finished t none ∈ since

omit [DecidableEq Key] in
theorem Safe.key_of_finished (h : W.Safe s events) {t : Task} {row : Row} (ht : .finished t (some row) ∈ events) :
    W.key t ∈ s.rows.map W.rowKey := by
  rw [← W.rowKey_eq t row (h.finished t _ ht).1, h.log]
  apply List.mem_map_of_mem
  exact List.mem_filterMap.mpr ⟨_, ht, rfl⟩

theorem Safe.left {s' : System Task Key Row} (h : W.Safe s events) (hleft : W.Step s .left s') :
    ∃ o earlier since, events = earlier ++ .started o :: since ∧ (∀ e ∈ since, e.isFinished) ∧
      W.Achieved o since s'.rows ∧ (since.filterMap Event.row? = [] ∨ s'.rows.length ≤ o.limit) := by
  cases hleft with
  | left file p hleft =>
    obtain ⟨earlier, since, hevents, hsince, hacc⟩ := h.accounted p rfl
    have hcapped := hacc.capped
    rw [hacc.scored] at hcapped
    refine ⟨p.launch, earlier, since, hevents, hsince, ?_, hcapped⟩
    change p.launch.limit ≤ p.rows.length ∨ _
    rw [← hacc.scored]
    rcases Nat.lt_or_ge p.scored p.launch.limit with hlt | hge
    · have hstays : p.leaving = false := by
        rw [← Bool.not_eq_true]
        exact fun hleaving => Nat.not_le.mpr hlt ((h.ready p rfl).leaving hleaving)
      have hnone : p.inFlight = [] := hleft.resolve_left (by simp [hstays])
      have hempty : p.candidates = [] := (h.ready p rfl).filled hstays hlt (by rw [hnone]; exact hacc.positive)
      right
      intro t ht
      obtain ⟨old, hperm, hold⟩ := hacc.split
      rw [hnone, hempty, List.append_nil, List.append_nil] at hperm
      rcases List.mem_append.mp (hperm.mem_iff.mpr ht) with ht | ht
      · obtain ⟨e, he, het⟩ := List.mem_filterMap.mp ht
        obtain ⟨t', r, rfl⟩ := hsince e he
        cases het
        cases r with
        | none => exact .inr he
        | some row =>
          have hfinished : .finished t (some row) ∈ events := by
            rw [hevents]
            exact List.mem_append_right _ (List.mem_cons_of_mem _ he)
          have hkey := h.key_of_finished hfinished
          rw [System.rows, ← hacc.rows] at hkey
          exact .inl hkey
      · exact .inl ((hacc.done _).mp (hold t ht))
    · exact .inl hge

omit [DecidableEq Key] in
theorem last_launch {o o' : Launch Task} {earlier earlier' since since' : List (Event Task Row)}
    (hsince : ∀ o, Event.started o ∉ since) (hsince' : ∀ o, Event.started o ∉ since')
    (h : earlier ++ .started o :: since = earlier' ++ .started o' :: since') :
    o = o' ∧ earlier = earlier' ∧ since = since' := by
  rcases List.append_eq_append_iff.mp h with ⟨mid, hearlier, hmid⟩ | ⟨mid, hearlier, hmid⟩
  · cases mid with
    | nil =>
      cases hmid
      exact ⟨rfl, by rw [hearlier, List.append_nil], rfl⟩
    | cons e mid =>
      rw [List.cons_append] at hmid
      obtain ⟨-, hmid⟩ := List.cons.inj hmid
      exact absurd (by rw [hmid]; simp) (hsince o')
  · cases mid with
    | nil =>
      cases hmid
      exact ⟨rfl, by rw [hearlier, List.append_nil], rfl⟩
    | cons e mid =>
      rw [List.cons_append] at hmid
      obtain ⟨-, hmid⟩ := List.cons.inj hmid
      exact absurd (by rw [hmid]; simp) (hsince' o)

section Exact

variable {score : Task → Option Row} {o : Launch Task}

omit [DecidableEq Key] in
theorem scored_nodup (hkey : ∀ t r, score t = some r → W.rowKey r = W.key t)
    (hdistinct : (o.tasks.map W.key).Nodup) : (o.tasks.filterMap score).Nodup := by
  have hkeys : ((o.tasks.filterMap score).map W.rowKey).Sublist (o.tasks.map W.key) := by
    induction o.tasks with
    | nil => exact .refl _
    | cons t rest ih =>
      cases ht : score t with
      | none =>
        rw [List.filterMap_cons_none ht, List.map_cons]
        exact ih.cons _
      | some row =>
        rw [List.filterMap_cons_some ht, List.map_cons, List.map_cons,
          hkey t row ht]
        exact ih.cons_cons _
  exact List.Nodup.of_map _ (hdistinct.sublist hkeys)

omit [DecidableEq Key] in
theorem Safe.rows_subset (h : W.Safe s events) (hscore : ∀ t r, W.yields t r → r = score t)
    (hpart : ∀ o', .started o' ∈ events → o'.tasks ⊆ o.tasks) : s.rows ⊆ o.tasks.filterMap score := by
  intro r hr
  rw [h.log] at hr
  obtain ⟨e, he, her⟩ := List.mem_filterMap.mp hr
  cases e with
  | finished t r' =>
    cases her
    obtain ⟨hyields, o', ho', ht⟩ := h.finished t _ he
    exact List.mem_filterMap.mpr ⟨t, hpart o' ho' ht, (hscore t _ hyields).symm⟩
  | started o' => cases her
  | left => cases her
  | killed => cases her

omit [DecidableEq Key] in
theorem Safe.subset_rows (h : W.Safe s events) (hscore : ∀ t r, W.yields t r → r = score t)
    (hkey : ∀ t r, score t = some r → W.rowKey r = W.key t) (hdistinct : (o.tasks.map W.key).Nodup)
    (hpart : ∀ o', .started o' ∈ events → o'.tasks ⊆ o.tasks)
    (hcovered : ∀ t ∈ o.tasks, W.key t ∈ s.rows.map W.rowKey ∨ .finished t none ∈ events) :
    o.tasks.filterMap score ⊆ s.rows := by
  intro r hr
  obtain ⟨t, ht, htr⟩ := List.mem_filterMap.mp hr
  have hfound : W.key t ∈ s.rows.map W.rowKey := by
    rcases hcovered t ht with hfound | hnone
    · exact hfound
    · have hnever := hscore t none (h.finished t none hnone).1
      rw [htr] at hnever
      cases hnever
  obtain ⟨r', hr', hrr'⟩ := List.mem_map.mp hfound
  obtain ⟨t', ht', htr'⟩ := List.mem_filterMap.mp (h.rows_subset hscore hpart hr')
  have hkeys : W.key t' = W.key t := by
    rw [← hkey t' r' htr', hrr']
  obtain rfl := List.inj_on_of_nodup_map hdistinct ht' ht hkeys
  rw [htr] at htr'
  cases htr'
  exact hr'

theorem left_exact {earlier since : List (Event Task Row)} {s' : System Task Key Row}
    (hscore : ∀ t r, W.yields t r → r = score t) (hkey : ∀ t r, score t = some r → W.rowKey r = W.key t)
    (hdistinct : (o.tasks.map W.key).Nodup) (hearlier : ∀ o', .started o' ∈ earlier → o'.tasks.Sublist o.tasks)
    (hsince : ∀ o', .started o' ∉ since) (h : Run W.Step {} s (earlier ++ .started o :: since))
    (hleft : W.Step s .left s') :
    s'.rows.Subperm (o.tasks.filterMap score) ∧
      s'.rows.length = max (earlier.filterMap Event.row?).length (min o.limit (o.tasks.filterMap score).length) := by
  have hlaunches : ∀ o', .started o' ∈ earlier ++ .started o :: since → o'.tasks.Sublist o.tasks := by
    intro o' ho'
    rcases List.mem_append.mp ho' with ho' | ho'
    · exact hearlier o' ho'
    · rcases List.mem_cons.mp ho' with ho' | ho'
      · rw [Event.started.inj ho']
      · exact absurd ho' (hsince o')
  have hall : W.Distinct (earlier ++ .started o :: since) := fun o' ho' =>
    hdistinct.sublist ((hlaunches o' ho').map W.key)
  have hsafe := run_safe hall h
  have hsafe' : W.Safe s' (earlier ++ .started o :: since ++ [.left]) := safe_step hsafe nofun hleft
  have hpart : ∀ o', .started o' ∈ earlier ++ .started o :: since ++ [.left] → o'.tasks ⊆ o.tasks := by
    intro o' ho'
    exact (hlaunches o' (by simpa using ho')).subset
  have hsubperm := (List.Nodup.of_map _ hsafe'.keys).subperm (hsafe'.rows_subset hscore hpart)
  refine ⟨hsubperm, ?_⟩
  have hle := hsubperm.length_le
  obtain ⟨o', earlier', since', hevents, hsince', hachieved, hcapped⟩ := hsafe.left hleft
  have hnone : ∀ o', Event.started o' ∉ since' := by
    intro o' ho'
    obtain ⟨t, r, ht⟩ := hsince' _ ho'
    cases ht
  obtain ⟨rfl, rfl, rfl⟩ := last_launch hsince hnone hevents
  have hrows : s'.rows.length = (earlier.filterMap Event.row?).length + (since.filterMap Event.row?).length := by
    rw [hsafe'.log, List.append_assoc, List.filterMap_append, List.length_append, List.cons_append,
      List.filterMap_cons_none rfl, List.filterMap_append, List.length_append]
    rfl
  have hge : min o.limit (o.tasks.filterMap score).length ≤ s'.rows.length := by
    rcases hachieved with hfull | hcovered
    · omega
    · have hback := hsafe'.subset_rows hscore hkey hdistinct hpart
        (fun t ht => (hcovered t ht).imp_right (by simp +contextual))
      have := ((scored_nodup hkey hdistinct).subperm hback).length_le
      omega
  rcases hcapped with hidle | hlimit
  · rw [hidle, List.length_nil] at hrows
    omega
  · omega

end Exact

end Safety

end Workload

end TokensThatSuffice.ResumablePool
