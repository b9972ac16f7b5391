import TokensThatSuffice.InstanceRuns
import TokensThatSuffice.Runs

namespace TokensThatSuffice.CollectTrajectories

open Runs TryBlocks

/-- A `.json` of the output directory; `lastStatus` is the `exit_status` that the last message carries. -/
inductive TrajJson where
  | torn
  | run (r : SavedRun) (lastStatus : Option String)

def doneStatuses : List String := ["Submitted", "LimitsExceeded"]

def TrajJson.doneFor : TrajJson → Option String
  | .torn => none
  | .run r lastStatus =>
    if (r.messages.getLast?.any (·.role = .other "exit") && lastStatus.any (· ∈ doneStatuses)) = true then
      some r.instanceId
    else none

def count (counts : String → ℕ) (file : TrajJson) : String → ℕ :=
  match file.doneFor with
  | some i => Function.update counts i (counts i + 1)
  | none => counts

def doneCounts (files : List TrajJson) : String → ℕ := files.foldl count fun _ => 0

def selected (files : List TrajJson) (runsPerInstance : ℤ) (instances : List String) : List String :=
  instances.filter fun i => (doneCounts files i : ℤ) < runsPerInstance

def saved (o : Stages) (instanceId uid : String) (lastStatus : Option String) : Option TrajJson :=
  (processInstance o instanceId uid).2.trajectory.map fun r => .run r lastStatus

structure Launch where
  runsPerInstance : ℤ
  pending : List String
  running : List String := []

structure Collection where
  files : List TrajJson := []
  launch : Option Launch := none

inductive CollectEvent where
  | started (instances : List String) (runsPerInstance : ℤ)
  | begun (i : String)
  | ended (i : String) (done : Bool)
  | interrupted
  | completed
  | killed
  deriving DecidableEq

/-- One launch works on the directory at a time, with any number of workers. A worker that cannot write its file, or is
killed while it does, leaves a torn one. -/
inductive CollectStep : Collection → CollectEvent → Collection → Prop
  | started (files : List TrajJson) (instances : List String) (runs : ℤ) (hnodup : instances.Nodup) :
      CollectStep ⟨files, none⟩ (.started instances runs) ⟨files, some ⟨runs, selected files runs instances, []⟩⟩
  | begun (files : List TrajJson) (l : Launch) (before : List String) (i : String) (after : List String)
      (hpending : l.pending = before ++ i :: after) :
      CollectStep ⟨files, some l⟩ (.begun i)
        ⟨files, some { l with pending := before ++ after, running := i :: l.running }⟩
  | ended (files : List TrajJson) (l : Launch) (before : List String) (i : String) (after : List String) (o : Stages)
      (uid : String) (lastStatus : Option String) (file : Option TrajJson) (hrunning : l.running = before ++ i :: after)
      (hfile : file = some .torn ∨ file = saved o i uid lastStatus) :
      CollectStep ⟨files, some l⟩ (.ended i (file.any fun f => f.doneFor.isSome))
        ⟨files ++ file.toList, some { l with running := before ++ after }⟩
  | interrupted (files : List TrajJson) (l : Launch) :
      CollectStep ⟨files, some l⟩ .interrupted ⟨files, some { l with pending := [] }⟩
  | completed (files : List TrajJson) (l : Launch) (hpending : l.pending = []) (hrunning : l.running = []) :
      CollectStep ⟨files, some l⟩ .completed ⟨files, none⟩
  | killed (files : List TrajJson) (l : Launch) (torn : ℕ) (htorn : torn ≤ l.running.length) :
      CollectStep ⟨files, some l⟩ .killed ⟨files ++ List.replicate torn .torn, none⟩

section Counting

variable {files : List TrajJson} {file : TrajJson} {i j : String}

theorem count_apply (counts : String → ℕ) (file : TrajJson) (i : String) :
    count counts file i = counts i + if file.doneFor = some i then 1 else 0 := by
  unfold count
  cases file.doneFor with
  | none => simp
  | some j =>
    by_cases hj : i = j
    · subst hj
      simp
    · have hne : ¬ j = i := fun heq => hj heq.symm
      simp [hj, hne]

theorem doneCounts_append (files more : List TrajJson) (i : String) :
    doneCounts (files ++ more) i = doneCounts files i + more.countP (fun f => f.doneFor = some i) := by
  induction more using List.reverseRecOn with
  | nil => simp
  | append_singleton more file ih =>
    rw [← List.append_assoc, doneCounts, List.foldl_append, List.foldl_cons, List.foldl_nil, count_apply,
      List.countP_append, List.countP_singleton]
    change doneCounts (files ++ more) i + _ = _
    rw [ih, Nat.add_assoc]
    simp

def OwnTrajectory (i : String) (s : Locals) : Prop := ∀ r ∈ s.trajectory, r.instanceId = i

theorem body_own (o : Stages) : Stable (OwnTrajectory i) (body o) := by
  unfold body
  refine stable_bind (stable_outcome _) fun _ => ?_
  refine stable_bind (stable_outcome _) fun _ => ?_
  refine stable_bind (stable_assign fun _ hs => hs) fun _ => ?_
  refine stable_bind (stable_outcome _) fun info => ?_
  refine stable_bind (stable_assign fun _ hs => hs) fun _ => ?_
  exact stable_bind (stable_outcome _) fun evaluation => stable_assign fun _ hs => hs

theorem save_own (o : Stages) (uid : String) : Stable (OwnTrajectory i) (save o i uid) := by
  intro s hs
  unfold save
  split
  · exact hs
  · exact hs
  · exact hs
  · rintro r ⟨⟩
    rfl

theorem processInstance_own (o : Stages) (i uid : String) : OwnTrajectory i (processInstance o i uid).2 := by
  have hrun : Stable (OwnTrajectory i) (do
      outcome o.setup
      tryFinally (tryExcept (body o) (·.isException) onException) (save o i uid)) := by
    refine stable_bind (stable_outcome _) fun _ => ?_
    exact stable_tryFinally (stable_tryExcept (body_own o) fun _ _ hs => hs) (save_own o uid)
  have hown := hrun {} nofun
  unfold processInstance
  dsimp only
  generalize (do
    outcome o.setup
    tryFinally (tryExcept (body o) (·.isException) onException) (save o i uid) : Attempt Locals Raised Unit) {} =
      last at hown ⊢
  obtain ⟨r, s⟩ := last
  cases r with
  | ok _ => exact hown
  | error e => exact hown

theorem doneFor_saved {o : Stages} {uid : String} {lastStatus : Option String} {file : Option TrajJson}
    (hfile : file = some .torn ∨ file = saved o i uid lastStatus) {f : TrajJson} (hf : f ∈ file)
    (hdone : f.doneFor = some j) : j = i := by
  rcases hfile with rfl | rfl
  · cases hf
    cases hdone
  · obtain ⟨r, hr, rfl⟩ := Option.map_eq_some_iff.mp hf
    unfold TrajJson.doneFor at hdone
    dsimp only at hdone
    split_ifs at hdone
    cases hdone
    exact processInstance_own o i uid r hr

theorem doneCounts_ended {o : Stages} {uid : String} {lastStatus : Option String} {file : Option TrajJson}
    (hfile : file = some .torn ∨ file = saved o i uid lastStatus) (files : List TrajJson) (j : String) :
    doneCounts (files ++ file.toList) j =
      doneCounts files j + if j = i ∧ file.any (fun f => f.doneFor.isSome) then 1 else 0 := by
  rw [doneCounts_append]
  congr 1
  cases hf : file with
  | none => simp
  | some f =>
    rw [Option.toList_some, List.countP_singleton, Option.any_some]
    cases hdone : f.doneFor with
    | none => simp
    | some k =>
      rw [doneFor_saved hfile hf hdone]
      simp [eq_comm]

theorem doneCounts_torn (files : List TrajJson) (n : ℕ) (j : String) :
    doneCounts (files ++ List.replicate n .torn) j = doneCounts files j := by
  rw [doneCounts_append, List.countP_replicate]
  simp [TrajJson.doneFor]

theorem doneCounts_mono {before after : List TrajJson} (h : before <+: after) (j : String) :
    doneCounts before j ≤ doneCounts after j := by
  obtain ⟨more, rfl⟩ := h
  rw [doneCounts_append]
  exact Nat.le_add_right _ _

end Counting

section Limits

variable {files : List TrajJson} {limit : ℤ} {s s' : Collection} {e : CollectEvent} {events : List CollectEvent}

structure Limited (files : List TrajJson) (limit : ℤ) (s : Collection) : Prop where
  grown : files <+: s.files
  bounded : ∀ i, (doneCounts s.files i : ℤ) ≤ max (doneCounts files i : ℤ) limit
  within : ∀ l ∈ s.launch, l.runsPerInstance ≤ limit
  apart : ∀ l ∈ s.launch, (l.pending ++ l.running).Nodup
  short : ∀ l ∈ s.launch, ∀ i ∈ l.pending ++ l.running, (doneCounts s.files i : ℤ) < l.runsPerInstance

theorem perm_move (before after running : List String) (i : String) :
    (before ++ i :: after ++ running).Perm (before ++ after ++ i :: running) := by
  refine List.Perm.trans ?_ List.perm_middle.symm
  exact List.perm_middle.append_right running

theorem Limited.work (h : Limited files limit s) {l : Launch} (hl : s.launch = some l) {work : List String}
    (hnodup : work.Nodup) (hwork : work ⊆ l.pending ++ l.running) {pending running : List String}
    (heq : work.Perm (pending ++ running)) :
    Limited files limit ⟨s.files, some { l with pending := pending, running := running }⟩ := by
  refine ⟨h.grown, h.bounded, ?_, ?_, ?_⟩
  · rintro l' ⟨⟩
    exact h.within l hl
  · rintro l' ⟨⟩
    exact heq.nodup_iff.mp hnodup
  · rintro l' ⟨⟩ i hi
    exact h.short l hl i (hwork (heq.mem_iff.mpr hi))

theorem Limited.step (h : Limited files limit s) (hlimit : ∀ instances runs, e = .started instances runs → runs ≤ limit)
    (hstep : CollectStep s e s') : Limited files limit s' := by
  cases hstep with
  | started now instances runs hnodup =>
    refine ⟨h.grown, h.bounded, ?_, ?_, ?_⟩
    · rintro l ⟨⟩
      exact hlimit instances runs rfl
    · rintro l ⟨⟩
      rw [List.append_nil]
      exact hnodup.filter _
    · rintro l ⟨⟩ i hi
      rw [List.append_nil] at hi
      exact of_decide_eq_true (List.mem_filter.mp hi).2
  | begun now l before i after hpending =>
    have hperm : (l.pending ++ l.running).Perm ((before ++ after) ++ i :: l.running) := by
      rw [hpending]
      exact perm_move before after l.running i
    exact h.work rfl (h.apart l rfl) (List.Subset.refl _) hperm
  | ended now l before i after o uid lastStatus file hrunning hfile =>
    have hperm : (l.pending ++ l.running).Perm (i :: (l.pending ++ (before ++ after))) := by
      rw [hrunning]
      exact (List.perm_middle.append_left l.pending).trans List.perm_middle
    obtain ⟨hi, hnodup⟩ := List.nodup_cons.mp (hperm.nodup_iff.mp (h.apart l rfl))
    have hshort (j : String) (hj : j ∈ i :: (l.pending ++ (before ++ after))) :=
      h.short l rfl j (hperm.mem_iff.mpr hj)
    refine ⟨h.grown.trans (List.prefix_append _ _), ?_, ?_, ?_, ?_⟩
    · intro j
      have hlt := hshort i List.mem_cons_self
      have hle := h.within l rfl
      have hbounded := h.bounded j
      dsimp only at hlt hle
      rw [doneCounts_ended hfile]
      split_ifs with hj
      · rw [hj.1]
        push_cast
        omega
      · exact hbounded
    · rintro l' ⟨⟩
      exact h.within l rfl
    · rintro l' ⟨⟩
      exact hnodup
    · rintro l' ⟨⟩ j hj
      have hne : j ≠ i := fun heq => hi (heq ▸ hj)
      rw [doneCounts_ended hfile, if_neg fun hboth => hne hboth.1]
      exact hshort j (List.mem_cons_of_mem i hj)
  | interrupted now l =>
    exact h.work rfl ((h.apart l rfl).sublist (List.sublist_append_right _ _)) (List.subset_append_right _ _) (.refl _)
  | completed now l hpending hrunning => exact ⟨h.grown, h.bounded, nofun, nofun, nofun⟩
  | killed now l torn htorn =>
    refine ⟨h.grown.trans (List.prefix_append _ _), ?_, nofun, nofun, nofun⟩
    intro i
    rw [doneCounts_torn]
    exact h.bounded i

theorem limited_run (h : Run CollectStep ⟨files, none⟩ s events)
    (hlimit : ∀ instances runs, .started instances runs ∈ events → runs ≤ limit) : Limited files limit s := by
  induction h with
  | nil => exact ⟨List.prefix_rfl, fun i => le_max_left _ _, nofun, nofun, nofun⟩
  | snoc earlier last ih =>
    apply (ih fun instances runs hstarted => hlimit instances runs (List.mem_append_left _ hstarted)).step _ last
    rintro instances runs rfl
    exact hlimit instances runs (List.mem_append_right _ (List.mem_singleton_self _))

theorem collect_limited (h : Run CollectStep ⟨files, none⟩ s events)
    (hlimit : ∀ instances runs, .started instances runs ∈ events → runs ≤ limit) (i : String) :
    files <+: s.files ∧ doneCounts files i ≤ doneCounts s.files i ∧
      (doneCounts s.files i : ℤ) ≤ max (doneCounts files i : ℤ) limit ∧
      (limit ≤ doneCounts files i → .begun i ∉ events ∧ doneCounts s.files i = doneCounts files i) := by
  have hlimited := limited_run h hlimit
  have hmono := doneCounts_mono hlimited.grown i
  have hbounded := hlimited.bounded i
  refine ⟨hlimited.grown, hmono, hbounded, ?_⟩
  intro hdone
  refine ⟨?_, by omega⟩
  intro hbegun
  obtain ⟨before, after, rfl⟩ := List.append_of_mem hbegun
  obtain ⟨middle, hbefore, hafter⟩ := h.split
  obtain ⟨next, hstep, -⟩ := hafter.first
  have hearlier := limited_run hbefore fun instances runs hstarted =>
    hlimit instances runs (List.mem_append_left _ hstarted)
  have hmore := doneCounts_mono hearlier.grown i
  cases hstep with
  | begun now l older i newer hpending =>
    have hshort := hearlier.short l rfl i (by rw [hpending]; simp)
    have hwithin := hearlier.within l rfl
    dsimp only at hshort hmore
    omega

end Limits

section Rounds

variable {files : List TrajJson} {limit : ℤ} {s s' : Collection} {e : CollectEvent} {events : List CollectEvent}

namespace CollectEvent

def begun? : CollectEvent → Option String
  | .begun i => some i
  | _ => none

def ended? : CollectEvent → Option String
  | .ended i _ => some i
  | _ => none

def IsWork (e : CollectEvent) : Prop := (∃ i, e = .begun i) ∨ ∃ i done, e = .ended i done

end CollectEvent

structure Working (files : List TrajJson) (pending : List String) (s : Collection) (events : List CollectEvent) :
    Prop where
  launch : ∃ l, s.launch = some l ∧ (events.filterMap CollectEvent.begun? ++ l.pending).Perm pending ∧
    (events.filterMap CollectEvent.ended? ++ l.running).Perm (events.filterMap CollectEvent.begun?)
  counts : ∀ i, doneCounts s.files i = doneCounts files i + events.count (.ended i true)

theorem working_run {runs : ℤ} {pending : List String} (h : Run CollectStep ⟨files, some ⟨runs, pending, []⟩⟩ s events)
    (hwork : ∀ e ∈ events, e.IsWork) : Working files pending s events := by
  induction h with
  | nil => exact ⟨⟨_, rfl, .refl _, .refl _⟩, fun i => rfl⟩
  | @snoc s s' events e earlier last ih =>
    obtain ⟨⟨l, hl, hpending, hrunning⟩, hcounts⟩ := ih fun e he => hwork e (List.mem_append_left _ he)
    have hlast := hwork e (List.mem_append_right _ (List.mem_singleton_self e))
    cases last with
    | begun now l' before i after hsplit =>
      cases hl
      have hbegun : [CollectEvent.begun i].filterMap CollectEvent.begun? = [i] := rfl
      have hended : [CollectEvent.begun i].filterMap CollectEvent.ended? = [] := rfl
      refine ⟨⟨_, rfl, ?_, ?_⟩, ?_⟩
      · rw [List.filterMap_append, hbegun, List.append_assoc]
        refine (List.Perm.append_left _ ?_).trans hpending
        rw [hsplit]
        change (i :: (before ++ after)).Perm _
        exact List.perm_middle.symm
      · rw [List.filterMap_append, List.filterMap_append, hbegun, hended, List.append_nil]
        exact List.perm_middle.trans ((hrunning.cons i).trans (List.perm_append_singleton i _).symm)
      · intro j
        rw [List.count_append, ← Nat.add_assoc, ← hcounts]
        simp
    | ended now l' before i after o uid lastStatus file hsplit hfile =>
      cases hl
      generalize hdone : file.any (fun f => f.doneFor.isSome) = done
      have hbegun : [CollectEvent.ended i done].filterMap CollectEvent.begun? = [] := rfl
      have hended : [CollectEvent.ended i done].filterMap CollectEvent.ended? = [i] := rfl
      refine ⟨⟨_, rfl, ?_, ?_⟩, ?_⟩
      · rw [List.filterMap_append, hbegun, List.append_nil]
        exact hpending
      · rw [List.filterMap_append, List.filterMap_append, hbegun, hended, List.append_nil, List.append_assoc]
        refine (List.Perm.append_left _ ?_).trans hrunning
        rw [hsplit]
        change (i :: (before ++ after)).Perm _
        exact List.perm_middle.symm
      · intro j
        rw [doneCounts_ended hfile, hdone, List.count_append, ← Nat.add_assoc, ← hcounts, List.count_singleton]
        congr 1
        by_cases hj : j = i
        · subst hj
          cases done <;> simp
        · have hne : ¬ i = j := fun heq => hj heq.symm
          simp [hj, hne]
    | _ =>
      obtain ⟨i, hi⟩ | ⟨i, done, hi⟩ := hlast
      · cases hi
      · cases hi

theorem launch_attempts {instances : List String} {runs : ℤ} {work : List CollectEvent}
    (h : Run CollectStep ⟨files, none⟩ s (.started instances runs :: work ++ [.completed]))
    (hwork : ∀ e ∈ work, e.IsWork) :
    (work.filterMap CollectEvent.begun?).Perm (selected files runs instances) ∧
      (work.filterMap CollectEvent.ended?).Perm (selected files runs instances) ∧ instances.Nodup ∧
      ∀ i, doneCounts s.files i = doneCounts files i + work.count (.ended i true) := by
  obtain ⟨middle, h, hcompleted⟩ := h.last
  obtain ⟨first, hstarted, h⟩ := h.first
  cases hstarted with
  | started now instances runs hnodup =>
    obtain ⟨⟨l, hl, hpending, hrunning⟩, hcounts⟩ := working_run h hwork
    cases hcompleted with
    | completed now l' hnone hidle =>
      cases hl
      rw [hnone, List.append_nil] at hpending
      rw [hidle, List.append_nil] at hrunning
      exact ⟨hpending, hrunning.trans hpending, hnodup, hcounts⟩

theorem count_ended {work : List CollectEvent} (hdone : ∀ i done, .ended i done ∈ work → done = true) (i : String) :
    work.count (.ended i true) = (work.filterMap CollectEvent.ended?).count i := by
  induction work with
  | nil => rfl
  | cons e work ih =>
    have hrest := ih fun i done he => hdone i done (List.mem_cons_of_mem e he)
    cases e with
    | ended j done =>
      have htrue := hdone j done List.mem_cons_self
      subst htrue
      have hended : (CollectEvent.ended j true :: work).filterMap CollectEvent.ended? =
          j :: work.filterMap CollectEvent.ended? := rfl
      rw [hended, List.count_cons, List.count_cons, hrest]
      simp
    | _ =>
      rw [List.count_cons_of_ne (by simp), hrest]
      rfl

inductive Rounds (instances : List String) (runs : ℤ) (files : List TrajJson) : ℕ → List TrajJson → Prop
  | start : Rounds instances runs files 0 files
  | next {k : ℕ} {before after : List TrajJson} {work : List CollectEvent} (earlier : Rounds instances runs files k before)
      (launch : Run CollectStep ⟨before, none⟩ ⟨after, none⟩ (.started instances runs :: work ++ [.completed]))
      (hwork : ∀ e ∈ work, e.IsWork) (hdone : ∀ i done, .ended i done ∈ work → done = true) :
      Rounds instances runs files (k + 1) after

theorem rounds_count {instances : List String} {runs : ℤ} {k : ℕ} {after : List TrajJson}
    (h : Rounds instances runs files k after) {i : String} (hi : i ∈ instances) :
    (doneCounts after i : ℤ) = max (doneCounts files i : ℤ) (min runs (doneCounts files i + k)) := by
  induction h with
  | start => omega
  | @next k before after work earlier launch hwork hdone ih =>
    obtain ⟨-, hended, hnodup, hcounts⟩ := launch_attempts launch hwork
    have hcount : doneCounts after i = doneCounts before i + (selected before runs instances).count i := by
      rw [← hended.count_eq, ← count_ended hdone]
      exact hcounts i
    have hselected : (selected before runs instances).count i = if (doneCounts before i : ℤ) < runs then 1 else 0 := by
      rw [selected]
      split_ifs with hshort
      · exact List.count_eq_one_of_mem (hnodup.filter _) (List.mem_filter.mpr ⟨hi, decide_eq_true hshort⟩)
      · apply List.count_eq_zero_of_not_mem
        intro hmem
        exact hshort (of_decide_eq_true (List.mem_filter.mp hmem).2)
    rw [hcount, hselected]
    split_ifs with hshort
    · push_cast
      omega
    · push_cast
      omega

def exitStages : Stages :=
  { submittedStages (.ok resolvedReport) with agentAtEnd := { messages := [{ role := .other "exit" }] } }

def submittedFile : Option TrajJson := saved exitStages "i" "u" (some "Submitted")

theorem submitted_launch (runs : ℤ) (hruns : 0 < runs) : Run CollectStep ⟨[], none⟩ ⟨submittedFile.toList, none⟩
    (.started ["i"] runs :: [.begun "i", .ended "i" true] ++ [.completed]) := by
  have hselected : selected [] runs ["i"] = ["i"] := by simp [selected, doneCounts, hruns]
  have hstarted := CollectStep.started [] ["i"] runs (List.nodup_singleton "i")
  rw [hselected] at hstarted
  have hended : CollectStep ⟨[], some ⟨runs, [], ["i"]⟩⟩ (.ended "i" true)
      ⟨submittedFile.toList, some ⟨runs, [], []⟩⟩ :=
    .ended [] ⟨runs, [], ["i"]⟩ [] "i" [] exitStages "u" (some "Submitted") submittedFile rfl (.inr rfl)
  exact (((Run.nil.snoc hstarted).snoc (.begun [] _ [] "i" [] rfl)).snoc hended).snoc (.completed _ _ rfl rfl)

def relaunched : List CollectEvent :=
  [.started ["i", "j"] 1, .begun "j", .killed, .started ["i", "j"] 1, .begun "j", .ended "j" true, .completed]

def relaunchedFiles : List TrajJson :=
  submittedFile.toList ++ [.torn] ++ (saved exitStages "j" "u" (some "Submitted")).toList

theorem relaunched_run : Run CollectStep ⟨submittedFile.toList, none⟩ ⟨relaunchedFiles, none⟩ relaunched := by
  have hselected : selected submittedFile.toList 1 ["i", "j"] = ["j"] := rfl
  have hstarted := CollectStep.started submittedFile.toList ["i", "j"] 1 (by decide)
  rw [hselected] at hstarted
  have hselected' : selected (submittedFile.toList ++ [.torn]) 1 ["i", "j"] = ["j"] := rfl
  have hstarted' := CollectStep.started (submittedFile.toList ++ [.torn]) ["i", "j"] 1 (by decide)
  rw [hselected'] at hstarted'
  have hkilled := ((Run.nil.snoc hstarted).snoc (.begun _ _ [] "j" [] rfl)).snoc (.killed _ _ 1 le_rfl)
  have hended : CollectStep ⟨submittedFile.toList ++ [.torn], some ⟨1, [], ["j"]⟩⟩ (.ended "j" true)
      ⟨relaunchedFiles, some ⟨1, [], []⟩⟩ :=
    .ended _ ⟨1, [], ["j"]⟩ [] "j" [] exitStages "u" (some "Submitted") (saved exitStages "j" "u" (some "Submitted")) rfl
      (.inr rfl)
  exact (((hkilled.snoc hstarted').snoc (.begun _ _ [] "j" [] rfl)).snoc hended).snoc (.completed _ _ rfl rfl)

theorem collect_limited_submitted : CollectEvent.begun "i" ∉ relaunched ∧ submittedFile.toList <+: relaunchedFiles ∧
    doneCounts relaunchedFiles "i" = 1 ∧ doneCounts relaunchedFiles "j" = 1 ∧
      (doneCounts relaunchedFiles "j" : ℤ) ≤ max 0 1 := by
  have hlimit : ∀ instances runs, CollectEvent.started instances runs ∈ relaunched → runs ≤ 1 := by
    intro instances runs hmem
    simp only [relaunched, List.mem_cons, CollectEvent.started.injEq, reduceCtorEq, List.not_mem_nil, or_false, false_or,
      or_self] at hmem
    exact hmem.2.le
  have h := collect_limited relaunched_run hlimit
  exact ⟨((h "i").2.2.2 (le_refl 1)).1, (h "i").1, rfl, rfl, (h "j").2.2.1⟩

theorem rounds_count_submitted : (doneCounts submittedFile.toList "i" : ℤ) = max 0 (min 2 (0 + 1)) := by
  have hround : Rounds ["i"] 2 [] 1 submittedFile.toList :=
    .next .start (submitted_launch 2 (by decide)) (by simp [CollectEvent.IsWork]) (by simp)
  exact rounds_count hround (List.mem_singleton_self "i")

end Rounds

end TokensThatSuffice.CollectTrajectories
