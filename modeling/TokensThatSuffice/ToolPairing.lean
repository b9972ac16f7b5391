import TokensThatSuffice.Turns

namespace TokensThatSuffice

/-! `validate_messages` and orphaned results on what a compactor leaves of a well-formed history. -/

def Accepted (messages : List Message) : Prop := validateMessages messages = .ok (true, none, none)

def NoOrphan (messages : List Message) : Prop :=
  ∀ pre m post, messages = pre ++ m :: post → m.role = .tool →
    ∃ before a run, pre = before ++ a :: run ∧ a.role = .assistant ∧ (∀ x ∈ run, x.role = .tool) ∧
      m.toolCallId ∈ a.toolCalls.map (·.id)

def Paired (messages : List Message) : Prop := Accepted messages ∧ NoOrphan messages

def openStep (cur : List (Option String)) (m : Message) : List (Option String) :=
  match m.role with
  | .tool => cur
  | .assistant => m.toolCalls.map (·.id)
  | _ => []

def openIds (cur : List (Option String)) (messages : List Message) : List (Option String) :=
  messages.foldl openStep cur

def Answered (cur : List (Option String)) : List Message → Prop
  | [] => True
  | m :: rest => (m.role = .tool → m.toolCallId ∈ cur) ∧ Answered (openStep cur m) rest

theorem openIds_append (cur : List (Option String)) (xs ys : List Message) :
    openIds cur (xs ++ ys) = openIds (openIds cur xs) ys := List.foldl_append

theorem answered_append (cur : List (Option String)) (xs ys : List Message) :
    Answered cur (xs ++ ys) ↔ Answered cur xs ∧ Answered (openIds cur xs) ys := by
  induction xs generalizing cur with
  | nil => simp [Answered, openIds]
  | cons m rest ih => simp only [List.cons_append, Answered, ih, openIds, List.foldl_cons, and_assoc]

theorem mem_openIds {messages : List Message} {id : Option String} (h : id ∈ openIds [] messages) :
    ∃ before a run, messages = before ++ a :: run ∧ a.role = .assistant ∧ (∀ x ∈ run, x.role = .tool) ∧
      id ∈ a.toolCalls.map (·.id) := by
  induction messages using List.reverseRecOn with
  | nil => simp [openIds] at h
  | append_singleton xs m ih =>
    rw [openIds_append] at h
    simp only [openIds, List.foldl_cons, List.foldl_nil, openStep] at h
    cases hr : m.role with
    | tool =>
      rw [hr] at h
      obtain ⟨before, a, run, rfl, ha, hrun, hid⟩ := ih h
      refine ⟨before, a, run ++ [m], by simp, ha, ?_, hid⟩
      intro x hx
      rcases List.mem_append.mp hx with hx | hx
      · exact hrun x hx
      · rw [List.mem_singleton.mp hx, hr]
    | assistant =>
      rw [hr] at h
      exact ⟨xs, m, [], rfl, hr, by simp, h⟩
    | system => simp [hr] at h
    | user => simp [hr] at h
    | other _ => simp [hr] at h

theorem openIds_of_run {before run : List Message} {a : Message} (ha : a.role = .assistant)
    (hrun : ∀ x ∈ run, x.role = .tool) : openIds [] (before ++ a :: run) = a.toolCalls.map (·.id) := by
  have htools (cur : List (Option String)) : openIds cur run = cur := by
    induction run generalizing cur with
    | nil => rfl
    | cons m rest ih =>
      have hm : openStep cur m = cur := by simp [openStep, hrun m (by simp)]
      rw [openIds, List.foldl_cons, hm]
      apply ih
      intro x hx
      exact hrun x (List.mem_cons_of_mem m hx)
  rw [openIds_append, ← List.singleton_append, openIds_append, htools]
  simp [openIds, openStep, ha]

theorem noOrphan_iff (messages : List Message) : NoOrphan messages ↔ Answered [] messages := by
  constructor
  · intro h
    induction messages using List.reverseRecOn with
    | nil => trivial
    | append_singleton xs m ih =>
      refine (answered_append [] xs [m]).mpr ⟨ih ?_, ?_, trivial⟩
      · intro pre x post hxs
        apply h pre x (post ++ [m])
        rw [hxs, List.append_assoc, List.cons_append]
      · intro hm
        obtain ⟨before, a, run, rfl, ha, hrun, hid⟩ := h xs m [] rfl hm
        rwa [openIds_of_run ha hrun]
  · rintro h pre m post rfl hm
    apply mem_openIds
    exact ((answered_append [] pre (m :: post)).mp h).2.1 hm

section Validation

def Valid (messages : List Message) : Prop := ∀ i, validateFrom i messages = .ok (true, none, none)

theorem Valid.accepted {messages : List Message} (h : Valid messages) : Accepted messages := h 0

theorem valid_cons {m : Message} {rest : List Message} (hm : m.role ≠ .assistant) (h : Valid rest) :
    Valid (m :: rest) := by
  intro i
  rw [validateFrom, if_neg (fun hc => hm hc.1)]
  exact h (i + 1)

theorem valid_tools {run rest : List Message} (hrun : ∀ m ∈ run, m.role = .tool) (h : Valid rest) :
    Valid (run ++ rest) := by
  induction run with
  | nil => exact h
  | cons m run ih =>
    apply valid_cons
    · simp [hrun m (by simp)]
    · apply ih
      intro x hx
      exact hrun x (List.mem_cons_of_mem m hx)

theorem valid_answered {a : Message} {run rest : List Message} {ids : List String}
    (hcalls : a.toolCalls.map (·.id) = ids.map some) (hrun : ∀ m ∈ run, m.role = .tool)
    (hanswers : run.map (·.toolCallId) = ids.map some) (h : Valid rest) : Valid (a :: (run ++ rest)) := by
  intro i
  have hnext := valid_tools hrun h (i + 1)
  rw [validateFrom]
  split_ifs with hc
  · have hmem : ∀ id ∈ ids, some id ∈ responded (run ++ rest) := by
      intro id hid
      have htake : run <+: (run ++ rest).takeWhile Message.isTool := by
        rw [List.takeWhile_append_of_pos fun m hm => by simp [Message.isTool, hrun m hm]]
        exact List.prefix_append _ _
      have hin : some id ∈ run.map (·.toolCallId) := hanswers ▸ List.mem_map_of_mem hid
      exact (htake.map _).subset hin
    have hmissing : ids.toFinset.filter (fun id => some id ∉ responded (run ++ rest)) = ∅ := by
      apply Finset.filter_eq_empty_iff.mpr
      intro id hid
      simpa using hmem id (List.mem_toFinset.mp hid)
    rw [callIds_eq_ok.mpr hcalls, ok_bind]
    simp only [hmissing, ne_eq, not_true_eq_false, ↓reduceIte]
    exact hnext
  · exact hnext

theorem valid_turnMessages (ts : List Turn) {rest : List Message} (h : Valid rest) :
    Valid (turnMessages ts ++ rest) := by
  induction ts with
  | nil => exact h
  | cons t ts ih =>
    rw [turnMessages_cons, List.append_assoc]
    exact valid_answered t.calls t.areTools t.answers ih

theorem valid_nil : Valid [] := fun _ => rfl

end Validation

section Answering

theorem answered_tools {cur : List (Option String)} {run : List Message} (hrun : ∀ m ∈ run, m.role = .tool) :
    (Answered cur run ↔ ∀ m ∈ run, m.toolCallId ∈ cur) ∧ openIds cur run = cur := by
  induction run with
  | nil => simp [Answered, openIds]
  | cons m run ih =>
    have hm : m.role = .tool := hrun m (by simp)
    have hstep : openStep cur m = cur := by simp [openStep, hm]
    obtain ⟨hans, hopen⟩ := ih (fun x hx => hrun x (List.mem_cons_of_mem _ hx))
    constructor
    · simp only [Answered, hm, hstep, hans, forall_const, List.forall_mem_cons]
    · rw [openIds, List.foldl_cons, hstep]
      exact hopen

theorem answered_turn (cur : List (Option String)) (t : Turn) :
    Answered cur t.messages ∧ openIds cur t.messages = t.ids.map some := by
  have hstep : openStep cur t.assistant = t.ids.map some := by
    simp only [openStep, t.isAssistant]
    exact t.calls
  have hres : (Answered (t.ids.map some) t.results ↔ ∀ m ∈ t.results, m.toolCallId ∈ t.ids.map some) ∧
      openIds (t.ids.map some) t.results = t.ids.map some := answered_tools t.areTools
  have hmem : ∀ m ∈ t.results, m.toolCallId ∈ t.ids.map some := fun m hm =>
    t.answers ▸ List.mem_map_of_mem hm
  refine ⟨⟨?_, ?_⟩, ?_⟩
  · intro hc
    rw [t.isAssistant] at hc
    cases hc
  · rw [hstep]
    exact hres.1.mpr hmem
  · rw [openIds, Turn.messages, List.foldl_cons, hstep]
    exact hres.2

def lastIds (ts : List Turn) : List String := (ts.getLast?.map Turn.ids).getD []

theorem answered_turnMessages (cur : List (Option String)) (ts : List Turn) :
    Answered cur (turnMessages ts) ∧
      openIds cur (turnMessages ts) = if ts = [] then cur else (lastIds ts).map some := by
  induction ts using List.reverseRecOn with
  | nil => simp [Answered, openIds]
  | append_singleton ts t ih =>
    have ht := answered_turn (openIds cur (turnMessages ts)) t
    rw [turnMessages_append, turnMessages_cons, turnMessages_nil, List.append_nil, openIds_append,
      answered_append]
    exact ⟨⟨ih.1, ht.1⟩, by simp [ht.2, lastIds]⟩

end Answering

section Rewriting

theorem responded_sameTurn {xs ys : List Message} (h : List.Forall₂ SameTurn xs ys) :
    responded ys = responded xs := by
  induction h with
  | nil => rfl
  | @cons m m' xs ys hm h ih =>
    have hm' : m'.isTool = m.isTool := by simp only [Message.isTool, hm.role]
    simp only [responded, List.takeWhile_cons, hm'] at ih ⊢
    by_cases ht : m.isTool = true
    · rw [if_pos ht, if_pos ht, List.map_cons, List.map_cons, hm.toolCallId, ih]
    · rw [if_neg ht, if_neg ht]

theorem validateFrom_sameTurn {xs ys : List Message} (h : List.Forall₂ SameTurn xs ys) (i : ℕ) :
    validateFrom i ys = validateFrom i xs := by
  induction h generalizing i with
  | nil => rfl
  | cons hm h ih => rw [validateFrom, validateFrom, hm.role, hm.toolCalls, responded_sameTurn h, ih]

theorem answered_sameTurn {xs ys : List Message} (h : List.Forall₂ SameTurn xs ys)
    (cur : List (Option String)) : Answered cur ys ↔ Answered cur xs := by
  induction h generalizing cur with
  | nil => rfl
  | cons hm h ih =>
    simp only [Answered, openStep, hm.role, hm.toolCalls, hm.toolCallId]
    exact and_congr Iff.rfl (ih _)

theorem paired_sameTurn {xs ys : List Message} (h : List.Forall₂ SameTurn xs ys) (hp : Paired xs) :
    Paired ys := by
  refine ⟨?_, (noOrphan_iff ys).mpr ((answered_sameTurn h []).mpr ((noOrphan_iff xs).mp hp.2))⟩
  rw [Accepted, validateMessages, validateFrom_sameTurn h]
  exact hp.1

end Rewriting

section Compaction

variable (h : History) (j n : ℕ)

theorem answered_head (ts : List Turn) :
    Answered [] (h.system :: h.user :: turnMessages ts) ∧
      openIds [] (h.system :: h.user :: turnMessages ts) = (lastIds ts).map some := by
  have hts := answered_turnMessages [] ts
  simp only [Answered, openIds, List.foldl_cons, openStep, h.isSystem, h.isUser] at hts ⊢
  refine ⟨⟨by simp, by simp, hts.1⟩, ?_⟩
  rw [hts.2]
  split_ifs with hnil
  · simp [hnil, lastIds]
  · rfl

theorem valid_head (ts : List Turn) {rest : List Message} (hrest : Valid rest) :
    Valid (h.system :: h.user :: turnMessages ts ++ rest) :=
  valid_cons (by simp [h.isSystem]) (valid_cons (by simp [h.isUser]) (valid_turnMessages ts hrest))

theorem History.paired : Paired h.messages := by
  refine ⟨?_, (noOrphan_iff _).mpr (answered_head h h.turns).1⟩
  have hv := valid_head h h.turns valid_nil
  rw [List.append_nil] at hv
  exact hv.accepted

theorem valid_summary (z : String) {rest : List Message} (hrest : Valid rest) :
    Valid (summaryAsToolTurn z ++ rest) := by
  have hcalls : summaryCall.toolCalls.map (·.id) = [summaryCallId].map some := rfl
  have hrun : ∀ m ∈ [summaryAnswer z], m.role = .tool := by simp [summaryAnswer]
  exact valid_answered hcalls hrun rfl hrest

theorem answered_summary (cur : List (Option String)) (z : String) :
    Answered cur (summaryAsToolTurn z) ∧ openIds cur (summaryAsToolTurn z) = [some summaryCallId] := by
  simp [summaryAsToolTurn, Answered, openIds, openStep, summaryCall, summaryAnswer]

theorem valid_tail {run : List Message} (hrun : ∀ m ∈ run, m.role = .tool) (newer : List Turn) :
    Valid (run ++ turnMessages newer) := by
  have hv := valid_turnMessages newer valid_nil
  rw [List.append_nil] at hv
  exact valid_tools hrun hv

theorem answered_tail {run : List Message} (hrun : ∀ m ∈ run, m.role = .tool) (newer : List Turn)
    (cur : List (Option String)) :
    Answered cur (run ++ turnMessages newer) ↔ ∀ m ∈ run, m.toolCallId ∈ cur := by
  rw [answered_append, (answered_tools hrun).1]
  exact and_iff_left (answered_turnMessages _ newer).1

/-- Counting `n` results back from the end splits no turn, or the results it keeps of the split turn
happen to carry the id of the summary call, issued by the last turn of the head as well. -/
def CleanCut (hd rs : List Turn) (n : ℕ) : Prop :=
  ∀ older t newer r, rs = older ++ t :: newer → 0 < r → r < t.ids.length → n = resultCount newer + r →
    ∀ id ∈ t.ids.drop (t.ids.length - r), id = summaryCallId ∧ id ∈ lastIds hd

theorem paired_dropped {run : List Message} (hrun : ∀ m ∈ run, m.role = .tool) (hd newer : List Turn) :
    Paired (h.system :: h.user :: turnMessages hd ++ (run ++ turnMessages newer)) ↔
      ∀ m ∈ run, m.toolCallId ∈ (lastIds hd).map some := by
  have hhead := answered_head h hd
  rw [Paired, noOrphan_iff, answered_append, hhead.2, answered_tail hrun newer]
  constructor
  · intro hp
    exact hp.2.2
  · intro hm
    refine ⟨?_, hhead.1, hm⟩
    apply Valid.accepted
    apply valid_head
    exact valid_tail hrun newer

theorem paired_summarized (z : String) {run : List Message} (hrun : ∀ m ∈ run, m.role = .tool)
    (hd newer : List Turn) :
    Paired (h.system :: h.user :: turnMessages hd ++ summaryAsToolTurn z ++ (run ++ turnMessages newer)) ↔
      ∀ m ∈ run, m.toolCallId = some summaryCallId := by
  have hhead := answered_head h hd
  have hsum := answered_summary ((lastIds hd).map some) z
  rw [Paired, noOrphan_iff, List.append_assoc, answered_append, hhead.2, answered_append, hsum.2,
    answered_tail hrun newer]
  simp only [List.mem_singleton]
  constructor
  · intro hp
    exact hp.2.2.2
  · intro hm
    refine ⟨?_, hhead.1, hsum.1, hm⟩
    apply Valid.accepted
    apply valid_head
    apply valid_summary
    exact valid_tail hrun newer

theorem split_results_ids (t : Turn) (r : ℕ) :
    (t.results.drop (t.ids.length - r)).map (·.toolCallId) = (t.ids.drop (t.ids.length - r)).map some := by
  rw [List.map_drop, t.answers, List.map_drop]

theorem cleanCut_of_paired {hd rs : List Turn}
    (hdrop : Paired (h.system :: h.user :: turnMessages hd ++ lastNTurns (turnMessages rs) n))
    (hsum : Paired (h.system :: h.user :: turnMessages hd ++ summaryAsToolTurn "" ++
      lastNTurns (turnMessages rs) n)) : CleanCut hd rs n := by
  rintro older t newer r rfl hpos hlt rfl id hid
  rw [lastNTurns_inside older t newer hpos hlt] at hdrop hsum
  have hrun : ∀ m ∈ t.results.drop (t.ids.length - r), m.role = .tool := fun m hm =>
    t.areTools m (List.mem_of_mem_drop hm)
  have hmem : some id ∈ (t.results.drop (t.ids.length - r)).map (·.toolCallId) := by
    rw [split_results_ids]
    exact List.mem_map_of_mem hid
  obtain ⟨m, hm, hmid⟩ := List.mem_map.mp hmem
  have hlast := (paired_dropped h hrun hd newer).mp hdrop m hm
  have hcall := (paired_summarized h "" hrun hd newer).mp hsum m hm
  rw [hmid] at hlast hcall
  exact ⟨Option.some.inj hcall, by simpa using hlast⟩

theorem tail_of_cleanCut {hd rs : List Turn} (hc : CleanCut hd rs n) :
    ∃ run newer, lastNTurns (turnMessages rs) n = run ++ turnMessages newer ∧ (∀ m ∈ run, m.role = .tool) ∧
      (∀ m ∈ run, m.toolCallId ∈ (lastIds hd).map some) ∧ ∀ m ∈ run, m.toolCallId = some summaryCallId := by
  cases tailCut rs n with
  | short hs =>
    refine ⟨[], rs, ?_, by simp, by simp, by simp⟩
    apply lastNTurns_short
    rwa [toolCount_turnMessages]
  | between older newer hrs hn =>
    subst hrs hn
    exact ⟨[], newer, lastNTurns_between older newer, by simp, by simp, by simp⟩
  | inside older t newer r hrs hpos hlt hn =>
    have hclean := hc older t newer r hrs hpos hlt hn
    have hids : ∀ m ∈ t.results.drop (t.ids.length - r),
        ∃ id ∈ t.ids.drop (t.ids.length - r), m.toolCallId = some id := by
      intro m hm
      have hmem := List.mem_map_of_mem (f := (·.toolCallId)) hm
      rw [split_results_ids] at hmem
      obtain ⟨id, hid, heq⟩ := List.mem_map.mp hmem
      exact ⟨id, hid, heq.symm⟩
    subst hrs hn
    refine ⟨_, newer, lastNTurns_inside older t newer hpos hlt,
      fun m hm => t.areTools m (List.mem_of_mem_drop hm), ?_, ?_⟩
    · intro m hm
      obtain ⟨id, hid, heq⟩ := hids m hm
      rw [heq]
      apply List.mem_map_of_mem
      exact (hclean id hid).2
    · intro m hm
      obtain ⟨id, hid, heq⟩ := hids m hm
      rw [heq, (hclean id hid).1]

theorem compaction_paired_iff (py : Python) :
    (∀ strategy compact r, Strategy.Allows py strategy compact →
        compact h.messages (h.keepFirst j) n = .ok r → Paired r.messages) ↔
      CleanCut (h.turns.take j) (h.turns.drop j) n := by
  have hhead := h.take_keepFirst j
  have hrest := h.drop_keepFirst j
  constructor
  · intro hall
    apply cleanCut_of_paired h
    · rw [← hhead, ← hrest]
      exact hall .truncation _ _ rfl rfl
    · rw [← hhead, ← hrest]
      exact hall .model _ _ ⟨⟨fun _ => .ok ""⟩, rfl⟩ rfl
  · intro hc strategy compact r ha hr
    obtain ⟨run, newer, htail, hrun, hlast, hcall⟩ := tail_of_cleanCut n hc
    have hcase := Strategy.compact_cases ha hr
    generalize r.messages = out at hcase ⊢
    -- masking keeps every role and id; the other two outcomes depend on the results left of a split turn
    cases hcase with
    | dropped =>
      rw [hhead, hrest, htail]
      apply (paired_dropped h hrun _ newer).mpr
      exact hlast
    | summarized z =>
      rw [hhead, hrest, htail]
      apply (paired_summarized h z hrun _ newer).mpr
      exact hcall
    | masked hmask middle same =>
      apply paired_sameTurn _ h.paired
      exact masked_sameTurn same

end Compaction

def parallelTurn : Turn where
  assistant := {
    role := .assistant
    content := some (.text "")
    toolCalls := [⟨some "call_0", some "bash", some (.str "{}")⟩, ⟨some "call_1", some "bash", some (.str "{}")⟩] }
  results := [
    { role := .tool, toolCallId := some "call_0", content := some (.text "a") },
    { role := .tool, toolCallId := some "call_1", content := some (.text "b") }]
  ids := ["call_0", "call_1"]
  isAssistant := rfl
  calls := rfl
  nonempty := by decide
  distinct := by decide
  areTools := by decide
  answers := rfl

def parallelHistory : History where
  system := { role := .system, content := some (.text "s") }
  user := { role := .user, content := some (.text "u") }
  turns := [parallelTurn]
  isSystem := rfl
  isUser := rfl

theorem truncation_orphans_parallel_result :
    ∃ r, TruncationBasedSummarizer.compact parallelHistory.messages (parallelHistory.keepFirst 0) 1 = .ok r ∧
      ¬ NoOrphan r.messages := by
  refine ⟨_, rfl, ?_⟩
  intro h
  have hans := (noOrphan_iff _).mp h
  exact absurd (hans.2.2.1 rfl) (by decide)

end TokensThatSuffice
