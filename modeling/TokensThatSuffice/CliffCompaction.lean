import TokensThatSuffice.AgentRuns
import TokensThatSuffice.ToolPairing

namespace TokensThatSuffice

open CompactedLog MarkedCuts Runs

/-- What the adapter sets of the configuration of the `cliffcompaction` package. -/
structure CliffConfig where
  resultMaxChars : ℤ
  thoughtMaxChars : ℤ
  thinkingMaxChars : ℤ
  cmdMaxChars : ℤ
  humanMaxChars : ℤ
  keepThinking : Bool
  keepRecent : ℕ

structure CliffSummary where
  role : Role
  content : Option String

/-- `compact` of the package, with `none` where nothing is to be gained. -/
abbrev Cliff := CliffConfig → List Message → Except PyError (Option CliffSummary)

structure CliffCompactor where
  resultMaxChars : ℤ := 500
  thoughtMaxChars : ℤ := 300
  thinkingMaxChars : ℤ := 300
  cmdMaxChars : ℤ := 150
  humanMaxChars : ℤ := 20000
  keepThinking : Bool := true

def CliffSummary.message (summary : CliffSummary) : Message where
  role := summary.role
  content := summary.content.map .text

namespace CliffCompactor

def cfg (c : CliffCompactor) : CliffConfig where
  resultMaxChars := c.resultMaxChars
  thoughtMaxChars := c.thoughtMaxChars
  thinkingMaxChars := c.thinkingMaxChars
  cmdMaxChars := c.cmdMaxChars
  humanMaxChars := c.humanMaxChars
  keepThinking := c.keepThinking
  keepRecent := 0

def unchanged (messages : List Message) (more : List (String × Json)) : CompactionResult where
  messages := messages
  kind := .summary
  metadata := [("n_dropped", .int 0), ("cliff", .bool true)] ++ more

def summarized (c : CliffCompactor) (s : Split) (summary : CliffSummary) : CompactionResult where
  messages := s.head ++ [summary.message] ++ s.tail
  kind := .summary
  summary := some (summary.content.getD "")
  metadata := [("cliff", .bool true), ("head_len", .int s.head.length), ("middle_len", .int s.middle.length),
    ("summary_len", .int (summary.content.getD "").length), ("result_max_chars", .int c.resultMaxChars),
    ("thought_max_chars", .int c.thoughtMaxChars), ("thinking_max_chars", .int c.thinkingMaxChars),
    ("keep_thinking", .bool c.keepThinking)]

def compact (cliff : Cliff) (c : CliffCompactor) : Compact := fun messages keepFirst keepLastTurns =>
  let s := splitHeadTail messages keepFirst keepLastTurns
  if s.middle.isEmpty then .ok (unchanged messages [])
  else
    match cliff c.cfg s.middle with
    | .error e => .error e
    | .ok none => .ok (unchanged messages [("reason", .str "no_gain")])
    | .ok (some summary) => if summary.role ≠ .user then .error .typeError else .ok (summarized c s summary)

variable {cliff : Cliff} {c : CliffCompactor} {messages : List Message} {keepFirst : ℕ} {keepLastTurns : ℤ}
  {r : CompactionResult}

theorem compact_cases (h : c.compact cliff messages keepFirst keepLastTurns = .ok r) :
    r.messages = messages ∨ ∃ summary : CliffSummary, summary.role = .user ∧
      cliff c.cfg (splitHeadTail messages keepFirst keepLastTurns).middle = .ok (some summary) ∧
      (splitHeadTail messages keepFirst keepLastTurns).middle ≠ [] ∧
      r.messages = (splitHeadTail messages keepFirst keepLastTurns).head ++ [summary.message] ++
        (splitHeadTail messages keepFirst keepLastTurns).tail := by
  unfold compact at h
  dsimp only at h
  by_cases hmiddle : (splitHeadTail messages keepFirst keepLastTurns).middle.isEmpty = true
  · rw [if_pos hmiddle] at h
    cases h
    exact .inl rfl
  · rw [if_neg hmiddle] at h
    cases hcliff : cliff c.cfg (splitHeadTail messages keepFirst keepLastTurns).middle with
    | error e =>
      rw [hcliff] at h
      cases h
    | ok summary =>
      rw [hcliff] at h
      cases summary with
      | none =>
        cases h
        exact .inl rfl
      | some summary =>
        dsimp only at h
        split_ifs at h with hrole
        cases h
        refine .inr ⟨summary, not_not.mp hrole, rfl, ?_, rfl⟩
        rintro hnil
        rw [hnil] at hmiddle
        exact hmiddle rfl

end CliffCompactor

variable (py : Python) (cfg : AgentConfig) (cliff : Cliff) (c : CliffCompactor)

def CliffStep (s : AgentState) (e : StepEvent) (s' : AgentState) : Prop :=
  ∃ i, i.compactor = some (c.compact cliff) ∧ step py cfg i s = (s', e)

section View

variable {py cfg cliff c} {s s' : AgentState} {e : StepEvent}

theorem CliffStep.messages (h : CliffStep py cfg cliff c s e s') :
    s'.messages = s.messages ++ e.recorded ∨ ∃ summary : CliffSummary, summary.role = .user ∧
      cliff c.cfg (splitHeadTail s.messages cfg.keepFirst cfg.keepLastTurns).middle = .ok (some summary) ∧
      (splitHeadTail s.messages cfg.keepFirst cfg.keepLastTurns).middle ≠ [] ∧
      cfg.keepFirst + 2 < s.messages.length ∧
      s'.messages = (splitHeadTail s.messages cfg.keepFirst cfg.keepLastTurns).head ++ [summary.message] ++
        (splitHeadTail s.messages cfg.keepFirst cfg.keepLastTurns).tail ++ e.recorded := by
  obtain ⟨i, hi, hstep⟩ := h
  have hmessages := step_messages py cfg i s
  rw [hstep, hi] at hmessages
  rcases maybeCompress_messages py cfg (c.compact cliff) i.save s with
    hsame | ⟨r, before, after, hr, -, -, -, hlen, heq⟩
  · rw [hsame] at hmessages
    exact .inl hmessages
  · rw [heq] at hmessages
    rcases CliffCompactor.compact_cases hr with hsame | ⟨summary, hrole, hcliff, hmiddle, hcompacted⟩
    · rw [hsame] at hmessages
      exact .inl hmessages
    · rw [hcompacted] at hmessages
      exact .inr ⟨summary, hrole, hcliff, hmiddle, hlen, hmessages⟩

theorem splitHeadTail_rest (messages : List Message) (keepFirst : ℕ) (keepLastTurns : ℤ) :
    (splitHeadTail messages keepFirst keepLastTurns).middle ++ (splitHeadTail messages keepFirst keepLastTurns).tail =
      messages.drop keepFirst := by
  have hwhole := splitHeadTail_append messages keepFirst keepLastTurns
  nth_rewrite 4 [← List.take_append_drop keepFirst messages] at hwhole
  exact List.append_cancel_left hwhole

theorem splitHeadTail_rtake {messages : List Message} {keepFirst : ℕ} {keepLastTurns : ℤ}
    (h : (splitHeadTail messages keepFirst keepLastTurns).middle ≠ []) :
    (splitHeadTail messages keepFirst keepLastTurns).tail.length < (messages.drop keepFirst).length ∧
      (messages.drop keepFirst).rtake (splitHeadTail messages keepFirst keepLastTurns).tail.length =
        (splitHeadTail messages keepFirst keepLastTurns).tail := by
  have hpos := List.length_pos_iff.mpr h
  rw [← splitHeadTail_rest messages keepFirst keepLastTurns]
  constructor
  · rw [List.length_append]
    omega
  · rw [rtake_append_of_le le_rfl, List.rtake, Nat.sub_self, List.drop_zero]

def IsAnswer (cliff : Cliff) (c : CliffCompactor) (m : Message) : Prop :=
  ∃ (middle : List Message) (summary : CliffSummary), middle ≠ [] ∧ cliff c.cfg middle = .ok (some summary) ∧
    summary.role = .user ∧ m = summary.message

theorem cliffRun_view {start s : AgentState} {events : List StepEvent}
    (h : Run (CliffStep py cfg cliff c) start s events) :
    IsView (IsAnswer cliff c) cfg.keepFirst (recordedLog start.messages events) s.messages := by
  apply Run.invariant (fun s events =>
    IsView (IsAnswer cliff c) cfg.keepFirst (recordedLog start.messages events) s.messages) _ _ h
  · rw [recordedLog, List.flatMap_nil, List.append_nil]
    exact .refl _
  · intro s events e s' hview hstep
    rw [recordedLog_snoc]
    rcases hstep.messages with hsame | ⟨summary, hrole, hcliff, hmiddle, -, hcompacted⟩
    · rw [hsame]
      exact hview.append _
    · rw [hcompacted]
      apply IsView.append
      obtain ⟨hlen, htail⟩ := splitHeadTail_rtake hmiddle
      rw [← htail]
      apply hview.compact _ _ hlen
      · exact le_rfl
      · intro m hm
        exact ⟨_, summary, hmiddle, hcliff, hrole, List.mem_singleton.mp hm⟩

end View

inductive Block where
  | turn (p : Pair)
  | note (m : Message)

namespace Block

def messages : Block → List Message
  | turn p => p.messages
  | note m => [m]

def IsNote (b : Block) : Prop := ∃ m, b = note m ∧ m.role = .user

end Block

def blockMessages (bs : List Block) : List Message := bs.flatMap Block.messages

@[simp] theorem blockMessages_append (bs cs : List Block) :
    blockMessages (bs ++ cs) = blockMessages bs ++ blockMessages cs := List.flatMap_append

@[simp] theorem blockMessages_turns (ps : List Pair) : blockMessages (ps.map Block.turn) = pairMessages ps := by
  rw [blockMessages, List.flatMap_map]
  rfl

section Turns

variable {j n : ℕ} {log : List Pair} {blocks : List Block}

theorem lastNTurns_noted {note : List Message} (hnote : ∀ m ∈ note, m.isTool = false) (kept : List Pair) :
    lastNTurns (note ++ pairMessages kept) n = (if n = 0 then [] else
      if n < kept.length then pairMessages (kept.rtake n) else note ++ pairMessages kept) := by
  have hcount : toolCount (note ++ pairMessages kept) = kept.length := by
    have hnone : toolCount note = 0 := List.countP_eq_zero.mpr fun m hm => by simp [hnote m hm]
    rw [toolCount_append, hnone, toolCount_pairMessages, Nat.zero_add]
  rcases Nat.eq_zero_or_pos n with rfl | hpos
  · rw [if_pos rfl]
    exact lastNTurns_nonpos _ le_rfl
  · rw [if_neg hpos.ne']
    rcases Nat.lt_trichotomy n kept.length with hlt | heq | hgt
    · rw [if_pos hlt]
      have hsplit : note ++ pairMessages kept =
          (note ++ pairMessages (kept.take (kept.length - n))) ++ pairMessages (kept.rtake n) := by
        rw [List.append_assoc, ← pairMessages_append, List.rtake, List.take_append_drop]
      rw [hsplit]
      apply lastNTurns_eq hpos
      constructor
      · apply (boundary_append _ _).mpr
        · exact pairMessages_boundary _
        · intro hnil
          have hzero := congrArg List.length hnil
          rw [length_pairMessages, List.length_take, List.length_nil] at hzero
          omega
      · change toolCount _ = n
        rw [toolCount_pairMessages, List.rtake, List.length_drop]
        omega
    · rw [if_neg heq.not_lt]
      have hwhole : IsCut Message.isTool n [] (note ++ pairMessages kept) := ⟨boundary_nil, hcount.trans heq.symm⟩
      exact lastNTurns_eq hpos hwhole
    · rw [if_neg (Nat.lt_asymm hgt)]
      apply lastNTurns_short
      rw [hcount]
      exact hgt

theorem rtake_turns (ps : List Pair) (n : ℕ) : (ps.map Block.turn).rtake n = (ps.rtake n).map Block.turn := by
  rw [List.rtake, List.rtake, List.length_map, List.map_drop]

theorem lastNTurns_blocks {mid : List Block} (hmid : ∀ b ∈ mid, b.IsNote) (kept : List Pair)
    (h : lastNTurns (blockMessages (mid ++ kept.map Block.turn)) n ≠ blockMessages (mid ++ kept.map Block.turn)) :
    n < (mid ++ kept.map Block.turn).length ∧ lastNTurns (blockMessages (mid ++ kept.map Block.turn)) n =
      blockMessages ((mid ++ kept.map Block.turn).rtake n) := by
  have hnotes : ∀ m ∈ blockMessages mid, m.isTool = false := by
    intro m hm
    obtain ⟨b, hb, hm⟩ := List.mem_flatMap.mp hm
    obtain ⟨note, rfl, hrole⟩ := hmid b hb
    rw [List.mem_singleton.mp hm, Message.isTool, hrole]
    rfl
  rw [blockMessages_append, blockMessages_turns, lastNTurns_noted hnotes kept] at h ⊢
  by_cases hzero : n = 0
  · subst hzero
    rw [if_pos rfl] at h ⊢
    rw [List.rtake_zero]
    refine ⟨List.length_pos_iff.mpr ?_, rfl⟩
    intro hnil
    obtain ⟨rfl, hkept⟩ := List.append_eq_nil_iff.mp hnil
    rw [List.map_eq_nil_iff.mp hkept] at h
    exact h rfl
  · rw [if_neg hzero] at h ⊢
    by_cases hlt : n < kept.length
    · rw [if_pos hlt, rtake_append_of_le, rtake_turns, blockMessages_turns]
      · refine ⟨?_, rfl⟩
        rw [List.length_append, List.length_map]
        omega
      · rw [List.length_map]
        exact hlt.le
    · rw [if_neg hlt] at h
      exact absurd rfl h

def Noted (system user : Message) (j n : ℕ) (log : List Pair) (messages : List Message) : Prop :=
  ∃ blocks, messages = system :: user :: blockMessages blocks ∧ IsView Block.IsNote j (log.map Block.turn) blocks ∧
    Recent j n (log.map Block.turn) blocks

variable {system user : Message} {messages : List Message}

theorem Noted.append (h : Noted system user j n log messages) (qs : List Pair) :
    Noted system user j n (log ++ qs) (messages ++ pairMessages qs) := by
  obtain ⟨blocks, rfl, hview, hrecent⟩ := h
  refine ⟨blocks ++ qs.map Block.turn, ?_, ?_, ?_⟩
  · rw [blockMessages_append, blockMessages_turns]
    rfl
  · rw [List.map_append]
    exact hview.append _
  · rw [List.map_append]
    exact hrecent.append hview _

theorem opened_blocks {opening : List Pair} (hlen : opening.length = j) (rest : List Block) :
    (system :: user :: blockMessages (opening.map Block.turn ++ rest)).take (2 + 2 * j) = opened system user opening ∧
      (system :: user :: blockMessages (opening.map Block.turn ++ rest)).drop (2 + 2 * j) = blockMessages rest := by
  have hopened : system :: user :: blockMessages (opening.map Block.turn ++ rest) =
      opened system user opening ++ blockMessages rest := by
    rw [blockMessages_append, blockMessages_turns]
    rfl
  have hlength : (opened system user opening).length = 2 + 2 * j := by
    rw [opened, List.length_cons, List.length_cons, length_pairMessages, hlen]
    omega
  rw [hopened]
  exact ⟨List.take_left' hlength, List.drop_left' hlength⟩

theorem Noted.compact (h : Noted system user j n log messages) {note : Message} (hnote : note.role = .user)
    (hlen : 2 + 2 * j + 2 < messages.length) (hmiddle : (splitHeadTail messages (2 + 2 * j) n).middle ≠ []) :
    Noted system user j n log ((splitHeadTail messages (2 + 2 * j) n).head ++ [note] ++
      (splitHeadTail messages (2 + 2 * j) n).tail) := by
  obtain ⟨blocks, rfl, hview, hrecent⟩ := h
  have hlog : j ≤ log.length := by
    by_contra hshort
    have hall := hview.eq_of_short (by rw [List.length_map]; omega)
    rw [hall, blockMessages_turns, List.length_cons, List.length_cons, length_pairMessages] at hlen
    omega
  have hopening : (log.take j).length = j := by
    rw [List.length_take]
    omega
  obtain ⟨mid, rest, hblocks, hone, hS, ⟨pre, hpre⟩, -⟩ := id hview
  rw [← List.map_drop] at hpre
  obtain ⟨older, kept, hkept, -, rfl⟩ := List.map_eq_append_iff.mp hpre.symm
  rw [← List.map_take, List.append_assoc] at hblocks
  obtain ⟨hhead, hdrop⟩ := opened_blocks hopening (mid ++ kept.map Block.turn)
  rw [← hblocks] at hhead hdrop
  have hrest : blocks.drop j = mid ++ kept.map Block.turn := by
    rw [hblocks]
    exact List.drop_left' (by rw [List.length_map, hopening])
  have htake : blocks.take j = (log.take j).map Block.turn := by
    rw [hblocks]
    exact List.take_left' (by rw [List.length_map, hopening])
  have hwhole := splitHeadTail_rest (system :: user :: blockMessages blocks) (2 + 2 * j) n
  have htail : (splitHeadTail (system :: user :: blockMessages blocks) (2 + 2 * j) n).tail =
      lastNTurns (blockMessages (mid ++ kept.map Block.turn)) n := by
    rw [← hdrop]
    rfl
  rw [hdrop, htail] at hwhole
  obtain ⟨hn, hturns⟩ := lastNTurns_blocks hS kept (by
    intro hsame
    rw [hsame] at hwhole
    exact hmiddle (List.append_left_eq_self.mp hwhole))
  rw [← hrest] at hn hturns
  refine ⟨blocks.take j ++ [.note note] ++ (blocks.drop j).rtake n, ?_, ?_, hrecent.compact hn _⟩
  · rw [htail, ← hrest, hturns, blockMessages_append, blockMessages_append, htake, blockMessages_turns]
    change (system :: user :: blockMessages blocks).take (2 + 2 * j) ++ _ ++ _ = _
    rw [hhead]
    rfl
  · apply hview.compact _ _ hn
    · exact le_rfl
    · intro b hb
      rw [List.mem_singleton.mp hb]
      exact ⟨note, rfl, hnote⟩

theorem eq_nil_or_singleton {α : Type} {xs : List α} (h : xs.length ≤ 1) : xs = [] ∨ ∃ x, xs = [x] := by
  cases xs with
  | nil => exact .inl rfl
  | cons x xs =>
    rw [List.length_cons] at h
    have hnil : xs = [] := List.eq_nil_of_length_eq_zero (by omega)
    rw [hnil]
    exact .inr ⟨x, rfl⟩

theorem exists_turns {ps : List Pair} (h : ∀ p ∈ ps, p.call.id.isSome) : ∃ ts, turnMessages ts = pairMessages ps := by
  induction ps with
  | nil => exact ⟨[], rfl⟩
  | cons p ps ih =>
    obtain ⟨ts, hts⟩ := ih fun q hq => h q (List.mem_cons_of_mem p hq)
    obtain ⟨id, hid⟩ := Option.isSome_iff_exists.mp (h p List.mem_cons_self)
    let t : Turn := {
      assistant := p.assistant
      results := [p.result]
      ids := [id]
      isAssistant := p.isAssistant
      calls := by rw [p.oneCall, List.map_singleton, hid, List.map_singleton]
      nonempty := List.cons_ne_nil _ _
      distinct := List.nodup_singleton id
      areTools := by simp [p.isTool]
      answers := by rw [List.map_singleton, p.answers, hid, List.map_singleton] }
    refine ⟨t :: ts, ?_⟩
    rw [turnMessages_cons, hts]
    rfl

theorem paired_noted (hsystem : system.role = .system) (huser : user.role = .user) {note : List Message}
    (hone : note.length ≤ 1) (hnote : ∀ m ∈ note, m.role = .user) {ps qs : List Pair}
    (hps : ∀ p ∈ ps, p.call.id.isSome) (hqs : ∀ q ∈ qs, q.call.id.isSome) :
    Paired (opened system user ps ++ note ++ pairMessages qs) := by
  obtain ⟨ts, hts⟩ := exists_turns hps
  obtain ⟨us, hus⟩ := exists_turns hqs
  rw [opened, ← hts, ← hus]
  have hvalid : Valid (turnMessages us) := by
    have hnil := valid_turnMessages us valid_nil
    rwa [List.append_nil] at hnil
  have hsystem' : openStep [] system = [] := by rw [openStep, hsystem]
  have huser' : openStep [] user = [] := by rw [openStep, huser]
  have hopening : Answered [] (system :: user :: turnMessages ts) := by
    refine ⟨by simp [hsystem], ?_, ?_⟩
    · simp [huser]
    · rw [hsystem', huser']
      exact (answered_turnMessages [] ts).1
  constructor
  · apply Valid.accepted
    rw [List.append_assoc]
    apply valid_cons (by simp [hsystem])
    apply valid_cons (by simp [huser])
    apply valid_turnMessages ts
    rcases eq_nil_or_singleton hone with rfl | ⟨m, rfl⟩
    · exact hvalid
    · exact valid_cons (by simp [hnote m]) hvalid
  · rw [noOrphan_iff, answered_append, answered_append]
    refine ⟨⟨hopening, ?_⟩, (answered_turnMessages _ us).1⟩
    rcases eq_nil_or_singleton hone with rfl | ⟨m, rfl⟩
    · trivial
    · exact ⟨by simp [hnote m], trivial⟩

end Turns

structure KeepsAround (system user : Message) (j n : ℕ) (log : List Pair) (messages : List Message) : Prop where
  context : ∃ note kept, messages = opened system user (log.take j) ++ note ++ pairMessages kept ∧ note.length ≤ 1 ∧
    (∀ m ∈ note, m.role = .user) ∧ kept <:+ log.drop j ∧ (log.drop j).rtake n <:+ kept
  paired : (∀ p ∈ log, p.call.id.isSome) → Paired messages

section Runs

variable {py cfg cliff c} {system user : Message} {j n : ℕ} {s : AgentState} {events : List StepEvent}

theorem length_le_of_noted {mid : List Block} (hmid : ∀ b ∈ mid, b.IsNote) {kept recent : List Pair}
    (h : recent.map Block.turn <:+ mid ++ kept.map Block.turn) :
    (recent.map Block.turn).length ≤ (kept.map Block.turn).length := by
  by_contra hlt
  -- a longer end of the blocks would reach into the notes
  obtain ⟨older, holder⟩ := List.suffix_of_suffix_length_le (List.suffix_append mid _) h (not_le.mp hlt).le
  obtain ⟨pre, hpre⟩ := h
  rw [← holder, ← List.append_assoc] at hpre
  have hnotes := List.append_cancel_right hpre
  cases older with
  | nil =>
    rw [List.nil_append] at holder
    rw [holder] at hlt
    exact hlt le_rfl
  | cons b older =>
    obtain ⟨m, rfl, -⟩ := hmid b (by rw [← hnotes]; simp)
    have hturn : Block.note m ∈ recent.map Block.turn := by
      rw [← holder]
      exact List.mem_cons_self
    obtain ⟨p, -, hp⟩ := List.mem_map.mp hturn
    cases hp

theorem Noted.keepsAround {log : List Pair} {messages : List Message} (hsystem : system.role = .system)
    (huser : user.role = .user) (h : Noted system user j n log messages) :
    KeepsAround system user j n log messages := by
  obtain ⟨blocks, rfl, hview, hrecent⟩ := h
  obtain ⟨mid, rest, rfl, hone, hS, ⟨pre, hpre⟩, -⟩ := id hview
  rw [← List.map_drop] at hpre
  obtain ⟨older, kept, hkept, -, rfl⟩ := List.map_eq_append_iff.mp hpre.symm
  have hnote : (blockMessages mid).length ≤ 1 ∧ ∀ m ∈ blockMessages mid, m.role = .user := by
    rcases eq_nil_or_singleton hone with rfl | ⟨b, rfl⟩
    · exact ⟨Nat.zero_le _, nofun⟩
    · obtain ⟨m, rfl, hrole⟩ := hS b List.mem_cons_self
      refine ⟨le_rfl, ?_⟩
      intro m' hm'
      rw [List.mem_singleton.mp hm']
      exact hrole
  have hmessages : system :: user :: blockMessages ((log.map Block.turn).take j ++ mid ++ kept.map Block.turn) =
      opened system user (log.take j) ++ blockMessages mid ++ pairMessages kept := by
    rw [blockMessages_append, blockMessages_append, ← List.map_take, blockMessages_turns, blockMessages_turns]
    rfl
  rw [hmessages]
  constructor
  · refine ⟨_, kept, rfl, hnote.1, hnote.2, ⟨older, hkept.symm⟩, ?_⟩
    rcases Nat.lt_or_ge log.length j with hlen | hlen
    · rw [List.drop_eq_nil_of_le hlen.le, List.rtake, List.drop_nil]
      exact List.nil_suffix
    · have htake : ((log.map Block.turn).take j).length = j := by simp [hlen]
      rw [Recent, List.append_assoc, List.drop_left' htake, ← List.map_drop, rtake_turns] at hrecent
      apply List.suffix_of_suffix_length_le (List.drop_suffix _ _) ⟨older, hkept.symm⟩
      have hle := length_le_of_noted hS hrecent
      rwa [List.length_map, List.length_map] at hle
  · intro hids
    apply paired_noted hsystem huser hnote.1 hnote.2
    · exact fun p hp => hids p (List.mem_of_mem_take hp)
    · intro p hp
      apply hids p
      apply List.mem_of_mem_drop
      rw [hkept]
      exact List.mem_append_right _ hp

theorem noted_run (hkeep : cfg.keepFirst = 2 + 2 * j) (hlast : cfg.keepLastTurns = n)
    (h : Run (CliffStep py cfg cliff c) { messages := [system, user] } s events)
    (hturns : ∀ e ∈ events, e.recorded = [] ∨ ∃ p : Pair, e.recorded = p.messages) :
    ∃ log, recordedLog [system, user] events = opened system user log ∧ Noted system user j n log s.messages := by
  induction h with
  | nil => exact ⟨[], rfl, [], rfl, .refl [], by simp [Recent, List.rtake]⟩
  | @snoc s s' events e before last ih =>
    obtain ⟨log, hlog, hnoted⟩ := ih fun e he => hturns e (List.mem_append_left _ he)
    obtain ⟨qs, hqs⟩ : ∃ qs, e.recorded = pairMessages qs := by
      rcases hturns e (List.mem_append_right _ (List.mem_singleton_self e)) with hnone | ⟨p, hp⟩
      · exact ⟨[], hnone⟩
      · exact ⟨[p], hp⟩
    refine ⟨log ++ qs, ?_, ?_⟩
    · rw [recordedLog_snoc, hlog, hqs, opened_append]
    · rcases last.messages with hsame | ⟨summary, hrole, -, hmiddle, hlen, hcompacted⟩
      · rw [hsame, hqs]
        exact hnoted.append qs
      · rw [hkeep, hlast] at hmiddle hcompacted
        rw [hkeep] at hlen
        rw [hcompacted, hqs]
        exact (hnoted.compact hrole hlen hmiddle).append qs

theorem cliffRun_keepsAround (hkeep : cfg.keepFirst = 2 + 2 * j) (hlast : cfg.keepLastTurns = n)
    (hsystem : system.role = .system) (huser : user.role = .user)
    (h : Run (CliffStep py cfg cliff c) { messages := [system, user] } s events)
    (hturns : ∀ e ∈ events, e.recorded = [] ∨ ∃ p : Pair, e.recorded = p.messages) :
    ∃ log, recordedLog [system, user] events = opened system user log ∧
      KeepsAround system user j n log s.messages := by
  obtain ⟨log, hlog, hnoted⟩ := noted_run hkeep hlast h hturns
  exact ⟨log, hlog, hnoted.keepsAround hsystem huser⟩

def fixedCliff : Cliff := fun _ _ => .ok (some ⟨.user, some "z"⟩)

def cliffInput : StepInput := { bashInput with compactor := some (CliffCompactor.compact fixedCliff {}) }

def cliffState : ℕ → AgentState
  | 0 => { messages := [systemMessage, userMessage] }
  | k + 1 => (step asciiPython threeTurnConfig cliffInput (cliffState k)).1

def cliffEvent (k : ℕ) : StepEvent := (step asciiPython threeTurnConfig cliffInput (cliffState k)).2

def cliffEvents (k : ℕ) : List StepEvent := (List.range k).map cliffEvent

theorem cliffEvents_succ (k : ℕ) : cliffEvents (k + 1) = cliffEvents k ++ [cliffEvent k] := by
  rw [cliffEvents, List.range_succ, List.map_append]
  rfl

theorem cliffRun (k : ℕ) : Run (CliffStep asciiPython threeTurnConfig fixedCliff {})
    { messages := [systemMessage, userMessage] } (cliffState k) (cliffEvents k) := by
  induction k with
  | zero => exact .nil
  | succ k ih =>
    rw [cliffEvents_succ]
    exact ih.snoc ⟨cliffInput, rfl, rfl⟩

theorem cliffEvent_recorded : ∀ k < 4, (cliffEvent k).recorded = bashPair.messages
  | 0, _ => rfl
  | 1, _ => rfl
  | 2, _ => rfl
  | 3, _ => rfl

theorem cliffRun_view_fourth :
    IsView (IsAnswer fixedCliff {}) 2 (recordedLog [systemMessage, userMessage] (cliffEvents 4)) (cliffState 4).messages :=
  cliffRun_view (cliffRun 4)

theorem cliffRun_keepsAround_fourth : (cliffState 4).messages.drop 3 = bashPair.messages ++ bashPair.messages ∧
    ∃ log, recordedLog [systemMessage, userMessage] (cliffEvents 4) = opened systemMessage userMessage log ∧
      KeepsAround systemMessage userMessage 0 1 log (cliffState 4).messages := by
  constructor
  · rfl
  · apply cliffRun_keepsAround rfl rfl rfl rfl (cliffRun 4)
    intro e he
    obtain ⟨k, hk, rfl⟩ := List.mem_map.mp he
    exact .inr ⟨bashPair, cliffEvent_recorded k (List.mem_range.mp hk)⟩

end Runs

end TokensThatSuffice
