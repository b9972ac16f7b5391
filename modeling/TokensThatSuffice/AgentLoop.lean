import TokensThatSuffice.Compactors

namespace TokensThatSuffice

structure CompactionRecord where
  index : ℕ
  kind : CompactionKind
  nCallsAt : ℕ
  nMsgsBefore : ℕ
  nMsgsAfter : ℕ
  tokensBefore : ℕ
  tokensAfter : ℕ
  summary : Option String
  metadata : List (String × Json)
  inputMessages : List Message
  deriving Repr

/-- `tokenizer` is the length of `encode`; `compressionsDir` tells whether a directory is set. -/
structure AgentConfig where
  tokenizer : Option (String → ℕ) := none
  compressAtTokens : ℤ := 24000
  compressAtTurns : ℤ := 0
  keepFirst : ℕ := 4
  keepLastTurns : ℤ := 3
  compressionsDir : Bool := false

structure AgentState where
  messages : List Message
  nCalls : ℕ := 0
  nCompressions : ℕ := 0
  compressions : List CompactionRecord := []
  contextTokens : List ℕ := []
  lastPromptTokens : Option ℕ := none
  compactionFiles : List (ℕ × CompactionRecord) := []
  countFile : Option ℕ := none

/-- The exception, if any, at each point where `_save_compaction` meets the file system or the encoder. A write that
raises is taken to leave nothing behind, as one that cannot open its file does; `write_text` truncates before it writes,
so one that fails later, on a full disk, leaves a torn file, and no such write is modelled. -/
structure SaveOutcome where
  mkdir : Option PyError := none
  dumps : Option PyError := none
  write : Option PyError := none
  count : Option PyError := none

def Message.promptTokens (m : Message) : Option ℕ := m.usage.bind (·.promptTokens)

variable (py : Python) (cfg : AgentConfig)

def argumentsText (tc : WireToolCall) : String :=
  match tc.arguments.getD (.str "") with
  | .str s => s
  | args => py.dumps args

def messageText (m : Message) : Except PyError String := do
  let content ← m.contentOrEmpty.joinItem
  let parts := content :: m.toolCalls.flatMap (fun tc => [tc.name.getD "", argumentsText py tc])
  return join "\n" (parts.filter (· ≠ ""))

def tokensOf (messages : List Message) : Except PyError ℕ := do
  let texts ← messages.mapM (messageText py)
  let text := join "\n" texts
  match cfg.tokenizer with
  | none => return text.length / 3 + 4 * messages.length
  | some encode => return encode text

def contextTokens (s : AgentState) : Except PyError ℕ :=
  match s.lastPromptTokens with
  | some n => .ok n
  | none => tokensOf py cfg s.messages

def overBudget (s : AgentState) : Except PyError Bool :=
  if 0 < cfg.compressAtTurns then .ok (cfg.compressAtTurns ≤ toolCount s.messages)
  else do
    let n ← contextTokens py cfg s
    return cfg.compressAtTokens ≤ n

def shouldCompact (compactor : Option Compact) (s : AgentState) : Except PyError Bool :=
  if compactor.isNone then .ok false
  else if s.messages.length ≤ cfg.keepFirst + 2 then .ok false
  else overBudget py cfg s

def saveCompaction (save : SaveOutcome) (record : CompactionRecord) (s : AgentState) :
    AgentState × Option PyError :=
  if !cfg.compressionsDir then (s, none)
  else
    match save.mkdir <|> save.dumps <|> save.write with
    | some e => (s, some e)
    | none =>
      let saved := { s with compactionFiles := s.compactionFiles ++ [(record.index, record)] }
      match save.count with
      | none => ({ saved with countFile := some s.nCompressions }, none)
      -- the count file is best effort
      | some .osError => (saved, none)
      | some e => (saved, some e)

def compactionRecord (s : AgentState) (r : CompactionResult) (tokensBefore tokensAfter : ℕ) :
    CompactionRecord where
  index := s.compressions.length
  kind := r.kind
  nCallsAt := s.nCalls
  nMsgsBefore := s.messages.length
  nMsgsAfter := r.messages.length
  tokensBefore := tokensBefore
  tokensAfter := tokensAfter
  summary := r.summary
  metadata := r.metadata
  inputMessages := s.messages

def AgentState.record (s : AgentState) (record : CompactionRecord) : AgentState :=
  { s with
    compressions := s.compressions ++ [record]
    nCompressions := s.compressions.length + 1 }

structure Compression where
  state : AgentState
  called : Bool := false
  raised : Option PyError := none

def acceptCompaction (save : SaveOutcome) (s : AgentState) (r : CompactionResult)
    (tokensBefore tokensAfter : ℕ) : AgentState × Option PyError :=
  if s.messages.length ≤ r.messages.length ∧ tokensBefore ≤ tokensAfter then (s, none)
  else
    let record := compactionRecord s r tokensBefore tokensAfter
    match saveCompaction cfg save record (s.record record) with
    | (saved, some e) => (saved, some e)
    | (saved, none) => ({ saved with messages := r.messages }, none)

def runCompactor (compact : Compact) (save : SaveOutcome) (s : AgentState) : Compression :=
  match tokensOf py cfg s.messages with
  | .error e => { state := s, raised := some e }
  | .ok tokensBefore =>
    match compact s.messages cfg.keepFirst cfg.keepLastTurns with
    | .error e => { state := s, called := true, raised := some e }
    | .ok r =>
      match tokensOf py cfg r.messages with
      | .error e => { state := s, called := true, raised := some e }
      | .ok tokensAfter =>
        let accepted := acceptCompaction cfg save s r tokensBefore tokensAfter
        { state := accepted.1, called := true, raised := accepted.2 }

def maybeCompress (compactor : Option Compact) (save : SaveOutcome) (s : AgentState) : Compression :=
  match compactor, shouldCompact py cfg compactor s with
  | _, .error e => { state := s, raised := some e }
  | some compact, .ok true => runCompactor py cfg compact save s
  | _, .ok _ => { state := s }

/-- What meets one step from outside: the compactor, the file system, the base agent's `query` with the
number of model calls it counted, and the messages the base agent appends after it. -/
structure StepInput where
  compactor : Option Compact
  save : SaveOutcome := {}
  reply : Except PyError Message
  calls : ℕ := 1
  appended : List Message

structure StepEvent where
  called : Bool
  sent : Option (List Message)
  reply : Except PyError Message
  recorded : List Message

def captureUsage (msg : Message) (s : AgentState) : AgentState :=
  match msg.promptTokens with
  | some n => { s with lastPromptTokens := some n }
  | none => s

def sendQuery (i : StepInput) (s : AgentState) : AgentState × Except PyError Message :=
  match i.reply with
  | .error e => ({ s with nCalls := s.nCalls + i.calls }, .error e)
  | .ok msg =>
    (captureUsage msg { s with nCalls := s.nCalls + i.calls, messages := s.messages ++ [msg] }, .ok msg)

structure Query where
  state : AgentState
  called : Bool
  sent : Option (List Message)
  reply : Except PyError Message

def query (i : StepInput) (s : AgentState) : Query :=
  let c := maybeCompress py cfg i.compactor i.save s
  match c.raised with
  | some e => ⟨c.state, c.called, none, .error e⟩
  | none =>
    match tokensOf py cfg c.state.messages with
    | .error e => ⟨c.state, c.called, none, .error e⟩
    | .ok n =>
      let sent := sendQuery i { c.state with contextTokens := c.state.contextTokens ++ [n] }
      ⟨sent.1, c.called, some c.state.messages, sent.2⟩

def recorded (reply : Except PyError Message) (appended : List Message) : List Message :=
  match reply with
  | .ok msg => msg :: appended
  | .error _ => appended

def step (i : StepInput) (s : AgentState) : AgentState × StepEvent :=
  let q := query py cfg i s
  ({ q.state with messages := q.state.messages ++ i.appended },
    ⟨q.called, q.sent, q.reply, recorded q.reply i.appended⟩)

inductive Compressing (compact : Compact) (save : SaveOutcome) (s : AgentState) : Compression → Prop
  | idle (hdue : shouldCompact py cfg (some compact) s = .ok false) : Compressing compact save s { state := s }
  | undecided {e : PyError} (hdue : shouldCompact py cfg (some compact) s = .error e) :
      Compressing compact save s { state := s, raised := some e }
  | unsized {e : PyError} (hdue : shouldCompact py cfg (some compact) s = .ok true)
      (hsize : tokensOf py cfg s.messages = .error e) :
      Compressing compact save s { state := s, raised := some e }
  | failed {n : ℕ} (e : PyError) (hdue : shouldCompact py cfg (some compact) s = .ok true)
      (hsize : tokensOf py cfg s.messages = .ok n) :
      Compressing compact save s { state := s, called := true, raised := some e }
  | compacted {r : CompactionResult} {before after : ℕ}
      (hdue : shouldCompact py cfg (some compact) s = .ok true)
      (hsize : tokensOf py cfg s.messages = .ok before)
      (hr : compact s.messages cfg.keepFirst cfg.keepLastTurns = .ok r)
      (hafter : tokensOf py cfg r.messages = .ok after) :
      Compressing compact save s
        { state := (acceptCompaction cfg save s r before after).1
          called := true
          raised := (acceptCompaction cfg save s r before after).2 }

theorem maybeCompress_cases (compact : Compact) (save : SaveOutcome) (s : AgentState) :
    Compressing py cfg compact save s (maybeCompress py cfg (some compact) save s) := by
  unfold maybeCompress
  cases hdue : shouldCompact py cfg (some compact) s with
  | error e => exact .undecided hdue
  | ok due =>
    cases due with
    | false => exact .idle hdue
    | true =>
      dsimp only
      unfold runCompactor
      cases hsize : tokensOf py cfg s.messages with
      | error e => exact .unsized hdue hsize
      | ok before =>
        dsimp only
        cases hr : compact s.messages cfg.keepFirst cfg.keepLastTurns with
        | error e => exact .failed e hdue hsize
        | ok r =>
          dsimp only
          cases hafter : tokensOf py cfg r.messages with
          | error e => exact .failed e hdue hsize
          | ok after => exact .compacted hdue hsize hr hafter

theorem saveCompaction_files (save : SaveOutcome) (record : CompactionRecord) (s : AgentState) :
    ∃ compactionFiles countFile, (saveCompaction cfg save record s).1 = { s with compactionFiles, countFile } := by
  unfold saveCompaction
  split_ifs
  · exact ⟨_, _, rfl⟩
  · split
    · exact ⟨_, _, rfl⟩
    · dsimp only
      split <;> exact ⟨_, _, rfl⟩

@[simp] theorem saveCompaction_messages (save : SaveOutcome) (record : CompactionRecord) (s : AgentState) :
    (saveCompaction cfg save record s).1.messages = s.messages ∧
      (saveCompaction cfg save record s).1.lastPromptTokens = s.lastPromptTokens := by
  obtain ⟨compactionFiles, countFile, h⟩ := saveCompaction_files cfg save record s
  rw [h]
  exact ⟨rfl, rfl⟩

theorem acceptCompaction_cases (save : SaveOutcome) (s : AgentState) (r : CompactionResult)
    (before after : ℕ) :
    (s.messages.length ≤ r.messages.length ∧ before ≤ after ∧
        acceptCompaction cfg save s r before after = (s, none)) ∨
      ((r.messages.length < s.messages.length ∨ after < before) ∧
        (acceptCompaction cfg save s r before after).1.lastPromptTokens = s.lastPromptTokens ∧
        ((∃ e, (acceptCompaction cfg save s r before after).2 = some e ∧
            (acceptCompaction cfg save s r before after).1.messages = s.messages) ∨
          ((acceptCompaction cfg save s r before after).2 = none ∧
            (acceptCompaction cfg save s r before after).1.messages = r.messages))) := by
  unfold acceptCompaction
  by_cases hguard : s.messages.length ≤ r.messages.length ∧ before ≤ after
  · left
    rw [if_pos hguard]
    exact ⟨hguard.1, hguard.2, rfl⟩
  · right
    rw [if_neg hguard]
    refine ⟨by omega, ?_⟩
    have hsaved := saveCompaction_messages cfg save (compactionRecord s r before after)
      (s.record (compactionRecord s r before after))
    dsimp only
    generalize saveCompaction cfg save _ _ = saved at hsaved ⊢
    obtain ⟨saved, raised⟩ := saved
    cases raised with
    | none => exact ⟨hsaved.2, .inr ⟨rfl, rfl⟩⟩
    | some e => exact ⟨hsaved.2, .inl ⟨e, rfl, hsaved.1⟩⟩

theorem maybeCompress_messages (compact : Compact) (save : SaveOutcome) (s : AgentState) :
    (maybeCompress py cfg (some compact) save s).state.messages = s.messages ∨
      ∃ r before after, compact s.messages cfg.keepFirst cfg.keepLastTurns = .ok r ∧
        tokensOf py cfg s.messages = .ok before ∧ tokensOf py cfg r.messages = .ok after ∧
        (r.messages.length < s.messages.length ∨ after < before) ∧ cfg.keepFirst + 2 < s.messages.length ∧
        (maybeCompress py cfg (some compact) save s).state.messages = r.messages := by
  have hcases := maybeCompress_cases py cfg compact save s
  generalize maybeCompress py cfg (some compact) save s = c at hcases ⊢
  cases hcases with
  | idle hdue => exact .inl rfl
  | undecided hdue => exact .inl rfl
  | unsized hdue hsize => exact .inl rfl
  | failed e hdue hsize => exact .inl rfl
  | @compacted r before after hdue hsize hr hafter =>
    have hlen : cfg.keepFirst + 2 < s.messages.length := by
      by_contra hc
      rw [shouldCompact, if_neg (by simp), if_pos (by omega)] at hdue
      cases hdue
    rcases acceptCompaction_cases cfg save s r before after with
      ⟨-, -, heq⟩ | ⟨hguard, -, ⟨e, -, heq⟩ | ⟨-, heq⟩⟩
    · rw [heq]
      exact .inl rfl
    · exact .inl heq
    · exact .inr ⟨r, before, after, hr, hsize, hafter, hguard, hlen, heq⟩

end TokensThatSuffice
