import TokensThatSuffice.HeadTail

namespace TokensThatSuffice

inductive CompactionKind where
  | summary
  | mask
  | truncation
  | summaryFailed
  deriving DecidableEq, Repr

structure CompactionResult where
  messages : List Message
  kind : CompactionKind
  summary : Option String := none
  metadata : List (String × Json) := []
  deriving Repr

variable (py : Python)

def Part.toJson : Part → Json
  | .text s => .object [("type", .str "text"), ("text", .str s)]
  | .other v => v

def Content.toStr : Content → String
  | .null => "None"
  | .text s => s
  | .parts ps => py.repr (.array (ps.map Part.toJson))

def Content.joinTexts (ps : List Part) : String :=
  join " " (ps.filterMap (fun | .text s => some s | .other _ => none))

def foldCase (c : Char) : Char :=
  if c.toNat = 0x17f then 's'
  else if c.toNat = 0x212a then 'k'
  else if c.toNat = 0x130 ∨ c.toNat = 0x131 then 'i'
  else c.toLower

def keepOutputWords : List String :=
  ["Error", "Traceback", "AssertionError", "Exception", "FAILED", "FAIL", "failed", "=>",
    "unexpected", "TypeError", "KeyError", "ValueError"]

def diffWordFrom (before : Bool) : List Char → Bool
  | [] => false
  | c :: rest =>
    (!before && "diff".toList.isPrefixOf ((c :: rest).map foldCase) &&
      !(((c :: rest).drop 4).head?.any py.isWord)) || diffWordFrom (py.isWord c) rest

def startsWithDiffMarker (s : List Char) : Bool :=
  let body := s.dropWhile isSpace
  "+++".toList.isPrefixOf body || "---".toList.isPrefixOf body

def keepOutputSearch (s : String) : Bool :=
  keepOutputWords.any (fun w => (s.toList.map foldCase).tails.any ((w.toList.map foldCase).isPrefixOf ·)) ||
    diffWordFrom py false s.toList || startsWithDiffMarker s.toList

def shouldKeepToolOutput (content : Content) : Bool :=
  match content with
  | .parts ps => keepOutputSearch py (Content.joinTexts ps)
  | c => keepOutputSearch py (c.toStr py)

structure MaskOptions where
  placeholder : String := "[OUTPUT]"
  maskOutput : Bool := true
  maskThinking : Bool := false
  thinkingPlaceholder : String := "[THINKING]"
  keepN : ℤ := 10
  taggedKeep : Bool := true
  longOutputChars : ℤ := 5000
  descriptivePlaceholder : Bool := true
  deriving Repr

def descriptivePlaceholder (lines : ℕ) : String :=
  "Old environment output: (" ++ toString lines ++ " lines omitted)"

variable (o : MaskOptions)

def maskedContent (m : Message) : String :=
  if o.descriptivePlaceholder then
    descriptivePlaceholder (splitlines ((m.content.getD (.text "")).toStr py)).length
  else o.placeholder

def maskOutputOf (m : Message) : Message :=
  let content := m.content.getD (.text "")
  let masked := { m with content := some (.text (maskedContent py o m)) }
  if o.taggedKeep && shouldKeepToolOutput py content then
    -- a tagged output stays unless it is too long
    if o.longOutputChars ≠ 0 ∧ o.longOutputChars < (content.toStr py).length then masked else m
  else masked

def maskMessage (recent : Bool) (m : Message) : Message :=
  if o.maskThinking && m.role = .assistant && m.reasoningContent.any (· ≠ "") then
    { m with reasoningContent := some o.thinkingPlaceholder }
  else if o.maskOutput && m.isTool then
    if recent then m else maskOutputOf py o m
  else m

def maskEnvFrom (recent : List ℕ) (i : ℕ) : List Message → List Message
  | [] => []
  | m :: rest => maskMessage py o (recent.contains i) m :: maskEnvFrom recent (i + 1) rest

def toolIndices (messages : List Message) : List ℕ :=
  (List.range messages.length).filter (toolAt messages)

/-- `tool_idx[keep_from:]`; `keep_from` is negative when `keep_n` exceeds the number of outputs. -/
def recentToolIndices (messages : List Message) : List ℕ :=
  let toolIdx := toolIndices messages
  sliceFrom toolIdx (if o.keepN ≠ 0 then toolIdx.length - o.keepN else toolIdx.length)

def maskEnvMessages (messages : List Message) : List Message :=
  maskEnvFrom py o (recentToolIndices o messages) 0 messages

structure MaskBasedSummarizer extends MaskOptions where
  masksSomething : maskOutput || maskThinking

def countOutputMasked : List Message → Except PyError ℕ
  | [] => .ok 0
  | m :: rest =>
    if o.maskOutput && m.isTool then
      match m.content.getD (.text "") with
      | .text s => do
        let n ← countOutputMasked rest
        return (if startsWith s "Old environment output:" then 1 else 0) + n
      | _ => .error .attributeError
    else countOutputMasked rest

def countThinkingMasked (messages : List Message) : ℕ :=
  messages.countP (fun m => o.maskThinking && m.role = .assistant && m.reasoningContent.any (· ≠ ""))

def maskMetadata (nOutput nThinking : ℕ) : List (String × Json) :=
  [("mask_output", .bool o.maskOutput), ("mask_thinking", .bool o.maskThinking), ("keep_n", .int o.keepN),
    ("tagged_keep", .bool o.taggedKeep), ("long_output_chars", .int o.longOutputChars),
    ("descriptive_placeholder", .bool o.descriptivePlaceholder), ("n_output_masked", .int nOutput),
    ("n_thinking_masked", .int nThinking), ("placeholder", .str o.placeholder)]

def MaskBasedSummarizer.compact (c : MaskBasedSummarizer) (messages : List Message) (keepFirst : ℕ)
    (keepLastTurns : ℤ) : Except PyError CompactionResult := do
  let s := splitHeadTail messages keepFirst keepLastTurns
  let masked := maskEnvMessages py c.toMaskOptions s.middle
  let nOutput ← countOutputMasked c.toMaskOptions masked
  return {
    messages := s.head ++ masked ++ s.tail
    kind := .mask
    metadata := maskMetadata c.toMaskOptions nOutput (countThinkingMasked c.toMaskOptions s.middle) }

structure SameTurn (m m' : Message) : Prop where
  role : m'.role = m.role
  toolCalls : m'.toolCalls = m.toolCalls
  toolCallId : m'.toolCallId = m.toolCallId

theorem maskMessage_sameTurn (recent : Bool) (m : Message) : SameTurn m (maskMessage py o recent m) := by
  simp only [maskMessage, maskOutputOf]
  split_ifs <;> exact ⟨rfl, rfl, rfl⟩

theorem maskEnvMessages_sameTurn (messages : List Message) :
    List.Forall₂ SameTurn messages (maskEnvMessages py o messages) := by
  unfold maskEnvMessages
  generalize recentToolIndices o messages = recent
  generalize 0 = i
  induction messages generalizing i with
  | nil => exact .nil
  | cons m rest ih =>
    apply List.Forall₂.cons
    · apply maskMessage_sameTurn
    · apply ih

theorem SameTurn.refl (m : Message) : SameTurn m m := ⟨rfl, rfl, rfl⟩

theorem MaskBasedSummarizer.compact_ok {c : MaskBasedSummarizer} {messages : List Message} {keepFirst : ℕ}
    {keepLastTurns : ℤ} {r : CompactionResult} (h : c.compact py messages keepFirst keepLastTurns = .ok r) :
    r.messages = (splitHeadTail messages keepFirst keepLastTurns).head ++
      maskEnvMessages py c.toMaskOptions (splitHeadTail messages keepFirst keepLastTurns).middle ++
      (splitHeadTail messages keepFirst keepLastTurns).tail ∧ r.kind = .mask := by
  obtain ⟨n, -, h⟩ := bind_eq_ok.mp h
  cases h
  exact ⟨rfl, rfl⟩

end TokensThatSuffice
