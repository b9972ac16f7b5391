import TokensThatSuffice.MaskWindow

namespace TokensThatSuffice

section Decisions

inductive MaskDecision where
  | thinking
  | output
  | verbatim
  deriving DecidableEq, Repr

variable (py : Python) (o : MaskOptions)

def masksThinking (m : Message) : Bool :=
  o.maskThinking && m.role = .assistant && m.reasoningContent.any (· ≠ "")

def maskDecision (recent : Bool) (m : Message) : MaskDecision :=
  if masksThinking o m then .thinking
  else if o.maskOutput = true ∧ m.isTool = true ∧ ¬ recent = true ∧ ¬ TaggedShort py o m then .output
  else .verbatim

def MaskDecision.apply : MaskDecision → Message → Message
  | .thinking, m => { m with reasoningContent := some o.thinkingPlaceholder }
  | .output, m => replaced py o m
  | .verbatim, m => m

def windowMarks (messages : List Message) : List (Bool × Message) :=
  messages.zipIdx.map (fun p => ((recentToolIndices o messages).contains p.2, p.1))

def applyMarked (p : Bool × Message) : Message := (maskDecision py o p.1 p.2).apply py o p.2

theorem maskMessage_eq (recent : Bool) (m : Message) :
    maskMessage py o recent m =
      if masksThinking o m then { m with reasoningContent := some o.thinkingPlaceholder }
      else if o.maskOutput && m.isTool then if recent then m else maskOutputOf py o m
      else m := rfl

theorem maskMessage_decision (recent : Bool) (m : Message) :
    maskMessage py o recent m = applyMarked py o (recent, m) := by
  rw [applyMarked, maskDecision]
  by_cases hthinking : masksThinking o m = true
  · rw [if_pos hthinking, maskMessage_eq, if_pos hthinking]
    rfl
  · rw [if_neg hthinking]
    by_cases ht : m.isTool = true
    · rw [maskMessage_tool py o ht]
      by_cases hout : o.maskOutput = true ∧ ¬ recent = true ∧ ¬ TaggedShort py o m
      · rw [if_pos hout, if_pos ⟨hout.1, ht, hout.2⟩]
        rfl
      · rw [if_neg hout, if_neg fun h => hout ⟨h.1, h.2.2⟩]
        rfl
    · have hno : ¬ (o.maskOutput && m.isTool) = true := by simp [ht]
      rw [if_neg fun h => ht h.2.1, maskMessage_eq, if_neg hthinking, if_neg hno]
      rfl

theorem maskEnvMessages_marks (messages : List Message) :
    maskEnvMessages py o messages = (windowMarks o messages).map (applyMarked py o) := by
  unfold maskEnvMessages windowMarks
  rw [List.map_map]
  generalize recentToolIndices o messages = recent
  generalize 0 = i
  induction messages generalizing i with
  | nil => rfl
  | cons m rest ih =>
    rw [maskEnvFrom, ih, List.zipIdx_cons, List.map_cons, maskMessage_decision]
    rfl

theorem windowMarks_messages (messages : List Message) : (windowMarks o messages).map (·.2) = messages := by
  rw [windowMarks, List.map_map]
  exact List.zipIdx_map_fst 0 messages

theorem maskDecision_eq_thinking (recent : Bool) (m : Message) :
    maskDecision py o recent m = .thinking ↔ masksThinking o m = true := by
  rw [maskDecision]
  split_ifs with hthinking <;> simp [hthinking]

theorem maskDecision_eq_output {recent : Bool} {m : Message} (h : maskDecision py o recent m = .output) :
    o.maskOutput = true ∧ m.isTool = true := by
  rw [maskDecision] at h
  split_ifs at h with hthinking hout
  exact ⟨hout.1, hout.2.1⟩

theorem masksThinking_not_tool {m : Message} (h : masksThinking o m = true) : m.isTool = false := by
  simp only [masksThinking, Bool.and_eq_true, decide_eq_true_eq] at h
  rw [Message.isTool, h.1.2]
  rfl

end Decisions

section Counting

variable (py : Python) (o : MaskOptions)

def outputText (m : Message) : Option String :=
  match m.content.getD (.text "") with
  | .text s => some s
  | _ => none

def hasMaskedPrefix (s : String) : Bool := startsWith s "Old environment output:"

def looksMasked (m : Message) : Bool := o.maskOutput && m.isTool && (outputText m).any hasMaskedPrefix

theorem countOutputMasked_eq_ok {messages : List Message} {n : ℕ} :
    countOutputMasked o messages = .ok n ↔
      (∀ m ∈ messages, (o.maskOutput && m.isTool) = true → (outputText m).isSome) ∧
        messages.countP (looksMasked o) = n := by
  induction messages generalizing n with
  | nil =>
    rw [countOutputMasked, Except.ok.injEq]
    simp
  | cons m rest ih =>
    rw [countOutputMasked, List.forall_mem_cons, List.countP_cons]
    by_cases ht : (o.maskOutput && m.isTool) = true
    · rw [if_pos ht, looksMasked, ht]
      cases hcontent : m.content.getD (.text "") with
      | text s =>
        have htext : outputText m = some s := by rw [outputText, hcontent]
        simp only [bind_eq_ok, ih, pure_eq_ok, Except.ok.injEq, htext, Option.isSome_some, Option.any_some,
          Bool.true_and, forall_const, true_and]
        constructor
        · rintro ⟨k, ⟨hall, rfl⟩, rfl⟩
          exact ⟨hall, Nat.add_comm _ _⟩
        · rintro ⟨hall, rfl⟩
          exact ⟨_, ⟨hall, rfl⟩, Nat.add_comm _ _⟩
      | _ =>
        have htext : outputText m = none := by rw [outputText, hcontent]
        simp [htext]
    · rw [if_neg ht, ih, looksMasked]
      simp [ht]

def placeholderLooksMasked : Bool := o.descriptivePlaceholder || hasMaskedPrefix o.placeholder

theorem hasMaskedPrefix_descriptive (n : ℕ) : hasMaskedPrefix (descriptivePlaceholder n) = true := by
  have hsplit : "Old environment output: (" = "Old environment output:" ++ " (" := by decide
  unfold hasMaskedPrefix descriptivePlaceholder
  rw [hsplit]
  simp only [String.append_assoc]
  apply startsWith_append

theorem maskedContent_looksMasked (m : Message) :
    hasMaskedPrefix (maskedContent py o m) = placeholderLooksMasked o := by
  rw [maskedContent, placeholderLooksMasked]
  cases o.descriptivePlaceholder with
  | true => rw [if_pos rfl, Bool.true_or, hasMaskedPrefix_descriptive]
  | false => rw [if_neg Bool.false_ne_true, Bool.false_or]

def keepsOutput (p : Bool × Message) : Bool :=
  o.maskOutput && p.2.isTool && maskDecision py o p.1 p.2 = .verbatim

def keptLooksMasked (p : Bool × Message) : Bool := keepsOutput py o p && looksMasked o p.2

def replacesOutput (p : Bool × Message) : Bool := maskDecision py o p.1 p.2 = .output

theorem looksMasked_applyMarked (p : Bool × Message) :
    looksMasked o (applyMarked py o p) =
      ((replacesOutput py o p && placeholderLooksMasked o) || keptLooksMasked py o p) := by
  rw [applyMarked, keptLooksMasked, keepsOutput, replacesOutput]
  cases hd : maskDecision py o p.1 p.2 with
  | thinking =>
    have ht := masksThinking_not_tool o ((maskDecision_eq_thinking py o p.1 p.2).mp hd)
    have ht' : Message.isTool { p.2 with reasoningContent := some o.thinkingPlaceholder } = false := ht
    rw [MaskDecision.apply, looksMasked, ht']
    simp
  | output =>
    obtain ⟨hout, ht⟩ := maskDecision_eq_output py o hd
    have ht' : (replaced py o p.2).isTool = true := ht
    have htext : outputText (replaced py o p.2) = some (maskedContent py o p.2) := rfl
    rw [MaskDecision.apply, looksMasked, hout, ht', htext, Option.any_some, maskedContent_looksMasked]
    simp
  | verbatim =>
    rw [MaskDecision.apply, looksMasked]
    cases o.maskOutput <;> cases p.2.isTool <;> simp

theorem countP_looksMasked (ps : List (Bool × Message)) :
    (ps.map (applyMarked py o)).countP (looksMasked o) =
      (if placeholderLooksMasked o then ps.countP (replacesOutput py o) else 0) +
        ps.countP (keptLooksMasked py o) := by
  induction ps with
  | nil => simp
  | cons p ps ih =>
    have hone : ¬ (replacesOutput py o p = true ∧ keptLooksMasked py o p = true) := by
      rintro ⟨hr, hk⟩
      simp only [replacesOutput, keptLooksMasked, keepsOutput, Bool.and_eq_true, decide_eq_true_eq] at hr hk
      rw [hr] at hk
      exact absurd hk.1.2 (by decide)
    rw [List.map_cons, List.countP_cons, List.countP_cons, List.countP_cons, ih, looksMasked_applyMarked]
    cases placeholderLooksMasked o <;> cases hr : replacesOutput py o p <;> cases hk : keptLooksMasked py o p
    all_goals
      simp [hr, hk] at hone ⊢
      try omega

end Counting

section Audit

variable (py : Python)

def replacedOutputs (o : MaskOptions) (middle : List Message) : ℕ :=
  (windowMarks o middle).countP (replacesOutput py o)

def replacedThinking (o : MaskOptions) (middle : List Message) : ℕ :=
  (windowMarks o middle).countP (fun p => maskDecision py o p.1 p.2 = .thinking)

def AuditRight (c : MaskBasedSummarizer) (messages : List Message) (keepFirst : ℕ) (keepLastTurns : ℤ) : Prop :=
  ∃ r, c.compact py messages keepFirst keepLastTurns = .ok r ∧
    r.metadata.lookup "n_output_masked" = some (.int
      (replacedOutputs py c.toMaskOptions (splitHeadTail messages keepFirst keepLastTurns).middle)) ∧
    r.metadata.lookup "n_thinking_masked" = some (.int
      (replacedThinking py c.toMaskOptions (splitHeadTail messages keepFirst keepLastTurns).middle))

structure Auditable (o : MaskOptions) (middle : List Message) : Prop where
  readable : ∀ p ∈ windowMarks o middle, keepsOutput py o p = true → (outputText p.2).isSome
  told : (windowMarks o middle).countP (keptLooksMasked py o) =
    if placeholderLooksMasked o then 0 else replacedOutputs py o middle

theorem countThinkingMasked_eq (o : MaskOptions) (middle : List Message) :
    countThinkingMasked o middle = replacedThinking py o middle := by
  have hcount : countThinkingMasked o middle = ((windowMarks o middle).map (·.2)).countP (masksThinking o) := by
    rw [windowMarks_messages]
    rfl
  rw [hcount, List.countP_map, replacedThinking]
  apply List.countP_congr
  intro p _
  rw [decide_eq_true_eq, maskDecision_eq_thinking, Function.comp_apply]

theorem readable_masked_iff (o : MaskOptions) (middle : List Message) :
    (∀ m ∈ maskEnvMessages py o middle, (o.maskOutput && m.isTool) = true → (outputText m).isSome) ↔
      ∀ p ∈ windowMarks o middle, keepsOutput py o p = true → (outputText p.2).isSome := by
  rw [maskEnvMessages_marks, List.forall_mem_map]
  apply forall₂_congr
  intro p _
  rw [applyMarked, keepsOutput]
  cases hd : maskDecision py o p.1 p.2 with
  | thinking =>
    have ht := masksThinking_not_tool o ((maskDecision_eq_thinking py o p.1 p.2).mp hd)
    have ht' : (MaskDecision.thinking.apply py o p.2).isTool = false := ht
    simp [ht']
  | output =>
    have htext : outputText (MaskDecision.output.apply py o p.2) = some (maskedContent py o p.2) := rfl
    simp [htext]
  | verbatim => simp [MaskDecision.apply]

theorem compact_eq_ok_iff (c : MaskBasedSummarizer) (messages : List Message) (keepFirst : ℕ) (keepLastTurns : ℤ)
    (P : CompactionResult → Prop) :
    (∃ r, c.compact py messages keepFirst keepLastTurns = .ok r ∧ P r) ↔
      ∃ n, countOutputMasked c.toMaskOptions (maskEnvMessages py c.toMaskOptions
          (splitHeadTail messages keepFirst keepLastTurns).middle) = .ok n ∧ P {
        messages := (splitHeadTail messages keepFirst keepLastTurns).head ++
          maskEnvMessages py c.toMaskOptions (splitHeadTail messages keepFirst keepLastTurns).middle ++
          (splitHeadTail messages keepFirst keepLastTurns).tail
        kind := .mask
        metadata := maskMetadata c.toMaskOptions n
          (countThinkingMasked c.toMaskOptions (splitHeadTail messages keepFirst keepLastTurns).middle) } := by
  constructor
  · rintro ⟨r, hr, hP⟩
    obtain ⟨n, hn, hr⟩ := bind_eq_ok.mp hr
    cases hr
    exact ⟨n, hn, hP⟩
  · rintro ⟨n, hn, hP⟩
    refine ⟨_, ?_, hP⟩
    rw [MaskBasedSummarizer.compact, hn, ok_bind]
    rfl

theorem compact_audit_iff (c : MaskBasedSummarizer) (messages : List Message) (keepFirst : ℕ)
    (keepLastTurns : ℤ) :
    AuditRight py c messages keepFirst keepLastTurns ↔
      Auditable py c.toMaskOptions (splitHeadTail messages keepFirst keepLastTurns).middle := by
  rw [AuditRight, compact_eq_ok_iff]
  generalize (splitHeadTail messages keepFirst keepLastTurns).middle = middle
  have hlookup (n k : ℕ) : (maskMetadata c.toMaskOptions n k).lookup "n_output_masked" = some (.int n) ∧
      (maskMetadata c.toMaskOptions n k).lookup "n_thinking_masked" = some (.int k) := ⟨rfl, rfl⟩
  have hcount := countP_looksMasked py c.toMaskOptions (windowMarks c.toMaskOptions middle)
  rw [← maskEnvMessages_marks] at hcount
  constructor
  · rintro ⟨n, hn, hout, -⟩
    obtain ⟨hread, rfl⟩ := (countOutputMasked_eq_ok c.toMaskOptions).mp hn
    rw [(hlookup _ _).1, Option.some.injEq, Json.int.injEq, Int.natCast_inj, hcount, replacedOutputs] at hout
    refine ⟨(readable_masked_iff py c.toMaskOptions middle).mp hread, ?_⟩
    rw [replacedOutputs]
    split_ifs at hout ⊢ <;> omega
  · rintro ⟨hread, htold⟩
    refine ⟨_, (countOutputMasked_eq_ok c.toMaskOptions).mpr
      ⟨(readable_masked_iff py c.toMaskOptions middle).mpr hread, rfl⟩, ?_, ?_⟩
    · rw [(hlookup _ _).1, hcount, htold, replacedOutputs]
      congr 2
      split_ifs <;> omega
    · rw [(hlookup _ _).2, countThinkingMasked_eq py]

/-- The contents the agent's tools produce: a string, or a list of text parts. -/
def PlainOutput (m : Message) : Prop :=
  (∃ s, m.content = some (.text s)) ∨ ∃ texts : List String, m.content = some (.parts (texts.map .text))

def partsOutput : Message := { role := .tool, content := some (.parts [.text "ok"]) }

theorem compact_audit_raises :
    ¬ ∀ (c : MaskBasedSummarizer) (messages : List Message) (keepFirst : ℕ) (keepLastTurns : ℤ),
      (∀ m ∈ messages, m.isTool = true → PlainOutput m) → 0 ≤ keepLastTurns →
        AuditRight asciiPython c messages keepFirst keepLastTurns := by
  intro h
  have hplain : ∀ m ∈ [partsOutput], m.isTool = true → PlainOutput m := by
    intro m hm _
    rw [List.mem_singleton.mp hm]
    exact .inr ⟨["ok"], rfl⟩
  obtain ⟨r, hr, -⟩ := h { masksSomething := rfl } [partsOutput] 0 0 hplain le_rfl
  have hraises : MaskBasedSummarizer.compact asciiPython { masksSomething := rfl } [partsOutput] 0 0 =
      .error .attributeError := by rfl
  rw [hraises] at hr
  cases hr

end Audit

end TokensThatSuffice
