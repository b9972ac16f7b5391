import TokensThatSuffice.Masking
import TokensThatSuffice.TrajectorySteps

namespace TokensThatSuffice

abbrev Compact := List Message → ℕ → ℤ → Except PyError CompactionResult

def TruncationBasedSummarizer.compact : Compact := fun messages keepFirst keepLastTurns =>
  let s := splitHeadTail messages keepFirst keepLastTurns
  .ok {
    messages := s.head ++ s.tail
    kind := .truncation
    metadata := [("n_dropped", .int s.middle.length)] }

def recallToolName : String := "recall_context"

def summaryCallId : String := "summary_0"

def summaryCall : Message where
  role := .assistant
  content := some (.text "")
  toolCalls := [⟨some summaryCallId, some recallToolName, some (.str "{}")⟩]

def summaryAnswer (summary : String) : Message where
  role := .tool
  toolCallId := some summaryCallId
  content := some (.text summary)

def summaryAsToolTurn (summary : String) : List Message := [summaryCall, summaryAnswer summary]

/-- `summarize` fails with the text of the exception its backend raised. -/
structure ModelBasedSummarizer where
  summarize : List TrajectoryStep → Except String String

def ModelBasedSummarizer.compact (py : Python) (c : ModelBasedSummarizer) : Compact :=
  fun messages keepFirst keepLastTurns =>
    let s := splitHeadTail messages keepFirst keepLastTurns
    match c.summarize (messagesToSteps py messages) with
    | .error text => .ok {
        messages := s.head ++ s.tail
        kind := .summaryFailed
        metadata := [("error", .str text)] }
    | .ok z => .ok {
        messages := s.head ++ summaryAsToolTurn z ++ s.tail
        kind := .summary
        summary := some z }

inductive Strategy where
  | truncation
  | mask (c : MaskBasedSummarizer)
  | model

def Strategy.Allows (py : Python) : Strategy → Compact → Prop
  | .truncation, f => f = TruncationBasedSummarizer.compact
  | .mask c, f => f = c.compact py
  | .model, f => ∃ c : ModelBasedSummarizer, f = c.compact py

inductive CompactsTo (strategy : Strategy) (messages : List Message) (keepFirst : ℕ) (keepLastTurns : ℤ) :
    List Message → Prop
  | dropped : CompactsTo strategy messages keepFirst keepLastTurns
      (messages.take keepFirst ++ lastNTurns (messages.drop keepFirst) keepLastTurns)
  | summarized (z : String) : CompactsTo strategy messages keepFirst keepLastTurns
      (messages.take keepFirst ++ summaryAsToolTurn z ++ lastNTurns (messages.drop keepFirst) keepLastTurns)
  | masked {c : MaskBasedSummarizer} (hmask : strategy = .mask c) (middle : List Message)
      (same : List.Forall₂ SameTurn (splitHeadTail messages keepFirst keepLastTurns).middle middle) :
      CompactsTo strategy messages keepFirst keepLastTurns
        (messages.take keepFirst ++ middle ++ lastNTurns (messages.drop keepFirst) keepLastTurns)

theorem Strategy.compact_cases {py : Python} {strategy : Strategy} {compact : Compact}
    (ha : strategy.Allows py compact) {messages : List Message} {keepFirst : ℕ} {keepLastTurns : ℤ}
    {r : CompactionResult} (h : compact messages keepFirst keepLastTurns = .ok r) :
    CompactsTo strategy messages keepFirst keepLastTurns r.messages := by
  cases strategy with
  | truncation =>
    rw [Strategy.Allows] at ha
    rw [ha] at h
    cases h
    exact .dropped
  | mask c =>
    rw [Strategy.Allows] at ha
    rw [ha] at h
    rw [(MaskBasedSummarizer.compact_ok py h).1]
    exact .masked rfl _ (maskEnvMessages_sameTurn py _ _)
  | model =>
    obtain ⟨c, rfl⟩ := ha
    simp only [ModelBasedSummarizer.compact] at h
    split at h <;> cases h
    · exact .dropped
    · exact .summarized _

theorem masked_sameTurn {messages middle : List Message} {keepFirst : ℕ} {keepLastTurns : ℤ}
    (same : List.Forall₂ SameTurn (splitHeadTail messages keepFirst keepLastTurns).middle middle) :
    List.Forall₂ SameTurn messages
      (messages.take keepFirst ++ middle ++ lastNTurns (messages.drop keepFirst) keepLastTurns) := by
  have hrefl (xs : List Message) : List.Forall₂ SameTurn xs xs := List.forall₂_same.mpr (fun m _ => .refl m)
  have happ : List.Forall₂ SameTurn
      ((splitHeadTail messages keepFirst keepLastTurns).head ++
        ((splitHeadTail messages keepFirst keepLastTurns).middle ++
          (splitHeadTail messages keepFirst keepLastTurns).tail))
      (messages.take keepFirst ++ (middle ++ lastNTurns (messages.drop keepFirst) keepLastTurns)) :=
    List.rel_append (hrefl _) (List.rel_append same (hrefl _))
  rw [splitHeadTail_append] at happ
  rwa [List.append_assoc]

end TokensThatSuffice
