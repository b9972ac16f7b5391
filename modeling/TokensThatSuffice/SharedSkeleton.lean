import TokensThatSuffice.Compactors

namespace TokensThatSuffice

open MarkedCuts

structure Skeleton (messages : List Message) (keepFirst n : ℕ) (s : Split) : Prop where
  whole : s.head ++ s.middle ++ s.tail = messages
  head : s.head = messages.take keepFirst
  tail : s.tail <:+ messages.drop keepFirst
  turns : 0 < n → n ≤ toolCount (messages.drop keepFirst) →
    ∃ pre, pre ++ s.tail = messages.drop keepFirst ∧ IsCut Message.isTool n pre s.tail
  short : toolCount (messages.drop keepFirst) < n → s.tail = messages.drop keepFirst
  none : n = 0 → s.tail = []

inductive Rewritten (py : Python) (middle : List Message) : Strategy → CompactionKind → List Message → Prop
  | dropped : Rewritten py middle .truncation .truncation []
  | masked (c : MaskBasedSummarizer) :
      Rewritten py middle (.mask c) .mask (maskEnvMessages py c.toMaskOptions middle)
  | summarized (z : String) : Rewritten py middle .model .summary (summaryAsToolTurn z)
  | failed : Rewritten py middle .model .summaryFailed []

theorem splitHeadTail_skeleton (messages : List Message) (keepFirst n : ℕ) :
    Skeleton messages keepFirst n (splitHeadTail messages keepFirst n) := by
  constructor
  · rw [List.append_assoc]
    exact splitHeadTail_append messages keepFirst n
  · rfl
  · exact lastNTurns_suffix (messages.drop keepFirst) n
  · intro hn hle
    obtain ⟨pre, heq, hcut⟩ := lastNTurns_cut hn hle
    exact ⟨pre, heq.symm, hcut⟩
  · intro hlt
    exact lastNTurns_short hlt
  · rintro rfl
    exact lastNTurns_nonpos (messages.drop keepFirst) le_rfl

theorem Strategy.compact_rewritten {py : Python} {strategy : Strategy} {compact : Compact}
    (ha : strategy.Allows py compact) {messages : List Message} {keepFirst : ℕ} {keepLastTurns : ℤ}
    {r : CompactionResult} (h : compact messages keepFirst keepLastTurns = .ok r) :
    ∃ m, r.messages = (splitHeadTail messages keepFirst keepLastTurns).head ++ m ++
        (splitHeadTail messages keepFirst keepLastTurns).tail ∧
      Rewritten py (splitHeadTail messages keepFirst keepLastTurns).middle strategy r.kind m := by
  cases strategy with
  | truncation =>
    rw [Strategy.Allows] at ha
    rw [ha] at h
    cases h
    exact ⟨[], by rw [List.append_nil], .dropped⟩
  | mask c =>
    rw [Strategy.Allows] at ha
    rw [ha] at h
    obtain ⟨hmessages, hkind⟩ := MaskBasedSummarizer.compact_ok py h
    rw [hkind]
    exact ⟨_, hmessages, .masked c⟩
  | model =>
    obtain ⟨c, rfl⟩ := ha
    simp only [ModelBasedSummarizer.compact] at h
    split at h <;> cases h
    · exact ⟨[], by rw [List.append_nil], .failed⟩
    · exact ⟨_, rfl, .summarized _⟩

theorem splitHeadTail_shared (py : Python) (messages : List Message) (keepFirst n : ℕ) :
    Skeleton messages keepFirst n (splitHeadTail messages keepFirst n) ∧
      ∀ (strategy : Strategy) (compact : Compact), strategy.Allows py compact →
        ∀ r, compact messages keepFirst n = .ok r →
          ∃ m, r.messages = (splitHeadTail messages keepFirst n).head ++ m ++
              (splitHeadTail messages keepFirst n).tail ∧
            Rewritten py (splitHeadTail messages keepFirst n).middle strategy r.kind m := by
  constructor
  · exact splitHeadTail_skeleton messages keepFirst n
  · intro strategy compact ha r hr
    exact Strategy.compact_rewritten ha hr

end TokensThatSuffice
