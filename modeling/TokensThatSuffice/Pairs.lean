import TokensThatSuffice.CompactedLog
import TokensThatSuffice.Compactors

namespace TokensThatSuffice

open MarkedCuts

structure Pair where
  assistant : Message
  result : Message
  call : WireToolCall
  isAssistant : assistant.role = .assistant
  oneCall : assistant.toolCalls = [call]
  isTool : result.role = .tool
  answers : result.toolCallId = call.id

def Pair.messages (p : Pair) : List Message := [p.assistant, p.result]

def pairMessages (ps : List Pair) : List Message := ps.flatMap Pair.messages

@[simp] theorem pairMessages_nil : pairMessages [] = [] := rfl

@[simp] theorem pairMessages_cons (p : Pair) (ps : List Pair) :
    pairMessages (p :: ps) = p.assistant :: p.result :: pairMessages ps := rfl

@[simp] theorem pairMessages_append (ps qs : List Pair) :
    pairMessages (ps ++ qs) = pairMessages ps ++ pairMessages qs := List.flatMap_append

@[simp] theorem length_pairMessages (ps : List Pair) : (pairMessages ps).length = 2 * ps.length := by
  induction ps with
  | nil => rfl
  | cons p ps ih =>
    simp only [pairMessages_cons, List.length_cons, ih]
    omega

@[simp] theorem toolCount_pairMessages (ps : List Pair) : toolCount (pairMessages ps) = ps.length := by
  induction ps with
  | nil => rfl
  | cons p ps ih =>
    have ha : p.assistant.isTool = false := by simp [Message.isTool, p.isAssistant]
    have ht : p.result.isTool = true := by simp [Message.isTool, p.isTool]
    rw [pairMessages_cons, toolCount_cons, toolCount_cons, ih, ha, ht, List.length_cons]
    simp only [Bool.false_eq_true, ↓reduceIte]
    omega

theorem take_pairMessages (ps : List Pair) (j : ℕ) :
    (pairMessages ps).take (2 * j) = pairMessages (ps.take j) := by
  induction j generalizing ps with
  | zero => rfl
  | succ j ih =>
    cases ps with
    | nil => simp
    | cons p ps =>
      rw [Nat.mul_succ, pairMessages_cons, List.take_succ_cons, List.take_succ_cons, ih, List.take_succ_cons,
        pairMessages_cons]

theorem drop_pairMessages (ps : List Pair) (j : ℕ) :
    (pairMessages ps).drop (2 * j) = pairMessages (ps.drop j) := by
  induction j generalizing ps with
  | zero => rfl
  | succ j ih =>
    cases ps with
    | nil => simp
    | cons p ps =>
      rw [Nat.mul_succ, pairMessages_cons, List.drop_succ_cons, List.drop_succ_cons, ih, List.drop_succ_cons]

theorem pairMessages_boundary (ps : List Pair) : Boundary Message.isTool (pairMessages ps) := by
  rcases List.eq_nil_or_concat ps with rfl | ⟨qs, p, rfl⟩
  · exact boundary_nil
  · have hlast : pairMessages (qs.concat p) = (pairMessages qs ++ [p.assistant]) ++ [p.result] := by simp
    rw [hlast]
    apply (boundary_concat _ _).mpr
    simp [Message.isTool, p.isTool]

theorem lastNTurns_pairMessages (ps : List Pair) (n : ℕ) :
    lastNTurns (pairMessages ps) n = pairMessages (ps.rtake n) := by
  rcases Nat.eq_zero_or_pos n with rfl | hpos
  · rw [List.rtake_zero]
    exact lastNTurns_nonpos _ le_rfl
  · rcases Nat.lt_or_ge ps.length n with hlt | hge
    · have hall : ps.rtake n = ps := by rw [List.rtake, Nat.sub_eq_zero_of_le hlt.le, List.drop_zero]
      rw [hall]
      apply lastNTurns_short
      rwa [toolCount_pairMessages]
    · have hsplit : pairMessages ps = pairMessages (ps.take (ps.length - n)) ++ pairMessages (ps.rtake n) := by
        rw [← pairMessages_append, List.rtake, List.take_append_drop]
      rw [hsplit]
      apply lastNTurns_eq hpos
      constructor
      · exact pairMessages_boundary _
      · change toolCount _ = n
        rw [toolCount_pairMessages, List.rtake, List.length_drop]
        omega

theorem pairMessages_sameTurn {ps : List Pair} {messages : List Message}
    (h : List.Forall₂ SameTurn (pairMessages ps) messages) :
    ∃ qs, messages = pairMessages qs ∧ qs.length = ps.length := by
  induction ps generalizing messages with
  | nil =>
    cases h
    exact ⟨[], rfl, rfl⟩
  | cons p ps ih =>
    cases h with
    | @cons _ a _ _ ha h =>
      cases h with
      | @cons _ t _ _ ht h =>
        obtain ⟨qs, rfl, hlen⟩ := ih h
        refine ⟨⟨a, t, p.call, ?_, ?_, ?_, ?_⟩ :: qs, rfl, by rw [List.length_cons, List.length_cons, hlen]⟩
        · rw [ha.role, p.isAssistant]
        · rw [ha.toolCalls, p.oneCall]
        · rw [ht.role, p.isTool]
        · rw [ht.toolCallId, p.answers]

def summaryPair (z : String) : Pair where
  assistant := summaryCall
  result := summaryAnswer z
  call := ⟨some summaryCallId, some recallToolName, some (.str "{}")⟩
  isAssistant := rfl
  oneCall := rfl
  isTool := rfl
  answers := rfl

def IsSummary (p : Pair) : Prop := ∃ z, p = summaryPair z

section Opening

variable (system user : Message)

def opened (ps : List Pair) : List Message := system :: user :: pairMessages ps

theorem opened_append (ps qs : List Pair) :
    opened system user (ps ++ qs) = opened system user ps ++ pairMessages qs := by
  simp [opened]

theorem take_opened (ps : List Pair) (j : ℕ) :
    (opened system user ps).take (2 + 2 * j) = opened system user (ps.take j) := by
  rw [opened, Nat.add_comm 2, List.take_succ_cons, List.take_succ_cons, take_pairMessages, opened]

theorem drop_opened (ps : List Pair) (j : ℕ) :
    (opened system user ps).drop (2 + 2 * j) = pairMessages (ps.drop j) := by
  rw [opened, Nat.add_comm 2, List.drop_succ_cons, List.drop_succ_cons, drop_pairMessages]

theorem compactsTo_opened {strategy : Strategy} {ps : List Pair} {j n : ℕ} {out : List Message}
    (h : CompactsTo strategy (opened system user ps) (2 + 2 * j) n out) :
    ∃ mid, out = opened system user (ps.take j ++ mid ++ (ps.drop j).rtake n) ∧
      ((∀ c, strategy ≠ .mask c) → mid.length ≤ 1 ∧ ∀ p ∈ mid, IsSummary p) := by
  have htake := take_opened system user ps j
  have htail : lastNTurns ((opened system user ps).drop (2 + 2 * j)) n = pairMessages ((ps.drop j).rtake n) := by
    rw [drop_opened, lastNTurns_pairMessages]
  cases h with
  | dropped =>
    refine ⟨[], ?_, fun _ => ⟨by simp, by simp⟩⟩
    rw [htake, htail, List.append_nil, opened_append]
  | summarized z =>
    refine ⟨[summaryPair z], ?_, fun _ => ⟨by simp, by simp [IsSummary]⟩⟩
    rw [htake, htail, opened_append, opened_append]
    rfl
  | @masked c hmask middle same =>
    have hmiddle : (splitHeadTail (opened system user ps) (2 + 2 * j) n).middle =
        pairMessages ((ps.drop j).take ((ps.drop j).length - n)) := by
      have hall := splitHeadTail_append (opened system user ps) (2 + 2 * j) n
      have hhead : (splitHeadTail (opened system user ps) (2 + 2 * j) n).head =
          (opened system user ps).take (2 + 2 * j) := rfl
      have hlast : (splitHeadTail (opened system user ps) (2 + 2 * j) n).tail =
          pairMessages ((ps.drop j).rtake n) := htail
      rw [hhead, hlast] at hall
      have hrest := List.append_cancel_left (hall.trans (List.take_append_drop (2 + 2 * j) _).symm)
      rw [drop_opened, ← List.take_append_drop ((ps.drop j).length - n) (ps.drop j), pairMessages_append,
        List.take_append_drop] at hrest
      exact List.append_cancel_right hrest
    rw [hmiddle] at same
    obtain ⟨qs, rfl, -⟩ := pairMessages_sameTurn same
    refine ⟨qs, ?_, fun hnot => absurd hmask (hnot c)⟩
    rw [htake, htail, opened_append, opened_append]

end Opening

end TokensThatSuffice
