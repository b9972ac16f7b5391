import TokensThatSuffice.SelfDistortion
import TokensThatSuffice.StoppingLoops

namespace TokensThatSuffice

open StoppingLoops

def turnsFrom (continuation : List Message) (nTurns : ℤ) :
    List (List Message × Message) → ℕ → List Message → List (List Message × Message)
  | out, _, [] => out
  | out, i, m :: rest =>
    if m.role = .assistant then
      let out := out ++ [(continuation.take i, m)]
      if nTurns ≤ out.length then out else turnsFrom continuation nTurns out (i + 1) rest
    else turnsFrom continuation nTurns out (i + 1) rest

def continuationTurns (continuation : List Message) (nTurns : ℤ) : List (List Message × Message) :=
  turnsFrom continuation nTurns [] 0 continuation

section Contexts

variable {R : Type} (py : Python) (server : TextCompletion R) (tokenizer : Tokenizer) (model apiBase : String)

/-- One iteration of the loop of `precompute_x_contexts`; `none` breaks. -/
def turnContext (partialMessages : List Message) (k : ℤ) (tools : Option (List Json))
    (turn : List Message × Message) : Except PyError (Option (List Message × XContext R)) := do
  let xCtx ← precomputeXContext py server tokenizer model apiBase (partialMessages ++ turn.1) turn.2 k tools
  return xCtx.map (turn.1, ·)

def precomputeXContexts (partialMessages continuation : List Message) (nTurns k : ℤ) (tools : Option (List Json)) :
    Except PyError (List (List Message × XContext R)) :=
  untilNone (turnContext py server tokenizer model apiBase partialMessages k tools)
    (continuationTurns continuation nTurns)

end Contexts

section Turns

variable {continuation : List Message} {n : ℕ}

def isAssistant (m : Message) : Bool := m.role = .assistant

def turnsAmong (continuation : List Message) (places : List (Message × ℕ)) : List (List Message × Message) :=
  (places.filter (fun p => isAssistant p.1)).map (fun p => (continuation.take p.2, p.1))

def assistantTurns (continuation : List Message) : List (List Message × Message) :=
  turnsAmong continuation continuation.zipIdx

theorem turnsFrom_eq_take {out : List (List Message × Message)} {i : ℕ} {rest : List Message}
    (hroom : out.length < max 1 n) :
    turnsFrom continuation n out i rest =
      out ++ (turnsAmong continuation (rest.zipIdx i)).take (max 1 n - out.length) := by
  induction rest generalizing out i with
  | nil => simp [turnsFrom, turnsAmong]
  | cons m rest ih =>
    rw [turnsFrom, List.zipIdx_cons]
    by_cases hrole : m.role = .assistant
    · have hturns : turnsAmong continuation ((m, i) :: rest.zipIdx (i + 1)) =
          (continuation.take i, m) :: turnsAmong continuation (rest.zipIdx (i + 1)) := by
        simp [turnsAmong, isAssistant, hrole]
      obtain ⟨k, hk⟩ : ∃ k, max 1 n - out.length = k + 1 := ⟨max 1 n - out.length - 1, by omega⟩
      rw [if_pos hrole, hturns, hk, List.take_succ_cons]
      dsimp only
      split_ifs with hfull
      · have hzero : k = 0 := by
          rw [List.length_append, List.length_singleton] at hfull
          omega
        rw [hzero, List.take_zero]
      · rw [List.length_append, List.length_singleton] at hfull
        rw [ih (by rw [List.length_append, List.length_singleton]; omega), List.append_assoc,
          List.length_append, List.length_singleton, ← Nat.sub_sub, hk]
        rfl
    · have hturns : turnsAmong continuation ((m, i) :: rest.zipIdx (i + 1)) =
          turnsAmong continuation (rest.zipIdx (i + 1)) := by
        simp [turnsAmong, isAssistant, hrole]
      rw [if_neg hrole, hturns]
      exact ih hroom

theorem continuationTurns_eq_take (continuation : List Message) (n : ℕ) :
    continuationTurns continuation n = (assistantTurns continuation).take (max 1 n) := by
  rw [continuationTurns, turnsFrom_eq_take (by rw [List.length_nil]; omega), List.nil_append]
  rfl

theorem assistantTurns_actions (continuation : List Message) :
    (assistantTurns continuation).map Prod.snd = continuation.filter isAssistant := by
  rw [assistantTurns, turnsAmong, List.map_map]
  conv_rhs => rw [← List.zipIdx_map_fst 0 continuation, List.filter_map]
  rfl

theorem continuationTurns_eq_iff :
    continuationTurns continuation n = (assistantTurns continuation).take n ↔
      1 ≤ n ∨ ∀ m ∈ continuation, m.role ≠ .assistant := by
  rw [continuationTurns_eq_take]
  constructor
  · intro h
    rw [or_iff_not_imp_left]
    intro hn m hm hrole
    have hzero : n = 0 := by omega
    subst hzero
    have hnil : assistantTurns continuation = [] := by
      rw [List.take_zero, List.take_eq_nil_iff] at h
      exact h.resolve_left (by decide)
    have hactions := assistantTurns_actions continuation
    rw [hnil, List.map_nil, eq_comm, List.filter_eq_nil_iff] at hactions
    exact hactions m hm (by simp [isAssistant, hrole])
  · rintro (hn | hnone)
    · rw [Nat.max_eq_right hn]
    · have hnil : assistantTurns continuation = [] := by
        rw [← List.map_eq_nil_iff, assistantTurns_actions, List.filter_eq_nil_iff]
        intro m hm
        simp [isAssistant, hnone m hm]
      rw [hnil, List.take_nil, List.take_nil]

theorem assistantTurns_extend (continuation : List Message) :
    (assistantTurns continuation).Pairwise (fun t t' => t.1 ++ [t.2] <+: t'.1) := by
  have hplaces : continuation.zipIdx.Pairwise (fun p q => p.2 < q.2) := by
    rw [← List.pairwise_map (f := Prod.snd), List.zipIdx_map_snd]
    exact List.pairwise_lt_range'
  rw [assistantTurns, turnsAmong, List.pairwise_map]
  apply (hplaces.filter _).imp_of_mem
  intro p q hp _ hlt
  have hget := List.mem_zipIdx_iff_getElem?.mp (List.mem_of_mem_filter hp)
  have htake : continuation.take (p.2 + 1) = continuation.take p.2 ++ [p.1] := by
    rw [List.take_add_one, hget, Option.toList_some]
  rw [← htake]
  exact List.take_prefix_take_left hlt

variable {R : Type}

def ScoredRun (score : List Message × Message → Except PyError (Option (XContext R)))
    (turns : List (List Message × Message)) (ctxs : List (List Message × XContext R)) : Prop :=
  ∃ done rest, turns = done ++ rest ∧
    List.Forall₂ (fun t c => c.1 = t.1 ∧ score t = .ok (some c.2)) done ctxs ∧ ∀ t ∈ rest.head?, score t = .ok none

theorem initialRun_turnContext (py : Python) (server : TextCompletion R) (tokenizer : Tokenizer)
    (model apiBase : String) (partialMessages : List Message) (k : ℤ) (tools : Option (List Json))
    {turns : List (List Message × Message)} {ctxs : List (List Message × XContext R)} :
    InitialRun (turnContext py server tokenizer model apiBase partialMessages k tools) turns ctxs ↔
      ScoredRun (fun t => precomputeXContext py server tokenizer model apiBase (partialMessages ++ t.1) t.2 k tools)
        turns ctxs := by
  have hsome : (fun (t : List Message × Message) (c : List Message × XContext R) =>
      turnContext py server tokenizer model apiBase partialMessages k tools t = .ok (some c)) =
      fun t c => c.1 = t.1 ∧
        precomputeXContext py server tokenizer model apiBase (partialMessages ++ t.1) t.2 k tools = .ok (some c.2) := by
    funext t c
    rw [turnContext]
    rcases precomputeXContext py server tokenizer model apiBase (partialMessages ++ t.1) t.2 k tools with e | _ | x <;>
      simp [Prod.ext_iff, eq_comm]
  have hnone (t : List Message × Message) :
      turnContext py server tokenizer model apiBase partialMessages k tools t = .ok none ↔
        precomputeXContext py server tokenizer model apiBase (partialMessages ++ t.1) t.2 k tools = .ok none := by
    rw [turnContext]
    rcases precomputeXContext py server tokenizer model apiBase (partialMessages ++ t.1) t.2 k tools with e | _ | x <;>
      simp
  simp only [InitialRun, ScoredRun, hsome, hnone]

structure TeacherForced (py : Python) (server : TextCompletion R) (tokenizer : Tokenizer) (model apiBase : String)
    (partialMessages continuation : List Message) (n : ℕ) (k : ℤ) (tools : Option (List Json)) : Prop where
  turns : continuationTurns continuation n = (assistantTurns continuation).take n
  actions : (continuationTurns continuation n).map Prod.snd = (continuation.filter isAssistant).take n
  extend : (continuationTurns continuation n).Pairwise (fun t t' => t.1 ++ [t.2] <+: t'.1)
  contexts : ∀ ctxs, precomputeXContexts py server tokenizer model apiBase partialMessages continuation n k tools =
      .ok ctxs ↔
    ScoredRun (fun t => precomputeXContext py server tokenizer model apiBase (partialMessages ++ t.1) t.2 k tools)
      ((assistantTurns continuation).take n) ctxs

theorem precomputeXContexts_teacherForced_iff (py : Python) (server : TextCompletion R) (tokenizer : Tokenizer)
    (model apiBase : String) (partialMessages continuation : List Message) (n : ℕ) (k : ℤ)
    (tools : Option (List Json)) :
    TeacherForced py server tokenizer model apiBase partialMessages continuation n k tools ↔
      1 ≤ n ∨ ∀ m ∈ continuation, m.role ≠ .assistant := by
  constructor
  · intro h
    exact continuationTurns_eq_iff.mp h.turns
  · intro h
    have hturns := continuationTurns_eq_iff.mpr h
    constructor
    · exact hturns
    · rw [hturns, List.map_take, assistantTurns_actions]
    · rw [hturns]
      exact (assistantTurns_extend continuation).sublist (List.take_sublist _ _)
    · intro ctxs
      rw [precomputeXContexts, hturns, untilNone_eq_ok_iff, initialRun_turnContext]

end Turns

theorem not_teacherForced_zero : ¬ TeacherForced asciiPython (fun _ => .error .osError : TextCompletion ℚ)
    charTokenizer "m" "b" [] [{ role := .assistant, content := some (.text "ls") }] 0 0 none := by
  intro h
  exact List.cons_ne_nil _ _ h.turns

end TokensThatSuffice
