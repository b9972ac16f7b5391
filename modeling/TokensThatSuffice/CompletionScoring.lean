import TokensThatSuffice.Messages

namespace TokensThatSuffice

/-- The chat template may raise; its second argument is `add_generation_prompt`. -/
structure Tokenizer where
  encode : String → List ℕ
  applyChatTemplate : List Message → Bool → Option (List Json) → Except PyError String

/-- The fields of a completion answer that scoring reads; `none` where reading them raises. -/
structure Completion (R : Type) where
  promptTokens : Option ℕ
  tokenLogprobs : Option (List (Option R))
  deriving Repr

structure CompletionRequest where
  model : String
  base : String
  prompt : String
  maxTokens : ℕ
  logprobs : ℤ
  echo : Bool
  deriving Repr

abbrev TextCompletion (R : Type) := CompletionRequest → Except PyError (Completion R)

structure XLogprobs (R : Type) where
  nXCtx : ℕ
  nCompletion : ℤ
  xTok : List (Option R)
  deriving Repr

def thinkOpen : String := "<think>\n"

def thinkClosed : String := "<think>\n\n</think>\n\n"

def completionOpensInThink (completion : String) : Bool :=
  match find completion "</think>", find completion "<think>" with
  | none, _ => false
  | some _, none => true
  | some close, some openAt => close < openAt

def closeThinkBlock (text completion : String) : String :=
  if endsWith text thinkOpen && !completionOpensInThink completion then
    String.ofList (text.toList.take (text.length - thinkOpen.length)) ++ thinkClosed
  else text

variable {R : Type}

def readField {α : Type} (field : Option α) : Except PyError α :=
  match field with
  | some v => .ok v
  | none => .error .typeError

def vllmModel (model : String) : String := replace model "litellm_proxy/" "hosted_vllm/"

def scoringRequest (model apiBase prompt : String) (k : ℤ) : CompletionRequest where
  model := vllmModel model
  base := rstrip (· = '/') apiBase
  prompt := prompt
  maxTokens := 1
  logprobs := k
  echo := true

section Scoring

variable (server : TextCompletion R) (tokenizer : Tokenizer) (model apiBase : String)

def contextText (messages : List Message) (completion : String) (tools : Option (List Json)) :
    Except PyError String := do
  let rendered ← tokenizer.applyChatTemplate messages true tools
  return closeThinkBlock rendered completion

def readX (answer : Except PyError (Completion R)) (nXCtx : ℕ) : Except PyError (XLogprobs R) := do
  let xResp ← answer
  let nXFull ← readField xResp.promptTokens
  let logprobs ← readField xResp.tokenLogprobs
  return ⟨nXCtx, (nXFull : ℤ) - nXCtx, slice logprobs nXCtx nXFull⟩

def readZ (answer : Except PyError (Completion R)) (nZCtx : ℕ) (nCompletion : ℤ) :
    Except PyError (List (Option R)) := do
  let zResp ← answer
  let logprobs ← readField zResp.tokenLogprobs
  return slice logprobs nZCtx (nZCtx + nCompletion)

def tokenDifferences [Sub R] (xTok zTok : List (Option R)) : List R :=
  (xTok.zip zTok).filterMap (fun
    | (some x, some z) => some (x - z)
    | _ => none)

def precomputeX (xMessages : List Message) (completion : String) (k : ℤ) (tools : Option (List Json)) :
    Except PyError (Option (XLogprobs R)) :=
  if strip completion = "" then .ok (some ⟨0, 0, []⟩)
  else do
    let xText ← contextText tokenizer xMessages completion tools
    match readX (server (scoringRequest model apiBase (xText ++ completion) k)) (tokenizer.encode xText).length with
    | .ok xLogprobs => return some xLogprobs
    | .error _ => return none

def scoreCompletionZ [Sub R] (xLogprobs : XLogprobs R) (zMessages : List Message) (completion : String) (k : ℤ)
    (tools : Option (List Json)) : Except PyError (Option (List R)) :=
  if strip completion = "" ∨ xLogprobs.nCompletion = 0 then .ok (some [])
  else do
    let zText ← contextText tokenizer zMessages completion tools
    let answer := server (scoringRequest model apiBase (zText ++ completion) k)
    match readZ answer (tokenizer.encode zText).length xLogprobs.nCompletion with
    | .ok zTok => return some (tokenDifferences xLogprobs.xTok zTok)
    | .error _ => return none

def scoreCompletion [Sub R] (xMessages zMessages : List Message) (completion : String) (k : ℤ) :
    Except PyError (Option (List R)) :=
  if strip completion = "" then .ok (some [])
  else do
    let xText ← contextText tokenizer xMessages completion none
    let zText ← contextText tokenizer zMessages completion none
    let xAnswer := server (scoringRequest model apiBase (xText ++ completion) k)
    let zAnswer := server (scoringRequest model apiBase (zText ++ completion) k)
    let scored : Except PyError (List R) := do
      let x ← readX xAnswer (tokenizer.encode xText).length
      let zTok ← readZ zAnswer (tokenizer.encode zText).length x.nCompletion
      return tokenDifferences x.xTok zTok
    match scored with
    | .ok differences => return some differences
    | .error _ => return none

def scoreCompletionCached [Sub R] (xMessages zMessages : List Message) (completion : String) (k : ℤ) :
    Except PyError (Option (List R)) := do
  match ← precomputeX server tokenizer model apiBase xMessages completion k none with
  | some xLogprobs => scoreCompletionZ server tokenizer model apiBase xLogprobs zMessages completion k none
  | none => return none

end Scoring

theorem slice_self {α : Type} (xs : List α) (i : ℕ) : slice xs i i = [] := by
  rw [slice_natCast, List.drop_eq_nil_of_le]
  rw [List.length_take]
  omega

theorem tokenDifferences_nil [Sub R] (zTok : List (Option R)) : tokenDifferences [] zTok = [] := by
  simp [tokenDifferences]

section Agreement

variable {server : TextCompletion R} {tokenizer : Tokenizer} {model apiBase : String}

def AnswersZ (server : TextCompletion R) (tokenizer : Tokenizer) (model apiBase : String)
    (zMessages : List Message) (completion : String) (k : ℤ) : Prop :=
  ∃ zText answer logprobs, contextText tokenizer zMessages completion none = .ok zText ∧
    server (scoringRequest model apiBase (zText ++ completion) k) = .ok answer ∧
    answer.tokenLogprobs = some logprobs

def FailsX (server : TextCompletion R) (tokenizer : Tokenizer) (model apiBase : String)
    (xMessages : List Message) (completion : String) (k : ℤ) : Prop :=
  ∃ xText, contextText tokenizer xMessages completion none = .ok xText ∧
    ∀ answer, server (scoringRequest model apiBase (xText ++ completion) k) = .ok answer →
      answer.promptTokens = none ∨ answer.tokenLogprobs = none

theorem readX_error {answer : Except PyError (Completion R)}
    (h : ∀ a, answer = .ok a → a.promptTokens = none ∨ a.tokenLogprobs = none) (nXCtx : ℕ) :
    ∃ e, readX answer nXCtx = .error e := by
  unfold readX
  cases answer with
  | error e => exact ⟨e, rfl⟩
  | ok a =>
    refine ⟨.typeError, ?_⟩
    rw [ok_bind]
    rcases h a rfl with hnone | hnone
    · rw [hnone]
      rfl
    · rw [hnone]
      cases a.promptTokens <;> rfl

theorem readX_nil {answer : Except PyError (Completion R)} {nXCtx : ℕ} {x : XLogprobs R}
    (h : readX answer nXCtx = .ok x) (hzero : x.nCompletion = 0) : x.xTok = [] := by
  obtain ⟨a, -, h⟩ := bind_eq_ok.mp h
  obtain ⟨n, -, h⟩ := bind_eq_ok.mp h
  obtain ⟨logprobs, -, h⟩ := bind_eq_ok.mp h
  cases h
  have hn : n = nXCtx := by
    dsimp only at hzero
    omega
  rw [hn]
  exact slice_self logprobs nXCtx

theorem precomputeX_fails {xMessages : List Message} {completion : String} {k : ℤ}
    (hblank : strip completion ≠ "") (hx : FailsX server tokenizer model apiBase xMessages completion k) :
    precomputeX server tokenizer model apiBase xMessages completion k none = .ok none := by
  obtain ⟨xText, hrender, hfails⟩ := hx
  obtain ⟨e, he⟩ := readX_error hfails (tokenizer.encode xText).length
  unfold precomputeX
  rw [if_neg hblank, hrender, ok_bind, he]
  rfl

theorem scoreCompletion_cached [Sub R] {xMessages zMessages : List Message} {completion : String} {k : ℤ}
    (hz : strip completion ≠ "" → AnswersZ server tokenizer model apiBase zMessages completion k) :
    scoreCompletion server tokenizer model apiBase xMessages zMessages completion k =
      scoreCompletionCached server tokenizer model apiBase xMessages zMessages completion k := by
  unfold scoreCompletion scoreCompletionCached precomputeX
  by_cases hblank : strip completion = ""
  · rw [if_pos hblank, if_pos hblank, ok_bind]
    dsimp only
    rw [scoreCompletionZ, if_pos (.inl hblank)]
  · obtain ⟨zText, zAnswer, logprobs, hrender, hanswer, hlogprobs⟩ := hz hblank
    have hreadZ (nZCtx : ℕ) (n : ℤ) : readZ (.ok zAnswer) nZCtx n = .ok (slice logprobs nZCtx (nZCtx + n)) := by
      unfold readZ
      rw [ok_bind, hlogprobs]
      rfl
    rw [if_neg hblank, if_neg hblank, hrender]
    cases hx : contextText tokenizer xMessages completion none with
    | error e => rfl
    | ok xText =>
      simp only [ok_bind, hanswer, hreadZ]
      cases hread : readX (server (scoringRequest model apiBase (xText ++ completion) k))
        (tokenizer.encode xText).length with
      | error e => rfl
      | ok x =>
        simp only [ok_bind, pure_eq_ok]
        unfold scoreCompletionZ
        by_cases hzero : x.nCompletion = 0
        · rw [if_pos (.inr hzero), readX_nil hread hzero, tokenDifferences_nil]
        · have hnot : ¬ (strip completion = "" ∨ x.nCompletion = 0) := not_or.mpr ⟨hblank, hzero⟩
          rw [if_neg hnot, hrender, ok_bind]
          simp only [hanswer, hreadZ, pure_eq_ok]

theorem scoreCompletion_eq_cached [Sub R] {xMessages zMessages : List Message} {completion : String} {k : ℤ}
    (hz : strip completion ≠ "" → AnswersZ server tokenizer model apiBase zMessages completion k) :
    scoreCompletion server tokenizer model apiBase xMessages zMessages completion k =
        scoreCompletionCached server tokenizer model apiBase xMessages zMessages completion k ∧
      (strip completion = "" →
        scoreCompletion server tokenizer model apiBase xMessages zMessages completion k = .ok (some [])) ∧
      (strip completion ≠ "" → FailsX server tokenizer model apiBase xMessages completion k →
        precomputeX server tokenizer model apiBase xMessages completion k none = .ok none ∧
          scoreCompletion server tokenizer model apiBase xMessages zMessages completion k = .ok none) := by
  refine ⟨scoreCompletion_cached hz, ?_, ?_⟩
  · intro hblank
    rw [scoreCompletion, if_pos hblank]
  · intro hblank hx
    have hnone := precomputeX_fails hblank hx
    refine ⟨hnone, ?_⟩
    rw [scoreCompletion_cached hz, scoreCompletionCached, hnone]
    rfl

end Agreement

def charTokenizer : Tokenizer where
  encode s := s.toList.map Char.toNat
  applyChatTemplate messages _ _ :=
    .ok (join "" (messages.map (fun m =>
      match m.contentOrEmpty with
      | .text s => s
      | _ => "")))

def lengthServer : TextCompletion ℤ := fun request =>
  .ok ⟨some request.prompt.length, some (request.prompt.toList.map (fun _ => some (-(request.prompt.length : ℤ))))⟩

theorem scoreCompletion_eq_cached_ab :
    scoreCompletion lengthServer charTokenizer "m" "b/" [{ role := .user, content := some (.text "xx") }]
      [{ role := .user, content := some (.text "z") }] "ab" 0 = .ok (some [-1, -1]) := by
  have hz : AnswersZ lengthServer charTokenizer "m" "b/" [{ role := .user, content := some (.text "z") }] "ab" 0 :=
    ⟨_, _, _, rfl, rfl, rfl⟩
  exact (scoreCompletion_eq_cached fun _ => hz).1.trans (by rfl)

end TokensThatSuffice
