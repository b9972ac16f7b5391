import Mathlib.Analysis.Complex.Trigonometric
import Mathlib.Data.List.ReduceOption
import TokensThatSuffice.CompletionScoring

namespace TokensThatSuffice

def templateArguments (py : Python) (tc : WireToolCall) : WireToolCall :=
  match tc.arguments with
  | some (.str s) => { tc with arguments := some ((py.loads s).getD (.object [])) }
  | _ => tc

def toTemplateToolCalls (py : Python) (messages : List Message) : List Message :=
  messages.map (fun m => { m with toolCalls := m.toolCalls.map (templateArguments py) })

def stripReasoning (messages : List Message) : List Message :=
  messages.map (fun m => { m with reasoningContent := none })

structure Generation where
  text : String
  tokenIds : List ℕ
  recordedNTokens : Option ℕ
  deriving Repr

structure XContext (R : Type) where
  xMessages : List Message
  yText : String
  xLogprobs : XLogprobs R
  generation : Option Generation := none

structure Distortion (R : Type) where
  fidelity : R
  distortion : R
  nTokens : ℕ
  nXMessages : ℕ
  nZMessages : ℕ
  nZCtxTokens : ℕ
  fidelityBounded : Option R

inductive DistortionResult (R : Type) where
  | error (text : String)
  | scored (d : Distortion R)

def reconstructGeneration (py : Python) (tokenizer : Tokenizer) (context : List Message) (assistant : Message)
    (tools : Option (List Json)) : Except PyError Generation := do
  let ctx := toTemplateToolCalls py context
  let act := toTemplateToolCalls py [assistant]
  let kw := if tools.any (!·.isEmpty) then tools else none
  let full ← tokenizer.applyChatTemplate (ctx ++ act) false kw
  let prompt ← tokenizer.applyChatTemplate ctx true kw
  if startsWith full prompt then
    let text := rstrip (· = '\n') (String.ofList (full.toList.drop prompt.length))
    return {
      text := text
      tokenIds := tokenizer.encode text
      recordedNTokens := assistant.usage.bind (·.completionTokens) }
  else
    .error (.valueError ("generation prompt is not a prefix of the full render; " ++
      "context and assistant message may not be adjacent turns"))

def buildXScoringMessages (partialMessages : List Message) : List Message := stripReasoning partialMessages

section Rewards

variable {R : Type} (py : Python) (server : TextCompletion R) (tokenizer : Tokenizer) (model apiBase : String)

def precomputeXContext (partialMessages : List Message) (nextAction : Message) (k : ℤ)
    (tools : Option (List Json)) : Except PyError (Option (XContext R)) := do
  let xMessages := toTemplateToolCalls py (buildXScoringMessages partialMessages)
  let gen ← reconstructGeneration py tokenizer xMessages nextAction tools
  match ← precomputeX server tokenizer model apiBase xMessages gen.text k tools with
  | none => return none
  | some xLogprobs =>
    return some { xMessages := xMessages, yText := gen.text, xLogprobs := xLogprobs, generation := some gen }

variable [Field R] [LinearOrder R] (tanh : R → R)

def boundedFidelity (klPerToken : List R) (beta : R) : R :=
  if klPerToken.length = 0 then 0
  else (klPerToken.map (fun d => tanh (-d / beta))).sum / klPerToken.length

def computeDistortionMessages (xCtx : XContext R) (zMessages : List Message) (beta : R)
    (tools : Option (List Json)) : Except PyError (DistortionResult R) := do
  let zMessages := stripReasoning (toTemplateToolCalls py zMessages)
  match ← scoreCompletionZ server tokenizer model apiBase xCtx.xLogprobs zMessages xCtx.yText 0 tools with
  | none => return .error "score_completion_z failed"
  | some klPerToken =>
    if klPerToken.length = 0 then return .error "No completion tokens scored"
    else
      let distortion := klPerToken.sum / klPerToken.length
      let rendered ← tokenizer.applyChatTemplate zMessages true tools
      return .scored {
        fidelity := -distortion
        distortion := distortion
        nTokens := klPerToken.length
        nXMessages := xCtx.xMessages.length
        nZMessages := zMessages.length
        nZCtxTokens := (tokenizer.encode rendered).length
        fidelityBounded := if 0 < beta then some (boundedFidelity tanh klPerToken beta) else none }

end Rewards

theorem stripReasoning_toTemplateToolCalls (py : Python) (messages : List Message) :
    stripReasoning (toTemplateToolCalls py messages) = toTemplateToolCalls py (stripReasoning messages) := by
  unfold stripReasoning toTemplateToolCalls
  rw [List.map_map, List.map_map]
  rfl

def promptServer {R : Type} (answer : String → Except PyError (Completion R)) : TextCompletion R :=
  fun request => answer request.prompt

section SelfScoring

variable {R : Type}

theorem tokenDifferences_self [Field R] (xs : List (Option R)) :
    tokenDifferences xs xs = List.replicate xs.reduceOption.length 0 := by
  induction xs with
  | nil => rfl
  | cons x xs ih =>
    rw [tokenDifferences, List.zip_cons_cons, List.filterMap_cons]
    cases x with
    | none => exact ih
    | some v =>
      rw [List.reduceOption_cons_of_some, List.length_cons, List.replicate_succ, ← ih]
      simp only [sub_self]
      rfl

theorem readZ_of_readX {answer : Except PyError (Completion R)} {nCtx : ℕ} {x : XLogprobs R}
    (h : readX answer nCtx = .ok x) : readZ answer nCtx x.nCompletion = .ok x.xTok := by
  obtain ⟨a, ha, h⟩ := bind_eq_ok.mp h
  obtain ⟨n, -, h⟩ := bind_eq_ok.mp h
  obtain ⟨logprobs, hlogprobs, h⟩ := bind_eq_ok.mp h
  cases h
  unfold readZ
  dsimp only
  rw [ha, ok_bind, hlogprobs, ok_bind, add_sub_cancel]
  rfl

theorem precomputeXContext_ok {py : Python} {server : TextCompletion R} {tokenizer : Tokenizer}
    {model apiBase : String} {messages : List Message} {action : Message} {k : ℤ} {tools : Option (List Json)}
    {ctx : XContext R}
    (h : precomputeXContext py server tokenizer model apiBase messages action k tools = .ok (some ctx)) :
    ctx.xMessages = toTemplateToolCalls py (stripReasoning messages) ∧
      precomputeX server tokenizer model apiBase ctx.xMessages ctx.yText k tools = .ok (some ctx.xLogprobs) := by
  obtain ⟨gen, -, h⟩ := bind_eq_ok.mp h
  obtain ⟨cached, hcached, h⟩ := bind_eq_ok.mp h
  cases cached with
  | none => cases h
  | some xLogprobs =>
    cases h
    exact ⟨rfl, hcached⟩

theorem precomputeX_skipped {server : TextCompletion R} {tokenizer : Tokenizer} {model apiBase : String}
    {messages : List Message} {completion : String} {k : ℤ} {tools : Option (List Json)} {x : XLogprobs R}
    (h : precomputeX server tokenizer model apiBase messages completion k tools = .ok (some x))
    (hskip : strip completion = "" ∨ x.nCompletion = 0) : x.xTok = [] := by
  rw [precomputeX] at h
  by_cases hblank : strip completion = ""
  · rw [if_pos hblank] at h
    cases h
    rfl
  · rw [if_neg hblank] at h
    obtain ⟨xText, -, h⟩ := bind_eq_ok.mp h
    split at h
    next x' hread =>
      cases h
      exact readX_nil hread (hskip.resolve_left hblank)
    next => cases h

theorem scoreCompletionZ_self [Field R] {answer : String → Except PyError (Completion R)} {tokenizer : Tokenizer}
    {model apiBase : String} (model' apiBase' : String) {messages : List Message} {completion : String} {k : ℤ} (k' : ℤ)
    {tools : Option (List Json)} {x : XLogprobs R}
    (h : precomputeX (promptServer answer) tokenizer model apiBase messages completion k tools = .ok (some x)) :
    scoreCompletionZ (promptServer answer) tokenizer model' apiBase' x messages completion k' tools =
        .ok (some (List.replicate x.xTok.reduceOption.length 0)) ∧
      (x.xTok ≠ [] → ∃ rendered, tokenizer.applyChatTemplate messages true tools = .ok rendered) := by
  by_cases hskip : strip completion = "" ∨ x.nCompletion = 0
  · have hnone := precomputeX_skipped h hskip
    rw [scoreCompletionZ, if_pos hskip, hnone]
    exact ⟨rfl, fun hne => absurd rfl hne⟩
  · rw [scoreCompletionZ, if_neg hskip]
    rw [precomputeX, if_neg (not_or.mp hskip).1] at h
    obtain ⟨xText, hrender, h⟩ := bind_eq_ok.mp h
    rw [hrender, ok_bind]
    cases hread : readX (promptServer answer (scoringRequest model apiBase (xText ++ completion) k))
      (tokenizer.encode xText).length with
    | error e =>
      rw [hread] at h
      cases h
    | ok x' =>
      rw [hread] at h
      cases h
      have hz : readZ (promptServer answer (scoringRequest model' apiBase' (xText ++ completion) k'))
          (tokenizer.encode xText).length x.nCompletion = .ok x.xTok := readZ_of_readX hread
      dsimp only
      rw [hz]
      refine ⟨congrArg (Except.ok ∘ some) (tokenDifferences_self x.xTok), fun _ => ?_⟩
      obtain ⟨rendered, hrendered, -⟩ := bind_eq_ok.mp hrender
      exact ⟨rendered, hrendered⟩

theorem boundedFidelity_zeros [Field R] [LinearOrder R] {tanh : R → R} (htanh : tanh 0 = 0) {ds : List R}
    (h : ∀ d ∈ ds, d = 0) (beta : R) : boundedFidelity tanh ds beta = 0 := by
  unfold boundedFidelity
  split_ifs
  · rfl
  · have hsum : (ds.map (fun d => tanh (-d / beta))).sum = 0 := by
      apply List.sum_eq_zero
      intro y hy
      obtain ⟨d, hd, rfl⟩ := List.mem_map.mp hy
      rw [h d hd, neg_zero, zero_div, htanh]
    rw [hsum, zero_div]

theorem computeDistortionMessages_same [Field R] [LinearOrder R] {py : Python}
    {answer : String → Except PyError (Completion R)} {tokenizer : Tokenizer} {model apiBase : String}
    {messages : List Message} {action : Message} {k : ℤ} {tools : Option (List Json)} {ctx : XContext R} {tanh : R → R}
    (htanh : tanh 0 = 0) (beta : R)
    (h : precomputeXContext py (promptServer answer) tokenizer model apiBase messages action k tools = .ok (some ctx)) :
    ∃ differences result,
      scoreCompletionZ (promptServer answer) tokenizer model apiBase ctx.xLogprobs
          (stripReasoning (toTemplateToolCalls py messages)) ctx.yText 0 tools = .ok (some differences) ∧
      differences.length = ctx.xLogprobs.xTok.reduceOption.length ∧
      computeDistortionMessages py (promptServer answer) tokenizer model apiBase tanh ctx messages beta tools =
        .ok result ∧
      (differences = [] → result = .error "No completion tokens scored") ∧
      (differences ≠ [] → ∃ d, result = .scored d ∧ d.distortion = 0 ∧ d.fidelity = 0 ∧
        d.fidelityBounded = (if 0 < beta then some 0 else none) ∧ d.nTokens = differences.length) := by
  obtain ⟨hmessages, hx⟩ := precomputeXContext_ok h
  obtain ⟨hz, hrender⟩ := scoreCompletionZ_self model apiBase 0 hx
  have hcontext : stripReasoning (toTemplateToolCalls py messages) = ctx.xMessages := by
    rw [hmessages, stripReasoning_toTemplateToolCalls]
  rw [hcontext]
  unfold computeDistortionMessages
  dsimp only
  rw [hcontext, hz, ok_bind]
  dsimp only
  refine ⟨List.replicate ctx.xLogprobs.xTok.reduceOption.length 0, ?_⟩
  rw [List.length_replicate]
  by_cases hlen : ctx.xLogprobs.xTok.reduceOption.length = 0
  · rw [if_pos hlen, hlen]
    exact ⟨_, rfl, rfl, rfl, fun _ => rfl, fun hne => absurd rfl hne⟩
  · have htokens : ctx.xLogprobs.xTok ≠ [] := by
      intro hnil
      rw [hnil] at hlen
      exact hlen rfl
    obtain ⟨rendered, hrendered⟩ := hrender htokens
    have hzero : ∀ d ∈ List.replicate ctx.xLogprobs.xTok.reduceOption.length (0 : R), d = 0 :=
      fun d hd => List.eq_of_mem_replicate hd
    have hsum := List.sum_eq_zero hzero
    rw [if_neg hlen, hrendered, ok_bind]
    refine ⟨_, rfl, rfl, rfl, ?_, fun _ => ⟨_, rfl, ?_, ?_, ?_, rfl⟩⟩
    · intro hnil
      rw [List.replicate_eq_nil_iff] at hnil
      exact absurd hnil hlen
    · rw [hsum, zero_div]
    · rw [hsum, zero_div, neg_zero]
    · rw [boundedFidelity_zeros htanh hzero]

end SelfScoring

structure Distortion.IsZero (d : Distortion ℝ) (beta : ℝ) : Prop where
  distortion : d.distortion = 0
  fidelity : d.fidelity = 0
  bounded : 0 < beta → d.fidelityBounded = some 0

theorem computeDistortionMessages_self (py : Python) (answer : String → Except PyError (Completion ℝ))
    (tokenizer : Tokenizer) (model apiBase : String) (partialMessages history : List Message) (action : Message)
    (k : ℤ) (tools : Option (List Json)) (beta : ℝ) {ctx : XContext ℝ}
    (h : precomputeXContext py (promptServer answer) tokenizer model apiBase (partialMessages ++ history) action k
      tools = .ok (some ctx)) :
    ∃ differences result,
      scoreCompletionZ (promptServer answer) tokenizer model apiBase ctx.xLogprobs
          (stripReasoning (toTemplateToolCalls py (partialMessages ++ history))) ctx.yText 0 tools =
        .ok (some differences) ∧
      differences.length = ctx.xLogprobs.xTok.reduceOption.length ∧
      computeDistortionMessages py (promptServer answer) tokenizer model apiBase Real.tanh ctx
        (partialMessages ++ history) beta tools = .ok result ∧
      (differences = [] → result = .error "No completion tokens scored") ∧
      (differences ≠ [] → ∃ d, result = .scored d ∧ d.IsZero beta ∧ d.nTokens = differences.length) := by
  obtain ⟨differences, result, hz, hlength, hresult, hnone, hscored⟩ :=
    computeDistortionMessages_same Real.tanh_zero beta h
  refine ⟨differences, result, hz, hlength, hresult, hnone, ?_⟩
  intro hne
  obtain ⟨d, hd, hdistortion, hfidelity, hbounded, htokens⟩ := hscored hne
  refine ⟨d, hd, ⟨hdistortion, hfidelity, ?_⟩, htokens⟩
  intro hbeta
  rw [hbounded, if_pos hbeta]

noncomputable def constantAnswer (prompt : String) : Except PyError (Completion ℝ) :=
  .ok ⟨some prompt.length, some (prompt.toList.map (fun _ => some (-1)))⟩

theorem computeDistortionMessages_self_ab :
    ∃ ctx, precomputeXContext asciiPython (promptServer constantAnswer) charTokenizer "m" "b"
        [{ role := .user, content := some (.text "x") }] { role := .assistant, content := some (.text "ab") } 0 none =
          .ok (some ctx) ∧
      ∃ d, computeDistortionMessages asciiPython (promptServer constantAnswer) charTokenizer "m" "b" Real.tanh ctx
          [{ role := .user, content := some (.text "x") }] 1 none = .ok (.scored d) ∧ d.IsZero 1 ∧ d.nTokens = 2 := by
  refine ⟨_, rfl, ?_⟩
  obtain ⟨differences, result, -, hlength, hresult, -, hscored⟩ := computeDistortionMessages_self asciiPython
    constantAnswer charTokenizer "m" "b" [{ role := .user, content := some (.text "x") }] []
    { role := .assistant, content := some (.text "ab") } 0 none 1 rfl
  have htwo : differences.length = 2 := hlength
  have hne : differences ≠ [] := by
    rintro rfl
    cases htwo
  obtain ⟨d, rfl, hzero, htokens⟩ := hscored hne
  exact ⟨d, hresult, hzero, htokens.trans htwo⟩

end TokensThatSuffice
