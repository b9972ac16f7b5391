import TokensThatSuffice.Means
import TokensThatSuffice.RewardSweep
import TokensThatSuffice.StoppingLoops

namespace TokensThatSuffice

open Means StoppingLoops

section Rewards

variable {R : Type} (py : Python) (server : TextCompletion R) (tokenizer : Tokenizer) (model apiBase : String)

variable [Field R] [LinearOrder R] (tanh : R → R) (o : RewardOptions R)

def distortionRewardZ (xCtx : XContext R) (summary : String) (partialMessages : List Message) :
    Except PyError (Option R) := do
  let zMessages := buildZScoringMessages summary partialMessages o.maxSize o.keepFirst
  match ← distortionRewardMessages py server tokenizer model apiBase tanh o xCtx zMessages summary with
  | .error _ => return none
  | .scored columns => return some columns.reward

/-- One iteration of the loop of `distortion_reward_z_multi`; `none` is its early return. -/
def depthFidelity (baseZ : List Message) (depth : List Message × XContext R) : Except PyError (Option R) := do
  match ← computeDistortionMessages py server tokenizer model apiBase tanh depth.2 (baseZ ++ depth.1) o.beta
    o.tools with
  | .error _ => return none
  | .scored d => return some (d.base o.beta)

def summaryPenalty (summary : String) (xMessages : List Message) : ℚ :=
  if summary ≠ "" then (copyPenalty py tokenizer summary xMessages o.weights).1 else 0

def distortionRewardZMulti (xCtxs : List (List Message × XContext R)) (summary : String)
    (partialMessages : List Message) : Except PyError (Option R) :=
  match xCtxs with
  | [] => .ok none
  | first :: _ => do
    let baseZ := buildZScoringMessages summary partialMessages o.maxSize o.keepFirst
    match ← allOrNone (depthFidelity py server tokenizer model apiBase tanh o baseZ) xCtxs with
    | none => return none
    | some rKs =>
      let base := rKs.sum / rKs.length
      return some (base - summaryPenalty py tokenizer o summary first.2.xMessages)

end Rewards

section MultiTurn

variable {R : Type} [Field R] [LinearOrder R] (py : Python) (server : TextCompletion R) (tokenizer : Tokenizer)
  (model apiBase : String) (tanh : R → R) (o : RewardOptions R)

def zScores (baseZ : List Message) (depth : List Message × XContext R) : Except PyError (Option (List R)) :=
  scoreCompletionZ server tokenizer model apiBase depth.2.xLogprobs
    (stripReasoning (toTemplateToolCalls py (baseZ ++ depth.1))) depth.2.yText 0 o.tools

def fidelityOf (beta : R) (klPerToken : List R) : R :=
  if 0 < beta then boundedFidelity tanh klPerToken beta else -mean klPerToken

variable {py server tokenizer model apiBase tanh o} {baseZ : List Message} {depth : List Message × XContext R}

theorem depthFidelity_eq_none_iff :
    depthFidelity py server tokenizer model apiBase tanh o baseZ depth = .ok none ↔
      zScores py server tokenizer model apiBase o baseZ depth = .ok none ∨
        zScores py server tokenizer model apiBase o baseZ depth = .ok (some []) := by
  unfold depthFidelity computeDistortionMessages zScores
  dsimp only
  rcases scoreCompletionZ server tokenizer model apiBase depth.2.xLogprobs
    (stripReasoning (toTemplateToolCalls py (baseZ ++ depth.1))) depth.2.yText 0 o.tools with e | _ | kl
  · simp
  · simp
  · cases kl with
    | nil => simp
    | cons d kl =>
      simp only [ok_bind, List.length_cons, Nat.add_one_ne_zero, ↓reduceIte, Except.ok.injEq, reduceCtorEq,
        Option.some.injEq, or_self, iff_false]
      cases tokenizer.applyChatTemplate (stripReasoning (toTemplateToolCalls py (baseZ ++ depth.1))) true o.tools with
      | error e => simp
      | ok rendered => simp

theorem depthFidelity_eq_some {f : R}
    (h : depthFidelity py server tokenizer model apiBase tanh o baseZ depth = .ok (some f)) :
    ∃ kl, zScores py server tokenizer model apiBase o baseZ depth = .ok (some kl) ∧ f = fidelityOf tanh o.beta kl := by
  obtain ⟨result, hresult, h⟩ := bind_eq_ok.mp h
  obtain ⟨scores, hscores, hresult⟩ := bind_eq_ok.mp hresult
  cases scores with
  | none =>
    cases hresult
    cases h
  | some kl =>
    refine ⟨kl, hscores, ?_⟩
    dsimp only at hresult
    by_cases hlength : kl.length = 0
    · rw [if_pos hlength] at hresult
      cases hresult
      cases h
    · rw [if_neg hlength] at hresult
      obtain ⟨rendered, -, hresult⟩ := bind_eq_ok.mp hresult
      cases hresult
      cases h
      unfold Distortion.base fidelityOf
      split_ifs
      · rfl
      · rfl

theorem distortionRewardZMulti_single (xCtx : XContext R) (summary : String) (partialMessages : List Message) :
    distortionRewardZMulti py server tokenizer model apiBase tanh o [([], xCtx)] summary partialMessages =
      distortionRewardZ py server tokenizer model apiBase tanh o xCtx summary partialMessages := by
  unfold distortionRewardZMulti distortionRewardZ distortionRewardMessages
  dsimp only
  rw [allOrNone, depthFidelity, List.append_nil]
  rcases computeDistortionMessages py server tokenizer model apiBase tanh xCtx
    (buildZScoringMessages summary partialMessages o.maxSize o.keepFirst) o.beta o.tools with e | text | d
  · rfl
  · rfl
  · have hmean : [d.base o.beta].sum / (([d.base o.beta].length : ℕ) : R) = d.base o.beta := by simp
    simp only [ok_bind, pure_eq_ok, allOrNone, Except.map, Option.map_some, hmean, summaryPenalty]
    split_ifs
    · rfl
    · rw [Rat.cast_zero]
      rfl

theorem distortionRewardZMulti_ok {first : List Message × XContext R} {rest : List (List Message × XContext R)}
    {summary : String} {partialMessages : List Message}
    (h : ∀ p ∈ first :: rest, ∃ result, computeDistortionMessages py server tokenizer model apiBase tanh p.2
      (buildZScoringMessages summary partialMessages o.maxSize o.keepFirst ++ p.1) o.beta o.tools = .ok result) :
    ∃ reward, distortionRewardZMulti py server tokenizer model apiBase tanh o (first :: rest) summary
      partialMessages = .ok reward := by
  have hdepths : ∀ p ∈ first :: rest, ∃ f, depthFidelity py server tokenizer model apiBase tanh o
      (buildZScoringMessages summary partialMessages o.maxSize o.keepFirst) p = .ok f := by
    intro p hp
    obtain ⟨result, hresult⟩ := h p hp
    rw [depthFidelity, hresult, ok_bind]
    cases result with
    | error text => exact ⟨_, rfl⟩
    | scored d => exact ⟨_, rfl⟩
  obtain ⟨rKs, hrKs⟩ := allOrNone_ok hdepths
  unfold distortionRewardZMulti
  dsimp only
  rw [hrKs, ok_bind]
  cases rKs with
  | none => exact ⟨_, rfl⟩
  | some rKs => exact ⟨_, rfl⟩

structure IsMeanLess (fidelities : List R) (penalty r : R) : Prop where
  mean : r = mean fidelities - penalty
  between : ∃ low ∈ fidelities, ∃ high ∈ fidelities, (∀ f ∈ fidelities, low ≤ f ∧ f ≤ high) ∧
    low - penalty ≤ r ∧ r ≤ high - penalty

variable [IsStrictOrderedRing R]

theorem isMeanLess {fidelities : List R} (h : fidelities ≠ []) (penalty : R) :
    IsMeanLess fidelities penalty (Means.mean fidelities - penalty) where
  mean := rfl
  between := by
    obtain ⟨low, hlow, high, hhigh, hall, hlow_le, hle_high⟩ := mean_between h
    exact ⟨low, hlow, high, hhigh, hall, sub_le_sub_right hlow_le penalty, sub_le_sub_right hle_high penalty⟩

theorem distortionRewardZMulti_cases {first : List Message × XContext R} {rest : List (List Message × XContext R)}
    {summary : String} {partialMessages : List Message} {reward : Option R}
    (h : distortionRewardZMulti py server tokenizer model apiBase tanh o (first :: rest) summary partialMessages =
      .ok reward) :
    (reward = none ↔ ∃ p ∈ first :: rest, depthFidelity py server tokenizer model apiBase tanh o
        (buildZScoringMessages summary partialMessages o.maxSize o.keepFirst) p = .ok none) ∧
      ∀ r ∈ reward, ∃ fidelities, List.Forall₂ (fun p f => depthFidelity py server tokenizer model apiBase tanh o
          (buildZScoringMessages summary partialMessages o.maxSize o.keepFirst) p = .ok (some f))
          (first :: rest) fidelities ∧
        IsMeanLess fidelities (summaryPenalty py tokenizer o summary first.2.xMessages : ℚ) r := by
  obtain ⟨rKs, hrKs, h⟩ := bind_eq_ok.mp h
  have hnone := eq_none_iff_of_allOrNone hrKs
  cases rKs with
  | none =>
    cases h
    exact ⟨iff_of_true rfl (hnone.mp rfl), by simp⟩
  | some rKs =>
    cases h
    refine ⟨iff_of_false (by simp) (hnone.not.mp (by simp)), ?_⟩
    intro r hr
    cases hr
    have hfidelities := allOrNone_eq_some_iff.mp hrKs
    refine ⟨rKs, hfidelities, isMeanLess ?_ _⟩
    rintro rfl
    cases hfidelities

end MultiTurn

theorem distortionRewardZMulti_generalises {R : Type} [Field R] [LinearOrder R] [IsStrictOrderedRing R] (py : Python)
    (server : TextCompletion R) (tokenizer : Tokenizer) (model apiBase : String) (tanh : R → R)
    (o : RewardOptions R) (summary : String) (partialMessages : List Message) :
    let multi := fun xCtxs => distortionRewardZMulti py server tokenizer model apiBase tanh o xCtxs summary
      partialMessages
    let baseZ := buildZScoringMessages summary partialMessages o.maxSize o.keepFirst
    let scores := zScores py server tokenizer model apiBase o baseZ
    (∀ xCtx, multi [([], xCtx)] =
        distortionRewardZ py server tokenizer model apiBase tanh o xCtx summary partialMessages) ∧
      (∀ first rest, (∀ p ∈ first :: rest, ∃ result, computeDistortionMessages py server tokenizer model apiBase tanh
          p.2 (baseZ ++ p.1) o.beta o.tools = .ok result) → ∃ reward, multi (first :: rest) = .ok reward) ∧
      ∀ first rest reward, multi (first :: rest) = .ok reward →
        (reward = none ↔ ∃ p ∈ first :: rest, scores p = .ok none ∨ scores p = .ok (some [])) ∧
          ∀ r ∈ reward, ∃ fidelities,
            List.Forall₂ (fun p f => ∃ kl, scores p = .ok (some kl) ∧ f = fidelityOf tanh o.beta kl)
              (first :: rest) fidelities ∧
            IsMeanLess fidelities (summaryPenalty py tokenizer o summary first.2.xMessages : ℚ) r := by
  intro multi baseZ scores
  refine ⟨fun xCtx => distortionRewardZMulti_single xCtx summary partialMessages,
    fun first rest h => distortionRewardZMulti_ok h, ?_⟩
  intro first rest reward h
  obtain ⟨hnone, hsome⟩ := distortionRewardZMulti_cases h
  refine ⟨?_, ?_⟩
  · rw [hnone]
    simp only [depthFidelity_eq_none_iff]
    rfl
  · intro r hr
    obtain ⟨fidelities, hfidelities, hmean⟩ := hsome r hr
    refine ⟨fidelities, hfidelities.imp ?_, hmean⟩
    intro p f hf
    exact depthFidelity_eq_some hf

def flatServer : TextCompletion ℚ := fun request =>
  .ok ⟨some request.prompt.length, some (request.prompt.toList.map (fun _ => some (-1)))⟩

def abContext : XContext ℚ where
  xMessages := [{ role := .user, content := some (.text "fix") }]
  yText := "ab"
  xLogprobs := ⟨3, 2, [some (-2), some (-1)]⟩

theorem distortionRewardZMulti_ab : distortionRewardZMulti asciiPython flatServer charTokenizer "m" "b" id { beta := 0 }
    [([], abContext), ([{ role := .assistant, content := some (.text "ab") }], abContext)] "s" [] =
      .ok (some (1 / 2)) := by
  decide +kernel

theorem distortionRewardZMulti_generalises_ab :
    distortionRewardZMulti asciiPython flatServer charTokenizer "m" "b" id { beta := 0 } [([], abContext)] "s" [] =
        distortionRewardZ asciiPython flatServer charTokenizer "m" "b" id { beta := 0 } abContext "s" [] ∧
      ∃ fidelities : List ℚ, IsMeanLess fidelities
        (summaryPenalty asciiPython charTokenizer ({ beta := 0 } : RewardOptions ℚ) "s" abContext.xMessages : ℚ)
        (1 / 2) := by
  have h := distortionRewardZMulti_generalises asciiPython flatServer charTokenizer "m" "b" id { beta := 0 } "s" []
  refine ⟨h.1 abContext, ?_⟩
  obtain ⟨fidelities, -, hmean⟩ := (h.2.2 _ _ _ distortionRewardZMulti_ab).2 _ rfl
  rw [Rat.cast_id] at hmean
  exact ⟨fidelities, hmean⟩

end TokensThatSuffice
