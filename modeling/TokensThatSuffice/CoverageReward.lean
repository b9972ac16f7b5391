import Mathlib.Tactic.Linarith
import TokensThatSuffice.Lowercase
import TokensThatSuffice.TrajectoryRecords
import TokensThatSuffice.WordGrams

namespace TokensThatSuffice

open Lowercase WordGrams

variable (toLower : String → String)

def lastPart (v : String) : String := String.ofList ((v.toList.splitOnP (· = '/')).getLastD [])

def argumentEntity : Json → Option String
  | .str v => if isIn "/" v || isIn "." v then some (toLower (lastPart v)) else none
  | _ => none

def toolCallEntities (tc : ToolCall) : Except PyError (List String) :=
  match tc.arguments with
  | .object fields => .ok (toLower tc.name :: (fields.map Prod.snd).filterMap (argumentEntity toLower))
  | _ => .error .attributeError

def stepEntities (step : TrajectoryStep) : Except PyError (List String) := do
  let called ← step.toolCalls.mapM (toolCallEntities toLower)
  return (if step.name = "" then [] else [toLower step.name]) ++ called.flatten

def extractEntities (steps : List TrajectoryStep) : Except PyError (List String) := do
  let entities ← steps.mapM (stepEntities toLower)
  return entities.flatten.dedup

def coverageReward (summary : String) (trajectory : AgentTrajectory) : Except PyError ℚ := do
  let steps ← extractEntities toLower trajectory.steps
  let continuation ← extractEntities toLower trajectory.continuation
  let entities := steps ∪ continuation
  if entities.isEmpty then return 1 / 2
  return (entities.countP (fun e => isIn e (toLower summary)) : ℚ) / entities.length

variable {toLower}

theorem coverageReward_mem {summary : String} {trajectory : AgentTrajectory} {reward : ℚ}
    (h : coverageReward toLower summary trajectory = .ok reward) : 0 ≤ reward ∧ reward ≤ 1 := by
  obtain ⟨steps, -, h⟩ := bind_eq_ok.mp h
  obtain ⟨continuation, -, h⟩ := bind_eq_ok.mp h
  dsimp only at h
  split_ifs at h
  · cases h
    norm_num
  · cases h
    refine ⟨div_nonneg (Nat.cast_nonneg _) (Nat.cast_nonneg _), div_le_one_of_le₀ ?_ (Nat.cast_nonneg _)⟩
    exact Nat.cast_le.mpr List.countP_le_length

def argumentMention : Json → Option String
  | .str v => if isIn "/" v || isIn "." v then some (lastPart v) else none
  | _ => none

def toolCallMentions (tc : ToolCall) : List String :=
  match tc.arguments with
  | .object fields => tc.name :: (fields.map Prod.snd).filterMap argumentMention
  | _ => []

def mentions (steps : List TrajectoryStep) : List String :=
  steps.flatMap fun step => (if step.name = "" then [] else [step.name]) ++ step.toolCalls.flatMap toolCallMentions

def HasMappings (steps : List TrajectoryStep) : Prop := ∀ step ∈ steps, ∀ tc ∈ step.toolCalls, tc.arguments.IsMapping

def mentionShare (entities : List String) (text : String) : ℚ :=
  if entities.isEmpty then 1 / 2 else (entities.countP (fun e => isIn e text) : ℚ) / entities.length

section Entities

theorem toolCallEntities_ok {tc : ToolCall} (h : tc.arguments.IsMapping) :
    toolCallEntities toLower tc = .ok ((toolCallMentions tc).map toLower) := by
  obtain ⟨fields, hfields⟩ := h
  have hvalues : ((fields.map Prod.snd).filterMap argumentMention).map toLower =
      (fields.map Prod.snd).filterMap (argumentEntity toLower) := by
    rw [List.map_filterMap]
    congr 1
    funext v
    cases v with
    | str v =>
      simp only [argumentMention, argumentEntity]
      split_ifs <;> rfl
    | _ => rfl
  rw [toolCallEntities, toolCallMentions, hfields]
  dsimp only
  rw [List.map_cons, hvalues]

theorem extractEntities_ok {steps : List TrajectoryStep} (h : HasMappings steps) :
    extractEntities toLower steps = .ok ((mentions steps).map toLower).dedup := by
  have hstep : ∀ step ∈ steps, stepEntities toLower step = .ok (((if step.name = "" then [] else [step.name]) ++
      step.toolCalls.flatMap toolCallMentions).map toLower) := by
    intro step hstep
    rw [stepEntities, mapM_eq_map fun tc htc => toolCallEntities_ok (h step hstep tc htc), ok_bind, pure_eq_ok,
      List.map_append, List.map_flatMap, List.flatMap]
    split_ifs <;> rfl
  rw [extractEntities, mapM_eq_map hstep, ok_bind, pure_eq_ok, mentions, List.map_flatMap, List.flatMap]

theorem hasMappings_of_ok {steps : List TrajectoryStep} {entities : List String}
    (h : extractEntities toLower steps = .ok entities) : HasMappings steps := by
  obtain ⟨blocks, hblocks, -⟩ := bind_eq_ok.mp h
  intro step hstep tc htc
  obtain ⟨called, hcalled⟩ := mapM_ok_iff_forall.mp ⟨blocks, hblocks⟩ step hstep
  obtain ⟨names, hnames, -⟩ := bind_eq_ok.mp hcalled
  obtain ⟨found, hfound⟩ := mapM_ok_iff_forall.mp ⟨names, hnames⟩ tc htc
  unfold toolCallEntities at hfound
  split at hfound
  next fields hfields => exact ⟨fields, hfields⟩
  next => cases hfound

end Entities

section Shares

variable {entities entities' : List String} {s t : String}

theorem isIn_iff_inside : isIn s t = true ↔ s.toList <:+: t.toList := any_tails_isPrefixOf _ _

theorem mentionShare_of_ne_nil (h : entities ≠ []) :
    mentionShare entities s = (entities.countP (fun e => isIn e s) : ℚ) / entities.length := by
  rw [mentionShare, if_neg (by rwa [List.isEmpty_iff])]

theorem mentionShare_perm (h : entities.Perm entities') : mentionShare entities s = mentionShare entities' s := by
  by_cases hne : entities = []
  · have hnil : entities' = [] := (hne ▸ h).nil_eq.symm
    rw [hne, hnil]
  · have hne' : entities' ≠ [] := fun hnil => hne (hnil ▸ h).eq_nil
    rw [mentionShare_of_ne_nil hne, mentionShare_of_ne_nil hne', h.countP_eq, h.length_eq]

theorem mentionShare_mono (h : ∀ e ∈ entities, isIn e s = true → isIn e t = true) :
    mentionShare entities s ≤ mentionShare entities t := by
  by_cases hne : entities = []
  · rw [hne]
    exact le_rfl
  · rw [mentionShare_of_ne_nil hne, mentionShare_of_ne_nil hne]
    apply div_le_div_of_nonneg_right _ (Nat.cast_nonneg _)
    exact Nat.cast_le.mpr (List.countP_mono_left h)

theorem mentionShare_lt {e : String} (he : e ∈ entities) (hs : isIn e s = false) (ht : isIn e t = true)
    (h : ∀ o ∈ entities, isIn o s = true → isIn o t = true) : mentionShare entities s < mentionShare entities t := by
  have hne : entities ≠ [] := List.ne_nil_of_mem he
  have hlength : (0 : ℚ) < entities.length := Nat.cast_pos.mpr (List.length_pos_of_ne_nil hne)
  rw [mentionShare_of_ne_nil hne, mentionShare_of_ne_nil hne]
  apply div_lt_div_of_pos_right _ hlength
  obtain ⟨a, b, rfl⟩ := List.append_of_mem he
  have ha := List.countP_mono_left (l := a) fun o ho => h o (by simp [ho])
  have hb := List.countP_mono_left (l := b) fun o ho => h o (by simp [ho])
  rw [Nat.cast_lt, List.countP_append, List.countP_append, List.countP_cons_of_neg (by simp [hs]),
    List.countP_cons_of_pos (p := fun o => isIn o t) ht]
  omega

theorem mentionShare_empty_iff (hne : entities ≠ []) : mentionShare entities "" = 0 ↔ "" ∉ entities := by
  have hlength : (entities.length : ℚ) ≠ 0 := Nat.cast_ne_zero.mpr (List.length_pos_of_ne_nil hne).ne'
  have hin (e : String) : isIn e "" = true ↔ e = "" := by
    rw [isIn_iff_inside, String.toList_empty, List.infix_nil, String.toList_eq_nil_iff]
  rw [mentionShare_of_ne_nil hne, div_eq_zero_iff, or_iff_left hlength, Nat.cast_eq_zero, List.countP_eq_zero]
  constructor
  · intro h hmem
    exact h "" hmem ((hin "").mpr rfl)
  · intro h e he hempty
    rw [(hin e).mp hempty] at he
    exact h he

end Shares

theorem coverageReward_eq {trajectory : AgentTrajectory}
    (h : HasMappings (trajectory.steps ++ trajectory.continuation))
    (summary : String) : coverageReward toLower summary trajectory =
      .ok (mentionShare ((mentions (trajectory.steps ++ trajectory.continuation)).map toLower).dedup
        (toLower summary)) := by
  have hsteps : HasMappings trajectory.steps := fun step hstep => h step (List.mem_append_left _ hstep)
  have hcontinuation : HasMappings trajectory.continuation := fun step hstep => h step (List.mem_append_right _ hstep)
  have hperm : (((mentions trajectory.steps).map toLower).dedup ∪
      ((mentions trajectory.continuation).map toLower).dedup).Perm
        ((mentions (trajectory.steps ++ trajectory.continuation)).map toLower).dedup := by
    apply (List.perm_ext_iff_of_nodup (List.Nodup.union _ (List.nodup_dedup _)) (List.nodup_dedup _)).mpr
    intro e
    rw [List.mem_union_iff, List.mem_dedup, List.mem_dedup, List.mem_dedup, mentions, mentions, mentions,
      List.flatMap_append, List.map_append, List.mem_append]
  rw [coverageReward, extractEntities_ok hsteps, extractEntities_ok hcontinuation, ok_bind, ok_bind,
    ← mentionShare_perm hperm, mentionShare]
  dsimp only
  split_ifs <;> rfl

section Laws

variable (u : CaseData)

def lowerText (s : String) : String := String.ofList (Lowercase.lower u s.toList)

structure MeasuresMentions (trajectory : AgentTrajectory) : Prop where
  bounded : ∀ summary, ∃ reward, coverageReward (lowerText u) summary trajectory = .ok reward ∧ 0 ≤ reward ∧ reward ≤ 1
  monotone : ∀ summary more reward reward', coverageReward (lowerText u) summary trajectory = .ok reward →
    coverageReward (lowerText u) (summary ++ more) trajectory = .ok reward' → reward ≤ reward'
  undivided : ∀ trajectory' : AgentTrajectory,
    trajectory'.steps ++ trajectory'.continuation = trajectory.steps ++ trajectory.continuation →
    ∀ summary, coverageReward (lowerText u) summary trajectory' = coverageReward (lowerText u) summary trajectory
  silent : mentions (trajectory.steps ++ trajectory.continuation) ≠ [] →
    coverageReward (lowerText u) "" trajectory = .ok 0

structure Lookable (steps : List TrajectoryStep) : Prop where
  mappings : HasMappings steps
  nonempty : "" ∉ mentions steps
  kept : ∀ m ∈ mentions steps, ¬ Losable u (Lowercase.lower u m.toList)

variable {u} (hu : u.Lawful)

include hu

theorem lowerText_eq_empty_iff {s : String} : lowerText u s = "" ↔ s = "" := by
  rw [lowerText, String.ofList_eq_empty_iff, lower_eq_nil_iff hu, String.toList_eq_nil_iff]

section Lookable

variable {steps : List TrajectoryStep}

omit hu in
theorem mem_entities {e : String} :
    e ∈ ((mentions steps).map (lowerText u)).dedup ↔ ∃ m ∈ mentions steps, lowerText u m = e := by
  rw [List.mem_dedup, List.mem_map]

theorem empty_mem_entities : "" ∈ ((mentions steps).map (lowerText u)).dedup ↔ "" ∈ mentions steps := by
  rw [mem_entities]
  constructor
  · rintro ⟨m, hm, hempty⟩
    exact (lowerText_eq_empty_iff hu).mp hempty ▸ hm
  · intro h
    exact ⟨"", h, (lowerText_eq_empty_iff hu).mpr rfl⟩

theorem exists_decrease {m : String} (hm : m ∈ mentions steps) (hlosable : Losable u (Lowercase.lower u m.toList)) :
    ∃ summary more, mentionShare ((mentions steps).map (lowerText u)).dedup (lowerText u (summary ++ more)) <
      mentionShare ((mentions steps).map (lowerText u)).dedup (lowerText u summary) := by
  have hothers : ∀ o ∈ (((mentions steps).map (lowerText u)).dedup).map String.toList, ∀ c ∈ o, Stable u c := by
    intro o ho c hc
    obtain ⟨e, he, rfl⟩ := List.mem_map.mp ho
    obtain ⟨m', -, rfl⟩ := mem_entities.mp he
    rw [lowerText, String.toList_ofList] at hc
    exact stable_lower hu c hc
  obtain ⟨s, t, hfound, hlost, hkept⟩ := exists_loss hu (stable_lower hu) hlosable _ hothers
  have htext (x : List Char) : (lowerText u (String.ofList x)).toList = Lowercase.lower u x := by
    rw [lowerText, String.toList_ofList, String.toList_ofList]
  have happend : lowerText u (String.ofList s ++ String.ofList t) = lowerText u (String.ofList (s ++ t)) := by
    rw [String.ofList_append]
  refine ⟨String.ofList s, String.ofList t, ?_⟩
  rw [happend]
  apply mentionShare_lt (e := lowerText u m) (mem_entities.mpr ⟨m, hm, rfl⟩)
  · rw [← Bool.not_eq_true, isIn_iff_inside, htext, lowerText, String.toList_ofList]
    exact hlost
  · rw [isIn_iff_inside, htext, lowerText, String.toList_ofList]
    exact hfound
  · intro o ho hin
    rw [isIn_iff_inside, htext] at hin ⊢
    exact hkept o.toList (List.mem_map_of_mem ho) fun hinside => hlost (hinside.trans hin)

end Lookable

theorem measuresMentions_iff (trajectory : AgentTrajectory) :
    MeasuresMentions u trajectory ↔ Lookable u (trajectory.steps ++ trajectory.continuation) := by
  have hblank : lowerText u "" = "" := (lowerText_eq_empty_iff hu).mpr rfl
  constructor
  · intro h
    have hmappings : HasMappings (trajectory.steps ++ trajectory.continuation) := by
      obtain ⟨reward, hreward, -⟩ := h.bounded ""
      obtain ⟨steps, hsteps, hreward⟩ := bind_eq_ok.mp hreward
      obtain ⟨continuation, hcontinuation, -⟩ := bind_eq_ok.mp hreward
      intro step hstep
      rcases List.mem_append.mp hstep with hstep | hstep
      · exact hasMappings_of_ok hsteps step hstep
      · exact hasMappings_of_ok hcontinuation step hstep
    refine ⟨hmappings, ?_, ?_⟩
    · intro hmem
      have hsilent := h.silent (List.ne_nil_of_mem hmem)
      have hentity := (empty_mem_entities hu).mpr hmem
      rw [coverageReward_eq hmappings, hblank, Except.ok.injEq,
        mentionShare_empty_iff (List.ne_nil_of_mem hentity)] at hsilent
      exact hsilent hentity
    · intro m hm hlosable
      obtain ⟨summary, more, hlt⟩ := exists_decrease hu hm hlosable
      exact absurd (h.monotone summary more _ _ (coverageReward_eq hmappings _) (coverageReward_eq hmappings _))
        (not_le.mpr hlt)
  · intro h
    constructor
    · intro summary
      exact ⟨_, coverageReward_eq h.mappings summary, coverageReward_mem (coverageReward_eq h.mappings summary)⟩
    · intro summary more reward reward' hreward hreward'
      rw [coverageReward_eq h.mappings, Except.ok.injEq] at hreward hreward'
      rw [← hreward, ← hreward']
      apply mentionShare_mono
      intro e he hin
      obtain ⟨m, hm, rfl⟩ := mem_entities.mp he
      rw [isIn_iff_inside, lowerText, lowerText, String.toList_ofList, String.toList_ofList] at hin ⊢
      rw [String.toList_append]
      exact infix_lower_append hu (h.kept m hm) hin _
    · intro trajectory' hsteps summary
      rw [coverageReward_eq (hsteps ▸ h.mappings), coverageReward_eq h.mappings, hsteps]
    · intro hmentions
      have hentities : ((mentions (trajectory.steps ++ trajectory.continuation)).map (lowerText u)).dedup ≠ [] := by
        rwa [ne_eq, List.dedup_eq_nil, List.map_eq_nil_iff]
      rw [coverageReward_eq h.mappings, hblank, Except.ok.injEq, mentionShare_empty_iff hentities,
        empty_mem_entities hu]
      exact h.nonempty

end Laws

def asciiCases : CaseData where
  lowerChar c := [c.toLower]
  cased c := c.isAlpha || c = 'ς' || c = 'σ' || c = 'Σ'
  ignorable c := [39, 46, 58, 94, 96].contains c.toNat

theorem asciiCases_toLower (c : Char) : c.toLower.toLower = c.toLower ∧ (c ≠ 'Σ' → c.toLower ≠ 'Σ') ∧
    asciiCases.cased c.toLower = asciiCases.cased c ∧ asciiCases.ignorable c.toLower = asciiCases.ignorable c := by
  by_cases h : 65 ≤ c.toNat ∧ c.toNat ≤ 90
  · have hletters : ∀ n < 26, let c := Char.ofNat (65 + n)
        c.toLower.toLower = c.toLower ∧ c.toLower ≠ 'Σ' ∧ asciiCases.cased c.toLower = asciiCases.cased c ∧
          asciiCases.ignorable c.toLower = asciiCases.ignorable c := by decide
    obtain ⟨hlower, hsigma, hcased⟩ := hletters (c.toNat - 65) (by omega)
    rw [Nat.add_sub_cancel' h.1, Char.ofNat_toNat] at hlower hsigma hcased
    exact ⟨hlower, fun _ => hsigma, hcased⟩
  · have hsame : c.toLower = c := by
      unfold Char.toLower
      rw [dif_neg]
      rwa [ge_iff_le, UInt32.le_iff_toNat_le, UInt32.le_iff_toNat_le]
    rw [hsame]
    exact ⟨hsame, id, rfl, rfl⟩

theorem asciiCases_lawful : asciiCases.Lawful where
  stable c hc d hd := by
    obtain rfl := List.mem_singleton.mp hd
    exact ⟨(asciiCases_toLower c).2.1 hc, congrArg (fun d => [d]) (asciiCases_toLower c).1⟩
  nonempty c := List.cons_ne_nil _ _
  scan_lowerChar before c := by
    obtain ⟨-, -, hcased, hignorable⟩ := asciiCases_toLower c
    rw [Lowercase.step, ← hcased, ← hignorable]
    rfl
  ignorable_lowerChar c hc d hd := by
    obtain rfl := List.mem_singleton.mp hd
    rw [(asciiCases_toLower c).2.2.2]
    exact hc
  letters := by
    simp only [List.forall_mem_cons]
    exact ⟨by decide, by decide, by decide, by decide, List.forall_mem_nil _⟩
  stable_letters := by
    simp only [List.forall_mem_cons, Stable]
    exact ⟨by decide, by decide, by decide, List.forall_mem_nil _⟩
  separators := by
    simp only [List.forall_mem_cons, Stable]
    exact ⟨by decide, by decide, List.forall_mem_nil _⟩

def sourceListing : AgentTrajectory where
  task := .text "Look around."
  steps := [{ role := .assistant, content := .text "",
              toolCalls := [{ name := "bash", arguments := .object [("path", .str "src/")] }] }]
  continuation := []
  summary := ""

theorem not_measuresMentions_listing : ¬ MeasuresMentions asciiCases sourceListing := by
  intro h
  have hsilent := h.silent (by decide)
  revert hsilent
  decide +kernel

theorem measuresMentions_iff_listing :
    asciiCases.Lawful ∧ (MeasuresMentions asciiCases sourceListing ↔
      Lookable asciiCases (sourceListing.steps ++ sourceListing.continuation)) :=
  ⟨asciiCases_lawful, measuresMentions_iff asciiCases_lawful sourceListing⟩

end TokensThatSuffice
