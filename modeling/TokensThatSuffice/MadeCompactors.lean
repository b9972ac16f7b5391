import TokensThatSuffice.CliffCompaction
import TokensThatSuffice.Lowercase
import TokensThatSuffice.StickyRouting

namespace TokensThatSuffice

open Lowercase (CaseData)
open Router Runs

inductive SummaryStyle where
  | sectioned
  | unconstrained
  | subtask
  deriving DecidableEq, Repr

structure LitellmSummarizer where
  model : String
  apiBase : String
  apiKey : String
  maxTokens : ℤ
  systemPrompt : SummaryStyle

structure Backends where
  summarize : LitellmSummarizer → List TrajectoryStep → Except String String
  subtasks : LitellmSummarizer → List TrajectoryStep → Except String String
  cliff : Cliff

structure CompactorOptions where
  summarizerModel : Option String := none
  summarizerApiBase : String := ""
  summarizerApiKey : String := ""
  summarizerMaxTokens : ℤ := 512
  summarizerStyle : String := "sectioned"
  maskOutput : Bool := true
  maskThinking : Bool := false
  maskKeepN : ℤ := 10
  maskTaggedKeep : Bool := true
  maskLongOutputChars : ℤ := 5000
  maskDescriptivePlaceholder : Bool := true

variable (dec : Decoder) (u : CaseData) (b : Backends)

def normalized (name default : String) : String :=
  String.ofList (Lowercase.lower u (strip (if name = "" then default else name)).toList)

def getSummaryPrompt (style : String) : Except PyError SummaryStyle :=
  match normalized u style "sectioned" with
  | "sectioned" => .ok .sectioned
  | "unconstrained" => .ok .unconstrained
  | "subtask" => .ok .subtask
  | _ => .error (.valueError ("unknown summary style " ++ dec.repr (.str style) ++
      " (choose from ['sectioned', 'subtask', 'unconstrained'])"))

namespace CompactorOptions

variable (o : CompactorOptions)

def maskOptions : MaskOptions where
  maskOutput := o.maskOutput
  maskThinking := o.maskThinking
  keepN := o.maskKeepN
  taggedKeep := o.maskTaggedKeep
  longOutputChars := o.maskLongOutputChars
  descriptivePlaceholder := o.maskDescriptivePlaceholder

def mask : Except PyError (Option Compact) :=
  if h : o.maskOutput || o.maskThinking then .ok (some (MaskBasedSummarizer.compact dec.toPython ⟨o.maskOptions, h⟩))
  else .error (.valueError "mask_output and mask_thinking are both False: nothing to mask")

def model : Except PyError (Option Compact) :=
  match o.summarizerModel.getD "" with
  | "" => .error (.valueError "compactor='model' requires summarizer_model")
  | name => do
    let prompt ← getSummaryPrompt dec u o.summarizerStyle
    let summarizer := ⟨name, o.summarizerApiBase, o.summarizerApiKey, o.summarizerMaxTokens, prompt⟩
    return some (ModelBasedSummarizer.compact dec.toPython ⟨b.summarize summarizer⟩)

/-- The agent leaves `keep_recent_steps` at its 30. -/
def subtask : Except PyError (Option Compact) :=
  match o.summarizerModel.getD "" with
  | "" => .error (.valueError "compactor='subtask' requires summarizer_model")
  | name =>
    let summarizer := ⟨name, o.summarizerApiBase, o.summarizerApiKey, max o.summarizerMaxTokens 1024, .subtask⟩
    .ok (some (SubtaskModelBasedSummarizer.compact dec ⟨b.subtasks summarizer⟩ 30))

end CompactorOptions

def makeCompactor (name : String) (o : CompactorOptions) : Except PyError (Option Compact) :=
  match normalized u name "mask" with
  | "none" | "off" | "" => .ok none
  | "mask" => o.mask dec
  | "truncation" | "truncate" => .ok (some TruncationBasedSummarizer.compact)
  | "model" | "summary" => o.model dec u b
  | "subtask" | "theme_model" => o.subtask dec b
  | "cliff" | "cliffcompaction" => .ok (some (CliffCompactor.compact b.cliff {}))
  | other => .error (.valueError ("unknown compactor " ++ dec.repr (.str other) ++
      " (mask|truncation|model|theme|cliff|none)"))

def Keeps (k : ℕ) (compact : Compact) : Prop :=
  ∀ (messages : List Message) (keepFirst : ℕ) (keepLastTurns : ℤ) (r : CompactionResult), k ≤ keepFirst →
    keepFirst ≤ messages.length → compact messages keepFirst keepLastTurns = .ok r →
    r.messages.take k = messages.take k

section Keeping

variable {dec u b} {k : ℕ} {compact : Compact}

theorem take_of_take {xs ys : List Message} {n : ℕ} (hk : k ≤ n) (h : xs.take n = ys.take n) :
    xs.take k = ys.take k := by
  rw [← Nat.min_eq_left hk, ← List.take_take, ← List.take_take, h]

theorem keeps_strategy {py : Python} {strategy : Strategy} (h : strategy.Allows py compact) : Keeps k compact := by
  intro messages keepFirst keepLastTurns r hk hlen hr
  exact take_of_take hk ((Strategy.compact_cases h hr).take_keepFirst hlen)

theorem keeps_cliff (cliff : Cliff) (c : CliffCompactor) : Keeps k (c.compact cliff) := by
  intro messages keepFirst keepLastTurns r hk hlen hr
  rcases CliffCompactor.compact_cases hr with hsame | ⟨summary, -, -, -, hcompacted⟩
  · rw [hsame]
  · rw [hcompacted]
    apply take_of_take hk
    rw [List.append_assoc]
    exact List.take_left' (List.length_take_of_le hlen)

theorem keeps_subtask (c : SubtaskModelBasedSummarizer) (keepRecentSteps : ℤ) :
    Keeps 2 (c.compact dec keepRecentSteps) := by
  intro messages keepFirst keepLastTurns r hk hlen hr
  exact compact_opening (.inr ⟨c, keepRecentSteps, rfl⟩) hk hlen hr

theorem mask_allows {o : CompactorOptions} (h : o.mask dec = .ok (some compact)) :
    ∃ strategy : Strategy, strategy.Allows dec.toPython compact := by
  unfold CompactorOptions.mask at h
  split_ifs at h
  cases h
  exact ⟨.mask _, rfl⟩

theorem model_allows {o : CompactorOptions} (h : o.model dec u b = .ok (some compact)) :
    ∃ strategy : Strategy, strategy.Allows dec.toPython compact := by
  unfold CompactorOptions.model at h
  split at h
  · cases h
  · obtain ⟨prompt, -, h⟩ := bind_eq_ok.mp h
    cases h
    exact ⟨.model, _, rfl⟩

theorem subtask_compact {o : CompactorOptions} (h : o.subtask dec b = .ok (some compact)) :
    ∃ c : SubtaskModelBasedSummarizer, compact = c.compact dec 30 := by
  unfold CompactorOptions.subtask at h
  split at h
  · cases h
  · cases h
    exact ⟨_, rfl⟩

inductive Made (dec : Decoder) (b : Backends) (key : String) (compact : Compact) : Prop
  | strategy {strategy : Strategy} (hallows : strategy.Allows dec.toPython compact)
  | cliff (hcliff : compact = CliffCompactor.compact b.cliff {})
  | subtask {c : SubtaskModelBasedSummarizer} (hkey : key ∈ ["subtask", "theme_model"])
      (hsubtask : compact = c.compact dec 30)

theorem makeCompactor_made {name : String} {o : CompactorOptions}
    (h : makeCompactor dec u b name o = .ok (some compact)) : Made dec b (normalized u name "mask") compact := by
  unfold makeCompactor at h
  generalize normalized u name "mask" = key at h ⊢
  have hsubtask (hkey : key ∈ ["subtask", "theme_model"]) (h : o.subtask dec b = .ok (some compact)) :
      Made dec b key compact := by
    obtain ⟨c, hc⟩ := subtask_compact h
    exact .subtask hkey hc
  have hmodel (h : o.model dec u b = .ok (some compact)) : Made dec b key compact := by
    obtain ⟨strategy, hallows⟩ := model_allows h
    exact .strategy hallows
  have htruncation (h : (.ok (some TruncationBasedSummarizer.compact) : Except PyError (Option Compact)) =
      .ok (some compact)) : Made dec b key compact := by
    cases h
    have hallows : Strategy.truncation.Allows dec.toPython TruncationBasedSummarizer.compact := rfl
    exact .strategy hallows
  split at h
  · cases h
  · cases h
  · cases h
  · obtain ⟨strategy, hallows⟩ := mask_allows h
    exact .strategy hallows
  · exact htruncation h
  · exact htruncation h
  · exact hmodel h
  · exact hmodel h
  · exact hsubtask (by simp) h
  · exact hsubtask (by simp) h
  · cases h
    exact .cliff rfl
  · cases h
    exact .cliff rfl
  · cases h

theorem Made.keeps {key : String} (h : Made dec b key compact) :
    Keeps 2 compact ∧ (key ∉ ["subtask", "theme_model"] → ∀ k, Keeps k compact) := by
  cases h with
  | strategy hallows => exact ⟨keeps_strategy hallows, fun _ _ => keeps_strategy hallows⟩
  | cliff hcliff =>
    rw [hcliff]
    exact ⟨keeps_cliff _ _, fun _ _ => keeps_cliff _ _⟩
  | subtask hkey hsubtask =>
    rw [hsubtask]
    exact ⟨keeps_subtask _ _, fun hother => absurd hkey hother⟩

end Keeping

section Runs

variable {py : Python} {cfg : AgentConfig} {compactor : Option Compact} {dec : Decoder} {u : CaseData} {k : ℕ}
  {name : String} {o : CompactorOptions} {s : AgentState} {events : List StepEvent}

/-- The compactor is made once, at the agent's start; as its backends may answer the same call differently from one step
to the next, each step has its own. -/
def MadeStep (dec : Decoder) (u : CaseData) (cfg : AgentConfig) (name : String) (o : CompactorOptions) (s : AgentState)
    (e : StepEvent) (s' : AgentState) : Prop :=
  ∃ b i, makeCompactor dec u b name o = .ok i.compactor ∧ step dec.toPython cfg i s = (s', e)

def MadeKeeps (dec : Decoder) (u : CaseData) (name : String) (o : CompactorOptions) (k : ℕ) : Prop :=
  ∀ b compact, makeCompactor dec u b name o = .ok (some compact) → Keeps k compact

theorem maybeCompress_take (hk : k ≤ cfg.keepFirst) (hkeeps : ∀ compact ∈ compactor, Keeps k compact)
    (save : SaveOutcome) (s : AgentState) :
    (maybeCompress py cfg compactor save s).state.messages.take k = s.messages.take k := by
  cases compactor with
  | none => rfl
  | some compact =>
    rcases maybeCompress_messages py cfg compact save s with hsame | ⟨r, -, -, hr, -, -, -, hlen, heq⟩
    · rw [hsame]
    · rw [heq]
      exact hkeeps compact rfl _ _ _ _ hk (by omega) hr

theorem MadeKeeps.of_made (hkeeps : MadeKeeps dec u name o k) {b : Backends}
    (hmade : makeCompactor dec u b name o = .ok compactor) : ∀ compact ∈ compactor, Keeps k compact := by
  intro compact hcompact
  rw [Option.mem_def.mp hcompact] at hmade
  exact hkeeps b compact hmade

theorem madeRun_take {start : AgentState} (hk : k ≤ cfg.keepFirst) (hkeeps : MadeKeeps dec u name o k)
    (h : Run (MadeStep dec u cfg name o) start s events) :
    s.messages.take k = (recordedLog start.messages events).take k := by
  apply Run.invariant (fun s events => s.messages.take k = (recordedLog start.messages events).take k) _ _ h
  · rw [recordedLog, List.flatMap_nil, List.append_nil]
  · rintro s events e s' hs ⟨b, i, hmade, hstep⟩
    have hmessages := step_messages dec.toPython cfg i s
    rw [hstep] at hmessages
    rw [hmessages, recordedLog_snoc]
    apply CompactedLog.take_append_congr
    rw [maybeCompress_take hk (hkeeps.of_made hmade), hs]

theorem take_sent {start : AgentState} (hk : k ≤ cfg.keepFirst) (hkeeps : MadeKeeps dec u name o k)
    (hstart : k ≤ start.messages.length) (h : Run (MadeStep dec u cfg name o) start s events) :
    ∀ e ∈ events, ∀ sent ∈ e.sent, sent.take k = start.messages.take k := by
  induction h with
  | nil => nofun
  | @snoc s s' events e before last ih =>
    intro e' he' sent hsent
    rcases List.mem_append.mp he' with he' | he'
    · exact ih e' he' sent hsent
    · rw [List.mem_singleton.mp he'] at hsent
      obtain ⟨b, i, hmade, hstep⟩ := last
      have hsame := step_sent dec.toPython cfg i s sent
      rw [hstep] at hsame
      rw [hsame hsent, maybeCompress_take hk (hkeeps.of_made hmade), madeRun_take hk hkeeps before, recordedLog,
        List.take_append_of_le_length hstart]

theorem madeRun_opening (d : Digest) {system user : Message} (hkeep : 2 ≤ cfg.keepFirst)
    (h : Run (MadeStep dec u cfg name o) { messages := [system, user] } s events) :
    s.messages.take 2 = [system, user] ∧
      (∀ e ∈ events, ∀ sent ∈ e.sent, ∀ body, Carries body sent →
        conversationKey d body = .ok (some (openingKey d system user))) ∧
      (normalized u name "mask" ∉ ["subtask", "theme_model"] →
        s.messages.take cfg.keepFirst = (recordedLog [system, user] events).take cfg.keepFirst) := by
  have hopening : MadeKeeps dec u name o 2 := fun b compact hmade => (makeCompactor_made hmade).keeps.1
  refine ⟨?_, ?_, ?_⟩
  · rw [madeRun_take hkeep hopening h]
    rfl
  · intro e he sent hsent body hbody
    apply conversationKey_carries d hbody
    exact take_sent hkeep hopening le_rfl h e he sent hsent
  · intro hkey
    have hhead : MadeKeeps dec u name o cfg.keepFirst := fun b compact hmade => (makeCompactor_made hmade).keeps.2 hkey _
    exact madeRun_take le_rfl hhead h

def fixedBackends : Backends where
  summarize _ _ := .ok "z"
  subtasks _ _ := .ok "[]"
  cliff := fixedCliff

def asciiDecoder : Decoder := ⟨asciiPython, fun _ => ⟨"Expecting value", true⟩⟩

def asciiLetters : CaseData where
  lowerChar c := [c.toLower]
  cased c := c.isAlpha
  ignorable _ := false

theorem normalized_cliff : normalized asciiLetters " Cliff" "mask" = "cliff" := by decide

theorem makeCompactor_cliff : makeCompactor asciiDecoder asciiLetters fixedBackends " Cliff" {} =
    .ok (some (CliffCompactor.compact fixedCliff {})) := by
  rw [makeCompactor, normalized_cliff]
  rfl

theorem madeRun (k : ℕ) : Run (MadeStep asciiDecoder asciiLetters threeTurnConfig " Cliff" {})
    { messages := [systemMessage, userMessage] } (cliffState k) (cliffEvents k) := by
  induction k with
  | zero => exact .nil
  | succ k ih =>
    rw [cliffEvents_succ]
    exact ih.snoc ⟨fixedBackends, cliffInput, makeCompactor_cliff, rfl⟩

theorem madeRun_opening_cliff : (cliffState 4).messages.take 2 = [systemMessage, userMessage] ∧
    conversationKey keyDigest wireBody = .ok (some (openingKey keyDigest systemMessage userMessage)) := by
  obtain ⟨hopening, hkeys, -⟩ := madeRun_opening keyDigest le_rfl (madeRun 4)
  have hfirst : cliffEvent 0 ∈ cliffEvents 4 := List.mem_map_of_mem (List.mem_range.mpr (by decide))
  exact ⟨hopening, hkeys _ hfirst [systemMessage, userMessage] rfl wireBody ⟨_, rfl, .cons rfl (.cons rfl .nil)⟩⟩

end Runs

end TokensThatSuffice
