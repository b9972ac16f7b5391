import TokensThatSuffice.CopyPenalty
import TokensThatSuffice.StepMessages

namespace TokensThatSuffice

open WordGrams

variable (py : Python) (tokenizer : Tokenizer)

structure Transcript (steps : List TrajectoryStep) (summary : String) : Prop where
  span : ∃ text, formatTrajectoryText py steps = .ok text ∧ split summary <:+: split text
  long : 8 ≤ (split summary).length

inductive Place where
  | tag
  | content (step : ℕ)
  | frame
  deriving DecidableEq, Repr

abbrev PlacedWords := List (Place × List Char)

def contentWords (step : TrajectoryStep) : List (List Char) := split (step.content.orEmpty.toStr py)

def callWords (step : TrajectoryStep) : List (List Char) :=
  if step.role = .assistant then step.toolCalls.flatMap fun tc => split (formatToolCall py tc) else []

def contentPlace (i : ℕ) (step : TrajectoryStep) : Place := if step.role = .system then .frame else .content i

def placedStep (i : ℕ) (step : TrajectoryStep) : PlacedWords :=
  (.tag, "<EVENT".toList) :: (split ("type=" ++ py.repr (.str (stepLabel step)) ++ ">")).map (.frame, ·) ++
    (contentWords py step).map (contentPlace i step, ·) ++ (callWords py step).map (.frame, ·) ++
      [(.tag, "</EVENT>".toList)]

def placedFrom (i : ℕ) : List TrajectoryStep → PlacedWords
  | [] => []
  | step :: rest => placedStep py i step ++ placedFrom (i + 1) rest

structure Occurs (steps : List TrajectoryStep) (summary : String) (span : PlacedWords) : Prop where
  placed : span <:+: placedFrom py 0 steps
  words : span.map Prod.snd = split summary

def CrossesEvent (span : PlacedWords) : Prop := ∃ x ∈ span, x.1 = .tag

def WithinContent (span : PlacedWords) : Prop := ∃ i, ∀ x ∈ span, x.1 = .content i

def xWords (task : Content) (steps : List TrajectoryStep) : List (List Char) :=
  split (task.orEmpty.toStr py) ++ (steps.filter (·.role ≠ .system)).flatMap (contentWords py)

def marksWord (w : List Char) : Bool := hasCopyMarkers (String.ofList w)

def Repeated (task : Content) (steps : List TrajectoryStep) (span : PlacedWords) : Prop :=
  (∃ x ∈ span, x.1 ≠ .tag ∧ marksWord x.2 = true) ∨
    ∀ w, w <:+: span → w.length = 8 → WithinContent w ∨ w.map Prod.snd <:+: xWords py task steps

structure Unrepeated (task : Content) (steps : List TrajectoryStep) : Prop where
  marks : ∀ x ∈ placedFrom py 0 steps, x.1 ≠ .tag → marksWord x.2 = false
  windows : ∀ w, w <:+: placedFrom py 0 steps → w.length = 8 → ¬ CrossesEvent w → ¬ WithinContent w →
    ¬ w.map Prod.snd <:+: xWords py task steps

def Wired (steps : List TrajectoryStep) : Prop :=
  ∀ step ∈ steps, step.role = .assistant → ∀ tc ∈ step.toolCalls,
    tc.arguments.IsMapping ∨ ∃ s v, tc.arguments = .str s ∧ py.loads s = some v

section Rendering

variable {py} {steps : List TrajectoryStep}

theorem contentWords_text {step : TrajectoryStep} {s : String} (h : step.content = .text s) :
    contentWords py step = split s := by
  rw [contentWords, h, Content.orEmpty]
  split_ifs with hs
  · rfl
  · have hempty : s = "" := by simpa [Content.truthy] using hs
    rw [hempty]
    rfl

theorem contentWords_falsy {step : TrajectoryStep} (h : step.content.truthy = false) : contentWords py step = [] := by
  rw [contentWords, Content.orEmpty, h]
  rfl

theorem joinItem_ok {c : Content} {s : String} (h : c.joinItem = .ok s) : c = .text s := by
  cases c with
  | text t =>
    cases h
    rfl
  | _ => cases h

theorem stepParts_words {step : TrajectoryStep} {parts : List String} (h : stepParts py step = .ok parts) :
    parts.flatMap split = contentWords py step ++ callWords py step := by
  rw [stepParts] at h
  by_cases hrole : step.role = .assistant
  · rw [if_pos hrole] at h
    have hcalls : (step.toolCalls.map (formatToolCall py)).flatMap split = callWords py step := by
      rw [callWords, if_pos hrole, List.flatMap_map]
    cases htruthy : step.content.truthy with
    | false =>
      rw [htruthy] at h
      cases h
      rw [contentWords_falsy htruthy, List.nil_append, hcalls]
    | true =>
      rw [htruthy, if_pos rfl] at h
      obtain ⟨s, hs, h⟩ := bind_eq_ok.mp h
      cases h
      rw [List.flatMap_cons, contentWords_text (joinItem_ok hs), hcalls]
  · rw [if_neg hrole] at h
    obtain ⟨s, hs, h⟩ := bind_eq_ok.mp h
    cases h
    rw [List.flatMap_singleton, callWords, if_neg hrole, List.append_nil, contentWords_text (joinItem_ok hs)]

theorem formatStep_words {step : TrajectoryStep} {text : String} (h : formatStep py step = .ok text) (i : ℕ) :
    split text = (placedStep py i step).map Prod.snd := by
  obtain ⟨parts, hparts, h⟩ := bind_eq_ok.mp h
  cases h
  have hopen : "<EVENT type=" = "<EVENT" ++ String.singleton ' ' ++ "type=" := by decide
  have hheader : ">\n" = ">" ++ String.singleton '\n' := by decide
  have hclose : "\n</EVENT>" = String.singleton '\n' ++ "</EVENT>" := by decide
  have htext : "<EVENT type=" ++ py.repr (.str (stepLabel step)) ++ ">\n" ++ join "\n" parts ++ "\n</EVENT>" =
      "<EVENT" ++ String.singleton ' ' ++ ("type=" ++ py.repr (.str (stepLabel step)) ++ ">" ++ String.singleton '\n' ++
        (join "\n" parts ++ String.singleton '\n' ++ "</EVENT>")) := by
    rw [hopen, hheader, hclose]
    simp only [String.append_assoc]
  have hfirst : split "<EVENT" = ["<EVENT".toList] := by decide
  have hlast : split "</EVENT>" = ["</EVENT>".toList] := by decide
  rw [htext, split_append_sep ' ' rfl, split_append_sep '\n' rfl, split_append_sep '\n' rfl, split_join,
    stepParts_words hparts, hfirst, hlast]
  simp [placedStep, Function.comp_def]

theorem split_sections (a b : String) : split (a ++ "\n\n" ++ b) = split a ++ split b := by
  have hblank : a ++ "\n\n" ++ b = a ++ String.singleton '\n' ++ ("" ++ String.singleton '\n' ++ b) := by
    have htwo : "\n\n" = String.singleton '\n' ++ ("" ++ String.singleton '\n') := by decide
    rw [htwo]
    simp only [String.append_assoc]
  rw [hblank, split_append_sep '\n' rfl, split_append_sep '\n' rfl]
  rfl

theorem join_sections {sections : List String} {i : ℕ}
    (h : List.Forall₂ (fun step text => formatStep py step = .ok text) steps sections) :
    split (join "\n\n" sections) = (placedFrom py i steps).map Prod.snd := by
  induction h generalizing i with
  | nil => rfl
  | @cons step text steps sections hstep hrest ih =>
    rw [placedFrom, List.map_append, ← formatStep_words hstep, ← ih]
    cases sections with
    | nil => simp [join, split, words]
    | cons next sections => exact split_sections _ _

theorem formatTrajectoryText_words {text : String} (h : formatTrajectoryText py steps = .ok text) :
    split text = (placedFrom py 0 steps).map Prod.snd := by
  obtain ⟨sections, hsections, h⟩ := bind_eq_ok.mp h
  cases h
  exact join_sections (mapM_eq_ok.mp hsections)

end Rendering

section Messages

variable {py} {steps : List TrajectoryStep} {task systemPrompt : Content} {messages : List Message}

theorem wireArguments_ok_iff {arguments : Json} : (∃ v, wireArguments py arguments = .ok v) ↔
    arguments.IsMapping ∨ ∃ s v, arguments = .str s ∧ py.loads s = some v := by
  cases arguments with
  | object fields => simp [wireArguments, Json.IsMapping]
  | str s =>
    rw [wireArguments]
    cases hloads : py.loads s <;> simp [Json.IsMapping, hloads]
  | _ => simp [wireArguments, Json.IsMapping]

theorem wireCalls_ok_iff (i : ℕ) {calls : List ToolCall} :
    (∃ wired, wireCalls py i calls = .ok wired) ↔ ∀ tc ∈ calls, ∃ v, wireArguments py tc.arguments = .ok v := by
  induction calls generalizing i with
  | nil => simp [wireCalls]
  | cons tc calls ih =>
    rw [List.forall_mem_cons, ← ih (i + 1), wireCalls]
    constructor
    · rintro ⟨wired, h⟩
      obtain ⟨call, hcall, h⟩ := bind_eq_ok.mp h
      obtain ⟨rest, hrest, -⟩ := bind_eq_ok.mp h
      obtain ⟨v, hv, -⟩ := bind_eq_ok.mp hcall
      exact ⟨⟨v, hv⟩, rest, hrest⟩
    · rintro ⟨⟨v, hv⟩, rest, hrest⟩
      rw [wireCall, hv, ok_bind, pure_eq_ok, ok_bind, hrest]
      exact ⟨_, rfl⟩

theorem stepsToMessages_ok_iff :
    (∃ messages, stepsToMessages py steps task systemPrompt = .ok messages) ↔ Wired py steps := by
  have hmap : (∃ messages, stepsToMessages py steps task systemPrompt = .ok messages) ↔
      ∃ rendered, steps.mapM (stepToMessage py) = .ok rendered := by
    constructor
    · rintro ⟨messages, h⟩
      obtain ⟨rendered, hrendered, -⟩ := bind_eq_ok.mp h
      exact ⟨rendered, hrendered⟩
    · rintro ⟨rendered, hrendered⟩
      rw [stepsToMessages, hrendered]
      exact ⟨_, rfl⟩
  rw [hmap, mapM_ok_iff_forall, Wired]
  apply forall₂_congr
  intro step _
  rw [stepToMessage]
  by_cases hrole : step.role = .assistant
  · have hcalls : (∃ m, (do
        let calls ← wireCalls py 0 step.toolCalls
        return ({
          role := .assistant
          content := some step.content
          toolCalls := calls
          reasoningContent := if step.reasoningContent ≠ "" then some step.reasoningContent else none } : Message)) =
          Except.ok m) ↔ ∃ wired, wireCalls py 0 step.toolCalls = .ok wired := by
      constructor
      · rintro ⟨m, h⟩
        obtain ⟨calls, hcalls, -⟩ := bind_eq_ok.mp h
        exact ⟨calls, hcalls⟩
      · rintro ⟨calls, hcalls⟩
        rw [hcalls]
        exact ⟨_, rfl⟩
    rw [if_pos hrole, hcalls, wireCalls_ok_iff]
    simp only [wireArguments_ok_iff, hrole, forall_true_left]
  · rw [if_neg hrole]
    exact ⟨fun _ h => absurd h hrole, fun _ => ⟨_, rfl⟩⟩

theorem contents_words {rendered : List Message}
    (h : List.Forall₂ (fun step m => m.role = step.role ∧ m.content = some step.content) steps rendered) :
    ((rendered.filter (·.role ≠ .system)).map fun m => m.contentOrEmpty.toStr py).flatMap split =
      (steps.filter (·.role ≠ .system)).flatMap (contentWords py) := by
  induction h with
  | nil => rfl
  | @cons step m steps rendered hm hrest ih =>
    rw [List.filter_cons, List.filter_cons, hm.1]
    split_ifs
    · rw [List.map_cons, List.flatMap_cons, List.flatMap_cons, ih, contentWords, Message.contentOrEmpty, hm.2]
      rfl
    · exact ih

theorem messagesText_words (h : stepsToMessages py steps task systemPrompt = .ok messages) :
    split (messagesText py messages) = xWords py task steps := by
  obtain ⟨rendered, hrendered, h⟩ := bind_eq_ok.mp h
  cases h
  have hfields : List.Forall₂ (fun step m => m.role = step.role ∧ m.content = some step.content) steps rendered :=
    (mapM_eq_ok.mp hrendered).imp fun step m hm => ⟨(stepToMessage_fields py hm).1, (stepToMessage_fields py hm).2.1⟩
  rw [messagesText, split_join, xWords, ← contents_words hfields]
  rfl

end Messages

section Places

variable {py} {steps : List TrajectoryStep}

theorem placedStep_filter (i j : ℕ) (step : TrajectoryStep) :
    ((placedStep py i step).filter (·.1 = .content j)).map Prod.snd =
      if contentPlace i step = .content j then contentWords py step else [] := by
  by_cases hplace : contentPlace i step = .content j
  · simp [placedStep, List.filter_map, Function.comp_def, hplace]
  · simp [placedStep, List.filter_map, Function.comp_def, hplace]

theorem le_of_content {i j : ℕ} {x : Place × List Char} (hx : x ∈ placedFrom py i steps) (hplace : x.1 = .content j) :
    i ≤ j := by
  induction steps generalizing i with
  | nil => cases hx
  | cons step steps ih =>
    rw [placedFrom] at hx
    rcases List.mem_append.mp hx with hx | hx
    · have hmem : x.2 ∈ ((placedStep py i step).filter (·.1 = .content j)).map Prod.snd :=
        List.mem_map_of_mem (List.mem_filter.mpr ⟨hx, decide_eq_true hplace⟩)
      rw [placedStep_filter, contentPlace] at hmem
      split_ifs at hmem with hrole hij hij
      · cases hij
      · cases hmem
      · exact (Place.content.inj hij).le
      · cases hmem
    · exact (Nat.le_succ i).trans (ih hx)

theorem tag_marks {i : ℕ} {x : Place × List Char} (hx : x ∈ placedFrom py i steps) (htag : x.1 = .tag) :
    marksWord x.2 = true := by
  induction steps generalizing i with
  | nil => cases hx
  | cons step steps ih =>
    rw [placedFrom] at hx
    rcases List.mem_append.mp hx with hx | hx
    · simp only [placedStep, List.cons_append, List.mem_cons, List.mem_append, List.mem_map, List.not_mem_nil,
        or_false] at hx
      rcases hx with rfl | ((⟨w, -, rfl⟩ | ⟨w, -, rfl⟩) | ⟨w, -, rfl⟩) | rfl
      · decide
      · cases htag
      · rw [contentPlace] at htag
        split_ifs at htag
      · cases htag
      · decide
    · exact ih hx

theorem content_words (i j : ℕ) : ((placedFrom py i steps).filter (·.1 = .content j)).map Prod.snd <:+:
    (steps.filter (·.role ≠ .system)).flatMap (contentWords py) := by
  induction steps generalizing i with
  | nil => exact List.infix_refl _
  | cons step steps ih =>
    rw [placedFrom, List.filter_append, List.map_append, placedStep_filter, List.filter_cons]
    by_cases hrole : step.role = .system
    · have hplace : contentPlace i step = .frame := if_pos hrole
      simp only [hplace, reduceCtorEq, if_false, List.nil_append, hrole, ne_eq, not_true_eq_false, decide_false,
        Bool.false_eq_true]
      exact ih (i + 1)
    · have hplace : contentPlace i step = .content i := if_neg hrole
      rw [hplace, if_pos (decide_eq_true hrole), List.flatMap_cons]
      by_cases hij : i = j
      · have hrest : (placedFrom py (i + 1) steps).filter (·.1 = .content j) = [] := by
          rw [List.filter_eq_nil_iff]
          intro x hx hplace
          have := le_of_content hx (of_decide_eq_true hplace)
          omega
        rw [hrest, if_pos (congrArg Place.content hij), List.map_nil, List.append_nil]
        exact (List.prefix_append _ _).isInfix
      · rw [if_neg fun h => hij (Place.content.inj h), List.nil_append]
        exact (ih (i + 1)).trans (List.suffix_append _ _).isInfix

theorem within_xWords (task : Content) {w : PlacedWords} (hw : w <:+: placedFrom py 0 steps) (h : WithinContent w) :
    w.map Prod.snd <:+: xWords py task steps := by
  obtain ⟨i, hi⟩ := h
  have hself : w.filter (·.1 = .content i) = w := by
    rw [List.filter_eq_self]
    intro x hx
    exact decide_eq_true (hi x hx)
  have hfound := (hw.filter (·.1 = .content i)).map Prod.snd
  rw [hself] at hfound
  exact (hfound.trans (content_words 0 i)).trans (List.suffix_append _ _).isInfix

theorem lower_toList (s : String) : (lower s).toList = s.toList.map Char.toLower := by
  rw [lower, String.toList_ofList]

theorem marker_nonspace : ∀ m ∈ copyMarkers, ∀ c ∈ (lower m).toList, isSpace c = false := by
  have hall : copyMarkers.all (fun m => (lower m).toList.all (!isSpace ·)) = true := by decide
  simpa only [List.all_eq_true, Bool.not_eq_true'] using hall

theorem marker_nonempty : ∀ m ∈ copyMarkers, (lower m).toList ≠ [] := by
  decide

theorem toLower_of_space {c : Char} (h : isSpace c = true) : c.toLower = c := by
  have hletter : ¬ (c.val ≥ 'A'.val ∧ c.val ≤ 'Z'.val) := by
    rintro ⟨hlow, hhigh⟩
    have hlow' : 65 ≤ c.toNat := UInt32.le_iff_toNat_le.mp hlow
    have hhigh' : c.toNat ≤ 90 := UInt32.le_iff_toNat_le.mp hhigh
    simp only [isSpace, List.mem_cons, List.not_mem_nil, or_false, Bool.decide_or, Bool.decide_and, Bool.or_eq_true,
      Bool.and_eq_true, decide_eq_true_eq] at h
    omega
  exact dif_neg hletter

theorem hasCopyMarkers_iff (summary : String) :
    hasCopyMarkers summary = true ↔ ∃ w ∈ split summary, marksWord w = true := by
  have hmarks (s : String) : hasCopyMarkers s = true ↔
      ∃ m ∈ copyMarkers, ∃ l, l <:+: s.toList ∧ (lower m).toList = l.map Char.toLower := by
    simp only [hasCopyMarkers, List.any_eq_true, isIn_iff, lower_toList s, List.infix_map_iff]
  simp only [marksWord, hmarks, String.toList_ofList]
  constructor
  · rintro ⟨m, hm, l, hl, hlower⟩
    have hnone : ∀ c ∈ l, isSpace c = false := by
      intro c hc
      have hmem : c.toLower ∈ (lower m).toList := by
        rw [hlower]
        exact List.mem_map_of_mem hc
      have hspace := marker_nonspace m hm _ hmem
      by_contra htrue
      rw [Bool.not_eq_false] at htrue
      rw [toLower_of_space htrue, htrue] at hspace
      cases hspace
    have hne : l ≠ [] := by
      rintro rfl
      exact marker_nonempty m hm hlower
    obtain ⟨w, hw, hlw⟩ := exists_word_of_infix hne hnone hl
    exact ⟨w, hw, m, hm, l, hlw, hlower⟩
  · rintro ⟨w, hw, m, hm, l, hlw, hlower⟩
    exact ⟨m, hm, l, hlw.trans (infix_of_mem_words hw), hlower⟩

end Places

section Spans

variable {py} {tokenizer} {steps : List TrajectoryStep} {summary : String} {span : PlacedWords}

theorem Transcript.occurs (h : Transcript py steps summary) : ∃ span, Occurs py steps summary span := by
  obtain ⟨text, htext, hspan⟩ := h.span
  rw [formatTrajectoryText_words htext, List.infix_map_iff] at hspan
  obtain ⟨span, hplaced, hwords⟩ := hspan
  exact ⟨span, hplaced, hwords.symm⟩

theorem charged_iff_place (hspan : Occurs py steps summary span) (hlong : 8 ≤ (split summary).length)
    {task systemPrompt : Content} {messages : List Message}
    (hmessages : stepsToMessages py steps task systemPrompt = .ok messages) :
    Charged py tokenizer summary messages ↔ CrossesEvent span ∨ WithinContent span ∨ Repeated py task steps span := by
  have hmem {x : Place × List Char} (hx : x ∈ span) : x ∈ placedFrom py 0 steps := hspan.placed.subset hx
  have hmarks : hasCopyMarkers summary = true ↔ ∃ x ∈ span, marksWord x.2 = true := by
    rw [hasCopyMarkers_iff, ← hspan.words]
    simp only [List.mem_map, exists_exists_and_eq_and]
  have hwindows : (∀ g, g <:+: split summary → g.length = 8 → g <:+: split (messagesText py messages)) ↔
      ∀ w, w <:+: span → w.length = 8 → WithinContent w ∨ w.map Prod.snd <:+: xWords py task steps := by
    rw [messagesText_words hmessages, ← hspan.words]
    constructor
    · intro h w hw hlen
      exact .inr (h _ (hw.map Prod.snd) (by rw [List.length_map, hlen]))
    · intro h g hg hlen
      obtain ⟨w, hw, rfl⟩ := List.infix_map_iff.mp hg
      rw [List.length_map] at hlen
      rcases h w hw hlen with hwithin | hrepeated
      · exact within_xWords task (hw.trans hspan.placed) hwithin
      · exact hrepeated
  rw [charged_iff hlong, hmarks, hwindows]
  constructor
  · rintro (⟨x, hx, hmark⟩ | hall)
    · by_cases htag : x.1 = .tag
      · exact .inl ⟨x, hx, htag⟩
      · exact .inr (.inr (.inl ⟨x, hx, htag, hmark⟩))
    · exact .inr (.inr (.inr hall))
  · rintro (⟨x, hx, htag⟩ | ⟨i, hi⟩ | ⟨x, hx, -, hmark⟩ | hall)
    · exact .inl ⟨x, hx, tag_marks (hmem hx) htag⟩
    · exact .inr fun w hw _ => .inl ⟨i, fun x hx => hi x (hw.subset hx)⟩
    · exact .inl ⟨x, hx, hmark⟩
    · exact .inr hall

theorem within_of_repeated {task : Content} (hsteps : Unrepeated py task steps) (hspan : span <:+: placedFrom py 0 steps)
    (hlong : 8 ≤ span.length) (hcrosses : ¬ CrossesEvent span) (h : Repeated py task steps span) : WithinContent span := by
  rcases h with ⟨x, hx, htag, hmark⟩ | hall
  · rw [hsteps.marks x (hspan.subset hx) htag] at hmark
    cases hmark
  · have hwindows : ∀ w, w <:+: span → w.length = 8 → WithinContent w := by
      intro w hw hlen
      by_contra hnot
      have hrepeated := (hall w hw hlen).resolve_left hnot
      have hinside : ¬ CrossesEvent w := fun ⟨x, hx, htag⟩ => hcrosses ⟨x, hw.subset hx, htag⟩
      exact hsteps.windows w (hw.trans hspan) hlen hinside hnot hrepeated
    obtain ⟨place, hplace⟩ : ∃ place, ∀ x ∈ span, x.1 = place := by
      apply exists_key_of_windows (by omega) hlong
      intro w hw hlen
      obtain ⟨i, hi⟩ := hwindows w hw hlen
      exact ⟨_, hi⟩
    obtain ⟨i, hi⟩ := hwindows (span.take 8) (List.take_prefix 8 span).isInfix
      (by rw [List.length_take]; omega)
    obtain ⟨x, hx⟩ := List.exists_mem_of_length_pos (l := span.take 8) (by rw [List.length_take]; omega)
    refine ⟨i, fun y hy => ?_⟩
    rw [hplace y hy, ← hplace x (List.mem_of_mem_take hx), hi x hx]

variable (py tokenizer steps summary) in
def TranscriptCharged (task systemPrompt : Content) : Prop :=
  ∃ messages, stepsToMessages py steps task systemPrompt = .ok messages ∧ Charged py tokenizer summary messages

theorem transcriptCharged_iff {task systemPrompt : Content} (hspan : Occurs py steps summary span)
    (hlong : 8 ≤ (split summary).length) : TranscriptCharged py tokenizer steps summary task systemPrompt ↔
      Wired py steps ∧ (CrossesEvent span ∨ WithinContent span ∨ Repeated py task steps span) := by
  constructor
  · rintro ⟨messages, hmessages, hcharged⟩
    exact ⟨stepsToMessages_ok_iff.mp ⟨messages, hmessages⟩, (charged_iff_place hspan hlong hmessages).mp hcharged⟩
  · rintro ⟨hwired, hplace⟩
    obtain ⟨messages, hmessages⟩ := stepsToMessages_ok_iff.mpr hwired
    exact ⟨messages, hmessages, (charged_iff_place hspan hlong hmessages).mpr hplace⟩

theorem copyPenalty_transcript (task systemPrompt : Content) (h : Transcript py steps summary) :
    (∃ span, Occurs py steps summary span) ∧ ∀ span, Occurs py steps summary span →
      (TranscriptCharged py tokenizer steps summary task systemPrompt ↔
        Wired py steps ∧ (CrossesEvent span ∨ WithinContent span ∨ Repeated py task steps span)) ∧
      (Unrepeated py task steps → (TranscriptCharged py tokenizer steps summary task systemPrompt ↔
        Wired py steps ∧ (CrossesEvent span ∨ WithinContent span))) := by
  refine ⟨h.occurs, fun span hspan => ⟨transcriptCharged_iff hspan h.long, fun hsteps => ?_⟩⟩
  have hlong : 8 ≤ span.length := by
    have hwords := congrArg List.length hspan.words
    rw [List.length_map] at hwords
    rw [hwords]
    exact h.long
  rw [transcriptCharged_iff hspan h.long]
  apply and_congr_right
  intro _
  constructor
  · rintro (hcrosses | hwithin | hrepeated)
    · exact .inl hcrosses
    · exact .inr hwithin
    · by_cases hcrosses : CrossesEvent span
      · exact .inl hcrosses
      · exact .inr (within_of_repeated hsteps hspan.placed hlong hcrosses hrepeated)
  · rintro (hcrosses | hwithin)
    · exact .inl hcrosses
    · exact .inr (.inl hwithin)

end Spans

def onePairPython : Python where
  loads := asciiPython.loads
  dumps := asciiPython.dumps
  dumpsIndent
    | .object [(key, .str s)] => "\x7b\n  \"" ++ key ++ "\": \"" ++ s ++ "\"\n\x7d"
    | _ => "\x7b\x7d"
  repr := asciiPython.repr
  isWord := asciiPython.isWord

def observationStep : TrajectoryStep := { role := .tool, content := .text "1 2 3 4 5 6 7 8" }

def echoStep : TrajectoryStep where
  role := .assistant
  content := .text ""
  toolCalls := [⟨"bash", .object [("command", .str ("echo " ++ "1 2 3 4 5 6 7 8" ++ " 9"))], "call_0"⟩]

def eightWords : String := "1 2 3 4 5 6 7 8"

theorem split_infix_between {c d : Char} (hc : isSpace c = true) (hd : isSpace d = true) (before s after : String) :
    split s <:+: split (before ++ String.singleton c ++ s ++ String.singleton d ++ after) := by
  rw [split_append_sep d hd, split_append_sep c hc]
  exact ⟨split before, split after, rfl⟩

theorem transcript_observation : Transcript onePairPython [observationStep] eightWords := by
  refine ⟨⟨"<EVENT type='observation'>" ++ String.singleton '\n' ++ eightWords ++
    String.singleton '\n' ++ "</EVENT>", ?_, ?_⟩, ?_⟩
  · decide +kernel
  · exact split_infix_between rfl rfl _ _ _
  · decide +kernel

theorem transcript_echo : Transcript onePairPython [echoStep] eightWords := by
  refine ⟨⟨"<EVENT type='assistant'>\nAction: bash\n\x7b\n  \"command\": \"echo" ++ String.singleton ' ' ++
    eightWords ++ String.singleton ' ' ++ "9\"\n\x7d\n</EVENT>", ?_, ?_⟩, ?_⟩
  · decide +kernel
  · exact split_infix_between rfl rfl _ _ _
  · decide +kernel

theorem occurs_observation : Occurs onePairPython [observationStep] eightWords
    ((split eightWords).map (.content 0, ·)) where
  placed := ⟨[(.tag, "<EVENT".toList), (.frame, "type='observation'>".toList)], [(.tag, "</EVENT>".toList)],
    by decide +kernel⟩
  words := by decide +kernel

theorem occurs_echo : Occurs onePairPython [echoStep] eightWords ((split eightWords).map (.frame, ·)) where
  placed := ⟨[(.tag, "<EVENT".toList)] ++ ["type='assistant'>", "Action:", "bash", "\x7b", "\"command\":",
      "\"echo"].map fun w => (.frame, w.toList),
    [(.frame, "9\"".toList), (.frame, "\x7d".toList), (.tag, "</EVENT>".toList)], by decide +kernel⟩
  words := by decide +kernel

theorem unrepeated_echo : Unrepeated onePairPython (.text "fix it") [echoStep] where
  marks := by decide +kernel
  windows w _ hlen _ _ hrepeated := by
    have hshort : (xWords onePairPython (.text "fix it") [echoStep]).length = 2 := by decide +kernel
    have := hrepeated.length_le
    rw [List.length_map] at this
    omega

theorem copyPenalty_transcript_places :
    TranscriptCharged onePairPython charTokenizer [observationStep] eightWords (.text "fix it") (.text "") ∧
      ¬ TranscriptCharged onePairPython charTokenizer [echoStep] eightWords (.text "fix it") (.text "") := by
  constructor
  · apply ((copyPenalty_transcript _ _ transcript_observation).2 _ occurs_observation).1.mpr
    refine ⟨?_, .inr (.inl ⟨0, ?_⟩)⟩
    · intro step hstep hrole
      rw [List.mem_singleton.mp hstep] at hrole
      cases hrole
    · intro x hx
      obtain ⟨w, -, rfl⟩ := List.mem_map.mp hx
      rfl
  · intro hcharged
    obtain ⟨-, hplace⟩ := (((copyPenalty_transcript _ _ transcript_echo).2 _ occurs_echo).2 unrepeated_echo).mp hcharged
    rcases hplace with ⟨x, hx, htag⟩ | ⟨i, hi⟩
    · obtain ⟨w, -, rfl⟩ := List.mem_map.mp hx
      cases htag
    · have hfirst := hi (.frame, "1".toList) (by decide +kernel)
      cases hfirst

theorem copyPenalty_misses_arguments :
    Transcript onePairPython [echoStep] eightWords ∧
      ¬ TranscriptCharged onePairPython charTokenizer [echoStep] eightWords (.text "fix it") (.text "") := by
  refine ⟨transcript_echo, ?_⟩
  rintro ⟨messages, hmessages, hcharged⟩
  cases hmessages
  apply not_charged _ _ hcharged
  · decide +kernel
  · decide +kernel

end TokensThatSuffice
