import TokensThatSuffice.AgentRuns
import TokensThatSuffice.MaskAudit

namespace TokensThatSuffice

open Runs

section Lines

theorem splitLines_oneLine (line : List Char) {s : List Char} (hs : ∀ c ∈ s, isLineBreak c = false)
    (hne : line ≠ [] ∨ s ≠ []) : splitLines line s = [line.reverse ++ s] := by
  induction s generalizing line with
  | nil =>
    cases line with
    | nil => simp at hne
    | cons x line => simp [splitLines]
  | cons c s ih =>
    have hc := hs c (by simp)
    have hrest := ih (c :: line) (fun x hx => hs x (List.mem_cons_of_mem c hx)) (.inl (List.cons_ne_nil c line))
    have hreturn : c ≠ '\r' := by
      rintro rfl
      exact absurd hc (by decide)
    rw [splitLines.eq_4 line c s (fun _ h _ => hreturn h), hc, if_neg Bool.false_ne_true, hrest]
    simp

theorem isDigit_not_lineBreak {c : Char} (hc : c.isDigit = true) : isLineBreak c = false := by
  simp only [Char.isDigit, Bool.and_eq_true, decide_eq_true_eq, ge_iff_le, UInt32.le_iff_toNat_le] at hc
  have hrange : 48 ≤ c.toNat ∧ c.toNat ≤ 57 := hc
  simp only [isLineBreak, List.mem_cons, List.not_mem_nil, or_false, decide_eq_false_iff_not]
  omega

section Around

variable (before after : String)

theorem toList_around (n : ℕ) :
    (before ++ toString n ++ after).toList = before.toList ++ (Nat.toDigits 10 n ++ after.toList) := by
  have hdigits : (toString n).toList = Nat.toDigits 10 n := Nat.toList_repr
  rw [String.toList_append, String.toList_append, hdigits, List.append_assoc]

theorem around_inj {m n : ℕ} (h : before ++ toString m ++ after = before ++ toString n ++ after) : m = n := by
  have hlists := congrArg String.toList h
  rw [toList_around, toList_around] at hlists
  have hdigits := List.append_cancel_right (List.append_cancel_left hlists)
  have hvalue := congrArg (Nat.ofDigitChars 10 · 0) hdigits
  simpa only [Nat.ofDigitChars_ten_toDigits] using hvalue

theorem around_oneLine (hbefore : before.toList.any isLineBreak = false)
    (hafter : after.toList.any isLineBreak = false) (n : ℕ) :
    (splitlines (before ++ toString n ++ after)).length = 1 := by
  have hbreaks : ∀ c ∈ before.toList ++ (Nat.toDigits 10 n ++ after.toList), isLineBreak c = false := by
    intro c hc
    rcases List.mem_append.mp hc with hc | hc
    · exact Bool.eq_false_iff.mpr (List.any_eq_false.mp hbefore c hc)
    · rcases List.mem_append.mp hc with hc | hc
      · exact isDigit_not_lineBreak (Nat.isDigit_of_mem_toDigits (by decide) (by decide) hc)
      · exact Bool.eq_false_iff.mpr (List.any_eq_false.mp hafter c hc)
  have hne : before.toList ++ (Nat.toDigits 10 n ++ after.toList) ≠ [] := by
    intro hnil
    exact Nat.toDigits_ne_nil (List.append_eq_nil_iff.mp (List.append_eq_nil_iff.mp hnil).2).1
  rw [splitlines, toList_around, splitLines_oneLine [] hbreaks (.inr hne)]
  rfl

end Around

theorem descriptivePlaceholder_inj {m n : ℕ} (h : descriptivePlaceholder m = descriptivePlaceholder n) : m = n :=
  around_inj _ _ h

theorem descriptivePlaceholder_oneLine (n : ℕ) : (splitlines (descriptivePlaceholder n)).length = 1 :=
  around_oneLine _ _ rfl rfl n

end Lines

section Truth

variable (py : Python)

def contentLines (m : Message) : ℕ :=
  match m.content.getD (.text "") with
  | .parts ps => (splitlines (Content.joinTexts ps)).length
  | c => (splitlines (c.toStr py)).length

def TellsLines (original shown : Message) : Prop :=
  shown.isTool = true → shown.content = original.content ∨
    shown.content = some (.text (descriptivePlaceholder (contentLines py original)))

def Countable (original shown : Message) : Prop :=
  contentLines py original = 1 ∨ shown.content = original.content ∧ ∀ ps, shown.content ≠ some (.parts ps)

theorem contentLines_congr {m m' : Message} (h : m.content = m'.content) : contentLines py m = contentLines py m' := by
  rw [contentLines, contentLines, h]

theorem contentLines_eq {m : Message} (h : ∀ ps, m.content ≠ some (.parts ps)) :
    contentLines py m = (splitlines ((m.content.getD (.text "")).toStr py)).length := by
  rw [contentLines]
  cases hc : m.content with
  | none => rfl
  | some c =>
    cases c with
    | parts ps => exact absurd hc (h ps)
    | _ => rfl

theorem contentLines_placeholder {m : Message} {n : ℕ} (h : m.content = some (.text (descriptivePlaceholder n))) :
    contentLines py m = 1 := by
  rw [contentLines, h]
  exact descriptivePlaceholder_oneLine n

variable {py} {o : MaskOptions} (hrepr : ∀ xs, (splitlines (py.repr (.array xs))).length = 1)

include hrepr

theorem tellsLines_replaced_iff (hdesc : o.descriptivePlaceholder = true) {original shown : Message}
    (ht : shown.isTool = true) (h : TellsLines py original shown) :
    TellsLines py original (replaced py o shown) ↔ Countable py original shown := by
  have hcontent : (replaced py o shown).content = some (.text (descriptivePlaceholder
      (splitlines ((shown.content.getD (.text "")).toStr py)).length)) := by
    rw [replaced, maskedContent, if_pos hdesc]
  have htool : (replaced py o shown).isTool = true := ht
  rw [TellsLines, hcontent, forall_prop_of_true htool]
  -- a count of 1 is right exactly when the original has one line
  have hone (hlines : (splitlines ((shown.content.getD (.text "")).toStr py)).length = 1) :
      (some (Content.text (descriptivePlaceholder
          (splitlines ((shown.content.getD (.text "")).toStr py)).length)) = original.content ∨
        some (Content.text (descriptivePlaceholder
          (splitlines ((shown.content.getD (.text "")).toStr py)).length)) =
          some (.text (descriptivePlaceholder (contentLines py original)))) ↔ contentLines py original = 1 := by
    rw [hlines]
    constructor
    · rintro (hsame | hsame)
      · exact contentLines_placeholder py hsame.symm
      · exact (descriptivePlaceholder_inj (Content.text.inj (Option.some.inj hsame))).symm
    · intro hc
      rw [hc]
      exact .inr rfl
  by_cases hparts : ∃ ps, shown.content = some (.parts ps)
  · obtain ⟨ps, hps⟩ := hparts
    rw [hone (by rw [hps]; exact hrepr _), Countable]
    constructor
    · exact .inl
    · rintro (hc | ⟨-, hno⟩)
      · exact hc
      · exact absurd hps (hno ps)
  · have hno : ∀ ps, shown.content ≠ some (.parts ps) := fun ps hps => hparts ⟨ps, hps⟩
    rcases h ht with hsame | hmasked
    · rw [← contentLines_eq py hno, contentLines_congr py hsame]
      exact ⟨fun _ => .inr ⟨hsame, hno⟩, fun _ => .inr rfl⟩
    · have hlines : (splitlines ((shown.content.getD (.text "")).toStr py)).length = 1 := by
        rw [hmasked]
        exact descriptivePlaceholder_oneLine _
      rw [hone hlines, Countable]
      constructor
      · exact .inl
      · rintro (hc | ⟨hsame, -⟩)
        · exact hc
        · exact contentLines_placeholder py (hsame.symm.trans hmasked)

theorem tellsLines_applyMarked_iff (hdesc : o.descriptivePlaceholder = true) {original : Message}
    {p : Bool × Message} (h : TellsLines py original p.2) :
    TellsLines py original (applyMarked py o p) ↔ (replacesOutput py o p = true → Countable py original p.2) := by
  rw [applyMarked, replacesOutput]
  cases hd : maskDecision py o p.1 p.2 with
  | output =>
    have ht := (maskDecision_eq_output py o hd).2
    rw [MaskDecision.apply, tellsLines_replaced_iff hrepr hdesc ht h]
    simp
  | thinking =>
    have hsame : TellsLines py original (MaskDecision.thinking.apply py o p.2) := h
    simp [hsame]
  | verbatim =>
    have hsame : TellsLines py original (MaskDecision.verbatim.apply py o p.2) := h
    simp [hsame]

end Truth

section Replacing

variable {α β γ : Type} {R : α → β → Prop}

theorem forall₂_congr_right {S T : α → γ → Prop} {xs : List α} {ys : List γ} {P : α → γ → Prop}
    (hP : List.Forall₂ P xs ys) (h : ∀ x y, P x y → (S x y ↔ T x y)) :
    List.Forall₂ S xs ys ↔ List.Forall₂ T xs ys := by
  constructor
  · exact List.Forall₂.mp (fun x y hp => (h x y hp).mp) hP
  · exact List.Forall₂.mp (fun x y hp => (h x y hp).mpr) hP

theorem forall₂_replace_middle {xs : List α} {before middle middle' after : List β}
    (h : List.Forall₂ R xs (before ++ middle ++ after)) (hlen : middle'.length = middle.length) :
    List.Forall₂ R xs (before ++ middle' ++ after) ↔
      List.Forall₂ R ((xs.drop before.length).take middle.length) middle' := by
  rw [List.append_assoc] at h ⊢
  have hrest := List.forall₂_drop_append xs before _ h
  constructor
  · intro h'
    rw [← hlen]
    exact List.forall₂_take_append _ middle' after (List.forall₂_drop_append xs before _ h')
  · intro hmid
    have hbefore := List.forall₂_take_append xs before _ h
    have hafter := List.forall₂_drop_append _ middle after hrest
    have hall := List.rel_append hbefore (List.rel_append hmid hafter)
    simp only [List.take_append_drop] at hall
    exact hall

end Replacing

section History

structure MaskHistory where
  originals : List Message
  messages : List Message

inductive MaskEvent where
  | appended (ms : List Message)
  | compacted (c : MaskBasedSummarizer) (keepFirst : ℕ) (keepLastTurns : ℤ)

variable (py : Python)

inductive MaskStep : MaskHistory → MaskEvent → MaskHistory → Prop
  | appended {s : MaskHistory} (ms : List Message) :
      MaskStep s (.appended ms) ⟨s.originals ++ ms, s.messages ++ ms⟩
  | compacted {s : MaskHistory} {c : MaskBasedSummarizer} {keepFirst : ℕ} {keepLastTurns : ℤ} {r : CompactionResult}
      (descriptive : c.descriptivePlaceholder = true)
      (returned : c.compact py s.messages keepFirst keepLastTurns = .ok r) :
      MaskStep s (.compacted c keepFirst keepLastTurns) ⟨s.originals, r.messages⟩

def Truthful (s : MaskHistory) : Prop := List.Forall₂ (TellsLines py) s.originals s.messages

def originalsOf (s : MaskHistory) (sp : Split) : List Message :=
  (s.originals.drop sp.head.length).take sp.middle.length

def Clean (s : MaskHistory) : MaskEvent → Prop
  | .appended _ => True
  | .compacted c keepFirst keepLastTurns =>
    List.Forall₂ (fun original p => replacesOutput py c.toMaskOptions p = true → Countable py original p.2)
      (originalsOf s (splitHeadTail s.messages keepFirst keepLastTurns))
      (windowMarks c.toMaskOptions (splitHeadTail s.messages keepFirst keepLastTurns).middle)

def CleanStep (s : MaskHistory) (e : MaskEvent) (s' : MaskHistory) : Prop := MaskStep py s e s' ∧ Clean py s e

variable {py} (hrepr : ∀ xs, (splitlines (py.repr (.array xs))).length = 1)

theorem tellsLines_refl (m : Message) : TellsLines py m m := fun _ => .inl rfl

include hrepr

theorem maskStep_truthful_iff {s s' : MaskHistory} {e : MaskEvent} (h : MaskStep py s e s')
    (htrue : Truthful py s) : Truthful py s' ↔ Clean py s e := by
  cases h with
  | appended ms =>
    have happended : Truthful py ⟨s.originals ++ ms, s.messages ++ ms⟩ :=
      List.rel_append htrue (List.forall₂_same.mpr fun m _ => tellsLines_refl m)
    exact ⟨fun _ => trivial, fun _ => happended⟩
  | @compacted c keepFirst keepLastTurns r hdesc hr =>
    have hwhole := splitHeadTail_append s.messages keepFirst keepLastTurns
    rw [← List.append_assoc] at hwhole
    rw [Truthful, ← hwhole] at htrue
    have hlen : (maskEnvMessages py c.toMaskOptions (splitHeadTail s.messages keepFirst keepLastTurns).middle).length =
        (splitHeadTail s.messages keepFirst keepLastTurns).middle.length :=
      (maskEnvMessages_sameTurn py c.toMaskOptions _).length_eq.symm
    have hmiddle := (forall₂_replace_middle htrue rfl).mp htrue
    rw [Truthful, (MaskBasedSummarizer.compact_ok py hr).1]
    dsimp only
    rw [forall₂_replace_middle htrue hlen, maskEnvMessages_marks, List.forall₂_map_right_iff, Clean, originalsOf]
    have hmarks : List.Forall₂ (TellsLines py) (originalsOf s (splitHeadTail s.messages keepFirst keepLastTurns))
        ((windowMarks c.toMaskOptions (splitHeadTail s.messages keepFirst keepLastTurns).middle).map (·.2)) := by
      rw [windowMarks_messages]
      exact hmiddle
    apply forall₂_congr_right (List.forall₂_map_right_iff.mp hmarks)
    intro original p hp
    exact tellsLines_applyMarked_iff hrepr hdesc hp

theorem maskRun_truthful {start : List Message} {s : MaskHistory} {events : List MaskEvent}
    (h : Run (CleanStep py) ⟨start, start⟩ s events) :
    Truthful py s ∧ ∀ e s', MaskStep py s e s' → (Truthful py s' ↔ Clean py s e) := by
  have htrue : Truthful py s := by
    apply Run.invariant (fun s _ => Truthful py s) ?_ ?_ h
    · exact List.forall₂_same.mpr fun m _ => tellsLines_refl m
    · rintro s events e s' htrue ⟨hstep, hclean⟩
      exact (maskStep_truthful_iff hrepr hstep htrue).mpr hclean
  exact ⟨htrue, fun e s' hstep => maskStep_truthful_iff hrepr hstep htrue⟩

omit hrepr

def MaskingAgentStep (py : Python) (cfg : AgentConfig) (s : AgentState) (e : StepEvent) (s' : AgentState) : Prop :=
  ∃ (i : StepInput) (c : MaskBasedSummarizer), c.descriptivePlaceholder = true ∧
    i.compactor = some (c.compact py) ∧ step py cfg i s = (s', e)

theorem maskingAgentRun_run {cfg : AgentConfig} {start s : AgentState} {events : List StepEvent}
    (h : Run (MaskingAgentStep py cfg) start s events) :
    ∃ maskEvents, Run (MaskStep py) ⟨start.messages, start.messages⟩
      ⟨recordedLog start.messages events, s.messages⟩ maskEvents := by
  apply Run.invariant (fun s events => ∃ maskEvents, Run (MaskStep py) ⟨start.messages, start.messages⟩
    ⟨recordedLog start.messages events, s.messages⟩ maskEvents) ?_ ?_ h
  · refine ⟨[], ?_⟩
    rw [recordedLog, List.flatMap_nil, List.append_nil]
    exact .nil
  · rintro s events e s' ⟨maskEvents, hrun⟩ ⟨i, c, hdesc, hi, hstep⟩
    have hmessages := step_messages py cfg i s
    rw [hstep, hi] at hmessages
    rw [recordedLog_snoc]
    rcases maybeCompress_messages py cfg (c.compact py) i.save s with hsame | ⟨r, -, -, hr, -, -, -, -, heq⟩
    · rw [hsame] at hmessages
      dsimp only at hmessages
      rw [hmessages]
      exact ⟨_, hrun.snoc (.appended e.recorded)⟩
    · rw [heq] at hmessages
      dsimp only at hmessages
      rw [hmessages]
      exact ⟨_, (hrun.snoc (.compacted hdesc hr)).snoc (.appended e.recorded)⟩

def textOutput (s : String) : Message := { role := .tool, content := some (.text s) }

def maskEverything : MaskBasedSummarizer := { keepN := 0, masksSomething := rfl }

def maskAll : MaskEvent := .compacted maskEverything 0 0

def omitted (n : ℕ) : Message := textOutput (descriptivePlaceholder n)

def maskedResult (n : ℕ) : CompactionResult where
  messages := [omitted n]
  kind := .mask
  metadata := maskMetadata maskEverything.toMaskOptions 1 0

def twoLines : MaskHistory := ⟨[textOutput "a\nb"], [textOutput "a\nb"]⟩

def maskedOnce : MaskHistory := ⟨[textOutput "a\nb"], [omitted 2]⟩

def maskedTwice : MaskHistory := ⟨[textOutput "a\nb"], [omitted 1]⟩

theorem maskAll_once : MaskStep asciiPython twoLines maskAll maskedOnce := by
  have hr : maskEverything.compact asciiPython twoLines.messages 0 0 = .ok (maskedResult 2) := by rfl
  exact .compacted rfl hr

theorem maskAll_twice : MaskStep asciiPython maskedOnce maskAll maskedTwice := by
  have hr : maskEverything.compact asciiPython maskedOnce.messages 0 0 = .ok (maskedResult 1) := by rfl
  exact .compacted rfl hr

theorem asciiPython_repr_oneLine (xs : List Json) : (splitlines (asciiPython.repr (.array xs))).length = 1 := by
  have hrepr : asciiPython.repr (.array xs) = "[]" := rfl
  rw [hrepr]
  decide

theorem maskRun_truthful_once : Truthful asciiPython maskedOnce := by
  have hclean : Clean asciiPython twoLines maskAll := by
    apply List.Forall₂.cons _ .nil
    intro _
    refine .inr ⟨rfl, ?_⟩
    intro ps hps
    cases hps
  exact (maskRun_truthful asciiPython_repr_oneLine (.snoc .nil ⟨maskAll_once, hclean⟩)).1

theorem masked_twice_miscounts :
    ¬ ∀ (start : List Message) (s : MaskHistory) (events : List MaskEvent),
      (∀ m ∈ start, m.isTool = true → PlainOutput m) →
        Run (MaskStep asciiPython) ⟨start, start⟩ s events → Truthful asciiPython s := by
  intro h
  have hplain : ∀ m ∈ twoLines.originals, m.isTool = true → PlainOutput m := by
    intro m hm _
    rw [List.mem_singleton.mp hm]
    exact .inl ⟨_, rfl⟩
  have hrun : Run (MaskStep asciiPython) twoLines maskedTwice ([] ++ [maskAll] ++ [maskAll]) :=
    .snoc (.snoc .nil maskAll_once) maskAll_twice
  have htrue := h twoLines.originals maskedTwice _ hplain hrun
  obtain ⟨hfirst, -⟩ := List.forall₂_cons.mp htrue
  rcases hfirst rfl with hsame | hcount
  · have htext := Content.text.inj (Option.some.inj hsame)
    exact absurd htext (by decide)
  · have hlines := descriptivePlaceholder_inj (Content.text.inj (Option.some.inj hcount))
    exact absurd hlines (by decide)

end History

end TokensThatSuffice
