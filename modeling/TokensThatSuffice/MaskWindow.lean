import TokensThatSuffice.Masking

namespace TokensThatSuffice

variable (py : Python) (o : MaskOptions)

def TaggedShort (m : Message) : Prop :=
  (o.taggedKeep && shouldKeepToolOutput py (m.content.getD (.text ""))) = true ∧
    (o.longOutputChars = 0 ∨ ((m.content.getD (.text "")).toStr py).length ≤ o.longOutputChars)

instance (m : Message) : Decidable (TaggedShort py o m) := inferInstanceAs (Decidable (_ ∧ _))

def replaced (m : Message) : Message := { m with content := some (.text (maskedContent py o m)) }

def InWindow (messages : List Message) (i : ℕ) : Prop :=
  toolCount (messages.drop (i + 1)) < min o.keepN (toolCount messages)

instance (messages : List Message) (i : ℕ) : Decidable (InWindow o messages i) :=
  inferInstanceAs (Decidable (_ < _))

def windowedOutput (messages : List Message) (i : ℕ) (m : Message) : Message :=
  if o.maskOutput = true ∧ ¬ InWindow o messages i ∧ ¬ TaggedShort py o m then replaced py o m else m

def RecencyWindow (messages : List Message) : Prop :=
  ∀ i m, messages[i]? = some m → m.isTool = true →
    (maskEnvMessages py o messages)[i]? = some (windowedOutput py o messages i m)

def WindowKept (messages : List Message) : Prop :=
  o.maskOutput = true → toolCount messages < o.keepN → ∀ i m, messages[i]? = some m → m.isTool = true →
    toolCount (messages.take i) + o.keepN < 2 * toolCount messages →
      TaggedShort py o m ∨ m.content = some (.text (maskedContent py o m))

theorem mem_drop_split {α : Type} {xs ys : List α} {a : α} (hx : a ∉ xs) (hy : a ∉ ys) (k : ℕ) :
    a ∈ (xs ++ a :: ys).drop k ↔ k ≤ xs.length := by
  rw [List.drop_append]
  rcases Nat.lt_or_ge xs.length k with h | h
  · have hpos : k - xs.length = (k - xs.length - 1) + 1 := by omega
    rw [hpos, List.drop_succ_cons, List.mem_append]
    constructor
    · rintro (hmem | hmem)
      · exact absurd (List.mem_of_mem_drop hmem) hx
      · exact absurd (List.mem_of_mem_drop hmem) hy
    · intro hle
      omega
  · rw [Nat.sub_eq_zero_of_le h, List.drop_zero]
    simp [h]

theorem toolCount_take (messages : List Message) {i : ℕ} (hi : i ≤ messages.length) :
    ((List.range i).filter (toolAt messages)).length = toolCount (messages.take i) := by
  induction i with
  | zero => rfl
  | succ i ih =>
    have hlt : i < messages.length := hi
    rw [List.range_succ, List.filter_append, List.length_append, ih hlt.le, List.take_add_one,
      toolCount_append, List.getElem?_eq_getElem hlt, Option.toList_some]
    simp only [List.filter_cons, List.filter_nil, toolAt_eq hlt, toolCount_cons, toolCount_nil]
    split_ifs <;> rfl

theorem length_toolIndices (messages : List Message) : (toolIndices messages).length = toolCount messages := by
  rw [toolIndices, toolCount_take messages le_rfl, List.take_length]

theorem mem_drop_toolIndices {messages : List Message} {i : ℕ} (hi : i < messages.length)
    (ht : messages[i].isTool = true) (k : ℕ) :
    i ∈ (toolIndices messages).drop k ↔ k ≤ toolCount (messages.take i) := by
  have hsplit : List.range messages.length =
      List.range i ++ i :: (List.range (messages.length - (i + 1))).map (i + 1 + ·) := by
    have hlen : messages.length = i + 1 + (messages.length - (i + 1)) := by omega
    conv_lhs => rw [hlen, List.range_add, List.range_succ]
    simp
  have hhere : toolAt messages i = true := by rw [toolAt_eq hi, ht]
  rw [toolIndices, hsplit, List.filter_append, List.filter_cons_of_pos hhere]
  rw [mem_drop_split, toolCount_take messages hi.le]
  · simp
  · intro hmem
    obtain ⟨x, -, hx⟩ := List.mem_map.mp (List.mem_filter.mp hmem).1
    omega

theorem toolCount_around {messages : List Message} {i : ℕ} (hi : i < messages.length)
    (ht : messages[i].isTool = true) :
    toolCount messages = toolCount (messages.take i) + 1 + toolCount (messages.drop (i + 1)) := by
  have hsplit : messages = messages.take i ++ messages[i] :: messages.drop (i + 1) := by
    rw [← List.drop_eq_getElem_cons hi, List.take_append_drop]
  conv_lhs => rw [hsplit]
  rw [toolCount_append, toolCount_cons, if_pos ht]
  omega

theorem maskEnvFrom_getElem? (recent : List ℕ) (j i : ℕ) (messages : List Message) :
    (maskEnvFrom py o recent j messages)[i]? =
      messages[i]?.map (maskMessage py o (recent.contains (j + i))) := by
  induction messages generalizing j i with
  | nil => rfl
  | cons m rest ih =>
    cases i with
    | zero => rfl
    | succ i =>
      have hindex : j + 1 + i = j + (i + 1) := by omega
      simp only [maskEnvFrom, List.getElem?_cons_succ, ih, hindex]

def windowStart (messages : List Message) : ℕ :=
  sliceIndex (toolCount messages) (if o.keepN ≠ 0 then toolCount messages - o.keepN else toolCount messages)

theorem contains_recent {messages : List Message} {i : ℕ} (hi : i < messages.length)
    (ht : messages[i].isTool = true) :
    (recentToolIndices o messages).contains i = true ↔ windowStart o messages ≤ toolCount (messages.take i) := by
  rw [List.contains_iff_mem, recentToolIndices, sliceFrom, length_toolIndices]
  exact mem_drop_toolIndices hi ht _

theorem maskOutputOf_eq (m : Message) :
    maskOutputOf py o m = if TaggedShort py o m then m else replaced py o m := by
  unfold maskOutputOf
  by_cases htag : (o.taggedKeep && shouldKeepToolOutput py (m.content.getD (.text ""))) = true
  · rw [if_pos htag]
    by_cases hlong : o.longOutputChars ≠ 0 ∧
        o.longOutputChars < ((m.content.getD (.text "")).toStr py).length
    · have hshort : ¬ TaggedShort py o m := fun h => by
        have hbound := h.2
        omega
      rw [if_pos hlong, if_neg hshort]
      rfl
    · have hshort : TaggedShort py o m := ⟨htag, by omega⟩
      rw [if_neg hlong, if_pos hshort]
  · have hshort : ¬ TaggedShort py o m := fun h => htag h.1
    rw [if_neg htag, if_neg hshort]
    rfl

theorem maskMessage_tool {m : Message} (ht : m.isTool = true) (recent : Bool) :
    maskMessage py o recent m =
      if o.maskOutput = true ∧ ¬ recent = true ∧ ¬ TaggedShort py o m then replaced py o m else m := by
  have hrole : m.role = .tool := by simpa [Message.isTool] using ht
  have hthinking : ¬ (o.maskThinking && m.role = .assistant && m.reasoningContent.any (· ≠ "")) = true := by
    simp only [hrole, reduceCtorEq, decide_false, Bool.and_false, Bool.false_and, Bool.false_eq_true,
      not_false_eq_true]
  rw [maskMessage, if_neg hthinking, ht, Bool.and_true, maskOutputOf_eq]
  by_cases hout : o.maskOutput = true
  · by_cases hrecent : recent = true
    · simp only [hout, hrecent, ↓reduceIte, not_true_eq_false, false_and, and_false]
    · by_cases htag : TaggedShort py o m <;> simp only [hout, hrecent, htag, ↓reduceIte, not_true_eq_false,
        and_false, not_false_eq_true, and_self, Bool.false_eq_true]
  · simp only [hout, ↓reduceIte, false_and, Bool.false_eq_true]

theorem inWindow_iff {messages : List Message} {i : ℕ} (hi : i < messages.length)
    (ht : messages[i].isTool = true) :
    InWindow o messages i ↔ toolCount messages ≤ toolCount (messages.take i) + o.keepN := by
  have hsplit := toolCount_around hi ht
  unfold InWindow
  omega

theorem windowStart_le_iff (hn : 0 ≤ o.keepN) (messages : List Message) (k : ℕ) (hk : k < toolCount messages) :
    windowStart o messages ≤ k ↔
      toolCount messages ≤ k + o.keepN ∧ (toolCount messages < o.keepN → 2 * toolCount messages ≤ k + o.keepN) := by
  unfold windowStart sliceIndex
  split_ifs <;> omega

theorem maskEnvMessages_tool {messages : List Message} {i : ℕ} (hi : i < messages.length)
    (ht : messages[i].isTool = true) :
    (maskEnvMessages py o messages)[i]? = some
      (if o.maskOutput = true ∧ ¬ windowStart o messages ≤ toolCount (messages.take i) ∧
          ¬ TaggedShort py o messages[i] then replaced py o messages[i] else messages[i]) := by
  rw [maskEnvMessages, maskEnvFrom_getElem?, Nat.zero_add, List.getElem?_eq_getElem hi, Option.map_some,
    maskMessage_tool py o ht]
  simp only [contains_recent o hi ht]

theorem maskEnvMessages_recency (hn : 0 ≤ o.keepN) (messages : List Message) :
    RecencyWindow py o messages ↔ WindowKept py o messages := by
  constructor
  · intro h hout hlt i m hm ht hpos
    obtain ⟨hi, rfl⟩ := List.getElem?_eq_some_iff.mp hm
    have hlaw := h i _ hm ht
    have hwindow : InWindow o messages i := by
      rw [inWindow_iff o hi ht]
      omega
    have hstart : ¬ windowStart o messages ≤ toolCount (messages.take i) := by
      have hsplit := toolCount_around hi ht
      rw [windowStart_le_iff o hn messages _ (by omega)]
      omega
    have hverbatim : windowedOutput py o messages i messages[i] = messages[i] := if_neg fun hc => hc.2.1 hwindow
    rw [maskEnvMessages_tool py o hi ht, Option.some.injEq, hverbatim] at hlaw
    by_cases htag : TaggedShort py o messages[i]
    · exact .inl htag
    · right
      rw [if_pos ⟨hout, hstart, htag⟩] at hlaw
      exact (congrArg Message.content hlaw).symm
  · intro h i m hm ht
    obtain ⟨hi, rfl⟩ := List.getElem?_eq_some_iff.mp hm
    have hsplit := toolCount_around hi ht
    have hstart := windowStart_le_iff o hn messages (toolCount (messages.take i)) (by omega)
    have hwindow := inWindow_iff o hi ht
    rw [maskEnvMessages_tool py o hi ht, Option.some.injEq, windowedOutput]
    by_cases htag : TaggedShort py o messages[i]
    · simp only [htag, not_true_eq_false, and_false, ↓reduceIte]
    · by_cases hlost : o.maskOutput = true ∧ InWindow o messages i ∧
          ¬ windowStart o messages ≤ toolCount (messages.take i)
      · obtain ⟨hout, hin, hbefore⟩ := hlost
        have hfew := hwindow.mp hin
        have hneg := mt hstart.mpr hbefore
        have hsame : messages[i].content = some (.text (maskedContent py o messages[i])) := by
          rcases h hout (by omega) i _ hm ht (by omega) with htag' | hsame
          · exact absurd htag' htag
          · exact hsame
        rw [if_pos ⟨hout, hbefore, htag⟩, if_neg fun hc => hc.2.1 hin, replaced, ← hsame]
      · congr 1
        apply propext
        constructor
        · rintro ⟨hout, hs, -⟩
          exact ⟨hout, fun hin => hlost ⟨hout, hin, hs⟩, htag⟩
        · rintro ⟨hout, hin, -⟩
          refine ⟨hout, fun hs => hin (hwindow.mpr (hstart.mp hs).1), htag⟩

def okOutput : Message := { role := .tool, content := some (.text "ok") }

theorem maskEnvMessages_recency_short :
    0 ≤ ({ keepN := 1 } : MaskOptions).keepN ∧ RecencyWindow asciiPython { keepN := 1 } [okOutput, okOutput] :=
  ⟨by decide, (maskEnvMessages_recency asciiPython _ (by decide) _).mpr fun _ hlt => absurd hlt (by decide)⟩

theorem maskEnvMessages_loses_recent :
    ¬ ∀ (o : MaskOptions) (messages : List Message), 0 ≤ o.keepN → RecencyWindow asciiPython o messages := by
  intro h
  have hfirst := h { keepN := 3 } [okOutput, okOutput] (by decide) 0 okOutput rfl rfl
  have hwindow : InWindow { keepN := 3 } [okOutput, okOutput] 0 := by decide
  have hkept : windowedOutput asciiPython { keepN := 3 } [okOutput, okOutput] 0 okOutput = okOutput :=
    if_neg fun hc => hc.2.1 hwindow
  rw [hkept] at hfirst
  have hmasked : (maskEnvMessages asciiPython { keepN := 3 } [okOutput, okOutput])[0]? =
      some { okOutput with content := some (.text "Old environment output: (1 lines omitted)") } := by rfl
  rw [hmasked] at hfirst
  simp [okOutput] at hfirst

end TokensThatSuffice
