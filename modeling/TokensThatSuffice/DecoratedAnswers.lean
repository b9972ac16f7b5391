import TokensThatSuffice.ThemeAnswers

namespace TokensThatSuffice

open JsonTexts

abbrev fence : List Char := ['\x60', '\x60', '\x60']

inductive Kept (before o after : List Char) : Prop
  | closed {inner tail : List Char} (hafter : after = inner ++ tail) (hclose : LastMarker fence tail)
      (halone : Alone before o inner) : Kept before o after
  | unclosed (hclose : ¬ fence <:+: before ++ (o ++ after)) (halone : Alone before o after) : Kept before o after

inductive Recoverable (dec : Decoder) (themes : List Json) (before o after : List Char) : Prop
  | prose (hopen : ¬ fence <+: before) (halone : Alone before o after) : Recoverable dec themes before o after
  | fenceLine {line rest : List Char} (hopen : fence <+: before) (hbefore : before = line ++ '\n' :: rest)
      (hline : '\n' ∉ line) (hkept : Kept rest o after) : Recoverable dec themes before o after
  | oneLine (hopen : fence <+: before) (hline : '\n' ∉ before ++ (o ++ after)) (hkept : Kept before o after) :
      Recoverable dec themes before o after
  -- the object is cut on both sides, and what is left of it has an object with the same themes
  | repeated {line p v q tail : List Char} (hopen : fence <+: before) (hbefore : '\n' ∉ before)
      (ho : o = line ++ '\n' :: (p ++ (v ++ (q ++ tail)))) (hline : '\n' ∉ line) (hclose : LastMarker fence tail)
      (hafter : ¬ fence <:+: after) (haround : Around dec themes p v q) : Recoverable dec themes before o after

section Cutting

variable {dec : Decoder} {themes : List Json} {before after o w x d y rest : List Char}

theorem beforeFence (hy : LastMarker fence y) : beforeLast "```" (String.ofList (x ++ y)) = String.ofList x :=
  beforeLast_last hy

theorem beforeFence_none (hy : ¬ fence <:+: y) : beforeLast "```" (String.ofList y) = String.ofList y :=
  beforeLast_none hy

theorem fence_in_after {inner tail : List Char} (hafter : after = inner ++ tail) (hclose : LastMarker fence tail) :
    fence <:+: after := by
  rw [hafter]
  exact hclose.here.isInfix.trans (List.suffix_append _ _).isInfix

theorem object_unreached (ho : Derives .object o) (hfirst : openBrace ∉ before) (h : before ++ o = x ++ d)
    (hd : d ≠ []) : ¬ ∃ p v q, x = p ++ (v ++ q) ∧ Around dec themes p v q := by
  rintro ⟨p, v, q, rfl, haround⟩
  obtain ⟨t, rfl, -⟩ := object_braces ho
  have hv := haround.held.1
  obtain ⟨u, rfl, -⟩ := object_braces hv
  simp only [List.cons_append, List.append_assoc] at h
  obtain ⟨rfl, hrest⟩ := append_cons_first hfirst haround.first h
  have heq : openBrace :: (t ++ [closeBrace]) = (openBrace :: (u ++ [closeBrace])) ++ (q ++ d) := by
    rw [hrest]
    simp only [List.cons_append, List.append_assoc]
  rw [heq] at ho
  exact hd (List.append_eq_nil_iff.mp (object_unfinished ho hv)).2

theorem object_passed (ho : Derives .object (w ++ rest)) (hw : w ≠ []) (hlast : closeBrace ∉ after) :
    ¬ ∃ p v q, rest ++ after = p ++ (v ++ q) ∧ Around dec themes p v q := by
  rintro ⟨p, v, q, heq, haround⟩
  have hv := haround.held.1
  obtain ⟨t, ht, -⟩ := object_braces ho
  obtain ⟨u, rfl, -⟩ := object_braces hv
  have hwhole : (openBrace :: t) ++ closeBrace :: after = (w ++ p ++ openBrace :: u) ++ closeBrace :: q := by
    have h := congrArg (w ++ ·) heq
    rw [← List.append_assoc, ht] at h
    simpa using h
  obtain ⟨hends, -⟩ := append_cons_last hlast haround.last hwhole
  have hsuffix : w ++ rest = (w ++ p) ++ (openBrace :: (u ++ [closeBrace])) := by
    rw [ht, ← List.cons_append, hends]
    simp only [List.cons_append, List.append_assoc]
  rw [hsuffix] at ho
  exact hw (List.append_eq_nil_iff.mp (object_suffix ho hv)).1

theorem kept_closed_iff {inner tail : List Char} (hclose : LastMarker fence tail) :
    Kept before o (inner ++ tail) ↔ Alone before o inner := by
  constructor
  · intro h
    cases h with
    | closed hafter hclose' halone =>
      have hcut := @beforeFence inner tail hclose
      rw [hafter, beforeFence hclose'] at hcut
      rwa [← String.ofList_injective hcut]
    | unclosed hclose' halone =>
      have hafter : fence <:+: inner ++ tail := fence_in_after rfl hclose
      refine absurd (hafter.trans ?_) hclose'
      rw [← List.append_assoc]
      exact (List.suffix_append _ _).isInfix
  · exact .closed rfl hclose

theorem kept_unclosed_iff (hafter : ¬ fence <:+: after) :
    Kept before o after ↔ ¬ fence <:+: before ++ (o ++ after) ∧ Alone before o after := by
  constructor
  · intro h
    cases h with
    | closed hafter' hclose halone => exact absurd (fence_in_after hafter' hclose) hafter
    | unclosed hclose halone => exact ⟨hclose, halone⟩
  · exact fun h => .unclosed h.1 h.2

theorem readThemes_kept_iff (hdec : DecodesJson dec) (ho : HasThemes dec themes o) (hfirst : openBrace ∉ before)
    (hlast : closeBrace ∉ after) :
    readThemes dec (strip (beforeLast "```" (String.ofList (before ++ (o ++ after))))) = .ok themes ↔
      Kept before o after := by
  by_cases hafter : fence <:+: after
  · obtain ⟨inner, tail, rfl, hclose⟩ := exists_lastMarker (List.cons_ne_nil _ _) hafter
    have hinner : closeBrace ∉ inner := fun hc => hlast (List.mem_append_left tail hc)
    rw [kept_closed_iff hclose, ← List.append_assoc, ← List.append_assoc, beforeFence hclose, List.append_assoc,
      readThemes_object_iff hdec ho hfirst hinner]
  · rw [kept_unclosed_iff hafter]
    by_cases hfence : fence <:+: before ++ (o ++ after)
    · have hinside := hfence
      rw [← List.append_assoc] at hinside
      obtain ⟨x, d, heq, hd, hclose⟩ := lastMarker_inside (List.cons_ne_nil _ _) hinside hafter
      rw [← List.append_assoc, heq, List.append_assoc, beforeFence hclose, readThemes_iff hdec]
      refine iff_of_false (object_unreached ho.1 hfirst heq hd) fun h => h.1 ?_
      rw [← List.append_assoc, heq, List.append_assoc] at hfence
      exact hfence
    · rw [beforeFence_none hfence, readThemes_object_iff hdec ho hfirst hlast]
      exact (and_iff_right hfence).symm

theorem lastMarker_brace_iff {e : List Char} (hafter : ¬ fence <:+: after) :
    LastMarker fence (e ++ [closeBrace] ++ after) ↔ LastMarker fence (e ++ [closeBrace]) := by
  have hbrace : closeBrace ∉ fence := by decide
  have hnil : ¬ fence <:+: [] := by decide
  rw [List.append_assoc, List.singleton_append, lastMarker_append_cons hbrace (List.cons_ne_nil _ _) hafter,
    lastMarker_append_cons hbrace (List.cons_ne_nil _ _) hnil]

theorem readThemes_tail_iff (hdec : DecodesJson dec) (ho : Derives .object (w ++ rest)) (hw : w ≠ [])
    (hlast : closeBrace ∉ after) :
    readThemes dec (strip (beforeLast "```" (String.ofList (rest ++ after)))) = .ok themes ↔
      ¬ fence <:+: after ∧ ∃ p v q tail, rest = p ++ (v ++ (q ++ tail)) ∧ LastMarker fence tail ∧
        Around dec themes p v q := by
  have hends {x d : List Char} (heq : rest = x ++ d) (hd : d ≠ []) : ∃ e, d = e ++ [closeBrace] := by
    rw [heq, ← List.append_assoc] at ho
    exact object_last ho hd
  by_cases hafter : fence <:+: after
  · obtain ⟨inner, tail, rfl, hclose⟩ := exists_lastMarker (List.cons_ne_nil _ _) hafter
    have hinner : closeBrace ∉ inner := fun hc => hlast (List.mem_append_left tail hc)
    rw [← List.append_assoc, beforeFence hclose, readThemes_iff hdec]
    constructor
    · exact fun h => absurd h (object_passed ho hw hinner)
    · exact fun h => absurd hafter h.1
  · by_cases hfence : fence <:+: rest ++ after
    · constructor
      · intro h
        obtain ⟨x, d, heq, hd, hclose⟩ := lastMarker_inside (List.cons_ne_nil _ _) hfence hafter
        rw [heq, List.append_assoc, beforeFence hclose, readThemes_iff hdec] at h
        obtain ⟨p, v, q, rfl, haround⟩ := h
        obtain ⟨e, rfl⟩ := hends heq hd
        refine ⟨hafter, p, v, q, e ++ [closeBrace], ?_, (lastMarker_brace_iff hafter).mp hclose, haround⟩
        rw [heq, List.append_assoc, List.append_assoc]
      · rintro ⟨-, p, v, q, tail, heq, hclose, haround⟩
        have hparts : rest = (p ++ (v ++ q)) ++ tail := by
          rw [heq]
          simp only [List.append_assoc]
        have hne : tail ≠ [] := by
          rintro rfl
          exact absurd (List.prefix_nil.mp hclose.here) (List.cons_ne_nil _ _)
        obtain ⟨e, rfl⟩ := hends hparts hne
        rw [hparts, List.append_assoc, beforeFence ((lastMarker_brace_iff hafter).mpr hclose), readThemes_iff hdec]
        exact ⟨p, v, q, rfl, haround⟩
    · rw [beforeFence_none hfence, readThemes_iff hdec]
      constructor
      · exact fun h => absurd h (object_passed ho hw hlast)
      · rintro ⟨-, p, v, q, tail, rfl, hclose, -⟩
        refine absurd (hclose.here.isInfix.trans ?_) hfence
        refine List.IsInfix.trans ?_ (List.prefix_append _ _).isInfix
        exact ⟨p ++ (v ++ q), [], by simp only [List.append_assoc, List.append_nil]⟩

theorem readThemes_closed (hdec : DecodesJson dec) (hy : closeBrace ∉ y) :
    readThemes dec (strip (beforeLast "```" (String.ofList y))) ≠ .ok themes := by
  obtain ⟨x, hx, hcut⟩ := beforeLast_prefix "```" y
  rw [hcut, Ne, readThemes_iff hdec]
  rintro ⟨p, v, q, rfl, haround⟩
  obtain ⟨u, rfl, -⟩ := object_braces haround.held.1
  apply hy
  apply hx.subset
  simp

end Cutting

section Recovery

variable {dec : Decoder} {themes : List Json} {before after o : List Char}

theorem startsWith_fence (ho : Derives .object o) (before after : List Char) :
    startsWith (String.ofList (before ++ (o ++ after))) "```" = true ↔ fence <+: before := by
  obtain ⟨t, rfl, -⟩ := object_braces ho
  have hbrace : openBrace ∉ fence := by decide
  simp only [startsWith, List.isPrefixOf_iff_prefix, String.toList_ofList]
  exact WordGrams.prefix_append_cons hbrace _ _

theorem stripFences_prose (ho : Derives .object o) {raw : String}
    (hraw : strip raw = String.ofList (before ++ (o ++ after))) (hopen : ¬ fence <+: before) :
    stripFences raw = strip (String.ofList (before ++ (o ++ after))) := by
  rw [← startsWith_fence ho before after, Bool.not_eq_true] at hopen
  rw [stripFences, hraw, hopen, if_neg Bool.false_ne_true, ← hraw, strip_strip]

theorem stripFences_fenced (ho : Derives .object o) {raw : String}
    (hraw : strip raw = String.ofList (before ++ (o ++ after))) (hopen : fence <+: before) :
    stripFences raw = strip (beforeLast "```" (afterFirst '\n' (String.ofList (before ++ (o ++ after))))) := by
  rw [stripFences, hraw, if_pos ((startsWith_fence ho before after).mpr hopen)]

theorem fenceLine_recoverable_iff {line rest : List Char} (hopen : fence <+: line ++ '\n' :: rest)
    (hline : '\n' ∉ line) : Recoverable dec themes (line ++ '\n' :: rest) o after ↔ Kept rest o after := by
  have hbefore : '\n' ∈ line ++ '\n' :: rest := by simp
  constructor
  · intro h
    cases h with
    | prose hopen' => exact absurd hopen hopen'
    | fenceLine hopen' hbefore' hline' hkept =>
      obtain ⟨-, rfl⟩ := append_cons_first hline hline' hbefore'
      exact hkept
    | oneLine hopen' hline' => exact absurd (List.mem_append_left _ hbefore) hline'
    | repeated hopen' hbefore' => exact absurd hbefore hbefore'
  · exact .fenceLine hopen rfl hline

theorem objectLine_recoverable_iff {line rest : List Char} (hopen : fence <+: before) (hbefore : '\n' ∉ before)
    (hline : '\n' ∉ line) : Recoverable dec themes before (line ++ '\n' :: rest) after ↔
      ¬ fence <:+: after ∧ ∃ p v q tail, rest = p ++ (v ++ (q ++ tail)) ∧ LastMarker fence tail ∧
        Around dec themes p v q := by
  constructor
  · intro h
    cases h with
    | prose hopen' => exact absurd hopen hopen'
    | fenceLine hopen' hbefore' =>
      rw [hbefore'] at hbefore
      simp at hbefore
    | oneLine hopen' hline' => simp at hline'
    | @repeated line' p v q tail hopen' hbefore' ho' hline' hclose hafter haround =>
      obtain ⟨-, rfl⟩ := append_cons_first hline hline' ho'
      exact ⟨hafter, p, v, q, tail, rfl, hclose, haround⟩
  · rintro ⟨hafter, p, v, q, tail, rfl, hclose, haround⟩
    exact .repeated hopen hbefore rfl hline hclose hafter haround

theorem oneLine_recoverable_iff (hopen : fence <+: before) (hbefore : '\n' ∉ before) (hobject : '\n' ∉ o) :
    Recoverable dec themes before o after ↔ '\n' ∉ after ∧ Kept before o after := by
  constructor
  · intro h
    cases h with
    | prose hopen' => exact absurd hopen hopen'
    | fenceLine hopen' hbefore' =>
      rw [hbefore'] at hbefore
      simp at hbefore
    | oneLine hopen' hline hkept =>
      simp only [List.mem_append, not_or] at hline
      exact ⟨hline.2.2, hkept⟩
    | repeated hopen' hbefore' ho' =>
      rw [ho'] at hobject
      simp at hobject
  · rintro ⟨hafter, hkept⟩
    exact .oneLine hopen (List.not_mem_append hbefore (List.not_mem_append hobject hafter)) hkept

theorem fenced_recovers_iff (hdec : DecodesJson dec) (ho : HasThemes dec themes o) (hfirst : openBrace ∉ before)
    (hlast : closeBrace ∉ after) (hopen : fence <+: before) :
    readThemes dec (strip (beforeLast "```" (afterFirst '\n' (String.ofList (before ++ (o ++ after)))))) =
      .ok themes ↔ Recoverable dec themes before o after := by
  by_cases hbefore : '\n' ∈ before
  · obtain ⟨line, rest, rfl, hline⟩ := List.eq_append_cons_of_mem hbefore
    have hrest : openBrace ∉ rest := fun hc => hfirst (List.mem_append_right _ (List.mem_cons_of_mem _ hc))
    rw [fenceLine_recoverable_iff hopen hline, List.append_assoc, List.cons_append, afterFirst_first hline,
      readThemes_kept_iff hdec ho hrest hlast]
  · by_cases hobject : '\n' ∈ o
    · obtain ⟨line, rest, rfl, hline⟩ := List.eq_append_cons_of_mem hobject
      have hcut : Derives .object ((line ++ ['\n']) ++ rest) := by
        rw [List.append_assoc, List.singleton_append]
        exact ho.1
      have htext : before ++ ((line ++ '\n' :: rest) ++ after) = (before ++ line) ++ '\n' :: (rest ++ after) := by
        simp only [List.append_assoc, List.cons_append]
      rw [objectLine_recoverable_iff hopen hbefore hline, htext,
        afterFirst_first (List.not_mem_append hbefore hline), readThemes_tail_iff hdec hcut (by simp) hlast]
    · rw [oneLine_recoverable_iff hopen hbefore hobject]
      by_cases hafter : '\n' ∈ after
      · obtain ⟨line, rest, rfl, hline⟩ := List.eq_append_cons_of_mem hafter
        have hrest : closeBrace ∉ rest := fun hc => hlast (List.mem_append_right _ (List.mem_cons_of_mem _ hc))
        have htext : before ++ (o ++ (line ++ '\n' :: rest)) = (before ++ (o ++ line)) ++ '\n' :: rest := by
          simp only [List.append_assoc]
        have hfirstLine : '\n' ∉ before ++ (o ++ line) :=
          List.not_mem_append hbefore (List.not_mem_append hobject hline)
        rw [htext, afterFirst_first hfirstLine]
        exact iff_of_false (readThemes_closed hdec hrest) fun h => h.1 hafter
      · have hnone : '\n' ∉ before ++ (o ++ after) :=
          List.not_mem_append hbefore (List.not_mem_append hobject hafter)
        rw [afterFirst_none hnone, readThemes_kept_iff hdec ho hfirst hlast]
        exact (and_iff_right hafter).symm

theorem parseSubtasks_recovers_iff (hdec : DecodesJson dec) {before o after : String}
    (ho : HasThemes dec themes o.toList) (hfirst : openBrace ∉ before.toList) (hlast : closeBrace ∉ after.toList) :
    parseSubtasks dec (before ++ o ++ after) = .ok themes ↔
      Recoverable dec themes (before.toList.dropWhile isSpace) o.toList (after.toList.rdropWhile isSpace) := by
  have hraw : before ++ o ++ after = String.ofList (before.toList ++ (o.toList ++ after.toList)) := by
    rw [String.ofList_append, String.ofList_append, String.append_assoc]
    simp only [String.ofList_toList]
  have hstrip := strip_decorated (object_trimmed ho.1) before.toList after.toList
  rw [← hraw] at hstrip
  have hfirst' : openBrace ∉ before.toList.dropWhile isSpace :=
    fun hc => hfirst ((List.dropWhile_suffix _).subset hc)
  have hlast' : closeBrace ∉ after.toList.rdropWhile isSpace :=
    fun hc => hlast ((List.rdropWhile_prefix _ _).subset hc)
  rw [parseSubtasks_eq]
  by_cases hopen : fence <+: before.toList.dropWhile isSpace
  · rw [stripFences_fenced ho.1 hstrip hopen, fenced_recovers_iff hdec ho hfirst' hlast' hopen]
  · rw [stripFences_prose ho.1 hstrip hopen, readThemes_object_iff hdec ho hfirst' hlast']
    constructor
    · exact .prose hopen
    · intro h
      cases h with
      | prose hopen' halone => exact halone
      | fenceLine hopen' => exact absurd hopen' hopen
      | oneLine hopen' => exact absurd hopen' hopen
      | repeated hopen' => exact absurd hopen' hopen

end Recovery

section Example

variable {dec : Decoder}

open Classical in
noncomputable def oneThemeDecoder : Decoder where
  toPython := { asciiPython with
    loads := fun s =>
      if Derives .element s.toList then
        if ∃ a o b, s.toList = a ++ (o ++ b) ∧ Whitespace a ∧ Derives .object o ∧ Whitespace b then
          some (.object [("subtasks", .array [.null])])
        else some .null
      else none }
  loadsError := fun _ => ⟨"", true⟩

def oneTheme : String := "\x7b\"subtasks\": [null]\x7d"

theorem oneThemeDecoder_decodes : DecodesJson oneThemeDecoder := by
  refine ⟨?_, ?_, fun s h => rfl⟩
  · intro s
    by_cases hs : Derives .element s.toList
    · simp only [oneThemeDecoder, if_pos hs]
      split_ifs <;> simp [hs]
    · simp [oneThemeDecoder, hs]
  · intro s fields h
    simp only [oneThemeDecoder] at h
    split_ifs at h with hs hobject
    · exact hobject
    · cases h

theorem oneTheme_object : Derives .object oneTheme.toList := by
  have hkey : StringBody "subtasks".toList := by
    apply stringBody_plain
    simp [quote, backslash]
  have hnone : Whitespace [] := fun c hc => by cases hc
  have hspace : Whitespace [' '] := by
    intro c hc
    rw [List.mem_singleton.mp hc]
    rfl
  have hnull : Derives .element ([] ++ ("null".toList ++ [])) := .element hnone (.word (by simp [words])) hnone
  have hlist : Derives .element ([' '] ++ (('[' :: (([] ++ ("null".toList ++ [])) ++ [']'])) ++ [])) :=
    .element hspace (.array (.lastElement hnull)) hnone
  exact .object (.lastMember (.member hnone hkey hnone hlist))

theorem oneTheme_hasThemes : HasThemes oneThemeDecoder [.null] oneTheme.toList := by
  have hnone : Whitespace [] := fun c hc => by cases hc
  have helement : Derives .element oneTheme.toList := by
    have h := Derives.element hnone (.ofObject oneTheme_object) hnone
    rwa [List.nil_append, List.append_nil] at h
  refine ⟨oneTheme_object, List.cons_ne_nil _ _, [("subtasks", .array [.null])], ?_, rfl⟩
  rw [String.ofList_toList]
  simp only [oneThemeDecoder, if_pos helement]
  exact if_pos ⟨[], oneTheme.toList, [], (List.append_nil _).symm, hnone, oneTheme_object, hnone⟩

theorem parseSubtasks_recovers_iff_fenced :
    parseSubtasks oneThemeDecoder ("```json\n" ++ oneTheme ++ "\n```") = .ok [.null] := by
  have hfirst : openBrace ∉ "```json\n".toList := by simp [openBrace]
  have hlast : closeBrace ∉ "\n```".toList := by simp [closeBrace]
  have hbefore : "```json\n".toList.dropWhile isSpace = "```json".toList ++ '\n' :: [] := rfl
  have hafter : "\n```".toList.rdropWhile isSpace = ['\n'] ++ fence := rfl
  refine (parseSubtasks_recovers_iff oneThemeDecoder_decodes oneTheme_hasThemes hfirst hlast).mpr ?_
  rw [hbefore, hafter]
  refine .fenceLine ⟨['j', 's', 'o', 'n', '\n'], rfl⟩ rfl (by simp) (.closed rfl ⟨List.prefix_rfl, by decide⟩ ?_)
  exact fun _ c hc => by cases hc

theorem readThemes_unreadable (hdec : DecodesJson dec) {text : String} (hvalue : ¬ Derives .element text.toList)
    (hbrace : find text "\x7b" = none) :
    readThemes dec text = .error "no JSON object found in theme output" := by
  have hnone := (loads_eq_none_iff hdec).mpr hvalue
  rw [readThemes, loadObject, loads, hnone]
  dsimp only
  rw [if_pos (hdec.decodeError _ hnone), hbrace, error_bind]

theorem object_lost_with_fence :
    DecodesJson oneThemeDecoder ∧ HasThemes oneThemeDecoder [.null] oneTheme.toList ∧
      (openBrace ∉ "```json ".toList ∧ closeBrace ∉ "\n```".toList ∧
        parseSubtasks oneThemeDecoder ("```json " ++ oneTheme ++ "\n```") =
          .error "no JSON object found in theme output") ∧
      (openBrace ∉ "```\n(two steps)\n```\nThe subtasks: ".toList ∧ closeBrace ∉ ".".toList ∧
        parseSubtasks oneThemeDecoder ("```\n(two steps)\n```\nThe subtasks: " ++ oneTheme ++ ".") =
          .error "no JSON object found in theme output") := by
  refine ⟨oneThemeDecoder_decodes, oneTheme_hasThemes, ⟨by simp [openBrace], by simp [closeBrace], ?_⟩,
    by simp [openBrace], by simp [closeBrace], ?_⟩
  · have hstrip : stripFences ("```json " ++ oneTheme ++ "\n```") = "" := rfl
    rw [parseSubtasks_eq, hstrip]
    exact readThemes_unreadable oneThemeDecoder_decodes (fun h => element_ne_nil h rfl) rfl
  · have hstrip : stripFences ("```\n(two steps)\n```\nThe subtasks: " ++ oneTheme ++ ".") = "(two steps)" := rfl
    rw [parseSubtasks_eq, hstrip]
    refine readThemes_unreadable oneThemeDecoder_decodes (fun h => ?_) rfl
    obtain ⟨v, b, heq, hv, -⟩ := element_first (c := '(') h rfl
    obtain ⟨c, u, rfl, hc⟩ := value_first hv
    obtain ⟨rfl, -⟩ := List.cons.inj heq
    exact absurd hc (by decide)

end Example

end TokensThatSuffice
