import TokensThatSuffice.JsonTexts
import TokensThatSuffice.TextCuts

namespace TokensThatSuffice

open JsonTexts

/-- `json.loads` accepts the values of JSON in whitespace, and only an object becomes a dict. -/
structure DecodesJson (dec : Decoder) : Prop where
  accepts : ∀ s, (dec.loads s).isSome = true ↔ Derives .element s.toList
  object : ∀ s fields, dec.loads s = some (.object fields) →
    ∃ a o b, s.toList = a ++ (o ++ b) ∧ Whitespace a ∧ Derives .object o ∧ Whitespace b
  decodeError : ∀ s, dec.loads s = none → (dec.loadsError s).isDecodeError = true

def HasThemes (dec : Decoder) (themes : List Json) (o : List Char) : Prop :=
  Derives .object o ∧ themes ≠ [] ∧
    ∃ fields, dec.loads (String.ofList o) = some (.object fields) ∧ fields.lookup "subtasks" = some (.array themes)

def Alone (before o after : List Char) : Prop :=
  Derives .element (strip (String.ofList (before ++ (o ++ after)))).toList → ∀ c ∈ before, isSpace c = true

structure Around (dec : Decoder) (themes : List Json) (before o after : List Char) : Prop where
  held : HasThemes dec themes o
  first : openBrace ∉ before
  last : closeBrace ∉ after
  alone : Alone before o after

section Objects

variable {o s t : List Char}

theorem isSpace_whitespace (hs : Whitespace s) : ∀ c ∈ s, isSpace c = true := by
  intro c hc
  have hwhite := hs c hc
  simp only [isWhitespace, Bool.or_eq_true, decide_eq_true_eq] at hwhite
  rcases hwhite with ((rfl | rfl) | rfl) | rfl <;> decide

theorem not_mem_spaces {c : Char} (hc : isSpace c = false) (hs : ∀ d ∈ s, isSpace d = true) : c ∉ s := by
  intro hmem
  rw [hs c hmem] at hc
  cases hc

theorem braces_trimmed (t : List Char) : Trimmed isSpace (openBrace :: (t ++ [closeBrace])) := by
  refine ⟨List.cons_ne_nil _ _, ?_, ?_⟩
  · intro c hc
    cases hc
    decide
  · intro c hc
    rw [← List.cons_append, List.getLast?_concat] at hc
    cases hc
    decide

theorem object_trimmed (ho : Derives .object o) : Trimmed isSpace o := by
  obtain ⟨t, rfl, -⟩ := object_braces ho
  exact braces_trimmed t

theorem object_parts {before after before' after' o' : List Char} (ho : Derives .object o)
    (ho' : Derives .object o') (hfirst : openBrace ∉ before) (hlast : closeBrace ∉ after) (hfirst' : openBrace ∉ before')
    (hlast' : closeBrace ∉ after') (h : before ++ (o ++ after) = before' ++ (o' ++ after')) :
    before = before' ∧ o = o' ∧ after = after' := by
  obtain ⟨t, rfl, -⟩ := object_braces ho
  obtain ⟨t', rfl, -⟩ := object_braces ho'
  simp only [List.cons_append, List.append_assoc, List.nil_append] at h
  obtain ⟨rfl, hrest⟩ := append_cons_first hfirst hfirst' h
  obtain ⟨rfl, rfl⟩ := append_cons_last hlast hlast' hrest
  exact ⟨rfl, rfl, rfl⟩

end Objects

section Loading

variable {dec : Decoder} {p q s t : List Char} {data : Json}

def readThemes (dec : Decoder) (text : String) : Except String (List Json) := do
  let data ← loadObject dec text
  match data with
  | .object fields =>
    match fields.lookup "subtasks" with
    | some (.array (t :: ts)) => return t :: ts
    | _ => .error "theme output missing non-empty 'themes' list"
  | _ => .error "theme output missing non-empty 'themes' list"

theorem parseSubtasks_eq (raw : String) : parseSubtasks dec raw = readThemes dec (stripFences raw) := rfl

theorem readThemes_eq_ok {text : String} {themes : List Json} : readThemes dec text = .ok themes ↔
    themes ≠ [] ∧ ∃ fields, loadObject dec text = .ok (.object fields) ∧
      fields.lookup "subtasks" = some (.array themes) := by
  rw [readThemes, bind_eq_ok]
  constructor
  · rintro ⟨data, hload, h⟩
    split at h
    · split at h
      · rename_i hlookup
        cases h
        exact ⟨List.cons_ne_nil _ _, _, hload, hlookup⟩
      · cases h
    · cases h
  · rintro ⟨hne, fields, hload, hlookup⟩
    obtain ⟨t, ts, rfl⟩ := List.exists_cons_of_ne_nil hne
    refine ⟨_, hload, ?_⟩
    simp only [hlookup, pure_eq_ok]

theorem loadObject_accepted {text : String} (h : dec.loads text = some data) : loadObject dec text = .ok data := by
  rw [loadObject, loads, h]

theorem loadObject_braces (hdec : DecodesJson dec) (hfirst : openBrace ∉ p) (hlast : closeBrace ∉ q)
    (hnone : dec.loads (String.ofList (p ++ (openBrace :: (t ++ [closeBrace]) ++ q))) = none) :
    loadObject dec (String.ofList (p ++ (openBrace :: (t ++ [closeBrace]) ++ q))) = .ok data ↔
      dec.loads (String.ofList (openBrace :: (t ++ [closeBrace]))) = some data := by
  have htext : p ++ (openBrace :: (t ++ [closeBrace]) ++ q) = (p ++ openBrace :: t) ++ closeBrace :: q := by simp
  have hfind : find (String.ofList (p ++ (openBrace :: (t ++ [closeBrace]) ++ q))) "\x7b" = some p.length :=
    find_first rfl hfirst
  have hrfind : rfind (String.ofList (p ++ (openBrace :: (t ++ [closeBrace]) ++ q))) "\x7d" =
      some (p ++ openBrace :: t).length := by
    rw [htext]
    exact rfind_lastChar rfl hlast
  have hcut : ((p ++ (openBrace :: (t ++ [closeBrace]) ++ q)).take
      ((p ++ openBrace :: t).length + 1)).drop p.length = openBrace :: (t ++ [closeBrace]) := by
    have hlength : (p ++ openBrace :: t).length + 1 = (p ++ openBrace :: (t ++ [closeBrace])).length := by
      simp only [List.length_append, List.length_cons, List.length_nil]
      omega
    rw [hlength, ← List.append_assoc, List.take_left, List.drop_left]
  have horder : ¬ (p ++ openBrace :: t).length ≤ p.length := by
    rw [List.length_append, List.length_cons]
    omega
  rw [loadObject, loads, hnone]
  dsimp only
  rw [if_pos (hdec.decodeError _ hnone), hfind, hrfind]
  dsimp only
  rw [if_neg horder, String.toList_ofList, hcut, loads]
  cases dec.loads (String.ofList (openBrace :: (t ++ [closeBrace]))) with
  | none => simp
  | some v => simp

theorem loadObject_fallback (hdec : DecodesJson dec) (hnone : dec.loads (String.ofList s) = none)
    (h : loadObject dec (String.ofList s) = .ok data) :
    ∃ p t q, s = p ++ (openBrace :: (t ++ [closeBrace]) ++ q) ∧ openBrace ∉ p ∧ closeBrace ∉ q := by
  rw [loadObject, loads, hnone] at h
  dsimp only at h
  rw [if_pos (hdec.decodeError _ hnone)] at h
  by_cases hopen : openBrace ∈ s
  · by_cases hclose : closeBrace ∈ s
    · obtain ⟨p, u, hp, hfirst⟩ := List.eq_append_cons_of_mem hopen
      obtain ⟨x, q, hx, hlast⟩ := eq_append_cons_last hclose
      have hfind : find (String.ofList s) "\x7b" = some p.length := by
        rw [hp]
        exact find_first rfl hfirst
      have hrfind : rfind (String.ofList s) "\x7d" = some x.length := by
        rw [hx]
        exact rfind_lastChar rfl hlast
      rw [hfind, hrfind] at h
      dsimp only at h
      rcases List.append_eq_append_iff.mp (hp.symm.trans hx) with ⟨d, rfl, hd⟩ | ⟨d, rfl, hd⟩
      · cases d with
        | nil => cases hd
        | cons e t =>
          obtain ⟨rfl, rfl⟩ := List.cons.inj hd
          exact ⟨p, t, q, by simpa using hp, hfirst, hlast⟩
      · rw [if_pos (by simp)] at h
        cases h
    · rw [rfind_noChar rfl hclose] at h
      cases hfind : find (String.ofList s) "\x7b" with
      | none =>
        rw [hfind] at h
        cases h
      | some i =>
        rw [hfind] at h
        cases h
  · rw [find_none rfl hopen] at h
    cases h

end Loading

section Reading

variable {dec : Decoder} {themes : List Json} {before after o s : List Char}

theorem object_of_loads (hdec : DecodesJson dec) (hs : Trimmed isSpace s) {fields : List (String × Json)}
    (h : dec.loads (String.ofList s) = some (.object fields)) : Derives .object s := by
  obtain ⟨a, o, b, hparts, ha, ho, hb⟩ := hdec.object _ _ h
  rw [String.toList_ofList] at hparts
  have hstrip : String.ofList s = String.ofList o := by
    rw [← strip_ofList hs, hparts]
    exact strip_around (isSpace_whitespace ha) (object_trimmed ho) (isSpace_whitespace hb)
  rwa [String.ofList_injective hstrip]

theorem loads_eq_none_iff (hdec : DecodesJson dec) {text : String} :
    dec.loads text = none ↔ ¬ Derives .element text.toList := by
  rw [← hdec.accepts, Bool.not_eq_true, Option.isSome_eq_false_iff, Option.isNone_iff_eq_none]

theorem element_alone (ho : Derives .object o) (hlast : closeBrace ∉ after)
    (h : Derives .element (o ++ after)) : ∀ c ∈ after, isSpace c = true := by
  obtain ⟨t, rfl, -⟩ := object_braces ho
  obtain ⟨v, b, heq, hv, hb⟩ := element_first h (by decide)
  obtain ⟨c, u, rfl, -⟩ := value_first hv
  obtain ⟨rfl, -⟩ := List.cons.inj heq
  have hspaces := isSpace_whitespace hb
  have hempty : openBrace ∉ ([] : List Char) := List.not_mem_nil
  obtain ⟨-, -, rfl⟩ := @object_parts _ [] after [] b _ ho (value_object hv) hempty hlast hempty
    (not_mem_spaces (by decide) hspaces) heq
  exact hspaces

theorem readThemes_of_around (hdec : DecodesJson dec) (h : Around dec themes before o after) :
    readThemes dec (strip (String.ofList (before ++ (o ++ after)))) = .ok themes := by
  obtain ⟨⟨ho, hne, fields, hloads, hlookup⟩, hfirst, hlast, halone⟩ := h
  refine readThemes_eq_ok.mpr ⟨hne, fields, ?_, hlookup⟩
  have hstrip := strip_decorated (object_trimmed ho) before after
  by_cases hvalue : Derives .element (strip (String.ofList (before ++ (o ++ after)))).toList
  · have hbefore := halone hvalue
    have hafter : ∀ c ∈ after.rdropWhile isSpace, isSpace c = true := by
      apply element_alone ho (fun hc => hlast ((List.rdropWhile_prefix _ _).subset hc))
      rw [hstrip, List.dropWhile_eq_nil_iff.mpr hbefore, String.toList_ofList] at hvalue
      exact hvalue
    have hempty : after.rdropWhile isSpace = [] := by
      rw [← List.rdropWhile_idempotent]
      exact List.rdropWhile_eq_nil_iff.mpr hafter
    rw [hstrip, List.dropWhile_eq_nil_iff.mpr hbefore, hempty, List.nil_append, List.append_nil]
    exact loadObject_accepted hloads
  · rw [← loads_eq_none_iff hdec, hstrip] at hvalue
    rw [hstrip]
    obtain ⟨t, rfl, -⟩ := object_braces ho
    refine (loadObject_braces hdec ?_ ?_ hvalue).mpr hloads
    · exact fun hc => hfirst ((List.dropWhile_suffix _).subset hc)
    · exact fun hc => hlast ((List.rdropWhile_prefix _ _).subset hc)

theorem around_of_readThemes (hdec : DecodesJson dec)
    (h : readThemes dec (strip (String.ofList s)) = .ok themes) :
    ∃ before o after, s = before ++ (o ++ after) ∧ Around dec themes before o after := by
  obtain ⟨hne, fields, hload, hlookup⟩ := readThemes_eq_ok.mp h
  obtain ⟨l, r, hs, hl, hr⟩ := strip_parts s
  have hopen : openBrace ∉ l := not_mem_spaces (by decide) hl
  have hclose : closeBrace ∉ r := not_mem_spaces (by decide) hr
  cases hloads : dec.loads (strip (String.ofList s)) with
  | some data =>
    rw [loadObject_accepted hloads] at hload
    cases hload
    rcases strip_trimmed (String.ofList s) with hempty | htrimmed
    · obtain ⟨a, o, b, hparts, -, ho, -⟩ := hdec.object _ _ hloads
      rw [hempty, String.toList_empty, eq_comm, List.append_eq_nil_iff, List.append_eq_nil_iff] at hparts
      exact absurd hparts.2.1 (object_trimmed ho).nonempty
    · rw [← String.ofList_toList (s := strip (String.ofList s))] at hloads
      have ho := object_of_loads hdec htrimmed hloads
      exact ⟨l, _, r, hs, ⟨ho, hne, fields, hloads, hlookup⟩, hopen, hclose, fun _ => hl⟩
  | none =>
    have hnone := hloads
    rw [← String.ofList_toList (s := strip (String.ofList s))] at hload hloads
    obtain ⟨p, t, q, hparts, hfirst, hlast⟩ := loadObject_fallback hdec hloads hload
    rw [hparts] at hload hloads
    have hvalue := (loadObject_braces hdec hfirst hlast hloads).mp hload
    have ho := object_of_loads hdec (braces_trimmed t) hvalue
    refine ⟨l ++ p, _, q ++ r, ?_, ⟨ho, hne, fields, hvalue, hlookup⟩, ?_, ?_, ?_⟩
    · rw [hs, hparts]
      simp only [List.append_assoc]
    · exact List.not_mem_append hopen hfirst
    · exact List.not_mem_append hlast hclose
    · intro halone
      refine absurd ?_ ((loads_eq_none_iff hdec).mp hnone)
      rw [hs, hparts]
      simpa only [List.append_assoc] using halone

theorem readThemes_iff (hdec : DecodesJson dec) : readThemes dec (strip (String.ofList s)) = .ok themes ↔
    ∃ before o after, s = before ++ (o ++ after) ∧ Around dec themes before o after := by
  constructor
  · exact around_of_readThemes hdec
  · rintro ⟨before, o, after, rfl, h⟩
    exact readThemes_of_around hdec h

theorem readThemes_object_iff (hdec : DecodesJson dec) (ho : HasThemes dec themes o) (hfirst : openBrace ∉ before)
    (hlast : closeBrace ∉ after) : readThemes dec (strip (String.ofList (before ++ (o ++ after)))) = .ok themes ↔
      Alone before o after := by
  rw [readThemes_iff hdec]
  constructor
  · rintro ⟨before', o', after', heq, h⟩
    obtain ⟨rfl, rfl, rfl⟩ := object_parts ho.1 h.held.1 hfirst hlast h.first h.last heq
    exact h.alone
  · exact fun halone => ⟨before, o, after, rfl, ho, hfirst, hlast, halone⟩

end Reading

end TokensThatSuffice
