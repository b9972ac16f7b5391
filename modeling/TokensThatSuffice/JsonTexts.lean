import Mathlib.Data.List.Infix

namespace TokensThatSuffice.JsonTexts

abbrev quote : Char := '\x22'

abbrev backslash : Char := '\x5c'

abbrev openBrace : Char := '\x7b'

abbrev closeBrace : Char := '\x7d'

def isWhitespace (c : Char) : Bool := c = ' ' || c = '\t' || c = '\n' || c = '\r'

def Whitespace (t : List Char) : Prop := ∀ c ∈ t, isWhitespace c = true

def escapes : List Char := [quote, backslash, '/', 'b', 'f', 'n', 'r', 't']

def isHex (c : Char) : Bool := c.isDigit || ('a' ≤ c && c ≤ 'f') || ('A' ≤ c && c ≤ 'F')

inductive StringBody : List Char → Prop
  | nil : StringBody []
  | plain {c : Char} {t : List Char} (hc : c ≠ quote ∧ c ≠ backslash ∧ 0x20 ≤ c.toNat) (ht : StringBody t) :
      StringBody (c :: t)
  | escape {c : Char} {t : List Char} (hc : c ∈ escapes) (ht : StringBody t) : StringBody (backslash :: c :: t)
  | unicode {hex t : List Char} (hlength : hex.length = 4) (hhex : ∀ c ∈ hex, isHex c = true) (ht : StringBody t) :
      StringBody (backslash :: 'u' :: (hex ++ t))

def Digits (t : List Char) : Prop := t ≠ [] ∧ ∀ c ∈ t, c.isDigit = true

inductive IntegerPart : List Char → Prop
  | zero : IntegerPart ['0']
  | digits {c : Char} {t : List Char} (hc : c.isDigit = true ∧ c ≠ '0') (ht : ∀ x ∈ t, x.isDigit = true) :
      IntegerPart (c :: t)

inductive FractionPart : List Char → Prop
  | none : FractionPart []
  | digits {t : List Char} (ht : Digits t) : FractionPart ('.' :: t)

inductive ExponentPart : List Char → Prop
  | none : ExponentPart []
  | digits {e : Char} {sign t : List Char} (he : e = 'e' ∨ e = 'E') (hsign : sign ∈ [[], ['+'], ['-']])
      (ht : Digits t) : ExponentPart (e :: (sign ++ t))

def NumberText (t : List Char) : Prop :=
  ∃ sign i f e, t = sign ++ (i ++ (f ++ e)) ∧ sign ∈ [[], ['-']] ∧ IntegerPart i ∧ FractionPart f ∧ ExponentPart e

def words : List String := ["null", "true", "false", "NaN", "Infinity", "-Infinity"]

inductive Symbol where
  | value
  | object
  | members
  | member
  | elements
  | element

/-- The grammar of JSON, with the constants that Python's decoder accepts besides. -/
inductive Derives : Symbol → List Char → Prop
  | word {w : String} (hw : w ∈ words) : Derives .value w.toList
  | number {t : List Char} (ht : NumberText t) : Derives .value t
  | string {t : List Char} (ht : StringBody t) : Derives .value (quote :: (t ++ [quote]))
  | emptyArray {t : List Char} (ht : Whitespace t) : Derives .value ('[' :: (t ++ [']']))
  | array {t : List Char} (ht : Derives .elements t) : Derives .value ('[' :: (t ++ [']']))
  | ofObject {t : List Char} (ht : Derives .object t) : Derives .value t
  | emptyObject {t : List Char} (ht : Whitespace t) : Derives .object (openBrace :: (t ++ [closeBrace]))
  | object {t : List Char} (ht : Derives .members t) : Derives .object (openBrace :: (t ++ [closeBrace]))
  | lastMember {t : List Char} (ht : Derives .member t) : Derives .members t
  | members {t u : List Char} (ht : Derives .member t) (hu : Derives .members u) : Derives .members (t ++ ',' :: u)
  | member {a k b t : List Char} (ha : Whitespace a) (hk : StringBody k) (hb : Whitespace b) (ht : Derives .element t) :
      Derives .member (a ++ ((quote :: (k ++ [quote])) ++ (b ++ ':' :: t)))
  | lastElement {t : List Char} (ht : Derives .element t) : Derives .elements t
  | elements {t u : List Char} (ht : Derives .element t) (hu : Derives .elements u) :
      Derives .elements (t ++ ',' :: u)
  | element {a t b : List Char} (ha : Whitespace a) (ht : Derives .value t) (hb : Whitespace b) :
      Derives .element (a ++ (t ++ b))

inductive Mode where
  | out
  | inString
  | escaped
  deriving DecidableEq, Repr

def step : Mode × ℕ → Char → Option (Mode × ℕ)
  | (.out, d), c =>
    if c = quote then some (.inString, d)
    else if c = backslash then none
    else if c = openBrace then some (.out, d + 1)
    else if c = closeBrace then (if d = 0 then none else some (.out, d - 1))
    else some (.out, d)
  | (.inString, d), c =>
    if c = quote then some (.out, d) else if c = backslash then some (.escaped, d) else some (.inString, d)
  | (.escaped, d), c => if c ∈ escapes ∨ c = 'u' then some (.inString, d) else none

def scan (s : Mode × ℕ) (t : List Char) : Option (Mode × ℕ) := t.foldlM step s

section Scanning

variable {s s' s'' : Mode × ℕ} {a b t : List Char}

theorem scan_cons {c : Char} : scan s (c :: t) = some s'' ↔ ∃ s', step s c = some s' ∧ scan s' t = some s'' := by
  rw [scan, List.foldlM_cons]
  exact Option.bind_eq_some_iff

theorem scan_append : scan s (a ++ b) = some s'' ↔ ∃ s', scan s a = some s' ∧ scan s' b = some s'' := by
  rw [scan, List.foldlM_append]
  exact Option.bind_eq_some_iff

theorem step_shift {m m' : Mode} {d d' k : ℕ} {c : Char} (h : step (m, d) c = some (m', d')) :
    step (m, d + k) c = some (m', d' + k) := by
  cases m with
  | out =>
    simp only [step] at h ⊢
    split_ifs at h ⊢ with hquote hslash hopen hclose hzero hshift
    · cases h
      rfl
    · cases h
      rw [Nat.add_right_comm]
    · omega
    · cases h
      rw [Nat.sub_add_comm (by omega)]
    · cases h
      rfl
  | inString =>
    simp only [step] at h ⊢
    split_ifs at h ⊢ with hquote hslash
    all_goals
      cases h
      rfl
  | escaped =>
    simp only [step] at h ⊢
    split_ifs at h ⊢ with hescape
    cases h
    rfl

theorem scan_shift {m m' : Mode} {d d' : ℕ} (k : ℕ) (h : scan (m, d) t = some (m', d')) :
    scan (m, d + k) t = some (m', d' + k) := by
  induction t generalizing m d with
  | nil =>
    cases h
    rfl
  | cons c t ih =>
    obtain ⟨⟨m₁, d₁⟩, hstep, hrest⟩ := scan_cons.mp h
    exact scan_cons.mpr ⟨_, step_shift hstep, ih hrest⟩

def Mode.Opposite (m n : Mode) : Prop := (m = .out ∧ n = .inString) ∨ (m = .inString ∧ n = .out)

theorem Mode.Opposite.symm {m n : Mode} (h : m.Opposite n) : n.Opposite m := Or.symm (h.imp And.symm And.symm)

theorem step_out_inString {d e d' e' : ℕ} {m n : Mode} {c : Char} (hout : step (.out, d) c = some (m, d'))
    (hin : step (.inString, e) c = some (n, e')) : m.Opposite n := by
  simp only [step] at hout hin
  by_cases hquote : c = quote
  · rw [if_pos hquote] at hout hin
    cases hout
    cases hin
    exact .inr ⟨rfl, rfl⟩
  · rw [if_neg hquote] at hout hin
    by_cases hslash : c = backslash
    · rw [if_pos hslash] at hout
      cases hout
    · rw [if_neg hslash] at hout hin
      cases hin
      split_ifs at hout
      all_goals
        cases hout
        exact .inl ⟨rfl, rfl⟩

theorem scan_opposite {d e d' e' : ℕ} {m n m' n' : Mode} (h : m.Opposite n) (hm : scan (m, d) t = some (m', d'))
    (hn : scan (n, e) t = some (n', e')) : m'.Opposite n' := by
  induction t generalizing m n d e with
  | nil =>
    cases hm
    cases hn
    exact h
  | cons c t ih =>
    obtain ⟨⟨m₁, d₁⟩, hm₁, hm⟩ := scan_cons.mp hm
    obtain ⟨⟨n₁, e₁⟩, hn₁, hn⟩ := scan_cons.mp hn
    refine ih ?_ hm hn
    rcases h with ⟨rfl, rfl⟩ | ⟨rfl, rfl⟩
    · exact step_out_inString hm₁ hn₁
    · exact (step_out_inString hn₁ hm₁).symm

end Scanning

section Texts

variable {t o v w : List Char} {d : ℕ}

def isPlain (c : Char) : Bool := c ≠ quote && c ≠ backslash && c ≠ openBrace && c ≠ closeBrace

theorem scan_plain (h : ∀ c ∈ t, isPlain c = true) : scan (.out, d) t = some (.out, d) := by
  induction t with
  | nil => rfl
  | cons c t ih =>
    obtain ⟨hc, ht⟩ := List.forall_mem_cons.mp h
    simp only [isPlain, Bool.and_eq_true, decide_eq_true_eq] at hc
    obtain ⟨⟨⟨hquote, hslash⟩, hopen⟩, hclose⟩ := hc
    refine scan_cons.mpr ⟨_, ?_, ih ht⟩
    rw [step, if_neg hquote, if_neg hslash, if_neg hopen, if_neg hclose]

theorem scan_hex {t : List Char} (h : ∀ c ∈ t, isHex c = true) : scan (.inString, d) t = some (.inString, d) := by
  induction t with
  | nil => rfl
  | cons c t ih =>
    rw [List.forall_mem_cons] at h
    have hquote : c ≠ quote := by
      rintro rfl
      exact absurd h.1 (by decide)
    have hslash : c ≠ backslash := by
      rintro rfl
      exact absurd h.1 (by decide)
    refine scan_cons.mpr ⟨_, ?_, ih h.2⟩
    rw [step, if_neg hquote, if_neg hslash]

theorem scan_stringBody (h : StringBody t) : scan (.inString, d) t = some (.inString, d) := by
  induction h with
  | nil => rfl
  | @plain c t hc ht ih =>
    refine scan_cons.mpr ⟨_, ?_, ih⟩
    rw [step, if_neg hc.1, if_neg hc.2.1]
  | @escape c t hc ht ih =>
    refine scan_cons.mpr ⟨(.escaped, d), rfl, scan_cons.mpr ⟨_, ?_, ih⟩⟩
    exact if_pos (.inl hc)
  | @unicode hex t hlength hhex ht ih =>
    refine scan_cons.mpr ⟨(.escaped, d), rfl, scan_cons.mpr ⟨(.inString, d), rfl, ?_⟩⟩
    exact scan_append.mpr ⟨_, scan_hex hhex, ih⟩

theorem stringBody_plain (h : ∀ c ∈ t, c ≠ quote ∧ c ≠ backslash ∧ 0x20 ≤ c.toNat) : StringBody t := by
  induction t with
  | nil => exact .nil
  | cons c t ih =>
    obtain ⟨hc, ht⟩ := List.forall_mem_cons.mp h
    exact .plain hc (ih ht)

theorem scan_quoted (h : StringBody t) : scan (.out, d) (quote :: (t ++ [quote])) = some (.out, d) :=
  scan_cons.mpr ⟨(.inString, d), rfl, scan_append.mpr ⟨_, scan_stringBody h, rfl⟩⟩

theorem scan_whitespace (h : Whitespace t) : scan (.out, d) t = some (.out, d) := by
  apply scan_plain
  intro c hc
  have hwhite := h c hc
  simp only [isWhitespace, Bool.or_eq_true, decide_eq_true_eq] at hwhite
  rcases hwhite with ((rfl | rfl) | rfl) | rfl <;> decide

theorem scan_braces (h : scan (.out, d + 1) t = some (.out, d + 1)) :
    scan (.out, d) (openBrace :: (t ++ [closeBrace])) = some (.out, d) :=
  scan_cons.mpr ⟨(.out, d + 1), rfl, scan_append.mpr ⟨_, h, rfl⟩⟩

def isBare (c : Char) : Bool := c.isAlphanum || c = '+' || c = '-' || c = '.'

theorem isBare_digit {c : Char} (hc : c.isDigit = true) : isBare c = true := by
  rw [isBare, Char.isAlphanum, hc, Bool.or_true, Bool.true_or, Bool.true_or, Bool.true_or]

theorem isBare_sign {sign : List Char} (h : sign ∈ [[], ['+'], ['-']]) : ∀ c ∈ sign, isBare c = true := by
  simp only [List.mem_cons, List.not_mem_nil, or_false] at h
  rcases h with rfl | rfl | rfl
  · exact List.forall_mem_nil _
  · exact List.forall_mem_singleton.mpr rfl
  · exact List.forall_mem_singleton.mpr rfl

theorem number_bare (h : NumberText t) : t ≠ [] ∧ ∀ c ∈ t, isBare c = true := by
  obtain ⟨sign, i, f, e, rfl, hsign, hi, hf, he⟩ := h
  have hdigits {t : List Char} (ht : ∀ c ∈ t, c.isDigit = true) : ∀ c ∈ t, isBare c = true :=
    fun c hc => isBare_digit (ht c hc)
  have hsign' : ∀ c ∈ sign, isBare c = true := isBare_sign (by simp at hsign ⊢; tauto)
  have hi' : i ≠ [] ∧ ∀ c ∈ i, isBare c = true := by
    cases hi with
    | zero => exact ⟨List.cons_ne_nil _ _, List.forall_mem_singleton.mpr rfl⟩
    | digits hc ht =>
      exact ⟨List.cons_ne_nil _ _, List.forall_mem_cons.mpr ⟨isBare_digit hc.1, hdigits ht⟩⟩
  have hf' : ∀ c ∈ f, isBare c = true := by
    cases hf with
    | none => exact List.forall_mem_nil _
    | digits ht => exact List.forall_mem_cons.mpr ⟨rfl, hdigits ht.2⟩
  have he' : ∀ c ∈ e, isBare c = true := by
    cases he with
    | none => exact List.forall_mem_nil _
    | digits he hsign ht =>
      refine List.forall_mem_cons.mpr ⟨by rcases he with rfl | rfl <;> rfl, ?_⟩
      exact List.forall_mem_append.mpr ⟨isBare_sign hsign, hdigits ht.2⟩
  constructor
  · exact List.append_ne_nil_of_right_ne_nil _ (List.append_ne_nil_of_left_ne_nil hi'.1 _)
  · simp only [List.forall_mem_append]
    exact ⟨hsign', hi'.2, hf', he'⟩

theorem word_bare {w : String} (hw : w ∈ words) : w.toList ≠ [] ∧ ∀ c ∈ w.toList, isBare c = true := by
  have hbare : words.all (fun w => !w.toList.isEmpty && w.toList.all isBare) = true := rfl
  have h := List.all_eq_true.mp hbare w hw
  rw [Bool.and_eq_true, List.all_eq_true] at h
  exact ⟨by simpa using h.1, h.2⟩

theorem scan_bare (h : ∀ c ∈ t, isBare c = true) : scan (.out, d) t = some (.out, d) := by
  apply scan_plain
  intro c hc
  have hbare := h c hc
  simp only [isPlain, Bool.and_eq_true, decide_eq_true_eq]
  refine ⟨⟨⟨?_, ?_⟩, ?_⟩, ?_⟩
  all_goals
    rintro rfl
    exact absurd hbare (by decide)

theorem derives_scan {symbol : Symbol} (h : Derives symbol t) (d : ℕ) : scan (.out, d) t = some (.out, d) := by
  induction h generalizing d with
  | word hw => exact scan_bare (word_bare hw).2
  | number ht => exact scan_bare (number_bare ht).2
  | string ht => exact scan_quoted ht
  | emptyArray ht => exact scan_cons.mpr ⟨_, rfl, scan_append.mpr ⟨_, scan_whitespace ht, rfl⟩⟩
  | array ht ih => exact scan_cons.mpr ⟨_, rfl, scan_append.mpr ⟨_, ih d, rfl⟩⟩
  | ofObject ht ih => exact ih d
  | emptyObject ht => exact scan_braces (scan_whitespace ht)
  | object ht ih => exact scan_braces (ih (d + 1))
  | lastMember ht ih => exact ih d
  | members ht hu iht ihu => exact scan_append.mpr ⟨_, iht d, scan_cons.mpr ⟨_, rfl, ihu d⟩⟩
  | member ha hk hb ht ih =>
    refine scan_append.mpr ⟨_, scan_whitespace ha, scan_append.mpr ⟨_, scan_quoted hk, ?_⟩⟩
    exact scan_append.mpr ⟨_, scan_whitespace hb, scan_cons.mpr ⟨_, rfl, ih d⟩⟩
  | lastElement ht ih => exact ih d
  | elements ht hu iht ihu => exact scan_append.mpr ⟨_, iht d, scan_cons.mpr ⟨_, rfl, ihu d⟩⟩
  | element ha ht hb ih => exact scan_append.mpr ⟨_, scan_whitespace ha, scan_append.mpr ⟨_, ih d, scan_whitespace hb⟩⟩

theorem object_braces (h : Derives .object o) :
    ∃ t, o = openBrace :: (t ++ [closeBrace]) ∧ scan (.out, 0) t = some (.out, 0) := by
  cases h with
  | @emptyObject t ht => exact ⟨t, rfl, scan_whitespace ht⟩
  | @object t ht => exact ⟨t, rfl, derives_scan ht 0⟩

theorem object_last (ho : Derives .object (w ++ v)) (hv : v ≠ []) : ∃ x, v = x ++ [closeBrace] := by
  obtain ⟨t, heq, -⟩ := object_braces ho
  obtain rfl | ⟨x, c, rfl⟩ := List.eq_nil_or_concat v
  · exact absurd rfl hv
  · rw [List.concat_eq_append, ← List.append_assoc, ← List.cons_append] at heq
    obtain ⟨-, hc⟩ := List.append_inj' heq rfl
    exact ⟨x, by rw [List.concat_eq_append, hc]⟩

theorem object_prefix (ho : Derives .object (w ++ v)) (hw : w ≠ []) (hv : v ≠ []) {m : Mode}
    (h : scan (.out, 0) w = some (m, d)) : 1 ≤ d := by
  obtain ⟨x, rfl⟩ := object_last ho hv
  obtain ⟨t, heq, ht⟩ := object_braces ho
  obtain ⟨c, w, rfl⟩ := List.exists_cons_of_ne_nil hw
  rw [List.cons_append, ← List.append_assoc] at heq
  obtain ⟨rfl, hbody⟩ := List.cons.inj heq
  obtain ⟨rfl, -⟩ := List.append_inj' hbody rfl
  obtain ⟨⟨n, e⟩, hn, -⟩ := scan_append.mp ht
  obtain ⟨s, hs, hw⟩ := scan_cons.mp h
  cases hs
  rw [scan_shift 1 hn] at hw
  cases hw
  omega

theorem object_suffix (ho : Derives .object (w ++ v)) (hv : Derives .object v) : w = [] := by
  by_contra hw
  obtain ⟨t, rfl, -⟩ := object_braces hv
  obtain ⟨⟨m, d⟩, hm, hrest⟩ := scan_append.mp (derives_scan ho 0)
  have hdepth := object_prefix ho hw (List.cons_ne_nil _ _) hm
  have hv := derives_scan hv 0
  cases m with
  | out =>
    have hshift := scan_shift d hv
    rw [Nat.zero_add, hrest] at hshift
    cases hshift
    omega
  | inString =>
    rcases scan_opposite (.inl ⟨rfl, rfl⟩) hv hrest with ⟨-, h⟩ | ⟨h, -⟩
    · cases h
    · cases h
  | escaped =>
    obtain ⟨s, hs, -⟩ := scan_cons.mp hrest
    cases hs

theorem object_unfinished (ho : Derives .object (v ++ w)) (hv : Derives .object v) : w = [] := by
  by_contra hw
  have hscan := derives_scan hv 0
  obtain ⟨t, rfl, -⟩ := object_braces hv
  have hdepth := object_prefix ho (List.cons_ne_nil _ _) hw hscan
  omega

theorem value_cases (h : Derives .value t) : (t ≠ [] ∧ ∀ c ∈ t, isBare c = true) ∨ (∃ u, t = quote :: u) ∨
    (∃ u, t = '[' :: u) ∨ Derives .object t := by
  cases h with
  | word hw => exact .inl (word_bare hw)
  | number ht => exact .inl (number_bare ht)
  | string ht => exact .inr (.inl ⟨_, rfl⟩)
  | emptyArray ht => exact .inr (.inr (.inl ⟨_, rfl⟩))
  | array ht => exact .inr (.inr (.inl ⟨_, rfl⟩))
  | ofObject ht => exact .inr (.inr (.inr ht))

theorem value_first (h : Derives .value t) :
    ∃ c u, t = c :: u ∧ (isBare c = true ∨ c = quote ∨ c = '[' ∨ c = openBrace) := by
  rcases value_cases h with ⟨hne, hbare⟩ | ⟨u, rfl⟩ | ⟨u, rfl⟩ | hobject
  · obtain ⟨c, u, rfl⟩ := List.exists_cons_of_ne_nil hne
    exact ⟨c, u, rfl, .inl (hbare c List.mem_cons_self)⟩
  · exact ⟨quote, u, rfl, .inr (.inl rfl)⟩
  · exact ⟨'[', u, rfl, .inr (.inr (.inl rfl))⟩
  · obtain ⟨u, rfl, -⟩ := object_braces hobject
    exact ⟨openBrace, _, rfl, .inr (.inr (.inr rfl))⟩

theorem element_ne_nil (h : Derives .element t) : t ≠ [] := by
  cases h with
  | element ha hv hb =>
    obtain ⟨c, u, rfl, -⟩ := value_first hv
    simp

theorem value_object (h : Derives .value (openBrace :: t)) : Derives .object (openBrace :: t) := by
  rcases value_cases h with ⟨-, hbare⟩ | ⟨u, hu⟩ | ⟨u, hu⟩ | hobject
  · exact absurd (hbare openBrace List.mem_cons_self) (by decide)
  · cases hu
  · cases hu
  · exact hobject

theorem element_first {c : Char} (h : Derives .element (c :: t)) (hc : isWhitespace c = false) :
    ∃ v b, c :: t = v ++ b ∧ Derives .value v ∧ Whitespace b := by
  generalize hs : c :: t = s at h
  cases h with
  | @element a v b ha hv hb =>
    cases a with
    | nil => exact ⟨v, b, rfl, hv, hb⟩
    | cons x a =>
      obtain ⟨rfl, -⟩ := List.cons.inj hs
      rw [ha c List.mem_cons_self] at hc
      cases hc

end Texts

end TokensThatSuffice.JsonTexts
