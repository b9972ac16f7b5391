import Mathlib.Algebra.GroupWithZero.Nat
import Mathlib.Data.List.Forall2
import Mathlib.Data.List.Infix
import Mathlib.Data.Rat.Defs

namespace TokensThatSuffice

inductive PyError where
  | keyError (key : String)
  | typeError
  | attributeError
  | indexError (text : String)
  | valueError (text : String)
  | zeroDivisionError
  | notImplementedError (text : String)
  | osError
  | other (text : String)
  deriving DecidableEq, Repr

inductive PyFloat where
  | finite (q : ℚ)
  | posInf
  | negInf
  | nan
  deriving DecidableEq, Repr

inductive Json where
  | null
  | bool (b : Bool)
  | int (n : ℤ)
  | float (x : PyFloat)
  | str (s : String)
  | array (xs : List Json)
  | object (fields : List (String × Json))
  deriving Repr

def Json.truthy : Json → Bool
  | .null => false
  | .bool b => b
  | .int n => n ≠ 0
  | .float x => x ≠ .finite 0
  | .str s => s ≠ ""
  | .array xs => !xs.isEmpty
  | .object fields => !fields.isEmpty

def Json.IsMapping (v : Json) : Prop := ∃ fields, v = .object fields

/-- What the code takes from the interpreter and is never inspected here: the JSON codec (`loads` is
`none` where `json.loads` raises), `repr` and the Unicode word characters of `re`. -/
structure Python where
  loads : String → Option Json
  dumps : Json → String
  dumpsIndent : Json → String
  repr : Json → String
  isWord : Char → Bool

def asciiPython : Python where
  loads s := if s = "{}" then some (.object []) else none
  dumps _ := "{}"
  dumpsIndent _ := "{}"
  repr
    | .str s => "'" ++ s ++ "'"
    | _ => "[]"
  isWord c := c.isAlphanum || c = '_'

section Errors

variable {ε α β : Type}

@[simp] theorem ok_bind (a : α) (f : α → Except ε β) : ((.ok a : Except ε α) >>= f) = f a := rfl

@[simp] theorem error_bind (e : ε) (f : α → Except ε β) :
    ((.error e : Except ε α) >>= f) = .error e := rfl

@[simp] theorem pure_eq_ok (a : α) : (pure a : Except ε α) = .ok a := rfl

theorem bind_eq_ok {x : Except ε α} {f : α → Except ε β} {b : β} :
    (x >>= f) = .ok b ↔ ∃ a, x = .ok a ∧ f a = .ok b := by
  cases x with
  | error e => simp
  | ok a => simp

theorem mapM_eq_ok {f : α → Except ε β} {xs : List α} {ys : List β} :
    xs.mapM f = .ok ys ↔ List.Forall₂ (fun x y => f x = .ok y) xs ys := by
  induction xs generalizing ys with
  | nil =>
    rw [List.mapM_nil, pure_eq_ok, Except.ok.injEq, List.forall₂_nil_left_iff, eq_comm]
  | cons x xs ih =>
    simp only [List.mapM_cons, bind_eq_ok, pure_eq_ok, Except.ok.injEq, ih, List.forall₂_cons_left_iff]
    constructor
    · rintro ⟨y, hy, rest, hrest, rfl⟩
      exact ⟨y, rest, hy, hrest, rfl⟩
    · rintro ⟨y, rest, hy, hrest, rfl⟩
      exact ⟨y, hy, rest, hrest, rfl⟩

theorem length_of_mapM_ok {f : α → Except ε β} {xs : List α} {ys : List β} (h : xs.mapM f = .ok ys) :
    ys.length = xs.length := (mapM_eq_ok.mp h).length_eq.symm

theorem mapM_eq_map {f : α → Except ε β} {g : α → β} {xs : List α} (h : ∀ x ∈ xs, f x = .ok (g x)) :
    xs.mapM f = .ok (xs.map g) := by
  rw [mapM_eq_ok, List.forall₂_map_right_iff, List.forall₂_same]
  exact h

theorem mem_of_mapM_ok {f : α → Except ε β} {xs : List α} {ys : List β} (h : xs.mapM f = .ok ys) {y : β}
    (hy : y ∈ ys) : ∃ x ∈ xs, f x = .ok y := by
  rw [mapM_eq_ok] at h
  induction h with
  | nil => cases hy
  | @cons x z xs ys hx h ih =>
    rcases List.mem_cons.mp hy with rfl | hy
    · exact ⟨x, by simp, hx⟩
    · obtain ⟨w, hw, hfw⟩ := ih hy
      exact ⟨w, List.mem_cons_of_mem x hw, hfw⟩

theorem mem_mapM_ok {f : α → Except ε β} {xs : List α} {ys : List β} (h : xs.mapM f = .ok ys) {x : α} {y : β}
    (hx : x ∈ xs) (hy : f x = .ok y) : y ∈ ys := by
  rw [mapM_eq_ok] at h
  induction h with
  | nil => cases hx
  | @cons x' z xs ys hx' h ih =>
    rcases List.mem_cons.mp hx with rfl | hx
    · rw [Except.ok.inj (hx'.symm.trans hy)]
      exact List.mem_cons_self
    · exact List.mem_cons_of_mem z (ih hx)

theorem foldlM_ok {f : β → α → Except ε β} {xs : List α} (acc : β)
    (h : ∀ acc, ∀ x ∈ xs, ∃ acc', f acc x = .ok acc') : ∃ acc', xs.foldlM f acc = .ok acc' := by
  induction xs generalizing acc with
  | nil => exact ⟨acc, rfl⟩
  | cons x xs ih =>
    obtain ⟨acc', hx⟩ := h acc x (by simp)
    rw [List.foldlM_cons, hx, ok_bind]
    apply ih
    intro acc y hy
    exact h acc y (List.mem_cons_of_mem x hy)

theorem foldlM_ok_mem {f : β → α → Except ε β} {xs : List α} {acc acc' : β}
    (h : xs.foldlM f acc = .ok acc') {x : α} (hx : x ∈ xs) : ∃ a a', f a x = .ok a' := by
  induction xs generalizing acc with
  | nil => cases hx
  | cons y xs ih =>
    rw [List.foldlM_cons] at h
    obtain ⟨b, hb, h⟩ := bind_eq_ok.mp h
    rcases List.mem_cons.mp hx with rfl | hx
    · exact ⟨acc, b, hb⟩
    · exact ih h hx

theorem mapM_ok_iff_forall {f : α → Except ε β} {xs : List α} :
    (∃ ys, xs.mapM f = .ok ys) ↔ ∀ x ∈ xs, ∃ y, f x = .ok y := by
  induction xs with
  | nil => simp
  | cons x xs ih =>
    simp only [List.mapM_cons, bind_eq_ok, pure_eq_ok, Except.ok.injEq, List.forall_mem_cons, ← ih]
    constructor
    · rintro ⟨_, y, hy, ys, hys, -⟩
      exact ⟨⟨y, hy⟩, ys, hys⟩
    · rintro ⟨⟨y, hy⟩, ys, hys⟩
      exact ⟨y :: ys, y, hy, ys, hys, rfl⟩

theorem mapM_append_ok {f : α → Except ε β} {xs ys : List α} {out : List β}
    (h : (xs ++ ys).mapM f = .ok out) :
    ∃ a b, xs.mapM f = .ok a ∧ ys.mapM f = .ok b ∧ out = a ++ b := by
  rw [List.mapM_append] at h
  obtain ⟨a, ha, h⟩ := bind_eq_ok.mp h
  obtain ⟨b, hb, h⟩ := bind_eq_ok.mp h
  cases h
  exact ⟨a, b, ha, hb, rfl⟩

end Errors

section Slices

variable {α : Type}

def sliceIndex (length : ℕ) (i : ℤ) : ℕ := if i < 0 then (i + length).toNat else min i.toNat length

def slice (xs : List α) (i j : ℤ) : List α :=
  (xs.take (sliceIndex xs.length j)).drop (sliceIndex xs.length i)

def sliceFrom (xs : List α) (i : ℤ) : List α := xs.drop (sliceIndex xs.length i)

theorem slice_natCast (xs : List α) (i j : ℕ) : slice xs i j = (xs.take j).drop i := by
  have hi : ¬ (i : ℤ) < 0 := by omega
  have hj : ¬ (j : ℤ) < 0 := by omega
  simp only [slice, sliceIndex, hi, hj, ↓reduceIte, Int.toNat_natCast]
  rw [← List.take_eq_take_min]
  rcases Nat.le_total i xs.length with h | h
  · rw [Nat.min_eq_left h]
  · have hlen : (xs.take j).length ≤ xs.length := by simp only [List.length_take]; omega
    rw [Nat.min_eq_right h, List.drop_eq_nil_of_le hlen, List.drop_eq_nil_of_le (hlen.trans h)]

theorem sliceFrom_natCast (xs : List α) (i : ℕ) : sliceFrom xs i = xs.drop i := by
  have hi : ¬ (i : ℤ) < 0 := by omega
  rw [sliceFrom, sliceIndex, if_neg hi, Int.toNat_natCast]
  rcases Nat.le_total i xs.length with h | h
  · rw [Nat.min_eq_left h]
  · rw [Nat.min_eq_right h, List.drop_length, List.drop_eq_nil_of_le h]

end Slices

section Strings

def isSpace (c : Char) : Bool :=
  c.toNat ∈ [0x20, 0x85, 0xa0, 0x1680, 0x2028, 0x2029, 0x202f, 0x205f, 0x3000] ∨
    (0x09 ≤ c.toNat ∧ c.toNat ≤ 0x0d) ∨ (0x1c ≤ c.toNat ∧ c.toNat ≤ 0x1f) ∨
    (0x2000 ≤ c.toNat ∧ c.toNat ≤ 0x200a)

def rstrip (p : Char → Bool) (s : String) : String :=
  String.ofList (s.toList.reverse.dropWhile p).reverse

def strip (s : String) : String := rstrip isSpace (String.ofList (s.toList.dropWhile isSpace))

/-- `str.lower` on ASCII letters; other characters stay as they are. -/
def lower (s : String) : String := String.ofList (s.toList.map Char.toLower)

def startsWith (s pre : String) : Bool := pre.toList.isPrefixOf s.toList

def endsWith (s suf : String) : Bool := suf.toList.isSuffixOf s.toList

def isIn (needle s : String) : Bool := s.toList.tails.any (needle.toList.isPrefixOf ·)

/-- `str.find` with a non-empty needle; `none` is Python's -1. -/
def find (s needle : String) : Option ℕ :=
  s.toList.tails.findIdx? (needle.toList.isPrefixOf ·)

def join (sep : String) : List String → String
  | [] => ""
  | [s] => s
  | s :: t :: rest => s ++ sep ++ join sep (t :: rest)

def replaceChars (old new : List Char) : ℕ → List Char → List Char
  | _, [] => []
  | 0, s => s
  | fuel + 1, c :: s =>
    if old.isPrefixOf (c :: s) then new ++ replaceChars old new fuel ((c :: s).drop old.length)
    else c :: replaceChars old new fuel s

/-- `str.replace` with a non-empty `old`, left to right and without overlap. -/
def replace (s old new : String) : String :=
  String.ofList (replaceChars old.toList new.toList s.length s.toList)

def isLineBreak (c : Char) : Bool :=
  c.toNat ∈ [0x0a, 0x0b, 0x0c, 0x0d, 0x1c, 0x1d, 0x1e, 0x85, 0x2028, 0x2029]

def splitLines : List Char → List Char → List (List Char)
  | [], [] => []
  | line, [] => [line.reverse]
  | line, '\r' :: '\n' :: rest => line.reverse :: splitLines [] rest
  | line, c :: rest =>
    if isLineBreak c then line.reverse :: splitLines [] rest else splitLines (c :: line) rest

def splitlines (s : String) : List (List Char) := splitLines [] s.toList

theorem startsWith_append (a b : String) : startsWith (a ++ b) a = true := by
  rw [startsWith, List.isPrefixOf_iff_prefix, String.toList_append]
  exact List.prefix_append _ _

theorem length_join (sep : String) (xs : List String) :
    (join sep xs).length = (xs.map String.length).sum + sep.length * (xs.length - 1) := by
  induction xs with
  | nil => rfl
  | cons s xs ih =>
    cases xs with
    | nil => simp [join]
    | cons t rest =>
      simp only [join, String.length_append, ih, List.map_cons, List.sum_cons, List.length_cons,
        Nat.add_sub_cancel]
      rw [Nat.mul_add]
      omega

end Strings

structure Trimmed (p : Char → Bool) (cs : List Char) : Prop where
  nonempty : cs ≠ []
  first : ∀ c ∈ cs.head?, p c = false
  last : ∀ c ∈ cs.getLast?, p c = false

section Blanks

variable {p : Char → Bool} {blank cs : List Char}

theorem dropWhile_blank (hblank : ∀ c ∈ blank, p c = true) (hcs : ∀ c ∈ cs.head?, p c = false) :
    (blank ++ cs).dropWhile p = cs := by
  rw [List.dropWhile_append_of_pos hblank]
  cases cs with
  | nil => rfl
  | cons c cs => rw [List.dropWhile_cons_of_neg (by rw [hcs c rfl]; exact Bool.false_ne_true)]

theorem rstrip_blank (hblank : ∀ c ∈ blank, p c = true) (hcs : ∀ c ∈ cs.getLast?, p c = false) :
    rstrip p (String.ofList (cs ++ blank)) = String.ofList cs := by
  have hreverse : ∀ c ∈ blank.reverse, p c = true := fun c hc => hblank c (List.mem_reverse.mp hc)
  rw [rstrip, String.toList_ofList, List.reverse_append, dropWhile_blank hreverse, List.reverse_reverse]
  rw [List.head?_reverse]
  exact hcs

theorem strip_around {before after : List Char} (hbefore : ∀ c ∈ before, isSpace c = true)
    (hcs : Trimmed isSpace cs) (hafter : ∀ c ∈ after, isSpace c = true) :
    strip (String.ofList (before ++ (cs ++ after))) = String.ofList cs := by
  have hfirst : ∀ c ∈ (cs ++ after).head?, isSpace c = false := by
    rw [List.head?_append_of_ne_nil _ hcs.nonempty]
    exact hcs.first
  rw [strip, String.toList_ofList, dropWhile_blank hbefore hfirst, rstrip_blank hafter hcs.last]

theorem dropWhile_trimmed (hcs : Trimmed p cs) : cs.dropWhile p = cs := by
  have hnone : ∀ c ∈ ([] : List Char), p c = true := fun c hc => by cases hc
  exact dropWhile_blank hnone hcs.first

theorem rstrip_trimmed (hcs : Trimmed p cs) : rstrip p (String.ofList cs) = String.ofList cs := by
  have hnone : ∀ c ∈ ([] : List Char), p c = true := fun c hc => by cases hc
  have h := rstrip_blank hnone hcs.last
  rw [List.append_nil] at h
  exact h

theorem strip_ofList (hcs : Trimmed isSpace cs) : strip (String.ofList cs) = String.ofList cs := by
  rw [strip, String.toList_ofList, dropWhile_trimmed hcs, rstrip_trimmed hcs]

end Blanks

end TokensThatSuffice
