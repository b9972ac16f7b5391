import Mathlib.Data.List.Sort
import TokensThatSuffice.PythonValues
import TokensThatSuffice.SortedKeys

namespace TokensThatSuffice

/-- What `json.loads` raises: the text of the exception and whether it is a `JSONDecodeError`. -/
structure LoadsError where
  text : String
  isDecodeError : Bool

structure Decoder extends Python where
  loadsError : String → LoadsError

def rfind (s needle : String) : Option ℕ :=
  (List.range (s.length + 1)).reverse.find? (fun i => needle.toList.isPrefixOf (s.toList.drop i))

/-- `s.split(c, 1)[-1]` -/
def afterFirst (c : Char) (s : String) : String :=
  match s.toList.dropWhile (· ≠ c) with
  | [] => s
  | _ :: rest => String.ofList rest

/-- `s.rsplit(needle, 1)[0]` -/
def beforeLast (needle s : String) : String :=
  match rfind s needle with
  | some i => String.ofList (s.toList.take i)
  | none => s

def stripFences (raw : String) : String :=
  let text := strip raw
  if startsWith text "```" then strip (beforeLast "```" (afterFirst '\n' text)) else text

section Parsing

variable (dec : Decoder)

def loads (text : String) : Except LoadsError Json :=
  match dec.loads text with
  | some v => .ok v
  | none => .error (dec.loadsError text)

def loadObject (text : String) : Except String Json :=
  match loads dec text with
  | .ok v => .ok v
  | .error e =>
    if e.isDecodeError then
      -- the first `\x7b` to the last `\x7d`
      match find text "\x7b", rfind text "\x7d" with
      | some start, some stop =>
        if stop ≤ start then .error "no JSON object found in theme output"
        else
          match loads dec (String.ofList ((text.toList.take (stop + 1)).drop start)) with
          | .ok v => .ok v
          | .error e => .error (if e.isDecodeError then "theme output not JSON: " ++ e.text else e.text)
      | _, _ => .error "no JSON object found in theme output"
    else .error e.text

def parseSubtasks (raw : String) : Except String (List Json) := do
  let data ← loadObject dec (stripFences raw)
  match data with
  | .object fields =>
    match fields.lookup "subtasks" with
    | some (.array (t :: ts)) => return t :: ts
    | _ => .error "theme output missing non-empty 'themes' list"
  | _ => .error "theme output missing non-empty 'themes' list"

end Parsing

section Conversion

/-- The digit zero of each script, as of Unicode 14; the nine characters after it are the digits 1 to 9. -/
def digitZeros : List ℕ :=
  [0x30, 0x660, 0x6f0, 0x7c0, 0x966, 0x9e6, 0xa66, 0xae6, 0xb66, 0xbe6, 0xc66, 0xce6, 0xd66, 0xde6, 0xe50, 0xed0,
    0xf20, 0x1040, 0x1090, 0x17e0, 0x1810, 0x1946, 0x19d0, 0x1a80, 0x1a90, 0x1b50, 0x1bb0, 0x1c40, 0x1c50, 0xa620,
    0xa8d0, 0xa900, 0xa9d0, 0xa9f0, 0xaa50, 0xabf0, 0xff10, 0x104a0, 0x10d30, 0x11066, 0x110f0, 0x11136, 0x111d0,
    0x112f0, 0x11450, 0x114d0, 0x11650, 0x116c0, 0x11730, 0x118e0, 0x11950, 0x11c50, 0x11d50, 0x11da0, 0x16a60,
    0x16ac0, 0x16b50, 0x1d7ce, 0x1d7d8, 0x1d7e2, 0x1d7ec, 0x1d7f6, 0x1e140, 0x1e2f0, 0x1e950, 0x1fbf0]

def digitValue (c : Char) : Option ℕ :=
  (digitZeros.find? (fun z => z ≤ c.toNat ∧ c.toNat ≤ z + 9)).map (c.toNat - ·)

def readDigits : Bool → List Char → Option (List ℕ)
  | afterDigit, [] => if afterDigit then some [] else none
  | afterDigit, c :: rest =>
    if c = '_' then (if afterDigit then readDigits false rest else none)
    else do
      let d ← digitValue c
      let ds ← readDigits true rest
      return d :: ds

def isIntSpace (c : Char) : Bool := isSpace c && !(0x1c ≤ c.toNat && c.toNat ≤ 0x1f)

def readUnsigned (negative : Bool) (digits : List Char) : Option ℤ := do
  let ds ← readDigits false digits
  let n : ℕ := ds.foldl (fun n d => 10 * n + d) 0
  if ds.length ≤ 4300 then (if negative then some (-n : ℤ) else some (n : ℤ)) else none

/-- `int` of a string, with the interpreter's default limit of 4300 digits. -/
def intOfString (s : String) : Option ℤ :=
  match (rstrip isIntSpace (String.ofList (s.toList.dropWhile isIntSpace))).toList with
  | '-' :: digits => readUnsigned true digits
  | '+' :: digits => readUnsigned false digits
  | digits => readUnsigned false digits

def Json.toInt : Json → Except PyError ℤ
  | .bool b => .ok (if b then 1 else 0)
  | .int n => .ok n
  | .float (.finite q) => .ok (q.num.tdiv q.den)
  | .float .nan => .error (.valueError "cannot convert float NaN to integer")
  | .float _ => .error (.other "OverflowError")
  | .str s =>
    match intOfString s with
    | some n => .ok n
    | none => .error (.valueError "invalid literal for int() with base 10")
  | _ => .error .typeError

example : intOfString " -1_0\n" = some (-10) := by decide

end Conversion

section Sorting

def Json.getKey (t : Json) (key : String) : Except PyError (Option Json) :=
  match t with
  | .object fields => .ok (fields.lookup key)
  | _ => .error .attributeError

def PyFloat.lt : PyFloat → PyFloat → Bool
  | .nan, _ => false
  | _, .nan => false
  | .finite a, .finite b => a < b
  | .negInf, y => y ≠ .negInf
  | x, .posInf => x ≠ .posInf
  | _, .negInf => false
  | .posInf, _ => false

def Json.number? : Json → Option PyFloat
  | .bool b => some (.finite (if b then 1 else 0))
  | .int n => some (.finite n)
  | .float x => some x
  | _ => none

def Json.str? : Json → Option String
  | .str s => some s
  | _ => none

def Json.lt (a b : Json) : Bool :=
  match a.number?, b.number?, a.str?, b.str? with
  | some x, some y, _, _ => x.lt y
  | _, _, some s, some t => s < t
  | _, _, _, _ => false

/-- Numbers compare with numbers and strings with strings. Arrays are left out: `int` refuses them right
after the sort with the same `TypeError`. -/
def comparable (keys : List Json) : Bool :=
  keys.length ≤ 1 || keys.all (·.number?.isSome) || keys.all (·.str?.isSome)

def sortKey (t : Json) : Except PyError Json := do
  let v ← t.getKey "start_idx"
  return v.getD (.int 0)

/-- `sorted(themes, key=lambda t: t.get("start_idx", 0))`; with a NaN among the keys the order is not the
interpreter's, but then `int` raises in any order. -/
def sortThemes (themes : List Json) : Except PyError (List Json) := do
  let keys ← themes.mapM sortKey
  if comparable keys then
    return ((keys.zip themes).mergeSort (fun a b => !b.1.lt a.1)).map (·.2)
  else .error .typeError

theorem sortThemes_perm {themes sorted : List Json} (h : sortThemes themes = .ok sorted) : sorted.Perm themes := by
  obtain ⟨keys, hkeys, h⟩ := bind_eq_ok.mp h
  have hlen := length_of_mapM_ok hkeys
  split_ifs at h
  cases h
  have hperm := (List.mergeSort_perm (keys.zip themes) (fun a b => !b.1.lt a.1)).map (·.2)
  rwa [List.map_snd_zip hlen.ge] at hperm

theorem Json.lt_int (m n : ℤ) : Json.lt (.int m) (.int n) = decide (m < n) := by
  simp only [Json.lt, Json.number?, PyFloat.lt, Rat.intCast_lt_intCast]

theorem sortThemes_eq {key : Json → ℤ} {themes ordered : List Json} (hperm : themes.Perm ordered)
    (hkey : ∀ t ∈ themes, sortKey t = .ok (.int (key t))) (hord : ordered.Pairwise (fun a b => key a < key b)) :
    sortThemes themes = .ok ordered := by
  have hkeys : themes.mapM sortKey = .ok (themes.map (fun t => .int (key t))) := mapM_eq_map hkey
  have hcomparable : comparable (themes.map (fun t => .int (key t))) = true := by
    simp [comparable, Json.number?]
  have hzip : (themes.map (fun t => Json.int (key t))).zip themes = themes.map (fun t => (.int (key t), t)) :=
    List.map_prod_right_eq_zip.symm
  have hmap := List.map_mergeSort (r := fun a b => !decide (key b < key a))
    (s := fun a b : Json × Json => !b.1.lt a.1) (f := fun t => (Json.int (key t), t)) (l := themes)
    (fun a _ b _ => by rw [Json.lt_int])
  rw [sortThemes, hkeys, ok_bind, if_pos hcomparable, hzip, ← hmap, SortedKeys.mergeSort_not_lt key hperm hord,
    List.map_map]
  simp [Function.comp_def]

end Sorting

end TokensThatSuffice
