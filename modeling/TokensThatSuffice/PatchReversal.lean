import Mathlib.Data.List.DropRight
import TokensThatSuffice.SweepSpecs

namespace TokensThatSuffice.Patch

open SpanMatching

abbrev Line := List Char

def startsWith (text : String) (line : Line) : Bool := text.toList.isPrefixOf line

def isHashChar (c : Char) : Bool := ('a' ≤ c && c ≤ 'f') || c.isDigit

/-- `(index )([a-f0-9]+)\.\.([a-f0-9]+)(.*)` -/
def matchIndex (line : Line) : Option (Line × Line × Line) := do
  let rest ← literal "index ".toList line
  let (oldHash, rest) ← spanOf isHashChar rest
  let rest ← literal "..".toList rest
  let (newHash, rest) ← spanOf isHashChar rest
  return (oldHash, newHash, rest)

/-- `(\d+),?(\d*)` -/
def matchRange (s : Line) : Option (Line × Line × Line) := do
  let (start, rest) ← spanOf isDecimal s
  let rest := (literal ",".toList rest).getD rest
  return (start, rest.takeWhile isDecimal, rest.dropWhile isDecimal)

/-- `@@ -(\d+),?(\d*) \+(\d+),?(\d*) @@(.*)` -/
def matchRanges (line : Line) : Option ((Line × Line) × (Line × Line) × Line) := do
  let rest ← literal "@@ -".toList line
  let (oldStart, oldCount, rest) ← matchRange rest
  let rest ← literal " +".toList rest
  let (newStart, newCount, rest) ← matchRange rest
  let rest ← literal " @@".toList rest
  return ((oldStart, oldCount), (newStart, newCount), rest)

def swapHashes (line : Line) : Line :=
  match matchIndex line with
  | some (oldHash, newHash, rest) => "index ".toList ++ newHash ++ "..".toList ++ oldHash ++ rest
  | none => line

def rangePart (sign : Char) (start count : Line) : Line :=
  sign :: start ++ if count.isEmpty then [] else ',' :: count

def swapRanges (line : Line) : Line :=
  match matchRanges line with
  | some ((oldStart, oldCount), (newStart, newCount), rest) =>
    let oldPart := rangePart '-' newStart newCount
    let newPart := rangePart '+' oldStart oldCount
    "@@ ".toList ++ oldPart ++ ' ' :: newPart ++ " @@".toList ++ rest
  | none => line

structure Collected where
  lines : List Line
  noNewline : Bool
  rest : List Line

def Collected.add (line : Line) (noNewline : Bool) (collected : Collected) : Collected :=
  ⟨line :: collected.lines, noNewline || collected.noNewline, collected.rest⟩

def collect (sign : Char) : List Line → Collected
  | [] => ⟨[], false, []⟩
  | line :: rest =>
    if line.head? = some sign then
      match rest with
      | [] => ⟨[line.tail], false, []⟩
      | next :: rest =>
        if next.head? = some '\\' then (collect sign rest).add line.tail true
        else (collect sign (next :: rest)).add line.tail false
    else ⟨[], false, line :: rest⟩

def noNewlineMarker : Line := "\\ No newline at end of file".toList

def marker (noNewline : Bool) : List Line := if noNewline then [noNewlineMarker] else []

theorem collect_stop {sign : Char} {lines : List Line} (h : ∀ line ∈ lines.head?, line.head? ≠ some sign) :
    collect sign lines = ⟨[], false, lines⟩ := by
  cases lines with
  | nil => rfl
  | cons line rest =>
    unfold collect
    exact if_neg (h line rfl)

theorem length_collect_le (sign : Char) (lines : List Line) : (collect sign lines).rest.length ≤ lines.length := by
  fun_induction collect sign lines with
  | case1 => exact le_refl 0
  | case2 line => exact Nat.zero_le _
  | case3 line _ next rest _ ih => exact ih.trans (by simp only [List.length_cons]; omega)
  | case4 line _ next rest _ ih => exact ih.trans (by simp only [List.length_cons]; omega)
  | case5 line rest => exact le_refl _

theorem length_collect_lt {sign : Char} {line : Line} {rest : List Line} (h : line.head? = some sign) :
    (collect sign (line :: rest)).rest.length < (line :: rest).length := by
  unfold collect
  rw [if_pos h]
  cases rest with
  | nil => exact Nat.succ_pos _
  | cons next rest =>
    have hrest := length_collect_le sign rest
    have hnext := length_collect_le sign (next :: rest)
    simp only [List.length_cons] at hnext ⊢
    split_ifs <;> simp only [Collected.add] <;> omega

theorem length_change_lt {line : Line} {rest : List Line} (h : line.head? = some '-' ∨ line.head? = some '+') :
    (collect '+' (collect '-' (line :: rest)).rest).rest.length < (line :: rest).length := by
  by_cases hminus : line.head? = some '-'
  · exact (length_collect_le '+' _).trans_lt (length_collect_lt hminus)
  · have hkept : collect '-' (line :: rest) = ⟨[], false, line :: rest⟩ := collect_stop (by simpa using hminus)
    rw [hkept]
    exact length_collect_lt (h.resolve_left hminus)

def reverseHunk : List Line → List Line
  | [] => []
  | line :: rest =>
    if line.head? = some ' ' then line :: reverseHunk rest
    else if line.head? = some '-' ∨ line.head? = some '+' then
      let minus := collect '-' (line :: rest)
      let plus := collect '+' minus.rest
      plus.lines.map ('-' :: ·) ++ marker plus.noNewline ++
        (minus.lines.map ('+' :: ·) ++ marker minus.noNewline) ++ reverseHunk plus.rest
    else line :: reverseHunk rest
termination_by lines => lines.length
decreasing_by
  · exact Nat.lt_succ_self _
  · exact length_change_lt (by assumption)
  · exact Nat.lt_succ_self _

def inHunk (line : Line) : Bool := !startsWith "@@" line && !startsWith "diff " line

def reverseLines : List Line → List Line
  | [] => []
  | line :: rest =>
    if startsWith "index " line then swapHashes line :: reverseLines rest
    else if startsWith "@@" line then
      swapRanges line :: (reverseHunk (rest.takeWhile inHunk) ++ reverseLines (rest.dropWhile inHunk))
    else line :: reverseLines rest
termination_by lines => lines.length
decreasing_by
  · exact Nat.lt_succ_self _
  · exact Nat.lt_succ_of_le (List.dropWhile_sublist inHunk).length_le
  · exact Nat.lt_succ_self _

def isQuote (c : Char) : Bool := c = '\'' || c = '"'

def stripQuotes (text : List Char) : List Char := (text.dropWhile isQuote).rdropWhile isQuote

/-- `unescape` is `encode().decode('unicode_escape')`, for a diff that was read on one line. -/
def reverseDiff (unescape : List Char → Except PyError (List Char)) (diffText : List Char) :
    Except PyError (List Char) := do
  let text ←
    if "\\n".toList <:+: diffText ∧ '\n' ∉ stripQuotes diffText then unescape (stripQuotes diffText)
    else .ok diffText
  return ['\n'].intercalate (reverseLines (text.splitOn '\n'))

end TokensThatSuffice.Patch
