import TokensThatSuffice.PatchReversal

namespace TokensThatSuffice.Patch

open SpanMatching

structure Range where
  start : ℕ
  count : Option ℕ

def Range.text (r : Range) : Line :=
  Nat.toDigits 10 r.start ++ (r.count.map fun n => ',' :: Nat.toDigits 10 n).getD []

inductive Block where
  | context (text : Line) (noNewline : Bool)
  | change (removed : List Line) (noNewlineRemoved : Bool) (added : List Line) (noNewlineAdded : Bool)

def Block.lines : Block → List Line
  | .context text noNewline => (' ' :: text) :: marker noNewline
  | .change removed m added n => removed.map ('-' :: ·) ++ marker m ++ (added.map ('+' :: ·) ++ marker n)

def Block.reversed : Block → Block
  | .context text noNewline => .context text noNewline
  | .change removed m added n => .change added n removed m

structure FormedChange (removed : List Line) (m : Bool) (added : List Line) (n : Bool) : Prop where
  texts : ∀ text ∈ removed ++ added, '\n' ∉ text
  changes : removed ≠ [] ∨ added ≠ []
  marksRemoved : m = true → removed ≠ []
  marksAdded : n = true → added ≠ []

def Block.Formed : Block → Prop
  | .context text _ => '\n' ∉ text
  | .change removed m added n => FormedChange removed m added n

def Block.isContext : Block → Bool
  | .context .. => true
  | .change .. => false

def Block.Apart (b c : Block) : Prop := b.isContext = true ∨ c.isContext = true

structure Hunk where
  oldRange : Range
  newRange : Range
  heading : Line
  blocks : List Block
  heading_plain : '\n' ∉ heading
  formed : ∀ b ∈ blocks, b.Formed
  apart : blocks.IsChain Block.Apart

def Hunk.header (h : Hunk) : Line :=
  "@@ -".toList ++ h.oldRange.text ++ " +".toList ++ h.newRange.text ++ " @@".toList ++ h.heading

def Hunk.lines (h : Hunk) : List Line := h.header :: h.blocks.flatMap Block.lines

structure Index where
  oldHash : Line
  newHash : Line
  mode : Option Line
  oldHash_spans : Spans isHashChar oldHash
  newHash_spans : Spans isHashChar newHash
  mode_plain : ∀ m ∈ mode, '\n' ∉ m

def Index.line (index : Index) : Line :=
  "index ".toList ++ index.oldHash ++ "..".toList ++ index.newHash ++ (index.mode.map (' ' :: ·)).getD []

structure HeaderLine (line : Line) : Prop where
  plain : '\n' ∉ line
  not_diff : startsWith "diff " line = false
  not_index : startsWith "index " line = false
  not_ranges : startsWith "@@" line = false

structure FileDiff where
  command : Line
  extended : List Line
  index : Option Index
  paths : List Line
  hunks : List Hunk
  command_plain : '\n' ∉ command
  extended_header : ∀ line ∈ extended, HeaderLine line
  paths_header : ∀ line ∈ paths, HeaderLine line

def FileDiff.body (f : FileDiff) : List Line :=
  f.extended ++ (f.index.map Index.line).toList ++ f.paths ++ f.hunks.flatMap Hunk.lines

def FileDiff.lines (f : FileDiff) : List Line := ("diff ".toList ++ f.command) :: f.body

def lastLine (finalNewline : Bool) : List Line := if finalNewline then [[]] else []

def diffLines (files : List FileDiff) (finalNewline : Bool) : List Line :=
  files.flatMap FileDiff.lines ++ lastLine finalNewline

structure Diff where
  files : List FileDiff
  finalNewline : Bool
  multiLine : 1 < (diffLines files finalNewline).length

def Diff.lines (d : Diff) : List Line := diffLines d.files d.finalNewline

def Diff.text (d : Diff) : List Char := ['\n'].intercalate d.lines

section Starts

theorem Hunk.header_start (h : Hunk) : ∃ s, h.header = "@@ -".toList ++ s := by
  unfold Hunk.header
  simp only [List.append_assoc]
  exact ⟨_, rfl⟩

theorem Index.line_start (index : Index) : ∃ s, index.line = "index ".toList ++ s := by
  unfold Index.line
  simp only [List.append_assoc]
  exact ⟨_, rfl⟩

end Starts

section Reversal

theorem FormedChange.reversed {removed added : List Line} {m n : Bool} (h : FormedChange removed m added n) :
    FormedChange added n removed m where
  texts text htext := h.texts text (by simpa [or_comm] using htext)
  changes := h.changes.symm
  marksRemoved := h.marksAdded
  marksAdded := h.marksRemoved

theorem Block.Formed.reversed {b : Block} (h : b.Formed) : b.reversed.Formed := by
  cases b with
  | context text noNewline => exact h
  | change removed m added n => exact FormedChange.reversed h

theorem Block.isContext_reversed (b : Block) : b.reversed.isContext = b.isContext := by cases b <;> rfl

def Hunk.reversed (h : Hunk) : Hunk where
  oldRange := h.newRange
  newRange := h.oldRange
  heading := h.heading
  blocks := h.blocks.map Block.reversed
  heading_plain := h.heading_plain
  formed := List.forall_mem_map.mpr fun b hb => (h.formed b hb).reversed
  apart := by
    have happart (b c : Block) : Block.Apart b.reversed c.reversed ↔ Block.Apart b c := by
      rw [Block.Apart, Block.isContext_reversed, Block.isContext_reversed, Block.Apart]
    rw [List.isChain_map]
    simpa only [happart] using h.apart

def Index.reversed (index : Index) : Index where
  oldHash := index.newHash
  newHash := index.oldHash
  mode := index.mode
  oldHash_spans := index.newHash_spans
  newHash_spans := index.oldHash_spans
  mode_plain := index.mode_plain

def FileDiff.reversed (f : FileDiff) : FileDiff where
  command := f.command
  extended := f.extended
  index := f.index.map Index.reversed
  paths := f.paths
  hunks := f.hunks.map Hunk.reversed
  command_plain := f.command_plain
  extended_header := f.extended_header
  paths_header := f.paths_header

theorem length_flatMap_map {α : Type} {lines : α → List Line} {g : α → α}
    (h : ∀ x, (lines (g x)).length = (lines x).length) (xs : List α) :
    ((xs.map g).flatMap lines).length = (xs.flatMap lines).length := by
  rw [List.length_flatMap, List.length_flatMap, List.map_map]
  congr 2
  funext x
  exact h x

theorem Block.length_lines_reversed (b : Block) : b.reversed.lines.length = b.lines.length := by
  cases b with
  | context text noNewline => rfl
  | change removed m added n =>
    simp only [Block.reversed, Block.lines, List.length_append, List.length_map]
    omega

theorem Hunk.length_lines_reversed (h : Hunk) : h.reversed.lines.length = h.lines.length := by
  rw [Hunk.lines, Hunk.lines, List.length_cons, List.length_cons]
  exact congrArg (· + 1) (length_flatMap_map Block.length_lines_reversed h.blocks)

theorem FileDiff.length_lines_reversed (f : FileDiff) : f.reversed.lines.length = f.lines.length := by
  have hhunks : (f.reversed.hunks.flatMap Hunk.lines).length = (f.hunks.flatMap Hunk.lines).length :=
    length_flatMap_map Hunk.length_lines_reversed f.hunks
  have hindex : (f.reversed.index.map Index.line).toList.length = (f.index.map Index.line).toList.length := by
    cases hindex : f.index <;> simp [FileDiff.reversed, hindex]
  simp only [FileDiff.lines, FileDiff.body, List.length_cons, List.length_append, hhunks, hindex]
  rfl

def Diff.reversed (d : Diff) : Diff where
  files := d.files.map FileDiff.reversed
  finalNewline := d.finalNewline
  multiLine := by
    have hlines := length_flatMap_map FileDiff.length_lines_reversed d.files
    have hmulti := d.multiLine
    simp only [diffLines, List.length_append] at hmulti ⊢
    omega

theorem Block.reversed_reversed (b : Block) : b.reversed.reversed = b := by cases b <;> rfl

theorem Hunk.reversed_reversed (h : Hunk) : h.reversed.reversed = h := by
  have hblocks : (h.blocks.map Block.reversed).map Block.reversed = h.blocks := by
    simp [Function.comp_def, Block.reversed_reversed]
  simp only [Hunk.reversed, hblocks]

theorem FileDiff.reversed_reversed (f : FileDiff) : f.reversed.reversed = f := by
  have hindex : (f.index.map Index.reversed).map Index.reversed = f.index := by
    cases f.index <;> rfl
  have hhunks : (f.hunks.map Hunk.reversed).map Hunk.reversed = f.hunks := by
    simp [Function.comp_def, Hunk.reversed_reversed]
  simp only [FileDiff.reversed, hindex, hhunks]

theorem Diff.reversed_reversed (d : Diff) : d.reversed.reversed = d := by
  have hfiles : (d.files.map FileDiff.reversed).map FileDiff.reversed = d.files := by
    simp [Function.comp_def, FileDiff.reversed_reversed]
  simp only [Diff.reversed, hfiles]

end Reversal

section Plain

theorem marker_plain (noNewline : Bool) : ∀ line ∈ marker noNewline, '\n' ∉ line := by
  cases noNewline with
  | false => exact List.forall_mem_nil _
  | true => exact List.forall_mem_singleton.mpr (by decide)

theorem Block.lines_plain {b : Block} (h : b.Formed) : ∀ line ∈ b.lines, '\n' ∉ line := by
  have hsigned {sign : Char} (hsign : '\n' ≠ sign) {texts : List Line} (htexts : ∀ text ∈ texts, '\n' ∉ text) :
      ∀ line ∈ texts.map (sign :: ·), '\n' ∉ line :=
    List.forall_mem_map.mpr fun text htext => List.not_mem_cons_of_ne_of_not_mem hsign (htexts text htext)
  cases b with
  | context text noNewline =>
    exact List.forall_mem_cons.mpr ⟨List.not_mem_cons_of_ne_of_not_mem (by decide) h, marker_plain noNewline⟩
  | change removed m added n =>
    obtain ⟨hremoved, hadded⟩ := List.forall_mem_append.mp (FormedChange.texts h)
    simp only [Block.lines, List.forall_mem_append]
    exact ⟨⟨hsigned (by decide) hremoved, marker_plain m⟩, hsigned (by decide) hadded, marker_plain n⟩

theorem toDigits_plain (n : ℕ) : '\n' ∉ Nat.toDigits 10 n := fun h => absurd (toDigits_isDigit _ h) (by decide)

theorem Range.text_plain (r : Range) : '\n' ∉ r.text := by
  obtain ⟨start, count⟩ := r
  cases count <;> simp [Range.text, toDigits_plain]

theorem Hunk.lines_plain (h : Hunk) : ∀ line ∈ h.lines, '\n' ∉ line := by
  rw [Hunk.lines, List.forall_mem_cons]
  constructor
  · unfold Hunk.header
    simp [Range.text_plain, h.heading_plain]
  · intro line hline
    obtain ⟨b, hb, hline⟩ := List.mem_flatMap.mp hline
    exact Block.lines_plain (h.formed b hb) line hline

theorem Index.line_plain (index : Index) : '\n' ∉ index.line := by
  have hhash {hash : Line} (h : Spans isHashChar hash) : '\n' ∉ hash :=
    fun hmem => absurd (h.all _ hmem) (by decide)
  have hold := hhash index.oldHash_spans
  have hnew := hhash index.newHash_spans
  unfold Index.line
  cases hmode : index.mode with
  | none => simp [hold, hnew]
  | some m => simp [hold, hnew, index.mode_plain m hmode]

theorem FileDiff.lines_plain (f : FileDiff) : ∀ line ∈ f.lines, '\n' ∉ line := by
  simp only [FileDiff.lines, FileDiff.body, List.forall_mem_cons, List.forall_mem_append]
  refine ⟨by simp [f.command_plain], ⟨⟨fun line hline => (f.extended_header line hline).plain, ?_⟩,
    fun line hline => (f.paths_header line hline).plain⟩, ?_⟩
  · intro line hline
    obtain ⟨index, -, rfl⟩ := Option.map_eq_some_iff.mp (Option.mem_toList.mp hline)
    exact index.line_plain
  · intro line hline
    obtain ⟨h, -, hline⟩ := List.mem_flatMap.mp hline
    exact h.lines_plain line hline

theorem Diff.splitOn_text (d : Diff) : d.text.splitOn '\n' = d.lines := by
  apply List.splitOn_intercalate
  · simp only [Diff.lines, diffLines, List.forall_mem_append]
    constructor
    · intro line hline
      obtain ⟨f, -, hline⟩ := List.mem_flatMap.mp hline
      exact f.lines_plain line hline
    · cases d.finalNewline <;> simp [lastLine]
  · exact List.ne_nil_of_length_pos (Nat.zero_lt_one.trans d.multiLine)

theorem Diff.newline_mem (d : Diff) : '\n' ∈ d.text := by
  by_contra hplain
  have hlength : d.lines.length = 1 := by
    rw [← d.splitOn_text, List.splitOn_eq_singleton hplain]
    rfl
  exact absurd hlength d.multiLine.ne'

end Plain

section Sides

def markLast (noNewline : Bool) : List Line → List (Line × Bool)
  | [] => []
  | [text] => [(text, noNewline)]
  | text :: next :: texts => (text, false) :: markLast noNewline (next :: texts)

def Block.oldSide : Block → List (Line × Bool)
  | .context text noNewline => [(text, noNewline)]
  | .change removed m _ _ => markLast m removed

def Block.newSide : Block → List (Line × Bool)
  | .context text noNewline => [(text, noNewline)]
  | .change _ _ added n => markLast n added

def Hunk.oldSide (h : Hunk) : List (Line × Bool) := h.blocks.flatMap Block.oldSide

def Hunk.newSide (h : Hunk) : List (Line × Bool) := h.blocks.flatMap Block.newSide

theorem Hunk.oldSide_reversed (h : Hunk) : h.reversed.oldSide = h.newSide := by
  rw [Hunk.oldSide, Hunk.reversed, List.flatMap_map, Hunk.newSide]
  congr 1
  funext b
  cases b <;> rfl

theorem Hunk.newSide_reversed (h : Hunk) : h.reversed.newSide = h.oldSide := by
  rw [← h.reversed.oldSide_reversed, h.reversed_reversed]

structure HunkExchanged (h h' : Hunk) : Prop where
  oldRange : h'.oldRange = h.newRange
  newRange : h'.newRange = h.oldRange
  heading : h'.heading = h.heading
  oldSide : h'.oldSide = h.newSide
  newSide : h'.newSide = h.oldSide

structure IndexExchanged (index index' : Index) : Prop where
  oldHash : index'.oldHash = index.newHash
  newHash : index'.newHash = index.oldHash
  mode : index'.mode = index.mode

structure FileExchanged (f f' : FileDiff) : Prop where
  command : f'.command = f.command
  extended : f'.extended = f.extended
  index : Option.Rel IndexExchanged f.index f'.index
  paths : f'.paths = f.paths
  hunks : List.Forall₂ HunkExchanged f.hunks f'.hunks

theorem hunkExchanged_reversed (h : Hunk) : HunkExchanged h h.reversed :=
  ⟨rfl, rfl, rfl, h.oldSide_reversed, h.newSide_reversed⟩

theorem fileExchanged_reversed (f : FileDiff) : FileExchanged f f.reversed := by
  refine ⟨rfl, rfl, ?_, rfl, ?_⟩
  · rw [FileDiff.reversed]
    cases f.index with
    | none => exact .none
    | some index => exact .some ⟨rfl, rfl, rfl⟩
  · exact List.forall₂_map_right_iff.mpr (List.forall₂_same.mpr fun h _ => hunkExchanged_reversed h)

end Sides

end TokensThatSuffice.Patch
