import TokensThatSuffice.GitDiffs

namespace TokensThatSuffice.Patch

open SpanMatching

section Headers

theorem matchIndex_line (index : Index) :
    matchIndex index.line = some (index.oldHash, index.newHash, (index.mode.map (' ' :: ·)).getD []) := by
  have hdots (s : Line) : Stops isHashChar ("..".toList ++ s) := stops_cons (by decide)
  have hmode : Stops isHashChar ((index.mode.map (' ' :: ·)).getD []) := by
    cases index.mode with
    | none => exact fun c hc => absurd hc (by simp)
    | some m => exact stops_cons (by decide)
  unfold matchIndex Index.line
  simp only [List.append_assoc, literal_append, spanOf_append index.oldHash_spans (hdots _),
    spanOf_append index.newHash_spans hmode, Option.bind_eq_bind, Option.bind_some]
  rfl

theorem swapHashes_line (index : Index) : swapHashes index.line = index.reversed.line := by
  rw [swapHashes, matchIndex_line]
  rfl

def Range.countText (r : Range) : Line := (r.count.map (Nat.toDigits 10)).getD []

theorem matchRange_text (r : Range) {s : Line} (hdigit : Stops isDecimal s) (hcomma : s.head? ≠ some ',') :
    matchRange (r.text ++ s) = some (Nat.toDigits 10 r.start, r.countText, s) := by
  obtain ⟨start, count⟩ := r
  cases count with
  | none =>
    have hliteral : literal ",".toList s = none := by
      rw [Option.eq_none_iff_forall_ne_some]
      intro rest h
      rw [literal_eq_some.mp h] at hcomma
      exact hcomma rfl
    have htext : (Range.text ⟨start, none⟩) ++ s = Nat.toDigits 10 start ++ s := by simp [Range.text]
    have htake : s.takeWhile isDecimal = [] := takeWhile_append_stops (List.forall_mem_nil _) hdigit
    have hdrop : s.dropWhile isDecimal = s := dropWhile_append_stops (List.forall_mem_nil _) hdigit
    unfold matchRange
    simp only [htext, spanOf_append (spans_toDigits start) hdigit, Option.bind_eq_bind, Option.bind_some, hliteral,
      Option.getD_none, htake, hdrop]
    rfl
  | some n =>
    have htext : (Range.text ⟨start, some n⟩) ++ s =
        Nat.toDigits 10 start ++ (",".toList ++ (Nat.toDigits 10 n ++ s)) := by
      simp [Range.text]
    have hstops : Stops isDecimal (",".toList ++ (Nat.toDigits 10 n ++ s)) := stops_cons (by decide)
    have hn := (spans_toDigits n).all
    unfold matchRange
    simp only [htext, spanOf_append (spans_toDigits start) hstops, Option.bind_eq_bind, Option.bind_some,
      literal_append, Option.getD_some, takeWhile_append_stops hn hdigit, dropWhile_append_stops hn hdigit]
    rfl

theorem rangePart_countText (sign : Char) (r : Range) :
    rangePart sign (Nat.toDigits 10 r.start) r.countText = sign :: r.text := by
  obtain ⟨start, count⟩ := r
  cases count with
  | none => rfl
  | some n => simp [rangePart, Range.countText, Range.text, Nat.toDigits_ne_nil]

theorem matchRanges_header (h : Hunk) : matchRanges h.header =
    some ((Nat.toDigits 10 h.oldRange.start, h.oldRange.countText),
      (Nat.toDigits 10 h.newRange.start, h.newRange.countText), h.heading) := by
  have hplus (s : Line) : Stops isDecimal (" +".toList ++ s) := stops_cons (by decide)
  have hend (s : Line) : Stops isDecimal (" @@".toList ++ s) := stops_cons (by decide)
  unfold matchRanges Hunk.header
  simp only [List.append_assoc, literal_append, Option.bind_eq_bind, Option.bind_some]
  rw [matchRange_text h.oldRange (hplus _) (by simp)]
  simp only [literal_append, Option.bind_some]
  rw [matchRange_text h.newRange (hend _) (by simp)]
  simp only [literal_append, Option.bind_some]
  rfl

theorem swapRanges_header (h : Hunk) : swapRanges h.header = h.reversed.header := by
  rw [swapRanges, matchRanges_header]
  unfold Hunk.header
  simp only [rangePart_countText]
  simp [Hunk.reversed]

end Headers

section Hunks

variable {sign : Char} {texts rest tail : List Line} {noNewline : Bool}

def Ends (sign : Char) (rest : List Line) : Prop :=
  ∀ line ∈ rest.head?, line.head? ≠ some sign ∧ line.head? ≠ some '\\'

theorem collect_cons {text : Line} (h : ∀ line ∈ rest.head?, line.head? ≠ some '\\') :
    collect sign ((sign :: text) :: rest) = (collect sign rest).add text false := by
  cases rest with
  | nil =>
    unfold collect
    exact if_pos rfl
  | cons next rest =>
    conv_lhs => unfold collect
    exact (if_pos rfl).trans (if_neg (h next rfl))

theorem collect_marked {text : Line} :
    collect sign ((sign :: text) :: noNewlineMarker :: rest) = (collect sign rest).add text true := by
  conv_lhs => unfold collect
  exact (if_pos rfl).trans (if_pos rfl)

theorem collect_run (hends : Ends sign rest) (hmark : noNewline = true → texts ≠ []) (hsign : sign ≠ '\\') :
    collect sign (texts.map (sign :: ·) ++ (marker noNewline ++ rest)) = ⟨texts, noNewline, rest⟩ := by
  have hstop : collect sign rest = ⟨[], false, rest⟩ := collect_stop fun line hline => (hends line hline).1
  induction texts with
  | nil =>
    cases noNewline with
    | false => exact hstop
    | true => exact absurd rfl (hmark rfl)
  | cons text texts ih =>
    cases texts with
    | nil =>
      cases noNewline with
      | false =>
        have hmarker : ∀ line ∈ rest.head?, line.head? ≠ some '\\' := fun line hline => (hends line hline).2
        exact (collect_cons hmarker).trans (congrArg (Collected.add text false) hstop)
      | true => exact collect_marked.trans (congrArg (Collected.add text true) hstop)
    | cons next texts =>
      have hnext : ∀ line ∈ ((next :: texts).map (sign :: ·) ++ (marker noNewline ++ rest)).head?,
          line.head? ≠ some '\\' := by
        rintro line ⟨⟩
        simpa using hsign
      have hrun := ih fun _ => List.cons_ne_nil next texts
      exact (collect_cons hnext).trans (congrArg (Collected.add text false) hrun)

theorem reverseHunk_kept {line : Line} (hminus : line.head? ≠ some '-') (hplus : line.head? ≠ some '+') :
    reverseHunk (line :: rest) = line :: reverseHunk rest := by
  rw [reverseHunk, if_neg (not_or.mpr ⟨hminus, hplus⟩), ite_self]

theorem reverseHunk_marker : reverseHunk (marker noNewline ++ rest) = marker noNewline ++ reverseHunk rest := by
  cases noNewline with
  | false => rfl
  | true => exact reverseHunk_kept (by decide) (by decide)

theorem reverseHunk_collect {lines : List Line}
    (h : ∃ line tail, lines = line :: tail ∧ (line.head? = some '-' ∨ line.head? = some '+'))
    {removed added : List Line} {m n : Bool} (hminus : collect '-' lines = ⟨removed, m, tail⟩)
    (hplus : collect '+' tail = ⟨added, n, rest⟩) :
    reverseHunk lines = (Block.change added n removed m).lines ++ reverseHunk rest := by
  obtain ⟨line, tail', rfl, hsigned⟩ := h
  have hspace : line.head? ≠ some ' ' := by
    rcases hsigned with h | h <;> simp [h]
  rw [reverseHunk, if_neg hspace, if_pos hsigned]
  simp only [hminus, hplus]
  rfl

theorem reverseHunk_change {removed added : List Line} {m n : Bool} (h : FormedChange removed m added n)
    (hminus : Ends '-' rest) (hplus : Ends '+' rest) :
    reverseHunk ((Block.change removed m added n).lines ++ rest) =
      (Block.change added n removed m).lines ++ reverseHunk rest := by
  have hends : Ends '-' (added.map ('+' :: ·) ++ (marker n ++ rest)) := by
    cases added with
    | nil =>
      cases n with
      | false => exact hminus
      | true => exact absurd rfl (h.marksAdded rfl)
    | cons text added =>
      rintro line ⟨⟩
      simp
  have hlines : (Block.change removed m added n).lines ++ rest =
      removed.map ('-' :: ·) ++ (marker m ++ (added.map ('+' :: ·) ++ (marker n ++ rest))) := by
    simp only [Block.lines, List.append_assoc]
  rw [hlines]
  refine reverseHunk_collect ?_ (collect_run hends h.marksRemoved (by decide))
    (collect_run hplus h.marksAdded (by decide))
  cases removed with
  | cons text removed => exact ⟨_, _, rfl, .inl rfl⟩
  | nil =>
    cases m with
    | true => exact absurd rfl (h.marksRemoved rfl)
    | false =>
      cases added with
      | nil => exact absurd h.changes (by simp)
      | cons text added => exact ⟨_, _, rfl, .inr rfl⟩

theorem ends_blocks {blocks : List Block} {b : Block} (hb : b.isContext = false)
    (hapart : (b :: blocks).IsChain Block.Apart) (hsign : sign ≠ ' ') (htail : Ends sign tail) :
    Ends sign (blocks.flatMap Block.lines ++ tail) := by
  cases blocks with
  | nil => exact htail
  | cons c blocks =>
    have hc : c.isContext = true := (List.isChain_cons_cons.mp hapart).1.resolve_left (by simp [hb])
    cases c with
    | change removed m added n => cases hc
    | context text noNewline =>
      rintro line ⟨⟩
      simpa using hsign.symm

theorem reverseHunk_blocks {blocks : List Block} (hformed : ∀ b ∈ blocks, b.Formed)
    (hapart : blocks.IsChain Block.Apart) (hminus : Ends '-' tail) (hplus : Ends '+' tail) :
    reverseHunk (blocks.flatMap Block.lines ++ tail) =
      (blocks.map Block.reversed).flatMap Block.lines ++ reverseHunk tail := by
  induction blocks with
  | nil => rfl
  | cons b blocks ih =>
    obtain ⟨hb, hblocks⟩ := List.forall_mem_cons.mp hformed
    have hrest := ih hblocks hapart.of_cons
    rw [List.map_cons, List.flatMap_cons, List.flatMap_cons, List.append_assoc, List.append_assoc, ← hrest]
    cases b with
    | context text noNewline =>
      rw [Block.lines, List.cons_append, reverseHunk_kept (by simp) (by simp), reverseHunk_marker]
      rfl
    | change removed m added n =>
      have hends {sign : Char} (hsign : sign ≠ ' ') (htail : Ends sign tail) :
          Ends sign (blocks.flatMap Block.lines ++ tail) := ends_blocks rfl hapart hsign htail
      exact reverseHunk_change hb (hends (by decide) hminus) (hends (by decide) hplus)

end Hunks

section Files

variable {rest tail : List Line}

theorem startsWith_append (text : String) (s : Line) : startsWith text (text.toList ++ s) = true :=
  List.isPrefixOf_iff_prefix.mpr (List.prefix_append text.toList s)

theorem reverseLines_kept {line : Line} (hindex : startsWith "index " line = false)
    (hranges : startsWith "@@" line = false) :
    reverseLines (line :: rest) = line :: reverseLines rest := by
  rw [reverseLines, if_neg (by simp [hindex]), if_neg (by simp [hranges])]

theorem reverseLines_header {lines : List Line} (h : ∀ line ∈ lines, HeaderLine line) :
    reverseLines (lines ++ rest) = lines ++ reverseLines rest := by
  induction lines with
  | nil => rfl
  | cons line lines ih =>
    obtain ⟨hline, hlines⟩ := List.forall_mem_cons.mp h
    rw [List.cons_append, reverseLines_kept hline.not_index hline.not_ranges, ih hlines, List.cons_append]

theorem reverseLines_index (index : Option Index) : reverseLines ((index.map Index.line).toList ++ rest) =
    ((index.map Index.reversed).map Index.line).toList ++ reverseLines rest := by
  cases index with
  | none => rfl
  | some index =>
    have hindex : startsWith "index " index.line = true := by
      obtain ⟨s, hs⟩ := index.line_start
      rw [hs]
      exact startsWith_append "index " s
    have hlines : ((some index).map Index.line).toList ++ rest = index.line :: rest := rfl
    rw [hlines, reverseLines, if_pos hindex, swapHashes_line]
    rfl

theorem blocks_inHunk {blocks : List Block} : ∀ line ∈ blocks.flatMap Block.lines, inHunk line = true := by
  have hmarker (noNewline : Bool) : ∀ line ∈ marker noNewline, inHunk line = true := by
    cases noNewline with
    | false => exact List.forall_mem_nil _
    | true => exact List.forall_mem_singleton.mpr (by decide +kernel)
  intro line hline
  obtain ⟨b, -, hline⟩ := List.mem_flatMap.mp hline
  cases b with
  | context text noNewline =>
    rcases List.mem_cons.mp hline with rfl | hline
    · rfl
    · exact hmarker noNewline line hline
  | change removed m added n =>
    simp only [Block.lines, List.mem_append, List.mem_map] at hline
    rcases hline with (⟨text, -, rfl⟩ | hline) | ⟨text, -, rfl⟩ | hline
    · rfl
    · exact hmarker m line hline
    · rfl
    · exact hmarker n line hline

inductive FollowsHunk : List Line → Prop
  | last (finalNewline : Bool) : FollowsHunk (lastLine finalNewline)
  | next {line : Line} (h : inHunk line = false) (rest : List Line) : FollowsHunk (line :: rest)

theorem FollowsHunk.takeWhile_ends {sign : Char} (h : FollowsHunk tail) : Ends sign (tail.takeWhile inHunk) := by
  cases h with
  | last finalNewline => cases finalNewline <;> simp [Ends, lastLine, inHunk, startsWith]
  | next hline rest => simp [Ends, hline]

theorem FollowsHunk.reverse (h : FollowsHunk tail) :
    reverseHunk (tail.takeWhile inHunk) ++ reverseLines (tail.dropWhile inHunk) = reverseLines tail := by
  cases h with
  | last finalNewline =>
    cases finalNewline with
    | false => simp [lastLine, reverseHunk]
    | true =>
      have hin : inHunk [] = true := rfl
      rw [lastLine, if_pos rfl, List.takeWhile_cons_of_pos hin, List.dropWhile_cons_of_pos hin,
        reverseHunk_kept (by simp) (by simp), reverseLines_kept rfl rfl]
      simp [reverseHunk]
  | next hline rest =>
    rw [List.takeWhile_cons_of_neg (by simp [hline]), List.dropWhile_cons_of_neg (by simp [hline])]
    simp [reverseHunk]

theorem reverseLines_hunk (h : Hunk) (htail : FollowsHunk tail) :
    reverseLines (h.lines ++ tail) = h.reversed.lines ++ reverseLines tail := by
  obtain ⟨s, hs⟩ := h.header_start
  have hindex : startsWith "index " h.header = false := by
    rw [hs]
    rfl
  have hranges : startsWith "@@" h.header = true := by
    rw [hs]
    rfl
  rw [Hunk.lines, List.cons_append, reverseLines, if_neg (by simp [hindex]), if_pos hranges, swapRanges_header,
    List.takeWhile_append_of_pos blocks_inHunk, List.dropWhile_append_of_pos blocks_inHunk,
    reverseHunk_blocks h.formed h.apart htail.takeWhile_ends htail.takeWhile_ends, List.append_assoc, htail.reverse]
  rfl

theorem hunk_follows (h : Hunk) (rest : List Line) : FollowsHunk (h.lines ++ rest) := by
  obtain ⟨s, hs⟩ := h.header_start
  refine .next ?_ _
  rw [hs]
  rfl

theorem reverseLines_hunks (hunks : List Hunk) (htail : FollowsHunk tail) :
    reverseLines (hunks.flatMap Hunk.lines ++ tail) =
      (hunks.map Hunk.reversed).flatMap Hunk.lines ++ reverseLines tail := by
  induction hunks with
  | nil => rfl
  | cons h hunks ih =>
    have hnext : FollowsHunk (hunks.flatMap Hunk.lines ++ tail) := by
      cases hunks with
      | nil => exact htail
      | cons h hunks =>
        rw [List.flatMap_cons, List.append_assoc]
        exact hunk_follows h _
    rw [List.flatMap_cons, List.append_assoc, reverseLines_hunk h hnext, ih, List.map_cons, List.flatMap_cons,
      List.append_assoc]

theorem reverseLines_file (f : FileDiff) (htail : FollowsHunk tail) :
    reverseLines (f.lines ++ tail) = f.reversed.lines ++ reverseLines tail := by
  simp only [FileDiff.lines, FileDiff.body, FileDiff.reversed, List.cons_append, List.append_assoc]
  rw [reverseLines_kept rfl rfl, reverseLines_header f.extended_header, reverseLines_index,
    reverseLines_header f.paths_header, reverseLines_hunks f.hunks htail]

theorem reverseLines_files (files : List FileDiff) (finalNewline : Bool) :
    reverseLines (diffLines files finalNewline) = diffLines (files.map FileDiff.reversed) finalNewline := by
  unfold diffLines
  induction files with
  | nil => cases finalNewline <;> simp [lastLine, reverseLines, startsWith]
  | cons f files ih =>
    have hnext : FollowsHunk (files.flatMap FileDiff.lines ++ lastLine finalNewline) := by
      cases files with
      | nil => exact .last finalNewline
      | cons f files => exact .next rfl _
    rw [List.flatMap_cons, List.append_assoc, reverseLines_file f hnext, ih, List.map_cons, List.flatMap_cons,
      List.append_assoc]

end Files

section Texts

variable (unescape : List Char → Except PyError (List Char))

theorem newline_mem_stripQuotes {text : List Char} (h : '\n' ∈ text) : '\n' ∈ stripQuotes text := by
  have hdrop {s : List Char} (hs : '\n' ∈ s) : '\n' ∈ s.dropWhile isQuote := by
    rw [← List.takeWhile_append_dropWhile (p := isQuote) (l := s), List.mem_append] at hs
    exact hs.resolve_left fun hmem => absurd (List.mem_takeWhile_imp hmem) (by decide)
  rw [stripQuotes, List.rdropWhile, List.mem_reverse]
  exact hdrop (List.mem_reverse.mpr (hdrop h))

theorem reverseDiff_text (d : Diff) : reverseDiff unescape d.text = .ok d.reversed.text := by
  have hread : ¬ ("\\n".toList <:+: d.text ∧ '\n' ∉ stripQuotes d.text) :=
    fun h => h.2 (newline_mem_stripQuotes d.newline_mem)
  rw [reverseDiff, if_neg hread]
  refine congrArg (fun lines => Except.ok (['\n'].intercalate lines)) ?_
  rw [d.splitOn_text]
  exact reverseLines_files d.files d.finalNewline

theorem reverseDiff_involutive (d : Diff) :
    (reverseDiff unescape d.text >>= reverseDiff unescape) = .ok d.text ∧
      ∃ e : Diff, reverseDiff unescape d.text = .ok e.text ∧ e.finalNewline = d.finalNewline ∧
        List.Forall₂ FileExchanged d.files e.files := by
  refine ⟨?_, d.reversed, reverseDiff_text unescape d, rfl, ?_⟩
  · calc (reverseDiff unescape d.text >>= reverseDiff unescape)
        = reverseDiff unescape d.reversed.text := by rw [reverseDiff_text, ok_bind]
      _ = .ok d.text := by rw [reverseDiff_text, d.reversed_reversed]
  · exact List.forall₂_map_right_iff.mpr (List.forall₂_same.mpr fun f _ => fileExchanged_reversed f)

end Texts

end TokensThatSuffice.Patch
