import TokensThatSuffice.LinePatches
import TokensThatSuffice.ReversedDiffs

namespace TokensThatSuffice.Patch

inductive Mode where
  | regular
  | executable
  | link
  | submodule
  deriving DecidableEq

def Mode.text : Mode → Line
  | .regular => "100644".toList
  | .executable => "100755".toList
  | .link => "120000".toList
  | .submodule => "160000".toList

structure Path where
  quoted : Bool
  name : Line
  name_plain : '\n' ∉ name

def Path.label (p : Path) (pre : Line) : Line :=
  if p.quoted then "\"".toList ++ (pre ++ p.name) ++ "\"".toList else pre ++ p.name

inductive Prefixes where
  | forward
  | backward

def Prefixes.old : Prefixes → Line
  | .forward => "a/".toList
  | .backward => "b/".toList

def Prefixes.new : Prefixes → Line
  | .forward => "b/".toList
  | .backward => "a/".toList

inductive Kind where
  | modify
  | changeMode (before after : Mode) (h : before ≠ after)
  | create (mode : Mode)
  | delete (mode : Mode)

def Kind.inverse : Kind → Kind
  | .modify => .modify
  | .changeMode before after h => .changeMode after before h.symm
  | .create mode => .delete mode
  | .delete mode => .create mode

def Kind.lines : Kind → List Line
  | .modify => []
  | .changeMode before after _ => ["old mode ".toList ++ before.text, "new mode ".toList ++ after.text]
  | .create mode => ["new file mode ".toList ++ mode.text]
  | .delete mode => ["deleted file mode ".toList ++ mode.text]

structure FileChange where
  path : Path
  kind : Kind
  index : Option Index
  hunks : List Hunk
  listed : kind = .modify → index.isSome = true

def FileChange.oldPath (c : FileChange) : Option Path :=
  match c.kind with
  | .create _ => none
  | _ => some c.path

def FileChange.newPath (c : FileChange) : Option Path :=
  match c.kind with
  | .delete _ => none
  | _ => some c.path

def pathText (pre : Line) : Option Path → Line
  | none => "/dev/null".toList
  | some p => p.label pre ++ if ' ' ∈ p.label pre then ['\t'] else []

def FileChange.paths (c : FileChange) (prefixes : Prefixes) : List Line :=
  if c.hunks.isEmpty then []
  else ["--- ".toList ++ pathText prefixes.old c.oldPath, "+++ ".toList ++ pathText prefixes.new c.newPath]

section Rendering

theorem plain_append {s t : Line} (hs : '\n' ∉ s) (ht : '\n' ∉ t) : '\n' ∉ s ++ t :=
  fun h => (List.mem_append.mp h).elim hs ht

theorem Path.label_plain (p : Path) {pre : Line} (hpre : '\n' ∉ pre) : '\n' ∉ p.label pre := by
  unfold Path.label
  split_ifs <;> simp [hpre, p.name_plain]

theorem Prefixes.old_plain (prefixes : Prefixes) : '\n' ∉ prefixes.old := by cases prefixes <;> decide +kernel

theorem Prefixes.new_plain (prefixes : Prefixes) : '\n' ∉ prefixes.new := by cases prefixes <;> decide +kernel

theorem Mode.text_plain (mode : Mode) : '\n' ∉ mode.text := by cases mode <;> decide +kernel

theorem pathText_plain {pre : Line} (hpre : '\n' ∉ pre) (path : Option Path) : '\n' ∉ pathText pre path := by
  cases path with
  | none =>
    have hnull : '\n' ∉ "/dev/null".toList := by decide +kernel
    exact hnull
  | some p =>
    refine plain_append (p.label_plain hpre) ?_
    split_ifs <;> simp

theorem FileChange.paths_header (c : FileChange) (prefixes : Prefixes) :
    ∀ line ∈ c.paths prefixes, HeaderLine line := by
  unfold FileChange.paths
  split_ifs
  · exact List.forall_mem_nil _
  · have hold := pathText_plain prefixes.old_plain c.oldPath
    have hnew := pathText_plain prefixes.new_plain c.newPath
    rw [List.forall_mem_cons, List.forall_mem_singleton]
    exact ⟨⟨plain_append (by decide +kernel) hold, rfl, rfl, rfl⟩,
      plain_append (by decide +kernel) hnew, rfl, rfl, rfl⟩

theorem Kind.lines_header (kind : Kind) : ∀ line ∈ kind.lines, HeaderLine line := by
  have hplain {text : Line} (htext : '\n' ∉ text) (mode : Mode) : '\n' ∉ text ++ mode.text :=
    plain_append htext mode.text_plain
  cases kind with
  | modify => exact List.forall_mem_nil _
  | changeMode before after h =>
    unfold Kind.lines
    rw [List.forall_mem_cons, List.forall_mem_singleton]
    exact ⟨⟨hplain (by decide +kernel) before, rfl, rfl, rfl⟩, hplain (by decide +kernel) after, rfl, rfl, rfl⟩
  | create mode => exact List.forall_mem_singleton.mpr ⟨hplain (by decide +kernel) mode, rfl, rfl, rfl⟩
  | delete mode => exact List.forall_mem_singleton.mpr ⟨hplain (by decide +kernel) mode, rfl, rfl, rfl⟩

end Rendering

def FileChange.toFile (prefixes : Prefixes) (c : FileChange) : FileDiff where
  command := "--git ".toList ++ (c.path.label prefixes.old ++ ' ' :: c.path.label prefixes.new)
  extended := c.kind.lines
  index := c.index
  paths := c.paths prefixes
  hunks := c.hunks
  command_plain := by
    have hold := c.path.label_plain prefixes.old_plain
    have hnew := c.path.label_plain prefixes.new_plain
    simp [hold, hnew]
  extended_header := c.kind.lines_header
  paths_header := c.paths_header prefixes

structure TreeDiff where
  prefixes : Prefixes
  changes : List FileChange
  finalNewline : Bool
  multiLine : 1 < (diffLines (changes.map (FileChange.toFile prefixes)) finalNewline).length
  once : changes.Pairwise fun c c' => c.path = c'.path → c.newPath = none ∧ c'.oldPath = none

def TreeDiff.toDiff (d : TreeDiff) : Diff :=
  ⟨d.changes.map (FileChange.toFile d.prefixes), d.finalNewline, d.multiLine⟩

def TreeDiff.text (d : TreeDiff) : List Char := d.toDiff.text

section Trees

abbrev File := Mode × List (Line × Bool)

abbrev Tree := Path → Option File

def modeOf (file : Option File) : Option Mode := file.map Prod.fst

def contentOf (file : Option File) : List (Line × Bool) := (file.map Prod.snd).getD []

def Kind.Leads : Kind → Option Mode → Option Mode → Prop
  | .modify, m, m' => m.isSome = true ∧ m' = m
  | .changeMode before after _, m, m' => m = some before ∧ m' = some after
  | .create mode, m, m' => m = none ∧ m' = some mode
  | .delete mode, m, m' => m = some mode ∧ m' = none

def Hunk.toPatch (h : Hunk) : LinePatches.Hunk (Line × Bool) where
  old := ⟨h.oldRange.start, h.oldRange.count.getD 1, h.oldSide⟩
  new := ⟨h.newRange.start, h.newRange.count.getD 1, h.newSide⟩

structure FileChange.Changes (c : FileChange) (file file' : Option File) : Prop where
  modes : c.kind.Leads (modeOf file) (modeOf file')
  lines : LinePatches.Applies 0 0 (c.hunks.map Hunk.toPatch) (contentOf file) (contentOf file')

def FileChange.edit (c : FileChange) : LinePatches.Edit Path (Option File) := ⟨c.path, c.Changes⟩

def TreeDiff.Applies (d : TreeDiff) (T T' : Tree) : Prop :=
  LinePatches.AppliesAll (d.changes.map FileChange.edit) T T'

end Trees

structure Undoes (c c' : FileChange) : Prop where
  oldPath : c'.oldPath = c.newPath
  newPath : c'.newPath = c.oldPath
  kind : c'.kind = c.kind.inverse

def InverseChange (unescape : List Char → Except PyError (List Char)) (d : TreeDiff) : Prop :=
  ∃ e : TreeDiff, reverseDiff unescape d.text = .ok e.text ∧ List.Forall₂ Undoes d.changes e.changes ∧
    ∀ T T', d.Applies T T' → ∀ S, e.Applies T' S ↔ S = T

section Reversal

variable {c : FileChange} {file file' file'' : Option File}

def FileChange.reversed (c : FileChange) : FileChange where
  path := c.path
  kind := c.kind
  index := c.index.map Index.reversed
  hunks := c.hunks.map Hunk.reversed
  listed h := by
    rw [Option.isSome_map]
    exact c.listed h

theorem FileChange.toFile_reversed (prefixes : Prefixes) (c : FileChange) :
    c.reversed.toFile prefixes = (c.toFile prefixes).reversed := by
  have hpaths : c.reversed.paths prefixes = c.paths prefixes := by
    unfold FileChange.paths
    rw [FileChange.reversed, List.isEmpty_map]
    rfl
  unfold FileChange.toFile FileDiff.reversed
  simp only [hpaths]
  rfl

def TreeDiff.reversed (d : TreeDiff) : TreeDiff where
  prefixes := d.prefixes
  changes := d.changes.map FileChange.reversed
  finalNewline := d.finalNewline
  multiLine := by
    have hmulti := d.toDiff.reversed.multiLine
    simp only [TreeDiff.toDiff, Diff.reversed, List.map_map] at hmulti ⊢
    convert hmulti using 4
    funext c
    exact c.toFile_reversed d.prefixes
  once := List.pairwise_map.mpr d.once

theorem TreeDiff.toDiff_reversed (d : TreeDiff) : d.reversed.toDiff = d.toDiff.reversed := by
  have hfiles : d.reversed.changes.map (FileChange.toFile d.prefixes) = d.toDiff.files.map FileDiff.reversed := by
    simp only [TreeDiff.reversed, TreeDiff.toDiff, List.map_map]
    congr 1
    funext c
    exact c.toFile_reversed d.prefixes
  unfold TreeDiff.toDiff Diff.reversed
  congr 1

theorem reverseDiff_treeText (unescape : List Char → Except PyError (List Char)) (d : TreeDiff) :
    reverseDiff unescape d.text = .ok d.reversed.text := by
  rw [TreeDiff.text, reverseDiff_text, ← d.toDiff_reversed, TreeDiff.text]

theorem undoes_reversed (h : c.kind = .modify) : Undoes c c.reversed := by
  constructor
  · simp [FileChange.oldPath, FileChange.newPath, FileChange.reversed, h]
  · simp [FileChange.oldPath, FileChange.newPath, FileChange.reversed, h]
  · rw [FileChange.reversed, h]
    rfl

theorem Hunk.toPatch_reversed (h : Hunk) : h.reversed.toPatch = h.toPatch.inverse := by
  unfold Hunk.toPatch
  rw [h.oldSide_reversed, h.newSide_reversed]
  rfl

theorem FileChange.Changes.reversed (h : c.kind = .modify) (hchanges : c.Changes file file') :
    c.reversed.Changes file' file := by
  have hmodes := hchanges.modes
  rw [h] at hmodes
  constructor
  · rw [FileChange.reversed, h]
    exact ⟨hmodes.2 ▸ hmodes.1, hmodes.2.symm⟩
  · have hpatches : c.reversed.hunks.map Hunk.toPatch = (c.hunks.map Hunk.toPatch).map LinePatches.Hunk.inverse := by
      simp only [FileChange.reversed, List.map_map]
      congr 1
      funext h
      exact h.toPatch_reversed
    rw [hpatches]
    exact hchanges.lines.inverse

theorem file_ext (hmode : modeOf file = modeOf file') (hcontent : contentOf file = contentOf file') :
    file = file' := by
  cases file <;> cases file' <;> simp_all [modeOf, contentOf, Prod.ext_iff]

theorem FileChange.Changes.unique (h : c.Changes file file') (h' : c.Changes file file'') : file' = file'' := by
  have hmodes := h.modes
  have hmodes' := h'.modes
  refine file_ext ?_ (h.lines.unique h'.lines)
  cases hkind : c.kind <;> rw [hkind] at hmodes hmodes' <;> exact hmodes.2.trans hmodes'.2.symm

theorem TreeDiff.applies_reversed {d : TreeDiff} (hmodify : ∀ c ∈ d.changes, c.kind = .modify) {T T' : Tree}
    (h : d.Applies T T') : d.reversed.Applies T' T := by
  have hpaths : (d.changes.map FileChange.path).Nodup := by
    rw [List.Nodup, List.pairwise_map]
    refine d.once.imp_of_mem fun {c c'} hc _ honce heq => ?_
    have hpath := (honce heq).1
    simp [FileChange.newPath, hmodify c hc] at hpath
  have hnodup : ((d.changes.map FileChange.edit).map LinePatches.Edit.key).Nodup := by
    rw [List.map_map]
    exact hpaths
  have hedits : d.reversed.changes.map FileChange.edit = d.changes.map fun c => c.reversed.edit := by
    rw [TreeDiff.reversed, List.map_map]
    rfl
  rw [TreeDiff.Applies, hedits]
  exact LinePatches.AppliesAll.inverse hnodup (fun c _ => rfl)
    (fun c hc v w hchanges => FileChange.Changes.reversed (hmodify c hc) hchanges) h

theorem inverseChange_of_modify (unescape : List Char → Except PyError (List Char)) {d : TreeDiff}
    (hmodify : ∀ c ∈ d.changes, c.kind = .modify) : InverseChange unescape d := by
  refine ⟨d.reversed, reverseDiff_treeText unescape d, ?_, ?_⟩
  · exact List.forall₂_map_right_iff.mpr (List.forall₂_same.mpr fun c hc => undoes_reversed (hmodify c hc))
  · intro T T' h S
    have hback := TreeDiff.applies_reversed hmodify h
    constructor
    · intro hS
      refine LinePatches.AppliesAll.unique ?_ hS hback
      rw [List.forall_mem_map]
      exact fun c _ x y z => FileChange.Changes.unique
    · rintro rfl
      exact hback

end Reversal

section Heads

variable {files : List FileDiff}

theorem body_not_diff (f : FileDiff) : ∀ line ∈ f.body, startsWith "diff " line = false := by
  simp only [FileDiff.body, List.forall_mem_append]
  refine ⟨⟨⟨fun line hline => (f.extended_header line hline).not_diff, ?_⟩,
    fun line hline => (f.paths_header line hline).not_diff⟩, ?_⟩
  · intro line hline
    obtain ⟨index, -, rfl⟩ := Option.map_eq_some_iff.mp (Option.mem_toList.mp hline)
    obtain ⟨s, hs⟩ := index.line_start
    rw [hs]
    rfl
  · intro line hline
    obtain ⟨h, -, hline⟩ := List.mem_flatMap.mp hline
    rcases List.mem_cons.mp hline with rfl | hline
    · obtain ⟨s, hs⟩ := h.header_start
      rw [hs]
      rfl
    · have hin := blocks_inHunk line hline
      rw [inHunk, Bool.and_eq_true, Bool.not_eq_true', Bool.not_eq_true'] at hin
      exact hin.2

theorem heads_splitOnP (finalNewline : Bool) (hbody : ∀ f ∈ files, f.body ≠ []) {front : List Line}
    (hfront : front ≠ []) (hplain : ∀ line ∈ front, startsWith "diff " line = false) :
    ((front ++ diffLines files finalNewline).splitOnP (startsWith "diff ")).map List.head? =
      front.head? :: files.map fun f => f.body.head? := by
  induction files generalizing front with
  | nil =>
    have hlast : ∀ line ∈ lastLine finalNewline, startsWith "diff " line = false := by
      cases finalNewline with
      | false => exact List.forall_mem_nil _
      | true => exact List.forall_mem_singleton.mpr rfl
    have hall := List.forall_mem_append.mpr ⟨hplain, hlast⟩
    rw [diffLines, List.flatMap_nil, List.nil_append, List.splitOnP_eq_singleton hall, List.map_singleton,
      List.head?_append_of_ne_nil front hfront]
    rfl
  | cons f files ih =>
    obtain ⟨hf, hfiles⟩ := List.forall_mem_cons.mp hbody
    have hlines : front ++ diffLines (f :: files) finalNewline =
        front ++ ("diff ".toList ++ f.command) :: (f.body ++ diffLines files finalNewline) := by
      rw [diffLines, List.flatMap_cons, List.append_assoc, FileDiff.lines, List.cons_append]
      rfl
    rw [hlines, List.splitOnP_append_cons_of_forall_mem hplain _ (startsWith_append "diff " f.command),
      List.map_cons, ih hfiles hf (body_not_diff f), List.map_cons]

theorem heads_eq {d e : Diff} (htext : d.text = e.text) (hd : ∀ f ∈ d.files, f.body ≠ [])
    (he : ∀ f ∈ e.files, f.body ≠ []) :
    d.files.map (fun f => f.body.head?) = e.files.map fun f => f.body.head? := by
  have hlines : d.lines = e.lines := by rw [← d.splitOn_text, htext, e.splitOn_text]
  have hfront : ∀ line ∈ [([] : Line)], startsWith "diff " line = false := List.forall_mem_singleton.mpr rfl
  have hheads (d : Diff) (hd : ∀ f ∈ d.files, f.body ≠ []) :
      (([[]] ++ d.lines).splitOnP (startsWith "diff ")).map List.head? =
        some [] :: d.files.map fun f => f.body.head? :=
    heads_splitOnP d.finalNewline hd (List.cons_ne_nil _ _) hfront
  have hsame := (hheads d hd).symm.trans (hlines ▸ hheads e he)
  exact (List.cons.inj hsame).2

theorem FileChange.body_toFile (prefixes : Prefixes) (c : FileChange) : (c.toFile prefixes).body =
    c.kind.lines ++ ((c.index.map Index.line).toList ++ (c.paths prefixes ++ c.hunks.flatMap Hunk.lines)) := by
  rw [FileDiff.body, List.append_assoc, List.append_assoc]
  rfl

theorem FileChange.head_body (prefixes : Prefixes) {c : FileChange} {line : Line}
    (h : c.kind.lines.head? = some line) :
    (c.toFile prefixes).body.head? = some line := by
  have hne : c.kind.lines ≠ [] := by
    rintro heq
    rw [heq] at h
    cases h
  rw [body_toFile, List.head?_append_of_ne_nil _ hne, h]

theorem FileChange.body_ne_nil (prefixes : Prefixes) (c : FileChange) : (c.toFile prefixes).body ≠ [] := by
  intro hnil
  rw [body_toFile, List.append_eq_nil_iff, List.append_eq_nil_iff] at hnil
  obtain ⟨hkind, hindex, -⟩ := hnil
  have hmodify : c.kind = .modify := by
    cases h : c.kind <;> rw [h] at hkind <;> first | rfl | cases hkind
  have hlisted := c.listed hmodify
  cases h : c.index <;> simp [h] at hindex hlisted

theorem Mode.text_inj {m m' : Mode} (h : m.text = m'.text) : m = m' := by
  cases m <;> cases m' <;> first | rfl | exact absurd h (by decide +kernel)

theorem Undoes.modify {c c' : FileChange} (h : Undoes c c') {p p' : Prefixes}
    (hheads : (c.reversed.toFile p).body.head? = (c'.toFile p').body.head?) : c.kind = .modify := by
  have hhead {line : Line} (hline : c.kind.lines.head? = some line) :
      (c.reversed.toFile p).body.head? = some line := FileChange.head_body p hline
  have hhead' {line : Line} (hline : c.kind.inverse.lines.head? = some line) :
      (c'.toFile p').body.head? = some line := FileChange.head_body p' (h.kind ▸ hline)
  cases hc : c.kind with
  | modify => rfl
  | changeMode before after hne =>
    rw [hc] at hhead hhead'
    rw [hhead rfl, hhead' rfl] at hheads
    exact absurd (Mode.text_inj (List.append_cancel_left (Option.some.inj hheads))) hne
  | create mode =>
    rw [hc] at hhead hhead'
    rw [hhead rfl, hhead' rfl] at hheads
    have hchar : some 'n' = some 'd' := congrArg (Option.bind · List.head?) hheads
    exact absurd hchar (by decide)
  | delete mode =>
    rw [hc] at hhead hhead'
    rw [hhead rfl, hhead' rfl] at hheads
    have hchar : some 'd' = some 'n' := congrArg (Option.bind · List.head?) hheads
    exact absurd hchar (by decide)

theorem undoes_heads {changes changes' : List FileChange} {F G : FileChange → Option Line}
    (hundoes : List.Forall₂ Undoes changes changes') (hheads : changes.map F = changes'.map G) :
    ∀ c ∈ changes, ∃ c', Undoes c c' ∧ F c = G c' := by
  induction hundoes with
  | nil => exact List.forall_mem_nil _
  | cons hc _ ih =>
    obtain ⟨hhead, htail⟩ := List.cons.inj hheads
    exact List.forall_mem_cons.mpr ⟨⟨_, hc, hhead⟩, ih htail⟩

theorem InverseChange.modify {unescape : List Char → Except PyError (List Char)} {d : TreeDiff}
    (h : InverseChange unescape d) : ∀ c ∈ d.changes, c.kind = .modify := by
  obtain ⟨e, htext, hundoes, -⟩ := h
  rw [reverseDiff_treeText, Except.ok.injEq] at htext
  have hbody (d : TreeDiff) : ∀ f ∈ d.toDiff.files, f.body ≠ [] :=
    List.forall_mem_map.mpr fun c _ => c.body_ne_nil d.prefixes
  have hheads := heads_eq htext (hbody d.reversed) (hbody e)
  simp only [TreeDiff.toDiff, TreeDiff.reversed, List.map_map] at hheads
  intro c hc
  obtain ⟨c', hc', hsame⟩ := undoes_heads hundoes hheads c hc
  exact hc'.modify hsame

end Heads

theorem inverseChange_iff (unescape : List Char → Except PyError (List Char)) (d : TreeDiff) :
    InverseChange unescape d ↔ ∀ c ∈ d.changes, c.kind = .modify :=
  ⟨InverseChange.modify, inverseChange_of_modify unescape⟩

def created : TreeDiff where
  prefixes := .forward
  changes := [{
    path := ⟨false, ['x'], by decide⟩
    kind := .create .regular
    index := some {
      oldHash := "0000000".toList
      newHash := "975fbec".toList
      mode := none
      oldHash_spans := ⟨by decide, List.all_eq_true.mp (by decide)⟩
      newHash_spans := ⟨by decide, List.all_eq_true.mp (by decide)⟩
      mode_plain := nofun }
    hunks := [{
      oldRange := ⟨0, some 0⟩
      newRange := ⟨1, none⟩
      heading := []
      blocks := [.change [] false [['y']] false]
      heading_plain := List.not_mem_nil
      formed := List.forall_mem_singleton.mpr ⟨by decide, .inr (by decide), nofun, nofun⟩
      apart := .singleton _ }]
    listed := nofun }]
  finalNewline := true
  multiLine := by decide
  once := List.pairwise_singleton _ _

theorem not_inverseChange_created : ¬ InverseChange .ok created :=
  fun h => nomatch h.modify _ (List.mem_singleton.mpr rfl)

end TokensThatSuffice.Patch
