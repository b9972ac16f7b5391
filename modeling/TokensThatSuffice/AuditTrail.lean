import TokensThatSuffice.AcceptedCompactions
import TokensThatSuffice.CompactedLog

namespace TokensThatSuffice

open CompactedLog Runs

variable (py : Python) (cfg : AgentConfig)

/-- The agent when its run starts on `messages`; `__init__` tried to write a first count of 0. -/
def AgentConfig.initial (messages : List Message) (counted : Bool) : AgentState where
  messages := messages
  countFile := if cfg.compressionsDir && counted then some 0 else none

def SaveOutcome.BestEffort (save : SaveOutcome) : Prop := ∀ e, save.count = some e → e = .osError

def AuditStep (s : AgentState) (e : StepInput × StepEvent) (s' : AgentState) : Prop :=
  e.1.save.BestEffort ∧ step py cfg e.1 s = (s', e.2)

section Steps

variable {py} {cfg} {s s' : AgentState} {save : SaveOutcome} {r : CompactionResult} {before after : ℕ}

structure SameFiles (s s' : AgentState) : Prop where
  files : s'.compactionFiles = s.compactionFiles
  count : s'.countFile = s.countFile

structure SameAudit (s s' : AgentState) : Prop extends SameFiles s s' where
  compressions : s'.compressions = s.compressions
  nCompressions : s'.nCompressions = s.nCompressions

theorem SameAudit.refl (s : AgentState) : SameAudit s s := ⟨⟨rfl, rfl⟩, rfl, rfl⟩

theorem SameAudit.trans {t : AgentState} (h : SameAudit s s') (h' : SameAudit s' t) : SameAudit s t where
  files := h'.files.trans h.files
  count := h'.count.trans h.count
  compressions := h'.compressions.trans h.compressions
  nCompressions := h'.nCompressions.trans h.nCompressions

inductive Auditing (s : AgentState) (save : SaveOutcome) (s' : AgentState) : Prop
  | idle (hsame : SameAudit s s') (hmessages : s'.messages = s.messages)
  | unwritten {r : CompactionResult} {before after : ℕ} (hfailed : save ≠ {})
      (hguard : r.messages.length < s.messages.length ∨ after < before) (hlog : Logged s s' r before after)
      (hfiles : SameFiles s s') (hmessages : s'.messages = s.messages)
  | written {r : CompactionResult} {before after : ℕ}
      (hguard : r.messages.length < s.messages.length ∨ after < before) (hlog : Logged s s' r before after)
      (hfiles : s'.compactionFiles = s.compactionFiles ++ [(s.compressions.length, compactionRecord s r before after)])
      (hcount : s'.countFile = some s'.nCompressions ∨ save ≠ {} ∧ s'.countFile = s.countFile)
      (hmessages : s'.messages = r.messages)

theorem acceptCompaction_auditing (hdir : cfg.compressionsDir = true) (hsave : save.BestEffort) :
    Auditing s save (acceptCompaction cfg save s r before after).1 := by
  unfold acceptCompaction
  by_cases hrefused : s.messages.length ≤ r.messages.length ∧ before ≤ after
  · rw [if_pos hrefused]
    exact .idle (.refl s) rfl
  · rw [if_neg hrefused]
    have hguard : r.messages.length < s.messages.length ∨ after < before := by omega
    dsimp only
    rw [saveCompaction, hdir]
    dsimp only [Bool.not_true]
    cases hraised : save.mkdir <|> save.dumps <|> save.write with
    | some e =>
      refine .unwritten ?_ hguard ⟨rfl, rfl⟩ ⟨rfl, rfl⟩ rfl
      rintro rfl
      cases hraised
    | none =>
      cases hcount : save.count with
      | none => exact .written hguard ⟨rfl, rfl⟩ rfl (.inl rfl) rfl
      | some e =>
        obtain rfl := hsave e hcount
        refine .written hguard ⟨rfl, rfl⟩ rfl (.inr ⟨?_, rfl⟩) rfl
        rintro rfl
        cases hcount

theorem maybeCompress_auditing (hdir : cfg.compressionsDir = true) (hsave : save.BestEffort)
    (compactor : Option Compact) : Auditing s save (maybeCompress py cfg compactor save s).state := by
  cases compactor with
  | none => exact .idle (.refl s) rfl
  | some compact =>
    have hcases := maybeCompress_cases py cfg compact save s
    generalize maybeCompress py cfg (some compact) save s = c at hcases ⊢
    cases hcases with
    | compacted hdue hsize hr hafter => exact acceptCompaction_auditing hdir hsave
    | _ => exact .idle (.refl s) rfl

theorem sendQuery_sameAudit (i : StepInput) (s : AgentState) : SameAudit s (sendQuery i s).1 := by
  unfold sendQuery
  cases i.reply with
  | error e => exact ⟨⟨rfl, rfl⟩, rfl, rfl⟩
  | ok msg =>
    dsimp only
    unfold captureUsage
    split <;> exact ⟨⟨rfl, rfl⟩, rfl, rfl⟩

theorem step_sameAudit (i : StepInput) (s : AgentState) :
    SameAudit (maybeCompress py cfg i.compactor i.save s).state (step py cfg i s).1 := by
  suffices h : SameAudit (maybeCompress py cfg i.compactor i.save s).state (query py cfg i s).state from
    h.trans ⟨⟨rfl, rfl⟩, rfl, rfl⟩
  unfold query
  dsimp only
  generalize maybeCompress py cfg i.compactor i.save s = c
  split
  · exact .refl _
  · split
    · exact .refl _
    · rename_i n _
      have hcounted : SameAudit c.state { c.state with contextTokens := c.state.contextTokens ++ [n] } :=
        ⟨⟨rfl, rfl⟩, rfl, rfl⟩
      exact hcounted.trans (sendQuery_sameAudit i _)

end Steps

def recordSnapshot (f : ℕ × CompactionRecord) : Snapshot Message := ⟨f.2.inputMessages, f.2.nMsgsAfter⟩

def rebuildMessages (files : List (ℕ × CompactionRecord)) (messages : List Message) : List Message :=
  rebuildFrom 0 (files.map recordSnapshot) messages

def CompactionRecord.Reduces (record : CompactionRecord) : Prop :=
  record.nMsgsBefore = record.inputMessages.length ∧
    (record.nMsgsAfter < record.nMsgsBefore ∨ record.tokensAfter < record.tokensBefore)

structure Audited (s : AgentState) (log : List Message) : Prop where
  counted : s.nCompressions = s.compressions.length
  indices : s.compressions.map CompactionRecord.index = List.range s.compressions.length
  reduced : ∀ record ∈ s.compressions, record.Reduces
  files : s.compactionFiles.Sublist (s.compressions.map fun record => (record.index, record))
  count : ∀ n ∈ s.countFile, n ≤ s.nCompressions
  kept : keptLast 0 (s.compactionFiles.map recordSnapshot) ≤ s.messages.length
  rebuilt : rebuildMessages s.compactionFiles s.messages = log

structure CompleteFiles (s : AgentState) : Prop where
  files : s.compactionFiles = s.compressions.map fun record => (record.index, record)
  count : s.countFile = some s.nCompressions

section Runs

variable {py} {cfg} {s s' : AgentState} {save : SaveOutcome} {log : List Message}

theorem Audited.keys (h : Audited s log) :
    (s.compressions.map fun record => (record.index, record)).map Prod.fst = List.range s.nCompressions := by
  rw [List.map_map, h.counted, ← h.indices]
  rfl

theorem Audited.numbers (h : Audited s log) :
    (s.compactionFiles.map Prod.fst).Sublist (List.range s.nCompressions) := by
  rw [← h.keys]
  exact h.files.map Prod.fst

theorem Audited.sameAudit (h : Audited s log) (hsame : SameAudit s s') {xs : List Message}
    (hmessages : s'.messages = s.messages ++ xs) : Audited s' (log ++ xs) := by
  obtain ⟨⟨hfiles, hcount⟩, hcompressions, hn⟩ := hsame
  constructor
  · rw [hn, hcompressions]
    exact h.counted
  · rw [hcompressions]
    exact h.indices
  · rw [hcompressions]
    exact h.reduced
  · rw [hfiles, hcompressions]
    exact h.files
  · rw [hcount, hn]
    exact h.count
  · rw [hfiles, hmessages, List.length_append]
    exact h.kept.trans (Nat.le_add_right _ _)
  · rw [hfiles, hmessages, rebuildMessages, rebuildFrom_append h.kept]
    exact congrArg (· ++ xs) h.rebuilt

theorem Logged.indices {r : CompactionResult} {before after : ℕ} (hlog : Logged s s' r before after)
    (h : s.compressions.map CompactionRecord.index = List.range s.compressions.length) :
    s'.compressions.map CompactionRecord.index = List.range s'.compressions.length := by
  rw [hlog.compressions, List.map_append, List.length_append, List.length_singleton, List.range_succ, h]
  rfl

theorem Logged.reduced {r : CompactionResult} {before after : ℕ} (hlog : Logged s s' r before after)
    (hguard : r.messages.length < s.messages.length ∨ after < before) (h : ∀ record ∈ s.compressions, record.Reduces) :
    ∀ record ∈ s'.compressions, record.Reduces := by
  rw [hlog.compressions]
  intro record hrecord
  rcases List.mem_append.mp hrecord with hrecord | hrecord
  · exact h record hrecord
  · rw [List.mem_singleton.mp hrecord]
    exact ⟨rfl, hguard⟩

theorem Logged.count {r : CompactionResult} {before after : ℕ} (hlog : Logged s s' r before after)
    (h : Audited s log) {n : ℕ} (hn : n ∈ s.countFile) : n ≤ s'.nCompressions := by
  rw [hlog.nCompressions, ← h.counted]
  exact (h.count n hn).trans (Nat.le_succ _)

theorem Audited.auditing (h : Audited s log) (hstep : Auditing s save s') : Audited s' log := by
  cases hstep with
  | idle hsame hmessages =>
    have hempty : Audited s' (log ++ []) := h.sameAudit hsame (by rw [hmessages, List.append_nil])
    rwa [List.append_nil] at hempty
  | unwritten hfailed hguard hlog hfiles hmessages =>
    constructor
    · rw [hlog.nCompressions, hlog.compressions, List.length_append, List.length_singleton]
    · exact hlog.indices h.indices
    · exact hlog.reduced hguard h.reduced
    · rw [hfiles.files, hlog.compressions, List.map_append]
      exact h.files.trans (List.sublist_append_left _ _)
    · rw [hfiles.count]
      intro n hn
      exact hlog.count h hn
    · rw [hfiles.files, hmessages]
      exact h.kept
    · rw [hfiles.files, hmessages]
      exact h.rebuilt
  | written hguard hlog hfiles hcount hmessages =>
    constructor
    · rw [hlog.nCompressions, hlog.compressions, List.length_append, List.length_singleton]
    · exact hlog.indices h.indices
    · exact hlog.reduced hguard h.reduced
    · rw [hfiles, hlog.compressions, List.map_append]
      exact h.files.append (.refl _)
    · intro n hn
      rcases hcount with hcount | ⟨-, hcount⟩
      · rw [hcount] at hn
        cases hn
        exact le_rfl
      · rw [hcount] at hn
        exact hlog.count h hn
    · rw [hfiles, List.map_append, List.map_singleton, keptLast_append, hmessages]
      exact le_rfl
    · rw [hfiles, hmessages, rebuildMessages, List.map_append, List.map_singleton]
      exact (rebuildFrom_snapshot _).trans h.rebuilt

theorem CompleteFiles.auditing (h : CompleteFiles s) (hsave : save = {}) (hstep : Auditing s save s') :
    CompleteFiles s' := by
  cases hstep with
  | idle hsame hmessages =>
    constructor
    · rw [hsame.files, hsame.compressions]
      exact h.files
    · rw [hsame.count, hsame.nCompressions]
      exact h.count
  | unwritten hfailed hguard hlog hfiles hmessages => exact absurd hsave hfailed
  | written hguard hlog hfiles hcount hmessages =>
    constructor
    · rw [hfiles, hlog.compressions, List.map_append, h.files]
      rfl
    · rcases hcount with hcount | ⟨hfailed, -⟩
      · exact hcount
      · exact absurd hsave hfailed

theorem audited_step (hdir : cfg.compressionsDir = true) {e : StepInput × StepEvent} (h : Audited s log)
    (hstep : AuditStep py cfg s e s') : Audited s' (log ++ e.2.recorded) := by
  obtain ⟨hsave, hstep⟩ := hstep
  have hsame : SameAudit (maybeCompress py cfg e.1.compactor e.1.save s).state (step py cfg e.1 s).1 :=
    step_sameAudit e.1 s
  have hmessages := step_messages py cfg e.1 s
  rw [hstep] at hsame hmessages
  exact (h.auditing (maybeCompress_auditing hdir hsave _)).sameAudit hsame hmessages

theorem completeFiles_step (hdir : cfg.compressionsDir = true) {e : StepInput × StepEvent} (h : CompleteFiles s)
    (hsave : e.1.save = {}) (hstep : AuditStep py cfg s e s') : CompleteFiles s' := by
  obtain ⟨hbest, hstep⟩ := hstep
  have hsame : SameAudit (maybeCompress py cfg e.1.compactor e.1.save s).state (step py cfg e.1 s).1 :=
    step_sameAudit e.1 s
  rw [hstep] at hsame
  have hcompressed : CompleteFiles (maybeCompress py cfg e.1.compactor e.1.save s).state :=
    h.auditing hsave (maybeCompress_auditing hdir hbest _)
  constructor
  · rw [hsame.files, hsame.compressions]
    exact hcompressed.files
  · rw [hsame.count, hsame.nCompressions]
    exact hcompressed.count

theorem audited_initial (cfg : AgentConfig) (messages : List Message) (counted : Bool) :
    Audited (cfg.initial messages counted) messages where
  counted := rfl
  indices := rfl
  reduced := nofun
  files := .slnil
  count n hn := by
    unfold AgentConfig.initial at hn
    split_ifs at hn
    · cases hn
      exact le_rfl
    · cases hn
  kept := Nat.zero_le _
  rebuilt := rfl

variable {messages : List Message} {counted : Bool} {events : List (StepInput × StepEvent)}

theorem audited_run (hdir : cfg.compressionsDir = true)
    (h : Run (AuditStep py cfg) (cfg.initial messages counted) s events) :
    Audited s (recordedLog messages (events.map Prod.snd)) := by
  apply Run.invariant (fun s events => Audited s (recordedLog messages (events.map Prod.snd))) _ _ h
  · rw [List.map_nil, recordedLog, List.flatMap_nil, List.append_nil]
    exact audited_initial cfg messages counted
  · intro s events e s' hs hstep
    rw [List.map_append, List.map_singleton, recordedLog_snoc]
    exact audited_step hdir hs hstep

theorem audit_rebuilds (hdir : cfg.compressionsDir = true)
    (h : Run (AuditStep py cfg) (cfg.initial messages counted) s events) :
    rebuildMessages s.compactionFiles s.messages = recordedLog messages (events.map Prod.snd) :=
  (audited_run hdir h).rebuilt

theorem completeFiles_run (hdir : cfg.compressionsDir = true)
    (h : Run (AuditStep py cfg) (cfg.initial messages true) s events) (hsaves : ∀ e ∈ events, e.1.save = {}) :
    CompleteFiles s := by
  induction h with
  | nil =>
    refine ⟨rfl, ?_⟩
    rw [AgentConfig.initial, hdir]
    rfl
  | snoc before last ih =>
    have hlast := hsaves _ (List.mem_append_right _ (List.mem_singleton_self _))
    exact completeFiles_step hdir (ih fun e he => hsaves e (List.mem_append_left _ he)) hlast last

theorem audit_files (hdir : cfg.compressionsDir = true)
    (h : Run (AuditStep py cfg) (cfg.initial messages counted) s events) :
    (s.compactionFiles.map Prod.fst).Sublist (List.range s.nCompressions) ∧
      (∀ f ∈ s.compactionFiles, s.compressions[f.1]? = some f.2 ∧ f.2.Reduces) ∧
      (∀ n ∈ s.countFile, n ≤ s.nCompressions) ∧
      (counted = true → (∀ e ∈ events, e.1.save = {}) →
        s.compactionFiles.map Prod.fst = List.range s.nCompressions ∧ s.countFile = some s.nCompressions) := by
  have haudited := audited_run hdir h
  refine ⟨haudited.numbers, ?_, haudited.count, ?_⟩
  · intro f hf
    obtain ⟨record, hrecord, rfl⟩ := List.mem_map.mp (haudited.files.subset hf)
    refine ⟨?_, haudited.reduced record hrecord⟩
    obtain ⟨i, hi⟩ := List.mem_iff_getElem?.mp hrecord
    have hindex : (s.compressions.map CompactionRecord.index)[i]? = some record.index := by
      rw [List.getElem?_map, hi]
      rfl
    rw [haudited.indices, List.getElem?_range (List.getElem?_eq_some_iff.mp hi).1, Option.some.injEq] at hindex
    dsimp only
    rw [← hindex]
    exact hi
  · rintro rfl hsaves
    have hcomplete := completeFiles_run hdir h hsaves
    refine ⟨?_, hcomplete.count⟩
    rw [hcomplete.files]
    exact haudited.keys

def uncounted : StepInput := { bashInput with save := { count := some .osError } }

def endedRefused : StepInput :=
  { bashInput with save := writeRefused, appended := [{ role := .other "exit", content := some (.text "OSError") }] }

def writingStart : AgentState := writingConfig.initial threeTurns.messages true

def written (i : StepInput) (s : AgentState) : AgentState := (step asciiPython writingConfig i s).1

def writing (i : StepInput) (s : AgentState) : StepInput × StepEvent := (i, (step asciiPython writingConfig i s).2)

theorem writeRefused_run : Run (AuditStep asciiPython writingConfig) writingStart
    (written endedRefused (written uncounted writingStart)) [writing uncounted writingStart,
      writing endedRefused (written uncounted writingStart)] := by
  have huncounted : uncounted.save.BestEffort := by
    rintro e ⟨⟩
    rfl
  have hfirst : AuditStep asciiPython writingConfig writingStart (writing uncounted writingStart)
      (written uncounted writingStart) := ⟨huncounted, rfl⟩
  exact .snoc (.snoc .nil hfirst) ⟨nofun, rfl⟩

theorem audit_rebuilds_writeRefused :
    (written endedRefused (written uncounted writingStart)).nCompressions = 2 ∧
      (written endedRefused (written uncounted writingStart)).compactionFiles.map Prod.fst = [0] ∧
      rebuildMessages (written endedRefused (written uncounted writingStart)).compactionFiles
        (written endedRefused (written uncounted writingStart)).messages =
      recordedLog threeTurns.messages [(writing uncounted writingStart).2,
        (writing endedRefused (written uncounted writingStart)).2] :=
  ⟨rfl, rfl, audit_rebuilds rfl writeRefused_run⟩

theorem audit_files_bash :
    (written bashInput writingStart).compactionFiles.map Prod.fst =
        List.range (written bashInput writingStart).nCompressions ∧
      (written bashInput writingStart).countFile = some (written bashInput writingStart).nCompressions := by
  have hstep : AuditStep asciiPython writingConfig writingStart (writing bashInput writingStart)
      (written bashInput writingStart) := ⟨nofun, rfl⟩
  apply (audit_files rfl (.snoc .nil hstep)).2.2.2 rfl
  intro e he
  rw [List.nil_append, List.mem_singleton] at he
  rw [he]
  rfl

end Runs

end TokensThatSuffice
