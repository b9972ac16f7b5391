import TokensThatSuffice.CompactionTurn
import TokensThatSuffice.MultiTurnReward
import TokensThatSuffice.RebuiltContexts
import TokensThatSuffice.ResumablePool

namespace TokensThatSuffice

open ResumablePool Runs

def stateSummaryOpening : String :=
  "You are maintaining a state summary for an interactive coding agent.\n" ++
    "You will be given a task description followed by a sequence of agent " ++
    "actions and observations. The agent has not yet finished.\n\n" ++
    "Write a concise summary of what has happened so far, in whatever form " ++
    "best serves the agent's next decision. There is no required format.\n"

def plainTextOnly : String := "Respond with plain text only — do not call any tools or emit tool call syntax."

def prompts : List (String × String) := [
  ("sectioned", systemPrompt),
  ("free", stateSummaryOpening ++ plainTextOnly),
  ("free_reasoning", stateSummaryOpening ++
    "Include what the agent has come to UNDERSTAND, not only what it did: " ++
    "hypotheses it has ruled out, assumptions it has corrected, and why the " ++
    "current approach is the one it is taking. A fact the agent had to work " ++
    "to learn is worth more than a list of commands it ran.\n" ++ plainTextOnly)]

def armNames : List String := ["full", "truncation", "mask"] ++ prompts.map (fun prompt => "summary:" ++ prompt.1)

/-- A trajectory file: its directory's name, and its messages or the error that reading them raises. -/
structure TrajectoryFile where
  instanceId : String
  messages : Except PyError (List Message)

def withoutExit (messages : List Message) : List Message := messages.filter (fun m => m.role ≠ .other "exit")

def assistantIndices (msgs : List Message) (t : ℕ) : List ℕ := (List.range' t (msgs.length - t)).filter (isTurn msgs)

/-- The options and endpoints of the arm comparisons; `complete` answers a system and a user text, `excText` is
`str(exc)`. -/
structure ArmSetup (R : Type) where
  py : Python
  excText : PyError → String
  tok : ChatTokens
  tokenizer : Tokenizer
  tools : List Json
  trigger : ℤ
  keepFirst : ℕ
  keepLastTurns : ℕ
  maxSize : ℕ
  complete : String → String → Except PyError (Option String)
  server : TextCompletion R
  scoringModel : String
  scoringBaseUrl : String
  tanh : R → R
  beta : R

inductive ScoreOutcome (Record : Type) where
  | never
  | skip (reason : String)
  | scored (r : Record)

namespace ScoreOutcome

def record? {Record : Type} : ScoreOutcome Record → Option Record
  | .scored r => some r
  | _ => none

end ScoreOutcome

structure DecayRecord (R : Type) where
  instanceId : String
  compactionTurn : ℕ
  depths : List ℕ
  yTurns : List ℕ := []
  nXTokens : List (Option ℕ) := []
  arms : List (String × List (Option R))
  deriving DecidableEq

namespace ArmSetup

variable {R : Type} (s : ArmSetup R)

def summarize (messages : List Message) (prompt : String) : Except PyError String := do
  let text ← formatTrajectoryText s.py (messagesToSteps s.py messages)
  let content ← s.complete prompt text
  return content.getD ""

def truncationMessages (context : List Message) : List Message :=
  let split := splitHeadTail context s.keepFirst s.keepLastTurns
  split.head ++ split.tail

def fixedBases (context : List Message) : List (String × List Message) := [
  ("full", context),
  ("truncation", s.truncationMessages context),
  ("mask", buildMaskenvScoringMessages s.py context s.keepFirst s.keepLastTurns)]

def summaryBase (context : List Message) (prompt : String × String) : Except PyError (String × List Message) := do
  let z ← s.summarize context prompt.2
  return ("summary:" ++ prompt.1, buildZScoringMessages z context s.maxSize s.keepFirst)

def armBases (context : List Message) : Except PyError (List (String × List Message)) := do
  let summaries ← prompts.mapM (s.summaryBase context)
  return s.fixedBases context ++ summaries

def xContext (messages : List Message) (nextAction : Message) : Except PyError (Option (XContext R)) :=
  precomputeXContext s.py s.server s.tokenizer s.scoringModel s.scoringBaseUrl messages nextAction 0 (some s.tools)

variable [Field R] [LinearOrder R]

def rewardOptions : RewardOptions R where
  maxSize := s.maxSize
  keepFirst := s.keepFirst
  beta := s.beta
  tools := some s.tools

def fidelityBounded (xCtx : XContext R) (zMessages : List Message) : Except PyError (Option R) := do
  match ← distortionRewardMessages s.py s.server s.tokenizer s.scoringModel s.scoringBaseUrl s.tanh s.rewardOptions xCtx
    zMessages "" with
  | .error _ => return none
  | .scored columns => return columns.distortion.fidelityBounded

def armFidelity (xCtx : XContext R) (history : List Message) (base : String × List Message) :
    Except PyError (Option R) :=
  s.fidelityBounded xCtx (base.2 ++ history)

def scoreDepths (msgs : List Message) (bases : List (String × List Message)) (record : DecayRecord R) :
    List ℕ → Except PyError (DecayRecord R)
  | [] => .ok record
  | y :: rest => do
    let history := (msgs.take y).drop record.compactionTurn
    let xCtx ← s.xContext (msgs.take y) (msgs.getD y { role := .assistant })
    let record := { record with yTurns := record.yTurns ++ [y] }
    match xCtx with
    | none => return {
        record with
        nXTokens := record.nXTokens ++ [none]
        arms := record.arms.map (fun arm => (arm.1, arm.2 ++ [none])) }
    | some xCtx =>
      let fidelities ← bases.mapM (s.armFidelity xCtx history)
      scoreDepths msgs bases {
        record with
        nXTokens := record.nXTokens ++ [some xCtx.xLogprobs.nXCtx]
        arms := record.arms.zipWith (fun arm f => (arm.1, arm.2 ++ [f])) fidelities } rest

def scoreDecay (maxDepth : ℤ) (tj : TrajectoryFile) :
    Except PyError (ScoreOutcome (DecayRecord R)) :=
  match tj.messages with
  | .error exc => .ok (.skip ("unreadable (" ++ s.excText exc ++ ")"))
  | .ok messages => do
    let msgs := withoutExit messages
    match findCompactionTurn s.py s.tok msgs s.trigger s.tools with
    | none => return .never
    | some t =>
      let asst := assistantIndices msgs t
      let n := (min (maxDepth + 1) asst.length).toNat
      if n = 0 then return .skip "no assistant turns at/after compaction point"
      else
        let bases ← s.armBases (msgs.take t)
        let record ← s.scoreDepths msgs bases {
          instanceId := tj.instanceId
          compactionTurn := t
          depths := List.range n
          arms := bases.map (fun base => (base.1, [])) } (asst.take n)
        return .scored record

end ArmSetup

structure DepthCell (R : Type) where
  depth : ℕ
  n : ℕ
  meanFidelity : Option R

section Aggregate

variable {R : Type} [Field R]

def DecayRecord.curve (r : DecayRecord R) (arm : String) : List (Option R) :=
  ((r.arms.find? (fun a => a.1 = arm)).map Prod.snd).getD []

def depthCell (perInstance : List (DecayRecord R)) (arm : String) (k : ℕ) : DepthCell R :=
  let vals := perInstance.filterMap (fun r => ((r.curve arm)[k]?).join)
  {
    depth := k
    n := vals.length
    meanFidelity := if vals.isEmpty then none else some (vals.sum / vals.length) }

def buildAggregate (perInstance : List (DecayRecord R)) (armNames : List String) (maxDepth : ℤ) :
    List (String × List (DepthCell R)) :=
  armNames.map (fun arm => (arm, (List.range (maxDepth + 1).toNat).map (depthCell perInstance arm)))

end Aggregate

namespace ArmSetup

variable {R : Type} [Field R] [LinearOrder R] {s : ArmSetup R}

/-- A server whose answer depends on the prompt alone, and an activation that keeps zero. -/
structure Deterministic (s : ArmSetup R) : Prop where
  server : ∃ answer, s.server = promptServer answer
  tanh : s.tanh 0 = 0

theorem fidelityBounded_same (hs : s.Deterministic) {messages : List Message} {action : Message} {ctx : XContext R}
    (h : s.xContext messages action = .ok (some ctx)) {f : Option R}
    (hf : s.fidelityBounded ctx messages = .ok f) : f = none ∨ f = some 0 := by
  obtain ⟨answer, hanswer⟩ := hs.server
  rw [xContext, hanswer] at h
  obtain ⟨differences, result, -, -, hresult, hnone, hscored⟩ := computeDistortionMessages_same hs.tanh s.beta h
  unfold fidelityBounded distortionRewardMessages at hf
  dsimp only [rewardOptions] at hf
  rw [hanswer, hresult, ok_bind] at hf
  by_cases hdifferences : differences = []
  · rw [hnone hdifferences] at hf
    cases hf
    exact .inl rfl
  · obtain ⟨d, rfl, -, -, hbounded, -⟩ := hscored hdifferences
    simp only [ok_bind, pure_eq_ok, ne_eq, not_true, if_false, Except.ok.injEq, hbounded] at hf
    rw [← hf]
    split_ifs
    · exact .inr rfl
    · exact .inl rfl

theorem armFidelity_full (hs : s.Deterministic) {msgs : List Message} {turn y : ℕ} (hturn : turn ≤ y)
    {action : Message} {ctx : XContext R} (hx : s.xContext (msgs.take y) action = .ok (some ctx)) {name : String}
    {f : Option R} (hf : s.armFidelity ctx ((msgs.take y).drop turn) (name, msgs.take turn) = .ok f) :
    f = none ∨ f = some 0 := by
  have hglued : msgs.take turn ++ (msgs.take y).drop turn = msgs.take y := by
    conv_rhs => rw [← List.take_append_drop turn (msgs.take y)]
    rw [List.take_take, Nat.min_eq_left hturn]
  rw [armFidelity, hglued] at hf
  exact fidelityBounded_same hs hx hf

structure Charted (names : List String) (record : DecayRecord R) : Prop where
  names : record.arms.map Prod.fst = names
  tokens : record.nXTokens.length = record.yTurns.length
  curves : ∀ arm ∈ record.arms, arm.2.length = record.yTurns.length
  full : ∀ arm ∈ record.arms.head?, ∀ f ∈ arm.2, f = none ∨ f = some 0

omit [LinearOrder R] in
theorem Charted.extend {names : List String} {record : DecayRecord R} (h : Charted names record) (y : ℕ) (n : Option ℕ)
    {fidelities : List (Option R)} (hlen : fidelities.length = names.length)
    (hfull : ∀ f ∈ fidelities.head?, f = none ∨ f = some 0) :
    Charted names { record with
      yTurns := record.yTurns ++ [y]
      nXTokens := record.nXTokens ++ [n]
      arms := record.arms.zipWith (fun arm f => (arm.1, arm.2 ++ [f])) fidelities } := by
  have harms : record.arms.length = fidelities.length := by rw [hlen, ← h.names, List.length_map]
  constructor
  · rw [← h.names, List.map_zipWith]
    apply List.ext_getElem
    · simp [harms]
    · intro i _ _
      simp
  · simp [h.tokens]
  · intro arm harm
    obtain ⟨i, hi, rfl⟩ := List.getElem_of_mem harm
    have hbefore := h.curves _ (List.getElem_mem (l := record.arms) (by simp at hi; exact hi.1))
    rw [List.getElem_zipWith, List.length_append, List.length_append, hbefore]
    rfl
  · cases hrecord : record.arms with
    | nil => simp
    | cons arm rest =>
      cases fidelities with
      | nil => simp
      | cons f fs =>
        intro arm' harm'
        obtain rfl := Option.mem_some.mp harm'
        intro g hg
        rcases List.mem_append.mp hg with hg | hg
        · exact h.full arm (by rw [hrecord]; rfl) g hg
        · rw [List.mem_singleton.mp hg]
          exact hfull f rfl

omit [Field R] [LinearOrder R] in
theorem map_eq_zipWith (arms : List (String × List (Option R))) :
    arms.map (fun arm => (arm.1, arm.2 ++ [none])) =
      arms.zipWith (fun arm f => (arm.1, arm.2 ++ [f])) (arms.map (fun _ => none)) := by
  rw [List.zipWith_map_right, List.zipWith_self]

structure Scored (record : DecayRecord R) (ys : List ℕ) (record' : DecayRecord R) : Prop where
  same : record'.instanceId = record.instanceId ∧ record'.compactionTurn = record.compactionTurn ∧
    record'.depths = record.depths
  turns : ∃ scored, record'.yTurns = record.yTurns ++ scored ∧ scored <+: ys ∧
    (scored = ys ∨ record'.nXTokens.getLast? = some none)
  stopped : none ∉ record'.nXTokens.dropLast

theorem scoreDepths_ok (hs : s.Deterministic) {msgs : List Message} {bases : List (String × List Message)}
    {others : List (String × List Message)} {record record' : DecayRecord R} {ys : List ℕ}
    (hcharted : Charted (bases.map Prod.fst) record)
    (hbases : bases = ("full", msgs.take record.compactionTurn) :: others)
    (hys : ∀ y ∈ ys, record.compactionTurn ≤ y) (hnone : none ∉ record.nXTokens)
    (h : s.scoreDepths msgs bases record ys = .ok record') :
    Charted (bases.map Prod.fst) record' ∧ Scored record ys record' := by
  induction ys generalizing record with
  | nil =>
    cases h
    refine ⟨hcharted, ⟨rfl, rfl, rfl⟩, ⟨[], (List.append_nil _).symm, List.nil_prefix, .inl rfl⟩, ?_⟩
    exact fun hmem => hnone (List.dropLast_subset _ hmem)
  | cons y rest ih =>
    obtain ⟨xCtx, hx, h⟩ := bind_eq_ok.mp h
    cases xCtx with
    | none =>
      cases h
      refine ⟨?_, ⟨rfl, rfl, rfl⟩, ⟨[y], rfl, ⟨rest, rfl⟩, .inr (by simp)⟩, ?_⟩
      · rw [map_eq_zipWith]
        apply hcharted.extend
        · rw [List.length_map, ← hcharted.names, List.length_map]
        · cases record.arms with
          | nil => simp
          | cons arm arms => simp
      · rw [List.dropLast_concat]
        exact hnone
    | some xCtx =>
      obtain ⟨fidelities, hfidelities, h⟩ := bind_eq_ok.mp h
      have hall := mapM_eq_ok.mp hfidelities
      have hturn := hys y List.mem_cons_self
      have hfirst : ∀ f ∈ fidelities.head?, f = none ∨ f = some 0 := by
        rw [hbases] at hall
        obtain ⟨f, fs, hf, -, rfl⟩ := List.forall₂_cons_left_iff.mp hall
        intro g hg
        obtain rfl := Option.mem_some.mp hg
        exact armFidelity_full hs hturn hx hf
      have hcharted' := hcharted.extend y (some xCtx.xLogprobs.nXCtx)
        (by rw [← hall.length_eq, List.length_map]) hfirst
      obtain ⟨hcharted'', hsame, ⟨scored, hscored, ⟨more, hmore⟩, hend⟩, hstopped⟩ :=
        ih hcharted' hbases (fun y' hy' => hys y' (List.mem_cons_of_mem _ hy')) (by simpa using hnone) h
      refine ⟨hcharted'', hsame, ⟨y :: scored, ?_, ⟨more, by rw [← hmore]; rfl⟩, ?_⟩, hstopped⟩
      · rw [hscored, List.append_assoc]
        rfl
      · apply hend.imp_left
        rintro rfl
        rfl

omit [Field R] [LinearOrder R] in
theorem armBases_names {context : List Message} {bases : List (String × List Message)}
    (h : s.armBases context = .ok bases) : bases.map Prod.fst = armNames ∧ bases.head? = some ("full", context) := by
  obtain ⟨summaries, hsummaries, h⟩ := bind_eq_ok.mp h
  cases h
  refine ⟨?_, rfl⟩
  rw [List.map_append, armNames]
  congr 1
  have hall := mapM_eq_ok.mp hsummaries
  rw [← List.forall₂_eq_eq_eq, List.forall₂_map_left_iff, List.forall₂_map_right_iff]
  apply hall.flip.imp
  intro base prompt hbase
  obtain ⟨z, -, hbase⟩ := bind_eq_ok.mp hbase
  cases hbase
  rfl

end ArmSetup

section Records

variable {R : Type} [Field R] [LinearOrder R]

structure DecayRecord.Sound (s : ArmSetup R) (maxDepth : ℤ) (tj : TrajectoryFile) (r : DecayRecord R) : Prop where
  instanceId : r.instanceId = tj.instanceId
  turns : ∃ messages, tj.messages = .ok messages ∧
    findCompactionTurn s.py s.tok (withoutExit messages) s.trigger s.tools = some r.compactionTurn ∧
    r.depths = List.range
      (min (maxDepth + 1) (assistantIndices (withoutExit messages) r.compactionTurn).length).toNat ∧
    r.yTurns <+: (assistantIndices (withoutExit messages) r.compactionTurn).take r.depths.length
  some_depth : r.depths ≠ []
  names : r.arms.map Prod.fst = armNames
  tokens : r.nXTokens.length = r.yTurns.length
  curves : ∀ arm ∈ r.arms, arm.2.length = r.yTurns.length
  full : ∀ f ∈ r.curve "full", f = none ∨ f = some 0
  stopped : none ∉ r.nXTokens.dropLast
  ended : r.yTurns.length = r.depths.length ∨ r.nXTokens.getLast? = some none

omit [Field R] [LinearOrder R] in
theorem DecayRecord.curve_full {r : DecayRecord R} (hnames : r.arms.map Prod.fst = armNames) :
    ∃ arm ∈ r.arms.head?, r.curve "full" = arm.2 := by
  rw [armNames, List.cons_append] at hnames
  obtain ⟨arm, rest, harms, hfull, -⟩ := List.map_eq_cons_iff.mp hnames
  refine ⟨arm, by rw [harms]; rfl, ?_⟩
  rw [DecayRecord.curve, harms, List.find?_cons_of_pos (by simpa using hfull)]
  rfl

omit [Field R] [LinearOrder R] in
theorem le_of_mem_assistantIndices {messages : List Message} {t y : ℕ} (hy : y ∈ assistantIndices messages t) : t ≤ y := by
  have hrange := List.mem_of_mem_filter hy
  rw [List.mem_range'_1] at hrange
  exact hrange.1

omit [LinearOrder R] in
theorem charted_start {bases others : List (String × List Message)} {context : List Message}
    (hbases : bases = ("full", context) :: others) (instanceId : String) (t : ℕ) (depths : List ℕ) :
    ArmSetup.Charted (bases.map Prod.fst) ({
      instanceId := instanceId
      compactionTurn := t
      depths := depths
      arms := bases.map (fun base => (base.1, [])) } : DecayRecord R) := by
  constructor
  · rw [List.map_map]
    rfl
  · rfl
  · simp
  · simp [hbases]

theorem ArmSetup.scoreDecay_scored {s : ArmSetup R} {maxDepth : ℤ} {tj : TrajectoryFile} {r : DecayRecord R}
    (h : s.scoreDecay maxDepth tj = .ok (.scored r)) :
    ∃ messages t n bases, tj.messages = .ok messages ∧
      findCompactionTurn s.py s.tok (withoutExit messages) s.trigger s.tools = some t ∧
      n = (min (maxDepth + 1) (assistantIndices (withoutExit messages) t).length).toNat ∧ n ≠ 0 ∧
      s.armBases ((withoutExit messages).take t) = .ok bases ∧
      s.scoreDepths (withoutExit messages) bases {
        instanceId := tj.instanceId
        compactionTurn := t
        depths := List.range n
        arms := bases.map (fun base => (base.1, [])) } ((assistantIndices (withoutExit messages) t).take n) = .ok r := by
  unfold scoreDecay at h
  cases hmessages : tj.messages with
  | error exc =>
    rw [hmessages] at h
    cases h
  | ok messages =>
    rw [hmessages] at h
    dsimp only at h
    cases hturn : findCompactionTurn s.py s.tok (withoutExit messages) s.trigger s.tools with
    | none =>
      rw [hturn] at h
      cases h
    | some t =>
      rw [hturn] at h
      dsimp only at h
      split_ifs at h with hzero
      · cases h
      · obtain ⟨bases, hbases, h⟩ := bind_eq_ok.mp h
        obtain ⟨record, hrecord, h⟩ := bind_eq_ok.mp h
        cases h
        exact ⟨messages, t, _, bases, rfl, hturn, rfl, hzero, hbases, hrecord⟩

theorem ArmSetup.scoreDecay_sound {s : ArmSetup R} (hs : s.Deterministic) {maxDepth : ℤ}
    {tj : TrajectoryFile} {r : DecayRecord R} (h : s.scoreDecay maxDepth tj = .ok (.scored r)) :
    r.Sound s maxDepth tj := by
  obtain ⟨messages, t, _, bases, hmessages, hturn, rfl, hzero, hbases, hrecord⟩ := scoreDecay_scored h
  obtain ⟨hnames, hhead⟩ := armBases_names hbases
  obtain ⟨others, hothers⟩ := List.head?_eq_some_iff.mp hhead
  obtain ⟨hcharted, ⟨hid, hturn', hdepths⟩, ⟨scored, hscored, hprefix, hend⟩, hstopped⟩ :=
    scoreDepths_ok hs (charted_start hothers tj.instanceId t _) hothers
      (fun y hy => le_of_mem_assistantIndices (List.mem_of_mem_take hy)) (by simp) hrecord
  rw [List.nil_append] at hscored
  constructor
  · exact hid
  · rw [hturn', hdepths, List.length_range, hscored]
    exact ⟨messages, hmessages, hturn, rfl, hprefix⟩
  · rw [hdepths, ne_eq, List.range_eq_nil]
    exact hzero
  · rw [hcharted.names, hnames]
  · exact hcharted.tokens
  · exact hcharted.curves
  · intro f hf
    obtain ⟨arm, harm, hcurve⟩ := DecayRecord.curve_full (hcharted.names.trans hnames)
    rw [hcurve] at hf
    exact hcharted.full arm harm f hf
  · exact hstopped
  · apply hend.imp_left
    intro hall
    rw [hscored, hall, hdepths, List.length_range, List.length_take]
    dsimp only
    omega

theorem ArmSetup.scoreDepths_instanceId {s : ArmSetup R} {msgs : List Message} {bases : List (String × List Message)}
    {record record' : DecayRecord R} {ys : List ℕ} (h : s.scoreDepths msgs bases record ys = .ok record') :
    record'.instanceId = record.instanceId := by
  induction ys generalizing record with
  | nil =>
    cases h
    rfl
  | cons y rest ih =>
    obtain ⟨xCtx, -, h⟩ := bind_eq_ok.mp h
    cases xCtx with
    | none =>
      cases h
      rfl
    | some xCtx =>
      obtain ⟨fidelities, -, h⟩ := bind_eq_ok.mp h
      rw [ih h]

theorem ArmSetup.scoreDecay_instanceId {s : ArmSetup R} {maxDepth : ℤ} {tj : TrajectoryFile} {r : DecayRecord R}
    (h : s.scoreDecay maxDepth tj = .ok (.scored r)) : r.instanceId = tj.instanceId := by
  obtain ⟨_, _, _, _, -, -, -, -, -, hrecord⟩ := scoreDecay_scored h
  exact scoreDepths_instanceId hrecord

def decayWorkload (setups : Set (ArmSetup R × ℤ)) : Workload TrajectoryFile String (DecayRecord R) where
  key := TrajectoryFile.instanceId
  rowKey := DecayRecord.instanceId
  yields tj r := ∃ setup ∈ setups, ∃ outcome, setup.1.scoreDecay setup.2 tj = .ok outcome ∧ outcome.record? = r
  rowKey_eq := by
    rintro tj r ⟨setup, -, outcome, houtcome, hr⟩
    cases outcome with
    | never => cases hr
    | skip reason => cases hr
    | scored r' =>
      cases hr
      exact ArmSetup.scoreDecay_instanceId houtcome

end Records

section Decay

variable {R : Type} [Field R] [LinearOrder R] {setups : Set (ArmSetup R × ℤ)}
  {events : List (Event TrajectoryFile (DecayRecord R))} {state : System TrajectoryFile String (DecayRecord R)}

theorem decay_rows_sound (hsetups : ∀ setup ∈ setups, setup.1.Deterministic)
    (hdistinct : (decayWorkload setups).Distinct events) (h : Run (decayWorkload setups).Step {} state events) :
    ∀ r ∈ state.rows, ∃ setup ∈ setups, ∃ tj o, .started o ∈ events ∧ tj ∈ o.tasks ∧
      r.Sound setup.1 setup.2 tj := by
  have hsafe := Workload.run_safe hdistinct h
  intro r hr
  rw [hsafe.log] at hr
  obtain ⟨e, he, her⟩ := List.mem_filterMap.mp hr
  cases e with
  | finished tj r' =>
    cases her
    obtain ⟨⟨setup, hsetup, outcome, houtcome, hr'⟩, o, ho, htj⟩ := hsafe.finished tj _ he
    refine ⟨setup, hsetup, tj, o, ho, htj, ?_⟩
    cases outcome with
    | never => cases hr'
    | skip reason => cases hr'
    | scored record =>
      cases hr'
      exact ArmSetup.scoreDecay_sound (hsetups setup hsetup) houtcome
  | started o => cases her
  | left => cases her
  | killed => cases her

omit [LinearOrder R] in
theorem mem_buildAggregate {perInstance : List (DecayRecord R)} {names : List String} {maxDepth : ℤ} {arm : String}
    {cells : List (DepthCell R)} (h : (arm, cells) ∈ buildAggregate perInstance names maxDepth) :
    ∀ cell ∈ cells, ∃ k, cell = depthCell perInstance arm k := by
  obtain ⟨arm', -, harm⟩ := List.mem_map.mp h
  cases harm
  intro cell hcell
  obtain ⟨k, -, hk⟩ := List.mem_map.mp hcell
  exact ⟨k, hk.symm⟩

omit [LinearOrder R] in
theorem depthCell_full {perInstance : List (DecayRecord R)} (k : ℕ)
    (h : ∀ r ∈ perInstance, ∀ f ∈ r.curve "full", f = none ∨ f = some 0) :
    (depthCell perInstance "full" k).meanFidelity = none ∨ (depthCell perInstance "full" k).meanFidelity = some 0 := by
  have hzero : (perInstance.filterMap (fun r => ((r.curve "full")[k]?).join)).sum = 0 := by
    apply List.sum_eq_zero
    intro x hx
    obtain ⟨r, hr, hrx⟩ := List.mem_filterMap.mp hx
    rw [Option.join_eq_some_iff] at hrx
    rcases h r hr _ (List.mem_of_getElem? hrx) with hnone | hsome
    · cases hnone
    · exact Option.some.inj hsome
  rw [depthCell]
  dsimp only
  rw [hzero, zero_div]
  split_ifs
  · exact .inl rfl
  · exact .inr rfl

theorem decay_checkpoint (hdistinct : (decayWorkload setups).Distinct events)
    (h : Run (decayWorkload setups).Step {} state events) : (decayWorkload setups).Checkpoint state events :=
  Workload.run_checkpoint hdistinct h

theorem decay_run (hsetups : ∀ setup ∈ setups, setup.1.Deterministic)
    (hdistinct : (decayWorkload setups).Distinct events) (h : Run (decayWorkload setups).Step {} state events) :
    (∀ r ∈ state.rows, ∃ setup ∈ setups, ∃ tj o, .started o ∈ events ∧ tj ∈ o.tasks ∧ r.Sound setup.1 setup.2 tj) ∧
      ∀ maxDepth cells, ("full", cells) ∈ buildAggregate state.rows armNames maxDepth →
        ∀ cell ∈ cells, cell.meanFidelity = none ∨ cell.meanFidelity = some 0 := by
  have hsound := decay_rows_sound hsetups hdistinct h
  refine ⟨hsound, ?_⟩
  intro maxDepth cells hcells cell hcell
  obtain ⟨k, rfl⟩ := mem_buildAggregate hcells cell hcell
  apply depthCell_full
  intro r hr
  obtain ⟨_, _, tj, _, _, _, hr⟩ := hsound r hr
  exact hr.full

omit [LinearOrder R] in
theorem buildAggregate_perm {rows rows' : List (DecayRecord R)} (h : rows.Perm rows') (names : List String)
    (maxDepth : ℤ) : buildAggregate rows names maxDepth = buildAggregate rows' names maxDepth := by
  unfold buildAggregate
  have hcell : depthCell rows = depthCell rows' := by
    funext arm k
    have hvals := h.filterMap (fun r => ((r.curve arm)[k]?).join)
    unfold depthCell
    dsimp only
    rw [hvals.sum_eq, hvals.length_eq, hvals.isEmpty_eq]
  rw [hcell]

def ArmSetup.decayOf (s : ArmSetup R) (maxDepth : ℤ) (tj : TrajectoryFile) : Option (DecayRecord R) :=
  (s.scoreDecay maxDepth tj).toOption.bind ScoreOutcome.record?

theorem ArmSetup.decayOf_some {s : ArmSetup R} {maxDepth : ℤ} {tj : TrajectoryFile} {r : DecayRecord R}
    (h : s.decayOf maxDepth tj = some r) : s.scoreDecay maxDepth tj = .ok (.scored r) := by
  obtain ⟨outcome, houtcome, hrecord⟩ := Option.bind_eq_some_iff.mp h
  cases hscored : s.scoreDecay maxDepth tj with
  | error e =>
    rw [hscored] at houtcome
    cases houtcome
  | ok outcome' =>
    rw [hscored] at houtcome
    cases houtcome
    cases outcome with
    | never => cases hrecord
    | skip reason => cases hrecord
    | scored r' =>
      cases hrecord
      rfl

theorem decay_exact {s : ArmSetup R} {maxDepth : ℤ} {o : Launch TrajectoryFile}
    {earlier since : List (Event TrajectoryFile (DecayRecord R))} {final : System TrajectoryFile String (DecayRecord R)}
    (hdistinct : (o.tasks.map TrajectoryFile.instanceId).Nodup)
    (hearlier : ∀ o', .started o' ∈ earlier → o'.tasks.Sublist o.tasks) (hsince : ∀ o', .started o' ∉ since)
    (h : Run (decayWorkload {(s, maxDepth)}).Step {} state (earlier ++ .started o :: since))
    (hleft : (decayWorkload {(s, maxDepth)}).Step state .left final) :
    final.rows.Subperm (o.tasks.filterMap (s.decayOf maxDepth)) ∧
      final.rows.length = max (earlier.filterMap Event.row?).length
        (min o.limit (o.tasks.filterMap (s.decayOf maxDepth)).length) ∧
      ((o.tasks.filterMap (s.decayOf maxDepth)).length ≤ o.limit → ∀ names, buildAggregate final.rows names maxDepth =
        buildAggregate (o.tasks.filterMap (s.decayOf maxDepth)) names maxDepth) := by
  have hscore : ∀ tj r, (decayWorkload {(s, maxDepth)}).yields tj r → r = s.decayOf maxDepth tj := by
    rintro tj r ⟨setup, rfl, outcome, houtcome, rfl⟩
    dsimp only at houtcome
    rw [ArmSetup.decayOf, houtcome]
    rfl
  have hkey : ∀ tj r, s.decayOf maxDepth tj = some r → r.instanceId = tj.instanceId :=
    fun tj r hr => ArmSetup.scoreDecay_instanceId (ArmSetup.decayOf_some hr)
  obtain ⟨hsubperm, hlength⟩ := Workload.left_exact hscore hkey hdistinct hearlier hsince h hleft
  refine ⟨hsubperm, hlength, ?_⟩
  intro hlimit names
  apply buildAggregate_perm
  apply hsubperm.perm_of_length_le
  rw [hlength, Nat.min_eq_right hlimit]
  exact Nat.le_max_right _ _

end Decay

def lengthAnswer (prompt : String) : Except PyError (Completion ℚ) :=
  .ok ⟨some prompt.length, some (prompt.toList.map (fun _ => some (-prompt.length / 2)))⟩

def lsSetup : ArmSetup ℚ where
  py := asciiPython
  excText _ := ""
  tok := oneTokenEach
  tokenizer := charTokenizer
  tools := []
  trigger := 2
  keepFirst := 1
  keepLastTurns := 1
  maxSize := 4
  complete _ _ := .ok (some "Listed.")
  server := promptServer lengthAnswer
  scoringModel := "m"
  scoringBaseUrl := "b"
  tanh := id
  beta := 1

def lsSetups : Set (ArmSetup ℚ × ℤ) := {(lsSetup, 1)}

theorem lsSetups_deterministic : ∀ setup ∈ lsSetups, setup.1.Deterministic := by
  rintro _ rfl
  exact ⟨⟨lengthAnswer, rfl⟩, rfl⟩

def lsFile (id : String) : TrajectoryFile where
  instanceId := id
  messages := .ok [{ role := .user, content := some (.text "fix") }, { role := .assistant, content := some (.text "ls") },
    { role := .assistant, content := some (.text "cat") }, { role := .assistant, content := some (.text "vi") },
    { role := .other "exit" }]

def tornFile : TrajectoryFile := ⟨"b", .error (.valueError "Expecting value: line 1 column 1 (char 0)")⟩

def lsRecord (id : String) : DecayRecord ℚ where
  instanceId := id
  compactionTurn := 2
  depths := [0, 1]
  yTurns := [2, 3]
  nXTokens := [some 5, some 8]
  arms := ["full", "truncation", "mask"].map (·, [some 0, some 0]) ++
    ["summary:sectioned", "summary:free", "summary:free_reasoning"].map (·, [some (-5 / 2), some (-5 / 2)])

theorem decayOf_lsFile : ∀ id ∈ ["a", "c"], lsSetup.decayOf 1 (lsFile id) = some (lsRecord id) := by
  decide +kernel

theorem yields_lsFile {id : String} (h : id ∈ ["a", "c"]) :
    (decayWorkload lsSetups).yields (lsFile id) (some (lsRecord id)) :=
  ⟨(lsSetup, 1), rfl, .scored (lsRecord id), ArmSetup.decayOf_some (decayOf_lsFile id h), rfl⟩

theorem yields_tornFile : (decayWorkload lsSetups).yields tornFile none :=
  ⟨(lsSetup, 1), rfl, .skip "unreadable ()", rfl, rfl⟩

def firstLaunch : Launch TrajectoryFile := ⟨[lsFile "a", lsFile "c"], 2, 5⟩

def secondLaunch : Launch TrajectoryFile := ⟨[lsFile "a", tornFile, lsFile "c"], 2, 3⟩

def firstEvents : List (Event TrajectoryFile (DecayRecord ℚ)) :=
  [.started firstLaunch, .finished (lsFile "a") (some (lsRecord "a")), .killed]

def secondEvents : List (Event TrajectoryFile (DecayRecord ℚ)) :=
  [.finished (lsFile "c") (some (lsRecord "c")), .finished tornFile none]

def lsPool (o : Launch TrajectoryFile) (rows : List (DecayRecord ℚ)) (done : List String)
    (inFlight : List TrajectoryFile) : Pool TrajectoryFile String (DecayRecord ℚ) :=
  ⟨o, rows, done, rows.length, [], inFlight, false⟩

theorem lsLaunches_run : ∃ state final, state.rows = [lsRecord "a", lsRecord "c"] ∧ final.rows = state.rows ∧
    Run (decayWorkload lsSetups).Step {} state (firstEvents ++ .started secondLaunch :: secondEvents) ∧
    (decayWorkload lsSetups).Step state .left final := by
  have hfirst : Run (decayWorkload lsSetups).Step {}
      ⟨none, some (lsPool firstLaunch [] [] [lsFile "a", lsFile "c"])⟩ (firstEvents.take 1) :=
    .snoc .nil (.started none firstLaunch (by decide))
  have ha : Run (decayWorkload lsSetups).Step {}
      ⟨some [lsRecord "a"], some (lsPool firstLaunch [lsRecord "a"] ["a"] [lsFile "c"])⟩ (firstEvents.take 2) :=
    hfirst.snoc (.finished none _ [] (lsFile "a") [lsFile "c"] _ rfl rfl (yields_lsFile (by decide)))
  have hkilled := ha.snoc (.killed _ _)
  have hsecond : Run (decayWorkload lsSetups).Step {}
      ⟨some [lsRecord "a"], some (lsPool secondLaunch [lsRecord "a"] ["a"] [tornFile, lsFile "c"])⟩
      (firstEvents ++ [.started secondLaunch]) :=
    hkilled.snoc (.started _ secondLaunch (by decide))
  have hc : Run (decayWorkload lsSetups).Step {} ⟨some [lsRecord "a", lsRecord "c"],
      some (lsPool secondLaunch [lsRecord "a", lsRecord "c"] ["c", "a"] [tornFile])⟩
      (firstEvents ++ .started secondLaunch :: secondEvents.take 1) :=
    hsecond.snoc (.finished _ _ [tornFile] (lsFile "c") [] _ rfl rfl (yields_lsFile (by decide)))
  have hb : Run (decayWorkload lsSetups).Step {} ⟨some [lsRecord "a", lsRecord "c"],
      some (lsPool secondLaunch [lsRecord "a", lsRecord "c"] ["c", "a"] [])⟩
      (firstEvents ++ .started secondLaunch :: secondEvents) :=
    hc.snoc (.finished _ _ [] tornFile [] none rfl rfl yields_tornFile)
  refine ⟨_, ⟨some [lsRecord "a", lsRecord "c"], none⟩, ?_, ?_, hb, .left _ _ (.inr rfl)⟩
  · rfl
  · rfl

theorem lsLaunches_distinct :
    (decayWorkload lsSetups).Distinct (firstEvents ++ .started secondLaunch :: secondEvents) := by
  intro o ho
  simp only [firstEvents, secondEvents, List.cons_append, List.nil_append, List.mem_cons, Event.started.injEq,
    reduceCtorEq, List.not_mem_nil, or_false, false_or] at ho
  rcases ho with rfl | rfl <;> decide

theorem decay_checkpoint_lsFile : ∃ state : System TrajectoryFile String (DecayRecord ℚ),
    state.rows = [lsRecord "a", lsRecord "c"] ∧
      (decayWorkload lsSetups).Checkpoint state (firstEvents ++ .started secondLaunch :: secondEvents) := by
  obtain ⟨state, _, hrows, -, hrun, -⟩ := lsLaunches_run
  exact ⟨state, hrows, decay_checkpoint lsLaunches_distinct hrun⟩

theorem decay_run_lsFile : ∃ state : System TrajectoryFile String (DecayRecord ℚ),
    state.rows = [lsRecord "a", lsRecord "c"] ∧ ∀ r ∈ state.rows, ∃ tj, r.Sound lsSetup 1 tj := by
  obtain ⟨state, _, hrows, -, hrun, -⟩ := lsLaunches_run
  refine ⟨state, hrows, ?_⟩
  intro r hr
  obtain ⟨_, rfl, tj, _, _, _, hsound⟩ := (decay_run lsSetups_deterministic lsLaunches_distinct hrun).1 r hr
  exact ⟨tj, hsound⟩

theorem decay_exact_lsFile : ∃ final : System TrajectoryFile String (DecayRecord ℚ),
    final.rows = [lsRecord "a", lsRecord "c"] ∧ final.rows.Subperm (secondLaunch.tasks.filterMap (lsSetup.decayOf 1)) ∧
      final.rows.length = max 1 (min 3 (secondLaunch.tasks.filterMap (lsSetup.decayOf 1)).length) := by
  obtain ⟨state, final, hrows, hsame, hrun, hleft⟩ := lsLaunches_run
  have hearlier : ∀ o, .started o ∈ firstEvents → o.tasks.Sublist secondLaunch.tasks := by
    intro o ho
    simp only [firstEvents, List.mem_cons, Event.started.injEq, reduceCtorEq, List.not_mem_nil, or_false] at ho
    rw [ho]
    exact .cons_cons _ (.cons _ (.refl _))
  have h := decay_exact (by decide) hearlier (by simp [secondEvents]) hrun hleft
  exact ⟨final, hsame.trans hrows, h.1, h.2.1⟩

end TokensThatSuffice
