import Mathlib.Data.Fintype.Basic
import TokensThatSuffice.PythonValues
import TokensThatSuffice.Runs

namespace TokensThatSuffice

open Runs

structure Instance where
  instanceId : String
  imageName : Option String := none
  deriving DecidableEq, Repr

structure SifCache where
  dir : String
  imageCommit : String
  present : String → Bool

def isHex (c : Char) : Bool := c.isDigit || ('a' ≤ c && c ≤ 'f')

/-- `re.match(r"^(.+?\.[a-f0-9]{6,n})", iid)`, with no upper bound on the hash for `none`. -/
def matchBase (maxHash : Option ℕ) : List Char → List Char → Option (List Char)
  | _, [] => none
  | seen, c :: rest =>
    let hash := rest.takeWhile isHex
    if seen ≠ [] ∧ c = '.' ∧ 6 ≤ hash.length then
      some (seen ++ c :: hash.take (maxHash.getD hash.length))
    else if c = '\n' then none
    else matchBase maxHash (seen ++ [c]) rest

def baseInstance (maxHash : Option ℕ) (iid : String) : String :=
  match matchBase maxHash [] iid.toList with
  | some base => String.ofList base
  | none => iid

/-- The cache's directory is a path in normal form but for slashes at its end, and the instance's id is ASCII: `Path` would
also drop `.` parts and doubled slashes, and `str.lower` other capital letters. -/
def swesmithSifPath (cache : SifCache) (iid : String) : Option String :=
  if cache.dir = "" then none
  else
    let baseCompat := lower (replace (baseInstance none iid) "__" "_1776_")
    let sifName := "lintangsutawika_agent-swe-smith_" ++ cache.imageCommit ++ "-jyangballin_s_swesmith.x86_64." ++
      baseCompat ++ "-source-minimal.sif"
    let sifPath := rstrip (· = '/') cache.dir ++ "/" ++ sifName
    if cache.present sifPath then some sifPath else none

/-- For ASCII ids and data sources, like `swesmithSifPath`. -/
def getDockerImageName (inst : Instance) (dataSource : String) : Except PyError String :=
  match inst.imageName with
  | some imageName => .ok imageName
  | none =>
    let iid := inst.instanceId
    let source := lower dataSource
    if isIn "swe-gym" source then
      .ok (lower ("docker.io/xingyaoww/sweb.eval.x86_64." ++ replace iid "__" "_s_" ++ ":latest"))
    else if isIn "swe-bench" source then
      .ok (lower ("docker.io/swebench/sweb.eval.x86_64." ++ replace iid "__" "_1776_" ++ ":latest"))
    else if isIn "swe-smith" source then
      .ok (lower ("docker.io/jyangballin/swesmith.x86_64." ++ replace (baseInstance (some 8) iid) "__" "_1776_" ++
        ":latest"))
    else .error (.notImplementedError ("Data source: " ++ dataSource ++ " is not supported"))

structure EnvConfig where
  environmentClass : Option String := none
  image : Option String := none
  execArgs : Option (List String) := none
  deriving Repr

def imageFor (cache : SifCache) (dataSource environmentClass : String) (inst : Instance) :
    Except PyError (Option String) :=
  let sifPath := if isIn "swe-smith" (lower dataSource) then swesmithSifPath cache inst.instanceId else none
  match sifPath with
  | some path => .ok (some path)
  | none => do
    let imageName ← getDockerImageName inst dataSource
    if environmentClass = "docker" then return some imageName
    else if environmentClass = "singularity" then return some ("docker://" ++ imageName)
    else return none

inductive Phase where
  | idle
  | fetched (inst : Instance)
  | written (inst : Instance)
  | building (inst : Instance) (attempt : ℕ)
  deriving DecidableEq, Repr

structure Build (W : Type) where
  worker : W
  inst : Instance
  image : Option String

structure PoolState (W : Type) where
  environment : Option EnvConfig
  phase : W → Phase
  builds : List (Build W) := []

inductive BuildOutcome where
  | built
  | failed (isBuildFailure : Bool)
  deriving DecidableEq, Repr

inductive Action where
  | fetch (inst : Instance)
  | writeImage
  | setExecArgs
  | build (outcome : BuildOutcome)
  deriving DecidableEq, Repr

def classOf (environment : Option EnvConfig) : String :=
  ((environment.getD {}).environmentClass).getD "singularity"

def singularityArgs : List String := ["--contain", "--cleanenv", "--fakeroot", "--no-mount", "hostfs"]

def maxRetries : ℕ := 3

section Steps

variable {W : Type} [DecidableEq W] (cache : SifCache) (dataSource : String)

def PoolState.setPhase (s : PoolState W) (w : W) (p : Phase) : PoolState W :=
  { s with phase := Function.update s.phase w p }

def PoolState.setEnvironment (s : PoolState W) (e : EnvConfig) : PoolState W := { s with environment := some e }

def nextAttempt (inst : Instance) (attempt : ℕ) : BuildOutcome → Phase
  | .failed true => if attempt + 1 < maxRetries then .building inst (attempt + 1) else .idle
  | _ => .idle

/-- One atomic step of worker `w` on the shared dictionary; `none` when the worker is not there. -/
def act (w : W) (a : Action) (s : PoolState W) : Option (PoolState W) :=
  let env := s.environment.getD {}
  match a, s.phase w with
  | .fetch inst, .idle =>
    some ((s.setEnvironment { env with environmentClass := some (classOf s.environment) }).setPhase w (.fetched inst))
  | .writeImage, .fetched inst =>
    match imageFor cache dataSource (classOf s.environment) inst with
    | .ok (some image) => some ((s.setEnvironment { env with image := some image }).setPhase w (.written inst))
    | .ok none => some (s.setPhase w (.written inst))
    | .error _ => some (s.setPhase w .idle)
  | .setExecArgs, .written inst =>
    let args := if classOf s.environment = "singularity" then some (env.execArgs.getD singularityArgs) else env.execArgs
    some ((s.setEnvironment { env with execArgs := args }).setPhase w (.building inst 0))
  | .build outcome, .building inst attempt =>
    some { (s.setPhase w (nextAttempt inst attempt outcome)) with
      builds := s.builds ++ [⟨w, inst, env.image⟩] }
  | _, _ => none

def PoolStep (s : PoolState W) (e : W × Action) (s' : PoolState W) : Prop :=
  act cache dataSource e.1 e.2 s = some s'

def PoolState.start (environment : Option EnvConfig) : PoolState W where
  environment := environment
  phase _ := .idle

def Phase.holds : Phase → Option Instance
  | .written inst => some inst
  | .building inst _ => some inst
  | _ => none

def WritesAlone (s : PoolState W) (e : W × Action) : Prop :=
  e.2 = .writeImage → ∀ inst image w inst' image', s.phase e.1 = .fetched inst →
    imageFor cache dataSource (classOf s.environment) inst = .ok (some image) → (s.phase w).holds = some inst' →
    imageFor cache dataSource (classOf s.environment) inst' = .ok (some image') → image' = image

def BuiltFromOwn (environmentClass : String) (b : Build W) : Prop :=
  ∀ image, imageFor cache dataSource environmentClass b.inst = .ok (some image) → b.image = some image

structure OwnImages (environmentClass : String) (s : PoolState W) : Prop where
  sameClass : classOf s.environment = environmentClass
  held : ∀ w inst image, (s.phase w).holds = some inst →
    imageFor cache dataSource environmentClass inst = .ok (some image) → (s.environment.getD {}).image = some image
  built : ∀ b ∈ s.builds, BuiltFromOwn cache dataSource environmentClass b

section Invariant

variable {cache dataSource} {environmentClass : String} {s s' : PoolState W}

theorem holds_update {w w' : W} {p : Phase} {inst : Instance}
    (h : (Function.update s.phase w p w').holds = some inst) :
    (w' = w ∧ p.holds = some inst) ∨ (s.phase w').holds = some inst := by
  by_cases hw : w' = w
  · subst hw
    rw [Function.update_self] at h
    exact .inl ⟨rfl, h⟩
  · rw [Function.update_of_ne hw] at h
    exact .inr h

theorem nextAttempt_holds {inst inst' : Instance} {attempt : ℕ} {outcome : BuildOutcome}
    (h : (nextAttempt inst attempt outcome).holds = some inst') : inst' = inst := by
  unfold nextAttempt at h
  split at h
  · split_ifs at h
    · exact (Option.some.inj h).symm
    · cases h
  · cases h

theorem OwnImages.fetch (h : OwnImages cache dataSource environmentClass s) (w : W) (inst : Instance) :
    OwnImages cache dataSource environmentClass
      ((s.setEnvironment { s.environment.getD {} with environmentClass := some (classOf s.environment) }).setPhase w
        (.fetched inst)) := by
  refine ⟨h.sameClass, ?_, h.built⟩
  intro w' inst' image hholds himage
  rcases holds_update hholds with ⟨-, hnone⟩ | hold
  · cases hnone
  · exact h.held w' inst' image hold himage

theorem OwnImages.setPhase (h : OwnImages cache dataSource environmentClass s) {w : W} {p : Phase}
    (hp : ∀ inst, p.holds = some inst → (s.phase w).holds = some inst ∨
      ∀ image, imageFor cache dataSource environmentClass inst ≠ .ok (some image)) :
    OwnImages cache dataSource environmentClass (s.setPhase w p) := by
  refine ⟨h.sameClass, ?_, h.built⟩
  intro w' inst' image hholds himage
  rcases holds_update hholds with ⟨rfl, hsame⟩ | hold
  · rcases hp inst' hsame with hold | hnone
    · exact h.held w' inst' image hold himage
    · apply absurd himage
      exact hnone image
  · exact h.held w' inst' image hold himage

theorem OwnImages.writeImage (h : OwnImages cache dataSource environmentClass s) {w : W} {inst : Instance}
    {image : String} (hphase : s.phase w = .fetched inst)
    (himage : imageFor cache dataSource (classOf s.environment) inst = .ok (some image))
    (halone : WritesAlone cache dataSource s (w, .writeImage)) :
    OwnImages cache dataSource environmentClass
      ((s.setEnvironment { s.environment.getD {} with image := some image }).setPhase w (.written inst)) := by
  refine ⟨h.sameClass, ?_, h.built⟩
  intro w' inst' image' hholds himage'
  rw [← h.sameClass] at himage'
  rcases holds_update hholds with ⟨-, hsame⟩ | hold
  · cases hsame
    rw [himage] at himage'
    cases himage'
    rfl
  · -- another worker that holds the dictionary: only a write of its own image is harmless
    have heq := halone rfl inst image w' inst' image' hphase himage hold himage'
    rw [heq]
    rfl

theorem OwnImages.setExecArgs (h : OwnImages cache dataSource environmentClass s) {w : W} {inst : Instance}
    (hphase : s.phase w = .written inst) (args : Option (List String)) :
    OwnImages cache dataSource environmentClass
      ((s.setEnvironment { s.environment.getD {} with execArgs := args }).setPhase w (.building inst 0)) := by
  refine ⟨h.sameClass, ?_, h.built⟩
  intro w' inst' image hholds himage
  rcases holds_update hholds with ⟨-, hsame⟩ | hold
  · cases hsame
    apply h.held w inst image _ himage
    rw [hphase]
    rfl
  · exact h.held w' inst' image hold himage

theorem OwnImages.build (h : OwnImages cache dataSource environmentClass s) {w : W} {inst : Instance} {attempt : ℕ}
    (hphase : s.phase w = .building inst attempt) (outcome : BuildOutcome) :
    OwnImages cache dataSource environmentClass { (s.setPhase w (nextAttempt inst attempt outcome)) with
      builds := s.builds ++ [⟨w, inst, (s.environment.getD {}).image⟩] } := by
  have hown : (s.phase w).holds = some inst := by
    rw [hphase]
    rfl
  have hphases := h.setPhase (w := w) (p := nextAttempt inst attempt outcome) fun inst' hinst => by
    rw [nextAttempt_holds hinst]
    exact .inl hown
  refine ⟨h.sameClass, hphases.held, ?_⟩
  intro b hb
  rcases List.mem_append.mp hb with hb | hb
  · exact h.built b hb
  · rw [List.mem_singleton.mp hb]
    intro image himage
    exact h.held w inst image hown himage

theorem OwnImages.step (h : OwnImages cache dataSource environmentClass s) {e : W × Action}
    (hstep : PoolStep cache dataSource s e s') (halone : WritesAlone cache dataSource s e) :
    OwnImages cache dataSource environmentClass s' := by
  obtain ⟨w, a⟩ := e
  unfold PoolStep act at hstep
  dsimp only at hstep
  split at hstep
  · cases hstep
    exact h.fetch w _
  · next inst hphase =>
    split at hstep
    · next image himage =>
      cases hstep
      exact h.writeImage hphase himage halone
    · next himage =>
      cases hstep
      apply h.setPhase
      intro inst' hinst
      cases hinst
      right
      intro image
      rw [← h.sameClass, himage]
      simp
    · cases hstep
      apply h.setPhase
      intro inst' hinst
      cases hinst
  · next inst hphase =>
    cases hstep
    exact h.setExecArgs hphase _
  · next outcome inst attempt hphase =>
    cases hstep
    exact h.build hphase outcome
  · cases hstep

end Invariant

theorem builds_own_image {environment : Option EnvConfig} {s : PoolState W} {events : List (W × Action)}
    (h : Run (fun s e s' => PoolStep cache dataSource s e s' ∧ WritesAlone cache dataSource s e) (.start environment) s
      events) : ∀ b ∈ s.builds, BuiltFromOwn cache dataSource (classOf environment) b := by
  have hinv : OwnImages cache dataSource (classOf environment) s := by
    apply Run.invariant (fun s _ => OwnImages cache dataSource (classOf environment) s) ?_ ?_ h
    · refine ⟨rfl, ?_, ?_⟩
      · intro w inst image hholds
        cases hholds
      · intro b hb
        cases hb
    · rintro s events e s' hs ⟨hstep, halone⟩
      exact hs.step hstep halone
  exact hinv.built

section Holding

variable {cache dataSource} {s s' : PoolState W} {w w' : W} {inst inst' : Instance} {image image' : String}

theorem writeImage_step (hstep : PoolStep cache dataSource s (w, .writeImage) s') (hphase : s.phase w = .fetched inst)
    (himage : imageFor cache dataSource (classOf s.environment) inst = .ok (some image)) :
    s'.phase = Function.update s.phase w (.written inst) ∧ (s'.environment.getD {}).image = some image := by
  unfold PoolStep act at hstep
  dsimp only at hstep
  rw [hphase] at hstep
  dsimp only at hstep
  rw [himage] at hstep
  cases hstep
  exact ⟨rfl, rfl⟩

theorem setExecArgs_step (cache : SifCache) (dataSource : String) (hphase : s.phase w = .written inst) :
    ∃ s', PoolStep cache dataSource s (w, .setExecArgs) s' ∧ s'.phase w = .building inst 0 ∧
      (s'.environment.getD {}).image = (s.environment.getD {}).image := by
  let args := if classOf s.environment = "singularity" then
      some ((s.environment.getD {}).execArgs.getD singularityArgs)
    else (s.environment.getD {}).execArgs
  refine ⟨(s.setEnvironment { s.environment.getD {} with execArgs := args }).setPhase w (.building inst 0), ?_, ?_, rfl⟩
  · unfold PoolStep act
    dsimp only
    rw [hphase]
  · exact Function.update_self _ _ _

theorem build_step (cache : SifCache) (dataSource : String) {attempt : ℕ} (hphase : s.phase w = .building inst attempt) :
    ∃ s', PoolStep cache dataSource s (w, .build .built) s' ∧ ⟨w, inst, (s.environment.getD {}).image⟩ ∈ s'.builds := by
  refine ⟨{ (s.setPhase w (nextAttempt inst attempt .built)) with
    builds := s.builds ++ [⟨w, inst, (s.environment.getD {}).image⟩] }, ?_, ?_⟩
  · unfold PoolStep act
    dsimp only
    rw [hphase]
  · apply List.mem_append_right
    exact List.mem_singleton.mpr rfl

theorem holder_builds (cache : SifCache) (dataSource : String) (hholds : (s.phase w).holds = some inst) :
    ∃ s' events, Run (PoolStep cache dataSource) s s' events ∧
      ⟨w, inst, (s.environment.getD {}).image⟩ ∈ s'.builds := by
  cases hphase : s.phase w with
  | idle =>
    rw [hphase] at hholds
    cases hholds
  | fetched _ =>
    rw [hphase] at hholds
    cases hholds
  | building _ attempt =>
    rw [hphase] at hholds
    cases hholds
    obtain ⟨s', hstep, hbuild⟩ := build_step cache dataSource hphase
    exact ⟨s', _, .snoc .nil hstep, hbuild⟩
  | written _ =>
    rw [hphase] at hholds
    cases hholds
    obtain ⟨t, hexec, hbuilding, himage⟩ := setExecArgs_step cache dataSource hphase
    obtain ⟨s', hstep, hbuild⟩ := build_step cache dataSource hbuilding
    rw [himage] at hbuild
    exact ⟨s', _, .snoc (.snoc .nil hexec) hstep, hbuild⟩

theorem overlapping_write_misleads (hstep : PoolStep cache dataSource s (w, .writeImage) s')
    (hphase : s.phase w = .fetched inst)
    (himage : imageFor cache dataSource (classOf s.environment) inst = .ok (some image))
    (hholds : (s.phase w').holds = some inst') (hne : image' ≠ image) :
    ∃ s'' events b, Run (PoolStep cache dataSource) s' s'' events ∧ b ∈ s''.builds ∧ b.worker = w' ∧ b.inst = inst' ∧
      b.image ≠ some image' := by
  have hother : w' ≠ w := by
    rintro rfl
    rw [hphase] at hholds
    cases hholds
  obtain ⟨hphases, hwrong⟩ := writeImage_step hstep hphase himage
  have hkept : (s'.phase w').holds = some inst' := by
    rw [hphases, Function.update_of_ne hother]
    exact hholds
  obtain ⟨s'', events, hrun, hbuild⟩ := holder_builds cache dataSource hkept
  refine ⟨s'', events, _, hrun, hbuild, rfl, rfl, ?_⟩
  rw [hwrong]
  intro heq
  apply hne
  exact (Option.some.inj heq).symm

end Holding

end Steps

def emptyCache : SifCache := { dir := "", imageCommit := "62d35bb", present := fun _ => false }

def firstInstance : Instance := { instanceId := "a__a-1" }

def secondInstance : Instance := { instanceId := "b__b-2" }

section Schedules

variable {W : Type} [DecidableEq W] (cache : SifCache) (dataSource : String) (guard : PoolState W → W × Action → Bool)

def runActions (s : PoolState W) : List (W × Action) → Option (PoolState W)
  | [] => some s
  | e :: rest => if guard s e then (act cache dataSource e.1 e.2 s).bind (runActions · rest) else none

variable {cache dataSource guard}

theorem run_of_runActions {step : PoolState W → W × Action → PoolState W → Prop} {start s s' : PoolState W}
    {before events : List (W × Action)}
    (hstep : ∀ s e s', guard s e = true → PoolStep cache dataSource s e s' → step s e s')
    (h : Run step start s before) (hrun : runActions cache dataSource guard s events = some s') :
    Run step start s' (before ++ events) := by
  induction events generalizing s before with
  | nil =>
    cases hrun
    rw [List.append_nil]
    exact h
  | cons e events ih =>
    unfold runActions at hrun
    split_ifs at hrun with hguard
    obtain ⟨t, ht, hrun⟩ := Option.bind_eq_some_iff.mp hrun
    rw [← List.singleton_append, ← List.append_assoc]
    apply ih _ hrun
    apply h.snoc
    exact hstep s e t hguard ht

def freeToWrite [Fintype W] (s : PoolState W) (e : W × Action) : Bool :=
  decide (e.2 = .writeImage → ∀ w, (s.phase w).holds = none)

omit [DecidableEq W] in
theorem writesAlone_of_freeToWrite [Fintype W] {s : PoolState W} {e : W × Action} (h : freeToWrite s e = true) :
    WritesAlone cache dataSource s e := by
  intro hwrite inst image w inst' image' _ _ hholds _
  rw [of_decide_eq_true h hwrite w] at hholds
  cases hholds

end Schedules

def overlappingCalls : List (Fin 2 × Action) :=
  [(0, .fetch firstInstance), (0, .writeImage), (1, .fetch secondInstance), (1, .writeImage), (0, .setExecArgs),
    (0, .build .built)]

theorem overlapping_calls_swap_images :
    ∃ s b, Run (PoolStep emptyCache "swe-bench") (.start none) s overlappingCalls ∧ b ∈ s.builds ∧
      b.inst = firstInstance ∧ b.image = some "docker://docker.io/swebench/sweb.eval.x86_64.b_1776_b-2:latest" ∧
      ¬ BuiltFromOwn emptyCache "swe-bench" (classOf none) b := by
  refine ⟨(runActions emptyCache "swe-bench" (fun _ _ => true) (.start none) overlappingCalls).get rfl,
    ⟨0, firstInstance, _⟩, run_of_runActions ?_ .nil (Option.some_get _).symm, ?_, rfl, rfl, ?_⟩
  · exact fun s e s' _ hstep => hstep
  · exact List.mem_singleton.mpr rfl
  · intro hown
    have himage := hown "docker://docker.io/swebench/sweb.eval.x86_64.a_1776_a-1:latest" rfl
    exact absurd himage (by decide)

def separateCalls : List (Fin 2 × Action) :=
  [(0, .fetch firstInstance), (0, .writeImage), (1, .fetch secondInstance), (0, .setExecArgs),
    (0, .build (.failed true)), (0, .build .built), (1, .writeImage), (1, .setExecArgs), (1, .build .built)]

theorem builds_own_image_separate :
    ∃ s, runActions emptyCache "swe-bench" freeToWrite (.start none) separateCalls = some s ∧ s.builds.length = 3 ∧
      ∀ b ∈ s.builds, BuiltFromOwn emptyCache "swe-bench" (classOf none) b := by
  refine ⟨(runActions emptyCache "swe-bench" freeToWrite (.start none) separateCalls).get rfl,
    (Option.some_get _).symm, rfl, ?_⟩
  apply builds_own_image
  apply run_of_runActions ?_ .nil (Option.some_get _).symm
  exact fun s e s' hguard hstep => ⟨hstep, writesAlone_of_freeToWrite hguard⟩

end TokensThatSuffice
