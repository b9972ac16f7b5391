import Mathlib.Data.List.Nodup
import Mathlib.Order.Nat
import TokensThatSuffice.Runs

namespace TokensThatSuffice.LoraReload

open Runs

structure LoraRequest where
  loraName : String
  loraIntId : ℕ
  loraPath : String
  deriving DecidableEq

inductive Loading
  | removeLora (path : String)
  | addLora (request : LoraRequest)
  | listLoras

/-- The server with the adapters on its disk. `resident` has, by int id, which write of its path was read. -/
structure Server where
  disk : String → ℕ := fun _ => 0
  loraIdCounter : ℕ := 0
  loraRequests : String → Option LoraRequest := fun _ => none
  loraResolverLock : String → Option Loading := fun _ => none
  resident : ℕ → Option ℕ := fun _ => none
  issued : List LoraRequest := []
  asked : List LoraRequest := []

inductive Event
  | wrote (path : String)
  | entered (name path : String)
  | removed (name : String)
  | registered (name : String)
  | answered (name : String)
  | read (request : LoraRequest)
  | evicted (id : ℕ)
  | asked (request : LoraRequest)
  | served (request : LoraRequest) (version : ℕ)
  deriving DecidableEq

namespace Server

def add (s : Server) (name path : String) : Server where
  disk := s.disk
  loraIdCounter := s.loraIdCounter + 1
  loraRequests := s.loraRequests
  loraResolverLock := Function.update s.loraResolverLock name (some (.addLora ⟨name, s.loraIdCounter + 1, path⟩))
  resident := s.resident
  issued := ⟨name, s.loraIdCounter + 1, path⟩ :: s.issued
  asked := s.asked

def enter (s : Server) (name path : String) : Server :=
  match s.loraRequests name with
  | some _ => { s with loraResolverLock := Function.update s.loraResolverLock name (some (.removeLora path)) }
  | none => s.add name path

def register (s : Server) (request : LoraRequest) : Server :=
  { s with
    loraRequests := Function.update s.loraRequests request.loraName (some request)
    loraResolverLock := Function.update s.loraResolverLock request.loraName (some .listLoras) }

end Server

/-- What happens between two awaits. The engine reads an adapter it was told of only while nothing is resident under
the int id; it may do so at any time, and may evict at any time, whatever its calls answer or raise. -/
inductive Step (s : Server) : Event → Server → Prop
  | wrote (path : String) : Step s (.wrote path) { s with disk := Function.update s.disk path (s.disk path + 1) }
  | entered (name path : String) (hname : name ≠ "") (hpath : path ≠ "") (hfree : s.loraResolverLock name = none) :
      Step s (.entered name path) (s.enter name path)
  | removed {name path : String} (hlock : s.loraResolverLock name = some (.removeLora path)) :
      Step s (.removed name) (s.add name path)
  | registered {name : String} {request : LoraRequest} (hlock : s.loraResolverLock name = some (.addLora request)) :
      Step s (.registered name) (s.register request)
  | answered {name : String} (hlock : s.loraResolverLock name = some .listLoras) :
      Step s (.answered name) { s with loraResolverLock := Function.update s.loraResolverLock name none }
  | read {request : LoraRequest} (hissued : request ∈ s.issued) (hout : s.resident request.loraIntId = none) :
      Step s (.read request)
        { s with resident := Function.update s.resident request.loraIntId (some (s.disk request.loraPath)) }
  | evicted (id : ℕ) : Step s (.evicted id) { s with resident := Function.update s.resident id none }
  | asked {request : LoraRequest} (htable : s.loraRequests request.loraName = some request) :
      Step s (.asked request) { s with asked := request :: s.asked }
  | served {request : LoraRequest} {version : ℕ} (hasked : request ∈ s.asked)
      (hresident : s.resident request.loraIntId = some version) :
      Step s (.served request version) { s with asked := s.asked.erase request }

theorem update_eq_some {α β : Type*} [DecidableEq α] {f : α → Option β} {a b : α} {o : Option β} {x : β}
    (h : Function.update f a o b = some x) : b = a ∧ o = some x ∨ b ≠ a ∧ f b = some x := by
  by_cases hb : b = a
  · subst hb
    rw [Function.update_self] at h
    exact .inl ⟨rfl, h⟩
  · rw [Function.update_of_ne hb] at h
    exact .inr ⟨hb, h⟩

variable {s s' : Server} {e : Event} {events : List Event}

structure Numbered (s : Server) : Prop where
  issuedIds : (s.issued.map LoraRequest.loraIntId).Nodup
  counted : ∀ q ∈ s.issued, q.loraIntId ≤ s.loraIdCounter
  resident : ∀ {id v}, s.resident id = some v → id ≤ s.loraIdCounter
  adding : ∀ {name q}, s.loraResolverLock name = some (.addLora q) → q.loraName = name ∧ q ∈ s.issued
  table : ∀ {name q}, s.loraRequests name = some q → q ∈ s.issued
  asked : ∀ q ∈ s.asked, q ∈ s.issued

theorem Numbered.add (h : Numbered s) (name path : String) : Numbered (s.add name path) where
  issuedIds := by
    refine List.nodup_cons.mpr ⟨?_, h.issuedIds⟩
    intro hused
    obtain ⟨q, hq, hid⟩ := List.mem_map.mp hused
    have hle := h.counted q hq
    change q.loraIntId = s.loraIdCounter + 1 at hid
    omega
  counted q hq := by
    rcases List.mem_cons.mp hq with rfl | hq
    · exact le_rfl
    · exact (h.counted q hq).trans (Nat.le_succ _)
  resident hv := Nat.le_succ_of_le (h.resident hv)
  adding hq := by
    rcases update_eq_some hq with ⟨rfl, hq⟩ | ⟨-, hq⟩
    · cases hq
      exact ⟨rfl, List.mem_cons_self⟩
    · exact ⟨(h.adding hq).1, List.mem_cons_of_mem _ (h.adding hq).2⟩
  table hq := List.mem_cons_of_mem _ (h.table hq)
  asked q hq := List.mem_cons_of_mem _ (h.asked q hq)

theorem Numbered.lock (h : Numbered s) (name : String) {phase : Option Loading}
    (hphase : ∀ q, phase ≠ some (.addLora q)) :
    Numbered { s with loraResolverLock := Function.update s.loraResolverLock name phase } := by
  refine ⟨h.issuedIds, h.counted, h.resident, ?_, h.table, h.asked⟩
  intro other q hq
  rcases update_eq_some hq with ⟨-, hq⟩ | ⟨-, hq⟩
  · exact absurd hq (hphase q)
  · exact h.adding hq

theorem Numbered.enter (h : Numbered s) (name path : String) : Numbered (s.enter name path) := by
  unfold Server.enter
  cases s.loraRequests name with
  | none => exact h.add name path
  | some old => exact h.lock name nofun

theorem Numbered.step (h : Numbered s) (hstep : Step s e s') : Numbered s' := by
  cases hstep with
  | wrote path => exact ⟨h.issuedIds, h.counted, h.resident, h.adding, h.table, h.asked⟩
  | entered name path => exact h.enter name path
  | removed hlock => exact h.add _ _
  | @registered name request hlock =>
    have hlisting : ∀ q, some Loading.listLoras ≠ some (.addLora q) := nofun
    have hlocked := h.lock request.loraName hlisting
    refine ⟨h.issuedIds, h.counted, h.resident, hlocked.adding, ?_, h.asked⟩
    intro other q hq
    rcases update_eq_some hq with ⟨-, hq⟩ | ⟨-, hq⟩
    · cases hq
      exact (h.adding hlock).2
    · exact h.table hq
  | answered hlock => exact h.lock _ nofun
  | @read request hissued hout =>
    refine ⟨h.issuedIds, h.counted, ?_, h.adding, h.table, h.asked⟩
    intro id v hv
    rcases update_eq_some hv with ⟨rfl, -⟩ | ⟨-, hv⟩
    · exact h.counted request hissued
    · exact h.resident hv
  | evicted out =>
    refine ⟨h.issuedIds, h.counted, ?_, h.adding, h.table, h.asked⟩
    intro id v hv
    rcases update_eq_some hv with ⟨-, hv⟩ | ⟨-, hv⟩
    · cases hv
    · exact h.resident hv
  | @asked request htable =>
    refine ⟨h.issuedIds, h.counted, h.resident, h.adding, h.table, ?_⟩
    intro q hq
    rcases List.mem_cons.mp hq with rfl | hq
    · exact h.table htable
    · exact h.asked q hq
  | served hasked hresident =>
    exact ⟨h.issuedIds, h.counted, h.resident, h.adding, h.table, fun q hq => h.asked q (List.mem_of_mem_erase hq)⟩

theorem Numbered.run {start : Server} (h : Numbered start) (hrun : Run Step start s events) : Numbered s := by
  apply Run.invariant (fun s _ => Numbered s) h _ hrun
  intro s _ e s' hs hstep
  exact hs.step hstep

theorem numbered_start : Numbered {} := ⟨.nil, nofun, nofun, nofun, nofun, nofun⟩

theorem disk_step (path : String) (hstep : Step s e s') : s'.disk path = s.disk path + [e].count (.wrote path) := by
  cases hstep with
  | wrote other =>
    by_cases hother : path = other
    · subst hother
      simp
    · have hne : other ≠ path := fun heq => hother heq.symm
      simp [hother, hne]
  | entered name other =>
    unfold Server.enter
    cases s.loraRequests name <;> simp [Server.add]
  | _ => simp [Server.add, Server.register]

theorem disk_run {start : Server} (path : String) (h : Run Step start s events) :
    s.disk path = start.disk path + events.count (.wrote path) := by
  induction h with
  | nil => simp
  | snoc _ last ih => rw [disk_step path last, ih, List.count_append, Nat.add_assoc]

structure Since (before s : Server) : Prop where
  counter : before.loraIdCounter ≤ s.loraIdCounter
  disk : ∀ path, before.disk path ≤ s.disk path
  read : ∀ q ∈ s.issued, before.loraIdCounter < q.loraIntId → ∀ {v}, s.resident q.loraIntId = some v →
    before.disk q.loraPath ≤ v

variable {before : Server} {name : String}

theorem Since.add (hs : Numbered s) (h : Since before s) (name path : String) : Since before (s.add name path) where
  counter := h.counter.trans (Nat.le_succ _)
  disk := h.disk
  read q hq hlater v hv := by
    rcases List.mem_cons.mp hq with rfl | hq
    · exact absurd (hs.resident hv) (Nat.not_succ_le_self _)
    · exact h.read q hq hlater hv

theorem Since.step (hs : Numbered s) (h : Since before s) (hstep : Step s e s') : Since before s' := by
  have hdisk (path : String) : before.disk path ≤ s'.disk path := by
    rw [disk_step path hstep]
    exact (h.disk path).trans (Nat.le_add_right _ _)
  cases hstep with
  | entered name path =>
    unfold Server.enter
    cases s.loraRequests name with
    | none => exact h.add hs name path
    | some old => exact ⟨h.counter, h.disk, h.read⟩
  | removed hlock => exact h.add hs _ _
  | @read request hissued hout =>
    refine ⟨h.counter, h.disk, ?_⟩
    intro q hq hlater v hv
    rcases update_eq_some hv with ⟨hid, hv⟩ | ⟨-, hv⟩
    · rw [List.inj_on_of_nodup_map hs.issuedIds hq hissued hid]
      cases hv
      exact h.disk _
    · exact h.read q hq hlater hv
  | evicted out =>
    refine ⟨h.counter, h.disk, ?_⟩
    intro q hq hlater v hv
    rcases update_eq_some hv with ⟨-, hv⟩ | ⟨-, hv⟩
    · cases hv
    · exact h.read q hq hlater hv
  | _ => exact ⟨h.counter, hdisk, h.read⟩

structure Later (before s : Server) : Prop where
  numbered : Numbered s
  since : Since before s

theorem Numbered.later (h : Numbered s) : Later s s where
  numbered := h
  since := ⟨le_rfl, fun _ => le_rfl, fun q hq hlater _ _ => absurd (h.counted q hq) (not_le.mpr hlater)⟩

theorem Later.step (h : Later before s) (hstep : Step s e s') : Later before s' :=
  ⟨h.numbered.step hstep, h.since.step h.numbered hstep⟩

theorem Later.run {start : Server} (h : Later before start) (hrun : Run Step start s events) : Later before s := by
  apply Run.invariant (fun s _ => Later before s) h _ hrun
  intro s _ e s' hs hstep
  exact hs.step hstep

namespace Server

def ofName (s : Server) (name : String) : Option Loading × Option LoraRequest :=
  (s.loraResolverLock name, s.loraRequests name)

end Server

inductive NameStep (name : String) (n : ℕ) :
    Event → Option Loading × Option LoraRequest → Option Loading × Option LoraRequest → Prop
  | other {e : Event} {x : Option Loading × Option LoraRequest} (hentered : ∀ path, e ≠ .entered name path)
      (hanswered : e ≠ .answered name) : NameStep name n e x x
  | replacing {path : String} {old : LoraRequest} :
      NameStep name n (.entered name path) (none, some old) (some (.removeLora path), some old)
  | entered {path : String} :
      NameStep name n (.entered name path) (none, none) (some (.addLora ⟨name, n + 1, path⟩), none)
  | removed {path : String} {adapter : Option LoraRequest} :
      NameStep name n (.removed name) (some (.removeLora path), adapter) (some (.addLora ⟨name, n + 1, path⟩), adapter)
  | registered {request : LoraRequest} {adapter : Option LoraRequest} :
      NameStep name n (.registered name) (some (.addLora request), adapter) (some .listLoras, some request)
  | answered {adapter : Option LoraRequest} :
      NameStep name n (.answered name) (some .listLoras, adapter) (none, adapter)

theorem Server.add_ofName (s : Server) (name path : String) :
    (s.add name path).ofName name = (some (.addLora ⟨name, s.loraIdCounter + 1, path⟩), s.loraRequests name) := by
  simp only [Server.ofName, Server.add, Function.update_self]

theorem Server.add_ofName_of_ne (s : Server) {name other : String} (hne : name ≠ other) (path : String) :
    (s.add other path).ofName name = s.ofName name := by
  simp only [Server.ofName, Server.add, Function.update_of_ne hne]

theorem Step.nameStep (hs : Numbered s) (hstep : Step s e s') (name : String) :
    NameStep name s.loraIdCounter e (s.ofName name) (s'.ofName name) := by
  cases hstep with
  | entered other path hname hpath hfree =>
    by_cases hother : name = other
    · subst hother
      rw [Server.enter]
      cases hadapter : s.loraRequests name with
      | none =>
        dsimp only
        rw [Server.add_ofName, Server.ofName, hfree, hadapter]
        exact .entered
      | some old =>
        simp only [Server.ofName, Function.update_self, hfree, hadapter]
        exact .replacing
    · have hat : (s.enter other path).ofName name = s.ofName name := by
        rw [Server.enter]
        cases s.loraRequests other with
        | none => exact s.add_ofName_of_ne hother path
        | some old =>
          simp only [Server.ofName, Function.update_of_ne hother]
      rw [hat]
      apply NameStep.other
      · intro p heq
        exact hother (Event.entered.inj heq).1.symm
      · nofun
  | @removed other path hlock =>
    by_cases hother : name = other
    · subst hother
      rw [Server.add_ofName, Server.ofName, hlock]
      exact .removed
    · rw [Server.add_ofName_of_ne s hother]
      exact .other nofun nofun
  | @registered other request hlock =>
    have hown := (hs.adding hlock).1
    subst hown
    by_cases hother : name = request.loraName
    · subst hother
      simp only [Server.ofName, Server.register, Function.update_self, hlock]
      exact .registered
    · simp only [Server.ofName, Server.register, Function.update_of_ne hother]
      exact .other nofun nofun
  | @answered other hlock =>
    by_cases hother : name = other
    · subst hother
      simp only [Server.ofName, Function.update_self, hlock]
      exact .answered
    · simp only [Server.ofName, Function.update_of_ne hother]
      apply NameStep.other
      · nofun
      · intro heq
        exact hother (Event.answered.inj heq).symm
  | _ => exact .other nofun nofun

section Reload

variable {n c : ℕ} {P : String → Prop} {x x' : Option Loading × Option LoraRequest}

def Loading.From (n : ℕ) (P : String → Prop) : Option Loading → Prop
  | some (.removeLora path) => P path
  | some (.addLora request) => P request.loraPath ∧ n < request.loraIntId
  | some .listLoras => True
  | none => True

def AdapterFrom (n : ℕ) (P : String → Prop) (adapter : Option LoraRequest) : Prop :=
  ∃ request, adapter = some request ∧ P request.loraPath ∧ n < request.loraIntId

structure Reloading (n : ℕ) (P : String → Prop) (x : Option Loading × Option LoraRequest) : Prop where
  lock : Loading.From n P x.1
  adapter : x.1 = none ∨ x.1 = some .listLoras → AdapterFrom n P x.2

structure Reloaded (n : ℕ) (P : String → Prop) (x : Option Loading × Option LoraRequest) : Prop where
  lock : Loading.From n P x.1
  adapter : AdapterFrom n P x.2

theorem from_step (hn : n ≤ c) (hpaths : ∀ path, e = .entered name path → P path) (h : Loading.From n P x.1)
    (hstep : NameStep name c e x x') : Loading.From n P x'.1 := by
  cases hstep with
  | other => exact h
  | replacing => exact hpaths _ rfl
  | entered => exact ⟨hpaths _ rfl, Nat.lt_succ_of_le hn⟩
  | removed => exact ⟨h, Nat.lt_succ_of_le hn⟩
  | registered => trivial
  | answered => trivial

theorem Reloading.step (hn : n ≤ c) (hpaths : ∀ path, e = .entered name path → P path) (h : Reloading n P x)
    (hstep : NameStep name c e x x') : Reloading n P x' := by
  refine ⟨from_step hn hpaths h.lock hstep, ?_⟩
  intro hidle
  cases hstep with
  | other => exact h.adapter hidle
  | registered => exact ⟨_, rfl, h.lock⟩
  | answered => exact h.adapter (.inr rfl)
  | _ => simp at hidle

theorem Reloaded.step (hn : n ≤ c) (hpaths : ∀ path, e = .entered name path → P path) (h : Reloaded n P x)
    (hstep : NameStep name c e x x') : Reloaded n P x' := by
  refine ⟨from_step hn hpaths h.lock hstep, ?_⟩
  cases hstep with
  | registered => exact ⟨_, rfl, h.lock⟩
  | _ => exact h.adapter

theorem Reloading.answered (h : Reloading n P x) (hstep : NameStep name c (.answered name) x x') : Reloaded n P x' := by
  cases hstep with
  | other _ hanswered => exact absurd rfl hanswered
  | answered => exact ⟨trivial, h.adapter (.inr rfl)⟩

theorem reloading_of_entered {path : String} (hP : P path) (hstep : NameStep name n (.entered name path) x x') :
    Reloading n P x' := by
  cases hstep with
  | other hentered => exact absurd rfl (hentered path)
  | replacing => exact ⟨hP, by simp⟩
  | entered => exact ⟨⟨hP, Nat.lt_succ_self n⟩, by simp⟩

theorem name_run {Inv : Option Loading × Option LoraRequest → Prop}
    (hinv : ∀ {c e x x'}, n ≤ c → (∀ path, e = .entered name path → P path) → Inv x → NameStep name c e x x' → Inv x')
    {start : Server} (hstart : Later before start) (hn : n ≤ before.loraIdCounter) (h : Inv (start.ofName name))
    (hrun : Run Step start s events) (hpaths : ∀ path, .entered name path ∈ events → P path) : Inv (s.ofName name) := by
  induction hrun with
  | nil => exact h
  | snoc earlier last ih =>
    have hlater := hstart.run earlier
    apply hinv (hn.trans hlater.since.counter) _ (ih _) (last.nameStep hlater.numbered name)
    · rintro path rfl
      exact hpaths path (List.mem_append_right _ (List.mem_singleton_self _))
    · intro path hpath
      exact hpaths path (List.mem_append_left _ hpath)

end Reload

theorem served_reloaded {path : String} {started answered asked served : List Event} {request : LoraRequest}
    {version : ℕ} (h : Run Step {} s (started ++ .entered request.loraName path :: answered ++
      .answered request.loraName :: asked ++ .asked request :: served ++ [.served request version])) :
    started.count (.wrote request.loraPath) ≤ version ∧
      ((∀ other, .entered request.loraName other ∉ answered ++ asked) → request.loraPath = path) := by
  obtain ⟨atServed, h, hserved⟩ := h.last
  obtain ⟨atAsked, h, hserving⟩ := h.split
  obtain ⟨afterAsked, hasked, hserving⟩ := hserving.first
  obtain ⟨atAnswered, h, hreloaded⟩ := h.split
  obtain ⟨afterAnswered, hanswered, hreloaded⟩ := hreloaded.first
  obtain ⟨before, h, hreloading⟩ := h.split
  obtain ⟨afterEntered, hentered, hreloading⟩ := hreloading.first
  let P (other : String) : Prop := (∀ other, .entered request.loraName other ∉ answered ++ asked) → other = path
  have hbefore := numbered_start.run h
  have hwrites : before.disk request.loraPath = started.count (.wrote request.loraPath) := by
    rw [disk_run request.loraPath h, Nat.zero_add]
  have hafterEntered := hbefore.later.step hentered
  have hatAnswered := hafterEntered.run hreloading
  have hafterAnswered := hatAnswered.step hanswered
  have hatServed := ((hafterAnswered.run hreloaded).step hasked).run hserving
  have hloading : Reloading before.loraIdCounter P (atAnswered.ofName request.loraName) := by
    apply name_run Reloading.step hafterEntered le_rfl _ hreloading
    · intro other hother hnone
      exact absurd (List.mem_append_left _ hother) (hnone other)
    · exact reloading_of_entered (fun _ => rfl) (hentered.nameStep hbefore _)
  have hloaded : Reloaded before.loraIdCounter P (atAsked.ofName request.loraName) := by
    apply name_run Reloaded.step hafterAnswered le_rfl _ hreloaded
    · intro other hother hnone
      exact absurd (List.mem_append_right _ hother) (hnone other)
    · exact hloading.answered (hanswered.nameStep hatAnswered.numbered _)
  obtain ⟨registered, hadapter, hpath, hid⟩ := hloaded.adapter
  cases hasked with
  | asked htable =>
    cases htable.symm.trans hadapter
    cases hserved with
    | served hasked hresident =>
      have hversion := hatServed.since.read request (hatServed.numbered.asked _ hasked) hid hresident
      rw [hwrites] at hversion
      exact ⟨hversion, hpath⟩

def loadedFirst : LoraRequest := ⟨"policy", 1, "adapter"⟩

def loadedAgain : LoraRequest := ⟨"policy", 2, "adapter"⟩

def firstLoad : List Event :=
  [.wrote "adapter", .entered "policy" "adapter", .read loadedFirst, .registered "policy", .answered "policy",
    .asked loadedFirst, .served loadedFirst 1, .wrote "adapter"]

theorem reload_run : ∃ s, Run Step {} s (firstLoad ++ .entered loadedAgain.loraName "adapter" ::
    [.removed "policy", .registered "policy"] ++ .answered loadedAgain.loraName :: [] ++
      .asked loadedAgain :: [.read loadedAgain] ++ [.served loadedAgain 2]) := by
  have hwritten : Run Step {} _ [.wrote "adapter"] := .snoc .nil (.wrote "adapter")
  have hread := (hwritten.snoc (.entered "policy" "adapter" (by decide) (by decide) rfl)).snoc
    (@Step.read _ loadedFirst (.head _) rfl)
  have hloaded := (hread.snoc (@Step.registered _ "policy" loadedFirst rfl)).snoc (@Step.answered _ "policy" rfl)
  have hserved := (hloaded.snoc (@Step.asked _ loadedFirst rfl)).snoc (@Step.served _ loadedFirst 1 (.head _) rfl)
  have hwritten := hserved.snoc (.wrote "adapter")
  have hremoved := (hwritten.snoc (.entered "policy" "adapter" (by decide) (by decide) rfl)).snoc
    (@Step.removed _ "policy" "adapter" rfl)
  have hloaded := (hremoved.snoc (@Step.registered _ "policy" loadedAgain rfl)).snoc (@Step.answered _ "policy" rfl)
  have hread := (hloaded.snoc (@Step.asked _ loadedAgain rfl)).snoc (@Step.read _ loadedAgain (.head _) rfl)
  exact ⟨_, hread.snoc (@Step.served _ loadedAgain 2 (.head _) rfl)⟩

theorem served_reloaded_policy :
    firstLoad.count (.wrote loadedAgain.loraPath) ≤ 2 ∧ loadedAgain.loraPath = "adapter" := by
  obtain ⟨s, h⟩ := reload_run
  obtain ⟨hversion, hpath⟩ := served_reloaded h
  exact ⟨hversion, hpath (by simp)⟩

end TokensThatSuffice.LoraReload
