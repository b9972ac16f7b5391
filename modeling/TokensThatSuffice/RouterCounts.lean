import TokensThatSuffice.Router
import TokensThatSuffice.Runs

namespace TokensThatSuffice.Router

open Runs TryBlocks

def Phase.slot : Phase → Option ℕ
  | .posting idx => some idx
  | .returned idx => some idx
  | .streaming idx => some idx
  | .ended => none
  | .dropped idx => some idx

def Phase.isOver : Phase → Bool
  | .ended => true
  | .dropped _ => true
  | _ => false

def Phase.activeOn (i : ℕ) (r : Phase) : Bool := r.slot = some i && !r.isOver

structure ExactCounts (s : System) : Prop where
  exact : ∀ (i : ℕ) (n : ℤ), s.router.inflight[i]? = some n → n = s.requests.countP (·.activeOn i)
  nonneg : ∀ n ∈ s.router.inflight, 0 ≤ n
  drained : (∀ r ∈ s.requests, r.isOver = true) → ∀ n ∈ s.router.inflight, n = 0

theorem exactCounts_of_exact {s : System}
    (h : ∀ (i : ℕ) (n : ℤ), s.router.inflight[i]? = some n → n = s.requests.countP (·.activeOn i)) :
    ExactCounts s := by
  refine ⟨h, ?_, ?_⟩
  · intro n hn
    obtain ⟨i, hi⟩ := List.mem_iff_getElem?.mp hn
    rw [h i n hi]
    exact Int.natCast_nonneg _
  · intro hended n hn
    obtain ⟨i, hi⟩ := List.mem_iff_getElem?.mp hn
    rw [h i n hi, Int.natCast_eq_zero, List.countP_eq_zero]
    intro r hr
    rw [Phase.activeOn, hended r hr, Bool.not_true, Bool.and_false]
    exact Bool.false_ne_true

section Picking

theorem minBy_mem (f : ℕ → ℤ) (best : ℕ) (rest : List ℕ) : minBy f best rest ∈ best :: rest := by
  induction rest generalizing best with
  | nil => exact List.mem_singleton_self best
  | cons i rest ih =>
    rw [minBy]
    split_ifs
    · exact List.mem_cons_of_mem best (ih i)
    · rcases List.mem_cons.mp (ih best) with h | h
      · rw [h]
        exact List.mem_cons_self
      · exact List.mem_cons_of_mem best (List.mem_cons_of_mem i h)

theorem leastLoaded_minBy {inflight : List ℤ} {idx : ℕ} (h : leastLoaded inflight = .ok idx) :
    ∃ i rest, List.range inflight.length = i :: rest ∧ idx = minBy (fun i => inflight.getD i 0) i rest := by
  unfold leastLoaded at h
  split at h
  · cases h
  · next i rest hrange => exact ⟨i, rest, hrange, (Except.ok.inj h).symm⟩

theorem leastLoaded_lt {inflight : List ℤ} {idx : ℕ} (h : leastLoaded inflight = .ok idx) :
    idx < inflight.length := by
  obtain ⟨i, rest, hrange, rfl⟩ := leastLoaded_minBy h
  have hmem := minBy_mem (fun i => inflight.getD i 0) i rest
  rw [← hrange, List.mem_range] at hmem
  exact hmem

theorem pickBackend_ok {key : Option String} {s s' : State} {idx : ℕ} (h : pickBackend key s = .ok (idx, s')) :
    (∃ k, key = some k ∧ s.affinity.lookup k = some idx ∧ s' = s.hold idx) ∨
      (key.bind (fun k => s.affinity.lookup k) = none ∧ leastLoaded s.inflight = .ok idx ∧
        s' = (s.pin key idx).hold idx) := by
  unfold pickBackend at h
  split at h
  · next i hi =>
    cases h
    obtain ⟨k, rfl, hk⟩ := Option.bind_eq_some_iff.mp hi
    exact .inl ⟨k, rfl, hk, rfl⟩
  · next hnone =>
    obtain ⟨i, hi, h⟩ := bind_eq_ok.mp h
    cases h
    exact .inr ⟨hnone, hi, rfl⟩

end Picking

def slotCount (requests : List Phase) (i : ℕ) : ℕ := requests.countP (fun r => r.slot = some i)

theorem slotCount_append (xs ys : List Phase) (i : ℕ) : slotCount (xs ++ ys) i = slotCount xs i + slotCount ys i :=
  List.countP_append

theorem slotCount_cons (p : Phase) (rest : List Phase) (i : ℕ) :
    slotCount (p :: rest) i = slotCount rest i + if p.slot = some i then 1 else 0 := by
  rw [slotCount, List.countP_cons]
  simp only [decide_eq_true_eq]
  rfl

structure Counted (s : System) : Prop where
  pinned : ∀ e ∈ s.router.affinity, e.2 < s.router.inflight.length
  slots : ∀ r ∈ s.requests, ∀ i, r.slot = some i → i < s.router.inflight.length
  counts : ∀ i < s.router.inflight.length,
    s.router.inflight[i]? = some (slotCount s.requests i : ℤ)

namespace Counted

variable {r : State} {before after : List Phase} {requests : List Phase}

theorem initial (backends : ℕ) : Counted (.initial backends) := by
  constructor
  · intro e he
    cases he
  · intro r hr
    cases hr
  · intro i hi
    rw [System.initial, State.initial, List.length_replicate] at hi
    exact List.getElem?_replicate_of_lt hi

theorem lookup_lt {s : System} (h : Counted s) {k : String} {idx : ℕ} (hk : s.router.affinity.lookup k = some idx) :
    idx < s.router.inflight.length := by
  obtain ⟨xs, ys, haffinity, -⟩ := List.lookup_eq_some_iff.mp hk
  apply h.pinned (k, idx)
  rw [haffinity]
  exact List.mem_append_right xs List.mem_cons_self

theorem pin {s : System} (h : Counted s) (key : Option String) {idx : ℕ} (hidx : idx < s.router.inflight.length) :
    Counted ⟨s.router.pin key idx, s.requests⟩ := by
  cases key with
  | none => exact h
  | some k =>
    refine ⟨?_, h.slots, h.counts⟩
    intro e he
    rcases List.mem_append.mp he with he | he
    · exact h.pinned e he
    · rw [List.mem_singleton.mp he]
      exact hidx

theorem hold (h : Counted ⟨r, requests⟩) {idx : ℕ} (hidx : idx < r.inflight.length) {p : Phase}
    (hp : p.slot = some idx) : Counted ⟨r.hold idx, requests ++ [p]⟩ := by
  have hlen : (r.hold idx).inflight.length = r.inflight.length := List.length_modify _ _ _
  constructor
  · intro e he
    rw [hlen]
    exact h.pinned e he
  · intro q hq i hi
    rw [hlen]
    rcases List.mem_append.mp hq with hq | hq
    · exact h.slots q hq i hi
    · rw [List.mem_singleton.mp hq, hp] at hi
      cases hi
      exact hidx
  · intro i hi
    rw [hlen] at hi
    rw [State.hold, List.getElem?_modify, h.counts i hi, slotCount_append, slotCount_cons, hp]
    by_cases heq : idx = i
    · simp [heq, slotCount]
    · simp [heq, slotCount]

theorem refused (h : Counted ⟨r, requests⟩) : Counted ⟨r, requests ++ [.ended]⟩ := by
  refine ⟨h.pinned, ?_, ?_⟩
  · intro q hq i hi
    rcases List.mem_append.mp hq with hq | hq
    · exact h.slots q hq i hi
    · rw [List.mem_singleton.mp hq] at hi
      cases hi
  · intro i hi
    rw [h.counts i hi, slotCount_append]
    rfl

theorem release {p : Phase} {idx : ℕ} (h : Counted ⟨r, before ++ p :: after⟩) (hp : p.slot = some idx) :
    Counted ⟨Router.release idx r, before ++ .ended :: after⟩ := by
  have hlen : (Router.release idx r).inflight.length = r.inflight.length := List.length_modify _ _ _
  constructor
  · intro e he
    rw [hlen]
    exact h.pinned e he
  · intro q hq i hi
    rw [hlen]
    rcases List.mem_append.mp hq with hq | hq
    · exact h.slots q (List.mem_append_left _ hq) i hi
    · rcases List.mem_cons.mp hq with rfl | hq
      · cases hi
      · exact h.slots q (List.mem_append_right _ (List.mem_cons_of_mem p hq)) i hi
  · intro i hi
    rw [hlen] at hi
    have hended : Phase.ended.slot = none := rfl
    rw [Router.release, List.getElem?_modify, h.counts i hi]
    simp only [slotCount_append, slotCount_cons, hp, hended]
    by_cases heq : idx = i
    · simp only [heq, Option.map_eq_map, Option.map_some, if_true, reduceCtorEq, if_false, Nat.add_zero,
        Option.some.injEq]
      omega
    · simp [heq]

theorem samePlace {p q : Phase} (h : Counted ⟨r, before ++ p :: after⟩) (hpq : q.slot = p.slot) :
    Counted ⟨r, before ++ q :: after⟩ := by
  refine ⟨h.pinned, ?_, ?_⟩
  · intro x hx i hi
    rcases List.mem_append.mp hx with hx | hx
    · exact h.slots x (List.mem_append_left _ hx) i hi
    · rcases List.mem_cons.mp hx with rfl | hx
      · rw [hpq] at hi
        exact h.slots p (List.mem_append_right _ List.mem_cons_self) i hi
      · exact h.slots x (List.mem_append_right _ (List.mem_cons_of_mem p hx)) i hi
  · intro i hi
    rw [h.counts i hi]
    simp only [slotCount_append, slotCount_cons, hpq]

end Counted

section Blocks

theorem postBlock_state (idx : ℕ) (posted : Except Failure Unit) (r : State) :
    (postBlock idx posted r).2 = release idx r := by
  rw [postBlock, tryFinally_state, assign_apply]
  cases posted with
  | ok _ => rw [tryExcept_ok (outcome_apply _ _)]
  | error e =>
    rw [tryExcept_error (outcome_apply _ _)]
    split_ifs <;> rfl

theorem streamBlock_state (idx : ℕ) (sent forwarded closed : Except Failure Unit) (r : State) :
    (streamBlock idx sent forwarded closed r).2 = release idx r := by
  rw [streamBlock, tryFinally_state, assign_apply]
  have hbody : ∀ result : Except Failure Unit, (tryExcept (fun s => (result, s)) Failure.isException
      (fun _ s => s) r).2 = r := by
    intro result
    cases result with
    | ok _ => rw [tryExcept_ok rfl]
    | error e =>
      rw [tryExcept_error rfl]
      split_ifs <;> rfl
  cases sent with
  | error e => exact congrArg (Router.release idx) (hbody (.error e))
  | ok _ =>
    cases closed with
    | error e => exact congrArg (Router.release idx) (hbody (.error e))
    | ok _ => exact congrArg (Router.release idx) (hbody forwarded)

end Blocks

variable {py : Python} {d : Digest}

theorem getKey_ok {body : Json} {a : String} {v : Option Json} (h : body.getKey a = .ok v) (b : String) :
    ∃ w, body.getKey b = .ok w := by
  cases body with
  | object fields => exact ⟨_, rfl⟩
  | _ => cases h

theorem conversationKey_stream {body : Json} {key : Option String} (h : conversationKey d body = .ok key) :
    ∃ stream, body.getKey "stream" = .ok stream := by
  obtain ⟨msgs, hmsgs, -⟩ := bind_eq_ok.mp h
  exact getKey_ok hmsgs "stream"

theorem enter_cases (py : Python) (d : Digest) (raw : String) (s : State) :
    (enter py d raw s = (.ended, s) ∧ ∀ body key picked, py.loads raw = some body →
      conversationKey d body = .ok key → pickBackend key s ≠ .ok picked) ∨
    ∃ body key idx s', py.loads raw = some body ∧ conversationKey d body = .ok key ∧
      pickBackend key s = .ok (idx, s') ∧
      (enter py d raw s = (.returned idx, s') ∨ enter py d raw s = (.posting idx, s')) := by
  rw [enter, accept]
  cases hbody : py.loads raw with
  | none => exact .inl ⟨rfl, nofun⟩
  | some body =>
    dsimp only
    cases hkey : conversationKey d body with
    | error e =>
      refine .inl ⟨rfl, ?_⟩
      rintro _ key picked ⟨⟩ h
      rw [hkey] at h
      cases h
    | ok key =>
      cases hpick : pickBackend key s with
      | error e =>
        rw [ok_bind, hpick]
        refine .inl ⟨rfl, ?_⟩
        rintro _ key' picked ⟨⟩ h
        rw [hkey] at h
        cases h
        rw [hpick]
        exact nofun
      | ok picked =>
        obtain ⟨idx, s'⟩ := picked
        obtain ⟨stream, hstream⟩ := conversationKey_stream hkey
        rw [ok_bind, hpick, ok_bind, hstream]
        refine .inr ⟨body, key, idx, s', rfl, hkey, hpick, ?_⟩
        rw [ok_bind]
        cases hflag : (stream.getD .null).truthy with
        | true => exact .inl rfl
        | false => exact .inr rfl

theorem enter_counted {s : System} (h : Counted s) (raw : String) :
    Counted ⟨(enter py d raw s.router).2, s.requests ++ [(enter py d raw s.router).1]⟩ := by
  rcases enter_cases py d raw s.router with ⟨hended, -⟩ | ⟨body, key, idx, r', -, -, hpick, hphase⟩
  · rw [hended]
    exact h.refused
  · have hhold {p : Phase} (hp : p.slot = some idx) : Counted ⟨r', s.requests ++ [p]⟩ := by
      rcases pickBackend_ok hpick with ⟨k, -, hk, rfl⟩ | ⟨-, hleast, rfl⟩
      · exact h.hold (h.lookup_lt hk) hp
      · have hidx := leastLoaded_lt hleast
        apply (h.pin key hidx).hold _ hp
        cases key with
        | none => exact hidx
        | some k => exact hidx
    rcases hphase with hphase | hphase
    · rw [hphase]
      exact hhold rfl
    · rw [hphase]
      exact hhold rfl

theorem Counted.step {s s' : System} {e : Event} (h : Counted s) (hstep : Step py d s e s') : Counted s' := by
  cases hstep with
  | arrive _ raw => exact enter_counted h raw
  | answer r before after idx posted =>
    rw [postBlock_state]
    exact h.release rfl
  | start r before after idx => exact h.samePlace rfl
  | finish r before after idx sent forwarded closed =>
    rw [streamBlock_state]
    exact h.release rfl
  | drop r before after idx => exact h.samePlace rfl

theorem slotCount_eq (requests : List Phase) (i : ℕ) :
    slotCount requests i = requests.countP (·.activeOn i) + requests.count (.dropped i) := by
  induction requests with
  | nil => rfl
  | cons p rest ih =>
    rw [slotCount_cons, List.countP_cons, List.count_cons, ih]
    cases p with
    | dropped idx =>
      simp [Phase.slot, Phase.activeOn, Phase.isOver]
      omega
    | ended => simp [Phase.slot, Phase.activeOn]
    | _ idx =>
      simp [Phase.slot, Phase.activeOn, Phase.isOver]
      omega

theorem step_dropped {s s' : System} {e : Event} (hstep : Step py d s e s') :
    (∃ i, Phase.dropped i ∈ s'.requests) ↔ (∃ i, Phase.dropped i ∈ s.requests) ∨ e = .drop := by
  cases hstep with
  | arrive _ raw =>
    rcases enter_cases py d raw s.router with ⟨h, -⟩ | ⟨body, key, idx, r', -, -, -, h | h⟩
    · simp [h]
    · simp [h]
    · simp [h]
  | answer r before after idx posted => simp
  | start r before after idx => simp
  | finish r before after idx sent forwarded closed => simp
  | drop r before after idx =>
    refine ⟨fun _ => .inr rfl, fun _ => ⟨idx, ?_⟩⟩
    exact List.mem_append_right before List.mem_cons_self

theorem run_dropped {backends : ℕ} {s : System} {events : List Event}
    (h : Run (Step py d) (.initial backends) s events) :
    (∃ i, Phase.dropped i ∈ s.requests) ↔ Event.drop ∈ events := by
  apply Run.invariant (fun s events => (∃ i, Phase.dropped i ∈ s.requests) ↔ Event.drop ∈ events) _ _ h
  · simp [System.initial]
  · intro s events e s' ih hstep
    rw [step_dropped hstep, ih, List.mem_append, List.mem_singleton, eq_comm (a := e)]

theorem run_counted {backends : ℕ} {s : System} {events : List Event}
    (h : Run (Step py d) (.initial backends) s events) : Counted s := by
  apply Run.invariant (fun s _ => Counted s) (Counted.initial backends) _ h
  intro s events e s' ih hstep
  exact ih.step hstep

theorem inflight_exact_iff {backends : ℕ} {s : System} {events : List Event}
    (h : Run (Step py d) (.initial backends) s events) : ExactCounts s ↔ Event.drop ∉ events := by
  have hcounted := run_counted h
  rw [← run_dropped h]
  constructor
  · rintro hexact ⟨i, hi⟩
    have hlt := hcounted.slots _ hi i rfl
    have hslots := hexact.exact i _ (hcounted.counts i hlt)
    have hpos : 0 < s.requests.count (.dropped i) := List.count_pos_iff.mpr hi
    rw [slotCount_eq] at hslots
    omega
  · intro hnone
    apply exactCounts_of_exact
    intro i n hn
    obtain ⟨hlt, -⟩ := List.getElem?_eq_some_iff.mp hn
    have hzero : s.requests.count (.dropped i) = 0 := by
      rw [List.count_eq_zero]
      intro hi
      exact hnone ⟨i, hi⟩
    rw [hcounted.counts i hlt, Option.some.injEq, slotCount_eq, hzero, Nat.add_zero] at hn
    exact hn.symm

def streamBody : String := "\x7b\"stream\": true\x7d"

def streamPython : Python where
  loads s := if s = streamBody then some (.object [("stream", .bool true)]) else none
  dumps := asciiPython.dumps
  dumpsIndent := asciiPython.dumpsIndent
  repr := asciiPython.repr
  isWord := asciiPython.isWord

def plainDigest : Digest := ⟨streamPython.dumps, id⟩

theorem arrive_stream :
    Step streamPython plainDigest (.initial 1) (.arrive streamBody) ⟨⟨[1], []⟩, [.returned 0]⟩ :=
  .arrive (.initial 1) streamBody

theorem inflight_exact_finished : ExactCounts ⟨⟨[0], []⟩, [.ended]⟩ := by
  have hstart : Step streamPython plainDigest ⟨⟨[1], []⟩, [.returned 0]⟩ .start ⟨⟨[1], []⟩, [.streaming 0]⟩ :=
    .start ⟨[1], []⟩ [] [] 0
  have hfinish : Step streamPython plainDigest ⟨⟨[1], []⟩, [.streaming 0]⟩
      (.finish (.ok ()) (.error .interrupt) (.ok ())) ⟨⟨[0], []⟩, [.ended]⟩ := .finish ⟨[1], []⟩ [] [] 0 _ _ _
  exact (inflight_exact_iff (.snoc (.snoc (.snoc .nil arrive_stream) hstart) hfinish)).mpr (by simp)

theorem inflight_leaks_on_drop : ¬ ∀ (backends : ℕ) (s : System) (events : List Event),
    Run (Step streamPython plainDigest) (.initial backends) s events → ExactCounts s := by
  intro h
  have hdrop : Step streamPython plainDigest ⟨⟨[1], []⟩, [.returned 0]⟩ .drop ⟨⟨[1], []⟩, [.dropped 0]⟩ :=
    .drop ⟨[1], []⟩ [] [] 0
  have hleak := (h 1 _ _ (.snoc (.snoc .nil arrive_stream) hdrop)).drained (by decide) 1 (by decide)
  exact absurd hleak (by decide)

end TokensThatSuffice.Router
