import TokensThatSuffice.RouterCounts

namespace TokensThatSuffice.Router

structure Dispatch where
  key : Option String
  before : System
  idx : ℕ
  deriving DecidableEq, Repr

structure FewestInFlight (inflight : List ℤ) (idx : ℕ) : Prop where
  lt : idx < inflight.length
  least : ∀ j < inflight.length, inflight.getD idx 0 ≤ inflight.getD j 0
  first : ∀ j < idx, inflight.getD idx 0 < inflight.getD j 0

theorem minBy_le (f : ℕ → ℤ) (best : ℕ) (rest : List ℕ) :
    f (minBy f best rest) ≤ f best ∧ ∀ i ∈ rest, f (minBy f best rest) ≤ f i := by
  induction rest generalizing best with
  | nil => exact ⟨Int.le_refl _, by simp⟩
  | cons i rest ih =>
    rw [minBy]
    split_ifs with hlt
    · obtain ⟨hi, hrest⟩ := ih i
      refine ⟨by omega, ?_⟩
      intro j hj
      rcases List.mem_cons.mp hj with rfl | hj
      · exact hi
      · exact hrest j hj
    · obtain ⟨hbest, hrest⟩ := ih best
      refine ⟨hbest, ?_⟩
      intro j hj
      rcases List.mem_cons.mp hj with rfl | hj
      · omega
      · exact hrest j hj

theorem minBy_first (f : ℕ → ℤ) {best : ℕ} {rest : List ℕ} (hsorted : (best :: rest).Pairwise (· < ·)) :
    ∀ j ∈ best :: rest, j < minBy f best rest → f (minBy f best rest) < f j := by
  induction rest generalizing best with
  | nil =>
    intro j hj hlt
    rw [List.mem_singleton.mp hj] at hlt
    exact absurd hlt (Nat.lt_irrefl _)
  | cons i rest ih =>
    obtain ⟨hhead, htail⟩ := List.pairwise_cons.mp hsorted
    intro j hj hlt
    rw [minBy] at hlt ⊢
    split_ifs at hlt ⊢ with hi
    · rcases List.mem_cons.mp hj with rfl | hj
      · exact Int.lt_of_le_of_lt (minBy_le f i rest).1 hi
      · exact ih htail j hj hlt
    · have hskip : (best :: rest).Pairwise (· < ·) := hsorted.sublist (.cons_cons best (.cons i (.refl rest)))
      rcases List.mem_cons.mp hj with rfl | hj
      · exact ih hskip _ List.mem_cons_self hlt
      · rcases List.mem_cons.mp hj with rfl | hj
        · have hne : minBy f best rest ≠ best := by
            intro heq
            have := hhead j List.mem_cons_self
            omega
          have hbest : best < minBy f best rest := by
            rcases List.mem_cons.mp (minBy_mem f best rest) with h | h
            · exact absurd h hne
            · exact hhead _ (List.mem_cons_of_mem j h)
          have hless := ih hskip best List.mem_cons_self hbest
          omega
        · exact ih hskip j (List.mem_cons_of_mem best hj) hlt

theorem leastLoaded_fewest {inflight : List ℤ} {idx : ℕ} (h : leastLoaded inflight = .ok idx) :
    FewestInFlight inflight idx := by
  have hlt := leastLoaded_lt h
  obtain ⟨i, rest, hrange, rfl⟩ := leastLoaded_minBy h
  have hmem (j : ℕ) (hj : j < inflight.length) : j ∈ i :: rest := by
    rw [← hrange, List.mem_range]
    exact hj
  refine ⟨hlt, ?_, ?_⟩
  · intro j hj
    obtain ⟨hi, hrest⟩ := minBy_le (fun i => inflight.getD i 0) i rest
    rcases List.mem_cons.mp (hmem j hj) with rfl | hj
    · exact hi
    · exact hrest j hj
  · intro j hj
    have hsorted : (i :: rest).Pairwise (· < ·) := by
      rw [← hrange]
      exact List.pairwise_lt_range
    exact minBy_first (fun i => inflight.getD i 0) hsorted j (hmem j (hj.trans hlt)) hj

theorem FewestInFlight.unique {inflight : List ℤ} {i j : ℕ} (hi : FewestInFlight inflight i)
    (hj : FewestInFlight inflight j) : i = j := by
  have hij := hi.least j hj.lt
  have hji := hj.least i hi.lt
  rcases lt_trichotomy i j with hlt | heq | hlt
  · have := hj.first i hlt
    omega
  · exact heq
  · have := hi.first j hlt
    omega

theorem leastLoaded_ok {inflight : List ℤ} (h : 0 < inflight.length) : ∃ idx, leastLoaded inflight = .ok idx := by
  unfold leastLoaded
  split
  · next hrange =>
    rw [List.range_eq_nil] at hrange
    omega
  · exact ⟨_, rfl⟩

/-- The requests that are really in flight, backend by backend. -/
def System.load (s : System) : List ℤ :=
  (List.range s.router.inflight.length).map fun i => (s.requests.countP (·.activeOn i) : ℤ)

def System.abandoned (s : System) : List ℤ :=
  (List.range s.router.inflight.length).map fun i => (s.requests.count (.dropped i) : ℤ)

def System.Undropped (s : System) : Prop := ∀ i, .dropped i ∉ s.requests

def System.Balanced (s : System) : Prop :=
  ∃ i, FewestInFlight s.load i ∧ FewestInFlight (s.load.zipWith (· + ·) s.abandoned) i

theorem Counted.inflight_eq {s : System} (h : Counted s) :
    s.router.inflight = s.load.zipWith (· + ·) s.abandoned := by
  apply List.ext_getElem
  · simp [System.load, System.abandoned]
  · intro i hi _
    have hcount := h.counts i hi
    rw [List.getElem?_eq_getElem hi, Option.some.injEq, slotCount_eq] at hcount
    simp [System.load, System.abandoned, hcount]

theorem Counted.load_eq {s : System} (h : Counted s) (hundropped : s.Undropped) : s.router.inflight = s.load := by
  have hzero (i : ℕ) : s.requests.count (.dropped i) = 0 := List.count_eq_zero.mpr (hundropped i)
  rw [h.inflight_eq]
  apply List.ext_getElem
  · simp [System.load, System.abandoned]
  · intro i hi _
    simp [System.abandoned, hzero]

theorem fewest_iff_balanced {s : System} (h : Counted s) {idx : ℕ} (hidx : FewestInFlight s.router.inflight idx) :
    FewestInFlight s.load idx ↔ s.Balanced := by
  rw [h.inflight_eq] at hidx
  constructor
  · intro hload
    exact ⟨idx, hload, hidx⟩
  · rintro ⟨i, hload, hheld⟩
    rwa [hidx.unique hheld]

theorem balanced_of_undropped {s : System} (h : Counted s) {idx : ℕ} (hidx : FewestInFlight s.router.inflight idx)
    (hundropped : s.Undropped) : s.Balanced := by
  rw [← fewest_iff_balanced h hidx, ← h.load_eq hundropped]
  exact hidx

theorem pickBackend_succeeds (key : Option String) {s : State} (h : 0 < s.inflight.length) :
    ∃ idx s', pickBackend key s = .ok (idx, s') := by
  unfold pickBackend
  split
  · exact ⟨_, _, rfl⟩
  · obtain ⟨idx, hidx⟩ := leastLoaded_ok h
    rw [hidx]
    exact ⟨_, _, rfl⟩

theorem pickBackend_length {key : Option String} {s s' : State} {idx : ℕ} (h : pickBackend key s = .ok (idx, s')) :
    s'.inflight.length = s.inflight.length := by
  rcases pickBackend_ok h with ⟨k, -, -, rfl⟩ | ⟨-, -, rfl⟩
  · exact List.length_modify _ _ _
  · cases key with
    | none => exact List.length_modify _ _ _
    | some k => exact List.length_modify _ _ _

variable (py : Python) (d : Digest)

def dispatchOf (raw : String) (s : System) : Option Dispatch :=
  match py.loads raw with
  | none => none
  | some body =>
    match conversationKey d body with
    | .error _ => none
    | .ok key =>
      match pickBackend key s.router with
      | .error _ => none
      | .ok (idx, _) => some ⟨key, s, idx⟩

def dispatched (s : System) : Event → List Dispatch
  | .arrive raw => (dispatchOf py d raw s).toList
  | _ => []

theorem dispatchOf_eq {raw : String} {body : Json} {key : Option String} {s : System} {r : State} {idx : ℕ}
    (hbody : py.loads raw = some body) (hkey : conversationKey d body = .ok key)
    (hpick : pickBackend key s.router = .ok (idx, r)) : dispatchOf py d raw s = some ⟨key, s, idx⟩ := by
  simp only [dispatchOf, hbody, hkey, hpick]

theorem dispatchOf_cases (raw : String) (s : System) :
    (dispatchOf py d raw s = none ∧ (enter py d raw s.router).2 = s.router) ∨ ∃ key idx,
      dispatchOf py d raw s = some ⟨key, s, idx⟩ ∧
        pickBackend key s.router = .ok (idx, (enter py d raw s.router).2) := by
  rcases enter_cases py d raw s.router with ⟨hover, hnone⟩ | ⟨body, key, idx, s', hbody, hkey, hpick, henter⟩
  · refine .inl ⟨?_, by rw [hover]⟩
    unfold dispatchOf
    split
    · rfl
    · next body hbody =>
      split
      · rfl
      · next key hkey =>
        split
        · rfl
        · next idx s' hpick => exact absurd hpick (hnone body key _ hbody hkey)
  · refine .inr ⟨key, idx, dispatchOf_eq py d hbody hkey hpick, ?_⟩
    rcases henter with henter | henter
    · rw [henter, hpick]
    · rw [henter, hpick]

def PinnedKey (history : List Dispatch) (s : State) (k : String) : Prop :=
  (s.affinity.lookup k = none ∧ ∀ x ∈ history, x.key ≠ some k) ∨
    ∃ first, history.find? (fun x => x.key = some k) = some first ∧ Counted first.before ∧
      FewestInFlight first.before.router.inflight first.idx ∧ s.affinity.lookup k = some first.idx ∧
        ∀ x ∈ history, x.key = some k → x.idx = first.idx

def Pinned (history : List Dispatch) (s : State) : Prop := ∀ k, PinnedKey history s k

theorem Pinned.initial (backends : ℕ) : Pinned [] (.initial backends) := by
  intro k
  exact .inl ⟨rfl, by simp⟩

theorem PinnedKey.affinity {history : List Dispatch} {s s' : State} {k : String} (h : PinnedKey history s k)
    (hsame : s'.affinity = s.affinity) : PinnedKey history s' k := by
  rwa [PinnedKey, hsame]

theorem PinnedKey.snoc {history : List Dispatch} {s : State} {k : String} (h : PinnedKey history s k) (x : Dispatch)
    (hx : x.key = some k → s.affinity.lookup k = some x.idx) : PinnedKey (history ++ [x]) s k := by
  rcases h with ⟨hnone, hhistory⟩ | ⟨first, hfirst, hcounted, hfewest, hlookup, hsame⟩
  · refine .inl ⟨hnone, ?_⟩
    intro y hy
    rcases List.mem_append.mp hy with hy | hy
    · exact hhistory y hy
    · intro hkey
      rw [List.mem_singleton.mp hy] at hkey
      rw [hx hkey] at hnone
      cases hnone
  · refine .inr ⟨first, ?_, hcounted, hfewest, hlookup, ?_⟩
    · rw [List.find?_append, hfirst]
      rfl
    · intro y hy hkey
      rcases List.mem_append.mp hy with hy | hy
      · exact hsame y hy hkey
      · rw [List.mem_singleton.mp hy] at hkey ⊢
        rw [hx hkey, Option.some.injEq] at hlookup
        exact hlookup

theorem Pinned.pick {history : List Dispatch} {s : System} {r : State} {key : Option String} {idx : ℕ}
    (h : Pinned history s.router) (hcounted : Counted s) (hpick : pickBackend key s.router = .ok (idx, r)) :
    Pinned (history ++ [⟨key, s, idx⟩]) r := by
  intro k
  rcases pickBackend_ok hpick with ⟨k', rfl, hk', rfl⟩ | ⟨hnone, hleast, rfl⟩
  · apply ((h k).snoc ⟨some k', s, idx⟩ _).affinity rfl
    rintro ⟨⟩
    exact hk'
  · cases key with
    | none =>
      apply ((h k).snoc ⟨none, s, idx⟩ _).affinity rfl
      exact nofun
    | some k' =>
      have haffinity : ((s.router.pin (some k') idx).hold idx).affinity = s.router.affinity ++ [(k', idx)] := rfl
      rw [Option.bind_some] at hnone
      by_cases hk : k = k'
      · subst hk
        rcases h k with ⟨-, hhistory⟩ | ⟨first, -, -, -, hlookup, -⟩
        · refine .inr ⟨⟨some k, s, idx⟩, ?_, hcounted, leastLoaded_fewest hleast, ?_, ?_⟩
          · have hskip : history.find? (fun x => x.key = some k) = none := by
              rw [List.find?_eq_none]
              intro x hx
              rw [decide_eq_true_eq]
              exact hhistory x hx
            rw [List.find?_append, hskip, List.find?_singleton]
            simp
          · rw [haffinity, List.lookup_append, hnone]
            simp
          · intro x hx hkey
            rcases List.mem_append.mp hx with hx | hx
            · exact absurd hkey (hhistory x hx)
            · rw [List.mem_singleton.mp hx]
        · rw [hnone] at hlookup
          cases hlookup
      · have hlookup : (s.router.affinity ++ [(k', idx)]).lookup k = s.router.affinity.lookup k := by
          have hne : (k == k') = false := beq_false_of_ne hk
          simp [List.lookup_append, List.lookup_cons, hne]
        have hsnoc : PinnedKey (history ++ [⟨some k', s, idx⟩]) s.router k := by
          apply (h k).snoc
          rintro ⟨⟩
          exact absurd rfl hk
        rwa [PinnedKey, haffinity, hlookup]

variable {py d}

theorem Pinned.step {history : List Dispatch} {s s' : System} {e : Event} (h : Pinned history s.router)
    (hcounted : Counted s) (hstep : Step py d s e s') : Pinned (history ++ dispatched py d s e) s'.router := by
  have hsame {r : State} (haffinity : r.affinity = s.router.affinity) : Pinned (history ++ []) r := by
    rw [List.append_nil]
    exact fun k => (h k).affinity haffinity
  cases hstep with
  | arrive _ raw =>
    rw [dispatched]
    rcases dispatchOf_cases py d raw s with ⟨hnone, hstate⟩ | ⟨key, idx, hsome, hpick⟩
    · rw [hnone]
      exact hsame (congrArg State.affinity hstate)
    · rw [hsome]
      exact h.pick hcounted hpick
  | answer r before after idx posted =>
    rw [postBlock_state]
    exact hsame rfl
  | start r before after idx => exact hsame rfl
  | finish r before after idx sent forwarded closed =>
    rw [streamBlock_state]
    exact hsame rfl
  | drop r before after idx => exact hsame rfl

theorem step_backends {s s' : System} {e : Event} (hstep : Step py d s e s') :
    s'.router.inflight.length = s.router.inflight.length := by
  cases hstep with
  | arrive _ raw =>
    rcases dispatchOf_cases py d raw s with ⟨-, hstate⟩ | ⟨key, idx, -, hpick⟩
    · rw [hstate]
    · exact pickBackend_length hpick
  | answer r before after idx posted =>
    rw [postBlock_state]
    exact List.length_modify _ _ _
  | start r before after idx => rfl
  | finish r before after idx sent forwarded closed =>
    rw [streamBlock_state]
    exact List.length_modify _ _ _
  | drop r before after idx => rfl

end TokensThatSuffice.Router
