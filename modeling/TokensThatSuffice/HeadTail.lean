import TokensThatSuffice.Messages

namespace TokensThatSuffice.MarkedCuts

variable {α : Type*} {p : α → Bool} {n : ℕ} {pre suf pre' suf' : List α}

def Boundary (p : α → Bool) (pre : List α) : Prop := ∀ x ∈ pre.getLast?, p x = true

structure IsCut (p : α → Bool) (n : ℕ) (pre suf : List α) : Prop where
  boundary : Boundary p pre
  marks : suf.countP p = n

@[simp] theorem boundary_nil : Boundary p [] := by simp [Boundary]

@[simp] theorem boundary_concat (pre : List α) (x : α) : Boundary p (pre ++ [x]) ↔ p x = true := by
  simp [Boundary]

theorem boundary_append (pre : List α) (hs : suf ≠ []) : Boundary p (pre ++ suf) ↔ Boundary p suf := by
  obtain ⟨ys, y, rfl⟩ := List.eq_nil_or_concat suf |>.resolve_left hs
  rw [List.concat_eq_append, ← List.append_assoc, boundary_concat, boundary_concat]

theorem Boundary.eq_nil (h : Boundary p (pre ++ suf)) (hs : suf.countP p = 0) : suf = [] := by
  by_contra hne
  rw [boundary_append pre hne] at h
  obtain ⟨ys, y, rfl⟩ := List.eq_nil_or_concat suf |>.resolve_left hne
  rw [List.concat_eq_append, boundary_concat] at h
  simp [h] at hs

theorem IsCut.unique (h : IsCut p n pre suf) (h' : IsCut p n pre' suf') (heq : pre ++ suf = pre' ++ suf') :
    suf = suf' := by
  rcases List.append_eq_append_iff.mp heq with ⟨mid, hpre, hsuf⟩ | ⟨mid, hpre, hsuf⟩
  · have hmid : mid.countP p = 0 := by
      have := h.marks
      rw [hsuf, List.countP_append, h'.marks] at this
      omega
    rw [hsuf, Boundary.eq_nil (hpre ▸ h'.boundary) hmid, List.nil_append]
  · have hmid : mid.countP p = 0 := by
      have := h'.marks
      rw [hsuf, List.countP_append, h.marks] at this
      omega
    rw [hsuf, Boundary.eq_nil (hpre ▸ h.boundary) hmid, List.nil_append]

end TokensThatSuffice.MarkedCuts

namespace TokensThatSuffice

open MarkedCuts

def toolAt (messages : List Message) (i : ℕ) : Bool := messages[i]?.any Message.isTool

def turnStart (messages : List Message) : ℕ → ℕ
  | 0 => 0
  | j + 1 => if toolAt messages j then j + 1 else turnStart messages j

def lastNTurnsFrom (messages : List Message) (n : ℤ) : ℕ → ℤ → List Message
  | 0, _ => messages
  | i + 1, count =>
    if toolAt messages i then
      if count + 1 = n then messages.drop (turnStart messages i)
      else lastNTurnsFrom messages n i (count + 1)
    else lastNTurnsFrom messages n i count

def lastNTurns (messages : List Message) (n : ℤ) : List Message :=
  if n ≤ 0 then [] else lastNTurnsFrom messages n messages.length 0

structure Split where
  head : List Message
  middle : List Message
  tail : List Message

def splitHeadTail (messages : List Message) (keepFirst : ℕ) (keepLastTurns : ℤ) : Split :=
  let tail := lastNTurns (messages.drop keepFirst) keepLastTurns
  let stop := if tail.isEmpty then messages.length else messages.length - tail.length
  ⟨messages.take keepFirst, (messages.take stop).drop keepFirst, tail⟩

theorem toolAt_eq {messages : List Message} {i : ℕ} (hi : i < messages.length) :
    toolAt messages i = messages[i].isTool := by
  rw [toolAt, List.getElem?_eq_getElem hi, Option.any_some]

theorem turnStart_le (messages : List Message) (i : ℕ) : turnStart messages i ≤ i := by
  induction i with
  | zero => rfl
  | succ j ih =>
    unfold turnStart
    split_ifs <;> omega

theorem turnStart_boundary (messages : List Message) {i : ℕ} (hi : i ≤ messages.length) :
    Boundary Message.isTool (messages.take (turnStart messages i)) ∧
      toolCount ((messages.take i).drop (turnStart messages i)) = 0 := by
  induction i with
  | zero => simp [turnStart]
  | succ j ih =>
    have hj : j < messages.length := hi
    have htake : messages.take (j + 1) = messages.take j ++ [messages[j]] := by
      rw [List.take_add_one, List.getElem?_eq_getElem hj, Option.toList_some]
    unfold turnStart
    rw [toolAt_eq hj]
    split_ifs with ht
    · constructor
      · rw [htake]
        apply (boundary_concat _ _).mpr
        exact ht
      · simp
    · obtain ⟨hb, hc⟩ := ih hj.le
      refine ⟨hb, ?_⟩
      have hle := turnStart_le messages j
      rw [htake, List.drop_append_of_le_length (by simp; omega), toolCount_append, hc]
      simp [ht]

theorem toolCount_drop_turnStart (messages : List Message) {i : ℕ} (hi : i ≤ messages.length) :
    toolCount (messages.drop (turnStart messages i)) = toolCount (messages.drop i) := by
  obtain ⟨-, hnone⟩ := turnStart_boundary messages hi
  have hle := turnStart_le messages i
  have hsplit : messages.drop (turnStart messages i) =
      (messages.take i).drop (turnStart messages i) ++ messages.drop i := by
    rw [← List.drop_append_of_le_length (by simp; omega), List.take_append_drop]
  rw [hsplit, toolCount_append, hnone, Nat.zero_add]

theorem lastNTurnsFrom_cut (messages : List Message) (n : ℕ) {i : ℕ} (hi : i ≤ messages.length)
    {count : ℕ} (hcount : toolCount (messages.drop i) = count) (hn : count < n) :
    (n ≤ toolCount messages → ∃ k, lastNTurnsFrom messages n i count = messages.drop k ∧
        IsCut Message.isTool n (messages.take k) (messages.drop k)) ∧
      (toolCount messages < n → lastNTurnsFrom messages n i count = messages) := by
  -- the cursor walks left; `count < n` tool messages lie behind it
  induction i generalizing count with
  | zero =>
    rw [List.drop_zero] at hcount
    constructor
    · intro h
      omega
    · intro _
      rfl
  | succ i ih =>
    have hlt : i < messages.length := hi
    have hdrop : messages.drop i = messages[i] :: messages.drop (i + 1) :=
      List.drop_eq_getElem_cons hlt
    unfold lastNTurnsFrom
    rw [toolAt_eq hlt]
    by_cases ht : messages[i].isTool = true
    · have hstep : toolCount (messages.drop i) = count + 1 := by
        rw [hdrop, toolCount_cons, hcount, if_pos ht]
        omega
      rw [if_pos ht]
      by_cases hfull : count + 1 = n
      · have hcast : (count : ℤ) + 1 = n := by omega
        rw [if_pos hcast]
        have hmarks : toolCount (messages.drop (turnStart messages i)) = n := by
          rw [toolCount_drop_turnStart messages hlt.le, hstep, hfull]
        constructor
        · intro _
          exact ⟨_, rfl, (turnStart_boundary messages hlt.le).1, hmarks⟩
        · intro hshort
          have hall : toolCount messages =
              toolCount (messages.take (turnStart messages i)) + toolCount (messages.drop (turnStart messages i)) := by
            rw [← toolCount_append, List.take_append_drop]
          omega
      · have hcast : ¬ (count : ℤ) + 1 = n := by omega
        rw [if_neg hcast]
        exact_mod_cast ih hlt.le hstep (by omega)
    · rw [if_neg ht]
      apply ih hlt.le _ hn
      rw [hdrop, toolCount_cons, hcount, if_neg ht]
      omega

theorem lastNTurns_nonpos (messages : List Message) {n : ℤ} (hn : n ≤ 0) : lastNTurns messages n = [] :=
  if_pos hn

theorem lastNTurns_pos (messages : List Message) {n : ℕ} (hn : 0 < n) :
    (n ≤ toolCount messages → ∃ k, lastNTurns messages n = messages.drop k ∧
        IsCut Message.isTool n (messages.take k) (messages.drop k)) ∧
      (toolCount messages < n → lastNTurns messages n = messages) := by
  have hpos : ¬ (n : ℤ) ≤ 0 := by omega
  have hzero : toolCount (messages.drop messages.length) = 0 := by simp
  rw [lastNTurns, if_neg hpos]
  exact lastNTurnsFrom_cut messages n le_rfl hzero hn

theorem lastNTurns_short {messages : List Message} {n : ℕ} (h : toolCount messages < n) :
    lastNTurns messages n = messages :=
  (lastNTurns_pos messages (by omega)).2 h

theorem lastNTurns_cut {messages : List Message} {n : ℕ} (hn : 0 < n) (h : n ≤ toolCount messages) :
    ∃ pre, messages = pre ++ lastNTurns messages n ∧
      IsCut Message.isTool n pre (lastNTurns messages n) := by
  obtain ⟨k, hk, hcut⟩ := (lastNTurns_pos messages hn).1 h
  rw [hk]
  exact ⟨messages.take k, (List.take_append_drop k messages).symm, hcut⟩

theorem lastNTurns_eq {pre suf : List Message} {n : ℕ} (hn : 0 < n) (h : IsCut Message.isTool n pre suf) :
    lastNTurns (pre ++ suf) n = suf := by
  have hle : n ≤ toolCount (pre ++ suf) := by
    have hmarks : toolCount suf = n := h.marks
    rw [toolCount_append]
    omega
  obtain ⟨pre', heq, hcut⟩ := lastNTurns_cut hn hle
  apply IsCut.unique hcut h
  exact heq.symm

theorem lastNTurns_suffix (messages : List Message) (n : ℤ) : lastNTurns messages n <:+ messages := by
  rcases le_or_gt n 0 with hn | hn
  · rw [lastNTurns_nonpos messages hn]
    exact List.nil_suffix
  · obtain ⟨k, rfl⟩ := Int.eq_ofNat_of_zero_le hn.le
    rcases Nat.lt_or_ge (toolCount messages) k with h | h
    · rw [lastNTurns_short h]
    · obtain ⟨pre, heq, -⟩ := lastNTurns_cut (by omega) h
      exact ⟨pre, heq.symm⟩

section Related

variable {Rel : Message → Message → Prop} (hRel : ∀ {m m'}, Rel m m' → m.isTool = m'.isTool) {ms ms' : List Message}
include hRel

theorem toolAt_forall₂ (h : List.Forall₂ Rel ms ms') (i : ℕ) : toolAt ms i = toolAt ms' i := by
  induction h generalizing i with
  | nil => rfl
  | cons hm _ ih =>
    cases i with
    | zero => exact hRel hm
    | succ i => exact ih i

theorem turnStart_forall₂ (h : List.Forall₂ Rel ms ms') (i : ℕ) : turnStart ms i = turnStart ms' i := by
  induction i with
  | zero => rfl
  | succ i ih => rw [turnStart, turnStart, toolAt_forall₂ hRel h, ih]

theorem lastNTurns_forall₂ (h : List.Forall₂ Rel ms ms') (n : ℤ) :
    List.Forall₂ Rel (lastNTurns ms n) (lastNTurns ms' n) := by
  have hfrom (i : ℕ) (count : ℤ) :
      List.Forall₂ Rel (lastNTurnsFrom ms n i count) (lastNTurnsFrom ms' n i count) := by
    induction i generalizing count with
    | zero => exact h
    | succ i ih =>
      rw [lastNTurnsFrom, lastNTurnsFrom, toolAt_forall₂ hRel h, turnStart_forall₂ hRel h]
      split_ifs
      · exact List.forall₂_drop _ h
      · exact ih _
      · exact ih _
  rw [lastNTurns, lastNTurns, h.length_eq]
  split_ifs
  · exact .nil
  · exact hfrom _ _

end Related

theorem lastNTurns_map {f : Message → Message} (hf : ∀ m, (f m).isTool = m.isTool) (ms : List Message) (n : ℤ) :
    lastNTurns (ms.map f) n = (lastNTurns ms n).map f := by
  have hrelated : List.Forall₂ (fun m m' => f m = m') ms (ms.map f) :=
    List.forall₂_map_right_iff.mpr (List.forall₂_same.mpr fun m _ => rfl)
  have hkept := lastNTurns_forall₂ (fun {m m'} hm => by rw [← hm, hf]) hrelated n
  rwa [← List.forall₂_map_left_iff (f := f), List.forall₂_eq_eq_eq, eq_comm] at hkept

theorem splitHeadTail_append (messages : List Message) (keepFirst : ℕ) (keepLastTurns : ℤ) :
    (splitHeadTail messages keepFirst keepLastTurns).head ++
        ((splitHeadTail messages keepFirst keepLastTurns).middle ++
          (splitHeadTail messages keepFirst keepLastTurns).tail) = messages := by
  dsimp only [splitHeadTail]
  obtain ⟨pre, hpre⟩ := lastNTurns_suffix (messages.drop keepFirst) keepLastTurns
  generalize lastNTurns (messages.drop keepFirst) keepLastTurns = tail at hpre ⊢
  have hlen : messages.length - keepFirst = pre.length + tail.length := by
    rw [← List.length_append, hpre, List.length_drop]
  have hmid : (messages.take (if tail.isEmpty then messages.length else messages.length - tail.length)).drop
      keepFirst = pre := by
    rw [List.drop_take, ← hpre]
    cases tail with
    | nil => simp [hlen]
    | cons t ts =>
      have hk : messages.length - (t :: ts).length - keepFirst = pre.length := by omega
      simp only [List.isEmpty_cons, Bool.false_eq_true, ↓reduceIte, hk, List.take_left']
  rw [hmid, hpre, List.take_append_drop]

end TokensThatSuffice
