import TokensThatSuffice.TeacherForcing

namespace TokensThatSuffice.Bisection

def bisect (p : ℕ → Bool) (lo hi : ℕ) : ℕ :=
  if lo < hi then
    let mid := (lo + hi) / 2
    if p mid then bisect p lo mid else bisect p (mid + 1) hi
  else lo
termination_by hi - lo

def UpwardClosed (p : ℕ → Bool) (hi : ℕ) : Prop := ∀ a b, a ≤ b → b ≤ hi → p a = true → p b = true

theorem UpwardClosed.mono {p : ℕ → Bool} {hi hi' : ℕ} (h : UpwardClosed p hi) (hle : hi' ≤ hi) :
    UpwardClosed p hi' := fun a b hab hb => h a b hab (hb.trans hle)

theorem bisect_isLeast {p : ℕ → Bool} {lo hi : ℕ} (hclosed : UpwardClosed p hi) (hle : lo ≤ hi) (hhi : p hi = true) :
    IsLeast {k | lo ≤ k ∧ p k = true} (bisect p lo hi) := by
  induction lo, hi using bisect.induct p with
  | case1 lo hi hlt mid hmid ih =>
    rw [bisect, if_pos hlt]
    dsimp only
    rw [if_pos hmid]
    exact ih (hclosed.mono (by omega)) (by omega) hmid
  | case2 lo hi hlt mid hmid ih =>
    rw [bisect, if_pos hlt]
    dsimp only
    rw [if_neg hmid]
    obtain ⟨⟨hlo, hp⟩, hleast⟩ := ih hclosed (by omega) hhi
    have hlower : lo ≤ mid + 1 := by omega
    refine ⟨⟨hlower.trans hlo, hp⟩, ?_⟩
    rintro k ⟨hk, hpk⟩
    apply hleast
    refine ⟨?_, hpk⟩
    by_contra hbelow
    exact hmid (hclosed k mid (by omega) (by omega) hpk)
  | case3 lo hi hlt =>
    rw [bisect, if_neg hlt]
    have heq : lo = hi := by omega
    subst heq
    exact ⟨⟨le_rfl, hhi⟩, fun k hk => hk.1⟩

theorem bisect_le_iff {p : ℕ → Bool} {hi k : ℕ} (hclosed : UpwardClosed p hi) (hhi : p hi = true) (hk : k ≤ hi) :
    bisect p 0 hi ≤ k ↔ p k = true := by
  obtain ⟨⟨-, hp⟩, hleast⟩ := bisect_isLeast hclosed (Nat.zero_le hi) hhi
  constructor
  · intro hle
    exact hclosed _ k hle hk hp
  · intro hpk
    exact hleast ⟨Nat.zero_le k, hpk⟩

end TokensThatSuffice.Bisection

namespace TokensThatSuffice

open Bisection

/-- `tok.apply_chat_template(messages, add_generation_prompt=True, tokenize=True, tools=tools)` -/
abbrev ChatTokens := List Message → List Json → List ℕ

variable (py : Python) (tok : ChatTokens) (msgs : List Message) (trigger : ℤ) (tools : List Json)

def nTokens (prefixLen : ℕ) : ℕ := (tok (toTemplateToolCalls py (msgs.take prefixLen)) tools).length

def hasCrossed (prefixLen : ℕ) : Bool := trigger ≤ nTokens py tok msgs tools prefixLen

def isTurn (t : ℕ) : Bool := msgs[t]?.any isAssistant

def findCompactionTurn : Option ℕ :=
  if nTokens py tok msgs tools msgs.length < trigger then none
  else
    let lo := bisect (hasCrossed py tok msgs trigger tools) 0 msgs.length
    (List.range' lo (msgs.length - lo)).find? (isTurn msgs)

def Crosses (t : ℕ) : Prop := isTurn msgs t = true ∧ hasCrossed py tok msgs trigger tools t = true

variable {py tok msgs trigger tools}

theorem isTurn_lt {t : ℕ} (h : isTurn msgs t = true) : t < msgs.length := by
  by_contra hlen
  rw [isTurn, List.getElem?_eq_none (not_lt.mp hlen)] at h
  cases h

theorem hasCrossed_closed
    (hmono : ∀ a b, a ≤ b → b ≤ msgs.length → nTokens py tok msgs tools a ≤ nTokens py tok msgs tools b) :
    UpwardClosed (hasCrossed py tok msgs trigger tools) msgs.length := by
  intro a b hab hb ha
  have hle := hmono a b hab hb
  simp only [hasCrossed, decide_eq_true_eq] at ha ⊢
  omega

section Scan

variable (hmono : ∀ a b, a ≤ b → b ≤ msgs.length → nTokens py tok msgs tools a ≤ nTokens py tok msgs tools b)

include hmono

theorem not_crosses (hnever : nTokens py tok msgs tools msgs.length < trigger) (t : ℕ) :
    ¬ Crosses py tok msgs trigger tools t := by
  rintro ⟨hturn, hcrossed⟩
  have hle := hmono t msgs.length (isTurn_lt hturn).le le_rfl
  rw [hasCrossed, decide_eq_true_eq] at hcrossed
  omega

theorem crosses_iff (hreached : trigger ≤ nTokens py tok msgs tools msgs.length) (t : ℕ) :
    Crosses py tok msgs trigger tools t ↔
      isTurn msgs t = true ∧ bisect (hasCrossed py tok msgs trigger tools) 0 msgs.length ≤ t := by
  apply and_congr_right
  intro hturn
  rw [bisect_le_iff (hasCrossed_closed hmono) (decide_eq_true hreached) (isTurn_lt hturn).le]

theorem findCompactionTurn_first :
    (∀ t, findCompactionTurn py tok msgs trigger tools = some t ↔
        IsLeast {t | Crosses py tok msgs trigger tools t} t) ∧
      (findCompactionTurn py tok msgs trigger tools = none ↔ ∀ t, ¬ Crosses py tok msgs trigger tools t) := by
  unfold findCompactionTurn
  by_cases hnever : nTokens py tok msgs tools msgs.length < trigger
  · have hnone := not_crosses hmono hnever
    rw [if_pos hnever]
    exact ⟨fun t => ⟨fun h => absurd h (by simp), fun h => absurd h.1 (hnone t)⟩, ⟨fun _ => hnone, fun _ => rfl⟩⟩
  · rw [if_neg hnever]
    dsimp only
    have hcrosses := crosses_iff hmono (not_lt.mp hnever)
    generalize bisect (hasCrossed py tok msgs trigger tools) 0 msgs.length = lo at hcrosses ⊢
    constructor
    · intro t
      rw [List.find?_range'_eq_some, List.mem_range'_1]
      constructor
      · rintro ⟨hturn, ⟨hlo, -⟩, hfirst⟩
        refine ⟨(hcrosses t).mpr ⟨hturn, hlo⟩, ?_⟩
        intro j hj
        by_contra hlt
        obtain ⟨hjturn, hjlo⟩ := (hcrosses j).mp hj
        have hno := hfirst j hjlo (not_le.mp hlt)
        rw [hjturn] at hno
        cases hno
      · rintro ⟨hcross, hleast⟩
        obtain ⟨hturn, hlo⟩ := (hcrosses t).mp hcross
        have hlt := isTurn_lt hturn
        refine ⟨hturn, ⟨hlo, by omega⟩, ?_⟩
        intro j hjlo hjt
        by_contra hj
        have hjturn : isTurn msgs j = true := by simpa using hj
        exact absurd (hleast ((hcrosses j).mpr ⟨hjturn, hjlo⟩)) (not_le.mpr hjt)
    · rw [List.find?_range'_eq_none]
      constructor
      · intro hnone t hcross
        obtain ⟨hturn, hlo⟩ := (hcrosses t).mp hcross
        have hlt := isTurn_lt hturn
        have hno := hnone t hlo (by omega)
        rw [hturn] at hno
        cases hno
      · intro hnone t hlo _
        by_contra ht
        have hturn : isTurn msgs t = true := by simpa using ht
        exact hnone t ((hcrosses t).mpr ⟨hturn, hlo⟩)

end Scan

def oneTokenEach : ChatTokens := fun messages _ => List.replicate messages.length 0

def threeMessages : List Message := [{ role := .user }, { role := .assistant }, { role := .assistant }]

theorem findCompactionTurn_first_threeMessages :
    findCompactionTurn asciiPython oneTokenEach threeMessages 2 [] = some 2 ↔
      IsLeast {t | Crosses asciiPython oneTokenEach threeMessages 2 [] t} 2 := by
  have hcount (k : ℕ) : nTokens asciiPython oneTokenEach threeMessages [] k = min k 3 := by
    simp [nTokens, oneTokenEach, toTemplateToolCalls, threeMessages]
  refine (findCompactionTurn_first ?_).1 2
  intro a b hab _
  rw [hcount, hcount]
  exact min_le_min_right 3 hab

end TokensThatSuffice
