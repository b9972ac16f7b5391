import Mathlib.Data.List.Basic

namespace TokensThatSuffice.TryBlocks

variable {σ ε α β : Type}

def Attempt (σ ε α : Type) : Type := σ → Except ε α × σ

instance : Monad (Attempt σ ε) where
  pure a := fun s => (.ok a, s)
  bind m f := fun s =>
    match m s with
    | (.ok a, t) => f a t
    | (.error e, t) => (.error e, t)

def outcome (r : Except ε α) : Attempt σ ε α := fun s => (r, s)

def assign (f : σ → σ) : Attempt σ ε Unit := fun s => (.ok (), f s)

def tryExcept (body : Attempt σ ε Unit) (caught : ε → Bool) (handler : ε → σ → σ) : Attempt σ ε Unit := fun s =>
  match body s with
  | (.ok _, t) => (.ok (), t)
  | (.error e, t) => if caught e then (.ok (), handler e t) else (.error e, t)

def tryFinally (body clause : Attempt σ ε Unit) : Attempt σ ε Unit := fun s =>
  match clause (body s).2 with
  | (.ok _, t) => ((body s).1, t)
  | (.error e, t) => (.error e, t)

theorem bind_ok {m : Attempt σ ε α} {f : α → Attempt σ ε β} {s t : σ} {a : α} (h : m s = (.ok a, t)) :
    (m >>= f) s = f a t := by
  change (match m s with | (.ok a, t) => f a t | (.error e, t) => (.error e, t)) = f a t
  rw [h]

theorem bind_error {m : Attempt σ ε α} {f : α → Attempt σ ε β} {s t : σ} {e : ε} (h : m s = (.error e, t)) :
    (m >>= f) s = (.error e, t) := by
  change (match m s with | (.ok a, t) => f a t | (.error e, t) => (.error e, t)) = (.error e, t)
  rw [h]

@[simp] theorem outcome_apply (r : Except ε α) (s : σ) : outcome r s = (r, s) := rfl

@[simp] theorem assign_apply (f : σ → σ) (s : σ) : (assign f : Attempt σ ε Unit) s = (.ok (), f s) := rfl

theorem tryExcept_ok {body : Attempt σ ε Unit} {caught : ε → Bool} {handler : ε → σ → σ} {s t : σ}
    (h : body s = (.ok (), t)) : tryExcept body caught handler s = (.ok (), t) := by
  unfold tryExcept
  rw [h]

theorem tryExcept_error {body : Attempt σ ε Unit} {caught : ε → Bool} {handler : ε → σ → σ} {s t : σ} {e : ε}
    (h : body s = (.error e, t)) :
    tryExcept body caught handler s = if caught e then (.ok (), handler e t) else (.error e, t) := by
  unfold tryExcept
  rw [h]

theorem tryExcept_congr {body body' : Attempt σ ε Unit} {s t : σ} (h : body s = body' t) (caught : ε → Bool)
    (handler : ε → σ → σ) : tryExcept body caught handler s = tryExcept body' caught handler t := by
  unfold tryExcept
  rw [h]

theorem tryFinally_state (body clause : Attempt σ ε Unit) (s : σ) :
    (tryFinally body clause s).2 = (clause (body s).2).2 := by
  unfold tryFinally
  generalize clause (body s).2 = last
  obtain ⟨r, t⟩ := last
  cases r with
  | ok _ => rfl
  | error e => rfl

section Invariants

variable {Q : σ → Prop}

def Stable (Q : σ → Prop) (m : Attempt σ ε α) : Prop := ∀ s, Q s → Q (m s).2

theorem stable_bind {m : Attempt σ ε α} {f : α → Attempt σ ε β} (hm : Stable Q m) (hf : ∀ a, Stable Q (f a)) :
    Stable Q (m >>= f) := by
  intro s hs
  have ht := hm s hs
  cases hr : m s with
  | mk r t =>
    rw [hr] at ht
    cases r with
    | ok a =>
      rw [bind_ok hr]
      exact hf a t ht
    | error e =>
      rw [bind_error hr]
      exact ht

theorem stable_outcome (r : Except ε α) : Stable Q (outcome r) := fun _ hs => hs

theorem stable_assign {f : σ → σ} (hf : ∀ s, Q s → Q (f s)) : Stable Q (assign f : Attempt σ ε Unit) := hf

theorem stable_tryExcept {body : Attempt σ ε Unit} (hbody : Stable Q body) {caught : ε → Bool} {handler : ε → σ → σ}
    (hhandler : ∀ e s, Q s → Q (handler e s)) : Stable Q (tryExcept body caught handler) := by
  intro s hs
  have ht := hbody s hs
  cases hr : body s with
  | mk r t =>
    rw [hr] at ht
    cases r with
    | ok a =>
      rw [tryExcept_ok hr]
      exact ht
    | error e =>
      rw [tryExcept_error hr]
      split_ifs
      · exact hhandler e t ht
      · exact ht

theorem stable_tryFinally {body clause : Attempt σ ε Unit} (hbody : Stable Q body) (hclause : Stable Q clause) :
    Stable Q (tryFinally body clause) := by
  intro s hs
  rw [tryFinally_state]
  exact hclause _ (hbody s hs)

end Invariants

end TokensThatSuffice.TryBlocks
