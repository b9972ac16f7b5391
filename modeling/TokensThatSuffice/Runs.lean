import Mathlib.Data.List.Induction

namespace TokensThatSuffice.Runs

variable {State Event : Type*} {step : State → Event → State → Prop} {start s : State} {events : List Event}

/-- A run of a labelled step relation, with the events in the order they happened. -/
inductive Run (step : State → Event → State → Prop) (start : State) : State → List Event → Prop
  | nil : Run step start start []
  | snoc {s s' : State} {events : List Event} {e : Event} (before : Run step start s events)
      (last : step s e s') : Run step start s' (events ++ [e])

namespace Run

theorem invariant (Inv : State → List Event → Prop) (hstart : Inv start [])
    (hstep : ∀ s events e s', Inv s events → step s e s' → Inv s' (events ++ [e]))
    (h : Run step start s events) : Inv s events := by
  induction h with
  | nil => exact hstart
  | snoc _ last ih => exact hstep _ _ _ _ ih last

theorem append {s' : State} {more : List Event} (h : Run step start s events) (h' : Run step s s' more) :
    Run step start s' (events ++ more) := by
  induction h' with
  | nil => simpa using h
  | snoc _ last ih =>
    rw [← List.append_assoc]
    exact .snoc ih last

theorem eq_of_nil (h : Run step start s []) : s = start := by
  generalize hall : [] = all at h
  cases h with
  | nil => rfl
  | snoc => simp at hall

theorem last {e : Event} (h : Run step start s (events ++ [e])) :
    ∃ middle, Run step start middle events ∧ step middle e s := by
  generalize hall : events ++ [e] = all at h
  cases h with
  | nil => simp at hall
  | @snoc middle _ earlier e' before last =>
    obtain ⟨rfl, he⟩ := List.append_inj' hall rfl
    cases he
    exact ⟨middle, before, last⟩

theorem split {more : List Event} (h : Run step start s (events ++ more)) :
    ∃ middle, Run step start middle events ∧ Run step middle s more := by
  induction more using List.reverseRecOn generalizing s with
  | nil =>
    rw [List.append_nil] at h
    exact ⟨s, h, .nil⟩
  | append_singleton more e ih =>
    rw [← List.append_assoc] at h
    obtain ⟨t, h, hlast⟩ := h.last
    obtain ⟨middle, h, hmore⟩ := ih h
    exact ⟨middle, h, .snoc hmore hlast⟩

theorem first {e : Event} {more : List Event} (h : Run step start s (e :: more)) :
    ∃ middle, step start e middle ∧ Run step middle s more := by
  change Run step start s ([e] ++ more) at h
  obtain ⟨middle, hfirst, hmore⟩ := split h
  obtain ⟨start', hnil, hstep⟩ : ∃ start', Run step start start' [] ∧ step start' e middle := last hfirst
  rw [hnil.eq_of_nil] at hstep
  exact ⟨middle, hstep, hmore⟩

end Run

def Recorded (step : State → Event → State → Prop) (s : State) (x : Event × State) (s' : State) : Prop :=
  step s x.1 s' ∧ x.2 = s'

theorem Run.record {trace : List (Event × State)} {s' : State} {e : Event} (before : Run (Recorded step) start s trace)
    (last : step s e s') : Run (Recorded step) start s' (trace ++ [(e, s')]) := .snoc before ⟨last, rfl⟩

theorem forall_recorded_iff {P : State → Prop} {Q : State → State → Prop} (Inv : State → Prop) (hstart : Inv start)
    (hP : P start) (hinv : ∀ s e s', Inv s → step s e s' → Inv s')
    (hiff : ∀ s e s', Inv s → P s → step s e s' → (P s' ↔ Q s s')) {trace : List (Event × State)}
    (h : Run (Recorded step) start s trace) :
    (∀ x ∈ trace, P x.2) ↔ Run (fun s x s' => Recorded step s x s' ∧ Q s s') start s trace := by
  have hreached {s : State} {trace : List (Event × State)} (h : Run (Recorded step) start s trace) : Inv s := by
    apply Run.invariant (fun s _ => Inv s) hstart _ h
    intro s _ x s' hs hstep
    exact hinv s x.1 s' hs hstep.1
  have hlast {s : State} {trace : List (Event × State)} (h : Run (Recorded step) start s trace)
      (hall : ∀ x ∈ trace, P x.2) : P s := by
    cases h with
    | nil => exact hP
    | snoc before last =>
      rw [← last.2]
      exact hall _ (List.mem_append_right _ (List.mem_singleton_self _))
  constructor
  · intro hall
    induction h with
    | nil => exact .nil
    | snoc before last ih =>
      have hbefore := fun x hx => hall x (List.mem_append_left _ hx)
      have hP' := hlast (.snoc before last) hall
      exact .snoc (ih hbefore) ⟨last, (hiff _ _ _ (hreached before) (hlast before hbefore) last.1).mp hP'⟩
  · intro hrun
    clear h
    suffices hboth : Run (Recorded step) start s trace ∧ ∀ x ∈ trace, P x.2 from hboth.2
    induction hrun with
    | nil => exact ⟨.nil, by simp⟩
    | snoc before last ih =>
      refine ⟨.snoc ih.1 last.1, ?_⟩
      intro x hx
      rcases List.mem_append.mp hx with hx | hx
      · exact ih.2 x hx
      · rw [List.mem_singleton.mp hx, last.1.2]
        exact (hiff _ _ _ (hreached ih.1) (hlast ih.1 ih.2) last.1.1).mpr last.2

end TokensThatSuffice.Runs
