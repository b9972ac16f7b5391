import TokensThatSuffice.Selections
import TokensThatSuffice.TrajectorySteps

namespace TokensThatSuffice

open Selections

def outOfRangeText (idx : ℤ) (nSteps : ℕ) : String :=
  "step index " ++ toString idx ++ " out of range (n_steps=" ++ toString nSteps ++ ")"

/-- `_message_for_step` replays the walk of `messages_to_steps` up to the step it is asked for. -/
def messageForStepFrom (idx : ℤ) (stepIdx : ℕ) (seenTask : Bool) : List Message → Except PyError Message
  | [] => .error (.indexError (outOfRangeText idx stepIdx))
  | m :: rest =>
    match m.role with
    | .system => messageForStepFrom idx stepIdx seenTask rest
    | .user =>
      if seenTask then if stepIdx = idx then .ok m else messageForStepFrom idx (stepIdx + 1) true rest
      else messageForStepFrom idx stepIdx true rest
    | .assistant => if stepIdx = idx then .ok m else messageForStepFrom idx (stepIdx + 1) seenTask rest
    | .tool => if stepIdx = idx then .ok m else messageForStepFrom idx (stepIdx + 1) seenTask rest
    | .other _ => messageForStepFrom idx stepIdx seenTask rest

def messageForStep (middle : List Message) (idx : ℤ) : Except PyError Message :=
  messageForStepFrom idx 0 false middle

def stepMessagesFrom (seenTask : Bool) : List Message → List Message
  | [] => []
  | m :: rest =>
    match m.role with
    | .system => stepMessagesFrom seenTask rest
    | .user => if seenTask then m :: stepMessagesFrom true rest else stepMessagesFrom true rest
    | .assistant => m :: stepMessagesFrom seenTask rest
    | .tool => m :: stepMessagesFrom seenTask rest
    | .other _ => stepMessagesFrom seenTask rest

def stepMessages (messages : List Message) : List Message := stepMessagesFrom false messages

variable (py : Python)

def conversion (m : Message) : List TrajectoryStep := messagesToStepsFrom py true [m]

section Search

def nthMessage (idx : ℤ) (stepIdx : ℕ) : List Message → Except PyError Message
  | [] => .error (.indexError (outOfRangeText idx stepIdx))
  | m :: rest => if stepIdx = idx then .ok m else nthMessage idx (stepIdx + 1) rest

theorem messageForStepFrom_eq (idx : ℤ) (stepIdx : ℕ) (seenTask : Bool) (messages : List Message) :
    messageForStepFrom idx stepIdx seenTask messages = nthMessage idx stepIdx (stepMessagesFrom seenTask messages) := by
  induction messages generalizing stepIdx seenTask with
  | nil => rfl
  | cons m rest ih =>
    rw [messageForStepFrom, stepMessagesFrom]
    cases m.role with
    | user =>
      cases seenTask with
      | false => exact ih stepIdx true
      | true => simp only [if_true, ih, nthMessage]
    | assistant => simp only [ih, nthMessage]
    | tool => simp only [ih, nthMessage]
    | system => exact ih stepIdx seenTask
    | other name => exact ih stepIdx seenTask

theorem nthMessage_ok {messages : List Message} {i : ℕ} (hi : i < messages.length) (stepIdx : ℕ) :
    nthMessage (stepIdx + i : ℕ) stepIdx messages = .ok messages[i] := by
  induction messages generalizing i stepIdx with
  | nil => cases hi
  | cons m rest ih =>
    rw [nthMessage]
    cases i with
    | zero =>
      rw [if_pos (by omega)]
      rfl
    | succ i =>
      have hshift : stepIdx + (i + 1) = stepIdx + 1 + i := by omega
      rw [if_neg (by omega), hshift, ih (Nat.lt_of_succ_lt_succ hi)]
      rfl

theorem nthMessage_error {messages : List Message} {idx : ℤ} {stepIdx : ℕ}
    (h : idx < stepIdx ∨ stepIdx + messages.length ≤ idx) :
    nthMessage idx stepIdx messages = .error (.indexError (outOfRangeText idx (stepIdx + messages.length))) := by
  induction messages generalizing stepIdx with
  | nil => rfl
  | cons m rest ih =>
    rw [List.length_cons] at h ⊢
    rw [nthMessage, if_neg (by omega), ih (by omega), Nat.add_right_comm, Nat.add_assoc]

theorem messageForStep_ok {messages : List Message} {i : ℕ} (hi : i < (stepMessages messages).length) :
    messageForStep messages i = .ok (stepMessages messages)[i] := by
  have h := nthMessage_ok hi 0
  rw [Nat.zero_add] at h
  rw [messageForStep, messageForStepFrom_eq]
  exact h

theorem messageForStep_error {messages : List Message} {idx : ℤ}
    (h : idx < 0 ∨ (stepMessages messages).length ≤ idx) :
    messageForStep messages idx = .error (.indexError (outOfRangeText idx (stepMessages messages).length)) := by
  have hout : idx < (0 : ℕ) ∨ (0 : ℕ) + (stepMessages messages).length ≤ idx := by omega
  rw [messageForStep, messageForStepFrom_eq, ← stepMessages, nthMessage_error hout, Nat.zero_add]

end Search

section Conversion

theorem messagesToStepsFrom_forall₂ (seenTask : Bool) (messages : List Message) :
    List.Forall₂ (fun m step => conversion py m = [step]) (stepMessagesFrom seenTask messages)
      (messagesToStepsFrom py seenTask messages) := by
  induction messages generalizing seenTask with
  | nil => exact .nil
  | cons m rest ih =>
    rw [stepMessagesFrom, messagesToStepsFrom]
    cases hrole : m.role with
    | user =>
      cases seenTask with
      | false => exact ih true
      | true => exact .cons (by simp [conversion, messagesToStepsFrom, hrole]) (ih true)
    | assistant => exact .cons (by simp [conversion, messagesToStepsFrom, hrole]) (ih seenTask)
    | tool => exact .cons (by simp [conversion, messagesToStepsFrom, hrole]) (ih seenTask)
    | system => exact ih seenTask
    | other name => exact ih seenTask

theorem length_messagesToSteps (messages : List Message) :
    (messagesToSteps py messages).length = (stepMessages messages).length :=
  (messagesToStepsFrom_forall₂ py false messages).length_eq.symm

theorem messagesToSteps_eq_flatMap (messages : List Message) :
    messagesToSteps py messages = (stepMessages messages).flatMap (conversion py) := by
  have h := messagesToStepsFrom_forall₂ py false messages
  rw [messagesToSteps, stepMessages]
  generalize stepMessagesFrom false messages = counted, messagesToStepsFrom py false messages = steps at h ⊢
  induction h with
  | nil => rfl
  | cons h _ ih => rw [List.flatMap_cons, h, ← ih, List.singleton_append]

theorem conversion_of_getElem? {messages : List Message} {i : ℕ} {m : Message}
    (hm : (stepMessages messages)[i]? = some m) (hi : i < (messagesToSteps py messages).length) :
    conversion py m = [(messagesToSteps py messages)[i]] := by
  obtain ⟨hi', rfl⟩ := List.getElem?_eq_some_iff.mp hm
  exact (messagesToStepsFrom_forall₂ py false messages).get hi' hi

end Conversion

section Positions

def counts (seenTask : Bool) (m : Message) : Bool :=
  match m.role with
  | .system => false
  | .user => seenTask
  | .assistant => true
  | .tool => true
  | .other _ => false

def sees (seenTask : Bool) (m : Message) : Bool := seenTask || m.role = .user

theorem stepMessagesFrom_eq_selected (seenTask : Bool) (messages : List Message) :
    stepMessagesFrom seenTask messages = selected counts sees seenTask messages := by
  induction messages generalizing seenTask with
  | nil => rfl
  | cons m rest ih =>
    rw [stepMessagesFrom, selected, counts, sees]
    cases m.role with
    | user => cases seenTask <;> simp [ih]
    | _ => simp [ih]

theorem stepMessages_eq_selected (messages : List Message) :
    stepMessages messages = selected counts sees false messages := stepMessagesFrom_eq_selected false messages

theorem stepMessages_sublist (messages : List Message) : (stepMessages messages).Sublist messages := by
  rw [stepMessages_eq_selected]
  exact selected_sublist false messages

structure FoundAt (messages : List Message) (idx : ℤ) (p : ℕ) (m : Message) : Prop where
  message : messages[p]? = some m
  returned : messageForStep messages idx = .ok m
  here : messageForStep (messages.take (p + 1)) idx = .ok m
  notBefore : ∀ n ≤ p, ∃ text, messageForStep (messages.take n) idx = .error (.indexError text)

structure ConvertedAt (messages : List Message) (i p : ℕ) (m : Message) (step : TrajectoryStep) : Prop where
  converted : conversion py m = [step]
  before : (messagesToSteps py (messages.take p)).length = i
  added : messagesToSteps py (messages.take (p + 1)) = messagesToSteps py (messages.take p) ++ [step]

variable {messages : List Message} {i p : ℕ} {m : Message}

theorem messageForStep_of_getElem? (h : (stepMessages messages)[i]? = some m) : messageForStep messages i = .ok m := by
  obtain ⟨hi, rfl⟩ := List.getElem?_eq_some_iff.mp h
  exact messageForStep_ok hi

theorem foundAt_of_selectedAt (h : SelectedAt counts sees false messages i p m) : FoundAt messages i p m := by
  refine ⟨h.element, ?_, ?_, ?_⟩
  · apply messageForStep_of_getElem?
    rw [stepMessages_eq_selected]
    exact h.getElem?
  · apply messageForStep_of_getElem?
    rw [stepMessages_eq_selected]
    exact h.getElem?_take p.lt_succ_self
  · intro n hn
    refine ⟨_, messageForStep_error (Or.inr ?_)⟩
    rw [stepMessages_eq_selected]
    exact_mod_cast h.length_le hn

theorem convertedAt_of_selectedAt (h : SelectedAt counts sees false messages i p m)
    (hi : i < (messagesToSteps py messages).length) :
    ConvertedAt py messages i p m (messagesToSteps py messages)[i] := by
  have hm : (stepMessages messages)[i]? = some m := by
    rw [stepMessages_eq_selected]
    exact h.getElem?
  have hconverted := conversion_of_getElem? py hm hi
  refine ⟨hconverted, ?_, ?_⟩
  · rw [length_messagesToSteps, stepMessages_eq_selected]
    exact h.before
  · rw [messagesToSteps_eq_flatMap, messagesToSteps_eq_flatMap, stepMessages_eq_selected, stepMessages_eq_selected,
      h.added, List.flatMap_append, List.flatMap_singleton, hconverted]

theorem messageForStep_agrees (messages : List Message) :
    (∃ position : Fin (messagesToSteps py messages).length → ℕ, StrictMono position ∧
      ∀ i : Fin (messagesToSteps py messages).length, ∃ m, FoundAt messages i (position i) m ∧
        ConvertedAt py messages i (position i) m (messagesToSteps py messages)[i]) ∧
    ∀ idx : ℤ, idx < 0 ∨ (messagesToSteps py messages).length ≤ idx →
      messageForStep messages idx =
        .error (.indexError (outOfRangeText idx (messagesToSteps py messages).length)) := by
  have hlength := length_messagesToSteps py messages
  constructor
  · have hselected : (messagesToSteps py messages).length ≤ (selected counts sees false messages).length := by
      rw [hlength, stepMessages_eq_selected]
    obtain ⟨position, hmono, hposition⟩ := exists_positions hselected
    refine ⟨position, hmono, ?_⟩
    intro i
    obtain ⟨m, hm⟩ := hposition i
    exact ⟨m, foundAt_of_selectedAt hm, convertedAt_of_selectedAt py hm i.isLt⟩
  · intro idx hidx
    rw [hlength] at hidx ⊢
    exact messageForStep_error hidx

end Positions

end TokensThatSuffice
