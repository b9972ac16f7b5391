import TokensThatSuffice.SelfDistortion

namespace TokensThatSuffice

inductive Parsable (py : Python) : Json → Prop
  | mapping (fields : List (String × Json)) : Parsable py (.object fields)
  | decoded {s : String} {fields : List (String × Json)} (h : py.loads s = some (.object fields)) :
      Parsable py (.str s)
  | undecodable {s : String} (h : py.loads s = none) : Parsable py (.str s)

def Everywhere (P : Json → Prop) (messages : List Message) : Prop :=
  ∀ m ∈ messages, ∀ tc ∈ m.toolCalls, ∀ v ∈ tc.arguments, P v

section Arguments

variable (py : Python) {tc : WireToolCall} {v : Json} {messages : List Message}

def parsedValue : Json → Json
  | .str s => (py.loads s).getD (.object [])
  | v => v

theorem templateArguments_eq (tc : WireToolCall) :
    templateArguments py tc = { tc with arguments := tc.arguments.map (parsedValue py) } := by
  obtain ⟨id, name, _ | v⟩ := tc
  · rfl
  · cases v <;> rfl

theorem parsedValue_isMapping_iff : (parsedValue py v).IsMapping ↔ Parsable py v := by
  constructor
  · intro h
    obtain ⟨fields, h⟩ := h
    cases v with
    | str s =>
      cases hloads : py.loads s with
      | none => exact .undecodable hloads
      | some w =>
        rw [parsedValue, hloads, Option.getD_some] at h
        rw [h] at hloads
        exact .decoded hloads
    | object fields' => exact .mapping fields'
    | null => cases h
    | bool b => cases h
    | int n => cases h
    | float x => cases h
    | array xs => cases h
  · intro h
    cases h with
    | mapping fields => exact ⟨fields, rfl⟩
    | decoded h => exact ⟨_, by rw [parsedValue, h, Option.getD_some]⟩
    | undecodable h => exact ⟨[], by rw [parsedValue, h, Option.getD_none]⟩

theorem everywhere_toTemplateToolCalls (P : Json → Prop) :
    Everywhere P (toTemplateToolCalls py messages) ↔ Everywhere (fun v => P (parsedValue py v)) messages := by
  unfold Everywhere toTemplateToolCalls
  simp [templateArguments_eq]

theorem everywhere_stripReasoning (P : Json → Prop) :
    Everywhere P (stripReasoning messages) ↔ Everywhere P messages := by
  unfold Everywhere stripReasoning
  simp

theorem toTemplateToolCalls_of_mappings (h : Everywhere Json.IsMapping messages) :
    toTemplateToolCalls py messages = messages := by
  have hcall : ∀ m ∈ messages, ∀ tc ∈ m.toolCalls, templateArguments py tc = tc := by
    intro m hm tc htc
    have hvalue := h m hm tc htc
    unfold templateArguments
    split
    next s hs =>
      obtain ⟨fields, hfields⟩ := hvalue _ hs
      cases hfields
    next => rfl
  have hmessage : ∀ m ∈ messages, { m with toolCalls := m.toolCalls.map (templateArguments py) } = m := by
    intro m hm
    have hcalls : m.toolCalls.map (templateArguments py) = m.toolCalls := by
      conv_rhs => rw [← List.map_id m.toolCalls]
      exact List.map_congr_left (hcall m hm)
    rw [hcalls]
  unfold toTemplateToolCalls
  conv_rhs => rw [← List.map_id messages]
  exact List.map_congr_left hmessage

structure NormalisedOnce (py : Python) (messages : List Message) : Prop where
  idempotent : toTemplateToolCalls py (toTemplateToolCalls py messages) = toTemplateToolCalls py messages
  mappings : Everywhere Json.IsMapping (toTemplateToolCalls py messages)
  context : toTemplateToolCalls py (toTemplateToolCalls py (buildXScoringMessages messages)) =
    toTemplateToolCalls py (buildXScoringMessages messages)

theorem normalisedOnce_iff (messages : List Message) :
    NormalisedOnce py messages ↔ Everywhere (Parsable py) messages := by
  have hmappings (ms : List Message) :
      Everywhere Json.IsMapping (toTemplateToolCalls py ms) ↔ Everywhere (Parsable py) ms := by
    rw [everywhere_toTemplateToolCalls]
    simp only [parsedValue_isMapping_iff]
  constructor
  · intro h
    exact (hmappings messages).mp h.mappings
  · intro h
    have hcontext : Everywhere (Parsable py) (buildXScoringMessages messages) :=
      (everywhere_stripReasoning _).mpr h
    exact ⟨toTemplateToolCalls_of_mappings py ((hmappings messages).mpr h), (hmappings messages).mpr h,
      toTemplateToolCalls_of_mappings py ((hmappings _).mpr hcontext)⟩

end Arguments

def quotedPython : Python where
  loads s := if s = "\x7b\x7d" then some (.object []) else if s = "\"\x7b\x7d\"" then some (.str "\x7b\x7d") else none
  dumps := asciiPython.dumps
  dumpsIndent := asciiPython.dumpsIndent
  repr := asciiPython.repr
  isWord := asciiPython.isWord

theorem not_normalisedOnce_quoted : ¬ NormalisedOnce quotedPython
    [{ role := .assistant, toolCalls := [⟨some "call_0", some "bash", some (.str "\"\x7b\x7d\"")⟩] }] := by
  intro h
  obtain ⟨fields, hfields⟩ :=
    h.mappings _ (List.mem_singleton_self _) _ (List.mem_singleton_self _) (.str "\x7b\x7d") rfl
  cases hfields

end TokensThatSuffice
