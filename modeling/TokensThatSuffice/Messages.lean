import Mathlib.Data.Finset.Basic
import TokensThatSuffice.PythonValues

namespace TokensThatSuffice

inductive Role where
  | system
  | user
  | assistant
  | tool
  | other (name : String)
  deriving DecidableEq, Repr

inductive Part where
  | text (s : String)
  | other (v : Json)
  deriving Repr

inductive Content where
  | null
  | text (s : String)
  | parts (ps : List Part)
  deriving Repr

structure WireToolCall where
  id : Option String
  name : Option String
  arguments : Option Json
  deriving Repr

structure Usage where
  promptTokens : Option ℕ
  completionTokens : Option ℕ
  deriving Repr

/-- An OpenAI-style message; `none` is an absent key. An absent `tool_calls` is read like an empty one. -/
structure Message where
  role : Role
  content : Option Content := none
  toolCalls : List WireToolCall := []
  toolCallId : Option String := none
  reasoningContent : Option String := none
  usage : Option Usage := none
  deriving Repr

namespace Content

def truthy : Content → Bool
  | .null => false
  | .text s => s ≠ ""
  | .parts ps => !ps.isEmpty

def isText : Content → Bool
  | .text _ => true
  | _ => false

def orEmpty (c : Content) : Content := if c.truthy then c else .text ""

end Content

namespace Message

def isTool (m : Message) : Bool := m.role = .tool

def contentOrEmpty (m : Message) : Content := (m.content.getD .null).orEmpty

end Message

def WireToolCall.getId (tc : WireToolCall) : Except PyError String :=
  match tc.id with
  | some id => .ok id
  | none => .error (.keyError "id")

def callIds (calls : List WireToolCall) : Except PyError (List String) := calls.mapM WireToolCall.getId

def responded (messages : List Message) : List (Option String) :=
  (messages.takeWhile Message.isTool).map (·.toolCallId)

def validateFrom (i : ℕ) : List Message → Except PyError (Bool × Option ℕ × Option (Finset String))
  | [] => .ok (true, none, none)
  | msg :: rest =>
    if msg.role = .assistant ∧ msg.toolCalls ≠ [] then do
      let expected ← callIds msg.toolCalls
      let missing := expected.toFinset.filter (fun id => some id ∉ responded rest)
      if missing ≠ ∅ then return (false, some i, some missing) else validateFrom (i + 1) rest
    else validateFrom (i + 1) rest

def validateMessages (messages : List Message) : Except PyError (Bool × Option ℕ × Option (Finset String)) :=
  validateFrom 0 messages

def toolCount (messages : List Message) : ℕ := messages.countP Message.isTool

@[simp] theorem toolCount_nil : toolCount [] = 0 := rfl

@[simp] theorem toolCount_append (xs ys : List Message) :
    toolCount (xs ++ ys) = toolCount xs + toolCount ys := List.countP_append

@[simp] theorem toolCount_cons (m : Message) (ms : List Message) :
    toolCount (m :: ms) = (if m.isTool then 1 else 0) + toolCount ms := by
  simp [toolCount, List.countP_cons, Nat.add_comm]

theorem getId_eq_ok {tc : WireToolCall} {id : String} : tc.getId = .ok id ↔ tc.id = some id := by
  unfold WireToolCall.getId
  cases tc.id <;> simp

theorem callIds_eq_ok {calls : List WireToolCall} {ids : List String} :
    callIds calls = .ok ids ↔ calls.map (·.id) = ids.map some := by
  rw [callIds, mapM_eq_ok, ← List.forall₂_eq_eq_eq, List.forall₂_map_left_iff, List.forall₂_map_right_iff]
  simp only [getId_eq_ok]

end TokensThatSuffice
