import TokensThatSuffice.SubtaskThemes
import TokensThatSuffice.TryBlocks

namespace TokensThatSuffice.Router

open TryBlocks

structure State where
  inflight : List ℤ
  affinity : List (String × ℕ)
  deriving DecidableEq, Repr

def State.initial (backends : ℕ) : State := ⟨List.replicate backends 0, []⟩

/-- `json.dumps` with sorted keys, and the hex digest of `sha1`. -/
structure Digest where
  dumpsSorted : Json → String
  sha1 : String → String

def messageContent (m : Json) : Except PyError Json := do
  let content ← m.getKey "content"
  return content.getD .null

def openingContents : Json → Except PyError (List Json)
  | .array msgs => (msgs.take 2).mapM messageContent
  | .str _ => .error .attributeError
  | _ => .error .typeError

def conversationKey (d : Digest) (body : Json) : Except PyError (Option String) := do
  let msgs := (← body.getKey "messages").getD .null
  if msgs.truthy then
    let contents ← openingContents msgs
    return some (d.sha1 (d.dumpsSorted (.array contents)))
  else return none

def minBy (f : ℕ → ℤ) : ℕ → List ℕ → ℕ
  | best, [] => best
  | best, i :: rest => if f i < f best then minBy f i rest else minBy f best rest

def leastLoaded (inflight : List ℤ) : Except PyError ℕ :=
  match List.range inflight.length with
  | [] => .error (.valueError "min() iterable argument is empty")
  | i :: rest => .ok (minBy (fun i => inflight.getD i 0) i rest)

def State.hold (s : State) (idx : ℕ) : State := { s with inflight := s.inflight.modify idx (· + 1) }

def State.pin (s : State) (key : Option String) (idx : ℕ) : State :=
  match key with
  | some k => { s with affinity := s.affinity ++ [(k, idx)] }
  | none => s

/-- One step: no coroutine suspends while it holds the lock. -/
def pickBackend (key : Option String) (s : State) : Except PyError (ℕ × State) := do
  match key.bind (fun k => s.affinity.lookup k) with
  | some idx => return (idx, s.hold idx)
  | none =>
    let idx ← leastLoaded s.inflight
    return (idx, (s.pin key idx).hold idx)

def release (idx : ℕ) (s : State) : State := { s with inflight := s.inflight.modify idx (· - 1) }

/-- `interrupt` is what `except Exception` lets through: a cancellation, or the closing of a generator. -/
inductive Failure where
  | exception (text : String)
  | interrupt
  deriving DecidableEq, Repr

def Failure.isException : Failure → Bool
  | .exception _ => true
  | .interrupt => false

variable (py : Python) (d : Digest)

/-- `proxy` up to its branch on `stream`: the backend and the flag, or `none` for the 400 response. -/
def accept (raw : String) (s : State) : Except PyError (Option (ℕ × Bool) × State) :=
  match py.loads raw with
  | none => .ok (none, s)
  | some body => do
    let key ← conversationKey d body
    let (idx, s) ← pickBackend key s
    let stream ← body.getKey "stream"
    return (some (idx, (stream.getD .null).truthy), s)

def postBlock (idx : ℕ) (posted : Except Failure Unit) : Attempt State Failure Unit :=
  tryFinally (tryExcept (outcome posted) Failure.isException (fun _ s => s)) (assign (release idx))

def streamBlock (idx : ℕ) (sent forwarded closed : Except Failure Unit) : Attempt State Failure Unit :=
  tryFinally
    (tryExcept (do
      outcome sent
      tryFinally (outcome forwarded) (outcome closed)) Failure.isException (fun _ s => s))
    (assign (release idx))

/-- Where a request stands: its handler awaits the backend, its streaming body waits for the first iteration
or is being iterated, it is over, or it is over because its body was dropped before the first iteration. -/
inductive Phase where
  | posting (idx : ℕ)
  | returned (idx : ℕ)
  | streaming (idx : ℕ)
  | ended
  | dropped (idx : ℕ)
  deriving DecidableEq, Repr

def enter (raw : String) (s : State) : Phase × State :=
  match accept py d raw s with
  | .ok (some (idx, true), s') => (.returned idx, s')
  | .ok (some (idx, false), s') => (.posting idx, s')
  | .ok (none, s') => (.ended, s')
  | .error _ => (.ended, s)

structure System where
  router : State
  requests : List Phase
  deriving DecidableEq, Repr

def System.initial (backends : ℕ) : System := ⟨.initial backends, []⟩

inductive Event where
  | arrive (raw : String)
  | answer (posted : Except Failure Unit)
  | start
  | finish (sent forwarded closed : Except Failure Unit)
  | drop

inductive Step : System → Event → System → Prop
  | arrive (s : System) (raw : String) :
      Step s (.arrive raw) ⟨(enter py d raw s.router).2, s.requests ++ [(enter py d raw s.router).1]⟩
  | answer (r : State) (before after : List Phase) (idx : ℕ) (posted : Except Failure Unit) :
      Step ⟨r, before ++ .posting idx :: after⟩ (.answer posted)
        ⟨(postBlock idx posted r).2, before ++ .ended :: after⟩
  | start (r : State) (before after : List Phase) (idx : ℕ) :
      Step ⟨r, before ++ .returned idx :: after⟩ .start ⟨r, before ++ .streaming idx :: after⟩
  | finish (r : State) (before after : List Phase) (idx : ℕ) (sent forwarded closed : Except Failure Unit) :
      Step ⟨r, before ++ .streaming idx :: after⟩ (.finish sent forwarded closed)
        ⟨(streamBlock idx sent forwarded closed r).2, before ++ .ended :: after⟩
  | drop (r : State) (before after : List Phase) (idx : ℕ) :
      Step ⟨r, before ++ .returned idx :: after⟩ .drop ⟨r, before ++ .dropped idx :: after⟩

end TokensThatSuffice.Router
