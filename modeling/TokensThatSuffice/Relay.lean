import TokensThatSuffice.PythonValues

namespace TokensThatSuffice.Relay

structure HttpRequest where
  authorization : Option String
  method : String
  path : String
  query : String
  body : String
  deriving DecidableEq, Repr

structure RequestFrame where
  id : String
  method : String
  path : String
  query : String
  body : String
  deriving DecidableEq, Repr

structure ResponseFrame where
  id : String
  status : ℤ
  body : String
  contentType : String
  deriving DecidableEq, Repr

inductive Reply where
  | response (status : ℤ) (body contentType : String)
  | error (status : ℤ)
  deriving DecidableEq, Repr

inductive Future where
  | waiting
  | result (r : ResponseFrame)
  | cancelled
  deriving DecidableEq, Repr

/-- Where a proxy handler stands: it reads the body, or its frame is on the way to the socket, or it waits for its
future, or `wait_for` has given up on it, or it is over, with a reply unless its client has gone. -/
inductive Phase where
  | reading (socket : ℕ)
  | sending (socket : ℕ)
  | waiting
  | expired
  | ended (reply : Option Reply)
  deriving DecidableEq, Repr

structure Proxy where
  frame : RequestFrame
  future : Future := .waiting
  phase : Phase
  deriving DecidableEq, Repr

structure VllmRequest where
  method : String
  url : String
  content : String
  deriving DecidableEq, Repr

structure VllmResponse where
  statusCode : ℤ
  text : String
  contentType : Option String
  deriving DecidableEq, Repr

inductive Stage where
  | created
  | calling
  | answered (r : ResponseFrame)
  deriving DecidableEq, Repr

structure Task where
  socket : ℕ
  frame : RequestFrame
  stage : Stage
  deriving DecidableEq, Repr

/-- The keys of `pending` stand for their futures, which are those of the handlers. `calls` and `answers` record
what the node did: each call of vLLM, and each response frame's request with what came of the call. -/
structure State where
  bridgeWs : Option ℕ := none
  pending : List String := []
  proxies : List Proxy := []
  toNode : List (ℕ × RequestFrame) := []
  tasks : List Task := []
  toRelay : List (ℕ × ResponseFrame) := []
  calls : List (RequestFrame × VllmRequest) := []
  answers : List (RequestFrame × Except String VllmResponse) := []

def authorized (secret : String) (authorization : Option String) : Bool :=
  authorization = some ("Bearer " ++ secret)

def bridgeFor (secret : String) (bridgeWs : Option ℕ) (request : HttpRequest) : Except ℤ ℕ :=
  if authorized secret request.authorization then
    match bridgeWs with
    | some ws => .ok ws
    | none => .error 503
  else .error 401

def requestFrame (rid : String) (request : HttpRequest) : RequestFrame where
  id := rid
  method := request.method
  path := "/v1/" ++ request.path
  query := request.query
  body := request.body

def vllmRequest (vllmLocalUrl : String) (frame : RequestFrame) : VllmRequest where
  method := frame.method
  url := vllmLocalUrl ++ frame.path ++ if frame.query ≠ "" then "?" ++ frame.query else ""
  content := frame.body

def handle (py : Python) (frame : RequestFrame) (outcome : Except String VllmResponse) : ResponseFrame :=
  match outcome with
  | .ok r => ⟨frame.id, r.statusCode, r.text, r.contentType.getD "application/json"⟩
  | .error e =>
    let message := Json.object [("message", .str ("bridge->vllm failed: " ++ e))]
    ⟨frame.id, 502, py.dumps (.object [("error", message)]), "application/json"⟩

inductive Advance : List String → Proxy → Option Reply → List String → Proxy → Prop
  | register (pending : List String) (frame : RequestFrame) (future : Future) (socket : ℕ) :
      Advance pending ⟨frame, future, .reading socket⟩ none (frame.id :: pending) ⟨frame, future, .sending socket⟩
  | respond (pending : List String) (frame : RequestFrame) (r : ResponseFrame) :
      Advance pending ⟨frame, .result r, .waiting⟩ (some (.response r.status r.body r.contentType)) pending
        ⟨frame, .result r, .ended (some (.response r.status r.body r.contentType))⟩
  -- the time-out cancels a future that has no result yet; one that came too late to be read is left as it is
  | timeout (pending : List String) (frame : RequestFrame) (future : Future) :
      Advance pending ⟨frame, future, .waiting⟩ none pending
        ⟨frame, if future = .waiting then .cancelled else future, .expired⟩
  | expire (pending : List String) (frame : RequestFrame) (future : Future) :
      Advance pending ⟨frame, future, .expired⟩ (some (.error 504)) (pending.filter (· ≠ frame.id))
        ⟨frame, future, .ended (some (.error 504))⟩
  -- an exception out of the handler, in its send for one, or a cancellation; the key stays in the map
  | raised (pending : List String) (frame : RequestFrame) (future future' : Future) (phase : Phase)
      (reply : Option Reply) (hphase : ∀ r, phase ≠ .ended r) (hfuture : future' = future ∨ future' = .cancelled)
      (hreply : reply = none ∨ reply = some (.error 500)) :
      Advance pending ⟨frame, future, phase⟩ reply pending ⟨frame, future', .ended reply⟩

/-- `pending.pop(frame["id"], None)`, then `set_result` on a future that is not done. -/
def settle (pending : List String) (r : ResponseFrame) (p : Proxy) : Proxy :=
  if p.frame.id = r.id ∧ r.id ∈ pending ∧ p.future = .waiting then { p with future := .result r } else p

inductive Event where
  | connect (socket : ℕ)
  | disconnect (socket : ℕ)
  | refuse (status : ℤ)
  | arrive (frame : RequestFrame)
  | send (frame : RequestFrame)
  | advance (id : String) (reply : Option Reply)
  | deliver (frame : RequestFrame)
  | loseRequest (frame : RequestFrame)
  | call (request : VllmRequest)
  | finish (frame : RequestFrame) (outcome : Except String VllmResponse)
  | sendBack (r : ResponseFrame)
  | dropTask (frame : RequestFrame)
  | receive (r : ResponseFrame)
  | loseResponse (r : ResponseFrame)

variable (py : Python) (secret vllmLocalUrl : String)

/-- The relay, the node and the frames between them. A frame leaves its channel from any place of it, to be read or
to be lost; a task may end before its frame is sent; ids are distinct. -/
inductive Step : State → Event → State → Prop
  | connect (s : State) (socket : ℕ) (authorization : Option String) (hauth : authorized secret authorization) :
      Step s (.connect socket) { s with bridgeWs := some socket }
  | disconnect (s : State) (socket : ℕ) : Step s (.disconnect socket)
      { s with bridgeWs := if s.bridgeWs = some socket then none else s.bridgeWs }
  | refuse (s : State) (request : HttpRequest) (status : ℤ)
      (hrefused : bridgeFor secret s.bridgeWs request = .error status) : Step s (.refuse status) s
  | arrive (s : State) (request : HttpRequest) (rid : String) (socket : ℕ)
      (hbridge : bridgeFor secret s.bridgeWs request = .ok socket) (hnew : rid ∉ s.proxies.map (·.frame.id)) :
      Step s (.arrive (requestFrame rid request))
        { s with proxies := s.proxies ++ [{ frame := requestFrame rid request, phase := .reading socket }] }
  | send (s : State) (before after : List Proxy) (frame : RequestFrame) (future : Future) (socket : ℕ)
      (hproxies : s.proxies = before ++ ⟨frame, future, .sending socket⟩ :: after) :
      Step s (.send frame) { s with
        proxies := before ++ ⟨frame, future, .waiting⟩ :: after
        toNode := s.toNode ++ [(socket, frame)] }
  | advance (s : State) (before after : List Proxy) (p p' : Proxy) (reply : Option Reply) (pending : List String)
      (hproxies : s.proxies = before ++ p :: after) (hadvance : Advance s.pending p reply pending p') :
      Step s (.advance p.frame.id reply) { s with proxies := before ++ p' :: after, pending := pending }
  | deliver (s : State) (before after : List (ℕ × RequestFrame)) (socket : ℕ) (frame : RequestFrame)
      (htoNode : s.toNode = before ++ (socket, frame) :: after) :
      Step s (.deliver frame)
        { s with toNode := before ++ after, tasks := s.tasks ++ [⟨socket, frame, .created⟩] }
  | loseRequest (s : State) (before after : List (ℕ × RequestFrame)) (socket : ℕ) (frame : RequestFrame)
      (htoNode : s.toNode = before ++ (socket, frame) :: after) :
      Step s (.loseRequest frame) { s with toNode := before ++ after }
  | call (s : State) (before after : List Task) (socket : ℕ) (frame : RequestFrame)
      (htasks : s.tasks = before ++ ⟨socket, frame, .created⟩ :: after) :
      Step s (.call (vllmRequest vllmLocalUrl frame)) { s with
        tasks := before ++ ⟨socket, frame, .calling⟩ :: after
        calls := s.calls ++ [(frame, vllmRequest vllmLocalUrl frame)] }
  | finish (s : State) (before after : List Task) (socket : ℕ) (frame : RequestFrame)
      (outcome : Except String VllmResponse) (htasks : s.tasks = before ++ ⟨socket, frame, .calling⟩ :: after) :
      Step s (.finish frame outcome) { s with
        tasks := before ++ ⟨socket, frame, .answered (handle py frame outcome)⟩ :: after
        answers := s.answers ++ [(frame, outcome)] }
  | sendBack (s : State) (before after : List Task) (socket : ℕ) (frame : RequestFrame) (r : ResponseFrame)
      (htasks : s.tasks = before ++ ⟨socket, frame, .answered r⟩ :: after) :
      Step s (.sendBack r) { s with tasks := before ++ after, toRelay := s.toRelay ++ [(socket, r)] }
  | dropTask (s : State) (before after : List Task) (task : Task) (htasks : s.tasks = before ++ task :: after) :
      Step s (.dropTask task.frame) { s with tasks := before ++ after }
  | receive (s : State) (before after : List (ℕ × ResponseFrame)) (socket : ℕ) (r : ResponseFrame)
      (htoRelay : s.toRelay = before ++ (socket, r) :: after) :
      Step s (.receive r) { s with
        toRelay := before ++ after
        pending := s.pending.filter (· ≠ r.id)
        proxies := s.proxies.map (settle s.pending r) }
  | loseResponse (s : State) (before after : List (ℕ × ResponseFrame)) (socket : ℕ) (r : ResponseFrame)
      (htoRelay : s.toRelay = before ++ (socket, r) :: after) :
      Step s (.loseResponse r) { s with toRelay := before ++ after }

end TokensThatSuffice.Relay
