import TokensThatSuffice.RelaySafety

namespace TokensThatSuffice.Relay

open Runs

def Stage.isCreated : Stage → Bool
  | .created => true
  | _ => false

def Stage.isAnswered : Stage → Bool
  | .answered _ => true
  | _ => false

section Values

variable (socket : ℕ) (r : ResponseFrame)

@[simp] theorem unsent_reading : (Phase.reading socket).unsent = true := rfl

@[simp] theorem unsent_sending : (Phase.sending socket).unsent = true := rfl

@[simp] theorem unsent_waiting : Phase.waiting.unsent = false := rfl

@[simp] theorem isOver_reading : (Phase.reading socket).isOver = false := rfl

@[simp] theorem isOver_sending : (Phase.sending socket).isOver = false := rfl

@[simp] theorem isOver_waiting : Phase.waiting.isOver = false := rfl

@[simp] theorem isCreated_created : Stage.created.isCreated = true := rfl

@[simp] theorem isCreated_calling : Stage.calling.isCreated = false := rfl

@[simp] theorem isCreated_answered : (Stage.answered r).isCreated = false := rfl

@[simp] theorem isAnswered_created : Stage.created.isAnswered = false := rfl

@[simp] theorem isAnswered_calling : Stage.calling.isAnswered = false := rfl

@[simp] theorem isAnswered_answered : (Stage.answered r).isAnswered = true := rfl

end Values

def Event.isNode : Event → Bool
  | .call _ => true
  | .finish _ _ => true
  | .sendBack _ => true
  | .dropTask _ => true
  | _ => false

def Event.repliesTo (x : String) : Event → Bool
  | .advance id reply => id = x && reply.isSome
  | _ => false

namespace State

variable (s : State) (x : String)

@[simp] def handlers : ℕ := s.proxies.countP (fun p => p.frame.id = x)

@[simp] def unsent : ℕ := s.proxies.countP (fun p => p.frame.id = x && p.phase.unsent)

@[simp] def finished : ℕ := s.proxies.countP (fun p => p.frame.id = x && p.phase.isOver)

@[simp] def travelling : ℕ := s.toNode.countP (fun m => m.2.id = x)

@[simp] def uncalled : ℕ := s.tasks.countP (fun t => t.frame.id = x && t.stage.isCreated)

@[simp] def unanswered : ℕ := s.tasks.countP (fun t => t.frame.id = x && !t.stage.isAnswered)

@[simp] def called : ℕ := s.calls.countP (fun c => c.1.id = x)

@[simp] def computed : ℕ := s.answers.countP (fun a => a.1.id = x)

end State

variable {py : Python} {secret vllmLocalUrl : String} {s s' : State} {e : Event}

theorem countP_settle (pending : List String) (r : ResponseFrame) (proxies : List Proxy)
    (q : RequestFrame → Phase → Bool) : (proxies.map (settle pending r)).countP (fun p => q p.frame p.phase) =
      proxies.countP (fun p => q p.frame p.phase) := by
  rw [List.countP_map]
  apply List.countP_congr
  intro p _
  rw [Function.comp_apply, settle_frame, settle_phase]

theorem ite_one_le {a b : Prop} [Decidable a] [Decidable b] (h : a → b) :
    (if a then 1 else 0) ≤ if b then 1 else (0 : ℕ) := by
  split_ifs with ha hb
  · exact Nat.le_refl 1
  · exact absurd (h ha) hb
  · exact Nat.zero_le 1
  · exact Nat.le_refl 0

section Spending

variable {x : String}

theorem step_travels (hnode : e.isNode = false) (hstep : Step py secret vllmLocalUrl s e s') :
    s'.calls = s.calls ∧ s'.answers = s.answers ∧ ∀ q : Stage → Bool, q .created = true →
      s'.unsent x + s'.travelling x + s'.tasks.countP (fun t => t.frame.id = x && q t.stage) + s.handlers x ≤
        s.unsent x + s.travelling x + s.tasks.countP (fun t => t.frame.id = x && q t.stage) + s'.handlers x := by
  cases hstep with
  | arrive request rid socket hbridge hnew =>
    refine ⟨rfl, rfl, fun q hq => ?_⟩
    simp
    omega
  | send before after frame future socket hproxies =>
    refine ⟨rfl, rfl, fun q hq => ?_⟩
    simp [hproxies, List.countP_cons]
    omega
  | advance before after p p' reply pending hproxies hadvance =>
    refine ⟨rfl, rfl, fun q hq => ?_⟩
    have hunsent : (if p.frame.id = x ∧ p'.phase.unsent = true then 1 else 0) ≤
        if p.frame.id = x ∧ p.phase.unsent = true then 1 else 0 :=
      ite_one_le fun hc => ⟨hc.1, advance_unsent hadvance hc.2⟩
    simp [hproxies, List.countP_cons, advance_frame hadvance]
    omega
  | deliver before after socket frame htoNode =>
    refine ⟨rfl, rfl, fun q hq => ?_⟩
    simp [htoNode, List.countP_cons, hq]
    omega
  | loseRequest before after socket frame htoNode =>
    refine ⟨rfl, rfl, fun q hq => ?_⟩
    simp [htoNode, List.countP_cons]
  | receive before after socket r htoRelay =>
    refine ⟨rfl, rfl, fun q hq => ?_⟩
    have hunsent := countP_settle s.pending r s.proxies (fun frame phase => frame.id = x && phase.unsent)
    have hhandlers := countP_settle s.pending r s.proxies (fun frame _ => frame.id = x)
    simp only [State.unsent, State.handlers, State.travelling]
    omega
  | call before after socket frame htasks => cases hnode
  | finish before after socket frame outcome htasks => cases hnode
  | sendBack before after socket frame r htasks => cases hnode
  | dropTask before after task htasks => cases hnode
  | _ => exact ⟨rfl, rfl, fun q _ => Nat.le_refl _⟩

theorem step_spends (hnode : e.isNode = true) (hstep : Step py secret vllmLocalUrl s e s') :
    s'.proxies = s.proxies ∧ s'.toNode = s.toNode ∧ s'.uncalled x + s'.called x ≤ s.uncalled x + s.called x ∧
      s'.unanswered x + s'.computed x ≤ s.unanswered x + s.computed x := by
  cases hstep with
  | call before after socket frame htasks =>
    refine ⟨rfl, rfl, ?_, ?_⟩
    · simp [htasks, List.countP_cons]
      omega
    · simp [htasks, List.countP_cons]
  | finish before after socket frame outcome htasks =>
    refine ⟨rfl, rfl, ?_, ?_⟩
    · simp [htasks]
    · simp [htasks, List.countP_cons]
      omega
  | sendBack before after socket frame r htasks =>
    refine ⟨rfl, rfl, ?_, ?_⟩
    · simp [htasks]
    · simp [htasks]
  | dropTask before after task htasks =>
    refine ⟨rfl, rfl, ?_, ?_⟩
    · simp [htasks, List.countP_cons]
    · simp [htasks, List.countP_cons]
  | _ => cases hnode

theorem step_calls (h : s.unsent x + s.travelling x + s.uncalled x + s.called x ≤ s.handlers x)
    (hstep : Step py secret vllmLocalUrl s e s') :
    s'.unsent x + s'.travelling x + s'.uncalled x + s'.called x ≤ s'.handlers x := by
  cases hnode : e.isNode with
  | true =>
    obtain ⟨hproxies, htoNode, hspent, -⟩ := step_spends (x := x) hnode hstep
    rw [State.unsent, State.travelling, State.handlers] at h ⊢
    rw [hproxies, htoNode]
    omega
  | false =>
    obtain ⟨hcalls, -, htravels⟩ := step_travels (x := x) hnode hstep
    have htasks := htravels Stage.isCreated rfl
    rw [State.called, State.uncalled] at h ⊢
    rw [hcalls]
    omega

theorem step_computed (h : s.unsent x + s.travelling x + s.unanswered x + s.computed x ≤ s.handlers x)
    (hstep : Step py secret vllmLocalUrl s e s') :
    s'.unsent x + s'.travelling x + s'.unanswered x + s'.computed x ≤ s'.handlers x := by
  cases hnode : e.isNode with
  | true =>
    obtain ⟨hproxies, htoNode, -, hspent⟩ := step_spends (x := x) hnode hstep
    rw [State.unsent, State.travelling, State.handlers] at h ⊢
    rw [hproxies, htoNode]
    omega
  | false =>
    obtain ⟨-, hanswers, htravels⟩ := step_travels (x := x) hnode hstep
    have htasks := htravels (fun stage => !stage.isAnswered) rfl
    rw [State.computed, State.unanswered] at h ⊢
    rw [hanswers]
    omega

theorem step_replies {events : List Event} (h : events.countP (·.repliesTo x) ≤ s.finished x)
    (hstep : Step py secret vllmLocalUrl s e s') : (events ++ [e]).countP (·.repliesTo x) ≤ s'.finished x := by
  rw [List.countP_append, List.countP_singleton]
  cases hstep with
  | advance before after p p' reply pending hproxies hadvance =>
    have hnot := advance_notOver hadvance
    have hover : (if p.frame.id = x ∧ reply.isSome = true then 1 else 0) ≤
        if p.frame.id = x ∧ p'.phase.isOver = true then 1 else 0 :=
      ite_one_le fun hc => ⟨hc.1, advance_reply hadvance hc.2⟩
    simp [hproxies, List.countP_cons, advance_frame hadvance, hnot, Event.repliesTo] at h ⊢
    omega
  | arrive request rid socket hbridge hnew => simpa [Event.repliesTo] using h
  | send before after frame future socket hproxies =>
    simpa [hproxies, List.countP_cons, Event.repliesTo] using h
  | receive before after socket r htoRelay =>
    have hfinished := countP_settle s.pending r s.proxies (fun frame phase => frame.id = x && phase.isOver)
    simp only [State.finished] at h ⊢
    rw [hfinished]
    exact h
  | _ => exact h

end Spending

section Replies

theorem advance_replies {pending pending' : List String} {p p' : Proxy} {reply : Reply}
    (h : Advance pending p (some reply) pending' p') : p'.phase = .ended (some reply) := by
  cases h <;> rfl

theorem step_over (hstep : Step py secret vllmLocalUrl s e s') {p : Proxy} (hp : p ∈ s.proxies)
    (hover : p.phase.isOver) : ∃ p' ∈ s'.proxies, p'.frame = p.frame ∧ p'.phase = p.phase := by
  have hkept {before after : List Proxy} {q q' : Proxy} (hproxies : s.proxies = before ++ q :: after)
      (hnot : q.phase.isOver = false) : p ∈ before ++ q' :: after := by
    rw [hproxies] at hp
    rcases mem_replaced hp q' with rfl | hp
    · rw [hnot] at hover
      cases hover
    · exact hp
  cases hstep with
  | arrive request rid socket hbridge hnew => exact ⟨p, List.mem_append_left _ hp, rfl, rfl⟩
  | send before after frame future socket hproxies => exact ⟨p, hkept hproxies rfl, rfl, rfl⟩
  | advance before after q q' reply pending hproxies hadvance =>
    exact ⟨p, hkept hproxies (advance_notOver hadvance), rfl, rfl⟩
  | receive before after socket r htoRelay =>
    exact ⟨settle s.pending r p, List.mem_map_of_mem hp, settle_frame _ _ p, settle_phase _ _ p⟩
  | _ => exact ⟨p, hp, rfl, rfl⟩

def Returned (s : State) (events : List Event) : Prop :=
  ∀ id reply, Event.advance id (some reply) ∈ events →
    ∃ p ∈ s.proxies, p.frame.id = id ∧ p.phase = .ended (some reply)

theorem Returned.step {events : List Event} (h : Returned s events)
    (hstep : Step py secret vllmLocalUrl s e s') : Returned s' (events ++ [e]) := by
  intro id reply hmem
  rcases List.mem_append.mp hmem with hmem | hmem
  · obtain ⟨p, hp, hid, hphase⟩ := h id reply hmem
    obtain ⟨p', hp', hframe, hphase'⟩ := step_over hstep hp (by rw [hphase]; rfl)
    exact ⟨p', hp', by rw [hframe, hid], by rw [hphase', hphase]⟩
  · rw [← List.mem_singleton.mp hmem] at hstep
    cases hstep with
    | advance before after p p' reply' pending hproxies hadvance =>
      refine ⟨p', mem_middle before after p', ?_, advance_replies hadvance⟩
      rw [advance_frame hadvance]

end Replies

structure RelayInvariant (py : Python) (vllmLocalUrl : String) (s : State) (events : List Event) : Prop where
  owned : Owned s
  forwarded : Forwarded vllmLocalUrl s events
  traced : Traced py s
  returned : Returned s events
  calls : ∀ x, s.unsent x + s.travelling x + s.uncalled x + s.called x ≤ s.handlers x
  computed : ∀ x, s.unsent x + s.travelling x + s.unanswered x + s.computed x ≤ s.handlers x
  replies : ∀ x, events.countP (·.repliesTo x) ≤ s.finished x

theorem run_invariant {events : List Event} (h : Run (Step py secret vllmLocalUrl) {} s events) :
    RelayInvariant py vllmLocalUrl s events := by
  apply Run.invariant (RelayInvariant py vllmLocalUrl) _ _ h
  · refine ⟨⟨List.nodup_nil, ?_, ?_, ?_⟩, ⟨?_, ?_, ?_, ?_⟩, ⟨?_, ?_, ?_⟩, ?_, ?_, ?_, ?_⟩ <;>
      simp [Returned, State.frames]
  · intro s events e s' h hstep
    exact ⟨h.owned.step hstep, h.forwarded.step h.owned hstep, h.traced.step h.owned hstep, h.returned.step hstep,
      fun x => step_calls (h.calls x) hstep, fun x => step_computed (h.computed x) hstep,
      fun x => step_replies (h.replies x) hstep⟩

theorem Owned.handlers_le_one (h : Owned s) (x : String) : s.handlers x ≤ 1 := by
  have hcount := List.nodup_iff_count_le_one.mp h.distinct x
  rw [State.frames, List.map_map, List.count, List.countP_map] at hcount
  exact hcount

def forwarded (vllmLocalUrl : String) (request : HttpRequest) : VllmRequest where
  method := request.method
  url := vllmLocalUrl ++ "/v1/" ++ request.path ++ if request.query ≠ "" then "?" ++ request.query else ""
  content := request.body

def Answers (py : Python) (outcome : Except String VllmResponse) (status : ℤ) (body contentType : String) : Prop :=
  match outcome with
  | .ok r => status = r.statusCode ∧ body = r.text ∧ contentType = r.contentType.getD "application/json"
  | .error e => status = 502 ∧
    body = py.dumps (.object [("error", .object [("message", .str ("bridge->vllm failed: " ++ e))])]) ∧
      contentType = "application/json"

structure RelaySafe (py : Python) (vllmLocalUrl : String) (s : State) (events : List Event) : Prop where
  own : ∀ id status body contentType, Event.advance id (some (.response status body contentType)) ∈ events →
    ∃ request outcome, Event.arrive (requestFrame id request) ∈ events ∧
      (requestFrame id request, forwarded vllmLocalUrl request) ∈ s.calls ∧
        (requestFrame id request, outcome) ∈ s.answers ∧ Answers py outcome status body contentType
  calls : ∀ c ∈ s.calls, ∃ request, Event.arrive (requestFrame c.1.id request) ∈ events ∧
    c = (requestFrame c.1.id request, forwarded vllmLocalUrl request)
  answeredOnce : ∀ id, events.countP (·.repliesTo id) ≤ 1
  computedOnce : ∀ id, s.answers.countP (fun a => a.1.id = id) ≤ 1
  calledOnce : ∀ id, s.calls.countP (fun c => c.1.id = id) ≤ 1

theorem vllmRequest_requestFrame (vllmLocalUrl rid : String) (request : HttpRequest) :
    vllmRequest vllmLocalUrl (requestFrame rid request) = forwarded vllmLocalUrl request := by
  simp only [vllmRequest, requestFrame, forwarded, String.append_assoc]
  rfl

theorem answers_handle (py : Python) (frame : RequestFrame) (outcome : Except String VllmResponse) :
    Answers py outcome (handle py frame outcome).status (handle py frame outcome).body
      (handle py frame outcome).contentType := by
  cases outcome with
  | ok r => exact ⟨rfl, rfl, rfl⟩
  | error e => exact ⟨rfl, rfl, rfl⟩

structure Discarded (s s' : State) (r : ResponseFrame) : Prop where
  proxies : s'.proxies = s.proxies
  pending : ∀ id, id ≠ r.id → (id ∈ s'.pending ↔ id ∈ s.pending)
  bridge : s'.bridgeWs = s.bridgeWs
  node : s'.toNode = s.toNode ∧ s'.tasks = s.tasks ∧ s'.calls = s.calls ∧ s'.answers = s.answers
  channel : ∃ socket before after, s.toRelay = before ++ (socket, r) :: after ∧ s'.toRelay = before ++ after

theorem receive_discarded {r : ResponseFrame} (htraced : Traced py s)
    (hlate : ∀ p ∈ s.proxies, p.frame.id = r.id → p.phase.timedOut)
    (hstep : Step py secret vllmLocalUrl s (.receive r) s') : Discarded s s' r := by
  cases hstep with
  | receive before after socket _ htoRelay =>
    refine ⟨?_, ?_, rfl, ⟨rfl, rfl, rfl, rfl⟩, ⟨socket, before, after, htoRelay, rfl⟩⟩
    · calc
        s.proxies.map (settle s.pending r) = s.proxies.map id := by
          apply List.map_congr_left
          intro p hp
          by_cases hid : p.frame.id = r.id
          · exact settle_done s.pending r ((htraced.proxies p hp).timedOut (hlate p hp hid))
          · exact settle_other s.pending r hid
        _ = s.proxies := List.map_id _
    · intro id hid
      simp [hid]

theorem relay_never_crosses {events : List Event} (h : Run (Step py secret vllmLocalUrl) {} s events) :
    RelaySafe py vllmLocalUrl s events ∧ ∀ r s', Step py secret vllmLocalUrl s (.receive r) s' →
      (∀ p ∈ s.proxies, p.frame.id = r.id → p.phase.timedOut) → Discarded s s' r := by
  have hinv := run_invariant h
  refine ⟨⟨?_, ?_, ?_, ?_, ?_⟩, fun r s' hstep hlate => receive_discarded hinv.traced hlate hstep⟩
  · intro id status body contentType hmem
    obtain ⟨p, hp, rfl, hphase⟩ := hinv.returned id _ hmem
    obtain ⟨r, ⟨outcome, hanswer, rfl⟩, rfl, rfl, rfl⟩ := (hinv.traced.proxies p hp).reply _ _ _ hphase
    obtain ⟨harrived, request, hrequest⟩ := hinv.forwarded.arrived p.frame (List.mem_map_of_mem hp)
    have hcall := hinv.forwarded.answers _ hanswer
    refine ⟨request, outcome, ?_, ?_, ?_, answers_handle py p.frame outcome⟩
    · rwa [← hrequest]
    · rwa [← vllmRequest_requestFrame vllmLocalUrl p.frame.id, ← hrequest]
    · rwa [← hrequest]
  · intro c hc
    obtain ⟨hframe, hcall⟩ := hinv.forwarded.calls c hc
    obtain ⟨harrived, request, hrequest⟩ := hinv.forwarded.arrived c.1 hframe
    refine ⟨request, ?_, ?_⟩
    · rwa [← hrequest]
    · rw [← vllmRequest_requestFrame vllmLocalUrl c.1.id, ← hrequest, ← hcall]
  · intro id
    have hone := hinv.owned.handlers_le_one id
    have hreplies := hinv.replies id
    have hfinished : s.finished id ≤ s.handlers id := by
      apply List.countP_mono_left
      intro p _ hp
      rw [Bool.and_eq_true] at hp
      exact hp.1
    omega
  · intro id
    have hone := hinv.owned.handlers_le_one id
    have hcomputed := hinv.computed id
    simp only [State.computed] at hcomputed
    omega
  · intro id
    have hone := hinv.owned.handlers_le_one id
    have hcalls := hinv.calls id
    simp only [State.called] at hcalls
    omega

def chatRequest : HttpRequest := ⟨some "Bearer k", "POST", "chat/completions", "", "p"⟩

def chatFrame : RequestFrame := requestFrame "1" chatRequest

def chatResponse : ResponseFrame := ⟨"1", 200, "a", "application/json"⟩

theorem relay_never_crosses_chat : ∃ s events, Run (Step asciiPython "k" "u") {} s events ∧
    Event.advance "1" (some (.response 200 "a" "application/json")) ∈ events ∧ RelaySafe asciiPython "u" s events := by
  have hsent : Run (Step asciiPython "k" "u") {} _ _ :=
    .snoc (.snoc (.snoc (.snoc .nil (.connect {} 0 (some "Bearer k") (by decide)))
      (.arrive _ chatRequest "1" 0 (by decide) List.not_mem_nil))
      (.advance _ [] [] _ _ _ _ rfl (.register [] chatFrame .waiting 0))) (.send _ [] [] chatFrame .waiting 0 rfl)
  have hanswered : Run (Step asciiPython "k" "u") {} _ _ :=
    .snoc (.snoc (.snoc (.snoc hsent (.deliver _ [] [] 0 chatFrame rfl)) (.call _ [] [] 0 chatFrame rfl))
      (.finish _ [] [] 0 chatFrame (.ok ⟨200, "a", none⟩) rfl)) (.sendBack _ [] [] 0 chatFrame chatResponse rfl)
  have hreturned : Run (Step asciiPython "k" "u") {} _ _ :=
    .snoc (.snoc hanswered (.receive _ [] [] 0 chatResponse rfl))
      (.advance _ [] [] ⟨chatFrame, .result chatResponse, .waiting⟩ _ _ _ rfl (.respond [] chatFrame chatResponse))
  refine ⟨_, _, hreturned, ?_, (relay_never_crosses hreturned).1⟩
  exact List.mem_append_right _ (List.mem_singleton_self _)

end TokensThatSuffice.Relay
