import TokensThatSuffice.RouterAffinity
import TokensThatSuffice.SubtaskRuns

namespace TokensThatSuffice

open Router Runs

def Content.toJson : Content → Json
  | .null => .null
  | .text s => .str s
  | .parts ps => .array (ps.map Part.toJson)

def Message.contentJson (m : Message) : Json := (m.content.getD .null).toJson

/-- A request body with these messages, each with its content as the agent holds it. -/
def Carries (body : Json) (sent : List Message) : Prop :=
  ∃ msgs, body.getKey "messages" = .ok (some (.array msgs)) ∧
    List.Forall₂ (fun m j => messageContent j = .ok m.contentJson) sent msgs

def openingKey (d : Digest) (system user : Message) : String :=
  d.sha1 (d.dumpsSorted (.array [system.contentJson, user.contentJson]))

theorem conversationKey_carries (d : Digest) {body : Json} {sent : List Message} {system user : Message}
    (h : Carries body sent) (hopen : sent.take 2 = [system, user]) :
    conversationKey d body = .ok (some (openingKey d system user)) := by
  obtain ⟨msgs, hmsgs, hcontents⟩ := h
  have htwo := List.forall₂_take 2 hcontents
  rw [hopen] at htwo
  obtain ⟨j, rest, hsystem, hrest, htake⟩ := List.forall₂_cons_left_iff.mp htwo
  obtain ⟨k, rest, huser, hnil, rfl⟩ := List.forall₂_cons_left_iff.mp hrest
  obtain rfl := List.forall₂_nil_left_iff.mp hnil
  have hread : openingContents (.array msgs) = .ok [system.contentJson, user.contentJson] := by
    rw [openingContents, htake, mapM_eq_ok]
    exact .cons hsystem (.cons huser .nil)
  have hfull : (Json.array msgs).truthy = true := by
    cases msgs with
    | nil => cases htake
    | cons m rest => rfl
  simp only [conversationKey, hmsgs, ok_bind, Option.getD_some, hfull, if_true, hread, pure_eq_ok, openingKey]

variable (dec : Decoder) (d : Digest) (cfg : AgentConfig)

def IsCompactor (compact : Compact) : Prop :=
  (∃ strategy : Strategy, strategy.Allows dec.toPython compact) ∨
    ∃ (c : SubtaskModelBasedSummarizer) (keepRecentSteps : ℤ), compact = c.compact dec keepRecentSteps

structure Routed where
  agent : AgentState
  outbox : List (List Message)
  router : System

inductive RoutedEvent where
  | agent
  | own (dispatches : List Dispatch)
  | other (dispatches : List Dispatch)

def RoutedEvent.dispatches : RoutedEvent → List Dispatch
  | .agent => []
  | .own dispatches => dispatches
  | .other dispatches => dispatches

/-- A sent history reaches the router any number of times and at any moment; every other step of the router,
also the end of one of the agent's own requests, is an `other`. -/
inductive RoutedStep : Routed → RoutedEvent → Routed → Prop
  | agent (t : Routed) (i : StepInput) (compact : Compact) (hi : i.compactor = some compact)
      (hcompact : IsCompactor dec compact) :
      RoutedStep t .agent { t with
        agent := (step dec.toPython cfg i t.agent).1
        outbox := t.outbox ++ (step dec.toPython cfg i t.agent).2.sent.toList }
  | own (t : Routed) (sent : List Message) (raw : String) (body : Json) (router : System)
      (hsent : sent ∈ t.outbox) (hbody : dec.loads raw = some body) (hcarries : Carries body sent)
      (hrouter : Router.Step dec.toPython d t.router (.arrive raw) router) :
      RoutedStep t (.own (dispatched dec.toPython d t.router (.arrive raw))) { t with router }
  | other (t : Routed) (e : Router.Event) (router : System)
      (hrouter : Router.Step dec.toPython d t.router e router) :
      RoutedStep t (.other (dispatched dec.toPython d t.router e)) { t with router }

section Opening

variable {dec cfg}

theorem compact_opening {compact : Compact} (hcompact : IsCompactor dec compact) {messages : List Message}
    {keepFirst : ℕ} {keepLastTurns : ℤ} (hkeep : 2 ≤ keepFirst) (hlen : keepFirst ≤ messages.length)
    {r : CompactionResult} (h : compact messages keepFirst keepLastTurns = .ok r) :
    r.messages.take 2 = messages.take 2 := by
  rcases hcompact with ⟨strategy, hallows⟩ | ⟨c, keepRecentSteps, rfl⟩
  · have hhead := (Strategy.compact_cases hallows h).take_keepFirst hlen
    have htake (xs : List Message) : (xs.take keepFirst).take 2 = xs.take 2 := by
      rw [List.take_take, Nat.min_eq_left hkeep]
    rw [← htake, hhead, htake]
  · have hopen := (compact_extends dec c keepRecentSteps h).opening
    have hfull : (messages.take 2).length = 2 := by
      rw [List.length_take]
      omega
    have hshort : (r.messages.take 2).length ≤ 2 := List.length_take_le _ _
    exact (hopen.eq_of_length_le (by omega)).symm

theorem maybeCompress_opening {compact : Compact} (hcompact : IsCompactor dec compact) (hkeep : 2 ≤ cfg.keepFirst)
    (save : SaveOutcome) (s : AgentState) :
    (maybeCompress dec.toPython cfg (some compact) save s).state.messages.take 2 = s.messages.take 2 := by
  rcases maybeCompress_messages dec.toPython cfg compact save s with hsame | ⟨r, -, -, hr, -, -, -, hlen, heq⟩
  · rw [hsame]
  · rw [heq]
    exact compact_opening hcompact hkeep (by omega) hr

theorem step_opening {i : StepInput} {compact : Compact} (hi : i.compactor = some compact)
    (hcompact : IsCompactor dec compact) (hkeep : 2 ≤ cfg.keepFirst) {s : AgentState} {system user : Message}
    (hopen : s.messages.take 2 = [system, user]) :
    (step dec.toPython cfg i s).1.messages.take 2 = [system, user] ∧
      ∀ sent ∈ (step dec.toPython cfg i s).2.sent, sent.take 2 = [system, user] := by
  have hcompressed := maybeCompress_opening hcompact hkeep i.save s
  rw [hopen, ← hi] at hcompressed
  constructor
  · rw [step_messages, List.take_append]
    have hlen : 2 ≤ (maybeCompress dec.toPython cfg i.compactor i.save s).state.messages.length := by
      have htwo := congrArg List.length hcompressed
      rw [List.length_take] at htwo
      simp only [List.length_cons, List.length_nil] at htwo
      omega
    rw [hcompressed, Nat.sub_eq_zero_of_le hlen, List.take_zero, List.append_nil]
  · intro sent hsent
    rw [step_sent dec.toPython cfg i s sent hsent]
    exact hcompressed

end Opening

structure Sticks (d : Digest) (system user : Message) (t : Routed) (events : List RoutedEvent) : Prop where
  opening : t.agent.messages.take 2 = [system, user]
  sent : ∀ sent ∈ t.outbox, sent.take 2 = [system, user]
  backends : 0 < t.router.router.inflight.length
  counted : Counted t.router
  pinned : Pinned (events.flatMap (·.dispatches)) t.router.router
  own : ∀ dispatches, RoutedEvent.own dispatches ∈ events →
    ∃ x, dispatches = [x] ∧ x.key = some (openingKey d system user)

variable {dec d cfg}

theorem Sticks.routed {system user : Message} {t : Routed} {events : List RoutedEvent} {e : RoutedEvent}
    {received : Router.Event} {router : System} (h : Sticks d system user t events)
    (hrouter : Router.Step dec.toPython d t.router received router)
    (hdispatches : e.dispatches = dispatched dec.toPython d t.router received)
    (hown : ∀ dispatches, e = .own dispatches →
      ∃ x, dispatches = [x] ∧ x.key = some (openingKey d system user)) :
    Sticks d system user { t with router } (events ++ [e]) := by
  refine ⟨h.opening, h.sent, ?_, h.counted.step hrouter, ?_, ?_⟩
  · rw [step_backends hrouter]
    exact h.backends
  · rw [List.flatMap_append, List.flatMap_singleton, hdispatches]
    exact h.pinned.step h.counted hrouter
  · intro dispatches hmem
    rcases List.mem_append.mp hmem with hmem | hmem
    · exact h.own dispatches hmem
    · exact hown dispatches (List.mem_singleton.mp hmem).symm

theorem Sticks.step {system user : Message} {t t' : Routed} {events : List RoutedEvent} {e : RoutedEvent}
    (hkeep : 2 ≤ cfg.keepFirst) (h : Sticks d system user t events) (hstep : RoutedStep dec d cfg t e t') :
    Sticks d system user t' (events ++ [e]) := by
  cases hstep with
  | agent i compact hi hcompact =>
    obtain ⟨hopening, hsent⟩ := step_opening hi hcompact hkeep h.opening
    refine ⟨hopening, ?_, h.backends, h.counted, ?_, ?_⟩
    · intro sent hmem
      rcases List.mem_append.mp hmem with hmem | hmem
      · exact h.sent sent hmem
      · exact hsent sent (Option.mem_toList.mp hmem)
    · simpa [RoutedEvent.dispatches] using h.pinned
    · intro dispatches hmem
      rcases List.mem_append.mp hmem with hmem | hmem
      · exact h.own dispatches hmem
      · cases List.mem_singleton.mp hmem
  | own sent raw body router hsent hbody hcarries hrouter =>
    have hkey := conversationKey_carries d hcarries (h.sent sent hsent)
    apply h.routed hrouter rfl
    rintro dispatches ⟨⟩
    obtain ⟨idx, s', hpick⟩ := pickBackend_succeeds (some (openingKey d system user)) h.backends
    exact ⟨_, congrArg Option.toList (dispatchOf_eq dec.toPython d hbody hkey hpick), rfl⟩
  | other e router hrouter =>
    apply h.routed hrouter rfl
    rintro dispatches ⟨⟩

theorem sticks_run {backends : ℕ} (hbackends : 0 < backends) (hkeep : 2 ≤ cfg.keepFirst) {system user : Message}
    {start : AgentState} (hstart : start.messages = [system, user]) {t : Routed} {events : List RoutedEvent}
    (h : Run (RoutedStep dec d cfg) ⟨start, [], .initial backends⟩ t events) : Sticks d system user t events := by
  apply Run.invariant (Sticks d system user) _ _ h
  · refine ⟨?_, by simp, ?_, Counted.initial backends, Pinned.initial backends, by simp⟩
    · rw [hstart]
      rfl
    · rw [System.initial, State.initial, List.length_replicate]
      exact hbackends
  · intro s events e s' ih hstep
    exact ih.step hkeep hstep

structure OneBackend (d : Digest) (system user : Message) (t : Routed) (events : List RoutedEvent) (first : Dispatch) :
    Prop where
  keys : ∀ sent ∈ t.outbox, ∀ body, Carries body sent →
    conversationKey d body = .ok (some (openingKey d system user))
  found : (events.flatMap (·.dispatches)).find? (fun x => x.key = some (openingKey d system user)) = some first
  own : ∀ dispatches, RoutedEvent.own dispatches ∈ events →
    ∃ x, dispatches = [x] ∧ x.key = some (openingKey d system user) ∧ x.idx = first.idx

theorem routedRun_sticks {backends : ℕ} (hbackends : 0 < backends) (hkeep : 2 ≤ cfg.keepFirst)
    {system user : Message} {start : AgentState} (hstart : start.messages = [system, user]) {t : Routed}
    {events : List RoutedEvent} (h : Run (RoutedStep dec d cfg) ⟨start, [], .initial backends⟩ t events)
    {dispatches : List Dispatch} (hown : RoutedEvent.own dispatches ∈ events) :
    ∃ first, OneBackend d system user t events first ∧
      (FewestInFlight first.before.load first.idx ↔ first.before.Balanced) ∧
        (first.before.Undropped → first.before.Balanced) := by
  have hsticks : Sticks d system user t events := sticks_run hbackends hkeep hstart h
  have hmem {x : Dispatch} (hx : RoutedEvent.own [x] ∈ events) : x ∈ events.flatMap (·.dispatches) :=
    List.mem_flatMap.mpr ⟨.own [x], hx, List.mem_singleton_self x⟩
  obtain ⟨x, rfl, hkey⟩ := hsticks.own dispatches hown
  rcases hsticks.pinned (openingKey d system user) with
    ⟨-, hnone⟩ | ⟨first, hfirst, hcounted, hfewest, -, hsame⟩
  · exact absurd hkey (hnone x (hmem hown))
  · refine ⟨first, ⟨?_, hfirst, ?_⟩, fewest_iff_balanced hcounted hfewest, balanced_of_undropped hcounted hfewest⟩
    · intro sent hsent body hcarries
      exact conversationKey_carries d hcarries (hsticks.sent sent hsent)
    · intro dispatches hown
      obtain ⟨y, rfl, hy⟩ := hsticks.own dispatches hown
      exact ⟨y, rfl, hy, hsame y (hmem hown) hy⟩

def wireBody : Json := .object [("messages", .array [
  .object [("role", .str "system"), ("content", .str "s")], .object [("role", .str "user"), ("content", .str "u")]])]

def wireLoads (raw : String) : Option Json :=
  if raw = "b" then some wireBody
  else if raw = "s" then some (.object [("stream", .bool true)])
  else none

def wireDecoder : Decoder where
  toPython := { asciiPython with loads := wireLoads }
  loadsError _ := ⟨"Expecting value", true⟩

def keyDigest : Digest := ⟨fun _ => "k", id⟩

def firstStep : StepInput where
  compactor := some TruncationBasedSummarizer.compact
  reply := .ok { role := .assistant, content := some (.text "a") }
  appended := []

def routedStart : Routed := ⟨{ messages := [systemMessage, userMessage] }, [], .initial 2⟩

def firstSent (router : System) : Routed where
  agent := (step wireDecoder.toPython {} firstStep { messages := [systemMessage, userMessage] }).1
  outbox := [[systemMessage, userMessage]]
  router := router

theorem carries_wireBody : Carries wireBody [systemMessage, userMessage] := ⟨_, rfl, .cons rfl (.cons rfl .nil)⟩

theorem firstSent_step (router : System) :
    RoutedStep wireDecoder keyDigest {} { routedStart with router } .agent (firstSent router) :=
  .agent _ firstStep _ rfl (.inl ⟨.truncation, rfl⟩)

theorem firstSent_arrives (router : System) : RoutedStep wireDecoder keyDigest {} (firstSent router)
    (.own (dispatched wireDecoder.toPython keyDigest router (.arrive "b")))
    (firstSent ⟨(enter wireDecoder.toPython keyDigest "b" router.router).2,
      router.requests ++ [(enter wireDecoder.toPython keyDigest "b" router.router).1]⟩) :=
  .own (firstSent router) _ "b" wireBody _ (List.mem_singleton_self _) rfl carries_wireBody (.arrive router "b")

theorem routedRun_sticks_first : ∃ t events first,
    Run (RoutedStep wireDecoder keyDigest {}) routedStart t events ∧
      OneBackend keyDigest systemMessage userMessage t events first ∧ FewestInFlight first.before.load first.idx := by
  have hrun := (Run.nil.snoc (firstSent_step _)).snoc (firstSent_arrives (.initial 2))
  obtain ⟨first, hone, hiff, hbalanced⟩ := routedRun_sticks (by decide) (by decide) rfl hrun
    (List.mem_append_right _ (List.mem_singleton_self _))
  have hfirst : some (Dispatch.mk (some (openingKey keyDigest systemMessage userMessage)) (.initial 2) 0) = some first :=
    hone.found
  have hundropped : first.before.Undropped := by
    cases hfirst
    exact nofun
  exact ⟨_, _, first, hrun, hone, hiff.mpr (hbalanced hundropped)⟩

theorem routedRun_avoids_dropped : ¬ ∀ t events, Run (RoutedStep wireDecoder keyDigest {}) routedStart t events →
    ∀ dispatches, RoutedEvent.own dispatches ∈ events → ∃ first,
      OneBackend keyDigest systemMessage userMessage t events first ∧ FewestInFlight first.before.load first.idx := by
  intro h
  let returned : System := ⟨⟨[1, 0], []⟩, [.returned 0]⟩
  let dropped : System := ⟨⟨[1, 0], []⟩, [.dropped 0]⟩
  have hstream : RoutedStep wireDecoder keyDigest {} routedStart (.other _) { routedStart with router := returned } :=
    .other routedStart (.arrive "s") returned (.arrive (.initial 2) "s")
  have hdrop : RoutedStep wireDecoder keyDigest {} { routedStart with router := returned } (.other _)
      { routedStart with router := dropped } := .other _ .drop dropped (.drop ⟨[1, 0], []⟩ [] [] 0)
  have hrun := (((Run.nil.snoc hstream).snoc hdrop).snoc (firstSent_step dropped)).snoc (firstSent_arrives dropped)
  obtain ⟨first, hone, hfewest⟩ := h _ _ hrun _ (List.mem_append_right _ (List.mem_singleton_self _))
  have hfirst : some (Dispatch.mk (some (openingKey keyDigest systemMessage userMessage)) dropped 1) = some first :=
    hone.found
  cases hfirst
  exact absurd (hfewest.first 0 (by decide)) (by decide)

end TokensThatSuffice
