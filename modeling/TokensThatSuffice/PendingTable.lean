import TokensThatSuffice.RelayOnce

namespace TokensThatSuffice.Relay

open Runs

structure Cleared (s : State) : Prop where
  settled : ∀ p ∈ s.proxies, p.phase.isOver → p.frame.id ∉ s.pending
  idle : (∀ p ∈ s.proxies, p.phase.isOver) → s.pending = []

def Abandons (s s' : State) : Prop :=
  ∃ p ∈ s.proxies, p.frame.id ∈ s.pending ∧ p.phase.isOver = false ∧
    ∃ p' ∈ s'.proxies, p'.frame = p.frame ∧ (p'.phase = .ended none ∨ p'.phase = .ended (some (.error 500)))

structure Held (pending : List String) (p : Proxy) : Prop where
  reading : ∀ socket, p.phase = .reading socket → p.future = .waiting ∧ p.frame.id ∉ pending
  result : ∀ r, p.future = .result r → p.frame.id ∉ pending

structure Tabled (s : State) : Prop where
  owned : ∀ id ∈ s.pending, id ∈ s.frames.map (·.id)
  held : ∀ p ∈ s.proxies, Held s.pending p

variable {py : Python} {secret vllmLocalUrl : String} {s s' : State} {e : Event}

theorem Owned.proxy_eq (h : Owned s) {p q : Proxy} (hp : p ∈ s.proxies) (hq : q ∈ s.proxies)
    (hid : p.frame.id = q.frame.id) : p = q := by
  have hdistinct := h.distinct
  rw [State.frames, List.map_map] at hdistinct
  exact List.inj_on_of_nodup_map hdistinct hp hq hid

section Advancing

variable {pending pending' : List String} {p p' : Proxy} {reply : Option Reply}

theorem advance_pending (h : Advance pending p reply pending' p') {id : String} (hid : id ≠ p.frame.id) :
    id ∈ pending' ↔ id ∈ pending := by
  cases h with
  | register => rw [List.mem_cons, or_iff_right hid]
  | expire => simp [hid]
  | _ => rfl

theorem Held.advance (hp : Held pending p) (h : Advance pending p reply pending' p') : Held pending' p' := by
  cases h with
  | register frame future socket =>
    refine ⟨nofun, ?_⟩
    intro r hr
    have hwaiting := (hp.reading socket rfl).1
    rw [hr] at hwaiting
    cases hwaiting
  | respond frame r => exact ⟨nofun, hp.result⟩
  | timeout frame future =>
    refine ⟨nofun, ?_⟩
    intro r hr
    apply hp.result r
    by_cases hwaiting : future = .waiting
    · rw [if_pos hwaiting] at hr
      cases hr
    · rwa [if_neg hwaiting] at hr
  | expire frame future =>
    refine ⟨nofun, ?_⟩
    intro r _
    simp
  | raised frame future future' phase reply hnot hfuture hreply =>
    refine ⟨nofun, ?_⟩
    intro r hr
    apply hp.result r
    rcases hfuture with rfl | rfl
    · exact hr
    · cases hr

theorem advance_ends (hp : Held pending p) (h : Advance pending p reply pending' p') (hover : p'.phase.isOver) :
    p.frame.id ∈ pending' ↔
      p.frame.id ∈ pending ∧ (p'.phase = .ended none ∨ p'.phase = .ended (some (.error 500))) := by
  cases h with
  | register frame future socket => cases hover
  | respond frame r =>
    have habsent := hp.result r rfl
    exact ⟨fun hmem => absurd hmem habsent, fun hmem => absurd hmem.1 habsent⟩
  | timeout frame future => cases hover
  | expire frame future => simp
  | raised frame future future' phase reply hnot hfuture hreply => rcases hreply with rfl | rfl <;> simp

end Advancing

structure Kept (pending pending' : List String) (p p' : Proxy) : Prop where
  frame : p'.frame = p.frame
  key : p.frame.id ∈ pending' → p.frame.id ∈ pending
  future : p'.future = p.future ∨ p.frame.id ∈ pending ∧ p.frame.id ∉ pending'
  phase : p'.phase = p.phase ∨ p.phase.isOver = false ∧ p'.phase = .waiting

theorem Kept.refl (pending : List String) (p : Proxy) : Kept pending pending p p := ⟨rfl, id, .inl rfl, .inl rfl⟩

theorem Kept.settle (pending : List String) (r : ResponseFrame) (p : Proxy) :
    Kept pending (pending.filter (· ≠ r.id)) p (settle pending r p) := by
  refine ⟨settle_frame pending r p, List.mem_of_mem_filter, ?_, .inl (settle_phase pending r p)⟩
  by_cases hset : p.frame.id = r.id ∧ r.id ∈ pending ∧ p.future = .waiting
  · obtain ⟨hid, hmem, -⟩ := hset
    rw [hid]
    exact .inr ⟨hmem, by simp⟩
  · rw [Relay.settle, if_neg hset]
    exact .inl rfl

theorem Held.kept {pending pending' : List String} {p p' : Proxy} (h : Held pending p)
    (hkept : Kept pending pending' p p') :
    Held pending' p' := by
  obtain ⟨hframe, hkey, hfuture, hphase⟩ := hkept
  constructor
  · intro socket hreading
    have hbefore : p.phase = .reading socket := by
      rcases hphase with hphase | ⟨-, hphase⟩
      · rw [← hphase, hreading]
      · rw [hphase] at hreading
        cases hreading
    obtain ⟨hwaiting, hnot⟩ := h.reading socket hbefore
    rw [hframe]
    rcases hfuture with hfuture | ⟨hmem, -⟩
    · exact ⟨hfuture.trans hwaiting, fun hmem => hnot (hkey hmem)⟩
    · exact absurd hmem hnot
  · intro r hr
    rw [hframe]
    rcases hfuture with hfuture | ⟨-, hnot⟩
    · rw [hfuture] at hr
      exact fun hmem => h.result r hr (hkey hmem)
    · exact hnot

theorem step_handler (howned : Owned s) (hstep : Step py secret vllmLocalUrl s e s') {p' : Proxy}
    (hp : p' ∈ s'.proxies) :
    (p'.frame.id ∉ s.frames.map (·.id) ∧ s'.pending = s.pending ∧ p'.future = .waiting ∧ p'.phase.isOver = false) ∨
      ∃ p ∈ s.proxies, (∃ reply, Advance s.pending p reply s'.pending p') ∨ Kept s.pending s'.pending p p' := by
  cases hstep with
  | arrive request rid socket hbridge hnew =>
    rcases List.mem_append.mp hp with hp | hp
    · exact .inr ⟨p', hp, .inr (.refl _ _)⟩
    · rw [List.mem_singleton.mp hp]
      refine .inl ⟨?_, rfl, rfl, rfl⟩
      simpa [State.frames, requestFrame] using hnew
  | send before after frame future socket hproxies =>
    rw [hproxies]
    rcases mem_replaced hp ⟨frame, future, .sending socket⟩ with rfl | hp
    · exact .inr ⟨_, mem_middle before after _, .inr ⟨rfl, id, .inl rfl, .inr ⟨rfl, rfl⟩⟩⟩
    · exact .inr ⟨p', hp, .inr (.refl _ _)⟩
  | advance before after p q reply pending hproxies hadvance =>
    rw [hproxies]
    rcases List.mem_cons.mp (List.perm_middle.mem_iff.mp hp) with rfl | hp
    · exact .inr ⟨p, mem_middle before after p, .inl ⟨reply, hadvance⟩⟩
    · have hdistinct := howned.distinct
      rw [State.frames, hproxies, List.map_map, List.map_append, List.map_cons, List.nodup_middle, ← List.map_append,
        List.nodup_cons] at hdistinct
      have hother : p'.frame.id ≠ p.frame.id := fun hid => hdistinct.1 (List.mem_map.mpr ⟨p', hp, hid⟩)
      exact .inr ⟨p', mem_around hp p, .inr ⟨rfl, (advance_pending hadvance hother).mp, .inl rfl, .inl rfl⟩⟩
  | receive before after socket r htoRelay =>
    obtain ⟨p, hmem, rfl⟩ := List.mem_map.mp hp
    exact .inr ⟨p, hmem, .inr (.settle s.pending r p)⟩
  | _ => exact .inr ⟨p', hp, .inr (.refl _ _)⟩

theorem step_pending (hstep : Step py secret vllmLocalUrl s e s') {id : String} (hid : id ∈ s'.pending) :
    id ∈ s.pending ∨ id ∈ s.frames.map (·.id) := by
  cases hstep with
  | advance before after p p' reply pending hproxies hadvance =>
    by_cases heq : id = p.frame.id
    · rw [heq, State.frames, hproxies]
      exact .inr (List.mem_map_of_mem (List.mem_map_of_mem (mem_middle before after p)))
    · exact .inl ((advance_pending hadvance heq).mp hid)
  | receive before after socket r htoRelay => exact .inl (List.mem_of_mem_filter hid)
  | _ => exact .inl hid

theorem Tabled.step (howned : Owned s) (h : Tabled s) (hstep : Step py secret vllmLocalUrl s e s') : Tabled s' := by
  constructor
  · intro id hid
    apply List.map_subset _ (step_frames_subset hstep)
    exact (step_pending hstep hid).elim (h.owned id) fun hframes => hframes
  · intro p' hp
    rcases step_handler howned hstep hp with ⟨hnew, hpending, hfuture, -⟩ | ⟨p, hmem, ⟨reply, hadvance⟩ | hkept⟩
    · rw [hpending]
      refine ⟨fun _ _ => ⟨hfuture, fun hid => hnew (h.owned _ hid)⟩, ?_⟩
      intro r hr
      rw [hfuture] at hr
      cases hr
    · exact (h.held p hmem).advance hadvance
    · exact (h.held p hmem).kept hkept

theorem settled_step_iff (howned : Owned s) (h : Tabled s)
    (hsettled : ∀ p ∈ s.proxies, p.phase.isOver → p.frame.id ∉ s.pending)
    (hstep : Step py secret vllmLocalUrl s e s') :
    (∀ p ∈ s'.proxies, p.phase.isOver → p.frame.id ∉ s'.pending) ↔ ¬ Abandons s s' := by
  constructor
  · rintro hafter ⟨p, hp, hmem, hnot, p', hp', hframe, hphase⟩
    have hover : p'.phase.isOver := by rcases hphase with hphase | hphase <;> rw [hphase] <;> rfl
    apply hafter p' hp' hover
    rcases step_handler howned hstep hp' with ⟨hnew, -⟩ | ⟨q, hq, hmoved⟩
    · rw [hframe] at hnew
      exact absurd (h.owned _ hmem) hnew
    · have hsame : q = p := by
        apply howned.proxy_eq hq hp
        rcases hmoved with ⟨reply, hadvance⟩ | hkept
        · rw [← advance_frame hadvance, hframe]
        · rw [← hkept.frame, hframe]
      rw [hsame] at hmoved
      rw [hframe]
      rcases hmoved with ⟨reply, hadvance⟩ | hkept
      · exact (advance_ends (h.held p hp) hadvance hover).mpr ⟨hmem, hphase⟩
      · rcases hkept.phase with hkept | ⟨-, hwaiting⟩
        · rw [hkept, hnot] at hover
          cases hover
        · rw [hwaiting] at hover
          cases hover
  · intro hnot p' hp' hover hmem
    rcases step_handler howned hstep hp' with ⟨-, -, -, hopen⟩ | ⟨p, hp, ⟨reply, hadvance⟩ | hkept⟩
    · rw [hopen] at hover
      cases hover
    · rw [advance_frame hadvance] at hmem
      obtain ⟨hbefore, hphase⟩ := (advance_ends (h.held p hp) hadvance hover).mp hmem
      exact hnot ⟨p, hp, hbefore, advance_notOver hadvance, p', hp', advance_frame hadvance, hphase⟩
    · rw [hkept.frame] at hmem
      rcases hkept.phase with hphase | ⟨-, hphase⟩
      · rw [hphase] at hover
        exact hsettled p hp hover (hkept.key hmem)
      · rw [hphase] at hover
        cases hover

theorem cleared_iff (h : Tabled s) : Cleared s ↔ ∀ p ∈ s.proxies, p.phase.isOver → p.frame.id ∉ s.pending := by
  refine ⟨Cleared.settled, fun hsettled => ⟨hsettled, ?_⟩⟩
  intro hover
  rw [List.eq_nil_iff_forall_not_mem]
  intro id hid
  obtain ⟨frame, hframe, rfl⟩ := List.mem_map.mp (h.owned id hid)
  obtain ⟨p, hp, rfl⟩ := List.mem_map.mp hframe
  exact hsettled p hp (hover p hp) hid

theorem pending_cleared_iff {trace : List (Event × State)}
    (h : Run (Recorded (Step py secret vllmLocalUrl)) {} s trace) :
    (∀ x ∈ trace, Cleared x.2) ↔
      Run (fun s x s' => Recorded (Step py secret vllmLocalUrl) s x s' ∧ ¬ Abandons s s') {} s trace := by
  apply forall_recorded_iff (fun s => Owned s ∧ Tabled s) _ _ _ _ h
  · exact ⟨⟨List.nodup_nil, nofun, nofun, nofun⟩, ⟨nofun, nofun⟩⟩
  · exact ⟨nofun, fun _ => rfl⟩
  · rintro s e s' ⟨howned, htabled⟩ hstep
    exact ⟨howned.step hstep, htabled.step howned hstep⟩
  · rintro s e s' ⟨howned, htabled⟩ hcleared hstep
    rw [cleared_iff (htabled.step howned hstep)]
    exact settled_step_iff howned htabled hcleared.settled hstep

def arrived : State := { bridgeWs := some 0, proxies := [⟨chatFrame, .waiting, .reading 0⟩] }

theorem chat_arrived : Run (Recorded (Step asciiPython "k" "u")) {} arrived
    [(.connect 0, { bridgeWs := some 0 }), (.arrive chatFrame, arrived)] := by
  have hconnect : Step asciiPython "k" "u" {} (.connect 0) { bridgeWs := some 0 } :=
    .connect {} 0 (some "Bearer k") (by decide)
  have harrive : Step asciiPython "k" "u" { bridgeWs := some 0 } (.arrive chatFrame) arrived :=
    .arrive _ chatRequest "1" 0 (by decide) List.not_mem_nil
  exact (Run.nil.record hconnect).record harrive

theorem not_cleared_dropped : ∃ trace s, Run (Recorded (Step asciiPython "k" "u")) {} s trace ∧
    s.proxies.map (·.phase) = [.ended (some (.error 500))] ∧ s.pending = ["1"] ∧ ¬ Cleared s := by
  have hregistered := chat_arrived.record (.advance _ [] [] _ _ _ _ rfl (.register [] chatFrame .waiting 0))
  have hdropped := hregistered.record (.disconnect _ 0)
  have hraised := hdropped.record (.advance _ [] [] _ _ _ _ rfl
    (.raised ["1"] chatFrame .waiting .waiting (.sending 0) (some (.error 500)) nofun (.inl rfl) (.inr rfl)))
  refine ⟨_, _, hraised, rfl, rfl, ?_⟩
  intro hcleared
  exact hcleared.settled ⟨chatFrame, .waiting, .ended (some (.error 500))⟩ (List.mem_singleton_self _) rfl
    (List.mem_singleton_self _)

theorem pending_cleared_iff_expired : ∃ trace s, Run (Recorded (Step asciiPython "k" "u")) {} s trace ∧
    s.proxies.map (·.phase) = [.ended (some (.error 504))] ∧ s.pending = [] ∧
      ((∀ x ∈ trace, Cleared x.2) ↔
        Run (fun s x s' => Recorded (Step asciiPython "k" "u") s x s' ∧ ¬ Abandons s s') {} s trace) := by
  have hregistered := chat_arrived.record (.advance _ [] [] _ _ _ _ rfl (.register [] chatFrame .waiting 0))
  have hsent := hregistered.record (.send _ [] [] chatFrame .waiting 0 rfl)
  have htimeout := hsent.record (.advance _ [] [] _ _ _ _ rfl (.timeout ["1"] chatFrame .waiting))
  have hexpired := htimeout.record (.advance _ [] [] _ _ _ _ rfl (.expire ["1"] chatFrame .cancelled))
  exact ⟨_, _, hexpired, rfl, rfl, pending_cleared_iff hexpired⟩

end TokensThatSuffice.Relay
