import Mathlib.Data.List.Nodup
import TokensThatSuffice.Relay
import TokensThatSuffice.Runs

namespace TokensThatSuffice.Relay

open Runs

def State.frames (s : State) : List RequestFrame := s.proxies.map (·.frame)

def ComputedFrom (py : Python) (s : State) (frame : RequestFrame) (r : ResponseFrame) : Prop :=
  ∃ outcome, (frame, outcome) ∈ s.answers ∧ r = handle py frame outcome

def Computed (py : Python) (s : State) (r : ResponseFrame) : Prop := ∃ frame, ComputedFrom py s frame r

theorem handle_id (py : Python) (frame : RequestFrame) (outcome : Except String VllmResponse) :
    (handle py frame outcome).id = frame.id := by
  cases outcome <;> rfl

def Phase.isOver : Phase → Bool
  | .ended _ => true
  | _ => false

def Phase.unsent : Phase → Bool
  | .reading _ => true
  | .sending _ => true
  | _ => false

def Phase.timedOut : Phase → Bool
  | .expired => true
  | .ended (some (.error status)) => status = 504
  | _ => false

structure OwnAnswer (py : Python) (s : State) (p : Proxy) : Prop where
  result : ∀ r, p.future = .result r → ComputedFrom py s p.frame r
  reply : ∀ status body contentType, p.phase = .ended (some (.response status body contentType)) →
    ∃ r, ComputedFrom py s p.frame r ∧ r.status = status ∧ r.body = body ∧ r.contentType = contentType
  timedOut : p.phase.timedOut → p.future ≠ .waiting

theorem advance_frame {pending pending' : List String} {p p' : Proxy} {reply : Option Reply}
    (h : Advance pending p reply pending' p') : p'.frame = p.frame := by
  cases h <;> rfl

theorem OwnAnswer.advance {py : Python} {s : State} {pending pending' : List String} {p p' : Proxy}
    {reply : Option Reply} (h : OwnAnswer py s p) (hadvance : Advance pending p reply pending' p') :
    OwnAnswer py s p' := by
  cases hadvance with
  | register frame future socket => exact ⟨h.result, nofun, nofun⟩
  | respond frame r =>
    refine ⟨h.result, ?_, nofun⟩
    intro status body contentType hphase
    cases hphase
    exact ⟨r, h.result r rfl, rfl, rfl, rfl⟩
  | timeout frame future =>
    by_cases hwaiting : future = .waiting
    · rw [if_pos hwaiting]
      exact ⟨nofun, nofun, nofun⟩
    · rw [if_neg hwaiting]
      exact ⟨h.result, nofun, fun _ => hwaiting⟩
  | expire frame future => exact ⟨h.result, nofun, fun _ => h.timedOut rfl⟩
  | raised frame future future' phase reply hphase hfuture hreply =>
    refine ⟨?_, ?_, ?_⟩
    · intro r hr
      rcases hfuture with rfl | rfl
      · exact h.result r hr
      · cases hr
    · rintro status body contentType hover
      rcases hreply with rfl | rfl <;> cases hover
    · intro hover
      rcases hreply with rfl | rfl
      · cases hover
      · cases hover

section Advancing

variable {pending pending' : List String} {p p' : Proxy} {reply : Option Reply}

theorem advance_notOver (h : Advance pending p reply pending' p') : p.phase.isOver = false := by
  cases h with
  | raised frame future future' phase reply hphase hfuture hreply =>
    cases phase with
    | ended r => exact absurd rfl (hphase r)
    | _ => rfl
  | _ => rfl

theorem advance_unsent (h : Advance pending p reply pending' p') (hunsent : p'.phase.unsent) :
    p.phase.unsent := by
  cases h with
  | register frame future socket => rfl
  | _ => cases hunsent

theorem advance_reply (h : Advance pending p reply pending' p') (hreply : reply.isSome) : p'.phase.isOver := by
  cases h with
  | register frame future socket => cases hreply
  | timeout frame future => cases hreply
  | _ => rfl

end Advancing

section Settling

variable (pending : List String) (r : ResponseFrame)

theorem settle_frame (p : Proxy) : (settle pending r p).frame = p.frame := by
  unfold settle
  split_ifs <;> rfl

theorem settle_phase (p : Proxy) : (settle pending r p).phase = p.phase := by
  unfold settle
  split_ifs <;> rfl

theorem settle_other {p : Proxy} (h : p.frame.id ≠ r.id) : settle pending r p = p := if_neg fun hc => h hc.1

theorem settle_done {p : Proxy} (h : p.future ≠ .waiting) : settle pending r p = p := if_neg fun hc => h hc.2.2

theorem frames_settle (proxies : List Proxy) :
    (proxies.map (settle pending r)).map (·.frame) = proxies.map (·.frame) := by
  rw [List.map_map]
  exact List.map_congr_left fun p _ => settle_frame pending r p

end Settling

variable {py : Python} {secret vllmLocalUrl : String} {s s' : State} {e : Event}

theorem step_frames (h : Step py secret vllmLocalUrl s e s') :
    s'.frames = s.frames ∨ ∃ rid request, e = .arrive (requestFrame rid request) ∧
      rid ∉ s.frames.map (·.id) ∧ s'.frames = s.frames ++ [requestFrame rid request] := by
  have hreplace {before after : List Proxy} {p p' : Proxy} (hproxies : s.proxies = before ++ p :: after)
      (hframe : p'.frame = p.frame) : (before ++ p' :: after).map (·.frame) = s.frames := by
    rw [State.frames, hproxies]
    simp [hframe]
  cases h with
  | arrive request rid socket hbridge hnew =>
    refine .inr ⟨rid, request, rfl, ?_, by simp [State.frames]⟩
    simpa [State.frames] using hnew
  | send before after frame future socket hproxies => exact .inl (hreplace hproxies rfl)
  | advance before after p p' reply pending hproxies hadvance =>
    exact .inl (hreplace hproxies (advance_frame hadvance))
  | receive before after socket r htoRelay => exact .inl (frames_settle s.pending r s.proxies)
  | _ => exact .inl rfl

theorem step_frames_subset (h : Step py secret vllmLocalUrl s e s') : s.frames ⊆ s'.frames := by
  rcases step_frames h with heq | ⟨rid, request, -, -, heq⟩
  · rw [heq]
    exact List.Subset.refl _
  · rw [heq]
    exact List.subset_append_left _ _

theorem step_answers (h : Step py secret vllmLocalUrl s e s') : s.answers ⊆ s'.answers := by
  cases h with
  | finish before after socket frame outcome htasks => exact List.subset_append_left _ _
  | _ => exact List.Subset.refl _

structure Owned (s : State) : Prop where
  distinct : (s.frames.map (·.id)).Nodup
  toNode : ∀ x ∈ s.toNode, x.2 ∈ s.frames
  tasks : ∀ t ∈ s.tasks, t.frame ∈ s.frames
  answers : ∀ a ∈ s.answers, a.1 ∈ s.frames

section Inversion

theorem mem_around {α : Type} {before after : List α} {x : α} (h : x ∈ before ++ after) (a : α) :
    x ∈ before ++ a :: after := by
  rcases List.mem_append.mp h with h | h
  · exact List.mem_append_left _ h
  · exact List.mem_append_right _ (List.mem_cons_of_mem a h)

theorem mem_replaced {α : Type} {before after : List α} {x b : α} (h : x ∈ before ++ b :: after) (a : α) :
    x = b ∨ x ∈ before ++ a :: after := by
  rcases List.mem_append.mp h with h | h
  · exact .inr (List.mem_append_left _ h)
  · rcases List.mem_cons.mp h with h | h
    · exact .inl h
    · exact .inr (List.mem_append_right _ (List.mem_cons_of_mem a h))

theorem mem_middle {α : Type} (before after : List α) (a : α) : a ∈ before ++ a :: after :=
  List.mem_append_right before List.mem_cons_self

theorem step_toNode (hstep : Step py secret vllmLocalUrl s e s') {x : ℕ × RequestFrame} (hx : x ∈ s'.toNode) :
    x ∈ s.toNode ∨ x.2 ∈ s.frames := by
  cases hstep with
  | send before after frame future socket hproxies =>
    rcases List.mem_append.mp hx with hx | hx
    · exact .inl hx
    · rw [List.mem_singleton.mp hx, State.frames, hproxies]
      exact .inr (List.mem_map_of_mem (mem_middle before after _))
  | deliver before after socket frame htoNode =>
    rw [htoNode]
    exact .inl (mem_around hx _)
  | loseRequest before after socket frame htoNode =>
    rw [htoNode]
    exact .inl (mem_around hx _)
  | _ => exact .inl hx

theorem step_tasks (hstep : Step py secret vllmLocalUrl s e s') {t : Task} (ht : t ∈ s'.tasks) :
    (∃ t' ∈ s.tasks, t'.frame = t.frame) ∨ ∃ x ∈ s.toNode, x.2 = t.frame := by
  cases hstep with
  | deliver before after socket frame htoNode =>
    rcases List.mem_append.mp ht with ht | ht
    · exact .inl ⟨t, ht, rfl⟩
    · rw [List.mem_singleton.mp ht, htoNode]
      exact .inr ⟨_, mem_middle before after _, rfl⟩
  | call before after socket frame htasks =>
    rw [htasks]
    rcases mem_replaced ht ⟨socket, frame, .created⟩ with rfl | ht
    · exact .inl ⟨_, mem_middle before after _, rfl⟩
    · exact .inl ⟨t, ht, rfl⟩
  | finish before after socket frame outcome htasks =>
    rw [htasks]
    rcases mem_replaced ht ⟨socket, frame, .calling⟩ with rfl | ht
    · exact .inl ⟨_, mem_middle before after _, rfl⟩
    · exact .inl ⟨t, ht, rfl⟩
  | sendBack before after socket frame r htasks =>
    rw [htasks]
    exact .inl ⟨t, mem_around ht _, rfl⟩
  | dropTask before after task htasks =>
    rw [htasks]
    exact .inl ⟨t, mem_around ht _, rfl⟩
  | _ => exact .inl ⟨t, ht, rfl⟩

theorem step_answered (hstep : Step py secret vllmLocalUrl s e s') {t : Task} (ht : t ∈ s'.tasks)
    {r : ResponseFrame} (hr : t.stage = .answered r) : t ∈ s.tasks ∨ ComputedFrom py s' t.frame r := by
  cases hstep with
  | deliver before after socket frame htoNode =>
    rcases List.mem_append.mp ht with ht | ht
    · exact .inl ht
    · rw [List.mem_singleton.mp ht] at hr
      cases hr
  | call before after socket frame htasks =>
    rw [htasks]
    rcases mem_replaced ht ⟨socket, frame, .created⟩ with rfl | ht
    · cases hr
    · exact .inl ht
  | finish before after socket frame outcome htasks =>
    rw [htasks]
    rcases mem_replaced ht ⟨socket, frame, .calling⟩ with rfl | ht
    · cases hr
      exact .inr ⟨outcome, List.mem_append_right _ (List.mem_singleton_self _), rfl⟩
    · exact .inl ht
  | sendBack before after socket frame r htasks =>
    rw [htasks]
    exact .inl (mem_around ht _)
  | dropTask before after task htasks =>
    rw [htasks]
    exact .inl (mem_around ht _)
  | _ => exact .inl ht

theorem step_calls_subset (hstep : Step py secret vllmLocalUrl s e s') : s.calls ⊆ s'.calls := by
  cases hstep with
  | call before after socket frame htasks => exact List.subset_append_left _ _
  | _ => exact List.Subset.refl _

theorem step_newCall (hstep : Step py secret vllmLocalUrl s e s') {c : RequestFrame × VllmRequest} (hc : c ∈ s'.calls) :
    c ∈ s.calls ∨ c.2 = vllmRequest vllmLocalUrl c.1 ∧ ∃ t ∈ s.tasks, t.frame = c.1 := by
  cases hstep with
  | call before after socket frame htasks =>
    rcases List.mem_append.mp hc with hc | hc
    · exact .inl hc
    · rw [List.mem_singleton.mp hc, htasks]
      exact .inr ⟨rfl, _, mem_middle before after _, rfl⟩
  | _ => exact .inl hc

theorem step_called (hstep : Step py secret vllmLocalUrl s e s') {t : Task} (ht : t ∈ s'.tasks)
    (hstage : t.stage ≠ .created) : (∃ t' ∈ s.tasks, t'.frame = t.frame ∧ t'.stage ≠ .created) ∨
      (t.frame, vllmRequest vllmLocalUrl t.frame) ∈ s'.calls := by
  cases hstep with
  | deliver before after socket frame htoNode =>
    rcases List.mem_append.mp ht with ht | ht
    · exact .inl ⟨t, ht, rfl, hstage⟩
    · rw [List.mem_singleton.mp ht] at hstage
      exact absurd rfl hstage
  | call before after socket frame htasks =>
    rw [htasks]
    rcases mem_replaced ht ⟨socket, frame, .created⟩ with rfl | ht
    · exact .inr (List.mem_append_right _ (List.mem_singleton_self _))
    · exact .inl ⟨t, ht, rfl, hstage⟩
  | finish before after socket frame outcome htasks =>
    rw [htasks]
    rcases mem_replaced ht ⟨socket, frame, .calling⟩ with rfl | ht
    · exact .inl ⟨_, mem_middle before after _, rfl, nofun⟩
    · exact .inl ⟨t, ht, rfl, hstage⟩
  | sendBack before after socket frame r htasks =>
    rw [htasks]
    exact .inl ⟨t, mem_around ht _, rfl, hstage⟩
  | dropTask before after task htasks =>
    rw [htasks]
    exact .inl ⟨t, mem_around ht _, rfl, hstage⟩
  | _ => exact .inl ⟨t, ht, rfl, hstage⟩

theorem step_newAnswer (hstep : Step py secret vllmLocalUrl s e s') {a : RequestFrame × Except String VllmResponse}
    (ha : a ∈ s'.answers) : a ∈ s.answers ∨ ∃ t ∈ s.tasks, t.frame = a.1 ∧ t.stage ≠ .created := by
  cases hstep with
  | finish before after socket frame outcome htasks =>
    rcases List.mem_append.mp ha with ha | ha
    · exact .inl ha
    · rw [List.mem_singleton.mp ha, htasks]
      exact .inr ⟨_, mem_middle before after _, rfl, nofun⟩
  | _ => exact .inl ha

theorem step_toRelay (hstep : Step py secret vllmLocalUrl s e s') {x : ℕ × ResponseFrame} (hx : x ∈ s'.toRelay) :
    x ∈ s.toRelay ∨ ∃ t ∈ s.tasks, t.stage = .answered x.2 := by
  cases hstep with
  | sendBack before after socket frame r htasks =>
    rcases List.mem_append.mp hx with hx | hx
    · exact .inl hx
    · rw [List.mem_singleton.mp hx, htasks]
      exact .inr ⟨_, mem_middle before after _, rfl⟩
  | receive before after socket r htoRelay =>
    rw [htoRelay]
    exact .inl (mem_around hx _)
  | loseResponse before after socket r htoRelay =>
    rw [htoRelay]
    exact .inl (mem_around hx _)
  | _ => exact .inl hx

theorem step_proxies (hstep : Step py secret vllmLocalUrl s e s') {p' : Proxy} (hp : p' ∈ s'.proxies) :
    (p'.future = .waiting ∧ ∃ socket, p'.phase = .reading socket) ∨ ∃ p ∈ s.proxies, p' = p ∨
      (∃ pending reply, Advance s.pending p reply pending p') ∨ p' = { p with phase := .waiting } ∨
      ∃ socket r, (socket, r) ∈ s.toRelay ∧ p' = settle s.pending r p := by
  cases hstep with
  | arrive request rid socket hbridge hnew =>
    rcases List.mem_append.mp hp with hp | hp
    · exact .inr ⟨p', hp, .inl rfl⟩
    · rw [List.mem_singleton.mp hp]
      exact .inl ⟨rfl, socket, rfl⟩
  | send before after frame future socket hproxies =>
    rw [hproxies]
    rcases mem_replaced hp ⟨frame, future, .sending socket⟩ with rfl | hp
    · exact .inr ⟨_, mem_middle before after _, .inr (.inr (.inl rfl))⟩
    · exact .inr ⟨p', hp, .inl rfl⟩
  | advance before after p q reply pending hproxies hadvance =>
    rw [hproxies]
    rcases mem_replaced hp p with rfl | hp
    · exact .inr ⟨p, mem_middle before after _, .inr (.inl ⟨pending, reply, hadvance⟩)⟩
    · exact .inr ⟨p', hp, .inl rfl⟩
  | receive before after socket r htoRelay =>
    obtain ⟨p, hmem, rfl⟩ := List.mem_map.mp hp
    refine .inr ⟨p, hmem, .inr (.inr (.inr ⟨socket, r, ?_, rfl⟩))⟩
    rw [htoRelay]
    exact mem_middle before after _
  | _ => exact .inr ⟨p', hp, .inl rfl⟩

end Inversion

theorem Owned.step (h : Owned s) (hstep : Step py secret vllmLocalUrl s e s') : Owned s' := by
  have hsub := step_frames_subset hstep
  refine ⟨?_, ?_, ?_, ?_⟩
  · rcases step_frames hstep with heq | ⟨rid, request, -, hnew, heq⟩
    · rw [heq]
      exact h.distinct
    · rw [heq, List.map_append, List.map_singleton, List.nodup_append]
      refine ⟨h.distinct, List.nodup_singleton _, ?_⟩
      rintro a ha b hb rfl
      rw [List.mem_singleton.mp hb] at ha
      exact hnew ha
  · intro x hx
    rcases step_toNode hstep hx with hx | hx
    · exact hsub (h.toNode x hx)
    · exact hsub hx
  · intro t ht
    rcases step_tasks hstep ht with ⟨t', ht', hframe⟩ | ⟨x, hx, hframe⟩
    · rw [← hframe]
      exact hsub (h.tasks t' ht')
    · rw [← hframe]
      exact hsub (h.toNode x hx)
  · intro a ha
    rcases step_newAnswer hstep ha with ha | ⟨t, ht, hframe, -⟩
    · exact hsub (h.answers a ha)
    · rw [← hframe]
      exact hsub (h.tasks t ht)

structure Forwarded (vllmLocalUrl : String) (s : State) (events : List Event) : Prop where
  arrived : ∀ f ∈ s.frames, Event.arrive f ∈ events ∧ ∃ request, f = requestFrame f.id request
  calls : ∀ c ∈ s.calls, c.1 ∈ s.frames ∧ c.2 = vllmRequest vllmLocalUrl c.1
  tasks : ∀ t ∈ s.tasks, t.stage ≠ .created → (t.frame, vllmRequest vllmLocalUrl t.frame) ∈ s.calls
  answers : ∀ a ∈ s.answers, (a.1, vllmRequest vllmLocalUrl a.1) ∈ s.calls

theorem step_arrived {events : List Event}
    (h : ∀ f ∈ s.frames, Event.arrive f ∈ events ∧ ∃ request, f = requestFrame f.id request)
    (hstep : Step py secret vllmLocalUrl s e s') :
    ∀ f ∈ s'.frames, Event.arrive f ∈ events ++ [e] ∧ ∃ request, f = requestFrame f.id request := by
  have hold (f : RequestFrame) (hf : f ∈ s.frames) :
      Event.arrive f ∈ events ++ [e] ∧ ∃ request, f = requestFrame f.id request :=
    ⟨List.mem_append_left _ (h f hf).1, (h f hf).2⟩
  intro f hf
  rcases step_frames hstep with heq | ⟨rid, request, rfl, -, heq⟩
  · rw [heq] at hf
    exact hold f hf
  · rw [heq] at hf
    rcases List.mem_append.mp hf with hf | hf
    · exact hold f hf
    · rw [List.mem_singleton.mp hf]
      exact ⟨List.mem_append_right _ (List.mem_singleton_self _), request, rfl⟩

theorem Forwarded.step {events : List Event} (howned : Owned s) (h : Forwarded vllmLocalUrl s events)
    (hstep : Step py secret vllmLocalUrl s e s') : Forwarded vllmLocalUrl s' (events ++ [e]) := by
  have hcalls := step_calls_subset hstep
  refine ⟨step_arrived h.arrived hstep, ?_, ?_, ?_⟩
  · intro c hc
    rcases step_newCall hstep hc with hc | ⟨hrequest, t, ht, hframe⟩
    · exact ⟨step_frames_subset hstep (h.calls c hc).1, (h.calls c hc).2⟩
    · refine ⟨step_frames_subset hstep ?_, hrequest⟩
      rw [← hframe]
      exact howned.tasks t ht
  · intro t ht hstage
    rcases step_called hstep ht hstage with ⟨t', ht', hframe, hstage'⟩ | hnew
    · rw [← hframe]
      exact hcalls (h.tasks t' ht' hstage')
    · exact hnew
  · intro a ha
    rcases step_newAnswer hstep ha with ha | ⟨t, ht, hframe, hstage⟩
    · exact hcalls (h.answers a ha)
    · rw [← hframe]
      exact hcalls (h.tasks t ht hstage)

structure Traced (py : Python) (s : State) : Prop where
  tasks : ∀ t ∈ s.tasks, ∀ r, t.stage = .answered r → Computed py s r
  toRelay : ∀ x ∈ s.toRelay, Computed py s x.2
  proxies : ∀ p ∈ s.proxies, OwnAnswer py s p

theorem ComputedFrom.step {frame : RequestFrame} {r : ResponseFrame} (h : ComputedFrom py s frame r)
    (hstep : Step py secret vllmLocalUrl s e s') : ComputedFrom py s' frame r := by
  obtain ⟨outcome, hmem, hr⟩ := h
  exact ⟨outcome, step_answers hstep hmem, hr⟩

theorem OwnAnswer.step {p : Proxy} (h : OwnAnswer py s p) (hstep : Step py secret vllmLocalUrl s e s') :
    OwnAnswer py s' p := by
  refine ⟨fun r hr => (h.result r hr).step hstep, ?_, h.timedOut⟩
  intro status body contentType hphase
  obtain ⟨r, hr, hfields⟩ := h.reply status body contentType hphase
  exact ⟨r, hr.step hstep, hfields⟩

theorem Owned.frame_eq (h : Owned s) {f g : RequestFrame} (hf : f ∈ s.frames) (hg : g ∈ s.frames)
    (hid : f.id = g.id) : f = g := List.inj_on_of_nodup_map h.distinct hf hg hid

theorem OwnAnswer.settle (howned : Owned s) {p : Proxy} (hp : p ∈ s.proxies) (h : OwnAnswer py s p)
    {r : ResponseFrame} (hr : Computed py s r) : OwnAnswer py s (settle s.pending r p) := by
  by_cases hset : p.frame.id = r.id ∧ r.id ∈ s.pending ∧ p.future = .waiting
  · obtain ⟨frame, outcome, hmem, rfl⟩ := hr
    have hframe : frame = p.frame := by
      apply howned.frame_eq (howned.answers _ hmem) (List.mem_map_of_mem hp)
      rw [hset.1, handle_id]
    rw [Relay.settle, if_pos hset]
    refine ⟨?_, h.reply, ?_⟩
    · rintro _ ⟨⟩
      rw [← hframe]
      exact ⟨outcome, hmem, rfl⟩
    · exact fun _ => nofun
  · rw [Relay.settle, if_neg hset]
    exact h

theorem Traced.step (howned : Owned s) (h : Traced py s) (hstep : Step py secret vllmLocalUrl s e s') :
    Traced py s' := by
  refine ⟨?_, ?_, ?_⟩
  · intro t ht r hr
    rcases step_answered hstep ht hr with ht | hcomputed
    · obtain ⟨frame, hframe⟩ := h.tasks t ht r hr
      exact ⟨frame, hframe.step hstep⟩
    · exact ⟨t.frame, hcomputed⟩
  · intro x hx
    rcases step_toRelay hstep hx with hx | ⟨t, ht, hstage⟩
    · obtain ⟨frame, hframe⟩ := h.toRelay x hx
      exact ⟨frame, hframe.step hstep⟩
    · obtain ⟨frame, hframe⟩ := h.tasks t ht x.2 hstage
      exact ⟨frame, hframe.step hstep⟩
  · intro p' hp'
    rcases step_proxies hstep hp' with ⟨hfuture, socket, hphase⟩ | ⟨p, hp, hcases⟩
    · refine ⟨?_, ?_, ?_⟩
      · intro r hr
        rw [hfuture] at hr
        cases hr
      · intro status body contentType hover
        rw [hphase] at hover
        cases hover
      · intro hover
        rw [hphase] at hover
        cases hover
    · have hown := h.proxies p hp
      rcases hcases with rfl | ⟨pending, reply, hadvance⟩ | rfl | ⟨socket, r, hr, rfl⟩
      · exact hown.step hstep
      · exact (hown.advance hadvance).step hstep
      · exact OwnAnswer.step ⟨hown.result, nofun, nofun⟩ hstep
      · exact (hown.settle howned hp (h.toRelay _ hr)).step hstep

end TokensThatSuffice.Relay
