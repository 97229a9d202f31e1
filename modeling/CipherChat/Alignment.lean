import CipherChat.RouteSteps

/-!
# Calls and routes in step

A route can end while the call that added it, or counted a chunk against it, is still to
forward the frame.  `Aligned` says what such a call may rely on.
-/

namespace CipherChat

open FileRoutes

/-- What a call sends, and the duty that it then has. -/
inductive QueueStep (m : Monitor) (name : Bytes) (answer : Except Errno Unit) :
    ClientId → FrameType → Bytes → Duty → Prop
  | begin {src : UInt32} {endpoint : FileRouteEndpoint} {b : FileBeginFrame} {payload : Bytes}
      (hd : m.duty = .beginForward src endpoint b)
      (he : encodeBegin fileBeginPayloadMaxSize endpoint.outboundTransferId b.fileSize name
        b.filename = .ok payload) :
      QueueStep m name answer endpoint.targetId .fileBegin payload
        (Monitor.afterForward (.beginFailed src) answer)
  | chunk {src : UInt32} {endpoint : FileRouteEndpoint} {data payload : Bytes}
      (hd : m.duty = .chunkForward src endpoint data)
      (he : encodeChunk fileChunkPayloadMaxSize endpoint.outboundTransferId data = .ok payload) :
      QueueStep m name answer endpoint.targetId .fileChunk payload
        (Monitor.afterForward (.chunkFailed src endpoint.outboundTransferId) answer)
  | finish {endpoint : FileRouteEndpoint} (hd : m.duty = .endForward endpoint) :
      QueueStep m name answer endpoint.targetId .fileEnd (writeU32 endpoint.outboundTransferId)
        (.owes [])
  | error {endpoint : FileRouteEndpoint} {rest : List FileRouteEndpoint}
      (hd : m.duty = .owes (endpoint :: rest)) :
      QueueStep m name answer endpoint.targetId .fileError (writeU32 endpoint.outboundTransferId)
        (.owes rest)
  | other {r : ClientId} {type : FrameType} {payload : Bytes} (ht : type.isFile = false) :
      QueueStep m name answer r type payload m.duty

section

variable {m : Monitor} {c r : ClientId} {name payload : Bytes} {type : FrameType}
  {answer : Except Errno Unit} {d : Duty}

theorem queue_cases (ha : m.allow c name (.queueFrame r type payload)) :
    QueueStep m name answer r type payload (m.nextDuty (.queueFrame r type payload) answer) := by
  cases type with
  | fileBegin =>
    obtain ⟨src, endpoint, b, hd, rfl, henc⟩ := ha
    simp only [Monitor.nextDuty, hd, if_true]
    exact .begin hd henc
  | fileChunk =>
    obtain ⟨src, endpoint, data, hd, rfl, henc⟩ := ha
    simp only [Monitor.nextDuty, hd, if_true]
    exact .chunk hd henc
  | fileEnd =>
    obtain ⟨endpoint, hd, rfl, rfl⟩ := ha
    simp only [Monitor.nextDuty, hd, if_true]
    exact .finish hd
  | fileError =>
    obtain ⟨endpoint, rest, hd, rfl, rfl⟩ := ha
    simp only [Monitor.nextDuty, hd, if_true]
    exact .error hd
  | text =>
    rw [Monitor.nextDuty_other rfl]
    exact .other rfl
  | ciphertext =>
    rw [Monitor.nextDuty_other rfl]
    exact .other rfl
  | registerPk =>
    rw [Monitor.nextDuty_other rfl]
    exact .other rfl
  | requestPk =>
    rw [Monitor.nextDuty_other rfl]
    exact .other rfl
  | peerPk =>
    rw [Monitor.nextDuty_other rfl]
    exact .other rfl

theorem QueueStep.about (h : QueueStep m name answer r type payload d) :
    d.about = none ∨ d.about = m.duty.about := by
  cases h with
  | begin hd _ =>
    rw [hd]
    cases answer with
    | ok _ => exact .inl rfl
    | error _ => exact .inr rfl
  | chunk hd _ =>
    rw [hd]
    cases answer with
    | ok _ => exact .inl rfl
    | error _ => exact .inr rfl
  | finish hd => exact .inl rfl
  | error hd => exact .inl rfl
  | other ht => exact .inr rfl

theorem QueueStep.forward (h : QueueStep m name answer r type payload d)
    (hd : (∃ src endpoint b, d = .beginForward src endpoint b) ∨
      ∃ src endpoint data, d = .chunkForward src endpoint data) : d = m.duty := by
  cases h with
  | begin => cases answer <;> rcases hd with ⟨_, _, _, hd⟩ | ⟨_, _, _, hd⟩ <;> cases hd
  | chunk => cases answer <;> rcases hd with ⟨_, _, _, hd⟩ | ⟨_, _, _, hd⟩ <;> cases hd
  | finish => rcases hd with ⟨_, _, _, hd⟩ | ⟨_, _, _, hd⟩ <;> cases hd
  | error => rcases hd with ⟨_, _, _, hd⟩ | ⟨_, _, _, hd⟩ <;> cases hd
  | other => rfl

end

/-- What the duties and the routes have to do with each other. -/
structure Aligned (x : Shared) (log : List Event) : Prop where
  abort_logged : ∀ c, (monitor log c).call = .abort → .abort c ∈ log
  spent : ∀ c, .abort c ∈ log → ¬(monitor log c).InFrame ∧ (monitor log c).duty.about = none
  begins : ∀ c src endpoint b, (monitor log c).duty = .beginForward src endpoint b →
    (∃ r, x.routes.live (c, src) = some r ∧ endpoint = copyEndpoint r) ∨
    x.routes.live (c, src) = none ∧ .abort endpoint.targetId ∈ log
  forwards : ∀ c src endpoint data, (monitor log c).duty = .chunkForward src endpoint data →
    ∀ r, x.routes.live (c, src) = some r → endpoint = copyEndpoint r

namespace Aligned

variable {x x' : Shared} {log : List Event} {c : ClientId}

theorem init : Aligned server.init.shared [] where
  abort_logged c h := by cases h
  spent c h := by cases h
  begins c src endpoint b h := by cases h
  forwards c src endpoint data h := by cases h

/-- A step that leaves the routes alone, and moves at most the call of `c`. -/
theorem frame (h : Aligned x log) {evs : List Event} (hroutes : x'.routes = x.routes)
    (hother : ∀ c', c' ≠ c → monitor (log ++ evs) c' = monitor log c')
    (habort : ∀ c', .abort c' ∈ evs → c' = c)
    (hcall : (monitor (log ++ evs) c).call = .abort → .abort c ∈ log ++ evs)
    (hspent : .abort c ∈ log ++ evs → ¬(monitor (log ++ evs) c).InFrame ∧
      (monitor (log ++ evs) c).duty.about = none)
    (hduty : (∃ src endpoint b, (monitor (log ++ evs) c).duty = .beginForward src endpoint b) ∨
      (∃ src endpoint data, (monitor (log ++ evs) c).duty = .chunkForward src endpoint data) →
      (monitor (log ++ evs) c).duty = (monitor log c).duty) : Aligned x' (log ++ evs) := by
  have hduty' : ∀ c', (∃ src endpoint b,
      (monitor (log ++ evs) c').duty = .beginForward src endpoint b) ∨
      (∃ src endpoint data, (monitor (log ++ evs) c').duty = .chunkForward src endpoint data) →
      (monitor (log ++ evs) c').duty = (monitor log c').duty := by
    intro c' hd
    by_cases hc : c' = c
    · subst hc
      exact hduty hd
    · rw [hother c' hc]
  refine ⟨?_, ?_, ?_, ?_⟩
  · intro c' hm
    by_cases hc : c' = c
    · subst hc
      exact hcall hm
    · rw [hother c' hc] at hm
      exact List.mem_append_left _ (h.abort_logged c' hm)
  · intro c' hm
    by_cases hc : c' = c
    · subst hc
      exact hspent hm
    · rw [hother c' hc]
      rcases List.mem_append.mp hm with hm | hm
      · exact h.spent c' hm
      · exact absurd (habort c' hm) hc
  · intro c' src endpoint b hd
    rw [hduty' c' (.inl ⟨src, endpoint, b, hd⟩)] at hd
    rw [hroutes]
    exact (h.begins c' src endpoint b hd).imp_right fun hl => ⟨hl.1, List.mem_append_left _ hl.2⟩
  · intro c' src endpoint data hd
    rw [hduty' c' (.inr ⟨src, endpoint, data, hd⟩)] at hd
    rw [hroutes]
    exact h.forwards c' src endpoint data hd

/-- An operation on a route of `c`. -/
theorem route (h : Aligned x log) {o : Op} {answer : o.Resp}
    (hstep : RouteStep x.routes c (monitor log c) x'.routes ((monitor log c).nextDuty o answer)) :
    Aligned x' (log ++ [.did c o answer]) := by
  have habort : ∀ {c'}, .abort c' ∈ log ++ [.did c o answer] → .abort c' ∈ log := by
    intro c' hm
    rcases List.mem_append.mp hm with hm | hm
    · exact hm
    · cases List.mem_singleton.mp hm
  refine ⟨?_, ?_, ?_, ?_⟩
  · intro c' hm
    by_cases hc : c = c'
    · subst hc
      rw [monitor_did_self] at hm
      exact List.mem_append_left _ (h.abort_logged c hm)
    · rw [monitor_did_of_ne hc] at hm
      exact List.mem_append_left _ (h.abort_logged c' hm)
  · intro c' hm
    by_cases hc : c = c'
    · subst hc
      rw [monitor_did_self]
      obtain ⟨hf, ha⟩ := h.spent c (habort hm)
      exact absurd ha (hstep.not_spent hf)
    · rw [monitor_did_of_ne hc]
      exact h.spent c' (habort hm)
  · intro c' src endpoint b hd
    by_cases hc : c = c'
    · subst hc
      rw [monitor_did_self] at hd
      rw [show (monitor log c).nextDuty o answer = _ from hd] at hstep
      exact .inl hstep.begins
    · rw [monitor_did_of_ne hc] at hd
      rw [hstep.live_other (Ne.symm hc)]
      exact (h.begins c' src endpoint b hd).imp_right fun hl => ⟨hl.1, List.mem_append_left _ hl.2⟩
  · intro c' src endpoint data hd r hr
    by_cases hc : c = c'
    · subst hc
      rw [monitor_did_self] at hd
      rw [show (monitor log c).nextDuty o answer = _ from hd] at hstep
      exact hstep.forwards hr
    · rw [monitor_did_of_ne hc] at hd
      rw [hstep.live_other (Ne.symm hc)] at hr
      exact h.forwards c' src endpoint data hd r hr

theorem sweep (h : Aligned x log) (hinv : x.routes.Inv) {capacity : ℕ}
    {answer : List FileRouteAbortAction}
    (hx : x'.routes = (x.routes.abortClient c capacity).1) (hcall : (monitor log c).call = .abort) :
    Aligned x' (log ++ [.did c (.routesAbortClient c capacity) answer]) := by
  have habort : ∀ {c'}, .abort c' ∈ log ++ [.did c (.routesAbortClient c capacity) answer] →
      .abort c' ∈ log := by
    intro c' hm
    rcases List.mem_append.mp hm with hm | hm
    · exact hm
    · cases List.mem_singleton.mp hm
  have hduty : ((monitor log c).next c (.routesAbortClient c capacity) answer).duty =
      .owes (answer.filterMap FileRouteAbortAction.error?) := rfl
  refine ⟨?_, ?_, ?_, ?_⟩
  · intro c' hm
    by_cases hc : c = c'
    · subst hc
      exact List.mem_append_left _ (h.abort_logged c hcall)
    · rw [monitor_did_of_ne hc] at hm
      exact List.mem_append_left _ (h.abort_logged c' hm)
  · intro c' hm
    by_cases hc : c = c'
    · subst hc
      rw [monitor_did_self, hduty]
      exact ⟨(h.spent c (habort hm)).1, rfl⟩
    · rw [monitor_did_of_ne hc]
      exact h.spent c' (habort hm)
  · intro c' src endpoint b hd
    by_cases hc : c = c'
    · subst hc
      rw [monitor_did_self, hduty] at hd
      cases hd
    · rw [monitor_did_of_ne hc] at hd
      rw [hx]
      rcases abortClient_live_other hinv capacity (k := (c', src)) (Ne.symm hc) with
        hl | ⟨hnone, r, hr, ht⟩
      · rw [hl]
        exact (h.begins c' src endpoint b hd).imp_right
          fun hl => ⟨hl.1, List.mem_append_left _ hl.2⟩
      -- a BEGIN on its way: its route is the one that the sweep takes
      · refine .inr ⟨hnone, List.mem_append_left _ ?_⟩
        rcases h.begins c' src endpoint b hd with ⟨r', hr', rfl⟩ | ⟨hno, -⟩
        · rw [hr] at hr'
          cases hr'
          rw [copyEndpoint, ht]
          exact h.abort_logged c hcall
        · rw [hr] at hno
          cases hno
  · intro c' src endpoint data hd r hr
    by_cases hc : c = c'
    · subst hc
      rw [monitor_did_self, hduty] at hd
      cases hd
    · rw [monitor_did_of_ne hc] at hd
      rw [hx] at hr
      rcases abortClient_live_other hinv capacity (k := (c', src)) (Ne.symm hc) with
        hl | ⟨hnone, -⟩
      · exact h.forwards c' src endpoint data hd r (hl ▸ hr)
      · rw [hnone] at hr
        cases hr

theorem effect (h : Aligned x log) (hinv : x.routes.Inv) {libc : Libc} {evs : List Event}
    (heff : Effect libc x log x' evs) : Aligned x' (log ++ evs) := by
  cases heff with
  | pass hr _ hevs =>
    have hmon : ∀ c, monitor (log ++ evs) c = monitor log c := monitor_append_of_none hevs
    have habort : ∀ c', .abort c' ∉ evs := fun c' hm => by cases hevs _ hm
    refine h.frame (c := 0) hr (fun c' _ => hmon c') (fun c' hm => absurd hm (habort c')) ?_ ?_ ?_
    · rw [hmon]
      exact fun hm => List.mem_append_left _ (h.abort_logged 0 hm)
    · rw [hmon]
      exact fun hm => h.spent 0 ((List.mem_append.mp hm).resolve_right (habort 0))
    · rw [hmon]
      exact fun _ => rfl
  | received u frame hm hl hleft =>
    have hnew : monitor (log ++ [.received u.id frame]) u.id = { call := .frame frame } := by
      rw [monitor_concat, Monitor.event, if_pos rfl]
    refine h.frame (c := u.id) rfl (fun c' hne => monitor_of_ne rfl (Ne.symm hne))
      (fun c' hm => by cases List.mem_singleton.mp hm) ?_ ?_ ?_
    · rw [hnew]
      exact fun hc => by cases hc
    · intro hmem
      rcases List.mem_append.mp hmem with hmem | hmem
      · exact absurd hmem hleft
      · cases List.mem_singleton.mp hmem
    · rw [hnew, hm]
      exact fun _ => rfl
  | abort u hr _ hm =>
    have hnew : monitor (log ++ [.abort u.id]) u.id = { call := .abort } := by
      rw [monitor_concat, Monitor.event, if_pos rfl]
    refine h.frame (c := u.id) hr (fun c' hne => monitor_of_ne rfl (Ne.symm hne))
      (fun c' hm => (Event.abort.inj (List.mem_singleton.mp hm))) ?_ ?_ ?_
    · exact fun _ => List.mem_append_right _ (List.mem_singleton.mpr rfl)
    · rw [hnew]
      refine fun _ => ⟨?_, rfl⟩
      rintro ⟨frame, hf⟩
      cases hf
    · rw [hnew, hm]
      exact fun _ => rfl
  | returned u hm =>
    have hnew : monitor (log ++ [.returned u.id]) u.id = {} := by
      rw [monitor_concat, Monitor.event, if_pos rfl]
    refine h.frame (c := u.id) rfl (fun c' hne => monitor_of_ne rfl (Ne.symm hne))
      (fun c' hm => by cases List.mem_singleton.mp hm) ?_ ?_ ?_
    · rw [hnew]
      exact fun hc => by cases hc
    · rw [hnew]
      refine fun _ => ⟨?_, rfl⟩
      rintro ⟨frame, hf⟩
      cases hf
    · rw [hnew]
      rintro (⟨_, _, _, hd⟩ | ⟨_, _, _, hd⟩) <;> cases hd
  | did u o hl ha =>
    -- an operation that leaves the routes alone may still change the duty
    have hsame : (perform libc x o).2.routes = x.routes →
        ((monitor log u.id).nextDuty o (perform libc x o).1).about = none ∨
          ((monitor log u.id).nextDuty o (perform libc x o).1).about =
            (monitor log u.id).duty.about →
        (((∃ src endpoint b, (monitor log u.id).nextDuty o (perform libc x o).1 =
            .beginForward src endpoint b) ∨ ∃ src endpoint data,
          (monitor log u.id).nextDuty o (perform libc x o).1 = .chunkForward src endpoint data) →
          (monitor log u.id).nextDuty o (perform libc x o).1 = (monitor log u.id).duty) →
        Aligned (perform libc x o).2 (log ++ [.did u.id o (perform libc x o).1]) := by
      intro hroutes habout hforward
      refine h.frame (c := u.id) hroutes (fun c' hne => monitor_did_of_ne (Ne.symm hne))
        (fun c' hm => by cases List.mem_singleton.mp hm) ?_ ?_ ?_
      · rw [monitor_did_self]
        exact fun hc => List.mem_append_left _ (h.abort_logged u.id hc)
      · rw [monitor_did_self]
        intro hmem
        rcases List.mem_append.mp hmem with hmem | hmem
        · obtain ⟨hf, ha⟩ := h.spent u.id hmem
          refine ⟨hf, habout.elim id fun heq => heq.trans ha⟩
        · cases List.mem_singleton.mp hmem
      · rw [monitor_did_self]
        exact hforward
    rcases did_cases hinv libc ha with ⟨r, type, payload, rfl⟩ | ⟨rfl, -, hcall⟩ |
      ⟨-, ⟨hroutes, hd⟩ | hstep⟩
    · exact hsame rfl (queue_cases ha).about (queue_cases ha).forward
    · refine h.sweep hinv ?_ hcall
      simp only [perform, Shared.onRoutes]
    · exact hsame hroutes (.inr (by rw [hd])) fun _ => hd
    · exact h.route hstep

end Aligned

theorem Server.aligned_of_reach {ok : Server → Label → Prop} {s : Server} (hs : server.Reach ok s) :
    Aligned s.shared s.log :=
  Server.effect_invariant Aligned.init
    (fun _ _ _ _ hreach _ heff hold => hold.effect (Server.wf_of_reach hreach).routes heff) hs

end CipherChat
