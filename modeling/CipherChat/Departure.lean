import CipherChat.Alignment

/-!
# No route outlives a disconnect

A target is looked up, its route added and the BEGIN queued under three separate locks,
and `remove_client` and the sweep of the target can fall in any gap.  After the sweep for
`c` no route of `c` is left, and a live route to `c` belongs to a handler that has still
to find out that `c` is gone.
-/

namespace CipherChat

open FileRoutes

/-- `file_routes_abort_client` has run for `c`. -/
def Swept (log : List Event) (c : ClientId) : Prop :=
  ∃ capacity actions, .did c (.routesAbortClient c capacity) actions ∈ log

theorem Swept.append {log : List Event} {c : ClientId} (h : Swept log c) (evs : List Event) :
    Swept (log ++ evs) c := by
  obtain ⟨capacity, actions, hmem⟩ := h
  exact ⟨capacity, actions, List.mem_append_left _ hmem⟩

theorem Swept.of_concat {log : List Event} {c : ClientId} {e : Event} (h : Swept (log ++ [e]) c)
    (he : ∀ capacity actions, e ≠ .did c (.routesAbortClient c capacity) actions) :
    Swept log c := by
  obtain ⟨capacity, actions, hmem⟩ := h
  rcases List.mem_append.mp hmem with hmem | hmem
  · exact ⟨capacity, actions, hmem⟩
  · exact absurd (List.mem_singleton.mp hmem).symm (he capacity actions)

theorem Monitor.not_beginning_of_atRest {m : Monitor} (h : m.AtRest) (src : UInt32) :
    ¬m.Beginning src := by
  intro hb
  have habout := hb.about
  rcases h with ⟨hd, -⟩ | hd <;> rw [hd] at habout <;> cases habout

/-- What is left of the routes of clients that have gone. -/
structure Departures (x : Shared) (log : List Event) : Prop where
  swept_logged : ∀ c, Swept log c → .abort c ∈ log
  unswept : ∀ c, .abort c ∈ log → Swept log c ∨
    (monitor log c).call = .abort ∧ (monitor log c).duty = .idle
  sender : ∀ c, Swept log c → c ≠ invalidClientId → ∀ src, x.routes.lookup (c, src) = none
  target : ∀ c, Swept log c → c ≠ invalidClientId → ∀ k r, x.routes.live k = some r →
    r.targetId = c → (monitor log k.1).Beginning k.2

namespace Departures

variable {x x' : Shared} {log evs : List Event} {c : ClientId}

theorem init : Departures server.init.shared [] where
  swept_logged c h := by
    obtain ⟨_, _, hmem⟩ := h
    cases hmem
  unswept c h := by cases h
  sender c h := by
    obtain ⟨_, _, hmem⟩ := h
    cases hmem
  target c h := by
    obtain ⟨_, _, hmem⟩ := h
    cases hmem

theorem frame (h : Departures x log) (hroutes : x'.routes = x.routes)
    (hswept : ∀ c, Swept (log ++ evs) c → Swept log c)
    (hunswept : ∀ c, .abort c ∈ log ++ evs → Swept (log ++ evs) c ∨
      (monitor (log ++ evs) c).call = .abort ∧ (monitor (log ++ evs) c).duty = .idle)
    (hbegin : ∀ c src r, x.routes.live (c, src) = some r → Swept log r.targetId →
      (monitor log c).Beginning src → (monitor (log ++ evs) c).Beginning src) :
    Departures x' (log ++ evs) where
  swept_logged c hs := List.mem_append_left _ (h.swept_logged c (hswept c hs))
  unswept := hunswept
  sender c hs hc src := by
    rw [hroutes]
    exact h.sender c (hswept c hs) hc src
  target c hs hc k r hr ht := by
    rw [hroutes] at hr
    have hold := hswept c hs
    exact hbegin k.1 k.2 r hr (ht.symm ▸ hold) (h.target c hold hc k r hr ht)

theorem call (h : Departures x log) {e : Event} (hroutes : x'.routes = x.routes)
    (he : e.client = some c)
    (hswept : ∀ c capacity actions, e ≠ .did c (.routesAbortClient c capacity) actions)
    (hunswept : .abort c ∈ log ++ [e] → Swept log c ∨
      (monitor (log ++ [e]) c).call = .abort ∧ (monitor (log ++ [e]) c).duty = .idle)
    (hbegin : ∀ src r, x.routes.live (c, src) = some r → Swept log r.targetId →
      (monitor log c).Beginning src → (monitor (log ++ [e]) c).Beginning src) :
    Departures x' (log ++ [e]) := by
  refine h.frame hroutes (fun c' hs => hs.of_concat (hswept c')) ?_ ?_
  · intro c' hmem
    by_cases hc : c = c'
    · subst hc
      exact (hunswept hmem).imp_left fun hs => hs.append _
    · rw [monitor_of_ne he hc]
      refine (h.unswept c' ?_).imp_left fun hs => hs.append _
      rcases List.mem_append.mp hmem with hmem | hmem
      · exact hmem
      · rw [← List.mem_singleton.mp hmem] at he
        exact absurd (Option.some.inj he).symm hc
  · intro c' src r hr hs hb
    by_cases hc : c = c'
    · subst hc
      exact hbegin src r hr hs hb
    · rwa [monitor_of_ne he hc]

/-- An operation on a route of `c`, which has not gone. -/
theorem route (h : Departures x log) (halign : Aligned x log) {o : Op} {answer : o.Resp}
    (hstep : RouteStep x.routes c (monitor log c) x'.routes ((monitor log c).nextDuty o answer))
    (hswept : ∀ r capacity, o ≠ .routesAbortClient r capacity) :
    Departures x' (log ++ [.did c o answer]) := by
  have hhere : .abort c ∉ log := by
    intro hmem
    obtain ⟨hf, ha⟩ := halign.spent c hmem
    exact hstep.not_spent hf ha
  have hold : ∀ c', Swept (log ++ [.did c o answer]) c' → Swept log c' := fun c' hs =>
    hs.of_concat fun capacity _ heq => hswept c' capacity (Event.did.inj heq).2.1
  have hne : ∀ c', Swept log c' → c' ≠ c := by
    rintro c' hs rfl
    exact hhere (h.swept_logged c' hs)
  refine ⟨?_, ?_, ?_, ?_⟩
  · exact fun c' hs => List.mem_append_left _ (h.swept_logged c' (hold c' hs))
  · intro c' hmem
    rcases List.mem_append.mp hmem with hmem | hmem
    · have hc : c ≠ c' := by
        rintro rfl
        exact hhere hmem
      rw [monitor_did_of_ne hc]
      exact (h.unswept c' hmem).imp_left fun hs => hs.append _
    · cases List.mem_singleton.mp hmem
  · intro c' hs hc' src
    rw [hstep.lookup_other (hne c' (hold c' hs))]
    exact h.sender c' (hold c' hs) hc' src
  · rintro c' hs hc' ⟨c₁, src⟩ r hr ht
    by_cases hc : c = c₁
    · subst hc
      rw [monitor_did_self]
      rcases hstep.live_own hr with ⟨b, hd⟩ | ⟨hnot, r₀, hr₀, hsame⟩
      · exact .inl ⟨copyEndpoint r, b, hd⟩
      · have ht₀ : r₀.targetId = c' := by
          rw [← ht]
          exact (congrArg FileRouteEndpoint.targetId hsame).symm
        exact absurd (h.target c' (hold c' hs) hc' _ r₀ hr₀ ht₀) hnot
    · rw [monitor_did_of_ne hc]
      rw [hstep.live_other (Ne.symm hc)] at hr
      exact h.target c' (hold c' hs) hc' _ r hr ht

theorem sweep (h : Departures x log) (halign : Aligned x log) (hinv : x.routes.Inv) {capacity : ℕ}
    {answer : List FileRouteAbortAction}
    (hx : x'.routes = (x.routes.abortClient c capacity).1) (hcall : (monitor log c).call = .abort) :
    Departures x' (log ++ [.did c (.routesAbortClient c capacity) answer]) := by
  have hself : Swept (log ++ [.did c (.routesAbortClient c capacity) answer]) c :=
    ⟨capacity, answer, List.mem_append_right _ (List.mem_singleton.mpr rfl)⟩
  have hold : ∀ c', c ≠ c' → Swept (log ++ [.did c (.routesAbortClient c capacity) answer]) c' →
      Swept log c' := fun c' hne hs =>
    hs.of_concat fun _ _ heq => hne (Event.did.inj heq).1
  refine ⟨?_, ?_, ?_, ?_⟩
  · intro c' hs
    refine List.mem_append_left _ ?_
    by_cases hc : c = c'
    · exact hc ▸ halign.abort_logged c hcall
    · exact h.swept_logged c' (hold c' hc hs)
  · intro c' hmem
    by_cases hc : c = c'
    · exact .inl (hc ▸ hself)
    · rw [monitor_did_of_ne hc]
      rcases List.mem_append.mp hmem with hmem | hmem
      · exact (h.unswept c' hmem).imp_left fun hs => hs.append _
      · cases List.mem_singleton.mp hmem
  · intro c' hs hc' src
    rw [hx]
    by_cases hc : c = c'
    · subst hc
      exact abortClient_lookup_self hinv hc' capacity src
    · have hnone := h.sender c' (hold c' hc hs) hc' src
      -- a thread without a client sweeps nothing
      by_cases hc0 : c = invalidClientId
      · rw [abortClient, if_pos hc0]
        exact hnone
      · rw [abortClient_lookup hinv hc0, hnone, Option.bind_none]
  · rintro c' hs hc' ⟨c₁, src⟩ r hr ht
    rw [hx] at hr
    by_cases hc0 : c = invalidClientId
    · rw [abortClient, if_pos hc0] at hr
      have hc : c ≠ c' := by
        rintro rfl
        exact hc' hc0
      have hb := h.target c' (hold c' hc hs) hc' _ r hr ht
      -- a thread at its sweep forwards no BEGIN
      by_cases hc₁ : c = c₁
      · subst hc₁
        exact absurd hb.about (by rw [(halign.spent c (halign.abort_logged c hcall)).2]; simp)
      · rwa [monitor_did_of_ne hc₁]
    · obtain ⟨hr, hc₁, htc⟩ := (abortClient_live hinv hc0 capacity).mp hr
      have hc : c ≠ c' := fun hc => htc (ht.trans hc.symm)
      rw [monitor_did_of_ne (Ne.symm hc₁)]
      exact h.target c' (hold c' hc hs) hc' _ r hr ht

theorem queue (h : Departures x log) (halign : Aligned x log) (hroutes : x'.routes = x.routes)
    {name payload : Bytes} {r : ClientId} {type : FrameType} {answer : Except Errno Unit}
    (hgone : .abort r ∈ log → answer ≠ .ok ())
    (hq : QueueStep (monitor log c) name answer r type payload
      ((monitor log c).nextDuty (.queueFrame r type payload) answer)) :
    Departures x' (log ++ [.did c (.queueFrame r type payload) answer]) := by
  refine h.call hroutes rfl (fun _ _ _ heq => by cases heq) ?_ ?_
  · intro hmem
    rw [monitor_did_self]
    rcases List.mem_append.mp hmem with hmem | hmem
    · refine (h.unswept c hmem).imp_right fun ⟨hcall, hd⟩ => ⟨hcall, ?_⟩
      change (monitor log c).nextDuty (.queueFrame r type payload) answer = .idle
      simp only [Monitor.nextDuty, hd]
    · cases List.mem_singleton.mp hmem
  · intro src ρ hρ hs hb
    rw [monitor_did_self]
    change Monitor.Beginning { (monitor log c).next c (.queueFrame r type payload) answer with
      duty := (monitor log c).nextDuty (.queueFrame r type payload) answer } src
    generalize (monitor log c).nextDuty (.queueFrame r type payload) answer = d at hq ⊢
    have habout := hb.about
    cases hq with
    | @begin src₀ endpoint b _ hd _ =>
      rw [hd] at habout
      cases habout
      cases answer with
      | error e => exact .inr rfl
      | ok _ =>
        rcases halign.begins c src endpoint b hd with ⟨ρ', hρ', rfl⟩ | ⟨hnone, -⟩
        · rw [hρ] at hρ'
          cases hρ'
          exact absurd rfl (hgone (h.swept_logged _ hs))
        · rw [hρ] at hnone
          cases hnone
    | chunk hd _ => rcases hb with ⟨_, _, hb⟩ | hb <;> rw [hd] at hb <;> cases hb
    | finish hd =>
      rw [hd] at habout
      cases habout
    | error hd =>
      rw [hd] at habout
      cases habout
    | other ht => exact hb

theorem effect (h : Departures x log) (halign : Aligned x log) (hinv : x.routes.Inv) {libc : Libc}
    (hgone : ∀ r type payload, .abort r ∈ log →
      (perform libc x (.queueFrame r type payload)).1 ≠ .ok ())
    (heff : Effect libc x log x' evs) : Departures x' (log ++ evs) := by
  cases heff with
  | pass hr _ hevs =>
    have hmon : ∀ c, monitor (log ++ evs) c = monitor log c := monitor_append_of_none hevs
    refine h.frame hr ?_ ?_ ?_
    · rintro c ⟨capacity, actions, hmem⟩
      rcases List.mem_append.mp hmem with hmem | hmem
      · exact ⟨capacity, actions, hmem⟩
      · cases hevs _ hmem
    · intro c hmem
      rw [hmon]
      rcases List.mem_append.mp hmem with hmem | hmem
      · exact (h.unswept c hmem).imp_left fun hs => hs.append _
      · cases hevs _ hmem
    · intro c src r _ _ hb
      rwa [hmon]
  | received u frame hm hl hleft =>
    refine h.call rfl rfl (fun _ _ _ heq => by cases heq) ?_ ?_
    · intro hmem
      rcases List.mem_append.mp hmem with hmem | hmem
      · exact absurd hmem hleft
      · cases List.mem_singleton.mp hmem
    · intro src r _ _ hb
      rw [hm] at hb
      exact absurd hb (Monitor.not_beginning_of_idle rfl src)
  | abort u hr _ hm =>
    refine h.call hr rfl (fun _ _ _ heq => by cases heq) ?_ ?_
    · rw [monitor_concat, Monitor.event, if_pos rfl]
      exact fun _ => .inr ⟨rfl, rfl⟩
    · intro src r _ _ hb
      rw [hm] at hb
      exact absurd hb (Monitor.not_beginning_of_idle rfl src)
  | returned u hm =>
    refine h.call rfl rfl (fun _ _ _ heq => by cases heq) ?_ ?_
    · intro hmem
      rcases List.mem_append.mp hmem with hmem | hmem
      -- a call that returns was not the sweep, or has swept
      · refine .inl ((h.unswept u.id hmem).resolve_right ?_)
        rintro ⟨hcall, hd⟩
        rcases hm with ⟨-, hfree⟩ | hd'
        · exact hfree (by rw [hcall]; trivial)
        · rw [hd] at hd'
          cases hd'
      · cases List.mem_singleton.mp hmem
    · intro src r _ _ hb
      exact absurd hb (Monitor.not_beginning_of_atRest hm src)
  | did u o hl ha =>
    rcases did_cases hinv libc ha with ⟨r, type, payload, rfl⟩ | ⟨rfl, -, hcall⟩ |
      ⟨hswept, ⟨hroutes, hd⟩ | hstep⟩
    · refine h.queue halign ?_ (hgone r type payload) (queue_cases ha)
      rfl
    · refine h.sweep halign hinv ?_ hcall
      simp only [perform, Shared.onRoutes]
    · refine h.call hroutes rfl (fun c capacity _ heq => hswept c capacity (Event.did.inj heq).2.1)
        ?_ ?_
      · intro hmem
        rw [monitor_did_self]
        rcases List.mem_append.mp hmem with hmem | hmem
        · exact (h.unswept u.id hmem).imp_right fun hu => ⟨hu.1, hd.trans hu.2⟩
        · cases List.mem_singleton.mp hmem
      · intro src r _ _ hb
        rw [monitor_did_self]
        change (∃ _, _) ∨ _
        rw [show ((monitor log u.id).next u.id o (perform libc x o).1).duty = _ from hd]
        exact hb
    · exact h.route halign hstep hswept

end Departures

theorem Server.Left.queueFrame_ne_ok {s : Server} (h : s.Left) (hwf : s.Wf) (libc : Libc)
    (r : ClientId) (type : FrameType) (payload : Bytes) (hr : .abort r ∈ s.log) :
    (perform libc s.shared (.queueFrame r type payload)).1 ≠ .ok () :=
  fun hok => h.not_isReady hwf hr (perform_queueFrame_ok hwf.clients hok)

theorem Server.departures_of_reach {ok : Server → Label → Prop} {s : Server}
    (hs : server.Reach ok s) : Departures s.shared s.log := by
  refine Server.effect_invariant Departures.init ?_ hs
  intro s l x' evs hreach _ heff hold
  have hwf := Server.wf_of_reach hreach
  exact hold.effect (Server.aligned_of_reach hreach) hwf.routes
    ((Server.left_of_reach hreach).queueFrame_ne_ok hwf _) heff

/-- `c`'s handler has added the live route `src` and is not done with its BEGIN: since then
it has neither returned, nor queued a BEGIN, nor quarantined the route. -/
def Forwarding (log : List Event) (c : ClientId) (src : UInt32) : Prop :=
  ∃ before tgt size discard answer after,
    log = before ++ .did c (.routesAdd c src tgt size discard) answer :: after ∧
    answer.result = .ready ∧ .returned c ∉ after ∧
    (∀ r payload, .did c (.queueFrame r .fileBegin payload) (.ok ()) ∉ after) ∧
    ∀ keep answer, .did c (.routesQuarantine c src keep) answer ∉ after

theorem Forwarding.append {log evs : List Event} {c : ClientId} {src : UInt32}
    (h : Forwarding log c src) (hr : .returned c ∉ evs)
    (hb : ∀ r payload, .did c (.queueFrame r .fileBegin payload) (.ok ()) ∉ evs)
    (hq : ∀ keep answer, .did c (.routesQuarantine c src keep) answer ∉ evs) :
    Forwarding (log ++ evs) c src := by
  obtain ⟨before, tgt, size, discard, answer, after, rfl, hready, hr', hb', hq'⟩ := h
  refine ⟨before, tgt, size, discard, answer, after ++ evs, by simp, hready, ?_, ?_, ?_⟩
  · exact fun hm => (List.mem_append.mp hm).elim hr' hr
  · exact fun r payload hm => (List.mem_append.mp hm).elim (hb' r payload) (hb r payload)
  · exact fun keep answer hm => (List.mem_append.mp hm).elim (hq' keep answer) (hq keep answer)

theorem Forwarding.other {log evs : List Event} {c : ClientId} {src : UInt32}
    (h : Forwarding log c src) (hevs : ∀ e ∈ evs, e.client ≠ some c) :
    Forwarding (log ++ evs) c src :=
  h.append (fun hm => hevs _ hm rfl) (fun _ _ hm => hevs _ hm rfl) (fun _ _ hm => hevs _ hm rfl)

/-- A call is in a BEGIN after an operation when it was and the operation did not end it, or
when the operation added the route. -/
theorem Monitor.Beginning.next {m : Monitor} {c : ClientId} {o : Op} {answer : o.Resp}
    {src : UInt32} {name : Bytes} (h : (m.next c o answer).Beginning src)
    (ha : m.allow c name o) :
    (m.Beginning src ∧
      (∀ r payload, Event.did c o answer ≠ .did c (.queueFrame r .fileBegin payload) (.ok ())) ∧
      ∀ keep a, Event.did c o answer ≠ .did c (.routesQuarantine c src keep) a) ∨
    ∃ tgt size discard a, Event.did c o answer = .did c (.routesAdd c src tgt size discard) a ∧
      a.result = .ready := by
  have habout := h.about
  simp only [Monitor.next] at habout
  cases o with
  -- only an accepted route begins one
  | routesAdd s src' tgt size discard =>
    right
    obtain rfl := ha.1
    simp only [Monitor.nextDuty] at habout
    split at habout
    · next hr hc =>
      split at habout
      · cases habout
        exact ⟨tgt, size, discard, answer, rfl, hr⟩
      · cases habout
    · cases habout
    · cases habout
  | routesQuarantine s src' keep =>
    simp only [Monitor.nextDuty] at habout
    split at habout
    · cases habout
    · split at habout <;> cases habout
  | routesAcceptChunk s src' len =>
    rcases h with ⟨_, _, hd⟩ | hd <;> simp only [Monitor.next, Monitor.nextDuty] at hd <;>
      split at hd <;> (try split at hd) <;> cases hd
  | routesMarkForwardFailed s src' o => cases habout
  | routesFinish s src' validate =>
    simp only [Monitor.nextDuty] at habout
    split at habout
    · split at habout <;> cases habout
    · cases habout
    · cases habout
  | routesAbortClient c' capacity => cases habout
  | queueFrame r type payload =>
    left
    have hq : QueueStep m name answer r type payload _ := queue_cases ha
    change ((∃ endpoint b, m.nextDuty (.queueFrame r type payload) answer =
      .beginForward src endpoint b) ∨ m.nextDuty (.queueFrame r type payload) answer =
      .beginFailed src) at h
    change (m.nextDuty (.queueFrame r type payload) answer).about = some src at habout
    generalize m.nextDuty (.queueFrame r type payload) answer = d at hq h habout
    cases hq with
    -- a BEGIN that is queued is over, and one that is refused is failed
    | @begin _ endpoint b _ hd _ =>
      cases answer with
      | ok _ => cases habout
      | error e =>
        cases habout
        refine ⟨.inl ⟨endpoint, b, hd⟩, fun r payload heq => ?_, fun _ _ heq => by cases heq⟩
        cases eq_of_heq (Event.did.inj heq).2.2
    | chunk hd _ =>
      cases answer with
      | ok _ => cases habout
      | error e => rcases h with ⟨_, _, h⟩ | h <;> cases h
    | finish hd => cases habout
    | error hd => cases habout
    | other ht =>
      refine ⟨h, fun r payload heq => ?_, fun _ _ heq => by cases heq⟩
      cases (Event.did.inj heq).2.1
      cases ht
  | _ => exact .inl ⟨h, fun _ _ heq => (by cases heq), fun _ _ heq => by cases heq⟩

theorem Server.forwarding_of_beginning {ok : Server → Label → Prop} {s : Server}
    (hs : server.Reach ok s) : ∀ c src, (monitor s.log c).Beginning src →
      Forwarding s.log c src := by
  refine Server.effect_invariant (P := fun _ log => ∀ c src,
    (monitor log c).Beginning src → Forwarding log c src)
    (fun c src hb => absurd hb (Monitor.not_beginning_of_idle rfl src)) ?_ hs
  intro s l x' evs hreach _ heff hold c src hb
  have hother : ∀ {e : Event} {c' : ClientId}, e.client = some c' → c' ≠ c →
      (monitor (s.log ++ [e]) c).Beginning src → Forwarding (s.log ++ [e]) c src := by
    intro e c' he hne hb
    rw [monitor_of_ne he hne] at hb
    refine (hold c src hb).other fun e' he' => ?_
    rw [List.mem_singleton.mp he', he]
    exact fun heq => hne (Option.some.inj heq)
  cases heff with
  | pass hr _ hevs =>
    rw [monitor_append_of_none hevs] at hb
    exact (hold c src hb).other fun e he => by rw [hevs e he]; simp
  | received u frame hm hl hleft =>
    by_cases hc : u.id = c
    · rw [← hc, monitor_concat, Monitor.event, if_pos rfl] at hb
      exact absurd hb (Monitor.not_beginning_of_idle rfl src)
    · exact hother rfl hc hb
  | abort u hr _ hm =>
    by_cases hc : u.id = c
    · rw [← hc, monitor_concat, Monitor.event, if_pos rfl] at hb
      exact absurd hb (Monitor.not_beginning_of_idle rfl src)
    · exact hother rfl hc hb
  | returned u hm =>
    by_cases hc : u.id = c
    · rw [← hc, monitor_concat, Monitor.event, if_pos rfl] at hb
      exact absurd hb (Monitor.not_beginning_of_idle rfl src)
    · exact hother rfl hc hb
  | did u o hl ha =>
    by_cases hc : u.id = c
    · subst hc
      rw [monitor_did_self] at hb
      rcases hb.next ha with ⟨hb, hbegin, hquar⟩ | ⟨tgt, size, discard, answer, heq, hready⟩
      · refine (hold u.id src hb).append (fun hm => by cases List.mem_singleton.mp hm) ?_ ?_
        · exact fun r payload hm => hbegin r payload (List.mem_singleton.mp hm).symm
        · exact fun keep answer hm => hquar keep answer (List.mem_singleton.mp hm).symm
      -- the route has just been added by this very call
      · rw [heq]
        exact ⟨s.log, tgt, size, discard, answer, [], rfl, hready, List.not_mem_nil,
          fun _ _ => List.not_mem_nil, fun _ _ => List.not_mem_nil⟩
    · exact hother rfl hc hb

theorem Server.handling_of_beginning {ok : Server → Label → Prop} {s : Server}
    (hs : server.Reach ok s) {c : ClientId} {src : UInt32} (hb : (monitor s.log c).Beginning src) :
    ∃ n v w p, s.threads n = .handling v w p ∧ v.id = c ∧ c ≠ invalidClientId := by
  have hcalls := Server.inCalls_of_reach hs
  have hwf := Server.wf_of_reach hs
  obtain ⟨n, u, hu, rfl⟩ : ∃ n u, (s.threads n).inCall = some u ∧ u.id = c := by
    by_contra hno
    have hidle := hcalls.idle c fun n u hu hid => hno ⟨n, u, hu, hid⟩
    rw [hidle] at hb
    exact Monitor.not_beginning_of_idle rfl src hb
  cases ht : s.threads n with
  | handling v w p =>
    rw [ht] at hu
    cases hu
    exact ⟨n, u, w, p, ht, rfl, hwf.session_id_ne (n := n) (by rw [ht]; rfl) (by rw [ht]; rfl)⟩
  | aborting v p =>
    rw [ht] at hu
    cases hu
    have hmem := (Server.gone_logged hs n u (by rw [ht]; rfl) (by rw [ht]; rfl)).1
    have habout := ((Server.aligned_of_reach hs).spent u.id hmem).2
    rw [hb.about] at habout
    cases habout
  | _ =>
    rw [ht] at hu
    cases hu

/-- The route `src` that `c` has added towards a client that has gone: its BEGIN is still to
fail, or has failed and left a tombstone. -/
def Doomed (x : Shared) (log : List Event) (c : ClientId) (src : UInt32) : Prop :=
  ((monitor log c).Beginning src ∧ ∃ r, x.routes.lookup (c, src) = some r ∧
    (r.discard = false → .abort r.targetId ∈ log)) ∨
  ((monitor log c).duty = .owes [] ∧ x.routes.lookup (c, src) = some (makeDiscardRoute c src))

namespace Doomed

variable {x x' : Shared} {log evs : List Event} {c : ClientId} {src : UInt32}

theorem frame (h : Doomed x log c src) (hlookup :
    x'.routes.lookup (c, src) = x.routes.lookup (c, src))
    (hd : (monitor (log ++ evs) c).duty = (monitor log c).duty) : Doomed x' (log ++ evs) c src := by
  rw [Doomed, hlookup, Monitor.Beginning, hd]
  refine h.imp_left fun ⟨hb, r, hr, habort⟩ => ⟨hb, r, hr, ?_⟩
  exact fun hdisc => List.mem_append_left _ (habort hdisc)

theorem queue (h : Doomed x log c src) (halign : Aligned x log) (hroutes : x'.routes = x.routes)
    {name payload : Bytes} {r : ClientId} {type : FrameType} {answer : Except Errno Unit}
    (hgone : .abort r ∈ log → answer ≠ .ok ())
    (hq : QueueStep (monitor log c) name answer r type payload
      ((monitor log c).nextDuty (.queueFrame r type payload) answer)) :
    Doomed x' (log ++ [.did c (.queueFrame r type payload) answer]) c src := by
  have hduty : (monitor (log ++ [.did c (.queueFrame r type payload) answer]) c).duty =
      (monitor log c).nextDuty (.queueFrame r type payload) answer := by
    rw [monitor_did_self]
    rfl
  rcases h with ⟨hb, ρ, hρ, habort⟩ | ⟨hd', hρ⟩
  · refine .inl ⟨?_, ρ, hroutes ▸ hρ, fun hdisc => List.mem_append_left _ (habort hdisc)⟩
    rw [Monitor.Beginning, hduty]
    generalize (monitor log c).nextDuty (.queueFrame r type payload) answer = d at hq ⊢
    have habout := hb.about
    cases hq with
    | @begin _ endpoint b _ hd _ =>
      rw [hd] at habout
      cases habout
      cases answer with
      | error e => exact .inr rfl
      | ok _ =>
        refine absurd rfl (hgone ?_)
        rcases halign.begins c src endpoint b hd with ⟨ρ', hρ', rfl⟩ | ⟨-, habort'⟩
        · obtain ⟨hlook, hdisc⟩ := live_eq_some.mp hρ'
          rw [hρ] at hlook
          cases hlook
          exact habort hdisc
        · exact habort'
    | chunk hd _ => rcases hb with ⟨_, _, hb⟩ | hb <;> rw [hd] at hb <;> cases hb
    | finish hd =>
      rw [hd] at habout
      cases habout
    | error hd =>
      rw [hd] at habout
      cases habout
    | other ht => exact hb
  · refine .inr ⟨?_, hroutes ▸ hρ⟩
    rw [hduty]
    simp only [Monitor.nextDuty, hd']

theorem route (h : Doomed x log c src) {o : Op} {answer : o.Resp}
    (hstep : RouteStep x.routes c (monitor log c) x'.routes ((monitor log c).nextDuty o answer)) :
    Doomed x' (log ++ [.did c o answer]) c src := by
  have hduty : (monitor (log ++ [.did c o answer]) c).duty = (monitor log c).nextDuty o answer := by
    rw [monitor_did_self]
    rfl
  rw [Doomed, hduty]
  generalize (monitor log c).nextDuty o answer = d at hstep
  rcases h with ⟨hb, ρ, hρ, -⟩ | ⟨hd', -⟩
  · have habout := hb.about
    cases hstep with
    | beginFailed hd hl =>
      rw [hd] at habout
      cases habout
      refine .inr ⟨rfl, ?_⟩
      rcases hl with hl | ⟨-, hnone⟩
      · rw [hl, Function.update_self]
      · rw [hρ] at hnone
        cases hnone
    | chunkFailed hd => rcases hb with ⟨_, _, hb⟩ | hb <;> rw [hd] at hb <;> cases hb
    | vacant _ hd => exact absurd hb (Monitor.not_beginning_of_idle hd src)
    | ended _ hd => exact absurd hb (Monitor.not_beginning_of_idle hd src)
    | opened _ hd => exact absurd hb (Monitor.not_beginning_of_idle hd src)
    | advanced _ hd => exact absurd hb (Monitor.not_beginning_of_idle hd src)
  · cases hstep with
    | beginFailed hd => rw [hd'] at hd; cases hd
    | chunkFailed hd => rw [hd'] at hd; cases hd
    | vacant _ hd => rw [hd'] at hd; cases hd
    | ended _ hd => rw [hd'] at hd; cases hd
    | opened _ hd => rw [hd'] at hd; cases hd
    | advanced _ hd => rw [hd'] at hd; cases hd

theorem sweep (h : Doomed x log c src) (hinv : x.routes.Inv) (hc : c ≠ invalidClientId)
    {c' : ClientId} (hne : c' ≠ c) {capacity : ℕ} {answer : List FileRouteAbortAction}
    (hx : x'.routes = (x.routes.abortClient c' capacity).1) :
    Doomed x' (log ++ [.did c' (.routesAbortClient c' capacity) answer]) c src := by
  rw [Doomed, monitor_did_of_ne hne, hx]
  rcases h with ⟨hb, ρ, hρ, habort⟩ | ⟨hd, hρ⟩
  · refine .inl ⟨hb, ?_⟩
    rcases abortClient_lookup_other hinv capacity hne.symm hc hρ with hl | hl
    · exact ⟨ρ, hl, fun hdisc => List.mem_append_left _ (habort hdisc)⟩
    · exact ⟨_, hl, fun hdisc => by cases hdisc⟩
  · refine .inr ⟨hd, ?_⟩
    rcases abortClient_lookup_other hinv capacity hne.symm hc hρ with hl | hl <;> exact hl

theorem effect (h : Doomed x log c src) (halign : Aligned x log) (hinv : x.routes.Inv)
    (hc : c ≠ invalidClientId) {libc : Libc}
    (hgone : ∀ r type payload, .abort r ∈ log →
      (perform libc x (.queueFrame r type payload)).1 ≠ .ok ())
    (heff : Effect libc x log x' evs) : .returned c ∈ evs ∨ Doomed x' (log ++ evs) c src := by
  have hstart : monitor log c ≠ {} := by
    intro hm
    rcases h with ⟨hb, -⟩ | ⟨hd, -⟩
    · exact Monitor.not_beginning_of_idle (by rw [hm]) src hb
    · rw [hm] at hd
      cases hd
  cases heff with
  | pass hr _ hevs =>
    exact .inr (h.frame (by rw [hr]) (by rw [monitor_append_of_none hevs]))
  | received u frame hm hl hleft =>
    have hu : u.id ≠ c := fun hu => hstart (hu ▸ hm)
    exact .inr (h.frame rfl (by rw [monitor_of_ne rfl hu]))
  | abort u hr _ hm =>
    have hu : u.id ≠ c := fun hu => hstart (hu ▸ hm)
    exact .inr (h.frame (by rw [hr]) (by rw [monitor_of_ne rfl hu]))
  | returned u hm =>
    by_cases hu : u.id = c
    · exact .inl (hu ▸ List.mem_singleton.mpr rfl)
    · exact .inr (h.frame rfl (by rw [monitor_of_ne rfl hu]))
  | did u o hl ha =>
    right
    by_cases hu : u.id = c
    · subst hu
      rcases did_cases hinv libc ha with ⟨r, type, payload, rfl⟩ | ⟨rfl, hidle, -⟩ |
        ⟨-, ⟨hroutes, hd⟩ | hstep⟩
      · refine h.queue halign ?_ (hgone r type payload) (queue_cases ha)
        rfl
      -- a sweep comes from a thread that handles no frame
      · rcases h with ⟨hb, -⟩ | ⟨hd, -⟩
        · exact absurd hb (Monitor.not_beginning_of_idle hidle src)
        · rw [hidle] at hd
          cases hd
      · refine h.frame (by rw [hroutes]) ?_
        rw [monitor_did_self]
        exact hd
      · exact h.route hstep
    · have hmon : (monitor (log ++ [.did u.id o (perform libc x o).1]) c).duty =
          (monitor log c).duty := by rw [monitor_did_of_ne hu]
      rcases did_cases hinv libc ha with ⟨r, type, payload, rfl⟩ | ⟨rfl, -, -⟩ |
        ⟨-, ⟨hroutes, hd⟩ | hstep⟩
      · exact h.frame rfl hmon
      · refine h.sweep hinv hc hu ?_
        simp only [perform, Shared.onRoutes]
      · exact h.frame (by rw [hroutes]) hmon
      · exact h.frame (hstep.lookup_other (Ne.symm hu)) hmon

end Doomed

theorem Server.doomed_of_steps {s t : Server} (hs : server.Reachable s) {c : ClientId}
    {src : UInt32} (hc : c ≠ invalidClientId) (hd : Doomed s.shared s.log c src)
    (h : server.Steps s t) : ∃ evs, t.log = s.log ++ evs ∧
      (.returned c ∈ evs ∨ Doomed t.shared t.log c src) := by
  refine h.invariant (P := fun t => ∃ evs, t.log = s.log ++ evs ∧
    (.returned c ∈ evs ∨ Doomed t.shared t.log c src)) ?_ ⟨[], by simp, .inr hd⟩
  rintro t l t' hst ⟨evs, hlog, hcases⟩ hstep
  have hreach := hs.steps hst
  have hwf := Server.wf_of_reach hreach
  obtain ⟨evs', hlog', heff⟩ := Server.step_effect hreach hstep
  refine ⟨evs ++ evs', by rw [hlog', hlog, List.append_assoc], ?_⟩
  rcases hcases with hmem | hdoomed
  · exact .inl (List.mem_append_left _ hmem)
  · rw [hlog']
    exact (hdoomed.effect (Server.aligned_of_reach hreach) hwf.routes hc
      ((Server.left_of_reach hreach).queueFrame_ne_ok hwf _) heff).imp_left
        fun hmem => List.mem_append_right _ hmem

theorem Server.tombstone_of_returned {s t t' : Server} {l : Label} (hs : server.Reachable s)
    {c : ClientId} {src : UInt32} (hc : c ≠ invalidClientId) (hd : Doomed s.shared s.log c src)
    (h : server.Steps s t) (hstep : server.step t l = some t') {evs : List Event}
    (hlog : t.log = s.log ++ evs) (hno : .returned c ∉ evs)
    (hret : t'.log = t.log ++ [.returned c]) :
    t'.shared.routes.lookup (c, src) = some (makeDiscardRoute c src) := by
  obtain ⟨evs₁, hlog₁, hcases⟩ := Server.doomed_of_steps hs hc hd h
  rw [hlog, List.append_cancel_left_eq] at hlog₁
  have hdoomed := hcases.resolve_left (hlog₁ ▸ hno)
  obtain ⟨evs₂, hlog₂, heff⟩ := Server.step_effect (hs.steps h) hstep
  rw [hret, List.append_cancel_left_eq] at hlog₂
  subst hlog₂
  generalize hevs : [Event.returned c] = evs₂ at heff
  generalize t'.shared = x' at heff ⊢
  cases heff with
  | pass _ _ hnone =>
    subst hevs
    cases hnone _ (List.mem_singleton.mpr rfl)
  | returned u hm =>
    cases hevs
    rcases hdoomed with ⟨hb, -⟩ | ⟨-, htomb⟩
    · exact absurd hb (Monitor.not_beginning_of_atRest hm src)
    · exact htomb
  | received => cases hevs
  | abort => cases hevs
  | did => cases hevs

theorem Server.swept_of_finished {ok : Server → Label → Prop} {s : Server}
    (hs : server.Reach ok s) {n : ℕ} {u : Session} (hn : s.threads n = .finished u) :
    Swept s.log u.id ∧ u.id ≠ invalidClientId := by
  obtain ⟨habort, hne⟩ := Server.gone_logged hs n u (by rw [hn]; rfl) (by rw [hn]; rfl)
  refine ⟨((Server.departures_of_reach hs).unswept u.id habort).resolve_right ?_, hne⟩
  rintro ⟨hcall, -⟩
  rw [(Server.inCalls_of_reach hs).monitor_eq (n := n) (Server.wf_of_reach hs) (by rw [hn]; rfl)
    (by rw [hn]; rfl)] at hcall
  cases hcall

/-- Once the thread of a client has returned from `remove_client` and
`abort_file_routes_for_client`: the client has no active route, at any later time; a live
route to it belongs to a handler that is still in its BEGIN, and is a tombstone when that
handler returns; and without such a handler there is none. -/
theorem no_route_outlives_disconnect {s t : Server} (hs : server.Reachable s) {n : ℕ}
    {u : Session} (hn : s.threads n = .finished u) (ht : server.Steps s t) :
    (∀ i, (t.shared.routes.routes i).active = true →
      (t.shared.routes.routes i).senderId ≠ u.id) ∧
    (∀ i c src, (t.shared.routes.routes i).Live → (t.shared.routes.routes i).HasKey c src →
      (t.shared.routes.routes i).targetId = u.id →
      (∃ k v w p, t.threads k = .handling v w p ∧ v.id = c ∧ Forwarding t.log c src) ∧
      ∀ t₁ l t₂ evs, server.Steps t t₁ → server.step t₁ l = some t₂ → t₁.log = t.log ++ evs →
        .returned c ∉ evs → t₂.log = t₁.log ++ [.returned c] →
        ∃ j, t₂.shared.routes.routes j = makeDiscardRoute c src) ∧
    ((∀ k v w p src, t.threads k = .handling v w p → ¬Forwarding t.log v.id src) →
      ∀ i, (t.shared.routes.routes i).Live → (t.shared.routes.routes i).targetId ≠ u.id) := by
  obtain ⟨hswept, hu⟩ := Server.swept_of_finished hs hn
  obtain ⟨evs, hlog⟩ := Server.steps_log hs ht
  have hreach := hs.steps ht
  have hinv := (Server.wf_of_reach hreach).routes
  have hdep := Server.departures_of_reach hreach
  replace hswept : Swept t.log u.id := hlog ▸ hswept.append evs
  have hlive : ∀ {i c src}, (t.shared.routes.routes i).Live →
      (t.shared.routes.routes i).HasKey c src →
      t.shared.routes.live (c, src) = some (t.shared.routes.routes i) := by
    rintro i c src hl ⟨rfl, rfl⟩
    exact (live_iff hinv).mpr ⟨hl, i, rfl⟩
  have hbegin : ∀ {i c src}, (t.shared.routes.routes i).Live →
      (t.shared.routes.routes i).HasKey c src → (t.shared.routes.routes i).targetId = u.id →
      (monitor t.log c).Beginning src :=
    fun hl hk htgt => hdep.target u.id hswept hu _ _ (hlive hl hk) htgt
  refine ⟨?_, ?_, ?_⟩
  · intro i hact hsender
    exact lookup_eq_none.mp (hdep.sender u.id hswept hu (t.shared.routes.routes i).sourceTransferId)
      i
      ⟨hact, hsender, rfl⟩
  · intro i c src hl hk htgt
    have hb := hbegin hl hk htgt
    obtain ⟨k, v, w, p, hkv, hid, hc⟩ := Server.handling_of_beginning hreach hb
    refine ⟨⟨k, v, w, p, hkv, hid, Server.forwarding_of_beginning hreach c src hb⟩, ?_⟩
    intro t₁ l t₂ evs' ht₁ hstep hlog₁ hno hret
    -- the recipient is gone, so the BEGIN on its way is refused and leaves a tombstone
    have hdoomed : Doomed t.shared t.log c src := by
      refine .inl ⟨hb, _, (live_eq_some.mp (hlive hl hk)).1, fun _ => ?_⟩
      rw [htgt]
      exact hdep.swept_logged u.id hswept
    have htomb := Server.tombstone_of_returned hreach hc hdoomed ht₁ hstep hlog₁ hno hret
    have hreach₂ := (hreach.steps ht₁).step trivial hstep
    obtain ⟨j, -, hj⟩ := (lookup_eq_some (Server.wf_of_reach hreach₂).routes).mp htomb
    exact ⟨j, hj⟩
  · intro hnone i hl htgt
    have hb := hbegin hl ⟨rfl, rfl⟩ htgt
    obtain ⟨k, v, w, p, hkv, hid, -⟩ := Server.handling_of_beginning hreach hb
    refine hnone k v w p (t.shared.routes.routes i).sourceTransferId hkv ?_
    rw [hid]
    exact Server.forwarding_of_beginning hreach _ _ hb

/-- A target that goes after it was looked up, and before the route is added. -/
theorem no_route_outlives_disconnect_gap : ∃ s u i, server.Reachable s ∧
    s.threads 1 = .finished u ∧ (s.shared.routes.routes i).Live ∧
    (s.shared.routes.routes i).targetId = u.id ∧
    ∃ k v w p, s.threads k = .handling v w p ∧ v.id = 1 ∧ Forwarding s.log 1 9 := by
  have hrun : (server.run server.init (loginLabels 0 (ascii "ann") ++ loginLabels 1 (ascii "bob") ++
      frameLabels 0 ([0] ++ writeU32 9 ++ writeU64 3 ++ writeU16 3 ++ writeU16 1 ++ ascii "bobf") ++
      stepLabels 0 [none] ++ leaveLabels 1 ++ stepLabels 0 [none])).map
        (fun s => (match s.threads 1 with | .finished u => some u | _ => none,
          s.shared.routes.routes ⟨0, by decide⟩)) =
      some (some ⟨⟨1, by decide⟩, 2, ascii "bob"⟩, newRoute 1 9 2 1 3) := by
    decide +kernel
  obtain ⟨s, hs, hproj⟩ := Option.map_eq_some_iff.mp hrun
  have hreach := Transition.System.Reachable.run .init hs
  obtain ⟨hthread, hroute⟩ := Prod.mk.inj hproj
  have hn : s.threads 1 = .finished ⟨⟨1, by decide⟩, 2, ascii "bob"⟩ := by
    split at hthread
    · next u hu => rw [hu, Option.some.inj hthread]
    · cases hthread
  have hlive : (s.shared.routes.routes ⟨0, by decide⟩).Live := by
    rw [hroute]
    exact ⟨rfl, rfl⟩
  have hkey : (s.shared.routes.routes ⟨0, by decide⟩).HasKey 1 9 := by
    rw [hroute]
    exact ⟨rfl, rfl⟩
  have htgt : (s.shared.routes.routes ⟨0, by decide⟩).targetId = 2 := by
    rw [hroute]
    rfl
  exact ⟨s, _, _, hreach, hn, hlive, htgt,
    ((no_route_outlives_disconnect hreach hn .refl).2.1 _ 1 9 hlive hkey htgt).1⟩

end CipherChat
