import CipherChat.Alignment
import CipherChat.Stream

/-!
# No orphaned transfer

A receiver that was sent a BEGIN holds a slot and a temporary file until it is sent an END
or an ERROR.  A live route ends in about ten ways; each of them leaves its call with the
duty to send one, unless the receiver is gone.
-/

namespace CipherChat

open FileRoutes

/-- `malloc` returns fresh memory and `eventfd_write` succeeds. -/
def AllocOk (s : Server) (l : Label) : Prop :=
  (∃ a, l.2.libc.address = some a ∧ s.shared.clients.heap a = none) ∧
    l.2.libc.eventfdWrite = none

instance (s : Server) (l : Label) : Decidable (AllocOk s l) :=
  decidable_of_iff ((l.2.libc.address.any fun a => (s.shared.clients.heap a).isNone) = true ∧
    l.2.libc.eventfdWrite = none) (by
      rw [AllocOk, Option.any_eq_true]
      simp only [Option.isNone_iff_eq_none])

/-- An END or an ERROR of transfer `o` was queued to `r`. -/
def Ended (log : List Event) (r : ClientId) (o : UInt32) : Prop :=
  ∃ c type payload, (type = .fileEnd ∨ type = .fileError) ∧
    .did c (.queueFrame r type payload) (.ok ()) ∈ log ∧
    readTransferId (type.toByte :: payload) = some o

theorem Ended.append {log : List Event} {r : ClientId} {o : UInt32} (h : Ended log r o)
    (evs : List Event) : Ended (log ++ evs) r o := by
  obtain ⟨c, type, payload, htype, hmem, hid⟩ := h
  exact ⟨c, type, payload, htype, List.mem_append_left _ hmem, hid⟩

theorem Ended.concat {log : List Event} {c r : ClientId} {o : UInt32} {type : FrameType}
    (h : type = .fileEnd ∨ type = .fileError) :
    Ended (log ++ [.did c (.queueFrame r type (writeU32 o)) (.ok ())]) r o := by
  exact ⟨c, type, writeU32 o, h, List.mem_append_right _ (List.mem_singleton.mpr rfl),
    readTransferId_writeU32 _ _⟩

/-- The call that performs the operation is told that it has ended the route to `endpoint`.
(The calls that end one without being told have found its receiver gone.) -/
def Event.EndsRoute (endpoint : FileRouteEndpoint) : Event → Prop
  | .did _ (.routesAdd _ _ _ _ _) answer =>
    answer.result = .duplicate ∧ answer.replaced = endpoint
  | .did _ (.routesQuarantine _ _ _) answer =>
    answer.wasForwarding = true ∧ answer.previous = endpoint
  | .did _ (.routesAcceptChunk _ _ _) answer =>
    answer.result = .overrun ∧ answer.endpoint = endpoint
  | .did _ (.routesFinish _ _ _) answer =>
    (answer.result = .ready ∨ answer.result = .incomplete) ∧ answer.endpoint = endpoint
  | .did _ (.routesAbortClient _ _) actions =>
    endpoint ∈ actions.filterMap FileRouteAbortAction.error?
  | _ => False

instance (endpoint : FileRouteEndpoint) : (e : Event) → Decidable (e.EndsRoute endpoint)
  | .did _ (.routesAdd _ _ _ _ _) answer =>
    inferInstanceAs (Decidable (answer.result = .duplicate ∧ answer.replaced = endpoint))
  | .did _ (.routesQuarantine _ _ _) answer =>
    inferInstanceAs (Decidable (answer.wasForwarding = true ∧ answer.previous = endpoint))
  | .did _ (.routesAcceptChunk _ _ _) answer =>
    inferInstanceAs (Decidable (answer.result = .overrun ∧ answer.endpoint = endpoint))
  | .did _ (.routesFinish _ _ _) answer => inferInstanceAs (Decidable
    ((answer.result = .ready ∨ answer.result = .incomplete) ∧ answer.endpoint = endpoint))
  | .did _ (.routesAbortClient _ _) actions =>
    inferInstanceAs (Decidable (endpoint ∈ actions.filterMap FileRouteAbortAction.error?))
  | .did _ (.findClientId _) _ | .did _ (.registerClientPublicKey _ _) _
  | .did _ (.getClientPublicKey _) _ | .did _ (.queueFrame _ _ _) _ | .did _ (.recipients _) _
  | .did _ .readyNames _ | .did _ (.routesMarkForwardFailed _ _ _) _
  | .login _ _ _ | .received _ _ | .abort _ | .returned _ | .wrote _ _ =>
    inferInstanceAs (Decidable False)

/-- The receivers that a duty is to send an END or an ERROR. -/
def Duty.sends : Duty → List FileRouteEndpoint
  | .endForward endpoint => [endpoint]
  | .owes endpoints => endpoints
  | _ => []

theorem endsRoute_of_sends {m : Monitor} {c : ClientId} {o : Op} {answer : o.Resp}
    {endpoint : FileRouteEndpoint} (hno : endpoint ∉ m.duty.sends)
    (h : endpoint ∈ (m.next c o answer).duty.sends) :
    (Event.did c o answer).EndsRoute endpoint := by
  have howe : ∀ {e : FileRouteEndpoint}, endpoint ∈ (owe e).sends → e = endpoint := by
    intro e he
    rw [owe, Duty.sends] at he
    split at he
    · cases he
    · exact (List.mem_singleton.mp he).symm
  cases o with
  -- an ERROR becomes owed only together with the end of its route
  | routesAdd s src tgt size discard =>
    simp only [Monitor.next, Monitor.nextDuty] at h
    split at h
    · split at h <;> cases h
    · next hr => exact ⟨hr, howe h⟩
    · cases h
  | routesQuarantine s src keep =>
    simp only [Monitor.next, Monitor.nextDuty] at h
    split at h
    · cases h
    · split at h
      · next hf => exact ⟨hf, howe h⟩
      · cases h
  | routesAcceptChunk s src len =>
    simp only [Monitor.next, Monitor.nextDuty] at h
    split at h
    · split at h <;> cases h
    · next hr => exact ⟨hr, howe h⟩
    · cases h
  | routesMarkForwardFailed s src o => cases h
  | routesFinish s src validate =>
    simp only [Monitor.next, Monitor.nextDuty] at h
    split at h
    · next hr =>
      split at h
      · exact ⟨.inl hr, (List.mem_singleton.mp h).symm⟩
      · exact ⟨.inl hr, howe h⟩
    · next hr => exact ⟨.inr hr, howe h⟩
    · cases h
  | routesAbortClient c' capacity => exact h
  | queueFrame r type payload =>
    -- a queued frame only pays
    exfalso
    simp only [Monitor.next, Monitor.nextDuty] at h
    split at h
    · split at h
      · cases answer <;> cases h
      · next hd _ => exact hno h
    · split at h
      · cases answer <;> cases h
      · next hd _ => exact hno h
    · split at h
      · cases h
      · next hd _ => exact hno h
    · next hd =>
      split at h
      · exact hno (by rw [hd]; exact List.mem_cons_of_mem _ h)
      · exact hno h
    · exact hno h
  | _ => exact absurd h hno

/-- The call does not stand between a route and its frames: no forward of it has failed, and
its BEGIN has been sent. -/
def Duty.Carries (d : Duty) (src : UInt32) : Prop :=
  d.about ≠ some src ∨ ∃ endpoint data, d = .chunkForward src endpoint data

/-- What becomes of a BEGIN that `c` has queued to `endpoint`, when `after` was logged since
and `c`'s call has duty `d`. -/
def Accounted (x : Shared) (d : Duty) (after : List Event) (c : ClientId)
    (endpoint : FileRouteEndpoint) : Prop :=
  Ended after endpoint.targetId endpoint.outboundTransferId ∨
  ¬x.clients.IsReady endpoint.targetId ∨
  (∃ src r, x.routes.live (c, src) = some r ∧ copyEndpoint r = endpoint ∧ d.Carries src) ∨
  endpoint ∈ d.sends

theorem length_of_encodeChunk {o : UInt32} {data payload : Bytes}
    (h : encodeChunk fileChunkPayloadMaxSize o data = .ok payload) :
    payload.length ≤ frameMaxSize - 1 := by
  rw [encodeChunk] at h
  split_ifs at h with h1 h2
  obtain rfl := Except.ok.inj h
  have hmax := frameMaxSize_eq
  have hcap : fileChunkPayloadMaxSize = 904 := rfl
  rw [List.length_append, writeU32_length]
  omega

namespace Accounted

variable {x x' : Shared} {d d' : Duty} {after evs : List Event} {c : ClientId}
  {endpoint : FileRouteEndpoint}

theorem step (h : Accounted x d after c endpoint)
    (hready : x'.clients.IsReady endpoint.targetId → x.clients.IsReady endpoint.targetId)
    (hlive : x'.clients.IsReady endpoint.targetId → ∀ src r, x.routes.live (c, src) = some r →
      copyEndpoint r = endpoint → d.Carries src →
      (∃ r', x'.routes.live (c, src) = some r' ∧ copyEndpoint r' = endpoint ∧ d'.Carries src) ∨
        endpoint ∈ d'.sends)
    (hsends : x'.clients.IsReady endpoint.targetId → endpoint ∈ d.sends →
      endpoint ∈ d'.sends ∨
        Ended (after ++ evs) endpoint.targetId endpoint.outboundTransferId) :
    Accounted x' d' (after ++ evs) c endpoint := by
  by_cases hr : x'.clients.IsReady endpoint.targetId
  · rcases h with h | h | ⟨src, r, hl, he, hcarries⟩ | h
    · exact .inl (h.append evs)
    · exact absurd (hready hr) h
    · rcases hlive hr src r hl he hcarries with ⟨r', hl', he', hc'⟩ | hs
      · exact .inr (.inr (.inl ⟨src, r', hl', he', hc'⟩))
      · exact .inr (.inr (.inr hs))
    · rcases hsends hr h with hs | hend
      · exact .inr (.inr (.inr hs))
      · exact .inl hend
  · exact .inr (.inl hr)

theorem frame (h : Accounted x d after c endpoint)
    (hready : x'.clients.IsReady endpoint.targetId → x.clients.IsReady endpoint.targetId)
    (hlive : x'.clients.IsReady endpoint.targetId → ∀ src r, x.routes.live (c, src) = some r →
      copyEndpoint r = endpoint → x'.routes.live (c, src) = some r) :
    Accounted x' d (after ++ evs) c endpoint :=
  h.step hready (fun hr src r hl he hc => .inl ⟨r, hlive hr src r hl he, he, hc⟩)
    fun _ hs => .inl hs

theorem queue {m : Monitor} (h : Accounted x m.duty after c endpoint)
    (hroutes : x'.routes = x.routes) {name payload : Bytes} {r : ClientId} {type : FrameType}
    {answer : Except Errno Unit}
    (hforwards : ∀ src e data, m.duty = .chunkForward src e data →
      ∀ r, x.routes.live (c, src) = some r → e = copyEndpoint r)
    (hready : x'.clients.IsReady endpoint.targetId → x.clients.IsReady endpoint.targetId)
    (hfail : ∀ e, answer = .error e → payload.length ≤ frameMaxSize - 1 → ¬x'.clients.IsReady r)
    (hq : QueueStep m name answer r type payload d') :
    Accounted x' d' (after ++ [.did c (.queueFrame r type payload) answer]) c endpoint := by
  have hcontrol : ∀ o : UInt32, (writeU32 o).length ≤ frameMaxSize - 1 := by
    intro o
    have hmax := frameMaxSize_eq
    rw [writeU32_length]
    omega
  cases hq with
  | @begin src₀ e b _ hd _ =>
    refine h.step hready (fun hr src ρ hρ he hc => .inl ⟨ρ, hroutes ▸ hρ, he, .inl ?_⟩) ?_
    · rw [hd] at hc
      rcases hc with hc | ⟨_, _, hc⟩
      · cases answer with
        | ok _ => exact fun ha => by cases ha
        | error _ => exact hc
      · cases hc
    · intro _ hs
      rw [hd] at hs
      cases hs
  | @chunk src₀ e data _ hd henc =>
    refine h.step hready (fun hr src ρ hρ he hc => .inl ⟨ρ, hroutes ▸ hρ, he, .inl ?_⟩) ?_
    · cases answer with
      | ok _ => exact fun ha => by cases ha
      | error err =>
        -- a chunk that cannot be queued means that the recipient is gone
        intro ha
        cases ha
        have heq := hforwards src₀ e data hd ρ hρ
        refine hfail err rfl ?_ ?_
        · exact length_of_encodeChunk henc
        · rw [heq, he]
          exact hr
    · intro _ hs
      rw [hd] at hs
      cases hs
  | @finish e hd =>
    refine h.step hready (fun hr src ρ hρ he hc => .inl ⟨ρ, hroutes ▸ hρ, he, .inl ?_⟩) ?_
    · exact fun ha => by cases ha
    · intro hr hs
      rw [hd] at hs
      obtain rfl := List.mem_singleton.mp hs
      cases answer with
      | ok _ => exact .inr (.concat (.inl rfl))
      | error err => exact absurd hr (hfail err rfl (hcontrol _))
  | @error e rest hd =>
    refine h.step hready (fun hr src ρ hρ he hc => .inl ⟨ρ, hroutes ▸ hρ, he, .inl ?_⟩) ?_
    · exact fun ha => by cases ha
    · intro hr hs
      rw [hd] at hs
      rcases List.mem_cons.mp hs with rfl | hs
      · cases answer with
        | ok _ => exact .inr (.concat (.inr rfl))
        -- so does an ERROR
        | error err => exact absurd hr (hfail err rfl (hcontrol _))
      · exact .inl hs
  | other ht => exact h.frame hready fun _ src ρ hρ _ => hroutes ▸ hρ

theorem route {m : Monitor} (h : Accounted x m.duty after c endpoint) (hinv : x.clients.Inv)
    (hready : x'.clients.IsReady endpoint.targetId → x.clients.IsReady endpoint.targetId)
    (hstep : RouteStep x.routes c m x'.routes d') :
    Accounted x' d' (after ++ evs) c endpoint := by
  have hidle : m.duty = .idle → endpoint ∉ m.duty.sends := by
    intro hd hs
    rw [hd] at hs
    cases hs
  have hother : ∀ {src src₀ : UInt32} {v : Option FileRoute} {r : FileRoute},
      x'.routes.lookup = Function.update x.routes.lookup (c, src₀) v → src ≠ src₀ →
      x.routes.live (c, src) = some r → x'.routes.live (c, src) = some r := by
    intro src src₀ v r hl hne hr
    rw [live_update hl, Function.update_of_ne fun heq => hne (congrArg Prod.snd heq)]
    exact hr
  cases hstep with
  | @vacant src₀ v hf hd hk hl hv =>
    refine h.step hready (fun hr src r hρ he hc => .inl ⟨r, hother hl ?_ hρ, he, .inl ?_⟩)
      fun _ hs => absurd hs (hidle hd)
    · rintro rfl
      rw [hk] at hρ
      cases hρ
    · exact fun ha => by cases ha
  | @ended src₀ v r₀ _ hf hd hk hl hv hd' =>
    have habout : d'.about = none := by rcases hd' with rfl | rfl <;> rfl
    refine h.step hready (fun hr src r hρ he hc => ?_) fun _ hs => absurd hs (hidle hd)
    -- the route of the endpoint ends here, so its ERROR is owed now
    by_cases hsrc : src = src₀
    · subst hsrc
      rw [hk] at hρ
      cases hρ
      right
      have hne : endpoint.targetId ≠ invalidClientId := by
        obtain ⟨i, l, hl, -, hid⟩ := hready hr
        exact hid ▸ (hinv.login_id_lt hl).1
      rcases hd' with rfl | rfl
      · rw [he, owe, if_neg hne]
        exact List.mem_singleton.mpr rfl
      · rw [he]
        exact List.mem_singleton.mpr rfl
    · exact .inl ⟨r, hother hl hsrc hρ, he, .inl (by rw [habout]; simp)⟩
  | @opened src₀ o tgt b hf hd hk ht ho hl =>
    have hne : ∀ {src r}, x.routes.live (c, src) = some r → src ≠ src₀ := by
      rintro src r hρ rfl
      rw [live_eq_none (discard_of_none hk)] at hρ
      cases hρ
    refine h.step hready (fun hr src r hρ he hc => .inl ⟨r, hother hl (hne hρ) hρ, he, .inl ?_⟩)
      fun _ hs => absurd hs (hidle hd)
    exact fun ha => hne hρ (Option.some.inj ha).symm
  | @advanced src₀ r₀ r' data hf hd hk hl hr' =>
    refine h.step hready (fun hr src r hρ he hc => .inl ?_) fun _ hs => absurd hs (hidle hd)
    by_cases hsrc : src = src₀
    · subst hsrc
      rw [hk] at hρ
      cases hρ
      refine ⟨r', ?_, hr'.2.trans he, .inr ⟨_, _, rfl⟩⟩
      rw [live_update hl, Function.update_self, Option.filter_eq_some_iff]
      exact ⟨rfl, by rw [hr'.1]; rfl⟩
    · refine ⟨r, hother hl hsrc hρ, he, .inl ?_⟩
      exact fun ha => hsrc (Option.some.inj ha).symm
  -- an endpoint whose route is being closed is not this one
  | @beginFailed src₀ hd hl =>
    refine h.step hready (fun hr src r hρ he hc => .inl ⟨r, ?_, he, .inl fun ha => by cases ha⟩) ?_
    · have hne : src ≠ src₀ := by
        rintro rfl
        rw [hd] at hc
        rcases hc with hc | ⟨_, _, hc⟩
        · exact hc rfl
        · cases hc
      rcases hl with hl | ⟨hl, -⟩
      · exact hother hl hne hρ
      · rw [live_congr hl]
        exact hρ
    · intro _ hs
      rw [hd] at hs
      cases hs
  | @chunkFailed src₀ o hd hl =>
    refine h.step hready (fun hr src r hρ he hc => .inl ⟨r, ?_, he, .inl fun ha => by cases ha⟩) ?_
    · have hne : src ≠ src₀ := by
        rintro rfl
        rw [hd] at hc
        rcases hc with hc | ⟨_, _, hc⟩
        · exact hc rfl
        · cases hc
      rcases hl with hl | ⟨hl, -⟩
      · exact hother hl hne hρ
      · rw [live_congr hl]
        exact hρ
    · intro _ hs
      rw [hd] at hs
      cases hs

theorem sweep (h : Accounted x .idle after c endpoint) (hinv : x.clients.Inv)
    (hroutes : x.routes.Inv)
    (hready : x'.clients.IsReady endpoint.targetId → x.clients.IsReady endpoint.targetId)
    (hleft : ¬x.clients.IsReady c) (hx : x'.routes = (x.routes.abortClient c fileRouteCapacity).1) :
    Accounted x' (.owes ((x.routes.abortClient c fileRouteCapacity).2.filterMap
      FileRouteAbortAction.error?)) (after ++ evs) c endpoint := by
  refine h.step hready (fun hr src r hl he _ => ?_) fun _ hs => by cases hs
  by_cases hc : c = invalidClientId
  · refine .inl ⟨r, ?_, he, .inl fun ha => by cases ha⟩
    rw [hx, abortClient, if_pos hc]
    exact hl
  · right
    obtain ⟨i, login, hlogin, hlr, hid⟩ := hready hr
    refine (mem_abortClient_errors hroutes hc).mpr ⟨src, r, hl, ?_, ?_, he.symm⟩
    · intro h0
      refine (hinv.login_id_lt hlogin).1 ?_
      rw [hid, ← he]
      exact h0
    · intro hself
      refine hleft ⟨i, login, hlogin, hlr, ?_⟩
      rw [hid, ← he]
      exact hself

end Accounted

def Accounts (x : Shared) (log : List Event) : Prop :=
  ∀ before after c r payload o,
    log = before ++ .did c (.queueFrame r .fileBegin payload) (.ok ()) :: after →
    readTransferId (FrameType.fileBegin.toByte :: payload) = some o →
    Accounted x (monitor log c).duty after c { targetId := r, outboundTransferId := o }

/-- A frame that is refused, with memory and a working eventfd, has no ready receiver. -/
theorem AllocOk.not_isReady {s : Server} {l : Label} (h : AllocOk s l) (hwf : s.Wf) {r : ClientId}
    {type : FrameType} {payload : Bytes} {e : Errno} (hlen : payload.length ≤ frameMaxSize - 1)
    (he : (perform l.2.libc s.shared (.queueFrame r type payload)).1 = .error e) :
    ¬(perform l.2.libc s.shared (.queueFrame r type payload)).2.clients.IsReady r := by
  obtain ⟨⟨a, haddr, hfree⟩, hfd⟩ := h
  simp only [perform, Shared.onClients, haddr, hfd] at he ⊢
  exact hwf.clients.queueFrame_error hfree hlen (Prod.ext he rfl)

section

variable {s : Server} {l : Label} {x' : Shared} {evs after : List Event} {c : ClientId}
  {endpoint : FileRouteEndpoint}

theorem Accounted.effect (h : Accounted s.shared (monitor s.log c).duty after c endpoint)
    (hr : server.Reach AllocOk s) (hok : AllocOk s l)
    (hqueued : ∃ e ∈ s.log, e.Queues endpoint.targetId)
    (heff : Effect l.2.libc s.shared s.log x' evs) :
    Accounted x' (monitor (s.log ++ evs) c).duty (after ++ evs) c endpoint := by
  have hwf := Server.wf_of_reach hr
  have halign := Server.aligned_of_reach hr
  have hleft := Server.left_of_reach hr
  obtain ⟨e, he, hq⟩ := hqueued
  cases heff with
  | pass hroutes hc hevs =>
    rw [monitor_append_of_none hevs]
    exact h.frame (hc.isReady he hq) fun _ src r hr _ => hroutes ▸ hr
  | received u frame hm _ _ =>
    by_cases hu : u.id = c
    · subst hu
      rw [hm] at h
      rw [monitor_concat, Monitor.event, if_pos rfl]
      exact h.frame id fun _ src r hr _ => hr
    · rw [monitor_of_ne rfl hu]
      exact h.frame id fun _ src r hr _ => hr
  | abort u hroutes hc hm =>
    by_cases hu : u.id = c
    · subst hu
      rw [hm] at h
      rw [monitor_concat, Monitor.event, if_pos rfl]
      exact h.frame (hc.isReady he hq) fun _ src r hr _ => hroutes ▸ hr
    · rw [monitor_of_ne rfl hu]
      exact h.frame (hc.isReady he hq) fun _ src r hr _ => hroutes ▸ hr
  | returned u hm =>
    by_cases hu : u.id = c
    · subst hu
      rw [monitor_concat, Monitor.event, if_pos rfl]
      refine h.step id (fun _ src r hr he _ => .inl ⟨r, hr, he, .inl fun ha => by cases ha⟩) ?_
      intro _ hs
      rcases hm with ⟨hd, -⟩ | hd <;> rw [hd] at hs <;> cases hs
    · rw [monitor_of_ne rfl hu]
      exact h.frame id fun _ src r hr _ => hr
  | did u o hl ha =>
    have hev := (perform_clients hwf.clients l.2.libc o).2
    by_cases hu : u.id = c
    · subst hu
      rw [monitor_did_self]
      rcases did_cases hwf.routes l.2.libc ha with ⟨r, type, payload, rfl⟩ | ⟨rfl, hd, hcall⟩ |
        ⟨-, ⟨hroutes, hd⟩ | hstep⟩
      · refine h.queue ?_ (halign.forwards u.id) hev.isReady ?_ (queue_cases ha)
        · rfl
        · exact fun err herr hlen => hok.not_isReady hwf hlen herr
      -- the sweep of the client itself pays for all of its routes at once
      · rw [hd] at h
        refine h.sweep hwf.clients hwf.routes hev.isReady
          (hleft.not_isReady hwf (halign.abort_logged u.id hcall)) ?_
        simp only [perform, Shared.onRoutes]
      · rw [show ((monitor s.log u.id).next u.id o (perform l.2.libc s.shared o).1).duty = _
          from hd]
        exact h.frame hev.isReady fun _ src r hr _ => hroutes ▸ hr
      · exact h.route hwf.clients hev.isReady hstep
    · rw [monitor_did_of_ne hu]
      rcases did_cases hwf.routes l.2.libc ha with ⟨r, type, payload, rfl⟩ | ⟨rfl, hd, hcall⟩ |
        ⟨-, ⟨hroutes, hd⟩ | hstep⟩
      · exact h.frame hev.isReady fun _ src r hr _ => hr
      -- the sweep of another client takes the route only if that is its recipient
      · refine h.frame hev.isReady fun hready src r hr he => ?_
        have hx : (perform l.2.libc s.shared (.routesAbortClient u.id fileRouteCapacity)).2.routes =
            (s.shared.routes.abortClient u.id fileRouteCapacity).1 := by
          simp only [perform, Shared.onRoutes]
        rw [hx]
        rcases abortClient_live_other hwf.routes fileRouteCapacity (k := (c, src)) (Ne.symm hu) with
          hsame | ⟨-, r', hr', ht⟩
        · rw [hsame]
          exact hr
        · rw [hr] at hr'
          cases hr'
          have htgt : endpoint.targetId = u.id := by
            rw [← he]
            exact ht
          refine absurd (hev.isReady hready) ?_
          rw [htgt]
          exact hleft.not_isReady hwf (halign.abort_logged u.id hcall)
      · exact h.frame hev.isReady fun _ src r hr _ => hroutes ▸ hr
      · exact h.frame hev.isReady fun _ src r hr _ => (hstep.live_other (Ne.symm hu)).trans hr

theorem Accounted.begun (hr : server.Reach AllocOk s) {u : Session} {r : ClientId} {payload : Bytes}
    {o : UInt32} (ha : (monitor s.log u.id).allow u.id u.username
      (.queueFrame r .fileBegin payload))
    (hid : readTransferId (FrameType.fileBegin.toByte :: payload) = some o)
    (hanswer : (perform l.2.libc s.shared (.queueFrame r .fileBegin payload)).1 = .ok ()) :
    Accounted (perform l.2.libc s.shared (.queueFrame r .fileBegin payload)).2
      ((monitor s.log u.id).nextDuty (.queueFrame r .fileBegin payload) (.ok ())) [] u.id
      { targetId := r, outboundTransferId := o } := by
  have hwf := Server.wf_of_reach hr
  obtain ⟨src, endpoint, b, hd, rfl, henc⟩ := ha
  have hid' := (decodeBegin_some (decodeBegin_encodeBegin henc)).2.1
  rw [hid] at hid'
  cases hid'
  simp only [Monitor.nextDuty, hd, if_true, Monitor.afterForward]
  rcases (Server.aligned_of_reach hr).begins u.id src endpoint b hd with ⟨ρ, hρ, rfl⟩ | ⟨-, habort⟩
  · exact .inr (.inr (.inl ⟨src, ρ, hρ, rfl, .inl fun ha => by cases ha⟩))
  · exact absurd (perform_queueFrame_ok hwf.clients hanswer)
      ((Server.left_of_reach hr).not_isReady hwf habort)

end

theorem Server.accounts_of_reach {s : Server} (hs : server.Reach AllocOk s) :
    Accounts s.shared s.log := by
  refine Server.effect_invariant (P := Accounts) ?_ ?_ hs
  · intro before after c r payload o hlog
    cases (List.append_eq_nil_iff.mp hlog.symm).2
  · intro s l x' evs hr hok heff hold before after c r payload o hlog hid
    rcases split_append hlog with ⟨after', hlog', rfl⟩ | ⟨mid, rfl, hevs⟩
    · refine (hold before after' c r payload o hlog' hid).effect hr hok ?_ heff
      exact ⟨_, by rw [hlog']; simp, c, .fileBegin, payload, rfl⟩
    · have hsingle : ∀ {e : Event}, evs = [e] →
          mid = [] ∧ .did c (.queueFrame r .fileBegin payload) (.ok ()) = e ∧ after = [] := by
        intro e he
        rw [he] at hevs
        rcases List.append_eq_singleton_iff.mp hevs.symm with ⟨hm, hd⟩ | ⟨-, hd⟩
        · exact ⟨hm, List.cons.inj hd⟩
        · cases hd
      cases heff with
      | pass _ _ hnone =>
        cases hnone (.did c (.queueFrame r .fileBegin payload) (.ok ())) (by rw [hevs]; simp)
      | received => cases (hsingle rfl).2.1
      | abort => cases (hsingle rfl).2.1
      | returned => cases (hsingle rfl).2.1
      | did u o' hl ha =>
        obtain ⟨rfl, heq, rfl⟩ := hsingle rfl
        obtain ⟨rfl, rfl, hr'⟩ := Event.did.inj heq
        have hanswer := eq_of_heq hr'
        rw [monitor_did_self, ← hanswer]
        exact Accounted.begun hr ha hid hanswer.symm

/-- With memory and working eventfds, in every interleaving: once a BEGIN has been queued to
`r`, the route it was sent for is no longer live, and the calls that ended a route there have
returned, an END or an ERROR was queued to `r` afterwards, or `r` is not active and ready. -/
theorem no_orphaned_transfer {s : Server} (hs : server.Reach AllocOk s)
    {before after : List Event} {c r : ClientId} {payload : Bytes} {o : UInt32}
    (hlog : s.log = before ++ .did c (.queueFrame r .fileBegin payload) (.ok ()) :: after)
    (hid : readTransferId (FrameType.fileBegin.toByte :: payload) = some o)
    (hlive : ∀ i, (s.shared.routes.routes i).Live →
      (s.shared.routes.routes i).outboundTransferId = o →
      (s.shared.routes.routes i).targetId = r → (s.shared.routes.routes i).senderId ≠ c)
    (hret : ∀ b c' op answer a, s.log = b ++ .did c' op answer :: a →
      (Event.did c' op answer).EndsRoute { targetId := r, outboundTransferId := o } →
      .returned c' ∈ a) :
    Ended after r o ∨ ∀ i, (s.shared.clients.clients i).id = r →
      ¬((s.shared.clients.clients i).active = true ∧
        (s.shared.clients.clients i).ready = true) := by
  rcases Server.accounts_of_reach hs before after c r payload o hlog hid with
    h | h | ⟨src, ρ, hρ, he, -⟩ | h
  · exact .inl h
  · refine .inr fun i hi ⟨hact, hready⟩ => h ⟨i, _, ClientManager.login_of_active hact, hready, hi⟩
  · obtain ⟨hlook, hdisc⟩ := live_eq_some.mp hρ
    obtain ⟨i, ⟨hact, hs', -⟩, rfl⟩ := (lookup_eq_some (Server.wf_of_reach hs).routes).mp hlook
    exact absurd hs' (hlive i ⟨hact, hdisc⟩ (congrArg FileRouteEndpoint.outboundTransferId he)
      (congrArg FileRouteEndpoint.targetId he))
  · obtain ⟨b, op, answer, a, hsplit, hno, hyes, hnot, -⟩ := monitor_since (P := fun m =>
      { targetId := r, outboundTransferId := o } ∈ m.duty.sends) (fun _ hm => by cases hm) h
    exact absurd (hret b c op answer a hsplit (endsRoute_of_sends hno hyes)) hnot

/-- Every operation that ends a route to `endpoint` is followed by the return of its call. -/
def callsReturned (endpoint : FileRouteEndpoint) : List Event → Bool
  | [] => true
  | e :: rest => (!decide (e.EndsRoute endpoint) || rest.any fun e' =>
      match e', e.client with
      | .returned c', some c => c' == c
      | _, _ => false) && callsReturned endpoint rest

theorem callsReturned_spec {endpoint : FileRouteEndpoint} {log : List Event}
    (h : callsReturned endpoint log = true) {b a : List Event} {c : ClientId} {op : Op}
    {answer : op.Resp} (hlog : log = b ++ .did c op answer :: a)
    (he : (Event.did c op answer).EndsRoute endpoint) : .returned c ∈ a := by
  subst hlog
  induction b with
  | nil =>
    rw [List.nil_append, callsReturned, Bool.and_eq_true, Bool.or_eq_true] at h
    rcases h.1 with h | h
    · simp [he] at h
    · obtain ⟨e', hmem, hmatch⟩ := List.any_eq_true.mp h
      cases e' with
      | returned c' =>
        simp only [Event.client, beq_iff_eq] at hmatch
        exact hmatch ▸ hmem
      | _ => cases hmatch
  | cons e b ih =>
    rw [List.cons_append, callsReturned, Bool.and_eq_true] at h
    exact ih h.2

/-- A transfer that its sender ends too early. -/
theorem no_orphaned_transfer_incomplete : ∃ s before after payload,
    server.Reach AllocOk s ∧
    s.log = before ++ .did 1 (.queueFrame 2 .fileBegin payload) (.ok ()) :: after ∧
    (Ended after 2 1 ∨ ∀ i, (s.shared.clients.clients i).id = 2 →
      ¬((s.shared.clients.clients i).active = true ∧
        (s.shared.clients.clients i).ready = true)) := by
  let payload := writeU32 1 ++ writeU64 3 ++ writeU16 3 ++ writeU16 1 ++ ascii "annf"
  have hrun : (server.runOf AllocOk server.init (addressed (loginLabels 0 (ascii "ann") ++
      loginLabels 1 (ascii "bob") ++
      frameLabels 0 ([0] ++ writeU32 9 ++ writeU64 3 ++ writeU16 3 ++ writeU16 1 ++ ascii "bobf") ++
      stepLabels 0 [none, none, none, none] ++ frameLabels 0 ([2] ++ writeU32 9) ++
      stepLabels 0 [none, none, none, none]))).any (fun s =>
        decide (s.log[5]?.bind Event.queues = some (1, 2, .fileBegin, payload)) &&
        ((List.finRange fileRouteCapacity).all fun i => !(s.shared.routes.routes i).active) &&
        callsReturned { targetId := 2, outboundTransferId := 1 } s.log) = true := by
    decide +kernel
  rw [Option.any_eq_true] at hrun
  obtain ⟨s, hs, hcheck⟩ := hrun
  simp only [Bool.and_eq_true, decide_eq_true_eq, List.all_eq_true, Bool.not_eq_true'] at hcheck
  obtain ⟨⟨hqueued, hinactive⟩, hreturned⟩ := hcheck
  have hreach := Transition.System.Reach.runOf .init hs
  obtain ⟨e, he, hq⟩ := Option.bind_eq_some_iff.mp hqueued
  obtain ⟨before, after, hlog⟩ := List.append_of_mem (List.mem_of_getElem? he)
  rw [Event.queues_eq_some hq] at hlog
  refine ⟨s, before, after, payload, hreach, hlog, no_orphaned_transfer hreach hlog rfl ?_ ?_⟩
  · intro i hlive
    have hact := hlive.1
    rw [hinactive i (List.mem_finRange i)] at hact
    cases hact
  · exact fun b c' op answer a hsplit hends => callsReturned_spec hreturned hsplit hends

end CipherChat
