import CipherChat.Calls

/-!
# What a call does to the routes

The operations on the routes that the discipline allows, by what they do to the map of
routes and what they leave the call to do.
-/

namespace CipherChat

open FileRoutes

/-- The route that `file_routes_add` opens. -/
def newRoute (c : ClientId) (src : UInt32) (tgt : ClientId) (o : UInt32) (size : UInt64) :
    FileRoute :=
  { active := true, senderId := c, targetId := tgt, sourceTransferId := src,
    outboundTransferId := o, expectedSize := size }

/-- The call is for a frame. -/
def Monitor.InFrame (m : Monitor) : Prop := ∃ frame, m.call = .frame frame

/-- The routes and the duty after an operation of client `c` on one of its routes. -/
inductive RouteStep (t : FileRoutes) (c : ClientId) (m : Monitor) (t' : FileRoutes) : Duty → Prop
  /-- There was nothing to end. -/
  | vacant {src : UInt32} {v : Option FileRoute} (hf : m.InFrame)
      (hd : m.duty = .idle) (hk : t.live (c, src) = none)
      (hl : t'.lookup = Function.update t.lookup (c, src) v) (hv : ∀ r ∈ v, r.discard = true) :
      RouteStep t c m t' (.owes [])
  | ended {src : UInt32} {v : Option FileRoute} {r : FileRoute} {d : Duty}
      (hf : m.InFrame) (hd : m.duty = .idle) (hk : t.live (c, src) = some r)
      (hl : t'.lookup = Function.update t.lookup (c, src) v) (hv : ∀ r ∈ v, r.discard = true)
      (hd' : d = owe (copyEndpoint r) ∨ d = .endForward (copyEndpoint r)) : RouteStep t c m t' d
  | opened {src o : UInt32} {tgt : ClientId} {b : FileBeginFrame}
      (hf : m.InFrame) (hd : m.duty = .idle) (hk : t.lookup (c, src) = none) (ht : tgt ≠ c)
      (ho : t.inUse o = false)
      (hl : t'.lookup =
      Function.update t.lookup (c, src) (some (newRoute c src tgt o b.fileSize))) :
      RouteStep t c m t' (.beginForward src { targetId := tgt, outboundTransferId := o } b)
  | advanced {src : UInt32} {r r' : FileRoute} {data : Bytes}
      (hf : m.InFrame) (hd : m.duty = .idle) (hk : t.live (c, src) = some r)
      (hl : t'.lookup = Function.update t.lookup (c, src) (some r'))
      (hr' : r'.discard = false ∧ copyEndpoint r' = copyEndpoint r) :
      RouteStep t c m t' (.chunkForward src (copyEndpoint r) data)
  | beginFailed {src : UInt32} (hd : m.duty = .beginFailed src)
      (hl : t'.lookup = Function.update t.lookup (c, src) (some (makeDiscardRoute c src)) ∨
        t'.lookup = t.lookup ∧ t.lookup (c, src) = none) : RouteStep t c m t' (.owes [])
  | chunkFailed {src o : UInt32} (hd : m.duty = .chunkFailed src o)
      (hl : t'.lookup = Function.update t.lookup (c, src) (some (makeDiscardRoute c src)) ∨
        t'.lookup = t.lookup ∧ ∀ r, t.live (c, src) = some r → r.outboundTransferId ≠ o) :
      RouteStep t c m t' (.owes [])

section

variable {t t' : FileRoutes} {c : ClientId} {m : Monitor} {name : Bytes} {src : UInt32}

theorem lookup_self_update (t : FileRoutes) (k : Key) :
    t.lookup = Function.update t.lookup k (t.lookup k) := (Function.update_eq_self _ _).symm

theorem discard_of_none {k : Key} (hk : t.lookup k = none) : ∀ r ∈ t.lookup k,
    r.discard = true := by
  intro r hr
  rw [hk] at hr
  cases hr

theorem routeStep_absent {d : Duty} (hf : m.InFrame) (hd : m.duty = .idle)
    (hk : t.lookup (c, src) = none)
    (hl : t'.lookup = t.lookup ∨
      t'.lookup = Function.update t.lookup (c, src) (some (makeDiscardRoute c src)))
    (hd' : d = .owes []) : RouteStep t c m t' d := by
  subst hd'
  have hlive : t.live (c, src) = none := live_eq_none (discard_of_none hk)
  rcases hl with hl | hl
  · exact .vacant hf hd hlive (hl.trans (lookup_self_update t (c, src))) (discard_of_none hk)
  · exact .vacant hf hd hlive hl fun r hr => by cases hr; rfl

theorem routeStep_add {tgt : ClientId} {size : UInt64} {discard : Bool} {answer : AddAnswer}
    (h : Added t c src tgt size discard t' answer)
    (ha : m.allow c name (.routesAdd c src tgt size discard)) :
    RouteStep t c m t' (m.nextDuty (.routesAdd c src tgt size discard) answer) := by
  obtain ⟨-, hd, frame, b, hc, hb, rfl, rfl, -, hdiscard⟩ := ha
  have hf : m.InFrame := ⟨frame, hc⟩
  cases h with
  | @duplicate _ r hk hl hn =>
    cases hdisc : r.discard with
    | true =>
      have hlive : t.live (c, b.transferId) = none := live_eq_none fun r' hr' => by
        rw [hk] at hr'
        cases hr'
        exact hdisc
      exact .vacant hf hd hlive hl fun r hr => by cases hr; rfl
    | false =>
      exact .ended hf hd (live_eq_some.mpr ⟨hk, hdisc⟩) hl (fun r hr => by cases hr; rfl) (.inl rfl)
  | full hk => exact routeStep_absent hf hd hk (.inl rfl) rfl
  | unavailable hk ha hl => exact routeStep_absent hf hd hk (.inl hl) rfl
  | discard hk hdis hl hn => exact routeStep_absent hf hd hk (.inr hl) rfl
  | @ready _ o hk hdis ho ho0 hl hn =>
    simp only [Monitor.nextDuty, hc, hb]
    rw [hdis] at hdiscard
    have htgt : tgt ≠ c := by
      simpa using (Bool.or_eq_false_iff.mp hdiscard.symm).2
    refine .opened hf hd hk htgt ?_ hl
    rcases halloc : t.allocateOutboundId with ⟨o', t₁⟩
    rw [halloc] at ho
    subst ho
    exact allocateOutboundId_fresh halloc ho0

theorem routeStep_quarantine {keep : Bool} {answer : QuarantineAnswer}
    (h : Quarantined t c src keep t' answer)
    (ha : m.allow c name (.routesQuarantine c src keep)) :
    RouteStep t c m t' (m.nextDuty (.routesQuarantine c src keep) answer) := by
  obtain ⟨-, ⟨hd, rfl⟩ | ⟨hd, frame, hc, hid⟩⟩ := ha
  · simp only [Monitor.nextDuty, hd]
    cases h with
    | found hk hl hn => exact .beginFailed hd (.inl hl)
    | absent hk hl hn =>
      rcases hl with hl | hl
      · exact .beginFailed hd (.inr ⟨hl, hk⟩)
      · exact .beginFailed hd (.inl hl)
  · have hf : m.InFrame := ⟨frame, hc⟩
    simp only [Monitor.nextDuty, hd]
    cases h with
    | @found r hk hl hn =>
      have hv : ∀ r' ∈ (if keep = true then some (makeDiscardRoute c src) else none),
          r'.discard = true := by
        intro r' hr'
        cases keep with
        | false => cases hr'
        | true =>
          cases hr'
          rfl
      cases hdisc : r.discard with
      | true =>
        refine .vacant hf hd (live_eq_none fun r' hr' => ?_) hl hv
        rw [hk] at hr'
        cases hr'
        exact hdisc
      | false => exact .ended hf hd (live_eq_some.mpr ⟨hk, hdisc⟩) hl hv (.inl rfl)
    | absent hk hl hn => exact routeStep_absent hf hd hk hl rfl

theorem routeStep_acceptChunk {len : UInt64} {answer : ChunkAnswer}
    (h : Chunked t c src len t' answer) (ha : m.allow c name (.routesAcceptChunk c src len)) :
    RouteStep t c m t' (m.nextDuty (.routesAcceptChunk c src len) answer) := by
  obtain ⟨-, hd, frame, chunk, hc, hchunk, rfl, rfl⟩ := ha
  have hf : m.InFrame := ⟨frame, hc⟩
  simp only [Monitor.nextDuty, hc]
  cases h with
  | missing hk hl hn => exact routeStep_absent hf hd hk hl rfl
  | @discard r hk hdisc =>
    have hall : ∀ r' ∈ t.lookup (c, chunk.transferId), r'.discard = true := by
      intro r' hr'
      rw [hk] at hr'
      cases hr'
      exact hdisc
    exact .vacant hf hd (live_eq_none hall) (lookup_self_update t _) hall
  | overrun hk hl hn => exact .ended hf hd hk hl (fun r hr => by cases hr; rfl) (.inl rfl)
  | ready hk hr' hlen hle hl hn =>
    simp only [hchunk]
    refine .advanced hf hd hk hl ⟨?_, ?_⟩
    · rw [hr']
      exact (live_eq_some.mp hk).2
    · rw [hr']
      rfl

theorem routeStep_finish {validate : Bool} {answer : FinishAnswer}
    (h : Finished t c src validate t' answer) (ha : m.allow c name (.routesFinish c src validate)) :
    RouteStep t c m t' (m.nextDuty (.routesFinish c src validate) answer) := by
  obtain ⟨-, hd, frame, hc, hframe⟩ := ha
  have hf : m.InFrame := ⟨frame, hc⟩
  simp only [Monitor.nextDuty]
  cases h with
  | missing hk => exact routeStep_absent hf hd hk (.inl rfl) rfl
  | @discard _ r hk hdisc hl hn =>
    refine .vacant hf hd (live_eq_none fun r' hr' => ?_) hl fun r hr => by cases hr
    rw [hk] at hr'
    cases hr'
    exact hdisc
  | @finished _ r hk hl hn =>
    refine .ended hf hd hk hl (fun r hr => by cases hr) ?_
    by_cases hshort : validate = true ∧ r.forwardedSize ≠ r.expectedSize
    · rw [if_pos hshort]
      exact .inl rfl
    · rw [if_neg hshort]
      cases validate with
      | true => exact .inr rfl
      | false => exact .inl rfl

theorem routeStep_mark {o : UInt32} {answer : Bool} (h : Marked t c src o t' answer)
    (ha : m.allow c name (.routesMarkForwardFailed c src o)) : RouteStep t c m t' (.owes []) := by
  obtain ⟨-, hd⟩ := ha
  cases h with
  | converted hk ho hl hn => exact .chunkFailed hd (.inl hl)
  | kept hk => exact .chunkFailed hd (.inr ⟨rfl, hk⟩)

/-- An operation queues a frame, is the sweep of an abort, leaves routes and duty alone, or
is a step of one route. -/
theorem did_cases {x : Shared} (hinv : x.routes.Inv) (libc : Libc) {o : Op}
    (ha : m.allow c name o) :
    (∃ r type payload, o = .queueFrame r type payload) ∨
    (o = .routesAbortClient c fileRouteCapacity ∧ m.duty = .idle ∧ m.call = .abort) ∨
    (∀ r capacity, o ≠ .routesAbortClient r capacity) ∧
      ((perform libc x o).2.routes = x.routes ∧ m.nextDuty o (perform libc x o).1 = m.duty ∨
      RouteStep x.routes c m (perform libc x o).2.routes (m.nextDuty o (perform libc x o).1)) := by
  cases o with
  | queueFrame r type payload => exact .inl ⟨r, type, payload, rfl⟩
  | findClientId name => exact .inr (.inr ⟨(fun _ _ h => by cases h), .inl ⟨rfl, rfl⟩⟩)
  | registerClientPublicKey r key =>
    refine .inr (.inr ⟨(fun _ _ h => by cases h), .inl ⟨?_, rfl⟩⟩)
    simp only [perform, Shared.onClients]
  | getClientPublicKey r => exact .inr (.inr ⟨(fun _ _ h => by cases h), .inl ⟨rfl, rfl⟩⟩)
  | recipients r => exact .inr (.inr ⟨(fun _ _ h => by cases h), .inl ⟨rfl, rfl⟩⟩)
  | readyNames => exact .inr (.inr ⟨(fun _ _ h => by cases h), .inl ⟨rfl, rfl⟩⟩)
  | routesAdd s src tgt size discard =>
    obtain rfl := ha.1
    simp only [perform, Shared.onRoutes]
    exact .inr (.inr ⟨(fun _ _ h => by cases h),
      .inr (routeStep_add (add_added hinv s src tgt size discard) ha)⟩)
  | routesQuarantine s src keep =>
    obtain rfl := ha.1
    simp only [perform, Shared.onRoutes]
    exact .inr (.inr ⟨(fun _ _ h => by cases h),
      .inr (routeStep_quarantine (quarantine_quarantined hinv s src keep) ha)⟩)
  | routesAcceptChunk s src len =>
    obtain rfl := ha.1
    simp only [perform, Shared.onRoutes]
    exact .inr (.inr ⟨(fun _ _ h => by cases h),
      .inr (routeStep_acceptChunk (acceptChunk_chunked hinv s src len) ha)⟩)
  | routesMarkForwardFailed s src o =>
    obtain rfl := ha.1
    simp only [perform, Shared.onRoutes]
    exact .inr (.inr ⟨(fun _ _ h => by cases h),
      .inr (routeStep_mark (markForwardFailed_marked hinv s src o) ha)⟩)
  | routesFinish s src validate =>
    obtain rfl := ha.1
    simp only [perform, Shared.onRoutes]
    exact .inr (.inr ⟨(fun _ _ h => by cases h),
      .inr (routeStep_finish (finish_finished hinv s src validate) ha)⟩)
  | routesAbortClient r capacity =>
    obtain ⟨rfl, hd, hcall, rfl⟩ := ha
    exact .inr (.inl ⟨rfl, hd, hcall⟩)

end

/-- `handle_file_begin` is between the `file_routes_add` of the route `src` and the end of
its forwarding step. -/
def Monitor.Beginning (m : Monitor) (src : UInt32) : Prop :=
  (∃ endpoint b, m.duty = .beginForward src endpoint b) ∨ m.duty = .beginFailed src

theorem Monitor.Beginning.about {m : Monitor} {src : UInt32} (h : m.Beginning src) :
    m.duty.about = some src := by
  rcases h with ⟨endpoint, b, hd⟩ | hd <;> rw [hd] <;> rfl

theorem Monitor.not_beginning_of_idle {m : Monitor} (h : m.duty = .idle) (src : UInt32) :
    ¬m.Beginning src := by
  intro hb
  have := hb.about
  rw [h] at this
  cases this

namespace RouteStep

variable {t t' : FileRoutes} {c c' : ClientId} {m : Monitor} {src : UInt32} {d : Duty}
  {r : FileRoute}

theorem lookup_other (h : RouteStep t c m t' d) (hne : c' ≠ c) :
    t'.lookup (c', src) = t.lookup (c', src) := by
  have hupdate : ∀ {src₀ : UInt32} {v : Option FileRoute},
      t'.lookup = Function.update t.lookup (c, src₀) v → t'.lookup (c', src) =
        t.lookup (c', src) := by
    intro src₀ v hl
    rw [hl, Function.update_of_ne fun heq => hne (congrArg Prod.fst heq)]
  cases h with
  | vacant _ _ _ hl _ => exact hupdate hl
  | ended _ _ _ hl _ _ => exact hupdate hl
  | opened _ _ _ _ _ hl => exact hupdate hl
  | advanced _ _ _ hl _ => exact hupdate hl
  | beginFailed _ hl =>
    rcases hl with hl | ⟨hl, -⟩
    · exact hupdate hl
    · rw [hl]
  | chunkFailed _ hl =>
    rcases hl with hl | ⟨hl, -⟩
    · exact hupdate hl
    · rw [hl]

theorem live_other (h : RouteStep t c m t' d) (hne : c' ≠ c) :
    t'.live (c', src) = t.live (c', src) := by
  rw [live, live, h.lookup_other hne]

theorem live_own (h : RouteStep t c m t' d) (hr : t'.live (c, src) = some r) :
    (∃ b, d = .beginForward src (copyEndpoint r) b) ∨ ¬m.Beginning src ∧
      ∃ r₀, t.live (c, src) = some r₀ ∧ copyEndpoint r = copyEndpoint r₀ := by
  have hother : ∀ {src₀ : UInt32} {v : Option FileRoute},
      t'.lookup = Function.update t.lookup (c, src₀) v → src ≠ src₀ →
      t.live (c, src) = some r := by
    intro src₀ v hl hne
    rw [live_update hl, Function.update_of_ne fun heq => hne (congrArg Prod.snd heq)] at hr
    exact hr
  -- a route that has ended is not live any more, so `src` is another id
  have hdead : ∀ {src₀ : UInt32} {v : Option FileRoute},
      t'.lookup = Function.update t.lookup (c, src₀) v → (∀ r ∈ v, r.discard = true) →
      src ≠ src₀ := by
    rintro src₀ v hl hv rfl
    rw [live_ended hl hv, Function.update_self] at hr
    cases hr
  have htomb : ∀ src₀, ∀ r ∈ some (makeDiscardRoute c src₀), r.discard = true := by
    intro src₀ r hr
    cases hr
    rfl
  cases h with
  | vacant _ hd _ hl hv =>
    exact .inr ⟨Monitor.not_beginning_of_idle hd src, r, hother hl (hdead hl hv), rfl⟩
  | ended _ hd _ hl hv _ =>
    exact .inr ⟨Monitor.not_beginning_of_idle hd src, r, hother hl (hdead hl hv), rfl⟩
  | @opened src₀ _ _ b _ hd _ _ _ hl =>
    by_cases hsrc : src = src₀
    · subst hsrc
      rw [live_update hl, Function.update_self] at hr
      cases hr
      exact .inl ⟨b, rfl⟩
    · exact .inr ⟨Monitor.not_beginning_of_idle hd src, r, hother hl hsrc, rfl⟩
  | @advanced src₀ r₀ r' _ _ hd hk hl hr' =>
    refine .inr ⟨Monitor.not_beginning_of_idle hd src, ?_⟩
    by_cases hsrc : src = src₀
    · subst hsrc
      rw [live_update hl, Function.update_self, Option.filter_eq_some_iff] at hr
      cases hr.1
      exact ⟨r₀, hk, hr'.2⟩
    · exact ⟨r, hother hl hsrc, rfl⟩
  | @beginFailed src₀ hd hl =>
    have hne : src ≠ src₀ := by
      -- the failed forward leaves a tombstone, or nothing was there
      rcases hl with hl | ⟨hl, hk⟩
      · exact hdead hl (htomb src₀)
      · rintro rfl
        rw [live_congr hl, live_eq_none (discard_of_none hk)] at hr
        cases hr
    refine .inr ⟨fun hb => ?_, r, ?_, rfl⟩
    · have := hb.about
      rw [hd] at this
      exact hne (Option.some.inj this).symm
    · rcases hl with hl | ⟨hl, -⟩
      · exact hother hl hne
      · rw [live_congr hl] at hr
        exact hr
  | @chunkFailed src₀ _ hd hl =>
    refine .inr ⟨?_, r, ?_, rfl⟩
    · rintro (⟨endpoint, b, hd'⟩ | hd') <;> rw [hd] at hd' <;> cases hd'
    · rcases hl with hl | ⟨hl, -⟩
      · exact hother hl (hdead hl (htomb src₀))
      · rw [live_congr hl] at hr
        exact hr

theorem not_spent (h : RouteStep t c m t' d) (hf : ¬m.InFrame) : m.duty.about ≠ none := by
  cases h with
  | beginFailed hd _ =>
    rw [hd]
    exact fun ha => by cases ha
  | chunkFailed hd _ =>
    rw [hd]
    exact fun ha => by cases ha
  | vacant hf' => exact absurd hf' hf
  | ended hf' => exact absurd hf' hf
  | opened hf' => exact absurd hf' hf
  | advanced hf' => exact absurd hf' hf

theorem begins {endpoint : FileRouteEndpoint} {b : FileBeginFrame}
    (h : RouteStep t c m t' (.beginForward src endpoint b)) :
    ∃ r, t'.live (c, src) = some r ∧ endpoint = copyEndpoint r := by
  generalize hd' : Duty.beginForward src endpoint b = d at h
  cases h with
  | opened _ _ _ _ _ hl =>
    cases hd'
    exact ⟨_, by rw [live_update hl, Function.update_self]; rfl, rfl⟩
  | ended _ _ _ _ _ hd => rcases hd with hd | hd <;> rw [hd] at hd' <;> cases hd'
  | _ => cases hd'

theorem forwards {endpoint : FileRouteEndpoint} {data : Bytes}
    (h : RouteStep t c m t' (.chunkForward src endpoint data)) (hr : t'.live (c, src) = some r) :
    endpoint = copyEndpoint r := by
  generalize hd' : Duty.chunkForward src endpoint data = d at h
  cases h with
  | advanced _ _ _ hl hr' =>
    cases hd'
    rw [live_update hl, Function.update_self, Option.filter_eq_some_iff] at hr
    cases hr.1
    exact hr'.2.symm
  | ended _ _ _ _ _ hd => rcases hd with hd | hd <;> rw [hd] at hd' <;> cases hd'
  | _ => cases hd'

end RouteStep

end CipherChat
