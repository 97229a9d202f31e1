import CipherChat.Alignment
import CipherChat.Handling
import CipherChat.Transfers

/-!
# One client's frames and everybody else

`handle_client_frame` reaches a table and a registry that all clients share, with ids and
names that its client chose.  Whatever the frame holds, the call stays with the client's own
routes, and does nothing to another client but queue frames to it.
-/

namespace CipherChat

open FileRoutes

namespace ClientManager

/-- What an operation may do to a slot: nothing, a frame behind those that are queued, or the
overflow mark on a full queue; the last two with the signal to the owner's worker. -/
inductive Touch (ok : OutgoingFrame → Prop) (m m' : ClientManager) (i : Fin maxClients) : Prop
  | same (hc : m'.clients i = m.clients i) (hq : m'.pending i = m.pending i)
  | queued (frame : OutgoingFrame) (hok : ok frame)
      (hc : m'.clients i =
        { (m.signal i).clients i with outgoing := (m'.clients i).outgoing })
      (hq : m'.pending i = m.pending i ++ [frame])
  | overflow (hfull : maxOutgoingFrames ≤ (m.pending i).length)
      (hc : m'.clients i =
        { (m.signal i).clients i with outgoingFailed := true, ready := false })
      (hq : m'.pending i = m.pending i)

/-- What a whole call may do to a slot. -/
structure Kept (ok : OutgoingFrame → Prop) (m m' : ClientManager) (i : Fin maxClients) :
    Prop where
  active : (m'.clients i).active = (m.clients i).active
  id : (m'.clients i).id = (m.clients i).id
  username : (m'.clients i).username = (m.clients i).username
  publicKey : (m'.clients i).publicKey = (m.clients i).publicKey
  hasPublicKey : (m'.clients i).hasPublicKey = (m.clients i).hasPublicKey
  wakeFd : (m'.clients i).wakeFd.isSome = (m.clients i).wakeFd.isSome
  queued : ∃ frames, m'.pending i = m.pending i ++ frames ∧ ∀ frame ∈ frames, ok frame
  mark : (m'.clients i).ready = (m.clients i).ready ∧
      (m'.clients i).outgoingFailed = (m.clients i).outgoingFailed ∨
    (m'.clients i).ready = false ∧ (m'.clients i).outgoingFailed = true ∧
      maxOutgoingFrames ≤ (m'.pending i).length

variable {ok : OutgoingFrame → Prop} {m m' m'' : ClientManager} {i : Fin maxClients}

theorem signal_self (m : ClientManager) (i : Fin maxClients) : (m.signal i).clients i =
    { m.clients i with wakeFd := (m.clients i).wakeFd.map eventfdWrite } :=
  Function.update_self _ _ _

theorem Kept.refl (m : ClientManager) (i : Fin maxClients) : Kept ok m m i where
  active := rfl
  id := rfl
  username := rfl
  publicKey := rfl
  hasPublicKey := rfl
  wakeFd := rfl
  queued := ⟨[], (List.append_nil _).symm, fun _ h => absurd h List.not_mem_nil⟩
  mark := .inl ⟨rfl, rfl⟩

theorem Touch.kept (h : Touch ok m m' i) : Kept ok m m' i := by
  cases h with
  | same hc hq =>
    exact ⟨by rw [hc], by rw [hc], by rw [hc], by rw [hc], by rw [hc], by rw [hc],
      ⟨[], by rw [hq, List.append_nil], fun _ h => absurd h List.not_mem_nil⟩,
      .inl (by rw [hc]; exact ⟨rfl, rfl⟩)⟩
  | queued frame hok hc hq =>
    rw [signal_self] at hc
    refine ⟨by rw [hc], by rw [hc], by rw [hc], by rw [hc], by rw [hc], ?_, ⟨[frame], hq, ?_⟩,
      .inl (by rw [hc]; exact ⟨rfl, rfl⟩)⟩
    · rw [hc]
      exact Option.isSome_map
    · intro f hf
      rw [List.mem_singleton.mp hf]
      exact hok
  | overflow hfull hc hq =>
    rw [signal_self] at hc
    refine ⟨by rw [hc], by rw [hc], by rw [hc], by rw [hc], by rw [hc], ?_,
      ⟨[], by rw [hq, List.append_nil], fun _ h => absurd h List.not_mem_nil⟩, .inr ?_⟩
    · rw [hc]
      exact Option.isSome_map
    · rw [hc, hq]
      exact ⟨rfl, rfl, hfull⟩

theorem Kept.trans (h : Kept ok m m' i) (h' : Kept ok m' m'' i) : Kept ok m m'' i where
  active := h'.active.trans h.active
  id := h'.id.trans h.id
  username := h'.username.trans h.username
  publicKey := h'.publicKey.trans h.publicKey
  hasPublicKey := h'.hasPublicKey.trans h.hasPublicKey
  wakeFd := h'.wakeFd.trans h.wakeFd
  queued := by
    obtain ⟨frames, hq, hall⟩ := h.queued
    obtain ⟨frames', hq', hall'⟩ := h'.queued
    refine ⟨frames ++ frames', by rw [hq', hq, List.append_assoc], fun frame hmem => ?_⟩
    rcases List.mem_append.mp hmem with hmem | hmem
    · exact hall frame hmem
    · exact hall' frame hmem
  mark := by
    obtain ⟨frames', hq', -⟩ := h'.queued
    rcases h'.mark with ⟨hr', hf'⟩ | hmark
    · rcases h.mark with ⟨hr, hf⟩ | ⟨hr, hf, hfull⟩
      · exact .inl ⟨hr'.trans hr, hf'.trans hf⟩
      · refine .inr ⟨hr'.trans hr, hf'.trans hf, hfull.trans ?_⟩
        rw [hq', List.length_append]
        exact Nat.le_add_right _ _
    · exact .inr hmark

theorem Kept.mono {ok' : OutgoingFrame → Prop} (h : Kept ok m m' i) (hok : ∀ f, ok f → ok' f) :
    Kept ok' m m' i := by
  obtain ⟨frames, hq, hall⟩ := h.queued
  exact { h with queued := ⟨frames, hq, fun f hf => hok f (hall f hf)⟩ }

theorem Inv.pending_eq (h : Inv m) (hc : m'.clients i = m.clients i)
    (hl : m'.login i = m.login i) : m'.pending i = m.pending i := by
  cases ha : (m.clients i).active with
  | true =>
    have ha' : (m'.clients i).active = true := by rw [hc, ha]
    rw [login_of_active ha, login_of_active ha'] at hl
    exact (Login.mk.inj (Option.some.inj hl)).2.2.2.2.2
  | false =>
    have hempty : m.clients i = {} := h.inactive_eq i ha
    rw [pending, pending, hc, hempty]
    rfl

theorem link_clients (j : Fin maxClients) (a : ℕ) (frame : OutgoingFrame) :
    (i ≠ j → (m.link j a frame).2.clients i = m.clients i) ∧
    (maxOutgoingFrames ≤ (m.clients j).outgoing.count →
      (m.link j a frame).1 = .error .ENOBUFS ∧ (m.link j a frame).2.clients j =
        { m.clients j with outgoingFailed := true, ready := false }) ∧
    (¬maxOutgoingFrames ≤ (m.clients j).outgoing.count →
      (m.link j a frame).1 = .ok () ∧ (m.link j a frame).2.clients j =
        { m.clients j with outgoing := ((m.link j a frame).2.clients j).outgoing }) := by
  unfold link
  dsimp only
  split
  · next hfull =>
    exact ⟨fun hne => Function.update_of_ne hne _ _, fun _ => ⟨rfl, Function.update_self _ _ _⟩,
      fun hroom => absurd hfull hroom⟩
  · next hroom =>
    refine ⟨fun hne => Function.update_of_ne hne _ _, fun hfull => absurd hfull hroom,
      fun _ => ⟨rfl, ?_⟩⟩
    simp only [set, Function.update_self]

/-- `queue_frame_to_client_id`: the slot of the recipient, and no other, takes the frame or the
mark. -/
theorem Inv.queueFrame_touch (h : Inv m) (address : Option ℕ) (notified : Option Errno)
    {c : ClientId} {type : FrameType} {payload : Bytes}
    (hok : (m.clients i).id = c → ok ⟨type, payload⟩) :
    Touch ok m (m.queueFrameToClientId address notified c type payload).2 i := by
  unfold queueFrameToClientId
  split
  · exact .same rfl rfl
  split
  · exact .same rfl rfl
  split
  · exact .same rfl rfl
  rename_i a ha
  have hfree : m.heap a = none := by simpa using (Option.filter_eq_some_iff.mp ha).2
  split
  · exact .same rfl rfl
  rename_i j hj
  split
  · exact .same rfl rfl
  obtain ⟨hact, -, hid⟩ := findReady_some hj
  obtain ⟨hsignal, hlogin⟩ := h.signal hact
  have hcount : ((m.signal j).clients j).outgoing.count = (m.pending j).length := by
    rw [signal_self, h.length_pending]
  obtain ⟨hother, hfull, hroom⟩ := link_clients (m := m.signal j) (i := i) j a ⟨type, payload⟩
  obtain ⟨r, m', hlink, -, -, hcases⟩ :=
    hsignal.link (by rw [hlogin, login_of_active hact]) hfree ⟨type, payload⟩
  rw [hlogin] at hcases
  rw [hlink] at hother hfull hroom ⊢
  -- the frame goes to this client or to another
  by_cases hij : i = j
  · subst hij
    by_cases hlen : maxOutgoingFrames ≤ (m.pending i).length
    · obtain ⟨hr, hc'⟩ := hfull (hcount ▸ hlen)
      refine .overflow hlen hc' ?_
      rcases hcases with ⟨hr', -⟩ | ⟨-, hl⟩
      · cases hr.symm.trans hr'
      · have hi := congrFun hl i
        rw [Function.update_self] at hi
        exact (login_some hi).2.2.2.2.2.2
    · obtain ⟨hr, hc'⟩ := hroom (hcount ▸ hlen)
      refine .queued _ (hok hid) hc' ?_
      rcases hcases with ⟨-, hl⟩ | ⟨hr', -⟩
      · have hi := congrFun hl i
        rw [Function.update_self] at hi
        exact (login_some hi).2.2.2.2.2.2
      · cases hr.symm.trans hr'
  · have hsame : m'.clients i = m.clients i :=
      (hother hij).trans (Function.update_of_ne hij _ _)
    refine .same hsame (h.pending_eq hsame ?_)
    rcases hcases with ⟨-, hl⟩ | ⟨-, hl⟩
    · rw [hl, Function.update_of_ne hij]
    · rw [hl, Function.update_of_ne hij]

theorem registerClientPublicKey_touch {c : ClientId} (key : Bytes) (hi : (m.clients i).id ≠ c) :
    Touch ok m (m.registerClientPublicKey c key).2 i := by
  unfold registerClientPublicKey
  split
  · next j hj =>
    split
    · exact .same rfl rfl
    · have hij : i ≠ j := by
        rintro rfl
        exact hi (findReady_some hj).2.2
      have hsame : (m.set j { m.clients j with publicKey := key, hasPublicKey := true }).clients i =
          m.clients i := Function.update_of_ne hij _ _
      refine .same hsame ?_
      rw [pending, pending, hsame]
      rfl
  · exact .same rfl rfl

end ClientManager

/-- The endpoints that a duty is to send to. -/
def Duty.endpoints : Duty → List FileRouteEndpoint
  | .beginForward _ endpoint _ | .chunkForward _ endpoint _ | .endForward endpoint => [endpoint]
  | .owes errors => errors
  | .idle | .beginFailed _ | .chunkFailed _ _ => []

section Endpoints

variable {m : Monitor} {c r : ClientId} {name payload : Bytes} {type : FrameType}
  {answer : Except Errno Unit} {d : Duty} {t t' : FileRoutes}

theorem Monitor.allow_endpoint (ha : m.allow c name (.queueFrame r type payload))
    (ht : type.isFile = true) : ∃ endpoint ∈ m.duty.endpoints, endpoint.targetId = r ∧
      readTransferId (type.toByte :: payload) = some endpoint.outboundTransferId := by
  cases type with
  | fileBegin =>
    obtain ⟨src, endpoint, b, hd, rfl, henc⟩ := ha
    rw [hd]
    exact ⟨endpoint, List.mem_singleton.mpr rfl, rfl, readTransferId_encodeBegin _ henc⟩
  | fileChunk =>
    obtain ⟨src, endpoint, data, hd, rfl, henc⟩ := ha
    rw [hd]
    exact ⟨endpoint, List.mem_singleton.mpr rfl, rfl, readTransferId_encodeChunk _ henc⟩
  | fileEnd =>
    obtain ⟨endpoint, hd, rfl, rfl⟩ := ha
    rw [hd]
    exact ⟨endpoint, List.mem_singleton.mpr rfl, rfl, readTransferId_writeU32 _ _⟩
  | fileError =>
    obtain ⟨endpoint, rest, hd, rfl, rfl⟩ := ha
    rw [hd]
    exact ⟨endpoint, List.mem_cons_self, rfl, readTransferId_writeU32 _ _⟩
  | _ => cases ht

theorem endpoints_afterForward {failed : Duty} (hf : failed.endpoints = [])
    (answer : Except Errno Unit) : (Monitor.afterForward failed answer).endpoints = [] := by
  cases answer with
  | ok _ => rfl
  | error _ => exact hf

theorem QueueStep.endpoints (h : QueueStep m name answer r type payload d) :
    ∀ endpoint ∈ d.endpoints, endpoint ∈ m.duty.endpoints := by
  intro endpoint hmem
  cases h with
  | begin hd _ =>
    rw [endpoints_afterForward rfl] at hmem
    cases hmem
  | chunk hd _ =>
    rw [endpoints_afterForward rfl] at hmem
    cases hmem
  | finish hd => cases hmem
  | error hd =>
    rw [hd]
    exact List.mem_cons_of_mem _ hmem
  | other ht => exact hmem

theorem mem_endpoints_owe {endpoint e : FileRouteEndpoint} (h : e ∈ (owe endpoint).endpoints) :
    e = endpoint := by
  rw [owe, Duty.endpoints] at h
  split at h
  · cases h
  · exact List.mem_singleton.mp h

theorem RouteStep.endpoints (h : RouteStep t c m t' d) : ∀ endpoint ∈ d.endpoints,
    ∃ src route, (t.live (c, src) = some route ∨ t'.live (c, src) = some route) ∧
      copyEndpoint route = endpoint := by
  intro endpoint hmem
  cases h with
  | vacant => cases hmem
  | @ended src _ route _ _ _ hk _ _ hd' =>
    refine ⟨src, route, .inl hk, ?_⟩
    rcases hd' with rfl | rfl
    · exact (mem_endpoints_owe hmem).symm
    · exact (List.mem_singleton.mp hmem).symm
  | @opened src o tgt b _ _ _ _ _ hl =>
    refine ⟨src, newRoute c src tgt o b.fileSize, .inr ?_, (List.mem_singleton.mp hmem).symm⟩
    rw [live_update hl, Function.update_self]
    rfl
  | @advanced src route _ _ _ _ hk => exact ⟨src, route, .inl hk, (List.mem_singleton.mp hmem).symm⟩
  | beginFailed => cases hmem
  | chunkFailed => cases hmem

end Endpoints

section Operations

variable {x : Shared} {m : Monitor} {c : ClientId} {name : Bytes} {o : Op} {libc : Libc}

theorem perform_routes_of_others (ha : m.allow c name o) (hm : m.InFrame)
    (i : Fin fileRouteCapacity) {r : FileRoute} (hr : r.active = true) (hne : r.senderId ≠ c) :
    (perform libc x o).2.routes.routes i = r ↔ x.routes.routes i = r := by
  have hframe : ∀ {src : UInt32} {routes' : Fin fileRouteCapacity → FileRoute},
      Rewrite c src x.routes routes' → (routes' i = r ↔ x.routes.routes i = r) :=
    fun hrewrite => hrewrite.frame i r hr fun hkey => hne hkey.1
  rw [perform_routes]
  cases o with
  | routesAdd s src tgt size discard =>
    obtain rfl := ha.1
    have hkept := hframe (add_rewrite x.routes s src tgt size discard)
    rw [FileRoutes.after]
    exact hkept
  | routesQuarantine s src keep =>
    obtain rfl := ha.1
    have hkept := hframe (quarantine_rewrite x.routes s src keep)
    rw [FileRoutes.after]
    exact hkept
  | routesAcceptChunk s src len =>
    obtain rfl := ha.1
    have hkept := hframe (acceptChunk_rewrite x.routes s src len)
    rw [FileRoutes.after]
    exact hkept
  | routesMarkForwardFailed s src o =>
    obtain rfl := ha.1
    have hkept := hframe (markForwardFailed_rewrite x.routes s src o)
    rw [FileRoutes.after]
    exact hkept
  | routesFinish s src validate =>
    obtain rfl := ha.1
    have hkept := hframe (finish_rewrite x.routes s src validate)
    rw [FileRoutes.after]
    exact hkept
  | routesAbortClient r capacity =>
    obtain ⟨frame, hcall⟩ := hm
    rw [ha.2.2.1] at hcall
    cases hcall
  | _ => exact Iff.rfl

theorem perform_touch (hinv : x.clients.Inv) (ha : m.allow c name o) {i : Fin maxClients}
    (hi : (x.clients.clients i).id ≠ c) {ok : OutgoingFrame → Prop}
    (hok : ∀ type payload, o = .queueFrame (x.clients.clients i).id type payload →
      ok ⟨type, payload⟩) : ClientManager.Touch ok x.clients (perform libc x o).2.clients i := by
  cases o with
  | registerClientPublicKey c' key =>
    obtain rfl := ha.1
    simp only [perform, Shared.onClients]
    exact ClientManager.registerClientPublicKey_touch key hi
  | queueFrame r type payload =>
    simp only [perform, Shared.onClients]
    refine hinv.queueFrame_touch libc.address libc.eventfdWrite fun hid => hok type payload ?_
    rw [hid]
  | _ =>
    simp only [perform, Shared.onRoutes]
    exact .same rfl rfl

end Operations

/-- A file frame to `target` is under the outbound id of a route that client `c` had to
`target` in some state from `s₁` to `t`. -/
def FromOwnRoute (c : ClientId) (s₁ t : Server) (target : ClientId) (frame : OutgoingFrame) :
    Prop :=
  frame.type.isFile = true → ∃ t₀ i, server.Steps s₁ t₀ ∧ server.Steps t₀ t ∧
    (t₀.shared.routes.routes i).Live ∧ (t₀.shared.routes.routes i).senderId = c ∧
    (t₀.shared.routes.routes i).targetId = target ∧
    readTransferId (frame.type.toByte :: frame.payload) =
      some (t₀.shared.routes.routes i).outboundTransferId

/-- The call of client `c` that was entered in `s₁` has not returned. -/
def InCall (c : ClientId) (s₁ t : Server) : Prop :=
  ∃ seg, t.log = s₁.log ++ seg ∧ .returned c ∉ seg

/-- What a duty is to send goes to routes that the client had since `s₁`. -/
def Server.Routed (c : ClientId) (s₁ t : Server) : Prop :=
  ∀ endpoint ∈ (monitor t.log c).duty.endpoints, ∃ t₀ i, server.Steps s₁ t₀ ∧ server.Steps t₀ t ∧
    (t₀.shared.routes.routes i).Live ∧ (t₀.shared.routes.routes i).senderId = c ∧
    copyEndpoint (t₀.shared.routes.routes i) = endpoint

theorem live_slot {t : FileRoutes} (h : FileRoutes.Inv t) {c : ClientId} {src : UInt32}
    {r : FileRoute} (hr : t.live (c, src) = some r) :
    ∃ i, (t.routes i).Live ∧ (t.routes i).senderId = c ∧ t.routes i = r := by
  obtain ⟨hl, hd⟩ := live_eq_some.mp hr
  obtain ⟨i, ⟨ha, hs, -⟩, rfl⟩ := (lookup_eq_some h).mp hl
  exact ⟨i, ⟨ha, hd⟩, hs, rfl⟩

theorem Server.Routed.later {c : ClientId} {s₁ t t' : Server} (h : Server.Routed c s₁ t)
    (htt' : server.Steps t t') (hd : ∀ endpoint ∈ (monitor t'.log c).duty.endpoints,
      endpoint ∈ (monitor t.log c).duty.endpoints) : Server.Routed c s₁ t' := by
  intro endpoint hmem
  obtain ⟨t₀, i, hst₀, ht₀t, hroute⟩ := h endpoint (hd endpoint hmem)
  exact ⟨t₀, i, hst₀, ht₀t.trans htt', hroute⟩

theorem Server.enters_call {s s₁ : Server} {l : Label} {c : ClientId} {frame : Bytes}
    (hstep : server.step s l = some s₁) (hlog : s₁.log = s.log ++ [.received c frame]) :
    s₁.shared = s.shared ∧ (monitor s₁.log c).duty = .idle ∧
      ∃ u w p, u.id = c ∧ s₁.threads l.1 = .handling u w p := by
  obtain ⟨x', t', evs, hturn, rfl⟩ := Server.step_turn hstep
  obtain rfl := List.append_cancel_left hlog
  generalize s.threads l.1 = t at hturn
  cases hturn with
  | @handle u w frame hpc =>
    refine ⟨rfl, ?_, u, w, _, rfl, Function.update_self _ _ _⟩
    rw [monitor_concat, Monitor.event, if_pos rfl]

theorem Server.routed_of_steps {s₁ t : Server} (hs₁ : server.Reachable s₁) {n : ℕ} {u : Session}
    {w : Worker} {p : Handler Bool} (hn : s₁.threads n = .handling u w p)
    (hidle : (monitor s₁.log u.id).duty = .idle) (hst : server.Steps s₁ t)
    (hcall : InCall u.id s₁ t) : (∃ p, t.threads n = .handling u w p) ∧
      Server.Routed u.id s₁ t := by
  have h0 : Server.Routed u.id s₁ s₁ := by
    intro endpoint hmem
    rw [hidle] at hmem
    cases hmem
  have hrouted := Server.during_call (P := fun _ t => Server.Routed u.id s₁ t)
    hs₁ hn h0 ?own ?other hst.of
  case own =>
    intro t env o k seg hrun _ hop hold
    have ht := hs₁.steps hrun
    have hstep := Server.performs hop env
    have ht' : server.Reachable _ := .step ht trivial hstep
    have ha := Server.handling_allow ht hop
    have hinv := (Server.wf_of_reach ht).routes
    have hinv' := (Server.wf_of_reach ht').routes
    have hlater := Transition.System.Steps.refl.tail hstep
    have hduty : ∀ endpoint ∈ (monitor (t.log ++ [.did u.id o (perform env.libc t.shared o).1])
        u.id).duty.endpoints, endpoint ∈
          ((monitor t.log u.id).nextDuty o (perform env.libc t.shared o).1).endpoints := by
      intro endpoint hmem
      rwa [monitor_did_self] at hmem
    rcases did_cases hinv env.libc ha with ⟨r, type, payload, rfl⟩ | ⟨-, -, habort⟩ |
      ⟨-, ⟨-, hsame⟩ | hroute⟩
    -- an error that goes out was owed before
    · exact hold.later hlater fun endpoint hmem => (queue_cases ha).endpoints _ (hduty _ hmem)
    · obtain ⟨frame, -, hframe, -⟩ := Server.handling_frame ht hop
      rw [habort] at hframe
      cases hframe
    · refine hold.later hlater fun endpoint hmem => ?_
      rw [← hsame]
      exact hduty _ hmem
    -- an operation on the table hands over an endpoint that is live then or was
    · intro endpoint hmem
      obtain ⟨src, route, hlive | hlive, rfl⟩ := hroute.endpoints _ (hduty _ hmem)
      · obtain ⟨i, hl, hs, rfl⟩ := live_slot hinv hlive
        exact ⟨t, i, hrun, hlater, hl, hs, rfl⟩
      · obtain ⟨i, hl, hs, hi⟩ := live_slot hinv' hlive
        exact ⟨_, i, hrun.trans hlater, .refl, hl, hs, congrArg copyEndpoint hi⟩
  case other =>
    intro t l t' evs seg _ _ hstep hlog hclient _ hold
    refine hold.later (Transition.System.Steps.refl.tail hstep) fun endpoint hmem => ?_
    rwa [hlog, monitor_append_of_ne hclient] at hmem
  obtain ⟨seg, hlog, hcases⟩ := hrouted
  obtain ⟨seg', hlog', hret⟩ := hcall
  obtain rfl := List.append_cancel_left (hlog.symm.trans hlog')
  exact hcases.resolve_left hret

def SameForOthers (c : ClientId) (t t' : FileRoutes) : Prop :=
  ∀ i r, r.active = true → r.senderId ≠ c → (t'.routes i = r ↔ t.routes i = r)

theorem Server.call_step {s₁ t t' : Server} (hs₁ : server.Reachable s₁) {n : ℕ} {u : Session}
    {w : Worker} {p : Handler Bool} (hn : s₁.threads n = .handling u w p)
    (hidle : (monitor s₁.log u.id).duty = .idle) (hst : server.Steps s₁ t)
    (hcall : InCall u.id s₁ t) {env : Env} (hstep : server.step t (n, env) = some t') :
    SameForOthers u.id t.shared.routes t'.shared.routes ∧
      (∀ r frame result, t'.log = t.log ++ [.did u.id (.queueFrame r frame.type frame.payload)
        result] → FromOwnRoute u.id s₁ t r frame) ∧
      ∀ i, (t.shared.clients.clients i).id ≠ u.id →
        ClientManager.Touch (FromOwnRoute u.id s₁ t (t.shared.clients.clients i).id)
          t.shared.clients t'.shared.clients i := by
  obtain ⟨⟨q, hq⟩, hrouted⟩ := Server.routed_of_steps hs₁ hn hidle hst hcall
  have ht := hs₁.steps hst
  cases q with
  | ret keep =>
    rw [Server.step_of env hq rfl] at hstep
    cases hstep
    refine ⟨fun _ _ _ _ => Iff.rfl, fun r frame result hlog => ?_, fun _ _ => .same rfl rfl⟩
    cases List.append_cancel_left hlog
  | op o k =>
    obtain rfl := Option.some.inj (hstep.symm.trans (Server.performs hq env))
    have ha := Server.handling_allow ht hq
    obtain ⟨frame, -, hframe, -⟩ := Server.handling_frame ht hq
    have hfile : ∀ r type payload, o = .queueFrame r type payload →
        FromOwnRoute u.id s₁ t r ⟨type, payload⟩ := by
      rintro r type payload rfl hfile
      obtain ⟨endpoint, hmem, htarget, hid⟩ := Monitor.allow_endpoint ha hfile
      obtain ⟨t₀, j, hst₀, ht₀t, hlive, hsender, rfl⟩ := hrouted endpoint hmem
      exact ⟨t₀, j, hst₀, ht₀t, hlive, hsender, htarget, hid⟩
    refine ⟨fun i r hr hne => perform_routes_of_others ha ⟨frame, hframe⟩ i hr hne,
      fun r f result hlog => ?_, fun i hi => ?_⟩
    · have hevent := List.singleton_inj.mp (List.append_cancel_left hlog)
      exact hfile r f.type f.payload (Event.did.inj hevent).2.1
    · exact perform_touch (Server.wf_of_reach ht).clients ha hi (hfile _)

/-- Whatever a client sends as a frame, in any interleaving each step of handling it leaves the
routes of other senders alone, queues FILE_* frames only to receivers of the client's own routes,
and does nothing to another client but queue frames to it; and so does the whole call. -/
theorem frames_stay_with_their_sender {s s₁ : Server} {n : ℕ} {env : Env} {c : ClientId}
    {frame : Bytes} (hs : server.Reachable s) (hstep : server.step s (n, env) = some s₁)
    (hlog : s₁.log = s.log ++ [.received c frame]) :
    (∀ t t' env, server.Steps s₁ t → InCall c s₁ t → server.step t (n, env) = some t' →
      SameForOthers c t.shared.routes t'.shared.routes ∧
      (∀ r frame result, t'.log = t.log ++ [.did c (.queueFrame r frame.type frame.payload)
        result] → FromOwnRoute c s₁ t r frame) ∧
      ∀ i, (t.shared.clients.clients i).id ≠ c →
        ClientManager.Touch (FromOwnRoute c s₁ t (t.shared.clients.clients i).id)
          t.shared.clients t'.shared.clients i) ∧
    ∀ t, server.StepsOf (fun t l => l.1 = n ∧ InCall c s₁ t) s₁ t →
      SameForOthers c s.shared.routes t.shared.routes ∧
      ∀ i, (s.shared.clients.clients i).id ≠ c →
        ClientManager.Kept (FromOwnRoute c s₁ t (s.shared.clients.clients i).id)
          s.shared.clients t.shared.clients i := by
  have hs₁ : server.Reachable s₁ := .step hs trivial hstep
  obtain ⟨hshared, hidle, u, w, p, rfl, hn⟩ := Server.enters_call hstep hlog
  refine ⟨fun t t' env hst hcall hstep => Server.call_step hs₁ hn hidle hst hcall hstep,
    fun t hst => ?_⟩
  rw [← hshared]
  refine hst.invariant (P := fun t => SameForOthers u.id s₁.shared.routes t.shared.routes ∧
    ∀ i, (s₁.shared.clients.clients i).id ≠ u.id →
      ClientManager.Kept (FromOwnRoute u.id s₁ t (s₁.shared.clients.clients i).id)
        s₁.shared.clients t.shared.clients i) ?_
    ⟨fun _ _ _ _ => Iff.rfl, fun i _ => .refl _ i⟩
  rintro t ⟨k, env⟩ t' hrun ⟨rfl, hcall⟩ ⟨hroutes, hclients⟩ hnext
  obtain ⟨hroutes', -, hclients'⟩ := Server.call_step hs₁ hn hidle hrun hcall hnext
  refine ⟨fun i r hr hne => (hroutes' i r hr hne).trans (hroutes i r hr hne), fun i hi => ?_⟩
  have hkept := hclients i hi
  have htouch := (hclients' i (by rw [hkept.id]; exact hi)).kept
  rw [hkept.id] at htouch
  refine (hkept.trans htouch).mono ?_
  intro f hf hfile
  obtain ⟨t₀, j, hst₀, ht₀t, hroute⟩ := hf hfile
  exact ⟨t₀, j, hst₀, .tail ht₀t hnext, hroute⟩

/-- The client and the place in the loop of a thread in `run_client_worker`. -/
def Thread.looping : Thread → Option (ClientId × Pc)
  | .working u w => some (u.id, w.pc)
  | _ => none

/-- `bob` sends `cat` a file under the id 9, and `ann` a CHUNK of that id without data: `bob`'s
route is the same when her call is over. -/
theorem frames_stay_with_their_sender_malformed : ∃ s s₁ i, server.Reachable s ∧
    s₁.log = s.log ++ [.received 1 ([1] ++ writeU32 9)] ∧
    s.shared.routes.routes i = newRoute 2 9 3 1 3 ∧
    ∀ t, server.StepsOf (fun t l => l.1 = 0 ∧ InCall 1 s₁ t) s₁ t →
      t.shared.routes.routes i = newRoute 2 9 3 1 3 := by
  have hrun : (server.run server.init (addressed (loginLabels 0 (ascii "ann") ++
      loginLabels 1 (ascii "bob") ++ loginLabels 2 (ascii "cat") ++
      frameLabels 1 ([0] ++ writeU32 9 ++ writeU64 3 ++ writeU16 3 ++ writeU16 1 ++ ascii "catf") ++
      stepLabels 1 [none, none, none, none] ++
      (frameLabels 0 ([1] ++ writeU32 9)).dropLast))).map
        (fun s => ((s.threads 0).looping, s.shared.routes.routes ⟨0, by decide⟩)) =
      some (some (1, .handle ([1] ++ writeU32 9)), newRoute 2 9 3 1 3) := by
    decide +kernel
  obtain ⟨s, hs, hview⟩ := Option.map_eq_some_iff.mp hrun
  obtain ⟨hlooping, hroute⟩ := Prod.mk.inj hview
  have hreach := Transition.System.Reachable.run .init hs
  obtain ⟨u, w, hn, hid, hpc⟩ : ∃ u w, s.threads 0 = .working u w ∧ u.id = 1 ∧
      w.pc = .handle ([1] ++ writeU32 9) := by
    unfold Thread.looping at hlooping
    split at hlooping
    · next u w hn =>
      obtain ⟨hid, hpc⟩ := Prod.mk.inj (Option.some.inj hlooping)
      exact ⟨u, w, hn, hid, hpc⟩
    · cases hlooping
  obtain ⟨s₁, hstep, hlog⟩ : ∃ s₁, server.step s (0, {}) = some s₁ ∧
      s₁.log = s.log ++ [.received 1 ([1] ++ writeU32 9)] :=
    ⟨_, Server.receives hn hpc {}, by rw [hid]⟩
  refine ⟨s, s₁, ⟨0, by decide⟩, hreach, hlog, hroute, fun t hst => ?_⟩
  have hkept := (frames_stay_with_their_sender hreach hstep hlog).2 t hst
  exact (hkept.1 _ (newRoute 2 9 3 1 3) rfl (by decide)).mpr hroute

end CipherChat
