import CipherChat.Handling
import CipherChat.Waiting

/-!
# Forwards that fail

When a CHUNK or an END cannot be queued to its recipient, the handlers take it that the
recipient has left: the sender is told so, and the recipient is told nothing.  The recipient
is still there when `malloc` or `eventfd_write` has failed.
-/

namespace CipherChat

open Resumption Prog ClientManager Transition

/-- Thread `n` is about to forward a CHUNK or an END of client `u` to client `r`. -/
def Server.Forwards (s : Server) (n : ℕ) (u : Session) (r : ClientId) (type : FrameType)
    (payload : Bytes) : Prop :=
  (type = .fileChunk ∨ type = .fileEnd) ∧
    ∃ w k, s.threads n = .handling u w (.op (.queueFrame r type payload) k)

/-- When the step from `s` to `s₁` fails to forward a frame to a recipient who is still ready
afterwards, the call attempts to queue an ERROR to the recipient, under the outbound id of the
frame, before it returns. -/
def Server.Cancels (s : Server) (l : Label) (s₁ : Server) : Prop :=
  ∀ u r type payload e outbound, s.Forwards l.1 u r type payload →
    readTransferId (type.toByte :: payload) = some outbound →
    (perform l.2.libc s.shared (.queueFrame r type payload)).1 = .error e →
    s₁.shared.clients.IsReady r →
    ∀ s' mid post, server.Steps s₁ s' → s'.log = s₁.log ++ (mid ++ .returned u.id :: post) →
      .returned u.id ∉ mid →
      ∃ result, .did u.id (.queueFrame r .fileError (writeU32 outbound)) result ∈ mid

/-- A frame that is forwarded to a ready recipient meets no failure of `malloc` or
`eventfd_write`. -/
def Server.ForwardServed (s : Server) (l : Label) : Prop :=
  ∀ u r type payload, s.Forwards l.1 u r type payload → s.shared.clients.IsReady r →
    malloc s.shared.clients.heap l.2.libc.address ≠ none ∧ l.2.libc.eventfdWrite = none

/-- Nothing is owed to a recipient any more. -/
def Duty.Quiet (d : Duty) : Prop := (∃ src outbound, d = .chunkFailed src outbound) ∨ d = .owes []

theorem Duty.quiet_next {m : Monitor} {id : ClientId} {username : Bytes}
    (hm : m.duty.Quiet) {o : Op}
    (ha : m.allow id username o) : (∀ r payload, o ≠ .queueFrame r .fileError payload) ∧
      ∀ answer, (m.next id o answer).duty.Quiet := by
  have hidle : m.duty ≠ .idle := by
    rintro h
    rw [h] at hm
    rcases hm with ⟨src, outbound, h⟩ | h <;> cases h
  have hkept : (∀ answer, m.nextDuty o answer = m.duty) →
      ∀ answer, (m.next id o answer).duty.Quiet := by
    intro hsame answer
    change (m.nextDuty o answer).Quiet
    rw [hsame]
    exact hm
  cases o with
  | queueFrame r type payload =>
    refine ⟨fun r' payload' h => ?_, hkept fun answer => ?_⟩
    · cases h
      obtain ⟨endpoint, rest, h, -⟩ := ha
      rw [h] at hm
      rcases hm with ⟨src, outbound, h⟩ | h <;> cases h
    · rcases hm with ⟨src, outbound, h⟩ | h
      · rw [Monitor.nextDuty, h]
      · rw [Monitor.nextDuty, h]
  | routesMarkForwardFailed s src o => exact ⟨fun _ _ h => Op.noConfusion h, fun _ => .inr rfl⟩
  | routesQuarantine s src keep =>
    rcases ha.2 with ⟨h, -⟩ | ⟨h, -⟩
    · rw [h] at hm
      rcases hm with ⟨src, outbound, h⟩ | h <;> cases h
    · exact absurd h hidle
  | routesAdd s src tgt size discard => exact absurd ha.2.1 hidle
  | routesAcceptChunk s src len => exact absurd ha.2.1 hidle
  | routesFinish s src validate => exact absurd ha.2.1 hidle
  | routesAbortClient c capacity => exact absurd ha.2.1 hidle
  | findClientId name => exact ⟨fun _ _ h => Op.noConfusion h, hkept fun _ => rfl⟩
  | getClientPublicKey c => exact ⟨fun _ _ h => Op.noConfusion h, hkept fun _ => rfl⟩
  | registerClientPublicKey c key => exact ⟨fun _ _ h => Op.noConfusion h, hkept fun _ => rfl⟩
  | recipients c => exact ⟨fun _ _ h => Op.noConfusion h, hkept fun _ => rfl⟩
  | readyNames => exact ⟨fun _ _ h => Op.noConfusion h, hkept fun _ => rfl⟩

theorem Server.no_error_of_steps {s₁ s : Server} (hs₁ : server.Reachable s₁) {n : ℕ} {u : Session}
    {w : Worker} {p : Handler Bool} (hn : s₁.threads n = .handling u w p)
    (hquiet : (monitor s₁.log u.id).duty.Quiet) (hst : server.Steps s₁ s) : ∃ seg,
      s.log = s₁.log ++ seg ∧ (.returned u.id ∈ seg ∨
        ∀ r payload result, .did u.id (.queueFrame r .fileError payload) result ∉ seg) := by
  have hquiet_of_steps := Server.during_call (P := fun seg t => (monitor t.log u.id).duty.Quiet ∧
    ∀ r payload result, .did u.id (.queueFrame r .fileError payload) result ∉ seg)
    hs₁ hn ⟨hquiet, fun _ _ _ => List.not_mem_nil⟩ ?own ?other hst.of
  case own =>
    intro t env o k seg hrun _ hop hold
    have ha := Server.handling_allow (hs₁.steps hrun) hop
    obtain ⟨hno, hnext⟩ := Duty.quiet_next hold.1 ha
    refine ⟨?_, fun r payload result hmem => ?_⟩
    · dsimp only
      rw [monitor_did_self]
      exact hnext _
    · rcases List.mem_append.mp hmem with hmem | hmem
      · exact hold.2 r payload result hmem
      · exact hno r payload (Event.did.inj (List.mem_singleton.mp hmem)).2.1.symm
  case other =>
    intro t l t' evs seg _ _ _ hlog hclient _ hold
    refine ⟨?_, fun r payload result hmem => ?_⟩
    · rw [hlog, monitor_append_of_ne hclient]
      exact hold.1
    · rcases List.mem_append.mp hmem with hmem | hmem
      · exact hold.2 r payload result hmem
      · exact hclient _ hmem rfl
  obtain ⟨seg, hlog, hcases⟩ := hquiet_of_steps
  exact ⟨seg, hlog, hcases.imp_right fun h => h.2.2⟩

theorem Server.call_returns {s : Server} {n : ℕ} {u : Session} {w : Worker} {p : Handler Bool}
    (hn : s.threads n = .handling u w p) : ∃ t s' mid, server.Steps s t ∧ t.log = s.log ++ mid ∧
      server.Steps s s' ∧ s'.log = s.log ++ (mid ++ [.returned u.id]) ∧ .returned u.id ∉ mid := by
  induction p generalizing s with
  | ret keep =>
    exact ⟨s, _, [], .refl, (List.append_nil _).symm, .tail .refl (Server.step_of {} hn rfl), rfl,
      nofun⟩
  | op o k ih =>
    obtain ⟨answer, s₁, hstep, hn₁, hlog₁⟩ : ∃ answer s₁, server.step s (n, {}) = some s₁ ∧
        s₁.threads n = .handling u w (k answer) ∧ s₁.log = s.log ++ [.did u.id o answer] :=
      ⟨_, _, Server.performs hn {}, Function.update_self _ _ _, rfl⟩
    obtain ⟨t, s', mid, ht, hlogt, hst, hlog, hret⟩ := ih answer hn₁
    have hfirst := System.Steps.refl.tail hstep
    refine ⟨t, s', .did u.id o answer :: mid, hfirst.trans ht, ?_, hfirst.trans hst, ?_, ?_⟩
    · rw [hlogt, hlog₁, List.append_assoc, List.singleton_append]
    · rw [hlog, hlog₁, List.append_assoc, List.singleton_append, List.cons_append]
    · intro hmem
      rcases List.mem_cons.mp hmem with h | h
      · cases h
      · exact hret h

theorem Server.Forwards.spec {s : Server} {n : ℕ} {u : Session} {r : ClientId} {type : FrameType}
    {payload : Bytes} (hs : server.Reachable s) (h : s.Forwards n u r type payload) :
    payload.length ≤ frameMaxSize - 1 ∧
    (∃ outbound, readTransferId (type.toByte :: payload) = some outbound) ∧
    ∀ e, (monitor (s.log ++ [.did u.id (.queueFrame r type payload) (.error e)])
      u.id).duty.Quiet := by
  have c1 := frameMaxSize_eq
  have c2 : fileChunkPayloadMaxSize = 904 := rfl
  obtain ⟨htype, w, k, hn⟩ := h
  have hfollows := (Server.inCalls_of_reach hs).follows n
  rw [hn, Thread.Follows, Discipline.follows_op] at hfollows
  have ha := hfollows.1
  rcases htype with rfl | rfl
  · obtain ⟨src, endpoint, data, hduty, -, hencode⟩ := ha
    have hlength := encodeChunk_length hencode
    refine ⟨by omega, ⟨_, readTransferId_encodeChunk _ hencode⟩, fun e => .inl ?_⟩
    rw [monitor_did_self]
    refine ⟨src, endpoint.outboundTransferId, ?_⟩
    change Monitor.nextDuty _ (.queueFrame r .fileChunk payload) (.error e) = _
    rw [Monitor.nextDuty, hduty]
    rfl
  · obtain ⟨endpoint, hduty, -, rfl⟩ := ha
    refine ⟨by rw [writeU32_length]; omega, ⟨_, readTransferId_writeU32 _ _⟩, fun e => .inr ?_⟩
    rw [monitor_did_self]
    change Monitor.nextDuty _ (.queueFrame r .fileEnd (writeU32 endpoint.outboundTransferId))
      (.error e) = _
    rw [Monitor.nextDuty, hduty]
    rfl

theorem ClientManager.queueFrame_unserved (m : ClientManager) {address : Option ℕ}
    {notified : Option Errno} (h : malloc m.heap address = none ∨ notified ≠ none) (r : ClientId)
    (type : FrameType) (payload : Bytes) :
    ∃ e, m.queueFrameToClientId address notified r type payload = (.error e, m) := by
  unfold queueFrameToClientId
  split
  · exact ⟨_, rfl⟩
  split
  · exact ⟨_, rfl⟩
  split
  · exact ⟨_, rfl⟩
  next a ha =>
  split
  · exact ⟨_, rfl⟩
  split
  · exact ⟨_, rfl⟩
  · rcases h with h | h
    · rw [ha] at h
      cases h
    · exact absurd rfl h

theorem Server.Forwards.step {s s₁ : Server} {l : Label} {u : Session} {r : ClientId}
    {type : FrameType} {payload : Bytes} (h : s.Forwards l.1 u r type payload)
    (hstep : server.step s l = some s₁) :
    s₁.shared.clients = (s.shared.clients.queueFrameToClientId l.2.libc.address
      l.2.libc.eventfdWrite r type payload).2 ∧
    s₁.log = s.log ++ [.did u.id (.queueFrame r type payload)
      (perform l.2.libc s.shared (.queueFrame r type payload)).1] ∧
    ∃ w p, s₁.threads l.1 = .handling u w p := by
  obtain ⟨-, w, k, hn⟩ := h
  have hstep' := Server.step_of l.2 hn rfl
  rw [show (l.1, l.2) = l from rfl, hstep] at hstep'
  cases hstep'
  exact ⟨rfl, rfl, w, _, Function.update_self _ _ _⟩

theorem Server.ForwardServed.cancels {s s₁ : Server} {l : Label} (hs : server.Reachable s)
    (hstep : server.step s l = some s₁) (h : s.ForwardServed l) : s.Cancels l s₁ := by
  intro u r type payload e outbound hforward hread herror hready
  have hinv := (Server.wf_of_reach hs).clients
  obtain ⟨hlen, -, -⟩ := hforward.spec hs
  obtain ⟨hclients, -, -⟩ := hforward.step hstep
  have hclients' : (perform l.2.libc s.shared (.queueFrame r type payload)).2.clients =
      s₁.shared.clients := by
    rw [hclients]
    simp only [perform, Shared.onClients]
  have hbefore : s.shared.clients.IsReady r := by
    refine (perform_clients hinv l.2.libc (.queueFrame r type payload)).2.isReady ?_
    rw [hclients']
    exact hready
  obtain ⟨hmalloc, hwrite⟩ := h u r type payload hforward hbefore
  obtain ⟨a, ha⟩ := Option.ne_none_iff_exists'.mp hmalloc
  rw [malloc, Option.filter_eq_some_iff] at ha
  simp only [perform, Shared.onClients] at herror
  rw [hwrite, ha.1] at herror hclients
  have hqueue : s.shared.clients.queueFrameToClientId (some a) none r type payload =
      (.error e, s₁.shared.clients) := by
    rw [hclients, ← herror]
  exact absurd hready (hinv.queueFrame_error (by simpa using ha.2) hlen hqueue)

theorem Server.not_cancels {s s₁ : Server} {l : Label} (hs : server.Reachable s)
    (hstep : server.step s l = some s₁) (h : ¬s.ForwardServed l) : ¬s.Cancels l s₁ := by
  intro hcancels
  refine h fun u r type payload hforward hready => ?_
  by_contra hfails
  have hfails : malloc s.shared.clients.heap l.2.libc.address = none ∨
      l.2.libc.eventfdWrite ≠ none := by
    rw [not_and_or, not_not] at hfails
    exact hfails
  obtain ⟨-, ⟨outbound, hread⟩, hquiet⟩ := hforward.spec hs
  obtain ⟨hclients, hlog, w, p, hn⟩ := hforward.step hstep
  obtain ⟨e, he⟩ := s.shared.clients.queueFrame_unserved hfails r type payload
  have herror : (perform l.2.libc s.shared (.queueFrame r type payload)).1 = .error e := by
    simp only [perform, Shared.onClients]
    rw [he]
  rw [he] at hclients
  rw [herror] at hlog
  have hs₁ : server.Reachable s₁ := .step hs trivial hstep
  obtain ⟨t, s', mid, ht, hlogt, hst, hlog', hret⟩ := Server.call_returns hn
  obtain ⟨result, hmem⟩ := hcancels u r type payload e outbound hforward hread herror
    (hclients ▸ hready) s' mid [] hst hlog' hret
  obtain ⟨seg, hseg, hcases⟩ := Server.no_error_of_steps hs₁ hn (by rw [hlog]; exact hquiet e) ht
  obtain rfl := List.append_cancel_left (hlogt.symm.trans hseg)
  exact hcases.resolve_left hret _ _ _ hmem

theorem chunk_forwards : ∃ s u, server.Reachable s ∧
    s.Forwards 0 u 2 .fileChunk (writeU32 1 ++ [97, 98, 99]) ∧ s.shared.clients.IsReady 2 := by
  have hrun : (server.run server.init (addressed (loginLabels 0 (ascii "ann") ++
      loginLabels 1 (ascii "bob") ++
      frameLabels 0 ([0] ++ writeU32 9 ++ writeU64 3 ++ writeU16 3 ++ writeU16 1 ++ ascii "bobf") ++
      stepLabels 0 [none, none, none, none] ++ frameLabels 0 ([1] ++ writeU32 9 ++ [97, 98, 99]) ++
      stepLabels 0 [none]))).map (fun s =>
        ((s.threads 0).worker.isSome, (s.threads 0).nextOp,
          (s.shared.clients.findReady 2).isSome)) =
      some (true, some (.queueFrame 2 .fileChunk (writeU32 1 ++ [97, 98, 99])), true) := by
    decide +kernel
  obtain ⟨s, hs, hview⟩ := Option.map_eq_some_iff.mp hrun
  obtain ⟨hworker, hview⟩ := Prod.mk.inj hview
  obtain ⟨hop, hready⟩ := Prod.mk.inj hview
  obtain ⟨i, hi⟩ := Option.isSome_iff_exists.mp hready
  obtain ⟨hactive, hready, hid⟩ := findReady_some hi
  have hforward : ∃ u, s.Forwards 0 u 2 .fileChunk (writeU32 1 ++ [97, 98, 99]) := by
    cases ht : s.threads 0 with
    | handling u w p =>
      cases p with
      | ret keep =>
        rw [ht] at hop
        cases hop
      | op o k =>
        rw [ht] at hop
        obtain rfl := Option.some.inj hop
        exact ⟨u, .inl rfl, w, k, ht⟩
    | aborting u p =>
      rw [ht] at hworker
      cases hworker
    | _ =>
      rw [ht] at hop
      cases hop
  obtain ⟨u, hforward⟩ := hforward
  exact ⟨s, u, .run .init hs, hforward, i, _, login_of_active hactive, hready, hid⟩

/-- A forward that fails is cancelled at a recipient who is still there exactly when there is no
such forward: when `malloc` and `eventfd_write` succeed for every recipient who is ready. -/
theorem failed_forward_cancelled_iff {s s₁ : Server} {l : Label} (hs : server.Reachable s)
    (hstep : server.step s l = some s₁) : s.Cancels l s₁ ↔ s.ForwardServed l := by
  refine ⟨fun h => ?_, fun h => h.cancels hs hstep⟩
  by_contra hno
  exact Server.not_cancels hs hstep hno h

theorem failed_forward_cancelled_iff_chunk : ∃ s s₁ u, server.Reachable s ∧
    s.Forwards 0 u 2 .fileChunk (writeU32 1 ++ [97, 98, 99]) ∧ server.step s (0, {}) = some s₁ ∧
    (s.Cancels (0, {}) s₁ ↔ s.ForwardServed (0, {})) := by
  obtain ⟨s, u, hs, hforward, -⟩ := chunk_forwards
  obtain ⟨-, w, k, hn⟩ := id hforward
  have hstep := Server.performs hn {}
  exact ⟨s, _, u, hs, hforward, hstep, failed_forward_cancelled_iff hs hstep⟩

/-- `malloc` fails for the CHUNK: `bob` stays ready, and the call returns without a word to him. -/
theorem lost_chunk_is_not_cancelled : ∃ s s₁ u, server.Reachable s ∧
    s.Forwards 0 u 2 .fileChunk (writeU32 1 ++ [97, 98, 99]) ∧
    server.step s (0, { libc := { address := none } }) = some s₁ ∧
    ¬s.Cancels (0, { libc := { address := none } }) s₁ := by
  obtain ⟨s, u, hs, hforward, hready⟩ := chunk_forwards
  obtain ⟨-, w, k, hn⟩ := id hforward
  have hstep := Server.performs hn { libc := { address := none } }
  refine ⟨s, _, u, hs, hforward, hstep, Server.not_cancels hs hstep fun h => ?_⟩
  exact (h u 2 .fileChunk _ hforward hready).1 rfl

end CipherChat
