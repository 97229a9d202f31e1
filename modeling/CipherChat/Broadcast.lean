import CipherChat.Handling
import CipherChat.TextReplies

/-!
# Broadcasts

`send_message_to_all_clients` collects the ids of the ready clients in one critical section
and queues the message to each id in one of its own.  Logins, disconnects and other sends come
in between; an id is never given out twice, so the message reaches the clients that were
collected and nobody else, once.
-/

namespace CipherChat

open Resumption Prog Transition ClientManager

/-- The attempts of a client to queue a text: to whom, and with what result. -/
def attempts (clientId : ClientId) (message : Bytes) (log : List Event) :
    List (ClientId × Except Errno Unit) :=
  log.filterMap fun e =>
    match e with
    | .did c (.queueFrame r .text text) result =>
      if c = clientId ∧ text = message then some (r, result) else none
    | _ => none

/-- When thread `n` queues the text to the client, the client is ready with room in its queue,
and `malloc` and `eventfd_write` succeed. -/
def Serving (n : ℕ) (message : Bytes) (r : ClientId) (s : Server) (l : Label) : Prop :=
  l.1 = n → (s.threads n).nextOp = some (.queueFrame r .text message) →
    Moment.Serves ⟨l.2.libc, s.shared⟩ r

section

variable {c : ClientId} {message : Bytes}

theorem attempts_append (a b : List Event) :
    attempts c message (a ++ b) = attempts c message a ++ attempts c message b :=
  List.filterMap_append

theorem attempts_other {evs : List Event} (h : ∀ e ∈ evs, e.client ≠ some c) :
    attempts c message evs = [] := by
  refine List.filterMap_eq_nil_iff.mpr fun e he => ?_
  have hclient := h e he
  split
  · next d r text result =>
    refine if_neg fun heq => hclient ?_
    rw [← heq.1]
    rfl
  · rfl

theorem attempts_self (r : ClientId) (result : Except Errno Unit) :
    attempts c message [.did c (.queueFrame r .text message) result] = [(r, result)] := by
  simp [attempts]

theorem sendTextToEach_cons (h : message ≠ []) (r : ClientId) (rest : List ClientId) :
    (sendTextToEach message (r :: rest) >>= fun _ => pure true) =
      .op (.queueFrame r .text message) fun _ =>
        sendTextToEach message rest >>= fun _ => pure true := by
  rw [sendTextToEach, sendTextToClientId_eq h, call_bind, op_bind]

theorem filter_key {α β : Type} [DecidableEq α] {xs : List (α × β)} {a : α} {b : β}
    (hnodup : (xs.map Prod.fst).Nodup) (ha : a ∈ xs.map Prod.fst)
    (hb : ∀ x ∈ xs, x.1 = a → x.2 = b) : xs.filter (fun x => x.1 = a) = [(a, b)] := by
  induction xs with
  | nil => cases ha
  | cons x xs ih =>
    rw [List.map_cons] at hnodup ha
    obtain ⟨hx, hnodup⟩ := List.nodup_cons.mp hnodup
    by_cases hxa : x.1 = a
    · have hrest : xs.filter (fun x => x.1 = a) = [] := by
        refine List.filter_eq_nil_iff.mpr fun y hy => ?_
        rw [decide_eq_true_iff]
        rintro rfl
        exact hx (hxa ▸ List.mem_map_of_mem hy)
      have hpair : x = (a, b) := Prod.ext hxa (hb x List.mem_cons_self hxa)
      rw [List.filter_cons, if_pos (decide_eq_true hxa), hrest, hpair]
    · rw [List.filter_cons, if_neg (by simpa using hxa)]
      refine ih hnodup ?_ fun y hy => hb y (List.mem_cons_of_mem _ hy)
      exact (List.mem_cons.mp ha).resolve_left fun h => hxa h.symm

theorem isReady_iff {m : ClientManager} {r : ClientId} : m.IsReady r ↔
    ∃ i, (m.clients i).active = true ∧ (m.clients i).ready = true ∧ (m.clients i).id = r := by
  constructor
  · rintro ⟨i, l, hl, hready, rfl⟩
    obtain ⟨ha, hid, -, hr, -⟩ := login_some hl
    exact ⟨i, ha, hr.trans hready, hid⟩
  · rintro ⟨i, ha, hready, rfl⟩
    exact ⟨i, _, login_of_active ha, hready, rfl⟩

theorem mem_recipients {m : ClientManager} {r : ClientId} :
    r ∈ m.recipients c ↔ m.IsReady r ∧ r ≠ c := by
  rw [isReady_iff, recipients, List.mem_filterMap]
  constructor
  · rintro ⟨i, -, hi⟩
    split at hi
    · next h =>
      rw [Bool.and_eq_true, Bool.and_eq_true, bne_iff_ne] at h
      cases hi
      exact ⟨⟨i, h.1.1, h.1.2, rfl⟩, h.2⟩
    · cases hi
  · rintro ⟨⟨i, ha, hready, rfl⟩, hne⟩
    refine ⟨i, List.mem_finRange i, if_pos ?_⟩
    rw [Bool.and_eq_true, Bool.and_eq_true, bne_iff_ne]
    exact ⟨⟨ha, hready⟩, hne⟩

theorem nodup_recipients {m : ClientManager} (h : m.Inv) : (m.recipients c).Nodup := by
  refine List.Nodup.filterMap ?_ (List.nodup_finRange _)
  intro i j r hi hj
  have hspec : ∀ i, r ∈ (if (m.clients i).active && (m.clients i).ready && (m.clients i).id != c
      then some (m.clients i).id else none) → (m.clients i).active = true ∧
        (m.clients i).id = r := by
    intro i hi
    split at hi
    · next h =>
      rw [Bool.and_eq_true, Bool.and_eq_true] at h
      exact ⟨h.1.1, Option.some.inj hi⟩
    · cases hi
  obtain ⟨hai, hidi⟩ := hspec i hi
  obtain ⟨haj, hidj⟩ := hspec j hj
  exact h.id_unique i j hai haj (hidi.trans hidj.symm)

end

/-- Thread `n` has come so far in the broadcast: `good` tells what its attempts were like. -/
def Server.Broadcasting (n : ℕ) (u : Session) (w : Worker) (message : Bytes) (ids : List ClientId)
    (good : ClientId × Except Errno Unit → Prop) (s : Server) (seg : List Event) : Prop :=
  (∀ x ∈ attempts u.id message seg, good x) ∧
  ∃ rest, s.threads n = .handling u w (sendTextToEach message rest >>= fun _ => pure true) ∧
    ids = (attempts u.id message seg).map Prod.fst ++ rest

variable {n : ℕ} {u : Session} {w : Worker} {message : Bytes} {ids : List ClientId}
  {good : ClientId × Except Errno Unit → Prop}

theorem Server.Broadcasting.own {s : Server} {env : Env} {o : Op} {k : o.Resp → Handler Bool}
    {seg : List Event} (hm : message ≠ []) (h : s.Broadcasting n u w message ids good seg)
    (hop : s.threads n = .handling u w (.op o k))
    (hgood : ∀ r, (s.threads n).nextOp = some (.queueFrame r .text message) →
      good (r, (perform env.libc s.shared (.queueFrame r .text message)).1)) :
    Server.Broadcasting n u w message ids good
      { shared := (perform env.libc s.shared o).2
        threads := Function.update s.threads n (.handling u w (k (perform env.libc s.shared o).1))
        log := s.log ++ [.did u.id o (perform env.libc s.shared o).1] }
      (seg ++ [.did u.id o (perform env.libc s.shared o).1]) := by
  obtain ⟨hall, rest, hn, hids⟩ := h
  rw [hop] at hn
  cases rest with
  | nil => cases hn
  | cons r rest =>
    rw [sendTextToEach_cons hm] at hn
    cases hn
    have hanswer := hgood r (by rw [hop]; rfl)
    refine ⟨fun x hx => ?_, rest, Function.update_self _ _ _, ?_⟩
    · rw [attempts_append, attempts_self] at hx
      rcases List.mem_append.mp hx with hx | hx
      · exact hall x hx
      · rw [List.mem_singleton.mp hx]
        exact hanswer
    · rw [attempts_append, attempts_self, List.map_append, List.append_assoc]
      exact hids

theorem Server.Broadcasting.other {s s' : Server} {evs seg : List Event}
    (h : s.Broadcasting n u w message ids good seg) (hclient : ∀ e ∈ evs, e.client ≠ some u.id)
    (hthread : s'.threads n = s.threads n) :
    s'.Broadcasting n u w message ids good (seg ++ evs) := by
  obtain ⟨hall, rest, hn, hids⟩ := h
  have hnone : attempts u.id message (seg ++ evs) = attempts u.id message seg := by
    rw [attempts_append, attempts_other hclient, List.append_nil]
  rw [Server.Broadcasting, hnone, hthread]
  exact ⟨hall, rest, hn, hids⟩

theorem Server.broadcasting_of_steps (good : ClientId × Except Errno Unit → Prop)
    {ok : Server → Label → Prop} {s₁ s : Server} (hs₁ : server.Reachable s₁) (hm : message ≠ [])
    (hn : s₁.threads n = .handling u w (sendTextToEach message ids >>= fun _ => pure true))
    (hgood : ∀ t env, server.Steps s₁ t → ok t (n, env) → ∀ r,
      (t.threads n).nextOp = some (.queueFrame r .text message) →
        good (r, (perform env.libc t.shared (.queueFrame r .text message)).1))
    (hst : server.StepsOf ok s₁ s) : ∃ seg, s.log = s₁.log ++ seg ∧
      (.returned u.id ∈ seg ∨ s.Broadcasting n u w message ids good seg) := by
  have hbroadcasting := Server.during_call
    (P := fun seg s => s.Broadcasting n u w message ids good seg) hs₁ hn ⟨nofun, ids, hn, rfl⟩
    (fun t env o k seg hrun hok hop hold => hold.own hm hop (hgood t env hrun hok))
    (fun t l t' evs seg _ _ _ _ hclient hthread hold => hold.other hclient hthread) hst
  obtain ⟨seg, hlog, hcases⟩ := hbroadcasting
  exact ⟨seg, hlog, hcases.imp_right And.right⟩

theorem Server.collects {s₀ s₁ : Server} {env : Env} {c : ClientId} (hm : message ≠ [])
    (hn : s₀.threads n = .handling u w (sendMessageToAllClients message c >>= fun _ => pure true))
    (hsnap : server.step s₀ (n, env) = some s₁) : s₁.threads n = .handling u w
      (sendTextToEach message (s₀.shared.clients.recipients c) >>= fun _ => pure true) := by
  rw [sendMessageToAllClients, if_neg hm, call_bind, op_bind] at hn
  have hstep := Server.step_of (s := s₀) env hn rfl
  rw [hstep] at hsnap
  cases hsnap
  exact Function.update_self _ _ _

/-- From the step in which the recipients are collected until the call returns, in any
interleaving: no id is tried twice, only ready clients other than the sender are tried, and a
client that can be sent to when its turn comes has been sent the message once when all
recipients have been tried. -/
theorem broadcast_exactly_once {s₀ s₁ : Server} {env : Env} {c : ClientId}
    (hs₀ : server.Reachable s₀) (h0 : message ≠ []) (hmax : message.length < frameMaxSize)
    (hn : s₀.threads n = .handling u w (sendMessageToAllClients message c >>= fun _ => pure true))
    (hsnap : server.step s₀ (n, env) = some s₁) :
    (∀ s seg, server.Steps s₁ s → s.log = s₁.log ++ seg → .returned u.id ∉ seg →
      ((attempts u.id message seg).map Prod.fst).Nodup ∧
      ∀ x ∈ attempts u.id message seg, s₀.shared.clients.IsReady x.1 ∧ x.1 ≠ c) ∧
    ∀ r, s₀.shared.clients.IsReady r → r ≠ c → ∀ s seg,
      server.StepsOf (Serving n message r) s₁ s → s.log = s₁.log ++ seg → .returned u.id ∉ seg →
      s.threads n = .handling u w (.ret true) →
      (attempts u.id message seg).filter (fun x => x.1 = r) = [(r, .ok ())] := by
  have hs₁ : server.Reachable s₁ := .step hs₀ trivial hsnap
  have hinv := (Server.wf_of_reach hs₀).clients
  have hn₁ := Server.collects h0 hn hsnap
  have hnodup := nodup_recipients (c := c) hinv
  refine ⟨fun s seg hst hlog hret => ?_, fun r hready hne s seg hst hlog hret hover => ?_⟩
  · obtain ⟨seg', hlog', hcases⟩ := Server.broadcasting_of_steps (fun _ => True) hs₁ h0 hn₁
      (fun _ _ _ _ _ _ => trivial) hst.of
    obtain rfl := List.append_cancel_left (hlog.symm.trans hlog')
    obtain ⟨-, rest, -, hids⟩ := hcases.resolve_left hret
    rw [hids] at hnodup
    refine ⟨hnodup.of_append_left, fun x hx => mem_recipients.mp ?_⟩
    rw [hids]
    exact List.mem_append_left _ (List.mem_map_of_mem hx)
  · have hgood : ∀ t env, server.Steps s₁ t → Serving n message r t (n, env) → ∀ r',
        (t.threads n).nextOp = some (.queueFrame r' .text message) →
        r' = r → (perform env.libc t.shared (.queueFrame r' .text message)).1 = .ok () := by
      rintro t env - hserving r' hop rfl
      have hr0 : r' ≠ invalidClientId := by
        obtain ⟨i, l, hl, -, rfl⟩ := hready
        exact (hinv.login_id_lt hl).1
      exact (hserving rfl hop).queued hr0 (by omega)
    obtain ⟨seg', hlog', hcases⟩ := Server.broadcasting_of_steps
      (fun x => x.1 = r → x.2 = .ok ()) hs₁ h0 hn₁ hgood hst
    obtain rfl := List.append_cancel_left (hlog.symm.trans hlog')
    obtain ⟨hall, rest, hthread, hids⟩ := hcases.resolve_left hret
    -- the call is at its end, so nobody is left to try
    cases rest with
    | cons r' rest =>
      rw [hover, sendTextToEach_cons h0] at hthread
      cases hthread
    | nil =>
      rw [List.append_nil] at hids
      rw [hids] at hnodup
      refine filter_key hnodup ?_ hall
      rw [← hids]
      exact mem_recipients.mpr ⟨hready, hne⟩

theorem handleClientFrame_broadcast {c : ClientId} {username payload text : Bytes}
    (h0 : payload ≠ []) (hzero : 0 ∉ payload)
    (hparse : parseCommand payload = .broadcastMessage text)
    (hlen : text.length ≤ messageMaxSize) (hu : username.length < usernameSize) :
    handleClientFrame c username (FrameType.text.toByte :: payload) =
      (sendMessageToAllClients (broadcastText username text) c >>= fun _ => pure true) := by
  have hne : broadcastText username text ≠ [] := by
    refine List.ne_nil_of_length_pos ?_
    rw [length_broadcastText]
    omega
  rw [handleClientFrame_command h0 hzero, handleCommand_broadcastMessage hparse hlen hu,
    sendMessageToAllClients, if_neg hne, call_bind, op_bind]

theorem ann_waits_with_bob : ∃ s, server.Reachable s ∧ s.Waits 0 ann {} ∧
    s.shared.clients.recipients ann.id = [2] ∧ ∃ i, s.shared.clients.findReady 2 = some i ∧
      (s.shared.clients.clients i).outgoing.count < maxOutgoingFrames := by
  let labels := loginLabels 0 (ascii "ann") ++ loginLabels 1 (ascii "bob")
  have hrun : (server.run server.init labels).map (fun s => ((s.threads 0).loop,
      (s.shared.clients.heap 0).isNone, s.shared.clients.recipients 1,
      (s.shared.clients.findReady 2).map fun i =>
        decide ((s.shared.clients.clients i).outgoing.count < maxOutgoingFrames))) =
      some (some (ann, {}), true, [2], some true) := by
    decide +kernel
  have hclient : (server.run server.init labels).map (fun s =>
      (s.shared.clients.findActive 1, s.shared.clients.findReady 1,
        (s.shared.clients.clients ann.index).outgoing,
        (s.shared.clients.clients ann.index).outgoingFailed,
        (s.shared.clients.clients ann.index).wakeFd)) =
      some (some ann.index, some ann.index, {}, false, some 0) := by
    decide +kernel
  obtain ⟨s, hs, hview⟩ := Option.map_eq_some_iff.mp hrun
  rw [hs, Option.map_some] at hclient
  obtain ⟨hloop, hview⟩ := Prod.mk.inj hview
  obtain ⟨hmemory, hview⟩ := Prod.mk.inj hview
  obtain ⟨hrecipients, hbob⟩ := Prod.mk.inj hview
  obtain ⟨i, hready, hroom⟩ := Option.map_eq_some_iff.mp hbob
  exact ⟨s, System.Reachable.run .init hs, .of_view (show ann.id ≠ invalidClientId by decide) hloop
    (Option.isNone_iff_eq_none.mp hmemory) (Option.some.inj hclient), hrecipients, i, hready,
    of_decide_eq_true hroom⟩

theorem parseCommand_broadcastHi :
    parseCommand (ascii "/broadcast hi") = .broadcastMessage (ascii "hi") := by
  decide +kernel

/-- The broadcast of `ann` reaches `bob` once. -/
theorem broadcast_exactly_once_bob : ∃ s₁ s seg, server.Reachable s₁ ∧ server.Steps s₁ s ∧
    s.log = s₁.log ++ seg ∧ (attempts ann.id (broadcastText ann.username (ascii "hi")) seg).filter
      (fun x => x.1 = 2) = [(2, .ok ())] := by
  have c1 := messageMaxSize_eq
  have c2 := frameMaxSize_eq
  have c3 := usernameSize_eq
  obtain ⟨s, hs, hwaits, hrecipients, i, hready, hroom⟩ := ann_waits_with_bob
  have hname : ann.username.length = 3 := length_ascii_ofList _
  have hhi : (ascii "hi").length = 2 := length_ascii_ofList _
  have htext := length_broadcastText ann.username (ascii "hi")
  have hpayload : (ascii "/broadcast hi").length = 13 := length_ascii_ofList _
  have hzero : 0 ∉ ascii "/broadcast hi" := fun h =>
    Bool.false_ne_true (forall_ascii_ofList (p := (· == 0)) rfl 0 h).symm
  obtain ⟨s₀, w, hst, hshared, -, hthread, -⟩ :=
    hwaits.handles (FrameType.text.toByte :: ascii "/broadcast hi") (Nat.succ_pos _)
      (by rw [List.length_cons]; omega)
        (show isValidFrameType FrameType.text.toByte = true by decide)
  rw [handleClientFrame_broadcast (ascii_ofList_ne_nil (by simp)) hzero parseCommand_broadcastHi
    (by omega) (by omega)] at hthread
  have hs₀ := hs.steps hst
  generalize hmessage : broadcastText ann.username (ascii "hi") = message at hthread htext ⊢
  have hne : message ≠ [] := List.ne_nil_of_length_pos (by omega)
  have hready₀ : s₀.shared.clients.IsReady 2 := by
    have hmem : 2 ∈ s₀.shared.clients.recipients ann.id := by
      rw [hshared, hrecipients]
      exact List.mem_singleton.mpr rfl
    exact (mem_recipients.mp hmem).1
  have hop := hthread
  rw [sendMessageToAllClients, if_neg hne, call_bind, op_bind] at hop
  obtain ⟨s₁, hsnap, hshared₁⟩ : ∃ s₁, server.step s₀ (0, {}) = some s₁ ∧ s₁.shared = s.shared :=
    ⟨_, Server.performs hop {}, hshared⟩
  have hthread₁ := Server.collects hne hthread hsnap
  rw [hshared, hrecipients, sendTextToEach_cons hne] at hthread₁
  have hsend := Server.performs hthread₁ { libc := { address := some 0 } }
  refine ⟨s₁, _, [_], hs₀.step trivial hsnap, .tail .refl hsend, rfl, ?_⟩
  refine (broadcast_exactly_once hs₀ hne (by omega) hthread hsnap).2 2 hready₀
    (show 2 ≠ ann.id by decide) _ _ (.tail .refl ?_ hsend) rfl ?_
    ((Function.update_self 0 _ s₁.threads).trans rfl)
  · intro _ _
    refine ⟨⟨i, hshared₁ ▸ hready, hshared₁ ▸ hroom⟩, ?_, rfl⟩
    rw [hshared₁, malloc, Option.filter_some, hwaits.idle.memory]
    exact Option.some_ne_none 0
  · intro h
    cases List.mem_singleton.mp h

end CipherChat
