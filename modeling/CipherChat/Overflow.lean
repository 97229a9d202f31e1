import CipherChat.Sessions

/-!
# When a connection is cut

`queue_frame_to_client_id` marks a client failed when its queue holds 128 frames.
The queue is filled by the other workers and emptied by the client's own worker, so
the mark says how far the worker is behind, not that its socket refuses data.
-/

namespace CipherChat

open Resumption ClientManager

/-- The last `SSL_write_ex` of the thread's worker asked to be tried again. -/
def Thread.WritePending : Thread → Prop
  | .working _ w | .handling _ w _ => w.writeWait ≠ .none
  | _ => False

/-- The step queues a frame to the ready client in slot `i`, and 128 frames are still
waiting there for its worker; `malloc` and `eventfd_write` succeed. -/
def Overflows (s : Server) (l : Label) (i : Fin maxClients) : Prop :=
  ∃ c type payload, (s.threads l.1).nextOp = some (.queueFrame c type payload) ∧
    payload.length ≤ frameMaxSize - 1 ∧
    (malloc s.shared.clients.heap l.2.libc.address).isSome = true ∧
    l.2.libc.eventfdWrite = none ∧ s.shared.clients.findReady c = some i ∧
    (s.shared.clients.pending i).length = maxOutgoingFrames

namespace ClientManager

variable {m : ClientManager} {i : Fin maxClients}

/-- The slot has been marked by `queue_frame_to_client_id`. -/
def Failed (m : ClientManager) (i : Fin maxClients) : Prop := (m.clients i).outgoingFailed = true

theorem failed_update {m' : ClientManager} {j : Fin maxClients} {c : Client}
    (h : m'.clients = Function.update m.clients j c) :
    m'.Failed i ↔ if i = j then c.outgoingFailed = true else m.Failed i := by
  unfold Failed
  rw [h]
  by_cases hij : i = j
  · subst hij
    simp
  · simp [hij]

theorem failed_keep {m' : ClientManager} {j : Fin maxClients} {c : Client}
    (h : m'.clients = Function.update m.clients j c)
    (hc : c.outgoingFailed = (m.clients j).outgoingFailed) : m'.Failed i ↔ m.Failed i := by
  rw [failed_update h]
  by_cases hij : i = j
  · subst hij
    rw [if_pos rfl, hc, Failed]
  · rw [if_neg hij]

theorem Failed.of_update {m' : ClientManager} {j : Fin maxClients} {c : Client} (hf : m'.Failed i)
    (h : m'.clients = Function.update m.clients j c) (hc : c.outgoingFailed = false) :
    m.Failed i := by
  rw [failed_update h] at hf
  by_cases hij : i = j
  · rw [if_pos hij, hc] at hf
    cases hf
  · rwa [if_neg hij] at hf

theorem failed_addClient {name : Bytes} {eventfd : Option Errno} {j : Fin maxClients}
    {m' : ClientManager} (h : m.addClient name eventfd = (.ok j, m')) (hf : m'.Failed i) :
    m.Failed i := by
  unfold ClientManager.addClient at h
  split at h
  · cases h
  split at h
  · cases h
  split at h
  · cases h
  split at h
  · cases h
  · cases h
    exact hf.of_update rfl rfl

theorem failed_activateClient {j : Fin maxClients} {m' : ClientManager}
    (h : m.activateClient j = (.ok (), m')) : m'.Failed i ↔ m.Failed i := by
  unfold ClientManager.activateClient at h
  split at h
  · cases h
  · cases h
    refine failed_keep rfl ?_
    rfl

theorem failed_removeClient {j : Fin maxClients} (hf : (m.removeClient j).Failed i) :
    m.Failed i := by
  unfold ClientManager.removeClient at hf
  split_ifs at hf
  · exact hf
  · exact hf.of_update (j := j) (c := {}) rfl rfl

theorem failed_registerClientPublicKey (c : ClientId) (key : Bytes) :
    (m.registerClientPublicKey c key).2.Failed i ↔ m.Failed i := by
  unfold ClientManager.registerClientPublicKey
  split
  · split_ifs
    · exact Iff.rfl
    · exact failed_keep rfl rfl
  · exact Iff.rfl

theorem failed_drain (j : Fin maxClients) : (m.drain j).Failed i ↔ m.Failed i :=
  failed_keep rfl rfl

theorem failed_takeOutgoingFrame (c : ClientId) :
    (m.takeOutgoingFrame c).2.Failed i ↔ m.Failed i := by
  unfold ClientManager.takeOutgoingFrame
  split_ifs
  · exact Iff.rfl
  · split
    · exact Iff.rfl
    · next j hj =>
      dsimp only
      split_ifs
      · exact Iff.rfl
      · exact failed_keep rfl rfl

theorem failed_link (j : Fin maxClients) (a : ℕ) (frame : OutgoingFrame) :
    (m.link j a frame).2.Failed i ↔
      m.Failed i ∨ i = j ∧ maxOutgoingFrames ≤ (m.clients j).outgoing.count := by
  unfold ClientManager.link
  dsimp only
  split_ifs with hfull
  · rw [failed_update rfl]
    by_cases hij : i = j
    · simp [hij, hfull]
    · simp [hij]
  · have hkeep : ({ m.set j { m.clients j with
        outgoing := (LinkedQueue.enqueue m.heap (m.clients j).outgoing a frame).2 } with
          heap := (LinkedQueue.enqueue m.heap (m.clients j).outgoing a frame).1 } :
        ClientManager).Failed i ↔ m.Failed i := by
      refine failed_keep rfl ?_
      rfl
    refine hkeep.trans ?_
    simp [hfull]

theorem Inv.failed_queueFrame (h : Inv m) (address : Option ℕ) (notified : Option Errno)
    (c : ClientId) (type : FrameType) (payload : Bytes) (hi : ¬m.Failed i) :
    (m.queueFrameToClientId address notified c type payload).2.Failed i ↔
      payload.length ≤ frameMaxSize - 1 ∧ (malloc m.heap address).isSome = true ∧
        notified = none ∧ m.findReady c = some i ∧ (m.pending i).length = maxOutgoingFrames := by
  unfold queueFrameToClientId
  by_cases hc : c = invalidClientId
  · rw [if_pos hc]
    refine ⟨fun hf => absurd hf hi, fun hf => ?_⟩
    obtain ⟨hact, -, hid⟩ := findReady_some hf.2.2.2.1
    exact absurd (hid.trans hc) (h.id_ne i hact)
  rw [if_neg hc]
  by_cases hlen : payload.length > frameMaxSize - 1
  · rw [if_pos hlen]
    exact ⟨fun hf => absurd hf hi, fun hf => absurd hf.1 (not_le.mpr hlen)⟩
  rw [if_neg hlen]
  cases ha : malloc m.heap address with
  | none => simpa using hi
  | some a =>
    cases hfind : m.findReady c with
    | none => simpa using hi
    | some j =>
      cases notified with
      | some e => simpa using hi
      | none =>
        have hcount : ((m.signal j).clients j).outgoing.count = (m.clients j).outgoing.count := by
          simp [ClientManager.signal, ClientManager.set]
        have hsignal : (m.signal j).Failed i ↔ m.Failed i := failed_keep rfl rfl
        have hle : (m.pending i).length ≤ maxOutgoingFrames := by
          obtain ⟨cells, hcells⟩ := h.queues
          rw [Queues.pending hcells i, List.length_map]
          exact hcells.2 i
        dsimp only
        rw [failed_link, hsignal, hcount]
        simp only [hi, false_or, not_lt.mp hlen, Option.isSome_some, true_and, Option.some.injEq]
        constructor
        · rintro ⟨rfl, hfull⟩
          exact ⟨rfl, le_antisymm hle (by rw [h.length_pending]; exact hfull)⟩
        · rintro ⟨rfl, hfull⟩
          exact ⟨rfl, by rw [← h.length_pending, hfull]⟩

end ClientManager

theorem failed_perform {x : Shared} (h : x.clients.Inv) (libc : Libc) (o : Op) {i : Fin maxClients}
    (hi : ¬x.clients.Failed i) :
    (perform libc x o).2.clients.Failed i ↔ ∃ c type payload, o = .queueFrame c type payload ∧
      payload.length ≤ frameMaxSize - 1 ∧ (malloc x.clients.heap libc.address).isSome = true ∧
      libc.eventfdWrite = none ∧ x.clients.findReady c = some i ∧
      (x.clients.pending i).length = maxOutgoingFrames := by
  cases o with
  | queueFrame c type payload =>
    refine (h.failed_queueFrame libc.address libc.eventfdWrite c type payload hi).trans ?_
    constructor
    · exact fun hf => ⟨c, type, payload, rfl, hf⟩
    · rintro ⟨c', type', payload', ho, hf⟩
      cases ho
      exact hf
  | registerClientPublicKey c key =>
    have hsame : (perform libc x (.registerClientPublicKey c key)).2.clients.Failed i ↔
        x.clients.Failed i := by
      simp only [perform, Shared.onClients]
      exact failed_registerClientPublicKey c key
    simp [hsame, hi]
  | _ => simp [perform, Shared.onRoutes, hi]

theorem Server.Wf.failed_turn {s : Server} (hwf : s.Wf) {n : ℕ} {env : Env} {x' : Shared}
    {t t' : Thread} {evs : List Event} (ht : s.threads n = t)
    (hturn : Turn n env.libc s.shared t x' t' evs) {i : Fin maxClients}
    (hi : ¬s.shared.clients.Failed i) : x'.clients.Failed i ↔ Overflows s (n, env) i := by
  have hno : t.nextOp = none → (x'.clients.Failed i → s.shared.clients.Failed i) →
      (x'.clients.Failed i ↔ Overflows s (n, env) i) := by
    intro hnext hback
    refine ⟨fun hf => absurd (hback hf) hi, ?_⟩
    rintro ⟨c, type, payload, ho, -⟩
    rw [ht, hnext] at ho
    cases ho
  have hop : ∀ o, t.nextOp = some o →
      ((perform env.libc s.shared o).2.clients.Failed i ↔ Overflows s (n, env) i) := by
    intro o hnext
    rw [failed_perform hwf.clients env.libc o hi, Overflows, ht, hnext]
    simp only [Option.some.injEq]
  cases hturn with
  | refuse => exact hno rfl id
  | login hadd => exact hno rfl (failed_addClient hadd)
  | welcome j name => exact hno rfl id
  | quiet hq => cases hq <;> exact hno rfl id
  | activate hact => exact hno rfl (failed_activateClient hact).mp
  | inactive hact => exact hno rfl id
  | drain u ho htf => exact hno rfl (failed_drain u.index).mp
  | take hpc => exact hno rfl (failed_takeOutgoingFrame _).mp
  | write hk => exact hno rfl id
  | handle hpc => exact hno rfl id
  | op u w o k => exact hop o rfl
  | ret u w keep => exact hno rfl id
  | leave u => exact hno rfl failed_removeClient
  | abort u => exact hno rfl failed_removeClient
  | abortOp u o k => exact hop o rfl
  | abortRet u => exact hno rfl id

theorem Server.failed_step {ok : Server → Label → Prop} {s s' : Server} {l : Label}
    (hs : server.Reach ok s) (h : server.step s l = some s') {i : Fin maxClients}
    (hi : ¬s.shared.clients.Failed i) : s'.shared.clients.Failed i ↔ Overflows s l i := by
  obtain ⟨n, env⟩ := l
  obtain ⟨x', t', evs, hturn, rfl⟩ := Server.step_turn h
  exact (Server.wf_of_reach hs).failed_turn rfl hturn hi

/-- A client is cut only by a frame for which its queue, of 128 frames, has no room; a
client whose worker keeps its queue below that is never cut, whatever is sent to it. -/
theorem only_overflow_cuts (i : Fin maxClients) :
    (∀ s l s', server.Reachable s → server.step s l = some s' → ¬s.shared.clients.Failed i →
      (s'.shared.clients.Failed i ↔ Overflows s l i)) ∧
    ∀ s, server.Reach (fun s l => ¬Overflows s l i) s → ¬s.shared.clients.Failed i ∧
      ∀ c, s.shared.clients.findActive c = some i →
        s.shared.clients.clientOutputStatus c = .ok () := by
  refine ⟨fun s l s' hs h hi => Server.failed_step hs h hi, fun s hs => ?_⟩
  have hi : ¬s.shared.clients.Failed i := by
    refine hs.invariant (P := fun s => ¬s.shared.clients.Failed i) (fun h => by cases h) ?_
    intro s l s' hr hok hi h hf
    exact hok ((Server.failed_step hr h hi).mp hf)
  refine ⟨hi, fun c hc => ?_⟩
  unfold ClientManager.clientOutputStatus
  rw [hc]
  exact if_neg hi

/-- `a` sends `b` 129 messages before `b`'s worker takes its first step. -/
def floodLabels : List Label :=
  let message := FrameType.text.toByte :: ascii "/msg b x"
  addressed (loginLabels 0 (ascii "a") ++ loginLabels 1 (ascii "b") ++
    (List.replicate 128 (frameLabels 0 message ++ stepLabels 0 [none, none, none])).flatten ++
    frameLabels 0 message ++ stepLabels 0 [none])

/-- The slot of `b`. -/
def floodSlot : Fin maxClients := ⟨1, by decide⟩

def floodLabel : Label := (0, { libc := { address := some 100000 } })

/-- What the flood shows of a state: `b`'s thread is in its loop with no write pending,
and its mark before and after the last message is queued. -/
def floodView (s : Server) : Option (Fin maxClients × Wait) × Bool × Option Bool :=
  (match s.threads 1 with
    | .working u w => some (u.index, w.writeWait)
    | _ => none,
   (s.shared.clients.clients floodSlot).outgoingFailed,
   (server.step s floodLabel).map fun s' => (s'.shared.clients.clients floodSlot).outgoingFailed)

theorem flood_run : ∃ s s' u w, server.Reachable s ∧ server.step s floodLabel = some s' ∧
    s.threads 1 = .working u w ∧ u.index = floodSlot ∧ w.writeWait = .none ∧
    ¬s.shared.clients.Failed floodSlot ∧ s'.shared.clients.Failed floodSlot := by
  have hrun : (server.run server.init floodLabels).map floodView =
      some (some (floodSlot, .none), false, some true) := by decide +kernel
  obtain ⟨s, hs, hview⟩ := Option.map_eq_some_iff.mp hrun
  obtain ⟨hthread, hrest⟩ := Prod.mk.inj hview
  obtain ⟨hbefore, hafter⟩ := Prod.mk.inj hrest
  obtain ⟨s', hstep, hs'⟩ := Option.map_eq_some_iff.mp hafter
  split at hthread
  · next u w hw =>
    obtain ⟨hu, hwait⟩ := Prod.mk.inj (Option.some.inj hthread)
    refine ⟨s, s', u, w, .run .init hs, hstep, hw, hu, hwait, ?_, hs'⟩
    rw [Failed, hbefore]
    exact Bool.false_ne_true
  · cases hthread

/-- The last message overflows `b`'s queue. -/
theorem only_overflow_cuts_flooded :
    ∃ s s', server.Reachable s ∧ server.step s floodLabel = some s' ∧
      ¬s.shared.clients.Failed floodSlot ∧ s'.shared.clients.Failed floodSlot ∧
      Overflows s floodLabel floodSlot := by
  obtain ⟨s, s', u, w, hs, hstep, -, -, -, hbefore, hafter⟩ := flood_run
  exact ⟨s, s', hs, hstep, hbefore, hafter,
    ((only_overflow_cuts floodSlot).1 s floodLabel s' hs hstep hbefore).mp hafter⟩

/-- A client is cut although its socket has refused nothing. -/
theorem flood_cuts_idle_socket : ¬∀ s l s' n u, server.Reachable s → server.step s l = some s' →
    (s.threads n).session = some u → (s.threads n).slot = some u.index →
    ¬s.shared.clients.Failed u.index → s'.shared.clients.Failed u.index →
    (s.threads n).WritePending := by
  intro hclaim
  obtain ⟨s, s', u, w, hs, hstep, hw, hu, hwait, hbefore, hafter⟩ := flood_run
  rw [← hu] at hbefore hafter
  have hpending := hclaim s floodLabel s' 1 u hs hstep (by rw [hw]; rfl) (by rw [hw]; rfl)
    hbefore hafter
  rw [hw] at hpending
  exact hpending hwait

end CipherChat
