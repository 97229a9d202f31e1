import CipherChat.Keys

/-!
# A client that waits

What a connection does with nothing but its own steps: a worker at the top of its loop, with
nothing to send, reads the next frame, passes it on and comes back.
-/

namespace CipherChat

open Resumption Prog ClientManager Transition FileRoutes

/-- The client of `u` can receive frames and has none to receive; there is memory for one. -/
structure ClientManager.Idle (m : ClientManager) (u : Session) : Prop where
  id_ne : u.id ≠ invalidClientId
  active : m.findActive u.id = some u.index
  ready : m.findReady u.id = some u.index
  outgoing : (m.clients u.index).outgoing = {}
  outgoingFailed : (m.clients u.index).outgoingFailed = false
  wakeFd : (m.clients u.index).wakeFd = some 0
  memory : m.heap 0 = none

namespace ClientManager.Idle

variable {m : ClientManager} {u : Session}

theorem set_self (m : ClientManager) (i : Fin maxClients) : m.set i (m.clients i) = m := by
  obtain ⟨clients, nextClientId, heap⟩ := m
  unfold set
  congr
  exact Function.update_eq_self i clients

theorem drain (h : m.Idle u) : m.drain u.index = m := by
  have hsame : ∀ c : Client, c.wakeFd = some 0 →
      { c with wakeFd := c.wakeFd.map fun _ => 0 } = c := by
    intro c hc
    obtain ⟨wakeFd, username, active, ready, id, publicKey, hasPublicKey, outgoing, failed⟩ := c
    dsimp only at hc ⊢
    rw [hc, Option.map_some]
  unfold ClientManager.drain
  rw [hsame _ h.wakeFd]
  exact set_self m u.index

theorem status (h : m.Idle u) : m.clientOutputStatus u.id = .ok () := by
  have hopen : ¬(m.clients u.index).outgoingFailed = true := by
    rw [h.outgoingFailed]
    exact Bool.false_ne_true
  unfold clientOutputStatus
  rw [h.active]
  exact if_neg hopen

theorem take (h : m.Idle u) : m.takeOutgoingFrame u.id = (.ok none, m) := by
  have hempty : LinkedQueue.dequeue m.heap (m.clients u.index).outgoing =
      (none, m.heap, (m.clients u.index).outgoing) := by
    rw [h.outgoing]
    rfl
  have hopen : ¬(m.clients u.index).outgoingFailed = true := by
    rw [h.outgoingFailed]
    exact Bool.false_ne_true
  unfold takeOutgoingFrame
  rw [if_neg h.id_ne, h.active]
  dsimp only
  rw [if_neg hopen, hempty]
  exact congrArg (Prod.mk _) (set_self m u.index)

theorem queue (h : m.Idle u) {text : Bytes} (hlen : text.length ≤ bufferSize) :
    (m.queueFrameToClientId (some 0) none u.id .text text).1 = .ok () := by
  have hmax := frameMaxSize_eq
  have hbuffer := bufferSize_eq
  have hmalloc : malloc m.heap (some 0) = some 0 := by
    rw [malloc, Option.filter_some, h.memory]
    rfl
  have hcount : ¬maxOutgoingFrames ≤ ((m.signal u.index).clients u.index).outgoing.count := by
    unfold signal set
    dsimp only
    rw [Function.update_self]
    dsimp only
    rw [h.outgoing]
    decide
  unfold queueFrameToClientId
  rw [if_neg h.id_ne, if_neg (by omega), hmalloc, h.ready]
  unfold link
  dsimp only
  rw [if_neg hcount]

end ClientManager.Idle

theorem Server.reads {s : Server} {n : ℕ} {u : Session} {w : Worker} (bytes : Bytes)
    (hidle : s.shared.clients.Idle u) (hn : s.threads n = .working u w) (hpc : w.pc = .drain)
    (hout : w.outgoingLength = 0) (hwait : w.writeWait = .none) (hok : w.ReadOk (.data bytes)) :
    server.Steps s { s with
      threads := Function.update s.threads n (.working u
        (Worker.afterRead { w with pc := .read, progress := false } (.data bytes))) } := by
  have h1 : threadStep s.shared n {} (.working u w) =
      some (s.shared, .working u { w with pc := .status }, []) := by
    unfold threadStep workerStep
    dsimp only
    rw [hpc]
    dsimp only
    rw [if_pos rfl, hidle.drain]
    rfl
  have h2 : threadStep s.shared n {} (.working u { w with pc := .status }) =
      some (s.shared, .working u { w with pc := .take }, []) := by
    unfold threadStep workerStep
    dsimp only
    rw [hidle.status]
    unfold Worker.afterStatus
    dsimp only
    rw [if_pos hout]
  have h3 : threadStep s.shared n {} (.working u { w with pc := .take }) =
      some (s.shared, .working u { w with pc := .read, progress := false }, []) := by
    unfold threadStep workerStep
    dsimp only
    rw [hidle.take]
    unfold Worker.afterTake Worker.beginIo Worker.beginRead
    dsimp only
    rw [if_neg fun h => h.1 hout, if_pos hwait]
  have h4 : threadStep s.shared n { read := .data bytes }
      (.working u { w with pc := .read, progress := false }) =
      some (s.shared, .working u (Worker.afterRead { w with pc := .read, progress := false }
        (.data bytes)), []) := by
    unfold threadStep workerStep
    exact if_pos hok
  have hst := (((System.Steps.refl.tail (Server.step_of {} hn h1)).tail
    (Server.step_of {} (Function.update_self _ _ _) h2)).tail
    (Server.step_of {} (Function.update_self _ _ _) h3)).tail
    (Server.step_of _ (Function.update_self _ _ _) h4)
  simpa only [Function.update_idem, List.append_nil] using hst

def Worker.holding (w : Worker) (frame : Bytes) : Worker :=
  { w with
    pc := .handle frame
    incoming := BigEndian.encode 4 frame.length ++ frame
    needed := 4 + frame.length
    readWait := .none
    progress := true }

/-- The client of `u` is idle and its worker `w` is at the top of its loop, between two frames. -/
structure Server.Waits (s : Server) (n : ℕ) (u : Session) (w : Worker) : Prop where
  idle : s.shared.clients.Idle u
  thread : s.threads n = .working u w
  pc : w.pc = .drain
  incoming : w.incoming = []
  needed : w.needed = 4
  outgoingLength : w.outgoingLength = 0
  writeWait : w.writeWait = .none

theorem Server.Waits.takes {s : Server} {n : ℕ} {u : Session} {w : Worker} (h : s.Waits n u w)
    (frame : Bytes) (hpos : 0 < frame.length) (hmax : frame.length ≤ frameMaxSize)
    (htype : isValidFrameType (frame.headD 0) = true) :
    server.Steps s
      { shared := s.shared
        threads := Function.update s.threads n
          (.handling u (w.holding frame) (handleClientFrame u.id u.username frame))
        log := s.log ++ [.received u.id frame] } := by
  have hframe := frameMaxSize_eq
  obtain ⟨idle, thread, pc, incoming, needed, outgoingLength, writeWait⟩ := h
  obtain ⟨wpc, winc, wneed, wrw, wout, wol, wsent, www, wprog⟩ := w
  dsimp only at pc incoming needed outgoingLength writeWait
  subst pc incoming needed outgoingLength writeWait
  -- the header
  have hst₁ := Server.reads (BigEndian.encode 4 frame.length) idle thread rfl rfl rfl (by
    constructor
    · rw [BigEndian.encode_length]
      decide
    · rw [BigEndian.encode_length]
      exact le_rfl)
  have hw₁ : Worker.afterRead ⟨.read, [], 4, wrw, wout, 0, wsent, .none, false⟩
      (.data (BigEndian.encode 4 frame.length)) =
      ⟨.drain, BigEndian.encode 4 frame.length, 4 + frame.length, .none, wout, 0, wsent, .none,
        true⟩ := by
    have hdecode : BigEndian.decode (BigEndian.encode 4 frame.length) = frame.length :=
      BigEndian.decode_encode (by omega)
    unfold Worker.afterRead Worker.complete Worker.endIo Worker.received
    dsimp only
    rw [List.nil_append, BigEndian.encode_length, if_pos rfl, if_pos rfl, hdecode,
      if_neg (by omega), if_pos rfl]
  rw [hw₁] at hst₁
  -- the frame
  have hst₂ := hst₁.trans (Server.reads frame idle (Function.update_self _ _ _) rfl rfl rfl (by
    constructor
    · exact hpos
    · change frame.length ≤ 4 + frame.length - (BigEndian.encode 4 frame.length).length
      rw [BigEndian.encode_length]
      omega))
  have hw₂ : Worker.afterRead ⟨.read, BigEndian.encode 4 frame.length, 4 + frame.length, .none,
      wout, 0, wsent, .none, false⟩ (.data frame) =
      ⟨.handle frame, BigEndian.encode 4 frame.length ++ frame, 4 + frame.length, .none, wout, 0,
        wsent, .none, true⟩ := by
    unfold Worker.afterRead Worker.complete Worker.received
    dsimp only
    rw [List.length_append, BigEndian.encode_length, if_pos rfl, if_neg (by omega),
      List.drop_left' (BigEndian.encode_length _ _), if_pos htype]
  rw [hw₂] at hst₂
  have hst := hst₂.tail (Server.receives (Function.update_self _ _ _) rfl {})
  rwa [Function.update_idem, Function.update_idem] at hst

theorem Server.Waits.handles {s : Server} {n : ℕ} {u : Session} {w : Worker}
    (h : s.Waits n u w) (frame : Bytes) (hpos : 0 < frame.length)
    (hmax : frame.length ≤ frameMaxSize) (htype : isValidFrameType (frame.headD 0) = true) :
    ∃ s' w', server.Steps s s' ∧ s'.shared = s.shared ∧
      s'.log = s.log ++ [.received u.id frame] ∧
      s'.threads n = .handling u w' (handleClientFrame u.id u.username frame) ∧
      w'.pc = .handle frame ∧ w'.outgoingLength = 0 ∧ w'.writeWait = .none ∧
        w'.progress = true :=
  ⟨_, w.holding frame, h.takes frame hpos hmax htype, rfl, rfl, Function.update_self _ _ _, rfl,
    h.outgoingLength, h.writeWait, rfl⟩

theorem Server.returns {s : Server} {n : ℕ} {u : Session} {w : Worker}
    (hidle : s.shared.clients.Idle u) (hn : s.threads n = .handling u w (.ret true))
    (hout : w.outgoingLength = 0) (hwait : w.writeWait = .none) (hprogress : w.progress = true) :
    ∃ s' w', server.Steps s s' ∧ s'.shared = s.shared ∧ s'.log = s.log ++ [.returned u.id] ∧
      s'.Waits n u w' := by
  refine ⟨_, w.afterHandle true, .tail .refl (Server.step_of {} hn rfl), rfl, rfl, ?_⟩
  refine ⟨hidle, Function.update_self _ _ _, ?_, ?_, ?_, ?_, ?_⟩
  · unfold Worker.afterHandle Worker.endIo
    rw [if_pos rfl]
    dsimp only
    rw [if_pos hprogress]
  · rfl
  · rfl
  · exact hout
  · exact hwait

/-- `perform`, when `malloc` fails. -/
def starved (o : Op) (x : Shared) : o.Resp × Shared := perform {} x o

theorem Server.runs {s : Server} {n : ℕ} {u : Session} {w : Worker} {p : Handler Bool}
    (hn : s.threads n = .handling u w p) :
    server.Steps s
      { shared := (p.outcome starved s.shared).2
        threads := Function.update s.threads n
          (.working u (w.afterHandle (p.outcome starved s.shared).1))
        log := s.log ++ ((p.run starved s.shared).2.2.map (fun x => .did u.id x.1 x.2) ++
          [.returned u.id]) } := by
  induction p generalizing s with
  | ret keep => exact .tail .refl (Server.step_of {} hn rfl)
  | op o k ih =>
    have hrest := ih (starved o s.shared).1 (s := .mk (starved o s.shared).2
      (Function.update s.threads n (.handling u w (k (starved o s.shared).1)))
      (s.log ++ [.did u.id o (starved o s.shared).1])) (Function.update_self _ _ _)
    have hst := (System.Steps.tail .refl (Server.performs hn {})).trans hrest
    rw [Function.update_idem, List.append_assoc] at hst
    exact hst

/-- Without memory no frame is queued, and nothing else happens. -/
theorem starved_queueFrame (x : Shared) (c : ClientId) (type : FrameType) (payload : Bytes) :
    ∃ e, starved (.queueFrame c type payload) x = (.error e, x) := by
  have hsame : ∃ e, x.clients.queueFrameToClientId none none c type payload =
      (.error e, x.clients) := by
    unfold queueFrameToClientId
    split_ifs
    · exact ⟨_, rfl⟩
    · exact ⟨_, rfl⟩
    · exact ⟨_, rfl⟩
  obtain ⟨e, hsame⟩ := hsame
  refine ⟨e, ?_⟩
  simp only [starved, perform, Shared.onClients, hsame]

theorem notifySenderForTransfer_eq {c : ClientId} (hc : c ≠ invalidClientId) (src : UInt32)
    (message : Bytes) (hm : message ≠ []) (hlen : message.length ≤ bufferSize) :
    ∃ text, text.length ≤ bufferSize ∧ notifySenderForTransfer c src message =
      .op (.queueFrame c .text text) fun _ => .ret () := by
  have hsend : ∀ text : Bytes, text ≠ [] →
      notifySender c text = .op (.queueFrame c .text text) fun _ => .ret () := by
    intro text ht
    unfold notifySender sendTextToClientId
    rw [if_pos hc, if_neg ht]
    rfl
  unfold notifySenderForTransfer
  dsimp only
  split
  · next h => exact ⟨_, h.2.le, hsend _ (List.length_pos_iff.mp h.1)⟩
  · exact ⟨_, hlen, hsend _ hm⟩

theorem handleClientFrame_shortBegin {u : Session} (hid : u.id ≠ invalidClientId)
    (hname : validPeerName u.username = true) (src : UInt32) :
    ∃ k text, handleClientFrame u.id u.username (FrameType.fileBegin.toByte :: writeU32 src) =
        .op (.routesQuarantine u.id src true) k ∧
      ∀ answer, answer.wasForwarding = false →
        k answer = .op (.queueFrame u.id .text text) fun _ => .ret true := by
  have hlen : (FrameType.fileBegin.toByte :: writeU32 src).length = 5 := by simp
  have hmax := frameMaxSize_eq
  have hfixed : 1 + fileBeginFixedPayloadSize = 17 := rfl
  obtain ⟨h0, h1, -⟩ := validPeerName_iff.mp hname
  obtain ⟨text, -, htext⟩ := notifySenderForTransfer_eq hid src
    (ascii "File transfer rejected: malformed begin frame\n")
    (ascii_ofList_ne_nil (by decide)) (le_of_eq_of_le (length_ascii_ofList _) (by decide))
  have hdecode : decodeBegin (FrameType.fileBegin.toByte :: writeU32 src) = none := by
    unfold decodeBegin
    rw [if_pos]
    rw [hlen, hfixed]
    rfl
  have hread : readTransferId (FrameType.fileBegin.toByte :: writeU32 src) = some src := by
    have h := readTransferId_cons FrameType.fileBegin.toByte src []
    rwa [List.append_nil] at h
  let rest (answer : FileRoutes.QuarantineAnswer) : Handler Int := do
    if answer.wasForwarding then
      let _ ← sendReceiverError answer.previous
    notifySenderForTransfer u.id src (ascii "File transfer rejected: malformed begin frame\n")
    pure (-1)
  refine ⟨fun answer => rest answer >>= fun _ => pure true, text, ?_, fun answer hno => ?_⟩
  · rw [handleClientFrame_file (isFileFrame_of_head (by decide) rfl)]
    unfold routeFileFrame
    rw [if_neg (by rw [hlen]; simp [hid]), if_neg (by rw [hlen]; omega)]
    rw [List.head?_cons, Option.bind_some, FrameType.ofByte_toByte]
    unfold handleFileBegin
    rw [if_neg (by simp [h0, hname, h1]), hdecode]
    unfold rejectMalformed rejectKnownTransfer
    rw [hread]
    rfl
  · dsimp only [rest]
    rw [if_neg (by rw [hno]; exact Bool.false_ne_true), htext]
    rfl

/-- The call for an END. -/
theorem handleClientFrame_end {u : Session} (hid : u.id ≠ invalidClientId) (src : UInt32) :
    ∃ k text, text.length ≤ bufferSize ∧
      handleClientFrame u.id u.username (FrameType.fileEnd.toByte :: writeU32 src) =
        .op (.routesFinish u.id src true) k ∧
      (∀ endpoint, k ⟨.missing, endpoint⟩ =
        .op (.queueFrame u.id .text text) fun _ => .ret true) ∧
      ∀ endpoint, k ⟨.discard, endpoint⟩ = .ret true := by
  have hlen : (FrameType.fileEnd.toByte :: writeU32 src).length = 5 := by simp
  have hmax := frameMaxSize_eq
  obtain ⟨text, hlength, htext⟩ := notifySenderForTransfer_eq hid src
    (ascii "File transfer rejected: end has no matching begin frame\n")
    (ascii_ofList_ne_nil (by decide)) (le_of_eq_of_le (length_ascii_ofList _) (by decide))
  have hdecode : decodeControl (FrameType.fileEnd.toByte :: writeU32 src) .fileEnd = .ok src :=
    decodeControl_encodeControl (.inl rfl) (encodeControl_eq src)
  rw [handleClientFrame_file (isFileFrame_of_head (by decide) rfl)]
  unfold routeFileFrame
  rw [if_neg (by rw [hlen]; simp [hid]), if_neg (by rw [hlen]; omega), List.head?_cons,
    Option.bind_some, FrameType.ofByte_toByte]
  unfold handleFileEnd
  rw [hdecode]
  refine ⟨_, text, hlength, rfl, fun endpoint => ?_, fun endpoint => rfl⟩
  dsimp only
  rw [htext]
  rfl

/-- The session of `ann`, who logs in first. -/
def ann : Session := ⟨⟨0, by decide⟩, 1, ascii "ann"⟩

/-- The session and the worker of a thread in its loop. -/
def Thread.loop : Thread → Option (Session × Worker)
  | .working u w => some (u, w)
  | _ => none

theorem Server.Waits.of_view {s : Server} {n : ℕ} {u : Session} {progress : Bool}
    (hid : u.id ≠ invalidClientId) (hloop : (s.threads n).loop = some (u, { progress }))
    (hmemory : s.shared.clients.heap 0 = none)
    (hview : (s.shared.clients.findActive u.id, s.shared.clients.findReady u.id,
      (s.shared.clients.clients u.index).outgoing,
        (s.shared.clients.clients u.index).outgoingFailed,
      (s.shared.clients.clients u.index).wakeFd) = (some u.index, some u.index, {}, false,
        some 0)) :
    s.Waits n u { progress } := by
  have hthread : s.threads n = .working u { progress } := by
    unfold Thread.loop at hloop
    split at hloop
    · next u' w h =>
      obtain ⟨rfl, rfl⟩ := Prod.mk.inj (Option.some.inj hloop)
      exact h
    · cases hloop
  obtain ⟨hactive, hview⟩ := Prod.mk.inj hview
  obtain ⟨hready, hview⟩ := Prod.mk.inj hview
  obtain ⟨hout, hview⟩ := Prod.mk.inj hview
  obtain ⟨hfailed, hwake⟩ := Prod.mk.inj hview
  exact ⟨⟨hid, hactive, hready, hout, hfailed, hwake, hmemory⟩, hthread, rfl, rfl, rfl, rfl, rfl⟩

theorem ann_waits : ∃ s w, server.Reachable s ∧ s.Waits 0 ann w ∧ s.shared.routes = .init := by
  have hrun : (server.run server.init (loginLabels 0 (ascii "ann"))).map (fun s =>
      ((s.threads 0).loop, s.log.all (·.client.isNone), (s.shared.clients.heap 0).isNone)) =
      some (some (ann, {}), true, true) := by
    decide +kernel
  have hclient : (server.run server.init (loginLabels 0 (ascii "ann"))).map (fun s =>
      (s.shared.clients.findActive 1, s.shared.clients.findReady 1,
        (s.shared.clients.clients ann.index).outgoing,
        (s.shared.clients.clients ann.index).outgoingFailed,
        (s.shared.clients.clients ann.index).wakeFd)) =
      some (some ann.index, some ann.index, {}, false, some 0) := by
    decide +kernel
  obtain ⟨s, hs, hview⟩ := Option.map_eq_some_iff.mp hrun
  rw [hs, Option.map_some] at hclient
  obtain ⟨hloop, hview⟩ := Prod.mk.inj hview
  obtain ⟨hlog, hmemory⟩ := Prod.mk.inj hview
  have hreach : server.Reachable s := System.Reachable.run .init hs
  refine ⟨s, {}, hreach, .of_view (show ann.id ≠ invalidClientId by decide) hloop
    (Option.isNone_iff_eq_none.mp hmemory) (Option.some.inj hclient), ?_⟩
  rw [Server.routes_eq hreach, ← List.nil_append s.log, routesAt_append_of_none]
  · rfl
  · intro e he
    rw [List.all_eq_true] at hlog
    exact Option.isNone_iff_eq_none.mp (hlog e he)

end CipherChat
