import CipherChat.Forwarding
import CipherChat.PeerNames
import CipherChat.Reception
import CipherChat.Sealing

/-!
# A chat

The server with any number of clients at the other ends of its connections; behind the
connections without a client there may be anything.  Each direction of a connection carries its
bytes in order.  How far either end has got, what fails, and what the users type, is left open.
-/

namespace CipherChat

open Resumption Prog Receiver Transition

/-- The clients, by the ids of their connections. -/
abbrev ChatConfig := ClientId → Option (ClientConfig × FileStore Bytes UInt8)

structure Chat where
  server : Server
  clients : ClientId → Option ClientProcess

inductive ChatLabel
  | server (l : Label)
  | client (c : ClientId) (l : ClientLabel)

namespace Chat

variable (g : ChatConfig) (k : Chat)

/-- A frame that is handed over is the next that its client has written. -/
def sends : Event → Bool
  | .received c frame => (k.clients c).all fun p =>
    (handed k.server.log c ++ [frame]).flatMap wireFrame <+: acceptedBytes p.log
  | _ => true

/-- The end of a connection, as it would be alone with the server. -/
def reception (c : ClientId) : Option (ReceptionConfig × Reception) :=
  match g c, k.clients c with
  | some (client, store), some p => some (⟨client, store, c⟩, ⟨k.server, p⟩)
  | _, _ => none

def step : ChatLabel → Option Chat
  | .server l =>
    match k.server.step l with
    | some server =>
      if (server.log.drop k.server.log.length).all k.sends then some { k with server } else none
    | none => none
  | .client c l =>
    match k.reception g c with
    | some (r, k₀) => (k₀.step r (.client l)).map fun k₁ =>
        { k with clients := Function.update k.clients c (some k₁.client) }
    | none => none

end Chat

def chat (g : ChatConfig) : System Chat ChatLabel where
  init := {
    server := Server.init
    clients := fun c => (g c).map fun client => .start client.1 client.2
  }
  step := Chat.step g

section

variable {g : ChatConfig} {k : Chat} {ok : Chat → ChatLabel → Prop}

theorem Chat.step_cases {k' : Chat} {l : ChatLabel} (h : k.step g l = some k') :
    (∃ sl server', l = .server sl ∧ k.server.step sl = some server' ∧
      (server'.log.drop k.server.log.length).all k.sends = true ∧
      k' = { k with server := server' }) ∨
    ∃ c cl client store p p', l = .client c cl ∧ g c = some (client, store) ∧
      k.clients c = some p ∧
      (⟨k.server, p⟩ : Reception).step ⟨client, store, c⟩ (.client cl) = some ⟨k.server, p'⟩ ∧
      k' = { k with clients := Function.update k.clients c (some p') } := by
  unfold Chat.step at h
  split at h
  · split at h
    · next hserver =>
      split at h
      · next hsends =>
        cases h
        exact .inl ⟨_, _, rfl, hserver, hsends, rfl⟩
      · cases h
    · cases h
  · next c cl =>
    split at h
    · next r k₀ hk₀ =>
      unfold Chat.reception at hk₀
      split at hk₀
      · next client store p hg hp =>
        cases hk₀
        obtain ⟨k₁, hstep, rfl⟩ := Option.map_eq_some_iff.mp h
        rcases Reception.step_cases hstep with ⟨sl, s, hl, -⟩ | ⟨cl', p', hl, -, -, rfl⟩
        · cases hl
        · exact .inr ⟨c, cl, client, store, p, p', rfl, hg, hp, hstep, rfl⟩
      · cases hk₀
    · cases h

theorem chat_reception (hk : (chat g).Reach ok k) {c : ClientId} {client : ClientConfig}
    {store : FileStore Bytes UInt8} (hg : g c = some (client, store)) {p : ClientProcess}
    (hp : k.clients c = some p) :
    (reception ⟨client, store, c⟩).Reachable ⟨k.server, p⟩ := by
  revert p
  refine hk.invariant (P := fun k => ∀ {p}, k.clients c = some p →
    (reception ⟨client, store, c⟩).Reachable ⟨k.server, p⟩) ?_ ?_
  · intro p hp
    change (g c).map _ = some p at hp
    rw [hg] at hp
    cases hp
    exact .init
  intro k l k' _ _ hold hstep p hp
  rcases Chat.step_cases hstep with ⟨sl, server', -, hserver, -, rfl⟩ |
    ⟨d, cl, client', store', q, q', rfl, hd, hq, hclient, rfl⟩
  · refine .step (i := .server sl) (hold hp) trivial ?_
    change (k.server.step sl).map _ = _
    rw [hserver]
    rfl
  · dsimp only at hp
    by_cases hdc : c = d
    · subst hdc
      rw [Function.update_self] at hp
      cases hp
      rw [hg] at hd
      cases hd
      exact .step (i := .client cl) (hold hq) trivial hclient
    · rw [Function.update_of_ne hdc] at hp
      exact hold hp

theorem chat_server (hk : (chat g).Reach ok k) : server.Reachable k.server := by
  refine hk.invariant (P := fun k => server.Reachable k.server) .init ?_
  intro k l k' _ _ hold hstep
  rcases Chat.step_cases hstep with ⟨sl, server', -, hserver, -, rfl⟩ |
    ⟨d, cl, client, store, q, q', -, -, -, -, rfl⟩
  · exact .step hold trivial hserver
  · exact hold

theorem chat_handed (hk : (chat g).Reach ok k) {c : ClientId} {p : ClientProcess}
    (hp : k.clients c = some p) :
    (handed k.server.log c).flatMap wireFrame <+: acceptedBytes p.log := by
  revert p
  refine hk.invariant (P := fun k => ∀ {p}, k.clients c = some p →
    (handed k.server.log c).flatMap wireFrame <+: acceptedBytes p.log) ?_ ?_
  · exact fun _ => List.nil_prefix
  intro k l k' hr _ hold hstep p hp
  rcases Chat.step_cases hstep with ⟨⟨n, env⟩, server', -, hserver, hsends, rfl⟩ |
    ⟨d, cl, client, store, q, q', -, hd, hq, hclient, rfl⟩
  · obtain ⟨x', t', evs, hturn, rfl⟩ := Server.step_turn hserver
    dsimp only at hsends hp ⊢
    rw [List.drop_left] at hsends
    rcases hturn.events with rfl | ⟨e, rfl⟩
    · rw [List.append_nil]
      exact hold hp
    · have he := List.all_eq_true.mp hsends e (List.mem_singleton.mpr rfl)
      cases e with
      -- the server handles only what the client has handed to TLS
      | received d frame =>
        by_cases hd : d = c
        · subst hd
          have hone : handed [.received d frame] d = [frame] := by simp [handed, Event.handedTo]
          rw [handed_append, hone]
          rw [Chat.sends, hp, Option.all_some, decide_eq_true_iff] at he
          exact he
        · rw [handed_of_none (by rw [Event.handedTo, if_neg hd])]
          exact hold hp
      | _ =>
        rw [handed_of_none rfl]
        exact hold hp
  · dsimp only at hp ⊢
    by_cases hdc : c = d
    · subst hdc
      rw [Function.update_self] at hp
      cases hp
      rcases Reception.step_cases hclient with ⟨sl, s, hl, -⟩ | ⟨cl', p', hl, -, hp', heq⟩
      · cases hl
      cases hl
      cases heq
      rcases ClientProcess.step_cause hp' with hlog | ⟨e, hlog, -⟩
      · rw [hlog]
        exact hold hq
      · rw [hlog, acceptedBytes_append]
        exact (hold hq).trans (List.prefix_append _ _)
    · rw [Function.update_of_ne hdc] at hp
      exact hold hp

theorem accepted_called {cfg : ClientConfig} {store : FileStore Bytes UInt8} {p : ClientProcess}
    (hp : (client cfg store).Reachable p) : acceptedBytes p.log <+: calledBytes p.log := by
  have hstream := System.Reach.invariant (P := fun p => p.Whole ∨ p.Ended)
    (.inl ClientProcess.whole_start) (fun _ _ _ _ _ h hstep => ClientProcess.step_stream h hstep) hp
  exact hstream.elim ClientProcess.Whole.part ClientProcess.Ended.part

theorem chat_called (hk : (chat g).Reach ok k) {c : ClientId} {cfg : ClientConfig}
    {store : FileStore Bytes UInt8} (hg : g c = some (cfg, store)) {p : ClientProcess}
    (hp : k.clients c = some p) :
    handed k.server.log c <+: (calledFrames p.log).map fun f => f.1.toByte :: f.2 := by
  have hclient := reception_client_reachable (chat_reception hk hg hp)
  obtain ⟨rest, hrest⟩ := (chat_handed hk hp).trans (accepted_called hclient)
  rw [calledBytes_eq] at hrest
  have hfit : ∀ f ∈ (calledFrames p.log).map fun f => (⟨f.1, f.2⟩ : OutgoingFrame),
      f.payload.length ≤ frameMaxSize - 1 := by
    intro f hf
    obtain ⟨f', hf', rfl⟩ := List.mem_map.mp hf
    exact calledFrames_fit hclient f' hf'
  have hframes := frames_of_stream hfit (Server.handed_fit (chat_server hk) c) hrest.symm
  rw [List.map_map] at hframes
  exact ⟨_, hframes.symm⟩

def isCiphertext (frame : Bytes) : Bool := frame.head? = some FrameType.ciphertext.toByte

theorem filter_called (log : List ClientEvent) :
    ((calledFrames log).map fun f => f.1.toByte :: f.2).filter isCiphertext =
      (sealedPayloads log).map (FrameType.ciphertext.toByte :: ·) := by
  rw [calledFrames, sealedPayloads, List.map_filterMap, List.map_filterMap, List.filter_filterMap]
  refine List.filterMap_congr fun e _ => ?_
  cases e with
  | note n =>
    cases n with
    | sendFrame type payload => cases type <;> rfl
    | _ => rfl
  | _ => rfl

end

/-- What `handle_server_frame` displays as a private message: the sender and the text. -/
def shown (cfg : ReceiverConfig) (frame : Bytes) : Option (Bytes × Bytes) :=
  if isCiphertext frame then (receivePrivateChat cfg (frame.drop 1)).toOption else none

theorem shown_ciphertext (cfg : ReceiverConfig) (payload : Bytes) :
    shown cfg (FrameType.ciphertext.toByte :: payload) =
      (receivePrivateChat cfg payload).toOption :=
  if_pos (decide_eq_true rfl)

/-- The calls of `display_private_message` in a trace. -/
def displayed (xs : List ((o : ClientOp) × o.Resp)) : List (Bytes × Bytes) :=
  xs.filterMap fun x =>
    match x.1 with
    | .displayPrivateMessage sender message => some (sender, message)
    | _ => none

/-- Every operation but `display_private_message`. -/
def Undisplayed : ClientOp → Prop
  | .displayPrivateMessage _ _ => False
  | _ => True

theorem displayed_nil {α : Type} {p : ClientProg α} {xs : List ((o : ClientOp) × o.Resp)} {a : α}
    (hp : p.Performs Undisplayed) (h : p.Ends xs a) : displayed xs = [] := by
  induction h with
  | ret => rfl
  | @op o r k xs a _ ih =>
    have hrest := ih (hp.2 r)
    cases o with
    | displayPrivateMessage sender message => exact hp.1.elim
    | _ => exact hrest

theorem undisplayed_sendFrame (type : FrameType) (payload : Bytes) :
    (sendFrame type payload).Performs Undisplayed := by
  refine performs_call trivial fun _ => performs_ite performs_pure ?_
  refine performs_call trivial fun header => ?_
  cases header with
  | error e => exact performs_pure
  | ok _ =>
    refine performs_call trivial fun byte => ?_
    cases byte with
    | error e => exact performs_pure
    | ok _ => exact performs_ite (performs_last trivial) performs_pure

theorem undisplayed_sendFileChunks (transferId : UInt32) (chunks : List Bytes) :
    (sendFileChunks transferId chunks).Performs Undisplayed := by
  induction chunks with
  | nil =>
    rw [sendFileChunks, sendFileControl, if_neg (by simp), encodeControl_eq]
    exact undisplayed_sendFrame _ _
  | cons chunk rest ih =>
    rw [sendFileChunks]
    refine performs_bind ?_ fun r => ?_
    · unfold sendFileChunk
      split
      · exact performs_pure
      · exact undisplayed_sendFrame _ _
    · cases r with
      | error e => exact performs_pure
      | ok _ => exact ih

theorem undisplayed_sendPackage (cfg : ClientConfig) (s : ClientState) (package : PendingPackage)
    (recipient key : Bytes) : (sendPackage cfg s package recipient key).Performs Undisplayed := by
  unfold sendPackage
  split
  · refine performs_bind (performs_call trivial fun env => ?_) fun _ => performs_pure
    split
    · exact performs_pure
    refine performs_bind ?_ fun r => ?_
    · unfold sendFileBegin
      split
      · exact performs_pure
      · exact undisplayed_sendFrame _ _
    · cases r with
      | error e => exact performs_pure
      | ok _ => exact performs_bind (undisplayed_sendFileChunks _ _) fun _ => performs_pure
  · refine performs_call trivial fun nonce => performs_bind ?_ fun _ => performs_pure
    unfold sendPrivateChat
    refine performs_ite performs_pure (performs_ite performs_pure ?_)
    refine performs_call trivial fun address => ?_
    split
    · exact performs_pure
    split
    · exact performs_pure
    · exact undisplayed_sendFrame _ _

theorem undisplayed_handlePeerPk (cfg : ClientConfig) (s : ClientState) (frame : Bytes) :
    (handlePeerPk cfg s frame).Performs Undisplayed := by
  unfold handlePeerPk
  split
  · exact performs_pure
  split
  · exact performs_pure
  dsimp only
  split
  · exact performs_call trivial fun _ => performs_pure
  · exact performs_call trivial fun _ => undisplayed_sendPackage _ _ _ _ _

theorem displayed_handleServerFrame {cfg : ClientConfig} {s s' : ClientState} {frame : Bytes}
    {xs : List ((o : ClientOp) × o.Resp)} (h : (handleServerFrame cfg s frame).Ends xs s') :
    displayed xs = (shown cfg.toReceiverConfig frame).toList := by
  by_cases hcipher : isCiphertext frame = true
  · obtain ⟨payload, rfl⟩ : ∃ payload, frame = FrameType.ciphertext.toByte :: payload := by
      cases frame with
      | nil => cases hcipher
      | cons type payload =>
        obtain rfl := Option.some.inj (decide_eq_true_iff.mp hcipher)
        exact ⟨payload, rfl⟩
    rw [handleServerFrame_ciphertext] at h
    rw [shown_ciphertext]
    cases hr : receivePrivateChat cfg.toReceiverConfig payload with
    | error e =>
      rw [hr] at h
      cases h
      rfl
    | ok m =>
      rw [hr] at h
      cases h with
      | op hend =>
        cases hend
        rfl
  · have hquiet : (handleServerFrame cfg s frame).Performs Undisplayed := by
      unfold handleServerFrame
      split
      · exact performs_call trivial fun _ => performs_pure
      · exact undisplayed_handlePeerPk _ _ _
      · next htype =>
        obtain ⟨type, hhead, hof⟩ := Option.bind_eq_some_iff.mp htype
        rw [← FrameType.toByte_of_ofByte hof] at hhead
        exact absurd (decide_eq_true hhead) hcipher
      · exact performs_call trivial fun _ => performs_pure
    rw [displayed_nil hquiet h, shown, if_neg hcipher]
    rfl

/-- The frame that an event queues for `r`, and the connection whose thread does it. -/
def Event.queuedFrom (r : ClientId) : Event → Option (ClientId × OutgoingFrame)
  | .did c (.queueFrame r' type payload) (.ok ()) =>
    if r' = r then some (c, { type, payload }) else none
  | _ => none

theorem Event.queuedFrom_some {r c : ClientId} {f : OutgoingFrame} {e : Event}
    (h : e.queuedFrom r = some (c, f)) : e = .did c (.queueFrame r f.type f.payload) (.ok ()) := by
  unfold queuedFrom at h
  split at h
  · split at h
    · next hr =>
      cases h
      rw [hr]
    · cases h
  · cases h

/-- The frames queued for `r`, in order. -/
def queuedFrom (log : List Event) (r : ClientId) : List (ClientId × OutgoingFrame) :=
  log.filterMap (Event.queuedFrom r)

theorem queuedFrom_snd (log : List Event) (r : ClientId) :
    (queuedFrom log r).map Prod.snd = queued log r := by
  rw [queuedFrom, queued, List.map_filterMap]
  refine List.filterMap_congr fun e _ => ?_
  cases e with
  | did c o result =>
    cases o with
    | queueFrame r' type payload =>
      cases result with
      | ok u =>
        by_cases hr : r' = r <;> simp [Event.queuedFrom, Event.queuedTo, hr]
      | error e => rfl
    | _ => rfl
  | _ => rfl

/-- The message of a queued frame, and whose it is. -/
def message (cfg : ReceiverConfig) (f : ClientId × OutgoingFrame) :
    Option (ClientId × Bytes × Bytes) :=
  (shown cfg f.2.bytes).map (Prod.mk f.1)

def messagesFrom (c : ClientId) (messages : List (ClientId × Bytes × Bytes)) :
    List (Bytes × Bytes) :=
  (messages.filter fun m => m.1 = c).map Prod.snd

theorem shown_type {cfg : ReceiverConfig} {f : OutgoingFrame} {m : Bytes × Bytes}
    (h : shown cfg f.bytes = some m) : f.type = .ciphertext := by
  unfold shown at h
  split at h
  · next hcipher =>
    exact FrameType.toByte_injective (Option.some.inj (decide_eq_true_iff.mp hcipher))
  · cases h

theorem messages_forwarded (cfg : ReceiverConfig) (log : List Event) (r c : ClientId) :
    List.SublistForall₂ (fun m f => f.1 = r ∧
        shown cfg (FrameType.ciphertext.toByte :: f.2) = some m)
      (messagesFrom c ((queuedFrom log r).filterMap (message cfg))) (forwarded log c) := by
  rw [messagesFrom, queuedFrom, forwarded, List.filterMap_filterMap, List.filter_filterMap,
    List.map_filterMap]
  refine .filterMap fun e m he => ?_
  obtain ⟨⟨c', m'⟩, hfilter, rfl⟩ := Option.map_eq_some_iff.mp he
  obtain ⟨hm, hc⟩ := Option.filter_eq_some_iff.mp hfilter
  obtain rfl := of_decide_eq_true hc
  obtain ⟨⟨c'', f⟩, hf, hm⟩ := Option.bind_eq_some_iff.mp hm
  obtain ⟨m'', hshown, heq⟩ := Option.map_eq_some_iff.mp hm
  obtain ⟨rfl, rfl⟩ := Prod.mk.inj heq
  have htype := shown_type hshown
  rw [Event.queuedFrom_some hf, htype]
  refine ⟨(r, f.payload), ?_, rfl, ?_⟩
  · rw [Event.forwardedBy, if_pos rfl]
  · rw [OutgoingFrame.bytes, htype] at hshown
    exact hshown

/-- `frame` holds the box of `m`, which `c` has addressed to a name of `r` and put behind the key
that it has registered; the client of `r` can open it. -/
def Opened (log : List Event) (c r : ClientId) (cfg : ReceiverConfig) (m : Bytes × Bytes)
    (frame : Bytes) : Prop :=
  ∃ recipient nonce key box, Named log c m.1 ∧ Named log r recipient ∧
    recipient.length < usernameSize ∧ nonce.length = cryptoBoxNonceBytes ∧
    key.length = cryptoBoxPublicKeyBytes ∧ registeredKey log c = some key ∧
    frame = FrameType.ciphertext.toByte :: privateChatPayload recipient nonce key box ∧
    cfg.box.openEasy box nonce key cfg.privateKey = some m.2

theorem receivePrivateChat_name {cfg : ReceiverConfig} {frame name message : Bytes}
    (h : receivePrivateChat cfg frame = .ok (name, message)) :
    name = (frame.drop 1).take (frame.headD 0).toNat := by
  unfold receivePrivateChat at h
  dsimp only at h
  split_ifs at h
  split at h
  · cases h
  · exact (Prod.mk.inj (Except.ok.inj h)).1.symm

theorem opened_of_forwards {log : List Event} {c r : ClientId} {cfg : ReceiverConfig}
    {m : Bytes × Bytes} {payload frame : Bytes} (hf : Forwards log c (r, payload) frame)
    (hm : shown cfg (FrameType.ciphertext.toByte :: payload) = some m) :
    Opened log c r cfg m frame := by
  obtain ⟨name, recipient, nonce, key, box, hname, hlen, hrecipient, hrlen, hnonce, hkey, hbox,
    hregistered, hframe, hpayload⟩ := hf
  obtain rfl : payload = privateChatPayload name nonce key box := hpayload
  obtain ⟨sender, message⟩ := m
  have hreceived : receivePrivateChat cfg (privateChatPayload name nonce key box) =
      .ok (sender, message) := by
    rw [shown_ciphertext] at hm
    cases hr : receivePrivateChat cfg (privateChatPayload name nonce key box) with
    | error e =>
      rw [hr] at hm
      cases hm
    | ok m =>
      rw [hr] at hm
      rw [Option.some.inj hm]
  have hsender : sender = name := by
    have hhead : ((privateChatPayload name nonce key box).headD 0).toNat = name.length :=
      ofNat_toNat_of_lt hlen
    rw [receivePrivateChat_name hreceived, hhead]
    exact List.take_left
  have hvalid := usernameIsValid_of_received hreceived
  rw [hsender] at hvalid
  rw [receivePrivateChat_payload cfg hvalid hnonce hkey hbox] at hreceived
  split at hreceived
  · cases hreceived
  split at hreceived
  · cases hreceived
  next opened hopen =>
  obtain ⟨-, rfl⟩ := Prod.mk.inj (Except.ok.inj hreceived)
  refine ⟨recipient, nonce, key, box, ?_, hrecipient, hrlen, hnonce, hkey, hregistered, hframe,
    hopen⟩
  rw [hsender]
  exact hname

/-- A box of the client `cfg'` that the client `cfg` can open holds the text that was sealed. -/
def OpensOnly (cfg' cfg : ClientConfig) : Prop :=
  ∀ text nonce key box opened, cfg'.box.easy text nonce key cfg'.privateKey = some box →
    cfg.box.openEasy box nonce cfg'.publicKey.val cfg.privateKey = some opened → opened = text

theorem privateChatPayload_inj {name name' nonce nonce' key key' box box' : Bytes}
    (hname : name.length < usernameSize) (hname' : name'.length < usernameSize)
    (hnonce : nonce.length = nonce'.length) (hkey : key.length = key'.length)
    (h : privateChatPayload name nonce key box = privateChatPayload name' nonce' key' box') :
    name = name' ∧ nonce = nonce' ∧ key = key' ∧ box = box' := by
  obtain ⟨hhead, htail⟩ := List.cons.inj h
  have hlength : name.length = name'.length := by
    rw [← ofNat_toNat_of_lt hname, ← ofNat_toNat_of_lt hname', hhead]
  obtain ⟨hnames, hrest⟩ := List.append_inj htail hlength
  obtain ⟨hnonces, hboxes⟩ := List.append_inj hrest hnonce
  exact ⟨hnames, hnonces, List.append_inj hboxes hkey⟩

theorem Named.unique {ok : Server → Label → Prop} {s : Server} (hs : server.Reach ok s)
    {c : ClientId} {name name' : Bytes} (h : Named s.log c name) (h' : Named s.log c name') :
    name = name' := by
  obtain ⟨n, hn⟩ := h
  obtain ⟨n', hn'⟩ := h'
  exact ((Server.wf_of_reach hs).log_inj n n' c name name' hn hn').2

theorem Opened.sealed {log : List Event} {c r : ClientId} {cfg cfg' : ClientConfig}
    {m : Bytes × Bytes} {payload : Bytes} {taken : PendingPackage × Bytes}
    (h : Opened log c r cfg.toReceiverConfig m (FrameType.ciphertext.toByte :: payload))
    (hseals : Seals cfg' payload taken) (hopens : OpensOnly cfg' cfg) :
    Named log c m.1 ∧ Named log r taken.2 ∧ taken.1.type = .message ∧ m.2 = taken.1.data := by
  obtain ⟨recipient, nonce, key, box, hname, hrecipient, hrlen, hnonce, hkey, -, hframe, hopen⟩ := h
  obtain ⟨htype, hlen, nonce', key', box', hnonce', heasy, rfl⟩ := hseals
  obtain ⟨rfl, rfl, rfl, rfl⟩ := privateChatPayload_inj hlen hrlen (hnonce'.trans hnonce.symm)
    (cfg'.publicKey.property.trans hkey.symm) (List.cons.inj hframe).2
  exact ⟨hname, hrecipient, htype, hopens _ _ _ _ _ heasy hopen⟩

section

variable {g : ChatConfig} {k : Chat}

theorem chat_received (hk : (chat g).Reachable k) {r : ClientId} {cfg : ClientConfig}
    {store : FileStore Bytes UInt8} (hg : g r = some (cfg, store)) {p : ClientProcess}
    (hp : k.clients r = some p) :
    ∃ frames, frames <+: queuedFrom k.server.log r ∧
      frames.map (fun f => f.2.bytes) = receivedFrames p.log := by
  have hreception := chat_reception hk hg hp
  have hfit := receivedFrames_fit (reception_client_reachable hreception)
  have hqueued := queued_of_wire (chat_server hk) hfit (reception_received hreception)
  refine ⟨(queuedFrom k.server.log r).take (receivedFrames p.log).length, List.take_prefix .., ?_⟩
  rw [← queuedFrom_snd, List.map_map] at hqueued
  rw [List.map_take]
  exact (List.prefix_iff_eq_take.mp hqueued).symm

theorem messages_typed (hk : (chat g).Reachable k) {c r : ClientId} {cfg cfg' : ClientConfig}
    {store' : FileStore Bytes UInt8} (hg : g c = some (cfg', store')) {q : ClientProcess}
    (hq : k.clients c = some q) (hopens : OpensOnly cfg' cfg) {sender recipient : Bytes}
    (hsender : Named k.server.log c sender) (hrecipient : Named k.server.log r recipient)
    {messages : List (Bytes × Bytes)}
    (h : List.SublistForall₂ (Opened k.server.log c r cfg.toReceiverConfig) messages
      (handed k.server.log c)) :
    List.SublistForall₂ (fun m line => m.1 = sender ∧
      parseCommand line = .privateMessage recipient m.2) messages (typedLines q.log) := by
  have hserver := chat_server hk
  have hclient := reception_client_reachable (chat_reception hk hg hq)
  -- the frames that were handed over are those that the client has called
  have hcalled := (h.of_sublist (chat_called hk hg hq).sublist).filter_right (p := isCiphertext)
    fun m frame hm => by
      obtain ⟨_, _, _, _, -, -, -, -, -, -, rfl, -⟩ := hm
      exact decide_eq_true rfl
  rw [filter_called, List.sublistForall₂_map_right_iff] at hcalled
  -- each of them seals a package that was taken under a name of the receiver
  have htaken : List.SublistForall₂ (fun m taken => m.1 = sender ∧ taken.2 = recipient ∧
      taken.1.type = .message ∧ m.2 = taken.1.data) messages (consumedPackages q.log) := by
    refine (hcalled.comp (sealed_in_order hclient)).imp fun m taken hm => ?_
    obtain ⟨payload, hopened, hseals⟩ := hm
    obtain ⟨hname, hreceiver, htype, hdata⟩ := hopened.sealed hseals hopens
    exact ⟨hname.unique hserver hsender, hreceiver.unique hserver hrecipient, htype, hdata⟩
  have hfor := htaken.filter_right (p := fun taken => taken.2 = recipient)
    fun m taken hm => decide_eq_true hm.2.1
  -- and each package comes from a line
  have hlines := consumed_in_order hclient recipient
  rw [consumedFor_eq_filter, List.sublistForall₂_map_left_iff] at hlines
  refine (hfor.comp hlines).imp fun m line hm => ?_
  obtain ⟨taken, ⟨hname, -, htype, hdata⟩, hline, hto⟩ := hm
  have hparse := packageOf_message hline htype
  rw [hto, ← hdata] at hparse
  exact ⟨hname, hparse⟩

/-- Whatever the schedule, and whatever fails on the way: what a client displays of its frames are
the private messages that are `shown`.  For each connection these are ones that it has sent, in
order and each of them once; and those from another client are what its user has typed to this
recipient. -/
theorem messages_arrive_as_typed (hk : (chat g).Reachable k) {r : ClientId} {cfg : ClientConfig}
    {store : FileStore Bytes UInt8} (hg : g r = some (cfg, store)) {p : ClientProcess}
    (hp : k.clients r = some p) :
    (∀ s frame xs s', (handleServerFrame cfg s frame).Ends xs s' →
      displayed xs = (shown cfg.toReceiverConfig frame).toList) ∧
    ∃ messages : List (ClientId × Bytes × Bytes),
      messages.map Prod.snd = (receivedFrames p.log).filterMap (shown cfg.toReceiverConfig) ∧
      (∀ c, List.SublistForall₂ (Opened k.server.log c r cfg.toReceiverConfig)
        (messagesFrom c messages) (handed k.server.log c)) ∧
      ∀ c cfg' store' q sender recipient, g c = some (cfg', store') → k.clients c = some q →
        OpensOnly cfg' cfg → Named k.server.log c sender → Named k.server.log r recipient →
        List.SublistForall₂ (fun m line => m.1 = sender ∧
          parseCommand line = .privateMessage recipient m.2)
          (messagesFrom c messages) (typedLines q.log) := by
  obtain ⟨frames, hframes, hreceived⟩ := chat_received hk hg hp
  have hopened : ∀ c, List.SublistForall₂ (Opened k.server.log c r cfg.toReceiverConfig)
      (messagesFrom c (frames.filterMap (message cfg.toReceiverConfig)))
      (handed k.server.log c) := by
    intro c
    have hsome := (messages_forwarded cfg.toReceiverConfig k.server.log r c).sublist_left
      (((hframes.sublist.filterMap (message cfg.toReceiverConfig)).filter _).map Prod.snd)
    refine (hsome.comp (Server.forwarded_in_order (chat_server hk) c)).imp ?_
    rintro m frame ⟨⟨r', payload⟩, ⟨rfl, hshown⟩, hforwards⟩
    exact opened_of_forwards hforwards hshown
  refine ⟨fun _ _ _ _ hend => displayed_handleServerFrame hend,
    frames.filterMap (message cfg.toReceiverConfig), ?_, hopened, ?_⟩
  · rw [← hreceived, List.map_filterMap, List.filterMap_map]
    refine List.filterMap_congr fun f _ => ?_
    rw [message, Option.map_map]
    exact congrFun Option.map_id _
  · intro c cfg' store' q sender recipient hg' hq hopens hsender hrecipient
    exact messages_typed hk hg' hq hopens hsender hrecipient (hopened c)

end

def greeting : Bytes := ascii "hi"

def greetingBox : Bytes :=
  [207, 73, 177, 119, 76, 140, 177, 29, 37, 153, 16, 255, 230, 73, 61, 201, 88, 247]

/-- `crypto_box` at this one input, refusing every other. -/
def greetingCrypto : CryptoBox where
  easy text nonce publicKey privateKey :=
    if text = greeting ∧ nonce = sampleNonce ∧ publicKey = bobPublicKey ∧
      privateKey = alicePrivateKey then some greetingBox else none
  openEasy box nonce publicKey privateKey :=
    if box = greetingBox ∧ nonce = sampleNonce ∧ publicKey = alicePublicKey ∧
      privateKey = bobPrivateKey then some greeting else none
  openEasy_length box nonce publicKey privateKey text h := by
    split at h
    · next hin =>
      obtain rfl := Option.some.inj h
      rw [hin.1]
      rfl
    · cases h

theorem greetingCrypto_easy {text nonce publicKey privateKey box : Bytes}
    (h : greetingCrypto.easy text nonce publicKey privateKey = some box) :
    text = greeting ∧ box = greetingBox := by
  have heasy : (if text = greeting ∧ nonce = sampleNonce ∧ publicKey = bobPublicKey ∧
    privateKey = alicePrivateKey then some greetingBox else none) = some box := h
  split at heasy
  · next hin => exact ⟨hin.1, (Option.some.inj heasy).symm⟩
  · cases heasy

theorem greetingCrypto_length (text nonce publicKey privateKey box : Bytes)
    (h : greetingCrypto.easy text nonce publicKey privateKey = some box) :
    box.length = text.length + cryptoBoxMacBytes := by
  obtain ⟨rfl, rfl⟩ := greetingCrypto_easy h
  rfl

def aliceChat : ClientConfig where
  toReceiverConfig := { aliceClient.toReceiverConfig with box := greetingCrypto }
  publicKey := aliceClient.publicKey
  easy_length := greetingCrypto_length

def bobChat : ClientConfig where
  toReceiverConfig := { bobConfig with box := greetingCrypto }
  publicKey := bobClient.publicKey
  easy_length := greetingCrypto_length

def aliceAndBob : ChatConfig
  | 1 => some (aliceChat, emptyStore)
  | 2 => some (bobChat, emptyStore)
  | _ => none

def chatEnv : ClientEnv := { bobEnv with
  malloc := some 7
  nonce := ⟨sampleNonce, sampleNonce_length⟩ }

def clientGoes (c : ClientId) (count : ℕ) : List ChatLabel :=
  List.replicate count (.client c (.go chatEnv))

/-- `send_frame` of a payload of as many bytes. -/
def clientSends (c : ClientId) (length : ℕ) : List ChatLabel :=
  clientGoes c 1 ++ [4, 1, length].flatMap fun length =>
    clientGoes c 1 ++ .client c (.go { chatEnv with write := .written length }) :: clientGoes c 1

def serverGoes (labels : List Label) : List ChatLabel := labels.map .server

/-- The worker of connection `n` writes a frame, and the client at its end receives it. -/
def clientReceives (n : ℕ) (c : ClientId) (frame : Bytes) : List ChatLabel :=
  serverGoes [(n, {}), (n, {}), (n, {}), (n, { write := .written (4 + frame.length) }), (n, {})] ++
    [.client c (.received (.ok (some frame)))]

def greetingFrame (name : Bytes) : Bytes :=
  FrameType.ciphertext.toByte :: privateChatPayload name sampleNonce alicePublicKey greetingBox

def greetingLabels : List ChatLabel :=
  serverGoes (loginLabels 0 (ascii "alice") ++ loginLabels 1 (ascii "bob")) ++
    clientSends 2 32 ++ clientGoes 2 2 ++
    serverGoes (frameLabels 1 (FrameType.registerPk.toByte :: bobPublicKey) ++
      stepLabels 1 [none, none]) ++
    clientSends 1 32 ++ clientGoes 1 2 ++
    serverGoes (frameLabels 0 (FrameType.registerPk.toByte :: alicePublicKey) ++
      stepLabels 0 [none, none]) ++
    .client 1 (.typed (some (ascii "/msg bob hi"))) :: (clientGoes 1 2 ++ clientSends 1 3 ++
    clientGoes 1 2 ++
    serverGoes (frameLabels 0 (FrameType.requestPk.toByte :: ascii "bob") ++
      stepLabels 0 [none, none, some 1, none]) ++
    clientReceives 0 1 (FrameType.peerPk.toByte :: 3 :: (ascii "bob" ++ bobPublicKey)) ++
    clientGoes 1 3 ++ clientSends 1 78 ++ clientGoes 1 1 ++
    serverGoes (frameLabels 0 (greetingFrame (ascii "bob")) ++
      stepLabels 0 [none, none, some 2, none]) ++
    clientReceives 1 2 (greetingFrame (ascii "alice")))

theorem aliceChat_opensOnly : OpensOnly aliceChat bobChat := by
  intro text nonce key box opened heasy hopen
  obtain ⟨rfl, rfl⟩ := greetingCrypto_easy heasy
  have hsome : (if greetingBox = greetingBox ∧ nonce = sampleNonce ∧
    alicePublicKey = alicePublicKey ∧ bobPrivateKey = bobPrivateKey then some greeting else none) =
      some opened := hopen
  split at hsome
  · exact (Option.some.inj hsome).symm
  · cases hsome

def Event.logsIn (c : ClientId) (name : Bytes) : Event → Bool
  | .login _ d username => d == c && username == name
  | _ => false

theorem named_of_any {log : List Event} {c : ClientId} {name : Bytes}
    (h : log.any (Event.logsIn c name) = true) : Named log c name := by
  obtain ⟨e, he, hlogs⟩ := List.any_eq_true.mp h
  cases e with
  | login n d username =>
    rw [Event.logsIn, Bool.and_eq_true, beq_iff_eq, beq_iff_eq] at hlogs
    obtain ⟨rfl, rfl⟩ := hlogs
    exact ⟨n, he⟩
  | _ => cases hlogs

theorem messages_arrive_as_typed_greeting : ∃ k p q, (chat aliceAndBob).Reachable k ∧
    k.clients 2 = some p ∧ k.clients 1 = some q ∧ typedLines q.log = [ascii "/msg bob hi"] ∧
    ∃ messages : List (ClientId × Bytes × Bytes),
      messages.map Prod.snd = [(ascii "alice", greeting)] ∧
      List.SublistForall₂ (fun m line => m.1 = ascii "alice" ∧
        parseCommand line = .privateMessage (ascii "bob") m.2)
        (messagesFrom 1 messages) (typedLines q.log) := by
  have hrun : (((chat aliceAndBob).run (chat aliceAndBob).init greetingLabels).filter (fun k =>
      k.server.log.any (Event.logsIn 1 (ascii "alice")) &&
        k.server.log.any (Event.logsIn 2 (ascii "bob")))).map (fun k =>
      ((k.clients 2).map fun p =>
        (receivedFrames p.log).filterMap (shown bobChat.toReceiverConfig),
        (k.clients 1).map fun q => typedLines q.log)) =
      some (some [(ascii "alice", greeting)], some [ascii "/msg bob hi"]) := by
    decide +kernel
  obtain ⟨k, hk, hview⟩ := Option.map_eq_some_iff.mp hrun
  obtain ⟨hk, hnamed⟩ := Option.filter_eq_some_iff.mp hk
  obtain ⟨hshown, htyped⟩ := Prod.mk.inj hview
  obtain ⟨p, hp, hshown⟩ := Option.map_eq_some_iff.mp hshown
  obtain ⟨q, hq, htyped⟩ := Option.map_eq_some_iff.mp htyped
  obtain ⟨halice, hbob⟩ := Bool.and_eq_true_iff.mp hnamed
  have hreach : (chat aliceAndBob).Reachable k := System.Reachable.run .init hk
  obtain ⟨-, messages, hmessages, -, hclients⟩ := messages_arrive_as_typed hreach rfl hp
  rw [hshown] at hmessages
  exact ⟨k, p, q, hreach, hp, hq, htyped, messages, hmessages,
    hclients 1 aliceChat _ q _ _ rfl hq aliceChat_opensOnly (named_of_any halice)
      (named_of_any hbob)⟩

end CipherChat
