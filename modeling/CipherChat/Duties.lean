import CipherChat.RouteMap
import CipherChat.ServerChat

/-!
# What a handler may do

A discipline for the handlers: which operations a thread may perform for its client,
after what it has done since the current frame arrived.  It is the part of the
handlers' behaviour that the relay's guarantees rest on; texts and log lines are
left free.  `follows_handleClientFrame` and `follows_abortFileRoutesForClient` say
that the handlers keep to it, whatever the operations answer.
-/

namespace CipherChat

open Resumption Prog

/-- What a client's thread was called for. -/
inductive Call
  | none
  | frame (frame : Bytes)
  | abort
  deriving DecidableEq

/-- What a call still has to do about a route. -/
inductive Duty
  | idle
  /-- The route was added; its BEGIN is to be forwarded. -/
  | beginForward (src : UInt32) (endpoint : FileRouteEndpoint) (begin_ : FileBeginFrame)
  /-- The BEGIN could not be queued; the route is to become a tombstone. -/
  | beginFailed (src : UInt32)
  /-- The chunk was counted; it is to be forwarded. -/
  | chunkForward (src : UInt32) (endpoint : FileRouteEndpoint) (data : Bytes)
  | chunkFailed (src : UInt32) (outbound : UInt32)
  /-- The route ended complete; its END is to be forwarded. -/
  | endForward (endpoint : FileRouteEndpoint)
  /-- Routes ended early; each receiver is to get an ERROR, in this order. -/
  | owes (errors : List FileRouteEndpoint)
  deriving DecidableEq

namespace Duty

/-- The outbound ids that a duty is to send under. -/
def ids : Duty → List UInt32
  | .beginForward _ endpoint _ | .chunkForward _ endpoint _ | .endForward endpoint =>
    [endpoint.outboundTransferId]
  | .owes endpoints => endpoints.map FileRouteEndpoint.outboundTransferId
  | .idle | .beginFailed _ | .chunkFailed _ _ => []

/-- The route of the client that a duty is about. -/
def about : Duty → Option UInt32
  | .beginForward src _ _ | .beginFailed src | .chunkForward src _ _ | .chunkFailed src _ =>
    some src
  | .idle | .endForward _ | .owes _ => none

end Duty

structure Monitor where
  call : Call := .none
  /-- The last answer of `find_client_id` in this call. -/
  found : Option (Bytes × ClientId) := none
  /-- The last answer of `get_client_public_key` in this call. -/
  key : Option (ClientId × Option Bytes) := none
  duty : Duty := .idle

/-- An ERROR is sent only to an endpoint with a target. -/
def owe (endpoint : FileRouteEndpoint) : Duty :=
  .owes (if endpoint.targetId = invalidClientId then [] else [endpoint])

/-- The frames of a transfer after its BEGIN. -/
def FrameType.continues : FrameType → Bool
  | .fileChunk | .fileEnd | .fileError => true
  | _ => false

def Call.MustAct : Call → Prop
  | .frame bytes => (bytes.head?.bind FrameType.ofByte).any FrameType.continues = true ∧
      1 + 4 ≤ bytes.length ∧ bytes.length ≤ frameMaxSize
  | .abort => True
  | .none => False

namespace Monitor

def Free (m : Monitor) : Prop := m.duty = .idle ∧ ¬m.call.MustAct

/-- Nothing is owed: the call may return. -/
def AtRest (m : Monitor) : Prop := m.Free ∨ m.duty = .owes []

/-- The forwarded form of an encrypted message: the client's name in place of the
recipient's, the rest as it was received. -/
def Forwards (id : ClientId) (username : Bytes) (m : Monitor) (recipientId : ClientId)
    (forwarded : Bytes) : Prop :=
  ∃ recipient encrypted, m.call = .frame (FrameType.ciphertext.toByte ::
      UInt8.ofNat recipient.length :: recipient ++ encrypted) ∧
    recipient.length < usernameSize ∧ username.length < usernameSize ∧
    chatNonceSize + chatPublicKeySize + chatMacSize ≤ encrypted.length ∧
    m.key = some (id, some ((encrypted.drop chatNonceSize).take chatPublicKeySize)) ∧
    m.found = some (recipient, recipientId) ∧
    forwarded = UInt8.ofNat username.length :: username ++ encrypted

/-- The answer to a request for a key: the name as it was received, and the key if any. -/
def Answers (m : Monitor) (response : Bytes) : Prop :=
  ∃ name r key, m.call = .frame (FrameType.requestPk.toByte :: name) ∧ name.length < usernameSize ∧
    m.found = some (name, r) ∧ m.key = some (r, key) ∧
    response = UInt8.ofNat name.length :: name ++ key.getD []

/-- The operations allowed to the thread of client `id`, named `username`. -/
def allow (id : ClientId) (username : Bytes) (m : Monitor) : Op → Prop
  | .findClientId _ | .getClientPublicKey _ | .recipients _ | .readyNames => True
  | .registerClientPublicKey c key => c = id ∧ m.call = .frame (FrameType.registerPk.toByte :: key)
  | .queueFrame r .fileBegin payload => ∃ src endpoint b, m.duty = .beginForward src endpoint b ∧
      r = endpoint.targetId ∧ encodeBegin fileBeginPayloadMaxSize endpoint.outboundTransferId
        b.fileSize username b.filename = .ok payload
  | .queueFrame r .fileChunk payload => ∃ src endpoint data,
    m.duty = .chunkForward src endpoint data ∧
      r = endpoint.targetId ∧
      encodeChunk fileChunkPayloadMaxSize endpoint.outboundTransferId data = .ok payload
  | .queueFrame r .fileEnd payload => ∃ endpoint, m.duty = .endForward endpoint ∧
      r = endpoint.targetId ∧ payload = writeU32 endpoint.outboundTransferId
  | .queueFrame r .fileError payload => ∃ endpoint rest, m.duty = .owes (endpoint :: rest) ∧
      r = endpoint.targetId ∧ payload = writeU32 endpoint.outboundTransferId
  | .queueFrame r .ciphertext payload => m.Forwards id username r payload
  | .queueFrame r .peerPk payload => r = id ∧ m.Answers payload
  | .queueFrame _ .text _ => True
  | .queueFrame _ .registerPk _ | .queueFrame _ .requestPk _ => False
  | .routesAdd s src tgt size discard => s = id ∧ m.duty = .idle ∧ ∃ frame b,
      m.call = .frame frame ∧ decodeBegin frame = some b ∧ b.transferId = src ∧ b.fileSize = size ∧
      m.found = some (b.peer, tgt) ∧ discard = (tgt == invalidClientId || tgt == id)
  | .routesQuarantine s src keep => s = id ∧
      (m.duty = .beginFailed src ∧ keep = true ∨ m.duty = .idle ∧ ∃ frame, m.call = .frame frame ∧
        readTransferId frame = some src)
  | .routesAcceptChunk s src len => s = id ∧ m.duty = .idle ∧ ∃ frame c,
      m.call = .frame frame ∧ decodeChunk frame = some c ∧ c.transferId = src ∧
      len = UInt64.ofNat c.data.length
  | .routesMarkForwardFailed s src o => s = id ∧ m.duty = .chunkFailed src o
  | .routesFinish s src validate => s = id ∧ m.duty = .idle ∧ ∃ frame, m.call = .frame frame ∧
      (validate = true ∧ decodeControl frame .fileEnd = .ok src ∨
        validate = false ∧ decodeControl frame .fileError = .ok src)
  | .routesAbortClient c capacity => c = id ∧ m.duty = .idle ∧ m.call = .abort ∧
      capacity = fileRouteCapacity

/-- A forwarded frame that was queued is done with. -/
def afterForward (failed : Duty) : Except Errno Unit → Duty
  | .ok () => .owes []
  | .error _ => failed

/-- The duty that an operation leaves. -/
def nextDuty (m : Monitor) : (o : Op) → o.Resp → Duty
  | .routesAdd _ src _ _ _, answer =>
    match answer.result, m.call with
    | .ready, .frame frame =>
      match decodeBegin frame with
      | some b => .beginForward src answer.endpoint b
      | none => .owes []
    | .duplicate, _ => owe answer.replaced
    | _, _ => .owes []
  | .routesQuarantine _ _ _, answer =>
    match m.duty with
    | .beginFailed _ => .owes []
    | _ => if answer.wasForwarding then owe answer.previous else .owes []
  | .routesAcceptChunk _ src _, answer =>
    match answer.result, m.call with
    | .ready, .frame frame =>
      match decodeChunk frame with
      | some c => .chunkForward src answer.endpoint c.data
      | none => .owes []
    | .overrun, _ => owe answer.endpoint
    | _, _ => .owes []
  | .routesMarkForwardFailed _ _ _, _ => .owes []
  | .routesFinish _ _ validate, answer =>
    match answer.result with
    | .ready => if validate then .endForward answer.endpoint else owe answer.endpoint
    | .incomplete => owe answer.endpoint
    | _ => .owes []
  | .routesAbortClient _ _, actions => .owes (actions.filterMap FileRouteAbortAction.error?)
  | .queueFrame _ type _, result =>
    match m.duty with
    | .beginForward src _ _ =>
      if type = .fileBegin then afterForward (.beginFailed src) result else m.duty
    | .chunkForward src endpoint _ =>
      if type = .fileChunk then afterForward (.chunkFailed src endpoint.outboundTransferId) result
      else m.duty
    | .endForward _ => if type = .fileEnd then .owes [] else m.duty
    | .owes (_ :: rest) => if type = .fileError then .owes rest else m.duty
    | duty => duty
  | _, _ => m.duty

/-- The monitor after an operation and its answer. -/
def next (_ : ClientId) (m : Monitor) (o : Op) (r : o.Resp) : Monitor where
  call := m.call
  found :=
    match o, r with
    | .findClientId name, c => some (name, c)
    | _, _ => m.found
  key :=
    match o, r with
    | .getClientPublicKey c, key => some (c, key)
    | _, _ => m.key
  duty := m.nextDuty o r

/-- Only file frames discharge a duty. -/
theorem nextDuty_other {m : Monitor} {r : ClientId} {type : FrameType} {payload : Bytes}
    {answer : Except Errno Unit} (ht : type.isFile = false) :
    m.nextDuty (.queueFrame r type payload) answer = m.duty := by
  have hne : ∀ t : FrameType, t.isFile = true → type ≠ t := by
    rintro t htt rfl
    rw [ht] at htt
    cases htt
  simp only [Monitor.nextDuty]
  split <;> simp only [hne .fileBegin rfl, hne .fileChunk rfl, hne .fileEnd rfl,
    hne .fileError rfl, if_false, *]

end Monitor

/-- The discipline of the thread of client `id`, named `username`. -/
def discipline (id : ClientId) (username : Bytes) : Discipline serverSig Monitor where
  allow := Monitor.allow id username
  next := Monitor.next id

section Follows

open Discipline

variable {id : ClientId} {username : Bytes} {m : Monitor}

theorem duty_call {α : Type} {o : Op} {k : o.Resp → Handler α} {Q : Monitor → α → Prop}
    (ha : m.allow id username o)
    (hk : ∀ r, (discipline id username).follows (m.next id o r) (k r) Q) :
    (discipline id username).follows m (call (S := serverSig) o >>= k) Q := by
  exact Discipline.follows_call ha hk

theorem next_text (id r : ClientId) (text : Bytes) (result : Except Errno Unit) :
    m.next id (.queueFrame r .text text) result = m := by
  obtain ⟨call, found, key, duty⟩ := m
  simp only [Monitor.next, Monitor.nextDuty, reduceCtorEq, if_false]
  split <;> rfl

theorem follows_sendTextToClientId (c : ClientId) (text : Bytes) :
    (discipline id username).follows m (sendTextToClientId c text) fun m' _ => m' = m := by
  unfold sendTextToClientId
  split
  · exact follows_pure rfl
  · rw [sendFrameToClientId, call, Discipline.follows_op]
    refine ⟨trivial, fun r => ?_⟩
    rw [Discipline.follows_ret]
    exact next_text id c text r

theorem follows_sendFormatted (c : ClientId) (text : Bytes) :
    (discipline id username).follows m (sendFormatted c text) fun m' _ => m' = m := by
  unfold sendFormatted
  split
  · refine follows_then (follows_sendTextToClientId c text) fun _ => follows_pure rfl
  · exact follows_pure rfl

theorem follows_notifySender (c : ClientId) (text : Bytes) :
    (discipline id username).follows m (notifySender c text) fun m' _ => m' = m := by
  unfold notifySender
  split
  · refine follows_then (follows_sendTextToClientId c text) fun _ => follows_pure rfl
  · exact follows_pure rfl

theorem follows_notifySenderForTransfer (c : ClientId) (src : UInt32) (text : Bytes) :
    (discipline id username).follows m (notifySenderForTransfer c src text) fun m' _ => m' = m := by
  unfold notifySenderForTransfer
  dsimp only
  split <;> exact follows_notifySender _ _

theorem follows_sendReceiverError (endpoint : FileRouteEndpoint) (rest : List FileRouteEndpoint)
    (hd : m.duty = .owes ((if endpoint.targetId = invalidClientId then []
      else [endpoint]) ++ rest)) :
    (discipline id username).follows m (sendReceiverError endpoint) fun m' _ =>
      m' = { m with duty := .owes rest } := by
  unfold sendReceiverError
  split
  · next h0 =>
    rw [if_pos h0] at hd
    refine follows_pure ?_
    rw [← show m.duty = .owes rest from hd]
  · next h0 =>
    rw [if_neg h0] at hd
    rw [encodeControl_eq]
    dsimp only
    refine duty_call ⟨endpoint, rest, hd, rfl, rfl⟩ fun r => ?_
    have hnext : m.next id (.queueFrame endpoint.targetId .fileError
        (writeU32 endpoint.outboundTransferId)) r = { m with duty := .owes rest } := by
      simp only [Monitor.next, Monitor.nextDuty, hd, List.singleton_append, if_true]
    rw [hnext]
    cases r <;> exact follows_pure rfl

theorem next_quarantine (src : UInt32) (keep : Bool) (answer : FileRoutes.QuarantineAnswer)
    (hd : m.duty = .idle) : m.next id (.routesQuarantine id src keep) answer =
      { m with duty := if answer.wasForwarding then owe answer.previous else .owes [] } := by
  simp only [Monitor.next, Monitor.nextDuty, hd]

theorem follows_notify {p : Handler Unit} {result : Int}
    (hp : (discipline id username).follows m p fun m' _ => m' = m) (hr : m.AtRest) :
    (discipline id username).follows m (do p; pure result) fun m' _ => m'.AtRest := by
  exact follows_then hp fun _ => follows_pure hr

theorem follows_errorThenNotify {p : Handler Unit} {result : Int} {endpoint : FileRouteEndpoint}
    (hd : m.duty = owe endpoint)
    (hp : ∀ m, (discipline id username).follows m p fun m' _ => m' = m) :
    (discipline id username).follows m (do
      let _ ← sendReceiverError endpoint
      p
      pure result) fun m' _ => m'.AtRest := by
  rw [Discipline.follows_bind]
  refine Discipline.follows_mono ?_ (follows_sendReceiverError endpoint [] (by
    rw [hd, owe, List.append_nil]))
  rintro m' _ rfl
  exact follows_notify (hp _) (.inr rfl)

theorem follows_rejectKnownTransfer (src : UInt32) (text : Bytes) (keep : Bool)
    (hd : m.duty = .idle) (hc : ∃ frame, m.call = .frame frame ∧ readTransferId frame = some src) :
    (discipline id username).follows m (rejectKnownTransfer id src text keep)
      fun m' _ => m'.AtRest := by
  unfold rejectKnownTransfer
  refine duty_call ⟨rfl, .inr ⟨hd, hc⟩⟩ fun answer => ?_
  rw [next_quarantine src keep answer hd]
  split <;> dsimp only
  · exact follows_errorThenNotify rfl fun _ => follows_notifySenderForTransfer _ _ _
  · exact follows_notify (follows_notifySenderForTransfer _ _ _) (.inr rfl)

theorem follows_rejectMalformed (frame : Bytes) (known unknown : String) (keep : Bool)
    (hd : m.duty = .idle) (hc : m.call = .frame frame) :
    (discipline id username).follows m (rejectMalformed id frame known unknown keep)
      fun m' _ => m'.AtRest := by
  unfold rejectMalformed
  split
  · next src hsrc => exact follows_rejectKnownTransfer _ _ _ hd ⟨frame, hc, hsrc⟩
  · next hsrc =>
    refine follows_notify (follows_notifySender _ _) (.inl ⟨hd, fun hm => ?_⟩)
    rw [hc] at hm
    rw [readTransferId, if_neg (by have := hm.2.1; omega)] at hsrc
    cases hsrc

theorem follows_handleFileBegin (frame : Bytes) (hf : m.Free) (hc : m.call = .frame frame) :
    (discipline id username).follows m (handleFileBegin id username frame)
      fun m' _ => m'.AtRest := by
  have hd := hf.1
  unfold handleFileBegin
  split
  · exact follows_notify (follows_notifySender _ _) (.inl hf)
  · next hname =>
    have hpeer : validPeerName username = true := by
      simpa using (not_or.mp (not_or.mp hname).2).2
    split
    · exact follows_rejectMalformed _ _ _ _ hd hc
    · next b hb =>
      refine duty_call trivial fun targetId => ?_
      refine duty_call ⟨rfl, hd, frame, b, hc, hb, rfl, rfl, rfl, rfl⟩ fun answer => ?_
      have hnext : ∀ duty, Monitor.nextDuty m (.routesAdd id b.transferId targetId b.fileSize
          (targetId == invalidClientId || targetId == id)) answer = duty →
          (m.next id (.findClientId b.peer) targetId).next id (.routesAdd id b.transferId targetId
            b.fileSize (targetId == invalidClientId || targetId == id)) answer =
            { m with found := some (b.peer, targetId), duty := duty } := by
        rintro duty rfl
        rfl
      -- one branch for each answer of `file_routes_add`
      split
      · next hr =>
        rw [hnext (owe answer.replaced) (by simp only [Monitor.nextDuty, hr])]
        split <;> dsimp only
        · exact follows_errorThenNotify rfl fun _ => follows_notifySenderForTransfer _ _ _
        · next h0 =>
          refine follows_notify (follows_notifySenderForTransfer _ _ _) (.inr ?_)
          rw [owe, if_pos (not_not.mp h0)]
      · next hr =>
        rw [hnext (.owes []) (by simp only [Monitor.nextDuty, hr])]
        exact follows_notify (follows_notifySender _ _) (.inr rfl)
      · next hr =>
        rw [hnext (.owes []) (by simp only [Monitor.nextDuty, hr])]
        exact follows_notify (follows_notifySender _ _) (.inr rfl)
      · next hr =>
        rw [hnext (.owes []) (by simp only [Monitor.nextDuty, hr])]
        dsimp only
        exact follows_ite (follows_notify (follows_notifySenderForTransfer _ _ _) (.inr rfl))
          (follows_notify (follows_notifySenderForTransfer _ _ _) (.inr rfl))
      -- READY: the BEGIN is forwarded under its new id
      · next hr =>
        rw [hnext (.beginForward b.transferId answer.endpoint b)
          (by simp only [Monitor.nextDuty, hr, hc, hb])]
        have henc : encodeBegin _ answer.endpoint.outboundTransferId b.fileSize _ b.filename = _ :=
          encodeBegin_eq hpeer (decodeBegin_some hb).2.2.2
        rw [henc]
        dsimp only
        refine duty_call ⟨_, _, _, rfl, rfl, henc⟩ fun result => ?_
        cases result with
        | ok _ => exact follows_pure (.inr rfl)
        | error e =>
          dsimp only
          refine duty_call ⟨rfl, .inl ⟨rfl, rfl⟩⟩ fun _ => ?_
          exact follows_notify (follows_notifySenderForTransfer _ _ _) (.inr rfl)

theorem follows_handleFileChunk (frame : Bytes) (hd : m.duty = .idle) (hc : m.call = .frame frame) :
    (discipline id username).follows m (handleFileChunk id frame) fun m' _ => m'.AtRest := by
  unfold handleFileChunk
  split
  · exact follows_rejectMalformed _ _ _ _ hd hc
  · next chunk hchunk =>
    refine duty_call ⟨rfl, hd, frame, chunk, hc, hchunk, rfl, rfl⟩ fun answer => ?_
    have hnext : ∀ duty, Monitor.nextDuty m (.routesAcceptChunk id chunk.transferId
        (UInt64.ofNat chunk.data.length)) answer = duty →
        m.next id (.routesAcceptChunk id chunk.transferId
          (UInt64.ofNat chunk.data.length)) answer = { m with duty := duty } := by
      rintro duty rfl
      rfl
    split
    · next hr =>
      rw [hnext (.owes []) (by simp only [Monitor.nextDuty, hr])]
      exact follows_notify (follows_notifySenderForTransfer _ _ _) (.inr rfl)
    · next hr =>
      rw [hnext (.owes []) (by simp only [Monitor.nextDuty, hr])]
      exact follows_pure (.inr rfl)
    · next hr =>
      rw [hnext (owe answer.endpoint) (by simp only [Monitor.nextDuty, hr])]
      exact follows_errorThenNotify rfl fun _ => follows_notifySenderForTransfer _ _ _
    · next hr =>
      rw [hnext (.chunkForward chunk.transferId answer.endpoint chunk.data)
        (by simp only [Monitor.nextDuty, hr, hc, hchunk])]
      have henc : encodeChunk _ answer.endpoint.outboundTransferId chunk.data = _ :=
        encodeChunk_eq (decodeChunk_some hchunk).2.2.1 (decodeChunk_some hchunk).2.2.2
      rw [henc]
      dsimp only
      refine duty_call ⟨_, _, _, rfl, rfl, henc⟩ fun result => ?_
      cases result with
      | ok _ => exact follows_pure (.inr rfl)
      | error e =>
        dsimp only
        refine duty_call ⟨rfl, rfl⟩ fun converted => ?_
        exact follows_ite (follows_notify (follows_notifySenderForTransfer _ _ _) (.inr rfl))
          (follows_pure (.inr rfl))

theorem follows_handleFileEnd (frame : Bytes) (hd : m.duty = .idle) (hc : m.call = .frame frame) :
    (discipline id username).follows m (handleFileEnd id frame) fun m' _ => m'.AtRest := by
  unfold handleFileEnd
  split
  · exact follows_rejectMalformed _ _ _ _ hd hc
  · next src hsrc =>
    refine duty_call ⟨rfl, hd, frame, hc, .inl ⟨rfl, hsrc⟩⟩ fun answer => ?_
    have hnext : ∀ duty, Monitor.nextDuty m (.routesFinish id src true) answer = duty →
        m.next id (.routesFinish id src true) answer =
          { m with duty := duty } := by
      rintro duty rfl
      rfl
    split
    · next hr =>
      rw [hnext (.owes []) (by simp only [Monitor.nextDuty, hr])]
      exact follows_notify (follows_notifySenderForTransfer _ _ _) (.inr rfl)
    · next hr =>
      rw [hnext (.owes []) (by simp only [Monitor.nextDuty, hr])]
      exact follows_pure (.inr rfl)
    · next hr =>
      rw [hnext (owe answer.endpoint) (by simp only [Monitor.nextDuty, hr])]
      exact follows_errorThenNotify rfl fun _ => follows_notifySenderForTransfer _ _ _
    · next hr =>
      rw [hnext (.endForward answer.endpoint) (by simp only [Monitor.nextDuty, hr, if_true])]
      rw [encodeControl_eq]
      dsimp only
      refine duty_call ⟨_, rfl, rfl, rfl⟩ fun result => ?_
      cases result with
      | ok _ => exact follows_pure (.inr rfl)
      | error e =>
        dsimp only
        exact follows_notify (follows_notifySenderForTransfer _ _ _) (.inr rfl)

theorem follows_handleFileError (frame : Bytes) (hd : m.duty = .idle) (hc : m.call = .frame frame) :
    (discipline id username).follows m (handleFileError id frame) fun m' _ => m'.AtRest := by
  unfold handleFileError
  split
  · exact follows_rejectMalformed _ _ _ _ hd hc
  · next src hsrc =>
    refine duty_call ⟨rfl, hd, frame, hc, .inr ⟨rfl, hsrc⟩⟩ fun answer => ?_
    have hnext : ∀ duty, Monitor.nextDuty m (.routesFinish id src false) answer = duty →
        m.next id (.routesFinish id src false) answer =
          { m with duty := duty } := by
      rintro duty rfl
      rfl
    have herror : ∀ {m' : Monitor}, m'.duty = owe answer.endpoint →
        (discipline id username).follows m' (sendReceiverError answer.endpoint)
          fun m' _ => m'.AtRest := by
      intro m' hm'
      refine Discipline.follows_mono ?_ (follows_sendReceiverError answer.endpoint [] (by
        rw [hm', owe, List.append_nil]))
      rintro _ _ rfl
      exact .inr rfl
    split
    · next hr =>
      rw [hnext (.owes []) (by simp only [Monitor.nextDuty, hr])]
      exact follows_notify (follows_notifySenderForTransfer _ _ _) (.inr rfl)
    · next hr =>
      rw [hnext (.owes []) (by simp only [Monitor.nextDuty, hr])]
      exact follows_pure (.inr rfl)
    · next hr =>
      rw [hnext (owe answer.endpoint) (by simp only [Monitor.nextDuty, hr])]
      exact herror rfl
    · next hr =>
      rw [hnext (owe answer.endpoint)
        (by simp only [Monitor.nextDuty, hr, Bool.false_eq_true, if_false])]
      exact herror rfl

theorem free_of_head {frame : Bytes} (hd : m.duty = .idle) (hc : m.call = .frame frame)
    (hh : (frame.head?.bind FrameType.ofByte).any FrameType.continues = false) : m.Free := by
  refine ⟨hd, fun hm => ?_⟩
  rw [hc] at hm
  exact absurd hm.1 (Bool.eq_false_iff.mp hh)

theorem follows_routeFileFrame (frame : Bytes) (hid : id ≠ invalidClientId) (hd : m.duty = .idle)
    (hc : m.call = .frame frame) :
    (discipline id username).follows m (routeFileFrame id username frame)
      fun m' _ => m'.AtRest := by
  unfold routeFileFrame
  split
  · next h0 =>
    refine follows_pure (.inl ⟨hd, fun hm => ?_⟩)
    rw [hc] at hm
    have := h0.resolve_left hid
    have := hm.2.1
    omega
  · split
    · next hlong =>
      refine follows_notify (follows_notifySender _ _) (.inl ⟨hd, fun hm => ?_⟩)
      rw [hc] at hm
      exact absurd hm.2.2 (not_le.mpr hlong)
    · split
      · next ht => exact follows_handleFileBegin frame (free_of_head hd hc (by rw [ht]; rfl)) hc
      · exact follows_handleFileChunk frame hd hc
      · exact follows_handleFileEnd frame hd hc
      · exact follows_handleFileError frame hd hc
      · next hchunk hend herror =>
        refine follows_notify (follows_notifySender _ _) (.inl (free_of_head hd hc ?_))
        generalize frame.head?.bind FrameType.ofByte = type at hchunk hend herror
        cases type with
        | none => rfl
        | some t =>
          cases t with
          | fileChunk => exact absurd rfl hchunk
          | fileEnd => exact absurd rfl hend
          | fileError => exact absurd rfl herror
          | _ => rfl

theorem follows_runAbortActions (actions : List FileRouteAbortAction)
    (hd : m.duty = .owes (actions.filterMap FileRouteAbortAction.error?)) :
    (discipline id username).follows m (runAbortActions actions) fun m' _ => m'.AtRest := by
  induction actions generalizing m with
  | nil => exact follows_pure (.inr hd)
  | cons action rest ih =>
    unfold runAbortActions
    split <;> dsimp only
    · next ht =>
      rw [Discipline.follows_bind]
      refine Discipline.follows_mono ?_ (follows_sendReceiverError
        { targetId := action.clientId, outboundTransferId := action.outboundTransferId }
        (rest.filterMap FileRouteAbortAction.error?) ?_)
      · rintro m' _ rfl
        exact ih rfl
      · rw [hd, List.filterMap_cons, FileRouteAbortAction.error?, ht]
        by_cases h0 : action.clientId = invalidClientId
        · simp only [h0, if_true, List.nil_append]
        · simp only [h0, if_false, List.singleton_append]
    · next ht =>
      refine follows_then (follows_notifySender _ _) fun _ => ih ?_
      rw [hd, List.filterMap_cons, FileRouteAbortAction.error?, ht]

/-- `abort_file_routes_for_client` keeps to the discipline. -/
theorem follows_abortFileRoutesForClient (hid : id ≠ invalidClientId) (hd : m.duty = .idle)
    (hc : m.call = .abort) :
    (discipline id username).follows m (abortFileRoutesForClient id) fun m' _ => m'.AtRest := by
  unfold abortFileRoutesForClient
  split
  · next h0 => exact absurd h0 hid
  · exact duty_call ⟨rfl, hd, hc, rfl⟩ fun actions => follows_runAbortActions actions rfl

theorem follows_return {α β : Type} {p : Handler α} {b : β}
    (hp : (discipline id username).follows m p fun m' _ => m'.AtRest) :
    (discipline id username).follows m (do let _ ← p; pure b) fun m' _ => m'.AtRest := by
  rw [Discipline.follows_bind]
  refine Discipline.follows_mono ?_ hp
  exact fun m' _ h => follows_pure h

theorem atRest_of_eq {m' : Monitor} (hf : m.Free) (h : m' = m) : m'.AtRest := by
  rw [h]
  exact .inl hf

theorem follows_sendInvalidCommand (text : Bytes) (hf : m.Free) :
    (discipline id username).follows m (sendInvalidCommand id text) fun m' _ => m'.AtRest :=
  Discipline.follows_mono (fun _ _ => atRest_of_eq hf) (follows_sendFormatted _ _)

theorem follows_sendMessageToClient (name text : Bytes) (hf : m.Free) :
    (discipline id username).follows m (sendMessageToClient name text id)
      fun m' _ => m'.AtRest := by
  unfold sendMessageToClient
  refine duty_call trivial fun recipientId => ?_
  have hfail : (discipline id username).follows (m.next id (.findClientId name) recipientId)
      (sendFormatted id (msgUserNotFound name)) fun m' _ => m'.AtRest :=
    Discipline.follows_mono (fun _ _ =>
      atRest_of_eq (m := m.next id (.findClientId name) recipientId) hf)
      (follows_sendFormatted _ _)
  refine follows_ite (follows_then (follows_sendTextToClientId _ _) fun result => ?_) hfail
  cases result with
  | ok _ => exact follows_pure (.inl hf)
  | error e => exact hfail

theorem follows_sendTextToEach (text : Bytes) (recipients : List ClientId) :
    (discipline id username).follows m (sendTextToEach text recipients) fun m' _ => m' = m := by
  induction recipients with
  | nil => exact follows_pure rfl
  | cons recipient rest ih =>
    exact follows_then (follows_sendTextToClientId _ _) fun _ => ih

theorem follows_sendMessageToAllClients (text : Bytes) (hf : m.Free) :
    (discipline id username).follows m (sendMessageToAllClients text id)
      fun m' _ => m'.AtRest := by
  unfold sendMessageToAllClients
  refine follows_ite (follows_pure (.inl hf)) (duty_call trivial fun recipients => ?_)
  exact Discipline.follows_mono (fun _ _ => atRest_of_eq hf) (follows_sendTextToEach _ _)

theorem follows_handleRegisterPk (payload : Bytes) (hf : m.Free)
    (hc : m.call = .frame (FrameType.registerPk.toByte :: payload)) :
    (discipline id username).follows m (handleRegisterPk id payload) fun m' _ => m'.AtRest := by
  unfold handleRegisterPk
  refine follows_ite (follows_sendInvalidCommand _ hf) (duty_call ⟨rfl, hc⟩ fun result => ?_)
  cases result with
  | ok _ => exact follows_pure (.inl hf)
  | error e => exact follows_sendInvalidCommand _ hf

theorem copyPeerName_some {bytes name : Bytes} (h : copyPeerName bytes = some name) :
    name = bytes ∧ bytes.length < usernameSize := by
  unfold copyPeerName at h
  split_ifs at h with h1 h2
  exact ⟨(Option.some.inj h).symm, by omega⟩

theorem follows_handleRequestPk (payload : Bytes) (hf : m.Free)
    (hc : m.call = .frame (FrameType.requestPk.toByte :: payload)) :
    (discipline id username).follows m (handleRequestPk id payload) fun m' _ => m'.AtRest := by
  unfold handleRequestPk
  split
  · exact follows_sendInvalidCommand _ hf
  · next recipient hname =>
    obtain ⟨rfl, hlen⟩ := copyPeerName_some hname
    refine duty_call trivial fun recipientId => duty_call trivial fun key => ?_
    refine duty_call ⟨rfl, recipient, recipientId, key, hc, hlen, rfl, rfl, rfl⟩ fun result =>
      follows_pure (.inl ?_)
    exact ⟨by simp only [Monitor.next, Monitor.nextDuty, hf.1], hf.2⟩

theorem eq_length_name_rest {payload : Bytes} (h : (payload.headD 0).toNat < payload.length) :
    payload = UInt8.ofNat ((payload.drop 1).take (payload.headD 0).toNat).length ::
      ((payload.drop 1).take (payload.headD 0).toNat) ++
        payload.drop (1 + (payload.headD 0).toNat) := by
  cases payload with
  | nil => cases h
  | cons b rest =>
    have hb : b.toNat ≤ rest.length := Nat.le_of_lt_succ h
    have hlen : (rest.take b.toNat).length = b.toNat := by
      rw [List.length_take, Nat.min_eq_left hb]
    simp only [List.headD_cons, List.drop_succ_cons, List.drop_zero, hlen, UInt8.ofNat_toNat,
      Nat.add_comm 1, List.cons_append, List.take_append_drop]

theorem follows_handleCiphertext (payload : Bytes) (hf : m.Free)
    (hc : m.call = .frame (FrameType.ciphertext.toByte :: payload)) :
    (discipline id username).follows m (handleCiphertext id username payload)
      fun m' _ => m'.AtRest := by
  unfold handleCiphertext
  dsimp only
  split
  · exact follows_sendInvalidCommand _ hf
  next hlen =>
  split
  · exact follows_sendInvalidCommand _ hf
  next recipient hname =>
  refine follows_ite (follows_sendInvalidCommand _ hf) (duty_call trivial fun key => ?_)
  split
  · exact follows_sendInvalidCommand _ hf
  next hkey =>
  split
  · exact follows_sendInvalidCommand _ hf
  next hsender =>
  refine duty_call trivial fun recipientId => duty_call ?_ fun result => ?_
  · obtain ⟨hr, hrlen⟩ := copyPeerName_some hname
    simp only [not_or, not_lt, not_not, ne_eq] at hlen hkey hsender
    simp only [chatOverhead] at hlen
    have hlong : (payload.headD 0).toNat < payload.length := by omega
    refine ⟨recipient, payload.drop (1 + (payload.headD 0).toNat), ?_, ?_, ?_, ?_, ?_, rfl, rfl⟩
    · subst hr
      rw [List.cons_append, ← eq_length_name_rest hlong]
      exact hc
    · rw [hr]
      exact hrlen
    · exact not_le.mp hsender.2.1
    · rw [List.length_drop]
      omega
    · simp only [Monitor.next, hkey]
  · cases result with
    | ok _ =>
      refine follows_pure (.inl ⟨?_, hf.2⟩)
      simp only [Monitor.next, Monitor.nextDuty, hf.1]
    | error e =>
      refine Discipline.follows_mono ?_ (follows_sendFormatted _ _)
      rintro m' _ rfl
      exact .inl ⟨by simp only [Monitor.next, Monitor.nextDuty, hf.1], hf.2⟩

theorem follows_handleCommand (command : Bytes) (hf : m.Free) :
    (discipline id username).follows m (handleCommand id username command)
      fun m' _ => m'.AtRest := by
  have hquiet : ∀ {α : Type} {p : Handler α} {keep : Bool},
      ((discipline id username).follows m p fun m' _ => m' = m) →
      (discipline id username).follows m (do let _ ← p; pure keep) fun m' _ => m'.AtRest :=
    fun hp => follows_then hp fun _ => follows_pure (.inl hf)
  unfold handleCommand
  split
  · dsimp only
    refine follows_ite (hquiet (follows_sendTextToClientId _ _)) (follows_ite ?_ ?_)
    · exact follows_return (follows_sendMessageToClient _ _ hf)
    · exact follows_pure (.inl hf)
  · dsimp only
    refine follows_ite (hquiet (follows_sendTextToClientId _ _)) (follows_ite ?_ ?_)
    · exact follows_return (follows_sendMessageToAllClients _ hf)
    · exact follows_pure (.inl hf)
  · refine follows_return (duty_call trivial fun names => ?_)
    exact follows_then (follows_sendTextToClientId _ _) fun _ => follows_pure (.inl hf)
  · exact hquiet (follows_then (follows_sendTextToClientId _ _) fun _ => follows_pure rfl)
  · exact follows_pure (.inl hf)
  · exact follows_return (follows_sendInvalidCommand _ hf)
  · exact hquiet (follows_sendFormatted _ _)
  · exact hquiet (follows_sendFormatted _ _)

/-- `handle_client_frame` keeps to the discipline. -/
theorem follows_handleClientFrame (frame : Bytes) (hid : id ≠ invalidClientId)
    (hd : m.duty = .idle) (hc : m.call = .frame frame) :
    (discipline id username).follows m (handleClientFrame id username frame)
      fun m' _ => m'.AtRest := by
  have hframe : ∀ t, frame.head?.bind FrameType.ofByte = some t →
      frame = t.toByte :: frame.drop 1 := by
    intro t ht
    obtain ⟨b, hb, hbt⟩ := Option.bind_eq_some_iff.mp ht
    rw [FrameType.toByte_of_ofByte hbt, List.drop_one]
    exact List.eq_cons_of_mem_head? hb
  have hfree : ∀ t, frame.head?.bind FrameType.ofByte = some t → t.continues = false → m.Free :=
    fun t ht hne => free_of_head hd hc (by rw [ht]; exact hne)
  unfold handleClientFrame
  dsimp only
  split
  · next ht =>
    have hf := hfree _ ht rfl
    exact follows_ite (follows_return (follows_sendInvalidCommand _ hf))
      (follows_handleCommand _ hf)
  · next ht =>
    exact follows_return
      (follows_handleRegisterPk _ (hfree _ ht rfl) (by rw [hc, ← hframe _ ht]))
  · next ht =>
    exact follows_return
      (follows_handleRequestPk _ (hfree _ ht rfl) (by rw [hc, ← hframe _ ht]))
  · next ht =>
    exact follows_return
      (follows_handleCiphertext _ (hfree _ ht rfl) (by rw [hc, ← hframe _ ht]))
  · next ht => exact follows_return (follows_sendInvalidCommand _ (hfree _ ht rfl))
  · exact follows_return (follows_routeFileFrame frame hid hd hc)

end Follows

end CipherChat
