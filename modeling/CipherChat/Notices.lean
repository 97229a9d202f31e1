import CipherChat.Watch
import Mathlib.Data.Nat.Digits.Defs

/-!
# Failure texts

Which texts about transfers a call owes, after what it has done to the routes.  A
watch over the calls: a text about a transfer is sent only when it is owed, and a call
returns only when every text it owed was sent.  Other texts are left free.
-/

namespace CipherChat

open Resumption Prog Discipline

/-- What `abort_file_routes_for_client` tells a sender. -/
def departedText : Bytes := ascii "File transfer failed: recipient disconnected\n"

inductive TextKind
  /-- A text of `notify_sender_for_transfer`. -/
  | transfer
  | departed
  | other
  deriving DecidableEq

/-- Only the texts that name a transfer start with a `T`. -/
def textKind (text : Bytes) : TextKind :=
  if text.head? = some 84 then .transfer else if text = departedText then .departed else .other

def FailureMessage (message : Bytes) : Prop :=
  ascii "File transfer failed: " <+: message ∨ ascii "File transfer rejected: " <+: message

/-- A text that a call owes. -/
inductive Notice
  /-- To the client itself, about a transfer of its own. -/
  | own (src : UInt32)
  /-- To a sender whose recipient has left. -/
  | sender (id : ClientId)
  deriving DecidableEq

/-- The notice that an action stands for. -/
def FileRouteAbortAction.notice? (action : FileRouteAbortAction) : Option Notice :=
  match action.type with
  | .notifySender => if action.clientId = invalidClientId then none
    else some (.sender action.clientId)
  | .sendError => none

/-- A frame of one of the types that `route_file_frame` handles. -/
def IsFileFrame (frame : Bytes) : Prop :=
  ∃ type ∈ [FrameType.fileBegin, .fileChunk, .fileEnd, .fileError], frame.head? = some type.toByte

/-- A frame that a sender sends after its BEGIN: a CHUNK, an END or an ERROR that decodes. -/
def Continues (frame : Bytes) : Prop :=
  (∃ chunk, decodeChunk frame = some chunk) ∨
    ∃ src, decodeControl frame .fileEnd = .ok src ∨ decodeControl frame .fileError = .ok src

structure Notices where
  call : Call := .none
  owed : List Notice := []
  /-- The route that ended complete, until its END has been queued or refused. -/
  ending : Option (UInt32 × FileRouteEndpoint) := none
  deriving DecidableEq

namespace Notices

def owe (m : Notices) (notices : List Notice) : Notices := { m with owed := m.owed ++ notices }

def allow (id : ClientId) (m : Notices) : Op → Prop
  | .queueFrame r .text text =>
    match textKind text with
    | .transfer => ∃ src rest message, m.owed = .own src :: rest ∧ r = id ∧
        text = transferText src message ∧ FailureMessage message
    | .departed => ∃ rest, m.owed = .sender r :: rest
    | .other => True
  | .queueFrame r .fileEnd payload => ∃ src endpoint, m.ending = some (src, endpoint) ∧
      r = endpoint.targetId ∧ payload = writeU32 endpoint.outboundTransferId
  | .routesFinish _ _ _ => m.ending = none
  | .routesAdd _ _ _ _ _ | .routesAbortClient _ _ => m.owed = [] ∧ m.ending = none
  | .routesQuarantine _ _ _ =>
    ∃ frame, m.call = .frame frame ∧ IsFileFrame frame ∧ ¬Continues frame
  | _ => True

def next (m : Notices) : (o : Op) → o.Resp → Notices
  | .queueFrame _ .text text, _ => if textKind text = .other then m
    else { m with owed := m.owed.tail }
  | .queueFrame _ .fileEnd _, .ok () => { m with ending := none }
  | .queueFrame _ .fileEnd _, .error _ =>
    { m with owed := m.owed ++ m.ending.toList.map fun p => .own p.1, ending := none }
  | .routesAdd _ src _ _ _, answer =>
    if answer.result = .duplicate ∨ answer.result = .discard then m.owe [.own src] else m
  | .routesQuarantine _ src _, _ => m.owe [.own src]
  | .routesAcceptChunk _ src _, answer =>
    if answer.result = .missing ∨ answer.result = .overrun then m.owe [.own src] else m
  | .routesMarkForwardFailed _ src _, converted => if converted then m.owe [.own src] else m
  | .routesFinish _ src validate, answer =>
    match answer.result with
    | .missing => m.owe [.own src]
    | .incomplete => if validate then m.owe [.own src] else m
    | .ready => if validate then { m with ending := some (src, answer.endpoint) } else m
    | .discard => m
  | .routesAbortClient _ _, actions => m.owe (actions.filterMap FileRouteAbortAction.notice?)
  | _, _ => m

theorem next_call (m : Notices) (o : Op) (r : o.Resp) : (m.next o r).call = m.call := by
  cases o with
  | queueFrame c type payload =>
    cases type with
    | text =>
      rw [next]
      split <;> rfl
    | fileEnd => cases r <;> rfl
    | _ => rfl
  | routesAdd s src tgt size discard =>
    rw [next]
    split <;> rfl
  | routesAcceptChunk s src len =>
    rw [next]
    split <;> rfl
  | routesMarkForwardFailed s src out =>
    rw [next]
    split <;> rfl
  | routesFinish s src validate =>
    rw [next]
    split
    · rfl
    · split <;> rfl
    · split <;> rfl
    · rfl
  | _ => rfl

end Notices

/-- The failure texts, as a watch. -/
def notices : Watch Notices where
  start call := { call }
  allow id _ := Notices.allow id
  next _ := Notices.next
  rest m := m.owed = [] ∧ m.ending = none

theorem head?_append_of_head? {a b : Bytes} {c : UInt8} (h : a.head? = some c) :
    (a ++ b).head? = some c := by
  rw [List.head?_append, h, Option.some_or]

theorem head?_departedText : departedText.head? = some 70 := head?_ascii_ofList _ _

theorem textKind_departedText : textKind departedText = .departed := by
  unfold textKind
  rw [if_neg, if_pos rfl]
  rw [head?_departedText]
  decide

theorem textKind_of_head? {text : Bytes} {c : UInt8} (h : text.head? = some c) (hT : c ≠ 84)
    (hF : c ≠ 70) : textKind text = .other := by
  unfold textKind
  rw [if_neg, if_neg]
  · intro heq
    rw [heq, head?_departedText] at h
    exact hF (Option.some.inj h).symm
  · rw [h]
    exact fun heq => hT (Option.some.inj heq)

theorem textKind_ofList {cs ds : List Char} (hdeparted : departedText = ascii (String.ofList ds))
    (hT : (cs.map fun c => UInt8.ofNat c.toNat).head? ≠ some 84)
    (hne : (cs.map fun c => UInt8.ofNat c.toNat) ≠ ds.map fun c => UInt8.ofNat c.toNat) :
    textKind (ascii (String.ofList cs)) = .other := by
  unfold textKind
  rw [hdeparted, ascii_ofList, ascii_ofList, if_neg hT, if_neg hne]

theorem failureMessage_ofList {cs failed rejected : List Char}
    (hfailed : ascii "File transfer failed: " = ascii (String.ofList failed))
    (hrejected : ascii "File transfer rejected: " = ascii (String.ofList rejected))
    (h : failed <+: cs ∨ rejected <+: cs) : FailureMessage (ascii (String.ofList cs)) := by
  unfold FailureMessage
  rw [hfailed, hrejected]
  exact h.imp ascii_ofList_isPrefix ascii_ofList_isPrefix

theorem length_ascii_le {cs : List Char} (h : cs.length ≤ 900) :
    (ascii (String.ofList cs)).length ≤ 900 := by
  rwa [length_ascii_ofList]

theorem transferText_eq (src : UInt32) (message : Bytes) : transferText src message =
    ascii "Transfer id " ++ (ascii (Nat.repr src.toNat) ++ (ascii ": " ++ message)) := by
  simp only [transferText, List.append_assoc]

theorem textKind_transferText (src : UInt32) (message : Bytes) :
    textKind (transferText src message) = .transfer := by
  have hhead : (ascii "Transfer id " ++
      (ascii (Nat.repr src.toNat) ++ (ascii ": " ++ message))).head?
      = some 84 := head?_append_of_head? (head?_ascii_ofList _ _)
  unfold textKind
  rw [transferText_eq, if_pos hhead]

theorem length_ascii_repr (src : UInt32) : (ascii (Nat.repr src.toNat)).length ≤ 10 := by
  have hlt : src.toNat < 10 ^ 10 := lt_trans src.toNat_lt (by norm_num)
  rw [ascii, List.length_map, Nat.repr, String.toList_ofList]
  exact Nat.toDigits_length 10 src.toNat 10 (by norm_num) hlt

theorem length_transferText (src : UInt32) {message : Bytes} (h : message.length ≤ 900) :
    0 < (transferText src message).length ∧ (transferText src message).length < bufferSize := by
  have h1 : (ascii "Transfer id ").length = 12 := length_ascii_ofList _
  have h2 : (ascii ": ").length = 2 := length_ascii_ofList _
  have h3 := length_ascii_repr src
  rw [transferText_eq]
  simp only [List.length_append, h1, h2, bufferSize]
  omega

theorem Continues.head {frame : Bytes} (h : Continues frame) :
    (frame.head? = some FrameType.fileChunk.toByte ∧ ∃ chunk, decodeChunk frame = some chunk) ∨
    (frame.head? = some FrameType.fileEnd.toByte ∧ ∃ src, decodeControl frame .fileEnd = .ok src) ∨
    (frame.head? = some FrameType.fileError.toByte ∧
      ∃ src, decodeControl frame .fileError = .ok src) := by
  rcases h with ⟨chunk, h⟩ | ⟨src, h | h⟩
  · exact .inl ⟨(decodeChunk_some h).1, chunk, h⟩
  · exact .inr (.inl ⟨(decodeControl_ok h).1, src, h⟩)
  · exact .inr (.inr ⟨(decodeControl_ok h).1, src, h⟩)

theorem isFileFrame_of_head {frame : Bytes} {type : FrameType}
    (ht : type ∈ [FrameType.fileBegin, .fileChunk, .fileEnd, .fileError])
    (hh : frame.head? = some type.toByte) : IsFileFrame frame := ⟨type, ht, hh⟩

section Follows

variable {id : ClientId} {username : Bytes} {m : Notices} {k : Call}

theorem notices_call {α : Type} {o : Op} {k : o.Resp → Handler α} {Q : Notices → α → Prop}
    (ha : m.allow id o) (hk : ∀ r, (notices.discipline id username).follows (m.next o r) (k r) Q) :
    (notices.discipline id username).follows m (call (S := serverSig) o >>= k) Q :=
  follows_call ha hk

theorem allow_other {r : ClientId} {text : Bytes} (h : textKind text = .other) :
    m.allow id (.queueFrame r .text text) := by
  simp only [Notices.allow, h]

theorem notices_sendText {text : Bytes} (c : ClientId) (h : textKind text = .other) :
    (notices.discipline id username).follows m (sendTextToClientId c text) fun m' _ => m' = m := by
  unfold sendTextToClientId
  refine follows_ite (follows_pure rfl) ?_
  rw [sendFrameToClientId, call, follows_op]
  refine ⟨allow_other h, fun r => ?_⟩
  rw [follows_ret]
  exact if_pos h

theorem notices_sendFormatted {text : Bytes} (c : ClientId) (h : textKind text = .other) :
    (notices.discipline id username).follows m (sendFormatted c text) fun m' _ => m' = m := by
  unfold sendFormatted
  exact follows_ite (follows_then (notices_sendText c h) fun _ => follows_pure rfl)
    (follows_pure rfl)

theorem notices_notifySender {text : Bytes} (c : ClientId) (h : textKind text = .other) :
    (notices.discipline id username).follows m (notifySender c text) fun m' _ => m' = m := by
  unfold notifySender
  exact follows_ite (follows_then (notices_sendText c h) fun _ => follows_pure rfl)
    (follows_pure rfl)

theorem notices_owed {r : ClientId} {text : Bytes} {notice : Notice} {rest : List Notice}
    (hr : r ≠ invalidClientId) (ht : text ≠ []) (ho : m.owed = notice :: rest)
    (hk : textKind text ≠ .other) (ha : m.allow id (.queueFrame r .text text)) :
    (notices.discipline id username).follows m (notifySender r text) fun m' _ =>
      m' = { m with owed := rest } := by
  unfold notifySender
  rw [if_pos hr, sendTextToClientId, if_neg ht]
  refine notices_call ha fun result => follows_pure ?_
  rw [Notices.next, if_neg hk, ho]
  rfl

theorem notices_transfer {src : UInt32} {message : Bytes} {rest : List Notice}
    (hid : id ≠ invalidClientId) (ho : m.owed = .own src :: rest) (hm : FailureMessage message)
    (hlen : message.length ≤ 900) :
    (notices.discipline id username).follows m (notifySenderForTransfer id src message)
      fun m' _ => m' = { m with owed := rest } := by
  have hfit := length_transferText src hlen
  have hkind := textKind_transferText src message
  unfold notifySenderForTransfer
  dsimp only
  rw [if_pos hfit]
  refine notices_owed hid (List.ne_nil_of_length_pos hfit.1) ho (by rw [hkind]; decide) ?_
  simp only [Notices.allow, hkind, true_and]
  exact ⟨src, rest, message, ho, rfl, hm⟩

theorem notices_sendReceiverError (endpoint : FileRouteEndpoint) :
    (notices.discipline id username).follows m (sendReceiverError endpoint) fun m' _ => m' = m := by
  unfold sendReceiverError
  refine follows_ite (follows_pure rfl) ?_
  rw [encodeControl_eq]
  dsimp only
  refine notices_call trivial fun result => ?_
  cases result <;> exact follows_pure rfl

theorem notices_report {src : UInt32} {message : Bytes} {result : Int}
    (hid : id ≠ invalidClientId) (hm : m = { call := k, owed := [.own src] })
    (hf : FailureMessage message)
    (hlen : message.length ≤ 900) :
    (notices.discipline id username).follows m (do
      notifySenderForTransfer id src message
      pure result) fun m' _ => m' = { call := k } := by
  subst hm
  exact follows_then (notices_transfer hid rfl hf hlen) fun _ => follows_pure rfl

theorem notices_say {c : ClientId} {text : Bytes} {result : Int} (ht : textKind text = .other) :
    (notices.discipline id username).follows { call := k } (do
      notifySender c text
      pure result) fun m' _ => m' = { call := k } :=
  follows_then (notices_notifySender c ht) fun _ => follows_pure rfl

theorem notices_rejectKnownTransfer {src : UInt32} {message : Bytes} {keep : Bool}
    (hq : ∃ frame, k = .frame frame ∧ IsFileFrame frame ∧ ¬Continues frame)
    (hid : id ≠ invalidClientId) (hf : FailureMessage message) (hlen : message.length ≤ 900) :
    (notices.discipline id username).follows { call := k } (rejectKnownTransfer id src message keep)
      fun m' _ => m' = { call := k } := by
  unfold rejectKnownTransfer
  refine notices_call hq fun answer => ?_
  split <;> dsimp only
  · exact follows_then (notices_sendReceiverError _) fun _ => notices_report hid rfl hf hlen
  · exact notices_report hid rfl hf hlen

theorem notices_rejectMalformed {frame : Bytes} {known unknown : String} {keep : Bool}
    (hq : ∃ frame, k = .frame frame ∧ IsFileFrame frame ∧ ¬Continues frame)
    (hid : id ≠ invalidClientId) (hf : FailureMessage (ascii known))
    (hlen : (ascii known).length ≤ 900) (hu : textKind (ascii unknown) = .other) :
    (notices.discipline id username).follows { call := k }
      (rejectMalformed id frame known unknown keep)
      fun m' _ => m' = { call := k } := by
  unfold rejectMalformed
  split
  · exact notices_rejectKnownTransfer hq hid hf hlen
  · exact notices_say hu

theorem next_add {s tgt : ClientId} {src : UInt32} {size : UInt64} {discard : Bool}
    {answer : FileRoutes.AddAnswer} (h : answer.result = .duplicate ∨ answer.result = .discard) :
    m.next (.routesAdd s src tgt size discard) answer = m.owe [.own src] := if_pos h

theorem next_add_free {s tgt : ClientId} {src : UInt32} {size : UInt64} {discard : Bool}
    {answer : FileRoutes.AddAnswer} (h1 : answer.result ≠ .duplicate)
    (h2 : answer.result ≠ .discard) :
    m.next (.routesAdd s src tgt size discard) answer = m :=
  if_neg (not_or.mpr ⟨h1, h2⟩)

theorem next_chunk {s : ClientId} {src : UInt32} {len : UInt64} {answer : FileRoutes.ChunkAnswer}
    (h : answer.result = .missing ∨ answer.result = .overrun) :
    m.next (.routesAcceptChunk s src len) answer = m.owe [.own src] := if_pos h

theorem next_chunk_free {s : ClientId} {src : UInt32} {len : UInt64}
    {answer : FileRoutes.ChunkAnswer} (h1 : answer.result ≠ .missing)
    (h2 : answer.result ≠ .overrun) :
    m.next (.routesAcceptChunk s src len) answer = m :=
  if_neg (not_or.mpr ⟨h1, h2⟩)

theorem failureMessage_discard (peer : Bytes) (hpeer : peer.length < usernameSize) :
    FailureMessage (ascii "File transfer rejected: user " ++ peer ++ ascii " is not connected\n") ∧
      (ascii "File transfer rejected: user " ++ peer ++
        ascii " is not connected\n").length ≤ 900 := by
  have h1 : ascii "File transfer rejected: " <+: ascii "File transfer rejected: user " :=
    ascii_ofList_isPrefix (by decide)
  have h2 : (ascii "File transfer rejected: user ").length = 29 := length_ascii_ofList _
  have h3 : (ascii " is not connected\n").length = 18 := length_ascii_ofList _
  refine ⟨.inr (h1.trans ?_), ?_⟩
  · rw [List.append_assoc]
    exact List.prefix_append _ _
  · simp only [List.length_append, h2, h3]
    simp only [usernameSize] at hpeer
    omega

theorem notices_handleFileBegin (frame : Bytes) (hid : id ≠ invalidClientId)
    (hk : k = .frame frame) (hh : frame.head? = some FrameType.fileBegin.toByte) :
    (notices.discipline id username).follows { call := k } (handleFileBegin id username frame)
      fun m' _ => m' = { call := k } := by
  have hq : ∃ frame, k = .frame frame ∧ IsFileFrame frame ∧ ¬Continues frame := by
    refine ⟨frame, hk, isFileFrame_of_head (by decide) hh, fun hcont => ?_⟩
    rcases hcont.head with ⟨h, -⟩ | ⟨h, -⟩ | ⟨h, -⟩ <;> rw [hh] at h <;> exact absurd h (by decide)
  unfold handleFileBegin
  refine follows_ite (notices_say (textKind_ofList rfl (by decide) (by decide))) ?_
  split
  · exact notices_rejectMalformed hq hid (failureMessage_ofList rfl rfl (by decide))
      (length_ascii_le (by decide)) (textKind_ofList rfl (by decide) (by decide))
  · next b hb =>
    have hpeer : b.peer.length < usernameSize := by
      have hvalid := (decodeBegin_some hb).2.2.1
      simp only [validPeerName, Bool.and_eq_true, decide_eq_true_eq] at hvalid
      exact hvalid.1.2
    refine notices_call trivial fun targetId => notices_call ⟨rfl, rfl⟩ fun answer => ?_
    split
    -- a duplicate: the recipient of the old route first
    · next hr =>
      rw [next_add (.inl hr)]
      split <;> dsimp only
      · refine follows_then (notices_sendReceiverError _) fun _ => ?_
        exact notices_report hid rfl (failureMessage_ofList rfl rfl (by decide))
          (length_ascii_le (by decide))
      · exact notices_report hid rfl (failureMessage_ofList rfl rfl (by decide))
          (length_ascii_le (by decide))
    · next hr =>
      rw [next_add_free (by simp [hr]) (by simp [hr])]
      exact notices_say (textKind_ofList rfl (by decide) (by decide))
    · next hr =>
      rw [next_add_free (by simp [hr]) (by simp [hr])]
      exact notices_say (textKind_ofList rfl (by decide) (by decide))
    · next hr =>
      -- an unknown recipient, or the client itself
      rw [next_add (.inr hr)]
      obtain ⟨hf, hlen⟩ := failureMessage_discard b.peer hpeer
      dsimp only
      refine follows_ite ?_ (notices_report hid rfl (failureMessage_ofList rfl rfl (by decide))
        (length_ascii_le (by decide)))
      by_cases hself : targetId = id
      · rw [if_pos hself]
        exact notices_report hid rfl (failureMessage_ofList rfl rfl (by decide))
          (length_ascii_le (by decide))
      · rw [if_neg hself]
        exact notices_report hid rfl hf hlen
    · next hr =>
      rw [next_add_free (by simp [hr]) (by simp [hr])]
      -- READY: nothing is owed unless the BEGIN fails to go out
      split
      · exact notices_rejectKnownTransfer hq hid (failureMessage_ofList rfl rfl (by decide))
          (length_ascii_le (by decide))
      · refine notices_call trivial fun result => ?_
        cases result with
        | ok _ => exact follows_pure rfl
        | error e =>
          dsimp only
          refine notices_call hq fun _ => ?_
          exact notices_report hid rfl (failureMessage_ofList rfl rfl (by decide))
            (length_ascii_le (by decide))

theorem notices_handleFileChunk (frame : Bytes) (hid : id ≠ invalidClientId)
    (hk : k = .frame frame) (hh : frame.head? = some FrameType.fileChunk.toByte) :
    (notices.discipline id username).follows { call := k } (handleFileChunk id frame)
      fun m' _ => m' = { call := k } := by
  unfold handleFileChunk
  split
  · next hno =>
    refine notices_rejectMalformed ⟨frame, hk, isFileFrame_of_head (by decide) hh, fun hcont => ?_⟩
      hid (failureMessage_ofList rfl rfl (by decide)) (length_ascii_le (by decide))
      (textKind_ofList rfl (by decide) (by decide))
    rcases hcont.head with ⟨-, chunk, h⟩ | ⟨h, -⟩ | ⟨h, -⟩
    · rw [hno] at h
      cases h
    · rw [hh] at h
      exact absurd h (by decide)
    · rw [hh] at h
      exact absurd h (by decide)
  · next chunk hchunk =>
    refine notices_call trivial fun answer => ?_
    split
    · next hr =>
      rw [next_chunk (.inl hr)]
      exact notices_report hid rfl (failureMessage_ofList rfl rfl (by decide))
        (length_ascii_le (by decide))
    · next hr =>
      rw [next_chunk_free (by simp [hr]) (by simp [hr])]
      exact follows_pure rfl
    · next hr =>
      rw [next_chunk (.inr hr)]
      refine follows_then (notices_sendReceiverError _) fun _ => ?_
      exact notices_report hid rfl (failureMessage_ofList rfl rfl (by decide))
        (length_ascii_le (by decide))
    · next hr =>
      -- an accepted chunk: a failure is reported by the call that converts the route
      have henc : encodeChunk _ answer.endpoint.outboundTransferId chunk.data = _ :=
        encodeChunk_eq (decodeChunk_some hchunk).2.2.1 (decodeChunk_some hchunk).2.2.2
      rw [next_chunk_free (by simp [hr]) (by simp [hr]), henc]
      dsimp only
      refine notices_call trivial fun result => ?_
      cases result with
      | ok _ => exact follows_pure rfl
      | error e =>
        dsimp only
        refine notices_call trivial fun converted => ?_
        cases converted with
        | false => exact follows_pure rfl
        | true =>
          exact notices_report hid rfl (failureMessage_ofList rfl rfl (by decide))
            (length_ascii_le (by decide))

theorem notices_handleFileEnd (frame : Bytes) (hid : id ≠ invalidClientId)
    (hk : k = .frame frame) (hh : frame.head? = some FrameType.fileEnd.toByte) :
    (notices.discipline id username).follows { call := k } (handleFileEnd id frame) fun m' _ =>
      m' = { call := k } := by
  unfold handleFileEnd
  split
  · next hno =>
    refine notices_rejectMalformed ⟨frame, hk, isFileFrame_of_head (by decide) hh, fun hcont => ?_⟩
      hid (failureMessage_ofList rfl rfl (by decide)) (length_ascii_le (by decide))
      (textKind_ofList rfl (by decide) (by decide))
    rcases hcont.head with ⟨h, -⟩ | ⟨-, src, h⟩ | ⟨h, -⟩
    · rw [hh] at h
      exact absurd h (by decide)
    · rw [hno] at h
      cases h
    · rw [hh] at h
      exact absurd h (by decide)
  · next src hsrc =>
    refine notices_call rfl fun answer => ?_
    split
    · next hr =>
      simp only [Notices.next, hr]
      exact notices_report hid rfl (failureMessage_ofList rfl rfl (by decide))
        (length_ascii_le (by decide))
    · next hr =>
      simp only [Notices.next, hr]
      exact follows_pure rfl
    · next hr =>
      simp only [Notices.next, hr, if_true]
      refine follows_then (notices_sendReceiverError _) fun _ => ?_
      exact notices_report hid rfl (failureMessage_ofList rfl rfl (by decide))
        (length_ascii_le (by decide))
    · next hr =>
      simp only [Notices.next, hr, if_true]
      rw [encodeControl_eq]
      dsimp only
      refine notices_call ⟨src, _, rfl, rfl, rfl⟩ fun result => ?_
      cases result with
      | ok _ => exact follows_pure rfl
      | error e =>
        exact notices_report hid rfl (failureMessage_ofList rfl rfl (by decide))
          (length_ascii_le (by decide))

theorem notices_handleFileError (frame : Bytes) (hid : id ≠ invalidClientId)
    (hk : k = .frame frame) (hh : frame.head? = some FrameType.fileError.toByte) :
    (notices.discipline id username).follows { call := k } (handleFileError id frame) fun m' _ =>
      m' = { call := k } := by
  unfold handleFileError
  split
  · next hno =>
    refine notices_rejectMalformed ⟨frame, hk, isFileFrame_of_head (by decide) hh, fun hcont => ?_⟩
      hid (failureMessage_ofList rfl rfl (by decide)) (length_ascii_le (by decide))
      (textKind_ofList rfl (by decide) (by decide))
    rcases hcont.head with ⟨h, -⟩ | ⟨h, -⟩ | ⟨-, src, h⟩
    · rw [hh] at h
      exact absurd h (by decide)
    · rw [hh] at h
      exact absurd h (by decide)
    · rw [hno] at h
      cases h
  · next src hsrc =>
    refine notices_call rfl fun answer => ?_
    split
    · next hr =>
      simp only [Notices.next, hr]
      exact notices_report hid rfl (failureMessage_ofList rfl rfl (by decide))
        (length_ascii_le (by decide))
    · next hr =>
      simp only [Notices.next, hr]
      exact follows_pure rfl
    · next hr =>
      simp only [Notices.next, hr, Bool.false_eq_true, if_false]
      exact notices_sendReceiverError _
    · next hr =>
      simp only [Notices.next, hr, Bool.false_eq_true, if_false]
      exact notices_sendReceiverError _

theorem notices_routeFileFrame (frame : Bytes) (hid : id ≠ invalidClientId)
    (hk : k = .frame frame) :
    (notices.discipline id username).follows { call := k } (routeFileFrame id username frame)
      fun m' _ => m' = { call := k } := by
  have hhead : ∀ {type}, frame.head?.bind FrameType.ofByte = some type →
      frame.head? = some type.toByte := by
    intro type ht
    obtain ⟨b, hb, hbt⟩ := Option.bind_eq_some_iff.mp ht
    rw [hb, FrameType.toByte_of_ofByte hbt]
  unfold routeFileFrame
  refine follows_ite (follows_pure rfl)
    (follows_ite (notices_say (textKind_ofList rfl (by decide) (by decide))) ?_)
  split
  · next ht => exact notices_handleFileBegin frame hid hk (hhead ht)
  · next ht => exact notices_handleFileChunk frame hid hk (hhead ht)
  · next ht => exact notices_handleFileEnd frame hid hk (hhead ht)
  · next ht => exact notices_handleFileError frame hid hk (hhead ht)
  · exact notices_say (textKind_ofList rfl (by decide) (by decide))

theorem notices_runAbortActions (actions : List FileRouteAbortAction)
    (ho : m = { call := k, owed := actions.filterMap FileRouteAbortAction.notice? }) :
    (notices.discipline id username).follows m (runAbortActions actions) fun m' _ =>
      m' = { call := k } := by
  induction actions generalizing m with
  | nil => exact follows_pure ho
  | cons action rest ih =>
    subst ho
    unfold runAbortActions
    split <;> dsimp only
    · next ht =>
      refine follows_then (notices_sendReceiverError _) fun _ => ih ?_
      rw [List.filterMap_cons, FileRouteAbortAction.notice?, ht]
    · next ht =>
      by_cases h0 : action.clientId = invalidClientId
      · have hnone : action.notice? = none := by
          simp only [FileRouteAbortAction.notice?, ht, h0, if_true]
        rw [notifySender, if_neg (not_not.mpr h0), List.filterMap_cons, hnone]
        exact ih rfl
      · have hsome : action.notice? = some (.sender action.clientId) := by
          simp only [FileRouteAbortAction.notice?, ht, h0, if_false]
        have hkind := textKind_departedText
        rw [List.filterMap_cons, hsome]
        have hne : departedText ≠ [] := by
          intro hnil
          have hhead := head?_departedText
          rw [hnil] at hhead
          cases hhead
        refine follows_then (notices_owed h0 hne rfl (by rw [← departedText, hkind]; decide) ?_)
          fun _ => ih rfl
        rw [← departedText]
        simp only [Notices.allow, hkind]
        exact ⟨_, rfl⟩

theorem notices_abortFileRoutesForClient (c : ClientId) :
    (notices.discipline id username).follows { call := k } (abortFileRoutesForClient c) fun m' _ =>
      m' = { call := k } := by
  unfold abortFileRoutesForClient
  refine follows_ite (follows_pure rfl) (notices_call ⟨rfl, rfl⟩ fun actions => ?_)
  exact notices_runAbortActions actions (by rw [Notices.next, Notices.owe]; rfl)

theorem textKind_userNotFound (name : Bytes) : textKind (msgUserNotFound name) = .other := by
  refine textKind_of_head? (c := 85) ?_ (by decide) (by decide)
  rw [msgUserNotFound, List.append_assoc]
  exact head?_append_of_head? (head?_ascii_ofList _ _)

theorem notices_sendInvalidCommand (c : ClientId) (command : Bytes) :
    (notices.discipline id username).follows m (sendInvalidCommand c command) fun m' _ =>
      m' = m := by
  refine notices_sendFormatted c (textKind_of_head? (c := 73) ?_ (by decide) (by decide))
  rw [List.append_assoc]
  exact head?_append_of_head? (head?_ascii_ofList _ _)

theorem notices_sendUnknownCommand (c : ClientId) (command : Bytes) :
    (notices.discipline id username).follows m (sendUnknownCommand c command) fun m' _ =>
      m' = m := by
  refine notices_sendFormatted c (textKind_of_head? (c := 85) ?_ (by decide) (by decide))
  rw [List.append_assoc]
  exact head?_append_of_head? (head?_ascii_ofList _ _)

theorem notices_sendMessageToClient {name text : Bytes} (c : ClientId)
    (h : textKind text = .other) :
    (notices.discipline id username).follows m (sendMessageToClient name text c)
      fun m' _ => m' = m := by
  unfold sendMessageToClient
  refine notices_call trivial fun recipientId => ?_
  have hfail : (notices.discipline id username).follows m (sendFormatted c (msgUserNotFound name))
      fun m' _ => m' = m := notices_sendFormatted c (textKind_userNotFound name)
  refine follows_ite (follows_then (notices_sendText recipientId h) fun result => ?_) hfail
  cases result with
  | ok _ => exact follows_pure rfl
  | error e => exact hfail

theorem notices_sendTextToEach {text : Bytes} (recipients : List ClientId)
    (h : textKind text = .other) :
    (notices.discipline id username).follows m (sendTextToEach text recipients)
      fun m' _ => m' = m := by
  induction recipients with
  | nil => exact follows_pure rfl
  | cons recipient rest ih => exact follows_then (notices_sendText recipient h) fun _ => ih

theorem notices_sendMessageToAllClients {text : Bytes} (c : ClientId)
    (h : textKind text = .other) :
    (notices.discipline id username).follows m (sendMessageToAllClients text c)
      fun m' _ => m' = m := by
  unfold sendMessageToAllClients
  refine follows_ite (follows_pure rfl) (notices_call trivial fun recipients => ?_)
  exact notices_sendTextToEach recipients h

theorem head?_appendNames {text : Bytes} {c : UInt8} (names : List Bytes)
    (h : text.head? = some c) :
    (appendNames text names).head? = some c := by
  induction names generalizing text with
  | nil => exact h
  | cons name rest ih =>
    rw [appendNames]
    split
    · exact head?_append_of_head? h
    · exact ih (head?_append_of_head? h)

theorem textKind_helpMessage : textKind helpMessage = .other := by
  refine textKind_of_head? (c := 65) ?_ (by decide) (by decide)
  simp only [helpMessage, List.append_assoc]
  exact head?_append_of_head? (head?_ascii_ofList _ _)

theorem notices_handleCommand (c : ClientId) (command : Bytes) :
    (notices.discipline id username).follows m (handleCommand c username command)
      fun m' _ => m' = m := by
  have hlong : textKind msgTooLong = .other := textKind_ofList rfl (by decide) (by decide)
  have hprivate : ∀ message, textKind (ascii "Private message from " ++ username ++ ascii ": " ++
      message ++ ascii "\n") = .other := by
    intro message
    refine textKind_of_head? (c := 80) ?_ (by decide) (by decide)
    simp only [List.append_assoc]
    exact head?_append_of_head? (head?_ascii_ofList _ _)
  have hbroadcast : ∀ message, textKind (ascii "Broadcast from " ++ username ++ ascii ": " ++
      message ++ ascii "\n") = .other := by
    intro message
    refine textKind_of_head? (c := 66) ?_ (by decide) (by decide)
    simp only [List.append_assoc]
    exact head?_append_of_head? (head?_ascii_ofList _ _)
  unfold handleCommand
  split
  · dsimp only
    refine follows_ite (follows_then (notices_sendText c hlong) fun _ => follows_pure rfl)
      (follows_ite ?_ (follows_pure rfl))
    exact follows_then (notices_sendMessageToClient c (hprivate _)) fun _ => follows_pure rfl
  · dsimp only
    refine follows_ite (follows_then (notices_sendText c hlong) fun _ => follows_pure rfl)
      (follows_ite ?_ (follows_pure rfl))
    exact follows_then (notices_sendMessageToAllClients c (hbroadcast _)) fun _ => follows_pure rfl
  · refine follows_then ?_ fun _ => follows_pure (rfl : m = m)
    refine notices_call trivial fun names => follows_then (notices_sendText c ?_) fun _ =>
      follows_pure rfl
    exact textKind_of_head? (head?_appendNames names (c := 67) (head?_ascii_ofList _ _)) (by decide)
      (by decide)
  · refine follows_then ?_ fun _ => follows_pure (rfl : m = m)
    exact follows_then (notices_sendText c textKind_helpMessage) fun _ => follows_pure rfl
  · exact follows_pure rfl
  · exact follows_then (notices_sendInvalidCommand c command) fun _ => follows_pure rfl
  · exact follows_then (notices_sendUnknownCommand c command) fun _ => follows_pure rfl
  · exact follows_then (notices_sendUnknownCommand c command) fun _ => follows_pure rfl

theorem notices_handleRegisterPk (c : ClientId) (payload : Bytes) :
    (notices.discipline id username).follows m (handleRegisterPk c payload) fun m' _ => m' = m := by
  unfold handleRegisterPk
  refine follows_ite (notices_sendInvalidCommand c _) (notices_call trivial fun result => ?_)
  cases result with
  | ok _ => exact follows_pure rfl
  | error e => exact notices_sendInvalidCommand c _

theorem notices_handleRequestPk (c : ClientId) (payload : Bytes) :
    (notices.discipline id username).follows m (handleRequestPk c payload) fun m' _ => m' = m := by
  unfold handleRequestPk
  split
  · exact notices_sendInvalidCommand c _
  · refine notices_call trivial fun recipientId => notices_call trivial fun key => ?_
    exact notices_call trivial fun result => follows_pure rfl

theorem notices_handleCiphertext (c : ClientId) (payload : Bytes) :
    (notices.discipline id username).follows m (handleCiphertext c username payload)
      fun m' _ => m' = m := by
  unfold handleCiphertext
  dsimp only
  refine follows_ite (notices_sendInvalidCommand c _) ?_
  split
  · exact notices_sendInvalidCommand c _
  · next recipient hname =>
    refine follows_ite (notices_sendInvalidCommand c _) (notices_call trivial fun key => ?_)
    refine follows_ite (notices_sendInvalidCommand c _)
      (follows_ite (notices_sendInvalidCommand c _) ?_)
    refine notices_call trivial fun recipientId => notices_call trivial fun result => ?_
    cases result with
    | ok _ => exact follows_pure rfl
    | error e => exact notices_sendFormatted c (textKind_userNotFound recipient)

theorem notices_handleClientFrame (frame : Bytes) (hid : id ≠ invalidClientId)
    (hk : k = .frame frame) :
    (notices.discipline id username).follows { call := k } (handleClientFrame id username frame)
      fun m' _ => m' = { call := k } := by
  unfold handleClientFrame
  dsimp only
  split
  · refine follows_ite ?_ (notices_handleCommand id _)
    exact follows_then (notices_sendInvalidCommand id _) fun _ => follows_pure rfl
  · exact follows_then (notices_handleRegisterPk id _) fun _ => follows_pure rfl
  · exact follows_then (notices_handleRequestPk id _) fun _ => follows_pure rfl
  · exact follows_then (notices_handleCiphertext id _) fun _ => follows_pure rfl
  · exact follows_then (notices_sendInvalidCommand id _) fun _ => follows_pure rfl
  · exact follows_then (notices_routeFileFrame frame hid hk) fun _ => follows_pure rfl

end Follows

theorem notices_kept : notices.Kept where
  frame id name frame hid := by
    refine follows_mono ?_ (notices_handleClientFrame frame hid rfl)
    intro m _ hm
    rw [hm]
    exact ⟨rfl, rfl⟩
  abort id name hid := by
    refine follows_mono ?_ (notices_abortFileRoutesForClient id)
    intro m _ hm
    rw [hm]
    exact ⟨rfl, rfl⟩

end CipherChat
