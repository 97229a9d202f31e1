import CipherChat.FileCodec
import CipherChat.Transfers

/-!
# The route that a call works on

A watch over the calls: a call works on no route but the one its frame names, and a
CHUNK, an END or an ERROR is answered according to what was found there.  A frame that
finds a tombstone is answered with nothing, one that finds no route with texts to its
sender; an END or an ERROR that names a transfer does not return before it was cleared.
-/

namespace CipherChat

open Resumption Prog Discipline

/-- What a call found under the transfer id of its frame; `live` also stands for the
answers to a BEGIN and to a frame that does not decode. -/
inductive Finding
  | live | tombstone | missing
  deriving DecidableEq

namespace Finding

def ofChunk : FileRouteChunkResult → Finding
  | .ready | .overrun => .live
  | .discard => .tombstone
  | .missing => .missing

def ofFinish : FileRouteFinishResult → Finding
  | .ready | .incomplete => .live
  | .discard => .tombstone
  | .missing => .missing

end Finding

structure Keyed where
  call : Call := .none
  finding : Option Finding := none
  deriving DecidableEq

def Closes (frame : Bytes) : Prop :=
  (frame.head? = some FrameType.fileEnd.toByte ∨ frame.head? = some FrameType.fileError.toByte) ∧
    1 + 4 ≤ frame.length ∧ frame.length ≤ frameMaxSize

namespace Keyed

def MaySend (id : ClientId) (m : Keyed) (r : ClientId) (type : FrameType) : Prop :=
  match m.finding with
  | some .live => True
  | some .missing => r = id ∧ type = .text
  | some .tombstone => False
  | none => ∀ frame, m.call = .frame frame → ¬Continues frame

def allow (id : ClientId) (m : Keyed) : Op → Prop
  | .queueFrame r type _ => m.MaySend id r type
  | .routesAdd s src _ _ _ => s = id ∧ m.finding = none ∧ ∃ frame b, m.call = .frame frame ∧
      decodeBegin frame = some b ∧ b.transferId = src
  | .routesQuarantine s src keep => s = id ∧ ∃ frame, m.call = .frame frame ∧ Concerns src frame ∧
      ¬Continues frame ∧ (keep = false ↔ Closes frame)
  | .routesAcceptChunk s src _ => s = id ∧ m.finding = none ∧ ∃ frame c, m.call = .frame frame ∧
      decodeChunk frame = some c ∧ c.transferId = src
  | .routesMarkForwardFailed s src _ => s = id ∧ m.finding = some .live ∧ ∃ frame c,
      m.call = .frame frame ∧ decodeChunk frame = some c ∧ c.transferId = src
  | .routesFinish s src _ => s = id ∧ m.finding = none ∧ ∃ frame, m.call = .frame frame ∧
      (decodeControl frame .fileEnd = .ok src ∨ decodeControl frame .fileError = .ok src)
  | .routesAbortClient c _ => c = id ∧ m.call = .abort
  | _ => True

def next (m : Keyed) : (o : Op) → o.Resp → Keyed
  | .routesAdd _ _ _ _ _, _ | .routesQuarantine _ _ _, _ => { m with finding := some .live }
  | .routesAcceptChunk _ _ _, answer => { m with finding := some (.ofChunk answer.result) }
  | .routesFinish _ _ _, answer => { m with finding := some (.ofFinish answer.result) }
  | _, _ => m

end Keyed

def keys : Watch Keyed where
  start call := { call }
  allow id _ := Keyed.allow id
  next _ := Keyed.next
  rest m := ∀ frame, m.call = .frame frame → Closes frame → m.finding ≠ none

theorem Continues.length_le {frame : Bytes} (h : Continues frame) :
    frame.length ≤ frameMaxSize := by
  have hmax := frameMaxSize_eq
  have hchunk : fileChunkSize = 900 := rfl
  rcases h with ⟨chunk, h⟩ | ⟨src, h | h⟩
  · have hle := (decodeChunk_some h).2.2.2
    rw [decodeChunk_image h, List.length_cons, List.length_append, writeU32_length]
    omega
  · rw [decodeControl_image h, List.length_cons, writeU32_length]
    omega
  · rw [decodeControl_image h, List.length_cons, writeU32_length]
    omega

section Follows

variable {id : ClientId} {username : Bytes} {m : Keyed} {frame : Bytes}

theorem maySend_live {r : ClientId} {type : FrameType} (h : m.finding = some .live) :
    m.MaySend id r type := by
  simp only [Keyed.MaySend, h]

theorem maySend_missing (h : m.finding = some .missing) : m.MaySend id id .text := by
  simp only [Keyed.MaySend, h, and_self]

theorem keys_call {α : Type} {o : Op} {k : o.Resp → Handler α} {Q : Keyed → α → Prop}
    (ha : m.allow id o) (hk : ∀ r, (keys.discipline id username).follows (m.next o r) (k r) Q) :
    (keys.discipline id username).follows m (call (S := serverSig) o >>= k) Q :=
  follows_call ha hk

theorem keys_notifySender {r : ClientId} {text : Bytes} (h : m.MaySend id r .text) :
    (keys.discipline id username).follows m (notifySender r text) fun m' _ => m' = m := by
  unfold notifySender sendTextToClientId
  refine follows_ite (follows_then ?_ fun _ => follows_pure (rfl : m = m)) (follows_pure rfl)
  exact follows_ite (follows_pure rfl) (follows_last h fun _ => rfl)

theorem keys_notifySenderForTransfer {r : ClientId} {src : UInt32} {text : Bytes}
    (h : m.MaySend id r .text) :
    (keys.discipline id username).follows m (notifySenderForTransfer r src text)
      fun m' _ => m' = m := by
  unfold notifySenderForTransfer
  exact follows_ite (keys_notifySender h) (keys_notifySender h)

theorem keys_sendReceiverError {endpoint : FileRouteEndpoint} (h : m.finding = some .live) :
    (keys.discipline id username).follows m (sendReceiverError endpoint) fun m' _ => m' = m := by
  unfold sendReceiverError
  rw [encodeControl_eq]
  refine follows_ite (follows_pure rfl) (keys_call (maySend_live h) fun result => ?_)
  cases result <;> exact follows_pure rfl

theorem keys_report {src : UInt32} {text : Bytes} {result : Int} (h : m.MaySend id id .text) :
    (keys.discipline id username).follows m (do
      notifySenderForTransfer id src text
      pure result) fun m' _ => m' = m :=
  follows_then (keys_notifySenderForTransfer h) fun _ => follows_pure rfl

theorem keys_say {text : Bytes} {result : Int} (h : m.MaySend id id .text) :
    (keys.discipline id username).follows m (do
      notifySender id text
      pure result) fun m' _ => m' = m :=
  follows_then (keys_notifySender h) fun _ => follows_pure rfl

theorem keys_errorThenReport {endpoint : FileRouteEndpoint} {src : UInt32} {text : Bytes}
    {result : Int} (h : m.finding = some .live) :
    (keys.discipline id username).follows m (do
      let _ ← sendReceiverError endpoint
      notifySenderForTransfer id src text
      pure result) fun m' _ => m' = m :=
  follows_then (keys_sendReceiverError h) fun _ => keys_report (maySend_live h)

theorem keys_rejectKnownTransfer {src : UInt32} {text : Bytes} {keep : Bool}
    (hc : m.call = .frame frame) (hsrc : Concerns src frame) (hno : ¬Continues frame)
    (hkeep : keep = false ↔ Closes frame) :
    (keys.discipline id username).follows m (rejectKnownTransfer id src text keep)
      fun m' _ => m' = { m with finding := some .live } := by
  unfold rejectKnownTransfer
  refine keys_call ⟨rfl, frame, hc, hsrc, hno, hkeep⟩ fun answer => ?_
  exact follows_ite (keys_errorThenReport rfl) (keys_report (maySend_live rfl))

theorem keys_rejectMalformed {known unknown : String} {keep : Bool}
    (hm : m = { call := .frame frame })
    (hfile : IsFileFrame frame) (hno : ¬Continues frame)
    (hkeep : ∀ src, readTransferId frame = some src → (keep = false ↔ Closes frame)) :
    (keys.discipline id username).follows m (rejectMalformed id frame known unknown keep)
      fun m' _ => keys.rest m' := by
  subst hm
  unfold rejectMalformed
  split
  · next src hsrc =>
    refine follows_mono ?_ (keys_rejectKnownTransfer rfl ⟨hfile, hsrc⟩ hno (hkeep src hsrc))
    rintro m' _ rfl frame' - -
    exact Option.some_ne_none _
  · next hsrc =>
    refine follows_mono ?_ (keys_say ?_)
    · rintro m' _ rfl frame' hc hcloses
      cases hc
      rw [readTransferId, if_neg (by have := hcloses.2.1; omega)] at hsrc
      cases hsrc
    · intro frame' hc
      cases hc
      exact hno

theorem not_closes_of_head {type : FrameType} (h : frame.head? = some type.toByte)
    (ht : type ≠ .fileEnd ∧ type ≠ .fileError) : ¬Closes frame := by
  rintro ⟨hend | herror, -⟩
  · rw [h] at hend
    exact ht.1 (FrameType.toByte_injective (Option.some.inj hend))
  · rw [h] at herror
    exact ht.2 (FrameType.toByte_injective (Option.some.inj herror))

theorem keys_rest_of_call {m' : Keyed} (hc : m'.call = .frame frame) (hno : ¬Closes frame) :
    keys.rest m' := by
  intro frame' hc' hcloses
  rw [hc] at hc'
  cases hc'
  exact absurd hcloses hno

theorem keys_handleFileBegin (hh : frame.head? = some FrameType.fileBegin.toByte) :
    (keys.discipline id username).follows { call := .frame frame }
      (handleFileBegin id username frame) fun m' _ => keys.rest m' := by
  have hcloses : ¬Closes frame := not_closes_of_head hh ⟨by decide, by decide⟩
  have hno : ¬Continues frame := by
    intro hcont
    rcases hcont.head with ⟨h, -⟩ | ⟨h, -⟩ | ⟨h, -⟩ <;> rw [hh] at h <;> exact absurd h (by decide)
  have hkeep : true = false ↔ Closes frame := by
    simp [hcloses]
  have hend : ∀ (m' : Keyed) (_ : Int), m' = { call := .frame frame, finding := some .live } →
      keys.rest m' := by
    rintro m' _ rfl
    exact keys_rest_of_call rfl hcloses
  unfold handleFileBegin
  refine follows_ite ?_ ?_
  · refine follows_mono ?_ (keys_say ?_)
    · rintro m' _ rfl
      exact keys_rest_of_call rfl hcloses
    · intro frame' hc
      cases hc
      exact hno
  split
  · exact keys_rejectMalformed rfl (isFileFrame_of_head (by decide) hh) hno fun _ _ => hkeep
  next b hb =>
  refine keys_call trivial fun targetId => keys_call ⟨rfl, rfl, frame, b, rfl, hb, rfl⟩
    fun answer => ?_
  refine follows_mono hend ?_
  split
  · exact follows_ite (keys_errorThenReport rfl) (keys_report (maySend_live rfl))
  · exact keys_say (maySend_live rfl)
  · exact keys_say (maySend_live rfl)
  · refine follows_ite ?_ ?_
    · exact keys_report (maySend_live rfl)
    · exact keys_report (maySend_live rfl)
  · split
    · refine keys_rejectKnownTransfer rfl ⟨isFileFrame_of_head (by decide) hh, ?_⟩ hno hkeep
      exact (decodeBegin_some hb).2.1
    · refine keys_call trivial fun result => ?_
      cases result with
      | ok _ => exact follows_pure rfl
      | error e =>
        refine keys_call ⟨rfl, frame, rfl, ⟨isFileFrame_of_head (by decide) hh, ?_⟩, hno, hkeep⟩
          fun _ => keys_report (maySend_live rfl)
        exact (decodeBegin_some hb).2.1

theorem keys_handleFileChunk (hh : frame.head? = some FrameType.fileChunk.toByte) :
    (keys.discipline id username).follows { call := .frame frame } (handleFileChunk id frame)
      fun m' _ => keys.rest m' := by
  have hcloses : ¬Closes frame := not_closes_of_head hh ⟨by decide, by decide⟩
  have hend : ∀ (finding : Finding) (m' : Keyed) (_ : Int),
      m' = { call := .frame frame, finding := some finding } → keys.rest m' := by
    rintro finding m' _ rfl
    exact keys_rest_of_call rfl hcloses
  unfold handleFileChunk
  split
  · next hnone =>
    refine keys_rejectMalformed rfl (isFileFrame_of_head (by decide) hh) (fun hcont => ?_)
      fun _ _ => by simp [hcloses]
    rcases hcont.head with ⟨-, chunk, h⟩ | ⟨h, -⟩ | ⟨h, -⟩
    · rw [hnone] at h
      cases h
    · rw [hh] at h
      exact absurd h (by decide)
    · rw [hh] at h
      exact absurd h (by decide)
  next chunk hchunk =>
  refine keys_call ⟨rfl, rfl, frame, chunk, rfl, hchunk, rfl⟩ fun answer => ?_
  simp only [Keyed.next]
  split
  · next hr =>
    rw [hr]
    refine follows_mono (hend .missing) ?_
    exact keys_report (maySend_missing rfl)
  · next hr =>
    rw [hr]
    exact follows_mono (hend .tombstone) (follows_pure rfl)
  · next hr =>
    rw [hr]
    exact follows_mono (hend .live) (keys_errorThenReport rfl)
  · next hr =>
    have henc : encodeChunk _ answer.endpoint.outboundTransferId chunk.data = _ :=
      encodeChunk_eq (decodeChunk_some hchunk).2.2.1 (decodeChunk_some hchunk).2.2.2
    rw [hr, henc]
    refine follows_mono (hend .live) (keys_call trivial fun result => ?_)
    cases result with
    | ok _ => exact follows_pure rfl
    | error e =>
      refine keys_call ⟨rfl, rfl, frame, chunk, rfl, hchunk, rfl⟩ fun converted => ?_
      exact follows_ite (keys_report (maySend_live rfl)) (follows_pure rfl)

theorem not_continues_of_control {type : FrameType} (hh : frame.head? = some type.toByte)
    (ht : type = .fileEnd ∨ type = .fileError) {e : Errno}
    (he : decodeControl frame type = .error e) :
    ¬Continues frame := by
  intro hcont
  have hhead : ∀ {type' : FrameType}, frame.head? = some type'.toByte → type' = type := by
    intro type' h
    rw [hh] at h
    exact (FrameType.toByte_injective (Option.some.inj h)).symm
  rcases hcont.head with ⟨h, -⟩ | ⟨h, src, hok⟩ | ⟨h, src, hok⟩
  · rcases ht with rfl | rfl <;> cases hhead h
  · obtain rfl := hhead h
    rw [he] at hok
    cases hok
  · obtain rfl := hhead h
    rw [he] at hok
    cases hok

theorem length_of_readTransferId {src : UInt32} (h : readTransferId frame = some src) :
    1 + 4 ≤ frame.length := by
  rw [readTransferId] at h
  split at h
  · cases h
  · next hlen => exact not_lt.mp hlen

theorem keys_rest_of_finding (frame : Bytes) (finding : Finding) (m' : Keyed) (_ : Int)
    (hm : m' = { call := .frame frame, finding := some finding }) : keys.rest m' := by
  subst hm
  exact fun _ _ _ => Option.some_ne_none _

theorem keys_handleFileEnd (hh : frame.head? = some FrameType.fileEnd.toByte)
    (hmax : frame.length ≤ frameMaxSize) :
    (keys.discipline id username).follows { call := .frame frame } (handleFileEnd id frame)
      fun m' _ => keys.rest m' := by
  unfold handleFileEnd
  split
  · next e he =>
    refine keys_rejectMalformed rfl (isFileFrame_of_head (by decide) hh)
      (not_continues_of_control hh (.inl rfl) he) fun src hsrc => ?_
    exact iff_of_true rfl ⟨.inl hh, length_of_readTransferId hsrc, hmax⟩
  next src hsrc =>
  refine keys_call ⟨rfl, rfl, frame, rfl, .inl hsrc⟩ fun answer => ?_
  simp only [Keyed.next]
  split
  · next hr =>
    rw [hr]
    refine follows_mono (keys_rest_of_finding frame .missing) ?_
    exact keys_report (maySend_missing rfl)
  · next hr =>
    rw [hr]
    exact follows_mono (keys_rest_of_finding frame .tombstone) (follows_pure rfl)
  · next hr =>
    rw [hr]
    exact follows_mono (keys_rest_of_finding frame .live) (keys_errorThenReport rfl)
  · next hr =>
    rw [hr]
    rw [encodeControl_eq]
    refine follows_mono (keys_rest_of_finding frame .live) (keys_call trivial fun result => ?_)
    cases result with
    | ok _ => exact follows_pure rfl
    | error e => exact keys_report (maySend_live rfl)

theorem keys_handleFileError (hh : frame.head? = some FrameType.fileError.toByte)
    (hmax : frame.length ≤ frameMaxSize) :
    (keys.discipline id username).follows { call := .frame frame } (handleFileError id frame)
      fun m' _ => keys.rest m' := by
  unfold handleFileError
  split
  · next e he =>
    refine keys_rejectMalformed rfl (isFileFrame_of_head (by decide) hh)
      (not_continues_of_control hh (.inr rfl) he) fun src hsrc => ?_
    exact iff_of_true rfl ⟨.inr hh, length_of_readTransferId hsrc, hmax⟩
  next src hsrc =>
  refine keys_call ⟨rfl, rfl, frame, rfl, .inr hsrc⟩ fun answer => ?_
  simp only [Keyed.next]
  split
  · next hr =>
    rw [hr]
    refine follows_mono (keys_rest_of_finding frame .missing) ?_
    exact keys_report (maySend_missing rfl)
  · next hr =>
    rw [hr]
    exact follows_mono (keys_rest_of_finding frame .tombstone) (follows_pure rfl)
  · next hr =>
    rw [hr]
    exact follows_mono (keys_rest_of_finding frame .live) (keys_sendReceiverError rfl)
  · next hr =>
    rw [hr]
    exact follows_mono (keys_rest_of_finding frame .live) (keys_sendReceiverError rfl)

/-- In a call for a frame that is no file frame, the duties and the notices leave the
routes alone between them, so anything they allow is allowed here. -/
theorem keys_chat {p : Handler Bool} (hfile : ¬IsFileFrame frame)
    (hd : (duties.discipline id username).follows { call := .frame frame } p
      fun m' _ => duties.rest m')
    (hn : (notices.discipline id username).follows { call := .frame frame } p
      fun m' _ => notices.rest m') :
    (keys.discipline id username).follows { call := .frame frame } p fun m' _ => keys.rest m' := by
  have hhead : ∀ {type : FrameType}, frame.head? = some type.toByte →
      type ∉ [FrameType.fileBegin, .fileChunk, .fileEnd, .fileError] :=
    fun h ht => hfile ⟨_, ht, h⟩
  refine follows_simulate (R := fun t t' => t.1.call = .frame frame ∧ t.1.duty = .idle ∧
    t.2.call = .frame frame ∧ t' = { call := .frame frame }) ?_ ?_ ⟨rfl, rfl, rfl, rfl⟩
    (follows_both hd hn)
  · rintro ⟨t, q⟩ t' o ⟨hc, hd, hq, rfl⟩ ⟨ha, hallow⟩
    dsimp only at hc hd hq ha hallow
    have hnext : ∀ r, (q.next o r).call = .frame frame := fun r => (q.next_call o r).trans hq
    cases o with
    -- a frame without a file opcode starts no transfer
    | queueFrame r type payload =>
      refine ⟨fun frame' hf => ?_, fun result => ⟨hc, ?_, hnext result, rfl⟩⟩
      · cases hf
        intro hcont
        rcases hcont.head with ⟨h, -⟩ | ⟨h, -⟩ | ⟨h, -⟩ <;> exact hhead h (by decide)
      · change t.nextDuty (.queueFrame r type payload) result = .idle
        simp only [Monitor.nextDuty, hd]
    | routesAdd s src tgt size discard =>
      obtain ⟨-, -, frame', b, hc', hb, -⟩ := ha
      rw [hc] at hc'
      cases hc'
      exact absurd (by decide) (hhead (decodeBegin_some hb).1)
    | routesQuarantine s src keep =>
      obtain ⟨frame', hc', hfile', -⟩ := hallow
      rw [hq] at hc'
      cases hc'
      exact absurd hfile' hfile
    | routesAcceptChunk s src len =>
      obtain ⟨-, -, frame', chunk, hc', hchunk, -⟩ := ha
      rw [hc] at hc'
      cases hc'
      exact absurd (by decide) (hhead (decodeChunk_some hchunk).1)
    | routesMarkForwardFailed s src out =>
      have hd' : t.duty = .chunkFailed src out := ha.2
      rw [hd] at hd'
      cases hd'
    | routesFinish s src validate =>
      obtain ⟨-, -, frame', hc', hok⟩ := ha
      rw [hc] at hc'
      cases hc'
      rcases hok with ⟨-, hok⟩ | ⟨-, hok⟩ <;>
        exact absurd (by decide) (hhead (decodeControl_ok hok).1)
    | routesAbortClient c capacity =>
      have hc' : t.call = .abort := ha.2.2.1
      rw [hc] at hc'
      cases hc'
    | _ => exact ⟨trivial, fun r => ⟨hc, hd, hnext r, rfl⟩⟩
  · rintro t t' a ⟨-, -, -, rfl⟩ -
    refine keys_rest_of_call rfl ?_
    rintro ⟨h | h, -⟩ <;> exact hhead h (by decide)

theorem keys_routeFileFrame (hid : id ≠ invalidClientId) (hfile : IsFileFrame frame) :
    (keys.discipline id username).follows { call := .frame frame }
      (routeFileFrame id username frame) fun m' _ => keys.rest m' := by
  obtain ⟨type, htype, hh⟩ := hfile
  have hempty : ¬(id = invalidClientId ∨ frame.length = 0) := by
    rintro (h | h)
    · exact hid h
    · rw [List.length_eq_zero_iff.mp h] at hh
      cases hh
  unfold routeFileFrame
  rw [if_neg hempty]
  split
  · next hlong =>
    refine follows_mono ?_ (keys_say ?_)
    · rintro m' _ rfl
      exact keys_rest_of_call rfl fun hcloses => absurd hcloses.2.2 (not_le.mpr hlong)
    · intro frame' hc
      cases hc
      exact fun hcont => absurd hcont.length_le (not_le.mpr hlong)
  · next hshort =>
    rw [hh, Option.bind_some, FrameType.ofByte_toByte]
    simp only [List.mem_cons, List.not_mem_nil, or_false] at htype
    rcases htype with rfl | rfl | rfl | rfl
    · exact keys_handleFileBegin hh
    · exact keys_handleFileChunk hh
    · exact keys_handleFileEnd hh (not_lt.mp hshort)
    · exact keys_handleFileError hh (not_lt.mp hshort)

/-- A file frame is passed to `route_file_frame`. -/
theorem handleClientFrame_file (hfile : IsFileFrame frame) :
    handleClientFrame id username frame = (do
      let _ ← routeFileFrame id username frame
      pure true) := by
  obtain ⟨type, htype, hh⟩ := hfile
  rw [handleClientFrame, hh, Option.bind_some, FrameType.ofByte_toByte]
  simp only [List.mem_cons, List.not_mem_nil, or_false] at htype
  rcases htype with rfl | rfl | rfl | rfl <;> rfl

theorem keys_handleClientFrame (frame : Bytes) (hid : id ≠ invalidClientId) :
    (keys.discipline id username).follows { call := .frame frame }
      (handleClientFrame id username frame) fun m' _ => keys.rest m' := by
  by_cases hfile : IsFileFrame frame
  · rw [handleClientFrame_file hfile, follows_bind]
    refine follows_mono ?_ (keys_routeFileFrame hid hfile)
    intro m' _ hrest
    exact follows_pure hrest
  · exact keys_chat hfile (duties_kept.frame id username frame hid)
      (notices_kept.frame id username frame hid)

theorem keys_runAbortActions (actions : List FileRouteAbortAction) :
    (keys.discipline id username).follows { call := .abort } (runAbortActions actions)
      fun m' _ => m' = { call := .abort } := by
  have hsend : ∀ (r : ClientId) (type : FrameType),
      Keyed.MaySend id { call := .abort } r type := fun r type frame h => by cases h
  induction actions with
  | nil => exact follows_pure rfl
  | cons action rest ih =>
    unfold runAbortActions
    split
    · refine follows_then ?_ fun _ => ih
      unfold sendReceiverError
      rw [encodeControl_eq]
      refine follows_ite (follows_pure rfl) (keys_call (hsend action.clientId .fileError)
        fun result => ?_)
      cases result <;> exact follows_pure rfl
    · exact follows_then (keys_notifySender (hsend _ _)) fun _ => ih

theorem keys_kept : keys.Kept where
  frame _ _ frame hid := keys_handleClientFrame frame hid
  abort id username hid := by
    unfold abortFileRoutesForClient
    rw [if_neg hid]
    refine keys_call ⟨rfl, rfl⟩ fun actions => ?_
    refine follows_mono ?_ (keys_runAbortActions actions)
    rintro m' _ rfl frame hc
    cases hc

end Follows

end CipherChat
