import CipherChat.ClientWatch
import CipherChat.LinkStreams
import CipherChat.Stream

/-!
# The stream behind a slot

When the frames that a client receives under each id are a stream BEGIN CHUNK* (END | ERROR),
as the relay makes them, every slot in use holds what its stream has brought so far.
-/

namespace CipherChat

/-- The file frames of transfer `o`. -/
def framesUnder (o : UInt32) (frames : List Bytes) : List Bytes :=
  frames.filter fun frame => (frame.head?.bind FrameType.ofByte).any FrameType.isFile &&
    readTransferId frame == some o

theorem framesUnder_append (o : UInt32) (frames frames' : List Bytes) :
    framesUnder o (frames ++ frames') = framesUnder o frames ++ framesUnder o frames' :=
  List.filter_append ..

theorem framesUnder_of_id {o : UInt32} {frame : Bytes} (h : readTransferId frame ≠ some o) :
    framesUnder o [frame] = [] := by
  refine List.filter_eq_nil_iff.mpr fun frame' hmem => ?_
  rw [List.mem_singleton.mp hmem]
  simp [h]

theorem framesUnder_self {o : UInt32} {frame : Bytes}
    (hfile : (frame.head?.bind FrameType.ofByte).any FrameType.isFile = true)
    (hid : readTransferId frame = some o) : framesUnder o [frame] = [frame] := by
  simp [framesUnder, hfile, hid]

theorem framesUnder_other {frame : Bytes}
    (h : (frame.head?.bind FrameType.ofByte).any FrameType.isFile = false) (o : UInt32) :
    framesUnder o [frame] = [] := by
  simp [framesUnder, h]

/-- Under each id, the frames to `c` are a stream so far. -/
def Streamed (c : ClientId) (frames : List Bytes) : Prop :=
  ∀ o, ∃ st, Relays o ((framesUnder o frames).map (Prod.mk c)) st

theorem Streamed.of_append {c : ClientId} {frames frames' : List Bytes}
    (h : Streamed c (frames ++ frames')) : Streamed c frames := by
  intro o
  obtain ⟨st, hst⟩ := h o
  rw [framesUnder_append, List.map_append] at hst
  exact hst.of_append

namespace Receiver

variable {cfg : ReceiverConfig} {env : FileEnv} {r r' : Receiver} {i : Fin maxIncomingFiles}
  {frame : Bytes} {frames : List Bytes} {c : ClientId} {b : FileBeginFrame} {f : FileStream}
  {result : Except Errno Unit}

theorem findIncomingFile_of_active (hinv : Inv cfg r) (hi : (r.incomingFiles i).active = true) :
    r.findIncomingFile (r.incomingFiles i).transferId = some i := by
  cases hfind : r.findIncomingFile (r.incomingFiles i).transferId with
  | none => exact absurd rfl (findIncomingFile_none hfind i hi)
  | some j =>
    obtain ⟨hj, hid⟩ := findIncomingFile_some hfind
    rw [hinv.distinct j i hj hi hid]

theorem FrameStep.slot_other (h : FrameStep cfg env r frame result r') (hinv : Inv cfg r)
    (hi : (r.incomingFiles i).active = true)
    (hid : readTransferId frame ≠ some (r.incomingFiles i).transferId)
    (hf : Staged cfg r (r.incomingFiles i) f) :
    r'.incomingFiles i = r.incomingFiles i ∧ r'.store.data f.inode = r.store.data f.inode := by
  have hnext : f.inode ≠ r.store.next := FileStore.ne_next hf.named
  have hfree : ∀ {j : Fin maxIncomingFiles}, (r.incomingFiles j).active = false → i ≠ j := by
    rintro j hj rfl
    rw [hi] at hj
    cases hj
  have hused : ∀ {j : Fin maxIncomingFiles},
      readTransferId frame = some (r.incomingFiles j).transferId → i ≠ j := by
    rintro j hj rfl
    exact hid hj
  have hslot : ∀ {r₁ : Receiver} {j : Fin maxIncomingFiles} {x : IncomingFile}, i ≠ j →
      r₁.incomingFiles = r.incomingFiles → (r₁.set j x).incomingFiles i = r.incomingFiles i :=
    fun hne hslots => (Function.update_of_ne hne _ _).trans (congrFun hslots i)
  cases h with
  | refused e => exact ⟨rfl, rfl⟩
  | ignored => exact ⟨rfl, rfl⟩
  | released e hj hhead => exact ⟨hslot (hfree hj) rfl, rfl⟩
  | unstaged e path hb hst hj hpath =>
    refine ⟨hslot (hfree hj) (unlink_incomingFiles _ _ _), ?_⟩
    rw [set_store, unlink_data]
  | unopened e path hb hst hj hpath hnone =>
    refine ⟨hslot (hfree hj) (unlink_incomingFiles _ _ _), ?_⟩
    rw [set_store, unlink_data]
    exact Function.update_of_ne hnext _ _
  | begun path hb hst hj hfits hpath hnone =>
    exact ⟨hslot (hfree hj) rfl, Function.update_of_ne hnext _ _⟩
  | appended hc hfind hf' hroom =>
    obtain ⟨hactive, hj⟩ := findIncomingFile_some hfind
    have hne := hused ((decodeChunk_some hc).2.1.trans (congrArg some hj.symm))
    exact ⟨hslot hne rfl,
      Function.update_of_ne (hinv.inode_ne hne.symm hactive hi hf' hf) _ _⟩
  | discarded result content hread hbegin hactive hf' =>
    have hne := hused hread
    refine ⟨hslot hne (unlink_incomingFiles _ _ _), ?_⟩
    rw [set_store, unlink_data]
    exact Function.update_of_ne (hinv.inode_ne hne.symm hactive hi hf' hf) _ _
  | saved d hend hactive hf' hsize hopen hnone =>
    have hne := hused (decodeControl_ok hend).2
    refine ⟨hslot hne (unlink_incomingFiles _ _ _), ?_⟩
    rw [set_store, unlink_data]
    exact Function.update_of_ne (hinv.inode_ne hne.symm hactive hi hf' hf) _ _

theorem FrameStep.slot_begun (h : FrameStep cfg env r frame result r')
    (hfree : (r.incomingFiles i).active = false) (hi : (r'.incomingFiles i).active = true) :
    ∃ b f, decodeBegin frame = some b ∧ r'.incomingFiles i = { announced cfg b with
      tempPath := (r'.incomingFiles i).tempPath, file := some f } ∧
      r'.store.data f.inode = [] := by
  -- the slot that the step works on is this one
  have hslot : ∀ {r₁ : Receiver} {j : Fin maxIncomingFiles} {x : IncomingFile},
      r' = r₁.set j x → r₁.incomingFiles = r.incomingFiles → i = j ∧ r'.incomingFiles i = x := by
    rintro r₁ j x rfl hslots
    by_cases hne : i = j
    · subst hne
      exact ⟨rfl, Function.update_self ..⟩
    · have hother : (r₁.set j x).incomingFiles i = r.incomingFiles i :=
        (Function.update_of_ne hne _ _).trans (congrFun hslots i)
      rw [hother, hfree] at hi
      cases hi
  have hzeroed : r'.incomingFiles i ≠ {} := by
    intro hzero
    rw [hzero] at hi
    cases hi
  cases h with
  | refused e =>
    rw [hfree] at hi
    cases hi
  | ignored =>
    rw [hfree] at hi
    cases hi
  | released e hj hhead => exact absurd (hslot rfl rfl).2 hzeroed
  | unstaged e path hb hst hj hpath =>
    exact absurd (hslot rfl (unlink_incomingFiles _ _ _)).2 hzeroed
  | unopened e path hb hst hj hpath hnone =>
    exact absurd (hslot rfl (unlink_incomingFiles _ _ _)).2 hzeroed
  | begun path hb hst hj hfits hpath hnone =>
    obtain ⟨-, hself⟩ := hslot rfl rfl
    refine ⟨_, { inode := r.store.next, offset := 0 }, hb, ?_, Function.update_self ..⟩
    rw [hself]
  | appended hc hfind hf hroom =>
    obtain ⟨rfl, -⟩ := hslot rfl rfl
    rw [(findIncomingFile_some hfind).1] at hfree
    cases hfree
  | discarded result content hread hbegin hactive hf =>
    exact absurd (hslot rfl (unlink_incomingFiles _ _ _)).2 hzeroed
  | saved d hend hactive hf hsize hopen hnone =>
    exact absurd (hslot rfl (unlink_incomingFiles _ _ _)).2 hzeroed

theorem discardIncomingFile_slot (r : Receiver) (unlinked : Option Errno)
    (i : Fin maxIncomingFiles) :
    (r.discardIncomingFile unlinked i).incomingFiles i = {} := by
  unfold discardIncomingFile
  split <;> exact Function.update_self ..

theorem slot_chunk (hinv : Inv cfg r) (hi : (r.incomingFiles i).active = true) {data : Bytes}
    (hc : decodeChunk frame = some { transferId := (r.incomingFiles i).transferId, data })
    (h : r.handleIncomingFileFrame cfg env frame = (result, r'))
    (hi' : (r'.incomingFiles i).active = true) : ∃ f, Staged cfg r (r.incomingFiles i) f ∧
      (r.incomingFiles i).receivedSize + data.length ≤ (r.incomingFiles i).expectedSize ∧
      r'.incomingFiles i = { r.incomingFiles i with
        file := some { f with offset := f.offset + data.length }
        receivedSize := (r.incomingFiles i).receivedSize + data.length } ∧
      r'.store.data f.inode = r.store.data f.inode ++ data := by
  obtain ⟨f, hf⟩ := hinv.staged i hi
  have hfind := findIncomingFile_of_active hinv hi
  have hdropped : ∀ {r₁ : Receiver} {e : Errno},
      (Except.error e, r₁.discardIncomingFile env.unlink i) = (result, r') → False := by
    intro r₁ e heq
    obtain ⟨-, rfl⟩ := Prod.mk.inj heq
    rw [discardIncomingFile_slot] at hi'
    cases hi'
  unfold handleIncomingFileFrame at h
  rw [(decodeChunk_some hc).1, Option.bind_some, FrameType.ofByte_toByte] at h
  dsimp only at h
  unfold receiveFileChunk at h
  rw [hc] at h
  dsimp only at h
  rw [hfind] at h
  dsimp only at h
  split at h
  · exact (hdropped h).elim
  next hroom =>
  rw [hf.file] at h
  dsimp only at h
  rw [hf.fwrite] at h
  have happended : (r.incomingFiles i).receivedSize + data.length ≤
      (r.incomingFiles i).expectedSize := by
    have hle := hf.received
    omega
  split at h
  · split at h
    · exact (hdropped h).elim
    · cases h
      exact ⟨f, hf, happended, Function.update_self .., Function.update_self ..⟩
  · cases h
    exact ⟨f, hf, happended, Function.update_self .., Function.update_self ..⟩

theorem slot_control (hinv : Inv cfg r) (hi : (r.incomingFiles i).active = true)
    (hc : decodeControl frame .fileEnd = .ok (r.incomingFiles i).transferId ∨
      decodeControl frame .fileError = .ok (r.incomingFiles i).transferId)
    (h : r.handleIncomingFileFrame cfg env frame = (result, r')) :
    (r'.incomingFiles i).active = false := by
  obtain ⟨f, hf⟩ := hinv.staged i hi
  have hfind := findIncomingFile_of_active hinv hi
  have hdropped : ∀ {r₁ : Receiver} {res : Except Errno Unit},
      (res, r₁.discardIncomingFile env.unlink i) = (result, r') →
      (r'.incomingFiles i).active = false := by
    intro r₁ e heq
    obtain ⟨-, rfl⟩ := Prod.mk.inj heq
    rw [discardIncomingFile_slot]
  unfold handleIncomingFileFrame at h
  rcases hc with hc | hc
  · rw [(decodeControl_ok hc).1, Option.bind_some, FrameType.ofByte_toByte] at h
    dsimp only at h
    unfold receiveFileEnd at h
    rw [hc] at h
    dsimp only at h
    rw [hfind] at h
    dsimp only at h
    split at h
    · exact hdropped h
    rw [hf.file] at h
    dsimp only at h
    split at h
    · exact hdropped h
    · split at h
      · exact hdropped h
      · split at h
        · exact hdropped h
        · cases h
          rw [show (Receiver.set _ i {}).incomingFiles i = {} from Function.update_self ..]
  · rw [(decodeControl_ok hc).1, Option.bind_some, FrameType.ofByte_toByte] at h
    dsimp only at h
    unfold receiveFileError at h
    rw [hc] at h
    dsimp only at h
    rw [hfind] at h
    exact hdropped h

/-- Slot content `x` is what `frames` have brought under its id: the BEGIN `b`, then `chunks`. -/
structure Carries (c : ClientId) (frames : List Bytes) (r : Receiver) (x : IncomingFile)
    (b : FileBeginFrame) (chunks : List Bytes) : Prop where
  stream :
    Relays x.transferId ((framesUnder x.transferId frames).map (Prod.mk c)) (.open c b chunks)
  sender : x.sender = b.peer
  filename : x.filename = b.filename
  size : x.expectedSize = b.fileSize.toNat
  data : ∀ f, x.file = some f → r.store.data f.inode = chunks.flatten

def Filled (c : ClientId) (frames : List Bytes) (r : Receiver) : Prop :=
  ∀ i, (r.incomingFiles i).active = true →
    ∃ b chunks, Carries c frames r (r.incomingFiles i) b chunks

theorem Filled.begun (hinv : Inv cfg r) (hstreamed : Streamed c (frames ++ [frame]))
    (h : r.handleIncomingFileFrame cfg env frame = (result, r'))
    (hfree : (r.incomingFiles i).active = false) (hi : (r'.incomingFiles i).active = true) :
    ∃ b chunks, Carries c (frames ++ [frame]) r' (r'.incomingFiles i) b chunks := by
  obtain ⟨b, f, hb, hslot, hdata⟩ := (frame_cases hinv h).slot_begun hfree hi
  obtain ⟨hhead, hid, -, -⟩ := decodeBegin_some hb
  have hfile : (frame.head?.bind FrameType.ofByte).any FrameType.isFile = true := by
    rw [hhead]
    rfl
  have hplain : ∀ {t : FrameType}, frame.head? = some t.toByte → t = .fileBegin := by
    intro t ht
    exact FrameType.toByte_injective (Option.some.inj (ht.symm.trans hhead))
  obtain ⟨st, hst⟩ := hstreamed b.transferId
  rw [framesUnder_append, framesUnder_self hfile hid, List.map_append] at hst
  rcases hst.concat_cases with
    ⟨hnil, -⟩ | ⟨b', chunks, -, ⟨data, hchunk, -⟩ | ⟨hend, -⟩ | ⟨herror, -⟩⟩
  · refine ⟨b, [], ?_, ?_, ?_, ?_, ?_⟩
    · have ho : (r'.incomingFiles i).transferId = b.transferId := by
        rw [hslot]
        rfl
      rw [ho, framesUnder_append, framesUnder_self hfile hid, List.map_append, hnil]
      exact .opened hb rfl
    · rw [hslot]
      rfl
    · rw [hslot]
      rfl
    · rw [hslot]
      rfl
    · intro f' hf'
      rw [hslot] at hf'
      obtain rfl := Option.some.inj hf'
      exact hdata
  · cases hplain (decodeChunk_some hchunk).1
  · cases hplain (decodeControl_ok hend).1
  · cases hplain (decodeControl_ok herror).1

theorem Carries.step {chunks : List Bytes}
    (hcarries : Carries c frames r (r.incomingFiles i) b chunks) (hinv : Inv cfg r)
    (hfile : (frame.head?.bind FrameType.ofByte).any FrameType.isFile = true)
    (hstreamed : Streamed c (frames ++ [frame]))
    (h : r.handleIncomingFileFrame cfg env frame = (result, r'))
    (hactive : (r.incomingFiles i).active = true) (hi : (r'.incomingFiles i).active = true) :
    ∃ b chunks, Carries c (frames ++ [frame]) r' (r'.incomingFiles i) b chunks := by
  by_cases hid : readTransferId frame = some (r.incomingFiles i).transferId
  -- a frame under the id of the slot goes on with its stream
  · obtain ⟨st, hst⟩ := hstreamed (r.incomingFiles i).transferId
    rw [framesUnder_append, framesUnder_self hfile hid, List.map_append] at hst
    rcases hst.concat_cases with ⟨hnil, -⟩ |
      ⟨b', chunks', -, ⟨data, hchunk, -⟩ | ⟨hend, -⟩ | ⟨herror, -⟩⟩
    · -- the slot was filled by an earlier BEGIN
      obtain ⟨-, begin_, rest, hfs, -⟩ := hcarries.stream.open_shape rfl
      rw [hnil] at hfs
      cases hfs
    · obtain ⟨f, hf, hroom, hslot, hdata⟩ := slot_chunk hinv hactive hchunk h hi
      have hlength : chunks.flatten.length = (r.incomingFiles i).receivedSize := by
        rw [← hcarries.data f hf.file, hf.stored]
      refine ⟨b, chunks ++ [data], ?_, ?_, ?_, ?_, ?_⟩
      · have ho : (r'.incomingFiles i).transferId = (r.incomingFiles i).transferId := by rw [hslot]
        rw [ho, framesUnder_append, framesUnder_self hfile hid, List.map_append]
        refine .chunk hcarries.stream hchunk ?_
        rw [hlength, ← hcarries.size]
        exact hroom
      · rw [hslot]
        exact hcarries.sender
      · rw [hslot]
        exact hcarries.filename
      · rw [hslot]
        exact hcarries.size
      · intro f' hf'
        rw [hslot] at hf'
        obtain rfl := Option.some.inj hf'
        rw [hdata, hcarries.data f hf.file, List.flatten_append, List.flatten_singleton]
    · rw [slot_control hinv hactive (.inl hend) h] at hi
      cases hi
    · rw [slot_control hinv hactive (.inr herror) h] at hi
      cases hi
  -- a frame under another id leaves the slot and its data alone
  · obtain ⟨f, hf⟩ := hinv.staged i hactive
    obtain ⟨hslot, hdata⟩ := (frame_cases hinv h).slot_other hinv hactive hid hf
    rw [hslot]
    refine ⟨b, chunks, ?_, hcarries.sender, hcarries.filename, hcarries.size, ?_⟩
    · rw [framesUnder_append, framesUnder_of_id hid, List.append_nil]
      exact hcarries.stream
    · intro f' hf'
      obtain rfl := Option.some.inj (hf'.symm.trans hf.file)
      rw [hdata]
      exact hcarries.data f' hf'

theorem Filled.step (hfilled : Filled c frames r) (hinv : Inv cfg r)
    (hfile : (frame.head?.bind FrameType.ofByte).any FrameType.isFile = true)
    (hstreamed : Streamed c (frames ++ [frame]))
    (h : r.handleIncomingFileFrame cfg env frame = (result, r')) :
    Filled c (frames ++ [frame]) r' := by
  intro i hi
  cases hactive : (r.incomingFiles i).active with
  | false => exact Filled.begun hinv hstreamed h hactive hi
  | true =>
    obtain ⟨b, chunks, hcarries⟩ := hfilled i hactive
    exact hcarries.step hinv hfile hstreamed h hactive hi

theorem Filled.other (hfilled : Filled c frames r)
    (hfile : (frame.head?.bind FrameType.ofByte).any FrameType.isFile = false) :
    Filled c (frames ++ [frame]) r := by
  intro i hi
  obtain ⟨b, chunks, hcarries⟩ := hfilled i hi
  refine ⟨b, chunks, ?_, hcarries.sender, hcarries.filename, hcarries.size, hcarries.data⟩
  rw [framesUnder_append, framesUnder_other hfile, List.append_nil]
  exact hcarries.stream

end Receiver

open Resumption Prog

def arrivals (cfg : ClientConfig) (c : ClientId) : ClientWatch (List Bytes) where
  start := []
  event t
    | .received frame => t ++ [frame]
    | _ => t
  allow _ _ := True
  rest t s := Receiver.Inv cfg.toReceiverConfig s.files ∧
    (Streamed c t → Receiver.Filled c t s.files)

section

variable {cfg : ClientConfig} {c : ClientId} {t : List Bytes} {α β : Type}

theorem arrivals_state (log : List ClientEvent) :
    (arrivals cfg c).state log = receivedFrames log := by
  induction log using List.reverseRecOn with
  | nil => rfl
  | append_singleton log e ih =>
    rw [ClientWatch.state_concat, ih, receivedFrames_append]
    cases e with
    | received frame => rfl
    | _ => exact (List.append_nil _).symm

theorem arrivals_next (o : ClientOp) (r : o.Resp) :
    (arrivals cfg c).discipline.next t o r = t := by
  cases o with
  | sendAll bytes =>
    cases r <;> rfl
  | _ => rfl

theorem arrivals_follows {p : ClientProg α} {Q : List Bytes → α → Prop} (h : ∀ a, Q t a) :
    (arrivals cfg c).discipline.follows t p Q := by
  induction p with
  | ret a => exact (Discipline.follows_ret _ _ _).mpr (h a)
  | op o k ih =>
    refine (Discipline.follows_op _ _ _ _).mpr ⟨fun _ _ => trivial, fun r => ?_⟩
    rw [arrivals_next]
    exact ih r

theorem arrivals_bind {p : ClientProg α} {k : α → ClientProg β} {Q : List Bytes → β → Prop}
    (h : ∀ a, (arrivals cfg c).discipline.follows t (k a) Q) :
    (arrivals cfg c).discipline.follows t (p >>= k) Q :=
  Discipline.follows_bind.mpr (arrivals_follows h)

theorem afterSend_files (s : ClientState) (result : Except Errno Unit) :
    (s.afterSend result).files = s.files := by
  unfold ClientState.afterSend
  split
  · rfl
  · split <;> rfl

variable {s : ClientState}

/-- The files are as they were in `s`. -/
def KeepsFiles (t : List Bytes) (s : ClientState) (t' : List Bytes) (s' : ClientState) : Prop :=
  t' = t ∧ s'.files = s.files

theorem arrivals_requestKey (type : PendingPackageType) (username data : Bytes) :
    (arrivals cfg c).discipline.follows t (requestKey s type username data)
      fun t' r => KeepsFiles t s t' r.2 := by
  unfold requestKey
  split
  · exact Discipline.follows_pure ⟨rfl, rfl⟩
  refine arrivals_bind fun address => ?_
  dsimp only
  split
  · exact Discipline.follows_pure ⟨rfl, rfl⟩
  refine arrivals_bind fun copied => ?_
  split
  · refine arrivals_bind fun result => ?_
    cases result with
    | error e => exact Discipline.follows_pure ⟨rfl, rfl⟩
    | ok u => exact arrivals_bind fun _ => Discipline.follows_pure ⟨rfl, rfl⟩
  · exact Discipline.follows_pure ⟨rfl, rfl⟩

theorem arrivals_command {p : ClientProg (Except Errno Unit × ClientState)}
    (h : (arrivals cfg c).discipline.follows t p fun t' r => KeepsFiles t s t' r.2) :
    (arrivals cfg c).discipline.follows t (do
      let (result, s) ← p
      pure (s.afterSend result)) (KeepsFiles t s) := by
  rw [Discipline.follows_bind]
  refine Discipline.follows_mono ?_ h
  rintro t' ⟨result, s'⟩ ⟨rfl, hfiles⟩
  exact Discipline.follows_pure ⟨rfl, (afterSend_files s' result).trans hfiles⟩

theorem arrivals_handleInput (line : Bytes) :
    (arrivals cfg c).discipline.follows t (handleInput s line) (KeepsFiles t s) := by
  unfold handleInput
  split
  · exact Discipline.follows_pure ⟨rfl, rfl⟩
  split
  · refine arrivals_command ?_
    unfold handleFileCommand
    split
    · exact Discipline.follows_ite (Discipline.follows_pure ⟨rfl, rfl⟩)
        (arrivals_requestKey _ _ _)
    · exact Discipline.follows_pure ⟨rfl, rfl⟩
  split
  · refine arrivals_command ?_
    unfold handlePrivateMessage
    split
    · exact Discipline.follows_ite (Discipline.follows_pure ⟨rfl, rfl⟩)
        (arrivals_requestKey _ _ _)
    · exact Discipline.follows_pure ⟨rfl, rfl⟩
  split
  · exact Discipline.follows_pure ⟨rfl, rfl⟩
  refine arrivals_bind fun result => Discipline.follows_pure ⟨rfl, ?_⟩
  split
  · exact afterSend_files s result
  · exact afterSend_files s result

theorem arrivals_sendPackage (package : PendingPackage) (recipient key : Bytes) :
    (arrivals cfg c).discipline.follows t (sendPackage cfg s package recipient key)
      (KeepsFiles t s) := by
  unfold sendPackage
  split
  · refine arrivals_bind fun sent => ?_
    obtain ⟨result, nextTransferId⟩ := sent
    exact Discipline.follows_pure ⟨rfl, afterSend_files _ result⟩
  · refine arrivals_bind fun nonce => arrivals_bind fun result => ?_
    exact Discipline.follows_pure ⟨rfl, afterSend_files s result⟩

theorem arrivals_handlePeerPk (frame : Bytes) :
    (arrivals cfg c).discipline.follows t (handlePeerPk cfg s frame) (KeepsFiles t s) := by
  unfold handlePeerPk
  split
  · exact Discipline.follows_pure ⟨rfl, rfl⟩
  split
  · exact Discipline.follows_pure ⟨rfl, rfl⟩
  dsimp only
  split
  · exact arrivals_bind fun _ => Discipline.follows_pure ⟨rfl, rfl⟩
  · exact arrivals_bind fun _ => arrivals_sendPackage _ _ _

theorem arrivals_registerKey :
    (arrivals cfg c).discipline.follows t (registerKey cfg s) (KeepsFiles t s) := by
  unfold registerKey
  refine arrivals_bind fun result => ?_
  cases result with
  | error e => exact Discipline.follows_pure ⟨rfl, rfl⟩
  | ok u =>
    refine arrivals_bind fun env => ?_
    split
    · exact Discipline.follows_pure ⟨rfl, rfl⟩
    · exact Discipline.follows_pure ⟨rfl, rfl⟩

theorem arrivals_other {p : ClientProg ClientState} {frame : Bytes}
    (hrest : (arrivals cfg c).rest t s)
    (hfile : (frame.head?.bind FrameType.ofByte).any FrameType.isFile = false)
    (h : (arrivals cfg c).discipline.follows (t ++ [frame]) p (KeepsFiles (t ++ [frame]) s)) :
    (arrivals cfg c).discipline.follows (t ++ [frame]) p (arrivals cfg c).rest := by
  refine Discipline.follows_mono ?_ h
  rintro t' s' ⟨rfl, hfiles⟩
  refine ⟨by rw [hfiles]; exact hrest.1, fun hstreamed => ?_⟩
  rw [hfiles]
  exact (hrest.2 hstreamed.of_append).other hfile

theorem arrivals_handleServerFrame {frame : Bytes} (hrest : (arrivals cfg c).rest t s) :
    (arrivals cfg c).discipline.follows (t ++ [frame]) (handleServerFrame cfg s frame)
      (arrivals cfg c).rest := by
  unfold handleServerFrame
  split
  · next hhead =>
    refine arrivals_other hrest (by rw [hhead]; rfl) ?_
    exact arrivals_bind fun _ => Discipline.follows_pure ⟨rfl, rfl⟩
  · next hhead => exact arrivals_other hrest (by rw [hhead]; rfl) (arrivals_handlePeerPk frame)
  · next hhead =>
    refine arrivals_other hrest (by rw [hhead]; rfl) ?_
    split
    · exact Discipline.follows_pure ⟨rfl, rfl⟩
    · exact arrivals_bind fun _ => Discipline.follows_pure ⟨rfl, rfl⟩
  · refine arrivals_bind fun env => Discipline.follows_pure ?_
    cases hr : s.files.handleIncomingFileFrame cfg.toReceiverConfig env frame with
    | mk result r' =>
      refine ⟨hrest.1.step (Receiver.frame_cases hrest.1 hr), fun hstreamed => ?_⟩
      have hfilled := hrest.2 hstreamed.of_append
      cases hfile : (frame.head?.bind FrameType.ofByte).any FrameType.isFile with
      | true => exact hfilled.step hrest.1 hfile hstreamed hr
      | false =>
        have hsame : r' = s.files := by
          unfold Receiver.handleIncomingFileFrame at hr
          generalize frame.head?.bind FrameType.ofByte = type at hr hfile
          split at hr
          · cases hfile
          · cases hfile
          · cases hfile
          · cases hfile
          · exact (Prod.mk.inj hr).2.symm
        rw [hsame]
        exact hfilled.other hfile

theorem arrivals_kept : (arrivals cfg c).Kept cfg where
  accepted _ _ := rfl
  start store := by
    refine Discipline.follows_mono ?_ arrivals_registerKey
    rintro t' s' ⟨rfl, hfiles⟩
    constructor
    · rw [hfiles]
      exact Receiver.inv_start _ _
    · intro _ i hi
      rw [hfiles] at hi
      cases hi
  typed t s line hrest := by
    refine Discipline.follows_mono ?_ (arrivals_handleInput line)
    rintro t' s' ⟨rfl, hfiles⟩
    exact ⟨by rw [hfiles]; exact hrest.1, by rw [hfiles]; exact hrest.2⟩
  received t s frame hrest := arrivals_handleServerFrame hrest
  stopped _ _ _ hrest := hrest

theorem ClientProcess.filled {store : FileStore Bytes UInt8} {p : ClientProcess}
    (hp : (client cfg store).Reachable p) (hidle : p.callback = none) :
    Receiver.Inv cfg.toReceiverConfig p.state.files ∧
      (Streamed c (receivedFrames p.log) →
        Receiver.Filled c (receivedFrames p.log) p.state.files) := by
  have hrest := ((arrivals_kept (c := c)).holds hp).idle hidle
  rw [arrivals_state] at hrest
  exact hrest

end

end CipherChat
