import CipherChat.Frame

/-!
# The file-frame codec

`file_protocol.c`.  A payload starts with the four-byte transfer id.  BEGIN
carries the size, two 16-bit lengths and two names; CHUNK carries 1 to 900 data
bytes; END and ERROR carry nothing else.  The decoders take the whole frame,
type byte included.
-/

namespace CipherChat

def fileNameMaxLength : ℕ := 255
def fileBeginFixedPayloadSize : ℕ := 16
def fileBeginPayloadMaxSize : ℕ :=
  fileBeginFixedPayloadSize + (usernameSize - 1) + fileNameMaxLength
def fileChunkPayloadMaxSize : ℕ := 4 + fileChunkSize
def fileControlPayloadSize : ℕ := 4

theorem fileNameMaxLength_eq : fileNameMaxLength = 255 := rfl

def readU16 (bytes : Bytes) : UInt16 := UInt16.ofNat (BigEndian.decode (bytes.take 2))
def readU32 (bytes : Bytes) : UInt32 := UInt32.ofNat (BigEndian.decode (bytes.take 4))
def readU64 (bytes : Bytes) : UInt64 := UInt64.ofNat (BigEndian.decode (bytes.take 8))

def writeU16 (value : UInt16) : Bytes := BigEndian.encode 2 value.toNat
def writeU32 (value : UInt32) : Bytes := BigEndian.encode 4 value.toNat
def writeU64 (value : UInt64) : Bytes := BigEndian.encode 8 value.toNat

@[simp] theorem writeU16_length (v : UInt16) : (writeU16 v).length = 2 := by simp [writeU16]
@[simp] theorem writeU32_length (v : UInt32) : (writeU32 v).length = 4 := by simp [writeU32]
@[simp] theorem writeU64_length (v : UInt64) : (writeU64 v).length = 8 := by simp [writeU64]

@[simp] theorem readU16_writeU16 (v : UInt16) (rest : Bytes) :
    readU16 (writeU16 v ++ rest) = v := by
  rw [readU16, List.take_left' (writeU16_length v), writeU16, BigEndian.decode_encode v.toNat_lt]
  exact UInt16.ofNat_toNat

@[simp] theorem readU32_writeU32 (v : UInt32) (rest : Bytes) :
    readU32 (writeU32 v ++ rest) = v := by
  rw [readU32, List.take_left' (writeU32_length v), writeU32, BigEndian.decode_encode v.toNat_lt]
  exact UInt32.ofNat_toNat

@[simp] theorem readU64_writeU64 (v : UInt64) (rest : Bytes) :
    readU64 (writeU64 v ++ rest) = v := by
  rw [readU64, List.take_left' (writeU64_length v), writeU64, BigEndian.decode_encode v.toNat_lt]
  exact UInt64.ofNat_toNat

def validPeerName (name : Bytes) : Bool :=
  name.length != 0 && name.length < usernameSize &&
    name.all fun b => !(b == 0 || isSpace b || isCntrl b)

def validFilename (name : Bytes) : Bool :=
  name.length != 0 && name.length ≤ fileNameMaxLength &&
    !(name == [46] || name == [46, 46]) &&
    name.all fun b => !(b == 0 || b == 47 || b == 92 || isCntrl b)

structure FileBeginFrame where
  transferId : UInt32
  fileSize : UInt64
  peer : Bytes
  filename : Bytes
  deriving DecidableEq, Repr

structure FileChunkFrame where
  transferId : UInt32
  data : Bytes
  deriving DecidableEq, Repr

/-- `file_protocol_encode_begin`.  `peer` and `filename` are C strings, so the
bounded scan for their NUL succeeds exactly when they are short enough. -/
def encodeBegin (capacity : ℕ) (transferId : UInt32) (fileSize : UInt64) (peer filename : Bytes) :
    Except Errno Bytes :=
  if usernameSize - 1 < peer.length ∨ fileNameMaxLength < filename.length ∨
      validPeerName peer = false ∨ validFilename filename = false then .error .EINVAL
  else if capacity < fileBeginFixedPayloadSize + peer.length + filename.length then .error .EMSGSIZE
  else .ok (writeU32 transferId ++ writeU64 fileSize ++ writeU16 (UInt16.ofNat peer.length) ++
    writeU16 (UInt16.ofNat filename.length) ++ peer ++ filename)

/-- `file_protocol_decode_begin`; every rejection is `EPROTO`. -/
def decodeBegin (frame : Bytes) : Option FileBeginFrame :=
  let headerLength := 1 + fileBeginFixedPayloadSize
  if frame.length < headerLength || frame.head? != some FrameType.fileBegin.toByte then none
  else
    let peerLength := (readU16 (frame.drop 13)).toNat
    let filenameLength := (readU16 (frame.drop 15)).toNat
    let peer := (frame.drop headerLength).take peerLength
    let filename := (frame.drop (headerLength + peerLength)).take filenameLength
    if peerLength + filenameLength != frame.length - headerLength || !validPeerName peer ||
        !validFilename filename then none
    else some {
      transferId := readU32 (frame.drop 1)
      fileSize := readU64 (frame.drop 5)
      peer := peer
      filename := filename }

def encodeChunk (capacity : ℕ) (transferId : UInt32) (data : Bytes) : Except Errno Bytes :=
  if data.length = 0 ∨ fileChunkSize < data.length then .error .EINVAL
  else if capacity < 4 + data.length then .error .EMSGSIZE
  else .ok (writeU32 transferId ++ data)

def decodeChunk (frame : Bytes) : Option FileChunkFrame :=
  let headerLength := 1 + 4
  if frame.length ≤ headerLength || frame.head? != some FrameType.fileChunk.toByte ||
      headerLength + fileChunkSize < frame.length then none
  else some { transferId := readU32 (frame.drop 1), data := frame.drop headerLength }

def encodeControl (capacity : ℕ) (transferId : UInt32) : Except Errno Bytes :=
  if capacity < fileControlPayloadSize then .error .EMSGSIZE else .ok (writeU32 transferId)

/-- `file_protocol_decode_control`, for `FRAME_FILE_END` and `FRAME_FILE_ERROR`. -/
def decodeControl (frame : Bytes) (expectedType : FrameType) : Except Errno UInt32 :=
  if expectedType ≠ .fileEnd ∧ expectedType ≠ .fileError then .error .EINVAL
  else if frame.length ≠ 1 + fileControlPayloadSize ∨ frame.head? ≠ some expectedType.toByte then
    .error .EPROTO
  else .ok (readU32 (frame.drop 1))

/-- `file_protocol_read_transfer_id`: salvages the id of a frame that may be malformed. -/
def readTransferId (frame : Bytes) : Option UInt32 :=
  if frame.length < 1 + 4 then none else some (readU32 (frame.drop 1))

theorem validPeerName_iff {name : Bytes} : validPeerName name = true ↔
    name.length ≠ 0 ∧ name.length < usernameSize ∧
      ∀ b ∈ name, b ≠ 0 ∧ isSpace b = false ∧ isCntrl b = false := by
  simp [validPeerName, and_assoc]

theorem validFilename_iff {name : Bytes} : validFilename name = true ↔
    name.length ≠ 0 ∧ name.length ≤ fileNameMaxLength ∧ (name ≠ [46] ∧ name ≠ [46, 46]) ∧
      ∀ b ∈ name, b ≠ 0 ∧ b ≠ 47 ∧ b ≠ 92 ∧ isCntrl b = false := by
  simp [validFilename, and_assoc]

theorem decodeBegin_some {frame : Bytes} {b : FileBeginFrame} (h : decodeBegin frame = some b) :
    frame.head? = some FrameType.fileBegin.toByte ∧ readTransferId frame = some b.transferId ∧
      validPeerName b.peer = true ∧ validFilename b.filename = true := by
  simp only [decodeBegin] at h
  split at h
  · cases h
  · rename_i hhead
    split at h
    · cases h
    · rename_i hbody
      obtain rfl := Option.some.inj h
      simp only [Bool.or_eq_true, not_or, Bool.not_eq_true, Bool.not_eq_false', bne_eq_false_iff_eq,
        decide_eq_false_iff_not] at hhead hbody
      refine ⟨hhead.2, ?_, hbody.1.2, hbody.2⟩
      simp only [fileBeginFixedPayloadSize] at hhead
      rw [readTransferId, if_neg (by omega)]

theorem decodeChunk_some {frame : Bytes} {c : FileChunkFrame} (h : decodeChunk frame = some c) :
    frame.head? = some FrameType.fileChunk.toByte ∧ readTransferId frame = some c.transferId ∧
      0 < c.data.length ∧ c.data.length ≤ fileChunkSize := by
  simp only [decodeChunk] at h
  split at h
  · cases h
  · rename_i hframe
    obtain rfl := Option.some.inj h
    simp only [Bool.or_eq_true, not_or, decide_eq_true_eq, bne_iff_ne, not_not, not_lt,
      not_le] at hframe
    refine ⟨hframe.1.2, ?_, ?_, ?_⟩
    · rw [readTransferId, if_neg (by omega)]
    · simp only [List.length_drop]
      omega
    · simp only [List.length_drop]
      omega

theorem decodeControl_ok {frame : Bytes} {t : FrameType} {o : UInt32}
    (h : decodeControl frame t = .ok o) :
    frame.head? = some t.toByte ∧ readTransferId frame = some o := by
  unfold decodeControl at h
  split_ifs at h with h1 h2
  simp only [fileControlPayloadSize, not_or, not_not] at h2
  refine ⟨h2.2, ?_⟩
  rw [readTransferId, if_neg (by omega)]
  exact congrArg some (Except.ok.inj h)

theorem encodeBegin_eq {transferId : UInt32} {fileSize : UInt64} {peer filename : Bytes}
    (hp : validPeerName peer = true) (hf : validFilename filename = true) :
    encodeBegin fileBeginPayloadMaxSize transferId fileSize peer filename =
      .ok (writeU32 transferId ++ writeU64 fileSize ++ writeU16 (UInt16.ofNat peer.length) ++
        writeU16 (UInt16.ofNat filename.length) ++ peer ++ filename) := by
  have h1 := (validPeerName_iff.mp hp).2.1
  have h2 := (validFilename_iff.mp hf).2.1
  simp only [usernameSize, fileNameMaxLength] at h1 h2
  rw [encodeBegin, if_neg, if_neg]
  · simp only [fileBeginPayloadMaxSize, fileBeginFixedPayloadSize, usernameSize, fileNameMaxLength]
    omega
  · simp only [hp, hf, usernameSize, fileNameMaxLength, Bool.true_eq_false, or_false]
    omega

theorem encodeChunk_eq {transferId : UInt32} {data : Bytes} (h0 : 0 < data.length)
    (h1 : data.length ≤ fileChunkSize) :
    encodeChunk fileChunkPayloadMaxSize transferId data = .ok (writeU32 transferId ++ data) := by
  rw [encodeChunk, if_neg (by omega), if_neg (by rw [fileChunkPayloadMaxSize]; omega)]

theorem encodeBegin_length {capacity : ℕ} {transferId : UInt32} {fileSize : UInt64}
    {peer filename payload : Bytes}
    (h : encodeBegin capacity transferId fileSize peer filename = .ok payload) :
    payload.length ≤ capacity := by
  have hfixed : fileBeginFixedPayloadSize = 16 := rfl
  unfold encodeBegin at h
  split_ifs at h with h1 h2
  obtain rfl := Except.ok.inj h
  simp only [List.length_append, writeU32_length, writeU64_length, writeU16_length]
  omega

theorem encodeChunk_length {capacity : ℕ} {transferId : UInt32} {data payload : Bytes}
    (h : encodeChunk capacity transferId data = .ok payload) : payload.length ≤ capacity := by
  unfold encodeChunk at h
  split_ifs at h with h1 h2
  obtain rfl := Except.ok.inj h
  simp only [List.length_append, writeU32_length]
  omega

theorem encodeControl_eq (transferId : UInt32) :
    encodeControl fileControlPayloadSize transferId = .ok (writeU32 transferId) := by
  simp [encodeControl]

theorem readTransferId_cons (t : UInt8) (o : UInt32) (rest : Bytes) :
    readTransferId (t :: (writeU32 o ++ rest)) = some o := by
  rw [readTransferId, if_neg (by simp)]
  simp

theorem readTransferId_encodeBegin {capacity : ℕ} {transferId : UInt32} {fileSize : UInt64}
    {peer filename payload : Bytes} (t : UInt8)
    (h : encodeBegin capacity transferId fileSize peer filename = .ok payload) :
    readTransferId (t :: payload) = some transferId := by
  unfold encodeBegin at h
  split_ifs at h
  obtain rfl := Except.ok.inj h
  simp only [List.append_assoc]
  exact readTransferId_cons _ _ _

theorem readTransferId_encodeChunk {capacity : ℕ} {transferId : UInt32} {data payload : Bytes}
    (t : UInt8) (h : encodeChunk capacity transferId data = .ok payload) :
    readTransferId (t :: payload) = some transferId := by
  unfold encodeChunk at h
  split_ifs at h
  obtain rfl := Except.ok.inj h
  exact readTransferId_cons _ _ _

theorem readTransferId_writeU32 (t : UInt8) (transferId : UInt32) :
    readTransferId (t :: writeU32 transferId) = some transferId := by
  have hread := readTransferId_cons t transferId []
  rwa [List.append_nil] at hread

theorem decodeBegin_encodeBegin {capacity : ℕ} {transferId : UInt32} {fileSize : UInt64}
    {peer filename payload : Bytes}
    (h : encodeBegin capacity transferId fileSize peer filename = .ok payload) :
    decodeBegin (FrameType.fileBegin.toByte :: payload) =
      some { transferId, fileSize, peer, filename } := by
  unfold encodeBegin at h
  split_ifs at h with h1 h2
  obtain rfl := Except.ok.inj h
  simp only [not_or, not_lt, Bool.not_eq_false, usernameSize, fileNameMaxLength] at h1
  obtain ⟨hpl, hfl, hp, hf⟩ := h1
  have hpn : (UInt16.ofNat peer.length).toNat = peer.length := by
    rw [UInt16.toNat_ofNat', Nat.mod_eq_of_lt (by omega)]
  have hfn : (UInt16.ofNat filename.length).toNat = filename.length := by
    rw [UInt16.toNat_ofNat', Nat.mod_eq_of_lt (by omega)]
  -- the fixed fields occupy bytes 1 to 16, so every field is a `drop` at a constant
  generalize hA : writeU32 transferId = A
  generalize hB : writeU64 fileSize = B
  generalize hC : writeU16 (UInt16.ofNat peer.length) = C
  generalize hD : writeU16 (UInt16.ofNat filename.length) = D
  have lA : A.length = 4 := by rw [← hA]; simp
  have lB : B.length = 8 := by rw [← hB]; simp
  have lC : C.length = 2 := by rw [← hC]; simp
  have lD : D.length = 2 := by rw [← hD]; simp
  have d5 : (A ++ B ++ C ++ D ++ peer ++ filename).drop 4 = B ++ (C ++ D ++ peer ++ filename) := by
    simp only [List.append_assoc]
    rw [List.drop_left' lA]
  have d13 : (A ++ B ++ C ++ D ++ peer ++ filename).drop 12 = C ++ (D ++ peer ++ filename) := by
    simp only [List.append_assoc]
    rw [← List.append_assoc A B, List.drop_left' (by simp [lA, lB])]
  have d15 : (A ++ B ++ C ++ D ++ peer ++ filename).drop 14 = D ++ (peer ++ filename) := by
    simp only [List.append_assoc]
    rw [← List.append_assoc A B, ← List.append_assoc (A ++ B) C,
      List.drop_left' (by simp [lA, lB, lC])]
  have d17 : (A ++ B ++ C ++ D ++ peer ++ filename).drop 16 = peer ++ filename := by
    rw [List.append_assoc (A ++ B ++ C ++ D), List.drop_left' (by simp [lA, lB, lC, lD])]
  have d17f : (A ++ B ++ C ++ D ++ peer ++ filename).drop (16 + peer.length) = filename := by
    rw [← List.drop_drop, d17, List.drop_left' rfl]
  have hlen : (A ++ B ++ C ++ D ++ peer ++ filename).length =
      16 + peer.length + filename.length := by
    simp only [List.length_append, lA, lB, lC, lD]
  have r32 : readU32 (A ++ (B ++ C ++ D ++ peer ++ filename)) = transferId := by
    rw [← hA, readU32_writeU32]
  have r64 : readU64 (B ++ (C ++ D ++ peer ++ filename)) = fileSize := by
    rw [← hB, readU64_writeU64]
  have r16p : (readU16 (C ++ (D ++ peer ++ filename))).toNat = peer.length := by
    rw [← hC, readU16_writeU16, hpn]
  have r16f : (readU16 (D ++ (peer ++ filename))).toNat = filename.length := by
    rw [← hD, readU16_writeU16, hfn]
  have e17 : 1 + fileBeginFixedPayloadSize = 16 + 1 := rfl
  simp only [decodeBegin, e17, List.length_cons, hlen, List.drop_succ_cons, d13, d15, r16p, r16f,
    d17, Nat.add_right_comm 16 1, d17f, List.head?_cons]
  rw [if_neg, if_neg]
  · simp only [List.take_left, List.take_length, d5, r64, List.drop_zero]
    simp only [List.append_assoc] at r32 ⊢
    rw [r32]
  · simp only [List.take_left, List.take_length, hp, hf, Bool.not_true, Bool.or_false, bne_iff_ne]
    omega
  · simp only [bne_self_eq_false, Bool.or_false, decide_eq_true_eq]
    omega

theorem decodeChunk_encodeChunk {capacity : ℕ} {transferId : UInt32} {data payload : Bytes}
    (h : encodeChunk capacity transferId data = .ok payload) :
    decodeChunk (FrameType.fileChunk.toByte :: payload) = some { transferId, data } := by
  unfold encodeChunk at h
  split_ifs at h with h1 h2
  obtain rfl := Except.ok.inj h
  simp only [decodeChunk, List.length_cons, List.length_append, writeU32_length,
    List.drop_succ_cons, List.head?_cons]
  rw [if_neg]
  · rw [List.drop_zero, readU32_writeU32, List.drop_left' (writeU32_length _)]
  · simp only [bne_self_eq_false, Bool.or_false, Bool.or_eq_true, decide_eq_true_eq]
    omega

theorem decodeControl_encodeControl {capacity : ℕ} {transferId : UInt32} {payload : Bytes}
    {t : FrameType} (ht : t = .fileEnd ∨ t = .fileError)
    (h : encodeControl capacity transferId = .ok payload) :
    decodeControl (t.toByte :: payload) t = .ok transferId := by
  unfold encodeControl at h
  split_ifs at h
  obtain rfl := Except.ok.inj h
  rw [decodeControl, if_neg, if_neg]
  · rw [List.drop_succ_cons, List.drop_zero, ← List.append_nil (writeU32 transferId),
      readU32_writeU32]
  · simp [fileControlPayloadSize]
  · rcases ht with rfl | rfl <;> simp

end CipherChat
