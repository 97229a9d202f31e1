import CipherChat.ClientFileReceiver

/-!
# Sending a file

`client_file_sender.c`.  The file is read whole, boxed, and sent as one BEGIN,
CHUNKs of at most 900 bytes and one END.  A frame is `[type][payload]`, as the
other side decodes it.
-/

namespace CipherChat

/-- `path_basename`; `none` stands for NULL. -/
def pathBasename (path : Bytes) : Option Bytes :=
  if path = [] then none else some (path.reverse.takeWhile (· != 47)).reverse

/-- The answers of the system while a file is sent: `content` is what reading to
the end of the file gives, `sent k` answers the `k`-th `send_frame`. -/
structure SendEnv where
  fopen : Option Errno := none
  fstat : Option Errno := none
  isRegular : Bool := true
  size : ℕ
  malloc : Bool := true
  content : Bytes
  ferror : Bool := false
  fclose : Option Errno := none
  nonce : { n : Bytes // n.length = cryptoBoxNonceBytes }
  sent : ℕ → Option Errno := fun _ => none

def getRegularFileSize (env : SendEnv) : Except Errno ℕ :=
  match env.fstat with
  | some e => .error e
  | none => if env.isRegular then .ok env.size else .error .EINVAL

/-- `send_file_begin`, up to its `send_frame`. -/
def fileBeginFrame (transferId : UInt32) (recipient filename : Bytes) (fileSize : ℕ) :
    Except Errno Bytes :=
  (encodeBegin fileBeginPayloadMaxSize transferId (UInt64.ofNat fileSize) recipient filename).map
    (FrameType.fileBegin.toByte :: ·)

/-- `send_file_chunk`, up to its `send_frame`. -/
def fileChunkFrame (transferId : UInt32) (chunk : Bytes) : Except Errno Bytes :=
  (encodeChunk fileChunkPayloadMaxSize transferId chunk).map (FrameType.fileChunk.toByte :: ·)

/-- `send_file_control`, up to its `send_frame`. -/
def fileControlFrame (type : FrameType) (transferId : UInt32) : Except Errno Bytes :=
  if type ≠ .fileEnd ∧ type ≠ .fileError then .error .EINVAL
  else (encodeControl fileControlPayloadSize transferId).map (type.toByte :: ·)

/-- The chunks of `send_file`'s loop, from `offset` on. -/
def fileChunks (encrypted : Bytes) (offset : ℕ) : List Bytes :=
  if offset < encrypted.length then
    let chunkLength := min (encrypted.length - offset) fileChunkSize
    (encrypted.drop offset).take chunkLength :: fileChunks encrypted (offset + chunkLength)
  else []
termination_by encrypted.length - offset
decreasing_by
  have hsize : fileChunkSize = 900 := rfl
  omega

def sendFrames (sent : ℕ → Option Errno) : ℕ → List (Except Errno Bytes) →
    Except Errno Unit × List Bytes
  | _, [] => (.ok (), [])
  | _, .error e :: _ => (.error e, [])
  | k, .ok frame :: rest =>
    match sent k with
    | some e => (.error e, [])
    | none =>
      let (result, frames) := sendFrames sent (k + 1) rest
      (result, frame :: frames)

/-- `[magic][filename length][filename][file bytes]`. -/
def filePlaintext (filename content : Bytes) : Bytes :=
  fileCryptoMagic ++ writeU16 (UInt16.ofNat filename.length) ++ filename ++ content

/-- The envelope that `send_file` cuts into chunks. -/
def fileEnvelope (env : SendEnv)
    (senderPublicKey : { k : Bytes // k.length = cryptoBoxPublicKeyBytes })
    (ciphertext : Bytes) : Bytes :=
  fileCryptoMagic ++ senderPublicKey.val ++ env.nonce.val ++ ciphertext

/-- `send_file` up to its first frame: the basename, the envelope and its announced length. -/
def encryptFile (env : SendEnv) (box : CryptoBox) (recipient path recipientPublicKey : Bytes)
    (senderPublicKey : { k : Bytes // k.length = cryptoBoxPublicKeyBytes })
    (senderPrivateKey : Bytes) : Except Errno (Bytes × Bytes × ℕ) :=
  let filename := (pathBasename path).getD []
  if validPeerName recipient = false ∨ validFilename filename = false then .error .EINVAL
  else
    match env.fopen with
    | some e => .error e
    | none =>
      match getRegularFileSize env with
      | .error e => .error e
      | .ok fileSize =>
        if filePlaintextMaxSize < fileSize then .error .EFBIG
        else if env.malloc = false then .error .ENOMEM
        else if env.content.length ≠ fileSize ∨ env.ferror = true then .error Errno.EIO
        else
          match env.fclose with
          | some e => .error e
          | none =>
            let plaintext := filePlaintext filename env.content
            match box.easy plaintext env.nonce.val recipientPublicKey senderPrivateKey with
            | none => .error .EINVAL
            | some ciphertext =>
              .ok (filename, fileEnvelope env senderPublicKey ciphertext,
                fileCryptoHeaderSize + cryptoBoxMacBytes + plaintext.length)

/-- `send_file`: the result and the frames that were sent. -/
def sendFile (env : SendEnv) (box : CryptoBox) (transferId : UInt32) (recipient path : Bytes)
    (recipientPublicKey : Bytes)
    (senderPublicKey : { k : Bytes // k.length = cryptoBoxPublicKeyBytes })
    (senderPrivateKey : Bytes) : Except Errno Unit × List Bytes :=
  match encryptFile env box recipient path recipientPublicKey senderPublicKey senderPrivateKey with
  | .error e => (.error e, [])
  | .ok (filename, encrypted, encryptedLength) =>
    sendFrames env.sent 0
      (fileBeginFrame transferId recipient filename encryptedLength ::
        ((fileChunks encrypted 0).map (fileChunkFrame transferId) ++
          [fileControlFrame .fileEnd transferId]))

theorem fileChunks_of_lt {encrypted : Bytes} {offset : ℕ} (h : offset < encrypted.length) :
    fileChunks encrypted offset =
      (encrypted.drop offset).take (min (encrypted.length - offset) fileChunkSize) ::
        fileChunks encrypted (offset + min (encrypted.length - offset) fileChunkSize) := by
  rw [fileChunks, if_pos h]

theorem fileChunks_of_le {encrypted : Bytes} {offset : ℕ} (h : encrypted.length ≤ offset) :
    fileChunks encrypted offset = [] := by
  rw [fileChunks, if_neg (not_lt.mpr h)]

/-- The chunks have 1 to 900 bytes and join to the rest of the envelope. -/
theorem fileChunks_spec (encrypted : Bytes) (offset : ℕ) :
    (∀ c ∈ fileChunks encrypted offset, 0 < c.length ∧ c.length ≤ fileChunkSize) ∧
      (fileChunks encrypted offset).flatten = encrypted.drop offset := by
  have hsize : fileChunkSize = 900 := rfl
  induction hn : encrypted.length - offset using Nat.strong_induction_on generalizing offset with
  | _ n ih =>
    by_cases hlt : offset < encrypted.length
    · rw [fileChunks_of_lt hlt]
      have hlen : ((encrypted.drop offset).take
          (min (encrypted.length - offset) fileChunkSize)).length =
          min (encrypted.length - offset) fileChunkSize := by
        rw [List.length_take, List.length_drop]
        omega
      obtain ⟨hsizes, hflat⟩ := ih (encrypted.length -
        (offset + min (encrypted.length - offset) fileChunkSize)) (by omega) _ rfl
      constructor
      · intro c hc
        rcases List.mem_cons.mp hc with rfl | hc
        · omega
        · exact hsizes c hc
      · rw [List.flatten_cons, hflat, ← List.drop_drop, List.take_append_drop]
    · rw [fileChunks_of_le (not_lt.mp hlt), List.drop_of_length_le (not_lt.mp hlt)]
      exact ⟨fun c hc => (by cases hc), rfl⟩

theorem sendFrames_ok {sent : ℕ → Option Errno} {k : ℕ} {list : List (Except Errno Bytes)}
    {frames : List Bytes} (h : sendFrames sent k list = (.ok (), frames)) :
    list = frames.map .ok := by
  induction list generalizing k frames with
  | nil =>
    cases h
    rfl
  | cons x rest ih =>
    cases x with
    | error e => cases h
    | ok frame =>
      rw [sendFrames] at h
      split at h
      · cases h
      · obtain ⟨hresult, hframes⟩ := Prod.mk.inj h
        rw [← hframes, List.map_cons, ← ih (Prod.ext hresult rfl)]

theorem sendFrames_of_ok {sent : ℕ → Option Errno} (hsent : ∀ k, sent k = none) (k : ℕ)
    (frames : List Bytes) : sendFrames sent k (frames.map .ok) = (.ok (), frames) := by
  induction frames generalizing k with
  | nil => rfl
  | cons frame rest ih => rw [List.map_cons, sendFrames, hsent k, ih]

/-- A BEGIN, `[type][payload]`. -/
def beginFrame (transferId : UInt32) (fileSize : UInt64) (peer filename : Bytes) : Bytes :=
  FrameType.fileBegin.toByte :: (writeU32 transferId ++ writeU64 fileSize ++
    writeU16 (UInt16.ofNat peer.length) ++ writeU16 (UInt16.ofNat filename.length) ++ peer ++
      filename)

def chunkFrame (transferId : UInt32) (data : Bytes) : Bytes :=
  FrameType.fileChunk.toByte :: (writeU32 transferId ++ data)

def endFrame (transferId : UInt32) : Bytes := FrameType.fileEnd.toByte :: writeU32 transferId

theorem decodeBegin_beginFrame {transferId : UInt32} {fileSize : UInt64} {peer filename : Bytes}
    (hp : validPeerName peer = true) (hf : validFilename filename = true) :
    decodeBegin (beginFrame transferId fileSize peer filename) =
      some { transferId, fileSize, peer, filename } :=
  decodeBegin_encodeBegin (encodeBegin_eq hp hf)

theorem decodeChunk_chunkFrame {transferId : UInt32} {data : Bytes} (h0 : 0 < data.length)
    (h1 : data.length ≤ fileChunkSize) :
    decodeChunk (chunkFrame transferId data) = some { transferId, data } :=
  decodeChunk_encodeChunk (encodeChunk_eq h0 h1)

theorem decodeControl_endFrame (transferId : UInt32) :
    decodeControl (endFrame transferId) .fileEnd = .ok transferId :=
  decodeControl_encodeControl (.inl rfl) (encodeControl_eq transferId)

section SendFile

variable {env : SendEnv} {box : CryptoBox} {transferId : UInt32} {recipient path : Bytes}
  {recipientPublicKey : Bytes}
  {senderPublicKey : { k : Bytes // k.length = cryptoBoxPublicKeyBytes }}
  {senderPrivateKey : Bytes}

/-- The frames of a file with the given envelope. -/
def fileFrames (transferId : UInt32) (recipient filename : Bytes) (fileSize : UInt64)
    (encrypted : Bytes) : List Bytes :=
  beginFrame transferId fileSize recipient filename ::
    ((fileChunks encrypted 0).map (chunkFrame transferId) ++ [endFrame transferId])

theorem fileFrames_map (hp : validPeerName recipient = true) {filename : Bytes}
    (hf : validFilename filename = true) (fileSize : ℕ) (encrypted : Bytes) :
    fileBeginFrame transferId recipient filename fileSize ::
        ((fileChunks encrypted 0).map (fileChunkFrame transferId) ++
          [fileControlFrame .fileEnd transferId]) =
      (fileFrames transferId recipient filename (UInt64.ofNat fileSize) encrypted).map .ok := by
  have hchunks : (fileChunks encrypted 0).map (fileChunkFrame transferId) =
      ((fileChunks encrypted 0).map (chunkFrame transferId)).map .ok := by
    rw [List.map_map]
    apply List.map_congr_left
    intro c hc
    obtain ⟨h0, h1⟩ := (fileChunks_spec encrypted 0).1 c hc
    rw [fileChunkFrame, encodeChunk_eq h0 h1]
    rfl
  rw [fileBeginFrame, encodeBegin_eq hp hf, hchunks, fileControlFrame, if_neg (by simp),
    encodeControl_eq, fileFrames, List.map_cons, List.map_append]
  rfl

/-- What was encrypted, when nothing failed. -/
theorem encryptFile_ok {filename encrypted : Bytes} {encryptedLength : ℕ}
    (h : encryptFile env box recipient path recipientPublicKey senderPublicKey senderPrivateKey =
      .ok (filename, encrypted, encryptedLength)) :
    filename = (pathBasename path).getD [] ∧ validPeerName recipient = true ∧
      validFilename filename = true ∧ env.content.length ≤ filePlaintextMaxSize ∧
      ∃ ciphertext, box.easy (filePlaintext filename env.content) env.nonce.val
          recipientPublicKey senderPrivateKey = some ciphertext ∧
        encrypted = fileEnvelope env senderPublicKey ciphertext ∧
        encryptedLength = fileCryptoHeaderSize + cryptoBoxMacBytes +
          (filePlaintext filename env.content).length := by
  unfold encryptFile at h
  dsimp only at h
  split at h
  · cases h
  next hvalid =>
  simp only [not_or, Bool.not_eq_false] at hvalid
  split at h
  · cases h
  split at h
  · cases h
  next fileSize hsize =>
  split at h
  · cases h
  next hle =>
  split at h
  · cases h
  split at h
  · cases h
  next hread =>
  simp only [not_or, not_not] at hread
  split at h
  · cases h
  split at h
  · cases h
  next ciphertext hbox =>
  cases h
  refine ⟨rfl, hvalid.1, hvalid.2, ?_, ciphertext, hbox, rfl, rfl⟩
  rw [hread.1]
  exact not_lt.mp hle

/-- What `send_file` sent when it returned 0. -/
theorem sendFile_ok {frames : List Bytes}
    (h : sendFile env box transferId recipient path recipientPublicKey senderPublicKey
      senderPrivateKey = (.ok (), frames)) :
    validPeerName recipient = true ∧ validFilename ((pathBasename path).getD []) = true ∧
      env.content.length ≤ filePlaintextMaxSize ∧
      ∃ ciphertext, box.easy (filePlaintext ((pathBasename path).getD []) env.content) env.nonce.val
          recipientPublicKey senderPrivateKey = some ciphertext ∧
        frames = fileFrames transferId recipient ((pathBasename path).getD [])
          (UInt64.ofNat (fileCryptoHeaderSize + cryptoBoxMacBytes +
            (filePlaintext ((pathBasename path).getD []) env.content).length))
          (fileEnvelope env senderPublicKey ciphertext) := by
  unfold sendFile at h
  split at h
  · cases h
  next filename encrypted encryptedLength hencrypt =>
  obtain ⟨rfl, hp, hf, hsize, ciphertext, hbox, rfl, rfl⟩ := encryptFile_ok hencrypt
  rw [fileFrames_map hp hf] at h
  have hframes := List.map_injective_iff.mpr (fun _ _ h => Except.ok.inj h) (sendFrames_ok h)
  exact ⟨hp, hf, hsize, ciphertext, hbox, hframes.symm⟩

/-- Nothing fails on the sender's side, and the file does not change. -/
structure SendEnv.Works (env : SendEnv) : Prop where
  fopen : env.fopen = none
  fstat : env.fstat = none
  regular : env.isRegular = true
  size : env.size = env.content.length
  malloc : env.malloc = true
  ferror : env.ferror = false
  fclose : env.fclose = none
  sent : ∀ k, env.sent k = none

/-- `send_file` accepts every valid basename and every size up to 16 MiB. -/
theorem sendFile_accepts (hw : env.Works) {ciphertext : Bytes}
    (hbox : box.easy (filePlaintext ((pathBasename path).getD []) env.content) env.nonce.val
      recipientPublicKey senderPrivateKey = some ciphertext) :
    (sendFile env box transferId recipient path recipientPublicKey senderPublicKey
      senderPrivateKey).1 = .ok () ↔
    validPeerName recipient = true ∧ validFilename ((pathBasename path).getD []) = true ∧
      env.content.length ≤ filePlaintextMaxSize := by
  constructor
  · intro h
    obtain ⟨hp, hf, hsize, -⟩ := sendFile_ok (Prod.ext h rfl)
    exact ⟨hp, hf, hsize⟩
  · rintro ⟨hp, hf, hsize⟩
    unfold sendFile encryptFile
    dsimp only
    rw [if_neg (by simp [hp, hf]), hw.fopen, getRegularFileSize, hw.fstat, hw.regular]
    dsimp only [if_true]
    rw [if_pos rfl]
    dsimp only
    rw [hw.size, if_neg (not_lt.mpr hsize), if_neg (by simp [hw.malloc]),
      if_neg (by simp [hw.ferror]), hw.fclose, hbox]
    dsimp only
    rw [fileFrames_map hp hf, sendFrames_of_ok hw.sent]

end SendFile

end CipherChat
