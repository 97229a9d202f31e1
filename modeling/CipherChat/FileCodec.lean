import CipherChat.FileProtocol

/-!
# The file-frame codec is exact

A decoder of `file_protocol.c` writes its result through a pointer, as its last
act.  Each decoder accepts the frames that its encoder makes, and no others.
-/

namespace CipherChat

/-- An encoder into a buffer of some capacity, and a decoder that fills in a result, invert
each other: the decoder accepts the image of the encoder and leaves its result alone on
everything else. -/
structure ExactCodec {α : Type} (valid : α → Prop) (bound : ℕ)
    (encode : ℕ → α → Except Errno Bytes) (decode : α → Bytes → Except Errno Unit × α) : Prop where
  encodes : ∀ a, valid a → ∀ capacity, bound ≤ capacity → ∃ frame, encode capacity a = .ok frame
  decodes : ∀ out capacity a frame, encode capacity a = .ok frame → decode out frame = (.ok (), a)
  image : ∀ out a frame, decode out frame = (.ok (), a) →
    valid a ∧ ∀ capacity, bound ≤ capacity → encode capacity a = .ok frame
  rejects : ∀ out frame, (∀ capacity a, encode capacity a ≠ .ok frame) →
    decode out frame = (.error .EPROTO, out)

/-- `file_protocol_decode_begin` on the struct behind `decoded`. -/
def decodeBeginInto (decoded : FileBeginFrame) (frame : Bytes) :
    Except Errno Unit × FileBeginFrame :=
  match decodeBegin frame with
  | none => (.error .EPROTO, decoded)
  | some parsed => (.ok (), parsed)

/-- `file_protocol_decode_chunk` on the struct behind `decoded`. -/
def decodeChunkInto (decoded : FileChunkFrame) (frame : Bytes) :
    Except Errno Unit × FileChunkFrame :=
  match decodeChunk frame with
  | none => (.error .EPROTO, decoded)
  | some parsed => (.ok (), parsed)

/-- `file_protocol_decode_control` on the number behind `transfer_id`. -/
def decodeControlInto (expectedType : FrameType) (transferId : UInt32) (frame : Bytes) :
    Except Errno Unit × UInt32 :=
  match decodeControl frame expectedType with
  | .error e => (.error e, transferId)
  | .ok parsed => (.ok (), parsed)

theorem encode_decode_take {bs : Bytes} {k : ℕ} (h : k ≤ bs.length) :
    BigEndian.encode k (BigEndian.decode (bs.take k) % 256 ^ k) = bs.take k := by
  have hlen : (bs.take k).length = k := List.length_take_of_le h
  have hdecode := BigEndian.encode_decode (bs.take k)
  rw [hlen] at hdecode
  rw [BigEndian.encode_mod, hdecode]

theorem writeU16_readU16 {bs : Bytes} (h : 2 ≤ bs.length) : writeU16 (readU16 bs) = bs.take 2 := by
  rw [writeU16, readU16, UInt16.toNat_ofNat']
  exact encode_decode_take h

theorem writeU32_readU32 {bs : Bytes} (h : 4 ≤ bs.length) : writeU32 (readU32 bs) = bs.take 4 := by
  rw [writeU32, readU32, UInt32.toNat_ofNat']
  exact encode_decode_take h

theorem writeU64_readU64 {bs : Bytes} (h : 8 ≤ bs.length) : writeU64 (readU64 bs) = bs.take 8 := by
  rw [writeU64, readU64, UInt64.toNat_ofNat']
  exact encode_decode_take h

theorem take_drop_take (bs : Bytes) (m n : ℕ) (rest : Bytes) (h : bs.drop (m + n) = rest) :
    bs.drop m = (bs.drop m).take n ++ rest := by
  rw [← h, ← List.drop_drop, List.take_append_drop]

theorem eq_cons_drop_of_head? {frame : Bytes} {b : UInt8} (h : frame.head? = some b) :
    frame = b :: frame.drop 1 := by
  cases frame with
  | nil => cases h
  | cons c rest =>
    rw [List.head?_cons] at h
    rw [Option.some.inj h]
    rfl

theorem decodeBegin_image {frame : Bytes} {d : FileBeginFrame} (h : decodeBegin frame = some d) :
    frame = FrameType.fileBegin.toByte :: (writeU32 d.transferId ++ writeU64 d.fileSize ++
      writeU16 (UInt16.ofNat d.peer.length) ++ writeU16 (UInt16.ofNat d.filename.length) ++
        d.peer ++ d.filename) := by
  have hfixed : 1 + fileBeginFixedPayloadSize = 17 := rfl
  simp only [decodeBegin, hfixed] at h
  split at h
  · cases h
  next hhead =>
  split at h
  · cases h
  next hbody =>
  obtain rfl := Option.some.inj h
  simp only [Bool.or_eq_true, not_or, decide_eq_true_eq, bne_iff_ne, not_not, not_lt] at hhead hbody
  obtain ⟨hlen, hfirst⟩ := hhead
  have hsum := hbody.1.1
  -- the two lengths are those of the names, as the frame holds exactly both
  have hpeer : ((frame.drop 17).take (readU16 (frame.drop 13)).toNat).length =
      (readU16 (frame.drop 13)).toNat := by
    rw [List.length_take, List.length_drop]
    omega
  have hname : ((frame.drop (17 + (readU16 (frame.drop 13)).toNat)).take
      (readU16 (frame.drop 15)).toNat) = frame.drop (17 + (readU16 (frame.drop 13)).toNat) := by
    apply List.take_of_length_le
    rw [List.length_drop]
    omega
  have hnameLen : (frame.drop (17 + (readU16 (frame.drop 13)).toNat)).length =
      (readU16 (frame.drop 15)).toNat := by
    rw [List.length_drop]
    omega
  dsimp only
  rw [hname, hpeer, hnameLen, UInt16.ofNat_toNat, UInt16.ofNat_toNat,
    writeU32_readU32 (by rw [List.length_drop]; omega),
    writeU64_readU64 (by rw [List.length_drop]; omega),
    writeU16_readU16 (by rw [List.length_drop]; omega),
    writeU16_readU16 (by rw [List.length_drop]; omega)]
  simp only [List.append_assoc]
  rw [← take_drop_take frame 17 _ _ rfl, ← take_drop_take frame 15 2 _ rfl,
    ← take_drop_take frame 13 2 _ rfl, ← take_drop_take frame 5 8 _ rfl,
    ← take_drop_take frame 1 4 _ rfl]
  exact eq_cons_drop_of_head? hfirst

theorem decodeChunk_image {frame : Bytes} {d : FileChunkFrame} (h : decodeChunk frame = some d) :
    frame = FrameType.fileChunk.toByte :: (writeU32 d.transferId ++ d.data) := by
  obtain ⟨hfirst, -, hdata, -⟩ := decodeChunk_some h
  simp only [decodeChunk] at h
  split at h
  · cases h
  obtain rfl := Option.some.inj h
  dsimp only at hdata ⊢
  rw [List.length_drop] at hdata
  rw [writeU32_readU32 (by rw [List.length_drop]; omega), ← take_drop_take frame 1 4 _ rfl]
  exact eq_cons_drop_of_head? hfirst

theorem decodeControl_image {frame : Bytes} {type : FrameType} {transferId : UInt32}
    (h : decodeControl frame type = .ok transferId) :
    frame = type.toByte :: writeU32 transferId := by
  have hsize : 1 + fileControlPayloadSize = 5 := rfl
  obtain ⟨hfirst, -⟩ := decodeControl_ok h
  simp only [decodeControl, hsize] at h
  split_ifs at h with htype hshape
  obtain rfl := Except.ok.inj h
  simp only [not_or, not_not] at hshape
  have hrest : (frame.drop 1).length = 4 := by
    rw [List.length_drop]
    omega
  rw [writeU32_readU32 hrest.ge, List.take_of_length_le hrest.le]
  exact eq_cons_drop_of_head? hfirst

section Exact

variable {α : Type} {valid : α → Prop} {bound : ℕ} {encode : ℕ → α → Except Errno Bytes}
  {decode : α → Bytes → Except Errno Unit × α} {layout : α → Bytes}

/-- A codec is exact when frames have one layout and the decoder either ignores its
result's old value or keeps it. -/
theorem ExactCodec.of_layout
    (hencode : ∀ a capacity, valid a → bound ≤ capacity → encode capacity a = .ok (layout a))
    (hdecode : ∀ out capacity a frame, encode capacity a = .ok frame →
      decode out frame = (.ok (), a))
    (himage : ∀ out a frame, decode out frame = (.ok (), a) → valid a ∧ frame = layout a)
    (hcases : ∀ frame, (∃ a, ∀ out, decode out frame = (.ok (), a)) ∨
      ∀ out, decode out frame = (.error .EPROTO, out)) :
    ExactCodec valid bound encode decode where
  encodes a ha capacity hc := ⟨layout a, hencode a capacity ha hc⟩
  decodes := hdecode
  image out a frame h := by
    obtain ⟨ha, rfl⟩ := himage out a frame h
    exact ⟨ha, fun capacity hc => hencode a capacity ha hc⟩
  rejects out frame h := by
    rcases hcases frame with ⟨a, hok⟩ | herror
    · obtain ⟨ha, rfl⟩ := himage out a frame (hok out)
      exact absurd (hencode a bound ha le_rfl) (h bound a)
    · exact herror out

end Exact

theorem begin_exact : ExactCodec
    (fun d : FileBeginFrame => validPeerName d.peer = true ∧ validFilename d.filename = true)
    fileBeginPayloadMaxSize
    (fun capacity d => (encodeBegin capacity d.transferId d.fileSize d.peer d.filename).map
      (FrameType.fileBegin.toByte :: ·)) decodeBeginInto := by
  apply ExactCodec.of_layout
  · intro d capacity hd hc
    have hpeer := (validPeerName_iff.mp hd.1).2.1
    have hname := (validFilename_iff.mp hd.2).2.1
    simp only [usernameSize, fileNameMaxLength] at hpeer hname
    simp only [fileBeginPayloadMaxSize, fileBeginFixedPayloadSize, usernameSize,
      fileNameMaxLength] at hc
    rw [encodeBegin, if_neg, if_neg]
    · rfl
    · simp only [fileBeginFixedPayloadSize]
      omega
    · simp only [hd.1, hd.2, usernameSize, fileNameMaxLength, Bool.true_eq_false, or_false]
      omega
  · intro out capacity d frame h
    cases he : encodeBegin capacity d.transferId d.fileSize d.peer d.filename with
    | error e =>
      rw [he] at h
      cases h
    | ok payload =>
      rw [he] at h
      obtain rfl := Except.ok.inj h
      rw [decodeBeginInto, decodeBegin_encodeBegin he]
  · intro out d frame h
    cases hd : decodeBegin frame with
    | none =>
      rw [decodeBeginInto, hd] at h
      cases h
    | some parsed =>
      rw [decodeBeginInto, hd] at h
      obtain rfl := (Prod.mk.inj h).2
      obtain ⟨-, -, hvalid⟩ := decodeBegin_some hd
      exact ⟨hvalid, decodeBegin_image hd⟩
  · intro frame
    cases hd : decodeBegin frame with
    | none => exact .inr fun out => by rw [decodeBeginInto, hd]
    | some parsed => exact .inl ⟨parsed, fun out => by rw [decodeBeginInto, hd]⟩

theorem chunk_exact : ExactCodec
    (fun d : FileChunkFrame => 0 < d.data.length ∧ d.data.length ≤ fileChunkSize)
    fileChunkPayloadMaxSize
    (fun capacity d => (encodeChunk capacity d.transferId d.data).map
      (FrameType.fileChunk.toByte :: ·)) decodeChunkInto := by
  apply ExactCodec.of_layout
  · intro d capacity hd hc
    rw [fileChunkPayloadMaxSize] at hc
    rw [encodeChunk, if_neg (by omega), if_neg (by omega)]
    rfl
  · intro out capacity d frame h
    cases he : encodeChunk capacity d.transferId d.data with
    | error e =>
      rw [he] at h
      cases h
    | ok payload =>
      rw [he] at h
      obtain rfl := Except.ok.inj h
      rw [decodeChunkInto, decodeChunk_encodeChunk he]
  · intro out d frame h
    cases hd : decodeChunk frame with
    | none =>
      rw [decodeChunkInto, hd] at h
      cases h
    | some parsed =>
      rw [decodeChunkInto, hd] at h
      obtain rfl := (Prod.mk.inj h).2
      obtain ⟨-, -, hvalid⟩ := decodeChunk_some hd
      exact ⟨hvalid, decodeChunk_image hd⟩
  · intro frame
    cases hd : decodeChunk frame with
    | none => exact .inr fun out => by rw [decodeChunkInto, hd]
    | some parsed => exact .inl ⟨parsed, fun out => by rw [decodeChunkInto, hd]⟩

theorem control_exact {type : FrameType} (htype : type = .fileEnd ∨ type = .fileError) : ExactCodec
    (fun _ : UInt32 => True) fileControlPayloadSize
    (fun capacity transferId => (encodeControl capacity transferId).map (type.toByte :: ·))
    (decodeControlInto type) := by
  apply ExactCodec.of_layout
  · intro transferId capacity _ hc
    rw [encodeControl, if_neg (not_lt.mpr hc)]
    rfl
  · intro out capacity transferId frame h
    cases he : encodeControl capacity transferId with
    | error e =>
      rw [he] at h
      cases h
    | ok payload =>
      rw [he] at h
      obtain rfl := Except.ok.inj h
      rw [decodeControlInto, decodeControl_encodeControl htype he]
  · intro out transferId frame h
    cases hd : decodeControl frame type with
    | error e =>
      rw [decodeControlInto, hd] at h
      cases h
    | ok parsed =>
      rw [decodeControlInto, hd] at h
      obtain rfl := (Prod.mk.inj h).2
      exact ⟨trivial, decodeControl_image hd⟩
  · intro frame
    cases hd : decodeControl frame type with
    | error e =>
      have hproto : e = .EPROTO := by
        rw [decodeControl, if_neg (by rcases htype with rfl | rfl <;> simp)] at hd
        split_ifs at hd
        exact (Except.error.inj hd).symm
      exact .inr fun out => by rw [decodeControlInto, hd, hproto]
    | ok parsed => exact .inl ⟨parsed, fun out => by rw [decodeControlInto, hd]⟩

/-- The codec of file frames is a bijection on its valid frames. -/
theorem file_codec_exact :
    ExactCodec
      (fun d : FileBeginFrame => validPeerName d.peer = true ∧ validFilename d.filename = true)
      fileBeginPayloadMaxSize
      (fun capacity d => (encodeBegin capacity d.transferId d.fileSize d.peer d.filename).map
        (FrameType.fileBegin.toByte :: ·)) decodeBeginInto ∧
    ExactCodec
      (fun d : FileChunkFrame => 0 < d.data.length ∧ d.data.length ≤ fileChunkSize)
      fileChunkPayloadMaxSize
      (fun capacity d => (encodeChunk capacity d.transferId d.data).map
        (FrameType.fileChunk.toByte :: ·)) decodeChunkInto ∧
    ExactCodec (fun _ : UInt32 => True) fileControlPayloadSize
      (fun capacity transferId => (encodeControl capacity transferId).map
        (FrameType.fileEnd.toByte :: ·)) (decodeControlInto .fileEnd) ∧
    ExactCodec (fun _ : UInt32 => True) fileControlPayloadSize
      (fun capacity transferId => (encodeControl capacity transferId).map
        (FrameType.fileError.toByte :: ·)) (decodeControlInto .fileError) :=
  ⟨begin_exact, chunk_exact, control_exact (.inl rfl), control_exact (.inr rfl)⟩

end CipherChat
