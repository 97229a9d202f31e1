import Mathlib.Data.List.GetD
import CipherChat.IncomingTable
import CipherChat.Lib.Resumption

/-!
# The sizes of a decryption

`decrypt_received_file` one operation at a time.  Its `size_t` differences wrap
and no offset into its block is checked, so each of them is an operation of the
program here, and a discipline says which ones are in range.  A run computes what
`decryptReceivedFile` says.
-/

namespace CipherChat

open Resumption Resumption.Prog

/-- What `decrypt_received_file` does in order.  Offsets are into the block `encrypted`;
`subtract a b` and `exceeds a b` announce that `a - b` and `a > b` are computed. -/
inductive DecryptOp
  | malloc (size : UInt64)
  | fseek
  | fread (count : UInt64)
  | memcmp (offset : ℕ) (other : Bytes) (count : UInt64)
  | subtract (a b : UInt64)
  | exceeds (a b : UInt64)
  | openEasy (message ciphertext : ℕ) (length : UInt64) (nonce senderKey : ℕ)
  | load (offset : ℕ)
  | rewind
  | fwrite (offset : ℕ) (count : UInt64)
  | fflush
  | ftruncate (size : UInt64)
  | memzero (size : UInt64)

/-- `true` is success, and equality for `memcmp`. -/
abbrev DecryptOp.Resp : DecryptOp → Type
  | .malloc _ | .fread _ | .memcmp _ _ _ | .openEasy _ _ _ _ _ | .fwrite _ _ => Bool
  | .fseek | .rewind | .fflush | .ftruncate _ => Option Errno
  | .subtract _ _ | .exceeds _ _ | .memzero _ => Unit
  | .load _ => UInt8

abbrev decryptSig : Sig := ⟨DecryptOp, DecryptOp.Resp⟩

/-- `a - b` on `size_t`. -/
def difference (a b : UInt64) : Prog decryptSig UInt64 := do
  call (S := decryptSig) (.subtract a b)
  pure (a - b)

/-- `a > b` on `size_t`. -/
def greater (a b : UInt64) : Prog decryptSig Bool := do
  call (S := decryptSig) (.exceeds a b)
  pure (decide (b < a))

/-- `decrypt_received_file`, from `filename_length` to `*file_size`: `data_offset` and the
size. -/
def readMetadata (x : IncomingFile) (plaintextLength : UInt64) :
    Prog decryptSig (Except Errno (UInt64 × UInt64)) := do
  let plaintext := fileCryptoHeaderSize
  let high ← call (S := decryptSig) (.load (plaintext + fileCryptoMagicSize))
  let low ← call (S := decryptSig) (.load (plaintext + fileCryptoMagicSize + 1))
  let filenameLength := high.toUInt64 <<< 8 ||| low.toUInt64
  if (← call (S := decryptSig)
      (.memcmp plaintext fileCryptoMagic (.ofNat fileCryptoMagicSize))) = false then
    pure (.error .EBADMSG) else
  if filenameLength ≠ .ofNat x.filename.length then pure (.error .EBADMSG) else
  let room ← difference plaintextLength (.ofNat fileCryptoMetadataSize)
  if ← greater filenameLength room then pure (.error .EBADMSG) else
  if (← call (S := decryptSig)
      (.memcmp (plaintext + fileCryptoMetadataSize) x.filename filenameLength)) = false then
    pure (.error .EBADMSG) else
  let dataOffset := .ofNat fileCryptoMetadataSize + filenameLength
  let fileSize ← difference plaintextLength dataOffset
  pure (.ok (dataOffset, fileSize))

/-- `decrypt_received_file`, from the magic of the envelope to `*file_size`. -/
def openBlock (x : IncomingFile) (encryptedLength : UInt64) :
    Prog decryptSig (Except Errno (UInt64 × UInt64)) := do
  if (← call (S := decryptSig)
      (.memcmp 0 fileCryptoMagic (.ofNat fileCryptoMagicSize))) = false then
    pure (.error .EPROTO) else
  let senderKey := fileCryptoMagicSize
  let nonce := senderKey + cryptoBoxPublicKeyBytes
  let plaintext := fileCryptoHeaderSize
  let ciphertextLength ← difference encryptedLength (.ofNat fileCryptoHeaderSize)
  if (← call (S := decryptSig)
      (.openEasy plaintext plaintext ciphertextLength nonce senderKey)) = false then
    pure (.error .EBADMSG) else
  let plaintextLength ← difference ciphertextLength (.ofNat cryptoBoxMacBytes)
  readMetadata x plaintextLength

/-- `decrypt_received_file`, from the second `fseek` to `ftruncate`. -/
def writeBack (dataOffset fileSize : UInt64) : Prog decryptSig (Except Errno UInt64) := do
  match ← call (S := decryptSig) .rewind with
  | some e => pure (.error e)
  | none =>
  if (← call (S := decryptSig)
      (.fwrite (fileCryptoHeaderSize + dataOffset.toNat) fileSize)) = false then
    pure (.error Errno.EIO) else
  match ← call (S := decryptSig) .fflush with
  | some e => pure (.error e)
  | none =>
  match ← call (S := decryptSig) (.ftruncate fileSize) with
  | some e => pure (.error e)
  | none => pure (.ok fileSize)

/-- `decrypt_received_file` up to the label `cleanup`. -/
def decryptBlock (x : IncomingFile) (encryptedLength : UInt64) :
    Prog decryptSig (Except Errno UInt64) := do
  match ← call (S := decryptSig) .fseek with
  | some e => pure (.error e)
  | none =>
  if (← call (S := decryptSig) (.fread encryptedLength)) = false then pure (.error Errno.EIO) else
  match ← openBlock x encryptedLength with
  | .error e => pure (.error e)
  | .ok (dataOffset, fileSize) => writeBack dataOffset fileSize

def decryptSteps (x : IncomingFile) : Prog decryptSig (Except Errno UInt64) := do
  let encryptedLength := .ofNat x.expectedSize
  if (← call (S := decryptSig) (.malloc encryptedLength)) = false then pure (.error .ENOMEM) else
  let result ← decryptBlock x encryptedLength
  call (S := decryptSig) (.memzero encryptedLength)
  pure result

/-- The files and the block. -/
structure DecryptState where
  receiver : Receiver
  encrypted : Bytes

/-- The operations on the stream `f`; what a block holds before it is filled is zero here. -/
def performDecrypt (cfg : ReceiverConfig) (env : FileEnv) (f : FileStream) :
    (o : DecryptOp) → DecryptState → o.Resp × DecryptState
  | .malloc size, s =>
    if env.malloc = false then (false, s)
    else (true, { s with encrypted := List.replicate size.toNat 0 })
  | .fseek, s => (env.fseek, s)
  | .fread count, s =>
    let bytes := (s.receiver.store.data f.inode).take count.toNat
    if env.fread = false ∨ bytes.length ≠ count.toNat then (false, s)
    else (true, { s with encrypted := bytes ++ s.encrypted.drop count.toNat })
  | .memcmp offset other count, s =>
    ((s.encrypted.drop offset).take count.toNat == other.take count.toNat, s)
  | .subtract _ _, s => ((), s)
  | .exceeds _ _, s => ((), s)
  | .openEasy message ciphertext length nonce senderKey, s =>
    match cfg.box.openEasy ((s.encrypted.drop ciphertext).take length.toNat)
      ((s.encrypted.drop nonce).take cryptoBoxNonceBytes)
      ((s.encrypted.drop senderKey).take cryptoBoxPublicKeyBytes) cfg.privateKey with
    | none => (false, s)
    | some bytes => (true, { s with
        encrypted := s.encrypted.take message ++ bytes ++
          s.encrypted.drop (message + bytes.length) })
  | .load offset, s => (s.encrypted.getD offset 0, s)
  | .rewind, s => (env.rewind, s)
  | .fwrite offset count, s =>
    let bytes := (s.encrypted.drop offset).take count.toNat
    let written := env.rewrite.getD bytes.length
    (decide (bytes.length ≤ written),
      { s with receiver := (s.receiver.fwrite { f with offset := 0 } bytes written).1 })
  | .fflush, s => (env.fflush, s)
  | .ftruncate size, s =>
    match env.ftruncate with
    | some e => (some e, s)
    | none =>
      let content := (s.receiver.store.data f.inode).take size.toNat
      (none, { s with receiver :=
        { s.receiver with store := s.receiver.store.write f.inode content } })
  | .memzero size, s => ((), { s with encrypted := List.replicate size.toNat 0 })

/-- `decrypt_received_file` on the staged stream: the answer, the state it leaves and
what it performed. -/
def runDecrypt (r : Receiver) (cfg : ReceiverConfig) (env : FileEnv) (x : IncomingFile)
    (f : FileStream) :
    Except Errno UInt64 × DecryptState × List ((o : DecryptOp) × o.Resp) :=
  (decryptSteps x).run (S := decryptSig) (performDecrypt cfg env f) ⟨r, []⟩

/-- On a block of `size` bytes: no difference wraps, no offset leads outside, and the test
`a > b` fails. -/
def DecryptOp.InRange (size : ℕ) : DecryptOp → Prop
  | .malloc n => n.toNat = size
  | .fread count => count.toNat ≤ size
  | .memcmp offset _ count => offset + count.toNat ≤ size
  | .subtract a b => b ≤ a
  | .exceeds a b => a ≤ b
  | .openEasy message ciphertext length nonce senderKey =>
    cryptoBoxMacBytes ≤ length.toNat ∧ ciphertext + length.toNat ≤ size ∧
      message + (length.toNat - cryptoBoxMacBytes) ≤ size ∧ nonce + cryptoBoxNonceBytes ≤ size ∧
      senderKey + cryptoBoxPublicKeyBytes ≤ size
  | .load offset => offset < size
  | .fwrite offset count => offset + count.toNat ≤ size
  | .memzero n => n.toNat ≤ size
  | .fseek | .rewind | .fflush | .ftruncate _ => True

def IncomingFile.plaintextLength (x : IncomingFile) : ℕ :=
  x.expectedSize - fileCryptoHeaderSize - cryptoBoxMacBytes

def IncomingFile.dataOffset (x : IncomingFile) : ℕ := fileCryptoMetadataSize + x.filename.length

/-- The window of FILE_BEGIN on the announced size. -/
structure IncomingFile.Bounded (x : IncomingFile) : Prop where
  lower : fileCryptoOverhead + x.filename.length ≤ x.expectedSize
  upper : x.expectedSize ≤ fileCryptoOverhead + x.filename.length + filePlaintextMaxSize
  filename : x.filename.length ≤ fileNameMaxLength

/-- `fwrite` takes the file bytes and nothing else. -/
def DecryptOp.Returns (x : IncomingFile) : DecryptOp → Prop
  | .fwrite offset count => offset = fileCryptoHeaderSize + x.dataOffset ∧
    count.toNat = x.plaintextLength - x.dataOffset
  | _ => True

def inRange (x : IncomingFile) : Discipline decryptSig Unit where
  allow _ o := o.InRange x.expectedSize ∧ o.Returns x
  next _ _ _ := ()

section

variable {x : IncomingFile} {α : Type} {Q : Unit → α → Prop}

theorem inRange_call {o : DecryptOp} {k : o.Resp → Prog decryptSig α}
    (ho : o.InRange x.expectedSize) (hr : o.Returns x)
    (hk : ∀ r, (inRange x).follows () (k r) Q) :
    (inRange x).follows () (call (S := decryptSig) o >>= k) Q :=
  Discipline.follows_call ⟨ho, hr⟩ hk

theorem inRange_difference {a b : UInt64} {k : UInt64 → Prog decryptSig α} (hab : b ≤ a)
    (hk : ∀ c, c.toNat = a.toNat - b.toNat → (inRange x).follows () (k c) Q) :
    (inRange x).follows () (difference a b >>= k) Q := by
  rw [difference, Resumption.Prog.bind_assoc]
  exact inRange_call hab trivial fun _ => hk _ (UInt64.toNat_sub_of_le _ _ hab)

theorem inRange_greater {a b : UInt64} {k : Bool → Prog decryptSig α} (hab : a ≤ b)
    (hk : (inRange x).follows () (k false) Q) :
    (inRange x).follows () (greater a b >>= k) Q := by
  rw [greater, Resumption.Prog.bind_assoc]
  refine inRange_call hab trivial fun _ => ?_
  have hnot : decide (b < a) = false := decide_eq_false (UInt64.not_lt.mpr hab)
  rw [hnot]
  exact hk

theorem inRange_error {e : Errno} {R : α → Prop} :
    (inRange x).follows () (pure (.error e) : Prog decryptSig (Except Errno α))
      fun _ answer => ∀ a, answer = .ok a → R a :=
  Discipline.follows_pure fun _ h => by cases h

theorem IncomingFile.Bounded.toNat_expectedSize (h : x.Bounded) :
    (UInt64.ofNat x.expectedSize).toNat = x.expectedSize := by
  have hmax := filePlaintextMaxSize_eq
  have hover := fileCryptoOverhead_eq
  have hname := h.filename
  have hupper := h.upper
  rw [fileNameMaxLength_eq] at hname
  apply UInt64.toNat_ofNat_of_lt'
  rw [show UInt64.size = 18446744073709551616 from rfl]
  omega

theorem IncomingFile.Bounded.toNat_filename (h : x.Bounded) :
    (UInt64.ofNat x.filename.length).toNat = x.filename.length := by
  have hname := h.filename
  rw [fileNameMaxLength_eq] at hname
  apply UInt64.toNat_ofNat_of_lt'
  rw [show UInt64.size = 18446744073709551616 from rfl]
  omega

theorem readMetadata_inRange (h : x.Bounded) {plaintextLength : UInt64}
    (hp : plaintextLength.toNat = x.plaintextLength) :
    (inRange x).follows () (readMetadata x plaintextLength) fun _ answer =>
      ∀ sizes, answer = .ok sizes → sizes.1.toNat = x.dataOffset ∧
        sizes.2.toNat = x.plaintextLength - x.dataOffset := by
  have hname := h.filename
  have hlower := h.lower
  have hmac := cryptoBoxMacBytes_eq
  have hms := fileCryptoMagicSize_eq
  have hhs := fileCryptoHeaderSize_eq
  have hmd := fileCryptoMetadataSize_eq
  have hover := fileCryptoOverhead_eq
  have hmax := fileNameMaxLength_eq
  have h8 : (UInt64.ofNat 8).toNat = 8 := rfl
  have h10 : (UInt64.ofNat 10).toNat = 10 := rfl
  have hlen := h.toNat_filename
  rw [hover] at hlower
  rw [IncomingFile.plaintextLength, hhs, hmac] at hp
  unfold readMetadata IncomingFile.dataOffset IncomingFile.plaintextLength
  rw [hms, hhs, hmd, hmac]
  refine inRange_call ?_ trivial fun high => ?_
  · rw [DecryptOp.InRange]
    omega
  refine inRange_call ?_ trivial fun low => ?_
  · rw [DecryptOp.InRange]
    omega
  refine inRange_call ?_ trivial fun same => ?_
  · rw [DecryptOp.InRange, h8]
    omega
  split
  · exact inRange_error
  split
  · exact inRange_error
  next hfilename =>
  -- from here on the two bytes are the length of the name
  rw [not_not.mp hfilename]
  refine inRange_difference ?_ fun room hroom => ?_
  · rw [UInt64.le_iff_toNat_le, hp, h10]
    omega
  rw [hp, h10] at hroom
  refine inRange_greater ?_ ?_
  · rw [UInt64.le_iff_toNat_le, hroom, hlen]
    omega
  rw [if_neg (by simp)]
  refine inRange_call ?_ trivial fun same => ?_
  · rw [DecryptOp.InRange, hlen]
    omega
  split
  · exact inRange_error
  have hoffset : (UInt64.ofNat 10 + UInt64.ofNat x.filename.length).toNat =
      10 + x.filename.length := by
    rw [UInt64.toNat_add, h10, hlen, Nat.mod_eq_of_lt (by omega)]
  refine inRange_difference ?_ fun n hn => ?_
  · rw [UInt64.le_iff_toNat_le, hp, hoffset]
    omega
  rw [hp, hoffset] at hn
  refine Discipline.follows_pure fun sizes hsizes => ?_
  rw [← Except.ok.inj hsizes]
  exact ⟨hoffset, hn⟩

theorem openBlock_inRange (h : x.Bounded) :
    (inRange x).follows () (openBlock x (.ofNat x.expectedSize)) fun _ answer =>
      ∀ sizes, answer = .ok sizes → sizes.1.toNat = x.dataOffset ∧
        sizes.2.toNat = x.plaintextLength - x.dataOffset := by
  have hsize := h.toNat_expectedSize
  have hlower := h.lower
  have hpk := cryptoBoxPublicKeyBytes_eq
  have hnb := cryptoBoxNonceBytes_eq
  have hmac := cryptoBoxMacBytes_eq
  have hms := fileCryptoMagicSize_eq
  have hhs := fileCryptoHeaderSize_eq
  have hover := fileCryptoOverhead_eq
  have h8 : (UInt64.ofNat 8).toNat = 8 := rfl
  have h16 : (UInt64.ofNat 16).toNat = 16 := rfl
  have h64 : (UInt64.ofNat 64).toNat = 64 := rfl
  rw [hover] at hlower
  unfold openBlock
  rw [hms, hhs, hmac]
  refine inRange_call ?_ trivial fun same => ?_
  · rw [DecryptOp.InRange, h8]
    omega
  split
  · exact inRange_error
  refine inRange_difference ?_ fun c hc => ?_
  · rw [UInt64.le_iff_toNat_le, hsize, h64]
    omega
  rw [hsize, h64] at hc
  refine inRange_call ?_ trivial fun opened => ?_
  · rw [DecryptOp.InRange, hpk, hnb, hmac, hc]
    omega
  split
  · exact inRange_error
  refine inRange_difference ?_ fun p hp => readMetadata_inRange h ?_
  · rw [UInt64.le_iff_toNat_le, hc, h16]
    omega
  · rw [hp, hc, h16, IncomingFile.plaintextLength, hhs, hmac]

theorem writeBack_inRange (h : x.Bounded) {dataOffset fileSize : UInt64}
    (ho : dataOffset.toNat = x.dataOffset)
    (hn : fileSize.toNat = x.plaintextLength - x.dataOffset) :
    (inRange x).follows () (writeBack dataOffset fileSize) fun _ answer =>
      ∀ n, answer = .ok n → n.toNat = x.plaintextLength - x.dataOffset := by
  unfold writeBack
  refine inRange_call trivial trivial fun failure => ?_
  cases failure with
  | some e => exact inRange_error
  | none =>
  refine inRange_call ?_ ⟨by rw [ho], hn⟩ fun written => ?_
  · have hhs := fileCryptoHeaderSize_eq
    have hmd := fileCryptoMetadataSize_eq
    have hover := fileCryptoOverhead_eq
    have hmac := cryptoBoxMacBytes_eq
    have hlower := h.lower
    rw [DecryptOp.InRange, ho, hn, IncomingFile.dataOffset, IncomingFile.plaintextLength]
    omega
  split
  · exact inRange_error
  refine inRange_call trivial trivial fun failure => ?_
  cases failure with
  | some e => exact inRange_error
  | none =>
  refine inRange_call trivial trivial fun failure => ?_
  cases failure with
  | some e => exact inRange_error
  | none =>
  refine Discipline.follows_pure fun n heq => ?_
  rw [← Except.ok.inj heq]
  exact hn

theorem decryptSteps_inRange (h : x.Bounded) :
    (inRange x).follows () (decryptSteps x) fun _ answer =>
      ∀ n, answer = .ok n → n.toNat = x.plaintextLength - x.dataOffset := by
  have hsize := h.toNat_expectedSize
  unfold decryptSteps
  refine inRange_call hsize trivial fun allocated => ?_
  split
  · exact inRange_error
  rw [Discipline.follows_bind]
  refine Discipline.follows_mono (Q := fun _ answer =>
    ∀ n, answer = .ok n → n.toNat = x.plaintextLength - x.dataOffset)
    (fun _ answer hanswer => ?_) ?_
  · exact inRange_call hsize.le trivial fun _ => Discipline.follows_pure hanswer
  unfold decryptBlock
  refine inRange_call trivial trivial fun failure => ?_
  cases failure with
  | some e => exact inRange_error
  | none =>
  refine inRange_call hsize.le trivial fun filled => ?_
  split
  · exact inRange_error
  rw [Discipline.follows_bind]
  refine Discipline.follows_mono (fun _ answer hanswer => ?_) (openBlock_inRange h)
  cases answer with
  | error e => exact inRange_error
  | ok sizes => exact writeBack_inRange h (hanswer sizes rfl).1 (hanswer sizes rfl).2

end

theorem slice_middle {front middle back : Bytes} {k n : ℕ} (h : k + n ≤ middle.length) :
    ((front ++ middle ++ back).drop (front.length + k)).take n = (middle.drop k).take n := by
  rw [List.append_assoc, ← List.drop_drop, List.drop_left, List.drop_append_of_le_length (by omega),
    List.take_append_of_le_length (by rw [List.length_drop]; omega)]

theorem toNat_filenameLength (high low : UInt8) :
    (high.toUInt64 <<< 8 ||| low.toUInt64).toNat = high.toNat * 256 + low.toNat := by
  have hh := high.toNat_lt
  have hl := low.toNat_lt
  rw [UInt64.toNat_or, UInt64.toNat_shiftLeft, UInt8.toNat_toUInt64, UInt8.toNat_toUInt64,
    show (8 : UInt64).toNat % 64 = 8 from rfl, Nat.mod_eq_of_lt, ← Nat.shiftLeft_add_eq_or_of_lt hl,
    Nat.shiftLeft_eq]
  rw [Nat.shiftLeft_eq]
  omega

theorem readU16_drop {bytes : Bytes} {k : ℕ} (h : k + 2 ≤ bytes.length) :
    (readU16 (bytes.drop k)).toNat =
      (bytes.getD k 0).toNat * 256 + (bytes.getD (k + 1) 0).toNat := by
  have htake : (bytes.drop k).take 2 = [bytes.getD k 0, bytes.getD (k + 1) 0] := by
    rw [List.getD_eq_getElem _ _ (by omega), List.getD_eq_getElem _ _ (by omega),
      List.drop_eq_getElem_cons (by omega), List.drop_eq_getElem_cons (by omega)]
    rfl
  have hh := (bytes.getD k 0).toNat_lt
  have hl := (bytes.getD (k + 1) 0).toNat_lt
  have hdecode : BigEndian.decode [bytes.getD k 0, bytes.getD (k + 1) 0] =
      (bytes.getD k 0).toNat * 256 + (bytes.getD (k + 1) 0).toNat := by
    rw [BigEndian.decode_cons, BigEndian.decode_cons]
    simp [BigEndian.decode]
  rw [readU16, htake, hdecode, UInt16.toNat_ofNat', Nat.mod_eq_of_lt (by omega)]

theorem getD_middle {front middle back : Bytes} {k : ℕ} (h : k < middle.length) :
    (front ++ middle ++ back).getD (front.length + k) 0 = middle.getD k 0 := by
  rw [List.append_assoc, List.getD_append_right _ _ _ _ (Nat.le_add_right _ _),
    Nat.add_sub_cancel_left, List.getD_append _ _ _ _ h]

section

open Receiver

variable {x : IncomingFile} {cfg : ReceiverConfig} {env : FileEnv} {f : FileStream}
theorem outcome_difference {α : Type} {a b : UInt64} {k : UInt64 → Prog decryptSig α}
    {s : DecryptState} : (difference a b >>= k).outcome (performDecrypt cfg env f) s =
      (k (a - b)).outcome (performDecrypt cfg env f) s := rfl

theorem outcome_greater {α : Type} {a b : UInt64} {k : Bool → Prog decryptSig α}
    {s : DecryptState} : (greater a b >>= k).outcome (performDecrypt cfg env f) s =
      (k (decide (b < a))).outcome (performDecrypt cfg env f) s := rfl

theorem outcome_memcmp {α : Type} {offset : ℕ} {other : Bytes} {count : UInt64}
    {k : Bool → Prog decryptSig α} {s : DecryptState} :
    (call (S := decryptSig) (.memcmp offset other count) >>= k).outcome
        (performDecrypt cfg env f) s =
      (k ((s.encrypted.drop offset).take count.toNat == other.take count.toNat)).outcome
        (performDecrypt cfg env f) s := rfl

theorem outcome_load {α : Type} {offset : ℕ} {k : UInt8 → Prog decryptSig α} {s : DecryptState} :
    (call (S := decryptSig) (.load offset) >>= k).outcome (performDecrypt cfg env f) s =
      (k (s.encrypted.getD offset 0)).outcome (performDecrypt cfg env f) s := rfl

section

variable {α : Type} {message ciphertext nonce senderKey : ℕ} {length : UInt64}
  {k : Bool → Prog decryptSig α} {s : DecryptState}

theorem outcome_refused
    (h : cfg.box.openEasy ((s.encrypted.drop ciphertext).take length.toNat)
      ((s.encrypted.drop nonce).take cryptoBoxNonceBytes)
      ((s.encrypted.drop senderKey).take cryptoBoxPublicKeyBytes) cfg.privateKey = none) :
    (call (S := decryptSig) (.openEasy message ciphertext length nonce senderKey) >>= k).outcome
        (performDecrypt cfg env f) s = (k false).outcome (performDecrypt cfg env f) s := by
  rw [outcome_call]
  dsimp only [performDecrypt]
  rw [h]

theorem outcome_opened {bytes : Bytes}
    (h : cfg.box.openEasy ((s.encrypted.drop ciphertext).take length.toNat)
      ((s.encrypted.drop nonce).take cryptoBoxNonceBytes)
      ((s.encrypted.drop senderKey).take cryptoBoxPublicKeyBytes) cfg.privateKey = some bytes) :
    (call (S := decryptSig) (.openEasy message ciphertext length nonce senderKey) >>= k).outcome
        (performDecrypt cfg env f) s =
      (k true).outcome (performDecrypt cfg env f) { s with
        encrypted := s.encrypted.take message ++ bytes ++
          s.encrypted.drop (message + bytes.length) } := by
  rw [outcome_call]
  dsimp only [performDecrypt]
  rw [h]

end

/-- The answer of `openBlock` on a block is what `openEnvelope` says of the envelope. -/
def Agrees (block : Bytes) : Except Errno (UInt64 × UInt64) → Except Errno Bytes → Prop
  | .error e, .error e' => e = e'
  | .ok (dataOffset, fileSize), .ok d => fileSize.toNat = d.length ∧
    (block.drop (fileCryptoHeaderSize + dataOffset.toNat)).take fileSize.toNat = d
  | _, _ => False

theorem readMetadata_refines (h : x.Bounded) {front m back : Bytes} {r : Receiver}
    (hfront : front.length = fileCryptoHeaderSize) (hm : m.length = x.plaintextLength)
    {p : UInt64} (hp : p.toNat = x.plaintextLength)
    {out : Except Errno (UInt64 × UInt64) × DecryptState}
    (hout : (readMetadata x p).outcome (performDecrypt cfg env f) ⟨r, front ++ m ++ back⟩ = out) :
    Agrees out.2.encrypted out.1
      (let filenameLength := (readU16 (m.drop fileCryptoMagicSize)).toNat
      if m.take fileCryptoMagicSize ≠ fileCryptoMagic ∨ filenameLength ≠ x.filename.length ∨
          m.length - fileCryptoMetadataSize < filenameLength ∨
          (m.drop fileCryptoMetadataSize).take filenameLength ≠ x.filename then .error .EBADMSG
      else
        let dataOffset := fileCryptoMetadataSize + filenameLength
        .ok ((m.drop dataOffset).take (m.length - dataOffset))) ∧
      out.2.receiver = r := by
  have hlower := h.lower
  have hname := h.filename
  have hms := fileCryptoMagicSize_eq
  have hhs := fileCryptoHeaderSize_eq
  have hmd := fileCryptoMetadataSize_eq
  have hmac := cryptoBoxMacBytes_eq
  have hover := fileCryptoOverhead_eq
  have hmax := fileNameMaxLength_eq
  have h8 : (UInt64.ofNat 8).toNat = 8 := rfl
  have h10 : (UInt64.ofNat 10).toNat = 10 := rfl
  have hfn := h.toNat_filename
  have hmagic : fileCryptoMagic.take 8 = fileCryptoMagic := rfl
  rw [hover] at hlower
  rw [IncomingFile.plaintextLength, hhs, hmac] at hm hp
  -- read back from the buffer, the block is the decrypted message
  have hslice : ∀ k n, k + n ≤ m.length →
      ((front ++ m ++ back).drop (64 + k)).take n = (m.drop k).take n := by
    intro k n hkn
    rw [← hhs, ← hfront]
    exact slice_middle hkn
  have hgetD : ∀ k, k < m.length → (front ++ m ++ back).getD (64 + k) 0 = m.getD k 0 := by
    intro k hk
    rw [← hhs, ← hfront]
    exact getD_middle hk
  unfold readMetadata at hout
  rw [hms, hhs, hmd, outcome_load, outcome_load, outcome_memcmp, add_assoc, hgetD 8 (by omega),
    hgetD (8 + 1) (by omega), h8, hmagic] at hout
  have hstart := hslice 0 8 (by omega)
  rw [add_zero, List.drop_zero] at hstart
  rw [hms, hmd, readU16_drop (by omega), ← toNat_filenameLength]
  generalize (m.getD 8 0).toUInt64 <<< 8 ||| (m.getD (8 + 1) 0).toUInt64 = filenameLength at hout ⊢
  rw [hstart] at hout
  dsimp only
  by_cases hmm : m.take 8 = fileCryptoMagic
  case neg =>
    rw [if_pos (beq_false_of_ne hmm), outcome_pure] at hout
    rw [if_pos (.inl hmm), ← hout]
    exact ⟨rfl, rfl⟩
  rw [if_neg (by simp [hmm])] at hout
  by_cases hlen : filenameLength = .ofNat x.filename.length
  case neg =>
    have hne : filenameLength.toNat ≠ x.filename.length := by
      rw [← hfn]
      exact fun heq => hlen (UInt64.toNat_inj.mp heq)
    rw [if_pos hlen, outcome_pure] at hout
    rw [if_pos (.inr (.inl hne)), ← hout]
    exact ⟨rfl, rfl⟩
  rw [if_neg (not_not.mpr hlen), hlen, outcome_difference, outcome_greater] at hout
  rw [hlen, hfn]
  have hroom : (p - UInt64.ofNat 10).toNat = m.length - 10 := by
    rw [UInt64.toNat_sub_of_le, hp, h10, hm]
    rw [UInt64.le_iff_toNat_le, hp, h10]
    omega
  -- the length has just been found equal, so the third test never fires
  have hquiet : ¬p - UInt64.ofNat 10 < UInt64.ofNat x.filename.length := by
    rw [UInt64.lt_iff_toNat_lt, hroom, hfn]
    omega
  rw [decide_eq_false hquiet, if_neg (by simp), outcome_memcmp, hfn, List.take_length,
    hslice 10 _ (by omega)] at hout
  by_cases hnm : (m.drop 10).take x.filename.length = x.filename
  case neg =>
    rw [if_pos (beq_false_of_ne hnm), outcome_pure] at hout
    rw [if_pos (.inr (.inr (.inr hnm))), ← hout]
    exact ⟨rfl, rfl⟩
  have hoffset : (UInt64.ofNat 10 + UInt64.ofNat x.filename.length).toNat =
      10 + x.filename.length := by
    rw [UInt64.toNat_add, h10, hfn, Nat.mod_eq_of_lt (by omega)]
  have hfile : (p - (UInt64.ofNat 10 + UInt64.ofNat x.filename.length)).toNat =
      m.length - (10 + x.filename.length) := by
    rw [UInt64.toNat_sub_of_le, hp, hoffset, hm]
    rw [UInt64.le_iff_toNat_le, hp, hoffset]
    omega
  rw [if_neg (by simp [hnm]), outcome_difference, outcome_pure] at hout
  rw [if_neg (by simp only [hmm, hnm, ne_eq, not_true_eq_false, false_or, or_false]; omega), ← hout]
  refine ⟨⟨?_, ?_⟩, rfl⟩
  · rw [hfile, List.length_take, List.length_drop, min_self]
  · rw [hhs, hoffset, hfile, hslice _ _ (by omega)]

theorem openBlock_refines (h : x.Bounded) {s : DecryptState}
    (hlen : s.encrypted.length = x.expectedSize)
    {out : Except Errno (UInt64 × UInt64) × DecryptState}
    (hout : (openBlock x (.ofNat x.expectedSize)).outcome (performDecrypt cfg env f) s = out) :
    Agrees out.2.encrypted out.1 (openEnvelope cfg x.filename s.encrypted) ∧
      out.2.receiver = s.receiver := by
  have hsize := h.toNat_expectedSize
  have hlower := h.lower
  have hpk := cryptoBoxPublicKeyBytes_eq
  have hmac := cryptoBoxMacBytes_eq
  have hms := fileCryptoMagicSize_eq
  have hhs := fileCryptoHeaderSize_eq
  have hover := fileCryptoOverhead_eq
  have h8 : (UInt64.ofNat 8).toNat = 8 := rfl
  have h16 : (UInt64.ofNat 16).toNat = 16 := rfl
  have h64 : (UInt64.ofNat 64).toNat = 64 := rfl
  have hmagic : fileCryptoMagic.take 8 = fileCryptoMagic := rfl
  obtain ⟨r, e⟩ := s
  dsimp only at hlen ⊢
  rw [hover] at hlower
  unfold openBlock at hout
  rw [hms, hhs, hmac, hpk, outcome_memcmp, h8, hmagic, List.drop_zero] at hout
  unfold openEnvelope
  -- the magic is compared before anything is decrypted
  by_cases hm : e.take fileCryptoMagicSize = fileCryptoMagic
  case neg =>
    rw [hms] at hm
    rw [if_pos (beq_false_of_ne hm), outcome_pure] at hout
    rw [if_pos (by rwa [hms]), ← hout]
    exact ⟨rfl, rfl⟩
  rw [if_neg (not_not.mpr hm)]
  rw [hms] at hm
  rw [if_neg (by simp [hm]), outcome_difference] at hout
  have hc : (UInt64.ofNat x.expectedSize - UInt64.ofNat 64).toNat = x.expectedSize - 64 := by
    rw [UInt64.toNat_sub_of_le, hsize, h64]
    rw [UInt64.le_iff_toNat_le, hsize, h64]
    omega
  generalize UInt64.ofNat x.expectedSize - UInt64.ofNat 64 = c at hout hc
  have hbox : (e.drop 64).take c.toNat = e.drop 64 := by
    rw [hc, List.take_of_length_le (by rw [List.length_drop]; omega)]
  have hp : (c - UInt64.ofNat 16).toNat = x.plaintextLength := by
    rw [UInt64.toNat_sub_of_le, hc, h16, IncomingFile.plaintextLength, hhs, hmac]
    rw [UInt64.le_iff_toNat_le, hc, h16]
    omega
  dsimp only
  rw [hms, hhs, hpk]
  cases hopen : cfg.box.openEasy (e.drop 64) ((e.drop (8 + 32)).take cryptoBoxNonceBytes)
      ((e.drop 8).take 32) cfg.privateKey with
  | none =>
    rw [outcome_refused (by rw [hbox, hpk, hopen]), if_pos rfl, outcome_pure] at hout
    rw [← hout]
    exact ⟨rfl, rfl⟩
  | some m =>
    have hlength := cfg.box.openEasy_length _ _ _ _ _ hopen
    rw [outcome_opened (by rw [hbox, hpk, hopen]), if_neg (by simp), outcome_difference] at hout
    dsimp only at hout
    have hm : m.length = x.plaintextLength := by
      rw [IncomingFile.plaintextLength, hhs, ← hlen, ← List.length_drop, hlength,
        Nat.add_sub_cancel]
    have hrest := readMetadata_refines h (by rw [hhs, List.length_take]; omega) hm hp hout
    rw [hlength, Nat.add_sub_cancel]
    exact hrest

theorem outcome_fwrite {α : Type} {offset : ℕ} {count : UInt64} {k : Bool → Prog decryptSig α}
    {s : DecryptState} {bytes : Bytes} (h : (s.encrypted.drop offset).take count.toNat = bytes) :
    (call (S := decryptSig) (.fwrite offset count) >>= k).outcome (performDecrypt cfg env f) s =
      (k (decide (bytes.length ≤ env.rewrite.getD bytes.length))).outcome (performDecrypt cfg env f)
        { s with receiver := (s.receiver.fwrite { f with offset := 0 } bytes
          (env.rewrite.getD bytes.length)).1 } := by
  rw [← h]
  rfl

theorem outcome_malloc {α : Type} {size : UInt64} {k : Bool → Prog decryptSig α}
    {s : DecryptState} :
    (call (S := decryptSig) (.malloc size) >>= k).outcome (performDecrypt cfg env f) s =
      if env.malloc = false then (k false).outcome (performDecrypt cfg env f) s
      else (k true).outcome (performDecrypt cfg env f)
        { s with encrypted := List.replicate size.toNat 0 } := by
  rw [outcome_call]
  dsimp only [performDecrypt]
  split <;> rfl

theorem outcome_fread {α : Type} {count : UInt64} {k : Bool → Prog decryptSig α}
    {s : DecryptState} {bytes : Bytes}
    (h : (s.receiver.store.data f.inode).take count.toNat = bytes) :
    (call (S := decryptSig) (.fread count) >>= k).outcome (performDecrypt cfg env f) s =
      if env.fread = false ∨ bytes.length ≠ count.toNat then
        (k false).outcome (performDecrypt cfg env f) s
      else (k true).outcome (performDecrypt cfg env f)
        { s with encrypted := bytes ++ s.encrypted.drop count.toNat } := by
  rw [← h, outcome_call]
  dsimp only [performDecrypt]
  split <;> rfl

theorem writeBack_refines {s : DecryptState} {dataOffset fileSize : UInt64} {d : Bytes}
    (hn : fileSize.toNat = d.length)
    (hd : (s.encrypted.drop (fileCryptoHeaderSize + dataOffset.toNat)).take fileSize.toNat = d)
    {out : Except Errno UInt64 × DecryptState}
    (hout : (writeBack dataOffset fileSize).outcome (performDecrypt cfg env f) s = out) :
    (match env.rewind with
      | some e => (.error e, s.receiver)
      | none =>
        let f := { f with offset := 0 }
        let count := env.rewrite.getD d.length
        let r := (s.receiver.fwrite f d count).1
        if count < d.length then (.error Errno.EIO, r)
        else
          match env.fflush with
          | some e => (.error e, r)
          | none =>
            match env.ftruncate with
            | some e => (.error e, r)
            | none =>
              let content := (r.store.data f.inode).take d.length
              (.ok d.length, { r with store := r.store.write f.inode content })) =
      (out.1.map UInt64.toNat, out.2.receiver) := by
  unfold writeBack at hout
  rw [outcome_call] at hout
  dsimp only [performDecrypt] at hout
  cases hrewind : env.rewind with
  | some e =>
    rw [hrewind] at hout
    rw [← hout]
    rfl
  | none =>
  rw [hrewind] at hout
  dsimp only at hout ⊢
  rw [outcome_fwrite hd] at hout
  by_cases hcount : env.rewrite.getD d.length < d.length
  -- a short write is an error, whatever was written
  · rw [if_pos (decide_eq_false (by omega)), outcome_pure] at hout
    rw [if_pos hcount, ← hout]
    rfl
  rw [if_neg (by simp; omega), outcome_call] at hout
  rw [if_neg hcount]
  dsimp only [performDecrypt] at hout
  cases hfflush : env.fflush with
  | some e =>
    rw [hfflush] at hout
    rw [← hout]
    rfl
  | none =>
  rw [hfflush] at hout
  dsimp only at hout ⊢
  rw [outcome_call] at hout
  dsimp only [performDecrypt] at hout
  cases htruncate : env.ftruncate with
  | some e =>
    rw [htruncate] at hout
    rw [← hout]
    rfl
  | none =>
    rw [htruncate] at hout
    dsimp only at hout ⊢
    rw [outcome_pure, hn] at hout
    rw [← hout]
    dsimp only [Except.map]
    rw [hn]

theorem decryptReceivedFile_run (h : x.Bounded) (r : Receiver) :
    r.decryptReceivedFile cfg env x f =
      ((runDecrypt r cfg env x f).1.map UInt64.toNat, (runDecrypt r cfg env x f).2.1.receiver) := by
  have hsize := h.toNat_expectedSize
  obtain ⟨out, hout⟩ : ∃ out,
      (decryptSteps x).outcome (performDecrypt cfg env f) (DecryptState.mk r []) = out := ⟨_, rfl⟩
  change _ = (((decryptSteps x).outcome (performDecrypt cfg env f) _).1.map UInt64.toNat,
    ((decryptSteps x).outcome (performDecrypt cfg env f) _).2.receiver)
  rw [hout]
  unfold decryptSteps at hout
  unfold decryptReceivedFile
  rw [outcome_malloc, hsize] at hout
  split
  · next hmalloc =>
    rw [if_pos hmalloc, if_pos rfl, outcome_pure] at hout
    rw [← hout]
    rfl
  next hmalloc =>
  rw [if_neg hmalloc, if_neg (by simp), outcome_bind, outcome_call, outcome_pure] at hout
  dsimp only [performDecrypt] at hout
  -- the cleanup keeps the answer and the files
  generalize hblock : (decryptBlock x (.ofNat x.expectedSize)).outcome (performDecrypt cfg env f)
    { receiver := r, encrypted := List.replicate x.expectedSize 0 } = block at hout
  rw [← hout]
  dsimp only
  clear hout out
  unfold decryptBlock at hblock
  rw [outcome_call] at hblock
  dsimp only [performDecrypt] at hblock
  cases hfseek : env.fseek with
  | some e =>
    rw [hfseek] at hblock
    rw [← hblock]
    rfl
  | none =>
  rw [hfseek] at hblock
  dsimp only at hblock ⊢
  rw [outcome_fread rfl, hsize] at hblock
  generalize (r.store.data f.inode).take x.expectedSize = e at hblock ⊢
  by_cases hfread : env.fread = false ∨ e.length ≠ x.expectedSize
  · rw [if_pos hfread, if_pos rfl, outcome_pure] at hblock
    rw [if_pos hfread, ← hblock]
    rfl
  rw [if_neg hfread, if_neg (by simp), outcome_bind, List.drop_of_length_le (by simp),
    List.append_nil] at hblock
  rw [if_neg hfread]
  have hlen : e.length = x.expectedSize := by
    by_contra hne
    exact hfread (.inr hne)
  generalize hopened : (openBlock x (.ofNat x.expectedSize)).outcome (performDecrypt cfg env f)
    { receiver := r, encrypted := e } = opened at hblock
  obtain ⟨hagrees, hreceiver⟩ := openBlock_refines h hlen hopened
  obtain ⟨answer, s⟩ := opened
  dsimp only at hagrees hreceiver hblock
  cases answer with
  | error e' =>
    cases henvelope : openEnvelope cfg x.filename e with
    | error e'' =>
      rw [henvelope] at hagrees
      obtain rfl : e' = e'' := hagrees
      rw [outcome_pure] at hblock
      rw [← hblock, ← hreceiver]
      rfl
    | ok d =>
      rw [henvelope] at hagrees
      exact hagrees.elim
  | ok sizes =>
    cases henvelope : openEnvelope cfg x.filename e with
    | error e'' =>
      rw [henvelope] at hagrees
      exact hagrees.elim
    | ok d =>
      rw [henvelope] at hagrees
      have hwritten := writeBack_refines hagrees.1 hagrees.2 hblock
      rw [hreceiver] at hwritten
      exact hwritten

end

section

open Receiver

variable {x : IncomingFile} {cfg : ReceiverConfig} {env env' : FileEnv} {r r' : Receiver}
  {i : Fin maxIncomingFiles} {frame : Bytes} {b : FileBeginFrame} {f : FileStream}

theorem receiveFileBegin_ok (h : r.receiveFileBegin cfg env frame = (.ok (), r')) :
    ∃ i b, decodeBegin frame = some b ∧ r.Stages cfg env b ∧
      (r'.incomingFiles i).active = true ∧ (r'.incomingFiles i).transferId = b.transferId ∧
      (r'.incomingFiles i).expectedSize = b.fileSize.toNat ∧
      (r'.incomingFiles i).filename = b.filename := by
  have hhead : frame.head? = some FrameType.fileBegin.toByte := by
    cases hb : decodeBegin frame with
    | none =>
      rw [receiveFileBegin, hb] at h
      cases h
    | some b => exact (decodeBegin_some hb).1
  have hcontrol : ∀ {type o}, type.toByte ≠ FrameType.fileBegin.toByte →
      decodeControl frame type ≠ .ok o := by
    intro type o htype hc
    rw [(decodeControl_ok hc).1] at hhead
    exact htype (Option.some.inj hhead)
  cases receiveFileBegin_step h with
  | ignored hc => exact absurd hc (hcontrol (by decide))
  | @begun path i b hb hst _ _ _ _ =>
    refine ⟨i, b, hb, hst, ?_⟩
    rw [set_incomingFiles, Function.update_self]
    exact ⟨rfl, rfl, rfl, rfl⟩
  | appended hc _ _ _ =>
    have hchunk := (decodeChunk_some hc).1
    rw [hhead] at hchunk
    exact absurd (Option.some.inj hchunk) (by decide)
  | discarded _ _ _ hne _ _ => exact absurd hhead hne
  | saved _ hc _ _ _ _ _ => exact absurd hc (hcontrol (by decide))

theorem Receiver.Stages.bounded (h : r.Stages cfg env b) (hb : decodeBegin frame = some b)
    (hsize : x.expectedSize = b.fileSize.toNat) (hname : x.filename = b.filename) : x.Bounded where
  lower := by
    rw [hsize, hname]
    exact h.lower
  upper := by
    rw [hsize, hname]
    exact h.upper
  filename := by
    rw [hname]
    exact (validFilename_iff.mp (decodeBegin_some hb).2.2.2).2.1

theorem IncomingFile.Bounded.written (h : x.Bounded) : x.dataOffset ≤ x.plaintextLength ∧
    x.plaintextLength - x.dataOffset = x.expectedSize - fileCryptoOverhead - x.filename.length ∧
    x.plaintextLength - x.dataOffset ≤ filePlaintextMaxSize := by
  have hhs := fileCryptoHeaderSize_eq
  have hmd := fileCryptoMetadataSize_eq
  have hover := fileCryptoOverhead_eq
  have hmac := cryptoBoxMacBytes_eq
  have hlower := h.lower
  have hupper := h.upper
  rw [IncomingFile.dataOffset, IncomingFile.plaintextLength]
  omega

theorem accepts_inRange {xs : List ((o : DecryptOp) × o.Resp)} :
    (inRange x).Accepts () xs ↔ ∀ o ∈ xs, o.1.InRange x.expectedSize ∧ o.1.Returns x := by
  induction xs with
  | nil => exact ⟨fun _ _ ho => (by cases ho), fun _ => trivial⟩
  | cons o xs ih =>
    rw [List.forall_mem_cons, ← ih]
    rfl

theorem decryptReceivedFile_ok {n : ℕ}
    (h : r.decryptReceivedFile cfg env x f = (.ok n, r')) : (r'.store.data f.inode).length = n := by
  unfold decryptReceivedFile at h
  dsimp only at h
  split at h
  · cases h
  split at h
  · cases h
  split at h
  · cases h
  split at h
  · cases h
  next d _ =>
  split at h
  · cases h
  split at h
  · cases h
  next hcount =>
  split at h
  · cases h
  split at h
  · cases h
  cases h
  simp only [Receiver.fwrite, FileStore.write_data, Function.update_self, List.length_take,
    List.length_append, List.length_drop]
  omega

theorem runDecrypt_inRange (hx : x.Bounded) (s : Receiver) :
    (∀ o ∈ (runDecrypt s cfg env x f).2.2, o.1.InRange x.expectedSize ∧ o.1.Returns x) ∧
      ∀ n, (runDecrypt s cfg env x f).1 = .ok n → n.toNat = x.plaintextLength - x.dataOffset := by
  have hfollows : (inRange x).Accepts () (runDecrypt s cfg env x f).2.2 ∧
      ∀ n, (runDecrypt s cfg env x f).1 = .ok n → n.toNat = x.plaintextLength - x.dataOffset :=
    Discipline.follows_run (decryptSteps_inRange hx)
  rw [accepts_inRange] at hfollows
  exact hfollows

/-- After an accepted BEGIN the sizes of `decrypt_received_file` fit, whatever was staged,
whatever the box opens to and however the calls answer. -/
theorem decryption_in_range (hb : decodeBegin frame = some b)
    (hok : (r.receiveFileBegin cfg env frame).1 = .ok ())
    (hsize : x.expectedSize = b.fileSize.toNat) (hname : x.filename = b.filename)
    (s : Receiver) (env' : FileEnv) (f : FileStream) :
    let run := runDecrypt s cfg env' x f
    let written := x.expectedSize - fileCryptoOverhead - x.filename.length
    (∀ o ∈ run.2.2, o.1.InRange x.expectedSize) ∧ x.dataOffset ≤ x.plaintextLength ∧
      (∀ o ∈ run.2.2, ∀ offset count, o.1 = .fwrite offset count →
        offset = fileCryptoHeaderSize + x.dataOffset ∧ count.toNat = written) ∧
      written ≤ filePlaintextMaxSize ∧
      s.decryptReceivedFile cfg env' x f = (run.1.map UInt64.toNat, run.2.1.receiver) ∧
      ∀ n, run.1 = .ok n → n.toNat = written ∧
        (run.2.1.receiver.store.data f.inode).length = written := by
  obtain ⟨i, b', hb', hst, -⟩ := receiveFileBegin_ok (Prod.ext hok rfl)
  obtain rfl := Option.some.inj (hb.symm.trans hb')
  have hx := hst.bounded hb hsize hname
  obtain ⟨hoffset, hwritten, hmax⟩ := hx.written
  obtain ⟨hops, hanswer⟩ := runDecrypt_inRange (f := f) hx s
  have hrun : s.decryptReceivedFile cfg env' x f =
      ((runDecrypt s cfg env' x f).1.map UInt64.toNat, (runDecrypt s cfg env' x f).2.1.receiver) :=
    decryptReceivedFile_run hx s
  rw [hwritten] at hanswer hmax
  refine ⟨fun o ho => (hops o ho).1, hoffset, fun o ho offset count heq => ?_, hmax, hrun, ?_⟩
  · have hreturns := (hops o ho).2
    rw [heq] at hreturns
    rw [← hwritten]
    exact hreturns
  · intro n hn
    refine ⟨hanswer n hn, ?_⟩
    rw [hn] at hrun
    rw [← hanswer n hn]
    exact decryptReceivedFile_ok hrun

/-- Slot 0 of the sample, and its file. -/
theorem decryption_in_range_sample :
    (runDecrypt sampleStaged bobConfig {} { expectedSize := 93, filename := ascii "a" }
      ⟨0, 93⟩).1 = .ok 2 ∧
    ∀ o ∈ (runDecrypt sampleStaged bobConfig {} { expectedSize := 93, filename := ascii "a" }
      ⟨0, 93⟩).2.2, o.1.InRange 93 := by
  have hb : decodeBegin sampleBegin = some ⟨1, 93, ascii "alice", ascii "a"⟩ := by decide +kernel
  have hok : ((start emptyStore).receiveFileBegin bobConfig {} sampleBegin).1 = .ok () := by
    decide +kernel
  refine ⟨by decide +kernel, ?_⟩
  exact (decryption_in_range (x := { expectedSize := 93, filename := ascii "a" }) hb hok rfl rfl
    sampleStaged {} ⟨0, 93⟩).1

end

end CipherChat
