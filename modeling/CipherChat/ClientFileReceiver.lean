import CipherChat.FileProtocol
import CipherChat.Lib.FileStore
import CipherChat.Lib.Slots

/-!
# Incoming files

`client_file_receiver.c`.  A transfer is staged as ciphertext in a temporary file
of the download directory; FILE_END decrypts it in place and links the result to
its final name.  The file-system calls answer as `FileEnv` says, one record for
each frame handled; a call that succeeds does what it does on `FileStore`.
-/

namespace CipherChat

def downloadDirectory : Bytes := ascii "downloads"
def downloadPathLimit : ℕ := 4096
def maxIncomingFiles : ℕ := 16

def cryptoBoxPublicKeyBytes : ℕ := 32
def cryptoBoxNonceBytes : ℕ := 24
def cryptoBoxMacBytes : ℕ := 16

theorem cryptoBoxPublicKeyBytes_eq : cryptoBoxPublicKeyBytes = 32 := rfl

theorem cryptoBoxNonceBytes_eq : cryptoBoxNonceBytes = 24 := rfl

theorem cryptoBoxMacBytes_eq : cryptoBoxMacBytes = 16 := rfl

def fileCryptoMagic : Bytes := ascii "CCFILE01"
def fileCryptoMagicSize : ℕ := 8
def filePlaintextMaxSize : ℕ := 16 * 1024 * 1024
def fileCryptoHeaderSize : ℕ := fileCryptoMagicSize + cryptoBoxPublicKeyBytes + cryptoBoxNonceBytes
def fileCryptoMetadataSize : ℕ := fileCryptoMagicSize + 2
def fileCryptoOverhead : ℕ := fileCryptoHeaderSize + cryptoBoxMacBytes + fileCryptoMetadataSize

theorem fileCryptoMagicSize_eq : fileCryptoMagicSize = 8 := rfl

theorem filePlaintextMaxSize_eq : filePlaintextMaxSize = 16777216 := rfl

theorem fileCryptoHeaderSize_eq : fileCryptoHeaderSize = 64 := rfl

theorem fileCryptoMetadataSize_eq : fileCryptoMetadataSize = 10 := rfl

theorem fileCryptoOverhead_eq : fileCryptoOverhead = 90 := rfl

/-- libsodium's `crypto_box`: message, nonce, the peer's public key, the own
private key.  An opened box is 16 bytes longer than its message. -/
structure CryptoBox where
  easy : Bytes → Bytes → Bytes → Bytes → Option Bytes
  openEasy : Bytes → Bytes → Bytes → Bytes → Option Bytes
  openEasy_length : ∀ box nonce publicKey privateKey message,
    openEasy box nonce publicKey privateKey = some message →
      box.length = message.length + cryptoBoxMacBytes

/-- What stays fixed while a client runs. -/
structure ReceiverConfig where
  directory : Bytes
  pid : Fin (2 ^ 31)
  box : CryptoBox
  privateKey : Bytes

/-- A `FILE *` on a file of the store. -/
structure FileStream where
  inode : ℕ
  offset : ℕ
  deriving DecidableEq, Repr

/-- `IncomingFile`.  Strings are their bytes before the NUL; `{}` is a zeroed slot. -/
structure IncomingFile where
  active : Bool := false
  transferId : UInt32 := 0
  expectedSize : ℕ := 0
  receivedSize : ℕ := 0
  sender : Bytes := []
  filename : Bytes := []
  file : Option FileStream := none
  tempPath : Bytes := []
  finalPath : Bytes := []
  deriving DecidableEq, Repr

/-- The history of the calls that make and remove names: `mkstemp` with the file
it made, `unlink` with the file its path named and whether it succeeded. -/
inductive FileCall
  | mkstemp (path : Bytes) (inode : ℕ)
  | unlink (path : Bytes) (named : Option ℕ) (removed : Bool)
  deriving DecidableEq, Repr

/-- What `mkstemp` puts in place of the six X; a failing call may leave them. -/
abbrev MkstempSuffix := { s : Bytes // s.length = 6 ∧ (47 : UInt8) ∉ s ∧ (0 : UInt8) ∉ s }

theorem mkstempSuffix_default : (List.replicate 6 (88 : UInt8)).length = 6 ∧
    (47 : UInt8) ∉ List.replicate 6 (88 : UInt8) ∧ (0 : UInt8) ∉ List.replicate 6 (88 : UInt8) := by
  decide

/-- The answers of the system calls while one frame is handled.  `none` stands
for success; `fwrite` and `rewrite` fail after a number of bytes. -/
structure FileEnv where
  mkdir : Option Errno := some .EEXIST
  stat : Option Errno := none
  isDirectory : Bool := true
  lstat : Option Errno := none
  suffix : MkstempSuffix := ⟨List.replicate 6 88, mkstempSuffix_default⟩
  mkstemp : Option Errno := none
  fdopen : Option Errno := none
  fwrite : Option (ℕ × Option Errno) := none
  malloc : Bool := true
  fseek : Option Errno := none
  fread : Bool := true
  rewind : Option Errno := none
  rewrite : Option ℕ := none
  fflush : Option Errno := none
  ftruncate : Option Errno := none
  fclose : Option (Option Errno) := none
  link : Option Errno := none
  unlink : Option Errno := none

/-- The static table, the file system and the history. -/
structure Receiver where
  incomingFiles : Fin maxIncomingFiles → IncomingFile
  store : FileStore Bytes UInt8
  calls : List FileCall

namespace Receiver

/-- The empty directory. -/
def emptyStore : FileStore Bytes UInt8 where
  entry _ := none
  data _ := []
  next := 0
  bounded _ _ h := by cases h

/-- A client that has just started over a given file system. -/
def start (store : FileStore Bytes UInt8) : Receiver where
  incomingFiles _ := {}
  store := store
  calls := []

def set (r : Receiver) (i : Fin maxIncomingFiles) (x : IncomingFile) : Receiver :=
  { r with incomingFiles := Function.update r.incomingFiles i x }

/-- `unlink(path)`. -/
def unlink (r : Receiver) (failure : Option Errno) (path : Bytes) : Receiver :=
  match failure, r.store.entry path with
  | none, some i =>
    { r with
      store := r.store.unlink path
      calls := r.calls ++ [.unlink path (some i) true] }
  | _, named => { r with calls := r.calls ++ [.unlink path named false] }

/-- `link(old, new)`: fails when `new` exists or `old` does not. -/
def link (r : Receiver) (failure : Option Errno) (old new : Bytes) : Except Errno Unit × Receiver :=
  match failure with
  | some e => (.error e, r)
  | none =>
    match h : r.store.entry old with
    | none => (.error .ENOENT, r)
    | some i =>
      if (r.store.entry new).isSome then (.error .EEXIST, r)
      else (.ok (), { r with store := r.store.link i (r.store.bounded old i h) new })

def findIncomingFile (r : Receiver) (transferId : UInt32) : Option (Fin maxIncomingFiles) :=
  Fin.find? fun i => (r.incomingFiles i).active && (r.incomingFiles i).transferId == transferId

def createIncomingFile (r : Receiver) (transferId : UInt32) :
    Except Errno (Fin maxIncomingFiles) × Receiver :=
  match r.findIncomingFile transferId with
  | some _ => (.error .EEXIST, r)
  | none =>
    match Fin.find? fun i => !(r.incomingFiles i).active with
    | some i => (.ok i, r.set i { active := true, transferId })
    | none => (.error .ENOSPC, r)

/-- `discard_incoming_file`.  Closing the stream has no effect on the names. -/
def discardIncomingFile (r : Receiver) (unlinked : Option Errno) (i : Fin maxIncomingFiles) :
    Receiver :=
  if (r.incomingFiles i).tempPath ≠ [] then
    (r.unlink unlinked (r.incomingFiles i).tempPath).set i {}
  else r.set i {}

/-- `cleanup_incoming_files`; `unlinked i` answers the `unlink` of slot `i`. -/
def cleanupIncomingFiles (r : Receiver) (unlinked : Fin maxIncomingFiles → Option Errno) :
    Receiver :=
  (List.finRange maxIncomingFiles).foldl (fun r i =>
    if (r.incomingFiles i).active then r.discardIncomingFile (unlinked i) i else r) r

end Receiver

def ensureDownloadDirectory (env : FileEnv) (directory : Bytes) : Except Errno Unit :=
  if directory = [] then .error .EINVAL
  else
    match env.mkdir with
    | none => .ok ()
    | some e =>
      if e ≠ .EEXIST then .error e
      else
        match env.stat with
        | some e => .error e
        | none => if env.isDirectory then .ok () else .error .ENOTDIR

def buildPath (destinationSize : ℕ) (directory filename : Bytes) : Except Errno Bytes :=
  if destinationSize ≤ (directory ++ 47 :: filename).length then .error .ENAMETOOLONG
  else .ok (directory ++ 47 :: filename)

/-- `"%s/.cipher-chat-%ld-%u-"`: the template for `mkstemp` without its six X. -/
def ReceiverConfig.tempStem (cfg : ReceiverConfig) (transferId : UInt32) : Bytes :=
  cfg.directory ++ 47 :: (ascii ".cipher-chat-" ++ (ascii (Nat.repr cfg.pid) ++ 45 ::
    (ascii (Nat.repr transferId.toNat) ++ [45])))

/-- The template for `mkstemp`. -/
def ReceiverConfig.template (cfg : ReceiverConfig) (transferId : UInt32) : Bytes :=
  cfg.tempStem transferId ++ ascii "XXXXXX"

namespace Receiver

/-- `lstat(path)` succeeds when the path names something. -/
def lstat (r : Receiver) (env : FileEnv) (path : Bytes) : Except Errno Unit :=
  match env.lstat with
  | some e => .error e
  | none => if (r.store.entry path).isSome then .ok () else .error .ENOENT

/-- `mkstemp(template)`: the rewritten buffer, and the descriptor's file. -/
def mkstemp (r : Receiver) (env : FileEnv) (template : Bytes) : Except Errno ℕ × Bytes × Receiver :=
  let path := template.take (template.length - 6) ++ env.suffix.val
  match env.mkstemp with
  | some e => (.error e, path, r)
  | none =>
    if (r.store.entry path).isSome then (.error .EEXIST, path, r)
    else (.ok r.store.next, path, { r with
      store := r.store.create path
      calls := r.calls ++ [.mkstemp path r.store.next] })

/-- `receive_file_begin`, from the `snprintf` of the template on, in the claimed slot `i`. -/
def stageIncomingFile (r : Receiver) (cfg : ReceiverConfig) (env : FileEnv)
    (i : Fin maxIncomingFiles) (transferId : UInt32) : Except Errno Unit × Receiver :=
  let x := r.incomingFiles i
  let template := cfg.template transferId
  if downloadPathLimit ≤ template.length then
    -- `snprintf` left as much of the template as fits
    (.error .ENAMETOOLONG,
      (r.set i { x with tempPath := template.take (downloadPathLimit - 1) }).discardIncomingFile
        env.unlink i)
  else
    match r.mkstemp env template with
    | (.error e, tempPath, r) =>
      (.error e, (r.set i { x with tempPath }).discardIncomingFile env.unlink i)
    | (.ok inode, tempPath, r) =>
      match env.fdopen with
      | some e => (.error e, (r.set i { x with tempPath }).discardIncomingFile env.unlink i)
      | none => (.ok (), r.set i { x with tempPath, file := some { inode, offset := 0 } })

def receiveFileBegin (r : Receiver) (cfg : ReceiverConfig) (env : FileEnv) (frame : Bytes) :
    Except Errno Unit × Receiver :=
  match decodeBegin frame with
  | none => (.error .EPROTO, r)
  | some decoded =>
    let overhead := fileCryptoOverhead + decoded.filename.length
    if decoded.fileSize.toNat < overhead ∨
        filePlaintextMaxSize < decoded.fileSize.toNat - overhead then (.error .EMSGSIZE, r)
    else
      match ensureDownloadDirectory env cfg.directory with
      | .error e => (.error e, r)
      | .ok () =>
        match r.createIncomingFile decoded.transferId with
        | (.error e, r) => (.error e, r)
        | (.ok i, r) =>
          let x := { r.incomingFiles i with
            sender := decoded.peer
            filename := decoded.filename
            expectedSize := decoded.fileSize.toNat }
          match buildPath downloadPathLimit cfg.directory decoded.filename with
          | .error e => (.error e, (r.set i x).discardIncomingFile env.unlink i)
          | .ok finalPath =>
            let r := r.set i { x with finalPath }
            match r.lstat env finalPath with
            | .ok () => (.error .EEXIST, r.discardIncomingFile env.unlink i)
            | .error e =>
              if e ≠ .ENOENT then (.error e, r.discardIncomingFile env.unlink i)
              else r.stageIncomingFile cfg env i decoded.transferId

/-- `fwrite` of `bytes` through a stream, of which `count` get written. -/
def fwrite (r : Receiver) (f : FileStream) (bytes : Bytes) (count : ℕ) : Receiver × FileStream :=
  let content := r.store.data f.inode
  let written := bytes.take count
  let content := content.take f.offset ++ written ++ content.drop (f.offset + written.length)
  ({ r with store := r.store.write f.inode content },
    { f with offset := f.offset + written.length })

def receiveFileChunk (r : Receiver) (env : FileEnv) (frame : Bytes) :
    Except Errno Unit × Receiver :=
  match decodeChunk frame with
  | none => (.error .EPROTO, r)
  | some decoded =>
    match r.findIncomingFile decoded.transferId with
    | none => (.error .ENOENT, r)
    | some i =>
      let x := r.incomingFiles i
      if x.expectedSize < x.receivedSize ∨
          x.expectedSize - x.receivedSize < decoded.data.length then
        (.error .EFBIG, r.discardIncomingFile env.unlink i)
      else
        match x.file with
        -- an active slot has its stream; `fwrite` on a null stream is undefined
        | none => (.error .EBADF, r)
        | some f =>
          match env.fwrite with
          | some (count, e) =>
            if count < decoded.data.length then
              (.error (e.getD Errno.EIO),
                (r.fwrite f decoded.data count).1.discardIncomingFile env.unlink i)
            else
              let (r, f) := r.fwrite f decoded.data decoded.data.length
              (.ok (), r.set i
                { x with file := some f, receivedSize := x.receivedSize + decoded.data.length })
          | none =>
            let (r, f) := r.fwrite f decoded.data decoded.data.length
            (.ok (), r.set i
              { x with file := some f, receivedSize := x.receivedSize + decoded.data.length })

/-- The content of an opened box: magic, name length, name, file bytes. -/
def openEnvelope (cfg : ReceiverConfig) (filename encrypted : Bytes) : Except Errno Bytes :=
  if encrypted.take fileCryptoMagicSize ≠ fileCryptoMagic then .error .EPROTO
  else
    let senderKey := (encrypted.drop fileCryptoMagicSize).take cryptoBoxPublicKeyBytes
    let nonce := (encrypted.drop (fileCryptoMagicSize + cryptoBoxPublicKeyBytes)).take
      cryptoBoxNonceBytes
    let ciphertext := encrypted.drop fileCryptoHeaderSize
    match cfg.box.openEasy ciphertext nonce senderKey cfg.privateKey with
    | none => .error .EBADMSG
    | some plaintext =>
      let plaintextLength := ciphertext.length - cryptoBoxMacBytes
      let filenameLength := (readU16 (plaintext.drop fileCryptoMagicSize)).toNat
      if plaintext.take fileCryptoMagicSize ≠ fileCryptoMagic ∨
          filenameLength ≠ filename.length ∨
          plaintextLength - fileCryptoMetadataSize < filenameLength ∨
          (plaintext.drop fileCryptoMetadataSize).take filenameLength ≠ filename then
        .error .EBADMSG
      else
        let dataOffset := fileCryptoMetadataSize + filenameLength
        .ok ((plaintext.drop dataOffset).take (plaintextLength - dataOffset))

/-- `decrypt_received_file`: reads the staged bytes through `f`, opens them and
puts the file bytes in their place. -/
def decryptReceivedFile (r : Receiver) (cfg : ReceiverConfig) (env : FileEnv) (x : IncomingFile)
    (f : FileStream) : Except Errno ℕ × Receiver :=
  if env.malloc = false then (.error .ENOMEM, r)
  else
    match env.fseek with
    | some e => (.error e, r)
    | none =>
      let encrypted := (r.store.data f.inode).take x.expectedSize
      if env.fread = false ∨ encrypted.length ≠ x.expectedSize then (.error Errno.EIO, r)
      else
        match openEnvelope cfg x.filename encrypted with
        | .error e => (.error e, r)
        | .ok data =>
          match env.rewind with
          | some e => (.error e, r)
          | none =>
            let f := { f with offset := 0 }
            let count := env.rewrite.getD data.length
            let r := (r.fwrite f data count).1
            if count < data.length then (.error Errno.EIO, r)
            else
              match env.fflush with
              | some e => (.error e, r)
              | none =>
                match env.ftruncate with
                | some e => (.error e, r)
                | none =>
                  let content := (r.store.data f.inode).take data.length
                  (.ok data.length, { r with store := r.store.write f.inode content })

def receiveFileEnd (r : Receiver) (cfg : ReceiverConfig) (env : FileEnv) (frame : Bytes) :
    Except Errno Unit × Receiver :=
  match decodeControl frame .fileEnd with
  | .error e => (.error e, r)
  | .ok transferId =>
    match r.findIncomingFile transferId with
    | none => (.error .ENOENT, r)
    | some i =>
      let x := r.incomingFiles i
      if x.receivedSize ≠ x.expectedSize then
        (.error Errno.EIO, r.discardIncomingFile env.unlink i)
      else
        match x.file with
        | none => (.error .EBADF, r)
        | some f =>
          match r.decryptReceivedFile cfg env x f with
          | (.error e, r) => (.error e, r.discardIncomingFile env.unlink i)
          | (.ok _, r) =>
            let r := r.set i { x with file := none }
            match env.fclose with
            | some e => (.error (e.getD Errno.EIO), r.discardIncomingFile env.unlink i)
            | none =>
              match r.link env.link x.tempPath x.finalPath with
              | (.error e, r) => (.error e, r.discardIncomingFile env.unlink i)
              | (.ok (), r) => (.ok (), (r.unlink env.unlink x.tempPath).set i {})

def receiveFileError (r : Receiver) (env : FileEnv) (frame : Bytes) :
    Except Errno Unit × Receiver :=
  match decodeControl frame .fileError with
  | .error e => (.error e, r)
  | .ok transferId =>
    match r.findIncomingFile transferId with
    | none => (.ok (), r)
    | some i => (.ok (), r.discardIncomingFile env.unlink i)

def handleIncomingFileFrame (r : Receiver) (cfg : ReceiverConfig) (env : FileEnv) (frame : Bytes) :
    Except Errno Unit × Receiver :=
  match frame.head?.bind FrameType.ofByte with
  | some .fileBegin => r.receiveFileBegin cfg env frame
  | some .fileChunk => r.receiveFileChunk env frame
  | some .fileEnd => r.receiveFileEnd cfg env frame
  | some .fileError => r.receiveFileError env frame
  | _ => (.error .EINVAL, r)

end Receiver

end CipherChat
