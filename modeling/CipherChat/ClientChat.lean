import CipherChat.ClientFileSender
import CipherChat.CommandParser
import CipherChat.Lib.LinkedRemoval
import CipherChat.Lib.Resumption
import CipherChat.Worker

/-!
# The client

`client.c` after login, with the sending half of `common.c`.  The client runs one
callback at a time.  A callback is a program over the calls that leave it:
`send_all`, the allocator, libsodium's random bytes, the file system, the
terminal.  Its static variables are passed along as `ClientState`.
-/

namespace CipherChat

open Resumption Prog LinkedQueue

def maxPendingPackages : ℕ := 128
def pathMax : ℕ := 4096

inductive PendingPackageType
  | message | file
  deriving DecidableEq, Repr

/-- `PendingPackage`; `data` is the message text or the file path. -/
structure PendingPackage where
  type : PendingPackageType
  recipient : Bytes
  data : Bytes
  deriving DecidableEq, Repr

/-- What stays fixed while a client runs, its key pair included.  `crypto_box_easy` makes
a box of the message's length and the MAC's. -/
structure ClientConfig extends ReceiverConfig where
  publicKey : { k : Bytes // k.length = cryptoBoxPublicKeyBytes }
  easy_length : ∀ message nonce publicKey privateKey ciphertext,
    box.easy message nonce publicKey privateKey = some ciphertext →
      ciphertext.length = message.length + cryptoBoxMacBytes

/-- The static variables of the client. -/
structure ClientState where
  connected : Bool := true
  clientExitCode : ℕ := 0
  /-- The allocated `PendingPackage` nodes. -/
  heap : Heap PendingPackage := fun _ => none
  /-- `pending_head`, `pending_tail` and `pending_count`. -/
  pending : Queue := {}
  nextTransferId : UInt32 := 1
  files : Receiver

/-- Marks in the history of a run; nothing reads them. -/
inductive ClientNote
  /-- `send_frame` is called. -/
  | sendFrame (type : FrameType) (payload : Bytes)
  /-- A package is linked behind `pending_tail`. -/
  | queued (package : PendingPackage)
  /-- A reply unlinks a package; the key is `none` when it is unavailable. -/
  | consumed (package : PendingPackage) (name : Bytes) (key : Option Bytes)
  deriving DecidableEq

inductive ClientOp
  | note (n : ClientNote)
  | sendAll (bytes : Bytes)
  | malloc
  | strdup
  | randombytesBuf
  /-- The file-system calls of `send_file`. -/
  | readFile (path : Bytes)
  /-- The file-system calls of `handle_incoming_file_frame`. -/
  | fileCalls
  | displayMessage (message : Bytes)
  | displayPrivateMessage (sender message : Bytes)
  deriving DecidableEq

abbrev ClientOp.Resp : ClientOp → Type
  | .note _ => Unit
  | .sendAll _ => Except Errno Unit
  | .malloc => Option ℕ
  | .strdup => Bool
  | .randombytesBuf => { n : Bytes // n.length = cryptoBoxNonceBytes }
  | .readFile _ => SendEnv
  | .fileCalls => FileEnv
  | .displayMessage _ => Unit
  | .displayPrivateMessage _ _ => Unit

abbrev clientSig : Sig where
  Op := ClientOp
  Resp := ClientOp.Resp

abbrev ClientProg := Prog clientSig

def sendFrame (type : FrameType) (payload : Bytes) : ClientProg (Except Errno Unit) := do
  call (S := clientSig) (.note (.sendFrame type payload))
  if frameMaxSize - 1 < payload.length then pure (.error .EMSGSIZE)
  else
    match ← call (S := clientSig) (.sendAll (BigEndian.encode 4 (1 + payload.length))) with
    | .error e => pure (.error e)
    | .ok () =>
      match ← call (S := clientSig) (.sendAll [type.toByte]) with
      | .error e => pure (.error e)
      | .ok () =>
        if payload.length ≠ 0 then call (S := clientSig) (.sendAll payload) else pure (.ok ())

/-- The payload of `send_private_chat`. -/
def privateChatPayload (recipient nonce publicKey ciphertext : Bytes) : Bytes :=
  UInt8.ofNat recipient.length :: (recipient ++ (nonce ++ (publicKey ++ ciphertext)))

def sendPrivateChat (cfg : ClientConfig) (recipient message nonce recipientPublicKey : Bytes) :
    ClientProg (Except Errno Unit) :=
  if recipient.length = 0 ∨ usernameSize ≤ recipient.length then pure (.error .EINVAL)
  else if chatMaxMessageSize < message.length then pure (.error .EMSGSIZE)
  else do
    match ← call (S := clientSig) .malloc with
    | none => pure (.error .ENOMEM)
    | some _ =>
      match cfg.box.easy message nonce recipientPublicKey cfg.privateKey with
      | none => pure (.error .EINVAL)
      | some ciphertext =>
        sendFrame .ciphertext (privateChatPayload recipient nonce cfg.publicKey.val ciphertext)

/-- `create_transfer_id`: the id and the counter afterwards. -/
def createTransferId (next : UInt32) : UInt32 × UInt32 :=
  if next = 0 then (1, 2) else (next, next + 1)

/-- `send_file` up to its first frame, with the keys of the client. -/
def sealFile (env : SendEnv) (cfg : ClientConfig) (recipient path recipientPublicKey : Bytes) :
    Except Errno (Bytes × Bytes × ℕ) :=
  encryptFile env cfg.box recipient path recipientPublicKey cfg.publicKey cfg.privateKey

def sendFileBegin (transferId : UInt32) (recipient filename : Bytes) (fileSize : ℕ) :
    ClientProg (Except Errno Unit) :=
  match encodeBegin fileBeginPayloadMaxSize transferId (UInt64.ofNat fileSize) recipient
    filename with
  | .error e => pure (.error e)
  | .ok payload => sendFrame .fileBegin payload

def sendFileChunk (transferId : UInt32) (chunk : Bytes) : ClientProg (Except Errno Unit) :=
  match encodeChunk fileChunkPayloadMaxSize transferId chunk with
  | .error e => pure (.error e)
  | .ok payload => sendFrame .fileChunk payload

def sendFileControl (type : FrameType) (transferId : UInt32) : ClientProg (Except Errno Unit) :=
  if type ≠ .fileEnd ∧ type ≠ .fileError then pure (.error .EINVAL)
  else
    match encodeControl fileControlPayloadSize transferId with
    | .error e => pure (.error e)
    | .ok payload => sendFrame type payload

/-- The loop of `send_file` over its chunks, and the END. -/
def sendFileChunks (transferId : UInt32) : List Bytes → ClientProg (Except Errno Unit)
  | [] => sendFileControl .fileEnd transferId
  | chunk :: rest => do
    match ← sendFileChunk transferId chunk with
    | .error e => pure (.error e)
    | .ok () => sendFileChunks transferId rest

/-- `send_file` on the connection: its result, and `next_transfer_id` afterwards. -/
def sendFileOn (cfg : ClientConfig) (next : UInt32) (recipient path recipientPublicKey : Bytes) :
    ClientProg (Except Errno Unit × UInt32) := do
  let env ← call (S := clientSig) (.readFile path)
  match sealFile env cfg recipient path recipientPublicKey with
  | .error e => pure (.error e, next)
  | .ok (filename, encrypted, encryptedLength) =>
    let (transferId, next) := createTransferId next
    match ← sendFileBegin transferId recipient filename encryptedLength with
    | .error e => pure (.error e, next)
    | .ok () =>
      let result ← sendFileChunks transferId (fileChunks encrypted 0)
      pure (result, next)

/-- `receive_private_chat` on the payload of a CIPHERTEXT: the sender and the message
that are displayed. -/
def receivePrivateChat (cfg : ReceiverConfig) (frame : Bytes) : Except Errno (Bytes × Bytes) :=
  let overhead := 1 + cryptoBoxNonceBytes + cryptoBoxPublicKeyBytes + cryptoBoxMacBytes
  if frame.length < overhead then .error .EMSGSIZE
  else
    let senderLength := (frame.headD 0).toNat
    if senderLength = 0 ∨ usernameSize ≤ senderLength ∨ frame.length < overhead + senderLength then
      .error .EMSGSIZE
    else
      let sender := (frame.drop 1).take senderLength
      if sender.any fun b => isSpace b || isCntrl b then .error .EPROTO
      else
        let nonce := (frame.drop (1 + senderLength)).take cryptoBoxNonceBytes
        let senderPublicKey :=
          (frame.drop (1 + senderLength + cryptoBoxNonceBytes)).take cryptoBoxPublicKeyBytes
        let ciphertext :=
          frame.drop (1 + senderLength + cryptoBoxNonceBytes + cryptoBoxPublicKeyBytes)
        if cryptoBoxMacBytes + chatMaxMessageSize < ciphertext.length then .error .EMSGSIZE
        else
          match cfg.box.openEasy ciphertext nonce senderPublicKey cfg.privateKey with
          | none => .error .EINVAL
          | some message => .ok (sender, message)

def isConnectionError (e : Errno) : Bool :=
  e == .EPIPE || e == .ECONNRESET || e == .ENOTCONN || e == .EBADF

/-- What every caller of a sending function does with its result: an error on the
connection ends the event loop. -/
def ClientState.afterSend (s : ClientState) : Except Errno Unit → ClientState
  | .ok () => s
  | .error e =>
    if isConnectionError e then { s with clientExitCode := 1, connected := false } else s

/-- A package that a reply with a key has unlinked is sent. -/
def sendPackage (cfg : ClientConfig) (s : ClientState) (package : PendingPackage)
    (recipient key : Bytes) : ClientProg ClientState :=
  match package.type with
  | .file => do
    let (result, nextTransferId) ← sendFileOn cfg s.nextTransferId recipient package.data key
    pure ({ s with nextTransferId }.afterSend result)
  | .message => do
    let nonce ← call (S := clientSig) .randombytesBuf
    let result ← sendPrivateChat cfg recipient package.data nonce.val key
    pure (s.afterSend result)

/-- The name of a `FRAME_PEER_PK` and the rest of the frame, when it is well formed. -/
def parsePeerPk (frame : Bytes) : Option (Bytes × Bytes) :=
  if frame.length < 2 then none
  else
    let nameLength := (frame.getD 1 0).toNat
    let keyOffset := 2 + nameLength
    let name := (frame.drop 2).take nameLength
    if nameLength = 0 ∨ usernameSize ≤ nameLength ∨
        (frame.length ≠ keyOffset ∧ frame.length ≠ keyOffset + cryptoBoxPublicKeyBytes) ∨
        0 ∈ name then none
    else some (name, frame.drop keyOffset)

/-- The `FRAME_PEER_PK` branch of `handle_server_frame`. -/
def handlePeerPk (cfg : ClientConfig) (s : ClientState) (frame : Bytes) : ClientProg ClientState :=
  match parsePeerPk frame with
  | none => pure s
  | some (recipient, key) =>
    match removeFirst s.heap (fun package => package.recipient == recipient) s.pending with
    | none => pure s
    | some (package, heap, pending) =>
      let s := { s with heap, pending }
      if key = [] then do
        call (S := clientSig) (.note (.consumed package recipient none))
        pure s
      else do
        call (S := clientSig) (.note (.consumed package recipient (some key)))
        sendPackage cfg s package recipient key

/-- `handle_server_frame`, on a frame whose type byte is valid. -/
def handleServerFrame (cfg : ClientConfig) (s : ClientState) (frame : Bytes) :
    ClientProg ClientState :=
  match frame.head?.bind FrameType.ofByte with
  | some .text => do
    call (S := clientSig) (.displayMessage (frame.drop 1))
    pure s
  | some .peerPk => handlePeerPk cfg s frame
  | some .ciphertext =>
    match receivePrivateChat cfg.toReceiverConfig (frame.drop 1) with
    | .error _ => pure s
    | .ok (sender, message) => do
      call (S := clientSig) (.displayPrivateMessage sender message)
      pure s
  | _ => do
    let env ← call (S := clientSig) .fileCalls
    pure { s with files := (s.files.handleIncomingFileFrame cfg.toReceiverConfig env frame).2 }

/-- `handle_private_message` and `handle_file_command`, from the check of
`pending_count` on. -/
def requestKey (s : ClientState) (type : PendingPackageType) (username data : Bytes) :
    ClientProg (Except Errno Unit × ClientState) :=
  if maxPendingPackages ≤ s.pending.count then pure (.error .ENOBUFS, s)
  else do
    -- an address in use is no answer
    match (← call (S := clientSig) .malloc).filter fun a => (s.heap a).isNone with
    | none => pure (.error .ENOMEM, s)
    | some address =>
      if ← call (S := clientSig) .strdup then
        let package : PendingPackage := { type, recipient := username, data }
        match ← sendFrame .requestPk username with
        | .error e => pure (.error e, s)
        | .ok () =>
          let (heap, pending) := enqueue s.heap s.pending address package
          call (S := clientSig) (.note (.queued package))
          pure (.ok (), { s with heap, pending })
      else pure (.error .ENOMEM, s)

def handlePrivateMessage (s : ClientState) (line : Bytes) :
    ClientProg (Except Errno Unit × ClientState) :=
  match parseCommand line with
  | .privateMessage username message =>
    if chatMaxMessageSize < message.length then pure (.error .EMSGSIZE, s)
    else requestKey s .message username message
  | _ => pure (.error .EINVAL, s)

def handleFileCommand (s : ClientState) (line : Bytes) :
    ClientProg (Except Errno Unit × ClientState) :=
  match parseCommand line with
  | .fileTransfer username filepath =>
    if pathMax < filepath.length then pure (.error .EMSGSIZE, s)
    else requestKey s .file username filepath
  | _ => pure (.error .EINVAL, s)

/-- `strncmp(text, verb, strlen(verb)) == 0`, and the verb ends there. -/
def startsWithVerb (text verb : Bytes) : Bool :=
  text.take verb.length == verb && (text.drop verb.length).head?.all isSpace

/-- `handle_input` on a line. -/
def handleInput (s : ClientState) (line : Bytes) : ClientProg ClientState :=
  if line = [] then pure s
  else if startsWithVerb line (ascii "/file") then do
    let (result, s) ← handleFileCommand s line
    pure (s.afterSend result)
  else if startsWithVerb (line.dropWhile isSpace) (ascii "/msg") then do
    let (result, s) ← handlePrivateMessage s line
    pure (s.afterSend result)
  else if frameMaxSize - 1 < line.length then pure s
  else do
    let result ← sendFrame .text line
    let s := s.afterSend result
    pure (if result = .ok () ∧ line = ascii "/quit" then { s with connected := false } else s)

/-- `main`, from the end of the login to its event loop. -/
def registerKey (cfg : ClientConfig) (s : ClientState) : ClientProg ClientState := do
  match ← sendFrame .registerPk cfg.publicKey.val with
  | .error _ => pure { s with clientExitCode := 1, connected := false }
  | .ok () =>
    let env ← call (S := clientSig) .fileCalls
    match ensureDownloadDirectory env cfg.directory with
    | .error _ => pure { s with clientExitCode := 1, connected := false }
    | .ok () => pure s

end CipherChat
