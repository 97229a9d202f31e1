import CipherChat.CommandParser
import CipherChat.ServerFiles

/-!
# Chat handlers

`server.c`: keys, encrypted messages, text commands, and the dispatch of a frame
by its type.
-/

namespace CipherChat

open Resumption Prog

/-- `copy_peer_name`: the name, when it is acceptable. -/
def copyPeerName (bytes : Bytes) : Option Bytes :=
  if bytes.length = 0 ∨ usernameSize ≤ bytes.length then none
  else if bytes.any fun b => isSpace b || isCntrl b then none
  else some bytes

/-- The `FRAME_REGISTER_PK` branch of `handle_encrypted_chat`. -/
def handleRegisterPk (clientId : ClientId) (payload : Bytes) : Handler Unit :=
  if payload.length ≠ chatPublicKeySize then
    sendInvalidCommand clientId (ascii "public key registration")
  else do
    match ← call (S := serverSig) (.registerClientPublicKey clientId payload) with
    | .ok () => pure ()
    | .error _ => sendInvalidCommand clientId (ascii "public key registration")

/-- The `FRAME_REQUEST_PK` branch of `handle_encrypted_chat`. -/
def handleRequestPk (clientId : ClientId) (payload : Bytes) : Handler Unit :=
  match copyPeerName payload with
  | none => sendInvalidCommand clientId (ascii "public key request")
  | some recipient => do
    let recipientId ← call (S := serverSig) (.findClientId recipient)
    let key ← call (S := serverSig) (.getClientPublicKey recipientId)
    let response := UInt8.ofNat payload.length :: payload ++ key.getD []
    let _ ← sendFrameToClientId clientId .peerPk response

/-- The `FRAME_CIPHERTEXT` branch of `handle_encrypted_chat`. -/
def handleCiphertext (clientId : ClientId) (senderUsername payload : Bytes) : Handler Unit :=
  let recipientLength := (payload.headD 0).toNat
  if payload.length < chatOverhead ∨ payload.length < chatOverhead + recipientLength then
    sendInvalidCommand clientId (ascii "encrypted message")
  else
    match copyPeerName ((payload.drop 1).take recipientLength) with
    | none => sendInvalidCommand clientId (ascii "encrypted message")
    | some recipient =>
      let encryptedOffset := 1 + recipientLength
      let encrypted := payload.drop encryptedOffset
      let messageLength := encrypted.length - chatNonceSize - chatPublicKeySize - chatMacSize
      if messageLength > chatMaxMessageSize then
        sendInvalidCommand clientId (ascii "encrypted message too long")
      else do
        let claimedKey := (encrypted.drop chatNonceSize).take chatPublicKeySize
        let senderKey ← call (S := serverSig) (.getClientPublicKey clientId)
        if senderKey ≠ some claimedKey then
          sendInvalidCommand clientId (ascii "encrypted message sender key")
        else
          let senderLength := senderUsername.length
          let forwardedLength := 1 + senderLength + encrypted.length
          if senderLength = 0 ∨ usernameSize ≤ senderLength ∨
            forwardedLength > frameMaxSize - 1 then
            sendInvalidCommand clientId (ascii "encrypted message sender")
          else
            let forwarded := UInt8.ofNat senderLength :: senderUsername ++ encrypted
            let recipientId ← call (S := serverSig) (.findClientId recipient)
            match ← sendFrameToClientId recipientId .ciphertext forwarded with
            | .ok () => pure ()
            | .error _ => sendFormatted clientId (msgUserNotFound recipient)

/-- The answer to a message above `MESSAGE_MAX_SIZE`. -/
def msgTooLong : Bytes := ascii "Message too long (maximum: 65536 bytes)\n"

/-- `handle_command`; false ends the worker. -/
def handleCommand (clientId : ClientId) (senderUsername command : Bytes) : Handler Bool :=
  match parseCommand command with
  | .privateMessage username message => do
    if messageMaxSize < message.length then
      let _ ← sendTextToClientId clientId msgTooLong
    else
      let text := ascii "Private message from " ++ senderUsername ++ ascii ": " ++ message ++
        ascii "\n"
      if text.length < frameMaxSize then sendMessageToClient username text clientId
    pure true
  | .broadcastMessage message => do
    if messageMaxSize < message.length then
      let _ ← sendTextToClientId clientId msgTooLong
    else
      let text := ascii "Broadcast from " ++ senderUsername ++ ascii ": " ++ message ++ ascii "\n"
      if text.length < frameMaxSize then sendMessageToAllClients text clientId
    pure true
  | .listUsers => do
    logConnectedClients clientId
    pure true
  | .help => do
    sendHelp clientId
    pure true
  | .quit => pure false
  | .invalid => do
    sendInvalidCommand clientId command
    pure true
  | .unknown | .fileTransfer _ _ => do
    sendUnknownCommand clientId command
    pure true

/-- `handle_client_frame`, on a frame whose type byte is valid. -/
def handleClientFrame (clientId : ClientId) (username frame : Bytes) : Handler Bool :=
  let payload := frame.drop 1
  match frame.head?.bind FrameType.ofByte with
  | some .text =>
    if payload = [] ∨ 0 ∈ payload then do
      sendInvalidCommand clientId (ascii "binary text frame")
      pure true
    else handleCommand clientId username payload
  | some .registerPk => do
    handleRegisterPk clientId payload
    pure true
  | some .requestPk => do
    handleRequestPk clientId payload
    pure true
  | some .ciphertext => do
    handleCiphertext clientId username payload
    pure true
  | some .peerPk => do
    sendInvalidCommand clientId (ascii "unexpected public key reply")
    pure true
  | _ => do
    let _ ← routeFileFrame clientId username frame
    pure true

end CipherChat
