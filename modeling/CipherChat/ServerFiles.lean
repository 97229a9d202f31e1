import CipherChat.FileProtocol
import CipherChat.ServerOps

/-!
# File-frame handlers

`server_files.c`.  A handler returns 0 when the frame was consumed and -1 when it
was rejected or could not be forwarded; the caller only prints the latter.
-/

namespace CipherChat

open Resumption Prog

def notifySender (senderId : ClientId) (message : Bytes) : Handler Unit :=
  if senderId ≠ invalidClientId then do
    let _ ← sendTextToClientId senderId message
  else pure ()

/-- The text `notify_sender_for_transfer` formats. -/
def transferText (sourceTransferId : UInt32) (message : Bytes) : Bytes :=
  ascii "Transfer id " ++ ascii (Nat.repr sourceTransferId.toNat) ++ ascii ": " ++ message

def notifySenderForTransfer (senderId : ClientId) (sourceTransferId : UInt32) (message : Bytes) :
    Handler Unit :=
  let formatted := transferText sourceTransferId message
  if 0 < formatted.length ∧ formatted.length < bufferSize then notifySender senderId formatted
  else notifySender senderId message

def sendReceiverError (endpoint : FileRouteEndpoint) : Handler Int :=
  if endpoint.targetId = invalidClientId then pure (-1)
  else
    match encodeControl fileControlPayloadSize endpoint.outboundTransferId with
    | .error _ => pure (-1)
    | .ok payload => do
      match ← sendFrameToClientId endpoint.targetId .fileError payload with
      | .ok () => pure 0
      | .error _ => pure (-1)

def rejectKnownTransfer (senderId : ClientId) (sourceTransferId : UInt32) (message : Bytes)
    (keepDiscard : Bool) : Handler Int := do
  let answer ← call (S := serverSig) (.routesQuarantine senderId sourceTransferId keepDiscard)
  if answer.wasForwarding then
    let _ ← sendReceiverError answer.previous
  notifySenderForTransfer senderId sourceTransferId message
  pure (-1)

/-- The common rejection of a frame that does not decode: under its transfer id
when it is long enough to have one. -/
def rejectMalformed (senderId : ClientId) (frame : Bytes) (known unknown : String)
    (keepDiscard : Bool) : Handler Int :=
  match readTransferId frame with
  | some sourceTransferId => rejectKnownTransfer senderId sourceTransferId (ascii known) keepDiscard
  | none => do
    notifySender senderId (ascii unknown)
    pure (-1)

def handleFileBegin (senderId : ClientId) (senderUsername frame : Bytes) : Handler Int :=
  if senderUsername.length = 0 ∨ usernameSize ≤ senderUsername.length ∨
      validPeerName senderUsername = false then do
    notifySender senderId (ascii "File transfer rejected: invalid sender username\n")
    pure (-1)
  else
    match decodeBegin frame with
    | none =>
      rejectMalformed senderId frame "File transfer rejected: malformed begin frame\n"
        "File transfer rejected: malformed begin frame\n" true
    | some begin_ => do
      let targetId ← call (S := serverSig) (.findClientId begin_.peer)
      let discard := targetId == invalidClientId || targetId == senderId
      let answer ← call (S := serverSig)
        (.routesAdd senderId begin_.transferId targetId begin_.fileSize discard)
      match answer.result with
      | .duplicate =>
        if answer.replaced.targetId ≠ invalidClientId then
          let _ ← sendReceiverError answer.replaced
        notifySenderForTransfer senderId begin_.transferId
          (ascii "File transfer rejected: duplicate transfer id\n")
        pure (-1)
      | .full =>
        notifySender senderId (ascii "File transfer rejected: server transfer limit reached\n")
        pure (-1)
      | .idUnavailable =>
        notifySender senderId (ascii "File transfer rejected: no transfer id is available\n")
        pure (-1)
      | .discard =>
        let message :=
          if targetId = senderId then
            ascii "File transfer rejected: cannot send a file to yourself\n"
          else
            ascii "File transfer rejected: user " ++ begin_.peer ++ ascii " is not connected\n"
        -- snprintf into a buffer of BUFFER_SIZE
        if 0 < message.length ∧ message.length < bufferSize then
          notifySenderForTransfer senderId begin_.transferId message
        else
          notifySenderForTransfer senderId begin_.transferId
            (ascii "File transfer rejected: recipient is not connected\n")
        pure 0
      | .ready =>
        match encodeBegin fileBeginPayloadMaxSize answer.endpoint.outboundTransferId
            begin_.fileSize senderUsername begin_.filename with
        | .error _ =>
          rejectKnownTransfer senderId begin_.transferId
            (ascii "File transfer rejected: begin frame is too large\n") true
        | .ok payload =>
          match ← sendFrameToClientId answer.endpoint.targetId .fileBegin payload with
          | .ok () => pure 0
          | .error _ =>
            let _ ← call (S := serverSig) (.routesQuarantine senderId begin_.transferId true)
            notifySenderForTransfer senderId begin_.transferId
              (ascii "File transfer failed: could not reach recipient\n")
            pure (-1)

def handleFileChunk (senderId : ClientId) (frame : Bytes) : Handler Int :=
  match decodeChunk frame with
  | none =>
    rejectMalformed senderId frame "File transfer failed: invalid chunk size\n"
      "File transfer rejected: malformed chunk frame\n" true
  | some chunk => do
    let answer ← call (S := serverSig)
      (.routesAcceptChunk senderId chunk.transferId (UInt64.ofNat chunk.data.length))
    match answer.result with
    | .missing =>
      notifySenderForTransfer senderId chunk.transferId
        (ascii "File transfer rejected: chunk has no matching begin frame\n")
      pure (-1)
    | .discard => pure 0
    | .overrun =>
      let _ ← sendReceiverError answer.endpoint
      notifySenderForTransfer senderId chunk.transferId
        (ascii "File transfer failed: data exceeds declared file size\n")
      pure (-1)
    | .ready =>
      match encodeChunk fileChunkPayloadMaxSize answer.endpoint.outboundTransferId chunk.data with
      | .error _ =>
        rejectKnownTransfer senderId chunk.transferId
          (ascii "File transfer failed: could not encode chunk\n") true
      | .ok payload =>
        match ← sendFrameToClientId answer.endpoint.targetId .fileChunk payload with
        | .ok () => pure 0
        | .error _ =>
          let converted ← call (S := serverSig) (.routesMarkForwardFailed senderId chunk.transferId
            answer.endpoint.outboundTransferId)
          if converted then
            notifySenderForTransfer senderId chunk.transferId
              (ascii "File transfer failed: recipient disconnected\n")
          pure (-1)

def handleFileEnd (senderId : ClientId) (frame : Bytes) : Handler Int :=
  match decodeControl frame .fileEnd with
  | .error _ =>
    rejectMalformed senderId frame "File transfer failed: malformed end frame\n"
      "File transfer rejected: malformed end frame\n" false
  | .ok sourceTransferId => do
    let answer ← call (S := serverSig) (.routesFinish senderId sourceTransferId true)
    match answer.result with
    | .missing =>
      notifySenderForTransfer senderId sourceTransferId
        (ascii "File transfer rejected: end has no matching begin frame\n")
      pure (-1)
    | .discard => pure 0
    | .incomplete =>
      let _ ← sendReceiverError answer.endpoint
      notifySenderForTransfer senderId sourceTransferId
        (ascii "File transfer failed: received size does not match declared size\n")
      pure (-1)
    | .ready =>
      let failed : Handler Int := do
        notifySenderForTransfer senderId sourceTransferId
          (ascii "File transfer failed: recipient disconnected\n")
        pure (-1)
      match encodeControl fileControlPayloadSize answer.endpoint.outboundTransferId with
      | .error _ => failed
      | .ok payload =>
        match ← sendFrameToClientId answer.endpoint.targetId .fileEnd payload with
        | .ok () => pure 0
        | .error _ => failed

def handleFileError (senderId : ClientId) (frame : Bytes) : Handler Int :=
  match decodeControl frame .fileError with
  | .error _ =>
    rejectMalformed senderId frame "File transfer rejected: malformed error frame\n"
      "File transfer rejected: malformed error frame\n" false
  | .ok sourceTransferId => do
    let answer ← call (S := serverSig) (.routesFinish senderId sourceTransferId false)
    match answer.result with
    | .missing =>
      notifySenderForTransfer senderId sourceTransferId
        (ascii "File transfer rejected: error has no matching begin frame\n")
      pure (-1)
    | .discard => pure 0
    | .incomplete | .ready => sendReceiverError answer.endpoint

def routeFileFrame (senderId : ClientId) (senderUsername frame : Bytes) : Handler Int :=
  if senderId = invalidClientId ∨ frame.length = 0 then pure (-1)
  else if frame.length > frameMaxSize then do
    notifySender senderId (ascii "File transfer rejected: frame is too large\n")
    pure (-1)
  else
    match frame.head?.bind FrameType.ofByte with
    | some .fileBegin => handleFileBegin senderId senderUsername frame
    | some .fileChunk => handleFileChunk senderId frame
    | some .fileEnd => handleFileEnd senderId frame
    | some .fileError => handleFileError senderId frame
    | _ => do
      notifySender senderId (ascii "File transfer rejected: invalid file frame type\n")
      pure (-1)

/-- The loop of `abort_file_routes_for_client` over the collected actions. -/
def runAbortActions : List FileRouteAbortAction → Handler Unit
  | [] => pure ()
  | action :: rest => do
    match action.type with
    | .sendError =>
      let _ ← sendReceiverError
        { targetId := action.clientId, outboundTransferId := action.outboundTransferId }
    | .notifySender =>
      notifySender action.clientId (ascii "File transfer failed: recipient disconnected\n")
    runAbortActions rest

def abortFileRoutesForClient (clientId : ClientId) : Handler Unit :=
  if clientId = invalidClientId then pure ()
  else do
    let actions ← call (S := serverSig) (.routesAbortClient clientId fileRouteCapacity)
    runAbortActions actions

end CipherChat
