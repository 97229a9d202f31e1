import CipherChat.ClientManager
import CipherChat.FileRoutes
import CipherChat.Lib.Resumption

/-!
# The shared state and its atomic operations

A handler touches shared state only inside the critical sections of
`clients_mutex` and `routes_mutex`.  `Op` names them and `perform` executes one.
A handler is a program over `Op`: between two operations any other worker may
run.
-/

namespace CipherChat

structure Shared where
  clients : ClientManager
  routes : FileRoutes

inductive Op
  | findClientId (username : Bytes)
  | registerClientPublicKey (clientId : ClientId) (key : Bytes)
  | getClientPublicKey (clientId : ClientId)
  | queueFrame (clientId : ClientId) (type : FrameType) (payload : Bytes)
  | recipients (senderId : ClientId)
  | readyNames
  | routesAdd (senderId : ClientId) (sourceTransferId : UInt32) (targetId : ClientId)
      (expectedSize : UInt64) (discard : Bool)
  | routesQuarantine (senderId : ClientId) (sourceTransferId : UInt32) (keepDiscard : Bool)
  | routesAcceptChunk (senderId : ClientId) (sourceTransferId : UInt32) (chunkLength : UInt64)
  | routesMarkForwardFailed (senderId : ClientId) (sourceTransferId outboundTransferId : UInt32)
  | routesFinish (senderId : ClientId) (sourceTransferId : UInt32) (validateSize : Bool)
  | routesAbortClient (clientId : ClientId) (actionCapacity : ℕ)
  deriving DecidableEq

/-- What an operation returns. -/
abbrev Op.Resp : Op → Type
  | .findClientId _ => ClientId
  | .registerClientPublicKey _ _ => Except Errno Unit
  | .getClientPublicKey _ => Option Bytes
  | .queueFrame _ _ _ => Except Errno Unit
  | .recipients _ => List ClientId
  | .readyNames => List Bytes
  | .routesAdd _ _ _ _ _ => FileRoutes.AddAnswer
  | .routesQuarantine _ _ _ => FileRoutes.QuarantineAnswer
  | .routesAcceptChunk _ _ _ => FileRoutes.ChunkAnswer
  | .routesMarkForwardFailed _ _ _ => Bool
  | .routesFinish _ _ _ => FileRoutes.FinishAnswer
  | .routesAbortClient _ _ => List FileRouteAbortAction

abbrev serverSig : Resumption.Sig where
  Op := Op
  Resp := Op.Resp

abbrev Handler := Resumption.Prog serverSig

/-- What the C library answers during one step: an address from `malloc`, and the
failures of `eventfd_write` and `eventfd`, if any. -/
structure Libc where
  address : Option ℕ := none
  eventfdWrite : Option Errno := none
  eventfd : Option Errno := none

/-- A critical section of `clients_mutex`. -/
def Shared.onClients {α : Type} (x : Shared) (r : α × ClientManager) : α × Shared :=
  (r.1, { x with clients := r.2 })

/-- A critical section of `routes_mutex`. -/
def Shared.onRoutes {α : Type} (x : Shared) (r : FileRoutes × α) : α × Shared :=
  (r.2, { x with routes := r.1 })

def perform (libc : Libc) (x : Shared) : (o : Op) → o.Resp × Shared
  | .findClientId username => (x.clients.findClientId username, x)
  | .registerClientPublicKey clientId key =>
    x.onClients (x.clients.registerClientPublicKey clientId key)
  | .getClientPublicKey clientId => (x.clients.getClientPublicKey clientId, x)
  | .queueFrame clientId type payload =>
    x.onClients
      (x.clients.queueFrameToClientId libc.address libc.eventfdWrite clientId type payload)
  | .recipients senderId => (x.clients.recipients senderId, x)
  | .readyNames => (x.clients.readyNames, x)
  | .routesAdd senderId sourceTransferId targetId expectedSize discard =>
    x.onRoutes (x.routes.add senderId sourceTransferId targetId expectedSize discard)
  | .routesQuarantine senderId sourceTransferId keepDiscard =>
    x.onRoutes (x.routes.quarantine senderId sourceTransferId keepDiscard)
  | .routesAcceptChunk senderId sourceTransferId chunkLength =>
    x.onRoutes (x.routes.acceptChunk senderId sourceTransferId chunkLength)
  | .routesMarkForwardFailed senderId sourceTransferId outboundTransferId =>
    x.onRoutes (x.routes.markForwardFailed senderId sourceTransferId outboundTransferId)
  | .routesFinish senderId sourceTransferId validateSize =>
    x.onRoutes (x.routes.finish senderId sourceTransferId validateSize)
  | .routesAbortClient clientId actionCapacity =>
    x.onRoutes (x.routes.abortClient clientId actionCapacity)

open Resumption Prog

def sendFrameToClientId (clientId : ClientId) (type : FrameType) (payload : Bytes) :
    Handler (Except Errno Unit) :=
  call (S := serverSig) (.queueFrame clientId type payload)

def sendTextToClientId (clientId : ClientId) (message : Bytes) : Handler (Except Errno Unit) :=
  if message = [] then pure (.error .EINVAL)
  else sendFrameToClientId clientId .text message

/-- `(void)send_text_to_client_id(...)` of a text printed into a `BUFFER_SIZE` buffer,
dropped when it does not fit. -/
def sendFormatted (clientId : ClientId) (text : Bytes) : Handler Unit :=
  if 0 < text.length ∧ text.length < bufferSize then do
    let _ ← sendTextToClientId clientId text
  else pure ()

def sendInvalidCommand (clientId : ClientId) (command : Bytes) : Handler Unit :=
  sendFormatted clientId (ascii "Invalid command format: " ++ command ++ ascii "\n")

def sendUnknownCommand (clientId : ClientId) (command : Bytes) : Handler Unit :=
  sendFormatted clientId (ascii "Unknown command: " ++ command ++ ascii "\n")

def msgUserNotFound (username : Bytes) : Bytes := ascii "User " ++ username ++ ascii " not found\n"

def sendMessageToClient (username message : Bytes) (senderId : ClientId) : Handler Unit := do
  let recipientId ← call (S := serverSig) (.findClientId username)
  if recipientId ≠ invalidClientId then
    match ← sendTextToClientId recipientId message with
    | .ok () => pure ()
    | .error _ => sendFormatted senderId (msgUserNotFound username)
  else sendFormatted senderId (msgUserNotFound username)

/-- The sends of `send_message_to_all_clients`, after the lock is released. -/
def sendTextToEach (message : Bytes) : List ClientId → Handler Unit
  | [] => pure ()
  | recipient :: rest => do
    let _ ← sendTextToClientId recipient message
    sendTextToEach message rest

def sendMessageToAllClients (message : Bytes) (senderId : ClientId) : Handler Unit :=
  if message = [] then pure ()
  else do
    let recipients ← call (S := serverSig) (.recipients senderId)
    sendTextToEach message recipients

/-- The loop of `log_connected_clients`: each name is printed behind the text so
far; the first that does not fit is cut to what the buffer holds, and ends it. -/
def appendNames (text : Bytes) : List Bytes → Bytes
  | [] => text
  | name :: rest =>
    let remaining := bufferSize - text.length
    let line := ascii "\n" ++ name
    if remaining ≤ line.length then text ++ line.take (remaining - 1)
    else appendNames (text ++ line) rest

def logConnectedClients (clientId : ClientId) : Handler Unit := do
  let names ← call (S := serverSig) .readyNames
  let _ ← sendTextToClientId clientId (appendNames (ascii "Connected clients:") names)

def helpMessage : Bytes :=
  ascii "Available commands:\n" ++
  ascii "  /msg <username> <message>  Send a private message\n" ++
  ascii "  /broadcast <message>       Send a message to everyone\n" ++
  ascii "  /file <username> <path>    Send a file privately\n" ++
  ascii "  /list                      List connected users\n" ++
  ascii "  /help                      Display this help\n" ++
  ascii "  /quit                      Disconnect from the server\n"

def sendHelp (clientId : ClientId) : Handler Unit := do
  let _ ← sendTextToClientId clientId helpMessage

end CipherChat
