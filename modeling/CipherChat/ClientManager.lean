import CipherChat.Frame
import CipherChat.Lib.LinkedQueue
import CipherChat.Lib.Slots

/-!
# The client registry

`client_manager.c`: 100 slots, each with a login, a key, an event counter and a
linked queue of outgoing frames.  Each function below is one critical section of
`clients_mutex`, together with the `malloc` before it or the `free` after it,
which touch a node no other thread can see.
-/

namespace CipherChat

open LinkedQueue

def maxOutgoingFrames : ℕ := 128

structure OutgoingFrame where
  type : FrameType
  payload : Bytes
  deriving DecidableEq, Repr

structure Client where
  /-- The counter behind the eventfd; `none` when the descriptor is -1. -/
  wakeFd : Option ℕ := none
  /-- The C string in the `username` array. -/
  username : Bytes := []
  active : Bool := false
  ready : Bool := false
  id : ClientId := invalidClientId
  publicKey : Bytes := List.replicate chatPublicKeySize 0
  hasPublicKey : Bool := false
  /-- `outgoing_head`, `outgoing_tail` and `outgoing_count`. -/
  outgoing : Queue := {}
  outgoingFailed : Bool := false

structure ClientManager where
  clients : Fin maxClients → Client
  nextClientId : ClientId
  /-- The allocated `OutgoingFrame` nodes. -/
  heap : Heap OutgoingFrame

/-- `username_is_valid`, on a C string. -/
def usernameIsValid (username : Bytes) : Bool :=
  !(username.length == 0 || username.length ≥ usernameSize) &&
    username.all fun character => !(isCntrl character || isSpace character)

def eventfdMax : ℕ := 2 ^ 64 - 2

/-- `eventfd_write(fd, 1)`: at the maximum it fails with `EAGAIN` and the counter stays. -/
def eventfdWrite (counter : ℕ) : ℕ := min (counter + 1) eventfdMax

/-- `malloc`: the environment offers an address or none; an address in use is no answer. -/
def malloc (heap : Heap OutgoingFrame) (choice : Option ℕ) : Option ℕ :=
  choice.filter fun a => (heap a).isNone

namespace ClientManager

def init : ClientManager where
  clients := fun _ => {}
  nextClientId := 1
  heap := fun _ => none

def set (m : ClientManager) (i : Fin maxClients) (c : Client) : ClientManager :=
  { m with clients := Function.update m.clients i c }

/-- `allocate_client_id`: the id and the counter afterwards. -/
def allocateClientId (m : ClientManager) : ClientId × ClientId :=
  let clientId := if m.nextClientId = invalidClientId then m.nextClientId + 1 else m.nextClientId
  (clientId, clientId + 1)

/-- `add_client`, for an open connection; `eventfd` is the failure of `eventfd()`, if any. -/
def addClient (m : ClientManager) (username : Bytes) (eventfd : Option Errno) :
    Except Errno (Fin maxClients) × ClientManager :=
  if !usernameIsValid username then (.error .EINVAL, m)
  else if (Fin.find? fun i => (m.clients i).active &&
      (m.clients i).username == username).isSome then
    (.error .EEXIST, m)
  else
    match Fin.find? fun i => !(m.clients i).active with
    | none => (.error .ENOSPC, m)
    | some freeIndex =>
      match eventfd with
      | some e => (.error e, m)
      | none =>
        let (clientId, nextClientId) := m.allocateClientId
        let client := { m.clients freeIndex with
          wakeFd := some 0
          outgoingFailed := false
          active := true
          ready := false
          id := clientId
          hasPublicKey := false
          username := username }
        (.ok freeIndex, { m.set freeIndex client with nextClientId })

def activateClient (m : ClientManager) (index : Fin maxClients) :
    Except Errno Unit × ClientManager :=
  if !(m.clients index).active then (.error .ENOENT, m)
  else (.ok (), m.set index { m.clients index with ready := true })

/-- `remove_client`: clears the slot, closes the eventfd and frees the pending frames. -/
def removeClient (m : ClientManager) (index : Fin maxClients) : ClientManager :=
  if !(m.clients index).active then m
  else
    { m.set index {} with
      heap := freeChain m.heap (m.clients index).outgoing.count (m.clients index).outgoing.head }

def getClientId (m : ClientManager) (index : Fin maxClients) : ClientId :=
  if (m.clients index).active then (m.clients index).id else invalidClientId

def findClientId (m : ClientManager) (username : Bytes) : ClientId :=
  match Fin.find? fun i => (m.clients i).active && (m.clients i).ready &&
      (m.clients i).username == username with
  | some i => (m.clients i).id
  | none => invalidClientId

/-- The slot of a client that accepts frames. -/
def findReady (m : ClientManager) (clientId : ClientId) : Option (Fin maxClients) :=
  Fin.find? fun i => (m.clients i).active && (m.clients i).ready && (m.clients i).id == clientId

/-- The slot of a client, ready or not. -/
def findActive (m : ClientManager) (clientId : ClientId) : Option (Fin maxClients) :=
  Fin.find? fun i => (m.clients i).active && (m.clients i).id == clientId

def registerClientPublicKey (m : ClientManager) (clientId : ClientId) (key : Bytes) :
    Except Errno Unit × ClientManager :=
  match m.findReady clientId with
  | some i =>
    if (m.clients i).hasPublicKey && (m.clients i).publicKey != key then (.error .EINVAL, m)
    else (.ok (), m.set i { m.clients i with publicKey := key, hasPublicKey := true })
  | none => (.error .ENOENT, m)

/-- `get_client_public_key`; `none` is `ENOENT`. -/
def getClientPublicKey (m : ClientManager) (clientId : ClientId) : Option Bytes :=
  match Fin.find? fun i => (m.clients i).active && (m.clients i).ready &&
      (m.clients i).id == clientId && (m.clients i).hasPublicKey with
  | some i => some (m.clients i).publicKey
  | none => none

/-- The `eventfd_write` of `queue_frame_to_client_id`. -/
def signal (m : ClientManager) (i : Fin maxClients) : ClientManager :=
  m.set i { m.clients i with wakeFd := (m.clients i).wakeFd.map eventfdWrite }

/-- The rest of `queue_frame_to_client_id` under the lock: link the frame at the
tail, or mark a full client failed. -/
def link (m : ClientManager) (i : Fin maxClients) (address : ℕ) (frame : OutgoingFrame) :
    Except Errno Unit × ClientManager :=
  let client := m.clients i
  if maxOutgoingFrames ≤ client.outgoing.count then
    (.error .ENOBUFS, m.set i { client with outgoingFailed := true, ready := false })
  else
    let (heap, outgoing) := enqueue m.heap client.outgoing address frame
    (.ok (), { m.set i { client with outgoing } with heap })

/-- `queue_frame_to_client_id`.  `address` is what `malloc` finds, `notified` the
failure of `eventfd_write` other than `EAGAIN`, if any. -/
def queueFrameToClientId (m : ClientManager) (address : Option ℕ) (notified : Option Errno)
    (clientId : ClientId) (type : FrameType) (payload : Bytes) :
      Except Errno Unit × ClientManager :=
  if clientId = invalidClientId then (.error .EINVAL, m)
  else if payload.length > frameMaxSize - 1 then (.error .EMSGSIZE, m)
  else
    match malloc m.heap address with
    | none => (.error .ENOMEM, m)
    | some a =>
      match m.findReady clientId with
      | none => (.error .ENOENT, m)
      | some i =>
        match notified with
        | some e => (.error e, m)
        | none => (m.signal i).link i a { type, payload }

/-- `take_outgoing_frame`; the caller copies the frame and frees the node. -/
def takeOutgoingFrame (m : ClientManager) (clientId : ClientId) :
    Except Errno (Option OutgoingFrame) × ClientManager :=
  if clientId = invalidClientId then (.error .EINVAL, m)
  else
    match m.findActive clientId with
    | none => (.error .ENOENT, m)
    | some i =>
      let client := m.clients i
      if client.outgoingFailed then (.error .ENOBUFS, m)
      else
        let (frame, heap, outgoing) := dequeue m.heap client.outgoing
        (.ok frame, { m.set i { client with outgoing } with heap })

def clientOutputStatus (m : ClientManager) (clientId : ClientId) : Except Errno Unit :=
  match m.findActive clientId with
  | some i => if (m.clients i).outgoingFailed then .error .ENOBUFS else .ok ()
  | none => .error .ENOENT

/-- `get_client_wake_fd`: whether the client has an open descriptor. -/
def getClientWakeFd (m : ClientManager) (clientId : ClientId) : Except Errno Unit :=
  match m.findActive clientId with
  | some i => if (m.clients i).wakeFd.isSome then .ok () else .error .EBADF
  | none => .error .ENOENT

/-- `eventfd_read` on the descriptor of slot `i`: the counter is taken and reset. -/
def drain (m : ClientManager) (i : Fin maxClients) : ClientManager :=
  m.set i { m.clients i with wakeFd := (m.clients i).wakeFd.map fun _ => 0 }

/-- The recipients that `send_message_to_all_clients` collects, in slot order. -/
def recipients (m : ClientManager) (senderId : ClientId) : List ClientId :=
  (List.finRange maxClients).filterMap fun i =>
    if (m.clients i).active && (m.clients i).ready && (m.clients i).id != senderId then
      some (m.clients i).id
    else none

/-- The names that `log_connected_clients` prints, in slot order. -/
def readyNames (m : ClientManager) : List Bytes :=
  (List.finRange maxClients).filterMap fun i =>
    if (m.clients i).active && (m.clients i).ready then some (m.clients i).username else none

end ClientManager

end CipherChat
