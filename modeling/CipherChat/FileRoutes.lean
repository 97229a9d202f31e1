import CipherChat.Frame
import CipherChat.Lib.Slots

/-!
# The route table

`server_file_routes.c`: 400 slots keyed by sender and source transfer id.  A live
route forwards to its target under an outbound id; a discard route is a
tombstone that swallows what the sender still sends under that key.  Each
function below is one critical section of `routes_mutex`.
-/

namespace CipherChat

def fileRouteCapacity : ℕ := maxClients * 4

structure FileRoute where
  active : Bool := false
  discard : Bool := false
  senderId : ClientId := 0
  targetId : ClientId := 0
  sourceTransferId : UInt32 := 0
  outboundTransferId : UInt32 := 0
  expectedSize : UInt64 := 0
  forwardedSize : UInt64 := 0
  deriving DecidableEq, Repr

structure FileRoutes where
  routes : Fin fileRouteCapacity → FileRoute
  nextOutboundTransferId : UInt32

structure FileRouteEndpoint where
  targetId : ClientId := invalidClientId
  outboundTransferId : UInt32 := 0
  deriving DecidableEq, Repr

inductive FileRouteAddResult
  | ready | discard | duplicate | full | idUnavailable
  deriving DecidableEq, Repr

inductive FileRouteChunkResult
  | ready | discard | missing | overrun
  deriving DecidableEq, Repr

inductive FileRouteFinishResult
  | ready | discard | missing | incomplete
  deriving DecidableEq, Repr

inductive FileRouteAbortActionType
  | sendError | notifySender
  deriving DecidableEq, Repr

structure FileRouteAbortAction where
  type : FileRouteAbortActionType
  clientId : ClientId
  outboundTransferId : UInt32
  deriving DecidableEq, Repr

/-- A route that forwards. -/
def FileRoute.Live (r : FileRoute) : Prop := r.active = true ∧ r.discard = false

instance (r : FileRoute) : Decidable r.Live := inferInstanceAs (Decidable (_ ∧ _))

def FileRoute.HasKey (r : FileRoute) (senderId : ClientId) (sourceTransferId : UInt32) : Prop :=
  r.senderId = senderId ∧ r.sourceTransferId = sourceTransferId

def copyEndpoint (route : FileRoute) : FileRouteEndpoint where
  targetId := route.targetId
  outboundTransferId := route.outboundTransferId

def makeDiscardRoute (senderId : ClientId) (sourceTransferId : UInt32) : FileRoute where
  active := true
  discard := true
  senderId := senderId
  targetId := invalidClientId
  sourceTransferId := sourceTransferId

namespace FileRoutes

/-- `file_routes_init`; also the contents of the static table at start. -/
def init : FileRoutes where
  routes := fun _ => {}
  nextOutboundTransferId := 1

def set (t : FileRoutes) (i : Fin fileRouteCapacity) (r : FileRoute) : FileRoutes :=
  { t with routes := Function.update t.routes i r }

def findRoute (t : FileRoutes) (senderId : ClientId) (sourceTransferId : UInt32) :
    Option (Fin fileRouteCapacity) :=
  Fin.find? fun index => (t.routes index).active && (t.routes index).senderId == senderId &&
    (t.routes index).sourceTransferId == sourceTransferId

def findFreeRoute (t : FileRoutes) : Option (Fin fileRouteCapacity) :=
  Fin.find? fun index => !(t.routes index).active

/-- Whether a live route already forwards under `candidate`. -/
def inUse (t : FileRoutes) (candidate : UInt32) : Bool :=
  (Fin.find? fun index => (t.routes index).active && !(t.routes index).discard &&
    (t.routes index).outboundTransferId == candidate).isSome

/-- The attempts of `allocate_outbound_id_locked`: the id found (0 for none) and
the counter afterwards. -/
def allocateAttempts (t : FileRoutes) : ℕ → UInt32 → UInt32 × UInt32
  | 0, next => (0, next)
  | attempts + 1, next =>
    -- `next++`, once more when the value it had was 0
    let candidate := if next = 0 then next + 1 else next
    if t.inUse candidate then t.allocateAttempts attempts (candidate + 1)
    else (candidate, candidate + 1)

def allocateOutboundId (t : FileRoutes) : UInt32 × FileRoutes :=
  let found := t.allocateAttempts (fileRouteCapacity + 1) t.nextOutboundTransferId
  (found.1, { t with nextOutboundTransferId := found.2 })

structure AddAnswer where
  result : FileRouteAddResult
  endpoint : FileRouteEndpoint := {}
  replaced : FileRouteEndpoint := {}
  deriving DecidableEq, Repr

def add (t : FileRoutes) (senderId : ClientId) (sourceTransferId : UInt32) (targetId : ClientId)
    (expectedSize : UInt64) (discard : Bool) : FileRoutes × AddAnswer :=
  match t.findRoute senderId sourceTransferId with
  | some route =>
    (t.set route (makeDiscardRoute senderId sourceTransferId),
      { result := .duplicate
        replaced := if (t.routes route).discard then {} else copyEndpoint (t.routes route) })
  | none =>
    match t.findFreeRoute with
    | none => (t, { result := .full })
    | some route =>
      if discard then
        (t.set route (makeDiscardRoute senderId sourceTransferId), { result := .discard })
      else
        let (outboundTransferId, t) := t.allocateOutboundId
        if outboundTransferId = 0 then (t, { result := .idUnavailable })
        else
          let added : FileRoute :=
            { active := true, senderId, targetId, sourceTransferId,
              outboundTransferId, expectedSize }
          (t.set route added, { result := .ready, endpoint := copyEndpoint added })

structure QuarantineAnswer where
  wasForwarding : Bool
  previous : FileRouteEndpoint := {}
  deriving DecidableEq, Repr

def quarantine (t : FileRoutes) (senderId : ClientId) (sourceTransferId : UInt32)
    (keepDiscard : Bool) : FileRoutes × QuarantineAnswer :=
  match t.findRoute senderId sourceTransferId with
  | some route =>
    (t.set route (if keepDiscard then makeDiscardRoute senderId sourceTransferId else {}),
      if (t.routes route).discard then { wasForwarding := false }
      else { wasForwarding := true, previous := copyEndpoint (t.routes route) })
  | none =>
    if keepDiscard then
      match t.findFreeRoute with
      | some route =>
        (t.set route (makeDiscardRoute senderId sourceTransferId), { wasForwarding := false })
      | none => (t, { wasForwarding := false })
    else (t, { wasForwarding := false })

structure ChunkAnswer where
  result : FileRouteChunkResult
  endpoint : FileRouteEndpoint := {}
  deriving DecidableEq, Repr

def acceptChunk (t : FileRoutes) (senderId : ClientId) (sourceTransferId : UInt32)
    (chunkLength : UInt64) : FileRoutes × ChunkAnswer :=
  match t.findRoute senderId sourceTransferId with
  | none =>
    match t.findFreeRoute with
    | some route =>
      (t.set route (makeDiscardRoute senderId sourceTransferId), { result := .missing })
    | none => (t, { result := .missing })
  | some route =>
    let r := t.routes route
    if r.discard then (t, { result := .discard })
    else if r.forwardedSize > r.expectedSize ∨ chunkLength > r.expectedSize - r.forwardedSize then
      (t.set route (makeDiscardRoute senderId sourceTransferId),
        { result := .overrun, endpoint := copyEndpoint r })
    else
      (t.set route { r with forwardedSize := r.forwardedSize + chunkLength },
        { result := .ready, endpoint := copyEndpoint r })

def markForwardFailed (t : FileRoutes) (senderId : ClientId) (sourceTransferId : UInt32)
    (outboundTransferId : UInt32) : FileRoutes × Bool :=
  match t.findRoute senderId sourceTransferId with
  | some route =>
    if (t.routes route).discard = false ∧
        (t.routes route).outboundTransferId = outboundTransferId then
      (t.set route (makeDiscardRoute senderId sourceTransferId), true)
    else (t, false)
  | none => (t, false)

structure FinishAnswer where
  result : FileRouteFinishResult
  endpoint : FileRouteEndpoint := {}
  deriving DecidableEq, Repr

def finish (t : FileRoutes) (senderId : ClientId) (sourceTransferId : UInt32)
    (validateSize : Bool) : FileRoutes × FinishAnswer :=
  match t.findRoute senderId sourceTransferId with
  | none => (t, { result := .missing })
  | some route =>
    let r := t.routes route
    if r.discard then (t.set route {}, { result := .discard })
    else
      (t.set route {},
        { result := if validateSize ∧ r.forwardedSize ≠ r.expectedSize then .incomplete else .ready
          endpoint := copyEndpoint r })

/-- One iteration of the loop of `file_routes_abort_client`. -/
def abortSlot (clientId : ClientId) (actionCapacity : ℕ)
    (p : (Fin fileRouteCapacity → FileRoute) × List FileRouteAbortAction)
    (index : Fin fileRouteCapacity) :
    (Fin fileRouteCapacity → FileRoute) × List FileRouteAbortAction :=
  let (routes, actions) := p
  let route := routes index
  if !route.active || (route.senderId != clientId && route.targetId != clientId) then
    (routes, actions)
  else if !route.discard && route.senderId == clientId && route.targetId != invalidClientId &&
      route.targetId != clientId then
    (Function.update routes index {},
      if actions.length < actionCapacity then
        actions ++ [{ type := .sendError, clientId := route.targetId,
                      outboundTransferId := route.outboundTransferId }]
      else actions)
  else if !route.discard && route.targetId == clientId && route.senderId != invalidClientId &&
      route.senderId != clientId then
    (Function.update routes index (makeDiscardRoute route.senderId route.sourceTransferId),
      if actions.length < actionCapacity then
        actions ++ [{ type := .notifySender, clientId := route.senderId, outboundTransferId := 0 }]
      else actions)
  else (Function.update routes index {}, actions)

/-- `file_routes_abort_client`; a null `actions` is capacity 0. -/
def abortClient (t : FileRoutes) (clientId : ClientId) (actionCapacity : ℕ) :
    FileRoutes × List FileRouteAbortAction :=
  if clientId = invalidClientId then (t, [])
  else
    let swept := (List.finRange fileRouteCapacity).foldl (abortSlot clientId actionCapacity)
      (t.routes, [])
    ({ t with routes := swept.1 }, swept.2)

end FileRoutes

end CipherChat
