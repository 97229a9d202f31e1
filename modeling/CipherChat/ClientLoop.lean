import CipherChat.ClientChat
import CipherChat.IncomingTable
import CipherChat.Lib.Transition

/-!
# The event loop of the client

`main` of `client.c` after login.  A callback runs until it returns; inside it,
`send_all` goes round its loop once a step, with whatever `SSL_write_ex` and `poll`
answer.  Between callbacks the environment picks what comes next: a typed line, a
frame from the server, or the end of either.
-/

namespace CipherChat

open Resumption

/-- Where `send_all` stands. -/
inductive SendPc
  | entry
  | writing (totalSent : ℕ)
  | polling (totalSent : ℕ)
  deriving DecidableEq, Repr

/-- The answers of `poll` that `send_all` tells apart; `interrupted` is `EINTR`,
`invalid` is `POLLNVAL`. -/
inductive PollResult
  | ready | interrupted | invalid
  | failed (e : Errno)
  deriving DecidableEq, Repr

/-- What the environment answers during one step of a callback. -/
structure ClientEnv where
  write : WriteResult := .failed .wantWrite
  poll : PollResult := .interrupted
  malloc : Option ℕ := none
  strdup : Bool := true
  nonce : { n : Bytes // n.length = cryptoBoxNonceBytes } := ⟨List.replicate 24 0, rfl⟩
  readFile : SendEnv := { fopen := some .ENOENT, size := 0, content := [], nonce := nonce }
  fileCalls : FileEnv := {}

/-- The answer to an operation that takes one step; `send_all` takes several. -/
def ClientEnv.answer (env : ClientEnv) : (o : ClientOp) → Option o.Resp
  | .note _ => some ()
  | .sendAll _ => none
  | .malloc => some env.malloc
  | .strdup => some env.strdup
  | .randombytesBuf => some env.nonce
  | .readFile _ => some env.readFile
  | .fileCalls => some env.fileCalls
  | .displayMessage _ => some ()
  | .displayPrivateMessage _ _ => some ()

/-- What one step of `send_all` comes to: `accepted` is what `SSL_write_ex` took, and a
return leaves `tls_io_failed` as given. -/
inductive SendStep
  | loop (pc : SendPc) (accepted : Bytes)
  | returned (result : Except Errno Unit) (tlsIoFailed : Bool)
  deriving DecidableEq

/-- `send_all`, one step. -/
def sendAllStep (tlsIoFailed : Bool) (bytes : Bytes) (env : ClientEnv) : SendPc → Option SendStep
  | .entry =>
    if tlsIoFailed then some (.returned (.error .ECONNRESET) tlsIoFailed)
    else some (.loop (.writing 0) [])
  | .writing totalSent =>
    if bytes.length ≤ totalSent then some (.returned (.ok ()) tlsIoFailed)
    else
      match env.write with
      | .written n =>
        if n ≤ bytes.length - totalSent then
          some (.loop (.writing (totalSent + n)) ((bytes.drop totalSent).take n))
        else none
      | .failed .wantRead | .failed .wantWrite => some (.loop (.polling totalSent) [])
      | .failed .zeroReturn => some (.returned (.error .EPIPE) tlsIoFailed)
      | .failed (.syscall (some e)) => some (.returned (.error e) true)
      | .failed (.syscall none) | .failed .ssl => some (.returned (.error .ECONNRESET) true)
  | .polling totalSent =>
    match env.poll with
    | .ready => some (.loop (.writing totalSent) [])
    | .interrupted => some (.loop (.polling totalSent) [])
    | .invalid => some (.returned (.error .EBADF) true)
    | .failed e => some (.returned (.error e) true)

/-- The history of a run. -/
inductive ClientEvent
  /-- A line is passed to `handle_input`. -/
  | typed (line : Bytes)
  /-- A frame is passed to `handle_server_frame`. -/
  | received (frame : Bytes)
  | note (n : ClientNote)
  /-- `SSL_write_ex` accepted bytes. -/
  | accepted (bytes : Bytes)
  /-- `send_all` returned -1. -/
  | failed (e : Errno)
  deriving DecidableEq

structure ClientProcess where
  state : ClientState
  tlsIoFailed : Bool := false
  /-- What is left of the callback; `none` in the event loop. -/
  callback : Option (ClientProg ClientState)
  sending : SendPc := .entry
  log : List ClientEvent := []

inductive ClientLabel
  /-- `handle_input`; `none` is the end of the input. -/
  | typed (line : Option Bytes)
  /-- `receive_frame`; `none` is a closed connection. -/
  | received (result : Except Errno (Option Bytes))
  /-- The `poll` of the event loop fails. -/
  | pollFailed
  /-- The callback moves on. -/
  | go (env : ClientEnv)

/-- What `receive_frame` returns: a type byte that names a frame, and at most
`FRAME_MAX_SIZE` bytes. -/
def Receivable (frame : Bytes) : Prop :=
  frame.length ≤ frameMaxSize ∧ ∃ b ∈ frame.head?, isValidFrameType b = true

instance (frame : Bytes) : Decidable (Receivable frame) :=
  inferInstanceAs (Decidable (_ ∧ ∃ b ∈ frame.head?, _))

namespace ClientProcess

def event : ClientOp → List ClientEvent
  | .note n => [.note n]
  | _ => []

/-- A step of the callback `p`. -/
def move (c : ClientProcess) (env : ClientEnv) : ClientProg ClientState → Option ClientProcess
  | .ret s => some { c with state := s, callback := none }
  | .op (.sendAll bytes) k =>
    match sendAllStep c.tlsIoFailed bytes env c.sending with
    | some (.loop pc accepted) =>
      some { c with sending := pc, log := c.log ++ [.accepted accepted] }
    | some (.returned (.ok ()) tlsIoFailed) =>
      some { c with tlsIoFailed, sending := .entry, callback := some (k (.ok ())) }
    | some (.returned (.error e) tlsIoFailed) =>
      some { c with
        tlsIoFailed
        sending := .entry
        callback := some (k (.error e))
        log := c.log ++ [.failed e] }
    | none => none
  | .op o k =>
    match env.answer o with
    | some r => some { c with callback := some (k r), log := c.log ++ event o }
    | none => none

/-- The event loop, between two callbacks. -/
def dispatch (cfg : ClientConfig) (c : ClientProcess) : ClientLabel → Option ClientProcess
  | .typed none => some { c with state := { c.state with connected := false } }
  | .typed (some line) =>
    if 0 ∈ line then none
    else some { c with callback := some (handleInput c.state line), log := c.log ++ [.typed line] }
  | .received (.error _) | .pollFailed =>
    some { c with state := { c.state with clientExitCode := 1, connected := false } }
  | .received (.ok none) => some { c with state := { c.state with connected := false } }
  | .received (.ok (some frame)) =>
    if Receivable frame then
      some { c with
        callback := some (handleServerFrame cfg c.state frame)
        log := c.log ++ [.received frame] }
    else none
  | .go _ => none

def step (cfg : ClientConfig) (c : ClientProcess) (l : ClientLabel) : Option ClientProcess :=
  match c.callback, l with
  | some p, .go env => c.move env p
  | some _, _ => none
  | none, l => if c.state.connected then c.dispatch cfg l else none

/-- Logged in, over a given file system. -/
def start (cfg : ClientConfig) (store : FileStore Bytes UInt8) : ClientProcess :=
  let state : ClientState := { files := .start store }
  { state, callback := some (registerKey cfg state) }

end ClientProcess

def client (cfg : ClientConfig) (store : FileStore Bytes UInt8) :
    Transition.System ClientProcess ClientLabel where
  init := .start cfg store
  step := ClientProcess.step cfg

open Receiver

theorem sampleBox_length (message nonce publicKey privateKey ciphertext : Bytes)
    (h : sampleBox.easy message nonce publicKey privateKey = some ciphertext) :
    ciphertext.length = message.length + cryptoBoxMacBytes := by
  have heasy : (if message = sampleMessage ∧ nonce = sampleNonce ∧ publicKey = bobPublicKey ∧
    privateKey = alicePrivateKey then some sampleCiphertext else none) = some ciphertext := h
  split at heasy
  · next hin =>
    obtain rfl := Option.some.inj heasy
    rw [hin.1]
    rfl
  · cases heasy

/-- Alice's and Bob's clients, with the keys of the sample file. -/
def aliceClient : ClientConfig where
  directory := downloadDirectory
  pid := ⟨8, by decide⟩
  box := sampleBox
  privateKey := alicePrivateKey
  publicKey := ⟨alicePublicKey, alicePublicKey_length⟩
  easy_length := sampleBox_length

def bobClient : ClientConfig where
  toReceiverConfig := bobConfig
  publicKey := ⟨bobPublicKey, bobPublicKey_length⟩
  easy_length := sampleBox_length

end CipherChat
