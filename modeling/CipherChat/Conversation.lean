import CipherChat.Network

/-!
# What is said on a connection

`send_all`, `recv_all` and the messages of `common.c`; the thread of the server that serves a
connection, from `accept` to `close`; and the client at the other end of one.
-/

namespace CipherChat

open Resumption Prog

namespace Network

/-- `poll` without a timeout, as often as it is interrupted. -/
def pollRound (_ : Unit) : NetProg (Unit ⊕ PollResult) := do
  match ← call (S := netSig) .pollForever with
  | .interrupted => pure (.inl ())
  | result => pure (.inr result)

/-- `send_all` after `SSL_ERROR_WANT_READ` or `SSL_ERROR_WANT_WRITE`. -/
def sendWait (fuel : ℕ) (totalSent : ℕ) : NetProg (ℕ ⊕ Except Errno Unit × Bool) := do
  match ← goesOn.iterate pollRound fuel () with
  | .failed e => pure (.inr (.error e, true))
  | .invalid => pure (.inr (.error .EBADF, true))
  | .ready | .interrupted => pure (.inl totalSent)

/-- One round of the loop of `send_all`: its result, and whether it sets `tls_io_failed`. -/
def sendRound (fuel : ℕ) (bytes : Bytes) (totalSent : ℕ) :
    NetProg (ℕ ⊕ Except Errno Unit × Bool) := do
  if bytes.length ≤ totalSent then pure (.inr (.ok (), false))
  else
    match ← call (S := netSig) (.sslWrite (bytes.drop totalSent)) with
    | .written n =>
      -- no call accepts more than it is given
      if n ≤ bytes.length - totalSent then pure (.inl (totalSent + n)) else goesOn
    | .failed .wantRead | .failed .wantWrite => sendWait fuel totalSent
    | .failed .zeroReturn => pure (.inr (.error .EPIPE, false))
    | .failed (.syscall (some e)) => pure (.inr (.error e, true))
    | .failed (.syscall none) | .failed .ssl => pure (.inr (.error .ECONNRESET, true))

def sendAll (fuel : ℕ) (c : Connection) (bytes : Bytes) :
    NetProg (Except Errno Unit × Connection) := do
  if c.ssl = false ∨ c.socketFd = none then pure (.error .EINVAL, c)
  else if c.tlsIoFailed then pure (.error .ECONNRESET, c)
  else
    let (result, failed) ← goesOn.iterate (sendRound fuel bytes) fuel 0
    pure (result, { c with tlsIoFailed := failed })

/-- One round of the loop of `recv_all`. -/
def recvRound (length : ℕ) (received : Bytes) : NetProg (Bytes ⊕ Except Errno Bytes × Bool) := do
  if length ≤ received.length then pure (.inr (.ok received, false))
  else
    match ← call (S := netSig) (.sslRead (length - received.length)) with
    | .data bytes =>
      if bytes.length ≤ length - received.length then pure (.inl (received ++ bytes)) else goesOn
    | .zeroReturn => pure (.inr (.ok received, false))
    | .want write errno =>
      -- on a blocking socket `EAGAIN` is a timeout
      if errno = some .EAGAIN then pure (.inr (.error .EAGAIN, write)) else pure (.inl received)
    | .failed errno => pure (.inr (.error (errno.getD .ECONNRESET), true))

/-- `recv_all`: the bytes received, fewer than asked for only at the end of the stream. -/
def recvAll (fuel : ℕ) (c : Connection) (length : ℕ) :
    NetProg (Except Errno Bytes × Connection) := do
  if c.ssl = false ∨ c.socketFd = none then pure (.error .EINVAL, c)
  else if c.tlsIoFailed then pure (.error .ECONNRESET, c)
  else
    let (result, failed) ← goesOn.iterate (recvRound length) fuel []
    pure (result, { c with tlsIoFailed := failed })

def sendMessage (fuel : ℕ) (c : Connection) (message : Bytes) :
    NetProg (Except Errno Unit × Connection) := do
  if message = [] then pure (.error .EINVAL, c)
  else if messageMaxSize < message.length then pure (.error .EMSGSIZE, c)
  else
    match ← sendAll fuel c (BigEndian.encode 4 message.length) with
    | (.error e, c) => pure (.error e, c)
    | (.ok (), c) => sendAll fuel c message

/-- `receive_message`: a message, or `none` at a clean end. -/
def receiveMessage (fuel : ℕ) (c : Connection) (capacity : ℕ) :
    NetProg (Except Errno (Option Bytes) × Connection) := do
  if capacity < 2 then pure (.error .EINVAL, c)
  else
    match ← recvAll fuel c 4 with
    | (.error e, c) => pure (.error e, c)
    | (.ok header, c) =>
      if header.length = 0 then pure (.ok none, c)
      else if header.length ≠ 4 then pure (.error .ECONNRESET, c)
      else
        let messageLength := BigEndian.decode header
        if messageLength = 0 ∨ messageMaxSize < messageLength ∨ capacity ≤ messageLength then
          pure (.error .EMSGSIZE, c)
        else
          match ← recvAll fuel c messageLength with
          | (.error e, c) => pure (.error e, c)
          | (.ok message, c) =>
            if message.length ≠ messageLength then pure (.error .ECONNRESET, c)
            else pure (.ok (some message), c)

def loginTimeout : Bytes := ascii "Login failed: username timeout.\n"

def loginInvalid : Bytes := ascii "Login failed: invalid username.\n"

/-- The answer to a login that `add_client` refuses with `errno`. -/
def loginError (e : Errno) : Bytes :=
  ascii "Login failed: " ++
    (if e = .EEXIST then ascii "username is already in use"
    else ascii "invalid username or server is full") ++ ascii ".\n"

def welcomeMessage (username : Bytes) : Bytes :=
  ascii "Welcome to CipherChat, " ++ username ++ ascii "!\n"

def sendWelcomeMessage (fuel : ℕ) (c : Connection) (username : Bytes) :
    NetProg (Except Errno Unit × Connection) :=
  if bufferSize ≤ (welcomeMessage username).length then pure (.error .EMSGSIZE, c)
  else sendMessage fuel c (welcomeMessage username)

/-- What `SSL_get_error` says of a call of `SSL_read_ex`. -/
def readResult : TlsAnswer → ReadResult
  | .data bytes => .data bytes
  | .zeroReturn => .failed .zeroReturn
  | .want write _ => .failed (if write then .wantWrite else .wantRead)
  | .failed errno => .failed (.syscall errno)

/-- The loop of `run_client_worker`, from one call to the next. -/
def workerRound (w : Worker) : NetProg (Worker ⊕ Except Errno Unit) :=
  match w.pc with
  | .drain => do
    let failure ← call (S := netSig) .eventfdRead
    pure (.inl (w.afterDrain failure))
  | .status => do
    let result ← call (S := netSig) .clientOutputStatus
    pure (.inl (w.afterStatus result))
  | .take => do
    let available ← call (S := netSig) .takeOutgoingFrame
    pure (.inl (w.afterTake available))
  | .write => do
    let result ← call (S := netSig) (.sslWrite w.unsent)
    if w.WriteOk result then pure (.inl (w.afterWrite result)) else goesOn
  | .read => do
    let answer ← call (S := netSig) (.sslRead (w.needed - w.received))
    if w.ReadOk (readResult answer) then pure (.inl (w.afterRead (readResult answer))) else goesOn
  | .handle frame => do
    let keep ← call (S := netSig) (.handleFrame frame)
    pure (.inl (w.afterHandle keep))
  | .poll => do
    let failure ← call (S := netSig) .pollBoth
    pure (.inl (w.afterPoll failure))
  | .done result => pure (.inr result)

def runClientWorker (fuel : ℕ) : NetProg (Except Errno Unit) := do
  match ← call (S := netSig) .getClientWakeFd with
  | .error e => pure (.error e)
  | .ok () =>
    match ← call (S := netSig) .getFlags with
    | .error e => pure (.error e)
    | .ok () =>
      match ← call (S := netSig) (.setFlags true) with
      | .error e => pure (.error e)
      | .ok () => goesOn.iterate workerRound fuel {}

/-- `remove_client`, on a slot that holds `c`. -/
def removeClient (fuel : ℕ) (c : Connection) (graceful : Bool) : NetProg Unit := do
  call (S := netSig) .clearSlot
  let _ ← closeConnection fuel c graceful

/-- `handle_client` after `add_client`.  The registry has a copy of the connection of its own,
and that is what `remove_client` closes. -/
def serveClient (fuel : ℕ) (c : Connection) (username : Bytes) : NetProg Unit := do
  let (welcome, _) ← sendWelcomeMessage fuel c username
  match welcome with
  | .error _ => removeClient fuel c false
  | .ok () =>
    match ← call (S := netSig) .activateClient with
    | .error _ => removeClient fuel c true
    | .ok () =>
      let result ← runClientWorker fuel
      removeClient fuel c (result matches .ok ())
      call (S := netSig) .abortFileRoutes

/-- A login that sends nothing in time is told so. -/
def answerTimeout (fuel : ℕ) (c : Connection) (e : Errno) : NetProg Connection :=
  if e = .EAGAIN then do
    let (_, c) ← sendMessage fuel c loginTimeout
    pure c
  else pure c

/-- `handle_client` after the handshake. -/
def handleLogin (fuel : ℕ) (c : Connection) : NetProg Unit := do
  let (received, c) ← receiveMessage fuel c usernameSize
  match received with
  | .error e =>
    let c ← answerTimeout fuel c e
    let _ ← closeConnection fuel c true
  | .ok none =>
    let _ ← closeConnection fuel c true
  | .ok (some username) =>
    if 0 ∈ username then
      let (_, c) ← sendMessage fuel c loginInvalid
      let _ ← closeConnection fuel c true
    else
      match ← call (S := netSig) (.addClient username) with
      | .error e =>
        let (_, c) ← sendMessage fuel c (loginError e)
        let _ ← closeConnection fuel c true
      | .ok () => serveClient fuel c username

def handleClient (fuel : ℕ) (c : Connection) : NetProg Unit := do
  let (handshake, c) ← performTlsHandshake fuel false c
  match handshake with
  | .error _ => pure ()
  | .ok () => handleLogin fuel c

/-- The loop of `main`, for one connection that `accept_client` has returned. -/
def serveConnection (fuel : ℕ) (fd : ℕ) : NetProg Unit := do
  let c : Connection := { socketFd := some fd }
  if ← call (S := netSig) .malloc then
    if ← call (S := netSig) .pthreadCreate then handleClient fuel c
    else
      let _ ← closeConnection fuel c false
  else
    let _ ← closeConnection fuel c false

/-- The check of the line that `fgets` returns: the username, up to the first NUL and newline. -/
def readUsername (line : Bytes) : Except Errno Bytes :=
  let text := line.takeWhile (· ≠ 0)
  if 10 ∉ text then .error .EINVAL
  else
    let username := text.takeWhile (· ≠ 10)
    if username.length = 0 ∨ usernameSize ≤ username.length then .error .EINVAL
    else if username.any fun character => isSpace character || isCntrl character then
      .error .EINVAL
    else .ok username

def getUsernameAndRegisterInServer (fuel : ℕ) (c : Connection) :
    NetProg (Except Errno Unit × Connection) := do
  match ← call (S := netSig) .fgets with
  | none => pure (.error .EINVAL, c)
  | some line =>
    match readUsername line with
    | .error e => pure (.error e, c)
    | .ok username => sendMessage fuel c username

/-- The end of `receive_welcome_message`. -/
def readWelcome (message : Bytes) : Except Errno Unit :=
  if message.take 13 = ascii "Login failed:" then .error .EACCES else .ok ()

def receiveWelcomeMessage (fuel : ℕ) (c : Connection) :
    NetProg (Except Errno Unit × Connection) := do
  match ← receiveMessage fuel c bufferSize with
  | (.error e, c) => pure (.error e, c)
  | (.ok none, c) => pure (.error .ECONNRESET, c)
  | (.ok (some message), c) =>
    call (S := netSig) (.fputs message)
    pure (readWelcome message, c)

def connectToServer (fuel : ℕ) (fd : ℕ) : NetProg (Except Errno Unit × Connection) := do
  match ← call (S := netSig) .connect with
  | .error e =>
    call (S := netSig) .close
    pure (.error e, {})
  | .ok () => performTlsHandshake fuel true { socketFd := some fd }

/-- One call that the client makes on its connection after login: `send_frame` and
`receive_frame` are sequences of these. -/
def sessionRound (fuel : ℕ) (c : Connection) : NetProg (Connection ⊕ Connection) := do
  match ← call (S := netSig) .event with
  | none => pure (.inr c)
  | some (.send bytes) =>
    let (_, c) ← sendAll fuel c bytes
    pure (.inl c)
  | some (.receive length) =>
    let (_, c) ← recvAll fuel c length
    pure (.inl c)

/-- `main` of the client, on a socket. -/
def clientMain (fuel : ℕ) (fd : ℕ) : NetProg Unit := do
  let (handshake, c) ← connectToServer fuel fd
  match handshake with
  | .error _ => pure ()
  | .ok () =>
    let (registered, c) ← getUsernameAndRegisterInServer fuel c
    match registered with
    | .error _ =>
      let _ ← closeConnection fuel c true
    | .ok () =>
      let (welcomed, c) ← receiveWelcomeMessage fuel c
      match welcomed with
      | .error _ =>
        let _ ← closeConnection fuel c true
      | .ok () =>
        let c ← goesOn.iterate (sessionRound fuel) fuel c
        let _ ← closeConnection fuel c true

end Network

end CipherChat
