import CipherChat.ClientLoop
import CipherChat.FrameReader

/-!
# Connections

`network.c` and the transport half of `common.c`, as programs over the calls they make.  A call
returns whatever it likes.  A loop goes round at most `fuel` times and then waits for an answer
that never comes, so what holds for every `fuel` holds of every run, however long.
-/

namespace CipherChat

open Resumption Prog

def Errno.ETIMEDOUT : Errno := .other 110

def Errno.EACCES : Errno := .other 13

namespace Network

/-- `TLS_HANDSHAKE_TIMEOUT_SEC` and `TLS_SHUTDOWN_TIMEOUT_SEC`, in milliseconds. -/
def tlsHandshakeTimeout : ℤ := 10 * 1000
def tlsShutdownTimeout : ℤ := 2 * 1000

def intMax : ℤ := 2 ^ 31 - 1

/-- What `SSL_shutdown` returns: 1, 0 or an error. -/
inductive ShutdownResult
  | done | sent
  | failed (e : SslError)
  deriving DecidableEq

inductive NetOp
  /-- `monotonic_milliseconds`. -/
  | clockGettime
  /-- `fcntl` with `F_GETFL`, and with `F_SETFL`. -/
  | getFlags
  | setFlags (nonblock : Bool)
  /-- `create_context`; where it calls `exit`, it gives no answer and the program ends in it. -/
  | createContext (isClient : Bool)
  | freeContext
  | sslNew
  | sslSetFd
  /-- `X509_VERIFY_PARAM_set1_ip_asc`. -/
  | sslSetIp
  /-- `SSL_connect` or `SSL_accept`. -/
  | sslHandshake (isClient : Bool)
  | sslRead (count : ℕ)
  | sslWrite (bytes : Bytes)
  | sslShutdown
  | sslFree
  | close
  /-- `poll` on the socket with a timeout; `none` is 0. -/
  | poll (wait : Wait) (timeout : ℤ)
  /-- `poll` on the socket without one. -/
  | pollForever
  /-- The calls of the server's threads outside the connection. -/
  | malloc
  | pthreadCreate
  | addClient (username : Bytes)
  | activateClient
  | getClientWakeFd
  | eventfdRead
  | clientOutputStatus
  | takeOutgoingFrame
  | handleFrame (frame : Bytes)
  | pollBoth
  | clearSlot
  | abortFileRoutes
  /-- The calls of the client outside the connection. -/
  | connect
  | fgets
  /-- `fputs` of the answer to a login. -/
  | fputs (string : Bytes)
  /-- What the event loop of the client does next with its connection. -/
  | event
  /-- Nothing answers. -/
  | forever
  deriving DecidableEq

/-- What a client does with its connection between login and the end. -/
inductive ClientCall
  | send (bytes : Bytes)
  | receive (length : ℕ)

/-- An error of `Option Errno` is a call that need not set `errno`. -/
abbrev NetOp.Resp : NetOp → Type
  | .clockGettime => Except Errno ℤ
  | .getFlags | .setFlags _ => Except Errno Unit
  | .createContext _ | .freeContext | .sslFree | .close => Unit
  | .clearSlot | .abortFileRoutes | .fputs _ => Unit
  | .sslNew | .sslSetFd | .sslSetIp => Except (Option Errno) Unit
  | .sslHandshake _ => Except SslError Unit
  | .sslRead _ => TlsAnswer
  | .sslWrite _ => WriteResult
  | .sslShutdown => ShutdownResult
  | .poll _ _ => Option PollResult
  | .pollForever => PollResult
  | .addClient _ | .activateClient | .getClientWakeFd | .connect => Except Errno Unit
  | .eventfdRead | .pollBoth => Option Errno
  | .clientOutputStatus => Except Errno Unit
  | .takeOutgoingFrame => Except Errno (Option OutgoingFrame)
  | .handleFrame _ | .malloc | .pthreadCreate => Bool
  | .fgets => Option Bytes
  | .event => Option ClientCall
  | .forever => Empty

abbrev netSig : Sig where
  Op := NetOp
  Resp := NetOp.Resp

abbrev NetProg := Prog netSig

/-- The rest of a loop that goes on. -/
def goesOn {α : Type} : NetProg α := .op .forever nofun

/-- `Connection`; a `socket_fd` of -1 is no socket. -/
structure Connection where
  socketFd : Option ℕ := none
  ssl : Bool := false
  tlsIoFailed : Bool := false
  deriving DecidableEq

def remainingMilliseconds (deadline : ℤ) : NetProg (Except Errno ℤ) := do
  match ← call (S := netSig) .clockGettime with
  | .error e => pure (.error e)
  | .ok now =>
    if deadline ≤ now then pure (.error .ETIMEDOUT) else pure (.ok (min (deadline - now) intMax))

/-- One round of the loop of `wait_for_tls`. -/
def waitRound (wait : Wait) (deadline : ℤ) (_ : Unit) : NetProg (Unit ⊕ Except Errno Unit) := do
  match ← remainingMilliseconds deadline with
  | .error e => pure (.inr (.error e))
  | .ok remaining =>
    match ← call (S := netSig) (.poll wait remaining) with
    -- the time left is recomputed, the timer never restarted
    | some .interrupted => pure (.inl ())
    | none => pure (.inr (.error .ETIMEDOUT))
    | some (.failed e) => pure (.inr (.error e))
    | some .invalid => pure (.inr (.error .EBADF))
    | some .ready => pure (.inr (.ok ()))

/-- `wait_for_tls`, after `SSL_ERROR_WANT_READ` or `SSL_ERROR_WANT_WRITE`. -/
def waitForTls (fuel : ℕ) (error : SslError) (deadline : ℤ) : NetProg (Except Errno Unit) :=
  goesOn.iterate (waitRound (if error = .wantRead then .pollin else .pollout) deadline) fuel ()

/-- What `shutdown_tls` does when a call has failed. -/
def shutdownRetry (fuel : ℕ) (deadline : ℤ) (sentNotify : Bool) (error : SslError) :
    NetProg (Bool ⊕ Unit) := do
  if error ≠ .wantRead ∧ error ≠ .wantWrite then pure (.inr ())
  else
    match ← waitForTls fuel error deadline with
    | .error _ => pure (.inr ())
    | .ok () => pure (.inl sentNotify)

/-- One round of the loop of `shutdown_tls`. -/
def shutdownRound (fuel : ℕ) (deadline : ℤ) (sentNotify : Bool) : NetProg (Bool ⊕ Unit) := do
  match ← remainingMilliseconds deadline with
  | .error _ => pure (.inr ())
  | .ok _ =>
    if sentNotify = false then
      match ← call (S := netSig) .sslShutdown with
      | .done => pure (.inr ())
      | .sent => pure (.inl true)
      | .failed error => shutdownRetry fuel deadline false error
    else
      match ← call (S := netSig) (.sslRead 4096) with
      | .data _ => pure (.inl true)
      | .zeroReturn => shutdownRetry fuel deadline true .zeroReturn
      | .want write _ => shutdownRetry fuel deadline true (if write then .wantWrite else .wantRead)
      | .failed errno => shutdownRetry fuel deadline true (.syscall errno)

def shutdownTls (fuel : ℕ) : NetProg Unit := do
  match ← call (S := netSig) .clockGettime with
  | .error _ => pure ()
  | .ok started =>
    match ← call (S := netSig) .getFlags with
    | .error _ => pure ()
    | .ok () =>
      match ← call (S := netSig) (.setFlags true) with
      | .error _ => pure ()
      | .ok () =>
        goesOn.iterate (shutdownRound fuel (started + tlsShutdownTimeout)) fuel false

/-- The end of `close_connection`. -/
def releaseConnection (c : Connection) : NetProg Connection := do
  if c.ssl then call (S := netSig) .sslFree else pure ()
  if c.socketFd.isSome then call (S := netSig) .close else pure ()
  pure {}

/-- `close_connection`: the connection afterwards. -/
def closeConnection (fuel : ℕ) (c : Connection) (graceful : Bool) : NetProg Connection :=
  if c.ssl ∧ c.socketFd.isSome ∧ graceful ∧ c.tlsIoFailed = false then do
    shutdownTls fuel
    releaseConnection c
  else releaseConnection c

/-- One round of the loop of `perform_tls_handshake`. -/
def handshakeRound (fuel : ℕ) (isClient : Bool) (deadline : ℤ) (_ : Unit) :
    NetProg (Unit ⊕ Except Errno Unit) := do
  match ← remainingMilliseconds deadline with
  | .error e => pure (.inr (.error e))
  | .ok _ =>
    match ← call (S := netSig) (.sslHandshake isClient) with
    | .ok () =>
      match ← remainingMilliseconds deadline with
      | .error e => pure (.inr (.error e))
      | .ok _ => pure (.inr (.ok ()))
    | .error error =>
      if error ≠ .wantRead ∧ error ≠ .wantWrite then
        match error with
        | .syscall (some e) => pure (.inr (.error e))
        | _ => pure (.inr (.error .EPROTO))
      else
        match ← waitForTls fuel error deadline with
        | .error e => pure (.inr (.error e))
        | .ok () => pure (.inl ())

/-- A client names the address that the certificate is to have. -/
def expectServerIp (isClient : Bool) : NetProg (Except (Option Errno) Unit) :=
  if isClient then call (S := netSig) .sslSetIp else pure (.ok ())

/-- `perform_tls_handshake` with an `SSL` of its own, up to `goto fail` with `errno` or to the end
of the handshake. -/
def handshakeWith (fuel : ℕ) (isClient : Bool) (deadline : ℤ) :
    NetProg (Except (Option Errno) Unit) := do
  match ← call (S := netSig) .getFlags with
  | .error e => pure (.error (some e))
  | .ok () =>
    match ← call (S := netSig) (.setFlags true) with
    | .error e => pure (.error (some e))
    | .ok () =>
      match ← call (S := netSig) .sslSetFd with
      | .error e => pure (.error e)
      | .ok () =>
        match ← expectServerIp isClient with
        | .error e => pure (.error e)
        | .ok () =>
          match ← goesOn.iterate (handshakeRound fuel isClient deadline) fuel () with
          | .error e => pure (.error (some e))
          | .ok () =>
            match ← call (S := netSig) (.setFlags false) with
            | .error e => pure (.error (some e))
            | .ok () => pure (.ok ())

/-- `perform_tls_handshake`: its result, and the connection afterwards. -/
def performTlsHandshake (fuel : ℕ) (isClient : Bool) (c : Connection) :
    NetProg (Except Errno Unit × Connection) := do
  match ← call (S := netSig) .clockGettime with
  | .error e =>
    let c ← closeConnection fuel c false
    pure (.error e, c)
  | .ok started =>
    call (S := netSig) (.createContext isClient)
    let ssl ← call (S := netSig) .sslNew
    call (S := netSig) .freeContext
    match ssl with
    | .error e =>
      let c ← closeConnection fuel c false
      pure (.error (e.getD .EPROTO), c)
    | .ok () =>
      match ← handshakeWith fuel isClient (started + tlsHandshakeTimeout) with
      | .error e =>
        call (S := netSig) .sslFree
        let c ← closeConnection fuel c false
        pure (.error (e.getD .EPROTO), c)
      | .ok () => pure (.ok (), { c with ssl := true, tlsIoFailed := false })

end Network

end CipherChat
