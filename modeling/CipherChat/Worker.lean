import CipherChat.ClientManager

/-!
# The worker loop of a connection

`server_worker.c`.  `pc` names the call the loop makes next; each `after…`
function is the code from the return of that call to the next one.  The local
variables keep their names.  `incoming` holds the first `received` bytes of the
buffer.
-/

namespace CipherChat

/-- `0`, `POLLIN` or `POLLOUT`. -/
inductive Wait
  | none | pollin | pollout
  deriving DecidableEq, Repr

/-- `SSL_get_error` after a call that did not succeed, with `errno` at its return. -/
inductive SslError
  | wantRead | wantWrite | zeroReturn | syscall (errno : Option Errno) | ssl
  deriving DecidableEq, Repr

inductive WriteResult
  | written (n : ℕ)
  | failed (e : SslError)
  deriving DecidableEq, Repr

inductive ReadResult
  | data (bytes : Bytes)
  | failed (e : SslError)
  deriving DecidableEq, Repr

inductive Retry
  | retry (wait : Wait)
  | eof
  | fatal (e : Errno)
  deriving DecidableEq, Repr

def tlsRetry : SslError → Retry
  | .wantRead => .retry .pollin
  | .wantWrite => .retry .pollout
  | .zeroReturn => .eof
  | .syscall (some e) => .fatal e
  | .syscall none | .ssl => .fatal .ECONNRESET

inductive Pc
  | drain | status | take | write | read
  | handle (frame : Bytes)
  | poll
  | done (result : Except Errno Unit)
  deriving DecidableEq

structure Worker where
  pc : Pc := .drain
  incoming : Bytes := []
  needed : ℕ := 4
  readWait : Wait := .none
  outgoing : Bytes := []
  outgoingLength : ℕ := 0
  sent : ℕ := 0
  writeWait : Wait := .none
  progress : Bool := false
  deriving DecidableEq

namespace Worker

def received (w : Worker) : ℕ := w.incoming.length

/-- The bytes that `SSL_write_ex` is asked to write. -/
def unsent (w : Worker) : Bytes := (w.outgoing.take w.outgoingLength).drop w.sent

/-- From the end of both halves: go round again, or sleep. -/
def endIo (w : Worker) : Worker := { w with pc := if w.progress then .drain else .poll }

/-- The read half is skipped while a write is pending. -/
def beginRead (w : Worker) : Worker :=
  if w.writeWait = .none then { w with pc := .read } else w.endIo

/-- The write half is skipped while a read waits to write. -/
def beginIo (w : Worker) : Worker :=
  let w := { w with progress := false }
  if w.outgoingLength ≠ 0 ∧ w.readWait ≠ .pollout then { w with pc := .write } else w.beginRead

/-- After `eventfd_read`; `failure` is an error other than `EAGAIN`. -/
def afterDrain (w : Worker) (failure : Option Errno) : Worker :=
  match failure with
  | some e => { w with pc := .done (.error e) }
  | none => { w with pc := .status }

/-- After `client_output_status`. -/
def afterStatus (w : Worker) (result : Except Errno Unit) : Worker :=
  match result with
  | .error e => { w with pc := .done (.error e) }
  | .ok () => if w.outgoingLength = 0 then { w with pc := .take } else w.beginIo

/-- After `take_outgoing_frame`: a frame is staged with its header. -/
def afterTake (w : Worker) (available : Except Errno (Option OutgoingFrame)) : Worker :=
  match available with
  | .error e => { w with pc := .done (.error e) }
  | .ok none => w.beginIo
  | .ok (some frame) =>
    { w with
      outgoing := encodeFrame frame.type frame.payload
      outgoingLength := 4 + 1 + frame.payload.length
      sent := 0 }.beginIo

/-- After `SSL_write_ex`. -/
def afterWrite (w : Worker) : WriteResult → Worker
  | .written n =>
    { w with
      sent := w.sent + n
      writeWait := .none
      progress := true
      outgoingLength := if w.sent + n = w.outgoingLength then 0 else w.outgoingLength }.beginRead
  | .failed e =>
    match tlsRetry e with
    | .retry wait => { w with writeWait := wait }.beginRead
    | .eof => { w with pc := .done (.error .EPIPE) }
    | .fatal e => { w with pc := .done (.error e) }

/-- A header or a body is complete. -/
def complete (w : Worker) : Worker :=
  if w.needed = 4 then
    let length := BigEndian.decode w.incoming
    if length = 0 ∨ frameMaxSize < length then { w with pc := .done (.error .EMSGSIZE) }
    else { w with needed := w.needed + length }.endIo
  else
    let frame := w.incoming.drop 4
    if isValidFrameType (frame.headD 0) then { w with pc := .handle frame }
    else { w with pc := .done (.error .EPROTO) }

/-- After `SSL_read_ex`. -/
def afterRead (w : Worker) : ReadResult → Worker
  | .data bytes =>
    let w := { w with incoming := w.incoming ++ bytes, readWait := .none, progress := true }
    if w.received = w.needed then w.complete else w.endIo
  | .failed e =>
    match tlsRetry e with
    | .retry wait => { w with readWait := wait }.endIo
    | .eof => { w with pc := .done (if w.received ≠ 0 then .error .ECONNRESET else .ok ()) }
    | .fatal e => { w with pc := .done (.error e) }

/-- After `handle_frame`. -/
def afterHandle (w : Worker) (keep : Bool) : Worker :=
  if keep then { w with incoming := [], needed := 4 }.endIo else { w with pc := .done (.ok ()) }

/-- After `poll`; `failure` covers a failed call and the bad `revents`. -/
def afterPoll (w : Worker) (failure : Option Errno) : Worker :=
  match failure with
  | some e => { w with pc := .done (.error e) }
  | none => { w with pc := .drain }

/-- A success of `SSL_write_ex` accepts some of the bytes it was given. -/
def WriteOk (w : Worker) : WriteResult → Prop
  | .written n => 0 < n ∧ n ≤ w.outgoingLength - w.sent
  | .failed _ => True

/-- A success of `SSL_read_ex` delivers some bytes, at most as many as asked for. -/
def ReadOk (w : Worker) : ReadResult → Prop
  | .data bytes => 0 < bytes.length ∧ bytes.length ≤ w.needed - w.received
  | .failed _ => True

instance (w : Worker) : (r : WriteResult) → Decidable (w.WriteOk r)
  | .written _ => inferInstanceAs (Decidable (_ ∧ _))
  | .failed _ => inferInstanceAs (Decidable True)

instance (w : Worker) : (r : ReadResult) → Decidable (w.ReadOk r)
  | .data _ => inferInstanceAs (Decidable (_ ∧ _))
  | .failed _ => inferInstanceAs (Decidable True)

end Worker

end CipherChat
