import CipherChat.Lib.Transition
import CipherChat.ServerChat
import CipherChat.Worker

/-!
# The server

`handle_client` for any number of connections, interleaved at every critical
section and every call that blocks.  A label picks a thread and fixes what its
environment answers.  The log records what happened, in order; nothing reads it.
-/

namespace CipherChat

open Resumption

/-- What `handle_client` knows after login. -/
structure Session where
  index : Fin maxClients
  id : ClientId
  username : Bytes
  deriving DecidableEq

/-- Where a thread stands in `handle_client`. -/
inductive Thread
  /-- Before the login message. -/
  | connected
  /-- `add_client` returned an index. -/
  | added (index : Fin maxClients) (username : Bytes)
  /-- Sending the welcome message. -/
  | welcoming (u : Session)
  | activating (u : Session)
  /-- In `run_client_worker`, before its loop. -/
  | starting (u : Session)
  | working (u : Session) (w : Worker)
  /-- In `handle_frame`. -/
  | handling (u : Session) (w : Worker) (p : Handler Bool)
  /-- About to call `remove_client`; `worked` when the worker ran. -/
  | leaving (u : Session) (worked : Bool)
  /-- In `abort_file_routes_for_client`. -/
  | aborting (u : Session) (p : Handler Unit)
  /-- Returned after `remove_client` and `abort_file_routes_for_client`. -/
  | finished (u : Session)
  /-- Returned without having run the worker. -/
  | closed

inductive Event
  | login (thread : ℕ) (id : ClientId) (username : Bytes)
  /-- A frame is passed to `handle_frame`. -/
  | received (id : ClientId) (frame : Bytes)
  /-- `abort_file_routes_for_client` is called. -/
  | abort (id : ClientId)
  /-- A handler performed an operation. -/
  | did (id : ClientId) (o : Op) (r : o.Resp)
  /-- `handle_frame` or `abort_file_routes_for_client` has returned. -/
  | returned (id : ClientId)
  /-- `SSL_write_ex` accepted bytes. -/
  | wrote (id : ClientId) (bytes : Bytes)

/-- What the environment answers during one step. -/
structure Env where
  libc : Libc := {}
  /-- The login message; empty when none arrives. -/
  username : Bytes := []
  /-- Whether the welcome message or the `fcntl` calls succeed. -/
  ok : Bool := true
  /-- The failure of `eventfd_read` or `poll`, if any. -/
  failure : Option Errno := none
  write : WriteResult := .failed .wantWrite
  read : ReadResult := .failed .wantRead

structure Server where
  shared : Shared
  threads : ℕ → Thread
  log : List Event

/-- One step inside `run_client_worker`. -/
def workerStep (x : Shared) (u : Session) (w : Worker) (env : Env) :
    Option (Shared × Thread × List Event) :=
  match w.pc with
  | .drain =>
    let clients := if env.failure = none then x.clients.drain u.index else x.clients
    some ({ x with clients }, .working u (w.afterDrain env.failure), [])
  | .status => some (x, .working u (w.afterStatus (x.clients.clientOutputStatus u.id)), [])
  | .take =>
    let (available, clients) := x.clients.takeOutgoingFrame u.id
    some ({ x with clients }, .working u (w.afterTake available), [])
  | .write =>
    if w.WriteOk env.write then
      some (x, .working u (w.afterWrite env.write),
        match env.write with
        | .written n => [.wrote u.id (w.unsent.take n)]
        | .failed _ => [])
    else none
  | .read => if w.ReadOk env.read then some (x, .working u (w.afterRead env.read), []) else none
  | .handle frame =>
    some (x, .handling u w (handleClientFrame u.id u.username frame), [.received u.id frame])
  | .poll => some (x, .working u (w.afterPoll env.failure), [])
  | .done _ => some (x, .leaving u true, [])

/-- One step of a thread: the shared state and the thread afterwards, and what is logged. -/
def threadStep (x : Shared) (n : ℕ) (env : Env) : Thread → Option (Shared × Thread × List Event)
  | .connected =>
    -- `receive_message` with capacity 32 yields 1 to 31 bytes; a NUL among them is refused
    if env.username.length = 0 ∨ usernameSize ≤ env.username.length ∨ 0 ∈ env.username then
      some (x, .closed, [])
    else
      match x.clients.addClient env.username env.libc.eventfd with
      | (.error _, _) => some (x, .closed, [])
      | (.ok index, clients) =>
        some ({ x with clients }, .added index env.username,
          [.login n (clients.clients index).id env.username])
  | .added index username =>
    some (x, .welcoming ⟨index, x.clients.getClientId index, username⟩, [])
  | .welcoming u => some (x, if env.ok then .activating u else .leaving u false, [])
  | .activating u =>
    match x.clients.activateClient u.index with
    | (.ok (), clients) => some ({ x with clients }, .starting u, [])
    | (.error _, _) => some (x, .leaving u false, [])
  | .starting u =>
    match x.clients.getClientWakeFd u.id with
    | .ok () => some (x, if env.ok then .working u {} else .leaving u true, [])
    | .error _ => some (x, .leaving u true, [])
  | .working u w => workerStep x u w env
  | .handling u w (.ret keep) => some (x, .working u (w.afterHandle keep), [.returned u.id])
  | .handling u w (.op o k) =>
    let (r, x) := perform env.libc x o
    some (x, .handling u w (k r), [.did u.id o r])
  | .leaving u worked =>
    let x := { x with clients := x.clients.removeClient u.index }
    if worked then some (x, .aborting u (abortFileRoutesForClient u.id), [.abort u.id])
    else some (x, .closed, [])
  | .aborting u (.ret ()) => some (x, .finished u, [.returned u.id])
  | .aborting u (.op o k) =>
    let (r, x) := perform env.libc x o
    some (x, .aborting u (k r), [.did u.id o r])
  | .finished _ => none
  | .closed => none

/-- A label: the thread that moves, and its environment. -/
abbrev Label := ℕ × Env

def Server.step (s : Server) (l : Label) : Option Server :=
  match threadStep s.shared l.1 l.2 (s.threads l.1) with
  | some (shared, thread, events) =>
    some { shared, threads := Function.update s.threads l.1 thread, log := s.log ++ events }
  | none => none

/-- After `init_clients` and `init_file_routes`, with every connection yet to log in. -/
def Server.init : Server where
  shared := { clients := .init, routes := .init }
  threads := fun _ => .connected
  log := []

def server : Transition.System Server Label where
  init := Server.init
  step := Server.step

/-- Connection `n` logs in as `name` and reaches its loop. -/
def loginLabels (n : ℕ) (name : Bytes) : List Label :=
  [(n, { username := name }), (n, {}), (n, {}), (n, {}), (n, {})]

/-- Connection `n`, with nothing to send, receives a frame and passes it on. -/
def frameLabels (n : ℕ) (frame : Bytes) : List Label :=
  [(n, {}), (n, {}), (n, {}), (n, { read := .data (BigEndian.encode 4 frame.length) }),
    (n, {}), (n, {}), (n, {}), (n, { read := .data frame }), (n, {})]

/-- Connection `n` fails at the top of its loop and is taken down, with no route to abort. -/
def leaveLabels (n : ℕ) : List Label :=
  [(n, { failure := some .ECONNRESET }), (n, {}), (n, {}), (n, {}), (n, {})]

/-- Connection `n` takes a step per answer of `malloc`. -/
def stepLabels (n : ℕ) (addresses : List (Option ℕ)) : List Label :=
  addresses.map fun address => (n, { libc := { address } })

/-- The same labels, each with an address of its own from `malloc`. -/
def addressed (labels : List Label) : List Label :=
  labels.zipIdx.map fun (l, a) => (l.1, { l.2 with libc := { l.2.libc with address := some a } })

theorem Server.step_eq_some {s s' : Server} {l : Label} (h : s.step l = some s') :
    ∃ shared thread events, threadStep s.shared l.1 l.2 (s.threads l.1) =
      some (shared, thread, events) ∧
      s' = { shared, threads := Function.update s.threads l.1 thread, log := s.log ++ events } := by
  unfold step at h
  split at h
  · rename_i shared thread events ht
    exact ⟨shared, thread, events, ht, (Option.some.inj h).symm⟩
  · cases h

theorem Server.step_of {s : Server} {n : ℕ} (env : Env) {t t' : Thread} {x' : Shared}
    {evs : List Event} (hn : s.threads n = t) (h : threadStep s.shared n env t =
      some (x', t', evs)) :
    server.step s (n, env) =
      some { shared := x', threads := Function.update s.threads n t', log := s.log ++ evs } := by
  change Server.step s (n, env) = _
  simp only [Server.step, hn, h]

theorem Server.receives {s : Server} {n : ℕ} {u : Session} {w : Worker} {frame : Bytes}
    (hn : s.threads n = .working u w) (hpc : w.pc = .handle frame) (env : Env) :
    server.step s (n, env) = some
      { shared := s.shared
        threads := Function.update s.threads n
          (.handling u w (handleClientFrame u.id u.username frame))
        log := s.log ++ [.received u.id frame] } := by
  refine Server.step_of env hn ?_
  unfold threadStep workerStep
  dsimp only
  rw [hpc]

theorem Server.performs {s : Server} {n : ℕ} {u : Session} {w : Worker} {o : Op}
    {k : o.Resp → Handler Bool} (hn : s.threads n = .handling u w (.op o k)) (env : Env) :
    server.step s (n, env) = some
      { shared := (perform env.libc s.shared o).2
        threads := Function.update s.threads n (.handling u w (k (perform env.libc s.shared o).1))
        log := s.log ++ [.did u.id o (perform env.libc s.shared o).1] } :=
  Server.step_of env hn rfl

end CipherChat
