import CipherChat.ClientPending
import CipherChat.TlsRetry

/-!
# A connection with both its ends

The server and one of its clients, with a byte queue of finite capacity in either
direction.  Both ends are the models that run alone elsewhere; here the queues answer
their TLS calls and their `poll`.  Every other connection does what it likes.
-/

namespace CipherChat

open Resumption

/-- A client, the server's thread for it, and the capacities of the two queues. -/
structure LinkConfig where
  client : ClientConfig
  store : FileStore Bytes UInt8
  thread : ℕ
  upSize : { n : ℕ // 0 < n }
  downSize : { n : ℕ // 0 < n }

/-- `up` and `down` are the bytes on their way to the server and to the client; `frame`
is what `receive_frame` has read so far. -/
structure Link where
  server : Server
  client : ClientProcess
  up : Bytes := []
  down : Bytes := []
  frame : Bytes := []

inductive LinkLabel
  /-- A thread of the server moves. -/
  | server (n : ℕ) (env : Env)
  /-- `receive_frame` reads this many bytes. -/
  | fetch (count : ℕ)
  /-- The event loop or the callback of the client moves. -/
  | client (l : ClientLabel)

/-- A frame on the wire. -/
def wireFrame (frame : Bytes) : Bytes := BigEndian.encode 4 frame.length ++ frame

/-- How many bytes `receive_frame` asks for in all, as far as it knows. -/
def frameNeeded (frame : Bytes) : ℕ :=
  if frame.length < 4 then 4 else 4 + BigEndian.decode (frame.take 4)

namespace Link

variable (g : LinkConfig) (k : Link)

/-- The thread has returned, and the connection is closed. -/
def gone : Bool :=
  match k.server.threads g.thread with
  | .finished _ | .closed => true
  | _ => false

def upRoom : ℕ := g.upSize - k.up.length

def downRoom : ℕ := g.downSize - k.down.length

/-- The eventfd of the session has something to read. -/
def notified (u : Session) : Bool :=
  (k.server.shared.clients.clients u.index).wakeFd.any fun n => 0 < n

/-- `poll` of the worker has something to report: its eventfd, or the event it waits for. -/
def workerReady (u : Session) (w : Worker) : Bool :=
  k.notified u ||
    match w.pollEvents with
    | .none => false
    | .pollin => k.up ≠ []
    | .pollout => 0 < k.downRoom g

/-- The two queues after a step of the worker, when they answer as `env` says. -/
def serve (u : Session) (w : Worker) (env : Env) : Option (Bytes × Bytes) :=
  match w.pc with
  | .write =>
    match env.write with
    | .written n => if n ≤ k.downRoom g then some (k.up, k.down ++ w.unsent.take n) else none
    | .failed .wantWrite => if k.downRoom g = 0 then some (k.up, k.down) else none
    | .failed _ => none
  | .read =>
    match env.read with
    | .data bytes => if bytes <+: k.up then some (k.up.drop bytes.length, k.down) else none
    | .failed .wantRead => if k.up = [] then some (k.up, k.down) else none
    | .failed _ => none
  | .poll => if k.workerReady g u w then some (k.up, k.down) else none
  | _ => some (k.up, k.down)

/-- The same for any thread: only the worker of this connection uses the queues. -/
def serveThread (n : ℕ) (env : Env) : Option (Bytes × Bytes) :=
  match k.server.threads n with
  | .working u w => if n = g.thread then k.serve g u w env else some (k.up, k.down)
  | _ => some (k.up, k.down)

/-- The bytes that `send_all` puts on the queue in one step, when it answers as `env` says. -/
def send (bytes : Bytes) (env : ClientEnv) : SendPc → Option Bytes
  | .entry => some []
  | .writing totalSent =>
    if bytes.length ≤ totalSent then some []
    else
      match env.write with
      | .written n =>
        if 0 < n ∧ n ≤ k.upRoom g ∧ k.gone g = false then some ((bytes.drop totalSent).take n)
        else none
      | .failed .wantWrite => if k.upRoom g = 0 ∧ k.gone g = false then some [] else none
      | .failed .wantRead => none
      | .failed _ => if k.gone g then some [] else none
  | .polling _ =>
    if env.poll = .ready ∧ (0 < k.upRoom g ∨ k.gone g = true) then some [] else none

/-- What the client's step puts on its queue, and what `receive_frame` keeps. -/
def clientIo (l : ClientLabel) : Option (Bytes × Bytes) :=
  match k.client.callback, l with
  | some (.op (.sendAll bytes) _), .go env =>
    (k.send g bytes env k.client.sending).map fun accepted => (accepted, k.frame)
  | some _, .go _ => some ([], k.frame)
  | none, .received (.ok (some frame)) =>
    if k.frame = wireFrame frame then some ([], []) else none
  | none, .received (.ok none) =>
    if k.frame = [] ∧ k.down = [] ∧ k.gone g then some ([], []) else none
  | none, .received (.error _) => if k.down = [] ∧ k.gone g then some ([], []) else none
  | none, .typed _ | none, .pollFailed => if k.frame = [] then some ([], []) else none
  | _, _ => none

def step : LinkLabel → Option Link
  | .server n env =>
    match k.serveThread g n env, k.server.step (n, env) with
    | some (up, down), some server => some { k with server, up, down }
    | _, _ => none
  | .fetch count =>
    if k.client.callback.isNone ∧ k.client.state.connected ∧ 0 < count ∧
        count ≤ k.down.length ∧ k.frame.length + count ≤ frameNeeded k.frame then
      some { k with down := k.down.drop count, frame := k.frame ++ k.down.take count }
    else none
  | .client l =>
    match k.clientIo g l, k.client.step g.client l with
    | some (accepted, frame), some client =>
      some { k with client, up := k.up ++ accepted, frame }
    | _, _ => none

end Link

/-- The client starts when its welcome message has been sent, in any state the server can
be in by then. -/
def link (g : LinkConfig) (s : Server) : Transition.System Link LinkLabel where
  init := { server := s, client := .start g.client g.store }
  step := Link.step g

/-- What a step of the link is: of the server, of `receive_frame`, or of the client. -/
theorem Link.step_cases {g : LinkConfig} {k k' : Link} {l : LinkLabel} (h : k.step g l = some k') :
    (∃ n env up down server', l = .server n env ∧ k.serveThread g n env = some (up, down) ∧
      k.server.step (n, env) = some server' ∧ k' = { k with server := server', up, down }) ∨
    (∃ count, l = .fetch count ∧
      k' = { k with down := k.down.drop count, frame := k.frame ++ k.down.take count }) ∨
    ∃ cl accepted frame client', l = .client cl ∧ k.clientIo g cl = some (accepted, frame) ∧
      k.client.step g.client cl = some client' ∧
      k' = { k with client := client', up := k.up ++ accepted, frame } := by
  unfold Link.step at h
  split at h
  · split at h
    · next hqueues hserver =>
      cases h
      exact .inl ⟨_, _, _, _, _, rfl, hqueues, hserver, rfl⟩
    · cases h
  · split at h
    · cases h
      exact .inr (.inl ⟨_, rfl, rfl⟩)
    · cases h
  · split at h
    · next hio hclient =>
      cases h
      exact .inr (.inr ⟨_, _, _, _, rfl, hio, hclient, rfl⟩)
    · cases h

namespace Worker

variable {w w' : Worker}

/-- What has been read is a header or a frame in progress; at the handler it is the frame. -/
structure Reads (w : Worker) : Prop where
  input : w.loops = true → w.Input
  frame : ∀ frame, w.pc = .handle frame → w.incoming = wireFrame frame

theorem reads_init : Reads {} where
  input _ := .inl ⟨rfl, by decide⟩
  frame _ h := by cases h

theorem reads_of_loops (hl : w.loops = true) (hi : w.Input) : w.Reads where
  input _ := hi
  frame frame h := by
    rw [loops, h] at hl
    cases hl

theorem Continues.reads (h : w.Continues w') (hi : w.Input) : w'.Reads :=
  reads_of_loops h.loops (by
    rw [Input, received, h.incoming, h.needed]
    exact hi)

theorem reads_done (w : Worker) (result : Except Errno Unit) :
    Reads { w with pc := .done result } where
  input h := by cases h
  frame _ h := by cases h

theorem Input.lt (h : w.Input) : w.received < w.needed := by
  rcases h with ⟨h4, hlt⟩ | ⟨-, hlt, -⟩
  · omega
  · exact hlt

theorem wireFrame_of_decode {bytes : Bytes} (h4 : 4 ≤ bytes.length)
    (hlen : bytes.length = 4 + BigEndian.decode (bytes.take 4)) :
    wireFrame (bytes.drop 4) = bytes := by
  have htake : (bytes.take 4).length = 4 := by
    rw [List.length_take]
    exact Nat.min_eq_left h4
  have hdrop : (bytes.drop 4).length = BigEndian.decode (bytes.take 4) := by
    rw [List.length_drop]
    omega
  have hcode := BigEndian.encode_decode (bytes.take 4)
  rw [htake] at hcode
  rw [wireFrame, hdrop, hcode, List.take_append_drop]

theorem reads_complete (hfull : w.received = w.needed)
    (h : w.needed = 4 ∨ 4 ≤ w.received ∧ w.needed = 4 + BigEndian.decode (w.incoming.take 4)) :
    w.complete.Reads := by
  unfold complete
  split
  · next h4 =>
    dsimp only
    split
    · exact reads_done _ _
    · next hgood =>
      have hl : w.incoming.length = 4 := hfull.trans h4
      have htake : w.incoming.take 4 = w.incoming := List.take_of_length_le hl.le
      refine (endIo_continues { w with needed := w.needed + BigEndian.decode w.incoming }).reads
        (.inr ⟨hl.ge, ?_, ?_, ?_⟩)
      · change w.incoming.length < w.needed + _
        omega
      · change w.needed + _ = 4 + BigEndian.decode (w.incoming.take 4)
        rw [htake, h4]
      · change BigEndian.decode (w.incoming.take 4) ≤ frameMaxSize
        rw [htake]
        omega
  · next hne =>
    obtain ⟨h4, hneeded⟩ := h.resolve_left hne
    dsimp only
    split
    · refine ⟨fun hl => (by cases hl), fun frame hpc => ?_⟩
      obtain rfl := Pc.handle.inj hpc
      exact (wireFrame_of_decode h4 (hfull.trans hneeded)).symm
    · exact reads_done _ _

theorem Input.afterRead (h : w.Input) {result : ReadResult} (hok : w.ReadOk result) :
    (w.afterRead result).Reads := by
  cases result with
  | failed e =>
    unfold Worker.afterRead
    dsimp only
    split
    · exact (endIo_continues { w with readWait := _ }).reads h
    · exact reads_done _ _
    · exact reads_done _ _
  | data bytes =>
    obtain ⟨hpos, hle⟩ := hok
    have hlt := h.lt
    have hreceived : (w.incoming ++ bytes).length = w.received + bytes.length := List.length_append
    have hhead : 4 ≤ w.received → (w.incoming ++ bytes).take 4 = w.incoming.take 4 := fun h4 =>
      List.take_append_of_le_length h4
    unfold Worker.afterRead
    dsimp only
    split
    · next hfull =>
      refine reads_complete hfull ?_
      rcases h with ⟨h4, -⟩ | ⟨h4, -, hneeded, -⟩
      · exact .inl h4
      · refine .inr ⟨?_, ?_⟩
        · rw [received, hreceived]
          omega
        · rw [hhead h4]
          exact hneeded
    · next hpart =>
      refine (endIo_continues _).reads ?_
      change ¬(w.incoming ++ bytes).length = w.needed at hpart
      rcases h with ⟨h4, -⟩ | ⟨h4, -, hneeded, hmax⟩
      · refine .inl ⟨h4, ?_⟩
        change (w.incoming ++ bytes).length < 4
        omega
      · refine .inr ⟨?_, ?_, ?_, ?_⟩
        · change 4 ≤ (w.incoming ++ bytes).length
          omega
        · change (w.incoming ++ bytes).length < w.needed
          omega
        · rw [hhead h4]
          exact hneeded
        · rw [hhead h4]
          exact hmax

theorem Input.of_eq (h : w.Input) (hincoming : w'.incoming = w.incoming)
    (hneeded : w'.needed = w.needed) : w'.Input := by
  rw [Input, received, hincoming, hneeded]
  exact h

theorem Reads.answered (h : w.Reads) {a : Answer} (ha : w.answered a = some w') : w'.Reads := by
  unfold Worker.answered at ha
  split at ha
  · next failure hpc =>
    cases ha
    have hi := h.input (by rw [loops, hpc])
    unfold afterDrain
    split
    · exact reads_done _ _
    · exact reads_of_loops rfl hi
  · next result hpc =>
    cases ha
    have hi := h.input (by rw [loops, hpc])
    unfold afterStatus
    split
    · exact reads_done _ _
    · split
      · exact reads_of_loops rfl hi
      · exact (beginIo_continues w).reads hi
  · next available hpc =>
    cases ha
    have hi := h.input (by rw [loops, hpc])
    unfold afterTake
    split
    · exact reads_done _ _
    · exact (beginIo_continues w).reads hi
    · exact (beginIo_continues _).reads (hi.of_eq rfl rfl)
  · next result hpc =>
    split at ha
    · cases ha
      have hi := h.input (by rw [loops, hpc])
      unfold afterWrite
      split
      · exact (beginRead_continues _).reads (hi.of_eq rfl rfl)
      · split
        · exact (beginRead_continues _).reads (hi.of_eq rfl rfl)
        · exact reads_done _ _
        · exact reads_done _ _
    · cases ha
  · next result hpc =>
    split at ha
    · next hok =>
      cases ha
      exact (h.input (by rw [loops, hpc])).afterRead hok
    · cases ha
  · next frame keep hpc =>
    -- the handled frame is over, and a new header is awaited
    cases ha
    unfold afterHandle
    split
    · exact (endIo_continues { w with incoming := [], needed := 4 }).reads
        (.inl ⟨rfl, Nat.zero_lt_succ 3⟩)
    · exact reads_done _ _
  · next failure hpc =>
    cases ha
    have hi := h.input (by rw [loops, hpc])
    unfold afterPoll
    split
    · exact reads_done _ _
    · exact reads_of_loops rfl hi
  · cases ha

end Worker

theorem Traced.reads_of_reach {ok : Traced → Answer → Prop} {s : Traced}
    (hs : tracedWorker.Reach ok s) : s.worker.Reads := by
  refine hs.invariant (P := fun s => s.worker.Reads) Worker.reads_init
    fun s a s' _ _ hreads hstep => ?_
  obtain ⟨w, hw, rfl⟩ := Option.map_eq_some_iff.mp hstep
  exact hreads.answered hw

/-- What every worker of the server has read. -/
theorem Server.reads_of_reach {ok : Server → Label → Prop} {s : Server} (hs : server.Reach ok s)
    {n : ℕ} {w : Worker} (hw : (s.threads n).worker = some w) : w.Reads := by
  obtain ⟨calls, hcalls⟩ := Server.worker_reachable hs n w hw
  exact Traced.reads_of_reach hcalls

end CipherChat
