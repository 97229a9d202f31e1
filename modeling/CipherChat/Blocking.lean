import CipherChat.Link

/-!
# Blocked sends

While `send_file` runs, the client only writes.  It and its worker come to a halt
together exactly when both queues are full and the worker waits to write: then
neither reads what the other waits to get rid of.
-/

namespace CipherChat

open Resumption

namespace Link

/-- The client is in the frame loop of `send_file`: a chunk is on its way, and `send_all`
has bytes of it left. -/
def sendsFile (k : Link) : Bool :=
  match (books k.client.log).role, k.client.callback with
  | .serving package _ _ sent, some (.op (.sendAll bytes) _) =>
    package.type = .file && (sent.getLast?.any fun frame => frame.1 = .fileChunk) &&
      k.client.sending.totalSent < bytes.length
  | _, _ => false

/-- The worker sleeps in `poll` until it can write, and nothing has notified it. -/
def sleepsToWrite (g : LinkConfig) (k : Link) : Bool :=
  match k.server.threads g.thread with
  | .working u w => w.pc = .poll && w.pollEvents = .pollout && !k.notified u
  | _ => false

def Moves (g : LinkConfig) (k : Link) : Prop :=
  (∃ l, (k.step g (.client l)).isSome) ∨ ∃ env, (k.step g (.server g.thread env)).isSome

/-- Both queues are full, and both ends wait to write. -/
structure Blocked (g : LinkConfig) (k : Link) : Prop where
  up : k.upRoom g = 0
  down : k.downRoom g = 0
  client : k.client.sending = .polling k.client.sending.totalSent
  worker : k.sleepsToWrite g = true

variable {g : LinkConfig} {k : Link} {bytes : Bytes}
  {rest : Except Errno Unit → ClientProg ClientState}

theorem callback_of_sendsFile (h : k.sendsFile = true) :
    ∃ bytes rest, k.client.callback = some (.op (.sendAll bytes) rest) := by
  unfold sendsFile at h
  split at h
  · next bytes rest _ hc => exact ⟨bytes, rest, hc⟩
  · cases h

theorem gone_iff : k.gone g = true ↔ (∃ u, k.server.threads g.thread = .finished u) ∨
    k.server.threads g.thread = .closed := by
  unfold gone
  split
  · next u h => exact ⟨fun _ => .inl ⟨u, h⟩, fun _ => rfl⟩
  · next h => exact ⟨fun _ => .inr h, fun _ => rfl⟩
  · next h h' =>
    refine ⟨fun hf => (by cases hf), ?_⟩
    rintro (⟨u, hu⟩ | hc)
    · exact absurd hu (h u)
    · exact absurd hc h'

theorem move_isSome (rest : Except Errno Unit → ClientProg ClientState) {c : ClientProcess}
    {env : ClientEnv} (h : (sendAllStep c.tlsIoFailed bytes env c.sending).isSome) :
    (c.move env (.op (.sendAll bytes) rest)).isSome := by
  obtain ⟨next, hnext⟩ := Option.isSome_iff_exists.mp h
  simp only [ClientProcess.move, hnext]
  cases next with
  | loop pc accepted => rfl
  | returned result failed => cases result <;> rfl

theorem step_go {env : ClientEnv} (hc : k.client.callback = some (.op (.sendAll bytes) rest))
    {accepted : Bytes} (hsend : k.send g bytes env k.client.sending = some accepted)
    (hstep : (sendAllStep k.client.tlsIoFailed bytes env k.client.sending).isSome) :
    (k.step g (.client (.go env))).isSome := by
  obtain ⟨c, hmove⟩ := Option.isSome_iff_exists.mp (move_isSome rest hstep)
  have hio : k.clientIo g (.go env) = some (accepted, k.frame) := by
    simp only [clientIo, hc, hsend, Option.map_some]
  have hclient : k.client.step g.client (.go env) = some c := by
    simp only [ClientProcess.step, hc, hmove]
  simp only [step, hio, hclient, Option.isSome_some]

theorem client_moves_iff (hc : k.client.callback = some (.op (.sendAll bytes) rest)) :
    (∃ l, (k.step g (.client l)).isSome) ↔
      ¬(k.client.sending = .polling k.client.sending.totalSent ∧ k.upRoom g = 0 ∧
        k.gone g = false) := by
  constructor
  · rintro ⟨l, hl⟩ ⟨hpolling, hroom, hopen⟩
    obtain ⟨totalSent, hpoll⟩ : ∃ n, k.client.sending = .polling n := ⟨_, hpolling⟩
    have hio : k.clientIo g l = none := by
      cases l with
      | go env => simp [clientIo, hc, send, hpoll, hroom, hopen]
      | typed line => simp only [clientIo, hc]
      | received result => simp only [clientIo, hc]
      | pollFailed => simp only [clientIo, hc]
    simp only [step, hio, Option.isSome_none] at hl
    cases hl
  -- each program point has a step unless it waits for room
  · intro hfree
    cases hsending : k.client.sending with
    | entry =>
      refine ⟨.go {}, step_go hc (by rw [hsending]; rfl) ?_⟩
      rw [hsending, sendAllStep]
      split <;> rfl
    | writing totalSent =>
      by_cases hall : bytes.length ≤ totalSent
      · refine ⟨.go {}, step_go hc (by rw [hsending, send, if_pos hall]) ?_⟩
        rw [hsending, sendAllStep, if_pos hall]
        rfl
      cases hgone : k.gone g with
      | true =>
        refine ⟨.go { write := .failed .ssl }, step_go hc
          (by rw [hsending, send, if_neg hall]; exact if_pos hgone) ?_⟩
        rw [hsending, sendAllStep, if_neg hall]
        rfl
      | false =>
        by_cases hroom : k.upRoom g = 0
        · refine ⟨.go { write := .failed .wantWrite }, step_go hc
            (by rw [hsending, send, if_neg hall]; exact if_pos ⟨hroom, hgone⟩) ?_⟩
          rw [hsending, sendAllStep, if_neg hall]
          rfl
        -- one byte of what `send_all` still has goes through
        · refine ⟨.go { write := .written 1 }, step_go hc
            (by rw [hsending, send, if_neg hall]; exact if_pos ⟨one_pos, by omega, hgone⟩) ?_⟩
          rw [hsending, sendAllStep, if_neg hall]
          dsimp only
          rw [if_pos (by omega)]
          rfl
    | polling totalSent =>
      have hready : 0 < k.upRoom g ∨ k.gone g = true := by
        by_contra hnot
        rw [not_or, Bool.not_eq_true] at hnot
        exact hfree ⟨by rw [hsending]; rfl, by omega, hnot.2⟩
      refine ⟨.go { poll := .ready }, step_go hc
        (by rw [hsending, send]; exact if_pos ⟨rfl, hready⟩) ?_⟩
      rw [hsending]
      rfl

variable {u : Session} {w : Worker}

theorem step_server {n : ℕ} {env : Env} (queues : Bytes × Bytes)
    (hserve : k.serveThread g n env = some queues)
    (hthread : (threadStep k.server.shared n env (k.server.threads n)).isSome) :
    (k.step g (.server n env)).isSome := by
  obtain ⟨⟨shared, thread, events⟩, ht⟩ := Option.isSome_iff_exists.mp hthread
  have hserver : k.server.step (n, env) = some
      { shared, threads := Function.update k.server.threads n thread,
        log := k.server.log ++ events } := by
    simp only [Server.step, ht]
  simp only [step, hserve, hserver, Option.isSome_some]

theorem step_worker {env : Env} (queues : Bytes × Bytes)
    (hn : k.server.threads g.thread = .working u w) (hserve : k.serve g u w env = some queues)
    (hworker : (workerStep k.server.shared u w env).isSome) :
    (k.step g (.server g.thread env)).isSome := by
  refine step_server queues ?_ ?_
  · simp only [serveThread, hn, if_pos, hserve]
  · rw [hn]
    exact hworker

theorem threadStep_isSome {x : Shared} {n : ℕ} {env : Env} {t : Thread}
    (hworking : ∀ u w, t ≠ .working u w) (hfinished : ∀ u, t ≠ .finished u)
    (hclosed : t ≠ .closed) : (threadStep x n env t).isSome := by
  unfold threadStep
  split
  · split
    · rfl
    · split <;> rfl
  · rfl
  · rfl
  · split <;> rfl
  · split <;> rfl
  · exact absurd rfl (hworking _ _)
  · rfl
  · rfl
  · dsimp only
    split <;> rfl
  · rfl
  · rfl
  · exact absurd rfl (hfinished _)
  · exact absurd rfl hclosed

theorem thread_moves (hworking : ∀ u w, k.server.threads g.thread ≠ .working u w)
    (hopen : k.gone g = false) : ∃ env, (k.step g (.server g.thread env)).isSome := by
  refine ⟨{}, step_server (k.up, k.down) ?_ (threadStep_isSome hworking ?_ ?_)⟩
  · unfold serveThread
    split
    · next u w hn => exact absurd hn (hworking u w)
    · rfl
  · intro u hn
    rw [gone_iff.mpr (.inl ⟨u, hn⟩)] at hopen
    cases hopen
  · intro hn
    rw [gone_iff.mpr (.inr hn)] at hopen
    cases hopen

theorem worker_moves_iff (hn : k.server.threads g.thread = .working u w) (hwaits : w.Waits)
    (hreads : w.Reads) :
    (∃ env, (k.step g (.server g.thread env)).isSome) ↔
      ¬(w.pc = .poll ∧ k.workerReady g u w = false) := by
  constructor
  · rintro ⟨env, henv⟩ ⟨hpc, hready⟩
    have hserve : k.serve g u w env = none := by
      simp only [serve, hpc, hready, Bool.false_eq_true, if_false]
    simp only [step, serveThread, hn, if_pos, hserve, Option.isSome_none] at henv
    cases henv
  · intro hawake
    cases hpc : w.pc with
    | write =>
      have hturn := hwaits.pc
      rw [Worker.PcOk, hpc] at hturn
      have hsent := hwaits.output.sent hturn.1
      by_cases hroom : k.downRoom g = 0
      · have hok : w.WriteOk (.failed .wantWrite) := trivial
        refine ⟨{ write := .failed .wantWrite }, step_worker (k.up, k.down) hn ?_ ?_⟩
        · simp only [serve, hpc, hroom, if_pos]
        · simp only [workerStep, hpc, if_pos hok, Option.isSome_some]
      · have hok : w.WriteOk (.written 1) := ⟨one_pos, by omega⟩
        refine ⟨{ write := .written 1 },
          step_worker (k.up, k.down ++ w.unsent.take 1) hn ?_ ?_⟩
        · simp only [serve, hpc]
          exact if_pos (by omega)
        · simp only [workerStep, hpc, if_pos hok, Option.isSome_some]
    | read =>
      have hlt := (hreads.input (by rw [Worker.loops, hpc])).lt
      cases hup : k.up with
      | nil =>
        have hok : w.ReadOk (.failed .wantRead) := trivial
        refine ⟨{ read := .failed .wantRead }, step_worker (k.up, k.down) hn ?_ ?_⟩
        · simp only [serve, hpc, hup, if_pos]
        · simp only [workerStep, hpc, if_pos hok, Option.isSome_some]
      | cons byte rest =>
        have hok : w.ReadOk (.data [byte]) := ⟨one_pos, by
          change 1 ≤ _
          omega⟩
        refine ⟨{ read := .data [byte] }, step_worker (rest, k.down) hn ?_ ?_⟩
        · simp only [serve, hpc, hup]
          exact if_pos ⟨rest, rfl⟩
        · simp only [workerStep, hpc, if_pos hok, Option.isSome_some]
    | poll =>
      have hready : k.workerReady g u w = true := by
        rw [← Bool.not_eq_false]
        exact fun h => hawake ⟨hpc, h⟩
      refine ⟨{}, step_worker (k.up, k.down) hn ?_ ?_⟩
      · simp only [serve, hpc, hready, if_pos]
      · simp only [workerStep, hpc, Option.isSome_some]
    | _ =>
      refine ⟨{}, step_worker (k.up, k.down) hn ?_ ?_⟩
      · simp only [serve, hpc]
      · simp only [workerStep, hpc, Option.isSome_some]

theorem workerReady_eq_false (hpoll : w.pollEvents ≠ .none) :
    k.workerReady g u w = false ↔ k.notified u = false ∧
      (w.pollEvents = .pollin ∧ k.up = [] ∨ w.pollEvents = .pollout ∧ k.downRoom g = 0) := by
  rw [workerReady, Bool.or_eq_false_iff]
  refine and_congr_right fun _ => ?_
  cases hevents : w.pollEvents with
  | none => exact absurd hevents hpoll
  | pollin => simp
  | pollout => simp

theorem sleepsToWrite_iff : k.sleepsToWrite g = true ↔ ∃ u w,
    k.server.threads g.thread = .working u w ∧ w.pc = .poll ∧ w.pollEvents = .pollout ∧
      k.notified u = false := by
  unfold sleepsToWrite
  split
  · next u w hn => simp [hn, and_assoc]
  · next hother =>
    refine ⟨fun h => (by cases h), ?_⟩
    rintro ⟨u, w, hn, -⟩
    exact absurd hn (hother u w)

end Link

def Thread.isActivating : Thread → Bool
  | .activating _ => true
  | _ => false

/-- The server has just welcomed the client of this connection. -/
structure Welcomed (g : LinkConfig) (s : Server) : Prop where
  reachable : server.Reachable s
  activating : (s.threads g.thread).isActivating = true

section

variable {g : LinkConfig} {s : Server} {k : Link}

/-- The server of a link runs as the server does. -/
theorem link_server_reachable (hs : server.Reachable s) (hk : (link g s).Reachable k) :
    server.Reachable k.server := by
  refine hk.invariant (P := fun k => server.Reachable k.server) hs fun k l k' _ _ hr hstep => ?_
  rcases Link.step_cases hstep with ⟨n, env, up, down, server', -, -, hserver, rfl⟩ |
    ⟨count, -, rfl⟩ | ⟨cl, accepted, frame, c, -, -, -, rfl⟩
  · exact hr.step trivial hserver
  · exact hr
  · exact hr

theorem link_client_reachable (hk : (link g s).Reachable k) :
    (client g.client g.store).Reachable k.client := by
  refine hk.invariant (P := fun k => (client g.client g.store).Reachable k.client) .init
    fun k l k' _ _ hr hstep => ?_
  rcases Link.step_cases hstep with ⟨n, env, up, down, server', -, -, -, rfl⟩ |
    ⟨count, -, rfl⟩ | ⟨cl, accepted, frame, c, -, -, hclient, rfl⟩
  · exact hr
  · exact hr
  · exact hr.step trivial hclient

theorem link_worker (hs : server.Reachable s) (hk : (link g s).Reachable k) {u : Session}
    {w : Worker} (hn : k.server.threads g.thread = .working u w) : w.Waits ∧ w.Reads := by
  have hr := link_server_reachable hs hk
  have hw : (k.server.threads g.thread).worker = some w := by rw [hn]; rfl
  obtain ⟨calls, hcalls⟩ := Server.worker_reachable hr _ w hw
  exact ⟨(Traced.inv_of_reach hcalls).waits, Server.reads_of_reach hr hw⟩

theorem link_moves_iff (hs : server.Reachable s) (hk : (link g s).Reachable k) {bytes : Bytes}
    {rest : Except Errno Unit → ClientProg ClientState}
    (hc : k.client.callback = some (.op (.sendAll bytes) rest)) :
    k.Moves g ↔ ¬k.Blocked g := by
  have hclient := Link.client_moves_iff (g := g) hc
  constructor
  · rintro hmoves ⟨hup, hdown, hpolling, hworker⟩
    obtain ⟨u, w, hn, hpc, hevents, hasleep⟩ := Link.sleepsToWrite_iff.mp hworker
    obtain ⟨hwaits, hreads⟩ := link_worker hs hk hn
    rcases hmoves with hmoves | hmoves
    · have hopen : k.gone g = false := by rw [Link.gone, hn]
      exact hclient.mp hmoves ⟨hpolling, hup, hopen⟩
    · have hready := (Link.workerReady_eq_false (k := k) (g := g) (hwaits.poll hpc)).mpr
        ⟨hasleep, .inr ⟨hevents, hdown⟩⟩
      exact (Link.worker_moves_iff hn hwaits hreads).mp hmoves ⟨hpc, hready⟩
  · intro hblocked
    by_contra hstuck
    rw [Link.Moves, not_or, hclient, not_not] at hstuck
    obtain ⟨⟨hpolling, hup, hopen⟩, hthread⟩ := hstuck
    by_cases hworking : ∃ u w, k.server.threads g.thread = .working u w
    · obtain ⟨u, w, hn⟩ := hworking
      obtain ⟨hwaits, hreads⟩ := link_worker hs hk hn
      rw [Link.worker_moves_iff hn hwaits hreads, not_not] at hthread
      obtain ⟨hpc, hready⟩ := hthread
      have hevents := hwaits.poll hpc
      obtain ⟨hasleep, ⟨-, hempty⟩ | ⟨hpollout, hdown⟩⟩ :=
        (Link.workerReady_eq_false hevents).mp hready
      · -- a worker that waits to read is woken by the bytes that fill the queue
        rw [Link.upRoom, hempty] at hup
        exact absurd hup g.upSize.property.ne'
      · exact hblocked ⟨hup, hdown, hpolling,
          Link.sleepsToWrite_iff.mpr ⟨u, w, hn, hpc, hpollout, hasleep⟩⟩
    · refine hthread (Link.thread_moves ?_ hopen)
      exact fun u w hn => hworking ⟨u, w, hn⟩

/-- In every state in which the client is in the frame loop of `send_file`, with bytes left,
it or its worker can take a step, unless both queues are full, the client polls for room and
the worker sleeps until it can write. -/
theorem send_file_moves_iff (hs : Welcomed g s) (hk : (link g s).Reachable k)
    (hsends : k.sendsFile = true) : k.Moves g ↔ ¬k.Blocked g := by
  obtain ⟨bytes, rest, hc⟩ := Link.callback_of_sendsFile hsends
  exact link_moves_iff hs.reachable hk hc

end

def aliceLink : LinkConfig where
  client := aliceClient
  store := Receiver.emptyStore
  thread := 0
  upSize := ⟨64, by decide⟩
  downSize := ⟨41, by decide⟩

def welcomeLabels : List Label :=
  addressed (loginLabels 1 (ascii "bob") ++
    frameLabels 1 (FrameType.registerPk.toByte :: Receiver.bobPublicKey) ++
    stepLabels 1 [none, none] ++ (loginLabels 0 (ascii "alice")).take 3)

def aliceThread (count : ℕ) : List LinkLabel := List.replicate count (.server 0 {})

def aliceReads (frame : Bytes) : List LinkLabel :=
  aliceThread 3 ++ .server 0 { read := .data (BigEndian.encode 4 frame.length) } ::
    (aliceThread 3 ++ .server 0 { read := .data frame } :: aliceThread 1)

def aliceWrites : List LinkLabel := aliceThread 3 ++ [.server 0 { write := .written 41 }]

def aliceGoes (count : ℕ) : List LinkLabel := List.replicate count (.client (.go {}))

/-- `send_all` of so many bytes at once. -/
def aliceSendsAll (length : ℕ) : List LinkLabel :=
  [.client (.go {}), .client (.go { write := .written length }), .client (.go {})]

def aliceSendsFrame (length : ℕ) : List LinkLabel :=
  aliceGoes 1 ++ aliceSendsAll 4 ++ aliceSendsAll 1 ++ aliceSendsAll length

/-- Alice's client registers its key, and she types a line whose recipient has `length` bytes. -/
def aliceAsks (line : Bytes) (length : ℕ) : List LinkLabel :=
  aliceThread 2 ++ aliceSendsFrame 32 ++ aliceGoes 2 ++
    .client (.typed (some line)) :: .client (.go { malloc := some 7 }) ::
    (aliceGoes 1 ++ aliceSendsFrame length ++ aliceGoes 2)

/-- Alice asks for Bob's key and sends him a file.  Bob broadcasts a line before the first
chunk, which her worker tries to write while her client does not read. -/
def chunkLabels : List LinkLabel :=
  aliceThread 2 ++ aliceSendsFrame 32 ++ aliceGoes 2 ++
    .client (.typed (some (ascii "/file bob a"))) :: .client (.go { malloc := some 7 }) ::
    (aliceGoes 1 ++ aliceSendsFrame 3 ++ aliceGoes 2 ++
    aliceReads (FrameType.registerPk.toByte :: Receiver.alicePublicKey) ++ aliceThread 2 ++
    aliceReads (FrameType.requestPk.toByte :: ascii "bob") ++ aliceThread 2 ++
    .server 0 { libc := { address := some 500 } } :: (aliceThread 1 ++ aliceWrites ++
    [.fetch 4, .fetch 37, .client (.received (.ok (some (FrameType.peerPk.toByte :: 3 ::
      (ascii "bob" ++ Receiver.bobPublicKey)))))] ++
    (frameLabels 1 (FrameType.text.toByte :: ascii "/broadcast a long line of text")).map
      (fun l => .server l.1 l.2) ++
    [.server 1 {}, .server 1 { libc := { address := some 501 } }] ++
    aliceThread 1 ++ aliceWrites ++ aliceThread 4 ++
    aliceGoes 1 ++ .client (.go { readFile := sampleClientEnv.readFile }) ::
    (aliceSendsFrame 20 ++ aliceGoes 1 ++ aliceSendsAll 4 ++ aliceSendsAll 1 ++
    [.client (.go {}), .client (.go { write := .written 34 })])))

/-- The server when Alice has been welcomed, and her connection after `labels`. -/
def aliceRun (labels : List LinkLabel) : Option (Server × Link) := do
  let s ← server.run server.init welcomeLabels
  let k ← (link aliceLink s).run (link aliceLink s).init labels
  some (s, k)

theorem aliceRun_reach {labels : List LinkLabel} {s : Server} {k : Link}
    (h : aliceRun labels = some (s, k))
    (hwelcomed : (s.threads 0).isActivating = true) :
    Welcomed aliceLink s ∧ (link aliceLink s).Reachable k := by
  unfold aliceRun at h
  obtain ⟨s', hs, h⟩ := Option.bind_eq_some_iff.mp h
  obtain ⟨k', hk, h⟩ := Option.bind_eq_some_iff.mp h
  cases h
  exact ⟨⟨.run .init hs, hwelcomed⟩, .run .init hk⟩

/-- Just after the queue of her client is full, `send_all` can still go on to `poll`. -/
theorem send_file_moves_iff_chunk : ∃ s k, Welcomed aliceLink s ∧
    (link aliceLink s).Reachable k ∧ k.sendsFile = true ∧ k.upRoom aliceLink = 0 ∧
    k.downRoom aliceLink = 0 ∧ k.Moves aliceLink := by
  have hrun : (aliceRun chunkLabels).map (fun r => ((r.1.threads 0).isActivating, r.2.sendsFile,
      r.2.upRoom aliceLink, r.2.downRoom aliceLink, r.2.client.sending)) =
      some (true, true, 0, 0, .writing 34) := by
    decide +kernel
  obtain ⟨⟨s, k⟩, hsk, hstate⟩ := Option.map_eq_some_iff.mp hrun
  simp only [Prod.mk.injEq] at hstate
  obtain ⟨hwelcomed, hsends, hup, hdown, hsending⟩ := hstate
  obtain ⟨hs, hk⟩ := aliceRun_reach hsk hwelcomed
  refine ⟨s, k, hs, hk, hsends, hup, hdown, (send_file_moves_iff hs hk hsends).mpr ?_⟩
  intro hblocked
  have hpolling := hblocked.client
  rw [hsending] at hpolling
  cases hpolling

/-- One step later neither of them can move. -/
theorem send_file_deadlock : ∃ s k, Welcomed aliceLink s ∧ (link aliceLink s).Reachable k ∧
    k.sendsFile = true ∧ k.Blocked aliceLink ∧ ¬k.Moves aliceLink := by
  have hrun : (aliceRun (chunkLabels ++ aliceGoes 1)).map (fun r =>
      ((r.1.threads 0).isActivating, r.2.sendsFile, r.2.upRoom aliceLink, r.2.downRoom aliceLink,
        r.2.client.sending, r.2.sleepsToWrite aliceLink)) =
      some (true, true, 0, 0, .polling 34, true) := by
    decide +kernel
  obtain ⟨⟨s, k⟩, hsk, hstate⟩ := Option.map_eq_some_iff.mp hrun
  simp only [Prod.mk.injEq] at hstate
  obtain ⟨hwelcomed, hsends, hup, hdown, hsending, hworker⟩ := hstate
  obtain ⟨hs, hk⟩ := aliceRun_reach hsk hwelcomed
  have hblocked : k.Blocked aliceLink := ⟨hup, hdown, by rw [hsending]; rfl, hworker⟩
  obtain ⟨bytes, rest, hc⟩ := Link.callback_of_sendsFile hsends
  exact ⟨s, k, hs, hk, hsends, hblocked, fun hmoves =>
    (link_moves_iff hs.reachable hk hc).mp hmoves hblocked⟩

end CipherChat
