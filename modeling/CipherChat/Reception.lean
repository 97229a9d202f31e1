import CipherChat.IncomingStreams
import CipherChat.PendingAnswers
import CipherChat.Relay
import CipherChat.Wraparound

/-!
# A receiving client

The server with all its connections, and the client at the other end of one of them.
`receive_frame` cuts its frames off the bytes that `SSL_write_ex` has accepted for the
connection; how far it has got, what fails, and what the client sends, is left open.
-/

namespace CipherChat

open Resumption Receiver Transition FileRoutes

/-- A client, and the id of its connection. -/
structure ReceptionConfig where
  client : ClientConfig
  store : FileStore Bytes UInt8
  id : ClientId

structure Reception where
  server : Server
  client : ClientProcess

inductive ReceptionLabel
  | server (l : Label)
  | client (l : ClientLabel)

namespace Reception

variable (g : ReceptionConfig) (k : Reception)

/-- A frame that `receive_frame` returns is the next on the connection. -/
def Arrives : ClientLabel → Prop
  | .received (.ok (some frame)) =>
    (receivedFrames k.client.log ++ [frame]).flatMap wireFrame <+: wire k.server.log g.id
  | _ => True

instance : (l : ClientLabel) → Decidable (k.Arrives g l)
  | .received (.ok (some _)) => inferInstanceAs (Decidable (_ <+: _))
  | .received (.ok none) | .received (.error _) | .typed _ | .pollFailed | .go _ =>
    inferInstanceAs (Decidable True)

def step : ReceptionLabel → Option Reception
  | .server l => (k.server.step l).map fun server => { k with server }
  | .client l =>
    if k.Arrives g l then (k.client.step g.client l).map fun client => { k with client } else none

end Reception

def reception (g : ReceptionConfig) : Transition.System Reception ReceptionLabel where
  init := { server := Server.init, client := .start g.client g.store }
  step := Reception.step g

section

variable {g : ReceptionConfig} {k : Reception} {ok : Reception → ReceptionLabel → Prop}

theorem Reception.step_cases {k' : Reception} {l : ReceptionLabel} (h : k.step g l = some k') :
    (∃ sl server', l = .server sl ∧ k.server.step sl = some server' ∧
      k' = { k with server := server' }) ∨
    ∃ cl client', l = .client cl ∧ k.Arrives g cl ∧ k.client.step g.client cl = some client' ∧
      k' = { k with client := client' } := by
  unfold Reception.step at h
  split at h
  · obtain ⟨server', hserver, rfl⟩ := Option.map_eq_some_iff.mp h
    exact .inl ⟨_, _, rfl, hserver, rfl⟩
  · split at h
    · next harrives =>
      obtain ⟨client', hclient, rfl⟩ := Option.map_eq_some_iff.mp h
      exact .inr ⟨_, _, rfl, harrives, hclient, rfl⟩
    · cases h

theorem reception_server_reachable (hk : (reception g).Reach ok k) : server.Reachable k.server := by
  refine hk.invariant (P := fun k => server.Reachable k.server) .init ?_
  intro k l k' _ _ hold hstep
  rcases Reception.step_cases hstep with ⟨sl, server', -, hserver, rfl⟩ | ⟨cl, c, -, -, -, rfl⟩
  · exact .step hold trivial hserver
  · exact hold

theorem reception_client_reachable (hk : (reception g).Reach ok k) :
    (client g.client g.store).Reachable k.client := by
  refine hk.invariant (P := fun k => (client g.client g.store).Reachable k.client) .init ?_
  intro k l k' _ _ hold hstep
  rcases Reception.step_cases hstep with ⟨sl, server', -, -, rfl⟩ | ⟨cl, c, -, -, hclient, rfl⟩
  · exact hold
  · exact .step hold trivial hclient

theorem reception_received (hk : (reception g).Reach ok k) :
    (receivedFrames k.client.log).flatMap wireFrame <+: wire k.server.log g.id := by
  refine hk.invariant (P := fun k =>
    (receivedFrames k.client.log).flatMap wireFrame <+: wire k.server.log g.id) ?_ ?_
  · exact List.nil_prefix
  intro k l k' _ _ hold hstep
  rcases Reception.step_cases hstep with ⟨sl, server', -, hserver, rfl⟩ |
    ⟨cl, c, rfl, harrives, hclient, rfl⟩
  · obtain ⟨x', t', evs, -, rfl⟩ := Server.step_eq_some hserver
    dsimp only
    rw [wire_append]
    exact hold.trans (List.prefix_append _ _)
  · dsimp only
    rcases ClientProcess.step_cause hclient with hlog | ⟨e, hlog, hcause⟩
    · rw [hlog]
      exact hold
    · rw [hlog, receivedFrames_append]
      cases e with
      | received frame =>
        obtain ⟨-, rfl, -⟩ := hcause
        exact harrives
      | _ =>
        change (receivedFrames k.client.log ++ []).flatMap wireFrame <+: _
        rw [List.append_nil]
        exact hold

theorem queued_of_wire {s : Server} {ok : Server → Label → Prop} (hs : server.Reach ok s)
    {c : ClientId} {frames : List Bytes} (hfit : ∀ frame ∈ frames, frame.length ≤ frameMaxSize)
    (h : frames.flatMap wireFrame <+: wire s.log c) :
    frames <+: (queued s.log c).map OutgoingFrame.bytes := by
  obtain ⟨rest, hrest⟩ := h.trans ((Server.delivers_of_reach hs).written c)
  rw [frames_of_stream (Server.queued_fit hs c) hfit hrest.symm]
  exact List.prefix_append _ _

theorem framesUnder_queuedTo (e : Event) (c : ClientId) (o : UInt32) :
    framesUnder o ((e.queuedTo c).toList.map OutgoingFrame.bytes) =
      ((e.relayed o).toList.filter fun f => f.1 == c).map Prod.snd := by
  by_cases hq : ∃ d r type payload, e = .did d (.queueFrame r type payload) (.ok ())
  · obtain ⟨d, r, type, payload, rfl⟩ := hq
    have hbytes : ((type.toByte :: payload).head?.bind FrameType.ofByte).any FrameType.isFile =
        type.isFile := by
      rw [List.head?_cons, Option.bind_some, FrameType.ofByte_toByte, Option.any_some]
    simp only [Event.queuedTo, Event.relayed]
    by_cases hr : r = c <;> by_cases hf : type.isFile = true ∧
        readTransferId (type.toByte :: payload) = some o
    · rw [if_pos hr, if_pos hf, Option.toList_some, Option.toList_some, List.map_singleton]
      rw [show OutgoingFrame.bytes ⟨type, payload⟩ = type.toByte :: payload from rfl,
        framesUnder_self (hbytes.trans hf.1) hf.2]
      simp [hr]
    · rw [if_pos hr, if_neg hf, Option.toList_some, List.map_singleton]
      rw [show OutgoingFrame.bytes ⟨type, payload⟩ = type.toByte :: payload from rfl]
      rw [not_and_or] at hf
      rcases hf with hf | hf
      · rw [framesUnder_other (hbytes.trans (Bool.eq_false_iff.mpr hf))]
        rfl
      · rw [framesUnder_of_id hf]
        rfl
    · rw [if_neg hr, if_pos hf]
      simp [framesUnder, hr]
    · rw [if_neg hr, if_neg hf]
      rfl
  · have hnone : e.queuedTo c = none ∧ e.relayed o = none := by
      unfold Event.queuedTo Event.relayed
      constructor
      · split
        · exact absurd ⟨_, _, _, _, rfl⟩ hq
        · rfl
      · split
        · exact absurd ⟨_, _, _, _, rfl⟩ hq
        · rfl
    rw [hnone.1, hnone.2]
    rfl

theorem framesUnder_queued (log : List Event) (c : ClientId) (o : UInt32) :
    framesUnder o ((queued log c).map OutgoingFrame.bytes) =
      ((relayed log o).filter fun f => f.1 == c).map Prod.snd := by
  induction log using List.reverseRecOn with
  | nil => rfl
  | append_singleton log e ih =>
    have hone : queued [e] c = (e.queuedTo c).toList := by
      rw [queued, List.filterMap_cons]
      cases e.queuedTo c <;> rfl
    rw [queued_append, hone, List.map_append, framesUnder_append, ih, framesUnder_queuedTo,
      relayed_concat, List.filter_append, List.map_append]

theorem framesUnder_queued_cases {log : List Event} {o : UInt32} {st : Stream}
    (h : Relays o (relayed log o) st) (c : ClientId) :
    (framesUnder o ((queued log c).map OutgoingFrame.bytes)).map (Prod.mk c) = relayed log o ∨
      framesUnder o ((queued log c).map OutgoingFrame.bytes) = [] := by
  obtain ⟨r, hr, -⟩ := h.shape
  rw [framesUnder_queued]
  by_cases hrc : r = c
  · left
    rw [List.filter_eq_self.mpr fun f hf => by simp [hr f hf, hrc], List.map_map]
    refine (List.map_congr_left fun f hf => ?_).trans (List.map_id _)
    exact Prod.ext (hrc.symm.trans (hr f hf).symm) rfl
  · right
    rw [List.filter_eq_nil_iff.mpr fun f hf => by simp [hr f hf, hrc]]
    rfl

theorem Relay.streamed {x : Shared} {log : List Event} (h : Relay x log) (c : ClientId) :
    Streamed c ((queued log c).map OutgoingFrame.bytes) := by
  intro o
  obtain ⟨st, hst, -⟩ := h.stream o
  rcases framesUnder_queued_cases hst c with heq | hnil
  · exact ⟨st, heq ▸ hst⟩
  · rw [hnil]
    exact ⟨_, .fresh⟩

theorem Relay.delivered {x : Shared} {log : List Event} (h : Relay x log) {c : ClientId}
    {o : UInt32} {frames : List Bytes} {frame : Bytes} {b : FileBeginFrame} {chunks : List Bytes}
    (hqueued : frames ++ [frame] <+: (queued log c).map OutgoingFrame.bytes)
    (hopen : Relays o ((framesUnder o frames).map (Prod.mk c)) (.open c b chunks))
    (hend : decodeControl frame .fileEnd = .ok o) : Delivered log c b chunks := by
  obtain ⟨st, hst, hdelivered⟩ := h.stream o
  obtain ⟨hhead, hid⟩ := decodeControl_ok hend
  have hframe : framesUnder o [frame] = [frame] := framesUnder_self (by rw [hhead]; rfl) hid
  obtain ⟨rest, hrest⟩ := hqueued
  have hsplit : framesUnder o ((queued log c).map OutgoingFrame.bytes) =
      framesUnder o frames ++ frame :: framesUnder o rest := by
    rw [← hrest, framesUnder_append, framesUnder_append, hframe, List.append_assoc]
    rfl
  rcases framesUnder_queued_cases hst c with heq | hnil
  · rw [← heq, hsplit, List.map_append, List.map_cons] at hst
    obtain ⟨b', chunks', hopen', -, hclosed⟩ := hst.ended_cases hend
    obtain ⟨rfl, rfl⟩ := hopen.open_unique hopen'
    exact hdelivered c b chunks hclosed
  · rw [hsplit] at hnil
    cases (List.append_eq_nil_iff.mp hnil).2

theorem ClientProcess.step_received {cfg : ClientConfig} {p p' : ClientProcess} {frame : Bytes}
    (h : p.step cfg (.received (.ok (some frame))) = some p') :
    p.callback = none ∧ Receivable frame := by
  unfold ClientProcess.step at h
  split at h
  · next heq =>
    cases heq
  · cases h
  · next hidle =>
    split at h
    · unfold ClientProcess.dispatch at h
      dsimp only at h
      split at h
      · next hreceivable => exact ⟨hidle, hreceivable⟩
      · cases h
    · cases h

/-- The client passes `frame` to `receive_file_end`, which finds slot `i` complete. -/
structure Reception.Completes (g : ReceptionConfig) (k : Reception) (frame : Bytes)
    (i : Fin maxIncomingFiles) : Prop where
  arrives : (k.step g (.client (.received (.ok (some frame))))).isSome
  slot : ∃ o, decodeControl frame .fileEnd = .ok o ∧
    k.client.state.files.findIncomingFile o = some i
  complete : (k.client.state.files.incomingFiles i).receivedSize =
    (k.client.state.files.incomingFiles i).expectedSize

/-- One connection logged in as the sender of slot `x` announced a file of its name and size to
a name of `c`, and `staged` is what it sent in the chunks between that BEGIN and its END. -/
def FromOneTransfer (log : List Event) (c : ClientId) (x : IncomingFile) (staged : Bytes) : Prop :=
  ∃ d src b chunks, Named log d x.sender ∧ Named log c b.peer ∧ Sent log d src b chunks ∧
    b.filename = x.filename ∧ b.fileSize.toNat = x.expectedSize ∧ chunks.flatten = staged

theorem reception_completes (hk : (reception g).Reachable k)
    (hlt : allocated k.server.log < 2 ^ 32) {frame : Bytes} {i : Fin maxIncomingFiles}
    (h : k.Completes g frame i) :
    ∃ f, (k.client.state.files.incomingFiles i).file = some f ∧
      FromOneTransfer k.server.log g.id (k.client.state.files.incomingFiles i)
        (k.client.state.files.store.data f.inode) := by
  have hserver := reception_server_reachable hk
  have hclient := reception_client_reachable hk
  have hrelay := Server.relay_of_reach hserver hlt
  obtain ⟨k', hstep⟩ := Option.isSome_iff_exists.mp h.arrives
  obtain ⟨o, hend, hfind⟩ := h.slot
  rcases Reception.step_cases hstep with ⟨sl, server', hl, -⟩ | ⟨cl, c, hl, harrives, hc, -⟩
  · cases hl
  cases hl
  have hdispatch := ClientProcess.step_received hc
  have hfit : ∀ frame' ∈ receivedFrames k.client.log ++ [frame], frame'.length ≤ frameMaxSize := by
    intro frame' hmem
    rcases List.mem_append.mp hmem with hmem | hmem
    · exact receivedFrames_fit hclient frame' hmem
    · rw [List.mem_singleton.mp hmem]
      exact hdispatch.2.1
  have hqueued := queued_of_wire hserver hfit harrives
  have hstreamed : Streamed g.id (receivedFrames k.client.log) := by
    obtain ⟨rest, hrest⟩ := hqueued
    have hall := hrelay.streamed g.id
    rw [← hrest, List.append_assoc] at hall
    exact hall.of_append
  obtain ⟨hinv, hfilled⟩ := ClientProcess.filled (c := g.id) hclient hdispatch.1
  obtain ⟨hactive, hid⟩ := Receiver.findIncomingFile_some hfind
  obtain ⟨f, hf⟩ := hinv.staged i hactive
  obtain ⟨b, chunks, hcarries⟩ := hfilled hstreamed i hactive
  have hopen := hcarries.stream
  rw [hid] at hopen
  obtain ⟨d, src, b₀, hsender, hreceiver, hsent, hname, hsize⟩ :=
    hrelay.delivered hqueued hopen hend
  refine ⟨f, hf.file, d, src, b₀, chunks, ?_, hreceiver, hsent, ?_, ?_, ?_⟩
  · rw [hcarries.sender]
    exact hsender
  · rw [hcarries.filename, hname]
  · rw [hcarries.size, hsize]
  · exact (hcarries.data f hf.file).symm

end

def alice : Session := ⟨ann.index, 1, ascii "alice"⟩

theorem maxIncomingFiles_pos : 0 < maxIncomingFiles := by decide

def firstSlot : Fin maxIncomingFiles := ⟨0, maxIncomingFiles_pos⟩

def bobReception : ReceptionConfig := ⟨bobClient, emptyStore, 2⟩

def onServer (labels : List Label) : List ReceptionLabel := labels.map .server

theorem zeroNonce_length : (List.replicate 24 (0 : UInt8)).length = cryptoBoxNonceBytes := rfl

def bobEnv : ClientEnv := { nonce := ⟨List.replicate 24 0, zeroNonce_length⟩ }

/-- The client takes `count` steps that do not depend on its environment. -/
def bobGoes (count : ℕ) : List ReceptionLabel := List.replicate count (.client (.go bobEnv))

def bobWrites (length : ℕ) : List ReceptionLabel :=
  [.client (.go bobEnv), .client (.go { bobEnv with write := .written length }),
    .client (.go bobEnv)]

/-- The worker of `bob` writes as many bytes. -/
def workerWrites (length : ℕ) : List ReceptionLabel :=
  onServer [(1, {}), (1, {}), (1, {}), (1, { write := .written length }), (1, {})]

def bobReceives (frame : Bytes) : List ReceptionLabel :=
  workerWrites (4 + frame.length) ++ [.client (.received (.ok (some frame)))] ++ bobGoes 2

/-- `alice` sends a frame, with these answers of `malloc`. -/
def aliceSends (frame : Bytes) (addresses : List (Option ℕ)) : List ReceptionLabel :=
  onServer (frameLabels 0 frame ++ stepLabels 0 addresses)

def aliceBegin (src : UInt32) (filename : Bytes) : Bytes :=
  beginFrame src 93 (ascii "bob") filename

/-- Both log in, and `bob` opens a slot for the file `a`. -/
def announcedLabels : List ReceptionLabel :=
  onServer (loginLabels 0 (ascii "alice") ++ loginLabels 1 (ascii "bob")) ++
    bobGoes 1 ++ bobWrites 4 ++ bobWrites 1 ++ bobWrites 32 ++ bobGoes 2 ++
    aliceSends (aliceBegin 9 (ascii "a")) [none, none, some 1, none] ++ bobReceives sampleBegin

def carriedLabels (src : UInt32) : List ReceptionLabel :=
  aliceSends (chunkFrame src sampleEnvelope) [none, some 2, none] ++ bobReceives sampleChunk ++
    aliceSends (endFrame src) [none, some 3, none] ++ workerWrites (4 + sampleEnd.length)

theorem sample_completes : ∃ k, (reception bobReception).Reachable k ∧
    (∀ frame, .received bobReception.id frame ∉ k.server.log) ∧
    allocated k.server.log < 2 ^ 32 ∧ k.Completes bobReception sampleEnd firstSlot ∧
    (k.client.state.files.incomingFiles firstSlot).receivedSize = 93 := by
  have hrun : (((reception bobReception).run (reception bobReception).init
      (announcedLabels ++ carriedLabels 9)).filter fun k =>
        k.server.log.all fun e => (e.handedTo bobReception.id).isNone).map (fun k =>
      (allocated k.server.log, k.client.state.files.findIncomingFile 1,
        (k.step bobReception (.client (.received (.ok (some sampleEnd))))).isSome,
        (k.client.state.files.incomingFiles firstSlot).receivedSize,
        (k.client.state.files.incomingFiles firstSlot).expectedSize)) =
      some (1, some firstSlot, true, 93, 93) := by
    decide +kernel
  obtain ⟨k, hk, hview⟩ := Option.map_eq_some_iff.mp hrun
  obtain ⟨hk, hsilent⟩ := Option.filter_eq_some_iff.mp hk
  obtain ⟨hallocated, hview⟩ := Prod.mk.inj hview
  obtain ⟨hfind, hview⟩ := Prod.mk.inj hview
  obtain ⟨harrives, hview⟩ := Prod.mk.inj hview
  obtain ⟨hreceived, hexpected⟩ := Prod.mk.inj hview
  refine ⟨k, System.Reachable.run .init hk, fun frame hmem => ?_, ?_,
    ⟨harrives, ⟨1, decodeControl_endFrame 1, hfind⟩, hreceived.trans hexpected.symm⟩, hreceived⟩
  · have hnone := Option.isNone_iff_eq_none.mp (List.all_eq_true.mp hsilent _ hmem)
    rw [Event.handedTo, if_pos rfl] at hnone
    cases hnone
  · rw [hallocated]
    decide

section

variable {g : ReceptionConfig} {k : Reception}

theorem reception_steps {s s' : Server} (h : server.Steps s s') (c : ClientProcess) :
    (reception g).Steps ⟨s, c⟩ ⟨s', c⟩ := by
  induction h with
  | refl => exact .refl
  | @tail t t' l _ hstep ih =>
    refine .tail (i := .server l) ih ?_
    change (t.step l).map _ = _
    change t.step l = _ at hstep
    rw [hstep]
    rfl

def Reception.relog (k : Reception) (log : List Event) : Reception :=
  { k with server := { k.server with log } }

theorem Reception.step_relog {k' : Reception} {l : ReceptionLabel} {log : List Event}
    (hwire : wire log g.id = wire k.server.log g.id) (h : k.step g l = some k') :
    ∃ evs, k'.server.log = k.server.log ++ evs ∧
      (k.relog log).step g l = some (k'.relog (log ++ evs)) := by
  rcases Reception.step_cases h with ⟨sl, server', rfl, hserver, rfl⟩ |
    ⟨cl, c, rfl, harrives, hclient, rfl⟩
  · obtain ⟨x', t', evs, hthread, rfl⟩ := Server.step_eq_some hserver
    refine ⟨evs, rfl, ?_⟩
    change (Server.step _ _).map _ = _
    unfold Server.step
    dsimp only [Reception.relog]
    rw [hthread]
    rfl
  · refine ⟨[], (List.append_nil _).symm, ?_⟩
    have harrives' : (k.relog log).Arrives g cl := by
      unfold Reception.Arrives at harrives ⊢
      split at harrives
      · change _ <+: wire log g.id
        rw [hwire]
        exact harrives
      · trivial
    change (if (k.relog log).Arrives g cl then _ else _) = _
    rw [if_pos harrives', List.append_nil]
    change (k.client.step g.client cl).map _ = _
    rw [hclient]
    rfl

theorem Reception.run_relog {ls : List ReceptionLabel} : ∀ {k k' : Reception} {log : List Event},
    wire log g.id = wire k.server.log g.id → (reception g).run k ls = some k' →
    ∃ evs, k'.server.log = k.server.log ++ evs ∧
      (reception g).run (k.relog log) ls = some (k'.relog (log ++ evs)) := by
  induction ls with
  | nil =>
    intro k k' log _ h
    cases h
    exact ⟨[], (List.append_nil _).symm, by rw [List.append_nil]; rfl⟩
  | cons l ls ih =>
    intro k k' log hwire h
    rw [System.run] at h
    split at h
    · next k₁ hstep =>
      obtain ⟨evs, hlog, hstep'⟩ := Reception.step_relog hwire hstep
      have hwire' : wire (log ++ evs) g.id = wire k₁.server.log g.id := by
        rw [hlog, wire_append, wire_append, hwire]
      obtain ⟨evs', hlog', hrun⟩ := ih hwire' h
      refine ⟨evs ++ evs', ?_, ?_⟩
      · rw [hlog', hlog, List.append_assoc]
      · rw [System.run]
        have hnext : (reception g).step (k.relog log) l = some (k₁.relog (log ++ evs)) := hstep'
        rw [hnext, ← List.append_assoc]
        exact hrun
    · cases h

end

def Reception.wrapped (k : Reception) : Reception :=
  { k with server := { k.server with shared := { k.server.shared with routes := emptied 0 } } }

/-- The END of the first transfer comes too early, and no error can be queued for `bob`. -/
def lostLabels : List ReceptionLabel :=
  announcedLabels ++ aliceSends (endFrame 9) [none, none, none, none]

/-- A second transfer, of the file `b`, gets the id of the first. -/
def reusedLabels : List ReceptionLabel :=
  aliceSends (aliceBegin 5 (ascii "b")) [none, none, some 1, none] ++
    bobReceives (beginFrame 1 93 (ascii "alice") (ascii "b")) ++ carriedLabels 5

def aliceFrames : List Bytes :=
  [aliceBegin 9 (ascii "a"), endFrame 9, aliceBegin 5 (ascii "b"),
    chunkFrame 5 sampleEnvelope, endFrame 5]

theorem not_fromOneTransfer {log : List Event}
    (hlog : ∀ c frame, .received c frame ∈ log → c = alice.id ∧ frame ∈ aliceFrames)
    {c : ClientId}
    {x : IncomingFile} {staged : Bytes} (hname : x.filename = ascii "a") (hstaged : staged ≠ []) :
    ¬FromOneTransfer log c x staged := by
  have hbegins : ∀ frame ∈ aliceFrames, (decodeBegin frame).all (fun b =>
      b.filename != ascii "a" || b.transferId == 9) = true := by
    decide +kernel
  have hparts : ∀ frame ∈ aliceFrames, (transferPart 9 frame).bind id = none := by
    decide +kernel
  rintro ⟨d, src, b, chunks, -, -, hsent, hfilename, -, rfl⟩
  obtain ⟨before, frame, between, frame', after, rfl, hdecode, rfl, -, hchunks⟩ := hsent
  have hsrc : b.transferId = 9 := by
    have hb := hbegins frame (hlog d frame (by simp)).2
    rw [hdecode, Option.all_some, hfilename, hname] at hb
    simpa using hb
  rw [hsrc] at hchunks
  cases chunks with
  | nil => exact hstaged rfl
  | cons data rest =>
    have hmem : some data ∈ sentParts d 9 between := by
      rw [hchunks]
      exact List.mem_cons_self
    obtain ⟨e, he, hpart⟩ := List.mem_filterMap.mp hmem
    unfold Event.sentPart at hpart
    split at hpart
    · next c' frame'' =>
      split at hpart
      · have hnone := hparts frame'' (hlog c' frame'' (by simp [he])).2
        rw [hpart] at hnone
        cases hnone
      · cases hpart
    · cases hpart

/-- Only client `c` is handed a frame, and only one of these. -/
def Event.receivesOf (c : ClientId) (frames : List Bytes) : Event → Bool
  | .received d frame => d == c && frames.contains frame
  | _ => true

def wrappedRun : Option (Reception × Reception) :=
  ((reception bobReception).run (reception bobReception).init lostLabels).bind fun k₀ =>
    ((reception bobReception).run k₀.wrapped reusedLabels).map fun k₂ => (k₀, k₂)

theorem wrapped_first : wrappedRun.map (fun r =>
    ((r.1.server.threads 0).loop, (r.1.server.shared.clients.heap 0).isNone &&
      (List.finRange fileRouteCapacity).all (fun i => r.1.server.shared.routes.routes i == {}) &&
      r.1.server.shared.routes.nextOutboundTransferId == 2 &&
      r.1.server.shared.clients.findClientId (ascii "bob") == 2 &&
      r.1.server.log.all (Event.receivesOf alice.id aliceFrames))) =
    some (some (alice, { progress := true }), true) := by
  decide +kernel

theorem wrapped_idle : wrappedRun.map (fun r =>
    (r.1.server.shared.clients.findActive 1, r.1.server.shared.clients.findReady 1,
      (r.1.server.shared.clients.clients alice.index).outgoing,
      (r.1.server.shared.clients.clients alice.index).outgoingFailed,
      (r.1.server.shared.clients.clients alice.index).wakeFd)) =
    some (some alice.index, some alice.index, {}, false, some 0) := by
  decide +kernel

theorem wrapped_last : wrappedRun.map (fun r =>
    ((r.2.step bobReception (.client (.received (.ok (some sampleEnd))))).isSome &&
      r.2.client.state.files.findIncomingFile 1 == some firstSlot &&
      (r.2.client.state.files.incomingFiles firstSlot).receivedSize ==
        (r.2.client.state.files.incomingFiles firstSlot).expectedSize &&
      r.2.server.log.all (Event.receivesOf alice.id aliceFrames),
      (r.2.client.state.files.incomingFiles firstSlot).filename,
      (r.2.client.state.files.incomingFiles firstSlot).file.map fun f =>
        (r.2.client.state.files.store.data f.inode).isEmpty)) =
    some (true, ascii "a", some false) := by
  decide +kernel

/-- After 2 ^ 32 transfers an id returns.  A slot whose error was lost is still open under it,
and is completed by the chunks of another transfer. -/
theorem reused_id_mixes : ∃ k, (reception bobReception).Reachable k ∧
    (∀ frame, .received bobReception.id frame ∉ k.server.log) ∧
    k.Completes bobReception sampleEnd firstSlot ∧
    ∀ f, (k.client.state.files.incomingFiles firstSlot).file = some f →
      ¬FromOneTransfer k.server.log bobReception.id
        (k.client.state.files.incomingFiles firstSlot)
        (k.client.state.files.store.data f.inode) := by
  obtain ⟨⟨k₀, k₂⟩, hwrapped, hfirst⟩ := Option.map_eq_some_iff.mp wrapped_first
  have hidle := wrapped_idle
  have hlast := wrapped_last
  rw [hwrapped, Option.map_some, Option.some_inj] at hidle hlast
  unfold wrappedRun at hwrapped
  obtain ⟨k, hrun₀, hwrapped⟩ := Option.bind_eq_some_iff.mp hwrapped
  obtain ⟨k', hrun₂, hpair⟩ := Option.map_eq_some_iff.mp hwrapped
  obtain ⟨rfl, rfl⟩ := Prod.mk.inj hpair
  dsimp only at hfirst hidle hlast
  obtain ⟨hloop, hfirst⟩ := Prod.mk.inj hfirst
  obtain ⟨hlast, hview⟩ := Prod.mk.inj hlast
  obtain ⟨hfilename, hdata⟩ := Prod.mk.inj hview
  simp only [Bool.and_eq_true, beq_iff_eq, Option.isNone_iff_eq_none] at hfirst hlast
  obtain ⟨⟨⟨⟨hmemory, hempty⟩, hcounter⟩, hbob⟩, hlog₀⟩ := hfirst
  obtain ⟨⟨⟨harrives, hfind⟩, hsizes⟩, hlog₂⟩ := hlast
  -- the first transfer is lost, and `alice` waits
  have hreach : (reception bobReception).Reachable k := System.Reachable.run .init hrun₀
  have hwaits : k.server.Waits 0 alice { progress := true } :=
    .of_view (show alice.id ≠ invalidClientId by decide) hloop hmemory hidle
  have hroutes : k.server.shared.routes = emptied (.ofNat 2) := by
    have hall : k.server.shared.routes.routes = fun _ => {} := funext fun i =>
      beq_iff_eq.mp (List.all_eq_true.mp hempty i (List.mem_finRange i))
    rw [emptied, init, ← hall]
    exact congrArg (FileRoutes.mk _) hcounter
  -- then the counter goes round
  have hdecode : decodeBegin (aliceBegin 5 (ascii "b")) =
      some ⟨5, 93, ascii "bob", ascii "b"⟩ :=
    decodeBegin_beginFrame (by decide +kernel) (by decide +kernel)
  obtain ⟨evs, hst, hevs⟩ := hwaits.rounds (p := (· ∈ aliceFrames)) (by decide +kernel) hdecode
    (by decide +kernel) Nat.two_pos hroutes (by rw [hbob]; decide) (by decide +kernel)
    (by decide +kernel) (2 ^ 32 - 2) (by decide)
  have hzero : UInt32.ofNat (2 + (2 ^ 32 - 2)) = 0 := by decide
  rw [hzero] at hst
  have hwire : wire evs bobReception.id = [] := by
    refine List.flatMap_eq_nil_iff.mpr fun e he => ?_
    have hclient := (hevs e he).1
    cases e with
    | wrote c bytes => cases hclient
    | _ => rfl
  -- and the second transfer takes the id of the first
  have hwire₀ : wire (k.server.log ++ evs) bobReception.id =
      wire k.wrapped.server.log bobReception.id := by
    rw [wire_append, hwire, List.append_nil]
    rfl
  obtain ⟨evs', hlog', hrun'⟩ := Reception.run_relog hwire₀ hrun₂
  have hreach' : (reception bobReception).Reachable
      (k'.relog (k.server.log ++ evs ++ evs')) :=
    (hreach.steps (reception_steps hst k.client)).run hrun'
  have hwire₂ : wire (k.server.log ++ evs ++ evs') bobReception.id =
      wire k'.server.log bobReception.id := by
    rw [hlog', wire_append, wire_append _ evs', hwire₀]
  obtain ⟨k₃, hstep⟩ := Option.isSome_iff_exists.mp harrives
  obtain ⟨_, _, hstep'⟩ := Reception.step_relog hwire₂ hstep
  have hcompletes : (k'.relog (k.server.log ++ evs ++ evs')).Completes bobReception sampleEnd
      firstSlot :=
    ⟨Option.isSome_iff_exists.mpr ⟨_, hstep'⟩, ⟨1, decodeControl_endFrame 1, hfind⟩, hsizes⟩
  have hframes : ∀ c frame, .received c frame ∈ k.server.log ++ evs ++ evs' →
      c = alice.id ∧ frame ∈ aliceFrames := by
    have hsome : ∀ log : List Event, log.all (Event.receivesOf alice.id aliceFrames) = true →
        ∀ c frame, .received c frame ∈ log → c = alice.id ∧ frame ∈ aliceFrames := by
      intro log hall c frame hmem
      obtain ⟨hc, hframe⟩ := Bool.and_eq_true_iff.mp (List.all_eq_true.mp hall _ hmem)
      exact ⟨beq_iff_eq.mp hc, List.contains_iff_mem.mp hframe⟩
    intro c frame hmem
    rcases List.mem_append.mp hmem with hmem | hmem
    · rcases List.mem_append.mp hmem with hmem | hmem
      · exact hsome _ hlog₀ c frame hmem
      · obtain ⟨hclient, hframe⟩ := hevs _ hmem
        exact ⟨Option.some.inj hclient, hframe c frame rfl⟩
    · refine hsome _ hlog₂ c frame ?_
      rw [hlog']
      exact List.mem_append_right _ hmem
  refine ⟨_, hreach', fun frame hmem => ?_, hcompletes, fun f hfile => ?_⟩
  · exact absurd (hframes _ frame hmem).1 (by decide)
  · refine not_fromOneTransfer hframes hfilename fun hnil => ?_
    change (k'.client.state.files.incomingFiles firstSlot).file = some f at hfile
    change k'.client.state.files.store.data f.inode = [] at hnil
    rw [hfile, Option.map_some, hnil] at hdata
    cases hdata

end CipherChat
