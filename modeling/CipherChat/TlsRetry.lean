import CipherChat.Handling
import CipherChat.WorkerReader
import Mathlib.Data.List.Chain

/-!
# Retries of TLS calls

The two halves of the worker loop share its two wait variables.  A write that must be
retried holds back reads, and a read that waits to write holds back writes; they never do so
together, so the next TLS call is the one that has to be retried, with what it was given.
-/

namespace CipherChat

open Transition

/-- What the calls of the loop return. -/
inductive Answer
  | drained (failure : Option Errno)
  | status (result : Except Errno Unit)
  | taken (available : Except Errno (Option OutgoingFrame))
  | written (result : WriteResult)
  | read (result : ReadResult)
  | handled (keep : Bool)
  | polled (failure : Option Errno)

/-- A call of `SSL_write_ex` or `SSL_read_ex`, with its result. -/
inductive TlsCall
  | write (buffer : Bytes) (offset length : ℕ) (result : WriteResult)
  | read (offset length : ℕ) (result : ReadResult)
  deriving DecidableEq

namespace Worker

/-- The events that the loop waits for on its socket. -/
def pollEvents (w : Worker) : Wait := if w.writeWait ≠ .none then w.writeWait else w.readWait

/-- The loop from the return of one call to the next call. -/
def answered (w : Worker) (a : Answer) : Option Worker :=
  match w.pc, a with
  | .drain, .drained failure => some (w.afterDrain failure)
  | .status, .status result => some (w.afterStatus result)
  | .take, .taken available => some (w.afterTake available)
  | .write, .written result => if w.WriteOk result then some (w.afterWrite result) else none
  | .read, .read result => if w.ReadOk result then some (w.afterRead result) else none
  | .handle _, .handled keep => some (w.afterHandle keep)
  | .poll, .polled failure => some (w.afterPoll failure)
  | _, _ => none

def tlsCalls (w : Worker) : Answer → List TlsCall
  | .written result => [.write w.outgoing w.sent (w.outgoingLength - w.sent) result]
  | .read result => [.read w.received (w.needed - w.received) result]
  | _ => []

end Worker

/-- A worker, and the TLS calls it has made. -/
structure Traced where
  worker : Worker := {}
  calls : List TlsCall := []
  deriving DecidableEq

def tracedWorker : System Traced Answer where
  init := {}
  step s a := (s.worker.answered a).map fun w => ⟨w, s.calls ++ s.worker.tlsCalls a⟩

def Retried (call next : TlsCall) : Prop :=
  (∀ buffer offset length e, call = .write buffer offset length (.failed e) →
    e = .wantRead ∨ e = .wantWrite → ∃ result, next = .write buffer offset length result) ∧
  ∀ offset length, call = .read offset length (.failed .wantWrite) →
    ∃ result, next = .read offset length result

namespace Worker

def Owes (w : Worker) (call : TlsCall) : Prop :=
  (∀ buffer offset length e, call = .write buffer offset length (.failed e) →
    e = .wantRead ∨ e = .wantWrite → w.writeWait ≠ .none ∧ w.outgoing = buffer ∧
      w.sent = offset ∧ w.outgoingLength - w.sent = length) ∧
  ∀ offset length, call = .read offset length (.failed .wantWrite) →
    w.readWait = .pollout ∧ w.received = offset ∧ w.needed - w.received = length

/-- The waits are in order, and whoever sleeps waits for something. -/
structure Waits (w : Worker) : Prop where
  output : w.Output
  pc : w.PcOk
  handle : ∀ frame, w.pc = .handle frame → w.readWait = .none ∧ w.progress = true
  poll : w.pc = .poll → w.pollEvents ≠ .none

/-- Nothing that a TLS call is given has changed, nor the waits. -/
structure Holds (w w' : Worker) : Prop where
  output : w'.output = w.output
  incoming : w'.incoming = w.incoming
  needed : w'.needed = w.needed
  readWait : w'.readWait = w.readWait
  writeWait : w'.writeWait = w.writeWait

variable {w w' : Worker}

theorem Holds.owes (h : w.Holds w') {call : TlsCall} (ho : w.Owes call) : w'.Owes call := by
  obtain ⟨pc, incoming, needed, readWait, outgoing, outgoingLength, sent, writeWait, progress⟩ := w
  obtain ⟨pc', incoming', needed', readWait', outgoing', outgoingLength', sent', writeWait',
    progress'⟩ := w'
  obtain ⟨houtput, hincoming, hneeded, hread, hwrite⟩ := h
  dsimp only at hincoming hneeded hread hwrite
  cases houtput
  subst hincoming hneeded hread hwrite
  exact ho

theorem holds_endIo (w : Worker) : w.Holds w.endIo := ⟨rfl, rfl, rfl, rfl, rfl⟩

theorem holds_beginRead (w : Worker) : w.Holds w.beginRead := by
  have h := beginRead_continues w
  exact ⟨w.beginRead_output, h.incoming, h.needed, h.waits.1, h.waits.2⟩

theorem holds_beginIo (w : Worker) : w.Holds w.beginIo := by
  have h := beginIo_continues w
  exact ⟨w.beginIo_output, h.incoming, h.needed, h.waits.1, h.waits.2⟩

theorem Waits.retried_write (h : w.Waits) (hpc : w.pc = .write) {call : TlsCall}
    (ho : w.Owes call) (result : WriteResult) :
    Retried call (.write w.outgoing w.sent (w.outgoingLength - w.sent) result) := by
  have hturn := h.pc
  rw [PcOk, hpc] at hturn
  refine ⟨fun buffer offset length e hcall he => ?_, fun offset length hcall => ?_⟩
  · obtain ⟨-, rfl, rfl, rfl⟩ := ho.1 buffer offset length e hcall he
    exact ⟨result, rfl⟩
  · exact absurd (ho.2 offset length hcall).1 hturn.2

theorem Waits.retried_read (h : w.Waits) (hpc : w.pc = .read) {call : TlsCall}
    (ho : w.Owes call) (result : ReadResult) :
    Retried call (.read w.received (w.needed - w.received) result) := by
  have hturn := h.pc
  rw [PcOk, hpc] at hturn
  refine ⟨fun buffer offset length e hcall he => ?_, fun offset length hcall => ?_⟩
  · exact absurd hturn (ho.1 buffer offset length e hcall he).1
  · obtain ⟨-, rfl, rfl⟩ := ho.2 offset length hcall
    exact ⟨result, rfl⟩

theorem waits_endIo (ho : w.Output) (hpoll : w.progress = false → w.pollEvents ≠ .none) :
    w.endIo.Waits := by
  have hpc : w.endIo.pc = if w.progress then .drain else .poll := rfl
  refine ⟨⟨ho.wait, ho.sent⟩, (endIo_continues w).pc, fun frame hframe => ?_, fun hsleep => ?_⟩
  · rw [hpc] at hframe
    split at hframe <;> cases hframe
  · rw [hpc] at hsleep
    split at hsleep
    · cases hsleep
    · next hp => exact hpoll (Bool.eq_false_iff.mpr hp)

theorem waits_beginRead (ho : w.Output) : w.beginRead.Waits := by
  unfold beginRead
  split
  · next hwait => exact ⟨⟨ho.wait, ho.sent⟩, hwait, nofun, nofun⟩
  · next hwait =>
    refine waits_endIo ho fun _ => ?_
    rw [pollEvents, if_pos hwait]
    exact hwait

theorem waits_beginIo (ho : w.Output) : w.beginIo.Waits := by
  unfold beginIo
  dsimp only
  split
  · next hturn => exact ⟨⟨ho.wait, ho.sent⟩, hturn, nofun, nofun⟩
  · exact waits_beginRead ⟨ho.wait, ho.sent⟩

theorem waits_of_output (ho : w.Output) (hpc : w.PcOk) (hhandle : ∀ frame, w.pc ≠ .handle frame)
    (hpoll : w.pc ≠ .poll) : w.Waits :=
  ⟨ho, hpc, fun frame h => absurd h (hhandle frame), fun h => absurd h hpoll⟩

theorem waits_done (ho : w.Output) (result : Except Errno Unit) :
    Waits { w with pc := .done result } :=
  waits_of_output ⟨ho.wait, ho.sent⟩ trivial nofun nofun

theorem waits_complete (ho : w.Output) (hread : w.readWait = .none) (hp : w.progress = true) :
    w.complete.Waits := by
  unfold complete
  split
  · dsimp only
    split
    · exact waits_done ho _
    · refine waits_endIo ⟨ho.wait, ho.sent⟩ fun hno => ?_
      rw [hp] at hno
      cases hno
  · dsimp only
    split
    · exact ⟨⟨ho.wait, ho.sent⟩, trivial, fun _ _ => ⟨hread, hp⟩, nofun⟩
    · exact waits_done ho _

theorem retry_ne_none {e : SslError} {wait : Wait} (h : tlsRetry e = .retry wait) :
    wait ≠ .none := by
  unfold tlsRetry at h
  split at h <;> cases h <;> decide

theorem Waits.afterDrain (h : w.Waits) (failure : Option Errno) : (w.afterDrain failure).Waits := by
  cases failure with
  | none =>
    exact waits_of_output ⟨h.output.wait, h.output.sent⟩ trivial nofun nofun
  | some e => exact waits_done h.output _

theorem Waits.afterStatus (h : w.Waits) (result : Except Errno Unit) :
    (w.afterStatus result).Waits := by
  cases result with
  | error e => exact waits_done h.output _
  | ok _ =>
    unfold Worker.afterStatus
    dsimp only
    split
    · next hempty =>
      exact waits_of_output ⟨h.output.wait, h.output.sent⟩ hempty nofun nofun
    · exact waits_beginIo h.output

theorem Waits.afterTake (h : w.Waits) (hpc : w.pc = .take)
    (available : Except Errno (Option OutgoingFrame)) : (w.afterTake available).Waits := by
  have hempty : w.outgoingLength = 0 := by
    have hturn := h.pc
    rwa [PcOk, hpc] at hturn
  cases available with
  | error e => exact waits_done h.output _
  | ok frame =>
    cases frame with
    | none => exact waits_beginIo h.output
    | some frame =>
      refine waits_beginIo ⟨fun hne => absurd hempty (h.output.wait hne).1, fun _ => ?_⟩
      dsimp only
      omega

theorem Waits.afterWrite (h : w.Waits) (hpc : w.pc = .write) {result : WriteResult}
    (hok : w.WriteOk result) : (w.afterWrite result).Waits := by
  have hturn := h.pc
  rw [PcOk, hpc] at hturn
  have hsent := h.output.sent hturn.1
  cases result with
  | written n =>
    refine waits_beginRead ⟨fun hne => absurd rfl hne, fun hne => ?_⟩
    dsimp only [WriteOk] at hok hne ⊢
    split at hne
    · exact absurd rfl hne
    · next hpart =>
      rw [if_neg hpart]
      omega
  | failed e =>
    unfold Worker.afterWrite
    dsimp only
    split
    · exact waits_beginRead ⟨fun _ => hturn, h.output.sent⟩
    · exact waits_done h.output _
    · exact waits_done h.output _

theorem Waits.afterRead (h : w.Waits) (hpc : w.pc = .read) (result : ReadResult) :
    (w.afterRead result).Waits := by
  have hwait : w.writeWait = .none := by
    have hturn := h.pc
    rwa [PcOk, hpc] at hturn
  cases result with
  | data bytes =>
    have ho : Output
        { w with incoming := w.incoming ++ bytes, readWait := .none, progress := true } :=
      ⟨fun hne => absurd hwait hne, h.output.sent⟩
    unfold Worker.afterRead
    dsimp only
    split
    · exact waits_complete ho rfl rfl
    · exact waits_endIo ho fun hno => by cases hno
  | failed e =>
    unfold Worker.afterRead
    dsimp only
    split
    · next wait hretry =>
      refine waits_endIo ⟨fun hne => absurd hwait hne, h.output.sent⟩ fun _ => ?_
      rw [pollEvents, if_neg (not_not.mpr hwait)]
      exact retry_ne_none hretry
    · exact waits_done h.output _
    · exact waits_done h.output _

theorem Waits.afterHandle (h : w.Waits) {frame : Bytes} (hpc : w.pc = .handle frame) (keep : Bool) :
    (w.afterHandle keep).Waits := by
  cases keep with
  | false => exact waits_done h.output _
  | true =>
    have hprogress := (h.handle frame hpc).2
    exact waits_endIo ⟨h.output.wait, h.output.sent⟩ fun hno =>
      absurd (hprogress.symm.trans hno) nofun

theorem Waits.afterPoll (h : w.Waits) (failure : Option Errno) : (w.afterPoll failure).Waits := by
  cases failure with
  | none =>
    exact waits_of_output ⟨h.output.wait, h.output.sent⟩ trivial nofun nofun
  | some e => exact waits_done h.output _

theorem Waits.answered (h : w.Waits) {a : Answer} (ha : w.answered a = some w') : w'.Waits := by
  unfold Worker.answered at ha
  split at ha
  · cases ha
    exact h.afterDrain _
  · cases ha
    exact h.afterStatus _
  · next hpc =>
    cases ha
    exact h.afterTake hpc _
  · next hpc =>
    split at ha
    · next hok =>
      cases ha
      exact h.afterWrite hpc hok
    · cases ha
  · next hpc =>
    split at ha
    · cases ha
      exact h.afterRead hpc _
    · cases ha
  · next hpc =>
    cases ha
    exact h.afterHandle hpc _
  · cases ha
    exact h.afterPoll _
  · cases ha

theorem Waits.retried (h : w.Waits) {a : Answer} (ha : w.answered a = some w') {call next : TlsCall}
    (ho : w.Owes call) (hnext : next ∈ w.tlsCalls a) : Retried call next := by
  unfold Worker.answered at ha
  split at ha
  · cases hnext
  · cases hnext
  · cases hnext
  · next hpc =>
    rw [List.mem_singleton.mp hnext]
    exact h.retried_write hpc ho _
  · next hpc =>
    rw [List.mem_singleton.mp hnext]
    exact h.retried_read hpc ho _
  · cases hnext
  · cases hnext
  · cases ha

theorem owes_written {result : WriteResult} :
    (w.afterWrite result).Owes (.write w.outgoing w.sent (w.outgoingLength - w.sent) result) := by
  refine ⟨fun buffer offset length e hcall he => ?_, nofun⟩
  cases hcall
  obtain ⟨wait, hretry⟩ : ∃ wait, tlsRetry e = .retry wait := by
    rcases he with rfl | rfl <;> exact ⟨_, rfl⟩
  have hnone := retry_ne_none hretry
  unfold Worker.afterWrite
  dsimp only
  rw [hretry]
  dsimp only
  have hkept := holds_beginRead { w with writeWait := wait }
  have houtput := hkept.output
  rw [Worker.output, Worker.output, Prod.mk.injEq, Prod.mk.injEq] at houtput
  obtain ⟨houtgoing, hlength, hsent⟩ := houtput
  rw [hkept.writeWait, houtgoing, hlength, hsent]
  exact ⟨hnone, rfl, rfl, rfl⟩

theorem owes_read {result : ReadResult} :
    (w.afterRead result).Owes (.read w.received (w.needed - w.received) result) := by
  refine ⟨nofun, fun offset length hcall => ?_⟩
  cases hcall
  exact ⟨rfl, rfl, rfl⟩

theorem owes_of_tlsCalls {a : Answer} (ha : w.answered a = some w') {call : TlsCall}
    (hcall : call ∈ w.tlsCalls a) : w'.Owes call := by
  unfold Worker.answered at ha
  split at ha
  · cases hcall
  · cases hcall
  · cases hcall
  · split at ha
    · cases ha
      rw [List.mem_singleton.mp hcall]
      exact owes_written
    · cases ha
  · split at ha
    · cases ha
      rw [List.mem_singleton.mp hcall]
      exact owes_read
    · cases ha
  · cases hcall
  · cases hcall
  · cases ha

theorem holds_done (w : Worker) (result : Except Errno Unit) :
    w.Holds { w with pc := .done result } := ⟨rfl, rfl, rfl, rfl, rfl⟩

theorem Waits.owes (h : w.Waits) {a : Answer} (ha : w.answered a = some w')
    (hquiet : w.tlsCalls a = []) {call : TlsCall} (ho : w.Owes call) : w'.Owes call := by
  unfold Worker.answered at ha
  split at ha
  · next failure hpc =>
    cases ha
    cases failure with
    | none => exact Holds.owes ⟨rfl, rfl, rfl, rfl, rfl⟩ ho
    | some e => exact (holds_done w _).owes ho
  · next result hpc =>
    cases ha
    cases result with
    | error e => exact (holds_done w _).owes ho
    | ok _ =>
      unfold Worker.afterStatus
      dsimp only
      split
      · exact Holds.owes ⟨rfl, rfl, rfl, rfl, rfl⟩ ho
      · exact (holds_beginIo w).owes ho
  · next available hpc =>
    cases ha
    cases available with
    | error e => exact (holds_done w _).owes ho
    | ok frame =>
      cases frame with
      | none => exact (holds_beginIo w).owes ho
      | some frame =>
        -- nothing was staged, so no write has to be retried
        have hempty : w.outgoingLength = 0 := by
          have hturn := h.pc
          rwa [PcOk, hpc] at hturn
        refine (holds_beginIo _).owes ⟨fun buffer offset length e hcall he => ?_, ho.2⟩
        exact absurd hempty (h.output.wait (ho.1 buffer offset length e hcall he).1).1
  · cases hquiet
  · cases hquiet
  · next frame keep hpc =>
    cases ha
    -- the read before a call of the handler succeeded
    have hread := (h.handle frame hpc).1
    cases keep with
    | false => exact (holds_done w _).owes ho
    | true =>
      refine (holds_endIo _).owes ⟨ho.1, fun offset length hcall => ?_⟩
      cases hread.symm.trans (ho.2 offset length hcall).1
  · next failure hpc =>
    cases ha
    cases failure with
    | none => exact Holds.owes ⟨rfl, rfl, rfl, rfl, rfl⟩ ho
    | some e => exact (holds_done w _).owes ho
  · cases ha

end Worker

namespace Traced

/-- The last TLS call is retried next, if it has to be, and every one before it has been. -/
structure Inv (s : Traced) : Prop where
  waits : s.worker.Waits
  last : ∀ call ∈ s.calls.getLast?, s.worker.Owes call
  calls : s.calls.IsChain Retried

theorem inv_init : Inv {} where
  waits := .mk ⟨fun h => absurd rfl h, fun h => absurd rfl h⟩ trivial nofun nofun
  last := nofun
  calls := .nil

theorem Inv.step {s : Traced} (h : s.Inv) {a : Answer} {w : Worker}
    (ha : s.worker.answered a = some w) : Inv ⟨w, s.calls ++ s.worker.tlsCalls a⟩ := by
  refine ⟨h.waits.answered ha, fun call hcall => ?_, h.calls.append ?_ ?_⟩
  · rw [List.getLast?_append] at hcall
    cases hlast : (s.worker.tlsCalls a).getLast? with
    | none =>
      rw [hlast, Option.none_or] at hcall
      exact h.waits.owes ha (List.getLast?_eq_none_iff.mp hlast) (h.last call hcall)
    | some call' =>
      rw [hlast, Option.some_or] at hcall
      cases hcall
      exact Worker.owes_of_tlsCalls ha (List.mem_of_getLast? hlast)
  · unfold Worker.tlsCalls
    split
    · exact .singleton _
    · exact .singleton _
    · exact .nil
  · intro call hcall next hnext
    exact h.waits.retried ha (h.last call hcall) (List.mem_of_mem_head? hnext)

theorem inv_of_reach {ok : Traced → Answer → Prop} {s : Traced} (hs : tracedWorker.Reach ok s) :
    s.Inv := by
  refine hs.invariant (P := Inv) inv_init fun s a s' _ _ hinv hstep => ?_
  obtain ⟨w, hw, rfl⟩ := Option.map_eq_some_iff.mp hstep
  exact hinv.step hw

end Traced

/-- Whatever the calls of the loop return: a TLS call that has to be retried is followed by the
same call, the two halves never block each other, a write has something to write, and `poll`
waits for an event of the socket. -/
theorem tls_calls_are_retried {s : Traced} (hs : tracedWorker.Reachable s) :
    s.calls.IsChain Retried ∧
    ¬(s.worker.writeWait ≠ .none ∧ s.worker.readWait = .pollout) ∧
    (s.worker.pc = .write → s.worker.sent < s.worker.outgoingLength) ∧
    (s.worker.pc = .poll → s.worker.pollEvents ≠ .none) := by
  have h := Traced.inv_of_reach hs
  refine ⟨h.calls, fun hboth => ?_, fun hpc => ?_, h.waits.poll⟩
  · exact (h.waits.output.wait hboth.1).2 hboth.2
  · have hturn := h.waits.pc
    rw [Worker.PcOk, hpc] at hturn
    exact h.waits.output.sent hturn.1

def retriedWrite : List Answer :=
  [.drained none, .status (.ok ()), .taken (.ok (some ⟨.text, [104]⟩)),
    .written (.failed .wantRead),
    .polled none, .drained none, .status (.ok ()), .written (.written 6)]

theorem tls_calls_are_retried_write : ∃ s, tracedWorker.run tracedWorker.init retriedWrite =
    some s ∧
    s.calls.length = 2 ∧ s.calls.IsChain Retried ∧
    ¬(s.worker.writeWait ≠ .none ∧ s.worker.readWait = .pollout) ∧
    (s.worker.pc = .write → s.worker.sent < s.worker.outgoingLength) ∧
    (s.worker.pc = .poll → s.worker.pollEvents ≠ .none) := by
  have hrun : (tracedWorker.run tracedWorker.init retriedWrite).map (·.calls.length) = some 2 := by
    decide
  obtain ⟨s, hs, hlength⟩ := Option.map_eq_some_iff.mp hrun
  exact ⟨s, hs, hlength, tls_calls_are_retried (.run .init hs)⟩

theorem worker_workerStep {x x' : Shared} {u : Session} {w : Worker} {env : Env} {t' : Thread}
    {evs : List Event} (h : workerStep x u w env = some (x', t', evs)) {w' : Worker}
    (hw' : t'.worker = some w') : w' = w ∨ ∃ a, w.answered a = some w' := by
  unfold Worker.answered
  unfold workerStep at h
  split at h
  · next hpc =>
    cases h
    rw [hpc]
    exact .inr ⟨.drained env.failure, hw'⟩
  · next hpc =>
    cases h
    rw [hpc]
    exact .inr ⟨.status (x.clients.clientOutputStatus u.id), hw'⟩
  · next hpc =>
    cases h
    rw [hpc]
    exact .inr ⟨.taken (x.clients.takeOutgoingFrame u.id).1, hw'⟩
  · next hpc =>
    split at h
    · next hok =>
      cases h
      rw [hpc]
      exact .inr ⟨.written env.write, (if_pos hok).trans hw'⟩
    · cases h
  · next hpc =>
    split at h
    · next hok =>
      cases h
      rw [hpc]
      exact .inr ⟨.read env.read, (if_pos hok).trans hw'⟩
    · cases h
  · cases h
    exact .inl (Option.some.inj hw').symm
  · next hpc =>
    cases h
    rw [hpc]
    exact .inr ⟨.polled env.failure, hw'⟩
  · cases h
    cases hw'

theorem worker_threadStep {x x' : Shared} {n : ℕ} {env : Env} {t t' : Thread} {evs : List Event}
    (h : threadStep x n env t = some (x', t', evs))
    (hframe : ∀ u w p, t = .handling u w p → ∃ frame, w.pc = .handle frame) {w' : Worker}
    (hw' : t'.worker = some w') :
    w' = {} ∨ ∃ w, t.worker = some w ∧ (w' = w ∨ ∃ a, w.answered a = some w') := by
  unfold threadStep at h
  split at h
  · split at h
    · cases h
      cases hw'
    · split at h
      · cases h
        cases hw'
      · cases h
        cases hw'
  · cases h
    cases hw'
  · cases h
    split at hw' <;> cases hw'
  · split at h
    · cases h
      cases hw'
    · cases h
      cases hw'
  · split at h
    · cases h
      split at hw'
      · cases hw'
        exact .inl rfl
      · cases hw'
    · cases h
      cases hw'
  -- the loop of the worker
  · exact .inr ⟨_, rfl, worker_workerStep h hw'⟩
  · next u w keep =>
    cases h
    obtain ⟨frame, hpc⟩ := hframe u w _ rfl
    refine .inr ⟨w, rfl, .inr ⟨.handled keep, ?_⟩⟩
    unfold Worker.answered
    rw [hpc]
    exact hw'
  · next u w o k =>
    cases h
    cases hw'
    exact .inr ⟨w', rfl, .inl rfl⟩
  · dsimp only at h
    split at h
    · cases h
      cases hw'
    · cases h
      cases hw'
  · cases h
    cases hw'
  · cases h
    cases hw'
  · cases h
  · cases h

/-- The worker of every connection runs as the loop alone does, whatever the rest of the server
does. -/
theorem Server.worker_reachable {ok : Server → Label → Prop} {s : Server}
    (hs : server.Reach ok s) : ∀ n w, (s.threads n).worker = some w →
      ∃ calls, tracedWorker.Reachable ⟨w, calls⟩ := by
  refine hs.invariant (P := fun s => ∀ n w, (s.threads n).worker = some w →
    ∃ calls, tracedWorker.Reachable ⟨w, calls⟩) (fun n w hw => by cases hw) ?_
  rintro s ⟨n, env⟩ s' hr - hold hstep k w' hw'
  obtain ⟨x', t', evs, ht, rfl⟩ := Server.step_eq_some hstep
  dsimp only at hw' ht
  by_cases hk : k = n
  · subst hk
    rw [Function.update_self] at hw'
    have hframe : ∀ u w p, s.threads k = .handling u w p → ∃ frame, w.pc = .handle frame := by
      intro u w p hn
      obtain ⟨frame, hpc, -⟩ := Server.handling_frame hr hn
      exact ⟨frame, hpc⟩
    rcases worker_threadStep ht hframe hw' with rfl | ⟨w, hw, rfl | ⟨a, ha⟩⟩
    · exact ⟨[], .init⟩
    · exact hold k w' hw
    · obtain ⟨calls, hcalls⟩ := hold k w hw
      have hstep : tracedWorker.step ⟨w, calls⟩ a = some ⟨w', calls ++ w.tlsCalls a⟩ := by
        change (w.answered a).map _ = _
        rw [ha, Option.map_some]
      exact ⟨_, hcalls.step trivial hstep⟩
  · rw [Function.update_of_ne hk] at hw'
    exact hold k w' hw'

end CipherChat
