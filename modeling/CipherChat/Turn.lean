import CipherChat.Server

/-!
# What a step can do

`Turn` says once what a step of a thread can do to the thread, the shared state and
the log.  Every invariant of the server is proved by its cases.
-/

namespace CipherChat

namespace Worker

/-- What the worker is sending. -/
def output (w : Worker) : Bytes × ℕ × ℕ := (w.outgoing, w.outgoingLength, w.sent)

@[simp] theorem beginRead_output (w : Worker) : w.beginRead.output = w.output := by
  unfold beginRead
  split <;> rfl

@[simp] theorem beginIo_output (w : Worker) : w.beginIo.output = w.output := by
  unfold beginIo
  dsimp only
  split
  · rfl
  · exact beginRead_output _

theorem afterDrain_output (w : Worker) (e : Option Errno) : (w.afterDrain e).output = w.output := by
  cases e <;> rfl

theorem afterStatus_output (w : Worker) (r : Except Errno Unit) :
    (w.afterStatus r).output = w.output := by
  cases r with
  | error e => rfl
  | ok _ =>
    rw [afterStatus]
    split
    · rfl
    · exact beginIo_output w

theorem complete_output (w : Worker) : w.complete.output = w.output := by
  unfold complete
  split
  · dsimp only
    split <;> rfl
  · dsimp only
    split <;> rfl

theorem afterRead_output (w : Worker) (r : ReadResult) : (w.afterRead r).output = w.output := by
  cases r with
  | data bytes =>
    rw [afterRead]
    dsimp only
    split
    · rw [complete_output]
      rfl
    · rfl
  | failed e =>
    rw [afterRead]
    split <;> rfl

theorem afterWrite_failed_output (w : Worker) (e : SslError) :
    (w.afterWrite (.failed e)).output = w.output := by
  rw [afterWrite]
  split
  · rw [beginRead_output]
    rfl
  · rfl
  · rfl

theorem afterHandle_output (w : Worker) (keep : Bool) : (w.afterHandle keep).output = w.output := by
  cases keep <;> rfl

theorem afterPoll_output (w : Worker) (e : Option Errno) : (w.afterPoll e).output = w.output := by
  cases e <;> rfl

def TakesFree (w : Worker) : Prop := w.pc = .take → w.outgoingLength = 0

theorem takesFree_of_ne {w : Worker} (h : w.pc ≠ .take) : w.TakesFree := fun hpc => absurd hpc h

theorem takesFree_endIo (w : Worker) : w.endIo.TakesFree := by
  refine takesFree_of_ne ?_
  rw [endIo]
  dsimp only
  split <;> simp

theorem takesFree_beginRead (w : Worker) : w.beginRead.TakesFree := by
  unfold beginRead
  split
  · exact takesFree_of_ne (by simp)
  · exact takesFree_endIo w

theorem takesFree_beginIo (w : Worker) : w.beginIo.TakesFree := by
  unfold beginIo
  dsimp only
  split
  · exact takesFree_of_ne (by simp)
  · exact takesFree_beginRead _

theorem takesFree_afterStatus (w : Worker) (r : Except Errno Unit) :
    (w.afterStatus r).TakesFree := by
  cases r with
  | error e => exact takesFree_of_ne (by simp [afterStatus])
  | ok _ =>
    rw [afterStatus]
    split
    · rename_i h
      exact fun _ => h
    · exact takesFree_beginIo w

theorem takesFree_afterWrite_failed (w : Worker) (e : SslError) :
    (w.afterWrite (.failed e)).TakesFree := by
  rw [afterWrite]
  split
  · exact takesFree_beginRead _
  · exact takesFree_of_ne (by simp)
  · exact takesFree_of_ne (by simp)

theorem takesFree_afterRead (w : Worker) (r : ReadResult) : (w.afterRead r).TakesFree := by
  have hcomplete : ∀ w : Worker, w.complete.TakesFree := by
    intro w
    unfold complete
    split
    · dsimp only
      split
      · exact takesFree_of_ne (by simp)
      · exact takesFree_endIo _
    · dsimp only
      split <;> exact takesFree_of_ne (by simp)
  cases r with
  | data bytes =>
    rw [afterRead]
    dsimp only
    split
    · exact hcomplete _
    · exact takesFree_endIo _
  | failed e =>
    rw [afterRead]
    split
    · exact takesFree_endIo _
    · exact takesFree_of_ne (by simp)
    · exact takesFree_of_ne (by simp)

end Worker

/-- The operation that a thread performs next, when it is in a handler or an abort. -/
def Thread.nextOp : Thread → Option Op
  | .handling _ _ (.op o _) | .aborting _ (.op o _) => some o
  | _ => none

/-- A step that changes neither the shared state nor the log. -/
inductive Quiet : Thread → Thread → Prop
  | welcomed (u : Session) : Quiet (.welcoming u) (.activating u)
  | unwelcome (u : Session) : Quiet (.welcoming u) (.leaving u false)
  | start (u : Session) : Quiet (.starting u) (.working u {})
  | unstarted (u : Session) : Quiet (.starting u) (.leaving u true)
  | work (u : Session) {w w' : Worker} (ho : w'.output = w.output) (ht : w'.TakesFree) :
      Quiet (.working u w) (.working u w')
  | done (u : Session) (w : Worker) : Quiet (.working u w) (.leaving u true)

/-- What a step of thread `n` can do: the thread and the shared state before, the
same afterwards, and what is logged. -/
inductive Turn (n : ℕ) (libc : Libc) (x : Shared) : Thread → Shared → Thread → List Event → Prop
  | refuse : Turn n libc x .connected x .closed []
  | login {i : Fin maxClients} {name : Bytes} {clients : ClientManager}
      (h : x.clients.addClient name libc.eventfd = (.ok i, clients)) :
      Turn n libc x .connected { x with clients } (.added i name)
        [.login n (clients.clients i).id name]
  | welcome (i : Fin maxClients) (name : Bytes) :
      Turn n libc x (.added i name) x (.welcoming ⟨i, x.clients.getClientId i, name⟩) []
  | quiet {t t' : Thread} (h : Quiet t t') : Turn n libc x t x t' []
  | activate {u : Session} {clients : ClientManager}
      (h : x.clients.activateClient u.index = (.ok (), clients)) :
      Turn n libc x (.activating u) { x with clients } (.starting u) []
  | inactive {u : Session} {clients : ClientManager} {e : Errno}
      (h : x.clients.activateClient u.index = (.error e, clients)) :
      Turn n libc x (.activating u) x (.leaving u false) []
  | drain (u : Session) {w w' : Worker} (ho : w'.output = w.output) (ht : w'.TakesFree) :
      Turn n libc x (.working u w) { x with clients := x.clients.drain u.index } (.working u w') []
  | take {u : Session} {w : Worker} (hpc : w.pc = .take) :
      Turn n libc x (.working u w)
        { x with clients := (x.clients.takeOutgoingFrame u.id).2 }
        (.working u (w.afterTake (x.clients.takeOutgoingFrame u.id).1)) []
  | write {u : Session} {w : Worker} {k : ℕ} (hk : w.WriteOk (.written k)) :
      Turn n libc x (.working u w) x (.working u (w.afterWrite (.written k)))
        [.wrote u.id (w.unsent.take k)]
  | handle {u : Session} {w : Worker} {frame : Bytes} (hpc : w.pc = .handle frame) :
      Turn n libc x (.working u w) x (.handling u w (handleClientFrame u.id u.username frame))
        [.received u.id frame]
  | op (u : Session) (w : Worker) (o : Op) (k : o.Resp → Handler Bool) :
      Turn n libc x (.handling u w (.op o k)) (perform libc x o).2
        (.handling u w (k (perform libc x o).1)) [.did u.id o (perform libc x o).1]
  | ret (u : Session) (w : Worker) (keep : Bool) :
      Turn n libc x (.handling u w (.ret keep)) x (.working u (w.afterHandle keep))
        [.returned u.id]
  | leave (u : Session) :
      Turn n libc x (.leaving u false) { x with clients := x.clients.removeClient u.index }
        .closed []
  | abort (u : Session) :
      Turn n libc x (.leaving u true) { x with clients := x.clients.removeClient u.index }
        (.aborting u (abortFileRoutesForClient u.id)) [.abort u.id]
  | abortOp (u : Session) (o : Op) (k : o.Resp → Handler Unit) :
      Turn n libc x (.aborting u (.op o k)) (perform libc x o).2
        (.aborting u (k (perform libc x o).1)) [.did u.id o (perform libc x o).1]
  | abortRet (u : Session) : Turn n libc x (.aborting u (.ret ())) x (.finished u) [.returned u.id]

theorem workerStep_turn {n : ℕ} {x x' : Shared} {u : Session} {w : Worker} {env : Env}
    {t' : Thread} {evs : List Event} (h : workerStep x u w env = some (x', t', evs)) :
    Turn n env.libc x (.working u w) x' t' evs := by
  unfold workerStep at h
  cases hpc : w.pc with
  | drain =>
    rw [hpc] at h
    cases h
    have ht : (w.afterDrain env.failure).TakesFree := by
      refine Worker.takesFree_of_ne ?_
      cases env.failure <;> simp [Worker.afterDrain]
    -- `drain` touches the counter only when it succeeds
    split
    · exact .drain u (w.afterDrain_output _) ht
    · exact .quiet (.work u (w.afterDrain_output _) ht)
  | status =>
    rw [hpc] at h
    cases h
    exact .quiet (.work u (w.afterStatus_output _) (w.takesFree_afterStatus _))
  | take =>
    rw [hpc] at h
    cases h
    exact .take hpc
  | write =>
    rw [hpc] at h
    dsimp only at h
    split at h
    · rename_i hok
      cases h
      cases hw : env.write with
      | written k =>
        rw [hw] at hok
        exact .write hok
      | failed e =>
        exact .quiet (.work u (w.afterWrite_failed_output e) (w.takesFree_afterWrite_failed e))
    · cases h
  | read =>
    rw [hpc] at h
    dsimp only at h
    split at h
    · cases h
      exact .quiet (.work u (w.afterRead_output _) (w.takesFree_afterRead _))
    · cases h
  | handle frame =>
    rw [hpc] at h
    cases h
    exact .handle hpc
  | poll =>
    rw [hpc] at h
    cases h
    refine .quiet (.work u (w.afterPoll_output _) (Worker.takesFree_of_ne ?_))
    cases env.failure <;> simp [Worker.afterPoll]
  | done r =>
    rw [hpc] at h
    cases h
    exact .quiet (.done u w)

theorem threadStep_turn {n : ℕ} {x x' : Shared} {env : Env} {t t' : Thread} {evs : List Event}
    (h : threadStep x n env t = some (x', t', evs)) : Turn n env.libc x t x' t' evs := by
  unfold threadStep at h
  split at h
  · split at h
    · cases h
      exact .refuse
    · split at h
      · cases h
        exact .refuse
      · rename_i hadd
        cases h
        exact .login hadd
  · cases h
    exact .welcome _ _
  · cases h
    split
    · exact .quiet (.welcomed _)
    · exact .quiet (.unwelcome _)
  · split at h
    · rename_i hact
      cases h
      exact .activate hact
    · rename_i hact
      cases h
      exact .inactive hact
  · split at h
    · cases h
      split
      · exact .quiet (.start _)
      · exact .quiet (.unstarted _)
    · cases h
      exact .quiet (.unstarted _)
  · exact workerStep_turn h
  · cases h
    exact .ret _ _ _
  · cases h
    exact .op _ _ _ _
  · dsimp only at h
    -- routes are aborted only for a client whose worker has run
    split at h
    · rename_i hw
      cases h
      rw [hw]
      exact .abort _
    · rename_i hw
      cases h
      rw [Bool.not_eq_true _ |>.mp hw]
      exact .leave _
  · cases h
    exact .abortRet _
  · cases h
    exact .abortOp _ _ _
  · cases h
  · cases h

theorem Server.step_turn {s s' : Server} {n : ℕ} {env : Env} (h : s.step (n, env) = some s') :
    ∃ x' t' evs, Turn n env.libc s.shared (s.threads n) x' t' evs ∧
      s' = { shared := x', threads := Function.update s.threads n t', log := s.log ++ evs } := by
  obtain ⟨x', t', evs, ht, rfl⟩ := Server.step_eq_some h
  exact ⟨x', t', evs, threadStep_turn ht, rfl⟩

end CipherChat
