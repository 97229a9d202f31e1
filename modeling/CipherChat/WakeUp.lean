import CipherChat.Sessions

/-!
# Waking a sleeping worker

A finer model of one worker and the threads that queue frames: under
`clients_mutex`, `queue_frame_to_client_id` finds the client, writes its eventfd and
then links the frame or marks the client failed, in three steps; `eventfd_read` takes
no lock and may fall between them.  The handler runs while the worker stands at
`handle`; what it queues is queued by an enqueuer.
-/

namespace CipherChat

/-- Where a call of `queue_frame_to_client_id` stands. -/
inductive Enqueuer
  | idle
  /-- The lock is held and the slot found. -/
  | found (index : Fin maxClients) (frame : OutgoingFrame)
  /-- The eventfd is written, the frame not yet linked. -/
  | signalled (index : Fin maxClients) (frame : OutgoingFrame)

/-- A worker and any number of enqueuers over one registry. -/
structure Wake where
  clients : ClientManager
  worker : Worker
  enqueuers : ℕ → Enqueuer
  /-- The enqueuer that holds `clients_mutex`. -/
  holder : Option ℕ

inductive WakeLabel
  /-- Take the lock and look for the client. -/
  | find (k : ℕ) (clientId : ClientId) (frame : OutgoingFrame)
  /-- `eventfd_write`, and its failure other than `EAGAIN`, if any. -/
  | signal (k : ℕ) (notified : Option Errno)
  /-- Link the node at this address, or mark the client failed; release the lock. -/
  | link (k : ℕ) (address : ℕ)
  /-- One step of the worker; `keep` is the handler's answer. -/
  | worker (env : Env) (keep : Bool)

namespace Wake

def release (s : Wake) (k : ℕ) (clients : ClientManager) : Wake :=
  { s with clients, enqueuers := Function.update s.enqueuers k .idle, holder := none }

def workerStep (u : Session) (s : Wake) (env : Env) (keep : Bool) : Option Wake :=
  let w := s.worker
  match w.pc with
  | .drain =>
    let clients := if env.failure = none then s.clients.drain u.index else s.clients
    some { s with clients, worker := w.afterDrain env.failure }
  | .status =>
    if s.holder = none then
      some { s with worker := w.afterStatus (s.clients.clientOutputStatus u.id) }
    else none
  | .take =>
    if s.holder = none then
      let (available, clients) := s.clients.takeOutgoingFrame u.id
      some { s with clients, worker := w.afterTake available }
    else none
  | .write => if w.WriteOk env.write then some { s with worker := w.afterWrite env.write } else none
  | .read => if w.ReadOk env.read then some { s with worker := w.afterRead env.read } else none
  | .handle _ => some { s with worker := w.afterHandle keep }
  | .poll => some { s with worker := w.afterPoll env.failure }
  | .done _ => none

def step (u : Session) (s : Wake) : WakeLabel → Option Wake
  | .find k clientId frame =>
    match s.holder, s.enqueuers k with
    | none, .idle =>
      match s.clients.findReady clientId with
      | none => some s
      | some i =>
        some { s with
          enqueuers := Function.update s.enqueuers k (.found i frame), holder := some k }
    | _, _ => none
  | .signal k notified =>
    match s.enqueuers k with
    | .found i frame =>
      match notified with
      | some _ => some (s.release k s.clients)
      | none =>
        some { s with
          clients := s.clients.signal i
          enqueuers := Function.update s.enqueuers k (.signalled i frame) }
    | _ => none
  | .link k address =>
    match s.enqueuers k with
    | .signalled i frame =>
      if s.clients.heap address = none then some (s.release k (s.clients.link i address frame).2)
      else none
    | _ => none
  | .worker env keep => s.workerStep u env keep

/-- The worker of session `u` enters its loop in registry `m`. -/
def system (u : Session) (m : ClientManager) : Transition.System Wake WakeLabel where
  init := { clients := m, worker := {}, enqueuers := fun _ => .idle, holder := none }
  step := Wake.step u

theorem system_step (u : Session) (m : ClientManager) : (system u m).step = Wake.step u := rfl

def Awake (m : ClientManager) (i : Fin maxClients) : Prop :=
  ∃ n, (m.clients i).wakeFd = some n ∧ 0 < n

def HasFrames (m : ClientManager) (i : Fin maxClients) : Prop :=
  (m.clients i).outgoing.head ≠ none

end Wake

namespace Worker

def watching (w : Worker) : Bool :=
  match w.pc with
  | .drain | .status | .done _ => false
  | _ => true

def Awaits (w : Worker) : Prop :=
  w.outgoingLength = 0 ∧
    match w.pc with
    | .write | .read | .handle _ => w.progress = false
    | .poll => True
    | _ => False

theorem Awaits.watching {w : Worker} (h : w.Awaits) : w.watching = true := by
  obtain ⟨-, h⟩ := h
  unfold Worker.watching
  split at h
  · next hpc => rw [hpc]
  · next hpc => rw [hpc]
  · next hpc => rw [hpc]
  · next hpc => rw [hpc]
  · cases h

theorem awaits_endIo {w : Worker} (h : w.endIo.Awaits) :
    w.outgoingLength = 0 ∧ w.progress = false := by
  refine ⟨h.1, ?_⟩
  by_contra hp
  rw [Bool.not_eq_false] at hp
  have hpc : w.endIo.pc = .drain := by simp [endIo, hp]
  have := h.2
  rw [hpc] at this
  exact this

theorem awaits_beginRead {w : Worker} (h : w.beginRead.Awaits) :
    w.outgoingLength = 0 ∧ w.progress = false := by
  unfold beginRead at h
  split at h
  · exact ⟨h.1, h.2⟩
  · exact awaits_endIo h

theorem awaits_beginIo {w : Worker} (h : w.beginIo.Awaits) : w.outgoingLength = 0 := by
  have ho := congrArg (fun o => o.2.1) w.beginIo_output
  exact ho.symm.trans h.1

theorem awaits_afterWrite {w : Worker} {r : WriteResult} (h : (w.afterWrite r).Awaits) :
    w.outgoingLength = 0 ∧ w.progress = false := by
  cases r with
  | written k => cases (awaits_beginRead h).2
  | failed e =>
    rw [afterWrite] at h
    split at h
    · have hb := awaits_beginRead h
      exact hb
    · exact absurd h.2 id
    · exact absurd h.2 id

theorem not_awaits_complete {w : Worker} (hp : w.progress = true) : ¬w.complete.Awaits := by
  intro h
  unfold complete at h
  split at h
  · dsimp only at h
    split at h
    · exact h.2
    · have := (awaits_endIo h).2
      rw [show ({ w with needed := _ } : Worker).progress = w.progress from rfl, hp] at this
      cases this
  · dsimp only at h
    split at h
    · have : w.progress = false := h.2
      rw [hp] at this
      cases this
    · exact h.2

theorem awaits_afterRead {w : Worker} {r : ReadResult} (h : (w.afterRead r).Awaits) :
    w.outgoingLength = 0 ∧ w.progress = false := by
  cases r with
  | data bytes =>
    rw [afterRead] at h
    dsimp only at h
    split at h
    · exact absurd h (not_awaits_complete rfl)
    · cases (awaits_endIo h).2
  | failed e =>
    rw [afterRead] at h
    split at h
    · have he := awaits_endIo h
      exact he
    · exact absurd h.2 id
    · exact absurd h.2 id

theorem awaits_afterHandle {w : Worker} {keep : Bool} (h : (w.afterHandle keep).Awaits) :
    w.outgoingLength = 0 ∧ w.progress = false := by
  unfold afterHandle at h
  split at h
  · have he := awaits_endIo h
    exact he
  · exact absurd h.2 id

end Worker

namespace Wake

open ClientManager LinkedQueue

structure Armed (u : Session) (s : Wake) : Prop where
  clients : s.clients.Inv
  active : (s.clients.clients u.index).active = true
  client_id : (s.clients.clients u.index).id = u.id
  held : ∀ k, s.enqueuers k = .idle ∨ s.holder = some k
  found : ∀ k i frame, s.enqueuers k = .found i frame ∨ s.enqueuers k = .signalled i frame →
    (s.clients.clients i).active = true
  failed : s.worker.watching = true → (s.clients.clients u.index).outgoingFailed = true →
    Awake s.clients u.index
  signalled : s.worker.watching = true → ∀ k frame, s.enqueuers k = .signalled u.index frame →
    Awake s.clients u.index
  frames : s.worker.Awaits → HasFrames s.clients u.index → Awake s.clients u.index

variable {u : Session} {s s' : Wake}

theorem Armed.work (h : s.Armed u) {w : Worker}
    (hwatch : w.watching = true → s.worker.watching = true) (hawait : w.Awaits → s.worker.Awaits) :
    Armed u { s with worker := w } where
  clients := h.clients
  active := h.active
  client_id := h.client_id
  held := h.held
  found := h.found
  failed hw := h.failed (hwatch hw)
  signalled hw := h.signalled (hwatch hw)
  frames hw := h.frames (hawait hw)

theorem Armed.idle (h : s.Armed u) (hlock : s.holder = none) (k : ℕ) : s.enqueuers k = .idle := by
  rcases h.held k with hk | hk
  · exact hk
  · rw [hlock] at hk
    cases hk

@[simp] theorem awake_signal_self {m : ClientManager} {i : Fin maxClients}
    (h : (m.clients i).wakeFd.isSome = true) : Awake (m.signal i) i := by
  obtain ⟨n, hn⟩ := Option.isSome_iff_exists.mp h
  refine ⟨eventfdWrite n, by simp [ClientManager.signal, ClientManager.set, hn], ?_⟩
  simp [eventfdWrite, eventfdMax]

theorem clients_signal (m : ClientManager) (i j : Fin maxClients) :
    ((m.signal i).clients j).active = (m.clients j).active ∧
    ((m.signal i).clients j).id = (m.clients j).id ∧
    ((m.signal i).clients j).outgoingFailed = (m.clients j).outgoingFailed ∧
    ((m.signal i).clients j).outgoing = (m.clients j).outgoing := by
  by_cases hj : j = i
  · subst hj
    simp [ClientManager.signal, ClientManager.set]
  · simp [ClientManager.signal, ClientManager.set, hj]

theorem clients_drain (m : ClientManager) (i j : Fin maxClients) :
    ((m.drain i).clients j).active = (m.clients j).active ∧
    ((m.drain i).clients j).id = (m.clients j).id := by
  by_cases hj : j = i
  · subst hj
    simp [ClientManager.drain, ClientManager.set]
  · simp [ClientManager.drain, ClientManager.set, hj]

theorem Awake.signal {m : ClientManager} {i j : Fin maxClients} (h : Awake m j) :
    Awake (m.signal i) j := by
  by_cases hj : j = i
  · subst hj
    obtain ⟨n, hn, -⟩ := h
    exact awake_signal_self (by simp [hn])
  · obtain ⟨n, hn, hpos⟩ := h
    exact ⟨n, by simp [ClientManager.signal, ClientManager.set, hj, hn], hpos⟩

theorem clients_link (m : ClientManager) (i j : Fin maxClients) (a : ℕ) (frame : OutgoingFrame) :
    ((m.link i a frame).2.clients j).active = (m.clients j).active ∧
    ((m.link i a frame).2.clients j).id = (m.clients j).id ∧
    ((m.link i a frame).2.clients j).wakeFd = (m.clients j).wakeFd ∧
    (j ≠ i → (m.link i a frame).2.clients j = m.clients j) := by
  unfold link
  by_cases hj : j = i
  · subst hj
    dsimp only
    split <;> simp [ClientManager.set]
  · dsimp only
    split <;> simp [ClientManager.set, hj]

theorem Armed.find (h : s.Armed u) {k : ℕ} {c : ClientId} {frame : OutgoingFrame}
    (hs : s.step u (.find k c frame) = some s') : s'.Armed u := by
  unfold Wake.step at hs
  dsimp only at hs
  split at hs
  · next hlock hk =>
    split at hs
    · cases hs
      exact h
    · next i hi =>
      cases hs
      have henq : ∀ j, Function.update s.enqueuers k (.found i frame) j = .found i frame ∧ j = k ∨
          Function.update s.enqueuers k (.found i frame) j = .idle := by
        intro j
        by_cases hj : j = k
        · exact .inl ⟨by rw [hj, Function.update_self], hj⟩
        · exact .inr (by rw [Function.update_of_ne hj, h.idle hlock j])
      refine ⟨h.clients, h.active, h.client_id, ?_, ?_, h.failed, ?_, h.frames⟩
      · intro j
        rcases henq j with ⟨-, rfl⟩ | hj
        · exact .inr rfl
        · exact .inl hj
      · intro j i' f hj
        dsimp only at hj
        rcases henq j with ⟨he, -⟩ | he
        · rw [he] at hj
          rcases hj with hj | hj
          · cases hj
            exact (findReady_some hi).1
          · cases hj
        · rw [he] at hj
          rcases hj with hj | hj <;> cases hj
      · intro _ j f hj
        dsimp only at hj
        rcases henq j with ⟨he, -⟩ | he <;> rw [he] at hj <;> cases hj
  · cases hs

theorem Armed.others (h : s.Armed u) {k : ℕ} (hk : s.enqueuers k ≠ .idle) {j : ℕ} (hj : j ≠ k) :
    s.enqueuers j = .idle := by
  rcases h.held k with hkk | hkk
  · exact absurd hkk hk
  · rcases h.held j with hjj | hjj
    · exact hjj
    · rw [hkk] at hjj
      exact absurd (Option.some.inj hjj).symm hj

theorem Armed.release (h : s.Armed u) {k : ℕ} (hk : s.enqueuers k ≠ .idle) {m : ClientManager}
    (hm : m.Inv) (hactive : (m.clients u.index).active = true) (hid : (m.clients u.index).id = u.id)
    (hfailed : s.worker.watching = true → (m.clients u.index).outgoingFailed = true →
      Awake m u.index)
    (hframes : s.worker.Awaits → HasFrames m u.index → Awake m u.index) :
    (s.release k m).Armed u := by
  have hidle : ∀ j, (s.release k m).enqueuers j = .idle := by
    intro j
    by_cases hj : j = k
    · subst hj
      exact Function.update_self _ _ _
    · exact (Function.update_of_ne hj _ _).trans (h.others hk hj)
  refine ⟨hm, hactive, hid, fun j => .inl (hidle j), ?_, hfailed, ?_, hframes⟩
  · intro j i frame hj
    rw [hidle j] at hj
    rcases hj with hj | hj <;> cases hj
  · intro _ j frame hj
    rw [hidle j] at hj
    cases hj

theorem Armed.signal (h : s.Armed u) {k : ℕ} {notified : Option Errno}
    (hs : s.step u (.signal k notified) = some s') : s'.Armed u := by
  unfold Wake.step at hs
  dsimp only at hs
  split at hs
  · next i frame hk =>
    have hne : s.enqueuers k ≠ .idle := by rw [hk]; exact fun hc => by cases hc
    cases notified with
    | some e =>
      cases hs
      exact h.release hne h.clients h.active h.client_id h.failed h.frames
    | none =>
      cases hs
      -- the client whose counter is raised was found under the lock
      have hact := h.found k i frame (.inl hk)
      have hfields := clients_signal s.clients i
      have henq : ∀ j, j ≠ k → Function.update s.enqueuers k (.signalled i frame) j = .idle :=
        fun j hj => (Function.update_of_ne hj _ _).trans (h.others hne hj)
      refine ⟨(h.clients.signal hact).1, ?_, ?_, ?_, ?_, ?_, ?_, ?_⟩
      · exact (hfields _).1.trans h.active
      · exact (hfields _).2.1.trans h.client_id
      · intro j
        by_cases hj : j = k
        · subst hj
          exact (h.held j).imp (fun hc => absurd hc hne) id
        · exact .inl (henq j hj)
      · intro j i' f hj
        dsimp only at hj ⊢
        by_cases hjk : j = k
        · rw [hjk, Function.update_self] at hj
          rcases hj with hj | hj
          · cases hj
          · cases hj
            exact (hfields i).1.trans hact
        · rw [henq j hjk] at hj
          rcases hj with hj | hj <;> cases hj
      · intro hw hf
        rw [(hfields _).2.2.1] at hf
        exact (h.failed hw hf).signal
      -- the frame waiting to be linked is preceded by its wake-up
      · intro _ j f hj
        dsimp only at hj
        by_cases hjk : j = k
        · rw [hjk, Function.update_self] at hj
          cases hj
          exact awake_signal_self (h.clients.wake_open _ hact)
        · rw [henq j hjk] at hj
          cases hj
      · intro hw hf
        rw [HasFrames, (hfields _).2.2.2] at hf
        exact (h.frames hw hf).signal
  · cases hs

theorem Armed.link (h : s.Armed u) {k : ℕ} {a : ℕ} (hs : s.step u (.link k a) = some s') :
    s'.Armed u := by
  unfold Wake.step at hs
  dsimp only at hs
  split at hs
  · next i frame hk =>
    split at hs
    · next ha =>
      cases hs
      have hact := h.found k i frame (.inr hk)
      obtain ⟨r, m', hlink, hinv, -⟩ := h.clients.link (login_of_active hact) ha frame
      have hfields := clients_link s.clients i u.index a frame
      rw [hlink] at hfields ⊢
      obtain ⟨hactive, hid, hwake, hother⟩ := hfields
      -- the counter was written before, and only a worker that is not watching has read it since
      have hawake : ∀ hw : s.worker.watching = true, u.index = i → Awake m' u.index := by
        rintro hw rfl
        obtain ⟨n, hn, hpos⟩ := h.signalled hw k frame hk
        exact ⟨n, hwake.trans hn, hpos⟩
      have hkeep : Awake s.clients u.index → Awake m' u.index := by
        rintro ⟨n, hn, hpos⟩
        exact ⟨n, hwake.trans hn, hpos⟩
      refine h.release (by rw [hk]; exact fun hc => by cases hc) hinv (hactive.trans h.active)
        (hid.trans h.client_id) ?_ ?_
      · intro hw hf
        by_cases hi : u.index = i
        · exact hawake hw hi
        · rw [hother hi] at hf
          exact hkeep (h.failed hw hf)
      · intro hw hf
        by_cases hi : u.index = i
        · exact hawake hw.watching hi
        · rw [HasFrames, hother hi] at hf
          exact hkeep (h.frames hw hf)
    · cases hs
  · cases hs

theorem Armed.worker (h : s.Armed u) {env : Env} {keep : Bool}
    (hs : s.step u (.worker env keep) = some s') : s'.Armed u := by
  change s.workerStep u env keep = some s' at hs
  unfold workerStep at hs
  dsimp only at hs
  cases hpc : s.worker.pc with
  | drain =>
    rw [hpc] at hs
    dsimp only at hs
    cases hf : env.failure with
    | some e =>
      rw [hf, if_neg (by simp)] at hs
      cases hs
      exact h.work (fun hw => by cases hw) fun hw => absurd hw.2 not_false
    | none =>
      rw [hf, if_pos rfl] at hs
      cases hs
      have hd := (h.clients.drain h.active).1
      have hfields := clients_drain s.clients u.index
      refine ⟨hd, (hfields _).1.trans h.active, (hfields _).2.trans h.client_id, h.held, ?_, ?_, ?_,
        ?_⟩
      · exact fun k i frame hk => (hfields i).1.trans (h.found k i frame hk)
      · exact fun hw => by cases hw
      · exact fun hw => by cases hw
      · exact fun hw => absurd hw.2 not_false
  | status =>
    rw [hpc] at hs
    dsimp only at hs
    split at hs
    · next hlock =>
      obtain rfl := Option.some.inj hs
      obtain ⟨l, hl⟩ : ∃ l, s.clients.login u.index = some l := ⟨_, login_of_active h.active⟩
      obtain ⟨-, hid, -, -, hfailed, -⟩ := login_some hl
      have hstatus := h.clients.clientOutputStatus hl
      rw [← hid, h.client_id] at hstatus
      rw [hstatus]
      split
      · exact h.work (fun hw => by cases hw) fun hw => absurd hw.2 not_false
      · next hf =>
        refine ⟨h.clients, h.active, h.client_id, h.held, h.found, ?_, ?_, ?_⟩
        · exact fun _ hc => absurd (hfailed.symm.trans hc) hf
        · intro _ k frame hk
          dsimp only at hk
          rw [h.idle hlock k] at hk
          cases hk
        · -- with nothing staged the next call is the take
          intro hw
          simp only [Worker.afterStatus] at hw
          split at hw
          · exact absurd hw.2 not_false
          · next hl => exact absurd (Worker.awaits_beginIo hw) hl
    · cases hs
  | take =>
    rw [hpc] at hs
    dsimp only at hs
    split at hs
    · next hlock =>
      cases hs
      obtain ⟨l, hl⟩ : ∃ l, s.clients.login u.index = some l := ⟨_, login_of_active h.active⟩
      have hid : l.id = u.id := (login_some hl).2.1.symm.trans h.client_id
      obtain ⟨r, m', htake, hinv, -, hcases⟩ := h.clients.takeOutgoingFrame hl
      rw [hid] at htake
      rw [htake]
      rcases hcases with ⟨⟨e, rfl⟩, rfl⟩ | ⟨hnf, hcases⟩
      · exact h.work (fun hw => by cases hw) fun hw => absurd hw.2 not_false
      · obtain ⟨l', hl', hid', hf', hframes'⟩ : ∃ l', m'.login u.index = some l' ∧ l'.id = u.id ∧
            l'.failed = false ∧ ((s.worker.afterTake r).Awaits → l'.pending = []) := by
          rcases hcases with ⟨rfl, hnil, hsame⟩ | ⟨f, rest, rfl, -, hu⟩
          · exact ⟨l, hsame ▸ hl, hid, hnf, fun _ => hnil⟩
          · refine ⟨{ l with pending := rest }, by rw [hu, Function.update_self], hid, hnf,
              fun hw => ?_⟩
            -- the frame is staged
            have := Worker.awaits_beginIo hw
            simp at this
        obtain ⟨hactive', hclient', -, -, hfailed', -, hpending'⟩ := login_some hl'
        refine ⟨hinv, hactive', hclient'.trans hid', h.held, ?_, ?_, ?_, ?_⟩
        · intro k i frame hk
          dsimp only at hk
          rw [h.idle hlock k] at hk
          rcases hk with hk | hk <;> cases hk
        · intro _ hc
          dsimp only at hc
          rw [hfailed', hf'] at hc
          cases hc
        · intro _ k frame hk
          dsimp only at hk
          rw [h.idle hlock k] at hk
          cases hk
        · intro hw hc
          exact absurd ((hinv.head_eq_none _).mpr (hpending'.trans (hframes' hw))) hc
    · cases hs
  | write =>
    rw [hpc] at hs
    dsimp only at hs
    split at hs
    · cases hs
      refine h.work (fun _ => by simp [Worker.watching, hpc]) fun hw => ?_
      obtain ⟨hl, hp⟩ := Worker.awaits_afterWrite hw
      exact ⟨hl, by rw [hpc]; exact hp⟩
    · cases hs
  | read =>
    rw [hpc] at hs
    dsimp only at hs
    split at hs
    · cases hs
      refine h.work (fun _ => by simp [Worker.watching, hpc]) fun hw => ?_
      obtain ⟨hl, hp⟩ := Worker.awaits_afterRead hw
      exact ⟨hl, by rw [hpc]; exact hp⟩
    · cases hs
  | handle frame =>
    rw [hpc] at hs
    cases hs
    refine h.work (fun _ => by simp [Worker.watching, hpc]) fun hw => ?_
    obtain ⟨hl, hp⟩ := Worker.awaits_afterHandle hw
    exact ⟨hl, by rw [hpc]; exact hp⟩
  | poll =>
    rw [hpc] at hs
    cases hs
    refine h.work (fun _ => by simp [Worker.watching, hpc]) fun hw => ?_
    cases hf : env.failure <;> rw [hf] at hw <;> exact absurd hw.2 not_false
  | done r =>
    rw [hpc] at hs
    cases hs

theorem armed_of_reachable {m : ClientManager} (hm : m.Inv)
    (hactive : (m.clients u.index).active = true) (hid : (m.clients u.index).id = u.id)
    (hs : (system u m).Reachable s) : s.Armed u := by
  refine hs.invariant ?_ ?_
  · refine ⟨hm, hactive, hid, fun _ => .inl rfl, ?_, ?_, ?_, ?_⟩
    · rintro k i frame (hk | hk) <;> cases hk
    · exact fun hw => by cases hw
    · exact fun hw => by cases hw
    · exact fun hw => absurd hw.2 not_false
  · rintro s l s' - - h hstep
    rw [system_step] at hstep
    cases l with
    | find k c frame => exact h.find hstep
    | signal k notified => exact h.signal hstep
    | link k a => exact h.link hstep
    | worker env keep => exact h.worker hstep

end Wake

/-- A worker that enters its loop in a running server never sleeps on a frame it has
not staged, or on a failure mark, with an empty counter; whoever holds the lock. -/
theorem no_lost_wakeup {s₀ : Server} (hs₀ : server.Reachable s₀) {n : ℕ} {u : Session}
    (hn : s₀.threads n = .starting u) {s : Wake}
    (hs : (Wake.system u s₀.shared.clients).Reachable s) (hpoll : s.worker.pc = .poll) :
    (s.worker.outgoingLength = 0 → Wake.HasFrames s.clients u.index →
      Wake.Awake s.clients u.index) ∧
    ((s.clients.clients u.index).outgoingFailed = true → Wake.Awake s.clients u.index) := by
  have hwf := Server.wf_of_reach hs₀
  obtain ⟨l, hl, -, hid, -⟩ := hwf.owns n u.index (by rw [hn]; rfl)
  obtain ⟨hactive, hclient, -⟩ := ClientManager.login_some hl
  have h := Wake.armed_of_reachable hwf.clients hactive
    (hclient.trans (hid u (by rw [hn]; rfl)).symm) hs
  refine ⟨fun hl hf => h.frames ⟨hl, ?_⟩ hf, fun hf => h.failed ?_ hf⟩
  · rw [hpoll]
    trivial
  · simp [Worker.watching, hpoll]

/-- A worker that goes to sleep with an empty queue, and then gets a frame. -/
theorem no_lost_wakeup_queued : ∃ (s₀ : Server) (u : Session) (s : Wake), server.Reachable s₀ ∧
    (Wake.system u s₀.shared.clients).Reachable s ∧ s.worker.pc = .poll ∧
    Wake.HasFrames s.clients u.index ∧ Wake.Awake s.clients u.index := by
  have hrun : (server.run server.init
      [(0, { username := ascii "bob" }), (0, {}), (0, {}), (0, {})]).any (fun s₀ =>
        match s₀.threads 0 with
        | .starting u =>
          ((Wake.system u s₀.shared.clients).run (Wake.system u s₀.shared.clients).init
            [.worker {} true, .worker {} true, .worker {} true, .worker {} true,
              .find 0 1 ⟨.text, [65]⟩, .signal 0 none, .link 0 7]).any fun s =>
            s.worker.pc == .poll && s.worker.outgoingLength == 0 &&
              (s.clients.clients u.index).outgoing.head.isSome
        | _ => false) = true := by
    decide +kernel
  obtain ⟨s₀, hs₀, hrest⟩ := (Option.any_eq_true _ _).mp hrun
  split at hrest
  · next u hn =>
    obtain ⟨s, hs, hp⟩ := (Option.any_eq_true _ _).mp hrest
    simp only [Bool.and_eq_true, beq_iff_eq] at hp
    have hreach₀ := Transition.System.Reachable.run .init hs₀
    have hreach := Transition.System.Reachable.run .init hs
    have hframes : Wake.HasFrames s.clients u.index := Option.isSome_iff_ne_none.mp hp.2
    exact ⟨s₀, u, s, hreach₀, hreach, hp.1.1, hframes,
      (no_lost_wakeup hreach₀ hn hreach hp.1.1).1 hp.1.2 hframes⟩
  · cases hrest

end CipherChat
