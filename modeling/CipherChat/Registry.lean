import CipherChat.ClientManager

/-!
# The registry invariant, and the registry as logins

`Inv` is what every critical section of `clients_mutex` keeps.  Under it a slot is
a login or nothing (`login`): the list nodes, the counters and the stale fields are
gone, and each operation is the replacement of one login.
-/

namespace CipherChat

open LinkedQueue

/-- What a slot in use means to the rest of the server. -/
structure Login where
  id : ClientId
  username : Bytes
  ready : Bool
  failed : Bool
  key : Option Bytes
  pending : List OutgoingFrame

/-- A login that `add_client` has just made. -/
def Login.fresh (id : ClientId) (username : Bytes) : Login where
  id := id
  username := username
  ready := false
  failed := false
  key := none
  pending := []

def Client.login (c : Client) (pending : List OutgoingFrame) : Option Login :=
  if c.active then
    some { id := c.id, username := c.username, ready := c.ready, failed := c.outgoingFailed,
           key := if c.hasPublicKey then some c.publicKey else none, pending }
  else none

namespace ClientManager

variable {m : ClientManager}

/-- The queued frames of a slot, in queue order. -/
def pending (m : ClientManager) (i : Fin maxClients) : List OutgoingFrame :=
  toList m.heap (m.clients i).outgoing.count (m.clients i).outgoing.head

def login (m : ClientManager) (i : Fin maxClients) : Option Login :=
  (m.clients i).login (m.pending i)

structure Inv (m : ClientManager) : Prop where
  queues : ∃ cells, Family m.heap (fun i => (m.clients i).outgoing) cells ∧
    ∀ i, (cells i).length ≤ maxOutgoingFrames
  username_unique : ∀ i j, (m.clients i).active = true → (m.clients j).active = true →
    (m.clients i).username = (m.clients j).username → i = j
  username_valid : ∀ i, (m.clients i).active = true → usernameIsValid (m.clients i).username = true
  id_unique : ∀ i j, (m.clients i).active = true → (m.clients j).active = true →
    (m.clients i).id = (m.clients j).id → i = j
  id_ne : ∀ i, (m.clients i).active = true → (m.clients i).id ≠ invalidClientId
  id_lt : ∀ i, (m.clients i).active = true → (m.clients i).id < m.nextClientId
  wake_open : ∀ i, (m.clients i).active = true → (m.clients i).wakeFd.isSome = true
  failed_not_ready : ∀ i, (m.clients i).outgoingFailed = true → (m.clients i).ready = false
  inactive_eq : ∀ i, (m.clients i).active = false → m.clients i = {}
  next_pos : 0 < m.nextClientId

theorem inv_init : Inv init where
  queues := ⟨fun _ => [], Family.empty _, fun _ => Nat.zero_le _⟩
  username_unique i j h := by cases h
  username_valid i h := by cases h
  id_unique i j h := by cases h
  id_ne i h := by cases h
  id_lt i h := by cases h
  wake_open i h := by cases h
  failed_not_ready i h := by cases h
  inactive_eq i _ := rfl
  next_pos := Nat.one_pos

theorem login_of_active {i : Fin maxClients} (h : (m.clients i).active = true) :
    m.login i = some { id := (m.clients i).id, username := (m.clients i).username,
                       ready := (m.clients i).ready, failed := (m.clients i).outgoingFailed,
                       key := if (m.clients i).hasPublicKey then some (m.clients i).publicKey
                         else none,
                       pending := m.pending i } := by
  rw [login, Client.login, if_pos h]

theorem login_of_inactive {i : Fin maxClients} (h : (m.clients i).active = false) :
    m.login i = none := by
  rw [login, Client.login, h]
  rfl

theorem login_some {i : Fin maxClients} {l : Login} (h : m.login i = some l) :
    (m.clients i).active = true ∧ (m.clients i).id = l.id ∧ (m.clients i).username = l.username ∧
      (m.clients i).ready = l.ready ∧ (m.clients i).outgoingFailed = l.failed ∧
      (if (m.clients i).hasPublicKey then some (m.clients i).publicKey else none) = l.key ∧
      m.pending i = l.pending := by
  cases ha : (m.clients i).active with
  | false =>
    rw [login_of_inactive ha] at h
    cases h
  | true =>
    rw [login_of_active ha] at h
    obtain rfl := Option.some.inj h
    exact ⟨rfl, rfl, rfl, rfl, rfl, rfl, rfl⟩

theorem Inv.login_inj (h : Inv m) {i j : Fin maxClients} {l l' : Login} (hi : m.login i = some l)
    (hj : m.login j = some l') (hid : l.id = l'.id) : i = j := by
  obtain ⟨hai, hidi, -⟩ := login_some hi
  obtain ⟨haj, hidj, -⟩ := login_some hj
  exact h.id_unique i j hai haj (by rw [hidi, hidj, hid])

theorem Inv.login_id_lt (h : Inv m) {i : Fin maxClients} {l : Login} (hi : m.login i = some l) :
    l.id ≠ invalidClientId ∧ l.id < m.nextClientId := by
  obtain ⟨ha, hid, -⟩ := login_some hi
  rw [← hid]
  exact ⟨h.id_ne i ha, h.id_lt i ha⟩

theorem findReady_some {r : ClientId} {i : Fin maxClients} (h : m.findReady r = some i) :
    (m.clients i).active = true ∧ (m.clients i).ready = true ∧ (m.clients i).id = r := by
  have := Fin.eq_true_of_find?_eq_some h
  simp only [Bool.and_eq_true, beq_iff_eq] at this
  exact ⟨this.1.1, this.1.2, this.2⟩

theorem findReady_none {r : ClientId} (h : m.findReady r = none) {i : Fin maxClients} {l : Login}
    (hl : m.login i = some l) (hr : l.ready = true) : l.id ≠ r := by
  have := Fin.eq_false_of_find?_eq_none h i
  obtain ⟨h1, h2, -, h4, -⟩ := login_some hl
  rintro rfl
  simp [h1, h2, h4, hr] at this

theorem findActive_some {r : ClientId} {i : Fin maxClients} (h : m.findActive r = some i) :
    (m.clients i).active = true ∧ (m.clients i).id = r := by
  have := Fin.eq_true_of_find?_eq_some h
  simpa only [Bool.and_eq_true, beq_iff_eq] using this

theorem Inv.findActive_eq (h : Inv m) {i : Fin maxClients} (hi : (m.clients i).active = true) :
    m.findActive (m.clients i).id = some i := by
  cases hf : m.findActive (m.clients i).id with
  | none =>
    have := Fin.eq_false_of_find?_eq_none hf i
    simp [hi] at this
  | some j =>
    obtain ⟨hj, hid⟩ := findActive_some hf
    rw [h.id_unique j i hj hi hid]

/-- Whether the client accepts frames: active and ready. -/
def IsReady (m : ClientManager) (r : ClientId) : Prop :=
  ∃ i l, m.login i = some l ∧ l.ready = true ∧ l.id = r

theorem findClientId_cases (m : ClientManager) (name : Bytes) :
    m.findClientId name = invalidClientId ∨
      ∃ i l, m.login i = some l ∧ l.ready = true ∧ l.username = name ∧
        l.id = m.findClientId name := by
  unfold findClientId
  split
  · rename_i i hi
    have := Fin.eq_true_of_find?_eq_some hi
    simp only [Bool.and_eq_true, beq_iff_eq] at this
    exact .inr ⟨i, _, login_of_active this.1.1, this.1.2, this.2, rfl⟩
  · exact .inl rfl

theorem getClientPublicKey_some {r : ClientId} {key : Bytes}
    (h : m.getClientPublicKey r = some key) :
    ∃ i l, m.login i = some l ∧ l.id = r ∧ l.key = some key := by
  unfold getClientPublicKey at h
  split at h
  · rename_i i hi
    have := Fin.eq_true_of_find?_eq_some hi
    simp only [Bool.and_eq_true, beq_iff_eq] at this
    refine ⟨i, _, login_of_active this.1.1.1, this.1.2, ?_⟩
    dsimp only
    rw [if_pos this.2, Option.some.inj h]
  · cases h

/-- What the new contents of slot `i` must satisfy. -/
structure SlotOk (m : ClientManager) (next : ClientId) (i : Fin maxClients) (c : Client) :
    Prop where
  username_ne : c.active = true → ∀ j, j ≠ i → (m.clients j).active = true →
    (m.clients j).username ≠ c.username
  username_valid : c.active = true → usernameIsValid c.username = true
  id_unique : c.active = true → ∀ j, j ≠ i → (m.clients j).active = true → (m.clients j).id ≠ c.id
  id_ne : c.active = true → c.id ≠ invalidClientId
  id_lt : c.active = true → c.id < next
  wake_open : c.active = true → c.wakeFd.isSome = true
  failed_not_ready : c.outgoingFailed = true → c.ready = false
  inactive_eq : c.active = false → c = {}

/-- The queues of the registry hold these cells, none too many. -/
def Queues (m : ClientManager) (cells : Fin maxClients → List (ℕ × OutgoingFrame)) : Prop :=
  Family m.heap (fun i => (m.clients i).outgoing) cells ∧
    ∀ i, (cells i).length ≤ maxOutgoingFrames

theorem Queues.pending {cells : Fin maxClients → List (ℕ × OutgoingFrame)} (h : m.Queues cells)
    (i : Fin maxClients) : m.pending i = (cells i).map Prod.snd := (h.1.stores i).toList

theorem outgoing_update {i : Fin maxClients} {c : Client} {m' : ClientManager}
    (hclients : m'.clients = Function.update m.clients i c) :
    (fun j => (m'.clients j).outgoing) =
      Function.update (fun j => (m.clients j).outgoing) i c.outgoing := by
  funext j
  by_cases hj : j = i
  · subst hj
    simp [hclients]
  · simp [hclients, hj]

theorem Inv.update (h : Inv m) {n : ClientManager} {i : Fin maxClients} {c : Client}
    {cells : Fin maxClients → List (ℕ × OutgoingFrame)} {d : List (ℕ × OutgoingFrame)}
    (hcells : m.Queues cells) (hclients : n.clients = Function.update m.clients i c)
    (hnext : m.nextClientId ≤ n.nextClientId) (hok : SlotOk m n.nextClientId i c)
    (hfamily : Family n.heap (Function.update (fun j => (m.clients j).outgoing) i c.outgoing)
      (Function.update cells i d)) (hlen : d.length ≤ maxOutgoingFrames) :
    Inv n ∧ n.login = Function.update m.login i (c.login (d.map Prod.snd)) := by
  have hi : n.clients i = c := by simp [hclients]
  have hj : ∀ j, j ≠ i → n.clients j = m.clients j := fun j hj => by simp [hclients, hj]
  have hcells' : n.Queues (Function.update cells i d) := by
    refine ⟨by rwa [outgoing_update hclients], fun j => ?_⟩
    by_cases hji : j = i
    · subst hji
      simpa using hlen
    · simpa [hji] using hcells.2 j
  constructor
  · refine ⟨⟨_, hcells'⟩, ?_, ?_, ?_, ?_, ?_, ?_, ?_, ?_, lt_of_lt_of_le h.next_pos hnext⟩
    -- a pair of active slots of which one may be the updated one
    · intro a b ha hb hab
      by_cases hai : a = i <;> by_cases hbi : b = i
      · rw [hai, hbi]
      · subst hai
        rw [hi] at ha hab
        rw [hj b hbi] at hb hab
        exact absurd hab.symm (hok.username_ne ha b hbi hb)
      · subst hbi
        rw [hi] at hb hab
        rw [hj a hai] at ha hab
        exact absurd hab (hok.username_ne hb a hai ha)
      · rw [hj a hai] at ha hab
        rw [hj b hbi] at hb hab
        exact h.username_unique a b ha hb hab
    · intro a ha
      by_cases hai : a = i
      · subst hai
        rw [hi] at ha ⊢
        exact hok.username_valid ha
      · rw [hj a hai] at ha ⊢
        exact h.username_valid a ha
    · intro a b ha hb hab
      by_cases hai : a = i <;> by_cases hbi : b = i
      · rw [hai, hbi]
      · subst hai
        rw [hi] at ha hab
        rw [hj b hbi] at hb hab
        exact absurd hab.symm (hok.id_unique ha b hbi hb)
      · subst hbi
        rw [hi] at hb hab
        rw [hj a hai] at ha hab
        exact absurd hab (hok.id_unique hb a hai ha)
      · rw [hj a hai] at ha hab
        rw [hj b hbi] at hb hab
        exact h.id_unique a b ha hb hab
    · intro a ha
      by_cases hai : a = i
      · subst hai
        rw [hi] at ha ⊢
        exact hok.id_ne ha
      · rw [hj a hai] at ha ⊢
        exact h.id_ne a ha
    · intro a ha
      by_cases hai : a = i
      · subst hai
        rw [hi] at ha ⊢
        exact hok.id_lt ha
      · rw [hj a hai] at ha ⊢
        exact lt_of_lt_of_le (h.id_lt a ha) hnext
    · intro a ha
      by_cases hai : a = i
      · subst hai
        rw [hi] at ha ⊢
        exact hok.wake_open ha
      · rw [hj a hai] at ha ⊢
        exact h.wake_open a ha
    · intro a ha
      by_cases hai : a = i
      · subst hai
        rw [hi] at ha ⊢
        exact hok.failed_not_ready ha
      · rw [hj a hai] at ha ⊢
        exact h.failed_not_ready a ha
    · intro a ha
      by_cases hai : a = i
      · subst hai
        rw [hi] at ha ⊢
        exact hok.inactive_eq ha
      · rw [hj a hai] at ha ⊢
        exact h.inactive_eq a ha
  -- the logins follow the queues
  · funext j
    rw [login, hcells'.pending j]
    by_cases hji : j = i
    · subst hji
      rw [hi, Function.update_self, Function.update_self]
    · rw [hj j hji, Function.update_of_ne hji, Function.update_of_ne hji, login, hcells.pending j]

theorem Inv.slotOk (h : Inv m) {i : Fin maxClients} {c : Client}
    (hold : (m.clients i).active = true)
    (hact : c.active = true) (hid : c.id = (m.clients i).id)
    (hname : c.username = (m.clients i).username) (hwake : c.wakeFd.isSome = true)
    (hfailed : c.outgoingFailed = true → c.ready = false) : SlotOk m m.nextClientId i c where
  username_ne _ j hj hja hn := hj (h.username_unique j i hja hold (hn.trans hname))
  username_valid _ := hname ▸ h.username_valid i hold
  id_unique _ j hj hja hn := hj (h.id_unique j i hja hold (hn.trans hid))
  id_ne _ := hid ▸ h.id_ne i hold
  id_lt _ := hid ▸ h.id_lt i hold
  wake_open _ := hwake
  failed_not_ready := hfailed
  inactive_eq hc := by
    rw [hact] at hc
    cases hc

theorem Inv.modify (h : Inv m) {n : ClientManager} {i : Fin maxClients} {c : Client}
    (hclients : n.clients = Function.update m.clients i c)
    (hnext : n.nextClientId = m.nextClientId) (hheap : n.heap = m.heap)
    (hqueue : c.outgoing = (m.clients i).outgoing) (hok : SlotOk m m.nextClientId i c) :
    Inv n ∧ n.login = Function.update m.login i (c.login (m.pending i)) := by
  obtain ⟨cells, hcells⟩ := h.queues
  rw [Queues.pending hcells]
  refine h.update hcells hclients (le_of_eq hnext.symm) (by rwa [hnext]) ?_ (hcells.2 i)
  have hq : c.outgoing = (fun j => (m.clients j).outgoing) i := hqueue
  rw [Function.update_eq_self, hheap, hq, Function.update_eq_self]
  exact hcells.1

theorem Inv.allocateClientId (h : Inv m) :
    m.allocateClientId = (m.nextClientId, m.nextClientId + 1) := by
  have hne : m.nextClientId ≠ invalidClientId := Nat.ne_of_gt h.next_pos
  rw [ClientManager.allocateClientId, if_neg hne]

/-- A successful `add_client` fills a free slot with a login under the next id. -/
theorem Inv.addClient (h : Inv m) {name : Bytes} {eventfd : Option Errno} {i : Fin maxClients}
    {m' : ClientManager} (he : m.addClient name eventfd = (.ok i, m')) :
    Inv m' ∧ m'.nextClientId = m.nextClientId + 1 ∧ m.login i = none ∧
      (m'.clients i).id = m.nextClientId ∧
      m'.login = Function.update m.login i (some (.fresh m.nextClientId name)) := by
  unfold ClientManager.addClient at he
  split at he
  · cases congrArg Prod.fst he
  rename_i hvalid
  split at he
  · cases congrArg Prod.fst he
  rename_i hdup
  split at he
  · cases congrArg Prod.fst he
  rename_i free hfree
  split at he
  · cases congrArg Prod.fst he
  rw [h.allocateClientId] at he
  obtain ⟨rfl, rfl⟩ : free = i ∧ _ = m' := by
    obtain ⟨h1, h2⟩ := Prod.mk.inj he
    exact ⟨Except.ok.inj h1, h2⟩
  have hinactive : (m.clients free).active = false := by
    simpa using Fin.eq_true_of_find?_eq_some hfree
  have hempty := h.inactive_eq free hinactive
  obtain ⟨cells, hcells⟩ := h.queues
  have hpending : (cells free).map Prod.snd = [] := by
    rw [← Queues.pending hcells, ClientManager.pending, hempty]
    rfl
  have hupdate := h.update (c := { m.clients free with
      wakeFd := some 0, outgoingFailed := false, active := true, ready := false,
      id := m.nextClientId, hasPublicKey := false, username := name })
    (n := { m.set free { m.clients free with
      wakeFd := some 0, outgoingFailed := false, active := true, ready := false,
      id := m.nextClientId, hasPublicKey := false, username := name } with
        nextClientId := m.nextClientId + 1 })
    (d := cells free) hcells rfl (Nat.le_succ _)
    { username_ne := fun _ j _ hja hn => hdup (by
        rw [Fin.isSome_find?_iff]
        exact ⟨j, by simp [hja, hn]⟩)
      username_valid := fun _ => by simpa using hvalid
      -- all ids in use are below the counter
      id_unique := fun _ j _ hja hn => absurd (h.id_lt j hja) (by rw [hn]; exact lt_irrefl _)
      id_ne := fun _ => Nat.ne_of_gt h.next_pos
      id_lt := fun _ => Nat.lt_succ_self _
      wake_open := fun _ => rfl
      failed_not_ready := fun _ => rfl
      inactive_eq := fun hc => by cases hc }
    (by
      rw [Function.update_eq_self, Function.update_eq_self]
      exact hcells.1)
    (hcells.2 free)
  refine ⟨hupdate.1, rfl, login_of_inactive hinactive, by simp [set], ?_⟩
  refine hupdate.2.trans ?_
  rw [hpending]
  rfl

/-- `activate_client` on a login that has not failed. -/
theorem Inv.activateClient (h : Inv m) {i : Fin maxClients} {l : Login} (hl : m.login i = some l)
    (hf : l.failed = false) :
    ∃ m', m.activateClient i = (.ok (), m') ∧ Inv m' ∧ m'.nextClientId = m.nextClientId ∧
      m'.login = Function.update m.login i (some { l with ready := true }) := by
  obtain ⟨ha, hid, hname, hready, hfailed, hkey, hpending⟩ := login_some hl
  refine ⟨m.set i { m.clients i with ready := true }, by simp [ClientManager.activateClient, ha],
    ?_⟩
  have hm := h.modify (n := m.set i { m.clients i with ready := true }) rfl rfl rfl rfl
    (h.slotOk ha ha rfl rfl (h.wake_open i ha) fun hc => by
      rw [hfailed, hf] at hc
      cases hc)
  refine ⟨hm.1, rfl, ?_⟩
  rw [hm.2, Client.login, if_pos ha, ← hid, ← hname, ← hfailed, ← hkey, ← hpending]

theorem Inv.removeClient (h : Inv m) {i : Fin maxClients} {l : Login} (hl : m.login i = some l) :
    Inv (m.removeClient i) ∧ (m.removeClient i).nextClientId = m.nextClientId ∧
      (m.removeClient i).login = Function.update m.login i none := by
  obtain ⟨ha, -⟩ := login_some hl
  obtain ⟨cells, hcells⟩ := h.queues
  have hm : m.removeClient i = { m.set i {} with
      heap := freeChain m.heap (m.clients i).outgoing.count (m.clients i).outgoing.head } := by
    simp [ClientManager.removeClient, ha]
  rw [hm]
  have hu := h.update (n := { m.set i {} with
      heap := freeChain m.heap (m.clients i).outgoing.count (m.clients i).outgoing.head })
    hcells rfl le_rfl
    { username_ne := fun hc => by cases hc
      username_valid := fun hc => by cases hc
      id_unique := fun hc => by cases hc
      id_ne := fun hc => by cases hc
      id_lt := fun hc => by cases hc
      wake_open := fun hc => by cases hc
      failed_not_ready := fun hc => by cases hc
      inactive_eq := fun _ => rfl }
    (hcells.1.free i) (Nat.zero_le _)
  exact ⟨hu.1, rfl, hu.2⟩

/-- A key is stored for a ready login that has none, or that one already. -/
theorem Inv.registerClientPublicKey (h : Inv m) (c : ClientId) (key : Bytes) :
    (∃ e, m.registerClientPublicKey c key = (.error e, m)) ∨
    ∃ i l m', m.registerClientPublicKey c key = (.ok (), m') ∧ m.login i = some l ∧
      l.ready = true ∧ l.id = c ∧ (l.key = none ∨ l.key = some key) ∧ Inv m' ∧
      m'.nextClientId = m.nextClientId ∧
      m'.login = Function.update m.login i (some { l with key := some key }) := by
  unfold ClientManager.registerClientPublicKey
  split
  · rename_i i hi
    obtain ⟨ha, hr, hid⟩ := findReady_some hi
    split
    · exact .inl ⟨_, rfl⟩
    · rename_i hkey
      refine .inr ⟨i, _, _, rfl, login_of_active ha, hr, hid, ?_, ?_⟩
      · cases hp : (m.clients i).hasPublicKey with
        | false => exact .inl rfl
        | true => exact .inr (by simpa [hp] using hkey)
      · have hm := h.modify (n := m.set i
          { m.clients i with publicKey := key, hasPublicKey := true })
          rfl rfl rfl rfl (h.slotOk ha ha rfl rfl (h.wake_open i ha) (h.failed_not_ready i))
        refine ⟨hm.1, rfl, ?_⟩
        rw [hm.2, Client.login, if_pos ha]
        rfl
  · exact .inl ⟨_, rfl⟩

theorem Inv.signal (h : Inv m) {i : Fin maxClients} (hi : (m.clients i).active = true) :
    Inv (m.signal i) ∧ (m.signal i).login = m.login := by
  have hm := h.modify (n := m.signal i) rfl rfl rfl rfl (h.slotOk hi hi rfl rfl (by
    rw [Option.isSome_map]
    exact h.wake_open i hi) (h.failed_not_ready i))
  refine ⟨hm.1, hm.2.trans ?_⟩
  rw [Function.update_eq_self_iff, login, Client.login, Client.login]

theorem Inv.drain (h : Inv m) {i : Fin maxClients} (hi : (m.clients i).active = true) :
    Inv (m.drain i) ∧ (m.drain i).login = m.login := by
  have hm := h.modify (n := m.drain i) rfl rfl rfl rfl (h.slotOk hi hi rfl rfl (by
    rw [Option.isSome_map]
    exact h.wake_open i hi) (h.failed_not_ready i))
  refine ⟨hm.1, hm.2.trans ?_⟩
  rw [Function.update_eq_self_iff, login, Client.login, Client.login]

theorem Inv.head_eq_none (h : Inv m) (i : Fin maxClients) :
    (m.clients i).outgoing.head = none ↔ m.pending i = [] := by
  obtain ⟨cells, hcells⟩ := h.queues
  rw [(hcells.1.stores i).head_eq_none, Queues.pending hcells, List.map_eq_nil_iff]

/-- What a slot holds is what its counter says. -/
theorem Inv.length_pending (h : Inv m) (i : Fin maxClients) :
    (m.pending i).length = (m.clients i).outgoing.count := by
  obtain ⟨cells, hcells⟩ := h.queues
  rw [Queues.pending hcells i, List.length_map]
  exact (hcells.1.stores i).count.symm

theorem Inv.link (h : Inv m) {i : Fin maxClients} {l : Login} (hl : m.login i = some l) {a : ℕ}
    (ha : m.heap a = none) (frame : OutgoingFrame) :
    ∃ r m', m.link i a frame = (r, m') ∧ Inv m' ∧ m'.nextClientId = m.nextClientId ∧
      ((r = .ok () ∧
          m'.login = Function.update m.login i (some { l with pending := l.pending ++ [frame] })) ∨
        (r = .error .ENOBUFS ∧
          m'.login = Function.update m.login i
            (some { l with failed := true, ready := false }))) := by
  obtain ⟨hact, hid, hname, hready, hfailed, hkey, hpending⟩ := login_some hl
  by_cases hc : maxOutgoingFrames ≤ (m.clients i).outgoing.count
  · have hm := h.modify
      (n := m.set i { m.clients i with outgoingFailed := true, ready := false }) rfl rfl rfl rfl
      (h.slotOk hact hact rfl rfl (h.wake_open i hact) fun _ => rfl)
    refine ⟨_, _, if_pos hc, hm.1, rfl, .inr ⟨rfl, ?_⟩⟩
    rw [hm.2, Client.login, if_pos hact, ← hid, ← hname, ← hkey, ← hpending]
  · obtain ⟨cells, hcells⟩ := h.queues
    have hcount := (hcells.1.stores i).count
    have hu := h.update
      (n := { m.set i { m.clients i with
        outgoing := (enqueue m.heap (m.clients i).outgoing a frame).2 } with
          heap := (enqueue m.heap (m.clients i).outgoing a frame).1 })
      hcells rfl le_rfl
      (h.slotOk hact hact rfl rfl (h.wake_open i hact) (h.failed_not_ready i))
      (hcells.1.enqueue i ha frame) (by
        rw [List.length_append, List.length_singleton]
        omega)
    refine ⟨_, _, if_neg hc, hu.1, rfl, .inl ⟨rfl, ?_⟩⟩
    refine hu.2.trans ?_
    rw [Client.login, if_pos hact, List.map_append, ← Queues.pending hcells, ← hid, ← hname,
      ← hready, ← hfailed, ← hkey, ← hpending]
    rfl

/-- `queue_frame_to_client_id` appends to a ready login, fails a full one, or changes nothing. -/
theorem Inv.queueFrame (h : Inv m) (address : Option ℕ) (notified : Option Errno)
    (c : ClientId) (type : FrameType) (payload : Bytes) :
    (∃ e, m.queueFrameToClientId address notified c type payload = (.error e, m)) ∨
    ∃ i l r m', m.queueFrameToClientId address notified c type payload = (r, m') ∧
      m.login i = some l ∧ l.ready = true ∧ l.id = c ∧ Inv m' ∧ m'.nextClientId = m.nextClientId ∧
      ((r = .ok () ∧ m'.login =
          Function.update m.login i (some { l with pending := l.pending ++ [⟨type, payload⟩] })) ∨
        (r = .error .ENOBUFS ∧
          m'.login = Function.update m.login i
            (some { l with failed := true, ready := false }))) := by
  unfold queueFrameToClientId
  split
  · exact .inl ⟨_, rfl⟩
  split
  · exact .inl ⟨_, rfl⟩
  split
  · exact .inl ⟨_, rfl⟩
  rename_i a ha
  have hfree : m.heap a = none := by simpa using (Option.filter_eq_some_iff.mp ha).2
  split
  · exact .inl ⟨_, rfl⟩
  rename_i i hi
  obtain ⟨hact, hr, hid⟩ := findReady_some hi
  split
  · exact .inl ⟨_, rfl⟩
  obtain ⟨hsignal, hsame⟩ := h.signal hact
  have hl := login_of_active hact
  obtain ⟨r, m', hlink, hinv, hnext, hcases⟩ :=
    hsignal.link (by rwa [hsame]) hfree ⟨type, payload⟩
  rw [hsame] at hcases
  exact .inr ⟨i, _, r, m', hlink, hl, hr, hid, hinv, hnext, hcases⟩

/-- With memory and a working eventfd, a frame that fits fails only at a client
that is not ready afterwards. -/
theorem Inv.queueFrame_error (h : Inv m) {a : ℕ} {c : ClientId} {type : FrameType}
    {payload : Bytes} {m' : ClientManager} {e : Errno} (ha : m.heap a = none)
    (hlen : payload.length ≤ frameMaxSize - 1)
    (he : m.queueFrameToClientId (some a) none c type payload = (.error e, m')) :
      ¬m'.IsReady c := by
  have hsame : m.findReady c = none → ¬m.IsReady c := by
    rintro hf ⟨i, l, hl, hr, hid⟩
    exact findReady_none hf hl hr hid
  by_cases hc : c = invalidClientId
  · rw [queueFrameToClientId, if_pos hc] at he
    obtain rfl := congrArg Prod.snd he
    rintro ⟨i, l, hl, -, hid⟩
    exact (h.login_id_lt hl).1 (hid.trans hc)
  have hm : malloc m.heap (some a) = some a := by simp [malloc, Option.filter, ha]
  rw [queueFrameToClientId, if_neg hc, if_neg (not_lt.mpr hlen), hm] at he
  dsimp only at he
  cases hf : m.findReady c with
  | none =>
    rw [hf] at he
    obtain rfl := congrArg Prod.snd he
    exact hsame hf
  | some i =>
    rw [hf] at he
    dsimp only at he
    obtain ⟨hact, -, hid⟩ := findReady_some hf
    obtain ⟨hsignal, hlogin⟩ := h.signal hact
    obtain ⟨r, m'', hlink, hinv, -, hcases⟩ :=
      hsignal.link (by rw [hlogin, login_of_active hact]) ha ⟨type, payload⟩
    rw [he] at hlink
    obtain ⟨rfl, rfl⟩ := Prod.mk.inj hlink
    rcases hcases with ⟨hr, -⟩ | ⟨-, hfailed⟩
    · cases hr
    rintro ⟨j, l, hl, hr, hid'⟩
    have hi := congrFun hfailed i
    rw [Function.update_self] at hi
    obtain rfl := hinv.login_inj hl hi (hid'.trans hid.symm)
    rw [hi] at hl
    obtain rfl := Option.some.inj hl
    cases hr

theorem Inv.clientOutputStatus (h : Inv m) {i : Fin maxClients} {l : Login}
    (hl : m.login i = some l) :
    m.clientOutputStatus l.id = if l.failed then .error .ENOBUFS else .ok () := by
  obtain ⟨hact, hid, -, -, hfailed, -⟩ := login_some hl
  have hfind := h.findActive_eq hact
  rw [hid] at hfind
  unfold ClientManager.clientOutputStatus
  split
  · next j hj =>
    rw [hfind] at hj
    cases hj
    rw [hfailed]
  · next hj =>
    rw [hfind] at hj
    cases hj

/-- `take_outgoing_frame` takes the oldest frame of the login with that id. -/
theorem Inv.takeOutgoingFrame (h : Inv m) {i : Fin maxClients} {l : Login}
    (hl : m.login i = some l) :
    ∃ r m', m.takeOutgoingFrame l.id = (r, m') ∧ Inv m' ∧ m'.nextClientId = m.nextClientId ∧
      (((∃ e, r = .error e) ∧ m' = m) ∨ l.failed = false ∧
        ((r = .ok none ∧ l.pending = [] ∧ m'.login = m.login) ∨
          ∃ f rest, r = .ok (some f) ∧ l.pending = f :: rest ∧
            m'.login = Function.update m.login i (some { l with pending := rest }))) := by
  obtain ⟨hact, hid, hname, hready, hfailed, hkey, hpending⟩ := login_some hl
  have hfind : m.findActive l.id = some i := by
    rw [← hid]
    exact h.findActive_eq hact
  have hne : l.id ≠ invalidClientId := (h.login_id_lt hl).1
  obtain ⟨cells, hcells⟩ := h.queues
  unfold ClientManager.takeOutgoingFrame
  rw [if_neg hne, hfind]
  dsimp only
  by_cases hfail : (m.clients i).outgoingFailed = true
  · rw [if_pos hfail]
    exact ⟨_, _, rfl, h, rfl, .inl ⟨⟨_, rfl⟩, rfl⟩⟩
  rw [if_neg hfail]
  have hnf : l.failed = false := by
    rw [← hfailed]
    simpa using hfail
  have hcs := Queues.pending hcells i
  rw [hpending] at hcs
  -- an empty queue is left as it is
  cases hci : cells i with
  | nil =>
    have hstores := hcells.1.stores i
    rw [hci] at hstores
    rw [hstores.dequeue_nil]
    have hm := h.modify (n := m.set i { m.clients i with outgoing := (m.clients i).outgoing })
      rfl rfl rfl rfl (h.slotOk hact hact rfl rfl (h.wake_open i hact) (h.failed_not_ready i))
    refine ⟨_, _, rfl, hm.1, rfl, .inr ⟨hnf, .inl ⟨rfl, by simpa [hci] using hcs, ?_⟩⟩⟩
    rw [show ({ m.set i { m.clients i with outgoing := (m.clients i).outgoing } with
      heap := m.heap } : ClientManager) =
        m.set i { m.clients i with outgoing := (m.clients i).outgoing } from rfl, hm.2]
    rw [Function.update_eq_self_iff, login]
  | cons c cs =>
    obtain ⟨hv, hf⟩ := hcells.1.dequeue i hci
    have hlen := hcells.2 i
    rw [hci, List.length_cons] at hlen
    have hu := h.update (n := { m.set i { m.clients i with
        outgoing := (dequeue m.heap (m.clients i).outgoing).2.2 } with
          heap := (dequeue m.heap (m.clients i).outgoing).2.1 })
      hcells rfl le_rfl
      (h.slotOk hact hact rfl rfl (h.wake_open i hact) (h.failed_not_ready i)) hf (by omega)
    refine ⟨_, _, rfl, hu.1, rfl,
      .inr ⟨hnf, .inr ⟨c.2, cs.map Prod.snd, ?_, by simpa [hci] using hcs, ?_⟩⟩⟩
    · rw [hv]
    · rw [hu.2, Client.login, if_pos hact, ← hid, ← hname, ← hready, ← hfailed, ← hkey]

end ClientManager

end CipherChat
