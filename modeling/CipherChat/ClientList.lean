import CipherChat.Waiting

/-!
# The list of clients

`log_connected_clients` prints the names one after the other into a buffer of 1024 bytes.
The header and 100 names of 31 bytes come to 3218, so the list is complete only as long as
what it says fits.
-/

namespace CipherChat

open Resumption Prog Transition

def readyUsernames (m : ClientManager) : List Bytes :=
  ((List.finRange maxClients).filter fun i => (m.clients i).active && (m.clients i).ready).map
    fun i => (m.clients i).username

def listText (names : List Bytes) : Bytes :=
  ascii "Connected clients:" ++ (names.map fun name => ascii "\n" ++ name).flatten

/-- `/list`, from a registry `m` on, queues the complete list to the requester. -/
def ListsAll (m : ClientManager) (clientId : ClientId) : Prop :=
  ∃ k k', logConnectedClients clientId = .op .readyNames k ∧
    k m.readyNames = .op (.queueFrame clientId .text (listText (readyUsernames m))) k'

theorem readyNames_eq (m : ClientManager) : m.readyNames = readyUsernames m := by
  rw [readyUsernames, ClientManager.readyNames]
  induction List.finRange maxClients with
  | nil => rfl
  | cons i rest ih =>
    rw [List.filterMap_cons, List.filter_cons]
    split
    · next h =>
      rw [if_neg (by intro hb; rw [hb] at h; cases h)]
      exact ih
    · next name h =>
      split at h
      · next hb =>
        rw [if_pos hb, List.map_cons, ih, Option.some.inj h]
      · cases h

theorem length_header : (ascii "Connected clients:").length = 18 := length_ascii_ofList _

theorem length_listText (names : List Bytes) :
    (listText names).length = 18 + (names.map fun name => 1 + name.length).sum := by
  have hline : (ascii "\n").length = 1 := length_ascii_ofList _
  rw [listText, List.length_append, length_header, List.length_flatten, List.map_map]
  congr 3
  funext name
  rw [Function.comp, List.length_append, hline]

theorem appendNames_eq (text : Bytes) (names : List Bytes) (h : text.length < bufferSize) :
    appendNames text names =
      (text ++ (names.map fun name => ascii "\n" ++ name).flatten).take (bufferSize - 1) := by
  induction names generalizing text with
  | nil =>
    rw [appendNames, List.map_nil, List.flatten_nil, List.append_nil, List.take_of_length_le]
    omega
  | cons name rest ih =>
    rw [appendNames, List.map_cons, List.flatten_cons]
    generalize ascii "\n" ++ name = line
    split
    · next hfull =>
      rw [List.take_append, List.take_of_length_le (by omega : text.length ≤ bufferSize - 1),
        List.take_append_of_le_length (by omega), Nat.sub_right_comm]
    · next hroom =>
      rw [ih _ (by rw [List.length_append]; omega), List.append_assoc]

theorem logConnectedClients_eq (clientId : ClientId) : logConnectedClients clientId =
    .op .readyNames fun names =>
      .op (.queueFrame clientId .text ((listText names).take (bufferSize - 1))) fun _ =>
        .ret () := by
  have hheader := length_header
  have hbuffer := bufferSize_eq
  have hne : ∀ names, (listText names).take (bufferSize - 1) ≠ [] := by
    intro names hnil
    have hlen := congrArg List.length hnil
    rw [List.length_take, length_listText, List.length_nil] at hlen
    omega
  unfold logConnectedClients
  rw [call_bind]
  congr 1
  funext names
  rw [appendNames_eq _ _ (by omega), sendTextToClientId]
  change (if (listText names).take (bufferSize - 1) = [] then _ else _) >>= _ = _
  rw [if_neg (hne names)]
  rfl

/-- The list is complete exactly when it fits the buffer. -/
theorem lists_all_iff (m : ClientManager) (clientId : ClientId) : ListsAll m clientId ↔
    18 + ((readyUsernames m).map fun name => 1 + name.length).sum < bufferSize := by
  have hbuffer := bufferSize_eq
  rw [← length_listText, ListsAll, logConnectedClients_eq, readyNames_eq]
  constructor
  · rintro ⟨k, k', hfirst, hsecond⟩
    cases hfirst
    have htake := (Op.queueFrame.inj (Prog.op.inj hsecond).1).2.2
    have hlen := congrArg List.length htake
    rw [List.length_take] at hlen
    omega
  · intro h
    exact ⟨_, fun _ => .ret (), rfl, by rw [List.take_of_length_le (by omega)]⟩

def guest (k : ℕ) : Bytes := UInt8.ofNat (65 + k) :: List.replicate 30 97

theorem guest_injective {j k : ℕ} (hj : j < 32) (hk : k < 32) (h : guest j = guest k) : j = k := by
  have hhead := congrArg UInt8.toNat (List.cons.inj h).1
  rw [UInt8.toNat_ofNat', UInt8.toNat_ofNat', Nat.mod_eq_of_lt (by omega),
    Nat.mod_eq_of_lt (by omega)] at hhead
  omega

theorem guest_valid {k : ℕ} (hk : k < 32) : usernameIsValid (guest k) = true ∧ 0 ∉ guest k := by
  have hall : ∀ k < 32, usernameIsValid (guest k) = true ∧ 0 ∉ guest k := by decide
  exact hall k hk

theorem ClientManager.addClient_eq {m : ClientManager} {name : Bytes} {i : Fin maxClients}
    (hvalid : usernameIsValid name = true)
    (hnew : (Fin.find? fun j => (m.clients j).active && (m.clients j).username == name) = none)
    (hfree : (Fin.find? fun j => !(m.clients j).active) = some i) :
    ∃ c next, m.addClient name none = (.ok i, { m.set i c with nextClientId := next }) ∧
      c.active = true ∧ c.username = name := by
  unfold addClient
  rw [hvalid, hnew, hfree]
  exact ⟨_, _, rfl, rfl, rfl⟩

theorem Server.logsIn {s : Server} {n : ℕ} {name : Bytes} {i : Fin maxClients} {c : Client}
    {m : ClientManager} (hn : s.threads n = .connected)
    (hlen : ¬(name.length = 0 ∨ usernameSize ≤ name.length ∨ 0 ∈ name))
    (hadd : s.shared.clients.addClient name none = (.ok i, m))
    (hm : m.clients = Function.update s.shared.clients.clients i c) (hactive : c.active = true) :
    ∃ s', server.Steps s s' ∧ s'.shared.clients.clients =
      Function.update s.shared.clients.clients i { c with ready := true } ∧
      ∀ n' ≠ n, s'.threads n' = s.threads n' := by
  have h1 : ∃ events, threadStep s.shared n { username := name } .connected =
      some ({ s.shared with clients := m }, .added i name, events) := by
    unfold threadStep
    dsimp only
    rw [if_neg hlen, hadd]
    exact ⟨_, rfl⟩
  obtain ⟨events, h1⟩ := h1
  have hself : m.clients i = c := by rw [hm, Function.update_self]
  have hactivate : m.activateClient i = (.ok (), m.set i { c with ready := true }) := by
    unfold ClientManager.activateClient
    rw [hself, if_neg (by rw [hactive]; decide)]
  have h4 : ∀ u : Session, u.index = i →
      threadStep { s.shared with clients := m } n {} (.activating u) =
        some ({ s.shared with clients := m.set i { c with ready := true } }, .starting u, []) := by
    intro u hu
    unfold threadStep
    dsimp only
    rw [hu, hactivate]
  refine ⟨_, (((System.Steps.refl.tail (Server.step_of _ hn h1)).tail
    (Server.step_of {} (Function.update_self _ _ _) rfl)).tail
    (Server.step_of {} (Function.update_self _ _ _) rfl)).tail
    (Server.step_of {} (Function.update_self _ _ _) (h4 _ rfl)), ?_, fun n' hn' => ?_⟩
  · change Function.update m.clients i _ = _
    rw [hm, Function.update_idem]
  · dsimp only
    rw [Function.update_of_ne hn', Function.update_of_ne hn', Function.update_of_ne hn',
      Function.update_of_ne hn']

/-- The first `k` connections are logged in as guests, and the others have not begun to. -/
structure Server.Guests (s : Server) (k : ℕ) : Prop where
  ready : ∀ i : Fin maxClients, i.val < k → (s.shared.clients.clients i).active = true ∧
    (s.shared.clients.clients i).ready = true ∧ (s.shared.clients.clients i).username = guest i
  free : ∀ i : Fin maxClients, k ≤ i.val → (s.shared.clients.clients i).active = false
  connected : ∀ n, k ≤ n → s.threads n = .connected

theorem Server.Guests.next {s : Server} {k : ℕ} (h : s.Guests k) (hk : k < 32) :
    ∃ s', server.Steps s s' ∧ s'.Guests (k + 1) := by
  have hmax : maxClients = 100 := rfl
  let i : Fin maxClients := ⟨k, by omega⟩
  obtain ⟨hvalid, hzero⟩ := guest_valid hk
  have hnew : (Fin.find? fun j => (s.shared.clients.clients j).active &&
      (s.shared.clients.clients j).username == guest k) = none := by
    rw [Fin.find?_eq_none_iff]
    intro j
    by_cases hj : j.val < k
    · obtain ⟨-, -, hname⟩ := h.ready j hj
      rw [hname, Bool.and_eq_false_iff, beq_eq_false_iff_ne]
      exact .inr fun heq => Nat.ne_of_lt hj (guest_injective (by omega) hk heq)
    · rw [h.free j (by omega), Bool.false_and]
  have hfree : (Fin.find? fun j => !(s.shared.clients.clients j).active) = some i := by
    rw [Fin.find?_eq_some_iff]
    refine ⟨by rw [h.free i le_rfl, Bool.not_false], fun j hj => ?_⟩
    rw [(h.ready j hj).1, Bool.not_true]
  obtain ⟨c, next, hadd, hactive, hname⟩ := ClientManager.addClient_eq hvalid hnew hfree
  have hlen : ¬((guest k).length = 0 ∨ usernameSize ≤ (guest k).length ∨ 0 ∈ guest k) := by
    have hsize := usernameSize_eq
    have hlen : (guest k).length = 31 := by simp [guest]
    rw [hlen, hsize]
    simp [hzero]
  obtain ⟨s', hst, hclients, hthreads⟩ :=
    Server.logsIn (h.connected k le_rfl) hlen hadd rfl hactive
  refine ⟨s', hst, fun j hj => ?_, fun j hj => ?_, fun n hn => ?_⟩
  · rw [hclients]
    by_cases hji : j = i
    · subst hji
      rw [Function.update_self]
      exact ⟨hactive, rfl, hname⟩
    · rw [Function.update_of_ne hji]
      exact h.ready j (Nat.lt_of_le_of_ne (Nat.le_of_lt_succ hj) fun he => hji (Fin.ext he))
  · have hji : j ≠ i := by
      rintro rfl
      exact Nat.not_succ_le_self k hj
    rw [hclients, Function.update_of_ne hji]
    exact h.free j (Nat.le_of_succ_le hj)
  · rw [hthreads n (Nat.ne_of_gt hn)]
    exact h.connected n (Nat.le_of_succ_le hn)

theorem guests_reachable (k : ℕ) (hk : k ≤ 32) : ∃ s, server.Reachable s ∧ s.Guests k := by
  induction k with
  | zero =>
    refine ⟨Server.init, .init, fun i hi => ?_, fun i _ => rfl, fun n _ => rfl⟩
    omega
  | succ k ih =>
    obtain ⟨s, hs, hguests⟩ := ih (Nat.le_of_succ_le hk)
    obtain ⟨s', hst, hguests'⟩ := hguests.next hk
    exact ⟨s', hs.steps hst, hguests'⟩

/-- 32 clients with names of 31 bytes are ready, and `/list` does not name them all. -/
theorem list_cut_short : ∃ s, server.Reachable s ∧
    (∀ i : Fin maxClients, i.val < 32 → (s.shared.clients.clients i).active = true ∧
      (s.shared.clients.clients i).ready = true ∧
      (s.shared.clients.clients i).username = guest i) ∧
    ¬ListsAll s.shared.clients 1 := by
  obtain ⟨s, hs, hguests⟩ := guests_reachable 32 le_rfl
  refine ⟨s, hs, hguests.ready, ?_⟩
  have hnames : readyUsernames s.shared.clients =
      ((List.finRange maxClients).filter fun i => i.val < 32).map fun i => guest i.val := by
    have hfilter : ((List.finRange maxClients).filter fun i =>
        (s.shared.clients.clients i).active && (s.shared.clients.clients i).ready) =
        (List.finRange maxClients).filter fun i => i.val < 32 := by
      refine List.filter_congr fun i _ => ?_
      by_cases hi : i.val < 32
      · obtain ⟨ha, hr, -⟩ := hguests.ready i hi
        rw [ha, hr, decide_eq_true hi]
        rfl
      · rw [hguests.free i (by omega), decide_eq_false hi]
        rfl
    rw [readyUsernames, hfilter]
    refine List.map_congr_left fun i hi => ?_
    exact (hguests.ready i (by simpa using (List.mem_filter.mp hi).2)).2.2
  have hsum : ((((List.finRange maxClients).filter fun i => i.val < 32).map fun i =>
      guest i.val).map fun name => 1 + name.length).sum = 1024 := by
    decide +kernel
  have hbuffer := bufferSize_eq
  rw [lists_all_iff, hnames, hsum]
  omega

end CipherChat
