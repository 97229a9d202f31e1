import CipherChat.Registry
import CipherChat.RouteTable
import CipherChat.Turn

/-!
# Threads and their slots

`Wf` ties the threads to the registry: a connection owns the slot of its login from
`add_client` to `remove_client`, ids are handed out in increasing order, and a client
that is not yet activated has been sent nothing.
-/

namespace CipherChat

/-- What happens to a login while its thread runs, activation apart. -/
structure Login.Evolves (l l' : Login) : Prop where
  id : l'.id = l.id
  username : l'.username = l.username
  ready : l'.ready = true → l.ready = true
  failed : l.ready = false → l'.failed = l.failed
  key : ∀ k, l.key = some k → l'.key = some k

theorem Login.Evolves.refl (l : Login) : l.Evolves l := ⟨rfl, rfl, fun h => h, fun _ => rfl,
    fun _ h => h⟩

namespace ClientManager

/-- No login comes or goes, and each one evolves. -/
structure Evolves (m m' : ClientManager) : Prop where
  next : m'.nextClientId = m.nextClientId
  none : ∀ i, m.login i = .none → m'.login i = .none
  some : ∀ i l, m.login i = .some l → ∃ l', m'.login i = .some l' ∧ l.Evolves l'

variable {m m' : ClientManager}

theorem Evolves.of_login_eq (hn : m'.nextClientId = m.nextClientId) (hl : m'.login = m.login) :
    m.Evolves m' := by
  refine ⟨hn, fun i hi => by rw [hl, hi], fun i l hi => ⟨l, by rw [hl, hi], .refl l⟩⟩

theorem Evolves.refl (m : ClientManager) : m.Evolves m := .of_login_eq rfl rfl

theorem Evolves.update {i : Fin maxClients} {l l' : Login} (hn : m'.nextClientId = m.nextClientId)
    (hi : m.login i = Option.some l) (hu : m'.login = Function.update m.login i (Option.some l'))
    (hl : l.Evolves l') : m.Evolves m' := by
  refine ⟨hn, fun j hj => ?_, fun j l₀ hj => ?_⟩
  · have hji : j ≠ i := by
      rintro rfl
      rw [hi] at hj
      cases hj
    rw [hu, Function.update_of_ne hji, hj]
  · by_cases hji : j = i
    · subst hji
      rw [hi] at hj
      cases hj
      exact ⟨l', by rw [hu, Function.update_self], hl⟩
    · exact ⟨l₀, by rw [hu, Function.update_of_ne hji, hj], .refl l₀⟩

theorem Evolves.back (h : m.Evolves m') {i : Fin maxClients} {l' : Login}
    (hi : m'.login i = Option.some l') : ∃ l, m.login i = Option.some l ∧ l.Evolves l' := by
  cases hl : m.login i with
  | none =>
    rw [h.none i hl] at hi
    cases hi
  | some l =>
    obtain ⟨l'', hl'', hev⟩ := h.some i l hl
    rw [hi] at hl''
    cases hl''
    exact ⟨l, rfl, hev⟩

theorem Evolves.isReady (h : m.Evolves m') {c : ClientId} (hc : m'.IsReady c) : m.IsReady c := by
  obtain ⟨i, l', hi, hr, hid⟩ := hc
  obtain ⟨l, hl, hev⟩ := h.back hi
  exact ⟨i, l, hl, hev.ready hr, hev.id ▸ hid⟩

end ClientManager

open ClientManager

theorem perform_routes_inv {x : Shared} (h : x.routes.Inv) (libc : Libc) (o : Op) :
    (perform libc x o).2.routes.Inv := by
  cases o with
  | routesAdd s src tgt size d =>
    simp only [perform, Shared.onRoutes]
    exact h.run (.add s src tgt size d)
  | routesQuarantine s src keep =>
    simp only [perform, Shared.onRoutes]
    exact h.run (.quarantine s src keep)
  | routesAcceptChunk s src len =>
    simp only [perform, Shared.onRoutes]
    exact h.run (.acceptChunk s src len)
  | routesMarkForwardFailed s src o =>
    simp only [perform, Shared.onRoutes]
    exact h.run (.markForwardFailed s src o)
  | routesFinish s src v =>
    simp only [perform, Shared.onRoutes]
    exact h.run (.finish s src v)
  | routesAbortClient c cap =>
    simp only [perform, Shared.onRoutes]
    exact h.abortClient c cap
  | _ => simpa only [perform, Shared.onClients] using h

theorem perform_clients {x : Shared} (h : x.clients.Inv) (libc : Libc) (o : Op) :
    (perform libc x o).2.clients.Inv ∧ x.clients.Evolves (perform libc x o).2.clients := by
  cases o with
  | queueFrame c type payload =>
    simp only [perform, Shared.onClients]
    rcases h.queueFrame libc.address libc.eventfdWrite c type payload with
      ⟨e, he⟩ | ⟨i, l, r, m', he, hl, hr, -, hinv, hnext, hcases⟩
    · rw [he]
      exact ⟨h, .refl _⟩
    · rw [he]
      refine ⟨hinv, ?_⟩
      rcases hcases with ⟨-, hu⟩ | ⟨-, hu⟩
      · exact .update hnext hl hu ⟨rfl, rfl, fun h => h, fun _ => rfl, fun _ h => h⟩
      · refine .update hnext hl hu ⟨rfl, rfl, fun _ => hr, fun hf => ?_, fun _ => id⟩
        rw [hr] at hf
        cases hf
  | registerClientPublicKey c key =>
    simp only [perform, Shared.onClients]
    rcases h.registerClientPublicKey c key with
      ⟨e, he⟩ | ⟨i, l, m', he, hl, hr, -, hkey, hinv, hnext, hu⟩
    · rw [he]
      exact ⟨h, .refl _⟩
    · rw [he]
      refine ⟨hinv, .update hnext hl hu ⟨rfl, rfl, id, fun _ => rfl, fun k hk => ?_⟩⟩
      rcases hkey with hn | hs
      · rw [hn] at hk
        cases hk
      · rw [hs] at hk
        exact hk
  | _ =>
    simp only [perform, Shared.onRoutes]
    exact ⟨h, .refl _⟩

/-- A frame is only queued to a client that is ready. -/
theorem perform_queueFrame_ok {x : Shared} (h : x.clients.Inv) {libc : Libc} {c : ClientId}
    {type : FrameType} {payload : Bytes}
    (hok : (perform libc x (.queueFrame c type payload)).1 = .ok ()) : x.clients.IsReady c := by
  simp only [perform, Shared.onClients] at hok
  rcases h.queueFrame libc.address libc.eventfdWrite c type payload with
    ⟨e, he⟩ | ⟨i, l, r, m', he, hl, hr, hid, -⟩
  · rw [he] at hok
    cases hok
  · exact ⟨i, l, hl, hr, hid⟩

namespace Thread

/-- The slot a thread owns, from `add_client` to `remove_client`. -/
def slot : Thread → Option (Fin maxClients)
  | .added i _ => some i
  | .welcoming u | .activating u | .starting u | .working u _ | .handling u _ _ | .leaving u _ =>
    some u.index
  | .connected | .aborting _ _ | .finished _ | .closed => none

def session : Thread → Option Session
  | .welcoming u | .activating u | .starting u | .working u _ | .handling u _ _ | .leaving u _
  | .aborting u _ | .finished u => some u
  | .connected | .added _ _ | .closed => none

/-- The name a thread logged in under. -/
def name : Thread → Option Bytes
  | .added _ name => some name
  | t => t.session.map Session.username

/-- Logged in, but not yet activated. -/
def early : Thread → Bool
  | .added _ _ | .welcoming _ | .activating _ => true
  | _ => false

end Thread

def Event.loginId : Event → Option ClientId
  | .login _ id _ => some id
  | _ => none

/-- The events that append a frame to a client's queue. -/
def Event.Queues (e : Event) (r : ClientId) : Prop :=
  ∃ c type payload, e = .did c (.queueFrame r type payload) (.ok ())

def Event.isDid : Event → Bool
  | .did _ _ _ => true
  | _ => false

theorem Event.not_queues {e : Event} (h : e.isDid = false) (r : ClientId) : ¬e.Queues r := by
  rintro ⟨c, type, payload, rfl⟩
  cases h

structure Server.Wf (s : Server) : Prop where
  clients : s.shared.clients.Inv
  routes : s.shared.routes.Inv
  owns : ∀ n i, (s.threads n).slot = some i → ∃ l, s.shared.clients.login i = some l ∧
    (s.threads n).name = some l.username ∧ (∀ u, (s.threads n).session = some u → u.id = l.id) ∧
    ((s.threads n).early = true → l.ready = false ∧ l.failed = false ∧
      ∀ e ∈ s.log, ¬e.Queues l.id)
  slot_inj : ∀ n n' i, (s.threads n).slot = some i → (s.threads n').slot = some i → n = n'
  logged : ∀ i l, s.shared.clients.login i = some l → ∃ n, .login n l.id l.username ∈ s.log ∧
    (s.threads n).slot = some i
  session_logged : ∀ n u, (s.threads n).session = some u → .login n u.id u.username ∈ s.log
  gone : ∀ n u, (s.threads n).session = some u → (s.threads n).slot = none →
    ∀ i l, s.shared.clients.login i = some l → l.id ≠ u.id
  log_inj : ∀ n n' c name name', .login n c name ∈ s.log → .login n' c name' ∈ s.log →
    n = n' ∧ name = name'
  log_lt : ∀ n c name, .login n c name ∈ s.log → c < s.shared.clients.nextClientId
  log_sorted : (s.log.filterMap Event.loginId).Pairwise (· < ·)
  queued_lt : ∀ e ∈ s.log, ∀ r, e.Queues r → r < s.shared.clients.nextClientId

theorem Server.wf_init : Server.init.Wf where
  clients := inv_init
  routes := FileRoutes.inv_init
  owns n i h := by cases h
  slot_inj n n' i h := by cases h
  logged i l h := by cases h
  session_logged n u h := by cases h
  gone n u h := by cases h
  log_inj n n' c name name' h := by cases h
  log_lt n c name h := by cases h
  log_sorted := List.Pairwise.nil
  queued_lt e h := by cases h

namespace Server.Wf

variable {s : Server} {n : ℕ} {x' : Shared} {t' : Thread} {evs : List Event}

/-- The next state of the server when thread `n` moves. -/
abbrev moved (s : Server) (n : ℕ) (x' : Shared) (t' : Thread) (evs : List Event) : Server :=
  { shared := x', threads := Function.update s.threads n t', log := s.log ++ evs }

theorem keep (h : s.Wf) (hclients : x'.clients.Inv) (hroutes : x'.routes.Inv)
    (hnext : x'.clients.nextClientId = s.shared.clients.nextClientId)
    (hnone : ∀ i, s.shared.clients.login i = none → x'.clients.login i = none)
    (hsome : ∀ i l, s.shared.clients.login i = some l → ∃ l', x'.clients.login i = some l' ∧
      l'.id = l.id ∧ l'.username = l.username ∧
      (((s.threads n).slot = some i → t'.early = true) → l.ready = false →
        l'.ready = false ∧ l'.failed = l.failed))
    (hslot : t'.slot = (s.threads n).slot) (hname : t'.name = (s.threads n).name)
    (hsession : ∀ u, t'.session = some u → (s.threads n).session = some u ∨
      ∃ i l, (s.threads n).slot = some i ∧ s.shared.clients.login i = some l ∧ u.id = l.id ∧
        u.username = l.username)
    (hearly : t'.early = true → (s.threads n).early = true)
    (hevs : ∀ e ∈ evs, e.loginId = none ∧ ∀ r, e.Queues r → s.shared.clients.IsReady r) :
    (moved s n x' t' evs).Wf := by
  have hthread : ∀ k, (moved s n x' t' evs).threads k = if k = n then t' else s.threads k :=
    fun k => Function.update_apply _ _ _ _
  have hslots : ∀ k, ((moved s n x' t' evs).threads k).slot = (s.threads k).slot := by
    intro k
    rw [hthread]
    split
    · next hk => rw [hslot, hk]
    · rfl
  -- the step logs nobody in
  have hold : ∀ m c name, Event.login m c name ∈ s.log ++ evs → Event.login m c name ∈ s.log := by
    intro m c name hm
    rcases List.mem_append.mp hm with hm | hm
    · exact hm
    · cases (hevs _ hm).1
  have hback : ∀ i l', x'.clients.login i = some l' → ∃ l, s.shared.clients.login i = some l ∧
      l'.id = l.id ∧ l'.username = l.username := by
    intro i l' hl'
    cases hl : s.shared.clients.login i with
    | none =>
      rw [hnone i hl] at hl'
      cases hl'
    | some l =>
      obtain ⟨l'', hl'', hid, hname, -⟩ := hsome i l hl
      rw [hl'] at hl''
      cases hl''
      exact ⟨l, rfl, hid, hname⟩
  -- a session of the new state was one before, or is that of a login already made
  have hsessions : ∀ k u, ((moved s n x' t' evs).threads k).session = some u →
      (s.threads k).session = some u ∨ ∃ i l, (s.threads k).slot = some i ∧
        s.shared.clients.login i = some l ∧ u.id = l.id ∧ u.username = l.username := by
    intro k u hu
    rw [hthread] at hu
    split at hu
    · next hk =>
      rw [hk]
      exact hsession u hu
    · exact .inl hu
  refine ⟨hclients, hroutes, ?_, ?_, ?_, ?_, ?_, ?_, ?_, ?_, ?_⟩
  · intro k i hk
    rw [hslots] at hk
    obtain ⟨l, hl, hlname, hlid, hlearly⟩ := h.owns k i hk
    obtain ⟨l', hl', hid', hname', hready'⟩ := hsome i l hl
    refine ⟨l', hl', ?_, ?_, ?_⟩
    · rw [hname', ← hlname, hthread]
      split
      · next hkn => rw [hname, hkn]
      · rfl
    · intro u hu
      rw [hid']
      rcases hsessions k u hu with hs | ⟨j, lj, hj, hlj, hidj, -⟩
      · exact hlid u hs
      · rw [hk] at hj
        cases hj
        rw [hl] at hlj
        cases hlj
        exact hidj
    · intro he
      rw [hthread] at he
      have hek : (s.threads k).early = true := by
        split at he
        · next hkn => exact hkn ▸ hearly he
        · exact he
      obtain ⟨hr, hf, hq⟩ := hlearly hek
      obtain ⟨hr', hf'⟩ := hready' (fun hni => by
        rwa [if_pos (h.slot_inj k n i hk hni)] at he) hr
      refine ⟨hr', hf'.trans hf, fun e hmem hqe => ?_⟩
      rw [hid'] at hqe
      rcases List.mem_append.mp hmem with hmem | hmem
      · exact hq e hmem hqe
      · -- the frame went to a ready client, and this one is not
        obtain ⟨j, lj, hlj, hrj, hidj⟩ := (hevs e hmem).2 _ hqe
        obtain rfl := h.clients.login_inj hlj hl hidj
        rw [hl] at hlj
        cases hlj
        rw [hr] at hrj
        cases hrj
  · intro k k' i hk hk'
    rw [hslots] at hk hk'
    exact h.slot_inj k k' i hk hk'
  · intro i l' hl'
    obtain ⟨l, hl, hid, hlname⟩ := hback i l' hl'
    obtain ⟨k, hk, hks⟩ := h.logged i l hl
    refine ⟨k, List.mem_append_left _ ?_, by rw [hslots, hks]⟩
    rwa [hid, hlname]
  · intro k u hu
    refine List.mem_append_left _ ?_
    rcases hsessions k u hu with hs | ⟨i, l, hi, hl, hid, hname⟩
    · exact h.session_logged k u hs
    · obtain ⟨k', hk', hks'⟩ := h.logged i l hl
      obtain rfl := h.slot_inj k k' i hi hks'
      rwa [hid, hname]
  · intro k u hu hk i l' hl'
    rw [hslots] at hk
    obtain ⟨l, hl, hid, -⟩ := hback i l' hl'
    rw [hid]
    rcases hsessions k u hu with hs | ⟨j, lj, hj, -⟩
    · exact h.gone k u hs hk i l hl
    · rw [hk] at hj
      cases hj
  · exact fun k k' c nm nm' hk hk' => h.log_inj k k' c nm nm' (hold _ _ _ hk) (hold _ _ _ hk')
  · intro k c nm hk
    rw [hnext]
    exact h.log_lt k c nm (hold _ _ _ hk)
  · have hnil : evs.filterMap Event.loginId = [] :=
      List.filterMap_eq_nil_iff.mpr fun e he => (hevs e he).1
    rw [List.filterMap_append, hnil, List.append_nil]
    exact h.log_sorted
  · intro e he r hr
    rw [hnext]
    rcases List.mem_append.mp he with he | he
    · exact h.queued_lt e he r hr
    · obtain ⟨j, lj, hlj, -, rfl⟩ := (hevs e he).2 r hr
      exact (h.clients.login_id_lt hlj).2

/-- `add_client` succeeded for a thread that owns nothing. -/
theorem add (h : s.Wf) {i : Fin maxClients} {name : Bytes} {eventfd : Option Errno}
    {clients : ClientManager} (hn : (s.threads n).slot = none)
    (hadd : s.shared.clients.addClient name eventfd = (.ok i, clients)) :
    (moved s n { s.shared with clients } (.added i name)
      [.login n (clients.clients i).id name]).Wf := by
  obtain ⟨hinv, hnext, hfree, hid, hlogin⟩ := h.clients.addClient hadd
  rw [hid]
  have hthread : ∀ k, k ≠ n → (moved s n { s.shared with clients } (.added i name)
      [.login n s.shared.clients.nextClientId name]).threads k = s.threads k :=
    fun k hk => Function.update_of_ne hk _ _
  have hself : (moved s n { s.shared with clients } (.added i name)
      [.login n s.shared.clients.nextClientId name]).threads n = .added i name :=
    Function.update_self _ _ _
  have hi : clients.login i = some (.fresh s.shared.clients.nextClientId name) := by
    rw [hlogin, Function.update_self]
  have hj : ∀ j, j ≠ i → clients.login j = s.shared.clients.login j := fun j hj => by
    rw [hlogin, Function.update_of_ne hj]
  -- the slot was free, so no other thread has it
  have hne : ∀ k j, (s.threads k).slot = some j → j ≠ i := by
    rintro k j hk rfl
    obtain ⟨l, hl, -⟩ := h.owns k j hk
    rw [hfree] at hl
    cases hl
  have hmem : ∀ m c nm, Event.login m c nm ∈ s.log ++
      [Event.login n s.shared.clients.nextClientId name] → Event.login m c nm ∈ s.log ∨
        (m = n ∧ c = s.shared.clients.nextClientId ∧ nm = name) := by
    intro m c nm hm
    rcases List.mem_append.mp hm with hm | hm
    · exact .inl hm
    · cases List.mem_singleton.mp hm
      exact .inr ⟨rfl, rfl, rfl⟩
  refine ⟨hinv, h.routes, ?_, ?_, ?_, ?_, ?_, ?_, ?_, ?_, ?_⟩
  · intro k j hk
    by_cases hkn : k = n
    · subst hkn
      rw [hself] at hk ⊢
      cases hk
      -- the new id has had no frame queued yet
      refine ⟨_, hi, rfl, fun u hu => (by cases hu), fun _ => ⟨rfl, rfl, fun e he hq => ?_⟩⟩
      rcases List.mem_append.mp he with he | he
      · exact lt_irrefl _ (h.queued_lt e he _ hq)
      · obtain ⟨c, type, payload, rfl⟩ := hq
        cases List.mem_singleton.mp he
    · rw [hthread k hkn] at hk ⊢
      obtain ⟨l, hl, hlname, hlid, hlearly⟩ := h.owns k j hk
      refine ⟨l, by rw [hj j (hne k j hk), hl], hlname, hlid, fun he => ?_⟩
      obtain ⟨hr, hf, hq⟩ := hlearly he
      refine ⟨hr, hf, fun e hmem hqe => ?_⟩
      rcases List.mem_append.mp hmem with hmem | hmem
      · exact hq e hmem hqe
      · obtain ⟨c, type, payload, rfl⟩ := hqe
        cases List.mem_singleton.mp hmem
  · intro k k' j hk hk'
    by_cases hkn : k = n <;> by_cases hkn' : k' = n
    · rw [hkn, hkn']
    · subst hkn
      rw [hself] at hk
      cases hk
      rw [hthread k' hkn'] at hk'
      exact absurd rfl (hne k' i hk')
    · subst hkn'
      rw [hself] at hk'
      cases hk'
      rw [hthread k hkn] at hk
      exact absurd rfl (hne k i hk)
    · rw [hthread k hkn] at hk
      rw [hthread k' hkn'] at hk'
      exact h.slot_inj k k' j hk hk'
  · intro j l hl
    by_cases hji : j = i
    · subst hji
      change clients.login j = some l at hl
      rw [hi] at hl
      cases hl
      exact ⟨n, List.mem_append_right _ (List.mem_singleton.mpr rfl), by rw [hself]; rfl⟩
    · change clients.login j = some l at hl
      rw [hj j hji] at hl
      obtain ⟨k, hk, hks⟩ := h.logged j l hl
      have hkn : k ≠ n := by
        rintro rfl
        rw [hn] at hks
        cases hks
      exact ⟨k, List.mem_append_left _ hk, by rw [hthread k hkn, hks]⟩
  · intro k u hu
    by_cases hkn : k = n
    · subst hkn
      rw [hself] at hu
      cases hu
    · rw [hthread k hkn] at hu
      exact List.mem_append_left _ (h.session_logged k u hu)
  · intro k u hu hk j l hl
    by_cases hkn : k = n
    · subst hkn
      rw [hself] at hu
      cases hu
    · rw [hthread k hkn] at hu hk
      change clients.login j = some l at hl
      by_cases hji : j = i
      · subst hji
        rw [hi] at hl
        cases hl
        exact Nat.ne_of_gt (h.log_lt k u.id u.username (h.session_logged k u hu))
      · rw [hj j hji] at hl
        exact h.gone k u hu hk j l hl
  -- no two logins have one id: the new one is above all others
  · intro k k' c nm nm' hk hk'
    rcases hmem k c nm hk with ho | ⟨hk, hc, hnm⟩ <;>
      rcases hmem k' c nm' hk' with ho' | ⟨hk', hc', hnm'⟩
    · exact h.log_inj k k' c nm nm' ho ho'
    · exact absurd (hc' ▸ h.log_lt k c nm ho) (lt_irrefl _)
    · exact absurd (hc ▸ h.log_lt k' c nm' ho') (lt_irrefl _)
    · exact ⟨hk.trans hk'.symm, hnm.trans hnm'.symm⟩
  · intro k c nm hk
    change c < clients.nextClientId
    rw [hnext]
    rcases hmem k c nm hk with hk | ⟨-, rfl, -⟩
    · exact Nat.lt_succ_of_lt (h.log_lt k c nm hk)
    · exact Nat.lt_succ_self _
  · change ((s.log ++ [Event.login n s.shared.clients.nextClientId name]).filterMap
      Event.loginId).Pairwise (· < ·)
    rw [List.filterMap_append, List.pairwise_append]
    refine ⟨h.log_sorted, List.pairwise_singleton _ _, ?_⟩
    intro c hc c' hc'
    obtain ⟨e, he, hec⟩ := List.mem_filterMap.mp hc
    cases List.mem_singleton.mp hc'
    cases e with
    | login k c nm =>
      cases hec
      exact h.log_lt k _ nm he
    | _ => cases hec
  · intro e he r hr
    change r < clients.nextClientId
    rw [hnext]
    rcases List.mem_append.mp he with he | he
    · exact Nat.lt_succ_of_lt (h.queued_lt e he r hr)
    · obtain ⟨c, type, payload, rfl⟩ := hr
      cases List.mem_singleton.mp he

theorem remove (h : s.Wf) {u : Session} (hn : (s.threads n).slot = some u.index)
    (hu : (s.threads n).session = some u) (ht : t'.slot = none)
    (hsession : ∀ v, t'.session = some v → v = u)
    (hevs : ∀ e ∈ evs, e.loginId = none ∧ ∀ r, ¬e.Queues r) :
    (moved s n { s.shared with clients := s.shared.clients.removeClient u.index } t' evs).Wf := by
  obtain ⟨l, hl, -, hlid, -⟩ := h.owns n u.index hn
  obtain ⟨hinv, hnext, hlogin⟩ := h.clients.removeClient hl
  have hthread : ∀ k, k ≠ n → (moved s n
      { s.shared with clients := s.shared.clients.removeClient u.index } t' evs).threads k =
        s.threads k := fun k hk => Function.update_of_ne hk _ _
  have hself : (moved s n
      { s.shared with clients := s.shared.clients.removeClient u.index } t' evs).threads n = t' :=
    Function.update_self _ _ _
  -- the slot that is freed belongs to this thread alone
  have hne : ∀ k j, k ≠ n → (s.threads k).slot = some j → j ≠ u.index := by
    rintro k j hkn hk rfl
    exact hkn (h.slot_inj k n _ hk hn)
  have hj : ∀ j, j ≠ u.index → (s.shared.clients.removeClient u.index).login j =
      s.shared.clients.login j := fun j hj => by rw [hlogin, Function.update_of_ne hj]
  have hback : ∀ j l', (s.shared.clients.removeClient u.index).login j = some l' →
      j ≠ u.index ∧ s.shared.clients.login j = some l' := by
    intro j l' hl'
    by_cases hji : j = u.index
    · rw [hji, hlogin, Function.update_self] at hl'
      cases hl'
    · exact ⟨hji, by rw [← hj j hji, hl']⟩
  have hold : ∀ m c nm, Event.login m c nm ∈ s.log ++ evs → Event.login m c nm ∈ s.log := by
    intro m c nm hm
    rcases List.mem_append.mp hm with hm | hm
    · exact hm
    · cases (hevs _ hm).1
  refine ⟨hinv, h.routes, ?_, ?_, ?_, ?_, ?_, ?_, ?_, ?_, ?_⟩
  · intro k j hk
    by_cases hkn : k = n
    · subst hkn
      rw [hself, ht] at hk
      cases hk
    · rw [hthread k hkn] at hk ⊢
      obtain ⟨lk, hlk, hname, hid, hearly⟩ := h.owns k j hk
      refine ⟨lk, by rw [hj j (hne k j hkn hk), hlk], hname, hid, fun hek => ?_⟩
      obtain ⟨hr, hf, hq⟩ := hearly hek
      refine ⟨hr, hf, fun e he hqe => ?_⟩
      rcases List.mem_append.mp he with he | he
      · exact hq e he hqe
      · exact (hevs e he).2 _ hqe
  · intro k k' j hk hk'
    have hkn : ∀ k, ((moved s n { s.shared with
        clients := s.shared.clients.removeClient u.index } t' evs).threads k).slot = some j →
          k ≠ n := by
      rintro k hk rfl
      rw [hself, ht] at hk
      cases hk
    rw [hthread k (hkn k hk)] at hk
    rw [hthread k' (hkn k' hk')] at hk'
    exact h.slot_inj k k' j hk hk'
  · intro j lj hlj
    obtain ⟨hji, hlj⟩ := hback j lj hlj
    obtain ⟨k, hk, hks⟩ := h.logged j lj hlj
    have hkn : k ≠ n := by
      rintro rfl
      rw [hn] at hks
      exact hji (Option.some.inj hks).symm
    exact ⟨k, List.mem_append_left _ hk, by rw [hthread k hkn, hks]⟩
  · intro k v hv
    refine List.mem_append_left _ ?_
    by_cases hkn : k = n
    · subst hkn
      rw [hself] at hv
      rw [hsession v hv]
      exact h.session_logged k u hu
    · rw [hthread k hkn] at hv
      exact h.session_logged k v hv
  -- a session goes on after its slot is free, and nobody gets its id again
  · intro k v hv hk j lj hlj
    obtain ⟨hji, hbefore⟩ := hback j lj hlj
    by_cases hkn : k = n
    · subst hkn
      rw [hself] at hv
      rw [hsession v hv]
      exact fun hid => hji (h.clients.login_inj hbefore hl (hid.trans (hlid u hu)))
    · rw [hthread k hkn] at hv hk
      exact h.gone k v hv hk j lj hbefore
  · exact fun k k' c nm nm' hk hk' => h.log_inj k k' c nm nm' (hold _ _ _ hk) (hold _ _ _ hk')
  · intro k c nm hk
    change c < (s.shared.clients.removeClient u.index).nextClientId
    rw [hnext]
    exact h.log_lt k c nm (hold _ _ _ hk)
  · have hnil : evs.filterMap Event.loginId = [] :=
      List.filterMap_eq_nil_iff.mpr fun e he => (hevs e he).1
    rw [List.filterMap_append, hnil, List.append_nil]
    exact h.log_sorted
  · intro e he r hr
    change r < (s.shared.clients.removeClient u.index).nextClientId
    rw [hnext]
    rcases List.mem_append.mp he with he | he
    · exact h.queued_lt e he r hr
    · exact absurd hr ((hevs e he).2 r)

theorem evolve (h : s.Wf) {t : Thread} (ht : s.threads n = t) (hclients : x'.clients.Inv)
    (hroutes : x'.routes.Inv) (hev : s.shared.clients.Evolves x'.clients) (hslot : t'.slot = t.slot)
    (hname : t'.name = t.name) (hsession : t'.session = t.session)
    (hearly : t'.early = true → t.early = true)
    (hevs : ∀ e ∈ evs, e.loginId = none ∧ ∀ r, e.Queues r → s.shared.clients.IsReady r) :
    (moved s n x' t' evs).Wf := by
  subst ht
  refine h.keep hclients hroutes hev.next hev.none ?_ hslot hname
    (fun u hu => .inl (hsession ▸ hu)) hearly hevs
  intro i l hl
  obtain ⟨l', hl', he⟩ := hev.some i l hl
  refine ⟨l', hl', he.id, he.username, fun _ hr => ⟨?_, he.failed hr⟩⟩
  by_contra hc
  rw [Bool.not_eq_false] at hc
  rw [he.ready hc] at hr
  cases hr

theorem quietEvent {e : Event} (hl : e.loginId = none) (hq : e.isDid = false) :
    ∀ e' ∈ [e], e'.loginId = none ∧ ∀ r, e'.Queues r → s.shared.clients.IsReady r := by
  intro e' he'
  cases List.mem_singleton.mp he'
  exact ⟨hl, fun r hr => absurd hr (Event.not_queues hq r)⟩

theorem didEvent (h : s.Wf) {c : ClientId} (libc : Libc) (o : Op) :
    ∀ e ∈ [Event.did c o (perform libc s.shared o).1],
      e.loginId = none ∧ ∀ r, e.Queues r → s.shared.clients.IsReady r := by
  intro e he
  cases List.mem_singleton.mp he
  refine ⟨rfl, ?_⟩
  rintro r ⟨c', type, payload, heq⟩
  obtain ⟨rfl, rfl, hr⟩ := Event.did.inj heq
  exact perform_queueFrame_ok h.clients (eq_of_heq hr)

theorem turn (h : s.Wf) {libc : Libc} {t : Thread} (ht : s.threads n = t)
    (hturn : Turn n libc s.shared t x' t' evs) : (moved s n x' t' evs).Wf := by
  have hnil : ∀ e ∈ ([] : List Event), e.loginId = none ∧
      ∀ r, e.Queues r → s.shared.clients.IsReady r := fun e he => by cases he
  cases hturn with
  | refuse =>
    exact h.evolve ht h.clients h.routes (.refl _) rfl rfl rfl (fun he => by cases he) hnil
  | login hadd => exact h.add (by rw [ht]; rfl) hadd
  | welcome i name =>
    obtain ⟨l, hl, hlname, -⟩ := h.owns n i (by rw [ht]; rfl)
    refine h.keep h.clients h.routes rfl (fun _ hi => hi) (fun i l hi => ⟨l, hi, rfl, rfl,
      fun _ hr => ⟨hr, rfl⟩⟩) (by rw [ht]; rfl) (by rw [ht]; rfl) ?_ (fun _ => by rw [ht]; rfl) hnil
    rintro u ⟨⟩
    refine .inr ⟨i, l, by rw [ht]; rfl, hl, ?_, ?_⟩
    · obtain ⟨ha, hid, -⟩ := login_some hl
      rw [← hid, getClientId, if_pos ha]
    · rw [ht] at hlname
      exact Option.some.inj hlname
  | quiet hq =>
    cases hq with
    | welcomed u => exact h.evolve ht h.clients h.routes (.refl _) rfl rfl rfl (fun _ => rfl) hnil
    | _ => exact h.evolve ht h.clients h.routes (.refl _) rfl rfl rfl (fun he => by cases he) hnil
  | @activate u clients hact =>
    obtain ⟨l, hl, -, -, hearly⟩ := h.owns n u.index (by rw [ht]; rfl)
    obtain ⟨-, hf, -⟩ := hearly (by rw [ht]; rfl)
    obtain ⟨m', hm', hinv, hnext, hlogin⟩ := h.clients.activateClient hl hf
    rw [hact] at hm'
    cases hm'
    refine h.keep hinv h.routes hnext ?_ ?_ (by rw [ht]; rfl) (by rw [ht]; rfl)
      (fun v hv => .inl (by rw [ht]; exact hv)) (fun he => by cases he) hnil
    -- only the slot of this thread changes
    · intro i hi
      have hne : i ≠ u.index := by
        rintro rfl
        rw [hl] at hi
        cases hi
      change clients.login i = none
      rw [hlogin, Function.update_of_ne hne, hi]
    · intro i li hi
      change ∃ l', clients.login i = some l' ∧ _
      rw [hlogin]
      by_cases hne : i = u.index
      · subst hne
        rw [hl] at hi
        cases hi
        refine ⟨_, Function.update_self _ _ _, rfl, rfl, fun hc => ?_⟩
        cases hc (by rw [ht]; rfl)
      · exact ⟨li, by rw [Function.update_of_ne hne, hi], rfl, rfl, fun _ hr => ⟨hr, rfl⟩⟩
  | inactive hact =>
    exact h.evolve ht h.clients h.routes (.refl _) rfl rfl rfl (fun he => by cases he) hnil
  | drain u ho htf =>
    obtain ⟨l, hl, -⟩ := h.owns n u.index (by rw [ht]; rfl)
    obtain ⟨hinv, hlogin⟩ := h.clients.drain (login_some hl).1
    exact h.evolve ht hinv h.routes (.of_login_eq rfl hlogin) rfl rfl rfl (fun he => by cases he)
      hnil
  | @take u w hpc =>
    obtain ⟨l, hl, -, hid, -⟩ := h.owns n u.index (by rw [ht]; rfl)
    rw [hid u (by rw [ht]; rfl)]
    obtain ⟨r, m', hm', hinv, hnext, hcases⟩ := h.clients.takeOutgoingFrame hl
    rw [hm']
    refine h.evolve ht hinv h.routes ?_ rfl rfl rfl (fun he => by cases he) hnil
    rcases hcases with ⟨-, rfl⟩ | ⟨-, ⟨-, -, hsame⟩ | ⟨f, rest, -, -, hu⟩⟩
    · exact .refl _
    · exact .of_login_eq hnext hsame
    · exact .update hnext hl hu ⟨rfl, rfl, fun h => h, fun _ => rfl, fun _ h => h⟩
  | write hk =>
    exact h.evolve ht h.clients h.routes (.refl _) rfl rfl rfl (fun he => by cases he)
      (quietEvent rfl rfl)
  | handle hpc =>
    exact h.evolve ht h.clients h.routes (.refl _) rfl rfl rfl (fun he => by cases he)
      (quietEvent rfl rfl)
  | op u w o k =>
    obtain ⟨hinv, hev⟩ := perform_clients h.clients libc o
    exact h.evolve ht hinv (perform_routes_inv h.routes libc o) hev rfl rfl rfl
      (fun he => by cases he) (h.didEvent libc o)
  | ret u w keep =>
    exact h.evolve ht h.clients h.routes (.refl _) rfl rfl rfl (fun he => by cases he)
      (quietEvent rfl rfl)
  | leave u =>
    exact h.remove (by rw [ht]; rfl) (by rw [ht]; rfl) rfl (fun v hv => by cases hv)
      fun e he => by cases he
  | abort u =>
    refine h.remove (by rw [ht]; rfl) (by rw [ht]; rfl) rfl (fun v hv => by cases hv; rfl) ?_
    intro e he
    cases List.mem_singleton.mp he
    exact ⟨rfl, Event.not_queues rfl⟩
  | abortOp u o k =>
    obtain ⟨hinv, hev⟩ := perform_clients h.clients libc o
    exact h.evolve ht hinv (perform_routes_inv h.routes libc o) hev rfl rfl rfl
      (fun he => by cases he) (h.didEvent libc o)
  | abortRet u =>
    exact h.evolve ht h.clients h.routes (.refl _) rfl rfl rfl (fun he => by cases he)
      (quietEvent rfl rfl)

end Server.Wf

theorem Server.wf_of_reach {ok : Server → Label → Prop} {s : Server} (hs : server.Reach ok s) :
    s.Wf := by
  refine hs.invariant Server.wf_init ?_
  rintro s ⟨n, env⟩ s' - - hwf hstep
  obtain ⟨x', t', evs, hturn, rfl⟩ := Server.step_turn hstep
  exact hwf.turn rfl hturn

open LinkedQueue

/-- What holds of the registry of a running server. -/
structure RegistryOk (s : Server) : Prop where
  username_unique : ∀ i j, (s.shared.clients.clients i).active = true →
    (s.shared.clients.clients j).active = true →
    (s.shared.clients.clients i).username = (s.shared.clients.clients j).username → i = j
  username_valid : ∀ i, (s.shared.clients.clients i).active = true →
    usernameIsValid (s.shared.clients.clients i).username = true
  id_unique : ∀ i j, (s.shared.clients.clients i).active = true →
    (s.shared.clients.clients j).active = true →
    (s.shared.clients.clients i).id = (s.shared.clients.clients j).id → i = j
  id_ne : ∀ i, (s.shared.clients.clients i).active = true → (s.shared.clients.clients i).id ≠ 0
  /-- The id of a slot is the one its own login was given, and no earlier login was given it. -/
  id_fresh : ∀ i, (s.shared.clients.clients i).active = true → ∃ n before after,
    s.log = before ++ .login n (s.shared.clients.clients i).id
      (s.shared.clients.clients i).username :: after ∧ (s.threads n).slot = some i ∧
    ∀ n' id' name', .login n' id' name' ∈ before → id' ≠ (s.shared.clients.clients i).id
  ready_active : ∀ i, (s.shared.clients.clients i).ready = true →
    (s.shared.clients.clients i).active = true
  key_active : ∀ i, (s.shared.clients.clients i).hasPublicKey = true →
    (s.shared.clients.clients i).active = true
  failed_not_ready : ∀ i, (s.shared.clients.clients i).outgoingFailed = true →
    (s.shared.clients.clients i).ready = false
  /-- The nodes from the head, with their addresses. -/
  queue : ∀ i, ∃ cells, Cells s.shared.clients.heap (s.shared.clients.clients i).outgoing.head
    cells ∧
    (s.shared.clients.clients i).outgoing.count = cells.length ∧ cells.length ≤ 128 ∧
    (s.shared.clients.clients i).outgoing.tail = (addrs cells).getLast? ∧
    ((s.shared.clients.clients i).outgoing.tail = none ↔ cells = [])
  inactive : ∀ i, (s.shared.clients.clients i).active = false →
    (s.shared.clients.clients i).id = 0 ∧ (s.shared.clients.clients i).username = [] ∧
    (s.shared.clients.clients i).hasPublicKey = false ∧
    (s.shared.clients.clients i).ready = false ∧
    (s.shared.clients.clients i).outgoingFailed = false ∧
    (s.shared.clients.clients i).outgoing = {}

/-- In every run of the server, whatever the interleaving, the registry is well formed. -/
theorem registry_ok_of_reachable {s : Server} (hs : server.Reachable s) : RegistryOk s := by
  have hwf := Server.wf_of_reach hs
  have h := hwf.clients
  have hactive : ∀ i, (s.shared.clients.clients i).active = false →
      s.shared.clients.clients i = {} := h.inactive_eq
  refine ⟨h.username_unique, h.username_valid, h.id_unique, h.id_ne, ?_, ?_, ?_,
    h.failed_not_ready, ?_, ?_⟩
  · intro i hi
    obtain ⟨n, hmem, hslot⟩ := hwf.logged i _ (login_of_active hi)
    obtain ⟨before, after, hlog⟩ := List.append_of_mem hmem
    refine ⟨n, before, after, hlog, hslot, fun n' id' name' hmem' => ?_⟩
    have hsorted := hwf.log_sorted
    rw [hlog, List.filterMap_append, List.pairwise_append] at hsorted
    refine Nat.ne_of_lt (hsorted.2.2 id' ?_ _ ?_)
    · exact List.mem_filterMap.mpr ⟨_, hmem', rfl⟩
    · exact List.mem_filterMap.mpr ⟨_, List.mem_cons_self, rfl⟩
  · intro i hi
    by_contra hn
    rw [hactive i (by simpa using hn)] at hi
    cases hi
  · intro i hi
    by_contra hn
    rw [hactive i (by simpa using hn)] at hi
    cases hi
  · intro i
    obtain ⟨cells, hcells, hlen⟩ := h.queues
    have hstores := hcells.stores i
    exact ⟨cells i, hstores.cells, hstores.count, hlen i, hstores.tail, hstores.tail_eq_none⟩
  · intro i hi
    rw [hactive i hi]
    exact ⟨rfl, rfl, rfl, rfl, rfl, rfl⟩

/-- A run in which one client logs in and is activated. -/
theorem registry_ok_after_login : ∃ s i, server.Reachable s ∧
    (s.shared.clients.clients i).ready = true ∧ RegistryOk s := by
  have hrun : (server.run server.init
      [(0, { username := ascii "bob" }), (0, {}), (0, {}), (0, {})]).map
        (fun s => (s.shared.clients.clients ⟨0, by decide⟩).ready) = some true := by
    decide +kernel
  obtain ⟨s, hs, hready⟩ := Option.map_eq_some_iff.mp hrun
  have hreach := Transition.System.Reachable.run .init hs
  exact ⟨s, _, hreach, hready, registry_ok_of_reachable hreach⟩

end CipherChat
