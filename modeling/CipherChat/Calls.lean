import CipherChat.Watch

/-!
# Calls in flight

The log determines where each client's thread stands in its current call
(`monitor`).  Every program in flight follows the discipline from there
(`Server.InCalls`), so a step is either an operation that the discipline allows, or
does nothing to the routes and the queues' owners (`Server.step_effect`).
-/

namespace CipherChat

open Resumption ClientManager

/-- The monitor of client `id` after an event. -/
def Monitor.event (id : ClientId) (m : Monitor) : Event → Monitor
  | .received c frame => if c = id then { call := .frame frame } else m
  | .abort c => if c = id then { call := .abort } else m
  | .did c o r => if c = id then m.next id o r else m
  | .returned c => if c = id then {} else m
  | .login _ _ _ | .wrote _ _ => m

def monitor (log : List Event) (id : ClientId) : Monitor := log.foldl (Monitor.event id) {}

@[simp] theorem monitor_concat (log : List Event) (e : Event) (id : ClientId) :
    monitor (log ++ [e]) id = (monitor log id).event id e := by
  rw [monitor, List.foldl_append]
  rfl

/-- Only its own call moves a client's monitor. -/
theorem monitor_did_of_ne {log : List Event} {c id : ClientId} {o : Op} {r : o.Resp} (h : c ≠ id) :
    monitor (log ++ [.did c o r]) id = monitor log id := by
  rw [monitor_concat, Monitor.event, if_neg h]

theorem monitor_did_self {log : List Event} {id : ClientId} {o : Op} {r : o.Resp} :
    monitor (log ++ [.did id o r]) id = (monitor log id).next id o r := by
  rw [monitor_concat, Monitor.event, if_pos rfl]

/-- The frame of the current call, and nothing received since. -/
theorem monitor_call {log : List Event} {c : ClientId} {frame : Bytes}
    (h : (monitor log c).call = .frame frame) : ∃ before after,
      log = before ++ .received c frame :: after ∧ ∀ frame', .received c frame' ∉ after := by
  induction log using List.reverseRecOn with
  | nil => cases h
  | append_singleton log e ih =>
    have hkeep : (monitor log c).call = .frame frame → (∀ frame', e ≠ .received c frame') →
        ∃ before after, log ++ [e] = before ++ .received c frame :: after ∧
          ∀ frame', .received c frame' ∉ after := by
      intro hm he
      obtain ⟨before, after, hlog, hafter⟩ := ih hm
      refine ⟨before, after ++ [e], by rw [hlog]; simp, fun frame' hmem => ?_⟩
      rcases List.mem_append.mp hmem with hmem | hmem
      · exact hafter frame' hmem
      · exact he frame' (List.mem_singleton.mp hmem).symm
    rw [monitor_concat] at h
    cases e with
    | received c' frame' =>
      rw [Monitor.event] at h
      split at h
      · next hc =>
        cases h
        subst hc
        exact ⟨log, [], rfl, fun _ hmem => by cases hmem⟩
      · next hc => exact hkeep h fun _ he => hc (Event.received.inj he).1
    | abort c' =>
      rw [Monitor.event] at h
      split at h
      · cases h
      · exact hkeep h fun _ he => by cases he
    | did c' o r =>
      rw [Monitor.event] at h
      split at h <;> exact hkeep h fun _ he => by cases he
    | returned c' =>
      rw [Monitor.event] at h
      split at h
      · cases h
      · exact hkeep h fun _ he => by cases he
    | login n c' name => exact hkeep h fun _ he => by cases he
    | wrote c' bytes => exact hkeep h fun _ he => by cases he

theorem monitor_since {P : Monitor → Prop} (hP : ∀ call, ¬P { call := call }) {log : List Event}
    {c : ClientId} (h : P (monitor log c)) : ∃ before o r after,
      log = before ++ .did c o r :: after ∧ ¬P (monitor before c) ∧
      P ((monitor before c).next c o r) ∧ .returned c ∉ after ∧
      ∀ frame, .received c frame ∉ after := by
  induction log using List.reverseRecOn with
  | nil => exact absurd h (hP .none)
  | append_singleton log e ih =>
    -- what goes on is witnessed by the same operation
    have hkeep : P (monitor log c) → e ≠ .returned c → (∀ frame, e ≠ .received c frame) →
        ∃ before o r after, log ++ [e] = before ++ .did c o r :: after ∧ ¬P (monitor before c) ∧
          P ((monitor before c).next c o r) ∧ .returned c ∉ after ∧
          ∀ frame, .received c frame ∉ after := by
      intro hp hret hrec
      obtain ⟨before, o, r, after, hlog, hno, hyes, hret', hrec'⟩ := ih hp
      refine ⟨before, o, r, after ++ [e], by rw [hlog]; simp, hno, hyes, fun hm => ?_,
        fun frame hm => ?_⟩
      · rcases List.mem_append.mp hm with hm | hm
        · exact hret' hm
        · exact hret (List.mem_singleton.mp hm).symm
      · rcases List.mem_append.mp hm with hm | hm
        · exact hrec' frame hm
        · exact hrec frame (List.mem_singleton.mp hm).symm
    rw [monitor_concat] at h
    cases e with
    | did c' o r =>
      rw [Monitor.event] at h
      split at h
      · next hc =>
        subst hc
        -- `P` begins here unless it held already
        by_cases hp : P (monitor log c')
        · exact hkeep hp (fun he => by cases he) fun _ he => by cases he
        · exact ⟨log, o, r, [], rfl, hp, h, List.not_mem_nil, fun _ => List.not_mem_nil⟩
      · exact hkeep h (fun he => by cases he) fun _ he => by cases he
    | login n c' name => exact hkeep h (fun he => by cases he) fun _ he => by cases he
    | wrote c' bytes => exact hkeep h (fun he => by cases he) fun _ he => by cases he
    | received c' frame =>
      rw [Monitor.event] at h
      split at h
      · exact absurd h (hP _)
      · next hc => exact hkeep h (fun he => by cases he) fun _ he => hc (Event.received.inj he).1
    | abort c' =>
      rw [Monitor.event] at h
      split at h
      · exact absurd h (hP _)
      · exact hkeep h (fun he => by cases he) fun _ he => by cases he
    | returned c' =>
      rw [Monitor.event] at h
      split at h
      · exact absurd h (hP _)
      · next hc => exact hkeep h (fun he => hc (Event.returned.inj he)) fun _ he => by cases he

/-- The last answer of `find_client_id` was given in this call. -/
theorem monitor_found {log : List Event} {c : ClientId} {name : Bytes} {r : ClientId}
    (h : (monitor log c).found = some (name, r)) : ∃ before after,
      log = before ++ .did c (.findClientId name) r :: after ∧
      ∀ frame, .received c frame ∉ after := by
  obtain ⟨before, o, a, after, hlog, hno, hyes, -, hrec⟩ :=
    monitor_since (P := fun m => m.found = some (name, r)) (fun _ hf => by cases hf) h
  cases o with
  | findClientId name' =>
    cases hyes
    exact ⟨before, after, hlog, hrec⟩
  | _ => exact absurd hyes hno

/-- The last answer of `get_client_public_key` was given in this call. -/
theorem monitor_key {log : List Event} {c r : ClientId} {key : Option Bytes}
    (h : (monitor log c).key = some (r, key)) : ∃ before after,
      log = before ++ .did c (.getClientPublicKey r) key :: after ∧
      ∀ frame, .received c frame ∉ after := by
  obtain ⟨before, o, a, after, hlog, hno, hyes, -, hrec⟩ :=
    monitor_since (P := fun m => m.key = some (r, key)) (fun _ hf => by cases hf) h
  cases o with
  | getClientPublicKey r' =>
    cases hyes
    exact ⟨before, after, hlog, hrec⟩
  | _ => exact absurd hyes hno

def duties : Watch Monitor where
  start call := { call }
  allow := Monitor.allow
  next := Monitor.next
  rest := Monitor.AtRest

theorem duties_kept : duties.Kept where
  frame _ _ frame hid := follows_handleClientFrame frame hid rfl rfl
  abort _ _ hid := follows_abortFileRoutesForClient hid rfl rfl

theorem duties_event (id : ClientId) (m : Monitor) (e : Event) :
    duties.event id m e = m.event id e := by
  cases e <;> rfl

theorem duties_state (log : List Event) (id : ClientId) : duties.state log id = monitor log id := by
  have hevent : duties.event id = Monitor.event id := by
    funext m e
    exact duties_event id m e
  rw [Watch.state, monitor, hevent]
  rfl

/-- What is left of a call follows the discipline. -/
def Thread.Follows (log : List Event) : Thread → Prop
  | .handling u _ p =>
    (discipline u.id u.username).follows (monitor log u.id) p fun m _ => m.AtRest
  | .aborting u p =>
    (discipline u.id u.username).follows (monitor log u.id) p fun m _ => m.AtRest
  | _ => True

theorem duties_follows {log : List Event} {t : Thread} (h : duties.Follows log t) :
    t.Follows log := by
  cases t with
  | handling u w p =>
    rw [Watch.Follows, duties_state] at h
    exact h
  | aborting u p =>
    rw [Watch.Follows, duties_state] at h
    exact h
  | _ => trivial

structure Server.InCalls (s : Server) : Prop where
  follows : ∀ n, (s.threads n).Follows s.log
  idle : ∀ c, (∀ n u, (s.threads n).inCall = some u → u.id ≠ c) → monitor s.log c = {}

theorem Server.InCalls.monitor_eq {s : Server} {n : ℕ} (h : s.InCalls) (hwf : s.Wf) {u : Session}
    (hn : (s.threads n).session = some u) (hc : (s.threads n).inCall = none) :
    monitor s.log u.id = {} := by
  refine h.idle u.id fun k v hk hid => ?_
  obtain rfl := hwf.session_inj (Thread.session_of_inCall hk) hn hid
  rw [hc] at hk
  cases hk

theorem Server.inCalls_of_reach {ok : Server → Label → Prop} {s : Server} (hs : server.Reach ok s) :
    s.InCalls := by
  have h := duties_kept.holds hs
  refine ⟨fun n => duties_follows (h.follows n), fun c hc => ?_⟩
  rw [← duties_state, h.idle c hc]
  rfl

theorem Turn.stays_left {n : ℕ} {libc : Libc} {x x' : Shared} {t t' : Thread} {evs : List Event}
    (h : Turn n libc x t x' t' evs) {u : Session} (hs : t.session = some u)
    (hslot : t.slot = none) :
    t'.session = some u ∧ t'.slot = none := by
  cases h with
  | abortOp => exact ⟨hs, rfl⟩
  | abortRet => exact ⟨hs, rfl⟩
  | quiet hq => cases hq <;> cases hslot
  | refuse => cases hs
  | login => cases hs
  | _ => cases hslot

/-- `abort_file_routes_for_client` is called once `remove_client` has returned. -/
theorem Turn.left {n : ℕ} {libc : Libc} {x x' : Shared} {t t' : Thread} {evs : List Event}
    (h : Turn n libc x t x' t' evs) {c : ClientId} (hc : .abort c ∈ evs) :
    ∃ u, t'.session = some u ∧ t'.slot = none ∧ u.id = c := by
  cases h with
  | abort u =>
    cases List.mem_singleton.mp hc
    exact ⟨u, rfl, rfl, rfl⟩
  | login => cases List.mem_singleton.mp hc
  | write => cases List.mem_singleton.mp hc
  | handle => cases List.mem_singleton.mp hc
  | op => cases List.mem_singleton.mp hc
  | ret => cases List.mem_singleton.mp hc
  | abortOp => cases List.mem_singleton.mp hc
  | abortRet => cases List.mem_singleton.mp hc
  | _ => cases hc

/-- The clients for which `abort_file_routes_for_client` was called are gone. -/
def Server.Left (s : Server) : Prop := ∀ c, .abort c ∈ s.log →
  ∃ n u, (s.threads n).session = some u ∧ (s.threads n).slot = none ∧ u.id = c

theorem Server.left_of_reach {ok : Server → Label → Prop} {s : Server} (hs : server.Reach ok s) :
    s.Left := by
  refine hs.invariant (fun c hc => by cases hc) ?_
  rintro s ⟨n, env⟩ s' - - hleft hstep c hc
  obtain ⟨x', t', evs, hturn, rfl⟩ := Server.step_turn hstep
  dsimp only at hc ⊢
  rcases List.mem_append.mp hc with hc | hc
  · obtain ⟨k, u, hu, hslot, hid⟩ := hleft c hc
    by_cases hk : k = n
    · subst hk
      obtain ⟨hu', hslot'⟩ := hturn.stays_left hu hslot
      exact ⟨k, u, by rwa [Function.update_self], by rwa [Function.update_self], hid⟩
    · exact ⟨k, u, by rwa [Function.update_of_ne hk], by rwa [Function.update_of_ne hk], hid⟩
  · obtain ⟨u, hu, hslot, hid⟩ := hturn.left hc
    exact ⟨n, u, by rwa [Function.update_self], by rwa [Function.update_self], hid⟩

/-- The converse of `Server.Left`. -/
theorem Server.gone_logged {ok : Server → Label → Prop} {s : Server} (hs : server.Reach ok s) :
    ∀ n u, (s.threads n).session = some u → (s.threads n).slot = none →
      .abort u.id ∈ s.log ∧ u.id ≠ invalidClientId := by
  refine hs.invariant (P := fun s => ∀ n u, (s.threads n).session = some u →
    (s.threads n).slot = none → .abort u.id ∈ s.log ∧ u.id ≠ invalidClientId)
    (fun n u hu => by cases hu) ?_
  rintro s ⟨n, env⟩ s' hr - hold hstep k u hu hslot
  obtain ⟨x', t', evs, hturn, rfl⟩ := Server.step_turn hstep
  dsimp only at hu hslot ⊢
  by_cases hk : k = n
  · subst hk
    rw [Function.update_self] at hu hslot
    have hwf := Server.wf_of_reach hr
    generalize ht : s.threads k = t at hturn
    have hsame : t.session = some u → t.slot = none →
        .abort u.id ∈ s.log ++ evs ∧ u.id ≠ invalidClientId := by
      intro hu hslot
      obtain ⟨hmem, hne⟩ := hold k u (ht ▸ hu) (ht ▸ hslot)
      exact ⟨List.mem_append_left _ hmem, hne⟩
    cases hturn with
    | abort v =>
      cases hu
      exact ⟨List.mem_append_right _ (List.mem_singleton.mpr rfl),
        hwf.session_id_ne (n := k) (by rw [ht]; rfl) (by rw [ht]; rfl)⟩
    | abortOp v o p =>
      cases hu
      exact hsame rfl rfl
    | abortRet v =>
      cases hu
      exact hsame rfl rfl
    | quiet hq => cases hq <;> cases hslot
    | refuse => cases hu
    | leave => cases hu
    | _ => cases hslot
  · rw [Function.update_of_ne hk] at hu hslot
    obtain ⟨hmem, hne⟩ := hold k u hu hslot
    exact ⟨List.mem_append_left _ hmem, hne⟩

theorem Server.Left.not_isReady {s : Server} (h : s.Left) (hwf : s.Wf) {c : ClientId}
    (hc : .abort c ∈ s.log) : ¬s.shared.clients.IsReady c := by
  rintro ⟨i, l, hl, -, hid⟩
  obtain ⟨n, u, hu, hslot, rfl⟩ := h c hc
  exact hwf.gone n u hu hslot i l hl hid

/-- The client whose call an event belongs to. -/
def Event.client : Event → Option ClientId
  | .received c _ | .abort c | .did c _ _ | .returned c => some c
  | .login _ _ _ | .wrote _ _ => none

theorem Monitor.event_of_client {e : Event} {c : ClientId} (h : e.client ≠ some c) (m : Monitor) :
    m.event c e = m := by
  cases e with
  | login n c' name => rfl
  | wrote c' bytes => rfl
  | _ => exact if_neg fun hc => h (congrArg some hc)

/-- The events of other clients do not move a client's monitor. -/
theorem monitor_append_of_ne {log evs : List Event} {c : ClientId}
    (h : ∀ e ∈ evs, e.client ≠ some c) : monitor (log ++ evs) c = monitor log c := by
  rw [monitor, List.foldl_append]
  induction evs with
  | nil => rfl
  | cons e evs ih =>
    rw [List.foldl_cons, Monitor.event_of_client (h e List.mem_cons_self)]
    exact ih fun e' he' => h e' (List.mem_cons_of_mem _ he')

/-- Nor any other watch of it. -/
theorem Watch.state_of_client {τ : Type} {W : Watch τ} {log : List Event} {e : Event}
    {c : ClientId} (h : e.client ≠ some c) : W.state (log ++ [e]) c = W.state log c := by
  rw [Watch.state_concat]
  cases e with
  | login n c' name => rfl
  | wrote c' bytes => rfl
  | _ => exact if_neg fun hc => h (congrArg some hc)

theorem monitor_append_of_none {log evs : List Event} (h : ∀ e ∈ evs, e.client = none)
    (c : ClientId) : monitor (log ++ evs) c = monitor log c :=
  monitor_append_of_ne fun e he hc => by
    rw [h e he] at hc
    cases hc

theorem monitor_of_ne {log : List Event} {e : Event} {c c' : ClientId} (he : e.client = some c)
    (hne : c ≠ c') : monitor (log ++ [e]) c' = monitor log c' := by
  rw [monitor_concat]
  exact Monitor.event_of_client (by rw [he]; exact fun heq => hne (Option.some.inj heq)) _

/-- What a step outside the handlers does to the registry: logins keep their id and key, one
becomes ready only if nothing was queued to it yet, and a new one has the next id. -/
structure Keeps (log : List Event) (m m' : ClientManager) : Prop where
  next : m.nextClientId ≤ m'.nextClientId
  logins : ∀ i l', m'.login i = some l' →
    (∃ l, m.login i = some l ∧ l'.id = l.id ∧ l'.key = l.key ∧
      (l'.ready = true → l.ready = true ∨ ∀ e ∈ log, ¬e.Queues l.id)) ∨
    l'.id = m.nextClientId ∧ l'.ready = false ∧ l'.key = none

section Keeps

variable {log : List Event} {m m' : ClientManager}

theorem Keeps.of_login (hn : m'.nextClientId = m.nextClientId)
    (hl : ∀ i l', m'.login i = some l' → ∃ l, m.login i = some l ∧ l'.id = l.id ∧ l'.key = l.key ∧
      l'.ready = l.ready) : Keeps log m m' := by
  refine ⟨hn.ge, fun i l' hi => .inl ?_⟩
  obtain ⟨l, hli, hid, hkey, hready⟩ := hl i l' hi
  exact ⟨l, hli, hid, hkey, fun hr => .inl (hready ▸ hr)⟩

theorem Keeps.of_login_eq (hn : m'.nextClientId = m.nextClientId) (hl : m'.login = m.login) :
    Keeps log m m' := .of_login hn fun _ l hi => ⟨l, hl ▸ hi, rfl, rfl, rfl⟩

theorem Keeps.refl (log : List Event) (m : ClientManager) : Keeps log m m := .of_login_eq rfl rfl

theorem Keeps.update {i : Fin maxClients} {l l' : Login} (hn : m'.nextClientId = m.nextClientId)
    (hl : m.login i = some l) (hu : m'.login = Function.update m.login i (some l'))
    (hid : l'.id = l.id) (hkey : l'.key = l.key) (hr : l'.ready = true → l.ready = true) :
    Keeps log m m' := by
  refine ⟨hn.ge, fun j l₀ hj => .inl ?_⟩
  rw [hu] at hj
  by_cases hji : j = i
  · rw [hji, Function.update_self] at hj
    cases hj
    exact ⟨l, hji ▸ hl, hid, hkey, fun h => .inl (hr h)⟩
  · rw [Function.update_of_ne hji] at hj
    exact ⟨l₀, hj, rfl, rfl, .inl⟩

theorem Keeps.isReady (h : Keeps log m m') {r : ClientId} {e : Event} (he : e ∈ log)
    (hq : e.Queues r) (hr : m'.IsReady r) : m.IsReady r := by
  obtain ⟨i, l', hl', hready, rfl⟩ := hr
  rcases h.logins i l' hl' with ⟨l, hl, hid, -, hback⟩ | ⟨-, hno, -⟩
  · rcases hback hready with hr | hno
    · exact ⟨i, l, hl, hr, hid.symm⟩
    · exact absurd (hid ▸ hq) (hno e he)
  · rw [hready] at hno
    cases hno

end Keeps

namespace Server.Wf

variable {s : Server} {n : ℕ}

theorem keeps_remove (h : s.Wf) {u : Session} (hn : (s.threads n).slot = some u.index) :
    Keeps s.log s.shared.clients (s.shared.clients.removeClient u.index) := by
  obtain ⟨l, hl, -⟩ := h.owns n u.index hn
  obtain ⟨-, hnext, hlogin⟩ := h.clients.removeClient hl
  refine .of_login hnext fun i l' hi => ?_
  rw [hlogin] at hi
  by_cases hiu : i = u.index
  · rw [hiu, Function.update_self] at hi
    cases hi
  · rw [Function.update_of_ne hiu] at hi
    exact ⟨l', hi, rfl, rfl, rfl⟩

theorem keeps_add (h : s.Wf) {name : Bytes} {eventfd : Option Errno} {i : Fin maxClients}
    {clients : ClientManager} (ha : s.shared.clients.addClient name eventfd = (.ok i, clients)) :
    Keeps s.log s.shared.clients clients := by
  obtain ⟨-, hnext, -, -, hlogin⟩ := h.clients.addClient ha
  refine ⟨by rw [hnext]; exact Nat.le_succ _, fun j l' hj => ?_⟩
  rw [hlogin] at hj
  by_cases hji : j = i
  · rw [hji, Function.update_self] at hj
    cases hj
    exact .inr ⟨rfl, rfl, rfl⟩
  · rw [Function.update_of_ne hji] at hj
    exact .inl ⟨l', hj, rfl, rfl, .inl⟩

theorem keeps_activate (h : s.Wf) {u : Session} {clients : ClientManager}
    (hn : s.threads n = .activating u)
    (ha : s.shared.clients.activateClient u.index = (.ok (), clients)) :
    Keeps s.log s.shared.clients clients := by
  obtain ⟨l, hl, -, -, hearly⟩ := h.owns n u.index (by rw [hn]; rfl)
  obtain ⟨-, hf, hnone⟩ := hearly (by rw [hn]; rfl)
  obtain ⟨m', hm', -, hnext, hlogin⟩ := h.clients.activateClient hl hf
  rw [ha] at hm'
  cases hm'
  refine ⟨hnext.ge, fun j l' hj => .inl ?_⟩
  rw [hlogin] at hj
  by_cases hju : j = u.index
  · rw [hju, Function.update_self] at hj
    cases hj
    exact ⟨l, hju ▸ hl, rfl, rfl, fun _ => .inr hnone⟩
  · rw [Function.update_of_ne hju] at hj
    exact ⟨l', hj, rfl, rfl, .inl⟩

theorem keeps_take (h : s.Wf) {u : Session} {w : Worker} (hn : s.threads n = .working u w) :
    Keeps s.log s.shared.clients (s.shared.clients.takeOutgoingFrame u.id).2 := by
  obtain ⟨l, hl, -, hid, -⟩ := h.owns n u.index (by rw [hn]; rfl)
  rw [hid u (by rw [hn]; rfl)]
  obtain ⟨r, m', hm', -, hnext, hcases⟩ := h.clients.takeOutgoingFrame hl
  rw [hm']
  rcases hcases with ⟨-, rfl⟩ | ⟨-, ⟨-, -, hsame⟩ | ⟨f, rest, -, -, hu⟩⟩
  · exact .refl _ _
  · exact .of_login_eq hnext hsame
  · exact .update hnext hl hu rfl rfl id

end Server.Wf

/-- What a step does to the shared state and the log. -/
inductive Effect (libc : Libc) (x : Shared) (log : List Event) : Shared → List Event → Prop
  | pass {x' : Shared} {evs : List Event} (hr : x'.routes = x.routes)
      (hc : Keeps log x.clients x'.clients) (hevs : ∀ e ∈ evs, e.client = none) :
        Effect libc x log x' evs
  | received (u : Session) (frame : Bytes) (hm : monitor log u.id = {})
      (hl : ∃ n, .login n u.id u.username ∈ log) (hleft : .abort u.id ∉ log) :
      Effect libc x log x [.received u.id frame]
  | abort {x' : Shared} (u : Session) (hr : x'.routes = x.routes)
      (hc : Keeps log x.clients x'.clients) (hm : monitor log u.id = {}) :
      Effect libc x log x' [.abort u.id]
  | did (u : Session) (o : Op) (hl : ∃ n, .login n u.id u.username ∈ log)
      (ha : (monitor log u.id).allow u.id u.username o) :
      Effect libc x log (perform libc x o).2 [.did u.id o (perform libc x o).1]
  | returned (u : Session) (hm : (monitor log u.id).AtRest) :
      Effect libc x log x [.returned u.id]

theorem Server.turn_effect {s : Server} (hwf : s.Wf) (hcalls : s.InCalls) (hleft : s.Left) {n : ℕ}
    {libc : Libc} {x' : Shared} {t t' : Thread} {evs : List Event} (ht : s.threads n = t)
    (hturn : Turn n libc s.shared t x' t' evs) : Effect libc s.shared s.log x' evs := by
  have hnil : ∀ e ∈ ([] : List Event), e.client = none := fun e he => by cases he
  have hfollows := hcalls.follows n
  rw [ht] at hfollows
  cases hturn with
  | refuse => exact .pass rfl (.refl _ _) hnil
  | login hadd => exact .pass rfl (hwf.keeps_add hadd) (by simp [Event.client])
  | welcome i name => exact .pass rfl (.refl _ _) hnil
  | quiet hq => exact .pass rfl (.refl _ _) hnil
  | activate hact => exact .pass rfl (hwf.keeps_activate ht hact) hnil
  | inactive hact => exact .pass rfl (.refl _ _) hnil
  | drain u ho htf =>
    obtain ⟨l, hl, -⟩ := hwf.owns n u.index (by rw [ht]; rfl)
    exact .pass rfl (.of_login_eq rfl (hwf.clients.drain (login_some hl).1).2) hnil
  | take hpc => exact .pass rfl (hwf.keeps_take ht) hnil
  | write hk => exact .pass rfl (.refl _ _) (by simp [Event.client])
  | @handle u w frame hpc =>
    refine .received u frame (hcalls.monitor_eq (n := n) hwf (by rw [ht]; rfl) (by rw [ht]; rfl))
      ⟨n, hwf.session_logged n u (by rw [ht]; rfl)⟩ fun habort => ?_
    obtain ⟨k, v, hv, hslot, hid⟩ := hleft u.id habort
    have hn : (s.threads n).session = some u := by rw [ht]; rfl
    obtain rfl := hwf.session_inj hv hn hid
    rw [ht] at hslot
    cases hslot
  | op u w o k =>
    rw [Thread.Follows, Discipline.follows_op] at hfollows
    exact .did u o ⟨n, hwf.session_logged n u (by rw [ht]; rfl)⟩ hfollows.1
  | ret u w keep =>
    rw [Thread.Follows, Discipline.follows_ret] at hfollows
    exact .returned u hfollows
  | leave u => exact .pass rfl (hwf.keeps_remove (n := n) (by rw [ht]; rfl)) hnil
  | abort u =>
    exact .abort u rfl (hwf.keeps_remove (n := n) (by rw [ht]; rfl)) (hcalls.monitor_eq (n := n) hwf
      (by rw [ht]; rfl) (by rw [ht]; rfl))
  | abortOp u o k =>
    rw [Thread.Follows, Discipline.follows_op] at hfollows
    exact .did u o ⟨n, hwf.session_logged n u (by rw [ht]; rfl)⟩ hfollows.1
  | abortRet u =>
    rw [Thread.Follows, Discipline.follows_ret] at hfollows
    exact .returned u hfollows

theorem Server.step_effect {ok : Server → Label → Prop} {s s' : Server} {l : Label}
    (hs : server.Reach ok s) (h : server.step s l = some s') :
    ∃ evs, s'.log = s.log ++ evs ∧ Effect l.2.libc s.shared s.log s'.shared evs := by
  obtain ⟨x', t', evs, hturn, rfl⟩ := Server.step_turn h
  exact ⟨evs, rfl, Server.turn_effect (Server.wf_of_reach hs) (Server.inCalls_of_reach hs)
    (Server.left_of_reach hs) rfl hturn⟩

theorem Server.steps_log {s t : Server} (hs : server.Reachable s) (h : server.Steps s t) :
    ∃ evs, t.log = s.log ++ evs := by
  refine h.invariant (P := fun t => ∃ evs, t.log = s.log ++ evs) ?_ ⟨[], by simp⟩
  rintro t l t' hst ⟨evs, hlog⟩ hstep
  obtain ⟨evs', hlog', -⟩ := Server.step_effect (hs.steps hst) hstep
  exact ⟨evs ++ evs', by rw [hlog', hlog, List.append_assoc]⟩

/-- The rule for what the shared state and the log keep in step with each other. -/
theorem Server.effect_invariant {ok : Server → Label → Prop} {P : Shared → List Event → Prop}
    (h0 : P server.init.shared [])
    (hstep : ∀ (s : Server) l x' evs, server.Reach ok s → ok s l →
      Effect l.2.libc s.shared s.log x' evs → P s.shared s.log → P x' (s.log ++ evs))
    {s : Server} (hs : server.Reach ok s) : P s.shared s.log := by
  refine hs.invariant (P := fun s => P s.shared s.log) h0 ?_
  intro s l s' hr hok hp h
  obtain ⟨evs, hlog, heff⟩ := Server.step_effect hr h
  rw [hlog]
  exact hstep s l s'.shared evs hr hok heff hp

theorem split_append {log evs before after : List Event} {e : Event}
    (h : log ++ evs = before ++ e :: after) :
    (∃ after', log = before ++ e :: after' ∧ after = after' ++ evs) ∨
      ∃ mid, before = log ++ mid ∧ evs = mid ++ e :: after := by
  rcases List.append_eq_append_iff.mp h with ⟨mid, hbefore, hevs⟩ | ⟨rest, hlog, hafter⟩
  · exact .inr ⟨mid, hbefore, hevs⟩
  · cases rest with
    | nil => exact .inr ⟨[], by simpa using hlog.symm, by simpa using hafter.symm⟩
    | cons d rest =>
      obtain ⟨rfl, rfl⟩ := List.cons.inj hafter
      exact .inl ⟨rest, hlog, rfl⟩

theorem Server.did_reach {ok : Server → Label → Prop} {s : Server} (hs : server.Reach ok s)
    {before after : List Event} {c : ClientId} {o : Op} {r : o.Resp}
    (h : s.log = before ++ .did c o r :: after) :
    ∃ s₀ l name, server.Reach ok s₀ ∧ ok s₀ l ∧ s₀.log = before ∧ server.Steps s₀ s ∧
      (∃ n, .login n c name ∈ before) ∧ (monitor before c).allow c name o ∧
      r = (perform l.2.libc s₀.shared o).1 := by
  revert before after c o r
  refine hs.invariant (P := fun s => ∀ {before after : List Event} {c : ClientId} {o : Op}
    {r : o.Resp}, s.log = before ++ .did c o r :: after →
    ∃ s₀ l name, server.Reach ok s₀ ∧ ok s₀ l ∧ s₀.log = before ∧ server.Steps s₀ s ∧
      (∃ n, .login n c name ∈ before) ∧ (monitor before c).allow c name o ∧
      r = (perform l.2.libc s₀.shared o).1) ?_ ?_
  · intro before after c o r h
    cases (List.append_eq_nil_iff.mp h.symm).2
  · intro s l s' hr hok hold hstep before after c o r h
    obtain ⟨evs, hlog, heff⟩ := Server.step_effect hr hstep
    rw [hlog] at h
    rcases split_append h with ⟨after', h, -⟩ | ⟨mid, rfl, hevs⟩
    · obtain ⟨s₀, l₀, name, hr₀, hok₀, hlog₀, hst, hrest⟩ := hold h
      exact ⟨s₀, l₀, name, hr₀, hok₀, hlog₀, hst.tail hstep, hrest⟩
    · have hsingle : ∀ {e : Event}, evs = [e] → mid = [] ∧ .did c o r = e := by
        intro e he
        rw [he] at hevs
        rcases List.append_eq_singleton_iff.mp hevs.symm with ⟨hm, hd⟩ | ⟨-, hd⟩
        · exact ⟨hm, (List.cons.inj hd).1⟩
        · cases hd
      generalize s'.shared = x' at heff
      cases heff with
      | pass _ _ hnone => cases hnone (.did c o r) (by rw [hevs]; simp)
      | received => cases (hsingle rfl).2
      | abort => cases (hsingle rfl).2
      | returned => cases (hsingle rfl).2
      | did u o' hl ha =>
        obtain ⟨rfl, heq⟩ := hsingle rfl
        obtain ⟨rfl, rfl, hr'⟩ := Event.did.inj heq
        rw [List.append_nil]
        exact ⟨s, l, u.username, hr, hok, rfl, .tail .refl hstep, hl, ha, eq_of_heq hr'⟩

end CipherChat
