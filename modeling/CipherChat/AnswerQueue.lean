import CipherChat.Answers
import CipherChat.Overflow

/-!
# Answers are queued

A client whose thread is in its loop is ready until a full queue marks it.  So an answer to
its request is queued, unless there is no memory, no eventfd or no room for it.
-/

namespace CipherChat

open Resumption ClientManager

def Thread.activated : Thread → Bool
  | .starting _ | .working _ _ | .handling _ _ _ => true
  | _ => false

def Login.Stands (l : Login) : Prop := l.ready = true ∨ l.failed = true

namespace ClientManager

def Stays (m m' : ClientManager) : Prop :=
  ∀ i l', m'.login i = some l' → ∃ l, m.login i = some l ∧ (l.Stands → l'.Stands)

variable {m m' : ClientManager} {i : Fin maxClients} {l l' : Login}

theorem Stays.of_login_eq (h : m'.login = m.login) : m.Stays m' :=
  fun i l' hl' => ⟨l', by rw [← h, hl'], id⟩

theorem Stays.update (hi : m.login i = some l)
    (hu : m'.login = Function.update m.login i (some l')) (hl : l.Stands → l'.Stands) :
    m.Stays m' := by
  intro j lj hj
  rw [hu] at hj
  by_cases hji : j = i
  · subst hji
    rw [Function.update_self] at hj
    obtain rfl := Option.some.inj hj
    exact ⟨l, hi, hl⟩
  · rw [Function.update_of_ne hji] at hj
    exact ⟨lj, hj, id⟩

theorem Inv.stays_removeClient (h : Inv m) (hl : m.login i = some l) :
    m.Stays (m.removeClient i) := by
  intro j l' hj
  rw [(h.removeClient hl).2.2] at hj
  by_cases hji : j = i
  · rw [hji, Function.update_self] at hj
    cases hj
  · rw [Function.update_of_ne hji] at hj
    exact ⟨l', hj, id⟩

theorem Inv.stays_takeOutgoingFrame (h : Inv m) (hl : m.login i = some l) :
    m.Stays (m.takeOutgoingFrame l.id).2 := by
  obtain ⟨r, m', he, -, -, ⟨-, rfl⟩ | ⟨-, ⟨-, -, hsame⟩ | ⟨f, rest, -, -, hu⟩⟩⟩ :=
    h.takeOutgoingFrame hl
  · rw [he]
    exact .of_login_eq rfl
  · rw [he]
    exact .of_login_eq hsame
  · rw [he]
    exact .update hl hu id

end ClientManager

theorem perform_stays {x : Shared} (h : x.clients.Inv) (libc : Libc) (o : Op) :
    x.clients.Stays (perform libc x o).2.clients := by
  cases o with
  | queueFrame c type payload =>
    simp only [perform, Shared.onClients]
    rcases h.queueFrame libc.address libc.eventfdWrite c type payload with
      ⟨e, he⟩ | ⟨i, l, r, m', he, hl, -, -, -, -, ⟨-, hu⟩ | ⟨-, hu⟩⟩
    · rw [he]
      exact .of_login_eq rfl
    · rw [he]
      exact .update hl hu id
    · rw [he]
      exact .update hl hu fun _ => .inr rfl
  | registerClientPublicKey c key =>
    simp only [perform, Shared.onClients]
    rcases h.registerClientPublicKey c key with ⟨e, he⟩ | ⟨i, l, m', he, hl, -, -, -, -, -, hu⟩
    · rw [he]
      exact .of_login_eq rfl
    · rw [he]
      exact .update hl hu id
  | _ =>
    simp only [perform, Shared.onRoutes]
    exact .of_login_eq rfl

theorem Server.Wf.turn_stays {s : Server} (hwf : s.Wf) {n : ℕ} {libc : Libc} {x' : Shared}
    {t t' : Thread} {evs : List Event} (ht : s.threads n = t)
    (hturn : Turn n libc s.shared t x' t' evs) :
    (s.shared.clients.Stays x'.clients ∧ (t'.activated = true →
      t.activated = true ∧ t'.slot = t.slot ∨
        ∀ i l', t'.slot = some i → x'.clients.login i = some l' → l'.ready = true)) ∨
    t'.activated = false ∧ ∃ i, s.shared.clients.login i = none ∧
      ∀ j, j ≠ i → x'.clients.login j = s.shared.clients.login j := by
  have hlogin : ∀ u : Session, t.slot = some u.index → t.session = some u →
      ∃ l, s.shared.clients.login u.index = some l ∧ u.id = l.id := by
    intro u hslot hsession
    obtain ⟨l, hl, -, hid, -⟩ := hwf.owns n u.index (by rw [ht, hslot])
    exact ⟨l, hl, hid u (by rw [ht, hsession])⟩
  have hsame : s.shared.clients.Stays s.shared.clients := .of_login_eq rfl
  cases hturn with
  | refuse => exact .inl ⟨hsame, fun h => by cases h⟩
  -- only a login may put another client into a slot, and then a free one
  | @login i name clients hadd =>
    obtain ⟨-, -, hfree, -, hu⟩ := hwf.clients.addClient hadd
    refine .inr ⟨rfl, i, hfree, fun j hj => ?_⟩
    change clients.login j = _
    rw [hu, Function.update_of_ne hj]
  | welcome i name => exact .inl ⟨hsame, fun h => by cases h⟩
  | quiet hq =>
    refine .inl ⟨hsame, fun h => ?_⟩
    cases hq with
    | start u => exact .inl ⟨rfl, rfl⟩
    | work u ho htakes => exact .inl ⟨rfl, rfl⟩
    | _ => cases h
  | @activate u clients hact =>
    obtain ⟨l, hl, -, -, hearly⟩ := hwf.owns n u.index (by rw [ht]; rfl)
    obtain ⟨-, hfailed, -⟩ := hearly (by rw [ht]; rfl)
    obtain ⟨m', hm', -, -, hu⟩ := hwf.clients.activateClient hl hfailed
    rw [hact] at hm'
    cases hm'
    -- the activated slot is the one case in which a thread becomes active
    refine .inl ⟨.update hl hu fun _ => .inl rfl, fun _ => .inr fun i l' hi hl' => ?_⟩
    obtain rfl := Option.some.inj hi
    change clients.login u.index = some l' at hl'
    rw [hu, Function.update_self] at hl'
    obtain rfl := Option.some.inj hl'
    rfl
  | inactive hact => exact .inl ⟨hsame, fun h => by cases h⟩
  | drain u ho htakes =>
    obtain ⟨l, hl, -⟩ := hlogin u rfl rfl
    refine .inl ⟨.of_login_eq (hwf.clients.drain (login_some hl).1).2, fun _ => .inl ⟨rfl, rfl⟩⟩
  | @take u w hpc =>
    obtain ⟨l, hl, hid⟩ := hlogin u rfl rfl
    rw [hid]
    exact .inl ⟨hwf.clients.stays_takeOutgoingFrame hl, fun _ => .inl ⟨rfl, rfl⟩⟩
  | write hk => exact .inl ⟨hsame, fun _ => .inl ⟨rfl, rfl⟩⟩
  | handle hpc => exact .inl ⟨hsame, fun _ => .inl ⟨rfl, rfl⟩⟩
  | op u w o k => exact .inl ⟨perform_stays hwf.clients libc o, fun _ => .inl ⟨rfl, rfl⟩⟩
  | ret u w keep => exact .inl ⟨hsame, fun _ => .inl ⟨rfl, rfl⟩⟩
  | leave u =>
    obtain ⟨l, hl, -⟩ := hlogin u rfl rfl
    exact .inl ⟨hwf.clients.stays_removeClient hl, fun h => by cases h⟩
  | abort u =>
    obtain ⟨l, hl, -⟩ := hlogin u rfl rfl
    exact .inl ⟨hwf.clients.stays_removeClient hl, fun h => by cases h⟩
  | abortOp u o k => exact .inl ⟨perform_stays hwf.clients libc o, fun h => by cases h⟩
  | abortRet u => exact .inl ⟨hsame, fun h => by cases h⟩

theorem Server.stands_of_reach {ok : Server → Label → Prop} {s : Server} (hs : server.Reach ok s)
    {n : ℕ} {i : Fin maxClients} {l : Login} (hn : (s.threads n).activated = true)
    (hslot : (s.threads n).slot = some i) (hl : s.shared.clients.login i = some l) : l.Stands := by
  revert n i l
  refine hs.invariant (P := fun s => ∀ {n : ℕ} {i : Fin maxClients} {l : Login},
    (s.threads n).activated = true → (s.threads n).slot = some i →
    s.shared.clients.login i = some l → l.Stands) (fun h => by cases h) ?_
  rintro s ⟨k, env⟩ s' hr - hold hstep n i l' hn hslot hl'
  have hwf := Server.wf_of_reach hr
  obtain ⟨x', t', evs, hturn, rfl⟩ := Server.step_turn hstep
  dsimp only at hn hslot hl'
  have hturned := hwf.turn_stays rfl hturn
  by_cases hnk : n = k
  · subst hnk
    rw [Function.update_self] at hn hslot
    rcases hturned with ⟨hstays, hstart⟩ | ⟨hquiet, -⟩
    · rcases hstart hn with ⟨hbefore, hsame⟩ | hready
      · obtain ⟨l, hl, himp⟩ := hstays i l' hl'
        exact himp (hold hbefore (hsame ▸ hslot) hl)
      · exact .inl (hready i l' hslot hl')
    · rw [hn] at hquiet
      cases hquiet
  · rw [Function.update_of_ne hnk] at hn hslot
    rcases hturned with ⟨hstays, -⟩ | ⟨-, j, hfree, hothers⟩
    · obtain ⟨l, hl, himp⟩ := hstays i l' hl'
      exact himp (hold hn hslot hl)
    · obtain ⟨l, hl, -⟩ := hwf.owns n i hslot
      have hij : i ≠ j := by
        rintro rfl
        rw [hfree] at hl
        cases hl
      rw [hothers i hij] at hl'
      exact hold hn hslot hl'

theorem Server.answer_fits {ok : Server → Label → Prop} {s s' : Server} {l : Label}
    (hs : server.Reach ok s) (hstep : server.step s l = some s') {c d : ClientId} {payload : Bytes}
    {r : Except Errno Unit} (hlog : s'.log = s.log ++ [.did c (.queueFrame d .peerPk payload) r]) :
    payload.length ≤ frameMaxSize - 1 := by
  have c1 := frameMaxSize_eq
  have c2 := usernameSize_eq
  have c3 : chatPublicKeySize = 32 := rfl
  obtain ⟨⟨username, -, name, hasked, rfl⟩, -⟩ := answering_kept.allowed hs hstep hlog
  obtain ⟨-, -, hname, -⟩ := copyPeerName_name (answering_asked hasked)
  have hkey : ((answering.state s.log c).key.getD []).length ≤ 32 := by
    cases hk : (answering.state s.log c).key with
    | none => exact Nat.zero_le _
    | some key => exact (Server.answering_key hs hk).le
  simp only [List.length_append, List.length_cons]
  omega

theorem Server.answer_queued {ok : Server → Label → Prop} {s s' : Server} {n : ℕ} {env : Env}
    (hs : server.Reach ok s) (hstep : server.step s (n, env) = some s') {u : Session}
    {payload : Bytes} {r : Except Errno Unit}
    (hlog : s'.log = s.log ++ [.did u.id (.queueFrame u.id .peerPk payload) r])
    (hn : (s.threads n).activated = true) (hsession : (s.threads n).session = some u)
    (hslot : (s.threads n).slot = some u.index)
    (hmemory : (malloc s.shared.clients.heap env.libc.address).isSome = true)
    (hwake : env.libc.eventfdWrite = none) (hroom : ¬Overflows s (n, env) u.index)
    (hfailed : ¬s.shared.clients.Failed u.index) : r = .ok () := by
  have hinv := (Server.wf_of_reach hs).clients
  have hfits := Server.answer_fits hs hstep hlog
  obtain ⟨-, hr, hshared⟩ := answering_kept.allowed hs hstep hlog
  have hunmarked : ¬s'.shared.clients.Failed u.index := fun h =>
    hroom ((Server.failed_step hs hstep hfailed).mp h)
  rw [hshared] at hunmarked
  -- the client is still ready afterwards
  obtain ⟨l, hl, -, hid, -⟩ := (Server.wf_of_reach hs).owns n u.index hslot
  obtain ⟨l', hl', hevolves⟩ := (perform_clients hinv env.libc
    (.queueFrame u.id .peerPk payload)).2.some u.index l hl
  have hready : l'.ready = true := by
    obtain ⟨l₀, hl₀, himp⟩ := perform_stays hinv env.libc (.queueFrame u.id .peerPk payload) _ _ hl'
    refine (himp (Server.stands_of_reach hs hn hslot hl₀)).resolve_right fun h => hunmarked ?_
    obtain ⟨-, -, -, -, hmark, -⟩ := login_some hl'
    exact hmark.trans h
  have hisReady : (perform env.libc s.shared (.queueFrame u.id .peerPk payload)).2.clients.IsReady
      u.id := ⟨u.index, l', hl', hready, hevolves.id.trans (hid u hsession).symm⟩
  obtain ⟨a, ha⟩ := Option.isSome_iff_exists.mp hmemory
  obtain ⟨haddress, hfree⟩ := Option.filter_eq_some_iff.mp ha
  cases r with
  | ok _ => rfl
  | error e =>
    simp only [perform, Shared.onClients] at hr hisReady
    rw [haddress, hwake] at hr hisReady
    exact absurd hisReady (hinv.queueFrame_error (by simpa using hfree) hfits
      (Prod.ext hr.symm rfl))

end CipherChat
