import CipherChat.Stream

/-!
# Sender authenticity

A key stays with the connection that first registered it, and every encrypted message
is forwarded under the name and the key of the connection that sent it.
-/

namespace CipherChat

open ClientManager

/-- The key that the thread of `c` has registered for `c`. -/
def Event.registered (c : ClientId) : Event → Option Bytes
  | .did c' (.registerClientPublicKey r key) (.ok ()) => if c' = c ∧ r = c then some key else none
  | _ => none

/-- The first key that `c` registered. -/
def registeredKey (log : List Event) (c : ClientId) : Option Bytes :=
  log.findSome? (Event.registered c)

theorem registeredKey_append {log : List Event} {c : ClientId} {key : Bytes}
    (h : registeredKey log c = some key) (evs : List Event) :
    registeredKey (log ++ evs) c = some key := by
  rw [registeredKey, List.findSome?_append]
  rw [registeredKey] at h
  rw [h, Option.some_or]

theorem registeredKey_append_of_none {log evs : List Event} {c : ClientId}
    (h : ∀ e ∈ evs, e.registered c = none) :
      registeredKey (log ++ evs) c = registeredKey log c := by
  rw [registeredKey, List.findSome?_append, List.findSome?_eq_none_iff.mpr h, Option.or_none,
    registeredKey]

/-- The keys in the registry are the ones registered first, and so are the answers. -/
structure Keys (x : Shared) (log : List Event) : Prop where
  logins : ∀ i l, x.clients.login i = some l → l.key = registeredKey log l.id
  known : ∀ c key, registeredKey log c = some key →
    c ≠ invalidClientId ∧ c < x.clients.nextClientId
  found : ∀ c r key, .did c (.getClientPublicKey r) (some key) ∈ log →
    registeredKey log r = some key
  same : ∀ c key, .did c (.registerClientPublicKey c key) (.ok ()) ∈ log →
    registeredKey log c = some key

namespace Keys

variable {x x' : Shared} {log evs : List Event}

theorem init : Keys server.init.shared [] where
  logins i l h := by cases h
  known c key h := by cases h
  found c r key h := by cases h
  same c key h := by cases h

theorem keep (h : Keys x log) (hc : Keeps log x.clients x'.clients)
    (hreg : ∀ e ∈ evs, ∀ c, e.registered c = none)
    (hget : ∀ c r key, .did c (.getClientPublicKey r) (some key) ∉ evs) : Keys x' (log ++ evs) := by
  have hkey : ∀ c, registeredKey (log ++ evs) c = registeredKey log c :=
    fun c => registeredKey_append_of_none fun e he => hreg e he c
  refine ⟨?_, ?_, ?_, ?_⟩
  · intro i l' hl'
    rw [hkey]
    rcases hc.logins i l' hl' with ⟨l, hl, hid, hk, -⟩ | ⟨hid, -, hk⟩
    · rw [hid, hk]
      exact h.logins i l hl
    · rw [hk]
      cases hr : registeredKey log l'.id with
      | none => rfl
      | some key =>
        have hlt := (h.known _ key hr).2
        rw [hid] at hlt
        exact absurd hlt (lt_irrefl _)
  · intro c key hr
    rw [hkey] at hr
    exact (h.known c key hr).imp_right fun hlt => hlt.trans_le hc.next
  · intro c r key hmem
    rw [hkey]
    exact h.found c r key ((List.mem_append.mp hmem).resolve_right (hget c r key))
  · intro c key hmem
    rw [hkey]
    refine h.same c key ((List.mem_append.mp hmem).resolve_right fun hmem => ?_)
    have := hreg _ hmem c
    rw [Event.registered, if_pos ⟨rfl, rfl⟩] at this
    cases this

theorem get (h : Keys x log) (c r : ClientId) : Keys x
    (log ++ [.did c (.getClientPublicKey r) (x.clients.getClientPublicKey r)]) := by
  have hkey : ∀ c', registeredKey (log ++
      [.did c (.getClientPublicKey r) (x.clients.getClientPublicKey r)]) c' =
        registeredKey log c' :=
    fun c' => registeredKey_append_of_none fun e he => by rw [List.mem_singleton.mp he]; rfl
  refine ⟨?_, ?_, ?_, ?_⟩
  · intro i l hl
    rw [hkey]
    exact h.logins i l hl
  · intro c' key hr
    rw [hkey] at hr
    exact h.known c' key hr
  · intro c' r' key hmem
    rw [hkey]
    rcases List.mem_append.mp hmem with hmem | hmem
    · exact h.found c' r' key hmem
    · obtain ⟨-, ho, hanswer⟩ := Event.did.inj (List.mem_singleton.mp hmem)
      cases ho
      obtain ⟨i, l, hl, hid, hk⟩ := getClientPublicKey_some (eq_of_heq hanswer).symm
      rw [← hid, ← h.logins i l hl, hk]
  · intro c' key hmem
    rw [hkey]
    rcases List.mem_append.mp hmem with hmem | hmem
    · exact h.same c' key hmem
    · cases List.mem_singleton.mp hmem

theorem register (h : Keys x log) (hinv : x'.clients.Inv) {c : ClientId} {key : Bytes}
    {i : Fin maxClients} {l : Login} (hl : x.clients.login i = some l) (hid : l.id = c)
    (hk : l.key = none ∨ l.key = some key)
    (hnext : x'.clients.nextClientId = x.clients.nextClientId)
    (hu : x'.clients.login = Function.update x.clients.login i (some { l with key := some key }))
    (hlt : c ≠ invalidClientId ∧ c < x.clients.nextClientId) :
    Keys x' (log ++ [.did c (.registerClientPublicKey c key) (.ok ())]) := by
  have hself : registeredKey (log ++ [.did c (.registerClientPublicKey c key) (.ok ())]) c =
      some key := by
    have hold := h.logins i l hl
    rw [hid] at hold
    -- the first key stays, and the same key may come again
    rcases hk with hk | hk
    · rw [hk] at hold
      rw [registeredKey, List.findSome?_append]
      rw [registeredKey] at hold
      rw [← hold]
      simp [Event.registered]
    · exact registeredKey_append (hold.symm.trans hk) _
  have hother : ∀ c', c' ≠ c → registeredKey (log ++
      [.did c (.registerClientPublicKey c key) (.ok ())]) c' = registeredKey log c' := by
    intro c' hne
    refine registeredKey_append_of_none fun e he => ?_
    rw [List.mem_singleton.mp he, Event.registered, if_neg fun hc => hne hc.1.symm]
  refine ⟨?_, ?_, ?_, ?_⟩
  · intro j l' hl'
    have hi : x'.clients.login i = some { l with key := some key } := by
      rw [hu, Function.update_self]
    by_cases hc : l'.id = c
    · obtain rfl := hinv.login_inj hl' hi (hc.trans hid.symm)
      rw [hi] at hl'
      cases hl'
      rw [hc, hself]
    · rw [hother _ hc]
      have hji : j ≠ i := by
        rintro rfl
        rw [hi] at hl'
        cases hl'
        exact hc hid
      rw [hu, Function.update_of_ne hji] at hl'
      exact h.logins j l' hl'
  · intro c' key' hr
    rw [hnext]
    by_cases hc : c' = c
    · exact hc ▸ hlt
    · exact h.known c' key' (hother c' hc ▸ hr)
  · intro c' r key' hmem
    rcases List.mem_append.mp hmem with hmem | hmem
    · exact registeredKey_append (h.found c' r key' hmem) _
    · cases List.mem_singleton.mp hmem
  · intro c' key' hmem
    rcases List.mem_append.mp hmem with hmem | hmem
    · exact registeredKey_append (h.same c' key' hmem) _
    · obtain ⟨rfl, ho, -⟩ := Event.did.inj (List.mem_singleton.mp hmem)
      cases ho
      exact hself

theorem effect (h : Keys x log) (hinv : x.clients.Inv) {libc : Libc}
    (heff : Effect libc x log x' evs) : Keys x' (log ++ evs) := by
  have hquiet : ∀ {e : Event}, e.isDid = false → x'.clients = x.clients → Keys x' (log ++ [e]) := by
    intro e he hc
    refine h.keep (hc ▸ .refl _ _) (fun e' he' c => ?_) fun c r key hmem => ?_
    · rw [List.mem_singleton.mp he']
      cases e <;> first | rfl | cases he
    · rw [← List.mem_singleton.mp hmem] at he
      cases he
  cases heff with
  | pass _ hc hevs =>
    refine h.keep hc (fun e he c => ?_) fun c r key hmem => ?_
    · have := hevs e he
      cases e <;> first | rfl | cases this
    · cases hevs _ hmem
  | received u frame => exact hquiet rfl rfl
  | abort u _ hc _ =>
    refine h.keep hc (fun e he c => ?_) fun c r key hmem => ?_
    · rw [List.mem_singleton.mp he]
      rfl
    · cases List.mem_singleton.mp hmem
  | returned u => exact hquiet rfl rfl
  | did u o hl ha =>
    -- no other operation touches the keys
    have hsame : (perform libc x o).2.clients.login = x.clients.login →
        (perform libc x o).2.clients.nextClientId = x.clients.nextClientId →
        (∀ c, (Event.did u.id o (perform libc x o).1).registered c = none) →
        (∀ r, o ≠ .getClientPublicKey r) →
        Keys (perform libc x o).2 (log ++ [.did u.id o (perform libc x o).1]) := by
      intro hlogin hnext hreg hget
      refine h.keep (.of_login_eq hnext hlogin) (fun e he c => ?_) fun c r key hmem => ?_
      · rw [List.mem_singleton.mp he, hreg]
      · exact hget r (Event.did.inj (List.mem_singleton.mp hmem)).2.1.symm
    cases o with
    | getClientPublicKey r =>
      simp only [perform]
      exact h.get u.id r
    | registerClientPublicKey r key =>
      obtain ⟨rfl, -⟩ := ha
      simp only [perform, Shared.onClients]
      rcases hinv.registerClientPublicKey u.id key with
        ⟨e, he⟩ | ⟨i, l, m', he, hl, -, hid, hk, hinv', hnext, hu⟩
      · rw [he]
        refine h.keep (.refl _ _) (fun e he c => ?_) fun c r key hmem => ?_
        · rw [List.mem_singleton.mp he]
          rfl
        · cases List.mem_singleton.mp hmem
      · rw [he]
        exact h.register hinv' hl hid hk hnext hu (hid ▸ hinv.login_id_lt hl)
    | queueFrame r type payload =>
      refine h.keep ?_ (fun e he c => ?_) fun c r key hmem => ?_
      · simp only [perform, Shared.onClients]
        rcases hinv.queueFrame libc.address libc.eventfdWrite r type payload with
          ⟨e, he⟩ | ⟨i, l, a, m', he, hl, hr, -, -, hnext, hcases⟩
        · rw [he]
          exact .refl _ _
        · rw [he]
          rcases hcases with ⟨-, hu⟩ | ⟨-, hu⟩
          · exact .update hnext hl hu rfl rfl id
          · exact .update hnext hl hu rfl rfl fun hf => by cases hf
      · rw [List.mem_singleton.mp he]
        rfl
      · cases List.mem_singleton.mp hmem
    | _ =>
      refine hsame ?_ ?_ (fun _ => rfl) (fun _ h => by cases h)
      · simp only [perform, Shared.onRoutes]
      · simp only [perform, Shared.onRoutes]

end Keys

theorem Server.keys_of_reach {ok : Server → Label → Prop} {s : Server} (hs : server.Reach ok s) :
    Keys s.shared s.log :=
  Server.effect_invariant Keys.init
    (fun _ _ _ _ hreach _ heff hold => hold.effect (Server.wf_of_reach hreach).clients heff) hs

theorem Server.registeredKey_of_monitor {ok : Server → Label → Prop} {s : Server}
    (hs : server.Reach ok s) {c r : ClientId} {key : Bytes}
    (h : (monitor s.log c).key = some (r, some key)) : registeredKey s.log r = some key := by
  obtain ⟨before, after, hlog, -⟩ := monitor_key h
  refine (Server.keys_of_reach hs).found c r key ?_
  rw [hlog]
  simp

theorem ready_ne_invalid {m : ClientManager} (h : m.Inv) {r : ClientId} (hr : m.IsReady r) :
    r ≠ invalidClientId := by
  obtain ⟨i, l, hl, -, rfl⟩ := hr
  exact (h.login_id_lt hl).1

/-- Every encrypted message that is queued carries the name and the first key of the
connection that sent it, and otherwise the bytes it sent, to a connection that was found
under the name it gave.  All keys that are ever found for a connection, or accepted from
it, are the first. -/
theorem sender_authenticity {s : Server} (hs : server.Reachable s) :
    (∀ before after c r payload,
      s.log = before ++ .did c (.queueFrame r .ciphertext payload) (.ok ()) :: after →
      ∃ name recipient nonce key box, Named before c name ∧ name.length < usernameSize ∧
        payload = UInt8.ofNat name.length :: name ++ nonce ++ key ++ box ∧
        nonce.length = chatNonceSize ∧ key.length = chatPublicKeySize ∧ chatMacSize ≤ box.length ∧
        registeredKey before c = some key ∧
        .received c (FrameType.ciphertext.toByte :: UInt8.ofNat recipient.length ::
          recipient ++ nonce ++ key ++ box) ∈ before ∧
        ∃ earlier later, before = earlier ++ .did c (.findClientId recipient) r :: later ∧
          Named earlier r recipient) ∧
    (∀ c r key, .did c (.getClientPublicKey r) (some key) ∈ s.log →
      registeredKey s.log r = some key) ∧
    ∀ c key, .did c (.registerClientPublicKey c key) (.ok ()) ∈ s.log →
      registeredKey s.log c = some key := by
  have hkeys := Server.keys_of_reach hs
  refine ⟨?_, hkeys.found, hkeys.same⟩
  intro before after c r payload hlog
  obtain ⟨s₀, l, name, hr₀, -, rfl, -, hname, ha, hanswer⟩ := Server.did_reach hs hlog
  obtain ⟨recipient, encrypted, hcall, hrlen, hnlen, hlen, hkey, hfound, rfl⟩ := ha
  obtain ⟨b₀, after₀, hrec, -⟩ := monitor_call hcall
  obtain ⟨earlier, later, hfind, -⟩ := monitor_found hfound
  have hready := perform_queueFrame_ok (Server.wf_of_reach hr₀).clients hanswer.symm
  have hr := ready_ne_invalid (Server.wf_of_reach hr₀).clients hready
  let nonce := encrypted.take chatNonceSize
  let key := (encrypted.drop chatNonceSize).take chatPublicKeySize
  let box := (encrypted.drop chatNonceSize).drop chatPublicKeySize
  have hsplit : encrypted = nonce ++ key ++ box := by
    rw [List.append_assoc, List.take_append_drop, List.take_append_drop]
  refine ⟨name, recipient, nonce, key, box, hname, hnlen, ?_, ?_, ?_, ?_, ?_, ?_, earlier, later,
    hfind, Server.found_named hr₀ hfind hr⟩
  · rw [hsplit]
    simp
  · rw [List.length_take]
    omega
  · rw [List.length_take, List.length_drop]
    omega
  · rw [List.length_drop, List.length_drop]
    omega
  · exact Server.registeredKey_of_monitor hr₀ hkey
  · rw [hrec, hsplit]
    simp

/-- A message after a second, refused registration. -/
theorem sender_authenticity_second_key :
    let box : Bytes := List.replicate 24 1 ++ List.replicate 32 7 ++ List.replicate 17 2
    ∃ s before, server.Reachable s ∧ s.log = before ++ [.did 1 (.queueFrame 2 .ciphertext
        (3 :: ascii "ann" ++ box)) (.ok ())] ∧
      ∃ name recipient nonce key box', Named before 1 name ∧
        3 :: ascii "ann" ++ box = UInt8.ofNat name.length :: name ++ nonce ++ key ++ box' ∧
        registeredKey before 1 = some key ∧
        .received 1 (FrameType.ciphertext.toByte :: UInt8.ofNat recipient.length ::
          recipient ++ nonce ++ key ++ box') ∈ before := by
  intro box
  have hrun : (server.run server.init (loginLabels 0 (ascii "ann") ++ loginLabels 1 (ascii "bob") ++
      frameLabels 0 (FrameType.registerPk.toByte :: List.replicate 32 7) ++
      stepLabels 0 [none, none] ++
      frameLabels 0 (FrameType.registerPk.toByte :: List.replicate 32 9) ++
      stepLabels 0 [none, none, none] ++
      frameLabels 0 (FrameType.ciphertext.toByte :: 3 :: ascii "bob" ++ box) ++
      stepLabels 0 [none, none, some 1])).map (fun s => s.log.getLast?.bind Event.queues) =
        some (some (1, 2, .ciphertext, 3 :: ascii "ann" ++ box)) := by
    decide +kernel
  obtain ⟨s, hs, hlast⟩ := Option.map_eq_some_iff.mp hrun
  have hreach := Transition.System.Reachable.run .init hs
  obtain ⟨e, he, hq⟩ := Option.bind_eq_some_iff.mp hlast
  obtain ⟨before, hlog⟩ := List.getLast?_eq_some_iff.mp he
  rw [Event.queues_eq_some hq] at hlog
  obtain ⟨name, recipient, nonce, key, box', hname, -, hpayload, -, -, -, hkey, hrec, -⟩ :=
    (sender_authenticity hreach).1 before [] 1 2 _ hlog
  exact ⟨s, before, hreach, hlog, name, recipient, nonce, key, box', hname, hpayload, hkey, hrec⟩

end CipherChat
