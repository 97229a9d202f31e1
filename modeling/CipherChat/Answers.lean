import CipherChat.ClientChat
import CipherChat.Handling
import CipherChat.Output

/-!
# Answers to requests

A request for a key is answered once, and to the client that made it, if its name is one that
`copy_peer_name` accepts.  The answer repeats the name, with a key or with none; nothing else
is queued as a `FRAME_PEER_PK`.
-/

namespace CipherChat

open Resumption Prog Discipline

/-- The name that a request asks for, when `copy_peer_name` accepts it. -/
def requestedName (frame : Bytes) : Option Bytes :=
  if frame.head? = some FrameType.requestPk.toByte then copyPeerName (frame.drop 1) else none

theorem requestedName_request (payload : Bytes) :
    requestedName (FrameType.requestPk.toByte :: payload) = copyPeerName payload := if_pos rfl

/-- What a call has still to answer, and the key that it has looked up. -/
structure Answering where
  asked : Option Bytes := none
  key : Option Bytes := none

namespace Answering

def start : Call → Answering
  | .frame frame => { asked := requestedName frame }
  | .none | .abort => {}

def allow (id : ClientId) (t : Answering) : Op → Prop
  | .registerClientPublicKey _ key => key.length = chatPublicKeySize
  | .queueFrame c .peerPk payload => c = id ∧ ∃ name, t.asked = some name ∧
      payload = UInt8.ofNat name.length :: name ++ t.key.getD []
  | _ => True

def next (t : Answering) : (o : Op) → o.Resp → Answering
  | .getClientPublicKey _, key => { t with key := key }
  | .queueFrame _ .peerPk _, _ => { t with asked := none }
  | _, _ => t

end Answering

def answering : Watch Answering where
  start := Answering.start
  allow id _ := Answering.allow id
  next _ := Answering.next
  rest t := t.asked = none

section Follows

variable {id : ClientId} {username : Bytes} {t : Answering}

theorem answering_other {α : Type} {c : Call} {m : Monitor} (hc : m.call = c)
    (hreq : ∀ payload, c ≠ .frame (FrameType.requestPk.toByte :: payload))
    (hreg : ∀ payload, c ≠ .frame (FrameType.registerPk.toByte :: payload))
    (ht : t.asked = none) {p : Handler α} {Q : Monitor → α → Prop}
    (h : (discipline id username).follows m p Q) :
    (answering.discipline id username).follows t p fun t _ => t.asked = none := by
  refine follows_simulate (R := fun m t => m.call = c ∧ t.asked = none) ?_
    (fun _ _ _ hR _ => hR.2) ⟨hc, ht⟩ h
  rintro m t o ⟨hm, ht⟩ hallow
  cases o with
  | registerClientPublicKey r key => exact absurd (hm.symm.trans hallow.2) (hreg key)
  | queueFrame r type payload =>
    cases type with
    | peerPk =>
      obtain ⟨-, name, -, -, hcall, -⟩ := hallow
      exact absurd (hm.symm.trans hcall) (hreq name)
    | _ => exact ⟨trivial, fun _ => ⟨hm, ht⟩⟩
  | _ => exact ⟨trivial, fun _ => ⟨hm, ht⟩⟩

theorem answering_sendFormatted (c : ClientId) (text : Bytes) :
    (answering.discipline id username).follows t (sendFormatted c text) fun t' _ => t' = t := by
  have hsend : (answering.discipline id username).follows t (sendTextToClientId c text)
      fun t' _ => t' = t := follows_ite (follows_pure rfl) (follows_last trivial fun _ => rfl)
  refine follows_ite ?_ (follows_pure rfl)
  exact follows_then hsend fun _ => follows_pure rfl

theorem answering_handleRequestPk (payload : Bytes) (ht : t.asked = copyPeerName payload) :
    (answering.discipline id username).follows t (handleRequestPk id payload)
      fun t _ => t.asked = none := by
  unfold handleRequestPk
  split
  · next hname =>
    refine follows_mono ?_ (answering_sendFormatted id _)
    rintro t' _ rfl
    rw [ht, hname]
  · next recipient hname =>
    obtain ⟨rfl, -⟩ := copyPeerName_some hname
    refine follows_call trivial fun recipientId => follows_call trivial fun key => ?_
    have hanswer := follows_last (D := answering.discipline id username)
      (o := .queueFrame id .peerPk (UInt8.ofNat recipient.length :: recipient ++ key.getD []))
      (t := { t with key := key }) (Q := fun t' _ => t' = { asked := none, key := key })
      ⟨rfl, recipient, ht.trans hname, rfl⟩ fun _ => rfl
    exact follows_then hanswer fun _ => follows_pure rfl

theorem answering_handleRegisterPk (payload : Bytes) (ht : t.asked = none) :
    (answering.discipline id username).follows t (handleRegisterPk id payload)
      fun t _ => t.asked = none := by
  have hinvalid : ∀ text, (answering.discipline id username).follows t
      (sendInvalidCommand id text) fun t _ => t.asked = none := by
    intro text
    refine follows_mono ?_ (answering_sendFormatted id _)
    rintro t' _ rfl
    exact ht
  unfold handleRegisterPk
  split
  · exact hinvalid _
  · next hlength =>
    refine follows_call (not_not.mp hlength) fun result => ?_
    cases result with
    | ok _ => exact follows_pure ht
    | error e => exact hinvalid _

theorem head?_bind_ofByte {type : FrameType} {frame payload : Bytes}
    (h : frame = type.toByte :: payload) : frame.head?.bind FrameType.ofByte = some type := by
  rw [h]
  exact FrameType.ofByte_toByte type

theorem answering_kept : answering.Kept where
  frame id username frame hid := by
    by_cases hreq : ∃ payload, frame = FrameType.requestPk.toByte :: payload
    · obtain ⟨payload, rfl⟩ := hreq
      rw [handleClientFrame, head?_bind_ofByte rfl]
      rw [follows_bind]
      refine follows_mono ?_ (answering_handleRequestPk payload (requestedName_request payload))
      exact fun _ _ h => follows_pure h
    have hstart : (answering.start (.frame frame)).asked = none := by
      refine if_neg fun hhead => hreq ⟨frame.drop 1, ?_⟩
      rw [List.drop_one]
      exact List.eq_cons_of_mem_head? hhead
    by_cases hreg : ∃ payload, frame = FrameType.registerPk.toByte :: payload
    · obtain ⟨payload, rfl⟩ := hreg
      rw [handleClientFrame, head?_bind_ofByte rfl]
      rw [follows_bind]
      refine follows_mono ?_ (answering_handleRegisterPk payload hstart)
      exact fun _ _ h => follows_pure h
    · refine answering_other (m := { call := .frame frame }) rfl ?_ ?_ hstart
        (follows_handleClientFrame frame hid rfl rfl)
      · exact fun payload h => hreq ⟨payload, Call.frame.inj h⟩
      · exact fun payload h => hreg ⟨payload, Call.frame.inj h⟩
  abort id username hid := by
    refine answering_other (m := { call := .abort }) rfl ?_ ?_ rfl
      (follows_abortFileRoutesForClient hid rfl rfl)
    · exact fun payload h => by cases h
    · exact fun payload h => by cases h

end Follows

namespace ClientManager

def KeysSized (m : ClientManager) : Prop :=
  ∀ i, (m.clients i).publicKey.length = chatPublicKeySize

variable {m : ClientManager}

theorem KeysSized.set (h : m.KeysSized) {i : Fin maxClients} {c : Client}
    (hc : c.publicKey.length = chatPublicKeySize) : (m.set i c).KeysSized := by
  intro j
  change (Function.update m.clients i c j).publicKey.length = chatPublicKeySize
  by_cases hj : j = i
  · rw [hj, Function.update_self]
    exact hc
  · rw [Function.update_of_ne hj]
    exact h j

theorem KeysSized.addClient (h : m.KeysSized) (username : Bytes) (eventfd : Option Errno) :
    (m.addClient username eventfd).2.KeysSized := by
  unfold ClientManager.addClient
  split
  · exact h
  split
  · exact h
  split
  · exact h
  · next i _ =>
    split
    · exact h
    · exact h.set (h i)

theorem KeysSized.activateClient (h : m.KeysSized) (i : Fin maxClients) :
    (m.activateClient i).2.KeysSized := by
  unfold ClientManager.activateClient
  split
  · exact h
  · exact h.set (h i)

theorem KeysSized.removeClient (h : m.KeysSized) (i : Fin maxClients) :
    (m.removeClient i).KeysSized := by
  unfold ClientManager.removeClient
  split
  · exact h
  · exact h.set rfl

theorem KeysSized.drain (h : m.KeysSized) (i : Fin maxClients) : (m.drain i).KeysSized :=
  h.set (h i)

theorem KeysSized.takeOutgoingFrame (h : m.KeysSized) (c : ClientId) :
    (m.takeOutgoingFrame c).2.KeysSized := by
  unfold ClientManager.takeOutgoingFrame
  split
  · exact h
  split
  · exact h
  · next i _ =>
    dsimp only
    split
    · exact h
    · exact h.set (h i)

theorem KeysSized.registerClientPublicKey (h : m.KeysSized) (c : ClientId) {key : Bytes}
    (hkey : key.length = chatPublicKeySize) : (m.registerClientPublicKey c key).2.KeysSized := by
  unfold ClientManager.registerClientPublicKey
  split
  · split
    · exact h
    · exact h.set hkey
  · exact h

theorem KeysSized.link (h : m.KeysSized) (i : Fin maxClients) (address : ℕ)
    (frame : OutgoingFrame) : (m.link i address frame).2.KeysSized := by
  unfold ClientManager.link
  dsimp only
  split
  · exact h.set (h i)
  · exact h.set (h i)

theorem KeysSized.queueFrame (h : m.KeysSized) (address : Option ℕ) (notified : Option Errno)
    (c : ClientId) (type : FrameType) (payload : Bytes) :
    (m.queueFrameToClientId address notified c type payload).2.KeysSized := by
  unfold ClientManager.queueFrameToClientId
  split
  · exact h
  split
  · exact h
  split
  · exact h
  split
  · exact h
  · next i _ =>
    have hsignal : (m.signal i).KeysSized := h.set (h i)
    split
    · exact h
    · exact hsignal.link i _ _

theorem KeysSized.getClientPublicKey (h : m.KeysSized) {c : ClientId} {key : Bytes}
    (hkey : m.getClientPublicKey c = some key) : key.length = chatPublicKeySize := by
  unfold ClientManager.getClientPublicKey at hkey
  split at hkey
  · next i _ =>
    cases hkey
    exact h i
  · cases hkey

end ClientManager

theorem perform_keysSized {x : Shared} (h : x.clients.KeysSized) {id : ClientId} {t : Answering}
    {o : Op} (ho : t.allow id o) (libc : Libc) : (perform libc x o).2.clients.KeysSized := by
  cases o with
  | registerClientPublicKey c key =>
    simp only [perform, Shared.onClients]
    exact h.registerClientPublicKey c ho
  | queueFrame c type payload =>
    simp only [perform, Shared.onClients]
    exact h.queueFrame _ _ c type payload
  | _ => simpa only [perform, Shared.onClients, Shared.onRoutes] using h

theorem Server.keysSized_of_reach {ok : Server → Label → Prop} {s : Server}
    (hs : server.Reach ok s) : s.shared.clients.KeysSized := by
  refine hs.invariant (P := fun s => s.shared.clients.KeysSized) (fun _ => rfl) ?_
  rintro s ⟨n, env⟩ s' hr - hold hstep
  obtain ⟨x', t', evs, hturn, rfl⟩ := Server.step_turn hstep
  have hfollows := (answering_kept.holds hr).follows n
  dsimp only at hold ⊢
  generalize s.threads n = t at hturn hfollows
  cases hturn with
  | @login i name clients hadd =>
    have hnew := hold.addClient name env.libc.eventfd
    rw [hadd] at hnew
    exact hnew
  | @activate u clients hact =>
    have hnew := hold.activateClient u.index
    rw [hact] at hnew
    exact hnew
  | drain u => exact hold.drain u.index
  | @take u => exact hold.takeOutgoingFrame u.id
  | op u w o k =>
    rw [Watch.Follows, follows_op] at hfollows
    exact perform_keysSized hold hfollows.1 env.libc
  | abortOp u o k =>
    rw [Watch.Follows, follows_op] at hfollows
    exact perform_keysSized hold hfollows.1 env.libc
  | leave u => exact hold.removeClient u.index
  | abort u => exact hold.removeClient u.index
  | _ => exact hold

theorem answering_event_key {c : ClientId} {t : Answering} {e : Event} {key : Bytes}
    (h : (answering.event c t e).key = some key) :
    t.key = some key ∨ ∃ r, e = .did c (.getClientPublicKey r) (some key) := by
  unfold Watch.event at h
  split at h
  · split at h
    · cases h
    · exact .inl h
  · split at h
    · cases h
    · exact .inl h
  · next d o r =>
    split at h
    · next hd =>
      subst hd
      cases o with
      | getClientPublicKey q =>
        obtain rfl : r = some key := h
        exact .inr ⟨q, rfl⟩
      | queueFrame q type payload => cases type <;> exact .inl h
      | _ => exact .inl h
    · exact .inl h
  · split at h
    · cases h
    · exact .inl h
  · exact .inl h
  · exact .inl h

theorem Server.answering_key {ok : Server → Label → Prop} {s : Server} (hs : server.Reach ok s)
    {c : ClientId} {key : Bytes} (hkey : (answering.state s.log c).key = some key) :
    key.length = chatPublicKeySize := by
  revert key
  refine hs.invariant (P := fun s => ∀ {key}, (answering.state s.log c).key = some key →
    key.length = chatPublicKeySize) (fun h => by cases h) ?_
  rintro s ⟨n, env⟩ s' hr - hold hstep key hkey
  have hsized := Server.keysSized_of_reach hr
  obtain ⟨x', t', evs, hturn, rfl⟩ := Server.step_turn hstep
  dsimp only at hkey
  rcases hturn.events with rfl | ⟨e, rfl⟩
  · rw [List.append_nil] at hkey
    exact hold hkey
  rw [Watch.state_concat] at hkey
  rcases answering_event_key hkey with hkey | ⟨r, rfl⟩
  · exact hold hkey
  · obtain ⟨-, hanswer, -⟩ := answering_kept.allowed hr hstep rfl
    simp only [perform] at hanswer
    exact hsized.getClientPublicKey hanswer.symm

/-- A frame behind its length, as the receiver sees it. -/
def OutgoingFrame.bytes (f : OutgoingFrame) : Bytes := f.type.toByte :: f.payload

/-- The frame that an event passes to `handle_frame` for `c`. -/
def Event.handedTo (c : ClientId) : Event → Option Bytes
  | .received id frame => if id = c then some frame else none
  | _ => none

/-- The frames passed to `handle_frame` for `c`, in order. -/
def handed (log : List Event) (c : ClientId) : List Bytes := log.filterMap (Event.handedTo c)

@[simp] theorem handed_append (log evs : List Event) (c : ClientId) :
    handed (log ++ evs) c = handed log c ++ handed evs c := List.filterMap_append

/-- The frame is a `FRAME_PEER_PK` that a client takes for an answer about `name`. -/
def answersAbout (name frame : Bytes) : Bool :=
  frame.head? = some FrameType.peerPk.toByte && (parsePeerPk frame).map Prod.fst = some name

/-- The requests for `name` among some frames. -/
def requestsFor (name : Bytes) (frames : List Bytes) : ℕ :=
  frames.countP fun frame => requestedName frame = some name

/-- The answers about `name` among some frames. -/
def answersFor (name : Bytes) (frames : List Bytes) : ℕ := frames.countP (answersAbout name)

theorem answersAbout_other {type : FrameType} (h : type ≠ .peerPk) (name payload : Bytes) :
    answersAbout name (type.toByte :: payload) = false := by
  have hhead : ¬(some type.toByte = some FrameType.peerPk.toByte) := fun he =>
    h (FrameType.toByte_injective (Option.some.inj he))
  simp only [answersAbout, List.head?_cons, hhead, decide_false, Bool.false_and]

/-- A name that `copy_peer_name` accepts is as it was sent, without a NUL. -/
theorem copyPeerName_name {bytes name : Bytes} (h : copyPeerName bytes = some name) :
    name = bytes ∧ 0 < name.length ∧ name.length < usernameSize ∧ 0 ∉ name := by
  unfold copyPeerName at h
  split_ifs at h with hlength hbytes
  obtain rfl := Option.some.inj h
  refine ⟨rfl, by omega, by omega, fun hzero => hbytes ?_⟩
  exact List.any_eq_true.mpr ⟨0, hzero, rfl⟩

theorem parsePeerPk_answer {name key : Bytes} (hname : copyPeerName name = some name)
    (hkey : key = [] ∨ key.length = chatPublicKeySize) :
    parsePeerPk (FrameType.peerPk.toByte :: (UInt8.ofNat name.length :: name ++ key)) =
      some (name, key) := by
  obtain ⟨-, hpos, hlt, hzero⟩ := copyPeerName_name hname
  have c1 := usernameSize_eq
  have c2 := cryptoBoxPublicKeyBytes_eq
  have c3 : chatPublicKeySize = 32 := rfl
  have hlen : (UInt8.ofNat name.length).toNat = name.length := by
    rw [UInt8.toNat_ofNat', Nat.mod_eq_of_lt]
    omega
  have htake : (name ++ key).take name.length = name := List.take_left
  have hdrop : (name ++ key).drop name.length = key := List.drop_left
  have hkeyLength : key.length = 0 ∨ key.length = 32 := by
    rcases hkey with rfl | hkey
    · exact .inl rfl
    · exact .inr (hkey.trans c3)
  unfold parsePeerPk
  simp only [List.cons_append, List.getD_cons_succ, List.getD_cons_zero, hlen,
    List.drop_succ_cons, List.drop_zero, htake, List.length_cons, List.length_append]
  rw [if_neg (by omega), if_neg (by
    rintro (h | h | h | h)
    · omega
    · omega
    · omega
    · exact hzero h)]
  rw [← List.drop_drop, List.drop_succ_cons, List.drop_succ_cons, List.drop_zero, hdrop]

theorem requestedName_some {frame name : Bytes} (h : requestedName frame = some name) :
    frame = FrameType.requestPk.toByte :: name ∧ copyPeerName name = some name := by
  unfold requestedName at h
  split at h
  · next hhead =>
    obtain ⟨rfl, -⟩ := copyPeerName_some h
    refine ⟨?_, h⟩
    rw [List.drop_one]
    exact List.eq_cons_of_mem_head? hhead
  · cases h

/-- What a call has to answer is a name that `copy_peer_name` accepts. -/
theorem answering_asked {log : List Event} {c : ClientId} {name : Bytes}
    (h : (answering.state log c).asked = some name) : copyPeerName name = some name := by
  induction log using List.reverseRecOn with
  | nil => cases h
  | append_singleton log e ih =>
    rw [Watch.state_concat] at h
    unfold Watch.event at h
    split at h
    · split at h
      · exact (requestedName_some h).2
      · exact ih h
    · split at h
      · cases h
      · exact ih h
    · next d o r =>
      split at h
      · cases o with
        | queueFrame q type payload =>
          cases type with
          | peerPk => cases h
          | _ => exact ih h
        | _ => exact ih h
      · exact ih h
    · split at h
      · cases h
      · exact ih h
    · exact ih h
    · exact ih h

theorem answersFor_queued {e : Event} {c : ClientId} (name : Bytes)
    (h : ∀ d payload r, e ≠ .did d (.queueFrame c .peerPk payload) r) :
    answersFor name ((queued [e] c).map OutgoingFrame.bytes) = 0 := by
  rw [answersFor, List.countP_eq_zero]
  intro frame hframe
  obtain ⟨f, hf, rfl⟩ := List.mem_map.mp hframe
  obtain ⟨e', he, hqueued⟩ := List.mem_filterMap.mp hf
  obtain rfl := List.mem_singleton.mp he
  unfold Event.queuedTo at hqueued
  split at hqueued
  · next d r type payload =>
    split at hqueued
    · next hr =>
      subst hr
      obtain rfl := Option.some.inj hqueued
      have htype : type ≠ .peerPk := by
        rintro rfl
        exact h d payload _ rfl
      rw [OutgoingFrame.bytes, answersAbout_other htype]
      exact Bool.false_ne_true
    · cases hqueued
  · cases hqueued

/-- Every answer that the calls of `c` tried to queue was queued. -/
def AllAnswered (log : List Event) (c : ClientId) : Prop :=
  ∀ payload r, .did c (.queueFrame c .peerPk payload) r ∈ log → r = .ok ()

theorem AllAnswered.append {log evs : List Event} {c : ClientId} :
    AllAnswered (log ++ evs) c ↔ AllAnswered log c ∧ AllAnswered evs c := by
  simp only [AllAnswered, List.mem_append, or_imp, forall_and]

/-- Whether a call has still to answer a request for `name`. -/
def Answering.owes (name : Bytes) (t : Answering) : ℕ := if t.asked = some name then 1 else 0

theorem owes_none {t : Answering} (h : t.asked = none) (name : Bytes) : t.owes name = 0 := by
  rw [Answering.owes, h]
  exact if_neg (by simp)

section Balance

variable {ok : Server → Label → Prop} {s s' : Server} {l : Label} {c : ClientId} {name : Bytes}

theorem answering_did (name : Bytes) (hs : server.Reach ok s) (hstep : server.step s l = some s')
    {o : Op} {r : o.Resp} (hlog : s'.log = s.log ++ [.did c o r])
    (hall : AllAnswered [.did c o r] c) :
    (answering.state s.log c).owes name = answersFor name
        ((queued [.did c o r] c).map OutgoingFrame.bytes) +
      (answering.next c (answering.state s.log c) o r).owes name := by
  obtain ⟨⟨username, hallow⟩, -⟩ := answering_kept.allowed hs hstep hlog
  cases o with
  | queueFrame d type payload =>
    by_cases htype : type = .peerPk
    · subst htype
      obtain ⟨rfl, asked, hasked, rfl⟩ := hallow
      obtain rfl := hall _ r (List.mem_singleton.mpr rfl)
      have hkey : (answering.state s.log d).key.getD [] = [] ∨
          ((answering.state s.log d).key.getD []).length = chatPublicKeySize := by
        cases hk : (answering.state s.log d).key with
        | none => exact .inl rfl
        | some key => exact .inr (Server.answering_key hs hk)
      have hparse := parsePeerPk_answer (answering_asked hasked) hkey
      have hqueued : ∀ payload, queued [.did d (.queueFrame d .peerPk payload) (.ok ())] d =
          [⟨.peerPk, payload⟩] := by
        intro payload
        simp [queued, Event.queuedTo]
      rw [hqueued, List.map_singleton, answersFor, List.countP_singleton, OutgoingFrame.bytes,
        answersAbout, hparse, Answering.owes, hasked]
      change _ = _ + Answering.owes name { answering.state s.log d with asked := none }
      rw [owes_none rfl]
      simp
    · have hnext : answering.next c (answering.state s.log c) (.queueFrame d type payload) r =
          answering.state s.log c := by
        cases type with
        | peerPk => exact absurd rfl htype
        | _ => rfl
      rw [hnext, answersFor_queued name, Nat.zero_add]
      rintro k payload r' he
      cases he
      exact htype rfl
  | getClientPublicKey d => exact (Nat.zero_add _).symm
  | _ => exact (Nat.zero_add _).symm

theorem Server.answers_balanced (hs : server.Reach ok s) (c : ClientId) (name : Bytes)
    (hall : AllAnswered s.log c) :
    requestsFor name (handed s.log c) =
      answersFor name ((queued s.log c).map OutgoingFrame.bytes) +
        (answering.state s.log c).owes name := by
  revert hall
  refine hs.invariant (P := fun s => AllAnswered s.log c → requestsFor name (handed s.log c) =
    answersFor name ((queued s.log c).map OutgoingFrame.bytes) +
      (answering.state s.log c).owes name) (fun _ => rfl) ?_
  rintro s ⟨n, env⟩ s' hr - hold hstep hall
  obtain ⟨x', t', evs, hturn, hs'⟩ := Server.step_turn hstep
  have hlog : s'.log = s.log ++ evs := by rw [hs']
  rw [hlog] at hall ⊢
  obtain ⟨hall, hlast⟩ := AllAnswered.append.mp hall
  have hbefore := hold hall
  rcases hturn.events with rfl | ⟨e, rfl⟩
  · rw [List.append_nil]
    exact hbefore
  rw [handed_append, queued_append, Watch.state_concat, requestsFor, List.countP_append,
    List.map_append, answersFor, List.countP_append]
  change requestsFor name _ + requestsFor name _ = answersFor name _ + answersFor name _ + _
  -- an event that is neither a request nor an answer leaves the count
  have hpass : requestsFor name (handed [e] c) = 0 →
      answersFor name ((queued [e] c).map OutgoingFrame.bytes) = 0 →
      (answering.event c (answering.state s.log c) e).owes name =
        (answering.state s.log c).owes name →
      requestsFor name (handed s.log c) + requestsFor name (handed [e] c) =
        answersFor name ((queued s.log c).map OutgoingFrame.bytes) +
          answersFor name ((queued [e] c).map OutgoingFrame.bytes) +
          (answering.event c (answering.state s.log c) e).owes name := by
    intro hrequests hanswers howes
    rw [hrequests, hanswers, howes]
    exact hbefore
  cases e with
  | login k d username => exact hpass rfl rfl rfl
  | wrote d bytes => exact hpass rfl rfl rfl
  -- a request starts a call that owes its answer
  | received d frame =>
    by_cases hd : d = c
    · subst hd
      have hidle := answering_kept.started hr hstep (.inl ⟨frame, hlog⟩)
      have hone : handed [.received d frame] d = [frame] := by simp [handed, Event.handedTo]
      rw [hbefore, hidle, hone, requestsFor, List.countP_singleton, Watch.event, if_pos rfl]
      change _ = _ + 0 + Answering.owes name { asked := requestedName frame }
      rw [owes_none (t := answering.start .none) rfl, Answering.owes]
      simp
    · refine hpass ?_ rfl ?_
      · simp [handed, Event.handedTo, hd, requestsFor]
      · rw [Watch.event, if_neg hd]
  | abort d =>
    refine hpass rfl rfl ?_
    by_cases hd : d = c
    · subst hd
      rw [answering_kept.started hr hstep (.inr hlog), Watch.event, if_pos rfl]
      rfl
    · rw [Watch.event, if_neg hd]
  -- a call that ends owes nothing any more
  | returned d =>
    refine hpass rfl rfl ?_
    by_cases hd : d = c
    · subst hd
      rw [owes_none (answering_kept.rested hr hstep hlog), Watch.event, if_pos rfl]
      rfl
    · rw [Watch.event, if_neg hd]
  | did d o r =>
    by_cases hd : d = c
    · subst hd
      have hdid := answering_did name hr hstep hlog hlast
      rw [Watch.event, if_pos rfl]
      change _ + 0 = _ + _ + (answering.next d _ o r).owes name
      omega
    · -- only the calls of `c` queue answers for `c`
      refine hpass rfl ?_ ?_
      · refine answersFor_queued name fun k payload r' he => ?_
        cases he
        obtain ⟨⟨username, hallow⟩, -⟩ := answering_kept.allowed hr hstep hlog
        exact hd hallow.1.symm
      · rw [Watch.event, if_neg hd]

end Balance

end CipherChat
