import CipherChat.Answers
import CipherChat.Authenticity
import CipherChat.Lib.Sublists
import CipherChat.PrivateChat

/-!
# Encrypted messages in order

The handler of a `FRAME_CIPHERTEXT` queues at most one, and no other call queues any.  So what
the thread of a connection has forwarded comes from the frames that it was handed, in their
order and each of them once.
-/

namespace CipherChat

open Resumption Prog Discipline

def forwarding : Watch (Option Bytes) where
  start
    | .frame frame => some frame
    | .none | .abort => none
  allow _ _ slot
    | .queueFrame _ .ciphertext _ => slot.isSome
    | _ => True
  next _ slot
    | .queueFrame _ .ciphertext _, _ => none
    | _, _ => slot
  rest _ := True

section Follows

variable {id : ClientId} {username : Bytes} {slot : Option Bytes}

theorem forwarding_other {α : Type} {c : Call} {m : Monitor} (hc : m.call = c)
    (hother : ∀ payload, c ≠ .frame (FrameType.ciphertext.toByte :: payload))
    {p : Handler α} {Q : Monitor → α → Prop} (h : (discipline id username).follows m p Q) :
    (forwarding.discipline id username).follows slot p fun _ _ => True := by
  refine follows_simulate (R := fun m _ => m.call = c) ?_ (fun _ _ _ _ _ => trivial) hc h
  intro m slot o hm hallow
  cases o with
  | queueFrame r type payload =>
    cases type with
    | ciphertext =>
      obtain ⟨recipient, encrypted, hcall, -⟩ := hallow
      exact absurd (hm.symm.trans hcall) (hother _)
    | _ => exact ⟨trivial, fun _ => hm⟩
  | _ => exact ⟨trivial, fun _ => hm⟩

theorem forwarding_sendFormatted (c : ClientId) (text : Bytes) :
    (forwarding.discipline id username).follows slot (sendFormatted c text)
      fun _ _ => True := by
  have hsend : (forwarding.discipline id username).follows slot (sendTextToClientId c text)
      fun slot' _ => slot' = slot :=
    follows_ite (follows_pure rfl) (follows_last trivial fun _ => rfl)
  refine follows_ite ?_ (follows_pure trivial)
  exact follows_then hsend fun _ => follows_pure trivial

theorem forwarding_handleCiphertext (frame payload : Bytes) :
    (forwarding.discipline id username).follows (some frame) (handleCiphertext id username payload)
      fun _ _ => True := by
  have hinvalid : ∀ text, (forwarding.discipline id username).follows (some frame)
      (sendInvalidCommand id text) fun _ _ => True := fun _ => forwarding_sendFormatted _ _
  unfold handleCiphertext
  dsimp only
  refine follows_ite (hinvalid _) ?_
  split
  · exact hinvalid _
  refine follows_ite (hinvalid _) (follows_call trivial fun key => ?_)
  refine follows_ite (hinvalid _) (follows_ite (hinvalid _) ?_)
  refine follows_call trivial fun recipientId => follows_call rfl fun result => ?_
  cases result with
  | ok _ => exact follows_pure trivial
  | error e => exact forwarding_sendFormatted _ _

theorem forwarding_kept : forwarding.Kept where
  frame id username frame hid := by
    by_cases hcipher : ∃ payload, frame = FrameType.ciphertext.toByte :: payload
    · obtain ⟨payload, rfl⟩ := hcipher
      rw [handleClientFrame_ciphertext, follows_bind]
      exact follows_mono (fun _ _ _ => follows_pure trivial) (forwarding_handleCiphertext _ payload)
    · refine forwarding_other (m := { call := .frame frame }) rfl ?_
        (follows_handleClientFrame frame hid rfl rfl)
      exact fun payload h => hcipher ⟨payload, Call.frame.inj h⟩
  abort id username hid := by
    refine forwarding_other (m := { call := .abort }) rfl ?_
      (follows_abortFileRoutesForClient hid rfl rfl)
    exact fun payload h => by cases h

end Follows

/-- The receiver and the payload of an encrypted message that the thread of `c` has queued. -/
def Event.forwardedBy (c : ClientId) : Event → Option (ClientId × Bytes)
  | .did d (.queueFrame r .ciphertext payload) (.ok ()) => if d = c then some (r, payload) else none
  | _ => none

/-- The encrypted messages of `c`, in order. -/
def forwarded (log : List Event) (c : ClientId) : List (ClientId × Bytes) :=
  log.filterMap (Event.forwardedBy c)

theorem forwarded_append (log evs : List Event) (c : ClientId) :
    forwarded (log ++ evs) c = forwarded log c ++ forwarded evs c := List.filterMap_append

theorem forwarded_of_none {e : Event} {c : ClientId} (h : e.forwardedBy c = none) :
    forwarded [e] c = [] := by
  rw [forwarded, List.filterMap_cons, h]
  rfl

/-- The message `f` is the box of `frame`, which `c` has addressed to a name of the receiver,
under the name of `c` and behind the key that `c` has registered. -/
def Forwards (log : List Event) (c : ClientId) (f : ClientId × Bytes) (frame : Bytes) : Prop :=
  ∃ name recipient nonce key box,
    Named log c name ∧ name.length < usernameSize ∧
    Named log f.1 recipient ∧ recipient.length < usernameSize ∧
    nonce.length = chatNonceSize ∧ key.length = chatPublicKeySize ∧ chatMacSize ≤ box.length ∧
    registeredKey log c = some key ∧
    frame = FrameType.ciphertext.toByte :: privateChatPayload recipient nonce key box ∧
    f.2 = privateChatPayload name nonce key box

theorem Forwards.append {log : List Event} {c : ClientId} {f : ClientId × Bytes} {frame : Bytes}
    (h : Forwards log c f frame) (evs : List Event) : Forwards (log ++ evs) c f frame := by
  obtain ⟨name, recipient, nonce, key, box, hname, hlen, hrecipient, hrlen, hnonce, hklen, hbox,
    hkey, hrest⟩ := h
  exact ⟨name, recipient, nonce, key, box, hname.append evs, hlen, hrecipient.append evs, hrlen,
    hnonce, hklen, hbox, registeredKey_append hkey evs, hrest⟩

section Order

variable {ok : Server → Label → Prop} {s : Server}

theorem Server.forwards_call (hs : server.Reach ok s) {c r : ClientId} {name payload : Bytes}
    {libc : Libc} (hname : Named s.log c name)
    (ha : (monitor s.log c).allow c name (.queueFrame r .ciphertext payload))
    (hok : (perform libc s.shared (.queueFrame r .ciphertext payload)).1 = .ok ()) :
    ∃ frame, (monitor s.log c).call = .frame frame ∧ Forwards s.log c (r, payload) frame := by
  obtain ⟨recipient, encrypted, hcall, hrlen, hnlen, hlen, hkey, hfound, rfl⟩ := ha
  obtain ⟨earlier, later, hfind, -⟩ := monitor_found hfound
  have hclients := (Server.wf_of_reach hs).clients
  have hr := ready_ne_invalid hclients (perform_queueFrame_ok hclients hok)
  let nonce := encrypted.take chatNonceSize
  let key := (encrypted.drop chatNonceSize).take chatPublicKeySize
  let box := (encrypted.drop chatNonceSize).drop chatPublicKeySize
  have hsplit : encrypted = nonce ++ (key ++ box) := by
    rw [List.take_append_drop, List.take_append_drop]
  have hfoundName := Server.found_named hs hfind hr
  have hrecipient : Named s.log r recipient := by
    rw [hfind]
    exact hfoundName.append _
  refine ⟨_, hcall, name, recipient, nonce, key, box, hname, hnlen, hrecipient, hrlen,
    ?_, ?_, ?_, ?_, ?_, ?_⟩
  · rw [List.length_take]
    omega
  · rw [List.length_take, List.length_drop]
    omega
  · rw [List.length_drop, List.length_drop]
    omega
  · exact Server.registeredKey_of_monitor hs hkey
  · rw [privateChatPayload, ← hsplit]
    rfl
  · rw [privateChatPayload, ← hsplit]
    rfl

theorem handed_of_call {log : List Event} {c : ClientId} {frame : Bytes}
    (h : (monitor log c).call = .frame frame) : ∃ earlier, handed log c = earlier ++ [frame] := by
  obtain ⟨before, after, rfl, hafter⟩ := monitor_call h
  have hnone : handed after c = [] := by
    refine List.filterMap_eq_nil_iff.mpr fun e he => ?_
    cases e with
    | received d frame' =>
      rw [Event.handedTo, if_neg]
      rintro rfl
      exact hafter frame' he
    | _ => rfl
  have hlast : handed (.received c frame :: after) c = frame :: handed after c := by
    simp [handed, Event.handedTo]
  exact ⟨handed before c, by rw [handed_append, hlast, hnone]⟩

theorem handed_of_none {log : List Event} {e : Event} {c : ClientId} (h : e.handedTo c = none) :
    handed (log ++ [e]) c = handed log c := by
  rw [handed_append, handed, handed, List.filterMap_cons, h]
  exact List.append_nil _

theorem Event.quiet_of_client {e : Event} {c : ClientId} (h : e.client ≠ some c) :
    e.forwardedBy c = none ∧ e.handedTo c = none := by
  cases e with
  | received d frame =>
    refine ⟨rfl, ?_⟩
    rw [handedTo, if_neg fun hd => h (congrArg some hd)]
  | did d o r =>
    refine ⟨?_, rfl⟩
    unfold forwardedBy
    split
    · next heq =>
      cases heq
      rw [if_neg fun hd => h (congrArg some hd)]
    · rfl
  | _ => exact ⟨rfl, rfl⟩

/-- What the thread of `c` has made of its frames so far. -/
def Ordered (log : List Event) (c : ClientId) : Prop :=
  List.Passes (Forwards log c) (forwarded log c) (handed log c) (forwarding.state log c)

/-- An event that neither hands over a frame of `c` nor forwards one, and leaves the slot as it is
or ends the call. -/
theorem Ordered.quiet {log : List Event} {c : ClientId} (h : Ordered log c) {e : Event}
    (hnone : e.forwardedBy c = none) (hhanded : e.handedTo c = none)
    (hslot : forwarding.state (log ++ [e]) c = forwarding.state log c ∨
      forwarding.state (log ++ [e]) c = none) : Ordered (log ++ [e]) c := by
  have hgrown := List.Passes.imp (fun _ _ hf => Forwards.append hf [e]) h
  rw [Ordered, forwarded_append, forwarded_of_none hnone, List.append_nil, handed_of_none hhanded]
  rcases hslot with hslot | hslot
  · rw [hslot]
    exact hgrown
  · rw [hslot]
    exact hgrown.drop

theorem Server.ordered_did {s' : Server} {l : Label} {c : ClientId} {o : Op} {r : o.Resp}
    (hr : server.Reach ok s) (hok : ok s l) (hstep : server.step s l = some s')
    (hlog : s'.log = s.log ++ [.did c o r]) (h : Ordered s.log c) :
    Ordered (s.log ++ [.did c o r]) c := by
  by_cases hcipher : ∃ q payload, o = .queueFrame q .ciphertext payload
  · obtain ⟨q, payload, rfl⟩ := hcipher
    obtain ⟨⟨_, hslot⟩, -⟩ := forwarding_kept.allowed hr hstep hlog
    obtain ⟨frame, hslot⟩ := Option.isSome_iff_exists.mp hslot
    cases r with
    | error e => exact h.quiet rfl rfl (.inr Watch.state_did_self)
    | ok u =>
      obtain ⟨s₀, l₀, name, hr₀, -, hlog₀, -, hname, ha, hanswer⟩ :=
        Server.did_reach (.step hr hok hstep) hlog
      rw [← hlog₀] at hname ha
      obtain ⟨frame', hcall, hforwards⟩ := Server.forwards_call hr₀ hname ha hanswer.symm
      rw [hlog₀] at hcall hforwards
      -- the frame in the slot is that of the call
      rw [Ordered, hslot] at h
      obtain ⟨earlier, hhanded⟩ := handed_of_call hcall
      obtain ⟨earlier', hhanded', -⟩ := id h
      obtain rfl : frame' = frame := by
        rw [hhanded] at hhanded'
        exact List.singleton_inj.mp (List.append_inj' hhanded' rfl).2
      have hone : forwarded [.did c (.queueFrame q .ciphertext payload) (.ok u)] c =
          [(q, payload)] := by
        simp [forwarded, Event.forwardedBy]
      have hempty : forwarding.state
          (s.log ++ [.did c (.queueFrame q .ciphertext payload) (.ok u)]) c = none :=
        Watch.state_did_self
      rw [Ordered, forwarded_append, hone, handed_of_none rfl, hempty]
      exact (h.imp fun _ _ hf => hf.append _).pass (hforwards.append _)
  · have hnone : (Event.did c o r).forwardedBy c = none := by
      unfold Event.forwardedBy
      split
      · next heq =>
        cases heq
        exact absurd ⟨_, _, rfl⟩ hcipher
      · rfl
    refine h.quiet hnone rfl (.inl ?_)
    rw [Watch.state_did_self]
    cases o with
    | queueFrame q type payload =>
      cases type with
      | ciphertext => exact absurd ⟨q, payload, rfl⟩ hcipher
      | _ => rfl
    | _ => rfl

theorem Server.ordered_of_reach (hs : server.Reach ok s) (c : ClientId) : Ordered s.log c := by
  have hinit : Ordered [] c := .nil
  refine hs.invariant (P := fun s => Ordered s.log c) hinit ?_
  rintro s ⟨n, env⟩ s' hr hok hold hstep
  obtain ⟨x', t', evs, hturn, hs'⟩ := Server.step_turn hstep
  have hlog : s'.log = s.log ++ evs := by rw [hs']
  rw [hlog]
  rcases hturn.events with rfl | ⟨e, rfl⟩
  · rw [List.append_nil]
    exact hold
  by_cases hc : e.client = some c
  · cases e with
    | received d frame =>
      obtain rfl := Option.some.inj hc
      have hone : handed [.received d frame] d = [frame] := by simp [handed, Event.handedTo]
      have hslot : forwarding.state (s.log ++ [.received d frame]) d = some frame := by
        rw [Watch.state_concat, Watch.event, if_pos rfl]
        rfl
      rw [Ordered, forwarded_append, forwarded_of_none rfl, List.append_nil, handed_append, hone,
        hslot]
      exact (List.Passes.imp (fun _ _ hf => Forwards.append hf _) hold).send frame
    | abort d =>
      obtain rfl := Option.some.inj hc
      refine hold.quiet rfl rfl (.inr ?_)
      rw [Watch.state_concat, Watch.event, if_pos rfl]
      rfl
    | returned d =>
      obtain rfl := Option.some.inj hc
      refine hold.quiet rfl rfl (.inr ?_)
      rw [Watch.state_concat, Watch.event, if_pos rfl]
      rfl
    | did d o r =>
      obtain rfl := Option.some.inj hc
      exact Server.ordered_did hr hok hstep hlog hold
    | login n d name => cases hc
    | wrote d bytes => cases hc
  · obtain ⟨hnone, hhanded⟩ := Event.quiet_of_client hc
    exact hold.quiet hnone hhanded (.inl (Watch.state_of_client hc))

/-- Whatever the schedule: the messages that `c` has forwarded, in order, each from a frame that
`c` was handed, later messages from later frames. -/
theorem Server.forwarded_in_order (hs : server.Reach ok s) (c : ClientId) :
    List.SublistForall₂ (Forwards s.log c) (forwarded s.log c) (handed s.log c) :=
  List.Passes.drop (Server.ordered_of_reach hs c)

end Order

end CipherChat
