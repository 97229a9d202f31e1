import CipherChat.AnswerQueue
import CipherChat.LinkStreams
import CipherChat.Requests
import Mathlib.Data.List.Count

/-!
# Pending packages and their answers

On a connection that is up, as many packages wait for a name as there are requests for it
that the server has not answered and answers that the client has not processed, provided
that the server answers every request.  It leaves one unanswered when `copy_peer_name`
refuses the name, or when there is no memory or no eventfd for the answer.
-/

namespace CipherChat

open Resumption

theorem encodeFrame_eq_wireFrame (type : FrameType) (payload : Bytes) :
    encodeFrame type payload = wireFrame (type.toByte :: payload) := by
  rw [encodeFrame, wireFrame, List.length_cons, Nat.add_comm]

theorem wireFrame_append_inj {frame frame' rest rest' : Bytes}
    (hframe : frame.length ≤ frameMaxSize) (hframe' : frame'.length ≤ frameMaxSize)
    (h : wireFrame frame ++ rest = wireFrame frame' ++ rest') : frame = frame' ∧ rest = rest' := by
  have hmax := frameMaxSize_eq
  rw [wireFrame, wireFrame, List.append_assoc, List.append_assoc] at h
  obtain ⟨hheader, hbody⟩ := List.append_inj h (by simp)
  have hlength := congrArg BigEndian.decode hheader
  rw [BigEndian.decode_encode (by omega), BigEndian.decode_encode (by omega)] at hlength
  exact List.append_inj hbody hlength

/-- The frames of a stream are those that have been cut off it, and those of what is left. -/
theorem frames_of_stream {frames : List OutgoingFrame} {handled : List Bytes} {rest : Bytes}
    (hfit : ∀ f ∈ frames, f.payload.length ≤ frameMaxSize - 1)
    (hhandled : ∀ frame ∈ handled, frame.length ≤ frameMaxSize)
    (h : encodeFrames frames = handled.flatMap wireFrame ++ rest) :
    frames.map OutgoingFrame.bytes = handled ++ (parseFrames rest).1 := by
  have hmax := frameMaxSize_eq
  induction handled generalizing frames with
  | nil =>
    rw [List.flatMap_nil, List.nil_append] at h
    rw [← h, encodeFrames, parseFrames_encodeFrames frames hfit]
    rfl
  | cons frame handled ih =>
    rw [List.flatMap_cons, List.append_assoc] at h
    cases frames with
    | nil =>
      have hlength := congrArg List.length h
      simp [encodeFrames, wireFrame] at hlength
      omega
    | cons f frames =>
      rw [encodeFrames, List.flatMap_cons, encodeFrame_eq_wireFrame] at h
      have hf := hfit f List.mem_cons_self
      obtain ⟨rfl, hrest⟩ := wireFrame_append_inj (by rw [List.length_cons]; omega)
        (hhandled frame List.mem_cons_self) h
      rw [List.map_cons, ih (fun g hg => hfit g (List.mem_cons_of_mem f hg))
        (fun frame hframe => hhandled frame (List.mem_cons_of_mem _ hframe)) hrest]
      rfl

theorem calledBytes_eq (log : List ClientEvent) :
    calledBytes log = encodeFrames ((calledFrames log).map fun f => ⟨f.1, f.2⟩) := by
  rw [calledBytes, encodeFrames, List.flatMap_map, List.flatMap_def]

def ClientProcess.Cause (c : ClientProcess) (l : ClientLabel) : ClientEvent → Prop
  | .received frame => c.callback = none ∧ l = .received (.ok (some frame)) ∧ Receivable frame
  | .note n => ∃ k env, c.callback = some (.op (.note n) k) ∧ l = .go env
  | _ => True

section

variable {cfg : ClientConfig} {c c' : ClientProcess} {l : ClientLabel}

theorem ClientProcess.dispatch_cause (hidle : c.callback = none) (h : c.dispatch cfg l = some c') :
    c'.log = c.log ∨ ∃ e, c'.log = c.log ++ [e] ∧ c.Cause l e := by
  unfold ClientProcess.dispatch at h
  cases l with
  | typed line =>
    cases line with
    | none =>
      cases h
      exact .inl rfl
    | some line =>
      dsimp only at h
      split at h
      · cases h
      · cases h
        exact .inr ⟨_, rfl, trivial⟩
  | received result =>
    cases result with
    | error e =>
      cases h
      exact .inl rfl
    | ok frame =>
      cases frame with
      | none =>
        cases h
        exact .inl rfl
      | some frame =>
        dsimp only at h
        split at h
        · next hreceivable =>
          cases h
          exact .inr ⟨_, rfl, hidle, rfl, hreceivable⟩
        · cases h
  | pollFailed =>
    cases h
    exact .inl rfl
  | go env => cases h

theorem ClientProcess.step_cause (h : c.step cfg l = some c') :
    c'.log = c.log ∨ ∃ e, c'.log = c.log ++ [e] ∧ c.Cause l e := by
  unfold ClientProcess.step at h
  split at h
  · next p env hp =>
    rcases ClientProcess.move_cases h with ⟨s, rfl, rfl⟩ | ⟨bytes, k, pc, accepted, rfl, -, rfl⟩ |
      ⟨bytes, k, failed, rfl, -, rfl⟩ | ⟨bytes, k, e, failed, rfl, -, rfl⟩ |
      ⟨o, k, r, rfl, -, rfl⟩
    · exact .inl rfl
    · exact .inr ⟨_, rfl, trivial⟩
    · exact .inl rfl
    · exact .inr ⟨_, rfl, trivial⟩
    · cases o with
      | note n => exact .inr ⟨_, rfl, k, env, hp, rfl⟩
      | _ => exact .inl (List.append_nil _)
  · cases h
  · next hidle =>
    split at h
    · exact ClientProcess.dispatch_cause hidle h
    · cases h

end

/-- What a client passes to `handle_server_frame` came from `receive_frame`. -/
theorem receivedFrames_fit {cfg : ClientConfig} {store : FileStore Bytes UInt8}
    {c : ClientProcess} (hc : (client cfg store).Reachable c) :
    ∀ frame ∈ receivedFrames c.log, frame.length ≤ frameMaxSize := by
  refine hc.invariant (P := fun c => ∀ frame ∈ receivedFrames c.log, frame.length ≤ frameMaxSize)
    (fun frame h => by cases h) ?_
  intro c l c' hr _ hold hstep frame hframe
  rcases ClientProcess.step_cause hstep with hlog | ⟨e, hlog, hcause⟩
  · rw [hlog] at hframe
    exact hold frame hframe
  · rw [hlog, receivedFrames_append] at hframe
    rcases List.mem_append.mp hframe with hframe | hframe
    · exact hold frame hframe
    · cases e with
      | received frame' =>
        obtain rfl := List.mem_singleton.mp hframe
        exact hcause.2.2.1
      | _ => cases hframe

theorem Server.queued_fit {ok : Server → Label → Prop} {s : Server} (hs : server.Reach ok s)
    (c : ClientId) : ∀ f ∈ queued s.log c, f.payload.length ≤ frameMaxSize - 1 := by
  intro f hf
  obtain ⟨e, he, hqueued⟩ := List.mem_filterMap.mp hf
  obtain ⟨before, after, hlog⟩ := List.append_of_mem he
  unfold Event.queuedTo at hqueued
  split at hqueued
  · next d r type payload =>
    split at hqueued
    · obtain rfl := Option.some.inj hqueued
      obtain ⟨s₀, l, name, -, -, -, -, -, -, hanswer⟩ := Server.did_reach hs hlog
      simp only [perform, Shared.onClients] at hanswer
      unfold ClientManager.queueFrameToClientId at hanswer
      by_contra hlong
      rw [if_pos (c := payload.length > frameMaxSize - 1) (not_le.mp hlong)] at hanswer
      split at hanswer
      · cases hanswer
      · cases hanswer
    · cases hqueued
  · cases hqueued

theorem Server.handed_fit {ok : Server → Label → Prop} {s : Server} (hs : server.Reach ok s)
    (c : ClientId) : ∀ frame ∈ handed s.log c, frame.length ≤ frameMaxSize := by
  intro frame hframe
  obtain ⟨e, he, hhanded⟩ := List.mem_filterMap.mp hframe
  obtain ⟨before, after, hlog⟩ := List.append_of_mem he
  cases e with
  | received d frame' =>
    obtain ⟨s₀, ⟨n, env⟩, s₁, hs₀, -, hstep, hbefore, hafter, -⟩ := Server.event_reach hs hlog
    obtain ⟨x', t', evs, hturn, rfl⟩ := Server.step_turn hstep
    have hfits := Server.fits_of_reach hs₀ n
    dsimp only at hafter
    rw [hbefore] at hafter
    obtain rfl := List.append_cancel_left hafter
    generalize s₀.threads n = t at hturn hfits
    cases hturn with
    | @handle u w _ hpc =>
      change (if u.id = c then some frame' else none) = some frame at hhanded
      split at hhanded
      · obtain rfl := Option.some.inj hhanded
        exact (hfits w rfl).frame _ hpc
      · cases hhanded
  | _ => cases hhanded

def Served (log : List ClientEvent) : Prop :=
  ∀ before frame after name key, log = before ++ .received frame :: after →
    frame.head? = some FrameType.peerPk.toByte → parsePeerPk frame = some (name, key) →
    (books before).pending.any (Books.isFor name) = true

theorem Served.of_append {log : List ClientEvent} {e : ClientEvent} (h : Served (log ++ [e])) :
    Served log := by
  intro before frame after name key hlog
  exact h before frame (after ++ [e]) name key (by rw [hlog]; simp)

theorem Served.concat {log : List ClientEvent} {e : ClientEvent} (h : Served log)
    (he : ∀ frame name key, e = .received frame → frame.head? = some FrameType.peerPk.toByte →
      parsePeerPk frame = some (name, key) → (books log).pending.any (Books.isFor name) = true) :
    Served (log ++ [e]) := by
  intro before frame after name key hlog
  rcases List.eq_nil_or_concat' after with rfl | ⟨after, x, rfl⟩
  · obtain ⟨rfl, hlast⟩ := List.append_inj' hlog rfl
    exact he frame name key (List.singleton_inj.mp hlast)
  · rw [← List.cons_append, ← List.append_assoc] at hlog
    exact h before frame after name key (List.append_inj' hlog rfl).1

/-- Whether the callback has still to take a package for `name` off the list. -/
def Role.replies (name : Bytes) : Role → ℕ
  | .reply name' _ => if name' = name then 1 else 0
  | _ => 0

theorem Role.replies_settled {role : Role} (h : ∀ name key, role ≠ .reply name key)
    (name : Bytes) : role.replies name = 0 := by
  cases role with
  | reply name' key => exact absurd rfl (h name' key)
  | _ => rfl

theorem answers_consumed {cfg : ClientConfig} {log : List ClientEvent}
    (hlawful : LawfulLog cfg log) (hserved : Served log) (name : Bytes) :
    answersFor name (receivedFrames log) =
      (consumedFor name log).length + (books log).role.replies name := by
  induction log using List.reverseRecOn with
  | nil => rfl
  | append_singleton log e ih =>
    obtain ⟨hlog, he⟩ := hlawful.of_append
    have hold := ih hlog hserved.of_append
    have hsplit : consumedFor name (log ++ [e]) = consumedFor name log ++ consumedFor name [e] :=
      List.filterMap_append
    rw [receivedFrames_append, answersFor, List.countP_append, hsplit, List.length_append,
      books_append]
    change answersFor name _ + answersFor name _ =
      _ + _ + (Books.next (books log) e).role.replies name
    rw [hold]
    -- what neither brings an answer nor consumes a package
    have hpass : answersFor name (receivedFrames [e]) = 0 → consumedFor name [e] = [] →
        (Books.next (books log) e).role.replies name = (books log).role.replies name →
        (consumedFor name log).length + (books log).role.replies name +
            answersFor name (receivedFrames [e]) =
          (consumedFor name log).length + (consumedFor name [e]).length +
            (Books.next (books log) e).role.replies name := by
      intro hanswers hconsumed hreplies
      rw [hanswers, hconsumed, hreplies]
      rfl
    cases e with
    | accepted bytes => exact hpass rfl rfl rfl
    | failed errno => exact hpass rfl rfl rfl
    | typed line => exact hpass rfl rfl (Role.replies_settled he name).symm
    -- the answer is in hand until the package goes
    | received frame =>
      rw [Role.replies_settled he name]
      have hone : receivedFrames [.received frame] = [frame] := rfl
      change _ = _ + 0 + ((books log).onFrame frame).replies name
      rw [hone, answersFor, List.countP_singleton, answersAbout, Books.onFrame]
      by_cases hhead : frame.head? = some FrameType.peerPk.toByte
      · rw [if_pos hhead]
        cases hparse : parsePeerPk frame with
        | none => simp [Role.replies]
        | some reply =>
          obtain ⟨name', key⟩ := reply
          have hfound := hserved log frame [] name' key rfl hhead hparse
          simp [hhead, hfound, Role.replies]
      · rw [if_neg hhead]
        simp [hhead, Role.replies]
    | note n =>
      cases n with
      | queued package => exact hpass rfl rfl rfl
      | sendFrame type payload =>
        refine hpass rfl rfl ?_
        change ((books log).onNote (.sendFrame type payload)).role.replies name = _
        rw [Books.onNote]
        split
        · next hrole =>
          rw [hrole]
          rfl
        · rfl
      | consumed package name' key =>
        obtain ⟨bytes, hrole, -⟩ := he
        change _ + (Role.replies name (books log).role) + 0 = _ + _ + 0
        rw [hrole]
        by_cases hname : name' = name
        · simp [Role.replies, consumedFor, hname]
        · simp [Role.replies, consumedFor, hname]

def ClientProcess.requests (c : ClientProcess) : Option Bytes :=
  match c.callback with
  | some (.op (.note (.sendFrame .requestPk name)) _) => some name
  | _ => none

/-- The operation queues an answer to a request. -/
def Op.answers : Op → Bool
  | .queueFrame _ .peerPk _ => true
  | _ => false

namespace Link

variable (g : LinkConfig) (k : Link) (u : Session)

def upFrames : List Bytes := (parseFrames ((k.server.threads g.thread).reading ++ k.up)).1

/-- The frames on their way to the client, from the one that `receive_frame` is reading:
in the queue of the connection, staged by the worker, and in the queue of the client. -/
def downFrames : List Bytes :=
  (parseFrames (k.frame ++ k.down ++ (k.server.threads g.thread).staged.getD [] ++
    encodeFrames (k.server.shared.clients.pending u.index))).1

/-- The requests for `name` that the server has not handled: those on their way, and that of
the call that runs, until it is answered. -/
def requestsAhead (name : Bytes) : ℕ :=
  (k.upFrames g).count (FrameType.requestPk.toByte :: name) +
    (answering.state k.server.log u.id).owes name

/-- The answers about `name` that the client has not processed. -/
def answersAhead (name : Bytes) : ℕ := answersFor name (k.downFrames g u)

def Calm : Prop :=
  (∀ frame ∈ k.upFrames g, frame.head? ≠ some FrameType.requestPk.toByte) ∧
    (answering.state k.server.log u.id).asked = none ∧
    ∀ frame ∈ k.downFrames g u, frame.head? ≠ some FrameType.peerPk.toByte

def KeepsRoom : LinkLabel → Prop
  | .server n env => ∀ v, (k.server.threads g.thread).serves = some v →
      ¬Overflows k.server (n, env) v.index
  | _ => True

/-- A name that the client asks for is one that `copy_peer_name` accepts; when the server queues
an answer for it, there is memory for it and `eventfd_write` succeeds. -/
def Answerable : LinkLabel → Prop
  | .server n env => n = g.thread → (k.server.threads n).nextOp.any Op.answers = true →
      (malloc k.server.shared.clients.heap env.libc.address).isSome = true ∧
        env.libc.eventfdWrite = none
  | .client (.go _) => ∀ name ∈ k.client.requests, copyPeerName name = some name
  | _ => True

instance (l : LinkLabel) : Decidable (k.Answerable g l) :=
  match l with
  | .server _ _ => inferInstanceAs (Decidable (_ → _ → _ ∧ _))
  | .fetch _ => .isTrue trivial
  | .client (.go _) => inferInstanceAs (Decidable (∀ name ∈ k.client.requests, _))
  | .client (.typed _) | .client (.received _) | .client .pollFailed => .isTrue trivial

end Link

theorem Thread.slot_of_serves {t : Thread} {u : Session} (h : t.serves = some u) :
    t.slot = some u.index := by
  cases t with
  | working v w =>
    obtain rfl : v = u := Option.some.inj (Thread.session_of_serves h)
    rfl
  | activating v =>
    cases h
    rfl
  | starting v =>
    cases h
    rfl
  | handling v w p =>
    cases h
    rfl
  | _ => cases h

theorem Thread.staged_of_serves {t : Thread} {u : Session} (h : t.serves = some u) :
    ∃ bytes, t.staged = some bytes := by
  cases t with
  | working v w => exact ⟨_, rfl⟩
  | activating v => exact ⟨_, rfl⟩
  | starting v => exact ⟨_, rfl⟩
  | handling v w p => exact ⟨_, rfl⟩
  | _ => cases h

section

variable {g : LinkConfig} {k : Link} {u : Session}

theorem streams_called (h : k.Streams g u) (hs : server.Reachable k.server)
    (hc : (client g.client g.store).Reachable k.client) (hidle : k.client.callback = none) :
    ((calledFrames k.client.log).map fun f => f.1.toByte :: f.2) =
      handed k.server.log u.id ++ k.upFrames g := by
  have hstream : encodeFrames ((calledFrames k.client.log).map fun f => ⟨f.1, f.2⟩) =
      (handed k.server.log u.id).flatMap wireFrame ++
        ((k.server.threads g.thread).reading ++ k.up) := by
    rw [← calledBytes_eq, ← (h.whole.idle hidle).2, h.up, List.append_assoc]
  have hfit : ∀ f ∈ (calledFrames k.client.log).map fun f => (⟨f.1, f.2⟩ : OutgoingFrame),
      f.payload.length ≤ frameMaxSize - 1 := by
    intro f hf
    obtain ⟨f', hf', rfl⟩ := List.mem_map.mp hf
    exact calledFrames_fit hc f' hf'
  have hframes := frames_of_stream hfit (Server.handed_fit hs u.id) hstream
  rw [List.map_map] at hframes
  exact hframes

theorem streams_queued (h : k.Streams g u) (hs : server.Reachable k.server)
    (hc : (client g.client g.store).Reachable k.client) :
    (queued k.server.log u.id).map OutgoingFrame.bytes =
      receivedFrames k.client.log ++ k.downFrames g u := by
  have hslot := Thread.slot_of_serves h.serves
  obtain ⟨bytes, hstaged⟩ := Thread.staged_of_serves h.serves
  obtain ⟨l, hl, -, hid, -⟩ := (Server.wf_of_reach hs).owns g.thread u.index hslot
  have hflow := (Server.delivers_of_reach hs).flow g.thread u.index l bytes hslot hl hstaged
  obtain ⟨-, -, -, -, -, -, hpending⟩ := ClientManager.login_some hl
  rw [← hid u (Thread.session_of_serves h.serves), ← hpending, h.down] at hflow
  refine frames_of_stream (Server.queued_fit hs u.id) (receivedFrames_fit hc) ?_
  rw [← hflow, hstaged]
  simp only [Option.getD_some, List.append_assoc]

/-- What holds while the thread serves `u` and every request is answered. -/
structure Link.Accounts (g : LinkConfig) (k : Link) (u : Session) : Prop where
  streams : k.Streams g u
  unmarked : ¬k.server.shared.clients.Failed u.index
  named : ∀ name, (.requestPk, name) ∈ calledFrames k.client.log → copyPeerName name = some name
  answered : AllAnswered k.server.log u.id
  served : Served k.client.log

theorem accounts_requests (h : k.Accounts g u) (hs : server.Reachable k.server)
    (hc : (client g.client g.store).Reachable k.client) (hidle : k.client.callback = none)
    (name : Bytes) :
    (calledFrames k.client.log).count (.requestPk, name) =
      requestsFor name (handed k.server.log u.id) +
        (k.upFrames g).count (FrameType.requestPk.toByte :: name) := by
  have hcalled := streams_called h.streams hs hc hidle
  have hinj : Function.Injective fun f : FrameType × Bytes => f.1.toByte :: f.2 := by
    intro f f' heq
    obtain ⟨htype, hpayload⟩ := List.cons.inj heq
    exact Prod.ext (FrameType.toByte_injective htype) hpayload
  have hcount : (calledFrames k.client.log).count (.requestPk, name) =
      ((calledFrames k.client.log).map fun f => f.1.toByte :: f.2).count
        (FrameType.requestPk.toByte :: name) := (List.count_map_of_injective _ _ hinj _).symm
  rw [hcount, hcalled, List.count_append]
  congr 1
  rw [requestsFor, List.count]
  refine List.countP_congr fun frame hframe => ?_
  rw [beq_iff_eq, decide_eq_true_iff]
  constructor
  · rintro rfl
    have hmem : FrameType.requestPk.toByte :: name ∈
        (calledFrames k.client.log).map fun f => f.1.toByte :: f.2 := by
      rw [hcalled]
      exact List.mem_append_left _ hframe
    obtain ⟨f, hf, hbytes⟩ := List.mem_map.mp hmem
    obtain rfl : f = (.requestPk, name) := hinj hbytes
    rw [requestedName_request]
    exact h.named name hf
  · exact fun hname => (requestedName_some hname).1

theorem accounts_balance (h : k.Accounts g u) (hs : server.Reachable k.server)
    (hc : (client g.client g.store).Reachable k.client) (hidle : k.client.callback = none)
    (name : Bytes) :
    ((books k.client.log).pending.filter (Books.isFor name)).length =
      k.requestsAhead g u name + k.answersAhead g u name := by
  have hbooked := Booked.of_reachable hc
  have hrequests := requests_balanced hc h.streams.whole.clean hidle name
  rw [accounts_requests h hs hc hidle name, Server.answers_balanced hs u.id name h.answered,
    streams_queued h.streams hs hc, answersFor, List.countP_append] at hrequests
  have hconsumed := answers_consumed hbooked.lawful h.served name
  rw [Role.replies_settled (hbooked.idle hidle).served, answersFor] at hconsumed
  have hqueued := congrArg List.length (queued_eq_consumed_append hbooked.lawful name)
  rw [List.length_append] at hqueued
  rw [Link.requestsAhead, Link.answersAhead, answersFor]
  omega

end

theorem Turn.nextOp_of_did {n : ℕ} {libc : Libc} {x x' : Shared} {t t' : Thread} {evs : List Event}
    (h : Turn n libc x t x' t' evs) {c : ClientId} {o : Op} {r : o.Resp}
    (hdid : .did c o r ∈ evs) : t.nextOp = some o := by
  cases h with
  | op u w o' k =>
    cases List.mem_singleton.mp hdid
    rfl
  | abortOp u o' k =>
    cases List.mem_singleton.mp hdid
    rfl
  | login hadd => cases List.mem_singleton.mp hdid
  | write hk => cases List.mem_singleton.mp hdid
  | handle hpc => cases List.mem_singleton.mp hdid
  | ret u w keep => cases List.mem_singleton.mp hdid
  | abort u => cases List.mem_singleton.mp hdid
  | abortRet u => cases List.mem_singleton.mp hdid
  | _ => cases hdid

theorem Thread.activated_of_nextOp {t : Thread} {u : Session} {o : Op} (h : t.serves = some u)
    (ho : t.nextOp = some o) : t.activated = true := by
  cases t with
  | handling v w p => rfl
  | aborting v p => cases h
  | _ => cases ho

section

variable {g : LinkConfig} {s : Server} {k : Link} {u : Session}

/-- A step of the server marks the client of the link only when it overflows its queue, and
queues the answers to its requests. -/
theorem accounts_server {n : ℕ} {env : Env} {server' : Server} (h : k.Accounts g u)
    (hs : server.Reachable k.server) (hroom : k.KeepsRoom g (.server n env))
    (hanswerable : k.Answerable g (.server n env))
    (hstep : k.server.step (n, env) = some server') :
    ¬server'.shared.clients.Failed u.index ∧ AllAnswered server'.log u.id := by
  have hserves := h.streams.serves
  have hsession := Thread.session_of_serves hserves
  refine ⟨fun hf => hroom u hserves ((Server.failed_step hs hstep h.unmarked).mp hf), ?_⟩
  obtain ⟨x', t', evs, hturn, hserver'⟩ := Server.step_turn hstep
  have hlog : server'.log = k.server.log ++ evs := by rw [hserver']
  rw [hlog]
  refine AllAnswered.append.mpr ⟨h.answered, fun payload r hdid => ?_⟩
  by_cases hn : n = g.thread
  · subst hn
    have hnext := hturn.nextOp_of_did hdid
    obtain ⟨hmemory, hwake⟩ := hanswerable rfl (by rw [hnext]; rfl)
    have hevs : evs = [.did u.id (.queueFrame u.id .peerPk payload) r] := by
      rcases hturn.events with rfl | ⟨e, rfl⟩
      · cases hdid
      · rw [List.mem_singleton.mp hdid]
    rw [hevs] at hlog
    exact Server.answer_queued hs hstep hlog (Thread.activated_of_nextOp hserves hnext) hsession
      (Thread.slot_of_serves hserves) hmemory hwake (hroom u hserves) h.unmarked
  · exact absurd rfl (Server.events_of_other hs hturn hsession (Ne.symm hn) _ hdid)

theorem answersAhead_pos {frame name key : Bytes} (hframe : k.frame = wireFrame frame)
    (hlength : frame.length ≤ frameMaxSize) (hhead : frame.head? = some FrameType.peerPk.toByte)
    (hparse : parsePeerPk frame = some (name, key)) : 0 < k.answersAhead g u name := by
  have hmax := frameMaxSize_eq
  obtain ⟨payload, rfl⟩ : ∃ payload, frame = FrameType.peerPk.toByte :: payload :=
    ⟨_, List.eq_cons_of_mem_head? hhead⟩
  rw [List.length_cons] at hlength
  have hnext : ∀ rest, (parseFrames (wireFrame (FrameType.peerPk.toByte :: payload) ++ rest)).1 =
      (FrameType.peerPk.toByte :: payload) :: (parseFrames rest).1 := by
    intro rest
    rw [← encodeFrame_eq_wireFrame,
      parseFrames_some (parseFrame_encodeFrame .peerPk payload rest (by omega))]
  rw [Link.answersAhead, Link.downFrames, hframe, List.append_assoc, List.append_assoc, hnext,
    answersFor, List.countP_cons_of_pos]
  · exact Nat.succ_pos _
  · simp [answersAbout, hparse]

/-- A step of the client asks for names that the server answers, and processes answers that it
waits for. -/
theorem accounts_client {l : ClientLabel} {io : Bytes × Bytes} {c : ClientProcess}
    (h : k.Accounts g u) (hs : server.Reachable k.server)
    (hc : (client g.client g.store).Reachable k.client)
    (hanswerable : k.Answerable g (.client l)) (hio : k.clientIo g l = some io)
    (hstep : k.client.step g.client l = some c) :
    (∀ name, (.requestPk, name) ∈ calledFrames c.log → copyPeerName name = some name) ∧
      Served c.log := by
  rcases ClientProcess.step_cause hstep with hlog | ⟨e, hlog, hcause⟩
  · rw [hlog]
    exact ⟨h.named, h.served⟩
  rw [hlog]
  constructor
  · intro name hname
    have hsplit : calledFrames (k.client.log ++ [e]) =
        calledFrames k.client.log ++ calledFrames [e] := List.filterMap_append
    rw [hsplit] at hname
    rcases List.mem_append.mp hname with hname | hname
    · exact h.named name hname
    · cases e with
      | note n =>
        cases n with
        | sendFrame type payload =>
          cases List.mem_singleton.mp hname
          obtain ⟨rest, env, hcallback, rfl⟩ := hcause
          refine hanswerable name ?_
          rw [ClientProcess.requests, hcallback]
          rfl
        | _ => cases hname
      | _ => cases hname
  · refine h.served.concat fun frame name key he hhead hparse => ?_
    subst he
    obtain ⟨hidle, rfl, hreceivable⟩ := hcause
    unfold Link.clientIo at hio
    rw [hidle] at hio
    dsimp only at hio
    split at hio
    · next hframe =>
      have hpos := answersAhead_pos (g := g) (u := u) hframe hreceivable.1 hhead hparse
      have hbalance := accounts_balance h hs hc hidle name
      obtain ⟨package, hmem⟩ := List.exists_mem_of_length_pos
        (l := (books k.client.log).pending.filter (Books.isFor name)) (by omega)
      obtain ⟨hmem, hfor⟩ := List.mem_filter.mp hmem
      exact List.any_eq_true.mpr ⟨package, hmem, hfor⟩
    · cases hio

theorem link_accounts (hs : server.Reachable s) (hn : s.threads g.thread = .activating u)
    (hk : (link g s).Reach (fun k l => k.KeepsRoom g l ∧ k.Answerable g l) k) :
    (k.server.threads g.thread).ended = true ∨ k.Accounts g u := by
  refine hk.invariant (P := fun k => (k.server.threads g.thread).ended = true ∨ k.Accounts g u)
    ?_ ?_
  · have hwf := Server.wf_of_reach hs
    obtain ⟨l, hl, -, -, hearly⟩ := hwf.owns g.thread u.index (by rw [hn]; rfl)
    obtain ⟨-, hfailed, -⟩ := hearly (by rw [hn]; rfl)
    have hlogin := hwf.session_logged g.thread u (by rw [hn]; rfl)
    have hsilent := (Server.early_silent hs).2 g.thread u.id u.username hlogin (by rw [hn]; rfl)
    refine .inr ⟨link_streams_init hs hn, fun hmark => ?_, fun name h => (by cases h),
      fun payload r h => absurd rfl (hsilent _ h), fun before frame after name key h => ?_⟩
    · obtain ⟨-, -, -, -, hunmarked, -⟩ := ClientManager.login_some hl
      cases (hunmarked.trans hfailed).symm.trans hmark
    · cases (List.append_eq_nil_iff.mp (Eq.symm h)).2
  · intro k l k' hr hok hold hstep
    have hserver := link_server_reachable hs hr.reachable
    have hclient := link_client_reachable hr.reachable
    rcases hold with hended | haccounts
    · exact .inl (link_ended hstep hended)
    refine (link_streams hs hn (.step hr hok hstep)).imp_right fun hstreams => ?_
    rcases Link.step_cases hstep with ⟨n, env, up, down, server', rfl, -, hserverStep, rfl⟩ |
      ⟨count, rfl, rfl⟩ | ⟨cl, accepted, frame, c, rfl, hio, hclientStep, rfl⟩
    · obtain ⟨hunmarked, hanswered⟩ := accounts_server haccounts hserver hok.1 hok.2 hserverStep
      exact ⟨hstreams, hunmarked, haccounts.named, hanswered, haccounts.served⟩
    · exact ⟨hstreams, haccounts.unmarked, haccounts.named, haccounts.answered, haccounts.served⟩
    · obtain ⟨hnamed, hserved⟩ := accounts_client haccounts hserver hclient hok.2 hio hclientStep
      exact ⟨hstreams, haccounts.unmarked, hnamed, haccounts.answered, hserved⟩

end

/-- As many packages wait for a name as there are requests for it that the server has not handled
and answers that the client has not processed; when none is on its way, no package waits. -/
def Link.Answered (g : LinkConfig) (k : Link) (u : Session) : Prop :=
  ∃ cells, LinkedQueue.Cells k.client.state.heap k.client.state.pending.head cells ∧
    (∀ name, cells.countP (fun cell => cell.2.recipient == name) =
      k.requestsAhead g u name + k.answersAhead g u name) ∧
    (k.Calm g u → cells = [])

section

variable {g : LinkConfig} {s : Server} {k : Link} {u : Session}

theorem Link.Calm.ahead (h : k.Calm g u) (name : Bytes) :
    k.requestsAhead g u name + k.answersAhead g u name = 0 := by
  obtain ⟨hup, hasked, hdown⟩ := h
  have hrequests : (k.upFrames g).count (FrameType.requestPk.toByte :: name) = 0 := by
    refine List.count_eq_zero.mpr fun hmem => ?_
    exact hup _ hmem rfl
  have hanswers : answersFor name (k.downFrames g u) = 0 := by
    refine List.countP_eq_zero.mpr fun frame hframe => ?_
    simp [answersAbout, hdown frame hframe]
  rw [Link.requestsAhead, Link.answersAhead, hrequests, owes_none hasked, hanswers]

/-- In every run, with any lines, any other users and any schedule, while the connection is up
and the queue of the client does not overflow: between two callbacks every pending package has
its request or its answer on the way, if the client asks for no name that `copy_peer_name`
refuses and the server has memory and an eventfd for each answer. -/
theorem pending_answered (hs : Welcomed g s)
    (hk : (link g s).Reach (fun k l => k.KeepsRoom g l ∧ k.Answerable g l) k)
    (hu : (k.server.threads g.thread).serves = some u) (hidle : k.client.callback = none) :
    k.Answered g u := by
  have hserver := link_server_reachable hs.reachable hk.reachable
  have hclient := link_client_reachable hk.reachable
  obtain ⟨v, hv⟩ : ∃ v, s.threads g.thread = .activating v := by
    have hactivating := hs.activating
    unfold Thread.isActivating at hactivating
    split at hactivating
    · next v hv => exact ⟨v, hv⟩
    · cases hactivating
  have haccounts : k.Accounts g u := by
    rcases link_accounts hs.reachable hv hk with hended | haccounts
    · rw [Thread.serves_of_ended hended] at hu
      cases hu
    · obtain rfl := Option.some.inj (hu.symm.trans haccounts.streams.serves)
      exact haccounts
  obtain ⟨⟨cells, hstores, hcells⟩, -⟩ := (Booked.of_reachable hclient).idle hidle
  have hcount : ∀ name, cells.countP (fun cell => cell.2.recipient == name) =
      k.requestsAhead g u name + k.answersAhead g u name := by
    intro name
    rw [← accounts_balance haccounts hserver hclient hidle name, ← hcells,
      ← List.countP_eq_length_filter, List.countP_map]
    rfl
  refine ⟨cells, hstores.cells, hcount, fun hcalm => ?_⟩
  cases cells with
  | nil => rfl
  | cons cell cells =>
    have hzero := (hcount cell.2.recipient).trans (hcalm.ahead _)
    rw [List.countP_cons_of_pos (by simp)] at hzero
    cases hzero

end

def Link.hasRoom (g : LinkConfig) (k : Link) : Bool :=
  (k.server.threads g.thread).serves.all fun v =>
    (k.server.shared.clients.pending v.index).length < maxOutgoingFrames

theorem keepsRoom_of_hasRoom {g : LinkConfig} {k : Link} (h : k.hasRoom g = true) (l : LinkLabel) :
    k.KeepsRoom g l := by
  cases l with
  | server n env =>
    intro v hv hoverflows
    obtain ⟨c, type, payload, -, -, -, -, -, hfull⟩ := hoverflows
    rw [Link.hasRoom, hv] at h
    simp [hfull] at h
  | _ => trivial

/-- Alice's connection after `labels`, when every step meets `ok`. -/
def aliceRunOf (ok : Link → LinkLabel → Prop) [∀ k l, Decidable (ok k l)]
    (labels : List LinkLabel) : Option (Server × Link) := do
  let s ← server.run server.init welcomeLabels
  let k ← (link aliceLink s).runOf ok (link aliceLink s).init labels
  some (s, k)

theorem aliceRunOf_reach {ok : Link → LinkLabel → Prop} [∀ k l, Decidable (ok k l)]
    {labels : List LinkLabel} {s : Server} {k : Link} (h : aliceRunOf ok labels = some (s, k))
    (hwelcomed : (s.threads 0).isActivating = true) :
    Welcomed aliceLink s ∧ (link aliceLink s).Reach ok k := by
  unfold aliceRunOf at h
  obtain ⟨s', hs, h⟩ := Option.bind_eq_some_iff.mp h
  obtain ⟨k', hk, h⟩ := Option.bind_eq_some_iff.mp h
  cases h
  exact ⟨⟨.run .init hs, hwelcomed⟩, .runOf .init hk⟩

theorem one_lt_maxClients : 1 < maxClients := by decide

def aliceSession : Session := ⟨⟨1, one_lt_maxClients⟩, 2, ascii "alice"⟩

/-- Alice's file for Bob waits while her request is on its way. -/
theorem pending_answered_asked : ∃ s k u, Welcomed aliceLink s ∧
    (link aliceLink s).Reach (fun k l => k.KeepsRoom aliceLink l ∧ k.Answerable aliceLink l) k ∧
    (k.server.threads 0).serves = some u ∧ k.client.callback = none ∧
    k.client.state.pending.head = some 7 ∧ k.Answered aliceLink u := by
  have hrun : (aliceRunOf (fun k l => k.hasRoom aliceLink = true ∧ k.Answerable aliceLink l)
      (aliceAsks (ascii "/file bob a") 3)).map (fun r => ((r.1.threads 0).isActivating,
        (r.2.server.threads 0).serves, r.2.client.callback.isNone,
        r.2.client.state.pending.head)) = some (true, some aliceSession, true, some 7) := by
    decide +kernel
  obtain ⟨⟨s, k⟩, hsk, hstate⟩ := Option.map_eq_some_iff.mp hrun
  simp only [Prod.mk.injEq] at hstate
  obtain ⟨hwelcomed, hserves, hidle, hhead⟩ := hstate
  obtain ⟨hs, hk⟩ := aliceRunOf_reach hsk hwelcomed
  have hnone : k.client.callback = none := Option.isNone_iff_eq_none.mp hidle
  have hreach := hk.mono fun k l h => And.intro (keepsRoom_of_hasRoom h.1 l) h.2
  exact ⟨s, k, aliceSession, hs, hreach, hserves, hnone, hhead,
    pending_answered hs hreach hserves hnone⟩

/-- The text that answers a request whose name `copy_peer_name` refuses. -/
def refusal : Bytes := FrameType.text.toByte :: ascii "Invalid command format: public key request\n"

/-- Alice writes to a name that is a control character.  Her request is refused with a text,
which her client displays. -/
def refusedLabels : List LinkLabel :=
  aliceAsks (ascii "/msg \x01 hi") 1 ++
    aliceReads (FrameType.registerPk.toByte :: Receiver.alicePublicKey) ++ aliceThread 2 ++
    aliceReads [FrameType.requestPk.toByte, 1] ++
    .server 0 { libc := { address := some 500 } } :: (aliceThread 1 ++ aliceWrites ++
    [.fetch 4, .fetch 37] ++ aliceThread 3 ++
    [.server 0 { write := .written 7 }, .fetch 7, .client (.received (.ok (some refusal)))] ++
    aliceGoes 2)

/-- Nothing is on its way any more, and Alice's message still waits. -/
theorem refused_request_leaves_package : ¬∀ g s k u, Welcomed g s →
    (link g s).Reach (fun k l => k.KeepsRoom g l) k →
    (k.server.threads g.thread).serves = some u → k.client.callback = none →
    k.Answered g u := by
  intro hclaim
  have hrun : (aliceRunOf (fun k _ => k.hasRoom aliceLink = true) refusedLabels).map
      (fun r => ((r.1.threads 0).isActivating && r.2.client.callback.isNone,
        ((r.2.server.threads 0).reading ++ r.2.up).isEmpty &&
          (r.2.frame ++ r.2.down ++ (r.2.server.threads 0).staged.getD [] ++
            encodeFrames (r.2.server.shared.clients.pending aliceSession.index)).isEmpty &&
          (answering.state r.2.server.log aliceSession.id).asked.isNone,
        (r.2.server.threads 0).serves, r.2.client.state.pending.head)) =
      some (true, true, some aliceSession, some 7) := by
    decide +kernel
  obtain ⟨⟨s, k⟩, hsk, hstate⟩ := Option.map_eq_some_iff.mp hrun
  simp only [Prod.mk.injEq, Bool.and_eq_true, List.isEmpty_iff, Option.isNone_iff_eq_none] at hstate
  obtain ⟨⟨hwelcomed, hidle⟩, ⟨⟨hup, hdown⟩, hasked⟩, hserves, hhead⟩ := hstate
  obtain ⟨hs, hk⟩ := aliceRunOf_reach hsk hwelcomed
  have hcalm : k.Calm aliceLink aliceSession := by
    refine ⟨fun frame hframe => ?_, hasked, fun frame hframe => ?_⟩
    · rw [Link.upFrames, show aliceLink.thread = 0 from rfl, hup, parseFrames_none rfl] at hframe
      cases hframe
    · rw [Link.downFrames, show aliceLink.thread = 0 from rfl, hdown,
        parseFrames_none rfl] at hframe
      cases hframe
  obtain ⟨cells, hcells, -, hempty⟩ := hclaim aliceLink s k aliceSession hs
    (hk.mono fun k l h => keepsRoom_of_hasRoom h l) hserves hidle
  rw [hempty hcalm, hhead] at hcells
  cases hcells

end CipherChat
