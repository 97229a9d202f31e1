import CipherChat.Answers
import CipherChat.Blocking

/-!
# What a link carries

While the thread of a link serves its client, the bytes that one end has written are, in
order, the frames that the other end has handled, what it has read of the next one, and
what is still in the queue between them.
-/

namespace CipherChat

open Resumption

section

variable {ok : Server → Label → Prop} {s : Server}

theorem Server.login_of_client (hs : server.Reach ok s) :
    ∀ e ∈ s.log, ∀ c, e.client = some c → ∃ n name, .login n c name ∈ s.log := by
  refine hs.invariant (P := fun s => ∀ e ∈ s.log, ∀ c, e.client = some c →
    ∃ n name, .login n c name ∈ s.log) (fun e he => by cases he) ?_
  rintro s ⟨n, env⟩ s' hr - hold hstep e he c hc
  obtain ⟨x', t', evs, hturn, rfl⟩ := Server.step_turn hstep
  rcases List.mem_append.mp he with he | he
  · obtain ⟨k, name, hlogin⟩ := hold e he c hc
    exact ⟨k, name, List.mem_append_left _ hlogin⟩
  · obtain ⟨u, hu, rfl⟩ := hturn.client_session he hc
    exact ⟨n, u.username, List.mem_append_left _ ((Server.wf_of_reach hr).session_logged n u hu)⟩

theorem Turn.login_thread {n m : ℕ} {libc : Libc} {x x' : Shared} {t t' : Thread}
    {evs : List Event} {c : ClientId} {name : Bytes} (h : Turn n libc x t x' t' evs)
    (hlogin : .login m c name ∈ evs) : m = n := by
  cases h with
  | login hadd =>
    cases List.mem_singleton.mp hlogin
    rfl
  | write hk => cases List.mem_singleton.mp hlogin
  | handle hpc => cases List.mem_singleton.mp hlogin
  | op => cases List.mem_singleton.mp hlogin
  | ret => cases List.mem_singleton.mp hlogin
  | abort => cases List.mem_singleton.mp hlogin
  | abortOp => cases List.mem_singleton.mp hlogin
  | abortRet => cases List.mem_singleton.mp hlogin
  | _ => cases hlogin

theorem Server.early_silent (hs : server.Reach ok s) :
    (∀ n, s.threads n = .connected → ∀ c name, .login n c name ∉ s.log) ∧
    ∀ n c name, .login n c name ∈ s.log → (s.threads n).early = true →
      ∀ e ∈ s.log, e.client ≠ some c := by
  refine hs.invariant (P := fun s => (∀ n, s.threads n = .connected → ∀ c name,
      .login n c name ∉ s.log) ∧ ∀ n c name, .login n c name ∈ s.log →
      (s.threads n).early = true → ∀ e ∈ s.log, e.client ≠ some c)
    ⟨fun _ _ _ _ h => (by cases h), fun _ _ _ h => (by cases h)⟩ ?_
  rintro s ⟨k, env⟩ s' hr - ⟨hconnected, hearly⟩ hstep
  have hwf := Server.wf_of_reach hr
  have hclients := Server.login_of_client hr
  obtain ⟨x', t', evs, hturn, rfl⟩ := Server.step_turn hstep
  dsimp only
  refine ⟨fun n hn c name hlogin => ?_, fun n c name hlogin hn e he hc => ?_⟩
  · by_cases hnk : n = k
    · subst hnk
      rw [Function.update_self] at hn
      subst hn
      generalize s.threads n = t at hturn
      cases hturn with
      | quiet hq => cases hq
    · rw [Function.update_of_ne hnk] at hn
      rcases List.mem_append.mp hlogin with hlogin | hlogin
      · exact hconnected n hn c name hlogin
      · exact hnk (hturn.login_thread hlogin)
  · by_cases hnk : n = k
    · subst hnk
      rw [Function.update_self] at hn
      have hold := hearly n c name
      have hfresh := hconnected n
      generalize ht : s.threads n = t at hturn hold hfresh
      cases hturn with
      | @login i username clients hadd =>
        -- the id is new
        obtain ⟨-, -, -, hid, -⟩ := hwf.clients.addClient hadd
        have hnew : Event.login n c name = .login n (clients.clients i).id username := by
          rcases List.mem_append.mp hlogin with hlogin | hlogin
          · exact absurd hlogin (hfresh rfl c name)
          · exact List.mem_singleton.mp hlogin
        cases hnew
        rcases List.mem_append.mp he with he | he
        · obtain ⟨m, username', hmem⟩ := hclients e he _ hc
          have hlt := hwf.log_lt m _ _ hmem
          rw [hid] at hlt
          exact lt_irrefl _ hlt
        · rw [List.mem_singleton.mp he] at hc
          cases hc
      | welcome i username =>
        rw [List.append_nil] at he hlogin
        exact hold hlogin rfl e he hc
      | quiet hq =>
        rw [List.append_nil] at he hlogin
        cases hq with
        | welcomed u => exact hold hlogin rfl e he hc
        | _ => cases hn
      | _ => cases hn
    · rw [Function.update_of_ne hnk] at hn
      have hlogin' : .login n c name ∈ s.log := by
        rcases List.mem_append.mp hlogin with hlogin | hlogin
        · exact hlogin
        · exact absurd (hturn.login_thread hlogin) hnk
      rcases List.mem_append.mp he with he | he
      · exact hearly n c name hlogin' hn e he hc
      · obtain ⟨u, hu, rfl⟩ := hturn.client_session he hc
        exact hnk (hwf.log_inj n k u.id _ _ hlogin' (hwf.session_logged k u hu)).1

end

def Thread.serves : Thread → Option Session
  | .activating u | .starting u | .handling u _ _ => some u
  | .working u w =>
    match w.pc with
    | .done _ => none
    | _ => some u
  | _ => none

/-- The loop has ended, and it does not start again. -/
def Thread.ended : Thread → Bool
  | .working _ w =>
    match w.pc with
    | .done _ => true
    | _ => false
  | .leaving _ _ | .aborting _ _ | .finished _ | .closed => true
  | _ => false

/-- What a worker has read and not yet passed on. -/
def Thread.reading : Thread → Bytes
  | .working _ w => w.incoming
  | _ => []

theorem Thread.serves_of_ended {t : Thread} (h : t.ended = true) : t.serves = none := by
  cases t with
  | working u w =>
    unfold Thread.ended at h
    unfold Thread.serves
    dsimp only at h ⊢
    split at h
    · rfl
    · cases h
  | activating u => cases h
  | starting u => cases h
  | handling u w p => cases h
  | _ => rfl

theorem Thread.working_cases (u : Session) (w : Worker) :
    (Thread.working u w).ended = true ∨ (Thread.working u w).serves = some u := by
  unfold Thread.ended Thread.serves
  dsimp only
  split
  · exact .inl rfl
  · exact .inr rfl

theorem threadStep_ended {x x' : Shared} {n : ℕ} {env : Env} {t t' : Thread} {evs : List Event}
    (h : threadStep x n env t = some (x', t', evs)) (ht : t.ended = true) : t'.ended = true := by
  cases t with
  | working u w =>
    unfold Thread.ended at ht
    dsimp only at ht
    split at ht
    · next hpc =>
      unfold threadStep workerStep at h
      dsimp only at h
      rw [hpc] at h
      cases h
      rfl
    · cases ht
  | leaving u worked =>
    unfold threadStep at h
    dsimp only at h
    split at h
    · cases h
      rfl
    · cases h
      rfl
  | aborting u p =>
    cases p with
    | ret a =>
      cases h
      rfl
    | op o k =>
      cases h
      rfl
  | finished u => cases h
  | closed => cases h
  | _ => cases ht

theorem Thread.session_of_serves {t : Thread} {u : Session} (h : t.serves = some u) :
    t.session = some u := by
  cases t with
  | working v w =>
    unfold Thread.serves at h
    dsimp only at h
    split at h
    · cases h
    · exact h
  | activating v => exact h
  | starting v => exact h
  | handling v w p => exact h
  | _ => cases h

theorem gone_of_serves {g : LinkConfig} {k : Link} {u : Session}
    (h : (k.server.threads g.thread).serves = some u) : k.gone g = false := by
  unfold Link.gone
  split
  · next v hn =>
    rw [hn] at h
    cases h
  · next hn =>
    rw [hn] at h
    cases h
  · rfl

namespace Worker

variable (w : Worker)

theorem afterDrain_incoming (failure : Option Errno) :
    (w.afterDrain failure).incoming = w.incoming := by
  cases failure <;> rfl

theorem afterStatus_incoming (result : Except Errno Unit) :
    (w.afterStatus result).incoming = w.incoming := by
  cases result with
  | error e => rfl
  | ok _ =>
    unfold Worker.afterStatus
    dsimp only
    split
    · rfl
    · exact w.beginIo_continues.incoming

theorem afterTake_incoming (available : Except Errno (Option OutgoingFrame)) :
    (w.afterTake available).incoming = w.incoming := by
  unfold Worker.afterTake
  split
  · rfl
  · exact w.beginIo_continues.incoming
  · exact (beginIo_continues _).incoming

theorem afterWrite_incoming (result : WriteResult) :
    (w.afterWrite result).incoming = w.incoming := by
  unfold Worker.afterWrite
  split
  · exact (beginRead_continues _).incoming
  · split
    · exact (beginRead_continues _).incoming
    · rfl
    · rfl

theorem afterPoll_incoming (failure : Option Errno) :
    (w.afterPoll failure).incoming = w.incoming := by
  cases failure <;> rfl

theorem complete_incoming : w.complete.incoming = w.incoming := by
  unfold Worker.complete
  split
  · dsimp only
    split <;> rfl
  · dsimp only
    split <;> rfl

theorem afterRead_incoming (result : ReadResult) :
    (w.afterRead result).incoming = w.incoming ++
      match result with
      | .data bytes => bytes
      | .failed _ => [] := by
  cases result with
  | data bytes =>
    unfold Worker.afterRead
    dsimp only
    split
    · exact complete_incoming _
    · rfl
  | failed e =>
    rw [List.append_nil]
    unfold Worker.afterRead
    dsimp only
    split <;> rfl

end Worker

/-- The frames that the client has passed to `handle_server_frame`, in order. -/
def receivedFrames (log : List ClientEvent) : List Bytes :=
  log.filterMap fun e =>
    match e with
    | .received frame => some frame
    | _ => none

theorem receivedFrames_append (log log' : List ClientEvent) :
    receivedFrames (log ++ log') = receivedFrames log ++ receivedFrames log' :=
  List.filterMap_append

theorem receivedFrames_event (o : ClientOp) : receivedFrames (ClientProcess.event o) = [] := by
  cases o <;> rfl

namespace Link

variable {g : LinkConfig} {k : Link} {u : Session}

/-- A step of the thread takes from one queue what it reads and passes on, and puts on the other
what it writes. -/
theorem serve_step {env : Env} {queues : Bytes × Bytes} {x' : Shared} {t' : Thread}
    {evs : List Event} (hserves : (k.server.threads g.thread).serves = some u)
    (hqueues : k.serveThread g g.thread env = some queues)
    (hreads : ∀ w, (k.server.threads g.thread).worker = some w → w.Reads)
    (h : threadStep k.server.shared g.thread env (k.server.threads g.thread) =
      some (x', t', evs)) :
    t'.ended = true ∨ t'.serves = some u ∧
      (handed evs u.id).flatMap wireFrame ++ t'.reading ++ queues.1 =
        (k.server.threads g.thread).reading ++ k.up ∧
      queues.2 = k.down ++ wire evs u.id := by
  unfold serveThread at hqueues
  generalize k.server.threads g.thread = t at hserves hqueues hreads h
  have hdown : k.down = k.down ++ wire [] u.id := (List.append_nil _).symm
  cases t with
  | activating v =>
    cases hserves
    cases hqueues
    unfold threadStep at h
    dsimp only at h
    split at h
    · cases h
      exact .inr ⟨rfl, rfl, hdown⟩
    · cases h
      exact .inl rfl
  | starting v =>
    cases hserves
    cases hqueues
    unfold threadStep at h
    dsimp only at h
    split at h
    · cases h
      split
      · exact .inr ⟨rfl, rfl, hdown⟩
      · exact .inl rfl
    · cases h
      exact .inl rfl
  | handling v w p =>
    cases hserves
    cases hqueues
    cases p with
    | ret keep =>
      cases h
      cases keep with
      | true =>
        rcases Thread.working_cases u (w.afterHandle true) with hended | hserves
        · exact .inl hended
        · exact .inr ⟨hserves, rfl, hdown⟩
      | false => exact .inl rfl
    | op o rest =>
      cases h
      exact .inr ⟨rfl, rfl, hdown⟩
  | working v w =>
    obtain rfl : v = u := Option.some.inj (Thread.session_of_serves hserves)
    dsimp only at hqueues
    rw [if_pos rfl] at hqueues
    -- the loop goes on with `w'`, which has read `bytes` more
    have hloop : ∀ (w' : Worker) (evs : List Event) (bytes : Bytes),
        w'.incoming = w.incoming ++ bytes → handed evs v.id = [] →
        bytes ++ queues.1 = k.up → queues.2 = k.down ++ wire evs v.id →
        (Thread.working v w').ended = true ∨ (Thread.working v w').serves = some v ∧
          (handed evs v.id).flatMap wireFrame ++ (Thread.working v w').reading ++ queues.1 =
            (Thread.working v w).reading ++ k.up ∧
          queues.2 = k.down ++ wire evs v.id := by
      intro w' evs bytes hincoming hhanded hup hdown
      refine (Thread.working_cases v w').imp_right fun hserves => ⟨hserves, ?_, hdown⟩
      rw [hhanded, Thread.reading, Thread.reading, hincoming, List.flatMap_nil, List.nil_append,
        List.append_assoc, hup]
    unfold serve at hqueues
    unfold threadStep workerStep at h
    dsimp only at h
    cases hpc : w.pc with
    | drain =>
      rw [hpc] at h hqueues
      cases hqueues
      cases h
      exact hloop _ [] [] (by rw [w.afterDrain_incoming, List.append_nil]) rfl rfl hdown
    | status =>
      rw [hpc] at h hqueues
      cases hqueues
      cases h
      exact hloop _ [] [] (by rw [w.afterStatus_incoming, List.append_nil]) rfl rfl hdown
    | take =>
      rw [hpc] at h hqueues
      cases hqueues
      cases h
      exact hloop _ [] [] (by rw [w.afterTake_incoming, List.append_nil]) rfl rfl hdown
    | write =>
      rw [hpc] at h hqueues
      dsimp only at h hqueues
      split at h
      · cases h
        cases hwrite : env.write with
        | written n =>
          rw [hwrite] at hqueues
          dsimp only at hqueues
          split at hqueues
          · cases hqueues
            refine hloop _ _ [] (by rw [w.afterWrite_incoming, List.append_nil]) rfl rfl ?_
            simp [wire, Event.wroteTo]
          · cases hqueues
        | failed e =>
          rw [hwrite] at hqueues
          have hsame : queues = (k.up, k.down) := by
            split at hqueues
            · next heq => cases heq
            · split at hqueues
              · exact (Option.some.inj hqueues).symm
              · cases hqueues
            · cases hqueues
          subst hsame
          exact hloop _ [] [] (by rw [w.afterWrite_incoming, List.append_nil]) rfl rfl hdown
      · cases h
    | read =>
      rw [hpc] at h hqueues
      dsimp only at h hqueues
      split at h
      · cases h
        have hincoming := w.afterRead_incoming env.read
        cases hread : env.read with
        | data bytes =>
          rw [hread] at hqueues hincoming
          dsimp only at hqueues
          split at hqueues
          · next hprefix =>
            cases hqueues
            refine hloop _ [] bytes hincoming rfl ?_ hdown
            exact List.prefix_iff_eq_append.mp hprefix
          · cases hqueues
        | failed e =>
          rw [hread] at hqueues hincoming
          have hsame : queues = (k.up, k.down) := by
            split at hqueues
            · next heq => cases heq
            · split at hqueues
              · exact (Option.some.inj hqueues).symm
              · cases hqueues
            · cases hqueues
          subst hsame
          exact hloop _ [] [] hincoming rfl rfl hdown
      · cases h
    | handle frame =>
      rw [hpc] at h hqueues
      cases hqueues
      cases h
      have hone : handed [.received v.id frame] v.id = [frame] := by
        simp [handed, Event.handedTo]
      refine .inr ⟨rfl, ?_, hdown⟩
      change (handed _ v.id).flatMap wireFrame ++ [] ++ k.up = w.incoming ++ k.up
      rw [hone, List.flatMap_singleton, List.append_nil, (hreads w rfl).frame frame hpc]
    | poll =>
      rw [hpc] at h hqueues
      dsimp only at hqueues
      split at hqueues
      · cases hqueues
        cases h
        exact hloop _ [] [] (by rw [w.afterPoll_incoming, List.append_nil]) rfl rfl hdown
      · cases hqueues
    | done result =>
      rw [hpc] at h
      cases h
      exact .inl rfl
  | _ => cases hserves

/-- While the connection is open the queue takes what `SSL_write_ex` accepts, and `send_all` does
not fail. -/
theorem send_answers {bytes accepted : Bytes} {env : ClientEnv} {pc : SendPc} {r : SendStep}
    (hopen : k.gone g = false) (hsend : k.send g bytes env pc = some accepted)
    (hstep : sendAllStep false bytes env pc = some r) :
    (∃ pc', r = .loop pc' accepted) ∨ accepted = [] ∧ r = .returned (.ok ()) false := by
  cases pc with
  | entry =>
    cases hsend
    cases hstep
    exact .inl ⟨_, rfl⟩
  | writing totalSent =>
    unfold send at hsend
    unfold sendAllStep at hstep
    dsimp only at hsend hstep
    split at hsend
    -- nothing is left to send
    · next hall =>
      rw [if_pos hall] at hstep
      cases hsend
      cases hstep
      exact .inr ⟨rfl, rfl⟩
    · next hall =>
      rw [if_neg hall] at hstep
      -- what TLS accepts is what the channel takes
      cases hwrite : env.write with
      | written n =>
        rw [hwrite] at hsend hstep
        dsimp only at hsend hstep
        split at hsend
        · cases hsend
          split at hstep
          · cases hstep
            exact .inl ⟨_, rfl⟩
          · cases hstep
        · cases hsend
      | failed e =>
        rw [hwrite] at hsend hstep
        cases e with
        | wantWrite =>
          dsimp only at hsend hstep
          split at hsend
          · cases hsend
            cases hstep
            exact .inl ⟨_, rfl⟩
          · cases hsend
        | wantRead => cases hsend
        | _ =>
          dsimp only at hsend
          rw [hopen] at hsend
          cases hsend
  | polling totalSent =>
    unfold send at hsend
    unfold sendAllStep at hstep
    dsimp only at hsend hstep
    split at hsend
    · next hready =>
      rw [hready.1] at hstep
      cases hsend
      cases hstep
      exact .inl ⟨_, rfl⟩
    · cases hsend

/-- What a step of the client does to the two streams. -/
structure Flows (k : Link) (io : Bytes × Bytes) (c : ClientProcess) : Prop where
  whole : c.Whole
  accepted : acceptedBytes c.log = acceptedBytes k.client.log ++ io.1
  received : (receivedFrames c.log).flatMap wireFrame ++ io.2 =
    (receivedFrames k.client.log).flatMap wireFrame ++ k.frame

variable {io : Bytes × Bytes} {c : ClientProcess}

theorem Flows.of_log {evs : List ClientEvent} (hwhole : c.Whole)
    (hlog : c.log = k.client.log ++ evs) (haccepted : acceptedBytes evs = io.1)
    (hreceived : receivedFrames evs = []) (hframe : io.2 = k.frame) : k.Flows io c where
  whole := hwhole
  accepted := by rw [hlog, acceptedBytes_append, haccepted]
  received := by rw [hlog, receivedFrames_append, hreceived, List.append_nil, hframe]

theorem client_move {env : ClientEnv} {p : ClientProg ClientState} (hopen : k.gone g = false)
    (hwhole : k.client.Whole) (hp : k.client.callback = some p)
    (hio : k.clientIo g (.go env) = some io) (hmove : k.client.move env p = some c) :
    k.Flows io c := by
  have hwhole' : (∀ e, .failed e ∉ c.log) → c.Whole := fun hclean =>
    (hwhole.move hp hmove).resolve_right fun ⟨_, e, he⟩ => hclean e he
  unfold clientIo at hio
  rw [hp] at hio
  rcases ClientProcess.move_cases hmove with ⟨s, rfl, rfl⟩ | ⟨bytes, rest, pc, accepted, rfl,
    hsend, rfl⟩ | ⟨bytes, rest, failed, rfl, hsend, rfl⟩ | ⟨bytes, rest, e, failed, rfl, hsend,
    rfl⟩ | ⟨o, rest, r, rfl, hother, rfl⟩
  · cases hio
    exact .of_log (hwhole' hwhole.clean) (List.append_nil _).symm rfl rfl rfl
  · obtain ⟨bs, hbs, rfl⟩ := Option.map_eq_some_iff.mp hio
    rw [hwhole.healthy] at hsend
    rcases send_answers hopen hbs hsend with ⟨pc', h⟩ | ⟨-, h⟩
    · cases h
      exact .of_log (hwhole' (by simpa using hwhole.clean)) rfl (List.append_nil _) rfl rfl
    · cases h
  · obtain ⟨bs, hbs, rfl⟩ := Option.map_eq_some_iff.mp hio
    rw [hwhole.healthy] at hsend
    rcases send_answers hopen hbs hsend with ⟨pc', h⟩ | ⟨rfl, -⟩
    · cases h
    · exact .of_log (hwhole' hwhole.clean) (List.append_nil _).symm rfl rfl rfl
  · obtain ⟨bs, hbs, rfl⟩ := Option.map_eq_some_iff.mp hio
    rw [hwhole.healthy] at hsend
    rcases send_answers hopen hbs hsend with ⟨pc', h⟩ | ⟨-, h⟩
    · cases h
    · cases h
  · have hsame : io = ([], k.frame) := by
      cases o with
      | sendAll bytes => exact absurd rfl (hother bytes)
      | _ => exact (Option.some.inj hio).symm
    subst hsame
    refine .of_log (hwhole' fun e he => ?_) rfl (ClientProcess.event_quiet o).1
      (receivedFrames_event o) rfl
    rcases List.mem_append.mp he with he | he
    · exact hwhole.clean e he
    · exact (ClientProcess.event_quiet o).2 e he

theorem client_dispatch {l : ClientLabel} (hopen : k.gone g = false) (hwhole : k.client.Whole)
    (hidle : k.client.callback = none) (hio : k.clientIo g l = some io)
    (hstep : k.client.dispatch g.client l = some c) : k.Flows io c := by
  have hwhole' := hwhole.dispatch hidle hstep
  unfold clientIo at hio
  rw [hidle] at hio
  -- the loop stops, or starts a callback with a line
  have hpass : ∀ evs, c.log = k.client.log ++ evs → acceptedBytes evs = [] →
      receivedFrames evs = [] → (if k.frame = [] then some (([], []) : Bytes × Bytes) else none) =
        some io → k.Flows io c := by
    intro evs hlog haccepted hreceived hio
    split at hio
    · next hframe =>
      cases hio
      exact .of_log hwhole' hlog haccepted hreceived hframe.symm
    · cases hio
  unfold ClientProcess.dispatch at hstep
  cases l with
  | typed line =>
    cases line with
    | none =>
      cases hstep
      exact hpass [] (List.append_nil _).symm rfl rfl hio
    | some line =>
      dsimp only at hstep
      split at hstep
      · cases hstep
      · cases hstep
        exact hpass [.typed line] rfl rfl rfl hio
  | received result =>
    cases result with
    | error e =>
      dsimp only at hio
      rw [hopen, if_neg (by simp)] at hio
      cases hio
    | ok frame =>
      cases frame with
      | none =>
        dsimp only at hio
        rw [hopen, if_neg (by simp)] at hio
        cases hio
      | some frame =>
        dsimp only at hio hstep
        split at hio
        · next hframe =>
          cases hio
          split at hstep
          · cases hstep
            refine ⟨hwhole', acceptedBytes_append _ _, ?_⟩
            rw [receivedFrames_append, List.flatMap_append, List.append_nil, hframe]
            congr 1
            exact List.flatMap_singleton _ _
          · cases hstep
        · cases hio
  | pollFailed =>
    cases hstep
    exact hpass [] (List.append_nil _).symm rfl rfl hio
  | go env => cases hstep

/-- A step of the client puts on its queue what its `send_all` hands over, and takes from the
other what it passes to `handle_server_frame`. -/
theorem client_step {l : ClientLabel} (hopen : k.gone g = false) (hwhole : k.client.Whole)
    (hio : k.clientIo g l = some io) (hstep : k.client.step g.client l = some c) :
    k.Flows io c := by
  unfold ClientProcess.step at hstep
  cases hc : k.client.callback with
  | some p =>
    rw [hc] at hstep
    cases l with
    | go env => exact client_move hopen hwhole hc hio hstep
    | _ => cases hstep
  | none =>
    rw [hc] at hstep
    cases l with
    | go env =>
      unfold clientIo at hio
      rw [hc] at hio
      cases hio
    | _ =>
      dsimp only at hstep
      split at hstep
      · exact client_dispatch hopen hwhole hc hio hstep
      · cases hstep

/-- While the thread serves `u`: what each end has written is what the other has handled, what
it has read of the next frame, and what is still on its way. -/
structure Streams (g : LinkConfig) (k : Link) (u : Session) : Prop where
  serves : (k.server.threads g.thread).serves = some u
  whole : k.client.Whole
  up : acceptedBytes k.client.log = (handed k.server.log u.id).flatMap wireFrame ++
    (k.server.threads g.thread).reading ++ k.up
  down : wire k.server.log u.id = (receivedFrames k.client.log).flatMap wireFrame ++ k.frame ++
    k.down

theorem serveThread_other {n : ℕ} {env : Env} {queues : Bytes × Bytes} (hn : n ≠ g.thread)
    (h : k.serveThread g n env = some queues) : queues = (k.up, k.down) := by
  unfold serveThread at h
  split at h
  · rw [if_neg hn] at h
    exact (Option.some.inj h).symm
  · exact (Option.some.inj h).symm

end Link

theorem Server.streams_of_other {ok : Server → Label → Prop} {s : Server}
    (hs : server.Reach ok s) {n m : ℕ} {libc : Libc} {x' : Shared} {t' : Thread}
    {evs : List Event} (hturn : Turn n libc s.shared (s.threads n) x' t' evs) {u : Session}
    (hu : (s.threads m).session = some u) (hmn : m ≠ n) :
    handed evs u.id = [] ∧ wire evs u.id = [] := by
  have hother := Server.events_of_other hs hturn hu hmn
  have hinj : ∀ v, (s.threads n).session = some v → u.id = v.id → m = n := fun v hv =>
    (Server.wf_of_reach hs).session_inj hu hv
  constructor
  · refine List.filterMap_eq_nil_iff.mpr fun e he => ?_
    have hne := hother e he
    cases e with
    | received c frame => exact if_neg fun hc => hne (congrArg some hc)
    | _ => rfl
  · refine List.flatMap_eq_nil_iff.mpr fun e he => ?_
    generalize s.threads n = t at hturn hinj
    cases hturn with
    | @write v w k hk =>
      obtain rfl := List.mem_singleton.mp he
      exact if_neg fun hid => hmn (hinj v rfl hid.symm)
    | login hadd =>
      obtain rfl := List.mem_singleton.mp he
      rfl
    | handle hpc =>
      obtain rfl := List.mem_singleton.mp he
      rfl
    | op =>
      obtain rfl := List.mem_singleton.mp he
      rfl
    | ret =>
      obtain rfl := List.mem_singleton.mp he
      rfl
    | abort =>
      obtain rfl := List.mem_singleton.mp he
      rfl
    | abortOp =>
      obtain rfl := List.mem_singleton.mp he
      rfl
    | abortRet =>
      obtain rfl := List.mem_singleton.mp he
      rfl
    | _ => cases he

section

variable {g : LinkConfig} {s : Server} {u : Session}

theorem link_streams_init (hs : server.Reachable s)
    (hn : s.threads g.thread = .activating u) :
    (link g s).init.Streams g u := by
  have hwf := Server.wf_of_reach hs
  have hlogin := hwf.session_logged g.thread u (by rw [hn]; rfl)
  have hsilent := (Server.early_silent hs).2 g.thread u.id u.username hlogin (by rw [hn]; rfl)
  obtain ⟨l, hl, -, hid, hearly⟩ := hwf.owns g.thread u.index (by rw [hn]; rfl)
  obtain ⟨-, -, hnone⟩ := hearly (by rw [hn]; rfl)
  have hqueued : queued s.log u.id = [] := by
    refine List.filterMap_eq_nil_iff.mpr fun e he => ?_
    cases hq : e.queuedTo u.id with
    | none => rfl
    | some f =>
      rw [hid u (by rw [hn]; rfl)] at hq
      exact absurd (Event.queues_of_queuedTo hq) (hnone e he)
  have hwire : wire s.log u.id = [] := by
    have hprefix := (Server.delivers_of_reach hs).written u.id
    rw [hqueued] at hprefix
    exact List.prefix_nil.mp hprefix
  have hhanded : handed s.log u.id = [] := by
    refine List.filterMap_eq_nil_iff.mpr fun e he => ?_
    have hne := hsilent e he
    cases e with
    | received c frame => exact if_neg fun hc => hne (congrArg some hc)
    | _ => rfl
  refine ⟨?_, ClientProcess.whole_start, ?_, ?_⟩
  · change (s.threads g.thread).serves = some u
    rw [hn]
    rfl
  · change [] = (handed s.log u.id).flatMap wireFrame ++ (s.threads g.thread).reading ++ []
    rw [hhanded, hn]
    rfl
  · exact hwire

theorem link_ended {k k' : Link} {l : LinkLabel} (h : k.step g l = some k')
    (hended : (k.server.threads g.thread).ended = true) :
    (k'.server.threads g.thread).ended = true := by
  rcases Link.step_cases h with ⟨n, env, up, down, server', -, -, hserver, rfl⟩ |
    ⟨count, -, rfl⟩ | ⟨cl, accepted, frame, c, -, -, -, rfl⟩
  · obtain ⟨x', t', evs, hthread, rfl⟩ := Server.step_eq_some hserver
    dsimp only at hthread ⊢
    by_cases hn : g.thread = n
    · subst hn
      rw [Function.update_self]
      exact threadStep_ended hthread hended
    · rw [Function.update_of_ne hn]
      exact hended
  · exact hended
  · exact hended

theorem link_streams {ok : Link → LinkLabel → Prop} {k : Link} (hs : server.Reachable s)
    (hn : s.threads g.thread = .activating u) (hk : (link g s).Reach ok k) :
    (k.server.threads g.thread).ended = true ∨ k.Streams g u := by
  refine hk.invariant (P := fun k => (k.server.threads g.thread).ended = true ∨ k.Streams g u)
    (.inr (link_streams_init hs hn)) ?_
  intro k l k' hr _ hold hstep
  have hserver := link_server_reachable hs hr.reachable
  rcases hold with hended | hstreams
  · exact .inl (link_ended hstep hended)
  rcases Link.step_cases hstep with ⟨n, env, up, down, server', -, hqueues, hserverStep, rfl⟩ |
    ⟨count, -, rfl⟩ | ⟨cl, accepted, frame, c, -, hio, hclient, rfl⟩
  · obtain ⟨x', t', evs, hthread, rfl⟩ := Server.step_eq_some hserverStep
    dsimp only at hthread ⊢
    -- the thread of the client itself
    by_cases hng : n = g.thread
    · subst hng
      have hreads : ∀ w, (k.server.threads g.thread).worker = some w → w.Reads :=
        fun w hw => Server.reads_of_reach hserver hw
      rw [Function.update_self]
      refine (Link.serve_step hstreams.serves hqueues hreads hthread).imp_right ?_
      rintro ⟨hserves, hup, hdown⟩
      refine ⟨?_, hstreams.whole, ?_, ?_⟩
      · dsimp only
        rw [Function.update_self]
        exact hserves
      · dsimp only
        rw [Function.update_self, hstreams.up, handed_append, List.flatMap_append,
          List.append_assoc, ← hup]
        simp only [List.append_assoc]
      · dsimp only
        dsimp only at hdown
        rw [wire_append, hstreams.down, hdown]
        simp only [List.append_assoc]
    -- the other threads neither read nor write on this link
    · obtain ⟨hhanded, hwire⟩ := Server.streams_of_other hserver (threadStep_turn hthread)
        (Thread.session_of_serves hstreams.serves) (Ne.symm hng)
      cases Link.serveThread_other hng hqueues
      refine .inr ⟨?_, hstreams.whole, ?_, ?_⟩
      · dsimp only
        rw [Function.update_of_ne (Ne.symm hng)]
        exact hstreams.serves
      · dsimp only
        rw [Function.update_of_ne (Ne.symm hng), handed_append, hhanded, List.append_nil]
        exact hstreams.up
      · dsimp only
        rw [wire_append, hwire, List.append_nil]
        exact hstreams.down
  -- the channel delivers some more
  · refine .inr ⟨hstreams.serves, hstreams.whole, hstreams.up, ?_⟩
    dsimp only
    rw [hstreams.down]
    simp only [List.append_assoc, List.take_append_drop]
  -- the client sends or receives
  · have hflows := Link.client_step (gone_of_serves hstreams.serves) hstreams.whole hio hclient
    refine .inr ⟨hstreams.serves, hflows.whole, ?_, ?_⟩
    · dsimp only
      rw [hflows.accepted, hstreams.up]
      simp only [List.append_assoc]
    · dsimp only
      rw [hflows.received, hstreams.down]

end

end CipherChat
