import CipherChat.Messages
import CipherChat.PeerNames

/-!
# Agreement at login

A client and the thread that serves it, each with its own end of a connection that delivers bytes
in order, in pieces of any size, and may fail at any call.  Each side has its rules: what it may
write and when it may go on, given what it has read.  Put together, the two agree on the login.
-/

namespace CipherChat

open Resumption Prog Discipline

namespace Network

/-- What `receive_message` and `memchr` let through to `add_client`. -/
def LoginName (name : Bytes) : Prop := 0 < name.length ∧ name.length < usernameSize ∧ 0 ∉ name

/-- How far the server has come with a login. -/
structure ServerLogin where
  read : Bytes := []
  written : Bytes := []
  /-- The call of `add_client`, with its result. -/
  outcome : Option (Bytes × Except Errno Unit) := none
  active : Bool := false

/-- What the server has to tell its client. -/
def ServerLogin.Answer (t : ServerLogin) (reply : Bytes) : Prop :=
  match t.outcome with
  | none => reply = loginTimeout ∨
      reply = loginInvalid ∧
        ∃ name, encodeMessage name <+: t.read ∧ name.length < usernameSize ∧ 0 ∈ name
  | some (_, .error e) => reply = loginError e
  | some (name, .ok ()) => reply = welcomeMessage name

def serverLogin : Discipline netSig ServerLogin where
  allow t
    | .sslWrite bytes => t.active = true ∨
        ∃ reply, t.Answer reply ∧ t.written ++ bytes <+: encodeMessage reply
    | .addClient name => t.outcome = none ∧ t.written = [] ∧ t.active = false ∧
        t.read = encodeMessage name ∧ LoginName name
    | .activateClient => ∃ name, t.outcome = some (name, .ok ()) ∧
        t.written = encodeMessage (welcomeMessage name)
    | _ => True
  next t
    | .sslRead _, .data bytes => { t with read := t.read ++ bytes }
    | .sslWrite bytes, .written n => { t with written := t.written ++ bytes.take n }
    | .addClient name, r => { t with outcome := some (name, r) }
    | .activateClient, .ok () => { t with active := true }
    | _, _ => t

/-- What the rules of the server keep. -/
structure ServerLogin.Ok (t : ServerLogin) : Prop where
  name : ∀ name r, t.outcome = some (name, r) → encodeMessage name <+: t.read ∧ LoginName name
  early : t.active = false →
    t.written = [] ∨ ∃ reply, t.Answer reply ∧ t.written <+: encodeMessage reply
  late : t.active = true →
    ∃ name, t.outcome = some (name, .ok ()) ∧ encodeMessage (welcomeMessage name) <+: t.written

/-- How far the client has come with its login. -/
structure ClientLogin where
  read : Bytes := []
  written : Bytes := []
  /-- The line that the user has typed. -/
  line : Option Bytes := none
  /-- The answer that the user has been shown. -/
  shown : Option Bytes := none

def ClientLogin.Typed (t : ClientLogin) (name : Bytes) : Prop :=
  ∃ line, t.line = some line ∧ readUsername line = .ok name

def clientLogin : Discipline netSig ClientLogin where
  allow t
    | .fgets => t.line = none ∧ t.written = []
    | .sslWrite bytes => t.shown.isSome = true ∨
        ∃ name, t.Typed name ∧ t.written ++ bytes <+: encodeMessage name
    | .fputs message => t.shown = none ∧ t.read = encodeMessage message ∧
        message.length ≤ messageMaxSize ∧ ∃ name, t.Typed name ∧ t.written = encodeMessage name
    | .event => ∃ message, t.shown = some message ∧ readWelcome message = .ok ()
    | _ => True
  next t
    | .sslRead _, .data bytes => { t with read := t.read ++ bytes }
    | .sslWrite bytes, .written n => { t with written := t.written ++ bytes.take n }
    | .fgets, line => { t with line }
    | .fputs message, () => { t with shown := some message }
    | _, _ => t

/-- What the rules of the client keep. -/
structure ClientLogin.Ok (t : ClientLogin) : Prop where
  early : t.shown = none →
    t.written = [] ∨ ∃ name, t.Typed name ∧ t.written <+: encodeMessage name
  late : ∀ message, t.shown = some message →
    encodeMessage message <+: t.read ∧ message.length ≤ messageMaxSize ∧
      ∃ name, t.Typed name ∧ encodeMessage name <+: t.written

theorem ServerLogin.Ok.next {t : ServerLogin} (h : t.Ok) {o : NetOp}
    (ha : serverLogin.allow t o) (r : o.Resp) : (serverLogin.next t o r).Ok := by
  unfold serverLogin at ha ⊢
  dsimp only at ha ⊢
  split
  · next bytes =>
    -- reading on takes nothing back
    have hread : ∀ {name : Bytes}, encodeMessage name <+: t.read →
        encodeMessage name <+: t.read ++ bytes := fun hp => hp.trans (List.prefix_append _ _)
    refine ⟨fun name r hr => ⟨hread (h.name name r hr).1, (h.name name r hr).2⟩, fun hactive => ?_,
      h.late⟩
    refine (h.early hactive).imp_right fun ⟨reply, hreply, hwritten⟩ => ⟨reply, ?_, hwritten⟩
    unfold ServerLogin.Answer at hreply ⊢
    dsimp only
    split at hreply
    · exact hreply.imp_right fun ⟨heq, name, hp, hname⟩ => ⟨heq, name, hread hp, hname⟩
    · exact hreply
    · exact hreply
  · next bytes n =>
    refine ⟨h.name, fun hactive => ?_, fun hactive => ?_⟩
    · rcases ha with hlate | ⟨reply, hreply, hp⟩
      · exact absurd hlate (by rw [hactive]; nofun)
      · exact .inr ⟨reply, hreply,
          ((List.prefix_append_right_inj _).mpr (List.take_prefix n bytes)).trans hp⟩
    · obtain ⟨name, hname, hp⟩ := h.late hactive
      exact ⟨name, hname, hp.trans (List.prefix_append _ _)⟩
  · next name r =>
    obtain ⟨-, hwritten, hactive, hread, hlogin⟩ := ha
    refine ⟨fun name' r' hr => ?_, fun _ => .inl hwritten, fun hno => ?_⟩
    · obtain ⟨rfl, rfl⟩ := Prod.mk.inj (Option.some.inj hr)
      exact ⟨hread ▸ List.prefix_refl _, hlogin⟩
    · exact absurd hno (by rw [hactive]; nofun)
  · obtain ⟨name, houtcome, hwritten⟩ := ha
    exact ⟨h.name, nofun, fun _ => ⟨name, houtcome, hwritten ▸ List.prefix_refl _⟩⟩
  · exact h

theorem ClientLogin.Ok.next {t : ClientLogin} (h : t.Ok) {o : NetOp}
    (ha : clientLogin.allow t o) (r : o.Resp) : (clientLogin.next t o r).Ok := by
  unfold clientLogin at ha ⊢
  dsimp only at ha ⊢
  split
  · refine ⟨h.early, fun message hm => ?_⟩
    obtain ⟨hread, hrest⟩ := h.late message hm
    exact ⟨hread.trans (List.prefix_append _ _), hrest⟩
  · next bytes n =>
    refine ⟨fun hnone => ?_, fun message hm => ?_⟩
    · rcases ha with hlate | ⟨name, hname, hp⟩
      · rw [hnone] at hlate
        cases hlate
      · exact .inr ⟨name, hname,
          ((List.prefix_append_right_inj _).mpr (List.take_prefix n bytes)).trans hp⟩
    · obtain ⟨hread, hle, name, hname, hp⟩ := h.late message hm
      exact ⟨hread, hle, name, hname, hp.trans (List.prefix_append _ _)⟩
  · obtain ⟨hline, hwritten⟩ := ha
    refine ⟨fun _ => .inl hwritten, fun message hm => ?_⟩
    obtain ⟨-, -, name, ⟨line', hno, -⟩, -⟩ := h.late message hm
    exact nomatch hline.symm.trans hno
  · obtain ⟨-, hread, hle, name, hname, hwritten⟩ := ha
    refine ⟨nofun, fun message' hm => ?_⟩
    obtain rfl := Option.some.inj hm
    exact ⟨hread ▸ List.prefix_refl _, hle, name, hname, hwritten ▸ List.prefix_refl _⟩
  · exact h

theorem serverLogin_close {t : ServerLogin} (fuel : ℕ) (c : Connection) (graceful : Bool) :
    serverLogin.follows t (closeConnection fuel c graceful) fun _ _ => True := by
  refine follows_performs (R := fun _ => True) (fun t o _ ho => ⟨?_, fun _ => trivial⟩)
    (performs_closeConnection fuel c graceful) trivial
  cases o <;> first | exact absurd ho id | trivial

theorem reads_serverLogin : Reads serverLogin fun p => { read := p } where
  allow _ _ := trivial
  data _ _ _ := rfl
  other p n r hr := by
    cases r with
    | data bytes => exact absurd rfl (hr bytes)
    | zeroReturn => rfl
    | want write errno => rfl
    | failed errno => rfl
  stop _ := trivial

theorem writes_serverLogin {t : ServerLogin} {reply : Bytes} (h : t.Answer reply) :
    Writes serverLogin (fun p => { t with written := p }) (encodeMessage reply) where
  allow _ _ hp := .inr ⟨reply, h, hp⟩
  written _ _ _ := rfl
  failed _ _ _ := rfl
  wait _ := ⟨trivial, fun _ => rfl⟩
  stop _ := trivial

theorem serverLogin_refuse {t : ServerLogin} (hwritten : t.written = []) {reply : Bytes}
    (h : t.Answer reply) (fuel : ℕ) (c : Connection) :
    serverLogin.follows t
      (sendMessage fuel c reply >>= fun r => closeConnection fuel r.2 true >>= fun _ => pure ())
      fun _ _ => True := by
  have ht : t = { t with written := [] } := by rw [← hwritten]
  rw [follows_bind, ht]
  refine follows_mono ?_ ((writes_serverLogin h).sendMessage fuel c)
  rintro t' ⟨result, c'⟩ -
  rw [follows_bind]
  exact follows_mono (fun _ _ _ => follows_pure trivial) (serverLogin_close fuel c' true)

def Serving : NetOp → Prop
  | .addClient _ | .activateClient => False
  | _ => True

theorem performs_workerRound (w : Worker) : (workerRound w).Performs Serving := by
  unfold workerRound
  split
  · exact performs_call trivial fun _ => performs_pure
  · exact performs_call trivial fun _ => performs_pure
  · exact performs_call trivial fun _ => performs_pure
  · exact performs_call trivial fun _ => performs_ite performs_pure (performs_goesOn trivial)
  · exact performs_call trivial fun _ => performs_ite performs_pure (performs_goesOn trivial)
  · exact performs_call trivial fun _ => performs_pure
  · exact performs_call trivial fun _ => performs_pure
  · exact performs_pure

theorem performs_runClientWorker (fuel : ℕ) : (runClientWorker fuel).Performs Serving := by
  unfold runClientWorker
  refine performs_call trivial fun r => ?_
  cases r with
  | error e => exact performs_pure
  | ok _ =>
    refine performs_call trivial fun r => ?_
    cases r with
    | error e => exact performs_pure
    | ok _ =>
      refine performs_call trivial fun r => ?_
      cases r with
      | error e => exact performs_pure
      | ok _ =>
        exact performs_iterate (performs_goesOn trivial) performs_workerRound fuel {}

theorem performs_removeClient (fuel : ℕ) (c : Connection) (graceful : Bool) :
    (removeClient fuel c graceful).Performs Serving := by
  have hclosing : ∀ o, Closing o → Serving o := by
    intro o ho
    cases o <;> first | exact absurd ho id | trivial
  unfold removeClient
  exact performs_call trivial fun _ =>
    performs_bind ((performs_closeConnection fuel c graceful).mono hclosing) fun _ => performs_pure

theorem serverLogin_serving {t : ServerLogin} {p : NetProg Unit} (hp : p.Performs Serving)
    (hactive : t.active = true) : serverLogin.follows t p fun _ _ => True := by
  refine follows_mono (fun _ _ _ => trivial) (follows_performs (R := fun t => t.active = true)
    (fun t o ht ho => ?_) hp hactive)
  cases o <;> first | exact absurd ho id | skip
  case sslRead n =>
    refine ⟨trivial, fun r => ?_⟩
    cases r <;> exact ht
  case sslWrite bytes =>
    refine ⟨.inl ht, fun r => ?_⟩
    cases r <;> exact ht
  all_goals exact ⟨trivial, fun _ => ht⟩

theorem serverLogin_serveClient {t : ServerLogin} {username : Bytes} (hwritten : t.written = [])
    (houtcome : t.outcome = some (username, .ok ())) (fuel : ℕ) (c : Connection) :
    serverLogin.follows t (serveClient fuel c username) fun _ _ => True := by
  have hanswer : t.Answer (welcomeMessage username) := by
    rw [ServerLogin.Answer, houtcome]
  have ht : t = { t with written := [] } := by rw [← hwritten]
  have hremove : ∀ (t : ServerLogin) graceful,
      serverLogin.follows t (removeClient fuel c graceful) fun _ _ => True := by
    intro t graceful
    unfold removeClient
    refine follows_call trivial fun _ => ?_
    rw [follows_bind]
    exact follows_mono (fun _ _ _ => follows_pure trivial) (serverLogin_close fuel c graceful)
  have hwelcome : serverLogin.follows t (sendWelcomeMessage fuel c username) fun t' r =>
      r.1 = .ok () → t' = { t with written := encodeMessage (welcomeMessage username) } := by
    refine follows_ite (follows_pure nofun) ?_
    rw [ht]
    exact follows_mono (fun _ _ hsent => hsent.2) ((writes_serverLogin hanswer).sendMessage fuel c)
  unfold serveClient
  rw [follows_bind]
  refine follows_mono ?_ hwelcome
  rintro t' ⟨welcome, c'⟩ hsent
  cases welcome with
  | error e => exact hremove t' false
  | ok _ =>
    rw [hsent rfl]
    refine follows_call ⟨username, houtcome, rfl⟩ fun r => ?_
    cases r with
    | error e => exact hremove _ true
    | ok _ =>
      refine serverLogin_serving ?_ rfl
      refine performs_bind (performs_runClientWorker fuel) fun result => ?_
      exact performs_bind (performs_removeClient fuel c _) fun _ => performs_last trivial

theorem serverLogin_handleLogin (fuel : ℕ) (c : Connection) :
    serverLogin.follows {} (handleLogin fuel c) fun _ _ => True := by
  unfold handleLogin
  rw [follows_bind]
  refine follows_mono ?_ (reads_serverLogin.receiveMessage fuel c usernameSize)
  rintro t ⟨received, c'⟩ ⟨bytes, rfl, hmessage⟩
  have hclose : ∀ (t : ServerLogin) (c : Connection),
      serverLogin.follows t (closeConnection fuel c true >>= fun _ => pure ()) fun _ _ => True := by
    intro t c
    rw [follows_bind]
    exact follows_mono (fun _ _ _ => follows_pure trivial) (serverLogin_close fuel c true)
  cases received with
  | error e =>
    have hanswer : serverLogin.follows { read := bytes } (answerTimeout fuel c' e)
        fun _ _ => True := by
      refine follows_ite ?_ (follows_pure trivial)
      rw [follows_bind]
      have htimeout : ServerLogin.Answer { read := bytes } loginTimeout := .inl rfl
      exact follows_mono (fun _ _ _ => follows_pure trivial)
        ((writes_serverLogin htimeout).sendMessage fuel c')
    dsimp only
    rw [follows_bind]
    exact follows_mono (fun t c _ => hclose t c) hanswer
  | ok received =>
    cases received with
    | none => exact hclose _ c'
    | some username =>
      obtain ⟨rfl, hne, -, hlt⟩ := hmessage username rfl
      dsimp only
      split
      · next h0 =>
        have hanswer : ServerLogin.Answer { read := encodeMessage username } loginInvalid :=
          .inr ⟨rfl, username, List.prefix_refl _, hlt, h0⟩
        exact serverLogin_refuse rfl hanswer fuel c'
      · next h0 =>
        have hname : LoginName username := ⟨List.length_pos_iff.mpr hne, hlt, h0⟩
        refine follows_call ⟨rfl, rfl, rfl, rfl, hname⟩ fun r => ?_
        cases r with
        | error e =>
          have hanswer : ServerLogin.Answer
              { read := encodeMessage username, outcome := some (username, .error e) }
              (loginError e) := rfl
          exact serverLogin_refuse rfl hanswer fuel c'
        | ok _ => exact serverLogin_serveClient rfl rfl fuel c'

theorem serverLogin_follows (fuel fd : ℕ) :
    serverLogin.follows {} (serveConnection fuel fd) fun _ _ => True := by
  have hdrop : serverLogin.follows {}
      (closeConnection fuel { socketFd := some fd } false >>= fun _ => pure ())
      fun _ _ => True := by
    rw [follows_bind]
    exact follows_mono (fun _ _ _ => follows_pure trivial) (serverLogin_close _ _ _)
  have hhandshake : serverLogin.follows {} (performTlsHandshake fuel false { socketFd := some fd })
      fun t _ => t = {} := by
    refine follows_performs (R := fun t : ServerLogin => t = {}) (fun t o ht ho => ?_)
      (performs_performTlsHandshake fuel false _) rfl
    cases o <;> first | exact absurd ho id | exact ⟨trivial, fun _ => ht⟩
  unfold serveConnection
  refine follows_call trivial fun allocated => ?_
  cases allocated with
  | false => exact hdrop
  | true =>
    refine follows_call trivial fun created => ?_
    cases created with
    | false => exact hdrop
    | true =>
      change serverLogin.follows {} (handleClient fuel { socketFd := some fd }) _
      rw [handleClient]
      refine follows_then hhandshake fun ⟨handshake, c⟩ => ?_
      cases handshake with
      | error e => exact follows_pure trivial
      | ok _ => exact serverLogin_handleLogin fuel c

theorem clientLogin_close {t : ClientLogin} (fuel : ℕ) (c : Connection) (graceful : Bool) :
    clientLogin.follows t (closeConnection fuel c graceful) fun _ _ => True := by
  refine follows_performs (R := fun _ => True) (fun t o _ ho => ⟨?_, fun _ => trivial⟩)
    (performs_closeConnection fuel c graceful) trivial
  cases o <;> first | exact absurd ho id | trivial

theorem reads_clientLogin (t : ClientLogin) : Reads clientLogin fun p => { t with read := p } where
  allow _ _ := trivial
  data _ _ _ := rfl
  other p n r hr := by
    cases r with
    | data bytes => exact absurd rfl (hr bytes)
    | zeroReturn => rfl
    | want write errno => rfl
    | failed errno => rfl
  stop _ := trivial

theorem writes_clientLogin {t : ClientLogin} {name : Bytes} (h : t.Typed name) :
    Writes clientLogin (fun p => { t with written := p }) (encodeMessage name) where
  allow _ _ hp := .inr ⟨name, h, hp⟩
  written _ _ _ := rfl
  failed _ _ _ := rfl
  wait _ := ⟨trivial, fun _ => rfl⟩
  stop _ := trivial

def Chatting : NetOp → Prop
  | .event | .sslWrite _ | .sslRead _ | .pollForever | .forever => True
  | _ => False

theorem performs_sendAll (fuel : ℕ) (c : Connection) (bytes : Bytes) :
    (sendAll fuel c bytes).Performs Chatting := by
  have hpoll : (goesOn.iterate pollRound fuel ()).Performs Chatting := by
    refine performs_iterate (performs_goesOn trivial) (fun _ => ?_) fuel ()
    refine performs_call trivial fun r => ?_
    cases r <;> exact performs_pure
  have hwait : ∀ totalSent, (sendWait fuel totalSent).Performs Chatting := by
    intro totalSent
    refine performs_bind hpoll fun r => ?_
    cases r <;> exact performs_pure
  have hround : ∀ totalSent, (sendRound fuel bytes totalSent).Performs Chatting := by
    intro totalSent
    refine performs_ite performs_pure (performs_call trivial fun r => ?_)
    cases r with
    | written n => exact performs_ite performs_pure (performs_goesOn trivial)
    | failed e =>
      cases e with
      | wantRead => exact hwait totalSent
      | wantWrite => exact hwait totalSent
      | zeroReturn => exact performs_pure
      | syscall errno => cases errno <;> exact performs_pure
      | ssl => exact performs_pure
  unfold sendAll
  exact performs_ite performs_pure (performs_ite performs_pure (performs_bind
    (performs_iterate (performs_goesOn trivial) hround fuel 0) fun _ => performs_pure))

theorem performs_recvAll (fuel : ℕ) (c : Connection) (length : ℕ) :
    (recvAll fuel c length).Performs Chatting := by
  have hround : ∀ received, (recvRound length received).Performs Chatting := by
    intro received
    refine performs_ite performs_pure (performs_call trivial fun r => ?_)
    cases r with
    | data bytes => exact performs_ite performs_pure (performs_goesOn trivial)
    | zeroReturn => exact performs_pure
    | want write errno => exact performs_ite performs_pure performs_pure
    | failed errno => exact performs_pure
  unfold recvAll
  exact performs_ite performs_pure (performs_ite performs_pure (performs_bind
    (performs_iterate (performs_goesOn trivial) hround fuel []) fun _ => performs_pure))

theorem performs_sessionRound (fuel : ℕ) (c : Connection) :
    (sessionRound fuel c).Performs Chatting := by
  unfold sessionRound
  refine performs_call trivial fun event => ?_
  cases event with
  | none => exact performs_pure
  | some event =>
    cases event with
    | send bytes => exact performs_bind (performs_sendAll fuel c bytes) fun _ => performs_pure
    | receive length => exact performs_bind (performs_recvAll fuel c length) fun _ => performs_pure

theorem clientLogin_session {t : ClientLogin} {message : Bytes} (hshown : t.shown = some message)
    (hwelcome : readWelcome message = .ok ()) (fuel : ℕ) (c : Connection) :
    clientLogin.follows t (goesOn.iterate (sessionRound fuel) fuel c) fun _ _ => True := by
  refine follows_mono (fun _ _ _ => trivial)
    (follows_performs (R := fun t : ClientLogin => t.shown = some message) (fun t o ht ho => ?_)
      (performs_iterate (performs_goesOn trivial) (performs_sessionRound fuel) fuel c) hshown)
  cases o <;> first | exact absurd ho id | skip
  case event => exact ⟨⟨message, ht, hwelcome⟩, fun _ => ht⟩
  case sslRead n =>
    refine ⟨trivial, fun r => ?_⟩
    cases r <;> exact ht
  case sslWrite bytes =>
    refine ⟨.inl (by rw [ht]; rfl), fun r => ?_⟩
    cases r <;> exact ht
  all_goals exact ⟨trivial, fun _ => ht⟩

theorem clientLogin_follows (fuel fd : ℕ) :
    clientLogin.follows {} (clientMain fuel fd) fun _ _ => True := by
  have hclose : ∀ (t : ClientLogin) (c : Connection),
      clientLogin.follows t (closeConnection fuel c true >>= fun _ => pure ()) fun _ _ => True := by
    intro t c
    rw [follows_bind]
    exact follows_mono (fun _ _ _ => follows_pure trivial) (clientLogin_close fuel c true)
  -- nothing but TLS calls until the handshake is over
  have hconnect : clientLogin.follows {} (connectToServer fuel fd) fun t _ => t = {} := by
    unfold connectToServer
    refine follows_call trivial fun r => ?_
    cases r with
    | error e => exact follows_call trivial fun _ => follows_pure rfl
    | ok _ =>
      refine follows_performs (R := fun t : ClientLogin => t = {}) (fun t o ht ho => ?_)
        (performs_performTlsHandshake fuel true _) rfl
      cases o <;> first | exact absurd ho id | exact ⟨trivial, fun _ => ht⟩
  unfold clientMain
  refine follows_then hconnect fun ⟨handshake, c⟩ => ?_
  cases handshake with
  | error e => exact follows_pure trivial
  | ok _ =>
    have hregister : clientLogin.follows {} (getUsernameAndRegisterInServer fuel c) fun t r =>
        r.1 = .ok () → ∃ line name, readUsername line = .ok name ∧
          t = { line := some line, written := encodeMessage name } := by
      unfold getUsernameAndRegisterInServer
      refine follows_call ⟨rfl, rfl⟩ fun line => ?_
      cases line with
      | none => exact follows_pure nofun
      | some line =>
        dsimp only
        split
        · exact follows_pure nofun
        · next name hname =>
          have htyped : ClientLogin.Typed { line := some line } name := ⟨line, rfl, hname⟩
          exact follows_mono (fun _ _ hsent hok => ⟨line, name, hname, hsent.2 hok⟩)
            ((writes_clientLogin htyped).sendMessage fuel c)
    dsimp only
    rw [follows_bind]
    refine follows_mono ?_ hregister
    rintro t ⟨registered, c'⟩ hsent
    cases registered with
    | error e => exact hclose t c'
    | ok _ =>
      obtain ⟨line, name, hname, rfl⟩ := hsent rfl
      -- what is shown has come in as one message
      have hwelcome : clientLogin.follows { line := some line, written := encodeMessage name }
          (receiveWelcomeMessage fuel c') fun t r => r.1 = .ok () →
            ∃ message, t.shown = some message ∧ readWelcome message = .ok () := by
        unfold receiveWelcomeMessage
        rw [follows_bind]
        have hreads := reads_clientLogin { line := some line, written := encodeMessage name }
        refine follows_mono ?_ (hreads.receiveMessage fuel c' bufferSize)
        rintro t ⟨received, c''⟩ ⟨bytes, rfl, hmessage⟩
        rcases received with e | _ | message
        · exact follows_pure nofun
        · exact follows_pure nofun
        · obtain ⟨rfl, -, hle, -⟩ := hmessage message rfl
          refine follows_call ⟨rfl, rfl, hle, name, ⟨line, rfl, hname⟩, rfl⟩ fun _ => ?_
          exact follows_pure fun hok => ⟨message, rfl, hok⟩
      dsimp only
      rw [follows_bind]
      refine follows_mono ?_ hwelcome
      rintro t ⟨welcomed, c''⟩ hshown
      cases welcomed with
      | error e => exact hclose t c''
      | ok _ =>
        obtain ⟨message, hm, hok⟩ := hshown rfl
        dsimp only
        rw [follows_bind]
        exact follows_mono (fun t c _ => hclose t c) (clientLogin_session hm hok fuel c'')

/-- A call, with its answer. -/
abbrev Call := (o : NetOp) × o.Resp

def bytesRead : Call → Bytes
  | ⟨.sslRead _, .data bytes⟩ => bytes
  | _ => []

def bytesWritten : Call → Bytes
  | ⟨.sslWrite bytes, .written n⟩ => bytes.take n
  | _ => []

/-- One end of a connection: what is left of its program, and the calls it has made. -/
structure Party where
  rest : NetProg Unit
  calls : List Call := []

namespace Party

def read (p : Party) : Bytes := p.calls.flatMap bytesRead

def written (p : Party) : Bytes := p.calls.flatMap bytesWritten

/-- The connection delivers what the peer has written, in order, in pieces of any size, and takes
what it likes of what it is given.  Any other answer may come at any time. -/
def transports (p peer : Party) : Call → Bool
  | ⟨.sslRead n, .data bytes⟩ =>
    0 < bytes.length ∧ bytes.length ≤ n ∧ p.read ++ bytes <+: peer.written
  | ⟨.sslWrite bytes, .written n⟩ => 0 < n ∧ n ≤ bytes.length
  | _ => true

def step (p peer : Party) (x : Call) : Option Party :=
  match p.rest with
  | .ret _ => none
  | .op o k =>
    if h : x.1 = o ∧ p.transports peer x then some ⟨k (h.1 ▸ x.2), p.calls ++ [x]⟩ else none

theorem step_eq_some {p p' peer : Party} {x : Call} (h : p.step peer x = some p') :
    ∃ k, p.rest = .op x.1 k ∧ p.transports peer x = true ∧ p' = ⟨k x.2, p.calls ++ [x]⟩ := by
  unfold step at h
  split at h
  · cases h
  · next o k hrest =>
    split at h
    · next hx =>
      obtain ⟨rfl, htransports⟩ := hx
      exact ⟨k, hrest, htransports, (Option.some.inj h).symm⟩
    · cases h

theorem read_transports {p peer : Party} {x : Call} (hx : p.transports peer x = true)
    (hread : p.read <+: peer.written) : p.read ++ bytesRead x <+: peer.written := by
  unfold bytesRead
  split
  · exact (of_decide_eq_true hx).2.2
  · rwa [List.append_nil]

end Party

structure Login where
  client : Party
  server : Party

/-- A call by the client or by the server. -/
inductive LoginLabel
  | client (x : Call)
  | server (x : Call)

/-- A client and the thread of the server that serves it. -/
def login (fuel fd fuel' fd' : ℕ) : Transition.System Login LoginLabel where
  init := ⟨{ rest := clientMain fuel fd }, { rest := serveConnection fuel' fd' }⟩
  step s
    | .client x => (s.client.step s.server x).map fun client => { s with client }
    | .server x => (s.server.step s.client x).map fun server => { s with server }

namespace Login

/-- The client's half of the invariant: its program keeps to the rules, which know what it has
done. -/
structure ClientKeeps (t : ClientLogin) (p : Party) : Prop where
  follows : clientLogin.follows t p.rest fun _ _ => True
  ok : t.Ok
  read : t.read = p.read
  written : t.written = p.written
  line : ∀ line, t.line = some line → (⟨.fgets, some line⟩ : Call) ∈ p.calls
  shown : ∀ message, (⟨.fputs message, ()⟩ : Call) ∈ p.calls ↔ t.shown = some message
  event : ∀ call, (⟨.event, call⟩ : Call) ∈ p.calls →
    ∃ message, t.shown = some message ∧ readWelcome message = .ok ()

/-- The server's half. -/
structure ServerKeeps (t : ServerLogin) (p : Party) : Prop where
  follows : serverLogin.follows t p.rest fun _ _ => True
  ok : t.Ok
  read : t.read = p.read
  written : t.written = p.written
  outcome : ∀ name r, (⟨.addClient name, r⟩ : Call) ∈ p.calls ↔ t.outcome = some (name, r)

theorem clientLogin_next (t : ClientLogin) (x : Call) :
    (clientLogin.next t x.1 x.2).read = t.read ++ bytesRead x ∧
    (clientLogin.next t x.1 x.2).written = t.written ++ bytesWritten x := by
  obtain ⟨o, r⟩ := x
  cases o <;> first | exact ⟨(List.append_nil _).symm, (List.append_nil _).symm⟩ | skip
  case sslRead n =>
    refine ⟨?_, by cases r <;> exact (List.append_nil _).symm⟩
    cases r <;> first | rfl | exact (List.append_nil _).symm
  case sslWrite bytes =>
    refine ⟨by cases r <;> exact (List.append_nil _).symm, ?_⟩
    cases r <;> first | rfl | exact (List.append_nil _).symm

theorem serverLogin_next (t : ServerLogin) (x : Call) :
    (serverLogin.next t x.1 x.2).read = t.read ++ bytesRead x ∧
    (serverLogin.next t x.1 x.2).written = t.written ++ bytesWritten x := by
  obtain ⟨o, r⟩ := x
  cases o <;> first | exact ⟨(List.append_nil _).symm, (List.append_nil _).symm⟩ | skip
  case sslRead n =>
    refine ⟨?_, by cases r <;> exact (List.append_nil _).symm⟩
    cases r <;> first | rfl | exact (List.append_nil _).symm
  case sslWrite bytes =>
    refine ⟨by cases r <;> exact (List.append_nil _).symm, ?_⟩
    cases r <;> first | rfl | exact (List.append_nil _).symm
  case activateClient =>
    refine ⟨?_, ?_⟩ <;> cases r <;> exact (List.append_nil _).symm

theorem clientLogin_keeps (t : ClientLogin) (x : Call) :
    ((clientLogin.next t x.1 x.2).line = t.line ∨ ∃ line, x = ⟨.fgets, line⟩ ∧
      (clientLogin.next t x.1 x.2).line = line) ∧
    ((clientLogin.next t x.1 x.2).shown = t.shown ∧ (∀ message, x ≠ ⟨.fputs message, ()⟩) ∨
      ∃ message, x = ⟨.fputs message, ()⟩) := by
  obtain ⟨o, r⟩ := x
  cases o <;> first | exact ⟨.inl rfl, .inl ⟨rfl, nofun⟩⟩ | skip
  case fgets => exact ⟨.inr ⟨r, rfl, rfl⟩, .inl ⟨rfl, nofun⟩⟩
  case fputs message => exact ⟨.inl rfl, .inr ⟨message, rfl⟩⟩
  case sslRead n => exact ⟨.inl (by cases r <;> rfl), .inl ⟨by cases r <;> rfl, nofun⟩⟩
  case sslWrite bytes => exact ⟨.inl (by cases r <;> rfl), .inl ⟨by cases r <;> rfl, nofun⟩⟩

theorem serverLogin_keeps (t : ServerLogin) (x : Call) :
    (serverLogin.next t x.1 x.2).outcome = t.outcome ∧ (∀ name r, x ≠ ⟨.addClient name, r⟩) ∨
      ∃ name r, x = ⟨.addClient name, r⟩ := by
  obtain ⟨o, r⟩ := x
  cases o <;> first | exact .inl ⟨rfl, nofun⟩ | skip
  case addClient name => exact .inr ⟨name, r, rfl⟩
  case sslRead n => exact .inl ⟨by cases r <;> rfl, nofun⟩
  case sslWrite bytes => exact .inl ⟨by cases r <;> rfl, nofun⟩
  case activateClient => exact .inl ⟨by cases r <;> rfl, nofun⟩

theorem read_append {p : Party} {x : Call} (rest : NetProg Unit) :
    Party.read ⟨rest, p.calls ++ [x]⟩ = p.read ++ bytesRead x := by
  rw [Party.read, List.flatMap_append, List.flatMap_singleton, Party.read]

theorem written_append {p : Party} {x : Call} (rest : NetProg Unit) :
    Party.written ⟨rest, p.calls ++ [x]⟩ = p.written ++ bytesWritten x := by
  rw [Party.written, List.flatMap_append, List.flatMap_singleton, Party.written]

theorem ClientKeeps.step {t : ClientLogin} {p p' peer : Party} (h : ClientKeeps t p) {x : Call}
    (hp : p.step peer x = some p') : ClientKeeps (clientLogin.next t x.1 x.2) p' := by
  obtain ⟨k, hrest, -, rfl⟩ := Party.step_eq_some hp
  obtain ⟨hallow, hnext⟩ : clientLogin.allow t x.1 ∧
      ∀ r, clientLogin.follows (clientLogin.next t x.1 r) (k r) fun _ _ => True := by
    have hfollows := h.follows
    rwa [hrest, follows_op] at hfollows
  obtain ⟨hread, hwritten⟩ := clientLogin_next t x
  obtain ⟨hline, hshown⟩ := clientLogin_keeps t x
  refine ⟨hnext x.2, h.ok.next hallow x.2, ?_, ?_, fun line hl => ?_, fun message => ?_,
    fun call hcall => ?_⟩
  · rw [hread, read_append, h.read]
  · rw [hwritten, written_append, h.written]
  · rcases hline with hsame | ⟨line', rfl, hnew⟩
    · exact List.mem_append_left _ (h.line line (hsame.symm.trans hl))
    · rw [hnew] at hl
      rw [hl]
      exact List.mem_append_right _ (List.mem_singleton_self _)
  · dsimp only
    rw [List.mem_append, List.mem_singleton]
    rcases hshown with ⟨hsame, hother⟩ | ⟨message', rfl⟩
    · rw [hsame, h.shown]
      exact or_iff_left (Ne.symm (hother message))
    · -- the user has been shown nothing before
      rw [h.shown, hallow.1]
      refine ⟨fun hmem => ?_, fun hnew => .inr ?_⟩
      · rcases hmem with hno | heq
        · cases hno
        · cases heq
          rfl
      · obtain rfl := Option.some.inj hnew
        rfl
  · rcases List.mem_append.mp hcall with hold | hnew
    · obtain ⟨message, hm, hok⟩ := h.event call hold
      rcases hshown with ⟨hsame, -⟩ | ⟨message', rfl⟩
      · exact ⟨message, hsame.trans hm, hok⟩
      · exact nomatch hm.symm.trans hallow.1
    · obtain rfl := List.mem_singleton.mp hnew
      exact hallow

theorem ServerKeeps.step {t : ServerLogin} {p p' peer : Party} (h : ServerKeeps t p) {x : Call}
    (hp : p.step peer x = some p') : ServerKeeps (serverLogin.next t x.1 x.2) p' := by
  obtain ⟨k, hrest, -, rfl⟩ := Party.step_eq_some hp
  obtain ⟨hallow, hnext⟩ : serverLogin.allow t x.1 ∧
      ∀ r, serverLogin.follows (serverLogin.next t x.1 r) (k r) fun _ _ => True := by
    have hfollows := h.follows
    rwa [hrest, follows_op] at hfollows
  obtain ⟨hread, hwritten⟩ := serverLogin_next t x
  refine ⟨hnext x.2, h.ok.next hallow x.2, ?_, ?_, fun name r => ?_⟩
  · rw [hread, read_append, h.read]
  · rw [hwritten, written_append, h.written]
  · dsimp only
    rw [List.mem_append, List.mem_singleton]
    rcases serverLogin_keeps t x with ⟨hsame, hother⟩ | ⟨name', r', rfl⟩
    · rw [hsame, h.outcome]
      exact or_iff_left (Ne.symm (hother name r))
    · -- nobody has been registered before
      rw [h.outcome, hallow.1]
      refine ⟨fun hmem => ?_, fun hnew => .inr ?_⟩
      · rcases hmem with hno | heq
        · cases hno
        · cases heq
          rfl
      · obtain ⟨rfl, rfl⟩ := Prod.mk.inj (Option.some.inj hnew)
        rfl

/-- Both sides keep to their rules, and each has read a part of what the other has written. -/
structure Keeps (s : Login) : Prop where
  client : ∃ t, ClientKeeps t s.client
  server : ∃ t, ServerKeeps t s.server
  up : s.server.read <+: s.client.written
  down : s.client.read <+: s.server.written

variable {fuel fd fuel' fd' : ℕ}

theorem keeps_init : Keeps (login fuel fd fuel' fd').init where
  client := ⟨{}, clientLogin_follows fuel fd, ⟨fun _ => .inl rfl, nofun⟩, rfl, rfl, nofun,
    fun _ => ⟨nofun, nofun⟩, nofun⟩
  server := ⟨{}, serverLogin_follows fuel' fd', ⟨nofun, fun _ => .inl rfl, nofun⟩, rfl, rfl,
    fun _ _ => ⟨nofun, nofun⟩⟩
  up := List.nil_prefix
  down := List.nil_prefix

theorem Keeps.step {s s' : Login} (h : s.Keeps) {l : LoginLabel}
    (hs : (login fuel fd fuel' fd').step s l = some s') : s'.Keeps := by
  obtain ⟨⟨tc, hclient⟩, ⟨ts, hserver⟩, hup, hdown⟩ := h
  cases l with
  | client x =>
    obtain ⟨client, hp, rfl⟩ := Option.map_eq_some_iff.mp hs
    refine ⟨⟨_, hclient.step hp⟩, ⟨ts, hserver⟩, ?_, ?_⟩ <;>
      obtain ⟨k, -, htransports, rfl⟩ := Party.step_eq_some hp
    · dsimp only
      rw [written_append]
      exact hup.trans (List.prefix_append _ _)
    · dsimp only
      rw [read_append]
      exact Party.read_transports htransports hdown
  | server x =>
    obtain ⟨server, hp, rfl⟩ := Option.map_eq_some_iff.mp hs
    refine ⟨⟨tc, hclient⟩, ⟨_, hserver.step hp⟩, ?_, ?_⟩ <;>
      obtain ⟨k, -, htransports, rfl⟩ := Party.step_eq_some hp
    · dsimp only
      rw [read_append]
      exact Party.read_transports htransports hup
    · dsimp only
      rw [written_append]
      exact hdown.trans (List.prefix_append _ _)

theorem keeps_of_reach {s : Login} (hs : (login fuel fd fuel' fd').Reachable s) : s.Keeps :=
  hs.invariant (P := Keeps) keeps_init fun _ _ _ _ _ h hstep => h.step hstep

end Login

theorem encodeMessage_ne_nil (message : Bytes) : encodeMessage message ≠ [] := by
  intro hnil
  have hlength := congrArg List.length hnil
  rw [encodeMessage, List.length_append, BigEndian.encode_length, List.length_nil] at hlength
  omega

theorem encodeMessage_unique {a b bytes : Bytes} (ha : a.length < 256 ^ 4)
    (hb : b.length < 256 ^ 4) (hpa : encodeMessage a <+: bytes) (hpb : encodeMessage b <+: bytes) :
    a = b := by
  have htake : ∀ {c : Bytes}, encodeMessage c <+: bytes →
      bytes.take 4 = BigEndian.encode 4 c.length ∧ bytes.drop 4 = c ++ (bytes.drop 4).drop c.length
      := by
    rintro c ⟨rest, rfl⟩
    rw [encodeMessage, List.append_assoc, List.take_left' (BigEndian.encode_length 4 _),
      List.drop_left' (BigEndian.encode_length 4 _), List.drop_left' rfl]
    exact ⟨rfl, rfl⟩
  obtain ⟨htakea, hdropa⟩ := htake hpa
  obtain ⟨htakeb, hdropb⟩ := htake hpb
  have hlength : a.length = b.length :=
    BigEndian.encode_injective ha hb (htakea.symm.trans htakeb)
  rw [hlength] at hdropa
  exact List.append_inj_left (hdropa.symm.trans hdropb) hlength

theorem readUsername_valid {line name : Bytes} (h : readUsername line = .ok name) :
    usernameIsValid name = true := by
  unfold readUsername at h
  dsimp only at h
  split_ifs at h with hline hlength hclean
  cases h
  rw [not_or, not_le] at hlength
  refine usernameIsValid_iff.mpr ⟨hlength.1, hlength.2, fun b hb => ?_⟩
  have hb' : ¬(isSpace b || isCntrl b) = true := fun hbad =>
    hclean (List.any_eq_true.mpr ⟨b, hb, hbad⟩)
  rw [Bool.not_eq_true, Bool.or_eq_false_iff] at hb'
  exact ⟨hb'.2, hb'.1⟩

theorem length_loginTimeout : loginTimeout.length = 32 := length_ascii_ofList _

theorem length_loginInvalid : loginInvalid.length = 32 := length_ascii_ofList _

theorem length_loginError (e : Errno) : (loginError e).length ≤ 64 := by
  unfold loginError
  rw [List.length_append, List.length_append]
  have hstart : (ascii "Login failed: ").length = 14 := length_ascii_ofList _
  have hend : (ascii ".\n").length = 2 := length_ascii_ofList _
  have hinUse : (ascii "username is already in use").length = 26 := length_ascii_ofList _
  have hinvalid : (ascii "invalid username or server is full").length = 34 := length_ascii_ofList _
  split <;> omega

theorem length_welcomeMessage (name : Bytes) :
    (welcomeMessage name).length = 25 + name.length := by
  have hstart : (ascii "Welcome to CipherChat, ").length = 23 := length_ascii_ofList _
  have hend : (ascii "!\n").length = 2 := length_ascii_ofList _
  rw [welcomeMessage, List.length_append, List.length_append, hstart, hend]
  omega

theorem readWelcome_failed (rest : Bytes) :
    readWelcome (ascii "Login failed: " ++ rest) = .error .EACCES := by
  have htake : (ascii "Login failed: ").take 13 = ascii "Login failed:" := by
    rw [show ascii "Login failed: " = _ from ascii_ofList _,
      show ascii "Login failed:" = _ from ascii_ofList _]
    rfl
  have hlength : (ascii "Login failed: ").length = 14 := length_ascii_ofList _
  rw [readWelcome, if_pos]
  rw [List.take_append_of_le_length (by omega), htake]

theorem readWelcome_timeout : readWelcome loginTimeout = .error .EACCES := by
  have hsplit : loginTimeout = ascii "Login failed: " ++ ascii "username timeout.\n" := by
    rw [loginTimeout, show ascii "Login failed: username timeout.\n" = _ from ascii_ofList _,
      show ascii "Login failed: " = _ from ascii_ofList _,
      show ascii "username timeout.\n" = _ from ascii_ofList _]
    rfl
  rw [hsplit]
  exact readWelcome_failed _

theorem readWelcome_welcome (name : Bytes) : readWelcome (welcomeMessage name) = .ok () := by
  have hhead : ∀ {bytes rest : Bytes}, bytes ≠ [] → (bytes ++ rest).head? = bytes.head? := by
    intro bytes rest hne
    rw [List.head?_append, Option.or_of_isSome (List.isSome_head?.mpr hne)]
  rw [readWelcome, if_neg]
  intro htake
  have hL : (ascii "Login failed:").head? = some 76 := head?_ascii_ofList _ _
  have hW : (ascii "Welcome to CipherChat, ").head? = some 87 := head?_ascii_ofList _ _
  have hne : ascii "Welcome to CipherChat, " ≠ [] := ascii_ofList_ne_nil (by simp)
  have hwelcome : (welcomeMessage name).head? = some 87 := by
    rw [welcomeMessage, List.append_assoc, hhead hne, hW]
  have hsame : ((welcomeMessage name).take 13).head? = some 87 := by
    rw [List.head?_take, if_neg (by omega), hwelcome]
  rw [htake, hL] at hsame
  cases hsame

theorem ServerLogin.Ok.answer_length {t : ServerLogin} (h : t.Ok) {reply : Bytes}
    (hreply : t.Answer reply) : reply.length < 256 ^ 4 := by
  unfold ServerLogin.Answer at hreply
  split at hreply
  · rcases hreply with rfl | ⟨rfl, -⟩
    · rw [length_loginTimeout]
      decide
    · rw [length_loginInvalid]
      decide
  · next e _ =>
    have hle := length_loginError e
    rw [hreply]
    omega
  · next name hname =>
    have hlt := (h.name name _ hname).2.2.1
    have hsize := usernameSize_eq
    rw [hreply, length_welcomeMessage]
    omega

namespace Login

variable {tc : ClientLogin} {ts : ServerLogin} {client server : Party}

theorem ClientKeeps.typed (h : ClientKeeps tc client) {name : Bytes}
    (hname : name.length < usernameSize) (hread : encodeMessage name <+: client.written) :
    ∃ line, (⟨.fgets, some line⟩ : Call) ∈ client.calls ∧ readUsername line = .ok name := by
  have hsize := usernameSize_eq
  rw [← h.written] at hread
  have hunique : ∀ {typed : Bytes}, tc.Typed typed → tc.written <+: encodeMessage typed ∨
      encodeMessage typed <+: tc.written → name = typed := by
    rintro typed ⟨line, -, htyped⟩ hp
    have hlt := (usernameIsValid_iff.mp (readUsername_valid htyped)).2.1
    rcases hp with hp | hp
    · exact encodeMessage_unique (by omega) (by omega) (hread.trans hp) (List.prefix_refl _)
    · exact encodeMessage_unique (by omega) (by omega) hread hp
  have htyped : tc.Typed name := by
    cases hshown : tc.shown with
    | none =>
      rcases h.ok.early hshown with hnil | ⟨typed, htyped, hp⟩
      · rw [hnil] at hread
        exact absurd (List.prefix_nil.mp hread) (encodeMessage_ne_nil name)
      · rwa [hunique htyped (.inl hp)]
    | some message =>
      obtain ⟨-, -, typed, htyped, hp⟩ := h.ok.late message hshown
      rwa [hunique htyped (.inr hp)]
  obtain ⟨line, hline, hok⟩ := htyped
  exact ⟨line, h.line line hline, hok⟩

theorem ServerKeeps.answered (h : ServerKeeps ts server) {message : Bytes}
    (hmessage : message.length ≤ messageMaxSize)
    (hread : encodeMessage message <+: server.written) : ts.Answer message := by
  have hsize := messageMaxSize_eq
  rw [← h.written] at hread
  cases hactive : ts.active with
  | false =>
    rcases h.ok.early hactive with hnil | ⟨reply, hreply, hp⟩
    · rw [hnil] at hread
      exact absurd (List.prefix_nil.mp hread) (encodeMessage_ne_nil message)
    · rwa [encodeMessage_unique (by omega) (h.ok.answer_length hreply) (hread.trans hp)
        (List.prefix_refl _)]
  | true =>
    obtain ⟨name, hname, hp⟩ := h.ok.late hactive
    have hreply : ts.Answer (welcomeMessage name) := by
      rw [ServerLogin.Answer, hname]
    rwa [encodeMessage_unique (by omega) (h.ok.answer_length hreply) hread hp]

/-- Whatever the connection does, and wherever the two stand: the server registers the name that the
user has typed, which is one that it accepts; the user is shown what the server has answered; and
the client goes on just when the server has registered that name. -/
theorem login_agreement {fuel fd fuel' fd' : ℕ} {s : Login}
    (hs : (login fuel fd fuel' fd').Reachable s) :
    (∀ name r, (⟨.addClient name, r⟩ : Call) ∈ s.server.calls → usernameIsValid name = true ∧
      ∃ line, (⟨.fgets, some line⟩ : Call) ∈ s.client.calls ∧ readUsername line = .ok name) ∧
    (∀ message, (⟨.fputs message, ()⟩ : Call) ∈ s.client.calls →
      (∃ name, (⟨.addClient name, .ok ()⟩ : Call) ∈ s.server.calls ∧
        message = welcomeMessage name ∧ readWelcome message = .ok ()) ∨
      (readWelcome message = .error .EACCES ∧
        ((∃ name e, (⟨.addClient name, .error e⟩ : Call) ∈ s.server.calls ∧
          message = loginError e) ∨
        message = loginTimeout ∧ ∀ name r, (⟨.addClient name, r⟩ : Call) ∉ s.server.calls))) ∧
    ∀ call, (⟨.event, call⟩ : Call) ∈ s.client.calls →
      ∃ name, (⟨.addClient name, .ok ()⟩ : Call) ∈ s.server.calls ∧
        (⟨.fputs (welcomeMessage name), ()⟩ : Call) ∈ s.client.calls := by
  obtain ⟨⟨tc, hclient⟩, ⟨ts, hserver⟩, hup, hdown⟩ := keeps_of_reach hs
  -- a name that the server has read is the user's
  have hname : ∀ {name : Bytes}, encodeMessage name <+: ts.read → name.length < usernameSize →
      usernameIsValid name = true ∧
        ∃ line, (⟨.fgets, some line⟩ : Call) ∈ s.client.calls ∧ readUsername line = .ok name := by
    intro name hread hlt
    rw [hserver.read] at hread
    obtain ⟨line, hline, hok⟩ := hclient.typed hlt (hread.trans hup)
    exact ⟨readUsername_valid hok, line, hline, hok⟩
  have hshown : ∀ message, (⟨.fputs message, ()⟩ : Call) ∈ s.client.calls → ts.Answer message := by
    intro message hmem
    obtain ⟨hread, hle, -⟩ := hclient.ok.late message ((hclient.shown message).mp hmem)
    rw [hclient.read] at hread
    exact hserver.answered hle (hread.trans hdown)
  have hanswer : ∀ message, (⟨.fputs message, ()⟩ : Call) ∈ s.client.calls →
      (∃ name, (⟨.addClient name, .ok ()⟩ : Call) ∈ s.server.calls ∧
        message = welcomeMessage name ∧ readWelcome message = .ok ()) ∨
      (readWelcome message = .error .EACCES ∧
        ((∃ name e, (⟨.addClient name, .error e⟩ : Call) ∈ s.server.calls ∧
          message = loginError e) ∨
        message = loginTimeout ∧ ∀ name r, (⟨.addClient name, r⟩ : Call) ∉ s.server.calls)) := by
    intro message hmem
    have hreply := hshown message hmem
    unfold ServerLogin.Answer at hreply
    split at hreply
    · next hnone =>
      rcases hreply with rfl | ⟨-, name, hread, hlt, h0⟩
      · refine .inr ⟨readWelcome_timeout, .inr ⟨rfl, fun name r hcall => ?_⟩⟩
        exact nomatch hnone.symm.trans ((hserver.outcome name r).mp hcall)
      · exact absurd h0 (usernameIsValid_no_zero (hname hread hlt).1)
    · next name e hsome =>
      subst hreply
      refine .inr ⟨?_, .inl ⟨name, e, (hserver.outcome name _).mpr hsome, rfl⟩⟩
      rw [loginError, List.append_assoc]
      exact readWelcome_failed _
    · next name hsome =>
      subst hreply
      exact .inl ⟨name, (hserver.outcome name _).mpr hsome, rfl, readWelcome_welcome name⟩
  refine ⟨fun name r hcall => ?_, hanswer, fun call hcall => ?_⟩
  · obtain ⟨hread, hlogin⟩ := hserver.ok.name name r ((hserver.outcome name r).mp hcall)
    exact hname hread hlogin.2.1
  · obtain ⟨message, hm, hok⟩ := hclient.event call hcall
    have hmem := (hclient.shown message).mpr hm
    rcases hanswer message hmem with ⟨name, hcall', rfl, -⟩ | ⟨hfailed, -⟩
    · exact ⟨name, hcall', hmem⟩
    · exact nomatch hok.symm.trans hfailed

def bobLogin : List LoginLabel :=
  [⟨.connect, .ok ()⟩, ⟨.clockGettime, .ok 0⟩, ⟨.createContext true, ()⟩, ⟨.sslNew, .ok ()⟩,
    ⟨.freeContext, ()⟩, ⟨.getFlags, .ok ()⟩, ⟨.setFlags true, .ok ()⟩, ⟨.sslSetFd, .ok ()⟩,
    ⟨.sslSetIp, .ok ()⟩, ⟨.clockGettime, .ok 0⟩, ⟨.sslHandshake true, .ok ()⟩,
    ⟨.clockGettime, .ok 0⟩, ⟨.setFlags false, .ok ()⟩, ⟨.fgets, some [98, 111, 98, 10]⟩,
    ⟨.sslWrite [0, 0, 0, 3], .written 4⟩, ⟨.sslWrite [98, 111, 98], .written 3⟩].map .client ++
  [⟨.malloc, true⟩, ⟨.pthreadCreate, true⟩, ⟨.clockGettime, .ok 0⟩, ⟨.createContext false, ()⟩,
    ⟨.sslNew, .ok ()⟩, ⟨.freeContext, ()⟩, ⟨.getFlags, .ok ()⟩, ⟨.setFlags true, .ok ()⟩,
    ⟨.sslSetFd, .ok ()⟩, ⟨.clockGettime, .ok 0⟩, ⟨.sslHandshake false, .ok ()⟩,
    ⟨.clockGettime, .ok 0⟩, ⟨.setFlags false, .ok ()⟩, ⟨.sslRead 4, .data [0, 0, 0, 3]⟩,
    ⟨.sslRead 3, .data [98, 111, 98]⟩, ⟨.addClient [98, 111, 98], .ok ()⟩,
    ⟨.sslWrite [0, 0, 0, 28], .written 4⟩,
    ⟨.sslWrite (welcomeMessage [98, 111, 98]), .written 28⟩].map .server ++
  [⟨.sslRead 4, .data [0, 0, 0, 28]⟩, ⟨.sslRead 28, .data (welcomeMessage [98, 111, 98])⟩,
    ⟨.fputs (welcomeMessage [98, 111, 98]), ()⟩, ⟨.event, none⟩].map .client

theorem login_agreement_bob : ∃ s, (login 3 5 3 7).run (login 3 5 3 7).init bobLogin = some s ∧
    s.client.calls.getLast?.map Sigma.fst = some .event ∧
    (∀ call, (⟨.event, call⟩ : Call) ∈ s.client.calls →
      ∃ name, (⟨.addClient name, .ok ()⟩ : Call) ∈ s.server.calls ∧
        (⟨.fputs (welcomeMessage name), ()⟩ : Call) ∈ s.client.calls) := by
  have hrun : ((login 3 5 3 7).run (login 3 5 3 7).init bobLogin).map
      (·.client.calls.getLast?.map Sigma.fst) = some (some .event) := by decide +kernel
  obtain ⟨s, hs, hlast⟩ := Option.map_eq_some_iff.mp hrun
  exact ⟨s, hs, hlast, (login_agreement (.run .init hs)).2.2⟩

end Login

end Network

end CipherChat
