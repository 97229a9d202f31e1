import CipherChat.Conversation
import CipherChat.TlsRetry

/-!
# The rules of a TLS connection

What OpenSSL asks of its callers, as a monitor over the calls of a connection: a handshake, a write
or a shutdown that is not over, and a read that wants to write, is repeated before another call is
begun; nothing but `SSL_free` follows a fatal error; only an undisturbed connection is shut down;
and the `SSL` and its socket are released once.
-/

namespace CipherChat

open Resumption Prog Discipline

namespace Network

/-- How far a connection has come; before `absent` there is no `SSL`, after `freed` no more. -/
inductive TlsState
  | absent | connecting | idle
  | retryWrite (bytes : Bytes)
  | retryRead (count : ℕ)
  | shutting | closing | broken | freed | gone
  deriving DecidableEq

namespace TlsState

/-- There is an `SSL`. -/
def Alive (t : TlsState) : Prop := t ≠ .absent ∧ t ≠ .freed ∧ t ≠ .gone

/-- After a call of `SSL_read_ex` that is over. -/
def resume (t : TlsState) : TlsState := if t = .closing then .closing else .idle

/-- The state after a call.  A read that wants to read counts as over: any call may follow it. -/
def next (t : TlsState) : (o : NetOp) → o.Resp → TlsState
  | .sslNew, .ok () => .connecting
  | .sslHandshake _, .ok () => .idle
  | .sslHandshake _, .error e => if e = .wantRead ∨ e = .wantWrite then .connecting else .broken
  | .sslRead _, .data _ | .sslRead _, .zeroReturn | .sslRead _, .want false _ => t.resume
  | .sslRead count, .want true _ => if t = .closing then .closing else .retryRead count
  | .sslRead _, .failed _ => .broken
  | .sslWrite _, .written _ | .sslWrite _, .failed .zeroReturn => .idle
  | .sslWrite bytes, .failed .wantRead | .sslWrite bytes, .failed .wantWrite => .retryWrite bytes
  | .sslWrite _, .failed (.syscall _) | .sslWrite _, .failed .ssl => .broken
  | .sslShutdown, .done | .sslShutdown, .sent => .closing
  | .sslShutdown, .failed e => if e = .wantRead ∨ e = .wantWrite then .shutting else .broken
  | .sslFree, () => .freed
  | .close, () => .gone
  | _, _ => t

def allow (t : TlsState) : NetOp → Prop
  | .sslNew => t = .absent
  | .sslSetFd | .sslSetIp | .sslHandshake _ => t = .connecting
  | .sslRead count => t = .idle ∨ t = .closing ∨ t = .retryRead count
  | .sslWrite bytes => t = .idle ∨ t = .retryWrite bytes
  | .sslShutdown => t = .idle ∨ t = .shutting
  | .sslFree => t.Alive
  | .close => t = .absent ∨ t = .freed
  | .getFlags | .setFlags _ | .poll _ _ | .pollForever => t ≠ .gone
  | _ => True

end TlsState

def tlsRules : Discipline netSig TlsState where
  allow := TlsState.allow
  next := TlsState.next

section

variable {t : TlsState} {α : Type}

theorem follows_goesOn {Q : TlsState → α → Prop} : tlsRules.follows t goesOn Q := by
  rw [goesOn, follows_op]
  exact ⟨trivial, fun r => nomatch r⟩

theorem follows_remaining (deadline : ℤ) :
    tlsRules.follows t (remainingMilliseconds deadline) fun t' _ => t' = t := by
  unfold remainingMilliseconds
  refine follows_call trivial fun r => ?_
  cases r with
  | error e => exact follows_pure rfl
  | ok now =>
    dsimp only
    exact follows_ite (follows_pure rfl) (follows_pure rfl)

theorem follows_wait (ht : t ≠ .gone) (fuel : ℕ) (error : SslError) (deadline : ℤ) :
    tlsRules.follows t (waitForTls fuel error deadline) fun t' _ => t' = t := by
  unfold waitForTls
  refine follows_iterate (I := fun t' _ => t' = t) (fun _ => follows_goesOn) ?_ fuel rfl
  rintro t' - rfl
  unfold waitRound
  refine follows_then (follows_remaining deadline) fun remaining => ?_
  cases remaining with
  | error e => exact follows_pure rfl
  | ok remaining =>
    refine follows_call ht fun r => ?_
    cases r with
    | none => exact follows_pure rfl
    | some r => cases r <;> exact follows_pure rfl

def Shutting (t : TlsState) : Bool → Prop
  | false => t = .idle ∨ t = .shutting
  | true => t = .closing

theorem Shutting.alive {sent : Bool} (h : Shutting t sent) : t.Alive := by
  cases sent with
  | false => obtain rfl | rfl := h <;> exact ⟨nofun, nofun, nofun⟩
  | true =>
    obtain rfl := h
    exact ⟨nofun, nofun, nofun⟩

theorem alive_idle : TlsState.Alive .idle := ⟨nofun, nofun, nofun⟩

theorem alive_shutting : TlsState.Alive .shutting := ⟨nofun, nofun, nofun⟩

theorem alive_closing : TlsState.Alive .closing := ⟨nofun, nofun, nofun⟩

theorem alive_broken : TlsState.Alive .broken := ⟨nofun, nofun, nofun⟩

theorem follows_shutdownRetry (sent : Bool) {error : SslError} (ht : t.Alive)
    (hretry : error = .wantRead ∨ error = .wantWrite → Shutting t sent) (fuel : ℕ)
    (deadline : ℤ) : tlsRules.follows t (shutdownRetry fuel deadline sent error) fun t' r =>
      r.elim (Shutting t') fun _ => t'.Alive := by
  unfold shutdownRetry
  split
  · exact follows_pure ht
  · next hwant =>
    have hwant' : error = .wantRead ∨ error = .wantWrite := by
      rwa [not_and_or, not_not, not_not] at hwant
    refine follows_then (follows_wait ht.2.2 fuel error deadline) fun r => ?_
    cases r with
    | error e => exact follows_pure ht
    | ok _ => exact follows_pure (hretry hwant')

theorem follows_shutdownRound {sent : Bool} (h : Shutting t sent) (fuel : ℕ) (deadline : ℤ) :
    tlsRules.follows t (shutdownRound fuel deadline sent) fun t' r =>
      r.elim (Shutting t') fun _ => t'.Alive := by
  have halive := h.alive
  unfold shutdownRound
  refine follows_then (follows_remaining deadline) fun r => ?_
  cases r with
  | error e => exact follows_pure halive
  | ok _ =>
    cases sent with
    | false =>
      refine follows_call h fun r => ?_
      cases r with
      | done => exact follows_pure alive_closing
      | sent => exact follows_pure (show Shutting .closing true from rfl)
      | failed error =>
        change tlsRules.follows (if error = .wantRead ∨ error = .wantWrite then .shutting
          else .broken) _ _
        split
        · exact follows_shutdownRetry false alive_shutting (fun _ => .inr rfl) fuel deadline
        · next hfatal =>
          exact follows_shutdownRetry false alive_broken (fun hwant => absurd hwant hfatal) fuel
            deadline
    | true =>
      obtain rfl := h
      have hagain : ∀ error, tlsRules.follows .closing (shutdownRetry fuel deadline true error)
          fun t' r => r.elim (Shutting t') fun _ => t'.Alive := fun error =>
        follows_shutdownRetry true alive_closing (fun _ => rfl) fuel deadline
      refine follows_call (.inr (.inl rfl)) fun r => ?_
      cases r with
      | data bytes => exact follows_pure (show Shutting .closing true from rfl)
      | zeroReturn => exact hagain .zeroReturn
      | want write errno => cases write <;> exact hagain _
      | failed errno =>
        have hfatal : ¬(SslError.syscall errno = .wantRead ∨ SslError.syscall errno = .wantWrite) :=
          by simp
        exact follows_shutdownRetry true alive_broken (fun hwant => absurd hwant hfatal) fuel
          deadline

theorem follows_shutdown (fuel : ℕ) :
    tlsRules.follows .idle (shutdownTls fuel) fun t' _ => t'.Alive := by
  have halive := alive_idle
  unfold shutdownTls
  refine follows_call trivial fun r => ?_
  cases r with
  | error e => exact follows_pure halive
  | ok started =>
    refine follows_call halive.2.2 fun r => ?_
    cases r with
    | error e => exact follows_pure halive
    | ok _ =>
      refine follows_call halive.2.2 fun r => ?_
      cases r with
      | error e => exact follows_pure halive
      | ok _ =>
        exact follows_iterate (I := Shutting) (fun _ => follows_goesOn)
          (fun t' sent hI => follows_shutdownRound hI fuel _) fuel
          (show Shutting .idle false from .inl rfl)

/-- What `close_connection` needs: the `SSL` is where the structure says, and undisturbed if it is
to be shut down. -/
structure Closable (t : TlsState) (c : Connection) (graceful : Bool) : Prop where
  socket : c.socketFd.isSome = true
  alive : c.ssl = true → t.Alive
  dead : c.ssl = false → t = .absent ∨ t = .freed
  idle : c.ssl = true → graceful = true → c.tlsIoFailed = false → t = .idle

theorem follows_close {c : Connection} {graceful : Bool} (h : Closable t c graceful) (fuel : ℕ) :
    tlsRules.follows t (closeConnection fuel c graceful) fun t' _ => t' = .gone := by
  have hrelease : ∀ t' : TlsState, (c.ssl = true → t'.Alive) →
      (c.ssl = false → t' = .absent ∨ t' = .freed) →
      tlsRules.follows t' (releaseConnection c) fun t'' _ => t'' = .gone := by
    intro t' halive hdead
    unfold releaseConnection
    rw [if_pos h.socket]
    cases hssl : c.ssl with
    | false => exact follows_call (hdead hssl) fun _ => follows_pure rfl
    | true =>
      exact follows_call (halive hssl) fun _ => follows_call (.inr rfl) fun _ => follows_pure rfl
  unfold closeConnection
  split
  · next hgraceful =>
    obtain ⟨hssl, -, hgrace, hgood⟩ := hgraceful
    obtain rfl := h.idle hssl hgrace hgood
    rw [follows_bind]
    refine follows_mono (fun t' _ ht' => hrelease t' (fun _ => ht') fun hno => ?_)
      (follows_shutdown fuel)
    rw [hssl] at hno
    cases hno
  · exact hrelease t h.alive h.dead

theorem follows_handshakeWith (fuel : ℕ) (isClient : Bool) (deadline : ℤ) :
    tlsRules.follows .connecting (handshakeWith fuel isClient deadline) fun t' r =>
      t'.Alive ∧ (r = .ok () → t' = .idle) := by
  have halive : TlsState.Alive .connecting := ⟨nofun, nofun, nofun⟩
  have hround : ∀ (t : TlsState) (s : Unit), t = .connecting →
      tlsRules.follows t (handshakeRound fuel isClient deadline s) fun t' r =>
        r.elim (fun _ => t' = .connecting) fun r => t'.Alive ∧ (r = .ok () → t' = .idle) := by
    -- each round starts and ends while the handshake goes on, unless it succeeds
    rintro t s rfl
    unfold handshakeRound
    refine follows_then (follows_remaining deadline) fun r => ?_
    cases r with
    | error e => exact follows_pure ⟨halive, nofun⟩
    | ok _ =>
      refine follows_call rfl fun r => ?_
      cases r with
      | ok _ =>
        have hremaining : tlsRules.follows .idle (remainingMilliseconds deadline)
          fun t' _ => t' = .idle := follows_remaining deadline
        refine follows_then hremaining fun r => ?_
        cases r with
        | error e => exact follows_pure ⟨alive_idle, nofun⟩
        | ok _ => exact follows_pure ⟨alive_idle, fun _ => rfl⟩
      | error error =>
        change tlsRules.follows (if error = .wantRead ∨ error = .wantWrite then .connecting
          else .broken) _ _
        dsimp only
        by_cases hwant : error = .wantRead ∨ error = .wantWrite
        · rw [if_pos hwant, if_neg (not_and_or.mpr (hwant.imp not_not.mpr not_not.mpr))]
          refine follows_then (follows_wait halive.2.2 fuel error deadline) fun r => ?_
          cases r with
          | error e => exact follows_pure ⟨halive, nofun⟩
          | ok _ => exact follows_pure rfl
        -- any other error breaks the connection
        · rw [if_neg hwant, if_pos (not_or.mp hwant)]
          split <;> exact follows_pure ⟨alive_broken, nofun⟩
  unfold handshakeWith
  refine follows_call halive.2.2 fun r => ?_
  cases r with
  | error e => exact follows_pure ⟨halive, nofun⟩
  | ok _ =>
    refine follows_call halive.2.2 fun r => ?_
    cases r with
    | error e => exact follows_pure ⟨halive, nofun⟩
    | ok _ =>
      refine follows_call rfl fun r => ?_
      cases r with
      | error e => exact follows_pure ⟨halive, nofun⟩
      | ok _ =>
        have hip : tlsRules.follows .connecting (expectServerIp isClient)
            fun t' _ => t' = .connecting :=
          follows_ite (follows_last rfl fun r => by cases r <;> rfl) (follows_pure rfl)
        refine follows_then hip fun r => ?_
        cases r with
        | error e => exact follows_pure ⟨halive, nofun⟩
        | ok _ =>
          rw [follows_bind]
          refine follows_mono ?_ (follows_iterate (I := fun t' _ => t' = .connecting)
            (fun _ => follows_goesOn) hround fuel rfl)
          rintro t' r ⟨halive', hidle⟩
          cases r with
          | error e => exact follows_pure ⟨halive', nofun⟩
          | ok _ =>
            obtain rfl := hidle rfl
            refine follows_call alive_idle.2.2 fun r => ?_
            cases r with
            | error e => exact follows_pure ⟨alive_idle, nofun⟩
            | ok _ => exact follows_pure ⟨alive_idle, fun _ => rfl⟩

/-- A connection between two calls on it. -/
structure Usable (t : TlsState) (c : Connection) : Prop where
  socket : c.socketFd.isSome = true
  ssl : c.ssl = true
  alive : t.Alive
  idle : c.tlsIoFailed = false → t = .idle

theorem follows_performTlsHandshake (fuel : ℕ) (isClient : Bool) (fd : ℕ) :
    tlsRules.follows .absent (performTlsHandshake fuel isClient { socketFd := some fd })
      fun t' r => match r.1 with
        | .error _ => t' = .gone
        | .ok () => Usable t' r.2 ∧ r.2.tlsIoFailed = false := by
  have hclose : ∀ (t : TlsState) (e : Errno), t = .absent ∨ t = .freed →
      tlsRules.follows t
        (closeConnection fuel { socketFd := some fd } false >>= fun c =>
          pure ((.error e, c) : Except Errno Unit × Connection))
        fun t' r => match r.1 with
          | .error _ => t' = .gone
          | .ok () => Usable t' r.2 ∧ r.2.tlsIoFailed = false := fun t e ht =>
    have hclosable : Closable t { socketFd := some fd } false := ⟨rfl, nofun, fun _ => ht, nofun⟩
    follows_then (follows_close hclosable fuel) fun _ => follows_pure rfl
  unfold performTlsHandshake
  refine follows_call trivial fun r => ?_
  cases r with
  | error e => exact hclose .absent e (.inl rfl)
  | ok started =>
    refine follows_call trivial fun _ => follows_call rfl fun ssl => ?_
    cases ssl with
    | error e => exact follows_call trivial fun _ => hclose .absent _ (.inl rfl)
    | ok _ =>
      refine follows_call trivial fun _ => ?_
      dsimp only
      rw [follows_bind]
      refine follows_mono ?_ (follows_handshakeWith fuel isClient _)
      rintro t' r ⟨halive, hidle⟩
      cases r with
      | error e => exact follows_call halive fun _ => hclose .freed _ (.inr rfl)
      | ok _ => exact follows_pure ⟨⟨rfl, rfl, halive, fun _ => hidle rfl⟩, rfl⟩

theorem Usable.close {c : Connection} (h : Usable t c) (graceful : Bool) :
    Closable t c graceful :=
  ⟨h.socket, fun _ => h.alive, fun hno => (nomatch h.ssl.symm.trans hno), fun _ _ => h.idle⟩

/-- What a call of `common.c` leaves: success means that nothing is left to be retried. -/
def Kept {β : Type} (t : TlsState) (r : Except Errno β × Connection) : Prop :=
  Usable t r.2 ∧ ∀ b, r.1 = .ok b → r.2.tlsIoFailed = false

theorem Usable.kept_error {β : Type} {c : Connection} (h : Usable t c) (e : Errno) :
    Kept (β := β) t (.error e, c) := ⟨h, nofun⟩

theorem Usable.finish {β : Type} {c : Connection} (h : Usable t c) {t' : TlsState}
    {r : Except Errno β} {failed : Bool} (halive : t'.Alive) (hidle : failed = false → t' = .idle)
    (hok : ∀ b, r = .ok b → failed = false) : Kept t' (r, { c with tlsIoFailed := failed }) :=
  ⟨⟨h.socket, h.ssl, halive, hidle⟩, hok⟩

theorem follows_poll (ht : t ≠ .gone) (fuel : ℕ) :
    tlsRules.follows t (goesOn.iterate pollRound fuel ()) fun t' _ => t' = t := by
  refine follows_iterate (I := fun t' _ => t' = t) (fun _ => follows_goesOn) ?_ fuel rfl
  rintro t' - rfl
  unfold pollRound
  refine follows_call ht fun r => ?_
  cases r <;> exact follows_pure rfl

/-- Between two writes of `send_all`. -/
def Sending (bytes : Bytes) (t : TlsState) (totalSent : ℕ) : Prop :=
  t = .idle ∨ totalSent < bytes.length ∧ t = .retryWrite (bytes.drop totalSent)

theorem follows_sendWait {bytes : Bytes} {totalSent : ℕ} (hlt : totalSent < bytes.length)
    (fuel : ℕ) : tlsRules.follows (.retryWrite (bytes.drop totalSent)) (sendWait fuel totalSent)
      fun t' r => r.elim (Sending bytes t') fun r =>
        t'.Alive ∧ (r.2 = false → t' = .idle) ∧ ∀ u, r.1 = .ok u → r.2 = false := by
  have halive : (TlsState.retryWrite (bytes.drop totalSent)).Alive := ⟨nofun, nofun, nofun⟩
  have hagain : Sending bytes (.retryWrite (bytes.drop totalSent)) totalSent := .inr ⟨hlt, rfl⟩
  unfold sendWait
  refine follows_then (follows_poll halive.2.2 fuel) fun r => ?_
  cases r with
  | ready => exact follows_pure hagain
  | interrupted => exact follows_pure hagain
  | failed e => exact follows_pure ⟨halive, nofun, nofun⟩
  | invalid => exact follows_pure ⟨halive, nofun, nofun⟩

theorem follows_sendRound {bytes : Bytes} {totalSent : ℕ} (h : Sending bytes t totalSent)
    (fuel : ℕ) : tlsRules.follows t (sendRound fuel bytes totalSent) fun t' r =>
      r.elim (Sending bytes t') fun r =>
        t'.Alive ∧ (r.2 = false → t' = .idle) ∧ ∀ u, r.1 = .ok u → r.2 = false := by
  unfold sendRound
  split
  · next hall =>
    obtain rfl | ⟨hlt, -⟩ := h
    · exact follows_pure ⟨alive_idle, fun _ => rfl, fun _ _ => rfl⟩
    · omega
  · next hrest =>
    have hallow : t = .idle ∨ t = .retryWrite (bytes.drop totalSent) := h.imp_right (·.2)
    have hwait := follows_sendWait (Nat.not_le.mp hrest) fuel
    refine follows_call hallow fun r => ?_
    cases r with
    | written n => exact follows_ite (follows_pure (.inl rfl)) follows_goesOn
    | failed e =>
      cases e with
      | wantRead => exact hwait
      | wantWrite => exact hwait
      | zeroReturn => exact follows_pure ⟨alive_idle, fun _ => rfl, nofun⟩
      | syscall errno => cases errno <;> exact follows_pure ⟨alive_broken, nofun, nofun⟩
      | ssl => exact follows_pure ⟨alive_broken, nofun, nofun⟩

theorem follows_sendAll {c : Connection} (h : Usable t c) (fuel : ℕ) (bytes : Bytes) :
    tlsRules.follows t (sendAll fuel c bytes) Kept := by
  unfold sendAll
  refine follows_ite (follows_pure (h.kept_error _)) ?_
  split
  · exact follows_pure (h.kept_error _)
  · next hgood =>
    obtain rfl := h.idle (Bool.eq_false_iff.mpr hgood)
    rw [follows_bind]
    refine follows_mono ?_ (follows_iterate (I := Sending bytes) (fun _ => follows_goesOn)
      (fun t' sent hI => follows_sendRound hI fuel) fuel (.inl rfl))
    rintro t' ⟨result, failed⟩ ⟨halive, hidle, hok⟩
    exact follows_pure (h.finish halive hidle hok)

/-- Between two reads of `recv_all`. -/
def Receiving (length : ℕ) (t : TlsState) (received : Bytes) : Prop :=
  t = .idle ∨ received.length < length ∧ t = .retryRead (length - received.length)

theorem follows_recvRound {length : ℕ} {received : Bytes} (h : Receiving length t received) :
    tlsRules.follows t (recvRound length received) fun t' r =>
      r.elim (Receiving length t') fun r =>
        t'.Alive ∧ (r.2 = false → t' = .idle) ∧ ∀ b, r.1 = .ok b → r.2 = false := by
  unfold recvRound
  split
  · next hall =>
    obtain rfl | ⟨hlt, -⟩ := h
    · exact follows_pure ⟨alive_idle, fun _ => rfl, fun _ _ => rfl⟩
    · omega
  · next hrest =>
    have hallow : t = .idle ∨ t = .closing ∨ t = .retryRead (length - received.length) :=
      h.imp_right fun hretry => .inr hretry.2
    have hopen : t ≠ .closing := by
      obtain rfl | ⟨-, rfl⟩ := h <;> nofun
    have hresume : t.resume = .idle := if_neg hopen
    refine follows_call hallow fun r => ?_
    cases r with
    | data bytes =>
      change tlsRules.follows t.resume _ _
      rw [hresume]
      exact follows_ite (follows_pure (.inl rfl)) follows_goesOn
    | zeroReturn =>
      change tlsRules.follows t.resume _ _
      rw [hresume]
      exact follows_pure ⟨alive_idle, fun _ => rfl, fun _ _ => rfl⟩
    | want write errno =>
      cases write with
      | false =>
        change tlsRules.follows t.resume _ _
        rw [hresume]
        exact follows_ite (follows_pure ⟨alive_idle, fun _ => rfl, nofun⟩)
          (follows_pure (.inl rfl))
      | true =>
        change tlsRules.follows (if t = .closing then .closing
          else .retryRead (length - received.length)) _ _
        rw [if_neg hopen]
        exact follows_ite (follows_pure ⟨⟨nofun, nofun, nofun⟩, nofun, nofun⟩)
          (follows_pure (.inr ⟨by omega, rfl⟩))
    | failed errno => exact follows_pure ⟨alive_broken, nofun, nofun⟩

theorem follows_recvAll {c : Connection} (h : Usable t c) (fuel length : ℕ) :
    tlsRules.follows t (recvAll fuel c length) Kept := by
  unfold recvAll
  refine follows_ite (follows_pure (h.kept_error _)) ?_
  split
  · exact follows_pure (h.kept_error _)
  · next hgood =>
    obtain rfl := h.idle (Bool.eq_false_iff.mpr hgood)
    rw [follows_bind]
    refine follows_mono ?_ (follows_iterate (I := Receiving length) (fun _ => follows_goesOn)
      (fun t' received hI => follows_recvRound hI) fuel (.inl rfl))
    rintro t' ⟨result, failed⟩ ⟨halive, hidle, hok⟩
    exact follows_pure (h.finish halive hidle hok)

theorem follows_sendMessage {c : Connection} (h : Usable t c) (fuel : ℕ) (message : Bytes) :
    tlsRules.follows t (sendMessage fuel c message) Kept := by
  unfold sendMessage
  refine follows_ite (follows_pure (h.kept_error _)) ?_
  refine follows_ite (follows_pure (h.kept_error _)) ?_
  rw [follows_bind]
  refine follows_mono ?_ (follows_sendAll h fuel _)
  rintro t' ⟨result, c'⟩ ⟨husable, -⟩
  cases result with
  | error e => exact follows_pure (husable.kept_error e)
  | ok _ => exact follows_sendAll husable fuel message

theorem follows_receiveMessage {c : Connection} (h : Usable t c) (fuel capacity : ℕ) :
    tlsRules.follows t (receiveMessage fuel c capacity) Kept := by
  unfold receiveMessage
  refine follows_ite (follows_pure (h.kept_error _)) ?_
  rw [follows_bind]
  refine follows_mono ?_ (follows_recvAll h fuel 4)
  rintro t' ⟨result, c'⟩ ⟨husable, hok⟩
  cases result with
  | error e => exact follows_pure (husable.kept_error e)
  | ok header =>
    refine follows_ite (follows_pure ⟨husable, fun _ _ => hok header rfl⟩) ?_
    refine follows_ite (follows_pure (husable.kept_error _)) ?_
    refine follows_ite (follows_pure (husable.kept_error _)) ?_
    rw [follows_bind]
    refine follows_mono ?_ (follows_recvAll husable fuel _)
    rintro t'' ⟨result, c''⟩ ⟨husable', hok'⟩
    cases result with
    | error e => exact follows_pure (husable'.kept_error e)
    | ok message =>
      exact follows_ite (follows_pure (husable'.kept_error _))
        (follows_pure ⟨husable', fun _ _ => hok' message rfl⟩)

def workerTls (w : Worker) : TlsState :=
  if w.writeWait ≠ .none then .retryWrite w.unsent
  else if w.readWait = .pollout then .retryRead (w.needed - w.received)
  else .idle

/-- Where the worker may end well before its next call. -/
def Quiet : Pc → Bool
  | .handle _ | .done (.ok ()) => true
  | _ => false

def Runs : Pc → Bool
  | .done _ => false
  | _ => true

structure WorkerFollows (t : TlsState) (w : Worker) : Prop where
  waits : w.Waits
  alive : t.Alive
  tls : Runs w.pc = true → t = workerTls w
  quiet : Quiet w.pc = true → t = .idle

variable {w w' : Worker}

theorem WorkerFollows.ended (hwaits : w'.Waits) {r : Except Errno Unit} (hpc : w'.pc = .done r) :
    WorkerFollows .idle w' where
  waits := hwaits
  alive := alive_idle
  tls hruns := by
    rw [hpc] at hruns
    cases hruns
  quiet _ := rfl

theorem WorkerFollows.error (hwaits : w'.Waits) (ht : t.Alive) {e : Errno}
    (hpc : w'.pc = .done (.error e)) : WorkerFollows t w' where
  waits := hwaits
  alive := ht
  tls hruns := by
    rw [hpc] at hruns
    cases hruns
  quiet hquiet := by
    rw [hpc] at hquiet
    cases hquiet

theorem follows_sessionRound {c : Connection} (h : Usable t c) (fuel : ℕ) :
    tlsRules.follows t (sessionRound fuel c) fun t' r => r.elim (Usable t') (Usable t') := by
  unfold sessionRound
  refine follows_call trivial fun event => ?_
  cases event with
  | none => exact follows_pure h
  | some event =>
    cases event with
    | send bytes =>
      dsimp only
      rw [follows_bind]
      exact follows_mono (fun _ r hkept => follows_pure hkept.1) (follows_sendAll h fuel bytes)
    | receive length =>
      dsimp only
      rw [follows_bind]
      exact follows_mono (fun _ r hkept => follows_pure hkept.1) (follows_recvAll h fuel length)

/-- Whatever the network and the peer do, and whatever the client sends and receives: from
`connect_to_server` to the end of `main` it keeps to the rules of TLS, and at the end the `SSL` and
the socket are released. -/
theorem clientMain_follows (fuel fd : ℕ) :
    tlsRules.follows .absent (clientMain fuel fd) fun t _ => t = .gone := by
  -- whatever has failed, `main` ends in `close_connection`
  have hclose : ∀ {t' : TlsState} {c : Connection}, Usable t' c →
      tlsRules.follows t' (closeConnection fuel c true >>= fun _ => pure ())
        fun t'' _ => t'' = .gone := fun husable =>
    follows_then (follows_close (husable.close true) fuel) fun _ => follows_pure rfl
  have hconnect : tlsRules.follows .absent (connectToServer fuel fd)
      fun t' r => match r.1 with
        | .error _ => t' = .gone
        | .ok () => Usable t' r.2 ∧ r.2.tlsIoFailed = false := by
    unfold connectToServer
    refine follows_call trivial fun r => ?_
    cases r with
    | error e => exact follows_call (.inl rfl) fun _ => follows_pure rfl
    | ok _ => exact follows_performTlsHandshake fuel true fd
  unfold clientMain
  rw [follows_bind]
  refine follows_mono ?_ hconnect
  rintro t ⟨handshake, c⟩ h
  cases handshake with
  | error e => exact follows_pure h
  | ok _ =>
    have hregister : tlsRules.follows t (getUsernameAndRegisterInServer fuel c) Kept := by
      unfold getUsernameAndRegisterInServer
      refine follows_call trivial fun line => ?_
      cases line with
      | none => exact follows_pure (h.1.kept_error _)
      | some line =>
        dsimp only
        split
        · exact follows_pure (h.1.kept_error _)
        · exact follows_sendMessage h.1 fuel _
    dsimp only
    rw [follows_bind]
    refine follows_mono ?_ hregister
    rintro t' ⟨registered, c'⟩ ⟨husable, -⟩
    cases registered with
    | error e => exact hclose husable
    | ok _ =>
      have hwelcome : tlsRules.follows t' (receiveWelcomeMessage fuel c')
          fun t'' r => Usable t'' r.2 := by
        unfold receiveWelcomeMessage
        rw [follows_bind]
        refine follows_mono ?_ (follows_receiveMessage husable fuel bufferSize)
        rintro t'' ⟨received, c''⟩ ⟨husable', -⟩
        rcases received with e | _ | message
        · exact follows_pure husable'
        · exact follows_pure husable'
        · exact follows_call trivial fun _ => follows_pure husable'
      dsimp only
      rw [follows_bind]
      refine follows_mono ?_ hwelcome
      rintro t'' ⟨welcomed, c''⟩ husable'
      cases welcomed with
      | error e => exact hclose husable'
      | ok _ =>
        dsimp only
        rw [follows_bind]
        exact follows_mono (fun _ _ hlast => hclose hlast)
          (follows_iterate (I := Usable) (fun _ => follows_goesOn)
            (fun _ _ hI => follows_sessionRound hI fuel) fuel husable')

end

end Network

end CipherChat
