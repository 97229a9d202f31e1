import CipherChat.Conversation

/-!
# Messages on a connection

What `send_message` writes and `receive_message` reads, under any discipline that keeps count of
the bytes: pieces of one encoding, in order, and all of it if the call succeeds.
-/

namespace CipherChat

open Resumption Prog Discipline

namespace Network

def encodeMessage (message : Bytes) : Bytes := BigEndian.encode 4 message.length ++ message

variable {τ : Type} {D : Discipline netSig τ} {α : Type}

theorem follows_stop {t : τ} {Q : τ → α → Prop} (hstop : D.allow t .forever) :
    D.follows t goesOn Q := by
  rw [goesOn, follows_op]
  exact ⟨hstop, fun r => nomatch r⟩

def Plain : NetOp → Prop
  | .clockGettime | .getFlags | .setFlags _ | .poll _ _ | .sslFree | .close | .forever => True
  | _ => False

/-- What `perform_tls_handshake` calls. -/
def Handshaking : NetOp → Prop
  | .createContext _ | .freeContext | .sslNew | .sslSetFd | .sslSetIp | .sslHandshake _ => True
  | o => Plain o

/-- What `close_connection` calls. -/
def Closing : NetOp → Prop
  | .sslShutdown | .sslRead _ => True
  | o => Plain o

theorem plain_handshaking {o : NetOp} (h : Plain o) : Handshaking o := by
  unfold Handshaking
  split <;> trivial

theorem plain_closing {o : NetOp} (h : Plain o) : Closing o := by
  unfold Closing
  split <;> trivial

theorem performs_goesOn {P : NetOp → Prop} (h : P .forever) : (goesOn : NetProg α).Performs P :=
  ⟨h, fun r => nomatch r⟩

theorem performs_remaining (deadline : ℤ) : (remainingMilliseconds deadline).Performs Plain := by
  unfold remainingMilliseconds
  refine performs_call trivial fun r => ?_
  cases r with
  | error e => exact performs_pure
  | ok now => exact performs_ite performs_pure performs_pure

theorem performs_wait (fuel : ℕ) (error : SslError) (deadline : ℤ) :
    (waitForTls fuel error deadline).Performs Plain := by
  refine performs_iterate (performs_goesOn trivial) (fun _ => ?_) fuel ()
  unfold waitRound
  refine performs_bind (performs_remaining deadline) fun remaining => ?_
  cases remaining with
  | error e => exact performs_pure
  | ok remaining =>
    refine performs_call trivial fun r => ?_
    cases r with
    | none => exact performs_pure
    | some r => cases r <;> exact performs_pure

theorem performs_release (c : Connection) : (releaseConnection c).Performs Plain := by
  have hclose : (if c.socketFd.isSome then call (S := netSig) .close >>= fun _ =>
      pure ({} : Connection) else pure {}).Performs Plain :=
    performs_ite (performs_call trivial fun _ => performs_pure) performs_pure
  unfold releaseConnection
  exact performs_ite (performs_call trivial fun _ => hclose) hclose

theorem performs_shutdownRetry (fuel : ℕ) (deadline : ℤ) (sentNotify : Bool) (error : SslError) :
    (shutdownRetry fuel deadline sentNotify error).Performs Plain := by
  unfold shutdownRetry
  refine performs_ite performs_pure (performs_bind (performs_wait fuel error deadline) fun r => ?_)
  cases r <;> exact performs_pure

theorem performs_shutdown (fuel : ℕ) : (shutdownTls fuel).Performs Closing := by
  have hretry : ∀ deadline sentNotify error,
      (shutdownRetry fuel deadline sentNotify error).Performs Closing :=
    fun deadline sentNotify error =>
      (performs_shutdownRetry fuel deadline sentNotify error).mono fun _ => plain_closing
  unfold shutdownTls
  refine performs_call trivial fun r => ?_
  cases r with
  | error e => exact performs_pure
  | ok started =>
    refine performs_call trivial fun r => ?_
    cases r with
    | error e => exact performs_pure
    | ok _ =>
      refine performs_call trivial fun r => ?_
      cases r with
      | error e => exact performs_pure
      | ok _ =>
        refine performs_iterate (performs_goesOn trivial) (fun sentNotify => ?_) fuel false
        unfold shutdownRound
        refine performs_bind ((performs_remaining _).mono fun _ => plain_closing) fun r => ?_
        cases r with
        | error e => exact performs_pure
        | ok _ =>
          refine performs_ite (performs_call trivial fun r => ?_)
            (performs_call trivial fun r => ?_)
          · cases r with
            | done => exact performs_pure
            | sent => exact performs_pure
            | failed error => exact hretry _ _ _
          · cases r with
            | data bytes => exact performs_pure
            | zeroReturn => exact hretry _ _ _
            | want write errno => exact hretry _ _ _
            | failed errno => exact hretry _ _ _

theorem performs_closeConnection (fuel : ℕ) (c : Connection) (graceful : Bool) :
    (closeConnection fuel c graceful).Performs Closing := by
  have hrelease := (performs_release c).mono fun _ => plain_closing
  unfold closeConnection
  exact performs_ite (performs_bind (performs_shutdown fuel) fun _ => hrelease) hrelease

theorem performs_drop (fuel : ℕ) (c : Connection) :
    (closeConnection fuel c false).Performs Handshaking := by
  have hplain : closeConnection fuel c false = releaseConnection c :=
    if_neg fun hgraceful => nomatch hgraceful.2.2.1
  rw [hplain]
  exact (performs_release c).mono fun _ => plain_handshaking

theorem performs_handshakeWith (fuel : ℕ) (isClient : Bool) (deadline : ℤ) :
    (handshakeWith fuel isClient deadline).Performs Handshaking := by
  -- each call of the handshake is a call that may be made
  have hremaining : (remainingMilliseconds deadline).Performs Handshaking :=
    (performs_remaining deadline).mono fun _ => plain_handshaking
  have hround : (handshakeRound fuel isClient deadline ()).Performs Handshaking := by
    unfold handshakeRound
    refine performs_bind hremaining fun r => ?_
    cases r with
    | error e => exact performs_pure
    | ok _ =>
      refine performs_call trivial fun r => ?_
      cases r with
      | ok _ =>
        refine performs_bind hremaining fun r => ?_
        cases r <;> exact performs_pure
      | error error =>
        dsimp only
        split
        · split <;> exact performs_pure
        · refine performs_bind ((performs_wait fuel error deadline).mono fun _ =>
            plain_handshaking) fun r => ?_
          cases r <;> exact performs_pure
  unfold handshakeWith
  refine performs_call trivial fun r => ?_
  cases r with
  | error e => exact performs_pure
  | ok _ =>
    refine performs_call trivial fun r => ?_
    cases r with
    | error e => exact performs_pure
    | ok _ =>
      refine performs_call trivial fun r => ?_
      cases r with
      | error e => exact performs_pure
      | ok _ =>
        have hip : (expectServerIp isClient).Performs Handshaking :=
          performs_ite (performs_last trivial) performs_pure
        refine performs_bind hip fun r => ?_
        cases r with
        | error e => exact performs_pure
        | ok _ =>
          have hloop := performs_iterate (performs_goesOn trivial) (fun _ => hround) fuel ()
          refine performs_bind hloop fun r => ?_
          cases r with
          | error e => exact performs_pure
          | ok _ =>
            refine performs_call trivial fun r => ?_
            cases r <;> exact performs_pure

theorem performs_performTlsHandshake (fuel : ℕ) (isClient : Bool) (c : Connection) :
    (performTlsHandshake fuel isClient c).Performs Handshaking := by
  have hfail : ∀ e : Errno, (closeConnection fuel c false >>= fun c =>
      pure ((.error e, c) : Except Errno Unit × Connection)).Performs Handshaking := fun e =>
    performs_bind (performs_drop fuel c) fun _ => performs_pure
  unfold performTlsHandshake
  refine performs_call trivial fun r => ?_
  cases r with
  | error e => exact hfail e
  | ok started =>
    refine performs_call trivial fun _ => performs_call trivial fun ssl => performs_call trivial
      fun _ => ?_
    cases ssl with
    | error e => exact hfail _
    | ok _ =>
      refine performs_bind (performs_handshakeWith fuel isClient _) fun r => ?_
      cases r with
      | error e => exact performs_call trivial fun _ => hfail _
      | ok _ => exact performs_pure

/-- `st p` is the state in which `p` of `bytes` has been written. -/
structure Writes (D : Discipline netSig τ) (st : Bytes → τ) (bytes : Bytes) : Prop where
  allow : ∀ p rest, p ++ rest <+: bytes → D.allow (st p) (.sslWrite rest)
  written : ∀ p rest n, D.next (st p) (.sslWrite rest) (.written n) = st (p ++ rest.take n)
  failed : ∀ p rest e, D.next (st p) (.sslWrite rest) (.failed e) = st p
  wait : ∀ p, D.allow (st p) .pollForever ∧ ∀ r, D.next (st p) .pollForever r = st p
  stop : ∀ t, D.allow t .forever

section

variable {st : Bytes → τ} {whole bytes p : Bytes} (h : Writes D st whole)

include h

theorem Writes.sendWait (fuel totalSent : ℕ) :
    D.follows (st p) (sendWait fuel totalSent) fun t r =>
      t = st p ∧ r.elim (· = totalSent) fun r => r.1 ≠ .ok () := by
  have hpoll : D.follows (st p) (goesOn.iterate pollRound fuel ()) fun t _ => t = st p := by
    refine follows_iterate (I := fun t _ => t = st p) (fun t => follows_stop (h.stop t)) ?_ fuel rfl
    rintro t - rfl
    unfold pollRound
    refine follows_call (h.wait p).1 fun r => ?_
    rw [(h.wait p).2]
    cases r <;> exact follows_pure rfl
  unfold Network.sendWait
  refine follows_then hpoll fun r => ?_
  cases r with
  | ready => exact follows_pure ⟨rfl, rfl⟩
  | interrupted => exact follows_pure ⟨rfl, rfl⟩
  | failed e => exact follows_pure ⟨rfl, nofun⟩
  | invalid => exact follows_pure ⟨rfl, nofun⟩

/-- `send_all` writes its bytes in order. -/
theorem Writes.sendAll (hbytes : p ++ bytes <+: whole) (fuel : ℕ) (c : Connection) :
    D.follows (st p) (sendAll fuel c bytes) fun t r =>
      (∃ q, q <+: p ++ bytes ∧ t = st q) ∧ (r.1 = .ok () → t = st (p ++ bytes)) := by
  have hnothing : ∃ q, q <+: p ++ bytes ∧ st p = st q := ⟨p, List.prefix_append p bytes, rfl⟩
  have hround : ∀ t totalSent, totalSent ≤ bytes.length ∧ t = st (p ++ bytes.take totalSent) →
      D.follows t (sendRound fuel bytes totalSent) fun t' r =>
        r.elim (fun totalSent => totalSent ≤ bytes.length ∧ t' = st (p ++ bytes.take totalSent))
          fun r => (∃ q, q <+: p ++ bytes ∧ t' = st q) ∧ (r.1 = .ok () → t' = st (p ++ bytes)) := by
    rintro t totalSent ⟨hle, rfl⟩
    have hpart : ∃ q, q <+: p ++ bytes ∧ st (p ++ bytes.take totalSent) = st q :=
      ⟨_, (List.prefix_append_right_inj p).mpr (List.take_prefix _ _), rfl⟩
    unfold sendRound
    split
    · next hall =>
      rw [List.take_of_length_le hall] at hpart ⊢
      exact follows_pure ⟨hpart, fun _ => rfl⟩
    · have hrest : p ++ bytes.take totalSent ++ bytes.drop totalSent <+: whole := by
        rwa [List.append_assoc, List.take_append_drop]
      -- a failed write leaves the bytes written as they are
      have hwait : ∀ e, D.follows (D.next (st (p ++ bytes.take totalSent))
          (.sslWrite (bytes.drop totalSent)) (.failed e)) (Network.sendWait fuel totalSent)
          fun t' r =>
            r.elim (fun totalSent => totalSent ≤ bytes.length ∧ t' = st (p ++ bytes.take totalSent))
              fun r => (∃ q, q <+: p ++ bytes ∧ t' = st q) ∧
                (r.1 = .ok () → t' = st (p ++ bytes)) := by
        intro e
        rw [h.failed]
        refine follows_mono ?_ (h.sendWait fuel totalSent)
        rintro t' r ⟨rfl, hr⟩
        cases r with
        | inl again =>
          obtain rfl : again = totalSent := hr
          exact ⟨hle, rfl⟩
        | inr r => exact ⟨hpart, fun hok => absurd hok hr⟩
      refine follows_call (h.allow _ _ hrest) fun r => ?_
      cases r with
      | written n =>
        dsimp only
        split
        · rw [h.written, List.append_assoc, ← List.take_add]
          exact follows_pure ⟨by omega, rfl⟩
        · exact follows_stop (h.stop _)
      | failed e =>
        cases e with
        | wantRead => exact hwait _
        | wantWrite => exact hwait _
        | zeroReturn =>
          rw [h.failed]
          exact follows_pure ⟨hpart, nofun⟩
        | syscall errno =>
          rw [h.failed]
          cases errno <;> exact follows_pure ⟨hpart, nofun⟩
        | ssl =>
          rw [h.failed]
          exact follows_pure ⟨hpart, nofun⟩
  unfold Network.sendAll
  refine follows_ite (follows_pure ⟨hnothing, nofun⟩) ?_
  refine follows_ite (follows_pure ⟨hnothing, nofun⟩) ?_
  rw [follows_bind]
  have hstart : 0 ≤ bytes.length ∧ st p = st (p ++ bytes.take 0) := by
    rw [List.take_zero, List.append_nil]
    exact ⟨Nat.zero_le _, rfl⟩
  refine follows_mono ?_ (follows_iterate (fun t => follows_stop (h.stop t)) hround fuel hstart)
  rintro t ⟨result, failed⟩ hr
  exact follows_pure hr

end

/-- `send_message` writes a part of its encoding, and all of it if it succeeds. -/
theorem Writes.sendMessage {st : Bytes → τ} {message : Bytes}
    (h : Writes D st (encodeMessage message)) (fuel : ℕ) (c : Connection) :
    D.follows (st []) (sendMessage fuel c message) fun t r =>
      (∃ q, q <+: encodeMessage message ∧ t = st q) ∧
        (r.1 = .ok () → t = st (encodeMessage message)) := by
  have hnothing : ∃ q, q <+: encodeMessage message ∧ st [] = st q := ⟨[], List.nil_prefix, rfl⟩
  unfold Network.sendMessage
  refine follows_ite (follows_pure ⟨hnothing, nofun⟩) ?_
  refine follows_ite (follows_pure ⟨hnothing, nofun⟩) ?_
  rw [follows_bind]
  have hheader : [] ++ BigEndian.encode 4 message.length <+: encodeMessage message :=
    List.prefix_append _ _
  refine follows_mono ?_ (h.sendAll hheader fuel c)
  rintro t ⟨result, c'⟩ ⟨⟨q, hq, rfl⟩, hok⟩
  cases result with
  | error e => exact follows_pure ⟨⟨q, hq.trans hheader, rfl⟩, nofun⟩
  | ok _ =>
    rw [hok rfl]
    exact h.sendAll (List.prefix_refl _) fuel c'

/-- `st p` is the state in which `p` has been read. -/
structure Reads (D : Discipline netSig τ) (st : Bytes → τ) : Prop where
  allow : ∀ p n, D.allow (st p) (.sslRead n)
  data : ∀ p n bytes, D.next (st p) (.sslRead n) (.data bytes) = st (p ++ bytes)
  other : ∀ p n (r : TlsAnswer), (∀ bytes, r ≠ .data bytes) → D.next (st p) (.sslRead n) r = st p
  stop : ∀ t, D.allow t .forever

section

variable {st : Bytes → τ} (h : Reads D st)

include h

/-- `recv_all` returns what it reads. -/
theorem Reads.recvAll (p : Bytes) (fuel : ℕ) (c : Connection) (length : ℕ) :
    D.follows (st p) (recvAll fuel c length) fun t r =>
      ∃ bytes, t = st (p ++ bytes) ∧ ∀ received, r.1 = .ok received → received = bytes := by
  have hnothing : ∀ e : Errno, ∃ bytes, st p = st (p ++ bytes) ∧
      ∀ received, Except.error e = .ok received → received = bytes :=
    fun e => ⟨[], by rw [List.append_nil], nofun⟩
  have hround : ∀ t received, t = st (p ++ received) →
      D.follows t (recvRound length received) fun t' r =>
        r.elim (fun received => t' = st (p ++ received)) fun r => ∃ bytes, t' = st (p ++ bytes) ∧
          ∀ received, r.1 = .ok received → received = bytes := by
    rintro t received rfl
    have hall : ∃ bytes, st (p ++ received) = st (p ++ bytes) ∧
        ∀ received' : Bytes, (.ok received : Except Errno Bytes) = .ok received' →
          received' = bytes := ⟨received, rfl, fun _ hr => (Except.ok.inj hr).symm⟩
    unfold recvRound
    split
    · exact follows_pure hall
    · refine follows_call (h.allow _ _) fun r => ?_
      cases r with
      | data bytes =>
        dsimp only
        split
        · rw [h.data, List.append_assoc]
          exact follows_pure rfl
        · exact follows_stop (h.stop _)
      | zeroReturn =>
        rw [h.other _ _ .zeroReturn fun _ => nofun]
        exact follows_pure hall
      | want write errno =>
        rw [h.other _ _ (.want write errno) fun _ => nofun]
        exact follows_ite (follows_pure ⟨received, rfl, nofun⟩) (follows_pure rfl)
      | failed errno =>
        rw [h.other _ _ (.failed errno) fun _ => nofun]
        exact follows_pure ⟨received, rfl, nofun⟩
  unfold Network.recvAll
  refine follows_ite (follows_pure (hnothing _)) ?_
  refine follows_ite (follows_pure (hnothing _)) ?_
  rw [follows_bind]
  have hstart : st p = st (p ++ []) := by rw [List.append_nil]
  refine follows_mono ?_ (follows_iterate (fun t => follows_stop (h.stop t)) hround fuel hstart)
  rintro t ⟨result, failed⟩ hr
  exact follows_pure hr

/-- `receive_message` returns a message whose encoding it has read, and that fits. -/
theorem Reads.receiveMessage (fuel : ℕ) (c : Connection) (capacity : ℕ) :
    D.follows (st []) (receiveMessage fuel c capacity) fun t r =>
      ∃ bytes, t = st bytes ∧ ∀ message, r.1 = .ok (some message) →
        bytes = encodeMessage message ∧ message ≠ [] ∧ message.length ≤ messageMaxSize ∧
          message.length < capacity := by
  have hnothing : ∃ bytes, st [] = st bytes ∧ ∀ message : Bytes,
      (.error .EINVAL : Except Errno (Option Bytes)) = .ok (some message) →
        bytes = encodeMessage message ∧ message ≠ [] ∧ message.length ≤ messageMaxSize ∧
          message.length < capacity := ⟨[], rfl, nofun⟩
  unfold Network.receiveMessage
  refine follows_ite (follows_pure hnothing) ?_
  -- the header, and then as many bytes as it says
  rw [follows_bind]
  refine follows_mono ?_ (h.recvAll [] fuel c 4)
  rintro t ⟨result, c'⟩ ⟨header', rfl, hheader⟩
  cases result with
  | error e => exact follows_pure ⟨header', rfl, nofun⟩
  | ok header =>
    obtain rfl := hheader header rfl
    dsimp only
    split
    · exact follows_pure ⟨header, rfl, nofun⟩
    split
    · exact follows_pure ⟨header, rfl, nofun⟩
    next hlength =>
    split
    · exact follows_pure ⟨header, rfl, nofun⟩
    next hsize =>
    rw [not_or, not_or, not_lt, not_le] at hsize
    rw [List.nil_append, follows_bind]
    refine follows_mono ?_ (h.recvAll header fuel c' _)
    rintro t ⟨result, c''⟩ ⟨message', rfl, hmessage⟩
    cases result with
    | error e => exact follows_pure ⟨_, rfl, nofun⟩
    | ok message =>
      obtain rfl := hmessage message rfl
      dsimp only
      split
      · exact follows_pure ⟨_, rfl, nofun⟩
      next hwhole =>
      rw [not_not] at hwhole hlength
      refine follows_pure ⟨_, rfl, fun message' hsome => ?_⟩
      obtain rfl := Option.some.inj (Except.ok.inj hsome)
      have hencode : BigEndian.encode 4 (BigEndian.decode header) = header := by
        rw [← hlength]
        exact BigEndian.encode_decode header
      refine ⟨?_, fun hnil => ?_, by omega, by omega⟩
      · rw [encodeMessage, hwhole, hencode]
      · rw [hnil] at hwhole
        exact hsize.1 hwhole.symm

end

end Network

end CipherChat
