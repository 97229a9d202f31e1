import CipherChat.Network
import CipherChat.Lib.Deadline

/-!
# The deadlines of `network.c`

"Both TLS roles use one absolute deadline, including all I/O retries", and the TLS shutdown is
bounded: what `perform_tls_handshake` and `close_connection` wait, over all their calls of `poll`,
stays below the timeout and a millisecond of the clock.  No other call of theirs waits.
-/

namespace CipherChat

open Resumption Prog Discipline

namespace Network

/-- `monotonic_milliseconds` reads a clock of nanoseconds. -/
def netClock : Clocked netSig where
  reading
    | .clockGettime => some fun
      | .ok now => some now
      | .error _ => none
    | _ => none
  timeout
    | .poll _ timeout => some timeout
    | _ => none
  urgent
    | .sslHandshake _ | .sslShutdown | .sslRead _ => True
    | _ => False
  tick := 1000000
  tick_pos := by decide

def nonblocking : Discipline netSig Bool where
  allow nonblock
    | .sslHandshake _ | .sslShutdown | .sslRead _ => nonblock = true
    | .sslWrite _ | .pollForever => False
    | _ => True
  next nonblock
    | .setFlags value, .ok () => value
    | _, _ => nonblock

def inTime (timeout : ℤ) : Discipline netSig (Clock × Bool) :=
  (netClock.within timeout).both nonblocking

section

variable {timeout deadline : ℤ} {t : Clock × Bool}

theorem inTime_goesOn {α : Type} {Q : Clock × Bool → α → Prop} :
    (inTime timeout).follows t goesOn Q := by
  rw [goesOn, follows_op]
  exact ⟨⟨⟨nofun, False.elim⟩, trivial⟩, fun r => nomatch r⟩

theorem inTime_remaining (hd : t.1.deadline = some deadline) :
    (inTime timeout).follows t (remainingMilliseconds deadline) fun t' r =>
      t'.1.deadline = some deadline ∧ t'.2 = t.2 ∧
        ∀ remaining, r = .ok remaining → t'.1.Allows remaining := by
  unfold remainingMilliseconds
  refine follows_call ⟨⟨nofun, False.elim⟩, trivial⟩ fun r => ?_
  cases r with
  | error e => exact follows_pure ⟨hd, rfl, nofun⟩
  | ok now =>
    have hread : t.1.read timeout now = ⟨some deadline, now, now < deadline⟩ := by
      rw [Clock.read, hd]
    change (inTime timeout).follows (t.1.read timeout now, t.2) _ _
    rw [hread]
    dsimp only
    split
    · exact follows_pure ⟨rfl, rfl, nofun⟩
    · next hnow =>
      refine follows_pure ⟨rfl, rfl, fun remaining hr => ?_⟩
      obtain rfl := Except.ok.inj hr
      have hmax : 0 < intMax := by decide
      have hend : now + min (deadline - now) intMax ≤ deadline := by omega
      exact ⟨by omega, by omega, deadline, rfl, hend⟩

theorem inTime_wait (hd : t.1.deadline = some deadline) (fuel : ℕ) (error : SslError) :
    (inTime timeout).follows t (waitForTls fuel error deadline) fun t' _ =>
      t'.1.deadline = some deadline ∧ t'.2 = t.2 := by
  unfold waitForTls
  refine follows_iterate (I := fun t' _ => t'.1.deadline = some deadline ∧ t'.2 = t.2)
    (fun _ => inTime_goesOn) ?_ fuel ⟨hd, rfl⟩
  rintro t' - ⟨hd', hblock⟩
  unfold waitRound
  rw [follows_bind]
  refine follows_mono ?_ (inTime_remaining hd')
  rintro t'' r ⟨hd'', hblock', hallow⟩
  have hkept : t''.1.deadline = some deadline ∧ t''.2 = t.2 := ⟨hd'', hblock'.trans hblock⟩
  cases r with
  | error e => exact follows_pure hkept
  | ok remaining =>
    have hpoll : ∀ τ, some remaining = some τ → t''.1.Allows τ := by
      rintro τ ⟨⟩
      exact hallow remaining rfl
    refine follows_call ⟨⟨hpoll, False.elim⟩, trivial⟩ fun r => ?_
    cases r with
    | none => exact follows_pure hkept
    | some r => cases r <;> exact follows_pure hkept

theorem inTime_release (c : Connection) :
    (inTime timeout).follows t (releaseConnection c) fun _ _ => True := by
  have hclose : ∀ {t' : Clock × Bool}, (inTime timeout).follows t'
      (if c.socketFd.isSome then call (S := netSig) .close >>= fun _ => pure ({} : Connection)
        else pure {}) fun _ _ => True := fun {t'} =>
    follows_ite (follows_call ⟨⟨nofun, False.elim⟩, trivial⟩ fun _ => follows_pure trivial)
      (follows_pure trivial)
  unfold releaseConnection
  exact follows_ite (follows_call ⟨⟨nofun, False.elim⟩, trivial⟩ fun _ => hclose) hclose

theorem inTime_shutdownRetry (hd : t.1.deadline = some deadline) (hblock : t.2 = true) (fuel : ℕ)
    (sentNotify : Bool) (error : SslError) :
    (inTime timeout).follows t (shutdownRetry fuel deadline sentNotify error) fun t' _ =>
      t'.1.deadline = some deadline ∧ t'.2 = true := by
  unfold shutdownRetry
  refine follows_ite (follows_pure ⟨hd, hblock⟩) ?_
  rw [follows_bind]
  refine follows_mono ?_ (inTime_wait hd fuel error)
  rintro t' r ⟨hd', hblock'⟩
  cases r <;> exact follows_pure ⟨hd', hblock'.trans hblock⟩

theorem inTime_shutdownRound (hd : t.1.deadline = some deadline) (hblock : t.2 = true) (fuel : ℕ)
    (sentNotify : Bool) :
    (inTime timeout).follows t (shutdownRound fuel deadline sentNotify) fun t' r =>
      r.elim (fun _ => t'.1.deadline = some deadline ∧ t'.2 = true) fun _ => True := by
  have hretry : ∀ {t' : Clock × Bool} (sent : Bool) (error : SslError),
      t'.1.deadline = some deadline → t'.2 = true →
      (inTime timeout).follows t' (shutdownRetry fuel deadline sent error) fun t'' r =>
        r.elim (fun _ => t''.1.deadline = some deadline ∧ t''.2 = true) fun _ => True := by
    intro t' sent error hd' hblock'
    refine follows_mono (fun t'' r h => ?_) (inTime_shutdownRetry hd' hblock' fuel sent error)
    cases r with
    | inl sent' => exact h
    | inr _ => trivial
  unfold shutdownRound
  rw [follows_bind]
  refine follows_mono ?_ (inTime_remaining hd)
  rintro t' r ⟨hd', hblock', hallow⟩
  have hkept : t'.1.deadline = some deadline ∧ t'.2 = true := ⟨hd', hblock'.trans hblock⟩
  cases r with
  | error e => exact follows_pure trivial
  | ok remaining =>
    have hurgent := (hallow remaining rfl).1
    dsimp only
    split
    · refine follows_call ⟨⟨nofun, fun _ => hurgent⟩, hkept.2⟩ fun r => ?_
      cases r with
      | done => exact follows_pure trivial
      | sent => exact follows_pure hkept
      | failed error => exact hretry _ _ hkept.1 hkept.2
    · refine follows_call ⟨⟨nofun, fun _ => hurgent⟩, hkept.2⟩ fun r => ?_
      cases r with
      | data bytes => exact follows_pure hkept
      | zeroReturn => exact hretry _ _ hkept.1 hkept.2
      | want write errno => exact hretry _ _ hkept.1 hkept.2
      | failed errno => exact hretry _ _ hkept.1 hkept.2

theorem inTime_shutdown (fuel : ℕ) :
    (inTime tlsShutdownTimeout).follows ({}, false) (shutdownTls fuel) fun _ _ => True := by
  unfold shutdownTls
  refine follows_call ⟨⟨nofun, False.elim⟩, trivial⟩ fun r => ?_
  cases r with
  | error e => exact follows_pure trivial
  | ok started =>
    refine follows_call ⟨⟨nofun, False.elim⟩, trivial⟩ fun r => ?_
    cases r with
    | error e => exact follows_pure trivial
    | ok _ =>
      refine follows_call ⟨⟨nofun, False.elim⟩, trivial⟩ fun r => ?_
      cases r with
      | error e => exact follows_pure trivial
      | ok _ =>
        exact follows_iterate
          (I := fun t' _ => t'.1.deadline = some (started + tlsShutdownTimeout) ∧ t'.2 = true)
          (fun _ => inTime_goesOn) (fun t' sent hI => inTime_shutdownRound hI.1 hI.2 fuel sent)
          fuel ⟨rfl, rfl⟩

theorem inTime_close (fuel : ℕ) (c : Connection) (graceful : Bool) :
    (inTime tlsShutdownTimeout).follows ({}, false) (closeConnection fuel c graceful)
      fun _ _ => True := by
  unfold closeConnection
  split
  · rw [follows_bind]
    exact follows_mono (fun _ _ _ => inTime_release c) (inTime_shutdown fuel)
  · exact inTime_release c

theorem inTime_drop (fuel : ℕ) (c : Connection) :
    (inTime timeout).follows t (closeConnection fuel c false) fun _ _ => True := by
  have hplain : closeConnection fuel c false = releaseConnection c :=
    if_neg fun hgraceful => nomatch hgraceful.2.2.1
  rw [hplain]
  exact inTime_release c

theorem inTime_handshakeRound (hd : t.1.deadline = some deadline) (hblock : t.2 = true) (fuel : ℕ)
    (isClient : Bool) :
    (inTime timeout).follows t (handshakeRound fuel isClient deadline ()) fun t' r =>
      r.elim (fun _ => t'.1.deadline = some deadline ∧ t'.2 = true) fun r =>
        r = .ok () → t'.1.fresh := by
  unfold handshakeRound
  rw [follows_bind]
  refine follows_mono ?_ (inTime_remaining hd)
  rintro t' r ⟨hd', hblock', hallow⟩
  have hkept : t'.1.deadline = some deadline ∧ t'.2 = true := ⟨hd', hblock'.trans hblock⟩
  cases r with
  | error e => exact follows_pure nofun
  | ok remaining =>
    refine follows_call ⟨⟨nofun, fun _ => (hallow remaining rfl).1⟩, hkept.2⟩ fun r => ?_
    cases r with
    | ok _ =>
      dsimp only
      rw [follows_bind]
      -- a handshake that is over after the deadline has failed
      refine follows_mono ?_ (inTime_remaining hkept.1)
      rintro t'' r ⟨-, -, hallow'⟩
      cases r with
      | error e => exact follows_pure nofun
      | ok remaining' => exact follows_pure fun _ => (hallow' remaining' rfl).1
    | error error =>
      dsimp only
      split
      · split <;> exact follows_pure nofun
      · rw [follows_bind]
        refine follows_mono ?_ (inTime_wait hkept.1 fuel error)
        rintro t'' r ⟨hd'', hblock''⟩
        cases r with
        | error e => exact follows_pure nofun
        | ok _ => exact follows_pure ⟨hd'', hblock''.trans hkept.2⟩

theorem inTime_handshakeWith (hd : t.1.deadline = some deadline) (fuel : ℕ) (isClient : Bool) :
    (inTime timeout).follows t (handshakeWith fuel isClient deadline) fun t' r =>
      r = .ok () → t'.1.fresh ∧ t'.2 = false := by
  unfold handshakeWith
  refine follows_call ⟨⟨nofun, False.elim⟩, trivial⟩ fun r => ?_
  cases r with
  | error e => exact follows_pure nofun
  | ok _ =>
    refine follows_call ⟨⟨nofun, False.elim⟩, trivial⟩ fun r => ?_
    cases r with
    | error e => exact follows_pure nofun
    | ok _ =>
      refine follows_call ⟨⟨nofun, False.elim⟩, trivial⟩ fun r => ?_
      cases r with
      | error e => exact follows_pure nofun
      | ok _ =>
        have hip : (inTime timeout).follows (t.1, true) (expectServerIp isClient)
            fun t' _ => t' = (t.1, true) :=
          follows_ite (follows_last ⟨⟨nofun, False.elim⟩, trivial⟩ fun _ => rfl) (follows_pure rfl)
        refine follows_then hip fun r => ?_
        cases r with
        | error e => exact follows_pure nofun
        | ok _ =>
          dsimp only
          rw [follows_bind]
          refine follows_mono ?_ (follows_iterate
            (I := fun t' _ => t'.1.deadline = some deadline ∧ t'.2 = true)
            (fun _ => inTime_goesOn)
            (fun t' _ hI => inTime_handshakeRound hI.1 hI.2 fuel isClient) fuel ⟨hd, rfl⟩)
          intro t' r hfresh
          cases r with
          | error e => exact follows_pure nofun
          | ok _ =>
            refine follows_call ⟨⟨nofun, False.elim⟩, trivial⟩ fun r => ?_
            cases r with
            | error e => exact follows_pure nofun
            | ok _ => exact follows_pure fun _ => ⟨hfresh rfl, rfl⟩

/-- `perform_tls_handshake` keeps its deadline.  A handshake that succeeds has seen the clock before
it once more at the end, and leaves a socket that blocks again. -/
theorem inTime_handshake (fuel : ℕ) (isClient : Bool) (c : Connection) :
    (inTime tlsHandshakeTimeout).follows ({}, false) (performTlsHandshake fuel isClient c)
      fun t r => r.1 = .ok () → t.1.fresh ∧ t.2 = false := by
  have hfail : ∀ {t : Clock × Bool} (e : Errno), (inTime tlsHandshakeTimeout).follows t
      (closeConnection fuel c false >>= fun c =>
        pure ((.error e, c) : Except Errno Unit × Connection))
      fun t r => r.1 = .ok () → t.1.fresh ∧ t.2 = false := by
    intro t e
    rw [follows_bind]
    exact follows_mono (fun _ _ _ => follows_pure nofun) (inTime_drop fuel c)
  unfold performTlsHandshake
  refine follows_call ⟨⟨nofun, False.elim⟩, trivial⟩ fun r => ?_
  cases r with
  | error e => exact hfail e
  | ok started =>
    refine follows_call ⟨⟨nofun, False.elim⟩, trivial⟩ fun _ => ?_
    refine follows_call ⟨⟨nofun, False.elim⟩, trivial⟩ fun ssl => ?_
    refine follows_call ⟨⟨nofun, False.elim⟩, trivial⟩ fun _ => ?_
    cases ssl with
    | error e => exact hfail _
    | ok _ =>
      dsimp only
      rw [follows_bind]
      refine follows_mono ?_ (inTime_handshakeWith (by rfl) fuel isClient)
      intro t r hdone
      cases r with
      | error e => exact follows_call ⟨⟨nofun, False.elim⟩, trivial⟩ fun _ => hfail _
      | ok _ => exact follows_pure fun _ => hdone rfl

/-- Over all its retries, a handshake waits less than its timeout and one millisecond.  Each call of
TLS is made on a socket that does not block, after a reading of the clock that was before the
deadline, with no wait since; and such a reading is the last of a handshake that succeeds, which
leaves a socket that blocks again. -/
theorem handshake_in_time (fuel : ℕ) (isClient : Bool) (c : Connection) {xs : List (Timed netSig)}
    {now : ℤ} (hxs : (performTlsHandshake fuel isClient c).Starts (xs.map Timed.step))
    (hclock : netClock.Timely now xs) :
    netClock.waited xs < (tlsHandshakeTimeout + 1) * 1000000 ∧
    (inTime tlsHandshakeTimeout).Accepts ({}, false) (xs.map Timed.step) ∧
    ∀ c', (performTlsHandshake fuel isClient c).Ends (xs.map Timed.step) (.ok (), c') →
      ((inTime tlsHandshakeTimeout).after ({}, false) (xs.map Timed.step)).1.fresh ∧
      ((inTime tlsHandshakeTimeout).after ({}, false) (xs.map Timed.step)).2 = false := by
  have hfollows := inTime_handshake fuel isClient c
  have hbudget : 0 ≤ tlsHandshakeTimeout := by decide
  exact ⟨Clocked.waited_lt hbudget (follows_fst hfollows) hxs hclock, follows_starts hxs hfollows,
    fun c' hend => follows_ends hend hfollows rfl⟩

def patientHandshake : List (Timed netSig) :=
  [⟨.clockGettime, .ok 7, 0⟩, ⟨.createContext false, (), 1200⟩, ⟨.sslNew, .ok (), 900⟩,
    ⟨.freeContext, (), 100⟩, ⟨.getFlags, .ok (), 50⟩, ⟨.setFlags true, .ok (), 50⟩,
    ⟨.sslSetFd, .ok (), 50⟩, ⟨.clockGettime, .ok 7, 30⟩,
    ⟨.sslHandshake false, .error .wantRead, 400⟩, ⟨.clockGettime, .ok 7, 30⟩,
    ⟨.poll .pollin 10000, some .ready, 3000000⟩, ⟨.clockGettime, .ok 10, 30⟩,
    ⟨.sslHandshake false, .ok (), 500⟩, ⟨.clockGettime, .ok 10, 30⟩,
    ⟨.setFlags false, .ok (), 50⟩]

theorem handshake_in_time_sample : netClock.Timely 7000000 patientHandshake ∧
    netClock.waited patientHandshake < (tlsHandshakeTimeout + 1) * 1000000 ∧
    ((inTime tlsHandshakeTimeout).after ({}, false) (patientHandshake.map Timed.step)).1.fresh ∧
    ((inTime tlsHandshakeTimeout).after ({}, false) (patientHandshake.map Timed.step)).2 =
      false := by
  have hstarts : (performTlsHandshake 2 false { socketFd := some 3 }).Starts
      (patientHandshake.map Timed.step) :=
    .cons (.cons (.cons (.cons (.cons (.cons (.cons (.cons (.cons (.cons (.cons (.cons (.cons (.cons
      (.cons .nil))))))))))))))
  have hends : (performTlsHandshake 2 false { socketFd := some 3 }).Ends
      (patientHandshake.map Timed.step) (.ok (), { socketFd := some 3, ssl := true }) :=
    .op (.op (.op (.op (.op (.op (.op (.op (.op (.op (.op (.op (.op (.op (.op .ret))))))))))))))
  have hclock : netClock.Timely 7000000 patientHandshake := by
    simp [patientHandshake, Clocked.Timely, netClock]
  obtain ⟨hwaited, -, hdone⟩ := handshake_in_time 2 false { socketFd := some 3 } hstarts hclock
  exact ⟨hclock, hwaited, hdone _ hends⟩

/-- Over all its retries, the end of a connection waits less than the timeout of the shutdown and
one millisecond.  Each `SSL_shutdown` and `SSL_read_ex` is made on a socket that does not block,
after a reading of the clock that was before the deadline, with no wait since. -/
theorem close_in_time (fuel : ℕ) (c : Connection) (graceful : Bool) {xs : List (Timed netSig)}
    {now : ℤ} (hxs : (closeConnection fuel c graceful).Starts (xs.map Timed.step))
    (hclock : netClock.Timely now xs) :
    netClock.waited xs < (tlsShutdownTimeout + 1) * 1000000 ∧
    (inTime tlsShutdownTimeout).Accepts ({}, false) (xs.map Timed.step) := by
  have hfollows := inTime_close fuel c graceful
  have hbudget : 0 ≤ tlsShutdownTimeout := by decide
  exact ⟨Clocked.waited_lt hbudget (follows_fst hfollows) hxs hclock, follows_starts hxs hfollows⟩

def patientShutdown : List (Timed netSig) :=
  [⟨.clockGettime, .ok 7, 0⟩, ⟨.getFlags, .ok (), 50⟩, ⟨.setFlags true, .ok (), 50⟩,
    ⟨.clockGettime, .ok 7, 30⟩, ⟨.sslShutdown, .sent, 300⟩, ⟨.clockGettime, .ok 7, 30⟩,
    ⟨.sslRead 4096, .want false (some .EAGAIN), 200⟩, ⟨.clockGettime, .ok 7, 30⟩,
    ⟨.poll .pollin 2000, some .ready, 1000000⟩, ⟨.clockGettime, .ok 8, 30⟩,
    ⟨.sslRead 4096, .zeroReturn, 200⟩, ⟨.sslFree, (), 700⟩, ⟨.close, (), 90⟩]

theorem close_in_time_sample : netClock.Timely 7000000 patientShutdown ∧
    netClock.waited patientShutdown < (tlsShutdownTimeout + 1) * 1000000 := by
  have hstarts : (closeConnection 3 { socketFd := some 3, ssl := true } true).Starts
      (patientShutdown.map Timed.step) :=
    .cons (.cons (.cons (.cons (.cons (.cons (.cons (.cons (.cons (.cons (.cons (.cons (.cons
      .nil))))))))))))
  have hclock : netClock.Timely 7000000 patientShutdown := by
    simp [patientShutdown, Clocked.Timely, netClock]
  exact ⟨hclock, (close_in_time 3 { socketFd := some 3, ssl := true } true hstarts hclock).1⟩

end

end Network

end CipherChat
