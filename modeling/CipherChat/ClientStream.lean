import CipherChat.ClientLoop

/-!
# The outgoing byte stream of the client

A frame leaves in up to three calls of `send_all`.  `Tx` follows them: between
frames, inside one with some bytes still to be handed over, or after a `send_all`
that returned -1.  Such a failure either marks the connection for good or is an
error that ends the event loop.
-/

namespace CipherChat

open Resumption Prog

inductive Tx
  | even
  | within (rest : Bytes)
  | torn (e : Errno)
  deriving DecidableEq

namespace Tx

def allow : Tx → ClientOp → Prop
  | .even, .note (.sendFrame _ _) => True
  | .even, .sendAll _ => False
  | .even, _ => True
  | .within rest, .sendAll bytes => bytes <+: rest
  | .within _, _ => False
  | .torn _, .note (.sendFrame _ _) => False
  | .torn _, .sendAll _ => False
  | .torn _, _ => True

def next : Tx → (o : ClientOp) → o.Resp → Tx
  | .even, .note (.sendFrame type payload), _ => .within (encodeFrame type payload)
  | .within rest, .sendAll bytes, .ok () =>
    if rest.length ≤ bytes.length then .even else .within (rest.drop bytes.length)
  | .within _, .sendAll _, .error e => .torn e
  | t, _, _ => t

end Tx

def tx : Discipline clientSig Tx where
  allow := Tx.allow
  next := Tx.next

/-- A sending function returned `r`: only an error can have torn a frame. -/
def Tx.Sent (t : Tx) (r : Except Errno Unit) : Prop := t = .even ∨ ∃ e, r = .error e ∧ t = .torn e

/-- A callback returned `s`: a torn frame with an error on the connection ends the loop. -/
def Tx.Over (t : Tx) (s : ClientState) : Prop :=
  t = .even ∨ ∃ e, t = .torn e ∧ (isConnectionError e = true → s.connected = false)

theorem Tx.Sent.ok {t : Tx} (h : t.Sent (.ok ())) : t = .even := by
  rcases h with h | ⟨e, he, -⟩
  · exact h
  · cases he

theorem Tx.Sent.afterSend {t : Tx} {r : Except Errno Unit} (h : t.Sent r) (s : ClientState) :
    t.Over (s.afterSend r) := by
  rcases h with h | ⟨e, rfl, ht⟩
  · exact .inl h
  · refine .inr ⟨e, ht, fun he => ?_⟩
    rw [ClientState.afterSend, if_pos he]

/-- What the monitor says once `send_all` has handed over all of its buffer. -/
theorem tx_next_ok (bytes rest : Bytes) :
    tx.next (.within (bytes ++ rest)) (.sendAll bytes) (.ok ()) =
      if rest = [] then .even else .within rest := by
  change (if (bytes ++ rest).length ≤ bytes.length then Tx.even
    else .within ((bytes ++ rest).drop bytes.length)) = _
  rw [List.length_append, List.drop_left]
  by_cases hrest : rest = []
  · rw [if_pos hrest, if_pos (by simp [hrest])]
  · have hpos := List.length_pos_iff.mpr hrest
    rw [if_neg hrest, if_neg (by omega)]

theorem tx_piece {α : Type} (bytes rest : Bytes) {k : Except Errno Unit → ClientProg α}
    {Q : Tx → α → Prop} (herror : ∀ e, tx.follows (.torn e) (k (.error e)) Q)
    (hok : tx.follows (if rest = [] then .even else .within rest) (k (.ok ())) Q) :
    tx.follows (.within (bytes ++ rest)) (call (S := clientSig) (.sendAll bytes) >>= k) Q := by
  refine Discipline.follows_call (List.prefix_append _ _) fun r => ?_
  cases r with
  | error e => exact herror e
  | ok u =>
    rw [← tx_next_ok] at hok
    exact hok

theorem tx_sendFrame {type : FrameType} {payload : Bytes} (h : payload.length ≤ frameMaxSize - 1) :
    tx.follows .even (sendFrame type payload) Tx.Sent := by
  refine Discipline.follows_call trivial fun _ => ?_
  rw [if_neg (by omega)]
  refine tx_piece _ _ (fun e => Discipline.follows_pure (.inr ⟨e, rfl, rfl⟩)) ?_
  rw [if_neg (List.cons_ne_nil _ _)]
  refine tx_piece [type.toByte] _ (fun e => Discipline.follows_pure (.inr ⟨e, rfl, rfl⟩)) ?_
  dsimp only
  by_cases hpayload : payload = []
  · rw [if_pos hpayload, if_neg (by simp [hpayload])]
    exact Discipline.follows_pure (.inl rfl)
  · rw [if_neg hpayload, if_pos (by simpa using hpayload)]
    refine Discipline.follows_last (List.prefix_refl _) fun r => ?_
    cases r with
    | error e => exact .inr ⟨e, rfl, rfl⟩
    | ok u => exact .inl (by simpa using tx_next_ok payload [])

section

variable {cfg : ClientConfig} {s : ClientState}

theorem tx_sendPrivateChat (recipient message nonce recipientPublicKey : Bytes)
    (hnonce : nonce.length = cryptoBoxNonceBytes) :
    tx.follows .even (sendPrivateChat cfg recipient message nonce recipientPublicKey) Tx.Sent := by
  have hkey := cfg.publicKey.property
  have c1 := cryptoBoxNonceBytes_eq
  have c2 := cryptoBoxPublicKeyBytes_eq
  have c3 := cryptoBoxMacBytes_eq
  have c4 := chatMaxMessageSize_eq
  have c5 := frameMaxSize_eq
  have c6 := usernameSize_eq
  unfold sendPrivateChat
  split
  · exact Discipline.follows_pure (.inl rfl)
  next hrecipient =>
  split
  · exact Discipline.follows_pure (.inl rfl)
  next hmessage =>
  refine Discipline.follows_call trivial fun address => ?_
  cases address with
  | none => exact Discipline.follows_pure (.inl rfl)
  | some a =>
    dsimp only
    split
    · exact Discipline.follows_pure (.inl rfl)
    · next ciphertext heasy =>
      have hbox := cfg.easy_length _ _ _ _ _ heasy
      refine tx_sendFrame ?_
      simp only [privateChatPayload, List.length_cons, List.length_append]
      omega

theorem tx_sendFileBegin (transferId : UInt32) (recipient filename : Bytes) (fileSize : ℕ) :
    tx.follows .even (sendFileBegin transferId recipient filename fileSize) Tx.Sent := by
  have c1 : fileBeginPayloadMaxSize = 302 := rfl
  have c2 := frameMaxSize_eq
  unfold sendFileBegin
  split
  · exact Discipline.follows_pure (.inl rfl)
  · next payload hencode =>
    have hlen := encodeBegin_length hencode
    exact tx_sendFrame (by omega)

theorem tx_sendFileChunk (transferId : UInt32) (chunk : Bytes) :
    tx.follows .even (sendFileChunk transferId chunk) Tx.Sent := by
  have c1 : fileChunkPayloadMaxSize = 904 := rfl
  have c2 := frameMaxSize_eq
  unfold sendFileChunk
  split
  · exact Discipline.follows_pure (.inl rfl)
  · next payload hencode =>
    have hlen := encodeChunk_length hencode
    exact tx_sendFrame (by omega)

theorem tx_sendFileChunks (transferId : UInt32) (chunks : List Bytes) :
    tx.follows .even (sendFileChunks transferId chunks) Tx.Sent := by
  have hmax := frameMaxSize_eq
  induction chunks with
  | nil =>
    rw [sendFileChunks, sendFileControl, if_neg (by simp), encodeControl_eq]
    exact tx_sendFrame (by rw [writeU32_length]; omega)
  | cons chunk rest ih =>
    rw [sendFileChunks, Discipline.follows_bind]
    refine Discipline.follows_mono ?_ (tx_sendFileChunk transferId chunk)
    intro t r ht
    cases r with
    | error e => exact Discipline.follows_pure ht
    | ok u =>
      rw [ht.ok]
      exact ih

theorem tx_sendFileOn (next : UInt32) (recipient path recipientPublicKey : Bytes) :
    tx.follows .even (sendFileOn cfg next recipient path recipientPublicKey)
      fun t r => t.Sent r.1 := by
  refine Discipline.follows_call trivial fun env => ?_
  dsimp only
  split
  · exact Discipline.follows_pure (.inl rfl)
  · next filename encrypted encryptedLength hseal =>
    rw [Discipline.follows_bind]
    refine Discipline.follows_mono ?_ (tx_sendFileBegin _ recipient filename encryptedLength)
    intro t r ht
    cases r with
    | error e => exact Discipline.follows_pure ht
    | ok u =>
      rw [ht.ok]
      dsimp only
      rw [Discipline.follows_bind]
      refine Discipline.follows_mono ?_ (tx_sendFileChunks _ _)
      intro t r ht
      exact Discipline.follows_pure ht

theorem tx_handlePeerPk (frame : Bytes) :
    tx.follows .even (handlePeerPk cfg s frame) Tx.Over := by
  unfold handlePeerPk
  split
  · exact Discipline.follows_pure (.inl rfl)
  split
  · exact Discipline.follows_pure (.inl rfl)
  dsimp only
  split
  · exact Discipline.follows_call trivial fun _ => Discipline.follows_pure (.inl rfl)
  refine Discipline.follows_call trivial fun _ => ?_
  unfold sendPackage
  split
  · rw [Discipline.follows_bind]
    refine Discipline.follows_mono ?_ (tx_sendFileOn _ _ _ _)
    intro t r ht
    exact Discipline.follows_pure (ht.afterSend _)
  · refine Discipline.follows_call trivial fun nonce => ?_
    rw [Discipline.follows_bind]
    refine Discipline.follows_mono ?_ (tx_sendPrivateChat _ _ _ _ nonce.property)
    intro t r ht
    exact Discipline.follows_pure (ht.afterSend _)

theorem tx_handleServerFrame (frame : Bytes) :
    tx.follows .even (handleServerFrame cfg s frame) Tx.Over := by
  unfold handleServerFrame
  split
  · exact Discipline.follows_call trivial fun _ => Discipline.follows_pure (.inl rfl)
  · exact tx_handlePeerPk frame
  · split
    · exact Discipline.follows_pure (.inl rfl)
    · exact Discipline.follows_call trivial fun _ => Discipline.follows_pure (.inl rfl)
  · exact Discipline.follows_call trivial fun _ => Discipline.follows_pure (.inl rfl)

theorem tx_requestKey (type : PendingPackageType) {username : Bytes} (data : Bytes)
    (h : username.length < usernameSize) :
    tx.follows .even (requestKey s type username data) fun t r => t.Sent r.1 := by
  have c1 := frameMaxSize_eq
  have c2 := usernameSize_eq
  unfold requestKey
  split
  · exact Discipline.follows_pure (.inl rfl)
  refine Discipline.follows_call trivial fun address => ?_
  dsimp only
  split
  · exact Discipline.follows_pure (.inl rfl)
  refine Discipline.follows_call trivial fun copied => ?_
  split
  · rw [Discipline.follows_bind]
    refine Discipline.follows_mono ?_ (tx_sendFrame (by omega))
    intro t r ht
    cases r with
    | error e => exact Discipline.follows_pure ht
    | ok u =>
      rw [ht.ok]
      exact Discipline.follows_call trivial fun _ => Discipline.follows_pure (.inl rfl)
  · exact Discipline.follows_pure (.inl rfl)

theorem tx_handlePrivateMessage (line : Bytes) :
    tx.follows .even (handlePrivateMessage s line) fun t r => t.Sent r.1 := by
  unfold handlePrivateMessage
  split
  · next username message hparse =>
    split
    · exact Discipline.follows_pure (.inl rfl)
    · exact tx_requestKey _ _ (parseCommand_privateMessage hparse).2.2.2.2.2
  · exact Discipline.follows_pure (.inl rfl)

theorem tx_handleFileCommand (line : Bytes) :
    tx.follows .even (handleFileCommand s line) fun t r => t.Sent r.1 := by
  unfold handleFileCommand
  split
  · next username filepath hparse =>
    split
    · exact Discipline.follows_pure (.inl rfl)
    · exact tx_requestKey _ _ (parseCommand_fileTransfer hparse).2.2.2.2.2
  · exact Discipline.follows_pure (.inl rfl)

theorem tx_handleInput (line : Bytes) : tx.follows .even (handleInput s line) Tx.Over := by
  unfold handleInput
  split
  · exact Discipline.follows_pure (.inl rfl)
  split
  · rw [Discipline.follows_bind]
    refine Discipline.follows_mono ?_ (tx_handleFileCommand line)
    intro t r ht
    exact Discipline.follows_pure (ht.afterSend _)
  split
  · rw [Discipline.follows_bind]
    refine Discipline.follows_mono ?_ (tx_handlePrivateMessage line)
    intro t r ht
    exact Discipline.follows_pure (ht.afterSend _)
  split
  · exact Discipline.follows_pure (.inl rfl)
  next hline =>
  rw [Discipline.follows_bind]
  refine Discipline.follows_mono ?_ (tx_sendFrame (not_lt.mp hline))
  intro t r ht
  dsimp only
  refine Discipline.follows_pure ?_
  split
  · next hquit =>
    rw [hquit.1] at ht
    exact .inl ht.ok
  · exact ht.afterSend s

theorem tx_registerKey : tx.follows .even (registerKey cfg s) Tx.Over := by
  have hkey := cfg.publicKey.property
  have c1 := cryptoBoxPublicKeyBytes_eq
  have c2 := frameMaxSize_eq
  unfold registerKey
  rw [Discipline.follows_bind]
  refine Discipline.follows_mono ?_ (tx_sendFrame (by omega))
  intro t r ht
  cases r with
  | error e =>
    refine Discipline.follows_pure ?_
    rcases ht with ht | ⟨e', -, ht⟩
    · exact .inl ht
    · exact .inr ⟨e', ht, fun _ => rfl⟩
  | ok u =>
    rw [ht.ok]
    refine Discipline.follows_call trivial fun env => ?_
    split
    · exact Discipline.follows_pure (.inl rfl)
    · exact Discipline.follows_pure (.inl rfl)

end

/-- The frames of the `send_frame` calls so far. -/
def calledFrames (log : List ClientEvent) : List (FrameType × Bytes) :=
  log.filterMap fun e =>
    match e with
    | .note (.sendFrame type payload) => some (type, payload)
    | _ => none

/-- Their encodings, one after the other. -/
def calledBytes (log : List ClientEvent) : Bytes :=
  ((calledFrames log).map fun f => encodeFrame f.1 f.2).flatten

/-- The bytes that `SSL_write_ex` has accepted. -/
def acceptedBytes (log : List ClientEvent) : Bytes :=
  (log.filterMap fun e =>
    match e with
    | .accepted bytes => some bytes
    | _ => none).flatten

theorem calledBytes_append (log log' : List ClientEvent) :
    calledBytes (log ++ log') = calledBytes log ++ calledBytes log' := by
  simp [calledBytes, calledFrames]

theorem acceptedBytes_append (log log' : List ClientEvent) :
    acceptedBytes (log ++ log') = acceptedBytes log ++ acceptedBytes log' := by
  simp [acceptedBytes]

/-- Nothing is accepted after a `send_all` that failed. -/
def Silent (log : List ClientEvent) : Prop :=
  ∀ before e after, log = before ++ .failed e :: after → acceptedBytes after = []

theorem Silent.append {log log' : List ClientEvent} (h : Silent log)
    (hlog : acceptedBytes log' = []) : Silent (log ++ log') := by
  intro before e after heq
  rcases List.append_eq_append_iff.mp heq with ⟨mid, -, rfl⟩ | ⟨mid, rfl, hmid⟩
  · rw [acceptedBytes_append] at hlog
    exact (List.append_eq_nil_iff.mp hlog).2
  · cases mid with
    | nil =>
      rw [List.nil_append] at hmid
      rw [← hmid] at hlog
      exact hlog
    | cons x mid =>
      rw [List.cons_append] at hmid
      obtain ⟨rfl, rfl⟩ := List.cons.inj hmid
      rw [acceptedBytes_append, h before e mid rfl, hlog, List.append_nil]

/-- How much of its buffer the current `send_all` has handed over. -/
def SendPc.totalSent : SendPc → ℕ
  | .entry => 0
  | .writing n => n
  | .polling n => n

namespace ClientProcess

variable {cfg : ClientConfig} {store : FileStore Bytes UInt8} {c c' : ClientProcess}

/-- The callback `p` stands at `t`, and everything called before has been accepted. -/
def Level (c : ClientProcess) (p : ClientProg ClientState) : Tx → Prop
  | .even => c.sending = .entry ∧ acceptedBytes c.log = calledBytes c.log
  | .within rest => acceptedBytes c.log ++ rest.drop c.sending.totalSent = calledBytes c.log ∧
      ∀ bytes k, p = .op (.sendAll bytes) k → c.sending.totalSent ≤ bytes.length
  | .torn _ => False

/-- No `send_all` has failed. -/
structure Whole (c : ClientProcess) : Prop where
  healthy : c.tlsIoFailed = false
  clean : ∀ e, .failed e ∉ c.log
  idle : c.callback = none → c.sending = .entry ∧ acceptedBytes c.log = calledBytes c.log
  busy : ∀ p, c.callback = some p → ∃ t, tx.follows t p Tx.Over ∧ c.Level p t

/-- One has, and no later one can hand over a byte. -/
structure Ended (c : ClientProcess) : Prop where
  part : acceptedBytes c.log <+: calledBytes c.log
  silent : Silent c.log
  closed : (c.tlsIoFailed = true ∧ c.sending = .entry) ∨
    (∃ p e, c.callback = some p ∧ tx.follows (.torn e) p Tx.Over ∧ isConnectionError e = true) ∨
    (c.callback = none ∧ c.state.connected = false)

theorem Whole.silent (h : c.Whole) : Silent c.log := by
  intro before e after heq
  exact absurd (by rw [heq]; simp) (h.clean e)

theorem Whole.part (h : c.Whole) : acceptedBytes c.log <+: calledBytes c.log := by
  cases hc : c.callback with
  | none => exact ⟨[], (List.append_nil _).trans (h.idle hc).2⟩
  | some p =>
    obtain ⟨t, -, hlevel⟩ := h.busy p hc
    cases t with
    | even => exact ⟨[], (List.append_nil _).trans hlevel.2⟩
    | within rest =>
      rw [← hlevel.1]
      exact List.prefix_append _ _
    | torn e => exact hlevel.elim

theorem dispatch_cases {l : ClientLabel} (h : c.dispatch cfg l = some c') :
    (∃ state, state.connected = false ∧ c' = { c with state }) ∨
      ∃ p e, tx.follows .even p Tx.Over ∧ acceptedBytes [e] = [] ∧ calledBytes [e] = [] ∧
        (∀ errno, e ≠ .failed errno) ∧
        c' = { c with callback := some p, log := c.log ++ [e] } := by
  cases l with
  | typed line =>
    cases line with
    | none => exact .inl ⟨_, rfl, (Option.some.inj h).symm⟩
    | some line =>
      simp only [dispatch] at h
      split at h
      · cases h
      · exact .inr ⟨_, .typed line, tx_handleInput line, rfl, rfl, (by simp),
          (Option.some.inj h).symm⟩
  | received result =>
    cases result with
    | error e => exact .inl ⟨_, rfl, (Option.some.inj h).symm⟩
    | ok frame =>
      cases frame with
      | none => exact .inl ⟨_, rfl, (Option.some.inj h).symm⟩
      | some frame =>
        simp only [dispatch] at h
        split at h
        · exact .inr ⟨_, .received frame, tx_handleServerFrame frame, rfl, rfl, (by simp),
            (Option.some.inj h).symm⟩
        · cases h
  | pollFailed => exact .inl ⟨_, rfl, (Option.some.inj h).symm⟩
  | go env => cases h

/-- A step of a callback: it returns, `send_all` goes round, `send_all` returns, or one
other operation is answered. -/
theorem move_cases {env : ClientEnv} {p : ClientProg ClientState} (h : c.move env p = some c') :
    (∃ s, p = .ret s ∧ c' = { c with state := s, callback := none }) ∨
    (∃ bytes k pc accepted, p = .op (.sendAll bytes) k ∧
      sendAllStep c.tlsIoFailed bytes env c.sending = some (.loop pc accepted) ∧
      c' = { c with sending := pc, log := c.log ++ [.accepted accepted] }) ∨
    (∃ bytes k tlsIoFailed, p = .op (.sendAll bytes) k ∧
      sendAllStep c.tlsIoFailed bytes env c.sending = some (.returned (.ok ()) tlsIoFailed) ∧
      c' = { c with tlsIoFailed, sending := .entry, callback := some (k (.ok ())) }) ∨
    (∃ bytes k e tlsIoFailed, p = .op (.sendAll bytes) k ∧
      sendAllStep c.tlsIoFailed bytes env c.sending = some (.returned (.error e) tlsIoFailed) ∧
      c' = { c with tlsIoFailed, sending := .entry, callback := some (k (.error e)),
                    log := c.log ++ [.failed e] }) ∨
    ∃ o k r, p = .op o k ∧ (∀ bytes, o ≠ .sendAll bytes) ∧
      c' = { c with callback := some (k r), log := c.log ++ event o } := by
  cases p with
  | ret s => exact .inl ⟨s, rfl, (Option.some.inj h).symm⟩
  | op o k =>
    by_cases hsend : ∃ bytes, o = .sendAll bytes
    · obtain ⟨bytes, rfl⟩ := hsend
      simp only [move] at h
      split at h
      · next pc accepted hstep =>
        exact .inr (.inl ⟨bytes, k, pc, accepted, rfl, hstep, (Option.some.inj h).symm⟩)
      · next failed hstep =>
        exact .inr (.inr (.inl ⟨bytes, k, failed, rfl, hstep, (Option.some.inj h).symm⟩))
      · next e failed hstep =>
        exact .inr (.inr (.inr (.inl ⟨bytes, k, e, failed, rfl, hstep, (Option.some.inj h).symm⟩)))
      · cases h
    · have hother : ∀ bytes, o ≠ .sendAll bytes := fun bytes ho => hsend ⟨bytes, ho⟩
      refine .inr (.inr (.inr (.inr ?_)))
      cases o with
      | sendAll bytes => exact absurd rfl (hother bytes)
      | _ => exact ⟨_, k, _, rfl, hother, (Option.some.inj h).symm⟩

theorem sendAllStep_loop {failed : Bool} {bytes accepted : Bytes} {env : ClientEnv}
    {pc pc' : SendPc}
    (h : sendAllStep failed bytes env pc = some (.loop pc' accepted)) :
    ∃ n, accepted = (bytes.drop pc.totalSent).take n ∧ pc'.totalSent = pc.totalSent + n ∧
      (pc.totalSent ≤ bytes.length → pc'.totalSent ≤ bytes.length) := by
  cases pc with
  | entry =>
    simp only [sendAllStep] at h
    split at h
    · cases h
    · obtain ⟨rfl, rfl⟩ := SendStep.loop.inj (Option.some.inj h)
      exact ⟨0, rfl, rfl, fun _ => Nat.zero_le _⟩
  | writing n =>
    simp only [sendAllStep] at h
    split at h
    · cases h
    split at h
    · next m _ =>
      split at h
      · next hm =>
        obtain ⟨rfl, rfl⟩ := SendStep.loop.inj (Option.some.inj h)
        refine ⟨m, rfl, rfl, fun hn => ?_⟩
        change n ≤ bytes.length at hn
        change n + m ≤ bytes.length
        omega
      · cases h
    · obtain ⟨rfl, rfl⟩ := SendStep.loop.inj (Option.some.inj h)
      exact ⟨0, rfl, rfl, fun hn => hn⟩
    · obtain ⟨rfl, rfl⟩ := SendStep.loop.inj (Option.some.inj h)
      exact ⟨0, rfl, rfl, fun hn => hn⟩
    all_goals cases h
  | polling n =>
    simp only [sendAllStep] at h
    split at h
    · obtain ⟨rfl, rfl⟩ := SendStep.loop.inj (Option.some.inj h)
      exact ⟨0, rfl, rfl, fun hn => hn⟩
    · obtain ⟨rfl, rfl⟩ := SendStep.loop.inj (Option.some.inj h)
      exact ⟨0, rfl, rfl, fun hn => hn⟩
    all_goals cases h

theorem sendAllStep_ok {failed failed' : Bool} {bytes : Bytes} {env : ClientEnv} {pc : SendPc}
    (h : sendAllStep failed bytes env pc = some (.returned (.ok ()) failed')) :
    failed' = failed ∧ bytes.length ≤ pc.totalSent := by
  cases pc with
  | entry =>
    simp only [sendAllStep] at h
    split at h
    · cases h
    · cases h
  | writing n =>
    simp only [sendAllStep] at h
    split at h
    · next hn =>
      cases h
      exact ⟨rfl, hn⟩
    · split at h
      · split at h
        · cases h
        · cases h
      all_goals cases h
  | polling n =>
    simp only [sendAllStep] at h
    split at h
    all_goals cases h

theorem sendAllStep_error {failed failed' : Bool} {bytes : Bytes} {env : ClientEnv} {pc : SendPc}
    {e : Errno} (h : sendAllStep failed bytes env pc = some (.returned (.error e) failed')) :
    failed' = true ∨ isConnectionError e = true := by
  cases pc with
  | entry =>
    simp only [sendAllStep] at h
    split at h
    · cases h
      exact .inr rfl
    · cases h
  | writing n =>
    simp only [sendAllStep] at h
    split at h
    · cases h
    · split at h
      · split at h
        · cases h
        · cases h
      · cases h
      · cases h
      · cases h
        exact .inr rfl
      · cases h
        exact .inl rfl
      · cases h
        exact .inl rfl
      · cases h
        exact .inl rfl
  | polling n =>
    simp only [sendAllStep] at h
    split at h
    · cases h
    · cases h
    · cases h
      exact .inl rfl
    · cases h
      exact .inl rfl

theorem cut_append {bytes rest : Bytes} {m n : ℕ} (h : m + n ≤ bytes.length) :
    (bytes.drop m).take n ++ (bytes ++ rest).drop (m + n) = (bytes ++ rest).drop m := by
  rw [List.drop_append_of_le_length h, List.drop_append_of_le_length (by omega),
    ← List.append_assoc, ← List.drop_drop, List.take_append_drop]

/-- An operation that is not `send_all` accepts nothing and marks no failure. -/
theorem event_quiet (o : ClientOp) : acceptedBytes (event o) = [] ∧ ∀ e, .failed e ∉ event o := by
  cases o <;> simp [event, acceptedBytes]

/-- A `send_all` stands inside a frame that starts with its buffer. -/
theorem Level.sendAll {t : Tx} {bytes : Bytes} {k : Except Errno Unit → ClientProg ClientState}
    (hfollows : tx.follows t (.op (.sendAll bytes) k) Tx.Over)
    (hlevel : c.Level (.op (.sendAll bytes) k) t) :
    ∃ rest, t = .within (bytes ++ rest) ∧
      (∀ r, tx.follows (tx.next t (.sendAll bytes) r) (k r) Tx.Over) ∧
      acceptedBytes c.log ++ (bytes ++ rest).drop c.sending.totalSent = calledBytes c.log ∧
      c.sending.totalSent ≤ bytes.length := by
  rw [Discipline.follows_op] at hfollows
  obtain ⟨hallow, hnext⟩ := hfollows
  cases t with
  | even => exact (hallow : False).elim
  | torn e => exact (hlevel : False).elim
  | within rest =>
    obtain ⟨rest, rfl⟩ : bytes <+: rest := hallow
    exact ⟨rest, rfl, hnext, hlevel.1, hlevel.2 bytes k rfl⟩

theorem Level.other {t : Tx} {o : ClientOp} {k : o.Resp → ClientProg ClientState}
    (hfollows : tx.follows t (.op o k) Tx.Over) (hlevel : c.Level (.op o k) t)
    (hother : ∀ bytes, o ≠ .sendAll bytes) (r : o.Resp) :
    ∃ t', tx.follows t' (k r) Tx.Over ∧
      Level { c with callback := some (k r), log := c.log ++ event o } (k r) t' := by
  rw [Discipline.follows_op] at hfollows
  obtain ⟨hallow, hnext⟩ := hfollows
  refine ⟨_, hnext r, ?_⟩
  cases t with
  | torn e => exact (hlevel : False).elim
  | within rest =>
    cases o with
    | sendAll bytes => exact absurd rfl (hother bytes)
    | _ => exact (hallow : False).elim
  | even =>
    obtain ⟨hentry, hequal⟩ := hlevel
    -- a call of `send_frame` puts a whole frame into what is owed to the stream
    by_cases hframe : ∃ type payload, o = .note (.sendFrame type payload)
    · obtain ⟨type, payload, rfl⟩ := hframe
      refine ⟨?_, ?_⟩
      · change acceptedBytes (c.log ++ _) ++ (encodeFrame type payload).drop c.sending.totalSent =
          calledBytes (c.log ++ _)
        rw [acceptedBytes_append, calledBytes_append, hequal, hentry]
        simp [event, acceptedBytes, calledBytes, calledFrames, SendPc.totalSent]
      · intro bytes k' _
        change c.sending.totalSent ≤ bytes.length
        rw [hentry]
        exact Nat.zero_le _
    · have hcalled : calledBytes (event o) = [] := by
        cases o with
        | note n =>
          cases n with
          | sendFrame type payload => exact absurd ⟨type, payload, rfl⟩ hframe
          | _ => rfl
        | _ => rfl
      have heven : tx.next .even o r = .even := by
        cases o with
        | note n =>
          cases n with
          | sendFrame type payload => exact absurd ⟨type, payload, rfl⟩ hframe
          | _ => rfl
        | _ => rfl
      rw [heven]
      refine ⟨hentry, ?_⟩
      change acceptedBytes (c.log ++ _) = calledBytes (c.log ++ _)
      rw [acceptedBytes_append, calledBytes_append, (event_quiet o).1, hcalled, hequal]

/-- The stream stays whole until a `send_all` fails. -/
theorem Whole.move (h : c.Whole) {env : ClientEnv} {p : ClientProg ClientState}
    (hp : c.callback = some p) (hmove : c.move env p = some c') :
    c'.Whole ∨ c'.Ended ∧ ∃ e, .failed e ∈ c'.log := by
  obtain ⟨t, hfollows, hlevel⟩ := h.busy p hp
  rcases move_cases hmove with ⟨s, rfl, rfl⟩ | ⟨bytes, k, pc, accepted, rfl, hsend, rfl⟩ |
    ⟨bytes, k, failed, rfl, hsend, rfl⟩ | ⟨bytes, k, e, failed, rfl, hsend, rfl⟩ |
    ⟨o, k, r, rfl, hother, rfl⟩
  · -- the callback returns
    rw [Discipline.follows_ret] at hfollows
    rcases hfollows with rfl | ⟨e, rfl, -⟩
    · exact .inl ⟨h.healthy, h.clean, fun _ => hlevel, fun p hp => by cases hp⟩
    · exact hlevel.elim
  · -- `send_all` goes round
    obtain ⟨rest, rfl, -, hequal, hle⟩ := hlevel.sendAll hfollows
    obtain ⟨n, rfl, htotal, hbound⟩ := sendAllStep_loop hsend
    have hbound := hbound hle
    refine .inl ⟨h.healthy, by simpa using h.clean, fun hc => ?_, fun p hc => ?_⟩
    · rw [hp] at hc
      cases hc
    · obtain rfl := Option.some.inj (hp.symm.trans hc)
      refine ⟨_, hfollows, ?_, ?_⟩
      · change acceptedBytes (c.log ++ _) ++ (bytes ++ rest).drop pc.totalSent =
          calledBytes (c.log ++ _)
        have hpiece : acceptedBytes [.accepted ((bytes.drop c.sending.totalSent).take n)] =
            (bytes.drop c.sending.totalSent).take n := List.append_nil _
        have hnone : calledBytes
            [.accepted ((bytes.drop c.sending.totalSent).take n)] = [] := rfl
        rw [acceptedBytes_append, calledBytes_append, ← hequal, hpiece, hnone, List.append_nil,
          htotal,
          List.append_assoc, cut_append (htotal ▸ hbound)]
      · intro bytes' k' hop
        cases hop
        exact hbound
  · -- `send_all` has handed over its buffer
    obtain ⟨rest, rfl, hnext, hequal, hle⟩ := hlevel.sendAll hfollows
    obtain ⟨rfl, hdone⟩ := sendAllStep_ok hsend
    rw [le_antisymm hle hdone, List.drop_left] at hequal
    refine .inl ⟨h.healthy, h.clean, fun hc => (by cases hc), fun p hc => ?_⟩
    obtain rfl := Option.some.inj hc
    refine ⟨_, hnext (.ok ()), ?_⟩
    rw [tx_next_ok]
    split
    · next hrest =>
      rw [hrest, List.append_nil] at hequal
      exact ⟨rfl, hequal⟩
    · exact ⟨hequal, fun _ _ _ => Nat.zero_le _⟩
  · -- `send_all` fails
    obtain ⟨rest, rfl, hnext, hequal, hle⟩ := hlevel.sendAll hfollows
    refine .inr ⟨⟨?_, h.silent.append rfl, ?_⟩, e, by simp⟩
    · change acceptedBytes (c.log ++ _) <+: calledBytes (c.log ++ _)
      rw [acceptedBytes_append, calledBytes_append]
      change acceptedBytes c.log ++ [] <+: _
      rw [List.append_nil]
      exact h.part.trans (List.prefix_append _ _)
    · rcases sendAllStep_error hsend with rfl | he
      · exact .inl ⟨rfl, rfl⟩
      · exact .inr (.inl ⟨_, e, rfl, hnext (.error e), he⟩)
  · -- another operation is answered
    obtain ⟨t', hfollows', hlevel'⟩ := hlevel.other hfollows hother r
    refine .inl ⟨h.healthy, ?_, fun hc => (by cases hc), fun p hc => ?_⟩
    · intro e hmem
      rcases List.mem_append.mp hmem with hmem | hmem
      · exact h.clean e hmem
      · exact (event_quiet o).2 e hmem
    · obtain rfl := Option.some.inj hc
      exact ⟨t', hfollows', hlevel'⟩

theorem Ended.log {log' : List ClientEvent} (h : c.Ended) (hlog : acceptedBytes log' = []) :
    acceptedBytes (c.log ++ log') <+: calledBytes (c.log ++ log') ∧ Silent (c.log ++ log') := by
  refine ⟨?_, h.silent.append hlog⟩
  rw [acceptedBytes_append, calledBytes_append, hlog, List.append_nil]
  exact h.part.trans (List.prefix_append _ _)

theorem Ended.move (h : c.Ended) {env : ClientEnv} {p : ClientProg ClientState}
    (hp : c.callback = some p) (hmove : c.move env p = some c') : c'.Ended := by
  rcases h.closed with ⟨hfailed, hentry⟩ | ⟨p', e, hp', hfollows, he⟩ | ⟨hnone, -⟩
  · -- the connection is marked: `send_all` returns at once
    have hrefuse : ∀ bytes, sendAllStep c.tlsIoFailed bytes env c.sending =
        some (.returned (.error .ECONNRESET) true) := by
      intro bytes
      rw [hentry, sendAllStep, if_pos hfailed, hfailed]
    rcases move_cases hmove with ⟨s, rfl, rfl⟩ | ⟨bytes, k, pc, accepted, rfl, hsend, rfl⟩ |
      ⟨bytes, k, failed, rfl, hsend, rfl⟩ | ⟨bytes, k, e, failed, rfl, hsend, rfl⟩ |
      ⟨o, k, r, rfl, hother, rfl⟩
    · exact ⟨h.part, h.silent, .inl ⟨hfailed, hentry⟩⟩
    · rw [hrefuse] at hsend
      cases hsend
    · rw [hrefuse] at hsend
      cases hsend
    · rw [hrefuse] at hsend
      cases hsend
      have hnone : acceptedBytes [.failed .ECONNRESET] = [] := rfl
      obtain ⟨hpart, hsilent⟩ := h.log hnone
      exact ⟨hpart, hsilent, .inl ⟨rfl, rfl⟩⟩
    · obtain ⟨hpart, hsilent⟩ := h.log (event_quiet o).1
      exact ⟨hpart, hsilent, .inl ⟨hfailed, hentry⟩⟩
  · -- the callback that tore the frame sends nothing more and ends the loop
    obtain rfl := Option.some.inj (hp.symm.trans hp')
    rcases move_cases hmove with ⟨s, rfl, rfl⟩ | ⟨bytes, k, pc, accepted, rfl, hsend, rfl⟩ |
      ⟨bytes, k, failed, rfl, hsend, rfl⟩ | ⟨bytes, k, e', failed, rfl, hsend, rfl⟩ |
      ⟨o, k, r, rfl, hother, rfl⟩
    · rw [Discipline.follows_ret] at hfollows
      rcases hfollows with hover | ⟨e', hover, hconn⟩
      · cases hover
      · cases hover
        exact ⟨h.part, h.silent, .inr (.inr ⟨rfl, hconn he⟩)⟩
    · rw [Discipline.follows_op] at hfollows
      exact (hfollows.1 : False).elim
    · rw [Discipline.follows_op] at hfollows
      exact (hfollows.1 : False).elim
    · rw [Discipline.follows_op] at hfollows
      exact (hfollows.1 : False).elim
    · rw [Discipline.follows_op] at hfollows
      obtain ⟨hpart, hsilent⟩ := h.log (event_quiet o).1
      have htorn : tx.next (.torn e) o r = .torn e := by
        cases o <;> rfl
      exact ⟨hpart, hsilent, .inr (.inl ⟨_, e, rfl, htorn ▸ hfollows.2 r, he⟩)⟩
  · rw [hp] at hnone
    cases hnone

theorem Ended.dispatch (h : c.Ended) {l : ClientLabel} (hidle : c.callback = none)
    (hconnected : c.state.connected = true) (hstep : c.dispatch cfg l = some c') : c'.Ended := by
  rcases h.closed with ⟨hfailed, hentry⟩ | ⟨p', e, hp', -⟩ | ⟨-, hover⟩
  · rcases dispatch_cases hstep with ⟨state, -, rfl⟩ | ⟨p, e, -, haccepted, -, -, rfl⟩
    · exact ⟨h.part, h.silent, .inl ⟨hfailed, hentry⟩⟩
    · obtain ⟨hpart, hsilent⟩ := h.log haccepted
      exact ⟨hpart, hsilent, .inl ⟨hfailed, hentry⟩⟩
  · rw [hidle] at hp'
    cases hp'
  · rw [hconnected] at hover
    cases hover

theorem Whole.dispatch (h : c.Whole) {l : ClientLabel} (hidle : c.callback = none)
    (hstep : c.dispatch cfg l = some c') : c'.Whole := by
  obtain ⟨hentry, hequal⟩ := h.idle hidle
  rcases dispatch_cases hstep with ⟨state, -, rfl⟩ | ⟨p, e, hfollows, haccepted, hcalled, hne, rfl⟩
  · refine ⟨h.healthy, h.clean, fun _ => ⟨hentry, hequal⟩, fun p hp => ?_⟩
    rw [hidle] at hp
    cases hp
  · refine ⟨h.healthy, ?_, fun hc => (by cases hc), fun p hp => ?_⟩
    · intro errno hmem
      rcases List.mem_append.mp hmem with hmem | hmem
      · exact h.clean errno hmem
      · exact hne errno (List.mem_singleton.mp hmem).symm
    · obtain rfl := Option.some.inj hp
      refine ⟨.even, hfollows, hentry, ?_⟩
      change acceptedBytes (c.log ++ _) = calledBytes (c.log ++ _)
      rw [acceptedBytes_append, calledBytes_append, haccepted, hcalled, hequal]

theorem step_stream {l : ClientLabel} (h : c.Whole ∨ c.Ended) (hstep : c.step cfg l = some c') :
    c'.Whole ∨ c'.Ended := by
  unfold step at hstep
  split at hstep
  · next p env hp =>
    rcases h with h | h
    · exact (h.move hp hstep).imp_right And.left
    · exact .inr (h.move hp hstep)
  · cases hstep
  · next hidle =>
    split at hstep
    · next hconnected =>
      rcases h with h | h
      · exact .inl (h.dispatch hidle hstep)
      · exact .inr (h.dispatch hidle hconnected hstep)
    · cases hstep

theorem whole_start : (start cfg store).Whole where
  healthy := rfl
  clean e h := by cases h
  idle h := by cases h
  busy p hp := by
    obtain rfl := Option.some.inj hp
    exact ⟨.even, tx_registerKey, rfl, rfl⟩

end ClientProcess

/-- In every run the bytes that `SSL_write_ex` has accepted are a prefix of the frames of
the `send_frame` calls, and a call that failed inside `send_all` is the last to have
contributed any. -/
theorem outgoing_never_torn {cfg : ClientConfig} {store : FileStore Bytes UInt8} {c : ClientProcess}
    (hc : (client cfg store).Reachable c) :
    acceptedBytes c.log <+: calledBytes c.log ∧
      ∀ before e after, c.log = before ++ .failed e :: after → acceptedBytes after = [] := by
  have hstream := Transition.System.Reach.invariant (P := fun c => c.Whole ∨ c.Ended)
    (.inl ClientProcess.whole_start) (fun _ _ _ _ _ h hstep => ClientProcess.step_stream h hstep) hc
  rcases hstream with h | h
  · exact ⟨h.part, h.silent⟩
  · exact ⟨h.part, h.silent⟩

/-- The key is registered, a line is typed, and the peer closes after the first two bytes
of its frame. -/
theorem outgoing_never_torn_closed : ∃ c, (client aliceClient Receiver.emptyStore).Reachable c ∧
    c.state.connected = false ∧
    acceptedBytes c.log = encodeFrame .registerPk Receiver.alicePublicKey ++ [0, 0] ∧
    calledBytes c.log =
      encodeFrame .registerPk Receiver.alicePublicKey ++ encodeFrame .text (ascii "hi") ∧
    acceptedBytes c.log <+: calledBytes c.log := by
  have hrun : ((client aliceClient Receiver.emptyStore).run
    (client aliceClient Receiver.emptyStore).init
      ([.go {}, .go {}, .go { write := .written 4 }, .go {}] ++
        [.go {}, .go { write := .written 1 }, .go {}] ++
        [.go {}, .go { write := .written 32 }, .go {}, .go {}, .go {}] ++
        [.typed (some (ascii "hi")), .go {}, .go {}, .go { write := .written 2 },
          .go { write := .failed .zeroReturn }, .go {}])).map
        (fun c => (c.state.connected, acceptedBytes c.log, calledBytes c.log)) =
      some (false, encodeFrame .registerPk Receiver.alicePublicKey ++ [0, 0],
        encodeFrame .registerPk Receiver.alicePublicKey ++ encodeFrame .text (ascii "hi")) := by
    decide +kernel
  obtain ⟨c, hc, hstate⟩ := Option.map_eq_some_iff.mp hrun
  obtain ⟨hconnected, hrest⟩ := Prod.mk.inj hstate
  obtain ⟨haccepted, hcalled⟩ := Prod.mk.inj hrest
  have hreach := Transition.System.Reachable.run .init hc
  exact ⟨c, hreach, hconnected, haccepted, hcalled, (outgoing_never_torn hreach).1⟩

end CipherChat
