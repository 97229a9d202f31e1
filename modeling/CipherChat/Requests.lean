import CipherChat.ClientPending

/-!
# Requests for keys

The client sends one `FRAME_REQUEST_PK` for each package that it links, just before it links
it, and no frame that it sends is longer than `FRAME_MAX_SIZE`.
-/

namespace CipherChat

open Resumption Prog Discipline

/-- The request without a package yet, unless a `send_all` has failed. -/
structure Asking where
  asked : Option Bytes := none
  failed : Bool := false

namespace Asking

def next (t : Asking) : ClientEvent → Asking
  | .note (.sendFrame .requestPk name) => { t with asked := some name }
  | .note (.queued _) => { t with asked := none }
  | .failed _ => { t with failed := true }
  | _ => t

def Allows (t : Asking) : ClientNote → Prop
  | .sendFrame type payload => payload.length ≤ frameMaxSize - 1 ∧
      (type = .requestPk → t.failed = false → t.asked = none)
  | .queued package => t.failed = false → t.asked = some package.recipient
  | .consumed _ _ _ => True

def Settled (t : Asking) : Prop := t.failed = false → t.asked = none

end Asking

def asking : ClientWatch Asking where
  start := {}
  event := Asking.next
  allow := Asking.Allows
  rest t _ := t.Settled

section

variable {cfg : ClientConfig} {s : ClientState} {t : Asking}

theorem asking_call {α : Type} {o : ClientOp} {k : o.Resp → ClientProg α} {Q : Asking → α → Prop}
    (ho : ∀ r, o.logs r = []) (hn : ∀ n, o ≠ .note n)
    (hk : ∀ r, asking.discipline.follows t (k r) Q) :
    asking.discipline.follows t (call (S := clientSig) o >>= k) Q := by
  refine follows_call (fun n h => absurd h (hn n)) fun r => ?_
  change asking.discipline.follows ((o.logs r).foldl Asking.next t) (k r) Q
  rw [ho r]
  exact hk r

theorem asking_sendFrame {type : FrameType} {payload : Bytes}
    (hsize : payload.length ≤ frameMaxSize - 1) (ht : t.Settled) :
    asking.discipline.follows t (sendFrame type payload) fun t' r =>
      (∀ e, r = .error e → t'.failed = true) ∧
        (r = .ok () → t' = t.next (.note (.sendFrame type payload))) := by
  have hother : ∀ t bytes, asking.discipline.allow t (.sendAll bytes) := by
    intro t bytes n h
    cases h
  refine follows_call (fun n h => ?_) fun _ => ?_
  · cases h
    exact ⟨hsize, fun _ => ht⟩
  rw [if_neg (by omega)]
  refine follows_call (hother _ _) fun header => ?_
  cases header with
  | error e => exact follows_pure ⟨fun _ _ => rfl, fun h => by cases h⟩
  | ok u =>
    refine follows_call (hother _ _) fun byte => ?_
    cases byte with
    | error e => exact follows_pure ⟨fun _ _ => rfl, fun h => by cases h⟩
    | ok u =>
      dsimp only
      refine follows_ite ?_ (follows_pure ⟨fun _ h => (by cases h), fun _ => rfl⟩)
      refine follows_last (hother _ _) fun r => ?_
      cases r with
      | error e => exact ⟨fun _ _ => rfl, fun h => by cases h⟩
      | ok u => exact ⟨fun _ h => (by cases h), fun _ => rfl⟩

theorem asking_plainFrame {type : FrameType} {payload : Bytes}
    (hsize : payload.length ≤ frameMaxSize - 1) (htype : type ≠ .requestPk) (ht : t.Settled) :
    asking.discipline.follows t (sendFrame type payload) fun t' _ => t'.Settled := by
  refine follows_mono ?_ (asking_sendFrame hsize ht)
  rintro t' r ⟨herror, hok⟩
  cases r with
  | error e =>
    intro hfailed
    rw [herror e rfl] at hfailed
    cases hfailed
  | ok u =>
    rw [hok rfl]
    cases type with
    | requestPk => exact absurd rfl htype
    | _ => exact ht

theorem asking_sendPrivateChat (recipient message nonce recipientPublicKey : Bytes)
    (hnonce : nonce.length = cryptoBoxNonceBytes) (ht : t.Settled) :
    asking.discipline.follows t (sendPrivateChat cfg recipient message nonce recipientPublicKey)
      fun t' _ => t'.Settled := by
  have hkey := cfg.publicKey.property
  have c1 := cryptoBoxNonceBytes_eq
  have c2 := cryptoBoxPublicKeyBytes_eq
  have c3 := cryptoBoxMacBytes_eq
  have c4 := chatMaxMessageSize_eq
  have c5 := frameMaxSize_eq
  have c6 := usernameSize_eq
  unfold sendPrivateChat
  split
  · exact follows_pure ht
  next hrecipient =>
  split
  · exact follows_pure ht
  next hmessage =>
  refine asking_call (fun _ => rfl) (by simp) fun address => ?_
  cases address with
  | none => exact follows_pure ht
  | some a =>
    dsimp only
    split
    · exact follows_pure ht
    · next ciphertext heasy =>
      have hbox := cfg.easy_length _ _ _ _ _ heasy
      refine asking_plainFrame ?_ (by simp) ht
      simp only [privateChatPayload, List.length_cons, List.length_append]
      omega

theorem asking_sendFileBegin (transferId : UInt32) (recipient filename : Bytes) (fileSize : ℕ)
    (ht : t.Settled) :
    asking.discipline.follows t (sendFileBegin transferId recipient filename fileSize)
      fun t' _ => t'.Settled := by
  have c1 : fileBeginPayloadMaxSize = 302 := rfl
  have c2 := frameMaxSize_eq
  unfold sendFileBegin
  split
  · exact follows_pure ht
  · next payload hencode =>
    have hlen := encodeBegin_length hencode
    exact asking_plainFrame (by omega) (by simp) ht

theorem asking_sendFileChunk (transferId : UInt32) (chunk : Bytes) (ht : t.Settled) :
    asking.discipline.follows t (sendFileChunk transferId chunk) fun t' _ => t'.Settled := by
  have c1 : fileChunkPayloadMaxSize = 904 := rfl
  have c2 := frameMaxSize_eq
  unfold sendFileChunk
  split
  · exact follows_pure ht
  · next payload hencode =>
    have hlen := encodeChunk_length hencode
    exact asking_plainFrame (by omega) (by simp) ht

theorem asking_sendFileChunks (transferId : UInt32) (chunks : List Bytes) (ht : t.Settled) :
    asking.discipline.follows t (sendFileChunks transferId chunks) fun t' _ => t'.Settled := by
  have hmax := frameMaxSize_eq
  induction chunks generalizing t with
  | nil =>
    rw [sendFileChunks, sendFileControl, if_neg (by simp), encodeControl_eq]
    exact asking_plainFrame (by rw [writeU32_length]; omega) (by simp) ht
  | cons chunk rest ih =>
    rw [sendFileChunks, follows_bind]
    refine follows_mono ?_ (asking_sendFileChunk transferId chunk ht)
    intro t' r ht'
    cases r with
    | error e => exact follows_pure ht'
    | ok u => exact ih ht'

theorem asking_sendFileOn (next : UInt32) (recipient path recipientPublicKey : Bytes)
    (ht : t.Settled) :
    asking.discipline.follows t (sendFileOn cfg next recipient path recipientPublicKey)
      fun t' _ => t'.Settled := by
  unfold sendFileOn
  refine asking_call (fun _ => rfl) (by simp) fun env => ?_
  dsimp only
  split
  · exact follows_pure ht
  · next filename encrypted encryptedLength hseal =>
    rw [follows_bind]
    refine follows_mono ?_ (asking_sendFileBegin _ recipient filename encryptedLength ht)
    intro t' r ht'
    cases r with
    | error e => exact follows_pure ht'
    | ok u =>
      dsimp only
      rw [follows_bind]
      refine follows_mono ?_ (asking_sendFileChunks _ _ ht')
      exact fun _ _ h => follows_pure h

theorem asking_note {α : Type} {n : ClientNote} {k : Unit → ClientProg α} {Q : Asking → α → Prop}
    (hn : t.Allows n) (hk : asking.discipline.follows (t.next (.note n)) (k ()) Q) :
    asking.discipline.follows t (call (S := clientSig) (.note n) >>= k) Q := by
  refine follows_call (fun m hm => ?_) fun r => hk
  cases hm
  exact hn

theorem asking_handlePeerPk (frame : Bytes) (ht : t.Settled) :
    asking.discipline.follows t (handlePeerPk cfg s frame) fun t' _ => t'.Settled := by
  unfold handlePeerPk
  split
  · exact follows_pure ht
  split
  · exact follows_pure ht
  dsimp only
  split
  · exact asking_note trivial (follows_pure ht)
  refine asking_note trivial ?_
  unfold sendPackage
  split
  · rw [follows_bind]
    refine follows_mono ?_ (asking_sendFileOn _ _ _ _ ht)
    exact fun _ _ h => follows_pure h
  · refine asking_call (fun _ => rfl) (by simp) fun nonce => ?_
    rw [follows_bind]
    refine follows_mono ?_ (asking_sendPrivateChat _ _ _ _ nonce.property ht)
    exact fun _ _ h => follows_pure h

theorem asking_handleServerFrame (frame : Bytes) (ht : t.Settled) :
    asking.discipline.follows t (handleServerFrame cfg s frame) fun t' _ => t'.Settled := by
  unfold handleServerFrame
  split
  · exact asking_call (fun _ => rfl) (by simp) fun _ => follows_pure ht
  · exact asking_handlePeerPk frame ht
  · split
    · exact follows_pure ht
    · exact asking_call (fun _ => rfl) (by simp) fun _ => follows_pure ht
  · exact asking_call (fun _ => rfl) (by simp) fun _ => follows_pure ht

theorem asking_registerKey (ht : t.Settled) :
    asking.discipline.follows t (registerKey cfg s) fun t' _ => t'.Settled := by
  have hkey := cfg.publicKey.property
  have c1 := cryptoBoxPublicKeyBytes_eq
  have c2 := frameMaxSize_eq
  unfold registerKey
  rw [follows_bind]
  refine follows_mono ?_ (asking_plainFrame (by omega) (by simp) ht)
  intro t' r ht'
  cases r with
  | error e => exact follows_pure ht'
  | ok u =>
    refine asking_call (fun _ => rfl) (by simp) fun env => ?_
    split
    · exact follows_pure ht'
    · exact follows_pure ht'

theorem asking_requestKey (type : PendingPackageType) {username : Bytes} (data : Bytes)
    (h : username.length < usernameSize) (ht : t.Settled) :
    asking.discipline.follows t (requestKey s type username data) fun t' _ => t'.Settled := by
  have c1 := frameMaxSize_eq
  have c2 := usernameSize_eq
  unfold requestKey
  split
  · exact follows_pure ht
  refine asking_call (fun _ => rfl) (by simp) fun address => ?_
  dsimp only
  split
  · exact follows_pure ht
  refine asking_call (fun _ => rfl) (by simp) fun copied => ?_
  split
  · rw [follows_bind]
    refine follows_mono ?_ (asking_sendFrame (by omega) ht)
    rintro t' r ⟨herror, hok⟩
    cases r with
    | error e =>
      refine follows_pure fun hfailed => ?_
      rw [herror e rfl] at hfailed
      cases hfailed
    | ok u =>
      rw [hok rfl]
      exact asking_note (fun _ => rfl) (follows_pure fun _ => rfl)
  · exact follows_pure ht

theorem asking_handleInput (line : Bytes) (ht : t.Settled) :
    asking.discipline.follows t (handleInput s line) fun t' _ => t'.Settled := by
  have hafter : ∀ {p : ClientProg (Except Errno Unit × ClientState)},
      asking.discipline.follows t p (fun t' _ => t'.Settled) →
      asking.discipline.follows t (p >>= fun r => pure (r.2.afterSend r.1))
        fun t' _ => t'.Settled := by
    intro p hp
    rw [follows_bind]
    refine follows_mono ?_ hp
    exact fun _ _ h => follows_pure h
  unfold handleInput
  split
  · exact follows_pure ht
  split
  · refine hafter ?_
    unfold handleFileCommand
    split
    · next username filepath hparse =>
      exact follows_ite (follows_pure ht)
        (asking_requestKey _ _ (parseCommand_fileTransfer hparse).2.2.2.2.2 ht)
    · exact follows_pure ht
  split
  · refine hafter ?_
    unfold handlePrivateMessage
    split
    · next username message hparse =>
      exact follows_ite (follows_pure ht)
        (asking_requestKey _ _ (parseCommand_privateMessage hparse).2.2.2.2.2 ht)
    · exact follows_pure ht
  split
  · exact follows_pure ht
  next hline =>
  rw [follows_bind]
  refine follows_mono ?_ (asking_plainFrame (not_lt.mp hline) (by simp) ht)
  exact fun _ _ h => follows_pure h

end

theorem asking_kept (cfg : ClientConfig) : asking.Kept cfg where
  accepted _ _ := rfl
  start _ := asking_registerKey fun _ => rfl
  typed _ _ line ht := asking_handleInput line ht
  received _ _ frame ht := asking_handleServerFrame frame ht
  stopped _ _ _ ht := ht

/-- Whether a request for `name` has no package yet. -/
def Asking.waits (name : Bytes) (t : Asking) : ℕ := if t.asked = some name then 1 else 0

theorem Asking.waits_of_eq {t t' : Asking} (h : t'.asked = t.asked) (name : Bytes) :
    t'.waits name = t.waits name := by
  rw [Asking.waits, Asking.waits, h]

section

variable {log : List ClientEvent}

theorem asking_clean (h : ∀ e, .failed e ∉ log) : (asking.state log).failed = false := by
  induction log using List.reverseRecOn with
  | nil => rfl
  | append_singleton log e ih =>
    have hold := ih fun errno he => h errno (List.mem_append_left _ he)
    rw [ClientWatch.state_concat]
    cases e with
    | failed errno => exact absurd (List.mem_append_right _ (List.mem_singleton.mpr rfl)) (h errno)
    | note n =>
      cases n with
      | sendFrame type payload => cases type <;> exact hold
      | _ => exact hold
    | _ => exact hold

theorem requests_counted (h : ∀ e, .failed e ∉ log)
    (hlawful : ∀ before e after, log = before ++ e :: after → asking.Lawful (asking.state before) e)
    (name : Bytes) :
    (calledFrames log).count (.requestPk, name) =
      (queuedFor name log).length + (asking.state log).waits name := by
  induction log using List.reverseRecOn with
  | nil => rfl
  | append_singleton log e ih =>
    have hclean : ∀ errno, .failed errno ∉ log := fun errno he =>
      h errno (List.mem_append_left _ he)
    have hold := ih hclean fun before e' after hlog =>
      hlawful before e' (after ++ [e]) (by rw [hlog]; simp)
    have he := hlawful log e [] rfl
    have hsplit : calledFrames (log ++ [e]) = calledFrames log ++ calledFrames [e] ∧
        queuedFor name (log ++ [e]) = queuedFor name log ++ queuedFor name [e] :=
      ⟨List.filterMap_append, List.filterMap_append⟩
    rw [hsplit.1, hsplit.2, List.count_append, List.length_append, ClientWatch.state_concat, hold]
    change _ = _ + _ + ((asking.state log).next e).waits name
    -- what is neither a request for a key nor a package put aside
    have hpass : (calledFrames [e]).count (.requestPk, name) = 0 → queuedFor name [e] = [] →
        ((asking.state log).next e).asked = (asking.state log).asked →
        (queuedFor name log).length + (asking.state log).waits name +
            (calledFrames [e]).count (.requestPk, name) =
          (queuedFor name log).length + (queuedFor name [e]).length +
            ((asking.state log).next e).waits name := by
      intro hcalled hqueued hasked
      rw [hcalled, hqueued, Asking.waits_of_eq hasked]
      rfl
    cases e with
    | note n =>
      cases n with
      | sendFrame type payload =>
        by_cases htype : type = .requestPk
        -- no other request is under way
        · subst htype
          have hnone : (asking.state log).asked = none := he.2 rfl (asking_clean hclean)
          have hone : calledFrames [.note (.sendFrame .requestPk payload)] =
              [(.requestPk, payload)] := rfl
          have hnext : (asking.state log).next (.note (.sendFrame .requestPk payload)) =
              { asking.state log with asked := some payload } := rfl
          have hqueued : queuedFor name [.note (.sendFrame .requestPk payload)] = [] := rfl
          rw [hone, hnext, hqueued, List.count_singleton, Asking.waits, Asking.waits, hnone]
          simp
        · refine hpass ?_ rfl ?_
          · change List.count _ [(type, payload)] = 0
            rw [List.count_singleton]
            simp [htype]
          · cases type with
            | requestPk => exact absurd rfl htype
            | _ => rfl
      | queued package =>
        -- the package waits for the request made just before
        have hasked : (asking.state log).asked = some package.recipient :=
          he (asking_clean hclean)
        have hqueued : (queuedFor name [.note (.queued package)]).length =
            (asking.state log).waits name := by
          rw [Asking.waits, hasked]
          by_cases hname : package.recipient = name
          · simp [queuedFor, Books.isFor, hname]
          · simp [queuedFor, Books.isFor, hname]
        rw [hqueued]
        rfl
      | consumed package name' key => exact hpass rfl rfl rfl
    | failed errno => exact absurd (List.mem_append_right _ (List.mem_singleton.mpr rfl)) (h errno)
    | _ => exact hpass rfl rfl rfl

end

section

variable {cfg : ClientConfig} {store : FileStore Bytes UInt8} {c : ClientProcess}

theorem requests_balanced (hc : (client cfg store).Reachable c) (hclean : ∀ e, .failed e ∉ c.log)
    (hidle : c.callback = none) (name : Bytes) :
    (calledFrames c.log).count (.requestPk, name) = (queuedFor name c.log).length := by
  have hholds := (asking_kept cfg).holds hc
  have hnone : (asking.state c.log).asked = none := hholds.idle hidle (asking_clean hclean)
  rw [requests_counted hclean hholds.lawful, Asking.waits, hnone]
  rfl

/-- Every frame that is sent fits. -/
theorem calledFrames_fit (hc : (client cfg store).Reachable c) :
    ∀ f ∈ calledFrames c.log, f.2.length ≤ frameMaxSize - 1 := by
  intro f hf
  obtain ⟨e, he, hf⟩ := List.mem_filterMap.mp hf
  obtain ⟨before, after, hlog⟩ := List.append_of_mem he
  have hlawful := ((asking_kept cfg).holds hc).lawful before e after hlog
  split at hf
  · cases hf
    exact hlawful.1
  · cases hf

end

end CipherChat
