import CipherChat.Lib.Sublists
import CipherChat.Requests

/-!
# From typed lines to encrypted messages

A typed line queues at most one package, and a package that a reply takes off the list is sealed
at most once.  So the packages come from the lines in the order of typing, and the encrypted
messages from the packages in the order in which they were taken.
-/

namespace CipherChat

open Resumption Prog Discipline

def packageOf (line : Bytes) : Option PendingPackage :=
  match parseCommand line with
  | .privateMessage username message => some ⟨.message, username, message⟩
  | .fileTransfer username filepath => some ⟨.file, username, filepath⟩
  | _ => none

theorem packageOf_message {line : Bytes} {package : PendingPackage}
    (h : packageOf line = some package) (htype : package.type = .message) :
    parseCommand line = .privateMessage package.recipient package.data := by
  unfold packageOf at h
  split at h
  · next hparse =>
    cases h
    exact hparse
  · cases h
    cases htype
  · cases h

def Seals (cfg : ClientConfig) (payload : Bytes) (taken : PendingPackage × Bytes) : Prop :=
  taken.1.type = .message ∧ taken.2.length < usernameSize ∧
    ∃ nonce key box, nonce.length = cryptoBoxNonceBytes ∧
      cfg.box.easy taken.1.data nonce key cfg.privateKey = some box ∧
      payload = privateChatPayload taken.2 nonce cfg.publicKey.val box

/-- The last line, until it has queued its package, and the last package that was taken, until
it is sealed. -/
structure Sealing where
  typed : Option Bytes := none
  taken : Option (PendingPackage × Bytes) := none

namespace Sealing

def next (t : Sealing) : ClientEvent → Sealing
  | .typed line => { t with typed := some line }
  | .note (.queued _) => { t with typed := none }
  | .note (.consumed package name _) => { t with taken := some (package, name) }
  | .note (.sendFrame .ciphertext _) => { t with taken := none }
  | _ => t

def Allows (cfg : ClientConfig) (t : Sealing) : ClientNote → Prop
  | .queued package => ∃ line, t.typed = some line ∧ packageOf line = some package
  | .sendFrame .ciphertext payload => ∃ taken, t.taken = some taken ∧ Seals cfg payload taken
  | _ => True

end Sealing

def sealing (cfg : ClientConfig) : ClientWatch Sealing where
  start := {}
  event := Sealing.next
  allow := Sealing.Allows cfg
  rest _ _ := True

section

variable {cfg : ClientConfig} {s : ClientState} {t : Sealing}

theorem sealing_call {α : Type} {o : ClientOp} {k : o.Resp → ClientProg α} {Q : Sealing → α → Prop}
    (ho : ∀ r, o.logs r = []) (hn : ∀ n, o ≠ .note n)
    (hk : ∀ r, (sealing cfg).discipline.follows t (k r) Q) :
    (sealing cfg).discipline.follows t (call (S := clientSig) o >>= k) Q := by
  refine follows_call (fun n h => absurd h (hn n)) fun r => ?_
  change (sealing cfg).discipline.follows ((o.logs r).foldl Sealing.next t) (k r) Q
  rw [ho r]
  exact hk r

theorem sealing_note {α : Type} {n : ClientNote} {k : Unit → ClientProg α} {Q : Sealing → α → Prop}
    (hn : t.Allows cfg n) (hk : (sealing cfg).discipline.follows (t.next (.note n)) (k ()) Q) :
    (sealing cfg).discipline.follows t (call (S := clientSig) (.note n) >>= k) Q := by
  refine follows_call (fun m hm => ?_) fun r => hk
  cases hm
  exact hn

theorem sealing_sendFrame {type : FrameType} {payload : Bytes}
    (h : t.Allows cfg (.sendFrame type payload)) :
    (sealing cfg).discipline.follows t (sendFrame type payload)
      fun t' _ => t' = t.next (.note (.sendFrame type payload)) := by
  have hother : ∀ t bytes, (sealing cfg).discipline.allow t (.sendAll bytes) := by
    intro t bytes n hn
    cases hn
  refine sealing_note h (follows_ite (follows_pure rfl) ?_)
  refine follows_call (hother _ _) fun header => ?_
  cases header with
  | error e => exact follows_pure rfl
  | ok u =>
    refine follows_call (hother _ _) fun byte => ?_
    cases byte with
    | error e => exact follows_pure rfl
    | ok u =>
      refine follows_ite ?_ (follows_pure rfl)
      refine follows_last (hother _ _) fun r => ?_
      cases r <;> rfl

theorem sealing_plainFrame {type : FrameType} {payload : Bytes} (htype : type ≠ .ciphertext) :
    (sealing cfg).discipline.follows t (sendFrame type payload) fun t' _ => t' = t := by
  have hallow : t.Allows cfg (.sendFrame type payload) := by
    cases type with
    | ciphertext => exact absurd rfl htype
    | _ => trivial
  have hnext : t.next (.note (.sendFrame type payload)) = t := by
    cases type with
    | ciphertext => exact absurd rfl htype
    | _ => rfl
  refine follows_mono ?_ (sealing_sendFrame hallow)
  intro t' _ ht
  exact ht.trans hnext

theorem sealing_sendFileBegin (transferId : UInt32) (recipient filename : Bytes) (fileSize : ℕ) :
    (sealing cfg).discipline.follows t (sendFileBegin transferId recipient filename fileSize)
      fun t' _ => t' = t := by
  unfold sendFileBegin
  split
  · exact follows_pure rfl
  · exact sealing_plainFrame (by simp)

theorem sealing_sendFileChunk (transferId : UInt32) (chunk : Bytes) :
    (sealing cfg).discipline.follows t (sendFileChunk transferId chunk) fun t' _ => t' = t := by
  unfold sendFileChunk
  split
  · exact follows_pure rfl
  · exact sealing_plainFrame (by simp)

theorem sealing_sendFileChunks (transferId : UInt32) (chunks : List Bytes) :
    (sealing cfg).discipline.follows t (sendFileChunks transferId chunks) fun t' _ => t' = t := by
  induction chunks with
  | nil =>
    rw [sendFileChunks, sendFileControl, if_neg (by simp), encodeControl_eq]
    exact sealing_plainFrame (by simp)
  | cons chunk rest ih =>
    rw [sendFileChunks]
    refine follows_then (sealing_sendFileChunk transferId chunk) fun r => ?_
    cases r with
    | error e => exact follows_pure rfl
    | ok u => exact ih

theorem sealing_sendFileOn (next : UInt32) (recipient path recipientPublicKey : Bytes) :
    (sealing cfg).discipline.follows t (sendFileOn cfg next recipient path recipientPublicKey)
      fun t' _ => t' = t := by
  unfold sendFileOn
  refine sealing_call (fun _ => rfl) (by simp) fun env => ?_
  dsimp only
  split
  · exact follows_pure rfl
  · next filename encrypted encryptedLength hseal =>
    refine follows_then (sealing_sendFileBegin _ recipient filename encryptedLength) fun r => ?_
    cases r with
    | error e => exact follows_pure rfl
    | ok u => exact follows_then (sealing_sendFileChunks _ _) fun _ => follows_pure rfl

theorem sealing_sendPrivateChat {package : PendingPackage} {name : Bytes}
    (ht : t.taken = some (package, name)) (htype : package.type = .message) (key : Bytes)
    {nonce : Bytes} (hnonce : nonce.length = cryptoBoxNonceBytes) :
    (sealing cfg).discipline.follows t (sendPrivateChat cfg name package.data nonce key)
      fun _ _ => True := by
  unfold sendPrivateChat
  split
  · exact follows_pure trivial
  next hname =>
  refine follows_ite (follows_pure trivial) ?_
  refine sealing_call (fun _ => rfl) (by simp) fun address => ?_
  cases address with
  | none => exact follows_pure trivial
  | some a =>
    dsimp only
    split
    · exact follows_pure trivial
    · next box heasy =>
      have hlength : name.length < usernameSize := not_le.mp (not_or.mp hname).2
      refine follows_mono (fun _ _ _ => trivial) (sealing_sendFrame ?_)
      exact ⟨(package, name), ht, htype, hlength, nonce, key, box, hnonce, heasy, rfl⟩

theorem sealing_handlePeerPk (frame : Bytes) :
    (sealing cfg).discipline.follows t (handlePeerPk cfg s frame) fun _ _ => True := by
  unfold handlePeerPk
  split
  · exact follows_pure trivial
  split
  · exact follows_pure trivial
  dsimp only
  split
  · exact sealing_note trivial (follows_pure trivial)
  refine sealing_note trivial ?_
  unfold sendPackage
  split
  · exact follows_then (sealing_sendFileOn _ _ _ _) fun _ => follows_pure trivial
  · next htype =>
    refine sealing_call (fun _ => rfl) (by simp) fun nonce => ?_
    rw [follows_bind]
    refine follows_mono ?_ (sealing_sendPrivateChat rfl htype _ nonce.property)
    exact fun _ _ _ => follows_pure trivial

theorem sealing_handleServerFrame (frame : Bytes) :
    (sealing cfg).discipline.follows t (handleServerFrame cfg s frame) fun _ _ => True := by
  unfold handleServerFrame
  split
  · exact sealing_call (fun _ => rfl) (by simp) fun _ => follows_pure trivial
  · exact sealing_handlePeerPk frame
  · split
    · exact follows_pure trivial
    · exact sealing_call (fun _ => rfl) (by simp) fun _ => follows_pure trivial
  · exact sealing_call (fun _ => rfl) (by simp) fun _ => follows_pure trivial

theorem sealing_registerKey :
    (sealing cfg).discipline.follows t (registerKey cfg s) fun _ _ => True := by
  unfold registerKey
  refine follows_then (sealing_plainFrame (by simp)) fun r => ?_
  cases r with
  | error e => exact follows_pure trivial
  | ok u =>
    refine sealing_call (fun _ => rfl) (by simp) fun env => ?_
    split <;> exact follows_pure trivial

theorem sealing_requestKey {line : Bytes} (ht : t.typed = some line) (type : PendingPackageType)
    (username data : Bytes) (hline : packageOf line = some ⟨type, username, data⟩) :
    (sealing cfg).discipline.follows t (requestKey s type username data) fun _ _ => True := by
  unfold requestKey
  refine follows_ite (follows_pure trivial) ?_
  refine sealing_call (fun _ => rfl) (by simp) fun address => ?_
  dsimp only
  split
  · exact follows_pure trivial
  refine sealing_call (fun _ => rfl) (by simp) fun copied => ?_
  refine follows_ite ?_ (follows_pure trivial)
  refine follows_then (sealing_plainFrame (by simp)) fun r => ?_
  cases r with
  | error e => exact follows_pure trivial
  | ok u => exact sealing_note ⟨line, ht, hline⟩ (follows_pure trivial)

theorem sealing_handleInput {line : Bytes} (ht : t.typed = some line) :
    (sealing cfg).discipline.follows t (handleInput s line) fun _ _ => True := by
  have hafter : ∀ {p : ClientProg (Except Errno Unit × ClientState)},
      (sealing cfg).discipline.follows t p (fun _ _ => True) →
      (sealing cfg).discipline.follows t (p >>= fun r => pure (r.2.afterSend r.1))
        fun _ _ => True := by
    intro p hp
    rw [follows_bind]
    exact follows_mono (fun _ _ _ => follows_pure trivial) hp
  unfold handleInput
  refine follows_ite (follows_pure trivial) (follows_ite (hafter ?_) (follows_ite (hafter ?_) ?_))
  · unfold handleFileCommand
    split
    · next hparse =>
      refine follows_ite (follows_pure trivial) (sealing_requestKey ht _ _ _ ?_)
      rw [packageOf, hparse]
    · exact follows_pure trivial
  · unfold handlePrivateMessage
    split
    · next hparse =>
      refine follows_ite (follows_pure trivial) (sealing_requestKey ht _ _ _ ?_)
      rw [packageOf, hparse]
    · exact follows_pure trivial
  · refine follows_ite (follows_pure trivial) ?_
    exact follows_then (sealing_plainFrame (by simp)) fun _ => follows_pure trivial

theorem sealing_kept (cfg : ClientConfig) : (sealing cfg).Kept cfg where
  accepted _ _ := rfl
  start _ := sealing_registerKey
  typed _ _ _ _ := sealing_handleInput rfl
  received _ _ frame _ := sealing_handleServerFrame frame
  stopped _ _ _ _ := trivial

end

/-- The lines that were passed to `handle_input`, in order. -/
def typedLines (log : List ClientEvent) : List Bytes :=
  log.filterMap fun e =>
    match e with
    | .typed line => some line
    | _ => none

def queuedPackages (log : List ClientEvent) : List PendingPackage :=
  log.filterMap fun e =>
    match e with
    | .note (.queued package) => some package
    | _ => none

def consumedPackages (log : List ClientEvent) : List (PendingPackage × Bytes) :=
  log.filterMap fun e =>
    match e with
    | .note (.consumed package name _) => some (package, name)
    | _ => none

def sealedPayloads (log : List ClientEvent) : List Bytes :=
  log.filterMap fun e =>
    match e with
    | .note (.sendFrame .ciphertext payload) => some payload
    | _ => none

section

variable {cfg : ClientConfig} {store : FileStore Bytes UInt8} {c : ClientProcess}

theorem queued_in_order (hc : (client cfg store).Reachable c) :
    List.SublistForall₂ (fun package line => packageOf line = some package)
      (queuedPackages c.log) (typedLines c.log) := by
  refine ((sealing_kept cfg).history hc (P := fun log =>
    List.Passes (fun package line => packageOf line = some package) (queuedPackages log)
      (typedLines log) ((sealing cfg).state log).typed) .nil ?_).drop
  intro log e he h
  have hqueued : queuedPackages (log ++ [e]) = queuedPackages log ++ queuedPackages [e] :=
    List.filterMap_append
  have htyped : typedLines (log ++ [e]) = typedLines log ++ typedLines [e] :=
    List.filterMap_append
  rw [hqueued, htyped, ClientWatch.state_concat]
  have hquiet : queuedPackages [e] = [] → typedLines [e] = [] →
      (((sealing cfg).state log).next e).typed = ((sealing cfg).state log).typed →
      List.Passes (fun package line => packageOf line = some package)
        (queuedPackages log ++ queuedPackages [e]) (typedLines log ++ typedLines [e])
        (((sealing cfg).state log).next e).typed := by
    intro hqueued htyped hslot
    rw [hqueued, htyped, hslot, List.append_nil, List.append_nil]
    exact h
  cases e with
  | typed line =>
    rw [show queuedPackages [.typed line] = [] from rfl, List.append_nil]
    exact h.send line
  | note n =>
    cases n with
    | queued package =>
      obtain ⟨line, hslot, hline⟩ := he
      rw [hslot] at h
      rw [show typedLines [.note (.queued package)] = [] from rfl, List.append_nil]
      exact h.pass hline
    | consumed package name key => exact hquiet rfl rfl rfl
    | sendFrame type payload =>
      refine hquiet rfl rfl ?_
      cases type <;> rfl
  | received frame => exact hquiet rfl rfl rfl
  | accepted bytes => exact hquiet rfl rfl rfl
  | failed e => exact hquiet rfl rfl rfl

theorem sealed_in_order (hc : (client cfg store).Reachable c) :
    List.SublistForall₂ (Seals cfg) (sealedPayloads c.log) (consumedPackages c.log) := by
  refine ((sealing_kept cfg).history hc (P := fun log =>
    List.Passes (Seals cfg) (sealedPayloads log) (consumedPackages log)
      ((sealing cfg).state log).taken) .nil ?_).drop
  intro log e he h
  have hcalled : sealedPayloads (log ++ [e]) = sealedPayloads log ++ sealedPayloads [e] :=
    List.filterMap_append
  have htaken : consumedPackages (log ++ [e]) = consumedPackages log ++ consumedPackages [e] :=
    List.filterMap_append
  rw [hcalled, htaken, ClientWatch.state_concat]
  have hquiet : sealedPayloads [e] = [] → consumedPackages [e] = [] →
      (((sealing cfg).state log).next e).taken = ((sealing cfg).state log).taken →
      List.Passes (Seals cfg) (sealedPayloads log ++ sealedPayloads [e])
        (consumedPackages log ++ consumedPackages [e])
        (((sealing cfg).state log).next e).taken := by
    intro hcalled htaken hslot
    rw [hcalled, htaken, hslot, List.append_nil, List.append_nil]
    exact h
  cases e with
  | note n =>
    cases n with
    | queued package => exact hquiet rfl rfl rfl
    | consumed package name key =>
      rw [show sealedPayloads [.note (.consumed package name key)] = [] from rfl, List.append_nil]
      exact h.send (package, name)
    | sendFrame type payload =>
      cases type with
      | ciphertext =>
        obtain ⟨taken, hslot, hseals⟩ := he
        rw [hslot] at h
        rw [show consumedPackages [.note (.sendFrame .ciphertext payload)] = [] from rfl,
          List.append_nil]
        exact h.pass hseals
      | _ => exact hquiet rfl rfl rfl
  | typed line => exact hquiet rfl rfl rfl
  | received frame => exact hquiet rfl rfl rfl
  | accepted bytes => exact hquiet rfl rfl rfl
  | failed e => exact hquiet rfl rfl rfl

theorem queuedFor_eq_filter (name : Bytes) (log : List ClientEvent) :
    queuedFor name log = (queuedPackages log).filter (Books.isFor name) := by
  rw [queuedFor, queuedPackages, List.filter_filterMap]
  refine List.filterMap_congr fun e _ => ?_
  cases e with
  | note n =>
    cases n with
    | queued package => exact (Option.filter_some ..).symm
    | _ => rfl
  | _ => rfl

theorem consumedFor_eq_filter (name : Bytes) (log : List ClientEvent) :
    consumedFor name log =
      ((consumedPackages log).filter fun taken => taken.2 = name).map Prod.fst := by
  rw [consumedFor, consumedPackages, List.filter_filterMap, List.map_filterMap]
  refine List.filterMap_congr fun e _ => ?_
  cases e with
  | note n =>
    cases n with
    | consumed package name' key =>
      by_cases hname : name' = name <;> simp [Option.filter_some, hname]
    | _ => rfl
  | _ => rfl

theorem consumed_in_order (hc : (client cfg store).Reachable c) (name : Bytes) :
    List.SublistForall₂
      (fun (package : PendingPackage) line => packageOf line = some package ∧
        package.recipient = name) (consumedFor name c.log) (typedLines c.log) := by
  have hqueued := queued_eq_consumed_append (Booked.of_reachable hc).lawful name
  rw [queuedFor_eq_filter] at hqueued
  have htaken : (consumedFor name c.log).Sublist
      ((queuedPackages c.log).filter (Books.isFor name)) := by
    rw [hqueued]
    exact List.sublist_append_left _ _
  refine ((queued_in_order hc).sublist_left (htaken.trans List.filter_sublist)).imp_of_mem ?_
  intro package hmem line hline
  have hfor := (List.mem_filter.mp (htaken.subset hmem)).2
  exact ⟨hline, beq_iff_eq.mp hfor⟩

end

end CipherChat
