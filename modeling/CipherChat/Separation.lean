import CipherChat.Downloads
import CipherChat.PrivateChat

/-!
# Files and private messages

Both are boxes under the same keys.  A file announces its name in a field of two
bytes; no accepted name needs the high one, so its plaintext has a NUL, and a typed
message never has.  Nothing separates the other way: `receive_private_chat` does not
look for the magic of a file.
-/

namespace CipherChat

theorem zero_mem_writeU16 {n : ℕ} (h : n ≤ fileNameMaxLength) :
    (0 : UInt8) ∈ writeU16 (UInt16.ofNat n) := by
  have hmax := fileNameMaxLength_eq
  have hn : (UInt16.ofNat n).toNat = n := by
    rw [UInt16.toNat_ofNat', Nat.mod_eq_of_lt (by omega)]
  have hhigh : n / 256 ^ 1 = 0 := Nat.div_eq_of_lt (by omega)
  rw [writeU16, hn, BigEndian.encode, hhigh]
  exact List.mem_cons_self

theorem zero_mem_filePlaintext {filename : Bytes} (h : validFilename filename = true) (d : Bytes) :
    (0 : UInt8) ∈ filePlaintext filename d := by
  have hlength := (validFilename_iff.mp h).2.1
  rw [filePlaintext]
  refine List.mem_append_left _ (List.mem_append_left _ (List.mem_append_right _ ?_))
  exact zero_mem_writeU16 hlength

theorem nextToken_subset (text : Bytes) : nextToken text ⊆ text := by
  intro b hb
  have hdrop := (List.dropWhile_sublist _).subset hb
  exact (List.dropWhile_sublist _).subset ((List.drop_sublist _ _).subset hdrop)

theorem message_subset {line username message : Bytes}
    (h : parseCommand line = .privateMessage username message) : message ⊆ line := by
  obtain ⟨-, -, hmessage, -⟩ := parseCommand_privateMessage h
  intro b hb
  rw [hmessage] at hb
  have htext := nextToken_subset _ (nextToken_subset _ hb)
  exact (List.rdropWhile_prefix _ _).subset ((List.dropWhile_sublist _).subset htext)

namespace Receiver

variable {cfg : ReceiverConfig} {env : FileEnv} {r : Receiver} {i : Fin maxIncomingFiles}
  {f : FileStream} {filename encrypted key nonce box : Bytes}

theorem openEnvelope_chat (hname : validFilename filename = true)
    (hlen : fileCryptoOverhead + filename.length ≤ encrypted.length)
    (hbox : encrypted.drop fileCryptoMagicSize = key ++ (nonce ++ box))
    (hkey : key.length = cryptoBoxPublicKeyBytes) (hnonce : nonce.length = cryptoBoxNonceBytes)
    (hchat : ∀ m, cfg.box.openEasy box nonce key cfg.privateKey = some m → (0 : UInt8) ∉ m) :
    ∃ e, openEnvelope cfg filename encrypted = .error e := by
  rcases hopen : openEnvelope cfg filename encrypted with e | d
  · exact ⟨e, rfl⟩
  obtain ⟨key', nonce', box', hsplit, hkey', hnonce', heasy⟩ := openEnvelope_ok hlen hopen
  have hmagic : fileCryptoMagic.length = fileCryptoMagicSize := rfl
  rw [hsplit, List.append_assoc, List.append_assoc, List.drop_left' hmagic] at hbox
  obtain ⟨rfl, hrest⟩ := List.append_inj hbox (hkey'.trans hkey.symm)
  obtain ⟨rfl, rfl⟩ := List.append_inj hrest (hnonce'.trans hnonce.symm)
  exact absurd (zero_mem_filePlaintext hname d) (hchat _ heasy)

theorem receiveFileEnd_unopened {frame : Bytes} {id : UInt32} {e : Errno}
    (hf : Staged cfg r (r.incomingFiles i) f) (hframe : decodeControl frame .fileEnd = .ok id)
    (hfind : r.findIncomingFile id = some i)
    (hopen : openEnvelope cfg (r.incomingFiles i).filename (r.store.data f.inode) = .error e) :
    ∃ e, r.receiveFileEnd cfg env frame = (.error e, r.discardIncomingFile env.unlink i) := by
  simp only [receiveFileEnd, hframe, hfind, hf.file]
  split
  · exact ⟨_, rfl⟩
  next hfull =>
  have htake : (r.store.data f.inode).take (r.incomingFiles i).expectedSize =
      r.store.data f.inode :=
    List.take_of_length_le (by rw [hf.stored]; exact hf.received)
  have hdecrypt : ∃ e, r.decryptReceivedFile cfg env (r.incomingFiles i) f = (.error e, r) := by
    unfold decryptReceivedFile
    split
    · exact ⟨_, rfl⟩
    split
    · exact ⟨_, rfl⟩
    dsimp only
    split
    · exact ⟨_, rfl⟩
    · rw [htake, hopen]
      exact ⟨e, rfl⟩
  obtain ⟨e', he'⟩ := hdecrypt
  rw [he']
  exact ⟨e', rfl⟩

theorem discard_entry_none {p : Bytes} (unlinked : Option Errno) (hp : r.store.entry p = none) :
    (r.discardIncomingFile unlinked i).store.entry p = none := by
  unfold discardIncomingFile
  split
  · rw [set_store]
    refine Option.eq_none_iff_forall_ne_some.mpr fun k hk => ?_
    rw [unlink_entry_some hk] at hp
    cases hp
  · exact hp

end Receiver

/-- The staged file of slot `i` is eight bytes of any kind and then this box. -/
def StagesBox (r : Receiver) (i : Fin maxIncomingFiles) (key nonce box : Bytes) : Prop :=
  ∃ staged, r.store.read (r.incomingFiles i).tempPath = some staged ∧
    staged.drop fileCryptoMagicSize = key ++ (nonce ++ box)

/-- A typed message is no file's plaintext, and in no run of the receiver does FILE_END
save a file from its box, whatever was announced and whatever frames brought it there. -/
theorem chat_never_saved_as_file {line username message : Bytes} (hline : (0 : UInt8) ∉ line)
    (hparse : parseCommand line = .privateMessage username message) (cfg : ClientConfig)
    (peer : ReceiverConfig) (recipientPublicKey : Bytes)
    (nonce : { n : Bytes // n.length = cryptoBoxNonceBytes })
    (hmatch : ∀ ciphertext opened,
      cfg.box.easy message nonce.val recipientPublicKey cfg.privateKey = some ciphertext →
      peer.box.openEasy ciphertext nonce.val cfg.publicKey.val peer.privateKey = some opened →
        opened = message) {box : Bytes}
    (heasy : cfg.box.easy message nonce.val recipientPublicKey cfg.privateKey = some box)
    (store : FileStore Bytes UInt8) {r : Receiver} (hr : (receiver peer store).Reachable r) :
    (∀ announced b d, decodeBegin announced = some b → message ≠ filePlaintext b.filename d) ∧
    ∀ env frame id i, decodeControl frame .fileEnd = .ok id → r.findIncomingFile id = some i →
      StagesBox r i cfg.publicKey.val nonce.val box →
      (∃ e, r.receiveFileEnd peer env frame = (.error e, r.discardIncomingFile env.unlink i)) ∧
      ∀ p, r.store.entry p = none →
        (r.receiveFileEnd peer env frame).2.store.entry p = none := by
  have hmessage : (0 : UInt8) ∉ message := fun h0 => hline (message_subset hparse h0)
  refine ⟨fun announced b d hb heq => ?_, fun env frame id i hframe hfind hstages => ?_⟩
  · obtain ⟨-, -, -, hname⟩ := decodeBegin_some hb
    rw [heq] at hmessage
    exact hmessage (zero_mem_filePlaintext hname d)
  · obtain ⟨f, hf⟩ := (Receiver.inv_of_reach hr).staged i (Receiver.findIncomingFile_some hfind).1
    obtain ⟨staged, hread, hbox⟩ := hstages
    have hdata : r.store.data f.inode = staged := by
      rw [FileStore.read, hf.named] at hread
      exact Option.some.inj hread
    -- a transfer that is not complete is discarded before its box is looked at
    have hend : ∃ e, r.receiveFileEnd peer env frame =
        (.error e, r.discardIncomingFile env.unlink i) := by
      by_cases hfull : (r.incomingFiles i).receivedSize = (r.incomingFiles i).expectedSize
      · have hchat : ∀ m, peer.box.openEasy box nonce.val cfg.publicKey.val peer.privateKey =
            some m → (0 : UInt8) ∉ m := fun m hm => by rwa [hmatch _ _ heasy hm]
        have hlen : fileCryptoOverhead + (r.incomingFiles i).filename.length ≤
            (r.store.data f.inode).length := by
          rw [hf.stored, hfull]
          exact hf.lower
        rw [← hdata] at hbox
        obtain ⟨e, he⟩ := Receiver.openEnvelope_chat hf.filename hlen hbox cfg.publicKey.property
          nonce.property hchat
        exact Receiver.receiveFileEnd_unopened hf hframe hfind he
      · refine ⟨Errno.EIO, ?_⟩
        simp only [Receiver.receiveFileEnd, hframe, hfind]
        exact if_pos hfull
    obtain ⟨e, he⟩ := hend
    refine ⟨⟨e, he⟩, fun p hp => ?_⟩
    rw [he]
    exact Receiver.discard_entry_none env.unlink hp

open Receiver

/-- A line that starts like a file, boxed for Bob by Alice under the sample keys. -/
def chatMessage : Bytes := ascii "CCFILE01 hi"

def chatCiphertext : Bytes :=
  [164, 134, 5, 45, 221, 47, 138, 81, 2, 141, 56, 83, 186, 112, 188, 248, 115, 221, 34, 19, 56, 172,
    208, 151, 45, 234, 42]

/-- `crypto_box` at this one input, refusing every other. -/
def chatBox : CryptoBox where
  easy message nonce publicKey privateKey :=
    if message = chatMessage ∧ nonce = sampleNonce ∧ publicKey = bobPublicKey ∧
      privateKey = alicePrivateKey then some chatCiphertext else none
  openEasy box nonce publicKey privateKey :=
    if box = chatCiphertext ∧ nonce = sampleNonce ∧ publicKey = alicePublicKey ∧
      privateKey = bobPrivateKey then some chatMessage else none
  openEasy_length box nonce publicKey privateKey message h := by
    split at h
    · next hbox =>
      obtain rfl := Option.some.inj h
      rw [hbox.1]
      rfl
    · cases h

theorem chatBox_length (message nonce publicKey privateKey ciphertext : Bytes)
    (h : chatBox.easy message nonce publicKey privateKey = some ciphertext) :
    ciphertext.length = message.length + cryptoBoxMacBytes := by
  change (if message = chatMessage ∧ nonce = sampleNonce ∧ publicKey = bobPublicKey ∧
    privateKey = alicePrivateKey then some chatCiphertext else none) = some ciphertext at h
  split at h
  · next hin =>
    obtain rfl := Option.some.inj h
    rw [hin.1]
    rfl
  · cases h

def chatSender : ClientConfig where
  directory := downloadDirectory
  pid := aliceClient.pid
  box := chatBox
  privateKey := alicePrivateKey
  publicKey := aliceClient.publicKey
  easy_length := chatBox_length

def chatRecipient : ReceiverConfig := { bobConfig with box := chatBox }

/-- The relay's frames: the box announced as a file `a`. -/
def chatBegin : Bytes :=
  FrameType.fileBegin.toByte :: (writeU32 1 ++ writeU64 91 ++ writeU16 5 ++ writeU16 1 ++
    ascii "alice" ++ ascii "a")

def chatChunk : Bytes :=
  FrameType.fileChunk.toByte :: (writeU32 1 ++ (fileCryptoMagic ++
    (alicePublicKey ++ (sampleNonce ++ chatCiphertext))))

def chatStaged : Receiver :=
  [chatBegin, chatChunk].foldl
    (fun r frame => (r.handleIncomingFileFrame chatRecipient {} frame).2) (.start emptyStore)

/-- The transfer is complete and its box opens, and no file comes of it. -/
theorem chat_never_saved_as_file_magic : (receiver chatRecipient emptyStore).Reachable chatStaged ∧
    openEnvelope chatRecipient (ascii "a") (fileCryptoMagic ++
      (alicePublicKey ++ (sampleNonce ++ chatCiphertext))) = .error .EBADMSG ∧
    ∃ e, chatStaged.receiveFileEnd chatRecipient {} sampleEnd =
      (.error e, chatStaged.discardIncomingFile none ⟨0, by decide⟩) := by
  have hrun : (receiver chatRecipient emptyStore).run (receiver chatRecipient emptyStore).init
      [.frame {} chatBegin, .frame {} chatChunk] = some chatStaged := rfl
  have hreach := Transition.System.Reachable.run .init hrun
  have heasy : chatSender.box.easy chatMessage sampleNonce bobPublicKey chatSender.privateKey =
      some chatCiphertext := by decide +kernel
  have hparse : parseCommand (ascii "/msg bob CCFILE01 hi") =
      .privateMessage (ascii "bob") chatMessage := by decide +kernel
  have hsaved := (chat_never_saved_as_file (by decide +kernel) hparse chatSender chatRecipient
    bobPublicKey ⟨sampleNonce, sampleNonce_length⟩ ?_ heasy emptyStore hreach).2 {} sampleEnd 1
      ⟨0, by decide⟩
      (by decide +kernel) (by decide +kernel) ?_
  · exact ⟨hreach, by decide +kernel, hsaved.1⟩
  · intro ciphertext opened _ hopen
    change (if ciphertext = chatCiphertext ∧ sampleNonce = sampleNonce ∧
      alicePublicKey = alicePublicKey ∧ bobPrivateKey = bobPrivateKey then
        some chatMessage else none) = some opened at hopen
    split at hopen
    · exact (Option.some.inj hopen).symm
    · cases hopen
  · exact ⟨fileCryptoMagic ++ (alicePublicKey ++ (sampleNonce ++ chatCiphertext)),
      by decide +kernel, rfl⟩

theorem receivePrivateChat_large {cfg : ReceiverConfig} {sender nonce publicKey ciphertext : Bytes}
    (hsender : sender.length < 256) (hnonce : nonce.length = cryptoBoxNonceBytes)
    (hkey : publicKey.length = cryptoBoxPublicKeyBytes)
    (hlong : cryptoBoxMacBytes + chatMaxMessageSize < ciphertext.length) :
    ∃ e, receivePrivateChat cfg (privateChatPayload sender nonce publicKey ciphertext) =
      .error e := by
  have hhead : ((privateChatPayload sender nonce publicKey ciphertext).headD 0).toNat =
      sender.length := by
    change (UInt8.ofNat sender.length).toNat = _
    rw [UInt8.toNat_ofNat', Nat.mod_eq_of_lt hsender]
  have hbox : (privateChatPayload sender nonce publicKey ciphertext).drop
      (1 + sender.length + cryptoBoxNonceBytes + cryptoBoxPublicKeyBytes) = ciphertext := by
    rw [privateChatPayload, ← List.drop_drop, ← List.drop_drop, ← List.drop_drop, List.drop_one,
      List.tail_cons, List.drop_left, List.drop_left' hnonce, List.drop_left' hkey]
  unfold receivePrivateChat
  dsimp only
  split
  · exact ⟨_, rfl⟩
  split
  · exact ⟨_, rfl⟩
  split
  · exact ⟨_, rfl⟩
  · rw [hhead, hbox, if_pos hlong]
    exact ⟨_, rfl⟩

/-- `receive_private_chat` fails and nothing is displayed. -/
def RejectsChat (peer : ClientConfig) (payload : Bytes) : Prop :=
  (∃ e, receivePrivateChat peer.toReceiverConfig payload = .error e) ∧
    ∀ s, handleServerFrame peer s (FrameType.ciphertext.toByte :: payload) = pure s

theorem rejectsChat_iff {peer : ClientConfig} {payload : Bytes} : RejectsChat peer payload ↔
    ∃ e, receivePrivateChat peer.toReceiverConfig payload = .error e := by
  refine ⟨fun h => h.1, fun h => ⟨h, fun s => ?_⟩⟩
  obtain ⟨e, he⟩ := h
  rw [handleServerFrame_ciphertext, he]

theorem filePlaintext_length (filename content : Bytes) :
    (filePlaintext filename content).length = 10 + filename.length + content.length := by
  have hmagic : fileCryptoMagic.length = 8 := rfl
  simp only [filePlaintext, List.length_append, writeU16_length, hmagic]

/-- The recipient of a file rejects its box as a message, under every name, if and only
if the plaintext is longer than any message. -/
theorem file_rejected_as_chat_iff {env : SendEnv} {cfg peer : ClientConfig}
    {recipient path recipientPublicKey filename encrypted : Bytes} {encryptedLength : ℕ}
    (hsend : sealFile env cfg recipient path recipientPublicKey =
      .ok (filename, encrypted, encryptedLength))
    (hmatch : ∀ message nonce ciphertext,
      cfg.box.easy message nonce recipientPublicKey cfg.privateKey = some ciphertext →
        peer.box.openEasy ciphertext nonce cfg.publicKey.val peer.privateKey = some message)
    {key nonce box : Bytes} (hsplit : encrypted = fileCryptoMagic ++ key ++ nonce ++ box)
    (hkey : key.length = cryptoBoxPublicKeyBytes) (hnonce : nonce.length = cryptoBoxNonceBytes) :
    (∀ sender, sender.length < 256 → RejectsChat peer (privateChatPayload sender nonce key box)) ↔
      65536 < 10 + filename.length + env.content.length := by
  obtain ⟨-, -, -, -, ciphertext, heasy, henvelope, -⟩ := encryptFile_ok hsend
  have c1 := cryptoBoxMacBytes_eq
  have c2 := chatMaxMessageSize_eq
  -- the three fields are the ones `send_file` wrote
  rw [henvelope, fileEnvelope] at hsplit
  simp only [List.append_assoc, List.append_cancel_left_eq] at hsplit
  obtain ⟨rfl, hrest⟩ := List.append_inj hsplit (cfg.publicKey.property.trans hkey.symm)
  obtain ⟨rfl, rfl⟩ := List.append_inj hrest (env.nonce.property.trans hnonce.symm)
  have hlength := cfg.easy_length _ _ _ _ _ heasy
  rw [filePlaintext_length] at hlength
  constructor
  · intro hreject
    by_contra hshort
    have hvalid : usernameIsValid (ascii "alice") = true := by decide +kernel
    obtain ⟨e, he⟩ := rejectsChat_iff.mp (hreject (ascii "alice") (by decide))
    rw [receivePrivateChat_payload _ hvalid hnonce hkey (by omega), if_neg (by omega),
      hmatch _ _ _ heasy] at he
    cases he
  · intro hlong sender hsender
    exact rejectsChat_iff.mpr (receivePrivateChat_large hsender hnonce hkey (by omega))

/-- The file `a` of the sample, as `send_file` finds it. -/
def sampleSendEnv : SendEnv where
  size := 2
  content := ascii "hi"
  nonce := ⟨sampleNonce, sampleNonce_length⟩

theorem sealFile_sample : sealFile sampleSendEnv aliceClient (ascii "bob")
    (ascii "a") bobPublicKey =
    .ok (ascii "a", sampleEnvelope, 93) := by
  decide +kernel

theorem file_rejected_as_chat_iff_sample :
    (∀ sender, sender.length < 256 →
      RejectsChat bobClient (privateChatPayload sender sampleNonce alicePublicKey
        sampleCiphertext)) ↔
        65536 < 10 + (ascii "a").length + (ascii "hi").length :=
  file_rejected_as_chat_iff sealFile_sample sampleBox_matches rfl rfl rfl

/-- The file `a` with the content `hi`, displayed as a message of Mallory's. -/
theorem file_displayed_as_chat :
    sealFile sampleSendEnv aliceClient (ascii "bob") (ascii "a") bobPublicKey =
      .ok (ascii "a", sampleEnvelope, 93) ∧
    sampleEnvelope = fileCryptoMagic ++ alicePublicKey ++ sampleNonce ++ sampleCiphertext ∧
    receivePrivateChat bobConfig (privateChatPayload (ascii "mallory") sampleNonce alicePublicKey
      sampleCiphertext) = .ok (ascii "mallory", sampleMessage) ∧
    ¬RejectsChat bobClient (privateChatPayload (ascii "mallory") sampleNonce alicePublicKey
      sampleCiphertext) := by
  have hreceive : receivePrivateChat bobConfig (privateChatPayload (ascii "mallory") sampleNonce
      alicePublicKey sampleCiphertext) = .ok (ascii "mallory", sampleMessage) := by decide +kernel
  refine ⟨sealFile_sample, rfl, hreceive, fun hreject => ?_⟩
  obtain ⟨e, he⟩ := hreject.1
  cases hreceive.symm.trans he

end CipherChat
