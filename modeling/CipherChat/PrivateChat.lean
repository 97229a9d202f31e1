import CipherChat.ClientLoop
import CipherChat.Sessions

/-!
# Private chat through the server

`send_private_chat` puts the recipient's name in front of the box, the server
replaces it by the sender's name, and `receive_private_chat` cuts that off.  The
three compute their lengths on their own.
-/

namespace CipherChat

open Resumption Prog Receiver

theorem ofNat_toNat_of_lt {n : ℕ} (h : n < usernameSize) : (UInt8.ofNat n).toNat = n := by
  have hsize := usernameSize_eq
  rw [UInt8.toNat_ofNat', Nat.mod_eq_of_lt (by omega)]

theorem usernameIsValid_iff {name : Bytes} : usernameIsValid name = true ↔
    name.length ≠ 0 ∧ name.length < usernameSize ∧
      ∀ b ∈ name, isCntrl b = false ∧ isSpace b = false := by
  simp [usernameIsValid, and_assoc]

theorem copyPeerName_of_valid {name : Bytes} (h : usernameIsValid name = true) :
    copyPeerName name = some name := by
  obtain ⟨h0, h1, hchars⟩ := usernameIsValid_iff.mp h
  rw [copyPeerName, if_neg (by omega), if_neg]
  rw [List.any_eq_true]
  rintro ⟨b, hb, hbad⟩
  simp [hchars b hb] at hbad

def relayCiphertext (clientId : ClientId) (recipient forwarded : Bytes) : Handler Unit := do
  let recipientId ← call (S := serverSig) (.findClientId recipient)
  match ← sendFrameToClientId recipientId .ciphertext forwarded with
  | .ok () => pure ()
  | .error _ => sendFormatted clientId (msgUserNotFound recipient)

section

variable {recipient sender nonce publicKey ciphertext : Bytes}

theorem privateChatPayload_length (recipient nonce publicKey ciphertext : Bytes) :
    (privateChatPayload recipient nonce publicKey ciphertext).length =
      1 + recipient.length + nonce.length + publicKey.length + ciphertext.length := by
  simp only [privateChatPayload, List.length_cons, List.length_append]
  omega

theorem handleCiphertext_payload {clientId : ClientId}
    (hrecipient : usernameIsValid recipient = true)
    (hsender : usernameIsValid sender = true) (hnonce : nonce.length = cryptoBoxNonceBytes)
    (hkey : publicKey.length = cryptoBoxPublicKeyBytes)
    (hmin : cryptoBoxMacBytes ≤ ciphertext.length)
    (hmax : ciphertext.length ≤ chatMaxMessageSize + cryptoBoxMacBytes) :
    handleCiphertext clientId sender (privateChatPayload recipient nonce publicKey ciphertext) =
      (call (S := serverSig) (.getClientPublicKey clientId) >>= fun key =>
        if key ≠ some publicKey then
          sendInvalidCommand clientId (ascii "encrypted message sender key")
        else relayCiphertext clientId recipient
          (privateChatPayload sender nonce publicKey ciphertext)) := by
  obtain ⟨hr0, hr1, -⟩ := usernameIsValid_iff.mp hrecipient
  obtain ⟨hs0, hs1, -⟩ := usernameIsValid_iff.mp hsender
  have hlength := privateChatPayload_length recipient nonce publicKey ciphertext
  have hencrypted : (nonce ++ (publicKey ++ ciphertext)).length =
      cryptoBoxNonceBytes + cryptoBoxPublicKeyBytes + ciphertext.length := by
    rw [List.length_append, List.length_append, hnonce, hkey]
    omega
  have c1 := usernameSize_eq
  have c2 := cryptoBoxNonceBytes_eq
  have c3 := cryptoBoxPublicKeyBytes_eq
  have c4 := cryptoBoxMacBytes_eq
  have c5 : chatOverhead = 73 := rfl
  have c6 := chatMaxMessageSize_eq
  have c7 := frameMaxSize_eq
  have c8 : chatNonceSize = 24 := rfl
  have c9 : chatPublicKeySize = 32 := rfl
  have c10 : chatMacSize = 16 := rfl
  -- what is read back from the payload: the length, the name, the key
  have hhead : ((privateChatPayload recipient nonce publicKey ciphertext).headD 0).toNat =
      recipient.length := ofNat_toNat_of_lt hr1
  have hname : ((privateChatPayload recipient nonce publicKey ciphertext).drop 1).take
      recipient.length = recipient := List.take_left
  have hrest : (privateChatPayload recipient nonce publicKey ciphertext).drop
      (1 + recipient.length) = nonce ++ (publicKey ++ ciphertext) := by
    rw [← List.drop_drop]
    exact List.drop_left
  have hclaimed : ((nonce ++ (publicKey ++ ciphertext)).drop chatNonceSize).take chatPublicKeySize =
      publicKey := by
    rw [List.drop_left' (by omega), List.take_left' (by omega)]
  unfold handleCiphertext
  dsimp only
  rw [hhead, if_neg (by omega), hname, copyPeerName_of_valid hrecipient]
  dsimp only
  rw [hrest, hencrypted, if_neg (by omega), hclaimed]
  congr 1
  funext key
  split
  · rfl
  · rw [if_neg (by omega)]
    rfl

/-- What a client does with a box behind an acceptable name. -/
theorem receivePrivateChat_payload (cfg : ReceiverConfig) (hsender : usernameIsValid sender = true)
    (hnonce : nonce.length = cryptoBoxNonceBytes)
    (hkey : publicKey.length = cryptoBoxPublicKeyBytes)
    (hmin : cryptoBoxMacBytes ≤ ciphertext.length) :
    receivePrivateChat cfg (privateChatPayload sender nonce publicKey ciphertext) =
      if cryptoBoxMacBytes + chatMaxMessageSize < ciphertext.length then .error .EMSGSIZE
      else
        match cfg.box.openEasy ciphertext nonce publicKey cfg.privateKey with
        | none => .error .EINVAL
        | some message => .ok (sender, message) := by
  obtain ⟨hs0, hs1, hchars⟩ := usernameIsValid_iff.mp hsender
  have hlength := privateChatPayload_length sender nonce publicKey ciphertext
  have c1 := cryptoBoxNonceBytes_eq
  have c2 := cryptoBoxPublicKeyBytes_eq
  have c3 := cryptoBoxMacBytes_eq
  have hhead : ((privateChatPayload sender nonce publicKey ciphertext).headD 0).toNat =
      sender.length := ofNat_toNat_of_lt hs1
  have hname : ((privateChatPayload sender nonce publicKey ciphertext).drop 1).take
      sender.length = sender := List.take_left
  have hclean : ¬(sender.any fun b => isSpace b || isCntrl b) = true := by
    rw [List.any_eq_true]
    rintro ⟨b, hb, hbad⟩
    simp [hchars b hb] at hbad
  have hrest : (privateChatPayload sender nonce publicKey ciphertext).drop (1 + sender.length) =
      nonce ++ (publicKey ++ ciphertext) := by
    rw [← List.drop_drop]
    exact List.drop_left
  have hrestKey : (privateChatPayload sender nonce publicKey ciphertext).drop
      (1 + sender.length + cryptoBoxNonceBytes) = publicKey ++ ciphertext := by
    rw [← List.drop_drop, hrest, List.drop_left' hnonce]
  have hrestBox : (privateChatPayload sender nonce publicKey ciphertext).drop
      (1 + sender.length + cryptoBoxNonceBytes + cryptoBoxPublicKeyBytes) = ciphertext := by
    rw [← List.drop_drop, hrestKey, List.drop_left' hkey]
  unfold receivePrivateChat
  dsimp only
  rewrite [if_neg (by omega), hhead, if_neg (by omega), hname, if_neg hclean, hrest, hrestKey,
    hrestBox,
    List.take_left' hnonce, List.take_left' hkey]
  rfl

end

theorem sendPrivateChat_eq {cfg : ClientConfig}
    {recipient message nonce recipientPublicKey ciphertext : Bytes} (h0 : recipient.length ≠ 0)
    (h1 : recipient.length < usernameSize) (hlength : message.length ≤ chatMaxMessageSize)
    (heasy : cfg.box.easy message nonce recipientPublicKey cfg.privateKey = some ciphertext) :
    sendPrivateChat cfg recipient message nonce recipientPublicKey =
      (call (S := clientSig) .malloc >>= fun address =>
        match address with
        | none => pure (.error .ENOMEM)
        | some _ => sendFrame .ciphertext
          (privateChatPayload recipient nonce cfg.publicKey.val ciphertext)) := by
  rewrite [sendPrivateChat, if_neg (by omega), if_neg (by omega), heasy]
  rfl

theorem handleClientFrame_ciphertext (clientId : ClientId) (username payload : Bytes) :
    handleClientFrame clientId username (FrameType.ciphertext.toByte :: payload) = (do
      handleCiphertext clientId username payload
      pure true) := by
  rw [handleClientFrame, List.head?_cons, Option.bind_some, FrameType.ofByte_toByte]
  rfl

theorem handleServerFrame_ciphertext (cfg : ClientConfig) (s : ClientState) (payload : Bytes) :
    handleServerFrame cfg s (FrameType.ciphertext.toByte :: payload) =
      (match receivePrivateChat cfg.toReceiverConfig payload with
      | .error _ => pure s
      | .ok (sender, message) =>
        call (S := clientSig) (.displayPrivateMessage sender message) >>= fun _ => pure s) := by
  rw [handleServerFrame, List.head?_cons, Option.bind_some, FrameType.ofByte_toByte]
  rfl

theorem ClientManager.Inv.findClientId_ne {m : ClientManager} (h : m.Inv) {i : Fin maxClients}
    (hactive : (m.clients i).active = true) (hready : (m.clients i).ready = true) :
    m.findClientId (m.clients i).username ≠ invalidClientId := by
  unfold ClientManager.findClientId
  split
  · next j hj =>
    have hfound := Fin.eq_true_of_find?_eq_some hj
    simp only [Bool.and_eq_true] at hfound
    exact h.id_ne j hfound.1.1
  · next hnone =>
    have hall := Fin.find?_eq_none_iff.mp hnone i
    simp [hactive, hready] at hall

/-- A message of up to 64 KiB reaches every client that the registry holds as ready:
the frame fits, no check of the server rejects it, the relayed frame fits, and the
recipient displays the same bytes under the sender's login name. -/
theorem private_chat_round_trip {s : Server} (hs : server.Reachable s) {i : Fin maxClients}
    (hready : (s.shared.clients.clients i).active = true ∧
      (s.shared.clients.clients i).ready = true)
    {clientId : ClientId} {sender : Bytes} (hsender : usernameIsValid sender = true)
    (cfg peer : ClientConfig) (recipientPublicKey : Bytes)
    (hmatch : ∀ message nonce ciphertext,
      cfg.box.easy message nonce recipientPublicKey cfg.privateKey = some ciphertext →
        peer.box.openEasy ciphertext nonce cfg.publicKey.val peer.privateKey = some message)
    (hregistered : s.shared.clients.getClientPublicKey clientId = some cfg.publicKey.val)
    (nonce : { n : Bytes // n.length = cryptoBoxNonceBytes }) (message : Bytes)
    (hlength : message.length ≤ chatMaxMessageSize) {ciphertext : Bytes}
    (heasy : cfg.box.easy message nonce.val recipientPublicKey cfg.privateKey = some ciphertext) :
    let recipient := (s.shared.clients.clients i).username
    let payload := privateChatPayload recipient nonce.val cfg.publicKey.val ciphertext
    let forwarded := privateChatPayload sender nonce.val cfg.publicKey.val ciphertext
    sendPrivateChat cfg recipient message nonce.val recipientPublicKey =
        (call (S := clientSig) .malloc >>= fun address =>
          match address with
          | none => pure (.error .ENOMEM)
          | some _ => sendFrame .ciphertext payload) ∧
      payload.length ≤ frameMaxSize - 1 ∧
      handleClientFrame clientId sender (FrameType.ciphertext.toByte :: payload) =
        (do
          call (S := serverSig) (.getClientPublicKey clientId) >>= fun key =>
            if key ≠ some cfg.publicKey.val then
              sendInvalidCommand clientId (ascii "encrypted message sender key")
            else relayCiphertext clientId recipient forwarded
          pure true) ∧
      (∀ libc, (perform libc s.shared (.getClientPublicKey clientId)).1 =
          some cfg.publicKey.val ∧
        (perform libc s.shared (.findClientId recipient)).1 ≠ invalidClientId) ∧
      forwarded.length ≤ frameMaxSize - 1 ∧
      ∀ state, handleServerFrame peer state (FrameType.ciphertext.toByte :: forwarded) =
        (do
          call (S := clientSig) (.displayPrivateMessage sender message)
          pure state) := by
  intro recipient payload forwarded
  have hrecipient : usernameIsValid recipient = true :=
    (Server.wf_of_reach hs).clients.username_valid i hready.1
  obtain ⟨hr0, hr1, -⟩ := usernameIsValid_iff.mp hrecipient
  obtain ⟨hs0, hs1, -⟩ := usernameIsValid_iff.mp hsender
  have hopen := hmatch _ _ _ heasy
  have hbox := peer.box.openEasy_length _ _ _ _ _ hopen
  have c1 := cryptoBoxNonceBytes_eq
  have c2 := cryptoBoxPublicKeyBytes_eq
  have c3 := cryptoBoxMacBytes_eq
  have c4 := chatMaxMessageSize_eq
  have c5 := frameMaxSize_eq
  have c6 := usernameSize_eq
  have hnonce := nonce.property
  have hkey := cfg.publicKey.property
  refine ⟨?_, ?_, ?_, ?_, ?_, ?_⟩
  -- what the sender builds, then the server's answer, then the receiver's
  · exact sendPrivateChat_eq hr0 hr1 hlength heasy
  · rw [privateChatPayload_length]
    omega
  · have hframe := handleClientFrame_ciphertext clientId sender payload
    rwa [handleCiphertext_payload hrecipient hsender hnonce hkey (by omega) (by omega)] at hframe
  · intro libc
    simp only [perform]
    refine ⟨hregistered, ?_⟩
    exact (Server.wf_of_reach hs).clients.findClientId_ne hready.1 hready.2
  · rw [privateChatPayload_length]
    omega
  · intro state
    have hreceive := receivePrivateChat_payload peer.toReceiverConfig hsender hnonce hkey
      (by omega : cryptoBoxMacBytes ≤ ciphertext.length)
    rw [if_neg (by omega), hopen] at hreceive
    rw [handleServerFrame_ciphertext, hreceive]

theorem sampleBox_matches (message nonce ciphertext : Bytes)
    (h : aliceClient.box.easy message nonce bobPublicKey aliceClient.privateKey = some ciphertext) :
    bobClient.box.openEasy ciphertext nonce aliceClient.publicKey.val bobClient.privateKey =
      some message := by
  have heasy : (if message = sampleMessage ∧ nonce = sampleNonce ∧ bobPublicKey = bobPublicKey ∧
    alicePrivateKey = alicePrivateKey then some sampleCiphertext else none) = some ciphertext := h
  split at heasy
  · next hin =>
    obtain rfl := Option.some.inj heasy
    rw [hin.1, hin.2.1]
    rfl
  · cases heasy

/-- Bob is ready and Alice has registered her key. -/
theorem private_chat_round_trip_sample : ∃ s, server.Reachable s ∧
    s.shared.clients.findClientId (ascii "bob") = 1 ∧
    s.shared.clients.getClientPublicKey 2 = some alicePublicKey ∧
    ∀ state, handleServerFrame bobClient state (FrameType.ciphertext.toByte ::
        privateChatPayload (ascii "alice") sampleNonce alicePublicKey sampleCiphertext) =
      (do
        call (S := clientSig) (.displayPrivateMessage (ascii "alice") sampleMessage)
        pure state) := by
  have hrun : (server.run server.init (loginLabels 1 (ascii "bob") ++
    loginLabels 0 (ascii "alice") ++
      frameLabels 0 (FrameType.registerPk.toByte :: alicePublicKey) ++ stepLabels 0 [none])).map
        (fun s => ((s.shared.clients.clients ⟨0, by decide⟩).active,
          (s.shared.clients.clients ⟨0, by decide⟩).ready,
          s.shared.clients.findClientId (ascii "bob"), s.shared.clients.getClientPublicKey 2)) =
      some (true, true, 1, some alicePublicKey) := by
    decide +kernel
  obtain ⟨s, hs, hstate⟩ := Option.map_eq_some_iff.mp hrun
  obtain ⟨hactive, hrest⟩ := Prod.mk.inj hstate
  obtain ⟨hready, hrest⟩ := Prod.mk.inj hrest
  obtain ⟨hfind, hkey⟩ := Prod.mk.inj hrest
  have hreach := Transition.System.Reachable.run .init hs
  have hsender : usernameIsValid (ascii "alice") = true := by decide +kernel
  have heasy : aliceClient.box.easy sampleMessage sampleNonce bobPublicKey aliceClient.privateKey =
      some sampleCiphertext := by decide +kernel
  have htrip := private_chat_round_trip hreach ⟨hactive, hready⟩ hsender aliceClient bobClient
    bobPublicKey sampleBox_matches hkey ⟨sampleNonce, sampleNonce_length⟩ sampleMessage
      (by decide +kernel) heasy
  exact ⟨s, hreach, hfind, hkey, htrip.2.2.2.2.2⟩

end CipherChat
