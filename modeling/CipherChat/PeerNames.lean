import CipherChat.CommandGrammar
import CipherChat.Keys
import CipherChat.PrivateChat

/-!
# Names

The rule for a name is written four times: for a login, for a key request or an encrypted
message, for a file, and in the client for the sender of a message.  The four agree, so a
user who is logged in is reached by every frame and every command that can name one.
-/

namespace CipherChat

open Resumption Prog

theorem isCntrl_zero : isCntrl 0 = true := rfl

theorem validPeerName_iff_usernameIsValid {name : Bytes} :
    validPeerName name = true ↔ 0 ∉ name ∧ usernameIsValid name = true := by
  rw [validPeerName_iff, usernameIsValid_iff]
  constructor
  · rintro ⟨h0, h1, hall⟩
    exact ⟨fun hmem => (hall 0 hmem).1 rfl, h0, h1, fun b hb => ⟨(hall b hb).2.2, (hall b hb).2.1⟩⟩
  · rintro ⟨hzero, h0, h1, hall⟩
    refine ⟨h0, h1, fun b hb => ⟨?_, (hall b hb).2, (hall b hb).1⟩⟩
    rintro rfl
    exact hzero hb

theorem usernameIsValid_no_zero {name : Bytes} (h : usernameIsValid name = true) : 0 ∉ name := by
  intro hmem
  have hctl := ((usernameIsValid_iff.mp h).2.2 0 hmem).1
  rw [isCntrl_zero] at hctl
  cases hctl

theorem copyPeerName_iff {name : Bytes} :
    copyPeerName name = some name ↔ usernameIsValid name = true := by
  refine ⟨fun h => ?_, copyPeerName_of_valid⟩
  unfold copyPeerName at h
  split_ifs at h with hlen hbad
  rw [not_or] at hlen
  refine usernameIsValid_iff.mpr ⟨hlen.1, not_le.mp hlen.2, fun b hb => ?_⟩
  have hclean : ¬(isSpace b || isCntrl b) = true := fun h => hbad (List.any_eq_true.mpr ⟨b, hb, h⟩)
  rw [Bool.not_eq_true, Bool.or_eq_false_iff] at hclean
  exact ⟨hclean.2, hclean.1⟩

/-- A client shows some private message as coming from `name`. -/
def SenderAccepted (name : Bytes) : Prop :=
  ∃ cfg frame message, receivePrivateChat cfg frame = .ok (name, message)

theorem usernameIsValid_of_received {cfg : ReceiverConfig} {frame name message : Bytes}
    (h : receivePrivateChat cfg frame = .ok (name, message)) : usernameIsValid name = true := by
  unfold receivePrivateChat at h
  dsimp only at h
  split_ifs at h with hshort hlen hbad hlong
  split at h
  · cases h
  next hopen =>
  obtain rfl := (Prod.mk.inj (Except.ok.inj h)).1
  simp only [not_or] at hlen
  have hname : ((frame.drop 1).take (frame.headD 0).toNat).length = (frame.headD 0).toNat := by
    rw [List.length_take, List.length_drop]
    omega
  refine usernameIsValid_iff.mpr ⟨by rw [hname]; exact hlen.1, by rw [hname]; omega, fun b hb => ?_⟩
  have hclean : ¬(isSpace b || isCntrl b) = true := fun h => hbad (List.any_eq_true.mpr ⟨b, hb, h⟩)
  rw [Bool.not_eq_true, Bool.or_eq_false_iff] at hclean
  exact ⟨hclean.2, hclean.1⟩

def openBox : CryptoBox where
  easy _ _ _ _ := none
  openEasy box _ _ _ := if box.length = cryptoBoxMacBytes then some [] else none
  openEasy_length box nonce publicKey privateKey message h := by
    split at h
    · next hbox =>
      obtain rfl := Option.some.inj h
      rw [hbox]
      rfl
    · cases h

theorem senderAccepted_iff {name : Bytes} : SenderAccepted name ↔ usernameIsValid name = true := by
  constructor
  · rintro ⟨cfg, frame, message, h⟩
    exact usernameIsValid_of_received h
  · intro h
    let cfg : ReceiverConfig := { Receiver.bobConfig with box := openBox }
    have hmac : (List.replicate cryptoBoxMacBytes (0 : UInt8)).length = cryptoBoxMacBytes :=
      List.length_replicate
    have hreceive := receivePrivateChat_payload cfg h Receiver.sampleNonce_length
      Receiver.alicePublicKey_length hmac.ge
    rw [hmac, if_neg (by rw [cryptoBoxMacBytes]; omega)] at hreceive
    exact ⟨cfg, _, [], hreceive⟩

/-- What names `w` looks it up, and nothing else of it: a key request, an encrypted message whose
sender's key is the registered one, a file, and the two commands. -/
structure Addressable (w : Bytes) : Prop where
  request : ∀ c u, ∃ k, handleClientFrame c u (FrameType.requestPk.toByte :: w) =
    .op (.findClientId w) k
  ciphertext : ∀ c u nonce publicKey box, usernameIsValid u = true →
    nonce.length = cryptoBoxNonceBytes → publicKey.length = cryptoBoxPublicKeyBytes →
    cryptoBoxMacBytes ≤ box.length → box.length ≤ chatMaxMessageSize + cryptoBoxMacBytes →
    ∃ k k', handleClientFrame c u
        (FrameType.ciphertext.toByte :: privateChatPayload w nonce publicKey box) =
      .op (.getClientPublicKey c) k ∧ k (some publicKey) = .op (.findClientId w) k'
  file : ∀ c u transferId fileSize filename, c ≠ invalidClientId → validPeerName u = true →
    validFilename filename = true →
    ∃ payload k, encodeBegin fileBeginPayloadMaxSize transferId fileSize w filename = .ok payload ∧
      handleClientFrame c u (FrameType.fileBegin.toByte :: payload) = .op (.findClientId w) k
  message : ∀ m, Body m → parseCommand (ascii "/msg " ++ (w ++ 32 :: m)) =
    .privateMessage w (removeLineEnding m)
  filepath : ∀ p, Body p → ∃ path, parseCommand (ascii "/file " ++ (w ++ 32 :: p)) =
    .fileTransfer w path

theorem handleRequestPk_valid {w : Bytes} (h : usernameIsValid w = true) (c : ClientId)
    (u : Bytes) :
    ∃ k, handleClientFrame c u (FrameType.requestPk.toByte :: w) = .op (.findClientId w) k := by
  rw [handleClientFrame, List.head?_cons, Option.bind_some, FrameType.ofByte_toByte]
  dsimp only
  rw [List.drop_one, List.tail_cons, handleRequestPk, copyPeerName_of_valid h]
  exact ⟨_, rfl⟩

theorem handleFileBegin_valid {w : Bytes} (h : validPeerName w = true) {c : ClientId} {u : Bytes}
    (hc : c ≠ invalidClientId) (hu : validPeerName u = true) (transferId : UInt32)
    (fileSize : UInt64) {filename : Bytes} (hf : validFilename filename = true) :
    ∃ payload k, encodeBegin fileBeginPayloadMaxSize transferId fileSize w filename = .ok payload ∧
      handleClientFrame c u (FrameType.fileBegin.toByte :: payload) = .op (.findClientId w) k := by
  obtain ⟨hu0, hu1, -⟩ := validPeerName_iff.mp hu
  obtain ⟨-, hw1, -⟩ := validPeerName_iff.mp h
  obtain ⟨-, hf1, -⟩ := validFilename_iff.mp hf
  have c1 := usernameSize_eq
  have c2 := fileNameMaxLength_eq
  have c3 := frameMaxSize_eq
  have henc : ∃ payload, encodeBegin fileBeginPayloadMaxSize transferId fileSize w filename =
      .ok payload ∧ payload.length = 16 + w.length + filename.length := by
    refine ⟨_, encodeBegin_eq h hf, ?_⟩
    simp only [List.length_append, writeU32_length, writeU64_length, writeU16_length]
  obtain ⟨payload, henc, hlen⟩ := henc
  refine ⟨payload, ?_⟩
  rw [handleClientFrame_file ⟨.fileBegin, by simp, rfl⟩, routeFileFrame,
    if_neg (by simp [hc]), if_neg (by rw [List.length_cons]; omega), List.head?_cons,
    Option.bind_some, FrameType.ofByte_toByte]
  dsimp only
  rw [handleFileBegin, if_neg (by simp [hu, hu0]; omega), decodeBegin_encodeBegin henc]
  exact ⟨_, henc, rfl⟩

theorem removeLineEnding_body {m : Bytes} (hm : Body m) : Body (removeLineEnding m) := by
  obtain ⟨space, hsplit, hspace⟩ := removeLineEnding_append m
  cases hcut : removeLineEnding m with
  | nil =>
    rw [hcut, List.nil_append] at hsplit
    exact absurd (eq_nil_of_flush_apart hm.1 (hsplit ▸ Blank.apart hspace)) hm.2
  | cons b rest =>
    rw [hcut] at hsplit
    refine ⟨fun c hc => hm.1 c ?_, List.cons_ne_nil _ _⟩
    rw [hsplit]
    exact hc

theorem removeLineEnding_append_body (text : Bytes) {m : Bytes} (hm : Body m) :
    removeLineEnding (text ++ m) = text ++ removeLineEnding m := by
  have hne := (removeLineEnding_body hm).2
  rw [removeLineEnding, List.rdropWhile, Ne, List.reverse_eq_nil_iff] at hne
  rw [removeLineEnding, List.rdropWhile, List.reverse_append, List.dropWhile_append,
    if_neg (by simpa using hne), List.reverse_append, List.reverse_reverse]
  rfl

theorem name_of_valid {w : Bytes} (h : usernameIsValid w = true) : Name w := by
  obtain ⟨h0, h1, hall⟩ := usernameIsValid_iff.mp h
  exact ⟨fun b hb => (hall b hb).2, fun hnil => h0 (by rw [hnil]; rfl), h1⟩

theorem gap_space : Gap [32] := by
  refine ⟨fun b hb => ?_, List.cons_ne_nil _ _⟩
  rw [List.mem_singleton.mp hb]
  rfl

theorem ascii_msg_space : ascii "/msg " = ascii "/msg" ++ [32] := by
  rw [show ascii "/msg " = _ from ascii_ofList _, show ascii "/msg" = _ from ascii_ofList _]
  rfl

theorem ascii_file_space : ascii "/file " = ascii "/file" ++ [32] := by
  rw [show ascii "/file " = _ from ascii_ofList _, show ascii "/file" = _ from ascii_ofList _]
  rfl

theorem blank_nil : Blank [] := by
  intro b hb
  cases hb

theorem parseCommand_msg_valid {w m : Bytes} (h : usernameIsValid w = true) (hm : Body m) :
    parseCommand (ascii "/msg " ++ (w ++ 32 :: m)) = .privateMessage w (removeLineEnding m) := by
  refine parseCommand_of_spells (.privateMessage blank_nil gap_space (name_of_valid h) gap_space
    (removeLineEnding_body hm)) ?_
  have hline : ascii "/msg " ++ (w ++ 32 :: m) = (ascii "/msg" ++ ([32] ++ (w ++ [32]))) ++ m := by
    rw [ascii_msg_space]
    simp
  rw [hline, removeLineEnding_append_body _ hm]
  simp

theorem parseCommand_file_valid {w p : Bytes} (h : usernameIsValid w = true) (hp : Body p) :
    ∃ path, parseCommand (ascii "/file " ++ (w ++ 32 :: p)) = .fileTransfer w path := by
  obtain ⟨e, he, hsplit, hpath, hend⟩ := path_blank (removeLineEnding_body hp)
  refine ⟨_, parseCommand_of_spells (.fileTransfer blank_nil gap_space (name_of_valid h) gap_space
    hpath hend he) ?_⟩
  have hline : ascii "/file " ++ (w ++ 32 :: p) =
      (ascii "/file" ++ ([32] ++ (w ++ [32]))) ++ p := by
    rw [ascii_file_space]
    simp
  rw [hline, removeLineEnding_append_body _ hp]
  conv_lhs => rw [hsplit]
  simp

theorem addressable_of_valid {w : Bytes} (h : usernameIsValid w = true) : Addressable w where
  request := handleRequestPk_valid h
  ciphertext c u nonce publicKey box hu hnonce hkey hmin hmax := by
    have hrelay : ∃ k', ((if some publicKey ≠ some publicKey then
          sendInvalidCommand c (ascii "encrypted message sender key")
        else relayCiphertext c w (privateChatPayload u nonce publicKey box)) >>= fun _ =>
        (pure true : Handler Bool)) = .op (.findClientId w) k' := by
      rw [if_neg (not_not.mpr rfl)]
      exact ⟨_, rfl⟩
    obtain ⟨k', hk'⟩ := hrelay
    rw [handleClientFrame_ciphertext, handleCiphertext_payload h hu hnonce hkey hmin hmax]
    exact ⟨_, k', rfl, hk'⟩
  file c u transferId fileSize filename hc hu hf := handleFileBegin_valid
    (validPeerName_iff_usernameIsValid.mpr ⟨usernameIsValid_no_zero h, h⟩) hc hu transferId
    fileSize hf
  message _ := parseCommand_msg_valid h
  filepath _ := parseCommand_file_valid h

theorem ClientManager.Inv.findClientId_eq {m : ClientManager} (h : m.Inv) {i : Fin maxClients}
    (hactive : (m.clients i).active = true) (hready : (m.clients i).ready = true) :
    m.findClientId (m.clients i).username = (m.clients i).id := by
  unfold ClientManager.findClientId
  split
  · next j hj =>
    have hfound := Fin.eq_true_of_find?_eq_some hj
    simp only [Bool.and_eq_true, beq_iff_eq] at hfound
    rw [h.username_unique j i hfound.1.1 hactive hfound.2]
  · next hnone =>
    have hall := Fin.find?_eq_none_iff.mp hnone i
    simp [hactive, hready] at hall

/-- The four checks of a name agree.  In every reachable state, a name under which a client is
logged in is addressable, and is found as that client's once the client is ready. -/
theorem names_agree_and_resolve (w : Bytes) :
    (validPeerName w = true ↔ copyPeerName w = some w) ∧
    (validPeerName w = true ↔ 0 ∉ w ∧ usernameIsValid w = true) ∧
    (validPeerName w = true ↔ SenderAccepted w) ∧
    ∀ s, server.Reachable s → ∀ i, (s.shared.clients.clients i).active = true →
      (s.shared.clients.clients i).username = w → Addressable w ∧
      ((s.shared.clients.clients i).ready = true →
        s.shared.clients.findClientId w = (s.shared.clients.clients i).id) := by
  have hvalid : validPeerName w = true ↔ usernameIsValid w = true := by
    rw [validPeerName_iff_usernameIsValid]
    exact ⟨And.right, fun h => ⟨usernameIsValid_no_zero h, h⟩⟩
  refine ⟨hvalid.trans copyPeerName_iff.symm, validPeerName_iff_usernameIsValid,
    hvalid.trans senderAccepted_iff.symm, ?_⟩
  rintro s hs i hactive rfl
  have hinv := (Server.wf_of_reach hs).clients
  exact ⟨addressable_of_valid (hinv.username_valid i hactive), hinv.findClientId_eq hactive⟩

end CipherChat
