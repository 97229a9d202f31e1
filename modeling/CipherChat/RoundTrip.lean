import CipherChat.ClientFileSender
import CipherChat.IncomingTable

/-!
# From one client's disk to another's

What `send_file` sends, relabelled as the server relays it, is what the receiver
stages, opens and saves.
-/

namespace CipherChat

def relabel (transferId : UInt32) (sender frame : Bytes) : Bytes :=
  match decodeBegin frame with
  | some b => beginFrame transferId b.fileSize sender b.filename
  | none => frame.take 1 ++ writeU32 transferId ++ frame.drop 5

theorem relabel_beginFrame {o o' : UInt32} {size : UInt64} {peer filename : Bytes}
    (hp : validPeerName peer = true) (hf : validFilename filename = true) (sender : Bytes) :
    relabel o' sender (beginFrame o size peer filename) = beginFrame o' size sender filename := by
  rw [relabel, decodeBegin_beginFrame hp hf]

theorem relabel_of_ne {frame : Bytes} (h : frame.head? ≠ some FrameType.fileBegin.toByte)
    (o : UInt32) (sender : Bytes) :
    relabel o sender frame = frame.take 1 ++ writeU32 o ++ frame.drop 5 := by
  cases hb : decodeBegin frame with
  | none => rw [relabel, hb]
  | some b => exact absurd (decodeBegin_some hb).1 h

theorem relabel_chunkFrame (o o' : UInt32) (sender data : Bytes) :
    relabel o' sender (chunkFrame o data) = chunkFrame o' data := by
  have hdrop : (writeU32 o ++ data).drop 4 = data := List.drop_left' (writeU32_length o)
  rw [relabel_of_ne (by simp [chunkFrame, FrameType.toByte]), chunkFrame, List.drop_succ_cons,
    hdrop]
  rfl

theorem relabel_endFrame (o o' : UInt32) (sender : Bytes) :
    relabel o' sender (endFrame o) = endFrame o' := by
  have hdrop : (writeU32 o).drop 4 = [] := List.drop_of_length_le (by simp)
  rw [relabel_of_ne (by simp [endFrame, FrameType.toByte]), endFrame, List.drop_succ_cons, hdrop,
    List.append_nil]
  rfl

theorem relabel_fileFrames {o o' : UInt32} {size : UInt64} {peer filename encrypted : Bytes}
    (hp : validPeerName peer = true) (hf : validFilename filename = true) (sender : Bytes) :
    (fileFrames o peer filename size encrypted).map (relabel o' sender) =
      fileFrames o' sender filename size encrypted := by
  have hchunks : (fileChunks encrypted 0).map (relabel o' sender ∘ chunkFrame o) =
      (fileChunks encrypted 0).map (chunkFrame o') :=
    List.map_congr_left fun c _ => relabel_chunkFrame o o' sender c
  rw [fileFrames, List.map_cons, List.map_append, List.map_map, relabel_beginFrame hp hf, hchunks,
    List.map_cons, relabel_endFrame, List.map_nil, fileFrames]

/-- No file-system call of the frame fails. -/
structure FileEnv.Works (env : FileEnv) : Prop where
  directory : env.mkdir = none ∨
    env.mkdir = some .EEXIST ∧ env.stat = none ∧ env.isDirectory = true
  lstat : env.lstat = none
  mkstemp : env.mkstemp = none
  fdopen : env.fdopen = none
  fwrite : env.fwrite = none
  malloc : env.malloc = true
  fseek : env.fseek = none
  fread : env.fread = true
  rewind : env.rewind = none
  rewrite : env.rewrite = none
  fflush : env.fflush = none
  ftruncate : env.ftruncate = none
  fclose : env.fclose = none
  link : env.link = none
  unlink : env.unlink = none

theorem FileEnv.Works.ensureDownloadDirectory {env : FileEnv} (h : env.Works) {directory : Bytes}
    (hd : directory ≠ []) : CipherChat.ensureDownloadDirectory env directory = .ok () := by
  rw [CipherChat.ensureDownloadDirectory, if_neg hd]
  rcases h.directory with hm | ⟨hm, hs, hdir⟩
  · rw [hm]
  · rw [hm, hs, hdir]
    rfl

namespace Receiver

/-- The frames in order, each with its own answers of the file system. -/
def receiveFrames (cfg : ReceiverConfig) (envs : ℕ → FileEnv) :
    ℕ → Receiver → List Bytes → List (Except Errno Unit) × Receiver
  | _, r, [] => ([], r)
  | k, r, frame :: rest =>
    let step := r.handleIncomingFileFrame cfg (envs k) frame
    let rest := receiveFrames cfg envs (k + 1) step.2 rest
    (step.1 :: rest.1, rest.2)

theorem receiveFrames_append (cfg : ReceiverConfig) (envs : ℕ → FileEnv) (k : ℕ) (r : Receiver)
    (xs ys : List Bytes) :
    receiveFrames cfg envs k r (xs ++ ys) =
      ((receiveFrames cfg envs k r xs).1 ++
        (receiveFrames cfg envs (k + xs.length) (receiveFrames cfg envs k r xs).2 ys).1,
      (receiveFrames cfg envs (k + xs.length) (receiveFrames cfg envs k r xs).2 ys).2) := by
  induction xs generalizing k r with
  | nil => rfl
  | cons x xs ih =>
    rw [List.cons_append, receiveFrames, ih]
    simp only [receiveFrames, List.length_cons, List.cons_append, Nat.add_assoc, Nat.add_comm 1]

variable {cfg : ReceiverConfig} {env : FileEnv} {r : Receiver} {i : Fin maxIncomingFiles}
  {frame : Bytes} {b : FileBeginFrame} {c : FileChunkFrame} {f : FileStream}

theorem createIncomingFile_of_free {o : UInt32} (hfree : r.findIncomingFile o = none)
    (hslot : ∃ i, (r.incomingFiles i).active = false) :
    ∃ i, (r.incomingFiles i).active = false ∧
      r.createIncomingFile o = (.ok i, r.set i { active := true, transferId := o }) := by
  unfold createIncomingFile
  rw [hfree]
  cases hfind : Fin.find? fun i => !(r.incomingFiles i).active with
  | none =>
    obtain ⟨j, hj⟩ := hslot
    have := Fin.eq_false_of_find?_eq_none hfind j
    rw [hj] at this
    cases this
  | some i =>
    have := Fin.eq_true_of_find?_eq_some hfind
    exact ⟨i, by simpa using this, rfl⟩

/-- The table and the directory after a BEGIN that was accepted in slot `i`. -/
def afterBegin (cfg : ReceiverConfig) (r : Receiver) (i : Fin maxIncomingFiles) (b : FileBeginFrame)
    (path : Bytes) : Receiver :=
  ({ r with
    store := r.store.create path
    calls := r.calls ++ [.mkstemp path r.store.next] } : Receiver).set i
      { announced cfg b with
        tempPath := path
        file := some { inode := r.store.next, offset := 0 } }

theorem handle_begin (hb : decodeBegin frame = some b) (hst : r.Stages cfg env b) (hw : env.Works)
    (hslot : ∃ i, (r.incomingFiles i).active = false)
    (hfits : (cfg.template b.transferId).length < downloadPathLimit)
    (hpath : r.store.entry (cfg.tempStem b.transferId ++ env.suffix.val) = none) :
    ∃ i, (r.incomingFiles i).active = false ∧ r.handleIncomingFileFrame cfg env frame =
      (.ok (), afterBegin cfg r i b (cfg.tempStem b.transferId ++ env.suffix.val)) := by
  obtain ⟨i, hi, hcreate⟩ := createIncomingFile_of_free hst.fresh hslot
  refine ⟨i, hi, ?_⟩
  have htype : frame.head?.bind FrameType.ofByte = some .fileBegin := by
    rw [(decodeBegin_some hb).1]
    rfl
  have hx : ∀ x, (r.set i x).incomingFiles i = x := fun x => Function.update_self ..
  have hsize : ¬(b.fileSize.toNat < fileCryptoOverhead + b.filename.length ∨
      filePlaintextMaxSize < b.fileSize.toNat - (fileCryptoOverhead + b.filename.length)) := by
    rw [not_or, not_lt, not_lt]
    exact ⟨hst.lower, Nat.sub_le_iff_le_add'.mpr hst.upper⟩
  -- each check of `receive_file_begin` in turn
  unfold handleIncomingFileFrame
  rw [htype]
  dsimp only
  unfold receiveFileBegin
  rw [hb]
  dsimp only
  rw [if_neg hsize, hst.directory]
  dsimp only
  rw [hcreate]
  dsimp only
  rw [hx, buildPath, if_neg (not_le.mpr hst.path)]
  dsimp only
  rw [set_set]
  have hlstat : ∀ x, (r.set i x).lstat env (cfg.directory ++ 47 :: b.filename) =
      .error .ENOENT := fun _ => hst.absent
  rw [hlstat]
  dsimp only
  rw [if_neg (by simp)]
  unfold stageIncomingFile
  rw [if_neg (not_le.mpr hfits)]
  have hmk : ∀ x, (r.set i x).mkstemp env (cfg.template b.transferId) = (.ok r.store.next,
      cfg.tempStem b.transferId ++ env.suffix.val,
      { r.set i x with
        store := r.store.create (cfg.tempStem b.transferId ++ env.suffix.val)
        calls := r.calls ++ [.mkstemp (cfg.tempStem b.transferId ++ env.suffix.val)
          r.store.next] }) := by
    intro x
    simp only [mkstemp, template_take, hw.mkstemp, set_store, hpath, set_calls]
    rfl
  rw [hmk, hw.fdopen]
  dsimp only
  rw [hx, set_mk]
  rfl

/-- The table after a chunk for slot `i`, staged through `f`, has been written. -/
def afterChunk (r : Receiver) (i : Fin maxIncomingFiles) (f : FileStream) (data : Bytes) :
    Receiver :=
  ({ r with store := r.store.write f.inode (r.store.data f.inode ++ data) } : Receiver).set i
    { r.incomingFiles i with
      file := some { f with offset := f.offset + data.length }
      receivedSize := (r.incomingFiles i).receivedSize + data.length }

theorem handle_chunk (hc : decodeChunk frame = some c)
    (hi : r.findIncomingFile c.transferId = some i) (hf : Staged cfg r (r.incomingFiles i) f)
    (hroom : (r.incomingFiles i).receivedSize + c.data.length ≤ (r.incomingFiles i).expectedSize)
    (hw : env.Works) :
    r.handleIncomingFileFrame cfg env frame = (.ok (), r.afterChunk i f c.data) := by
  have htype : frame.head?.bind FrameType.ofByte = some .fileChunk := by
    rw [(decodeChunk_some hc).1]
    rfl
  unfold handleIncomingFileFrame
  rw [htype]
  dsimp only
  unfold receiveFileChunk
  rw [hc]
  dsimp only
  rw [hi]
  dsimp only
  rw [if_neg (by omega), hf.file]
  dsimp only
  rw [hw.fwrite, hf.fwrite]
  rfl

theorem decryptReceivedFile_eq (hf : Staged cfg r (r.incomingFiles i) f)
    (hfull : (r.incomingFiles i).receivedSize = (r.incomingFiles i).expectedSize) {d : Bytes}
    (hopen : openEnvelope cfg (r.incomingFiles i).filename (r.store.data f.inode) = .ok d)
    (hw : env.Works) :
    r.decryptReceivedFile cfg env (r.incomingFiles i) f =
      (.ok d.length, { r with store := r.store.write f.inode d }) := by
  have hread : (r.store.data f.inode).take (r.incomingFiles i).expectedSize =
      r.store.data f.inode := by
    rw [← hfull, ← hf.stored, List.take_length]
  have hlen : ¬(env.fread = false ∨
      (r.store.data f.inode).length ≠ (r.incomingFiles i).expectedSize) := by
    rw [hw.fread, hf.stored, hfull]
    simp
  unfold decryptReceivedFile
  rw [if_neg (by rw [hw.malloc]; simp), hw.fseek]
  dsimp only
  rw [hread, if_neg hlen, hopen, hw.rewind, hw.rewrite, hw.fflush, hw.ftruncate]
  simp [fwrite, FileStore.write_write]

/-- The table and the directory after FILE_END has saved slot `i` with the content `d`. -/
def afterEnd (r : Receiver) (i : Fin maxIncomingFiles) (k : ℕ)
    (hk : r.store.entry (r.incomingFiles i).tempPath = some k) (d : Bytes) : Receiver :=
  (({ r with
    store := (r.store.link k (r.store.bounded _ _ hk) (r.incomingFiles i).finalPath).write k
      d } : Receiver).unlink none (r.incomingFiles i).tempPath).set i {}

theorem handle_end (hc : decodeControl frame .fileEnd = .ok (r.incomingFiles i).transferId)
    (hi : r.findIncomingFile (r.incomingFiles i).transferId = some i)
    (hf : Staged cfg r (r.incomingFiles i) f)
    (hfull : (r.incomingFiles i).receivedSize = (r.incomingFiles i).expectedSize) {d : Bytes}
    (hopen : openEnvelope cfg (r.incomingFiles i).filename (r.store.data f.inode) = .ok d)
    (hnew : r.store.entry (r.incomingFiles i).finalPath = none) (hw : env.Works) :
    r.handleIncomingFileFrame cfg env frame = (.ok (), r.afterEnd i f.inode hf.named d) := by
  have htype : frame.head?.bind FrameType.ofByte = some .fileEnd := by
    rw [(decodeControl_ok hc).1]
    rfl
  unfold handleIncomingFileFrame
  rw [htype]
  dsimp only
  unfold receiveFileEnd
  rw [hc]
  dsimp only
  rw [hi]
  dsimp only
  rw [if_neg (not_not.mpr hfull), hf.file]
  dsimp only
  rw [decryptReceivedFile_eq hf hfull hopen hw, hw.fclose, hw.link, hw.unlink]
  dsimp only
  have hold : (({ r with store := r.store.write f.inode d } : Receiver).set i
      { r.incomingFiles i with file := none }).store.entry (r.incomingFiles i).tempPath =
      some f.inode := hf.named
  have hfree : (({ r with store := r.store.write f.inode d } : Receiver).set i
      { r.incomingFiles i with file := none }).store.entry (r.incomingFiles i).finalPath = none :=
        hnew
  rw [link_of_free _ hold hfree]
  change (Except.ok (), (Receiver.unlink (Receiver.set
    { r with
      store := (r.store.link f.inode (r.store.bounded _ _ hf.named)
        (r.incomingFiles i).finalPath).write f.inode d } i
    { r.incomingFiles i with file := none }) none (r.incomingFiles i).tempPath).set i {}) = _
  rw [unlink_set, set_set]
  rfl

theorem Inv.find (h : Inv cfg r) (hi : (r.incomingFiles i).active = true) :
    r.findIncomingFile (r.incomingFiles i).transferId = some i := by
  cases hfind : r.findIncomingFile (r.incomingFiles i).transferId with
  | none => exact absurd rfl (findIncomingFile_none hfind i hi)
  | some j =>
    obtain ⟨hj, hid⟩ := findIncomingFile_some hfind
    rw [h.distinct j i hj hi hid]

theorem afterChunk_afterChunk (r : Receiver) (i : Fin maxIncomingFiles) (f : FileStream)
    (xs ys : Bytes) :
    (r.afterChunk i f xs).afterChunk i { f with offset := f.offset + xs.length } ys =
      r.afterChunk i f (xs ++ ys) := by
  simp [afterChunk, set, FileStore.write_write, Nat.add_assoc]

theorem afterChunk_nil (hf : Staged cfg r (r.incomingFiles i) f) : r.afterChunk i f [] = r := by
  have hslot : { r.incomingFiles i with
      file := some { f with offset := f.offset + ([] : Bytes).length }
      receivedSize := (r.incomingFiles i).receivedSize + ([] : Bytes).length } =
      r.incomingFiles i := by
    rw [List.length_nil, Nat.add_zero, Nat.add_zero, ← hf.file]
  rw [afterChunk, hslot, List.append_nil, FileStore.write_self, set, Function.update_eq_self]

theorem receive_chunks (hinv : Inv cfg r) (hi : (r.incomingFiles i).active = true)
    (hf : Staged cfg r (r.incomingFiles i) f) {envs : ℕ → FileEnv} (hw : ∀ k, (envs k).Works)
    {chunks : List Bytes} (hsizes : ∀ c ∈ chunks, 0 < c.length ∧ c.length ≤ fileChunkSize)
    (hroom : (r.incomingFiles i).receivedSize + chunks.flatten.length ≤
      (r.incomingFiles i).expectedSize) (k : ℕ) :
    receiveFrames cfg envs k r (chunks.map fun c =>
        chunkFrame (r.incomingFiles i).transferId c) =
      (List.replicate chunks.length (.ok ()), r.afterChunk i f chunks.flatten) ∧
    Inv cfg (r.afterChunk i f chunks.flatten) := by
  induction chunks generalizing r f k with
  | nil =>
    rw [List.flatten_nil, afterChunk_nil hf]
    exact ⟨rfl, hinv⟩
  | cons c chunks ih =>
    have hsize := hsizes c List.mem_cons_self
    rw [List.flatten_cons, List.length_append] at hroom
    have hdec : decodeChunk (chunkFrame (r.incomingFiles i).transferId c) = _ :=
      decodeChunk_chunkFrame hsize.1 hsize.2
    have hfind := hinv.find hi
    have hstep := handle_chunk hdec hfind hf (by dsimp only; omega) (hw k)
    have hinv' := hinv.step (frame_cases hinv hstep)
    have hslot : (r.afterChunk i f c).incomingFiles i = { r.incomingFiles i with
        file := some { f with offset := f.offset + c.length }
        receivedSize := (r.incomingFiles i).receivedSize + c.length } := Function.update_self ..
    have hactive : ((r.afterChunk i f c).incomingFiles i).active = true := by
      rw [hslot]
      exact hi
    obtain ⟨f', hf'⟩ := hinv'.staged i hactive
    have hfile : f' = { f with offset := f.offset + c.length } := by
      have := hf'.file
      rw [hslot] at this
      exact (Option.some.inj this).symm
    subst hfile
    have hid : ((r.afterChunk i f c).incomingFiles i).transferId =
        (r.incomingFiles i).transferId := by rw [hslot]
    obtain ⟨hrest, hinv''⟩ := ih hinv' hactive hf' (fun c' hc' => hsizes c'
      (List.mem_cons_of_mem _ hc')) (by rw [hslot]; dsimp only; omega) (k + 1)
    rw [hid] at hrest
    rw [afterChunk_afterChunk] at hrest hinv''
    refine ⟨?_, hinv''⟩
    rw [List.map_cons, receiveFrames, hstep]
    dsimp only
    rw [hrest]
    rfl

theorem openEnvelope_eq {filename content key nonce ciphertext : Bytes}
    (hname : filename.length ≤ fileNameMaxLength) (hkey : key.length = cryptoBoxPublicKeyBytes)
    (hnonce : nonce.length = cryptoBoxNonceBytes)
    (hopen : cfg.box.openEasy ciphertext nonce key cfg.privateKey =
      some (filePlaintext filename content)) :
    openEnvelope cfg filename (fileCryptoMagic ++ key ++ nonce ++ ciphertext) = .ok content := by
  have hbox := cfg.box.openEasy_length _ _ _ _ _ hopen
  have hpk := cryptoBoxPublicKeyBytes_eq
  have hnb := cryptoBoxNonceBytes_eq
  have hmac := cryptoBoxMacBytes_eq
  have hms := fileCryptoMagicSize_eq
  have hhs := fileCryptoHeaderSize_eq
  have hmd := fileCryptoMetadataSize_eq
  have hmagic : fileCryptoMagic.length = 8 := rfl
  have hmax := fileNameMaxLength_eq
  have hn : (UInt16.ofNat filename.length).toNat = filename.length := by
    rw [UInt16.toNat_ofNat', Nat.mod_eq_of_lt (by omega)]
  rw [hpk] at hkey
  rw [hnb] at hnonce
  -- the fields of the envelope and of the message, by their offsets
  have e8 : (fileCryptoMagic ++ key ++ nonce ++ ciphertext).take 8 = fileCryptoMagic := by
    rw [List.append_assoc, List.append_assoc, List.take_left' hmagic]
  have ekey : ((fileCryptoMagic ++ key ++ nonce ++ ciphertext).drop 8).take 32 = key := by
    rw [List.append_assoc, List.append_assoc, List.drop_left' hmagic, List.take_left' hkey]
  have enonce : ((fileCryptoMagic ++ key ++ nonce ++ ciphertext).drop (8 + 32)).take 24 =
    nonce := by
    rw [List.append_assoc, List.drop_left' (by rw [List.length_append, hmagic, hkey]),
      List.take_left' hnonce]
  have ebox : (fileCryptoMagic ++ key ++ nonce ++ ciphertext).drop 64 = ciphertext := by
    rw [List.drop_left' (by rw [List.length_append, List.length_append, hmagic, hkey, hnonce])]
  have mmagic : (filePlaintext filename content).take 8 = fileCryptoMagic := by
    rw [filePlaintext, List.append_assoc, List.append_assoc, List.take_left' hmagic]
  have mlength : (filePlaintext filename content).drop 8 =
      writeU16 (UInt16.ofNat filename.length) ++ (filename ++ content) := by
    rw [filePlaintext, List.append_assoc, List.append_assoc, List.drop_left' hmagic]
  have mname : (filePlaintext filename content).drop 10 = filename ++ content := by
    rw [filePlaintext, List.append_assoc, List.drop_left' (by simp [hmagic])]
  have mcontent : (filePlaintext filename content).drop (10 + filename.length) = content := by
    rw [← List.drop_drop, mname, List.drop_left]
  have mlen : (filePlaintext filename content).length = 10 + filename.length + content.length := by
    simp only [filePlaintext, List.length_append, hmagic, writeU16_length]
  unfold openEnvelope
  rw [hpk, hnb, hmac, hms, hhs, hmd, e8, ekey, enonce, ebox, if_neg (by simp)]
  dsimp only
  rw [hopen]
  dsimp only
  rw [mmagic, mlength, readU16_writeU16, hn, mname, List.take_left, mcontent, hbox, mlen, hmac,
    if_neg]
  · rw [List.take_of_length_le (by omega)]
  · simp only [ne_eq, not_true_eq_false, false_or, or_false]
    omega

theorem repr_length_le {n : ℕ} (h : n < 10 ^ 10) : (ascii (Nat.repr n)).length ≤ 10 := by
  rw [ascii, List.length_map, Nat.toList_repr]
  exact (Nat.length_toDigits_le_iff (by decide) (by decide)).mpr h

theorem template_length (hdir : cfg.directory = downloadDirectory) (o : UInt32) :
    (cfg.template o).length < downloadPathLimit := by
  have hlimit : downloadPathLimit = 4096 := rfl
  have hd : downloadDirectory.length = 9 := rfl
  have hp : (ascii ".cipher-chat-").length = 13 := rfl
  have hx : (ascii "XXXXXX").length = 6 := rfl
  have hpid := repr_length_le (n := cfg.pid.val) (lt_trans cfg.pid.isLt (by decide))
  have hid := repr_length_le (n := o.toNat) (lt_trans o.toNat_lt (by decide))
  simp only [ReceiverConfig.template, ReceiverConfig.tempStem, hdir, List.length_append,
    List.length_cons, List.length_nil]
  omega

theorem receive_rest (hinv : Inv cfg r) (hi : (r.incomingFiles i).active = true)
    (hf : Staged cfg r (r.incomingFiles i) f) (hdata : r.store.data f.inode = [])
    {encrypted content : Bytes} (hexpected : (r.incomingFiles i).expectedSize = encrypted.length)
    (hopen : openEnvelope cfg (r.incomingFiles i).filename encrypted = .ok content)
    {envs : ℕ → FileEnv} (hw : ∀ k, (envs k).Works) (k : ℕ)
    (habsent : (receiveFrames cfg envs k r ((fileChunks encrypted 0).map
      (chunkFrame (r.incomingFiles i).transferId))).2.store.entry
        (r.incomingFiles i).finalPath = none) :
    (receiveFrames cfg envs k r ((fileChunks encrypted 0).map
        (chunkFrame (r.incomingFiles i).transferId) ++
          [endFrame (r.incomingFiles i).transferId])).1 =
      List.replicate ((fileChunks encrypted 0).length + 1) (.ok ()) ∧
    (receiveFrames cfg envs k r ((fileChunks encrypted 0).map
        (chunkFrame (r.incomingFiles i).transferId) ++
          [endFrame (r.incomingFiles i).transferId])).2.store.read (r.incomingFiles i).finalPath =
      some content ∧
    (receiveFrames cfg envs k r ((fileChunks encrypted 0).map
        (chunkFrame (r.incomingFiles i).transferId) ++
          [endFrame (r.incomingFiles i).transferId])).2.incomingFiles =
      Function.update r.incomingFiles i {} := by
  obtain ⟨hsizes, hflat⟩ := fileChunks_spec encrypted 0
  rw [List.drop_zero] at hflat
  have hreceived : (r.incomingFiles i).receivedSize = 0 := by
    rw [← hf.stored, hdata, List.length_nil]
  obtain ⟨hchunks, hinv'⟩ := receive_chunks hinv hi hf hw hsizes
    (by rw [hflat, hreceived, hexpected, Nat.zero_add]) k
  rw [hflat] at hchunks hinv'
  rw [hchunks] at habsent
  -- the slot is full now
  have hslot : (r.afterChunk i f encrypted).incomingFiles i = { r.incomingFiles i with
      file := some { f with offset := f.offset + encrypted.length }
      receivedSize := (r.incomingFiles i).receivedSize + encrypted.length } :=
    Function.update_self ..
  have hactive' : ((r.afterChunk i f encrypted).incomingFiles i).active = true := by
    rw [hslot]
    exact hi
  obtain ⟨f', hf'⟩ := hinv'.staged i hactive'
  have hfile : f' = { f with offset := f.offset + encrypted.length } := by
    have hsome := hf'.file
    rw [hslot] at hsome
    exact (Option.some.inj hsome).symm
  have hdata' : (r.afterChunk i f encrypted).store.data f'.inode = encrypted := by
    rw [hfile, afterChunk, set_store, FileStore.write_data, Function.update_self, hdata,
      List.nil_append]
  have hid : ((r.afterChunk i f encrypted).incomingFiles i).transferId =
      (r.incomingFiles i).transferId := by rw [hslot]
  have hfinal : ((r.afterChunk i f encrypted).incomingFiles i).finalPath =
      (r.incomingFiles i).finalPath := by rw [hslot]
  have hcontrol : decodeControl (endFrame (r.incomingFiles i).transferId) .fileEnd =
      .ok ((r.afterChunk i f encrypted).incomingFiles i).transferId := by
    rw [hid]
    exact decodeControl_endFrame _
  have hend := handle_end hcontrol (hinv'.find hactive') hf'
    (by rw [hslot]; dsimp only; rw [hreceived, hexpected, Nat.zero_add])
    (by rw [hdata', hslot]; exact hopen) (by rw [hfinal]; exact habsent)
    (hw (k + ((fileChunks encrypted 0).map (chunkFrame (r.incomingFiles i).transferId)).length))
  have hne : (r.incomingFiles i).finalPath ≠
      ((r.afterChunk i f encrypted).incomingFiles i).tempPath := by
    intro heq
    have hnamed := hf'.named
    rw [← heq, habsent] at hnamed
    cases hnamed
  rw [receiveFrames_append, hchunks]
  dsimp only
  rw [receiveFrames, hend]
  refine ⟨?_, ?_, ?_⟩
  · rw [List.replicate_succ']
    rfl
  · dsimp only [receiveFrames]
    rw [FileStore.read, afterEnd, set_store, unlink_entry_of_ne _ _ hne, unlink_data,
      FileStore.write_entry, FileStore.link_entry, hfinal, Function.update_self,
      FileStore.write_data]
    exact congrArg some (Function.update_self ..)
  · dsimp only [receiveFrames]
    rw [afterEnd, set_incomingFiles, unlink_incomingFiles]
    change Function.update (Function.update r.incomingFiles i _) i {} = _
    rw [Function.update_idem]

theorem receive_file (hinv : Inv cfg r) (hdir : cfg.directory = downloadDirectory)
    {o : UInt32} (hfresh : r.findIncomingFile o = none)
    (hslot : ∃ i, (r.incomingFiles i).active = false) {sender filename encrypted content : Bytes}
    (hsender : validPeerName sender = true) (hname : validFilename filename = true)
    (hlo : fileCryptoOverhead + filename.length ≤ encrypted.length)
    (hhi : encrypted.length ≤ fileCryptoOverhead + filename.length + filePlaintextMaxSize)
    (hopen : openEnvelope cfg filename encrypted = .ok content) {size : UInt64}
    (hsize : size.toNat = encrypted.length) {envs : ℕ → FileEnv} (hw : ∀ k, (envs k).Works)
    (htemp : r.store.entry (cfg.tempStem o ++ (envs 0).suffix.val) = none)
    (habsent : ∀ n, n < (fileFrames o sender filename size encrypted).length →
      (receiveFrames cfg envs 0 r ((fileFrames o sender filename size encrypted).take
        n)).2.store.entry (cfg.directory ++ 47 :: filename) = none) :
    (receiveFrames cfg envs 0 r (fileFrames o sender filename size encrypted)).1 =
      List.replicate ((fileChunks encrypted 0).length + 2) (.ok ()) ∧
    (receiveFrames cfg envs 0 r (fileFrames o sender filename size encrypted)).2.store.read
      (cfg.directory ++ 47 :: filename) = some content ∧
    (receiveFrames cfg envs 0 r (fileFrames o sender filename size encrypted)).2.incomingFiles =
      r.incomingFiles := by
  obtain ⟨hsizes, hflat⟩ := fileChunks_spec encrypted 0
  rw [List.drop_zero] at hflat
  have hdec : decodeBegin (beginFrame o size sender filename) =
      some { transferId := o, fileSize := size, peer := sender, filename := filename } :=
    decodeBegin_beginFrame hsender hname
  have hlength : (fileFrames o sender filename size encrypted).length =
      (fileChunks encrypted 0).length + 2 := by
    simp [fileFrames]
  have habsent0 : r.store.entry (cfg.directory ++ 47 :: filename) = none :=
    habsent 0 (by rw [hlength]; omega)
  have hst : r.Stages cfg (envs 0)
      { transferId := o, fileSize := size, peer := sender, filename := filename } :=
    { lower := hsize ▸ hlo
      upper := hsize ▸ hhi
      directory := (hw 0).ensureDownloadDirectory (by rw [hdir]; decide)
      fresh := hfresh
      path := by
        have hlimit : downloadPathLimit = 4096 := rfl
        have hd : downloadDirectory.length = 9 := rfl
        have hmax := fileNameMaxLength_eq
        have hfn := (validFilename_iff.mp hname).2.1
        rw [hdir, List.length_append, List.length_cons]
        dsimp only
        omega
      absent := by
        rw [lstat, (hw 0).lstat]
        dsimp only
        rw [habsent0]
        rfl }
  obtain ⟨i, hi, hstep⟩ := handle_begin hdec hst (hw 0) hslot (template_length hdir o) htemp
  have hzero := hinv.zeroed i hi
  have hinv1 := hinv.step (frame_cases hinv hstep)
  generalize hr1 : afterBegin cfg r i _ _ = r1 at hstep hinv1
  have hslot1 : r1.incomingFiles i = { announced cfg ⟨o, size, sender, filename⟩ with
      tempPath := cfg.tempStem o ++ (envs 0).suffix.val
      file := some { inode := r.store.next, offset := 0 } } := by
    rw [← hr1]
    exact Function.update_self ..
  have hactive1 : (r1.incomingFiles i).active = true := by rw [hslot1]; rfl
  obtain ⟨f, hf⟩ := hinv1.staged i hactive1
  have hfile : f = { inode := r.store.next, offset := 0 } := by
    have hf' := hf.file
    rw [hslot1] at hf'
    exact (Option.some.inj hf').symm
  have hdata1 : r1.store.data f.inode = [] := by
    rw [hfile, ← hr1]
    exact Function.update_self ..
  have hid1 : (r1.incomingFiles i).transferId = o := by rw [hslot1]; rfl
  have hfinal1 : (r1.incomingFiles i).finalPath = cfg.directory ++ 47 :: filename := by
    rw [hslot1]
    rfl
  -- the state before FILE_END is the one after all frames but the last
  have htake : (fileFrames o sender filename size encrypted).take
      ((fileChunks encrypted 0).length + 1) =
      beginFrame o size sender filename :: (fileChunks encrypted 0).map (chunkFrame o) := by
    rw [fileFrames, List.take_succ_cons, List.take_left' (List.length_map _)]
  have hlast := habsent ((fileChunks encrypted 0).length + 1) (by rw [hlength]; omega)
  rw [htake, receiveFrames, hstep] at hlast
  have hrest := receive_rest hinv1 hactive1 hf hdata1 (by rw [hslot1]; exact hsize)
    (by rw [hslot1]; exact hopen) hw 1 (by rw [hid1, hfinal1]; exact hlast)
  rw [hid1, hfinal1] at hrest
  rw [fileFrames, receiveFrames, hstep]
  refine ⟨?_, hrest.2.1, ?_⟩
  · dsimp only
    rw [hrest.1]
    rfl
  · dsimp only
    rw [hrest.2.2, ← hr1, afterBegin, set_incomingFiles, Function.update_idem, ← hzero,
      Function.update_eq_self]

/-- A file that `send_file` accepts, relabelled on its way, is saved under its own
basename with its own bytes, for every pair of matching keys.  "No existing file of that name"
is said of every state before FILE_END is handled, when `lstat` and `link` look for it. -/
theorem file_round_trip (cfg : ReceiverConfig) (hdir : cfg.directory = downloadDirectory)
    (env : SendEnv) (transferId : UInt32) (recipient path recipientPublicKey : Bytes)
    (senderPublicKey : { k : Bytes // k.length = cryptoBoxPublicKeyBytes })
    (senderPrivateKey : Bytes)
    (hmatch : ∀ message nonce ciphertext,
      cfg.box.easy message nonce recipientPublicKey senderPrivateKey = some ciphertext →
        cfg.box.openEasy ciphertext nonce senderPublicKey.val cfg.privateKey = some message) :
    (env.Works → (cfg.box.easy (filePlaintext ((pathBasename path).getD []) env.content)
        env.nonce.val recipientPublicKey senderPrivateKey).isSome →
      ((sendFile env cfg.box transferId recipient path recipientPublicKey senderPublicKey
        senderPrivateKey).1 = .ok () ↔
        validPeerName recipient = true ∧ validFilename ((pathBasename path).getD []) = true ∧
          env.content.length ≤ 16777216)) ∧
    ∀ frames, sendFile env cfg.box transferId recipient path recipientPublicKey senderPublicKey
        senderPrivateKey = (.ok (), frames) →
      (∀ frame ∈ frames, frame.head? = some FrameType.fileChunk.toByte →
        ∃ data, frame = chunkFrame transferId data ∧ 1 ≤ data.length ∧ data.length ≤ 900) ∧
      ∀ (store : FileStore Bytes UInt8) (r : Receiver), (receiver cfg store).Reachable r →
      ∀ fresh sender (envs : ℕ → FileEnv) filename, pathBasename path = some filename →
      r.findIncomingFile fresh = none → validPeerName sender = true →
      (∃ i, (r.incomingFiles i).active = false) → (∀ k, (envs k).Works) →
      r.store.entry (cfg.tempStem fresh ++ (envs 0).suffix.val) = none →
      (∀ n, n < frames.length →
        (receiveFrames cfg envs 0 r ((frames.map (relabel fresh sender)).take n)).2.store.entry
          (cfg.directory ++ 47 :: filename) = none) →
      (∀ result ∈ (receiveFrames cfg envs 0 r (frames.map (relabel fresh sender))).1,
        result = .ok ()) ∧
      (receiveFrames cfg envs 0 r (frames.map (relabel fresh sender))).2.store.read
        (cfg.directory ++ 47 :: filename) = some env.content ∧
      (receiveFrames cfg envs 0 r (frames.map (relabel fresh sender))).2.incomingFiles =
        r.incomingFiles := by
  refine ⟨fun hw hbox => ?_, fun frames hsend => ?_⟩
  · obtain ⟨ciphertext, hbox⟩ := Option.isSome_iff_exists.mp hbox
    exact sendFile_accepts hw hbox
  obtain ⟨hp, hf, hsize, ciphertext, hbox, rfl⟩ := sendFile_ok hsend
  -- a chunk is a piece of the envelope
  constructor
  · intro frame hframe hhead
    rcases List.mem_cons.mp hframe with rfl | hframe
    · cases hhead
    rcases List.mem_append.mp hframe with hframe | hframe
    · obtain ⟨data, hdata, rfl⟩ := List.mem_map.mp hframe
      exact ⟨data, rfl, (fileChunks_spec _ 0).1 data hdata⟩
    · rw [List.mem_singleton.mp hframe] at hhead
      cases hhead
  · intro store r hr fresh sender envs filename hname hfresh hsender hslot hw htemp habsent
    obtain rfl : (pathBasename path).getD [] = filename := by rw [hname, Option.getD_some]
    have hopen := hmatch _ _ _ hbox
    have hlen := cfg.box.openEasy_length _ _ _ _ _ hopen
    have henvelope : openEnvelope cfg ((pathBasename path).getD [])
        (fileEnvelope env senderPublicKey ciphertext) = .ok env.content :=
      openEnvelope_eq (validFilename_iff.mp hf).2.1 senderPublicKey.property env.nonce.property
        hopen
    -- the announced size is the size of the envelope
    have hbytes : (fileEnvelope env senderPublicKey ciphertext).length =
        fileCryptoOverhead + ((pathBasename path).getD []).length + env.content.length := by
      simp only [fileEnvelope, filePlaintext, List.length_append, writeU16_length,
        senderPublicKey.property, env.nonce.property] at hlen ⊢
      rw [hlen]
      have h1 : fileCryptoMagic.length = 8 := rfl
      have h2 := cryptoBoxPublicKeyBytes_eq
      have h3 := cryptoBoxNonceBytes_eq
      have h4 := cryptoBoxMacBytes_eq
      have h5 := fileCryptoOverhead_eq
      omega
    have hannounced : fileCryptoHeaderSize + cryptoBoxMacBytes +
        (filePlaintext ((pathBasename path).getD []) env.content).length =
        (fileEnvelope env senderPublicKey ciphertext).length := by
      have hmagic : fileCryptoMagic.length = fileCryptoMagicSize := rfl
      simp only [fileEnvelope, List.length_append, senderPublicKey.property, env.nonce.property,
        hlen,
        fileCryptoHeaderSize, hmagic]
      omega
    rw [hannounced] at habsent ⊢
    rw [relabel_fileFrames hp hf] at habsent ⊢
    -- and it fits the field of the BEGIN
    have hfits : (UInt64.ofNat (fileEnvelope env senderPublicKey ciphertext).length).toNat =
        (fileEnvelope env senderPublicKey ciphertext).length := by
      rw [UInt64.toNat_ofNat', Nat.mod_eq_of_lt]
      have hmax := filePlaintextMaxSize_eq
      have hover := fileCryptoOverhead_eq
      have hlimit := fileNameMaxLength_eq
      have hnamelen := (validFilename_iff.mp hf).2.1
      omega
    obtain ⟨hresults, hread, hslots⟩ := receive_file (inv_of_reach hr) hdir hfresh hslot hsender hf
      (by rw [hbytes]; exact Nat.le_add_right _ _)
      (by rw [hbytes]; exact Nat.add_le_add_left hsize _) henvelope hfits hw htemp
      fun n hn => habsent n (by simpa [fileFrames] using hn)
    refine ⟨fun result hresult => ?_, hread, hslots⟩
    rw [hresults] at hresult
    exact List.eq_of_mem_replicate hresult

/-- Alice's environment while she sends the two-byte file `a`. -/
def sampleSend : SendEnv where
  size := 2
  content := ascii "hi"
  nonce := ⟨sampleNonce, sampleNonce_length⟩

theorem sampleEnvelope_chunks : fileChunks sampleEnvelope 0 = [sampleEnvelope] := by
  have hlen : sampleEnvelope.length = 93 := rfl
  rw [fileChunks_of_lt (by rw [hlen]; decide), fileChunks_of_le (by rw [hlen]; decide)]
  rfl

theorem sampleSend_frames : sendFile sampleSend sampleBox 5
    (ascii "bob") (ascii "/tmp/a") bobPublicKey
    ⟨alicePublicKey, alicePublicKey_length⟩ alicePrivateKey =
      (.ok (), [beginFrame 5 93 (ascii "bob") (ascii "a"), chunkFrame 5 sampleEnvelope,
        endFrame 5]) := by
  have hbox : sampleBox.easy (filePlaintext ((pathBasename (ascii "/tmp/a")).getD [])
      sampleSend.content) sampleSend.nonce.val bobPublicKey alicePrivateKey =
      some sampleCiphertext := by
    decide +kernel
  have hok : (sendFile sampleSend sampleBox 5 (ascii "bob") (ascii "/tmp/a") bobPublicKey
      ⟨alicePublicKey, alicePublicKey_length⟩ alicePrivateKey).1 = .ok () :=
    (sendFile_accepts ⟨rfl, rfl, rfl, rfl, rfl, rfl, rfl, fun _ => rfl⟩ hbox).mpr
      (by decide +kernel)
  obtain ⟨-, -, -, ciphertext, hbox', hframes⟩ := sendFile_ok (Prod.ext hok rfl)
  obtain rfl := Option.some.inj (hbox.symm.trans hbox')
  refine Prod.ext hok (hframes.trans ?_)
  change beginFrame 5 _ (ascii "bob") _ ::
    ((fileChunks sampleEnvelope 0).map (chunkFrame 5) ++ [endFrame 5]) = _
  rw [sampleEnvelope_chunks]
  decide +kernel

theorem file_round_trip_sample :
    (receiveFrames bobConfig (fun _ => {}) 0 (.start emptyStore)
      ([beginFrame 5 93 (ascii "bob") (ascii "a"), chunkFrame 5 sampleEnvelope, endFrame 5].map
        (relabel 1 (ascii "alice")))).2.store.read (bobConfig.directory ++ 47 :: ascii "a") =
      some (ascii "hi") := by
  have hmatch : ∀ message nonce ciphertext,
      bobConfig.box.easy message nonce bobPublicKey alicePrivateKey = some ciphertext →
        bobConfig.box.openEasy ciphertext nonce alicePublicKey bobConfig.privateKey =
          some message := by
    intro message nonce ciphertext h
    have heasy : (if message = sampleMessage ∧ nonce = sampleNonce ∧ bobPublicKey = bobPublicKey ∧
      alicePrivateKey = alicePrivateKey then some sampleCiphertext else none) = some ciphertext := h
    split at heasy
    · next hin =>
      obtain rfl := Option.some.inj heasy
      rw [hin.1, hin.2.1]
      rfl
    · cases heasy
  refine (((file_round_trip bobConfig rfl sampleSend 5 (ascii "bob") (ascii "/tmp/a") bobPublicKey
    ⟨alicePublicKey, alicePublicKey_length⟩ alicePrivateKey hmatch).2 _ sampleSend_frames).2
      emptyStore
      (.start emptyStore) .init 1 (ascii "alice") (fun _ => {}) (ascii "a") ?_ ?_ ?_ ?_ ?_ ?_
        ?_).2.1
  · decide +kernel
  · decide +kernel
  · decide +kernel
  · exact ⟨⟨0, by decide⟩, rfl⟩
  · exact fun _ => ⟨.inr ⟨rfl, rfl, rfl⟩, rfl, rfl, rfl, rfl, rfl, rfl, rfl, rfl, rfl, rfl, rfl,
      rfl,
      rfl, rfl⟩
  · rfl
  · decide +kernel

end Receiver

end CipherChat
