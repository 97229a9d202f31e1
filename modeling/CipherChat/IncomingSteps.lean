import CipherChat.ClientFileReceiver
import Mathlib.Data.List.TakeWhile

/-!
# What one incoming frame can do

Every active slot owns one temporary file: its stream writes to it, its path is
the only name of it, and its length is what was received.  On such a table
`FrameStep` lists what a frame can do to the slots and the directory; everything
about the receiver is read off it.
-/

namespace CipherChat

namespace ReceiverConfig

variable (cfg : ReceiverConfig)

def tempPrefix : Bytes :=
  cfg.directory ++ 47 :: (ascii ".cipher-chat-" ++ (ascii (Nat.repr cfg.pid) ++ [45]))

theorem tempStem_eq (id : UInt32) :
    cfg.tempStem id = cfg.tempPrefix ++ (ascii (Nat.repr id.toNat) ++ [45]) := by
  simp [tempStem, tempPrefix]

/-- A path that `mkstemp` can make for the given transfer. -/
def IsTemp (id : UInt32) (path : Bytes) : Prop :=
  ∃ suffix : MkstempSuffix, path = cfg.tempStem id ++ suffix.val

variable {cfg}

theorem IsTemp.ne_nil {id : UInt32} {path : Bytes} (h : cfg.IsTemp id path) : path ≠ [] := by
  obtain ⟨suffix, rfl⟩ := h
  simp [tempStem]

/-- A name in the temporary files of one transfer tells its id, also when it is
a template cut short. -/
theorem IsTemp.id_eq {id id' : UInt32} {path rest : Bytes} (h : cfg.IsTemp id path)
    (hp : path <+: cfg.tempStem id' ++ rest) : id = id' := by
  obtain ⟨suffix, rfl⟩ := h
  obtain ⟨tail, ht⟩ := hp
  simp only [tempStem_eq, List.append_assoc, List.singleton_append] at ht
  exact UInt32.toNat_inj.mp (repr_delimited_inj (.inl (by decide)) (List.append_cancel_left ht))

theorem IsTemp.id_unique {id id' : UInt32} {path : Bytes} (h : cfg.IsTemp id path)
    (h' : cfg.IsTemp id' path) : id = id' := by
  obtain ⟨suffix, rfl⟩ := h'
  exact h.id_eq (List.prefix_refl _)

end ReceiverConfig

namespace Receiver

variable {cfg : ReceiverConfig} {env : FileEnv} {r r' : Receiver} {i : Fin maxIncomingFiles}

@[simp] theorem set_incomingFiles (r : Receiver) (i : Fin maxIncomingFiles) (x : IncomingFile) :
    (r.set i x).incomingFiles = Function.update r.incomingFiles i x := rfl

@[simp] theorem set_store (r : Receiver) (i : Fin maxIncomingFiles) (x : IncomingFile) :
    (r.set i x).store = r.store := rfl

@[simp] theorem set_calls (r : Receiver) (i : Fin maxIncomingFiles) (x : IncomingFile) :
    (r.set i x).calls = r.calls := rfl

@[simp] theorem set_set (r : Receiver) (i : Fin maxIncomingFiles) (x y : IncomingFile) :
    (r.set i x).set i y = r.set i y := by
  simp [set]

theorem set_mk (r : Receiver) (i : Fin maxIncomingFiles) (x y : IncomingFile)
    (store : FileStore Bytes UInt8) (calls : List FileCall) :
    (Receiver.mk (r.set i x).incomingFiles store calls).set i y =
      (Receiver.mk r.incomingFiles store calls).set i y := by
  simp [set]

@[simp] theorem unlink_incomingFiles (r : Receiver) (failure : Option Errno) (path : Bytes) :
    (r.unlink failure path).incomingFiles = r.incomingFiles := by
  unfold unlink
  split <;> rfl

@[simp] theorem unlink_data (r : Receiver) (failure : Option Errno) (path : Bytes) :
    (r.unlink failure path).store.data = r.store.data := by
  unfold unlink
  split <;> rfl

theorem unlink_set (r : Receiver) (failure : Option Errno) (path : Bytes) (x : IncomingFile) :
    (r.set i x).unlink failure path = (r.unlink failure path).set i x := by
  simp only [unlink, set_store]
  split <;> rfl

theorem unlink_entry_of_ne (r : Receiver) (failure : Option Errno) {path p : Bytes} (h : p ≠ path) :
    (r.unlink failure path).store.entry p = r.store.entry p := by
  unfold unlink
  split
  · exact Function.update_of_ne h _ _
  · rfl

/-- No name appears and none moves to another file. -/
theorem unlink_entry_some {failure : Option Errno} {path p : Bytes} {k : ℕ}
    (h : (r.unlink failure path).store.entry p = some k) : r.store.entry p = some k := by
  by_cases hp : p = path
  · subst hp
    unfold unlink at h
    split at h
    · simp at h
    · exact h
  · rw [unlink_entry_of_ne r failure hp] at h
    exact h

/-- The call is on record with the file its path named. -/
theorem unlink_calls (r : Receiver) (failure : Option Errno) (path : Bytes) :
    ∃ removed, (r.unlink failure path).calls =
      r.calls ++ [.unlink path (r.store.entry path) removed] := by
  unfold unlink
  split
  · next h => exact ⟨true, by rw [h]⟩
  · exact ⟨false, rfl⟩

/-- Slot content `x` is a transfer staged through the stream `f`. -/
structure Staged (cfg : ReceiverConfig) (r : Receiver) (x : IncomingFile) (f : FileStream) :
    Prop where
  file : x.file = some f
  offset : f.offset = x.receivedSize
  stored : (r.store.data f.inode).length = x.receivedSize
  received : x.receivedSize ≤ x.expectedSize
  lower : fileCryptoOverhead + x.filename.length ≤ x.expectedSize
  upper : x.expectedSize ≤ fileCryptoOverhead + x.filename.length + filePlaintextMaxSize
  sender : validPeerName x.sender = true
  filename : validFilename x.filename = true
  finalPath : x.finalPath = cfg.directory ++ 47 :: x.filename
  temp : cfg.IsTemp x.transferId x.tempPath
  fits : (cfg.template x.transferId).length < downloadPathLimit
  named : r.store.entry x.tempPath = some f.inode
  sole : ∀ p, r.store.entry p = some f.inode → p = x.tempPath
  made : .mkstemp x.tempPath f.inode ∈ r.calls

structure Inv (cfg : ReceiverConfig) (r : Receiver) : Prop where
  distinct : ∀ i j, (r.incomingFiles i).active = true → (r.incomingFiles j).active = true →
    (r.incomingFiles i).transferId = (r.incomingFiles j).transferId → i = j
  zeroed : ∀ i, (r.incomingFiles i).active = false → r.incomingFiles i = {}
  staged : ∀ i, (r.incomingFiles i).active = true → ∃ f, Staged cfg r (r.incomingFiles i) f

theorem inv_start (cfg : ReceiverConfig) (store : FileStore Bytes UInt8) :
    Inv cfg (start store) where
  distinct _ _ h := by cases h
  zeroed _ _ := rfl
  staged _ h := by cases h

theorem findIncomingFile_some {id : UInt32} (h : r.findIncomingFile id = some i) :
    (r.incomingFiles i).active = true ∧ (r.incomingFiles i).transferId = id := by
  have := Fin.eq_true_of_find?_eq_some h
  simpa using this

theorem findIncomingFile_none {id : UInt32} (h : r.findIncomingFile id = none)
    (i : Fin maxIncomingFiles) (hi : (r.incomingFiles i).active = true) :
    (r.incomingFiles i).transferId ≠ id := by
  have := Fin.eq_false_of_find?_eq_none h i
  simpa [hi] using this

/-- The slot a BEGIN fills, but for its stream and its temporary path. -/
def announced (cfg : ReceiverConfig) (b : FileBeginFrame) : IncomingFile where
  active := true
  transferId := b.transferId
  expectedSize := b.fileSize.toNat
  sender := b.peer
  filename := b.filename
  finalPath := cfg.directory ++ 47 :: b.filename

/-- A BEGIN that passes every check before its temporary file is made. -/
structure Stages (cfg : ReceiverConfig) (env : FileEnv) (r : Receiver) (b : FileBeginFrame) :
    Prop where
  lower : fileCryptoOverhead + b.filename.length ≤ b.fileSize.toNat
  upper : b.fileSize.toNat ≤ fileCryptoOverhead + b.filename.length + filePlaintextMaxSize
  directory : ensureDownloadDirectory env cfg.directory = .ok ()
  fresh : r.findIncomingFile b.transferId = none
  path : (cfg.directory ++ 47 :: b.filename).length < downloadPathLimit
  absent : r.lstat env (cfg.directory ++ 47 :: b.filename) = .error .ENOENT

/-- What one frame can do. -/
inductive FrameStep (cfg : ReceiverConfig) (env : FileEnv) (r : Receiver) (frame : Bytes) :
    Except Errno Unit → Receiver → Prop
  /-- Rejected before any slot was touched. -/
  | refused (e : Errno) : FrameStep cfg env r frame (.error e) r
  /-- A FILE_ERROR for a transfer the client does not know. -/
  | ignored {o : UInt32} : decodeControl frame .fileError = .ok o →
    FrameStep cfg env r frame (.ok ()) r
  /-- A BEGIN whose final path does not fit or is taken; its slot is zeroed again. -/
  | released (e : Errno) {i : Fin maxIncomingFiles} : (r.incomingFiles i).active = false →
      frame.head? = some FrameType.fileBegin.toByte →
        FrameStep cfg env r frame (.error e) (r.set i {})
  /-- A BEGIN without a temporary file: the path in its slot is unlinked all the same. -/
  | unstaged (e : Errno) (path : Bytes) {i : Fin maxIncomingFiles} {b : FileBeginFrame} :
      decodeBegin frame = some b →
      r.Stages cfg env b → (r.incomingFiles i).active = false →
      (downloadPathLimit ≤ (cfg.template b.transferId).length ∧
        path = (cfg.template b.transferId).take (downloadPathLimit - 1) ∨
      (cfg.template b.transferId).length < downloadPathLimit ∧
        path = cfg.tempStem b.transferId ++ env.suffix.val ∧
        (env.mkstemp.isSome ∨ (r.store.entry path).isSome)) →
      FrameStep cfg env r frame (.error e) ((r.unlink env.unlink path).set i {})
  /-- A BEGIN whose temporary file was made but could not be opened. -/
  | unopened (e : Errno) (path : Bytes) {i : Fin maxIncomingFiles} {b : FileBeginFrame} :
      decodeBegin frame = some b →
      r.Stages cfg env b → (r.incomingFiles i).active = false →
      path = cfg.tempStem b.transferId ++ env.suffix.val → r.store.entry path = none →
      FrameStep cfg env r frame (.error e)
        ((({ r with
          store := r.store.create path
          calls := r.calls ++ [.mkstemp path r.store.next] } : Receiver).unlink env.unlink path).set
            i {})
  | begun (path : Bytes) {i : Fin maxIncomingFiles} {b : FileBeginFrame} :
      decodeBegin frame = some b →
      r.Stages cfg env b → (r.incomingFiles i).active = false →
      (cfg.template b.transferId).length < downloadPathLimit →
      path = cfg.tempStem b.transferId ++ env.suffix.val → r.store.entry path = none →
      FrameStep cfg env r frame (.ok ())
        (({ r with
          store := r.store.create path
          calls := r.calls ++ [.mkstemp path r.store.next] } : Receiver).set i
            { announced cfg b with
              tempPath := path
              file := some { inode := r.store.next, offset := 0 } })
  | appended {i : Fin maxIncomingFiles} {c : FileChunkFrame} {f : FileStream} :
      decodeChunk frame = some c → r.findIncomingFile c.transferId = some i →
      Staged cfg r (r.incomingFiles i) f →
      (r.incomingFiles i).receivedSize + c.data.length ≤ (r.incomingFiles i).expectedSize →
      FrameStep cfg env r frame (.ok ())
        (({ r with store := r.store.write f.inode (r.store.data f.inode ++ c.data) } : Receiver).set
          i { r.incomingFiles i with
            file := some { f with offset := f.offset + c.data.length }
            receivedSize := (r.incomingFiles i).receivedSize + c.data.length })
  /-- A transfer that ends without a file, whatever was written meanwhile. -/
  | discarded (result : Except Errno Unit) (content : Bytes) {i : Fin maxIncomingFiles}
      {f : FileStream} :
      readTransferId frame = some (r.incomingFiles i).transferId →
      frame.head? ≠ some FrameType.fileBegin.toByte →
      (r.incomingFiles i).active = true → Staged cfg r (r.incomingFiles i) f →
      FrameStep cfg env r frame result
        ((({ r with store := r.store.write f.inode content } : Receiver).unlink env.unlink
          (r.incomingFiles i).tempPath).set i {})
  | saved (d : Bytes) {i : Fin maxIncomingFiles} {f : FileStream} :
      decodeControl frame .fileEnd = .ok (r.incomingFiles i).transferId →
      (r.incomingFiles i).active = true → (hs : Staged cfg r (r.incomingFiles i) f) →
      (r.incomingFiles i).receivedSize = (r.incomingFiles i).expectedSize →
      openEnvelope cfg (r.incomingFiles i).filename (r.store.data f.inode) = .ok d →
      r.store.entry (r.incomingFiles i).finalPath = none →
      FrameStep cfg env r frame (.ok ())
        ((({ r with
          store := (r.store.link f.inode (r.store.bounded _ _ hs.named)
            (r.incomingFiles i).finalPath).write f.inode d } : Receiver).unlink env.unlink
          (r.incomingFiles i).tempPath).set i {})

variable {frame : Bytes} {b : FileBeginFrame} {c : FileChunkFrame} {f : FileStream}
  {result : Except Errno Unit}

theorem discardIncomingFile_set (r : Receiver) (unlinked : Option Errno) {x : IncomingFile}
    (hx : x.tempPath ≠ []) :
    (r.set i x).discardIncomingFile unlinked i = (r.unlink unlinked x.tempPath).set i {} := by
  have hi : (r.set i x).incomingFiles i = x := Function.update_self ..
  rw [discardIncomingFile, hi, if_pos hx, unlink_set, set_set]

theorem discardIncomingFile_set_of_nil (r : Receiver) (unlinked : Option Errno) {x : IncomingFile}
    (hx : x.tempPath = []) : (r.set i x).discardIncomingFile unlinked i = r.set i {} := by
  have hi : (r.set i x).incomingFiles i = x := Function.update_self ..
  rw [discardIncomingFile, hi, if_neg (by simp [hx]), set_set]

theorem template_take (cfg : ReceiverConfig) (o : UInt32) :
    (cfg.template o).take ((cfg.template o).length - 6) = cfg.tempStem o := by
  have hl : (cfg.template o).length - 6 = (cfg.tempStem o).length := by
    rw [ReceiverConfig.template, List.length_append]
    exact Nat.add_sub_cancel _ 6
  rw [hl, ReceiverConfig.template, List.take_left]

theorem stageIncomingFile_step (hi : (r.incomingFiles i).active = false)
    (hb : decodeBegin frame = some b) (hst : r.Stages cfg env b)
    (h : (r.set i (announced cfg b)).stageIncomingFile cfg env i b.transferId = (result, r')) :
    FrameStep cfg env r frame result r' := by
  have hx : (r.set i (announced cfg b)).incomingFiles i = announced cfg b := Function.update_self ..
  simp only [stageIncomingFile, hx, set_set] at h
  split at h
  -- the template does not fit its buffer
  · next hlong =>
    have hne : (cfg.template b.transferId).take (downloadPathLimit - 1) ≠ [] := by
      intro hnil
      have hlen := congrArg List.length hnil
      have hlim : downloadPathLimit = 4096 := rfl
      rw [List.length_take, List.length_nil] at hlen
      omega
    rw [discardIncomingFile_set _ _ hne] at h
    cases h
    exact .unstaged _ _ hb hst hi (.inl ⟨hlong, rfl⟩)
  · next hshort =>
    simp only [mkstemp, template_take, set_store, set_calls] at h
    have hne : cfg.tempStem b.transferId ++ env.suffix.val ≠ [] :=
      (show cfg.IsTemp b.transferId _ from ⟨env.suffix, rfl⟩).ne_nil
    have hshort := not_le.mp hshort
    cases hm : env.mkstemp with
    | some e =>
      simp only [hm] at h
      rw [set_set, discardIncomingFile_set _ _ hne] at h
      cases h
      exact .unstaged _ _ hb hst hi (.inr ⟨hshort, rfl, .inl (by rw [hm]; rfl)⟩)
    | none =>
      by_cases hent : (r.store.entry (cfg.tempStem b.transferId ++ env.suffix.val)).isSome = true
      · simp only [hm, hent, if_true] at h
        rw [set_set, discardIncomingFile_set _ _ hne] at h
        cases h
        exact .unstaged _ _ hb hst hi (.inr ⟨hshort, rfl, .inr hent⟩)
      · simp only [hm, hent, Bool.false_eq_true, if_false] at h
        have hnone : r.store.entry (cfg.tempStem b.transferId ++ env.suffix.val) = none := by
          simpa using hent
        cases hfd : env.fdopen with
        | some e =>
          simp only [hfd, set_mk] at h
          rw [discardIncomingFile_set _ _ hne] at h
          cases h
          exact .unopened _ _ hb hst hi rfl hnone
        | none =>
          simp only [hfd, set_mk] at h
          cases h
          exact .begun _ hb hst hi hshort rfl hnone

theorem createIncomingFile_cases (r : Receiver) (o : UInt32) :
    (∃ e, r.createIncomingFile o = (.error e, r)) ∨
      ∃ i, r.findIncomingFile o = none ∧ (r.incomingFiles i).active = false ∧
        r.createIncomingFile o = (.ok i, r.set i { active := true, transferId := o }) := by
  unfold createIncomingFile
  cases hfree : r.findIncomingFile o with
  | some j => exact .inl ⟨_, rfl⟩
  | none =>
    cases hslot : Fin.find? fun i => !(r.incomingFiles i).active with
    | none => exact .inl ⟨_, rfl⟩
    | some i =>
      have := Fin.eq_true_of_find?_eq_some hslot
      exact .inr ⟨i, rfl, by simpa using this, rfl⟩

theorem receiveFileBegin_step (h : r.receiveFileBegin cfg env frame = (result, r')) :
    FrameStep cfg env r frame result r' := by
  unfold receiveFileBegin at h
  cases hb : decodeBegin frame with
  | none =>
    rw [hb] at h
    cases h
    exact .refused _
  | some b =>
    rw [hb] at h
    dsimp only at h
    by_cases hsize : b.fileSize.toNat < fileCryptoOverhead + b.filename.length ∨
        filePlaintextMaxSize < b.fileSize.toNat - (fileCryptoOverhead + b.filename.length)
    · rw [if_pos hsize] at h
      cases h
      exact .refused _
    rw [if_neg hsize] at h
    simp only [not_or, not_lt] at hsize
    obtain ⟨hlo, hhi⟩ := hsize
    cases hdir : ensureDownloadDirectory env cfg.directory with
    | error e =>
      rw [hdir] at h
      cases h
      exact .refused _
    | ok _ =>
      rw [hdir] at h
      rcases createIncomingFile_cases r b.transferId with ⟨e, hc⟩ | ⟨i, hfree, hi, hc⟩
      · rw [hc] at h
        cases h
        exact .refused _
      · rw [hc] at h
        dsimp only at h
        have hx : ∀ x, (r.set i x).incomingFiles i = x := fun x => Function.update_self ..
        have hhead := (decodeBegin_some hb).1
        -- from here on the slot is in use, and every refusal resets it
        rw [hx, buildPath] at h
        simp only [set_set] at h
        by_cases hlong : downloadPathLimit ≤ (cfg.directory ++ 47 :: b.filename).length
        · rw [if_pos hlong, discardIncomingFile_set_of_nil _ _ rfl] at h
          cases h
          exact .released _ hi hhead
        · rw [if_neg hlong] at h
          dsimp only at h
          split at h
          · rw [discardIncomingFile_set_of_nil _ _ rfl] at h
            cases h
            exact .released _ hi hhead
          · next e habsent =>
            split at h
            · rw [discardIncomingFile_set_of_nil _ _ rfl] at h
              cases h
              exact .released _ hi hhead
            · next he =>
              refine stageIncomingFile_step hi hb ?_ h
              exact
                { lower := hlo
                  upper := Nat.sub_le_iff_le_add'.mp hhi
                  directory := hdir
                  fresh := hfree
                  path := not_le.mp hlong
                  absent := (not_not.mp he) ▸ habsent }

theorem Staged.tempPath_ne_nil {x : IncomingFile} (h : Staged cfg r x f) : x.tempPath ≠ [] :=
  h.temp.ne_nil

/-- Dropping a staged transfer after its file got the content `content`. -/
theorem Staged.discard (h : Staged cfg r (r.incomingFiles i) f) (content : Bytes)
    (unlinked : Option Errno) :
    ({ r with store := r.store.write f.inode content } : Receiver).discardIncomingFile unlinked i =
      (({ r with store := r.store.write f.inode content } : Receiver).unlink unlinked
        (r.incomingFiles i).tempPath).set i {} := by
  rw [discardIncomingFile, if_pos h.tempPath_ne_nil]

theorem Staged.discard_self (h : Staged cfg r (r.incomingFiles i) f) (unlinked : Option Errno) :
    r.discardIncomingFile unlinked i =
      (({ r with store := r.store.write f.inode (r.store.data f.inode) } : Receiver).unlink unlinked
        (r.incomingFiles i).tempPath).set i {} := by
  rw [← h.discard, FileStore.write_self]

theorem Staged.fwrite (h : Staged cfg r (r.incomingFiles i) f) (data : Bytes) :
    r.fwrite f data data.length =
      ({ r with store := r.store.write f.inode (r.store.data f.inode ++ data) },
        { f with offset := f.offset + data.length }) := by
  have hend : f.offset = (r.store.data f.inode).length := h.offset.trans h.stored.symm
  simp only [Receiver.fwrite, List.take_length, hend]
  rw [List.drop_of_length_le (Nat.le_add_right _ _), List.append_nil]

theorem receiveFileChunk_step (hinv : Inv cfg r)
    (h : r.receiveFileChunk env frame = (result, r')) : FrameStep cfg env r frame result r' := by
  unfold receiveFileChunk at h
  cases hc : decodeChunk frame with
  | none =>
    rw [hc] at h
    cases h
    exact .refused _
  | some c =>
    rw [hc] at h
    dsimp only at h
    cases hi : r.findIncomingFile c.transferId with
    | none =>
      rw [hi] at h
      cases h
      exact .refused _
    | some i =>
      rw [hi] at h
      dsimp only at h
      obtain ⟨hactive, hid⟩ := findIncomingFile_some hi
      obtain ⟨f, hf⟩ := hinv.staged i hactive
      obtain ⟨hhead, hread, -, -⟩ := decodeChunk_some hc
      have hbegin : frame.head? ≠ some FrameType.fileBegin.toByte := by
        rw [hhead]
        decide
      rw [← hid] at hread
      -- the chunk does not fit
      split at h
      · rw [hf.discard_self] at h
        cases h
        exact .discarded _ _ hread hbegin hactive hf
      next hroom =>
      have hle := hf.received
      have hfit : (r.incomingFiles i).receivedSize + c.data.length ≤
          (r.incomingFiles i).expectedSize := by omega
      rw [hf.file] at h
      dsimp only at h
      rw [hf.fwrite] at h
      -- a short write is a failure
      split at h
      · split at h
        · simp only [Receiver.fwrite] at h
          rw [hf.discard] at h
          cases h
          exact .discarded _ _ hread hbegin hactive hf
        · cases h
          exact .appended hc hi hf hfit
      · cases h
        exact .appended hc hi hf hfit

/-- `decrypt_received_file` writes to the staged file only; when it succeeds, the
file holds what the envelope carried. -/
theorem decryptReceivedFile_cases (hf : Staged cfg r (r.incomingFiles i) f)
    (hfull : (r.incomingFiles i).receivedSize = (r.incomingFiles i).expectedSize)
    {answer : Except Errno ℕ}
    (h : r.decryptReceivedFile cfg env (r.incomingFiles i) f = (answer, r')) :
    ∃ content, r' = { r with store := r.store.write f.inode content } ∧
      ∀ n, answer = .ok n →
        openEnvelope cfg (r.incomingFiles i).filename (r.store.data f.inode) = .ok content := by
  have hself : r = { r with store := r.store.write f.inode (r.store.data f.inode) } := by
    rw [FileStore.write_self]
  have hread : (r.store.data f.inode).take (r.incomingFiles i).expectedSize =
      r.store.data f.inode := by
    rw [← hfull, ← hf.stored, List.take_length]
  unfold decryptReceivedFile at h
  rw [hread] at h
  split at h
  · cases h
    exact ⟨_, hself, fun n hn => by cases hn⟩
  split at h
  · cases h
    exact ⟨_, hself, fun n hn => by cases hn⟩
  dsimp only at h
  split at h
  · cases h
    exact ⟨_, hself, fun n hn => by cases hn⟩
  cases hopen : openEnvelope cfg (r.incomingFiles i).filename (r.store.data f.inode) with
  | error e =>
    rw [hopen] at h
    cases h
    exact ⟨_, hself, fun n hn => by cases hn⟩
  | ok d =>
    rw [hopen] at h
    dsimp only at h
    split at h
    · cases h
      exact ⟨_, hself, fun n hn => by cases hn⟩
    split at h
    · cases h
      exact ⟨_, rfl, fun n hn => by cases hn⟩
    next hcount =>
    split at h
    · cases h
      exact ⟨_, rfl, fun n hn => by cases hn⟩
    split at h
    · cases h
      exact ⟨_, rfl, fun n hn => by cases hn⟩
    · cases h
      -- the whole of `d` was written at the start, so the cut leaves `d`
      have hd : d.take (env.rewrite.getD d.length) = d := List.take_of_length_le (by omega)
      refine ⟨d, ?_, fun n hn => rfl⟩
      simp only [Receiver.fwrite, hd, List.take_zero, List.nil_append, FileStore.write_data,
        Function.update_self, FileStore.write_write, List.take_left]

theorem link_of_free (r : Receiver) {old new : Bytes} {k : ℕ} (hold : r.store.entry old = some k)
    (hnew : r.store.entry new = none) : r.link none old new =
      (.ok (), { r with store := r.store.link k (r.store.bounded _ _ hold) new }) := by
  unfold link
  dsimp only
  split
  · next hj =>
    rw [hold] at hj
    cases hj
  · next j hj =>
    obtain rfl : k = j := Option.some.inj (hold.symm.trans hj)
    rw [hnew]
    rfl

theorem link_cases (r : Receiver) (failure : Option Errno) {old new : Bytes} {k : ℕ}
    (hold : r.store.entry old = some k) :
    (∃ e, r.link failure old new = (.error e, r)) ∨
      r.store.entry new = none ∧ r.link failure old new =
        (.ok (), { r with store := r.store.link k (r.store.bounded _ _ hold) new }) := by
  cases failure with
  | some e => exact .inl ⟨e, rfl⟩
  | none =>
    cases hnew : r.store.entry new with
    | none => exact .inr ⟨rfl, r.link_of_free hold hnew⟩
    | some j =>
      left
      unfold link
      dsimp only
      split
      · exact ⟨_, rfl⟩
      · rw [hnew]
        exact ⟨_, rfl⟩

theorem receiveFileEnd_step (hinv : Inv cfg r)
    (h : r.receiveFileEnd cfg env frame = (result, r')) : FrameStep cfg env r frame result r' := by
  unfold receiveFileEnd at h
  cases hc : decodeControl frame .fileEnd with
  | error e =>
    rw [hc] at h
    cases h
    exact .refused _
  | ok o =>
    rw [hc] at h
    dsimp only at h
    cases hi : r.findIncomingFile o with
    | none =>
      rw [hi] at h
      cases h
      exact .refused _
    | some i =>
      rw [hi] at h
      dsimp only at h
      obtain ⟨hactive, rfl⟩ := findIncomingFile_some hi
      obtain ⟨f, hf⟩ := hinv.staged i hactive
      obtain ⟨hhead, hread⟩ := decodeControl_ok hc
      have hbegin : frame.head? ≠ some FrameType.fileBegin.toByte := by
        rw [hhead]
        decide
      -- the size is not the announced one
      split at h
      · rw [hf.discard_self] at h
        cases h
        exact .discarded _ _ hread hbegin hactive hf
      next hfull =>
      have hfull := not_not.mp hfull
      rw [hf.file] at h
      dsimp only at h
      cases hdec : r.decryptReceivedFile cfg env (r.incomingFiles i) f with
      | mk answer r₁ =>
      obtain ⟨content, rfl, hok⟩ := decryptReceivedFile_cases hf hfull hdec
      rw [hdec] at h
      cases answer with
      | error e =>
        dsimp only at h
        rw [hf.discard] at h
        cases h
        exact .discarded _ _ hread hbegin hactive hf
      | ok n =>
        dsimp only at h
        have hne : ({ r.incomingFiles i with file := none } : IncomingFile).tempPath ≠ [] :=
          hf.tempPath_ne_nil
        split at h
        · rw [discardIncomingFile_set _ _ hne] at h
          cases h
          exact .discarded _ _ hread hbegin hactive hf
        -- `link` is what makes the new name appear
        · have hold : (({ r with store := r.store.write f.inode content } : Receiver).set i
              { r.incomingFiles i with file := none }).store.entry (r.incomingFiles i).tempPath =
              some f.inode := hf.named
          rcases link_cases _ env.link hold with ⟨e, hlink⟩ | ⟨hnew, hlink⟩
          · rw [hlink] at h
            dsimp only at h
            rw [discardIncomingFile_set _ _ hne] at h
            cases h
            exact .discarded _ _ hread hbegin hactive hf
          · rw [hlink] at h
            have hsaved : FrameStep cfg env r frame _ _ :=
              .saved content hc hactive hf hfull (hok n rfl) hnew
            have hlast := (Prod.mk.inj h).2
            cases (Prod.mk.inj h).1
            rw [← hlast]
            change FrameStep cfg env r frame (.ok ()) (Receiver.set (Receiver.unlink (Receiver.set
              { r with
                store := (r.store.link f.inode (r.store.bounded _ _ hf.named)
                  (r.incomingFiles i).finalPath).write f.inode content } i
              { r.incomingFiles i with file := none }) env.unlink
              (r.incomingFiles i).tempPath) i {})
            rw [unlink_set, set_set]
            exact hsaved

theorem receiveFileError_step (hinv : Inv cfg r)
    (h : r.receiveFileError env frame = (result, r')) : FrameStep cfg env r frame result r' := by
  unfold receiveFileError at h
  cases hc : decodeControl frame .fileError with
  | error e =>
    rw [hc] at h
    cases h
    exact .refused _
  | ok o =>
    rw [hc] at h
    dsimp only at h
    cases hi : r.findIncomingFile o with
    | none =>
      rw [hi] at h
      cases h
      exact .ignored hc
    | some i =>
      rw [hi] at h
      dsimp only at h
      obtain ⟨hactive, rfl⟩ := findIncomingFile_some hi
      obtain ⟨f, hf⟩ := hinv.staged i hactive
      obtain ⟨hhead, hread⟩ := decodeControl_ok hc
      have hbegin : frame.head? ≠ some FrameType.fileBegin.toByte := by
        rw [hhead]
        decide
      rw [hf.discard_self] at h
      cases h
      exact .discarded _ _ hread hbegin hactive hf

/-- The inversion of `handle_incoming_file_frame`. -/
theorem frame_cases (hinv : Inv cfg r)
    (h : r.handleIncomingFileFrame cfg env frame = (result, r')) :
    FrameStep cfg env r frame result r' := by
  unfold handleIncomingFileFrame at h
  split at h
  · exact receiveFileBegin_step h
  · exact receiveFileChunk_step hinv h
  · exact receiveFileEnd_step hinv h
  · exact receiveFileError_step hinv h
  · cases h
    exact .refused _

end Receiver

end CipherChat
