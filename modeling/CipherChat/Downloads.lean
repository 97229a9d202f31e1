import CipherChat.IncomingTable

/-!
# Names in the download directory

Which names a frame can make, which contents it can change and which paths it
passes to `unlink`, along every run of the receiver.
-/

namespace CipherChat

theorem take_two_of_readU16 {bytes : Bytes} {n : ℕ} (h : (readU16 bytes).toNat = n)
    (hl : 2 ≤ bytes.length) : bytes.take 2 = writeU16 (UInt16.ofNat n) := by
  have hlen : (bytes.take 2).length = 2 := by simp [hl]
  have hcode := BigEndian.encode_decode (bytes.take 2)
  rw [hlen] at hcode
  rw [← h, UInt16.ofNat_toNat, readU16, writeU16, UInt16.toNat_ofNat',
    Nat.mod_eq_of_lt (lt_of_lt_of_eq (BigEndian.decode_lt _) (by rw [hlen]; rfl))]
  exact hcode.symm

theorem openEnvelope_ok {cfg : ReceiverConfig} {filename encrypted d : Bytes}
    (hlen : fileCryptoOverhead + filename.length ≤ encrypted.length)
    (h : Receiver.openEnvelope cfg filename encrypted = .ok d) :
    ∃ key nonce box, encrypted = fileCryptoMagic ++ key ++ nonce ++ box ∧
      key.length = cryptoBoxPublicKeyBytes ∧ nonce.length = cryptoBoxNonceBytes ∧
      cfg.box.openEasy box nonce key cfg.privateKey =
        some (fileCryptoMagic ++ writeU16 (UInt16.ofNat filename.length) ++ filename ++ d) := by
  have hover := fileCryptoOverhead_eq
  have hpk := cryptoBoxPublicKeyBytes_eq
  have hnb := cryptoBoxNonceBytes_eq
  have hmac := cryptoBoxMacBytes_eq
  have hms := fileCryptoMagicSize_eq
  have hhs := fileCryptoHeaderSize_eq
  have hmd := fileCryptoMetadataSize_eq
  unfold Receiver.openEnvelope at h
  rw [hpk, hnb, hmac, hms, hhs, hmd] at h
  rw [hpk, hnb]
  rw [hover] at hlen
  -- the magic of the envelope
  split at h
  · cases h
  next hmagic =>
  have hmagic := not_not.mp hmagic
  dsimp only at h
  -- the box
  split at h
  · cases h
  next message hopen =>
  have hbox := cfg.box.openEasy_length _ _ _ _ _ hopen
  rw [hmac, List.length_drop] at hbox
  -- the magic, the length and the name inside the box
  split at h
  · cases h
  next hfields =>
  simp only [not_or, not_not, not_lt] at hfields
  obtain ⟨hm, hn, -, hname⟩ := hfields
  rw [hn] at hname h
  have hd : d = message.drop (10 + filename.length) := by
    rw [← Except.ok.inj h, List.take_of_length_le]
    rw [List.length_drop, List.length_drop]
    omega
  refine ⟨(encrypted.drop 8).take 32, (encrypted.drop 40).take 24, encrypted.drop 64, ?_, ?_, ?_,
    ?_⟩
  · rw [← hmagic]
    have h40 : encrypted.drop 40 = (encrypted.drop 8).drop 32 := by rw [List.drop_drop]
    have h64 : encrypted.drop 64 = (encrypted.drop 40).drop 24 := by rw [List.drop_drop]
    rw [h64, List.append_assoc, List.append_assoc, List.take_append_drop, h40,
      List.take_append_drop, List.take_append_drop]
  · rw [List.length_take, List.length_drop]
    omega
  · rw [List.length_take, List.length_drop]
    omega
  · have h10 : message.drop 10 = (message.drop 8).drop 2 := by rw [List.drop_drop]
    have hsplit : message.take 8 ++ ((message.drop 8).take 2 ++ ((message.drop 10).take
        filename.length ++ (message.drop 10).drop filename.length)) = message := by
      rw [List.take_append_drop, h10, List.take_append_drop, List.take_append_drop]
    rw [hm, hname, take_two_of_readU16 hn (by rw [List.length_drop]; omega), List.drop_drop,
      ← hd] at hsplit
    rw [hopen, List.append_assoc, List.append_assoc, hsplit]

namespace Receiver

variable {cfg : ReceiverConfig} {env : FileEnv} {r r' : Receiver} {i : Fin maxIncomingFiles}
  {frame : Bytes} {f : FileStream} {result : Except Errno Unit}

/-- `p` names the file that a successful `mkstemp` made under this name. -/
def IsTemporary (r : Receiver) (p : Bytes) : Prop :=
  ∃ k, r.store.entry p = some k ∧ .mkstemp p k ∈ r.calls

/-- Every file was made under one name at most. -/
structure Made (r : Receiver) : Prop where
  bound : ∀ p k, .mkstemp p k ∈ r.calls → k < r.store.next
  unique : ∀ p q k, .mkstemp p k ∈ r.calls → .mkstemp q k ∈ r.calls → p = q

theorem Made.of_calls (h : r.Made) (hnext : r'.store.next = r.store.next)
    (hcalls : ∀ p k, .mkstemp p k ∈ r'.calls → .mkstemp p k ∈ r.calls) : r'.Made where
  bound p k hp := by
    rw [hnext]
    exact h.bound p k (hcalls p k hp)
  unique p q k hp hq := h.unique p q k (hcalls p k hp) (hcalls q k hq)

theorem Made.unlink (h : r.Made) (failure : Option Errno) (path : Bytes) :
    (r.unlink failure path).Made := by
  refine h.of_calls ?_ fun p k hp => ?_
  · unfold Receiver.unlink
    split <;> rfl
  · obtain ⟨removed, hcalls⟩ := unlink_calls r failure path
    rw [hcalls] at hp
    simpa using hp

theorem Made.create (h : r.Made) (path : Bytes) : Made { r with
    store := r.store.create path
    calls := r.calls ++ [.mkstemp path r.store.next] } := by
  have hcases : ∀ p k, .mkstemp p k ∈ r.calls ++ [.mkstemp path r.store.next] →
      .mkstemp p k ∈ r.calls ∧ k < r.store.next ∨ p = path ∧ k = r.store.next := by
    intro p k hp
    rcases List.mem_append.mp hp with hp | hp
    · exact .inl ⟨hp, h.bound p k hp⟩
    · have heq := List.mem_singleton.mp hp
      exact .inr ⟨(FileCall.mkstemp.inj heq).1, (FileCall.mkstemp.inj heq).2⟩
  constructor
  · intro p k hp
    rw [FileStore.create_next]
    rcases hcases p k hp with ⟨-, hk⟩ | ⟨-, hk⟩ <;> omega
  · intro p q k hp hq
    rcases hcases p k hp with ⟨hp, hk⟩ | ⟨hp, hk⟩
    · rcases hcases q k hq with ⟨hq, -⟩ | ⟨-, hk'⟩
      · exact h.unique p q k hp hq
      · omega
    · rcases hcases q k hq with ⟨-, hk'⟩ | ⟨hq, -⟩
      · omega
      · rw [hp, hq]

theorem Made.step (h : r.Made) (hstep : FrameStep cfg env r frame result r') : r'.Made := by
  cases hstep with
  | refused e => exact h
  | ignored _ => exact h
  | released e _ _ => exact h.of_calls rfl fun _ _ hp => hp
  | unstaged e path _ _ _ _ => exact (h.unlink _ _).of_calls rfl fun _ _ hp => hp
  | unopened e path _ _ _ _ _ => exact ((h.create path).unlink _ _).of_calls rfl fun _ _ hp => hp
  | begun path _ _ _ _ _ _ => exact (h.create path).of_calls rfl fun _ _ hp => hp
  | appended _ _ _ _ => exact h.of_calls rfl fun _ _ hp => hp
  | @discarded _ content i f _ _ _ _ =>
    have hw : Made { r with store := r.store.write f.inode content } :=
      h.of_calls rfl fun _ _ hp => hp
    exact (hw.unlink _ _).of_calls rfl fun _ _ hp => hp
  | @saved d i f _ _ hs _ _ _ =>
    have hw : Made { r with
        store := (r.store.link f.inode (r.store.bounded _ _ hs.named)
          (r.incomingFiles i).finalPath).write f.inode d } := h.of_calls rfl fun _ _ hp => hp
    exact (hw.unlink _ _).of_calls rfl fun _ _ hp => hp

theorem made_of_reach {store : FileStore Bytes UInt8} (hr : (receiver cfg store).Reachable r) :
    r.Made := by
  refine hr.invariant ⟨fun p k hp => (by cases hp), fun p q k hp => (by cases hp)⟩
    fun s l s' hs _ hmade hstep => ?_
  have hinv : Inv cfg s := inv_of_reach hs
  obtain rfl := Option.some.inj hstep
  cases l with
  | frame env bytes => exact hmade.step (frame_cases hinv Prod.mk.eta.symm)
  | cleanup unlinked =>
    refine (cleanup_invariant (P := Made) unlinked (fun s i hs hmade hi => ?_) hinv hmade).2.1
    rw [(hs.discard hi _).2]
    exact (hmade.unlink _ _).of_calls rfl fun _ _ hp => hp

/-- The frame is the FILE_END of a transfer whose announced bytes all arrived and
open under the own private key, and `p` is the announced name with what they carry. -/
def Saves (cfg : ReceiverConfig) (r r' : Receiver) (frame p : Bytes) : Prop :=
  ∃ i staged key nonce box d,
    (r.incomingFiles i).active = true ∧
    decodeControl frame .fileEnd = .ok (r.incomingFiles i).transferId ∧
    p = cfg.directory ++ 47 :: (r.incomingFiles i).filename ∧
    (r.incomingFiles i).filename ≠ [] ∧
    (47 : UInt8) ∉ (r.incomingFiles i).filename ∧ (92 : UInt8) ∉ (r.incomingFiles i).filename ∧
    (r.incomingFiles i).filename ≠ ascii "." ∧ (r.incomingFiles i).filename ≠ ascii ".." ∧
    r.store.read (r.incomingFiles i).tempPath = some staged ∧
    staged.length = (r.incomingFiles i).expectedSize ∧
    staged = fileCryptoMagic ++ key ++ nonce ++ box ∧
    key.length = cryptoBoxPublicKeyBytes ∧ nonce.length = cryptoBoxNonceBytes ∧
    cfg.box.openEasy box nonce key cfg.privateKey = some (fileCryptoMagic ++
      writeU16 (UInt16.ofNat (r.incomingFiles i).filename.length) ++
      (r.incomingFiles i).filename ++ d) ∧
    r'.store.read p = some d ∧ ¬r'.IsTemporary p

theorem Staged.saves (hf : Staged cfg r (r.incomingFiles i) f)
    (hactive : (r.incomingFiles i).active = true)
    (hc : decodeControl frame .fileEnd = .ok (r.incomingFiles i).transferId)
    (hfull : (r.incomingFiles i).receivedSize = (r.incomingFiles i).expectedSize) {d : Bytes}
    (hopen : openEnvelope cfg (r.incomingFiles i).filename (r.store.data f.inode) = .ok d)
    (hread : r'.store.read (r.incomingFiles i).finalPath = some d)
    (htemp : ¬r'.IsTemporary (r.incomingFiles i).finalPath) :
    Saves cfg r r' frame (r.incomingFiles i).finalPath := by
  have hlen : (r.store.data f.inode).length = (r.incomingFiles i).expectedSize :=
    hf.stored.trans hfull
  obtain ⟨key, nonce, box, hstaged, hkey, hnonce, hbox⟩ :=
    openEnvelope_ok (by rw [hlen]; exact hf.lower) hopen
  obtain ⟨hne, -, ⟨hdot, hdots⟩, hbytes⟩ := validFilename_iff.mp hf.filename
  refine ⟨i, r.store.data f.inode, key, nonce, box, d, hactive, hc, hf.finalPath, ?_,
    fun hmem => (hbytes _ hmem).2.1 rfl, fun hmem => (hbytes _ hmem).2.2.1 rfl, hdot, hdots, ?_,
    hlen, hstaged, hkey, hnonce, hbox, hread, htemp⟩
  · intro hnil
    rw [hnil] at hne
    exact hne rfl
  · rw [FileStore.read, hf.named]
    rfl

theorem Made.appears (h : r.Made) (hstep : FrameStep cfg env r frame result r') {p : Bytes}
    (hp : r.store.entry p = none) (hp' : r'.store.entry p ≠ none) :
    r'.IsTemporary p ∨ Saves cfg r r' frame p := by
  have hunlink : ∀ {q : Receiver} {failure : Option Errno} {path : Bytes},
      (q.unlink failure path).store.entry p ≠ none → q.store.entry p ≠ none := by
    intro q failure path hne
    obtain ⟨k, hk⟩ := Option.ne_none_iff_exists'.mp hne
    rw [unlink_entry_some hk]
    exact Option.some_ne_none k
  cases hstep with
  | refused e => exact absurd hp hp'
  | ignored _ => exact absurd hp hp'
  | released e _ _ => exact absurd hp hp'
  | unstaged e path _ _ _ _ => exact absurd hp (hunlink hp')
  | @unopened e path i b _ _ _ _ hnone =>
    left
    -- the name can only be the one `mkstemp` made, left over by a failing `unlink`
    by_cases hpath : p = path
    · subst hpath
      obtain ⟨k, hk⟩ := Option.ne_none_iff_exists'.mp hp'
      refine ⟨k, hk, ?_⟩
      have hcreated : (r.store.create p).entry p = some k := unlink_entry_some hk
      rw [FileStore.create_entry, Function.update_self] at hcreated
      obtain ⟨removed, hcalls⟩ := unlink_calls ({ r with
        store := r.store.create p
        calls := r.calls ++ [.mkstemp p r.store.next] } : Receiver) env.unlink p
      rw [set_calls, hcalls, Option.some.inj hcreated]
      simp
    · have hold := hunlink hp'
      rw [FileStore.create_entry, Function.update_of_ne hpath] at hold
      exact absurd hp hold
  | @begun path i b _ _ _ _ _ hnone =>
    left
    by_cases hpath : p = path
    · subst hpath
      exact ⟨r.store.next, Function.update_self .., by simp⟩
    · rw [set_store, FileStore.create_entry, Function.update_of_ne hpath] at hp'
      exact absurd hp hp'
  | appended _ _ _ _ => exact absurd hp hp'
  | discarded _ content _ _ _ _ =>
    have hold := hunlink hp'
    exact absurd hp hold
  | @saved d i f hc hactive hf hfull hopen hnew =>
    right
    have hold := hunlink hp'
    by_cases hpath : p = (r.incomingFiles i).finalPath
    · subst hpath
      have hne : (r.incomingFiles i).finalPath ≠ (r.incomingFiles i).tempPath := by
        intro heq
        have hnamed := hf.named
        rw [← heq, hp] at hnamed
        cases hnamed
      refine hf.saves hactive hc hfull hopen ?_ ?_
      · rw [FileStore.read, set_store, unlink_entry_of_ne _ _ hne, unlink_data,
          FileStore.write_entry, FileStore.link_entry, Function.update_self, FileStore.write_data]
        exact congrArg some (Function.update_self ..)
      · -- the saved file was made under its temporary path
        rintro ⟨k, hk, hmem⟩
        rw [set_store, unlink_entry_of_ne _ _ hne, FileStore.write_entry, FileStore.link_entry,
          Function.update_self] at hk
        obtain ⟨removed, hcalls⟩ := unlink_calls ({ r with
          store := (r.store.link f.inode (r.store.bounded _ _ hf.named)
            (r.incomingFiles i).finalPath).write f.inode d } : Receiver) env.unlink
              (r.incomingFiles i).tempPath
        rw [set_calls, hcalls, ← Option.some.inj hk] at hmem
        exact hne (h.unique _ _ _ (by simpa using hmem) hf.made)
    · rw [FileStore.write_entry, FileStore.link_entry, Function.update_of_ne hpath] at hold
      exact absurd hp hold

/-- File `k` holds `content` and is no transfer's staging file; its name `p` is
still there unless it was unlinked. -/
structure Kept (r : Receiver) (p : Bytes) (k : ℕ) (content : Bytes) : Prop where
  data : r.store.data k = content
  bound : k < r.store.next
  unowned : ∀ i f, (r.incomingFiles i).file = some f → f.inode ≠ k
  name : r.store.entry p = some k ∨ .unlink p (some k) true ∈ r.calls

section Kept

variable {p : Bytes} {k : ℕ} {content : Bytes}

theorem Kept.set (h : Kept r p k content) {x : IncomingFile}
    (hx : ∀ f, x.file = some f → f.inode ≠ k) : Kept (r.set i x) p k content where
  data := h.data
  bound := h.bound
  unowned j f hf := by
    by_cases hji : j = i
    · subst hji
      rw [set_incomingFiles, Function.update_self] at hf
      exact hx f hf
    · rw [set_incomingFiles, Function.update_of_ne hji] at hf
      exact h.unowned j f hf
  name := h.name

theorem Kept.reset (h : Kept r p k content) : Kept (r.set i {}) p k content :=
  h.set fun _ hf => by cases hf

theorem Kept.unlink (h : Kept r p k content) (failure : Option Errno) (path : Bytes) :
    Kept (r.unlink failure path) p k content where
  data := by
    rw [unlink_data]
    exact h.data
  bound := by
    unfold Receiver.unlink
    split
    · exact h.bound
    · exact h.bound
  unowned j f hf := by
    rw [unlink_incomingFiles] at hf
    exact h.unowned j f hf
  name := by
    unfold Receiver.unlink
    rcases h.name with hp | hp
    · by_cases hpath : p = path
      · subst hpath
        rw [hp]
        split
        · next hk =>
          obtain rfl := Option.some.inj hk
          exact .inr (by simp)
        · exact .inl hp
      · left
        split
        · rw [FileStore.unlink_entry, Function.update_of_ne hpath]
          exact hp
        · exact hp
    · right
      split
      · exact List.mem_append_left _ hp
      · exact List.mem_append_left _ hp

theorem Kept.create (h : Kept r p k content) {path : Bytes} (hpath : r.store.entry path = none) :
    Kept { r with
      store := r.store.create path
      calls := r.calls ++ [.mkstemp path r.store.next] } p k content where
  data := by
    rw [FileStore.create_data, Function.update_of_ne (Nat.ne_of_lt h.bound)]
    exact h.data
  bound := Nat.lt_succ_of_lt h.bound
  unowned := h.unowned
  name := by
    rcases h.name with hp | hp
    · left
      have hne : p ≠ path := by
        rintro rfl
        rw [hpath] at hp
        cases hp
      rw [FileStore.create_entry, Function.update_of_ne hne]
      exact hp
    · exact .inr (List.mem_append_left _ hp)

theorem Kept.write (h : Kept r p k content) {j : ℕ} (hj : j ≠ k) (bytes : Bytes) :
    Kept { r with store := r.store.write j bytes } p k content where
  data := by
    rw [FileStore.write_data, Function.update_of_ne (Ne.symm hj)]
    exact h.data
  bound := h.bound
  unowned := h.unowned
  name := h.name

theorem Kept.link (h : Kept r p k content) {j : ℕ} (hj : j < r.store.next) {path : Bytes}
    (hpath : r.store.entry path = none) :
    Kept { r with store := r.store.link j hj path } p k content where
  data := h.data
  bound := h.bound
  unowned := h.unowned
  name := by
    rcases h.name with hp | hp
    · left
      have hne : p ≠ path := by
        rintro rfl
        rw [hpath] at hp
        cases hp
      rw [FileStore.link_entry, Function.update_of_ne hne]
      exact hp
    · exact .inr hp

theorem Kept.step (h : Kept r p k content) (hstep : FrameStep cfg env r frame result r') :
    Kept r' p k content := by
  cases hstep with
  | refused e => exact h
  | ignored _ => exact h
  | released e _ _ => exact h.reset
  | unstaged e path _ _ _ _ => exact (h.unlink _ _).reset
  | unopened e path _ _ _ _ hnone => exact ((h.create hnone).unlink _ _).reset
  | begun path _ _ _ _ _ hnone =>
    refine (h.create hnone).set fun f hf => ?_
    obtain rfl := Option.some.inj hf
    exact (Nat.ne_of_lt h.bound).symm
  | appended _ _ hf _ =>
    have hne := h.unowned _ _ hf.file
    refine (h.write hne _).set fun f' hf' => ?_
    obtain rfl := Option.some.inj hf'
    exact hne
  | discarded _ content _ _ _ hf => exact ((h.write (h.unowned _ _ hf.file) _).unlink _ _).reset
  | saved d _ _ hf _ _ hnew =>
    exact (((h.link (r.store.bounded _ _ hf.named) hnew).write (h.unowned _ _ hf.file) _).unlink
      _ _).reset

theorem Kept.discard (h : Kept r p k content) (unlinked : Option Errno) :
    Kept (r.discardIncomingFile unlinked i) p k content := by
  unfold discardIncomingFile
  split
  · exact (h.unlink _ _).reset
  · exact h.reset

theorem Inv.kept (h : Inv cfg r) (hp : r.store.entry p = some k) (htemp : ¬r.IsTemporary p) :
    Kept r p k (r.store.data k) where
  data := rfl
  bound := r.store.bounded p k hp
  unowned i f hf heq := by
    have hactive : (r.incomingFiles i).active = true := by
      by_contra hne
      rw [h.zeroed i (by simpa using hne)] at hf
      cases hf
    obtain ⟨f', hf'⟩ := h.staged i hactive
    obtain rfl : f = f' := Option.some.inj (hf.symm.trans hf'.file)
    subst heq
    obtain rfl := hf'.sole p hp
    exact htemp ⟨f.inode, hf'.named, hf'.made⟩
  name := .inl hp

end Kept

section

variable {store : FileStore Bytes UInt8}

theorem Inv.cleanup_entry (h : Inv cfg r) (unlinked : Fin maxIncomingFiles → Option Errno)
    {p : Bytes} (hp : r.store.entry p = none) :
    (r.cleanupIncomingFiles unlinked).store.entry p = none := by
  refine (cleanup_invariant (P := fun r => r.store.entry p = none) unlinked ?_ h hp).2.1
  intro s i hs hnone hi
  rw [(hs.discard hi _).2, set_store]
  by_contra hne
  obtain ⟨k, hk⟩ := Option.ne_none_iff_exists'.mp hne
  rw [unlink_entry_some hk] at hnone
  cases hnone

theorem Kept.of_steps {p : Bytes} {k : ℕ} {content : Bytes} (hr : (receiver cfg store).Reachable r)
    (h : Kept r p k content) (hsteps : (receiver cfg store).Steps r r') : Kept r' p k content := by
  refine hsteps.invariant (P := fun r => Kept r p k content) (fun s l s' hs hkept hstep => ?_) h
  have hinv : Inv cfg s := inv_of_reach (hr.steps hs)
  obtain rfl := Option.some.inj hstep
  cases l with
  | frame env bytes => exact hkept.step (frame_cases hinv Prod.mk.eta.symm)
  | cleanup unlinked =>
    exact (cleanup_invariant (P := fun r => Kept r p k content) unlinked
      (fun _ _ _ hkept _ => hkept.discard _) hinv hkept).2.1

/-- In every run, a name that appears is a temporary file's or, during a FILE_END
and under a name that was free, an authenticated file's; and a file that is not
temporary keeps its content for good. -/
theorem only_authenticated_files_saved (cfg : ReceiverConfig) (store : FileStore Bytes UInt8)
    {r : Receiver} (hr : (receiver cfg store).Reachable r) :
    (∀ env frame p, r.store.entry p = none →
      (r.handleIncomingFileFrame cfg env frame).2.store.entry p ≠ none →
      (r.handleIncomingFileFrame cfg env frame).2.IsTemporary p ∨
        Saves cfg r (r.handleIncomingFileFrame cfg env frame).2 frame p) ∧
    (∀ unlinked p, r.store.entry p = none →
      (r.cleanupIncomingFiles unlinked).store.entry p = none) ∧
    ∀ p k, r.store.entry p = some k → ¬r.IsTemporary p →
      ∀ r', (receiver cfg store).Steps r r' →
        r'.store.data k = r.store.data k ∧
          (r'.store.entry p = some k ∨ .unlink p (some k) true ∈ r'.calls) := by
  have hinv := inv_of_reach hr
  refine ⟨fun env frame p hp hp' => (made_of_reach hr).appears (frame_cases hinv Prod.mk.eta.symm)
    hp hp',
    fun unlinked p hp => hinv.cleanup_entry unlinked hp, fun p k hp htemp r' hsteps => ?_⟩
  have hkept := (hinv.kept hp htemp).of_steps hr hsteps
  exact ⟨hkept.data, hkept.name⟩

theorem only_authenticated_files_saved_sample : ∃ r, (receiver bobConfig emptyStore).Reachable r ∧
    (r.handleIncomingFileFrame bobConfig {} sampleEnd).2.store.read (ascii "downloads/a") =
      some (ascii "hi") ∧
    ((r.handleIncomingFileFrame bobConfig {} sampleEnd).2.IsTemporary (ascii "downloads/a") ∨
      Saves bobConfig r (r.handleIncomingFileFrame bobConfig {} sampleEnd).2 sampleEnd
        (ascii "downloads/a")) := by
  have hreach : (receiver bobConfig emptyStore).Reachable sampleStaged :=
    .step (.step .init trivial (show _ = some (ReceiverLabel.apply _ _ (.frame {} sampleBegin)) from
      rfl)) trivial (show _ = some (ReceiverLabel.apply _ _ (.frame {} sampleChunk)) from rfl)
  exact ⟨sampleStaged, hreach, by decide +kernel,
    (only_authenticated_files_saved bobConfig emptyStore hreach).1 {} sampleEnd _
      (by decide +kernel) (by decide +kernel)⟩

end

/-- Every path passed to `unlink` names, at that moment, the file that an earlier
successful `mkstemp` made under it. -/
def UnlinksOwn (calls : List FileCall) : Prop :=
  ∀ before path named removed after, calls = before ++ .unlink path named removed :: after →
    ∃ k, named = some k ∧ .mkstemp path k ∈ before

theorem UnlinksOwn.concat {calls : List FileCall} (h : UnlinksOwn calls) {c : FileCall}
    (hc : ∀ path named removed, c = .unlink path named removed →
      ∃ k, named = some k ∧ .mkstemp path k ∈ calls) : UnlinksOwn (calls ++ [c]) := by
  intro before path named removed after heq
  rcases List.eq_nil_or_concat' after with rfl | ⟨after, last, rfl⟩
  · obtain ⟨rfl, hlast⟩ := List.append_inj' heq rfl
    exact hc path named removed (List.cons.inj hlast).1
  · rw [← List.cons_append, ← List.append_assoc] at heq
    obtain ⟨hcalls, -⟩ := List.append_inj' heq rfl
    exact h before path named removed after hcalls

theorem UnlinksOwn.unlink (h : UnlinksOwn r.calls) {path : Bytes} {k : ℕ}
    (hk : r.store.entry path = some k) (hmade : .mkstemp path k ∈ r.calls)
    (failure : Option Errno) : UnlinksOwn (r.unlink failure path).calls := by
  obtain ⟨removed, hcalls⟩ := unlink_calls r failure path
  rw [hcalls]
  refine h.concat fun path' named removed' heq => ?_
  obtain ⟨rfl, rfl, -⟩ := FileCall.unlink.inj heq
  exact ⟨k, hk, hmade⟩

/-- The temporary file of every BEGIN that gets as far as making one is made: its
template fits and `mkstemp` succeeds. -/
def StagesFile (cfg : ReceiverConfig) (r : Receiver) : ReceiverLabel → Prop
  | .frame env bytes => ∀ b, decodeBegin bytes = some b → r.Stages cfg env b →
      (cfg.template b.transferId).length < downloadPathLimit ∧ env.mkstemp = none ∧
        r.store.entry (cfg.tempStem b.transferId ++ env.suffix.val) = none
  | .cleanup _ => True

theorem UnlinksOwn.step (h : UnlinksOwn r.calls) (hok : StagesFile cfg r (.frame env frame))
    (hstep : FrameStep cfg env r frame result r') : UnlinksOwn r'.calls := by
  cases hstep with
  | refused e => exact h
  | ignored _ => exact h
  | released e _ _ => exact h
  | unstaged e path hb hst _ hpath =>
    obtain ⟨hfits, hmk, hfree⟩ := hok _ hb hst
    rcases hpath with ⟨hlong, -⟩ | ⟨-, rfl, hfail | hused⟩
    · exact absurd hfits (not_lt.mpr hlong)
    · rw [hmk] at hfail
      cases hfail
    · rw [hfree] at hused
      cases hused
  | @unopened e path i b _ _ _ _ hnone =>
    have hmade : UnlinksOwn (r.calls ++ [.mkstemp path r.store.next]) :=
      h.concat fun _ _ _ heq => by cases heq
    exact UnlinksOwn.unlink (r := { r with
      store := r.store.create path
      calls := r.calls ++ [.mkstemp path r.store.next] }) hmade (Function.update_self ..)
      (by simp) env.unlink
  | begun path _ _ _ _ _ _ => exact h.concat fun _ _ _ heq => by cases heq
  | appended _ _ _ _ => exact h
  | @discarded _ content i f _ _ _ hf =>
    exact UnlinksOwn.unlink (r := { r with store := r.store.write f.inode content }) h hf.named
      hf.made env.unlink
  | @saved d i f _ _ hf _ _ hnew =>
    refine UnlinksOwn.unlink (r := { r with
      store := (r.store.link f.inode (r.store.bounded _ _ hf.named)
        (r.incomingFiles i).finalPath).write f.inode d }) h ?_ hf.made env.unlink
    have hne : (r.incomingFiles i).tempPath ≠ (r.incomingFiles i).finalPath := by
      intro heq
      have hnamed := hf.named
      rw [heq, hnew] at hnamed
      cases hnamed
    rw [FileStore.write_entry, FileStore.link_entry, Function.update_of_ne hne]
    exact hf.named

/-- As long as the temporary files of the BEGINs are made, only temporary files
are unlinked. -/
theorem unlinks_own_files (cfg : ReceiverConfig) (store : FileStore Bytes UInt8) {r : Receiver}
    (hr : (receiver cfg store).Reach (StagesFile cfg) r) : UnlinksOwn r.calls := by
  refine hr.invariant (P := fun r => UnlinksOwn r.calls) (fun before _ _ _ _ heq => ?_)
    fun s l s' hs hok h hstep => ?_
  · cases before <;> cases heq
  · have hinv : Inv cfg s := inv_of_reach hs
    obtain rfl := Option.some.inj hstep
    cases l with
    | frame env bytes => exact h.step hok (frame_cases hinv Prod.mk.eta.symm)
    | cleanup unlinked =>
      refine (cleanup_invariant (P := fun r => UnlinksOwn r.calls) unlinked
        (fun s i hs h hi => ?_) hinv h).2.1
      obtain ⟨f, hf⟩ := hs.staged i hi
      rw [(hs.discard hi _).2, set_calls]
      exact h.unlink hf.named hf.made _

theorem unlinks_own_files_sample : ∃ r, (receiver bobConfig emptyStore).Reach
    (StagesFile bobConfig) r ∧ r.calls = [.mkstemp (ascii "downloads/.cipher-chat-7-1-XXXXXX") 0,
      .unlink (ascii "downloads/.cipher-chat-7-1-XXXXXX") (some 0) true] ∧ UnlinksOwn r.calls := by
  have hbegin : StagesFile bobConfig (.start emptyStore) (.frame {} sampleBegin) := by
    intro b hb _
    have hdec : decodeBegin sampleBegin =
      some ⟨1, 93, ascii "alice", ascii "a"⟩ := by decide +kernel
    obtain rfl := Option.some.inj (hdec.symm.trans hb)
    exact ⟨by decide +kernel, rfl, rfl⟩
  have hother : ∀ r frame, decodeBegin frame = none → StagesFile bobConfig r (.frame {} frame) :=
    fun r frame hnone b hb => by
      rw [hnone] at hb
      cases hb
  have hreach : (receiver bobConfig emptyStore).Reach (StagesFile bobConfig)
      (sampleStaged.handleIncomingFileFrame bobConfig {} sampleEnd).2 :=
    .step (.step (.step .init hbegin rfl) (hother _ sampleChunk (by decide +kernel)) rfl)
      (hother _ sampleEnd (by decide +kernel)) rfl
  exact ⟨_, hreach, by decide +kernel, unlinks_own_files bobConfig emptyStore hreach⟩

def strangerStore : FileStore Bytes UInt8 :=
    emptyStore.create (ascii "downloads/.cipher-chat-7-1-XXXXXX")

/-- `mkstemp` fails for want of a descriptor and leaves its template alone; the
file that happens to be there is removed. -/
theorem unlinks_a_stranger : ¬∀ cfg store r, (receiver cfg store).Reachable r →
    UnlinksOwn r.calls := by
  intro h
  have hreach : (receiver bobConfig strangerStore).Reachable
      ((Receiver.start strangerStore).handleIncomingFileFrame bobConfig
        { mkstemp := some (.other 24) }
        sampleBegin).2 :=
    .step .init trivial (show _ = some (ReceiverLabel.apply _ _
      (.frame { mkstemp := some (.other 24) } sampleBegin)) from rfl)
  have hcalls : ((Receiver.start strangerStore).handleIncomingFileFrame bobConfig
      { mkstemp := some (.other 24) } sampleBegin).2.calls =
      [] ++ [.unlink (ascii "downloads/.cipher-chat-7-1-XXXXXX") (some 0) true] := by
    decide +kernel
  obtain ⟨k, -, hmem⟩ := h _ _ _ hreach _ _ _ _ _ hcalls
  cases hmem

end Receiver

end CipherChat
