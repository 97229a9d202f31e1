import CipherChat.IncomingSteps
import CipherChat.Lib.Transition

/-!
# The table of incoming files

The transfers in the other slots survive whatever one frame does, so the table's
invariant holds along every run of the receiver.
-/

namespace CipherChat

namespace Receiver

variable {cfg : ReceiverConfig} {env : FileEnv} {r r' : Receiver} {i : Fin maxIncomingFiles}
  {frame : Bytes} {b : FileBeginFrame} {f : FileStream} {result : Except Errno Unit}

section Frame

variable {x : IncomingFile}

theorem Staged.of_store (h : Staged cfg r x f)
    (hdata : r'.store.data f.inode = r.store.data f.inode)
    (hnamed : r'.store.entry x.tempPath = r.store.entry x.tempPath)
    (hsole : ∀ p, r'.store.entry p = some f.inode → r.store.entry p = some f.inode)
    (hcalls : ∀ c ∈ r.calls, c ∈ r'.calls) : Staged cfg r' x f :=
  { h with
    stored := by
      rw [hdata]
      exact h.stored
    named := hnamed.trans h.named
    sole := fun p hp => h.sole p (hsole p hp)
    made := hcalls _ h.made }

theorem Staged.set (h : Staged cfg r x f) (i : Fin maxIncomingFiles) (y : IncomingFile) :
    Staged cfg (r.set i y) x f :=
  h.of_store rfl rfl (fun _ hp => hp) fun _ hc => hc

theorem Staged.unlink (h : Staged cfg r x f) (failure : Option Errno) {path : Bytes}
    (hpath : x.tempPath ≠ path) : Staged cfg (r.unlink failure path) x f := by
  refine h.of_store (by rw [unlink_data]) (unlink_entry_of_ne r failure hpath)
    (fun p hp => unlink_entry_some hp) fun c hc => ?_
  obtain ⟨removed, hcalls⟩ := unlink_calls r failure path
  rw [hcalls]
  exact List.mem_append_left _ hc

theorem Staged.create (h : Staged cfg r x f) {path : Bytes} (hpath : r.store.entry path = none) :
    Staged cfg { r with
      store := r.store.create path
      calls := r.calls ++ [.mkstemp path r.store.next] } x f := by
  have hnext : f.inode ≠ r.store.next := FileStore.ne_next h.named
  have htemp : x.tempPath ≠ path := by
    intro heq
    have hnamed := h.named
    rw [heq, hpath] at hnamed
    cases hnamed
  refine h.of_store (Function.update_of_ne hnext _ _) (Function.update_of_ne htemp _ _)
    (fun p hp => ?_) fun c hc => List.mem_append_left _ hc
  by_cases hp' : p = path
  · subst hp'
    have hsome : some r.store.next = some f.inode := by simpa using hp
    exact absurd (Option.some.inj hsome).symm hnext
  · rw [FileStore.create_entry, Function.update_of_ne hp'] at hp
    exact hp

theorem Staged.write_other (h : Staged cfg r x f) {k : ℕ} (hk : f.inode ≠ k) (content : Bytes) :
    Staged cfg { r with store := r.store.write k content } x f :=
  h.of_store (Function.update_of_ne hk _ _) rfl (fun _ hp => hp) fun _ hc => hc

theorem Staged.link_other (h : Staged cfg r x f) {k : ℕ} (hk : f.inode ≠ k)
    (hbound : k < r.store.next) {path : Bytes} (hpath : r.store.entry path = none) :
    Staged cfg { r with store := r.store.link k hbound path } x f := by
  have htemp : x.tempPath ≠ path := by
    intro heq
    have hnamed := h.named
    rw [heq, hpath] at hnamed
    cases hnamed
  refine h.of_store rfl (Function.update_of_ne htemp _ _) (fun p hp => ?_) fun _ hc => hc
  by_cases hp' : p = path
  · subst hp'
    have hsome : some k = some f.inode := by simpa using hp
    exact absurd (Option.some.inj hsome).symm hk
  · rw [FileStore.link_entry, Function.update_of_ne hp'] at hp
    exact hp

end Frame

namespace Inv

theorem tempPath_ne (h : Inv cfg r) {j : Fin maxIncomingFiles} {f' : FileStream} (hij : i ≠ j)
    (hi : (r.incomingFiles i).active = true) (hj : (r.incomingFiles j).active = true)
    (hf : Staged cfg r (r.incomingFiles i) f) (hf' : Staged cfg r (r.incomingFiles j) f') :
    (r.incomingFiles j).tempPath ≠ (r.incomingFiles i).tempPath := by
  intro heq
  have htemp := hf'.temp
  rw [heq] at htemp
  exact hij (h.distinct i j hi hj (hf.temp.id_unique htemp))

theorem inode_ne (h : Inv cfg r) {j : Fin maxIncomingFiles} {f' : FileStream} (hij : i ≠ j)
    (hi : (r.incomingFiles i).active = true) (hj : (r.incomingFiles j).active = true)
    (hf : Staged cfg r (r.incomingFiles i) f) (hf' : Staged cfg r (r.incomingFiles j) f') :
    f'.inode ≠ f.inode := by
  intro heq
  refine h.tempPath_ne hij hi hj hf hf' (hf.sole _ ?_)
  rw [← heq]
  exact hf'.named

theorem update (h : Inv cfg r) {x : IncomingFile}
    (hslots : r'.incomingFiles = Function.update r.incomingFiles i x)
    (hx : x = {} ∨ x.active = true ∧ (∃ f, Staged cfg r' x f) ∧
      ∀ j, j ≠ i → (r.incomingFiles j).active = true →
        (r.incomingFiles j).transferId ≠ x.transferId)
    (hrest : ∀ j f, j ≠ i → (r.incomingFiles j).active = true →
      Staged cfg r (r.incomingFiles j) f → Staged cfg r' (r.incomingFiles j) f) : Inv cfg r' := by
  have hi : r'.incomingFiles i = x := by rw [hslots, Function.update_self]
  have hj : ∀ j, j ≠ i → r'.incomingFiles j = r.incomingFiles j := by
    intro j hne
    rw [hslots, Function.update_of_ne hne]
  have hnew : ∀ j, j ≠ i → x.active = true → (r.incomingFiles j).active = true →
      (r.incomingFiles j).transferId ≠ x.transferId := by
    intro j hne hactive hja
    rcases hx with rfl | ⟨-, -, hid⟩
    · cases hactive
    · exact hid j hne hja
  refine ⟨fun a b ha hb hab => ?_, fun a ha => ?_, fun a ha => ?_⟩
  -- the pairs of slots, of which at most one is the updated one
  · by_cases hai : a = i
    · by_cases hbi : b = i
      · rw [hai, hbi]
      · subst hai
        rw [hi] at ha hab
        rw [hj b hbi] at hb hab
        exact absurd hab.symm (hnew b hbi ha hb)
    · by_cases hbi : b = i
      · subst hbi
        rw [hi] at hb hab
        rw [hj a hai] at ha hab
        exact absurd hab (hnew a hai hb ha)
      · rw [hj a hai] at ha hab
        rw [hj b hbi] at hb hab
        exact h.distinct a b ha hb hab
  · by_cases hai : a = i
    · subst hai
      rw [hi] at ha ⊢
      rcases hx with rfl | ⟨hx, -, -⟩
      · rfl
      · rw [hx] at ha
        cases ha
    · rw [hj a hai] at ha ⊢
      exact h.zeroed a ha
  · by_cases hai : a = i
    · subst hai
      rw [hi] at ha ⊢
      rcases hx with rfl | ⟨-, hstaged, -⟩
      · cases ha
      · exact hstaged
    · rw [hj a hai] at ha ⊢
      obtain ⟨f, hf⟩ := h.staged a ha
      exact ⟨f, hrest a f hai ha hf⟩

theorem reset (h : Inv cfg r) (hslots : r'.incomingFiles = r.incomingFiles)
    (hrest : ∀ j f, j ≠ i → (r.incomingFiles j).active = true →
      Staged cfg r (r.incomingFiles j) f → Staged cfg r' (r.incomingFiles j) f) :
    Inv cfg (r'.set i {}) :=
  h.update (by rw [set_incomingFiles, hslots]) (.inl rfl)
    fun j f hj ha hf => (hrest j f hj ha hf).set i {}

theorem tempPath_ne_of_unstaged (h : Inv cfg r) {path : Bytes}
    (hfree : r.findIncomingFile b.transferId = none)
    (hpath : downloadPathLimit ≤ (cfg.template b.transferId).length ∧
        path = (cfg.template b.transferId).take (downloadPathLimit - 1) ∨
      (cfg.template b.transferId).length < downloadPathLimit ∧
        path = cfg.tempStem b.transferId ++ env.suffix.val ∧
        (env.mkstemp.isSome ∨ (r.store.entry path).isSome))
    (j : Fin maxIncomingFiles) (hj : (r.incomingFiles j).active = true) :
    (r.incomingFiles j).tempPath ≠ path := by
  obtain ⟨f, hf⟩ := h.staged j hj
  intro heq
  refine findIncomingFile_none hfree j hj ?_
  rcases hpath with ⟨-, rfl⟩ | ⟨-, rfl, -⟩
  · apply hf.temp.id_eq
    rw [heq]
    exact List.take_prefix _ _
  · exact hf.temp.id_eq ⟨[], by rw [List.append_nil, heq]⟩

theorem step (h : Inv cfg r) (hstep : FrameStep cfg env r frame result r') : Inv cfg r' := by
  cases hstep with
  | refused e => exact h
  | ignored _ => exact h
  | released e hi _ => exact h.reset rfl fun _ _ _ _ hf => hf
  | unstaged e path _ hst hi hpath =>
    exact h.reset (unlink_incomingFiles _ _ _) fun j f _ hj hf =>
      hf.unlink _ (h.tempPath_ne_of_unstaged hst.fresh hpath j hj)
  | @unopened e path i b _ hst hi hpath hnone =>
    -- the file was created under this very name, so nobody else has it
    refine h.reset (unlink_incomingFiles _ _ _) fun j f _ hj hf => (hf.create hnone).unlink _ ?_
    intro heq
    have hnamed := hf.named
    rw [heq, hnone] at hnamed
    cases hnamed
  | @begun path i b hb hst hi hfits hpath hnone =>
    have hvalid := (decodeBegin_some hb).2.2
    refine h.update rfl (.inr ⟨rfl, ⟨{ inode := r.store.next, offset := 0 }, ?_⟩, ?_⟩)
      fun j f _ _ hf => (hf.create hnone).set _ _
    · exact
        { file := rfl
          offset := rfl
          stored := by simp [announced]
          received := Nat.zero_le _
          lower := hst.lower
          upper := hst.upper
          sender := hvalid.1
          filename := hvalid.2
          finalPath := rfl
          temp := ⟨env.suffix, hpath⟩
          fits := hfits
          named := by simp
          sole := by
            intro p hp
            by_contra hne
            have hp' : r.store.entry p = some r.store.next := by
              rw [← hp]
              exact (Function.update_of_ne hne _ _).symm
            exact FileStore.ne_next hp' rfl
          made := by simp }
    · exact fun j _ hj => findIncomingFile_none hst.fresh j hj
  | @appended i c f hc hfind hf hfit =>
    obtain ⟨hactive, hid⟩ := findIncomingFile_some hfind
    refine h.update rfl (.inr ⟨hactive, ⟨{ f with offset := f.offset + c.data.length }, ?_⟩, ?_⟩)
      fun j f' hj hja hf' =>
        (hf'.write_other (h.inode_ne (Ne.symm hj) hactive hja hf hf') _).set _ _
    · exact
        { hf with
          file := rfl
          offset := by
            change f.offset + c.data.length = _
            rw [hf.offset]
          stored := by
            simp only [set_store, FileStore.write_data, Function.update_self, List.length_append,
              hf.stored]
          received := hfit }
    · exact fun j hj hja hid' => hj (h.distinct j i hja hactive hid')
  | @discarded result content i f hread _ hactive hf =>
    exact h.reset (unlink_incomingFiles _ _ _) fun j f' hj hja hf' =>
      (hf'.write_other (h.inode_ne (Ne.symm hj) hactive hja hf hf') _).unlink _
        (h.tempPath_ne (Ne.symm hj) hactive hja hf hf')
  | @saved d i f hc hactive hf hfull hopen hnew =>
    exact h.reset (unlink_incomingFiles _ _ _) fun j f' hj hja hf' => by
      -- the new name of the saved file was nobody's
      have hne := h.inode_ne (Ne.symm hj) hactive hja hf hf'
      exact ((hf'.link_other hne (r.store.bounded _ _ hf.named) hnew).write_other hne d).unlink _
        (h.tempPath_ne (Ne.symm hj) hactive hja hf hf')

/-- `discard_incoming_file` on an active slot. -/
theorem discard (h : Inv cfg r) (hi : (r.incomingFiles i).active = true)
    (unlinked : Option Errno) :
    Inv cfg (r.discardIncomingFile unlinked i) ∧
      r.discardIncomingFile unlinked i =
        (r.unlink unlinked (r.incomingFiles i).tempPath).set i {} := by
  obtain ⟨f, hf⟩ := h.staged i hi
  have heq : r.discardIncomingFile unlinked i =
      (r.unlink unlinked (r.incomingFiles i).tempPath).set i {} := by
    rw [discardIncomingFile, if_pos hf.tempPath_ne_nil]
  refine ⟨?_, heq⟩
  rw [heq]
  exact h.reset (unlink_incomingFiles _ _ _) fun j f' hj hja hf' =>
    hf'.unlink _ (h.tempPath_ne (Ne.symm hj) hi hja hf hf')

end Inv

/-- One iteration of `cleanup_incoming_files`. -/
def cleanupSlot (unlinked : Fin maxIncomingFiles → Option Errno) (r : Receiver)
    (i : Fin maxIncomingFiles) : Receiver :=
  if (r.incomingFiles i).active then r.discardIncomingFile (unlinked i) i else r

theorem cleanup_invariant {P : Receiver → Prop} (unlinked : Fin maxIncomingFiles → Option Errno)
    (hP : ∀ r i, Inv cfg r → P r → (r.incomingFiles i).active = true →
      P (r.discardIncomingFile (unlinked i) i))
    (hinv : Inv cfg r) (h : P r) :
    Inv cfg (r.cleanupIncomingFiles unlinked) ∧ P (r.cleanupIncomingFiles unlinked) ∧
      ∀ i, (r.cleanupIncomingFiles unlinked).incomingFiles i = {} := by
  -- after the slots `l`, these are zeroed and the others are as they were or zeroed
  have hfold : ∀ (l : List (Fin maxIncomingFiles)) (r : Receiver), Inv cfg r → P r →
      Inv cfg (l.foldl (cleanupSlot unlinked) r) ∧ P (l.foldl (cleanupSlot unlinked) r) ∧
        ∀ i, (i ∈ l ∨ r.incomingFiles i = {}) →
          (l.foldl (cleanupSlot unlinked) r).incomingFiles i = {} := by
    intro l
    induction l with
    | nil =>
      intro r hinv h
      refine ⟨hinv, h, fun i hi => ?_⟩
      rcases hi with hi | hi
      · cases hi
      · exact hi
    | cons k l ih =>
      intro r hinv h
      rw [List.foldl_cons]
      have hslot : Inv cfg (cleanupSlot unlinked r k) ∧ P (cleanupSlot unlinked r k) ∧
          ∀ i, (i = k ∨ r.incomingFiles i = {}) →
            (cleanupSlot unlinked r k).incomingFiles i = {} := by
        unfold cleanupSlot
        split
        · next hk =>
          obtain ⟨hinv', heq⟩ := hinv.discard hk (unlinked k)
          refine ⟨hinv', hP r k hinv h hk, fun i hi => ?_⟩
          rw [heq, set_incomingFiles, unlink_incomingFiles]
          by_cases hik : i = k
          · rw [hik, Function.update_self]
          · rw [Function.update_of_ne hik]
            exact hi.resolve_left hik
        · next hk =>
          refine ⟨hinv, h, fun i hi => ?_⟩
          rcases hi with rfl | hi
          · exact hinv.zeroed i (by simpa using hk)
          · exact hi
      obtain ⟨h1, h2, h3⟩ := ih _ hslot.1 hslot.2.1
      refine ⟨h1, h2, fun i hi => h3 i ?_⟩
      rcases hi with hi | hi
      · rcases List.mem_cons.mp hi with rfl | hi
        · exact .inr (hslot.2.2 i (.inl rfl))
        · exact .inl hi
      · exact .inr (hslot.2.2 i (.inr hi))
  obtain ⟨h1, h2, h3⟩ := hfold (List.finRange maxIncomingFiles) r hinv h
  exact ⟨h1, h2, fun i => h3 i (.inl (List.mem_finRange i))⟩

end Receiver

/-- A frame from the server, or the clean-up when the client leaves. -/
inductive ReceiverLabel
  | frame (env : FileEnv) (bytes : Bytes)
  | cleanup (unlinked : Fin maxIncomingFiles → Option Errno)

def ReceiverLabel.apply (cfg : ReceiverConfig) (r : Receiver) : ReceiverLabel → Receiver
  | .frame env bytes => (r.handleIncomingFileFrame cfg env bytes).2
  | .cleanup unlinked => r.cleanupIncomingFiles unlinked

/-- Every sequence of frames over every initial file system. -/
def receiver (cfg : ReceiverConfig) (store : FileStore Bytes UInt8) :
    Transition.System Receiver ReceiverLabel where
  init := .start store
  step r l := some (l.apply cfg r)

namespace Receiver

variable {cfg : ReceiverConfig} {store : FileStore Bytes UInt8} {r : Receiver}
  {ok : Receiver → ReceiverLabel → Prop}

theorem inv_of_reach (hr : (receiver cfg store).Reach ok r) : Inv cfg r := by
  refine hr.invariant (inv_start cfg store) fun s l s' _ _ hs hstep => ?_
  obtain rfl := Option.some.inj hstep
  cases l with
  | frame env bytes => exact hs.step (frame_cases hs (Prod.mk.eta.symm))
  | cleanup unlinked =>
    exact (cleanup_invariant (P := fun _ => True) unlinked (fun _ _ _ _ _ => trivial) hs trivial).1

end Receiver

def FileCall.afterCall (paths : List Bytes) : FileCall → List Bytes
  | .mkstemp path _ => path :: paths
  | .unlink path _ removed => if removed then paths.filter (· ≠ path) else paths

def temporaries (calls : List FileCall) : List Bytes := calls.foldl FileCall.afterCall []

theorem temporaries_concat (calls : List FileCall) (c : FileCall) :
    temporaries (calls ++ [c]) = c.afterCall (temporaries calls) := by
  rw [temporaries, List.foldl_append]
  rfl

namespace Receiver

def Tidy (r : Receiver) : Prop :=
  ∀ p, p ∈ temporaries r.calls ↔
    ∃ i, (r.incomingFiles i).active = true ∧ (r.incomingFiles i).tempPath = p

section Tidy

variable {cfg : ReceiverConfig} {env : FileEnv} {r r' : Receiver} {i : Fin maxIncomingFiles}
  {frame : Bytes} {f : FileStream} {result : Except Errno Unit}

theorem mem_temporaries_unlink (r : Receiver) (path p : Bytes) :
    p ∈ temporaries (r.unlink none path).calls ↔
      p ∈ temporaries r.calls ∧ (p ≠ path ∨ r.store.entry path = none) := by
  unfold unlink
  cases h : r.store.entry path with
  | none => simp [temporaries_concat, FileCall.afterCall]
  | some k => simp [temporaries_concat, FileCall.afterCall]

/-- Emptying slot `i` together with its temporary file. -/
theorem Tidy.reset (h : r.Tidy) (hinv : Inv cfg r) (hi : (r.incomingFiles i).active = true)
    (hf : Staged cfg r (r.incomingFiles i) f) (hslots : r'.incomingFiles = r.incomingFiles)
    (hcalls : r'.calls = r.calls)
    (hentry : r'.store.entry (r.incomingFiles i).tempPath ≠ none) :
    ((r'.unlink none (r.incomingFiles i).tempPath).set i {}).Tidy := by
  intro p
  rw [set_calls, mem_temporaries_unlink, hcalls, h p, set_incomingFiles, unlink_incomingFiles,
    hslots]
  constructor
  · rintro ⟨⟨j, hj, rfl⟩, hne⟩
    have hji : j ≠ i := by
      rintro rfl
      exact hne.elim (fun hne => hne rfl) hentry
    refine ⟨j, ?_⟩
    rw [Function.update_of_ne hji]
    exact ⟨hj, rfl⟩
  · rintro ⟨j, hj, hp⟩
    by_cases hji : j = i
    · subst hji
      rw [Function.update_self] at hj
      cases hj
    · rw [Function.update_of_ne hji] at hj hp
      obtain ⟨f', hf'⟩ := hinv.staged j hj
      refine ⟨⟨j, hj, hp⟩, .inl ?_⟩
      rw [← hp]
      exact hinv.tempPath_ne (Ne.symm hji) hi hj hf hf'

theorem Tidy.of_eq (h : r.Tidy) (hslots : r'.incomingFiles = r.incomingFiles)
    (hcalls : ∀ p, p ∈ temporaries r'.calls ↔ p ∈ temporaries r.calls) : r'.Tidy := by
  intro p
  rw [hcalls p, h p, hslots]

theorem Inv.set_zeroed (h : Inv cfg r) (hi : (r.incomingFiles i).active = false)
    (hslots : r'.incomingFiles = r.incomingFiles) :
      (r'.set i {}).incomingFiles = r.incomingFiles := by
  rw [set_incomingFiles, hslots, ← h.zeroed i hi, Function.update_eq_self]

theorem Tidy.step (h : r.Tidy) (hinv : Inv cfg r) (hok : env.unlink = none)
    (hstep : FrameStep cfg env r frame result r') : r'.Tidy := by
  have hused : ∀ p, r.store.entry p = none → p ∉ temporaries r.calls := by
    intro p hp hmem
    obtain ⟨j, hj, rfl⟩ := (h p).mp hmem
    obtain ⟨f, hf⟩ := hinv.staged j hj
    rw [hf.named] at hp
    cases hp
  cases hstep with
  | refused e => exact h
  | ignored _ => exact h
  | released e hi _ => exact h.of_eq (hinv.set_zeroed hi rfl) fun _ => Iff.rfl
  | unstaged e path _ hst hi hpath =>
    refine h.of_eq (hinv.set_zeroed hi (unlink_incomingFiles _ _ _)) fun p => ?_
    rw [set_calls, hok, mem_temporaries_unlink]
    refine ⟨fun hp => hp.1, fun hp => ⟨hp, .inl ?_⟩⟩
    obtain ⟨j, hj, rfl⟩ := (h p).mp hp
    exact hinv.tempPath_ne_of_unstaged hst.fresh hpath j hj
  | @unopened e path i b _ hst hi hpath hnone =>
    refine h.of_eq (hinv.set_zeroed hi (unlink_incomingFiles _ _ _)) fun p => ?_
    rw [set_calls, hok, mem_temporaries_unlink, temporaries_concat, FileCall.afterCall]
    constructor
    -- the failed BEGIN unlinks the file that it has made
    · rintro ⟨hp, hne⟩
      rcases List.mem_cons.mp hp with rfl | hp
      · exact hne.elim (fun hne => absurd rfl hne) fun hnone => by simp at hnone
      · exact hp
    · intro hp
      refine ⟨List.mem_cons_of_mem _ hp, .inl ?_⟩
      rintro rfl
      exact hused p hnone hp
  | @begun path i b hb hst hi hfits hpath hnone =>
    intro p
    rw [set_calls, temporaries_concat, FileCall.afterCall, List.mem_cons, h p, set_incomingFiles]
    constructor
    · rintro (rfl | ⟨j, hj, hp⟩)
      · exact ⟨i, by rw [Function.update_self]; exact ⟨rfl, rfl⟩⟩
      · have hji : j ≠ i := by
          rintro rfl
          rw [hi] at hj
          cases hj
        exact ⟨j, by rw [Function.update_of_ne hji]; exact ⟨hj, hp⟩⟩
    · rintro ⟨j, hj, hp⟩
      by_cases hji : j = i
      · subst hji
        rw [Function.update_self] at hp
        exact .inl hp.symm
      · rw [Function.update_of_ne hji] at hj hp
        exact .inr ⟨j, hj, hp⟩
  | @appended i c f hc hfind hf hfit =>
    intro p
    rw [set_calls, h p, set_incomingFiles]
    refine exists_congr fun j => ?_
    by_cases hji : j = i
    · subst hji
      rw [Function.update_self]
    · rw [Function.update_of_ne hji]
  | @discarded result content i f hread _ hactive hf =>
    rw [hok]
    refine h.reset hinv hactive hf rfl rfl ?_
    rw [FileStore.write_entry, hf.named]
    exact Option.some_ne_none _
  | @saved d i f hc hactive hf hfull hopen hnew =>
    rw [hok]
    refine h.reset hinv hactive hf rfl rfl ?_
    -- the temporary name exists and the final one did not
    have hne : (r.incomingFiles i).tempPath ≠ (r.incomingFiles i).finalPath := by
      intro heq
      have hnamed := hf.named
      rw [heq, hnew] at hnamed
      cases hnamed
    rw [FileStore.write_entry, FileStore.link_entry, Function.update_of_ne hne, hf.named]
    exact Option.some_ne_none _

theorem Tidy.discard (h : r.Tidy) (hinv : Inv cfg r) (hi : (r.incomingFiles i).active = true) :
    (r.discardIncomingFile none i).Tidy := by
  obtain ⟨f, hf⟩ := hinv.staged i hi
  rw [(hinv.discard hi none).2]
  refine h.reset hinv hi hf rfl rfl ?_
  rw [hf.named]
  exact Option.some_ne_none _

end Tidy

/-- No `unlink` fails; every other call may. -/
def UnlinkOk (_ : Receiver) : ReceiverLabel → Prop
  | .frame env _ => env.unlink = none
  | .cleanup unlinked => ∀ i, unlinked i = none

section

variable {cfg : ReceiverConfig} {store : FileStore Bytes UInt8} {r : Receiver}

theorem Tidy.cleanup (h : r.Tidy) (hinv : Inv cfg r)
    {unlinked : Fin maxIncomingFiles → Option Errno} (hok : ∀ i, unlinked i = none) :
    (r.cleanupIncomingFiles unlinked).Tidy ∧
      ∀ i, (r.cleanupIncomingFiles unlinked).incomingFiles i = {} := by
  refine (cleanup_invariant unlinked (fun s i hinv' hs hi => ?_) hinv h).2
  rw [hok i]
  exact hs.discard hinv' hi

theorem tidy_of_reach (hr : (receiver cfg store).Reach UnlinkOk r) : r.Tidy := by
  refine hr.invariant (fun p => ?_) fun s l s' hreach hok hs hstep => ?_
  · exact ⟨fun hp => (by cases hp), fun ⟨i, hi, _⟩ => (by cases hi)⟩
  · have hinv := inv_of_reach hreach
    obtain rfl := Option.some.inj hstep
    cases l with
    | frame env bytes => exact hs.step hinv hok (frame_cases hinv Prod.mk.eta.symm)
    | cleanup unlinked => exact (hs.cleanup hinv hok).1

end

/-- What the table and the directory look like between two calls. -/
structure TableOk (r : Receiver) : Prop where
  distinct : ∀ i j, (r.incomingFiles i).active = true → (r.incomingFiles j).active = true →
    (r.incomingFiles i).transferId = (r.incomingFiles j).transferId → i = j
  open_ : ∀ i, (r.incomingFiles i).active = true → ∃ f, (r.incomingFiles i).file = some f ∧
    r.store.entry (r.incomingFiles i).tempPath = some f.inode ∧
    (r.store.data f.inode).length = (r.incomingFiles i).receivedSize
  tempPath : ∀ i, (r.incomingFiles i).active = true → (r.incomingFiles i).tempPath ≠ []
  received : ∀ i, (r.incomingFiles i).active = true →
    (r.incomingFiles i).receivedSize ≤ (r.incomingFiles i).expectedSize
  expected : ∀ i, (r.incomingFiles i).active = true →
    90 + (r.incomingFiles i).filename.length ≤ (r.incomingFiles i).expectedSize ∧
    (r.incomingFiles i).expectedSize ≤
      90 + (r.incomingFiles i).filename.length + 16 * 1024 * 1024
  temporaries : ∀ p, p ∈ temporaries r.calls ↔
    ∃ i, (r.incomingFiles i).active = true ∧ (r.incomingFiles i).tempPath = p

section

variable {cfg : ReceiverConfig} {env : FileEnv} {r r' : Receiver} {frame : Bytes}

theorem Inv.tableOk (h : Inv cfg r) (htidy : r.Tidy) : r.TableOk where
  distinct := h.distinct
  open_ i hi := by
    obtain ⟨f, hf⟩ := h.staged i hi
    exact ⟨f, hf.file, hf.named, hf.stored⟩
  tempPath i hi := by
    obtain ⟨f, hf⟩ := h.staged i hi
    exact hf.tempPath_ne_nil
  received i hi := by
    obtain ⟨f, hf⟩ := h.staged i hi
    exact hf.received
  expected i hi := by
    obtain ⟨f, hf⟩ := h.staged i hi
    exact ⟨hf.lower, hf.upper⟩
  temporaries := htidy

/-- A frame that fails touches the slot of its own transfer at most, and no slot
when it is a BEGIN. -/
theorem Inv.failed (h : Inv cfg r) {e : Errno} (hstep : FrameStep cfg env r frame (.error e) r') :
    (∀ i, r'.incomingFiles i = r.incomingFiles i ∨
      (r.incomingFiles i).active = true ∧
        readTransferId frame = some (r.incomingFiles i).transferId) ∧
    (frame.head? = some FrameType.fileBegin.toByte → r'.incomingFiles = r.incomingFiles) := by
  have hsame : ∀ {r' : Receiver}, r'.incomingFiles = r.incomingFiles →
      (∀ i, r'.incomingFiles i = r.incomingFiles i ∨ (r.incomingFiles i).active = true ∧
        readTransferId frame = some (r.incomingFiles i).transferId) ∧
      (frame.head? = some FrameType.fileBegin.toByte → r'.incomingFiles = r.incomingFiles) :=
    fun heq => ⟨fun i => .inl (by rw [heq]), fun _ => heq⟩
  cases hstep with
  | refused => exact hsame rfl
  | released _ hi _ => exact hsame (h.set_zeroed hi rfl)
  | unstaged _ path _ _ hi _ => exact hsame (h.set_zeroed hi (unlink_incomingFiles _ _ _))
  | unopened _ path _ _ hi _ _ => exact hsame (h.set_zeroed hi (unlink_incomingFiles _ _ _))
  | @discarded _ content i f hread hbegin hactive hf =>
    refine ⟨fun j => ?_, fun hhead => absurd hhead hbegin⟩
    by_cases hji : j = i
    · subst hji
      exact .inr ⟨hactive, hread⟩
    · left
      rw [set_incomingFiles, unlink_incomingFiles, Function.update_of_ne hji]

end

/-- The receiver's table, for every sequence of frames and every failure of the
file system but that of `unlink`. -/
theorem incoming_table_invariant (cfg : ReceiverConfig) (store : FileStore Bytes UInt8)
    {r : Receiver} (hr : (receiver cfg store).Reach UnlinkOk r) :
    r.TableOk ∧
    (∀ env frame e r', r.handleIncomingFileFrame cfg env frame = (.error e, r') →
      (∀ i, r'.incomingFiles i = r.incomingFiles i ∨
        (r.incomingFiles i).active = true ∧
          readTransferId frame = some (r.incomingFiles i).transferId) ∧
      (frame.head? = some FrameType.fileBegin.toByte → r'.incomingFiles = r.incomingFiles)) ∧
    ∀ unlinked : Fin maxIncomingFiles → Option Errno, (∀ i, unlinked i = none) →
      (∀ i, ((r.cleanupIncomingFiles unlinked).incomingFiles i).active = false) ∧
        temporaries (r.cleanupIncomingFiles unlinked).calls = [] := by
  have hinv := inv_of_reach hr
  have htidy := tidy_of_reach hr
  refine ⟨hinv.tableOk htidy, fun env frame e r' h => hinv.failed (frame_cases hinv h),
    fun unlinked hok => ?_⟩
  obtain ⟨hclean, hzero⟩ := htidy.cleanup hinv hok
  refine ⟨fun i => by rw [hzero i], List.eq_nil_iff_forall_not_mem.mpr fun p hp => ?_⟩
  obtain ⟨i, hi, -⟩ := (hclean p).mp hp
  rw [hzero i] at hi
  cases hi

/-- The two bytes `hi` of a file `a`, boxed for Bob by Alice under the keys and the nonce
of NaCl's own `crypto_box` test. -/
def sampleMessage : Bytes := fileCryptoMagic ++ [0, 1] ++ ascii "a" ++ ascii "hi"

def sampleNonce : Bytes :=
  [105, 105, 110, 233, 85, 182, 43, 115, 205, 98, 189, 168, 117, 252, 115, 214, 130, 25, 224, 3,
    107, 122, 11, 55]

theorem sampleNonce_length : sampleNonce.length = cryptoBoxNonceBytes := rfl

def alicePublicKey : Bytes :=
  [133, 32, 240, 9, 137, 48, 167, 84, 116, 139, 125, 220, 180, 62, 247, 90, 13, 191, 58, 13, 38, 56,
    26, 244, 235, 164, 169, 142, 170, 155, 78, 106]

theorem alicePublicKey_length : alicePublicKey.length = cryptoBoxPublicKeyBytes := rfl

def alicePrivateKey : Bytes :=
  [119, 7, 109, 10, 115, 24, 165, 125, 60, 22, 193, 114, 81, 178, 102, 69, 223, 76, 47, 135, 235,
    192, 153, 42, 177, 119, 251, 165, 29, 185, 44, 42]

def bobPublicKey : Bytes :=
  [222, 158, 219, 125, 123, 125, 193, 180, 211, 91, 97, 194, 236, 228, 53, 55, 63, 131, 67, 200, 91,
    120, 103, 77, 173, 252, 126, 20, 111, 136, 43, 79]

theorem bobPublicKey_length : bobPublicKey.length = cryptoBoxPublicKeyBytes := rfl

def bobPrivateKey : Bytes :=
  [93, 171, 8, 126, 98, 74, 138, 75, 121, 225, 127, 139, 131, 128, 14, 230, 111, 59, 177, 41, 38,
    24,
    182, 253, 28, 47, 139, 39, 255, 136, 224, 235]

def sampleCiphertext : Bytes :=
  [221, 152, 79, 113, 70, 151, 162, 121, 76, 144, 216, 76, 136, 159, 179, 210, 115, 221, 34, 19, 56,
    172, 208, 151, 13, 131, 34, 196, 176]

/-- `crypto_box` at this one input, refusing every other. -/
def sampleBox : CryptoBox where
  easy message nonce publicKey privateKey :=
    if message = sampleMessage ∧ nonce = sampleNonce ∧ publicKey = bobPublicKey ∧
      privateKey = alicePrivateKey then some sampleCiphertext else none
  openEasy box nonce publicKey privateKey :=
    if box = sampleCiphertext ∧ nonce = sampleNonce ∧ publicKey = alicePublicKey ∧
      privateKey = bobPrivateKey then some sampleMessage else none
  openEasy_length box nonce publicKey privateKey message h := by
    split at h
    · next hbox =>
      obtain rfl := Option.some.inj h
      rw [hbox.1]
      rfl
    · cases h

/-- Bob's client as process 7. -/
def bobConfig : ReceiverConfig where
  directory := downloadDirectory
  pid := ⟨7, by decide⟩
  box := sampleBox
  privateKey := bobPrivateKey

def sampleEnvelope : Bytes := fileCryptoMagic ++ alicePublicKey ++ sampleNonce ++ sampleCiphertext

/-- The frames of the transfer, under outbound id 1. -/
def sampleBegin : Bytes :=
  FrameType.fileBegin.toByte :: (writeU32 1 ++ writeU64 93 ++ writeU16 5 ++ writeU16 1 ++
    ascii "alice" ++ ascii "a")

def sampleChunk : Bytes := FrameType.fileChunk.toByte :: (writeU32 1 ++ sampleEnvelope)

def sampleEnd : Bytes := FrameType.fileEnd.toByte :: writeU32 1

/-- Bob's table once the whole envelope has arrived. -/
def sampleStaged : Receiver :=
  [sampleBegin, sampleChunk].foldl (fun r frame => (r.handleIncomingFileFrame bobConfig {} frame).2)
    (.start emptyStore)

theorem incoming_table_invariant_staged : ∃ r, (receiver bobConfig emptyStore).Reach UnlinkOk r ∧
    ((r.incomingFiles ⟨0, by decide⟩).active = true ∧
      (r.incomingFiles ⟨0, by decide⟩).receivedSize = 93) ∧ r.TableOk := by
  have hreach : (receiver bobConfig emptyStore).Reach UnlinkOk sampleStaged :=
    .step (.step .init (show UnlinkOk _ (.frame {} sampleBegin) from rfl) rfl)
      (show UnlinkOk _ (.frame {} sampleChunk) from rfl) rfl
  exact ⟨_, hreach, by decide +kernel, (incoming_table_invariant bobConfig emptyStore hreach).1⟩

end Receiver

end CipherChat
