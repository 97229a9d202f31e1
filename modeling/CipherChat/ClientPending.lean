import CipherChat.ClientWatch

/-!
# Pending packages

A package waits in a linked list until a reply names its recipient.  `Books` is the
abstract account of that: the list of packages as the history tells it, and what the
callback that runs may do next.  The code keeps the books in every run, and its
linked list holds exactly the packages they list.
-/

namespace CipherChat

open Resumption Prog LinkedQueue

/-- What the callback that runs may still do. -/
inductive Role
  /-- Neither queue nor send a package. -/
  | quiet
  /-- Queue a package. -/
  | typing
  /-- Take the oldest package for this name off the list. -/
  | reply (name key : Bytes)
  /-- Send the package it took; `sent` are the frames so far. -/
  | serving (package : PendingPackage) (name : Bytes) (key : Option Bytes)
      (sent : List (FrameType × Bytes))

structure Books where
  pending : List PendingPackage := []
  role : Role := .quiet

def FrameType.carriesPackage : FrameType → Bool
  | ciphertext | fileBegin | fileChunk | fileEnd | fileError => true
  | _ => false

/-- The frames `fs` are a package on its way to `name`, boxed under `key`, as far as it was sent. -/
def Carries (cfg : ClientConfig) (package : PendingPackage) (name key : Bytes)
    (fs : List (FrameType × Bytes)) : Prop :=
  match package.type with
  | .message => ∃ nonce ciphertext,
      cfg.box.easy package.data nonce key cfg.privateKey = some ciphertext ∧
        fs <+: [(.ciphertext, privateChatPayload name nonce cfg.publicKey.val ciphertext)]
  | .file => ∃ env transferId filename encrypted encryptedLength,
      sealFile env cfg name package.data key = .ok (filename, encrypted, encryptedLength) ∧
        (fs.map fun f => f.1.toByte :: f.2) <+:
          fileFrames transferId name filename (UInt64.ofNat encryptedLength) encrypted

namespace Books

def isFor (name : Bytes) (package : PendingPackage) : Bool := package.recipient == name

def onNote (b : Books) : ClientNote → Books
  | .queued package => { b with pending := b.pending ++ [package] }
  | .consumed package name key =>
    { pending := b.pending.eraseP (isFor name), role := .serving package name key [] }
  | .sendFrame type payload =>
    match b.role with
    | .serving package name key sent =>
      { b with role := .serving package name key (sent ++ [(type, payload)]) }
    | _ => b

def onFrame (b : Books) (frame : Bytes) : Role :=
  if frame.head? = some FrameType.peerPk.toByte then
    match parsePeerPk frame with
    | some (name, key) => if b.pending.any (isFor name) then .reply name key else .quiet
    | none => .quiet
  else .quiet

def next (b : Books) : ClientEvent → Books
  | .typed _ => { b with role := .typing }
  | .received frame => { b with role := b.onFrame frame }
  | .note n => b.onNote n
  | .accepted _ => b
  | .failed _ => b

def Allows (cfg : ClientConfig) (b : Books) : ClientNote → Prop
  | .queued _ => b.role = .typing ∧ b.pending.length < maxPendingPackages
  | .consumed package name key => ∃ bytes, b.role = .reply name bytes ∧
      key = (if bytes = [] then none else some bytes) ∧
      b.pending.find? (isFor name) = some package
  | .sendFrame type payload =>
    match b.role with
    | .quiet | .typing => type.carriesPackage = false
    | .reply _ _ => False
    | .serving package name key sent =>
      ∃ bytes, key = some bytes ∧ Carries cfg package name bytes (sent ++ [(type, payload)])

end Books

/-- The books after a history. -/
def books (log : List ClientEvent) : Books := log.foldl Books.next {}

theorem books_append (log log' : List ClientEvent) :
    books (log ++ log') = log'.foldl Books.next (books log) := List.foldl_append

/-- The linked list holds the packages of the books, and no reply is left unserved. -/
structure Books.Kept (b : Books) (s : ClientState) : Prop where
  stored : ∃ cells, Stores s.heap s.pending cells ∧ cells.map Prod.snd = b.pending
  bounded : b.pending.length ≤ maxPendingPackages
  served : ∀ name key, b.role ≠ .reply name key

def bookkeeping (cfg : ClientConfig) : Discipline clientSig Books where
  allow b o := ∀ n, o = .note n → b.Allows cfg n
  next b o _ :=
    match o with
    | .note n => b.onNote n
    | _ => b

section

variable {cfg : ClientConfig} {s : ClientState} {b : Books}

theorem keep_sendFrame {type : FrameType} {payload : Bytes}
    (h : b.Allows cfg (.sendFrame type payload)) :
    (bookkeeping cfg).follows b (sendFrame type payload)
      fun b' _ => b' = b.onNote (.sendFrame type payload) := by
  have hother : ∀ b bytes, (bookkeeping cfg).allow b (.sendAll bytes) := by
    intro b bytes n hn
    cases hn
  refine Discipline.follows_call ?_ fun _ => ?_
  · intro n hn
    cases hn
    exact h
  refine Discipline.follows_ite (Discipline.follows_pure rfl) ?_
  refine Discipline.follows_call (hother _ _) fun header => ?_
  cases header with
  | error e => exact Discipline.follows_pure rfl
  | ok u =>
    refine Discipline.follows_call (hother _ _) fun byte => ?_
    cases byte with
    | error e => exact Discipline.follows_pure rfl
    | ok u =>
      refine Discipline.follows_ite ?_ (Discipline.follows_pure rfl)
      exact Discipline.follows_last (hother _ _) fun _ => rfl

theorem keep_call {α : Type} {o : ClientOp} {k : o.Resp → ClientProg α} {Q : Books → α → Prop}
    (ho : ∀ n, o ≠ .note n) (hk : ∀ r, (bookkeeping cfg).follows b (k r) Q) :
    (bookkeeping cfg).follows b (call (S := clientSig) o >>= k) Q := by
  refine Discipline.follows_call (fun n hn => absurd hn (ho n)) fun r => ?_
  have hnext : (bookkeeping cfg).next b o r = b := by
    cases o with
    | note n => exact absurd rfl (ho n)
    | _ => rfl
  rw [hnext]
  exact hk r

theorem keep_note {α : Type} {n : ClientNote} {k : Unit → ClientProg α} {Q : Books → α → Prop}
    (hn : b.Allows cfg n) (hk : (bookkeeping cfg).follows (b.onNote n) (k ()) Q) :
    (bookkeeping cfg).follows b (call (S := clientSig) (.note n) >>= k) Q := by
  refine Discipline.follows_call (fun m hm => ?_) fun r => hk
  cases hm
  exact hn

theorem keep_plainFrame {type : FrameType} {payload : Bytes} (htype : type.carriesPackage = false)
    (hrole : b.role = .quiet ∨ b.role = .typing) :
    (bookkeeping cfg).follows b (sendFrame type payload) fun b' _ => b' = b := by
  have hallow : b.Allows cfg (.sendFrame type payload) := by
    rcases hrole with hrole | hrole
    · simpa [Books.Allows, hrole] using htype
    · simpa [Books.Allows, hrole] using htype
  have hsame : b.onNote (.sendFrame type payload) = b := by
    rcases hrole with hrole | hrole
    · simp [Books.onNote, hrole]
    · simp [Books.onNote, hrole]
  refine Discipline.follows_mono ?_ (keep_sendFrame hallow)
  intro b' r hb
  exact hb.trans hsame

theorem Books.Kept.of_eq {s' : ClientState} (h : b.Kept s) (hheap : s'.heap = s.heap)
    (hpending : s'.pending = s.pending) : b.Kept s' := by
  obtain ⟨⟨cells, hstores, hcells⟩, hbounded, hserved⟩ := h
  refine ⟨⟨cells, ?_, hcells⟩, hbounded, hserved⟩
  rw [hheap, hpending]
  exact hstores

theorem Books.Kept.afterSend (h : b.Kept s) (r : Except Errno Unit) : b.Kept (s.afterSend r) := by
  cases r with
  | ok u => exact h
  | error e =>
    rw [ClientState.afterSend]
    split
    · exact h.of_eq rfl rfl
    · exact h

theorem Books.Kept.withRole (h : b.Kept s) {role : Role}
    (hrole : ∀ name key, role ≠ .reply name key) :
    Books.Kept { b with role } s := ⟨h.stored, h.bounded, hrole⟩

theorem keep_requestKey (h : b.Kept s) (hrole : b.role = .typing) (type : PendingPackageType)
    (username data : Bytes) :
    (bookkeeping cfg).follows b (requestKey s type username data) fun b' r => b'.Kept r.2 := by
  unfold requestKey
  split
  · exact Discipline.follows_pure h
  next hroom =>
  refine keep_call (by simp) fun address => ?_
  dsimp only
  split
  · exact Discipline.follows_pure h
  next a haddress =>
  refine keep_call (by simp) fun copied => ?_
  refine Discipline.follows_ite ?_ (Discipline.follows_pure h)
  rw [Discipline.follows_bind]
  refine Discipline.follows_mono ?_ (keep_plainFrame rfl (.inr hrole))
  rintro b' result rfl
  cases result with
  | error e => exact Discipline.follows_pure h
  | ok u =>
    have hfree : s.heap a = none := by
      have := Option.filter_eq_some_iff.mp haddress
      simpa using this.2
    obtain ⟨⟨cells, hstores, hcells⟩, hbounded, hserved⟩ := h
    have hlength : b'.pending.length < maxPendingPackages := by
      rw [← hcells, List.length_map, ← hstores.count]
      exact not_le.mp hroom
    refine keep_note ⟨hrole, hlength⟩ (Discipline.follows_pure ⟨?_, ?_, hserved⟩)
    · exact ⟨_, hstores.enqueue hfree _, by rw [List.map_append, hcells]; rfl⟩
    · simp only [Books.onNote, List.length_append, List.length_singleton]
      omega

theorem keep_handleInput (h : b.Kept s) (hrole : b.role = .typing) (line : Bytes) :
    (bookkeeping cfg).follows b (handleInput s line) fun b' s' => b'.Kept s' := by
  unfold handleInput
  split
  · exact Discipline.follows_pure h
  split
  · rw [Discipline.follows_bind]
    refine Discipline.follows_mono (Q := fun b' r => b'.Kept r.2) ?_ ?_
    · intro b' r hb
      exact Discipline.follows_pure (hb.afterSend _)
    · unfold handleFileCommand
      split
      · exact Discipline.follows_ite (Discipline.follows_pure h) (keep_requestKey h hrole _ _ _)
      · exact Discipline.follows_pure h
  split
  · rw [Discipline.follows_bind]
    refine Discipline.follows_mono (Q := fun b' r => b'.Kept r.2) ?_ ?_
    · intro b' r hb
      exact Discipline.follows_pure (hb.afterSend _)
    · unfold handlePrivateMessage
      split
      · exact Discipline.follows_ite (Discipline.follows_pure h) (keep_requestKey h hrole _ _ _)
      · exact Discipline.follows_pure h
  split
  · exact Discipline.follows_pure h
  · rw [Discipline.follows_bind]
    refine Discipline.follows_mono ?_ (keep_plainFrame rfl (.inr hrole))
    rintro b' r rfl
    refine Discipline.follows_pure ?_
    split
    · exact (h.afterSend r).of_eq rfl rfl
    · exact h.afterSend r

theorem keep_registerKey (h : b.Kept s) (hrole : b.role = .quiet) :
    (bookkeeping cfg).follows b (registerKey cfg s) fun b' s' => b'.Kept s' := by
  unfold registerKey
  rw [Discipline.follows_bind]
  refine Discipline.follows_mono ?_ (keep_plainFrame rfl (.inl hrole))
  rintro b' r rfl
  cases r with
  | error e => exact Discipline.follows_pure (h.of_eq rfl rfl)
  | ok u =>
    refine keep_call (by simp) fun env => ?_
    split
    · exact Discipline.follows_pure (h.of_eq rfl rfl)
    · exact Discipline.follows_pure h

/-- The books while a package is served. -/
abbrev Books.serving (b : Books) (package : PendingPackage) (name key : Bytes)
    (sent : List (FrameType × Bytes)) : Books :=
  { b with role := .serving package name (some key) sent }

variable {package : PendingPackage} {name key : Bytes}

theorem keep_packageFrame {sent : List (FrameType × Bytes)} {type : FrameType} {payload : Bytes}
    (h : Carries cfg package name key (sent ++ [(type, payload)])) :
    (bookkeeping cfg).follows (b.serving package name key sent) (sendFrame type payload)
      fun b' _ => b' = b.serving package name key (sent ++ [(type, payload)]) :=
  keep_sendFrame ⟨key, rfl, h⟩

theorem keep_sendPrivateChat (hpackage : package.type = .message) (nonce : Bytes) :
    (bookkeeping cfg).follows (b.serving package name key [])
      (sendPrivateChat cfg name package.data nonce key)
      fun b' _ => ∃ sent, b' = b.serving package name key sent := by
  unfold sendPrivateChat
  refine Discipline.follows_ite (Discipline.follows_pure ⟨[], rfl⟩) ?_
  refine Discipline.follows_ite (Discipline.follows_pure ⟨[], rfl⟩) ?_
  refine keep_call (by simp) fun address => ?_
  cases address with
  | none => exact Discipline.follows_pure ⟨[], rfl⟩
  | some a =>
    dsimp only
    split
    · exact Discipline.follows_pure ⟨[], rfl⟩
    · next ciphertext heasy =>
      refine Discipline.follows_mono ?_ (keep_packageFrame ?_)
      · rintro b' r rfl
        exact ⟨_, rfl⟩
      · rw [Carries, hpackage]
        exact ⟨nonce, ciphertext, heasy, List.prefix_refl _⟩

section

variable {env : SendEnv} {filename encrypted : Bytes} {encryptedLength : ℕ}
  (hpackage : package.type = .file)
  (hseal : sealFile env cfg name package.data key = .ok (filename, encrypted, encryptedLength))

include hpackage hseal

theorem carries_file (transferId : UInt32) {sent : List (FrameType × Bytes)} {type : FrameType}
    {payload : Bytes} (rest : List Bytes)
    (h : (sent.map fun f => f.1.toByte :: f.2) ++ (type.toByte :: payload) :: rest =
      fileFrames transferId name filename (UInt64.ofNat encryptedLength) encrypted) :
    Carries cfg package name key (sent ++ [(type, payload)]) := by
  rw [Carries, hpackage]
  refine ⟨env, transferId, filename, encrypted, encryptedLength, hseal, rest, ?_⟩
  rw [← h, List.map_append, List.append_assoc]
  rfl

theorem keep_sendFileChunks (transferId : UInt32) (chunks : List Bytes)
    (hchunks : ∀ c ∈ chunks, 0 < c.length ∧ c.length ≤ fileChunkSize)
    {sent : List (FrameType × Bytes)}
    (h : (sent.map fun f => f.1.toByte :: f.2) ++
        (chunks.map (chunkFrame transferId) ++ [endFrame transferId]) =
      fileFrames transferId name filename (UInt64.ofNat encryptedLength) encrypted) :
    (bookkeeping cfg).follows (b.serving package name key sent) (sendFileChunks transferId chunks)
      fun b' _ => ∃ sent, b' = b.serving package name key sent := by
  induction chunks generalizing sent with
  | nil =>
    rw [sendFileChunks, sendFileControl, if_neg (by simp), encodeControl_eq]
    refine Discipline.follows_mono ?_ (keep_packageFrame (carries_file hpackage hseal _ _ h))
    rintro b' r rfl
    exact ⟨_, rfl⟩
  | cons chunk rest ih =>
    obtain ⟨h0, h1⟩ := hchunks chunk (by simp)
    rw [sendFileChunks, sendFileChunk, encodeChunk_eq h0 h1, Discipline.follows_bind]
    refine Discipline.follows_mono ?_ (keep_packageFrame (carries_file hpackage hseal _ _ h))
    rintro b' r rfl
    cases r with
    | error e => exact Discipline.follows_pure ⟨_, rfl⟩
    | ok u =>
      refine ih (fun c hc => hchunks c (List.mem_cons_of_mem _ hc)) ?_
      rw [← h, List.map_append, List.append_assoc]
      rfl

end

theorem keep_sendFileOn (hpackage : package.type = .file) (next : UInt32) :
    (bookkeeping cfg).follows (b.serving package name key [])
      (sendFileOn cfg next name package.data key)
      fun b' _ => ∃ sent, b' = b.serving package name key sent := by
  refine keep_call (by simp) fun env => ?_
  dsimp only
  split
  · exact Discipline.follows_pure ⟨[], rfl⟩
  · next filename encrypted encryptedLength hseal =>
    generalize createTransferId next = ids
    obtain ⟨transferId, next⟩ := ids
    obtain ⟨-, hname, hfilename, -⟩ := encryptFile_ok hseal
    rw [sendFileBegin, encodeBegin_eq hname hfilename, Discipline.follows_bind]
    refine Discipline.follows_mono ?_ (keep_packageFrame (carries_file hpackage hseal transferId
      ((fileChunks encrypted 0).map (chunkFrame transferId) ++ [endFrame transferId]) rfl))
    rintro b' r rfl
    cases r with
    | error e => exact Discipline.follows_pure ⟨_, rfl⟩
    | ok u =>
      dsimp only
      rw [Discipline.follows_bind]
      refine Discipline.follows_mono ?_ (keep_sendFileChunks hpackage hseal transferId
        (fileChunks encrypted 0) (fileChunks_spec encrypted 0).1 rfl)
      intro b' r hb
      exact Discipline.follows_pure hb

theorem keep_sendPackage (h : b.Kept s) :
    (bookkeeping cfg).follows (b.serving package name key []) (sendPackage cfg s package name key)
      fun b' s' => b'.Kept s' := by
  have hserving : ∀ sent, (b.serving package name key sent).Kept s :=
    fun sent => h.withRole (by simp)
  unfold sendPackage
  split
  · next hpackage =>
    rw [Discipline.follows_bind]
    refine Discipline.follows_mono ?_ (keep_sendFileOn hpackage s.nextTransferId)
    rintro b' r ⟨sent, rfl⟩
    refine Discipline.follows_pure (Books.Kept.afterSend ?_ r.1)
    exact (hserving sent).of_eq rfl rfl
  · next hpackage =>
    refine keep_call (by simp) fun nonce => ?_
    rw [Discipline.follows_bind]
    refine Discipline.follows_mono ?_ (keep_sendPrivateChat hpackage nonce.val)
    rintro b' r ⟨sent, rfl⟩
    exact Discipline.follows_pure ((hserving sent).afterSend _)

/-- The list without its first package for a name. -/
theorem Books.Kept.removeFirst (h : b.Kept s) (name : Bytes) :
    (b.pending.any (Books.isFor name) = false ∧
      removeFirst s.heap (fun package => package.recipient == name) s.pending = none) ∨
    ∃ package heap pending, b.pending.any (Books.isFor name) = true ∧
      b.pending.find? (Books.isFor name) = some package ∧
      removeFirst s.heap (fun package => package.recipient == name) s.pending =
        some (package, heap, pending) ∧
      Books.Kept { b with pending := b.pending.eraseP (Books.isFor name) }
        { s with heap, pending } := by
  obtain ⟨⟨cells, hstores, hcells⟩, hbounded, hserved⟩ := h
  cases hfind : b.pending.find? (Books.isFor name) with
  | none =>
    have hnone := List.find?_eq_none.mp hfind
    refine .inl ⟨?_, ?_⟩
    · rw [List.any_eq_false]
      exact hnone
    · refine hstores.removeFirst_none fun c hc => ?_
      have hmem : c.2 ∈ b.pending := by
        rw [← hcells]
        exact List.mem_map_of_mem hc
      exact Bool.eq_false_iff.mpr (hnone c.2 hmem)
  | some package =>
    obtain ⟨hp, before, after, hsplit, hbefore⟩ := List.find?_eq_some_iff_append.mp hfind
    rw [hsplit] at hcells
    obtain ⟨cs, ds, rfl, hcs, hds⟩ := List.map_eq_append_iff.mp hcells
    obtain ⟨⟨a, v⟩, ds, rfl, rfl, hafter⟩ := List.map_eq_cons_iff.mp hds
    have hcsFor : ∀ c ∈ cs, (c.2.recipient == name) = false := by
      intro c hc
      have hmem : c.2 ∈ before := by
        rw [← hcs]
        exact List.mem_map_of_mem hc
      simpa [Books.isFor] using hbefore c.2 hmem
    obtain ⟨heap, pending, hremove, hstores'⟩ := hstores.removeFirst_some hcsFor hp
    have herase : b.pending.eraseP (Books.isFor name) = before ++ after := by
      rw [hsplit, List.eraseP_append_right, List.eraseP_cons_of_pos hp]
      simpa using hbefore
    refine .inr ⟨v, heap, pending, ?_, rfl, hremove, ⟨cs ++ ds, hstores', ?_⟩, ?_, hserved⟩
    · rw [List.any_eq_true]
      exact ⟨v, by rw [hsplit]; simp, hp⟩
    · rw [List.map_append, hcs, hafter, herase]
    · rw [herase]
      rw [hsplit] at hbounded
      simp only [List.length_append, List.length_cons] at hbounded ⊢
      omega

theorem keep_handlePeerPk (h : b.Kept s) {frame : Bytes}
    (hframe : frame.head? = some FrameType.peerPk.toByte) :
    (bookkeeping cfg).follows { b with role := b.onFrame frame } (handlePeerPk cfg s frame)
      fun b' s' => b'.Kept s' := by
  rw [Books.onFrame, if_pos hframe]
  unfold handlePeerPk
  cases hparse : parsePeerPk frame with
  | none => exact Discipline.follows_pure (h.withRole (by simp))
  | some reply =>
    obtain ⟨name, key⟩ := reply
    dsimp only
    rcases h.removeFirst name with ⟨hany, hremove⟩ | ⟨package, heap, pending, hany, hfind,
      hremove, hkept⟩
    · rw [hremove, hany]
      exact Discipline.follows_pure (h.withRole (by simp))
    · rw [hremove, hany, if_pos rfl]
      dsimp only
      split
      · next hkey =>
        refine keep_note ⟨key, rfl, by rw [if_pos hkey], hfind⟩ ?_
        exact Discipline.follows_pure (hkept.withRole (by simp))
      · next hkey =>
        refine keep_note ⟨key, rfl, by rw [if_neg hkey], hfind⟩ ?_
        exact keep_sendPackage hkept

theorem keep_handleServerFrame (h : b.Kept s) (frame : Bytes) :
    (bookkeeping cfg).follows { b with role := b.onFrame frame } (handleServerFrame cfg s frame)
      fun b' s' => b'.Kept s' := by
  by_cases hpeer : frame.head?.bind FrameType.ofByte = some .peerPk
  · have hframe : frame.head? = some FrameType.peerPk.toByte := by
      obtain ⟨byte, hhead, hbyte⟩ := Option.bind_eq_some_iff.mp hpeer
      rw [hhead, FrameType.toByte_of_ofByte hbyte]
    have hhandle : handleServerFrame cfg s frame = handlePeerPk cfg s frame := by
      rw [handleServerFrame, hpeer]
    rw [hhandle]
    exact keep_handlePeerPk h hframe
  · have hquiet : b.onFrame frame = .quiet := by
      rw [Books.onFrame, if_neg]
      intro hhead
      rw [hhead] at hpeer
      exact hpeer (FrameType.ofByte_toByte _)
    rw [hquiet]
    have hkept : Books.Kept { b with role := .quiet } s := h.withRole (by simp)
    unfold handleServerFrame
    split
    · exact keep_call (by simp) fun _ => Discipline.follows_pure hkept
    · next hpeer' => exact absurd hpeer' hpeer
    · split
      · exact Discipline.follows_pure hkept
      · exact keep_call (by simp) fun _ => Discipline.follows_pure hkept
    · exact keep_call (by simp) fun env => Discipline.follows_pure (hkept.of_eq rfl rfl)

end

def Books.Settled (b : Books) : Prop := ∀ name key, b.role ≠ .reply name key

/-- What the books say of an event before it happens. -/
def Books.Lawful (cfg : ClientConfig) (b : Books) : ClientEvent → Prop
  | .note n => b.Allows cfg n
  | .typed _ | .received _ => b.Settled
  | .accepted _ | .failed _ => True

def LawfulLog (cfg : ClientConfig) (log : List ClientEvent) : Prop :=
  ∀ before e after, log = before ++ e :: after → (books before).Lawful cfg e

/-- A run so far: every event was lawful, and the callback keeps the books. -/
structure Booked (cfg : ClientConfig) (c : ClientProcess) : Prop where
  lawful : LawfulLog cfg c.log
  idle : c.callback = none → (books c.log).Kept c.state
  busy : ∀ p, c.callback = some p →
    (bookkeeping cfg).follows (books c.log) p fun b s => b.Kept s

def bookWatch (cfg : ClientConfig) : ClientWatch Books where
  start := {}
  event := Books.next
  allow b n := b.Allows cfg n
  rest := Books.Kept

theorem bookWatch_discipline (cfg : ClientConfig) :
    (bookWatch cfg).discipline = bookkeeping cfg := by
  have hnext : (bookWatch cfg).discipline.next = (bookkeeping cfg).next := by
    funext b o r
    cases o with
    | sendAll bytes => cases r <;> rfl
    | _ => rfl
  rw [ClientWatch.discipline, bookkeeping]
  congr 1

theorem bookWatch_kept (cfg : ClientConfig) : (bookWatch cfg).Kept cfg where
  accepted _ _ := rfl
  start store := by
    rw [bookWatch_discipline]
    refine keep_registerKey ⟨⟨[], Stores.nil _, rfl⟩, Nat.zero_le _, ?_⟩ rfl
    intro name key h
    cases h
  typed b s line h := by
    rw [bookWatch_discipline]
    exact keep_handleInput (Books.Kept.withRole h (by simp)) rfl line
  received b s frame h := by
    rw [bookWatch_discipline]
    exact keep_handleServerFrame h frame
  stopped b s code h := Books.Kept.of_eq h rfl rfl

theorem Booked.of_reachable {cfg : ClientConfig} {store : FileStore Bytes UInt8}
    {c : ClientProcess} (hc : (client cfg store).Reachable c) : Booked cfg c := by
  obtain ⟨hlawful, hidle, hbusy⟩ := (bookWatch_kept cfg).holds hc
  rw [bookWatch_discipline] at hbusy
  refine ⟨fun before e after hlog => ?_, hidle, hbusy⟩
  have he := hlawful before e after hlog
  cases e with
  | typed line =>
    obtain ⟨s, hs⟩ := he
    exact Books.Kept.served hs
  | received frame =>
    obtain ⟨s, hs⟩ := he
    exact Books.Kept.served hs
  | _ => exact he

/-- The packages queued for a name, oldest first. -/
def queuedFor (name : Bytes) (log : List ClientEvent) : List PendingPackage :=
  log.filterMap fun e =>
    match e with
    | .note (.queued package) => if Books.isFor name package then some package else none
    | _ => none

/-- The packages that replies for a name consumed, in that order. -/
def consumedFor (name : Bytes) (log : List ClientEvent) : List PendingPackage :=
  log.filterMap fun e =>
    match e with
    | .note (.consumed package name' _) => if name' = name then some package else none
    | _ => none

/-- Events inside `send_all`. -/
def ClientEvent.isTransport : ClientEvent → Bool
  | .accepted _ | .failed _ => true
  | _ => false

/-- Events that continue a callback without touching the packages. -/
def ClientEvent.continues : ClientEvent → Bool
  | .accepted _ | .failed _ | .note (.sendFrame _ _) => true
  | _ => false

theorem LawfulLog.of_append {cfg : ClientConfig} {log : List ClientEvent} {e : ClientEvent}
    (h : LawfulLog cfg (log ++ [e])) : LawfulLog cfg log ∧ (books log).Lawful cfg e := by
  refine ⟨fun before e' after heq => ?_, h log e [] rfl⟩
  exact h before e' (after ++ [e]) (by rw [heq]; simp)

section

variable {cfg : ClientConfig} {log : List ClientEvent} {name : Bytes}

theorem reply_of_books (hlawful : LawfulLog cfg log) {key : Bytes}
    (h : (books log).role = .reply name key) :
    ∃ before frame rest, log = before ++ .received frame :: rest ∧
      frame.head? = some FrameType.peerPk.toByte ∧ parsePeerPk frame = some (name, key) ∧
      ∀ e ∈ rest, e.isTransport = true := by
  induction log using List.reverseRecOn with
  | nil => cases h
  | append_singleton log e ih =>
    obtain ⟨hlog, he⟩ := hlawful.of_append
    rw [books_append] at h
    -- what only moves bytes keeps the reply in hand
    have hquiet : (books log).role = .reply name key → e.isTransport = true →
        ∃ before frame rest, log ++ [e] = before ++ .received frame :: rest ∧
          frame.head? = some FrameType.peerPk.toByte ∧ parsePeerPk frame = some (name, key) ∧
          ∀ e ∈ rest, e.isTransport = true := by
      intro hrole htransport
      obtain ⟨before, frame, rest, rfl, hhead, hparse, hrest⟩ := ih hlog hrole
      refine ⟨before, frame, rest ++ [e], by simp, hhead, hparse, ?_⟩
      intro x hx
      rcases List.mem_append.mp hx with hx | hx
      · exact hrest x hx
      · rw [List.mem_singleton.mp hx]
        exact htransport
    cases e with
    | accepted bytes => exact hquiet h rfl
    | failed errno => exact hquiet h rfl
    | typed line => cases h
    | note n =>
      cases n with
      | queued package =>
        have hrole : (books log).role = .reply name key := h
        cases hrole.symm.trans he.1
      | consumed package name' key' => cases h
      | sendFrame type payload =>
        change ((books log).onNote (.sendFrame type payload)).role = _ at h
        change Books.Allows cfg (books log) (.sendFrame type payload) at he
        rw [Books.onNote] at h
        split at h
        · cases h
        -- with a reply in hand no request for a key is sent
        · rw [Books.Allows, h] at he
          exact he.elim
    | received frame =>
      change (books log).onFrame frame = _ at h
      rw [Books.onFrame] at h
      split at h
      · next hhead =>
        split at h
        · next name' key' hparse =>
          split at h
          · cases h
            exact ⟨log, frame, [], rfl, hhead, hparse, fun e he => (by cases he)⟩
          · cases h
        · cases h
      · cases h

theorem serving_of_books (hlawful : LawfulLog cfg log) {package : PendingPackage}
    {key : Option Bytes} {sent : List (FrameType × Bytes)}
    (h : (books log).role = .serving package name key sent) :
    ∃ before rest, log = before ++ .note (.consumed package name key) :: rest ∧
      (∀ e ∈ rest, e.continues = true) ∧ sent = calledFrames rest := by
  induction log using List.reverseRecOn generalizing sent with
  | nil => cases h
  | append_singleton log e ih =>
    obtain ⟨hlog, he⟩ := hlawful.of_append
    rw [books_append] at h
    -- what goes on sending keeps the package in hand
    have hgoes : ∀ sent', (books log).role = .serving package name key sent' →
        e.continues = true → sent = sent' ++ calledFrames [e] →
        ∃ before rest, log ++ [e] = before ++ .note (.consumed package name key) :: rest ∧
          (∀ e ∈ rest, e.continues = true) ∧ sent = calledFrames rest := by
      intro sent' hrole hcontinues hsent
      obtain ⟨before, rest, rfl, hrest, rfl⟩ := ih hlog hrole
      refine ⟨before, rest ++ [e], by simp, ?_, ?_⟩
      · intro x hx
        rcases List.mem_append.mp hx with hx | hx
        · exact hrest x hx
        · rw [List.mem_singleton.mp hx]
          exact hcontinues
      · rw [hsent]
        exact List.filterMap_append.symm
    cases e with
    | accepted bytes => exact hgoes sent h rfl (List.append_nil _).symm
    | failed errno => exact hgoes sent h rfl (List.append_nil _).symm
    | typed line => cases h
    | note n =>
      cases n with
      | queued q =>
        have hrole : (books log).role = .serving package name key sent := h
        cases hrole.symm.trans he.1
      | consumed p name' key' =>
        cases h
        exact ⟨log, [], rfl, fun e he => (by cases he), rfl⟩
      | sendFrame type payload =>
        change ((books log).onNote (.sendFrame type payload)).role = _ at h
        rw [Books.onNote] at h
        split at h
        · next p name' key' sent' hrole =>
          cases h
          exact hgoes sent' hrole rfl rfl
        · next hother => exact absurd h (hother _ _ _ _)
    | received frame =>
      change (books log).onFrame frame = _ at h
      rw [Books.onFrame] at h
      split at h
      · split at h
        · split at h
          · cases h
          · cases h
        · cases h
      · cases h

/-- Per name, packages are consumed in the order in which they were queued. -/
theorem queued_eq_consumed_append (hlawful : LawfulLog cfg log) (name : Bytes) :
    queuedFor name log = consumedFor name log ++ (books log).pending.filter (Books.isFor name) := by
  induction log using List.reverseRecOn with
  | nil => rfl
  | append_singleton log e ih =>
    obtain ⟨hlog, he⟩ := hlawful.of_append
    have hih := ih hlog
    have hsplit : queuedFor name (log ++ [e]) = queuedFor name log ++ queuedFor name [e] ∧
        consumedFor name (log ++ [e]) = consumedFor name log ++ consumedFor name [e] :=
      ⟨List.filterMap_append, List.filterMap_append⟩
    rw [hsplit.1, hsplit.2, books_append, hih]
    have hquiet : queuedFor name [e] = [] → consumedFor name [e] = [] →
        (Books.next (books log) e).pending = (books log).pending →
        consumedFor name log ++ (books log).pending.filter (Books.isFor name) ++
          queuedFor name [e] =
          consumedFor name log ++ consumedFor name [e] ++
            (Books.next (books log) e).pending.filter (Books.isFor name) := by
      intro hq hc hp
      rw [hq, hc, hp, List.append_nil, List.append_nil]
    cases e with
    | accepted bytes => exact hquiet rfl rfl rfl
    | failed errno => exact hquiet rfl rfl rfl
    | typed line => exact hquiet rfl rfl rfl
    | received frame => exact hquiet rfl rfl rfl
    | note n =>
      cases n with
      | sendFrame type payload =>
        refine hquiet rfl rfl ?_
        change ((books log).onNote (.sendFrame type payload)).pending = _
        rw [Books.onNote]
        split <;> rfl
      | queued q =>
        change _ = consumedFor name log ++ [] ++
          ((books log).pending ++ [q]).filter (Books.isFor name)
        rw [List.append_nil, List.filter_append, List.append_assoc]
        congr 2
        by_cases hq : Books.isFor name q = true
        · simp [queuedFor, hq]
        · simp [queuedFor, hq]
      | consumed p name' key =>
        -- the package that goes is the first under its name
        obtain ⟨bytes, -, -, hfind⟩ := he
        obtain ⟨hp, older, newer, hpending, holder⟩ := List.find?_eq_some_iff_append.mp hfind
        have herase : (books log).pending.eraseP (Books.isFor name') = older ++ newer := by
          rw [hpending, List.eraseP_append_right, List.eraseP_cons_of_pos hp]
          simpa using holder
        change _ ++ [] = consumedFor name log ++ consumedFor name [.note (.consumed p name' key)] ++
          ((books log).pending.eraseP (Books.isFor name')).filter (Books.isFor name)
        rw [herase, hpending, List.append_nil, List.filter_append, List.filter_append]
        by_cases hname : name' = name
        · subst hname
          have hnone : older.filter (Books.isFor name') = [] := by
            rw [List.filter_eq_nil_iff]
            intro q hq
            simpa using holder q hq
          rw [hnone, List.filter_cons_of_pos hp]
          simp [consumedFor]
        · have hother : ¬Books.isFor name p = true := by
            intro hfor
            exact hname ((beq_iff_eq.mp hp).symm.trans (beq_iff_eq.mp hfor))
          rw [List.filter_cons_of_neg hother]
          simp [consumedFor, hname]

end

/-- The bytes behind the name of a reply, as `handle_server_frame` reads them. -/
def replyKey (bytes : Bytes) : Option Bytes := if bytes = [] then none else some bytes

theorem reply_served {cfg : ClientConfig} {log after : List ClientEvent} {name bytes : Bytes}
    (hlawful : LawfulLog cfg (log ++ after)) (hrole : (books log).role = .reply name bytes) :
    ((books (log ++ after)).role = .reply name bytes ∧ ∀ e ∈ after, e.isTransport = true) ∨
      ∃ mid package rest, (∀ e ∈ mid, e.isTransport = true) ∧
        after = mid ++ .note (.consumed package name (replyKey bytes)) :: rest := by
  induction after generalizing log with
  | nil =>
    rw [List.append_nil]
    exact .inl ⟨hrole, fun e he => (by cases he)⟩
  | cons e after ih =>
    have he := hlawful log e after rfl
    have hpass : e.isTransport = true → (books (log ++ [e])).role = .reply name bytes →
        ((books (log ++ e :: after)).role = .reply name bytes ∧
          ∀ x ∈ e :: after, x.isTransport = true) ∨
        ∃ mid package rest, (∀ e ∈ mid, e.isTransport = true) ∧
          e :: after = mid ++ .note (.consumed package name (replyKey bytes)) :: rest := by
      intro htransport hnext
      rw [List.append_cons] at hlawful
      rw [List.append_cons log e after]
      rcases ih hlawful hnext with ⟨hend, hall⟩ | ⟨mid, package, rest, hmid, rfl⟩
      · exact .inl ⟨hend, List.forall_mem_cons.mpr ⟨htransport, hall⟩⟩
      · exact .inr ⟨e :: mid, package, rest, List.forall_mem_cons.mpr ⟨htransport, hmid⟩, rfl⟩
    cases e with
    | accepted b =>
      refine hpass rfl ?_
      rw [books_append]
      exact hrole
    | failed errno =>
      refine hpass rfl ?_
      rw [books_append]
      exact hrole
    | typed line => exact absurd hrole (he name bytes)
    | received frame => exact absurd hrole (he name bytes)
    | note n =>
      cases n with
      | queued q => cases hrole.symm.trans he.1
      | sendFrame type payload =>
        change Books.Allows cfg (books log) (.sendFrame type payload) at he
        rw [Books.Allows, hrole] at he
        exact he.elim
      | consumed package name' key =>
        obtain ⟨bytes', hrole', rfl, -⟩ := he
        cases hrole.symm.trans hrole'
        exact .inr ⟨[], package, after, fun e he => (by cases he), rfl⟩

/-- In every run, with any lines and any frames from the server: the linked list holds the
pending packages; a reply takes the oldest package for its name off the list and nothing
else; what it finds it takes; per name packages go in the order in which they came; and
the frames of a package are called once, after the reply that consumed it, boxed under
that reply's key and addressed to its name. -/
theorem pending_packages_matched {cfg : ClientConfig} {store : FileStore Bytes UInt8}
    {c : ClientProcess} (hc : (client cfg store).Reachable c) :
    (c.callback = none → ∃ cells, Cells c.state.heap c.state.pending.head cells ∧
      cells.map Prod.snd = (books c.log).pending ∧ (addrs cells).Nodup ∧
      c.state.pending.count = cells.length ∧ c.state.pending.count ≤ 128 ∧
      c.state.pending.tail = (addrs cells).getLast? ∧
      (c.state.pending.tail = none ↔ cells = [])) ∧
    (∀ before package name key after,
      c.log = before ++ .note (.consumed package name key) :: after →
      (∃ older newer, (books before).pending = older ++ package :: newer ∧
        package.recipient = name ∧ (∀ q ∈ older, q.recipient ≠ name) ∧
        (books (before ++ [.note (.consumed package name key)])).pending = older ++ newer) ∧
      ∃ earlier frame rest bytes, before = earlier ++ .received frame :: rest ∧
        (∀ e ∈ rest, e.isTransport = true) ∧ frame.head? = some FrameType.peerPk.toByte ∧
        parsePeerPk frame = some (name, bytes) ∧ key = replyKey bytes) ∧
    (∀ before frame after name bytes, c.log = before ++ .received frame :: after →
      frame.head? = some FrameType.peerPk.toByte → parsePeerPk frame = some (name, bytes) →
      (∃ q ∈ (books before).pending, q.recipient = name) →
      (c.callback ≠ none ∧ ∀ e ∈ after, e.isTransport = true) ∨
        ∃ mid package rest, (∀ e ∈ mid, e.isTransport = true) ∧
          after = mid ++ .note (.consumed package name (replyKey bytes)) :: rest) ∧
    (∀ name, queuedFor name c.log =
      consumedFor name c.log ++ (books c.log).pending.filter (·.recipient == name)) ∧
    ∀ before type payload after, c.log = before ++ .note (.sendFrame type payload) :: after →
      type.carriesPackage = true →
      ∃ earlier package name key rest,
        before = earlier ++ .note (.consumed package name (some key)) :: rest ∧
        (∀ e ∈ rest, e.continues = true) ∧
        Carries cfg package name key (calledFrames rest ++ [(type, payload)]) := by
  have hbooked := Booked.of_reachable hc
  refine ⟨?_, ?_, ?_, ?_, ?_⟩
  -- the list is right wherever no callback runs
  · intro hidle
    obtain ⟨⟨cells, hstores, hcells⟩, hbounded, -⟩ := hbooked.idle hidle
    refine ⟨cells, hstores.cells, hcells, hstores.nodup, hstores.count, ?_, hstores.tail,
      hstores.tail_eq_none⟩
    rw [hstores.count, ← List.length_map (f := Prod.snd), hcells]
    exact hbounded
  -- what is consumed is the oldest of the name that the reply is for
  · intro before package name key after hlog
    obtain ⟨bytes, hrole, hkey, hfind⟩ := hbooked.lawful before _ after hlog
    obtain ⟨hp, older, newer, hpending, holder⟩ := List.find?_eq_some_iff_append.mp hfind
    have hbefore : LawfulLog cfg before := fun b e a h =>
      hbooked.lawful b e (a ++ .note (.consumed package name key) :: after) (by rw [hlog, h]; simp)
    refine ⟨⟨older, newer, hpending, beq_iff_eq.mp hp, ?_, ?_⟩, ?_⟩
    · intro q hq
      simpa [Books.isFor] using holder q hq
    · rw [books_append]
      change (books before).pending.eraseP (Books.isFor name) = _
      rw [hpending, List.eraseP_append_right, List.eraseP_cons_of_pos hp]
      simpa using holder
    · obtain ⟨earlier, frame, rest, hsplit, hhead, hparse, hrest⟩ := reply_of_books hbefore hrole
      exact ⟨earlier, frame, rest, bytes, hsplit, hrest, hhead, hparse, hkey⟩
  -- a reply with packages waiting is served next
  · intro before frame after name bytes hlog hhead hparse hfound
    have hrole : (books (before ++ [.received frame])).role = .reply name bytes := by
      rw [books_append]
      change (books before).onFrame frame = _
      rw [Books.onFrame, if_pos hhead, hparse]
      refine if_pos ?_
      obtain ⟨q, hq, hname⟩ := hfound
      exact List.any_eq_true.mpr ⟨q, hq, beq_iff_eq.mpr hname⟩
    have hlawful := hbooked.lawful
    rw [hlog, List.append_cons] at hlawful
    rcases reply_served hlawful hrole with ⟨hend, hall⟩ | hserved
    · refine .inl ⟨fun hidle => ?_, hall⟩
      rw [← List.append_cons, ← hlog] at hend
      exact (hbooked.idle hidle).served name bytes hend
    · exact .inr hserved
  · exact fun name => queued_eq_consumed_append hbooked.lawful name
  -- what is sent belongs to the package just consumed
  · intro before type payload after hlog htype
    have hallow := hbooked.lawful before _ after hlog
    have hbefore : LawfulLog cfg before := fun b e a h =>
      hbooked.lawful b e (a ++ .note (.sendFrame type payload) :: after) (by rw [hlog, h]; simp)
    change Books.Allows cfg (books before) (.sendFrame type payload) at hallow
    rw [Books.Allows] at hallow
    split at hallow
    · rw [htype] at hallow
      cases hallow
    · rw [htype] at hallow
      cases hallow
    · exact hallow.elim
    · next package name key sent hrole =>
      obtain ⟨bytes, rfl, hcarries⟩ := hallow
      obtain ⟨earlier, rest, hsplit, hrest, rfl⟩ := serving_of_books hbefore hrole
      exact ⟨earlier, package, name, bytes, rest, hsplit, hrest, hcarries⟩

def sampleClientEnv : ClientEnv where
  write := .written 1
  malloc := some 7
  nonce := ⟨Receiver.sampleNonce, Receiver.sampleNonce_length⟩
  readFile := {
    size := 2
    content := ascii "hi"
    nonce := ⟨Receiver.sampleNonce, Receiver.sampleNonce_length⟩
  }

/-- Alice types `/file bob a`, Bob's key comes back, and the file goes out. -/
theorem pending_packages_matched_file :
    ∃ c, (client aliceClient Receiver.emptyStore).Reachable c ∧ c.callback = none ∧
      consumedFor (ascii "bob") c.log = [⟨.file, ascii "bob", ascii "a"⟩] ∧
      (calledFrames c.log).map Prod.fst =
        [.registerPk, .requestPk, .fileBegin, .fileChunk, .fileEnd] ∧
      (∃ cells, Cells c.state.heap c.state.pending.head cells ∧
        cells.map Prod.snd = (books c.log).pending) ∧
      queuedFor (ascii "bob") c.log = consumedFor (ascii "bob") c.log ++
        (books c.log).pending.filter (·.recipient == ascii "bob") := by
  have hrun : ((client aliceClient Receiver.emptyStore).run
      (client aliceClient Receiver.emptyStore).init
      (List.replicate 46 (.go sampleClientEnv) ++
        .typed (some (ascii "/file bob a")) :: List.replicate 19 (.go sampleClientEnv) ++
        .received (.ok (some (FrameType.peerPk.toByte :: 3 :: (ascii "bob" ++
          Receiver.bobPublicKey)))) :: List.replicate 160 (.go sampleClientEnv))).map
        (fun c => (c.callback.isNone, consumedFor (ascii "bob") c.log,
          (calledFrames c.log).map Prod.fst)) =
      some (true, [⟨.file, ascii "bob", ascii "a"⟩],
        [.registerPk, .requestPk, .fileBegin, .fileChunk, .fileEnd]) := by
    decide +kernel
  obtain ⟨c, hc, hstate⟩ := Option.map_eq_some_iff.mp hrun
  obtain ⟨hidle, hrest⟩ := Prod.mk.inj hstate
  obtain ⟨hconsumed, hcalled⟩ := Prod.mk.inj hrest
  have hreach := Transition.System.Reachable.run .init hc
  have hnone : c.callback = none := Option.isNone_iff_eq_none.mp hidle
  obtain ⟨hlist, -, -, hcounts, -⟩ := pending_packages_matched hreach
  obtain ⟨cells, hcells, hpending, -⟩ := hlist hnone
  exact ⟨c, hreach, hnone, hconsumed, hcalled, ⟨cells, hcells, hpending⟩, hcounts _⟩

end CipherChat
