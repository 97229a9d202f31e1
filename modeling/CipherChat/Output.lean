import CipherChat.Sessions

/-!
# What a connection is sent

The bytes that `SSL_write_ex` has accepted for a client, the rest of the staged frame
and the encodings of the frames still queued are, together and in this order, the
encodings of all frames ever queued under the client's id.
-/

namespace CipherChat

/-- The frame an event appends to the queue of `c`. -/
def Event.queuedTo (c : ClientId) : Event → Option OutgoingFrame
  | .did _ (.queueFrame r type payload) (.ok ()) => if r = c then some { type, payload } else none
  | _ => none

/-- The bytes an event puts on the connection of `c`. -/
def Event.wroteTo (c : ClientId) : Event → Bytes
  | .wrote id bytes => if id = c then bytes else []
  | _ => []

theorem Event.queues_of_queuedTo {e : Event} {c : ClientId} {f : OutgoingFrame}
    (h : e.queuedTo c = some f) : e.Queues c := by
  unfold queuedTo at h
  split at h
  · next id r type payload =>
    split at h
    · next hr =>
      subst hr
      exact ⟨id, type, payload, rfl⟩
    · cases h
  · cases h

/-- The frames queued for `c`, in order. -/
def queued (log : List Event) (c : ClientId) : List OutgoingFrame :=
  log.filterMap (Event.queuedTo c)

/-- The bytes accepted by `SSL_write_ex` for `c`, in order. -/
def wire (log : List Event) (c : ClientId) : Bytes := log.flatMap (Event.wroteTo c)

def encodeFrames (frames : List OutgoingFrame) : Bytes :=
  frames.flatMap fun f => encodeFrame f.type f.payload

@[simp] theorem queued_append (log evs : List Event) (c : ClientId) :
    queued (log ++ evs) c = queued log c ++ queued evs c := List.filterMap_append

@[simp] theorem wire_append (log evs : List Event) (c : ClientId) :
    wire (log ++ evs) c = wire log c ++ wire evs c := List.flatMap_append

@[simp] theorem encodeFrames_append (fs gs : List OutgoingFrame) :
    encodeFrames (fs ++ gs) = encodeFrames fs ++ encodeFrames gs := List.flatMap_append

/-- What the thread has staged for its client, while it is still serving it. -/
def Thread.staged : Thread → Option Bytes
  | .added _ _ | .welcoming _ | .activating _ | .starting _ => some []
  | .working _ w | .handling _ w _ => some w.unsent
  | _ => none

structure Server.Delivers (s : Server) : Prop where
  flow : ∀ n i l b, (s.threads n).slot = some i → s.shared.clients.login i = some l →
    (s.threads n).staged = some b →
    wire s.log l.id ++ b ++ encodeFrames l.pending = encodeFrames (queued s.log l.id)
  takes : ∀ n u w, s.threads n = .working u w → w.TakesFree
  written : ∀ c, wire s.log c <+: encodeFrames (queued s.log c)
  known : ∀ c, wire s.log c ≠ [] → c < s.shared.clients.nextClientId

theorem Server.delivers_init : Server.init.Delivers where
  flow n i l b h := by cases h
  takes n u w h := by cases h
  written c := List.prefix_refl _
  known c h := absurd rfl h

theorem perform_pending {x : Shared} (h : x.clients.Inv) (libc : Libc) (c : ClientId) (o : Op)
    {i : Fin maxClients} {l' : Login} (hl' : (perform libc x o).2.clients.login i = some l') :
    ∃ l, x.clients.login i = some l ∧ l'.id = l.id ∧
      l'.pending = l.pending ++ queued [.did c o (perform libc x o).1] l.id := by
  cases o with
  | queueFrame r type payload =>
    simp only [perform, Shared.onClients] at hl' ⊢
    rcases h.queueFrame libc.address libc.eventfdWrite r type payload with
      ⟨e, he⟩ | ⟨j, lj, res, m', he, hlj, -, hid, -, -, hcases⟩
    · rw [he] at hl' ⊢
      exact ⟨l', hl', rfl, by simp [queued, Event.queuedTo]⟩
    · rw [he] at hl' ⊢
      -- queued, or refused by a queue that is full
      rcases hcases with ⟨rfl, hu⟩ | ⟨rfl, hu⟩
      · dsimp only at hl'
        rw [hu] at hl'
        by_cases hij : i = j
        · subst hij
          rw [Function.update_self] at hl'
          cases hl'
          exact ⟨lj, hlj, rfl, by simp [queued, Event.queuedTo, hid]⟩
        · rw [Function.update_of_ne hij] at hl'
          have hne : r ≠ l'.id := fun hr => hij (h.login_inj hl' hlj (by rw [← hr, hid]))
          exact ⟨l', hl', rfl, by simp [queued, Event.queuedTo, hne]⟩
      · dsimp only at hl'
        rw [hu] at hl'
        by_cases hij : i = j
        · subst hij
          rw [Function.update_self] at hl'
          cases hl'
          exact ⟨lj, hlj, rfl, by simp [queued, Event.queuedTo]⟩
        · rw [Function.update_of_ne hij] at hl'
          exact ⟨l', hl', rfl, by simp [queued, Event.queuedTo]⟩
  | registerClientPublicKey r key =>
    simp only [perform, Shared.onClients] at hl' ⊢
    rcases h.registerClientPublicKey r key with ⟨e, he⟩ | ⟨j, lj, m', he, hlj, -, -, -, -, -, hu⟩
    · rw [he] at hl'
      exact ⟨l', hl', rfl, by simp [queued, Event.queuedTo]⟩
    · rw [he] at hl'
      dsimp only at hl'
      rw [hu] at hl'
      by_cases hij : i = j
      · subst hij
        rw [Function.update_self] at hl'
        cases hl'
        exact ⟨lj, hlj, rfl, by simp [queued, Event.queuedTo]⟩
      · rw [Function.update_of_ne hij] at hl'
        exact ⟨l', hl', rfl, by simp [queued, Event.queuedTo]⟩
  | _ =>
    simp only [perform, Shared.onRoutes] at hl'
    exact ⟨l', hl', rfl, by simp [queued, Event.queuedTo]⟩

namespace Worker

theorem unsent_eq_of_output {w w' : Worker} (h : w'.output = w.output) : w'.unsent = w.unsent := by
  obtain ⟨h1, h2, h3⟩ : w'.outgoing = w.outgoing ∧ w'.outgoingLength = w.outgoingLength ∧
      w'.sent = w.sent := by simpa [output] using h
  rw [unsent, unsent, h1, h2, h3]

theorem unsent_afterWrite (w : Worker) (k : ℕ) :
    w.unsent.take k ++ (w.afterWrite (.written k)).unsent = w.unsent := by
  have hleft : (w.afterWrite (.written k)).unsent = w.unsent.drop k := by
    rw [afterWrite, unsent_eq_of_output (beginRead_output _)]
    dsimp only [unsent]
    rw [List.drop_drop]
    split
    · next hk => simp [hk]
    · rfl
  rw [hleft, List.take_append_drop]

theorem unsent_afterTake (w : Worker) (f : OutgoingFrame) :
    (w.afterTake (.ok (some f))).unsent = encodeFrame f.type f.payload := by
  rw [afterTake, unsent_eq_of_output (beginIo_output _)]
  dsimp only [unsent]
  rw [List.drop_zero, List.take_of_length_le]
  rw [encodeFrame_length]

theorem unsent_eq_nil {w : Worker} (h : w.outgoingLength = 0) : w.unsent = [] := by
  rw [unsent, h, List.take_zero, List.drop_nil]

theorem takesFree_afterTake (w : Worker) (r : Except Errno (Option OutgoingFrame)) :
    (w.afterTake r).TakesFree := by
  unfold afterTake
  split
  · exact takesFree_of_ne (by simp)
  · exact takesFree_beginIo _
  · exact takesFree_beginIo _

theorem takesFree_afterHandle (w : Worker) (keep : Bool) : (w.afterHandle keep).TakesFree := by
  unfold afterHandle
  split
  · exact takesFree_endIo _
  · exact takesFree_of_ne (by simp)

end Worker

namespace Server.Delivers

open Server.Wf

variable {s : Server} {n : ℕ} {x' : Shared} {t' : Thread} {evs : List Event}

theorem frame (h : s.Delivers)
    (hother : ∀ k i l', k ≠ n → (s.threads k).slot = some i → x'.clients.login i = some l' →
      ∃ l, s.shared.clients.login i = some l ∧ l'.id = l.id ∧
        l'.pending = l.pending ++ queued evs l.id ∧ wire evs l.id = [])
    (hself : ∀ i l' b, t'.slot = some i → x'.clients.login i = some l' → t'.staged = some b →
      wire (s.log ++ evs) l'.id ++ b ++ encodeFrames l'.pending =
        encodeFrames (queued (s.log ++ evs) l'.id))
    (htakes : ∀ u w, t' = .working u w → w.TakesFree)
    (hwritten : ∀ c, wire (s.log ++ evs) c <+: encodeFrames (queued (s.log ++ evs) c))
    (hknown : ∀ c, wire (s.log ++ evs) c ≠ [] → c < x'.clients.nextClientId) :
    (moved s n x' t' evs).Delivers := by
  have hthread : ∀ k, (moved s n x' t' evs).threads k = if k = n then t' else s.threads k :=
    fun k => Function.update_apply _ _ _ _
  refine ⟨?_, ?_, hwritten, hknown⟩
  · intro k i l' b hk hl' hb
    rw [hthread] at hk hb
    split at hk
    · next hkn =>
      rw [if_pos hkn] at hb
      exact hself i l' b hk hl' hb
    · next hkn =>
      rw [if_neg hkn] at hb
      obtain ⟨l, hl, hid, hpending, hwire⟩ := hother k i l' hkn hk hl'
      dsimp only
      rw [hid, hpending, wire_append, hwire, List.append_nil, encodeFrames_append, queued_append,
        encodeFrames_append, ← h.flow k i l b hk hl hb]
      simp only [List.append_assoc]
  · intro k u w hk
    rw [hthread] at hk
    split at hk
    · exact htakes u w hk
    · exact h.takes k u w hk

theorem keep (h : s.Delivers)
    (hlogin : ∀ i l', x'.clients.login i = some l' → ∃ l, s.shared.clients.login i = some l ∧
      l'.id = l.id ∧ l'.pending = l.pending ++ queued evs l.id)
    (hnext : s.shared.clients.nextClientId ≤ x'.clients.nextClientId) {t : Thread}
    (ht : s.threads n = t) (hslot : ∀ i, t'.slot = some i → t.slot = some i)
    (hstaged : ∀ b, t'.staged = some b → t.staged = some b)
    (htakes : ∀ u w, t' = .working u w → w.TakesFree) (hwire : ∀ c, wire evs c = []) :
    (moved s n x' t' evs).Delivers := by
  subst ht
  refine h.frame ?_ ?_ htakes ?_ ?_
  · intro k i l' _ _ hl'
    obtain ⟨l, hl, hid, hpending⟩ := hlogin i l' hl'
    exact ⟨l, hl, hid, hpending, hwire _⟩
  · intro i l' b hi hl' hb
    obtain ⟨l, hl, hid, hpending⟩ := hlogin i l' hl'
    rw [hid, hpending, wire_append, hwire, List.append_nil, encodeFrames_append, queued_append,
      encodeFrames_append, ← h.flow n i l b (hslot i hi) hl (hstaged b hb)]
    simp only [List.append_assoc]
  · intro c
    rw [wire_append, hwire, List.append_nil, queued_append, encodeFrames_append]
    exact (h.written c).trans (List.prefix_append _ _)
  · intro c hc
    rw [wire_append, hwire, List.append_nil] at hc
    exact lt_of_lt_of_le (h.known c hc) hnext

theorem turn (h : s.Delivers) (hwf : s.Wf) {libc : Libc} {t : Thread} (ht : s.threads n = t)
    (hturn : Turn n libc s.shared t x' t' evs) : (moved s n x' t' evs).Delivers := by
  have hsame : ∀ i l', s.shared.clients.login i = some l' → ∃ l, s.shared.clients.login i = some l ∧
      l'.id = l.id ∧ l'.pending = l.pending ++ [] :=
    fun i l hl => ⟨l, hl, rfl, (List.append_nil _).symm⟩
  have hremoved : ∀ (u : Session) l, s.shared.clients.login u.index = some l → ∀ i l',
      (s.shared.clients.removeClient u.index).login i = some l' →
      s.shared.clients.login i = some l' := by
    intro u l hl i l' hl'
    rw [(hwf.clients.removeClient hl).2.2] at hl'
    by_cases hi : i = u.index
    · rw [hi, Function.update_self] at hl'
      cases hl'
    · rwa [Function.update_of_ne hi] at hl'
  cases hturn with
  | refuse =>
    exact h.keep hsame le_rfl ht (fun i hi => by cases hi) (fun b hb => by cases hb)
      (fun u w hw => by cases hw) fun _ => rfl
  | @login i name clients hadd =>
    obtain ⟨-, hnext, hfree, hid, hlogin⟩ := hwf.clients.addClient hadd
    have hwire : ∀ c, wire (s.log ++ [.login n (clients.clients i).id name]) c = wire s.log c :=
      fun c => by rw [wire_append]; exact List.append_nil _
    have hqueued : ∀ c, queued (s.log ++ [.login n (clients.clients i).id name]) c =
        queued s.log c := fun c => by rw [queued_append]; exact List.append_nil _
    refine h.frame ?_ ?_ (fun u w hw => by cases hw) ?_ ?_
    · intro k j l' _ hk hl'
      obtain ⟨l, hl, -⟩ := hwf.owns k j hk
      have hji : j ≠ i := by
        rintro rfl
        rw [hfree] at hl
        cases hl
      change clients.login j = some l' at hl'
      rw [hlogin, Function.update_of_ne hji] at hl'
      exact ⟨l', hl', rfl, (List.append_nil _).symm, rfl⟩
    · rintro j l' b ⟨⟩ hl' ⟨⟩
      change clients.login i = some l' at hl'
      rw [hlogin, Function.update_self] at hl'
      cases hl'
      rw [hwire, hqueued]
      -- the id is new: nothing was written or queued under it
      have hw : wire s.log s.shared.clients.nextClientId = [] := by
        by_contra hne
        exact lt_irrefl _ (h.known _ hne)
      have hq : queued s.log s.shared.clients.nextClientId = [] := by
        refine List.filterMap_eq_nil_iff.mpr fun e he => ?_
        cases hqe : Event.queuedTo s.shared.clients.nextClientId e with
        | none => rfl
        | some f => exact absurd (hwf.queued_lt e he _ (Event.queues_of_queuedTo hqe)) (lt_irrefl _)
      simp only [Login.fresh, hw, hq]
      rfl
    · intro c
      rw [hwire, hqueued]
      exact h.written c
    · intro c hc
      rw [hwire] at hc
      change c < clients.nextClientId
      rw [hnext]
      exact Nat.lt_succ_of_lt (h.known c hc)
  | welcome i name =>
    exact h.keep hsame le_rfl ht (fun i hi => hi) (fun b hb => hb) (fun u w hw => by cases hw)
      fun _ => rfl
  | quiet hq =>
    cases hq with
    | work u ho htf =>
      refine h.keep hsame le_rfl ht (fun i hi => hi) (fun b hb => ?_)
        (fun u w hw => by cases hw; exact htf) fun _ => rfl
      rw [← hb]
      exact congrArg some (Worker.unsent_eq_of_output ho).symm
    | start u =>
      exact h.keep hsame le_rfl ht (fun i hi => hi) (fun b hb => hb)
        (fun u w hw => by cases hw; exact fun hpc => by cases hpc) fun _ => rfl
    | welcomed u =>
      exact h.keep hsame le_rfl ht (fun i hi => hi) (fun b hb => hb) (fun u w hw => by cases hw)
        fun _ => rfl
    | _ =>
      exact h.keep hsame le_rfl ht (fun i hi => hi) (fun b hb => by cases hb)
        (fun u w hw => by cases hw) fun _ => rfl
  | @activate u clients hact =>
    obtain ⟨l, hl, -, -, hearly⟩ := hwf.owns n u.index (by rw [ht]; rfl)
    obtain ⟨-, hf, -⟩ := hearly (by rw [ht]; rfl)
    obtain ⟨m', hm', -, hnext, hlogin⟩ := hwf.clients.activateClient hl hf
    rw [hact] at hm'
    cases hm'
    refine h.keep ?_ (le_of_eq hnext.symm) ht (fun i hi => hi) (fun b hb => hb)
      (fun u w hw => by cases hw) fun _ => rfl
    intro i l' hl'
    change clients.login i = some l' at hl'
    rw [hlogin] at hl'
    by_cases hi : i = u.index
    · subst hi
      rw [Function.update_self] at hl'
      cases hl'
      exact ⟨l, hl, rfl, (List.append_nil _).symm⟩
    · rw [Function.update_of_ne hi] at hl'
      exact hsame i l' hl'
  | inactive hact =>
    exact h.keep hsame le_rfl ht (fun i hi => hi) (fun b hb => by cases hb)
      (fun u w hw => by cases hw) fun _ => rfl
  | drain u ho htf =>
    obtain ⟨l, hl, -⟩ := hwf.owns n u.index (by rw [ht]; rfl)
    obtain ⟨-, hlogin⟩ := hwf.clients.drain (ClientManager.login_some hl).1
    refine h.keep (fun i l' hl' => ?_) le_rfl ht (fun i hi => hi) (fun b hb => ?_)
      (fun u w hw => by cases hw; exact htf) fun _ => rfl
    · dsimp only at hl'
      rw [hlogin] at hl'
      exact hsame i l' hl'
    · rw [← hb]
      exact congrArg some (Worker.unsent_eq_of_output ho).symm
  | @take u w hpc =>
    obtain ⟨l, hl, -, hid, -⟩ := hwf.owns n u.index (by rw [ht]; rfl)
    rw [hid u (by rw [ht]; rfl)]
    obtain ⟨r, m', hm', -, hnext, hcases⟩ := hwf.clients.takeOutgoingFrame hl
    rw [hm']
    have hfree : w.unsent = [] := Worker.unsent_eq_nil (h.takes n u w ht hpc)
    have hflow := h.flow n u.index l [] (by rw [ht]; rfl) hl (by rw [ht, ← hfree]; rfl)
    have htakes : ∀ v w', Thread.working u (w.afterTake r) = .working v w' → w'.TakesFree := by
      rintro v w' ⟨⟩
      exact w.takesFree_afterTake r
    rcases hcases with ⟨⟨e, rfl⟩, rfl⟩ | ⟨-, ⟨rfl, -, hsame'⟩ | ⟨f, rest, rfl, hpending, hu⟩⟩
    · refine h.keep hsame le_rfl ht (fun i hi => hi) (fun b hb => ?_) htakes fun _ => rfl
      rw [← hb]
      exact congrArg some (Worker.unsent_eq_of_output rfl).symm
    · refine h.keep ?_ (le_of_eq hnext.symm) ht (fun i hi => hi) (fun b hb => ?_) htakes
        fun _ => rfl
      · intro i l' hl'
        dsimp only at hl'
        rw [hsame'] at hl'
        exact hsame i l' hl'
      · rw [← hb]
        exact congrArg some (Worker.unsent_eq_of_output (Worker.beginIo_output _)).symm
    · -- the frame moves from the queue to the staging buffer
      refine h.frame ?_ ?_ htakes ?_ ?_
      · intro k i l' hkn hk hl'
        have hi : i ≠ u.index := fun hi => hkn (hwf.slot_inj k n i hk (by rw [ht, hi]; rfl))
        dsimp only at hl'
        rw [hu, Function.update_of_ne hi] at hl'
        exact ⟨l', hl', rfl, (List.append_nil _).symm, rfl⟩
      · rintro i l' b ⟨⟩ hl' ⟨⟩
        dsimp only at hl'
        rw [hu, Function.update_self] at hl'
        cases hl'
        rw [List.append_nil, Worker.unsent_afterTake, ← hflow, hpending, List.append_nil,
          List.append_assoc]
        rfl
      · intro c
        rw [List.append_nil]
        exact h.written c
      · intro c hc
        rw [List.append_nil] at hc
        change c < m'.nextClientId
        rw [hnext]
        exact h.known c hc
  | @write u w k hk =>
    obtain ⟨l, hl, -, hid, -⟩ := hwf.owns n u.index (by rw [ht]; rfl)
    have hul : u.id = l.id := hid u (by rw [ht]; rfl)
    have hflow := h.flow n u.index l w.unsent (by rw [ht]; rfl) hl (by rw [ht]; rfl)
    have hqueued : ∀ c, queued (s.log ++ [.wrote u.id (w.unsent.take k)]) c = queued s.log c :=
      fun c => by rw [queued_append]; exact List.append_nil _
    have hwire : wire (s.log ++ [.wrote u.id (w.unsent.take k)]) l.id =
        wire s.log l.id ++ w.unsent.take k := by
      rw [wire_append]
      simp [wire, Event.wroteTo, hul]
    have hwire' : ∀ c, c ≠ l.id → wire [.wrote u.id (w.unsent.take k)] c = [] := by
      intro c hc
      simp [wire, Event.wroteTo, hul, Ne.symm hc]
    have hsplit := w.unsent_afterWrite k
    refine h.frame ?_ ?_ ?_ ?_ ?_
    · intro j i l' hjn hj hl'
      have hi : i ≠ u.index := fun hi => hjn (hwf.slot_inj j n i hj (by rw [ht, hi]; rfl))
      refine ⟨l', hl', rfl, (List.append_nil _).symm, hwire' _ fun hc => hi ?_⟩
      exact hwf.clients.login_inj hl' hl hc
    · rintro i l' b ⟨⟩ hl' ⟨⟩
      rw [hl] at hl'
      cases hl'
      rw [hwire, hqueued, ← hflow, List.append_assoc (wire s.log l.id), hsplit]
    · rintro v w' ⟨⟩
      exact Worker.takesFree_beginRead _
    · intro c
      rw [hqueued]
      by_cases hc : c = l.id
      · subst hc
        refine ⟨(w.afterWrite (.written k)).unsent ++ encodeFrames l.pending, ?_⟩
        rw [hwire, ← hflow, ← List.append_assoc, List.append_assoc (wire s.log l.id), hsplit]
      · rw [wire_append, hwire' c hc, List.append_nil]
        exact h.written c
    · intro c hc
      by_cases hcl : c = l.id
      · rw [hcl]
        exact (hwf.clients.login_id_lt hl).2
      · rw [wire_append, hwire' c hcl, List.append_nil] at hc
        exact h.known c hc
  | handle hpc =>
    exact h.keep hsame le_rfl ht (fun i hi => hi) (fun b hb => hb) (fun u w hw => by cases hw)
      fun _ => rfl
  | op u w o k =>
    exact h.keep (fun i l' => perform_pending hwf.clients libc u.id o)
      (le_of_eq (perform_clients hwf.clients libc o).2.next.symm) ht (fun i hi => hi)
      (fun b hb => hb) (fun u w hw => by cases hw) fun _ => rfl
  | ret u w keep =>
    refine h.keep hsame le_rfl ht (fun i hi => hi) (fun b hb => ?_)
      (fun u w hw => by cases hw; exact Worker.takesFree_afterHandle _ _) fun _ => rfl
    rw [← hb]
    exact congrArg some (Worker.unsent_eq_of_output (Worker.afterHandle_output _ _)).symm
  | leave u =>
    obtain ⟨l, hl, -⟩ := hwf.owns n u.index (by rw [ht]; rfl)
    refine h.keep (fun i l' hl' => hsame i l' (hremoved u l hl i l' hl')) ?_ ht
      (fun i hi => by cases hi) (fun b hb => by cases hb) (fun u w hw => by cases hw) fun _ => rfl
    exact le_of_eq (hwf.clients.removeClient hl).2.1.symm
  | abort u =>
    obtain ⟨l, hl, -⟩ := hwf.owns n u.index (by rw [ht]; rfl)
    refine h.keep (fun i l' hl' => hsame i l' (hremoved u l hl i l' hl')) ?_ ht
      (fun i hi => by cases hi) (fun b hb => by cases hb) (fun u w hw => by cases hw) fun _ => rfl
    exact le_of_eq (hwf.clients.removeClient hl).2.1.symm
  | abortOp u o k =>
    exact h.keep (fun i l' => perform_pending hwf.clients libc u.id o)
      (le_of_eq (perform_clients hwf.clients libc o).2.next.symm) ht (fun i hi => hi)
      (fun b hb => hb) (fun u w hw => by cases hw) fun _ => rfl
  | abortRet u =>
    exact h.keep hsame le_rfl ht (fun i hi => hi) (fun b hb => hb) (fun u w hw => by cases hw)
      fun _ => rfl

end Server.Delivers

theorem Server.delivers_of_reach {ok : Server → Label → Prop} {s : Server}
    (hs : server.Reach ok s) :
    s.Delivers := by
  refine hs.invariant Server.delivers_init ?_
  rintro s ⟨n, env⟩ s' hreach - h hstep
  obtain ⟨x', t', evs, hturn, rfl⟩ := Server.step_turn hstep
  exact h.turn (Server.wf_of_reach hreach) rfl hturn

/-- The bytes accepted for a client are a prefix of the encodings of the frames
queued under its id, in queue order; and an id belongs to a single connection. -/
theorem wire_prefix_queued {s : Server} (hs : server.Reachable s) (c : ClientId) :
    wire s.log c <+: encodeFrames (queued s.log c) ∧
    ∀ n n' name name', .login n c name ∈ s.log → .login n' c name' ∈ s.log → n = n' :=
  ⟨(Server.delivers_of_reach hs).written c,
    fun n n' name name' h h' => ((Server.wf_of_reach hs).log_inj n n' c name name' h h').1⟩

/-- A run in which a client asks for help and three bytes of the answer are accepted. -/
theorem wire_prefix_queued_help : ∃ s, server.Reachable s ∧ wire s.log 1 = [0, 0, 1] ∧
    wire s.log 1 <+: encodeFrames (queued s.log 1) := by
  have hrun : (server.run server.init
      [(0, { username := ascii "bob" }), (0, {}), (0, {}), (0, {}), (0, {}),
        (0, {}), (0, {}), (0, {}), (0, { read := .data [0, 0, 0, 6] }),
        (0, {}), (0, {}), (0, {}), (0, { read := .data (FrameType.text.toByte :: ascii "/help") }),
        (0, {}), (0, { libc := { address := some 7 } }), (0, {}),
        (0, {}), (0, {}), (0, {}), (0, { write := .written 3 })]).map
      (fun s => wire s.log 1) = some [0, 0, 1] := by
    decide +kernel
  obtain ⟨s, hs, hwire⟩ := Option.map_eq_some_iff.mp hrun
  have hreach := Transition.System.Reachable.run .init hs
  exact ⟨s, hreach, hwire, (wire_prefix_queued hreach 1).1⟩

end CipherChat
