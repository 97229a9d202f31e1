import CipherChat.Calls

/-!
# The frame in hand

A thread in `handle_frame` has the frame that its worker read, and no frame is longer
than `FRAME_MAX_SIZE`.
-/

namespace CipherChat

namespace Worker

/-- The buffer of the worker holds a header and a body at most. -/
structure Fits (w : Worker) : Prop where
  needed : w.needed ≤ 4 + frameMaxSize
  incoming : w.received ≤ w.needed
  frame : ∀ frame, w.pc = .handle frame → frame.length ≤ frameMaxSize

theorem Fits.of_eq {w w' : Worker} (h : w.Fits) (hn : w'.needed = w.needed)
    (hi : w'.incoming = w.incoming) (hpc : ∀ frame, w'.pc ≠ .handle frame) : w'.Fits where
  needed := hn ▸ h.needed
  incoming := by
    rw [received, hn, hi]
    exact h.incoming
  frame frame hframe := absurd hframe (hpc frame)

theorem endIo_pc (w : Worker) (frame : Bytes) : w.endIo.pc ≠ .handle frame := by
  rw [endIo]
  dsimp only
  split <;> simp

theorem Fits.endIo {w : Worker} (h : w.Fits) : w.endIo.Fits := h.of_eq rfl rfl w.endIo_pc

theorem Fits.beginRead {w : Worker} (h : w.Fits) : w.beginRead.Fits := by
  unfold Worker.beginRead
  split
  · exact h.of_eq rfl rfl (by simp)
  · exact h.endIo

theorem Fits.beginIo {w : Worker} (h : w.Fits) : w.beginIo.Fits := by
  have hreset : Fits { w with progress := false } := ⟨h.needed, h.incoming, h.frame⟩
  unfold Worker.beginIo
  dsimp only
  split
  · exact h.of_eq rfl rfl (by simp)
  · exact hreset.beginRead

theorem Fits.afterDrain {w : Worker} (h : w.Fits) (e : Option Errno) : (w.afterDrain e).Fits := by
  cases e <;> exact h.of_eq rfl rfl (by simp [Worker.afterDrain])

theorem Fits.afterStatus {w : Worker} (h : w.Fits) (r : Except Errno Unit) :
    (w.afterStatus r).Fits := by
  cases r with
  | error e => exact h.of_eq rfl rfl (by simp [Worker.afterStatus])
  | ok _ =>
    rw [Worker.afterStatus]
    split
    · exact h.of_eq rfl rfl (by simp)
    · exact h.beginIo

theorem Fits.afterTake {w : Worker} (h : w.Fits) (r : Except Errno (Option OutgoingFrame)) :
    (w.afterTake r).Fits := by
  cases r with
  | error e => exact h.of_eq rfl rfl (by simp [Worker.afterTake])
  | ok frame =>
    cases frame with
    | none => exact h.beginIo
    | some frame =>
      have hstaged : Fits { w with
          outgoing := encodeFrame frame.type frame.payload
          outgoingLength := 4 + 1 + frame.payload.length
          sent := 0 } := ⟨h.needed, h.incoming, h.frame⟩
      exact hstaged.beginIo

theorem Fits.afterWrite {w : Worker} (h : w.Fits) (r : WriteResult) : (w.afterWrite r).Fits := by
  have hgo : ∀ {w' : Worker}, w'.needed = w.needed → w'.incoming = w.incoming → w'.pc = w.pc →
      w'.beginRead.Fits := by
    intro w' hn hi hpc
    refine Fits.beginRead ⟨hn ▸ h.needed, ?_, fun frame hframe => h.frame frame (hpc ▸ hframe)⟩
    rw [received, hn, hi]
    exact h.incoming
  cases r with
  | written k => exact hgo rfl rfl rfl
  | failed e =>
    rw [Worker.afterWrite]
    split
    · exact hgo rfl rfl rfl
    · exact h.of_eq rfl rfl (by simp)
    · exact h.of_eq rfl rfl (by simp)

theorem Fits.complete {w : Worker} (h : w.Fits) (hfull : w.received = w.needed) :
    w.complete.Fits := by
  unfold Worker.complete
  split
  · next h4 =>
    dsimp only
    split
    · exact h.of_eq rfl rfl (by simp)
    · next hgood =>
      refine ⟨?_, ?_, fun frame hframe => absurd hframe (endIo_pc _ frame)⟩
      · change w.needed + _ ≤ _
        omega
      · exact h.incoming.trans (Nat.le_add_right _ _)
  · dsimp only
    split
    · refine ⟨h.needed, h.incoming, fun frame hframe => ?_⟩
      cases hframe
      have hlen : w.incoming.length = w.needed := hfull
      have := h.needed
      rw [List.length_drop]
      omega
    · exact h.of_eq rfl rfl (by simp)

theorem Fits.afterRead {w : Worker} (h : w.Fits) {r : ReadResult} (hr : w.ReadOk r) :
    (w.afterRead r).Fits := by
  cases r with
  | data bytes =>
    have hread : ∀ {w' : Worker}, w'.needed = w.needed → w'.incoming = w.incoming ++ bytes →
        w'.pc = w.pc → w'.Fits := by
      intro w' hn hi hpc
      refine ⟨hn ▸ h.needed, ?_, fun frame hframe => h.frame frame (hpc ▸ hframe)⟩
      have hle := h.incoming
      have hroom := hr.2
      rw [received] at hle hroom ⊢
      rw [hi, hn, List.length_append]
      omega
    rw [Worker.afterRead]
    dsimp only
    split
    · next hfull => exact Fits.complete (hread rfl rfl rfl) hfull
    · exact Fits.endIo (hread rfl rfl rfl)
  | failed e =>
    rw [Worker.afterRead]
    split
    · exact Fits.endIo ⟨h.needed, h.incoming, h.frame⟩
    · exact h.of_eq rfl rfl (by simp)
    · exact h.of_eq rfl rfl (by simp)

theorem Fits.afterHandle {w : Worker} (h : w.Fits) (keep : Bool) : (w.afterHandle keep).Fits := by
  cases keep with
  | true =>
    refine ⟨?_, Nat.zero_le _, fun frame hframe => absurd hframe (endIo_pc _ frame)⟩
    exact Nat.le_add_right 4 frameMaxSize
  | false => exact h.of_eq rfl rfl (by simp [Worker.afterHandle])

theorem Fits.afterPoll {w : Worker} (h : w.Fits) (e : Option Errno) : (w.afterPoll e).Fits := by
  cases e <;> exact h.of_eq rfl rfl (by simp [Worker.afterPoll])

theorem fits_start : Fits {} :=
  ⟨Nat.le_add_right 4 frameMaxSize, Nat.zero_le _, fun _ h => by cases h⟩

end Worker

/-- The worker of a thread that has one. -/
def Thread.worker : Thread → Option Worker
  | .working _ w | .handling _ w _ => some w
  | _ => none

theorem workerStep_fits {x x' : Shared} {u : Session} {w : Worker} {env : Env} {t' : Thread}
    {evs : List Event} (h : workerStep x u w env = some (x', t', evs)) (hw : w.Fits) :
    ∀ w', t'.worker = some w' → w'.Fits := by
  intro w' hw'
  unfold workerStep at h
  split at h
  · cases h
    obtain rfl := Option.some.inj hw'
    exact hw.afterDrain _
  · cases h
    obtain rfl := Option.some.inj hw'
    exact hw.afterStatus _
  · cases h
    obtain rfl := Option.some.inj hw'
    exact hw.afterTake _
  · split at h
    · obtain ⟨-, rfl, -⟩ := Prod.mk.inj (Option.some.inj h)
      obtain rfl := Option.some.inj hw'
      exact hw.afterWrite _
    · cases h
  · split at h
    · next hok =>
      obtain ⟨-, rfl, -⟩ := Prod.mk.inj (Option.some.inj h)
      obtain rfl := Option.some.inj hw'
      exact hw.afterRead hok
    · cases h
  · cases h
    cases hw'
    exact hw
  · cases h
    obtain rfl := Option.some.inj hw'
    exact hw.afterPoll _
  · cases h
    cases hw'

theorem threadStep_fits {x x' : Shared} {n : ℕ} {env : Env} {t t' : Thread} {evs : List Event}
    (h : threadStep x n env t = some (x', t', evs)) (ht : ∀ w, t.worker = some w → w.Fits) :
    ∀ w, t'.worker = some w → w.Fits := by
  unfold threadStep at h
  split at h
  · split at h
    · cases h
      exact fun w hw => by cases hw
    · split at h
      · cases h
        exact fun w hw => by cases hw
      · cases h
        exact fun w hw => by cases hw
  · cases h
    exact fun w hw => by cases hw
  · cases h
    split <;> exact fun w hw => by cases hw
  · split at h
    · cases h
      exact fun w hw => by cases hw
    · cases h
      exact fun w hw => by cases hw
  · split at h
    · cases h
      -- only an activated slot gets a worker, and that one is fresh
      split
      · intro w hw
        cases hw
        exact Worker.fits_start
      · exact fun w hw => by cases hw
    · cases h
      exact fun w hw => by cases hw
  · exact workerStep_fits h (ht _ rfl)
  · cases h
    intro w hw
    cases hw
    exact (ht _ rfl).afterHandle _
  · cases h
    exact ht
  · dsimp only at h
    split at h
    · cases h
      exact fun w hw => by cases hw
    · cases h
      exact fun w hw => by cases hw
  · cases h
    exact fun w hw => by cases hw
  · cases h
    exact fun w hw => by cases hw
  · cases h
  · cases h

theorem Server.fits_of_reach {ok : Server → Label → Prop} {s : Server} (hs : server.Reach ok s) :
    ∀ n w, (s.threads n).worker = some w → w.Fits := by
  refine hs.invariant (P := fun s => ∀ n w, (s.threads n).worker = some w → w.Fits)
    (fun n w hw => by cases hw) ?_
  rintro s ⟨n, env⟩ s' - - hold hstep k
  obtain ⟨x', t', evs, ht, rfl⟩ := Server.step_eq_some hstep
  dsimp only
  by_cases hk : k = n
  · rw [hk, Function.update_self]
    exact threadStep_fits ht (hold n)
  · rw [Function.update_of_ne hk]
    exact hold k

theorem Turn.client_session {n : ℕ} {libc : Libc} {x x' : Shared} {t t' : Thread}
    {evs : List Event} (h : Turn n libc x t x' t' evs) {e : Event} (he : e ∈ evs) {c : ClientId}
    (hc : e.client = some c) : ∃ u, t.session = some u ∧ u.id = c := by
  cases h with
  | login _ =>
    cases List.mem_singleton.mp he
    cases hc
  | write _ =>
    cases List.mem_singleton.mp he
    cases hc
  | @handle u =>
    cases List.mem_singleton.mp he
    exact ⟨u, rfl, Option.some.inj hc⟩
  | op u =>
    cases List.mem_singleton.mp he
    exact ⟨u, rfl, Option.some.inj hc⟩
  | ret u =>
    cases List.mem_singleton.mp he
    exact ⟨u, rfl, Option.some.inj hc⟩
  | abort u =>
    cases List.mem_singleton.mp he
    exact ⟨u, rfl, Option.some.inj hc⟩
  | abortOp u =>
    cases List.mem_singleton.mp he
    exact ⟨u, rfl, Option.some.inj hc⟩
  | abortRet u =>
    cases List.mem_singleton.mp he
    exact ⟨u, rfl, Option.some.inj hc⟩
  | _ => cases he

/-- The events of another thread are another client's. -/
theorem Server.events_of_other {ok : Server → Label → Prop} {s : Server} (hs : server.Reach ok s)
    {n k : ℕ} {libc : Libc} {x' : Shared} {t' : Thread} {evs : List Event}
    (hturn : Turn n libc s.shared (s.threads n) x' t' evs) {u : Session}
    (hu : (s.threads k).session = some u) (hkn : k ≠ n) : ∀ e ∈ evs, e.client ≠ some u.id := by
  intro e he hc
  obtain ⟨v, hv, hid⟩ := hturn.client_session he hc
  exact hkn ((Server.wf_of_reach hs).session_inj hu hv hid.symm)

/-- A thread in `handle_frame` was called for the frame that its worker holds. -/
theorem Server.handling_frame {ok : Server → Label → Prop} {s : Server} (hs : server.Reach ok s)
    {n : ℕ} {u : Session} {w : Worker} {p : Handler Bool} (hn : s.threads n = .handling u w p) :
    ∃ frame, w.pc = .handle frame ∧ (monitor s.log u.id).call = .frame frame ∧
      frame.length ≤ frameMaxSize := by
  have hcall : ∀ n u w p, s.threads n = .handling u w p → ∃ frame, w.pc = .handle frame ∧
      (monitor s.log u.id).call = .frame frame := by
    refine hs.invariant (P := fun s => ∀ n u w p, s.threads n = .handling u w p →
      ∃ frame, w.pc = .handle frame ∧ (monitor s.log u.id).call = .frame frame)
      (fun n u w p hn => by cases hn) ?_
    rintro s ⟨n, env⟩ s' hr - hold hstep k u w p hk
    obtain ⟨x', t', evs, hturn, rfl⟩ := Server.step_turn hstep
    dsimp only at hk ⊢
    by_cases hkn : k = n
    · subst hkn
      rw [Function.update_self] at hk
      subst hk
      generalize ht : s.threads k = t at hturn
      cases hturn with
      | @handle _ _ frame hpc =>
        refine ⟨frame, hpc, ?_⟩
        rw [monitor_concat, Monitor.event, if_pos rfl]
      | op _ _ o k' =>
        obtain ⟨frame, hpc, hm⟩ := hold k _ _ _ ht
        refine ⟨frame, hpc, ?_⟩
        rw [monitor_did_self]
        exact hm
      | quiet hq => cases hq
    · rw [Function.update_of_ne hkn] at hk
      obtain ⟨frame, hpc, hm⟩ := hold k u w p hk
      refine ⟨frame, hpc, ?_⟩
      have hother := Server.events_of_other hr hturn (by rw [hk]; rfl) hkn
      rw [monitor_append_of_ne hother]
      exact hm
  obtain ⟨frame, hpc, hm⟩ := hcall n u w p hn
  exact ⟨frame, hpc, hm, (Server.fits_of_reach hs n w (by rw [hn]; rfl)).frame frame hpc⟩

/-- A thread in `handle_frame` is about to do what the discipline allows. -/
theorem Server.handling_allow {ok : Server → Label → Prop} {s : Server} (hs : server.Reach ok s)
    {n : ℕ} {u : Session} {w : Worker} {o : Op} {k : o.Resp → Handler Bool}
    (hn : s.threads n = .handling u w (.op o k)) :
    (monitor s.log u.id).allow u.id u.username o := by
  have hfollows := (Server.inCalls_of_reach hs).follows n
  rw [hn, Thread.Follows, Resumption.Discipline.follows_op] at hfollows
  exact hfollows.1

/-- The rule for a call of `handle_frame`: what holds of what it has logged when it is entered,
and is kept by its operations and by the other threads, holds until it returns. -/
theorem Server.during_call {ok : Server → Label → Prop} {P : List Event → Server → Prop} {n : ℕ}
    {u : Session} {w : Worker} {p : Handler Bool} {s₁ s : Server} (hs₁ : server.Reachable s₁)
    (hn : s₁.threads n = .handling u w p) (h0 : P [] s₁)
    (hown : ∀ t env o k seg, server.Steps s₁ t → ok t (n, env) →
      t.threads n = .handling u w (.op o k) → P seg t →
      P (seg ++ [.did u.id o (perform env.libc t.shared o).1])
        { shared := (perform env.libc t.shared o).2
          threads := Function.update t.threads n (.handling u w (k (perform env.libc t.shared o).1))
          log := t.log ++ [.did u.id o (perform env.libc t.shared o).1] })
    (hother : ∀ t l t' evs seg, server.Steps s₁ t → l.1 ≠ n → server.step t l = some t' →
      t'.log = t.log ++ evs → (∀ e ∈ evs, e.client ≠ some u.id) → t'.threads n = t.threads n →
      P seg t → P (seg ++ evs) t')
    (hst : server.StepsOf ok s₁ s) : ∃ seg, s.log = s₁.log ++ seg ∧
      (.returned u.id ∈ seg ∨ (∃ p, s.threads n = .handling u w p) ∧ P seg s) := by
  refine hst.invariant (P := fun s => ∃ seg, s.log = s₁.log ++ seg ∧
    (.returned u.id ∈ seg ∨ (∃ p, s.threads n = .handling u w p) ∧ P seg s)) ?_
    ⟨[], (List.append_nil _).symm, .inr ⟨⟨p, hn⟩, h0⟩⟩
  rintro t ⟨k, env⟩ t' hrun hok ⟨seg, hlog, hret | ⟨⟨q, hq⟩, hold⟩⟩ hstep
  · obtain ⟨x', t'', evs, -, rfl⟩ := Server.step_turn hstep
    exact ⟨seg ++ evs, by rw [← List.append_assoc, ← hlog], .inl (List.mem_append_left _ hret)⟩
  by_cases hkn : k = n
  · subst hkn
    cases q with
    | ret keep =>
      rw [Server.step_of env hq rfl] at hstep
      cases hstep
      refine ⟨seg ++ [.returned u.id], ?_, .inl ?_⟩
      · rw [hlog, List.append_assoc]
      · exact List.mem_append_right _ (List.mem_singleton.mpr rfl)
    | op o k' =>
      have hkept := hown t env o k' seg hrun hok hq hold
      obtain rfl := Option.some.inj (hstep.symm.trans (Server.performs hq env))
      refine ⟨seg ++ [.did u.id o (perform env.libc t.shared o).1], ?_,
        .inr ⟨⟨_, Function.update_self _ _ _⟩, hkept⟩⟩
      rw [hlog, List.append_assoc]
  · obtain ⟨x', t'', evs, hturn, ht'⟩ := Server.step_turn hstep
    have hclient := Server.events_of_other (hs₁.steps hrun) hturn (by rw [hq]; rfl) (Ne.symm hkn)
    have hthread : t'.threads n = t.threads n := by
      rw [ht']
      exact Function.update_of_ne (Ne.symm hkn) _ _
    have hlog' : t'.log = t.log ++ evs := by rw [ht']
    refine ⟨seg ++ evs, by rw [hlog', hlog, List.append_assoc], .inr ⟨⟨q, hthread.trans hq⟩, ?_⟩⟩
    exact hother t (k, env) t' evs seg hrun hkn hstep hlog' hclient hthread hold

end CipherChat
