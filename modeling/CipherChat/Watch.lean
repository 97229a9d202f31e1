import CipherChat.Duties
import CipherChat.Sessions

/-!
# Watching calls

A watch is a discipline for every client's calls.  The log determines its state for
each client.  If the two entry points keep to the watch, then every program in flight
does, in every reachable state; so every logged operation was allowed when it was
performed, and every return found the watch at rest.
-/

namespace CipherChat

open Resumption ClientManager

structure Watch (τ : Type) where
  /-- The state at the start of a call, and between calls. -/
  start : Call → τ
  allow : ClientId → Bytes → τ → Op → Prop
  next : ClientId → τ → (o : Op) → o.Resp → τ
  /-- Whether a call may return. -/
  rest : τ → Prop

namespace Watch

variable {τ : Type} (W : Watch τ)

/-- The discipline of the thread of client `id`, named `username`. -/
def discipline (id : ClientId) (username : Bytes) : Discipline serverSig τ where
  allow := W.allow id username
  next := W.next id

/-- The state for client `id` after an event. -/
def event (id : ClientId) (t : τ) : Event → τ
  | .received c frame => if c = id then W.start (.frame frame) else t
  | .abort c => if c = id then W.start .abort else t
  | .did c o r => if c = id then W.next id t o r else t
  | .returned c => if c = id then W.start .none else t
  | .login _ _ _ | .wrote _ _ => t

def state (log : List Event) (id : ClientId) : τ := log.foldl (W.event id) (W.start .none)

/-- The handlers keep to the watch, whatever the operations answer. -/
structure Kept : Prop where
  frame : ∀ id username frame, id ≠ invalidClientId →
    (W.discipline id username).follows (W.start (.frame frame))
      (handleClientFrame id username frame) fun t _ => W.rest t
  abort : ∀ id username, id ≠ invalidClientId →
    (W.discipline id username).follows (W.start .abort) (abortFileRoutesForClient id)
      fun t _ => W.rest t

variable {W}

@[simp] theorem state_concat (log : List Event) (e : Event) (id : ClientId) :
    W.state (log ++ [e]) id = W.event id (W.state log id) e := by
  rw [state, List.foldl_append]
  rfl

theorem state_did_self {log : List Event} {id : ClientId} {o : Op} {r : o.Resp} :
    W.state (log ++ [.did id o r]) id = W.next id (W.state log id) o r := by
  rw [state_concat, event, if_pos rfl]

theorem state_did_of_ne {log : List Event} {c id : ClientId} {o : Op} {r : o.Resp} (h : c ≠ id) :
    W.state (log ++ [.did c o r]) id = W.state log id := by
  rw [state_concat, event, if_neg h]

end Watch

theorem Turn.events {n : ℕ} {libc : Libc} {x x' : Shared} {t t' : Thread} {evs : List Event}
    (h : Turn n libc x t x' t' evs) : evs = [] ∨ ∃ e, evs = [e] := by
  cases h <;> first | exact .inl rfl | exact .inr ⟨_, rfl⟩

/-- Every event of a run was logged by a step of it. -/
theorem Server.event_reach {ok : Server → Label → Prop} {s : Server} (hs : server.Reach ok s)
    {before after : List Event} {e : Event} (h : s.log = before ++ e :: after) :
    ∃ s₀ l s₁, server.Reach ok s₀ ∧ ok s₀ l ∧ server.step s₀ l = some s₁ ∧ s₀.log = before ∧
      s₁.log = before ++ [e] ∧ server.Steps s₁ s := by
  revert before after e
  refine hs.invariant (P := fun s => ∀ {before after : List Event} {e : Event},
    s.log = before ++ e :: after → ∃ s₀ l s₁, server.Reach ok s₀ ∧ ok s₀ l ∧
      server.step s₀ l = some s₁ ∧ s₀.log = before ∧ s₁.log = before ++ [e] ∧
      server.Steps s₁ s) ?_ ?_
  · intro before after e h
    cases (List.append_eq_nil_iff.mp h.symm).2
  · rintro s ⟨n, env⟩ s' hr hok hold hstep before after e h
    obtain ⟨x', t', evs, hturn, hs'⟩ := Server.step_turn hstep
    have hlog' : s'.log = s.log ++ evs := by rw [hs']
    rw [hlog'] at h
    have hlater : ∀ {after'}, s.log = before ++ e :: after' → ∃ s₀ l s₁, server.Reach ok s₀ ∧
        ok s₀ l ∧ server.step s₀ l = some s₁ ∧ s₀.log = before ∧ s₁.log = before ++ [e] ∧
        server.Steps s₁ s' := by
      intro after' h'
      obtain ⟨s₀, l, s₁, hr₀, hok₀, hstep₀, hlog₀, hlog₁, hst⟩ := hold h'
      exact ⟨s₀, l, s₁, hr₀, hok₀, hstep₀, hlog₀, hlog₁, hst.tail hstep⟩
    rcases hturn.events with rfl | ⟨e', rfl⟩
    · rw [List.append_nil] at h
      exact hlater h
    · rcases List.eq_nil_or_concat after with rfl | ⟨after', e'', rfl⟩
      · obtain ⟨hlog, he⟩ := List.append_inj' h rfl
        obtain rfl := List.singleton_inj.mp he
        exact ⟨s, (n, env), s', hr, hok, hstep, hlog, by rw [hlog', hlog], .refl⟩
      · rw [List.concat_eq_append, ← List.cons_append, ← List.append_assoc] at h
        exact hlater (List.append_inj' h rfl).1

/-- The client of a thread that is in a handler or an abort. -/
def Thread.inCall : Thread → Option Session
  | .handling u _ _ | .aborting u _ => some u
  | _ => none

theorem Thread.session_of_inCall {t : Thread} {u : Session} (h : t.inCall = some u) :
    t.session = some u := by
  cases t <;> first | exact h | cases h

theorem Server.Wf.session_inj {s : Server} (h : s.Wf) {n n' : ℕ} {u u' : Session}
    (hn : (s.threads n).session = some u) (hn' : (s.threads n').session = some u')
    (hid : u.id = u'.id) : n = n' := by
  have h1 := h.session_logged n u hn
  have h2 := h.session_logged n' u' hn'
  rw [hid] at h1
  exact (h.log_inj n n' u'.id _ _ h1 h2).1

/-- The id of a client that owns a slot. -/
theorem Server.Wf.session_id_ne {s : Server} (h : s.Wf) {n : ℕ} {u : Session}
    (hslot : (s.threads n).slot = some u.index) (hn : (s.threads n).session = some u) :
    u.id ≠ invalidClientId := by
  obtain ⟨l, hl, -, hid, -⟩ := h.owns n u.index hslot
  obtain ⟨ha, hlid, -⟩ := login_some hl
  rw [hid u hn, ← hlid]
  exact h.clients.id_ne _ ha

namespace Watch

variable {τ : Type} {W : Watch τ}

/-- What is left of a call keeps to the watch. -/
def Follows (W : Watch τ) (log : List Event) : Thread → Prop
  | .handling u _ p => (W.discipline u.id u.username).follows (W.state log u.id) p
    fun t _ => W.rest t
  | .aborting u p => (W.discipline u.id u.username).follows (W.state log u.id) p fun t _ => W.rest t
  | _ => True

theorem Follows.congr {t : Thread} {log log' : List Event} (h : W.Follows log t)
    (hm : ∀ u, t.inCall = some u → W.state log' u.id = W.state log u.id) : W.Follows log' t := by
  cases t with
  | handling u w p =>
    rw [Follows, hm u rfl]
    exact h
  | aborting u p =>
    rw [Follows, hm u rfl]
    exact h
  | _ => trivial

/-- Every call in flight keeps to the watch, and a client without one is between calls. -/
structure Holds (W : Watch τ) (s : Server) : Prop where
  follows : ∀ n, W.Follows s.log (s.threads n)
  idle : ∀ c, (∀ n u, (s.threads n).inCall = some u → u.id ≠ c) → W.state s.log c = W.start .none

namespace Holds

open Server.Wf

variable {s : Server} {n : ℕ} {x' : Shared} {t' : Thread} {evs : List Event}

theorem state_eq (h : W.Holds s) (hwf : s.Wf) {u : Session}
    (hn : (s.threads n).session = some u) (hc : (s.threads n).inCall = none) :
    W.state s.log u.id = W.start .none := by
  refine h.idle u.id fun k v hk hid => ?_
  obtain rfl := hwf.session_inj (Thread.session_of_inCall hk) hn hid
  rw [hc] at hk
  cases hk

theorem move (h : W.Holds s) (hwf : s.Wf)
    (hcall : ∀ u, t'.inCall = some u → (s.threads n).session = some u)
    (hother : ∀ c, (∀ u, (s.threads n).session = some u → u.id ≠ c) →
      W.state (s.log ++ evs) c = W.state s.log c)
    (hfollows : W.Follows (s.log ++ evs) t')
    (hidle : ∀ u, (s.threads n).session = some u → t'.inCall = none →
      W.state (s.log ++ evs) u.id = W.start .none) : W.Holds (moved s n x' t' evs) := by
  have hself : (moved s n x' t' evs).threads n = t' := Function.update_self _ _ _
  have hne : ∀ k, k ≠ n → (moved s n x' t' evs).threads k = s.threads k :=
    fun k hk => Function.update_of_ne hk _ _
  refine ⟨fun k => ?_, fun c hc => ?_⟩
  · by_cases hk : k = n
    · rw [hk, hself]
      exact hfollows
    · rw [hne k hk]
      refine (h.follows k).congr fun u hu => hother u.id fun v hv hid => hk ?_
      exact (hwf.session_inj hv (Thread.session_of_inCall hu) hid).symm
  · by_cases hown : ∃ u, (s.threads n).session = some u ∧ u.id = c
    · obtain ⟨u, hu, rfl⟩ := hown
      refine hidle u hu ?_
      cases ht : t'.inCall with
      | none => rfl
      | some v =>
        have hv := hcall v ht
        rw [hu] at hv
        cases hv
        exact absurd rfl (hc n u (by rw [hself, ht]))
    · have hown' : ∀ u, (s.threads n).session = some u → u.id ≠ c := fun u hu hid =>
        hown ⟨u, hu, hid⟩
      change W.state (s.log ++ evs) c = W.start .none
      rw [hother c hown']
      refine h.idle c fun k v hk => ?_
      by_cases hkn : k = n
      · subst hkn
        exact hown' v (Thread.session_of_inCall hk)
      · exact hc k v (by rw [hne k hkn, hk])

theorem pass (h : W.Holds s) (hwf : s.Wf) (hn : (s.threads n).inCall = none)
    (ht : t'.inCall = none) (hevs : ∀ c, W.state (s.log ++ evs) c = W.state s.log c) :
    W.Holds (moved s n x' t' evs) := by
  refine h.move hwf (fun u hu => ?_) (fun c _ => hevs c) ?_ fun u hu _ => ?_
  · rw [ht] at hu
    cases hu
  · cases t' <;> trivial
  · rw [hevs, h.state_eq hwf hu hn]

theorem own (h : W.Holds s) (hwf : s.Wf) {u : Session} {e : Event}
    (hn : (s.threads n).session = some u) (he : ∀ c t, u.id ≠ c → W.event c t e = t)
    (hcall : t'.inCall = some u ∨
      t'.inCall = none ∧ W.event u.id (W.state s.log u.id) e = W.start .none)
    (hfollows : W.Follows (s.log ++ [e]) t') : W.Holds (moved s n x' t' [e]) := by
  refine h.move hwf ?_ ?_ hfollows ?_
  · intro v hv
    rcases hcall with hc | ⟨hc, -⟩
    · rw [hc] at hv
      rw [hn, hv]
    · rw [hc] at hv
      cases hv
  · intro c hc
    rw [state_concat]
    exact he c _ (hc u hn)
  · intro v hv ht
    rw [hn] at hv
    cases hv
    rcases hcall with hc | ⟨-, hm⟩
    · rw [ht] at hc
      cases hc
    · rw [state_concat, hm]

theorem turn (h : W.Holds s) (hW : W.Kept) (hwf : s.Wf) {libc : Libc} {t : Thread}
    (ht : s.threads n = t) (hturn : Turn n libc s.shared t x' t' evs) :
    W.Holds (moved s n x' t' evs) := by
  have hnil : ∀ c, W.state (s.log ++ []) c = W.state s.log c := fun c => by rw [List.append_nil]
  cases hturn with
  | refuse => exact h.pass hwf (by rw [ht]; rfl) rfl hnil
  | login hadd => exact h.pass hwf (by rw [ht]; rfl) rfl fun c => by rw [state_concat]; rfl
  | welcome i name => exact h.pass hwf (by rw [ht]; rfl) rfl hnil
  | quiet hq => cases hq <;> exact h.pass hwf (by rw [ht]; rfl) rfl hnil
  | activate hact => exact h.pass hwf (by rw [ht]; rfl) rfl hnil
  | inactive hact => exact h.pass hwf (by rw [ht]; rfl) rfl hnil
  | drain u ho htf => exact h.pass hwf (by rw [ht]; rfl) rfl hnil
  | take hpc => exact h.pass hwf (by rw [ht]; rfl) rfl hnil
  | write hk => exact h.pass hwf (by rw [ht]; rfl) rfl fun c => by rw [state_concat]; rfl
  | @handle u w frame hpc =>
    have hne : u.id ≠ invalidClientId :=
      hwf.session_id_ne (n := n) (by rw [ht]; rfl) (by rw [ht]; rfl)
    refine h.own hwf (by rw [ht]; rfl) (fun c t hc => if_neg hc) (.inl rfl) ?_
    rw [Follows, state_concat, event, if_pos rfl]
    exact hW.frame u.id u.username frame hne
  | op u w o k =>
    refine h.own hwf (by rw [ht]; rfl) (fun c t hc => if_neg hc) (.inl rfl) ?_
    have hf := h.follows n
    rw [ht, Follows, Discipline.follows_op] at hf
    rw [Follows, state_did_self]
    exact hf.2 _
  | ret u w keep =>
    exact h.own hwf (by rw [ht]; rfl) (fun c t hc => if_neg hc) (.inr ⟨rfl, if_pos rfl⟩) trivial
  | leave u => exact h.pass hwf (by rw [ht]; rfl) rfl hnil
  | abort u =>
    have hne : u.id ≠ invalidClientId :=
      hwf.session_id_ne (n := n) (by rw [ht]; rfl) (by rw [ht]; rfl)
    refine h.own hwf (by rw [ht]; rfl) (fun c t hc => if_neg hc) (.inl rfl) ?_
    rw [Follows, state_concat, event, if_pos rfl]
    exact hW.abort u.id u.username hne
  | abortOp u o k =>
    refine h.own hwf (by rw [ht]; rfl) (fun c t hc => if_neg hc) (.inl rfl) ?_
    have hf := h.follows n
    rw [ht, Follows, Discipline.follows_op] at hf
    rw [Follows, state_did_self]
    exact hf.2 _
  | abortRet u =>
    exact h.own hwf (by rw [ht]; rfl) (fun c t hc => if_neg hc) (.inr ⟨rfl, if_pos rfl⟩) trivial

end Holds

theorem Kept.holds (hW : W.Kept) {ok : Server → Label → Prop} {s : Server}
    (hs : server.Reach ok s) : W.Holds s := by
  refine hs.invariant ⟨fun _ => trivial, fun _ _ => rfl⟩ ?_
  rintro s ⟨n, env⟩ s' hr - hold hstep
  obtain ⟨x', t', evs, hturn, rfl⟩ := Server.step_turn hstep
  exact hold.turn hW (Server.wf_of_reach hr) rfl hturn

theorem Kept.allowed (hW : W.Kept) {ok : Server → Label → Prop} {s s' : Server} {l : Label}
    (hs : server.Reach ok s) (hstep : server.step s l = some s') {c : ClientId} {o : Op}
    {r : o.Resp}
    (h : s'.log = s.log ++ [.did c o r]) :
    (∃ name, W.allow c name (W.state s.log c) o) ∧ r = (perform l.2.libc s.shared o).1 ∧
      s'.shared = (perform l.2.libc s.shared o).2 := by
  obtain ⟨n, env⟩ := l
  obtain ⟨x', t', evs, hturn, rfl⟩ := Server.step_turn hstep
  have hevs : evs = [.did c o r] := List.append_cancel_left h
  have hfollows := (hW.holds hs).follows n
  generalize s.threads n = t at hturn hfollows
  cases hturn with
  | op u w o' k =>
    rw [Follows, Discipline.follows_op] at hfollows
    obtain ⟨rfl, rfl, hr⟩ := Event.did.inj (List.singleton_inj.mp hevs)
    exact ⟨⟨u.username, hfollows.1⟩, (eq_of_heq hr).symm, rfl⟩
  | abortOp u o' k =>
    rw [Follows, Discipline.follows_op] at hfollows
    obtain ⟨rfl, rfl, hr⟩ := Event.did.inj (List.singleton_inj.mp hevs)
    exact ⟨⟨u.username, hfollows.1⟩, (eq_of_heq hr).symm, rfl⟩
  | _ => cases hevs

theorem Kept.started (hW : W.Kept) {ok : Server → Label → Prop} {s s' : Server} {l : Label}
    (hs : server.Reach ok s) (hstep : server.step s l = some s') {c : ClientId}
    (h : (∃ frame, s'.log = s.log ++ [.received c frame]) ∨ s'.log = s.log ++ [.abort c]) :
    W.state s.log c = W.start .none := by
  obtain ⟨n, env⟩ := l
  obtain ⟨x', t', evs, hturn, rfl⟩ := Server.step_turn hstep
  have hevs : (∃ frame, evs = [.received c frame]) ∨ evs = [.abort c] := by
    rcases h with ⟨frame, h⟩ | h
    · exact .inl ⟨frame, List.append_cancel_left h⟩
    · exact .inr (List.append_cancel_left h)
  have hidle := fun u => (hW.holds hs).state_eq (n := n) (u := u) (Server.wf_of_reach hs)
  generalize s.threads n = t at hturn hidle
  cases hturn with
  | @handle u w frame hpc =>
    rcases hevs with ⟨frame', hevs⟩ | hevs <;> cases hevs
    exact hidle u rfl rfl
  | abort u =>
    rcases hevs with ⟨frame', hevs⟩ | hevs <;> cases hevs
    exact hidle u rfl rfl
  | _ => rcases hevs with ⟨frame', hevs⟩ | hevs <;> cases hevs

theorem Kept.rested (hW : W.Kept) {ok : Server → Label → Prop} {s s' : Server} {l : Label}
    (hs : server.Reach ok s) (hstep : server.step s l = some s') {c : ClientId}
    (h : s'.log = s.log ++ [.returned c]) : W.rest (W.state s.log c) := by
  obtain ⟨n, env⟩ := l
  obtain ⟨x', t', evs, hturn, rfl⟩ := Server.step_turn hstep
  have hevs : evs = [.returned c] := List.append_cancel_left h
  have hfollows := (hW.holds hs).follows n
  generalize s.threads n = t at hturn hfollows
  cases hturn with
  | ret u w keep =>
    rw [Follows, Discipline.follows_ret] at hfollows
    cases hevs
    exact hfollows
  | abortRet u =>
    rw [Follows, Discipline.follows_ret] at hfollows
    cases hevs
    exact hfollows
  | _ => cases hevs

/-- What an event of a run means to the watch of client `d`: nothing, an operation that it
allows, or the start or the end of a call. -/
theorem Kept.event_cases (hW : W.Kept) {ok : Server → Label → Prop} {s : Server}
    (hs : server.Reach ok s) {before after : List Event} {e : Event}
    (h : s.log = before ++ e :: after) (d : ClientId) :
    W.state (before ++ [e]) d = W.state before d ∨
    (∃ name o r, e = .did d o r ∧ W.allow d name (W.state before d) o) ∨
    W.state before d = W.start .none ∨ W.rest (W.state before d) := by
  obtain ⟨s₀, l, s₁, hr, -, hstep, rfl, hlog, -⟩ := Server.event_reach hs h
  cases e with
  | did c o r =>
    by_cases hc : c = d
    · subst hc
      obtain ⟨⟨name, ha⟩, -⟩ := hW.allowed hr hstep hlog
      exact .inr (.inl ⟨name, o, r, rfl, ha⟩)
    · exact .inl (state_did_of_ne hc)
  | received c frame =>
    by_cases hc : c = d
    · subst hc
      exact .inr (.inr (.inl (hW.started hr hstep (.inl ⟨frame, hlog⟩))))
    · exact .inl (by rw [state_concat, event, if_neg hc])
  | abort c =>
    by_cases hc : c = d
    · subst hc
      exact .inr (.inr (.inl (hW.started hr hstep (.inr hlog))))
    · exact .inl (by rw [state_concat, event, if_neg hc])
  | returned c =>
    by_cases hc : c = d
    · subst hc
      exact .inr (.inr (.inr (hW.rested hr hstep hlog)))
    · exact .inl (by rw [state_concat, event, if_neg hc])
  | login n c name => exact .inl (by rw [state_concat]; rfl)
  | wrote c bytes => exact .inl (by rw [state_concat]; rfl)

end Watch

end CipherChat
