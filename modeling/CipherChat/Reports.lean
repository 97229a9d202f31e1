import CipherChat.Calls
import CipherChat.Notices
import CipherChat.RouteSteps
import Mathlib.Data.List.Forall2

/-!
# Failed transfers are reported

A call that ends a live route owes its sender a text.  Every text that a call owes is
queued before the call returns, and each of them by an operation of its own.
-/

namespace CipherChat

open FileRoutes

/-- The event by which `d`'s call sends a text that it owes. -/
def Discharges (d : ClientId) : Notice → Event → Prop
  | .own src, e => ∃ message result, FailureMessage message ∧
      e = .did d (.queueFrame d .text (transferText src message)) result
  | .sender c, e => ∃ result, e = .did d (.queueFrame c .text departedText) result

theorem Notices.next_owed {m : Notices} {d : ClientId} {o : Op} (ha : m.allow d o) (r : o.Resp) :
    (∃ notice rest, m.owed = notice :: rest ∧ (m.next o r).owed = rest ∧
      Discharges d notice (.did d o r)) ∨ ∃ new, (m.next o r).owed = m.owed ++ new := by
  have hkeep : ∀ {m' : Notices}, m' = m → ∃ new, m'.owed = m.owed ++ new := by
    rintro m' rfl
    exact ⟨[], (List.append_nil _).symm⟩
  cases o with
  | queueFrame c type payload =>
    cases type with
    | text =>
      -- each text pays the notice that stands first
      cases hkind : textKind payload with
      | transfer =>
        simp only [Notices.allow, hkind] at ha
        obtain ⟨src, rest, message, ho, rfl, rfl, hf⟩ := ha
        refine .inl ⟨.own src, rest, ho, ?_, message, r, hf, rfl⟩
        rw [Notices.next, if_neg (by rw [hkind]; decide), ho]
        rfl
      | departed =>
        simp only [Notices.allow, hkind] at ha
        obtain ⟨rest, ho⟩ := ha
        refine .inl ⟨.sender c, rest, ho, ?_, r, ?_⟩
        · rw [Notices.next, if_neg (by rw [hkind]; decide), ho]
          rfl
        · have htext : payload = departedText := by
            unfold textKind at hkind
            split_ifs at hkind
            assumption
          rw [htext]
      | other => exact .inr (hkeep (by rw [Notices.next, if_pos hkind]))
    | fileEnd =>
      cases r with
      | ok _ => exact .inr ⟨[], (List.append_nil _).symm⟩
      | error e => exact .inr ⟨_, rfl⟩
    | _ => exact .inr (hkeep rfl)
  | routesAdd s src tgt size discard =>
    rw [Notices.next]
    split
    · exact .inr ⟨_, rfl⟩
    · exact .inr (hkeep rfl)
  | routesQuarantine s src keep => exact .inr ⟨_, rfl⟩
  | routesAcceptChunk s src len =>
    rw [Notices.next]
    split
    · exact .inr ⟨_, rfl⟩
    · exact .inr (hkeep rfl)
  | routesMarkForwardFailed s src out =>
    rw [Notices.next]
    split
    · exact .inr ⟨_, rfl⟩
    · exact .inr (hkeep rfl)
  | routesFinish s src validate =>
    rw [Notices.next]
    split
    · exact .inr ⟨_, rfl⟩
    · split
      · exact .inr ⟨_, rfl⟩
      · exact .inr (hkeep rfl)
    · split
      · exact .inr ⟨[], (List.append_nil _).symm⟩
      · exact .inr (hkeep rfl)
    · exact .inr (hkeep rfl)
  | routesAbortClient s capacity => exact .inr ⟨_, rfl⟩
  | _ => exact .inr (hkeep rfl)

theorem Notices.next_ending {m : Notices} {d : ClientId} {o : Op} (ha : m.allow d o) (r : o.Resp)
    (hend : m.ending ≠ none) :
    (m.next o r).ending = m.ending ∨ ∃ c payload, o = .queueFrame c .fileEnd payload := by
  cases o with
  | queueFrame c type payload =>
    cases type with
    | text =>
      left
      rw [Notices.next]
      split <;> rfl
    | fileEnd => exact .inr ⟨c, payload, rfl⟩
    | _ => exact .inl rfl
  | routesFinish s src validate => exact absurd ha hend
  | routesAdd s src tgt size discard =>
    left
    rw [Notices.next]
    split <;> rfl
  | routesAcceptChunk s src len =>
    left
    rw [Notices.next]
    split <;> rfl
  | routesMarkForwardFailed s src out =>
    left
    rw [Notices.next]
    split <;> rfl
  | _ => exact .inl rfl

theorem sublistForall₂_of_sublist {α β : Type} {R : α → β → Prop} {l l' : List α} {m : List β}
    (hl : l.Sublist l') (h : List.SublistForall₂ R l' m) : List.SublistForall₂ R l m := by
  induction h generalizing l with
  | nil =>
    rw [List.sublist_nil.mp hl]
    exact .nil
  | @cons a b l' m hR _ ih =>
    cases hl with
    | cons _ hl => exact .cons_right (ih hl)
    | cons_cons _ hl => exact .cons hR (ih hl)
  | cons_right _ ih => exact .cons_right (ih hl)

theorem exists_of_sublistForall₂ {α β : Type} {R : α → β → Prop} {l : List α} {m : List β}
    (h : List.SublistForall₂ R l m) {a : α} (ha : a ∈ l) : ∃ b ∈ m, R a b := by
  induction h with
  | nil => cases ha
  | @cons a' b l m hR _ ih =>
    rcases List.mem_cons.mp ha with rfl | ha
    · exact ⟨b, List.mem_cons_self, hR⟩
    · obtain ⟨b', hb', hR'⟩ := ih ha
      exact ⟨b', List.mem_cons_of_mem b hb', hR'⟩
  | @cons_right b l m _ ih =>
    obtain ⟨b', hb', hR'⟩ := ih ha
    exact ⟨b', List.mem_cons_of_mem b hb', hR'⟩

theorem notices_did_self {log : List Event} {d : ClientId} {o : Op} {r : o.Resp} :
    notices.state (log ++ [.did d o r]) d = (notices.state log d).next o r := Watch.state_did_self

theorem Server.notices_returned {s : Server} (hs : server.Reachable s) {d : ClientId}
    {before after : List Event} (h : s.log = before ++ .returned d :: after) :
    (notices.state before d).owed = [] ∧ (notices.state before d).ending = none := by
  obtain ⟨s₀, l, s₁, hr, -, hstep, rfl, hlog, -⟩ := Server.event_reach hs h
  exact notices_kept.rested hr hstep hlog

theorem Server.notices_event {s : Server} (hs : server.Reachable s) {before after : List Event}
    {e : Event} (h : s.log = before ++ e :: after) (d : ClientId) :
    notices.state (before ++ [e]) d = notices.state before d ∨
    (∃ o r, e = .did d o r ∧ (notices.state before d).allow d o) ∨
    (notices.state before d).owed = [] ∧ (notices.state before d).ending = none := by
  rcases notices_kept.event_cases hs h d with hsame | ⟨name, o, r, he, ha⟩ | hnone | hnone
  · exact .inl hsame
  · exact .inr (.inl ⟨o, r, he, ha⟩)
  · rw [hnone]
    exact .inr (.inr ⟨rfl, rfl⟩)
  · exact .inr (.inr hnone)

theorem Server.notices_discharged {s : Server} (hs : server.Reachable s) {d : ClientId}
    {before mid after : List Event} (h : s.log = before ++ mid ++ .returned d :: after) :
    List.SublistForall₂ (Discharges d) (notices.state before d).owed mid := by
  induction mid generalizing before with
  | nil =>
    rw [List.append_nil] at h
    rw [(Server.notices_returned hs h).1]
    exact .nil
  | cons e mid ih =>
    rw [List.append_assoc, List.cons_append] at h
    have hlater : s.log = before ++ [e] ++ mid ++ .returned d :: after := by simpa using h
    have htexts := ih hlater
    rcases Server.notices_event hs h d with hsame | ⟨o, r, rfl, ha⟩ | hnone
    · rw [hsame] at htexts
      exact .cons_right htexts
    · rw [notices_did_self] at htexts
      rcases Notices.next_owed ha r with ⟨notice, rest, ho, hrest, hd⟩ | ⟨new, hnew⟩
      · rw [hrest] at htexts
        rw [ho]
        exact .cons hd htexts
      · rw [hnew] at htexts
        exact .cons_right (sublistForall₂_of_sublist (List.sublist_append_left _ _) htexts)
    · rw [hnone.1]
      exact .nil

theorem Server.ending_settled {s : Server} (hs : server.Reachable s) {d : ClientId}
    {src : UInt32} {endpoint : FileRouteEndpoint} {before mid after : List Event}
    (h : s.log = before ++ mid ++ .returned d :: after)
    (hend : (notices.state before d).ending = some (src, endpoint)) :
    .did d (.queueFrame endpoint.targetId .fileEnd (writeU32 endpoint.outboundTransferId))
      (.ok ()) ∈
      mid ∨ ∃ e ∈ mid, Discharges d (.own src) e := by
  induction mid generalizing before with
  | nil =>
    rw [List.append_nil] at h
    rw [(Server.notices_returned hs h).2] at hend
    cases hend
  | cons e mid ih =>
    rw [List.append_assoc, List.cons_append] at h
    have hlater : s.log = before ++ [e] ++ mid ++ .returned d :: after := by simpa using h
    have hstill : (notices.state (before ++ [e]) d).ending = some (src, endpoint) →
        .did d (.queueFrame endpoint.targetId .fileEnd
          (writeU32 endpoint.outboundTransferId)) (.ok ()) ∈ e :: mid ∨
        ∃ e' ∈ e :: mid, Discharges d (.own src) e' := by
      intro hend'
      refine (ih hlater hend').imp (List.mem_cons_of_mem e) ?_
      rintro ⟨e', he', hd⟩
      exact ⟨e', List.mem_cons_of_mem e he', hd⟩
    rcases Server.notices_event hs h d with hsame | ⟨o, r, rfl, ha⟩ | hnone
    · exact hstill (by rw [hsame, hend])
    · rw [notices_did_self] at hstill
      rcases Notices.next_ending ha r (by rw [hend]; simp) with hsame | ⟨c, payload, rfl⟩
      · exact hstill (by rw [hsame, hend])
      · obtain ⟨src', endpoint', hend', rfl, rfl⟩ := ha
        rw [hend] at hend'
        cases hend'
        cases r with
        | ok _ => exact .inl (List.mem_cons_self)
        | error err =>
          have htexts := Server.notices_discharged hs hlater
          rw [notices_did_self, Notices.next, hend] at htexts
          obtain ⟨e', he', hd⟩ := exists_of_sublistForall₂ htexts (a := .own src) (by simp)
          exact .inr ⟨e', List.mem_cons_of_mem _ he', hd⟩
    · rw [hnone.2] at hend
      cases hend

namespace FileRoutes

variable {t : FileRoutes} {d : ClientId}

/-- Whether the sweep for `d` makes a tombstone of the route. -/
def Departs (d : ClientId) (r : FileRoute) : Prop :=
  r.Live ∧ r.targetId = d ∧ r.senderId ≠ invalidClientId ∧ r.senderId ≠ d

instance (d : ClientId) (r : FileRoute) : Decidable (Departs d r) :=
  inferInstanceAs (Decidable (_ ∧ _))

/-- The routes that the sweep for `d` makes tombstones of, in slot order. -/
def departing (t : FileRoutes) (d : ClientId) : List FileRoute :=
  (List.finRange fileRouteCapacity).filterMap fun i =>
    if Departs d (t.routes i) then some (t.routes i) else none

theorem mem_departing (h : Inv t) {r : FileRoute} : r ∈ t.departing d ↔
    t.live (r.senderId, r.sourceTransferId) = some r ∧ r.targetId = d ∧
      r.senderId ≠ invalidClientId ∧ r.senderId ≠ d := by
  rw [departing, List.mem_filterMap, live_iff h]
  constructor
  · rintro ⟨i, -, hi⟩
    split at hi
    · next hd =>
      obtain rfl := Option.some.inj hi
      exact ⟨⟨hd.1, i, rfl⟩, hd.2⟩
    · cases hi
  · rintro ⟨⟨hl, i, rfl⟩, hd⟩
    exact ⟨i, List.mem_finRange i, if_pos ⟨hl, hd⟩⟩

theorem abortAction_notice (d : ClientId) (r : FileRoute) :
    (abortAction d r).bind FileRouteAbortAction.notice? =
      if Departs d r then some (.sender r.senderId) else none := by
  rw [abortAction]
  by_cases hl : r.active = false ∨ r.discard = true
  · have hnl : ¬Departs d r := by
      rintro ⟨⟨ha, hd⟩, -⟩
      rcases hl with hl | hl
      · rw [ha] at hl
        cases hl
      · rw [hd] at hl
        cases hl
    rw [if_pos hl, if_neg hnl]
    rfl
  · have hlive : r.Live := by
      obtain ⟨ha, hd⟩ := not_or.mp hl
      exact ⟨by simpa using ha, by simpa using hd⟩
    rw [if_neg hl]
    by_cases hs : r.senderId = d ∧ r.targetId ≠ invalidClientId ∧ r.targetId ≠ d
    · rw [if_pos hs, if_neg fun hd : Departs d r => hd.2.2.2 hs.1]
      rfl
    · rw [if_neg hs]
      by_cases ht : r.targetId = d ∧ r.senderId ≠ invalidClientId ∧ r.senderId ≠ d
      · rw [if_pos ht, if_pos (show Departs d r from ⟨hlive, ht⟩), Option.bind_some,
          FileRouteAbortAction.notice?]
        exact if_neg ht.2.1
      · rw [if_neg ht, if_neg fun hd : Departs d r => ht hd.2]
        rfl

theorem abortClient_notices (hd : d ≠ invalidClientId) :
    (t.abortClient d fileRouteCapacity).2.filterMap FileRouteAbortAction.notice? =
      (t.departing d).map fun r => .sender r.senderId := by
  rw [abortClient_actions hd, List.take_of_length_le, List.filterMap_filterMap, departing,
    List.map_filterMap]
  · refine List.filterMap_congr fun i _ => ?_
    rw [abortAction_notice]
    split <;> rfl
  · exact (List.length_filterMap_le _ _).trans (List.length_finRange).le

end FileRoutes

theorem Server.inCall_id_ne {ok : Server → Label → Prop} {s : Server} (hs : server.Reach ok s)
    {n : ℕ} {u : Session} (h : (s.threads n).inCall = some u) : u.id ≠ invalidClientId := by
  have hu := Thread.session_of_inCall h
  cases hslot : (s.threads n).slot with
  | none => exact (Server.gone_logged hs n u hu hslot).2
  | some i =>
    refine (Server.wf_of_reach hs).session_id_ne (n := n) ?_ hu
    generalize s.threads n = t at h hslot ⊢
    cases t with
    | handling v w p =>
      cases h
      rfl
    | aborting v p => cases hslot
    | _ => cases h

theorem Server.routes_step {ok : Server → Label → Prop} {s s' : Server} {l : Label}
    (hs : server.Reach ok s) (hstep : server.step s l = some s')
    (h : s'.shared.routes ≠ s.shared.routes) :
    ∃ u o name, (s.threads l.1).inCall = some u ∧ (monitor s.log u.id).allow u.id name o ∧
      (notices.state s.log u.id).allow u.id o ∧
      s'.log = s.log ++ [.did u.id o (perform l.2.libc s.shared o).1] ∧
      s'.shared = (perform l.2.libc s.shared o).2 := by
  obtain ⟨n, env⟩ := l
  obtain ⟨x', t', evs, hturn, rfl⟩ := Server.step_turn hstep
  have hop : ∀ (u : Session) (o : Op), (s.threads n).inCall = some u →
      x' = (perform env.libc s.shared o).2 → evs = [.did u.id o (perform env.libc s.shared o).1] →
      ∃ u o name, (s.threads n).inCall = some u ∧ (monitor s.log u.id).allow u.id name o ∧
        (notices.state s.log u.id).allow u.id o ∧
        s.log ++ evs = s.log ++ [.did u.id o (perform env.libc s.shared o).1] ∧
        x' = (perform env.libc s.shared o).2 := by
    rintro u o hu rfl rfl
    obtain ⟨⟨name, ha⟩, -⟩ := duties_kept.allowed hs hstep rfl
    obtain ⟨⟨_, hn⟩, -⟩ := notices_kept.allowed hs hstep rfl
    rw [duties_state] at ha
    exact ⟨u, o, name, hu, ha, hn, rfl, rfl⟩
  generalize ht : s.threads n = t at hturn hop
  cases hturn with
  | op u w o k => exact hop u o rfl rfl rfl
  | abortOp u o k => exact hop u o rfl rfl rfl
  | _ => exact absurd rfl h

theorem Server.sender_ne {ok : Server → Label → Prop} {s : Server} (hs : server.Reach ok s) :
    ∀ c src r, s.shared.routes.live (c, src) = some r → c ≠ invalidClientId := by
  refine hs.invariant (P := fun s => ∀ c src r, s.shared.routes.live (c, src) = some r →
    c ≠ invalidClientId) (fun c src r hr => ?_) ?_
  · have hnone : server.init.shared.routes.live (c, src) = none := live_init _
    rw [hnone] at hr
    cases hr
  · intro s l s' hr _ hold hstep c src r hlive
    by_cases hroutes : s'.shared.routes = s.shared.routes
    · rw [hroutes] at hlive
      exact hold c src r hlive
    · obtain ⟨u, o, name, hu, ha, -, -, hx⟩ := Server.routes_step hr hstep hroutes
      have hid := Server.inCall_id_ne hr hu
      have hinv := (Server.wf_of_reach hr).routes
      rw [hx] at hlive hroutes
      by_cases hc : c = u.id
      · rw [hc]
        exact hid
      · rcases did_cases hinv l.2.libc ha with ⟨q, type, payload, rfl⟩ | ⟨rfl, -, -⟩ |
          ⟨-, ⟨hsame, -⟩ | hroute⟩
        · exact absurd rfl hroutes
        · simp only [perform, Shared.onRoutes] at hlive
          exact hold c src r ((abortClient_live hinv hid _).mp hlive).1
        · exact absurd hsame hroutes
        · rw [hroute.live_other hc] at hlive
          exact hold c src r hlive

/-- The event by which `d`'s call tells `c` that its transfer `src` failed. -/
def Event.Reports (d c : ClientId) (src : UInt32) (e : Event) : Prop :=
  ∃ text result, e = .did d (.queueFrame c .text text) result ∧
    (text = departedText ∨ ∃ message, FailureMessage message ∧ text = transferText src message)

/-- The step ends the live route `src` of client `c`. -/
def Stops (s s' : Server) (c : ClientId) (src : UInt32) : Prop :=
  (∃ r, s.shared.routes.live (c, src) = some r) ∧ s'.shared.routes.live (c, src) = none

/-- The sender's own call ended its route because the END was queued, because of its
FILE_ERROR, or because it leaves. -/
def Excused (log : List Event) (d c : ClientId) (src : UInt32) (r : FileRoute)
    (mid : List Event) : Prop :=
  d = c ∧
    (.did c (.queueFrame r.targetId .fileEnd (writeU32 r.outboundTransferId)) (.ok ()) ∈ mid ∨
    (∃ frame, (monitor log c).call = .frame frame ∧ decodeControl frame .fileError = .ok src) ∨
    (monitor log c).call = .abort)

/-- Each route of `c` that the step ended without an excuse has a report of its own in `mid`. -/
def Reported (s s' : Server) (d c : ClientId) (mid : List Event) : Prop :=
  ∃ srcs, List.SublistForall₂ (Event.Reports d c) srcs mid ∧
    ∀ src r, s.shared.routes.live (c, src) = some r → s'.shared.routes.live (c, src) = none →
      ¬Excused s.log d c src r mid → src ∈ srcs

section Reported

variable {s s' : Server} {c d : ClientId} {src src' : UInt32} {mid : List Event}

theorem Stops.key {k : Key} {v : Option FileRoute} (h : Stops s s' c src)
    (hl : s'.shared.routes.lookup = Function.update s.shared.routes.lookup k v) : (c, src) = k := by
  obtain ⟨⟨r, hr⟩, hnone⟩ := h
  by_contra hne
  rw [live_update hl, Function.update_of_ne hne, hr] at hnone
  cases hnone

theorem Stops.of_same (h : Stops s s' c src)
    (hl : s'.shared.routes.lookup = s.shared.routes.lookup) : False := by
  obtain ⟨⟨r, hr⟩, hnone⟩ := h
  rw [live_congr hl, hr] at hnone
  cases hnone

theorem sublistForall₂_singleton {α β : Type} {R : α → β → Prop} {a : α} {b : β} {m : List β}
    (hb : b ∈ m) (hR : R a b) : List.SublistForall₂ R [a] m := by
  induction m with
  | nil => cases hb
  | cons b' m ih =>
    rcases List.mem_cons.mp hb with rfl | hb
    · exact .cons hR .nil
    · exact .cons_right (ih hb)

theorem Discharges.reports {e : Event} (h : Discharges d (.own src) e) : e.Reports d d src := by
  obtain ⟨message, result, hf, rfl⟩ := h
  exact ⟨_, result, rfl, .inr ⟨message, hf, rfl⟩⟩

theorem reported_own (honly : ∀ src, Stops s s' c src → c = d ∧ src = src')
    (hd : ∃ e ∈ mid, Discharges d (.own src') e) : Reported s s' d c mid := by
  obtain ⟨e, he, hd⟩ := hd
  by_cases hc : c = d
  · subst hc
    refine ⟨[src'], sublistForall₂_singleton he hd.reports, fun src r hr hnone _ => ?_⟩
    rw [(honly src ⟨⟨r, hr⟩, hnone⟩).2]
    exact List.mem_singleton.mpr rfl
  · exact ⟨[], .nil, fun src r hr hnone _ => absurd (honly src ⟨⟨r, hr⟩, hnone⟩).1 hc⟩

theorem reported_excused (hexc : ∀ src r, s.shared.routes.live (c, src) = some r →
    Stops s s' c src → Excused s.log d c src r mid) : Reported s s' d c mid :=
  ⟨[], .nil, fun src r hr hnone hno => absurd (hexc src r hr ⟨⟨r, hr⟩, hnone⟩) hno⟩

theorem reported_sweep {l : List FileRoute} (h : List.SublistForall₂ (Discharges d)
      (l.map fun r => .sender r.senderId) mid)
    (hl : ∀ src r, s.shared.routes.live (c, src) = some r → Stops s s' c src →
      r ∈ l ∧ r.senderId = c ∧ r.sourceTransferId = src) : Reported s s' d c mid := by
  have hpick : ∃ srcs, List.SublistForall₂ (Event.Reports d c) srcs mid ∧
      ∀ r ∈ l, r.senderId = c → r.sourceTransferId ∈ srcs := by
    clear hl
    generalize hnotices : l.map (fun r => Notice.sender r.senderId) = notices at h
    induction h generalizing l with
    | nil =>
      obtain rfl := List.map_eq_nil_iff.mp hnotices
      exact ⟨[], .nil, fun r hr => by cases hr⟩
    | @cons notice e rest mid hR _ ih =>
      cases l with
      | nil => cases hnotices
      | cons r₀ l =>
        obtain ⟨rfl, hrest⟩ := List.cons.inj hnotices
        obtain ⟨srcs, hsub, hmem⟩ := ih hrest
        by_cases hr₀ : r₀.senderId = c
        · refine ⟨r₀.sourceTransferId :: srcs, .cons ?_ hsub, fun r hr hrc => ?_⟩
          · obtain ⟨result, rfl⟩ := hR
            exact ⟨_, result, by rw [hr₀], .inl rfl⟩
          · rcases List.mem_cons.mp hr with rfl | hr
            · exact List.mem_cons_self
            · exact List.mem_cons_of_mem _ (hmem r hr hrc)
        · refine ⟨srcs, .cons_right hsub, fun r hr hrc => ?_⟩
          rcases List.mem_cons.mp hr with rfl | hr
          · exact absurd hrc hr₀
          · exact hmem r hr hrc
    | @cons_right e notices mid _ ih =>
      obtain ⟨srcs, hsub, hmem⟩ := ih hnotices
      exact ⟨srcs, .cons_right hsub, hmem⟩
  obtain ⟨srcs, hsub, hmem⟩ := hpick
  refine ⟨srcs, hsub, fun src r hr hnone _ => ?_⟩
  obtain ⟨hr', hc, hsrc⟩ := hl src r hr ⟨⟨r, hr⟩, hnone⟩
  rw [← hsrc]
  exact hmem r hr' hc

end Reported

/-- The operation that ends a route leaves its call with a text to send, an END to queue, or
an excuse. -/
theorem stops_cases {s s' : Server} {libc : Libc} {d c : ClientId} {name : Bytes} {o : Op}
    {src : UInt32} {r : FileRoute} (hinv : s.shared.routes.Inv)
    (ha : (monitor s.log d).allow d name o) (hx : s'.shared = (perform libc s.shared o).2)
    (hr : s.shared.routes.live (c, src) = some r) (h : Stops s s' c src) (m : Notices) :
    (c = d ∧ .own src ∈ (m.next o (perform libc s.shared o).1).owed ∧
      ∀ src', Stops s s' c src' → src' = src) ∨
    (c = d ∧ (m.next o (perform libc s.shared o).1).ending = some (src, copyEndpoint r) ∧
      ∀ src', Stops s s' c src' → src' = src) ∨
    (c = d ∧ ∃ frame, (monitor s.log c).call = .frame frame ∧
      decodeControl frame .fileError = .ok src ∧ ∀ src', Stops s s' c src' → src' = src) ∨
    (o = .routesAbortClient d fileRouteCapacity ∧ (monitor s.log d).call = .abort) := by
  -- an operation changes one key, so one route stops, if any
  have honly : ∀ {src₁ : UInt32} {v : Option FileRoute},
      s'.shared.routes.lookup = Function.update s.shared.routes.lookup (d, src₁) v →
      c = d ∧ src₁ = src ∧ ∀ src', Stops s s' c src' → src' = src := by
    intro src₁ v hl
    obtain ⟨rfl, rfl⟩ := Prod.mk.inj (h.key hl)
    exact ⟨rfl, rfl, fun src' h' => (Prod.mk.inj (h'.key hl)).2⟩
  have howed : ∀ {src₁ : UInt32} {v : Option FileRoute} {m' : Notices},
      s'.shared.routes.lookup = Function.update s.shared.routes.lookup (d, src₁) v →
      m' = m.owe [.own src₁] → c = d ∧ .own src ∈ m'.owed ∧
        ∀ src', Stops s s' c src' → src' = src := by
    rintro src₁ v m' hl rfl
    obtain ⟨hc, rfl, honly⟩ := honly hl
    exact ⟨hc, List.mem_append_right _ (List.mem_singleton.mpr rfl), honly⟩
  have hkept : s'.shared.routes = s.shared.routes → False := fun hsame => h.of_same (by rw [hsame])
  generalize hT : s'.shared.routes = T at honly howed hkept
  have hlive : T.live (c, src) = none := hT ▸ h.2
  cases o with
  | routesAdd s₁ src₁ tgt size discard =>
    obtain ⟨rfl, -⟩ := ha
    have hadd := add_added hinv s₁ src₁ tgt size discard
    simp only [perform, Shared.onRoutes] at hx ⊢
    rw [hx] at hT
    dsimp only at hT
    rw [hT] at hadd
    generalize (s.shared.routes.add s₁ src₁ tgt size discard).2 = answer at hadd ⊢
    -- a duplicate stops the old route, and its client is told
    cases hadd with
    | duplicate hk hl hn => exact .inl (howed hl (next_add (.inl rfl)))
    | full hk => exact (hkept rfl).elim
    | unavailable hk _ hl => exact (h.of_same (by rw [hx]; dsimp only; rw [hT, hl])).elim
    | discard hk hd hl hn => exact .inl (howed hl (next_add (.inr rfl)))
    | ready hk hd ho ho0 hl hn =>
      obtain ⟨rfl, rfl, -⟩ := honly hl
      rw [live_eq_some, hk] at hr
      cases hr.1
  | routesQuarantine s₁ src₁ keep =>
    obtain ⟨rfl, -⟩ := ha
    have hq := quarantine_quarantined hinv s₁ src₁ keep
    simp only [perform, Shared.onRoutes] at hx ⊢
    rw [hx] at hT
    dsimp only at hT
    rw [hT] at hq
    generalize (s.shared.routes.quarantine s₁ src₁ keep).2 = answer at hq ⊢
    cases hq with
    | found hk hl hn => exact .inl (howed hl rfl)
    | absent hk hl hn =>
      rcases hl with hl | hl
      · exact (h.of_same (by rw [hx]; dsimp only; rw [hT, hl])).elim
      · exact .inl (howed hl rfl)
  | routesAcceptChunk s₁ src₁ len =>
    obtain ⟨rfl, -⟩ := ha
    have hchunk := acceptChunk_chunked hinv s₁ src₁ len
    simp only [perform, Shared.onRoutes] at hx ⊢
    rw [hx] at hT
    dsimp only at hT
    rw [hT] at hchunk
    generalize (s.shared.routes.acceptChunk s₁ src₁ len).2 = answer at hchunk ⊢
    cases hchunk with
    | missing hk hl hn =>
      rcases hl with hl | hl
      · exact (h.of_same (by rw [hx]; dsimp only; rw [hT, hl])).elim
      · exact .inl (howed hl (next_chunk (.inl rfl)))
    | discard hk hd => exact (hkept rfl).elim
    | overrun hk hl hn => exact .inl (howed hl (next_chunk (.inr rfl)))
    | @ready _ r₀ r' hk hr' hlen hle hl hn =>
      -- an accepted chunk leaves the route live
      obtain ⟨rfl, rfl, -⟩ := honly hl
      have hd' : r'.discard = false := by rw [hr']; exact (live_eq_some.mp hk).2
      rw [live_update hl, Function.update_self, Option.filter_eq_none_iff] at hlive
      exact absurd (by rw [hd']; rfl) (hlive r' rfl)
  | routesMarkForwardFailed s₁ src₁ out =>
    obtain ⟨rfl, -⟩ := ha
    have hmark := markForwardFailed_marked hinv s₁ src₁ out
    simp only [perform, Shared.onRoutes] at hx ⊢
    rw [hx] at hT
    dsimp only at hT
    rw [hT] at hmark
    generalize (s.shared.routes.markForwardFailed s₁ src₁ out).2 = answer at hmark ⊢
    cases hmark with
    | converted hk ho hl hn => exact .inl (howed hl rfl)
    | kept hk => exact (hkept rfl).elim
  | routesFinish s₁ src₁ validate =>
    obtain ⟨rfl, -, frame, hcall, hframe⟩ := ha
    have hfin := finish_finished hinv s₁ src₁ validate
    simp only [perform, Shared.onRoutes] at hx ⊢
    rw [hx] at hT
    dsimp only at hT
    rw [hT] at hfin
    generalize (s.shared.routes.finish s₁ src₁ validate).2 = answer at hfin ⊢
    cases hfin with
    | missing hk => exact (hkept rfl).elim
    | discard hk htomb hl hn =>
      obtain ⟨rfl, rfl, -⟩ := honly hl
      rw [live_eq_some, hk] at hr
      rw [Option.some.inj hr.1, hr.2] at htomb
      cases htomb
    | @finished _ r₀ hk hl hn =>
      obtain ⟨rfl, rfl, honly⟩ := honly hl
      rw [hk] at hr
      cases hr
      -- END with the wrong size, END with the right one, ERROR
      rcases hframe with ⟨rfl, -⟩ | ⟨rfl, hframe⟩
      · by_cases hsize : r.forwardedSize ≠ r.expectedSize
        · refine .inl ⟨rfl, ?_, honly⟩
          simp [Notices.next, Notices.owe, hsize]
        · refine .inr (.inl ⟨rfl, ?_, honly⟩)
          simp [Notices.next, hsize]
      · exact .inr (.inr (.inl ⟨rfl, frame, hcall, hframe, honly⟩))
  | routesAbortClient s₁ capacity =>
    obtain ⟨rfl, -, hcall, rfl⟩ := ha
    exact .inr (.inr (.inr ⟨rfl, hcall⟩))
  | queueFrame q type payload =>
    simp only [perform, Shared.onClients] at hx
    exact (hkept (by rw [← hT, hx])).elim
  | registerClientPublicKey q key =>
    simp only [perform, Shared.onClients] at hx
    exact (hkept (by rw [← hT, hx])).elim
  | _ =>
    simp only [perform] at hx
    exact (hkept (by rw [← hT, hx])).elim

/-- A live route ends only in a call, and by the time that call has returned the sender has
been sent a text about the transfer, unless its END was queued, or the sender gave the
transfer up or left. -/
theorem failed_transfers_reported {s s' : Server} {l : Label} {c : ClientId} {src₀ : UInt32}
    (hs : server.Reachable s) (hstep : server.step s l = some s') (h : Stops s s' c src₀) :
    ∃ u, (s.threads l.1).inCall = some u ∧ ∀ t mid after, server.Steps s' t →
      t.log = s'.log ++ mid ++ .returned u.id :: after → Reported s s' u.id c mid := by
  have hroutes : s'.shared.routes ≠ s.shared.routes := fun hsame => h.of_same (by rw [hsame])
  obtain ⟨u, o, name, hu, ha, -, hlog, hx⟩ := Server.routes_step hs hstep hroutes
  refine ⟨u, hu, fun t mid after ht hmid => ?_⟩
  have hinv := (Server.wf_of_reach hs).routes
  have hid := Server.inCall_id_ne hs hu
  have hs' : server.Reachable s' := .step hs trivial hstep
  have hreach : server.Reachable t := hs'.steps ht
  have hstate : notices.state s'.log u.id =
      (notices.state s.log u.id).next o (perform l.2.libc s.shared o).1 := by
    rw [hlog, notices_did_self]
  have hdone := Server.notices_discharged hreach hmid
  obtain ⟨r₀, hr₀⟩ := h.1
  rcases stops_cases hinv ha hx hr₀ h (notices.state s.log u.id) with
    ⟨rfl, howed, honly⟩ | ⟨rfl, hend, honly⟩ | ⟨rfl, frame, hcall, hframe, honly⟩ | ⟨rfl, hcall⟩
  · rw [← hstate] at howed
    exact reported_own (fun src hsrc => ⟨rfl, honly src hsrc⟩)
      (exists_of_sublistForall₂ hdone howed)
  -- the END has been queued, or its failure is reported
  · rw [← hstate] at hend
    rcases Server.ending_settled hreach hmid hend with hqueued | hd
    · refine reported_excused fun src r hr hsrc => ⟨rfl, .inl ?_⟩
      obtain rfl := honly src hsrc
      rw [hr₀] at hr
      cases hr
      exact hqueued
    · exact reported_own (fun src hsrc => ⟨rfl, honly src hsrc⟩) hd
  · refine reported_excused fun src r hr hsrc => ⟨rfl, .inr (.inl ⟨frame, hcall, ?_⟩)⟩
    rw [honly src hsrc]
    exact hframe
  -- the client's own departure, or that of the recipient
  · by_cases hself : u.id = c
    · subst hself
      exact reported_excused fun src r hr hsrc => ⟨rfl, .inr (.inr hcall)⟩
    · have hnotices : (notices.state s'.log u.id).owed = (notices.state s.log u.id).owed ++
          (s.shared.routes.departing u.id).map fun r => .sender r.senderId := by
        rw [hstate, Notices.next, Notices.owe, ← abortClient_notices hid]
        simp only [perform, Shared.onRoutes]
      rw [hnotices] at hdone
      refine reported_sweep (sublistForall₂_of_sublist (List.sublist_append_right _ _) hdone) ?_
      intro src r hr hsrc
      obtain ⟨hact, hsender, hsource⟩ := lookup_hasKey hinv (live_eq_some.mp hr).1
      have htgt : r.targetId = u.id := by
        by_contra hne
        have hstill := (abortClient_live hinv hid fileRouteCapacity).mpr ⟨hr, Ne.symm hself, hne⟩
        have hnone := hsrc.2
        rw [hx] at hnone
        simp only [perform, Shared.onRoutes] at hnone
        rw [hstill] at hnone
        cases hnone
      refine ⟨(mem_departing hinv).mpr ⟨?_, htgt, ?_, ?_⟩, hsender, hsource⟩
      · rw [hsender, hsource]
        exact hr
      · rw [hsender]
        exact Server.sender_ne hs c src r hr
      · rw [hsender]
        exact Ne.symm hself

def Event.isReturn (c : ClientId) : Event → Bool
  | .returned c' => c' == c
  | _ => false

/-- `ann` begins a file of three bytes and ends it at once. -/
theorem failed_transfers_reported_incomplete : ∃ s l s' t mid, server.Reachable s ∧
    server.step s l = some s' ∧ Stops s s' 1 9 ∧ server.Steps s' t ∧
    t.log = s'.log ++ mid ++ [.returned 1] ∧ Reported s s' 1 1 mid := by
  have hrun : (server.run server.init (addressed (loginLabels 0 (ascii "ann") ++
      loginLabels 1 (ascii "bob") ++
      frameLabels 0 ([0] ++ writeU32 9 ++ writeU64 3 ++ writeU16 3 ++ writeU16 1 ++ ascii "bobf") ++
      stepLabels 0 [none, none, none, none] ++ frameLabels 0 ([2] ++ writeU32 9)))).any (fun s =>
        (s.shared.routes.live (1, 9)).isSome && (s.threads 0).inCall.any (·.id == 1) &&
        (server.step s (0, {})).any fun s' => (s'.shared.routes.live (1, 9)).isNone &&
          (server.run s' (stepLabels 0 [some 100, some 101, none])).any fun t =>
            ((t.log.drop s'.log.length).getLast?.any (Event.isReturn 1))) = true := by
    decide +kernel
  obtain ⟨s, hs, hcheck⟩ := (Option.any_eq_true _ _).mp hrun
  simp only [Bool.and_eq_true] at hcheck
  obtain ⟨⟨hlive, hthread⟩, hcheck⟩ := hcheck
  obtain ⟨s', hstep, hcheck⟩ := (Option.any_eq_true _ _).mp hcheck
  simp only [Bool.and_eq_true] at hcheck
  obtain ⟨hnone, hcheck⟩ := hcheck
  obtain ⟨t, ht, hcheck⟩ := (Option.any_eq_true _ _).mp hcheck
  obtain ⟨e, he, hret⟩ := (Option.any_eq_true _ _).mp hcheck
  obtain ⟨v, hv, hid⟩ := (Option.any_eq_true _ _).mp hthread
  have hreach : server.Reachable s := .run .init hs
  have hreach' : server.Reachable s' := .step hreach trivial hstep
  have hsteps : server.Steps s' t := .run .refl ht
  have hstops : Stops s s' 1 9 :=
    ⟨Option.isSome_iff_exists.mp hlive, Option.isNone_iff_eq_none.mp hnone⟩
  obtain ⟨evs, hlog⟩ := Server.steps_log hreach' hsteps
  rw [hlog, List.drop_left' rfl] at he
  obtain ⟨mid, rfl⟩ := List.getLast?_eq_some_iff.mp he
  obtain rfl : e = .returned 1 := by
    cases e with
    | returned c => rw [eq_of_beq hret]
    | _ => cases hret
  rw [← List.append_assoc] at hlog
  obtain ⟨u, hu, hreports⟩ := failed_transfers_reported hreach hstep hstops
  rw [hv] at hu
  cases hu
  have h1 : v.id = 1 := eq_of_beq hid
  rw [h1] at hreports
  exact ⟨s, (0, {}), s', t, mid, hreach, hstep, hstops, hsteps, hlog, hreports t mid [] hsteps hlog⟩

end CipherChat
