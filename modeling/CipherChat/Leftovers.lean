import CipherChat.Handling
import CipherChat.Keys

/-!
# Routes that a sender leaves behind

An END or an ERROR that names a transfer leaves no route under its key, well-formed or
not.  So a sender that sends one transfer after the other has one route at most, and
none between two transfers.
-/

namespace CipherChat

open FileRoutes Resumption

theorem keys_state_call (log : List Event) (c : ClientId) :
    (keys.state log c).call = (monitor log c).call := by
  induction log using List.reverseRecOn with
  | nil => rfl
  | append_singleton log e ih =>
    rw [Watch.state_concat, monitor_concat]
    cases e with
    | did d o r =>
      rw [Watch.event, Monitor.event]
      split
      · change ((keys.state log c).next o r).call = (monitor log c).call
        rw [← ih]
        cases o <;> rfl
      · exact ih
    | received d frame =>
      rw [Watch.event, Monitor.event]
      split
      · rfl
      · exact ih
    | abort d =>
      rw [Watch.event, Monitor.event]
      split
      · rfl
      · exact ih
    | returned d =>
      rw [Watch.event, Monitor.event]
      split
      · rfl
      · exact ih
    | _ => exact ih

theorem Keyed.concerns {m : Keyed} {id : ClientId} {o : Op} (ha : m.allow id o) {k : Key}
    (hk : o.key = some k) :
    k.1 = id ∧ ∃ frame, m.call = .frame frame ∧ Concerns k.2 frame := by
  have hfile : ∀ {frame : Bytes} {type : FrameType}, frame.head? = some type.toByte →
      type ∈ [FrameType.fileBegin, .fileChunk, .fileEnd, .fileError] → IsFileFrame frame :=
    fun hh ht => ⟨_, ht, hh⟩
  cases o with
  | routesAdd s src tgt size discard =>
    cases hk
    obtain ⟨rfl, -, frame, b, hc, hb, rfl⟩ := ha
    exact ⟨rfl, frame, hc, hfile (decodeBegin_some hb).1 (by decide), (decodeBegin_some hb).2.1⟩
  | routesQuarantine s src keep =>
    cases hk
    obtain ⟨rfl, frame, hc, hcon, -⟩ := ha
    exact ⟨rfl, frame, hc, hcon⟩
  | routesAcceptChunk s src len =>
    cases hk
    obtain ⟨rfl, -, frame, b, hc, hb, rfl⟩ := ha
    exact ⟨rfl, frame, hc, hfile (decodeChunk_some hb).1 (by decide), (decodeChunk_some hb).2.1⟩
  | routesMarkForwardFailed s src out =>
    cases hk
    obtain ⟨rfl, -, frame, b, hc, hb, rfl⟩ := ha
    exact ⟨rfl, frame, hc, hfile (decodeChunk_some hb).1 (by decide), (decodeChunk_some hb).2.1⟩
  | routesFinish s src validate =>
    cases hk
    obtain ⟨rfl, -, frame, hc, hok | hok⟩ := ha
    · exact ⟨rfl, frame, hc, hfile (decodeControl_ok hok).1 (by decide), (decodeControl_ok hok).2⟩
    · exact ⟨rfl, frame, hc, hfile (decodeControl_ok hok).1 (by decide), (decodeControl_ok hok).2⟩
  | _ => cases hk

/-- What an event does to the routes of client `c`: an operation of its own call, or
nothing but the sweep of a client that leaves. -/
theorem Server.routes_event {ok : Server → Label → Prop} {s s' : Server} {l : Label} {e : Event}
    (hr : server.Reach ok s) (hstep : server.step s l = some s') (hlog : s'.log = s.log ++ [e])
    (c : ClientId) :
    (∃ o r, e = .did c o r ∧ (keys.state s.log c).allow c o ∧
      r = (perform l.2.libc s.shared o).1) ∨
    e.client ≠ some c ∧ (∃ d capacity r, e = .did d (.routesAbortClient d capacity) r) ∨
    (∀ o r, e ≠ .did c o r) ∧
      ∀ src, (routesAt (s.log ++ [e])).lookup (c, src) = (routesAt s.log).lookup (c, src) := by
  have hinv := Server.routesAt_inv hr
  cases e with
  | did d o r =>
    obtain ⟨⟨name, ha⟩, hresp, -⟩ := keys_kept.allowed hr hstep hlog
    by_cases hd : d = c
    · subst hd
      exact .inl ⟨o, r, rfl, ha, hresp⟩
    · have hclient : (Event.did d o r).client ≠ some c := fun h => hd (Option.some.inj h)
      by_cases hsweep : ∃ d' capacity, o = .routesAbortClient d' capacity
      · obtain ⟨d', capacity, rfl⟩ := hsweep
        obtain ⟨rfl, -⟩ := ha
        exact .inr (.inl ⟨hclient, d', capacity, r, rfl⟩)
      · refine .inr (.inr ⟨fun o' r' h => hclient (congrArg Event.client h), fun src => ?_⟩)
        rw [routesAt_concat]
        refine after_lookup_of_ne hinv (fun hk => hd ?_) fun d' capacity h =>
          hsweep ⟨d', capacity, h⟩
        exact (Keyed.concerns ha hk).1.symm
  | _ => exact .inr (.inr ⟨(fun o r h => by cases h), fun src => by rw [routesAt_concat]; rfl⟩)

/-- The call of client `c` is for an END or an ERROR that names the transfer `src`, and has
done what it does to the route. -/
def Cleared (log : List Event) (c : ClientId) (src : UInt32) : Prop :=
  ∃ frame, (keys.state log c).call = .frame frame ∧ Closes frame ∧
    readTransferId frame = some src ∧ (keys.state log c).finding ≠ none

theorem closes_not_begin {frame : Bytes} (h : Closes frame) (b : FileBeginFrame) :
    decodeBegin frame ≠ some b := by
  intro hb
  exact not_closes_of_head (decodeBegin_some hb).1 ⟨by decide, by decide⟩ h

theorem closes_not_chunk {frame : Bytes} (h : Closes frame) (b : FileChunkFrame) :
    decodeChunk frame ≠ some b := by
  intro hb
  exact not_closes_of_head (decodeChunk_some hb).1 ⟨by decide, by decide⟩ h

theorem cleared_own {log : List Event} {c : ClientId} {o : Op} {r : o.Resp} {src : UInt32}
    (hinv : (routesAt log).Inv) (ha : (keys.state log c).allow c o)
    (hold : Cleared log c src → (routesAt log).lookup (c, src) = none)
    (h : Cleared (log ++ [.did c o r]) c src) :
    (routesAt (log ++ [.did c o r])).lookup (c, src) = none := by
  obtain ⟨frame, hcall, hcloses, hid, hfinding⟩ := h
  rw [Watch.state_did_self] at hcall hfinding
  -- what leaves the table and the state of the client alone
  have hkeep : (keys.state log c).next o r = keys.state log c → o.key = none →
      (∀ d capacity, o ≠ .routesAbortClient d capacity) →
      (routesAt (log ++ [.did c o r])).lookup (c, src) = none := by
    intro hnext hkey hsweep
    change ((keys.state log c).next o r).call = _ at hcall
    change ((keys.state log c).next o r).finding ≠ _ at hfinding
    rw [hnext] at hcall hfinding
    rw [routesAt_concat, Event.routes, after_lookup_of_ne hinv (by rw [hkey]; simp) hsweep]
    exact hold ⟨frame, hcall, hcloses, hid, hfinding⟩
  cases o with
  | routesAdd s src' tgt size discard =>
    obtain ⟨-, -, frame', b, hc, hb, -⟩ := ha
    cases hc.symm.trans hcall
    exact absurd hb (closes_not_begin hcloses b)
  -- an END or ERROR that is refused quarantines without a tombstone
  | routesQuarantine s src' keep =>
    obtain ⟨rfl, frame', hc, hcon, -, hkeep'⟩ := ha
    cases hc.symm.trans hcall
    obtain rfl := hkeep'.mpr hcloses
    cases hcon.2.symm.trans hid
    rw [routesAt_concat, Event.routes, FileRoutes.after]
    exact quarantine_lookup hinv _ _
  | routesAcceptChunk s src' len =>
    obtain ⟨-, -, frame', b, hc, hb, -⟩ := ha
    cases hc.symm.trans hcall
    exact absurd hb (closes_not_chunk hcloses b)
  | routesMarkForwardFailed s src' out =>
    obtain ⟨-, -, frame', b, hc, hb, -⟩ := ha
    cases hc.symm.trans hcall
    exact absurd hb (closes_not_chunk hcloses b)
  -- one that is accepted finishes the route
  | routesFinish s src' validate =>
    obtain ⟨rfl, -, frame', hc, hok⟩ := ha
    cases hc.symm.trans hcall
    have hsrc : readTransferId frame = some src' := by
      rcases hok with hok | hok <;> exact (decodeControl_ok hok).2
    cases hsrc.symm.trans hid
    rw [routesAt_concat, Event.routes, FileRoutes.after]
    exact finish_lookup hinv _ _ _
  | routesAbortClient d capacity =>
    have hc : (keys.state log c).call = .abort := ha.2
    cases hc.symm.trans hcall
  | _ => exact hkeep rfl rfl fun d capacity h => by cases h

theorem Server.cleared {ok : Server → Label → Prop} {s : Server} (hs : server.Reach ok s) :
    ∀ c src, Cleared s.log c src → (routesAt s.log).lookup (c, src) = none := by
  refine Server.log_invariant (P := fun log => ∀ c src, Cleared log c src →
    (routesAt log).lookup (c, src) = none) (fun c src _ => lookup_init _) ?_ hs
  intro s s' l e hr _ hstep hlog hold c src h
  have hinv := Server.routesAt_inv hr
  rcases Server.routes_event hr hstep hlog c with ⟨o, r, rfl, ha, -⟩ | ⟨hclient, hsweep⟩ |
    ⟨hown, hsame⟩
  · exact cleared_own hinv ha (hold c src) h
  · obtain ⟨d, capacity, r, rfl⟩ := hsweep
    have hd : d ≠ c := fun heq => hclient (congrArg some heq)
    rw [Cleared, Watch.state_did_of_ne hd] at h
    rw [routesAt_concat]
    exact abortClient_lookup_none hinv d capacity (hold c src h)
  · rw [hsame]
    obtain ⟨frame, hcall, hcloses, hid, hfinding⟩ := h
    refine hold c src ⟨frame, ?_⟩
    -- a call that starts or ends here has found nothing yet
    rw [Watch.state_concat] at hcall hfinding
    cases e with
    | did d o r =>
      rw [Watch.event, if_neg fun heq => hown o r (by rw [heq])] at hcall hfinding
      exact ⟨hcall, hcloses, hid, hfinding⟩
    | received d frame' =>
      rw [Watch.event] at hcall hfinding
      split at hfinding
      · exact absurd rfl hfinding
      · next hd =>
        rw [if_neg hd] at hcall
        exact ⟨hcall, hcloses, hid, hfinding⟩
    | abort d =>
      rw [Watch.event] at hcall hfinding
      split at hfinding
      · exact absurd rfl hfinding
      · next hd =>
        rw [if_neg hd] at hcall
        exact ⟨hcall, hcloses, hid, hfinding⟩
    | returned d =>
      rw [Watch.event] at hcall hfinding
      split at hfinding
      · exact absurd rfl hfinding
      · next hd =>
        rw [if_neg hd] at hcall
        exact ⟨hcall, hcloses, hid, hfinding⟩
    | _ => exact ⟨hcall, hcloses, hid, hfinding⟩

/-- Where a sender stands that sends its files as `send_file` does: a BEGIN, CHUNKs, an END. -/
inductive SendPhase
  | between
  | sending (src : UInt32)
  /-- Some file frame came out of order. -/
  | broken
  deriving DecidableEq

instance (frame : Bytes) : Decidable (IsFileFrame frame) :=
  inferInstanceAs (Decidable (∃ type ∈ _, _))

def SendPhase.next (phase : SendPhase) (frame : Bytes) : SendPhase :=
  if ¬IsFileFrame frame then phase
  else
    match phase with
    | .between =>
      match decodeBegin frame with
      | some b => .sending b.transferId
      | none => .broken
    | .sending src =>
      if (decodeChunk frame).any (·.transferId == src) then .sending src
      else if decodeControl frame .fileEnd = .ok src then .between
      else .broken
    | .broken => .broken

def Event.sendPhase (c : ClientId) (phase : SendPhase) : Event → SendPhase
  | .received d frame => if d = c then phase.next frame else phase
  | _ => phase

/-- The phase of client `c`, by the frames it has sent. -/
def sendPhase (c : ClientId) (log : List Event) : SendPhase :=
  log.foldl (Event.sendPhase c) .between

theorem sendPhase_concat (c : ClientId) (log : List Event) (e : Event) :
    sendPhase c (log ++ [e]) = e.sendPhase c (sendPhase c log) := by
  rw [sendPhase, List.foldl_append]
  rfl

theorem SendPhase.next_cases {phase : SendPhase} {frame : Bytes} (h : phase.next frame ≠ .broken) :
    (¬IsFileFrame frame ∧ phase.next frame = phase) ∨
    (∃ b, phase = .between ∧ decodeBegin frame = some b ∧
      phase.next frame = .sending b.transferId) ∨
    (∃ chunk, phase = .sending chunk.transferId ∧ decodeChunk frame = some chunk ∧
      phase.next frame = phase) ∨
    ∃ src, phase = .sending src ∧ decodeControl frame .fileEnd = .ok src ∧
      phase.next frame = .between := by
  unfold SendPhase.next at h ⊢
  split at h
  · next hfile =>
    rw [if_pos hfile]
    exact .inl ⟨hfile, rfl⟩
  next hfile =>
  rw [if_neg hfile]
  cases phase with
  | between =>
    dsimp only at h ⊢
    split at h
    · next b hb =>
      rw [hb]
      exact .inr (.inl ⟨b, rfl, rfl, rfl⟩)
    · exact absurd rfl h
  | sending src =>
    dsimp only at h ⊢
    split at h
    · next hchunk =>
      rw [if_pos hchunk]
      cases hdecode : decodeChunk frame with
      | none =>
        rw [hdecode] at hchunk
        cases hchunk
      | some chunk =>
        rw [hdecode, Option.any_some, beq_iff_eq] at hchunk
        exact .inr (.inr (.inl ⟨chunk, by rw [hchunk], rfl, rfl⟩))
    · next hchunk =>
      rw [if_neg hchunk]
      split at h
      · next hend =>
        rw [if_pos hend]
        exact .inr (.inr (.inr ⟨src, rfl, hend, rfl⟩))
      · exact absurd rfl h
  | broken => exact absurd rfl h

/-- The routes of a sender in order, and the frame in its hand. -/
structure InOrder (c : ClientId) (log : List Event) : Prop where
  sending : ∀ src, sendPhase c log = .sending src → ∀ src', src' ≠ src →
    (routesAt log).lookup (c, src') = none
  between : sendPhase c log = .between → ∀ src', (routesAt log).lookup (c, src') = none ∨
    ∃ frame, (keys.state log c).call = .frame frame ∧ decodeControl frame .fileEnd = .ok src'
  concerns : ∀ src frame, sendPhase c log = .sending src →
    (keys.state log c).call = .frame frame → IsFileFrame frame → readTransferId frame = some src
  ends : ∀ frame, sendPhase c log = .between → (keys.state log c).call = .frame frame →
    IsFileFrame frame → ∃ src, decodeControl frame .fileEnd = .ok src

namespace InOrder

variable {c : ClientId} {log : List Event}

theorem of_same (h : InOrder c log) {e : Event}
    (hphase : sendPhase c (log ++ [e]) = sendPhase c log)
    (hcall : (keys.state (log ++ [e]) c).call = (keys.state log c).call)
    (hroutes : ∀ src, (routesAt log).lookup (c, src) = none →
      (routesAt (log ++ [e])).lookup (c, src) = none) : InOrder c (log ++ [e]) where
  sending src hp src' hne := hroutes src' (h.sending src (hphase ▸ hp) src' hne)
  between hp src' := by
    rw [hcall]
    exact (h.between (hphase ▸ hp) src').imp_left (hroutes src')
  concerns src frame hp hc hfile := h.concerns src frame (hphase ▸ hp) (hcall ▸ hc) hfile
  ends frame hp hc hfile := h.ends frame (hphase ▸ hp) (hcall ▸ hc) hfile

theorem lookup_of_idle (h : InOrder c log) (hidle : (keys.state log c).call = .none)
    (hp : sendPhase c log = .between) (src : UInt32) : (routesAt log).lookup (c, src) = none := by
  rcases h.between hp src with hnone | ⟨frame, hc, -⟩
  · exact hnone
  · cases hidle.symm.trans hc

theorem received (h : InOrder c log) {frame : Bytes} (hidle : (keys.state log c).call = .none) :
    sendPhase c (log ++ [.received c frame]) ≠ .broken →
      InOrder c (log ++ [.received c frame]) := by
  intro hok
  have hcall : (keys.state (log ++ [.received c frame]) c).call = .frame frame := by
    rw [Watch.state_concat, Watch.event, if_pos rfl]
    rfl
  have hroutes : routesAt (log ++ [.received c frame]) = routesAt log := by
    rw [routesAt_concat]
    rfl
  have hphase : sendPhase c (log ++ [.received c frame]) = (sendPhase c log).next frame := by
    rw [sendPhase_concat, Event.sendPhase, if_pos rfl]
  rw [hphase] at hok
  have hnone := h.lookup_of_idle hidle
  rcases SendPhase.next_cases hok with ⟨hfile, hnext⟩ | ⟨b, hp, hb, hnext⟩ |
      ⟨chunk, hp, hb, hnext⟩ |
    ⟨src, hp, hend, hnext⟩
  -- no frame of a file
  · refine ⟨fun src hs src' hne => ?_, fun hs src' => .inl ?_, fun src frame' _ hc hfile' => ?_,
      fun frame' _ hc hfile' => ?_⟩
    · rw [hroutes]
      rw [hphase, hnext] at hs
      exact h.sending src hs src' hne
    · rw [hroutes]
      rw [hphase, hnext] at hs
      exact hnone hs src'
    · cases hcall.symm.trans hc
      exact absurd hfile' hfile
    · cases hcall.symm.trans hc
      exact absurd hfile' hfile
  -- a BEGIN, between two transfers
  · refine ⟨fun src hs src' _ => ?_, fun hs => ?_, fun src frame' hs hc _ => ?_, fun frame' hs =>
      ?_⟩
    · rw [hroutes]
      exact hnone hp src'
    · rw [hphase, hnext] at hs
      cases hs
    · rw [hphase, hnext] at hs
      cases hs
      cases hcall.symm.trans hc
      exact (decodeBegin_some hb).2.1
    · rw [hphase, hnext] at hs
      cases hs
  -- a chunk of the transfer under way
  · refine ⟨fun src hs src' hne => ?_, fun hs => ?_, fun src frame' hs hc _ => ?_, fun frame' hs =>
      ?_⟩
    · rw [hroutes]
      rw [hphase, hnext] at hs
      exact h.sending src hs src' hne
    · rw [hphase, hnext, hp] at hs
      cases hs
    · rw [hphase, hnext, hp] at hs
      cases hs
      cases hcall.symm.trans hc
      exact (decodeChunk_some hb).2.1
    · rw [hphase, hnext, hp] at hs
      cases hs
  -- its END or ERROR
  · refine ⟨fun src hs => ?_, fun _ src' => ?_, fun src frame' hs => ?_, fun frame' _ hc _ => ?_⟩
    · rw [hphase, hnext] at hs
      cases hs
    · by_cases hsrc : src' = src
      · subst hsrc
        exact .inr ⟨frame, hcall, hend⟩
      · rw [hroutes]
        exact .inl (h.sending src hp src' hsrc)
    · rw [hphase, hnext] at hs
      cases hs
    · cases hcall.symm.trans hc
      exact ⟨src, hend⟩

theorem own (h : InOrder c log) (hinv : (routesAt log).Inv) {o : Op} {r : o.Resp}
    (ha : (keys.state log c).allow c o) : InOrder c (log ++ [.did c o r]) := by
  have hphase : sendPhase c (log ++ [.did c o r]) = sendPhase c log := sendPhase_concat ..
  have hcall : (keys.state (log ++ [.did c o r]) c).call = (keys.state log c).call := by
    rw [Watch.state_did_self]
    cases o <;> rfl
  have hafter : routesAt (log ++ [.did c o r]) = (routesAt log).after o := routesAt_concat ..
  by_cases hsweep : ∃ d capacity, o = .routesAbortClient d capacity
  · obtain ⟨d, capacity, rfl⟩ := hsweep
    refine h.of_same hphase hcall fun src hnone => ?_
    rw [hafter]
    exact abortClient_lookup_none hinv d capacity hnone
  have hother : ∀ src, o.key ≠ some (c, src) →
      (routesAt (log ++ [.did c o r])).lookup (c, src) = (routesAt log).lookup (c, src) := by
    intro src hk
    rw [hafter]
    exact after_lookup_of_ne hinv hk fun d capacity heq => hsweep ⟨d, capacity, heq⟩
  cases hkey : o.key with
  -- no key: no lookup changes
  | none =>
    refine h.of_same hphase hcall fun src hnone => ?_
    rw [hother src (by rw [hkey]; simp)]
    exact hnone
  | some k =>
    obtain ⟨hid, frame, hc, hfile, hsrc⟩ := Keyed.concerns ha hkey
    have hne : ∀ src, src ≠ k.2 → o.key ≠ some (c, src) := by
      intro src hsrc' heq
      rw [hkey] at heq
      exact hsrc' (congrArg Prod.snd (Option.some.inj heq)).symm
    refine ⟨fun src hp src' hsrc' => ?_, fun hp src' => ?_, fun src frame' hp hc' hfile' => ?_,
      fun frame' hp hc' hfile' => ?_⟩
    · rw [hphase] at hp
      cases hsrc.symm.trans (h.concerns src frame hp hc hfile)
      rw [hother src' (hne src' hsrc')]
      exact h.sending _ hp src' hsrc'
    · rw [hphase] at hp
      rw [hcall]
      obtain ⟨src, hend⟩ := h.ends frame hp hc hfile
      cases hsrc.symm.trans (decodeControl_ok hend).2
      by_cases hsrc' : src' = k.2
      · subst hsrc'
        exact .inr ⟨frame, hc, hend⟩
      · rw [hother src' (hne src' hsrc')]
        exact h.between hp src'
    · rw [hphase] at hp
      rw [hcall] at hc'
      exact h.concerns src frame' hp hc' hfile'
    · rw [hphase] at hp
      rw [hcall] at hc'
      exact h.ends frame' hp hc' hfile'

theorem of_no_frame (h : InOrder c log) {e : Event}
    (hphase : sendPhase c (log ++ [e]) = sendPhase c log)
    (hroutes : routesAt (log ++ [e]) = routesAt log)
    (hcall : ∀ frame, (keys.state (log ++ [e]) c).call ≠ .frame frame)
    (hnone : sendPhase c log = .between → ∀ src, (routesAt log).lookup (c, src) = none) :
    InOrder c (log ++ [e]) where
  sending src hp src' hne := by
    rw [hroutes]
    exact h.sending src (hphase ▸ hp) src' hne
  between hp src' := by
    rw [hroutes]
    exact .inl (hnone (hphase ▸ hp) src')
  concerns src frame _ hc _ := absurd hc (hcall frame)
  ends frame _ hc _ := absurd hc (hcall frame)

end InOrder

theorem closes_of_end {frame : Bytes} {src : UInt32} (h : decodeControl frame .fileEnd = .ok src) :
    Closes frame := by
  refine ⟨.inl (decodeControl_ok h).1, ?_, ?_⟩
  · rw [decodeControl_image h, List.length_cons, writeU32_length]
  · exact Continues.length_le (.inr ⟨src, .inl h⟩)

theorem Server.inOrder {ok : Server → Label → Prop} {s : Server} (hs : server.Reach ok s)
    (c : ClientId) : sendPhase c s.log ≠ .broken → InOrder c s.log := by
  refine Server.log_invariant (P := fun log => sendPhase c log ≠ .broken → InOrder c log)
    (fun _ => ?_) ?_ hs
  · refine ⟨fun src hp => ?_, fun _ src => .inl (lookup_init _), fun src frame hp => ?_,
      fun frame _ hc => ?_⟩
    · cases hp
    · cases hp
    · cases hc
  intro s s' l e hr _ hstep hlog hold hok
  have hinv := Server.routesAt_inv hr
  -- what is broken once stays so
  have hbefore : InOrder c s.log := by
    refine hold fun hbroken => hok ?_
    rw [sendPhase_concat, hbroken]
    cases e with
    | received d frame =>
      rw [Event.sendPhase]
      split
      · unfold SendPhase.next
        split <;> rfl
      · rfl
    | _ => rfl
  have hother : e.client ≠ some c → sendPhase c (s.log ++ [e]) = sendPhase c s.log ∧
      keys.state (s.log ++ [e]) c = keys.state s.log c := by
    intro hclient
    rw [sendPhase_concat, Watch.state_concat]
    cases e with
    | login n d name => exact ⟨rfl, rfl⟩
    | wrote d bytes => exact ⟨rfl, rfl⟩
    | received d frame => exact ⟨if_neg fun h => hclient (congrArg some h),
        if_neg fun h => hclient (congrArg some h)⟩
    | _ => exact ⟨rfl, if_neg fun h => hclient (congrArg some h)⟩
  rcases Server.routes_event hr hstep hlog c with ⟨o, r, rfl, ha, -⟩ | ⟨hclient, hsweep⟩ |
    ⟨hown, hsame⟩
  · exact hbefore.own hinv ha
  · obtain ⟨hphase, hstate⟩ := hother hclient
    refine hbefore.of_same hphase (by rw [hstate]) fun src hnone => ?_
    obtain ⟨d, capacity, r, rfl⟩ := hsweep
    rw [routesAt_concat]
    exact abortClient_lookup_none hinv d capacity hnone
  by_cases hclient : e.client = some c
  · cases e with
    | received d frame =>
      cases hclient
      have hidle := keys_kept.started hr hstep (.inl ⟨frame, hlog⟩)
      exact hbefore.received (by rw [hidle]; rfl) hok
    | abort d =>
      cases hclient
      have hidle := keys_kept.started hr hstep (.inr hlog)
      refine hbefore.of_no_frame (sendPhase_concat ..) (routesAt_concat ..) (fun frame hc => ?_)
        (hbefore.lookup_of_idle (by rw [hidle]; rfl))
      rw [Watch.state_concat, Watch.event, if_pos rfl] at hc
      cases hc
    | did d o r =>
      cases hclient
      exact absurd rfl (hown o r)
    | returned d =>
      cases hclient
      have hrest := keys_kept.rested hr hstep hlog
      refine hbefore.of_no_frame (sendPhase_concat ..) (routesAt_concat ..) (fun frame hc => ?_)
        fun hp src => ?_
      · rw [Watch.state_concat, Watch.event, if_pos rfl] at hc
        cases hc
      -- the call of the END has dealt with its route before it returns
      · rcases hbefore.between hp src with hnone | ⟨frame, hc, hend⟩
        · exact hnone
        · have hcloses := closes_of_end hend
          exact Server.cleared hr c src
            ⟨frame, hc, hcloses, (decodeControl_ok hend).2, hrest frame hc hcloses⟩
    | login n d name => cases hclient
    | wrote d bytes => cases hclient
  · obtain ⟨hphase, hstate⟩ := hother hclient
    refine hbefore.of_same hphase (by rw [hstate]) fun src hnone => ?_
    rw [hsame]
    exact hnone

/-- A slot of the table in use for a route of client `c`. -/
def FileRoute.Of (c : ClientId) (r : FileRoute) : Prop := r.active = true ∧ r.senderId = c

/-- In every run: when the handler of an END or an ERROR that names a transfer returns, no
route is left under its key; and a client that sends its files one after the other has one
route at most, and none while it has no file frame in hand and no transfer under way. -/
theorem sequential_senders_leave_no_route {s : Server} (hs : server.Reachable s) :
    (∀ n u w keep frame src, s.threads n = .handling u w (.ret keep) → w.pc = .handle frame →
      frame.head? = some FrameType.fileEnd.toByte ∨
        frame.head? = some FrameType.fileError.toByte →
      5 ≤ frame.length → readTransferId frame = some src →
      ∀ i, ¬((s.shared.routes.routes i).active = true ∧
        (s.shared.routes.routes i).HasKey u.id src)) ∧
    ∀ c, sendPhase c s.log ≠ .broken →
      (∀ i j, (s.shared.routes.routes i).Of c → (s.shared.routes.routes j).Of c → i = j) ∧
      (sendPhase c s.log = .between →
        (∀ frame, (monitor s.log c).call = .frame frame → ¬IsFileFrame frame) →
        ∀ i, ¬(s.shared.routes.routes i).Of c) := by
  have hinv := (Server.wf_of_reach hs).routes
  have hroutes := Server.routes_eq hs
  refine ⟨fun n u w keep frame src hn hpc htype hlen hsrc i hi => ?_, fun c hok => ?_⟩
  · obtain ⟨frame', hpc', hcall, hmax⟩ := Server.handling_frame hs hn
    cases hpc.symm.trans hpc'
    have hcloses : Closes frame := ⟨htype, hlen, hmax⟩
    have hrest := (keys_kept.holds hs).follows n
    rw [hn, Watch.Follows, Discipline.follows_ret] at hrest
    rw [← keys_state_call] at hcall
    have hnone := Server.cleared hs u.id src
      ⟨frame, hcall, hcloses, hsrc, hrest frame hcall hcloses⟩
    rw [← hroutes, lookup_eq_none] at hnone
    exact hnone i hi
  · have horder := Server.inOrder hs c hok
    have hfound : ∀ i, (s.shared.routes.routes i).Of c →
        (routesAt s.log).lookup (c, (s.shared.routes.routes i).sourceTransferId) ≠ none := by
      intro i hi hnone
      rw [← hroutes, lookup_eq_none] at hnone
      exact hnone i ⟨hi.1, hi.2, rfl⟩
    -- all routes of the sender have the id of the transfer under way, or of the END in hand
    have hone : ∃ src, ∀ i, (s.shared.routes.routes i).Of c →
        (s.shared.routes.routes i).sourceTransferId = src := by
      cases hp : sendPhase c s.log with
      | between =>
        by_cases hend : ∃ frame src, (keys.state s.log c).call = .frame frame ∧
            decodeControl frame .fileEnd = .ok src
        · obtain ⟨frame, src, hc, hend⟩ := hend
          refine ⟨src, fun i hi => ?_⟩
          obtain ⟨frame', hc', hend'⟩ := (horder.between hp _).resolve_left (hfound i hi)
          cases hc.symm.trans hc'
          cases hend.symm.trans hend'
          rfl
        · refine ⟨0, fun i hi => absurd ?_ hend⟩
          obtain ⟨frame, hc, hdecode⟩ := (horder.between hp _).resolve_left (hfound i hi)
          exact ⟨frame, _, hc, hdecode⟩
      | sending src =>
        refine ⟨src, fun i hi => ?_⟩
        by_contra hne
        exact hfound i hi (horder.sending src hp _ hne)
      | broken => exact absurd hp hok
    refine ⟨fun i j hi hj => ?_, fun hp hhand i hi => ?_⟩
    · obtain ⟨src, hsrc⟩ := hone
      exact hinv.key_unique i j c src ⟨hi.1, hi.2, hsrc i hi⟩ ⟨hj.1, hj.2, hsrc j hj⟩
    · obtain ⟨frame, hc, hend⟩ := (horder.between hp _).resolve_left (hfound i hi)
      rw [keys_state_call] at hc
      exact hhand frame hc ⟨.fileEnd, by decide, (decodeControl_ok hend).1⟩

def Thread.returning : Thread → Option (ClientId × Pc)
  | .handling u w (.ret _) => some (u.id, w.pc)
  | _ => none

/-- `ann` begins a file of three bytes and ends it at once. -/
theorem sequential_senders_leave_no_route_incomplete : ∃ s, server.Reachable s ∧
    (s.threads 0).returning = some (1, .handle ([2] ++ writeU32 9)) ∧
    sendPhase 1 s.log = .between ∧
    (∀ i, ¬((s.shared.routes.routes i).active = true ∧
      (s.shared.routes.routes i).HasKey 1 9)) ∧
    ∀ i j, (s.shared.routes.routes i).Of 1 → (s.shared.routes.routes j).Of 1 → i = j := by
  have hrun : (server.run server.init (addressed (loginLabels 0 (ascii "ann") ++
      loginLabels 1 (ascii "bob") ++
      frameLabels 0 ([0] ++ writeU32 9 ++ writeU64 3 ++ writeU16 3 ++ writeU16 1 ++ ascii "bobf") ++
      stepLabels 0 [none, none, none, none] ++ frameLabels 0 ([2] ++ writeU32 9) ++
      stepLabels 0 [none, none, none]))).map
        (fun s => ((s.threads 0).returning, sendPhase 1 s.log)) =
      some (some (1, .handle ([2] ++ writeU32 9)), .between) := by
    decide +kernel
  obtain ⟨s, hs, hstate⟩ := Option.map_eq_some_iff.mp hrun
  obtain ⟨hreturning, hphase⟩ := Prod.mk.inj hstate
  have hreach := Transition.System.Reachable.run .init hs
  obtain ⟨hclosed, hsender⟩ := sequential_senders_leave_no_route hreach
  refine ⟨s, hreach, hreturning, hphase, ?_, ?_⟩
  · cases ht : s.threads 0 with
    | handling u w p =>
      cases p with
      | ret keep =>
        rw [ht, Thread.returning] at hreturning
        obtain ⟨hid, hpc⟩ := Prod.mk.inj (Option.some.inj hreturning)
        have hnone := hclosed 0 u w keep _ 9 ht hpc (.inl rfl) (by decide +kernel)
          (by decide +kernel)
        rw [hid] at hnone
        exact hnone
      | op o k =>
        rw [ht] at hreturning
        cases hreturning
    | _ =>
      rw [ht] at hreturning
      cases hreturning
  · exact (hsender 1 (by rw [hphase]; decide)).1

end CipherChat
