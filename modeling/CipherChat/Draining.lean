import CipherChat.Alignment
import CipherChat.Leftovers
import CipherChat.OutboundIds
import CipherChat.Waiting

/-!
# Draining a rejected transfer

A BEGIN that is rejected leaves a tombstone under its key when the table can hold one.
The tombstone stays until the END or the ERROR of the transfer, whatever other clients do,
and swallows what comes before.
-/

namespace CipherChat

open FileRoutes Resumption ClientManager Transition

namespace FileRoutes

def HasRoom (t : FileRoutes) (k : Key) : Prop := t.findFreeRoute ≠ none ∨ t.lookup k ≠ none

variable {t : FileRoutes} {s : ClientId} {src : UInt32}

theorem add_full {tgt : ClientId} {size : UInt64} {d : Bool}
    (h : (t.add s src tgt size d).2.result = .full) : t.findFreeRoute = none := by
  unfold add at h
  split at h
  · cases h
  · split at h
    · next hfree => exact hfree
    · split at h
      · cases h
      · dsimp only at h
        split at h
        · cases h
        · cases h

theorem add_rejected (h : Inv t) {tgt : ClientId} {size : UInt64} {d : Bool}
    (hr : (t.add s src tgt size d).2.result ≠ .ready) :
    (t.add s src tgt size d).1.live (s, src) = none ∧
      (t.HasRoom (s, src) → (t.add s src tgt size d).1.lookup (s, src) ≠ none) := by
  have hadd := add_added h s src tgt size d
  have hfull : (t.add s src tgt size d).2.result = .full → t.findFreeRoute = none := add_full
  generalize (t.add s src tgt size d).1 = t' at hadd
  generalize (t.add s src tgt size d).2 = answer at hadd hr hfull
  cases hadd with
  | duplicate _ hl _ =>
    refine ⟨by rw [live_tombstoned hl, Function.update_self], fun _ => ?_⟩
    rw [hl, Function.update_self]
    exact Option.some_ne_none _
  | full hk =>
    refine ⟨live_eq_none fun r hr => ?_, fun hroom => ?_⟩
    · rw [hk] at hr
      cases hr
    · rcases hroom with hfree | hkey
      · exact absurd (hfull rfl) hfree
      · exact absurd hk hkey
  | unavailable _ ha _ => exact absurd ha t.allocateOutboundId_ne_zero
  | discard _ _ hl _ =>
    refine ⟨by rw [live_tombstoned hl, Function.update_self], fun _ => ?_⟩
    rw [hl, Function.update_self]
    exact Option.some_ne_none _
  | ready => exact absurd rfl hr

theorem quarantine_live (h : Inv t) (keep : Bool) :
    (t.quarantine s src keep).1.live (s, src) = none := by
  rw [(quarantine_quarantined h s src keep).ended.1, Function.update_self]

/-- `file_routes_quarantine` leaves a tombstone if it can. -/
theorem quarantine_keep (h : Inv t) (hroom : t.HasRoom (s, src)) :
    (t.quarantine s src true).1.lookup (s, src) ≠ none := by
  have h' : Inv (t.quarantine s src true).1 := h.run (.quarantine s src true)
  unfold quarantine at h' ⊢
  split at h'
  · next i hi =>
    rw [lookup_set h h' rfl (.inl (findRoute_some hi)) fun _ => ⟨rfl, rfl⟩, Function.update_self]
    exact Option.some_ne_none _
  · next hn =>
    have hno := findRoute_none hn
    rw [if_pos rfl] at h' ⊢
    split at h'
    · next i hi =>
      rw [lookup_set h h' rfl (.inr ⟨findFreeRoute_some hi, hno⟩) fun _ => ⟨rfl, rfl⟩,
        Function.update_self]
      exact Option.some_ne_none _
    · next hfree =>
      rcases hroom with hroom | hroom
      · exact absurd hfree hroom
      · exact absurd (lookup_eq_none.mpr hno) hroom

end FileRoutes

theorem concerns_of_control {src : UInt32} {frame : Bytes}
    (h : decodeControl frame .fileEnd = .ok src ∨ decodeControl frame .fileError = .ok src) :
    Concerns src frame := by
  rcases h with h | h
  · exact ⟨isFileFrame_of_head (by decide) (decodeControl_ok h).1, (decodeControl_ok h).2⟩
  · exact ⟨isFileFrame_of_head (by decide) (decodeControl_ok h).1, (decodeControl_ok h).2⟩

theorem WellFormed.continues {src : UInt32} {frames : List Bytes} {frame : Bytes}
    (h : WellFormed src (frames ++ [frame])) : Continues frame := by
  rcases h.of_concat.2.2 with hchunk | hend | herror
  · exact .inl hchunk
  · exact .inr ⟨src, .inl hend⟩
  · exact .inr ⟨src, .inr herror⟩

theorem not_continues_begin {frame : Bytes} (h : frame.head? = some FrameType.fileBegin.toByte) :
    ¬Continues frame := by
  intro hcont
  rcases hcont.head with ⟨h', -⟩ | ⟨h', -⟩ | ⟨h', -⟩
  · rw [h] at h'
    exact absurd h' (by decide)
  · rw [h] at h'
    exact absurd h' (by decide)
  · rw [h] at h'
    exact absurd h' (by decide)

theorem chunk_not_control {frame : Bytes} {chunk : FileChunkFrame} {src : UInt32}
    (h : decodeChunk frame = some chunk) :
    ¬(decodeControl frame .fileEnd = .ok src ∨ decodeControl frame .fileError = .ok src) := by
  have hhead := (decodeChunk_some h).1
  rintro (h' | h')
  · rw [(decodeControl_ok h').1] at hhead
    exact absurd hhead (by decide)
  · rw [(decodeControl_ok h').1] at hhead
    exact absurd hhead (by decide)

def AllChunks (frames : List Bytes) : Prop := ∀ f ∈ frames, ∃ chunk, decodeChunk f = some chunk

theorem WellFormed.allChunks {src : UInt32} {fs : List Bytes} {f : Bytes} {chunk : FileChunkFrame}
    (h : WellFormed src (fs ++ [f])) (hchunk : decodeChunk f = some chunk) :
    AllChunks (fs ++ [f]) := by
  intro g hg
  rcases List.mem_append.mp hg with hg | hg
  · exact h.of_concat.2.1 g hg
  · cases List.mem_singleton.mp hg
    exact ⟨chunk, hchunk⟩

/-- Client `c` has a rejected transfer under `src`, and has sent `frames` under it since.
`room` says that the table could hold a tombstone for it. -/
structure Draining (c : ClientId) (src : UInt32) (room : Prop) (log : List Event)
    (frames : List Bytes) : Prop where
  quiet : (routesAt log).live (c, src) = none
  tombstone : room → .abort c ∉ log → AllChunks frames → (routesAt log).lookup (c, src) ≠ none
  /-- The END or the ERROR still finds it. -/
  closing : room → ∀ f, (keys.state log c).call = .frame f →
    (decodeControl f .fileEnd = .ok src ∨ decodeControl f .fileError = .ok src) →
    (keys.state log c).finding = none → (routesAt log).lookup (c, src) ≠ none
  found : ∀ f finding, (keys.state log c).call = .frame f → Concerns src f → Continues f →
    (keys.state log c).finding = some finding → finding ≠ .live ∧ (room → finding ≠ .missing)
  /-- The frame in hand is the last one, or still the rejected BEGIN. -/
  hand : ∀ f, (keys.state log c).call = .frame f → Concerns src f →
    (∃ fs, frames = fs ++ [f]) ∨
      f.head? = some FrameType.fileBegin.toByte ∧ (keys.state log c).finding ≠ none

namespace Draining

variable {c : ClientId} {src : UInt32} {room : Prop} {log : List Event} {frames : List Bytes}

theorem of_same (h : Draining c src room log frames) {e : Event}
    (hstate : keys.state (log ++ [e]) c = keys.state log c)
    (hlive : (routesAt (log ++ [e])).live (c, src) = none)
    (hlookup : (routesAt log).lookup (c, src) ≠ none →
      (routesAt (log ++ [e])).lookup (c, src) ≠ none) :
        Draining c src room (log ++ [e]) frames where
  quiet := hlive
  tombstone hroom hab hall :=
    hlookup (h.tombstone hroom (fun hmem => hab (List.mem_append_left _ hmem)) hall)
  closing hroom f hc hctl hf := by
    rw [hstate] at hc hf
    exact hlookup (h.closing hroom f hc hctl hf)
  found f finding hc hcon hcont hf := by
    rw [hstate] at hc hf
    exact h.found f finding hc hcon hcont hf
  hand f hc hcon := by
    rw [hstate] at hc ⊢
    exact h.hand f hc hcon

theorem of_aside (hquiet : (routesAt log).live (c, src) = none)
    (htombstone : room → .abort c ∉ log → AllChunks frames → (routesAt log).lookup (c, src) ≠ none)
    (haside : ∀ f, (keys.state log c).call = .frame f → ¬Concerns src f) :
    Draining c src room log frames where
  quiet := hquiet
  tombstone := htombstone
  closing _ f hc hctl _ := absurd (concerns_of_control hctl) (haside f hc)
  found f _ hc hcon _ _ := absurd hcon (haside f hc)
  hand f hc hcon := absurd hcon (haside f hc)

theorem other (h : Draining c src room log frames) (hinv : (routesAt log).Inv) {o : Op} {r : o.Resp}
    (hk : o.key ≠ some (c, src)) (hsweep : ∀ d capacity, o ≠ .routesAbortClient d capacity)
    (hnext : (keys.state log c).next o r = keys.state log c) :
    Draining c src room (log ++ [.did c o r]) frames := by
  have hlookup : (routesAt (log ++ [.did c o r])).lookup (c, src) =
      (routesAt log).lookup (c, src) := by
    rw [routesAt_concat, Event.routes, after_lookup_of_ne hinv hk hsweep]
  refine h.of_same ?_ ?_ ?_
  · rw [Watch.state_did_self]
    exact hnext
  · rw [live, hlookup]
    exact h.quiet
  · rw [hlookup]
    exact id

theorem own_aside (h : Draining c src room log frames) (hinv : (routesAt log).Inv)
    (hc0 : c ≠ invalidClientId) {o : Op} {r : o.Resp} (ha : (keys.state log c).allow c o)
    (habort : (keys.state log c).call = .abort → .abort c ∈ log)
    (haside : ∀ f, (keys.state log c).call = .frame f → ¬Concerns src f) :
    Draining c src room (log ++ [.did c o r]) frames := by
  have haside' : ∀ f, (keys.state (log ++ [.did c o r]) c).call = .frame f → ¬Concerns src f := by
    intro f hc
    rw [keys_state_call, monitor_did_self] at hc
    exact haside f ((keys_state_call log c).trans hc)
  have hk : o.key ≠ some (c, src) := by
    intro hk
    obtain ⟨-, f, hc, hcon⟩ := Keyed.concerns ha hk
    exact haside f hc hcon
  by_cases hsweep : ∃ d capacity, o = .routesAbortClient d capacity
  · obtain ⟨d, capacity, rfl⟩ := hsweep
    obtain ⟨rfl, hc⟩ := ha
    refine of_aside ?_ (fun _ hab => ?_) haside'
    · rw [routesAt_concat, Event.routes, FileRoutes.after, live,
        abortClient_lookup_self hinv hc0, Option.filter_none]
    · exact absurd (List.mem_append_left _ (habort hc)) hab
  · have hlookup : (routesAt (log ++ [.did c o r])).lookup (c, src) =
        (routesAt log).lookup (c, src) := by
      rw [routesAt_concat, Event.routes, after_lookup_of_ne hinv hk]
      exact fun d capacity heq => hsweep ⟨d, capacity, heq⟩
    refine of_aside ?_ (fun hroom hab hall => ?_) haside'
    · rw [live, hlookup]
      exact h.quiet
    · rw [hlookup]
      exact h.tombstone hroom (fun hmem => hab (List.mem_append_left _ hmem)) hall

theorem own_begin (h : Draining c src room log frames) (hinv : (routesAt log).Inv) {o : Op}
    {r : o.Resp} (ha : (keys.state log c).allow c o) {f : Bytes}
    (hc : (keys.state log c).call = .frame f) (hcon : Concerns src f)
    (hhead : f.head? = some FrameType.fileBegin.toByte)
    (hfinding : (keys.state log c).finding ≠ none) :
    Draining c src room (log ++ [.did c o r]) frames := by
  cases o with
  | routesAdd s src' tgt size discard => exact absurd ha.2.1 hfinding
  | routesAcceptChunk s src' len => exact absurd ha.2.1 hfinding
  | routesFinish s src' validate => exact absurd ha.2.1 hfinding
  | routesMarkForwardFailed s src' out =>
    obtain ⟨-, -, f', chunk, hc', hchunk, -⟩ := ha
    cases hc.symm.trans hc'
    exact absurd (.inl ⟨chunk, hchunk⟩) (not_continues_begin hhead)
  | routesAbortClient d capacity => cases hc.symm.trans ha.2
  | routesQuarantine s src' keep =>
    -- a BEGIN that fails keeps its tombstone
    obtain ⟨rfl, f', hc', hcon', -, hkeep⟩ := ha
    cases hc.symm.trans hc'
    cases hcon.2.symm.trans hcon'.2
    have hkeep' : keep = true := by
      rw [← Bool.not_eq_false, hkeep]
      exact not_closes_of_head hhead ⟨by decide, by decide⟩
    subst hkeep'
    have hroutes : routesAt (log ++ [.did s (.routesQuarantine s src true) r]) =
        ((routesAt log).quarantine s src true).1 := by
      rw [routesAt_concat, Event.routes, FileRoutes.after]
    have hstate : keys.state (log ++ [.did s (.routesQuarantine s src true) r]) s =
        { keys.state log s with finding := some .live } := Watch.state_did_self
    refine ⟨?_, fun hroom hab hall => ?_, fun _ f' _ _ hf => ?_, fun f' finding hc' _ hcont _ => ?_,
      fun f' hc' _ => .inr ⟨?_, ?_⟩⟩
    · rw [hroutes, quarantine_live hinv]
    · rw [hroutes]
      exact quarantine_keep hinv
        (.inr (h.tombstone hroom (fun hmem => hab (List.mem_append_left _ hmem)) hall))
    · rw [hstate] at hf
      cases hf
    · rw [hstate] at hc'
      cases hc.symm.trans hc'
      exact absurd hcont (not_continues_begin hhead)
    · rw [hstate] at hc'
      cases hc.symm.trans hc'
      exact hhead
    · rw [hstate]
      exact Option.some_ne_none _
  | _ => exact h.other hinv (by simp [Op.key]) (by simp) rfl

theorem own_chunk (h : Draining c src room log frames) (hinv : (routesAt log).Inv) {fs : List Bytes}
    {f : Bytes} {chunk : FileChunkFrame} {len : UInt64} {answer : ChunkAnswer}
    (hanswer : answer = ((routesAt log).acceptChunk c src len).2)
    (hframes : frames = fs ++ [f]) (hwell : WellFormed src frames)
    (hleft : .abort c ∉ log) (hc : (keys.state log c).call = .frame f)
    (hchunk : decodeChunk f = some chunk) :
    Draining c src room (log ++ [.did c (.routesAcceptChunk c src len) answer]) frames := by
  have hall : AllChunks frames := by
    rw [hframes] at hwell ⊢
    exact hwell.allChunks hchunk
  have hroutes : routesAt (log ++ [.did c (.routesAcceptChunk c src len) answer]) =
      ((routesAt log).acceptChunk c src len).1 := by
    rw [routesAt_concat, Event.routes, FileRoutes.after]
  have hstate : keys.state (log ++ [.did c (.routesAcceptChunk c src len) answer]) c =
      { keys.state log c with finding := some (.ofChunk answer.result) } := Watch.state_did_self
  have hquiet := h.quiet
  have hcase : ((routesAt log).acceptChunk c src len).1.live (c, src) = none ∧
      (room → ((routesAt log).acceptChunk c src len).1.lookup (c, src) ≠ none) ∧
      (Finding.ofChunk answer.result = .tombstone ∨ Finding.ofChunk answer.result = .missing ∧
        ¬room) := by
    have hchunked := acceptChunk_chunked hinv c src len
    rw [hanswer]
    generalize ((routesAt log).acceptChunk c src len).1 = t' at hchunked
    generalize ((routesAt log).acceptChunk c src len).2 = answer at hchunked
    have htombstone := fun hroom => h.tombstone hroom hleft hall
    cases hchunked with
    | missing hk hl _ =>
      -- without a tombstone the table has had no room
      have hno : ¬room := fun hroom => htombstone hroom hk
      refine ⟨?_, fun hroom => absurd hroom hno, .inr ⟨rfl, hno⟩⟩
      rw [live_absent hk hl, Function.update_self]
    | discard _ _ => exact ⟨hquiet, htombstone, .inl rfl⟩
    | overrun hk _ _ => cases hquiet.symm.trans hk
    | ready hk _ _ _ _ _ => cases hquiet.symm.trans hk
  obtain ⟨hlive, hkept, hfinding⟩ := hcase
  refine ⟨?_, fun hroom _ _ => ?_, fun _ f' _ _ hf => ?_, fun f' finding _ _ _ hf => ?_,
    fun f' hc' _ => .inl ⟨fs, ?_⟩⟩
  · rw [hroutes, hlive]
  · rw [hroutes]
    exact hkept hroom
  · rw [hstate] at hf
    cases hf
  · rw [hstate] at hf
    obtain rfl := Option.some.inj hf
    rcases hfinding with hfinding | ⟨hfinding, hno⟩
    · rw [hfinding]
      exact ⟨by decide, fun _ => by decide⟩
    · rw [hfinding]
      exact ⟨by decide, fun hroom => absurd hroom hno⟩
  · rw [hstate] at hc'
    cases hc.symm.trans hc'
    exact hframes

theorem own_finish (h : Draining c src room log frames) (hinv : (routesAt log).Inv)
    {fs : List Bytes}
    {f : Bytes} {validate : Bool} {answer : FinishAnswer}
    (hanswer : answer = ((routesAt log).finish c src validate).2)
    (hframes : frames = fs ++ [f]) (hc : (keys.state log c).call = .frame f)
    (hnone : (keys.state log c).finding = none)
    (hcontrol : decodeControl f .fileEnd = .ok src ∨ decodeControl f .fileError = .ok src) :
    Draining c src room (log ++ [.did c (.routesFinish c src validate) answer]) frames := by
  have hroutes : routesAt (log ++ [.did c (.routesFinish c src validate) answer]) =
      ((routesAt log).finish c src validate).1 := by
    rw [routesAt_concat, Event.routes, FileRoutes.after]
  have hstate : keys.state (log ++ [.did c (.routesFinish c src validate) answer]) c =
      { keys.state log c with finding := some (.ofFinish answer.result) } := Watch.state_did_self
  have hquiet := h.quiet
  have hfinding : Finding.ofFinish answer.result = .tombstone ∨
      Finding.ofFinish answer.result = .missing ∧ ¬room := by
    have hfinished := finish_finished hinv c src validate
    rw [hanswer]
    generalize ((routesAt log).finish c src validate).1 = t' at hfinished
    generalize ((routesAt log).finish c src validate).2 = answer at hfinished
    cases hfinished with
    | missing hk => exact .inr ⟨rfl, fun hroom => h.closing hroom f hc hcontrol hnone hk⟩
    | discard _ _ _ _ => exact .inl rfl
    | finished hk _ _ => cases hquiet.symm.trans hk
  refine ⟨?_, fun _ _ hall => ?_, fun _ f' _ _ hf => ?_, fun f' finding _ _ _ hf => ?_,
    fun f' hc' _ => .inl ⟨fs, ?_⟩⟩
  · rw [hroutes, live, finish_lookup hinv, Option.filter_none]
  · obtain ⟨chunk, hchunk⟩ := hall f (by rw [hframes]; simp)
    exact absurd hcontrol (chunk_not_control hchunk)
  · rw [hstate] at hf
    cases hf
  · rw [hstate] at hf
    obtain rfl := Option.some.inj hf
    rcases hfinding with hfinding | ⟨hfinding, hno⟩
    · rw [hfinding]
      exact ⟨by decide, fun _ => by decide⟩
    · rw [hfinding]
      exact ⟨by decide, fun hroom => absurd hroom hno⟩
  · rw [hstate] at hc'
    cases hc.symm.trans hc'
    exact hframes

theorem own_frame (h : Draining c src room log frames) {x : Shared} (hx : x.routes = routesAt log)
    (hinv : (routesAt log).Inv) {libc : Libc} {o : Op} {r : o.Resp} (hr : r = (perform libc x o).1)
    (ha : (keys.state log c).allow c o) {fs : List Bytes} {f : Bytes}
    (hframes : frames = fs ++ [f]) (hwell : WellFormed src frames) (hleft : .abort c ∉ log)
    (hc : (keys.state log c).call = .frame f) (hcon : Concerns src f) :
    Draining c src room (log ++ [.did c o r]) frames := by
  have hcont : Continues f := by
    rw [hframes] at hwell
    exact hwell.continues
  cases o with
  | routesAdd s src' tgt size discard =>
    obtain ⟨-, -, f', b, hc', hb, -⟩ := ha
    cases hc.symm.trans hc'
    exact absurd hcont (not_continues_begin (decodeBegin_some hb).1)
  | routesQuarantine s src' keep =>
    obtain ⟨-, f', hc', -, hno, -⟩ := ha
    cases hc.symm.trans hc'
    exact absurd hcont hno
  | routesAcceptChunk s src' len =>
    obtain ⟨rfl, -, f', chunk, hc', hchunk, hsrc⟩ := ha
    cases hc.symm.trans hc'
    cases ((decodeChunk_some hchunk).2.1.symm.trans hcon.2).symm.trans (congrArg some hsrc)
    refine h.own_chunk hinv ?_ hframes hwell hleft hc hchunk
    rw [hr, ← hx]
    simp only [perform, Shared.onRoutes]
  | routesMarkForwardFailed s src' out =>
    exact absurd rfl (h.found f .live hc hcon hcont ha.2.1).1
  | routesFinish s src' validate =>
    obtain ⟨rfl, hnone, f', hc', hcontrol⟩ := ha
    cases hc.symm.trans hc'
    cases (concerns_of_control hcontrol).2.symm.trans hcon.2
    refine h.own_finish hinv ?_ hframes hc hnone hcontrol
    rw [hr, ← hx]
    simp only [perform, Shared.onRoutes]
  | routesAbortClient d capacity => cases hc.symm.trans ha.2
  | _ => exact h.other hinv (by simp [Op.key]) (by simp) rfl

theorem sweep (h : Draining c src room log frames) (hinv : (routesAt log).Inv)
    (hc0 : c ≠ invalidClientId) {d : ClientId} (hd : d ≠ c) {capacity : ℕ}
    {r : (Op.routesAbortClient d capacity).Resp} :
    Draining c src room (log ++ [.did d (.routesAbortClient d capacity) r]) frames := by
  have hroutes : routesAt (log ++ [.did d (.routesAbortClient d capacity) r]) =
      ((routesAt log).abortClient d capacity).1 := by
    rw [routesAt_concat, Event.routes, FileRoutes.after]
  refine h.of_same (Watch.state_did_of_ne hd) ?_ fun hne => ?_
  · rw [hroutes]
    rcases abortClient_live_other hinv capacity (k := (c, src)) hd.symm with hsame | ⟨hnone, -⟩
    · rw [hsame]
      exact h.quiet
    · exact hnone
  · obtain ⟨route, hroute⟩ := Option.ne_none_iff_exists'.mp hne
    rw [hroutes]
    rcases abortClient_lookup_other hinv capacity hd.symm hc0 hroute with hsame | hsame
    · rw [hsame]
      exact Option.some_ne_none _
    · rw [hsame]
      exact Option.some_ne_none _

theorem received (h : Draining c src room log frames) {f : Bytes} (hleft : .abort c ∉ log)
    (hwell : WellFormed src (frames ++ framesOf c src [.received c f])) :
    Draining c src room (log ++ [.received c f]) (frames ++ framesOf c src [.received c f]) := by
  have hroutes : routesAt (log ++ [.received c f]) = routesAt log := by
    rw [routesAt_concat]
    rfl
  have hstate : keys.state (log ++ [.received c f]) c = { call := .frame f } := by
    rw [Watch.state_concat, Watch.event, if_pos rfl]
    rfl
  by_cases hcon : Concerns src f
  · have hframes : framesOf c src [.received c f] = [f] := by
      rw [framesOf, if_pos ⟨rfl, hcon⟩]
      rfl
    rw [hframes] at hwell ⊢
    refine ⟨?_, fun hroom _ hall => ?_, fun hroom f' hc hctl _ => ?_, fun f' finding _ _ _ hf => ?_,
      fun f' hc _ => .inl ⟨frames, ?_⟩⟩
    · rw [hroutes]
      exact h.quiet
    · rw [hroutes]
      exact h.tombstone hroom hleft fun g hg => hall g (List.mem_append_left _ hg)
    · rw [hroutes]
      exact h.tombstone hroom hleft hwell.of_concat.2.1
    · rw [hstate] at hf
      cases hf
    · rw [hstate] at hc
      cases hc
      rfl
  · have hframes : framesOf c src [.received c f] = [] := by
      rw [framesOf, if_neg fun hboth => hcon hboth.2]
      rfl
    rw [hframes, List.append_nil]
    refine of_aside ?_ (fun hroom _ hall => ?_) fun f' hc => ?_
    · rw [hroutes]
      exact h.quiet
    · rw [hroutes]
      exact h.tombstone hroom hleft hall
    · rw [hstate] at hc
      cases hc
      exact hcon

theorem ended (h : Draining c src room log frames) {e : Event} (call : Call)
    (hstate : keys.state (log ++ [e]) c = { call := call }) (hcall : ∀ f, call ≠ .frame f)
    (hroutes : routesAt (log ++ [e]) = routesAt log) :
    Draining c src room (log ++ [e]) frames := by
  refine of_aside ?_ (fun hroom hab hall => ?_) fun f hc => ?_
  · rw [hroutes]
    exact h.quiet
  · rw [hroutes]
    exact h.tombstone hroom (fun hmem => hab (List.mem_append_left _ hmem)) hall
  · rw [hstate] at hc
    exact absurd hc (hcall f)

end Draining

theorem Server.draining_step {ok : Server → Label → Prop} {s s' : Server} {l : Label} {e : Event}
    (hr : server.Reach ok s) (hstep : server.step s l = some s') (hr' : server.Reach ok s')
    (hlog : s'.log = s.log ++ [e]) {c : ClientId} (hc0 : c ≠ invalidClientId) {src : UInt32}
    {room : Prop} {frames : List Bytes} (hwell : WellFormed src (frames ++ framesOf c src [e]))
    (h : Draining c src room s.log frames) :
    Draining c src room (s.log ++ [e]) (frames ++ framesOf c src [e]) := by
  have hinv := Server.routesAt_inv hr
  have halign := Server.aligned_of_reach hr
  have hstay : framesOf c src [e] = [] → WellFormed src frames := by
    intro hnil
    rwa [hnil, List.append_nil] at hwell
  rcases Server.routes_event hr hstep hlog c with ⟨o, r, rfl, ha, hresp⟩ | ⟨hclient, hsweep⟩ |
    ⟨hown, hsame⟩
  -- the client's own operation, on the frame in hand or beside it
  · have hnil : framesOf c src [.did c o r] = [] := rfl
    rw [hnil, List.append_nil]
    by_cases hcall : ∃ f, (keys.state s.log c).call = .frame f ∧ Concerns src f
    · obtain ⟨f, hc, hcon⟩ := hcall
      rcases h.hand f hc hcon with ⟨fs, hframes⟩ | ⟨hhead, hfinding⟩
      · have hleft : .abort c ∉ s.log := by
          intro hmem
          rw [keys_state_call] at hc
          exact (halign.spent c hmem).1 ⟨f, hc⟩
        exact h.own_frame (Server.routes_eq hr) hinv hresp ha hframes (hstay hnil) hleft hc hcon
      · exact h.own_begin hinv ha hc hcon hhead hfinding
    · refine h.own_aside hinv hc0 ha (fun hc => ?_) fun f hc hcon => hcall ⟨f, hc, hcon⟩
      rw [keys_state_call] at hc
      exact halign.abort_logged c hc
  -- the sweep of another client ends live routes only
  · obtain ⟨d, capacity, r, rfl⟩ := hsweep
    have hnil : framesOf c src [.did d (.routesAbortClient d capacity) r] = [] := rfl
    rw [hnil, List.append_nil]
    exact h.sweep hinv hc0 fun heq => hclient (congrArg some heq)
  -- nothing else concerns the key, and only the client's own calls move its state
  · have hkeep : keys.state (s.log ++ [e]) c = keys.state s.log c → framesOf c src [e] = [] →
        Draining c src room (s.log ++ [e]) (frames ++ framesOf c src [e]) := by
      intro hstate hnil
      rw [hnil, List.append_nil]
      refine h.of_same hstate ?_ ?_
      · rw [live, hsame]
        exact h.quiet
      · rw [hsame]
        exact id
    cases e with
    | did d o r =>
      refine hkeep (Watch.state_did_of_ne fun heq => ?_) rfl
      subst heq
      exact hown o r rfl
    | received d f =>
      by_cases hd : d = c
      · subst hd
        refine h.received (fun hmem => ?_) hwell
        have hframe : (monitor s'.log d).InFrame := by
          refine ⟨f, ?_⟩
          rw [hlog, monitor_concat, Monitor.event, if_pos rfl]
        refine ((Server.aligned_of_reach hr').spent d ?_).1 hframe
        rw [hlog]
        exact List.mem_append_left _ hmem
      · refine hkeep ?_ ?_
        · rw [Watch.state_concat, Watch.event, if_neg hd]
        · rw [framesOf, if_neg fun hboth => hd hboth.1]
          rfl
    | abort d =>
      by_cases hd : d = c
      · subst hd
        have hnil : framesOf d src [.abort d] = [] := rfl
        rw [hnil, List.append_nil]
        refine h.ended .abort ?_ (fun f hf => by cases hf) (routesAt_concat _ _)
        rw [Watch.state_concat, Watch.event, if_pos rfl]
        rfl
      · exact hkeep (by rw [Watch.state_concat, Watch.event, if_neg hd]) rfl
    | returned d =>
      by_cases hd : d = c
      · subst hd
        have hnil : framesOf d src [.returned d] = [] := rfl
        rw [hnil, List.append_nil]
        refine h.ended .none ?_ (fun f hf => by cases hf) (routesAt_concat _ _)
        rw [Watch.state_concat, Watch.event, if_pos rfl]
        rfl
      · exact hkeep (by rw [Watch.state_concat, Watch.event, if_neg hd]) rfl
    | login n d name => exact hkeep (by rw [Watch.state_concat]; rfl) rfl
    | wrote d bytes => exact hkeep (by rw [Watch.state_concat]; rfl) rfl

theorem framesOf_append (c : ClientId) (src : UInt32) (a b : List Event) :
    framesOf c src (a ++ b) = framesOf c src a ++ framesOf c src b := by
  induction b using List.reverseRecOn with
  | nil => rw [List.append_nil, framesOf, List.append_nil]
  | append_singleton b e ih => rw [← List.append_assoc, framesOf_concat, framesOf_concat, ih,
      List.append_assoc]

theorem WellFormed.of_append {src : UInt32} {fs gs : List Bytes} (h : WellFormed src (fs ++ gs)) :
    WellFormed src fs := by
  induction gs using List.reverseRecOn with
  | nil => rwa [List.append_nil] at h
  | append_singleton gs g ih =>
    rw [← List.append_assoc] at h
    exact ih h.of_concat.1

theorem Server.call_since {ok : Server → Label → Prop} {s : Server} (hs : server.Reach ok s)
    {c : ClientId} : ∀ before f mid, s.log = before ++ .received c f :: mid → .returned c ∉ mid →
      (keys.state s.log c).call = .frame f := by
  refine Server.log_invariant (P := fun log => ∀ before f mid,
    log = before ++ .received c f :: mid → .returned c ∉ mid →
      (keys.state log c).call = .frame f) ?_ ?_ hs
  · intro before f mid h
    exact absurd h (by simp)
  · intro s s' l e hr _ hstep hlog hold before f mid h hret
    rcases List.eq_nil_or_concat mid with rfl | ⟨mid', e', rfl⟩
    · obtain ⟨-, he⟩ := List.append_inj' h rfl
      obtain rfl := List.singleton_inj.mp he
      rw [Watch.state_concat, Watch.event, if_pos rfl]
      rfl
    · rw [List.concat_eq_append, ← List.cons_append, ← List.append_assoc] at h
      obtain ⟨hpre, he⟩ := List.append_inj' h rfl
      obtain rfl := List.singleton_inj.mp he
      rw [List.concat_eq_append] at hret
      have hcall := hold before f mid' hpre fun hmem => hret (List.mem_append_left _ hmem)
      -- the call of a client that has a frame in hand starts no other
      have hbusy : keys.state s.log c ≠ keys.start .none := by
        intro hidle
        rw [hidle] at hcall
        cases hcall
      rw [Watch.state_concat]
      cases e with
      | did d o r =>
        rw [← Watch.state_concat, keys_state_call, monitor_concat, Monitor.event]
        rw [keys_state_call] at hcall
        split
        · exact hcall
        · exact hcall
      | received d g =>
        rw [Watch.event, if_neg]
        · exact hcall
        · rintro rfl
          exact hbusy (keys_kept.started hr hstep (.inl ⟨g, hlog⟩))
      | abort d =>
        rw [Watch.event, if_neg]
        · exact hcall
        · rintro rfl
          exact hbusy (keys_kept.started hr hstep (.inr hlog))
      | returned d =>
        rw [Watch.event, if_neg]
        · exact hcall
        · rintro rfl
          exact hret (List.mem_append_right _ (List.mem_singleton.mpr rfl))
      | _ => exact hcall

/-- The operation by which the call for the BEGIN `frame` rejects the transfer: the frame does
not decode, or `file_routes_add` does not answer READY. -/
def RejectsBegin (c : ClientId) (src : UInt32) (frame : Bytes) : (o : Op) → o.Resp → Prop
  | .routesQuarantine s src' _, _ => s = c ∧ src' = src ∧ decodeBegin frame = none
  | .routesAdd s src' _ _ _, answer => s = c ∧ src' = src ∧ answer.result ≠ .ready
  | _, _ => False

theorem Draining.start {log : List Event} {c : ClientId} {src : UInt32} {frame : Bytes} {x : Shared}
    (hx : x.routes = routesAt log) (hinv : (routesAt log).Inv) {libc : Libc} {o : Op}
    {answer : o.Resp}
    (hresp : answer = (perform libc x o).1) (ha : (keys.state log c).allow c o)
    (hcall : (keys.state log c).call = .frame frame)
    (hhead : frame.head? = some FrameType.fileBegin.toByte)
    (hrej : RejectsBegin c src frame o answer) :
    Draining c src ((routesAt log).HasRoom (c, src)) (log ++ [.did c o answer]) [] := by
  -- whichever operation rejects the BEGIN, its client ends in the same state
  have hend : keys.state (log ++ [.did c o answer]) c =
      { call := .frame frame, finding := some .live } →
      (routesAt (log ++ [.did c o answer])).live (c, src) = none →
      ((routesAt log).HasRoom (c, src) →
        (routesAt (log ++ [.did c o answer])).lookup (c, src) ≠ none) →
      Draining c src ((routesAt log).HasRoom (c, src)) (log ++ [.did c o answer]) [] := by
    intro hstate hlive hlookup
    refine ⟨hlive, fun hroom _ _ => hlookup hroom, fun _ f _ _ hf => ?_, fun f _ hc _ hcont _ => ?_,
      fun f hc _ => .inr ⟨?_, ?_⟩⟩
    · rw [hstate] at hf
      cases hf
    · rw [hstate] at hc
      cases hc
      exact absurd hcont (not_continues_begin hhead)
    · rw [hstate] at hc
      cases hc
      exact hhead
    · rw [hstate]
      exact Option.some_ne_none _
  have hnext : Keyed.mk (keys.state log c).call (some .live) = .mk (.frame frame) (some .live) := by
    rw [hcall]
  cases o with
  | routesAdd s src' tgt size discard =>
    obtain ⟨rfl, rfl, hready⟩ := hrej
    have hanswer : answer = ((routesAt log).add s src' tgt size discard).2 := by
      rw [hresp, ← hx]
      simp only [perform, Shared.onRoutes]
    rw [hanswer] at hready
    obtain ⟨hlive, hlookup⟩ := add_rejected hinv hready
    have hroutes : routesAt (log ++ [.did s (.routesAdd s src' tgt size discard) answer]) =
        ((routesAt log).add s src' tgt size discard).1 := by
      rw [routesAt_concat, Event.routes, FileRoutes.after]
    refine hend (Watch.state_did_self.trans hnext) ?_ ?_
    · rw [hroutes, hlive]
    · rw [hroutes]
      exact hlookup
  | routesQuarantine s src' keep =>
    obtain ⟨rfl, rfl, -⟩ := hrej
    obtain ⟨-, f, hc, -, -, hkeep⟩ := ha
    cases hcall.symm.trans hc
    have hkeep' : keep = true := by
      rw [← Bool.not_eq_false, hkeep]
      exact not_closes_of_head hhead ⟨by decide, by decide⟩
    subst hkeep'
    have hroutes : routesAt (log ++ [.did s (.routesQuarantine s src' true) answer]) =
        ((routesAt log).quarantine s src' true).1 := by
      rw [routesAt_concat, Event.routes, FileRoutes.after]
    refine hend (Watch.state_did_self.trans hnext) ?_ ?_
    · rw [hroutes, quarantine_live hinv]
    · rw [hroutes]
      exact quarantine_keep hinv
  | _ => cases hrej

theorem Server.draining_of_reach {ok : Server → Label → Prop} {s : Server} (hs : server.Reach ok s)
    {before : List Event} {c : ClientId} (hc0 : c ≠ invalidClientId) {src : UInt32} {frame : Bytes}
    {o : Op} {answer : o.Resp} (hcall : (keys.state before c).call = .frame frame)
    (hhead : frame.head? = some FrameType.fileBegin.toByte)
    (hrej : RejectsBegin c src frame o answer) : ∀ seg, s.log = before ++ .did c o answer :: seg →
      WellFormed src (framesOf c src seg) →
      Draining c src ((routesAt before).HasRoom (c, src)) s.log (framesOf c src seg) := by
  refine Server.log_invariant (P := fun log => ∀ seg, log = before ++ .did c o answer :: seg →
    WellFormed src (framesOf c src seg) →
    Draining c src ((routesAt before).HasRoom (c, src)) log (framesOf c src seg)) ?_ ?_ hs
  · intro seg h
    exact absurd h (by simp)
  · intro s s' l e hr hok hstep hlog hold seg hseg hwell
    rcases List.eq_nil_or_concat seg with rfl | ⟨seg', e', rfl⟩
    · obtain ⟨rfl, he⟩ := List.append_inj' hseg rfl
      obtain rfl := List.singleton_inj.mp he
      have hinv := Server.routesAt_inv hr
      obtain ⟨⟨_, ha⟩, hresp, -⟩ := keys_kept.allowed hr hstep hlog
      exact .start (Server.routes_eq hr) hinv hresp ha hcall hhead hrej
    · rw [List.concat_eq_append, ← List.cons_append, ← List.append_assoc] at hseg
      obtain ⟨hpre, he⟩ := List.append_inj' hseg rfl
      obtain rfl := List.singleton_inj.mp he
      rw [List.concat_eq_append, framesOf_append] at hwell ⊢
      exact Server.draining_step hr hstep (.step hr hok hstep) hlog hc0 hwell
        (hold seg' hpre hwell.of_append)

/-- Let the worker of a client reject a BEGIN that names the transfer `src`, and let the client
send CHUNKs and then at most one END or ERROR under that id, while the server makes any other
steps.  In the call for such a frame the worker queues nothing to another client, and nothing
at all if the table had room for a tombstone when the BEGIN was rejected. -/
theorem rejected_transfer_is_drained {s₀ s₁ s : Server} {n : ℕ} {env : Env} {u : Session}
    {w : Worker}
    {p : Handler Bool} {begin_ : Bytes} {src : UInt32} {o : Op} {answer : o.Resp} {seg : List Event}
    (hs₀ : server.Reachable s₀) (hn : s₀.threads n = .handling u w p) (hpc : w.pc = .handle begin_)
    (hhead : begin_.head? = some FrameType.fileBegin.toByte)
    (hstep : server.step s₀ (n, env) = some s₁)
    (hlog : s₁.log = s₀.log ++ [.did u.id o answer]) (hrej : RejectsBegin u.id src begin_ o answer)
    (hrun : server.Steps s₁ s) (hseg : s.log = s₁.log ++ seg)
    (hwell : WellFormed src (framesOf u.id src seg)) :
    ∀ pre frame mid r type payload result post,
      seg = pre ++ .received u.id frame :: (mid ++ .did u.id (.queueFrame r type payload)
        result :: post) →
      Concerns src frame → .returned u.id ∉ mid →
      (r = u.id ∧ type = .text) ∧ ¬s₀.shared.routes.HasRoom (u.id, src) := by
  intro pre frame mid r type payload result post hsplit hcon hret
  have hs₁ : server.Reachable s₁ := .step hs₀ trivial hstep
  have hs : server.Reachable s := hs₁.steps hrun
  have hc0 : u.id ≠ invalidClientId :=
    (Server.wf_of_reach hs₀).session_id_ne (n := n) (by rw [hn]; rfl) (by rw [hn]; rfl)
  have hcall : (keys.state s₀.log u.id).call = .frame begin_ := by
    obtain ⟨frame', hpc', hcall, -⟩ := Server.handling_frame hs₀ hn
    cases hpc.symm.trans hpc'
    rw [keys_state_call, hcall]
  have hwhole : s.log = (s₁.log ++ pre ++ .received u.id frame :: mid) ++
      .did u.id (.queueFrame r type payload) result :: post := by
    rw [hseg, hsplit]
    simp
  obtain ⟨s₂, l, s₃, hs₂, -, hstep₂, hlog₂, hlog₃, -⟩ := Server.event_reach hs hwhole
  rw [← hlog₂] at hlog₃
  rw [hsplit, framesOf_append] at hwell
  have hframes : framesOf u.id src (.received u.id frame ::
      (mid ++ .did u.id (.queueFrame r type payload) result :: post)) =
      [frame] ++ (framesOf u.id src mid ++ framesOf u.id src
        (.did u.id (.queueFrame r type payload) result :: post)) := by
    rw [framesOf, if_pos ⟨rfl, hcon⟩, framesOf_append, List.singleton_append]
  rw [hframes, ← List.append_assoc] at hwell
  have hcont : Continues frame := hwell.of_append.continues
  rw [← List.append_assoc] at hwell
  -- what the draining invariant knows of the frame in hand
  have hdrain := Server.draining_of_reach hs₂ hc0 hcall hhead hrej
    (pre ++ .received u.id frame :: mid)
    (by rw [hlog₂, hlog]; simp) (by
      rw [framesOf_append, framesOf, if_pos ⟨rfl, hcon⟩]
      simpa using hwell.of_append)
  have hhand : (keys.state s₂.log u.id).call = .frame frame :=
    Server.call_since hs₂ (s₁.log ++ pre) frame mid (by rw [hlog₂]) hret
  obtain ⟨⟨_, ha⟩, -⟩ := keys_kept.allowed hs₂ hstep₂ hlog₃
  change (keys.state s₂.log u.id).MaySend u.id r type at ha
  rw [Server.routes_eq hs₀]
  -- the answer that the frame met settles what its call may send
  unfold Keyed.MaySend at ha
  split at ha
  · next hf => exact absurd rfl (hdrain.found frame .live hhand hcon hcont hf).1
  · next hf =>
    refine ⟨ha, fun hroom => ?_⟩
    exact (hdrain.found frame .missing hhand hcon hcont hf).2 hroom rfl
  · cases ha
  · exact absurd hcont (ha frame hhand)

theorem perform_text_none (x : Shared) (c : ClientId) (text : Bytes) :
    (perform {} x (.queueFrame c .text text)).2 = x := by
  obtain ⟨e, hqueue⟩ := starved_queueFrame x c .text text
  exact congrArg Prod.snd hqueue

theorem Server.Waits.rejects {s : Server} {n : ℕ} {u : Session} {w : Worker} (h : s.Waits n u w)
    (hname : validPeerName u.username = true) (hinv : s.shared.routes.Inv) {src : UInt32}
    (hlive : s.shared.routes.live (u.id, src) = none) :
    ∃ s₀ s₁ s₂ w₀ p w₂ answer text result, server.Steps s s₀ ∧ s₀.shared = s.shared ∧
      s₀.threads n = .handling u w₀ p ∧
      w₀.pc = .handle (FrameType.fileBegin.toByte :: writeU32 src) ∧
      server.step s₀ (n, {}) = some s₁ ∧
      s₁.log = s₀.log ++ [.did u.id (.routesQuarantine u.id src true) answer] ∧
      server.Steps s₁ s₂ ∧
      s₂.log = s₁.log ++ [.did u.id (.queueFrame u.id .text text) result, .returned u.id] ∧
      s₂.shared.routes = (s.shared.routes.quarantine u.id src true).1 ∧ s₂.Waits n u w₂ := by
  have hmax := frameMaxSize_eq
  have hid := h.idle.id_ne
  obtain ⟨k, text, hhandler, hk⟩ := handleClientFrame_shortBegin hid hname src
  obtain ⟨s₀, w₀, hst₀, hsh₀, -, hn₀, hpc, hout, hwait, hprogress⟩ := h.handles
    (FrameType.fileBegin.toByte :: writeU32 src) (by simp) (by simp; omega)
    (show isValidFrameType FrameType.fileBegin.toByte = true by decide)
  rw [hhandler] at hn₀
  have hanswer : (s.shared.routes.quarantine u.id src true).2.wasForwarding = false := by
    rcases (quarantine_quarantined hinv u.id src true).ended.2.2 with hno | ⟨r, hr, -⟩
    · exact hno
    · cases hlive.symm.trans hr
  have hperform : perform {} s₀.shared (.routesQuarantine u.id src true) =
      ((s.shared.routes.quarantine u.id src true).2,
        { s.shared with routes := (s.shared.routes.quarantine u.id src true).1 }) := by
    rw [hsh₀]
    simp only [perform, Shared.onRoutes]
  have hstep₁ := Server.performs hn₀ {}
  rw [hperform] at hstep₁
  generalize s.shared.routes.quarantine u.id src true = q at hanswer hstep₁
  obtain ⟨t', answer⟩ := q
  dsimp only at hanswer hstep₁
  rw [hk answer hanswer] at hstep₁
  obtain ⟨s₁, hs₁⟩ : ∃ s₁, s₁ = Server.mk { s.shared with routes := t' }

      (Function.update s₀.threads n
    (.handling u w₀ (.op (.queueFrame u.id .text text) fun _ => .ret true)))
    (s₀.log ++ [.did u.id (.routesQuarantine u.id src true) answer]) := ⟨_, rfl⟩
  rw [← hs₁] at hstep₁
  have hn₁ : s₁.threads n = .handling u w₀ (.op (.queueFrame u.id .text text) fun _ =>
    .ret true) := by
    rw [hs₁]
    exact Function.update_self _ _ _
  -- the notice to the client itself, whether it is queued or not
  have hstep₂ := Server.performs hn₁ {}
  rw [perform_text_none] at hstep₂
  obtain ⟨s₂, w₂, hst₂, hsh₂, hlog₂, hwaits⟩ := Server.returns (n := n) (u := u) (w := w₀)
    (s := .mk s₁.shared (Function.update s₁.threads n (.handling u w₀ (.ret true)))
      (s₁.log ++ [.did u.id (.queueFrame u.id .text text)
        (perform {} s₁.shared (.queueFrame u.id .text text)).1]))
    (by rw [hs₁]; exact h.idle) (Function.update_self _ _ _) hout hwait hprogress
  refine ⟨s₀, s₁, s₂, w₀, _, w₂, answer, text,
    (perform {} s₁.shared (.queueFrame u.id .text text)).1, hst₀, hsh₀, hn₀, hpc, hstep₁, ?_,
    (System.Steps.refl.tail hstep₂).trans hst₂, ?_, ?_, hwaits⟩
  · rw [hs₁]
  · rw [hlog₂, List.append_assoc]
    rfl
  · rw [hsh₂, hs₁]

namespace FileRoutes

variable {t : FileRoutes} {c : ClientId} {k : ℕ}

theorem findRoute_of_lookup {src : UInt32} (h : t.lookup (c, src) = none) :
    t.findRoute c src = none := by
  rwa [FileRoutes.lookup, Option.map_eq_none_iff] at h

theorem quarantine_full {src : UInt32} (hfind : t.findRoute c src = none)
    (hfree : t.findFreeRoute = none) : (t.quarantine c src true).1 = t := by
  unfold quarantine
  split
  · next i hi => cases hfind.symm.trans hi
  · rw [if_pos rfl]
    split
    · next i hi => cases hfree.symm.trans hi
    · rfl

theorem finish_missing {src : UInt32} (hfind : t.findRoute c src = none) (validate : Bool) :
    t.finish c src validate = (t, { result := .missing }) := by
  unfold finish
  split
  · rfl
  · next i hi => cases hfind.symm.trans hi

/-- There are `k` entries, under ids smaller than `k`. -/
structure Fills (t : FileRoutes) (k : ℕ) : Prop where
  card : (Finset.univ.filter fun i => (t.routes i).active = true).card = k
  ids : ∀ i, (t.routes i).active = true → (t.routes i).sourceTransferId.toNat < k

theorem Fills.lookup (h : t.Fills k) {src : UInt32} (hsrc : k ≤ src.toNat) (c : ClientId) :
    t.lookup (c, src) = none := by
  refine lookup_eq_none.mpr fun i hi => ?_
  have hlt := h.ids i hi.1
  rw [hi.2.2] at hlt
  exact absurd hlt (not_lt.mpr hsrc)

theorem Fills.next (h : t.Fills k) (hk : k < fileRouteCapacity) {src : UInt32}
    (hsrc : src.toNat = k) (c : ClientId) : (t.quarantine c src true).1.Fills (k + 1) := by
  have hfind : t.findRoute c src = none := findRoute_of_lookup (h.lookup hsrc.ge c)
  have hfree : ∃ i, t.findFreeRoute = some i := by
    by_contra hno
    have hall : ∀ i, (t.routes i).active = true := by
      intro i
      have hnone : t.findFreeRoute = none := Option.eq_none_iff_forall_ne_some.mpr fun j hj =>
        hno ⟨j, hj⟩
      have hfalse := Fin.eq_false_of_find?_eq_none hnone i
      rwa [Bool.not_eq_false'] at hfalse
    have hcard := h.card
    rw [Finset.filter_true_of_mem fun i _ => hall i, Finset.card_univ, Fintype.card_fin] at hcard
    omega
  obtain ⟨i, hi⟩ := hfree
  have hinactive := findFreeRoute_some hi
  have hroutes : (t.quarantine c src true).1.routes =
      Function.update t.routes i (makeDiscardRoute c src) := by
    unfold quarantine
    rw [hfind, hi]
    rfl
  refine ⟨?_, fun j hj => ?_⟩
  · have hinsert : (Finset.univ.filter fun j =>
        ((t.quarantine c src true).1.routes j).active = true) =
        insert i (Finset.univ.filter fun j => (t.routes j).active = true) := by
      ext j
      rw [hroutes, Finset.mem_insert, Finset.mem_filter, Finset.mem_filter]
      by_cases hj : j = i
      · subst hj
        simp [makeDiscardRoute]
      · simp [hj]
    rw [hinsert, Finset.card_insert_of_notMem, h.card]
    rw [Finset.mem_filter, hinactive]
    exact fun hmem => Bool.false_ne_true hmem.2
  · rw [hroutes] at hj ⊢
    by_cases hji : j = i
    · subst hji
      rw [Function.update_self]
      exact hsrc ▸ Nat.lt_succ_self _
    · rw [Function.update_of_ne hji] at hj ⊢
      exact (h.ids j hj).trans (Nat.lt_succ_self k)

theorem Fills.full (h : t.Fills fileRouteCapacity) : t.findFreeRoute = none := by
  by_contra hne
  obtain ⟨i, hi⟩ := Option.ne_none_iff_exists'.mp hne
  have hlt : (Finset.univ.filter fun i => (t.routes i).active = true).card <
      (Finset.univ : Finset (Fin fileRouteCapacity)).card := by
    refine Finset.card_lt_card (Finset.filter_ssubset.mpr ⟨i, Finset.mem_univ i, ?_⟩)
    rw [findFreeRoute_some hi]
    exact Bool.false_ne_true
  rw [h.card, Finset.card_univ, Fintype.card_fin] at hlt
  exact absurd hlt (lt_irrefl _)

end FileRoutes

theorem ann_fills (k : ℕ) (hk : k ≤ fileRouteCapacity) : ∃ s w, server.Reachable s ∧
    s.Waits 0 ann w ∧ s.shared.routes.Fills k := by
  induction k with
  | zero =>
    obtain ⟨s, w, hs, hwaits, hroutes⟩ := ann_waits
    refine ⟨s, w, hs, hwaits, ?_, fun i hi => ?_⟩
    · rw [hroutes, Finset.card_eq_zero, Finset.filter_eq_empty_iff]
      exact fun i _ => Bool.false_ne_true
    · rw [hroutes] at hi
      cases hi
  | succ k ih =>
    obtain ⟨s, w, hs, hwaits, hfills⟩ := ih (Nat.le_of_succ_le hk)
    have hcap : fileRouteCapacity = 400 := rfl
    have hsrc : (UInt32.ofNat k).toNat = k := by
      rw [UInt32.toNat_ofNat', Nat.mod_eq_of_lt (by omega)]
    have hlive : s.shared.routes.live (ann.id, .ofNat k) = none := by
      rw [live, hfills.lookup hsrc.ge, Option.filter_none]
    obtain ⟨s₀, s₁, s₂, -, -, w₂, -, -, -, hst₀, -, -, -, hstep, -, hst₂, -, hroutes, hwaits₂⟩ :=
      hwaits.rejects (by decide +kernel) (Server.wf_of_reach hs).routes hlive
    refine ⟨s₂, w₂, hs.steps ((hst₀.tail hstep).trans hst₂), hwaits₂, ?_⟩
    rw [hroutes]
    exact hfills.next hk hsrc ann.id

theorem Server.Waits.ends {s : Server} {n : ℕ} {u : Session} {w : Worker} (h : s.Waits n u w)
    (src : UInt32) {answer : FinishAnswer} {t' : FileRoutes}
    (hfinish : s.shared.routes.finish u.id src true = (t', answer)) :
    ∃ s' w' p text, text.length ≤ bufferSize ∧ server.Steps s s' ∧
      s'.shared = { s.shared with routes := t' } ∧
      s'.log = s.log ++ [.received u.id (FrameType.fileEnd.toByte :: writeU32 src),
        .did u.id (.routesFinish u.id src true) answer] ∧
      s'.threads n = .handling u w' p ∧
      (answer.result = .missing → p = .op (.queueFrame u.id .text text) fun _ => .ret true) ∧
      (answer.result = .discard → p = .ret true) ∧
      w'.outgoingLength = 0 ∧ w'.writeWait = .none ∧ w'.progress = true := by
  have hmax := frameMaxSize_eq
  obtain ⟨k, text, hlength, hhandler, hmissing, hdiscard⟩ :=
    handleClientFrame_end h.idle.id_ne src
  obtain ⟨s₀, w₀, hst₀, hsh₀, hlog₀, hn₀, -, hout, hwait, hprogress⟩ := h.handles
    (FrameType.fileEnd.toByte :: writeU32 src) (by simp) (by simp; omega)
    (show isValidFrameType FrameType.fileEnd.toByte = true by decide)
  rw [hhandler] at hn₀
  have hperform : perform {} s₀.shared (.routesFinish u.id src true) =
      (answer, { s.shared with routes := t' }) := by
    rw [hsh₀]
    simp only [perform, Shared.onRoutes, hfinish]
  have hstep := Server.performs hn₀ {}
  rw [hperform] at hstep
  refine ⟨_, w₀, k answer, text, hlength, hst₀.tail hstep, rfl, ?_, Function.update_self _ _ _,
    fun hr => ?_, fun hr => ?_, hout, hwait, hprogress⟩
  · rw [hlog₀, List.append_assoc]
    rfl
  · obtain ⟨result, endpoint⟩ := answer
    subst hr
    exact hmissing endpoint
  · obtain ⟨result, endpoint⟩ := answer
    subst hr
    exact hdiscard endpoint

/-- `ann` sends a BEGIN of 5 bytes and an END while the table has room. -/
theorem rejected_transfer_is_drained_room : ∃ s₀ s seg log, server.Reachable s₀ ∧
    server.Steps s₀ s ∧ s.log = log ++ seg ∧
    framesOf ann.id 9 seg = [FrameType.fileEnd.toByte :: writeU32 9] ∧
    ∀ pre frame mid r type payload result post, seg = pre ++ .received ann.id frame ::
        (mid ++ .did ann.id (.queueFrame r type payload) result :: post) →
      Concerns 9 frame → .returned ann.id ∉ mid → False := by
  obtain ⟨s, w, hs, hwaits, hroutes⟩ := ann_waits
  have hinv := (Server.wf_of_reach hs).routes
  have hlive : s.shared.routes.live (ann.id, 9) = none := by rw [hroutes, live_init]
  obtain ⟨s₀, s₁, s₂, w₀, p, w₂, answer, text, result, hst₀, hsh₀, hn₀, hpc, hstep, hlog₁, hst₂,
    hlog₂, hroutes₂, hwaits₂⟩ := hwaits.rejects (by decide +kernel) hinv hlive
  have hroom : s₀.shared.routes.HasRoom (ann.id, 9) := by
    rw [hsh₀, hroutes]
    exact .inl (by decide +kernel)
  have hend : decodeControl (FrameType.fileEnd.toByte :: writeU32 9) .fileEnd = .ok 9 ∨
      decodeControl (FrameType.fileEnd.toByte :: writeU32 9) .fileError = .ok 9 :=
    .inl (decodeControl_encodeControl (.inl rfl) (encodeControl_eq 9))
  obtain ⟨s₃, w₃, p₃, text₃, -, hst₃, -, hlog₃, -⟩ := hwaits₂.ends 9
    (Prod.mk.eta (p := s₂.shared.routes.finish ann.id 9 true)).symm
  have hseg : s₃.log = s₁.log ++ ([.did ann.id (.queueFrame ann.id .text text) result,
      .returned ann.id] ++ [.received ann.id (FrameType.fileEnd.toByte :: writeU32 9),
        .did ann.id (.routesFinish ann.id 9 true) (s₂.shared.routes.finish ann.id 9 true).2]) := by
    rw [hlog₃, hlog₂, List.append_assoc]
  have hframes : framesOf ann.id 9 ([.did ann.id (.queueFrame ann.id .text text) result,
      .returned ann.id] ++ [.received ann.id (FrameType.fileEnd.toByte :: writeU32 9),
        .did ann.id (.routesFinish ann.id 9 true) (s₂.shared.routes.finish ann.id 9 true).2]) =
      [FrameType.fileEnd.toByte :: writeU32 9] := by
    simp only [framesOf, List.cons_append, List.nil_append]
    rw [if_pos ⟨trivial, concerns_of_control hend⟩]
  have hrun := hst₂.trans hst₃
  refine ⟨s₀, s₃, _, s₁.log, hs.steps hst₀, (System.Steps.refl.tail hstep).trans hrun, hseg,
    hframes, ?_⟩
  intro pre frame mid r type payload result' post hsplit hcon hret
  refine (rejected_transfer_is_drained (hs.steps hst₀) hn₀ hpc rfl hstep hlog₁
    ⟨rfl, rfl, by decide +kernel⟩ hrun hseg (by rw [hframes]; exact .inr ⟨rfl, hend⟩) pre frame mid
    r type payload result' post hsplit hcon hret).2 hroom

/-- `ann` fills the table with tombstones.  Her next BEGIN leaves none, and its END is answered
with a text. -/
theorem full_table_is_not_drained : ¬∀ (s₀ s₁ s : Server) (n : ℕ) (env : Env) (u : Session)
    (w : Worker) (p : Handler Bool) (begin_ : Bytes) (src : UInt32) (o : Op) (answer : o.Resp)
    (seg : List Event), server.Reachable s₀ → s₀.threads n = .handling u w p →
    w.pc = .handle begin_ → begin_.head? = some FrameType.fileBegin.toByte →
    server.step s₀ (n, env) = some s₁ → s₁.log = s₀.log ++ [.did u.id o answer] →
    RejectsBegin u.id src begin_ o answer → server.Steps s₁ s → s.log = s₁.log ++ seg →
    WellFormed src (framesOf u.id src seg) →
    ∀ pre frame mid text, seg = pre ++ .received u.id frame ::
        (mid ++ [.did u.id (.queueFrame u.id .text text) (.ok ())]) →
      Concerns src frame → .returned u.id ∉ mid → False := by
  intro hclaim
  -- every slot of the table holds a tombstone
  obtain ⟨s, w, hs, hwaits, hfills⟩ := ann_fills fileRouteCapacity le_rfl
  have hinv := (Server.wf_of_reach hs).routes
  have hsrc : fileRouteCapacity ≤ (1000 : UInt32).toNat := by decide
  have hnone := hfills.lookup hsrc ann.id
  have hlive : s.shared.routes.live (ann.id, 1000) = none := by rw [live, hnone, Option.filter_none]
  obtain ⟨s₀, s₁, s₂, w₀, p, w₂, answer, text, result, hst₀, hsh₀, hn₀, hpc, hstep, hlog₁, hst₂,
    hlog₂, hroutes₂, hwaits₂⟩ := hwaits.rejects (by decide +kernel) hinv hlive
  -- so the rejected BEGIN leaves none, and its END meets nothing
  have hfind := findRoute_of_lookup hnone
  have hsame := quarantine_full hfind hfills.full
  have hfinish : s₂.shared.routes.finish ann.id 1000 true =
      (s.shared.routes, { result := .missing }) := by
    rw [hroutes₂, hsame]
    exact finish_missing hfind true
  obtain ⟨s₃, w₃, p₃, text₃, hlength, hst₃, hsh₃, hlog₃, hn₃, hmissing, -, -⟩ :=
    hwaits₂.ends 1000 hfinish
  rw [hmissing rfl] at hn₃
  have hstep₄ := Server.performs hn₃ { libc := { address := some 0 } }
  have hqueued : (perform { address := some 0 } s₃.shared (.queueFrame ann.id .text text₃)).1 =
    .ok () := by
    rw [hsh₃]
    exact hwaits₂.idle.queue hlength
  rw [hqueued] at hstep₄
  have hend : decodeControl (FrameType.fileEnd.toByte :: writeU32 1000) .fileEnd = .ok 1000 ∨
      decodeControl (FrameType.fileEnd.toByte :: writeU32 1000) .fileError = .ok 1000 :=
    .inl (decodeControl_encodeControl (.inl rfl) (encodeControl_eq 1000))
  refine hclaim s₀ s₁ _ 0 {} ann w₀ p (FrameType.fileBegin.toByte :: writeU32 1000) 1000
    (.routesQuarantine ann.id 1000 true) answer _ (hs.steps hst₀) hn₀ hpc rfl hstep hlog₁
    ⟨rfl, rfl, ?_⟩ ((hst₂.trans hst₃).tail hstep₄)
    (?_ : _ = s₁.log ++ ([.did ann.id (.queueFrame ann.id .text text) result, .returned ann.id] ++
      .received ann.id (FrameType.fileEnd.toByte :: writeU32 1000) ::
      ([.did ann.id (.routesFinish ann.id 1000 true) { result := .missing }] ++
        [.did ann.id (.queueFrame ann.id .text text₃) (.ok ())]))) ?_ _ _ _ _ rfl ?_ ?_
  · decide +kernel
  · dsimp only
    rw [hlog₃, hlog₂]
    simp
  · simp only [framesOf, List.cons_append, List.nil_append]
    rw [if_pos ⟨trivial, concerns_of_control hend⟩]
    exact .inr ⟨rfl, hend⟩
  · exact concerns_of_control hend
  · simp

end CipherChat
