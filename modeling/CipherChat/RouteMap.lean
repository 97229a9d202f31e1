import CipherChat.RouteTable

/-!
# The route table as a map

Under the table invariant a key occupies at most one slot, so the table is a partial
map from keys to routes.  Each operation is given here by what it does to that map
and what it answers.
-/

namespace CipherChat

/-- The ERRORs among the actions of an abort. -/
def FileRouteAbortAction.error? (action : FileRouteAbortAction) : Option FileRouteEndpoint :=
  match action.type with
  | .sendError =>
    if action.clientId = invalidClientId then none
    else some { targetId := action.clientId, outboundTransferId := action.outboundTransferId }
  | .notifySender => none

namespace FileRoutes

abbrev Key := ClientId × UInt32

/-- The active route under a key. -/
def lookup (t : FileRoutes) (k : Key) : Option FileRoute := (t.findRoute k.1 k.2).map t.routes

variable {t t' : FileRoutes} {s : ClientId} {src : UInt32}

theorem lookup_eq_some (h : Inv t) {k : Key} {r : FileRoute} :
    t.lookup k = some r ↔ ∃ i, t.Holds i k.1 k.2 ∧ t.routes i = r := by
  rw [lookup, Option.map_eq_some_iff]
  constructor
  · rintro ⟨i, hi, hr⟩
    exact ⟨i, findRoute_some hi, hr⟩
  · rintro ⟨i, hi, hr⟩
    cases hf : t.findRoute k.1 k.2 with
    | none => exact absurd hi (findRoute_none hf i)
    | some j =>
      rw [h.key_unique i j _ _ hi (findRoute_some hf)] at hr
      exact ⟨j, rfl, hr⟩

theorem lookup_eq_none {k : Key} : t.lookup k = none ↔ ∀ i, ¬t.Holds i k.1 k.2 := by
  rw [lookup, Option.map_eq_none_iff]
  constructor
  · exact fun hf => findRoute_none hf
  · intro hno
    cases hf : t.findRoute k.1 k.2 with
    | none => rfl
    | some i => exact absurd (findRoute_some hf) (hno i)

theorem lookup_of_find {i : Fin fileRouteCapacity} (h : t.findRoute s src = some i) :
    t.lookup (s, src) = some (t.routes i) := by
  rw [lookup, h]
  rfl

theorem lookup_init (k : Key) : init.lookup k = none := by
  rw [lookup_eq_none]
  rintro i ⟨ha, -⟩
  cases ha

theorem lookup_hasKey (h : Inv t) {k : Key} {r : FileRoute} (hk : t.lookup k = some r) :
    r.active = true ∧ r.senderId = k.1 ∧ r.sourceTransferId = k.2 := by
  obtain ⟨i, ⟨ha, hs, hsrc⟩, rfl⟩ := (lookup_eq_some h).mp hk
  exact ⟨ha, hs, hsrc⟩

theorem lookup_tombstone (h : Inv t) {k : Key} {r : FileRoute} (hk : t.lookup k = some r)
    (hd : r.discard = true) : r = makeDiscardRoute k.1 k.2 := by
  obtain ⟨i, ⟨ha, hs, hsrc⟩, rfl⟩ := (lookup_eq_some h).mp hk
  rw [← hs, ← hsrc]
  exact h.discard_eq i ha hd

/-- The live route under a key. -/
def live (t : FileRoutes) (k : Key) : Option FileRoute :=
  (t.lookup k).filter fun r => !r.discard

theorem live_eq_some {k : Key} {r : FileRoute} :
    t.live k = some r ↔ t.lookup k = some r ∧ r.discard = false := by
  rw [live, Option.filter_eq_some_iff, Bool.not_eq_true']

theorem live_congr (h : t'.lookup = t.lookup) : t'.live = t.live := by
  funext k
  rw [live, live, h]

theorem live_update {k : Key} {v : Option FileRoute}
    (h : t'.lookup = Function.update t.lookup k v) :
    t'.live = Function.update t.live k (v.filter fun r => !r.discard) := by
  funext k'
  rw [live, h]
  by_cases hk : k' = k
  · rw [hk, Function.update_self, Function.update_self]
  · rw [Function.update_of_ne hk, Function.update_of_ne hk, live]

theorem live_ended {k : Key} {v : Option FileRoute}
    (h : t'.lookup = Function.update t.lookup k v) (hv : ∀ r ∈ v, r.discard = true) :
    t'.live = Function.update t.live k none := by
  rw [live_update h]
  congr
  rw [Option.filter_eq_none_iff]
  intro r hr
  rw [hv r hr]
  decide

theorem live_eq_none {k : Key} (h : ∀ r, t.lookup k = some r → r.discard = true) :
    t.live k = none := by
  rw [live, Option.filter_eq_none_iff]
  intro r hr
  rw [h r hr]
  decide

theorem live_same {k : Key} (h : t'.lookup = t.lookup) (hk : ∀ r, t.lookup k = some r →
    r.discard = true) :
    t'.live = Function.update t.live k none := by
  rw [live_congr h, ← live_eq_none hk, Function.update_eq_self]

theorem live_init (k : Key) : init.live k = none := by rw [live, lookup_init, Option.filter_none]

theorem live_inj (h : Inv t) {k k' : Key} {r r' : FileRoute} (hk : t.live k = some r)
    (hk' : t.live k' = some r') (ho : r.outboundTransferId = r'.outboundTransferId) : k = k' := by
  obtain ⟨hl, hd⟩ := live_eq_some.mp hk
  obtain ⟨hl', hd'⟩ := live_eq_some.mp hk'
  obtain ⟨i, ⟨ha, hs, hsrc⟩, rfl⟩ := (lookup_eq_some h).mp hl
  obtain ⟨j, ⟨ha', hs', hsrc'⟩, rfl⟩ := (lookup_eq_some h).mp hl'
  obtain rfl := h.outbound_unique i j ⟨ha, hd⟩ ⟨ha', hd'⟩ ho
  exact Prod.ext (hs.symm.trans hs') (hsrc.symm.trans hsrc')

theorem live_iff (h : Inv t) {r : FileRoute} :
    t.live (r.senderId, r.sourceTransferId) = some r ↔ r.Live ∧ ∃ i, t.routes i = r := by
  rw [live_eq_some, lookup_eq_some h]
  constructor
  · rintro ⟨⟨i, hi, rfl⟩, hd⟩
    exact ⟨⟨hi.1, hd⟩, i, rfl⟩
  · rintro ⟨hl, i, rfl⟩
    exact ⟨⟨i, ⟨hl.1, rfl, rfl⟩, rfl⟩, hl.2⟩

theorem lookup_set (h : Inv t) (h' : Inv t') {i : Fin fileRouteCapacity} {r : FileRoute}
    (ht' : t'.routes = Function.update t.routes i r)
    (hi : t.Holds i s src ∨ (t.routes i).active = false ∧ ∀ j, ¬t.Holds j s src)
    (hr : r.active = true → r.HasKey s src) :
    t'.lookup = Function.update t.lookup (s, src) (if r.active then some r else none) := by
  have hself : t'.routes i = r := by rw [ht', Function.update_self]
  have hne : ∀ j, j ≠ i → t'.routes j = t.routes j :=
    fun j hj => by rw [ht', Function.update_of_ne hj]
  -- the key is in no slot but this one
  have honly : ∀ j, t.Holds j s src → j = i := by
    intro j hj
    rcases hi with hi | ⟨-, hno⟩
    · exact h.key_unique j i s src hj hi
    · exact absurd hj (hno j)
  funext k
  by_cases hk : k = (s, src)
  · subst hk
    rw [Function.update_self]
    split
    · next ha =>
      refine (lookup_eq_some h').mpr ⟨i, ⟨?_, ?_⟩, hself⟩
      · rw [hself, ha]
      · rw [hself]
        exact hr ha
    · next ha =>
      refine lookup_eq_none.mpr fun j hj => ?_
      by_cases hji : j = i
      · rw [hji, Holds, hself] at hj
        exact ha hj.1
      · rw [Holds, hne j hji] at hj
        exact hji (honly j hj)
  -- another key is found where it was
  · rw [Function.update_of_ne hk]
    refine Option.ext fun ρ => ?_
    rw [lookup_eq_some h', lookup_eq_some h]
    constructor
    · rintro ⟨j, hj, hρ⟩
      have hji : j ≠ i := by
        rintro rfl
        rw [Holds, hself] at hj
        obtain ⟨hs, hsrc⟩ := hr hj.1
        exact hk (Prod.ext (hj.2.1.symm.trans hs) (hj.2.2.symm.trans hsrc))
      rw [Holds, hne j hji] at hj
      exact ⟨j, hj, (hne j hji) ▸ hρ⟩
    · rintro ⟨j, hj, hρ⟩
      have hji : j ≠ i := by
        rintro rfl
        rcases hi with hi | ⟨hfree, -⟩
        · exact hk (Prod.ext (hj.2.1.symm.trans hi.2.1) (hj.2.2.symm.trans hi.2.2))
        · rw [hj.1] at hfree
          cases hfree
      exact ⟨j, by rw [Holds, hne j hji]; exact hj, by rw [hne j hji]; exact hρ⟩

theorem inUse_eq_false_of_live (h : Inv t) {o : UInt32}
    (ho : ∀ k r, t.live k = some r → r.outboundTransferId ≠ o) : t.inUse o = false := by
  have hall : ∀ i, (t.routes i).active = true → (t.routes i).discard = false →
      ¬(t.routes i).outboundTransferId = o := by
    intro i ha hd
    exact ho _ _ ((live_iff h).mpr ⟨⟨ha, hd⟩, i, rfl⟩)
  simpa [inUse] using hall

theorem allocateOutboundId_first (h0 : t.nextOutboundTransferId ≠ 0)
    (hfree : t.inUse t.nextOutboundTransferId = false) :
    t.allocateOutboundId = (t.nextOutboundTransferId,
      { t with nextOutboundTransferId := t.nextOutboundTransferId + 1 }) := by
  rw [allocateOutboundId, allocateAttempts, if_neg h0, hfree]
  rfl

/-- `file_routes_add`. -/
inductive Added (t : FileRoutes) (s : ClientId) (src : UInt32) (tgt : ClientId) (size : UInt64)
    (discard : Bool) : FileRoutes → AddAnswer → Prop
  | duplicate {t' : FileRoutes} {r : FileRoute} (hk : t.lookup (s, src) = some r)
      (hl : t'.lookup = Function.update t.lookup (s, src) (some (makeDiscardRoute s src)))
      (hn : t'.nextOutboundTransferId = t.nextOutboundTransferId) :
      Added t s src tgt size discard t'
        { result := .duplicate, replaced := if r.discard then {} else copyEndpoint r }
  | full (hk : t.lookup (s, src) = none) : Added t s src tgt size discard t { result := .full }
  | unavailable {t' : FileRoutes} (hk : t.lookup (s, src) = none)
      (ha : t.allocateOutboundId.1 = 0) (hl : t'.lookup = t.lookup) :
      Added t s src tgt size discard t' { result := .idUnavailable }
  | discard {t' : FileRoutes} (hk : t.lookup (s, src) = none) (hd : discard = true)
      (hl : t'.lookup = Function.update t.lookup (s, src) (some (makeDiscardRoute s src)))
      (hn : t'.nextOutboundTransferId = t.nextOutboundTransferId) :
      Added t s src tgt size discard t' { result := .discard }
  | ready {t' : FileRoutes} {o : UInt32} (hk : t.lookup (s, src) = none) (hd : discard = false)
      (ho : t.allocateOutboundId.1 = o) (ho0 : o ≠ 0)
      (hl : t'.lookup = Function.update t.lookup (s, src) (some
        { active := true, senderId := s, targetId := tgt, sourceTransferId := src,
          outboundTransferId := o, expectedSize := size }))
      (hn : t'.nextOutboundTransferId = t.allocateOutboundId.2.nextOutboundTransferId) :
      Added t s src tgt size discard t'
        { result := .ready, endpoint := { targetId := tgt, outboundTransferId := o } }

theorem add_added (h : Inv t) (s : ClientId) (src : UInt32) (tgt : ClientId) (size : UInt64)
    (d : Bool) : Added t s src tgt size d (t.add s src tgt size d).1
      (t.add s src tgt size d).2 := by
  have h' : Inv (t.add s src tgt size d).1 := h.run (.add s src tgt size d)
  unfold add at h' ⊢
  split at h'
  · rename_i i hi
    exact .duplicate (lookup_of_find hi)
      (lookup_set h h' rfl (.inl (findRoute_some hi)) fun _ => ⟨rfl, rfl⟩) rfl
  · rename_i hn
    have hno := findRoute_none hn
    split at h'
    · exact .full (lookup_eq_none.mpr hno)
    · rename_i i hi
      have hfree := findFreeRoute_some hi
      split at h'
      · next hd =>
        rw [if_pos hd]
        exact .discard (lookup_eq_none.mpr hno) hd
          (lookup_set h h' rfl (.inr ⟨hfree, hno⟩) fun _ => ⟨rfl, rfl⟩) rfl
      · next hd =>
        rw [if_neg hd]
        rcases ha : t.allocateOutboundId with ⟨o, t₁⟩
        rw [ha] at h'
        have hroutes := allocateOutboundId_routes ha
        dsimp only at h' ⊢
        split at h'
        · next ho =>
          rw [if_pos ho]
          refine .unavailable (lookup_eq_none.mpr hno) (by rw [ha, ho]) ?_
          funext k
          rw [lookup, lookup, findRoute, hroutes]
          rfl
        · next ho =>
          rw [if_neg ho]
          let added : FileRoute :=
            { active := true, senderId := s, targetId := tgt, sourceTransferId := src,
              outboundTransferId := o, expectedSize := size }
          have hset : (t₁.set i added).routes = Function.update t.routes i added := by
            rw [set, hroutes]
          exact .ready (lookup_eq_none.mpr hno) (eq_false_of_ne_true hd) (by rw [ha]) ho
            (lookup_set h h' hset (.inr ⟨hfree, hno⟩) fun _ => ⟨rfl, rfl⟩) (by rw [ha]; rfl)

/-- `file_routes_quarantine`. -/
inductive Quarantined (t : FileRoutes) (s : ClientId) (src : UInt32) (keep : Bool) :
    FileRoutes → QuarantineAnswer → Prop
  | found {t' : FileRoutes} {r : FileRoute} (hk : t.lookup (s, src) = some r)
      (hl : t'.lookup = Function.update t.lookup (s, src)
        (if keep then some (makeDiscardRoute s src) else none))
      (hn : t'.nextOutboundTransferId = t.nextOutboundTransferId) :
      Quarantined t s src keep t' (if r.discard then { wasForwarding := false }
        else { wasForwarding := true, previous := copyEndpoint r })
  | absent {t' : FileRoutes} (hk : t.lookup (s, src) = none)
      (hl : t'.lookup = t.lookup ∨
        t'.lookup = Function.update t.lookup (s, src) (some (makeDiscardRoute s src)))
      (hn : t'.nextOutboundTransferId = t.nextOutboundTransferId) :
      Quarantined t s src keep t' { wasForwarding := false }

theorem quarantine_quarantined (h : Inv t) (s : ClientId) (src : UInt32) (keep : Bool) :
    Quarantined t s src keep (t.quarantine s src keep).1 (t.quarantine s src keep).2 := by
  have h' : Inv (t.quarantine s src keep).1 := h.run (.quarantine s src keep)
  unfold quarantine at h' ⊢
  split at h'
  · rename_i i hi
    refine .found (lookup_of_find hi) ?_ rfl
    rw [lookup_set h h' rfl (.inl (findRoute_some hi))]
    · cases keep <;> rfl
    · cases keep with
      | false => exact fun ha => by cases ha
      | true => exact fun _ => ⟨rfl, rfl⟩
  · rename_i hn
    have hno := findRoute_none hn
    split at h'
    · next hk =>
      rw [if_pos hk]
      split at h'
      · rename_i i hi
        exact .absent (lookup_eq_none.mpr hno) (.inr (lookup_set h h' rfl
          (.inr ⟨findFreeRoute_some hi, hno⟩) fun _ => ⟨rfl, rfl⟩)) rfl
      · exact .absent (lookup_eq_none.mpr hno) (.inl rfl) rfl
    · next hk =>
      rw [if_neg hk]
      exact .absent (lookup_eq_none.mpr hno) (.inl rfl) rfl

/-- `file_routes_accept_chunk`. -/
inductive Chunked (t : FileRoutes) (s : ClientId) (src : UInt32) (len : UInt64) :
    FileRoutes → ChunkAnswer → Prop
  | missing {t' : FileRoutes} (hk : t.lookup (s, src) = none)
      (hl : t'.lookup = t.lookup ∨
        t'.lookup = Function.update t.lookup (s, src) (some (makeDiscardRoute s src)))
      (hn : t'.nextOutboundTransferId = t.nextOutboundTransferId) :
      Chunked t s src len t' { result := .missing }
  | discard {r : FileRoute} (hk : t.lookup (s, src) = some r) (hd : r.discard = true) :
      Chunked t s src len t { result := .discard }
  | overrun {t' : FileRoutes} {r : FileRoute} (hk : t.live (s, src) = some r)
      (hl : t'.lookup = Function.update t.lookup (s, src) (some (makeDiscardRoute s src)))
      (hn : t'.nextOutboundTransferId = t.nextOutboundTransferId) :
      Chunked t s src len t' { result := .overrun, endpoint := copyEndpoint r }
  | ready {t' : FileRoutes} {r r' : FileRoute} (hk : t.live (s, src) = some r)
      (hr' : r' = { r with forwardedSize := r.forwardedSize + len })
      (hlen : r'.forwardedSize.toNat = r.forwardedSize.toNat + len.toNat)
      (hle : r.forwardedSize.toNat + len.toNat ≤ r.expectedSize.toNat)
      (hl : t'.lookup = Function.update t.lookup (s, src) (some r'))
      (hn : t'.nextOutboundTransferId = t.nextOutboundTransferId) :
      Chunked t s src len t' { result := .ready, endpoint := copyEndpoint r }

theorem acceptChunk_chunked (h : Inv t) (s : ClientId) (src : UInt32) (len : UInt64) :
    Chunked t s src len (t.acceptChunk s src len).1 (t.acceptChunk s src len).2 := by
  have h' : Inv (t.acceptChunk s src len).1 := h.run (.acceptChunk s src len)
  unfold acceptChunk at h' ⊢
  split at h'
  · rename_i hn
    have hno := findRoute_none hn
    split at h'
    · rename_i i hi
      exact .missing (lookup_eq_none.mpr hno) (.inr (lookup_set h h' rfl
        (.inr ⟨findFreeRoute_some hi, hno⟩) fun _ => ⟨rfl, rfl⟩)) rfl
    · exact .missing (lookup_eq_none.mpr hno) (.inl rfl) rfl
  · rename_i i hi
    have hh := findRoute_some hi
    dsimp only at h' ⊢
    split at h'
    · next hd =>
      rw [if_pos hd]
      exact .discard (lookup_of_find hi) hd
    · next hd =>
      rw [if_neg hd]
      have hlive : t.live (s, src) = some (t.routes i) :=
        live_eq_some.mpr ⟨lookup_of_find hi, by simpa using hd⟩
      split at h'
      · next hover =>
        rw [if_pos hover]
        exact .overrun hlive (lookup_set h h' rfl (.inl hh) fun _ => ⟨rfl, rfl⟩) rfl
      · next hover =>
        rw [if_neg hover]
        obtain ⟨hsum, hle⟩ := advance_toNat (h.forwarded_le i ⟨hh.1, by simpa using hd⟩)
          (not_or.mp hover).2
        refine .ready hlive rfl hsum hle ?_ rfl
        rw [lookup_set h h' rfl (.inl hh) fun _ => hh.2, if_pos (show _ = true from hh.1)]

/-- `file_routes_mark_forward_failed`. -/
inductive Marked (t : FileRoutes) (s : ClientId) (src o : UInt32) : FileRoutes → Bool → Prop
  | converted {t' : FileRoutes} {r : FileRoute} (hk : t.live (s, src) = some r)
      (ho : r.outboundTransferId = o)
      (hl : t'.lookup = Function.update t.lookup (s, src) (some (makeDiscardRoute s src)))
      (hn : t'.nextOutboundTransferId = t.nextOutboundTransferId) : Marked t s src o t' true
  | kept (hk : ∀ r, t.live (s, src) = some r → r.outboundTransferId ≠ o) : Marked t s src o t false

theorem markForwardFailed_marked (h : Inv t) (s : ClientId) (src o : UInt32) :
    Marked t s src o (t.markForwardFailed s src o).1 (t.markForwardFailed s src o).2 := by
  have h' : Inv (t.markForwardFailed s src o).1 := h.run (.markForwardFailed s src o)
  unfold markForwardFailed at h' ⊢
  split at h'
  · rename_i i hi
    split at h'
    · next hc =>
      rw [if_pos hc]
      exact .converted (live_eq_some.mpr ⟨lookup_of_find hi, hc.1⟩) hc.2
        (lookup_set h h' rfl (.inl (findRoute_some hi)) fun _ => ⟨rfl, rfl⟩) rfl
    · next hc =>
      rw [if_neg hc]
      refine .kept fun r hr ho => hc ?_
      obtain ⟨hl, hd⟩ := live_eq_some.mp hr
      rw [lookup_of_find hi] at hl
      cases hl
      exact ⟨hd, ho⟩
  · rename_i hn
    refine .kept fun r hr => ?_
    have hnone : t.lookup (s, src) = none := lookup_eq_none.mpr (findRoute_none hn)
    rw [live_eq_some, hnone] at hr
    cases hr.1

/-- `file_routes_finish`. -/
inductive Finished (t : FileRoutes) (s : ClientId) (src : UInt32) (validate : Bool) :
    FileRoutes → FinishAnswer → Prop
  | missing (hk : t.lookup (s, src) = none) : Finished t s src validate t { result := .missing }
  | discard {t' : FileRoutes} {r : FileRoute} (hk : t.lookup (s, src) = some r)
      (hd : r.discard = true) (hl : t'.lookup = Function.update t.lookup (s, src) none)
      (hn : t'.nextOutboundTransferId = t.nextOutboundTransferId) :
      Finished t s src validate t' { result := .discard }
  | finished {t' : FileRoutes} {r : FileRoute} (hk : t.live (s, src) = some r)
      (hl : t'.lookup = Function.update t.lookup (s, src) none)
      (hn : t'.nextOutboundTransferId = t.nextOutboundTransferId) :
      Finished t s src validate t'
        { result := if validate ∧ r.forwardedSize ≠ r.expectedSize then .incomplete else .ready
          endpoint := copyEndpoint r }

theorem finish_finished (h : Inv t) (s : ClientId) (src : UInt32) (validate : Bool) :
    Finished t s src validate (t.finish s src validate).1 (t.finish s src validate).2 := by
  have h' : Inv (t.finish s src validate).1 := h.run (.finish s src validate)
  unfold finish at h' ⊢
  split at h'
  · rename_i hn
    exact .missing (lookup_eq_none.mpr (findRoute_none hn))
  · rename_i i hi
    dsimp only at h' ⊢
    have hclear : ∀ h' : Inv (t.set i {}),
        (t.set i {}).lookup = Function.update t.lookup (s, src) none :=
      fun h' => lookup_set h h' rfl (.inl (findRoute_some hi)) fun ha => by cases ha
    split at h'
    · next hd =>
      rw [if_pos hd]
      exact .discard (lookup_of_find hi) hd (hclear h') rfl
    · next hd =>
      rw [if_neg hd]
      exact .finished (live_eq_some.mpr ⟨lookup_of_find hi, by simpa using hd⟩) (hclear h') rfl

theorem live_tombstoned (hl : t'.lookup = Function.update t.lookup (s, src)
    (some (makeDiscardRoute s src))) : t'.live = Function.update t.live (s, src) none := by
  refine live_ended hl fun r hr => ?_
  cases hr
  rfl

theorem live_absent (hk : t.lookup (s, src) = none) (hl : t'.lookup = t.lookup ∨
    t'.lookup = Function.update t.lookup (s, src) (some (makeDiscardRoute s src))) :
    t'.live = Function.update t.live (s, src) none := by
  rcases hl with hl | hl
  · exact live_same hl fun r hr => by rw [hk] at hr; cases hr
  · exact live_tombstoned hl

theorem Quarantined.ended {keep : Bool} {answer : QuarantineAnswer}
    (h : Quarantined t s src keep t' answer) :
    t'.live = Function.update t.live (s, src) none ∧
    t'.nextOutboundTransferId = t.nextOutboundTransferId ∧
    (answer.wasForwarding = false ∨ ∃ r, t.live (s, src) = some r ∧
      answer.wasForwarding = true ∧ answer.previous = copyEndpoint r) := by
  cases h with
  | @found r hk hl hn =>
    refine ⟨live_ended hl ?_, hn, ?_⟩
    · intro r' hr'
      cases keep with
      | false => cases hr'
      | true =>
        cases hr'
        rfl
    · cases hd : r.discard with
      | true => exact .inl rfl
      | false => exact .inr ⟨r, live_eq_some.mpr ⟨hk, hd⟩, rfl, rfl⟩
  | absent hk hl hn => exact ⟨live_absent hk hl, hn, .inl rfl⟩

theorem Chunked.ended {len : UInt64} {answer : ChunkAnswer} (h : Chunked t s src len t' answer)
    (hready : answer.result ≠ .ready) :
    t'.live = Function.update t.live (s, src) none ∧
    t'.nextOutboundTransferId = t.nextOutboundTransferId ∧
    (answer.result ≠ .overrun ∨ ∃ r, t.live (s, src) = some r ∧
      answer.result = .overrun ∧ answer.endpoint = copyEndpoint r) := by
  cases h with
  | missing hk hl hn => exact ⟨live_absent hk hl, hn, .inl (by simp)⟩
  | discard hk hd =>
    refine ⟨live_same rfl fun r hr => ?_, rfl, .inl (by simp)⟩
    rw [hk] at hr
    cases hr
    exact hd
  | overrun hk hl hn => exact ⟨live_tombstoned hl, hn, .inr ⟨_, hk, rfl, rfl⟩⟩
  | ready => exact absurd rfl hready

theorem Finished.ended {validate : Bool} {answer : FinishAnswer}
    (h : Finished t s src validate t' answer) :
    t'.live = Function.update t.live (s, src) none ∧
    t'.nextOutboundTransferId = t.nextOutboundTransferId ∧
    (answer.result = .missing ∨ answer.result = .discard ∨ ∃ r, t.live (s, src) = some r ∧
      answer.result = (if validate ∧ r.forwardedSize ≠ r.expectedSize then .incomplete else
        .ready) ∧
      answer.endpoint = copyEndpoint r) := by
  cases h with
  | missing hk => exact ⟨live_absent hk (.inl rfl), rfl, .inl rfl⟩
  | discard hk hd hl hn => exact ⟨live_ended hl (fun r hr => by cases hr), hn, .inr (.inl rfl)⟩
  | finished hk hl hn =>
    exact ⟨live_ended hl (fun r hr => by cases hr), hn, .inr (.inr ⟨_, hk, rfl, rfl⟩)⟩

theorem Added.ended {tgt : ClientId} {size : UInt64} {discard : Bool} {answer : AddAnswer}
    (h : Added t s src tgt size discard t' answer) (hready : answer.result ≠ .ready)
    (havail : answer.result ≠ .idUnavailable) :
    t'.live = Function.update t.live (s, src) none ∧
    t'.nextOutboundTransferId = t.nextOutboundTransferId ∧
    (answer.result ≠ .duplicate ∨ answer.result = .duplicate ∧ answer.replaced = {} ∨
      ∃ r, t.live (s, src) = some r ∧ answer.result = .duplicate ∧
        answer.replaced = copyEndpoint r) := by
  cases h with
  | @duplicate _ r hk hl hn =>
    refine ⟨live_tombstoned hl, hn, .inr ?_⟩
    cases hd : r.discard with
    | true => exact .inl ⟨rfl, rfl⟩
    | false => exact .inr ⟨r, live_eq_some.mpr ⟨hk, hd⟩, rfl, rfl⟩
  | full hk => exact ⟨live_absent hk (.inl rfl), rfl, .inl (by simp)⟩
  | unavailable => exact absurd rfl havail
  | discard hk hd hl hn => exact ⟨live_tombstoned hl, hn, .inl (by simp)⟩
  | ready => exact absurd rfl hready

variable {c : ClientId}

theorem abortClient_lookup (h : Inv t) (hc : c ≠ invalidClientId) (capacity : ℕ) (k : Key) :
    (t.abortClient c capacity).1.lookup k = (t.lookup k).bind fun r =>
      if (abortRoute c r).active then some (abortRoute c r) else none := by
  have h' := h.abortClient c capacity
  have hroutes := abortClient_routes (t := t) hc capacity
  have hkey : ∀ r, (abortRoute c r).active = true → r.active = true ∧
      (abortRoute c r).senderId = r.senderId ∧
      (abortRoute c r).sourceTransferId = r.sourceTransferId := by
    intro r ha
    rcases abortRoute_cases c r with he | ⟨hl, -, -, he⟩ | ⟨-, he⟩
    · rw [he] at ha ⊢
      exact ⟨ha, rfl, rfl⟩
    · rw [he]
      exact ⟨hl.1, rfl, rfl⟩
    · rw [he] at ha
      cases ha
  refine Option.ext fun ρ => ?_
  rw [lookup_eq_some h', Option.bind_eq_some_iff]
  constructor
  · rintro ⟨i, ⟨ha, hs, hsrc⟩, hρ⟩
    rw [hroutes] at ha hs hsrc hρ
    obtain ⟨hact, hs', hsrc'⟩ := hkey _ ha
    refine ⟨t.routes i, (lookup_eq_some h).mpr ⟨i, ⟨hact, hs' ▸ hs, hsrc' ▸ hsrc⟩, rfl⟩, ?_⟩
    rw [if_pos ha, hρ]
  · rintro ⟨r, hr, hρ⟩
    obtain ⟨i, ⟨hact, hs, hsrc⟩, rfl⟩ := (lookup_eq_some h).mp hr
    split at hρ
    · next ha =>
      obtain ⟨-, hs', hsrc'⟩ := hkey _ ha
      refine ⟨i, ⟨?_, ?_, ?_⟩, ?_⟩
      · rw [hroutes, ha]
      · rw [hroutes, hs', hs]
      · rw [hroutes, hsrc', hsrc]
      · rw [hroutes]
        exact Option.some.inj hρ
    · cases hρ

theorem abortClient_next (t : FileRoutes) (c : ClientId) (capacity : ℕ) :
    (t.abortClient c capacity).1.nextOutboundTransferId = t.nextOutboundTransferId := by
  rw [abortClient]
  split <;> rfl

/-- No route of the client is left. -/
theorem abortClient_lookup_self (h : Inv t) (hc : c ≠ invalidClientId) (capacity : ℕ)
    (src : UInt32) : (t.abortClient c capacity).1.lookup (c, src) = none := by
  rw [abortClient_lookup h hc, Option.bind_eq_none_iff]
  intro r hr
  obtain ⟨ha, hs, -⟩ := lookup_hasKey h hr
  rw [if_neg]
  rcases abortRoute_cases c r with he | ⟨-, -, hne, -⟩ | ⟨-, he⟩
  · rw [abortRoute, if_neg (by simp [ha, hs])] at he ⊢
    rw [if_neg (by simp [hs])]
    decide
  · exact absurd hs hne
  · rw [he]
    decide

/-- The routes that stay live neither come from the client nor go to it. -/
theorem abortClient_live (h : Inv t) (hc : c ≠ invalidClientId) (capacity : ℕ) {k : Key}
    {r : FileRoute} : (t.abortClient c capacity).1.live k = some r ↔
      t.live k = some r ∧ k.1 ≠ c ∧ r.targetId ≠ c := by
  rw [live_eq_some, live_eq_some, abortClient_lookup h hc, Option.bind_eq_some_iff]
  constructor
  · rintro ⟨⟨r₀, hr₀, hr⟩, hd⟩
    obtain ⟨ha, hs, -⟩ := lookup_hasKey h hr₀
    split at hr
    · cases hr
      rw [abortRoute] at hd ⊢
      split_ifs at hd ⊢ with h1 h2
      · rcases h1 with h1 | ⟨h1, h2⟩
        · rw [ha] at h1
          cases h1
        · exact ⟨⟨hr₀, hd⟩, hs ▸ h1, h2⟩
      · cases hd
      · next hact => rw [abortRoute, if_neg h1, if_neg h2] at hact; cases hact
    · cases hr
  · rintro ⟨⟨hr, hd⟩, hk, ht⟩
    obtain ⟨ha, hs, -⟩ := lookup_hasKey h hr
    have hsame : abortRoute c r = r := by rw [abortRoute, if_pos (.inr ⟨hs ▸ hk, ht⟩)]
    exact ⟨⟨r, hr, by rw [hsame, if_pos ha]⟩, hd⟩

/-- A route of another client stays under its key, as a tombstone when it went to `c`. -/
theorem abortClient_lookup_other (h : Inv t) (capacity : ℕ) {k : Key} {r : FileRoute}
    (hk : k.1 ≠ c) (h0 : k.1 ≠ invalidClientId) (hr : t.lookup k = some r) :
    (t.abortClient c capacity).1.lookup k = some r ∨
      (t.abortClient c capacity).1.lookup k = some (makeDiscardRoute k.1 k.2) := by
  by_cases hc : c = invalidClientId
  · left
    rw [abortClient, if_pos hc]
    exact hr
  obtain ⟨hact, hs, hsrc⟩ := lookup_hasKey h hr
  rw [abortClient_lookup h hc, hr, Option.bind_some]
  by_cases htgt : r.targetId = c
  · have hd : r.discard = false := by
      rw [← Bool.not_eq_true]
      intro hd
      rw [lookup_tombstone h hr hd] at htgt
      exact hc htgt.symm
    have hroute : abortRoute c r = makeDiscardRoute k.1 k.2 := by
      rw [abortRoute, if_neg, if_pos ⟨hd, htgt, hs ▸ h0, hs ▸ hk⟩, hs, hsrc]
      simp [hact, htgt]
    rw [hroute]
    exact .inr rfl
  · have hroute : abortRoute c r = r := by rw [abortRoute, if_pos (.inr ⟨hs ▸ hk, htgt⟩)]
    rw [hroute, if_pos hact]
    exact .inl rfl

/-- The sweep ends the routes to the client; other clients' routes are otherwise untouched. -/
theorem abortClient_live_other (h : Inv t) (capacity : ℕ) {k : Key} (hk : k.1 ≠ c) :
    (t.abortClient c capacity).1.live k = t.live k ∨
    (t.abortClient c capacity).1.live k = none ∧ ∃ r, t.live k = some r ∧ r.targetId = c := by
  by_cases hc : c = invalidClientId
  · left
    rw [abortClient, if_pos hc]
  have hlive := fun r => abortClient_live h hc capacity (k := k) (r := r)
  cases hr : t.live k with
  | none =>
    left
    rw [Option.eq_none_iff_forall_not_mem]
    intro r hr'
    have := ((hlive r).mp hr').1
    rw [hr] at this
    cases this
  | some r =>
    by_cases htgt : r.targetId = c
    · refine .inr ⟨?_, r, rfl, htgt⟩
      rw [Option.eq_none_iff_forall_not_mem]
      intro r' hr'
      obtain ⟨hr₀, -, hne⟩ := (hlive r').mp hr'
      rw [hr] at hr₀
      cases hr₀
      exact hne htgt
    · exact .inl ((hlive r).mpr ⟨hr, hk, htgt⟩)

def routeError (c : ClientId) (r : FileRoute) : Option FileRouteEndpoint :=
  if r.Live ∧ r.senderId = c ∧ r.targetId ≠ invalidClientId ∧ r.targetId ≠ c then
    some (copyEndpoint r)
  else none

theorem abortAction_error (c : ClientId) (r : FileRoute) :
    (abortAction c r).bind FileRouteAbortAction.error? = routeError c r := by
  rw [abortAction, routeError]
  by_cases hl : r.active = false ∨ r.discard = true
  · have hnl : ¬r.Live := by
      rintro ⟨ha, hd⟩
      rcases hl with hl | hl
      · rw [ha] at hl
        cases hl
      · rw [hd] at hl
        cases hl
    rw [if_pos hl, if_neg fun h => hnl h.1]
    rfl
  · have hlive : r.Live := by
      obtain ⟨ha, hd⟩ := not_or.mp hl
      exact ⟨by simpa using ha, by simpa using hd⟩
    rw [if_neg hl]
    by_cases hs : r.senderId = c ∧ r.targetId ≠ invalidClientId ∧ r.targetId ≠ c
    · rw [if_pos hs, if_pos ⟨hlive, hs⟩, Option.bind_some, FileRouteAbortAction.error?]
      dsimp only
      rw [if_neg hs.2.1]
      rfl
    · have hno : ¬(r.Live ∧ r.senderId = c ∧ r.targetId ≠ invalidClientId ∧ r.targetId ≠ c) :=
        fun h => hs h.2
      rw [if_neg hs, if_neg hno]
      split <;> rfl

theorem abortClient_errors (hc : c ≠ invalidClientId) :
    (t.abortClient c fileRouteCapacity).2.filterMap FileRouteAbortAction.error? =
      (List.finRange fileRouteCapacity).filterMap fun i => routeError c (t.routes i) := by
  rw [abortClient_actions hc, List.take_of_length_le, List.filterMap_filterMap]
  · exact List.filterMap_congr fun i _ => abortAction_error c (t.routes i)
  · exact (List.length_filterMap_le _ _).trans (List.length_finRange).le

/-- An ERROR is owed for each route that the client was forwarding, -/
theorem mem_abortClient_errors (h : Inv t) (hc : c ≠ invalidClientId) {e : FileRouteEndpoint} :
    e ∈ (t.abortClient c fileRouteCapacity).2.filterMap FileRouteAbortAction.error? ↔
      ∃ src r, t.live (c, src) = some r ∧ r.targetId ≠ invalidClientId ∧ r.targetId ≠ c ∧
        e = copyEndpoint r := by
  rw [abortClient_errors hc, List.mem_filterMap]
  constructor
  · rintro ⟨i, -, hi⟩
    rw [routeError] at hi
    split at hi
    · next hr =>
      obtain ⟨hl, rfl, h0, ht⟩ := hr
      exact ⟨_, _, (live_iff h).mpr ⟨hl, i, rfl⟩, h0, ht, (Option.some.inj hi).symm⟩
    · cases hi
  · rintro ⟨src, r, hr, h0, ht, rfl⟩
    obtain ⟨hl, hd⟩ := live_eq_some.mp hr
    obtain ⟨i, ⟨ha, hs, -⟩, rfl⟩ := (lookup_eq_some h).mp hl
    exact ⟨i, List.mem_finRange i, if_pos ⟨⟨ha, hd⟩, hs, h0, ht⟩⟩

theorem nodup_abortClient_errors (h : Inv t) (hc : c ≠ invalidClientId) :
    (((t.abortClient c fileRouteCapacity).2.filterMap FileRouteAbortAction.error?).map
      FileRouteEndpoint.outboundTransferId).Nodup := by
  rw [abortClient_errors hc, List.map_filterMap]
  refine List.Nodup.filterMap ?_ (List.nodup_finRange _)
  intro i j o hi hj
  have hspec : ∀ i, o ∈ (routeError c (t.routes i)).map FileRouteEndpoint.outboundTransferId →
      (t.routes i).Live ∧ (t.routes i).outboundTransferId = o := by
    intro i hi
    rw [routeError] at hi
    split at hi
    · next hr => exact ⟨hr.1, by simpa [copyEndpoint] using hi⟩
    · cases hi
  obtain ⟨hli, hoi⟩ := hspec i hi
  obtain ⟨hlj, hoj⟩ := hspec j hj
  exact h.outbound_unique i j hli hlj (hoi.trans hoj.symm)

end FileRoutes

end CipherChat
