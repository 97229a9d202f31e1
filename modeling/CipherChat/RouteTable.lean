import CipherChat.FileRoutes
import Mathlib.Data.List.Induction

/-!
# The route table as a map

Under the table invariant a key occupies at most one slot, so the table is a
partial map from keys to routes (`lookup`).  Every keyed operation is one of five
rewrites of the slot that holds, or will hold, its key (`Rewrite`); the invariant
and the frame property are proved for these five and hold for every operation.
-/

namespace CipherChat.FileRoutes

variable {t : FileRoutes} {s : ClientId} {src : UInt32}

/-- Slot `i` holds the active route with the given key. -/
def Holds (t : FileRoutes) (i : Fin fileRouteCapacity) (s : ClientId) (src : UInt32) : Prop :=
  (t.routes i).active = true ∧ (t.routes i).HasKey s src

theorem findRoute_some {i : Fin fileRouteCapacity} (h : t.findRoute s src = some i) :
    t.Holds i s src := by
  have := Fin.eq_true_of_find?_eq_some h
  simp only [Bool.and_eq_true, beq_iff_eq] at this
  exact ⟨this.1.1, this.1.2, this.2⟩

theorem findRoute_none (h : t.findRoute s src = none) (i : Fin fileRouteCapacity) :
    ¬t.Holds i s src := by
  have := Fin.eq_false_of_find?_eq_none h i
  rintro ⟨ha, hs, hk⟩
  simp [ha, hs, hk] at this

theorem findFreeRoute_some {i : Fin fileRouteCapacity} (h : t.findFreeRoute = some i) :
    (t.routes i).active = false := by
  have := Fin.eq_true_of_find?_eq_some h
  simpa using this

theorem inUse_eq_false {o : UInt32} (h : t.inUse o = false) (i : Fin fileRouteCapacity)
    (hi : (t.routes i).Live) : (t.routes i).outboundTransferId ≠ o := by
  have hall : ∀ i, (t.routes i).active = true → (t.routes i).discard = false →
      ¬(t.routes i).outboundTransferId = o := by simpa [inUse] using h
  exact hall i hi.1 hi.2

theorem allocateAttempts_spec (t : FileRoutes) (attempts : ℕ) (next : UInt32)
    (h : (t.allocateAttempts attempts next).1 ≠ 0) :
    t.inUse (t.allocateAttempts attempts next).1 = false := by
  induction attempts generalizing next with
  | zero => exact absurd rfl h
  | succ attempts ih =>
    rw [allocateAttempts] at h ⊢
    generalize (if next = 0 then next + 1 else next) = candidate at h ⊢
    by_cases hu : t.inUse candidate = true
    · rw [if_pos hu] at h ⊢
      exact ih _ h
    · rw [if_neg hu]
      simpa using hu

/-- The outbound id that an allocation hands out is forwarded by no live route. -/
theorem allocateOutboundId_fresh {o : UInt32} {t' : FileRoutes}
    (h : t.allocateOutboundId = (o, t')) (ho : o ≠ 0) : t.inUse o = false := by
  have h1 := congrArg Prod.fst h
  simp only [allocateOutboundId] at h1
  rw [← h1] at ho ⊢
  exact allocateAttempts_spec _ _ _ ho

theorem allocateOutboundId_routes {o : UInt32} {t' : FileRoutes}
    (h : t.allocateOutboundId = (o, t')) : t'.routes = t.routes := by
  have h2 := congrArg Prod.snd h
  simp only [allocateOutboundId] at h2
  rw [← h2]

/-- What an operation keyed by `(s, src)` can do to the slots. -/
inductive Rewrite (s : ClientId) (src : UInt32) (t : FileRoutes) :
    (Fin fileRouteCapacity → FileRoute) → Prop
  | keep : Rewrite s src t t.routes
  | tombstone {i} (h : t.Holds i s src) :
      Rewrite s src t (Function.update t.routes i (makeDiscardRoute s src))
  | reserve {i} (hfree : (t.routes i).active = false) (habs : ∀ j, ¬t.Holds j s src) :
      Rewrite s src t (Function.update t.routes i (makeDiscardRoute s src))
  | clear {i} (h : t.Holds i s src) : Rewrite s src t (Function.update t.routes i {})
  | advance {i} {len : UInt64} (h : t.Holds i s src) (hlive : (t.routes i).Live)
      (hlen : ¬len > (t.routes i).expectedSize - (t.routes i).forwardedSize) :
      Rewrite s src t (Function.update t.routes i
        { t.routes i with forwardedSize := (t.routes i).forwardedSize + len })
  | open {i} {tgt : ClientId} {o : UInt32} {size : UInt64} (hfree : (t.routes i).active = false)
      (habs : ∀ j, ¬t.Holds j s src) (ho : o ≠ 0) (hfresh : t.inUse o = false) :
      Rewrite s src t (Function.update t.routes i
        { active := true, senderId := s, targetId := tgt, sourceTransferId := src,
          outboundTransferId := o, expectedSize := size })

theorem add_rewrite (t : FileRoutes) (s : ClientId) (src : UInt32) (tgt : ClientId) (size : UInt64)
    (d : Bool) : Rewrite s src t (t.add s src tgt size d).1.routes := by
  unfold add
  split
  · rename_i i hi
    exact .tombstone (findRoute_some hi)
  · rename_i hn
    split
    · exact .keep
    · rename_i i hi
      split
      · exact .reserve (findFreeRoute_some hi) (findRoute_none hn)
      · split
        rename_i o t' ha
        split
        · rw [allocateOutboundId_routes ha]
          exact .keep
        · rename_i ho
          change Rewrite s src t (Function.update t'.routes i _)
          rw [allocateOutboundId_routes ha]
          exact .open (findFreeRoute_some hi) (findRoute_none hn) ho
            (allocateOutboundId_fresh ha ho)

theorem quarantine_rewrite (t : FileRoutes) (s : ClientId) (src : UInt32) (keep : Bool) :
    Rewrite s src t (t.quarantine s src keep).1.routes := by
  unfold quarantine
  split
  · rename_i i hi
    cases keep with
    | false => exact .clear (findRoute_some hi)
    | true => exact .tombstone (findRoute_some hi)
  · rename_i hn
    split
    · split
      · rename_i i hi
        exact .reserve (findFreeRoute_some hi) (findRoute_none hn)
      · exact .keep
    · exact .keep

theorem acceptChunk_rewrite (t : FileRoutes) (s : ClientId) (src : UInt32) (len : UInt64) :
    Rewrite s src t (t.acceptChunk s src len).1.routes := by
  unfold acceptChunk
  split
  · rename_i hn
    split
    · rename_i i hi
      exact .reserve (findFreeRoute_some hi) (findRoute_none hn)
    · exact .keep
  · rename_i i hi
    have hh := findRoute_some hi
    dsimp only
    split
    · exact .keep
    · rename_i hd
      split
      · exact .tombstone hh
      · rename_i hlen
        exact .advance hh ⟨hh.1, by simpa using hd⟩ fun h => hlen (.inr h)

theorem markForwardFailed_rewrite (t : FileRoutes) (s : ClientId) (src o : UInt32) :
    Rewrite s src t (t.markForwardFailed s src o).1.routes := by
  unfold markForwardFailed
  split
  · rename_i i hi
    split
    · exact .tombstone (findRoute_some hi)
    · exact .keep
  · exact .keep

theorem finish_rewrite (t : FileRoutes) (s : ClientId) (src : UInt32) (validate : Bool) :
    Rewrite s src t (t.finish s src validate).1.routes := by
  unfold finish
  split
  · exact .keep
  · rename_i i hi
    dsimp only
    split
    · exact .clear (findRoute_some hi)
    · exact .clear (findRoute_some hi)

structure Inv (t : FileRoutes) : Prop where
  key_unique : ∀ i j s src, t.Holds i s src → t.Holds j s src → i = j
  outbound_unique : ∀ i j, (t.routes i).Live → (t.routes j).Live →
    (t.routes i).outboundTransferId = (t.routes j).outboundTransferId → i = j
  outbound_ne_zero : ∀ i, (t.routes i).Live → (t.routes i).outboundTransferId ≠ 0
  forwarded_le : ∀ i, (t.routes i).Live → (t.routes i).forwardedSize ≤ (t.routes i).expectedSize
  discard_eq : ∀ i, (t.routes i).active = true → (t.routes i).discard = true →
    t.routes i = makeDiscardRoute (t.routes i).senderId (t.routes i).sourceTransferId
  inactive_eq : ∀ i, (t.routes i).active = false → t.routes i = {}

theorem inv_init : Inv init where
  key_unique i j s src h _ := by simp [Holds, init] at h
  outbound_unique i j h _ _ := by simp [FileRoute.Live, init] at h
  outbound_ne_zero i h := by simp [FileRoute.Live, init] at h
  forwarded_le i h := by simp [FileRoute.Live, init] at h
  discard_eq i h _ := by simp [init] at h
  inactive_eq i _ := rfl

theorem advance_toNat {r : FileRoute} {len : UInt64} (hle : r.forwardedSize ≤ r.expectedSize)
    (hlen : ¬len > r.expectedSize - r.forwardedSize) :
    (r.forwardedSize + len).toNat = r.forwardedSize.toNat + len.toNat ∧
      r.forwardedSize.toNat + len.toNat ≤ r.expectedSize.toNat := by
  have h1 := UInt64.le_iff_toNat_le.mp hle
  have h2 := UInt64.le_iff_toNat_le.mp (UInt64.not_lt.mp hlen)
  rw [UInt64.toNat_sub_of_le _ _ hle] at h2
  have h3 := r.expectedSize.toNat_lt
  rw [UInt64.toNat_add]
  exact ⟨Nat.mod_eq_of_lt (by omega), by omega⟩

/-- A rewritten slot keeps the invariant when the new route is well formed and
neither its key nor its outbound id is held elsewhere. -/
theorem Inv.update (h : Inv t) {t' : FileRoutes} {i : Fin fileRouteCapacity} {r : FileRoute}
    (ht' : t'.routes = Function.update t.routes i r)
    (hkey : r.active = true → ∀ j, j ≠ i → ¬t.Holds j r.senderId r.sourceTransferId)
    (hout : r.Live → r.outboundTransferId ≠ 0 ∧ r.forwardedSize ≤ r.expectedSize ∧
      ∀ j, j ≠ i → (t.routes j).Live → (t.routes j).outboundTransferId ≠ r.outboundTransferId)
    (hdisc : r.active = true → r.discard = true →
      r = makeDiscardRoute r.senderId r.sourceTransferId)
    (hinact : r.active = false → r = {}) : Inv t' := by
  have hi : t'.routes i = r := by simp [ht']
  have hj : ∀ j, j ≠ i → t'.routes j = t.routes j := fun j hj => by simp [ht', hj]
  -- what another slot holds before it holds after
  have hold : ∀ j s src, j ≠ i → t'.Holds j s src → t.Holds j s src := by
    intro j s src hne hh
    rwa [Holds, hj j hne] at hh
  refine ⟨?_, ?_, ?_, ?_, ?_, ?_⟩
  · intro a b s src ha hb
    by_cases hai : a = i <;> by_cases hbi : b = i
    · rw [hai, hbi]
    · subst hai
      obtain ⟨hact, hs, hk⟩ := ha
      rw [hi] at hact hs hk
      exact absurd (hold b s src hbi hb) (hs ▸ hk ▸ hkey hact b hbi)
    · subst hbi
      obtain ⟨hact, hs, hk⟩ := hb
      rw [hi] at hact hs hk
      exact absurd (hold a s src hai ha) (hs ▸ hk ▸ hkey hact a hai)
    · exact h.key_unique a b s src (hold a s src hai ha) (hold b s src hbi hb)
  · intro a b ha hb hab
    by_cases hai : a = i <;> by_cases hbi : b = i
    · rw [hai, hbi]
    · subst hai
      rw [hi] at ha hab
      rw [hj b hbi] at hb hab
      exact absurd hab.symm ((hout ha).2.2 b hbi hb)
    · subst hbi
      rw [hi] at hb hab
      rw [hj a hai] at ha hab
      exact absurd hab ((hout hb).2.2 a hai ha)
    · rw [hj a hai] at ha hab
      rw [hj b hbi] at hb hab
      exact h.outbound_unique a b ha hb hab
  · intro a ha
    by_cases hai : a = i
    · subst hai
      rw [hi] at ha ⊢
      exact (hout ha).1
    · rw [hj a hai] at ha ⊢
      exact h.outbound_ne_zero a ha
  · intro a ha
    by_cases hai : a = i
    · subst hai
      rw [hi] at ha ⊢
      exact (hout ha).2.1
    · rw [hj a hai] at ha ⊢
      exact h.forwarded_le a ha
  · intro a ha hd
    by_cases hai : a = i
    · subst hai
      rw [hi] at ha hd ⊢
      exact hdisc ha hd
    · rw [hj a hai] at ha hd ⊢
      exact h.discard_eq a ha hd
  · intro a ha
    by_cases hai : a = i
    · subst hai
      rw [hi] at ha ⊢
      exact hinact ha
    · rw [hj a hai] at ha ⊢
      exact h.inactive_eq a ha

theorem not_live_discard : ¬(makeDiscardRoute s src).Live := by
  simp [FileRoute.Live, makeDiscardRoute]

theorem Inv.rewrite (h : Inv t) {t' : FileRoutes} (hr : Rewrite s src t t'.routes) : Inv t' := by
  generalize ht' : t'.routes = routes' at hr
  cases hr with
  | keep =>
    refine ⟨?_, ?_, ?_, ?_, ?_, ?_⟩ <;> simp only [Holds, ht']
    exacts [h.key_unique, h.outbound_unique, h.outbound_ne_zero, h.forwarded_le, h.discard_eq,
      h.inactive_eq]
  | tombstone hh =>
    exact h.update ht' (fun _ j hj hjh => hj (h.key_unique _ _ _ _ hjh hh))
      (fun hl => absurd hl not_live_discard) (fun _ _ => rfl) (fun ha => by cases ha)
  | reserve hfree habs =>
    exact h.update ht' (fun _ j _ => habs j)
      (fun hl => absurd hl not_live_discard) (fun _ _ => rfl) (fun ha => by cases ha)
  | clear hh =>
    exact h.update ht' (fun ha => by cases ha) (fun hl => by cases hl.1) (fun ha => by cases ha)
      (fun _ => rfl)
  | @advance i len hh hlive hlen =>
    have hle := h.forwarded_le i hlive
    obtain ⟨hsum, hroom⟩ := advance_toNat hle hlen
    refine h.update ht' ?_ ?_ ?_ ?_
    · exact fun _ j hj hjh => hj (h.key_unique _ _ _ _ hjh ⟨hh.1, rfl, rfl⟩)
    · refine fun _ => ⟨h.outbound_ne_zero i hlive, ?_, ?_⟩
      · rw [UInt64.le_iff_toNat_le, hsum]
        exact hroom
      · exact fun j hj hjl hjo => hj (h.outbound_unique j i hjl hlive hjo)
    · intro _ hd
      exact absurd hd (by simp [hlive.2])
    · intro ha
      exact absurd ha (by simp [hlive.1])
  | «open» hfree habs ho hfresh =>
    exact h.update ht' (fun _ j _ => habs j)
      (fun _ => ⟨ho, by simp, fun j _ hjl => inUse_eq_false hfresh j hjl⟩)
      (fun _ hd => by cases hd) (fun ha => by cases ha)

theorem Rewrite.frame {routes' : Fin fileRouteCapacity → FileRoute}
    (hr : Rewrite s src t routes') (j : Fin fileRouteCapacity) (r : FileRoute)
    (ha : r.active = true) (hkey : ¬r.HasKey s src) : routes' j = r ↔ t.routes j = r := by
  -- the rewritten slot holds the key or nothing, before and after
  have hmain : ∀ i r', (t.Holds i s src ∨ (t.routes i).active = false) →
      (r'.active = true → r'.HasKey s src) →
      (Function.update t.routes i r' j = r ↔ t.routes j = r) := by
    intro i r' hbefore hafter
    by_cases hji : j = i
    · subst hji
      rw [Function.update_self]
      constructor
      · rintro rfl
        exact absurd (hafter ha) hkey
      · rintro rfl
        rcases hbefore with hb | hb
        · exact absurd hb.2 hkey
        · rw [ha] at hb
          cases hb
    · rw [Function.update_of_ne hji]
  have htomb : (makeDiscardRoute s src).HasKey s src := ⟨rfl, rfl⟩
  cases hr with
  | keep => exact Iff.rfl
  | tombstone h => exact hmain _ _ (.inl h) fun _ => htomb
  | reserve hfree _ => exact hmain _ _ (.inr hfree) fun _ => htomb
  | clear h => exact hmain _ _ (.inl h) fun h => by cases h
  | advance h _ _ => exact hmain _ _ (.inl h) fun _ => h.2
  | «open» hfree _ _ _ => exact hmain _ _ (.inr hfree) fun _ => ⟨rfl, rfl⟩

/-- What the sweep for `c` leaves of one route. -/
def abortRoute (c : ClientId) (r : FileRoute) : FileRoute :=
  if r.active = false ∨ (r.senderId ≠ c ∧ r.targetId ≠ c) then r
  else if r.discard = false ∧ r.targetId = c ∧ r.senderId ≠ invalidClientId ∧ r.senderId ≠ c then
    makeDiscardRoute r.senderId r.sourceTransferId
  else {}

/-- What the sweep for `c` reports of one route. -/
def abortAction (c : ClientId) (r : FileRoute) : Option FileRouteAbortAction :=
  if r.active = false ∨ r.discard = true then none
  else if r.senderId = c ∧ r.targetId ≠ invalidClientId ∧ r.targetId ≠ c then
    some { type := .sendError, clientId := r.targetId, outboundTransferId := r.outboundTransferId }
  else if r.targetId = c ∧ r.senderId ≠ invalidClientId ∧ r.senderId ≠ c then
    some { type := .notifySender, clientId := r.senderId, outboundTransferId := 0 }
  else none

theorem abortSlot_eq_visit (c : ClientId) (capacity : ℕ) :
    abortSlot c capacity = Slots.visit (abortRoute c) (abortAction c) capacity := by
  funext ⟨routes, actions⟩ index
  simp only [abortSlot, Slots.visit, abortRoute, abortAction]
  generalize hr : routes index = r
  obtain ⟨active, discard, sender, target, source, outbound, expected, forwarded⟩ := r
  by_cases hskip : active = false ∨ (sender ≠ c ∧ target ≠ c)
  · -- untouched: the sweep writes the route back and reports nothing
    have hself : Function.update routes index (routes index) = routes := Function.update_eq_self _ _
    rw [hr] at hself
    rcases hskip with rfl | ⟨hs, ht⟩
    · simp [hself]
    · cases active <;> cases discard <;> simp [hs, ht, hself]
  · obtain ⟨hact, hst⟩ := not_or.mp hskip
    obtain rfl : active = true := by simpa using hact
    cases discard with
    | true => simp [hst]
    | false =>
      by_cases hs : sender = c
      · by_cases ht : target = c
        · simp [hs, ht]
        · by_cases ht0 : target = invalidClientId <;> simp [hs, ht, ht0]
      · have ht : target = c := by
          by_contra h
          exact hst ⟨hs, h⟩
        by_cases hs0 : sender = invalidClientId <;> simp [hs, ht, hs0]

theorem abortClient_routes {c : ClientId} (hc : c ≠ invalidClientId) (capacity : ℕ)
    (i : Fin fileRouteCapacity) :
    (t.abortClient c capacity).1.routes i = abortRoute c (t.routes i) := by
  rw [abortClient, if_neg hc, abortSlot_eq_visit]
  dsimp only
  rw [Slots.sweep_fst]

theorem abortClient_actions {c : ClientId} (hc : c ≠ invalidClientId) (capacity : ℕ) :
    (t.abortClient c capacity).2 =
      ((List.finRange fileRouteCapacity).filterMap fun i => abortAction c (t.routes i)).take
        capacity := by
  rw [abortClient, if_neg hc, abortSlot_eq_visit]
  dsimp only
  rw [Slots.sweep_snd]

theorem abortRoute_cases (c : ClientId) (r : FileRoute) : abortRoute c r = r ∨
    (r.Live ∧ r.targetId = c ∧ r.senderId ≠ c ∧
      abortRoute c r = makeDiscardRoute r.senderId r.sourceTransferId) ∨
    (r.active = true ∧ abortRoute c r = {}) := by
  rw [abortRoute]
  split
  · exact .inl rfl
  · rename_i h
    have hact : r.active = true := by simpa using (not_or.mp h).1
    split
    · rename_i h'
      exact .inr (.inl ⟨⟨hact, h'.1⟩, h'.2.1, h'.2.2.2, rfl⟩)
    · exact .inr (.inr ⟨hact, rfl⟩)

theorem Inv.abortClient (h : Inv t) (c : ClientId) (capacity : ℕ) :
    Inv (t.abortClient c capacity).1 := by
  by_cases hc : c = invalidClientId
  · rwa [FileRoutes.abortClient, if_pos hc]
  have hroutes := abortClient_routes (t := t) hc capacity
  -- a slot that is still live is untouched, and a slot that is still active keeps its key
  have hlive : ∀ i, (abortRoute c (t.routes i)).Live → abortRoute c (t.routes i) = t.routes i := by
    intro i hl
    rcases abortRoute_cases c (t.routes i) with he | ⟨_, _, _, he⟩ | ⟨_, he⟩
    · exact he
    · exact absurd (he ▸ hl) not_live_discard
    · rw [he] at hl
      cases hl.1
  have hholds : ∀ i s src, (FileRoutes.abortClient t c capacity).1.Holds i s src →
    t.Holds i s src := by
    intro i s src hh
    rw [Holds, hroutes] at hh
    rcases abortRoute_cases c (t.routes i) with he | ⟨hl, _, _, he⟩ | ⟨_, he⟩
    · rwa [he] at hh
    · rw [he] at hh
      exact ⟨hl.1, hh.2⟩
    · rw [he] at hh
      cases hh.1
  refine ⟨?_, ?_, ?_, ?_, ?_, ?_⟩
  · exact fun i j s src hi hj => h.key_unique i j s src (hholds i s src hi) (hholds j s src hj)
  · intro i j hi hj hij
    rw [hroutes] at hi hj
    rw [hroutes, hroutes, hlive i hi, hlive j hj] at hij
    exact h.outbound_unique i j (hlive i hi ▸ hi) (hlive j hj ▸ hj) hij
  · intro i hi
    rw [hroutes] at hi
    rw [hroutes, hlive i hi]
    exact h.outbound_ne_zero i (hlive i hi ▸ hi)
  · intro i hi
    rw [hroutes] at hi
    rw [hroutes, hlive i hi]
    exact h.forwarded_le i (hlive i hi ▸ hi)
  · intro i ha hd
    rw [hroutes] at ha hd ⊢
    rcases abortRoute_cases c (t.routes i) with he | ⟨_, _, _, he⟩ | ⟨_, he⟩
    · rw [he] at ha hd ⊢
      exact h.discard_eq i ha hd
    · rw [he]
      rfl
    · rw [he] at ha
      cases ha
  · intro i ha
    rw [hroutes] at ha ⊢
    rcases abortRoute_cases c (t.routes i) with he | ⟨_, _, _, he⟩ | ⟨_, he⟩
    · rw [he] at ha ⊢
      exact h.inactive_eq i ha
    · rw [he] at ha
      cases ha
    · exact he

/-- A call of the table's interface. -/
inductive Call
  | init
  | add (senderId : ClientId) (sourceTransferId : UInt32) (targetId : ClientId)
      (expectedSize : UInt64) (discard : Bool)
  | quarantine (senderId : ClientId) (sourceTransferId : UInt32) (keepDiscard : Bool)
  | acceptChunk (senderId : ClientId) (sourceTransferId : UInt32) (chunkLength : UInt64)
  | markForwardFailed (senderId : ClientId) (sourceTransferId outboundTransferId : UInt32)
  | finish (senderId : ClientId) (sourceTransferId : UInt32) (validateSize : Bool)
  | abortClient (clientId : ClientId) (actionCapacity : ℕ)

/-- The table after a call. -/
def Call.run (t : FileRoutes) : Call → FileRoutes
  | .init => FileRoutes.init
  | .add s src tgt size d => (t.add s src tgt size d).1
  | .quarantine s src keep => (t.quarantine s src keep).1
  | .acceptChunk s src len => (t.acceptChunk s src len).1
  | .markForwardFailed s src o => (t.markForwardFailed s src o).1
  | .finish s src validate => (t.finish s src validate).1
  | .abortClient c capacity => (t.abortClient c capacity).1

/-- The key of a keyed call. -/
def Call.key : Call → Option (ClientId × UInt32)
  | .init => none
  | .add s src _ _ _ | .quarantine s src _ | .acceptChunk s src _ | .markForwardFailed s src _
  | .finish s src _ => some (s, src)
  | .abortClient _ _ => none

theorem Call.run_rewrite (t : FileRoutes) {call : Call} (h : call.key = some (s, src)) :
    Rewrite s src t (call.run t).routes := by
  cases call with
  | init => cases h
  | abortClient => cases h
  | add s src tgt size d =>
    cases h
    simp only [run]
    exact add_rewrite t s src tgt size d
  | quarantine s src keep =>
    cases h
    simp only [run]
    exact quarantine_rewrite t s src keep
  | acceptChunk s src len =>
    cases h
    simp only [run]
    exact acceptChunk_rewrite t s src len
  | markForwardFailed s src o =>
    cases h
    simp only [run]
    exact markForwardFailed_rewrite t s src o
  | finish s src validate =>
    cases h
    simp only [run]
    exact finish_rewrite t s src validate

theorem Inv.run (h : Inv t) (call : Call) : Inv (call.run t) := by
  cases hk : call.key with
  | some key => exact h.rewrite (Call.run_rewrite t hk)
  | none =>
    cases call with
    | init => exact inv_init
    | abortClient c capacity => exact h.abortClient c capacity
    | _ => cases hk

theorem inv_foldl (calls : List Call) : Inv (calls.foldl Call.run init) := by
  induction calls using List.reverseRecOn with
  | nil => exact inv_init
  | append_singleton calls call ih =>
    rw [List.foldl_append]
    exact ih.run call

/-- After any calls whatever: active keys and live outbound ids are unique, live ids
are non-zero, a live route never forwards past its declared size (so no accepted
chunk wraps the sum and the first overrun test is dead), tombstones carry nothing but
their key, free slots are zero; and a keyed call changes no route with another key. -/
theorem route_table_invariant (calls : List Call) :
    let t := calls.foldl Call.run init
    (∀ i j, (t.routes i).active = true → (t.routes j).active = true →
      (t.routes i).senderId = (t.routes j).senderId →
      (t.routes i).sourceTransferId = (t.routes j).sourceTransferId → i = j) ∧
    (∀ i j, (t.routes i).Live → (t.routes j).Live →
      (t.routes i).outboundTransferId = (t.routes j).outboundTransferId → i = j) ∧
    (∀ i, (t.routes i).Live → (t.routes i).outboundTransferId ≠ 0) ∧
    (∀ i, (t.routes i).Live → (t.routes i).forwardedSize ≤ (t.routes i).expectedSize ∧
      ∀ len : UInt64, ¬len > (t.routes i).expectedSize - (t.routes i).forwardedSize →
        (t.routes i).forwardedSize.toNat + len.toNat < 2 ^ 64) ∧
    (∀ i, (t.routes i).discard = true → (t.routes i).active = true ∧
      (t.routes i).targetId = invalidClientId ∧ (t.routes i).outboundTransferId = 0 ∧
      (t.routes i).expectedSize = 0 ∧ (t.routes i).forwardedSize = 0) ∧
    (∀ i, (t.routes i).active = false → t.routes i = {}) ∧
    (∀ call s src, Call.key call = some (s, src) → ∀ i (r : FileRoute), r.active = true →
      ¬r.HasKey s src → ((call.run t).routes i = r ↔ t.routes i = r)) := by
  intro t
  have h : Inv t := inv_foldl calls
  refine ⟨?_, h.outbound_unique, h.outbound_ne_zero, ?_, ?_, h.inactive_eq, ?_⟩
  · intro i j hi hj hs hk
    exact h.key_unique i j _ _ ⟨hi, rfl, rfl⟩ ⟨hj, hs.symm, hk.symm⟩
  · intro i hi
    refine ⟨h.forwarded_le i hi, fun len hlen => ?_⟩
    have := (advance_toNat (h.forwarded_le i hi) hlen).2
    have := (t.routes i).expectedSize.toNat_lt
    omega
  · intro i hd
    have ha : (t.routes i).active = true := by
      by_contra hn
      rw [h.inactive_eq i (by simpa using hn)] at hd
      cases hd
    have he := h.discard_eq i ha hd
    rw [he]
    exact ⟨rfl, rfl, rfl, rfl, rfl⟩
  · intro call s src hk i r ha hkey
    exact (Call.run_rewrite t hk).frame i r ha hkey

end CipherChat.FileRoutes
