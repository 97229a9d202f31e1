import CipherChat.RouteMap

/-!
# The abort of a client

`file_routes_abort_client` visits every slot once.  It ends the routes that the client sends,
with an ERROR owed to each target, and turns those that it receives into tombstones, with a
notice owed to each sender.
-/

namespace CipherChat.FileRoutes

variable {t : FileRoutes} {c : ClientId}

def sentBy (t : FileRoutes) (clientId : ClientId) : List (Fin fileRouteCapacity) :=
  (List.finRange fileRouteCapacity).filter fun i => decide ((t.routes i).Live ∧
    (t.routes i).senderId = clientId ∧ (t.routes i).targetId ≠ invalidClientId)

def sentTo (t : FileRoutes) (clientId : ClientId) : List (Fin fileRouteCapacity) :=
  (List.finRange fileRouteCapacity).filter fun i => decide ((t.routes i).Live ∧
    (t.routes i).targetId = clientId ∧ (t.routes i).senderId ≠ invalidClientId)

/-- What is owed to the target of a route that ends. -/
def sendError (r : FileRoute) : FileRouteAbortAction where
  type := .sendError
  clientId := r.targetId
  outboundTransferId := r.outboundTransferId

/-- What is owed to the sender of a route that ends. -/
def notifySender (r : FileRoute) : FileRouteAbortAction where
  type := .notifySender
  clientId := r.senderId
  outboundTransferId := 0

def NoSelfRoute (t : FileRoutes) : Prop :=
  ∀ i, (t.routes i).Live → (t.routes i).senderId ≠ (t.routes i).targetId

theorem abortClient_perm (hself : t.NoSelfRoute) (hc : c ≠ invalidClientId) :
    (t.abortClient c fileRouteCapacity).2.Perm
      ((t.sentBy c).map (fun i => sendError (t.routes i)) ++
        (t.sentTo c).map fun i => notifySender (t.routes i)) := by
  rw [abortClient_actions hc, List.take_of_length_le]
  · refine Slots.filterMap_perm (fun i hi => ?_) (fun i hi => ?_) (fun i hi hi' => ?_) _
    · obtain ⟨hlive, hs, h0⟩ := of_decide_eq_true hi
      have htarget : (t.routes i).targetId ≠ c := hs ▸ (hself i hlive).symm
      refine ⟨decide_eq_false fun h => htarget h.2.1, ?_⟩
      rw [abortAction, if_neg (by simp [hlive.1, hlive.2]), if_pos ⟨hs, h0, htarget⟩]
      rfl
    · obtain ⟨hlive, htarget, h0⟩ := of_decide_eq_true hi
      have hs : (t.routes i).senderId ≠ c := htarget ▸ hself i hlive
      rw [abortAction, if_neg (by simp [hlive.1, hlive.2]), if_neg fun h => hs h.1,
        if_pos ⟨htarget, h0, hs⟩]
      rfl
    · have hi := of_decide_eq_false hi
      have hi' := of_decide_eq_false hi'
      rw [abortAction]
      split
      · rfl
      · next hactive =>
        obtain ⟨ha, hd⟩ := not_or.mp hactive
        have hlive : (t.routes i).Live := ⟨by simpa using ha, by simpa using hd⟩
        rw [if_neg fun h => hi ⟨hlive, h.1, h.2.1⟩, if_neg fun h => hi' ⟨hlive, h.1, h.2.1⟩]
  · exact (List.length_filterMap_le _ _).trans (List.length_finRange).le

theorem abortClient_twice (hc : c ≠ invalidClientId)
    (hnone : ∀ i, (t.routes i).active = true → (t.routes i).senderId ≠ c ∧
      (t.routes i).targetId ≠ c)
    (capacity : ℕ) : t.abortClient c capacity = (t, []) := by
  have hskip : ∀ i, (t.routes i).active = false ∨
      ((t.routes i).senderId ≠ c ∧ (t.routes i).targetId ≠ c) := by
    intro i
    cases ha : (t.routes i).active with
    | false => exact .inl rfl
    | true => exact .inr (hnone i ha)
  have hroutes : (t.abortClient c capacity).1.routes = t.routes := by
    funext i
    rw [abortClient_routes hc, abortRoute, if_pos (hskip i)]
  have hactions : (t.abortClient c capacity).2 = [] := by
    rw [abortClient_actions hc, List.filterMap_eq_nil_iff.mpr, List.take_nil]
    intro i _
    rw [abortAction]
    rcases hskip i with ha | ⟨hs, htarget⟩
    · rw [if_pos (.inl ha)]
    · split
      · rfl
      · rw [if_neg fun h => hs h.1, if_neg fun h => htarget h.1]
  have hnext := abortClient_next t c capacity
  rcases hsweep : t.abortClient c capacity with ⟨t', actions⟩
  rw [hsweep] at hroutes hactions hnext
  obtain ⟨routes, next⟩ := t
  obtain ⟨routes', next'⟩ := t'
  dsimp only at hroutes hactions hnext
  subst hroutes hactions hnext
  rfl

theorem abortClient_active (hc : c ≠ invalidClientId) (capacity : ℕ) {i : Fin fileRouteCapacity}
    (h : ((t.abortClient c capacity).1.routes i).active = true) :
    ((t.abortClient c capacity).1.routes i).senderId ≠ c ∧
      ((t.abortClient c capacity).1.routes i).targetId ≠ c := by
  rw [abortClient_routes hc] at h ⊢
  rw [abortRoute] at h ⊢
  split at h
  · next hskip =>
    rw [if_pos hskip]
    exact hskip.resolve_left fun ha => Bool.false_ne_true (ha.symm.trans h)
  · next hskip =>
    rw [if_neg hskip]
    split at h
    · next htomb =>
      rw [if_pos htomb]
      exact ⟨htomb.2.2.2, hc.symm⟩
    · cases h

theorem abortClient_sentTo (hself : t.NoSelfRoute) (hc : c ≠ invalidClientId) (capacity : ℕ)
    {i : Fin fileRouteCapacity} (hlive : (t.routes i).Live) (htarget : (t.routes i).targetId = c)
    (h0 : (t.routes i).senderId ≠ invalidClientId) : (t.abortClient c capacity).1.routes i =
      makeDiscardRoute (t.routes i).senderId (t.routes i).sourceTransferId := by
  have hs : (t.routes i).senderId ≠ c := htarget ▸ hself i hlive
  rw [abortClient_routes hc, abortRoute, if_neg, if_pos ⟨hlive.2, htarget, h0, hs⟩]
  rintro (ha | ⟨-, hne⟩)
  · exact Bool.false_ne_true (ha.symm.trans hlive.1)
  · exact hne htarget

theorem abortClient_other (h : t.Inv) (hc : c ≠ invalidClientId) (capacity : ℕ)
    {i : Fin fileRouteCapacity} (hs : (t.routes i).senderId ≠ c)
    (hto : ¬((t.routes i).Live ∧ (t.routes i).targetId = c)) :
    (t.abortClient c capacity).1.routes i = t.routes i := by
  rw [abortClient_routes hc, abortRoute]
  refine if_pos ?_
  cases ha : (t.routes i).active with
  | false => exact .inl rfl
  | true =>
    refine .inr ⟨hs, fun htarget => ?_⟩
    cases hd : (t.routes i).discard with
    | false => exact hto ⟨⟨ha, hd⟩, htarget⟩
    | true =>
      -- a tombstone has no target
      rw [h.discard_eq i ha hd] at htarget
      exact hc htarget.symm

/-- The abort reports each route of the client once and nothing else, ends them, and leaves
every other route as it is; done again, it does nothing. -/
theorem abort_is_exact (h : t.Inv) (hself : t.NoSelfRoute) (hc : c ≠ invalidClientId) :
    (t.abortClient c fileRouteCapacity).2.Perm
      ((t.sentBy c).map (fun i => sendError (t.routes i)) ++
        (t.sentTo c).map fun i => notifySender (t.routes i)) ∧
    (∀ i, ((t.abortClient c fileRouteCapacity).1.routes i).active = true →
      ((t.abortClient c fileRouteCapacity).1.routes i).senderId ≠ c) ∧
    (∀ i, (t.routes i).Live → (t.routes i).targetId = c →
      (t.routes i).senderId ≠ invalidClientId → (t.abortClient c fileRouteCapacity).1.routes i =
        makeDiscardRoute (t.routes i).senderId (t.routes i).sourceTransferId) ∧
    (∀ i, (t.routes i).senderId ≠ c → ¬((t.routes i).Live ∧ (t.routes i).targetId = c) →
      (t.abortClient c fileRouteCapacity).1.routes i = t.routes i) ∧
    (t.abortClient c fileRouteCapacity).1.nextOutboundTransferId = t.nextOutboundTransferId ∧
    (t.abortClient c fileRouteCapacity).1.abortClient c fileRouteCapacity =
      ((t.abortClient c fileRouteCapacity).1, []) := by
  refine ⟨abortClient_perm hself hc, ?_, ?_, ?_, abortClient_next t c _, ?_⟩
  · exact fun i ha => (abortClient_active hc _ ha).1
  · exact fun i hlive htarget h0 => abortClient_sentTo hself hc _ hlive htarget h0
  · exact fun i hs hto => abortClient_other h hc _ hs hto
  · exact abortClient_twice hc (fun i ha => abortClient_active hc _ ha) _

def sampleRoutes : FileRoutes :=
  [Call.add 1 7 2 10 false, Call.add 2 8 1 10 false].foldl Call.run init

theorem sampleRoutes_inv : sampleRoutes.Inv := inv_foldl _

theorem sampleRoutes_noSelfRoute : sampleRoutes.NoSelfRoute := by
  unfold NoSelfRoute
  decide +kernel

theorem abort_is_exact_two : (sampleRoutes.abortClient 1 fileRouteCapacity).2.Perm
      ((sampleRoutes.sentBy 1).map (fun i => sendError (sampleRoutes.routes i)) ++
        (sampleRoutes.sentTo 1).map fun i => notifySender (sampleRoutes.routes i)) ∧
    (sampleRoutes.sentBy 1).length = 1 ∧ (sampleRoutes.sentTo 1).length = 1 := by
  have hexact := abort_is_exact (c := 1) sampleRoutes_inv sampleRoutes_noSelfRoute (by decide)
  refine ⟨hexact.1, ?_, ?_⟩
  · decide +kernel
  · decide +kernel

def zeroRoutes : FileRoutes :=
  [Call.add 0 7 1 10 false, Call.add 1 8 0 10 false].foldl Call.run init

/-- The guards for the id 0: neither route is reported, and the one to client 1 leaves no
tombstone. -/
theorem abort_skips_zero : zeroRoutes.Inv ∧ zeroRoutes.NoSelfRoute ∧
    (∃ i, (zeroRoutes.routes i).Live ∧ (zeroRoutes.routes i).targetId = 1 ∧
      ((zeroRoutes.abortClient 1 fileRouteCapacity).1.routes i).active = false) ∧
    (∃ i, (zeroRoutes.routes i).Live ∧ (zeroRoutes.routes i).senderId = 1) ∧
    (zeroRoutes.abortClient 1 fileRouteCapacity).2 = [] := by
  refine ⟨inv_foldl _, ?_, ?_, ?_, ?_⟩
  · unfold NoSelfRoute
    decide +kernel
  · decide +kernel
  · decide +kernel
  · decide +kernel

end CipherChat.FileRoutes
