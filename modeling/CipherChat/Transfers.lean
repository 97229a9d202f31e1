import CipherChat.Notices
import CipherChat.RouteSteps

/-!
# Transfers in the log

The route table is determined by the operations of the log.  A transfer is the frames
that a client sends under one id.
-/

namespace CipherChat

open FileRoutes

/-- What an operation does to the route table. -/
def FileRoutes.after (t : FileRoutes) : Op → FileRoutes
  | .routesAdd s src tgt size discard => (t.add s src tgt size discard).1
  | .routesQuarantine s src keep => (t.quarantine s src keep).1
  | .routesAcceptChunk s src len => (t.acceptChunk s src len).1
  | .routesMarkForwardFailed s src o => (t.markForwardFailed s src o).1
  | .routesFinish s src validate => (t.finish s src validate).1
  | .routesAbortClient c capacity => (t.abortClient c capacity).1
  | _ => t

def Event.routes (t : FileRoutes) : Event → FileRoutes
  | .did _ o _ => t.after o
  | _ => t

/-- The route table after the operations of a log. -/
def routesAt (log : List Event) : FileRoutes := log.foldl Event.routes .init

theorem routesAt_concat (log : List Event) (e : Event) :
    routesAt (log ++ [e]) = e.routes (routesAt log) := by
  rw [routesAt, List.foldl_append]
  rfl

theorem perform_routes (libc : Libc) (x : Shared) (o : Op) :
    (perform libc x o).2.routes = x.routes.after o := by
  cases o <;> simp only [perform, Shared.onClients, Shared.onRoutes, FileRoutes.after]

theorem routesAt_append_of_none {log evs : List Event} (h : ∀ e ∈ evs, e.client = none) :
    routesAt (log ++ evs) = routesAt log := by
  induction evs generalizing log with
  | nil => rw [List.append_nil]
  | cons e evs ih =>
    rw [List.append_cons, ih fun e' he' => h e' (List.mem_cons_of_mem e he'), routesAt_concat]
    cases e with
    | did c o r => cases h _ List.mem_cons_self
    | _ => rfl

theorem Server.routes_eq {ok : Server → Label → Prop} {s : Server} (hs : server.Reach ok s) :
    s.shared.routes = routesAt s.log := by
  refine Server.effect_invariant (P := fun x log => x.routes = routesAt log) rfl ?_ hs
  intro s l x' evs _ _ heff hold
  cases heff with
  | pass hr _ hevs => rw [routesAt_append_of_none hevs, hr, hold]
  | received u frame _ _ _ =>
    rw [routesAt_concat, hold]
    rfl
  | abort u hr _ _ =>
    rw [routesAt_concat, hr, hold]
    rfl
  | did u o _ _ => rw [routesAt_concat, Event.routes, perform_routes, hold]
  | returned u _ =>
    rw [routesAt_concat, hold]
    rfl

theorem Server.routesAt_inv {ok : Server → Label → Prop} {s : Server} (hs : server.Reach ok s) :
    (routesAt s.log).Inv := by
  rw [← Server.routes_eq hs]
  exact (Server.wf_of_reach hs).routes

/-- The rule for what holds of the log: each event is logged by a step of its own. -/
theorem Server.log_invariant {ok : Server → Label → Prop} {P : List Event → Prop} (h0 : P [])
    (hstep : ∀ (s s' : Server) l e, server.Reach ok s → ok s l → server.step s l = some s' →
      s'.log = s.log ++ [e] → P s.log → P (s.log ++ [e]))
    {s : Server} (hs : server.Reach ok s) : P s.log := by
  refine hs.invariant (P := fun s => P s.log) h0 ?_
  rintro s ⟨n, env⟩ s' hr hok hold h
  obtain ⟨x', t', evs, hturn, hs'⟩ := Server.step_turn h
  have hlog : s'.log = s.log ++ evs := by rw [hs']
  rcases hturn.events with rfl | ⟨e, rfl⟩
  · rw [hlog, List.append_nil]
    exact hold
  · rw [hlog]
    exact hstep s s' (n, env) e hr hok h hlog hold

/-- The key of the route that an operation works on. -/
def Op.key : Op → Option Key
  | .routesAdd s src _ _ _ | .routesQuarantine s src _ | .routesAcceptChunk s src _
  | .routesMarkForwardFailed s src _ | .routesFinish s src _ => some (s, src)
  | _ => none

section

variable {t t' : FileRoutes} {k : Key}

theorem lookup_of_update {k' : Key} {v : Option FileRoute}
    (h : t'.lookup = t.lookup ∨ t'.lookup = Function.update t.lookup k' v) (hne : k' ≠ k) :
    t'.lookup k = t.lookup k := by
  rcases h with h | h
  · rw [h]
  · rw [h, Function.update_of_ne hne.symm]

/-- An operation leaves every route alone but the one it works on. -/
theorem after_lookup_of_ne (hinv : t.Inv) {o : Op} (hk : o.key ≠ some k)
    (hsweep : ∀ d capacity, o ≠ .routesAbortClient d capacity) :
    (t.after o).lookup k = t.lookup k := by
  have hne : ∀ {k' : Key}, o.key = some k' → k' ≠ k := by
    rintro k' hkey rfl
    exact hk hkey
  cases o with
  | routesAdd s src tgt size discard =>
    have hadd := add_added hinv s src tgt size discard
    rw [FileRoutes.after]
    generalize (t.add s src tgt size discard).1 = t' at hadd
    generalize (t.add s src tgt size discard).2 = answer at hadd
    cases hadd with
    | duplicate _ hl _ => exact lookup_of_update (.inr hl) (hne rfl)
    | full _ => rfl
    | unavailable _ _ hl => rw [hl]
    | discard _ _ hl _ => exact lookup_of_update (.inr hl) (hne rfl)
    | ready _ _ _ _ hl _ => exact lookup_of_update (.inr hl) (hne rfl)
  | routesQuarantine s src keep =>
    have hquarantine := quarantine_quarantined hinv s src keep
    rw [FileRoutes.after]
    generalize (t.quarantine s src keep).1 = t' at hquarantine
    generalize (t.quarantine s src keep).2 = answer at hquarantine
    cases hquarantine with
    | found _ hl _ => exact lookup_of_update (.inr hl) (hne rfl)
    | absent _ hl _ => exact lookup_of_update hl (hne rfl)
  | routesAcceptChunk s src len =>
    have hchunk := acceptChunk_chunked hinv s src len
    rw [FileRoutes.after]
    generalize (t.acceptChunk s src len).1 = t' at hchunk
    generalize (t.acceptChunk s src len).2 = answer at hchunk
    cases hchunk with
    | missing _ hl _ => exact lookup_of_update hl (hne rfl)
    | discard _ _ => rfl
    | overrun _ hl _ => exact lookup_of_update (.inr hl) (hne rfl)
    | ready _ _ _ _ hl _ => exact lookup_of_update (.inr hl) (hne rfl)
  | routesMarkForwardFailed s src out =>
    have hmark := markForwardFailed_marked hinv s src out
    rw [FileRoutes.after]
    generalize (t.markForwardFailed s src out).1 = t' at hmark
    generalize (t.markForwardFailed s src out).2 = answer at hmark
    cases hmark with
    | converted _ _ hl _ => exact lookup_of_update (.inr hl) (hne rfl)
    | kept _ => rfl
  | routesFinish s src validate =>
    have hfinish := finish_finished hinv s src validate
    rw [FileRoutes.after]
    generalize (t.finish s src validate).1 = t' at hfinish
    generalize (t.finish s src validate).2 = answer at hfinish
    cases hfinish with
    | missing _ => rfl
    | discard _ _ hl _ => exact lookup_of_update (.inr hl) (hne rfl)
    | finished _ hl _ => exact lookup_of_update (.inr hl) (hne rfl)
  | routesAbortClient d capacity => exact absurd rfl (hsweep d capacity)
  | _ => rfl

theorem abortClient_lookup_none (hinv : t.Inv) (d : ClientId) (capacity : ℕ)
    (hk : t.lookup k = none) : (t.abortClient d capacity).1.lookup k = none := by
  by_cases hd : d = invalidClientId
  · rw [FileRoutes.abortClient, if_pos hd]
    exact hk
  · rw [abortClient_lookup hinv hd, hk, Option.bind_none]

/-- The END and the ERROR of a transfer leave nothing under its key. -/
theorem finish_lookup (hinv : t.Inv) (s : ClientId) (src : UInt32) (validate : Bool) :
    (t.finish s src validate).1.lookup (s, src) = none := by
  have hfinish := finish_finished hinv s src validate
  generalize (t.finish s src validate).1 = t' at hfinish
  generalize (t.finish s src validate).2 = answer at hfinish
  cases hfinish with
  | missing hk => exact hk
  | discard _ _ hl _ => rw [hl, Function.update_self]
  | finished _ hl _ => rw [hl, Function.update_self]

theorem quarantine_lookup (hinv : t.Inv) (s : ClientId) (src : UInt32) :
    (t.quarantine s src false).1.lookup (s, src) = none := by
  have hquarantine := quarantine_quarantined hinv s src false
  cases hfind : t.findRoute s src with
  | none =>
    have hkeep : (t.quarantine s src false).1 = t := by
      unfold quarantine
      split
      · next i hi =>
        rw [hfind] at hi
        cases hi
      · exact congrArg Prod.fst (if_neg Bool.false_ne_true)
    rw [hkeep, lookup, hfind]
    rfl
  | some i =>
    generalize (t.quarantine s src false).1 = t' at hquarantine
    generalize (t.quarantine s src false).2 = answer at hquarantine
    cases hquarantine with
    | found _ hl _ =>
      rw [hl, Function.update_self]
      rfl
    | absent hk _ _ =>
      rw [lookup_of_find hfind] at hk
      cases hk

end

/-- A file frame under the transfer id `src`. -/
def Concerns (src : UInt32) (frame : Bytes) : Prop :=
  IsFileFrame frame ∧ readTransferId frame = some src

instance (src : UInt32) (frame : Bytes) : Decidable (Concerns src frame) :=
  inferInstanceAs (Decidable ((∃ type ∈ _, _) ∧ _))

/-- The frames of client `c` under the transfer id `src`. -/
def framesOf (c : ClientId) (src : UInt32) : List Event → List Bytes
  | [] => []
  | .received c' frame :: rest =>
    if c' = c ∧ Concerns src frame then frame :: framesOf c src rest else framesOf c src rest
  | _ :: rest => framesOf c src rest

/-- CHUNKs, and then at most one END or ERROR. -/
def WellFormed (src : UInt32) : List Bytes → Prop
  | [] => True
  | frame :: rest => (∃ chunk, decodeChunk frame = some chunk) ∧ WellFormed src rest ∨
      rest = [] ∧ (decodeControl frame .fileEnd = .ok src ∨
        decodeControl frame .fileError = .ok src)

theorem framesOf_concat (c : ClientId) (src : UInt32) (seg : List Event) (e : Event) :
    framesOf c src (seg ++ [e]) = framesOf c src seg ++ framesOf c src [e] := by
  induction seg with
  | nil => rfl
  | cons e' seg ih =>
    rw [List.cons_append]
    cases e' with
    | received c' frame =>
      rw [framesOf, framesOf, ih]
      split
      · rw [List.cons_append]
      · rfl
    | _ => exact ih

theorem WellFormed.of_concat {src : UInt32} {frames : List Bytes} {frame : Bytes}
    (h : WellFormed src (frames ++ [frame])) :
    WellFormed src frames ∧ (∀ f ∈ frames, ∃ chunk, decodeChunk f = some chunk) ∧
      ((∃ chunk, decodeChunk frame = some chunk) ∨ decodeControl frame .fileEnd = .ok src ∨
        decodeControl frame .fileError = .ok src) := by
  induction frames with
  | nil =>
    refine ⟨trivial, (fun f hf => by cases hf), ?_⟩
    rcases h with ⟨h, -⟩ | ⟨-, h⟩
    · exact .inl h
    · exact .inr h
  | cons f frames ih =>
    rcases h with ⟨hf, h⟩ | ⟨h, -⟩
    · obtain ⟨hw, hall, hlast⟩ := ih h
      refine ⟨.inl ⟨hf, hw⟩, fun g hg => ?_, hlast⟩
      rcases List.mem_cons.mp hg with rfl | hg
      · exact hf
      · exact hall g hg
    · exact absurd h (by simp)

end CipherChat
