import CipherChat.ClientFileSender
import CipherChat.Draining

/-!
# The counter of outbound ids wraps

A BEGIN for which there is no memory, and its END, leave the table as it was and the counter
one higher.  One client can so take the counter round its 32 bits, while every other connection
rests.
-/

namespace CipherChat

open Resumption Prog Transition FileRoutes

namespace FileRoutes

def emptied (next : UInt32) : FileRoutes := { init with nextOutboundTransferId := next }

variable (c : ClientId) (src : UInt32)

theorem findRoute_emptied (o : UInt32) : (emptied o).findRoute c src = none :=
  findRoute_of_lookup (lookup_init (c, src))

theorem findFreeRoute_emptied (o : UInt32) : ∃ i, (emptied o).findFreeRoute = some i := by
  refine Option.isSome_iff_exists.mp ?_
  change init.findFreeRoute.isSome = true
  decide +kernel

theorem findRoute_set {t : FileRoutes} {i : Fin fileRouteCapacity} {r : FileRoute}
    (hfind : t.findRoute c src = none) (hr : r.active = true) (hkey : r.HasKey c src) :
    (t.set i r).findRoute c src = some i := by
  unfold findRoute set
  rw [Fin.find?_eq_some_iff]
  dsimp only
  refine ⟨?_, fun j hj => ?_⟩
  · rw [Function.update_self, hr, hkey.1, hkey.2]
    simp
  · rw [Function.update_of_ne (ne_of_lt hj)]
    exact Bool.eq_false_iff.mpr fun h => absurd (Fin.find?_eq_none_iff.mp hfind j) (by
      rw [h]
      decide)

theorem add_emptied {o : UInt32} (ho : o ≠ 0) (tgt : ClientId) (size : UInt64) :
    ∃ i endpoint r, (emptied o).add c src tgt size false =
      ((emptied (o + 1)).set i r, { result := .ready, endpoint }) ∧
      r.active = true ∧ r.HasKey c src := by
  obtain ⟨i, hi⟩ := findFreeRoute_emptied o
  have hunused : (emptied o).inUse o = false := by
    unfold inUse
    rw [Option.isSome_eq_false_iff, Option.isNone_iff_eq_none, Fin.find?_eq_none_iff]
    exact fun _ => rfl
  unfold add
  rw [findRoute_emptied, hi]
  dsimp only
  rw [if_neg Bool.false_ne_true, allocateOutboundId_first ho hunused]
  exact ⟨i, _, _, if_neg ho, rfl, rfl, rfl⟩

theorem round_emptied {o : UInt32} (ho : o ≠ 0) (tgt : ClientId) (size : UInt64) :
    ∃ t endpoint, (emptied o).add c src tgt size false = (t, { result := .ready, endpoint }) ∧
      (t.quarantine c src true).1.finish c src true =
        (emptied (o + 1), { result := .discard }) := by
  obtain ⟨i, endpoint, r, hadd, hactive, hkey⟩ := add_emptied c src ho tgt size
  have hfound := findRoute_set c src (i := i) (findRoute_emptied c src (o + 1)) hactive hkey
  have hquarantine : (((emptied (o + 1)).set i r).quarantine c src true).1 =
      (emptied (o + 1)).set i (makeDiscardRoute c src) := by
    unfold quarantine
    rw [hfound]
    dsimp only
    rw [if_pos rfl]
    unfold set
    dsimp only
    rw [Function.update_idem]
  have hfound' := findRoute_set c src (i := i) (r := makeDiscardRoute c src)
    (findRoute_emptied c src (o + 1)) rfl ⟨rfl, rfl⟩
  have hself : ((emptied (o + 1)).set i (makeDiscardRoute c src)).routes i =
      makeDiscardRoute c src := Function.update_self _ _ _
  have hsame : Function.update (emptied (o + 1)).routes i {} = (emptied (o + 1)).routes :=
    Function.update_eq_self i (emptied (o + 1)).routes
  refine ⟨_, endpoint, hadd, ?_⟩
  rw [hquarantine]
  unfold finish
  rw [hfound']
  dsimp only
  rw [if_pos (by rw [hself]; rfl)]
  unfold set
  dsimp only
  rw [Function.update_idem, hsame]

end FileRoutes

section

variable {u : Session} {x : Shared}

theorem outcome_notifySenderForTransfer (c : ClientId) (src : UInt32) (message : Bytes)
    (x : Shared) : (notifySenderForTransfer c src message).outcome starved x = ((), x) := by
  have hnotify : ∀ text : Bytes, (notifySender c text).outcome starved x = ((), x) := by
    intro text
    unfold notifySender
    split
    · unfold sendTextToClientId
      split
      · rfl
      · obtain ⟨e, he⟩ := starved_queueFrame x c .text text
        change ((), (starved (.queueFrame c .text text) x).2) = ((), x)
        rw [he]
    · rfl
  unfold notifySenderForTransfer
  dsimp only
  split
  · exact hnotify _
  · exact hnotify _

theorem outcome_begin {frame : Bytes} {b : FileBeginFrame} {t : FileRoutes}
    {endpoint : FileRouteEndpoint} (hid : u.id ≠ invalidClientId)
    (hname : validPeerName u.username = true) (hlen : frame.length ≤ frameMaxSize)
    (hdecode : decodeBegin frame = some b)
    (hadd : x.routes.add u.id b.transferId (x.clients.findClientId b.peer) b.fileSize
      (x.clients.findClientId b.peer == invalidClientId ||
        x.clients.findClientId b.peer == u.id) = (t, { result := .ready, endpoint })) :
    (handleClientFrame u.id u.username frame).outcome starved x =
      (true, { x with routes := (t.quarantine u.id b.transferId true).1 }) := by
  obtain ⟨h0, h1, -⟩ := validPeerName_iff.mp hname
  obtain ⟨hhead, -, -, hfilename⟩ := decodeBegin_some hdecode
  obtain ⟨payload, hpayload⟩ : ∃ payload, encodeBegin fileBeginPayloadMaxSize
      endpoint.outboundTransferId b.fileSize u.username b.filename = .ok payload :=
    ⟨_, encodeBegin_eq hname hfilename⟩
  obtain ⟨e, hqueue⟩ := starved_queueFrame { x with routes := t } endpoint.targetId .fileBegin
    payload
  have hfind : starved (.findClientId b.peer) x = (x.clients.findClientId b.peer, x) := rfl
  have hroutes : starved (.routesAdd u.id b.transferId (x.clients.findClientId b.peer) b.fileSize
      (x.clients.findClientId b.peer == invalidClientId ||
        x.clients.findClientId b.peer == u.id)) x =
      ({ result := .ready, endpoint }, { x with routes := t }) := by
    simp only [starved, perform, Shared.onRoutes, hadd]
  have hroute : (routeFileFrame u.id u.username frame).outcome starved x =
      (-1, { x with routes := (t.quarantine u.id b.transferId true).1 }) := by
    have hne : frame.length ≠ 0 := fun hnil => by
      rw [List.eq_nil_of_length_eq_zero hnil] at hhead
      cases hhead
    unfold routeFileFrame
    rw [if_neg (not_or.mpr ⟨hid, hne⟩), if_neg (Nat.not_lt.mpr hlen), hhead, Option.bind_some,
      FrameType.ofByte_toByte]
    unfold handleFileBegin
    rw [if_neg (by simp [h0, hname, h1]), hdecode]
    dsimp only
    rw [outcome_call, hfind, outcome_call, hroutes]
    dsimp only
    rw [hpayload]
    dsimp only
    unfold sendFrameToClientId
    rw [outcome_call, hqueue]
    dsimp only
    rw [outcome_call, outcome_bind, outcome_notifySenderForTransfer]
    rfl
  rw [handleClientFrame_file (isFileFrame_of_head (by decide) hhead), outcome_bind, hroute]
  rfl

theorem outcome_end {src : UInt32} {t : FileRoutes} (hid : u.id ≠ invalidClientId)
    (hfinish : x.routes.finish u.id src true = (t, { result := .discard })) :
    (handleClientFrame u.id u.username (endFrame src)).outcome starved x =
      (true, { x with routes := t }) := by
  obtain ⟨k, -, -, hhandler, -, hdiscard⟩ := handleClientFrame_end hid src
  have hroutes : starved (.routesFinish u.id src true) x =
      ({ result := .discard }, { x with routes := t }) := by
    simp only [starved, perform, Shared.onRoutes, hfinish]
  unfold endFrame
  rw [hhandler, ← call_bind, outcome_call, hroutes, hdiscard]
  rfl

end

/-- What `c` does while it sends frames for which `p` holds. -/
def Event.Sends (c : ClientId) (p : Bytes → Prop) (e : Event) : Prop :=
  e.client = some c ∧ ∀ c' frame, e = .received c' frame → p frame

section

variable {s : Server} {n : ℕ} {u : Session} {p : Bytes → Prop}

theorem Server.Waits.calls (h : s.Waits n u { progress := true }) (frame : Bytes)
    (hpos : 0 < frame.length) (hmax : frame.length ≤ frameMaxSize)
    (htype : isValidFrameType (frame.headD 0) = true) {x' : Shared}
    (hout : (handleClientFrame u.id u.username frame).outcome starved s.shared = (true, x'))
    (hp : p frame) :
    ∃ evs, server.Steps s { s with shared := x', log := s.log ++ evs } ∧
      ∀ e ∈ evs, e.Sends u.id p := by
  have hst := (h.takes frame hpos hmax htype).trans (Server.runs (Function.update_self _ _ _))
  dsimp only at hst
  rw [hout, Function.update_idem, List.append_assoc] at hst
  have hback : Function.update s.threads n
      (.working u ((Worker.holding { progress := true } frame).afterHandle true)) =
      s.threads := by
    have hw : (Worker.holding { progress := true } frame).afterHandle true =
        { progress := true } := rfl
    rw [hw, ← h.thread, Function.update_eq_self]
  dsimp only at hst
  rw [hback] at hst
  refine ⟨_, hst, fun e he => ?_⟩
  rw [List.singleton_append, List.mem_cons, List.mem_append, List.mem_map,
    List.mem_singleton] at he
  obtain rfl | ⟨x, -, rfl⟩ | rfl := he
  · refine ⟨rfl, fun c' frame' heq => ?_⟩
    cases heq
    exact hp
  · exact ⟨rfl, fun c' frame' heq => by cases heq⟩
  · exact ⟨rfl, fun c' frame' heq => by cases heq⟩

variable {frame : Bytes} {b : FileBeginFrame}

theorem Server.Waits.round (h : s.Waits n u { progress := true })
    (hname : validPeerName u.username = true) (hdecode : decodeBegin frame = some b)
    (hmax : frame.length ≤ frameMaxSize) {o : UInt32} (ho : o ≠ 0)
    (hroutes : s.shared.routes = emptied o)
    (htarget : (s.shared.clients.findClientId b.peer == invalidClientId ||
      s.shared.clients.findClientId b.peer == u.id) = false)
    (hp : p frame) (hp' : p (endFrame b.transferId)) :
    ∃ evs, server.Steps s { s with
        shared := { s.shared with routes := emptied (o + 1) }, log := s.log ++ evs } ∧
      ∀ e ∈ evs, e.Sends u.id p := by
  have hhead := (decodeBegin_some hdecode).1
  have hpos : 0 < frame.length := List.length_pos_iff.mpr fun hnil => by
    rw [hnil] at hhead
    cases hhead
  have htype : isValidFrameType (frame.headD 0) = true := by
    rw [List.headD_eq_head?_getD, hhead]
    decide
  obtain ⟨t, endpoint, hadd, hfinish⟩ := round_emptied u.id b.transferId ho
    (s.shared.clients.findClientId b.peer) b.fileSize
  rw [← hroutes, ← htarget] at hadd
  obtain ⟨evs, hst, hevs⟩ := h.calls frame hpos hmax htype
    (outcome_begin h.idle.id_ne hname hmax hdecode hadd) hp
  generalize (t.quarantine u.id b.transferId true).1 = t' at *
  have hwaits : Server.Waits { s with
      shared := { s.shared with routes := t' }
      log := s.log ++ evs } n u { progress := true } :=
    ⟨h.idle, h.thread, rfl, rfl, rfl, rfl, rfl⟩
  obtain ⟨evs', hst', hevs'⟩ := hwaits.calls (endFrame b.transferId) (Nat.succ_pos _)
    (by rw [endFrame, List.length_cons, writeU32_length, frameMaxSize_eq]; omega)
    (by rw [endFrame, List.headD_cons]; decide)
    (outcome_end (x := { s.shared with routes := t' }) h.idle.id_ne hfinish) hp'
  refine ⟨evs ++ evs', ?_, fun e he => ?_⟩
  · have hboth := hst.trans hst'
    rwa [List.append_assoc] at hboth
  · rcases List.mem_append.mp he with he | he
    · exact hevs e he
    · exact hevs' e he

theorem Server.Waits.rounds (h : s.Waits n u { progress := true })
    (hname : validPeerName u.username = true) (hdecode : decodeBegin frame = some b)
    (hmax : frame.length ≤ frameMaxSize) {o : ℕ} (ho : 0 < o)
    (hroutes : s.shared.routes = emptied (.ofNat o))
    (htarget : (s.shared.clients.findClientId b.peer == invalidClientId ||
      s.shared.clients.findClientId b.peer == u.id) = false)
    (hp : p frame) (hp' : p (endFrame b.transferId)) (k : ℕ) (hk : o + k ≤ 2 ^ 32) :
    ∃ evs, server.Steps s { s with
        shared := { s.shared with routes := emptied (.ofNat (o + k)) }, log := s.log ++ evs } ∧
      ∀ e ∈ evs, e.Sends u.id p := by
  induction k with
  | zero =>
    refine ⟨[], ?_, fun e he => by cases he⟩
    rw [List.append_nil, Nat.add_zero, ← hroutes]
    exact .refl
  | succ k ih =>
    obtain ⟨evs, hst, hevs⟩ := ih (by omega)
    have hwaits : Server.Waits { s with
        shared := { s.shared with routes := emptied (.ofNat (o + k)) }
        log := s.log ++ evs } n u { progress := true } :=
      ⟨h.idle, h.thread, rfl, rfl, rfl, rfl, rfl⟩
    have hne : UInt32.ofNat (o + k) ≠ 0 := by
      intro h0
      have hnat := congrArg UInt32.toNat h0
      rw [UInt32.toNat_ofNat', Nat.mod_eq_of_lt (by omega)] at hnat
      have : (0 : UInt32).toNat = 0 := rfl
      omega
    obtain ⟨evs', hst', hevs'⟩ := hwaits.round hname hdecode hmax hne rfl htarget hp hp'
    refine ⟨evs ++ evs', ?_, fun e he => ?_⟩
    · have hboth := hst.trans hst'
      have hnext : UInt32.ofNat (o + k) + 1 = .ofNat (o + (k + 1)) :=
        (UInt32.ofNat_add (o + k) 1).symm
      rwa [List.append_assoc, hnext] at hboth
    · rcases List.mem_append.mp he with he | he
      · exact hevs e he
      · exact hevs' e he

end

end CipherChat
