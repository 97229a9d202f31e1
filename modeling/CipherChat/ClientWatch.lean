import CipherChat.ClientStream

/-!
# Watching the callbacks of the client

A watch follows the history of a client.  If the callbacks keep to it, whatever their
operations are answered, then every event of a run was lawful when it was logged, and the
watch is at rest between two callbacks.
-/

namespace CipherChat

open Resumption Prog

/-- What an operation adds to the history when it is answered. -/
def ClientOp.logs : (o : ClientOp) → o.Resp → List ClientEvent
  | .note n, _ => [.note n]
  | .sendAll _, .error e => [.failed e]
  | _, _ => []

structure ClientWatch (τ : Type) where
  start : τ
  event : τ → ClientEvent → τ
  allow : τ → ClientNote → Prop
  /-- What holds between two callbacks. -/
  rest : τ → ClientState → Prop

namespace ClientWatch

variable {τ : Type} (W : ClientWatch τ) {cfg : ClientConfig}

def discipline : Discipline clientSig τ where
  allow t o := ∀ n, o = .note n → W.allow t n
  next t o r := (o.logs r).foldl W.event t

def state (log : List ClientEvent) : τ := log.foldl W.event W.start

/-- A callback starts at rest, and leaves the marks that the watch allows. -/
def Lawful (t : τ) : ClientEvent → Prop
  | .note n => W.allow t n
  | .typed _ | .received _ => ∃ s, W.rest t s
  | .accepted _ | .failed _ => True

/-- The callbacks keep to the watch. -/
structure Kept (cfg : ClientConfig) : Prop where
  accepted : ∀ t bytes, W.event t (.accepted bytes) = t
  start : ∀ store, W.discipline.follows W.start
    (registerKey cfg (ClientProcess.start cfg store).state) W.rest
  typed : ∀ t s line, W.rest t s →
    W.discipline.follows (W.event t (.typed line)) (handleInput s line) W.rest
  received : ∀ t s frame, W.rest t s →
    W.discipline.follows (W.event t (.received frame)) (handleServerFrame cfg s frame) W.rest
  stopped : ∀ t s clientExitCode, W.rest t s →
    W.rest t { s with connected := false, clientExitCode }

/-- A run so far. -/
structure Holds (c : ClientProcess) : Prop where
  lawful : ∀ before e after, c.log = before ++ e :: after → W.Lawful (W.state before) e
  idle : c.callback = none → W.rest (W.state c.log) c.state
  busy : ∀ p, c.callback = some p → W.discipline.follows (W.state c.log) p W.rest

variable {W} {c c' : ClientProcess}

theorem state_append (log log' : List ClientEvent) :
    W.state (log ++ log') = log'.foldl W.event (W.state log) := List.foldl_append

@[simp] theorem state_concat (log : List ClientEvent) (e : ClientEvent) :
    W.state (log ++ [e]) = W.event (W.state log) e := state_append log [e]

namespace Holds

theorem lawful_concat (h : W.Holds c) {e : ClientEvent} (he : W.Lawful (W.state c.log) e) :
    ∀ before e' after, c.log ++ [e] = before ++ e' :: after → W.Lawful (W.state before) e' := by
  intro before e' after heq
  rcases List.eq_nil_or_concat' after with rfl | ⟨after, x, rfl⟩
  · obtain ⟨rfl, he'⟩ := List.append_inj' heq rfl
    cases he'
    exact he
  · rw [← List.cons_append, ← List.append_assoc] at heq
    exact h.lawful before e' after (List.append_inj' heq rfl).1

theorem of_busy {p : ClientProg ClientState} (hp : c.callback = some p)
    (hlawful : ∀ before e after, c.log = before ++ e :: after → W.Lawful (W.state before) e)
    (hfollows : W.discipline.follows (W.state c.log) p W.rest) : W.Holds c where
  lawful := hlawful
  idle hc := by
    rw [hp] at hc
    cases hc
  busy q hq := by
    obtain rfl := Option.some.inj (hp.symm.trans hq)
    exact hfollows

theorem of_idle (hc : c.callback = none)
    (hlawful : ∀ before e after, c.log = before ++ e :: after → W.Lawful (W.state before) e)
    (hrest : W.rest (W.state c.log) c.state) : W.Holds c where
  lawful := hlawful
  idle _ := hrest
  busy p hp := by
    rw [hc] at hp
    cases hp

theorem move (hW : W.Kept cfg) (h : W.Holds c) {env : ClientEnv} {p : ClientProg ClientState}
    (hp : c.callback = some p) (hmove : c.move env p = some c') : W.Holds c' := by
  have hfollows := h.busy p hp
  rcases ClientProcess.move_cases hmove with ⟨s, rfl, rfl⟩ | ⟨bytes, k, pc, accepted, rfl, -, rfl⟩ |
    ⟨bytes, k, failed, rfl, -, rfl⟩ | ⟨bytes, k, e, failed, rfl, -, rfl⟩ |
    ⟨o, k, r, rfl, hother, rfl⟩
  · rw [Discipline.follows_ret] at hfollows
    exact .of_idle rfl h.lawful hfollows
  · refine .of_busy hp (h.lawful_concat trivial) ?_
    rw [state_concat, hW.accepted]
    exact hfollows
  · rw [Discipline.follows_op] at hfollows
    exact .of_busy rfl h.lawful (hfollows.2 (.ok ()))
  · rw [Discipline.follows_op] at hfollows
    refine .of_busy rfl (h.lawful_concat trivial) ?_
    rw [state_concat]
    exact hfollows.2 (.error e)
  · rw [Discipline.follows_op] at hfollows
    obtain ⟨hallow, hnext⟩ := hfollows
    cases o with
    | sendAll bytes => exact absurd rfl (hother bytes)
    | note n =>
      refine .of_busy rfl (h.lawful_concat (hallow n rfl)) ?_
      change W.discipline.follows (W.state (c.log ++ [.note n])) _ _
      rw [state_concat]
      exact hnext r
    | _ =>
      refine .of_busy rfl ?_ ?_
      · rw [show ClientProcess.event _ = [] from rfl, List.append_nil]
        exact h.lawful
      · rw [show ClientProcess.event _ = [] from rfl, List.append_nil]
        exact hnext r

theorem dispatch (hW : W.Kept cfg) (h : W.Holds c) {l : ClientLabel} (hidle : c.callback = none)
    (hstep : c.dispatch cfg l = some c') : W.Holds c' := by
  have hrest := h.idle hidle
  have hstop : ∀ clientExitCode, W.Holds
      { c with state := { c.state with connected := false, clientExitCode } } :=
    fun code => .of_idle hidle h.lawful (hW.stopped _ _ code hrest)
  unfold ClientProcess.dispatch at hstep
  cases l with
  | typed line =>
    cases line with
    | none =>
      cases hstep
      exact hstop c.state.clientExitCode
    | some line =>
      dsimp only at hstep
      split at hstep
      · cases hstep
      · cases hstep
        refine .of_busy rfl (h.lawful_concat ⟨_, hrest⟩) ?_
        rw [state_concat]
        exact hW.typed _ _ line hrest
  | received result =>
    cases result with
    | error e =>
      cases hstep
      exact hstop 1
    | ok frame =>
      cases frame with
      | none =>
        cases hstep
        exact hstop c.state.clientExitCode
      | some frame =>
        dsimp only at hstep
        split at hstep
        · cases hstep
          refine .of_busy rfl (h.lawful_concat ⟨_, hrest⟩) ?_
          rw [state_concat]
          exact hW.received _ _ frame hrest
        · cases hstep
  | pollFailed =>
    cases hstep
    exact hstop 1
  | go env => cases hstep

theorem step (hW : W.Kept cfg) (h : W.Holds c) {l : ClientLabel} (hstep : c.step cfg l = some c') :
    W.Holds c' := by
  unfold ClientProcess.step at hstep
  split at hstep
  · next p env hp => exact h.move hW hp hstep
  · cases hstep
  · next hidle =>
    split at hstep
    · exact h.dispatch hW hidle hstep
    · cases hstep

end Holds

theorem Kept.holds (hW : W.Kept cfg) {store : FileStore Bytes UInt8}
    (hc : (client cfg store).Reachable c) : W.Holds c := by
  refine hc.invariant (P := W.Holds) ?_ fun _ _ _ _ _ h hstep => h.step hW hstep
  refine .of_busy rfl (fun before e after h => ?_) (hW.start store)
  cases (List.append_eq_nil_iff.mp (Eq.symm h)).2

theorem Kept.history (hW : W.Kept cfg) {store : FileStore Bytes UInt8}
    (hc : (client cfg store).Reachable c) {P : List ClientEvent → Prop} (h0 : P [])
    (hstep : ∀ log e, W.Lawful (W.state log) e → P log → P (log ++ [e])) : P c.log := by
  have hlawful := (hW.holds hc).lawful
  generalize c.log = log at hlawful
  induction log using List.reverseRecOn with
  | nil => exact h0
  | append_singleton log e ih =>
    refine hstep log e (hlawful log e [] rfl) (ih fun before e' after hlog => ?_)
    exact hlawful before e' (after ++ [e]) (by rw [hlog]; simp)

end ClientWatch

end CipherChat
