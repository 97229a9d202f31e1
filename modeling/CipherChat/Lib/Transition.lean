import Mathlib.Logic.Basic

/-!
# Runs of a labelled step function

A label resolves every choice of one step: which party moves and what its
environment answers.  A run is a list of labels, so a statement about every
reachable state is a statement about every interleaving and every environment.
-/

namespace Transition

/-- An initial state and a partial step function; `none` means not enabled. -/
structure System (σ ι : Type*) where
  init : σ
  step : σ → ι → Option σ

variable {σ ι : Type*} (M : System σ ι)

/-- The states reached by runs whose every step meets `ok`. -/
inductive System.Reach (ok : σ → ι → Prop) : σ → Prop
  | init : System.Reach ok M.init
  | step {s s' : σ} {i : ι} : System.Reach ok s → ok s i → M.step s i = some s' →
      System.Reach ok s'

/-- Every run, with no condition on its steps. -/
abbrev System.Reachable : σ → Prop := M.Reach fun _ _ => True

/-- The runs from a given state onwards. -/
inductive System.Steps (s : σ) : σ → Prop
  | refl : System.Steps s s
  | tail {t t' : σ} {i : ι} : System.Steps s t → M.step t i = some t' → System.Steps s t'

/-- The runs from a given state onwards whose every step meets `ok`. -/
inductive System.StepsOf (ok : σ → ι → Prop) (s : σ) : σ → Prop
  | refl : System.StepsOf ok s s
  | tail {t t' : σ} {i : ι} : System.StepsOf ok s t → ok t i → M.step t i = some t' →
      System.StepsOf ok s t'

/-- The state after a list of labels, when every step is enabled. -/
def System.run (s : σ) : List ι → Option σ
  | [] => some s
  | i :: is =>
    match M.step s i with
    | some s' => System.run s' is
    | none => none

/-- The same, when every step meets `ok`. -/
def System.runOf (ok : σ → ι → Prop) [∀ s i, Decidable (ok s i)] (s : σ) : List ι → Option σ
  | [] => some s
  | i :: is =>
    if ok s i then
      match M.step s i with
      | some s' => System.runOf ok s' is
      | none => none
    else none

variable {M}

theorem System.Reach.mono {ok ok' : σ → ι → Prop} (h : ∀ s i, ok s i → ok' s i) {s : σ}
    (hs : M.Reach ok s) : M.Reach ok' s := by
  induction hs with
  | init => exact .init
  | step _ hok hstep ih => exact .step ih (h _ _ hok) hstep

theorem System.Reach.reachable {ok : σ → ι → Prop} {s : σ} (hs : M.Reach ok s) :
    M.Reachable s := hs.mono fun _ _ _ => trivial

theorem System.Steps.trans {s t u : σ} (hst : M.Steps s t) (htu : M.Steps t u) : M.Steps s u := by
  induction htu with
  | refl => exact hst
  | tail _ hstep ih => exact .tail ih hstep

theorem System.StepsOf.steps {ok : σ → ι → Prop} {s t : σ} (h : M.StepsOf ok s t) :
    M.Steps s t := by
  induction h with
  | refl => exact .refl
  | tail _ _ hstep ih => exact .tail ih hstep

theorem System.Steps.of {s t : σ} (h : M.Steps s t) : M.StepsOf (fun _ _ => True) s t := by
  induction h with
  | refl => exact .refl
  | tail _ hstep ih => exact .tail ih trivial hstep

theorem System.Reachable.steps {s t : σ} (hs : M.Reachable s) (h : M.Steps s t) :
    M.Reachable t := by
  induction h with
  | refl => exact hs
  | tail _ hstep ih => exact .step ih trivial hstep

theorem System.Reachable.run {s t : σ} (hs : M.Reachable s) {is : List ι}
    (h : M.run s is = some t) : M.Reachable t := by
  induction is generalizing s with
  | nil =>
    cases h
    exact hs
  | cons i is ih =>
    rw [System.run] at h
    split at h
    · next s' hstep => exact ih (.step hs trivial hstep) h
    · cases h

theorem System.Steps.run {s t u : σ} (hst : M.Steps s t) {is : List ι} (h : M.run t is = some u) :
    M.Steps s u := by
  induction is generalizing t with
  | nil =>
    cases h
    exact hst
  | cons i is ih =>
    rw [System.run] at h
    split at h
    · next t' hstep => exact ih (.tail hst hstep) h
    · cases h

theorem System.Reach.runOf {ok : σ → ι → Prop} [∀ s i, Decidable (ok s i)] {s t : σ}
    (hs : M.Reach ok s) {is : List ι} (h : M.runOf ok s is = some t) : M.Reach ok t := by
  induction is generalizing s with
  | nil =>
    cases h
    exact hs
  | cons i is ih =>
    rw [System.runOf] at h
    split at h
    · next hok =>
      split at h
      · next s' hstep => exact ih (.step hs hok hstep) h
      · cases h
    · cases h

theorem System.StepsOf.runOf {ok : σ → ι → Prop} [∀ s i, Decidable (ok s i)] {s t u : σ}
    (hst : M.StepsOf ok s t) {is : List ι} (h : M.runOf ok t is = some u) : M.StepsOf ok s u := by
  induction is generalizing t with
  | nil =>
    cases h
    exact hst
  | cons i is ih =>
    rw [System.runOf] at h
    split at h
    · next hok =>
      split at h
      · next t' hstep => exact ih (.tail hst hok hstep) h
      · cases h
    · cases h

theorem System.Reach.invariant {ok : σ → ι → Prop} {P : σ → Prop} (h0 : P M.init)
    (hstep : ∀ s i s', M.Reach ok s → ok s i → P s → M.step s i = some s' → P s')
    {s : σ} (hs : M.Reach ok s) : P s := by
  induction hs with
  | init => exact h0
  | step hr hok h ih => exact hstep _ _ _ hr hok ih h

theorem System.Steps.invariant {P : σ → Prop} {s t : σ} (h : M.Steps s t)
    (hstep : ∀ t i t', M.Steps s t → P t → M.step t i = some t' → P t') (h0 : P s) : P t := by
  induction h with
  | refl => exact h0
  | tail hr hs ih => exact hstep _ _ _ hr ih hs

/-- The invariant rule for the runs that start in a given state and meet `ok`. -/
theorem System.StepsOf.invariant {ok : σ → ι → Prop} {P : σ → Prop} {s t : σ}
    (h : M.StepsOf ok s t)
    (hstep : ∀ t i t', M.Steps s t → ok t i → P t → M.step t i = some t' → P t') (h0 : P s) :
    P t := by
  induction h with
  | refl => exact h0
  | tail hr hok hs ih => exact hstep _ _ _ hr.steps hok ih hs

end Transition
