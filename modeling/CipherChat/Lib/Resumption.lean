import Mathlib.Data.Nat.Notation
import Mathlib.Logic.Basic

/-!
# Programs of atomic operations, and disciplines for them

A handler that takes a lock, releases it, and takes another is a tree: one node
per atomic operation, one child per answer.  Other threads move between the
nodes.  A discipline is a monitor: it says which operations are allowed after
the operations and answers seen so far.  `follows` is the weakest precondition
of a program under a discipline, with a rule per program former.
-/

namespace Resumption

/-- The atomic operations and the type of each one's answer. -/
structure Sig where
  Op : Type
  Resp : Op → Type

inductive Prog (S : Sig) (α : Type) where
  | ret (a : α)
  | op (o : S.Op) (k : S.Resp o → Prog S α)

variable {S : Sig} {α β τ : Type}

namespace Prog

def bind : Prog S α → (α → Prog S β) → Prog S β
  | .ret a, f => f a
  | .op o k, f => .op o fun r => (k r).bind f

instance : Monad (Prog S) where
  pure := .ret
  bind := Prog.bind

/-- One operation, returning its answer. -/
def call (o : S.Op) : Prog S (S.Resp o) := .op o .ret

@[simp] theorem pure_eq (a : α) : (pure a : Prog S α) = .ret a := rfl

@[simp] theorem ret_bind (a : α) (f : α → Prog S β) : (Prog.ret a >>= f) = f a := rfl

@[simp] theorem op_bind (o : S.Op) (k : S.Resp o → Prog S α) (f : α → Prog S β) :
    (Prog.op o k >>= f) = .op o fun r => k r >>= f := rfl

@[simp] theorem call_bind (o : S.Op) (f : S.Resp o → Prog S β) :
    (call o >>= f) = .op o f := rfl

theorem bind_assoc {γ : Type} (p : Prog S α) (f : α → Prog S β) (g : β → Prog S γ) :
    (p >>= f) >>= g = p >>= fun a => f a >>= g := by
  induction p with
  | ret a => rfl
  | op o k ih =>
    rw [op_bind, op_bind, op_bind]
    congr 1
    funext r
    exact ih r

/-- The operations a program performs, with their answers, while its environment answers
one operation after another. -/
def trace : List ((o : S.Op) → S.Resp o) → Prog S α → List ((o : S.Op) × S.Resp o)
  | answer :: answers, .op o k => ⟨o, answer o⟩ :: trace answers (k (answer o))
  | _, _ => []

/-- What a program may have done at some time, whatever it was answered. -/
inductive Starts : Prog S α → List ((o : S.Op) × S.Resp o) → Prop
  | nil {p : Prog S α} : Starts p []
  | cons {o : S.Op} {r : S.Resp o} {k : S.Resp o → Prog S α} {xs : List ((o : S.Op) × S.Resp o)} :
    Starts (k r) xs → Starts (.op o k) (⟨o, r⟩ :: xs)

/-- What a program has done when it returns `a`. -/
inductive Ends : Prog S α → List ((o : S.Op) × S.Resp o) → α → Prop
  | ret {a : α} : Ends (.ret a) [] a
  | op {o : S.Op} {r : S.Resp o} {k : S.Resp o → Prog S α} {xs : List ((o : S.Op) × S.Resp o)}
    {a : α} : Ends (k r) xs a → Ends (.op o k) (⟨o, r⟩ :: xs) a

/-- A program run to its end: `handler` answers each operation and changes the state. -/
def run {σ : Type} (handler : (o : S.Op) → σ → S.Resp o × σ) :
    Prog S α → σ → α × σ × List ((o : S.Op) × S.Resp o)
  | .ret a, s => (a, s, [])
  | .op o k, s =>
    let (r, s) := handler o s
    let (a, s, xs) := run handler (k r) s
    (a, s, ⟨o, r⟩ :: xs)

section Run

variable {σ : Type} (handler : (o : S.Op) → σ → S.Resp o × σ)

/-- The result of a run and the state it leaves. -/
def outcome (p : Prog S α) (s : σ) : α × σ := ((p.run handler s).1, (p.run handler s).2.1)

variable {handler}

theorem outcome_pure {a : α} {s : σ} : (pure a : Prog S α).outcome handler s = (a, s) := rfl

theorem outcome_call {o : S.Op} {k : S.Resp o → Prog S α} {s : σ} :
    (call o >>= k).outcome handler s =
      (k (handler o s).1).outcome handler (handler o s).2 := rfl

theorem outcome_bind {p : Prog S α} {f : α → Prog S β} {s : σ} :
    (p >>= f).outcome handler s =
      (f (p.outcome handler s).1).outcome handler (p.outcome handler s).2 := by
  induction p generalizing s with
  | ret a => rfl
  | op o k ih => exact ih (handler o s).1

end Run

/-- A loop.  `body` goes round with a new state or returns; `stop` is what is left of the loop
when it has gone round `fuel` times. -/
def iterate {σ : Type} (stop : Prog S α) (body : σ → Prog S (σ ⊕ α)) : ℕ → σ → Prog S α
  | 0, _ => stop
  | fuel + 1, s => body s >>= fun
    | .inl s => iterate stop body fuel s
    | .inr a => pure a

/-- The program performs no operations but these. -/
def Performs (P : S.Op → Prop) : Prog S α → Prop
  | .ret _ => True
  | .op o k => P o ∧ ∀ r, Performs P (k r)

section Performs

variable {P : S.Op → Prop}

theorem performs_pure {a : α} : (pure a : Prog S α).Performs P := trivial

theorem performs_call {o : S.Op} {k : S.Resp o → Prog S α} (ho : P o)
    (hk : ∀ r, (k r).Performs P) : (call o >>= k).Performs P := ⟨ho, hk⟩

theorem performs_last {o : S.Op} (ho : P o) : (call o : Prog S _).Performs P :=
  ⟨ho, fun _ => trivial⟩

theorem performs_ite {c : Prop} [Decidable c] {p q : Prog S α} (hp : p.Performs P)
    (hq : q.Performs P) : (if c then p else q).Performs P := by
  split
  · exact hp
  · exact hq

theorem performs_bind {p : Prog S α} {f : α → Prog S β} (hp : p.Performs P)
    (hf : ∀ a, (f a).Performs P) : (p >>= f).Performs P := by
  induction p with
  | ret a => exact hf a
  | op o k ih => exact ⟨hp.1, fun r => ih r (hp.2 r)⟩

theorem performs_iterate {σ : Type} {stop : Prog S α} {body : σ → Prog S (σ ⊕ α)}
    (hstop : stop.Performs P) (hbody : ∀ s, (body s).Performs P) (fuel : ℕ) :
    ∀ s, (stop.iterate body fuel s).Performs P := by
  induction fuel with
  | zero => exact fun _ => hstop
  | succ fuel ih =>
    intro s
    rw [iterate]
    refine performs_bind (hbody s) fun r => ?_
    cases r with
    | inl s' => exact ih s'
    | inr a => exact performs_pure

theorem Performs.mono {P' : S.Op → Prop} (h : ∀ o, P o → P' o) {p : Prog S α}
    (hp : p.Performs P) : p.Performs P' := by
  induction p with
  | ret a => trivial
  | op o k ih => exact ⟨h o hp.1, fun r => ih r (hp.2 r)⟩

end Performs

end Prog

/-- A monitor over operations and answers. -/
structure Discipline (S : Sig) (τ : Type) where
  allow : τ → S.Op → Prop
  next : τ → (o : S.Op) → S.Resp o → τ

variable (D : Discipline S τ)

/-- From monitor state `t` the program only performs allowed operations, whatever
the answers, and ends with `Q`. -/
def Discipline.follows (t : τ) : Prog S α → (τ → α → Prop) → Prop
  | .ret a, Q => Q t a
  | .op o k, Q => D.allow t o ∧ ∀ r, Discipline.follows (D.next t o r) (k r) Q

namespace Discipline

variable {D}

@[simp] theorem follows_ret (t : τ) (a : α) (Q : τ → α → Prop) :
    D.follows t (.ret a) Q ↔ Q t a := Iff.rfl

@[simp] theorem follows_op (t : τ) (o : S.Op) (k : S.Resp o → Prog S α) (Q : τ → α → Prop) :
    D.follows t (.op o k) Q ↔ D.allow t o ∧ ∀ r, D.follows (D.next t o r) (k r) Q := Iff.rfl

-- from here on programs are taken apart by the rules only
attribute [irreducible] Discipline.follows

theorem follows_mono {p : Prog S α} {Q Q' : τ → α → Prop} (h : ∀ t a, Q t a → Q' t a) :
    ∀ {t}, D.follows t p Q → D.follows t p Q' := by
  induction p with
  | ret a =>
    intro t
    rw [follows_ret, follows_ret]
    exact h t a
  | op o k ih =>
    intro t
    rw [follows_op, follows_op]
    exact fun hq => ⟨hq.1, fun r => ih r (hq.2 r)⟩

theorem follows_bind {p : Prog S α} {f : α → Prog S β} {Q : τ → β → Prop} :
    ∀ {t}, D.follows t (p >>= f) Q ↔ D.follows t p fun t' a => D.follows t' (f a) Q := by
  induction p with
  | ret a =>
    intro t
    rw [Prog.ret_bind, follows_ret]
  | op o k ih =>
    intro t
    rw [Prog.op_bind, follows_op, follows_op]
    exact and_congr_right fun _ => forall_congr' fun r => ih r

/-- One operation, and what follows on its answer. -/
theorem follows_call {t : τ} {o : S.Op} {k : S.Resp o → Prog S α} {Q : τ → α → Prop}
    (ha : D.allow t o) (hk : ∀ r, D.follows (D.next t o r) (k r) Q) :
    D.follows t (Prog.call o >>= k) Q := by
  rw [Prog.call_bind, follows_op]
  exact ⟨ha, hk⟩

/-- One last operation. -/
theorem follows_last {t : τ} {o : S.Op} {Q : τ → S.Resp o → Prop} (ha : D.allow t o)
    (hq : ∀ r, Q (D.next t o r) r) : D.follows t (Prog.call o) Q := by
  rw [Prog.call, follows_op]
  exact ⟨ha, fun r => (follows_ret _ _ _).mpr (hq r)⟩

theorem follows_pure {t : τ} {a : α} {Q : τ → α → Prop} (h : Q t a) : D.follows t (pure a) Q := by
  rw [Prog.pure_eq, follows_ret]
  exact h

theorem follows_ite {t : τ} {c : Prop} [Decidable c] {p q : Prog S α} {Q : τ → α → Prop}
    (hp : D.follows t p Q) (hq : D.follows t q Q) : D.follows t (if c then p else q) Q := by
  split
  · exact hp
  · exact hq

/-- A program that ends in a known monitor state, and what follows. -/
theorem follows_then {t t' : τ} {p : Prog S α} {q : α → Prog S β} {Q : τ → β → Prop}
    (hp : D.follows t p fun u _ => u = t') (hq : ∀ a, D.follows t' (q a) Q) :
    D.follows t (p >>= q) Q := by
  rw [follows_bind]
  refine follows_mono ?_ hp
  intro u a hu
  rw [hu]
  exact hq a

/-- The invariant rule of loops. -/
theorem follows_iterate {σ : Type} {stop : Prog S α} {body : σ → Prog S (σ ⊕ α)}
    {I : τ → σ → Prop} {Q : τ → α → Prop} (hstop : ∀ t, D.follows t stop Q)
    (hbody : ∀ t s, I t s → D.follows t (body s) fun t' r => r.elim (I t') (Q t')) (fuel : ℕ) :
    ∀ {t s}, I t s → D.follows t (stop.iterate body fuel s) Q := by
  induction fuel with
  | zero =>
    intro t s _
    exact hstop t
  | succ fuel ih =>
    intro t s hI
    rw [Prog.iterate, follows_bind]
    refine follows_mono (fun t' r hr => ?_) (hbody t s hI)
    cases r with
    | inl s' => exact ih hr
    | inr a => exact follows_pure hr

/-- What one discipline allows, a second one allows, step by step. -/
theorem follows_simulate {τ' : Type} {D' : Discipline S τ'} {R : τ → τ' → Prop}
    {Q : τ → α → Prop} {Q' : τ' → α → Prop}
    (hstep : ∀ t t' o, R t t' → D.allow t o →
      D'.allow t' o ∧ ∀ r, R (D.next t o r) (D'.next t' o r))
    (hend : ∀ t t' a, R t t' → Q t a → Q' t' a) {p : Prog S α} :
    ∀ {t t'}, R t t' → D.follows t p Q → D'.follows t' p Q' := by
  induction p with
  | ret a =>
    intro t t' hR
    rw [follows_ret, follows_ret]
    exact hend t t' a hR
  | op o k ih =>
    intro t t' hR h
    rw [follows_op] at h ⊢
    obtain ⟨ha, hnext⟩ := hstep t t' o hR h.1
    exact ⟨ha, fun r => ih r (hnext r) (h.2 r)⟩

theorem follows_performs {P : S.Op → Prop} {R : τ → Prop} {p : Prog S α}
    (hstep : ∀ t o, R t → P o → D.allow t o ∧ ∀ r, R (D.next t o r)) :
    ∀ {t}, p.Performs P → R t → D.follows t p fun t' _ => R t' := by
  induction p with
  | ret a =>
    intro t _ ht
    rwa [follows_ret]
  | op o k ih =>
    intro t hp ht
    rw [follows_op]
    obtain ⟨hallow, hnext⟩ := hstep t o ht hp.1
    exact ⟨hallow, fun r => ih r (hp.2 r) (hnext r)⟩

/-- Two monitors side by side. -/
def both {τ' : Type} (D : Discipline S τ) (D' : Discipline S τ') : Discipline S (τ × τ') where
  allow t o := D.allow t.1 o ∧ D'.allow t.2 o
  next t o r := (D.next t.1 o r, D'.next t.2 o r)

theorem follows_fst {τ' : Type} {D' : Discipline S τ'} {Q : τ × τ' → α → Prop} {p : Prog S α}
    {t : τ} {t' : τ'} (h : (D.both D').follows (t, t') p Q) :
    D.follows t p fun u a => ∃ u', Q (u, u') a :=
  follows_simulate (R := fun u v => u.1 = v)
    (fun _ _ _ hu ha => hu ▸ ⟨ha.1, fun _ => rfl⟩) (fun u _ _ hu hq => hu ▸ ⟨u.2, hq⟩) rfl h

theorem follows_both {τ' : Type} {D' : Discipline S τ'} {Q : τ → α → Prop} {Q' : τ' → α → Prop}
    {p : Prog S α} : ∀ {t t'}, D.follows t p Q → D'.follows t' p Q' →
      (D.both D').follows (t, t') p fun u a => Q u.1 a ∧ Q' u.2 a := by
  induction p with
  | ret a =>
    intro t t' h h'
    rw [follows_ret] at h h' ⊢
    exact ⟨h, h'⟩
  | op o k ih =>
    intro t t' h h'
    rw [follows_op] at h h' ⊢
    exact ⟨⟨h.1, h'.1⟩, fun r => ih r (h.2 r) (h'.2 r)⟩

/-- The monitor state after a trace. -/
def after (D : Discipline S τ) (t : τ) : List ((o : S.Op) × S.Resp o) → τ
  | [] => t
  | x :: xs => D.after (D.next t x.1 x.2) xs

/-- Every operation of a trace is allowed where it stands. -/
def Accepts (D : Discipline S τ) (t : τ) : List ((o : S.Op) × S.Resp o) → Prop
  | [] => True
  | x :: xs => D.allow t x.1 ∧ D.Accepts (D.next t x.1 x.2) xs

theorem follows_trace {p : Prog S α} {Q : τ → α → Prop}
    (answers : List ((o : S.Op) → S.Resp o)) :
    ∀ {t}, D.follows t p Q → D.Accepts t (p.trace answers) := by
  induction answers generalizing p with
  | nil =>
    intro t _
    exact trivial
  | cons answer answers ih =>
    intro t h
    cases p with
    | ret a => exact trivial
    | op o k =>
      rw [follows_op] at h
      exact ⟨h.1, ih (h.2 (answer o))⟩

theorem follows_starts {p : Prog S α} {Q : τ → α → Prop} {xs : List ((o : S.Op) × S.Resp o)}
    (hxs : p.Starts xs) : ∀ {t}, D.follows t p Q → D.Accepts t xs := by
  induction hxs with
  | nil =>
    intro t _
    exact trivial
  | cons _ ih =>
    intro t h
    rw [follows_op] at h
    exact ⟨h.1, ih (h.2 _)⟩

theorem follows_ends {p : Prog S α} {Q : τ → α → Prop} {xs : List ((o : S.Op) × S.Resp o)} {a : α}
    (hxs : p.Ends xs a) : ∀ {t}, D.follows t p Q → Q (D.after t xs) a := by
  induction hxs with
  | ret =>
    intro t h
    rwa [follows_ret] at h
  | op _ ih =>
    intro t h
    rw [follows_op] at h
    exact ih (h.2 _)

theorem follows_run {σ : Type} {handler : (o : S.Op) → σ → S.Resp o × σ} {p : Prog S α}
    {Q : τ → α → Prop} : ∀ {t} {s : σ}, D.follows t p Q →
      D.Accepts t (p.run handler s).2.2 ∧
        Q (D.after t (p.run handler s).2.2) (p.run handler s).1 := by
  induction p with
  | ret a =>
    intro t s h
    rw [follows_ret] at h
    exact ⟨trivial, h⟩
  | op o k ih =>
    intro t s h
    rw [follows_op] at h
    obtain ⟨hxs, hq⟩ := ih (handler o s).1 (s := (handler o s).2) (h.2 (handler o s).1)
    exact ⟨⟨h.1, hxs⟩, hq⟩

end Discipline

end Resumption
