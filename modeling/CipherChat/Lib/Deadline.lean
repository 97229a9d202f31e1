import CipherChat.Lib.Resumption
import Mathlib.Tactic.Linarith

/-!
# Programs with a deadline

A program reads a clock and waits with timeouts.  The discipline: the first reading sets the
deadline; each wait, and each urgent operation, follows a reading that was before it with no wait
since; and no wait asks for more than that reading left.  A program that keeps it waits no longer,
all its waits together, than it has been given.
-/

namespace Resumption

variable {S : Sig} {α : Type}

/-- What reads the clock, what waits and how long at most, what is urgent; `tick` is the
resolution of the clock. -/
structure Clocked (S : Sig) where
  reading : (o : S.Op) → Option (S.Resp o → Option ℤ)
  timeout : S.Op → Option ℤ
  urgent : S.Op → Prop
  tick : ℤ
  tick_pos : 0 < tick

/-- The deadline once it is set, the last reading, and whether it was before the deadline with no
wait since. -/
structure Clock where
  deadline : Option ℤ := none
  latest : ℤ := 0
  fresh : Prop := False

namespace Clock

def read (budget : ℤ) (t : Clock) (now : ℤ) : Clock :=
  match t.deadline with
  | none => ⟨some (now + budget), now, 0 < budget⟩
  | some d => ⟨some d, now, now < d⟩

/-- A wait of at most `timeout` is over before the deadline. -/
def Allows (t : Clock) (timeout : ℤ) : Prop :=
  t.fresh ∧ 0 < timeout ∧ ∃ d, t.deadline = some d ∧ t.latest + timeout ≤ d

end Clock

/-- An operation, its answer, and how long it took. -/
structure Timed (S : Sig) where
  op : S.Op
  answer : S.Resp op
  elapsed : ℕ

def Timed.step (x : Timed S) : (o : S.Op) × S.Resp o := ⟨x.op, x.answer⟩

namespace Clocked

variable (C : Clocked S)

/-- The discipline of a program that is given `budget`. -/
def within (budget : ℤ) : Discipline S Clock where
  allow t o := (∀ timeout, C.timeout o = some timeout → t.Allows timeout) ∧ (C.urgent o → t.fresh)
  next t o r :=
    match C.timeout o, C.reading o with
    | some _, _ => { t with fresh := False }
    | none, none => t
    | none, some value =>
      match value r with
      | none => { t with fresh := False }
      | some now => t.read budget now

/-- The readings are those of a clock that shows `now` at the start. -/
def Timely : ℤ → List (Timed S) → Prop
  | _, [] => True
  | now, x :: xs =>
    (∀ value ∈ C.reading x.op, ∀ n ∈ value x.answer,
      now / C.tick ≤ n ∧ n ≤ (now + x.elapsed) / C.tick) ∧ Timely (now + x.elapsed) xs

/-- The time of an operation that is spent waiting. -/
def wait (x : Timed S) : ℤ :=
  match C.timeout x.op with
  | none => 0
  | some timeout => min x.elapsed (timeout * C.tick)

def waited (xs : List (Timed S)) : ℤ := (xs.map C.wait).sum

/-- What is left for waiting at time `now`. -/
def Left (budget : ℤ) (t : Clock) (now left : ℤ) : Prop :=
  match t.deadline with
  | none => ¬t.fresh ∧ (budget + 1) * C.tick - 1 ≤ left
  | some d => (d + 1) * C.tick - 1 - now ≤ left ∧ (t.fresh → (d - t.latest) * C.tick ≤ left)

variable {C} {budget : ℤ} {t : Clock} {now left : ℤ}

theorem Left.pass (h : C.Left budget t now left) (elapsed : ℕ) :
    C.Left budget t (now + elapsed) left := by
  unfold Left at h ⊢
  cases hd : t.deadline with
  | none =>
    rw [hd] at h
    exact h
  | some d =>
    rw [hd] at h
    dsimp only at h ⊢
    exact ⟨by omega, h.2⟩

theorem Left.stale (h : C.Left budget t now left) :
    C.Left budget { t with fresh := False } now left := by
  unfold Left at h ⊢
  cases hd : t.deadline with
  | none =>
    rw [hd] at h
    exact ⟨id, h.2⟩
  | some d =>
    rw [hd] at h
    exact ⟨h.1, False.elim⟩

theorem Left.read (h : C.Left budget t now left) {elapsed : ℕ} {n : ℤ} (hn : now / C.tick ≤ n)
    (hn' : n ≤ (now + elapsed) / C.tick) :
    C.Left budget (t.read budget n) (now + elapsed) left := by
  have hbefore : now < (n + 1) * C.tick :=
    (Int.lt_ediv_add_one_mul_self now C.tick_pos).trans_le
      (Int.mul_le_mul_of_nonneg_right (by omega) C.tick_pos.le)
  have hafter : n * C.tick ≤ now + elapsed :=
    (Int.mul_le_mul_of_nonneg_right hn' C.tick_pos.le).trans
      (Int.ediv_mul_le _ C.tick_pos.ne')
  unfold Left at h ⊢
  unfold Clock.read
  cases hd : t.deadline with
  | none =>
    rw [hd] at h
    dsimp only at h ⊢
    refine ⟨?_, fun _ => ?_⟩ <;> nlinarith [h.2, C.tick_pos]
  | some d =>
    rw [hd] at h
    dsimp only at h ⊢
    refine ⟨?_, fun _ => ?_⟩ <;> nlinarith [h.1]

theorem Left.wait (h : C.Left budget t now left) {timeout : ℤ} (ht : t.Allows timeout)
    (elapsed : ℕ) : C.Left budget { t with fresh := False } (now + elapsed)
      (left - min (elapsed : ℤ) (timeout * C.tick)) ∧
    min (elapsed : ℤ) (timeout * C.tick) ≤ left := by
  obtain ⟨hfresh, -, d, hd, hend⟩ := ht
  unfold Left at h ⊢
  rw [hd] at h ⊢
  dsimp only at h ⊢
  have hroom := h.2 hfresh
  have htimeout : timeout * C.tick ≤ (d - t.latest) * C.tick :=
    Int.mul_le_mul_of_nonneg_right (by omega) C.tick_pos.le
  exact ⟨⟨by omega, False.elim⟩, by omega⟩

theorem waited_le {xs : List (Timed S)} :
    ∀ {t : Clock} {now left : ℤ}, 0 ≤ left → C.Left budget t now left →
      (C.within budget).Accepts t (xs.map Timed.step) → C.Timely now xs → C.waited xs ≤ left := by
  induction xs with
  | nil =>
    intro t now left hleft _ _ _
    exact hleft
  | cons x xs ih =>
    intro t now left hleft hinv haccepts htimely
    obtain ⟨⟨hallow, -⟩, hrest⟩ := haccepts
    obtain ⟨hreading, hlater⟩ := htimely
    have hsum : C.waited (x :: xs) = C.wait x + C.waited xs := by
      rw [waited, List.map_cons, List.sum_cons, waited]
    rw [hsum]
    change (C.within budget).Accepts ((C.within budget).next t x.op x.answer) _ at hrest
    unfold within at hrest
    unfold wait
    dsimp only [Timed.step] at hrest hallow
    cases htimeout : C.timeout x.op with
    | some timeout =>
      rw [htimeout] at hrest
      obtain ⟨hinv', hle⟩ := hinv.wait (hallow timeout htimeout) x.elapsed
      have hlast := ih (by omega) hinv' hrest hlater
      dsimp only
      omega
    | none =>
      rw [htimeout] at hrest
      rw [zero_add]
      cases hclock : C.reading x.op with
      | none =>
        rw [hclock] at hrest
        exact ih hleft (hinv.pass x.elapsed) hrest hlater
      | some value =>
        rw [hclock] at hrest
        cases hvalue : value x.answer with
        | none =>
          dsimp only at hrest
          rw [hvalue] at hrest
          exact ih hleft (hinv.stale.pass x.elapsed) hrest hlater
        | some n =>
          dsimp only at hrest
          rw [hvalue] at hrest
          obtain ⟨hn, hn'⟩ := hreading value hclock n hvalue
          exact ih hleft (hinv.read hn hn') hrest hlater

theorem waited_lt {p : Prog S α} {Q : Clock → α → Prop} (hbudget : 0 ≤ budget)
    (hp : (C.within budget).follows {} p Q) {xs : List (Timed S)}
    (hxs : p.Starts (xs.map Timed.step)) (hclock : C.Timely now xs) :
    C.waited xs < (budget + 1) * C.tick := by
  have haccepts := Discipline.follows_starts hxs hp
  have hpos : 0 < (budget + 1) * C.tick := Int.mul_pos (by omega) C.tick_pos
  have hinv : C.Left budget {} now ((budget + 1) * C.tick - 1) := ⟨id, le_rfl⟩
  have hle := waited_le (by omega) hinv haccepts hclock
  omega

end Clocked

end Resumption
