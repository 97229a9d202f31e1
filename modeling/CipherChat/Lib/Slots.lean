import Mathlib.Data.List.FinRange
import Mathlib.Data.Fin.Tuple.Basic

/-!
# Tables with a fixed number of slots

A table is a function on `Fin n`.  `Fin.find?` is the scan for the first slot
that matches; a sweep visits every slot once, in order, rewrites it from its own
content and collects what the slot emits, up to a capacity.
-/

namespace Slots

variable {n : ℕ} {α β : Type*}

def visit (g : α → α) (e : α → Option β) (capacity : ℕ) (p : (Fin n → α) × List β) (i : Fin n) :
    (Fin n → α) × List β :=
  (Function.update p.1 i (g (p.1 i)),
    match e (p.1 i) with
    | some b => if p.2.length < capacity then p.2 ++ [b] else p.2
    | none => p.2)

theorem visit_foldl_fst (g : α → α) (e : α → Option β) (capacity : ℕ) (l : List (Fin n))
    (hl : l.Nodup) (p : (Fin n → α) × List β) (i : Fin n) :
    (l.foldl (visit g e capacity) p).1 i = if i ∈ l then g (p.1 i) else p.1 i := by
  induction l generalizing p with
  | nil => simp
  | cons j l ih =>
    obtain ⟨hj, hl⟩ := List.nodup_cons.mp hl
    rw [List.foldl_cons, ih hl]
    by_cases hij : i = j
    · subst hij
      simp [visit, hj]
    · simp [visit, hij]

theorem visit_foldl_snd (g : α → α) (e : α → Option β) {capacity : ℕ} (l : List (Fin n))
    (hl : l.Nodup) (p : (Fin n → α) × List β) (hp : p.2.length ≤ capacity) :
    (l.foldl (visit g e capacity) p).2 = (p.2 ++ l.filterMap fun i => e (p.1 i)).take capacity := by
  induction l generalizing p with
  | nil => simp [List.take_of_length_le hp]
  | cons j l ih =>
    obtain ⟨hj, hl⟩ := List.nodup_cons.mp hl
    -- the slots still to be visited are the ones the visit of `j` leaves alone
    have hrest : (l.filterMap fun i => e ((visit g e capacity p j).1 i)) =
        l.filterMap fun i => e (p.1 i) := by
      apply List.filterMap_congr
      intro i hi
      have hij : i ≠ j := fun h => hj (h ▸ hi)
      simp [visit, hij]
    rw [List.foldl_cons]
    cases he : e (p.1 j) with
    | none =>
      have hsnd : (visit g e capacity p j).2 = p.2 := by simp [visit, he]
      rw [ih hl _ (by rw [hsnd]; exact hp), hrest, hsnd, List.filterMap_cons, he]
    | some b =>
      by_cases hlt : p.2.length < capacity
      · have hsnd : (visit g e capacity p j).2 = p.2 ++ [b] := by simp [visit, he, hlt]
        have hle : (visit g e capacity p j).2.length ≤ capacity := by
          rw [hsnd, List.length_append, List.length_singleton]
          exact hlt
        rw [ih hl _ hle, hrest, hsnd, List.filterMap_cons, he, List.append_assoc,
          List.singleton_append]
      · have hsnd : (visit g e capacity p j).2 = p.2 := by simp [visit, he, hlt]
        have hcap : p.2.length = capacity := by omega
        rw [ih hl _ (by rw [hsnd]; exact hp), hsnd, List.take_left' hcap, List.take_left' hcap]

theorem sweep_fst (g : α → α) (e : α → Option β) (capacity : ℕ) (t : Fin n → α) (i : Fin n) :
    ((List.finRange n).foldl (visit g e capacity) (t, [])).1 i = g (t i) := by
  rw [visit_foldl_fst g e capacity _ (List.nodup_finRange n)]
  simp

theorem sweep_snd (g : α → α) (e : α → Option β) (capacity : ℕ) (t : Fin n → α) :
    ((List.finRange n).foldl (visit g e capacity) (t, [])).2 =
      ((List.finRange n).filterMap fun i => e (t i)).take capacity := by
  rw [visit_foldl_snd g e _ (List.nodup_finRange n) _ (Nat.zero_le _)]
  rfl

theorem filterMap_perm {f : α → Option β} {p q : α → Bool} {a b : α → β}
    (hp : ∀ x, p x = true → q x = false ∧ f x = some (a x))
    (hq : ∀ x, q x = true → f x = some (b x))
    (hnone : ∀ x, p x = false → q x = false → f x = none) (l : List α) :
    (l.filterMap f).Perm ((l.filter p).map a ++ (l.filter q).map b) := by
  induction l with
  | nil => exact .nil
  | cons x l ih =>
    rw [List.filterMap_cons, List.filter_cons, List.filter_cons]
    by_cases hpx : p x = true
    · obtain ⟨hqx, hfx⟩ := hp x hpx
      rw [hfx, if_pos hpx, hqx, if_neg Bool.false_ne_true, List.map_cons, List.cons_append]
      exact ih.cons (a x)
    · rw [if_neg hpx]
      by_cases hqx : q x = true
      · rw [hq x hqx, if_pos hqx, List.map_cons]
        exact (ih.cons (b x)).trans List.perm_middle.symm
      · rw [hnone x (Bool.eq_false_iff.mpr hpx) (Bool.eq_false_iff.mpr hqx), if_neg hqx]
        exact ih

end Slots
