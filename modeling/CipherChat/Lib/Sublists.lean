import Mathlib.Data.List.Forall2

/-!
# What comes out in order

`List.SublistForall₂ R out sent` says that something is passed on in order and at most once, and
that some of it may be lost: each item of `out` stands in `R` to an item of `sent`, later items
to later ones.  These are the rules for stages that follow one another.
-/

namespace List

variable {α β γ : Type*} {R R' : α → β → Prop} {S : β → γ → Prop} {l l' : List α} {m m' : List β}
  {n : List γ}

namespace SublistForall₂

theorem of_sublist (h : SublistForall₂ R l m) (hm : m <+ m') : SublistForall₂ R l m' := by
  obtain ⟨k, hk, hkm⟩ := sublistForall₂_iff.mp h
  exact sublistForall₂_iff.mpr ⟨k, hk, hkm.trans hm⟩

theorem imp_of_mem (hR : ∀ a ∈ l, ∀ b, R a b → R' a b) (h : SublistForall₂ R l m) :
    SublistForall₂ R' l m := by
  induction h with
  | nil => exact .nil
  | @cons a b l m hab _ ih =>
    exact .cons (hR a mem_cons_self b hab) (ih fun a' ha' => hR a' (mem_cons_of_mem a ha'))
  | cons_right _ ih => exact .cons_right (ih hR)

theorem imp (hR : ∀ a b, R a b → R' a b) (h : SublistForall₂ R l m) : SublistForall₂ R' l m :=
  h.imp_of_mem fun a _ => hR a

theorem comp (h : SublistForall₂ R l m) (h' : SublistForall₂ S m n) :
    SublistForall₂ (fun a c => ∃ b, R a b ∧ S b c) l n := by
  induction h' generalizing l with
  | nil =>
    cases h
    exact .nil
  | @cons b c m n hS _ ih =>
    cases h with
    | nil => exact .nil
    | cons hR h => exact .cons ⟨b, hR, hS⟩ (ih h)
    | cons_right h => exact .cons_right (ih h)
  | cons_right _ ih => exact .cons_right (ih h)

theorem sublist_left (hl : l' <+ l) (h : SublistForall₂ R l m) : SublistForall₂ R l' m := by
  have heq : SublistForall₂ Eq l' l := hl.sublistForall₂
  refine (heq.comp h).imp ?_
  rintro a b ⟨_, rfl, hR⟩
  exact hR

theorem concat (h : SublistForall₂ R l m) {a : α} {b : β} (hR : R a b) :
    SublistForall₂ R (l ++ [a]) (m ++ [b]) := by
  obtain ⟨k, hk, hkm⟩ := sublistForall₂_iff.mp h
  refine sublistForall₂_iff.mpr ⟨k ++ [b], ?_, hkm.append_right [b]⟩
  exact rel_append hk (.cons hR .nil)

theorem append_right (h : SublistForall₂ R l m) (m' : List β) : SublistForall₂ R l (m ++ m') :=
  h.of_sublist (sublist_append_left m m')

/-- Only items that satisfy `p` come out. -/
theorem filter_right {p : β → Bool} (hp : ∀ a b, R a b → p b = true) (h : SublistForall₂ R l m) :
    SublistForall₂ R l (m.filter p) := by
  induction h with
  | nil => exact .nil
  | @cons a b l m hR _ ih =>
    rw [filter_cons_of_pos (hp a b hR)]
    exact .cons hR ih
  | @cons_right b l m _ ih => exact ih.of_sublist ((sublist_cons_self b m).filter p)

theorem filterMap {δ : Type*} {f : δ → Option α} {g : δ → Option β} {k : List δ}
    (h : ∀ x a, f x = some a → ∃ b, g x = some b ∧ R a b) :
    SublistForall₂ R (k.filterMap f) (k.filterMap g) := by
  induction k with
  | nil => exact .nil
  | cons x k ih =>
    cases hf : f x with
    | none =>
      rw [filterMap_cons_none hf]
      cases hg : g x with
      | none => rwa [filterMap_cons_none hg]
      | some b =>
        rw [filterMap_cons_some hg]
        exact .cons_right ih
    | some a =>
      obtain ⟨b, hg, hR⟩ := h x a hf
      rw [filterMap_cons_some hf, filterMap_cons_some hg]
      exact .cons hR ih

end SublistForall₂

/-- What has come out of `sent`; in the slot is the last item, while it may still come out. -/
def Passes (R : α → β → Prop) (out : List α) (sent : List β) : Option β → Prop
  | none => SublistForall₂ R out sent
  | some b => ∃ earlier, sent = earlier ++ [b] ∧ SublistForall₂ R out earlier

namespace Passes

variable {out : List α} {sent : List β} {slot : Option β}

theorem imp (hR : ∀ a b, R a b → R' a b) (h : Passes R out sent slot) :
    Passes R' out sent slot := by
  cases slot with
  | none => exact SublistForall₂.imp hR h
  | some b =>
    obtain ⟨earlier, hsent, hout⟩ := h
    exact ⟨earlier, hsent, hout.imp hR⟩

theorem drop (h : Passes R out sent slot) : SublistForall₂ R out sent := by
  cases slot with
  | none => exact h
  | some b =>
    obtain ⟨earlier, rfl, hout⟩ := h
    exact hout.append_right [b]

theorem send (h : Passes R out sent slot) (b : β) : Passes R out (sent ++ [b]) (some b) :=
  ⟨sent, rfl, h.drop⟩

theorem pass {b : β} (h : Passes R out sent (some b)) {a : α} (hR : R a b) :
    Passes R (out ++ [a]) sent none := by
  obtain ⟨earlier, rfl, hout⟩ := h
  exact hout.concat hR

end Passes

end List
