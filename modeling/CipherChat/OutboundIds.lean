import CipherChat.RouteTable
import Mathlib.Data.Fintype.EquivFin
import Mathlib.Data.Nat.ModEq

/-!
# Outbound ids

An allocation tries 401 ids, the nonzero ones from the counter on, around the end of the
32 bits.  They are all different, so one of them is used by none of the 400 routes.
-/

namespace CipherChat.FileRoutes

/-- The id that is tried after `j` others, from the counter `next` on. -/
def candidate (next : UInt32) (j : ℕ) : UInt32 :=
  UInt32.ofNat (1 + (next.toNat - 1 + j) % (2 ^ 32 - 1))

theorem candidate_toNat (next : UInt32) (j : ℕ) :
    (candidate next j).toNat = 1 + (next.toNat - 1 + j) % (2 ^ 32 - 1) := by
  have hlt := Nat.mod_lt (next.toNat - 1 + j) (show 0 < 2 ^ 32 - 1 by decide)
  rw [candidate, UInt32.toNat_ofNat', Nat.mod_eq_of_lt (by omega)]

theorem candidate_zero (next : UInt32) :
    candidate next 0 = if next = 0 then next + 1 else next := by
  apply UInt32.toNat_inj.mp
  have hlt := next.toNat_lt
  rw [candidate_toNat]
  split
  · next h =>
    rw [h]
    decide
  · next h =>
    have hpos : next.toNat ≠ 0 := fun h0 => h (UInt32.toNat_inj.mp h0)
    rw [Nat.mod_eq_of_lt (by omega)]
    omega

theorem candidate_succ (next : UInt32) (j : ℕ) :
    candidate (candidate next 0 + 1) j = candidate next (j + 1) := by
  apply UInt32.toNat_inj.mp
  have hfirst := candidate_toNat next 0
  have hlt := Nat.mod_lt (next.toNat - 1 + 0) (show 0 < 2 ^ 32 - 1 by decide)
  have hmod : (next.toNat - 1 + (j + 1)) % (2 ^ 32 - 1) =
      ((next.toNat - 1 + 0) % (2 ^ 32 - 1) + (j + 1)) % (2 ^ 32 - 1) :=
    (Nat.mod_add_mod (next.toNat - 1) (2 ^ 32 - 1) (j + 1)).symm
  rw [candidate_toNat, candidate_toNat, UInt32.toNat_add, UInt32.toNat_one, hfirst, hmod]
  generalize (next.toNat - 1 + 0) % (2 ^ 32 - 1) = x at hlt
  by_cases hwrap : x = 2 ^ 32 - 2
  · rw [hwrap]
    have h1 : 2 ^ 32 - 2 + (j + 1) = j + (2 ^ 32 - 1) := by omega
    have h2 : (1 + (2 ^ 32 - 2) + 1) % 2 ^ 32 - 1 + j = j := by omega
    rw [h1, h2, Nat.add_mod_right]
  · have h2 : (1 + x + 1) % 2 ^ 32 - 1 + j = x + (j + 1) := by omega
    rw [h2]

theorem candidate_ne_zero (next : UInt32) (j : ℕ) : candidate next j ≠ 0 := by
  intro h
  have h0 := congrArg UInt32.toNat h
  rw [candidate_toNat, UInt32.toNat_zero] at h0
  omega

theorem candidate_inj (next : UInt32) {j k : ℕ} (hj : j < 2 ^ 32 - 1) (hk : k < 2 ^ 32 - 1)
    (h : candidate next j = candidate next k) : j = k := by
  have hnat := congrArg UInt32.toNat h
  rw [candidate_toNat, candidate_toNat] at hnat
  have hmod : Nat.ModEq (2 ^ 32 - 1) (next.toNat - 1 + j) (next.toNat - 1 + k) :=
    Nat.add_left_cancel hnat
  have hcancel := Nat.ModEq.add_left_cancel' _ hmod
  rwa [Nat.ModEq, Nat.mod_eq_of_lt hj, Nat.mod_eq_of_lt hk] at hcancel

theorem inUse_of_allocate {t : FileRoutes} {attempts : ℕ} {next : UInt32}
    (h : (t.allocateAttempts attempts next).1 = 0) :
    ∀ j < attempts, t.inUse (candidate next j) = true := by
  induction attempts generalizing next with
  | zero =>
    intro j hj
    omega
  | succ attempts ih =>
    rw [allocateAttempts, ← candidate_zero] at h
    split at h
    · next huse =>
      intro j hj
      cases j with
      | zero => exact huse
      | succ j =>
        rw [← candidate_succ]
        exact ih h j (by omega)
    · exact absurd h (candidate_ne_zero next 0)

theorem exists_of_inUse {t : FileRoutes} {o : UInt32} (h : t.inUse o = true) :
    ∃ i, (t.routes i).outboundTransferId = o := by
  rw [inUse] at h
  obtain ⟨i, hi⟩ := Option.isSome_iff_exists.mp h
  have htrue := Fin.eq_true_of_find?_eq_some hi
  rw [Bool.and_eq_true, beq_iff_eq] at htrue
  exact ⟨i, htrue.2⟩

theorem allocateOutboundId_ne_zero (t : FileRoutes) : t.allocateOutboundId.1 ≠ 0 := by
  intro h
  have hnone : (t.allocateAttempts (fileRouteCapacity + 1) t.nextOutboundTransferId).1 = 0 := by
    rw [← h, allocateOutboundId]
  have hslot : ∀ j : Fin (fileRouteCapacity + 1), ∃ i, (t.routes i).outboundTransferId =
      candidate t.nextOutboundTransferId j :=
    fun j => exists_of_inUse (inUse_of_allocate hnone j j.isLt)
  choose slot hslot using hslot
  have hinj : Function.Injective slot := by
    intro j k hjk
    have hcap : fileRouteCapacity = 400 := rfl
    have hj := j.isLt
    have hk := k.isLt
    refine Fin.ext (candidate_inj t.nextOutboundTransferId (by omega) (by omega) ?_)
    rw [← hslot, ← hslot, hjk]
  have hle := Fintype.card_le_of_injective slot hinj
  rw [Fintype.card_fin, Fintype.card_fin] at hle
  omega

/-- Every allocation finds an id that no live route uses, wherever the counter stands, so no
transfer is rejected for want of one. -/
theorem outbound_ids_never_run_out (t : FileRoutes) : t.allocateOutboundId.1 ≠ 0 ∧
    (∀ i, (t.routes i).Live → (t.routes i).outboundTransferId ≠ t.allocateOutboundId.1) ∧
    ∀ senderId sourceTransferId targetId expectedSize discard,
      (t.add senderId sourceTransferId targetId expectedSize discard).2.result ≠
        .idUnavailable := by
  have h0 := t.allocateOutboundId_ne_zero
  rcases ha : t.allocateOutboundId with ⟨o, t'⟩
  rw [ha] at h0
  dsimp only at h0 ⊢
  refine ⟨h0, fun i hi => inUse_eq_false (allocateOutboundId_fresh ha h0) i hi, ?_⟩
  intro senderId sourceTransferId targetId expectedSize discard
  unfold add
  split
  · exact FileRouteAddResult.noConfusion
  · split
    · exact FileRouteAddResult.noConfusion
    · split
      · exact FileRouteAddResult.noConfusion
      · rw [ha]
        dsimp only
        rw [if_neg h0]
        exact FileRouteAddResult.noConfusion

end CipherChat.FileRoutes
