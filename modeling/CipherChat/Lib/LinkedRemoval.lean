import CipherChat.Lib.LinkedQueue

/-!
# Removal from the middle of a linked queue

The walk keeps the node before the one it looks at.  Unlinking writes the link of
that node, or the head when there is none, and moves the tail back when the
removed node was the last.
-/

namespace LinkedQueue

variable {α : Type*}

/-- The first node, among at most `k` from `pending`, whose value meets `p`, and the
node before it. -/
def findFirst (h : Heap α) (p : α → Bool) : ℕ → Option ℕ → Option ℕ → Option (Option ℕ × ℕ × Node α)
  | k + 1, previous, some pending =>
    match h pending with
    | some n =>
      if p n.value then some (previous, pending, n) else findFirst h p k (some pending) n.next
    | none => none
  | _, _, _ => none

/-- Unlink `pending`, which stands behind `previous`, and free it. -/
def unlink (h : Heap α) (q : Queue) (previous : Option ℕ) (pending : ℕ) (n : Node α) :
    Heap α × Queue :=
  let linked := match previous with
    | some b => Function.update h b ((h b).map fun m => { m with next := n.next })
    | none => h
  (Function.update linked pending none,
    { head := if previous = none then n.next else q.head
      tail := if q.tail = some pending then previous else q.tail
      count := q.count - 1 })

/-- Remove the first value that meets `p`. -/
def removeFirst (h : Heap α) (p : α → Bool) (q : Queue) : Option (α × Heap α × Queue) :=
  match findFirst h p q.count none q.head with
  | some (previous, pending, n) => some (n.value, unlink h q previous pending n)
  | none => none

section

variable {h : Heap α} {p : α → Bool} {cs ds : List (ℕ × α)} {a : ℕ} {v : α}

/-- The last address before a place in the chain, or the one the walk came with. -/
def before (previous : Option ℕ) (cs : List (ℕ × α)) : Option ℕ := (addrs cs).getLast?.or previous

theorem before_cons (previous : Option ℕ) (c : ℕ × α) (cs : List (ℕ × α)) :
    before previous (c :: cs) = before (some c.1) cs := by
  cases cs with
  | nil => rfl
  | cons d cs => simp [before, List.getLast?_cons]

theorem findFirst_none {first : Option ℕ} (hc : Cells h first cs) (hp : ∀ c ∈ cs, p c.2 = false)
    (previous : Option ℕ) : findFirst h p cs.length previous first = none := by
  induction cs generalizing first previous with
  | nil => rfl
  | cons c cs ih =>
    obtain ⟨rfl, next, hn, hrest⟩ := hc
    rw [List.length_cons, findFirst, hn]
    dsimp only
    rw [if_neg (by simp [hp c (by simp)])]
    exact ih hrest (fun d hd => hp d (List.mem_cons_of_mem _ hd)) _

theorem findFirst_some {first : Option ℕ} {k : ℕ} (hc : Cells h first (cs ++ (a, v) :: ds))
    (hcs : ∀ c ∈ cs, p c.2 = false) (hv : p v = true) (hk : cs.length < k) (previous : Option ℕ) :
    ∃ next, h a = some ⟨v, next⟩ ∧ Cells h next ds ∧
      findFirst h p k previous first = some (before previous cs, a, ⟨v, next⟩) := by
  induction cs generalizing first previous k with
  | nil =>
    obtain ⟨rfl, next, hn, hrest⟩ := hc
    obtain ⟨k, rfl⟩ := Nat.exists_eq_add_of_lt hk
    refine ⟨next, hn, hrest, ?_⟩
    simp [findFirst, hn, hv, before]
  | cons c cs ih =>
    obtain ⟨rfl, next, hn, hrest⟩ := hc
    cases k with
    | zero => omega
    | succ k =>
      rw [List.length_cons, Nat.succ_lt_succ_iff] at hk
      obtain ⟨nx, ha, hds, hfind⟩ := ih hrest (fun d hd => hcs d (List.mem_cons_of_mem _ hd)) hk
        (some c.1)
      refine ⟨nx, ha, hds, ?_⟩
      rw [findFirst, hn]
      dsimp only
      rw [if_neg (by simp [hcs c (by simp)]), hfind, before_cons]

theorem Cells.bypass {h' : Heap α} {first : Option ℕ} {b : ℕ} {w : α} {next : Option ℕ}
    (hc : Cells h first (cs ++ [(b, w)] ++ (a, v) :: ds)) (hds : Cells h' next ds)
    (hb : h' b = some ⟨w, next⟩) (hold : ∀ c ∈ addrs cs, h' c = h c) :
    Cells h' first (cs ++ [(b, w)] ++ ds) := by
  induction cs generalizing first with
  | nil =>
    obtain ⟨rfl, -⟩ := hc
    exact ⟨rfl, next, hb, hds⟩
  | cons c cs ih =>
    obtain ⟨rfl, nx, hn, hrest⟩ := hc
    exact ⟨rfl, nx, by rw [hold c.1 (by simp), hn],
      ih hrest fun d hd => hold d (by simp [hd])⟩

theorem Cells.at_last {first : Option ℕ} {b : ℕ} {w : α} {rest : List (ℕ × α)}
    (hc : Cells h first (cs ++ (b, w) :: rest)) : ∃ next, h b = some ⟨w, next⟩ := by
  induction cs generalizing first with
  | nil => exact ⟨hc.2.choose, hc.2.choose_spec.1⟩
  | cons c cs ih =>
    obtain ⟨-, next, -, hrest⟩ := hc
    exact ih hrest

end

theorem Stores.removeFirst_none {h : Heap α} {q : Queue} {cs : List (ℕ × α)} {p : α → Bool}
    (hq : Stores h q cs) (hp : ∀ c ∈ cs, p c.2 = false) : removeFirst h p q = none := by
  rw [removeFirst, hq.count, findFirst_none hq.cells hp]

theorem Stores.removeFirst_some {h : Heap α} {q : Queue} {cs ds : List (ℕ × α)} {a : ℕ} {v : α}
    {p : α → Bool} (hq : Stores h q (cs ++ (a, v) :: ds)) (hcs : ∀ c ∈ cs, p c.2 = false)
    (hv : p v = true) :
    ∃ h' q', removeFirst h p q = some (v, h', q') ∧ Stores h' q' (cs ++ ds) := by
  obtain ⟨hcells, htail, hcount, hnodup⟩ := hq
  obtain ⟨next, ha, hds, hfind⟩ := findFirst_some (k := q.count) hcells hcs hv
    (by rw [hcount, List.length_append, List.length_cons]; omega) none
  have hne : (addrs (cs ++ ds)).Nodup ∧ a ∉ addrs (cs ++ ds) := by
    have hperm := hnodup
    rw [addrs_append, addrs_cons, List.nodup_middle, List.nodup_cons, ← addrs_append] at hperm
    exact ⟨hperm.2, hperm.1⟩
  obtain ⟨hkeep, hout⟩ := hne
  rw [addrs_append, List.mem_append, not_or] at hout
  have hcountEq : q.count - 1 = (cs ++ ds).length := by
    rw [hcount]
    simp
  have htailEq : (if q.tail = some a then before none cs else q.tail) =
      (addrs (cs ++ ds)).getLast? := by
    rw [htail]
    rcases List.eq_nil_or_concat' ds with rfl | ⟨ds, d, rfl⟩
    · simp [before]
    · have hda : d.1 ≠ a := by
        rintro rfl
        exact hout.2 (by simp)
      simp [hda, List.getLast?_cons]
  rw [removeFirst, hfind]
  refine ⟨_, _, rfl, ?_⟩
  rcases List.eq_nil_or_concat' cs with rfl | ⟨cs, ⟨b, w⟩, rfl⟩
  · -- the head was removed
    refine ⟨?_, htailEq, hcountEq, hkeep⟩
    exact hds.update hout.2 none
  -- the cell before it is linked to what followed
  · have hba : b ≠ a := by
      rintro rfl
      exact hout.1 (by simp)
    have hbefore : before none (cs ++ [(b, w)]) = some b := by simp [before]
    rw [addrs_append, List.nodup_append] at hkeep
    obtain ⟨hnodupCs, hnodupDs, hdisjoint⟩ := hkeep
    have hbds : b ∉ addrs ds := fun hm => hdisjoint b (by simp) b hm rfl
    have hbcs : b ∉ addrs cs := by
      rw [addrs_append, List.nodup_append] at hnodupCs
      exact fun hm => hnodupCs.2.2 b hm b (by simp) rfl
    obtain ⟨nx, hb⟩ : ∃ nx, h b = some ⟨w, nx⟩ := by
      rw [List.append_assoc] at hcells
      exact hcells.at_last
    refine ⟨?_, htailEq, hcountEq, ?_⟩
    · simp only [hbefore]
      rw [if_neg (by simp)]
      refine hcells.bypass ((hds.update hbds _).update hout.2 none) ?_ ?_
      · rw [Function.update_of_ne hba, Function.update_self, hb]
        rfl
      · intro c hc
        have hcb : c ≠ b := fun he => hbcs (he ▸ hc)
        have hca : c ≠ a := fun he => hout.1 (by simp [← he, hc])
        rw [Function.update_of_ne hca, Function.update_of_ne hcb]
    · rw [addrs_append, List.nodup_append]
      exact ⟨hnodupCs, hnodupDs, hdisjoint⟩

end LinkedQueue
