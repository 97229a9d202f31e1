import Mathlib.Data.List.Nodup
import Mathlib.Logic.Function.Basic

/-!
# Singly linked queues in a heap

A queue is a head pointer, a tail pointer and a counter; its nodes live in a heap
shared with other queues.  `Stores` says that a queue holds a given list of cells,
`Family` that several queues do so without sharing a node.
-/

namespace LinkedQueue

variable {α ι : Type*}

structure Node (α : Type*) where
  value : α
  next : Option ℕ

/-- Allocated nodes by address. -/
abbrev Heap (α : Type*) := ℕ → Option (Node α)

structure Queue where
  head : Option ℕ := none
  tail : Option ℕ := none
  count : ℕ := 0
  deriving DecidableEq, Repr

/-- Link the node at the unused address `a` behind the tail. -/
def enqueue (h : Heap α) (q : Queue) (a : ℕ) (v : α) : Heap α × Queue :=
  let h := Function.update h a (some ⟨v, none⟩)
  match q.tail with
  | some t =>
    (Function.update h t ((h t).map fun n => { n with next := some a }),
      { q with tail := some a, count := q.count + 1 })
  | none => (h, { head := some a, tail := some a, count := q.count + 1 })

/-- Unlink and free the first node. -/
def dequeue (h : Heap α) (q : Queue) : Option α × Heap α × Queue :=
  match q.head.bind h, q.head with
  | some n, some a =>
    (some n.value, Function.update h a none,
      { head := n.next, tail := if n.next = none then none else q.tail, count := q.count - 1 })
  | _, _ => (none, h, q)

/-- Free at most `k` nodes along the chain from `p`. -/
def freeChain (h : Heap α) : ℕ → Option ℕ → Heap α
  | k + 1, some a => freeChain (Function.update h a none) k ((h a).bind Node.next)
  | _, _ => h

/-- The values of at most `k` nodes along the chain from `p`. -/
def toList (h : Heap α) : ℕ → Option ℕ → List α
  | k + 1, some a =>
    match h a with
    | some n => n.value :: toList h k n.next
    | none => []
  | _, _ => []

/-- The chain from `p` visits exactly these addresses and values. -/
def Cells (h : Heap α) : Option ℕ → List (ℕ × α) → Prop
  | p, [] => p = none
  | p, (a, v) :: cs => p = some a ∧ ∃ next, h a = some ⟨v, next⟩ ∧ Cells h next cs

def addrs (cs : List (ℕ × α)) : List ℕ := cs.map Prod.fst

@[simp] theorem addrs_nil : addrs ([] : List (ℕ × α)) = [] := rfl

@[simp] theorem addrs_cons (c : ℕ × α) (cs : List (ℕ × α)) :
    addrs (c :: cs) = c.1 :: addrs cs := rfl

@[simp] theorem addrs_append (cs ds : List (ℕ × α)) : addrs (cs ++ ds) = addrs cs ++ addrs ds :=
  List.map_append

theorem Cells.update {h : Heap α} {p : Option ℕ} {cs : List (ℕ × α)} (hc : Cells h p cs) {a : ℕ}
    (ha : a ∉ addrs cs) (x : Option (Node α)) : Cells (Function.update h a x) p cs := by
  induction cs generalizing p with
  | nil => exact hc
  | cons c cs ih =>
    obtain ⟨hp, next, hn, hrest⟩ := hc
    rw [addrs_cons, List.mem_cons, not_or] at ha
    exact ⟨hp, next, by rwa [Function.update_of_ne (Ne.symm ha.1)], ih hrest ha.2⟩

theorem Cells.allocated {h : Heap α} {p : Option ℕ} {cs : List (ℕ × α)} (hc : Cells h p cs) {a : ℕ}
    (ha : a ∈ addrs cs) : h a ≠ none := by
  induction cs generalizing p with
  | nil => cases ha
  | cons c cs ih =>
    obtain ⟨hp, next, hn, hrest⟩ := hc
    rcases List.mem_cons.mp ha with rfl | ha
    · rw [hn]
      simp
    · exact ih hrest ha

theorem Cells.extend {h : Heap α} {p : Option ℕ} {cs : List (ℕ × α)} {t a : ℕ} {v w : α}
    (hc : Cells h p (cs ++ [(t, w)])) (hd : (addrs (cs ++ [(t, w)])).Nodup)
    (ha : a ∉ addrs (cs ++ [(t, w)])) (h' : Heap α) (hold : ∀ b, b ≠ t → b ≠ a → h' b = h b)
    (ht : h' t = some ⟨w, some a⟩) (hnew : h' a = some ⟨v, none⟩) :
    Cells h' p (cs ++ [(t, w), (a, v)]) := by
  induction cs generalizing p with
  | nil =>
    obtain ⟨hp, -⟩ := hc
    exact ⟨hp, some a, ht, rfl, none, hnew, rfl⟩
  | cons c cs ih =>
    obtain ⟨hp, next, hn, hrest⟩ := hc
    simp only [List.cons_append, addrs_cons, List.nodup_cons, List.mem_cons, not_or] at hd ha
    have hct : c.1 ≠ t := by
      rintro rfl
      exact hd.1 (by simp)
    exact ⟨hp, next, by rw [hold c.1 hct (Ne.symm ha.1), hn], ih hrest hd.2 ha.2⟩

/-- The queue holds exactly these cells. -/
structure Stores (h : Heap α) (q : Queue) (cs : List (ℕ × α)) : Prop where
  cells : Cells h q.head cs
  tail : q.tail = (addrs cs).getLast?
  count : q.count = cs.length
  nodup : (addrs cs).Nodup

theorem Stores.nil (h : Heap α) : Stores h {} [] := ⟨rfl, rfl, rfl, List.nodup_nil⟩

theorem Stores.head_eq_none {h : Heap α} {q : Queue} {cs : List (ℕ × α)} (hq : Stores h q cs) :
    q.head = none ↔ cs = [] := by
  have hc := hq.cells
  cases cs with
  | nil => exact ⟨fun _ => rfl, fun _ => hc⟩
  | cons c cs => simp [hc.1]

theorem Stores.tail_eq_none {h : Heap α} {q : Queue} {cs : List (ℕ × α)} (hq : Stores h q cs) :
    q.tail = none ↔ cs = [] := by
  rw [hq.tail, List.getLast?_eq_none_iff]
  simp [addrs]

theorem Stores.not_mem {h : Heap α} {q : Queue} {cs : List (ℕ × α)} (hq : Stores h q cs) {a : ℕ}
    (ha : h a = none) : a ∉ addrs cs := fun hm => hq.cells.allocated hm ha

theorem Stores.enqueue {h : Heap α} {q : Queue} {cs : List (ℕ × α)} (hq : Stores h q cs) {a : ℕ}
    (ha : h a = none) (v : α) :
    Stores (enqueue h q a v).1 (enqueue h q a v).2 (cs ++ [(a, v)]) := by
  have hna := hq.not_mem ha
  have hnodup : (addrs (cs ++ [(a, v)])).Nodup := by
    rw [addrs_append, List.nodup_append]
    refine ⟨hq.nodup, List.nodup_singleton _, ?_⟩
    rintro x hx y hy rfl
    obtain rfl : x = a := List.mem_singleton.mp hy
    exact hna hx
  rcases List.eq_nil_or_concat' cs with rfl | ⟨cs, ⟨t, w⟩, rfl⟩
  · have ht : q.tail = none := hq.tail
    have hc : q.count = 0 := hq.count
    simp only [LinkedQueue.enqueue, ht]
    exact ⟨⟨rfl, none, by simp, rfl⟩, rfl, by simp [hc], hnodup⟩
  · have ht : q.tail = some t := by
      rw [hq.tail]
      simp
    have hta : t ≠ a := by
      rintro rfl
      exact hna (by simp)
    -- the old tail is allocated and holds `w`
    obtain ⟨nx, hnx⟩ : ∃ nx, h t = some ⟨w, nx⟩ := by
      have hc := hq.cells
      clear ht hna hnodup hq
      induction cs generalizing q with
      | nil => exact ⟨hc.2.choose, hc.2.choose_spec.1⟩
      | cons c cs ih =>
        obtain ⟨-, next, -, hrest⟩ := hc
        exact ih (q := { q with head := next }) hrest
    simp only [LinkedQueue.enqueue, ht]
    refine ⟨?_, by simp, by simp [hq.count], hnodup⟩
    rw [List.append_assoc, List.singleton_append]
    refine hq.cells.extend hq.nodup hna _ ?_ ?_ ?_
    · intro b hbt hba
      rw [Function.update_of_ne hbt, Function.update_of_ne hba]
    · rw [Function.update_self, Function.update_of_ne hta, hnx]
      rfl
    · rw [Function.update_of_ne (Ne.symm hta), Function.update_self]

theorem enqueue_heap {h : Heap α} {q : Queue} {a b : ℕ} (v : α) (hba : b ≠ a)
    (hbt : q.tail ≠ some b) : (enqueue h q a v).1 b = h b := by
  unfold enqueue
  split
  · rename_i t ht
    have : b ≠ t := fun hb => hbt (hb ▸ ht)
    simp [this, hba]
  · simp [hba]

theorem Cells.congr {h h' : Heap α} {p : Option ℕ} {cs : List (ℕ × α)} (hc : Cells h p cs)
    (heq : ∀ a ∈ addrs cs, h' a = h a) : Cells h' p cs := by
  induction cs generalizing p with
  | nil => exact hc
  | cons c cs ih =>
    obtain ⟨hp, next, hn, hrest⟩ := hc
    exact ⟨hp, next, by rw [heq _ (by simp), hn], ih hrest fun a ha => heq a (by simp [ha])⟩

theorem Stores.dequeue_nil {h : Heap α} {q : Queue} (hq : Stores h q []) :
    dequeue h q = (none, h, q) := by
  have hh : q.head = none := hq.cells
  simp [dequeue, hh]

theorem Stores.dequeue_cons {h : Heap α} {q : Queue} {a : ℕ} {v : α} {cs : List (ℕ × α)}
    (hq : Stores h q ((a, v) :: cs)) :
    (dequeue h q).1 = some v ∧ (dequeue h q).2.1 = Function.update h a none ∧
      Stores (dequeue h q).2.1 (dequeue h q).2.2 cs := by
  obtain ⟨⟨hp, next, hn, hrest⟩, htail, hcount, hnodup⟩ := hq
  have hd : dequeue h q = (some v, Function.update h a none,
      { head := next, tail := if next = none then none else q.tail, count := q.count - 1 }) := by
    simp [dequeue, hp, hn]
  rw [addrs_cons, List.nodup_cons] at hnodup
  refine ⟨by rw [hd], by rw [hd], ?_⟩
  rw [hd]
  refine ⟨hrest.update hnodup.1 none, ?_, by simp [hcount], hnodup.2⟩
  cases cs with
  | nil =>
    obtain rfl : next = none := hrest
    rfl
  | cons c cs =>
    obtain ⟨rfl, -⟩ := hrest
    simp [htail]

theorem Stores.toList {h : Heap α} {q : Queue} {cs : List (ℕ × α)} (hq : Stores h q cs) :
    toList h q.count q.head = cs.map Prod.snd := by
  rw [hq.count]
  have hc := hq.cells
  generalize q.head = p at hc
  clear hq
  induction cs generalizing p with
  | nil => cases hc; rfl
  | cons c cs ih =>
    obtain ⟨rfl, next, hn, hrest⟩ := hc
    simp only [List.length_cons, LinkedQueue.toList, hn, List.map_cons]
    rw [ih next hrest]

theorem freeChain_of_not_mem {h : Heap α} {p : Option ℕ} {cs : List (ℕ × α)} (hc : Cells h p cs)
    (hd : (addrs cs).Nodup) {b : ℕ} (hb : b ∉ addrs cs) : freeChain h cs.length p b = h b := by
  induction cs generalizing h p with
  | nil =>
    obtain rfl : p = none := hc
    rfl
  | cons c cs ih =>
    obtain ⟨rfl, next, hn, hrest⟩ := hc
    rw [addrs_cons, List.mem_cons, not_or] at hb
    rw [addrs_cons, List.nodup_cons] at hd
    rw [List.length_cons, freeChain, hn]
    rw [show (some (⟨c.2, next⟩ : Node α)).bind Node.next = next from rfl,
      ih (hrest.update hd.1 none) hd.2 hb.2, Function.update_of_ne hb.1]

/-- Queue `i` holds the cells `c i`, and no two queues share a node. -/
structure Family (h : Heap α) (q : ι → Queue) (c : ι → List (ℕ × α)) : Prop where
  stores : ∀ i, Stores h (q i) (c i)
  disjoint : ∀ i j, i ≠ j → ∀ a, a ∈ addrs (c i) → a ∉ addrs (c j)

theorem Family.empty (h : Heap α) : Family h (fun _ : ι => {}) (fun _ => []) :=
  ⟨fun _ => Stores.nil h, fun _ _ _ _ ha => by cases ha⟩

variable [DecidableEq ι] {h : Heap α} {q : ι → Queue} {c : ι → List (ℕ × α)}

theorem Family.replace (hf : Family h q c) (i : ι) {h' : Heap α} {q' : Queue} {cs' : List (ℕ × α)}
    (hrepr : Stores h' q' cs') (hframe : ∀ j, j ≠ i → ∀ a ∈ addrs (c j), h' a = h a)
    (hdisj : ∀ j, j ≠ i → ∀ a ∈ addrs (c j), a ∉ addrs cs') :
    Family h' (Function.update q i q') (Function.update c i cs') := by
  refine ⟨fun j => ?_, fun j k hjk a haj hak => ?_⟩
  · by_cases hj : j = i
    · subst hj
      simpa using hrepr
    · rw [Function.update_of_ne hj, Function.update_of_ne hj]
      have := hf.stores j
      exact ⟨this.cells.congr (hframe j hj), this.tail, this.count, this.nodup⟩
  · by_cases hj : j = i
    · subst hj
      rw [Function.update_self] at haj
      rw [Function.update_of_ne (Ne.symm hjk)] at hak
      exact hdisj k (Ne.symm hjk) a hak haj
    · rw [Function.update_of_ne hj] at haj
      by_cases hk : k = i
      · subst hk
        rw [Function.update_self] at hak
        exact hdisj j hj a haj hak
      · rw [Function.update_of_ne hk] at hak
        exact hf.disjoint j k hjk a haj hak

theorem Family.enqueue (hf : Family h q c) (i : ι) {a : ℕ} (ha : h a = none) (v : α) :
    Family (enqueue h (q i) a v).1 (Function.update q i (enqueue h (q i) a v).2)
      (Function.update c i (c i ++ [(a, v)])) := by
  refine hf.replace i ((hf.stores i).enqueue ha v) ?_ ?_
  · intro j hj b hb
    refine enqueue_heap v (fun hba => (hf.stores j).not_mem ha (hba ▸ hb)) fun ht => ?_
    rw [(hf.stores i).tail] at ht
    exact hf.disjoint j i hj b hb (List.mem_of_getLast? ht)
  · intro j hj b hb hb'
    rw [addrs_append, List.mem_append] at hb'
    rcases hb' with hb' | hb'
    · exact hf.disjoint j i hj b hb hb'
    · obtain rfl : b = a := List.mem_singleton.mp hb'
      exact (hf.stores j).not_mem ha hb

theorem Family.dequeue (hf : Family h q c) (i : ι) {a : ℕ} {v : α} {cs : List (ℕ × α)}
    (hc : c i = (a, v) :: cs) :
    (dequeue h (q i)).1 = some v ∧
      Family (dequeue h (q i)).2.1 (Function.update q i (dequeue h (q i)).2.2)
        (Function.update c i cs) := by
  have hi := hf.stores i
  rw [hc] at hi
  obtain ⟨hv, hh, hr⟩ := hi.dequeue_cons
  refine ⟨hv, hf.replace i hr ?_ ?_⟩
  · intro j hj b hb
    have hba : b ≠ a := by
      rintro rfl
      exact hf.disjoint j i hj b hb (by simp [hc])
    rw [hh, Function.update_of_ne hba]
  · intro j hj b hb hb'
    exact hf.disjoint j i hj b hb (by simp [hc, hb'])

theorem Family.free (hf : Family h q c) (i : ι) :
    Family (freeChain h (q i).count (q i).head) (Function.update q i {})
      (Function.update c i []) := by
  refine hf.replace i (Stores.nil _) ?_ fun _ _ _ _ hb => by cases hb
  intro j hj b hb
  have hi := hf.stores i
  rw [hi.count]
  exact freeChain_of_not_mem hi.cells hi.nodup (hf.disjoint j i hj b hb)

end LinkedQueue
