import Mathlib.Data.Nat.Notation
import Mathlib.Logic.Function.Basic

/-!
# A directory of named files

Names point to files, files hold a list of symbols, and two names may point to
one file (a hard link).  A file is created under a name that is free; `next` is a
file that no name points to.
-/

/-- Names `P`, contents over `β`. -/
structure FileStore (P β : Type*) where
  entry : P → Option ℕ
  data : ℕ → List β
  next : ℕ
  bounded : ∀ p i, entry p = some i → i < next

namespace FileStore

variable {P β : Type*} (S : FileStore P β)

/-- The content a name leads to. -/
def read (p : P) : Option (List β) := (S.entry p).map S.data

/-- The file `i` gets the content `bytes`, under every name it has. -/
def write (i : ℕ) (bytes : List β) : FileStore P β where
  entry := S.entry
  data := Function.update S.data i bytes
  next := S.next
  bounded := S.bounded

@[simp] theorem write_entry (i : ℕ) (bytes : List β) : (S.write i bytes).entry = S.entry := rfl

@[simp] theorem write_data (i : ℕ) (bytes : List β) :
    (S.write i bytes).data = Function.update S.data i bytes := rfl

theorem write_self (i : ℕ) : S.write i (S.data i) = S := by
  simp [write]

theorem write_write (i : ℕ) (xs ys : List β) : (S.write i xs).write i ys = S.write i ys := by
  simp [write]

theorem ne_next {S : FileStore P β} {p : P} {i : ℕ} (h : S.entry p = some i) : i ≠ S.next :=
  Nat.ne_of_lt (S.bounded p i h)

variable [DecidableEq P]

/-- A new empty file under the name `p`. -/
def create (p : P) : FileStore P β where
  entry := Function.update S.entry p (some S.next)
  data := Function.update S.data S.next []
  next := S.next + 1
  bounded q i h := by
    by_cases hq : q = p
    · subst hq
      simp only [Function.update_self, Option.some.injEq] at h
      omega
    · rw [Function.update_of_ne hq] at h
      exact Nat.lt_succ_of_lt (S.bounded q i h)

/-- The file `i` gets the name `p` as well. -/
def link (i : ℕ) (hi : i < S.next) (p : P) : FileStore P β where
  entry := Function.update S.entry p (some i)
  data := S.data
  next := S.next
  bounded q j h := by
    by_cases hq : q = p
    · subst hq
      simp only [Function.update_self, Option.some.injEq] at h
      omega
    · rw [Function.update_of_ne hq] at h
      exact S.bounded q j h

/-- The name `p` goes; its file stays under its other names. -/
def unlink (p : P) : FileStore P β where
  entry := Function.update S.entry p none
  data := S.data
  next := S.next
  bounded q i h := by
    by_cases hq : q = p
    · subst hq
      rw [Function.update_self] at h
      cases h
    · rw [Function.update_of_ne hq] at h
      exact S.bounded q i h

@[simp] theorem create_entry (p : P) :
    (S.create p).entry = Function.update S.entry p (some S.next) := rfl

@[simp] theorem create_data (p : P) :
    (S.create p).data = Function.update S.data S.next [] := rfl

@[simp] theorem create_next (p : P) : (S.create p).next = S.next + 1 := rfl

@[simp] theorem link_entry {i : ℕ} (hi : i < S.next) (p : P) :
    (S.link i hi p).entry = Function.update S.entry p (some i) := rfl

@[simp] theorem unlink_entry (p : P) :
    (S.unlink p).entry = Function.update S.entry p none := rfl

end FileStore
