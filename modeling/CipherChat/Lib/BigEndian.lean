import Mathlib.Data.List.Basic
import Mathlib.Tactic.Ring

/-! # Fixed-width big-endian fields -/

namespace BigEndian

/-- The low `k` bytes of `n`, most significant first. -/
def encode : ℕ → ℕ → List UInt8
  | 0, _ => []
  | k + 1, n => UInt8.ofNat (n / 256 ^ k) :: encode k n

/-- The number a byte string denotes, most significant byte first. -/
def decode (bs : List UInt8) : ℕ := bs.foldl (fun n b => 256 * n + b.toNat) 0

@[simp] theorem encode_length (k n : ℕ) : (encode k n).length = k := by
  induction k with
  | zero => rfl
  | succ k ih => simp [encode, ih]

theorem decode_foldl (bs : List UInt8) (m : ℕ) :
    bs.foldl (fun n b => 256 * n + b.toNat) m = m * 256 ^ bs.length + decode bs := by
  induction bs generalizing m with
  | nil => simp [decode]
  | cons b bs ih =>
    simp only [decode, List.foldl_cons, List.length_cons]
    rw [ih, ih (256 * 0 + b.toNat)]
    ring

theorem decode_cons (b : UInt8) (bs : List UInt8) :
    decode (b :: bs) = b.toNat * 256 ^ bs.length + decode bs := by
  rw [decode, List.foldl_cons, decode_foldl]
  simp

theorem decode_lt (bs : List UInt8) : decode bs < 256 ^ bs.length := by
  induction bs with
  | nil => simp [decode]
  | cons b bs ih =>
    rw [decode_cons, List.length_cons, pow_succ]
    have hb : b.toNat + 1 ≤ 256 := b.toNat_lt
    calc b.toNat * 256 ^ bs.length + decode bs
        < b.toNat * 256 ^ bs.length + 256 ^ bs.length := by omega
      _ = (b.toNat + 1) * 256 ^ bs.length := by ring
      _ ≤ 256 * 256 ^ bs.length := Nat.mul_le_mul_right _ hb
      _ = 256 ^ bs.length * 256 := by ring

theorem decode_encode_mod (k n : ℕ) : decode (encode k n) = n % 256 ^ k := by
  induction k with
  | zero => simp [encode, decode, Nat.mod_one]
  | succ k ih =>
    have hsplit : n % 256 ^ (k + 1) = n % 256 ^ k + 256 ^ k * (n / 256 ^ k % 2 ^ 8) := by
      rw [pow_succ 256 k]
      exact Nat.mod_mul
    rw [encode, decode_cons, ih, encode_length, UInt8.toNat_ofNat', hsplit, add_comm, mul_comm]

theorem decode_encode {k n : ℕ} (h : n < 256 ^ k) : decode (encode k n) = n := by
  rw [decode_encode_mod, Nat.mod_eq_of_lt h]

theorem encode_mod (k n : ℕ) : encode k (n % 256 ^ k) = encode k n := by
  suffices h : ∀ j, j ≤ k → encode j (n % 256 ^ k) = encode j n from h k le_rfl
  intro j
  induction j with
  | zero => intro _; rfl
  | succ j ih =>
    intro hj
    rw [encode, encode, ih (by omega)]
    congr 1
    apply UInt8.toNat_inj.mp
    rw [UInt8.toNat_ofNat', UInt8.toNat_ofNat']
    obtain ⟨d, rfl⟩ : ∃ d, k = j + 1 + d := ⟨k - (j + 1), by omega⟩
    rw [pow_add, pow_succ, mul_assoc, Nat.mod_mul_right_div_self]
    exact Nat.mod_mul_right_mod _ 256 (256 ^ d)

/-- A byte string is the encoding of the number it denotes. -/
theorem encode_decode (bs : List UInt8) : encode bs.length (decode bs) = bs := by
  induction bs with
  | nil => rfl
  | cons b bs ih =>
    have hlt := decode_lt bs
    have hp : 0 < 256 ^ bs.length := Nat.pow_pos (by omega)
    rw [List.length_cons, encode, decode_cons]
    congr 1
    · apply UInt8.toNat_inj.mp
      rw [UInt8.toNat_ofNat', mul_comm, Nat.mul_add_div hp, Nat.div_eq_of_lt hlt, add_zero]
      exact Nat.mod_eq_of_lt b.toNat_lt
    · rw [← encode_mod, add_comm, Nat.add_mul_mod_self_right, encode_mod, ih]

theorem encode_injective {k n m : ℕ} (hn : n < 256 ^ k) (hm : m < 256 ^ k)
    (h : encode k n = encode k m) : n = m := by
  rw [← decode_encode hn, h, decode_encode hm]

end BigEndian
