import Mathlib.Data.Nat.Digits.Defs
import Mathlib.Data.UInt
import Mathlib.Tactic.Ring

/-!
# Bit ranges of packed bytes

`bitRange n start len` is the number in bits `start` to `start + len - 1` of `n`, and
`littleEndian bytes` the number that bytes in memory hold, least significant first.

* `bitRange_bitRange`: a range of a range.
* `bitRange_littleEndian`: a range that starts and ends between bytes is those bytes.
-/

/-- Bits `start` to `start + len - 1` of `n`. -/
def bitRange (n start len : ℕ) : ℕ := n / 2 ^ start % 2 ^ len

theorem bitRange_lt (n start len : ℕ) : bitRange n start len < 2 ^ len :=
  Nat.mod_lt _ (Nat.two_pow_pos len)

theorem bitRange_bitRange (n s : ℕ) {m t len : ℕ} (h : t + len ≤ m) :
    bitRange (bitRange n s m) t len = bitRange n (s + t) len := by
  obtain ⟨k, rfl⟩ := Nat.exists_eq_add_of_le h
  unfold bitRange
  rw [Nat.add_assoc, Nat.pow_add 2 t, Nat.mod_mul_right_div_self, Nat.div_div_eq_div_mul,
    ← Nat.pow_add, Nat.mod_mod_of_dvd _ (Nat.pow_dvd_pow 2 (Nat.le_add_right len k))]

/-- The number that bytes hold, least significant first. -/
def littleEndian : List UInt8 → ℕ
  | [] => 0
  | b :: bytes => b.toNat + 2 ^ 8 * littleEndian bytes

theorem littleEndian_append (xs ys : List UInt8) :
    littleEndian (xs ++ ys) = littleEndian xs + 2 ^ (8 * xs.length) * littleEndian ys := by
  induction xs with
  | nil =>
    show littleEndian ys = 0 + 2 ^ 0 * littleEndian ys
    rw [Nat.pow_zero, Nat.one_mul, Nat.zero_add]
  | cons x xs ih =>
    rw [List.cons_append, littleEndian, ih, littleEndian, List.length_cons, Nat.mul_succ,
      Nat.pow_add]
    ring

theorem littleEndian_lt (xs : List UInt8) : littleEndian xs < 2 ^ (8 * xs.length) := by
  induction xs with
  | nil => exact Nat.one_pos
  | cons x xs ih =>
    have hx := x.toNat_lt
    rw [littleEndian, List.length_cons, Nat.mul_succ, Nat.pow_add]
    omega

/-- The bytes between two others. -/
theorem bitRange_littleEndian (xs ys zs : List UInt8) :
    bitRange (littleEndian (xs ++ (ys ++ zs))) (8 * xs.length) (8 * ys.length)
      = littleEndian ys := by
  unfold bitRange
  rw [littleEndian_append, littleEndian_append, Nat.add_mul_div_left _ _ (Nat.two_pow_pos _),
    Nat.div_eq_of_lt (littleEndian_lt xs), Nat.zero_add, Nat.add_mul_mod_self_left,
    Nat.mod_eq_of_lt (littleEndian_lt ys)]

/-- The two bytes of a 16-bit word. -/
def bytes16 (v : UInt16) : List UInt8 := [v.toUInt8, (v >>> 8).toUInt8]

theorem littleEndian_bytes16 (v : UInt16) : littleEndian (bytes16 v) = v.toNat := by
  have hlt := v.toNat_lt
  show v.toUInt8.toNat + 2 ^ 8 * ((v >>> 8).toUInt8.toNat + 2 ^ 8 * 0) = v.toNat
  rw [UInt16.toNat_toUInt8, UInt16.toNat_toUInt8, UInt16.toNat_shiftRight,
    show (8 : UInt16).toNat % 16 = 8 from rfl, Nat.shiftRight_eq_div_pow]
  omega
