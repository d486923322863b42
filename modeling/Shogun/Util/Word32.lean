import Mathlib.Data.Nat.Bitwise
import Mathlib.Data.UInt
import Mathlib.Tactic.Ring

/-!
# Bits of 32-bit words

The idiom `x & ~(a - 1)` rounds `x` down to a multiple of the power of two `a`.
`toNat_and_not_sub_one` says so for 32-bit words; since `a` divides `2^32`, the result also is a
multiple of `a` when `x` itself came out of a subtraction that wrapped.

`toNat_and_mask` and `toNat_shiftRight` are the low bits of a word and those above them;
`and_fifteen` and `toNat_shiftRight_four` say the same for its lowest hexadecimal digit.
-/

namespace Word32

theorem eq_zero_iff (x : UInt32) : x = 0 ↔ x.toNat = 0 := by
  rw [← UInt32.toNat_inj]
  rfl

theorem nat_and_two_pow_sub_two_pow {x k w : ℕ} (hk : k ≤ w) (hx : x < 2 ^ w) :
    x &&& (2 ^ w - 2 ^ k) = x - x % 2 ^ k := by
  have hdiv : x - x % 2 ^ k = 2 ^ k * (x / 2 ^ k) := by
    have := Nat.div_add_mod x (2 ^ k)
    omega
  have hmask : 2 ^ w - 2 ^ k = 2 ^ k * (2 ^ (w - k) - 1) := by
    rw [Nat.mul_sub, ← pow_add, Nat.mul_one, Nat.add_sub_cancel' hk]
  apply Nat.eq_of_testBit_eq
  intro i
  rw [hdiv, hmask, Nat.testBit_and, Nat.testBit_two_pow_mul, Nat.testBit_two_pow_mul,
    Nat.testBit_two_pow_sub_one, Nat.testBit_div_two_pow]
  by_cases hik : k ≤ i
  · rw [Nat.sub_add_cancel hik]
    by_cases hiw : i < w
    · simp [hik, show i - k < w - k by omega]
    · -- bits at or above `w` are clear in `x`
      have hxi : x.testBit i = false :=
        Nat.testBit_lt_two_pow (hx.trans_le (Nat.pow_le_pow_right (by omega) (not_lt.mp hiw)))
      simp [hxi]
  · simp [hik]

/-- `x & ~(a - 1)` is `x` rounded down to a multiple of the power of two `a`. -/
theorem toNat_and_not_sub_one (x a : UInt32) {k : ℕ} (hk : k < 32) (ha : a.toNat = 2 ^ k) :
    (x &&& ~~~(a - 1)).toNat = x.toNat - x.toNat % a.toNat := by
  have hpos : 1 ≤ 2 ^ k := Nat.one_le_two_pow
  have hlt : 2 ^ k ≤ 2 ^ 31 := Nat.pow_le_pow_right (by omega) (by omega)
  have hsub : (a - 1).toNat = 2 ^ k - 1 := by
    rw [UInt32.toNat_sub_of_le _ _ (UInt32.le_iff_toNat_le.mpr (by rw [ha]; exact hpos)), ha]
    rfl
  have hnot : (~~~(a - 1)).toNat = 2 ^ 32 - 2 ^ k := by
    rw [UInt32.toNat_not, hsub, UInt32.size]
    omega
  rw [UInt32.toNat_and, hnot, nat_and_two_pow_sub_two_pow (by omega) x.toNat_lt, ha]

/-! ### Low and high bits -/

theorem toNat_and_mask (x : UInt32) {m : UInt32} {k : ℕ} (hm : m.toNat = 2 ^ k - 1) :
    (x &&& m).toNat = x.toNat % 2 ^ k := by
  rw [UInt32.toNat_and, hm, Nat.and_two_pow_sub_one_eq_mod]

theorem toNat_shiftRight (x : UInt32) {n : UInt32} {k : ℕ} (hn : n.toNat = k) (hk : k < 32) :
    (x >>> n).toNat = x.toNat / 2 ^ k := by
  rw [UInt32.toNat_shiftRight, hn, Nat.mod_eq_of_lt hk, Nat.shiftRight_eq_div_pow]

theorem and_fifteen (x : UInt32) : x &&& 0xF = UInt32.ofNat (x.toNat % 16) := by
  apply UInt32.toNat_inj.mp
  rw [toNat_and_mask x (k := 4) rfl, UInt32.toNat_ofNat']
  omega

theorem toNat_shiftRight_four (x : UInt32) : (x >>> 4).toNat = x.toNat / 16 :=
  toNat_shiftRight x rfl (by decide)

end Word32
