import Mathlib.Data.UInt

/-!
# Flags in a byte

A flag of a byte is tested with a mask, `x &&& m != 0`.  Setting other bits leaves the test as it is
(`or_and_of_disjoint`), and setting the flag itself decides it (`or_and_ne_zero`).
-/

namespace UInt8

theorem or_and_right (x a m : UInt8) : (x ||| a) &&& m = (x &&& m) ||| (a &&& m) :=
  UInt8.toBitVec_inj.mp BitVec.and_or_distrib_right

theorem and_or_right (x a m : UInt8) : (x &&& a) ||| m = (x ||| m) &&& (a ||| m) :=
  UInt8.toBitVec_inj.mp (BitVec.eq_of_getElem_eq (by simp [Bool.or_and_distrib_right]))

/-- Clearing bits that are set at once does nothing. -/
theorem and_or_of_cover {a m : UInt8} (h : a ||| m = 0xFF) (x : UInt8) :
    (x &&& a) ||| m = x ||| m := by
  rw [and_or_right, h]
  exact UInt8.and_neg_one

theorem or_and_of_disjoint {a m : UInt8} (h : a &&& m = 0) (x : UInt8) :
    (x ||| a) &&& m = x &&& m := by
  rw [or_and_right, h, UInt8.or_zero]

theorem or_and_ne_zero {a m : UInt8} (h : a &&& m ≠ 0) (x : UInt8) : (x ||| a) &&& m ≠ 0 := by
  rw [or_and_right]
  intro hzero
  exact h (UInt8.or_eq_zero_iff.mp hzero).2

end UInt8
