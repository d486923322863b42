import Shogun.Memory.Libc
import Mathlib.Data.UInt
import Mathlib.Tactic.Abel

/-!
# What `memcpy` copies

`memcpy` copies upwards, so where the destination begins `d` bytes past the source and `d` is less
than the length, it reads back bytes it has written: byte `i` of the destination is byte `i % d` of
the source (`memcpy_apply`).  The distance is counted round the top of memory, so a destination
below the source is far away and the copy is right.  `memcpy_copies_iff` says for which arguments
the destination ends up with what the source held, whatever memory holds.
-/

namespace Shogun.Memory

/-! ### Offsets -/

theorem toNat_add_ofNat_sub (p : UInt32) {i : ℕ} (hi : i < 2 ^ 32) :
    (p + UInt32.ofNat i - p).toNat = i := by
  rw [add_sub_cancel_left, UInt32.toNat_ofNat', Nat.mod_eq_of_lt hi]

/-- An address is the one `i` bytes past `p` if it is `i` bytes away from it. -/
theorem eq_add_ofNat_iff {a p : UInt32} {i : ℕ} (hi : i < 2 ^ 32) :
    a = p + .ofNat i ↔ (a - p).toNat = i := by
  constructor
  · rintro rfl
    exact toNat_add_ofNat_sub p hi
  · intro h
    rw [← h, UInt32.ofNat_toNat, add_sub_cancel]

/-- How far byte `i` of the source lies past the start of the destination. -/
theorem toNat_src_sub_dest (dest src : UInt32) {i : ℕ} (hi : i < 2 ^ 32) :
    (src + UInt32.ofNat i - dest).toNat =
      if (dest - src).toNat ≤ i then i - (dest - src).toNat
      else i + 2 ^ 32 - (dest - src).toNat := by
  have hd := (dest - src).toNat_lt
  have hsub : src + UInt32.ofNat i - dest = .ofNat i - (dest - src) := by abel
  rw [hsub, UInt32.toNat_sub, UInt32.toNat_ofNat', Nat.mod_eq_of_lt hi]
  split <;> omega

/-! ### `memcpy` -/

/-- What a byte holds after `n` rounds. -/
def copied (m : ByteMemory) (dest src : UInt32) (n : ℕ) (a : UInt32) : UInt8 :=
  if (a - dest).toNat < n then m (src + .ofNat ((a - dest).toNat % (dest - src).toNat)) else m a

/-- Byte `i` of the source, after `i` rounds: as it was if the destination has not reached it, or
one that round `i - d` has written. -/
theorem copied_src (m : ByteMemory) (dest src : UInt32) {i : ℕ} (hi : i < 2 ^ 32) :
    copied m dest src i (src + .ofNat i) = m (src + .ofNat (i % (dest - src).toNat)) := by
  have hd := (dest - src).toNat_lt
  rw [copied, toNat_src_sub_dest dest src hi]
  by_cases hle : (dest - src).toNat ≤ i
  · rw [if_pos hle]
    by_cases hzero : (dest - src).toNat = 0
    · -- the source itself is the destination
      rw [if_neg (by omega), hzero, Nat.mod_zero]
    · rw [if_pos (by omega), ← Nat.mod_eq_sub_mod hle]
  · rw [if_neg hle, if_neg (by omega), Nat.mod_eq_of_lt (by omega)]

/-- **What `memcpy` leaves at every address.**  Inside the destination, byte `i` is what byte
`i % d` of the source held, where `d` is how far the destination lies past the source; `i % 0` is
`i`.  Everything else is as it was. -/
theorem memcpy_apply (m : ByteMemory) (dest src num a : UInt32) :
    memcpy m dest src num a =
      if (a - dest).toNat < num.toNat then
        m (src + .ofNat ((a - dest).toNat % (dest - src).toNat))
      else m a := by
  have hnum := num.toNat_lt
  revert a
  apply forLoop_invariant fun n (t : ByteMemory) => ∀ a, t a = copied m dest src n a
  · intro a
    rw [copied, if_neg (Nat.not_lt_zero _)]
  · intro i t hi ht a
    have hi : i < 2 ^ 32 := by omega
    rw [setByte, ht a, ht, copied_src m dest src hi]
    simp only [copied, eq_add_ofNat_iff hi]
    by_cases heq : (a - dest).toNat = i
    · rw [if_pos heq, if_pos (by omega), heq]
    · rw [if_neg heq]
      split_ifs <;> first | rfl | omega

/-- **When `memcpy` copies.**  The destination ends up with what the source held, in every memory,
exactly if the two are the same or the destination does not begin inside the source. -/
theorem memcpy_copies_iff (dest src num : UInt32) :
    (∀ m : ByteMemory, ∀ i < num.toNat,
        memcpy m dest src num (dest + .ofNat i) = m (src + .ofNat i)) ↔
      dest = src ∨ num.toNat ≤ (dest - src).toNat := by
  have hnum := num.toNat_lt
  constructor
  · intro h
    by_contra hnot
    obtain ⟨hne, hlt⟩ := not_or.mp hnot
    have hpos : (dest - src).toNat ≠ 0 := by
      intro hzero
      apply hne
      rw [← sub_eq_zero, ← UInt32.toNat_inj, hzero]
      rfl
    -- byte `d` of the destination is byte `0` of the source, and memory may tell them apart
    let m : ByteMemory := fun a => if a = src then 1 else 0
    have hcopy := h m (dest - src).toNat (by omega)
    rw [memcpy_apply, toNat_add_ofNat_sub dest (by omega), if_pos (by omega), Nat.mod_self] at hcopy
    have hoff : src + UInt32.ofNat (dest - src).toNat = dest := by
      rw [UInt32.ofNat_toNat, add_sub_cancel]
    rw [hoff] at hcopy
    simp [m, hne] at hcopy
  · intro h m i hi
    rw [memcpy_apply, toNat_add_ofNat_sub dest (by omega), if_pos hi]
    rcases h with rfl | h
    · rw [sub_self, show (0 : UInt32).toNat = 0 from rfl, Nat.mod_zero]
    · rw [Nat.mod_eq_of_lt (by omega)]

end Shogun.Memory
