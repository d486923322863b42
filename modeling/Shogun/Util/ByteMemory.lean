import Mathlib.Data.UInt
import Mathlib.Tactic.IntervalCases

/-!
# A flat 32-bit byte memory

`ByteMemory` is the memory a 32-bit machine addresses: one byte for each of the `2^32` addresses.
`load32` and `store32` are the little-endian word accesses; an access at the top of memory wraps
round to address `0`, as the hardware's does.

The two laws every program proof needs are `load32_store32_same` (a load sees the last store) and
`load32_store32_of_apart` (a store leaves a word that shares no byte with it alone).  `Apart` is
stated on the natural numbers behind the addresses, so that its instances are closed by `omega`.
-/

/-- One byte for each 32-bit address. -/
def ByteMemory : Type := UInt32 → UInt8

namespace ByteMemory

/-- The four bytes at `a`, least significant first, as a word. -/
def load32 (m : ByteMemory) (a : UInt32) : UInt32 :=
  .ofNat ((m a).toNat + 2 ^ 8 * (m (a + 1)).toNat + 2 ^ 16 * (m (a + 2)).toNat
    + 2 ^ 24 * (m (a + 3)).toNat)

/-- Overwrites the four bytes at `a` with those of `v`, least significant first. -/
def store32 (m : ByteMemory) (a v : UInt32) : ByteMemory := fun b =>
  if (b - a).toNat < 4 then .ofNat (v.toNat / 2 ^ (8 * (b - a).toNat)) else m b

/-- Overwrites the byte at `a`. -/
def store8 (m : ByteMemory) (a : UInt32) (v : UInt8) : ByteMemory :=
  fun b => if b = a then v else m b

/-- The words at `a` and `b` share no byte and neither wraps. -/
def Apart (a b : UInt32) : Prop :=
  a.toNat + 4 ≤ b.toNat ∧ b.toNat + 4 ≤ 2 ^ 32 ∨ b.toNat + 4 ≤ a.toNat ∧ a.toNat + 4 ≤ 2 ^ 32

theorem Apart.symm {a b : UInt32} (h : Apart a b) : Apart b a := Or.symm h

/-! ### Bytes -/

theorem store32_apply_add (m : ByteMemory) (a v : UInt32) {i : Nat} (hi : i < 4) :
    m.store32 a v (a + .ofNat i) = .ofNat (v.toNat / 2 ^ (8 * i)) := by
  have hoff : (a + UInt32.ofNat i - a).toNat = i := by
    rw [add_sub_cancel_left, UInt32.toNat_ofNat']
    omega
  rw [store32, if_pos (by omega), hoff]

theorem store32_apply_of_le (m : ByteMemory) {a b : UInt32} (v : UInt32)
    (h : 4 ≤ (b - a).toNat) : m.store32 a v b = m b := by
  rw [store32, if_neg (by omega)]

/-- The `i`-th byte of a word apart from `a` is four or more bytes past `a`, going round. -/
theorem Apart.le_sub {a b : UInt32} (h : Apart a b) {i : Nat} (hi : i < 4) :
    4 ≤ (b + .ofNat i - a).toNat := by
  have ha := a.toNat_lt
  have hb := b.toNat_lt
  rw [UInt32.toNat_sub, UInt32.toNat_add, UInt32.toNat_ofNat']
  rcases h with h | h <;> omega

theorem store8_apply_self (m : ByteMemory) (a : UInt32) (v : UInt8) : m.store8 a v a = v :=
  if_pos rfl

/-! ### Words -/

/-- A word is given by its four bytes. -/
theorem load32_congr {m m' : ByteMemory} {a : UInt32}
    (h : ∀ i < 4, m' (a + .ofNat i) = m (a + .ofNat i)) : m'.load32 a = m.load32 a := by
  have h0 := h 0 (by omega)
  have h1 := h 1 (by omega)
  have h2 := h 2 (by omega)
  have h3 := h 3 (by omega)
  rw [show a + UInt32.ofNat 0 = a from UInt32.add_zero a] at h0
  rw [load32, load32, h0]
  erw [h1, h2, h3]
  rfl

/-- A load sees the store before it. -/
theorem load32_store32_same (m : ByteMemory) (a v : UInt32) :
    (m.store32 a v).load32 a = v := by
  have hv := v.toNat_lt
  have h0 := store32_apply_add m a v (i := 0) (by omega)
  have h1 := store32_apply_add m a v (i := 1) (by omega)
  have h2 := store32_apply_add m a v (i := 2) (by omega)
  have h3 := store32_apply_add m a v (i := 3) (by omega)
  rw [show a + UInt32.ofNat 0 = a from UInt32.add_zero a] at h0
  rw [load32, h0]
  erw [h1, h2, h3]
  apply UInt32.toNat_inj.mp
  simp only [UInt32.toNat_ofNat', UInt8.toNat_ofNat']
  omega

/-- A store leaves every word that shares no byte with it alone. -/
theorem load32_store32_of_apart (m : ByteMemory) {a b : UInt32} (v : UInt32) (h : Apart a b) :
    (m.store32 a v).load32 b = m.load32 b := by
  apply load32_congr
  intro i hi
  exact store32_apply_of_le m v (h.le_sub hi)

/-- The lowest byte of a word is the byte at its address. -/
theorem toUInt8_load32 (m : ByteMemory) (a : UInt32) : (m.load32 a).toUInt8 = m a := by
  apply UInt8.toNat_inj.mp
  have h := (m a).toNat_lt
  rw [UInt32.toNat_toUInt8, load32, UInt32.toNat_ofNat']
  omega

/-- A byte written into one word leaves the words apart from it alone. -/
theorem load32_store8_of_apart (m : ByteMemory) {a b : UInt32} (v : UInt8) (h : Apart a b) :
    (m.store8 a v).load32 b = m.load32 b := by
  apply load32_congr
  intro i hi
  apply if_neg
  intro heq
  have hle := h.le_sub hi
  rw [heq, sub_self] at hle
  exact absurd hle (by decide)

/-- `load32_store32_of_apart` for words that may wrap, by their distance. -/
theorem load32_store32_of_sub (m : ByteMemory) {a b : UInt32} (v : UInt32)
    (hlow : 4 ≤ (b - a).toNat) (hhigh : (b - a).toNat ≤ 2 ^ 32 - 4) :
    (m.store32 a v).load32 b = m.load32 b := by
  apply load32_congr
  intro i hi
  apply store32_apply_of_le
  rw [add_sub_right_comm, UInt32.toNat_add, UInt32.toNat_ofNat']
  omega

end ByteMemory
