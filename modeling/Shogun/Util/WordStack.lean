import Shogun.Util.ByteMemory

/-!
# A stack of words in memory

`Holds m b ws`: from address `b` on, memory holds the words `ws`.  A stack that grows downwards
pushes with `store32` below `b` (`Holds.push`) and pops with `load32` at `b`.  Addresses wrap, so
that nothing is asked of the stack pointer.
-/

namespace WordStack

open ByteMemory

/-- The words from address `b` on. -/
def Holds (m : ByteMemory) (b : UInt32) : List UInt32 → Prop
  | [] => True
  | w :: ws => m.load32 b = w ∧ Holds m (b + 4) ws

/-- A store in front of the words leaves them alone. -/
theorem Holds.store {m : ByteMemory} {a b : UInt32} {ws : List UInt32} (h : Holds m b ws)
    (v : UInt32) (hlow : 4 ≤ (b - a).toNat) (hhigh : (b - a).toNat + 4 * ws.length ≤ 2 ^ 32) :
    Holds (m.store32 a v) b ws := by
  induction ws generalizing b with
  | nil => trivial
  | cons w ws ih =>
    rw [List.length_cons] at hhigh
    refine ⟨?_, ?_⟩
    · rw [load32_store32_of_sub m v hlow (by omega)]
      exact h.1
    · cases ws with
      | nil => trivial
      | cons w' ws =>
        rw [List.length_cons] at hhigh ih
        have hnext : (b + 4 - a).toNat = (b - a).toNat + 4 := by
          rw [add_sub_right_comm, UInt32.toNat_add, show (4 : UInt32).toNat = 4 from rfl]
          omega
        exact ih h.2 (by omega) (by omega)

/-- Pushing a word. -/
theorem Holds.push {m : ByteMemory} {b : UInt32} {ws : List UInt32} (h : Holds m b ws) (w : UInt32)
    (hlen : ws.length < 2 ^ 29) : Holds (m.store32 (b - 4) w) (b - 4) (w :: ws) := by
  refine ⟨load32_store32_same m (b - 4) w, ?_⟩
  have hdist : (b - (b - 4)).toNat = 4 := by
    rw [sub_sub_cancel]
    rfl
  rw [sub_add_cancel]
  exact h.store w (by omega) (by omega)

/-- Words are given by their bytes. -/
theorem Holds.congr {m m' : ByteMemory} {b : UInt32} {ws : List UInt32} (h : Holds m b ws)
    (heq : ∀ i < 4 * ws.length, m' (b + .ofNat i) = m (b + .ofNat i)) : Holds m' b ws := by
  induction ws generalizing b with
  | nil => trivial
  | cons w ws ih =>
    rw [List.length_cons] at heq
    refine ⟨?_, ?_⟩
    · rw [load32_congr fun i hi => heq i (by omega)]
      exact h.1
    · apply ih h.2
      intro i hi
      have hbyte := heq (4 + i) (by omega)
      rw [UInt32.ofNat_add, ← UInt32.add_assoc] at hbyte
      exact hbyte

end WordStack
