import Mathlib.Data.UInt

/-!
# Deadlines on a clock that wraps

A clock counts modulo `M` and a deadline `d` ticks ahead is compared with it by a plain `≤`, both
reduced modulo `M`.

* `forall_lt_deadline_iff`: the deadline is not reached early exactly when it does not wrap.
* `deadline_window_iff`: it is not reached early, and stays reached for `h` ticks after the start,
  exactly when the clock itself does not wrap within `h` ticks.
-/

namespace WrapClock

variable {M t : ℕ}

/-- No tick before the deadline `t + d` is taken for it exactly when the deadline does not wrap. -/
theorem forall_lt_deadline_iff (ht : t < M) (d : ℕ) :
    (∀ k < d, (t + k) % M < (t + d) % M) ↔ t + d < M := by
  constructor
  · intro hearly
    by_contra hwrap
    -- the last value before the wrap is at least any deadline
    have hlast := hearly (M - 1 - t) (by omega)
    have hdeadline := Nat.mod_lt (t + d) (Nat.zero_lt_of_lt ht)
    rw [show t + (M - 1 - t) = M - 1 by omega, Nat.mod_eq_of_lt (by omega)] at hlast
    omega
  · intro hle k hk
    rw [Nat.mod_eq_of_lt hle, Nat.mod_eq_of_lt (by omega)]
    omega

/-- Besides, every tick from the deadline to the end of a window of `h` ticks is taken for it
exactly when the clock does not wrap in the window. -/
theorem deadline_window_iff (ht : t < M) {n h : ℕ} (hn : n ≤ h) (hh : h < M) :
    ((∀ k < n, (t + k) % M < (t + n) % M)
        ∧ ∀ k, n ≤ k → k ≤ h → (t + n) % M ≤ (t + k) % M)
      ↔ t + h < M := by
  rw [forall_lt_deadline_iff ht]
  constructor
  · rintro ⟨hearly, hlate⟩
    by_contra hwrap
    -- when the clock has wrapped it shows zero
    have hzero := hlate (M - t) (by omega) (by omega)
    rw [show t + (M - t) = M by omega, Nat.mod_self, Nat.mod_eq_of_lt hearly] at hzero
    omega
  · intro hle
    refine ⟨by omega, fun k hk hkh => ?_⟩
    rw [Nat.mod_eq_of_lt (by omega), Nat.mod_eq_of_lt (by omega)]
    omega

/-- What a 32-bit clock shows after `k` ticks. -/
theorem toNat_add_ofNat (t : UInt32) (k : ℕ) :
    (t + UInt32.ofNat k).toNat = (t.toNat + k) % 2 ^ 32 := by
  rw [UInt32.toNat_add, UInt32.toNat_ofNat', Nat.add_mod_mod]

end WrapClock
