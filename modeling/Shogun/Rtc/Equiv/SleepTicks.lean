import Mathlib.Data.UInt
import Mathlib.Order.Monotone.Basic
import Shogun.Rtc.Sleep

/-!
# How long `sleep_ticks` sleeps

* `observed`: the value of `system_tick_count` that the test of round `i` uses.
* `haltLoop_spec`: the loop ends in the first round whose test fails, or when it is out of rounds.
* `sleepTicks_elapsed`: so a sleep lasts as long as it should, if its target does not wrap and a
  million halts are enough for it.
-/

namespace Shogun.Rtc

/-- The tick that the test of round `i` uses. -/
def observed (startTick : UInt32) (tick : ℕ → UInt32) : ℕ → UInt32
  | 0 => startTick
  | i + 1 => tick i

/-- The loop goes on while the test holds, and ends where it does not or where it is out of
rounds. -/
theorem haltLoop_spec (startTick targetTick : UInt32) (tick : ℕ → UInt32) (n k : ℕ) :
    let l := haltLoop tick targetTick n ⟨observed startTick tick k, k⟩
    k ≤ l.loopCounter ∧ l.loopCounter ≤ k + n ∧
      (∀ i, k ≤ i → i < l.loopCounter → observed startTick tick i < targetTick) ∧
      (l.loopCounter < k + n → ¬ observed startTick tick l.loopCounter < targetTick) := by
  intro l
  induction n generalizing k with
  | zero =>
    exact ⟨le_rfl, le_rfl, fun i hi hlt => absurd hi (not_le.mpr hlt),
      fun h => absurd h (lt_irrefl k)⟩
  | succ n ih =>
    by_cases htest : observed startTick tick k < targetTick
    · have hl : l = haltLoop tick targetTick n ⟨observed startTick tick (k + 1), k + 1⟩ :=
        if_pos htest
      obtain ⟨hle, hbound, hbefore, hend⟩ := ih (k + 1)
      rw [← hl] at hle hbound hbefore hend
      refine ⟨by omega, by omega, ?_, ?_⟩
      · intro i hi hlt
        rcases Nat.eq_or_lt_of_le hi with rfl | hi
        · exact htest
        · exact hbefore i hi hlt
      · intro h
        exact hend (by omega)
    · have hl : l = ⟨observed startTick tick k, k⟩ := if_neg htest
      rw [hl]
      refine ⟨le_rfl, Nat.le_add_right k (n + 1), ?_, fun _ => htest⟩
      intro i hi hlt
      exact absurd hi (not_le.mpr hlt)

/-- **A sleep ends early at a wrap and after a million halts, and only then.**  `elapsed i` ticks
are counted by the end of the first `i` halts, for any start and any length of the sleep.  The loop
comes to its end, and warns if and only if it has halted a million times.  Where the target wraps it
does not halt at all.  Where neither the target nor the tick counter wraps it does not halt once its
length has elapsed, has slept its length unless it warns, and has slept it at all if and only if a
million halts last as long. -/
theorem sleepTicks_elapsed (startTick ticks : UInt32) (hticks : ticks ≠ 0) (elapsed : ℕ → ℕ)
    (hzero : elapsed 0 = 0) (hmono : Monotone elapsed) :
    ∃ l warned, sleepTicks startTick ticks (fun i => startTick + UInt32.ofNat (elapsed (i + 1)))
        = some (l, warned) ∧
      l.loopCounter ≤ 1000000 ∧ (warned = true ↔ l.loopCounter = 1000000) ∧
      (2 ^ 32 ≤ startTick.toNat + ticks.toNat → l.loopCounter = 0) ∧
      (startTick.toNat + ticks.toNat < 2 ^ 32 → startTick.toNat + elapsed 1000000 < 2 ^ 32 →
        (∀ i < l.loopCounter, elapsed i < ticks.toNat) ∧
        (l.loopCounter < 1000000 → ticks.toNat ≤ elapsed l.loopCounter) ∧
        (ticks.toNat ≤ elapsed l.loopCounter ↔ ticks.toNat ≤ elapsed 1000000)) := by
  have hobserved : observed startTick (fun i => startTick + UInt32.ofNat (elapsed (i + 1)))
      = fun i => startTick + UInt32.ofNat (elapsed i) := by
    funext i
    cases i with
    | zero =>
      rw [hzero]
      exact (UInt32.add_zero startTick).symm
    | succ i => rfl
  have hspec := haltLoop_spec startTick (startTick + ticks)
    (fun i => startTick + UInt32.ofNat (elapsed (i + 1))) maxLoopCount 0
  unfold sleepTicks
  rw [if_neg hticks]
  dsimp only
  rw [show observed startTick _ 0 = startTick from rfl] at hspec
  generalize haltLoop _ _ _ _ = l at hspec
  rw [hobserved] at hspec
  obtain ⟨-, hbound, hbefore, hend⟩ := hspec
  rw [show 0 + maxLoopCount = 1000000 from rfl] at hbound hend
  have htarget : (startTick + ticks).toNat = (startTick.toNat + ticks.toNat) % 2 ^ 32 :=
    UInt32.toNat_add startTick ticks
  have hcurrent : ∀ i, (startTick + UInt32.ofNat (elapsed i)).toNat
      = (startTick.toNat + elapsed i) % 2 ^ 32 := by
    intro i
    rw [UInt32.toNat_add, UInt32.toNat_ofNat']
    omega
  refine ⟨l, _, rfl, hbound, ?_, ?_, ?_⟩
  · show decide (1000000 ≤ l.loopCounter) = true ↔ _
    rw [decide_eq_true_iff]
    exact ⟨fun h => le_antisymm hbound h, fun h => h.ge⟩
  · intro hwrap
    by_contra hpos
    have hlt := UInt32.lt_iff_toNat_lt.mp (hbefore 0 le_rfl (Nat.pos_of_ne_zero hpos))
    rw [hcurrent, htarget, hzero] at hlt
    have := startTick.toNat_lt
    have := ticks.toNat_lt
    omega
  · intro hfits hcounter
    have hround : ∀ i ≤ 1000000, (startTick + UInt32.ofNat (elapsed i) < startTick + ticks ↔
        elapsed i < ticks.toNat) := by
      intro i hi
      have hle := hmono hi
      rw [UInt32.lt_iff_toNat_lt, hcurrent, htarget, Nat.mod_eq_of_lt (by omega),
        Nat.mod_eq_of_lt hfits]
      omega
    -- a loop that is not out of rounds has ended at its test
    have hslept : l.loopCounter < 1000000 → ticks.toNat ≤ elapsed l.loopCounter := by
      intro hlt
      have hstop := hend hlt
      rw [hround _ hbound] at hstop
      exact not_lt.mp hstop
    refine ⟨fun i hi => (hround i (by omega)).mp (hbefore i (Nat.zero_le i) hi), hslept, ?_⟩
    constructor
    · exact fun h => h.trans (hmono hbound)
    · intro h
      rcases Nat.lt_or_ge l.loopCounter 1000000 with hlt | hge
      · exact hslept hlt
      · rw [le_antisymm hbound hge]
        exact h

/-- Two million ticks, one for each halt: the sleep gives up halfway. -/
theorem sleepTicks_elapsed_halfway :
    ∃ l warned, sleepTicks 0 2000000 (fun i => 0 + UInt32.ofNat (i + 1)) = some (l, warned) ∧
      l.loopCounter = 1000000 ∧ warned = true ∧ ¬ 2000000 ≤ l.loopCounter := by
  obtain ⟨l, warned, hcode, hbound, hwarned, -, hslept⟩ :=
    sleepTicks_elapsed 0 2000000 (by decide) id rfl monotone_id
  obtain ⟨-, hlength, hiff⟩ := hslept (by decide) (by decide)
  have hnot : ¬ 2000000 ≤ l.loopCounter := fun h => absurd (hiff.mp h) (by decide)
  have hmillion : l.loopCounter = 1000000 := by
    by_contra hne
    exact hnot (hlength (lt_of_le_of_ne hbound hne))
  exact ⟨l, warned, hcode, hmillion, hwarned.mpr hmillion, hnot⟩

end Shogun.Rtc
