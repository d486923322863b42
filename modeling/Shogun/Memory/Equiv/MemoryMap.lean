import Mathlib.Algebra.BigOperators.Intervals
import Shogun.Memory.InitAllocator
import Shogun.Util.RunningMax
import Shogun.Util.Walk

/-!
# The scan of the memory map

* `scanMemoryMap_firstLargest`: on a map laid out entry after entry the scan ends with the first
  entry that attains the greatest `length_low` among the usable ones.
* `scan_terminates_iff`: the scan ends, whatever memory holds, if and only if no strides of the
  entries it visits sum up to a multiple of `2^32`.  It trusts the `size` of every entry: a size of
  `2^32 - 4` stands still (`scan_stuck`).
-/

namespace Shogun.Memory

open ByteMemory RunningMax

variable {m : ByteMemory} {stop current : UInt32} {entries : List MemoryMapEntry}

/-! ### Termination -/

/-- The loop needs one turn more than there are entries below the end. -/
theorem scanLoop_isSome_iff {fuel : ℕ} {largest : LargestRegion} :
    (scanLoop m stop fuel current largest).isSome
      ↔ ∃ n < fuel, ¬ (nextEntry m)^[n] current < stop := by
  induction fuel generalizing current largest with
  | zero => simp [scanLoop]
  | succ fuel ih =>
    rw [scanLoop]
    by_cases hlt : current < stop
    · rw [if_pos hlt, ih]
      constructor
      · rintro ⟨n, hn, hstop⟩
        exact ⟨n + 1, by omega, by rwa [Function.iterate_succ_apply]⟩
      · rintro ⟨n, hn, hstop⟩
        cases n with
        | zero => exact absurd hlt hstop
        | succ n => exact ⟨n, by omega, by rwa [Function.iterate_succ_apply] at hstop⟩
    · rw [if_neg hlt]
      exact iff_of_true rfl ⟨0, by omega, hlt⟩

theorem exists_scanLoop_isSome_iff {largest : LargestRegion} :
    (∃ fuel, (scanLoop m stop fuel current largest).isSome)
      ↔ ∃ n, ¬ (nextEntry m)^[n] current < stop := by
  simp only [scanLoop_isSome_iff]
  constructor
  · rintro ⟨fuel, n, -, hn⟩
    exact ⟨n, hn⟩
  · rintro ⟨n, hn⟩
    exact ⟨n + 1, n, by omega, hn⟩

/-- The address of the entry at turn `k` of the scan. -/
def visitedEntry (m : ByteMemory) (mmapAddr : UInt32) (k : ℕ) : UInt32 := (nextEntry m)^[k] mmapAddr

/-- The stride `entry->size + 4`, not reduced modulo `2^32`. -/
def stride (m : ByteMemory) (a : UInt32) : ℕ := (loadEntry m a).size.toNat + 4

theorem nextEntry_eq (m : ByteMemory) (a : UInt32) : nextEntry m a = a + .ofNat (stride m a) := by
  rw [nextEntry, stride, UInt32.ofNat_add, UInt32.ofNat_toNat]
  rfl

/-- From turn `i` to turn `j` the scan moves by the strides of the entries it visits. -/
theorem visitedEntry_eq_add_sum (m : ByteMemory) (mmapAddr : UInt32) {i j : ℕ} (hij : i ≤ j) :
    visitedEntry m mmapAddr j = visitedEntry m mmapAddr i
      + .ofNat (∑ k ∈ Finset.Ico i j, stride m (visitedEntry m mmapAddr k)) := by
  induction j, hij using Nat.le_induction with
  | base =>
    rw [Finset.Ico_self, Finset.sum_empty]
    exact (UInt32.add_zero _).symm
  | succ j hij ih =>
    have hstep : visitedEntry m mmapAddr (j + 1) = nextEntry m (visitedEntry m mmapAddr j) :=
      Function.iterate_succ_apply' _ _ _
    rw [Finset.sum_Ico_succ_top hij, UInt32.ofNat_add, ← UInt32.add_assoc, ← ih, hstep,
      nextEntry_eq]

theorem eq_self_add_ofNat_iff (a : UInt32) (n : ℕ) : a = a + .ofNat n ↔ 2 ^ 32 ∣ n := by
  have hself : a = a + UInt32.ofNat n ↔ UInt32.ofNat n = 0 := by
    rw [left_eq_add]
  rw [hself, ← UInt32.toNat_inj, UInt32.toNat_ofNat', Nat.dvd_iff_mod_eq_zero]
  rfl

/-- The scan comes back to an address exactly when strides in between sum up to a multiple of
`2^32`. -/
theorem noReturn_iff_strides (m : ByteMemory) (stop mmapAddr : UInt32) :
    Walk.NoReturn (nextEntry m) (· < stop) mmapAddr
      ↔ ∀ i j, i < j → (∀ k ≤ j, visitedEntry m mmapAddr k < stop) →
          ¬ 2 ^ 32 ∣ ∑ k ∈ Finset.Ico i j, stride m (visitedEntry m mmapAddr k) := by
  have hiff : ∀ i j, i < j → (visitedEntry m mmapAddr i = visitedEntry m mmapAddr j
      ↔ 2 ^ 32 ∣ ∑ k ∈ Finset.Ico i j, stride m (visitedEntry m mmapAddr k)) := by
    intro i j hij
    rw [visitedEntry_eq_add_sum m mmapAddr hij.le, eq_self_add_ofNat_iff]
  constructor
  · intro hno i j hij hbelow hdvd
    exact hno i j hij hbelow ((hiff i j hij).mpr hdvd)
  · intro hsum i j hij hbelow heq
    exact hsum i j hij hbelow ((hiff i j hij).mp heq)

/-- As long as no stride wraps, every turn goes at least four bytes up. -/
theorem le_visitedEntry {n : ℕ} (mmapAddr : UInt32)
    (hup : ∀ k < n, (visitedEntry m mmapAddr k).toNat + stride m (visitedEntry m mmapAddr k)
      < 2 ^ 32) :
    mmapAddr.toNat + 4 * n ≤ (visitedEntry m mmapAddr n).toNat := by
  induction n with
  | zero => exact le_rfl
  | succ n ih =>
    have hle := ih fun k hk => hup k (Nat.lt_succ_of_lt hk)
    have hlast := hup n (Nat.lt_succ_self n)
    have hstep : visitedEntry m mmapAddr (n + 1) = nextEntry m (visitedEntry m mmapAddr n) :=
      Function.iterate_succ_apply' _ _ _
    rw [hstep, nextEntry_eq, UInt32.toNat_add, UInt32.toNat_ofNat']
    have hfour : 4 ≤ stride m (visitedEntry m mmapAddr n) := Nat.le_add_left _ _
    omega

/-- Entries below the end lie within `mmap_length` bytes of the first, so there are not many of
them when no stride wraps. -/
theorem exists_not_visitedEntry_lt (m : ByteMemory) (mmapAddr mmapLength : UInt32)
    (hup : ∀ k, (∀ i ≤ k, visitedEntry m mmapAddr i < mmapAddr + mmapLength) →
      (visitedEntry m mmapAddr k).toNat + stride m (visitedEntry m mmapAddr k) < 2 ^ 32) :
    ∃ n ≤ (mmapLength.toNat + 3) / 4, ¬ visitedEntry m mmapAddr n < mmapAddr + mmapLength := by
  by_contra! hall
  have hbelow : ∀ i ≤ (mmapLength.toNat + 3) / 4,
      (visitedEntry m mmapAddr i).toNat < (mmapAddr.toNat + mmapLength.toNat) % 2 ^ 32 := by
    intro i hi
    rw [← UInt32.toNat_add]
    exact UInt32.lt_iff_toNat_lt.mp (hall i hi)
  have hle := le_visitedEntry (n := (mmapLength.toNat + 3) / 4) mmapAddr fun k hk =>
    hup k fun i hi => hall i (hi.trans hk.le)
  have hlast := hbelow _ le_rfl
  have hstart : mmapAddr.toNat < (mmapAddr.toNat + mmapLength.toNat) % 2 ^ 32 :=
    hbelow 0 (Nat.zero_le _)
  have := mmapAddr.toNat_lt
  have := mmapLength.toNat_lt
  omega

/-- **When the scan ends.**  It performs finitely many turns if and only if no strides
`entry->size + 4` of consecutive entries that it visits below the end sum up to a multiple of
`2^32`, and then fewer than `2^32` turns.  When no entry that it visits has a stride that goes past
the top of memory, it performs at most one turn for every four bytes of the map. -/
theorem scan_terminates_iff (m : ByteMemory) (mmapAddr mmapLength : UInt32) :
    ((∃ fuel, (scanLoop m (mmapAddr + mmapLength) fuel mmapAddr ⟨0, 0⟩).isSome)
      ↔ ∀ i j, i < j → (∀ k ≤ j, visitedEntry m mmapAddr k < mmapAddr + mmapLength) →
          ¬ 2 ^ 32 ∣ ∑ k ∈ Finset.Ico i j, stride m (visitedEntry m mmapAddr k)) ∧
    ((∃ fuel, (scanLoop m (mmapAddr + mmapLength) fuel mmapAddr ⟨0, 0⟩).isSome)
      ↔ (scanMemoryMap m mmapAddr mmapLength).isSome) ∧
    ((∀ k, (∀ i ≤ k, visitedEntry m mmapAddr i < mmapAddr + mmapLength) →
        (visitedEntry m mmapAddr k).toNat + stride m (visitedEntry m mmapAddr k) < 2 ^ 32) →
      (scanLoop m (mmapAddr + mmapLength) ((mmapLength.toNat + 3) / 4 + 1) mmapAddr
        ⟨0, 0⟩).isSome) := by
  refine ⟨?_, ?_, fun hup => ?_⟩
  · rw [exists_scanLoop_isSome_iff, ← noReturn_iff_strides]
    exact Walk.exists_not_iff_no_return (P := (· < mmapAddr + mmapLength)) (f := nextEntry m)
  · rw [exists_scanLoop_isSome_iff, scanMemoryMap, scanLoop_isSome_iff]
    constructor
    · exact fun hends => Walk.exists_not_lt_word32 (P := (· < mmapAddr + mmapLength)) hends
    · rintro ⟨n, -, hstop⟩
      exact ⟨n, hstop⟩
  · obtain ⟨n, hn, hstop⟩ := exists_not_visitedEntry_lt m mmapAddr mmapLength hup
    exact scanLoop_isSome_iff.mpr ⟨n, Nat.lt_succ_of_le hn, hstop⟩

/-- In memory full of zeros every stride is four, and a map of 24 bytes takes six turns. -/
theorem scan_terminates_zeroMemory :
    (scanLoop (fun _ => 0) (4096 + 24) 7 4096 ⟨0, 0⟩).isSome := by
  obtain ⟨-, -, hup⟩ := scan_terminates_iff (fun _ => 0) 4096 24
  apply hup
  intro k hbelow
  have hlt : (visitedEntry (fun _ => 0) 4096 k).toNat < 4120 :=
    UInt32.lt_iff_toNat_lt.mp (hbelow k le_rfl)
  have hstride : stride (fun _ => 0) (visitedEntry (fun _ => 0) 4096 k) = 4 := rfl
  omega

/-- A map of one entry whose `size` is `2^32 - 4`. -/
def stuckMap : ByteMemory := ByteMemory.store32 (fun _ => 0) 4096 0xFFFFFFFC

theorem scanLoop_stuckMap (fuel : ℕ) :
    scanLoop stuckMap (4096 + 24) fuel 4096 ⟨0, 0⟩ = none := by
  induction fuel with
  | zero => rfl
  | succ fuel ih =>
    have hnext : nextEntry stuckMap 4096 = 4096 := by decide
    have hbody : updateLargest (loadEntry stuckMap 4096) ⟨0, 0⟩ = ⟨0, 0⟩ := by decide
    rw [scanLoop, if_pos (by decide), hnext, hbody]
    exact ih

/-- The scan of that map makes turn after turn at the same entry. -/
theorem scan_stuck :
    ¬ ∃ fuel, (scanLoop stuckMap (4096 + 24) fuel 4096 ⟨0, 0⟩).isSome := by
  rintro ⟨fuel, hsome⟩
  rw [scanLoop_stuckMap] at hsome
  exact absurd hsome (by decide)

/-! ### The entry that is picked -/

/-- The entries `entries` lie one behind the other from `a` to `e`, each `size + 4` bytes long. -/
def LaidOut (m : ByteMemory) : ℕ → List MemoryMapEntry → ℕ → Prop
  | a, [], e => a = e
  | a, entry :: entries, e =>
    loadEntry m (.ofNat a) = entry ∧ 20 ≤ entry.size.toNat ∧
      LaidOut m (a + entry.size.toNat + 4) entries e

instance LaidOut.decidable (m : ByteMemory) :
    ∀ (a : ℕ) (entries : List MemoryMapEntry) (e : ℕ), Decidable (LaidOut m a entries e)
  | a, [], e => inferInstanceAs (Decidable (a = e))
  | a, entry :: entries, e =>
    have := LaidOut.decidable m (a + entry.size.toNat + 4) entries e
    inferInstanceAs (Decidable (_ ∧ _ ∧ LaidOut m (a + entry.size.toNat + 4) entries e))

namespace MemoryMapEntry

/-- Type 1, and at least `HEAP_SIZE` by the low word of the length. -/
def Usable (entry : MemoryMapEntry) : Prop := entry.type = 1 ∧ heapSize ≤ entry.lengthLow

instance (entry : MemoryMapEntry) : Decidable entry.Usable := inferInstanceAs (Decidable (_ ∧ _))

/-- What the scan keeps of an entry. -/
def region (entry : MemoryMapEntry) : LargestRegion := ⟨entry.baseAddrLow, entry.lengthLow⟩

/-- The entry that stands for the region the scan starts with. -/
def zero : MemoryMapEntry := ⟨0, 0, 0, 0, 0, 0⟩

theorem Usable.lengthLow_pos {entry : MemoryMapEntry} (h : entry.Usable) :
    zero.lengthLow.toNat < entry.lengthLow.toNat := by
  have hle : heapSize.toNat ≤ entry.lengthLow.toNat := UInt32.le_iff_toNat_le.mp h.2
  exact lt_of_lt_of_le (by decide) hle

theorem Usable.lengthLow_ne_zero {entry : MemoryMapEntry} (h : entry.Usable) :
    entry.lengthLow ≠ 0 := by
  intro h0
  have hpos := h.lengthLow_pos
  rw [h0] at hpos
  exact absurd hpos (by decide)

end MemoryMapEntry

/-- `entry` is the first of `entries` that attains the greatest `length_low` among the usable
ones. -/
def FirstLargest (entries : List MemoryMapEntry) (entry : MemoryMapEntry) : Prop :=
  FirstMax (fun x : MemoryMapEntry => x.lengthLow.toNat) MemoryMapEntry.Usable entries entry

theorem FirstLargest.usable {x : MemoryMapEntry} (hx : FirstLargest entries x) :
    x ∈ entries ∧ x.Usable := by
  obtain ⟨pre, post, rfl, hu, -⟩ := hx
  exact ⟨by simp, hu⟩

/-- There is only one. -/
theorem FirstLargest.unique {x y : MemoryMapEntry} (hx : FirstLargest entries x)
    (hy : FirstLargest entries y) : x = y := by
  rw [← runningMax_of_firstMax hx hx.usable.2.lengthLow_pos,
    runningMax_of_firstMax hy hy.usable.2.lengthLow_pos]

theorem LaidOut.length_le {a e : ℕ} (h : LaidOut m a entries e) : a + entries.length ≤ e := by
  induction entries generalizing a with
  | nil => exact h.le
  | cons entry entries ih =>
    obtain ⟨-, -, hrest⟩ := h
    have := ih hrest
    rw [List.length_cons]
    omega

/-- On a map that is laid out the scan looks at every entry once. -/
theorem scanLoop_laidOut {fuel : ℕ} {largest : LargestRegion} (hfuel : entries.length < fuel)
    (h : LaidOut m current.toNat entries stop.toNat) :
    scanLoop m stop fuel current largest
      = some (entries.foldl (fun largest entry => updateLargest entry largest) largest) := by
  induction entries generalizing fuel current largest with
  | nil =>
    obtain ⟨fuel, rfl⟩ := Nat.exists_eq_succ_of_ne_zero (Nat.ne_of_gt hfuel)
    rw [scanLoop, if_neg]
    · rfl
    · rw [UInt32.lt_iff_toNat_lt]
      exact h.not_lt
  | cons entry entries ih =>
    obtain ⟨fuel, rfl⟩ := Nat.exists_eq_succ_of_ne_zero (Nat.ne_of_gt (Nat.zero_lt_of_lt hfuel))
    obtain ⟨hentry, hsize, hrest⟩ := h
    rw [UInt32.ofNat_toNat] at hentry
    have hle := hrest.length_le
    have hlt := stop.toNat_lt
    -- the stride does not wrap: it stays below the end
    have hnext : (nextEntry m current).toNat = current.toNat + entry.size.toNat + 4 := by
      rw [nextEntry, hentry, UInt32.toNat_add, UInt32.toNat_add]
      show (current.toNat + (entry.size.toNat + 4) % 2 ^ 32) % 2 ^ 32 = _
      omega
    rw [scanLoop, if_pos (by rw [UInt32.lt_iff_toNat_lt]; omega), hentry,
      ih (by simpa using hfuel) (hnext ▸ hrest)]
    rfl

/-- The nested tests of the body are one: usable, and longer than the longest so far. -/
theorem updateLargest_region (entry best : MemoryMapEntry) :
    updateLargest entry best.region
      = MemoryMapEntry.region (if entry.Usable ∧ best.lengthLow.toNat < entry.lengthLow.toNat
          then entry else best) := by
  have hlt : best.lengthLow.toNat < entry.lengthLow.toNat ↔ entry.lengthLow > best.region.size :=
    UInt32.lt_iff_toNat_lt.symm
  by_cases hc : entry.Usable ∧ best.lengthLow.toNat < entry.lengthLow.toNat
  · rw [if_pos hc, updateLargest, if_pos ⟨hc.1.1, hlt.mp hc.2⟩, if_pos hc.1.2]
    rfl
  · rw [if_neg hc, updateLargest]
    split_ifs with h1 h2
    · exact absurd ⟨⟨h1.1, h2⟩, hlt.mpr h1.2⟩ hc
    · rfl
    · rfl

theorem foldl_updateLargest (best : MemoryMapEntry) :
    entries.foldl (fun largest entry => updateLargest entry largest) best.region
      = (runningMax (fun x : MemoryMapEntry => x.lengthLow.toNat) MemoryMapEntry.Usable best
          entries).region := by
  induction entries generalizing best with
  | nil => rfl
  | cons entry entries ih => rw [List.foldl_cons, updateLargest_region, ih, runningMax_cons]

section Scan

variable {mmapAddr mmapLength : UInt32}
  (h : LaidOut m mmapAddr.toNat entries (mmapAddr.toNat + mmapLength.toNat))
  (hwrap : mmapAddr.toNat + mmapLength.toNat < 2 ^ 32)

include h hwrap

theorem scanMemoryMap_eq :
    scanMemoryMap m mmapAddr mmapLength
      = some (runningMax (fun x : MemoryMapEntry => x.lengthLow.toNat) MemoryMapEntry.Usable
          .zero entries).region := by
  have hstop : (mmapAddr + mmapLength).toNat = mmapAddr.toNat + mmapLength.toNat := by
    rw [UInt32.toNat_add, Nat.mod_eq_of_lt hwrap]
  have hlen := h.length_le
  rw [← hstop] at h
  rw [scanMemoryMap, scanLoop_laidOut (by omega) h, ← foldl_updateLargest]
  rfl

theorem scanMemoryMap_of_firstLargest {x : MemoryMapEntry} (hx : FirstLargest entries x) :
    scanMemoryMap m mmapAddr mmapLength = some ⟨x.baseAddrLow, x.lengthLow⟩ := by
  rw [scanMemoryMap_eq h hwrap, runningMax_of_firstMax hx hx.usable.2.lengthLow_pos]
  rfl

theorem scanMemoryMap_of_forall_not (hnone : ∀ x ∈ entries, ¬ x.Usable) :
    scanMemoryMap m mmapAddr mmapLength = some ⟨0, 0⟩ := by
  rw [scanMemoryMap_eq h hwrap, runningMax_of_forall_le fun y hy hp => absurd hp (hnone y hy)]
  rfl

/-- **The scan picks the first largest usable entry**, by the low words of its base and length; the
size it ends with is zero if and only if no entry is usable. -/
theorem scanMemoryMap_firstLargest :
    ∃ largest, scanMemoryMap m mmapAddr mmapLength = some largest ∧
      (largest.size = 0 ↔ ∀ x ∈ entries, ¬ x.Usable) ∧
      (∀ x, FirstLargest entries x → largest = ⟨x.baseAddrLow, x.lengthLow⟩) ∧
      ((∃ x ∈ entries, x.Usable) → ∃ x, FirstLargest entries x) := by
  by_cases hex : ∃ x ∈ entries, x.Usable
  · obtain ⟨x, hx⟩ : ∃ x, FirstLargest entries x := exists_firstMax hex
    have hscan := scanMemoryMap_of_firstLargest h hwrap hx
    refine ⟨_, hscan, iff_of_false ?_ ?_, fun y hy => ?_, fun _ => ⟨x, hx⟩⟩
    · exact hx.usable.2.lengthLow_ne_zero
    · exact fun hnone => hnone x hx.usable.1 hx.usable.2
    · exact Option.some.inj (hscan.symm.trans (scanMemoryMap_of_firstLargest h hwrap hy))
  · have hnone : ∀ x ∈ entries, ¬ x.Usable := fun x hx hu => hex ⟨x, hx, hu⟩
    refine ⟨_, scanMemoryMap_of_forall_not h hwrap hnone, iff_of_true rfl hnone, fun y hy => ?_,
      fun hex' => absurd hex' hex⟩
    exact absurd hy.usable.2 (hnone y hy.usable.1)

end Scan

/-- Writes `entry` at `a`. -/
def storeEntry (m : ByteMemory) (a : UInt32) (entry : MemoryMapEntry) : ByteMemory :=
  ((((((m.store32 a entry.size).store32 (a + 4) entry.baseAddrLow).store32 (a + 8)
    entry.baseAddrHigh).store32 (a + 12) entry.lengthLow).store32 (a + 16)
    entry.lengthHigh).store32 (a + 20) entry.type)

/-- A multiboot structure at `0x9000` whose map, at `0xA000`, has the two entries `x` and `y`. -/
def bootMemory (x y : MemoryMapEntry) : ByteMemory :=
  let info := ((ByteMemory.store32 (fun _ => 0) 0x9000 64).store32 0x902C 48).store32 0x9030 0xA000
  storeEntry (storeEntry info 0xA000 x) 0xA018 y

/-- 16 MiB of memory at 1 MiB. -/
def lowRegion : MemoryMapEntry := ⟨20, 0x100000, 0, 0x1000000, 0, 1⟩

/-- 64 MiB of memory at 32 MiB. -/
def largeRegion : MemoryMapEntry := ⟨20, 0x2000000, 0, 0x4000000, 0, 1⟩

theorem scanMemoryMap_bootMemory :
    ∃ largest, scanMemoryMap (bootMemory lowRegion largeRegion) 0xA000 48 = some largest ∧
      (largest.size = 0 ↔ ∀ x ∈ [lowRegion, largeRegion], ¬ x.Usable) ∧
      FirstLargest [lowRegion, largeRegion] largeRegion ∧ largest = ⟨0x2000000, 0x4000000⟩ := by
  have hlaid : LaidOut (bootMemory lowRegion largeRegion) (0xA000 : UInt32).toNat
      [lowRegion, largeRegion] ((0xA000 : UInt32).toNat + (48 : UInt32).toNat) := by decide
  obtain ⟨largest, hscan, hzero, hfirst, -⟩ := scanMemoryMap_firstLargest hlaid (by decide)
  have hlarge : FirstLargest [lowRegion, largeRegion] largeRegion :=
    ⟨[lowRegion], [], rfl, by decide, by decide, by decide⟩
  exact ⟨largest, hscan, hzero, hlarge, hfirst _ hlarge⟩

end Shogun.Memory
