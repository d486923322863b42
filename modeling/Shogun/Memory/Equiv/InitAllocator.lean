import Shogun.Memory.Equiv.FreeList
import Shogun.Memory.Equiv.MemoryMap
import Shogun.Util.Word32

/-!
# The heap `init_allocator` sets up

The scan picks a region by the low words of its base and length alone, before anything is known
about where it lies.  Only then is it tested whether that region contains the end of the kernel.

* `initAllocator_heap_iff`: on a map with enough memory past the kernel there is a heap exactly if
  the region picked, by its low words, contains the end of the kernel and ends below 4 GiB.
* `initAllocator_inside_iff`: when there is a heap, exactly when it lies in memory the map gives.
-/

namespace Shogun.Memory

open ByteMemory

variable {h : Heap} {entries : List MemoryMapEntry} {x : MemoryMapEntry}
  {kernelEnd esp mbInfo : UInt32} {r : ℕ}

/-- A multiboot structure with a memory map: flag bit 6 is set, and `entries` lie one behind the
other in `[mmap_addr, mmap_addr + mmap_length)`, which does not wrap. -/
structure MemoryMap (m : ByteMemory) (mbInfo : UInt32) (entries : List MemoryMapEntry) : Prop where
  flag : flags m mbInfo &&& ((1 : UInt32) <<< 6) ≠ 0
  laidOut : LaidOut m (mmapAddr m mbInfo).toNat entries
    ((mmapAddr m mbInfo).toNat + (mmapLength m mbInfo).toNat)
  stop_lt : (mmapAddr m mbInfo).toNat + (mmapLength m mbInfo).toNat < 2 ^ 32

namespace MemoryMapEntry

/-- The 64-bit base address. -/
def base (x : MemoryMapEntry) : ℕ := x.baseAddrLow.toNat + 2 ^ 32 * x.baseAddrHigh.toNat

/-- The 64-bit length. -/
def length (x : MemoryMapEntry) : ℕ := x.lengthLow.toNat + 2 ^ 32 * x.lengthHigh.toNat

/-- Where the region ends if only the low words count. -/
def lowEnd (x : MemoryMapEntry) : ℕ := x.baseAddrLow.toNat + x.lengthLow.toNat

/-- By its low words the region contains `r` and ends below 4 GiB. -/
def CoversLow (x : MemoryMapEntry) (r : ℕ) : Prop :=
  x.baseAddrLow.toNat ≤ r ∧ r < x.lowEnd ∧ x.lowEnd < 2 ^ 32

/-- The code's test on the region it picked. -/
theorem coversLow_iff {r : UInt32} :
    x.baseAddrLow ≤ r ∧ x.baseAddrLow + x.lengthLow > r ↔ x.CoversLow r.toNat := by
  have hb := x.baseAddrLow.toNat_lt
  have hl := x.lengthLow.toNat_lt
  have hr := r.toNat_lt
  rw [CoversLow, lowEnd, UInt32.le_iff_toNat_le, gt_iff_lt, UInt32.lt_iff_toNat_lt,
    UInt32.toNat_add]
  omega

end MemoryMapEntry

/-! ### The first segment -/

/-- `n` rounded up to a multiple of eight. -/
def alignUp8 (n : ℕ) : ℕ := (n + 7) / 8 * 8

theorem alignUp8_bounds (n : ℕ) : n ≤ alignUp8 n ∧ alignUp8 n ≤ n + 7 ∧ alignUp8 n % 8 = 0 := by
  rw [alignUp8]
  omega

/-- `heap_start` comes out as `0` when the end of the kernel is within seven bytes of the end of
memory. -/
theorem heapStart_toNat (r : UInt32) :
    ((r + 7) &&& ~~~7).toNat = if alignUp8 r.toNat < 2 ^ 32 then alignUp8 r.toNat else 0 := by
  have hround := Word32.toNat_and_not_sub_one (r + 7) 8 (k := 3) (by decide) rfl
  have hr := r.toNat_lt
  have hadd : (r + 7).toNat = (r.toNat + 7) % 2 ^ 32 := UInt32.toNat_add ..
  rw [show ~~~(7 : UInt32) = ~~~(8 - 1) from rfl, hround, hadd, alignUp8]
  show (r.toNat + 7) % 2 ^ 32 - (r.toNat + 7) % 2 ^ 32 % 8 = _
  split_ifs <;> omega

theorem reservedEnd_toNat (kernelEnd esp : UInt32) :
    (reservedEnd kernelEnd esp).toNat = max kernelEnd.toNat esp.toNat := by
  rw [reservedEnd]
  split_ifs with hgt
  · have := UInt32.lt_iff_toNat_lt.mp hgt
    omega
  · have := UInt32.le_iff_toNat_le.mp (UInt32.not_lt.mp hgt)
    omega

/-- The size stored in the first segment: up to `E`, or to `E + 2^32` when less than eight bytes are
left behind the address and the subtraction wraps. -/
theorem initialSize_toNat {a b l : UInt32} (hb : b.toNat ≤ a.toNat)
    (hE : b.toNat + l.toNat < 2 ^ 32) (ha : a.toNat ≤ b.toNat + l.toNat + 7) :
    a.toNat + 8 + (l - (a - b) - sizeofFreeSegment).toNat
      = if a.toNat + 8 ≤ b.toNat + l.toNat then b.toNat + l.toNat
        else b.toNat + l.toNat + 2 ^ 32 := by
  have hlt := a.toNat_lt
  rw [UInt32.toNat_sub, UInt32.toNat_sub, UInt32.toNat_sub]
  show a.toNat + 8 + (2 ^ 32 - 8 + _) % 2 ^ 32 = _
  split_ifs <;> omega

/-- A region whose low words do not contain the end of the kernel is not used. -/
theorem installHeap_of_not (hc : ¬ x.CoversLow (reservedEnd kernelEnd esp).toNat) :
    installHeap h kernelEnd esp ⟨x.baseAddrLow, x.lengthLow⟩ = h := by
  rw [installHeap]
  split_ifs with h0
  · rfl
  · exact if_neg fun ht => hc (MemoryMapEntry.coversLow_iff.mp ht)

theorem installHeap_of_coversLow (hx : x.Usable)
    (hc : x.CoversLow (reservedEnd kernelEnd esp).toNat) :
    (installHeap h kernelEnd esp ⟨x.baseAddrLow, x.lengthLow⟩).firstFree
        = ((reservedEnd kernelEnd esp + 7) &&& ~~~7) ∧
      (installHeap h kernelEnd esp ⟨x.baseAddrLow, x.lengthLow⟩).size
          ((reservedEnd kernelEnd esp + 7) &&& ~~~7)
        = x.lengthLow - (((reservedEnd kernelEnd esp + 7) &&& ~~~7) - x.baseAddrLow)
          - sizeofFreeSegment := by
  rw [installHeap, if_neg hx.lengthLow_ne_zero]
  dsimp only
  rw [if_pos (MemoryMapEntry.coversLow_iff.mpr hc)]
  refine ⟨rfl, (Heap.size_setNextSegment ?_).trans Heap.size_setSize_self⟩
  -- the address is a multiple of eight, so the header does not wrap
  have ha := heapStart_toNat (reservedEnd kernelEnd esp)
  have hal := alignUp8_bounds (reservedEnd kernelEnd esp).toNat
  have hle : ((reservedEnd kernelEnd esp + 7) &&& ~~~7).toNat + 8 ≤ 2 ^ 32 := by
    rw [ha]
    split_ifs <;> omega
  have ha4 := FreeSegment.addr_add_four_toNat (s := ⟨_, 0⟩) hle
  rw [Apart, ha4]
  exact .inr ⟨le_rfl, by show _ + 4 + 4 ≤ _; omega⟩

/-- The end `r` of the kernel leaves room to round it up, and by its low words the region `x`
contains it. -/
structure Installs (x : MemoryMapEntry) (r : ℕ) : Prop where
  coversLow : x.CoversLow r
  pos : 0 < r
  lt : alignUp8 r < 2 ^ 32

/-- `h'` has one segment, of what the low words of `x` say is left of it past `r`. -/
structure Installed (h' : Heap) (x : MemoryMapEntry) (r : ℕ) : Prop where
  ne_zero : h'.firstFree ≠ 0
  firstFree_toNat : h'.firstFree.toNat = alignUp8 r
  stop_eq : h'.firstFree.toNat + 8 + (h'.size h'.firstFree).toNat
    = if h'.firstFree.toNat + 8 ≤ x.lowEnd then x.lowEnd else x.lowEnd + 2 ^ 32

theorem installHeap_of_installs (hx : x.Usable)
    (hi : Installs x (reservedEnd kernelEnd esp).toNat) :
    Installed (installHeap h kernelEnd esp ⟨x.baseAddrLow, x.lengthLow⟩) x
      (reservedEnd kernelEnd esp).toNat := by
  obtain ⟨hfirst, hsize⟩ := installHeap_of_coversLow (h := h) hx hi.coversLow
  have hal := alignUp8_bounds (reservedEnd kernelEnd esp).toNat
  have hpos := hi.pos
  obtain ⟨hbase, hlow, hend⟩ := hi.coversLow
  have hstart := heapStart_toNat (reservedEnd kernelEnd esp)
  rw [if_pos hi.lt] at hstart
  refine ⟨fun h0 => ?_, ?_, ?_⟩
  · rw [hfirst] at h0
    rw [h0] at hstart
    exact absurd hstart (by show 0 ≠ _; omega)
  · rw [hfirst, hstart]
  · rw [hfirst, hsize]
    rw [MemoryMapEntry.lowEnd] at *
    exact initialSize_toNat (by omega) hend (by omega)

theorem installHeap_of_not_installs (hnull : h.firstFree = 0) (hx : x.Usable)
    (hi : ¬ Installs x (reservedEnd kernelEnd esp).toNat) :
    (installHeap h kernelEnd esp ⟨x.baseAddrLow, x.lengthLow⟩).firstFree = 0 := by
  by_cases hc : x.CoversLow (reservedEnd kernelEnd esp).toNat
  · -- the address comes out as `0`
    rw [(installHeap_of_coversLow hx hc).1, ← UInt32.toNat_inj, heapStart_toNat]
    show _ = 0
    split_ifs with hlt
    · have hzero : (reservedEnd kernelEnd esp).toNat = 0 := by
        by_contra h0
        exact hi ⟨hc, Nat.pos_of_ne_zero h0, hlt⟩
      rw [hzero]
      rfl
    · rfl
  · rw [installHeap_of_not hc]
    exact hnull

/-- **What `init_allocator` does.**  It returns; it leaves the list empty, or makes one segment of
what the low words of the first largest region say is left of it. -/
theorem initAllocator_cases (hmap : MemoryMap h.mem mbInfo entries) (hnull : h.firstFree = 0)
    (kernelEnd esp : UInt32) :
    ∃ h', initAllocator h kernelEnd esp mbInfo = some h' ∧
      (h'.firstFree = 0 ∧
          (∀ x, FirstLargest entries x → ¬ Installs x (max kernelEnd.toNat esp.toNat)) ∨
        ∃ x, FirstLargest entries x ∧ Installs x (max kernelEnd.toNat esp.toNat) ∧
          Installed h' x (max kernelEnd.toNat esp.toNat)) := by
  rw [initAllocator, if_neg hmap.flag, ← reservedEnd_toNat]
  by_cases hex : ∃ x ∈ entries, x.Usable
  · obtain ⟨x, hx⟩ : ∃ x, FirstLargest entries x := RunningMax.exists_firstMax hex
    rw [scanMemoryMap_of_firstLargest hmap.laidOut hmap.stop_lt hx, Option.map_some]
    refine ⟨_, rfl, ?_⟩
    by_cases hi : Installs x (reservedEnd kernelEnd esp).toNat
    · exact .inr ⟨x, hx, hi, installHeap_of_installs hx.usable.2 hi⟩
    · refine .inl ⟨installHeap_of_not_installs hnull hx.usable.2 hi, fun y hy => ?_⟩
      rwa [hy.unique hx]
  · have hnone : ∀ x ∈ entries, ¬ x.Usable := fun x hx hu => hex ⟨x, hx, hu⟩
    rw [scanMemoryMap_of_forall_not hmap.laidOut hmap.stop_lt hnone, Option.map_some]
    refine ⟨_, rfl, .inl ⟨?_, fun y hy => absurd hy.usable.2 (hnone y hy.usable.1)⟩⟩
    rw [installHeap, if_pos rfl]
    exact hnull

/-! ### When there is a heap, and where -/

/-- **There is a heap only if the right region is the largest.**  On a map with a region of type 1
below 4 GiB that has `HEAP_SIZE + 16` bytes past the end of the kernel, `init_allocator` leaves a
free segment if and only if the first largest region, by its low words, contains the end of the
kernel and ends below 4 GiB, and the end of the kernel is not `0`. -/
theorem initAllocator_heap_iff (hmap : MemoryMap h.mem mbInfo entries) (hnull : h.firstFree = 0)
    (kernelEnd esp : UInt32) (hregion : ∃ y ∈ entries, y.type = 1 ∧ y.base + y.length ≤ 2 ^ 32 ∧
      y.base ≤ max kernelEnd.toNat esp.toNat ∧
      max kernelEnd.toNat esp.toNat + heapSize.toNat + 16 ≤ y.base + y.length) :
    ∃ h', initAllocator h kernelEnd esp mbInfo = some h' ∧
      (h'.firstFree ≠ 0 ↔ 0 < max kernelEnd.toNat esp.toNat ∧
        ∃ x, FirstLargest entries x ∧ x.CoversLow (max kernelEnd.toNat esp.toNat)) := by
  obtain ⟨y, -, -, hbelow, -, hpast⟩ := hregion
  have hal := alignUp8_bounds (max kernelEnd.toNat esp.toNat)
  have hlt : alignUp8 (max kernelEnd.toNat esp.toNat) < 2 ^ 32 := by omega
  obtain ⟨h', hcode, ⟨hzero, hno⟩ | ⟨x, hx, hi, hinst⟩⟩ :=
    initAllocator_cases hmap hnull kernelEnd esp
  · refine ⟨h', hcode, iff_of_false (fun h0 => h0 hzero) ?_⟩
    rintro ⟨hpos, x, hx, hc⟩
    exact hno x hx ⟨hc, hpos, hlt⟩
  · exact ⟨h', hcode, iff_of_true hinst.ne_zero ⟨hi.pos, x, hx, hi.coversLow⟩⟩

theorem memoryMap_bootMemory : MemoryMap (bootMemory lowRegion largeRegion) 0x9000
    [lowRegion, largeRegion] :=
  ⟨by decide, by decide, by decide⟩

theorem firstLargest_largeRegion : FirstLargest [lowRegion, largeRegion] largeRegion :=
  ⟨[lowRegion], [], rfl, by decide, by decide, by decide⟩

theorem initAllocator_heap_bootMemory :
    ∃ h', initAllocator ⟨bootMemory lowRegion largeRegion, 0⟩ 0x2100000 0x20F0000 0x9000
      = some h' ∧ h'.firstFree ≠ 0 := by
  obtain ⟨h', hcode, hiff⟩ := initAllocator_heap_iff (h := ⟨_, 0⟩) memoryMap_bootMemory rfl
    0x2100000 0x20F0000 ⟨largeRegion, by simp, rfl, by decide, by decide, by decide⟩
  exact ⟨h', hcode, hiff.mpr ⟨by decide, largeRegion, firstLargest_largeRegion, by decide,
    by decide, by decide⟩⟩

/-- The kernel ends at 2 MiB, in a region of 16 MiB at 1 MiB; a region of 64 MiB at 32 MiB is
larger, so it is the one looked at, and there is no heap. -/
theorem initAllocator_no_heap :
    MemoryMap (bootMemory lowRegion largeRegion) 0x9000 [lowRegion, largeRegion] ∧
    (lowRegion.type = 1 ∧ lowRegion.base + lowRegion.length ≤ 2 ^ 32 ∧
      lowRegion.base ≤ (0x200000 : UInt32).toNat ∧
      (0x200000 : UInt32).toNat + heapSize.toNat + 16 ≤ lowRegion.base + lowRegion.length) ∧
    ∃ h', initAllocator ⟨bootMemory lowRegion largeRegion, 0⟩ 0x200000 0x1F0000 0x9000
      = some h' ∧ h'.firstFree = 0 := by
  have hcode : (initAllocator ⟨bootMemory lowRegion largeRegion, 0⟩ 0x200000 0x1F0000 0x9000).map
      Heap.firstFree = some 0 := by decide
  obtain ⟨h', hrun, hzero⟩ := Option.map_eq_some_iff.mp hcode
  exact ⟨memoryMap_bootMemory, by decide, h', hrun, hzero⟩

/-- The extent of the first segment, if any, is eight-aligned memory past `r` in one region of type
1 of the map. -/
def InitialSafe (h' : Heap) (entries : List MemoryMapEntry) (r : ℕ) : Prop :=
  h'.firstFree ≠ 0 → h'.firstFree.toNat % 8 = 0 ∧ r ≤ h'.firstFree.toNat ∧
    ∃ y ∈ entries, y.type = 1 ∧ y.base ≤ h'.firstFree.toNat ∧
      h'.firstFree.toNat + 8 + (h'.size h'.firstFree).toNat ≤ y.base + y.length

/-- **The heap is real memory only if the low words tell the truth.**  The first segment lies inside
one region of type 1, with its 64-bit base and length, if and only if the region it was made of has
its base below 4 GiB and eight bytes left past the address, or some other region happens to contain
what the code takes: up to the end by the low words, or `2^32` bytes more when the size wraps. -/
theorem initAllocator_inside_iff (hmap : MemoryMap h.mem mbInfo entries) (hnull : h.firstFree = 0)
    (kernelEnd esp : UInt32) :
    ∃ h', initAllocator h kernelEnd esp mbInfo = some h' ∧
      (InitialSafe h' entries (max kernelEnd.toNat esp.toNat) ↔
        ∀ x, FirstLargest entries x → Installs x (max kernelEnd.toNat esp.toNat) →
          (x.baseAddrHigh = 0 ∧ alignUp8 (max kernelEnd.toNat esp.toNat) + 8 ≤ x.lowEnd) ∨
          ∃ y ∈ entries, y.type = 1 ∧ y.base ≤ alignUp8 (max kernelEnd.toNat esp.toNat) ∧
            (if alignUp8 (max kernelEnd.toNat esp.toNat) + 8 ≤ x.lowEnd then x.lowEnd
              else x.lowEnd + 2 ^ 32) ≤ y.base + y.length) := by
  have hcases := initAllocator_cases hmap hnull kernelEnd esp
  generalize max kernelEnd.toNat esp.toNat = r at hcases ⊢
  obtain ⟨h', hcode, ⟨hzero, hno⟩ | ⟨x, hx, hi, hinst⟩⟩ := hcases
  · exact ⟨h', hcode, iff_of_true (fun h0 => absurd hzero h0)
      fun x hx hi => absurd hi (hno x hx)⟩
  · refine ⟨h', hcode, ?_⟩
    have hal := alignUp8_bounds r
    have hstop := hinst.stop_eq
    rw [hinst.firstFree_toNat] at hstop
    rw [InitialSafe, hinst.firstFree_toNat, hstop]
    constructor
    · intro hsafe z hz _
      obtain ⟨-, -, hin⟩ := hsafe hinst.ne_zero
      rw [hz.unique hx]
      exact .inr hin
    · intro hcond _
      refine ⟨hal.2.2, hal.1, ?_⟩
      rcases hcond x hx hi with ⟨hhigh, hroom⟩ | hin
      · -- the region itself contains what its low words say
        have hbase := hi.coversLow.1
        have hx0 : x.baseAddrHigh.toNat = 0 := by rw [hhigh]; rfl
        refine ⟨x, hx.usable.1, hx.usable.2.1, ?_, ?_⟩
        · rw [MemoryMapEntry.base]
          omega
        · rw [if_pos hroom, MemoryMapEntry.lowEnd, MemoryMapEntry.base, MemoryMapEntry.length]
          omega
      · exact hin

theorem initAllocator_inside_bootMemory :
    ∃ h', initAllocator ⟨bootMemory lowRegion largeRegion, 0⟩ 0x2100000 0x20F0000 0x9000
      = some h' ∧ InitialSafe h' [lowRegion, largeRegion] 0x2100000 := by
  obtain ⟨h', hcode, hiff⟩ :=
    initAllocator_inside_iff (h := ⟨_, 0⟩) memoryMap_bootMemory rfl 0x2100000 0x20F0000
  refine ⟨h', hcode, hiff.mpr fun x hx _ => .inl ?_⟩
  rw [hx.unique firstLargest_largeRegion]
  decide

/-- 1 GiB of memory at 4 GiB: its low words say it is at `0`. -/
def highRegion : MemoryMapEntry := ⟨20, 0, 1, 0x40000000, 0, 1⟩

/-- A region that ends at `0x300004`, not at a multiple of eight. -/
def oddRegion : MemoryMapEntry := ⟨20, 0x100000, 0, 0x200004, 0, 1⟩

/-- A region of type 2. -/
def reservedRegion : MemoryMapEntry := ⟨20, 0xF0000000, 0, 0x1000000, 0, 2⟩

/-- A region above 4 GiB makes the heap reach to 1 GiB when the machine has 16 MiB there; and a
kernel that ends two bytes before its region does makes the size of the segment wrap. -/
theorem initAllocator_outside :
    (MemoryMap (bootMemory lowRegion highRegion) 0x9000 [lowRegion, highRegion] ∧
      ∃ h', initAllocator ⟨bootMemory lowRegion highRegion, 0⟩ 0x200000 0x1F0000 0x9000
        = some h' ∧ h'.firstFree = 0x200000 ∧ h'.size 0x200000 = 0x3FDFFFF8 ∧
        ¬ InitialSafe h' [lowRegion, highRegion] 0x200000) ∧
    (MemoryMap (bootMemory oddRegion reservedRegion) 0x9000 [oddRegion, reservedRegion] ∧
      ∃ h', initAllocator ⟨bootMemory oddRegion reservedRegion, 0⟩ 0x300002 0x1F0000 0x9000
        = some h' ∧ h'.firstFree = 0x300008 ∧ h'.size 0x300008 = 0xFFFFFFF4 ∧
        ¬ InitialSafe h' [oddRegion, reservedRegion] 0x300002) := by
  refine ⟨⟨⟨by decide, by decide, by decide⟩, ?_⟩, ⟨by decide, by decide, by decide⟩, ?_⟩
  · have hcode : (initAllocator ⟨bootMemory lowRegion highRegion, 0⟩ 0x200000 0x1F0000 0x9000).map
        (fun h' => (h'.firstFree, h'.size 0x200000)) = some (0x200000, 0x3FDFFFF8) := by decide
    obtain ⟨h', hrun, hr⟩ := Option.map_eq_some_iff.mp hcode
    obtain ⟨hfirst, hsize⟩ := Prod.mk.inj hr
    refine ⟨h', hrun, hfirst, hsize, fun hsafe => ?_⟩
    rw [InitialSafe, hfirst, hsize] at hsafe
    exact absurd hsafe (by decide)
  · have hcode : (initAllocator ⟨bootMemory oddRegion reservedRegion, 0⟩ 0x300002 0x1F0000
        0x9000).map (fun h' => (h'.firstFree, h'.size 0x300008)) = some (0x300008, 0xFFFFFFF4) := by
      decide
    obtain ⟨h', hrun, hr⟩ := Option.map_eq_some_iff.mp hcode
    obtain ⟨hfirst, hsize⟩ := Prod.mk.inj hr
    refine ⟨h', hrun, hfirst, hsize, fun hsafe => ?_⟩
    rw [InitialSafe, hfirst, hsize] at hsafe
    exact absurd hsafe (by decide)

end Shogun.Memory
