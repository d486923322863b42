import Shogun.Kernel.Equiv.RunTests
import Shogun.Kernel.MemoryTests
import Shogun.Memory.Equiv.Scatter

/-!
# The tests of the heap pass and break it

* `use_block`: a block that is allocated, written to and freed.
* `three_blocks`: the blocks of the last test.
* `testMemoryAllocBasic_spec`, `testMemoryAllocAndFree_spec`, `testMemoryMultipleAllocFree_spec`:
  the assertions hold, and what becomes of the free list.
* `runMemoryTests_passes`: on every heap of one segment that is large enough the report is that all
  tests have passed, and the free list consists of three segments that overlap.
-/

namespace Shogun.Kernel

open Memory Numeral

/-! ### Blocks -/

section Blocks

variable {h : Heap} {s : FreeSegment}

/-- A block that is allocated and freed: the segment is what it was, but ends four bytes further
up.  In between the client may write to the block. -/
theorem use_block (size : UInt32) (hlist : h.FreeList [s]) (hstop : s.stop + 4 ≤ 2 ^ 32)
    (hpos : size ≠ 0) (hlt : size.toNat < 2 ^ 31) (hroom : size.toNat + 12 ≤ s.size.toNat) :
    ∃ h' p, malloc h size = some (h', p) ∧ p ≠ 0 ∧ p.toNat + size.toNat ≤ s.stop ∧
      ∀ h'', OnlyWrites p.toNat (p.toNat + size.toNat) h' h'' →
        ∃ h₃ u, free h'' p = some h₃ ∧ h₃.FreeList [u] ∧ u.addr = s.addr ∧
          u.stop = s.stop + 4 := by
  obtain ⟨h', t, p, hcode, hp, hlist', haddr, htstop, hend, hlow, hhigh, hmod, -⟩ :=
    malloc_room size hlist (by omega) hpos hlt hroom
  have hnat : size.toNat ≠ 0 := fun hzero => hpos ((Word32.eq_zero_iff size).mpr hzero)
  refine ⟨h', p, hcode, ?_, by omega, ?_⟩
  · rintro rfl
    have : (0 : UInt32).toNat = 0 := rfl
    omega
  · intro h'' hw
    have hle := t.addr_add_le_stop
    -- neither the header of the block nor that of the segment is written to
    have hsize : (h''.size (header p)).toNat = (h'.size (header p)).toNat :=
      congrArg UInt32.toNat (hw.load32 (by omega) (.inl (by omega)))
    have hlist'' : h''.FreeList [t] := by
      refine hw.freeList hlist' ?_ ?_
      · simp only [List.mem_singleton, forall_eq]
        omega
      · simp only [List.mem_singleton, forall_eq]
        omega
    have htiles : Tiles h'' t.stop [p] s.stop :=
      .cons htstop.symm (by omega) (by omega) (by omega) rfl
    have hmem : p ∈ [p] := List.mem_singleton_self p
    obtain ⟨h₃, hfree, hs⟩ := (Scattered.start hlist'').free htiles hstop hmem List.not_mem_nil
    have hseg := stop_segmentOf htiles hmem
    have hgrown := grown_stop htstop (stop_segmentOf_le htiles hstop hmem)
    refine ⟨h₃, grown h'' t p, hfree, ?_, haddr, ?_⟩
    · have hlist₃ := hs.list
      rwa [scattered, front, if_pos (by simp)] at hlist₃
    · omega

end Blocks

/-! ### The single tests -/

/-- A test that makes `count` assertions, all of which hold, and leaves the heap `h'`. -/
def Passes (result : Option (Heap × List Assertion)) (count : ℕ) (h' : Heap) : Prop :=
  ∃ assertions, result = some (h', assertions) ∧ assertions.length = count ∧
    ∀ a ∈ assertions, a.passes = true

section Tests

variable {h : Heap} {s : FreeSegment} {p : UInt32}

theorem testMemoryAllocBasic_spec (hlist : h.FreeList [s]) (hstop : s.stop + 4 ≤ 2 ^ 32)
    (hroom : 22 ≤ s.size.toNat) :
    ∃ h' u, Passes (testMemoryAllocBasic h) 1 h' ∧ h'.FreeList [u] ∧ u.addr = s.addr ∧
      u.stop = s.stop + 4 := by
  have hten : (10 : UInt32).toNat = 10 := rfl
  obtain ⟨h₁, p, hcode, hp, -, hfree⟩ :=
    use_block 10 hlist hstop (by decide) (by decide) (by omega)
  obtain ⟨h', u, hfreed, hlist', haddr, hustop⟩ := hfree h₁ (.refl _ _ h₁)
  refine ⟨h', u,
    ⟨[.assert (p != 0) (kernelSite "Basic allocation should succeed" 247)], ?_, rfl, ?_⟩,
    hlist', haddr, hustop⟩
  · simp [testMemoryAllocBasic, hcode, freeIfNotNull, hp, hfreed]
  · simp [Assertion.passes, hp]

theorem testMemoryAllocZero_eq (h : Heap) : testMemoryAllocZero h = some (h, []) := by
  simp [testMemoryAllocZero, malloc, allocate, freeIfNotNull]

theorem element_toNat {i : ℕ} (hi : i < 5) (hp : p.toNat + 20 ≤ 2 ^ 32) :
    (element p i).toNat = p.toNat + 4 * i := by
  rw [element, UInt32.toNat_add, UInt32.toNat_mul, UInt32.toNat_ofNat',
    show (4 : UInt32).toNat = 4 from rfl]
  omega

/-- The loop of the test writes to the array alone, and leaves its values in it. -/
theorem fillArray (hp : p.toNat + 20 ≤ 2 ^ 32) (h : Heap) :
    let h' := forLoop 5 (fun i h => storeInt h (element p i) (Int32.ofNat (i * 10))) h
    OnlyWrites p.toNat (p.toNat + 20) h h' ∧
      ∀ i < 5, loadInt h' (element p i) = Int32.ofNat (i * 10) := by
  refine forLoop_invariant (fun i h' => OnlyWrites p.toNat (p.toNat + 20) h h' ∧
    ∀ j < i, loadInt h' (element p j) = Int32.ofNat (j * 10)) ⟨.refl _ _ h, by simp⟩ ?_
  rintro i h' hi ⟨hw, hvalues⟩
  have hnat := element_toNat hi hp
  refine ⟨hw.trans (onlyWrites_store32 h' _ (by omega) (by omega) (by omega)), ?_⟩
  intro j hj
  rcases Nat.lt_succ_iff_lt_or_eq.mp hj with hj | rfl
  · -- the values written before are below this one
    have hjnat := element_toNat (hj.trans hi) hp
    rw [← hvalues j hj, loadInt, loadInt]
    exact congrArg UInt32.toInt32 (ByteMemory.load32_store32_of_apart _ _ (.inr (by omega)))
  · rw [loadInt]
    show (ByteMemory.load32 (ByteMemory.store32 _ _ _) _).toInt32 = _
    rw [ByteMemory.load32_store32_same]
    rfl

theorem testMemoryAllocAndFree_spec (hlist : h.FreeList [s]) (hstop : s.stop + 4 ≤ 2 ^ 32)
    (hroom : 32 ≤ s.size.toNat) :
    ∃ h' u, Passes (testMemoryAllocAndFree h) 6 h' ∧ h'.FreeList [u] ∧ u.addr = s.addr ∧
      u.stop = s.stop + 4 := by
  have htwenty : (5 * 4 : UInt32).toNat = 20 := rfl
  obtain ⟨h₁, p, hcode, hp, hend, hfree⟩ :=
    use_block (5 * 4) hlist hstop (by decide) (by decide) (by omega)
  obtain ⟨hw, hvalues⟩ := fillArray (p := p) (by omega) h₁
  set filled := forLoop 5 (fun i h => storeInt h (element p i) (Int32.ofNat (i * 10))) h₁
    with hfilled
  obtain ⟨h', u, hfreed, hlist', haddr, hustop⟩ := hfree filled hw
  refine ⟨h', u, ⟨.assert (p != 0) (kernelSite "Array allocation should succeed" 262) ::
      (List.range 5).map fun i =>
        .assertEqual (Int32.ofNat (i * 10)) (loadInt filled (element p i))
          (kernelSite "Array values should be correct" 271), ?_, rfl, ?_⟩, hlist', haddr, hustop⟩
  · simp only [testMemoryAllocAndFree, hcode, Option.bind_eq_bind, Option.bind_some, if_pos hp,
      ← hfilled, hfreed, Option.pure_def]
  · refine List.forall_mem_cons.mpr ⟨by simp [Assertion.passes, hp], ?_⟩
    rw [List.forall_mem_map]
    intro i hi
    rw [hvalues i (List.mem_range.mp hi)]
    exact decide_eq_true rfl

/-! ### The last test -/

/-- The blocks of the last test tile the end of the segment. -/
theorem three_blocks (hlist : h.FreeList [s]) (hstop : s.stop + 4 ≤ 2 ^ 32)
    (hroom : 128 ≤ s.size.toNat) :
    ∃ h₁ h₂ h₃ str1 arr1 str2 t, malloc h 20 = some (h₁, str1) ∧
      malloc h₁ (10 * 4) = some (h₂, arr1) ∧ malloc h₂ 30 = some (h₃, str2) ∧
      h₃.FreeList [t] ∧ t.addr = s.addr ∧ Tiles h₃ t.stop [str2, arr1, str1] s.stop ∧
      str2.toNat + 30 ≤ (header arr1).toNat ∧ arr1.toNat + 40 ≤ (header str1).toNat ∧
      str1.toNat + 20 ≤ s.stop ∧ str2.toNat = (header str2).toNat + 4 ∧
      arr1.toNat = (header arr1).toNat + 4 ∧ str1.toNat = (header str1).toNat + 4 := by
  have h20 : (20 : UInt32).toNat = 20 := rfl
  have h40 : (10 * 4 : UInt32).toNat = 40 := rfl
  have h30 : (30 : UInt32).toNat = 30 := rfl
  have hs : s.stop = s.addr.toNat + 8 + s.size.toNat := rfl
  obtain ⟨h₁, t₁, str1, hcode₁, hp₁, hlist₁, haddr₁, hstop₁, hend₁, hlow₁, hhigh₁, hmod₁, -⟩ :=
    malloc_room 20 hlist (by omega) (by decide) (by decide) (by omega)
  have hs₁ : t₁.stop = t₁.addr.toNat + 8 + t₁.size.toNat := rfl
  rw [haddr₁] at hs₁
  obtain ⟨h₂, t₂, arr1, hcode₂, hp₂, hlist₂, haddr₂, hstop₂, hend₂, hlow₂, hhigh₂, hmod₂,
      hframe₂⟩ :=
    malloc_room (10 * 4) hlist₁ (by omega) (by decide) (by decide) (by omega)
  have hs₂ : t₂.stop = t₂.addr.toNat + 8 + t₂.size.toNat := rfl
  rw [haddr₂, haddr₁] at hs₂
  obtain ⟨h₃, t₃, str2, hcode₃, hp₃, hlist₃, haddr₃, hstop₃, hend₃, hlow₃, hhigh₃, hmod₃,
      hframe₃⟩ :=
    malloc_room 30 hlist₂ (by omega) (by decide) (by decide) (by omega)
  -- later allocations leave the recorded sizes alone
  have hsize₂ : (h₃.size (header arr1)).toNat = (h₂.size (header arr1)).toNat :=
    congrArg UInt32.toNat (hframe₃ _ (by omega) (by omega))
  have hsize₁ : (h₃.size (header str1)).toNat = (h₁.size (header str1)).toNat :=
    congrArg UInt32.toNat
      ((hframe₃ _ (by omega) (by omega)).trans (hframe₂ _ (by omega) (by omega)))
  have htiles₁ : Tiles h₃ t₁.stop [str1] s.stop :=
    .cons hstop₁.symm (by omega) (by omega) (by omega) rfl
  have htiles₂ : Tiles h₃ t₂.stop [arr1, str1] s.stop :=
    .cons hstop₂.symm (by omega) (by omega) (by omega) htiles₁
  have htiles₃ : Tiles h₃ t₃.stop [str2, arr1, str1] s.stop :=
    .cons hstop₃.symm (by omega) (by omega) (by omega) htiles₂
  exact ⟨h₁, h₂, h₃, str1, arr1, str2, t₃, hcode₁, hcode₂, hcode₃, hlist₃,
    haddr₃.trans (haddr₂.trans haddr₁), htiles₃, by omega, by omega, by omega, hp₃, hp₂, hp₁⟩

theorem onlyWrites_storeChar (h : Heap) (a : UInt32) (c : UInt8) :
    OnlyWrites a.toNat (a.toNat + 1) h (storeChar h a c) := by
  refine ⟨rfl, fun b hb => if_neg ?_⟩
  rintro rfl
  omega

/-- The three values the last test writes, each to its block. -/
theorem writeBlocks {t : FreeSegment} {str1 arr1 str2 : UInt32} (hlist : h.FreeList [t])
    (htiles : Tiles h t.stop [str2, arr1, str1] s.stop) (hstop : s.stop + 4 ≤ 2 ^ 32)
    (hp₃ : str2.toNat = (header str2).toNat + 4) (hp₂ : arr1.toNat = (header arr1).toNat + 4)
    (hp₁ : str1.toNat = (header str1).toNat + 4) (h₃ : str2.toNat + 30 ≤ (header arr1).toNat)
    (h₂ : arr1.toNat + 40 ≤ (header str1).toNat) (h₁ : str1.toNat + 20 ≤ s.stop) :
    let h' := storeChar (storeInt (storeChar h str1 65) arr1 100) str2 66
    h'.FreeList [t] ∧ Tiles h' t.stop [str2, arr1, str1] s.stop ∧ loadChar h' str1 = 65 ∧
      loadInt h' arr1 = 100 ∧ loadChar h' str2 = 66 := by
  have hlow : t.stop = (header str2).toNat := htiles.1.symm
  have ht := t.addr_add_le_stop
  have hw₁ := onlyWrites_storeChar h str1 65
  have hw₂ : OnlyWrites arr1.toNat (arr1.toNat + 4) _ (storeInt (storeChar h str1 65) arr1 100) :=
    onlyWrites_store32 _ _ le_rfl le_rfl (by omega)
  have hw₃ := onlyWrites_storeChar (storeInt (storeChar h str1 65) arr1 100) str2 66
  refine ⟨?_, ?_, ?_, ?_, ?_⟩
  · -- the header of the segment is below all blocks
    refine hw₃.freeList (hw₂.freeList (hw₁.freeList hlist ?_ ?_) ?_ ?_) ?_ ?_ <;>
      simp only [List.mem_singleton, forall_eq] <;> omega
  · refine ((htiles.onlyWrites (by omega) hw₁ ?_).onlyWrites (by omega) hw₂ ?_).onlyWrites
      (by omega) hw₃ ?_ <;>
      simp only [List.mem_cons, List.not_mem_nil, or_false, forall_eq_or_imp, forall_eq] <;> omega
  · rw [loadChar, hw₃.byte str1 (by omega), hw₂.byte str1 (by omega)]
    show (if str1 = str1 then (65 : UInt8) else _).toInt8.toInt32 = 65
    rw [if_pos rfl]
    rfl
  · rw [loadInt, hw₃.load32 (by omega) (by omega)]
    show (ByteMemory.load32 (ByteMemory.store32 _ _ _) _).toInt32 = 100
    rw [ByteMemory.load32_store32_same]
    rfl
  · show (if str2 = str2 then (66 : UInt8) else _).toInt8.toInt32 = 66
    rw [if_pos rfl]
    rfl

/-- The assertions of the last test, which reads the heap `h`. -/
def multipleAssertions (h : Heap) (str1 arr1 str2 : UInt32) : List Assertion :=
  [.assert (str1 != 0) (kernelSite "First string allocation should succeed" 283),
    .assert (arr1 != 0) (kernelSite "Array allocation should succeed" 284),
    .assert (str2 != 0) (kernelSite "Second string allocation should succeed" 285),
    .assertEqual 65 (loadChar h str1) (kernelSite "First string should hold value" 292),
    .assertEqual 100 (loadInt h arr1) (kernelSite "Array should hold value" 293),
    .assertEqual 66 (loadChar h str2) (kernelSite "Second string should hold value" 294)]

/-- What the tests leave of a heap of one segment that ended at `stop`: three segments, each of
which ends four bytes inside the next. -/
structure Overlapping (h : Heap) (addr : UInt32) (stop : ℕ) (u v w : FreeSegment) : Prop where
  list : h.FreeList [u, v, w]
  addr : u.addr = addr
  first : u.stop = v.addr.toNat + 4
  second : v.stop = w.addr.toNat + 4
  third : w.stop = stop + 4
  mod : v.addr.toNat % 8 = 4

theorem testMemoryMultipleAllocFree_spec (hlist : h.FreeList [s]) (hstop : s.stop + 4 ≤ 2 ^ 32)
    (hroom : 128 ≤ s.size.toNat) :
    ∃ h' u v w, Passes (testMemoryMultipleAllocFree h) 6 h' ∧
      Overlapping h' s.addr s.stop u v w := by
  obtain ⟨h₁, h₂, h₃, str1, arr1, str2, t, hcode₁, hcode₂, hcode₃, hlist₃, haddr, htiles₃, hend₃,
    hend₂, hend₁, hp₃, hp₂, hp₁⟩ := three_blocks hlist hstop hroom
  obtain ⟨hlist₄, htiles, hA, hI, hB⟩ :=
    writeBlocks hlist₃ htiles₃ hstop hp₃ hp₂ hp₁ hend₃ hend₂ hend₁
  set h₄ := storeChar (storeInt (storeChar h₃ str1 65) arr1 100) str2 66 with hh₄
  have hne : ∀ {p : UInt32}, p.toNat = (header p).toNat + 4 → p ≠ 0 := by
    rintro p hp rfl
    have : (0 : UInt32).toNat = 0 := rfl
    omega
  have hdistinct : arr1 ≠ str1 ∧ str2 ≠ arr1 ∧ str2 ≠ str1 := by
    refine ⟨?_, ?_, ?_⟩ <;> rintro rfl <;> omega
  obtain ⟨h₅, hfree₅, hs₅⟩ :=
    (Scattered.start hlist₄).free htiles hstop (p := arr1) (by simp) (by simp)
  obtain ⟨h₆, hfree₆, hs₆⟩ :=
    hs₅.free htiles hstop (p := str1) (by simp) (by simp [hdistinct.1.symm])
  obtain ⟨h₇, hfree₇, hs₇⟩ :=
    hs₆.free htiles hstop (p := str2) (by simp) (by simp [hdistinct])
  have hsegs : scattered h₄ t [str2, arr1, str1] ([] ++ [arr1] ++ [str1] ++ [str2])
      = [grown h₄ t str2, segmentOf h₄ arr1, segmentOf h₄ str1] := by
    simp [scattered, front]
  have hlist₇ := hs₇.list
  rw [hsegs] at hlist₇
  -- where the segments end
  have hstop₃ := stop_segmentOf htiles (p := str2) (by simp)
  have hstop₂ := stop_segmentOf htiles (p := arr1) (by simp)
  have hstop₁ := stop_segmentOf htiles (p := str1) (by simp)
  have hgrown := grown_stop htiles.1.symm (stop_segmentOf_le htiles hstop (p := str2) (by simp))
  obtain ⟨hb₃, -, -, hb₂, hmod₂, -, hb₁, -, -, hend⟩ := htiles
  change (header str2).toNat = t.stop at hb₃
  change (header arr1).toNat = t.stop + (h₄.size (header str2)).toNat at hb₂
  change (header str1).toNat
    = t.stop + (h₄.size (header str2)).toNat + (h₄.size (header arr1)).toNat at hb₁
  change t.stop + (h₄.size (header str2)).toNat + (h₄.size (header arr1)).toNat
    + (h₄.size (header str1)).toNat = s.stop at hend
  change (t.stop + (h₄.size (header str2)).toNat) % 8 = 4 at hmod₂
  refine ⟨h₇, _, _, _, ⟨multipleAssertions h₄ str1 arr1 str2, ?_, rfl, ?_⟩, hlist₇, haddr,
    ?_, ?_, ?_, ?_⟩
  · simp only [testMemoryMultipleAllocFree, hcode₁, hcode₂, hcode₃, Option.bind_eq_bind,
      Option.bind_some, hne hp₁, hne hp₂, hne hp₃, ne_eq, not_false_eq_true, and_self, if_true,
      ← hh₄, hfree₅, hfree₆, hfree₇, Option.pure_def]
    rfl
  · simp [multipleAssertions, Assertion.passes, hne hp₁, hne hp₂, hne hp₃, hA, hI, hB]
  · show _ = (header arr1).toNat + 4
    omega
  · show _ = (header str1).toNat + 4
    omega
  · omega
  · show (header arr1).toNat % 8 = 4
    omega

end Tests

/-! ### The whole run -/

section Run

variable {h : Heap} {s u v w : FreeSegment}

theorem outcomes_memoryTests (hlist : h.FreeList [s]) (hsize : 128 ≤ s.size.toNat)
    (hstop : s.stop + 12 ≤ 2 ^ 32) :
    ∃ h' results u v w, outcomes memoryTests h = some (h', results) ∧
      results.flatten.length = 13 ∧ (∀ a ∈ results.flatten, a.passes = true) ∧
      Overlapping h' s.addr (s.stop + 8) u v w := by
  have hs : s.stop = s.addr.toNat + 8 + s.size.toNat := rfl
  obtain ⟨h₁, t₁, ⟨as₁, hrun₁, hlen₁, hpass₁⟩, hlist₁, haddr₁, hstop₁⟩ :=
    testMemoryAllocBasic_spec hlist (by omega) (by omega)
  have hs₁ : t₁.stop = t₁.addr.toNat + 8 + t₁.size.toNat := rfl
  rw [haddr₁] at hs₁
  obtain ⟨h₂, t₂, ⟨as₂, hrun₂, hlen₂, hpass₂⟩, hlist₂, haddr₂, hstop₂⟩ :=
    testMemoryAllocAndFree_spec hlist₁ (by omega) (by omega)
  have hs₂ : t₂.stop = t₂.addr.toNat + 8 + t₂.size.toNat := rfl
  rw [haddr₂, haddr₁] at hs₂
  obtain ⟨h₃, u, v, w, ⟨as₃, hrun₃, hlen₃, hpass₃⟩, hover⟩ :=
    testMemoryMultipleAllocFree_spec hlist₂ (by omega) (by omega)
  refine ⟨h₃, [as₁, [], as₂, as₃], u, v, w, ?_, ?_, ?_, ?_⟩
  · simp [outcomes, memoryTests, hrun₁, testMemoryAllocZero_eq, hrun₂, hrun₃]
  · simp [hlen₁, hlen₂, hlen₃]
  · intro a ha
    simp only [List.flatten_cons, List.flatten_nil, List.nil_append, List.append_nil,
      List.mem_append] at ha
    rcases ha with ha | ha | ha
    · exact hpass₁ a ha
    · exact hpass₂ a ha
    · exact hpass₃ a ha
  · rw [haddr₂.trans haddr₁, hstop₂, hstop₁] at hover
    exact hover

/-- The next block of a multiple of eight bytes ends with the `size` of the second segment. -/
theorem Overlapping.malloc_next {addr size : UInt32} {stop : ℕ} (ho : Overlapping h addr stop u v w)
    (hpos : size ≠ 0) (height : size.toNat % 8 = 0) (hfits : size.toNat + 4 ≤ u.size.toNat) :
    ∃ h' p, malloc h size = some (h', p) ∧ p.toNat + size.toNat = v.addr.toNat + 4 := by
  have hmod := ho.mod
  have hfirst := ho.first
  have hv := v.addr.toNat_lt
  have hs : u.stop = u.addr.toNat + 8 + u.size.toNat := rfl
  have hstop : u.stop ≤ 2 ^ 32 := by omega
  have hpow : PowerOfTwo 8 := ⟨3, by decide, rfl⟩
  have hnat : 0 < size.toNat :=
    Nat.pos_of_ne_zero fun hzero => hpos ((Word32.eq_zero_iff size).mpr hzero)
  -- no bytes are needed to align the block
  have hneed : u.need size 8 = size.toNat + 4 := by
    rw [FreeSegment.need, show (8 : UInt32).toNat = 8 from rfl]
    omega
  have hfit : u.Fits size 8 := by
    show u.need size 8 ≤ u.size.toNat
    rwa [hneed]
  have husize := ho.list.size u List.mem_cons_self
  have hpass := fits_of_fits husize hstop hpow hnat hfit
  rcases allocate_cases ho.list hpos 8 with ⟨hnone, -⟩ | ⟨pre, x, post, hsplit, hskip, -, hcode⟩
  · exact absurd hpass (hnone u List.mem_cons_self)
  · have hx : x = u := by
      cases pre with
      | nil => exact (List.cons.inj hsplit).1.symm
      | cons y pre =>
        obtain ⟨rfl, -⟩ := List.cons.inj hsplit
        exact absurd hpass (hskip u List.mem_cons_self)
    subst hx
    refine ⟨_, _, hcode, ?_⟩
    rw [alignedDataPtr_toNat husize hstop hpow hnat hfit, hneed]
    omega

/-- **The tests of the heap pass, and break it.**  On every heap of one free segment of at least 128
bytes, `run_memory_tests` reports that all of its assertions hold.  What it leaves is three
segments, each of which ends four bytes inside the next, the last behind the end of the heap; and
the next block of a multiple of eight bytes that the first segment has room for ends with the `size`
field of the second, so that its owner overwrites the free list. -/
theorem runMemoryTests_passes (hlist : h.FreeList [s]) (hsize : 128 ≤ s.size.toNat)
    (hstop : s.stop + 12 ≤ 2 ^ 32) (stack : List UInt8 → CharArray) (harness : Harness) :
    ∃ h' harness' u v w, runMemoryTests stack h harness = some (h', harness') ∧
      harness'.testsPassed = 13 ∧ harness'.testsFailed = 0 ∧
      ascii "\nTest Results: 13 passed, 0 failed\nAll tests passed!\n" <:+ harness'.out ∧
      h'.FreeList [u, v, w] ∧ u.addr = s.addr ∧ u.stop = v.addr.toNat + 4 ∧
      v.stop = w.addr.toNat + 4 ∧ w.stop = s.stop + 12 ∧
      ∀ size : UInt32, size ≠ 0 → size.toNat % 8 = 0 → size.toNat + 4 ≤ u.size.toNat →
        ∃ h'' p, malloc h' size = some (h'', p) ∧ p.toNat + size.toNat = v.addr.toNat + 4 := by
  obtain ⟨h', results, u, v, w, hout, hlen, hpass, hover⟩ :=
    outcomes_memoryTests hlist hsize hstop
  have hpassed : results.flatten.countP (·.passes) = 13 := by
    rw [← hlen, List.countP_eq_length]
    exact hpass
  have hfailed : results.flatten.countP (!·.passes) = 0 := by
    rw [List.countP_eq_zero]
    intro a ha
    simp [hpass a ha]
  have hall : results.flatten.all (·.passes) = true := List.all_eq_true.mpr hpass
  have hreport := runTests_report hout (by decide) (by omega) stack harness
  rw [hpassed, hfailed] at hreport
  refine ⟨h', _, u, v, w, hreport, rfl, rfl, ?_, hover.list, hover.addr, hover.first, hover.second,
    hover.third, fun size hpos height hfits => hover.malloc_next hpos height hfits⟩
  -- the last line of the report
  have hthirteen : decimal.numeral 13 = ascii "13" := by
    rw [decimal.numeral_of_ge (by decide), decimal.numeral_of_lt (by decide)]
    rfl
  have hzero : decimal.numeral 0 = ascii "0" := rfl
  have htext : ascii "\nTest Results: 13 passed, 0 failed\nAll tests passed!\n"
      = ascii "\nTest Results: " ++ (ascii "13" ++ (ascii " passed, " ++ (ascii "0"
        ++ (ascii " failed\n" ++ ascii "All tests passed!\n")))) := by
    decide
  rw [reportText, hpassed, hfailed, hall, if_pos rfl, hthirteen, hzero, htext]
  refine ⟨harness.out ++ ascii "Running " ++ decimal.numeral memoryTests.length
    ++ ascii " tests...\n\n" ++ (List.zipWith testText memoryTests results).flatten, ?_⟩
  simp only [List.append_assoc]

/-- A heap of one segment of 200 bytes. -/
def testHeap : Heap := (⟨fun _ => 0, 4096⟩ : Heap).setSize 4096 200

theorem runMemoryTests_passes_testHeap :
    testHeap.FreeList [⟨4096, 200⟩] ∧
      ∃ h' harness' u v w,
        runMemoryTests (fun _ => CharArray.zeros) testHeap ⟨0, 0, []⟩ = some (h', harness') ∧
        harness'.testsPassed = 13 ∧ h'.FreeList [u, v, w] ∧ u.addr = 4096 ∧
        u.stop = v.addr.toNat + 4 ∧ v.stop = w.addr.toNat + 4 ∧ w.stop = 4316 := by
  have hlist : testHeap.FreeList [⟨4096, 200⟩] := by decide
  obtain ⟨h', harness', u, v, w, hrun, hpassed, -, -, hsegs, haddr, hfirst, hsecond, hthird, -⟩ :=
    runMemoryTests_passes hlist (by decide) (by decide) (fun _ => CharArray.zeros) ⟨0, 0, []⟩
  exact ⟨hlist, h', harness', u, v, w, hrun, hpassed, hsegs, haddr, hfirst, hsecond, hthird⟩

end Run

end Shogun.Kernel
