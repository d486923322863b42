import Shogun.Memory.Equiv.AllocateRun

/-!
# First fit, and the bytes it accounts for

* `allocate_firstFit`: what a request gets, in terms of `need` alone.  Which segment is taken and
  which pointer comes back needs nothing but extents that do not wrap; that the other segments stay
  as they are needs disjoint extents too (`allocate_overwrites_overlapping`).
* `allocate_accounts_iff`: every byte that was free is free or in the new block afterwards, exactly
  if the block does not use up its segment: then the segment's header belongs to neither.
-/

namespace Shogun.Memory

open LinkedList ByteMemory

variable {h h' : Heap} {segs pre post : List FreeSegment} {s : FreeSegment}
  {size alignment p : UInt32}

/-! ### The bytes a block takes up -/

/-- `need` in whole numbers: the alignment divides `2^32`. -/
theorem FreeSegment.need_eq (s : FreeSegment) (size : UInt32) (hpow : PowerOfTwo alignment) :
    (s.need size alignment : ℤ)
      = size.toNat + ((s.stop : ℤ) - size.toNat) % alignment.toNat + 4 := by
  obtain ⟨k, hk, ha⟩ := hpow
  have hsz := size.toNat_lt
  have hwrap : ((s.stop + 2 ^ 32 - size.toNat : ℕ) : ℤ)
      = (s.stop : ℤ) - size.toNat + 2 ^ k * 2 ^ (32 - k) := by
    rw [← pow_add, Nat.add_sub_cancel' hk.le]
    omega
  have hmod : ((s.stop : ℤ) - size.toNat + 2 ^ k * 2 ^ (32 - k)) % 2 ^ k
      = ((s.stop : ℤ) - size.toNat) % 2 ^ k := Int.add_mul_emod_self_left ..
  rw [need, ha, Nat.cast_add, Nat.cast_add, Int.natCast_emod, hwrap, Nat.cast_pow, Nat.cast_ofNat,
    hmod]
  rfl

theorem FreeSegment.size_lt_need_iff :
    s.size.toNat < s.need size alignment ↔ ¬ s.Fits size alignment :=
  not_le.symm

/-- **`allocate` is exactly first fit.**  It returns `NULL` if and only if `need` exceeds the size
of every segment, and leaves the heap as it is then.  Otherwise it takes the first segment that can
hold the block and returns the pointer `need - 4` bytes below its end; if the extents are disjoint,
it records `need`, takes as many bytes from that segment and leaves the others alone. -/
theorem allocate_firstFit (hreq : ValidRequest size alignment) (hlist : h.FreeList segs)
    (hstop : ∀ s ∈ segs, s.stop ≤ 2 ^ 32) :
    (∀ s : FreeSegment, (s.need size alignment : ℤ)
      = size.toNat + ((s.stop : ℤ) - size.toNat) % alignment.toNat + 4) ∧
    ∃ h' p, allocate h size alignment = some (h', p) ∧
      (p = 0 ↔ ∀ s ∈ segs, s.size.toNat < s.need size alignment) ∧
      (p = 0 → h' = h) ∧
      (p ≠ 0 → ∃ pre s post, segs = pre ++ s :: post ∧
        (∀ t ∈ pre, t.size.toNat < t.need size alignment) ∧
        s.need size alignment ≤ s.size.toNat ∧
        p.toNat = s.stop - s.need size alignment + 4 ∧
        (segs.Pairwise (fun s t => Disjoint s.extent t.extent) →
          (h'.size (p - sizeofUsedSegment)).toNat = s.need size alignment ∧
          h'.FreeList (pre ++ s.shrink (s.need size alignment) ++ post))) := by
  refine ⟨fun s => s.need_eq size hreq.powerOfTwo, ?_⟩
  have hfits : ∀ s ∈ segs, fits h size alignment s.addr ↔ s.Fits size alignment :=
    fun s hs => fits_iff (hlist.size s hs) (hstop s hs) hreq
  rcases allocate_cases hlist hreq.size_ne_zero alignment with
    ⟨hnone, heq⟩ | ⟨pre, s, post, rfl, hskip, hfit, heq⟩
  · refine ⟨h, 0, heq, ⟨fun _ s hs => ?_, fun _ => rfl⟩, fun _ => rfl, fun h0 => absurd rfl h0⟩
    rw [FreeSegment.size_lt_need_iff, ← hfits s hs]
    exact hnone s hs
  · have hmem : s ∈ pre ++ s :: post := by simp
    have hfit := (hfits s hmem).mp hfit
    have hptr := alignedDataPtr_toNat (hlist.size s hmem) (hstop s hmem) hreq.powerOfTwo
      hreq.size_pos hfit
    have hne : alignedDataPtr h size alignment s.addr ≠ 0 := by
      intro h0
      rw [h0] at hptr
      exact absurd hptr (by show 0 ≠ _; omega)
    refine ⟨_, _, heq, ⟨fun h0 => absurd h0 hne, fun hall => ?_⟩, fun h0 => absurd h0 hne,
      fun _ => ⟨pre, s, post, rfl, ?_, hfit, hptr, ?_⟩⟩
    · exact absurd hfit (FreeSegment.size_lt_need_iff.mp (hall s hmem))
    · intro t ht
      rw [FreeSegment.size_lt_need_iff, ← hfits t (by simp [ht])]
      exact hskip t ht
    · intro hdisj
      have hc := carve_spec hreq.powerOfTwo hreq.size_pos hlist ⟨hstop, hdisj⟩ hfit
      exact ⟨hc.used_size, hc.freeList⟩

theorem allocate_firstFit_smallHeap :
    ∃ h' p, allocate smallHeap 8 8 = some (h', p) ∧
      (p = 0 ↔ ∀ s ∈ [(⟨4096, 88⟩ : FreeSegment)], s.size.toNat < s.need 8 8) ∧
      p.toNat = 4184 ∧ (h'.size (p - sizeofUsedSegment)).toNat = 12 ∧ h'.FreeList [⟨4096, 76⟩] := by
  have hreq : ValidRequest 8 8 := ⟨by decide, by decide, 3, by decide, by decide⟩
  obtain ⟨-, h', p, hcode, hnull, -, htaken⟩ :=
    allocate_firstFit hreq smallHeap_freeList smallHeap_wellFormed.stop_le
  have hp : p ≠ 0 := by
    intro h0
    have hall := hnull.mp h0 ⟨4096, 88⟩ (by simp)
    exact absurd hall (by decide)
  obtain ⟨pre, s, post, hsplit, -, -, hptr, hcarved⟩ := htaken hp
  -- the one segment is the one carved from
  obtain ⟨rfl, rfl, rfl⟩ : pre = [] ∧ s = ⟨4096, 88⟩ ∧ post = [] := by
    cases pre with
    | nil => simpa [eq_comm] using hsplit
    | cons t pre => simp at hsplit
  obtain ⟨hused, hlist⟩ := hcarved smallHeap_wellFormed.disjoint
  exact ⟨h', p, hcode, hnull, hptr, hused, hlist⟩

/-- A free list whose second segment, of no bytes, lies in the data area of the first. -/
def overlappingHeap : Heap :=
  ((⟨fun _ => 0, 4096⟩ : Heap).setSize 4096 88).setNextSegment 4096 4180

theorem overlappingHeap_freeList : overlappingHeap.FreeList [⟨4096, 88⟩, ⟨4180, 0⟩] := by decide

/-- On that list `allocate(8, 8)` takes the first segment and records the size of the block in the
header of the second. -/
theorem allocate_overwrites_overlapping :
    overlappingHeap.FreeList [⟨4096, 88⟩, ⟨4180, 0⟩] ∧
    (∀ s ∈ [(⟨4096, 88⟩ : FreeSegment), ⟨4180, 0⟩], s.stop ≤ 2 ^ 32) ∧ ValidRequest 8 8 ∧
    FreeSegment.need ⟨4096, 88⟩ 8 8 = 12 ∧
    ∃ h', allocate overlappingHeap 8 8 = some (h', 4184) ∧ h'.size 4180 = 12 ∧
      ¬ h'.FreeList (FreeSegment.shrink ⟨4096, 88⟩ 12 ++ [⟨4180, 0⟩]) := by
  have hcode : (allocate overlappingHeap 8 8).map (fun r => (r.2, r.1.size 4180))
      = some (4184, 12) := by decide
  obtain ⟨⟨h', p⟩, hrun, hr⟩ := Option.map_eq_some_iff.mp hcode
  obtain ⟨rfl, hsize⟩ := Prod.mk.inj hr
  refine ⟨overlappingHeap_freeList, ?_, ⟨by decide, by decide, 3, by decide, by decide⟩,
    by decide, h', hrun, hsize, ?_⟩
  · decide
  · intro hlist
    have hkept : h'.size 4180 = 0 := hlist.size ⟨4180, 0⟩ (by simp)
    rw [hkept] at hsize
    exact absurd hsize (by decide)

/-! ### The bytes of the segment that was carved -/

namespace Carved

theorem usedExtent_eq (c : Carved h h' pre s post size alignment p) :
    h'.usedExtent p = Set.Ico (s.stop - s.need size alignment) s.stop := by
  rw [Heap.usedExtent, c.used_size, c.header_toNat]
  have := c.lt_header
  congr 1
  omega

/-- The block and the segments that remain are disjoint. -/
theorem pairwise_disjoint (c : Carved h h' pre s post size alignment p)
    (hwf : WellFormed (pre ++ s :: post)) :
    ((pre ++ s.shrink (s.need size alignment) ++ post).map FreeSegment.extent
      ++ [h'.usedExtent p]).Pairwise Disjoint := by
  have hlo := c.lt_header
  refine List.pairwise_append.mpr ⟨List.pairwise_map.mpr (c.wellFormed hwf).disjoint,
    List.pairwise_singleton _ _, ?_⟩
  intro e he e' he'
  obtain ⟨t, ht, rfl⟩ := List.mem_map.mp he
  obtain rfl := List.mem_singleton.mp he'
  have := c.apart_of_mem hwf ht
  rw [c.usedExtent_eq, FreeSegment.extent, Set.Ico_disjoint_Ico]
  omega

/-- A segment that keeps some of its data area keeps its header: nothing is lost. -/
theorem freeBytes_eq (c : Carved h h' pre s post size alignment p)
    (hne : s.need size alignment ≠ s.size.toNat) :
    freeBytes (pre ++ s :: post)
      = freeBytes (pre ++ s.shrink (s.need size alignment) ++ post) ∪ h'.usedExtent p := by
  have hlo := c.lt_header
  have hshrink : s.shrink (s.need size alignment)
      = [{ s with size := s.size - .ofNat (s.need size alignment) }] := if_neg hne
  have hstop := (FreeSegment.stop_of_mem_shrink c.fits (hshrink ▸ List.mem_singleton_self _)).2
  -- what is left of the segment and the block are its extent
  have hsplit : s.extent = FreeSegment.extent
      { s with size := s.size - .ofNat (s.need size alignment) } ∪ h'.usedExtent p := by
    rw [c.usedExtent_eq, FreeSegment.extent, FreeSegment.extent, hstop]
    exact (Set.Ico_union_Ico_eq_Ico (by show s.addr.toNat ≤ _; omega) (by omega)).symm
  rw [hshrink, freeBytes_append, freeBytes_cons, freeBytes_append, freeBytes_append,
    freeBytes_singleton, hsplit]
  ext n
  simp only [Set.mem_union]
  tauto

/-- A segment that is used up loses its header to nobody. -/
theorem addr_notMem_of_eq (c : Carved h h' pre s post size alignment p)
    (hwf : WellFormed (pre ++ s :: post)) (heq : s.need size alignment = s.size.toNat) :
    s.addr.toNat ∉ freeBytes (pre ++ s.shrink (s.need size alignment) ++ post)
      ∪ h'.usedExtent p := by
  have hlo := c.lt_header
  rintro (⟨t, ht, hin⟩ | hin)
  · -- a remaining segment is disjoint from the block, and the block fills the data area
    have hap := c.apart_of_mem hwf ht
    have hstop : s.stop = s.addr.toNat + 8 + s.size.toNat := rfl
    obtain ⟨h1, h2⟩ := Set.mem_Ico.mp hin
    have hmem : t ∈ pre ++ post := by
      rwa [FreeSegment.shrink, if_pos heq, List.append_nil] at ht
    have hts : s ≠ t := by
      rintro rfl
      exact (List.nodup_middle.mp hwf.nodup).notMem hmem
    have hmem' : t ∈ pre ++ s :: post := by
      rcases List.mem_append.mp hmem with hmem | hmem <;> simp [hmem]
    have := hwf.apart (s := s) (by simp) hmem' hts
    omega
  · rw [c.usedExtent_eq] at hin
    have := (Set.mem_Ico.mp hin).1
    omega

end Carved

/-- **`allocate` loses the header of a segment it uses up.**  After a successful call every byte
that was free is in a remaining segment or in the new block, and all of these are disjoint, if and
only if the block is smaller than the data area of the segment it comes from. -/
theorem allocate_accounts_iff (hreq : ValidRequest size alignment) (hlist : h.FreeList segs)
    (hwf : WellFormed segs) (hcode : allocate h size alignment = some (h', p)) (hp : p ≠ 0) :
    (∃ segs', h'.FreeList segs'
      ∧ (segs'.map FreeSegment.extent ++ [h'.usedExtent p]).Pairwise Disjoint
      ∧ freeBytes segs = freeBytes segs' ∪ h'.usedExtent p)
    ↔ ∀ s, segs.find? (fun s => s.Fits size alignment) = some s →
        s.need size alignment ≠ s.size.toNat := by
  rcases allocate_spec hreq hlist hwf with
    ⟨-, heq⟩ | ⟨pre, s, post, h₁, p₁, rfl, hskip, heq, hc⟩
  · obtain ⟨-, rfl⟩ := Prod.mk.inj (Option.some.inj (hcode.symm.trans heq))
    exact absurd rfl hp
  · obtain ⟨rfl, rfl⟩ := Prod.mk.inj (Option.some.inj (hcode.symm.trans heq))
    have hfind : (pre ++ s :: post).find? (fun s => s.Fits size alignment) = some s := by
      refine List.find?_eq_some_iff_append.mpr ⟨by simpa using hc.fits, pre, post, rfl, ?_⟩
      simpa using hskip
    rw [hfind]
    constructor
    · rintro ⟨segs', hlist', -, hbytes⟩ t ht heq
      obtain rfl := Option.some.inj ht
      obtain rfl := hlist'.unique hc.freeList
      apply hc.addr_notMem_of_eq hwf heq
      rw [← hbytes]
      exact ⟨s, by simp, Set.mem_Ico.mpr ⟨le_rfl, by have := s.addr_add_le_stop; omega⟩⟩
    · intro hne
      exact ⟨_, hc.freeList, hc.pairwise_disjoint hwf, hc.freeBytes_eq (hne s rfl)⟩

theorem allocate_accounts_smallHeap :
    ∃ h' segs', allocate smallHeap 8 8 = some (h', 4184) ∧ h'.FreeList segs'
      ∧ freeBytes [⟨4096, 88⟩] = freeBytes segs' ∪ h'.usedExtent 4184 := by
  have hcode : (allocate smallHeap 8 8).map Prod.snd = some 4184 := by decide
  obtain ⟨⟨h', p⟩, hrun, rfl⟩ := Option.map_eq_some_iff.mp hcode
  have hreq : ValidRequest 8 8 := ⟨by decide, by decide, 3, by decide, by decide⟩
  obtain ⟨segs', hlist', -, hbytes⟩ := (allocate_accounts_iff hreq smallHeap_freeList
    smallHeap_wellFormed hrun (by decide)).mpr (by decide)
  exact ⟨h', segs', hrun, hlist', hbytes⟩

/-- `allocate(84, 4)` on the heap of one segment with 88 bytes of data uses the segment up: no
segment remains, and the eight bytes at `4096` are neither free nor in the block. -/
theorem allocate_loses_header :
    smallHeap.FreeList [⟨4096, 88⟩] ∧ WellFormed [⟨4096, 88⟩] ∧ ValidRequest 84 4 ∧
    ∃ h', allocate smallHeap 84 4 = some (h', 4108) ∧
      ∀ segs', h'.FreeList segs' → segs' = [] ∧
        4096 ∈ freeBytes [⟨4096, 88⟩] ∧ 4096 ∉ freeBytes segs' ∪ h'.usedExtent 4108 := by
  have hcode : (allocate smallHeap 84 4).map (fun r => (r.2, r.1.firstFree, r.1.size 4104))
      = some (4108, 0, 88) := by decide
  obtain ⟨⟨h', p⟩, hrun, hr⟩ := Option.map_eq_some_iff.mp hcode
  obtain ⟨rfl, hr⟩ := Prod.mk.inj hr
  obtain ⟨hfirst, hsize⟩ := Prod.mk.inj hr
  refine ⟨smallHeap_freeList, smallHeap_wellFormed, ⟨by decide, by decide, 2, by decide, by decide⟩,
    h', hrun, fun segs' hlist => ?_⟩
  have hnil : h'.FreeList [] := ⟨ptr?_eq_none_iff.mpr hfirst, by simp⟩
  obtain rfl := hlist.unique hnil
  refine ⟨rfl, ⟨⟨4096, 88⟩, by simp, Set.mem_Ico.mpr (by decide)⟩, ?_⟩
  rintro (⟨t, ht, -⟩ | hin)
  · exact absurd ht (by simp)
  · exact absurd (Set.mem_Ico.mp hin).1 (by decide)

end Shogun.Memory
