import Shogun.Memory.Equiv.Allocate

/-!
# Runs of `allocate`

`allocateAll` makes one call after another, with no `deallocate` in between.  From any well-formed
free list, whatever the calls, the blocks handed out are pairwise disjoint, disjoint from what is
still free, and inside the data areas of the segments the run started with
(`allocateAll_disjoint`).

Each call carves its block from the end of one segment, so a later call works on segments that end
below every block handed out so far: the blocks of the remaining calls lie in the segments that
remain (`AllocateRun.inside`), the block of this call does not (`Carved.apart_of_mem`), and the
words outside the remaining segments keep their contents (`AllocateRun.frame`).
-/

namespace Shogun.Memory

open LinkedList ByteMemory

/-- `allocate` for each call `(size, alignment)` in turn, and the pointers returned. -/
def allocateAll (h : Heap) : List (UInt32 × UInt32) → Option (Heap × List UInt32)
  | [] => some (h, [])
  | (size, alignment) :: calls =>
    (allocate h size alignment).bind fun r =>
      (allocateAll r.1 calls).map fun rs => (rs.1, r.2 :: rs.2)

/-- The used extent `[p - 4, p - 4 + used.size)` of the block at `p`. -/
def Heap.usedExtent (h : Heap) (p : UInt32) : Set ℕ :=
  Set.Ico (p - sizeofUsedSegment).toNat
    ((p - sizeofUsedSegment).toNat + (h.size (p - sizeofUsedSegment)).toNat)

/-- What a run of `calls` that returned `ps` did to the free list `segs` of `h`. -/
structure AllocateRun (h h' : Heap) (segs segs' : List FreeSegment)
    (calls : List (UInt32 × UInt32)) (ps : List UInt32) : Prop where
  freeList : h'.FreeList segs'
  length_eq : ps.length = calls.length
  addr_sublist : (segs'.map FreeSegment.addr).Sublist (segs.map FreeSegment.addr)
  wellFormed : WellFormed segs'
  shrunk : ∀ t ∈ segs', ∃ u ∈ segs, t.addr = u.addr ∧ t.stop ≤ u.stop
  inside : ∀ p ∈ ps, p ≠ 0 → ∃ s ∈ segs, h'.usedExtent p ⊆ s.dataArea
  disjoint : (ps.filter (· ≠ 0)).Pairwise fun p q => Disjoint (h'.usedExtent p) (h'.usedExtent q)
  disjoint_free : ∀ p ∈ ps, p ≠ 0 → ∀ s ∈ segs', Disjoint (h'.usedExtent p) s.extent
  fits : ∀ cp ∈ calls.zip ps, cp.2 ≠ 0 → cp.1.2.toNat ∣ cp.2.toNat
    ∧ cp.2.toNat + cp.1.1.toNat
      ≤ (cp.2 - sizeofUsedSegment).toNat + (h'.size (cp.2 - sizeofUsedSegment)).toNat
  frame : ∀ a : UInt32, a.toNat + 4 ≤ 2 ^ 32 →
    (∀ t ∈ segs, a.toNat + 4 ≤ t.addr.toNat ∨ t.stop ≤ a.toNat) →
    h'.mem.load32 a = h.mem.load32 a

namespace AllocateRun

variable {h h₁ h' : Heap} {segs segs' pre post : List FreeSegment} {s : FreeSegment}
  {size alignment p : UInt32} {calls : List (UInt32 × UInt32)} {ps : List UInt32}

theorem nil (hlist : h.FreeList segs) (hwf : WellFormed segs) :
    AllocateRun h h segs segs [] [] where
  freeList := hlist
  length_eq := rfl
  addr_sublist := List.Sublist.refl _
  wellFormed := hwf
  shrunk := fun t ht => ⟨t, ht, rfl, le_rfl⟩
  inside := by simp
  disjoint := by simp
  disjoint_free := by simp
  fits := by simp
  frame := fun _ _ _ => rfl

/-- A call that returns `NULL` adds nothing to a run. -/
theorem cons_null (r : AllocateRun h h' segs segs' calls ps) :
    AllocateRun h h' segs segs' ((size, alignment) :: calls) (0 :: ps) where
  freeList := r.freeList
  length_eq := by simp [r.length_eq]
  addr_sublist := r.addr_sublist
  wellFormed := r.wellFormed
  shrunk := r.shrunk
  inside := by
    rintro q (_ | ⟨_, hq⟩) hq0
    · exact absurd rfl hq0
    · exact r.inside q hq hq0
  disjoint := by simpa using r.disjoint
  disjoint_free := by
    rintro q (_ | ⟨_, hq⟩) hq0
    · exact absurd rfl hq0
    · exact r.disjoint_free q hq hq0
  fits := by
    rintro cp (_ | ⟨_, hcp⟩) hcp0
    · exact absurd rfl hcp0
    · exact r.fits cp hcp hcp0
  frame := r.frame

section Cons

variable (hwf : WellFormed (pre ++ s :: post)) (c : Carved h h₁ pre s post size alignment p)
  (r : AllocateRun h₁ h' (pre ++ s.shrink (s.need size alignment) ++ post) segs' calls ps)

include hwf c r

/-- The header of the block just carved is outside the segments that remain, so the rest of the run
leaves the recorded size alone. -/
theorem used_size_eq :
    (h'.size (p - sizeofUsedSegment)).toNat = s.need size alignment := by
  have hlo := c.lt_header
  have hhdr := c.header_toNat
  have hstop := hwf.stop_le s (by simp)
  have hneed : 4 ≤ s.need size alignment := by rw [FreeSegment.need]; omega
  rw [Heap.size, r.frame _ (by omega) fun t ht => ?_, ← Heap.size, c.used_size]
  have := c.apart_of_mem hwf ht
  omega

theorem usedExtent_eq :
    h'.usedExtent p = Set.Ico (s.stop - s.need size alignment) s.stop := by
  rw [Heap.usedExtent, used_size_eq hwf c r, c.header_toNat]
  have := c.lt_header
  congr 1
  omega

/-- A block of the remaining calls is disjoint from the block just carved. -/
theorem disjoint_of_mem {q : UInt32} (hq : q ∈ ps) (hq0 : q ≠ 0) :
    Disjoint (h'.usedExtent p) (h'.usedExtent q) := by
  obtain ⟨t, ht, hqt⟩ := r.inside q hq hq0
  apply Disjoint.mono_right (hqt.trans t.dataArea_subset_extent)
  have := c.apart_of_mem hwf ht
  have := c.lt_header
  rw [usedExtent_eq hwf c r, FreeSegment.extent, Set.Ico_disjoint_Ico]
  omega

/-- A call that returns a block, in front of a run. -/
theorem cons :
    AllocateRun h h' (pre ++ s :: post) segs' ((size, alignment) :: calls) (p :: ps) := by
  have hext := usedExtent_eq hwf c r
  have hlo := c.lt_header
  refine ⟨r.freeList, by simp [r.length_eq], ?_, r.wellFormed, ?_, ?_, ?_, ?_, ?_, ?_⟩
  · exact r.addr_sublist.trans (FreeSegment.map_addr_shrink_sublist _ _ _ _)
  · intro t ht
    obtain ⟨u, hu, hut⟩ := r.shrunk t ht
    obtain ⟨v, hv, huv⟩ := c.exists_of_mem hu
    exact ⟨v, hv, hut.1.trans huv.1, hut.2.trans huv.2⟩
  · -- a later block lies in what is left of a segment, hence in the segment
    rintro q (_ | ⟨_, hq⟩) hq0
    · refine ⟨s, by simp, ?_⟩
      rw [hext]
      exact Set.Ico_subset_Ico_left hlo.1
    · obtain ⟨t, ht, hqt⟩ := r.inside q hq hq0
      obtain ⟨u, hu, htu⟩ := c.exists_of_mem ht
      refine ⟨u, hu, hqt.trans ?_⟩
      rw [FreeSegment.dataArea, FreeSegment.dataArea, htu.1]
      exact Set.Ico_subset_Ico_right htu.2
  · -- the block of this call against those of the later ones
    have hp0 : p ≠ 0 := by
      rintro rfl
      exact absurd c.ptr_toNat (by show 0 ≠ _; omega)
    rw [List.filter_cons_of_pos (by simpa using hp0)]
    refine List.pairwise_cons.mpr ⟨fun q hq => ?_, r.disjoint⟩
    obtain ⟨hq, hq0⟩ := List.mem_filter.mp hq
    exact disjoint_of_mem hwf c r hq (by simpa using hq0)
  · -- the blocks against what is left of the segments
    rintro q (_ | ⟨_, hq⟩) hq0 t ht
    · obtain ⟨u, hu, hut⟩ := r.shrunk t ht
      have := c.apart_of_mem hwf hu
      rw [hext, FreeSegment.extent, Set.Ico_disjoint_Ico, hut.1]
      omega
    · exact r.disjoint_free q hq hq0 t ht
  · rintro cp (_ | ⟨_, hcp⟩) hcp0
    · refine ⟨c.alignment_dvd, ?_⟩
      have hneed : size.toNat + 4 ≤ s.need size alignment := by rw [FreeSegment.need]; omega
      rw [used_size_eq hwf c r, c.header_toNat, c.ptr_toNat]
      show s.stop - s.need size alignment + 4 + size.toNat ≤ _
      omega
    · exact r.fits cp hcp hcp0
  · -- segments only shrink, so a word outside the old ones is outside the new ones
    intro a ha hout
    rw [r.frame a ha fun t ht => ?_, c.frame a ha hout]
    obtain ⟨u, hu, htu⟩ := c.exists_of_mem ht
    have := hout u hu
    rw [htu.1]
    omega

end Cons

end AllocateRun

/-- A run from a well-formed free list returns, and does what `AllocateRun` says. -/
theorem allocateAll_spec : ∀ (calls : List (UInt32 × UInt32)) {h : Heap} {segs : List FreeSegment},
    (∀ c ∈ calls, ValidRequest c.1 c.2) → h.FreeList segs → WellFormed segs →
    ∃ h' segs' ps, allocateAll h calls = some (h', ps) ∧ AllocateRun h h' segs segs' calls ps
  | [], h, segs, _, hlist, hwf => ⟨h, segs, [], rfl, .nil hlist hwf⟩
  | (size, alignment) :: calls, h, segs, hreq, hlist, hwf => by
    obtain ⟨hreq₁, hreqs⟩ := List.forall_mem_cons.mp hreq
    rcases allocate_spec hreq₁ hlist hwf with
      ⟨-, heq⟩ | ⟨pre, s, post, h₁, p, rfl, -, heq, hc⟩
    · obtain ⟨h', segs', ps, hall, hrun⟩ := allocateAll_spec calls hreqs hlist hwf
      exact ⟨h', segs', 0 :: ps, by rw [allocateAll, heq, Option.bind_some, hall]; rfl,
        hrun.cons_null⟩
    · obtain ⟨h', segs', ps, hall, hrun⟩ :=
        allocateAll_spec calls hreqs hc.freeList (hc.wellFormed hwf)
      exact ⟨h', segs', p :: ps, by rw [allocateAll, heq, Option.bind_some, hall]; rfl,
        hrun.cons hwf hc⟩

/-- **Allocate-only runs are safe.**  From every well-formed free list every run of valid calls
returns; the used extents of the blocks are pairwise disjoint, disjoint from every remaining free
extent and inside the data area of an original segment; every pointer is aligned with `size` bytes
behind it; and the segments that remain keep their addresses and their order. -/
theorem allocateAll_disjoint {h : Heap} {segs : List FreeSegment}
    {calls : List (UInt32 × UInt32)} (hlist : h.FreeList segs) (hwf : WellFormed segs)
    (hreq : ∀ c ∈ calls, ValidRequest c.1 c.2) :
    ∃ h' segs' ps, allocateAll h calls = some (h', ps) ∧ ps.length = calls.length
      ∧ h'.FreeList segs'
      ∧ (ps.filter (· ≠ 0)).Pairwise
          (fun p q => Disjoint (h'.usedExtent p) (h'.usedExtent q))
      ∧ (∀ p ∈ ps, p ≠ 0 → ∀ s ∈ segs', Disjoint (h'.usedExtent p) s.extent)
      ∧ (∀ p ∈ ps, p ≠ 0 → ∃ s ∈ segs, h'.usedExtent p ⊆ s.dataArea)
      ∧ (∀ cp ∈ calls.zip ps, cp.2 ≠ 0 → cp.1.2.toNat ∣ cp.2.toNat
          ∧ cp.2.toNat + cp.1.1.toNat
            ≤ (cp.2 - sizeofUsedSegment).toNat + (h'.size (cp.2 - sizeofUsedSegment)).toNat)
      ∧ (segs'.map FreeSegment.addr).Sublist (segs.map FreeSegment.addr) := by
  obtain ⟨h', segs', ps, hall, hrun⟩ := allocateAll_spec calls hreq hlist hwf
  exact ⟨h', segs', ps, hall, hrun.length_eq, hrun.freeList, hrun.disjoint, hrun.disjoint_free,
    hrun.inside, hrun.fits, hrun.addr_sublist⟩

/-- A heap of one free segment at `4096` with 88 bytes of data. -/
def smallHeap : Heap := (⟨fun _ => 0, 4096⟩ : Heap).setSize 4096 88

theorem smallHeap_freeList : smallHeap.FreeList [⟨4096, 88⟩] := by decide

theorem smallHeap_wellFormed : WellFormed [⟨4096, 88⟩] :=
  ⟨by simp only [List.forall_mem_singleton]; decide, List.pairwise_singleton _ _⟩

theorem allocateAll_disjoint_smallHeap :
    ∃ h' segs' ps, allocateAll smallHeap [(8, 8), (20, 16)] = some (h', ps) ∧ ps.length = 2
      ∧ h'.FreeList segs'
      ∧ (ps.filter (· ≠ 0)).Pairwise
          (fun p q => Disjoint (h'.usedExtent p) (h'.usedExtent q)) := by
  have hreq : ∀ c ∈ [((8 : UInt32), (8 : UInt32)), (20, 16)], ValidRequest c.1 c.2 := by
    simp only [List.forall_mem_cons, List.not_mem_nil, false_implies, implies_true, and_true]
    exact ⟨⟨by decide, by decide, 3, by decide, by decide⟩,
      ⟨by decide, by decide, 4, by decide, by decide⟩⟩
  obtain ⟨h', segs', ps, hrun, hlen, hlist, hdisj, -⟩ :=
    allocateAll_disjoint smallHeap_freeList smallHeap_wellFormed hreq
  exact ⟨h', segs', ps, hrun, hlen, hlist, hdisj⟩

end Shogun.Memory
