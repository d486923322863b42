import Shogun.Memory.Equiv.AllocateRun

/-!
# Requests whose arithmetic wraps

`need` may exceed `2^32` for a size near `2^32` or an alignment of `2^31`.  The code then computes a
block of `need - 2^32` bytes, and the tests of its loop let this pass (`fits_iff_passes`).

* `allocate_inside_iff`: the data a caller gets lies inside a free segment, and a size larger than
  every segment yields `NULL`, as long as `need` does not wrap for the segment taken.
* `allocate_header_iff`: the block can hold the eight bytes that `deallocate` writes at its header
  exactly if `need` does not wrap and is at least eight.  Nothing enforces a minimal block.
-/

namespace Shogun.Memory

open LinkedList ByteMemory

/-- The tests of the loop on the segment `s`: `need`, reduced modulo `2^32`, is at most the size,
and it is not reduced to nothing at the end of memory. -/
def FreeSegment.Passes (s : FreeSegment) (size alignment : UInt32) : Prop :=
  s.need size alignment % 2 ^ 32 ≤ s.size.toNat ∧
    (s.stop = 2 ^ 32 → s.need size alignment % 2 ^ 32 = 0 → s.size.toNat = 0)

instance (s : FreeSegment) (size alignment : UInt32) : Decidable (s.Passes size alignment) :=
  inferInstanceAs (Decidable (_ ∧ _))

variable {h h' : Heap} {segs pre post : List FreeSegment} {s t : FreeSegment}
  {size alignment p : UInt32}

theorem fits_iff_passes (hs : h.size s.addr = s.size) (hstop : s.stop ≤ 2 ^ 32)
    (hpow : PowerOfTwo alignment) :
    fits h size alignment s.addr ↔ s.Passes size alignment := by
  rw [fits_iff_fullAllocSize hs hstop, fullAllocSize_toNat_mod hs hpow, FreeSegment.Passes]

theorem PowerOfTwo.toNat_le (hpow : PowerOfTwo alignment) :
    0 < alignment.toNat ∧ alignment.toNat ≤ 2 ^ 31 := by
  obtain ⟨k, hk, ha⟩ := hpow
  rw [ha]
  exact ⟨Nat.two_pow_pos k, Nat.pow_le_pow_right (by omega) (by omega)⟩

/-- The padding is less than the alignment. -/
theorem FreeSegment.need_bounds (s : FreeSegment) (size : UInt32) (hpow : PowerOfTwo alignment) :
    size.toNat + 4 ≤ s.need size alignment ∧
      s.need size alignment < size.toNat + alignment.toNat + 4 := by
  have hmod := Nat.mod_lt (s.stop + 2 ^ 32 - size.toNat) hpow.toNat_le.1
  rw [need]
  omega

/-- **The search, for every request with a power of two.**  No segment passes, and the call returns
`NULL`; or it serves the request from the first that does. -/
theorem allocate_cases_passes (hlist : h.FreeList segs) (hstop : ∀ s ∈ segs, s.stop ≤ 2 ^ 32)
    (hsize : size ≠ 0) (hpow : PowerOfTwo alignment) :
    segs.find? (fun s => s.Passes size alignment) = none ∧
        allocate h size alignment = some (h, 0)
      ∨ ∃ pre s post, segs = pre ++ s :: post ∧
        segs.find? (fun s => s.Passes size alignment) = some s ∧
        fits h size alignment s.addr ∧
        allocate h size alignment = some (carve h size alignment (Heap.lastAddr pre) s.addr,
          alignedDataPtr h size alignment s.addr) := by
  have hfits : ∀ s ∈ segs, fits h size alignment s.addr ↔ s.Passes size alignment :=
    fun s hs => fits_iff_passes (hlist.size s hs) (hstop s hs) hpow
  rcases allocate_cases hlist hsize alignment with
    ⟨hnone, heq⟩ | ⟨pre, s, post, rfl, hskip, hfit, heq⟩
  · refine .inl ⟨List.find?_eq_none.mpr fun s hs => ?_, heq⟩
    rw [decide_eq_true_eq, ← hfits s hs]
    exact hnone s hs
  · refine .inr ⟨pre, s, post, rfl, ?_, hfit, heq⟩
    refine List.find?_eq_some_iff_append.mpr ⟨?_, pre, post, rfl, fun t ht => ?_⟩
    · rw [decide_eq_true_eq, ← hfits s (by simp)]
      exact hfit
    · rw [Bool.not_eq_true', decide_eq_false_iff_not, ← hfits t (by simp [ht])]
      exact hskip t ht

/-- A segment that passes without a wrap can hold the block. -/
theorem fits_of_need_lt (hs : h.size s.addr = s.size) (hstop : s.stop ≤ 2 ^ 32)
    (hpow : PowerOfTwo alignment) (hf : fits h size alignment s.addr)
    (hlt : s.need size alignment < 2 ^ 32) : s.Fits size alignment := by
  have hle := ((fits_iff_passes hs hstop hpow).mp hf).1
  rwa [Nat.mod_eq_of_lt hlt] at hle

/-! ### Where the data lies -/

/-- The data and its header, `[p - 4, p + size)`, lie inside the data area of one of `segs`. -/
def InsideOne (segs : List FreeSegment) (p size : UInt32) : Prop :=
  ∃ t ∈ segs, Set.Ico (p.toNat - 4) (p.toNat + size.toNat) ⊆ t.dataArea

theorem Ico_subset_dataArea_iff (hsz : 0 < size.toNat) :
    Set.Ico (p.toNat - 4) (p.toNat + size.toNat) ⊆ t.dataArea ↔
      t.addr.toNat + 8 ≤ p.toNat - 4 ∧ p.toNat + size.toNat ≤ t.stop := by
  rw [FreeSegment.dataArea, Set.Ico_subset_Ico_iff (by omega)]

/-- The data pointer is four bytes past the header, except that it may come out as `0`. -/
theorem alignedDataPtr_eq_header :
    (alignedDataPtr h size alignment s.addr).toNat
      = ((headerPtr h size alignment s.addr).toNat + 4) % 2 ^ 32 := by
  have hadd : alignedDataPtr h size alignment s.addr
      = headerPtr h size alignment s.addr + sizeofUsedSegment := (sub_add_cancel _ _).symm
  rw [hadd]
  exact UInt32.toNat_add ..

/-- After a wrap the code computes the size `need - 2^32`. -/
theorem fullAllocSize_toNat_of_wrap (hs : h.size s.addr = s.size) (hpow : PowerOfTwo alignment)
    (hwrap : 2 ^ 32 ≤ s.need size alignment) :
    (fullAllocSize h size alignment s.addr).toNat + 2 ^ 32 = s.need size alignment := by
  have hneed := s.need_bounds size hpow
  have hal := hpow.toNat_le
  have hlt := size.toNat_lt
  rw [fullAllocSize_toNat_mod hs hpow]
  omega

theorem inside_of_fits (hs : h.size s.addr = s.size) (hstop : s.stop ≤ 2 ^ 32)
    (hpow : PowerOfTwo alignment) (hsz : 0 < size.toNat) (hfit : s.Fits size alignment) :
    Set.Ico ((alignedDataPtr h size alignment s.addr).toNat - 4)
      ((alignedDataPtr h size alignment s.addr).toNat + size.toNat) ⊆ s.dataArea := by
  have hptr := alignedDataPtr_toNat hs hstop hpow hsz hfit
  have hneed := s.need_bounds size hpow
  have hle : s.need size alignment ≤ s.size.toNat := hfit
  rw [Ico_subset_dataArea_iff hsz, hptr]
  rw [FreeSegment.stop] at *
  omega

section Wrap

variable (hs : h.size s.addr = s.size) (hstop : s.stop ≤ 2 ^ 32) (hpow : PowerOfTwo alignment)
  (hf : fits h size alignment s.addr) (hwrap : 2 ^ 32 ≤ s.need size alignment)

include hs hstop hpow hf hwrap

/-- The data pointer then comes out as `0` in one case. -/
theorem alignedDataPtr_eq_zero_iff :
    alignedDataPtr h size alignment s.addr = 0 ↔ s.need size alignment = s.stop + 4 := by
  have hfull := fullAllocSize_toNat_of_wrap hs hpow hwrap
  have hheader := headerPtr_toNat_of_fits hs hstop hf
  have hle := ((fits_iff_fullAllocSize hs hstop).mp hf).1
  have hlt := (headerPtr h size alignment s.addr).toNat_lt
  have hptr : (alignedDataPtr h size alignment s.addr).toNat = _ := alignedDataPtr_eq_header
  rw [Word32.eq_zero_iff, hptr]
  rw [FreeSegment.stop] at *
  omega

/-- The data does not lie inside any segment: `[p - 4, p + size)` is `2^32` bytes less the padding,
but starts in the data area of `s` or at its end. -/
theorem not_inside_of_wrap (hsz : 0 < size.toNat) (hwf : WellFormed segs) (hmem : s ∈ segs) :
    ¬ InsideOne segs (alignedDataPtr h size alignment s.addr) size := by
  rintro ⟨t, ht, hsub⟩
  have hfull := fullAllocSize_toNat_of_wrap hs hpow hwrap
  have hheader := headerPtr_toNat_of_fits hs hstop hf
  have hle := ((fits_iff_fullAllocSize hs hstop).mp hf).1
  have hneed := s.need_bounds size hpow
  have hal := hpow.toNat_le
  have hlt := (headerPtr h size alignment s.addr).toNat_lt
  have hptr : (alignedDataPtr h size alignment s.addr).toNat = _ := alignedDataPtr_eq_header
  rw [Ico_subset_dataArea_iff hsz, hptr] at hsub
  have hs' : s.stop = s.addr.toNat + 8 + s.size.toNat := rfl
  by_cases hst : s = t
  · subst hst
    omega
  · have := hwf.apart hmem ht hst
    omega

end Wrap

/-! ### The free list when the data pointer comes out as `0` -/

/-- Taking `n` bytes leaves the segment as it is only if `n` is zero and there is something to
keep: a segment of no bytes is unlinked. -/
theorem FreeSegment.shrink_eq_singleton_iff {n : ℕ} (hn : n < 2 ^ 32) :
    s.shrink n = [s] ↔ n = 0 ∧ s.size ≠ 0 := by
  rw [shrink]
  split_ifs with hall
  · simp only [false_iff, not_and, not_not]
    rintro rfl
    exact UInt32.toNat_inj.mp hall.symm
  · have hsub : s.size - UInt32.ofNat n = s.size ↔ n = 0 := by
      rw [sub_eq_self, Word32.eq_zero_iff, UInt32.toNat_ofNat', Nat.mod_eq_of_lt hn]
    rw [List.singleton_inj, FreeSegment.mk.injEq, hsub]
    constructor
    · rintro ⟨-, rfl⟩
      refine ⟨rfl, fun h0 => hall ?_⟩
      rw [h0]
      rfl
    · exact fun h0 => ⟨rfl, h0.1⟩

/-- The header then is at `2^32 - 4`, where no segment has its own. -/
theorem carve_freeList_of_wrap (hlist : h.FreeList (pre ++ s :: post))
    (hwf : WellFormed (pre ++ s :: post)) (hpow : PowerOfTwo alignment)
    (hf : fits h size alignment s.addr) (hwrap : 2 ^ 32 ≤ s.need size alignment)
    (hzero : s.need size alignment = s.stop + 4) :
    (carve h size alignment (Heap.lastAddr pre) s.addr).FreeList (pre ++ s :: post)
      ↔ s.need size alignment = 2 ^ 32 ∧ s.size ≠ 0 := by
  have hmem : s ∈ pre ++ s :: post := by simp
  have hs := hlist.size s hmem
  have hstop := hwf.stop_le s hmem
  have hfull := fullAllocSize_toNat_of_wrap hs hpow hwrap
  have hheader := headerPtr_toNat_of_fits hs hstop hf
  have hle := ((fits_iff_fullAllocSize hs hstop).mp hf).1
  have hs' : s.stop = s.addr.toNat + 8 + s.size.toNat := rfl
  have hapart : ∀ t ∈ pre ++ s :: post, Apart (headerPtr h size alignment s.addr) t.addr
      ∧ Apart (headerPtr h size alignment s.addr) (t.addr + 4) := by
    intro t ht
    have h2 := hwf.stop_le t ht
    have h3 := t.addr_add_le_stop
    rw [Apart, Apart, FreeSegment.addr_add_four_toNat (h3.trans h2)]
    by_cases hst : s = t
    · subst hst
      omega
    · have := hwf.apart hmem ht hst
      omega
  have hcarve := carve_freeList (hlist.setSize_of_apart hapart) hwf.headersApart
  have hiff := s.shrink_eq_singleton_iff (fullAllocSize h size alignment s.addr).toNat_lt
  constructor
  · intro hkept
    have heq := hkept.unique hcarve
    rw [List.append_assoc, List.append_cancel_left_eq, ← List.singleton_append,
      List.append_cancel_right_eq] at heq
    obtain ⟨h0, hne⟩ := hiff.mp heq.symm
    exact ⟨by omega, hne⟩
  · rintro ⟨heq, hne⟩
    rwa [hiff.mpr ⟨by omega, hne⟩, List.append_assoc, List.singleton_append] at hcarve

/-- **Oversized requests fail as long as `need` does not wrap.**  The data a caller gets lies inside
one of the free segments, and a size larger than every segment yields `NULL` and changes nothing, if
and only if the first segment that passes the tests of the loop has `need < 2^32`; or its data
pointer comes out as `0`, which looks like a failure, and either some segment is as large as the
request or the free list happens to stay as it is. -/
theorem allocate_inside_iff (hlist : h.FreeList segs) (hwf : WellFormed segs) (hsize : size ≠ 0)
    (hpow : PowerOfTwo alignment) :
    ∃ h' p, allocate h size alignment = some (h', p) ∧
      ((p ≠ 0 → InsideOne segs p size) ∧
          ((∀ t ∈ segs, t.size < size) → p = 0 ∧ h'.FreeList segs)
        ↔ ∀ s, segs.find? (fun s => s.Passes size alignment) = some s →
          s.need size alignment < 2 ^ 32 ∨
          s.need size alignment = s.stop + 4 ∧
            ((∃ t ∈ segs, size ≤ t.size) ∨
              s.need size alignment = 2 ^ 32 ∧ s.size ≠ 0)) := by
  have hsz : 0 < size.toNat := Nat.pos_of_ne_zero fun h0 => hsize (UInt32.toNat_inj.mp h0)
  rcases allocate_cases_passes hlist hwf.stop_le hsize hpow with
    ⟨hnone, heq⟩ | ⟨pre, s, post, rfl, hfind, hf, heq⟩
  · refine ⟨h, 0, heq, ?_⟩
    rw [hnone]
    simp only [ne_eq, not_true_eq_false, false_implies, true_and, reduceCtorEq, implies_true,
      iff_true]
    exact fun _ => hlist
  · have hmem : s ∈ pre ++ s :: post := by simp
    have hs := hlist.size s hmem
    have hstop := hwf.stop_le s hmem
    refine ⟨_, _, heq, ?_⟩
    rw [hfind]
    simp only [Option.some.injEq, forall_eq']
    by_cases hlt : s.need size alignment < 2 ^ 32
    · -- nothing wraps: the block lies in `s`, which is then at least as large as the request
      have hfit := fits_of_need_lt hs hstop hpow hf hlt
      refine iff_of_true ⟨fun _ => ⟨s, hmem, inside_of_fits hs hstop hpow hsz hfit⟩, ?_⟩ (.inl hlt)
      intro hall
      have hle : s.need size alignment ≤ s.size.toNat := hfit
      have hneed := s.need_bounds size hpow
      have := UInt32.lt_iff_toNat_lt.mp (hall s hmem)
      omega
    · have hwrap := not_lt.mp hlt
      have hzero := alignedDataPtr_eq_zero_iff hs hstop hpow hf hwrap
      have hnot := not_inside_of_wrap hs hstop hpow hf hwrap hsz hwf hmem
      by_cases hp : s.need size alignment = s.stop + 4
      · -- the caller sees `NULL`; what is left is the free list
        have hkept := carve_freeList_of_wrap hlist hwf hpow hf hwrap hp
        rw [hzero.mpr hp, hkept]
        constructor
        · rintro ⟨-, hall⟩
          refine .inr ⟨hp, ?_⟩
          by_cases hlarge : ∃ t ∈ pre ++ s :: post, size ≤ t.size
          · exact .inl hlarge
          · refine .inr (hall fun t ht => ?_).2
            exact UInt32.not_le.mp fun hle => hlarge ⟨t, ht, hle⟩
        · rintro (hlt' | ⟨-, ⟨t, ht, hle⟩ | hkept⟩)
          · exact absurd hlt' hlt
          · exact ⟨fun h0 => absurd rfl h0,
              fun hall => absurd (hall t ht) (UInt32.not_lt.mpr hle)⟩
          · exact ⟨fun h0 => absurd rfl h0, fun _ => ⟨rfl, hkept⟩⟩
      · have hp0 := fun h0 => hp (hzero.mp h0)
        apply iff_of_false
        · intro hin
          exact hnot (hin.1 hp0)
        rintro (hlt' | ⟨hp', -⟩)
        · exact hlt hlt'
        · exact hp hp'

theorem allocate_inside_smallHeap :
    ∃ h' p, allocate smallHeap 8 8 = some (h', p) ∧ (p ≠ 0 → InsideOne [⟨4096, 88⟩] p 8) := by
  have hsize : (8 : UInt32) ≠ 0 := by decide
  have hpow : PowerOfTwo 8 := ⟨3, by decide, by decide⟩
  obtain ⟨h', p, hrun, hiff⟩ :=
    allocate_inside_iff smallHeap_freeList smallHeap_wellFormed hsize hpow
  exact ⟨h', p, hrun, (hiff.mpr (by decide)).1⟩

/-- `malloc(0xFFFFFFFC)` on the heap of 88 free bytes succeeds, with a pointer to the end of it. -/
theorem malloc_oversized_smallHeap :
    smallHeap.FreeList [⟨4096, 88⟩] ∧ WellFormed [⟨4096, 88⟩] ∧
    (∀ t ∈ [(⟨4096, 88⟩ : FreeSegment)], t.size < 0xFFFFFFFC) ∧
    ∃ h', malloc smallHeap 0xFFFFFFFC = some (h', 4192) ∧
      ¬ InsideOne [⟨4096, 88⟩] 4192 0xFFFFFFFC := by
  have hcode : (malloc smallHeap 0xFFFFFFFC).map Prod.snd = some 4192 := by decide
  obtain ⟨⟨h', p⟩, hrun, rfl⟩ := Option.map_eq_some_iff.mp hcode
  refine ⟨smallHeap_freeList, smallHeap_wellFormed, by decide, h', hrun, ?_⟩
  rintro ⟨t, ht, hsub⟩
  obtain rfl := List.mem_singleton.mp ht
  rw [Ico_subset_dataArea_iff (by decide)] at hsub
  exact absurd hsub.2 (by decide)

/-! ### The header `deallocate` writes -/

/-- A byte outside the eight bytes at `b` keeps its value when a header is written there. -/
theorem header_write_frame {b v w a : UInt32} (hb : b.toNat + 8 ≤ 2 ^ 32)
    (ha : a.toNat < b.toNat ∨ b.toNat + 8 ≤ a.toNat) :
    ((h.setSize b v).setNextSegment b w).mem a = h.mem a := by
  have hlt := a.toNat_lt
  have hb4 : (b + 4).toNat = b.toNat + 4 := FreeSegment.addr_add_four_toNat (s := ⟨b, 0⟩) hb
  have h1 : 4 ≤ (a - b).toNat := by
    rw [UInt32.toNat_sub]
    omega
  have h2 : 4 ≤ (a - (b + 4)).toNat := by
    rw [UInt32.toNat_sub, hb4]
    omega
  show (ByteMemory.store32 (ByteMemory.store32 h.mem b v) (b + 4) w) a = h.mem a
  rw [store32_apply_of_le _ _ h2, store32_apply_of_le _ _ h1]

/-- A block of `need` bytes modulo `2^32` is recorded with less than four when `need` wraps: the
alignment then is `2^31`. -/
theorem used_size_of_wrap (hlist : h.FreeList (pre ++ s :: post))
    (hwf : WellFormed (pre ++ s :: post)) (hlt : size.toNat < 2 ^ 31)
    (hpow : PowerOfTwo alignment) (hf : fits h size alignment s.addr)
    (hwrap : 2 ^ 32 ≤ s.need size alignment)
    (hp : alignedDataPtr h size alignment s.addr ≠ 0) :
    ((carve h size alignment (Heap.lastAddr pre) s.addr).size
      (alignedDataPtr h size alignment s.addr - sizeofUsedSegment)).toNat < 4 := by
  have hmem : s ∈ pre ++ s :: post := by simp
  have hs := hlist.size s hmem
  have hstop := hwf.stop_le s hmem
  have hfull := fullAllocSize_toNat_of_wrap hs hpow hwrap
  have hheader := headerPtr_toNat_of_fits hs hstop hf
  have hle := ((fits_iff_fullAllocSize hs hstop).mp hf).1
  have hneed := s.need_bounds size hpow
  have hal := hpow.toNat_le
  have hhlt := (headerPtr h size alignment s.addr).toNat_lt
  have hptr : (alignedDataPtr h size alignment s.addr).toNat = _ := alignedDataPtr_eq_header
  have hp' : (alignedDataPtr h size alignment s.addr).toNat ≠ 0 :=
    fun h0 => hp (UInt32.toNat_inj.mp h0)
  have hs' : s.stop = s.addr.toNat + 8 + s.size.toNat := rfl
  -- the pointer is a multiple of an alignment above `2^30`, so the header does not wrap
  obtain ⟨c, hc⟩ : alignment.toNat ∣ (alignedDataPtr h size alignment s.addr).toNat :=
    alignment_dvd_alignedDataPtr hpow
  have hnowrap : (headerPtr h size alignment s.addr).toNat + 4 ≤ 2 ^ 32 := by
    have hc0 : c ≠ 0 := by
      rintro rfl
      exact hp' hc
    have hge : alignment.toNat ≤ alignment.toNat * c := Nat.le_mul_of_pos_right _ (by omega)
    omega
  show (Heap.size _ (headerPtr h size alignment s.addr)).toNat < 4
  rw [Heap.size, load32_carve ?_ fun t ht => ?_, ← Heap.size, Heap.size_setSize_self]
  · omega
  · rw [Apart]
    omega
  · -- the link in front of `s` is on the other side of `s`, or past the word at its end
    have ht' : t ∈ pre ++ s :: post := by simp [ht]
    have hst : s ≠ t := by
      rintro rfl
      exact (List.nodup_append.mp hwf.nodup).2.2 s ht s (by simp) rfl
    have h1 := hwf.apart hmem ht' hst
    have h2 := hwf.stop_le t ht'
    have h3 := t.addr_add_le_stop
    rw [Apart, FreeSegment.addr_add_four_toNat (h3.trans h2)]
    omega

/-- **A block holds the header of a free segment only if it is large enough.**  A successful call
records at least eight bytes, so that a free header written over the block's own touches no byte
outside the block, if and only if the segment taken has `8 ≤ need < 2^32`. -/
theorem allocate_header_iff (hlist : h.FreeList segs) (hwf : WellFormed segs)
    (hsz : 0 < size.toNat) (hlt : size.toNat < 2 ^ 31) (hpow : PowerOfTwo alignment)
    (hcode : allocate h size alignment = some (h', p)) (hp : p ≠ 0) :
    (8 ≤ (h'.size (p - sizeofUsedSegment)).toNat ∧
      ∀ v w a : UInt32, a.toNat ∉ h'.usedExtent p →
        ((h'.setSize (p - sizeofUsedSegment) v).setNextSegment (p - sizeofUsedSegment) w).mem a
          = h'.mem a)
    ↔ ∀ s, segs.find? (fun s => s.Passes size alignment) = some s →
        8 ≤ s.need size alignment ∧ s.need size alignment < 2 ^ 32 := by
  have hsize : size ≠ 0 := by
    rintro rfl
    exact absurd hsz (by decide)
  rcases allocate_cases_passes hlist hwf.stop_le hsize hpow with
    ⟨-, heq⟩ | ⟨pre, s, post, rfl, hfind, hf, heq⟩
  · obtain ⟨-, rfl⟩ := Prod.mk.inj (Option.some.inj (hcode.symm.trans heq))
    exact absurd rfl hp
  · obtain ⟨rfl, rfl⟩ := Prod.mk.inj (Option.some.inj (hcode.symm.trans heq))
    have hmem : s ∈ pre ++ s :: post := by simp
    have hs := hlist.size s hmem
    have hstop := hwf.stop_le s hmem
    rw [hfind]
    simp only [Option.some.injEq, forall_eq']
    by_cases hneed : s.need size alignment < 2 ^ 32
    · -- nothing wraps: the block is `[stop - need, stop)`
      have hc := carve_spec hpow hsz hlist hwf (fits_of_need_lt hs hstop hpow hf hneed)
      have hlo := hc.lt_header
      constructor
      · exact fun h8 => ⟨hc.used_size ▸ h8.1, hneed⟩
      · rintro ⟨h8, -⟩
        refine ⟨hc.used_size.symm ▸ h8, fun v w a ha => header_write_frame ?_ ?_⟩
        · rw [hc.header_toNat]
          omega
        · rw [Heap.usedExtent, hc.used_size, Set.mem_Ico] at ha
          rw [hc.header_toNat] at *
          omega
    · have hsmall := used_size_of_wrap hlist hwf hlt hpow hf (not_lt.mp hneed) hp
      refine iff_of_false (fun h8 => ?_) (fun h8 => hneed h8.2)
      exact absurd h8.1 (by omega)

theorem allocate_header_smallHeap :
    ∃ h', allocate smallHeap 8 8 = some (h', 4184) ∧
      8 ≤ (h'.size (4184 - sizeofUsedSegment)).toNat := by
  have hcode : (allocate smallHeap 8 8).map Prod.snd = some 4184 := by decide
  obtain ⟨⟨h', p⟩, hrun, rfl⟩ := Option.map_eq_some_iff.mp hcode
  have hpow : PowerOfTwo 8 := ⟨3, by decide, by decide⟩
  have hiff := allocate_header_iff smallHeap_freeList smallHeap_wellFormed (by decide) (by decide)
    hpow hrun (by decide)
  exact ⟨h', hrun, (hiff.mpr (by decide)).1⟩

/-- `allocate(1, 1)` on the heap of 88 free bytes makes a block of five: a free header written at
`4187` reaches past its end at `4192`. -/
theorem allocate_header_too_small :
    smallHeap.FreeList [⟨4096, 88⟩] ∧ WellFormed [⟨4096, 88⟩] ∧ PowerOfTwo 1 ∧
    ∃ h', allocate smallHeap 1 1 = some (h', 4191) ∧
      (h'.size (4191 - sizeofUsedSegment)).toNat = 5 ∧
      (4192 : UInt32).toNat ∉ h'.usedExtent 4191 ∧
      ((h'.setSize (4191 - sizeofUsedSegment) 1).setNextSegment (4191 - sizeofUsedSegment)
        0x100).mem 4192 ≠ h'.mem 4192 := by
  have hcode : (allocate smallHeap 1 1).map (fun r => (r.2, r.1.size 4187, r.1.mem 4192))
      = some (4191, 5, 0) := by decide
  obtain ⟨⟨h', p⟩, hrun, hr⟩ := Option.map_eq_some_iff.mp hcode
  obtain ⟨rfl, hr⟩ := Prod.mk.inj hr
  obtain ⟨hsize, hbyte⟩ := Prod.mk.inj hr
  have hused : (h'.size (4191 - sizeofUsedSegment)).toNat = 5 :=
    congrArg UInt32.toNat hsize
  refine ⟨smallHeap_freeList, smallHeap_wellFormed, ⟨0, by decide, by decide⟩, h', hrun, hused,
    ?_, ?_⟩
  · rw [Heap.usedExtent, hused]
    exact fun hin => absurd (Set.mem_Ico.mp hin).2 (by decide)
  · have hwrite := store32_apply_add (ByteMemory.store32 h'.mem 4187 1) 4191 0x100
      (i := 1) (by decide)
    exact fun heq => absurd (hwrite.symm.trans (heq.trans hbyte)) (by decide)

end Shogun.Memory
