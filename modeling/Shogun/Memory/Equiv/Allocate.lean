import Shogun.Memory.Equiv.FreeList
import Shogun.Util.Word32

/-!
# What `allocate` does to the free list

`allocate_spec`: on a well-formed free list a call either finds no segment large enough and changes
nothing, or carves the block from the end of the first segment that can hold it.  `Carved` says
what that means: which segment shrinks or goes, where the block is, the size recorded in its
header, and that no word outside the free extents changes.

The search tests two 32-bit conditions on each segment.  With `need` the bytes a block takes up,
padding and header included, they are together just `need ≤ size` (`fits_iff`): the subtraction
`segment_end - size` may wrap for a segment that is too small, but the difference
`segment_end - header_ptr` is `need` in every case, and only fits when nothing wrapped.
-/

namespace Shogun.Memory

open LinkedList ByteMemory

/-- A power of two that a 32-bit word can hold. -/
def PowerOfTwo (alignment : UInt32) : Prop := ∃ k < 32, alignment.toNat = 2 ^ k

/-- A request the allocator is made for: a positive size below `2^31` and an alignment that is a
power of two up to `2^30`. -/
structure ValidRequest (size alignment : UInt32) : Prop where
  size_pos : 0 < size.toNat
  size_lt : size.toNat < 2 ^ 31
  alignment_eq : ∃ k ≤ 30, alignment.toNat = 2 ^ k

theorem ValidRequest.powerOfTwo {size alignment : UInt32} (hreq : ValidRequest size alignment) :
    PowerOfTwo alignment := by
  obtain ⟨k, hk, ha⟩ := hreq.alignment_eq
  exact ⟨k, by omega, ha⟩

theorem ValidRequest.size_ne_zero {size alignment : UInt32}
    (hreq : ValidRequest size alignment) : size ≠ 0 := by
  rintro rfl
  exact absurd hreq.size_pos (by decide)

/-- The bytes a block carved from the end of `s` takes up: the data, the padding below it and the
header. -/
def FreeSegment.need (s : FreeSegment) (size alignment : UInt32) : ℕ :=
  size.toNat + (s.stop + 2 ^ 32 - size.toNat) % alignment.toNat + 4

/-- `s` can hold the block. -/
def FreeSegment.Fits (s : FreeSegment) (size alignment : UInt32) : Prop :=
  s.need size alignment ≤ s.size.toNat

instance (s : FreeSegment) (size alignment : UInt32) : Decidable (s.Fits size alignment) :=
  inferInstanceAs (Decidable (_ ≤ _))

/-! ### The arithmetic of one segment -/

section Arithmetic

variable {h : Heap} {s : FreeSegment} {size alignment : UInt32}

theorem segmentEnd_toNat (hs : h.size s.addr = s.size) :
    (segmentEnd h s.addr).toNat = s.stop % 2 ^ 32 := by
  rw [segmentEnd, hs, UInt32.toNat_add, UInt32.toNat_add, FreeSegment.stop]
  show ((s.addr.toNat + 8) % 2 ^ 32 + s.size.toNat) % 2 ^ 32 = _
  omega

theorem FreeSegment.need_lt (hreq : ValidRequest size alignment) :
    s.need size alignment < 2 ^ 32 := by
  obtain ⟨k, hk, ha⟩ := hreq.alignment_eq
  have hsz := hreq.size_lt
  have hle : 2 ^ k ≤ 2 ^ 30 := Nat.pow_le_pow_right (by omega) hk
  have hmod := Nat.mod_lt (s.stop + 2 ^ 32 - size.toNat) (Nat.two_pow_pos k)
  rw [need, ha]
  omega

/-- The data pointer before the test on it: `segment_end - size` rounded down, modulo `2^32`. -/
theorem alignedDataPtr_toNat_mod (hs : h.size s.addr = s.size) (hpow : PowerOfTwo alignment) :
    (alignedDataPtr h size alignment s.addr).toNat
        = (s.stop + 2 ^ 32 - size.toNat) % 2 ^ 32
          - (s.stop + 2 ^ 32 - size.toNat) % alignment.toNat
      ∧ (s.stop + 2 ^ 32 - size.toNat) % alignment.toNat
        ≤ (s.stop + 2 ^ 32 - size.toNat) % 2 ^ 32 := by
  obtain ⟨k, hk, ha⟩ := hpow
  have hx : (segmentEnd h s.addr - size).toNat = (s.stop + 2 ^ 32 - size.toNat) % 2 ^ 32 := by
    have hsz := size.toNat_lt
    rw [UInt32.toNat_sub, segmentEnd_toNat hs]
    omega
  -- the alignment divides `2^32`, so it does not see the reduction
  have hpad : (segmentEnd h s.addr - size).toNat % alignment.toNat
      = (s.stop + 2 ^ 32 - size.toNat) % alignment.toNat := by
    rw [hx, ha, Nat.mod_mod_of_dvd _ (pow_dvd_pow 2 (by omega))]
  have hle := Nat.mod_le (segmentEnd h s.addr - size).toNat alignment.toNat
  rw [hpad, hx] at hle
  refine ⟨?_, hle⟩
  rw [alignedDataPtr, Word32.toNat_and_not_sub_one _ _ (by omega) ha, hpad, hx]

/-- The size the code computes for the block is `need` modulo `2^32`, whatever wrapped on the
way. -/
theorem fullAllocSize_toNat_mod (hs : h.size s.addr = s.size) (hpow : PowerOfTwo alignment) :
    (fullAllocSize h size alignment s.addr).toNat = s.need size alignment % 2 ^ 32 := by
  obtain ⟨haligned, hle⟩ := alignedDataPtr_toNat_mod hs hpow
  have hsz := size.toNat_lt
  rw [fullAllocSize, headerPtr, UInt32.toNat_sub, UInt32.toNat_sub, segmentEnd_toNat hs, haligned]
  show (2 ^ 32 - (2 ^ 32 - 4 + _) % 2 ^ 32 + _) % 2 ^ 32 = _
  rw [FreeSegment.need]
  omega

/-- The header goes that many bytes below the end of the segment, modulo `2^32`. -/
theorem headerPtr_toNat_mod (hs : h.size s.addr = s.size) :
    (headerPtr h size alignment s.addr).toNat
      = (s.stop + 2 ^ 32 - (fullAllocSize h size alignment s.addr).toNat) % 2 ^ 32 := by
  have hsub : headerPtr h size alignment s.addr
      = segmentEnd h s.addr - fullAllocSize h size alignment s.addr := (sub_sub_cancel _ _).symm
  have hfull := (fullAllocSize h size alignment s.addr).toNat_lt
  rw [hsub, UInt32.toNat_sub, segmentEnd_toNat hs]
  omega

/-- The tests of the loop, whatever the alignment: the size computed for the block is at most that
of the segment.  Only at the very end of memory does the test on the header add to this: a block of
no bytes there would have its header at address `0`. -/
theorem fits_iff_fullAllocSize (hs : h.size s.addr = s.size) (hstop : s.stop ≤ 2 ^ 32) :
    fits h size alignment s.addr ↔
      (fullAllocSize h size alignment s.addr).toNat ≤ s.size.toNat ∧
        (s.stop = 2 ^ 32 → (fullAllocSize h size alignment s.addr).toNat = 0 →
          s.size.toNat = 0) := by
  have hheader : (headerPtr h size alignment s.addr).toNat = _ := headerPtr_toNat_mod hs
  have hstart : (s.addr + sizeofFreeSegment).toNat = (s.addr.toNat + 8) % 2 ^ 32 :=
    UInt32.toNat_add ..
  rw [fits, hs, UInt32.le_iff_toNat_le, UInt32.le_iff_toNat_le, hheader, hstart]
  rw [FreeSegment.stop] at *
  omega

/-- A segment that passes has the header in its data area or right at its end. -/
theorem headerPtr_toNat_of_fits (hs : h.size s.addr = s.size) (hstop : s.stop ≤ 2 ^ 32)
    (hf : fits h size alignment s.addr) :
    (headerPtr h size alignment s.addr).toNat + (fullAllocSize h size alignment s.addr).toNat
        = s.stop
      ∨ (headerPtr h size alignment s.addr).toNat = 0 ∧ s.stop = 2 ^ 32 ∧ s.size.toNat = 0 := by
  have hheader : (headerPtr h size alignment s.addr).toNat = _ := headerPtr_toNat_mod hs
  have hfull := (fullAllocSize h size alignment s.addr).toNat_lt
  obtain ⟨hle, hend⟩ := (fits_iff_fullAllocSize hs hstop).mp hf
  rw [FreeSegment.stop] at *
  omega

/-- It is `need` itself when the block fits. -/
theorem fullAllocSize_toNat (hs : h.size s.addr = s.size) (hpow : PowerOfTwo alignment)
    (hfit : s.Fits size alignment) :
    (fullAllocSize h size alignment s.addr).toNat = s.need size alignment := by
  rw [fullAllocSize_toNat_mod hs hpow]
  exact Nat.mod_eq_of_lt (lt_of_le_of_lt hfit s.size.toNat_lt)

/-- When the block fits, nothing wrapped: the data starts `need - 4` bytes below the end. -/
theorem alignedDataPtr_toNat (hs : h.size s.addr = s.size) (hstop : s.stop ≤ 2 ^ 32)
    (hpow : PowerOfTwo alignment) (hsz : 0 < size.toNat) (hfit : s.Fits size alignment) :
    (alignedDataPtr h size alignment s.addr).toNat = s.stop - s.need size alignment + 4 := by
  obtain ⟨haligned, hle⟩ := alignedDataPtr_toNat_mod hs hpow
  rw [FreeSegment.Fits, FreeSegment.need] at hfit
  have hnw : (s.stop + 2 ^ 32 - size.toNat) % 2 ^ 32 = s.stop - size.toNat := by
    rw [FreeSegment.stop] at hstop ⊢
    omega
  rw [haligned, FreeSegment.need, hnw]
  rw [FreeSegment.stop] at *
  omega

theorem headerPtr_toNat (hs : h.size s.addr = s.size) (hstop : s.stop ≤ 2 ^ 32)
    (hpow : PowerOfTwo alignment) (hsz : 0 < size.toNat) (hfit : s.Fits size alignment) :
    (headerPtr h size alignment s.addr).toNat = s.stop - s.need size alignment := by
  have hp := alignedDataPtr_toNat hs hstop hpow hsz hfit
  have hle : sizeofUsedSegment ≤ alignedDataPtr h size alignment s.addr := by
    rw [UInt32.le_iff_toNat_le, hp]
    exact Nat.le_add_left 4 _
  rw [headerPtr, UInt32.toNat_sub_of_le _ _ hle, hp]
  exact Nat.add_sub_cancel ..

theorem alignment_dvd_alignedDataPtr (hpow : PowerOfTwo alignment) :
    alignment.toNat ∣ (alignedDataPtr h size alignment s.addr).toNat := by
  obtain ⟨k, hk, ha⟩ := hpow
  rw [alignedDataPtr, Word32.toNat_and_not_sub_one _ _ (by omega) ha]
  exact Nat.dvd_sub_mod _

/-- A block that fits passes the two tests of the loop. -/
theorem fits_of_fits (hs : h.size s.addr = s.size) (hstop : s.stop ≤ 2 ^ 32)
    (hpow : PowerOfTwo alignment) (hsz : 0 < size.toNat) (hfit : s.Fits size alignment) :
    fits h size alignment s.addr := by
  have hfull := fullAllocSize_toNat hs hpow hfit
  have hheader := headerPtr_toNat hs hstop hpow hsz hfit
  rw [fits, hs, UInt32.le_iff_toNat_le, UInt32.le_iff_toNat_le (a := fullAllocSize ..), hfull,
    hheader, UInt32.toNat_add]
  refine ⟨?_, hfit⟩
  show (s.addr.toNat + 8) % 2 ^ 32 ≤ _
  rw [FreeSegment.Fits, FreeSegment.need] at hfit
  rw [FreeSegment.need]
  rw [FreeSegment.stop] at *
  omega

/-- The two tests of the loop say `need ≤ size`. -/
theorem fits_iff (hs : h.size s.addr = s.size) (hstop : s.stop ≤ 2 ^ 32)
    (hreq : ValidRequest size alignment) :
    fits h size alignment s.addr ↔ s.Fits size alignment := by
  constructor
  · intro hf
    have hfull : (fullAllocSize h size alignment s.addr).toNat = s.need size alignment % 2 ^ 32 :=
      fullAllocSize_toNat_mod hs hreq.powerOfTwo
    rw [Nat.mod_eq_of_lt (s.need_lt hreq)] at hfull
    rw [FreeSegment.Fits, ← hfull, ← hs]
    exact UInt32.le_iff_toNat_le.mp hf.2
  · exact fits_of_fits hs hstop hreq.powerOfTwo hreq.size_pos

end Arithmetic

/-! ### The search -/

/-- The loop stops at the first segment ahead of it that passes its tests. -/
theorem allocateLoop_eq {h : Heap} {size alignment : UInt32} :
    ∀ (rest pre : List FreeSegment) (fuel : ℕ), rest.length < fuel → h.FreeList (pre ++ rest) →
    (∀ s ∈ rest, ¬ fits h size alignment s.addr)
        ∧ allocateLoop h size alignment fuel (Heap.lastAddr pre) (Heap.headAddr rest) = some (h, 0)
      ∨ ∃ skip s post, rest = skip ++ s :: post ∧ (∀ t ∈ skip, ¬ fits h size alignment t.addr)
        ∧ fits h size alignment s.addr
        ∧ allocateLoop h size alignment fuel (Heap.lastAddr pre) (Heap.headAddr rest)
          = some (carve h size alignment (Heap.lastAddr (pre ++ skip)) s.addr,
              alignedDataPtr h size alignment s.addr)
  | [], pre, fuel + 1, _, _ => by
    left
    refine ⟨by simp, ?_⟩
    rw [allocateLoop, Heap.headAddr_nil, if_pos rfl]
  | s :: rest, pre, fuel + 1, hfuel, hlist => by
    have hs0 : s.addr ≠ 0 := hlist.addr_ne_zero (by simp)
    rw [allocateLoop, Heap.headAddr_cons, if_neg hs0]
    by_cases hf : fits h size alignment s.addr
    · -- the first segment that passes
      right
      refine ⟨[], s, rest, rfl, by simp, hf, ?_⟩
      rw [if_pos hf, List.append_nil]
    · -- the loop goes on with this segment as the last one before `rest`
      rw [if_neg hf, hlist.nextSegment_eq, ← Heap.lastAddr_append_singleton pre s]
      have happ : pre ++ s :: rest = (pre ++ [s]) ++ rest := by simp
      rw [happ] at hlist
      rcases allocateLoop_eq rest (pre ++ [s]) fuel (by simpa using hfuel) hlist with
        ⟨hnone, heq⟩ | ⟨skip, t, post, rfl, hskip, ht, heq⟩
      · left
        exact ⟨List.forall_mem_cons.mpr ⟨hf, hnone⟩, heq⟩
      · right
        refine ⟨s :: skip, t, post, rfl, List.forall_mem_cons.mpr ⟨hf, hskip⟩, ht, ?_⟩
        rw [heq, List.append_assoc, List.singleton_append]

/-- `allocate` terminates, for every request: no segment passes the tests of its loop and it
returns `NULL`, or it serves the request from the first one that does. -/
theorem allocate_cases {h : Heap} {segs : List FreeSegment} (hlist : h.FreeList segs)
    {size : UInt32} (hsize : size ≠ 0) (alignment : UInt32) :
    (∀ s ∈ segs, ¬ fits h size alignment s.addr) ∧ allocate h size alignment = some (h, 0)
      ∨ ∃ pre s post, segs = pre ++ s :: post ∧ (∀ t ∈ pre, ¬ fits h size alignment t.addr)
        ∧ fits h size alignment s.addr
        ∧ allocate h size alignment = some (carve h size alignment (Heap.lastAddr pre) s.addr,
            alignedDataPtr h size alignment s.addr) := by
  rw [allocate, if_neg hsize, hlist.firstFree_eq]
  exact allocateLoop_eq segs [] (2 ^ 32) hlist.length_lt hlist

/-! ### The block -/

/-- What is left of a segment after `n` bytes went from its end: nothing when the data area is
used up, header included. -/
def FreeSegment.shrink (s : FreeSegment) (n : ℕ) : List FreeSegment :=
  if n = s.size.toNat then [] else [{ s with size := s.size - .ofNat n }]

/-- `h'` is `h` after a block of `size` bytes at `p` was carved from the segment `s`, with `pre` in
front of `s` in the free list and `post` behind it. -/
structure Carved (h h' : Heap) (pre : List FreeSegment) (s : FreeSegment)
    (post : List FreeSegment) (size alignment p : UInt32) : Prop where
  freeList : h'.FreeList (pre ++ s.shrink (s.need size alignment) ++ post)
  fits : s.Fits size alignment
  ptr_toNat : p.toNat = s.stop - s.need size alignment + 4
  alignment_dvd : alignment.toNat ∣ p.toNat
  used_size : (h'.size (p - sizeofUsedSegment)).toNat = s.need size alignment
  frame : ∀ a : UInt32, a.toNat + 4 ≤ 2 ^ 32 →
    (∀ t ∈ pre ++ s :: post, a.toNat + 4 ≤ t.addr.toNat ∨ t.stop ≤ a.toNat) →
    h'.mem.load32 a = h.mem.load32 a

section Carve

variable {h : Heap} {pre post : List FreeSegment} {s : FreeSegment} {size alignment : UInt32}

/-- A word inside the data area of a segment is apart from the header of every segment. -/
theorem apart_headers {segs : List FreeSegment} {t : FreeSegment} {a : UInt32}
    (hwf : WellFormed segs) (hs : s ∈ segs) (hlo : s.addr.toNat + 8 ≤ a.toNat)
    (hhi : a.toNat + 4 ≤ s.stop) (ht : t ∈ segs) : Apart a t.addr ∧ Apart a (t.addr + 4) := by
  have h1 := hwf.stop_le s hs
  have h2 := hwf.stop_le t ht
  have h3 := t.addr_add_le_stop
  rw [Apart, Apart, FreeSegment.addr_add_four_toNat (h3.trans h2)]
  by_cases hne : s = t
  · subst hne
    omega
  · have := hwf.apart hs ht hne
    omega

/-- Once the size of the block is recorded, `carve` unlinks the segment or shrinks it, and touches
nothing else. -/
theorem carve_freeList
    (hlist : (h.setSize (headerPtr h size alignment s.addr)
      (fullAllocSize h size alignment s.addr)).FreeList (pre ++ s :: post))
    (hap : HeadersApart (pre ++ s :: post)) :
    (carve h size alignment (Heap.lastAddr pre) s.addr).FreeList
      (pre ++ s.shrink (fullAllocSize h size alignment s.addr).toNat ++ post) := by
  have hs := hlist.size s (by simp)
  unfold carve
  simp only [hs]
  by_cases hall : s.size - fullAllocSize h size alignment s.addr = 0
  · -- the data area is used up: the segment is unlinked, header and all
    rw [if_pos hall, FreeSegment.shrink, if_pos (by rw [sub_eq_zero.mp hall]), List.append_nil]
    exact hlist.unlink hap
  · -- something remains: the segment keeps its place and shrinks
    have hne : (fullAllocSize h size alignment s.addr).toNat ≠ s.size.toNat := by
      intro heq
      rw [UInt32.toNat_inj.mp heq, sub_self] at hall
      exact hall rfl
    rw [if_neg hall, ite_self, FreeSegment.shrink, if_neg hne, UInt32.ofNat_toNat,
      List.append_assoc, List.singleton_append]
    exact hlist.setSize hap

/-- A word apart from the header of the segment and from the link in front of it only sees the size
of the block recorded. -/
theorem load32_carve {a : UInt32} (hs : Apart s.addr a) (hpre : ∀ t ∈ pre, Apart (t.addr + 4) a) :
    (carve h size alignment (Heap.lastAddr pre) s.addr).mem.load32 a
      = (h.setSize (headerPtr h size alignment s.addr)
          (fullAllocSize h size alignment s.addr)).mem.load32 a := by
  unfold carve
  dsimp only
  split_ifs
  · exact Heap.load32_setLink _ hpre
  · exact load32_store32_of_apart _ _ hs
  · exact load32_store32_of_apart _ _ hs

theorem carve_spec (hpow : PowerOfTwo alignment) (hsz : 0 < size.toNat)
    (hlist : h.FreeList (pre ++ s :: post)) (hwf : WellFormed (pre ++ s :: post))
    (hfit : s.Fits size alignment) :
    Carved h (carve h size alignment (Heap.lastAddr pre) s.addr) pre s post size alignment
      (alignedDataPtr h size alignment s.addr) := by
  have hmem : s ∈ pre ++ s :: post := by simp
  have hs := hlist.size s hmem
  have hstop := hwf.stop_le s hmem
  have hheader := headerPtr_toNat hs hstop hpow hsz hfit
  have hfull := fullAllocSize_toNat hs hpow hfit
  have hneed : 4 ≤ s.need size alignment := by rw [FreeSegment.need]; omega
  have hle : s.need size alignment ≤ s.size.toNat := hfit
  have hstop' : s.stop = s.addr.toNat + 8 + s.size.toNat := rfl
  have hlo : s.addr.toNat + 8 ≤ (headerPtr h size alignment s.addr).toNat := by omega
  have hhi : (headerPtr h size alignment s.addr).toNat + 4 ≤ s.stop := by omega
  have hapart : ∀ t ∈ pre ++ s :: post, _ := fun t ht => apart_headers hwf hmem hlo hhi ht
  refine ⟨?_, hfit, alignedDataPtr_toNat hs hstop hpow hsz hfit,
    alignment_dvd_alignedDataPtr hpow, ?_, ?_⟩
  · -- recording the size of the block leaves the free list as it was
    rw [← hfull]
    exact carve_freeList (hlist.setSize_of_apart hapart) hwf.headersApart
  · show (Heap.size _ (headerPtr h size alignment s.addr)).toNat = _
    rw [Heap.size, load32_carve (hapart s hmem).1.symm
      fun t ht => (hapart t (by simp [ht])).2.symm, ← Heap.size, Heap.size_setSize_self, hfull]
  · intro a ha hout
    have hs1 := hout s hmem
    have hs3 := s.addr_add_le_stop
    rw [load32_carve (by rw [Apart]; omega) fun t ht => ?_]
    · exact load32_store32_of_apart _ _ (by rw [Apart]; omega)
    · have h1 := hout t (by simp [ht])
      have h2 := hwf.stop_le t (by simp [ht])
      have h3 := t.addr_add_le_stop
      rw [Apart, FreeSegment.addr_add_four_toNat (h3.trans h2)]
      omega

end Carve

/-! ### The extents after the call -/

theorem FreeSegment.stop_of_mem_shrink {s t : FreeSegment} {n : ℕ} (hn : n ≤ s.size.toNat)
    (ht : t ∈ s.shrink n) : t.addr = s.addr ∧ t.stop = s.stop - n := by
  rw [shrink] at ht
  split_ifs at ht with hall
  · exact absurd ht (by simp)
  · obtain rfl := List.mem_singleton.mp ht
    have hlt := s.size.toNat_lt
    have hsub : (s.size - UInt32.ofNat n).toNat = s.size.toNat - n := by
      rw [UInt32.toNat_sub, UInt32.toNat_ofNat']
      omega
    refine ⟨rfl, ?_⟩
    show s.addr.toNat + 8 + (s.size - UInt32.ofNat n).toNat = s.addr.toNat + 8 + s.size.toNat - n
    rw [hsub]
    omega

/-- Shrinking a segment moves none. -/
theorem FreeSegment.map_addr_shrink_sublist (pre : List FreeSegment) (s : FreeSegment) (n : ℕ)
    (post : List FreeSegment) :
    ((pre ++ s.shrink n ++ post).map addr).Sublist ((pre ++ s :: post).map addr) := by
  have hs : ((s.shrink n).map addr).Sublist [s.addr] := by
    rw [shrink]
    split_ifs
    · exact List.nil_sublist _
    · exact List.Sublist.refl _
  rw [List.append_assoc, List.map_append, List.map_append, List.map_append, List.map_cons]
  exact (hs.append_right _).append_left _

namespace Carved

variable {h h' : Heap} {pre post : List FreeSegment} {s t : FreeSegment}
  {size alignment p : UInt32}

theorem header_toNat (c : Carved h h' pre s post size alignment p) :
    (p - sizeofUsedSegment).toNat = s.stop - s.need size alignment := by
  rw [UInt32.toNat_sub_of_le _ _ (UInt32.le_iff_toNat_le.mpr
    (by rw [c.ptr_toNat]; exact Nat.le_add_left 4 _)), c.ptr_toNat]
  exact Nat.add_sub_cancel ..

/-- Every remaining segment is an old one at its old address, at most as long. -/
theorem exists_of_mem (c : Carved h h' pre s post size alignment p)
    (ht : t ∈ pre ++ s.shrink (s.need size alignment) ++ post) :
    ∃ u ∈ pre ++ s :: post, t.addr = u.addr ∧ t.stop ≤ u.stop := by
  rcases List.mem_append.mp ht with ht | ht
  · rcases List.mem_append.mp ht with ht | ht
    · exact ⟨t, by simp [ht], rfl, le_rfl⟩
    · obtain ⟨h1, h2⟩ := FreeSegment.stop_of_mem_shrink c.fits ht
      exact ⟨s, by simp, h1, by omega⟩
  · exact ⟨t, by simp [ht], rfl, le_rfl⟩

theorem wellFormed (c : Carved h h' pre s post size alignment p)
    (hwf : WellFormed (pre ++ s :: post)) :
    WellFormed (pre ++ s.shrink (s.need size alignment) ++ post) := by
  by_cases hall : s.need size alignment = s.size.toNat
  · rw [FreeSegment.shrink, if_pos hall, List.append_nil]
    exact hwf.sublist (List.Sublist.append_left (List.sublist_cons_self _ _) _)
  · have hstop := FreeSegment.stop_of_mem_shrink (t := { s with size := s.size - .ofNat _ }) c.fits
      (by rw [FreeSegment.shrink, if_neg hall]; exact List.mem_singleton_self _)
    rw [FreeSegment.shrink, if_neg hall, List.append_assoc, List.singleton_append]
    refine hwf.replace ?_ (by omega)
    rw [FreeSegment.extent, FreeSegment.extent, hstop.2]
    exact Set.Ico_subset_Ico_right (by omega)

/-- The block ends where the segment ended and starts past its header. -/
theorem lt_header (c : Carved h h' pre s post size alignment p) :
    s.addr.toNat + 8 ≤ s.stop - s.need size alignment
      ∧ s.need size alignment ≤ s.stop := by
  have hle : s.need size alignment ≤ s.size.toNat := c.fits
  have hstop : s.stop = s.addr.toNat + 8 + s.size.toNat := rfl
  omega

/-- The block is apart from every segment that remains. -/
theorem apart_of_mem (c : Carved h h' pre s post size alignment p)
    (hwf : WellFormed (pre ++ s :: post))
    (ht : t ∈ pre ++ s.shrink (s.need size alignment) ++ post) :
    t.stop ≤ s.stop - s.need size alignment ∨ s.stop ≤ t.addr.toNat := by
  have hlo := c.lt_header
  have hnd := hwf.nodup
  have hcross := (List.nodup_append.mp hnd).2.2
  have hpost := (List.nodup_cons.mp (List.nodup_append.mp hnd).2.1).1
  rcases List.mem_append.mp ht with ht | ht
  · rcases List.mem_append.mp ht with ht | ht
    · have := hwf.apart (t := s) (by simp [ht]) (by simp) (hcross t ht s (by simp))
      omega
    · have := FreeSegment.stop_of_mem_shrink c.fits ht
      omega
  · have := hwf.apart (s := s) (t := t) (by simp) (by simp [ht]) (fun he => hpost (he ▸ ht))
    omega

end Carved

/-- **`allocate` is first fit.**  It terminates; it returns `NULL` and changes nothing when no
segment can hold the block, and carves the block from the first segment that can otherwise. -/
theorem allocate_spec {h : Heap} {segs : List FreeSegment} {size alignment : UInt32}
    (hreq : ValidRequest size alignment) (hlist : h.FreeList segs) (hwf : WellFormed segs) :
    (∀ s ∈ segs, ¬ s.Fits size alignment) ∧ allocate h size alignment = some (h, 0)
      ∨ ∃ pre s post h' p, segs = pre ++ s :: post ∧ (∀ t ∈ pre, ¬ t.Fits size alignment)
        ∧ allocate h size alignment = some (h', p)
        ∧ Carved h h' pre s post size alignment p := by
  have hfits : ∀ s ∈ segs, fits h size alignment s.addr ↔ s.Fits size alignment :=
    fun s hs => fits_iff (hlist.size s hs) (hwf.stop_le s hs) hreq
  rcases allocate_cases hlist hreq.size_ne_zero alignment with
    ⟨hnone, heq⟩ | ⟨pre, s, post, rfl, hskip, hfit, heq⟩
  · refine .inl ⟨?_, heq⟩
    intro s hs hf
    exact hnone s hs ((hfits s hs).mpr hf)
  · have hfit := (hfits s (by simp)).mp hfit
    refine .inr ⟨pre, s, post, _, _, rfl, ?_, heq,
      carve_spec hreq.powerOfTwo hreq.size_pos hlist hwf hfit⟩
    intro t ht hf
    exact hskip t ht ((hfits t (by simp [ht])).mpr hf)

end Shogun.Memory
