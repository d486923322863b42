import Shogun.Memory.Equiv.Blocks
import Shogun.Memory.Equiv.Sorted

/-!
# What a client may rely on

A client writes to the fields of its blocks, allocates and frees, in any order.  `deallocate` makes
of a block a segment that ends four bytes past it, so `malloc` may hand out a block that shares its
last word with the header of a block in use or of a free segment.  `Clear` says that it does not do
so this time; it is a condition on the heap before the call.

* `Sound`: the blocks in use and the headers of the free segments lie apart.
* `Sound.malloc`, `Sound.free`, `Sound.setField`: what the operations keep.  Only `malloc` has a
  condition.
* `Record`: the words of a structure, and how they fare under the operations.
* `Fresh.clear`: as long as nothing was freed, every block that `malloc` hands out is clear.
-/

namespace Shogun.Memory

open ByteMemory

/-- The first address past the block at `p`. -/
def Heap.blockStop (h : Heap) (p : UInt32) : ℕ := (header p).toNat + (h.size (header p)).toNat

/-- The pointer to a numbered block, or `NULL`. -/
def ptrOf (addr : ℕ → UInt32) : Option ℕ → UInt32
  | none => 0
  | some n => addr n

theorem ptrOf_update {addr : ℕ → UInt32} {x : Option ℕ} {top : ℕ} (hx : ∀ d, x = some d → d < top)
    (p : UInt32) : ptrOf (Function.update addr top p) x = ptrOf addr x := by
  cases x with
  | none => rfl
  | some d => exact Function.update_of_ne (hx d rfl).ne _ _

theorem ptr?_ptrOf {addr : ℕ → UInt32} {x : Option ℕ} (hx : ∀ d, x = some d → addr d ≠ 0) :
    ptr? (ptrOf addr x) = x.map addr := by
  cases x with
  | none => rfl
  | some d => exact ptr?_of_ne (hx d rfl)

/-- There are at most `2^32` blocks with addresses of their own. -/
theorem length_le_of_inj {α : Type*} {addr : α → UInt32} {xs : List α} (hnd : xs.Nodup)
    (hinj : ∀ x ∈ xs, ∀ y ∈ xs, addr x = addr y → x = y) : xs.length ≤ 2 ^ 32 := by
  have hmap : (xs.map fun x => (addr x).toNat).Nodup :=
    hnd.map_on fun x hx y hy heq => hinj x hx y hy (UInt32.toNat_inj.mp heq)
  have hsub : (xs.map fun x => (addr x).toNat) ⊆ List.range (2 ^ 32) := by
    intro n hn
    obtain ⟨x, -, rfl⟩ := List.mem_map.mp hn
    exact List.mem_range.mpr (addr x).toNat_lt
  have hlen := (hmap.subperm hsub).length_le
  rwa [List.length_range, List.length_map] at hlen

namespace HeapState

/-- The blocks in use and the headers of the free segments `segs` lie apart. -/
structure Layout (m : HeapState) (segs : List FreeSegment) : Prop where
  freeList : m.heap.FreeList segs
  headersApart : HeadersApart segs
  header_pos : ∀ p ∈ m.live, 0 < (header p).toNat
  size_le : ∀ p ∈ m.live, 8 ≤ (m.heap.size (header p)).toNat
  stop_le : ∀ p ∈ m.live, m.heap.blockStop p ≤ 2 ^ 32
  disjoint : m.live.Pairwise fun p q =>
    m.heap.blockStop p ≤ (header q).toNat ∨ m.heap.blockStop q ≤ (header p).toNat
  apart : ∀ p ∈ m.live, ∀ s ∈ segs,
    m.heap.blockStop p ≤ s.addr.toNat ∨ s.addr.toNat + 8 ≤ (header p).toNat

/-- The blocks in use and the headers of the free segments lie apart. -/
def Sound (m : HeapState) : Prop := ∃ segs, m.Layout segs

/-- The block at `p` is in use and has `n` bytes. -/
structure Owns (m : HeapState) (p : UInt32) (n : ℕ) : Prop where
  live : p ∈ m.live
  size_le : n + 4 ≤ (m.heap.size (header p)).toNat

/-- The block at `q` is in use in `m'`, with the contents it has in `m`. -/
structure Keeps (m m' : HeapState) (q : UInt32) : Prop where
  live : q ∈ m'.live
  word : ∀ a : UInt32, (header q).toNat ≤ a.toNat → a.toNat + 4 ≤ m.heap.blockStop q →
    m'.heap.mem.load32 a = m.heap.mem.load32 a

variable {m m' m'' : HeapState} {segs segs' : List FreeSegment} {p q : UInt32} {n : ℕ}

namespace Layout

theorem ptr_toNat (l : Layout m segs) (hp : p ∈ m.live) : p.toNat = (header p).toNat + 4 := by
  have hsize := l.size_le p hp
  have hstop := l.stop_le p hp
  have hadd : p = header p + sizeofUsedSegment := (sub_add_cancel p _).symm
  have hnat := congrArg UInt32.toNat hadd
  rw [UInt32.toNat_add] at hnat
  change p.toNat = ((header p).toNat + 4) % 2 ^ 32 at hnat
  rw [Heap.blockStop] at hstop
  omega

theorem ne_zero (l : Layout m segs) (hp : p ∈ m.live) : p ≠ 0 := by
  rintro rfl
  have := l.ptr_toNat hp
  exact absurd this (by show ¬ 0 = _; omega)

/-- Different blocks are on either side of one another. -/
theorem apart_of_ne (l : Layout m segs) (hp : p ∈ m.live) (hq : q ∈ m.live) (hne : p ≠ q) :
    m.heap.blockStop p ≤ (header q).toNat ∨ m.heap.blockStop q ≤ (header p).toNat := by
  have : Std.Symm fun p q : UInt32 =>
    m.heap.blockStop p ≤ (header q).toNat ∨ m.heap.blockStop q ≤ (header p).toNat :=
    ⟨fun _ _ => Or.symm⟩
  exact l.disjoint.forall hp hq hne

theorem nodup (l : Layout m segs) : m.live.Nodup := by
  refine l.disjoint.imp_of_mem fun {p q} hp hq hd => ?_
  rintro rfl
  have := l.size_le p hp
  rw [Heap.blockStop] at hd
  omega

/-- The layout after a change that keeps the sizes of the blocks left in use. -/
theorem of_size (l : Layout m segs) (m' : HeapState) (hlist : m'.heap.FreeList segs')
    (hap : HeadersApart segs')
    (hlive : m'.live.Sublist m.live)
    (hsize : ∀ q ∈ m'.live, m'.heap.size (header q) = m.heap.size (header q))
    (hout : ∀ q ∈ m'.live, ∀ s ∈ segs',
      m.heap.blockStop q ≤ s.addr.toNat ∨ s.addr.toNat + 8 ≤ (header q).toNat) :
    Layout m' segs' := by
  have hstop : ∀ q ∈ m'.live, m'.heap.blockStop q = m.heap.blockStop q := by
    intro q hq
    rw [Heap.blockStop, hsize q hq, Heap.blockStop]
  refine ⟨hlist, hap, fun q hq => l.header_pos q (hlive.subset hq), ?_, ?_, ?_, ?_⟩
  · intro q hq
    rw [hsize q hq]
    exact l.size_le q (hlive.subset hq)
  · intro q hq
    rw [hstop q hq]
    exact l.stop_le q (hlive.subset hq)
  · refine (l.disjoint.sublist hlive).imp_of_mem fun {q r} hq hr hd => ?_
    rw [hstop q hq, hstop r hr]
    exact hd
  · intro q hq s hs
    rw [hstop q hq]
    exact hout q hq s hs

/-- A block in use is kept when its words are. -/
theorem size_of_keeps (l : Layout m segs) (hq : q ∈ m.live) (k : Keeps m m' q) :
    m'.heap.size (header q) = m.heap.size (header q) := by
  have := l.size_le q hq
  apply k.word _ le_rfl
  rw [Heap.blockStop]
  omega

end Layout

/-! ### Writing to a block -/

/-- Writes to the data of one block keep the layout and the other blocks. -/
theorem Layout.write (l : Layout m segs) {h' : Heap} (hp : p ∈ m.live)
    (w : OnlyWrites p.toNat (m.heap.blockStop p) m.heap h') :
    Layout ⟨h', m.live⟩ segs ∧ h'.size (header p) = m.heap.size (header p) ∧
      ∀ q ∈ m.live, q ≠ p → Keeps m ⟨h', m.live⟩ q := by
  have hptr := l.ptr_toNat hp
  have hkeep : ∀ q ∈ m.live, q ≠ p → Keeps m ⟨h', m.live⟩ q := by
    intro q hq hne
    refine ⟨hq, fun a ha hstop => ?_⟩
    have hd := l.apart_of_ne hq hp hne
    have hle := l.stop_le q hq
    apply w.load32 <;> omega
  have hself : h'.size (header p) = m.heap.size (header p) := by
    have hle := l.stop_le p hp
    have hsize := l.size_le p hp
    rw [Heap.blockStop] at hle
    apply w.load32 <;> omega
  have hsize : ∀ q ∈ m.live, h'.size (header q) = m.heap.size (header q) := by
    intro q hq
    by_cases hne : q = p
    · rw [hne]
      exact hself
    · exact l.size_of_keeps hq (hkeep q hq hne)
  have hlist : h'.FreeList segs := by
    apply w.freeList l.freeList l.headersApart.le
    intro s hs
    have := l.apart p hp s hs
    omega
  exact ⟨l.of_size ⟨h', m.live⟩ hlist l.headersApart (List.Sublist.refl _) hsize l.apart,
    hself, hkeep⟩

/-! ### Allocating -/

/-- `s` is the first segment that passes the tests of `malloc(size)`, with `pre` in front of it and
`post` behind it.  The block, which is the end of `s`, shares no byte with a block in use or with
the header of another segment. -/
structure Serves (m : HeapState) (size : UInt32) (pre : List FreeSegment) (s : FreeSegment)
    (post : List FreeSegment) : Prop where
  freeList : m.heap.FreeList (pre ++ s :: post)
  skips : ∀ t ∈ pre, ¬ fits m.heap size 8 t.addr
  fits : fits m.heap size 8 s.addr
  stop_le : s.stop ≤ 2 ^ 32
  segments : ∀ t ∈ pre ++ post,
    t.addr.toNat + 8 ≤ (headerPtr m.heap size 8 s.addr).toNat ∨ s.stop ≤ t.addr.toNat
  blocks : ∀ p ∈ m.live,
    m.heap.blockStop p ≤ (headerPtr m.heap size 8 s.addr).toNat ∨ s.stop ≤ (header p).toNat

/-- `malloc(size)` has a block to hand out, and it shares no byte with a block in use or with the
header of a free segment. -/
def Clear (m : HeapState) (size : UInt32) : Prop := ∃ pre s post, m.Serves size pre s post

/-- The first segment that passes a test is the only one of its kind. -/
theorem split_unique {P : FreeSegment → Prop} {s s' : FreeSegment} :
    ∀ {pre pre' post post' : List FreeSegment}, pre ++ s :: post = pre' ++ s' :: post' →
      (∀ t ∈ pre, ¬ P t) → P s → (∀ t ∈ pre', ¬ P t) → P s' →
      pre = pre' ∧ s = s' ∧ post = post'
  | [], [], _, _, heq, _, _, _, _ => ⟨rfl, List.cons.inj heq⟩
  | [], t :: _, _, _, heq, _, hs, hskip, _ =>
    absurd ((List.cons.inj heq).1 ▸ hs) (hskip t List.mem_cons_self)
  | t :: _, [], _, _, heq, hskip, _, _, hs =>
    absurd ((List.cons.inj heq).1 ▸ hs) (hskip t List.mem_cons_self)
  | t :: pre, t' :: pre', post, post', heq, hskip, hs, hskip', hs' => by
    obtain ⟨rfl, hrest⟩ := List.cons.inj heq
    obtain ⟨rfl, hsame⟩ := split_unique hrest (fun u hu => hskip u (List.mem_cons_of_mem _ hu)) hs
      (fun u hu => hskip' u (List.mem_cons_of_mem _ hu)) hs'
    exact ⟨rfl, hsame⟩

namespace Serves

variable {size : UInt32} {pre post : List FreeSegment} {s : FreeSegment}

/-- The block that `malloc` hands out is the end of the segment that serves it. -/
theorem malloc_eq (hv : m.Serves size pre s post) (hsize : size ≠ 0) :
    Memory.malloc m.heap size = some (carve m.heap size 8 (Heap.lastAddr pre) s.addr,
      alignedDataPtr m.heap size 8 s.addr) := by
  rcases allocate_cases hv.freeList hsize 8 with
    ⟨hnone, -⟩ | ⟨pre', s', post', heq, hskip, hfit, hcode⟩
  · exact absurd hv.fits (hnone s (by simp))
  · obtain ⟨rfl, rfl, rfl⟩ := split_unique (P := fun t => Memory.fits m.heap size 8 t.addr) heq
      hv.skips hv.fits hskip hfit
    exact hcode

/-- The block lies between the header of the segment and its end. -/
theorem block_toNat (hv : m.Serves size pre s post) (hreq : ValidRequest size 8) :
    s.addr.toNat + 8 ≤ (headerPtr m.heap size 8 s.addr).toNat ∧
      (headerPtr m.heap size 8 s.addr).toNat + (fullAllocSize m.heap size 8 s.addr).toNat = s.stop ∧
      size.toNat + 4 ≤ (fullAllocSize m.heap size 8 s.addr).toNat := by
  have hs := hv.freeList.size s (by simp)
  have hfit : s.need size 8 ≤ s.size.toNat := (fits_iff hs hv.stop_le hreq).mp hv.fits
  have hstop : s.stop = s.addr.toNat + 8 + s.size.toNat := rfl
  rw [headerPtr_toNat hs hv.stop_le hreq.powerOfTwo hreq.size_pos hfit,
    fullAllocSize_toNat hs hreq.powerOfTwo hfit]
  refine ⟨by omega, by omega, ?_⟩
  rw [FreeSegment.need]
  omega

variable (hv : m.Serves size pre s post) (l : Layout m (pre ++ s :: post))
  (hreq : ValidRequest size 8) (hlow : 4 ≤ size.toNat)

include hv hreq in
/-- The block shares no byte with the headers of the list. -/
theorem segment_apart {t : FreeSegment} (ht : t ∈ pre ++ s :: post) :
    t.addr.toNat + 8 ≤ (headerPtr m.heap size 8 s.addr).toNat ∨ s.stop ≤ t.addr.toNat := by
  rcases List.mem_append.mp ht with ht | ht
  · exact hv.segments t (List.mem_append_left _ ht)
  · rcases List.mem_cons.mp ht with rfl | ht
    · exact .inl (hv.block_toNat hreq).1
    · exact hv.segments t (List.mem_append_right _ ht)

include hv l hreq hlow

theorem size_apart {t : FreeSegment} (ht : t ∈ pre ++ s :: post) :
    Apart (headerPtr m.heap size 8 s.addr) t.addr ∧
      Apart (headerPtr m.heap size 8 s.addr) (t.addr + 4) := by
  have htle := l.headersApart.le t ht
  have hle := hv.stop_le
  have hb := hv.block_toNat hreq
  have := hv.segment_apart hreq ht
  rw [Apart, Apart, FreeSegment.addr_add_four_toNat htle]
  omega

theorem size_carve :
    (carve m.heap size 8 (Heap.lastAddr pre) s.addr).size (headerPtr m.heap size 8 s.addr)
      = fullAllocSize m.heap size 8 s.addr := by
  rw [Heap.size, load32_carve (hv.size_apart l hreq hlow (by simp)).1.symm
    fun t ht => (hv.size_apart l hreq hlow (List.mem_append_left _ ht)).2.symm]
  exact load32_store32_same ..

omit hlow in
/-- A block in use does not see the new one. -/
theorem load32_carve_block {a : UInt32} (hq : q ∈ m.live) (ha : (header q).toNat ≤ a.toNat)
    (hsa : a.toNat + 4 ≤ m.heap.blockStop q) :
    (carve m.heap size 8 (Heap.lastAddr pre) s.addr).mem.load32 a = m.heap.mem.load32 a := by
  have hqle := l.stop_le q hq
  have hle := hv.stop_le
  have hblock := hv.blocks q hq
  have hb := hv.block_toNat hreq
  -- a word of the block is in no header that `carve` writes to
  have hapart : ∀ t ∈ pre ++ s :: post, Apart t.addr a ∧ Apart (t.addr + 4) a := by
    intro t ht
    have htle := l.headersApart.le t ht
    have := l.apart q hq t ht
    rw [Apart, Apart, FreeSegment.addr_add_four_toNat htle]
    omega
  rw [load32_carve (hapart s (by simp)).1 fun t ht => (hapart t (List.mem_append_left _ ht)).2]
  apply load32_store32_of_apart
  rw [Apart]
  omega

/-- The layout of the blocks that were there before, after the new one was carved. -/
theorem layout_carve :
    Layout ⟨carve m.heap size 8 (Heap.lastAddr pre) s.addr, m.live⟩
      (pre ++ s.shrink (fullAllocSize m.heap size 8 s.addr).toNat ++ post) := by
  have hlist := carve_freeList
    (l.freeList.setSize_of_apart fun t ht => hv.size_apart l hreq hlow ht) l.headersApart
  have hmap := FreeSegment.map_addr_shrink_sublist pre s
    (fullAllocSize m.heap size 8 s.addr).toNat post
  apply l.of_size ⟨_, m.live⟩ hlist (l.headersApart.of_map_addr hmap) (List.Sublist.refl _)
  · intro q hq
    have := l.size_le q hq
    apply hv.load32_carve_block l hreq hq le_rfl
    rw [Heap.blockStop]
    omega
  · intro q hq t ht
    -- every remaining segment is at an old address
    obtain ⟨u, hu, heq⟩ := List.mem_map.mp (hmap.subset (List.mem_map_of_mem ht))
    rw [← heq]
    exact l.apart q hq u hu

end Serves

/-- The layout with one more block in use. -/
theorem Layout.cons {h : Heap} {live : List UInt32} (l : Layout ⟨h, live⟩ segs)
    (hpos : 0 < (header p).toNat) (hsize : 8 ≤ (h.size (header p)).toNat)
    (hstop : h.blockStop p ≤ 2 ^ 32)
    (hlive : ∀ q ∈ live, h.blockStop p ≤ (header q).toNat ∨ h.blockStop q ≤ (header p).toNat)
    (hsegs : ∀ s ∈ segs, h.blockStop p ≤ s.addr.toNat ∨ s.addr.toNat + 8 ≤ (header p).toNat) :
    Layout ⟨h, p :: live⟩ segs where
  freeList := l.freeList
  headersApart := l.headersApart
  header_pos := List.forall_mem_cons.mpr ⟨hpos, l.header_pos⟩
  size_le := List.forall_mem_cons.mpr ⟨hsize, l.size_le⟩
  stop_le := List.forall_mem_cons.mpr ⟨hstop, l.stop_le⟩
  disjoint := List.pairwise_cons.mpr ⟨hlive, l.disjoint⟩
  apart := List.forall_mem_cons.mpr ⟨hsegs, l.apart⟩

/-- `malloc(size)` has handed out the block at `p`. -/
structure Given (m : HeapState) (size : UInt32) (m' : HeapState) (p : UInt32) : Prop where
  sound : m'.Sound
  ne_zero : p ≠ 0
  not_live : p ∉ m.live
  live : m'.live = p :: m.live
  owns : m'.Owns p size.toNat
  keeps : ∀ q ∈ m.live, Keeps m m' q

/-- The block that `malloc` hands out, and what is left of the segment. -/
theorem Serves.malloc {size : UInt32} {pre post : List FreeSegment} {s : FreeSegment}
    (hv : m.Serves size pre s post) (l : Layout m (pre ++ s :: post)) (hlow : 4 ≤ size.toNat)
    (hlt : size.toNat < 2 ^ 31) :
    ∃ m' p, m.malloc size = some (m', p) ∧ Given m size m' p ∧
      Layout m' (pre ++ s.shrink (fullAllocSize m.heap size 8 s.addr).toNat ++ post) ∧
      (header p).toNat + (fullAllocSize m.heap size 8 s.addr).toNat = s.stop := by
  have hne : size ≠ 0 := by
    rintro rfl
    exact absurd hlow (by decide)
  have hreq := validRequest_malloc hne hlt
  have hsize := hv.size_carve l hreq hlow
  have lold := hv.layout_carve l hreq hlow
  obtain ⟨hlo, hend, hfull⟩ := hv.block_toNat hreq
  have hle := hv.stop_le
  set h' := carve m.heap size 8 (Heap.lastAddr pre) s.addr with hh'
  set p := alignedDataPtr m.heap size 8 s.addr with hpdef
  have hheader : headerPtr m.heap size 8 s.addr = header p := rfl
  rw [hheader] at hsize hlo hend
  have hstop : h'.blockStop p = s.stop := by
    rw [Heap.blockStop, hsize]
    exact hend
  -- no header of a block in use is written, so these blocks end where they did
  have hold : ∀ q ∈ m.live, h'.blockStop q = m.heap.blockStop q := by
    intro q hq
    have h8 := l.size_le q hq
    have hsame : h'.size (header q) = m.heap.size (header q) :=
      hv.load32_carve_block l hreq hq le_rfl (by rw [Heap.blockStop]; omega)
    rw [Heap.blockStop, hsame, Heap.blockStop]
  have hlive : ∀ q ∈ m.live, h'.blockStop p ≤ (header q).toNat ∨
      h'.blockStop q ≤ (header p).toNat := by
    intro q hq
    rw [hold q hq, hstop]
    exact (hv.blocks q hq).symm
  have hsegs : ∀ t ∈ pre ++ s.shrink (fullAllocSize m.heap size 8 s.addr).toNat ++ post,
      h'.blockStop p ≤ t.addr.toNat ∨ t.addr.toNat + 8 ≤ (header p).toNat := by
    intro t ht
    -- the headers of the segments are where they were
    have hmap := FreeSegment.map_addr_shrink_sublist pre s
      (fullAllocSize m.heap size 8 s.addr).toNat post
    obtain ⟨u, hu, heq⟩ := List.mem_map.mp (hmap.subset (List.mem_map_of_mem ht))
    rw [← heq, hstop]
    exact (hv.segment_apart hreq hu).symm
  have lnew : Layout ⟨h', p :: m.live⟩ _ :=
    lold.cons (by omega) (by rw [hsize]; omega) (by omega) hlive hsegs
  have hp0 : p ≠ 0 := lnew.ne_zero List.mem_cons_self
  refine ⟨⟨h', p :: m.live⟩, p, ?_, ⟨⟨_, lnew⟩, hp0, ?_, rfl, ⟨List.mem_cons_self, ?_⟩, ?_⟩, lnew,
    hend⟩
  · rw [HeapState.malloc, hv.malloc_eq hne, Option.map_some]
    show some (HeapState.mk h' (if p = 0 then m.live else p :: m.live), p) = _
    rw [if_neg hp0]
  · exact (List.nodup_cons.mp lnew.nodup).1
  · show _ ≤ (h'.size (header p)).toNat
    rw [hsize]
    exact hfull
  · intro q hq
    exact ⟨List.mem_cons_of_mem _ hq, fun a ha hsa => hv.load32_carve_block l hreq hq ha hsa⟩

/-- `malloc` keeps the heap sound when the block it hands out is clear. -/
theorem Sound.malloc (hm : m.Sound) {size : UInt32} (hc : m.Clear size) (hlow : 4 ≤ size.toNat)
    (hlt : size.toNat < 2 ^ 31) : ∃ m' p, m.malloc size = some (m', p) ∧ Given m size m' p := by
  obtain ⟨segs, l⟩ := hm
  obtain ⟨pre, s, post, hv⟩ := hc
  obtain rfl := l.freeList.unique hv.freeList
  obtain ⟨m', p, hcode, hg, -⟩ := hv.malloc l hlow hlt
  exact ⟨m', p, hcode, hg⟩

/-- `malloc(size)` has no block to hand out. -/
def Full (m : HeapState) (size : UInt32) : Prop :=
  ∃ segs, m.heap.FreeList segs ∧ ∀ s ∈ segs, ¬ fits m.heap size 8 s.addr

theorem Full.malloc {size : UInt32} (h : m.Full size) (hsize : size ≠ 0) :
    m.malloc size = some (m, 0) := by
  obtain ⟨segs, hlist, hnone⟩ := h
  rcases allocate_cases hlist hsize 8 with ⟨-, hcode⟩ | ⟨pre, s, post, rfl, -, hfit, -⟩
  · rw [HeapState.malloc, Memory.malloc, hcode]
    rfl
  · exact absurd hfit (hnone s (by simp))

theorem Full.not_clear {size : UInt32} (h : m.Full size) : ¬ m.Clear size := by
  rintro ⟨pre, s, post, hv⟩
  obtain ⟨segs, hlist, hnone⟩ := h
  obtain rfl := hlist.unique hv.freeList
  exact hnone s (by simp) hv.fits

/-! ### Freeing -/

/-- `free(p)` has given the block at `p` back. -/
structure Freed (m : HeapState) (p : UInt32) (m' : HeapState) : Prop where
  sound : m'.Sound
  live : m'.live = m.live.erase p
  keeps : ∀ q ∈ m.live, q ≠ p → Keeps m m' q

/-- `free` keeps the heap sound: it writes to the block it gets and to headers of free segments. -/
theorem Sound.free (hm : m.Sound) (hp : p ∈ m.live) : ∃ m', m.free p = some m' ∧ Freed m p m' := by
  obtain ⟨segs, l⟩ := hm
  have h8 := l.size_le p hp
  have hle := l.stop_le p hp
  rw [Heap.blockStop] at hle
  have hout : ∀ s ∈ segs, s.addr.toNat + 8 ≤ (header p).toNat ∨
      (header p).toNat + 8 ≤ s.addr.toNat := by
    intro s hs
    have := l.apart p hp s hs
    rw [Heap.blockStop] at this
    omega
  obtain ⟨h', hcode, hlist, hframe⟩ := free_block l.freeList (l.header_pos p hp) (by omega)
    l.headersApart hout
  set b := segmentOf m.heap p with hb
  have haddr : b.addr = header p := rfl
  have hap : HeadersApart (b :: segs) := by
    refine ⟨List.forall_mem_cons.mpr ⟨?_, l.headersApart.le⟩,
      List.pairwise_cons.mpr ⟨fun s hs => (hout s hs).symm, l.headersApart.apart⟩⟩
    show (header p).toNat + 8 ≤ _
    omega
  -- another block lies apart from all headers, that of the freed block included
  have hclear : ∀ q ∈ m.live, q ≠ p → ∀ s ∈ b :: segs,
      m.heap.blockStop q ≤ s.addr.toNat ∨ s.addr.toNat + 8 ≤ (header q).toNat := by
    intro q hq hne
    refine List.forall_mem_cons.mpr ⟨?_, l.apart q hq⟩
    have := l.apart_of_ne hq hp hne
    rw [haddr]
    rw [Heap.blockStop, Heap.blockStop] at this
    rw [Heap.blockStop]
    omega
  have hkeep : ∀ q ∈ m.live, q ≠ p → Keeps m ⟨h', m.live.erase p⟩ q := by
    intro q hq hne
    refine ⟨(List.mem_erase_of_ne hne).mpr hq, fun a ha hsa => ?_⟩
    have hqle := l.stop_le q hq
    apply hframe a (by omega)
    intro s hs
    have := hclear q hq hne s hs
    omega
  have hin : ∀ q ∈ m.live.erase p, q ∈ m.live ∧ q ≠ p := by
    intro q hq
    exact ⟨List.mem_of_mem_erase hq, fun heq => (l.nodup.mem_erase_iff.mp hq).1 heq⟩
  have hmap := map_addr_joinBetween_sublist (segs.takeWhile (·.addr < b.addr)) b
    (segs.dropWhile (·.addr < b.addr))
  refine ⟨⟨h', m.live.erase p⟩, ?_, ⟨insertBlock segs b, ?_⟩, rfl, hkeep⟩
  · rw [HeapState.free, hcode]
    rfl
  · apply l.of_size ⟨h', m.live.erase p⟩ hlist ((hap.insert rfl _).of_map_addr hmap)
      List.erase_sublist
    · intro q hq
      exact l.size_of_keeps (hin q hq).1 (hkeep q (hin q hq).1 (hin q hq).2)
    · intro q hq s hs
      obtain ⟨u, hu, heq⟩ := List.mem_map.mp (hmap.subset (List.mem_map_of_mem hs))
      rw [← heq]
      apply hclear q (hin q hq).1 (hin q hq).2
      rcases List.mem_append.mp hu with hu | hu
      · exact List.mem_cons_of_mem _ ((List.takeWhile_sublist _).subset hu)
      · rcases List.mem_cons.mp hu with rfl | hu
        · exact List.mem_cons_self
        · exact List.mem_cons_of_mem _ ((List.dropWhile_sublist _).subset hu)

/-! ### Fields -/

section Fields

variable {k v : UInt32}

theorem Owns.keep (ho : m.Owns p n) (hk : Keeps m m' p) : m'.Owns p n := by
  have hsize := ho.size_le
  refine ⟨hk.live, ?_⟩
  have hsame : m'.heap.size (header p) = m.heap.size (header p) := by
    apply hk.word _ le_rfl
    rw [Heap.blockStop]
    omega
  rwa [hsame]

/-- A field of a block lies inside it. -/
theorem Sound.field_toNat (hm : m.Sound) (ho : m.Owns p n) (hk : k.toNat + 4 ≤ n) :
    (p + k).toNat = p.toNat + k.toNat ∧ p.toNat = (header p).toNat + 4 ∧
      (p + k).toNat + 4 ≤ m.heap.blockStop p ∧ m.heap.blockStop p ≤ 2 ^ 32 := by
  obtain ⟨segs, l⟩ := hm
  have hptr := l.ptr_toNat ho.live
  have hstop := l.stop_le p ho.live
  have hsize := ho.size_le
  have hadd : (p + k).toNat = p.toNat + k.toNat := by
    rw [Heap.blockStop] at hstop
    rw [UInt32.toNat_add]
    omega
  refine ⟨hadd, hptr, ?_, hstop⟩
  rw [Heap.blockStop, hadd]
  omega

theorem Sound.field_keep (hm : m.Sound) (ho : m.Owns p n) (hk : k.toNat + 4 ≤ n)
    (hkeep : Keeps m m' p) : m'.field p k = m.field p k := by
  obtain ⟨hadd, hptr, hstop, -⟩ := hm.field_toNat ho hk
  exact hkeep.word _ (by omega) hstop

/-- `m'` is `m` after a write to the block at `p`. -/
structure Written (m : HeapState) (p : UInt32) (m' : HeapState) : Prop where
  sound : m'.Sound
  live : m'.live = m.live
  owns : ∀ n, m.Owns p n → m'.Owns p n
  keeps : ∀ q ∈ m.live, q ≠ p → Keeps m m' q

/-- A write that stays inside the data of a block. -/
theorem Sound.written (hm : m.Sound) {h' : Heap} (hp : p ∈ m.live)
    (w : OnlyWrites p.toNat (m.heap.blockStop p) m.heap h') : Written m p ⟨h', m.live⟩ := by
  obtain ⟨segs, l⟩ := hm
  obtain ⟨l', hsize, hkeep⟩ := l.write hp w
  refine ⟨⟨segs, l'⟩, rfl, fun n ho => ⟨ho.live, ?_⟩, hkeep⟩
  show _ ≤ (h'.size (header p)).toNat
  rw [hsize]
  exact ho.size_le

theorem Sound.setField (hm : m.Sound) (ho : m.Owns p n) (hk : k.toNat + 4 ≤ n) :
    Written m p (m.setField p k v) := by
  obtain ⟨hadd, -, hstop, hle⟩ := hm.field_toNat ho hk
  exact hm.written ho.live (onlyWrites_store32 m.heap v (by omega) hstop (by omega))

/-- A store to a block leaves every block in use. -/
theorem Sound.owns_setField (hm : m.Sound) (ho : m.Owns p n) (hk : k.toNat + 4 ≤ n) {n' : ℕ}
    (hq : m.Owns q n') : (m.setField p k v).Owns q n' := by
  have hw : Written m p (m.setField p k v) := hm.setField ho hk
  by_cases hne : q = p
  · rw [hne] at hq ⊢
    exact hw.owns n' hq
  · exact hq.keep (hw.keeps q hq.live hne)

end Fields

/-! ### Structures -/

/-- The block at `p` holds the words `ws`. -/
structure Record (m : HeapState) (p : UInt32) (ws : List UInt32) : Prop where
  owns : m.Owns p (4 * ws.length)
  word : ∀ i w, ws[i]? = some w → m.field p (.ofNat (4 * i)) = w

namespace Record

variable {ws : List UInt32} {k v w : UInt32} {i : ℕ}

/-- The contents of a block are some words. -/
theorem of_owns (n : ℕ) (ho : m.Owns p (4 * n)) :
    Record m p ((List.range n).map fun i => m.field p (.ofNat (4 * i))) := by
  refine ⟨by simpa using ho, fun i w hw => ?_⟩
  rw [List.getElem?_map, Option.map_eq_some_iff] at hw
  obtain ⟨j, hj, rfl⟩ := hw
  obtain ⟨-, rfl⟩ := List.getElem?_eq_some_iff.mp hj
  rw [List.getElem_range]

theorem lt_length (hw : ws[i]? = some w) : i < ws.length := (List.getElem?_eq_some_iff.mp hw).1

/-- Reading a field. -/
theorem field (hr : Record m p ws) (hk : k.toNat = 4 * i) (hw : ws[i]? = some w) :
    m.field p k = w := by
  rw [← hr.word i w hw, ← hk, UInt32.ofNat_toNat]

theorem keep (hr : Record m p ws) (hm : m.Sound) (hk : Keeps m m' p) : Record m' p ws := by
  refine ⟨hr.owns.keep hk, fun i w hw => ?_⟩
  have hi := lt_length hw
  have hsize := hr.owns.size_le
  have hlt := (m.heap.size (header p)).toNat_lt
  rw [hm.field_keep hr.owns _ hk]
  · exact hr.word i w hw
  · rw [UInt32.toNat_ofNat']
    omega

/-- Writing a field. -/
theorem setField (hr : Record m p ws) (hm : m.Sound) (hk : k.toNat = 4 * i) (hi : i < ws.length)
    (v : UInt32) : Record (m.setField p k v) p (ws.set i v) := by
  have hsize := hr.owns.size_le
  have hlt := (m.heap.size (header p)).toNat_lt
  have hkle : k.toNat + 4 ≤ 4 * ws.length := by omega
  refine ⟨?_, fun j w hw => ?_⟩
  · rw [List.length_set]
    exact (hm.setField hr.owns hkle).owns _ hr.owns
  · have hj : j < ws.length := by simpa using lt_length hw
    rw [List.getElem?_set] at hw
    split at hw
    · rename_i hij
      subst hij
      obtain rfl := Option.some.inj hw
      rw [← hk, UInt32.ofNat_toNat]
      exact load32_store32_same ..
    · rename_i hij
      rw [← hr.word j w hw]
      have hoff : (UInt32.ofNat (4 * j)).toNat = 4 * j := by
        rw [UInt32.toNat_ofNat']
        omega
      obtain ⟨hadd, -, hstop, hle⟩ := hm.field_toNat hr.owns hkle
      obtain ⟨hadd', -, hstop', -⟩ := hm.field_toNat hr.owns (k := .ofNat (4 * j)) (by omega)
      apply load32_store32_of_apart
      rw [Apart]
      omega

end Record

/-! ### A heap with nothing freed -/

/-- There is one free segment, with `room` bytes or more, and the blocks in use are above it. -/
structure Fresh (m : HeapState) (room : ℕ) (s : FreeSegment) : Prop where
  layout : m.Layout [s]
  stop_le : s.stop ≤ 2 ^ 32
  room_le : room ≤ s.size.toNat
  above : ∀ p ∈ m.live, s.stop ≤ (header p).toNat

namespace Fresh

variable {room : ℕ} {s : FreeSegment} {size k v : UInt32}

theorem serves (h : Fresh m room s) (hpos : size ≠ 0) (hlt : size.toNat < 2 ^ 31)
    (hroom : size.toNat + 11 ≤ room) : m.Serves size [] s [] where
  freeList := h.layout.freeList
  skips := fun _ ht => absurd ht List.not_mem_nil
  fits := by
    apply (fits_iff (h.layout.freeList.size s (by simp)) h.stop_le
      (validRequest_malloc hpos hlt)).mpr
    have hmod : (s.stop + 2 ^ 32 - size.toNat) % (8 : UInt32).toNat < 8 := Nat.mod_lt _ (by decide)
    have := h.room_le
    rw [FreeSegment.Fits, FreeSegment.need]
    omega
  stop_le := h.stop_le
  segments := fun _ ht => absurd ht List.not_mem_nil
  blocks := fun p hp => .inr (h.above p hp)

/-- As long as nothing was freed, the block that `malloc` hands out is clear. -/
theorem clear (h : Fresh m room s) (hpos : size ≠ 0) (hlt : size.toNat < 2 ^ 31)
    (hroom : size.toNat + 11 ≤ room) : m.Clear size := ⟨[], s, [], h.serves hpos hlt hroom⟩

theorem malloc (h : Fresh m room s) (hlow : 4 ≤ size.toNat) (hlt : size.toNat < 2 ^ 31)
    (hroom : size.toNat + 11 < room) (hcode : m.malloc size = some (m', p)) :
    ∃ s', Fresh m' (room - (size.toNat + 11)) s' := by
  have hne : size ≠ 0 := by
    rintro rfl
    exact absurd hlow (by decide)
  have hsize := h.layout.freeList.size s (by simp)
  have hv := h.serves hne hlt hroom.le
  have hfit : s.Fits size 8 := (fits_iff hsize h.stop_le (validRequest_malloc hne hlt)).mp hv.fits
  obtain ⟨m₁, q, hcode', hg, l, hend⟩ := hv.malloc h.layout hlow hlt
  obtain ⟨rfl, rfl⟩ := Prod.mk.inj (Option.some.inj (hcode.symm.trans hcode'))
  have hfull := fullAllocSize_toNat hsize (validRequest_malloc hne hlt).powerOfTwo hfit
  have hmod : (s.stop + 2 ^ 32 - size.toNat) % (8 : UInt32).toNat < 8 := Nat.mod_lt _ (by decide)
  have hle := h.room_le
  rw [FreeSegment.need] at hfull
  -- the block comes off the end of the segment, so what is left is still below every block
  have hsub : (s.size - UInt32.ofNat (fullAllocSize m.heap size 8 s.addr).toNat).toNat
      = s.size.toNat - (fullAllocSize m.heap size 8 s.addr).toNat := by
    rw [UInt32.ofNat_toNat, UInt32.toNat_sub_of_le]
    rw [UInt32.le_iff_toNat_le]
    omega
  rw [FreeSegment.shrink, if_neg (by omega)] at l
  generalize (fullAllocSize m.heap size 8 s.addr).toNat = full at *
  have hstop : (FreeSegment.mk s.addr (s.size - UInt32.ofNat full)).stop = s.stop - full := by
    rw [FreeSegment.stop, FreeSegment.stop]
    dsimp only
    omega
  have hstop' := h.stop_le
  refine ⟨_, l, ?_, ?_, ?_⟩
  · show (FreeSegment.mk _ _).stop ≤ _
    rw [hstop]
    omega
  · show _ ≤ (s.size - UInt32.ofNat full).toNat
    omega
  · rw [hg.live]
    show ∀ r ∈ _, (FreeSegment.mk _ _).stop ≤ _
    rw [hstop]
    refine List.forall_mem_cons.mpr ⟨by omega, fun r hr => ?_⟩
    have := h.above r hr
    omega

theorem setField (h : Fresh m room s) (ho : m.Owns p n) (hk : k.toNat + 4 ≤ n) (v : UInt32) :
    Fresh (m.setField p k v) room s := by
  obtain ⟨hadd, -, hstop, hle⟩ := Sound.field_toNat ⟨_, h.layout⟩ ho hk
  obtain ⟨l, -, -⟩ := h.layout.write ho.live
    (onlyWrites_store32 m.heap v (by omega) hstop (by omega))
  exact ⟨l, h.stop_le, h.room_le, h.above⟩

end Fresh

end HeapState

/-- A heap of one free segment, with nothing in use. -/
def emptyMemory : HeapState := ⟨(⟨fun _ => 0, 4096⟩ : Heap).setSize 4096 1000, []⟩

theorem fresh_emptyMemory : HeapState.Fresh emptyMemory 1000 ⟨4096, 1000⟩ := by
  refine ⟨⟨?_, ⟨?_, List.pairwise_singleton _ _⟩, ?_, ?_, ?_, List.Pairwise.nil, ?_⟩, ?_, ?_, ?_⟩
  · decide +kernel
  all_goals simp [emptyMemory, FreeSegment.stop]

end Shogun.Memory
