import Shogun.Memory.Equiv.Drift
import Shogun.Memory.Equiv.HeapRun
import Shogun.Memory.Equiv.Oversized

/-!
# The blocks of a client

What a client sees that allocates from a single free segment, writes to its blocks and frees them in
any order.

* `OnlyWrites`: the writes of a client to a part of memory; they leave the headers elsewhere alone.
* `malloc_room`: a block from a segment with room for it.
* `free_block`: freeing a block, with what is left alone.
* `insertBlock_split`: where it goes in the list.
-/

namespace Shogun.Memory

open ByteMemory

/-! ### Writes -/

/-- `h'` is `h` after writes to bytes from `lo` on and below `hi`. -/
structure OnlyWrites (lo hi : ℕ) (h h' : Heap) : Prop where
  firstFree : h'.firstFree = h.firstFree
  byte : ∀ a : UInt32, a.toNat < lo ∨ hi ≤ a.toNat → h'.mem a = h.mem a

namespace OnlyWrites

variable {lo hi : ℕ} {h h' h'' : Heap} {segs : List FreeSegment} {a : UInt32}

theorem refl (lo hi : ℕ) (h : Heap) : OnlyWrites lo hi h h := ⟨rfl, fun _ _ => rfl⟩

theorem trans (w : OnlyWrites lo hi h h') (w' : OnlyWrites lo hi h' h'') :
    OnlyWrites lo hi h h'' :=
  ⟨w'.firstFree.trans w.firstFree, fun a ha => (w'.byte a ha).trans (w.byte a ha)⟩

theorem load32 (w : OnlyWrites lo hi h h') (hle : a.toNat + 4 ≤ 2 ^ 32)
    (ha : a.toNat + 4 ≤ lo ∨ hi ≤ a.toNat) : h'.mem.load32 a = h.mem.load32 a := by
  apply load32_congr
  intro i hlt
  apply w.byte
  rw [UInt32.toNat_add, UInt32.toNat_ofNat']
  omega

theorem freeList (w : OnlyWrites lo hi h h') (hs : h.FreeList segs)
    (hle : ∀ s ∈ segs, s.addr.toNat + 8 ≤ 2 ^ 32)
    (hout : ∀ s ∈ segs, s.addr.toNat + 8 ≤ lo ∨ hi ≤ s.addr.toNat) : h'.FreeList segs := by
  apply hs.frame w.firstFree
  · intro s hmem
    have := hout s hmem
    have := hle s hmem
    exact w.load32 (by omega) (by omega)
  · intro s hmem
    have := hout s hmem
    have := hle s hmem
    have hnext := FreeSegment.addr_add_four_toNat this
    apply w.load32 <;> rw [hnext] <;> omega

end OnlyWrites

theorem onlyWrites_store32 {lo hi : ℕ} (h : Heap) {a : UInt32} (v : UInt32) (hlo : lo ≤ a.toNat)
    (hhi : a.toNat + 4 ≤ hi) (hle : a.toNat + 4 ≤ 2 ^ 32) :
    OnlyWrites lo hi h { h with mem := h.mem.store32 a v } := by
  refine ⟨rfl, fun b hb => store32_apply_of_le _ _ ?_⟩
  have := a.toNat_lt
  have := b.toNat_lt
  rw [UInt32.toNat_sub]
  omega

theorem onlyWrites_store8 {lo hi : ℕ} (h : Heap) {a : UInt32} (v : UInt8) (hlo : lo ≤ a.toNat)
    (hhi : a.toNat < hi) : OnlyWrites lo hi h { h with mem := h.mem.store8 a v } := by
  refine ⟨rfl, fun b hb => if_neg ?_⟩
  rintro rfl
  omega

/-! ### Allocating -/

/-- The header of the block at `p`. -/
def header (p : UInt32) : UInt32 := p - sizeofUsedSegment

/-- A request for which the segment has room: the block is the end of it. -/
theorem malloc_room {h : Heap} {s : FreeSegment} (size : UInt32) (hlist : h.FreeList [s])
    (hstop : s.stop ≤ 2 ^ 32) (hpos : size ≠ 0) (hlt : size.toNat < 2 ^ 31)
    (hroom : size.toNat + 12 ≤ s.size.toNat) :
    ∃ h' t p, malloc h size = some (h', p) ∧ p.toNat = (header p).toNat + 4 ∧ h'.FreeList [t] ∧
      t.addr = s.addr ∧ t.stop = (header p).toNat ∧
      (header p).toNat + (h'.size (header p)).toNat = s.stop ∧
      size.toNat + 4 ≤ (h'.size (header p)).toNat ∧
      (h'.size (header p)).toNat ≤ size.toNat + 11 ∧ (header p).toNat % 8 = 4 ∧
      ∀ a : UInt32, s.stop ≤ a.toNat → a.toNat + 4 ≤ 2 ^ 32 →
        h'.mem.load32 a = h.mem.load32 a := by
  obtain ⟨hlow, hhigh⟩ := s.need_bounds size (validRequest_malloc hpos hlt).powerOfTwo
  have height : (8 : UInt32).toNat = 8 := rfl
  have hfits : s.Fits size 8 := by
    show s.need size 8 ≤ s.size.toNat
    omega
  rcases malloc_single hlist hstop hlt with ⟨hno, -⟩ | ⟨h', p, hcode, hp, hcarved⟩
  · exact absurd hfits (hno.resolve_left hpos)
  · have hheader : (header p).toNat = s.stop - s.need size 8 := hcarved.header_toNat
    have hused : (h'.size (header p)).toNat = s.need size 8 := hcarved.used_size
    have hptr := hcarved.ptr_toNat
    have hneed := hcarved.lt_header
    have hdvd := hcarved.alignment_dvd
    rw [height] at hdvd
    have hsize : s.stop = s.addr.toNat + 8 + s.size.toNat := rfl
    rcases shrink_cases hcarved with hnil | ⟨t, hlist', haddr, htstop⟩
    · -- the block would be the whole data area
      have hlen := hnil.unique hcarved.freeList
      rw [List.nil_append, List.append_nil, FreeSegment.shrink, if_neg (by omega)] at hlen
      exact absurd hlen (by simp)
    · refine ⟨h', t, p, hcode, by omega, hlist', haddr, by omega, by omega, by omega, by omega,
        by omega, ?_⟩
      intro a ha hle
      apply hcarved.frame a hle
      intro u hu
      rw [List.nil_append, List.mem_singleton] at hu
      rw [hu]
      exact .inr ha

/-! ### Freeing -/

/-- The free segment that the block at `p` becomes. -/
def segmentOf (h : Heap) (p : UInt32) : FreeSegment := freedSegment (header p) (h.size (header p))

/-- Freeing a block that overlaps no header of the list.  The headers of the list, and that of the
block, are all that changes. -/
theorem free_block {h : Heap} {segs : List FreeSegment} {p : UInt32} (hs : h.FreeList segs)
    (hpos : 0 < (header p).toNat) (hle : (header p).toNat + 8 ≤ 2 ^ 32) (hap : HeadersApart segs)
    (hout : ∀ s ∈ segs, s.addr.toNat + 8 ≤ (header p).toNat ∨
      (header p).toNat + 8 ≤ s.addr.toNat) :
    ∃ h', free h p = some h' ∧ h'.FreeList (insertBlock segs (segmentOf h p)) ∧
      ∀ a : UInt32, a.toNat + 4 ≤ 2 ^ 32 →
        (∀ s ∈ segmentOf h p :: segs, a.toNat + 4 ≤ s.addr.toNat ∨ s.addr.toNat + 8 ≤ a.toNat) →
        h'.mem.load32 a = h.mem.load32 a := by
  have hap' : HeadersApart (segmentOf h p :: segs) := by
    refine ⟨List.forall_mem_cons.mpr ⟨hle, hap.le⟩, List.pairwise_cons.mpr ⟨?_, hap.apart⟩⟩
    intro s hmem
    exact (hout s hmem).symm
  have hb0 : header p ≠ 0 := by
    intro hzero
    rw [hzero] at hpos
    exact absurd hpos (by decide)
  -- a word that is not in a header is apart from its fields
  have hfields : ∀ s ∈ segmentOf h p :: segs, ∀ a : UInt32, a.toNat + 4 ≤ 2 ^ 32 →
      a.toNat + 4 ≤ s.addr.toNat ∨ s.addr.toNat + 8 ≤ a.toNat →
      Apart s.addr a ∧ Apart (s.addr + 4) a := by
    intro s hmem a ha hsa
    have hsle := hap'.le s hmem
    rw [Apart, Apart, FreeSegment.addr_add_four_toNat hsle]
    omega
  obtain ⟨h', hcode, hlist, hframe⟩ := deallocate_spec hs hap' hb0
  rw [header, sub_add_cancel] at hcode
  refine ⟨h', hcode, hlist, ?_⟩
  intro a ha hsegs
  obtain ⟨h1, h2⟩ := hfields _ List.mem_cons_self a ha (hsegs _ List.mem_cons_self)
  refine hframe a h1 h2 fun s hmem _ => ?_
  have hmem' := List.mem_cons_of_mem (segmentOf h p) hmem
  exact hfields s hmem' a ha (hsegs s hmem')

/-! ### The place of a freed block -/

theorem insertBlock_split {pre post : List FreeSegment} {s : FreeSegment}
    (hpre : ∀ u ∈ pre, u.addr < s.addr) (hpost : ∀ u ∈ post, ¬ u.addr < s.addr) :
    insertBlock (pre ++ post) s = joinBetween pre s post := by
  have hpre' : ∀ u ∈ pre, decide (u.addr < s.addr) = true := by simpa using hpre
  have hnone : post.takeWhile (fun u => decide (u.addr < s.addr)) = [] ∧
      post.dropWhile (fun u => decide (u.addr < s.addr)) = post := by
    cases post with
    | nil => exact ⟨rfl, rfl⟩
    | cons u post =>
      have hu := hpost u List.mem_cons_self
      simp [hu]
  rw [insertBlock, List.takeWhile_append_of_pos hpre', List.dropWhile_append_of_pos hpre',
    hnone.1, hnone.2, List.append_nil]

/-- The end of a segment as the code computes it. -/
theorem toNat_segmentEnd (s : FreeSegment) :
    (s.addr + sizeofFreeSegment + s.size).toNat = s.stop % 2 ^ 32 := by
  rw [UInt32.toNat_add, UInt32.toNat_add]
  show ((s.addr.toNat + 8) % 2 ^ 32 + s.size.toNat) % 2 ^ 32 = _
  rw [FreeSegment.stop]
  omega

/-- A segment is not joined with one that it does not touch. -/
theorem join_of_ne {s t : FreeSegment} (rest : List FreeSegment) (hstop : s.stop ≤ 2 ^ 32)
    (ht : 0 < t.addr.toNat) (hne : s.stop ≠ t.addr.toNat) :
    join s (t :: rest) = s :: t :: rest := by
  rw [join, if_neg]
  intro heq
  have hnat := congrArg UInt32.toNat heq
  rw [toNat_segmentEnd] at hnat
  have := t.addr.toNat_lt
  omega

theorem join_of_stop_eq {s t : FreeSegment} (rest : List FreeSegment)
    (heq : s.stop = t.addr.toNat) :
    join s (t :: rest) = { s with size := s.size + sizeofFreeSegment + t.size } :: rest := by
  rw [join, if_pos]
  apply UInt32.toNat_inj.mp
  rw [toNat_segmentEnd, heq]
  exact (Nat.mod_eq_of_lt t.addr.toNat_lt).symm

/-- Nothing is joined where nothing touches. -/
theorem joinBetween_of_ne {pre post : List FreeSegment} {s : FreeSegment}
    (hpost : join s post = s :: post) (hpre : ∀ u ∈ pre, join u (s :: post) = u :: s :: post) :
    joinBetween pre s post = pre ++ s :: post := by
  rcases List.eq_nil_or_concat pre with rfl | ⟨init, u, rfl⟩
  · exact hpost
  · rw [List.concat_eq_append] at hpre ⊢
    have hu := hpre u (List.mem_append_right _ (List.mem_singleton_self u))
    simp [joinBetween, hpost, hu]

end Shogun.Memory
