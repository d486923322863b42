import Mathlib.Data.List.TakeWhile
import Shogun.Memory.Equiv.Deallocate
import Shogun.Memory.Equiv.FirstFit

/-!
# The free list stays in address order

`freeList_sorted`: from a free list in strictly increasing address order, `deallocate` of a block
that is apart from it returns and leaves such a list, with the block's address as the only new one
and every segment but the block's two neighbours as it was; `allocate` leaves such a list too,
whatever its arguments.

Order alone is not enough for this.  The lists live in memory, so the headers of the segments must
not overlap or wrap for `deallocate`, and the extents must not for `allocate`, which writes into the
data areas (`freeList_unsorted`).
-/

namespace Shogun.Memory

open LinkedList ByteMemory

/-- The addresses increase strictly. -/
def AddressSorted (segs : List FreeSegment) : Prop := segs.Pairwise fun s t => s.addr < t.addr

instance (segs : List FreeSegment) : Decidable (AddressSorted segs) :=
  inferInstanceAs (Decidable (List.Pairwise _ _))

/-- A block with header `b` and the recorded size at `b`, as `allocate` made it: it has room for a
free header, does not wrap and shares no byte with a free segment.  Its header is past that of the
segment it was carved from, so it is not at address `0`. -/
structure LiveBlock (h : Heap) (segs : List FreeSegment) (b : UInt32) : Prop where
  ne_zero : b ≠ 0
  size_le : 8 ≤ (h.size b).toNat
  stop_le : b.toNat + (h.size b).toNat ≤ 2 ^ 32
  disjoint : ∀ s ∈ segs, Disjoint (Set.Ico b.toNat (b.toNat + (h.size b).toNat)) s.extent

variable {h h' : Heap} {segs segs' pre post rest : List FreeSegment} {s t : FreeSegment}
  {b size alignment p : UInt32}

namespace LiveBlock

theorem of_apart (hb : b ≠ 0) (h8 : 8 ≤ (h.size b).toNat)
    (hle : b.toNat + (h.size b).toNat ≤ 2 ^ 32)
    (hap : ∀ s ∈ segs, b.toNat + (h.size b).toNat ≤ s.addr.toNat ∨ s.stop ≤ b.toNat) :
    LiveBlock h segs b := by
  refine ⟨hb, h8, hle, fun s hs => ?_⟩
  have := hap s hs
  rw [FreeSegment.extent, Set.Ico_disjoint_Ico]
  omega

theorem apart (l : LiveBlock h segs b) (hs : s ∈ segs) :
    b.toNat + (h.size b).toNat ≤ s.addr.toNat ∨ s.stop ≤ b.toNat := by
  have hd := l.disjoint s hs
  have h8 := l.size_le
  have hle := s.addr_add_le_stop
  rw [FreeSegment.extent, Set.Ico_disjoint_Ico] at hd
  omega

theorem addr_ne (l : LiveBlock h segs b) (hs : s ∈ segs) : s.addr ≠ b := by
  rintro rfl
  have := l.apart hs
  have := l.size_le
  have := s.addr_add_le_stop
  omega

theorem headersApart (l : LiveBlock h segs b) (hap : HeadersApart segs) :
    HeadersApart (freedSegment b (h.size b) :: segs) := by
  have h8 := l.size_le
  have hle := l.stop_le
  refine ⟨List.forall_mem_cons.mpr ⟨?_, hap.le⟩, List.pairwise_cons.mpr ⟨fun s hs => ?_, hap.apart⟩⟩
  · show b.toNat + 8 ≤ 2 ^ 32
    omega
  · show b.toNat + 8 ≤ s.addr.toNat ∨ s.addr.toNat + 8 ≤ b.toNat
    have := l.apart hs
    have := s.addr_add_le_stop
    omega

end LiveBlock

/-- A block just carved is live for the segments that remain, if it has eight bytes. -/
theorem Carved.liveBlock (c : Carved h h' pre s post size alignment p)
    (hwf : WellFormed (pre ++ s :: post)) (h8 : 8 ≤ s.need size alignment) :
    LiveBlock h' (pre ++ s.shrink (s.need size alignment) ++ post) (p - sizeofUsedSegment) := by
  have hlo := c.lt_header
  have hhdr := c.header_toNat
  have hstop := hwf.stop_le s (by simp)
  apply LiveBlock.of_apart
  · intro h0
    rw [h0] at hhdr
    exact absurd hhdr (by show 0 ≠ _; omega)
  · rwa [c.used_size]
  · rw [c.used_size, hhdr]
    omega
  · intro t ht
    have := c.apart_of_mem hwf ht
    rw [c.used_size, hhdr]
    omega

/-! ### Order -/

namespace AddressSorted

/-- Only the addresses matter. -/
theorem of_map_addr (hs : AddressSorted segs)
    (hm : (segs'.map FreeSegment.addr).Sublist (segs.map FreeSegment.addr)) :
    AddressSorted segs' :=
  List.pairwise_map.mp ((List.pairwise_map.mpr hs : (segs.map _).Pairwise (· < ·)).sublist hm)

/-- Past the first segment that is not below `b`, none is. -/
theorem le_of_mem_dropWhile (hs : AddressSorted segs)
    (ht : t ∈ segs.dropWhile (·.addr < b)) : b ≤ t.addr := by
  induction segs with
  | nil => simp at ht
  | cons s segs ih =>
    obtain ⟨hlt, hs⟩ := List.pairwise_cons.mp hs
    by_cases hsb : s.addr < b
    · rw [List.dropWhile_cons_of_pos (by simpa using hsb)] at ht
      exact ih hs ht
    · rw [List.dropWhile_cons_of_neg (by simpa using hsb)] at ht
      rcases List.mem_cons.mp ht with rfl | ht
      · exact UInt32.not_lt.mp hsb
      · exact UInt32.le_trans (UInt32.not_lt.mp hsb) (UInt32.le_of_lt (hlt t ht))

theorem lt_of_mem_takeWhile (ht : t ∈ segs.takeWhile (·.addr < b)) : t.addr < b := by
  simpa using List.mem_takeWhile_imp ht

/-- A segment put in its place keeps the order. -/
theorem insert (hs : AddressSorted segs) (hne : ∀ t ∈ segs, t.addr ≠ s.addr) :
    AddressSorted
      (segs.takeWhile (·.addr < s.addr) ++ s :: segs.dropWhile (·.addr < s.addr)) := by
  refine List.pairwise_append.mpr ⟨hs.sublist (List.takeWhile_sublist _),
    List.pairwise_cons.mpr ⟨fun t ht => ?_, hs.sublist (List.dropWhile_sublist _)⟩, ?_⟩
  · have hmem : t ∈ segs := (List.dropWhile_sublist _).subset ht
    exact UInt32.lt_of_le_of_ne (hs.le_of_mem_dropWhile ht) (hne t hmem).symm
  · intro t ht u hu
    have htlt : t.addr < s.addr := lt_of_mem_takeWhile ht
    rcases List.mem_cons.mp hu with rfl | hu
    · exact htlt
    · exact UInt32.lt_of_lt_of_le htlt (hs.le_of_mem_dropWhile hu)

end AddressSorted

theorem map_addr_joinBetween_sublist (pre : List FreeSegment) (s : FreeSegment)
    (post : List FreeSegment) :
    ((joinBetween pre s post).map FreeSegment.addr).Sublist
      ((pre ++ s :: post).map FreeSegment.addr) := by
  rcases List.eq_nil_or_concat pre with rfl | ⟨init, t, rfl⟩
  · exact map_addr_join_sublist s post
  · rw [List.concat_eq_append, joinBetween, List.getLast?_concat, List.dropLast_concat,
      List.append_assoc, List.singleton_append, List.map_append, List.map_append, List.map_cons]
    refine List.Sublist.append_left ((map_addr_join_sublist t _).trans ?_) _
    exact (map_addr_join_sublist s post).cons_cons _

/-- Joining takes away at most the first of the segments behind. -/
theorem tail_subset_tail_join (s : FreeSegment) (rest : List FreeSegment) :
    rest.tail ⊆ (join s rest).tail := by
  cases rest with
  | nil => simp
  | cons t rest =>
    rw [join]
    split_ifs
    · exact List.Subset.refl _
    · exact List.subset_cons_self _ _

theorem mem_joinBetween (ht : t ∈ pre.dropLast ∨ t ∈ post.tail) : t ∈ joinBetween pre s post := by
  rcases List.eq_nil_or_concat pre with rfl | ⟨init, u, rfl⟩
  · exact List.mem_of_mem_tail (tail_subset_tail_join s post (ht.resolve_left (by simp)))
  · rw [List.concat_eq_append] at *
    rw [joinBetween, List.getLast?_concat, List.dropLast_concat]
    rw [List.dropLast_concat] at ht
    rcases ht with ht | ht
    · exact List.mem_append_left _ ht
    · refine List.mem_append_right _ (List.mem_of_mem_tail (tail_subset_tail_join u _ ?_))
      exact tail_subset_tail_join s post ht

namespace AddressSorted

variable {u v : FreeSegment}

theorem mem_takeWhile (hs : AddressSorted segs) (hu : u ∈ segs) (hub : u.addr < b) :
    u ∈ segs.takeWhile (·.addr < b) := by
  rw [← List.takeWhile_append_dropWhile (p := (·.addr < b)) (l := segs)] at hu
  apply (List.mem_append.mp hu).resolve_right
  intro hu'
  exact UInt32.not_lt.mpr (hs.le_of_mem_dropWhile hu') hub

theorem mem_dropWhile (hu : u ∈ segs) (hbu : b < u.addr) : u ∈ segs.dropWhile (·.addr < b) := by
  rw [← List.takeWhile_append_dropWhile (p := (·.addr < b)) (l := segs)] at hu
  apply (List.mem_append.mp hu).resolve_left
  intro hu'
  exact UInt32.lt_asymm (lt_of_mem_takeWhile hu') hbu

/-- Every segment below `b` is the last one or below it. -/
theorem le_last (hs : AddressSorted segs)
    (hlast : (segs.takeWhile (·.addr < b)).getLast? = some v) (hu : u ∈ segs)
    (hub : u.addr < b) : u.addr ≤ v.addr := by
  obtain ⟨init, hcat⟩ := List.getLast?_eq_some_iff.mp hlast
  have hpre : AddressSorted (segs.takeWhile (·.addr < b)) :=
    hs.sublist (List.takeWhile_sublist _)
  have hu' := hs.mem_takeWhile hu hub
  rw [hcat] at hpre hu'
  rcases List.mem_append.mp hu' with hu' | hu'
  · exact UInt32.le_of_lt ((List.pairwise_append.mp hpre).2.2 u hu' v (by simp))
  · rw [List.mem_singleton.mp hu']
    exact UInt32.le_refl _

/-- Every segment above `b` is the first one or above it. -/
theorem head_le (hs : AddressSorted segs)
    (hcons : segs.dropWhile (·.addr < b) = v :: rest) (hu : u ∈ segs) (hbu : b < u.addr) :
    v.addr ≤ u.addr := by
  have hpost : AddressSorted (segs.dropWhile (·.addr < b)) :=
    hs.sublist (List.dropWhile_sublist _)
  have hu' := mem_dropWhile hu hbu
  rw [hcons] at hpost hu'
  rcases List.mem_cons.mp hu' with rfl | hu'
  · exact UInt32.le_refl _
  · exact UInt32.le_of_lt ((List.pairwise_cons.mp hpost).1 u hu')

/-- A segment with another one between it and `b` is not the one in front of `b`. -/
theorem ne_last (hs : AddressSorted segs)
    (hlast : (segs.takeWhile (·.addr < b)).getLast? = some v)
    (hb : (∃ u ∈ segs, t.addr < u.addr ∧ u.addr < b) ∨
      ∃ u ∈ segs, b < u.addr ∧ u.addr < t.addr) : v ≠ t := by
  rintro rfl
  rcases hb with ⟨u, hu, hvu, hub⟩ | ⟨u, hu, hbu, huv⟩
  · exact UInt32.not_lt.mpr (hs.le_last hlast hu hub) hvu
  · have hvb : v.addr < b := lt_of_mem_takeWhile (List.mem_of_getLast? hlast)
    exact UInt32.lt_asymm hvb (UInt32.lt_trans hbu huv)

/-- Nor is it the one behind `b`: the code keeps it. -/
theorem mem_of_between (hs : AddressSorted segs) (ht : t ∈ segs)
    (hb : (∃ u ∈ segs, t.addr < u.addr ∧ u.addr < b) ∨
      ∃ u ∈ segs, b < u.addr ∧ u.addr < t.addr) :
    t ∈ (segs.takeWhile (·.addr < b)).dropLast ∨ t ∈ (segs.dropWhile (·.addr < b)).tail := by
  rcases hb with ⟨u, hu, htu, hub⟩ | ⟨u, hu, hbu, hut⟩
  · left
    have ht' := hs.mem_takeWhile ht (UInt32.lt_trans htu hub)
    apply List.mem_dropLast_of_mem_of_ne_getLast? ht'
    intro hlast
    exact hs.ne_last hlast.symm (.inl ⟨u, hu, htu, hub⟩) rfl
  · right
    have ht' := mem_dropWhile ht (UInt32.lt_trans hbu hut)
    cases hcons : segs.dropWhile (·.addr < b) with
    | nil =>
      rw [hcons] at ht'
      exact absurd ht' List.not_mem_nil
    | cons v rest =>
      have hle := hs.head_le hcons hu hbu
      rw [hcons] at ht'
      apply (List.mem_cons.mp ht').resolve_left
      rintro rfl
      exact UInt32.not_lt.mpr hle hut

end AddressSorted

/-! ### `deallocate` -/

/-- What `deallocate` leaves of a list in address order. -/
theorem deallocate_sorted (hlist : h.FreeList segs) (hsorted : AddressSorted segs)
    (hap : HeadersApart segs) (l : LiveBlock h segs b) :
    ∃ h' segs', deallocate h (b + sizeofUsedSegment) = some h' ∧ h'.FreeList segs' ∧
      AddressSorted segs' ∧ (∀ t ∈ segs', t.addr = b ∨ ∃ u ∈ segs, u.addr = t.addr) ∧
      ∀ t ∈ segs, ((∃ u ∈ segs, t.addr < u.addr ∧ u.addr < b) ∨
          ∃ u ∈ segs, b < u.addr ∧ u.addr < t.addr) →
        t ∈ segs' ∧ h'.nextSegment t.addr = h.nextSegment t.addr := by
  have hap' := l.headersApart hap
  obtain ⟨h', hcode, hlist', hframe⟩ := deallocate_spec hlist hap' l.ne_zero
  set s := freedSegment b (h.size b) with hsdef
  have haddr := map_addr_joinBetween_sublist (segs.takeWhile (·.addr < b)) s
    (segs.dropWhile (·.addr < b))
  refine ⟨h', _, hcode, hlist', ?_, ?_, ?_⟩
  · exact (hsorted.insert (s := s) fun t ht => l.addr_ne ht).of_map_addr haddr
  · intro t ht
    obtain ⟨u, hu, hut⟩ := List.mem_map.mp (haddr.subset (List.mem_map_of_mem ht))
    rcases List.mem_append.mp hu with hu | hu
    · exact .inr ⟨u, (List.takeWhile_sublist _).subset hu, hut⟩
    · rcases List.mem_cons.mp hu with rfl | hu
      · exact .inl hut.symm
      · exact .inr ⟨u, (List.dropWhile_sublist _).subset hu, hut⟩
  · intro t ht hb
    have hkept := hsorted.mem_of_between ht hb
    refine ⟨mem_joinBetween hkept, ?_⟩
    -- the link of `t` is apart from the header of the block and of the segment in front of it
    have hst : s ≠ t := by
      rintro rfl
      exact l.addr_ne ht rfl
    apply hframe
    · exact (hap'.next_apart_size (s := t) (t := s) (by simp [ht]) (by simp)).symm
    · exact hap'.next_apart_next (s := s) (by simp) (by simp [ht]) hst
    · intro u hu hlast
      have hut := hsorted.ne_last hlast hb
      exact ⟨(hap.next_apart_size ht hu).symm, hap.next_apart_next hu ht hut⟩

/-! ### `allocate` -/

/-- Recording the size of a block at the end of `s` may change the `size` of the segment that
follows, when `need` wraps, but never a link. -/
theorem nextSegment_record (hlist : h.FreeList segs) (hwf : WellFormed segs) (hs : s ∈ segs)
    (hf : fits h size alignment s.addr) (ht : t ∈ segs) :
    (h.setSize (headerPtr h size alignment s.addr)
      (fullAllocSize h size alignment s.addr)).nextSegment t.addr = h.nextSegment t.addr := by
  have hheader := headerPtr_toNat_of_fits (hlist.size s hs) (hwf.stop_le s hs) hf
  have hle := ((fits_iff_fullAllocSize (hlist.size s hs) (hwf.stop_le s hs)).mp hf).1
  have hlt := (headerPtr h size alignment s.addr).toNat_lt
  have hs' : s.stop = s.addr.toNat + 8 + s.size.toNat := rfl
  have h2 := hwf.stop_le t ht
  have h3 := t.addr_add_le_stop
  have hdist : 4 ≤ (t.addr + 4 - headerPtr h size alignment s.addr).toNat ∧
      (t.addr + 4 - headerPtr h size alignment s.addr).toNat ≤ 2 ^ 32 - 4 := by
    rw [UInt32.toNat_sub, FreeSegment.addr_add_four_toNat (h3.trans h2)]
    by_cases hst : s = t
    · subst hst
      omega
    · have := hwf.apart hs ht hst
      omega
  exact load32_store32_of_sub _ _ hdist.1 hdist.2

/-- The list as it stands in `h'`, when the links are those of `h`. -/
theorem Heap.FreeList.reread (hlist : h.FreeList segs) (hfirst : h'.firstFree = h.firstFree)
    (hnext : ∀ t ∈ segs, h'.nextSegment t.addr = h.nextSegment t.addr) :
    h'.FreeList (segs.map fun t => ⟨t.addr, h'.size t.addr⟩) := by
  constructor
  · rw [List.map_map]
    show Chain h'.links.next (ptr? h'.firstFree) (segs.map FreeSegment.addr) none
    rw [hfirst]
    apply Chain.frame hlist.links
    intro a ha
    obtain ⟨t, ht, rfl⟩ := List.mem_map.mp ha
    exact congrArg ptr? (hnext t ht)
  · intro u hu
    obtain ⟨t, ht, rfl⟩ := List.mem_map.mp hu
    rfl

theorem allocate_sorted (hlist : h.FreeList segs) (hsorted : AddressSorted segs)
    (hwf : WellFormed segs) (size alignment : UInt32) :
    ∃ h' p segs', allocate h size alignment = some (h', p) ∧ h'.FreeList segs' ∧
      AddressSorted segs' := by
  by_cases hsize : size = 0
  · exact ⟨h, 0, segs, by rw [allocate, if_pos hsize], hlist, hsorted⟩
  rcases allocate_cases hlist hsize alignment with
    ⟨-, heq⟩ | ⟨pre, s, post, rfl, -, hf, heq⟩
  · exact ⟨h, 0, segs, heq, hlist, hsorted⟩
  · -- the list with the sizes that stand in its headers once the block's size is recorded
    set h₁ := h.setSize (headerPtr h size alignment s.addr)
      (fullAllocSize h size alignment s.addr) with hh₁
    set g : FreeSegment → FreeSegment := fun t => ⟨t.addr, h₁.size t.addr⟩ with hg
    have hlist₁ : h₁.FreeList (pre.map g ++ g s :: post.map g) := by
      have hre : h₁.FreeList ((pre ++ s :: post).map g) := hlist.reread rfl
        fun t ht => nextSegment_record hlist hwf (by simp) hf ht
      rwa [List.map_append, List.map_cons] at hre
    have haddr : (pre.map g ++ g s :: post.map g).map FreeSegment.addr
        = (pre ++ s :: post).map FreeSegment.addr := by
      simp [hg, Function.comp_def]
    have hlast : Heap.lastAddr (pre.map g) = Heap.lastAddr pre := by
      simp [Heap.lastAddr, hg, Function.comp_def]
    have hcarve := carve_freeList (s := g s) hlist₁
      (hwf.headersApart.of_map_addr (by rw [haddr]))
    rw [hlast] at hcarve
    refine ⟨_, _, _, heq, hcarve, hsorted.of_map_addr ?_⟩
    rw [← haddr]
    exact FreeSegment.map_addr_shrink_sublist _ _ _ _

/-- **The free list stays in address order.**  `deallocate` of a block apart from the list returns;
the new list is in order, its addresses are old ones or the block's, and every segment but the
block's neighbours is unchanged, if headers do not overlap or wrap.  `allocate` keeps the order if
extents do not overlap or wrap. -/
theorem freeList_sorted (hlist : h.FreeList segs) (hsorted : AddressSorted segs) :
    (∀ b, HeadersApart segs → LiveBlock h segs b →
      ∃ h' segs', deallocate h (b + sizeofUsedSegment) = some h' ∧ h'.FreeList segs' ∧
        AddressSorted segs' ∧ (∀ t ∈ segs', t.addr = b ∨ ∃ u ∈ segs, u.addr = t.addr) ∧
        ∀ t ∈ segs, ((∃ u ∈ segs, t.addr < u.addr ∧ u.addr < b) ∨
            ∃ u ∈ segs, b < u.addr ∧ u.addr < t.addr) →
          t ∈ segs' ∧ h'.nextSegment t.addr = h.nextSegment t.addr) ∧
    (∀ size alignment, WellFormed segs →
      ∃ h' p segs', allocate h size alignment = some (h', p) ∧ h'.FreeList segs' ∧
        AddressSorted segs') :=
  ⟨fun _ hap l => deallocate_sorted hlist hsorted hap l,
    fun size alignment hwf => allocate_sorted hlist hsorted hwf size alignment⟩

/-- The heap of one segment after `allocate(8, 8)`: the block has its header at `4180` and ends at
`4192`. -/
def heapWithBlock : Heap := ((⟨fun _ => 0, 4096⟩ : Heap).setSize 4096 76).setSize 4180 12

theorem heapWithBlock_freeList : heapWithBlock.FreeList [⟨4096, 76⟩] := by decide

theorem heapWithBlock_wellFormed : WellFormed [⟨4096, 76⟩] :=
  ⟨by decide, List.pairwise_singleton _ _⟩

theorem heapWithBlock_liveBlock : LiveBlock heapWithBlock [⟨4096, 76⟩] 4180 :=
  .of_apart (by decide) (by decide) (by decide) (by decide)

theorem freeList_sorted_heapWithBlock :
    (∃ h' segs', deallocate heapWithBlock (4180 + sizeofUsedSegment) = some h' ∧
      h'.FreeList segs' ∧ AddressSorted segs') ∧
    ∃ h' p segs', allocate heapWithBlock 8 8 = some (h', p) ∧ h'.FreeList segs' ∧
      AddressSorted segs' := by
  obtain ⟨hfree, halloc⟩ := freeList_sorted heapWithBlock_freeList (by decide)
  obtain ⟨h', segs', hcode, hlist, hsorted, -⟩ :=
    hfree 4180 heapWithBlock_wellFormed.headersApart heapWithBlock_liveBlock
  exact ⟨⟨h', segs', hcode, hlist, hsorted⟩, halloc 8 8 heapWithBlock_wellFormed⟩

/-! ### Lists that overlap or wrap -/

/-- A free list whose second header overlaps the first: the `size` at `4100` is also the first
link. -/
def overlappingHeaders : Heap :=
  ((⟨fun _ => 0, 4096⟩ : Heap).setNextSegment 4096 4100).setSize 8208 8

/-- A free list whose only header wraps: the link of the segment at `2^32 - 4` is at address `0`. -/
def wrappingHeader : Heap := (⟨fun _ => 0, 0xFFFFFFFC⟩ : Heap).setSize 2 0x10000

/-- A free list whose second extent wraps. -/
def wrappingExtent : Heap :=
  ((⟨fun _ => 0, 80⟩ : Heap).setNextSegment 80 0xFFFFFFF8).setSize 0xFFFFFFF8 100

/-- A call evaluated: it returns, and leaves the one free list `segs`. -/
theorem exists_freeList {α : Type} {o : Option α} {f : α → Heap}
    (h : o.map (fun r => decide ((f r).FreeList segs)) = some true) :
    ∃ r, o = some r ∧ ∀ segs', (f r).FreeList segs' → segs' = segs := by
  obtain ⟨r, hr, hlist⟩ := Option.map_eq_some_iff.mp h
  exact ⟨r, hr, fun segs' hlist' => hlist'.unique (of_decide_eq_true hlist)⟩

/-- Lists in address order that do not stay so.  With overlapping headers, joining a freed block
with the segment in front of it redirects the first link to `4112`, where there is no segment; with
a header that wraps, the freed block is written over the last link.  With overlapping extents, or
one that wraps, `allocate` records the block's size in a link. -/
theorem freeList_unsorted :
    (overlappingHeaders.FreeList [⟨4096, 0⟩, ⟨4100, 4100⟩] ∧
      AddressSorted [⟨4096, 0⟩, ⟨4100, 4100⟩] ∧
      LiveBlock overlappingHeaders [⟨4096, 0⟩, ⟨4100, 4100⟩] 8208 ∧
      ∃ h', deallocate overlappingHeaders (8208 + sizeofUsedSegment) = some h' ∧
        ∀ segs', h'.FreeList segs' → ∃ t ∈ segs', t.addr ≠ 8208 ∧
          ∀ u ∈ [(⟨4096, 0⟩ : FreeSegment), ⟨4100, 4100⟩], u.addr ≠ t.addr) ∧
    (wrappingHeader.FreeList [⟨0xFFFFFFFC, 0⟩] ∧ AddressSorted [⟨0xFFFFFFFC, 0⟩] ∧
      LiveBlock wrappingHeader [⟨0xFFFFFFFC, 0⟩] 2 ∧
      ∃ h', deallocate wrappingHeader (2 + sizeofUsedSegment) = some h' ∧
        ∀ segs', h'.FreeList segs' → ¬ AddressSorted segs') ∧
    (overlappingHeap.FreeList [⟨4096, 88⟩, ⟨4180, 0⟩] ∧
      AddressSorted [⟨4096, 88⟩, ⟨4180, 0⟩] ∧
      ∃ r, allocate overlappingHeap 4 4 = some r ∧
        ∀ segs', r.1.FreeList segs' → ¬ AddressSorted segs') ∧
    (wrappingExtent.FreeList [⟨80, 0⟩, ⟨0xFFFFFFF8, 100⟩] ∧
      AddressSorted [⟨80, 0⟩, ⟨0xFFFFFFF8, 100⟩] ∧
      ∃ r, allocate wrappingExtent 8 8 = some r ∧
        ∀ segs', r.1.FreeList segs' → ¬ AddressSorted segs') := by
  refine ⟨⟨by decide, by decide, ?_, ?_⟩, ⟨by decide, by decide, ?_, ?_⟩,
    ⟨by decide, by decide, ?_⟩, ⟨by decide, by decide, ?_⟩⟩
  · exact .of_apart (by decide) (by decide) (by decide) (by decide)
  · have hcode : (deallocate overlappingHeaders (8208 + sizeofUsedSegment)).map
        (fun h' => decide (h'.FreeList [⟨4096, 0⟩, ⟨4112, 0⟩])) = some true := by decide
    obtain ⟨h', hrun, hlist⟩ := exists_freeList hcode
    refine ⟨h', hrun, fun segs' hs => ?_⟩
    rw [hlist segs' hs]
    exact ⟨⟨4112, 0⟩, by simp, by decide, by decide⟩
  · exact .of_apart (by decide) (by decide) (by decide) (by decide)
  · have hcode : (deallocate wrappingHeader (2 + sizeofUsedSegment)).map (fun h' => decide
        (h'.FreeList [⟨2, 65532⟩, ⟨0xFFFFFFFC, 0⟩, ⟨0xFFFC0000, 0⟩])) = some true := by decide
    obtain ⟨h', hrun, hlist⟩ := exists_freeList hcode
    refine ⟨h', hrun, fun segs' hs => ?_⟩
    rw [hlist segs' hs]
    decide
  · have hcode : (allocate overlappingHeap 4 4).map (fun r => decide
        (r.1.FreeList [⟨4096, 80⟩, ⟨4180, 0⟩, ⟨8, 0⟩])) = some true := by decide
    obtain ⟨r, hrun, hlist⟩ := exists_freeList hcode
    refine ⟨r, hrun, fun segs' hs => ?_⟩
    rw [hlist segs' hs]
    decide
  · have hcode : (allocate wrappingExtent 8 8).map (fun r => decide
        (r.1.FreeList [⟨80, 0⟩, ⟨16, 0⟩])) = some true := by decide
    obtain ⟨r, hrun, hlist⟩ := exists_freeList hcode
    refine ⟨r, hrun, fun segs' hs => ?_⟩
    rw [hlist segs' hs]
    decide

end Shogun.Memory
