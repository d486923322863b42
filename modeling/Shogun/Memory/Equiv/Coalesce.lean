import Mathlib.Data.List.Chain
import Shogun.Memory.Equiv.Sorted

/-!
# What `deallocate` gives back

Joining neighbours loses nothing: the bytes of `insertBlock segs s` are those of `segs` and of `s`
(`freeBytes_insertBlock`), and no two consecutive segments of it touch (`insertBlock_isChain`).  But
the segment put in ends four bytes past the block it was made of.  So `deallocate` gives back
exactly the bytes of the block only if the four bytes past it are free already, that is if a free
segment starts where the block ends (`deallocate_returns_iff`); freeing a block right after it was
allocated makes four bytes free that were not (`Carved.deallocate_freeBytes`).
-/

namespace Shogun.Memory

open LinkedList ByteMemory

/-- `t` does not start where `s` ends. -/
def NotAdjacent (s t : FreeSegment) : Prop := s.stop ≠ t.addr.toNat

/-- A list in address order whose headers do not overlap, with extents that reach at most four bytes
past the end of memory. -/
structure Joinable (segs : List FreeSegment) : Prop where
  ordered : segs.Pairwise fun s t => s.addr.toNat + 8 ≤ t.addr.toNat
  stop_le : ∀ s ∈ segs, s.stop ≤ 2 ^ 32 + 4

variable {h : Heap} {segs pre post rest : List FreeSegment} {s t : FreeSegment} {b : UInt32}

namespace Joinable

theorem sublist {segs' : List FreeSegment} (j : Joinable segs) (hs : segs'.Sublist segs) :
    Joinable segs' :=
  ⟨j.ordered.sublist hs, fun s hmem => j.stop_le s (hs.subset hmem)⟩

theorem tail (j : Joinable (s :: rest)) : Joinable rest := j.sublist (List.sublist_cons_self _ _)

/-- The code's test, on natural numbers. -/
theorem adjacent_iff (j : Joinable (s :: t :: rest)) :
    t.addr = s.addr + sizeofFreeSegment + s.size ↔ s.stop = t.addr.toNat := by
  have hle := (List.pairwise_cons.mp j.ordered).1 t (by simp)
  have hstop := j.stop_le s (by simp)
  have ht := t.addr.toNat_lt
  rw [← UInt32.toNat_inj, UInt32.toNat_add, UInt32.toNat_add]
  show _ = ((s.addr.toNat + 8) % 2 ^ 32 + s.size.toNat) % 2 ^ 32 ↔ _
  rw [FreeSegment.stop] at *
  omega

/-- What a join can do: nothing, when the first segment behind does not touch, or extend `s` to the
end of it. -/
theorem join_cases (j : Joinable (s :: rest)) :
    (∀ t ∈ rest.head?, NotAdjacent s t) ∧ join s rest = s :: rest ∨
      ∃ t rest' s', rest = t :: rest' ∧ s.stop = t.addr.toNat ∧ join s rest = s' :: rest' ∧
        s'.addr = s.addr ∧ s'.stop = t.stop := by
  cases rest with
  | nil => exact .inl ⟨by simp, rfl⟩
  | cons t rest =>
    have hiff := j.adjacent_iff
    by_cases hadj : s.stop = t.addr.toNat
    · refine .inr ⟨t, rest, { s with size := s.size + sizeofFreeSegment + t.size }, rfl, hadj, ?_,
        rfl, ?_⟩
      · rw [join, if_pos (hiff.mpr hadj)]
      · have hstop := j.stop_le t (by simp)
        show s.addr.toNat + 8 + (s.size + sizeofFreeSegment + t.size).toNat = t.stop
        rw [UInt32.toNat_add, UInt32.toNat_add]
        show s.addr.toNat + 8 + ((s.size.toNat + 8) % 2 ^ 32 + t.size.toNat) % 2 ^ 32 = t.stop
        rw [FreeSegment.stop] at *
        omega
    · refine .inl ⟨?_, ?_⟩
      · rintro u ⟨rfl⟩
        exact hadj
      · rw [join, if_neg fun h => hadj (hiff.mp h)]

theorem join (j : Joinable (s :: rest)) : Joinable (join s rest) := by
  rcases j.join_cases with ⟨-, heq⟩ | ⟨t, rest', s', rfl, -, heq, haddr, hstop⟩
  · rwa [heq]
  · rw [heq]
    obtain ⟨hs, hrest⟩ := List.pairwise_cons.mp j.ordered
    obtain ⟨-, hrest⟩ := List.pairwise_cons.mp hrest
    refine ⟨List.pairwise_cons.mpr ⟨fun u hu => ?_, hrest⟩, List.forall_mem_cons.mpr ⟨?_, ?_⟩⟩
    · rw [haddr]
      exact hs u (List.mem_cons_of_mem _ hu)
    · rw [hstop]
      exact j.stop_le t (by simp)
    · exact fun u hu => j.stop_le u (by simp [hu])

/-- A join loses no byte and adds none. -/
theorem freeBytes_join (j : Joinable (s :: rest)) :
    freeBytes (Memory.join s rest) = s.extent ∪ freeBytes rest := by
  rcases j.join_cases with ⟨-, heq⟩ | ⟨t, rest', s', rfl, hadj, heq, haddr, hstop⟩
  · rw [heq, freeBytes_cons]
  · have hs := s.addr_add_le_stop
    have ht := t.addr_add_le_stop
    have hext : s'.extent = s.extent ∪ t.extent := by
      rw [FreeSegment.extent, FreeSegment.extent, FreeSegment.extent, haddr, hstop, ← hadj]
      exact (Set.Ico_union_Ico_eq_Ico (by omega) (by omega)).symm
    rw [heq, freeBytes_cons, freeBytes_cons, hext, Set.union_assoc]

theorem join_isChain (j : Joinable (s :: rest)) (hrest : rest.IsChain NotAdjacent) :
    (Memory.join s rest).IsChain NotAdjacent := by
  rcases j.join_cases with ⟨hgap, heq⟩ | ⟨t, rest', s', rfl, -, heq, -, hstop⟩
  · rw [heq]
    exact List.isChain_cons.mpr ⟨hgap, hrest⟩
  · -- the joined segment ends where `t` did
    rw [heq]
    obtain ⟨hgap, hrest⟩ := List.isChain_cons.mp hrest
    refine List.isChain_cons.mpr ⟨fun u hu => ?_, hrest⟩
    rw [NotAdjacent, hstop]
    exact hgap u hu

/-- With what is left of `s` behind it, `t` can be joined too. -/
theorem cons_join (j : Joinable (t :: s :: rest)) : Joinable (t :: Memory.join s rest) := by
  obtain ⟨ht, -⟩ := List.pairwise_cons.mp j.ordered
  have hj := j.tail.join
  refine ⟨List.pairwise_cons.mpr ⟨fun u hu => ?_, hj.ordered⟩,
    List.forall_mem_cons.mpr ⟨j.stop_le t (by simp), hj.stop_le⟩⟩
  have hsub := (map_addr_join_sublist s rest).subset (List.mem_map_of_mem hu)
  obtain ⟨v, hv, hvu⟩ := List.mem_map.mp hsub
  rw [← hvu]
  exact ht v hv

theorem freeBytes_joinBetween (j : Joinable (pre ++ s :: post)) :
    freeBytes (joinBetween pre s post) = freeBytes pre ∪ (s.extent ∪ freeBytes post) := by
  rcases List.eq_nil_or_concat pre with rfl | ⟨init, t, rfl⟩
  · rw [freeBytes_nil, Set.empty_union]
    exact j.freeBytes_join
  · rw [List.concat_eq_append] at *
    rw [List.append_assoc, List.singleton_append] at j
    have jt : Joinable (t :: s :: post) := j.sublist (List.sublist_append_right _ _)
    rw [joinBetween, List.getLast?_concat, List.dropLast_concat]
    show freeBytes (init ++ Memory.join t (Memory.join s post)) = _
    rw [freeBytes_append, jt.cons_join.freeBytes_join, jt.tail.freeBytes_join, freeBytes_append,
      freeBytes_singleton, Set.union_assoc]

theorem joinBetween_isChain (j : Joinable (pre ++ s :: post)) (hpre : pre.IsChain NotAdjacent)
    (hpost : post.IsChain NotAdjacent) : (joinBetween pre s post).IsChain NotAdjacent := by
  rcases List.eq_nil_or_concat pre with rfl | ⟨init, t, rfl⟩
  · exact j.join_isChain hpost
  · rw [List.concat_eq_append] at *
    rw [List.append_assoc, List.singleton_append] at j
    have jt : Joinable (t :: s :: post) := j.sublist (List.sublist_append_right _ _)
    rw [joinBetween, List.getLast?_concat, List.dropLast_concat]
    obtain ⟨hinit, -, hlast⟩ := List.isChain_append.mp hpre
    refine List.isChain_append.mpr
      ⟨hinit, jt.cons_join.join_isChain (jt.tail.join_isChain hpost), fun u hu v hv => ?_⟩
    -- the segment `t` keeps its address, whatever is joined to it
    have haddr : v.addr = t.addr := by
      have hhead := headAddr_join t (Memory.join s post)
      rwa [Heap.headAddr, hv] at hhead
    rw [NotAdjacent, haddr]
    exact hlast u hu t (by simp)

end Joinable

/-! ### The freed segment in its place -/

section Live

variable (hwf : WellFormed segs) (hsorted : AddressSorted segs) (l : LiveBlock h segs b)

include hwf hsorted l

theorem joinable_insert :
    Joinable (segs.takeWhile (·.addr < b) ++
      freedSegment b (h.size b) :: segs.dropWhile (·.addr < b)) := by
  have hap := (l.headersApart hwf.headersApart).insert (t := freedSegment b (h.size b)) rfl
    (·.addr < b)
  have hins : AddressSorted _ :=
    hsorted.insert (s := freedSegment b (h.size b)) fun t ht => l.addr_ne ht
  constructor
  · -- the headers do not overlap, and the addresses increase
    refine hap.apart.imp₂ (fun s t hst hlt => ?_) hins
    have := UInt32.lt_iff_toNat_lt.mp hlt
    omega
  · intro s hs
    rcases List.mem_append.mp hs with hs | hs
    · have := hwf.stop_le s ((List.takeWhile_sublist _).subset hs)
      omega
    · rcases List.mem_cons.mp hs with rfl | hs
      · have := l.stop_le
        rw [freedSegment_stop (by have := l.size_le; omega)]
        omega
      · have := hwf.stop_le s ((List.dropWhile_sublist _).subset hs)
        omega

/-- What is free after `deallocate`: what was, the block and the four bytes past it. -/
theorem freeBytes_insertBlock :
    freeBytes (insertBlock segs (freedSegment b (h.size b)))
      = freeBytes segs ∪ Set.Ico b.toNat (b.toNat + (h.size b).toNat + 4) := by
  have hbytes := (joinable_insert hwf hsorted l).freeBytes_joinBetween
  have hext : (freedSegment b (h.size b)).extent
      = Set.Ico b.toNat (b.toNat + (h.size b).toNat + 4) := by
    rw [FreeSegment.extent, freedSegment_stop (by have := l.size_le; omega)]
    rfl
  have hsplit : freeBytes segs = freeBytes (segs.takeWhile (·.addr < b)) ∪
      freeBytes (segs.dropWhile (·.addr < b)) := by
    rw [← freeBytes_append, List.takeWhile_append_dropWhile]
  rw [hsplit, ← hext]
  apply hbytes.trans
  rw [Set.union_comm (FreeSegment.extent _), Set.union_assoc]

theorem insertBlock_isChain (hgaps : segs.IsChain NotAdjacent) :
    (insertBlock segs (freedSegment b (h.size b))).IsChain NotAdjacent := by
  rw [← List.takeWhile_append_dropWhile (p := (·.addr < b)) (l := segs)] at hgaps
  exact (joinable_insert hwf hsorted l).joinBetween_isChain hgaps.left_of_append
    hgaps.right_of_append

omit hwf hsorted in
/-- The four bytes past the block are free only if a segment starts there. -/
theorem freeBytes_past_iff :
    freeBytes segs ∪ Set.Ico b.toNat (b.toNat + (h.size b).toNat + 4)
        = freeBytes segs ∪ Set.Ico b.toNat (b.toNat + (h.size b).toNat)
      ↔ ∃ t ∈ segs, t.addr.toNat = b.toNat + (h.size b).toNat := by
  constructor
  · intro heq
    have hin : b.toNat + (h.size b).toNat ∈
        freeBytes segs ∪ Set.Ico b.toNat (b.toNat + (h.size b).toNat) :=
      heq ▸ Or.inr (Set.mem_Ico.mpr ⟨by omega, by omega⟩)
    rcases hin with ⟨t, ht, hint⟩ | hin
    · -- the segment with this byte is disjoint from the block, so it starts here
      have hap := l.apart ht
      obtain ⟨h1, h2⟩ := Set.mem_Ico.mp hint
      exact ⟨t, ht, by omega⟩
    · exact absurd (Set.mem_Ico.mp hin).2 (lt_irrefl _)
  · rintro ⟨t, ht, haddr⟩
    have hle := t.addr_add_le_stop
    ext n
    simp only [Set.mem_union, Set.mem_Ico]
    constructor
    · rintro (hn | ⟨h1, h2⟩)
      · exact .inl hn
      · by_cases hn : n < b.toNat + (h.size b).toNat
        · exact .inr ⟨h1, hn⟩
        · exact .inl ⟨t, ht, Set.mem_Ico.mpr ⟨by omega, by omega⟩⟩
    · rintro (hn | ⟨h1, h2⟩)
      · exact .inl hn
      · exact .inr ⟨h1, by omega⟩

end Live

/-- **`deallocate` gives back four bytes too many.**  It returns, and no two consecutive segments of
the list it leaves touch; but the bytes of the list are the old ones and those of the block if and
only if a free segment starts right where the block ends. -/
theorem deallocate_returns_iff (hlist : h.FreeList segs) (hwf : WellFormed segs)
    (hsorted : AddressSorted segs) (hgaps : segs.IsChain NotAdjacent) (l : LiveBlock h segs b) :
    ∃ h' segs', deallocate h (b + sizeofUsedSegment) = some h' ∧ h'.FreeList segs' ∧
      ((freeBytes segs' = freeBytes segs ∪ Set.Ico b.toNat (b.toNat + (h.size b).toNat) ∧
          segs'.IsChain NotAdjacent)
        ↔ ∃ t ∈ segs, t.addr.toNat = b.toNat + (h.size b).toNat) := by
  obtain ⟨h', hcode, hlist', -⟩ :=
    deallocate_spec hlist (l.headersApart hwf.headersApart) l.ne_zero
  refine ⟨h', _, hcode, hlist', ?_⟩
  rw [freeBytes_insertBlock hwf hsorted l, freeBytes_past_iff l]
  exact and_iff_left (insertBlock_isChain hwf hsorted l hgaps)

/-- Freeing a block right after it was carved from `s` gives back the bytes of `s` and the four past
its end. -/
theorem Carved.deallocate_freeBytes {h' : Heap} {size alignment p : UInt32}
    (c : Carved h h' pre s post size alignment p) (hwf : WellFormed (pre ++ s :: post))
    (hsorted : AddressSorted (pre ++ s :: post)) (h8 : 8 ≤ s.need size alignment)
    (hne : s.need size alignment ≠ s.size.toNat) :
    ∃ h'' segs'', deallocate h' p = some h'' ∧ h''.FreeList segs'' ∧
      freeBytes segs'' = freeBytes (pre ++ s :: post) ∪ Set.Ico s.stop (s.stop + 4) := by
  have l := c.liveBlock hwf h8
  have hwf' := c.wellFormed hwf
  have hsorted' : AddressSorted (pre ++ s.shrink (s.need size alignment) ++ post) :=
    hsorted.of_map_addr (FreeSegment.map_addr_shrink_sublist _ _ _ _)
  obtain ⟨h'', hcode, hlist, -⟩ :=
    deallocate_spec c.freeList (l.headersApart hwf'.headersApart) l.ne_zero
  rw [sub_add_cancel] at hcode
  refine ⟨h'', _, hcode, hlist, ?_⟩
  have hlo := c.lt_header
  rw [freeBytes_insertBlock hwf' hsorted' l, c.freeBytes_eq hne, c.used_size, c.header_toNat,
    c.usedExtent_eq, Nat.sub_add_cancel hlo.2, Set.union_assoc,
    Set.Ico_union_Ico_eq_Ico (Nat.sub_le _ _) (Nat.le_add_right _ _)]

/-- A block of eight bytes at `4096`, and a free segment right behind it. -/
def heapBelowSegment : Heap := ((⟨fun _ => 0, 4104⟩ : Heap).setSize 4096 8).setSize 4104 88

theorem deallocate_returns_heapBelowSegment :
    ∃ h' segs', deallocate heapBelowSegment (4096 + sizeofUsedSegment) = some h' ∧
      h'.FreeList segs' ∧
      freeBytes segs' = freeBytes [⟨4104, 88⟩] ∪ Set.Ico (4096 : UInt32).toNat
        ((4096 : UInt32).toNat + (heapBelowSegment.size 4096).toNat) := by
  have hlist : heapBelowSegment.FreeList [⟨4104, 88⟩] := by decide
  have hwf : WellFormed [⟨4104, 88⟩] := ⟨by decide, List.pairwise_singleton _ _⟩
  have hlive : LiveBlock heapBelowSegment [⟨4104, 88⟩] 4096 :=
    .of_apart (by decide) (by decide) (by decide) (by decide)
  obtain ⟨h', segs', hcode, hlist', hiff⟩ :=
    deallocate_returns_iff hlist hwf (by decide) (List.isChain_singleton _) hlive
  exact ⟨h', segs', hcode, hlist', (hiff.mpr ⟨⟨4104, 88⟩, by simp, by decide⟩).1⟩

/-- Freeing the block `[4180, 4192)` makes the four bytes past it free too. -/
theorem deallocate_returns_too_much :
    heapWithBlock.FreeList [⟨4096, 76⟩] ∧ WellFormed [⟨4096, 76⟩] ∧
    AddressSorted [⟨4096, 76⟩] ∧ List.IsChain NotAdjacent [⟨4096, 76⟩] ∧
    LiveBlock heapWithBlock [⟨4096, 76⟩] 4180 ∧ heapWithBlock.size 4180 = 12 ∧
    ∃ h', deallocate heapWithBlock (4180 + sizeofUsedSegment) = some h' ∧
      ∀ segs', h'.FreeList segs' → 4192 ∈ freeBytes segs' ∧
        4192 ∉ freeBytes [⟨4096, 76⟩] ∪ Set.Ico (4180 : UInt32).toNat
          ((4180 : UInt32).toNat + (heapWithBlock.size 4180).toNat) := by
  have hcode : (deallocate heapWithBlock (4180 + sizeofUsedSegment)).map
      (fun h' => decide (h'.FreeList [⟨4096, 92⟩])) = some true := by decide
  obtain ⟨h', hrun, hlist⟩ := exists_freeList hcode
  refine ⟨heapWithBlock_freeList, heapWithBlock_wellFormed, by decide, List.isChain_singleton _,
    heapWithBlock_liveBlock, by decide, h', hrun, fun segs' hs => ?_⟩
  rw [hlist segs' hs, freeBytes_singleton, freeBytes_singleton]
  refine ⟨Set.mem_Ico.mpr (by decide), ?_⟩
  rintro (hin | hin)
  · exact absurd (Set.mem_Ico.mp hin).2 (by decide)
  · exact absurd (Set.mem_Ico.mp hin).2 (by decide)

end Shogun.Memory
