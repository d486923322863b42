import Mathlib.Data.List.Pairwise
import Mathlib.Order.CompletePartialOrder
import Mathlib.Order.Interval.Finset.Nat
import Mathlib.Order.Interval.Set.Disjoint
import Shogun.Memory.Allocator
import Shogun.Util.LinkedList

/-!
# The free list as data

`Heap.FreeList h segs` says that the segments `segs`, in this order, are the list that hangs off
`first_free` in the memory of `h`.  It is the bridge between the pointer-level allocator and the
statements about it, which speak of lists of segments and of the extents they cover.

`WellFormed segs` is what a free list must satisfy for the allocator to be meaningful: the extents
`[seg, seg + 8 + seg.size)` do not wrap and are pairwise disjoint.
-/

namespace Shogun.Memory

open LinkedList ByteMemory

/-- A free segment: its address and the `size` in its header. -/
structure FreeSegment where
  addr : UInt32
  size : UInt32
deriving DecidableEq

namespace FreeSegment

/-- The first address past the segment, not reduced modulo `2^32`. -/
def stop (s : FreeSegment) : ℕ := s.addr.toNat + 8 + s.size.toNat

/-- The bytes of the segment, header included. -/
def extent (s : FreeSegment) : Set ℕ := Set.Ico s.addr.toNat s.stop

/-- The bytes past the header. -/
def dataArea (s : FreeSegment) : Set ℕ := Set.Ico (s.addr.toNat + 8) s.stop

theorem addr_add_le_stop (s : FreeSegment) : s.addr.toNat + 8 ≤ s.stop := by
  unfold stop
  omega

/-- The `next_segment` field of a header that does not wrap. -/
theorem addr_add_four_toNat {s : FreeSegment} (h : s.addr.toNat + 8 ≤ 2 ^ 32) :
    (s.addr + 4).toNat = s.addr.toNat + 4 := by
  rw [UInt32.toNat_add]
  show (s.addr.toNat + 4) % 2 ^ 32 = _
  omega

theorem dataArea_subset_extent (s : FreeSegment) : s.dataArea ⊆ s.extent :=
  Set.Ico_subset_Ico_left (by omega)

theorem disjoint_extent_iff (s t : FreeSegment) :
    Disjoint s.extent t.extent ↔ s.stop ≤ t.addr.toNat ∨ t.stop ≤ s.addr.toNat := by
  have hs := s.addr_add_le_stop
  have ht := t.addr_add_le_stop
  rw [extent, extent, Set.Ico_disjoint_Ico]
  omega

end FreeSegment

/-- The eight-byte headers of `segs` do not wrap and do not overlap.  The code reads and writes
nothing else of a free segment. -/
structure HeadersApart (segs : List FreeSegment) : Prop where
  le : ∀ s ∈ segs, s.addr.toNat + 8 ≤ 2 ^ 32
  apart : segs.Pairwise fun s t =>
    s.addr.toNat + 8 ≤ t.addr.toNat ∨ t.addr.toNat + 8 ≤ s.addr.toNat

namespace HeadersApart

variable {segs : List FreeSegment} {s t : FreeSegment}

theorem sublist {segs' : List FreeSegment} (h : HeadersApart segs) (hs : segs'.Sublist segs) :
    HeadersApart segs' :=
  ⟨fun t ht => h.le t (hs.subset ht), h.apart.sublist hs⟩

/-- Only the addresses matter. -/
theorem of_map_addr {segs' : List FreeSegment} (h : HeadersApart segs)
    (hm : (segs'.map FreeSegment.addr).Sublist (segs.map FreeSegment.addr)) :
    HeadersApart segs' := by
  have hpair : (segs.map FreeSegment.addr).Pairwise fun a b : UInt32 =>
      a.toNat + 8 ≤ b.toNat ∨ b.toNat + 8 ≤ a.toNat := List.pairwise_map.mpr h.apart
  refine ⟨fun t ht => ?_, List.pairwise_map.mp (hpair.sublist hm)⟩
  obtain ⟨s, hs, hst⟩ := List.mem_map.mp (hm.subset (List.mem_map_of_mem ht))
  exact hst ▸ h.le s hs

theorem perm {segs' : List FreeSegment} (h : HeadersApart segs) (hp : segs.Perm segs') :
    HeadersApart segs' :=
  ⟨fun t ht => h.le t (hp.mem_iff.mpr ht), (hp.pairwise_iff fun hd => Or.symm hd).mp h.apart⟩

theorem nodup (h : HeadersApart segs) : segs.Nodup := by
  apply h.apart.imp
  rintro s _ hd rfl
  omega

theorem apart_of_ne (h : HeadersApart segs) (hs : s ∈ segs) (ht : t ∈ segs) (hne : s ≠ t) :
    s.addr.toNat + 8 ≤ t.addr.toNat ∨ t.addr.toNat + 8 ≤ s.addr.toNat := by
  have : Std.Symm fun s t : FreeSegment =>
    s.addr.toNat + 8 ≤ t.addr.toNat ∨ t.addr.toNat + 8 ≤ s.addr.toNat := ⟨fun _ _ => Or.symm⟩
  exact h.apart.forall hs ht hne

theorem size_apart_size (h : HeadersApart segs) (hs : s ∈ segs) (ht : t ∈ segs) (hne : s ≠ t) :
    Apart s.addr t.addr := by
  have h1 := h.le s hs
  have h2 := h.le t ht
  have := h.apart_of_ne hs ht hne
  rw [Apart]
  omega

/-- The `next_segment` field of a segment shares no byte with the `size` field of any. -/
theorem next_apart_size (h : HeadersApart segs) (hs : s ∈ segs) (ht : t ∈ segs) :
    Apart (s.addr + 4) t.addr := by
  have h1 := h.le s hs
  have h2 := h.le t ht
  rw [Apart, FreeSegment.addr_add_four_toNat h1]
  by_cases hne : s = t
  · subst hne
    omega
  · have := h.apart_of_ne hs ht hne
    omega

theorem next_apart_next (h : HeadersApart segs) (hs : s ∈ segs) (ht : t ∈ segs) (hne : s ≠ t) :
    Apart (s.addr + 4) (t.addr + 4) := by
  have h1 := h.le s hs
  have h2 := h.le t ht
  have := h.apart_of_ne hs ht hne
  rw [Apart, FreeSegment.addr_add_four_toNat h1, FreeSegment.addr_add_four_toNat h2]
  omega

end HeadersApart

/-- Extents that do not wrap and do not overlap. -/
structure WellFormed (segs : List FreeSegment) : Prop where
  stop_le : ∀ s ∈ segs, s.stop ≤ 2 ^ 32
  disjoint : segs.Pairwise fun s t => Disjoint s.extent t.extent

namespace WellFormed

variable {segs pre post : List FreeSegment} {s t : FreeSegment}

theorem sublist {segs' : List FreeSegment} (h : WellFormed segs) (hs : segs'.Sublist segs) :
    WellFormed segs' :=
  ⟨fun t ht => h.stop_le t (hs.subset ht), h.disjoint.sublist hs⟩

/-- Distinct segments are on either side of one another in memory. -/
theorem apart (h : WellFormed segs) (hs : s ∈ segs) (ht : t ∈ segs) (hne : s ≠ t) :
    s.stop ≤ t.addr.toNat ∨ t.stop ≤ s.addr.toNat := by
  have : Std.Symm fun s t : FreeSegment => Disjoint s.extent t.extent := ⟨fun _ _ hd => hd.symm⟩
  exact (s.disjoint_extent_iff t).mp (h.disjoint.forall hs ht hne)

/-- The headers are parts of the extents. -/
theorem headersApart (h : WellFormed segs) : HeadersApart segs := by
  refine ⟨fun s hs => s.addr_add_le_stop.trans (h.stop_le s hs), h.disjoint.imp fun {s t} hd => ?_⟩
  have h1 := s.addr_add_le_stop
  have h2 := t.addr_add_le_stop
  have := (s.disjoint_extent_iff t).mp hd
  omega

theorem nodup (h : WellFormed segs) : segs.Nodup := h.headersApart.nodup

/-- Replacing a segment by smaller ones at the same place keeps the list well formed. -/
theorem replace (h : WellFormed (pre ++ s :: post)) (ht : t.extent ⊆ s.extent)
    (hstop : t.stop ≤ s.stop) : WellFormed (pre ++ t :: post) := by
  obtain ⟨hpre, hpost, hcross⟩ := List.pairwise_append.mp h.disjoint
  obtain ⟨hs, hpost⟩ := List.pairwise_cons.mp hpost
  constructor
  · intro u hu
    rcases List.mem_append.mp hu with hu | hu
    · exact h.stop_le u (List.mem_append_left _ hu)
    · rcases List.mem_cons.mp hu with rfl | hu
      · exact hstop.trans (h.stop_le s (by simp))
      · exact h.stop_le u (by simp [hu])
  · refine List.pairwise_append.mpr ⟨hpre, List.pairwise_cons.mpr ⟨?_, hpost⟩, ?_⟩
    · exact fun u hu => (hs u hu).mono_left ht
    · intro u hu v hv
      rcases List.mem_cons.mp hv with rfl | hv
      · exact (hcross u hu s List.mem_cons_self).mono_right ht
      · exact hcross u hu v (List.mem_cons_of_mem _ hv)

end WellFormed

/-! ### The bytes of a list -/

/-- The bytes that the extents of `segs` cover. -/
def freeBytes (segs : List FreeSegment) : Set ℕ := {n | ∃ s ∈ segs, n ∈ s.extent}

theorem mem_freeBytes {segs : List FreeSegment} {n : ℕ} :
    n ∈ freeBytes segs ↔ ∃ s ∈ segs, n ∈ s.extent := Iff.rfl

@[simp]
theorem freeBytes_cons (s : FreeSegment) (segs : List FreeSegment) :
    freeBytes (s :: segs) = s.extent ∪ freeBytes segs := by
  ext n
  simp only [mem_freeBytes, Set.mem_union, List.mem_cons, exists_eq_or_imp]

@[simp]
theorem freeBytes_nil : freeBytes [] = ∅ := by
  ext n
  simp only [mem_freeBytes, List.not_mem_nil, false_and, exists_false, Set.mem_empty_iff_false]

@[simp]
theorem freeBytes_singleton (s : FreeSegment) : freeBytes [s] = s.extent := by
  rw [freeBytes_cons, freeBytes_nil, Set.union_empty]

@[simp]
theorem freeBytes_append (segs segs' : List FreeSegment) :
    freeBytes (segs ++ segs') = freeBytes segs ∪ freeBytes segs' := by
  ext n
  simp only [mem_freeBytes, Set.mem_union, List.mem_append, or_and_right, exists_or]

/-! ### The list in memory -/

/-- A pointer word as an optional address: `0` is `NULL`. -/
def ptr? (p : UInt32) : Option UInt32 := if p = 0 then none else some p

theorem ptr?_of_ne {p : UInt32} (h : p ≠ 0) : ptr? p = some p := if_neg h

@[simp]
theorem ptr?_eq_none_iff {p : UInt32} : ptr? p = none ↔ p = 0 := by
  unfold ptr?
  split_ifs with h <;> simp [h]

@[simp]
theorem ptr?_eq_some_iff {p a : UInt32} : ptr? p = some a ↔ p = a ∧ a ≠ 0 := by
  unfold ptr?
  split_ifs with h
  · simp only [false_iff, not_and, not_not]
    rintro rfl
    exact h
  · simp only [Option.some.injEq]
    constructor
    · rintro rfl
      exact ⟨rfl, h⟩
    · exact fun h => h.1

namespace Heap

/-- The pointer cells of the free list. -/
def links (h : Heap) : Links UInt32 where
  head := ptr? h.firstFree
  next a := ptr? (h.nextSegment a)

theorem links_next (h : Heap) (a : UInt32) : h.links.next a = ptr? (h.nextSegment a) := rfl

/-- The free list of `h` is `segs`. -/
structure FreeList (h : Heap) (segs : List FreeSegment) : Prop where
  links : h.links.Holds (segs.map FreeSegment.addr)
  size : ∀ s ∈ segs, h.size s.addr = s.size

instance (h : Heap) (segs : List FreeSegment) : Decidable (h.FreeList segs) :=
  have : Decidable (h.links.Holds (segs.map FreeSegment.addr)) := Chain.decidable ..
  decidable_of_iff (h.links.Holds (segs.map FreeSegment.addr) ∧ ∀ s ∈ segs, h.size s.addr = s.size)
    ⟨fun hs => ⟨hs.1, hs.2⟩, fun hs => ⟨hs.links, hs.size⟩⟩

namespace FreeList

variable {h h' : Heap} {segs segs' pre post : List FreeSegment} {s : FreeSegment}

/-- Memory holds one free list. -/
theorem unique (hs : h.FreeList segs) (hs' : h.FreeList segs') : segs = segs' := by
  have haddr := hs.links.unique hs'.links
  have hext : ∀ l : List FreeSegment, (∀ s ∈ l, h.size s.addr = s.size) →
      l = (l.map FreeSegment.addr).map fun a => ⟨a, h.size a⟩ := by
    intro l hl
    rw [List.map_map]
    refine (List.map_id l).symm.trans (List.map_congr_left fun s hs => ?_)
    rw [Function.comp, hl s hs]
    rfl
  rw [hext segs hs.size, hext segs' hs'.size, haddr]

end FreeList

/-! ### Writing headers -/

section Writes

variable {h : Heap} {a b v : UInt32}

@[simp]
theorem size_setSize_self : (h.setSize a v).size a = v := load32_store32_same ..

@[simp]
theorem nextSegment_setNextSegment_self : (h.setNextSegment a v).nextSegment a = v :=
  load32_store32_same ..

theorem size_setSize (hab : Apart a b) : (h.setSize a v).size b = h.size b :=
  load32_store32_of_apart _ _ hab

theorem nextSegment_setSize (hab : Apart a (b + 4)) :
    (h.setSize a v).nextSegment b = h.nextSegment b :=
  load32_store32_of_apart _ _ hab

theorem size_setNextSegment (hab : Apart (a + 4) b) :
    (h.setNextSegment a v).size b = h.size b :=
  load32_store32_of_apart _ _ hab

theorem nextSegment_setNextSegment (hab : Apart (a + 4) (b + 4)) :
    (h.setNextSegment a v).nextSegment b = h.nextSegment b :=
  load32_store32_of_apart _ _ hab

end Writes

theorem chain_addr_ne_zero {next : UInt32 → UInt32} : ∀ {p q : UInt32} {xs : List UInt32},
    Chain (fun a => ptr? (next a)) (ptr? p) xs (ptr? q) → ∀ x ∈ xs, x ≠ 0
  | _, _, [], _, _, hx => by simp at hx
  | _, _, y :: ys, h, x, hx => by
    rcases List.mem_cons.mp hx with rfl | hx
    · exact (ptr?_eq_some_iff.mp h.1).2
    · exact chain_addr_ne_zero (p := next y) h.2 x hx

theorem FreeList.addr_ne_zero {h : Heap} {segs : List FreeSegment} (hs : h.FreeList segs)
    {s : FreeSegment} (hmem : s ∈ segs) : s.addr ≠ 0 :=
  chain_addr_ne_zero (q := 0) hs.links s.addr (List.mem_map_of_mem hmem)

/-- There are fewer segments than addresses, so a walk of `2^32` turns sees the whole list. -/
theorem FreeList.length_lt {h : Heap} {segs : List FreeSegment} (hs : h.FreeList segs) :
    segs.length < 2 ^ 32 := by
  have hnd : (segs.map fun s => s.addr.toNat).Nodup := by
    have hmap := hs.links.nodup.map (f := UInt32.toNat) fun _ _ he => UInt32.toNat_inj.mp he
    rwa [List.map_map] at hmap
  have hsub : (segs.map fun s => s.addr.toNat).toFinset ⊆ Finset.Ico 1 (2 ^ 32) := by
    intro n hn
    obtain ⟨s, hmem, rfl⟩ := List.mem_map.mp (List.mem_toFinset.mp hn)
    have h0 : s.addr.toNat ≠ 0 := fun h0 => hs.addr_ne_zero hmem (UInt32.toNat_inj.mp h0)
    exact Finset.mem_Ico.mpr ⟨by omega, s.addr.toNat_lt⟩
  have hcard := Finset.card_le_card hsub
  rw [List.toFinset_card_of_nodup hnd, List.length_map, Nat.card_Ico] at hcard
  omega

/-- A free list only depends on `first_free` and on the headers of its segments. -/
theorem FreeList.frame {h h' : Heap} {segs : List FreeSegment} (hs : h.FreeList segs)
    (hfirst : h'.firstFree = h.firstFree) (hsize : ∀ s ∈ segs, h'.size s.addr = h.size s.addr)
    (hnext : ∀ s ∈ segs, h'.nextSegment s.addr = h.nextSegment s.addr) : h'.FreeList segs := by
  refine ⟨?_, fun s hmem => (hsize s hmem).trans (hs.size s hmem)⟩
  show Chain h'.links.next (ptr? h'.firstFree) _ none
  rw [hfirst]
  apply Chain.frame hs.links
  intro a ha
  obtain ⟨s, hmem, rfl⟩ := List.mem_map.mp ha
  exact congrArg ptr? (hnext s hmem)

/-- A word written apart from the headers leaves the list alone. -/
theorem FreeList.setSize_of_apart {h : Heap} {segs : List FreeSegment} {a v : UInt32}
    (hs : h.FreeList segs) (hap : ∀ t ∈ segs, Apart a t.addr ∧ Apart a (t.addr + 4)) :
    (h.setSize a v).FreeList segs := by
  apply hs.frame
  · rfl
  · intro t ht
    exact size_setSize (hap t ht).1
  · intro t ht
    exact nextSegment_setSize (hap t ht).2

/-! ### The cell in front of a segment -/

/-- `prev` when the loop has passed the segments `pre`. -/
def lastAddr (pre : List FreeSegment) : UInt32 := (pre.getLast?.map FreeSegment.addr).getD 0

@[simp]
theorem lastAddr_nil : lastAddr [] = 0 := rfl

@[simp]
theorem lastAddr_append_singleton (pre : List FreeSegment) (s : FreeSegment) :
    lastAddr (pre ++ [s]) = s.addr := by
  simp [lastAddr]

/-- Writing the link past `pre` sends the chain through `pre` to wherever it now points. -/
theorem chain_setLink {h : Heap} {pre : List FreeSegment} {q : Option UInt32} (v : UInt32)
    (hpre : Chain h.links.next h.links.head (pre.map FreeSegment.addr) q)
    (hne : ∀ s ∈ pre, s.addr ≠ 0) (hap : HeadersApart pre) :
    Chain (h.setLink (lastAddr pre) v).links.next (h.setLink (lastAddr pre) v).links.head
      (pre.map FreeSegment.addr) (ptr? v) := by
  rcases List.eq_nil_or_concat pre with rfl | ⟨init, s, rfl⟩
  · exact rfl
  · rw [List.concat_eq_append] at *
    have hs0 : s.addr ≠ 0 := hne s (by simp)
    rw [lastAddr_append_singleton, setLink, if_neg hs0]
    rw [List.map_append, List.map_singleton] at hpre ⊢
    -- the link of the last segment of `pre` is written, the ones before it stay
    have hkeep : ∀ a ∈ init.map FreeSegment.addr,
        (h.setNextSegment s.addr v).links.next a = h.links.next a := by
      intro a ha
      obtain ⟨t, ht, rfl⟩ := List.mem_map.mp ha
      have hts : s ≠ t := by
        rintro rfl
        exact (List.nodup_append.mp hap.nodup).2.2 s ht s (by simp) rfl
      rw [links_next, links_next, nextSegment_setNextSegment]
      exact hap.next_apart_next (by simp) (by simp [ht]) hts
    have hred := Chain.redirect hpre hkeep
    rwa [links_next, nextSegment_setNextSegment_self] at hred

/-- Writing the link past `pre` touches no word apart from the headers of `pre`. -/
theorem load32_setLink {h : Heap} {pre : List FreeSegment} {a : UInt32} (v : UInt32)
    (ha : ∀ s ∈ pre, Apart (s.addr + 4) a) :
    (h.setLink (lastAddr pre) v).mem.load32 a = h.mem.load32 a := by
  rcases List.eq_nil_or_concat pre with rfl | ⟨init, s, rfl⟩
  · rfl
  · rw [List.concat_eq_append] at *
    rw [lastAddr_append_singleton, setLink]
    split_ifs
    · rfl
    · exact load32_store32_of_apart _ _ (ha s (by simp))

/-- `current` when the segments `rest` are still ahead of the loop. -/
def headAddr (rest : List FreeSegment) : UInt32 := (rest.head?.map FreeSegment.addr).getD 0

@[simp]
theorem headAddr_nil : headAddr [] = 0 := rfl

@[simp]
theorem headAddr_cons (s : FreeSegment) (rest : List FreeSegment) :
    headAddr (s :: rest) = s.addr := rfl

theorem eq_headAddr_of_ptr? {p : UInt32} {rest : List FreeSegment}
    (h : ptr? p = (rest.map FreeSegment.addr).head?) : p = headAddr rest := by
  cases rest with
  | nil => exact ptr?_eq_none_iff.mp h
  | cons s rest => exact (ptr?_eq_some_iff.mp h).1

theorem FreeList.firstFree_eq {h : Heap} {segs : List FreeSegment} (hs : h.FreeList segs) :
    h.firstFree = headAddr segs :=
  eq_headAddr_of_ptr? hs.links.head_eq

theorem FreeList.nextSegment_eq {h : Heap} {pre post : List FreeSegment} {s : FreeSegment}
    (hs : h.FreeList (pre ++ s :: post)) : h.nextSegment s.addr = headAddr post := by
  have hl := hs.links
  rw [List.map_append, List.map_cons] at hl
  exact eq_headAddr_of_ptr? hl.next_eq

/-- Unlinking `s` through the cell in front of it. -/
theorem FreeList.unlink {h : Heap} {pre post : List FreeSegment} {s : FreeSegment}
    (hs : h.FreeList (pre ++ s :: post)) (hap : HeadersApart (pre ++ s :: post)) :
    (h.setLink (lastAddr pre) (h.nextSegment s.addr)).FreeList (pre ++ post) := by
  have hne : ∀ t ∈ pre, t.addr ≠ 0 := fun t ht => hs.addr_ne_zero (by simp [ht])
  have hl := hs.links
  rw [List.map_append, List.map_cons] at hl
  obtain ⟨q, hpre, -, hpost⟩ := Chain.append_iff.mp hl
  have happre : HeadersApart pre := hap.sublist (List.sublist_append_left _ _)
  constructor
  · rw [List.map_append]
    refine Chain.append_iff.mpr ⟨_, chain_setLink _ hpre hne happre, ?_⟩
    refine Chain.frame hpost fun a ha => congrArg ptr? (load32_setLink _ fun t ht => ?_)
    obtain ⟨u, hu, rfl⟩ := List.mem_map.mp ha
    -- the last link before `s` is in another header than the links behind it
    have htu : t ≠ u := by
      rintro rfl
      exact (List.nodup_append.mp hap.nodup).2.2 t ht t (by simp [hu]) rfl
    exact hap.next_apart_next (by simp [ht]) (by simp [hu]) htu
  · intro u hu
    have hu' : u ∈ pre ++ s :: post := by
      rcases List.mem_append.mp hu with hu | hu <;> simp [hu]
    exact (load32_setLink _ fun t ht => hap.next_apart_size (by simp [ht]) hu').trans
      (hs.size u hu')

/-- Writing the `size` of one segment: only the word `size` of its header changes. -/
theorem FreeList.setSize {h : Heap} {pre post : List FreeSegment} {s : FreeSegment} {v : UInt32}
    (hs : h.FreeList (pre ++ s :: post)) (hap : HeadersApart (pre ++ s :: post)) :
    (h.setSize s.addr v).FreeList (pre ++ { s with size := v } :: post) := by
  constructor
  · have hl := hs.links
    rw [List.map_append, List.map_cons] at hl ⊢
    apply Chain.frame hl
    intro a ha
    obtain ⟨t, ht, rfl⟩ := List.mem_map.mp (by simpa using ha : a ∈ (pre ++ s :: post).map _)
    rw [links_next, links_next, nextSegment_setSize (hap.next_apart_size ht (by simp)).symm]
  · intro t ht
    by_cases hts : t = { s with size := v }
    · subst hts
      exact size_setSize_self
    · -- the sizes of the other segments are in other headers
      have hnd := hap.nodup
      have hcross := (List.nodup_append.mp hnd).2.2
      have hpost := (List.nodup_cons.mp (List.nodup_append.mp hnd).2.1).1
      have hmem : t ∈ pre ++ s :: post ∧ s ≠ t := by
        rcases List.mem_append.mp ht with ht | ht
        · exact ⟨by simp [ht], fun he => hcross t ht s (by simp) he.symm⟩
        · rcases List.mem_cons.mp ht with ht | ht
          · exact absurd ht hts
          · exact ⟨by simp [ht], fun he => hpost (he ▸ ht)⟩
      rw [size_setSize (hap.size_apart_size (by simp) hmem.1 hmem.2)]
      exact hs.size t hmem.1

/-- Linking a segment in: its own link leads to what was behind the cell, and the cell leads to
it. -/
theorem FreeList.insert {h : Heap} {pre post : List FreeSegment} {s : FreeSegment}
    (hs : h.FreeList (pre ++ post)) (hap : HeadersApart (pre ++ s :: post)) (hs0 : s.addr ≠ 0)
    (hsize : h.size s.addr = s.size) (hnext : h.nextSegment s.addr = headAddr post) :
    (h.setLink (lastAddr pre) s.addr).FreeList (pre ++ s :: post) := by
  have hne : ∀ t ∈ pre, t.addr ≠ 0 := fun t ht => hs.addr_ne_zero (by simp [ht])
  have hl := hs.links
  rw [List.map_append] at hl
  obtain ⟨q, hpre, hpost⟩ := Chain.append_iff.mp hl
  have happre : HeadersApart pre := hap.sublist (List.sublist_append_left _ _)
  -- no link but the one past `pre` changes
  have hkeep : ∀ u ∈ s :: post,
      (h.setLink (lastAddr pre) s.addr).nextSegment u.addr = h.nextSegment u.addr := by
    intro u hu
    apply load32_setLink _
    intro t ht
    apply hap.next_apart_next (by simp [ht]) (List.mem_append_right _ hu)
    rintro rfl
    exact (List.nodup_append.mp hap.nodup).2.2 t ht t hu rfl
  constructor
  · rw [List.map_append, List.map_cons]
    refine Chain.append_iff.mpr ⟨_, chain_setLink _ hpre hne happre, ptr?_of_ne hs0, ?_⟩
    rw [links_next, hkeep s (by simp), hnext]
    have hq : ptr? (headAddr post) = q := by
      rw [Chain.head?_eq hpost]
      cases post with
      | nil => rfl
      | cons t post => exact ptr?_of_ne (hs.addr_ne_zero (by simp))
    rw [hq]
    apply Chain.frame hpost
    intro a ha
    obtain ⟨u, hu, rfl⟩ := List.mem_map.mp ha
    rw [links_next, links_next, hkeep u (by simp [hu])]
  · intro u hu
    refine (load32_setLink _ fun t ht => hap.next_apart_size (by simp [ht]) hu).trans ?_
    rcases List.mem_append.mp hu with hu | hu
    · exact hs.size u (by simp [hu])
    · rcases List.mem_cons.mp hu with rfl | hu
      · exact hsize
      · exact hs.size u (by simp [hu])

end Heap

end Shogun.Memory
