import Shogun.Memory.Equiv.FreeList

/-!
# What `deallocate` does to the free list

`deallocate_spec`: the freed block goes into the list in front of the first segment that is not
below it, and is joined with the segment behind it and the one in front of it when they touch
(`insertBlock`).  No word outside the block's first eight bytes and the header of the segment in
front of it changes.

The size the block gets as a free segment is the recorded size less `sizeof(UsedSegment)`, while a
free segment of size `n` covers `sizeof(FreeSegment) + n` bytes: the segment `freedSegment b f`
ends four bytes past the block (`freedSegment_stop`).
-/

namespace Shogun.Memory

open LinkedList ByteMemory

/-- The free segment `deallocate` makes of a block with header `b` and recorded size `f`. -/
def freedSegment (b f : UInt32) : FreeSegment := ⟨b, f - sizeofUsedSegment⟩

/-- The freed segment reaches four bytes past the block it was made of. -/
theorem freedSegment_stop {b f : UInt32} (hf : 4 ≤ f.toNat) :
    (freedSegment b f).stop = b.toNat + f.toNat + 4 := by
  have hsub : (f - sizeofUsedSegment).toNat = f.toNat - 4 :=
    UInt32.toNat_sub_of_le _ _ (UInt32.le_iff_toNat_le.mpr hf)
  show b.toNat + 8 + (f - sizeofUsedSegment).toNat = _
  rw [hsub]
  omega

/-- `s` in front of the segments `rest`, joined with the first of them when they touch. -/
def join (s : FreeSegment) : List FreeSegment → List FreeSegment
  | [] => [s]
  | t :: rest =>
    if t.addr = s.addr + sizeofFreeSegment + s.size then
      { s with size := s.size + sizeofFreeSegment + t.size } :: rest
    else s :: t :: rest

/-- The list `pre ++ post` after `s` was put in between and joined with its neighbours. -/
def joinBetween (pre : List FreeSegment) (s : FreeSegment) (post : List FreeSegment) :
    List FreeSegment :=
  match pre.getLast? with
  | none => join s post
  | some t => pre.dropLast ++ join t (join s post)

/-- The list after `s` was put in its place and joined with its neighbours. -/
def insertBlock (segs : List FreeSegment) (s : FreeSegment) : List FreeSegment :=
  joinBetween (segs.takeWhile (·.addr < s.addr)) s (segs.dropWhile (·.addr < s.addr))

/-! ### Joining neighbours -/

section Join

variable {h : Heap} {pre post segs : List FreeSegment} {s t : FreeSegment} {a : UInt32}

theorem map_addr_join_sublist (s : FreeSegment) (rest : List FreeSegment) :
    ((join s rest).map FreeSegment.addr).Sublist ((s :: rest).map FreeSegment.addr) := by
  cases rest with
  | nil => exact List.Sublist.refl _
  | cons t rest =>
    rw [join]
    split_ifs
    · exact (List.sublist_cons_self _ _).cons_cons _
    · exact List.Sublist.refl _

theorem headAddr_join (s : FreeSegment) (rest : List FreeSegment) :
    Heap.headAddr (join s rest) = s.addr := by
  cases rest with
  | nil => rfl
  | cons t rest =>
    rw [join]
    split_ifs <;> rfl

/-- `absorb` on two neighbours of the list. -/
theorem absorb_spec (hs : h.FreeList (pre ++ s :: t :: post))
    (hap : HeadersApart (pre ++ s :: t :: post)) :
    (absorb h s.addr t.addr).FreeList
      (pre ++ { s with size := s.size + sizeofFreeSegment + t.size } :: post) := by
  have hs0 : s.addr ≠ 0 := hs.addr_ne_zero (by simp)
  set s' : FreeSegment := { s with size := s.size + sizeofFreeSegment + t.size } with hs'
  have hsize : (h.setSize s.addr s'.size).FreeList (pre ++ s' :: t :: post) := hs.setSize hap
  have hap' : HeadersApart (pre ++ s' :: t :: post) := hap.of_map_addr (by simp [hs'])
  rw [show pre ++ s' :: t :: post = (pre ++ [s']) ++ t :: post by simp] at hsize hap'
  -- dropping `t` from behind `s'` is an unlink through the link of `s'`
  have hun := hsize.unlink hap'
  rw [Heap.lastAddr_append_singleton, show s'.addr = s.addr from rfl, Heap.setLink, if_neg hs0,
    List.append_assoc, List.singleton_append] at hun
  rw [absorb, hs.size s (by simp), hs.size t (by simp)]
  exact hun

/-- The code's test and join of a segment with the one behind it. -/
theorem absorb_ite_spec (hs : h.FreeList (pre ++ s :: post))
    (hap : HeadersApart (pre ++ s :: post)) :
    (if Heap.headAddr post ≠ 0 ∧ segmentsAdjacent h s.addr (Heap.headAddr post) then
      absorb h s.addr (Heap.headAddr post) else h).FreeList (pre ++ join s post) := by
  cases post with
  | nil => simpa [join] using hs
  | cons t post =>
    have ht0 : t.addr ≠ 0 := hs.addr_ne_zero (by simp)
    have hiff : segmentsAdjacent h s.addr t.addr
        ↔ t.addr = s.addr + sizeofFreeSegment + s.size := by
      unfold segmentsAdjacent
      rw [hs.size s (by simp)]
    rw [Heap.headAddr_cons, join]
    by_cases hadj : t.addr = s.addr + sizeofFreeSegment + s.size
    · rw [if_pos ⟨ht0, hiff.mpr hadj⟩, if_pos hadj]
      exact absorb_spec hs hap
    · rw [if_neg fun hc => hadj (hiff.mp hc.2), if_neg hadj]
      exact hs

theorem load32_absorb {first second : UInt32} (h1 : Apart first a) (h2 : Apart (first + 4) a) :
    (absorb h first second).mem.load32 a = h.mem.load32 a :=
  (load32_store32_of_apart _ _ h2).trans (load32_store32_of_apart _ _ h1)

/-! ### The place in the list -/

theorem findPlace_eq {b : UInt32} : ∀ (rest pre : List FreeSegment) (fuel : ℕ),
    rest.length < fuel → h.FreeList (pre ++ rest) →
    findPlace h b fuel (Heap.lastAddr pre) (Heap.headAddr rest)
      = some (Heap.lastAddr (pre ++ rest.takeWhile (·.addr < b)),
          Heap.headAddr (rest.dropWhile (·.addr < b)))
  | [], pre, fuel + 1, _, _ => by simp [findPlace]
  | s :: rest, pre, fuel + 1, hfuel, hlist => by
    have hs0 : s.addr ≠ 0 := hlist.addr_ne_zero (by simp)
    rw [findPlace, Heap.headAddr_cons]
    by_cases hlt : s.addr < b
    · rw [if_pos ⟨hs0, hlt⟩, hlist.nextSegment_eq, ← Heap.lastAddr_append_singleton pre s]
      rw [show pre ++ s :: rest = (pre ++ [s]) ++ rest by simp] at hlist
      rw [findPlace_eq rest (pre ++ [s]) fuel (by simpa using hfuel) hlist]
      simp [hlt]
    · rw [if_neg fun hc => hlt hc.2]
      simp [hlt]

/-- Linking the freed segment in and joining it with both neighbours. -/
theorem insertFreed_spec (hs : h.FreeList (pre ++ post)) (hap : HeadersApart (pre ++ s :: post))
    (hs0 : s.addr ≠ 0) (hsize : h.size s.addr = s.size) :
    (insertFreed h s.addr (Heap.lastAddr pre) (Heap.headAddr post)).FreeList
      (joinBetween pre s post) := by
  have hmem : s ∈ pre ++ s :: post := by simp
  have hne : ∀ u ∈ pre ++ post, s ≠ u := by
    rintro u hu rfl
    exact (List.nodup_middle.mp hap.nodup).notMem hu
  have hin : ∀ u ∈ pre ++ post, u ∈ pre ++ s :: post := by
    intro u hu
    rcases List.mem_append.mp hu with hu | hu <;> simp [hu]
  -- the freed segment's own link
  have h₁ : (h.setNextSegment s.addr (Heap.headAddr post)).FreeList (pre ++ post) := hs.frame rfl
    (fun u hu => Heap.size_setNextSegment (hap.next_apart_size hmem (hin u hu)))
    (fun u hu => Heap.nextSegment_setNextSegment (hap.next_apart_next hmem (hin u hu) (hne u hu)))
  have hsize₁ : (h.setNextSegment s.addr (Heap.headAddr post)).size s.addr = s.size :=
    (Heap.size_setNextSegment (hap.next_apart_size hmem hmem)).trans hsize
  have h₂ := h₁.insert hap hs0 hsize₁ Heap.nextSegment_setNextSegment_self
  have h₃ := absorb_ite_spec h₂ hap
  rcases List.eq_nil_or_concat pre with rfl | ⟨init, t, rfl⟩
  · simpa [insertFreed, joinBetween] using h₃
  · rw [List.concat_eq_append] at *
    have ht0 : t.addr ≠ 0 := hs.addr_ne_zero (by simp)
    have hap₃ : HeadersApart (init ++ t :: join s post) := hap.of_map_addr (by
      rw [List.append_assoc, List.singleton_append, List.map_append, List.map_append,
        List.map_cons, List.map_cons]
      exact ((map_addr_join_sublist s post).cons_cons _).append_left _)
    rw [List.append_assoc, List.singleton_append] at h₃
    have h₄ := absorb_ite_spec h₃ hap₃
    rw [headAddr_join] at h₄
    simpa [insertFreed, joinBetween, ht0, hs0] using h₄

theorem load32_insertFreed {b prev current : UInt32} (h1 : Apart b a) (h2 : Apart (b + 4) a)
    (hprev : prev ≠ 0 → Apart prev a ∧ Apart (prev + 4) a) :
    (insertFreed h b prev current).mem.load32 a = h.mem.load32 a := by
  have hb : ∀ g : Heap, (g.setNextSegment b current).mem.load32 a = g.mem.load32 a :=
    fun g => load32_store32_of_apart _ _ h2
  have hl : ∀ g : Heap, (g.setLink prev b).mem.load32 a = g.mem.load32 a := by
    intro g
    rw [Heap.setLink]
    split_ifs with h0
    · rfl
    · exact load32_store32_of_apart _ _ (hprev h0).2
  unfold insertFreed
  dsimp only
  split_ifs with hc hp hp
  · rw [load32_absorb (hprev hp.1).1 (hprev hp.1).2, load32_absorb h1 h2, hl, hb]
  · rw [load32_absorb h1 h2, hl, hb]
  · rw [load32_absorb (hprev hp.1).1 (hprev hp.1).2, hl, hb]
  · rw [hl, hb]

end Join

/-! ### The whole call -/

/-- The header of the block and the headers of the free list, as the writes of `deallocate` see
them. -/
theorem HeadersApart.insert {segs : List FreeSegment} {s t : FreeSegment}
    (hap : HeadersApart (s :: segs)) (hst : t.addr = s.addr) (p : FreeSegment → Bool) :
    HeadersApart (segs.takeWhile p ++ t :: segs.dropWhile p) := by
  have ht : HeadersApart (t :: segs) := hap.of_map_addr (by simp [hst])
  have hp : (t :: (segs.takeWhile p ++ segs.dropWhile p)).Perm
      (segs.takeWhile p ++ t :: segs.dropWhile p) := List.perm_middle.symm
  rw [List.takeWhile_append_dropWhile] at hp
  exact ht.perm hp

/-- **`deallocate` inserts the freed segment in address order and joins it with its neighbours.**
It terminates, and changes no word apart from the block's first eight bytes and the header of the
segment in front of it. -/
theorem deallocate_spec {h : Heap} {segs : List FreeSegment} {b : UInt32} (hs : h.FreeList segs)
    (hap : HeadersApart (freedSegment b (h.size b) :: segs)) (hb0 : b ≠ 0) :
    ∃ h', deallocate h (b + sizeofUsedSegment) = some h'
      ∧ h'.FreeList (insertBlock segs (freedSegment b (h.size b)))
      ∧ ∀ a : UInt32, Apart b a → Apart (b + 4) a →
          (∀ s ∈ segs, (segs.takeWhile (·.addr < b)).getLast? = some s →
            Apart s.addr a ∧ Apart (s.addr + 4) a) →
          h'.mem.load32 a = h.mem.load32 a := by
  set s := freedSegment b (h.size b) with hsdef
  have hsb : s.addr = b := rfl
  have hble : b.toNat + 8 ≤ 2 ^ 32 := hap.le s (by simp)
  have hb4 : (b + 4).toNat = b.toNat + 4 := FreeSegment.addr_add_four_toNat (s := s) hble
  have hptr : b + sizeofUsedSegment ≠ 0 := by
    intro h0
    have hnat := congrArg UInt32.toNat h0
    rw [show b + sizeofUsedSegment = b + 4 from rfl, hb4] at hnat
    exact absurd hnat (by show _ ≠ 0; omega)
  have hsub : b + sizeofUsedSegment - sizeofUsedSegment = b := add_sub_cancel_right _ _
  have hself : Apart (b + 4) b := hap.next_apart_size (s := s) (t := s) (by simp) (by simp)
  have hne : ∀ u ∈ segs, s ≠ u := by
    rintro u hu rfl
    exact (List.nodup_cons.mp hap.nodup).1 hu
  -- turning the block into a free segment leaves the list alone
  set h₁ := (h.setSize b s.size).setNextSegment b 0 with hh₁
  have hs₁ : h₁.FreeList segs := hs.frame rfl
    (fun u hu => (Heap.size_setNextSegment
        (hap.next_apart_size (s := s) (by simp) (by simp [hu]))).trans
      (Heap.size_setSize (hap.size_apart_size (s := s) (by simp) (by simp [hu]) (hne u hu))))
    (fun u hu => (Heap.nextSegment_setNextSegment
        (hap.next_apart_next (s := s) (by simp) (by simp [hu]) (hne u hu))).trans
      (Heap.nextSegment_setSize
        (hap.next_apart_size (t := s) (by simp [hu]) (by simp)).symm))
  have hsize₁ : h₁.size b = s.size :=
    (Heap.size_setNextSegment hself).trans Heap.size_setSize_self
  have hplace := findPlace_eq (b := b) segs [] (2 ^ 32) hs₁.length_lt hs₁
  rw [List.nil_append, Heap.lastAddr_nil, ← hs₁.firstFree_eq] at hplace
  have hcode : deallocate h (b + sizeofUsedSegment)
      = some (insertFreed h₁ b (Heap.lastAddr (segs.takeWhile (·.addr < b)))
          (Heap.headAddr (segs.dropWhile (·.addr < b)))) := by
    rw [deallocate, if_neg hptr]
    simp only [hsub]
    rw [show h.size b - sizeofUsedSegment = s.size from rfl, ← hh₁, hplace]
    rfl
  refine ⟨_, hcode, ?_, ?_⟩
  · have hsplit : h₁.FreeList
        (segs.takeWhile (·.addr < b) ++ segs.dropWhile (·.addr < b)) := by
      rwa [List.takeWhile_append_dropWhile]
    exact insertFreed_spec (s := s) hsplit (hap.insert rfl _) hb0 hsize₁
  · intro a h1 h2 hsegs
    rw [load32_insertFreed h1 h2 fun hp => ?_]
    · exact (load32_store32_of_apart _ _ h2).trans (load32_store32_of_apart _ _ h1)
    · rcases List.eq_nil_or_concat (segs.takeWhile (·.addr < b)) with hnil | ⟨init, t, hcat⟩
      · rw [hnil] at hp
        exact absurd rfl hp
      · rw [hcat, List.concat_eq_append, Heap.lastAddr_append_singleton]
        exact hsegs t ((List.takeWhile_sublist _).subset (by rw [hcat]; simp)) (by rw [hcat]; simp)

end Shogun.Memory
