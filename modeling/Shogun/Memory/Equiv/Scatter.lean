import Shogun.Memory.Equiv.Blocks

/-!
# Freed neighbours are not joined

Blocks that were allocated from one segment tile the memory behind it.  A block that is freed
becomes a segment that ends four bytes inside the next block, so that the test for a neighbour fails
between any two of them.

* `Tiles.append_iff`, `Tiles.stop_mod`, `Tiles.apart`: where the blocks of a tiling are.
* `scattered`: the free list after some of them were freed.
* `insertBlock_scattered`, `Scattered.free`, `Scattered.frees`: freeing one more, and freeing
  several in any order.
* `frees_scatter`: after every run of allocations and every order of freeing blocks of it.
-/

namespace Shogun.Memory

open LinkedList ByteMemory

/-! ### Tilings -/

namespace Tiles

variable {h : Heap} {lo mid hi : ℕ} {ps qs : List UInt32} {p q : UInt32}

/-- A block in front of a tiling. -/
theorem cons (hp : (header p).toNat = lo) (hmod : lo % 8 = 4)
    (hsize : 4 < (h.size (header p)).toNat) (hend : lo + (h.size (header p)).toNat = mid)
    (ht : Tiles h mid ps hi) : Tiles h lo (p :: ps) hi :=
  ⟨hp, hmod, hsize, hend ▸ ht⟩

theorem append_iff :
    Tiles h lo (ps ++ qs) hi ↔ ∃ mid, Tiles h lo ps mid ∧ Tiles h mid qs hi := by
  induction ps generalizing lo with
  | nil =>
    constructor
    · exact fun ht => ⟨lo, rfl, ht⟩
    · rintro ⟨mid, rfl, ht⟩
      exact ht
  | cons p ps ih =>
    constructor
    · rintro ⟨hp, hmod, hsize, hrest⟩
      obtain ⟨mid, h1, h2⟩ := ih.mp hrest
      exact ⟨mid, ⟨hp, hmod, hsize, h1⟩, h2⟩
    · rintro ⟨mid, ⟨hp, hmod, hsize, h1⟩, h2⟩
      exact ⟨hp, hmod, hsize, ih.mpr ⟨mid, h1, h2⟩⟩

/-- A tiling with a block in it starts below a multiple of eight. -/
theorem lo_mod (ht : Tiles h lo ps hi) (hp : p ∈ ps) : lo % 8 = 4 := by
  cases ps with
  | nil => exact absurd hp List.not_mem_nil
  | cons q ps => exact ht.2.1

/-- A block ends below a multiple of eight, if the tiling does. -/
theorem stop_mod (ht : Tiles h lo ps hi) (hhi : hi % 8 = 4) (hp : p ∈ ps) :
    ((header p).toNat + (h.size (header p)).toNat) % 8 = 4 := by
  induction ps generalizing lo with
  | nil => exact absurd hp List.not_mem_nil
  | cons q ps ih =>
    obtain ⟨hq, -, -, hrest⟩ := ht
    rcases List.mem_cons.mp hp with rfl | hp
    · rw [show (header p).toNat = lo from hq]
      cases ps with
      | nil => exact hrest ▸ hhi
      | cons r ps => exact hrest.2.1
    · exact ih hrest hp

theorem pairwise_header (ht : Tiles h lo ps hi) :
    ps.Pairwise fun p q => (header p).toNat + 8 ≤ (header q).toNat := by
  induction ps generalizing lo with
  | nil => exact List.Pairwise.nil
  | cons p ps ih =>
    obtain ⟨hp, hmod, hsize, hrest⟩ := ht
    refine List.pairwise_cons.mpr ⟨fun q hq => ?_, ih hrest⟩
    obtain ⟨hlow, hqmod, -⟩ := hrest.bounds hq
    have hp' : (header p).toNat = lo := hp
    change (header q).toNat % 8 = 4 at hqmod
    change _ ≤ (header q).toNat at hlow
    omega

theorem apart (ht : Tiles h lo ps hi) (hp : p ∈ ps) (hq : q ∈ ps) (hne : p ≠ q) :
    (header p).toNat + 8 ≤ (header q).toNat ∨ (header q).toNat + 8 ≤ (header p).toNat := by
  have : Std.Symm fun p q : UInt32 =>
    (header p).toNat + 8 ≤ (header q).toNat ∨ (header q).toNat + 8 ≤ (header p).toNat :=
    ⟨fun _ _ => Or.symm⟩
  have hpair : ps.Pairwise fun p q : UInt32 =>
      (header p).toNat + 8 ≤ (header q).toNat ∨ (header q).toNat + 8 ≤ (header p).toNat :=
    ht.pairwise_header.imp fun hle => .inl hle
  exact hpair.forall hp hq hne

theorem nodup (ht : Tiles h lo ps hi) : ps.Nodup := by
  apply ht.pairwise_header.imp
  rintro p _ hle rfl
  omega

/-- Writes outside the headers of the blocks. -/
theorem onlyWrites {h' : Heap} {a b : ℕ} (ht : Tiles h lo ps hi) (hhi : hi ≤ 2 ^ 32)
    (hw : OnlyWrites a b h h')
    (hout : ∀ q ∈ ps, (header q).toNat + 4 ≤ a ∨ b ≤ (header q).toNat) : Tiles h' lo ps hi := by
  apply ht.frame
  intro q hq
  obtain ⟨-, -, hsize, hle⟩ := ht.bounds hq
  exact hw.load32 (by omega) (hout q hq)

end Tiles

/-! ### The list -/

/-- The segment `t` with the block at `p` joined onto it. -/
def grown (h : Heap) (t : FreeSegment) (p : UInt32) : FreeSegment :=
  { t with size := t.size + sizeofFreeSegment + (segmentOf h p).size }

/-- The segment in front of the blocks, the first of which is at `p`. -/
def front (h : Heap) (t : FreeSegment) (freed : List UInt32) (p : UInt32) : FreeSegment :=
  if p ∈ freed then grown h t p else t

/-- The free list after the blocks `freed` among those that tile the memory behind `t` were freed:
the first of them is joined onto `t`, the others are segments of their own. -/
def scattered (h : Heap) (t : FreeSegment) : List UInt32 → List UInt32 → List FreeSegment
  | [], _ => [t]
  | p :: ps, freed => front h t freed p :: (ps.filter (· ∈ freed)).map (segmentOf h)

section Scattered

variable {h : Heap} {t s : FreeSegment} {ps freed : List UInt32} {p : UInt32} {hi : ℕ}

theorem front_addr (h : Heap) (t : FreeSegment) (freed : List UInt32) (p : UInt32) :
    (front h t freed p).addr = t.addr := by
  unfold front
  split_ifs <;> rfl

theorem mem_scattered (hs : s ∈ scattered h t ps freed) :
    s.addr = t.addr ∨ ∃ q ∈ ps, q ∈ freed ∧ s.addr = header q := by
  cases ps with
  | nil =>
    rw [List.mem_singleton.mp hs]
    exact .inl rfl
  | cons p ps =>
    rcases List.mem_cons.mp hs with rfl | hs
    · exact .inl (front_addr h t freed p)
    · obtain ⟨q, hq, rfl⟩ := List.mem_map.mp hs
      obtain ⟨hq, hf⟩ := List.mem_filter.mp hq
      exact .inr ⟨q, List.mem_cons_of_mem _ hq, of_decide_eq_true hf, rfl⟩

/-- The addresses of the list are those of `t` and of blocks, in order. -/
theorem map_addr_scattered_sublist (h : Heap) (t : FreeSegment) (ps freed : List UInt32) :
    ((scattered h t ps freed).map FreeSegment.addr).Sublist (t.addr :: ps.map header) := by
  cases ps with
  | nil => exact List.Sublist.refl _
  | cons p ps =>
    rw [scattered, List.map_cons, front_addr, List.map_cons, List.map_map]
    exact ((List.filter_sublist.map header).cons _).cons_cons _

section

variable (ht : Tiles h t.stop ps hi) (hhi : hi + 4 ≤ 2 ^ 32)

include ht

theorem stop_segmentOf (hp : p ∈ ps) :
    (segmentOf h p).stop = (header p).toNat + (h.size (header p)).toNat + 4 := by
  obtain ⟨-, -, hsize, -⟩ := ht.bounds hp
  exact freedSegment_stop (Nat.le_of_lt hsize)

/-- A block is apart from every segment of the list when it is not freed. -/
theorem apart_scattered (hp : p ∈ ps) (hnot : p ∉ freed) (hs : s ∈ scattered h t ps freed) :
    s.addr.toNat + 8 ≤ (header p).toNat ∨ (header p).toNat + 8 ≤ s.addr.toNat := by
  rcases mem_scattered hs with haddr | ⟨q, hq, hfreed, haddr⟩
  · rw [haddr]
    exact .inl (t.addr_add_le_stop.trans (ht.bounds hp).1)
  · rw [haddr]
    apply ht.apart hq hp
    rintro rfl
    exact hnot hfreed

include hhi

theorem stop_segmentOf_le (hp : p ∈ ps) : (segmentOf h p).stop ≤ 2 ^ 32 := by
  obtain ⟨-, -, -, hle⟩ := ht.bounds hp
  rw [stop_segmentOf ht hp]
  exact (Nat.add_le_add_right hle 4).trans hhi

theorem headersApart_scattered : HeadersApart (scattered h t ps freed) := by
  have hall : HeadersApart (t :: ps.map (segmentOf h)) := by
    refine ⟨List.forall_mem_cons.mpr ⟨?_, ?_⟩, List.pairwise_cons.mpr ⟨?_, ?_⟩⟩
    · have := ht.le
      exact t.addr_add_le_stop.trans (by omega)
    · rw [List.forall_mem_map]
      intro p hp
      exact (segmentOf h p).addr_add_le_stop.trans (stop_segmentOf_le ht hhi hp)
    · rw [List.forall_mem_map]
      intro p hp
      exact .inl (t.addr_add_le_stop.trans (ht.bounds hp).1)
    · rw [List.pairwise_map]
      exact ht.pairwise_header.imp fun hle => .inl hle
  apply hall.of_map_addr
  rw [List.map_cons, List.map_map]
  exact map_addr_scattered_sublist h t ps freed

end

/-- The blocks of a tiling around one of them. -/
structure Around (h : Heap) (lo hi : ℕ) (pre : List UInt32) (p : UInt32) (post : List UInt32) :
    Prop where
  mod : (header p).toNat % 8 = 4
  pos : 0 < (header p).toNat
  stop_le : (segmentOf h p).stop ≤ 2 ^ 32
  before : ∀ q ∈ pre, header q < header p ∧ (segmentOf h q).stop ≤ 2 ^ 32 ∧
    (segmentOf h q).stop % 8 = 0
  after : ∀ q ∈ post, ¬ header q < header p ∧ 0 < (header q).toNat ∧
    (segmentOf h p).stop ≠ (header q).toNat

theorem around {pre post : List UInt32} (ht : Tiles h t.stop (pre ++ p :: post) hi)
    (hhi : hi + 4 ≤ 2 ^ 32) : Around h t.stop hi pre p post := by
  have hmem : p ∈ pre ++ p :: post := by simp
  obtain ⟨mid, hpre, hp, hmod, hsize, hpost⟩ := Tiles.append_iff.mp ht
  change (header p).toNat = mid at hp
  have hpstop := stop_segmentOf ht hmem
  have hlo := t.addr_add_le_stop
  have hle := hpre.le
  refine ⟨by omega, by omega, stop_segmentOf_le ht hhi hmem, ?_, ?_⟩
  · intro q hq
    have hqmem : q ∈ pre ++ p :: post := List.mem_append_left _ hq
    have hstop := stop_segmentOf ht hqmem
    have hqmod := hpre.stop_mod (by omega) hq
    obtain ⟨-, -, hqsize, hqle⟩ := hpre.bounds hq
    change 4 < (h.size (header q)).toNat at hqsize
    change (header q).toNat + (h.size (header q)).toNat ≤ mid at hqle
    refine ⟨?_, stop_segmentOf_le ht hhi hqmem, by omega⟩
    rw [UInt32.lt_iff_toNat_lt]
    omega
  · intro q hq
    obtain ⟨hqlo, hqmod, -⟩ := hpost.bounds hq
    have hmid := hpost.lo_mod hq
    change _ ≤ (header q).toNat at hqlo
    change (header q).toNat % 8 = 4 at hqmod
    change (mid + (h.size (header p)).toNat) % 8 = 4 at hmid
    change _ + (h.size (header p)).toNat ≤ _ at hqlo
    refine ⟨?_, by omega, by omega⟩
    rw [UInt32.lt_iff_toNat_lt]
    omega

theorem Around.join_after {pre post : List UInt32} {lo : ℕ} (ha : Around h lo hi pre p post)
    (freed : List UInt32) :
    join (segmentOf h p) ((post.filter (· ∈ freed)).map (segmentOf h))
      = segmentOf h p :: (post.filter (· ∈ freed)).map (segmentOf h) := by
  cases hpost : post.filter (· ∈ freed) with
  | nil => rfl
  | cons q rest =>
    have hq : q ∈ post := List.mem_of_mem_filter (hpost ▸ List.mem_cons_self)
    obtain ⟨-, hpos, hne⟩ := ha.after q hq
    exact join_of_ne _ ha.stop_le hpos hne

/-- The block in front of the others ends the segment that it is joined onto. -/
theorem grown_stop {r : UInt32} (hstop : t.stop = (header r).toNat)
    (hle : (segmentOf h r).stop ≤ 2 ^ 32) : (grown h t r).stop = (segmentOf h r).stop := by
  have hsum : (t.size + sizeofFreeSegment + (segmentOf h r).size).toNat
      = ((t.size.toNat + 8) % 2 ^ 32 + (segmentOf h r).size.toNat) % 2 ^ 32 := by
    rw [UInt32.toNat_add, UInt32.toNat_add]
    rfl
  have hseg : (segmentOf h r).stop = (header r).toNat + 8 + (segmentOf h r).size.toNat := rfl
  have ht : t.stop = t.addr.toNat + 8 + t.size.toNat := rfl
  show t.addr.toNat + 8 + (t.size + sizeofFreeSegment + (segmentOf h r).size).toNat = _
  omega

/-- The segment in front of the blocks does not touch any but the first. -/
theorem Around.front_stop {r : UInt32} {pre post : List UInt32} {lo : ℕ}
    (ha : Around h lo hi (r :: pre) p post) (hstop : t.stop = (header r).toNat)
    (freed : List UInt32) :
    (front h t freed r).stop ≤ 2 ^ 32 ∧ (front h t freed r).stop ≠ (header p).toNat := by
  obtain ⟨hlt, hrle, hrmod⟩ := ha.before r List.mem_cons_self
  have hrp : (header r).toNat < (header p).toNat := UInt32.lt_iff_toNat_lt.mp hlt
  have hpmod := ha.mod
  have hple := (header p).toNat_lt
  unfold front
  split_ifs
  · rw [grown_stop hstop hrle]
    exact ⟨hrle, by omega⟩
  · exact ⟨by omega, by omega⟩

/-- Freeing `p` changes nothing about the other blocks. -/
theorem filter_mem_append {qs : List UInt32} (hp : p ∉ qs) :
    qs.filter (· ∈ freed ++ [p]) = qs.filter (· ∈ freed) := by
  apply List.filter_congr
  intro q hq
  have hne : q ≠ p := fun heq => hp (heq ▸ hq)
  simp [hne]

/-- Freeing the first block: it is joined onto `t`. -/
theorem insertBlock_scattered_first {post : List UInt32} (ht : Tiles h t.stop (p :: post) hi)
    (hhi : hi + 4 ≤ 2 ^ 32) (hnot : p ∉ freed) :
    insertBlock (scattered h t (p :: post) freed) (segmentOf h p)
      = scattered h t (p :: post) (freed ++ [p]) := by
  have ha : Around h t.stop hi [] p post := around ht hhi
  have hstop : t.stop = (header p).toNat := ht.1.symm
  have hlt : t.addr < header p := by
    have := t.addr_add_le_stop
    rw [UInt32.lt_iff_toNat_lt]
    omega
  have hpost : p ∉ post := (List.nodup_cons.mp ht.nodup).1
  rw [scattered, scattered, front, if_neg hnot, front, if_pos (by simp), filter_mem_append hpost,
    ← List.singleton_append, insertBlock_split]
  · show [] ++ join t (join (segmentOf h p) _) = _
    rw [ha.join_after, join_of_stop_eq _ hstop]
    rfl
  · intro u hu
    rw [List.mem_singleton.mp hu]
    exact hlt
  · rw [List.forall_mem_map]
    intro q hq
    exact (ha.after q (List.mem_of_mem_filter hq)).1

/-- Freeing any other block: it touches none of its neighbours in the list. -/
theorem insertBlock_scattered_later {r : UInt32} {pre post : List UInt32}
    (ht : Tiles h t.stop (r :: pre ++ p :: post) hi) (hhi : hi + 4 ≤ 2 ^ 32) (hnot : p ∉ freed) :
    insertBlock (scattered h t (r :: pre ++ p :: post) freed) (segmentOf h p)
      = scattered h t (r :: pre ++ p :: post) (freed ++ [p]) := by
  have ha := around ht hhi
  have hnd := List.nodup_cons.mp ht.nodup
  have hr : r ≠ p := fun heq => hnd.1 (by simp [heq])
  obtain ⟨-, hnd', hcross⟩ := List.nodup_append.mp hnd.2
  have hpost : p ∉ post := (List.nodup_cons.mp hnd').1
  have hpre : p ∉ pre := fun hmem => hcross p hmem p List.mem_cons_self rfl
  have hstop : t.stop = (header r).toNat := ht.1.symm
  obtain ⟨hfle, hfne⟩ := ha.front_stop hstop freed
  have hlist : scattered h t (r :: pre ++ p :: post) freed
      = (front h t freed r :: (pre.filter (· ∈ freed)).map (segmentOf h))
        ++ (post.filter (· ∈ freed)).map (segmentOf h) := by
    rw [List.cons_append, scattered, List.filter_append,
      List.filter_cons_of_neg (by simpa using hnot), List.map_append, List.cons_append]
  have hlist' : scattered h t (r :: pre ++ p :: post) (freed ++ [p])
      = (front h t freed r :: (pre.filter (· ∈ freed)).map (segmentOf h))
        ++ segmentOf h p :: (post.filter (· ∈ freed)).map (segmentOf h) := by
    have hfront : front h t (freed ++ [p]) r = front h t freed r := by
      simp [front, hr]
    rw [List.cons_append, scattered, hfront, List.filter_append, List.filter_cons_of_pos (by simp),
      filter_mem_append hpre, filter_mem_append hpost, List.map_append, List.map_cons,
      List.cons_append]
  rw [hlist, hlist', insertBlock_split, joinBetween_of_ne (ha.join_after freed)]
  · refine List.forall_mem_cons.mpr ⟨join_of_ne _ hfle ha.pos hfne, ?_⟩
    rw [List.forall_mem_map]
    intro q hq
    have hpmod := ha.mod
    obtain ⟨-, hqle, hqmod⟩ := ha.before q (List.mem_cons_of_mem _ (List.mem_of_mem_filter hq))
    exact join_of_ne _ hqle ha.pos (by show _ ≠ (header p).toNat; omega)
  · refine List.forall_mem_cons.mpr ⟨?_, ?_⟩
    · have := t.addr_add_le_stop
      have := UInt32.lt_iff_toNat_lt.mp (ha.before r List.mem_cons_self).1
      rw [front_addr, UInt32.lt_iff_toNat_lt]
      show _ < (header p).toNat
      omega
    · rw [List.forall_mem_map]
      intro q hq
      exact (ha.before q (List.mem_cons_of_mem _ (List.mem_of_mem_filter hq))).1
  · rw [List.forall_mem_map]
    intro q hq
    exact (ha.after q (List.mem_of_mem_filter hq)).1

theorem insertBlock_scattered (ht : Tiles h t.stop ps hi) (hhi : hi + 4 ≤ 2 ^ 32) (hp : p ∈ ps)
    (hnot : p ∉ freed) :
    insertBlock (scattered h t ps freed) (segmentOf h p) = scattered h t ps (freed ++ [p]) := by
  obtain ⟨pre, post, rfl⟩ := List.append_of_mem hp
  cases pre with
  | nil => exact insertBlock_scattered_first ht hhi hnot
  | cons r pre => exact insertBlock_scattered_later ht hhi hnot

end Scattered

/-! ### Freeing in any order -/

/-- The heap after the blocks `freed` of the tiling `ps` behind `t` in `h₀` were freed. -/
structure Scattered (h₀ : Heap) (t : FreeSegment) (ps freed : List UInt32) (h : Heap) : Prop where
  list : h.FreeList (scattered h₀ t ps freed)
  size : ∀ p ∈ ps, p ∉ freed → h.size (header p) = h₀.size (header p)

namespace Scattered

variable {h₀ h : Heap} {t : FreeSegment} {ps freed order : List UInt32} {p : UInt32} {hi : ℕ}

theorem start (hlist : h₀.FreeList [t]) : Scattered h₀ t ps [] h₀ := by
  refine ⟨?_, fun _ _ _ => rfl⟩
  cases ps with
  | nil => exact hlist
  | cons p ps => simpa [scattered, front] using hlist

theorem free (hs : Scattered h₀ t ps freed h) (ht : Tiles h₀ t.stop ps hi)
    (hhi : hi + 4 ≤ 2 ^ 32) (hp : p ∈ ps) (hnot : p ∉ freed) :
    ∃ h', Memory.free h p = some h' ∧ Scattered h₀ t ps (freed ++ [p]) h' := by
  have hseg : segmentOf h p = segmentOf h₀ p := by
    rw [segmentOf, segmentOf, hs.size p hp hnot]
  obtain ⟨hlo, -, hsize, hle⟩ := ht.bounds hp
  change t.stop ≤ (header p).toNat at hlo
  change 4 < (h₀.size (header p)).toNat at hsize
  change (header p).toNat + (h₀.size (header p)).toNat ≤ hi at hle
  have := t.addr_add_le_stop
  obtain ⟨h', hcode, hlist, hframe⟩ := free_block hs.list (p := p) (by omega) (by omega)
    (headersApart_scattered ht hhi) fun s => apart_scattered ht hp hnot
  rw [hseg, insertBlock_scattered ht hhi hp hnot] at hlist
  refine ⟨h', hcode, hlist, fun q hq hqnot => ?_⟩
  rw [List.mem_append, List.mem_singleton, not_or] at hqnot
  rw [← hs.size q hq hqnot.1]
  -- the header of a block that is still in use is in no other
  obtain ⟨-, -, hqsize, hqle⟩ := ht.bounds hq
  change 4 < (h₀.size (header q)).toNat at hqsize
  change (header q).toNat + (h₀.size (header q)).toNat ≤ hi at hqle
  apply hframe _ (by omega)
  refine List.forall_mem_cons.mpr ⟨?_, fun s hmem => ?_⟩
  · rcases ht.apart hq hp hqnot.2 with hqp | hqp
    · exact .inl (by show _ ≤ (header p).toNat; omega)
    · exact .inr hqp
  · have := apart_scattered ht hq hqnot.1 hmem
    omega

theorem frees (hs : Scattered h₀ t ps freed h) (ht : Tiles h₀ t.stop ps hi)
    (hhi : hi + 4 ≤ 2 ^ 32) (hnd : order.Nodup) (hsub : ∀ p ∈ order, p ∈ ps ∧ p ∉ freed) :
    ∃ h', order.foldlM Memory.free h = some h' ∧ Scattered h₀ t ps (freed ++ order) h' := by
  induction order generalizing freed h with
  | nil =>
    rw [List.append_nil]
    exact ⟨h, rfl, hs⟩
  | cons p order ih =>
    obtain ⟨hp, hnd⟩ := List.nodup_cons.mp hnd
    obtain ⟨hmem, hnot⟩ := hsub p List.mem_cons_self
    obtain ⟨h₁, hcode, hs₁⟩ := hs.free ht hhi hmem hnot
    have hsub₁ : ∀ q ∈ order, q ∈ ps ∧ q ∉ freed ++ [p] := by
      intro q hq
      obtain ⟨hq', hqnot⟩ := hsub q (List.mem_cons_of_mem _ hq)
      refine ⟨hq', ?_⟩
      rw [List.mem_append, List.mem_singleton, not_or]
      exact ⟨hqnot, fun heq => hp (heq ▸ hq)⟩
    obtain ⟨h', hrun, hs'⟩ := ih hs₁ hnd hsub₁
    refine ⟨h', ?_, ?_⟩
    · rw [List.foldlM_cons, hcode]
      exact hrun
    · rwa [List.append_assoc, List.singleton_append] at hs'

end Scattered

/-! ### Runs -/

/-- A run of allocations keeps the heap tiled. -/
theorem Tiled.run_allocates {a n : UInt32} (hbound : a.toNat + 8 + n.toNat ≤ 2 ^ 31) :
    ∀ (ops : List HeapOp) {s s' : HeapState} {segs : List FreeSegment} {lo : ℕ},
      Tiled a n s segs lo → ValidRun s ops → (∀ p, HeapOp.deallocate p ∉ ops) →
      s.run ops = some s' → ∃ segs' lo', Tiled a n s' segs' lo'
  | [], s, s', segs, lo, t, _, _, hrun => by
    obtain rfl := Option.some.inj hrun
    exact ⟨segs, lo, t⟩
  | .deallocate p :: ops, s, s', segs, lo, t, _, hno, _ => absurd List.mem_cons_self (hno p)
  | .allocate size alignment :: ops, s, s', segs, lo, t, hv, hno, hrun => by
    obtain ⟨s₁, segs₁, lo₁, hs₁, t₁⟩ := t.step_allocate hbound hv.1
    rw [HeapState.run, hs₁, Option.bind_some] at hrun
    exact run_allocates hbound ops t₁ (hv.2 s₁ hs₁)
      (fun p hp => hno p (List.mem_cons_of_mem _ hp)) hrun

/-- **Freed neighbours are never joined.**  After every run of allocations that leaves some of the
first segment, and for every order in which blocks of it are freed: the block right behind the
segment is joined onto it, and every other block is a segment of its own in the free list, which
ends four bytes behind the block, that is, inside the one that follows. -/
theorem frees_scatter {h : Heap} {a n : UInt32} {ops : List HeapOp} {s : HeapState}
    {t : FreeSegment} {order : List UInt32} (hlist : h.FreeList [⟨a, n⟩])
    (hbound : a.toNat + 8 + n.toNat ≤ 2 ^ 31) (hvalid : ValidRun ⟨h, []⟩ ops)
    (hno : ∀ p, HeapOp.deallocate p ∉ ops) (hrun : HeapState.run ⟨h, []⟩ ops = some s)
    (hrest : s.heap.FreeList [t]) (hnd : order.Nodup) (hsub : ∀ p ∈ order, p ∈ s.live) :
    ∃ h', order.foldlM free s.heap = some h' ∧
      h'.FreeList (scattered s.heap t s.live order) ∧
      ∀ p ∈ order, (segmentOf s.heap p).stop
        = (p - sizeofUsedSegment).toNat + (s.heap.size (p - sizeofUsedSegment)).toNat + 4 := by
  obtain ⟨segs, lo, ht⟩ := (Tiled.init hlist).run_allocates hbound ops hvalid hno hrun
  obtain rfl := ht.freeList.unique hrest
  obtain ⟨-, hstop⟩ := ht.mem_segs t (List.mem_singleton_self t)
  have htiles : Tiles s.heap t.stop s.live (a.toNat + 8 + n.toNat) := by
    rw [hstop]
    exact ht.tiles
  obtain ⟨h', hfrees, hs⟩ := (Scattered.start hrest).frees htiles (by omega) hnd
    fun p hp => ⟨hsub p hp, List.not_mem_nil⟩
  exact ⟨h', hfrees, hs.list, fun p hp => stop_segmentOf htiles (hsub p hp)⟩

/-- Three blocks of `smallHeap`, freed from the middle: two segments besides the first, each of
which begins inside the one in front of it. -/
theorem frees_scatter_smallHeap :
    ∃ s h', HeapState.run ⟨smallHeap, []⟩ [.allocate 8 8, .allocate 8 8, .allocate 8 8] = some s ∧
      [4168, 4184, 4152].foldlM free s.heap = some h' ∧
      h'.FreeList [⟨4096, 64⟩, ⟨4164, 12⟩, ⟨4180, 8⟩] := by
  have hvalid : ValidRun ⟨smallHeap, []⟩ [.allocate 8 8, .allocate 8 8, .allocate 8 8] :=
    ⟨valid_allocate_eight _, fun _ _ =>
      ⟨valid_allocate_eight _, fun _ _ => ⟨valid_allocate_eight _, fun _ _ => trivial⟩⟩⟩
  have heval : (HeapState.run ⟨smallHeap, []⟩ [.allocate 8 8, .allocate 8 8, .allocate 8 8]).map
      (fun s => decide (s.live = [4152, 4168, 4184] ∧ s.heap.FreeList [⟨4096, 44⟩] ∧
        scattered s.heap ⟨4096, 44⟩ s.live [4168, 4184, 4152]
          = [⟨4096, 64⟩, ⟨4164, 12⟩, ⟨4180, 8⟩])) = some true := by
    decide +kernel
  obtain ⟨s, hrun, hfacts⟩ := Option.map_eq_some_iff.mp heval
  obtain ⟨hlive, hrest, hscattered⟩ := of_decide_eq_true hfacts
  have hperm : ([4168, 4184, 4152] : List UInt32).Perm [4152, 4168, 4184] :=
    List.perm_append_singleton (4152 : UInt32) [4168, 4184]
  obtain ⟨h', hfrees, hlist, -⟩ := frees_scatter smallHeap_freeList (by decide) hvalid
    (by simp) hrun hrest (show ([4168, 4184, 4152] : List UInt32).Nodup by decide)
    (by rw [hlive]; exact fun p hp => hperm.subset hp)
  rw [hscattered] at hlist
  exact ⟨s, h', hrun, hfrees, hlist⟩

end Shogun.Memory
