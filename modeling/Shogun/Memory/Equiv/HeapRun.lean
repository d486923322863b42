import Shogun.Memory.Client
import Shogun.Memory.Equiv.AllocateRun
import Shogun.Memory.Equiv.Deallocate

/-!
# Runs of `allocate` and `deallocate`

A run starts from a free list of one segment with extent `[a, a + 8 + n)` and makes calls of
`allocate` and of `deallocate` on pointers it got and still holds.  `HeapSafe` is what a heap should
guarantee in every state of a run: the extents of the free segments and of the live blocks are
pairwise disjoint and lie inside the heap.

`heapSafe_iff_no_deallocate`: a run is safe in all its states exactly when it frees nothing.  As
long as it only allocates, the blocks tile the top of the heap (`Tiled`), each ending where the one
before it starts.  `deallocate` then makes of the block `[b, b + f)` a segment that ends at
`b + f + 4`: four bytes into the block above it, or past the end of the heap.
-/

namespace Shogun.Memory

open LinkedList ByteMemory

/-- A call of the run. -/
inductive HeapOp where
  | allocate (size alignment : UInt32)
  | deallocate (p : UInt32)

namespace HeapState

/-- One call; `none` if it does not return. -/
def step (s : HeapState) : HeapOp → Option HeapState
  | .allocate size alignment =>
    (allocate s.heap size alignment).map fun r =>
      ⟨r.1, if r.2 = 0 then s.live else r.2 :: s.live⟩
  | .deallocate p => (deallocate s.heap p).map fun h => ⟨h, s.live.erase p⟩

/-- The calls of a run in turn. -/
def run (s : HeapState) : List HeapOp → Option HeapState
  | [] => some s
  | op :: ops => (s.step op).bind fun s' => s'.run ops

end HeapState

/-- The calls a client may make in the state `s`: a positive size below `2^31` with an alignment
from 8 to 4096, or a pointer it holds. -/
def HeapOp.Valid (s : HeapState) : HeapOp → Prop
  | .allocate size alignment =>
    0 < size.toNat ∧ size.toNat < 2 ^ 31 ∧ ∃ k, 3 ≤ k ∧ k ≤ 12 ∧ alignment.toNat = 2 ^ k
  | .deallocate p => p ∈ s.live

/-- Every call of the run is valid in the state it is made in. -/
def ValidRun : HeapState → List HeapOp → Prop
  | _, [] => True
  | s, op :: ops => op.Valid s ∧ ∀ s', s.step op = some s' → ValidRun s' ops

/-- Free segments and live blocks are pairwise disjoint and inside `[a, a + 8 + n)`. -/
def HeapSafe (a n : UInt32) (s : HeapState) : Prop :=
  ∃ segs, s.heap.FreeList segs
    ∧ (segs.map FreeSegment.extent ++ s.live.map s.heap.usedExtent).Pairwise Disjoint
    ∧ ∀ e ∈ segs.map FreeSegment.extent ++ s.live.map s.heap.usedExtent,
        e ⊆ Set.Ico a.toNat (a.toNat + 8 + n.toNat)

/-- The run returns from all its calls and is safe in every state it reaches. -/
def SafeRun (a n : UInt32) (s : HeapState) (ops : List HeapOp) : Prop :=
  ∀ pre, pre <+: ops → ∃ s', s.run pre = some s' ∧ HeapSafe a n s'

theorem safeRun_cons_iff {a n : UInt32} {s : HeapState} {op : HeapOp} {ops : List HeapOp} :
    SafeRun a n s (op :: ops)
      ↔ HeapSafe a n s ∧ ∃ s', s.step op = some s' ∧ SafeRun a n s' ops := by
  constructor
  · intro h
    obtain ⟨s₀, hs₀, hsafe₀⟩ := h [] (List.nil_prefix)
    obtain rfl : s = s₀ := Option.some.inj hs₀
    refine ⟨hsafe₀, ?_⟩
    obtain ⟨s₁, hs₁, -⟩ := h [op] (by simp)
    obtain ⟨s', hs', -⟩ := Option.bind_eq_some_iff.mp hs₁
    refine ⟨s', hs', fun pre hpre => ?_⟩
    obtain ⟨s₂, hs₂, hsafe₂⟩ := h (op :: pre) (List.cons_prefix_cons.mpr ⟨rfl, hpre⟩)
    rw [HeapState.run, hs', Option.bind_some] at hs₂
    exact ⟨s₂, hs₂, hsafe₂⟩
  · rintro ⟨hsafe, s', hs', hrest⟩ pre hpre
    rcases List.prefix_cons_iff.mp hpre with rfl | ⟨t, rfl, ht⟩
    · exact ⟨s, rfl, hsafe⟩
    · obtain ⟨s₂, hs₂, hsafe₂⟩ := hrest t ht
      exact ⟨s₂, by rw [HeapState.run, hs', Option.bind_some, hs₂], hsafe₂⟩

/-! ### Blocks that tile the top of the heap -/

/-- The blocks `ps`, lowest first, tile `[lo, hi)`; their headers are four bytes below a multiple
of eight. -/
def Tiles (h : Heap) : ℕ → List UInt32 → ℕ → Prop
  | lo, [], hi => lo = hi
  | lo, p :: ps, hi =>
    (p - sizeofUsedSegment).toNat = lo ∧ lo % 8 = 4
      ∧ 4 < (h.size (p - sizeofUsedSegment)).toNat
      ∧ Tiles h (lo + (h.size (p - sizeofUsedSegment)).toNat) ps hi

namespace Tiles

variable {h h' : Heap} {lo hi : ℕ} {ps : List UInt32} {p : UInt32}

theorem le (ht : Tiles h lo ps hi) : lo ≤ hi := by
  induction ps generalizing lo with
  | nil => exact le_of_eq ht
  | cons p ps ih =>
    obtain ⟨-, -, -, hrest⟩ := ht
    exact le_trans (by omega) (ih hrest)

/-- A tile lies in `[lo, hi)`. -/
theorem bounds (ht : Tiles h lo ps hi) (hp : p ∈ ps) :
    lo ≤ (p - sizeofUsedSegment).toNat ∧ (p - sizeofUsedSegment).toNat % 8 = 4
      ∧ 4 < (h.size (p - sizeofUsedSegment)).toNat
      ∧ (p - sizeofUsedSegment).toNat + (h.size (p - sizeofUsedSegment)).toNat ≤ hi := by
  induction ps generalizing lo with
  | nil => simp at hp
  | cons q ps ih =>
    obtain ⟨hq, hmod, hsize, hrest⟩ := ht
    rcases List.mem_cons.mp hp with rfl | hp
    · exact ⟨hq.ge, hq ▸ hmod, hsize, hq ▸ hrest.le⟩
    · obtain ⟨h1, h2, h3, h4⟩ := ih hrest hp
      exact ⟨by omega, h2, h3, h4⟩

/-- The words at the headers are all that the tiling depends on. -/
theorem frame (ht : Tiles h lo ps hi)
    (hsize : ∀ p ∈ ps, h'.size (p - sizeofUsedSegment) = h.size (p - sizeofUsedSegment)) :
    Tiles h' lo ps hi := by
  induction ps generalizing lo with
  | nil => exact ht
  | cons p ps ih =>
    obtain ⟨hp, hmod, hlt, hrest⟩ := ht
    refine ⟨hp, hmod, ?_, ?_⟩
    · rw [hsize p (by simp)]
      exact hlt
    · rw [hsize p (by simp)]
      exact ih hrest fun q hq => hsize q (by simp [hq])

theorem pairwise (ht : Tiles h lo ps hi) : (ps.map h.usedExtent).Pairwise Disjoint := by
  induction ps generalizing lo with
  | nil => exact List.Pairwise.nil
  | cons p ps ih =>
    obtain ⟨hp, -, -, hrest⟩ := ht
    rw [List.map_cons]
    refine List.pairwise_cons.mpr ⟨fun e he => ?_, ih hrest⟩
    obtain ⟨q, hq, rfl⟩ := List.mem_map.mp he
    have := hrest.bounds hq
    rw [Heap.usedExtent, Heap.usedExtent, Set.Ico_disjoint_Ico]
    omega

/-- A tile ends at `hi` or where another one starts. -/
theorem exists_next (ht : Tiles h lo ps hi) (hp : p ∈ ps) :
    (p - sizeofUsedSegment).toNat + (h.size (p - sizeofUsedSegment)).toNat = hi
      ∨ ∃ q ∈ ps, (q - sizeofUsedSegment).toNat
          = (p - sizeofUsedSegment).toNat + (h.size (p - sizeofUsedSegment)).toNat := by
  induction ps generalizing lo with
  | nil => simp at hp
  | cons r ps ih =>
    obtain ⟨hr, -, -, hrest⟩ := ht
    rcases List.mem_cons.mp hp with rfl | hp
    · cases ps with
      | nil => exact .inl (hr ▸ hrest)
      | cons q ps => exact .inr ⟨q, by simp, by rw [hrest.1, hr]⟩
    · rcases ih hrest hp with hend | ⟨q, hq, hqe⟩
      · exact .inl hend
      · exact .inr ⟨q, by simp [hq], hqe⟩

end Tiles

/-- The free list is what is left of the initial segment, at most one segment that ends at `lo`,
and the live blocks tile `[lo, a + 8 + n)`. -/
structure Tiled (a n : UInt32) (s : HeapState) (segs : List FreeSegment) (lo : ℕ) : Prop where
  freeList : s.heap.FreeList segs
  length_le : segs.length ≤ 1
  mem_segs : ∀ u ∈ segs, u.addr = a ∧ u.stop = lo
  le_lo : a.toNat + 8 ≤ lo
  tiles : Tiles s.heap lo s.live (a.toNat + 8 + n.toNat)

namespace Tiled

variable {a n : UInt32} {s : HeapState} {segs : List FreeSegment} {lo : ℕ}
  {size alignment p : UInt32}

theorem init {h : Heap} (hlist : h.FreeList [⟨a, n⟩]) :
    Tiled a n ⟨h, []⟩ [⟨a, n⟩] (a.toNat + 8 + n.toNat) where
  freeList := hlist
  length_le := le_rfl
  mem_segs := by
    intro u hu
    obtain rfl := List.mem_singleton.mp hu
    exact ⟨rfl, rfl⟩
  le_lo := by omega
  tiles := rfl

theorem pairwise_of_length_le {R : FreeSegment → FreeSegment → Prop} (h : segs.length ≤ 1) :
    segs.Pairwise R := by
  match segs, h with
  | [], _ => exact List.Pairwise.nil
  | [u], _ => exact List.pairwise_singleton _ _

theorem wellFormed (t : Tiled a n s segs lo) (hbound : a.toNat + 8 + n.toNat ≤ 2 ^ 31) :
    WellFormed segs := by
  have hle := t.tiles.le
  refine ⟨fun u hu => ?_, pairwise_of_length_le t.length_le⟩
  have := (t.mem_segs u hu).2
  omega

/-- A tiled heap is safe. -/
theorem heapSafe (t : Tiled a n s segs lo) : HeapSafe a n s := by
  have hle := t.tiles.le
  have hlo := t.le_lo
  refine ⟨segs, t.freeList, List.pairwise_append.mpr ⟨?_, t.tiles.pairwise, ?_⟩, ?_⟩
  · exact List.pairwise_map.mpr (pairwise_of_length_le t.length_le)
  · intro e he e' he'
    obtain ⟨u, hu, rfl⟩ := List.mem_map.mp he
    obtain ⟨q, hq, rfl⟩ := List.mem_map.mp he'
    have h1 := t.tiles.bounds hq
    have h2 := t.mem_segs u hu
    rw [FreeSegment.extent, Heap.usedExtent, Set.Ico_disjoint_Ico]
    omega
  · intro e he
    rcases List.mem_append.mp he with he | he
    · obtain ⟨u, hu, rfl⟩ := List.mem_map.mp he
      have h2 := t.mem_segs u hu
      rw [FreeSegment.extent, h2.1, h2.2]
      exact Set.Ico_subset_Ico_right hle
    · obtain ⟨q, hq, rfl⟩ := List.mem_map.mp he
      have h1 := t.tiles.bounds hq
      exact Set.Ico_subset_Ico (by omega) h1.2.2.2

/-- `allocate` returns and keeps the heap tiled. -/
theorem step_allocate (t : Tiled a n s segs lo) (hbound : a.toNat + 8 + n.toNat ≤ 2 ^ 31)
    (hv : (HeapOp.allocate size alignment).Valid s) :
    ∃ s' segs' lo', s.step (.allocate size alignment) = some s' ∧ Tiled a n s' segs' lo' := by
  obtain ⟨hpos, hlt, k, hk3, hk12, hk⟩ := hv
  have hle := t.tiles.le
  rcases allocate_spec ⟨hpos, hlt, k, by omega, hk⟩ t.freeList (t.wellFormed hbound) with
    ⟨-, heq⟩ | ⟨pre, u, post, h', p, rfl, -, heq, hc⟩
  · refine ⟨s, segs, lo, ?_, t⟩
    rw [HeapState.step, heq, Option.map_some, if_pos rfl]
  · -- the one segment is the one carved from
    obtain ⟨rfl, rfl⟩ : pre = [] ∧ post = [] := by
      have hlen := t.length_le
      rw [List.length_append, List.length_cons] at hlen
      exact ⟨List.length_eq_zero_iff.mp (by omega), List.length_eq_zero_iff.mp (by omega)⟩
    obtain ⟨hua, hustop⟩ := t.mem_segs u (by simp)
    have hhdr := hc.header_toNat
    have hlth := hc.lt_header
    have hptr := hc.ptr_toNat
    rw [hustop] at hhdr hlth hptr
    have hp0 : p ≠ 0 := by
      rintro rfl
      exact absurd hptr (by show 0 ≠ _; omega)
    have hlist := hc.freeList
    rw [List.nil_append, List.append_nil] at hlist
    refine ⟨⟨h', p :: s.live⟩, u.shrink (u.need size alignment), lo - u.need size alignment, ?_,
      hlist, ?_, ?_, ?_, ?_⟩
    · rw [HeapState.step, heq, Option.map_some, if_neg hp0]
    · have hsub := (FreeSegment.map_addr_shrink_sublist [] u (u.need size alignment) []).length_le
      rwa [List.nil_append, List.append_nil, List.length_map] at hsub
    · intro v hv
      obtain ⟨h1, h2⟩ := FreeSegment.stop_of_mem_shrink hc.fits hv
      exact ⟨h1.trans hua, by rw [h2, hustop]⟩
    · rw [← hua]
      exact hlth.1
    · refine ⟨hhdr, ?_, ?_, ?_⟩
      · -- the data pointer is a multiple of eight
        have hal : 2 ^ 3 ∣ alignment.toNat := by
          rw [hk]
          exact pow_dvd_pow 2 hk3
        have h8 := dvd_trans hal hc.alignment_dvd
        omega
      · rw [hc.used_size, FreeSegment.need]
        omega
      · -- the headers of the blocks above are outside the segment
        rw [hc.used_size, Nat.sub_add_cancel hlth.2]
        apply t.tiles.frame
        intro q hq
        have hb := t.tiles.bounds hq
        apply hc.frame _ (by omega)
        intro v hv
        have := t.mem_segs v (by simpa using hv)
        omega

/-- Freeing a tile leaves a free segment that ends four bytes past it. -/
theorem exists_mem_insertBlock (t : Tiled a n s segs lo)
    (hbound : a.toNat + 8 + n.toNat ≤ 2 ^ 31) (hp : p ∈ s.live) :
    ∃ u ∈ insertBlock segs
        (freedSegment (p - sizeofUsedSegment) (s.heap.size (p - sizeofUsedSegment))),
      u.addr.toNat ≤ (p - sizeofUsedSegment).toNat
        ∧ u.stop = (p - sizeofUsedSegment).toNat
            + (s.heap.size (p - sizeofUsedSegment)).toNat + 4 := by
  obtain ⟨hlo, -, hsize, hhi⟩ := t.tiles.bounds hp
  have hle := t.le_lo
  set b := p - sizeofUsedSegment
  set f := s.heap.size b
  have hstop : (freedSegment b f).stop = b.toNat + f.toNat + 4 := freedSegment_stop hsize.le
  match segs, t with
  | [], _ => exact ⟨freedSegment b f, List.mem_singleton_self _, le_rfl, hstop⟩
  | [u], t =>
    obtain ⟨hua, hustop⟩ := t.mem_segs u (by simp)
    -- the free segment lies below every block
    have hub : u.addr < b := UInt32.lt_iff_toNat_lt.mpr (by rw [hua]; omega)
    have hsingle : join (freedSegment b f) [] = [freedSegment b f] := rfl
    have hins : insertBlock [u] (freedSegment b f) = join u [freedSegment b f] := by
      have hub' : u.addr < (freedSegment b f).addr := hub
      simp [insertBlock, joinBetween, hub', hsingle]
    rw [hins, join]
    split_ifs with hadj
    · -- the segment below the block absorbs it
      refine ⟨_, List.mem_singleton_self _, (UInt32.lt_iff_toNat_lt.mp hub).le, ?_⟩
      have hbs : b.toNat = u.stop := by
        have hnat := congrArg UInt32.toNat hadj
        rw [UInt32.toNat_add, UInt32.toNat_add] at hnat
        change b.toNat = ((u.addr.toNat + 8) % 2 ^ 32 + u.size.toNat) % 2 ^ 32 at hnat
        rw [FreeSegment.stop] at hustop ⊢
        omega
      have hfsub : (f - sizeofUsedSegment).toNat = f.toNat - 4 :=
        UInt32.toNat_sub_of_le _ _ (UInt32.le_iff_toNat_le.mpr hsize.le)
      show u.addr.toNat + 8 + (u.size + 8 + (f - sizeofUsedSegment)).toNat = _
      rw [UInt32.toNat_add, UInt32.toNat_add, hfsub]
      change u.addr.toNat + 8 + ((u.size.toNat + 8) % 2 ^ 32 + (f.toNat - 4)) % 2 ^ 32 = _
      rw [FreeSegment.stop] at hbs
      omega
    · exact ⟨freedSegment b f, by simp, le_rfl, hstop⟩

/-- The first `deallocate` of a run breaks it. -/
theorem not_heapSafe_deallocate (t : Tiled a n s segs lo)
    (hbound : a.toNat + 8 + n.toNat ≤ 2 ^ 31) (hp : p ∈ s.live) {s' : HeapState}
    (hs' : s.step (.deallocate p) = some s') : ¬ HeapSafe a n s' := by
  obtain ⟨hlo, hmod, hsize, hhi⟩ := t.tiles.bounds hp
  have hle := t.le_lo
  obtain ⟨u, hu, hub, hustop⟩ := t.exists_mem_insertBlock hbound hp
  have hnext := t.tiles.exists_next hp
  have hpb : p = p - sizeofUsedSegment + sizeofUsedSegment := (sub_add_cancel _ _).symm
  set b := p - sizeofUsedSegment with hb
  set f := s.heap.size b with hf
  have hap : HeadersApart (freedSegment b f :: segs) := by
    refine ⟨List.forall_mem_cons.mpr ⟨by show b.toNat + 8 ≤ 2 ^ 32; omega, fun v hv => ?_⟩,
      List.pairwise_cons.mpr ⟨fun v hv => ?_, pairwise_of_length_le t.length_le⟩⟩
    · rw [(t.mem_segs v hv).1]
      omega
    · rw [(t.mem_segs v hv).1]
      exact .inr (by show a.toNat + 8 ≤ b.toNat; omega)
  have hb0 : b ≠ 0 := by
    intro h0
    rw [h0] at hmod
    exact absurd hmod (by decide)
  obtain ⟨h', hcode, hlist, hframe⟩ := deallocate_spec t.freeList hap hb0
  obtain rfl : s' = ⟨h', s.live.erase p⟩ := by
    rw [HeapState.step, hpb, hcode, Option.map_some] at hs'
    rw [hpb]
    exact (Option.some.inj hs').symm
  rintro ⟨segs', hlist', hpair, hin⟩
  obtain rfl := hlist'.unique hlist
  -- the freed segment lies inside the heap, so another block starts where this one ended
  have hinside := hin u.extent (List.mem_append_left _ (List.mem_map_of_mem hu))
  have hend : b.toNat + f.toNat + 4 ≤ a.toNat + 8 + n.toNat := by
    have hmem : b.toNat + f.toNat + 3 ∈ u.extent := ⟨by omega, by omega⟩
    have := (hinside hmem).2
    omega
  obtain ⟨q, hq, hqb⟩ := hnext.resolve_left (by omega)
  obtain ⟨-, hqmod, hqsize, hqhi⟩ := t.tiles.bounds hq
  have hqp : q ≠ p := by
    intro he
    rw [he, ← hb] at hqb
    omega
  -- its header is untouched: the blocks are multiples of eight bytes long
  have hqkeep : h'.size (q - sizeofUsedSegment) = s.heap.size (q - sizeofUsedSegment) := by
    have hb4 : (b + 4).toNat = b.toNat + 4 :=
      FreeSegment.addr_add_four_toNat (s := freedSegment b f) (hap.le _ (by simp))
    apply hframe _ (by rw [Apart]; omega) (by rw [Apart, hb4]; omega)
    rintro v hv -
    have hv4 := FreeSegment.addr_add_four_toNat (hap.le v (by simp [hv]))
    have hva := (t.mem_segs v hv).1
    rw [Apart, Apart, hv4, hva]
    omega
  have hdisj := (List.pairwise_append.mp hpair).2.2 u.extent (List.mem_map_of_mem hu)
    (h'.usedExtent q) (List.mem_map_of_mem ((List.mem_erase_of_ne hqp).mpr hq))
  rw [FreeSegment.extent, Heap.usedExtent, hqkeep, Set.Ico_disjoint_Ico] at hdisj
  omega

end Tiled

/-- From a tiled heap a run is safe exactly when it frees nothing: `allocate` keeps the heap tiled
and the first `deallocate` breaks it. -/
theorem safeRun_iff_of_tiled {a n : UInt32} (hbound : a.toNat + 8 + n.toNat ≤ 2 ^ 31) :
    ∀ (ops : List HeapOp) {s : HeapState} {segs : List FreeSegment} {lo : ℕ},
      Tiled a n s segs lo → ValidRun s ops →
      (SafeRun a n s ops ↔ ∀ p, HeapOp.deallocate p ∉ ops)
  | [], s, segs, lo, t, _ => by
    refine ⟨fun _ => by simp, fun _ pre hpre => ?_⟩
    obtain rfl := List.prefix_nil.mp hpre
    exact ⟨s, rfl, t.heapSafe⟩
  | .allocate size alignment :: ops, s, segs, lo, t, hv => by
    obtain ⟨s', segs', lo', hs', t'⟩ := t.step_allocate hbound hv.1
    have ih := safeRun_iff_of_tiled hbound ops t' (hv.2 s' hs')
    rw [safeRun_cons_iff]
    constructor
    · rintro ⟨-, s₁, hs₁, hsafe⟩ p hp
      obtain rfl := Option.some.inj (hs'.symm.trans hs₁)
      exact ih.mp hsafe p (by simpa using hp)
    · intro hno
      exact ⟨t.heapSafe, s', hs', ih.mpr fun p hp => hno p (by simp [hp])⟩
  | .deallocate p :: ops, s, segs, lo, t, hv => by
    -- the state after this call is not safe, whatever follows
    refine ⟨fun hsafe => ?_, fun hno => absurd List.mem_cons_self (hno p)⟩
    obtain ⟨-, s', hs', hrest⟩ := safeRun_cons_iff.mp hsafe
    obtain ⟨s₁, hs₁, hsafe₁⟩ := hrest [] List.nil_prefix
    obtain rfl := Option.some.inj hs₁
    exact absurd hsafe₁ (t.not_heapSafe_deallocate hbound hv.1 hs')

/-- **A run is safe exactly when it frees nothing.**  From a free list of one segment with extent
`[a, a + 8 + n)` below `2^31`, every call of a run returns and every state it reaches is safe if and
only if the run contains no `deallocate`. -/
theorem heapSafe_iff_no_deallocate {h : Heap} {a n : UInt32} {ops : List HeapOp}
    (hlist : h.FreeList [⟨a, n⟩]) (hbound : a.toNat + 8 + n.toNat ≤ 2 ^ 31)
    (hvalid : ValidRun ⟨h, []⟩ ops) :
    SafeRun a n ⟨h, []⟩ ops ↔ ∀ p, HeapOp.deallocate p ∉ ops :=
  safeRun_iff_of_tiled hbound ops (.init hlist) hvalid

theorem valid_allocate_eight (s : HeapState) : (HeapOp.allocate 8 8).Valid s :=
  ⟨by decide, by decide, 3, by decide, by decide, by decide⟩

theorem heapSafe_iff_no_deallocate_smallHeap :
    SafeRun 4096 88 ⟨smallHeap, []⟩ [.allocate 8 8, .allocate 8 8] := by
  refine (heapSafe_iff_no_deallocate smallHeap_freeList (by decide) ?_).mpr (by simp)
  exact ⟨valid_allocate_eight _, fun _ _ => ⟨valid_allocate_eight _, fun _ _ => trivial⟩⟩

/-- One block taken from `[4096, 4192)` and given back: the segment that comes of it ends at
4196. -/
theorem not_safeRun_smallHeap :
    ValidRun ⟨smallHeap, []⟩ [.allocate 8 8, .deallocate 4184]
      ∧ ¬ SafeRun 4096 88 ⟨smallHeap, []⟩ [.allocate 8 8, .deallocate 4184] := by
  have hlive : (HeapState.step ⟨smallHeap, []⟩ (.allocate 8 8)).map HeapState.live
      = some [4184] := by decide
  have hvalid : ValidRun ⟨smallHeap, []⟩ [.allocate 8 8, .deallocate 4184] := by
    refine ⟨valid_allocate_eight _, fun s' hs' => ⟨?_, fun _ _ => trivial⟩⟩
    rw [hs', Option.map_some] at hlive
    show 4184 ∈ s'.live
    rw [Option.some.inj hlive]
    exact List.mem_singleton_self _
  refine ⟨hvalid, fun hsafe => ?_⟩
  have hiff := safeRun_iff_of_tiled (by decide) _ (.init smallHeap_freeList) hvalid
  exact hiff.mp hsafe 4184 (by simp)

end Shogun.Memory
