import Shogun.Memory.Equiv.Client

/-!
# The layout of a heap can be computed

The free list of a heap is found by a walk, so whether a heap is sound, and whether the block that
`malloc` is about to hand out is clear, are decidable.
-/

namespace Shogun.Memory

open LinkedList

-- statements about the elements of a list are decided by going through the list
instance (priority := 2000) forallMemDecidable {α : Type*} {P : α → Prop} [DecidablePred P]
    (l : List α) : Decidable (∀ x ∈ l, P x) := List.decidableBAll P l

/-- The segments of the free list, if it ends. -/
def Heap.freeSegments (h : Heap) : Option (List FreeSegment) :=
  (nodes h.links.next (2 ^ 32) h.links.head).map fun as => as.map fun a => ⟨a, h.size a⟩

theorem Heap.freeSegments_eq_some_iff {h : Heap} {segs : List FreeSegment} :
    h.freeSegments = some segs ↔ h.FreeList segs := by
  rw [freeSegments, Option.map_eq_some_iff]
  constructor
  · rintro ⟨as, has, rfl⟩
    obtain ⟨hc, -⟩ := nodes_eq_some_iff.mp has
    refine ⟨?_, List.forall_mem_map.mpr fun _ _ => rfl⟩
    rw [List.map_map]
    exact (List.map_id as).symm ▸ hc
  · intro hs
    refine ⟨segs.map FreeSegment.addr, nodes_eq_some_iff.mpr ⟨hs.links, ?_⟩, ?_⟩
    · rw [List.length_map]
      exact hs.length_lt.le
    · rw [List.map_map]
      refine (List.map_congr_left fun s hmem => ?_).trans (List.map_id segs)
      rw [Function.comp, hs.size s hmem]
      rfl

instance {P : List FreeSegment → Prop} [DecidablePred P] (h : Heap) :
    Decidable (∃ segs, h.FreeList segs ∧ P segs) :=
  decidable_of_iff (∃ segs ∈ h.freeSegments, P segs)
    (exists_congr fun _ => and_congr_left fun _ => Heap.freeSegments_eq_some_iff)

/-- The ways to cut a list at one of its elements. -/
def splits {α : Type*} : List α → List (List α × α × List α)
  | [] => []
  | x :: xs => ([], x, xs) :: (splits xs).map fun t => (x :: t.1, t.2)

theorem mem_splits {α : Type*} {l pre post : List α} {x : α} :
    (pre, x, post) ∈ splits l ↔ l = pre ++ x :: post := by
  induction l generalizing pre with
  | nil => simp [splits]
  | cons y l ih =>
    cases pre with
    | nil => simp [splits, eq_comm]
    | cons z pre =>
      simp only [splits, List.mem_cons, List.mem_map, Prod.mk.injEq, reduceCtorEq, false_and,
        List.cons.injEq, false_or, List.cons_append]
      constructor
      · rintro ⟨⟨pre', t⟩, ht, ⟨rfl, rfl⟩, rfl⟩
        exact ⟨rfl, ih.mp ht⟩
      · rintro ⟨rfl, hl⟩
        exact ⟨_, ih.mpr hl, ⟨rfl, rfl⟩, rfl⟩

namespace HeapState

variable {m : HeapState}

instance (segs : List FreeSegment) : Decidable (HeadersApart segs) :=
  decidable_of_iff ((∀ s ∈ segs, s.addr.toNat + 8 ≤ 2 ^ 32) ∧ segs.Pairwise fun s t =>
      s.addr.toNat + 8 ≤ t.addr.toNat ∨ t.addr.toNat + 8 ≤ s.addr.toNat)
    ⟨fun h => ⟨h.1, h.2⟩, fun h => ⟨h.le, h.apart⟩⟩

instance (segs : List FreeSegment) : Decidable (Layout m segs) :=
  decidable_of_iff (m.heap.FreeList segs ∧ HeadersApart segs ∧ (∀ p ∈ m.live, 0 < (header p).toNat)
      ∧ (∀ p ∈ m.live, 8 ≤ (m.heap.size (header p)).toNat)
      ∧ (∀ p ∈ m.live, m.heap.blockStop p ≤ 2 ^ 32)
      ∧ (m.live.Pairwise fun p q =>
          m.heap.blockStop p ≤ (header q).toNat ∨ m.heap.blockStop q ≤ (header p).toNat)
      ∧ ∀ p ∈ m.live, ∀ s ∈ segs,
          m.heap.blockStop p ≤ s.addr.toNat ∨ s.addr.toNat + 8 ≤ (header p).toNat)
    ⟨fun ⟨h1, h2, h3, h4, h5, h6, h7⟩ => ⟨h1, h2, h3, h4, h5, h6, h7⟩,
      fun l => ⟨l.freeList, l.headersApart, l.header_pos, l.size_le, l.stop_le, l.disjoint,
        l.apart⟩⟩

instance : Decidable m.Sound :=
  decidable_of_iff (∃ segs, m.heap.FreeList segs ∧ m.Layout segs)
    (exists_congr fun _ => and_iff_right_of_imp Layout.freeList)

instance (p : UInt32) (n : ℕ) : Decidable (m.Owns p n) :=
  decidable_of_iff (p ∈ m.live ∧ n + 4 ≤ (m.heap.size (header p)).toNat)
    ⟨fun h => ⟨h.1, h.2⟩, fun h => ⟨h.live, h.size_le⟩⟩

instance (size : UInt32) (pre : List FreeSegment) (s : FreeSegment) (post : List FreeSegment) :
    Decidable (m.Serves size pre s post) :=
  decidable_of_iff (m.heap.FreeList (pre ++ s :: post) ∧ (∀ t ∈ pre, ¬ fits m.heap size 8 t.addr)
      ∧ fits m.heap size 8 s.addr ∧ s.stop ≤ 2 ^ 32
      ∧ (∀ t ∈ pre ++ post,
          t.addr.toNat + 8 ≤ (headerPtr m.heap size 8 s.addr).toNat ∨ s.stop ≤ t.addr.toNat)
      ∧ ∀ p ∈ m.live, m.heap.blockStop p ≤ (headerPtr m.heap size 8 s.addr).toNat
          ∨ s.stop ≤ (header p).toNat)
    ⟨fun ⟨h1, h2, h3, h4, h5, h6⟩ => ⟨h1, h2, h3, h4, h5, h6⟩,
      fun h => ⟨h.freeList, h.skips, h.fits, h.stop_le, h.segments, h.blocks⟩⟩

instance (size : UInt32) : Decidable (m.Clear size) :=
  decidable_of_iff (∃ segs, m.heap.FreeList segs ∧
      ∃ t ∈ splits segs, m.Serves size t.1 t.2.1 t.2.2) <| by
    constructor
    · rintro ⟨_, -, ⟨pre, s, post⟩, -, hv⟩
      exact ⟨pre, s, post, hv⟩
    · rintro ⟨pre, s, post, hv⟩
      exact ⟨_, hv.freeList, (pre, s, post), mem_splits.mpr rfl, hv⟩

instance (size : UInt32) : Decidable (m.Full size) :=
  inferInstanceAs (Decidable (∃ segs, m.heap.FreeList segs ∧
    ∀ s ∈ segs, ¬ fits m.heap size 8 s.addr))

end HeapState

end Shogun.Memory
