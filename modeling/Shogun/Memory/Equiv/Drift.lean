import Shogun.Memory.Equiv.AllocateRun
import Shogun.Memory.Equiv.Deallocate
import Shogun.Util.Loop

/-!
# The end of the heap drifts

A block that `malloc` carves from the end of the only free segment and `free` gives back leaves the
segment with four bytes more than before.

* `malloc_single`, `free_carved`: the two calls on a list of one segment.
* `Drifted`: the end of the segment, from the block kept last and the blocks freed since.
* `heapUse_drifts`: after every run the free segment reaches four bytes into what is behind it for
  each of those.
-/

namespace Shogun.Memory

/-! ### The two calls -/

section Calls

variable {h h' : Heap} {s : FreeSegment} {size p : UInt32}

theorem validRequest_malloc (hpos : size ≠ 0) (hlt : size.toNat < 2 ^ 31) :
    ValidRequest size 8 where
  size_pos := by
    apply Nat.pos_of_ne_zero
    intro hzero
    exact hpos (UInt32.toNat_inj.mp hzero)
  size_lt := hlt
  alignment_eq := ⟨3, by decide, rfl⟩

theorem wellFormed_single (hstop : s.stop ≤ 2 ^ 32) : WellFormed [s] :=
  ⟨fun t ht => by rw [List.mem_singleton.mp ht]; exact hstop, List.pairwise_singleton _ _⟩

/-- `malloc` on a list of one segment. -/
theorem malloc_single (hlist : h.FreeList [s]) (hstop : s.stop ≤ 2 ^ 32)
    (hlt : size.toNat < 2 ^ 31) :
    (size = 0 ∨ ¬ s.Fits size 8) ∧ malloc h size = some (h, 0) ∨
      ∃ h' p, malloc h size = some (h', p) ∧ p ≠ 0 ∧ Carved h h' [] s [] size 8 p := by
  by_cases hpos : size = 0
  · left
    rw [malloc, allocate, if_pos hpos]
    exact ⟨.inl hpos, rfl⟩
  rcases allocate_spec (validRequest_malloc hpos hlt) hlist (wellFormed_single hstop) with
    ⟨hfits, hnone⟩ | ⟨pre, t, post, h', p, hsplit, -, hcode, hcarved⟩
  · exact .inl ⟨.inr (hfits s (List.mem_singleton_self s)), hnone⟩
  · obtain ⟨rfl, rfl, rfl⟩ : pre = [] ∧ t = s ∧ post = [] := by
      cases pre with
      | nil =>
        obtain ⟨rfl, rfl⟩ := List.cons.inj hsplit
        exact ⟨rfl, rfl, rfl⟩
      | cons u pre =>
        have hlen := congrArg List.length hsplit
        simp at hlen
    refine .inr ⟨h', p, hcode, ?_, hcarved⟩
    rintro rfl
    have hptr := hcarved.ptr_toNat
    have hzero : (0 : UInt32).toNat = 0 := rfl
    omega

/-- An empty free list has nothing to give. -/
theorem malloc_nil (hlist : h.FreeList []) (hlt : size.toNat < 2 ^ 31) :
    malloc h size = some (h, 0) := by
  by_cases hpos : size = 0
  · rw [malloc, allocate, if_pos hpos]
  rcases allocate_spec (validRequest_malloc hpos hlt) hlist
    ⟨fun t ht => absurd ht List.not_mem_nil, List.Pairwise.nil⟩ with
    ⟨-, hnone⟩ | ⟨pre, t, post, h', p, hsplit, -⟩
  · exact hnone
  · exact absurd hsplit (by simp)

/-- What is left of the segment in front of a block that was carved. -/
theorem shrink_cases (hcarved : Carved h h' [] s [] size 8 p) :
    h'.FreeList [] ∨ ∃ t, h'.FreeList [t] ∧ t.addr = s.addr ∧ t.stop = s.stop - s.need size 8 := by
  have hlist := hcarved.freeList
  rw [List.nil_append, List.append_nil] at hlist
  have hstop := fun t => FreeSegment.stop_of_mem_shrink (t := t) hcarved.fits
  unfold FreeSegment.shrink at hlist hstop
  split_ifs at hlist hstop with hall
  · exact .inl hlist
  · exact .inr ⟨_, hlist, hstop _ (List.mem_singleton_self _)⟩

/-- `free` of a block that was carved from the only segment: it becomes one segment again, which
ends four bytes further up. -/
theorem free_carved (hcarved : Carved h h' [] s [] size 8 p) (hroom : s.stop + 4 ≤ 2 ^ 32) :
    ∃ h'' t, free h' p = some h'' ∧ h''.FreeList [t] ∧ s.addr.toNat ≤ t.addr.toNat ∧
      t.stop = s.stop + 4 := by
  set b := p - sizeofUsedSegment with hb
  have hbnat : b.toNat = s.stop - s.need size 8 := hcarved.header_toNat
  obtain ⟨hlow, hneed⟩ := hcarved.lt_header
  have hsize : 4 ≤ s.need size 8 := Nat.le_add_left 4 _
  have hused : (h'.size b).toNat = s.need size 8 := hcarved.used_size
  have hp : b + sizeofUsedSegment = p := sub_add_cancel _ _
  have hb0 : b ≠ 0 := by
    intro hzero
    rw [hzero] at hbnat
    have : (0 : UInt32).toNat = 0 := rfl
    omega
  have hfreed : (freedSegment b (h'.size b)).stop = s.stop + 4 := by
    rw [freedSegment_stop (by omega), hused, hbnat]
    omega
  rcases shrink_cases hcarved with hlist | ⟨t, hlist, haddr, hstop⟩
  · -- the block was the whole data area
    have hap : HeadersApart [freedSegment b (h'.size b)] :=
      ⟨fun u hu => by
        rw [List.mem_singleton.mp hu]
        show b.toNat + 8 ≤ 2 ^ 32
        omega, List.pairwise_singleton _ _⟩
    obtain ⟨h'', hcode, hlist', -⟩ := deallocate_spec hlist hap hb0
    rw [hp] at hcode
    refine ⟨h'', _, hcode, hlist', ?_, hfreed⟩
    show s.addr.toNat ≤ b.toNat
    omega
  · -- the freed segment touches what is left in front of it
    have hbstop : b.toNat = t.stop := hbnat.trans hstop.symm
    have hle : t.addr.toNat + 8 ≤ b.toNat := by
      rw [hbstop]
      exact t.addr_add_le_stop
    have hap : HeadersApart [freedSegment b (h'.size b), t] := by
      refine ⟨?_, ?_⟩
      · intro u hu
        rcases List.mem_pair.mp hu with rfl | rfl
        · show b.toNat + 8 ≤ 2 ^ 32
          omega
        · omega
      · rw [List.pairwise_pair]
        exact .inr hle
    obtain ⟨h'', hcode, hlist', -⟩ := deallocate_spec hlist hap hb0
    rw [hp] at hcode
    have hlt : t.addr < b := by
      rw [UInt32.lt_iff_toNat_lt]
      omega
    have htouch : (freedSegment b (h'.size b)).addr = t.addr + sizeofFreeSegment + t.size := by
      apply UInt32.toNat_inj.mp
      show b.toNat = ((t.addr.toNat + 8) % 2 ^ 32 + t.size.toNat) % 2 ^ 32
      have : t.stop = t.addr.toNat + 8 + t.size.toNat := rfl
      have := b.toNat_lt
      omega
    have hinsert : insertBlock [t] (freedSegment b (h'.size b))
        = [{ t with size := t.size + sizeofFreeSegment + (freedSegment b (h'.size b)).size }] := by
      have hbelow : t.addr < (freedSegment b (h'.size b)).addr := hlt
      have htake : [t].takeWhile (·.addr < (freedSegment b (h'.size b)).addr) = [t] := by
        simp [hbelow]
      have hdrop : [t].dropWhile (·.addr < (freedSegment b (h'.size b)).addr) = [] := by
        simp [hbelow]
      rw [insertBlock, htake, hdrop]
      show [] ++ join t [freedSegment b (h'.size b)] = _
      rw [join, if_pos htouch]
      rfl
    rw [hinsert] at hlist'
    refine ⟨h'', _, hcode, hlist', by show s.addr.toNat ≤ t.addr.toNat; rw [haddr], ?_⟩
    show t.addr.toNat + 8
      + (t.size + sizeofFreeSegment + (freedSegment b (h'.size b)).size).toNat = _
    rw [UInt32.toNat_add, UInt32.toNat_add, show sizeofFreeSegment.toNat = 8 from rfl]
    have : t.stop = t.addr.toNat + 8 + t.size.toNat := rfl
    have : (freedSegment b (h'.size b)).stop
      = b.toNat + 8 + (freedSegment b (h'.size b)).size.toNat := rfl
    omega

end Calls

/-! ### Runs -/

theorem UseState.step_keep {s : UseState} {size p : UInt32} {h : Heap}
    (hcode : malloc s.heap size = some (h, p)) :
    s.step (.keep size) = some (if p = 0 then { s with heap := h } else ⟨h, some p, 0⟩) := by
  simp only [UseState.step, hcode, Option.bind_eq_bind, Option.bind_some, Option.pure_def]

theorem UseState.step_use {s : UseState} {size p : UInt32} {h h' : Heap}
    (hcode : malloc s.heap size = some (h, p)) (hfree : free h p = some h') :
    s.step (.use size) = some (if p = 0 then { s with heap := h' }
      else { s with heap := h', freed := s.freed + 1 }) := by
  simp only [UseState.step, hcode, hfree, Option.bind_eq_bind, Option.bind_some, Option.pure_def]

/-- Where the segment would end by the blocks alone: at the header of the block kept last, or at the
end of the heap. -/
def UseState.limit (stop : ℕ) (s : UseState) : ℕ :=
  match s.kept with
  | none => stop
  | some p => p.toNat - 4

/-- The free memory after `n` steps of a run from one segment with end `stop`. -/
structure Drifted (stop n : ℕ) (s : UseState) : Prop where
  bound : s.limit stop + 4 * s.freed ≤ stop + 4 * n
  list : s.heap.FreeList [] ∧ s.freed = 0 ∨
    ∃ t, s.heap.FreeList [t] ∧ t.stop = s.limit stop + 4 * s.freed

namespace Drifted

variable {stop n : ℕ} {s : UseState} {size : UInt32}

/-- A request that is refused. -/
theorem refused (h : Drifted stop n s) : Drifted stop (n + 1) s :=
  ⟨h.bound.trans (by omega), h.list⟩

theorem keep (h : Drifted stop n s) (hroom : stop + 4 * (n + 1) ≤ 2 ^ 32)
    (hlt : size.toNat < 2 ^ 31) :
    ∃ s', s.step (.keep size) = some s' ∧ Drifted stop (n + 1) s' := by
  have hbound := h.bound
  have hrefused : malloc s.heap size = some (s.heap, 0) → s.step (.keep size) = some s :=
    fun hcode => (UseState.step_keep hcode).trans (by rw [if_pos rfl])
  rcases h.list with ⟨hlist, -⟩ | ⟨t, hlist, hstop⟩
  · exact ⟨s, hrefused (malloc_nil hlist hlt), h.refused⟩
  · rcases malloc_single hlist (by omega) hlt with ⟨-, hcode⟩ | ⟨h', p, hcode, hp, hcarved⟩
    · exact ⟨s, hrefused hcode, h.refused⟩
    · have hlimit : UseState.limit stop ⟨h', some p, 0⟩ = t.stop - t.need size 8 := by
        show p.toNat - 4 = _
        rw [hcarved.ptr_toNat, Nat.add_sub_cancel]
      refine ⟨⟨h', some p, 0⟩, ?_, ?_, ?_⟩
      · rw [UseState.step_keep hcode, if_neg hp]
      · rw [hlimit, Nat.mul_zero, Nat.add_zero]
        omega
      · rw [hlimit]
        rcases shrink_cases hcarved with hlist' | ⟨u, hlist', -, hustop⟩
        · exact .inl ⟨hlist', rfl⟩
        · exact .inr ⟨u, hlist', by rw [hustop, Nat.mul_zero, Nat.add_zero]⟩

theorem use (h : Drifted stop n s) (hroom : stop + 4 * (n + 1) ≤ 2 ^ 32)
    (hlt : size.toNat < 2 ^ 31) : ∃ s', s.step (.use size) = some s' ∧ Drifted stop (n + 1) s' := by
  have hbound := h.bound
  have hrefused : malloc s.heap size = some (s.heap, 0) → s.step (.use size) = some s :=
    fun hcode => (UseState.step_use hcode (by rw [free, deallocate, if_pos rfl])).trans
      (by rw [if_pos rfl])
  rcases h.list with ⟨hlist, -⟩ | ⟨t, hlist, hstop⟩
  · exact ⟨s, hrefused (malloc_nil hlist hlt), h.refused⟩
  · rcases malloc_single hlist (by omega) hlt with ⟨-, hcode⟩ | ⟨h', p, hcode, hp, hcarved⟩
    · exact ⟨s, hrefused hcode, h.refused⟩
    · obtain ⟨h'', u, hfree, hlist', -, hustop⟩ := free_carved hcarved (by omega)
      refine ⟨{ s with heap := h'', freed := s.freed + 1 }, ?_, ?_, .inr ⟨u, hlist', ?_⟩⟩
      · rw [UseState.step_use hcode hfree, if_neg hp]
      · show s.limit stop + 4 * (s.freed + 1) ≤ _
        omega
      · show u.stop = s.limit stop + 4 * (s.freed + 1)
        omega

end Drifted

/-- The size that a step asks for. -/
def HeapUse.size : HeapUse → UInt32
  | .keep size => size
  | .use size => size

/-- **Every block that is freed moves the end of free memory up by four bytes.**  From a free list
of one segment, and for every sequence of blocks that are kept and blocks that are freed at once:
the free memory is one segment again (or none), and it ends four bytes for each block freed since
beyond the header of the block kept last, or beyond the end of the heap when no block was kept.  So
it covers the header of a block that is in use, or memory that is not the heap's, as soon as one
block was freed. -/
theorem heapUse_drifts {h : Heap} {t : FreeSegment} (hlist : h.FreeList [t]) (ops : List HeapUse)
    (hroom : t.stop + 4 * ops.length ≤ 2 ^ 32) (hsizes : ∀ op ∈ ops, op.size.toNat < 2 ^ 31) :
    ∃ s, UseState.run ⟨h, none, 0⟩ ops = some s ∧
      (s.heap.FreeList [] ∧ s.freed = 0 ∨ ∃ u, s.heap.FreeList [u] ∧
        u.stop = (match s.kept with
          | none => t.stop
          | some p => p.toNat - 4) + 4 * s.freed) := by
  have hrun : ∃ s, UseState.run ⟨h, none, 0⟩ ops = some s ∧ Drifted t.stop ops.length s := by
    induction ops using List.reverseRecOn with
    | nil => exact ⟨_, rfl, le_rfl, .inr ⟨t, hlist, rfl⟩⟩
    | append_singleton ops op ih =>
      rw [List.length_append, List.length_singleton] at hroom ⊢
      obtain ⟨s, hrun, hs⟩ := ih (by omega) fun op' hop' => hsizes op' (List.mem_append_left _ hop')
      have hsize := hsizes op (List.mem_append_right _ (List.mem_singleton_self op))
      have hsnoc : UseState.run ⟨h, none, 0⟩ (ops ++ [op]) = s.step op :=
        (foldlM_append_of_eq_some hrun [op]).trans (bind_pure (s.step op))
      rw [hsnoc]
      cases op with
      | keep size => exact hs.keep hroom hsize
      | use size => exact hs.use hroom hsize
  obtain ⟨s, hrun, hs⟩ := hrun
  exact ⟨s, hrun, hs.list⟩

theorem heapUse_drifts_smallHeap :
    smallHeap.FreeList [⟨4096, 88⟩] ∧
      ∃ s, UseState.run ⟨smallHeap, none, 0⟩ [.use 8, .keep 8, .use 16] = some s ∧
        (s.heap.FreeList [] ∧ s.freed = 0 ∨ ∃ u, s.heap.FreeList [u] ∧
          u.stop = (match s.kept with
            | none => 4192
            | some p => p.toNat - 4) + 4 * s.freed) :=
  ⟨smallHeap_freeList,
    heapUse_drifts smallHeap_freeList [.use 8, .keep 8, .use 16] (by decide) (by decide)⟩

end Shogun.Memory
