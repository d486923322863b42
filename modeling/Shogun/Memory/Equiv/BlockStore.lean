import Shogun.Memory.Equiv.Client

/-!
# The heap as a store of blocks

A client sees its part of the heap as blocks of words by address, `Blocks`.  `Holds m σ` says that
the blocks of `σ` are in use in `m`, with these words.  Each operation of the heap does to such a
store what its name says: a write changes one word of one block, `malloc` adds a block when the one
it hands out is clear, and `free` removes one.
-/

namespace Shogun.Memory

open ByteMemory

/-- The words of the blocks of a client, by their addresses. -/
abbrev Blocks : Type := UInt32 → Option (List UInt32)

namespace HeapState

/-- The blocks of `σ` are in use. -/
structure Holds (m : HeapState) (σ : Blocks) : Prop where
  sound : m.Sound
  record : ∀ p ws, σ p = some ws → Record m p ws

namespace Holds

variable {m m' : HeapState} {σ : Blocks} {p q k v w size : UInt32} {ws : List UInt32} {i : ℕ}

theorem ne_zero (h : m.Holds σ) (hp : σ p = some ws) : p ≠ 0 := by
  obtain ⟨segs, l⟩ := h.sound
  exact l.ne_zero (h.record p ws hp).owns.live

theorem field (h : m.Holds σ) (hp : σ p = some ws) (hk : k.toNat = 4 * i) (hw : ws[i]? = some w) :
    m.field p k = w := (h.record p ws hp).field hk hw

/-- A store that tells of one block more. -/
theorem insert (h : m.Holds σ) (hr : Record m p ws) : m.Holds (Function.update σ p (some ws)) := by
  refine ⟨h.sound, fun q vs hq => ?_⟩
  by_cases hne : q = p
  · rw [hne, Function.update_self] at hq
    rw [hne, ← Option.some.inj hq]
    exact hr
  · rw [Function.update_of_ne hne] at hq
    exact h.record q vs hq

/-- A store that does not tell of a block. -/
theorem forget {x : Option (List UInt32)} (h : m.Holds (Function.update σ p x)) (hp : σ p = none) :
    m.Holds σ := by
  refine ⟨h.sound, fun q vs hq => h.record q vs ?_⟩
  have hne : q ≠ p := by
    rintro rfl
    exact absurd (hq.symm.trans hp) nofun
  rwa [Function.update_of_ne hne]

/-- What holds of the other blocks after a write to the block at `p`. -/
theorem of_written (h : m.Holds σ) (hw : Written m p m') (hp : Record m' p ws) :
    m'.Holds (Function.update σ p (some ws)) := by
  refine ⟨hw.sound, fun q vs hq => ?_⟩
  by_cases hne : q = p
  · rw [hne, Function.update_self] at hq
    obtain rfl := Option.some.inj hq
    rw [hne]
    exact hp
  · rw [Function.update_of_ne hne] at hq
    have hr := h.record q vs hq
    exact hr.keep h.sound (hw.keeps q hr.owns.live hne)

theorem setField (h : m.Holds σ) (hp : σ p = some ws) (hk : k.toNat = 4 * i) (hi : i < ws.length)
    (v : UInt32) : (m.setField p k v).Holds (Function.update σ p (some (ws.set i v))) := by
  have hr := h.record p ws hp
  exact h.of_written (h.sound.setField hr.owns (by omega)) (hr.setField h.sound hk hi v)

/-- A `bool` is the lowest byte of its word. -/
theorem boolField (h : m.Holds σ) (hp : σ p = some ws) (hk : k.toNat = 4 * i)
    (hw : ws[i]? = some w) : m.boolField p k = (w.toUInt8 != 0) := by
  rw [← h.field hp hk hw, HeapState.field, toUInt8_load32]
  rfl

theorem setBoolField (h : m.Holds σ) (hp : σ p = some ws) (hk : k.toNat = 4 * i)
    (hi : i < ws.length) (v : Bool) :
    ∃ w, (w.toUInt8 != 0) = v ∧
      (m.setBoolField p k v).Holds (Function.update σ p (some (ws.set i w))) := by
  have hr := h.record p ws hp
  have hkle : k.toNat + 4 ≤ 4 * ws.length := by omega
  obtain ⟨hadd, hptr, hstop, hle⟩ := h.sound.field_toNat hr.owns hkle
  have hw : Written m p (m.setBoolField p k v) :=
    h.sound.written hr.owns.live (onlyWrites_store8 m.heap _ (by omega) (by omega))
  refine ⟨(m.setBoolField p k v).field p k, ?_, h.of_written hw ⟨?_, fun j u hu => ?_⟩⟩
  · rw [HeapState.field, toUInt8_load32]
    show (m.heap.mem.store8 (p + k) _ (p + k) != 0) = v
    rw [store8_apply_self]
    cases v <;> rfl
  · rw [List.length_set]
    exact hw.owns _ hr.owns
  · have hj : j < ws.length := by simpa using Record.lt_length hu
    rw [List.getElem?_set] at hu
    split at hu
    · rename_i hij
      subst hij
      obtain rfl := Option.some.inj hu
      rw [← hk, UInt32.ofNat_toNat]
    · rename_i hij
      rw [← hr.word j u hu]
      have hoff : (UInt32.ofNat (4 * j)).toNat = 4 * j := by
        have hsize := hr.owns.size_le
        have hlt := (m.heap.size (header p)).toNat_lt
        rw [UInt32.toNat_ofNat']
        omega
      obtain ⟨hadd', -, hstop', -⟩ := h.sound.field_toNat hr.owns (k := .ofNat (4 * j)) (by omega)
      apply load32_store8_of_apart
      rw [Apart]
      omega

/-- What stays in use keeps its words. -/
theorem keep (h : m.Holds σ) (hm : m'.Sound) (hk : ∀ q ∈ m.live, Keeps m m' q) : m'.Holds σ :=
  ⟨hm, fun q vs hq => (h.record q vs hq).keep h.sound (hk q (h.record q vs hq).owns.live)⟩

/-- `malloc` of a block that `σ` does not tell of. -/
theorem malloc (h : m.Holds σ) (hc : m.Clear size) (hlow : 4 ≤ size.toNat)
    (hlt : size.toNat < 2 ^ 31) :
    ∃ m' p, m.malloc size = some (m', p) ∧ p ≠ 0 ∧ σ p = none ∧ m'.Holds σ ∧
      m'.Owns p size.toNat := by
  obtain ⟨m', p, hcode, hg⟩ := h.sound.malloc hc hlow hlt
  refine ⟨m', p, hcode, hg.ne_zero, ?_, h.keep hg.sound hg.keeps, hg.owns⟩
  apply Option.eq_none_iff_forall_not_mem.mpr
  intro ws hp
  exact hg.not_live (h.record p ws hp).owns.live

/-- A block in use with its words. -/
theorem add (h : m.Holds σ) {n : ℕ} (ho : m.Owns p (4 * n)) :
    ∃ ws, ws.length = n ∧ m.Holds (Function.update σ p (some ws)) := by
  exact ⟨_, by simp, h.insert (Record.of_owns n ho)⟩

/-- More words of a block. -/
theorem extend (h : m.Holds σ) (hp : σ p = some ws) {n : ℕ} (ho : m.Owns p (4 * n)) :
    ∃ rest, (ws ++ rest).length = max n ws.length ∧
      m.Holds (Function.update σ p (some (ws ++ rest))) := by
  by_cases hn : n ≤ ws.length
  · refine ⟨[], by simpa using hn, ?_⟩
    rw [List.append_nil, ← hp, Function.update_eq_self]
    exact h
  have hr := h.record p ws hp
  have hlen : (ws ++ (List.range (n - ws.length)).map fun i =>
      m.field p (.ofNat (4 * (ws.length + i)))).length = n := by
    rw [List.length_append, List.length_map, List.length_range]
    omega
  refine ⟨_, hlen.trans (Nat.max_eq_left (Nat.le_of_not_le hn)).symm,
    h.insert ⟨by rwa [hlen], fun i v hv => ?_⟩⟩
  rcases lt_or_ge i ws.length with hi | hi
  · rw [List.getElem?_append_left hi] at hv
    exact hr.word i v hv
  · rw [List.getElem?_append_right hi, List.getElem?_map, Option.map_eq_some_iff] at hv
    obtain ⟨j, hj, rfl⟩ := hv
    obtain ⟨-, rfl⟩ := List.getElem?_eq_some_iff.mp hj
    rw [List.getElem_range, Nat.add_sub_cancel' hi]

theorem live (h : m.Holds σ) (hp : σ p = some ws) : p ∈ m.live := (h.record p ws hp).owns.live

theorem free (h : m.Holds σ) (hp : p ∈ m.live) :
    ∃ m', m.free p = some m' ∧ m'.Holds (Function.update σ p none) := by
  obtain ⟨m', hcode, hf⟩ := h.sound.free hp
  refine ⟨m', hcode, hf.sound, fun q vs hq => ?_⟩
  have hne : q ≠ p := by
    rintro rfl
    rw [Function.update_self] at hq
    exact absurd hq (by simp)
  rw [Function.update_of_ne hne] at hq
  have hr := h.record q vs hq
  exact hr.keep h.sound (hf.keeps q hr.owns.live hne)

end Holds

end HeapState

end Shogun.Memory
