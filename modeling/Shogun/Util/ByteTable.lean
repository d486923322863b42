import Shogun.Util.ByteMemory

/-!
# Tables in memory

`HoldsBytes m a bytes`: from address `a` on, memory holds `bytes`.  Addresses wrap, so that nothing
is asked of `a`.

* `holdsBytes_append`: one run of bytes behind another.
* `HoldsBytes.entry`: an entry of a table whose entries have one size.
* `holdsBytes_image`: a memory that holds given bytes.
-/

/-- From address `a` on memory holds `bytes`. -/
def HoldsBytes (m : ByteMemory) (a : UInt32) (bytes : List UInt8) : Prop :=
  (List.range bytes.length).map (fun i => m (a + .ofNat i)) = bytes

theorem holdsBytes_append {m : ByteMemory} {a : UInt32} {xs ys : List UInt8} :
    HoldsBytes m a (xs ++ ys) ↔ HoldsBytes m a xs ∧ HoldsBytes m (a + .ofNat xs.length) ys := by
  have hys : (List.range ys.length).map (fun i => m (a + .ofNat (xs.length + i)))
      = (List.range ys.length).map (fun i => m (a + .ofNat xs.length + .ofNat i)) := by
    congr 1
    ext i
    rw [UInt32.ofNat_add, UInt32.add_assoc]
  unfold HoldsBytes
  rw [List.length_append, List.range_add, List.map_append, List.map_map, ← hys]
  constructor
  · intro h
    exact List.append_inj h (by rw [List.length_map, List.length_range])
  · rintro ⟨hxs, hys⟩
    rw [hxs]
    exact congrArg (xs ++ ·) hys

/-- The size of a table. -/
theorem length_table {α : Type*} {f : α → List UInt8} {w : ℕ} (hf : ∀ x, (f x).length = w)
    (xs : List α) : (xs.flatMap f).length = w * xs.length := by
  rw [List.length_flatMap, List.map_congr_left fun x _ => hf x, List.map_const',
    List.sum_replicate_nat, Nat.mul_comm]

/-- Entry `i` of a table. -/
theorem HoldsBytes.entry {α : Type*} {m : ByteMemory} {a : UInt32} {f : α → List UInt8} {w : ℕ}
    (hf : ∀ x, (f x).length = w) {xs : List α} (h : HoldsBytes m a (xs.flatMap f)) {i : ℕ}
    (hi : i < xs.length) :
    (List.range w).map (fun j => m (a + .ofNat (w * i + j))) = f xs[i] := by
  have hsplit : xs.flatMap f
      = (xs.take i).flatMap f ++ (f xs[i] ++ (xs.drop (i + 1)).flatMap f) := by
    rw [← List.flatMap_cons, ← List.flatMap_append, List.getElem_cons_drop, List.take_append_drop]
  have hlen : ((xs.take i).flatMap f).length = w * i := by
    rw [length_table hf, List.length_take, Nat.min_eq_left hi.le]
  rw [hsplit, holdsBytes_append, holdsBytes_append, hlen] at h
  have hentry := h.2.1
  unfold HoldsBytes at hentry
  rw [hf] at hentry
  rw [← hentry]
  congr 1
  ext j
  rw [UInt32.ofNat_add, UInt32.add_assoc]

/-- The memory with `bytes` from address `a` on. -/
def image (a : UInt32) (bytes : List UInt8) : ByteMemory := fun b => bytes.getD (b - a).toNat 0

theorem holdsBytes_image (a : UInt32) {bytes : List UInt8} (h : bytes.length ≤ 2 ^ 32) :
    HoldsBytes (image a bytes) a bytes := by
  unfold HoldsBytes image
  apply List.ext_getElem (by rw [List.length_map, List.length_range])
  intro i hi hi'
  have hoff : (a + UInt32.ofNat i - a).toNat = i := by
    rw [add_sub_cancel_left, UInt32.toNat_ofNat']
    omega
  rw [List.getElem_map, List.getElem_range, hoff, List.getD_eq_getElem?_getD,
    List.getElem?_eq_getElem hi']
  rfl
