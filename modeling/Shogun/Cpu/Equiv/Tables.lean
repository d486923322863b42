import Shogun.Cpu.Processor
import Shogun.Util.LastWrite

/-!
# What the processor finds in the tables

* `segmentOf_gdtInit`: the segments that can be loaded.
* `idtSetHandlers_gate`: the gate of a vector is the one set last.
* `tables_enter`: where an interrupt goes, for every placement of the tables and the stubs.
-/

namespace Shogun.Cpu

/-! ### The entries -/

/-- The loop has been at every vector below `n` once. -/
theorem forVectors_eq (f : UInt8 → IdtEntry → IdtEntry) (idt : UInt8 → IdtEntry) {n : ℕ}
    (hn : n ≤ 256) (v : UInt8) :
    forVectors f idt n v = if v.toNat < n then f v (idt v) else idt v := by
  induction n generalizing v with
  | zero => rfl
  | succ i ih =>
    have hi : (UInt8.ofNat i).toNat = i := UInt8.toNat_ofNat_of_lt' hn
    rw [forVectors, Function.update_apply]
    by_cases hv : v = UInt8.ofNat i
    · rw [if_pos hv, ih (by omega), hi, if_neg (Nat.lt_irrefl i), ← hv]
      rw [if_pos (by rw [hv, hi]; omega)]
    · have hne : v.toNat ≠ i := by
        rintro rfl
        exact hv UInt8.ofNat_toNat.symm
      rw [if_neg hv, ih (by omega)]
      congr 1
      rw [Nat.lt_succ_iff_lt_or_eq, or_iff_left hne]

/-- The gates of `idt_init` are those of the stubs. -/
theorem idtInit_gate (interruptHandler : UInt8 → UInt32) (idt : UInt8 → IdtEntry) (v : UInt8) :
    decodeGate (littleEndian (idtInit interruptHandler idt v).bytes)
      = ⟨(interruptHandler v).toNat, 0x08, 0, 0x8E⟩ := by
  unfold idtInit
  rw [forVectors_eq _ _ le_rfl, if_pos v.toNat_lt, decodeGate_createIdtDescriptor]
  rfl

/-- The last call of `idt_set_handler` for a vector decides. -/
theorem idtSetHandlers_gate (interruptHandler : UInt8 → UInt32) (idt : UInt8 → IdtEntry)
    (calls : List (UInt8 × UInt32)) (v : UInt8) :
    decodeGate (littleEndian (idtSetHandlers (idtInit interruptHandler idt) calls v).bytes)
      = ⟨((lastWrite (fun call => if v = call.1 then some call.2 else none) calls).getD
          (interruptHandler v)).toNat, 0x08, 0, 0x8E⟩ := by
  induction calls using List.reverseRecOn with
  | nil => exact idtInit_gate interruptHandler idt v
  | append_singleton calls call ih =>
    have hsnoc : idtSetHandlers (idtInit interruptHandler idt) (calls ++ [call])
        = idtSetHandler (idtSetHandlers (idtInit interruptHandler idt) calls) call.1 call.2 := by
      unfold idtSetHandlers
      rw [List.foldl_append]
      rfl
    rw [hsnoc, idtSetHandler_gate, lastWrite_concat]
    by_cases hv : v = call.1
    · rw [if_pos hv, if_pos hv]
      rfl
    · rw [if_neg hv, if_neg hv, Option.none_or]
      exact ih

/-! ### The tables in memory -/

section Memory

variable {mem : ByteMemory} {gdtAddr idtAddr : UInt32}

theorem readDescriptor_gdt {gdt : Fin 3 → GdtEntry} (h : HoldsBytes mem gdtAddr (gdtBytes gdt))
    (index : Fin 3) :
    readDescriptor mem (gdtPtr gdtAddr) index = some (littleEndian (gdt index).bytes) := by
  have hlimit : (gdtPtr gdtAddr).limit.toNat = 23 := rfl
  have hentry := h.entry (w := 8) (i := index) (fun _ => rfl)
    (by rw [List.length_ofFn]; exact index.2)
  rw [List.getElem_ofFn] at hentry
  unfold readDescriptor
  rw [hlimit, if_pos (by omega)]
  exact congrArg (fun bytes => some (littleEndian bytes)) hentry

theorem readDescriptor_gdt_of_le (mem : ByteMemory) (gdtAddr : UInt32) {index : ℕ}
    (h : 3 ≤ index) : readDescriptor mem (gdtPtr gdtAddr) index = none := by
  have hlimit : (gdtPtr gdtAddr).limit.toNat = 23 := rfl
  unfold readDescriptor
  rw [hlimit, if_neg (by omega)]

theorem readDescriptor_idt {idt : UInt8 → IdtEntry} (h : HoldsBytes mem idtAddr (idtBytes idt))
    (v : UInt8) :
    readDescriptor mem (idtPtr idtAddr) v.toNat = some (littleEndian (idt v).bytes) := by
  have hlimit : (idtPtr idtAddr).limit.toNat = 2047 := rfl
  have hv := v.toNat_lt
  have hentry := h.entry (w := 8) (i := v.toNat) (fun _ => rfl)
    (by rw [List.length_range]; exact hv)
  rw [List.getElem_range, UInt8.ofNat_toNat] at hentry
  unfold readDescriptor
  rw [hlimit, if_pos (by omega)]
  exact congrArg (fun bytes => some (littleEndian bytes)) hentry

/-- The segment of the kernel's code. -/
def codeSegment : SegmentDescriptor := ⟨0, 0xFFFFF, 0x9A, 0xC⟩

/-- The segment of its data. -/
def dataSegment : SegmentDescriptor := ⟨0, 0xFFFFF, 0x92, 0xC⟩

/-- The selectors that can be loaded are those of entries 1 and 2. -/
theorem segmentOf_gdtInit {gdt : Fin 3 → GdtEntry}
    (h : HoldsBytes mem gdtAddr (gdtBytes (gdtInit gdt))) (selector : ℕ) :
    segmentOf mem (gdtPtr gdtAddr) selector
      = if selector.testBit 2 then none
        else if selector / 8 = 1 then some codeSegment
        else if selector / 8 = 2 then some dataSegment
        else none := by
  have hcode : readDescriptor mem (gdtPtr gdtAddr) 1
      = some (littleEndian (gdtInit gdt 1).bytes) := readDescriptor_gdt h 1
  have hdata : readDescriptor mem (gdtPtr gdtAddr) 2
      = some (littleEndian (gdtInit gdt 2).bytes) := readDescriptor_gdt h 2
  have hcode' : decodeSegment (littleEndian (gdtInit gdt 1).bytes) = codeSegment :=
    decodeSegment_createDescriptor ..
  have hdata' : decodeSegment (littleEndian (gdtInit gdt 2).bytes) = dataSegment :=
    decodeSegment_createDescriptor ..
  unfold segmentOf
  split_ifs with hti h1 h2
  · simp [hti]
  · rw [h1, hcode]
    simp only [hti, Option.bind_eq_bind, Option.bind_some, hcode']
    rfl
  · rw [h2, hdata]
    simp only [hti, Option.bind_eq_bind, Option.bind_some, hdata']
    rfl
  · rcases Nat.eq_zero_or_pos (selector / 8) with h0 | h0
    · simp [h0]
    · rw [readDescriptor_gdt_of_le mem gdtAddr (by omega)]
      simp

/-- A check that succeeds. -/
theorem guard_bind {α : Type*} {p : Prop} [Decidable p] (hp : p) (f : Unit → Option α) :
    (guard p : Option Unit).bind f = f () := by
  rw [guard, if_pos hp]
  rfl

/-- Where an interrupt goes. -/
theorem enterInterrupt_eq {gdt : Fin 3 → GdtEntry} {idt : UInt8 → IdtEntry} {v : UInt8}
    {offset : UInt32} (hgdt : HoldsBytes mem gdtAddr (gdtBytes (gdtInit gdt)))
    (hidt : HoldsBytes mem idtAddr (idtBytes idt))
    (hgate : decodeGate (littleEndian (idt v).bytes) = ⟨offset.toNat, 0x08, 0, 0x8E⟩) :
    enterInterrupt mem (gdtPtr gdtAddr) (idtPtr idtAddr) v
      = some ⟨0x08, offset.toNat, false⟩ := by
  have hlt := offset.toNat_lt
  have hseg : segmentOf mem (gdtPtr gdtAddr) 0x08 = some codeSegment := by
    rw [segmentOf_gdtInit hgdt]
    rfl
  have hlast : codeSegment.lastOffset = 2 ^ 32 - 1 := by decide
  have hguard : codeSegment.executable = true ∧ codeSegment.dpl = 0 ∧
      offset.toNat ≤ codeSegment.lastOffset := ⟨by decide, by decide, by omega⟩
  have haddress : (codeSegment.base + offset.toNat) % 2 ^ 32 = offset.toNat := by
    show (0 + offset.toNat) % 2 ^ 32 = _
    omega
  unfold enterInterrupt
  rw [readDescriptor_idt hidt v]
  simp only [Option.bind_eq_bind, Option.bind_some, hgate, hseg]
  rw [guard_bind (by decide), guard_bind (by decide), guard_bind hguard, haddress]
  rfl

end Memory

/-- **The processor finds every interrupt and every segment.**  For every placement of the two
tables and of the stubs, whatever the tables held before, and every sequence of calls of
`idt_set_handler` behind `gdt_init` and `idt_init`: interrupt `v` enters the kernel's code segment
at the address that was set last, or at its stub, with interrupts off; and the selectors that can be
loaded are those of entries 1 and 2, which cover all of memory in ring 0. -/
theorem tables_enter (interruptHandler : UInt8 → UInt32) (gdt : Fin 3 → GdtEntry)
    (idt : UInt8 → IdtEntry) (calls : List (UInt8 × UInt32)) {mem : ByteMemory}
    {gdtAddr idtAddr : UInt32} (hgdt : HoldsBytes mem gdtAddr (gdtBytes (gdtInit gdt)))
    (hidt : HoldsBytes mem idtAddr
      (idtBytes (idtSetHandlers (idtInit interruptHandler idt) calls))) :
    (∀ v, enterInterrupt mem (gdtPtr gdtAddr) (idtPtr idtAddr) v
      = some ⟨0x08, ((lastWrite (fun call => if v = call.1 then some call.2 else none) calls).getD
          (interruptHandler v)).toNat, false⟩) ∧
    (∀ selector, (segmentOf mem (gdtPtr gdtAddr) selector).isSome
      ↔ selector.testBit 2 = false ∧ (selector / 8 = 1 ∨ selector / 8 = 2)) ∧
    ∀ selector s, segmentOf mem (gdtPtr gdtAddr) selector = some s →
      s.base = 0 ∧ s.lastOffset = 2 ^ 32 - 1 ∧ s.dpl = 0 ∧ s.readableWritable = true ∧
      (s.executable = true ↔ selector / 8 = 1) := by
  refine ⟨fun v => ?_, fun selector => ?_, fun selector s hs => ?_⟩
  · exact enterInterrupt_eq hgdt hidt (idtSetHandlers_gate interruptHandler idt calls v)
  · rw [segmentOf_gdtInit hgdt]
    split_ifs with hti h1 h2
    · simp [hti]
    · simp [hti, h1]
    · simp [hti, h2]
    · simp [h1, h2]
  · rw [segmentOf_gdtInit hgdt] at hs
    split_ifs at hs with hti h1 h2
    · cases hs
      exact ⟨rfl, by decide, by decide, by decide, iff_of_true (by decide) h1⟩
    · cases hs
      exact ⟨rfl, by decide, by decide, by decide, iff_of_false (by decide) h1⟩

/-- `gdt` and behind it `idt`, for stubs of 64 bytes from `0x100000` on and one more handler. -/
def sampleTables : List UInt8 :=
  gdtBytes (gdtInit fun _ => ⟨0, 0, 0, 0, 0, 0⟩)
    ++ idtBytes (idtSetHandlers (idtInit (fun v => 0x100000 + 64 * v.toUInt32)
      fun _ => ⟨0, 0, 0, 0, 0⟩) [(0x21, 0x200000)])

theorem tables_enter_sample :
    enterInterrupt (image 0x1000 sampleTables) (gdtPtr 0x1000) (idtPtr 0x1018) 0x48
        = some ⟨0x08, 0x101200, false⟩ ∧
      enterInterrupt (image 0x1000 sampleTables) (gdtPtr 0x1000) (idtPtr 0x1018) 0x21
        = some ⟨0x08, 0x200000, false⟩ := by
  have himage : HoldsBytes (image 0x1000 sampleTables) 0x1000 sampleTables := by
    apply holdsBytes_image
    rw [sampleTables, List.length_append, gdtBytes, idtBytes, length_table (w := 8) fun _ => rfl,
      length_table (w := 8) fun _ => rfl, List.length_ofFn, List.length_range]
    decide
  obtain ⟨hgdt, hidt⟩ := holdsBytes_append.mp himage
  have henter := (tables_enter (fun v => 0x100000 + 64 * v.toUInt32) (fun _ => ⟨0, 0, 0, 0, 0, 0⟩)
    (fun _ => ⟨0, 0, 0, 0, 0⟩) [(0x21, 0x200000)] hgdt hidt).1
  exact ⟨henter 0x48, henter 0x21⟩

end Shogun.Cpu
