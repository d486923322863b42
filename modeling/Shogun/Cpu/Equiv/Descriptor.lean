import Shogun.Cpu.Descriptor
import Shogun.Util.Word32

/-!
# Descriptors read back

The processor reads a descriptor as the 64-bit number its eight bytes hold, with the fields at fixed
bit positions.

* `decodeSegment`, `decodeGate`: the fields of a descriptor by their positions.
* `createDescriptor_fields`, `createIdtDescriptor_fields`: what the two functions store.
* `descriptors_decode`: the processor reads back what was asked for.
-/

namespace Shogun.Cpu

/-! ### The layout of the processor -/

/-- The fields of a segment descriptor; `flags` is a nibble. -/
structure SegmentDescriptor where
  base : ℕ
  limit : ℕ
  access : ℕ
  flags : ℕ
  deriving DecidableEq, Repr

/-- A segment descriptor in a 64-bit word. -/
def decodeSegment (w : ℕ) : SegmentDescriptor where
  base := bitRange w 16 24 + 2 ^ 24 * bitRange w 56 8
  limit := bitRange w 0 16 + 2 ^ 16 * bitRange w 48 4
  access := bitRange w 40 8
  flags := bitRange w 52 4

/-- The fields of a gate descriptor. -/
structure GateDescriptor where
  offset : ℕ
  selector : ℕ
  reserved : ℕ
  typeAttr : ℕ
  deriving DecidableEq, Repr

/-- A gate descriptor in a 64-bit word. -/
def decodeGate (w : ℕ) : GateDescriptor where
  offset := bitRange w 0 16 + 2 ^ 16 * bitRange w 48 16
  selector := bitRange w 16 16
  reserved := bitRange w 32 8
  typeAttr := bitRange w 40 8

/-! ### The fields of an entry -/

/-- What the bits of an entry of the global descriptor table hold. -/
theorem decodeSegment_bytes (e : GdtEntry) :
    decodeSegment (littleEndian e.bytes)
      = ⟨e.baseLow.toNat + 2 ^ 16 * e.baseMid.toNat + 2 ^ 24 * e.baseHigh.toNat,
          e.limitLow.toNat + 2 ^ 16 * (e.limitHighFlags.toNat % 16),
          e.accessByte.toNat, e.limitHighFlags.toNat / 16⟩ := by
  have hbase : bitRange (littleEndian e.bytes) 16 24
      = littleEndian (bytes16 e.baseLow ++ [e.baseMid]) :=
    bitRange_littleEndian (bytes16 e.limitLow) (bytes16 e.baseLow ++ [e.baseMid])
      [e.accessByte, e.limitHighFlags, e.baseHigh]
  have hbaseHigh : bitRange (littleEndian e.bytes) 56 8 = e.baseHigh.toNat :=
    bitRange_littleEndian (bytes16 e.limitLow ++ bytes16 e.baseLow
      ++ [e.baseMid, e.accessByte, e.limitHighFlags]) [e.baseHigh] []
  have hlimit : bitRange (littleEndian e.bytes) 0 16 = littleEndian (bytes16 e.limitLow) :=
    bitRange_littleEndian [] (bytes16 e.limitLow)
      (bytes16 e.baseLow ++ [e.baseMid, e.accessByte, e.limitHighFlags, e.baseHigh])
  have haccess : bitRange (littleEndian e.bytes) 40 8 = e.accessByte.toNat :=
    bitRange_littleEndian (bytes16 e.limitLow ++ bytes16 e.baseLow ++ [e.baseMid])
      [e.accessByte] [e.limitHighFlags, e.baseHigh]
  have hflags : bitRange (littleEndian e.bytes) 48 8 = e.limitHighFlags.toNat :=
    bitRange_littleEndian (bytes16 e.limitLow ++ bytes16 e.baseLow ++ [e.baseMid, e.accessByte])
      [e.limitHighFlags] [e.baseHigh]
  have hlt := e.limitHighFlags.toNat_lt
  -- the two nibbles of the byte that the limit shares with the flags
  have hlow : bitRange (littleEndian e.bytes) 48 4 = e.limitHighFlags.toNat % 16 := by
    rw [← bitRange_bitRange (littleEndian e.bytes) 48 (m := 8) (t := 0) (by decide), hflags]
    show e.limitHighFlags.toNat / 2 ^ 0 % 2 ^ 4 = _
    omega
  have hhigh : bitRange (littleEndian e.bytes) 52 4 = e.limitHighFlags.toNat / 16 := by
    rw [← bitRange_bitRange (littleEndian e.bytes) 48 (m := 8) (t := 4) (by decide), hflags]
    show e.limitHighFlags.toNat / 2 ^ 4 % 2 ^ 4 = _
    omega
  unfold decodeSegment
  rw [hbase, hbaseHigh, hlimit, haccess, hlow, hhigh, littleEndian_append, littleEndian_bytes16,
    littleEndian_bytes16]
  rfl

/-- What the bits of an entry of the interrupt descriptor table hold. -/
theorem decodeGate_bytes (e : IdtEntry) :
    decodeGate (littleEndian e.bytes)
      = ⟨e.offsetLow.toNat + 2 ^ 16 * e.offsetHigh.toNat, e.selector.toNat, e.zero.toNat,
          e.typeAttr.toNat⟩ := by
  have hlow : bitRange (littleEndian e.bytes) 0 16 = littleEndian (bytes16 e.offsetLow) :=
    bitRange_littleEndian [] (bytes16 e.offsetLow)
      (bytes16 e.selector ++ [e.zero, e.typeAttr] ++ bytes16 e.offsetHigh)
  have hhigh : bitRange (littleEndian e.bytes) 48 16 = littleEndian (bytes16 e.offsetHigh) :=
    bitRange_littleEndian (bytes16 e.offsetLow ++ bytes16 e.selector ++ [e.zero, e.typeAttr])
      (bytes16 e.offsetHigh) []
  have hselector : bitRange (littleEndian e.bytes) 16 16 = littleEndian (bytes16 e.selector) :=
    bitRange_littleEndian (bytes16 e.offsetLow) (bytes16 e.selector)
      ([e.zero, e.typeAttr] ++ bytes16 e.offsetHigh)
  have hzero : bitRange (littleEndian e.bytes) 32 8 = e.zero.toNat :=
    bitRange_littleEndian (bytes16 e.offsetLow ++ bytes16 e.selector) [e.zero]
      ([e.typeAttr] ++ bytes16 e.offsetHigh)
  have htype : bitRange (littleEndian e.bytes) 40 8 = e.typeAttr.toNat :=
    bitRange_littleEndian (bytes16 e.offsetLow ++ bytes16 e.selector ++ [e.zero]) [e.typeAttr]
      (bytes16 e.offsetHigh)
  unfold decodeGate
  rw [hlow, hhigh, hselector, hzero, htype, littleEndian_bytes16, littleEndian_bytes16,
    littleEndian_bytes16]

/-! ### What is stored -/

/-- `(x >> start) & mask`. -/
theorem toNat_field (x : UInt32) {n m : UInt32} (start len : ℕ) (hn : n.toNat = start)
    (hstart : start < 32) (hm : m.toNat = 2 ^ len - 1) :
    ((x >>> n) &&& m).toNat = bitRange x.toNat start len := by
  rw [Word32.toNat_and_mask _ hm, Word32.toNat_shiftRight x hn hstart]
  rfl

/-- The low half of a word. -/
theorem toNat_low (x : UInt32) : (x &&& 0xFFFF).toUInt16.toNat = bitRange x.toNat 0 16 := by
  have hlow : (x &&& 0xFFFF).toNat = x.toNat % 2 ^ 16 := Word32.toNat_and_mask x rfl
  rw [UInt32.toNat_toUInt16, hlow, Nat.mod_mod]
  unfold bitRange
  rw [Nat.pow_zero, Nat.div_one]

/-- A byte of a word. -/
theorem toNat_byte (x : UInt32) {n : UInt32} (start : ℕ) (hn : n.toNat = start)
    (hstart : start < 32) : ((x >>> n) &&& 0xFF).toUInt8.toNat = bitRange x.toNat start 8 := by
  rw [UInt32.toNat_toUInt8, toNat_field x start 8 hn hstart rfl,
    Nat.mod_eq_of_lt (bitRange_lt _ _ _)]

/-- The byte that the limit shares with the flags. -/
theorem toNat_limitHighFlags (limit : UInt32) (flags : UInt8) :
    (((limit >>> 16) &&& 0x0F).toUInt8 ||| (flags &&& 0xF0)).toNat
      = bitRange limit.toNat 16 4 + 16 * (flags.toNat / 16) := by
  have hhigh : ∀ n < 256, n &&& 0xF0 = 2 ^ 4 * (n / 16) := by decide +kernel
  have hflags : (flags &&& 0xF0).toNat = 2 ^ 4 * (flags.toNat / 16) := by
    rw [UInt8.toNat_and]
    exact hhigh _ flags.toNat_lt
  have hlt := bitRange_lt limit.toNat 16 4
  have hlimit : ((limit >>> 16) &&& 0x0F).toUInt8.toNat = bitRange limit.toNat 16 4 := by
    rw [UInt32.toNat_toUInt8, toNat_field limit 16 4 rfl (by decide) rfl,
      Nat.mod_eq_of_lt (hlt.trans (by decide))]
  rw [UInt8.toNat_or, hlimit, hflags, Nat.lor_comm, ← Nat.two_pow_add_eq_or_of_lt hlt,
    Nat.add_comm]

/-- The fields `create_descriptor` stores. -/
theorem createDescriptor_fields (entry : GdtEntry) (base limit : UInt32)
    (accessByte flags : UInt8) :
    let e := createDescriptor entry base limit accessByte flags
    e.baseLow.toNat = bitRange base.toNat 0 16 ∧ e.baseMid.toNat = bitRange base.toNat 16 8 ∧
    e.baseHigh.toNat = bitRange base.toNat 24 8 ∧ e.limitLow.toNat = bitRange limit.toNat 0 16 ∧
    e.limitHighFlags.toNat = bitRange limit.toNat 16 4 + 16 * (flags.toNat / 16) ∧
    e.accessByte = accessByte :=
  ⟨toNat_low base, toNat_byte base 16 rfl (by decide), toNat_byte base 24 rfl (by decide),
    toNat_low limit, toNat_limitHighFlags limit flags, rfl⟩

/-- The fields `create_idt_descriptor` stores. -/
theorem createIdtDescriptor_fields (entry : IdtEntry) (offset : UInt32) (selector : UInt16)
    (typeAttr : UInt8) :
    let e := createIdtDescriptor entry offset selector typeAttr
    e.offsetLow.toNat = bitRange offset.toNat 0 16 ∧
    e.offsetHigh.toNat = bitRange offset.toNat 16 16 ∧ e.selector = selector ∧ e.zero = 0 ∧
    e.typeAttr = typeAttr := by
  refine ⟨toNat_low offset, ?_, rfl, rfl, rfl⟩
  show ((offset >>> 16) &&& 0xFFFF).toUInt16.toNat = _
  rw [UInt32.toNat_toUInt16, toNat_field offset 16 16 rfl (by decide) rfl,
    Nat.mod_eq_of_lt (bitRange_lt _ _ _)]

/-! ### Reading back -/

theorem decodeSegment_createDescriptor (entry : GdtEntry) (base limit : UInt32)
    (accessByte flags : UInt8) :
    decodeSegment (littleEndian (createDescriptor entry base limit accessByte flags).bytes)
      = ⟨base.toNat, limit.toNat % 2 ^ 20, accessByte.toNat, flags.toNat / 16⟩ := by
  obtain ⟨hbaseLow, hbaseMid, hbaseHigh, hlimitLow, hhighFlags, haccess⟩ :=
    createDescriptor_fields entry base limit accessByte flags
  have hbase := base.toNat_lt
  rw [decodeSegment_bytes, hbaseLow, hbaseMid, hbaseHigh, hlimitLow, hhighFlags, haccess]
  unfold bitRange
  congr 1 <;> omega

/-- Bits of the limit from 20 on and the low nibble of the flags have no effect. -/
theorem createDescriptor_congr (entry entry' : GdtEntry) (base : UInt32) {limit limit' : UInt32}
    (accessByte : UInt8) {flags flags' : UInt8}
    (hlimit : limit.toNat % 2 ^ 20 = limit'.toNat % 2 ^ 20)
    (hflags : flags.toNat / 16 = flags'.toNat / 16) :
    createDescriptor entry base limit accessByte flags
      = createDescriptor entry' base limit' accessByte flags' := by
  have hlimitLow : (limit &&& 0xFFFF).toUInt16 = (limit' &&& 0xFFFF).toUInt16 := by
    apply UInt16.toNat_inj.mp
    rw [toNat_low, toNat_low]
    unfold bitRange
    omega
  have hhighFlags : ((limit >>> 16) &&& 0x0F).toUInt8 ||| (flags &&& (0xF0 : UInt8))
      = ((limit' >>> 16) &&& 0x0F).toUInt8 ||| (flags' &&& (0xF0 : UInt8)) := by
    apply UInt8.toNat_inj.mp
    rw [toNat_limitHighFlags, toNat_limitHighFlags, hflags]
    unfold bitRange
    omega
  unfold createDescriptor
  dsimp only
  rw [hlimitLow, hhighFlags]

theorem decodeGate_createIdtDescriptor (entry : IdtEntry) (offset : UInt32) (selector : UInt16)
    (typeAttr : UInt8) :
    decodeGate (littleEndian (createIdtDescriptor entry offset selector typeAttr).bytes)
      = ⟨offset.toNat, selector.toNat, 0, typeAttr.toNat⟩ := by
  obtain ⟨hlow, hhigh, hselector, hzero, htype⟩ :=
    createIdtDescriptor_fields entry offset selector typeAttr
  have hoffset := offset.toNat_lt
  rw [decodeGate_bytes, hlow, hhigh, hselector, hzero, htype]
  unfold bitRange
  congr 1
  omega

/-- The gate of a handler is that of an interrupt in the code segment; other gates stay. -/
theorem idtSetHandler_gate (idt : UInt8 → IdtEntry) (vector v : UInt8) (handlerOffset : UInt32) :
    decodeGate (littleEndian (idtSetHandler idt vector handlerOffset v).bytes)
      = if v = vector then ⟨handlerOffset.toNat, 0x08, 0, 0x8E⟩
        else decodeGate (littleEndian (idt v).bytes) := by
  unfold idtSetHandler
  split_ifs with hv
  · rw [hv, Function.update_self, decodeGate_createIdtDescriptor]
    rfl
  · rw [Function.update_of_ne hv]

/-- **The processor reads back what the two encoders were given.** -/
theorem descriptors_decode :
    (∀ (entry : GdtEntry) (base limit : UInt32) (accessByte flags : UInt8),
      (createDescriptor entry base limit accessByte flags).bytes.length = 8 ∧
      decodeSegment (littleEndian (createDescriptor entry base limit accessByte flags).bytes)
        = ⟨base.toNat, limit.toNat % 2 ^ 20, accessByte.toNat, flags.toNat / 16⟩ ∧
      ∀ (entry' : GdtEntry) (limit' : UInt32) (flags' : UInt8),
        limit.toNat % 2 ^ 20 = limit'.toNat % 2 ^ 20 → flags.toNat / 16 = flags'.toNat / 16 →
        createDescriptor entry base limit accessByte flags
          = createDescriptor entry' base limit' accessByte flags') ∧
    ∀ (entry : IdtEntry) (offset : UInt32) (selector : UInt16) (typeAttr : UInt8),
      (createIdtDescriptor entry offset selector typeAttr).bytes.length = 8 ∧
      decodeGate (littleEndian (createIdtDescriptor entry offset selector typeAttr).bytes)
        = ⟨offset.toNat, selector.toNat, 0, typeAttr.toNat⟩ := by
  refine ⟨?_, ?_⟩
  · intro entry base limit accessByte flags
    refine ⟨rfl, decodeSegment_createDescriptor entry base limit accessByte flags, ?_⟩
    intro entry' limit' flags' hlimit hflags
    exact createDescriptor_congr entry entry' base accessByte hlimit hflags
  · intro entry offset selector typeAttr
    exact ⟨rfl, decodeGate_createIdtDescriptor entry offset selector typeAttr⟩

end Shogun.Cpu
