import Shogun.Cpu.Equiv.Tables
import Shogun.Interrupt.Equiv.Irq
import Shogun.Interrupt.Equiv.Pic
import Shogun.Interrupt.Equiv.Stub

/-!
# The handler of a line

* `stubCalls_vectorHandler`: a stub calls one C function, with its vector on the stack.
* `lineOpen_iff`, `lineVector_eq`: the lines after `pic_remap` and calls of `pic_unmask_irq`.
* `raiseLine_eq`: a line runs the handler that was registered last for its vector.
-/

namespace Shogun.Interrupt

open Port Shogun.Cpu

/-! ### The stub -/

theorem stubCalls_saveRegisters (calls : ∀ f : CFunction, CCall f.argBytes) (s : Cpu)
    (is : List Instr) :
    stubCalls calls (saveRegisters ++ is) s
      = stubCalls calls is (kernelSegs (pushSegs s.pushal)) := by
  have hsegs : pushSegs s.pushal = exec calls (exec calls (exec calls (exec calls s.pushal
      (.pushSeg .ds)) (.pushSeg .es)) (.pushSeg .fs)) (.pushSeg .gs) := by
    unfold exec pushSegs
    simp only [List.foldl_cons, List.foldl_nil, seg_push]
  rw [hsegs]
  rfl

/-- The only call of a stub that passes its vector. -/
theorem stubCalls_vectorHandler (calls : ∀ f : CFunction, CCall f.argBytes) (f : CFunction)
    (num : UInt8) (s : Cpu) :
    stubCalls calls (vectorHandler f num) s
      = [(f, (kernelSegs (pushSegs s.pushal)).push num.toUInt32)] := by
  unfold vectorHandler
  rw [List.append_assoc, stubCalls_saveRegisters]
  rfl

theorem top_push (s : Cpu) (w : UInt32) : (s.push w).top = w :=
  ByteMemory.load32_store32_same s.mem (s.esp - 4) w

/-! ### The lines -/

theorem lineOpen_iff {irqs : List UInt8} {d : PicDevices} (h : Unmasked irqs d) {line : Fin 16}
    (hline : line ≠ 2) : d.lineOpen line = true ↔ UInt8.ofNat line ∈ irqs := by
  unfold PicDevices.lineOpen
  split_ifs with hlt
  · have hne : line.val ≠ 2 := fun heq => hline (Fin.ext heq)
    rw [Bool.not_eq_true', h.master line hlt hne]
  · have hj : line.val - 8 < 8 := by omega
    have hadd : 8 + (line.val - 8) = line.val := by omega
    have hslave := h.slave (line - 8) hj
    rw [hadd] at hslave
    rw [Bool.and_eq_true, Bool.not_eq_true', Bool.not_eq_true', hslave]
    have hrange : ∀ i : Fin 16, ¬ i.val < 8 → 8 ≤ UInt8.ofNat i ∧ UInt8.ofNat i < 16 := by decide
    exact and_iff_right_of_imp fun hmem => h.cascade.mpr (.inr ⟨_, hmem, hrange line hlt⟩)

theorem lineVector_eq {d : PicDevices} (hmaster : d.master.vectorBase = 0x40)
    (hslave : d.slave.vectorBase = 0x48) (line : Fin 16) :
    d.lineVector line = 0x40 + .ofNat line := by
  unfold PicDevices.lineVector
  rw [hmaster, hslave]
  revert line
  decide

/-- The stubs of the lines are those of vectors without an error code. -/
theorem generateErrorCodeHandler_line (line : Fin 16) :
    generateErrorCodeHandler (0x40 + .ofNat line)
      = vectorHandler .genericInterruptHandlerNoErrorCode (0x40 + .ofNat line) := by
  revert line
  decide

/-! ### The whole way -/

/-- What a line runs, behind the tables and the stubs of the repository. -/
theorem raiseLine_tables {pics : PicDevices} (hmaster : pics.master.vectorBase = 0x40)
    (hslave : pics.slave.vectorBase = 0x48) {interruptHandler : UInt8 → UInt32}
    {gdt : Fin 3 → GdtEntry} {idt : UInt8 → IdtEntry} {gdtAddr idtAddr : UInt32} {s : Cpu}
    (hgdt : HoldsBytes s.mem gdtAddr (gdtBytes (gdtInit gdt)))
    (hidt : HoldsBytes s.mem idtAddr (idtBytes (idtInit interruptHandler idt)))
    {codeAt : ℕ → Option (List Instr)}
    (hcode : ∀ v, codeAt (interruptHandler v).toNat = some (generateErrorCodeHandler v))
    (calls : ∀ f : CFunction, CCall f.argBytes) (r : InterruptRegistry) {line : Fin 16}
    (hline : line ≠ 2) :
    Machine.raiseLine ⟨pics, gdtPtr gdtAddr, idtPtr idtAddr, codeAt, r⟩ calls s line
      = if pics.lineOpen line then some (r.handlerOf (0x40 + .ofNat line)) else none := by
  unfold Machine.raiseLine
  dsimp only
  by_cases hopen : pics.lineOpen line = true
  · have henter : enterInterrupt s.mem (gdtPtr gdtAddr) (idtPtr idtAddr) (0x40 + .ofNat line)
        = some ⟨0x08, (interruptHandler (0x40 + .ofNat line)).toNat, false⟩ :=
      enterInterrupt_eq hgdt hidt (idtInit_gate interruptHandler idt _)
    rw [if_pos hopen, Option.bind_eq_bind, guard_bind ⟨hline, hopen⟩,
      lineVector_eq hmaster hslave, henter]
    simp only [Option.bind_eq_bind, Option.bind_some, hcode]
    rw [generateErrorCodeHandler_line, stubCalls_vectorHandler]
    dsimp only
    rw [top_push, UInt8.toUInt8_toUInt32]
  · have hclosed : ¬ (line ≠ 2 ∧ pics.lineOpen line = true) := fun hboth => hopen hboth.2
    rw [if_neg hopen, guard, if_neg hclosed]
    rfl

/-- **A line runs the handler that was registered last for its vector.**  For every boot of the
controllers and every sequence of calls of `pic_unmask_irq`, every placement of the stubs and the
tables in memory, every sequence of registrations by vector or by line, and every state of the
processor: nothing runs for a line that was not unmasked; otherwise the processor gets through the
tables to the stub of vector `0x40 + line`, and this makes the handler run that the last
registration for this vector has left, whichever of the ids it was made with. -/
theorem raiseLine_eq (ops : List PortOp) (onIcw1 : UInt8 → UInt8)
    (masterBase masterMask slaveBase slaveMask : UInt8) (irqs : List UInt8)
    (hports : (picInitPorts (bootPics (Registry.static.run ops) masterBase masterMask slaveBase
      slaveMask)).Acquired)
    (interruptHandler : UInt8 → UInt32) (gdt : Fin 3 → GdtEntry) (idt : UInt8 → IdtEntry)
    {gdtAddr idtAddr : UInt32} {s : Cpu}
    (hgdt : HoldsBytes s.mem gdtAddr (gdtBytes (gdtInit gdt)))
    (hidt : HoldsBytes s.mem idtAddr (idtBytes (idtInit interruptHandler idt)))
    {codeAt : ℕ → Option (List Instr)}
    (hcode : ∀ v, codeAt (interruptHandler v).toNat = some (generateErrorCodeHandler v))
    (calls : ∀ f : CFunction, CCall f.argBytes) (r : InterruptRegistry) (cs : List HandlerCall)
    (line : Fin 16) (hline : line ≠ 2) :
    let pics := (picRun onIcw1 (bootPics (Registry.static.run ops) masterBase masterMask slaveBase
      slaveMask) irqs).devices
    let v : UInt8 := 0x40 + .ofNat line
    Machine.raiseLine ⟨pics, gdtPtr gdtAddr, idtPtr idtAddr, codeAt, r.changes cs⟩ calls s line
      = if UInt8.ofNat line ∈ irqs then
          some ((lastWrite (fun c => if v = c.vector then some c.handler else none) cs).getD
            (r.handlerOf v))
        else none := by
  intro pics v
  have hwired := wired_picInitPorts (valid_static.run ops) hports
  obtain ⟨hremap, hmasked⟩ := unmasked_picRemap onIcw1 hwired rfl rfl
  have h : Unmasked irqs pics := (Unmasked.run hremap hmasked onIcw1 irqs).2
  rw [raiseLine_tables h.masterBase h.slaveBase hgdt hidt hcode calls _ hline, handlerOf_changes]
  exact if_congr (lineOpen_iff h hline) rfl rfl

/-- Stubs of 64 bytes from `0x100000` on. -/
def sampleStub (v : UInt8) : UInt32 := 0x100000 + 64 * v.toUInt32

/-- The code at their addresses. -/
def sampleCode (a : ℕ) : Option (List Instr) :=
  if 0x100000 ≤ a ∧ a < 0x104000 then some (generateErrorCodeHandler (.ofNat ((a - 0x100000) / 64)))
  else none

/-- Both tables from `0x1000` on. -/
def linkedCpu : Cpu :=
  { sampleCpu with
    mem := image 0x1000 (gdtBytes (gdtInit fun _ => ⟨0, 0, 0, 0, 0, 0⟩)
      ++ idtBytes (idtInit sampleStub fun _ => ⟨0, 0, 0, 0, 0⟩)) }

theorem linkedCpu_tables :
    HoldsBytes linkedCpu.mem 0x1000 (gdtBytes (gdtInit fun _ => ⟨0, 0, 0, 0, 0, 0⟩)) ∧
      HoldsBytes linkedCpu.mem 0x1018 (idtBytes (idtInit sampleStub fun _ => ⟨0, 0, 0, 0, 0⟩)) := by
  have himage : HoldsBytes linkedCpu.mem 0x1000 (gdtBytes (gdtInit fun _ => ⟨0, 0, 0, 0, 0, 0⟩)
      ++ idtBytes (idtInit sampleStub fun _ => ⟨0, 0, 0, 0, 0⟩)) := by
    apply holdsBytes_image
    rw [List.length_append, gdtBytes, idtBytes, length_table (w := 8) fun _ => rfl,
      length_table (w := 8) fun _ => rfl, List.length_ofFn, List.length_range]
    decide
  exact holdsBytes_append.mp himage

theorem sampleCode_sampleStub (v : UInt8) :
    sampleCode (sampleStub v).toNat = some (generateErrorCodeHandler v) := by
  have hv := v.toNat_lt
  have hstub : (sampleStub v).toNat = 0x100000 + 64 * v.toNat := by
    unfold sampleStub
    rw [UInt32.toNat_add, UInt32.toNat_mul, UInt8.toNat_toUInt32]
    show (0x100000 + 64 * v.toNat % 2 ^ 32) % 2 ^ 32 = _
    omega
  unfold sampleCode
  rw [hstub, if_pos (by omega), Nat.add_sub_cancel_left, Nat.mul_div_cancel_left _ (by decide),
    UInt8.ofNat_toNat]

/-- Line 8 is index 0 of the second controller and index 8 of the first: the second registration
replaces the first. -/
theorem raiseLine_eq_shared :
    Machine.raiseLine ⟨(picRun id (bootPics .static 0x08 0xB8 0x70 0x8F) [8]).devices,
        gdtPtr 0x1000, idtPtr 0x1018, sampleCode,
        InterruptRegistry.changes ⟨fun _ => none, false⟩
          [.registerIrq ⟨.irqPic2, 0⟩ (some .rtc), .registerIrq ⟨.irqPic1, 8⟩ (some .custom)]⟩
      (fun f => emptyCall f.argBytes) linkedCpu 8 = some (some .custom) := by
  have hports : (picInitPorts (bootPics (Registry.static.run []) 0x08 0xB8 0x70 0x8F)).Acquired :=
    ⟨by decide, by decide, by decide, by decide⟩
  exact raiseLine_eq [] id 0x08 0xB8 0x70 0x8F [8] hports sampleStub _ _ linkedCpu_tables.1
    linkedCpu_tables.2 sampleCode_sampleStub _ ⟨fun _ => none, false⟩
    [.registerIrq ⟨.irqPic2, 0⟩ (some .rtc), .registerIrq ⟨.irqPic1, 8⟩ (some .custom)] 8
    (by decide)

end Shogun.Interrupt
