import Shogun.Rtc.Cmos

/-!
# CMOS accesses under interrupts

* `run_access_access`: without interrupts the two port accesses are `read_cmos_register` and
  `write_cmos_register`.
* `run_of_done`: a completed access goes to its own register, unless the handler has run between
  its two port accesses: then it goes to register `0x0C`.
* `cmosAccess_iff`: so it does what it should exactly if the handler has not, or if the two
  registers make no difference.
-/

namespace Shogun.Rtc

open AccessState

/-! ### Selecting a register -/

/-- The latch takes the number of a register, whatever the NMI bit. -/
theorem and_regSelect (rtc : RtcDriver) {reg : UInt8} (hreg : reg < 128) :
    regSelect rtc reg &&& 0x7F = reg := by
  have hlt : reg.toNat < 2 ^ 7 := hreg
  apply UInt8.toNat_inj.mp
  unfold regSelect
  rw [UInt8.toNat_and, UInt8.toNat_or, show (0x7F : UInt8).toNat = 2 ^ 7 - 1 from rfl,
    Nat.and_two_pow_sub_one_eq_mod, Nat.or_mod_two_pow, Nat.mod_eq_of_lt hlt]
  split_ifs
  · exact Nat.or_zero _
  · exact Nat.or_zero _

theorem writeControl_regSelect (rtc : RtcDriver) (c : Cmos) {reg : UInt8} (hreg : reg < 128) :
    c.writeControl (regSelect rtc reg) = { c with index := reg } := by
  unfold Cmos.writeControl
  rw [and_regSelect rtc hreg]

/-- The handler leaves the latch at register `0x0C`. -/
theorem clearRtcInterrupt_eq (irq : RtcDriver) (c : Cmos) :
    clearRtcInterrupt (some irq) c = { c with index := cmosRegC } :=
  writeControl_regSelect irq c (by decide)

/-- The access to the register in the latch: the byte read, if it reads one, and the device. -/
def CmosOp.data (op : CmosOp) (value : UInt8) (c : Cmos) : UInt8 × Cmos :=
  match op with
  | .read => (c.readData, c)
  | .write v => (value, c.writeData v)

/-- Without interrupts the two port accesses are the register functions. -/
theorem run_access_access (rtc irq : RtcDriver) (c : Cmos) (reg v : UInt8) :
    ((start c).run rtc irq reg .read [.access, .access]).value
      = (readCmosRegister (some rtc) c reg).1 ∧
    ((start c).run rtc irq reg (.write v) [.access, .access]).cmos
      = writeCmosRegister (some rtc) c reg v :=
  ⟨rfl, rfl⟩

/-! ### Interleavings -/

/-- The pc after the next port access. -/
def AccessPc.next : AccessPc → AccessPc
  | .select => .data
  | .data => .done
  | .done => .done

/-- Does the handler run between the two port accesses of a call that is at `pc`? -/
def interruptsGap : AccessPc → List AccessStep → Bool
  | _, [] => false
  | pc, .access :: steps => interruptsGap pc.next steps
  | pc, .interrupt :: steps => pc == .data || interruptsGap pc steps

section

variable {rtc irq : RtcDriver} {reg : UInt8} {op : CmosOp}

theorem run_cons (a : AccessState) (σ : AccessStep) (steps : List AccessStep) :
    a.run rtc irq reg op (σ :: steps) = (a.step rtc irq reg op σ).run rtc irq reg op steps :=
  rfl

/-- Nothing but the latch changes once the call has returned. -/
theorem run_done {a : AccessState} (h : a.pc = .done) (steps : List AccessStep) :
    (a.run rtc irq reg op steps).value = a.value ∧
      (a.run rtc irq reg op steps).cmos.registers = a.cmos.registers := by
  induction steps generalizing a with
  | nil => exact ⟨rfl, rfl⟩
  | cons σ steps ih =>
    rw [run_cons]
    cases σ with
    | access =>
      have hsame : a.step rtc irq reg op .access = a := by
        unfold step access
        rw [h]
      rw [hsame]
      exact ih h
    | interrupt =>
      obtain ⟨hvalue, hregs⟩ := ih (a := a.step rtc irq reg op .interrupt) h
      refine ⟨hvalue, hregs.trans ?_⟩
      show (clearRtcInterrupt (some irq) a.cmos).registers = a.cmos.registers
      rw [clearRtcInterrupt_eq]

theorem interruptsGap_done (steps : List AccessStep) : interruptsGap .done steps = false := by
  induction steps with
  | nil => rfl
  | cons σ steps ih =>
    cases σ with
    | access => exact ih
    | interrupt => exact ih

/-- The access goes to the register in the latch, or to `0x0C` after an interrupt. -/
theorem run_data {a : AccessState} (h : a.pc = .data) {steps : List AccessStep}
    (hdone : (a.run rtc irq reg op steps).pc = .done) :
    let target := if interruptsGap .data steps then cmosRegC else a.cmos.index
    (a.run rtc irq reg op steps).value
        = (op.data a.value { a.cmos with index := target }).1 ∧
      (a.run rtc irq reg op steps).cmos.registers
        = (op.data a.value { a.cmos with index := target }).2.registers := by
  induction steps generalizing a with
  | nil =>
    rw [show (a.run rtc irq reg op []).pc = a.pc from rfl, h] at hdone
    cases hdone
  | cons σ steps ih =>
    rw [run_cons] at hdone ⊢
    cases σ with
    | access =>
      have hstep : a.step rtc irq reg op .access
          = ⟨.done, (op.data a.value a.cmos).1, (op.data a.value a.cmos).2⟩ := by
        unfold step access
        rw [h]
        cases op <;> rfl
      -- the call returns, so no later interrupt is in its gap
      have hgap : interruptsGap .data (.access :: steps) = false := interruptsGap_done steps
      rw [hgap, hstep]
      exact run_done rfl steps
    | interrupt =>
      have hstep : a.step rtc irq reg op .interrupt
          = { a with cmos := { a.cmos with index := cmosRegC } } :=
        congrArg (fun c => { a with cmos := c }) (clearRtcInterrupt_eq irq a.cmos)
      -- from here on the latch is `0x0C`, whether more interrupts come or not
      have hgap : interruptsGap .data (.interrupt :: steps) = true := rfl
      rw [hstep] at hdone ⊢
      have hrest := ih (a := { a with cmos := { a.cmos with index := cmosRegC } }) h hdone
      simp only [ite_self] at hrest
      rw [hgap]
      exact hrest

/-- The access of a call goes to its own register, unless the handler has run in its gap. -/
theorem run_of_done (hreg : reg < 128) {a : AccessState} (h : a.pc = .select)
    {steps : List AccessStep} (hdone : (a.run rtc irq reg op steps).pc = .done) :
    let target := if interruptsGap .select steps then cmosRegC else reg
    (a.run rtc irq reg op steps).value
        = (op.data a.value { a.cmos with index := target }).1 ∧
      (a.run rtc irq reg op steps).cmos.registers
        = (op.data a.value { a.cmos with index := target }).2.registers := by
  induction steps generalizing a with
  | nil =>
    rw [show (a.run rtc irq reg op []).pc = a.pc from rfl, h] at hdone
    cases hdone
  | cons σ steps ih =>
    rw [run_cons] at hdone ⊢
    cases σ with
    | access =>
      have hstep : a.step rtc irq reg op .access
          = ⟨.data, a.value, { a.cmos with index := reg }⟩ := by
        unfold step access
        rw [h]
        dsimp only
        rw [writeControl_regSelect rtc a.cmos hreg]
      rw [hstep] at hdone ⊢
      exact run_data (a := ⟨.data, a.value, { a.cmos with index := reg }⟩) rfl hdone
    | interrupt =>
      -- an interrupt before the select does no harm
      have hstep : a.step rtc irq reg op .interrupt
          = { a with cmos := { a.cmos with index := cmosRegC } } :=
        congrArg (fun c => { a with cmos := c }) (clearRtcInterrupt_eq irq a.cmos)
      rw [hstep] at hdone ⊢
      exact ih (a := { a with cmos := { a.cmos with index := cmosRegC } }) h hdone

end

/-! ### The register functions -/

/-- The contents of two registers make the difference between storing into one or the other. -/
theorem update_eq_update_iff {registers : UInt8 → UInt8} {r r' v : UInt8} (hne : r ≠ r') :
    Function.update registers r' v = Function.update registers r v ↔
      registers r = v ∧ registers r' = v := by
  constructor
  · intro heq
    have hr := congrFun heq r
    have hr' := congrFun heq r'
    rw [Function.update_of_ne hne, Function.update_self] at hr
    rw [Function.update_self, Function.update_of_ne (Ne.symm hne)] at hr'
    exact ⟨hr, hr'.symm⟩
  · rintro ⟨hr, hr'⟩
    rw [Function.update_eq_self_iff.mpr hr'.symm, Function.update_eq_self_iff.mpr hr.symm]

/-- **When the register functions are safe from the RTC interrupt.**  For every interleaving that
completes, a read returns the contents of its register, and a write stores into its register alone,
exactly if the handler does not run between the two port accesses, or the register is `0x0C`
itself, or the contents make no difference. -/
theorem cmosAccess_iff (rtc irq : RtcDriver) (c : Cmos) {r : UInt8} (v : UInt8) (hr : r < 128)
    (steps : List AccessStep) :
    (((start c).run rtc irq r .read steps).pc = .done →
      (((start c).run rtc irq r .read steps).value = c.registers r ↔
        interruptsGap .select steps = false ∨ r = cmosRegC ∨
          c.registers cmosRegC = c.registers r)) ∧
    (((start c).run rtc irq r (.write v) steps).pc = .done →
      (((start c).run rtc irq r (.write v) steps).cmos.registers
          = Function.update c.registers r v ↔
        interruptsGap .select steps = false ∨ r = cmosRegC ∨
          c.registers r = v ∧ c.registers cmosRegC = v)) := by
  constructor
  · intro hdone
    rw [(run_of_done hr rfl hdone).1]
    show c.registers (if interruptsGap .select steps then cmosRegC else r) = c.registers r ↔ _
    cases interruptsGap .select steps with
    | false => exact ⟨fun _ => .inl rfl, fun _ => rfl⟩
    | true =>
      constructor
      · intro heq
        exact .inr (.inr heq)
      · rintro (hgap | rfl | heq)
        · cases hgap
        · rfl
        · exact heq
  · intro hdone
    rw [(run_of_done hr rfl hdone).2]
    show Function.update c.registers (if interruptsGap .select steps then cmosRegC else r) v
      = Function.update c.registers r v ↔ _
    cases interruptsGap .select steps with
    | false => exact ⟨fun _ => .inl rfl, fun _ => rfl⟩
    | true =>
      show Function.update c.registers cmosRegC v = Function.update c.registers r v ↔ _
      -- the write has gone to register `0x0C`
      by_cases hrc : r = cmosRegC
      · rw [hrc]
        exact ⟨fun _ => .inr (.inl rfl), fun _ => rfl⟩
      · rw [update_eq_update_iff hrc]
        constructor
        · intro heq
          exact .inr (.inr heq)
        · rintro (hgap | heq | heq)
          · cases hgap
          · exact absurd heq hrc
          · exact heq

/-- A device whose register `0x0C` holds `0xC0` and the others `0x3B`. -/
def sampleCmos : Cmos := ⟨0, fun r => if r = cmosRegC then 0xC0 else 0x3B⟩

/-- The seconds register, with interrupts before, between and after the two accesses. -/
theorem cmosAccess_iff_seconds :
    let rtc : RtcDriver := ⟨true⟩
    let steps : List AccessStep := [.interrupt, .access, .interrupt, .access, .interrupt]
    (cmosRegSeconds < 128 ∧
      ((start sampleCmos).run rtc rtc cmosRegSeconds .read steps).pc = .done ∧
      ((start sampleCmos).run rtc rtc cmosRegSeconds (.write 1) steps).pc = .done) ∧
    (((start sampleCmos).run rtc rtc cmosRegSeconds .read steps).value
        = sampleCmos.registers cmosRegSeconds ↔
      interruptsGap .select steps = false ∨ cmosRegSeconds = cmosRegC ∨
        sampleCmos.registers cmosRegC = sampleCmos.registers cmosRegSeconds) ∧
    (((start sampleCmos).run rtc rtc cmosRegSeconds (.write 1) steps).cmos.registers
        = Function.update sampleCmos.registers cmosRegSeconds 1 ↔
      interruptsGap .select steps = false ∨ cmosRegSeconds = cmosRegC ∨
        sampleCmos.registers cmosRegSeconds = 1 ∧ sampleCmos.registers cmosRegC = 1) := by
  have h := cmosAccess_iff ⟨true⟩ ⟨true⟩ sampleCmos (r := cmosRegSeconds) 1 (by decide)
    [.interrupt, .access, .interrupt, .access, .interrupt]
  exact ⟨⟨by decide, rfl, rfl⟩, h.1 rfl, h.2 rfl⟩

/-- The interrupt between the two accesses: the read of the seconds returns the contents of
register `0x0C`, and the write of the seconds changes register `0x0C` instead. -/
theorem interrupt_misdirects_access :
    let rtc : RtcDriver := ⟨true⟩
    let steps : List AccessStep := [.access, .interrupt, .access]
    ((start sampleCmos).run rtc rtc cmosRegSeconds .read steps).pc = .done ∧
    ((start sampleCmos).run rtc rtc cmosRegSeconds .read steps).value
      ≠ sampleCmos.registers cmosRegSeconds ∧
    ((start sampleCmos).run rtc rtc cmosRegSeconds (.write 1) steps).pc = .done ∧
    ((start sampleCmos).run rtc rtc cmosRegSeconds (.write 1) steps).cmos.registers
      ≠ Function.update sampleCmos.registers cmosRegSeconds 1 := by
  refine ⟨rfl, by decide, rfl, ?_⟩
  intro heq
  exact absurd (congrFun heq cmosRegC) (by decide)

end Shogun.Rtc
