import Mathlib.Data.List.Induction
import Shogun.Interrupt.Equiv.Irq
import Shogun.Interrupt.Equiv.Pic
import Shogun.Rtc.Periodic
import Shogun.Util.ByteMask

/-!
# What enabling and disabling periodic interrupts leaves

* `enableRtcInterrupts_eq`, `disableRtcInterrupts_eq`: the two calls on the devices.
* `IrqCall.sets`, `IrqCall.pie`: what a call sets of the handlers and of the enable bit.
* `rtcInterrupts_run`: after every sequence of calls the last of them that sets a value decides it;
  but a line that was unmasked stays so.
-/

namespace Shogun.Rtc

open Interrupt Port

/-! ### Registers through the handles -/

/-- The handles of a driver are those of the two CMOS ports. -/
structure RtcPorts.Wired (r : Registry) (rtc : RtcPorts) : Prop where
  control : (r.portRegistry rtc.controlPort).port = cmosControlPort
  data : (r.portRegistry rtc.dataPort).port = cmosDataPort

section Registers

variable {r : Registry} {rtc : RtcPorts} (onIcw1 : UInt8 → UInt8) {reg : UInt8}

theorem regSelect_and (hreg : reg &&& 0x7F = reg) (d : RtcDriver) :
    regSelect d reg &&& 0x7F = reg := by
  unfold regSelect
  cases d.nmiEnabled with
  | true =>
    dsimp only
    rw [if_pos rfl, UInt8.or_zero, hreg]
  | false =>
    dsimp only
    rw [if_neg Bool.false_ne_true, UInt8.or_and_of_disjoint (by decide), hreg]

/-- The register number goes to the latch. -/
theorem select_systemBus (h : rtc.Wired r) (hreg : reg &&& 0x7F = reg) (d : Cmos × PicDevices) :
    writePortB (systemBus onIcw1) r (some rtc.controlPort) (regSelect rtc.driver reg) d
      = (⟨reg, d.1.registers⟩, d.2) := by
  unfold writePortB
  dsimp only
  rw [h.control, show (systemBus onIcw1).outB d cmosControlPort (regSelect rtc.driver reg)
    = (d.1.writeControl (regSelect rtc.driver reg), d.2) from rfl, Cmos.writeControl,
    regSelect_and hreg]

theorem readCmosRegister_systemBus (h : rtc.Wired r) (hreg : reg &&& 0x7F = reg)
    (hflags : reg ≠ cmosRegC) (d : Cmos × PicDevices) :
    rtc.readCmosRegister (systemBus onIcw1) r reg d
      = (d.1.registers reg, (⟨reg, d.1.registers⟩, d.2)) := by
  unfold RtcPorts.readCmosRegister
  dsimp only
  rw [select_systemBus onIcw1 h hreg, readPortB, h.data]
  show (d.1.registers reg, ((if reg = cmosRegC then _ else (⟨reg, d.1.registers⟩ : Cmos)), d.2)) = _
  rw [if_neg hflags]

theorem writeCmosRegister_systemBus (h : rtc.Wired r) (hreg : reg &&& 0x7F = reg)
    (hflags : reg ≠ cmosRegC) (value : UInt8) (d : Cmos × PicDevices) :
    rtc.writeCmosRegister (systemBus onIcw1) r reg value d
      = (⟨reg, Function.update d.1.registers reg value⟩, d.2) := by
  unfold RtcPorts.writeCmosRegister
  dsimp only
  rw [select_systemBus onIcw1 h hreg, writePortB, h.data]
  show ((if reg = cmosRegC then _ else Cmos.writeData ⟨reg, d.1.registers⟩ value), d.2) = _
  rw [if_neg hflags]
  rfl

end Registers

/-- The handles do not depend on the devices. -/
theorem wired_devices {σ : Type*} {s : PicState σ} (h : Interrupt.Wired s) (d : σ) :
    Interrupt.Wired { s with devices := d } :=
  ⟨h.masterCmd, h.masterData, h.slaveCmd, h.slaveData⟩

/-- `pic_unmask_irq(8)` with the RTC on the bus. -/
theorem picUnmaskIrq_systemBus (onIcw1 : UInt8 → UInt8) {s : PicState (Cmos × PicDevices)}
    (h : Interrupt.Wired s) :
    picUnmaskIrq (systemBus onIcw1) s 8
      = { s with devices :=
          (s.devices.1, ⟨s.devices.2.master.unmask 2, s.devices.2.slave.unmask 0⟩) } := by
  have hcascade : clearMaskBit (systemBus onIcw1) s s.masterPicData 2
      = { s with devices := (s.devices.1, ⟨s.devices.2.master.unmask 2, s.devices.2.slave⟩) } :=
    clearMaskBit_eq (systemBus onIcw1) h.masterData 2
  have hslave := clearMaskBit_eq (systemBus onIcw1)
    (s := { s with devices := (s.devices.1, ⟨s.devices.2.master.unmask 2, s.devices.2.slave⟩) })
    h.slaveData 0
  unfold picUnmaskIrq
  rw [if_neg (by decide), if_pos (by decide), hcascade]
  exact hslave

/-! ### The two calls -/

/-- `enable_rtc_interrupts` by a driver. -/
theorem enableRtcInterrupts_eq (onIcw1 : UInt8 → UInt8) {s : IrqState (Cmos × PicDevices)}
    (h : Interrupt.Wired s.pic) {rtc : RtcPorts} (hrtc : rtc.Wired s.pic.registry)
    (handler : Option InterruptHandler) :
    let c := s.pic.devices.1
    let d := s.pic.devices.2
    enableRtcInterrupts (systemBus onIcw1) (some rtc) handler s
      = (0, ⟨registerInterruptHandlerIrq s.handlers rtcIrq handler,
          { s.pic with devices :=
            (⟨cmosRegB, Function.update
                (Function.update c.registers cmosRegA ((c.registers cmosRegA &&& 0xF0) ||| 0x08))
                cmosRegB (c.registers cmosRegB ||| 0x40)⟩,
              ⟨d.master.unmask 2, d.slave.unmask 0⟩) }⟩) := by
  intro c d
  unfold enableRtcInterrupts
  simp only [readCmosRegister_systemBus onIcw1 hrtc (show cmosRegA &&& 0x7F = cmosRegA by decide)
      (by decide : cmosRegA ≠ cmosRegC),
    writeCmosRegister_systemBus onIcw1 hrtc (show cmosRegA &&& 0x7F = cmosRegA by decide)
      (by decide : cmosRegA ≠ cmosRegC),
    readCmosRegister_systemBus onIcw1 hrtc (show cmosRegB &&& 0x7F = cmosRegB by decide)
      (by decide : cmosRegB ≠ cmosRegC),
    writeCmosRegister_systemBus onIcw1 hrtc (show cmosRegB &&& 0x7F = cmosRegB by decide)
      (by decide : cmosRegB ≠ cmosRegC)]
  rw [picUnmaskIrq_systemBus onIcw1 (wired_devices h _),
    Function.update_of_ne (by decide : cmosRegB ≠ cmosRegA)]

/-- `disable_rtc_interrupts` by a driver. -/
theorem disableRtcInterrupts_eq (onIcw1 : UInt8 → UInt8) {s : IrqState (Cmos × PicDevices)}
    {rtc : RtcPorts} (hrtc : rtc.Wired s.pic.registry) :
    let c := s.pic.devices.1
    disableRtcInterrupts (systemBus onIcw1) (some rtc) s
      = (0, ⟨unregisterInterruptHandlerIrq s.handlers rtcIrq,
          { s.pic with devices :=
            (⟨cmosRegB, Function.update c.registers cmosRegB (c.registers cmosRegB &&& 0xBF)⟩,
              s.pic.devices.2) }⟩) := by
  intro c
  unfold disableRtcInterrupts
  simp only [readCmosRegister_systemBus onIcw1 hrtc (show cmosRegB &&& 0x7F = cmosRegB by decide)
      (by decide : cmosRegB ≠ cmosRegC),
    writeCmosRegister_systemBus onIcw1 hrtc (show cmosRegB &&& 0x7F = cmosRegB by decide)
      (by decide : cmosRegB ≠ cmosRegC)]
  rfl

/-! ### What a call sets -/

/-- The call unmasks the line of the RTC and sets the rate. -/
def IrqCall.enables : IrqCall → Bool
  | .enable (some _) _ => true
  | _ => false

/-- What the call sets the enable bit to. -/
def IrqCall.pie : IrqCall → Option Bool
  | .enable (some _) _ => some true
  | .disable (some _) => some false
  | _ => none

/-- What the call sets the handler of `vector` to. -/
def IrqCall.sets (vector : UInt8) : IrqCall → Option (Option InterruptHandler)
  | .enable (some _) handler => if vector = 72 then some handler else none
  | .disable (some _) => if vector = 72 then some none else none
  | .register irqId handler => if vector = irqIdToVector irqId then some handler else none
  | .unregister irqId => if vector = irqIdToVector irqId then some none else none
  | _ => none

/-- Register B with its enable bit set, cleared or left. -/
def withPie (regB : UInt8) : Option Bool → UInt8
  | none => regB
  | some true => regB ||| 0x40
  | some false => regB &&& 0xBF

theorem withPie_set (regB : UInt8) (pie : Option Bool) :
    withPie regB pie ||| 0x40 = withPie regB (some true) := by
  rcases pie with _ | _ | _
  · rfl
  · exact UInt8.and_or_of_cover (by decide) regB
  · show regB ||| 0x40 ||| 0x40 = regB ||| 0x40
    rw [UInt8.or_assoc]
    rfl

theorem withPie_clear (regB : UInt8) (pie : Option Bool) :
    withPie regB pie &&& 0xBF = withPie regB (some false) := by
  rcases pie with _ | _ | _
  · rfl
  · show regB &&& 0xBF &&& 0xBF = regB &&& 0xBF
    rw [UInt8.and_assoc]
    rfl
  · exact UInt8.or_and_of_disjoint (by decide) regB

/-- The rate is set once and for all. -/
theorem rate_rate (regA : UInt8) :
    (((regA &&& 0xF0) ||| 0x08) &&& 0xF0) ||| 0x08 = (regA &&& 0xF0) ||| 0x08 := by
  rw [UInt8.or_and_of_disjoint (by decide), UInt8.and_assoc]
  rfl

/-! ### Sequences of calls -/

/-- The handles of the driver that makes the call, if one does. -/
def IrqCall.Wired (r : Registry) : IrqCall → Prop
  | .enable (some rtc) _ => rtc.Wired r
  | .disable (some rtc) => rtc.Wired r
  | _ => True

/-- The controllers with the line of the RTC and the cascade open. -/
def openRtcLine (d : PicDevices) : PicDevices := ⟨d.master.unmask 2, d.slave.unmask 0⟩

/-- A line that is open stays so. -/
theorem openRtcLine_openRtcLine {d : PicDevices} (hmaster : d.master.phase = .mask)
    (hslave : d.slave.phase = .mask) : openRtcLine (openRtcLine d) = openRtcLine d := by
  have hidem : ∀ (p : Pic) (bit : UInt8), p.phase = .mask →
      (p.unmask bit).unmask bit = p.unmask bit := by
    intro p bit hp
    have hunmask := Pic.unmask_eq hp bit
    rw [hunmask, Pic.unmask_eq (by exact hp)]
    dsimp only
    rw [UInt8.and_assoc, UInt8.and_self]
  unfold openRtcLine
  dsimp only
  rw [hidem _ _ hmaster, hidem _ _ hslave]

/-- The state `t` after the calls `calls` in `s`. -/
structure Left (s : IrqState (Cmos × PicDevices)) (calls : List IrqCall)
    (t : IrqState (Cmos × PicDevices)) : Prop where
  pic : t.pic = { s.pic with devices := t.pic.devices }
  regA : t.pic.devices.1.registers cmosRegA
    = if calls.any IrqCall.enables then (s.pic.devices.1.registers cmosRegA &&& 0xF0) ||| 0x08
      else s.pic.devices.1.registers cmosRegA
  regB : t.pic.devices.1.registers cmosRegB
    = withPie (s.pic.devices.1.registers cmosRegB) (lastWrite IrqCall.pie calls)
  other : ∀ reg, reg ≠ cmosRegA → reg ≠ cmosRegB →
    t.pic.devices.1.registers reg = s.pic.devices.1.registers reg
  lines : t.pic.devices.2
    = if calls.any IrqCall.enables then openRtcLine s.pic.devices.2 else s.pic.devices.2
  handlers : ∀ vector, t.handlers.handlerOf vector
    = (lastWrite (IrqCall.sets vector) calls).getD (s.handlers.handlerOf vector)

namespace Left

variable {onIcw1 : UInt8 → UInt8} {s t : IrqState (Cmos × PicDevices)} {calls : List IrqCall}

/-- A call that sets no more than a handler. -/
theorem setHandler (h : Left s calls t) {call : IrqCall} (henables : call.enables = false)
    (hpie : call.pie = none) (handlers : InterruptRegistry)
    (hhandlers : ∀ vector, handlers.handlerOf vector
      = (call.sets vector).getD (t.handlers.handlerOf vector)) :
    Left s (calls ++ [call]) { t with handlers := handlers } where
  pic := h.pic
  regA := by
    rw [List.any_append, List.any_cons, henables, List.any_nil, Bool.or_self, Bool.or_false]
    exact h.regA
  regB := by
    rw [lastWrite_concat, hpie]
    exact h.regB
  other := h.other
  lines := by
    rw [List.any_append, List.any_cons, henables, List.any_nil, Bool.or_self, Bool.or_false]
    exact h.lines
  handlers := by
    intro vector
    rw [lastWrite_concat, hhandlers vector, h.handlers vector]
    cases call.sets vector <;> rfl

/-- A call that does nothing. -/
theorem ignored (h : Left s calls t) {call : IrqCall} (henables : call.enables = false)
    (hpie : call.pie = none) (hsets : ∀ vector, call.sets vector = none) :
    Left s (calls ++ [call]) t := by
  apply h.setHandler henables hpie t.handlers
  intro vector
  rw [hsets vector]
  rfl

theorem enable (h : Left s calls t) (hmaster : s.pic.devices.2.master.phase = .mask)
    (hslave : s.pic.devices.2.slave.phase = .mask) (hs : Interrupt.Wired s.pic) {rtc : RtcPorts}
    (hrtc : rtc.Wired s.pic.registry) (handler : Option InterruptHandler) :
    Left s (calls ++ [.enable (some rtc) handler])
      (t.step (systemBus onIcw1) (.enable (some rtc) handler)) := by
  have hwired : Interrupt.Wired t.pic := by
    rw [h.pic]
    exact wired_devices hs _
  have hregistry : t.pic.registry = s.pic.registry := by rw [h.pic]
  have hany : (calls ++ [IrqCall.enable (some rtc) handler]).any IrqCall.enables = true := by
    simp [IrqCall.enables]
  have hcode := enableRtcInterrupts_eq onIcw1 hwired (hregistry ▸ hrtc) handler
  show Left s _ (enableRtcInterrupts (systemBus onIcw1) (some rtc) handler t).2
  rw [hcode]
  constructor
  · show PicState.mk _ _ _ _ _ _ = _
    rw [h.pic]
  · rw [hany, if_pos rfl]
    dsimp only
    rw [Function.update_of_ne (by decide), Function.update_self, h.regA]
    split_ifs
    · exact rate_rate _
    · rfl
  · rw [lastWrite_concat]
    dsimp only
    rw [Function.update_self, h.regB, withPie_set]
    rfl
  · intro reg hA hB
    dsimp only
    rw [Function.update_of_ne hB, Function.update_of_ne hA]
    exact h.other reg hA hB
  · rw [hany, if_pos rfl]
    show openRtcLine t.pic.devices.2 = _
    rw [h.lines]
    split_ifs
    · exact openRtcLine_openRtcLine hmaster hslave
    · rfl
  · intro vector
    rw [lastWrite_concat]
    show (registerInterruptHandler t.handlers 72 handler).handlerOf vector
      = ((if vector = 72 then some handler else none).or _).getD _
    rw [handlerOf_register]
    split_ifs
    · rfl
    · exact h.handlers vector

theorem disable (h : Left s calls t) {rtc : RtcPorts} (hrtc : rtc.Wired s.pic.registry) :
    Left s (calls ++ [.disable (some rtc)]) (t.step (systemBus onIcw1) (.disable (some rtc))) := by
  have hregistry : t.pic.registry = s.pic.registry := by rw [h.pic]
  have hany : (calls ++ [IrqCall.disable (some rtc)]).any IrqCall.enables
      = calls.any IrqCall.enables := by simp [IrqCall.enables]
  have hrtc' : rtc.Wired t.pic.registry := hregistry ▸ hrtc
  have hcode := disableRtcInterrupts_eq onIcw1 hrtc'
  show Left s _ (disableRtcInterrupts (systemBus onIcw1) (some rtc) t).2
  rw [hcode]
  constructor
  · show PicState.mk _ _ _ _ _ _ = _
    rw [h.pic]
  · rw [hany]
    dsimp only
    rw [Function.update_of_ne (by decide)]
    exact h.regA
  · rw [lastWrite_concat]
    dsimp only
    rw [Function.update_self, h.regB, withPie_clear]
    rfl
  · intro reg hA hB
    dsimp only
    rw [Function.update_of_ne hB]
    exact h.other reg hA hB
  · rw [hany]
    exact h.lines
  · intro vector
    rw [lastWrite_concat]
    show (unregisterInterruptHandler t.handlers 72).handlerOf vector
      = ((if vector = 72 then some none else none).or _).getD _
    rw [handlerOf_unregister]
    split_ifs
    · rfl
    · exact h.handlers vector

end Left

/-- **The last call decides, but a line stays open.**  For the handles of the controllers and of
every driver that makes calls, and every sequence of calls of `enable_rtc_interrupts`,
`disable_rtc_interrupts`, `register_interrupt_handler_irq` and `unregister_interrupt_handler_irq`:
the enable bit and the handler of each vector are those that the last call setting them has set; the
rate of register A is set and the line of the RTC is open if there was any call that enables; and no
other register and no other bit of register B has changed. -/
theorem rtcInterrupts_run (onIcw1 : UInt8 → UInt8) {s : IrqState (Cmos × PicDevices)}
    (hs : Interrupt.Wired s.pic) (hmaster : s.pic.devices.2.master.phase = .mask)
    (hslave : s.pic.devices.2.slave.phase = .mask) (calls : List IrqCall)
    (hcalls : ∀ call ∈ calls, call.Wired s.pic.registry) :
    let c := s.pic.devices.1
    let t := s.run (systemBus onIcw1) calls
    t.pic.devices.1.registers cmosRegA
      = (if calls.any IrqCall.enables then (c.registers cmosRegA &&& 0xF0) ||| 0x08
        else c.registers cmosRegA) ∧
    t.pic.devices.1.registers cmosRegB
      = withPie (c.registers cmosRegB) (lastWrite IrqCall.pie calls) ∧
    (∀ reg, reg ≠ cmosRegA → reg ≠ cmosRegB →
      t.pic.devices.1.registers reg = c.registers reg) ∧
    t.pic.devices.2
      = (if calls.any IrqCall.enables then openRtcLine s.pic.devices.2 else s.pic.devices.2) ∧
    ∀ vector, t.handlers.handlerOf vector
      = (lastWrite (IrqCall.sets vector) calls).getD (s.handlers.handlerOf vector) := by
  intro c t
  have h : Left s calls t := by
    induction calls using List.reverseRecOn with
    | nil => exact ⟨rfl, rfl, rfl, fun _ _ _ => rfl, rfl, fun _ => rfl⟩
    | append_singleton calls call ih =>
      have ih := ih fun call' hcall' => hcalls call' (List.mem_append_left _ hcall')
      have hcall := hcalls call (List.mem_append_right _ (List.mem_singleton_self call))
      have hrun : t = (s.run (systemBus onIcw1) calls).step (systemBus onIcw1) call := by
        show List.foldl _ s (calls ++ [call]) = _
        rw [List.foldl_append]
        rfl
      rw [hrun]
      generalize s.run (systemBus onIcw1) calls = u at ih
      cases call with
      | enable rtc handler =>
        cases rtc with
        | none => exact ih.ignored rfl rfl fun _ => rfl
        | some rtc => exact ih.enable hmaster hslave hs hcall handler
      | disable rtc =>
        cases rtc with
        | none => exact ih.ignored rfl rfl fun _ => rfl
        | some rtc => exact ih.disable hcall
      | register irqId handler =>
        apply ih.setHandler rfl rfl
        intro vector
        show (registerInterruptHandler u.handlers (irqIdToVector irqId) handler).handlerOf vector
          = (if vector = irqIdToVector irqId then some handler else none).getD _
        rw [handlerOf_register]
        split_ifs <;> rfl
      | unregister irqId =>
        apply ih.setHandler rfl rfl
        intro vector
        show (unregisterInterruptHandler u.handlers (irqIdToVector irqId)).handlerOf vector
          = (if vector = irqIdToVector irqId then some none else none).getD _
        rw [handlerOf_unregister]
        split_ifs <;> rfl
  exact ⟨h.regA, h.regB, h.other, h.lines, h.handlers⟩

/-- One of the first six slots. -/
def firstSlot (i : Fin 6) : Slot := i.castLE (by decide)

/-- All lines masked, the handles of `idt.c` in the first four slots and those of a driver in the
next two. -/
def maskedSystem : IrqState (Cmos × PicDevices) where
  handlers := ⟨fun _ => none, false⟩
  pic :=
    { registry := Registry.static.run
        [.request 0x20, .request 0x21, .request 0xA0, .request 0xA1, .request 0x70, .request 0x71]
      masterPicCmd := some (firstSlot 0)
      masterPicData := some (firstSlot 1)
      slavePicCmd := some (firstSlot 2)
      slavePicData := some (firstSlot 3)
      devices := (⟨0, fun _ => 0x26⟩, ⟨⟨.mask, 0x40, 0xFF⟩, ⟨.mask, 0x48, 0xFF⟩⟩) }

/-- The driver with those two. -/
def testDriver : RtcPorts := ⟨firstSlot 4, firstSlot 5, true⟩

/-- After the test of the kernel the interrupt is off and has no handler, but its line is open. -/
theorem rtcInterrupts_run_test :
    let t := maskedSystem.run (systemBus id)
      [.enable (some testDriver) (some .rtc), .disable (some testDriver)]
    t.pic.devices.1.registers cmosRegB = 0x26 ∧ t.handlers.handlerOf 72 = none ∧
      t.pic.devices.2.slave.mask = 0xFE := by
  intro t
  have hwired : Interrupt.Wired maskedSystem.pic :=
    ⟨⟨firstSlot 0, rfl, by decide⟩, ⟨firstSlot 1, rfl, by decide⟩,
      ⟨firstSlot 2, rfl, by decide⟩, ⟨firstSlot 3, rfl, by decide⟩⟩
  have hrtc : testDriver.Wired maskedSystem.pic.registry := ⟨by decide, by decide⟩
  obtain ⟨-, hregB, -, hlines, hhandlers⟩ := rtcInterrupts_run id hwired rfl rfl
    [.enable (some testDriver) (some .rtc), .disable (some testDriver)]
    (by simp [IrqCall.Wired, hrtc])
  refine ⟨hregB, hhandlers 72, ?_⟩
  exact congrArg (fun d : PicDevices => d.slave.mask) hlines

end Shogun.Rtc
