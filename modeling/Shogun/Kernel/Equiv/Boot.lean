import Shogun.Interrupt.Equiv.Deliver
import Shogun.Kernel.Boot
import Shogun.Rtc.Equiv.Periodic
import Shogun.Rtc.Equiv.WriteTime

/-!
# The machine when interrupts are enabled

* `picInit_systemBus`, `picRemap_systemBus`: the controllers with the RTC on the bus.
* `Booting`: the handles and the open lines between two calls of `kernel_main`.
* `kernelMain_lines`: which lines run which handler after `sti`.
-/

namespace Shogun.Kernel

open Interrupt Port Rtc Shogun.Cpu

/-! ### The controllers -/

section Pic

variable (onIcw1 : UInt8 → UInt8) {s : PicState (Cmos × PicDevices)}

theorem picInit_systemBus (h : Interrupt.Wired s) :
    picInit (systemBus onIcw1) s
      = { s with devices := (s.devices.1,
          ⟨s.devices.2.master.writeData 0xFF, s.devices.2.slave.writeData 0xFF⟩) } := by
  unfold picInit
  rw [h.masterData.isSome, h.slaveData.isSome]
  show PicState.mk _ _ _ _ _ (writePortB _ s.registry s.slavePicData _
    (writePortB _ s.registry s.masterPicData _ s.devices)) = _
  rw [h.masterData.writePortB, h.slaveData.writePortB]
  rfl

theorem picRemap_systemBus (h : Interrupt.Wired s) :
    picRemap (systemBus onIcw1) s
      = { s with devices := (s.devices.1,
          ⟨⟨.mask, 0x40, s.devices.2.master.mask⟩, ⟨.mask, 0x48, s.devices.2.slave.mask⟩⟩) } := by
  unfold picRemap PicState.read PicState.write
  rw [h.masterCmd.isSome, h.slaveCmd.isSome, h.masterData.isSome, h.slaveData.isSome]
  simp only [h.masterCmd.writePortB, h.slaveCmd.writePortB, h.masterData.writePortB,
    h.slaveData.writePortB, h.masterData.readPortB, h.slaveData.readPortB]
  rfl

/-- `pic_unmask_irq(4)` with the RTC on the bus. -/
theorem picUnmaskIrq_four (h : Interrupt.Wired s) :
    picUnmaskIrq (systemBus onIcw1) s 4
      = { s with devices := (s.devices.1, ⟨s.devices.2.master.unmask 4, s.devices.2.slave⟩) } := by
  unfold picUnmaskIrq
  rw [if_pos (by decide)]
  exact clearMaskBit_eq (systemBus onIcw1) h.masterData 4

end Pic

/-! ### The ports -/

/-- The requests of `init_serial` and `pic_init_ports`. -/
def bootOps : List PortOp :=
  [.request 0x3F8, .request 0x20, .request 0x21, .request 0xA0, .request 0xA1]

/-- The requests of `init_rtc`. -/
def rtcRequests : List PortOp := [.request 0x70, .request 0x71]

/-- The calls of a driver that has got slots 5 and 6 and gives them back. -/
def rtcCycle : List PortOp :=
  rtcRequests ++ [.release (.slot ⟨5, by decide⟩), .release (.slot ⟨6, by decide⟩)]

/-- The driver in these slots. -/
def bootRtc : RtcPorts := ⟨⟨5, by decide⟩, ⟨6, by decide⟩, true⟩

/-- `init_rtc` gets the two slots in `r`. -/
structure Spare (r : Registry) : Prop where
  control : (requestPort r cmosControlPort).1 = some ⟨5, by decide⟩
  data : (requestPort (r.step (.request cmosControlPort)) cmosDataPort).1 = some ⟨6, by decide⟩

theorem initRtc_spare {σ : Type*} {r : Registry} (h : Spare r) (bus : PortBus σ) (d : σ)
    (allocated : Bool) :
    initRtc bus r d allocated
      = if allocated then
          (some bootRtc, r.run rtcRequests, bootRtc.setDataFormat bus (r.run rtcRequests) d)
        else (none, r.run rtcCycle, d) := by
  have hcontrol : requestPort r cmosControlPort
      = (some ⟨5, by decide⟩, r.step (.request cmosControlPort)) := Prod.ext h.control rfl
  have hdata : requestPort (r.step (.request cmosControlPort)) cmosDataPort
      = (some ⟨6, by decide⟩, r.run rtcRequests) := Prod.ext h.data rfl
  unfold initRtc
  rw [hcontrol]
  dsimp only
  rw [hdata]
  cases allocated <;> rfl

/-- The slots 1 to 4 hold the ports of the controllers. -/
def PicPorts (r : Registry) : Prop :=
  (r.portRegistry ⟨1, by decide⟩).port = 0x20 ∧ (r.portRegistry ⟨2, by decide⟩).port = 0x21 ∧
    (r.portRegistry ⟨3, by decide⟩).port = 0xA0 ∧ (r.portRegistry ⟨4, by decide⟩).port = 0xA1

instance (r : Registry) : Decidable (PicPorts r) := inferInstanceAs (Decidable (_ ∧ _))

/-- What `init_rtc` needs of the registry and leaves in it. -/
structure RtcReady (r : Registry) : Prop extends Spare r where
  wired : bootRtc.Wired (r.run rtcRequests)
  requests : PicPorts (r.run rtcRequests)
  cycle : PicPorts (r.run rtcCycle)

/-- The registry behind `pic_init_ports` and after `n` drivers that gave their ports back. -/
def bootRegistry : ℕ → Registry
  | 0 => Registry.static.run bootOps
  | n + 1 => (bootRegistry n).run rtcCycle

theorem rtcReady_bootRegistry {n : ℕ} (hn : n < 3) : RtcReady (bootRegistry n) := by
  interval_cases n
  · exact ⟨⟨by decide +kernel, by decide +kernel⟩, ⟨by decide +kernel, by decide +kernel⟩,
      by decide +kernel, by decide +kernel⟩
  · exact ⟨⟨by decide +kernel, by decide +kernel⟩, ⟨by decide +kernel, by decide +kernel⟩,
      by decide +kernel, by decide +kernel⟩
  · exact ⟨⟨by decide +kernel, by decide +kernel⟩, ⟨by decide +kernel, by decide +kernel⟩,
      by decide +kernel, by decide +kernel⟩

/-! ### Between two calls -/

/-- The handles are in their slots, the lines `irqs` are open, periodic interrupts are enabled if
`pie` says so, and if `rtc` does their handler is registered, as the only one. -/
structure Booting (r : Registry) (irqs : List UInt8) (pie rtc : Bool)
    (s : IrqState (Cmos × PicDevices)) : Prop where
  pic : s.pic = ⟨r, some ⟨1, by decide⟩, some ⟨2, by decide⟩, some ⟨3, by decide⟩,
    some ⟨4, by decide⟩, s.pic.devices⟩
  lines : Unmasked irqs s.pic.devices.2
  pie : s.pic.devices.1.periodicEnabled = pie
  handlers : ∀ v, s.handlers.handlerOf v = if rtc = true ∧ v = 72 then some .rtc else none

namespace Booting

variable (onIcw1 : UInt8 → UInt8) {r : Registry} {irqs : List UInt8} {pie rtc : Bool}
  {s : IrqState (Cmos × PicDevices)}

theorem wired (h : Booting r irqs pie rtc s) (hr : PicPorts r) : Interrupt.Wired s.pic := by
  rw [h.pic]
  exact ⟨⟨_, rfl, hr.1⟩, ⟨_, rfl, hr.2.1⟩, ⟨_, rfl, hr.2.2.1⟩, ⟨_, rfl, hr.2.2.2⟩⟩

/-- `init_rtc` with enough slots left. -/
theorem withRtc_eq (h : Booting r irqs pie rtc s) (hr : RtcReady r) (allocated : Bool)
    (body : RtcPorts → IrqState (Cmos × PicDevices) → IrqState (Cmos × PicDevices)) :
    ∃ t, Booting (r.run rtcRequests) irqs pie rtc t ∧
      withRtc (systemBus onIcw1) allocated body s
        = if allocated then body bootRtc t
          else { s with pic := { s.pic with registry := r.run rtcCycle } } := by
  have hregistry : s.pic.registry = r := by rw [h.pic]
  have hformat : bootRtc.setDataFormat (systemBus onIcw1) (r.run rtcRequests) s.pic.devices
      = (⟨cmosRegB, Function.update s.pic.devices.1.registers cmosRegB
          (s.pic.devices.1.registers cmosRegB ||| 0x06)⟩, s.pic.devices.2) := by
    unfold RtcPorts.setDataFormat
    rw [readCmosRegister_systemBus onIcw1 hr.wired (by decide) (by decide)]
    dsimp only
    rw [writeCmosRegister_systemBus onIcw1 hr.wired (by decide) (by decide)]
    rfl
  refine ⟨{ s with pic := { s.pic with
    registry := r.run rtcRequests
    devices := bootRtc.setDataFormat (systemBus onIcw1) (r.run rtcRequests) s.pic.devices } },
    ⟨?_, ?_, ?_, h.handlers⟩, ?_⟩
  · dsimp only
    rw [h.pic]
  · rw [hformat]
    exact h.lines
  · rw [hformat]
    unfold Cmos.periodicEnabled
    dsimp only
    rw [Function.update_self, UInt8.or_and_of_disjoint (by decide)]
    exact h.pie
  · unfold withRtc
    rw [hregistry, initRtc_spare hr.toSpare]
    cases allocated <;> rfl

/-- The driver gives its ports back. -/
theorem releaseRtc (h : Booting (r.run rtcRequests) irqs pie rtc s) :
    Booting (r.run rtcCycle) irqs pie rtc (Kernel.releaseRtc bootRtc s) where
  pic := by
    unfold Kernel.releaseRtc
    dsimp only
    rw [h.pic]
    rfl
  lines := h.lines
  pie := h.pie
  handlers := h.handlers

/-- The failure of `malloc` in `init_rtc`. -/
theorem failed (h : Booting r irqs pie rtc s) :
    Booting (r.run rtcCycle) irqs pie rtc
      { s with pic := { s.pic with registry := r.run rtcCycle } } where
  pic := by
    dsimp only
    rw [h.pic]
  lines := h.lines
  pie := h.pie
  handlers := h.handlers

/-- `enable_rtc_interrupts` for the handler of the kernel. -/
theorem enable (h : Booting r irqs pie rtc s) (hr : PicPorts r) (hrtc : bootRtc.Wired r) :
    (enableRtcInterrupts (systemBus onIcw1) (some bootRtc) (some .rtc) s).1 = 0 ∧
      Booting r (irqs ++ [8]) true true
        (enableRtcInterrupts (systemBus onIcw1) (some bootRtc) (some .rtc) s).2 := by
  have hregistry : s.pic.registry = r := by rw [h.pic]
  rw [enableRtcInterrupts_eq onIcw1 (h.wired hr) (by rw [hregistry]; exact hrtc)]
  refine ⟨rfl, ?_, ?_, ?_, ?_⟩
  · dsimp only
    rw [h.pic]
  · exact h.lines.unmask_slave (by decide) (by decide)
  · unfold Cmos.periodicEnabled
    dsimp only
    rw [Function.update_self, bne_iff_ne]
    exact UInt8.or_and_ne_zero (by decide) _
  · intro v
    show (registerInterruptHandler s.handlers 72 (some .rtc)).handlerOf v = _
    rw [handlerOf_register, h.handlers]
    split_ifs with hv hrtc <;> simp_all

/-- `disable_rtc_interrupts` right behind it. -/
theorem disable (h : Booting r irqs pie rtc s) (hrtc : bootRtc.Wired r) :
    Booting r irqs false false (disableRtcInterrupts (systemBus onIcw1) (some bootRtc) s).2 := by
  have hregistry : s.pic.registry = r := by rw [h.pic]
  have hrtc' : bootRtc.Wired s.pic.registry := by rw [hregistry]; exact hrtc
  rw [disableRtcInterrupts_eq onIcw1 hrtc']
  refine ⟨?_, h.lines, ?_, ?_⟩
  · dsimp only
    rw [h.pic]
  · unfold Cmos.periodicEnabled
    dsimp only
    rw [Function.update_self, UInt8.and_assoc, show (0xBF : UInt8) &&& 0x40 = 0 from rfl,
      UInt8.and_zero]
    rfl
  · intro v
    show (unregisterInterruptHandler s.handlers 72).handlerOf v = _
    rw [handlerOf_unregister, h.handlers]
    split_ifs with hv hrtc <;> simp_all

/-! ### The calls of `kernel_main` -/

theorem basicInit (h : Booting r irqs pie rtc s) (hr : RtcReady r) {o : BootOutcome}
    (htime : ∀ c, (o.time c).periodicEnabled = c.periodicEnabled) :
    Booting (r.run rtcCycle) irqs pie rtc (testRtcBasicInit (systemBus onIcw1) o s) := by
  unfold testRtcBasicInit
  obtain ⟨t, ht, hcode⟩ := h.withRtc_eq onIcw1 hr o.basicInit _
  rw [hcode]
  cases o.basicInit with
  | false => exact h.failed
  | true =>
    apply Booting.releaseRtc
    refine ⟨?_, ht.lines, (htime _).trans ht.pie, ht.handlers⟩
    dsimp only
    rw [ht.pic]

theorem registration (h : Booting r irqs pie false s) (hr : RtcReady r) (o : BootOutcome) :
    Booting (r.run rtcCycle) (if o.registration then irqs ++ [8] else irqs)
      (!o.registration && pie) false (testRtcInterruptRegistration (systemBus onIcw1) o s) := by
  unfold testRtcInterruptRegistration
  obtain ⟨t, ht, hcode⟩ := h.withRtc_eq onIcw1 hr o.registration _
  rw [hcode]
  cases o.registration with
  | false => exact h.failed
  | true =>
    obtain ⟨hresult, henabled⟩ := ht.enable onIcw1 hr.requests hr.wired
    have hdisabled := henabled.disable onIcw1 hr.wired
    show Booting _ _ _ _ (Kernel.releaseRtc bootRtc
      (if (enableRtcInterrupts (systemBus onIcw1) (some bootRtc) (some .rtc) t).1 = 0
        then (disableRtcInterrupts (systemBus onIcw1) (some bootRtc)
          (enableRtcInterrupts (systemBus onIcw1) (some bootRtc) (some .rtc) t).2).2
        else (enableRtcInterrupts (systemBus onIcw1) (some bootRtc) (some .rtc) t).2))
    rw [if_pos hresult]
    exact hdisabled.releaseRtc

theorem system (h : Booting r irqs pie false s) (hr : RtcReady r) (o : BootOutcome) :
    ∃ r', PicPorts r' ∧ Booting r' (if o.system then irqs ++ [8] else irqs) (o.system || pie)
      o.system (withRtc (systemBus onIcw1) o.system
        (fun rtc s => (enableRtcInterrupts (systemBus onIcw1) (some rtc) (some .rtc) s).2) s) := by
  obtain ⟨t, ht, hcode⟩ := h.withRtc_eq onIcw1 hr o.system
    (fun rtc s => (enableRtcInterrupts (systemBus onIcw1) (some rtc) (some .rtc) s).2)
  rw [hcode]
  cases o.system with
  | false => exact ⟨_, hr.cycle, h.failed⟩
  | true => exact ⟨_, hr.requests, (ht.enable onIcw1 hr.requests hr.wired).2⟩

end Booting

/-- `pic_init_ports` when its requests are granted. -/
theorem picInitPorts_eq {σ : Type*} {s : PicState σ} {i₁ i₂ i₃ i₄ : Slot} {r₁ r₂ r₃ r₄ : Registry}
    (h₁ : requestPort s.registry 0x20 = (some i₁, r₁)) (h₂ : requestPort r₁ 0x21 = (some i₂, r₂))
    (h₃ : requestPort r₂ 0xA0 = (some i₃, r₃)) (h₄ : requestPort r₃ 0xA1 = (some i₄, r₄)) :
    picInitPorts s = ⟨r₄, some i₁, some i₂, some i₃, some i₄, s.devices⟩ := by
  unfold picInitPorts
  rw [h₁]
  dsimp only
  rw [h₂]
  dsimp only
  rw [h₃]
  dsimp only
  rw [h₄]

theorem requestPort_eq {r : Registry} {port : UInt16} {i : Slot}
    (h : (requestPort r port).1 = some i) : requestPort r port = (some i, r.step (.request port)) :=
  Prod.ext h rfl

/-- Controllers with every line masked. -/
theorem unmasked_nil : Unmasked [] ⟨⟨.mask, 0x40, 0xFF⟩, ⟨.mask, 0x48, 0xFF⟩⟩ :=
  ⟨rfl, rfl, rfl, rfl, by decide, by decide, by decide⟩

/-- The handles of `idt.c` after the boot. -/
def bootHandles (r : Registry) (d : Cmos × PicDevices) : PicState (Cmos × PicDevices) :=
  ⟨r, some ⟨1, by decide⟩, some ⟨2, by decide⟩, some ⟨3, by decide⟩, some ⟨4, by decide⟩, d⟩

/-- The requests of `init_serial` and `pic_init_ports` in a registry that is empty. -/
theorem picInitPorts_boot (d : Cmos × PicDevices) :
    picInitPorts ⟨Registry.static.step (.request 0x3F8), none, none, none, none, d⟩
      = bootHandles (bootRegistry 0) d := by
  have h₁ : (requestPort (Registry.static.step (.request 0x3F8)) 0x20).1
      = some ⟨1, by decide⟩ := by decide +kernel
  have h₂ : (requestPort ((Registry.static.step (.request 0x3F8)).step (.request 0x20)) 0x21).1
      = some ⟨2, by decide⟩ := by decide +kernel
  have h₃ : (requestPort (((Registry.static.step (.request 0x3F8)).step (.request 0x20)).step
      (.request 0x21)) 0xA0).1 = some ⟨3, by decide⟩ := by decide +kernel
  have h₄ : (requestPort ((((Registry.static.step (.request 0x3F8)).step (.request 0x20)).step
      (.request 0x21)).step (.request 0xA0)) 0xA1).1 = some ⟨4, by decide⟩ := by decide +kernel
  exact picInitPorts_eq (requestPort_eq h₁) (requestPort_eq h₂) (requestPort_eq h₃)
    (requestPort_eq h₄)

theorem wired_bootHandles {r : Registry} (h : PicPorts r) (d : Cmos × PicDevices) :
    Interrupt.Wired (bootHandles r d) :=
  ⟨⟨_, rfl, h.1⟩, ⟨_, rfl, h.2.1⟩, ⟨_, rfl, h.2.2.1⟩, ⟨_, rfl, h.2.2.2⟩⟩

/-- The controllers before the tests. -/
theorem picRemap_boot (onIcw1 : UInt8 → UInt8) (c : Cmos)
    (masterBase masterMask slaveBase slaveMask : UInt8) :
    picRemap (systemBus onIcw1) (picInit (systemBus onIcw1) (bootHandles (bootRegistry 0)
        (c, ⟨⟨.mask, masterBase, masterMask⟩, ⟨.mask, slaveBase, slaveMask⟩⟩)))
      = bootHandles (bootRegistry 0) (c, ⟨⟨.mask, 0x40, 0xFF⟩, ⟨.mask, 0x48, 0xFF⟩⟩) := by
  have hports : PicPorts (bootRegistry 0) := by decide +kernel
  rw [picInit_systemBus onIcw1 (wired_bootHandles hports _)]
  exact picRemap_systemBus onIcw1 (wired_bootHandles hports _)

theorem booting_start (c : Cmos) :
    Booting (bootRegistry 0) [] c.periodicEnabled false ⟨⟨fun _ => none, false⟩,
      { bootHandles (bootRegistry 0) (c, ⟨⟨.mask, 0x40, 0xFF⟩, ⟨.mask, 0x48, 0xFF⟩⟩) with
        registry := initPortManager (bootRegistry 0) }⟩ := by
  have hinit : (bootRegistry 0).initialized = true := by decide +kernel
  refine ⟨?_, unmasked_nil, rfl, fun _ => rfl⟩
  dsimp only
  rw [initPortManager, if_pos hinit]
  rfl

/-- The last calls of the boot. -/
theorem Booting.serial (onIcw1 : UInt8 → UInt8) {r : Registry} {irqs : List UInt8} {pie rtc : Bool}
    {s : IrqState (Cmos × PicDevices)} (h : Booting r irqs pie rtc s) (hr : PicPorts r) :
    let handlers := registerInterruptHandlerIrq (unregisterInterruptHandler
      (registerInterruptHandler s.handlers 0x81 (some .custom)) 0x81) ⟨.irqPic1, 4⟩
      (some .asyncSerial)
    let pic := picUnmaskIrq (systemBus onIcw1) s.pic 4
    Unmasked (irqs ++ [4]) pic.devices.2 ∧ pic.devices.1.periodicEnabled = pie ∧
      ∀ v, handlers.handlerOf v = if v = 68 then some .asyncSerial
        else if rtc = true ∧ v = 72 then some .rtc else none := by
  intro handlers pic
  have hpic : pic = { s.pic with
      devices := (s.pic.devices.1, ⟨s.pic.devices.2.master.unmask 4, s.pic.devices.2.slave⟩) } :=
    picUnmaskIrq_four onIcw1 (h.wired hr)
  rw [hpic]
  refine ⟨h.lines.unmask_master (by decide), h.pie, ?_⟩
  intro v
  show (registerInterruptHandler _ 68 (some .asyncSerial)).handlerOf v = _
  rw [handlerOf_register, handlerOf_unregister, handlerOf_register, h.handlers]
  by_cases hv : v = 0x81
  · subst hv
    simp
  · rw [if_neg hv, if_neg hv]

/-- The boot as the calls behind `pic_remap`. -/
theorem kernelMain_eq (onIcw1 : UInt8 → UInt8) (c : Cmos)
    (masterBase masterMask slaveBase slaveMask : UInt8) (o : BootOutcome) :
    let bus := systemBus onIcw1
    let s := withRtc bus o.system
      (fun rtc s => (enableRtcInterrupts bus (some rtc) (some .rtc) s).2)
      (testRtcInterruptRegistration bus o (testRtcBasicInit bus o ⟨⟨fun _ => none, false⟩,
        { bootHandles (bootRegistry 0) (c, ⟨⟨.mask, 0x40, 0xFF⟩, ⟨.mask, 0x48, 0xFF⟩⟩) with
          registry := initPortManager (bootRegistry 0) }⟩))
    kernelMain bus o (bootState c masterBase masterMask slaveBase slaveMask)
      = ⟨registerInterruptHandlerIrq (unregisterInterruptHandler
          (registerInterruptHandler s.handlers 0x81 (some .custom)) 0x81) ⟨.irqPic1, 4⟩
          (some .asyncSerial), picUnmaskIrq bus s.pic 4⟩ := by
  intro bus s
  have hpic : picRemap bus (picInit bus (picInitPorts
      ⟨Registry.static.step (.request 0x3F8), none, none, none, none,
        (c, ⟨⟨.mask, masterBase, masterMask⟩, ⟨.mask, slaveBase, slaveMask⟩⟩)⟩))
      = bootHandles (bootRegistry 0) (c, ⟨⟨.mask, 0x40, 0xFF⟩, ⟨.mask, 0x48, 0xFF⟩⟩) := by
    rw [picInitPorts_boot, picRemap_boot]
  dsimp only [kernelMain, bootState]
  rw [show (requestPort Registry.static 0x3F8).2 = Registry.static.step (.request 0x3F8) from rfl,
    hpic]
  rfl

/-- **The lines at `sti`.**  For every state of the devices before the boot, every placement of the
tables and the stubs, every outcome of the three allocations, and every state of the processor: line
4 runs `async_serial_interrupt_handler`; line 8 runs `rtc_interrupt_handler` if the kernel has got
its driver, runs nothing but is open if only the test had got one, and is masked otherwise; all
other lines are masked.  Periodic interrupts are enabled if the kernel has its driver; without that
they are as the firmware has left them unless the test had one. -/
theorem kernelMain_lines (onIcw1 : UInt8 → UInt8) (c : Cmos)
    (masterBase masterMask slaveBase slaveMask : UInt8) (o : BootOutcome)
    (htime : ∀ c, (o.time c).periodicEnabled = c.periodicEnabled)
    (interruptHandler : UInt8 → UInt32) (gdt : Fin 3 → GdtEntry) (idt : UInt8 → IdtEntry)
    {gdtAddr idtAddr : UInt32} {s : Cpu}
    (hgdt : HoldsBytes s.mem gdtAddr (gdtBytes (gdtInit gdt)))
    (hidt : HoldsBytes s.mem idtAddr (idtBytes (idtInit interruptHandler idt)))
    {codeAt : ℕ → Option (List Instr)}
    (hcode : ∀ v, codeAt (interruptHandler v).toNat = some (generateErrorCodeHandler v))
    (calls : ∀ f : CFunction, CCall f.argBytes) :
    let t := kernelMain (systemBus onIcw1) o
      (bootState c masterBase masterMask slaveBase slaveMask)
    (∀ line, Machine.raiseLine
        ⟨t.pic.devices.2, gdtPtr gdtAddr, idtPtr idtAddr, codeAt, t.handlers⟩ calls s line
      = if line = 4 then some (some .asyncSerial)
        else if line = 8 ∧ (o.registration || o.system) = true then
          some (if o.system then some .rtc else none)
        else none) ∧
    t.pic.devices.1.periodicEnabled
      = (o.system || !o.registration && c.periodicEnabled) := by
  intro t
  have hbasic := (booting_start c).basicInit onIcw1 (rtcReady_bootRegistry (by decide)) htime
  have hregistration := hbasic.registration onIcw1 (rtcReady_bootRegistry (n := 1) (by decide)) o
  obtain ⟨r', hports, hsystem⟩ :=
    hregistration.system onIcw1 (rtcReady_bootRegistry (n := 2) (by decide)) o
  obtain ⟨hlines, hpie, hhandlers⟩ := hsystem.serial onIcw1 hports
  have ht := kernelMain_eq onIcw1 c masterBase masterMask slaveBase slaveMask o
  rw [show t = _ from ht]
  refine ⟨fun line => ?_, hpie⟩
  by_cases hline : line = 2
  · subst hline
    rfl
  · rw [raiseLine_tables hlines.masterBase hlines.slaveBase hgdt hidt hcode calls _ hline,
      hhandlers, if_congr (lineOpen_iff hlines hline) rfl rfl]
    generalize o.registration = a
    generalize o.system = b
    revert line a b
    decide

/-- A boot in which the kernel gets no driver, but the test has got one: the line is open, and no
handler is registered for it. -/
theorem kernelMain_lines_open :
    let o : BootOutcome := ⟨true, true, false, fun c =>
      ((WriteState.start c).run ⟨true⟩ nextSecond ⟨56, 34, 11⟩ (List.replicate 10 .access)).cmos⟩
    let t := kernelMain (systemBus id) o (bootState ⟨0, fun _ => 0⟩ 0x08 0xB8 0x70 0x8F)
    Machine.raiseLine ⟨t.pic.devices.2, gdtPtr 0x1000, idtPtr 0x1018, sampleCode, t.handlers⟩
      (fun f => emptyCall f.argBytes) linkedCpu 8 = some none := by
  intro o t
  obtain ⟨hlines, -⟩ := kernelMain_lines id ⟨0, fun _ => 0⟩ 0x08 0xB8 0x70 0x8F o
    (periodicEnabled_write ⟨true⟩ nextSecond ⟨56, 34, 11⟩ _) sampleStub _ _ linkedCpu_tables.1
    linkedCpu_tables.2 sampleCode_sampleStub fun f => emptyCall f.argBytes
  rw [hlines 8]
  rfl

end Shogun.Kernel
