import Shogun.Interrupt.Pic
import Shogun.Port.Equiv.PortManager

/-!
# The masks of the interrupt controllers

* `Wired`: the handles are those of the four ports; `wired_picInitPorts`.
* `picInit_eq`, `picRemap_eq`, `picUnmaskIrq_eq`: what each call does to the controllers.
* `Unmasked irqs d`: the masks after the calls `irqs` of `pic_unmask_irq`; `Unmasked.step` is one
  call more.
* `picMasks_run`: the masks after every sequence of calls.
-/

namespace Shogun.Interrupt

open Port

/-! ### Accesses through the handles -/

/-- The slot of a handle holds the port. -/
def HandleOf (r : Registry) (handle : Option Slot) (port : UInt16) : Prop :=
  ∃ i, handle = some i ∧ (r.portRegistry i).port = port

/-- The handles of `idt.c` are those of the controllers' ports. -/
structure Wired {σ : Type*} (s : PicState σ) : Prop where
  masterCmd : HandleOf s.registry s.masterPicCmd 0x20
  masterData : HandleOf s.registry s.masterPicData 0x21
  slaveCmd : HandleOf s.registry s.slavePicCmd 0xA0
  slaveData : HandleOf s.registry s.slavePicData 0xA1

theorem HandleOf.isSome {r : Registry} {handle : Option Slot} {port : UInt16}
    (h : HandleOf r handle port) : handle.isSome = true := by
  obtain ⟨i, rfl, -⟩ := h
  rfl

theorem HandleOf.writePortB {σ : Type*} {r : Registry} {handle : Option Slot} {port : UInt16}
    (h : HandleOf r handle port) (bus : PortBus σ) (value : UInt8) (d : σ) :
    writePortB bus r handle value d = bus.outB d port value := by
  obtain ⟨i, rfl, rfl⟩ := h
  rfl

theorem HandleOf.readPortB {σ : Type*} {r : Registry} {handle : Option Slot} {port : UInt16}
    (h : HandleOf r handle port) (bus : PortBus σ) (d : σ) :
    readPortB bus r handle d = bus.inB d port := by
  obtain ⟨i, rfl, rfl⟩ := h
  rfl

/-- Clearing a bit of the mask reads the port and writes it back. -/
theorem clearMaskBit_eq {σ : Type*} (bus : PortBus σ) {s : PicState σ} {handle : Option Slot}
    {port : UInt16} (h : HandleOf s.registry handle port) (bit : UInt8) :
    clearMaskBit bus s handle bit
      = { s with
          devices := bus.outB (bus.inB s.devices port).2 port
            ((bus.inB s.devices port).1 &&& ~~~((1 : UInt8) <<< bit)) } := by
  unfold clearMaskBit PicState.read PicState.write
  rw [h.isSome]
  simp only [h.writePortB, h.readPortB]
  rfl

section Wired

variable {onIcw1 : UInt8 → UInt8} {s : PicState PicDevices}

/-- `pic_init` masks every line. -/
theorem picInit_eq (h : Wired s) :
    picInit (picBus onIcw1) s
      = { s with
          devices := ⟨s.devices.master.writeData 0xFF, s.devices.slave.writeData 0xFF⟩ } := by
  unfold picInit
  rw [h.masterData.isSome, h.slaveData.isSome]
  show PicState.mk _ _ _ _ _ (writePortB _ s.registry s.slavePicData _
    (writePortB _ s.registry s.masterPicData _ s.devices)) = _
  rw [h.masterData.writePortB, h.slaveData.writePortB]
  rfl

/-- `pic_remap` sets the vectors and puts the masks back, whatever `ICW1` has done to them. -/
theorem picRemap_eq (h : Wired s) :
    picRemap (picBus onIcw1) s
      = { s with devices :=
          ⟨⟨.mask, 0x40, s.devices.master.mask⟩, ⟨.mask, 0x48, s.devices.slave.mask⟩⟩ } := by
  unfold picRemap PicState.read PicState.write
  rw [h.masterCmd.isSome, h.slaveCmd.isSome, h.masterData.isSome, h.slaveData.isSome]
  simp only [h.masterCmd.writePortB, h.slaveCmd.writePortB, h.masterData.writePortB,
    h.slaveData.writePortB, h.masterData.readPortB, h.slaveData.readPortB]
  rfl

/-- A line of a controller is unmasked. -/
def Pic.unmask (p : Pic) (bit : UInt8) : Pic :=
  p.writeData (p.mask &&& ~~~((1 : UInt8) <<< bit))

/-- `pic_unmask_irq` unmasks a line of the master, or the cascade and a line of the slave. -/
theorem picUnmaskIrq_eq (h : Wired s) (irq : UInt8) :
    picUnmaskIrq (picBus onIcw1) s irq
      = { s with devices :=
          if irq < 8 then ⟨s.devices.master.unmask irq, s.devices.slave⟩
          else if irq ≥ 8 ∧ irq < 16 then
            ⟨s.devices.master.unmask 2, s.devices.slave.unmask (irq - 8)⟩
          else s.devices } := by
  have hcascade : clearMaskBit (picBus onIcw1) s s.masterPicData 2
      = { s with devices := ⟨s.devices.master.unmask 2, s.devices.slave⟩ } :=
    clearMaskBit_eq (picBus onIcw1) h.masterData 2
  have hslave := clearMaskBit_eq (picBus onIcw1)
    (s := { s with devices := ⟨s.devices.master.unmask 2, s.devices.slave⟩ }) h.slaveData (irq - 8)
  unfold picUnmaskIrq
  split_ifs
  · exact clearMaskBit_eq (picBus onIcw1) h.masterData irq
  · rw [hcascade]
    exact hslave
  · rfl

end Wired

/-! ### `pic_init_ports` -/

/-- `pic_init_ports` has got its four ports. -/
structure PicState.Acquired {σ : Type*} (s : PicState σ) : Prop where
  masterPicCmd : s.masterPicCmd.isSome = true
  masterPicData : s.masterPicData.isSome = true
  slavePicCmd : s.slavePicCmd.isSome = true
  slavePicData : s.slavePicData.isSome = true

/-- A request that is granted. -/
theorem granted_of_isSome {r : Registry} {port : UInt16} (h : r.Valid)
    (hsome : (requestPort r port).1.isSome = true) :
    ∃ i, (requestPort r port).1 = some i ∧ Granted r port i (requestPort r port).2 := by
  obtain ⟨i, hi⟩ := Option.isSome_iff_exists.mp hsome
  exact ⟨i, hi, granted_of_requestPort h (Prod.ext hi rfl)⟩

/-- With all four ports the handles are those of the controllers. -/
theorem wired_picInitPorts {σ : Type*} {s : PicState σ} (h : s.registry.Valid)
    (hacquired : (picInitPorts s).Acquired) : Wired (picInitPorts s) := by
  obtain ⟨h1, h2, h3, h4⟩ := hacquired
  obtain ⟨i, hi, hgi⟩ := granted_of_isSome h h1
  obtain ⟨j, hj, hgj⟩ := granted_of_isSome hgi.valid h2
  obtain ⟨k, hk, hgk⟩ := granted_of_isSome hgj.valid h3
  obtain ⟨l, hl, hgl⟩ := granted_of_isSome hgk.valid h4
  -- a slot that has been filled keeps its port through the requests behind it
  have hport_i := (hgl.keeps (hgk.keeps (hgj.keeps hgi.slot).2).2).2
  have hport_j := (hgl.keeps (hgk.keeps hgj.slot).2).2
  have hport_k := (hgl.keeps hgk.slot).2
  exact ⟨⟨i, hi, congrArg PortHandle.port hport_i⟩, ⟨j, hj, congrArg PortHandle.port hport_j⟩,
    ⟨k, hk, congrArg PortHandle.port hport_k⟩, ⟨l, hl, congrArg PortHandle.port hgl.slot⟩⟩

/-! ### Masks -/

theorem Pic.unmask_eq {p : Pic} (h : p.phase = .mask) (bit : UInt8) :
    p.unmask bit = { p with mask := p.mask &&& ~~~((1 : UInt8) <<< bit) } := by
  unfold Pic.unmask Pic.writeData
  rw [h]

/-- Unmasking a line leaves the other lines as they are. -/
theorem Pic.masked_unmask {p : Pic} (h : p.phase = .mask) {bit : UInt8} (hbit : bit < 8) {i : ℕ}
    (hi : i < 8) : (p.unmask bit).masked i = false ↔ p.masked i = false ∨ i = bit.toNat := by
  have hmask : ∀ k < 8, ∀ i < 8,
      (~~~((1 : UInt8) <<< UInt8.ofNat k)).toNat.testBit i = decide (i ≠ k) := by decide
  have hline := hmask bit.toNat (UInt8.lt_iff_toNat_lt.mp hbit) i hi
  rw [UInt8.ofNat_toNat] at hline
  unfold Pic.masked
  rw [Pic.unmask_eq h, UInt8.toNat_and, Nat.testBit_and, hline, Bool.and_eq_false_iff,
    decide_eq_false_iff_not, not_not]

/-- A call more among those with a given number. -/
theorem ofNat_mem_concat {irqs : List UInt8} {irq : UInt8} {n : ℕ} (hn : n < 256) :
    UInt8.ofNat n ∈ irqs ++ [irq] ↔ UInt8.ofNat n ∈ irqs ∨ n = irq.toNat := by
  have hirq : UInt8.ofNat n = irq ↔ n = irq.toNat := by
    rw [← UInt8.toNat_inj, UInt8.toNat_ofNat_of_lt' hn]
  rw [List.mem_append, List.mem_singleton, hirq]

/-- A call more among those for the slave. -/
theorem exists_slave_concat (irqs : List UInt8) (irq : UInt8) :
    (∃ x ∈ irqs ++ [irq], 8 ≤ x ∧ x < 16)
      ↔ (∃ x ∈ irqs, 8 ≤ x ∧ x < 16) ∨ (8 ≤ irq ∧ irq < 16) := by
  simp [or_and_right, exists_or]

/-- The controllers after the calls `irqs` of `pic_unmask_irq`. -/
structure Unmasked (irqs : List UInt8) (d : PicDevices) : Prop where
  masterPhase : d.master.phase = .mask
  slavePhase : d.slave.phase = .mask
  masterBase : d.master.vectorBase = 0x40
  slaveBase : d.slave.vectorBase = 0x48
  slave : ∀ j, j < 8 → (d.slave.masked j = false ↔ UInt8.ofNat (8 + j) ∈ irqs)
  master : ∀ i, i < 8 → i ≠ 2 → (d.master.masked i = false ↔ UInt8.ofNat i ∈ irqs)
  cascade : d.master.masked 2 = false ↔ UInt8.ofNat 2 ∈ irqs ∨ ∃ irq ∈ irqs, 8 ≤ irq ∧ irq < 16

namespace Unmasked

variable {irqs : List UInt8} {d : PicDevices} {irq : UInt8}

/-- A line of the master. -/
theorem unmask_master (h : Unmasked irqs d) (hirq : irq < 8) :
    Unmasked (irqs ++ [irq]) ⟨d.master.unmask irq, d.slave⟩ := by
  have hlt := UInt8.lt_iff_toNat_lt.mp hirq
  rw [show (8 : UInt8).toNat = 8 from rfl] at hlt
  have hunmask := Pic.unmask_eq h.masterPhase irq
  constructor
  · rw [hunmask]
    exact h.masterPhase
  · exact h.slavePhase
  · rw [hunmask]
    exact h.masterBase
  · exact h.slaveBase
  · intro j hj
    rw [h.slave j hj, ofNat_mem_concat (by omega)]
    exact (or_iff_left (by omega)).symm
  · intro i hi hne
    rw [Pic.masked_unmask h.masterPhase hirq hi, h.master i hi hne, ofNat_mem_concat (by omega)]
  · rw [Pic.masked_unmask h.masterPhase hirq (by decide), h.cascade, ofNat_mem_concat (by decide)]
    -- the call is none of those for the slave
    have hnot : ¬ (8 ≤ irq ∧ irq < 16) := fun hslave => absurd hslave.1 (UInt8.not_le.mpr hirq)
    rw [exists_slave_concat, or_iff_left hnot]
    exact or_right_comm

/-- A line of the slave, and the cascade. -/
theorem unmask_slave (h : Unmasked irqs d) (hle : 8 ≤ irq) (hirq : irq < 16) :
    Unmasked (irqs ++ [irq]) ⟨d.master.unmask 2, d.slave.unmask (irq - 8)⟩ := by
  have hle' := UInt8.le_iff_toNat_le.mp hle
  have hlt' := UInt8.lt_iff_toNat_lt.mp hirq
  rw [show (8 : UInt8).toNat = 8 from rfl] at hle'
  rw [show (16 : UInt8).toNat = 16 from rfl] at hlt'
  have hbit : (irq - 8).toNat = irq.toNat - 8 := UInt8.toNat_sub_of_le irq 8 hle
  have hbit8 : irq - 8 < 8 := by
    rw [UInt8.lt_iff_toNat_lt, hbit]
    show irq.toNat - 8 < 8
    omega
  have hmaster := Pic.unmask_eq h.masterPhase 2
  have hslave := Pic.unmask_eq h.slavePhase (irq - 8)
  constructor
  · rw [hmaster]
    exact h.masterPhase
  · rw [hslave]
    exact h.slavePhase
  · rw [hmaster]
    exact h.masterBase
  · rw [hslave]
    exact h.slaveBase
  · intro j hj
    rw [Pic.masked_unmask h.slavePhase hbit8 hj, h.slave j hj, ofNat_mem_concat (by omega), hbit]
    exact or_congr_right (by omega)
  · intro i hi hne
    rw [Pic.masked_unmask h.masterPhase (by decide) hi, h.master i hi hne,
      ofNat_mem_concat (by omega)]
    have hcascade : ¬ i = (2 : UInt8).toNat := hne
    have hother : ¬ i = irq.toNat := by omega
    rw [or_iff_left hcascade, or_iff_left hother]
  · rw [Pic.masked_unmask h.masterPhase (by decide) (by decide)]
    have hleft : d.master.masked 2 = false ∨ 2 = (2 : UInt8).toNat := .inr rfl
    have hright := (exists_slave_concat irqs irq).mpr (.inr ⟨hle, hirq⟩)
    exact ⟨fun _ => .inr hright, fun _ => hleft⟩

/-- A number that is no interrupt line. -/
theorem unmask_none (h : Unmasked irqs d) (hirq : 16 ≤ irq) : Unmasked (irqs ++ [irq]) d := by
  have hle := UInt8.le_iff_toNat_le.mp hirq
  rw [show (16 : UInt8).toNat = 16 from rfl] at hle
  refine ⟨h.masterPhase, h.slavePhase, h.masterBase, h.slaveBase, ?_, ?_, ?_⟩
  · intro j hj
    rw [h.slave j hj, ofNat_mem_concat (by omega)]
    exact (or_iff_left (by omega)).symm
  · intro i hi hne
    rw [h.master i hi hne, ofNat_mem_concat (by omega)]
    exact (or_iff_left (by omega)).symm
  · have hnot : ¬ (8 ≤ irq ∧ irq < 16) := fun hslave => absurd hirq (UInt8.not_le.mpr hslave.2)
    rw [h.cascade, ofNat_mem_concat (by decide), exists_slave_concat, or_iff_left hnot]
    exact or_congr_left (or_iff_left (by omega)).symm

/-- One call more. -/
theorem step {s : PicState PicDevices} (hs : Wired s) (h : Unmasked irqs s.devices)
    (onIcw1 : UInt8 → UInt8) (irq : UInt8) :
    Wired (picUnmaskIrq (picBus onIcw1) s irq) ∧
      Unmasked (irqs ++ [irq]) (picUnmaskIrq (picBus onIcw1) s irq).devices := by
  rw [picUnmaskIrq_eq hs]
  refine ⟨⟨hs.masterCmd, hs.masterData, hs.slaveCmd, hs.slaveData⟩, ?_⟩
  dsimp only
  split_ifs with hmaster hslave
  · exact h.unmask_master hmaster
  · exact h.unmask_slave hslave.1 hslave.2
  · apply h.unmask_none
    rw [UInt8.not_lt] at hmaster
    by_contra hlt
    exact hslave ⟨hmaster, UInt8.not_le.mp hlt⟩

/-- All calls of a sequence. -/
theorem run {s : PicState PicDevices} (hs : Wired s) (h : Unmasked [] s.devices)
    (onIcw1 : UInt8 → UInt8) (irqs : List UInt8) :
    Wired (irqs.foldl (picUnmaskIrq (picBus onIcw1)) s) ∧
      Unmasked irqs (irqs.foldl (picUnmaskIrq (picBus onIcw1)) s).devices := by
  induction irqs using List.reverseRecOn with
  | nil => exact ⟨hs, h⟩
  | append_singleton irqs irq ih =>
    rw [List.foldl_append]
    exact step ih.1 ih.2 onIcw1 irq

end Unmasked

/-! ### Whole runs -/

/-- The state before `pic_init_ports`: the masks and the vectors are those the firmware has left,
and no initialisation of a controller is under way. -/
def bootPics (r : Registry) (masterBase masterMask slaveBase slaveMask : UInt8) :
    PicState PicDevices :=
  ⟨r, none, none, none, none, ⟨.mask, masterBase, masterMask⟩, ⟨.mask, slaveBase, slaveMask⟩⟩

/-- `pic_init_ports`, `pic_init`, `pic_remap` and a sequence of calls of `pic_unmask_irq`. -/
def picRun (onIcw1 : UInt8 → UInt8) (s : PicState PicDevices) (irqs : List UInt8) :
    PicState PicDevices :=
  irqs.foldl (picUnmaskIrq (picBus onIcw1))
    (picRemap (picBus onIcw1) (picInit (picBus onIcw1) (picInitPorts s)))

/-- After `pic_remap` every line is masked. -/
theorem unmasked_picRemap (onIcw1 : UInt8 → UInt8) {s : PicState PicDevices} (h : Wired s)
    (hmaster : s.devices.master.phase = .mask) (hslave : s.devices.slave.phase = .mask) :
    Wired (picRemap (picBus onIcw1) (picInit (picBus onIcw1) s)) ∧
      Unmasked [] (picRemap (picBus onIcw1) (picInit (picBus onIcw1) s)).devices := by
  have hinit : Wired (picInit (picBus onIcw1) s) := by
    rw [picInit_eq h]
    exact ⟨h.masterCmd, h.masterData, h.slaveCmd, h.slaveData⟩
  have hmask : ∀ p : Pic, p.phase = .mask → (p.writeData 0xFF).mask = 0xFF := by
    intro p hp
    unfold Pic.writeData
    rw [hp]
  have hall : ∀ i < 8, Nat.testBit 0xFF i = true := by decide
  rw [picRemap_eq hinit]
  refine ⟨⟨hinit.masterCmd, hinit.masterData, hinit.slaveCmd, hinit.slaveData⟩, ?_⟩
  rw [picInit_eq h]
  dsimp only
  rw [hmask _ hmaster, hmask _ hslave]
  refine ⟨rfl, rfl, rfl, rfl, ?_, ?_, ?_⟩
  · intro j hj
    simp [Pic.masked, hall j hj]
  · intro i hi _
    simp [Pic.masked, hall i hi]
  · simp [Pic.masked, hall 2 (by decide)]

/-- **The masks are those of the calls.**  In every run in which `pic_init_ports` gets its ports, a
line is unmasked exactly when `pic_unmask_irq` was called for it; the cascade also when it was
called for a line of the slave. -/
theorem picMasks_run (ops : List PortOp) (onIcw1 : UInt8 → UInt8)
    (masterBase masterMask slaveBase slaveMask : UInt8) (irqs : List UInt8)
    (hports : (picInitPorts (bootPics (Registry.static.run ops) masterBase masterMask slaveBase
      slaveMask)).Acquired) :
    let s := picRun onIcw1
      (bootPics (Registry.static.run ops) masterBase masterMask slaveBase slaveMask) irqs
    s.devices.master.vectorBase = 0x40 ∧ s.devices.slave.vectorBase = 0x48 ∧
    (∀ j, j < 8 → (s.devices.slave.masked j = false ↔ UInt8.ofNat (8 + j) ∈ irqs)) ∧
    (∀ i, i < 8 → i ≠ 2 → (s.devices.master.masked i = false ↔ UInt8.ofNat i ∈ irqs)) ∧
    (s.devices.master.masked 2 = false ↔ 2 ∈ irqs ∨ ∃ irq ∈ irqs, 8 ≤ irq ∧ irq < 16) ∧
    ∀ irq, 16 ≤ irq → picUnmaskIrq (picBus onIcw1) s irq = s := by
  intro s
  have hwired := wired_picInitPorts (valid_static.run ops) hports
  obtain ⟨hremap, hmasked⟩ := unmasked_picRemap onIcw1 hwired rfl rfl
  obtain ⟨hs, h⟩ := Unmasked.run hremap hmasked onIcw1 irqs
  refine ⟨h.masterBase, h.slaveBase, h.slave, h.master, h.cascade, ?_⟩
  intro irq hirq
  have hmaster : ¬ irq < 8 := by
    intro hlt
    exact absurd (UInt8.lt_of_lt_of_le hlt (by decide : (8 : UInt8) ≤ 16)) (UInt8.not_lt.mpr hirq)
  have hslave : ¬ (irq ≥ 8 ∧ irq < 16) := fun hslave => absurd hslave.2 (UInt8.not_lt.mpr hirq)
  unfold picUnmaskIrq
  rw [if_neg hmaster, if_neg hslave]

/-- The RTC line of the slave and the timer. -/
theorem picMasks_run_rtc :
    let s := picRun (fun _ => 0) (bootPics .static 0x08 0xB8 0x70 0x8F) [8, 0, 16]
    s.devices.master.masked 2 = false ∧ s.devices.master.masked 0 = false ∧
      s.devices.slave.masked 0 = false ∧ s.devices.master.masked 1 = true := by
  have hports : (picInitPorts (bootPics (Registry.static.run []) 0x08 0xB8 0x70 0x8F)).Acquired :=
    ⟨by decide, by decide, by decide, by decide⟩
  obtain ⟨-, -, hslave, hmaster, hcascade, -⟩ :=
    picMasks_run [] (fun _ => 0) 0x08 0xB8 0x70 0x8F [8, 0, 16] hports
  refine ⟨hcascade.mpr (by decide), (hmaster 0 (by decide) (by decide)).mpr (by decide),
    (hslave 0 (by decide)).mpr (by decide), ?_⟩
  rw [← Bool.not_eq_false]
  exact fun hfalse => absurd ((hmaster 1 (by decide) (by decide)).mp hfalse) (by decide)

end Shogun.Interrupt
