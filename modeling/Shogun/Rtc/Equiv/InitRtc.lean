import Shogun.Port.Equiv.PortManager
import Shogun.Rtc.InitRtc

/-!
# Acquiring the RTC leaves no port behind

* `initRtc_failed`, `initRtc_acquired`: what `init_rtc` does to the registry.
* `acknowledgeRtcInterrupt_inUse`: `acknowledge_rtc_interrupt` gives back what it takes.
* `initRtc_atomic`: both from every registry that calls can lead to.
* `initRtc_cmos`: a driver that was acquired reaches the CMOS, whose data format it has set.
-/

namespace Shogun.Rtc

open Port

variable {σ : Type*} {r : Registry}

/-! ### Two ports taken and given back -/

/-- A slot granted and released again. -/
theorem inUse_of_released {r₁ r₂ : Registry} {port : UInt16} {i : Slot}
    (hg : Granted r port i r₁) (hr : Released r₁ port i r₂) (q : UInt16) :
    isPortInUse r₂ q = isPortInUse r q := by
  rw [Bool.eq_iff_iff, hr.inUse, hg.inUse]
  constructor
  · rintro ⟨hq, hor⟩
    exact hor.resolve_left hq
  · intro hq
    refine ⟨?_, .inr hq⟩
    rintro rfl
    rw [hg.unused] at hq
    exact absurd hq Bool.false_ne_true

/-- The two slots of a driver, in a registry that has granted both. -/
theorem slots_of_granted {r₁ r₂ : Registry} {port port' : UInt16} {i j : Slot}
    (hg : Granted r port i r₁) (hg' : Granted r₁ port' j r₂) :
    i ≠ j ∧ r₂.portRegistry i = ⟨port, true⟩ ∧ r₂.portRegistry j = ⟨port', true⟩ := by
  obtain ⟨hne, hkept⟩ := hg'.keeps hg.slot
  exact ⟨hne, hkept, hg'.slot⟩

/-- Neither port was in use before. -/
theorem unused_of_granted {r₁ r₂ : Registry} {port port' : UInt16} {i j : Slot}
    (hg : Granted r port i r₁) (hg' : Granted r₁ port' j r₂) :
    isPortInUse r port = false ∧ isPortInUse r port' = false := by
  refine ⟨hg.unused, ?_⟩
  rw [Bool.eq_false_iff]
  intro hused
  have hused₁ := (hg.inUse port').mpr (.inr hused)
  rw [hg'.unused] at hused₁
  exact absurd hused₁ Bool.false_ne_true

/-- Both slots granted, and both released again in either order. -/
theorem inUse_of_released_both {r₁ r₂ r₃ r₄ : Registry} {port port' p p' : UInt16} {i j k l : Slot}
    (hg : Granted r port i r₁) (hg' : Granted r₁ port' j r₂) (hr : Released r₂ p k r₃)
    (hr' : Released r₃ p' l r₄) (hp : p = port ∧ p' = port' ∨ p = port' ∧ p' = port) (q : UInt16) :
    isPortInUse r₄ q = isPortInUse r q := by
  have hports : q ≠ p' ∧ q ≠ p ↔ q ≠ port ∧ q ≠ port' := by
    rcases hp with ⟨rfl, rfl⟩ | ⟨rfl, rfl⟩
    · exact and_comm
    · rfl
  obtain ⟨hunused, hunused'⟩ := unused_of_granted hg hg'
  rw [Bool.eq_iff_iff, hr'.inUse, hr.inUse, hg'.inUse, hg.inUse, ← and_assoc, hports]
  constructor
  · rintro ⟨⟨hne, hne'⟩, hor⟩
    exact (hor.resolve_left hne').resolve_left hne
  · intro hq
    refine ⟨⟨?_, ?_⟩, .inr (.inr hq)⟩
    · rintro rfl
      rw [hunused] at hq
      exact absurd hq Bool.false_ne_true
    · rintro rfl
      rw [hunused'] at hq
      exact absurd hq Bool.false_ne_true

/-! ### `init_rtc` -/

/-- What `init_rtc` does: the control port is refused; the data port is refused and the control port
released; there is no memory and both are released; or the driver gets both. -/
theorem initRtc_cases (h : r.Valid) (bus : PortBus σ) (d : σ) (allocated : Bool) :
    (∃ r₁, Refused r r₁ ∧ initRtc bus r d allocated = (none, r₁, d)) ∨
    (∃ i r₁ r₂, Granted r cmosControlPort i r₁ ∧ Refused r₁ r₂ ∧
      initRtc bus r d allocated = (none, releasePort r₂ (.slot i), d)) ∨
    (∃ i j r₁ r₂, Granted r cmosControlPort i r₁ ∧ Granted r₁ cmosDataPort j r₂ ∧
      allocated = false ∧ initRtc bus r d allocated
        = (none, releasePort (releasePort r₂ (.slot i)) (.slot j), d)) ∨
    (∃ i j r₁ r₂, Granted r cmosControlPort i r₁ ∧ Granted r₁ cmosDataPort j r₂ ∧
      allocated = true ∧ initRtc bus r d allocated
        = (some ⟨i, j, true⟩, r₂, RtcPorts.setDataFormat bus r₂ ⟨i, j, true⟩ d)) := by
  unfold initRtc
  obtain ⟨⟨control, r₁⟩, hcontrol⟩ : ∃ p, requestPort r cmosControlPort = p := ⟨_, rfl⟩
  rw [hcontrol]
  cases control with
  | none => exact .inl ⟨r₁, refused_of_requestPort h hcontrol, rfl⟩
  | some i =>
    have hg := granted_of_requestPort h hcontrol
    dsimp only
    obtain ⟨⟨data, r₂⟩, hdata⟩ : ∃ p, requestPort r₁ cmosDataPort = p := ⟨_, rfl⟩
    rw [hdata]
    cases data with
    | none => exact .inr (.inl ⟨i, r₁, r₂, hg, refused_of_requestPort hg.valid hdata, rfl⟩)
    | some j =>
      have hg' := granted_of_requestPort hg.valid hdata
      cases allocated with
      | false => exact .inr (.inr (.inl ⟨i, j, r₁, r₂, hg, hg', rfl, rfl⟩))
      | true => exact .inr (.inr (.inr ⟨i, j, r₁, r₂, hg, hg', rfl, rfl⟩))

/-- The control port alone was granted, and is released. -/
theorem inUse_of_dataRefused {r₁ r₂ : Registry} {port : UInt16} {i : Slot}
    (hg : Granted r port i r₁) (hrefused : Refused r₁ r₂) (q : UInt16) :
    isPortInUse (releasePort r₂ (.slot i)) q = isPortInUse r q := by
  have hslot : r₂.portRegistry i = ⟨port, true⟩ := by
    rw [hrefused.other i (by rw [hg.slot]), hg.slot]
  have hr := released_of_slot hrefused.valid hslot
  rw [← inUse_of_released hg (released_of_slot hg.valid hg.slot) q, Bool.eq_iff_iff, hr.inUse,
    (released_of_slot hg.valid hg.slot).inUse, hrefused.inUse]

/-- A failed `init_rtc` leaves no port in use that was not. -/
theorem initRtc_failed (h : r.Valid) (bus : PortBus σ) (d : σ) (allocated : Bool)
    (hnone : (initRtc bus r d allocated).1 = none) (q : UInt16) :
    isPortInUse (initRtc bus r d allocated).2.1 q = isPortInUse r q := by
  rcases initRtc_cases h bus d allocated with ⟨r₁, hrefused, hinit⟩ |
    ⟨i, r₁, r₂, hg, hrefused, hinit⟩ | ⟨i, j, r₁, r₂, hg, hg', -, hinit⟩ |
    ⟨i, j, r₁, r₂, -, -, -, hinit⟩
  · rw [hinit]
    exact hrefused.inUse q
  · rw [hinit]
    exact inUse_of_dataRefused hg hrefused q
  · -- no memory: the control port is released first
    rw [hinit]
    obtain ⟨hij, hi, hj⟩ := slots_of_granted hg hg'
    have hr := released_of_slot hg'.valid hi
    have hr' := released_of_slot hr.valid ((hr.other j hij.symm).trans hj)
    exact inUse_of_released_both hg hg' hr hr' (.inl ⟨rfl, rfl⟩) q
  · rw [hinit] at hnone
    exact absurd hnone (Option.some_ne_none _)

/-- A driver was granted both ports. -/
theorem granted_of_initRtc (h : r.Valid) {bus : PortBus σ} {d : σ} {allocated : Bool}
    {rtc : RtcPorts} (hrtc : (initRtc bus r d allocated).1 = some rtc) :
    ∃ r₁ r₂, Granted r cmosControlPort rtc.controlPort r₁ ∧
      Granted r₁ cmosDataPort rtc.dataPort r₂ ∧
      initRtc bus r d allocated = (some rtc, r₂, rtc.setDataFormat bus r₂ d) := by
  rcases initRtc_cases h bus d allocated with ⟨r₁, -, hinit⟩ | ⟨i, r₁, r₂, -, -, hinit⟩ |
    ⟨i, j, r₁, r₂, -, -, -, hinit⟩ | ⟨i, j, r₁, r₂, hg, hg', -, hinit⟩
  · rw [hinit] at hrtc
    exact absurd hrtc.symm (Option.some_ne_none _)
  · rw [hinit] at hrtc
    exact absurd hrtc.symm (Option.some_ne_none _)
  · rw [hinit] at hrtc
    exact absurd hrtc.symm (Option.some_ne_none _)
  · rw [hinit] at hrtc
    obtain rfl := Option.some.inj hrtc
    exact ⟨r₁, r₂, hg, hg', hinit⟩

/-- A driver holds the two ports, which were not in use before. -/
theorem initRtc_acquired (h : r.Valid) (bus : PortBus σ) (d : σ) (allocated : Bool)
    {rtc : RtcPorts} (hrtc : (initRtc bus r d allocated).1 = some rtc) :
    (isPortInUse r 0x70 = false ∧ isPortInUse r 0x71 = false) ∧
    (∀ q, isPortInUse (initRtc bus r d allocated).2.1 q = true
      ↔ q = 0x70 ∨ q = 0x71 ∨ isPortInUse r q = true) ∧
    rtc.controlPort ≠ rtc.dataPort ∧
    (initRtc bus r d allocated).2.1.portRegistry rtc.controlPort = ⟨0x70, true⟩ ∧
    (initRtc bus r d allocated).2.1.portRegistry rtc.dataPort = ⟨0x71, true⟩ := by
  obtain ⟨r₁, r₂, hg, hg', hinit⟩ := granted_of_initRtc h hrtc
  obtain ⟨hij, hi, hj⟩ := slots_of_granted hg hg'
  rw [hinit]
  refine ⟨unused_of_granted hg hg', ?_, hij, hi, hj⟩
  intro q
  rw [hg'.inUse, hg.inUse]
  exact or_left_comm

/-! ### `acknowledge_rtc_interrupt` -/

/-- Whatever was taken is given back. -/
theorem acknowledgeRtcInterrupt_inUse (h : r.Valid) (bus : PortBus σ) (d : σ) (q : UInt16) :
    isPortInUse (acknowledgeRtcInterrupt bus r d).1 q = isPortInUse r q := by
  unfold acknowledgeRtcInterrupt
  obtain ⟨⟨control, r₁⟩, hcontrol⟩ : ∃ p, requestPort r cmosControlPort = p := ⟨_, rfl⟩
  rw [hcontrol]
  cases control with
  | none => exact (refused_of_requestPort h hcontrol).inUse q
  | some i =>
    have hg := granted_of_requestPort h hcontrol
    dsimp only
    obtain ⟨⟨data, r₂⟩, hdata⟩ : ∃ p, requestPort r₁ cmosDataPort = p := ⟨_, rfl⟩
    rw [hdata]
    cases data with
    | none => exact inUse_of_dataRefused hg (refused_of_requestPort hg.valid hdata) q
    | some j =>
      -- the data port is released first
      have hg' := granted_of_requestPort hg.valid hdata
      obtain ⟨hij, hi, hj⟩ := slots_of_granted hg hg'
      have hr := released_of_slot hg'.valid hj
      have hr' := released_of_slot hr.valid ((hr.other i hij).trans hi)
      exact inUse_of_released_both hg hg' hr hr' (.inr ⟨rfl, rfl⟩) q

/-! ### The CMOS behind the handles -/

section CmosBus

variable {rtc : RtcPorts} (hcontrol : (r.portRegistry rtc.controlPort).port = cmosControlPort)
  (hdata : (r.portRegistry rtc.dataPort).port = cmosDataPort)

include hcontrol hdata

/-- With handles of the two ports the accesses are those of the CMOS. -/
theorem readCmosRegister_cmosBus (reg : UInt8) (c : Cmos) :
    rtc.readCmosRegister cmosBus r reg c = readCmosRegister (some rtc.driver) c reg := by
  unfold RtcPorts.readCmosRegister readPortB writePortB
  dsimp only
  rw [hcontrol, hdata]
  rfl

theorem writeCmosRegister_cmosBus (reg value : UInt8) (c : Cmos) :
    rtc.writeCmosRegister cmosBus r reg value c
      = writeCmosRegister (some rtc.driver) c reg value := by
  unfold RtcPorts.writeCmosRegister writePortB
  dsimp only
  rw [hcontrol, hdata]
  rfl

/-- `set_data_format` sets bits 1 and 2 of register B, and changes no other register. -/
theorem setDataFormat_cmosBus (c : Cmos) :
    rtc.setDataFormat cmosBus r c
      = ⟨cmosRegB, Function.update c.registers cmosRegB (c.registers cmosRegB ||| 0x06)⟩ := by
  have hselect : regSelect rtc.driver cmosRegB &&& 0x7F = cmosRegB := by
    unfold regSelect RtcPorts.driver
    cases rtc.nmiEnabled <;> rfl
  unfold RtcPorts.setDataFormat
  rw [readCmosRegister_cmosBus hcontrol hdata]
  show rtc.writeCmosRegister cmosBus r cmosRegB _ _ = _
  rw [writeCmosRegister_cmosBus hcontrol hdata]
  unfold writeCmosRegister Cmos.writeData Cmos.readData Cmos.writeControl
  dsimp only
  rw [hselect]
  rfl

end CmosBus

/-- A driver that was acquired has set the data format. -/
theorem initRtc_cmos (h : r.Valid) (c : Cmos) (allocated : Bool) {rtc : RtcPorts}
    (hrtc : (initRtc cmosBus r c allocated).1 = some rtc) :
    (initRtc cmosBus r c allocated).2.2
      = ⟨cmosRegB, Function.update c.registers cmosRegB (c.registers cmosRegB ||| 0x06)⟩ := by
  obtain ⟨r₁, r₂, hg, hg', hinit⟩ := granted_of_initRtc h hrtc
  obtain ⟨-, hcontrol, hdata⟩ := slots_of_granted hg hg'
  rw [hinit]
  exact setDataFormat_cmosBus (by rw [hcontrol]) (by rw [hdata]) c

/-! ### Every reachable registry -/

/-- **The RTC is acquired as a whole or not at all.**  Whatever calls have been made on the registry
before, a failed `init_rtc` changes nothing about which ports are in use, a successful one puts the
two CMOS ports in use, and `acknowledge_rtc_interrupt` changes nothing. -/
theorem initRtc_atomic (ops : List PortOp) (bus : PortBus σ) (d : σ) (allocated : Bool) :
    let r := Registry.static.run ops
    ((initRtc bus r d allocated).1 = none →
      ∀ q, isPortInUse (initRtc bus r d allocated).2.1 q = isPortInUse r q) ∧
    (∀ rtc, (initRtc bus r d allocated).1 = some rtc →
      (isPortInUse r 0x70 = false ∧ isPortInUse r 0x71 = false) ∧
      (∀ q, isPortInUse (initRtc bus r d allocated).2.1 q = true
        ↔ q = 0x70 ∨ q = 0x71 ∨ isPortInUse r q = true) ∧
      rtc.controlPort ≠ rtc.dataPort ∧
      (initRtc bus r d allocated).2.1.portRegistry rtc.controlPort = ⟨0x70, true⟩ ∧
      (initRtc bus r d allocated).2.1.portRegistry rtc.dataPort = ⟨0x71, true⟩) ∧
    ∀ q, isPortInUse (acknowledgeRtcInterrupt bus r d).1 q = isPortInUse r q := by
  intro r
  have hvalid : r.Valid := valid_static.run ops
  exact ⟨initRtc_failed hvalid bus d allocated,
    fun rtc => initRtc_acquired hvalid bus d allocated,
    acknowledgeRtcInterrupt_inUse hvalid bus d⟩

end Shogun.Rtc
