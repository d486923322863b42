import Mathlib.Data.List.Infix
import Shogun.Port.Equiv.PortManager
import Shogun.Serial.Uart

/-!
# How `init_serial` leaves the port

* `Uart.config`, `PortAccess.track`: the registers that an access sets and the bytes it hands to the
  transmitter depend on the registers alone, whatever the port does in between.
* `OnlyFrom`: what has gone out since was pending before or written since.
* `initSerial_configures`: the registers after `init_serial`, and the bytes that can have gone out.
-/

namespace Shogun.Serial

open Port

/-! ### The registers -/

/-- The registers that the driver sets. -/
structure UartConfig where
  interruptEnable : UInt8
  divisorLow : UInt8
  divisorHigh : UInt8
  fifoControl : UInt8
  lineControl : UInt8
  modemControl : UInt8
  deriving DecidableEq, Repr

def Uart.config (u : Uart) : UartConfig :=
  ⟨u.interruptEnable, u.divisorLow, u.divisorHigh, u.fifoControl, u.lineControl, u.modemControl⟩

def UartConfig.dlab (c : UartConfig) : Bool := c.lineControl &&& 0x80 != 0

/-- The registers after an access, and with the bytes transmitted so far those of the access. -/
def PortAccess.track : UartConfig × List UInt8 → PortAccess → UartConfig × List UInt8
  | (c, written), .outB port value =>
    if port = serialCom1 then
      if c.dlab then ({ c with divisorLow := value }, written) else (c, written ++ [value])
    else if port = serialCom1 + 1 then
      if c.dlab then ({ c with divisorHigh := value }, written)
      else ({ c with interruptEnable := value }, written)
    else if port = serialCom1 + 2 then ({ c with fifoControl := value }, written)
    else if port = serialCom1 + 3 then ({ c with lineControl := value }, written)
    else if port = serialCom1 + 4 then ({ c with modemControl := value }, written)
    else (c, written)
  | (c, written), .inB _ => (c, written)

/-- The accesses of `init_serial` from any contents of the registers: when `DLAB` is set before, the
interrupt enable register is not reached. -/
theorem foldl_track_initSerial (c : UartConfig) :
    (initSerialAccesses serialCom1).foldl PortAccess.track (c, [])
      = (⟨if c.dlab then c.interruptEnable else 0x00, 0x03, 0x00, 0xC7, 0x03, 0x0F⟩, [0xAE]) := by
  have hclear : (0x03 : UInt8) &&& 0x80 = 0 := by decide
  unfold UartConfig.dlab
  by_cases hdlab : c.lineControl &&& 0x80 = 0
  · simp [initSerialAccesses, PortAccess.track, UartConfig.dlab, serialCom1, hdlab, hclear]
  · simp [initSerialAccesses, PortAccess.track, UartConfig.dlab, serialCom1, hdlab, hclear]

/-! ### What goes out -/

/-- What has gone out on the line since `u₀`, and what is pending, was pending then or is among the
bytes `written` since. -/
def OnlyFrom (u₀ : Uart) (written : List UInt8) (u : Uart) : Prop :=
  ∃ out, u.line = u₀.line ++ out ∧ (out ++ u.pending).Sublist (u₀.pending ++ written)

theorem onlyFrom_self (u : Uart) : OnlyFrom u [] u := by
  refine ⟨[], ?_, ?_⟩
  · rw [List.append_nil]
  · rw [List.nil_append, List.append_nil]

namespace OnlyFrom

variable {u₀ u : Uart} {written : List UInt8}

/-- Nothing goes out, and nothing comes to what is pending. -/
theorem shrink (h : OnlyFrom u₀ written u) {u' : Uart} (hline : u'.line = u.line)
    (hpending : u'.pending.Sublist u.pending) : OnlyFrom u₀ written u' := by
  obtain ⟨out, hout, hsub⟩ := h
  refine ⟨out, hline.trans hout, ?_⟩
  exact ((List.Sublist.refl out).append hpending).trans hsub

theorem load (h : OnlyFrom u₀ written u) : OnlyFrom u₀ written u.load := by
  unfold Uart.load
  split
  · rename_i b fifo hshift hfifo
    refine h.shrink rfl ?_
    rw [Uart.pending, Uart.pending, hshift, hfifo]
    exact List.Sublist.refl _
  · exact h

theorem finish (h : OnlyFrom u₀ written u) : OnlyFrom u₀ written u.finish := by
  unfold Uart.finish
  split
  · exact h
  · rename_i b hshift
    have hpending : u.pending = b :: u.fifo := by
      rw [Uart.pending, hshift]
      rfl
    split_ifs with hloop
    · -- the byte comes back to the receiver
      refine h.shrink rfl ?_
      rw [hpending]
      exact List.sublist_cons_self b u.fifo
    · obtain ⟨out, hout, hsub⟩ := h
      refine ⟨out ++ [b], ?_, ?_⟩
      · show u.line ++ [b] = _
        rw [hout, List.append_assoc]
      · rw [hpending] at hsub
        show ((out ++ [b]) ++ u.fifo).Sublist _
        rwa [List.append_assoc]

theorem transmit (h : OnlyFrom u₀ written u) (value : UInt8) :
    OnlyFrom u₀ (written ++ [value]) (u.transmit value) := by
  obtain ⟨out, hout, hsub⟩ := h
  unfold Uart.transmit
  split_ifs with hroom
  · refine ⟨out, hout, ?_⟩
    show (out ++ (u.shift.toList ++ (u.fifo ++ [value]))).Sublist _
    rw [← List.append_assoc, ← List.append_assoc, ← List.append_assoc, List.append_assoc out]
    exact hsub.append (List.Sublist.refl [value])
  · refine ⟨out, hout, ?_⟩
    rw [← List.append_assoc]
    exact hsub.trans (List.sublist_append_left _ [value])

theorem writeFifoControl (h : OnlyFrom u₀ written u) (value : UInt8) :
    OnlyFrom u₀ written (u.writeFifoControl value) := by
  refine h.shrink rfl ?_
  show (u.shift.toList ++ _).Sublist (u.shift.toList ++ u.fifo)
  apply (List.Sublist.refl _).append
  unfold Uart.writeFifoControl
  dsimp only
  split_ifs
  · exact List.nil_sublist _
  · exact List.Sublist.refl _

end OnlyFrom

/-! ### Interleavings -/

/-- After some of its accesses: the registers are those the accesses leave, and only what they have
transmitted can have gone out. -/
structure Tracked (u₀ : Uart) (past : UartConfig × List UInt8) (u : Uart) : Prop where
  config : u.config = past.1
  onlyFrom : OnlyFrom u₀ past.2 u

namespace Tracked

variable {u₀ u : Uart} {past : UartConfig × List UInt8}

/-- An access that sets a register of its own. -/
theorem set (h : Tracked u₀ past u) {u' : Uart} {c : UartConfig} (hconfig : u'.config = c)
    (hline : u'.line = u.line) (hpending : u'.pending = u.pending) : Tracked u₀ (c, past.2) u' :=
  ⟨hconfig, h.onlyFrom.shrink hline (by rw [hpending])⟩

theorem load (h : Tracked u₀ past u) : Tracked u₀ past u.load := by
  refine ⟨?_, h.onlyFrom.load⟩
  rw [← h.config]
  unfold Uart.load
  split <;> rfl

theorem finish (h : Tracked u₀ past u) : Tracked u₀ past u.finish := by
  refine ⟨?_, h.onlyFrom.finish⟩
  rw [← h.config]
  unfold Uart.finish
  split
  · rfl
  · split_ifs <;> rfl

theorem transmit (h : Tracked u₀ past u) (value : UInt8) :
    Tracked u₀ (past.1, past.2 ++ [value]) (u.transmit value) := by
  refine ⟨?_, h.onlyFrom.transmit value⟩
  rw [← h.config]
  unfold Uart.transmit
  split_ifs <;> rfl

/-- One access. -/
theorem access (h : Tracked u₀ past u) (a : PortAccess) :
    Tracked u₀ (PortAccess.track past a) (a.apply u) := by
  obtain ⟨c, written⟩ := past
  obtain rfl : u.config = c := h.config
  cases a with
  | inB port =>
    have hread : (PortAccess.inB port).apply u = u := by
      unfold PortAccess.apply uartBus
      dsimp only
      split_ifs <;> rfl
    rw [hread]
    exact h
  | outB port value =>
    unfold PortAccess.track PortAccess.apply uartBus
    dsimp only
    rw [show u.config.dlab = u.dlab from rfl]
    split_ifs
    · exact h.set rfl rfl rfl
    · exact h.transmit value
    · exact h.set rfl rfl rfl
    · exact h.set rfl rfl rfl
    · exact ⟨rfl, h.onlyFrom.writeFifoControl value⟩
    · exact h.set rfl rfl rfl
    · exact h.set rfl rfl rfl
    · exact h

/-- All accesses of an interleaving, and the ones that are left. -/
theorem run (steps : List InitStep) (rest : List PortAccess) (h : Tracked u₀ past u) :
    ((InitState.mk rest u).run steps).rest = rest.drop (steps.count .access) ∧
      Tracked u₀ ((rest.take (steps.count .access)).foldl PortAccess.track past)
        ((InitState.mk rest u).run steps).uart := by
  induction steps generalizing rest past u with
  | nil => exact ⟨rfl, h⟩
  | cons σ steps ih =>
    cases σ with
    | access =>
      rw [List.count_cons_self]
      cases rest with
      | nil =>
        have hrun := ih [] h
        rw [List.drop_nil, List.take_nil] at hrun ⊢
        exact hrun
      | cons a rest => exact ih rest (h.access a)
    | load =>
      rw [List.count_cons_of_ne (by decide)]
      exact ih rest h.load
    | finish =>
      rw [List.count_cons_of_ne (by decide)]
      exact ih rest h.finish

end Tracked

/-- **`init_serial` sets up COM1**, whatever the registry and the port were like before and whatever
the port does between the accesses.  With a handle it returns after eleven accesses and leaves 38400
baud, eight data bits, the FIFO on and loopback off, and no interrupts if `DLAB` was clear; the test
byte is not waited for, so that it may still go out on the line.  Without a handle it accesses
nothing. -/
theorem initSerial_configures (ops : List PortOp) (u : Uart) (steps : List InitStep) :
    let r := Registry.static.run ops
    let s := (initSerial r u).1.run steps
    ((requestPort r serialCom1).1 = none → s.rest = [] ∧ s.uart.config = u.config ∧
      OnlyFrom u [] s.uart) ∧
    ((requestPort r serialCom1).1 ≠ none → (11 ≤ steps.count .access ↔ s.rest = []) ∧
      (s.rest = [] → s.uart.config
          = ⟨if u.dlab then u.interruptEnable else 0x00, 0x03, 0x00, 0xC7, 0x03, 0x0F⟩ ∧
        OnlyFrom u [0xAE] s.uart)) := by
  intro r s
  have hvalid : r.Valid := valid_static.run ops
  have hstart : Tracked u (u.config, []) u := ⟨rfl, onlyFrom_self u⟩
  obtain ⟨⟨handle, r'⟩, hrequest⟩ : ∃ p, requestPort r serialCom1 = p := ⟨_, rfl⟩
  cases handle with
  | none =>
    have hs : s = (InitState.mk [] u).run steps := by
      show (initSerial r u).1.run steps = _
      rw [initSerial, hrequest]
    obtain ⟨hrest, hrun⟩ := hstart.run steps []
    rw [List.drop_nil] at hrest
    rw [List.take_nil] at hrun
    refine ⟨?_, ?_⟩
    · intro _
      rw [hs]
      exact ⟨hrest, hrun.config, hrun.onlyFrom⟩
    · intro hne
      rw [hrequest] at hne
      exact absurd rfl hne
  | some i =>
    have hport : (r'.portRegistry i).port = serialCom1 := by
      rw [(granted_of_requestPort hvalid hrequest).slot]
    have hs : s = (InitState.mk (initSerialAccesses serialCom1) u).run steps := by
      show (initSerial r u).1.run steps = _
      rw [initSerial, hrequest]
      dsimp only
      rw [hport]
    obtain ⟨hrest, hrun⟩ := hstart.run steps (initSerialAccesses serialCom1)
    have hlen : (initSerialAccesses serialCom1).length = 11 := rfl
    refine ⟨?_, ?_⟩
    · intro hnone
      rw [hrequest] at hnone
      exact absurd hnone (Option.some_ne_none i)
    · intro _
      rw [hs, hrest, List.drop_eq_nil_iff, hlen]
      refine ⟨Iff.rfl, ?_⟩
      intro hcount
      rw [List.take_of_length_le (by rw [hlen]; exact hcount), foldl_track_initSerial] at hrun
      exact ⟨hrun.config, hrun.onlyFrom⟩

end Shogun.Serial
