import Shogun.Serial.Uart
import Shogun.Util.CString
import Shogun.Util.LineEnd

/-!
# What goes out on the serial line

A call of `write_serial_string` waits for the port before every byte, but the interrupt handler may
write its dot between the wait and the byte.  The FIFO has room for both.

* `Uart.Ready`: the port as `init_serial` sets it up.
* `Delivering`: the bytes written so far are on the line or pending, in the order of the writes, and
  those of the call are the ones of its text so far.
* `writeSerialString_delivers`: so no byte is lost in any interleaving, and the call can always come
  to its end.
-/

namespace Shogun.Serial

open Async

/-! ### The port -/

namespace Uart

/-- The port is set up: the data port is that of the transmitter, bytes go to the line, and the FIFO
is on. -/
structure Ready (u : Uart) : Prop where
  dlab : u.dlab = false
  loopback : u.loopback = false
  depth : u.depth = 16

/-- The registers that `init_serial` leaves. -/
theorem Ready.of_registers {u : Uart} (hfifo : u.fifoControl = 0xC7) (hline : u.lineControl = 0x03)
    (hmodem : u.modemControl = 0x0F) : u.Ready := by
  refine ⟨?_, ?_, ?_⟩
  · rw [Uart.dlab, hline]
    decide
  · rw [Uart.loopback, hmodem]
    decide
  · rw [Uart.depth, hfifo]
    decide

/-- The transmitter is empty when nothing is pending. -/
theorem lineStatus_empty_iff (u : Uart) :
    serialIsTransmitEmpty u.lineStatus = true ↔ u.pending = [] := by
  have hbit : ∀ fifo shift : Bool, serialIsTransmitEmpty
      ((if fifo then 0x20 else 0x00) ||| (if fifo && shift then 0x40 else 0x00)) = true
        ↔ fifo = true ∧ shift = true := by decide
  unfold lineStatus pending
  rw [hbit, List.append_eq_nil_iff, List.isEmpty_iff, Option.isNone_iff_eq_none, and_comm]
  cases u.shift <;> simp

@[simp]
theorem load_pending (u : Uart) : u.load.pending = u.pending := by
  unfold load
  split
  · rename_i b fifo hshift hfifo
    rw [pending, pending, hshift, hfifo]
    rfl
  · rfl

@[simp]
theorem load_line (u : Uart) : u.load.line = u.line := by
  unfold load
  split <;> rfl

/-- Without loopback a byte that is done goes from what is pending to the line. -/
theorem finish_line (u : Uart) (h : u.loopback = false) :
    u.finish.line ++ u.finish.pending = u.line ++ u.pending := by
  unfold finish
  split
  · rfl
  · rename_i b hshift
    rw [if_neg (by rw [h]; exact Bool.false_ne_true)]
    show (u.line ++ [b]) ++ u.fifo = u.line ++ (u.shift.toList ++ u.fifo)
    rw [hshift, List.append_assoc]
    rfl

theorem finish_length_le (u : Uart) : u.finish.pending.length ≤ u.pending.length := by
  unfold finish
  split
  · exact le_refl _
  · rename_i b hshift
    have hpending : u.pending = b :: u.fifo := by
      rw [pending, hshift]
      rfl
    rw [hpending]
    split_ifs <;> exact Nat.le_succ _

/-- Steps of the port keep it set up and drop nothing. -/
structure Same (u u' : Uart) : Prop where
  fifoControl : u'.fifoControl = u.fifoControl
  lineControl : u'.lineControl = u.lineControl
  modemControl : u'.modemControl = u.modemControl
  dropped : u'.dropped = u.dropped

theorem Same.ready {u u' : Uart} (h : Same u u') (hu : u.Ready) : u'.Ready := by
  refine ⟨?_, ?_, ?_⟩
  · rw [Uart.dlab, h.lineControl]
    exact hu.dlab
  · rw [Uart.loopback, h.modemControl]
    exact hu.loopback
  · rw [Uart.depth, h.fifoControl]
    exact hu.depth

theorem same_load (u : Uart) : Same u u.load := by
  unfold load
  split <;> exact ⟨rfl, rfl, rfl, rfl⟩

theorem same_finish (u : Uart) : Same u u.finish := by
  unfold finish
  split
  · exact ⟨rfl, rfl, rfl, rfl⟩
  · split_ifs <;> exact ⟨rfl, rfl, rfl, rfl⟩

theorem same_drain (u : Uart) : Same u u.drain := by
  unfold drain
  split_ifs <;> exact ⟨rfl, rfl, rfl, rfl⟩

/-- A byte written while at most one is pending finds room. -/
theorem outB_of_room {u : Uart} (hu : u.Ready) (h : u.pending.length ≤ 1) (value : UInt8) :
    uartBus.outB u serialCom1 value = { u with fifo := u.fifo ++ [value] } := by
  have hlen : u.fifo.length ≤ u.pending.length := by
    rw [pending, List.length_append]
    exact Nat.le_add_left _ _
  show (if u.dlab = true then _ else u.transmit value) = _
  rw [hu.dlab, if_neg Bool.false_ne_true, transmit, if_pos (by rw [hu.depth]; omega)]

end Uart

/-! ### The invariant -/

/-- The bytes of `str` from `str[i]` on, the return in front of a newline left out. -/
def fromChar : List UInt8 → List UInt8
  | [] => []
  | c :: str => c :: crlf str

/-- The bytes that a call has still to write. -/
def WritePc.remaining (str : List UInt8) : WritePc → List UInt8
  | .pollReturn | .sendReturn => 13 :: fromChar str
  | .poll | .send => fromChar str
  | .done => []

theorem remaining_enter (str : List UInt8) : (WritePc.enter str).remaining str = crlf str := by
  cases str with
  | nil => rfl
  | cons c str =>
    rw [WritePc.enter, crlf]
    split_ifs <;> rfl

theorem Writer.bytes_concat (writer : Writer) (log : List (Writer × UInt8)) (p : Writer × UInt8) :
    writer.bytes (log ++ [p]) = writer.bytes log ++ if p.1 = writer then [p.2] else [] := by
  unfold bytes
  rw [List.filter_append, List.map_append]
  by_cases h : p.1 = writer
  · rw [if_pos h, List.filter_cons_of_pos (by simpa using h)]
    rfl
  · rw [if_neg h, List.filter_cons_of_neg (by simpa using h)]
    rfl

namespace WriteState

/-- The bytes written by `writer`, in order. -/
def sentBy (s : WriteState) (writer : Writer) : List UInt8 := writer.bytes s.sent

theorem sentBy_out (s : WriteState) (writer writer' : Writer) (value : UInt8) :
    (s.out writer value).sentBy writer'
      = s.sentBy writer' ++ if writer = writer' then [value] else [] :=
  writer'.bytes_concat s.sent (writer, value)

end WriteState

open WriteState

/-- What holds of a call of `write_serial_string(text)` that found the port as `u₀`. -/
structure Delivering (u₀ : Uart) (text : List UInt8) (s : WriteState) : Prop where
  ready : s.uart.Ready
  dropped : s.uart.dropped = u₀.dropped
  order : s.uart.line ++ s.uart.pending = u₀.line ++ u₀.pending ++ s.sent.map Prod.snd
  main : s.sentBy .main ++ s.pc.remaining s.str = crlf text
  -- between the wait and the byte there is at most a dot
  room : s.pc = .sendReturn ∨ s.pc = .send → s.uart.pending.length ≤ 1
  str_ne : s.pc ≠ .done → s.str ≠ []

theorem delivering_start {u : Uart} (hu : u.Ready) (text : List UInt8) :
    Delivering u text (WriteState.start u text) where
  ready := hu
  dropped := rfl
  order := (List.append_nil _).symm
  main := remaining_enter text
  room := by
    intro h
    cases text with
    | nil => rcases h with h | h <;> cases h
    | cons c text =>
      have henter :
          WritePc.enter (c :: text) = .pollReturn ∨ WritePc.enter (c :: text) = .poll := by
        rw [WritePc.enter]
        split_ifs
        · exact .inl rfl
        · exact .inr rfl
      rcases h with h | h <;> rcases henter with henter | henter <;> cases henter.symm.trans h
  str_ne := by
    intro h hnil
    rw [show text = [] from hnil] at h
    exact h rfl

namespace Delivering

variable {u₀ : Uart} {text : List UInt8} {s : WriteState}

/-- The wait ends when nothing is pending. -/
theorem transmitEmpty_iff : s.transmitEmpty = true ↔ s.uart.pending = [] :=
  s.uart.lineStatus_empty_iff

/-- A step of the port that moves bytes on. -/
theorem device (h : Delivering u₀ text s) {u : Uart} (hsame : Uart.Same s.uart u)
    (horder : u.line ++ u.pending = s.uart.line ++ s.uart.pending)
    (hlen : u.pending.length ≤ s.uart.pending.length) :
    Delivering u₀ text { s with uart := u } where
  ready := hsame.ready h.ready
  dropped := hsame.dropped.trans h.dropped
  order := horder.trans h.order
  main := h.main
  room := fun hpc => hlen.trans (h.room hpc)
  str_ne := h.str_ne

theorem load (h : Delivering u₀ text s) : Delivering u₀ text { s with uart := s.uart.load } :=
  h.device s.uart.same_load (by rw [Uart.load_line, Uart.load_pending]) (by rw [Uart.load_pending])

theorem finish (h : Delivering u₀ text s) : Delivering u₀ text { s with uart := s.uart.finish } :=
  h.device s.uart.same_finish (s.uart.finish_line h.ready.loopback) s.uart.finish_length_le

/-- A byte written while at most one is pending; `pc` and `str` are those behind it. -/
theorem out (h : Delivering u₀ text s) (hroom : s.uart.pending.length ≤ 1) (writer : Writer)
    (value : UInt8) {pc : WritePc} {str : List UInt8}
    (hmain : (if writer = .main then [value] else []) ++ pc.remaining str
      = s.pc.remaining s.str)
    (hpending : pc = .sendReturn ∨ pc = .send → s.uart.pending = [])
    (hstr : pc ≠ .done → str ≠ []) :
    Delivering u₀ text { s.out writer value with pc := pc, str := str } := by
  have hout := Uart.outB_of_room h.ready hroom value
  have huart : (s.out writer value).uart = { s.uart with fifo := s.uart.fifo ++ [value] } := hout
  have hnew : (s.out writer value).uart.pending = s.uart.pending ++ [value] := by
    rw [huart]
    exact (List.append_assoc _ _ _).symm
  refine ⟨?_, ?_, ?_, ?_, ?_, hstr⟩
  · show (s.out writer value).uart.Ready
    rw [huart]
    exact ⟨h.ready.dlab, h.ready.loopback, h.ready.depth⟩
  · show (s.out writer value).uart.dropped = _
    rw [huart]
    exact h.dropped
  · show (s.out writer value).uart.line ++ (s.out writer value).uart.pending
      = _ ++ (s.sent ++ [(writer, value)]).map Prod.snd
    rw [hnew, List.map_append, ← List.append_assoc, ← List.append_assoc, ← h.order, huart]
    rfl
  · show (s.out writer value).sentBy .main ++ pc.remaining str = _
    rw [sentBy_out, List.append_assoc, hmain]
    exact h.main
  · intro hpc
    show (s.out writer value).uart.pending.length ≤ 1
    rw [hnew, hpending hpc]
    exact le_refl 1

/-- The dot of the handler. -/
theorem dot (h : Delivering u₀ text s) : Delivering u₀ text s.dot := by
  have hdrain : s.uart.drain.pending = [] := by
    unfold Uart.drain
    split_ifs <;> rfl
  have hline : s.uart.drain.line = s.uart.line ++ s.uart.pending := by
    unfold Uart.drain
    rw [if_neg (by rw [h.ready.loopback]; exact Bool.false_ne_true)]
  have hdrained : Delivering u₀ text { s with uart := s.uart.drain } := by
    apply h.device s.uart.same_drain
    · rw [hdrain, hline, List.append_nil]
    · rw [hdrain]
      exact Nat.zero_le _
  have hle : s.uart.drain.pending.length ≤ 1 := by
    rw [hdrain]
    exact Nat.zero_le 1
  exact hdrained.out hle .handler 46 rfl (fun _ => hdrain) h.str_ne

/-- The next access of the call. -/
theorem access (h : Delivering u₀ text s) : Delivering u₀ text s.access := by
  obtain ⟨pc, str, uart, sent⟩ := s
  cases pc with
  | pollReturn =>
    unfold WriteState.access
    dsimp only
    split_ifs with hempty
    · exact ⟨h.ready, h.dropped, h.order, h.main,
        fun _ => by rw [transmitEmpty_iff.mp hempty]; exact Nat.zero_le 1,
        fun _ => h.str_ne nofun⟩
    · exact h
  | sendReturn =>
    exact h.out (h.room (.inl rfl)) .main 13 rfl (by rintro (h | h) <;> cases h)
      (fun _ => h.str_ne nofun)
  | poll =>
    unfold WriteState.access
    dsimp only
    split_ifs with hempty
    · exact ⟨h.ready, h.dropped, h.order, h.main,
        fun _ => by rw [transmitEmpty_iff.mp hempty]; exact Nat.zero_le 1,
        fun _ => h.str_ne nofun⟩
    · exact h
  | send =>
    cases str with
    | nil => exact h
    | cons c str =>
      apply h.out (h.room (.inr rfl)) .main c
      · rw [remaining_enter]
        rfl
      · intro henter
        cases str with
        | nil => rcases henter with henter | henter <;> cases henter
        | cons d str =>
          rw [WritePc.enter] at henter
          split_ifs at henter <;> rcases henter with henter | henter <;> cases henter
      · rintro henter rfl
        exact henter rfl
  | done => exact h

theorem step (h : Delivering u₀ text s) (σ : WriteStep) : Delivering u₀ text (s.step σ) := by
  cases σ with
  | access => exact h.access
  | load => exact h.load
  | finish => exact h.finish
  | dot => exact h.dot

theorem run (h : Delivering u₀ text s) (steps : List WriteStep) :
    Delivering u₀ text (s.run steps) := by
  induction steps generalizing s with
  | nil => exact h
  | cons σ steps ih => exact ih (h.step σ)

end Delivering

/-! ### The dots -/

theorem sentBy_handler_access (s : WriteState) :
    s.access.sentBy .handler = s.sentBy .handler := by
  obtain ⟨pc, str, uart, sent⟩ := s
  cases pc with
  | pollReturn | poll =>
    unfold WriteState.access
    dsimp only
    split_ifs <;> rfl
  | sendReturn => exact (sentBy_out _ .main .handler 13).trans (List.append_nil _)
  | send =>
    cases str with
    | nil => rfl
    | cons c str => exact (sentBy_out _ .main .handler c).trans (List.append_nil _)
  | done => rfl

/-- The handler has written one dot for each of its interrupts. -/
theorem sentBy_handler_run (s : WriteState) (steps : List WriteStep) :
    (s.run steps).sentBy .handler
      = s.sentBy .handler ++ List.replicate (steps.count .dot) 46 := by
  induction steps generalizing s with
  | nil => exact (List.append_nil _).symm
  | cons σ steps ih =>
    rw [show s.run (σ :: steps) = (s.step σ).run steps from rfl, ih]
    cases σ with
    | access =>
      rw [List.count_cons_of_ne (by decide)]
      exact congrArg (· ++ _) (sentBy_handler_access s)
    | load => rw [List.count_cons_of_ne (by decide)]; rfl
    | finish => rw [List.count_cons_of_ne (by decide)]; rfl
    | dot =>
      have hdot : s.dot.sentBy .handler = s.sentBy .handler ++ [46] :=
        sentBy_out _ .handler .handler 46
      rw [List.count_cons_self, show s.step .dot = s.dot from rfl, hdot, List.append_assoc,
        List.replicate_succ]
      rfl

/-! ### The end of the call -/

theorem run_append (s : WriteState) (xs ys : List WriteStep) :
    s.run (xs ++ ys) = (s.run xs).run ys :=
  List.foldl_append

/-- The port gets done with what is pending, while the call waits. -/
theorem exists_drained (s : WriteState) :
    ∃ steps, .dot ∉ steps ∧ (s.run steps).uart.pending = [] ∧ (s.run steps).pc = s.pc ∧
      (s.run steps).str = s.str := by
  induction hn : s.uart.pending.length generalizing s with
  | zero => exact ⟨[], List.not_mem_nil, List.length_eq_zero_iff.mp hn, rfl, rfl⟩
  | succ n ih =>
    -- one byte goes to the shift register, if it is not there yet, and on
    have hone : (s.run [.load, .finish]).uart.pending.length = n := by
      have hload : s.uart.load.pending.length = n + 1 := by rw [Uart.load_pending, hn]
      show s.uart.load.finish.pending.length = n
      obtain ⟨b, hb⟩ : ∃ b, s.uart.load.shift = some b := by
        unfold Uart.load
        split
        · exact ⟨_, rfl⟩
        · rename_i hnot
          cases hshift : s.uart.shift with
          | some b => exact ⟨b, rfl⟩
          | none =>
            cases hfifo : s.uart.fifo with
            | nil =>
              rw [Uart.pending, hshift, hfifo] at hn
              exact absurd hn.symm (Nat.succ_ne_zero n)
            | cons b fifo => exact absurd hfifo (hnot b fifo hshift)
      have hpending : s.uart.load.pending = b :: s.uart.load.fifo := by
        rw [Uart.pending, hb]
        rfl
      rw [hpending, List.length_cons] at hload
      unfold Uart.finish
      rw [hb]
      dsimp only
      split_ifs <;> exact Nat.succ.inj hload
    obtain ⟨steps, hdot, hempty, hpc, hstr⟩ := ih (s.run [.load, .finish]) hone
    refine ⟨[.load, .finish] ++ steps, ?_, ?_, ?_, ?_⟩
    · simpa using hdot
    · rw [run_append, hempty]
    · rw [run_append, hpc]
      rfl
    · rw [run_append, hstr]
      rfl

/-- The call gets to writing the byte it waits for. -/
theorem exists_sending (s : WriteState) (hpc : s.pc ≠ .done) :
    ∃ steps, .dot ∉ steps ∧ ((s.run steps).pc = .sendReturn ∨ (s.run steps).pc = .send) ∧
      (s.run steps).str = s.str ∧
      (s.run steps).pc.remaining (s.run steps).str = s.pc.remaining s.str := by
  obtain ⟨steps, hdot, hempty, hkept, hstr⟩ := exists_drained s
  have hlast : .dot ∉ steps ++ [.access] := by simpa using hdot
  have htest := Delivering.transmitEmpty_iff.mpr hempty
  have hrun : s.run (steps ++ [.access]) = (s.run steps).access := run_append s steps [.access]
  cases h : s.pc with
  | done => exact absurd h hpc
  | sendReturn => exact ⟨[], List.not_mem_nil, .inl h, rfl, by rw [← h]; rfl⟩
  | send => exact ⟨[], List.not_mem_nil, .inr h, rfl, by rw [← h]; rfl⟩
  | pollReturn =>
    have hsend : (s.run steps).access = { s.run steps with pc := .sendReturn } := by
      unfold WriteState.access
      rw [hkept, h]
      exact if_pos htest
    refine ⟨steps ++ [.access], hlast, ?_⟩
    rw [hrun, hsend]
    exact ⟨.inl rfl, hstr, congrArg (13 :: fromChar ·) hstr⟩
  | poll =>
    have hsend : (s.run steps).access = { s.run steps with pc := .send } := by
      unfold WriteState.access
      rw [hkept, h]
      exact if_pos htest
    refine ⟨steps ++ [.access], hlast, ?_⟩
    rw [hrun, hsend]
    exact ⟨.inr rfl, hstr, congrArg fromChar hstr⟩

/-- Writing a byte leaves one less. -/
theorem remaining_access {s : WriteState} (hpc : s.pc = .sendReturn ∨ s.pc = .send)
    (hstr : s.str ≠ []) :
    (s.access.pc.remaining s.access.str).length + 1 = (s.pc.remaining s.str).length ∧
      (s.access.pc ≠ .done → s.access.str ≠ []) := by
  obtain ⟨pc, str, uart, sent⟩ := s
  rcases hpc with hpc | hpc
  · obtain rfl : pc = .sendReturn := hpc
    exact ⟨rfl, fun _ => hstr⟩
  · obtain rfl : pc = .send := hpc
    cases str with
    | nil => exact absurd rfl hstr
    | cons c str =>
      refine ⟨?_, ?_⟩
      · show ((WritePc.enter str).remaining str).length + 1 = (c :: crlf str).length
        rw [remaining_enter, List.length_cons]
      · rintro henter rfl
        exact henter rfl

/-- From every state the call can come to its end, when no interrupt comes any more. -/
theorem exists_done (s : WriteState) (hstr : s.pc ≠ .done → s.str ≠ []) :
    ∃ steps, .dot ∉ steps ∧ (s.run steps).pc = .done := by
  -- by the number of bytes that are left
  induction hn : (s.pc.remaining s.str).length using Nat.strong_induction_on generalizing s with
  | _ n ih =>
    by_cases hpc : s.pc = .done
    · exact ⟨[], List.not_mem_nil, hpc⟩
    obtain ⟨steps, hdot, hsend, hkept, hremaining⟩ := exists_sending s hpc
    obtain ⟨hless, hne⟩ := remaining_access hsend (by rw [hkept]; exact hstr hpc)
    rw [hremaining, hn] at hless
    obtain ⟨more, hmore, hdone⟩ := ih _ (by omega) (s.run steps).access hne rfl
    refine ⟨steps ++ .access :: more, ?_, ?_⟩
    · simp [hdot, hmore]
    · rw [run_append]
      exact hdone

/-- **No byte is lost on the serial line.**  In every interleaving of `write_serial_string` with the
port and with interrupts that print dots, what was written is on the line or pending, in the order
of the writes; the handler has written one dot for each interrupt, the call has written a beginning
of its text with a return in front of every newline, and all of it when it has returned; and it can
return from wherever it is. -/
theorem writeSerialString_delivers {u : Uart} (hu : u.Ready) (str : CString)
    (steps : List WriteStep) :
    let s := (WriteState.start u str.text).run steps
    s.uart.dropped = u.dropped ∧
    s.uart.line ++ s.uart.pending = u.line ++ u.pending ++ s.sent.map Prod.snd ∧
    s.sentBy .handler = List.replicate (steps.count .dot) 46 ∧
    s.sentBy .main <+: crlf str.text ∧
    (s.pc = .done → uncrlf (s.sentBy .main) = str.text) ∧
    ∃ more, .dot ∉ more ∧ (s.run more).pc = .done := by
  intro s
  have h : Delivering u str.text s := (delivering_start hu str.text).run steps
  refine ⟨h.dropped, h.order, ?_, ⟨_, h.main⟩, ?_, exists_done s h.str_ne⟩
  · exact sentBy_handler_run _ steps
  · intro hdone
    have hmain := h.main
    rw [hdone] at hmain
    rw [show s.sentBy .main = crlf str.text from (List.append_nil _).symm.trans hmain, uncrlf_crlf]

/-- A port that nothing was written to yet, as `init_serial` sets it up. -/
def idleUart : Uart := ⟨0x00, 0x03, 0x00, 0xC7, 0x03, 0x0F, 0xAE, [], none, [], []⟩

/-- A dot between the wait for a byte and the byte. -/
theorem writeSerialString_delivers_dot :
    let s := (WriteState.start idleUart (ascii "a\n")).run
      [.access, .dot, .access, .load, .finish, .load, .finish, .access, .access]
    s.uart.line ++ s.uart.pending = ascii ".a\r" ∧ s.sentBy .main <+: crlf (ascii "a\n") := by
  refine ⟨by decide, ?_⟩
  exact (writeSerialString_delivers (Uart.Ready.of_registers rfl rfl rfl) ⟨ascii "a\n", by decide⟩
    _).2.2.2.1

end Shogun.Serial
