import Shogun.Interrupt.Dispatch

/-!
# One end of interrupt for each interrupt

* `InterruptRegistry.callsRtc`: the dispatch of a vector runs `rtc_interrupt_handler`.
* `count_eois`: a sequence writes one end of interrupt for each vector of a controller, and one more
  to both for each dispatch that does.
* `InService`: the controllers have let a vector through over what else is in service.
* `dispatch_eois_iff`: the ends of interrupt are right exactly in the sequences without such a
  dispatch.
-/

namespace Shogun.Interrupt

/-- Both command ports were acquired. -/
def acquired : PicHandles := ⟨true, true⟩

/-- Does the dispatch of the vector run `rtc_interrupt_handler`? -/
def InterruptRegistry.callsRtc (r : InterruptRegistry) (vector : UInt8) : Bool :=
  r.handlersInitialized && r.interruptHandlers vector == some .rtc

theorem callEois_eq (r : InterruptRegistry) (vector : UInt8) :
    r.callEois acquired vector = if r.callsRtc vector then [.slave, .master] else [] := by
  unfold InterruptRegistry.callEois InterruptRegistry.callsRtc
  cases r.handlersInitialized with
  | false => rfl
  | true =>
    cases r.interruptHandlers vector with
    | none => rfl
    | some handler => cases handler <;> rfl

/-! ### Counting -/

/-- Is it a dispatch of a vector that ends at the port: `0x48` to `0x4F` at the slave, `0x40` to
`0x4F` at the master? -/
def DispatchOp.endsAt : PicPort → DispatchOp → Bool
  | .slave, .dispatch vector => 0x48 ≤ vector && vector ≤ 0x4F
  | .master, .dispatch vector => 0x40 ≤ vector && vector ≤ 0x4F
  | _, _ => false

/-- Is it a dispatch that runs `rtc_interrupt_handler`? -/
def InterruptRegistry.runsRtc (r : InterruptRegistry) : DispatchOp → Bool
  | .dispatch vector => r.callsRtc vector
  | _ => false

/-- The number of those in a sequence. -/
def rtcDispatches (r : InterruptRegistry) : List DispatchOp → ℕ
  | [] => 0
  | op :: ops => (if r.runsRtc op then 1 else 0) + rtcDispatches (r.step op) ops

theorem picSendEoi_acquired (vector : UInt8) :
    picSendEoi acquired vector =
      if 0x48 ≤ vector ∧ vector ≤ 0x4F then [.slave, .master]
      else if 0x40 ≤ vector ∧ vector ≤ 0x47 then [.master] else [] :=
  rfl

theorem count_picSendEoi (port : PicPort) (vector : UInt8) :
    (picSendEoi acquired vector).count port
      = if (DispatchOp.dispatch vector).endsAt port then 1 else 0 := by
  rw [picSendEoi_acquired]
  cases port with
  | master =>
    unfold DispatchOp.endsAt
    simp only [Bool.and_eq_true, decide_eq_true_eq, UInt8.le_iff_toNat_le]
    show List.count PicPort.master (if 72 ≤ vector.toNat ∧ vector.toNat ≤ 79 then _
        else if 64 ≤ vector.toNat ∧ vector.toNat ≤ 71 then _ else _)
      = if 64 ≤ vector.toNat ∧ vector.toNat ≤ 79 then 1 else 0
    -- `0x40` to `0x4F` are the vectors of the two branches together
    split_ifs <;> first | rfl | omega
  | slave =>
    unfold DispatchOp.endsAt
    simp only [Bool.and_eq_true, decide_eq_true_eq]
    split_ifs <;> rfl

theorem count_stepEois (r : InterruptRegistry) (port : PicPort) (op : DispatchOp) :
    (r.stepEois acquired op).count port
      = (if op.endsAt port then 1 else 0) + if r.runsRtc op then 1 else 0 := by
  cases op with
  | dispatch vector =>
    have hcall : (r.callEois acquired vector).count port
        = if r.runsRtc (.dispatch vector) then 1 else 0 := by
      rw [callEois_eq]
      show _ = if r.callsRtc vector then 1 else 0
      split_ifs <;> cases port <;> rfl
    show (r.callEois acquired vector ++ picSendEoi acquired vector).count port = _
    rw [List.count_append, hcall, count_picSendEoi, Nat.add_comm]
  | register vector handler => cases port <;> rfl
  | unregister vector => cases port <;> rfl

/-- Every vector of a controller ends there once, and the RTC handler ends at both. -/
theorem count_eois (r : InterruptRegistry) (port : PicPort) (ops : List DispatchOp) :
    (r.eois acquired ops).count port
      = ops.countP (DispatchOp.endsAt port) + rtcDispatches r ops := by
  induction ops generalizing r with
  | nil => rfl
  | cons op ops ih =>
    rw [InterruptRegistry.eois, List.count_append, count_stepEois, ih, List.countP_cons,
      rtcDispatches]
    omega

/-- None of them in a sequence. -/
theorem rtcDispatches_eq_zero_iff (r : InterruptRegistry) (ops : List DispatchOp) :
    rtcDispatches r ops = 0 ↔
      ∀ pre vector post, ops = pre ++ .dispatch vector :: post →
        (r.run pre).callsRtc vector = false := by
  induction ops generalizing r with
  | nil =>
    refine ⟨?_, fun _ => rfl⟩
    intro _ pre vector post hops
    exact absurd hops.symm (List.append_ne_nil_of_right_ne_nil pre (List.cons_ne_nil _ _))
  | cons op ops ih =>
    rw [rtcDispatches, Nat.add_eq_zero_iff, ih]
    constructor
    · -- the dispatch is the first step, or one of those after it
      rintro ⟨hop, hops⟩ pre vector post heq
      cases pre with
      | nil =>
        cases heq
        show r.callsRtc vector = false
        by_contra hcalls
        rw [show r.runsRtc (.dispatch vector) = true from Bool.eq_true_of_not_eq_false hcalls]
          at hop
        exact absurd hop (by decide)
      | cons op' pre =>
        cases heq
        exact hops pre vector post rfl
    · intro h
      constructor
      · cases op with
        | dispatch vector =>
          have hcalls : r.runsRtc (.dispatch vector) = false := h [] vector ops rfl
          rw [hcalls]
          rfl
        | register vector handler => rfl
        | unregister vector => rfl
      · intro pre vector post heq
        exact h (op :: pre) vector post (by rw [heq]; rfl)

/-! ### In-service bits -/

/-- The bits of the vector are in service, and the controllers have let it through: what else is in
service has a lower priority. -/
structure PicPair.InService (p : PicPair) (vector : UInt8) : Prop where
  master : ∀ i ∈ (ownBits vector).master, i ∈ p.master ∧ ∀ j ∈ p.master, i ≤ j
  slave : ∀ i ∈ (ownBits vector).slave, i ∈ p.slave ∧ ∀ j ∈ p.slave, i ≤ j

/-- The bits of the vector are no longer in service. -/
def PicPair.clear (p : PicPair) (vector : UInt8) : PicPair :=
  ⟨p.master \ (ownBits vector).master, p.slave \ (ownBits vector).slave⟩

theorem nonSpecificEoi_eq {isr : Finset (Fin 8)} {i : Fin 8} (hi : i ∈ isr)
    (hleast : ∀ j ∈ isr, i ≤ j) : nonSpecificEoi isr = isr \ {i} := by
  have hmin : isr.min' ⟨i, hi⟩ = i :=
    le_antisymm (isr.min'_le i hi) (isr.le_min' ⟨i, hi⟩ i hleast)
  unfold nonSpecificEoi
  rw [dif_pos ⟨i, hi⟩, hmin, Finset.sdiff_singleton_eq_erase]

/-- The ends of interrupt of the dispatcher clear the bits of its vector. -/
theorem foldl_write_picSendEoi {p : PicPair} {vector : UInt8} (h : p.InService vector) :
    (picSendEoi acquired vector).foldl PicPair.write p = p.clear vector := by
  obtain ⟨hmaster, hslave⟩ := h
  rw [picSendEoi_acquired]
  unfold PicPair.clear
  unfold ownBits at hmaster hslave ⊢
  split_ifs at hmaster hslave ⊢
  · -- a vector of the slave ends on line `2` of the master, too
    obtain ⟨hm, hml⟩ := hmaster 2 (Finset.mem_singleton_self _)
    obtain ⟨hs, hsl⟩ := hslave _ (Finset.mem_singleton_self _)
    rw [← nonSpecificEoi_eq hm hml, ← nonSpecificEoi_eq hs hsl]
    rfl
  · obtain ⟨hm, hml⟩ := hmaster _ (Finset.mem_singleton_self _)
    rw [← nonSpecificEoi_eq hm hml, Finset.sdiff_empty]
    rfl
  · rw [Finset.sdiff_empty, Finset.sdiff_empty]
    rfl

/-- **One end of interrupt for each interrupt.**  For every registry and sequence of dispatches
and changes of the registry, the controllers get one end of interrupt for each of their vectors,
and every dispatch clears its own in-service bits alone, exactly if no dispatch runs
`rtc_interrupt_handler`. -/
theorem dispatch_eois_iff (r : InterruptRegistry) (ops : List DispatchOp) :
    ((r.eois acquired ops).count .slave = ops.countP (DispatchOp.endsAt .slave) ∧
      (r.eois acquired ops).count .master = ops.countP (DispatchOp.endsAt .master) ∧
      ∀ pre vector post, ops = pre ++ .dispatch vector :: post →
        ∀ p : PicPair, p.InService vector →
          (genericInterruptHandlerNoErrorCode (r.run pre) acquired vector).foldl PicPair.write p
            = p.clear vector) ↔
    ∀ pre vector post, ops = pre ++ .dispatch vector :: post →
      (r.run pre).callsRtc vector = false := by
  rw [← rtcDispatches_eq_zero_iff, count_eois, count_eois]
  constructor
  · -- the bytes at the slave alone give the dispatches of the RTC handler away
    rintro ⟨hslave, -, -⟩
    omega
  · intro hzero
    refine ⟨by omega, by omega, ?_⟩
    intro pre vector post hops p hp
    have hcalls := (rtcDispatches_eq_zero_iff r ops).mp hzero pre vector post hops
    unfold genericInterruptHandlerNoErrorCode
    rw [callEois_eq, hcalls]
    exact foldl_write_picSendEoi hp

/-- The registry of the running kernel: the RTC handler is on vector `0x48`. -/
def rtcRegistry : InterruptRegistry :=
  ⟨fun vector => if vector = 0x48 then some .rtc else none, true⟩

/-- One RTC interrupt while IRQ 3 is in service: both controllers get two ends of interrupt, and the
second one of the master ends IRQ 3. -/
theorem rtc_dispatch_ends_others :
    let p : PicPair := ⟨{2, 3}, {0}⟩
    (rtcRegistry.eois acquired [.dispatch 0x48]).count .slave = 2 ∧
    (rtcRegistry.eois acquired [.dispatch 0x48]).count .master = 2 ∧
    [DispatchOp.dispatch 0x48].countP (DispatchOp.endsAt .slave) = 1 ∧
    [DispatchOp.dispatch 0x48].countP (DispatchOp.endsAt .master) = 1 ∧
    p.InService 0x48 ∧ p.clear 0x48 = ⟨{3}, ∅⟩ ∧
    (genericInterruptHandlerNoErrorCode rtcRegistry acquired 0x48).foldl PicPair.write p
      = ⟨∅, ∅⟩ := by
  exact ⟨by decide, by decide, by decide, by decide, ⟨by decide, by decide⟩, by decide, by decide⟩

end Shogun.Interrupt
