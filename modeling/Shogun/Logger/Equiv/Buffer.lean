import Shogun.Logger.Buffer
import Shogun.Util.CircularWindow

/-!
# The ring buffer is a bounded queue

* `Represents b q`: the three indices agree and the cells from `head` on hold the queue `q`.
* `Represents.push`, `Represents.pop`: one call on the buffer is one call on the queue.
* `run_init_eq`: so is every sequence of calls after `logger_init`.
-/

namespace Shogun.Logger

open BoundedQueue CircularWindow

/-- The buffer holds the queue `q`, oldest entry first. -/
structure Represents (b : LogBuffer) (q : List LogEntry) : Prop where
  head_lt : b.head.toNat < 64
  count_le : b.count.toNat ≤ 64
  tail_eq : b.tail.toNat = (b.head.toNat + b.count.toNat) % 64
  window_eq : window b.buffer 64 b.head.toNat b.count.toNat = q

/-! ### Steps of the indices -/

theorem toNat_succ_mod (i : UInt32) :
    ((i + 1) % logBufferSize).toNat = (i.toNat + 1) % 64 := by
  rw [UInt32.toNat_mod, UInt32.toNat_add, show logBufferSize.toNat = 64 from rfl,
    show (1 : UInt32).toNat = 1 from rfl]
  omega

theorem toNat_sub_one {c : UInt32} (h : 0 < c.toNat) : (c - 1).toNat = c.toNat - 1 := by
  apply UInt32.toNat_sub_of_le
  rw [UInt32.le_iff_toNat_le]
  exact h

theorem toNat_add_one {c : UInt32} (h : c.toNat ≤ 64) : (c + 1).toNat = c.toNat + 1 := by
  rw [UInt32.toNat_add, show (1 : UInt32).toNat = 1 from rfl]
  omega

theorem loggerBufferIsFull_iff (b : LogBuffer) :
    loggerBufferIsFull b = true ↔ 64 ≤ b.count.toNat := by
  unfold loggerBufferIsFull
  rw [decide_eq_true_iff, ge_iff_le, UInt32.le_iff_toNat_le]
  rfl

theorem loggerBufferIsEmpty_iff (b : LogBuffer) :
    loggerBufferIsEmpty b = true ↔ b.count.toNat = 0 := by
  unfold loggerBufferIsEmpty
  rw [beq_iff_eq, ← UInt32.toNat_inj]
  rfl

namespace Represents

variable {b : LogBuffer} {q : List LogEntry}

theorem length_eq (h : Represents b q) : q.length = b.count.toNat := by
  rw [← h.window_eq, length_window]

/-- Moving `head` and `count` past the oldest entry. -/
theorem advance (h : Represents b q) (hpos : 0 < b.count.toNat) :
    q = b.buffer b.head.toNat :: q.tail ∧
    Represents { b with head := (b.head + 1) % logBufferSize, count := b.count - 1 } q.tail := by
  have hhead := toNat_succ_mod b.head
  have hcount := toNat_sub_one hpos
  have hq : q = b.buffer b.head.toNat ::
      window b.buffer 64 ((b.head.toNat + 1) % 64) (b.count.toNat - 1) := by
    rw [← window_succ b.buffer h.head_lt, Nat.sub_add_cancel hpos, h.window_eq]
  refine ⟨?_, ⟨?_, ?_, ?_, ?_⟩⟩
  · rw [hq, List.tail_cons]
  · show ((b.head + 1) % logBufferSize).toNat < 64
    rw [hhead]
    omega
  · show (b.count - 1).toNat ≤ 64
    have := h.count_le
    omega
  · show b.tail.toNat = (((b.head + 1) % logBufferSize).toNat + (b.count - 1).toNat) % 64
    rw [h.tail_eq, hhead, hcount]
    omega
  · show window b.buffer 64 ((b.head + 1) % logBufferSize).toNat (b.count - 1).toNat = q.tail
    rw [hhead, hcount, hq, List.tail_cons]

/-- Storing at `tail` and moving `tail` and `count`, where the buffer is not full. -/
theorem append (h : Represents b q) (hlt : b.count.toNat < 64) (entry : LogEntry) :
    Represents
      { b with
        buffer := Function.update b.buffer b.tail.toNat entry
        tail := (b.tail + 1) % logBufferSize
        count := b.count + 1 } (q ++ [entry]) := by
  have hcount := toNat_add_one h.count_le
  refine ⟨h.head_lt, ?_, ?_, ?_⟩
  · show (b.count + 1).toNat ≤ 64
    omega
  · show ((b.tail + 1) % logBufferSize).toNat = (b.head.toNat + (b.count + 1).toNat) % 64
    rw [toNat_succ_mod, hcount, h.tail_eq]
    omega
  · show window (Function.update b.buffer b.tail.toNat entry) 64 b.head.toNat (b.count + 1).toNat
      = q ++ [entry]
    rw [hcount, h.tail_eq, window_update b.buffer _ hlt, h.window_eq]

/-! ### The two calls -/

theorem push (h : Represents b q) (entry : LogEntry) :
    Represents (loggerBufferPush b entry) (BoundedQueue.push 64 q entry) := by
  have hlen := h.length_eq
  have hle := h.count_le
  unfold loggerBufferPush BoundedQueue.push
  by_cases hfull : 64 ≤ b.count.toNat
  · rw [if_pos ((loggerBufferIsFull_iff b).mpr hfull), if_pos (by omega)]
    apply (h.advance (by omega)).2.append
    show (b.count - 1).toNat < 64
    rw [toNat_sub_one (by omega)]
    omega
  · rw [if_neg (mt (loggerBufferIsFull_iff b).mp hfull), if_neg (by omega)]
    exact h.append (by omega) entry

theorem pop (h : Represents b q) :
    (loggerBufferPop b).1 = (BoundedQueue.pop q).1 ∧
    Represents (loggerBufferPop b).2 (BoundedQueue.pop q).2 := by
  have hlen := h.length_eq
  unfold loggerBufferPop BoundedQueue.pop
  by_cases hempty : b.count.toNat = 0
  · have hq : q = [] := List.length_eq_zero_iff.mp (by omega)
    subst hq
    rw [if_pos ((loggerBufferIsEmpty_iff b).mpr hempty)]
    exact ⟨rfl, h⟩
  · rw [if_neg (mt (loggerBufferIsEmpty_iff b).mp hempty)]
    have hstep := h.advance (by omega)
    refine ⟨?_, hstep.2⟩
    rw [hstep.1, List.head?_cons]

end Represents

/-! ### Every sequence of calls -/

theorem represents_init (b : LogBuffer) : Represents b.init [] where
  head_lt := by
    show (0 : UInt32).toNat < 64
    decide
  count_le := by
    show (0 : UInt32).toNat ≤ 64
    decide
  tail_eq := rfl
  window_eq := window_zero ..

theorem Represents.run {b : LogBuffer} {q : List LogEntry} (h : Represents b q)
    (ops : List (Op LogEntry)) :
    (b.run ops).1 = (BoundedQueue.run 64 q ops).1 ∧
    Represents (b.run ops).2 (BoundedQueue.run 64 q ops).2 := by
  induction ops generalizing b q with
  | nil => exact ⟨rfl, h⟩
  | cons op ops ih =>
    cases op with
    | push entry => exact ih (h.push entry)
    | pop =>
      obtain ⟨hanswer, hnext⟩ := h.pop
      obtain ⟨hanswers, hlast⟩ := ih hnext
      refine ⟨?_, hlast⟩
      unfold LogBuffer.run BoundedQueue.run
      exact congrArg₂ List.cons hanswer hanswers

/-- **The log buffer is a bounded drop-oldest queue.** -/
theorem run_init_eq (b : LogBuffer) (ops : List (Op LogEntry)) :
    (b.init.run ops).1 = (BoundedQueue.run 64 [] ops).1 ∧
    (b.init.run ops).2.head < 64 ∧ (b.init.run ops).2.tail < 64 ∧
    (b.init.run ops).2.count ≤ 64 ∧
    (b.init.run ops).2.tail.toNat
      = ((b.init.run ops).2.head.toNat + (b.init.run ops).2.count.toNat) % 64 := by
  obtain ⟨hanswers, hlast⟩ := (represents_init b).run ops
  refine ⟨hanswers, ?_, ?_, ?_, hlast.tail_eq⟩
  · exact UInt32.lt_iff_toNat_lt.mpr hlast.head_lt
  · rw [UInt32.lt_iff_toNat_lt, hlast.tail_eq]
    exact Nat.mod_lt _ (by decide)
  · exact UInt32.le_iff_toNat_le.mpr hlast.count_le

end Shogun.Logger
