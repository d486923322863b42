import Mathlib.Data.List.DropRight

/-!
# A bounded queue that drops its oldest entry

A first-in first-out queue, oldest entry first, that never holds more than `bound` entries: a push
on a full queue discards the oldest one.

* `push_rtake`: a queue filled by pushes alone holds the last `bound` of them.
-/

namespace BoundedQueue

variable {α : Type*}

/-- Appends `x`, discarding the oldest entry of a full queue. -/
def push (bound : ℕ) (q : List α) (x : α) : List α :=
  (if q.length = bound then q.tail else q) ++ [x]

/-- The oldest entry, and the queue without it. -/
def pop (q : List α) : Option α × List α := (q.head?, q.tail)

/-- A call on the queue. -/
inductive Op (α : Type*) where
  | push (x : α)
  | pop

/-- The answers to the pops of a sequence of calls, and the queue after it. -/
def run (bound : ℕ) : List α → List (Op α) → List (Option α) × List α
  | q, [] => ([], q)
  | q, .push x :: ops => run bound (push bound q x) ops
  | q, .pop :: ops =>
    let rest := run bound (pop q).2 ops
    ((pop q).1 :: rest.1, rest.2)

theorem length_rtake (xs : List α) (n : ℕ) : (xs.rtake n).length = min xs.length n := by
  unfold List.rtake
  rw [List.length_drop]
  omega

/-- Pushing onto the last `bound` entries of a list gives the last `bound` entries of the longer
list. -/
theorem push_rtake {bound : ℕ} (hbound : 0 < bound) (xs : List α) (x : α) :
    push bound (xs.rtake bound) x = (xs ++ [x]).rtake bound := by
  unfold push
  split_ifs with hfull
  · have hle : bound ≤ xs.length := by
      rw [length_rtake] at hfull
      omega
    unfold List.rtake
    rw [List.tail_drop, List.drop_append_of_le_length (by simp; omega), List.length_append,
      List.length_singleton]
    congr 2
    omega
  · have hlt : xs.length < bound := by
      rw [length_rtake] at hfull
      omega
    unfold List.rtake
    rw [List.length_append, List.length_singleton, show xs.length - bound = 0 by omega,
      show xs.length + 1 - bound = 0 by omega, List.drop_zero, List.drop_zero]

end BoundedQueue
