import Mathlib.Data.Nat.ModEq
import Mathlib.Logic.Function.Basic

/-!
# Windows of a circular array

`window buf n head count` lists the `count` cells of an array of length `n` from the index `head`
on, going around its end.

* `window_succ`: the first cell of a window and the window behind it.
* `window_update`: storing into the cell behind a window that does not fill the array makes it
  longer by that cell.
-/

namespace CircularWindow

variable {α : Type*}

/-- The `count` cells from `head` on, around the end of an array of length `n`. -/
def window (buf : ℕ → α) (n head count : ℕ) : List α :=
  (List.range count).map fun i => buf ((head + i) % n)

@[simp]
theorem length_window (buf : ℕ → α) (n head count : ℕ) :
    (window buf n head count).length = count := by
  unfold window
  rw [List.length_map, List.length_range]

theorem window_zero (buf : ℕ → α) (n head : ℕ) : window buf n head 0 = [] := rfl

theorem window_succ (buf : ℕ → α) {n head : ℕ} (h : head < n) (count : ℕ) :
    window buf n head (count + 1) = buf head :: window buf n ((head + 1) % n) count := by
  unfold window
  rw [List.range_succ_eq_map, List.map_cons, List.map_map, Nat.add_zero, Nat.mod_eq_of_lt h]
  congr 1
  apply List.map_congr_left
  intro i _
  show buf ((head + (i + 1)) % n) = buf (((head + 1) % n + i) % n)
  rw [Nat.mod_add_mod, Nat.add_right_comm, Nat.add_assoc]

/-- Two different cells of a window are different cells of the array. -/
theorem add_mod_ne {n i j : ℕ} (head : ℕ) (hij : i < j) (hj : j < n) :
    (head + i) % n ≠ (head + j) % n := by
  intro heq
  have hmod : i ≡ j [MOD n] := Nat.ModEq.add_left_cancel' head heq
  have hsame : i = j := Nat.ModEq.eq_of_lt_of_lt hmod (by omega) hj
  omega

theorem window_update (buf : ℕ → α) {n count : ℕ} (head : ℕ) (h : count < n) (x : α) :
    window (Function.update buf ((head + count) % n) x) n head (count + 1)
      = window buf n head count ++ [x] := by
  unfold window
  rw [List.range_succ, List.map_append, List.map_singleton, Function.update_self]
  congr 1
  apply List.map_congr_left
  intro i hi
  exact Function.update_of_ne (add_mod_ne head (List.mem_range.mp hi) h) _ _

end CircularWindow
