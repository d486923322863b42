import Mathlib.Data.List.Basic
import Mathlib.Logic.Function.Basic

/-!
# C strings in character arrays

A `char` array is a function from indices to bytes, and a C string in it is a text without `NUL`
with a `NUL` behind it.

* `TextAt b i s`: from index `i` on the array holds the C string `s`.
* `store b i s`: the bytes `s` written from index `i` on; `store_append` joins two writes and
  `textAt_store` says that a `NUL` behind them makes them a C string.
* `readString`: the loop that reads until a `NUL`; `readString_eq` says that it finds the text, so
  that there is only one (`TextAt.unique`).
* `copyUpTo`: the loop that copies a text while there is room; `copyUpTo_append` says that copying
  two texts one after the other is copying them together.
* `reverseLoop`: the loop that reverses a part of an array in place; `reverseLoop_store`.
-/

/-- The bytes of an ASCII text. -/
def ascii (s : String) : List UInt8 := s.toList.map fun c => UInt8.ofNat c.toNat

/-- A text that a C string can hold. -/
structure CString where
  text : List UInt8
  zero_notMem : 0 ∉ text

/-- The contents of a `char` array. -/
def CharArray : Type := ℕ → UInt8

namespace CharArray

/-- An array of `NUL` bytes. -/
def zeros : CharArray := fun _ => 0

/-- `b[i] = c`. -/
def set (b : CharArray) (i : ℕ) (c : UInt8) : CharArray := Function.update b i c

@[simp]
theorem set_self (b : CharArray) (i : ℕ) (c : UInt8) : b.set i c i = c :=
  Function.update_self ..

theorem set_of_ne (b : CharArray) {i j : ℕ} (h : j ≠ i) (c : UInt8) : b.set i c j = b j :=
  Function.update_of_ne h ..

/-! ### Writing -/

/-- `s` written to the array from index `i` on. -/
def store (b : CharArray) (i : ℕ) : List UInt8 → CharArray
  | [] => b
  | c :: s => (b.set i c).store (i + 1) s

theorem store_append (b : CharArray) (i : ℕ) (s t : List UInt8) :
    b.store i (s ++ t) = (b.store i s).store (i + s.length) t := by
  induction s generalizing b i with
  | nil => rfl
  | cons c s ih =>
    rw [List.cons_append, store, ih, store, List.length_cons, Nat.add_right_comm, Nat.add_assoc]

/-- Other indices keep their contents. -/
theorem store_of_lt (b : CharArray) (s : List UInt8) {i j : ℕ} (h : j < i) :
    b.store i s j = b j := by
  induction s generalizing b i with
  | nil => rfl
  | cons c s ih => rw [store, ih _ (by omega), set_of_ne _ (by omega)]

theorem store_of_le (b : CharArray) (s : List UInt8) {i j : ℕ} (h : i + s.length ≤ j) :
    b.store i s j = b j := by
  induction s generalizing b i with
  | nil => rfl
  | cons c s ih =>
    rw [List.length_cons] at h
    rw [store, ih _ (by omega), set_of_ne _ (by omega)]

/-- A byte behind a stored text may be written first. -/
theorem set_store (b : CharArray) (s : List UInt8) {i j : ℕ} (h : i + s.length ≤ j) (c : UInt8) :
    (b.set j c).store i s = (b.store i s).set j c := by
  induction s generalizing b i with
  | nil => rfl
  | cons d s ih =>
    rw [List.length_cons] at h
    have hne : j ≠ i := by omega
    have hcomm : (b.set j c).set i d = (b.set i d).set j c := by
      unfold set
      exact Function.update_comm hne c d b
    rw [store, hcomm, ih _ (by omega), store]

/-! ### Reading -/

/-- From index `i` on the array holds the C string `s`. -/
def TextAt (b : CharArray) (i : ℕ) : List UInt8 → Prop
  | [] => b i = 0
  | c :: s => b i = c ∧ c ≠ 0 ∧ b.TextAt (i + 1) s

theorem textAt_store (b : CharArray) (i : ℕ) {s : List UInt8} (hs : 0 ∉ s) :
    ((b.store i s).set (i + s.length) 0).TextAt i s := by
  induction s generalizing b i with
  | nil => exact set_self ..
  | cons c s ih =>
    rw [List.mem_cons, not_or] at hs
    have hlen : i + (c :: s).length = i + 1 + s.length := by
      rw [List.length_cons]
      omega
    refine ⟨?_, Ne.symm hs.1, ?_⟩
    · rw [set_of_ne _ (by rw [hlen]; omega), store, store_of_lt _ _ (by omega), set_self]
    · rw [hlen]
      exact ih (b.set i c) (i + 1) hs.2

/-- A text at the start of an array, ended by a `NUL`. -/
theorem textAt_terminated (b : CharArray) {s : List UInt8} (hs : 0 ∉ s) :
    ((b.store 0 s).set s.length 0).TextAt 0 s := by
  have htext := textAt_store b 0 hs
  rwa [Nat.zero_add] at htext

/-- The bytes behind it. -/
theorem terminated_of_lt (b : CharArray) {s : List UInt8} {j : ℕ} (h : s.length < j) :
    (b.store 0 s).set s.length 0 j = b j := by
  rw [set_of_ne _ (by omega), store_of_le _ _ (by omega)]

/-- Read from index `i` until a `NUL`; `none` if there is none among the next `fuel` bytes. -/
def readString (b : CharArray) : ℕ → ℕ → Option (List UInt8)
  | 0, _ => none
  | fuel + 1, i => if b i = 0 then some [] else (readString b fuel (i + 1)).map (b i :: ·)

theorem readString_eq {b : CharArray} {i fuel : ℕ} {s : List UInt8} (h : b.TextAt i s)
    (hfuel : s.length < fuel) : b.readString fuel i = some s := by
  induction s generalizing i fuel with
  | nil =>
    obtain ⟨fuel, rfl⟩ := Nat.exists_eq_add_one.mpr hfuel
    exact if_pos h
  | cons c s ih =>
    rw [List.length_cons] at hfuel
    obtain ⟨fuel, rfl⟩ := Nat.exists_eq_add_one.mpr (Nat.zero_lt_of_lt hfuel)
    obtain ⟨rfl, hne, hs⟩ := h
    rw [readString, if_neg hne, ih hs (by omega)]
    rfl

/-- An array holds one C string from an index on. -/
theorem TextAt.unique {b : CharArray} {i : ℕ} {s t : List UInt8} (hs : b.TextAt i s)
    (ht : b.TextAt i t) : s = t := by
  have hread := readString_eq hs (Nat.lt_add_of_pos_right (Nat.succ_pos t.length))
  rw [readString_eq ht (by omega)] at hread
  exact (Option.some.inj hread).symm

/-! ### Copying into a bounded array -/

/-- `while (*str && written < limit) { b[written] = *str++; written++; }`: the array and `written`
after it. -/
def copyUpTo (limit : ℕ) (b : CharArray) (written : ℕ) : List UInt8 → CharArray × ℕ
  | [] => (b, written)
  | c :: str =>
    if written < limit then copyUpTo limit (b.set written c) (written + 1) str else (b, written)

theorem copyUpTo_of_le {limit written : ℕ} (h : limit ≤ written) (b : CharArray)
    (s : List UInt8) : copyUpTo limit b written s = (b, written) := by
  cases s with
  | nil => rfl
  | cons c s => exact if_neg (by omega)

theorem copyUpTo_append (limit : ℕ) (b : CharArray) (written : ℕ) (s t : List UInt8) :
    copyUpTo limit b written (s ++ t)
      = copyUpTo limit (copyUpTo limit b written s).1 (copyUpTo limit b written s).2 t := by
  induction s generalizing b written with
  | nil => rfl
  | cons c s ih =>
    rw [List.cons_append, copyUpTo, copyUpTo]
    split_ifs with hroom
    · exact ih (b.set written c) (written + 1)
    · exact (copyUpTo_of_le (by omega) b t).symm

/-- What there is room for is stored. -/
theorem copyUpTo_eq (limit : ℕ) (b : CharArray) (written : ℕ) (s : List UInt8) :
    copyUpTo limit b written s
      = (b.store written (s.take (limit - written)),
          written + (s.take (limit - written)).length) := by
  induction s generalizing b written with
  | nil =>
    rw [List.take_nil]
    rfl
  | cons c s ih =>
    rw [copyUpTo]
    split_ifs with hroom
    · have hsub : limit - written = limit - (written + 1) + 1 := by omega
      rw [ih, hsub, List.take_succ_cons, store, List.length_cons, Nat.add_right_comm,
        Nat.add_assoc]
    · rw [show limit - written = 0 by omega, List.take_zero]
      rfl

/-- A `NUL` behind the copied part of a text makes it a C string. -/
theorem textAt_copyUpTo (limit : ℕ) (b : CharArray) {s : List UInt8} (hs : 0 ∉ s) :
    ((copyUpTo limit b 0 s).1.set (copyUpTo limit b 0 s).2 0).TextAt 0 (s.take limit) := by
  rw [copyUpTo_eq, Nat.sub_zero]
  exact textAt_store b 0 fun h => hs (List.mem_of_mem_take h)

/-! ### Reversing in place -/

/-- `while (start < end) { swap b[start] and b[end]; start++; end--; }`, by recursion on `end`. -/
def reverseLoop (b : CharArray) (start : ℕ) : ℕ → CharArray
  | 0 => b
  | stop + 1 =>
    if start < stop + 1 then
      ((b.set start (b (stop + 1))).set (stop + 1) (b start)).reverseLoop (start + 1) stop
    else b

/-- The bytes from `start` to `stop` in the other order. -/
theorem reverseLoop_apply (b : CharArray) (start stop j : ℕ) :
    b.reverseLoop start stop j = if start ≤ j ∧ j ≤ stop then b (start + stop - j) else b j := by
  induction stop generalizing b start with
  | zero =>
    rw [reverseLoop]
    split_ifs with hj
    · rw [show start + 0 - j = j by omega]
    · rfl
  | succ stop ih =>
    rw [reverseLoop]
    split_ifs with hlt hj hj
    · rw [ih]
      -- the two outermost bytes are the ones swapped now
      by_cases hstart : j = start
      · rw [if_neg (by omega), set_of_ne _ (by omega), hstart, set_self,
          Nat.add_sub_cancel_left]
      by_cases hstop : j = stop + 1
      · rw [if_neg (by omega), hstop, set_self, Nat.add_sub_cancel]
      rw [if_pos (by omega), set_of_ne _ (by omega), set_of_ne _ (by omega)]
      congr 1
      omega
    · rw [ih, if_neg (by omega), set_of_ne _ (by omega), set_of_ne _ (by omega)]
    · rw [show start + (stop + 1) - j = j by omega]
    · rfl

theorem store_apply (b : CharArray) (s : List UInt8) {i k : ℕ} (hk : k < s.length) :
    b.store i s (i + k) = s[k] := by
  induction s generalizing b i k with
  | nil => exact absurd hk (Nat.not_lt_zero k)
  | cons c s ih =>
    rw [store]
    cases k with
    | zero => rw [store_of_lt _ _ (by omega), Nat.add_zero, set_self, List.getElem_cons_zero]
    | succ k =>
      rw [List.length_cons] at hk
      rw [← Nat.add_assoc, Nat.add_right_comm, ih _ (by omega), List.getElem_cons_succ]

/-- Reversing a stored text in place stores the reversed text. -/
theorem reverseLoop_store (b : CharArray) (i : ℕ) (s : List UInt8) :
    (b.store i s).reverseLoop i (i + s.length - 1) = b.store i s.reverse := by
  funext j
  rw [reverseLoop_apply]
  by_cases hlow : j < i
  · rw [if_neg (by omega), store_of_lt _ _ hlow, store_of_lt _ _ hlow]
  by_cases hhigh : i + s.length ≤ j
  · rw [store_of_le _ s.reverse (by rw [List.length_reverse]; exact hhigh)]
    split_ifs with hj
    · -- an empty text at the start of the array
      have hnil : s = [] := List.length_eq_zero_iff.mp (by omega)
      subst hnil
      rw [List.length_nil] at hj ⊢
      show b (i + (i + 0 - 1) - j) = b j
      congr 1
      omega
    · exact store_of_le _ _ hhigh
  -- an index inside the text
  obtain ⟨k, rfl⟩ := Nat.exists_eq_add_of_le (Nat.not_lt.mp hlow)
  have hk : k < s.length := by omega
  rw [if_pos (by omega), store_apply _ s.reverse (by rw [List.length_reverse]; exact hk),
    List.getElem_reverse, show i + (i + s.length - 1) - (i + k) = i + (s.length - 1 - k) by omega,
    store_apply _ s (by omega)]

end CharArray
