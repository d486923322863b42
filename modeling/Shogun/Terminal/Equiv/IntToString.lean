import Mathlib.Data.Nat.Digits.Lemmas
import Mathlib.Tactic.IntervalCases
import Shogun.Terminal.IntToString
import Shogun.Util.Numeral

/-!
# The text of a decimal numeral

* `digitLoop_eq`: the digit loop stores the decimal digits, lowest first, and ends.
* `intToString_eq`: `int_to_string` leaves the C string `intText num`, whatever the array held.
* `zero_notMem_intText`, `length_intText_le`: it is a C string of at most eleven bytes.
* `printsDecimal_iff`: it is the decimal numeral of every number but the least.

After `num = -num` a number is positive, but for the least one: its digits come out below `'0'`,
which the parameter `neg` of `digitBytes` stands for.
-/

namespace Shogun.Terminal

open CharArray Numeral

/-- The byte of a digit of a number that is negative or not in the digit loop. -/
def digitByte (neg : Bool) (d : ℕ) : UInt8 :=
  if neg then UInt8.ofNat (48 - d) else UInt8.ofNat (48 + d)

/-- The bytes of all digits of `n`, lowest first. -/
def digitBytes (neg : Bool) (n : ℕ) : List UInt8 := (Nat.digits 10 n).map (digitByte neg)

/-- The number with magnitude `n`. -/
def signed (neg : Bool) (n : ℕ) : ℤ := if neg then -n else n

/-- The text of a number. -/
def intText (num : Int32) : List UInt8 :=
  if num = 0 then [48]
  else
    (digitBytes (num = Int32.minValue) num.toInt.natAbs ++ if num < 0 then [45] else []).reverse

/-! ### The digit loop -/

theorem toInt_div_ten {num : Int32} {neg : Bool} {n : ℕ} (h : num.toInt = signed neg n) :
    (num / 10).toInt = signed neg (n / 10) := by
  rw [Int32.toInt_div_of_ne_right _ _ (by decide), h]
  show (signed neg n).tdiv 10 = signed neg (n / 10)
  unfold signed
  split_ifs
  · rw [Int.neg_tdiv]
    rfl
  · rfl

theorem digitChar_eq {num : Int32} {neg : Bool} {n : ℕ} (h : num.toInt = signed neg n) :
    digitChar num = digitByte neg (n % 10) := by
  have hmod : (num % 10).toInt = signed neg (n % 10) := by
    rw [Int32.toInt_mod, h]
    show (signed neg n).tmod 10 = signed neg (n % 10)
    unfold signed
    split_ifs
    · rw [Int.neg_tmod]
      rfl
    · rfl
  have hnum : num % 10 = Int32.ofInt (signed neg (n % 10)) := by
    rw [← hmod, Int32.ofInt_toInt]
  have hlt : n % 10 < 10 := Nat.mod_lt n (by decide)
  unfold digitChar
  rw [hnum]
  generalize n % 10 = d at hlt
  cases neg <;> interval_cases d <;> decide

/-- The digit loop stores the digits, lowest first. -/
theorem digitLoop_eq {fuel k n : ℕ} (buffer : CharArray) (i : ℕ) {num : Int32} {neg : Bool}
    (h : num.toInt = signed neg n) (hn : n < 10 ^ k) (hk : k < fuel) :
    digitLoop fuel buffer i num
      = some (buffer.store i (digitBytes neg n), i + (digitBytes neg n).length) := by
  unfold digitBytes
  rw [List.length_map]
  refine digitLoop_rule (R := fun num n => num.toInt = signed neg n) (by decide) ?_ ?_ buffer i h hn
    hk
  · intro fuel buffer i num hnum
    have hzero : num = 0 := by
      rw [← Int32.toInt_inj, hnum]
      cases neg <;> rfl
    rw [digitLoop, if_neg (not_not.mpr hzero)]
  · intro fuel buffer i num n hnum hpos
    have hne : num ≠ 0 := by
      rintro rfl
      rw [show (0 : Int32).toInt = 0 from rfl] at hnum
      unfold signed at hnum
      split_ifs at hnum <;> omega
    refine ⟨num / 10, toInt_div_ten hnum, ?_⟩
    rw [digitLoop, if_pos hne, digitChar_eq hnum]

theorem zero_notMem_digitBytes (neg : Bool) (n : ℕ) : 0 ∉ digitBytes neg n := by
  intro hmem
  obtain ⟨d, hd, hbyte⟩ := List.mem_map.mp hmem
  have hlt : d < 10 := Nat.digits_lt_base (by decide) hd
  revert hbyte
  cases neg <;> interval_cases d <;> decide

theorem length_digitBytes_le (neg : Bool) {n k : ℕ} (hn : n < 10 ^ k) :
    (digitBytes neg n).length ≤ k := by
  unfold digitBytes
  rw [List.length_map]
  exact (Nat.digits_length_le_iff (by decide) n).mpr hn

/-! ### `int_to_string` -/

theorem natAbs_toInt_lt (num : Int32) : num.toInt.natAbs < 10 ^ 10 := by
  have hle := num.le_toInt
  have hlt := num.toInt_lt
  omega

/-- What `num = -num` leaves in `num`. -/
theorem toInt_negated (num : Int32) :
    (if decide (num < 0) = true then -num else num).toInt
      = signed (num = Int32.minValue) num.toInt.natAbs := by
  have hle := num.le_toInt
  have hlt := num.toInt_lt
  have hneg : num < 0 ↔ num.toInt < 0 := Int32.lt_iff_toInt_lt
  have hmin : num = Int32.minValue ↔ num.toInt = -2 ^ 31 := by
    rw [← Int32.toInt_inj]
    rfl
  unfold signed
  simp only [decide_eq_true_eq, hneg, hmin]
  split_ifs with hnum hleast hleast
  · rw [Int32.toInt_neg, hleast]
    decide
  · rw [Int32.toInt_neg, Int.bmod_eq_of_le (by omega) (by omega)]
    omega
  · omega
  · omega

/-- `buffer[i] = '\0'` and the reversal, which does not reach the `NUL`. -/
theorem terminate_reverse (buffer : CharArray) (s : List UInt8) :
    some (((buffer.store 0 s).set s.length 0).reverseLoop 0 (s.length - 1))
      = some ((buffer.store 0 s.reverse).set s.reverse.length 0) := by
  have hrev := reverseLoop_store (buffer.set s.length 0) 0 s
  rw [Nat.zero_add, set_store _ _ (by omega), set_store _ _ (by rw [List.length_reverse]; omega)]
    at hrev
  rw [hrev, List.length_reverse]

/-- **`int_to_string` leaves the text of its number.** -/
theorem intToString_eq (num : Int32) (buffer : CharArray) :
    intToString num buffer
      = some ((buffer.store 0 (intText num)).set (intText num).length 0) := by
  unfold intToString
  by_cases hnum : num = 0
  · rw [if_pos hnum]
    unfold intText
    rw [if_pos hnum]
    rfl
  · rw [if_neg hnum]
    have hfuel : 10 < digitFuel := by decide
    have hloop := digitLoop_eq buffer 0 (toInt_negated num) (natAbs_toInt_lt num) hfuel
    have htext : intText num = (digitBytes (num = Int32.minValue) num.toInt.natAbs
        ++ if num < 0 then [45] else []).reverse := if_neg hnum
    simp only [hloop, Option.bind_eq_bind, Option.bind_some]
    rw [htext]
    generalize digitBytes (num = Int32.minValue) num.toInt.natAbs = digits
    by_cases hneg : num < 0
    · simp only [hneg, decide_true, if_true]
      -- the sign goes behind the digits before all is reversed
      have hsign : (buffer.store 0 digits).set (0 + digits.length) 45
          = buffer.store 0 (digits ++ [45]) := (store_append buffer 0 digits [45]).symm
      have hlen : 0 + digits.length + 1 = (digits ++ [45]).length := by simp
      rw [hsign, hlen]
      exact terminate_reverse buffer (digits ++ [45])
    · simp only [hneg, decide_false, if_false, Bool.false_eq_true, List.append_nil]
      rw [Nat.zero_add]
      exact terminate_reverse buffer digits

theorem zero_notMem_intText (num : Int32) : 0 ∉ intText num := by
  unfold intText
  split_ifs
  · decide
  · rw [List.mem_reverse, List.mem_append, not_or]
    exact ⟨zero_notMem_digitBytes _ _, by decide⟩
  · rw [List.append_nil, List.mem_reverse]
    exact zero_notMem_digitBytes _ _

theorem length_intText_le (num : Int32) : (intText num).length ≤ 11 := by
  have hdigits := length_digitBytes_le (num = Int32.minValue) (natAbs_toInt_lt num)
  unfold intText
  split_ifs <;> simp <;> omega

/-! ### Decimal numerals -/

/-- Numbers other than the least one are printed in decimal. -/
theorem intText_eq {num : Int32} (h : num ≠ Int32.minValue) :
    intText num = (if num.toInt < 0 then [45] else []) ++ decimal.numeral num.toInt.natAbs := by
  have hneg : num < 0 ↔ num.toInt < 0 := Int32.lt_iff_toInt_lt
  by_cases hzero : num = 0
  · rw [hzero]
    rfl
  · have habs : num.toInt.natAbs ≠ 0 := by
      rw [Int.natAbs_ne_zero]
      intro hnum
      exact hzero (Int32.toInt_inj.mp hnum)
    have hbytes : digitBytes (num = Int32.minValue) num.toInt.natAbs
        = (Nat.digits 10 num.toInt.natAbs).map decimal.char := by
      rw [decide_eq_false h]
      rfl
    unfold intText Alphabet.numeral
    rw [if_neg hzero, if_neg habs, hbytes, List.reverse_append]
    simp only [hneg]
    split_ifs <;> rfl

/-- `int_to_string` leaves the decimal numeral of its number, in the first bytes of an array of
twelve. -/
def PrintsDecimal (num : Int32) (buffer : CharArray) : Prop :=
  ∃ out text, intToString num buffer = some out ∧ out.TextAt 0 text ∧
    IsSignedDecimal text num.toInt ∧ text.length + 1 ≤ 12 ∧
    ∀ j, text.length + 1 ≤ j → out j = buffer j

/-- The text that is left, and the bytes that are not touched. -/
theorem intToString_textAt (num : Int32) (buffer : CharArray) :
    ∃ out, intToString num buffer = some out ∧ out.TextAt 0 (intText num) ∧
      ∀ j, (intText num).length + 1 ≤ j → out j = buffer j := by
  refine ⟨_, intToString_eq num buffer, textAt_terminated buffer (zero_notMem_intText num), ?_⟩
  intro j hj
  exact terminated_of_lt buffer hj

/-- The digits of the least number are printed as characters below `'0'`. -/
theorem not_isSignedDecimal_least :
    ¬ IsSignedDecimal (intText Int32.minValue) Int32.minValue.toInt := by
  rintro ⟨⟨t, htext, hdecimal⟩, -⟩
  have hbytes : intText Int32.minValue = 45 :: ascii "./,),(-*,(" := by decide
  rw [hbytes] at htext
  obtain rfl : ascii "./,),(-*,(" = t := List.tail_eq_of_cons_eq htext
  exact absurd (hdecimal.digits 46 (by decide)) (by decide)

theorem not_printsDecimal_least (buffer : CharArray) : ¬ PrintsDecimal Int32.minValue buffer := by
  obtain ⟨out, hout, htext, -⟩ := intToString_textAt Int32.minValue buffer
  rintro ⟨out', text, hout', htext', hdecimal, -, -⟩
  obtain rfl : out = out' := Option.some.inj (hout.symm.trans hout')
  obtain rfl := htext'.unique htext
  exact not_isSignedDecimal_least hdecimal

/-- **`int_to_string` prints every number but the least one.** -/
theorem printsDecimal_iff (num : Int32) (buffer : CharArray) :
    PrintsDecimal num buffer ↔ num ≠ Int32.minValue := by
  constructor
  · rintro hprints rfl
    exact not_printsDecimal_least buffer hprints
  · intro hnum
    obtain ⟨out, hout, htext, hframe⟩ := intToString_textAt num buffer
    have hdecimal := isSignedDecimal_numeral num.toInt
    rw [← intText_eq hnum] at hdecimal
    have hlen := length_intText_le num
    exact ⟨out, intText num, hout, htext, hdecimal, by omega, hframe⟩

/-- `num = -num` leaves `-2147483648` as it is, and its digits are printed below `'0'`. -/
theorem least_not_printsDecimal :
    (intToString (-2147483648) zeros).bind (fun buffer => buffer.readString 12 0)
      = some (ascii "-./,),(-*,(") ∧
    ¬ PrintsDecimal (-2147483648) zeros := by
  refine ⟨?_, not_printsDecimal_least zeros⟩
  obtain ⟨out, hout, htext, -⟩ := intToString_textAt (-2147483648) zeros
  rw [hout, Option.bind_some, readString_eq htext (by decide)]
  decide

end Shogun.Terminal
