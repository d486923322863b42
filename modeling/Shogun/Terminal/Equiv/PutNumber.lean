import Shogun.Terminal.Equiv.IntToString
import Shogun.Terminal.PutNumber
import Shogun.Util.Word32

/-!
# What the number printers pass to `output_string`

* `uintToString_eq`: `uint_to_string` leaves the decimal numeral of its number.
* `uintToString_decimal`: which is canonical, fits into eleven bytes and tells numbers apart.
* `putU64_eq`: `put_u64` prints the upper half and ten digits of the lower half, which is the
  decimal numeral of another number unless the upper half is zero (`printsU64_iff`).
* `putHex_eq`: `put_hex` prints eight upper-case digits behind `0x`.
-/

namespace Shogun.Terminal

open CharArray Numeral

/-! ### `put_i32` -/

/-- The text of a signed number fits into the array of `put_i32`. -/
theorem putI32_eq (buffer : CharArray) (num : Int32) :
    putI32 buffer num = some (intText num) := by
  obtain ⟨out, hout, htext, -⟩ := intToString_textAt num buffer
  have hlen := length_intText_le num
  unfold putI32
  rw [hout]
  exact readString_eq htext (by omega)

/-! ### `uint_to_string` -/

theorem uintDigitChar_eq (num : UInt32) : uintDigitChar num = decimal.char (num.toNat % 10) := by
  have hmod : num % 10 = UInt32.ofNat (num.toNat % 10) := by
    apply UInt32.toNat_inj.mp
    rw [UInt32.toNat_mod, UInt32.toNat_ofNat', show (10 : UInt32).toNat = 10 from rfl]
    omega
  have hlt : num.toNat % 10 < 10 := Nat.mod_lt _ (by decide)
  unfold uintDigitChar
  rw [hmod]
  generalize num.toNat % 10 = d at hlt
  interval_cases d <;> decide

theorem uintDigitLoop_eq {fuel k : ℕ} (buffer : CharArray) (i : ℕ) {num : UInt32}
    (hn : num.toNat < 10 ^ k) (hk : k < fuel) :
    uintDigitLoop fuel buffer i num
      = some (buffer.store i ((Nat.digits 10 num.toNat).map decimal.char),
          i + (Nat.digits 10 num.toNat).length) := by
  refine digitLoop_rule (R := fun num n => num.toNat = n) (by decide) ?_ ?_ buffer i rfl hn hk
  · intro fuel buffer i num hnum
    rw [uintDigitLoop, if_neg (not_not.mpr ((Word32.eq_zero_iff num).mpr hnum))]
  · intro fuel buffer i num n hnum hpos
    refine ⟨num / 10, ?_, ?_⟩
    · rw [UInt32.toNat_div, hnum]
      rfl
    · rw [uintDigitLoop, if_pos (by rw [ne_eq, Word32.eq_zero_iff]; omega),
        uintDigitChar_eq, hnum]

/-- The decimal numeral of an unsigned number. -/
def uintText (num : UInt32) : List UInt8 := decimal.numeral num.toNat

theorem uintToString_eq (num : UInt32) (buffer : CharArray) :
    uintToString num buffer
      = some ((buffer.store 0 (uintText num)).set (uintText num).length 0) := by
  unfold uintToString
  by_cases hnum : num = 0
  · rw [if_pos hnum, hnum]
    rfl
  · have hne : num.toNat ≠ 0 := fun h => hnum (UInt32.toNat_inj.mp h)
    have hlt : num.toNat < 10 ^ 10 := num.toNat_lt.trans (by decide)
    have htext : uintText num = ((Nat.digits 10 num.toNat).map decimal.char).reverse := if_neg hne
    rw [if_neg hnum, uintDigitLoop_eq buffer 0 hlt (by decide)]
    show some ((CharArray.set _ _ _).reverseLoop 0 _) = _
    rw [htext, Nat.zero_add, ← List.length_map decimal.char]
    exact terminate_reverse buffer _

theorem zero_notMem_uintText (num : UInt32) : 0 ∉ uintText num := by
  intro hmem
  have hdigit := (isDecimal_numeral num.toNat).digits 0 hmem
  exact absurd hdigit (by decide)

theorem length_uintText_le (num : UInt32) : (uintText num).length ≤ 10 :=
  decimal.length_numeral_le (num.toNat_lt.trans (by decide)) (by decide)

/-- The text that is left, and the bytes that are not touched. -/
theorem uintToString_textAt (num : UInt32) (buffer : CharArray) :
    ∃ out, uintToString num buffer = some out ∧ out.TextAt 0 (uintText num) ∧
      ∀ j, (uintText num).length + 1 ≤ j → out j = buffer j := by
  refine ⟨_, uintToString_eq num buffer, textAt_terminated buffer (zero_notMem_uintText num), ?_⟩
  intro j hj
  exact terminated_of_lt buffer hj

/-- **`uint_to_string` prints every number**, in at most eleven bytes with the `NUL`, and no other
number has its text. -/
theorem uintToString_decimal (num : UInt32) (buffer : CharArray) :
    ∃ out text, uintToString num buffer = some out ∧ out.TextAt 0 text ∧
      IsDecimal text num.toNat ∧ text.length + 1 ≤ 11 ∧
      (∀ j, text.length + 1 ≤ j → out j = buffer j) ∧
      ∀ num' buffer' out', uintToString num' buffer' = some out' → out'.TextAt 0 text →
        num' = num := by
  obtain ⟨out, hout, htext, hframe⟩ := uintToString_textAt num buffer
  have hlen := length_uintText_le num
  refine ⟨out, uintText num, hout, htext, isDecimal_numeral _, by omega, hframe, ?_⟩
  intro num' buffer' out' hout' htext'
  -- the text of the other number is the one its array holds
  obtain ⟨out'', hout'', htext'', -⟩ := uintToString_textAt num' buffer'
  obtain rfl : out'' = out' := Option.some.inj (hout''.symm.trans hout')
  exact UInt32.toNat_inj.mp (decimal.numeral_injective (htext''.unique htext'))

theorem readString_uintToString (num : UInt32) (buffer : CharArray) :
    (uintToString num buffer).bind (fun buffer => buffer.readString 11 0)
      = some (uintText num) := by
  obtain ⟨out, hout, htext, -⟩ := uintToString_textAt num buffer
  have hlen := length_uintText_le num
  rw [hout, Option.bind_some, readString_eq htext (by omega)]

theorem putU32_eq (buffer : CharArray) (num : UInt32) :
    putU32 buffer num = some (uintText num) := readString_uintToString num buffer

/-! ### `put_u64` -/

/-- A number of `k + 1` digits has `9 - k` zeros in front of it. -/
theorem replicate_zeros {lower : UInt32} (k : ℕ) (hlow : k = 0 ∨ 10 ^ k ≤ lower.toNat)
    (hhigh : lower.toNat < 10 ^ (k + 1)) :
    List.replicate (9 - k) (48 : UInt8) = List.replicate (10 - (uintText lower).length) 48 := by
  have hlen : (uintText lower).length = k + 1 := decimal.length_numeral hlow hhigh
  rw [hlen, Nat.add_comm k 1, ← Nat.sub_sub]

/-- The zeros make ten digits of the lower half. -/
theorem zeroPadding_append (lower : UInt32) :
    zeroPadding lower ++ uintText lower = decimal.fixed 10 lower.toNat := by
  have hlt : lower.toNat < 10 ^ 10 := lower.toNat_lt.trans (by decide)
  rw [decimal.fixed_eq hlt (by decide)]
  show zeroPadding lower ++ uintText lower
    = List.replicate (10 - (uintText lower).length) 48 ++ uintText lower
  congr 1
  unfold zeroPadding
  simp only [UInt32.lt_iff_toNat_lt, UInt32.reduceToNat]
  by_cases h0 : lower.toNat < 10
  · exact (if_pos h0).trans (replicate_zeros 0 (.inl rfl) h0)
  rw [if_neg h0]
  by_cases h1 : lower.toNat < 100
  · exact (if_pos h1).trans (replicate_zeros 1 (.inr (by omega)) h1)
  rw [if_neg h1]
  by_cases h2 : lower.toNat < 1000
  · exact (if_pos h2).trans (replicate_zeros 2 (.inr (by omega)) h2)
  rw [if_neg h2]
  by_cases h3 : lower.toNat < 10000
  · exact (if_pos h3).trans (replicate_zeros 3 (.inr (by omega)) h3)
  rw [if_neg h3]
  by_cases h4 : lower.toNat < 100000
  · exact (if_pos h4).trans (replicate_zeros 4 (.inr (by omega)) h4)
  rw [if_neg h4]
  by_cases h5 : lower.toNat < 1000000
  · exact (if_pos h5).trans (replicate_zeros 5 (.inr (by omega)) h5)
  rw [if_neg h5]
  by_cases h6 : lower.toNat < 10000000
  · exact (if_pos h6).trans (replicate_zeros 6 (.inr (by omega)) h6)
  rw [if_neg h6]
  by_cases h7 : lower.toNat < 100000000
  · exact (if_pos h7).trans (replicate_zeros 7 (.inr (by omega)) h7)
  rw [if_neg h7]
  by_cases h8 : lower.toNat < 1000000000
  · exact (if_pos h8).trans (replicate_zeros 8 (.inr (by omega)) h8)
  rw [if_neg h8]
  exact replicate_zeros 9 (.inr (by omega)) hlt

theorem toNat_upper (num : UInt64) : (num >>> 32).toUInt32.toNat = num.toNat / 2 ^ 32 := by
  have hlt := num.toNat_lt
  rw [UInt64.toNat_toUInt32, UInt64.toNat_shiftRight, show (32 : UInt64).toNat % 64 = 32 from rfl,
    Nat.shiftRight_eq_div_pow]
  omega

/-- What `put_u64` prints: the upper half weighs `10 ^ 10`, not `2 ^ 32`. -/
theorem putU64_eq (upperBuffer buffer : CharArray) (num : UInt64) :
    putU64 upperBuffer buffer num
      = some (decimal.numeral (num.toNat / 2 ^ 32 * 10 ^ 10 + num.toNat % 2 ^ 32)) := by
  have hupper := toNat_upper num
  have hlower : num.toUInt32.toNat = num.toNat % 2 ^ 32 := UInt64.toNat_toUInt32 num
  have hzero : (num >>> 32).toUInt32 = 0 ↔ num.toNat / 2 ^ 32 = 0 := by
    rw [Word32.eq_zero_iff, hupper]
  unfold putU64
  by_cases hhalf : (num >>> 32).toUInt32 = 0
  · have hhigh := hzero.mp hhalf
    rw [if_neg (not_not.mpr hhalf), putU32_eq, uintText, hlower, hhigh, Nat.zero_mul, Nat.zero_add]
  · have hhigh : 0 < num.toNat / 2 ^ 32 := Nat.pos_of_ne_zero fun h => hhalf (hzero.mpr h)
    have hlow : num.toNat % 2 ^ 32 < 10 ^ 10 := by omega
    rw [if_pos hhalf, putU32_eq]
    show ((uintToString num.toUInt32 buffer).bind fun buffer => (buffer.readString 11 0).bind
      fun lowerText => some (_ ++ zeroPadding num.toUInt32 ++ lowerText)) = _
    rw [← Option.bind_assoc, readString_uintToString, Option.bind_some, List.append_assoc,
      zeroPadding_append, uintText, hupper, hlower, decimal.numeral_append_fixed hhigh hlow]

/-- `put_u64` prints the decimal numeral of its number. -/
def PrintsU64 (upperBuffer buffer : CharArray) (num : UInt64) : Prop :=
  ∃ text, putU64 upperBuffer buffer num = some text ∧ IsDecimal text num.toNat

theorem not_printsU64 (upperBuffer buffer : CharArray) {num : UInt64} (h : 2 ^ 32 ≤ num.toNat) :
    ¬ PrintsU64 upperBuffer buffer num := by
  rintro ⟨text, htext, hdecimal⟩
  rw [putU64_eq] at htext
  obtain rfl := Option.some.inj htext
  have hvalue := hdecimal.unique (isDecimal_numeral _)
  omega

/-- **`put_u64` prints exactly the numbers that fit into 32 bits.** -/
theorem printsU64_iff (upperBuffer buffer : CharArray) (num : UInt64) :
    PrintsU64 upperBuffer buffer num ↔ num.toNat < 2 ^ 32 := by
  constructor
  · intro hprints
    by_contra hnum
    exact not_printsU64 upperBuffer buffer (not_lt.mp hnum) hprints
  · intro hnum
    refine ⟨_, putU64_eq upperBuffer buffer num, ?_⟩
    rw [Nat.div_eq_of_lt hnum, Nat.mod_eq_of_lt hnum, Nat.zero_mul, Nat.zero_add]
    exact isDecimal_numeral _

/-- `2 ^ 32` is printed as `10 ^ 10`. -/
theorem two_pow_32_not_printsU64 :
    putU64 zeros zeros 4294967296 = some (ascii "10000000000") ∧
    ¬ PrintsU64 zeros zeros 4294967296 := by
  refine ⟨?_, not_printsU64 zeros zeros (by decide)⟩
  rw [putU64_eq]
  decide

/-! ### `put_hex` -/

theorem hexChars_eq (num : UInt32) : hexChars (num &&& 0xF) = upperHex.char (num.toNat % 16) := by
  have hlt : num.toNat % 16 < 16 := Nat.mod_lt _ (by decide)
  rw [Word32.and_fifteen]
  generalize num.toNat % 16 = d at hlt
  interval_cases d <;> decide

/-- The loop fills the array from the right. -/
theorem hexLoop_eq (i : ℕ) (buffer : CharArray) (num : UInt32) :
    hexLoop i buffer num = buffer.store 2 (upperHex.fixed i num.toNat) := by
  induction i generalizing buffer num with
  | zero => rfl
  | succ i ih =>
    have hlen : 2 + (upperHex.fixed i (num.toNat / 16)).length = i + 1 + 1 := by
      rw [upperHex.length_fixed]
      omega
    rw [hexLoop, ih, Word32.toNat_shiftRight_four, hexChars_eq, set_store _ _ (by omega),
      Alphabet.fixed, store_append, hlen]
    rfl

/-- `put_hex` prints all eight digits. -/
theorem putHex_eq (buffer : CharArray) (num : UInt32) :
    putHex buffer num = some (ascii "0x" ++ upperHex.fixed 8 num.toNat) := by
  have hlen : (ascii "0x" ++ upperHex.fixed 8 num.toNat).length = 10 := by
    rw [List.length_append, upperHex.length_fixed]
    rfl
  have hzero : 0 ∉ ascii "0x" ++ upperHex.fixed 8 num.toNat := by
    have hchar : ∀ d < 16, 0 ≠ upperHex.char d := by decide
    rw [List.mem_append, not_or]
    refine ⟨by decide, ?_⟩
    intro hmem
    obtain ⟨d, hd, hdigit⟩ := upperHex.mem_fixed hmem
    exact hchar d hd hdigit
  have htext := textAt_terminated buffer hzero
  rw [hlen] at htext
  show ((hexLoop 8 ((buffer.set 0 48).set 1 120) num).set 10 0).readString 11 0 = _
  rw [hexLoop_eq]
  exact readString_eq htext (by omega)

end Shogun.Terminal
