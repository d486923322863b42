import Shogun.Logger.Equiv.Format
import Shogun.Terminal.Equiv.PutNumber

/-!
# The two hexadecimal printers

`put_hex` fills a fixed number of places from the right, `%x` collects nibbles and emits them
backwards.  `putHex_agrees`: both print the numeral of the same number, in upper case with all its
leading zeros and in lower case without any.
-/

namespace Shogun.Logger

open CharArray Terminal Numeral

/-- `%x` stands for the lower-case numeral. -/
theorem hexText_eq (num : UInt32) : hexText num = lowerHex.numeral num.toNat := by
  unfold hexText Alphabet.numeral
  simp only [Word32.eq_zero_iff]
  rfl

/-- A conversion that has room for its text stores all of it. -/
theorem copyUpTo_of_room {limit written : ℕ} {s : List UInt8} (h : written + s.length ≤ limit)
    (b : CharArray) : copyUpTo limit b written s = (b.store written s, written + s.length) := by
  rw [copyUpTo_eq, List.take_of_length_le (by omega)]

/-- The nibble loop stays in the first eight positions of `temp`. -/
theorem nibbleLoop_bounds (temp : CharArray) (num : UInt32) :
    ∃ temp' pos, nibbleLoop nibbleFuel temp 0 num = some (temp', pos) ∧ pos ≤ 8 ∧
      ∀ j, 8 ≤ j → temp' j = temp j := by
  have hlt : num.toNat < 16 ^ 8 := num.toNat_lt
  have hlen := (Nat.digits_length_le_iff (by decide) num.toNat).mpr hlt
  refine ⟨_, _, nibbleLoop_eq temp 0 hlt (by decide), by omega, ?_⟩
  intro j hj
  apply store_of_le
  rw [List.length_map]
  omega

/-- **`put_hex` and `%x` print the same numeral**, but for case, the `0x` and leading zeros. -/
theorem putHex_agrees (num : UInt32) (buffer : CharArray) (locals : FormatLocals) (limit : ℕ)
    (src : List UInt8) (args : List Arg) (out : CharArray × ℕ)
    (hroom : out.2 + (hexText num).length ≤ limit) :
    ∃ upper lower,
      putHex buffer num = some (ascii "0x" ++ upper) ∧
      upper.length = 8 ∧ (∀ c ∈ upper, c ∈ ascii "0123456789ABCDEF") ∧
      parseNat 16 upper = some num.toNat ∧
      formatConversion locals limit 120 src (.uint num :: args) out
        = some (args, out.1.store out.2 lower, out.2 + lower.length) ∧
      lower.length ≤ 8 ∧ (∀ c ∈ lower, c ∈ ascii "0123456789abcdef") ∧
      (lower.head? = some 48 → num = 0 ∧ lower = [48]) ∧
      parseNat 16 lower = some num.toNat ∧
      upper.map lowerCase = List.replicate (8 - lower.length) 48 ++ lower ∧
      ∃ temp pos, nibbleLoop nibbleFuel (locals.temp src) 0 num = some (temp, pos) ∧ pos ≤ 8 ∧
        ∀ j, 8 ≤ j → temp j = locals.temp src j := by
  have hlt : num.toNat < 16 ^ 8 := num.toNat_lt
  have hconv : expandConversion 120 (.uint num :: args) = some (hexText num, args) := rfl
  have hformat := formatConversion_eq locals limit src out hconv
  rw [copyUpTo_of_room hroom, hexText_eq] at hformat
  refine ⟨upperHex.fixed 8 num.toNat, lowerHex.numeral num.toNat, putHex_eq buffer num,
    upperHex.length_fixed 8 _, ?_, upperHex.parseNat_fixed hlt (by decide), hformat,
    lowerHex.length_numeral_le hlt (by decide), ?_, ?_, lowerHex.parseNat_numeral _, ?_,
    nibbleLoop_bounds (locals.temp src) num⟩
  · intro c hc
    have hchar : ∀ d < 16, upperHex.char d ∈ ascii "0123456789ABCDEF" := by decide
    obtain ⟨d, hd, rfl⟩ := upperHex.mem_fixed hc
    exact hchar d hd
  · intro c hc
    have hchar : ∀ d < 16, lowerHex.char d ∈ ascii "0123456789abcdef" := by decide
    obtain ⟨d, hd, rfl⟩ := lowerHex.mem_numeral hc
    exact hchar d hd
  · -- only zero starts with a zero
    intro hhead
    have hzero := lowerHex.head?_numeral hhead
    rw [hzero]
    exact ⟨UInt32.toNat_inj.mp hzero, rfl⟩
  · rw [lowerCase_upperHex, lowerHex.fixed_eq hlt (by decide)]
    rfl

theorem putHex_agrees_beef :
    ∃ upper lower,
      putHex zeros 0xBEEF = some (ascii "0x" ++ upper) ∧ parseNat 16 upper = some 0xBEEF ∧
      formatConversion ⟨fun _ => zeros, fun _ => zeros⟩ 255 120 [] [.uint 0xBEEF] (zeros, 0)
        = some ([], zeros.store 0 lower, 0 + lower.length) ∧
      upper.map lowerCase = List.replicate (8 - lower.length) 48 ++ lower := by
  obtain ⟨upper, lower, hupper, -, -, hvalue, hlower, -, -, -, -, hcase, -⟩ :=
    putHex_agrees 0xBEEF zeros ⟨fun _ => zeros, fun _ => zeros⟩ 255 [] [] (zeros, 0)
      (by decide)
  exact ⟨upper, lower, hupper, hvalue, hlower, hcase⟩

end Shogun.Logger
