import Mathlib.Data.Nat.Digits.Lemmas
import Shogun.Util.CString

/-!
# Numerals

An `Alphabet b` says which character each digit of the base `b` is written as.

* `parseNat b s`: the number that the text `s` denotes in base `b`.
* `Alphabet.numeral`: the numeral of a number, without leading zeros; `parseNat_numeral` reads it
  back.
* `Alphabet.fixed`: the numeral with a given number of digits; `fixed_eq` says which zeros stand in
  front, and `numeral_append_fixed` what it means behind another numeral.
* `digitLoop_rule`: a loop that takes a digit off a number and stores its character, until the
  number is zero, stores the characters of all digits, lowest first.
-/

namespace Numeral

/-! ### Reading -/

/-- The digit a character stands for, letters being those of hexadecimal numerals. -/
def digitValue (c : UInt8) : Option ℕ :=
  if 48 ≤ c ∧ c ≤ 57 then some (c.toNat - 48)
  else if 97 ≤ c ∧ c ≤ 102 then some (c.toNat - 87)
  else if 65 ≤ c ∧ c ≤ 70 then some (c.toNat - 55)
  else none

/-- The number read so far, one character further. -/
def parseStep (b value : ℕ) (c : UInt8) : Option ℕ := do
  let d ← digitValue c
  if d < b then some (b * value + d) else none

/-- The number the digits `s` denote, highest digit first; `none` if one of them is no digit. -/
def parseDigits (b : ℕ) (s : List UInt8) : Option ℕ := s.foldlM (parseStep b) 0

/-- The number the text `s` denotes in base `b`; the empty text denotes none. -/
def parseNat (b : ℕ) (s : List UInt8) : Option ℕ := if s = [] then none else parseDigits b s

theorem parseDigits_concat (b : ℕ) (s : List UInt8) (c : UInt8) :
    parseDigits b (s ++ [c]) = (parseDigits b s).bind fun value => parseStep b value c := by
  unfold parseDigits
  rw [List.foldlM_append]
  cases List.foldlM (parseStep b) 0 s with
  | none => rfl
  | some value => exact bind_pure (parseStep b value c)

/-! ### Writing -/

/-- The characters of the digits of a base. -/
structure Alphabet (b : ℕ) where
  char : ℕ → UInt8
  base : 1 < b
  digitValue_char : ∀ d, d < b → digitValue (char d) = some d

namespace Alphabet

variable {b : ℕ} (A : Alphabet b)

/-- The numeral of `n`, highest digit first and without leading zeros. -/
def numeral (n : ℕ) : List UInt8 :=
  if n = 0 then [A.char 0] else ((Nat.digits b n).map A.char).reverse

/-- The last `k` digits of `n`, highest first. -/
def fixed : ℕ → ℕ → List UInt8
  | 0, _ => []
  | k + 1, n => fixed k (n / b) ++ [A.char (n % b)]

theorem numeral_of_lt {n : ℕ} (h : n < b) : A.numeral n = [A.char n] := by
  unfold numeral
  split_ifs with hn
  · rw [hn]
  · rw [Nat.digits_of_lt b n hn h]
    rfl

theorem numeral_of_ge {n : ℕ} (h : b ≤ n) :
    A.numeral n = A.numeral (n / b) ++ [A.char (n % b)] := by
  have hb := A.base
  have hn : n ≠ 0 := by omega
  have hdiv : n / b ≠ 0 := (Nat.div_pos h (by omega)).ne'
  unfold numeral
  rw [if_neg hn, if_neg hdiv, Nat.digits_def' hb (by omega), List.map_cons, List.reverse_cons]

theorem numeral_ne_nil (n : ℕ) : A.numeral n ≠ [] := by
  by_cases h : n < b
  · rw [A.numeral_of_lt h]
    exact List.cons_ne_nil _ _
  · rw [A.numeral_of_ge (not_lt.mp h)]
    exact List.append_ne_nil_of_right_ne_nil _ (List.cons_ne_nil _ _)

/-- A numeral has no more digits than needed. -/
theorem length_numeral_le {n k : ℕ} (h : n < b ^ k) (hk : 0 < k) :
    (A.numeral n).length ≤ k := by
  unfold numeral
  split_ifs with hn
  · exact hk
  · rw [List.length_reverse, List.length_map]
    exact (Nat.digits_length_le_iff A.base n).mpr h

theorem lt_length_numeral {n k : ℕ} (h : b ^ k ≤ n) : k < (A.numeral n).length := by
  have hn : n ≠ 0 := by
    have := Nat.pow_pos (n := k) (Nat.lt_of_succ_lt A.base)
    omega
  unfold numeral
  rw [if_neg hn, List.length_reverse, List.length_map]
  exact (Nat.lt_digits_length_iff A.base n).mpr h

/-- A number from `b ^ k` on and below `b ^ (k + 1)` has `k + 1` digits, and so has one below `b`
for `k = 0`. -/
theorem length_numeral {n k : ℕ} (hlow : k = 0 ∨ b ^ k ≤ n) (hhigh : n < b ^ (k + 1)) :
    (A.numeral n).length = k + 1 := by
  have hle := A.length_numeral_le hhigh (Nat.succ_pos k)
  rcases hlow with rfl | hlow
  · have hpos := List.length_pos_iff.mpr (A.numeral_ne_nil n)
    omega
  · have hlt := A.lt_length_numeral hlow
    omega

theorem mem_numeral {n : ℕ} {c : UInt8} (h : c ∈ A.numeral n) : ∃ d, d < b ∧ c = A.char d := by
  unfold numeral at h
  split_ifs at h
  · exact ⟨0, by have := A.base; omega, List.mem_singleton.mp h⟩
  · obtain ⟨d, hd, rfl⟩ := List.mem_map.mp (List.mem_reverse.mp h)
    exact ⟨d, Nat.digits_lt_base A.base hd, rfl⟩

theorem char_injective {d e : ℕ} (hd : d < b) (he : e < b) (h : A.char d = A.char e) : d = e := by
  have hvalue := A.digitValue_char d hd
  rw [h, A.digitValue_char e he] at hvalue
  exact (Option.some.inj hvalue).symm

/-- Only the numeral of zero starts with a zero. -/
theorem head?_numeral {n : ℕ} (h : (A.numeral n).head? = some (A.char 0)) : n = 0 := by
  by_contra hn
  have hb := A.base
  have hdigits : Nat.digits b n ≠ [] := Nat.digits_ne_nil_iff_ne_zero.mpr hn
  -- the highest digit comes last in `Nat.digits`
  have hlast := Nat.getLast_digit_ne_zero b hn
  rw [numeral, if_neg hn, List.head?_reverse, List.getLast?_map,
    List.getLast?_eq_getLast_of_ne_nil hdigits, Option.map_some] at h
  have hlt := Nat.digits_lt_base hb (List.getLast_mem hdigits)
  exact hlast (A.char_injective hlt (by omega) (Option.some.inj h))

/-! ### Reading back -/

theorem parseStep_char (value : ℕ) {d : ℕ} (hd : d < b) :
    parseStep b value (A.char d) = some (b * value + d) := by
  unfold parseStep
  rw [A.digitValue_char d hd]
  exact if_pos hd

theorem parseDigits_numeral (n : ℕ) : parseDigits b (A.numeral n) = some n := by
  have hb := A.base
  induction n using Nat.strong_induction_on with
  | _ n ih =>
    by_cases h : n < b
    · rw [A.numeral_of_lt h]
      show parseDigits b ([] ++ [A.char n]) = some n
      rw [parseDigits_concat]
      show parseStep b 0 (A.char n) = some n
      rw [A.parseStep_char 0 h, Nat.mul_zero, Nat.zero_add]
    · rw [A.numeral_of_ge (not_lt.mp h), parseDigits_concat,
        ih (n / b) (Nat.div_lt_self (by omega) hb), Option.bind_some,
        A.parseStep_char _ (Nat.mod_lt n (by omega)), Nat.div_add_mod]

/-- A numeral denotes its number. -/
theorem parseNat_numeral (n : ℕ) : parseNat b (A.numeral n) = some n :=
  (if_neg (A.numeral_ne_nil n)).trans (A.parseDigits_numeral n)

/-- Numbers with the same numeral are equal. -/
theorem numeral_injective {m n : ℕ} (h : A.numeral m = A.numeral n) : m = n := by
  have hm := A.parseNat_numeral m
  rw [h, A.parseNat_numeral n] at hm
  exact (Option.some.inj hm).symm

/-! ### Numerals of a fixed width -/

/-- The digits in front of the last one. -/
theorem div_lt_pow {b k n : ℕ} (h : n < b ^ (k + 1)) : n / b < b ^ k := by
  rw [Nat.pow_succ'] at h
  exact Nat.div_lt_of_lt_mul h

@[simp]
theorem length_fixed (k n : ℕ) : (A.fixed k n).length = k := by
  induction k generalizing n with
  | zero => rfl
  | succ k ih => rw [fixed, List.length_append, ih, List.length_singleton]

theorem mem_fixed {k n : ℕ} {c : UInt8} (h : c ∈ A.fixed k n) : ∃ d, d < b ∧ c = A.char d := by
  have hb := A.base
  induction k generalizing n with
  | zero => exact absurd h List.not_mem_nil
  | succ k ih =>
    rcases List.mem_append.mp h with h | h
    · exact ih h
    · exact ⟨n % b, Nat.mod_lt n (by omega), List.mem_singleton.mp h⟩

theorem fixed_zero (k : ℕ) : A.fixed k 0 = List.replicate k (A.char 0) := by
  induction k with
  | zero => rfl
  | succ k ih => rw [fixed, Nat.zero_div, Nat.zero_mod, ih, ← List.replicate_succ']

/-- The same digits in other characters. -/
theorem map_fixed (B : Alphabet b) {f : UInt8 → UInt8} (h : ∀ d, d < b → f (A.char d) = B.char d)
    (k n : ℕ) : (A.fixed k n).map f = B.fixed k n := by
  have hb := A.base
  induction k generalizing n with
  | zero => rfl
  | succ k ih =>
    rw [fixed, fixed, List.map_append, ih, List.map_singleton, h _ (Nat.mod_lt n (by omega))]

/-- Zeros fill the places a numeral leaves. -/
theorem fixed_eq {k n : ℕ} (h : n < b ^ k) (hk : 0 < k) :
    A.fixed k n = List.replicate (k - (A.numeral n).length) (A.char 0) ++ A.numeral n := by
  have hb := A.base
  induction k generalizing n with
  | zero => omega
  | succ k ih =>
    by_cases hn : n < b
    · rw [A.numeral_of_lt hn, fixed, Nat.div_eq_of_lt hn, Nat.mod_eq_of_lt hn, fixed_zero]
      rfl
    · rw [not_lt] at hn
      -- more than one digit: the last one is the same in both
      have hk0 : 0 < k := by
        rw [Nat.pos_iff_ne_zero]
        rintro rfl
        rw [Nat.zero_add, Nat.pow_one] at h
        omega
      rw [fixed, ih (div_lt_pow h) hk0, A.numeral_of_ge hn, List.length_append,
        List.length_singleton, Nat.add_sub_add_right, List.append_assoc]

/-- A numeral of fixed width behind another numeral makes one numeral. -/
theorem numeral_append_fixed {m k n : ℕ} (hm : 0 < m) (hn : n < b ^ k) :
    A.numeral m ++ A.fixed k n = A.numeral (m * b ^ k + n) := by
  have hb := A.base
  induction k generalizing n with
  | zero =>
    rw [Nat.pow_zero, Nat.lt_one_iff] at hn
    rw [hn, Nat.pow_zero, Nat.mul_one, Nat.add_zero]
    exact List.append_nil _
  | succ k ih =>
    have hsplit : m * b ^ (k + 1) + n = b * (m * b ^ k) + n := by
      rw [Nat.pow_succ]
      ring
    have hge : b ≤ b * (m * b ^ k) + n := by
      have hpos : 0 < m * b ^ k := Nat.mul_pos hm (Nat.pow_pos (by omega))
      have := Nat.le_mul_of_pos_right b hpos
      omega
    rw [hsplit, A.numeral_of_ge hge, Nat.mul_add_div (by omega), Nat.mul_add_mod,
      ← ih (div_lt_pow hn), fixed, List.append_assoc]

/-- A numeral of fixed width denotes its number. -/
theorem parseNat_fixed {k n : ℕ} (h : n < b ^ k) (hk : 0 < k) :
    parseNat b (A.fixed k n) = some n := by
  have hb := A.base
  have hdigits : ∀ {k n}, n < b ^ k → parseDigits b (A.fixed k n) = some n := by
    intro k
    induction k with
    | zero =>
      intro n h
      rw [Nat.pow_zero, Nat.lt_one_iff] at h
      rw [h]
      rfl
    | succ k ih =>
      intro n h
      rw [fixed, parseDigits_concat, ih (div_lt_pow h), Option.bind_some,
        A.parseStep_char _ (Nat.mod_lt n (by omega)), Nat.div_add_mod]
  have hne : A.fixed k n ≠ [] := by
    rw [← List.length_pos_iff, length_fixed]
    exact hk
  exact (if_neg hne).trans (hdigits h)

end Alphabet

/-! ### Storing digits -/

/-- The rule of loops `while (n != 0) { buffer[i++] = char(n % b); n = n / b; }`.  `R x n` says that
the variable `x` of the loop stands for the number `n`. -/
theorem digitLoop_rule {α : Type*} {loop : ℕ → CharArray → ℕ → α → Option (CharArray × ℕ)}
    {R : α → ℕ → Prop} {b : ℕ} {char : ℕ → UInt8} (hb : 1 < b)
    (hdone : ∀ fuel buffer i x, R x 0 → loop (fuel + 1) buffer i x = some (buffer, i))
    (hnext : ∀ fuel buffer i x n, R x n → 0 < n → ∃ y, R y (n / b) ∧
      loop (fuel + 1) buffer i x = loop fuel (buffer.set i (char (n % b))) (i + 1) y)
    {fuel k n : ℕ} (buffer : CharArray) (i : ℕ) {x : α} (hx : R x n) (hn : n < b ^ k)
    (hk : k < fuel) :
    loop fuel buffer i x
      = some (buffer.store i ((Nat.digits b n).map char), i + (Nat.digits b n).length) := by
  induction fuel generalizing buffer i x n k with
  | zero => omega
  | succ fuel ih =>
    by_cases hzero : n = 0
    · rw [hdone fuel buffer i x (hzero ▸ hx), hzero, Nat.digits_zero]
      rfl
    · have hpos : 0 < n := Nat.pos_of_ne_zero hzero
      have hk0 : k ≠ 0 := by
        rintro rfl
        rw [Nat.pow_zero] at hn
        omega
      obtain ⟨k, rfl⟩ := Nat.exists_eq_add_one_of_ne_zero hk0
      obtain ⟨y, hy, hstep⟩ := hnext fuel buffer i x n hx hpos
      -- the last digit is stored first, and a digit less is left
      rw [hstep, ih _ _ hy (Alphabet.div_lt_pow hn) (by omega), Nat.digits_def' hb hpos]
      congr 2
      rw [List.length_cons]
      omega

/-! ### Decimal and hexadecimal numerals -/

/-- The digits `'0'` to `'9'`. -/
def decimal : Alphabet 10 where
  char d := UInt8.ofNat (48 + d)
  base := by decide
  digitValue_char := by decide

/-- The digits `'0'` to `'9'` and the letters `'a'` to `'f'`. -/
def lowerHex : Alphabet 16 where
  char d := if d < 10 then UInt8.ofNat (48 + d) else UInt8.ofNat (87 + d)
  base := by decide
  digitValue_char := by decide

/-- The digits `'0'` to `'9'` and the letters `'A'` to `'F'`. -/
def upperHex : Alphabet 16 where
  char d := if d < 10 then UInt8.ofNat (48 + d) else UInt8.ofNat (55 + d)
  base := by decide
  digitValue_char := by decide

/-- The lower-case letter of a letter; other characters stay. -/
def lowerCase (c : UInt8) : UInt8 := if 65 ≤ c ∧ c ≤ 90 then c + 32 else c

theorem lowerCase_upperHex (k n : ℕ) :
    (upperHex.fixed k n).map lowerCase = lowerHex.fixed k n := by
  apply upperHex.map_fixed
  decide

/-- `s` is the canonical decimal numeral of `n`: nothing but digits, no leading zero. -/
structure IsDecimal (s : List UInt8) (n : ℕ) : Prop where
  digits : ∀ c ∈ s, 48 ≤ c ∧ c ≤ 57
  leading : s.head? = some 48 → s = [48]
  value : parseNat 10 s = some n

/-- The number a text with an optional minus sign denotes. -/
def parseInt : List UInt8 → Option ℤ
  | 45 :: s => (parseNat 10 s).map fun n : ℕ => -(n : ℤ)
  | s => (parseNat 10 s).map fun n : ℕ => (n : ℤ)

/-- `s` is the canonical decimal numeral of `n`: a minus sign exactly for a negative number, and
behind it that of its magnitude. -/
structure IsSignedDecimal (s : List UInt8) (n : ℤ) : Prop where
  digits : ∃ t, s = (if n < 0 then [45] else []) ++ t ∧ IsDecimal t n.natAbs
  value : parseInt s = some n

theorem isDecimal_numeral (n : ℕ) : IsDecimal (decimal.numeral n) n where
  digits := by
    intro c hc
    obtain ⟨d, hd, rfl⟩ := decimal.mem_numeral hc
    have hchar : ∀ d < 10, 48 ≤ decimal.char d ∧ decimal.char d ≤ 57 := by decide
    exact hchar d hd
  leading := by
    intro h
    rw [decimal.head?_numeral h]
    rfl
  value := decimal.parseNat_numeral n

theorem IsDecimal.unique {s : List UInt8} {m n : ℕ} (hm : IsDecimal s m) (hn : IsDecimal s n) :
    m = n := Option.some.inj (hm.value.symm.trans hn.value)

theorem isSignedDecimal_numeral (n : ℤ) :
    IsSignedDecimal ((if n < 0 then [45] else []) ++ decimal.numeral n.natAbs) n where
  digits := ⟨_, rfl, isDecimal_numeral n.natAbs⟩
  value := by
    split_ifs with hn
    · show (parseNat 10 (decimal.numeral n.natAbs)).map (fun n : ℕ => -(n : ℤ)) = some n
      rw [decimal.parseNat_numeral, Option.map_some]
      congr 1
      omega
    · rw [List.nil_append]
      -- the first character is a digit, so it is not taken for a sign
      have hdigits := (isDecimal_numeral n.natAbs).digits
      have hparse : parseInt (decimal.numeral n.natAbs)
          = (parseNat 10 (decimal.numeral n.natAbs)).map fun n : ℕ => (n : ℤ) := by
        unfold parseInt
        split
        · next s hs =>
          have hsign := hdigits 45 (by rw [hs]; exact List.mem_cons_self)
          exact absurd hsign (by decide)
        · rfl
      rw [hparse, decimal.parseNat_numeral, Option.map_some]
      congr 1
      omega

end Numeral
