import Shogun.Logger.Format
import Shogun.Terminal.Equiv.IntToString
import Shogun.Util.Word32

/-!
# What the formatter writes

* `expand`: the full expansion of a format, `none` when its arguments do not match.
* `formatConversion_eq`, `formatLoop_eq`: the formatter copies the expansion as far as there is
  room.
* `simpleFormatString_eq`: and ends it with a `NUL`.
* `simpleFormatString_truncates`: what is left in the buffer is a prefix of the expansion.
-/

namespace Shogun.Logger

open CharArray Terminal Numeral

/-! ### The expansion of a format -/

/-- A lower-case hexadecimal digit. -/
def hexDigit (d : ℕ) : UInt8 := if d < 10 then UInt8.ofNat (48 + d) else UInt8.ofNat (87 + d)

/-- The lower-case hexadecimal digits of a number, highest first. -/
def hexText (n : UInt32) : List UInt8 :=
  if n = 0 then [48] else ((Nat.digits 16 n.toNat).map hexDigit).reverse

/-- The text `int_to_string` leaves in an array. -/
def intToStringText (num : Int32) : List UInt8 :=
  ((intToString num zeros).bind fun buffer => buffer.readString 12 0).getD []

/-- What a `%` and the character behind it stand for, and the arguments left. -/
def expandConversion (c : UInt8) (args : List Arg) : Option (List UInt8 × List Arg) :=
  if c = 115 then
    match args with
    | .str (some s) :: args => some (s.text, args)
    | .str none :: args => some ([], args)
    | _ => none
  else if c = 100 then
    match args with
    | .int num :: args => some (intToStringText num, args)
    | _ => none
  else if c = 120 then
    match args with
    | .uint num :: args => some (hexText num, args)
    | _ => none
  else some ([c], args)

/-- The full expansion of a format; `none` when an argument is missing or of the wrong type. -/
def expand : List UInt8 → List Arg → Option (List UInt8)
  | [], _ => some []
  | [c], _ => some [c]
  | c :: d :: src, args =>
    if c = 37 then do
      let (text, args) ← expandConversion d args
      let rest ← expand src args
      return text ++ rest
    else do
      let rest ← expand (d :: src) args
      return c :: rest

/-! ### The conversions -/

/-- What a conversion that finds its argument can be. -/
theorem expandConversion_cases {c : UInt8} {args args' : List Arg} {text : List UInt8}
    (h : expandConversion c args = some (text, args')) :
    (∃ s : CString, c = 115 ∧ args = .str (some s) :: args' ∧ text = s.text) ∨
    (c = 115 ∧ args = .str none :: args' ∧ text = []) ∨
    (∃ num, c = 100 ∧ args = .int num :: args' ∧ text = intToStringText num) ∨
    (∃ num, c = 120 ∧ args = .uint num :: args' ∧ text = hexText num) ∨
    (c ≠ 115 ∧ c ≠ 100 ∧ c ≠ 120 ∧ args' = args ∧ text = [c]) := by
  unfold expandConversion at h
  split_ifs at h with hs hd hx
  · split at h
    · cases h
      exact .inl ⟨_, hs, rfl, rfl⟩
    · cases h
      exact .inr (.inl ⟨hs, rfl, rfl⟩)
    · cases h
  · split at h
    · cases h
      exact .inr (.inr (.inl ⟨_, hd, rfl, rfl⟩))
    · cases h
  · split at h
    · cases h
      exact .inr (.inr (.inr (.inl ⟨_, hx, rfl, rfl⟩)))
    · cases h
  · cases h
    exact .inr (.inr (.inr (.inr ⟨hs, hd, hx, rfl, rfl⟩)))

theorem intToStringText_eq (num : Int32) : intToStringText num = intText num := by
  have hlen := length_intText_le num
  have htext := textAt_terminated zeros (zero_notMem_intText num)
  unfold intToStringText
  rw [intToString_eq, Option.bind_some, readString_eq htext (by omega), Option.getD_some]

theorem putIfRoom_eq (limit : ℕ) (c : UInt8) (out : CharArray × ℕ) :
    putIfRoom limit c out = copyUpTo limit out.1 out.2 [c] := rfl

theorem copyNumStr_eq {numStr : CharArray} {i : ℕ} {s : List UInt8} (h : numStr.TextAt i s)
    (limit : ℕ) (buffer : CharArray) (written : ℕ) :
    copyNumStr numStr (limit - written) buffer written i = copyUpTo limit buffer written s := by
  induction s generalizing buffer written i with
  | nil =>
    cases limit - written with
    | zero => rfl
    | succ room => exact if_pos h
  | cons c s ih =>
    obtain ⟨rfl, hne, hs⟩ := h
    by_cases hroom : written < limit
    · rw [show limit - written = limit - (written + 1) + 1 by omega, copyNumStr, if_neg hne,
        ih hs, copyUpTo, if_pos hroom]
    · rw [show limit - written = 0 by omega, copyUpTo_of_le (by omega)]
      rfl

theorem hexChar_eq (n : UInt32) : hexChar (n &&& 0xF) = hexDigit (n.toNat % 16) := by
  have hlt : n.toNat % 16 < 16 := Nat.mod_lt _ (by decide)
  rw [Word32.and_fifteen]
  generalize n.toNat % 16 = d at hlt
  interval_cases d <;> decide

/-- The nibble loop stores the hexadecimal digits, lowest first. -/
theorem nibbleLoop_eq {fuel k : ℕ} (temp : CharArray) (pos : ℕ) {n : UInt32}
    (hn : n.toNat < 16 ^ k) (hk : k < fuel) :
    nibbleLoop fuel temp pos n
      = some (temp.store pos ((Nat.digits 16 n.toNat).map hexDigit),
          pos + (Nat.digits 16 n.toNat).length) := by
  have hpos : ∀ n : UInt32, n > 0 ↔ 0 < n.toNat := by
    intro n
    rw [gt_iff_lt, UInt32.lt_iff_toNat_lt]
    rfl
  refine digitLoop_rule (R := fun n m => n.toNat = m) (by decide) ?_ ?_ temp pos rfl hn hk
  · intro fuel temp pos n hzero
    rw [nibbleLoop, if_neg (by rw [hpos]; omega)]
  · intro fuel temp pos n m hm hm0
    refine ⟨n >>> 4, by rw [Word32.toNat_shiftRight_four, hm], ?_⟩
    rw [nibbleLoop, if_pos (by rw [hpos]; omega), hexChar_eq, hm]

/-- Reading `temp` backwards. -/
theorem putTemp_eq (limit : ℕ) {temp : CharArray} {s : List UInt8}
    (h : ∀ k (hk : k < s.length), temp k = s[k]) (out : CharArray × ℕ) :
    putTemp limit temp s.length out = copyUpTo limit out.1 out.2 s.reverse := by
  induction s using List.reverseRecOn generalizing out with
  | nil => rfl
  | append_singleton s c ih =>
    have hlast : temp s.length = c := by
      rw [h s.length (by simp), List.getElem_concat_length rfl]
    have hinit : ∀ k (hk : k < s.length), temp k = s[k] := by
      intro k hk
      rw [h k (by simp; omega), List.getElem_append_left hk]
    rw [List.length_append, List.length_singleton, putTemp, hlast, putIfRoom_eq, ih hinit,
      ← copyUpTo_append, List.reverse_append, List.reverse_singleton]

theorem putTemp_nibbles (limit : ℕ) (temp : CharArray) {n : UInt32} (hn : n ≠ 0)
    (out : CharArray × ℕ) :
    putTemp limit (temp.store 0 ((Nat.digits 16 n.toNat).map hexDigit))
        (0 + (Nat.digits 16 n.toNat).length) out
      = copyUpTo limit out.1 out.2 (hexText n) := by
  have hbytes : ∀ k (hk : k < ((Nat.digits 16 n.toNat).map hexDigit).length),
      temp.store 0 ((Nat.digits 16 n.toNat).map hexDigit) k
        = ((Nat.digits 16 n.toNat).map hexDigit)[k] := by
    intro k hk
    rw [← store_apply temp _ hk, Nat.zero_add]
  have hread := putTemp_eq limit hbytes out
  rw [List.length_map] at hread
  unfold hexText
  rw [Nat.zero_add, hread, if_neg hn]

/-- A conversion copies what it stands for. -/
theorem formatConversion_eq (locals : FormatLocals) (limit : ℕ) {c : UInt8} (src : List UInt8)
    {args args' : List Arg} (out : CharArray × ℕ) {text : List UInt8}
    (h : expandConversion c args = some (text, args')) :
    formatConversion locals limit c src args out
      = some (args', copyUpTo limit out.1 out.2 text) := by
  rcases expandConversion_cases h with ⟨str, rfl, rfl, rfl⟩ | ⟨rfl, rfl, rfl⟩ |
    ⟨num, rfl, rfl, rfl⟩ | ⟨num, rfl, rfl, rfl⟩ | ⟨hs, hd, hx, rfl, rfl⟩
  · rfl
  · -- a `NULL` string is skipped
    rfl
  · have htext := textAt_terminated (locals.numStr src) (zero_notMem_intText num)
    show (intToString num (locals.numStr src)).bind _ = _
    rw [intToString_eq, Option.bind_some, copyNumStr_eq htext, intToStringText_eq]
    rfl
  · show (if num = 0 then _ else _) = _
    split_ifs with hzero
    · rw [hzero]
      rfl
    · have hlt : num.toNat < 16 ^ 8 := num.toNat_lt
      rw [nibbleLoop_eq _ _ hlt (by decide)]
      show some (_, putTemp limit _ _ out) = _
      rw [putTemp_nibbles limit _ hzero]
  · -- any other character stands for itself
    unfold formatConversion
    rw [if_neg hs, if_neg hd, if_neg hx, putIfRoom_eq]

/-! ### The formatter -/

/-- The loop copies the expansion of the format. -/
theorem formatLoop_eq (locals : FormatLocals) (limit : ℕ) :
    ∀ (src : List UInt8) (args : List Arg) (out : CharArray × ℕ) (text : List UInt8),
      expand src args = some text →
      formatLoop locals limit src args out = some (copyUpTo limit out.1 out.2 text)
  | [], _, _, _, h => by
    cases h
    rfl
  | [c], _, out, _, h => by
    cases h
    unfold formatLoop copyUpTo
    split_ifs <;> rfl
  | c :: d :: src, args, out, text, h => by
    unfold expand at h
    unfold formatLoop
    by_cases hroom : out.2 < limit
    · rw [if_pos hroom]
      split_ifs at h ⊢ with hpercent
      · obtain ⟨⟨t, args'⟩, hconv, h⟩ := Option.bind_eq_some_iff.mp h
        obtain ⟨rest, hrest, h⟩ := Option.bind_eq_some_iff.mp h
        cases h
        rw [formatConversion_eq locals limit src out hconv]
        show formatLoop locals limit src args' _ = _
        rw [formatLoop_eq locals limit src args' _ rest hrest, copyUpTo_append]
      · -- a character that is copied
        obtain ⟨rest, hrest, h⟩ := Option.bind_eq_some_iff.mp h
        cases h
        rw [formatLoop_eq locals limit (d :: src) args _ rest hrest, copyUpTo, if_pos hroom]
    · -- the buffer is full: the loop ends, and the rest of the text is cut
      rw [if_neg hroom, copyUpTo_of_le (by omega)]

/-- **The formatter leaves the part of the expansion that has room, ended by a `NUL`.** -/
theorem simpleFormatString_eq (locals : FormatLocals) (buffer : CharArray) (bufferSize : UInt32)
    {format : CString} {args : List Arg} {text : List UInt8}
    (h : expand format.text args = some text) :
    simpleFormatString locals buffer bufferSize format args
      = some ((copyUpTo (bufferSize - 1).toNat buffer 0 text).1.set
            (copyUpTo (bufferSize - 1).toNat buffer 0 text).2 0,
          (copyUpTo (bufferSize - 1).toNat buffer 0 text).2) := by
  unfold simpleFormatString
  rw [formatLoop_eq locals _ _ _ _ _ h]
  rfl

/-! ### Expansions are C strings -/

theorem zero_notMem_hexText (n : UInt32) : 0 ∉ hexText n := by
  unfold hexText
  split_ifs
  · decide
  · rw [List.mem_reverse]
    intro hmem
    obtain ⟨d, hd, hbyte⟩ := List.mem_map.mp hmem
    have hlt : d < 16 := Nat.digits_lt_base (by decide) hd
    revert hbyte
    interval_cases d <;> decide

theorem zero_notMem_expandConversion {c : UInt8} {args args' : List Arg} {text : List UInt8}
    (hc : c ≠ 0) (h : expandConversion c args = some (text, args')) : 0 ∉ text := by
  rcases expandConversion_cases h with ⟨str, -, -, rfl⟩ | ⟨-, -, rfl⟩ | ⟨num, -, -, rfl⟩ |
    ⟨num, -, -, rfl⟩ | ⟨-, -, -, -, rfl⟩
  · exact str.zero_notMem
  · exact List.not_mem_nil
  · rw [intToStringText_eq]
    exact zero_notMem_intText num
  · exact zero_notMem_hexText num
  · rw [List.mem_singleton]
    exact Ne.symm hc

theorem zero_notMem_expand :
    ∀ (src : List UInt8) (args : List Arg) (text : List UInt8),
      0 ∉ src → expand src args = some text → 0 ∉ text
  | [], _, _, hsrc, h => by
    cases h
    exact hsrc
  | [c], _, _, hsrc, h => by
    cases h
    exact hsrc
  | c :: d :: src, args, text, hsrc, h => by
    rw [List.mem_cons, not_or] at hsrc
    unfold expand at h
    split_ifs at h with hpercent
    · obtain ⟨⟨t, args'⟩, hconv, h⟩ := Option.bind_eq_some_iff.mp h
      obtain ⟨rest, hrest, h⟩ := Option.bind_eq_some_iff.mp h
      cases h
      rw [List.mem_cons, not_or] at hsrc
      rw [List.mem_append, not_or]
      exact ⟨zero_notMem_expandConversion (Ne.symm hsrc.2.1) hconv,
        zero_notMem_expand src args' rest hsrc.2.2 hrest⟩
    · obtain ⟨rest, hrest, h⟩ := Option.bind_eq_some_iff.mp h
      cases h
      rw [List.mem_cons, not_or]
      exact ⟨hsrc.1, zero_notMem_expand (d :: src) args rest hsrc.2 hrest⟩

/-! ### Truncation -/

/-- **The formatter truncates to a prefix.**  Nothing outside the buffer is written, and the buffer
holds as much of the expansion as fits.  The length is returned as an `int`, which is the length for
every array of at most `2 ^ 31` bytes. -/
theorem simpleFormatString_truncates (locals : FormatLocals) (buffer : CharArray)
    (bufferSize : UInt32) (format : CString) (args : List Arg) (text : List UInt8)
    (hsize : 1 ≤ bufferSize) (htext : expand format.text args = some text) :
    ∃ out, simpleFormatString locals buffer bufferSize format args
        = some (out, (text.take (bufferSize.toNat - 1)).length) ∧
      out.TextAt 0 (text.take (bufferSize.toNat - 1)) ∧
      (∀ j, bufferSize.toNat ≤ j → out j = buffer j) ∧
      (bufferSize.toNat ≤ 2 ^ 31 →
        (Int32.ofNat (text.take (bufferSize.toNat - 1)).length).toInt
          = (text.take (bufferSize.toNat - 1)).length) := by
  have hpos : 1 ≤ bufferSize.toNat := UInt32.le_iff_toNat_le.mp hsize
  have hlimit : (bufferSize - 1).toNat = bufferSize.toNat - 1 :=
    UInt32.toNat_sub_of_le bufferSize 1 hsize
  have hformat := simpleFormatString_eq locals buffer bufferSize htext
  rw [hlimit, copyUpTo_eq, Nat.sub_zero, Nat.zero_add] at hformat
  have hzero : 0 ∉ text.take (bufferSize.toNat - 1) := by
    intro hmem
    exact zero_notMem_expand _ _ _ format.zero_notMem htext (List.mem_of_mem_take hmem)
  have hlen := List.length_take_le (bufferSize.toNat - 1) text
  refine ⟨_, hformat, textAt_terminated buffer hzero, ?_, ?_⟩
  · intro j hj
    exact terminated_of_lt buffer (by omega)
  · intro hsmall
    apply Int32.toInt_ofNat_of_lt
    omega

/-- The limit falls into the conversion of a number. -/
theorem simpleFormatString_truncates_five :
    1 ≤ (5 : UInt32) ∧
    ∃ out, simpleFormatString ⟨fun _ => zeros, fun _ => zeros⟩ zeros 5
        ⟨ascii "a%x%", by decide⟩ [.uint 0xBEEF] = some (out, 4) ∧
      out.TextAt 0 (ascii "abee") ∧ (∀ j, 5 ≤ j → out j = zeros j) ∧
      (5 ≤ 2 ^ 31 → (Int32.ofNat 4).toInt = 4) :=
  ⟨by decide, simpleFormatString_truncates ⟨fun _ => zeros, fun _ => zeros⟩ zeros 5
    ⟨ascii "a%x%", by decide⟩ [.uint 0xBEEF] (ascii "abeef%") (by decide) (by decide)⟩

end Shogun.Logger
