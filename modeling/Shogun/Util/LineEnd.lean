import Mathlib.Data.List.Basic
import Mathlib.Data.UInt

/-!
# Line ends

`crlf` puts a carriage return in front of every newline, and `uncrlf` takes one away from in front
of every newline.

`uncrlf_crlf`: no text is lost, whatever carriage returns it has itself; so `crlf` is injective.
-/

/-- `s` with a carriage return in front of every newline. -/
def crlf : List UInt8 → List UInt8
  | [] => []
  | c :: s => if c = 10 then 13 :: c :: crlf s else c :: crlf s

/-- `s` without the carriage return in front of a newline, for every newline. -/
def uncrlf : List UInt8 → List UInt8
  | [] => []
  | [c] => [c]
  | c :: d :: s => if c = 13 ∧ d = 10 then d :: uncrlf s else c :: uncrlf (d :: s)

/-- A translated text does not begin with a newline. -/
theorem head?_crlf_ne (s : List UInt8) : (crlf s).head? ≠ some 10 := by
  cases s with
  | nil => simp [crlf]
  | cons c s =>
    rw [crlf]
    split_ifs with hc
    · simp
    · simpa using hc

/-- In front of a text that does not begin with a newline a character stays. -/
theorem uncrlf_cons {s : List UInt8} (h : s.head? ≠ some 10) (c : UInt8) :
    uncrlf (c :: s) = c :: uncrlf s := by
  cases s with
  | nil => rfl
  | cons d s =>
    rw [uncrlf, if_neg]
    rintro ⟨-, rfl⟩
    exact h rfl

theorem uncrlf_crlf (s : List UInt8) : uncrlf (crlf s) = s := by
  induction s with
  | nil => rfl
  | cons c s ih =>
    rw [crlf]
    split_ifs with hc
    · rw [uncrlf, if_pos ⟨rfl, hc⟩, ih]
    · rw [uncrlf_cons (head?_crlf_ne s), ih]
