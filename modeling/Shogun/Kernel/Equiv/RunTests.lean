import Shogun.Kernel.RunTests
import Shogun.Terminal.Equiv.PutNumber

/-!
# What the test harness reports

* `Assertion.call_eq`, `foldlM_call`: assertions print their lines and count themselves.
* `outcomes`: what the tests leave and which assertions they make, without the harness.
* `foldlM_runTest`: the loop of `run_tests`.
* `runTests_report`: the whole output, whose numbers are those of the assertions that hold and that
  fail, and whose last line says whether all hold.
-/

namespace Shogun.Kernel

open Terminal Numeral

/-! ### Texts -/

namespace Assertion

def passes : Assertion → Bool
  | .assert condition _ => condition
  | .assertEqual expected actual _ => expected = actual

def site : Assertion → Site
  | .assert _ site => site
  | .assertEqual _ _ site => site

/-- What stands behind the line number. -/
def tailText : Assertion → List UInt8
  | .assert _ _ => ascii ")\n"
  | .assertEqual expected actual _ =>
    ascii ") Expected: " ++ intText expected ++ ascii ", Actual: " ++ intText actual ++ ascii "\n"

end Assertion

def Site.text (site : Site) : List UInt8 :=
  site.message ++ ascii " (" ++ site.file ++ ascii ":" ++ intText site.line

def verdictText (passes : Bool) : List UInt8 := if passes then ascii "PASS: " else ascii "FAIL: "

/-- The line of an assertion. -/
def Assertion.text (a : Assertion) : List UInt8 :=
  verdictText a.passes ++ a.site.text ++ a.tailText

/-- The lines of a test. -/
def testText {σ : Type} (t : TestEntry σ) (assertions : List Assertion) : List UInt8 :=
  ascii "Running test: " ++ t.name ++ ascii "\n" ++ assertions.flatMap Assertion.text

/-! ### Assertions -/

section

variable (stack : List UInt8 → CharArray)

theorem Harness.putI32_eq (h : Harness) (num : Int32) :
    h.putI32 stack num = some (h.outputString (intText num)) := by
  rw [Harness.putI32, Terminal.putI32_eq]
  rfl

theorem Harness.outputString_outputString (h : Harness) (s t : List UInt8) :
    (h.outputString s).outputString t = h.outputString (s ++ t) := by
  simp only [Harness.outputString, List.append_assoc]

theorem Harness.outputSite_eq (h : Harness) (site : Site) :
    h.outputSite stack site = some (h.outputString site.text) := by
  simp only [Harness.outputSite, Harness.putI32_eq, Harness.outputString_outputString, Site.text,
    List.append_assoc]

theorem Harness.outputValues_eq (h : Harness) (expected actual : Int32) (site : Site) :
    h.outputValues stack expected actual
      = some (h.outputString (Assertion.assertEqual expected actual site).tailText) := by
  simp only [Harness.outputValues, Harness.putI32_eq, Harness.outputString_outputString,
    Option.bind_eq_bind, Option.bind_some, Option.pure_def, Assertion.tailText, List.append_assoc]

/-- The harness after an assertion. -/
def Harness.count (h : Harness) (a : Assertion) : Harness where
  testsPassed := h.testsPassed + if a.passes then 1 else 0
  testsFailed := h.testsFailed + if a.passes then 0 else 1
  out := h.out ++ a.text

theorem Assertion.call_eq (h : Harness) (a : Assertion) : a.call stack h = some (h.count a) := by
  cases a with
  | assert condition site =>
    unfold Assertion.call testAssert
    cases condition <;>
      simp [Harness.outputSite_eq, Harness.count, Assertion.passes, Assertion.text,
        Assertion.tailText, Assertion.site, verdictText, Harness.outputString]
  | assertEqual expected actual site =>
    unfold Assertion.call testAssertEqual
    by_cases heq : expected = actual <;>
      simp [heq, Harness.outputSite_eq, Harness.outputValues_eq _ _ _ _ site, Harness.count,
        Assertion.passes, Assertion.text, Assertion.site, verdictText, Harness.outputString]

/-- The harness after several assertions, with the text `text` printed. -/
def Harness.after (h : Harness) (assertions : List Assertion) (text : List UInt8) : Harness where
  testsPassed := h.testsPassed + Int32.ofNat (assertions.countP (·.passes))
  testsFailed := h.testsFailed + Int32.ofNat (assertions.countP (!·.passes))
  out := h.out ++ text

theorem Harness.after_nil (h : Harness) : h.after [] [] = h := by
  simp [Harness.after]

theorem Harness.after_after (h : Harness) (as bs : List Assertion) (s t : List UInt8) :
    (h.after as s).after bs t = h.after (as ++ bs) (s ++ t) := by
  simp only [Harness.after, List.countP_append, Int32.ofNat_add, List.append_assoc,
    Int32.add_assoc]

theorem Harness.count_eq (h : Harness) (a : Assertion) : h.count a = h.after [a] a.text := by
  cases hp : a.passes <;> simp [Harness.count, Harness.after, hp]

theorem Harness.outputString_eq (h : Harness) (str : List UInt8) :
    h.outputString str = h.after [] str := by
  simp [Harness.outputString, Harness.after]

theorem foldlM_call (h : Harness) (assertions : List Assertion) :
    assertions.foldlM (Assertion.call stack) h
      = some (h.after assertions (assertions.flatMap Assertion.text)) := by
  induction assertions generalizing h with
  | nil => exact congrArg some h.after_nil.symm
  | cons a assertions ih =>
    rw [List.foldlM_cons, Assertion.call_eq]
    show assertions.foldlM (Assertion.call stack) (h.count a) = _
    rw [ih, Harness.count_eq, Harness.after_after]
    rfl

/-! ### The tests -/

variable {σ : Type}

/-- What the tests leave, and the assertions each of them makes. -/
def outcomes : List (TestEntry σ) → σ → Option (σ × List (List Assertion))
  | [], world => some (world, [])
  | t :: tests, world => do
    let (world, assertions) ← t.func world
    let (world, rest) ← outcomes tests world
    return (world, assertions :: rest)

theorem runTest_eq (world : σ) (h : Harness) (t : TestEntry σ) :
    runTest stack (world, h) t
      = (t.func world).map fun r => (r.1, h.after r.2 (testText t r.2)) := by
  unfold runTest
  cases t.func world with
  | none => rfl
  | some r =>
    simp only [Harness.outputString_eq, Harness.after_after, Option.bind_eq_bind, Option.bind_some,
      foldlM_call, Option.pure_def, Option.map_some]
    simp [testText]

theorem foldlM_runTest (tests : List (TestEntry σ)) (world : σ) (h : Harness) :
    tests.foldlM (runTest stack) (world, h)
      = (outcomes tests world).map fun r =>
          (r.1, h.after r.2.flatten (List.zipWith testText tests r.2).flatten) := by
  induction tests generalizing world h with
  | nil =>
    show some (world, h) = some (world, h.after [] [])
    rw [Harness.after_nil]
  | cons t tests ih =>
    rw [List.foldlM_cons, runTest_eq, outcomes]
    cases t.func world with
    | none => rfl
    | some r =>
      simp only [Option.map_some, Option.bind_eq_bind, Option.bind_some, ih, Harness.after_after]
      cases outcomes tests r.1 with
      | none => rfl
      | some r' => rfl

end

/-! ### The report -/

theorem toInt_ofNat {n : ℕ} (h : n < 2 ^ 31) : (Int32.ofNat n).toInt = n := by
  rw [Int32.toInt_ofNat_of_lt h]

/-- The harness prints counts in decimal. -/
theorem intText_ofNat {n : ℕ} (h : n < 2 ^ 31) : intText (Int32.ofNat n) = decimal.numeral n := by
  have hnat := toInt_ofNat h
  have hne : Int32.ofNat n ≠ Int32.minValue := by
    intro heq
    have hmin : Int32.minValue.toInt = -2 ^ 31 := by decide
    rw [heq, hmin] at hnat
    omega
  rw [intText_eq hne, hnat, if_neg (by omega), List.nil_append, Int.natAbs_natCast]

theorem ofNat_eq_zero_iff {n : ℕ} (h : n < 2 ^ 31) : Int32.ofNat n = 0 ↔ n = 0 := by
  have hnat := toInt_ofNat h
  constructor
  · intro hzero
    rw [hzero] at hnat
    have : (0 : Int32).toInt = 0 := rfl
    omega
  · rintro rfl
    rfl

/-- The output of `run_tests`. -/
def reportText {σ : Type} (tests : List (TestEntry σ)) (results : List (List Assertion)) :
    List UInt8 :=
  ascii "Running " ++ decimal.numeral tests.length ++ ascii " tests...\n\n"
    ++ (List.zipWith testText tests results).flatten
    ++ ascii "\nTest Results: " ++ decimal.numeral (results.flatten.countP (·.passes))
    ++ ascii " passed, " ++ decimal.numeral (results.flatten.countP (!·.passes))
    ++ ascii " failed\n"
    ++ if results.flatten.all (·.passes) then ascii "All tests passed!\n"
      else ascii "Some tests failed!\n"

theorem all_iff_countP (assertions : List Assertion) :
    assertions.all (·.passes) = true ↔ assertions.countP (!·.passes) = 0 := by
  rw [List.all_eq_true, List.countP_eq_zero]
  simp

/-- **The report tells the outcomes.**  Whatever the tests are and work on: if each of them returns,
`run_tests` prints the line of every assertion in order, then how many of them hold and how many
fail, and `All tests passed!` exactly if none fails.  The counters are ints, so there have to be
fewer assertions than `2 ^ 31`. -/
theorem runTests_report {σ : Type} {tests : List (TestEntry σ)} {world world' : σ}
    {results : List (List Assertion)} (hout : outcomes tests world = some (world', results))
    (htests : tests.length < 2 ^ 31) (hcount : results.flatten.length < 2 ^ 31)
    (stack : List UInt8 → CharArray) (h : Harness) :
    runTests stack tests world h
      = some (world',
          { testsPassed := Int32.ofNat (results.flatten.countP (·.passes))
            testsFailed := Int32.ofNat (results.flatten.countP (!·.passes))
            out := h.out ++ reportText tests results }) := by
  have hpassed : results.flatten.countP (·.passes) < 2 ^ 31 :=
    List.countP_le_length.trans_lt hcount
  have hfailed : results.flatten.countP (!·.passes) < 2 ^ 31 :=
    List.countP_le_length.trans_lt hcount
  unfold runTests
  simp only [Harness.putI32_eq, Harness.outputString_eq, Harness.after_after, Option.bind_eq_bind,
    Option.bind_some, foldlM_runTest, hout, Option.map_some, Option.pure_def]
  simp only [Harness.after, List.nil_append, List.append_nil, Int32.zero_add,
    ofNat_eq_zero_iff hfailed, intText_ofNat htests, intText_ofNat hpassed, intText_ofNat hfailed,
    ← all_iff_countP]
  by_cases hall : results.flatten.all (·.passes) = true
  · simp only [hall, if_pos, reportText, List.append_assoc]
  · simp only [hall, reportText, List.append_assoc]
    rfl

end Shogun.Kernel
