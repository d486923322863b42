import Shogun.Terminal.PutNumber

/-!
# The test harness (`test.c`)

A test works on what it tests, here of any type `σ`, and makes assertions.  Neither the counters nor
the output of the harness are within its reach, so a test is what it leaves of `σ` and the
assertions it makes, in order.

The output is what is passed to `output_string`.  `put_i32` has an uninitialised array on its stack;
`stack` is what it holds, by what was printed before the call.
-/

namespace Shogun.Kernel

open Terminal

/-- The static counters of `test.c`, and the output. -/
structure Harness where
  testsPassed : Int32
  testsFailed : Int32
  out : List UInt8
  deriving DecidableEq, Repr

/-- The arguments of an assertion that only go to the output. -/
structure Site where
  message : List UInt8
  file : List UInt8
  line : Int32
  deriving DecidableEq, Repr

/-- A call of `test_assert` or of `test_assert_equal`. -/
inductive Assertion where
  | assert (condition : Bool) (site : Site)
  | assertEqual (expected actual : Int32) (site : Site)
  deriving DecidableEq, Repr

/-- `test_entry_t`. -/
structure TestEntry (σ : Type) where
  name : List UInt8
  func : σ → Option (σ × List Assertion)

section

variable (stack : List UInt8 → CharArray)

def Harness.outputString (h : Harness) (str : List UInt8) : Harness :=
  { h with out := h.out ++ str }

def Harness.putI32 (h : Harness) (num : Int32) : Option Harness :=
  (Terminal.putI32 (stack h.out) num).map h.outputString

/-- The calls that print where an assertion is. -/
def Harness.outputSite (h : Harness) (site : Site) : Option Harness :=
  let h := h.outputString site.message
  let h := h.outputString (ascii " (")
  let h := h.outputString site.file
  let h := h.outputString (ascii ":")
  h.putI32 stack site.line

/-- The calls that print what `test_assert_equal` has compared. -/
def Harness.outputValues (h : Harness) (expected actual : Int32) : Option Harness := do
  let h := h.outputString (ascii ") Expected: ")
  let h ← h.putI32 stack expected
  let h := h.outputString (ascii ", Actual: ")
  let h ← h.putI32 stack actual
  return h.outputString (ascii "\n")

def testAssert (h : Harness) (condition : Bool) (site : Site) : Option Harness :=
  if condition then do
    let h := h.outputString (ascii "PASS: ")
    let h ← h.outputSite stack site
    let h := h.outputString (ascii ")\n")
    return { h with testsPassed := h.testsPassed + 1 }
  else do
    let h := h.outputString (ascii "FAIL: ")
    let h ← h.outputSite stack site
    let h := h.outputString (ascii ")\n")
    return { h with testsFailed := h.testsFailed + 1 }

def testAssertEqual (h : Harness) (expected actual : Int32) (site : Site) : Option Harness :=
  if expected = actual then do
    let h := h.outputString (ascii "PASS: ")
    let h ← h.outputSite stack site
    let h ← h.outputValues stack expected actual
    return { h with testsPassed := h.testsPassed + 1 }
  else do
    let h := h.outputString (ascii "FAIL: ")
    let h ← h.outputSite stack site
    let h ← h.outputValues stack expected actual
    return { h with testsFailed := h.testsFailed + 1 }

def Assertion.call (h : Harness) : Assertion → Option Harness
  | .assert condition site => testAssert stack h condition site
  | .assertEqual expected actual site => testAssertEqual stack h expected actual site

variable {σ : Type}

/-- The body of the loop of `run_tests`. -/
def runTest (s : σ × Harness) (t : TestEntry σ) : Option (σ × Harness) := do
  let h := s.2.outputString (ascii "Running test: ")
  let h := h.outputString t.name
  let h := h.outputString (ascii "\n")
  let (world, assertions) ← t.func s.1
  let h ← assertions.foldlM (Assertion.call stack) h
  return (world, h)

/-- `num_tests` is the length of the array. -/
def runTests (tests : List (TestEntry σ)) (world : σ) (h : Harness) : Option (σ × Harness) := do
  let h := { h with testsPassed := 0, testsFailed := 0 }
  let h := h.outputString (ascii "Running ")
  let h ← h.putI32 stack (Int32.ofNat tests.length)
  let h := h.outputString (ascii " tests...\n\n")
  let (world, h) ← tests.foldlM (runTest stack) (world, h)
  let h := h.outputString (ascii "\nTest Results: ")
  let h ← h.putI32 stack h.testsPassed
  let h := h.outputString (ascii " passed, ")
  let h ← h.putI32 stack h.testsFailed
  let h := h.outputString (ascii " failed\n")
  if h.testsFailed = 0 then return (world, h.outputString (ascii "All tests passed!\n"))
  else return (world, h.outputString (ascii "Some tests failed!\n"))

end

end Shogun.Kernel
