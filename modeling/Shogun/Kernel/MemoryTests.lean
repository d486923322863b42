import Shogun.Kernel.RunTests
import Shogun.Memory.Allocator
import Shogun.Util.Loop

/-!
# The tests of the heap (`kernel.c`)

The four tests that `run_memory_tests` gives to the harness, on the heap of the kernel.  They write
to the blocks they get and read them back.
-/

namespace Shogun.Kernel

open Memory

/-- An assertion in `kernel.c`. -/
def kernelSite (message : String) (line : Int32) : Site :=
  ⟨ascii message, ascii "src/kernel.c", line⟩

/-- `*(int*)a = v`. -/
def storeInt (h : Heap) (a : UInt32) (v : Int32) : Heap :=
  { h with mem := h.mem.store32 a v.toUInt32 }

/-- `*(int*)a`. -/
def loadInt (h : Heap) (a : UInt32) : Int32 := (h.mem.load32 a).toInt32

/-- `*(char*)a = c`. -/
def storeChar (h : Heap) (a : UInt32) (c : UInt8) : Heap :=
  { h with mem := fun b => if b = a then c else h.mem b }

/-- `*(char*)a`, as an int; `char` is signed. -/
def loadChar (h : Heap) (a : UInt32) : Int32 := (h.mem a).toInt8.toInt32

/-- `if (ptr != NULL) { free(ptr); }` -/
def freeIfNotNull (h : Heap) (ptr : UInt32) : Option Heap := if ptr ≠ 0 then free h ptr else some h

def testMemoryAllocBasic (h : Heap) : Option (Heap × List Assertion) := do
  let (h, ptr) ← malloc h 10
  let h' ← freeIfNotNull h ptr
  return (h', [.assert (ptr != 0) (kernelSite "Basic allocation should succeed" 247)])

def testMemoryAllocZero (h : Heap) : Option (Heap × List Assertion) := do
  let (h, ptr) ← malloc h 0
  let h ← freeIfNotNull h ptr
  return (h, [])

/-- `&numbers[i]`. -/
def element (numbers : UInt32) (i : ℕ) : UInt32 := numbers + 4 * UInt32.ofNat i

def testMemoryAllocAndFree (h : Heap) : Option (Heap × List Assertion) := do
  let (h, numbers) ← malloc h (5 * 4)
  let allocated : Assertion :=
    .assert (numbers != 0) (kernelSite "Array allocation should succeed" 262)
  if numbers ≠ 0 then
    let h := forLoop 5 (fun i h => storeInt h (element numbers i) (Int32.ofNat (i * 10))) h
    let values := (List.range 5).map fun i =>
      Assertion.assertEqual (Int32.ofNat (i * 10)) (loadInt h (element numbers i))
        (kernelSite "Array values should be correct" 271)
    let h ← free h numbers
    return (h, allocated :: values)
  else return (h, [allocated])

def testMemoryMultipleAllocFree (h : Heap) : Option (Heap × List Assertion) := do
  let (h, str1) ← malloc h 20
  let (h, arr1) ← malloc h (10 * 4)
  let (h, str2) ← malloc h 30
  let allocated : List Assertion :=
    [.assert (str1 != 0) (kernelSite "First string allocation should succeed" 283),
      .assert (arr1 != 0) (kernelSite "Array allocation should succeed" 284),
      .assert (str2 != 0) (kernelSite "Second string allocation should succeed" 285)]
  if str1 ≠ 0 ∧ arr1 ≠ 0 ∧ str2 ≠ 0 then
    let h := storeChar h str1 65
    let h := storeInt h arr1 100
    let h := storeChar h str2 66
    let values : List Assertion :=
      [.assertEqual 65 (loadChar h str1) (kernelSite "First string should hold value" 292),
        .assertEqual 100 (loadInt h arr1) (kernelSite "Array should hold value" 293),
        .assertEqual 66 (loadChar h str2) (kernelSite "Second string should hold value" 294)]
    let h ← free h arr1
    let h ← free h str1
    let h ← free h str2
    return (h, allocated ++ values)
  else return (h, allocated)

/-- The array `memory_tests`. -/
def memoryTests : List (TestEntry Heap) :=
  [⟨ascii "memory_alloc_basic", testMemoryAllocBasic⟩,
    ⟨ascii "memory_alloc_zero", testMemoryAllocZero⟩,
    ⟨ascii "memory_alloc_and_free", testMemoryAllocAndFree⟩,
    ⟨ascii "memory_multiple_alloc_free", testMemoryMultipleAllocFree⟩]

def runMemoryTests (stack : List UInt8 → CharArray) : Heap → Harness → Option (Heap × Harness) :=
  runTests stack memoryTests

end Shogun.Kernel
