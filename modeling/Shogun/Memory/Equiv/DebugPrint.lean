import Shogun.Memory.DebugPrint
import Shogun.Memory.Equiv.AllocateRun
import Shogun.Memory.Equiv.Deallocate
import Shogun.Terminal.Equiv.PutNumber

/-!
# The dump tells the free list

* `debugPrintFreeList_eq`: the dump of a free list is `freeListText`, a line for each segment.
* `hexText_append`: an address can be read off the front of a text.
* `linesText_injective`: lists with the same lines are the same; the size of a segment is read off
  the two addresses in front of it.
* `debugPrintFreeList_determines`: two heaps print the same exactly if their free lists are the
  same.
-/

namespace Shogun.Memory

open LinkedList Numeral Terminal

/-! ### The text -/

/-- An address as `put_hex` prints it. -/
def hexText (num : UInt32) : List UInt8 := ascii "0x" ++ upperHex.fixed 8 num.toNat

/-- The address of the first segment of a list, as it stands in the line in front of it. -/
def nextText : List FreeSegment → List UInt8
  | [] => ascii "0x0"
  | s :: _ => hexText s.addr

/-- The line of a segment with `rest` behind it. -/
def lineText (s : FreeSegment) (rest : List FreeSegment) : List UInt8 :=
  hexText s.addr ++ (ascii ": " ++ (hexText (s.addr + sizeofFreeSegment + s.size)
    ++ (ascii ", FreeSegment \x7b size: " ++ (uintText s.size ++ (ascii ", next_segment: "
    ++ (nextText rest ++ ascii " \x7d\\n"))))))

def linesText : List FreeSegment → List UInt8
  | [] => []
  | s :: rest => lineText s rest ++ linesText rest

def freeListText : List FreeSegment → List UInt8
  | [] => ascii "Free list is empty\\n"
  | s :: rest => linesText (s :: rest)

/-! ### The loop -/

section Loop

variable (stack : List UInt8 → CharArray) {h : Heap} {pre rest : List FreeSegment} {s : FreeSegment}

theorem printHex_eq (out : List UInt8) (num : UInt32) :
    printHex stack out num = some (out ++ hexText num) := by
  rw [printHex, putHex_eq]
  rfl

theorem printU32_eq (out : List UInt8) (num : UInt32) :
    printU32 stack out num = some (out ++ uintText num) := by
  rw [printU32, putU32_eq]
  rfl

theorem printSegment_eq (hs : h.FreeList (pre ++ s :: rest)) (out : List UInt8) :
    printSegment stack h out s.addr = some (out ++ lineText s rest) := by
  have hsize := hs.size s (by simp)
  have hnext : h.nextSegment s.addr = Heap.headAddr rest := hs.nextSegment_eq
  unfold printSegment
  simp only [printHex_eq, printU32_eq, Option.bind_eq_bind, Option.bind_some, hsize, hnext,
    Option.pure_def]
  cases rest with
  | nil => simp [lineText, nextText]
  | cons t rest =>
    have ht : t.addr ≠ 0 := hs.addr_ne_zero (by simp)
    simp [lineText, nextText, ht]

theorem debugPrintLoop_eq (rest : List FreeSegment) : ∀ (pre : List FreeSegment) (fuel : ℕ)
    (out : List UInt8), rest.length < fuel → h.FreeList (pre ++ rest) →
    debugPrintLoop stack h fuel out (Heap.headAddr rest) = some (out ++ linesText rest) := by
  induction rest with
  | nil =>
    intro pre fuel out hfuel hs
    obtain ⟨fuel, rfl⟩ := Nat.exists_eq_add_one.mpr (Nat.zero_lt_of_lt hfuel)
    simp [debugPrintLoop, linesText]
  | cons s rest ih =>
    intro pre fuel out hfuel hs
    obtain ⟨fuel, rfl⟩ := Nat.exists_eq_add_one.mpr (Nat.zero_lt_of_lt hfuel)
    have hs0 : s.addr ≠ 0 := hs.addr_ne_zero (by simp)
    have hnext : h.nextSegment s.addr = Heap.headAddr rest := hs.nextSegment_eq
    have hrest := fun out =>
      ih (pre ++ [s]) fuel out (by simpa using hfuel) (by simpa using hs)
    rw [debugPrintLoop, Heap.headAddr_cons, if_pos hs0, printSegment_eq stack hs,
      Option.bind_eq_bind, Option.bind_some, hnext, hrest, linesText, List.append_assoc]

theorem debugPrintFreeList_eq {segs : List FreeSegment} (hs : h.FreeList segs) (out : List UInt8) :
    debugPrintFreeList stack h out = some (out ++ freeListText segs) := by
  have hfirst : h.firstFree = Heap.headAddr segs := hs.firstFree_eq
  rw [debugPrintFreeList, hfirst]
  cases segs with
  | nil => rfl
  | cons s segs =>
    have hs0 : s.addr ≠ 0 := hs.addr_ne_zero (by simp)
    rw [Heap.headAddr_cons, if_neg hs0, ← Heap.headAddr_cons s segs]
    exact debugPrintLoop_eq stack (s :: segs) [] _ out hs.length_lt hs

end Loop

/-! ### Reading it back -/

section Reading

variable {s s' : FreeSegment} {rest rest' : List FreeSegment} {x y : List UInt8}

theorem length_hexText (num : UInt32) : (hexText num).length = 10 := by
  rw [hexText, List.length_append, upperHex.length_fixed]
  rfl

/-- An address can be read off the front of a text. -/
theorem hexText_append {a b : UInt32} (h : hexText a ++ x = hexText b ++ y) : a = b ∧ x = y := by
  obtain ⟨htext, hrest⟩ := List.append_inj h (by rw [length_hexText, length_hexText])
  refine ⟨?_, hrest⟩
  have hvalue : ∀ c : UInt32, parseNat 16 (upperHex.fixed 8 c.toNat) = some c.toNat :=
    fun c => upperHex.parseNat_fixed c.toNat_lt (by decide)
  have hdigits := List.append_cancel_left htext
  apply UInt32.toNat_inj.mp
  apply Option.some.inj
  rw [← hvalue a, hdigits, hvalue b]

/-- `0x0` is no address that `put_hex` prints. -/
theorem zeroText_append_ne {a : UInt32} :
    ascii "0x0" ++ (ascii " \x7d\\n" ++ x) ≠ hexText a ++ y := by
  intro h
  rw [hexText, List.append_assoc, show ascii "0x0" = ascii "0x" ++ ascii "0" from rfl,
    List.append_assoc] at h
  have hdigits := congrArg (·[1]?) (List.append_cancel_left h)
  have hlen := upperHex.length_fixed 8 a.toNat
  have hmem : (upperHex.fixed 8 a.toNat)[1]? = some 32 := by
    have hleft := @List.getElem?_append_left _ (upperHex.fixed 8 a.toNat) y 1 (by omega)
    exact hleft.symm.trans hdigits.symm
  obtain ⟨d, hd, hchar⟩ := upperHex.mem_fixed (List.mem_of_getElem? hmem)
  have hdigit : ∀ d < 16, 32 ≠ upperHex.char d := by decide
  exact hdigit d hd hchar

/-- The link of a line, and what is behind it. -/
theorem nextText_append
    (h : nextText rest ++ (ascii " \x7d\\n" ++ x) = nextText rest' ++ (ascii " \x7d\\n" ++ y)) :
    x = y := by
  cases rest with
  | nil =>
    cases rest' with
    | nil => exact List.append_cancel_left (List.append_cancel_left h)
    | cons t rest' => exact absurd h zeroText_append_ne
  | cons t rest =>
    cases rest' with
    | nil => exact absurd h.symm zeroText_append_ne
    | cons t' rest' => exact List.append_cancel_left (hexText_append h).2

theorem lineText_append (h : lineText s rest ++ x = lineText s' rest' ++ y) : s = s' ∧ x = y := by
  simp only [lineText, List.append_assoc] at h
  obtain ⟨haddr, h⟩ := hexText_append h
  obtain ⟨hend, h⟩ := hexText_append (List.append_cancel_left h)
  -- the size is the distance of the two addresses, less the header
  rw [haddr] at hend
  have hsize : s.size = s'.size := add_left_cancel hend
  rw [hsize] at h
  have h := List.append_cancel_left (List.append_cancel_left (List.append_cancel_left h))
  refine ⟨?_, nextText_append h⟩
  cases s
  cases s'
  cases haddr
  cases hsize
  rfl

theorem linesText_ne_nil (s : FreeSegment) (rest : List FreeSegment) :
    linesText (s :: rest) ≠ [] := by
  intro h
  have hlen := congrArg List.length h
  simp [linesText, lineText, length_hexText] at hlen

/-- Lists with the same lines are the same. -/
theorem linesText_injective {segs segs' : List FreeSegment} (h : linesText segs = linesText segs') :
    segs = segs' := by
  induction segs generalizing segs' with
  | nil =>
    cases segs' with
    | nil => rfl
    | cons s' rest' => exact absurd h.symm (linesText_ne_nil s' rest')
  | cons s rest ih =>
    cases segs' with
    | nil => exact absurd h (linesText_ne_nil s rest)
    | cons s' rest' =>
      obtain ⟨rfl, hrest⟩ := lineText_append h
      rw [ih hrest]

theorem emptyText_ne (s : FreeSegment) (rest : List FreeSegment) :
    ascii "Free list is empty\\n" ≠ linesText (s :: rest) := by
  intro h
  have hhead := congrArg List.head? h
  exact absurd hhead (by simp [linesText, lineText, hexText, ascii])

theorem freeListText_injective {segs segs' : List FreeSegment}
    (h : freeListText segs = freeListText segs') : segs = segs' := by
  cases segs with
  | nil =>
    cases segs' with
    | nil => rfl
    | cons s' rest' => exact absurd h (emptyText_ne s' rest')
  | cons s rest =>
    cases segs' with
    | nil => exact absurd h.symm (emptyText_ne s rest)
    | cons s' rest' => exact linesText_injective h

end Reading

/-- **The dump tells the free list.**  On every heap with a free list `debug_print_free_list`
returns, and what it prints on two heaps is the same exactly if their lists have the same segments
in the same order. -/
theorem debugPrintFreeList_determines {h h' : Heap} {segs segs' : List FreeSegment}
    (hs : h.FreeList segs) (hs' : h'.FreeList segs') (stack stack' : List UInt8 → CharArray)
    (out out' : List UInt8) :
    ∃ text text', debugPrintFreeList stack h out = some (out ++ text) ∧
      debugPrintFreeList stack' h' out' = some (out' ++ text') ∧ (text = text' ↔ segs = segs') := by
  refine ⟨freeListText segs, freeListText segs', debugPrintFreeList_eq stack hs out,
    debugPrintFreeList_eq stack' hs' out', freeListText_injective, ?_⟩
  rintro rfl
  rfl

theorem debugPrintFreeList_determines_smallHeap :
    smallHeap.FreeList [⟨4096, 88⟩] ∧ Heap.FreeList ⟨fun _ => 0, 0⟩ [] ∧
      ∃ text text', debugPrintFreeList (fun _ => CharArray.zeros) smallHeap [] = some text ∧
        debugPrintFreeList (fun _ => CharArray.zeros) ⟨fun _ => 0, 0⟩ [] = some text' ∧
        text ≠ text' := by
  have hempty : Heap.FreeList ⟨fun _ => 0, 0⟩ [] := by decide
  obtain ⟨text, text', hprint, hprint', hiff⟩ :=
    debugPrintFreeList_determines smallHeap_freeList hempty (fun _ => CharArray.zeros)
      (fun _ => CharArray.zeros) [] []
  refine ⟨smallHeap_freeList, hempty, text, text', hprint, hprint', ?_⟩
  intro heq
  exact absurd (hiff.mp heq) (List.cons_ne_nil _ _)

/-- The line of one segment. -/
example : freeListText [⟨4096, 88⟩]
    = ascii "0x00001000: 0x00001060, FreeSegment \x7b size: 88, next_segment: 0x0 \x7d\\n" := by
  have hsize : uintText 88 = ascii "88" := by
    rw [uintText, show (88 : UInt32).toNat = 88 from rfl, decimal.numeral_of_ge (by decide),
      decimal.numeral_of_lt (by decide)]
    rfl
  rw [freeListText, linesText, lineText, hsize]
  decide

end Shogun.Memory
