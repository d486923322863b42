import Mathlib.Data.List.Nodup
import Mathlib.Logic.Function.Basic

/-!
# Singly linked lists

A singly linked list is a head pointer together with a `next` pointer in every node; `none` is the
null pointer.  `Chain next p xs q` says that following `next` from the pointer `p` visits exactly
the nodes `xs` and arrives at `q`; a whole list is a chain that ends at `none`.

`Links` bundles the head cell with the `next` cells, so that code that walks a list with a pointer
to the cell it came through (`node **prev`) can be modelled as it is written: a cell is `none` for
the head and `some x` for the `next` field of `x` (`Links.read`, `Links.write`).

* `Chain.unique`, `Chain.nodup`: a null-terminated chain is determined by its start and visits no
  node twice, so a list that ends is acyclic.
* `Chain.frame`, `Chain.redirect`: what writing a `next` field does to a chain.
* `Links.holds_push`, `Links.holds_unlink_head`, `Links.holds_unlink_after`: pushing at the head,
  and unlinking through the head cell or through a node's `next` cell.
* `nodes`: a chain can be computed.
* `Links.Cursor`: the invariant of a walk that unlinks nodes as it goes while others are pushed at
  the head; `advance`, `push`, `unlink_some` and `unlink_none` are its steps.
-/

namespace LinkedList

/-- Following `next` from `p` visits `xs` and arrives at `q`. -/
def Chain {ι : Type*} (next : ι → Option ι) : Option ι → List ι → Option ι → Prop
  | p, [], q => p = q
  | p, x :: xs, q => p = some x ∧ Chain next (next x) xs q

instance Chain.decidable {ι : Type*} [DecidableEq ι] (next : ι → Option ι) :
    ∀ (p : Option ι) (xs : List ι) (q : Option ι), Decidable (Chain next p xs q)
  | p, [], q => inferInstanceAs (Decidable (p = q))
  | p, x :: xs, q =>
    have := Chain.decidable next (next x) xs q
    inferInstanceAs (Decidable (p = some x ∧ Chain next (next x) xs q))

namespace Chain

variable {ι : Type*} {next next' : ι → Option ι} {p q r : Option ι} {x : ι} {xs ys : List ι}

@[simp]
theorem nil_iff : Chain next p [] q ↔ p = q := Iff.rfl

@[simp]
theorem cons_iff : Chain next p (x :: xs) q ↔ p = some x ∧ Chain next (next x) xs q := Iff.rfl

theorem append_iff :
    Chain next p (xs ++ ys) q ↔ ∃ r, Chain next p xs r ∧ Chain next r ys q := by
  induction xs generalizing p with
  | nil => simp
  | cons x xs ih =>
    simp only [List.cons_append, cons_iff, ih]
    constructor
    · rintro ⟨hp, r, h1, h2⟩
      exact ⟨r, ⟨hp, h1⟩, h2⟩
    · rintro ⟨r, ⟨hp, h1⟩, h2⟩
      exact ⟨hp, r, h1, h2⟩

/-- A null-terminated chain is determined by the pointer it starts from. -/
theorem unique (hx : Chain next p xs none) (hy : Chain next p ys none) : xs = ys := by
  induction xs generalizing p ys with
  | nil =>
    obtain rfl : p = none := hx
    cases ys with
    | nil => rfl
    | cons y ys => exact absurd hy.1 (by simp)
  | cons x xs ih =>
    obtain ⟨rfl, hx⟩ := hx
    cases ys with
    | nil => exact absurd hy (by simp)
    | cons y ys =>
      obtain ⟨hxy, hy⟩ := hy
      obtain rfl := Option.some.inj hxy
      rw [ih hx hy]

/-- A null-terminated chain visits no node twice: from a repeated node the rest of the chain would
be followed by itself. -/
theorem nodup (h : Chain next p xs none) : xs.Nodup := by
  induction xs generalizing p with
  | nil => exact List.nodup_nil
  | cons x xs ih =>
    obtain ⟨rfl, h⟩ := h
    refine List.nodup_cons.mpr ⟨fun hmem => ?_, ih h⟩
    obtain ⟨l₁, l₂, rfl⟩ := List.append_of_mem hmem
    obtain ⟨r, -, hr⟩ := append_iff.mp h
    have hlong : Chain next (some x) (x :: (l₁ ++ x :: l₂)) none := ⟨rfl, h⟩
    have hshort : Chain next (some x) (x :: l₂) none := ⟨rfl, hr.2⟩
    have heq := unique hlong hshort
    have hlen := congrArg List.length heq
    simp only [List.length_cons, List.length_append] at hlen
    omega

/-- Whatever is reached from the start of a null-terminated chain lies on it. -/
theorem isPrefix (hx : Chain next p xs none) (hy : Chain next p ys q) : ys <+: xs := by
  induction ys generalizing p xs with
  | nil => exact List.nil_prefix
  | cons y ys ih =>
    obtain ⟨rfl, hy⟩ := hy
    cases xs with
    | nil => exact absurd hx (by simp)
    | cons x xs =>
      obtain ⟨hxy, hx⟩ := hx
      obtain rfl := Option.some.inj hxy
      exact List.cons_prefix_cons.mpr ⟨rfl, ih hx hy⟩

/-- A chain only reads the `next` fields of its own nodes. -/
theorem frame (h : Chain next p xs q) (hn : ∀ x ∈ xs, next' x = next x) :
    Chain next' p xs q := by
  induction xs generalizing p with
  | nil => exact h
  | cons x xs ih =>
    refine ⟨h.1, ?_⟩
    rw [hn x List.mem_cons_self]
    exact ih h.2 fun y hy => hn y (List.mem_cons_of_mem _ hy)

/-- Rewriting the `next` field of the last node sends the chain wherever it now points. -/
theorem redirect (h : Chain next p (xs ++ [x]) q) (hn : ∀ y ∈ xs, next' y = next y) :
    Chain next' p (xs ++ [x]) (next' x) := by
  obtain ⟨r, hr, hx⟩ := append_iff.mp h
  exact append_iff.mpr ⟨r, frame hr hn, hx.1, rfl⟩

theorem head?_eq (h : Chain next p xs none) : p = xs.head? := by
  cases xs with
  | nil => exact h
  | cons x xs => exact h.1

/-- The nodes of a chain under other names. -/
theorem map {κ : Type*} {f : ι → κ} {next' : κ → Option κ} (h : Chain next p xs none)
    (hn : ∀ x ∈ xs, next' (f x) = (next x).map f) :
    Chain next' (p.map f) (xs.map f) none := by
  induction xs generalizing p with
  | nil =>
    obtain rfl : p = none := h
    rfl
  | cons x xs ih =>
    obtain ⟨rfl, h⟩ := h
    refine ⟨rfl, ?_⟩
    rw [hn x List.mem_cons_self]
    exact ih h fun y hy => hn y (List.mem_cons_of_mem _ hy)

end Chain

/-- The nodes that are visited from `p`, when the chain ends within `fuel` nodes. -/
def nodes {ι : Type*} (next : ι → Option ι) : ℕ → Option ι → Option (List ι)
  | _, none => some []
  | 0, some _ => none
  | fuel + 1, some x => (nodes next fuel (next x)).map (x :: ·)

theorem nodes_eq_some_iff {ι : Type*} {next : ι → Option ι} {fuel : ℕ} {p : Option ι}
    {xs : List ι} : nodes next fuel p = some xs ↔ Chain next p xs none ∧ xs.length ≤ fuel := by
  induction fuel generalizing p xs with
  | zero =>
    cases p <;> cases xs <;> simp [nodes]
  | succ fuel ih =>
    cases p with
    | none => cases xs <;> simp [nodes]
    | some x =>
      rw [nodes, Option.map_eq_some_iff]
      constructor
      · rintro ⟨ys, hys, rfl⟩
        obtain ⟨hc, hlen⟩ := ih.mp hys
        exact ⟨⟨rfl, hc⟩, Nat.succ_le_succ hlen⟩
      · rintro ⟨hc, hlen⟩
        cases xs with
        | nil => exact absurd hc (by simp)
        | cons y ys =>
          obtain ⟨hx, hc⟩ := hc
          obtain rfl := Option.some.inj hx
          exact ⟨ys, ih.mpr ⟨hc, Nat.le_of_succ_le_succ hlen⟩, rfl⟩

/-! ### The cells of a list -/

/-- The pointer cells of a linked list: the head and one `next` field for each node. -/
structure Links (ι : Type*) where
  /-- The head cell. -/
  head : Option ι
  /-- The `next` field of each node. -/
  next : ι → Option ι

namespace Links

variable {ι : Type*}

/-- The list `xs` hangs off the head cell. -/
def Holds (l : Links ι) (xs : List ι) : Prop := Chain l.next l.head xs none

/-- Following the pointers from the head cell leads to `x`. -/
def Reaches (l : Links ι) (x : ι) : Prop := ∃ xs q, Chain l.next l.head (xs ++ [x]) q

theorem Holds.mem_of_reaches {l : Links ι} {xs : List ι} {x : ι} (h : l.Holds xs)
    (hx : l.Reaches x) : x ∈ xs := by
  obtain ⟨ys, q, hc⟩ := hx
  exact (Chain.isPrefix h hc).subset (by simp)

theorem Holds.unique {l : Links ι} {xs ys : List ι} (hx : l.Holds xs) (hy : l.Holds ys) :
    xs = ys := Chain.unique hx hy

theorem Holds.nodup {l : Links ι} {xs : List ι} (h : l.Holds xs) : xs.Nodup := Chain.nodup h

theorem Holds.head_eq {l : Links ι} {xs : List ι} (h : l.Holds xs) : l.head = xs.head? :=
  Chain.head?_eq h

theorem Holds.next_eq {l : Links ι} {pre rest : List ι} {x : ι} (h : l.Holds (pre ++ x :: rest)) :
    l.next x = rest.head? := by
  obtain ⟨r, -, hx⟩ := Chain.append_iff.mp h
  exact Chain.head?_eq hx.2

theorem Holds.head_mem {l : Links ι} {xs : List ι} {x : ι} (h : l.Holds xs)
    (hx : l.head = some x) : x ∈ xs := by
  rw [h.head_eq] at hx
  exact List.mem_of_mem_head? hx

theorem Holds.next_mem {l : Links ι} {xs : List ι} {x y : ι} (h : l.Holds xs) (hx : x ∈ xs)
    (hy : l.next x = some y) : y ∈ xs := by
  obtain ⟨pre, rest, rfl⟩ := List.append_of_mem hx
  rw [h.next_eq] at hy
  exact List.mem_append_right _ (List.mem_cons_of_mem _ (List.mem_of_mem_head? hy))

section Write

variable [DecidableEq ι]

/-- `*cell = v`, where the cell is the head (`none`) or the `next` field of a node. -/
def write (l : Links ι) (cell v : Option ι) : Links ι :=
  match cell with
  | none => { l with head := v }
  | some x => { l with next := Function.update l.next x v }

/-- `y->next = head; head = y`. -/
def push (l : Links ι) (y : ι) : Links ι :=
  { head := some y, next := Function.update l.next y l.head }

variable {l : Links ι} {xs pre rest : List ι} {x y c : ι}

theorem holds_push (h : l.Holds xs) (hy : y ∉ xs) : (l.push y).Holds (y :: xs) := by
  refine ⟨rfl, ?_⟩
  show Chain (Function.update l.next y l.head) (Function.update l.next y l.head y) xs none
  rw [Function.update_self]
  refine Chain.frame h fun x hx => Function.update_of_ne ?_ _ _
  rintro rfl
  exact hy hx

/-- Unlinking `x` through the head cell drops `x` and everything in front of it. -/
theorem holds_unlink_head (h : l.Holds (pre ++ x :: rest)) :
    (l.write none (l.next x)).Holds rest := by
  obtain ⟨r, -, hx⟩ := Chain.append_iff.mp h
  exact hx.2

/-- Unlinking `x` through the `next` field of the node `c` in front of it drops `x` alone. -/
theorem holds_unlink_after (h : l.Holds (pre ++ c :: x :: rest)) :
    (l.write (some c) (l.next x)).Holds (pre ++ c :: rest) := by
  have hnd := h.nodup
  rw [show pre ++ c :: x :: rest = (pre ++ [c]) ++ (x :: rest) by simp] at h hnd
  rw [show pre ++ c :: rest = (pre ++ [c]) ++ rest by simp]
  obtain ⟨r, hpre, hx⟩ := Chain.append_iff.mp h
  obtain ⟨hnd1, hnd2, hdisj⟩ := List.nodup_append.mp hnd
  have hne : ∀ y ∈ pre, y ≠ c := by
    intro y hy hyc
    exact (List.nodup_append.mp hnd1).2.2 y hy c (by simp) hyc
  refine Chain.append_iff.mpr ⟨l.next x, ?_, Chain.frame hx.2 fun y hy => ?_⟩
  · have hred : Chain (Function.update l.next c (l.next x)) l.head (pre ++ [c]) _ :=
      Chain.redirect hpre fun y hy => Function.update_of_ne (hne y hy) _ _
    rwa [Function.update_self] at hred
  · refine Function.update_of_ne ?_ _ _
    rintro rfl
    exact hdisj y (by simp) y (List.mem_cons_of_mem _ hy) rfl

end Write

/-! ### Walking a list with a pointer to the cell behind -/

/-- A walk has passed `front` and is about to look at `rest`; `cell` is the cell it came through.
While that is still the head cell, `front` holds only what was pushed since the walk began. -/
structure Cursor (l : Links ι) (cell : Option ι) (front rest : List ι) : Prop where
  holds : l.Holds (front ++ rest)
  cell_eq : ∀ c, cell = some c → ∃ init, front = init ++ [c]

namespace Cursor

variable {l : Links ι} {xs front rest : List ι} {x : ι} {cell : Option ι}

theorem start (h : l.Holds xs) : Cursor l none [] xs := ⟨h, fun _ h => absurd h (by simp)⟩

theorem next_eq (h : Cursor l cell front (x :: rest)) : l.next x = rest.head? := h.holds.next_eq

/-- `prev = &x->next`. -/
theorem advance (h : Cursor l cell front (x :: rest)) : Cursor l (some x) (front ++ [x]) rest := by
  refine ⟨?_, fun c hc => ⟨front, by rw [Option.some.inj hc]⟩⟩
  rw [List.append_assoc]
  exact h.holds

variable [DecidableEq ι] {y c : ι}

theorem push (h : Cursor l cell front rest) (hy : y ∉ front ++ rest) :
    Cursor (l.push y) cell (y :: front) rest := by
  refine ⟨holds_push h.holds hy, fun c hc => ?_⟩
  obtain ⟨init, rfl⟩ := h.cell_eq c hc
  exact ⟨y :: init, rfl⟩

/-- A store through the cell behind leaves the `next` field of the node ahead alone. -/
theorem write_next (h : Cursor l cell front (x :: rest)) (v : Option ι) :
    (l.write cell v).next x = l.next x := by
  cases cell with
  | none => rfl
  | some c =>
    refine Function.update_of_ne ?_ _ _
    rintro rfl
    obtain ⟨init, rfl⟩ := h.cell_eq x rfl
    exact (List.nodup_append.mp h.holds.nodup).2.2 x (by simp) x (by simp) rfl

/-- `*prev = x->next` through a `next` field drops `x` alone. -/
theorem unlink_some (h : Cursor l (some c) front (x :: rest)) :
    Cursor (l.write (some c) (l.next x)) (some c) front rest := by
  obtain ⟨init, rfl⟩ := h.cell_eq c rfl
  refine ⟨?_, h.cell_eq⟩
  have hh := h.holds
  rw [List.append_assoc] at hh ⊢
  exact holds_unlink_after hh

/-- `*prev = x->next` through the head cell drops `x` and what was pushed in front of it. -/
theorem unlink_none (h : Cursor l none front (x :: rest)) :
    Cursor (l.write none (l.next x)) none [] rest :=
  start (holds_unlink_head h.holds)

end Cursor

end Links

end LinkedList
