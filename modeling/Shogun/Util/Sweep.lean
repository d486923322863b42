import Mathlib.Algebra.GroupWithZero.Nat
import Mathlib.Algebra.Order.Group.Nat
import Shogun.Util.LinkedList

/-!
# Sweeping a linked list

A sweep walks a list from its head with a pointer to the cell behind the node it looks at, unlinks
some of the nodes through that cell, and may push new nodes at the head before it decides about the
one it looks at.  Nodes are numbered in the order they are made, so the new ones are those from
`top` on.

`sweep` is the list that is left.  Until a first node stays, the cell behind is the head cell, and
unlinking through it also drops what was pushed since (`sweep_true`); afterwards nothing is lost
(`sweep_false`).  So a sweep loses nothing exactly when it pushes nothing before the first node that
stays (`pushed_mem_sweep_iff`).  `Sweeping` is the invariant of a sweep, with a lemma for each of
its two steps.
-/

namespace LinkedList.Links

/-- The elements before the first one that is not in `P`, in another numbering. -/
theorem takeWhile_map_of_eq {α β : Type*} {P : β → Bool} {Q : α → Bool} {f : α → β} {xs : List α}
    (h : ∀ x ∈ xs, P (f x) = Q x) : (xs.map f).takeWhile P = (xs.takeWhile Q).map f := by
  induction xs with
  | nil => rfl
  | cons x xs ih =>
    rw [List.map_cons, List.takeWhile_cons, List.takeWhile_cons, h x List.mem_cons_self,
      ih fun y hy => h y (List.mem_cons_of_mem _ hy)]
    split <;> rfl

/-- `l'` is `l` with the nodes `top, ..., top + n - 1` pushed at the head, and any walk over `l`
still where it was. -/
def Pushed (l l' : Links ℕ) (top n : ℕ) : Prop :=
  ∀ cell front rest, Cursor l cell front rest → (∀ x ∈ front ++ rest, x < top) →
    Cursor l' cell ((List.range' top n).reverse ++ front) rest

namespace Pushed

variable {l l₁ l₂ : Links ℕ} {top m n : ℕ}

theorem refl (l : Links ℕ) (top : ℕ) : Pushed l l top 0 := fun _ _ _ h _ => h

theorem push (l : Links ℕ) (top : ℕ) : Pushed l (l.push top) top 1 :=
  fun _ _ _ h hlt => h.push fun hmem => lt_irrefl _ (hlt _ hmem)

theorem trans (h₁ : Pushed l l₁ top m) (h₂ : Pushed l₁ l₂ (top + m) n) :
    Pushed l l₂ top (m + n) := by
  intro cell front rest hc hlt
  rw [← List.range'_append_1, List.reverse_append, List.append_assoc]
  apply h₂ cell _ rest (h₁ cell front rest hc hlt)
  intro x hx
  simp only [List.mem_append, List.mem_reverse, List.mem_range'_1] at hx
  rcases hx with (hx | hx) | hx
  · exact hx.2
  · exact Nat.lt_add_right _ (hlt x (List.mem_append_left _ hx))
  · exact Nat.lt_add_right _ (hlt x (List.mem_append_right _ hx))

end Pushed

/-! ### The list that is left -/

/-- The list after a sweep of `xs` that removes the nodes with `removed` and pushes `pushes x` nodes
while it looks at `x`.  `front` is what the sweep has behind it, `top` the next node, and `atHead`
says that the cell behind is still the head cell. -/
def sweep (removed : ℕ → Bool) (pushes : ℕ → ℕ) : Bool → ℕ → List ℕ → List ℕ → List ℕ
  | _, _, front, [] => front
  | atHead, top, front, x :: xs =>
    let front' := (List.range' top (pushes x)).reverse ++ front
    if removed x then
      sweep removed pushes atHead (top + pushes x) (if atHead then [] else front') xs
    else sweep removed pushes false (top + pushes x) (front' ++ [x]) xs

section Sweep

variable {removed : ℕ → Bool} {pushes : ℕ → ℕ} {x : ℕ} {xs : List ℕ}

/-- Once a node has stayed, the sweep keeps what is pushed and drops the removed nodes alone. -/
theorem sweep_false (top : ℕ) (front xs : List ℕ) :
    sweep removed pushes false top front xs
      = (List.range' top (xs.map pushes).sum).reverse ++ front ++ xs.filter (!removed ·) := by
  induction xs generalizing top front with
  | nil => simp [sweep]
  | cons x xs ih =>
    rw [sweep, List.map_cons, List.sum_cons, ← List.range'_append_1, List.reverse_append]
    cases hr : removed x with
    | true => simp [hr, ih]
    | false => simp [hr, ih]

/-- What is pushed before the first node that stays is lost. -/
theorem sweep_true (top : ℕ) (xs : List ℕ) :
    sweep removed pushes true top [] xs
      = (List.range' (top + ((xs.takeWhile removed).map pushes).sum)
          ((xs.dropWhile removed).map pushes).sum).reverse ++ xs.filter (!removed ·) := by
  induction xs generalizing top with
  | nil => simp [sweep]
  | cons x xs ih =>
    rw [sweep]
    cases hr : removed x with
    | true => simp [hr, ih, Nat.add_assoc]
    | false =>
      rw [if_neg (by simp), sweep_false, List.takeWhile_cons_of_neg (by simp [hr]),
        List.dropWhile_cons_of_neg (by simp [hr]), List.filter_cons_of_pos (by simp [hr]),
        List.map_cons, List.sum_cons, ← List.range'_append_1, List.reverse_append]
      simp

/-- A sweep that pushes nothing leaves the nodes it does not remove. -/
theorem sweep_eq_filter (top : ℕ) (h : ∀ x ∈ xs, pushes x = 0) :
    sweep removed pushes true top [] xs = xs.filter (!removed ·) := by
  have hsum : ((xs.dropWhile removed).map pushes).sum = 0 := by
    apply List.sum_eq_zero_iff_forall_eq_nat.mpr
    intro n hn
    obtain ⟨x, hx, rfl⟩ := List.mem_map.mp hn
    exact h x ((List.dropWhile_suffix _).subset hx)
  rw [sweep_true, hsum]
  rfl

/-- An old node is in the list after the sweep exactly when the sweep does not remove it. -/
theorem mem_sweep_iff {top : ℕ} (hx : x ∈ xs) (hlt : x < top) :
    x ∈ sweep removed pushes true top [] xs ↔ removed x = false := by
  rw [sweep_true, List.mem_append, List.mem_reverse, List.mem_range'_1, List.mem_filter]
  constructor
  · rintro (⟨hle, -⟩ | ⟨-, hr⟩)
    · omega
    · simpa using hr
  · exact fun hr => .inr ⟨hx, by simp [hr]⟩

/-- What a sweep leaves was pushed or stays. -/
theorem of_mem_sweep {top : ℕ} (hx : x ∈ sweep removed pushes true top [] xs) :
    top ≤ x ∧ x < top + (xs.map pushes).sum ∨ x ∈ xs ∧ removed x = false := by
  rw [sweep_true, List.mem_append, List.mem_reverse, List.mem_range'_1, List.mem_filter] at hx
  have hsum : ((xs.takeWhile removed).map pushes).sum + ((xs.dropWhile removed).map pushes).sum
      = (xs.map pushes).sum := by
    rw [← List.sum_append, ← List.map_append, List.takeWhile_append_dropWhile]
  rcases hx with ⟨hle, hlt⟩ | ⟨hx, hr⟩
  · exact .inl (by omega)
  · exact .inr ⟨hx, by simpa using hr⟩

theorem length_eq_countP_add_filter (removed : ℕ → Bool) (xs : List ℕ) :
    xs.length = xs.countP removed + (xs.filter (!removed ·)).length := by
  rw [← List.countP_eq_length_filter]
  simpa using xs.length_eq_countP_add_countP removed

/-- Nothing that is pushed is lost exactly when no push comes before the first node that stays. -/
theorem pushed_mem_sweep_iff (removed : ℕ → Bool) (pushes : ℕ → ℕ) {top : ℕ}
    (hlt : ∀ x ∈ xs, x < top) :
    (∀ x, top ≤ x → x < top + (xs.map pushes).sum → x ∈ sweep removed pushes true top [] xs)
      ↔ ∀ x ∈ xs.takeWhile removed, pushes x = 0 := by
  have hsum : ((xs.takeWhile removed).map pushes).sum + ((xs.dropWhile removed).map pushes).sum
      = (xs.map pushes).sum := by
    rw [← List.sum_append, ← List.map_append, List.takeWhile_append_dropWhile]
  have hzero : ((xs.takeWhile removed).map pushes).sum = 0
      ↔ ∀ x ∈ xs.takeWhile removed, pushes x = 0 := by
    rw [List.sum_eq_zero_iff_forall_eq_nat, List.forall_mem_map]
  rw [← hzero, sweep_true]
  simp only [List.mem_append, List.mem_reverse, List.mem_range'_1, List.mem_filter]
  constructor
  · -- the first node pushed is the first one lost
    intro h
    by_contra hne
    rcases h top le_rfl (by omega) with ⟨hle, -⟩ | ⟨hmem, -⟩
    · omega
    · exact lt_irrefl _ (hlt _ hmem)
  · intro h x hle hx
    exact .inl (by omega)

/-- A 32-bit counter that is incremented for each push and decremented for each removal is the
length of a list that has lost nothing. -/
theorem counter_eq_length_sweep {top : ℕ} {count count' : UInt32}
    (hzero : ∀ x ∈ xs.takeWhile removed, pushes x = 0) (hcount : count = UInt32.ofNat xs.length)
    (hcount' : count' + UInt32.ofNat (xs.countP removed)
      = count + UInt32.ofNat (xs.map pushes).sum) :
    count' = UInt32.ofNat (sweep removed pushes true top [] xs).length := by
  have hsum : ((xs.dropWhile removed).map pushes).sum = (xs.map pushes).sum := by
    have hfront : ((xs.takeWhile removed).map pushes).sum = 0 := by
      rw [List.sum_eq_zero_iff_forall_eq_nat, List.forall_mem_map]
      exact hzero
    conv_rhs => rw [← List.takeWhile_append_dropWhile (p := removed) (l := xs)]
    rw [List.map_append, List.sum_append, hfront, Nat.zero_add]
  rw [sweep_true, List.length_append, List.length_reverse, List.length_range', hsum,
    UInt32.ofNat_add]
  rw [hcount, length_eq_countP_add_filter removed xs, UInt32.ofNat_add] at hcount'
  grind

/-- A 32-bit counter of removals, one node further. -/
theorem ofNat_countP_cons (removed : ℕ → Bool) (x : ℕ) (xs : List ℕ) :
    UInt32.ofNat ((x :: xs).countP removed)
      = UInt32.ofNat (xs.countP removed) + if removed x = true then 1 else 0 := by
  rw [List.countP_cons, UInt32.ofNat_add]
  split <;> rfl

end Sweep

/-! ### The invariant of a sweep -/

/-- A sweep over `l` has come through `cell`, has `rest` ahead, and will leave `final`. -/
def Sweeping (removed : ℕ → Bool) (pushes : ℕ → ℕ) (l : Links ℕ) (cell : Option ℕ) (top : ℕ)
    (rest final : List ℕ) : Prop :=
  ∃ front, Cursor l cell front rest ∧ (∀ x ∈ front ++ rest, x < top)
    ∧ sweep removed pushes cell.isNone top front rest = final

namespace Sweeping

variable {removed : ℕ → Bool} {pushes : ℕ → ℕ} {l l₁ : Links ℕ} {cell : Option ℕ} {top x : ℕ}
  {xs rest final : List ℕ}

theorem start (h : l.Holds xs) (hlt : ∀ x ∈ xs, x < top) :
    Sweeping removed pushes l none top xs (sweep removed pushes true top [] xs) :=
  ⟨[], Cursor.start h, hlt, rfl⟩

theorem holds (h : Sweeping removed pushes l cell top [] final) : l.Holds final := by
  obtain ⟨front, hc, -, rfl⟩ := h
  have hh := hc.holds
  rwa [List.append_nil] at hh

theorem next_eq (h : Sweeping removed pushes l cell top (x :: rest) final)
    (hp : Pushed l l₁ top (pushes x)) : l₁.next x = rest.head? := by
  obtain ⟨front, hc, hlt, -⟩ := h
  exact (hp cell front _ hc hlt).next_eq

theorem write_next (h : Sweeping removed pushes l cell top (x :: rest) final)
    (hp : Pushed l l₁ top (pushes x)) (v : Option ℕ) : (l₁.write cell v).next x = l₁.next x := by
  obtain ⟨front, hc, hlt, -⟩ := h
  exact (hp cell front _ hc hlt).write_next v

theorem lt_top_of_pushed (pushes : ℕ → ℕ) {front : List ℕ}
    (hlt : ∀ y ∈ front ++ x :: rest, y < top) :
    ∀ y ∈ (List.range' top (pushes x)).reverse ++ front ++ x :: rest, y < top + pushes x := by
  intro y hy
  rw [List.append_assoc] at hy
  rcases List.mem_append.mp hy with hy | hy
  · exact (List.mem_range'_1.mp (List.mem_reverse.mp hy)).2
  · exact Nat.lt_add_right _ (hlt y hy)

/-- `*prev = x->next`, for a node that is removed. -/
theorem unlink (h : Sweeping removed pushes l cell top (x :: rest) final)
    (hp : Pushed l l₁ top (pushes x)) (hr : removed x = true) :
    Sweeping removed pushes (l₁.write cell (l₁.next x)) cell (top + pushes x) rest final := by
  obtain ⟨front, hc, hlt, rfl⟩ := h
  have hc₁ := hp cell front _ hc hlt
  have hlt₁ := lt_top_of_pushed pushes hlt
  cases cell with
  | none =>
    refine ⟨[], hc₁.unlink_none, fun y hy => hlt₁ y (by simp_all), ?_⟩
    rw [sweep, hr]
    rfl
  | some c =>
    refine ⟨_, hc₁.unlink_some, fun y hy => hlt₁ y ?_, ?_⟩
    · simp only [List.mem_append, List.mem_cons] at hy ⊢
      tauto
    · rw [sweep, hr]
      rfl

/-- `prev = &x->next`, for a node that stays. -/
theorem advance (h : Sweeping removed pushes l cell top (x :: rest) final)
    (hp : Pushed l l₁ top (pushes x)) (hr : removed x = false) :
    Sweeping removed pushes l₁ (some x) (top + pushes x) rest final := by
  obtain ⟨front, hc, hlt, rfl⟩ := h
  have hc₁ := hp cell front _ hc hlt
  refine ⟨_, hc₁.advance, ?_, ?_⟩
  · rw [List.append_assoc]
    exact lt_top_of_pushed pushes hlt
  · rw [sweep, hr]
    rfl

end Sweeping

end LinkedList.Links
