import Mathlib.Order.Lattice

/-!
# The running maximum of a list

`runningMax key p best xs` goes through `xs` and keeps the value with the largest key among those
that satisfy `p`; a later value with an equal key does not replace it.  So it ends with the first
value that attains the maximum (`runningMax_of_firstMax`), and there is one whenever some value
satisfies `p` (`exists_firstMax`).
-/

namespace RunningMax

variable {α κ : Type*} [LinearOrder κ] {key : α → κ} {p : α → Prop} [DecidablePred p]

/-- `for (x : xs) if (p(x) && key(x) > key(best)) best = x;` -/
def runningMax (key : α → κ) (p : α → Prop) [DecidablePred p] (best : α) (xs : List α) : α :=
  xs.foldl (fun best x => if p x ∧ key best < key x then x else best) best

/-- `x` is the first of `xs` that attains the largest key among those that satisfy `p`. -/
def FirstMax (key : α → κ) (p : α → Prop) (xs : List α) (x : α) : Prop :=
  ∃ pre post, xs = pre ++ x :: post ∧ p x ∧ (∀ y ∈ pre, p y → key y < key x) ∧
    ∀ y ∈ post, p y → key y ≤ key x

theorem runningMax_cons (best x : α) (xs : List α) :
    runningMax key p best (x :: xs)
      = runningMax key p (if p x ∧ key best < key x then x else best) xs := rfl

theorem runningMax_append (best : α) (xs ys : List α) :
    runningMax key p best (xs ++ ys) = runningMax key p (runningMax key p best xs) ys :=
  List.foldl_append

/-- Nothing larger: the value kept stays. -/
theorem runningMax_of_forall_le {best : α} {xs : List α} (h : ∀ y ∈ xs, p y → key y ≤ key best) :
    runningMax key p best xs = best := by
  induction xs with
  | nil => rfl
  | cons x xs ih =>
    obtain ⟨hx, hxs⟩ := List.forall_mem_cons.mp h
    rw [runningMax_cons, if_neg fun hc => not_lt.mpr (hx hc.1) hc.2]
    exact ih hxs

/-- The key kept stays below any bound on the values seen. -/
theorem key_runningMax_lt {best : α} {xs : List α} {k : κ} (hbest : key best < k)
    (h : ∀ y ∈ xs, p y → key y < k) : key (runningMax key p best xs) < k := by
  induction xs generalizing best with
  | nil => exact hbest
  | cons x xs ih =>
    obtain ⟨hx, hxs⟩ := List.forall_mem_cons.mp h
    rw [runningMax_cons]
    refine ih ?_ hxs
    split_ifs with hc
    · exact hx hc.1
    · exact hbest

theorem runningMax_of_firstMax {best x : α} {xs : List α} (hx : FirstMax key p xs x)
    (hbest : key best < key x) : runningMax key p best xs = x := by
  obtain ⟨pre, post, rfl, hpx, hpre, hpost⟩ := hx
  rw [runningMax_append, runningMax_cons, if_pos ⟨hpx, key_runningMax_lt hbest hpre⟩]
  exact runningMax_of_forall_le hpost

theorem exists_firstMax {xs : List α} (h : ∃ x ∈ xs, p x) : ∃ x, FirstMax key p xs x := by
  induction xs with
  | nil => simp at h
  | cons x xs ih =>
    by_cases hxs : ∃ y ∈ xs, p y
    · obtain ⟨y, pre, post, rfl, hpy, hpre, hpost⟩ := ih hxs
      by_cases hx : p x ∧ key y ≤ key x
      · -- `x` is at least as large as the first maximum behind it
        refine ⟨x, [], pre ++ y :: post, rfl, hx.1, by simp, fun z hz hpz => ?_⟩
        rcases List.mem_append.mp hz with hz | hz
        · exact (hpre z hz hpz).le.trans hx.2
        · rcases List.mem_cons.mp hz with rfl | hz
          · exact hx.2
          · exact (hpost z hz hpz).trans hx.2
      · refine ⟨y, x :: pre, post, rfl, hpy, List.forall_mem_cons.mpr ⟨fun hpx => ?_, hpre⟩, hpost⟩
        exact not_le.mp fun hle => hx ⟨hpx, hle⟩
    · -- `x` is the only one
      obtain ⟨y, hy, hpy⟩ := h
      rcases List.mem_cons.mp hy with rfl | hy
      · exact ⟨y, [], xs, rfl, hpy, by simp, fun z hz hpz => absurd ⟨z, hz, hpz⟩ hxs⟩
      · exact absurd ⟨y, hy, hpy⟩ hxs

end RunningMax
