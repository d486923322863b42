import Mathlib.Data.Nat.Notation

/-!
# Counting loops

`forLoop n body s` is `for (i = 0; i < n; i++)` on a state; `forLoop_invariant` is its rule.
`loopFrom k n body s` is what is left of it in front of round `k`, and two loops over rows and
columns are one loop over the cells (`forLoop_nested`).  A run of steps that may fail is put
together from its parts by `foldlM_append_of_eq_some`.
-/

/-- The state after `body 0`, …, `body (n - 1)`. -/
def forLoop {σ : Type*} (n : ℕ) (body : ℕ → σ → σ) (s : σ) : σ :=
  match n with
  | 0 => s
  | n + 1 => body n (forLoop n body s)

/-- What holds before round `0` and is carried from round to round holds at the end. -/
theorem forLoop_invariant {σ : Type*} (P : ℕ → σ → Prop) {n : ℕ} {body : ℕ → σ → σ} {s : σ}
    (hinit : P 0 s) (hstep : ∀ i t, i < n → P i t → P (i + 1) (body i t)) :
    P n (forLoop n body s) := by
  induction n with
  | zero => exact hinit
  | succ n ih =>
    apply hstep n _ (Nat.lt_succ_self n)
    apply ih
    intro i t hi
    exact hstep i t (Nat.lt_succ_of_lt hi)

/-! ### Parts of a loop -/

theorem forLoop_add {σ : Type*} (m n : ℕ) (body : ℕ → σ → σ) (s : σ) :
    forLoop (m + n) body s = forLoop n (fun i => body (m + i)) (forLoop m body s) := by
  induction n with
  | zero => rfl
  | succ n ih =>
    show body (m + n) (forLoop (m + n) body s) = _
    rw [ih]
    rfl

/-- Rows of `w` cells each, one after the other. -/
theorem forLoop_nested {σ : Type*} (m w : ℕ) (body : ℕ → σ → σ) (s : σ) :
    forLoop m (fun y => forLoop w fun x => body (y * w + x)) s = forLoop (m * w) body s := by
  induction m with
  | zero =>
    rw [Nat.zero_mul]
    rfl
  | succ m ih =>
    show forLoop w (fun x => body (m * w + x)) (forLoop m _ s) = _
    rw [ih, Nat.succ_mul, forLoop_add]

/-- The state after `body k`, …, `body (n - 1)`. -/
def loopFrom {σ : Type*} (k n : ℕ) (body : ℕ → σ → σ) (s : σ) : σ :=
  forLoop (n - k) (fun i => body (k + i)) s

theorem loopFrom_zero {σ : Type*} (n : ℕ) (body : ℕ → σ → σ) (s : σ) :
    loopFrom 0 n body s = forLoop n body s := by
  unfold loopFrom
  simp only [Nat.zero_add]
  rfl

theorem loopFrom_self {σ : Type*} (n : ℕ) (body : ℕ → σ → σ) (s : σ) :
    loopFrom n n body s = s := by
  unfold loopFrom
  rw [Nat.sub_self]
  rfl

theorem loopFrom_of_lt {σ : Type*} {k n : ℕ} (h : k < n) (body : ℕ → σ → σ) (s : σ) :
    loopFrom k n body s = loopFrom (k + 1) n body (body k s) := by
  unfold loopFrom
  rw [show n - k = 1 + (n - (k + 1)) by omega, forLoop_add]
  simp only [Nat.add_assoc]
  rfl

/-! ### Steps that may fail -/

/-- The rest of a run goes on from the state that the first part has reached. -/
theorem foldlM_append_of_eq_some {σ α : Type*} {f : σ → α → Option σ} {s t : σ} {xs : List α}
    (h : xs.foldlM f s = some t) (ys : List α) : (xs ++ ys).foldlM f s = ys.foldlM f t := by
  rw [List.foldlM_append, h]
  rfl
