import Mathlib.Data.Fintype.Pigeonhole
import Mathlib.Data.UInt
import Mathlib.Logic.Function.Iterate
import Mathlib.SetTheory.Cardinal.Finite

/-!
# Walks on a finite type

A loop `while (P x) x = f(x);` on a finite type stops if and only if it never comes back to a state
it has been in (`exists_not_iff_no_return`), and it then stops before it has made as many turns as
there are states (`exists_not_lt_card`), which on 32-bit words is `2^32` (`exists_not_lt_word32`).
-/

namespace Walk

variable {α : Type*} {f : α → α} {P : α → Prop} {x : α}

/-- The walk from `x` does not come back to a state while `P` holds. -/
def NoReturn (f : α → α) (P : α → Prop) (x : α) : Prop :=
  ∀ i j, i < j → (∀ k ≤ j, P (f^[k] x)) → f^[i] x ≠ f^[j] x

/-- A walk that comes back goes round forever. -/
theorem exists_le_of_return {i j : ℕ} (hij : i < j) (heq : f^[i] x = f^[j] x) (n : ℕ) :
    ∃ k ≤ j, f^[n] x = f^[k] x := by
  induction n with
  | zero => exact ⟨0, by omega, rfl⟩
  | succ n ih =>
    obtain ⟨k, hk, hn⟩ := ih
    rcases Nat.lt_or_eq_of_le hk with hlt | rfl
    · refine ⟨k + 1, hlt, ?_⟩
      rw [Function.iterate_succ_apply', Function.iterate_succ_apply', hn]
    · refine ⟨i + 1, hij, ?_⟩
      rw [Function.iterate_succ_apply', Function.iterate_succ_apply', hn, heq]

theorem exists_not_iff_no_return [Finite α] : (∃ n, ¬ P (f^[n] x)) ↔ NoReturn f P x := by
  constructor
  · rintro ⟨n, hn⟩ i j hij hP heq
    obtain ⟨k, hk, hnk⟩ := exists_le_of_return hij heq n
    exact hn (hnk ▸ hP k hk)
  · intro hno
    by_contra! hall
    -- two of the infinitely many turns are in the same state
    obtain ⟨i, j, hne, heq⟩ := Finite.exists_ne_map_eq_of_infinite fun n : ℕ => f^[n] x
    rcases lt_or_gt_of_ne hne with hlt | hlt
    · exact hno i j hlt (fun k _ => hall k) heq
    · exact hno j i hlt (fun k _ => hall k) heq.symm

/-- The states up to the first one that stops the walk are all different. -/
theorem exists_not_lt_card [Finite α] (h : ∃ n, ¬ P (f^[n] x)) :
    ∃ n < Nat.card α, ¬ P (f^[n] x) := by
  classical
  have hno := exists_not_iff_no_return.mp h
  refine ⟨Nat.find h, ?_, Nat.find_spec h⟩
  have hP : ∀ k < Nat.find h, P (f^[k] x) := fun k hk => not_not.mp (Nat.find_min h hk)
  have hne : ∀ i j : ℕ, i < j → j ≤ Nat.find h → f^[i] x ≠ f^[j] x := by
    intro i j hij hj heq
    rcases Nat.lt_or_eq_of_le hj with hlt | rfl
    · exact hno i j hij (fun k hk => hP k (by omega)) heq
    · exact Nat.find_spec h (heq ▸ hP i hij)
  have hinj : Function.Injective fun k : Fin (Nat.find h + 1) => f^[k] x := by
    intro i j heq
    rcases lt_trichotomy i.val j.val with hlt | heq' | hlt
    · exact absurd heq (hne i j hlt (by omega))
    · exact Fin.ext heq'
    · exact absurd heq.symm (hne j i hlt (by omega))
  have hcard := Nat.card_le_card_of_injective _ hinj
  rw [Nat.card_fin] at hcard
  omega

/-! ### Walks on 32-bit words -/

theorem toFin_injective : Function.Injective UInt32.toFin := fun _ _ h => UInt32.toFin_inj.mp h

instance finite_word32 : Finite UInt32 := Finite.of_injective _ toFin_injective

theorem exists_not_lt_word32 {f : UInt32 → UInt32} {P : UInt32 → Prop} {x : UInt32}
    (h : ∃ n, ¬ P (f^[n] x)) : ∃ n < 2 ^ 32, ¬ P (f^[n] x) := by
  obtain ⟨n, hn, hstop⟩ := exists_not_lt_card h
  have hcard := Nat.card_le_card_of_injective _ toFin_injective
  rw [Nat.card_fin] at hcard
  exact ⟨n, hn.trans_le hcard, hstop⟩

end Walk
