import Mathlib.Data.List.Basic

/-!
# Rounds that are disturbed

A machine works in rounds while its environment disturbs it, and a disturbance may be over before
the machine looks for it.  `Altered` says of a run that its last round was disturbed, and `Torn`
that the disturbance has ended as well.

Both are the operator "since" of temporal logic: an event of one kind has come, and none of another
kind after it.  `Since` defines it by recursion on the past, the latest event first, so that it can
be evaluated on a given one.  `rule` is the invariant rule for runs: it gives the effect of every
event on the state together with what is said of the round.
-/

/-- A marked event has come, and no fresh one after it; both are judged by the past before them. -/
def Since {α : Type*} (fresh mark : List α → α → Prop) : List α → Prop
  | [] => False
  | a :: past => mark past a ∨ Since fresh mark past ∧ ¬ fresh past a

instance Since.decidable {α : Type*} {fresh mark : List α → α → Prop}
    [∀ past a, Decidable (fresh past a)] [∀ past a, Decidable (mark past a)] :
    ∀ past, Decidable (Since fresh mark past)
  | [] => inferInstanceAs (Decidable False)
  | a :: past =>
    have : Decidable (Since fresh mark past) := Since.decidable past
    inferInstanceAs (Decidable (mark past a ∨ Since fresh mark past ∧ ¬ fresh past a))

/-- A machine with the events that begin a round, those that alter it and those that end an
alteration. -/
structure Rounds (σ α : Type*) where
  step : σ → α → σ
  begins : σ → α → Bool
  alters : σ → α → Bool
  ends : α → Bool

namespace Rounds

variable {σ α : Type*} (r : Rounds σ α) (s : σ)

/-- The state after the events of a past, the latest first. -/
def after (past : List α) : σ := past.reverse.foldl r.step s

/-- The round on its way was altered. -/
def Altered (past : List α) : Prop :=
  Since (fun past a => r.begins (r.after s past) a = true)
    (fun past a => r.alters (r.after s past) a = true) past

instance (past : List α) : Decidable (r.Altered s past) := Since.decidable past

/-- The round on its way was altered, and an alteration has ended since. -/
def Torn (past : List α) : Prop :=
  Since (fun past a => r.begins (r.after s past) a = true)
    (fun past a => r.ends a = true ∧ r.Altered s past) past

instance (past : List α) : Decidable (r.Torn s past) := Since.decidable past

/-- The invariant rule: what every event does to the state and to what is said of the round. -/
theorem rule {I : σ → Prop → Prop → Prop} (hstart : I s False False)
    (hstep : ∀ s altered torn a, I s altered torn →
      I (r.step s a) (r.alters s a = true ∨ altered ∧ ¬ r.begins s a = true)
        ((r.ends a = true ∧ altered) ∨ torn ∧ ¬ r.begins s a = true))
    (past : List α) : I (r.after s past) (r.Altered s past) (r.Torn s past) := by
  induction past with
  | nil => exact hstart
  | cons a past ih =>
    have hlast : r.after s (a :: past) = r.step (r.after s past) a := by
      rw [after, List.reverse_cons, List.foldl_append]
      rfl
    rw [hlast]
    exact hstep _ _ _ a ih

end Rounds
