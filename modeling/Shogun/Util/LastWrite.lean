import Mathlib.Data.List.Basic

/-!
# Last write wins

Each step of a sequence sets a value or leaves it as it is, which `f` says.  `lastWrite f ops` is
the value that the last step setting one sets; with one step more it is the value of that step, if
it sets one (`lastWrite_concat`).
-/

/-- What the last of the steps sets that sets anything. -/
def lastWrite {α β : Type*} (f : β → Option α) (ops : List β) : Option α := ops.reverse.findSome? f

theorem lastWrite_concat {α β : Type*} (f : β → Option α) (ops : List β) (op : β) :
    lastWrite f (ops ++ [op]) = (f op).or (lastWrite f ops) := by
  unfold lastWrite
  rw [List.reverse_append, List.reverse_singleton, List.singleton_append, List.findSome?_cons]
  cases f op <;> rfl
