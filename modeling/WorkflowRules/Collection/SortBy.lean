/-!
# Sorting by a name

What is listed by name is in the order of the code points of the names. Sorting is stable.
-/

namespace WorkflowRules

/-- Sorts a list by the names of its elements. -/
def sortBy {α : Type} (name : α → String) (xs : List α) : List α :=
  xs.mergeSort fun a b => decide (name a ≤ name b)

end WorkflowRules
