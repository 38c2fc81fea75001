import WorkflowRules.Json.Basic

/-!
# Condition trees

A condition compares one field of a payload with a value; conditions are joined by groups that
require all or any of their members. The grammar is closed: there is nothing else.

A leaf keeps its operator as text, so that a tree with an operator nobody knows can still be stored
and reported. `Operator.named?` gives the meaning of the text.
-/

namespace WorkflowRules

/-- How a leaf compares the field with the value. -/
inductive Operator where
  | equals
  | notEquals
  | greaterThan
  | lessThan
  | isIn
  | notIn
  | isNull
  | isNotNull
deriving DecidableEq, Repr

/-- The operator with a given name. -/
def Operator.named? (name : String) : Option Operator :=
  if name = "equals" then some .equals
  else if name = "not_equals" then some .notEquals
  else if name = "greater_than" then some .greaterThan
  else if name = "less_than" then some .lessThan
  else if name = "in" then some .isIn
  else if name = "not_in" then some .notIn
  else if name = "is_null" then some .isNull
  else if name = "is_not_null" then some .isNotNull
  else none

/-- The name of an operator. -/
def Operator.name : Operator → String
  | .equals => "equals"
  | .notEquals => "not_equals"
  | .greaterThan => "greater_than"
  | .lessThan => "less_than"
  | .isIn => "in"
  | .notIn => "not_in"
  | .isNull => "is_null"
  | .isNotNull => "is_not_null"

@[simp] theorem Operator.named?_name (op : Operator) : Operator.named? op.name = some op := by
  cases op <;> simp [Operator.named?, Operator.name]

/-- Whether the operator compares with a list of values. -/
def Operator.needsList : Operator → Bool
  | .isIn | .notIn => true
  | _ => false

/-- A comparison of one field of the payload. -/
structure Comparison where
  /-- The path of the field, its segments separated by points. -/
  field : String
  operator : String
  value : Json

/-- How a group joins its members. -/
inductive Connective where
  | all
  | any
deriving DecidableEq, Repr

/-- A tree of conditions. -/
inductive Condition where
  | group (connective : Connective) (members : List Condition)
  | leaf (comparison : Comparison)

namespace Condition

/-- The condition that every payload meets: an empty group of which all members are required. -/
def always : Condition := .group .all []

instance : Inhabited Condition := ⟨always⟩

/-- A leaf with a known operator. -/
def compare (op : Operator) (field : String) (value : Json) : Condition :=
  .leaf ⟨field, op.name, value⟩

end Condition

end WorkflowRules
