import WorkflowRules.Condition.Path
import WorkflowRules.Condition.Tree
import WorkflowRules.Text.WhiteSpace

/-!
# Evaluating conditions

Evaluation never fails. A leaf with an unknown operator, or one that needs a list of values and has
none, is false; `Condition.problems` reports such leaves, one message for each.

Two integers are compared exactly. When one number is a binary64 number, both are compared as
binary64 numbers. Below the top of a value, equality is `Json.same`, which tells integers from
binary64 numbers.
-/

namespace WorkflowRules

open Json (Number)
open Text (isBlank)

/-- Numeric comparison. -/
def Json.Number.compare : Number → Number → Ordering
  | .integer m _, .integer n _ => Ord.compare m n
  | m, n => m.toFloat.compare n.toFloat

/-- Equality of a field with a value. -/
def Json.matches : Json → Json → Bool
  | .number m, .number n => m.compare n == .eq
  | a, b => a.same b

/-- The order of two numbers or two texts; other values are not ordered. -/
def Json.order? : Json → Json → Option Ordering
  | .number m, .number n => some (m.compare n)
  | .string s, .string t =>
    some (if s < t then .lt else if s = t then .eq else .gt)
  | _, _ => none

/-- Whether a value is null. -/
def Json.isNull : Json → Bool
  | .null => true
  | _ => false

/-- Whether a list of values has one that matches; `none` when it is no list. -/
def Json.includes? (options actual : Json) : Option Bool :=
  match options with
  | .array items => some (items.any actual.matches)
  | _ => none

/-- The outcome of an operator on the value of the field and the value of the leaf. -/
def Operator.holds (op : Operator) (actual expected : Json) : Bool :=
  match op with
  | .equals => actual.matches expected
  | .notEquals => !actual.matches expected
  | .greaterThan => actual.order? expected == some .gt
  | .lessThan => actual.order? expected == some .lt
  | .isIn => (expected.includes? actual).getD false
  | .notIn => (expected.includes? actual).any (!·)
  | .isNull => actual.isNull
  | .isNotNull => !actual.isNull

/-- Whether a payload meets a comparison. -/
def Comparison.holds (c : Comparison) (payload : Json) : Bool :=
  match Operator.named? c.operator with
  | some op => op.holds (Path.resolve payload c.field) c.value
  | none => false

namespace Condition

mutual

/-- Whether a payload meets a condition. -/
def holds (payload : Json) : Condition → Bool
  | .group .all members => allHold payload members
  | .group .any members => anyHolds payload members
  | .leaf comparison => comparison.holds payload

/-- Whether a payload meets every condition of a list. -/
def allHold (payload : Json) : List Condition → Bool
  | [] => true
  | c :: rest => holds payload c && allHold payload rest

/-- Whether a payload meets some condition of a list. -/
def anyHolds (payload : Json) : List Condition → Bool
  | [] => false
  | c :: rest => holds payload c || anyHolds payload rest

end

end Condition

/-- Whether a value is a list. -/
def Json.isArray : Json → Bool
  | .array _ => true
  | _ => false

/-- What is wrong with the shape of a comparison. -/
inductive ComparisonProblem where
  | blankField
  | unknownOperator (operator field : String)
  | needsList (operator field : String)
deriving DecidableEq, Repr

/-- The wording of a problem. -/
def ComparisonProblem.message : ComparisonProblem → String
  | .blankField => "condition field must not be empty"
  | .unknownOperator operator field =>
    "unknown operator '" ++ operator ++ "' on field '" ++ field ++ "'"
  | .needsList operator field =>
    "operator '" ++ operator ++ "' on field '" ++ field ++ "' requires a list value"

/-- The problems of a comparison: first that of its field, then that of its operator. -/
def Comparison.problems (c : Comparison) : List ComparisonProblem :=
  (if isBlank c.field then [.blankField] else []) ++
    (match Operator.named? c.operator with
    | none => [.unknownOperator c.operator c.field]
    | some op =>
      if op.needsList && !c.value.isArray then [.needsList c.operator c.field] else [])

namespace Condition

mutual

/-- The problems of all leaves, from left to right. -/
def problems : Condition → List ComparisonProblem
  | .group _ members => problemsOfAll members
  | .leaf comparison => comparison.problems

/-- The problems of the leaves of several conditions. -/
def problemsOfAll : List Condition → List ComparisonProblem
  | [] => []
  | c :: rest => problems c ++ problemsOfAll rest

end

end Condition

end WorkflowRules
