import WorkflowRules.Condition.Evaluate
import WorkflowRules.Rule.Basic

/-!
# Checking rules

A rule is checked before it is put into the table. All problems are reported at once: those of
name, trigger and actions, then those of the leaves of its condition. Whether an action type is
known depends on the handlers that are registered, so the check takes a predicate.
-/

namespace WorkflowRules

open Text (isBlank)

/-- What is wrong with a rule. -/
inductive RuleProblem where
  | blankName
  | blankTrigger
  | noActions
  | unknownAction (type : String)
  | condition (problem : ComparisonProblem)
deriving DecidableEq, Repr

/-- The wording of a problem. -/
def RuleProblem.message : RuleProblem → String
  | .blankName => "rule name must not be empty"
  | .blankTrigger => "rule trigger must not be empty"
  | .noActions => "rule must have at least one action"
  | .unknownAction type => "unknown action type '" ++ type ++ "'"
  | .condition problem => problem.message

namespace Rule

/-- The problems of a rule, in the order in which they are reported. -/
def problems (known : String → Bool) (r : Rule) : List RuleProblem :=
  (if isBlank r.name then [.blankName] else []) ++
    (if isBlank r.trigger then [.blankTrigger] else []) ++
    (if r.actions.isEmpty then [.noActions] else []) ++
    (r.actions.filter fun a => !known a.type).map (fun a => .unknownAction a.type) ++
    r.condition.problems.map .condition

/-- The report of the problems of a rule. -/
def report (name : String) (problems : List RuleProblem) : String :=
  "rule '" ++ name ++ "': " ++ "; ".intercalate (problems.map RuleProblem.message)

end Rule

end WorkflowRules
