import WorkflowRules.Json.Basic
import WorkflowRules.Text.Digits

/-!
# Errors

Every operation that is refused answers with an `AutomationError`. Its `kind` is for machines, its
`message` for people, and `status` is the HTTP status of the response that carries both.

An operation may also break down: it comes upon a stored column that holds a number where a JSON text
is needed, or it never ends. A breakdown is no answer. It is never caught by the operation that
contains the failed one, so nothing of that operation happens after it.
-/

namespace WorkflowRules

open Text (intText)

/-- Why an operation was refused. -/
inductive AutomationError where
  /-- An invalid definition, or a handler that is not registered. -/
  | definition (message : String)
  | notFound (what : String)
  | alreadyExists (what : String)
  /-- No transition leaves the state on this event. -/
  | invalidTransition (state event : String)
  | guardRejected (guard reason : String)
  /-- A hook failed before the commit. -/
  | hookFailed (hook reason : String)
  /-- The instance has changed since it was loaded. -/
  | concurrentModification (workflow entityId : String) (expected : Int)
  | validation (message : String)
  | ruleAction (rule action reason : String)
  | storage (detail : String)
  | serialization (detail : String)
deriving DecidableEq, Repr

namespace AutomationError

/-- The name of the kind of error. -/
def kind : AutomationError → String
  | .definition _ => "definition_error"
  | .notFound _ => "not_found"
  | .alreadyExists _ => "already_exists"
  | .invalidTransition .. => "invalid_transition"
  | .guardRejected .. => "guard_rejected"
  | .hookFailed .. => "hook_error"
  | .concurrentModification .. => "concurrent_modification"
  | .validation _ => "validation_error"
  | .ruleAction .. => "rule_action_error"
  | .storage _ => "storage_error"
  | .serialization _ => "serialization_error"

/-- The wording of an error. -/
def message : AutomationError → String
  | .definition m => "Definition error: " ++ m
  | .notFound what => "Not found: " ++ what
  | .alreadyExists what => "Already exists: " ++ what
  | .invalidTransition state event =>
    "Invalid transition: event '" ++ event ++ "' is not allowed from state '" ++ state ++ "'"
  | .guardRejected guard reason => "Guard '" ++ guard ++ "' rejected transition: " ++ reason
  | .hookFailed hook reason => "Hook '" ++ hook ++ "' failed: " ++ reason
  | .concurrentModification workflow entityId expected =>
    "Concurrent modification of " ++ workflow ++ "/" ++ entityId ++ ": expected version " ++
      intText expected
  | .validation m => "Validation error: " ++ m
  | .ruleAction rule action reason =>
    "Action '" ++ action ++ "' failed in rule '" ++ rule ++ "': " ++ reason
  | .storage detail => "Storage error: " ++ detail
  | .serialization detail => "Serialization error: " ++ detail

/-- The HTTP status of a response that reports the error. -/
def status : AutomationError → Nat
  | .definition _ | .validation _ | .invalidTransition .. | .guardRejected .. => 422
  | .notFound _ => 404
  | .alreadyExists _ | .concurrentModification .. => 409
  | .hookFailed .. => 424
  | .ruleAction .. | .storage _ | .serialization _ => 500

/-- The body of a response that reports the error. -/
def body (e : AutomationError) : Json :=
  .ofFields [("error", .string e.kind), ("message", .string e.message)]

end AutomationError

/-- Why an operation gives no answer at all. -/
inductive Breakdown where
  /-- A stored JSON column holds a number where a text is needed. -/
  | unreadable
  /-- The operation waits for an instance that it keeps reserved itself, and so for ever. -/
  | waiting
  /-- There are more publications in one another than there is room for. -/
  | endless
deriving DecidableEq, Repr

/-- How an operation may fail. -/
inductive Failure where
  | error (e : AutomationError)
  | breakdown (why : Breakdown)
deriving DecidableEq, Repr

/-- The failure of an operation that comes upon an unreadable column. -/
@[match_pattern]
abbrev Failure.unreadable : Failure := .breakdown .unreadable

end WorkflowRules
