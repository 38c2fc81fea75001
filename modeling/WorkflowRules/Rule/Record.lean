import WorkflowRules.Json.Record

/-!
# Records of evaluations

Whenever a rule is considered for an event, a record says what came of it. A record is returned to
whoever processes the event and is published as the payload of an event of its own.
-/

namespace WorkflowRules

open Json (Reader FieldList)

/-- What came of considering a rule. -/
inductive RuleStatus where
  /-- The condition held and every action succeeded. -/
  | executed
  | notMatched
  /-- The condition held but an action failed; the actions after it did not run. -/
  | actionFailed
  | disabled
  /-- The rule has fired earlier in the chain of the event. -/
  | cycleDetected
deriving DecidableEq, Repr

namespace RuleStatus

/-- The name of a status. -/
def name : RuleStatus → String
  | .executed => "executed"
  | .notMatched => "not_matched"
  | .actionFailed => "action_failed"
  | .disabled => "disabled"
  | .cycleDetected => "cycle_detected"

/-- All statuses. -/
def all : List RuleStatus := [.executed, .notMatched, .actionFailed, .disabled, .cycleDetected]

/-- Reads a status. -/
def reader : Reader RuleStatus := .cases (all.map fun s => (s.name, s))

/-- The JSON value of a status. -/
def toJson (s : RuleStatus) : Json := .string s.name

end RuleStatus

/-- A field that is written only when it has a value. -/
def Json.fieldOfOption (name : String) : Option Json → List (String × Json)
  | none => []
  | some v => [(name, v)]

/-- The result of one action. -/
structure ActionResult where
  type : String
  success : Bool
  output : Option Json
  error : Option String
  durationMs : Nat

/-- Reads a natural number of 64 bits. -/
def Json.Reader.nat64 : Reader Nat := .nat (Nat.pow 2 64 - 1)

namespace ActionResult

/-- The result of an action that gave a value. -/
def succeeded (type : String) (output : Json) : ActionResult := ⟨type, true, some output, none, 0⟩

/-- The result of an action that failed. -/
def failed (type error : String) : ActionResult := ⟨type, false, none, some error, 0⟩

/-- The fields of a result. -/
def fields : FieldList [String, Bool, Option Json, Option String, Nat] :=
  .cons (.required "type" .string) <|
  .cons (.required "success" .bool) <|
  .cons (.optional "output" .any) <|
  .cons (.optional "error" .string) <|
  .cons (.required "duration_ms" .nat64) .nil

/-- Reads a result. -/
def reader : Reader ActionResult :=
  .record fields fun (type, success, output, error, durationMs, ()) =>
    ⟨type, success, output, error, durationMs⟩

/-- The JSON value of a result. -/
def toJson (r : ActionResult) : Json :=
  .ofFields
    ([("type", .string r.type), ("success", .bool r.success)] ++
      Json.fieldOfOption "output" r.output ++
      Json.fieldOfOption "error" (r.error.map .string) ++
      [("duration_ms", .ofNat r.durationMs)])

end ActionResult

/-- What came of considering a rule for an event. -/
structure RuleExecution where
  rule : String
  event : String
  status : RuleStatus
  matched : Bool
  executed : Bool
  durationMs : Nat
  error : Option String
  actionResults : List ActionResult

namespace RuleExecution

/-- The record of a rule whose actions did not run. -/
def skipped (rule event : String) (status : RuleStatus) : RuleExecution :=
  ⟨rule, event, status, false, false, 0, none, []⟩

/-- The record of a rule whose condition held; the last result tells whether an action failed. -/
def ran (rule event : String) (results : List ActionResult) : RuleExecution :=
  let error := results.getLast?.bind (·.error)
  ⟨rule, event, if error.isSome then .actionFailed else .executed, true, error.isNone, 0, error,
    results⟩

/-- The fields of a record. -/
def fields :
    FieldList [String, String, RuleStatus, Bool, Bool, Nat, Option String, List ActionResult] :=
  .cons (.required "rule" .string) <|
  .cons (.required "event" .string) <|
  .cons (.required "status" RuleStatus.reader) <|
  .cons (.required "matched" .bool) <|
  .cons (.required "executed" .bool) <|
  .cons (.required "duration_ms" .nat64) <|
  .cons (.optional "error" .string) <|
  .cons (.defaulted "action_results" (.list ActionResult.reader) []) .nil

/-- Reads a record. -/
def reader : Reader RuleExecution :=
  .record fields fun (rule, event, status, matched, executed, durationMs, error, results, ()) =>
    ⟨rule, event, status, matched, executed, durationMs, error, results⟩

/-- The JSON value of a record. -/
def toJson (r : RuleExecution) : Json :=
  .ofFields
    ([("rule", .string r.rule), ("event", .string r.event), ("status", r.status.toJson),
      ("matched", .bool r.matched), ("executed", .bool r.executed),
      ("duration_ms", .ofNat r.durationMs)] ++
      Json.fieldOfOption "error" (r.error.map .string) ++
      (if r.actionResults.isEmpty then []
        else [("action_results", .array (r.actionResults.map ActionResult.toJson))]))

end RuleExecution

end WorkflowRules
