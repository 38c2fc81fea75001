import WorkflowRules.Condition.Codec
import WorkflowRules.Metadata

/-!
# Rules

A rule waits for its trigger, an event of a given name. When the payload of the event meets the
condition, the actions run one after the other. An action names the handler that carries it out and
gives it parameters.
-/

namespace WorkflowRules

open Json (Reader FieldList)

/-- A side effect, named after its handler. -/
structure Action where
  type : String
  params : Json.Fields

namespace Action

/-- An action with the fields of an object as its parameters; other values give none. -/
def ofParams (type : String) : Json → Action
  | .object fields => ⟨type, fields⟩
  | _ => ⟨type, []⟩

/-- The action that publishes an event with the payload of the trigger. -/
def emitEvent (event : String) : Action :=
  ⟨"emit_event", .ofList [("event", .string event)]⟩

/-- The action that writes a log record. -/
def log (level message : String) : Action :=
  ⟨"log", .ofList [("level", .string level), ("message", .string message)]⟩

/-- The text that a parameter holds. -/
def param? (a : Action) (name : String) : Option String :=
  (a.params.get? name).bind Json.text?

/-- The fields of an action. -/
def fields : FieldList [String, Json.Fields] :=
  .cons (.required "type" .string) <|
  .cons (.defaulted "params" .fields []) .nil

/-- Reads an action. -/
def reader : Reader Action :=
  .record fields fun (type, params, ()) => ⟨type, params⟩

/-- The JSON value of an action. -/
def toJson (a : Action) : Json :=
  .ofFields [("type", .string a.type), ("params", .object a.params)]

end Action

/-- Runs actions when an event meets a condition. -/
structure Rule where
  name : String
  /-- A rule that is not enabled never matches. -/
  enabled : Bool
  /-- Rules of a higher priority are considered first. -/
  priority : Int
  /-- The name of the events that the rule is considered for. -/
  trigger : String
  condition : Condition
  actions : List Action
  metadata : Metadata

namespace Rule

/-- An enabled rule without actions, which every payload meets. -/
def onEvent (name trigger : String) : Rule :=
  ⟨name, true, 0, trigger, .always, [], .empty⟩

/-- Adds an action after the others. -/
def addAction (r : Rule) (a : Action) : Rule :=
  { r with actions := r.actions ++ [a] }

/-- The fields of a rule. -/
def fields : FieldList [String, Bool, Int, String, Condition, List Action, Metadata] :=
  .cons (.required "name" .string) <|
  .cons (.defaulted "enabled" .bool true) <|
  .cons (.defaulted "priority" (.int (-Int.pow 2 31) (Int.pow 2 31 - 1)) 0) <|
  .cons (.required "trigger" .string) <|
  .cons (.defaulted "condition" Condition.reader .always) <|
  .cons (.required "actions" (.list Action.reader)) <|
  .cons (.defaulted "metadata" Metadata.reader .empty) .nil

/-- Reads a rule. -/
def reader : Reader Rule :=
  .record fields fun (name, enabled, priority, trigger, condition, actions, metadata, ()) =>
    ⟨name, enabled, priority, trigger, condition, actions, metadata⟩

/-- The JSON value of a rule. -/
def toJson (r : Rule) : Json :=
  .ofFields
    [("name", .string r.name), ("enabled", .bool r.enabled), ("priority", .ofInt r.priority),
      ("trigger", .string r.trigger), ("condition", r.condition.toJson),
      ("actions", .array (r.actions.map Action.toJson)), ("metadata", r.metadata.toJson)]

end Rule

end WorkflowRules
