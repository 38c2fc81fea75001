import WorkflowRules.Condition.Path
import WorkflowRules.Engine.Transition
import WorkflowRules.Text.WhiteSpace

/-!
# Actions

An action is carried out by the handler of its type. It gives an output or the reason of its
failure. Every failure is reported with the names of the action and the rule and goes no further
than the record of that rule.
-/

namespace WorkflowRules.Engine

open Text (isBlank)

/-- The outcome of an action: its output, or why it failed. -/
abbrev Outcome := Except String Json

/-- The levels of log records. -/
def logLevels : List String := ["trace", "debug", "info", "warn", "error"]

/-- Publishes the event that an action names, with its own payload or that of the trigger. -/
def runEmitEvent (publish : Publish) (action : Action) (context : ActionContext) :
    Operation Engine Outcome := do
  match (action.param? "event").filter fun name => !isBlank name with
  | none => return .error "emit_event requires an 'event' parameter"
  | some name =>
    let payload := (action.params.get? "payload").getD context.event.payload
    let event ← newEvent name payload context.childTrail
    publish event
    return .ok (.ofFields [("event", .string name), ("event_id", .string event.id.text)])

/-- Writes a log record. -/
def runLog (action : Action) (context : ActionContext) : Operation Engine Outcome := do
  let message := (action.param? "message").getD "rule matched"
  let level := (action.param? "level").getD "info"
  if logLevels.contains level then
    observe (.logged ⟨level, message, context.rule.name, context.event.name⟩)
    return .ok (.ofFields [("level", .string level), ("message", .string message)])
  else return .error ("unknown log level '" ++ level ++ "'")

/-- The text that a value names an entity with. -/
def entityText? : Json → Option String
  | .string s => some s
  | .number n => some n.text
  | _ => none

/-- The entity that an action names, by itself or by a path into the payload. -/
def entityOf (action : Action) (payload : Json) : Except String String :=
  match action.param? "entity_id", action.param? "entity_id_field" with
  | some id, _ => .ok id
  | none, some path =>
    match entityText? (Path.resolve payload path) with
    | some id => .ok id
    | none => .error ("payload field '" ++ path ++ "' does not hold an entity id")
  | none, none => .error "transition requires 'entity_id' or 'entity_id_field'"

/-- What an action fires: workflow, event and entity. -/
structure Firing where
  workflow : String
  event : String
  entityId : String
deriving DecidableEq, Repr

/-- What the parameters of an action and the payload of its trigger say to fire. -/
def firingOf (action : Action) (payload : Json) : Except String Firing :=
  match action.param? "workflow", action.param? "event" with
  | none, _ => .error "transition requires a 'workflow' parameter"
  | some _, none => .error "transition requires an 'event' parameter"
  | some workflow, some event => (entityOf action payload).map fun id => ⟨workflow, event, id⟩

/-- The context of a transition that a rule fires. -/
def firingContext (context : ActionContext) : TransitionContext :=
  { actorId := some ("rule:" ++ context.rule.name)
    data := .ofList
      [("rule", .string context.rule.name), ("trigger_event", .string context.event.name)]
    trail := context.childTrail }

/-- Fires a transition. -/
def runTransition (publish : Publish) (action : Action) (context : ActionContext) :
    Operation Engine Outcome := do
  match firingOf action context.event.payload with
  | .error reason => return .error reason
  | .ok f =>
    match ← Operation.attempt
        (transition publish f.workflow f.entityId f.event (firingContext context)) with
    | .error e => return .error e.message
    | .ok i =>
      return .ok (.ofFields
        [("workflow", .string f.workflow), ("entity_id", .string f.entityId),
          ("state", .string i.state)])

/-- Carries out an action. -/
def runAction (publish : Publish) (action : Action) (context : ActionContext) :
    ActionHandler → Operation Engine Outcome
  | .emitEvent => runEmitEvent publish action context
  | .log => runLog action context
  | .transition => runTransition publish action context
  | .custom run => return run (← nextCall) action context

/-- Carries out an action through the handler of its type. -/
def dispatch (publish : Publish) (action : Action) (context : ActionContext) :
    Operation Engine Json := do
  match ← .view (·.actions.get? action.type) with
  | none =>
    .fail (.ruleAction context.rule.name action.type "no handler registered for this action type")
  | some handler =>
    observe (.actionRan handler.isBuiltIn action context)
    match ← runAction publish action context handler with
    | .ok output => return output
    | .error reason => .fail (.ruleAction context.rule.name action.type reason)

end WorkflowRules.Engine
