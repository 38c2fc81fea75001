import WorkflowRules.Condition.Evaluate
import WorkflowRules.Engine.Action
import WorkflowRules.Rule.Record

/-!
# Cascades

A published event is delivered to the subscribers, among them the rules. Every rule of the event's
bucket is considered in turn; its actions may publish further events, and each evaluation is
published itself. All of that is over before the next rule is considered, so the events of a
cascade are published depth first.

An event further away from the start of its chain than the limit allows is not processed. Everything
that a rule causes is one hop further away than the event that triggered it.

## Termination

`publishFor n` has room for `n` publications in one another, and breaks down when there are more. What
rules cause is never nested more deeply than the limit of the chain plus two. Only hooks can start
further chains inside of one, and `publish` leaves room for many of those.
-/

namespace WorkflowRules.Engine

/-- Carries out actions until one fails. -/
def runActions (publish : Publish) (context : ActionContext) :
    List Action → Operation Engine (List ActionResult)
  | [] => return []
  | action :: rest => do
    match ← Operation.attempt (dispatch publish action context) with
    | .error e => return [.failed action.type e.message]
    | .ok output =>
      let others ← runActions publish context rest
      return .succeeded action.type output :: others

/-- Evaluates a rule for an event. -/
def evaluate (publish : Publish) (rule : Rule) (event : DomainEvent) :
    Operation Engine RuleExecution := do
  if !rule.enabled then return .skipped rule.name event.name .disabled
  else if !rule.condition.holds event.payload then
    return .skipped rule.name event.name .notMatched
  else
    let results ← runActions publish ⟨rule, event⟩ rule.actions
    return .ran rule.name event.name results

/-- Considers a rule for an event, unless it has fired earlier in the chain. -/
def consider (publish : Publish) (rule : Rule) (event : DomainEvent) :
    Operation Engine RuleExecution :=
  if event.trail.contains rule.name then
    pure (.skipped rule.name event.name .cycleDetected)
  else evaluate publish rule event

/-- Publishes the record of an evaluation. -/
def notify (publish : Publish) (rule : Rule) (event : DomainEvent) (record : RuleExecution) :
    Operation Engine Unit := do
  publish (← newEvent ruleExecutedEvent record.toJson (event.trail.child rule.name))

/-- Considers rules in turn; when only the first match counts, up to that one. -/
def considerAll (publish : Publish) (mode : MatchMode) (event : DomainEvent) :
    List Rule → Operation Engine (List RuleExecution)
  | [] => return []
  | rule :: rest => do
    let record ← consider publish rule event
    notify publish rule event record
    if record.matched && mode = .firstMatch then return [record]
    else
      let others ← considerAll publish mode event rest
      return record :: others

/-- Considers the rules that an event triggers. -/
def process (publish : Publish) (event : DomainEvent) : Operation Engine (List RuleExecution) := do
  let e ← .view id
  if event.trail.depth > e.config.maxCascadeDepth then return []
  else considerAll publish e.config.matchMode event (e.rules.bucket event.name)

/-- Delivers an event to a subscriber. -/
def deliver (publish : Publish) (event : DomainEvent) : Subscriber → Operation Engine Unit
  | .rules => do
    let _ ← process publish event
    return ()
  | .listener id => observe (.delivered id event)

/--
Publishes an event and delivers it while some instances are reserved, with room for so many publications
in one another.
-/
def publishFor : Nat → List InstanceKey → DomainEvent → Operation Engine Unit
  | 0, _, event => do
    observe (.published event)
    .breakDown .endless
  | n + 1, held, event => do
    observe (.published event)
    .forEach (deliver ⟨held, publishFor n⟩ event) (← .view (·.subscribers))

/-- Publishing with room for so many publications in one another. -/
def publishWithin (n : Nat) : Publish := ⟨[], publishFor n⟩

/-- How many chains of events hooks may start in one another. -/
def chainAllowance : Nat := 1000

/-- How many publications may be nested in one another. -/
def nesting (config : EngineConfig) : Nat := (config.maxCascadeDepth + 2) * chainAllowance

/-- Publishes an event and delivers it to the subscribers while some instances are reserved. -/
def publishWith (held : List InstanceKey) (event : DomainEvent) : Operation Engine Unit := do
  let config ← .view (·.config)
  publishFor (nesting config) held event

/-- Publishing, as a call does that starts with nothing reserved. -/
def publish : Publish := ⟨[], publishWith⟩

/-! ## What callers use -/

/-- Publishes a new event. -/
def publishEvent (name : String) (payload : Json) (trail : CascadeTrail) :
    Operation Engine Unit := do
  publish (← newEvent name payload trail)

/-- Considers the rules that an event triggers, without publishing the event itself. -/
def processEvent (event : DomainEvent) : Operation Engine (List RuleExecution) :=
  process publish event

/-- Considers the rules that a new event at the start of a chain triggers. -/
def onEvent (name : String) (payload : Json) : Operation Engine (List RuleExecution) := do
  processEvent (← newEvent name payload .root)

/-- Fires an event on an instance. -/
def fire (workflow entityId event : String) (context : TransitionContext) :
    Operation Engine Instance :=
  transition publish workflow entityId event context

end WorkflowRules.Engine
