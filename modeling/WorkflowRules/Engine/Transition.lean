import WorkflowRules.Engine.State

/-!
# Transitions

A transition is fired by an event on an instance. It loads the instance, selects the transition,
asks the guards, runs the hooks before the commit, commits, runs the hooks after the commit, and
publishes an event that names the new state. A guard that does not agree and a hook that fails
before the commit leave everything as it was; what happens after the commit cannot undo it.

From the loading to the commit the instance is reserved for the call, and whoever else fires an event
on it waits. What the hooks before the commit set off is part of the call that runs them; when it comes
to fire an event on the same instance, it waits for ever.

Publishing is a parameter: whatever an event sets off is not the concern of this module.
-/

namespace WorkflowRules.Engine

/-- How events are published in the course of a call. -/
structure Publish where
  /-- The instances that are reserved for the call. -/
  held : List InstanceKey
  /-- Publishes an event while these instances are reserved. -/
  run : List InstanceKey → DomainEvent → Operation Engine Unit

namespace Publish

instance : CoeFun Publish fun _ => DomainEvent → Operation Engine Unit := ⟨fun p => p.run p.held⟩

/-- Publishing while one more instance is reserved. -/
def holding (publish : Publish) (key : InstanceKey) : Publish :=
  { publish with held := key :: publish.held }

end Publish

/-- Waits until an instance is free. No call can give back what is reserved for it while it waits. -/
def reserve (held : List InstanceKey) (key : InstanceKey) : Operation Engine Unit :=
  if held.contains key then .breakDown .waiting else pure ()

/-- There is no such workflow. -/
def workflowNotFound (name : String) : AutomationError :=
  .notFound ("workflow '" ++ name ++ "'")

/-- The definition that is registered under a name. -/
def lookup (name : String) : Operation Engine Definition := do
  match ← .view (·.registry.get? name) with
  | some d => return d
  | none => .fail (workflowNotFound name)

/-- The instance of a workflow that is bound to an entity. -/
def load (key : InstanceKey) : Operation Engine Instance := do
  match ← .viewExcept (·.store.get? key) with
  | some i => return i
  | none => .fail (.instanceNotFound key)

/-- The transition that an event takes from the state of an instance. -/
def select (d : Definition) (i : Instance) (event : String) : Operation Engine Transition :=
  match d.select? i.state event with
  | some t => pure t
  | none => .fail (.invalidTransition i.state event)

/-! ## Guards -/

/-- Asks a guard. -/
def checkGuard (seen : HookContext) (name : String) : Operation Engine Unit := do
  match ← .view (·.guards.get? name) with
  | none => .fail (.definition ("guard '" ++ name ++ "' is not registered"))
  | some guard =>
    observe (.guardAsked name seen)
    match guard (← nextCall) seen with
    | .ok true => return ()
    | .ok false =>
      .fail (.guardRejected name ("guard returned false for '" ++ seen.event ++ "'"))
    | .error reason => .fail (.guardRejected name reason)

/-- Asks guards until one does not agree. -/
def checkGuards (seen : HookContext) (names : List String) : Operation Engine Unit :=
  .forEach (checkGuard seen) names

/-! ## Hooks -/

/-- The hook that is registered under a name. -/
def hookNamed (name : String) : Operation Engine Hook := do
  match ← .view (·.hooks.get? name) with
  | some hook => return hook
  | none => .fail (.definition ("hook '" ++ name ++ "' is not registered"))

/-- The hooks that are registered under names. -/
def hooksNamed : List String → Operation Engine (List (String × Hook))
  | [] => return []
  | name :: rest => do
    let hook ← hookNamed name
    let others ← hooksNamed rest
    return (name, hook) :: others

/-- The entry of a commit past the engine. -/
def bypassEntry (seen : HookContext) (state event : String) (now : Timestamp) : HistoryEntry :=
  { sequence := 0, fromState := some seen.fromState, toState := state, event, actorId := none
    timestamp := now, context := .object [] }

/--
Commits a change of an instance as another writer to the database does. A store in memory belongs to its
engine alone, and nobody gets past that.
-/
def commitDirectly (held : Instance) (state : String) (entry : HistoryEntry) :
    Operation Engine Unit :=
  persist (do
    let _ ← Database.commit held state entry
    return ())

/-- Commits what a hook wants to be committed past the engine. -/
def bypass (seen : HookContext) (state event : String) : Operation Engine Unit := do
  commitDirectly seen.subject state (bypassEntry seen state event (← now))

/-- Carries out the effect of a hook; gives the reason when it fails. -/
def applyEffect (publish : Publish) (seen : HookContext) :
    HookEffect → Operation Engine (Option String)
  | .nothing => return none
  | .fail reason => return some reason
  | .publish event payload => do
    publish (← newEvent event payload .root)
    return none
  | .commit state event => do
    match ← Operation.attempt (bypass seen state event) with
    | .ok _ => return none
    | .error e => return some e.message

/-- Runs a hook; gives the reason when it fails. -/
def runHook (publish : Publish) (seen : HookContext) (name : String) (hook : Hook) :
    Operation Engine (Option String) := do
  observe (.hookRan name seen)
  applyEffect publish seen (hook (← nextCall) seen)

/-- Runs a hook before the commit. -/
def runBeforeHook (publish : Publish) (seen : HookContext) (hook : String × Hook) :
    Operation Engine Unit := do
  match ← runHook publish seen hook.1 hook.2 with
  | none => return ()
  | some reason => .fail (.hookFailed hook.1 reason)

/-- Runs hooks before the commit until one fails. All of them have to be registered. -/
def runBeforeHooks (publish : Publish) (seen : HookContext) (names : List String) :
    Operation Engine Unit := do
  .forEach (runBeforeHook publish seen) (← hooksNamed names)

/-- Runs a hook after the commit, if it is registered. A failure changes nothing. -/
def runAfterHook (publish : Publish) (seen : HookContext) (name : String) :
    Operation Engine Unit := do
  match ← .view (·.hooks.get? name) with
  | none => return ()
  | some hook =>
    let _ ← runHook publish seen name hook
    return ()

/-- Runs hooks after the commit. -/
def runAfterHooks (publish : Publish) (seen : HookContext) (names : List String) :
    Operation Engine Unit :=
  .forEach (runAfterHook publish seen) names

/-! ## Transitions -/

/-- What guards and hooks see before the commit. -/
def contextOf (i : Instance) (t : Transition) (event : String) (context : TransitionContext) :
    HookContext :=
  { subject := i, event, fromState := i.state, toState := t.target, context }

/-- The entry of a transition. -/
def entryOf (seen : HookContext) (now : Timestamp) : HistoryEntry :=
  { sequence := seen.subject.version + 1, fromState := some seen.fromState, toState := seen.toState
    event := seen.event, actorId := seen.context.actorId, timestamp := now
    context := seen.context.snapshot }

/-- Commits a transition. -/
def commit (seen : HookContext) : Operation Engine Instance := do
  let entry := entryOf seen (← now)
  onStoreOf (Store.commit seen.subject seen.toState entry)

/-- The payload of the event that names the new state. -/
def enteredPayload (seen : HookContext) : Json :=
  .ofFields
    [("instance", seen.subject.toJson), ("event", .string seen.event),
      ("context", seen.context.snapshot)]

/-- Runs everything up to the commit; gives what the hooks after it see, and their names. -/
def advance (publish : Publish) (workflow entityId event : String) (context : TransitionContext) :
    Operation Engine (HookContext × List String) := do
  let d ← lookup workflow
  reserve publish.held (workflow, entityId)
  let i ← load (workflow, entityId)
  let t ← select d i event
  let seen := contextOf i t event context
  checkGuards seen t.guards
  runBeforeHooks (publish.holding (workflow, entityId)) seen t.beforeHooks
  let committed ← commit seen
  return ({ seen with subject := committed }, t.afterHooks)

/--
Runs everything up to the publication; gives the committed instance and the event that names its
state.
-/
def settle (publish : Publish) (workflow entityId event : String) (context : TransitionContext) :
    Operation Engine (Instance × DomainEvent) := do
  let (seen, afterHooks) ← advance publish workflow entityId event context
  runAfterHooks publish seen afterHooks
  let entered ←
    newEvent (workflowEventName workflow seen.subject.state) (enteredPayload seen) context.trail
  return (seen.subject, entered)

/-- Fires an event on an instance; gives the committed instance. -/
def transition (publish : Publish) (workflow entityId event : String)
    (context : TransitionContext) : Operation Engine Instance := do
  let (committed, entered) ← settle publish workflow entityId event context
  publish entered
  return committed

/-- Selects the transition that an event would take, and asks its guards. -/
def checkTransition (workflow entityId event : String) (context : TransitionContext) :
    Operation Engine Unit := do
  let d ← lookup workflow
  let i ← load (workflow, entityId)
  let t ← select d i event
  checkGuards (contextOf i t event context) t.guards

/-- Whether a transition would be selected and its guards agree. -/
def canTransition (workflow entityId event : String) (context : TransitionContext) :
    Operation Engine Bool := do
  match ← Operation.attempt (checkTransition workflow entityId event context) with
  | .ok () => return true
  | .error _ => return false

/-- Every transition that leaves the state of an instance, whatever its guards say. -/
def availableTransitions (workflow entityId : String) :
    Operation Engine (List AvailableTransition) := do
  let d ← lookup workflow
  let i ← load (workflow, entityId)
  return (d.outgoing i.state).map fun t => ⟨t.event, t.target⟩

/-! ## Instances -/

/-- Creates the instance of a workflow for an entity. -/
def createInstance (workflow entityId : String) (data : Json) (actorId : Option String) :
    Operation Engine Instance := do
  let d ← lookup workflow
  let time ← now
  onStoreOf (Store.create d entityId data actorId time)

/-- An instance. -/
def getInstance (workflow entityId : String) : Operation Engine (Option Instance) :=
  .viewExcept (·.store.get? (workflow, entityId))

/-- The history of an instance. -/
def getHistory (workflow entityId : String) : Operation Engine (Option (List HistoryEntry)) :=
  .viewExcept (·.store.history? (workflow, entityId))

/-- The instances of a registered workflow. -/
def listInstances (workflow : String) : Operation Engine (List Instance) := do
  let _ ← lookup workflow
  .viewExcept (·.store.list workflow)

end WorkflowRules.Engine
