import WorkflowRules.Config
import WorkflowRules.Engine.Handler
import WorkflowRules.Rule.Table
import WorkflowRules.Store

/-!
# The state of an engine

An engine holds the registered definitions, the rule table, the store, the registered handlers and
the subscribers of its event bus. Nothing is shared between engines.

Whatever can be seen from outside while an operation runs is put on a trace: published events, calls
of handlers, deliveries to listeners and log records.
-/

namespace WorkflowRules

/-- What can be seen of an operation while it runs. -/
inductive Observation where
  | published (event : DomainEvent)
  | guardAsked (name : String) (seen : HookContext)
  | hookRan (name : String) (seen : HookContext)
  /-- An action was carried out, by a handler that is built in or not. -/
  | actionRan (builtIn : Bool) (action : Action) (context : ActionContext)
  /-- An event was delivered to a listener. -/
  | delivered (listener : String) (event : DomainEvent)
  | logged (entry : LogRecord)

/-- Who receives published events. -/
inductive Subscriber where
  /-- The rules of the engine. -/
  | rules
  | listener (id : String)
deriving DecidableEq, Repr

/-- Where timestamps and identifiers come from. -/
structure Clock where
  time : Nat → Timestamp
  /-- How often the time was read. -/
  readings : Nat
  identifier : Nat → Identifier
  /-- How many identifiers were given out. -/
  issued : Nat

/-- An engine. -/
structure Engine where
  config : EngineConfig
  /-- Definitions by the names under which they are found. -/
  registry : Keyed String Definition
  rules : RuleTable
  store : Store
  guards : Keyed String Guard
  hooks : Keyed String Hook
  actions : Keyed String ActionHandler
  /-- The subscribers in the order in which events are delivered to them. -/
  subscribers : List Subscriber
  /-- Whether the rules count as subscribed. -/
  connected : Bool
  clock : Clock
  /-- How often handlers were called. -/
  called : Nat
  /-- What could be seen so far, newest first. -/
  trace : List Observation

namespace Engine

/-- The action handlers that every engine has. -/
def builtinActions : Keyed String ActionHandler :=
  ((Keyed.empty.insert "emit_event" .emitEvent).insert "log" .log).insert "transition" .transition

/-- A new engine on a store. -/
def onStore (config : EngineConfig) (store : Store) (clock : Clock) : Engine :=
  { config, store, clock, registry := .empty, rules := .empty, guards := .empty, hooks := .empty
    actions := builtinActions, subscribers := [], connected := false, called := 0, trace := [] }

/-- A new engine in memory. -/
def inMemory (config : EngineConfig) (clock : Clock) : Engine :=
  onStore config (.memory .empty) clock

/-- Puts something on the trace. -/
def observe (o : Observation) : Operation Engine Unit :=
  .change fun e => { e with trace := o :: e.trace }

/-- Reads the time. -/
def now : Operation Engine Timestamp := fun e =>
  (.ok (e.clock.time e.clock.readings),
    { e with clock := { e.clock with readings := e.clock.readings + 1 } })

/-- Gives out an identifier. -/
def newIdentifier : Operation Engine Identifier := fun e =>
  (.ok (e.clock.identifier e.clock.issued),
    { e with clock := { e.clock with issued := e.clock.issued + 1 } })

/-- Gives the next call of a handler its number. -/
def nextCall : Operation Engine Nat := fun e => (.ok e.called, { e with called := e.called + 1 })

/-- Makes an event. -/
def newEvent (name : String) (payload : Json) (trail : CascadeTrail) :
    Operation Engine DomainEvent := do
  let id ← newIdentifier
  let occurredAt ← now
  return { id, name, payload, occurredAt, trail }

/-- Runs an operation on the store. -/
def onStoreOf {α : Type} (x : Operation Store α) : Operation Engine α :=
  .within (·.store) (fun store e => { e with store }) x

/-- Runs a statement on the database, if the engine has one. -/
def persist (x : Operation Database Unit) : Operation Engine Unit :=
  onStoreOf (Store.persist x)

end Engine

end WorkflowRules
