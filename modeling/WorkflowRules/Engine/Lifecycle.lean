import WorkflowRules.Engine.Cascade
import WorkflowRules.Engine.Management

/-!
# The life of an engine

An engine is initialised by loading what is stored and subscribing the rules to the bus. It can be
shut down, initialised again, and built anew on the same store. Stored definitions and rules that
cannot be read, or that would be refused, are skipped.
-/

namespace WorkflowRules.Engine

/-! ## Subscribers -/

/-- Adds a listener at the end; a listener of that name is dropped. -/
def subscribe (id : String) : Operation Engine Unit :=
  .change fun e =>
    { e with subscribers := e.subscribers.filter (· ≠ .listener id) ++ [.listener id] }

/-- Drops a listener. -/
def unsubscribe (id : String) : Operation Engine Unit :=
  .change fun e => { e with subscribers := e.subscribers.filter (· ≠ .listener id) }

/-- The number of subscribers. -/
def subscriberCount (e : Engine) : Nat := e.subscribers.length

/-! ## Loading -/

/-- The registry of stored definitions, each under the name of its row. -/
def registryOf (strict : Bool) (stored : List (String × Definition)) : Keyed String Definition :=
  (stored.filter fun row => (row.2.problem? strict).isNone).foldl
    (fun registry row => registry.insert row.1 row.2) .empty

/-- The table of stored rules, put in one after the other. -/
def tableOf (known : String → Bool) (stored : List Rule) : RuleTable :=
  (stored.filter fun r => (r.problems known).isEmpty).foldl RuleTable.upsert .empty

/-- Replaces the registry by the stored definitions. -/
def loadDefinitions : Operation Engine Unit := do
  let e ← .view id
  match e.store with
  | .memory _ => return ()
  | .database db =>
    let stored ← .viewExcept fun _ => db.loadDefinitions
    .change fun e => { e with registry := registryOf e.config.strictTransitions stored }

/-- Replaces the rule table by the stored rules. -/
def loadRules : Operation Engine Unit := do
  let e ← .view id
  match e.store with
  | .memory _ => return ()
  | .database db =>
    let stored ← .viewExcept fun _ => db.loadRules
    .change fun e => { e with rules := tableOf (hasHandler e) stored }

/-- Subscribes the rules, unless they count as subscribed. -/
def connect : Operation Engine Unit :=
  .change fun e =>
    if e.connected then e
    else { e with connected := true, subscribers := e.subscribers ++ [.rules] }

/-- Loads what is stored and subscribes the rules. -/
def init : Operation Engine Unit := do
  loadDefinitions
  loadRules
  connect

/-- Drops all subscribers. -/
def shutdown : Operation Engine Unit :=
  .change fun e => { e with subscribers := [], connected := false }

/-! ## Building -/

/-- What is left of a store when its engine is gone. -/
def survivors : Store → Store
  | .memory _ => .memory .empty
  | .database db => .database db

/-- An engine built anew on what is left of the store. -/
def renewed (e : Engine) : Engine :=
  { onStore e.config (survivors e.store) e.clock with trace := e.trace }

/--
Shuts an engine down and builds a new one on the same store. When the new one cannot be
initialised, the old one stays, shut down.
-/
def restart (initialise : Bool) : Operation Engine Unit := do
  shutdown
  if initialise then .atomic (do .change renewed; init)
  else .change renewed

end WorkflowRules.Engine
