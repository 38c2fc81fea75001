import WorkflowRules.Engine.State
import WorkflowRules.Rule.Check
import WorkflowRules.Workflow.Check
import WorkflowRules.Engine.Transition

/-!
# Managing definitions and rules

Definitions and rules are checked before they are registered, and an engine with a database stores
them there. Each management operation consists of two steps, one on the database and one on the
tables in memory; which of them comes first differs from operation to operation.
-/

namespace WorkflowRules.Engine

/-! ## Definitions -/

/-- Refuses a definition with a problem. -/
def checkDefinition (d : Definition) : Operation Engine Unit := do
  match d.problem? (← .view (·.config.strictTransitions)) with
  | some p => .fail (.definition (p.message d.name))
  | none => return ()

/-- Registers a definition under its name in memory. -/
def registerDefinition (d : Definition) : Operation Engine Unit :=
  .change fun e => { e with registry := e.registry.insert d.name d }

/-- Checks, stores and registers a definition; another one of that name gives way. -/
def defineWorkflow (d : Definition) : Operation Engine Unit := do
  checkDefinition d
  persist (Database.saveDefinition d)
  registerDefinition d

/-- Removes the definition registered under a name from memory; tells whether there was one. -/
def forgetDefinition (name : String) : Operation Engine Bool := fun e =>
  (.ok (e.registry.contains name), { e with registry := e.registry.erase name })

/-- Removes a definition; tells whether it was registered. Instances stay. -/
def removeWorkflow (name : String) : Operation Engine Bool := do
  persist (Database.deleteDefinition name)
  forgetDefinition name

/-- All registered definitions, ordered by their own names. -/
def listWorkflows (e : Engine) : List Definition :=
  sortBy (·.name) e.registry.values

/-! ## Rules -/

/-- Whether there is a handler for actions of a type. -/
def hasHandler (e : Engine) (type : String) : Bool := e.actions.contains type

/-- Refuses a rule with problems. -/
def checkRule (r : Rule) : Operation Engine Unit := do
  let problems := r.problems (hasHandler (← .view id))
  if problems.isEmpty then return ()
  else .fail (.validation (Rule.report r.name problems))

/-- Puts a rule into the table. -/
def enterRule (r : Rule) : Operation Engine Unit :=
  .change fun e => { e with rules := e.rules.upsert r }

/-- Checks, stores and enters a rule; another one of that name gives way. -/
def createRule (r : Rule) : Operation Engine Rule := do
  checkRule r
  persist (Database.saveRule r)
  enterRule r
  return r

/-- A rule. -/
def getRule? (e : Engine) (name : String) : Option Rule := e.rules.byName.get? name

/-- All rules, ordered by trigger and then as they are considered. -/
def listRules (e : Engine) : List Rule := e.rules.list

/-- Enables or disables a rule in the table; gives the rule as it is then. -/
def switchRule (name : String) (enabled : Bool) : Operation Engine Rule := fun e =>
  let rules := e.rules.setEnabled name enabled
  match rules.byName.get? name with
  | some r => (.ok r, { e with rules })
  | none => (.error (.error (.notFound ("rule '" ++ name ++ "'"))), { e with rules })

/-- Enables or disables a rule, and then stores it. -/
def setEnabled (name : String) (enabled : Bool) : Operation Engine Rule := do
  let r ← switchRule name enabled
  persist (Database.saveRule r)
  return r

/-- Removes a rule from the table; tells whether there was one. -/
def dropRule (name : String) : Operation Engine Bool := fun e =>
  (.ok (e.rules.byName.contains name), { e with rules := e.rules.remove name })

/-- Removes a rule; tells whether it was in the table. -/
def removeRule (name : String) : Operation Engine Bool := do
  persist (Database.deleteRule name)
  dropRule name

end WorkflowRules.Engine
