import WorkflowRules.Engine.Lifecycle
import WorkflowRules.Text.Escape

/-!
# Descriptions

An engine and its parts describe themselves in one line for whoever looks for a mistake: the name of
the part, and in braces its settings and how many things it holds.
-/

namespace WorkflowRules.Engine

open Text (natText quotedText)

/-- A part with its fields. -/
def describePart (name : String) (fields : List (String × String)) : String :=
  name ++ " \x7b " ++ ", ".intercalate (fields.map fun f => f.1 ++ ": " ++ f.2) ++ " \x7d"

/-- The name of a match mode in descriptions. -/
def describeMode : MatchMode → String
  | .fanOut => "FanOut"
  | .firstMatch => "FirstMatch"

/-- Describes the settings. -/
def describeConfig (c : EngineConfig) : String :=
  describePart "EngineConfig"
    [("max_cascade_depth", natText c.maxCascadeDepth),
      ("rule_match_mode", describeMode c.matchMode),
      ("strict_transitions", if c.strictTransitions then "true" else "false")]

/-- Describes the rules. -/
def describeRules (e : Engine) : String :=
  describePart "RuleEngine"
    [("rules", natText e.rules.size), ("max_cascade_depth", natText e.config.maxCascadeDepth),
      ("match_mode", describeMode e.config.matchMode)]

/-- Describes an engine. -/
def describe (e : Engine) : String :=
  describePart "AutomationEngine"
    [("config", describeConfig e.config), ("workflows", natText e.registry.size),
      ("rules", describeRules e)]

/-- The registered action types in ascending order. -/
def actionTypes (e : Engine) : List String := sortBy id e.actions.keys

/-- Describes the action handlers. -/
def describeActions (e : Engine) : String :=
  describePart "ActionDispatcher"
    [("types", "[" ++ ", ".intercalate ((actionTypes e).map quotedText) ++ "]")]

/-- Describes guards and hooks. -/
def describeHandlers (e : Engine) : String :=
  describePart "HandlerRegistry"
    [("guards", natText e.guards.size), ("hooks", natText e.hooks.size)]

/-- Describes the event bus, which so many observe from outside. -/
def describeBus (observers : Nat) (e : Engine) : String :=
  describePart "EventBus"
    [("observers", natText observers), ("subscribers", natText (subscriberCount e))]

end WorkflowRules.Engine
