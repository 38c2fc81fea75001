import WorkflowRules.Collection.NameSet
import WorkflowRules.Json.Record
import WorkflowRules.Metadata

/-!
# Workflow definitions

A workflow is a named finite state machine. Its transitions are kept in the order of their
declaration: where several of them leave one state on one event, the first one counts.
-/

namespace WorkflowRules

open Json (Reader FieldList)

/-- An edge of the state machine, taken on a named event. -/
structure Transition where
  /-- The states that the transition leaves. -/
  sources : List String
  target : String
  event : String
  /-- Guards in the order in which they are asked; all of them have to agree. -/
  guards : List String := []
  /-- Hooks that run before the commit; a failure prevents it. -/
  beforeHooks : List String := []
  /-- Hooks that run after the commit; failures are ignored. -/
  afterHooks : List String := []
deriving DecidableEq, Repr

namespace Transition

/-- Whether the transition leaves a state. -/
def leaves (t : Transition) (state : String) : Bool :=
  t.sources.any (· == state)

/-- Whether the transition leaves a state on an event. -/
def applies (t : Transition) (state event : String) : Bool :=
  t.event == event && t.leaves state

/-- The fields of a transition. -/
def fields :
    FieldList [List String, String, String, List String, List String, List String] :=
  .cons (.required "from" (.list .string)) <|
  .cons (.required "to" .string) <|
  .cons (.required "event" .string) <|
  .cons (.defaulted "guards" (.list .string) []) <|
  .cons (.defaulted "before_hooks" (.list .string) []) <|
  .cons (.defaulted "after_hooks" (.list .string) []) .nil

/-- Reads a transition. -/
def reader : Reader Transition :=
  .record fields fun (sources, target, event, guards, beforeHooks, afterHooks, ()) =>
    { sources, target, event, guards, beforeHooks, afterHooks }

/-- The JSON value of a transition. -/
def toJson (t : Transition) : Json :=
  .ofFields
    [("from", .ofStrings t.sources), ("to", .string t.target), ("event", .string t.event),
      ("guards", .ofStrings t.guards), ("before_hooks", .ofStrings t.beforeHooks),
      ("after_hooks", .ofStrings t.afterHooks)]

end Transition

/-- A named finite state machine. -/
structure Definition where
  name : String
  /-- The kind of entity that the workflow governs. -/
  entityType : String
  initialState : String
  states : NameSet
  transitions : List Transition
  metadata : Metadata

namespace Definition

/-- A definition without transitions. -/
def ofStates (name entityType initialState : String) (states : List String) : Definition :=
  ⟨name, entityType, initialState, .ofList states, [], .empty⟩

/-- Adds a transition after the others. -/
def addTransition (d : Definition) (t : Transition) : Definition :=
  { d with transitions := d.transitions ++ [t] }

/-- The transitions that leave a state. -/
def outgoing (d : Definition) (state : String) : List Transition :=
  d.transitions.filter (·.leaves state)

/-- The transitions that leave a state on an event. -/
def candidates (d : Definition) (state event : String) : List Transition :=
  d.transitions.filter (·.applies state event)

/-- The transition that an event takes from a state: the first one that leaves it on the event. -/
def select? (d : Definition) (state event : String) : Option Transition :=
  d.transitions.find? (·.applies state event)

/-- The fields of a definition. -/
def fields : FieldList [String, String, String, List String, List Transition, Metadata] :=
  .cons (.defaulted "name" .string "") <|
  .cons (.required "entity_type" .string) <|
  .cons (.required "initial_state" .string) <|
  .cons (.required "states" (.list .string)) <|
  .cons (.required "transitions" (.list Transition.reader)) <|
  .cons (.defaulted "metadata" Metadata.reader .empty) .nil

/-- Reads a definition. -/
def reader : Reader Definition :=
  .record fields fun (name, entityType, initialState, states, transitions, metadata, ()) =>
    ⟨name, entityType, initialState, .ofList states, transitions, metadata⟩

/-- The JSON value of a definition. -/
def toJson (d : Definition) : Json :=
  .ofFields
    [("name", .string d.name), ("entity_type", .string d.entityType),
      ("initial_state", .string d.initialState), ("states", .ofStrings d.states.toList),
      ("transitions", .array (d.transitions.map Transition.toJson)),
      ("metadata", d.metadata.toJson)]

end Definition

end WorkflowRules
