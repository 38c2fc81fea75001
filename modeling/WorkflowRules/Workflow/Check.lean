import WorkflowRules.Text.Digits
import WorkflowRules.Text.WhiteSpace
import WorkflowRules.Workflow.Definition

/-!
# Checking definitions

A definition is checked before it is registered. The first problem in a fixed order is reported:
first name, states and initial state, then the transitions one by one in the order of their
declaration.

A registry may be strict. It then refuses a definition in which an event leaves a state twice.
-/

namespace WorkflowRules

open Text (isBlank natText)

/-- What is wrong with a definition. -/
inductive DefinitionProblem where
  | blankName
  | noStates
  | undeclaredInitialState (state : String)
  /-- The transition at this position, counted from 0, has no event. -/
  | noEvent (position : Nat)
  | noSources (event : String)
  | unknownState (event state : String)
  /-- An event leaves a state twice. -/
  | ambiguous (event state : String)
deriving DecidableEq, Repr

/-- The wording of a problem of the workflow with a given name. -/
def DefinitionProblem.message (name : String) : DefinitionProblem → String
  | .blankName => "workflow name must not be empty"
  | .noStates => "workflow '" ++ name ++ "' declares no states"
  | .undeclaredInitialState state =>
    "workflow '" ++ name ++ "': initial state '" ++ state ++ "' is not declared"
  | .noEvent position =>
    "workflow '" ++ name ++ "': transition #" ++ natText position ++ " has no event"
  | .noSources event =>
    "workflow '" ++ name ++ "': transition '" ++ event ++ "' has no source states"
  | .unknownState event state =>
    "workflow '" ++ name ++ "': transition '" ++ event ++ "' references unknown state '" ++
      state ++ "'"
  | .ambiguous event state =>
    "workflow '" ++ name ++ "': more than one transition for event '" ++ event ++
      "' from state '" ++ state ++ "'"

/-- The pairs of a state and an event that a transition is taken for. -/
def Transition.pairs (t : Transition) : List (String × String) :=
  t.sources.map (·, t.event)

namespace Definition

/-- The first pair that has been seen before, among earlier pairs or in the list itself. -/
def repeatedPair? (seen : List (String × String)) :
    List (String × String) → Option (String × String)
  | [] => none
  | p :: rest => if p ∈ seen then some p else repeatedPair? (p :: seen) rest

/-- The first problem of a transition; `seen` are the pairs of the transitions before it. -/
def transitionProblem? (strict : Bool) (states : NameSet) (seen : List (String × String))
    (position : Nat) (t : Transition) : Option DefinitionProblem :=
  if isBlank t.event then some (.noEvent position)
  else if t.sources.isEmpty then some (.noSources t.event)
  else
    match (t.sources ++ [t.target]).find? fun s => !states.contains s with
    | some s => some (.unknownState t.event s)
    | none =>
      if strict then (repeatedPair? seen t.pairs).map fun p => .ambiguous p.2 p.1 else none

/-- The first problem of a list of transitions. -/
def transitionsProblem? (strict : Bool) (states : NameSet) (seen : List (String × String))
    (position : Nat) : List Transition → Option DefinitionProblem
  | [] => none
  | t :: rest =>
    match transitionProblem? strict states seen position t with
    | some p => some p
    | none => transitionsProblem? strict states (t.pairs ++ seen) (position + 1) rest

/-- The first problem of a definition. -/
def problem? (strict : Bool) (d : Definition) : Option DefinitionProblem :=
  if isBlank d.name then some .blankName
  else if d.states.isEmpty then some .noStates
  else if !d.states.contains d.initialState then some (.undeclaredInitialState d.initialState)
  else transitionsProblem? strict d.states [] 0 d.transitions

end Definition

end WorkflowRules
