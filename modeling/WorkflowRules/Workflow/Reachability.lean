import WorkflowRules.Workflow.Definition

/-!
# Reachable states

A state is reachable when a sequence of transitions leads to it from the initial state through
declared states. The set of reachable states is grown round by round. A round adds every declared
state that one transition reaches from the states so far; there are at most as many rounds that add
something as there are states.
-/

namespace WorkflowRules.Definition

/-- Whether some transition leads from one state to another. -/
def steps (d : Definition) (source target : String) : Bool :=
  d.transitions.any fun t => t.leaves source && t.target == target

/-- The declared states that one transition reaches for the first time. -/
def frontier (d : Definition) (reached : List String) : List String :=
  d.states.toList.filter fun s => !reached.contains s && reached.any (d.steps · s)

/-- The states that at most `rounds` transitions reach from the states reached so far. -/
def reachableWithin (d : Definition) : Nat → List String → List String
  | 0, reached => reached
  | rounds + 1, reached => d.reachableWithin rounds (reached ++ d.frontier reached)

/-- The states that transitions reach from the initial state. -/
def reachable (d : Definition) : List String :=
  d.reachableWithin d.states.toList.length [d.initialState]

/--
The declared states that no sequence of transitions reaches, in ascending order. All of them are
unreachable when the initial state is not declared.
-/
def unreachable (d : Definition) : List String :=
  if d.states.contains d.initialState then
    let reached := d.reachable
    d.states.toList.filter fun s => !reached.contains s
  else d.states.toList

end WorkflowRules.Definition
