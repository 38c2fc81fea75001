import WorkflowRules.Operation
import WorkflowRules.Workflow.Definition
import WorkflowRules.Workflow.Instance

/-!
# What all instance stores share

A store keeps instances and their histories. An instance comes into being in the initial state of
its workflow, together with the entry that records the creation. From then on it only changes by
commits, and each commit adds one entry.
-/

namespace WorkflowRules

/-- What instances are found by: the name of the workflow and the entity. -/
abbrev InstanceKey := String × String

/-- The new instance of a workflow. -/
def Instance.create (d : Definition) (entityId : String) (data : Json) (now : Timestamp) :
    Instance :=
  { workflow := d.name, entityId, state := d.initialState, version := 1, data
    metadata := .empty, createdAt := now, updatedAt := now }

/-- The entry that records the creation of an instance. -/
def Instance.creationEntry (i : Instance) (actorId : Option String) : HistoryEntry :=
  { sequence := 1, fromState := none, toState := i.state, event := createdEvent, actorId
    timestamp := i.createdAt, context := i.data }

/-- The name of an instance in messages. -/
def InstanceKey.describe (key : InstanceKey) : String :=
  "instance " ++ key.1 ++ "/" ++ key.2

/-- There is an instance already. -/
def AutomationError.instanceExists (key : InstanceKey) : AutomationError :=
  .alreadyExists (InstanceKey.describe key)

/-- There is no such instance. -/
def AutomationError.instanceNotFound (key : InstanceKey) : AutomationError :=
  .notFound (InstanceKey.describe key)

/-- The instance has changed since the caller loaded it. -/
def AutomationError.stale (i : Instance) : AutomationError :=
  .concurrentModification i.workflow i.entityId i.version

end WorkflowRules
