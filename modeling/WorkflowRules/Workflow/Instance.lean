import WorkflowRules.Event.Basic
import WorkflowRules.Metadata

/-!
# Workflow instances

An instance binds a workflow to one entity. It is in one state, and every change of state adds an
entry to its history. The version of an instance is the number of entries; whoever changes an
instance names the version that was loaded, so a change in between is noticed.
-/

namespace WorkflowRules

open Json (Reader FieldList)

/-- Reads an integer of 64 bits. -/
def Json.Reader.int64 : Reader Int := .int (-Int.pow 2 63) (Int.pow 2 63 - 1)

/-- A workflow bound to an entity. -/
structure Instance where
  workflow : String
  entityId : String
  state : String
  /-- The number of entries of the history. -/
  version : Int
  /-- The data that the instance was created with. -/
  data : Json
  metadata : Metadata
  createdAt : Timestamp
  updatedAt : Timestamp

namespace Instance

/-- What an instance is found by: its workflow and its entity. -/
def key (i : Instance) : String × String := (i.workflow, i.entityId)

/-- The instance after a change of state. -/
def moved (i : Instance) (state : String) (version : Int) (time : Timestamp) : Instance :=
  { i with state, version, updatedAt := time }

/-- The fields of an instance. -/
def fields : FieldList [String, String, String, Int, Json, Metadata, Timestamp, Timestamp] :=
  .cons (.required "workflow_name" .string) <|
  .cons (.required "entity_id" .string) <|
  .cons (.required "current_state" .string) <|
  .cons (.required "version" .int64) <|
  .cons (.defaulted "data" .any .null) <|
  .cons (.defaulted "metadata" Metadata.reader .empty) <|
  .cons (.required "created_at" Timestamp.reader) <|
  .cons (.required "updated_at" Timestamp.reader) .nil

/-- Reads an instance. -/
def reader : Reader Instance :=
  .record fields fun (workflow, entityId, state, version, data, metadata, createdAt, updatedAt, ()) =>
    ⟨workflow, entityId, state, version, data, metadata, createdAt, updatedAt⟩

/-- The JSON value of an instance. -/
def toJson (i : Instance) : Json :=
  .ofFields
    [("workflow_name", .string i.workflow), ("entity_id", .string i.entityId),
      ("current_state", .string i.state), ("version", .ofInt i.version), ("data", i.data),
      ("metadata", i.metadata.toJson), ("created_at", i.createdAt.toJson),
      ("updated_at", i.updatedAt.toJson)]

end Instance

/-- One change of state. -/
structure HistoryEntry where
  /-- The position in the history, counted from 1. -/
  sequence : Int
  /-- The state before; the entry of the creation has none. -/
  fromState : Option String
  toState : String
  event : String
  actorId : Option String
  timestamp : Timestamp
  /-- The data of the transition's context. -/
  context : Json

/-- The event of the entry that records a creation. -/
def createdEvent : String := "__created__"

namespace HistoryEntry

/-- The fields of an entry. -/
def fields :
    FieldList [Int, Option String, String, String, Option String, Timestamp, Json] :=
  .cons (.required "sequence" .int64) <|
  .cons (.optional "from_state" .string) <|
  .cons (.required "to_state" .string) <|
  .cons (.required "event" .string) <|
  .cons (.optional "actor_id" .string) <|
  .cons (.required "timestamp" Timestamp.reader) <|
  .cons (.defaulted "context" .any .null) .nil

/-- Reads an entry. -/
def reader : Reader HistoryEntry :=
  .record fields fun (sequence, fromState, toState, event, actorId, timestamp, context, ()) =>
    ⟨sequence, fromState, toState, event, actorId, timestamp, context⟩

/-- The JSON value of an entry. -/
def toJson (e : HistoryEntry) : Json :=
  .ofFields
    [("sequence", .ofInt e.sequence), ("from_state", .ofOption e.fromState),
      ("to_state", .string e.toState), ("event", .string e.event),
      ("actor_id", .ofOption e.actorId), ("timestamp", e.timestamp.toJson),
      ("context", e.context)]

end HistoryEntry

/-- What the caller of a transition gives to guards, hooks and the history. -/
structure TransitionContext where
  actorId : Option String
  data : Json.Fields
  /-- The chain of events that the transition is part of. -/
  trail : CascadeTrail

namespace TransitionContext

/-- A context without actor and data, at the start of a chain. -/
def empty : TransitionContext := ⟨none, [], .root⟩

/-- Adds a field to the data. -/
def insert (c : TransitionContext) (name : String) (value : Json) : TransitionContext :=
  { c with data := c.data.insert name value }

/-- The data as it is written to the history. -/
def snapshot (c : TransitionContext) : Json := .object c.data

/-- The fields of a context. The trail is none of them. -/
def fields : FieldList [Option String, Json.Fields] :=
  .cons (.defaulted "actor_id" (.option .string) none) <|
  .cons (.defaulted "data" .fields []) .nil

/-- Reads a context at the start of a chain. -/
def reader : Reader TransitionContext :=
  .record fields fun (actorId, data, ()) => ⟨actorId, data, .root⟩

/-- The JSON value of a context. -/
def toJson (c : TransitionContext) : Json :=
  .ofFields [("actor_id", .ofOption c.actorId), ("data", c.snapshot)]

end TransitionContext

/-- A transition that leaves the current state, whether or not its guards would agree. -/
structure AvailableTransition where
  event : String
  target : String
deriving DecidableEq, Repr

namespace AvailableTransition

/-- The fields of an available transition. -/
def fields : FieldList [String, String] :=
  .cons (.required "event" .string) <|
  .cons (.required "to" .string) .nil

/-- Reads an available transition. -/
def reader : Reader AvailableTransition :=
  .record fields fun (event, target, ()) => ⟨event, target⟩

/-- The JSON value of an available transition. -/
def toJson (t : AvailableTransition) : Json :=
  .ofFields [("event", .string t.event), ("to", .string t.target)]

end AvailableTransition

end WorkflowRules
