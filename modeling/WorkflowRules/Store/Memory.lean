import WorkflowRules.Collection.Keyed
import WorkflowRules.Collection.SortBy
import WorkflowRules.Store.Basic

/-!
# The store in memory

Every instance is kept together with its history. An operation that fails changes nothing.
-/

namespace WorkflowRules

/-- An instance and its history. -/
structure StoredInstance where
  current : Instance
  /-- The entries in the order in which they were written. -/
  history : List HistoryEntry

/-- The stored instance after a commit. -/
def StoredInstance.commit (stored : StoredInstance) (version : Int) (state : String)
    (entry : HistoryEntry) : StoredInstance :=
  { current := stored.current.moved state version entry.timestamp
    history := stored.history ++ [{ entry with sequence := version }] }

/-- A store in memory. -/
structure MemoryStore where
  instances : Keyed InstanceKey StoredInstance

namespace MemoryStore

/-- The store without instances. -/
def empty : MemoryStore := ⟨.empty⟩

/-- An instance. -/
def get? (s : MemoryStore) (key : InstanceKey) : Option Instance :=
  (s.instances.get? key).map (·.current)

/-- The history of an instance. -/
def history? (s : MemoryStore) (key : InstanceKey) : Option (List HistoryEntry) :=
  (s.instances.get? key).map (·.history)

/-- The instances of a workflow, ordered by their entities. -/
def list (s : MemoryStore) (workflow : String) : List Instance :=
  sortBy (·.entityId)
    ((s.instances.entries.filter (·.1.1 = workflow)).map (·.2.current))

/-- Creates an instance. -/
def create (d : Definition) (entityId : String) (data : Json) (actorId : Option String)
    (now : Timestamp) : Operation MemoryStore Instance := fun s =>
  let key := (d.name, entityId)
  if s.instances.contains key then (.error (.error (.instanceExists key)), s)
  else
    let i := Instance.create d entityId data now
    (.ok i, ⟨s.instances.insert key ⟨i, [i.creationEntry actorId]⟩⟩)

/--
Moves an instance to a state and adds an entry to its history, unless the stored instance has
another version than the one the caller holds. Gives the stored instance.
-/
def commit (held : Instance) (state : String) (entry : HistoryEntry) :
    Operation MemoryStore Instance := fun s =>
  match s.instances.get? held.key with
  | none => (.error (.error (.instanceNotFound held.key)), s)
  | some stored =>
    if stored.current.version = held.version then
      let next := stored.commit (held.version + 1) state entry
      (.ok next.current, ⟨s.instances.insert held.key next⟩)
    else (.error (.error (.stale held)), s)

end MemoryStore

end WorkflowRules
