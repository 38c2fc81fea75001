import WorkflowRules.Store.Database
import WorkflowRules.Store.Memory

/-!
# Stores

An engine works on a store in memory, from which nothing survives, or on a database. Only a database
keeps definitions and rules as well.
-/

namespace WorkflowRules

/-- Where an engine keeps what it has to keep. -/
inductive Store where
  | memory (s : MemoryStore)
  | database (db : Database)

namespace Store

/-- An instance. -/
def get? (key : InstanceKey) : Store → Except Failure (Option Instance)
  | .memory s => .ok (s.get? key)
  | .database db => db.get? key

/-- The history of an instance. -/
def history? (key : InstanceKey) : Store → Except Failure (Option (List HistoryEntry))
  | .memory s => .ok (s.history? key)
  | .database db => db.history? key

/-- The instances of a workflow, ordered by their entities. -/
def list (workflow : String) : Store → Except Failure (List Instance)
  | .memory s => .ok (s.list workflow)
  | .database db => db.list workflow

/-- Runs an operation on whatever the store is. -/
def onEither {α : Type} (m : Operation MemoryStore α) (d : Operation Database α) :
    Operation Store α
  | .memory s => let r := m s; (r.1, .memory r.2)
  | .database db => let r := d db; (r.1, .database r.2)

/-- Creates an instance. -/
def create (d : Definition) (entityId : String) (data : Json) (actorId : Option String)
    (now : Timestamp) : Operation Store Instance :=
  onEither (MemoryStore.create d entityId data actorId now)
    (Database.create d entityId data actorId now)

/-- Moves an instance to a state and adds an entry to its history. -/
def commit (held : Instance) (state : String) (entry : HistoryEntry) : Operation Store Instance :=
  onEither (MemoryStore.commit held state entry) (Database.commit held state entry)

/-- Runs an operation on the database, if there is one. -/
def persist (x : Operation Database Unit) : Operation Store Unit :=
  onEither (pure ()) x

end Store

end WorkflowRules
