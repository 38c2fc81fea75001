import WorkflowRules.Collection.Keyed
import WorkflowRules.Collection.SortBy
import WorkflowRules.Json.Print
import WorkflowRules.Json.Problem
import WorkflowRules.Rule.Basic
import WorkflowRules.Store.Basic
import WorkflowRules.Store.Cell

/-!
# The database

Four tables hold definitions, rules, instances and histories. Values are kept as texts: a value is
written when a row is stored and read again whenever the row is fetched, so a row that somebody else
has written may fail to be read.

A row is fetched as a whole before any of its texts is read. A JSON column that has become a number
cannot be fetched as a text, which is a failure that no operation survives.

Statements that write need a database that is writable. Several statements that belong together run
as one `Operation.atomic`.
-/

namespace WorkflowRules

open Json (Reader Shape)
open Text (natText)
open Store (Cell)

/-- A row of the table of instances. -/
structure InstanceRow where
  state : String
  version : Int
  data : Cell
  metadata : Cell
  createdAt : String
  updatedAt : String
deriving DecidableEq, Repr

/-- A row of the table of histories. -/
structure HistoryRow where
  fromState : Option String
  toState : String
  event : String
  actorId : Option String
  context : Cell
  createdAt : String
deriving DecidableEq, Repr

/-- The tables of a database. -/
structure Database where
  /-- Definitions by the names of their rows. -/
  definitions : Keyed String Cell
  /-- Rules by the names of their rows, in the order in which they are loaded. -/
  rules : Keyed String Cell
  instances : Keyed InstanceKey InstanceRow
  /-- Entries by instance and sequence. -/
  history : Keyed (InstanceKey × Int) HistoryRow
  writable : Bool

namespace Database

/-- A new database. -/
def empty : Database := ⟨.empty, .empty, .empty, .empty, true⟩

/-! ## Statements -/

/-- The database refuses a statement; the code tells why. -/
def refused (code : Nat) (reason : String) : AutomationError :=
  .storage ("error returned from database: (code: " ++ natText code ++ ") " ++ reason)

/-- A statement that writes. -/
def write {α : Type} (statement : Operation Database α) : Operation Database α := fun db =>
  if db.writable then statement db
  else (.error (.error (refused 8 "attempt to write a readonly database")), db)

/-- Stores a definition text under a name; a row that is there keeps its place. -/
def upsertDefinition (name text : String) : Operation Database Unit :=
  write <| .change fun db => { db with definitions := db.definitions.insert name (.ofText text) }

/-- Removes the definition stored under a name. -/
def deleteDefinition (name : String) : Operation Database Unit :=
  write <| .change fun db => { db with definitions := db.definitions.erase name }

/-- Stores a rule text under a name; a row that is there keeps its place. -/
def upsertRule (name text : String) : Operation Database Unit :=
  write <| .change fun db => { db with rules := db.rules.insert name (.ofText text) }

/-- Stores a rule text under a name in a new row, which is the last one. -/
def replaceRule (name text : String) : Operation Database Unit :=
  write <| .change fun db => { db with rules := (db.rules.erase name).insert name (.ofText text) }

/-- Removes the rule stored under a name. -/
def deleteRule (name : String) : Operation Database Unit :=
  write <| .change fun db => { db with rules := db.rules.erase name }

/-- Inserts the row of an instance if there is none; tells whether it was inserted. -/
def insertInstance (key : InstanceKey) (row : InstanceRow) : Operation Database Bool :=
  write fun db =>
    if db.instances.contains key then (.ok false, db)
    else (.ok true, { db with instances := db.instances.insert key row })

/-- Stores the row of an instance in place of any other. -/
def replaceInstance (key : InstanceKey) (row : InstanceRow) : Operation Database Unit :=
  write <| .change fun db => { db with instances := db.instances.insert key row }

/-- Moves an instance of a given version to a state; tells whether there was one. -/
def updateInstance (key : InstanceKey) (held : Int) (state : String) (version : Int)
    (updatedAt : String) : Operation Database Bool :=
  write fun db =>
    match db.instances.get? key with
    | some row =>
      if row.version = held then
        (.ok true,
          { db with instances := db.instances.insert key { row with state, version, updatedAt } })
      else (.ok false, db)
    | none => (.ok false, db)

/-- There is an entry with this sequence already. -/
def duplicateEntry : AutomationError :=
  refused 1555
    ("UNIQUE constraint failed: workflow_history.workflow_name, " ++
      "workflow_history.entity_id, workflow_history.sequence")

/-- Inserts an entry of a history; two entries of one instance differ in their sequences. -/
def insertHistory (key : InstanceKey) (sequence : Int) (row : HistoryRow) :
    Operation Database Unit :=
  write fun db =>
    if db.history.contains (key, sequence) then (.error (.error duplicateEntry), db)
    else (.ok (), { db with history := db.history.insert (key, sequence) row })

/-! ## Rows and values -/

/-- The row that stores an instance. -/
def rowOfInstance (i : Instance) : InstanceRow :=
  { state := i.state, version := i.version
    data := .ofText i.data.print, metadata := .ofText i.metadata.toJson.print
    createdAt := i.createdAt.columnText, updatedAt := i.updatedAt.columnText }

/-- The row that stores an entry. -/
def rowOfEntry (e : HistoryEntry) : HistoryRow :=
  { fromState := e.fromState, toState := e.toState, event := e.event, actorId := e.actorId
    context := .ofText e.context.print, createdAt := e.timestamp.columnText }

/-- Fetches the text of a JSON column. -/
def fetch : Cell → Except Failure String
  | .text s => .ok s
  | .number => .error .unreadable

/-- Reads a value from a stored text that should have a shape. -/
def decode {α : Type} (r : Reader α) (shape : Shape) (text : String) : Except Failure α :=
  match r.ofText text with
  | .ok a => .ok a
  | .error _ => .error (.error (.serialization (Json.describeProblem shape text)))

/-- Reads a stored timestamp. -/
def decodeTimestamp (text : String) : Except Failure Timestamp :=
  match Timestamp.read text with
  | .ok t => .ok t
  | .error e =>
    .error (.error (.validation ("invalid stored timestamp '" ++ text ++ "': " ++ e.message)))

/-- The instance that a row stores. -/
def instanceOfRow (key : InstanceKey) (row : InstanceRow) : Except Failure Instance := do
  let data ← fetch row.data
  let metadata ← fetch row.metadata
  let data ← decode .any .any data
  let metadata ← decode Metadata.reader Metadata.shape metadata
  let createdAt ← decodeTimestamp row.createdAt
  let updatedAt ← decodeTimestamp row.updatedAt
  return ⟨key.1, key.2, row.state, row.version, data, metadata, createdAt, updatedAt⟩

/-- The entry that a row stores. -/
def entryOfRow (sequence : Int) (row : HistoryRow) : Except Failure HistoryEntry := do
  let context ← fetch row.context
  let timestamp ← decodeTimestamp row.createdAt
  let context ← decode .any .any context
  return ⟨sequence, row.fromState, row.toState, row.event, row.actorId, timestamp, context⟩

/-! ## Instances -/

/-- An instance. -/
def get? (db : Database) (key : InstanceKey) : Except Failure (Option Instance) :=
  match db.instances.get? key with
  | none => .ok none
  | some row => (instanceOfRow key row).map some

/-- The rows of the history of an instance, in the order of their sequences. -/
def historyRows (db : Database) (key : InstanceKey) : List (Int × HistoryRow) :=
  ((db.history.entries.filter (·.1.1 = key)).map fun e => (e.1.2, e.2)).mergeSort
    fun a b => decide (a.1 ≤ b.1)

/-- The history of an instance, which is read as well. -/
def history? (db : Database) (key : InstanceKey) : Except Failure (Option (List HistoryEntry)) := do
  match ← db.get? key with
  | none => return none
  | some _ => return some (← (db.historyRows key).mapM fun e => entryOfRow e.1 e.2)

/-- The instances of a workflow, ordered by their entities. -/
def list (db : Database) (workflow : String) : Except Failure (List Instance) :=
  (sortBy (·.1.2) (db.instances.entries.filter (·.1.1 = workflow))).mapM
    fun e => instanceOfRow e.1 e.2

/-- Creates an instance: its row and the entry of its creation, or neither. -/
def create (d : Definition) (entityId : String) (data : Json) (actorId : Option String)
    (now : Timestamp) : Operation Database Instance := .atomic do
  let i := Instance.create d entityId data now
  let entry := i.creationEntry actorId
  if ← insertInstance i.key (rowOfInstance i) then
    insertHistory i.key entry.sequence (rowOfEntry entry)
    return i
  else
    .fail (.instanceExists i.key)

/--
Moves the row of an instance and adds an entry to its history, or neither. Tells whether there was
an instance of the version that the caller holds.
-/
def move (held : Instance) (state : String) (entry : HistoryEntry) : Operation Database Bool :=
  .atomic do
    let version := held.version + 1
    let moved ← updateInstance held.key held.version state version entry.timestamp.columnText
    if moved then
      insertHistory held.key version (rowOfEntry entry)
    return moved

/--
Moves an instance to a state and adds an entry to its history, unless the stored instance has
another version than the one the caller holds. Gives the instance of the caller, moved.
-/
def commit (held : Instance) (state : String) (entry : HistoryEntry) :
    Operation Database Instance := do
  if ← move held state entry then
    return held.moved state (held.version + 1) entry.timestamp
  else
    match ← Operation.viewExcept (·.get? held.key) with
    | some _ => .fail (.stale held)
    | none => .fail (.instanceNotFound held.key)

/-! ## Definitions and rules -/

/-- Stores a definition under its name. -/
def saveDefinition (d : Definition) : Operation Database Unit :=
  upsertDefinition d.name d.toJson.print

/-- Stores a rule under its name. -/
def saveRule (r : Rule) : Operation Database Unit :=
  upsertRule r.name r.toJson.print

/-- The values that can be read from rows, with the names of the rows; other rows are skipped. -/
def loadRows {α : Type} (r : Reader α) (rows : Keyed String Cell) :
    Except Failure (List (String × α)) := do
  let texts ← rows.entries.mapM fun row => do return (row.1, ← fetch row.2)
  return texts.filterMap fun row => ((r.ofText row.2).toOption).map (row.1, ·)

/-- The stored definitions that can be read, with the names of their rows. -/
def loadDefinitions (db : Database) : Except Failure (List (String × Definition)) :=
  loadRows Definition.reader db.definitions

/-- The stored rules that can be read, in the order of their rows. -/
def loadRules (db : Database) : Except Failure (List Rule) := do
  return (← loadRows Rule.reader db.rules).map (·.2)

end Database

end WorkflowRules
