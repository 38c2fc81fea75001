import WorkflowRules.Json.Problem
import WorkflowRules.Json.Reader

/-!
# Metadata

Definitions, instances and rules carry an open document. A description and tags are known fields of
it; every other field is kept as it is and written again.

A description that is absent and an empty list of tags are not written. Metadata is always an
object, never an array of its fields.
-/

namespace WorkflowRules

open Json (Reader Origin Ending Scan Shape ReadError Fields)

/-- An open document with two known fields. -/
structure Metadata where
  description : Option String
  tags : List String
  /-- The fields that are not known. -/
  extra : Fields

namespace Metadata

/-- Metadata without any field. -/
def empty : Metadata := ⟨none, [], []⟩

/-- What has been read of metadata so far. -/
structure Slots where
  description : Option (Option String)
  tags : Option (List String)
  extra : Fields

/-- The metadata of what has been read. -/
def Slots.finish (slots : Slots) : Metadata :=
  ⟨slots.description.getD none, slots.tags.getD [], slots.extra⟩

/-- Reads one field into its slot. A known field may be given once; of the others the last counts. -/
def Slots.fill (origin : Origin) (slots : Slots) (name : String) (v : Scan) :
    Except ReadError Slots :=
  if name = "description" then
    match slots.description with
    | some _ => .error .wrongShape
    | none => do return { slots with description := some (← Reader.option .string origin v) }
  else if name = "tags" then
    match slots.tags with
    | some _ => .error .wrongShape
    | none => do return { slots with tags := some (← Reader.list .string origin v) }
  else do return { slots with extra := slots.extra.insert name (← Reader.any origin v) }

/-- Reads the fields in the order of the text. -/
def readFields (origin : Origin) (ending : Ending) (slots : Slots) :
    List (Option String × Scan) → Except ReadError Metadata
  | [] => if ending = .closed then .ok slots.finish else .error .notJson
  | (none, _) :: _ => .error .notJson
  | (some name, v) :: rest => do
    readFields origin ending (← slots.fill origin name v) rest

/-- Reads metadata. -/
def reader : Reader Metadata := fun origin scan =>
  match scan with
  | .object fields ending => do readFields (← origin.enter) ending ⟨none, none, []⟩ fields
  | scan => .error (Reader.mismatch scan)

/-- The shape that is asked of metadata. -/
def shape : Shape :=
  .record "struct Metadata" [("description", .optional .text), ("tags", .list .text)]

/-- The known fields that are written. -/
def knownFields (m : Metadata) : List (String × Json) :=
  (match m.description with
    | some d => [("description", .string d)]
    | none => []) ++
  (if m.tags.isEmpty then [] else [("tags", .ofStrings m.tags)])

/-- The JSON value of metadata. -/
def toJson (m : Metadata) : Json :=
  .ofFields (m.knownFields ++ m.extra)

end Metadata

end WorkflowRules
