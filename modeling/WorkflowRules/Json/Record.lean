import WorkflowRules.Json.Reader

/-!
# Records

A record is described by its fields in the order of their declaration. It is read from an object
with these fields, or from an array of their values in that order.

* An object may have further fields, which are skipped. A field that is given twice is refused.
* A field that is not given takes its default; without one the record is refused.
* An array may end before a field with a default. An array that is too long is refused; in a text
  the reader has then read the whole record and meets an item where the array should end, so the
  text counts as not JSON.

Values read so far are kept in slots, one per field, because the fields of an object come in the
order of the text.
-/

namespace WorkflowRules.Json

/-- A field of a record. -/
structure Field (α : Type) where
  name : String
  read : Reader α
  /-- The value in an object without this field. -/
  absent : Option α
  /-- The value in an array that ends before this field. -/
  beyond : Option α

namespace Field

/-- A field that has to be given. -/
def required {α : Type} (name : String) (read : Reader α) : Field α :=
  ⟨name, read, none, none⟩

/-- A field with a default. -/
def defaulted {α : Type} (name : String) (read : Reader α) (value : α) : Field α :=
  ⟨name, read, some value, some value⟩

/-- A field that may be left out of an object, but not of an array. -/
def optional {α : Type} (name : String) (read : Reader α) : Field (Option α) :=
  ⟨name, Reader.option read, some none, none⟩

end Field

/-- The fields of a record, with the types of their values. -/
inductive FieldList : List Type → Type 1 where
  | nil : FieldList []
  | cons {α : Type} {ts : List Type} (field : Field α) (rest : FieldList ts) : FieldList (α :: ts)

/-- One value for each field. -/
def Row : List Type → Type
  | [] => Unit
  | α :: ts => α × Row ts

/-- A place for the value of each field. -/
def Slots : List Type → Type
  | [] => Unit
  | α :: ts => Option α × Slots ts

namespace FieldList

/-- Slots without a value. -/
def emptySlots : {ts : List Type} → FieldList ts → Slots ts
  | [], .nil => ()
  | _ :: _, .cons _ rest => (none, rest.emptySlots)

/-- Reads the value of a named field into its slot; `none` when there is no field of that name. -/
def fill (origin : Origin) (name : String) (v : Scan) :
    {ts : List Type} → FieldList ts → Slots ts → Except ReadError (Option (Slots ts))
  | [], .nil, () => .ok none
  | _ :: _, .cons field rest, (slot, slots) =>
    if field.name = name then
      match slot with
      | some _ => .error .wrongShape
      | none => do
        let a ← field.read origin v
        return some (some a, slots)
    else do
      let filled ← rest.fill origin name v slots
      return filled.map fun slots => (slot, slots)

/-- The values of all fields, with defaults for those not given. -/
def finish : {ts : List Type} → FieldList ts → Slots ts → Except ReadError (Row ts)
  | [], .nil, () => .ok ()
  | _ :: _, .cons field rest, (slot, slots) =>
    match slot.orElse fun _ => field.absent with
    | none => .error .wrongShape
    | some a => do return (a, ← rest.finish slots)

/-- Reads the fields of an object in the order of the text. -/
def readObject {ts : List Type} (fs : FieldList ts) (origin : Origin) (ending : Ending)
    (slots : Slots ts) : List (Option String × Scan) → Except ReadError (Row ts)
  | [] => if ending = .closed then fs.finish slots else .error .notJson
  | (none, _) :: _ => .error .notJson
  | (some n, v) :: rest => do
    match ← fs.fill origin n v slots with
    | some slots => fs.readObject origin ending slots rest
    | none =>
      Reader.skip origin v
      fs.readObject origin ending slots rest

/-- Reads the fields from the items of an array. -/
def readArray (origin : Origin) (ending : Ending) :
    {ts : List Type} → FieldList ts → List Scan → Except ReadError (Row ts)
  | [], .nil, vs =>
    if vs.isEmpty && ending == .closed then .ok ()
    else
      match origin with
      | .text _ => .error .notJson
      | .value => .error .wrongShape
  | _ :: _, .cons field rest, [] =>
    if ending = .closed then
      match field.beyond with
      | some a => do return (a, ← rest.readArray origin ending [])
      | none => .error .wrongShape
    else .error .notJson
  | _ :: _, .cons field rest, v :: vs => do
    let a ← field.read origin v
    return (a, ← rest.readArray origin ending vs)

end FieldList

/-- Reads a record from an object or an array. -/
def Reader.record {α : Type} {ts : List Type} (fs : FieldList ts) (build : Row ts → α) :
    Reader α := fun origin scan =>
  match scan with
  | .object fields ending => do
    return build (← fs.readObject (← origin.enter) ending fs.emptySlots fields)
  | .array items ending => do
    return build (← fs.readArray (← origin.enter) ending items)
  | scan => .error (Reader.mismatch scan)

end WorkflowRules.Json
