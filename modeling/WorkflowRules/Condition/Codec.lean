import WorkflowRules.Condition.Tree
import WorkflowRules.Json.Record

/-!
# Conditions as JSON

A group is written as its connective and its members, a leaf as its three fields. Both have a field
`operator`, and nothing else tells them apart: a value is read as a group first, and as a leaf when
that fails for any reason.

Trying twice needs the whole value, so it has to be complete before either attempt: a text that is
not JSON is found out first. The members of a group are recursed into structurally, through the
fields of its object or the items of its array.
-/

namespace WorkflowRules

open Json (Scan Reader Origin ReadError Field FieldList)

/-- The names of the connectives; the first two are the ones that are written. -/
def Connective.names : List (String × Connective) :=
  [("AND", .all), ("OR", .any), ("and", .all), ("or", .any)]

/-- The name under which a connective is written. -/
def Connective.name : Connective → String
  | .all => "AND"
  | .any => "OR"

/-- The fields of a leaf. -/
def Comparison.fields : FieldList [String, String, Json] :=
  .cons (.required "field" .string) <|
  .cons (.required "operator" .string) <|
  .cons (.defaulted "value" .any .null) .nil

/-- Reads a leaf. -/
def Comparison.reader : Reader Comparison :=
  .record Comparison.fields fun (field, operator, value, ()) => ⟨field, operator, value⟩

/-- The JSON value of a leaf. -/
def Comparison.toJson (c : Comparison) : Json :=
  .ofFields [("field", .string c.field), ("operator", .string c.operator), ("value", c.value)]

namespace Condition

/-- What has been read of a group: its connective and its members. -/
structure GroupSlots where
  connective : Option Connective
  members : Option (List Condition)

mutual

/-- Reads a condition from a complete value: a group if possible, else a leaf. -/
def ofScan? (scan : Scan) : Option Condition :=
  match groupOfScan? scan with
  | some c => some c
  | none => ((Comparison.reader .value scan).toOption).map .leaf

/-- Reads a group from an object or an array. -/
def groupOfScan? : Scan → Option Condition
  | .object fields _ => groupOfFields? ⟨none, none⟩ fields
  | .array items _ => groupOfItems? items
  | _ => none

/-- Reads a group from the fields of an object; a repeated field is refused. -/
def groupOfFields? (slots : GroupSlots) : List (Option String × Scan) → Option Condition
  | [] =>
    match slots with
    | ⟨some connective, some members⟩ => some (.group connective members)
    | _ => none
  | (name, v) :: rest =>
    if name = some "operator" then
      match slots.connective, Reader.cases Connective.names .value v with
      | none, .ok c => groupOfFields? { slots with connective := some c } rest
      | _, _ => none
    else if name = some "conditions" then
      match slots.members, membersOfScan? v with
      | none, some cs => groupOfFields? { slots with members := some cs } rest
      | _, _ => none
    else groupOfFields? slots rest

/-- Reads a group from the items of an array: its connective and its members, nothing more. -/
def groupOfItems? : List Scan → Option Condition
  | [op, v] =>
    match Reader.cases Connective.names .value op, membersOfScan? v with
    | .ok c, some cs => some (.group c cs)
    | _, _ => none
  | _ => none

/-- Reads the members of a group. -/
def membersOfScan? : Scan → Option (List Condition)
  | .array items _ => membersOfItems? items
  | _ => none

/-- Reads the members of a group one by one. -/
def membersOfItems? : List Scan → Option (List Condition)
  | [] => some []
  | v :: rest =>
    match ofScan? v, membersOfItems? rest with
    | some c, some cs => some (c :: cs)
    | _, _ => none

end

/-- Reads a condition. -/
def reader : Reader Condition := fun origin scan =>
  match scan.toValue? origin.room with
  | none => .error .notJson
  | some _ =>
    match ofScan? scan with
    | some c => .ok c
    | none => .error .wrongShape

mutual

/-- The JSON value of a condition. -/
def toJson : Condition → Json
  | .group connective members =>
    .ofFields
      [("operator", .string connective.name), ("conditions", .array (toJsonAll members))]
  | .leaf comparison => comparison.toJson

/-- The JSON values of several conditions. -/
def toJsonAll : List Condition → List Json
  | [] => []
  | c :: rest => toJson c :: toJsonAll rest

end

end Condition

end WorkflowRules
