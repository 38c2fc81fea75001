import WorkflowRules.Json.Basic
import WorkflowRules.Text.Digits
import WorkflowRules.Text.Split

/-!
# Field paths

A path names a place inside a payload. Its segments are separated by points; each one names a field
of an object or, as a decimal number, an item of an array. Whatever is not there is null. The empty
path names the payload itself, while an empty segment is a field name like any other.
-/

namespace WorkflowRules.Path

open WorkflowRules.Text (parseNat? splitText)

/-- The segments of a non-empty path. -/
def segments (path : String) : List String :=
  splitText '.' path

/-- What array positions are counted with. -/
def indexBound : Nat := Nat.pow 2 64

/-- The place that one segment names. -/
def child (value : Json) (segment : String) : Json :=
  match value with
  | .object fields => (Json.Fields.get? segment fields).getD .null
  | .array items =>
    match parseNat? indexBound segment with
    | some i => (items[i]?).getD .null
    | none => .null
  | _ => .null

/-- The place that a path names. -/
def resolve (payload : Json) (path : String) : Json :=
  if path = "" then payload
  else (segments path).foldl child payload

end WorkflowRules.Path
