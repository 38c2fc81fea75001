import WorkflowRules.Event.Identifier
import WorkflowRules.Json.Record
import WorkflowRules.Time.Rfc3339

/-!
# Events and their trails

Rules react to events, and their actions publish events in turn. A `CascadeTrail` tells how an event
came about: how many hops it is away from the event at the start of its chain, and which rules fired
on the way. A rule is listed once, where it fired first.
-/

namespace WorkflowRules

open Json (Reader FieldList)

/-- How an event came about. -/
structure CascadeTrail where
  /-- Hops from the event at the start of the chain. -/
  depth : Nat
  /-- The rules that fired along the chain, oldest first. -/
  rules : List String
deriving DecidableEq, Repr

namespace CascadeTrail

/-- The trail of an event that no rule caused. -/
def root : CascadeTrail := ⟨0, []⟩

/-- Whether a rule has fired along the chain. -/
def contains (trail : CascadeTrail) (rule : String) : Bool :=
  trail.rules.any (· == rule)

/-- The trail of an event that a rule causes in handling an event with this trail. -/
def child (trail : CascadeTrail) (rule : String) : CascadeTrail :=
  ⟨trail.depth + 1, if trail.contains rule then trail.rules else trail.rules ++ [rule]⟩

@[simp] theorem child_depth (trail : CascadeTrail) (rule : String) :
    (trail.child rule).depth = trail.depth + 1 := rfl

theorem contains_iff {trail : CascadeTrail} {rule : String} :
    trail.contains rule = true ↔ rule ∈ trail.rules := by
  simp [contains]

/-- The fields of a trail. -/
def fields : FieldList [Nat, List String] :=
  .cons (.required "depth" (.nat (Nat.pow 2 32 - 1))) <|
  .cons (.required "rules" (.list .string)) .nil

/-- Reads a trail. -/
def reader : Reader CascadeTrail :=
  .record fields fun (depth, rules, ()) => ⟨depth, rules⟩

/-- The JSON value of a trail. -/
def toJson (trail : CascadeTrail) : Json :=
  .ofFields [("depth", .ofNat trail.depth), ("rules", .ofStrings trail.rules)]

end CascadeTrail

/-- A named event with a payload. -/
structure DomainEvent where
  id : Identifier
  name : String
  payload : Json
  occurredAt : Timestamp
  trail : CascadeTrail

/-- The event that is published after every evaluation of a rule. -/
def ruleExecutedEvent : String := "automation.rule.executed"

/-- The name of the event that is published when an instance enters a state. -/
def workflowEventName (workflow state : String) : String :=
  "workflow." ++ workflow ++ "." ++ state

/-- Reads a timestamp from a JSON string. -/
def Timestamp.reader : Reader Timestamp := .parsed Timestamp.readLenient?

/-- The JSON value of a timestamp. -/
def Timestamp.toJson (t : Timestamp) : Json := .string t.text

namespace DomainEvent

/-- The fields of an event. -/
def fields : FieldList [Identifier, String, Json, Timestamp, CascadeTrail] :=
  .cons (.required "id" Identifier.reader) <|
  .cons (.required "name" .string) <|
  .cons (.required "payload" .any) <|
  .cons (.required "occurred_at" Timestamp.reader) <|
  .cons (.defaulted "trail" CascadeTrail.reader .root) .nil

/-- Reads an event. -/
def reader : Reader DomainEvent :=
  .record fields fun (id, name, payload, occurredAt, trail, ()) =>
    ⟨id, name, payload, occurredAt, trail⟩

/-- The JSON value of an event. -/
def toJson (e : DomainEvent) : Json :=
  .ofFields
    [("id", .string e.id.text), ("name", .string e.name), ("payload", e.payload),
      ("occurred_at", e.occurredAt.toJson), ("trail", e.trail.toJson)]

end DomainEvent

end WorkflowRules
