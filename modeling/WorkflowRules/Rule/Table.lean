import WorkflowRules.Collection.Keyed
import WorkflowRules.Collection.SortBy
import WorkflowRules.Rule.Basic

/-!
# The rule table

Rules are found by name, and by trigger in the order in which they are considered: a higher priority
first, and of equal priorities the rule that was put in earlier. The rules of one trigger form a
bucket; a bucket is never empty.

Enabling and disabling a rule leaves it in its place, while putting in a rule again moves it behind
the rules of its priority.
-/

namespace WorkflowRules

/-- Rules by name, and by trigger in the order in which they are considered. -/
structure RuleTable where
  byName : Keyed String Rule
  byTrigger : Keyed String (List Rule)

namespace RuleTable

/-- The table without rules. -/
def empty : RuleTable := ⟨.empty, .empty⟩

/-- The rules of a trigger. -/
def bucket (t : RuleTable) (trigger : String) : List Rule :=
  (t.byTrigger.get? trigger).getD []

/-- Puts a rule behind the rules of the same or a higher priority. -/
def place (rule : Rule) : List Rule → List Rule
  | [] => [rule]
  | r :: rest => if r.priority < rule.priority then rule :: r :: rest else r :: place rule rest

/-- Gives a trigger a bucket; an empty one is not kept. -/
def setBucket (buckets : Keyed String (List Rule)) (trigger : String) (bucket : List Rule) :
    Keyed String (List Rule) :=
  if bucket.isEmpty then buckets.erase trigger else buckets.insert trigger bucket

/-- Removes a rule. -/
def remove (t : RuleTable) (name : String) : RuleTable :=
  match t.byName.get? name with
  | none => t
  | some rule =>
    { byName := t.byName.erase name
      byTrigger :=
        setBucket t.byTrigger rule.trigger ((t.bucket rule.trigger).filter (·.name ≠ name)) }

/-- Puts in a rule; a rule of that name gives way. -/
def upsert (t : RuleTable) (rule : Rule) : RuleTable :=
  let others := t.remove rule.name
  { byName := others.byName.insert rule.name rule
    byTrigger := others.byTrigger.insert rule.trigger (place rule (others.bucket rule.trigger)) }

/-- Replaces the first rule that has the name of the given one. -/
def substitute (rule : Rule) : List Rule → List Rule
  | [] => []
  | r :: rest => if r.name = rule.name then rule :: rest else r :: substitute rule rest

/-- Enables or disables a rule in its place. -/
def setEnabled (t : RuleTable) (name : String) (enabled : Bool) : RuleTable :=
  match t.byName.get? name with
  | none => t
  | some found =>
    let rule := { found with enabled }
    { byName := t.byName.insert name rule
      byTrigger := setBucket t.byTrigger rule.trigger (substitute rule (t.bucket rule.trigger)) }

/-- All rules, ordered by trigger and then as they are considered. -/
def list (t : RuleTable) : List Rule :=
  (sortBy id t.byTrigger.keys).flatMap t.bucket

/-- The number of rules. -/
def size (t : RuleTable) : Nat := t.byName.size

end RuleTable

end WorkflowRules
