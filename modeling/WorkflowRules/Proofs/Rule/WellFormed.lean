import WorkflowRules.Proofs.Rule.Table
import WorkflowRules.Rule.Check

/-!
# Well-formed rules

A rule that passes its check is complete: it has a name, a trigger and actions, all of which can be
carried out, and a condition that means something in all of its leaves.

* `Rule.WellFormed` — what the check asks for, and `Rule.problems_eq_nil_iff`
* `RuleTable.Contains` — the rule can be found by its name or by its trigger
-/

namespace WorkflowRules

open Text (isBlank)

namespace Rule

variable {r : Rule} {known known' : String → Bool}

/-- A rule that is complete, and whose action types are known. -/
structure WellFormed (known : String → Bool) (r : Rule) : Prop where
  name : isBlank r.name = false
  trigger : isBlank r.trigger = false
  actions : r.actions ≠ []
  known : ∀ a ∈ r.actions, known a.type = true
  condition : r.condition.problems = []

/-- The check finds nothing wrong with the well-formed rules, and with no others. -/
theorem problems_eq_nil_iff : r.problems known = [] ↔ r.WellFormed known := by
  have htypes : ((r.actions.filter fun a => !known a.type).map fun a =>
      RuleProblem.unknownAction a.type) = [] ↔ ∀ a ∈ r.actions, known a.type = true := by
    simp [List.filter_eq_nil_iff]
  unfold problems
  rw [List.append_eq_nil_iff, List.append_eq_nil_iff, List.append_eq_nil_iff,
    List.append_eq_nil_iff, htypes, List.map_eq_nil_iff]
  constructor
  · rintro ⟨⟨⟨⟨hname, htrigger⟩, hactions⟩, hknown⟩, hcondition⟩
    exact ⟨by simpa using hname, by simpa using htrigger, by simpa using hactions, hknown, hcondition⟩
  · rintro ⟨hname, htrigger, hactions, hknown, hcondition⟩
    exact ⟨⟨⟨⟨by simp [hname], by simp [htrigger]⟩, by simp [hactions]⟩, hknown⟩, hcondition⟩

/-- Only the types of its own actions count for a rule. -/
theorem problems_congr (h : ∀ a ∈ r.actions, known a.type = known' a.type) :
    r.problems known = r.problems known' := by
  have hfilter : (r.actions.filter fun a => !known a.type) = r.actions.filter fun a => !known' a.type :=
    List.filter_congr fun a ha => by rw [h a ha]
  rw [problems, problems, hfilter]

end Rule

namespace RuleTable

/-- The rule is found by a name, or it is one of the rules of a trigger. -/
def Contains (t : RuleTable) (r : Rule) : Prop :=
  (∃ name, t.byName.get? name = some r) ∨ ∃ trigger, r ∈ t.bucket trigger

/-- Either way the same rules are found. -/
theorem Represents.contains_iff {t : RuleTable} {rules : List Rule} (h : Represents t rules)
    {r : Rule} : t.Contains r ↔ r ∈ rules := by
  constructor
  · rintro (⟨name, hname⟩ | ⟨trigger, htrigger⟩)
    · exact (h.byName.1 hname).1
    · exact (h.mem_bucket.1 htrigger).1
  · intro hr
    exact .inl ⟨r.name, h.byName.2 ⟨hr, rfl⟩⟩

end RuleTable

end WorkflowRules
