import WorkflowRules.Proofs.Cascade.Trails
import WorkflowRules.Proofs.Rule.Table

/-!
# How far cascades reach

A rule does not fire when the trail lists it, and whatever its actions publish lists it from then on. So
the rules run out along a chain of rules that fire. The announcement of a record is one hop further away
as well, whether the rule fired or not; but where no rule listens to announcements, the chain ends there.

* `CascadeTrail.unspent` — the rules that a chain has not used up
* `Engine.Within` — an event is so near that the rules left to its chain cannot lead beyond a bound
* `Considered.within` — what a rule causes is within the bound of its trigger
* `SetOff.within`, `SetOff.depth_le` — and so is a whole cascade, whatever limit is set
-/

namespace WorkflowRules

/-! ## The rules that are left -/

/-- The rules that a trail does not list. -/
def CascadeTrail.unspent (trail : CascadeTrail) (rules : List Rule) : List Rule :=
  rules.filter fun r => r.name ∉ trail.rules

theorem CascadeTrail.length_unspent_le (trail : CascadeTrail) (rules : List Rule) :
    (trail.unspent rules).length ≤ rules.length :=
  List.length_filter_le _ _

/-- A rule that fires uses itself up. -/
theorem CascadeTrail.length_unspent_child_lt {trail : CascadeTrail} {rules : List Rule} {r : Rule}
    (hr : r ∈ rules) (unlisted : r.name ∉ trail.rules) :
    ((trail.child r.name).unspent rules).length < (trail.unspent rules).length := by
  have hchild : (trail.child r.name).unspent rules =
      (trail.unspent rules).filter fun other => other.name ≠ r.name := by
    unfold unspent
    rw [List.filter_filter]
    refine List.filter_congr fun other _ => ?_
    simp only [mem_child_rules, not_or, and_comm, Bool.decide_and]
  rw [hchild, List.length_filter_lt_length_iff_exists]
  exact ⟨r, List.mem_filter.2 ⟨hr, by simpa using unlisted⟩, by simp⟩

namespace Engine

/-! ## Events within a bound -/

/-- No rule listens to the event, or the rules left to its chain cannot lead beyond the bound. -/
def Within (rules : List Rule) (bound : Nat) (x : DomainEvent) : Prop :=
  (∀ r ∈ rules, r.trigger ≠ x.name) ∨ x.trail.depth + (x.trail.unspent rules).length ≤ bound

variable {e : Engine} {rules : List Rule} {bound : Nat} {x : DomainEvent}
  {c : Consideration Cascade} {t : Cascade}

theorem within_start (rules : List Rule) (x : DomainEvent) :
    Within rules (x.trail.depth + rules.length) x :=
  .inr (Nat.add_le_add_left (x.trail.length_unspent_le rules) _)

/-- An event that some rule listens to leaves room for the rules that are left. -/
theorem Within.room (h : Within rules bound x) {r : Rule} (hr : r ∈ rules) (heard : r.trigger = x.name) :
    x.trail.depth + (x.trail.unspent rules).length ≤ bound := by
  rcases h with unheard | room
  · exact absurd heard (unheard r hr)
  · exact room

/-- Whatever a rule causes stays within the bound of the event that triggered it. -/
theorem Considered.within (considered : Considered e x c) (quiet : Quiet e)
    (table : e.rules.Represents rules) (unheard : ∀ r ∈ rules, r.trigger ≠ ruleExecutedEvent)
    (h : Within rules bound x) (ht : t ∈ c.caused) : Within rules bound t.event := by
  obtain ⟨hrule, heard⟩ := table.mem_bucket.1 considered.registered
  have room := h.room hrule heard
  have htrail := ((considered.accounted quiet).caused t ht).1
  rcases List.mem_append.1 ht with ht | ht
  · -- the rule fired, so one rule less is left where the event is one hop further away
    have fires := (considered.course.effects quiet t ht).1
    have spent := CascadeTrail.length_unspent_child_lt hrule (mem_rules_of_refusal?_eq_none fires)
    refine .inr ?_
    rw [htrail, CascadeTrail.child_depth]
    omega
  · cases considered.course with
    | broken => cases ht
    | announced setup first notice announced =>
      obtain rfl := List.mem_singleton.1 ht
      refine .inl fun r hr => ?_
      rw [announced.event_eq, (newEvent_content notice).1]
      exact unheard r hr

/-! ## Whole cascades -/

/-- Every event of a cascade stays within the bound of the first one. -/
theorem SetOff.within (h : SetOff e x t) (quiet : Quiet e) (table : e.rules.Represents rules)
    (unheard : ∀ r ∈ rules, r.trigger ≠ ruleExecutedEvent) :
    ∀ u ∈ t.parts, Within rules (x.trail.depth + rules.length) u.event := by
  have root : Within rules (x.trail.depth + rules.length) t.event :=
    h.event_eq ▸ within_start rules x
  refine Cascade.forall_mem_parts root fun u hu hwithin v hv => ?_
  obtain ⟨c, hc, hv⟩ := List.mem_flatMap.1 hv
  exact (h.considered quiet u hu c hc).within quiet table unheard hwithin hv

/-- Wherever a rule is considered, the event is no further away than there are rules. -/
theorem SetOff.depth_le (h : SetOff e x t) (quiet : Quiet e) (table : e.rules.Represents rules)
    (unheard : ∀ r ∈ rules, r.trigger ≠ ruleExecutedEvent) :
    ∀ u ∈ t.parts, ∀ c ∈ u.considered, u.event.trail.depth ≤ x.trail.depth + rules.length := by
  intro u hu c hc
  obtain ⟨hrule, heard⟩ := table.mem_bucket.1 (h.considered quiet u hu c hc).registered
  exact Nat.le_of_add_right_le ((h.within quiet table unheard u hu).room hrule heard)

end Engine

end WorkflowRules
