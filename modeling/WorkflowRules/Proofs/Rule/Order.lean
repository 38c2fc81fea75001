import WorkflowRules.Proofs.Rule.Table

/-!
# The order that counts

Rules are considered by trigger and by priority. So of two lists of rules only the order among rules
of one trigger and one priority counts.

* `Rule.Aligned` — two lists of rules with the same order among those
* `Rule.aligned_iff` — such rules are considered in the same order
* `Aligned.insert_iff` — the places at which a rule may be put
-/

namespace WorkflowRules

open RuleTable (switch)

namespace Rule

/-- Whether a rule has this trigger and this priority. -/
def hasRank (trigger : String) (priority : Int) (r : Rule) : Bool :=
  r.trigger = trigger && r.priority = priority

/-- The rules of each trigger and priority are the same, in the same order. -/
def Aligned (a b : List Rule) : Prop :=
  ∀ trigger priority, a.filter (hasRank trigger priority) = b.filter (hasRank trigger priority)

variable {a b : List Rule}

theorem level_filter (rules : List Rule) (trigger : String) (priority : Int) :
    level priority (rules.filter (·.trigger = trigger)) = rules.filter (hasRank trigger priority) := by
  rw [level, List.filter_filter]
  exact List.filter_congr fun r _ => Bool.and_comm _ _

/-- Lists are aligned when their rules are considered in the same order. -/
theorem aligned_iff :
    Aligned a b ↔ ∀ trigger,
      arrange (a.filter (·.trigger = trigger)) = arrange (b.filter (·.trigger = trigger)) := by
  constructor
  · intro h trigger
    exact arrange_congr fun priority => by rw [level_filter, level_filter, h]
  · intro h trigger priority
    have hlevel := congrArg (level priority) (h trigger)
    rwa [level_arrange, level_arrange, level_filter, level_filter] at hlevel

theorem Aligned.filter (h : Aligned a b) (q : Rule → Bool) : Aligned (a.filter q) (b.filter q) := by
  intro trigger priority
  rw [List.filter_comm, h, List.filter_comm]

theorem Aligned.map (h : Aligned a b) (name : String) (enabled : Bool) :
    Aligned (a.map (switch name enabled)) (b.map (switch name enabled)) := by
  intro trigger priority
  have hrank : hasRank trigger priority ∘ switch name enabled = hasRank trigger priority := by
    funext r
    rw [Function.comp, hasRank, hasRank, RuleTable.switch_trigger, RuleTable.switch_priority]
  rw [List.filter_map, List.filter_map, hrank, h]

/--
A rule behind all others has the same order among those of its trigger and priority as one in their
midst, provided none of those comes after the latter.
-/
theorem Aligned.insert_iff {before after : List Rule} (h : Aligned a (before ++ after)) {r : Rule}
    (fresh : r ∉ after) :
    Aligned (a ++ [r]) (before ++ r :: after) ↔
      ∀ x ∈ after, x.trigger = r.trigger → x.priority ≠ r.priority := by
  have hsplit (trigger : String) (priority : Int) :
      (a ++ [r]).filter (hasRank trigger priority) =
          (before ++ r :: after).filter (hasRank trigger priority) ↔
        after.filter (hasRank trigger priority) ++ [r].filter (hasRank trigger priority) =
          (r :: after).filter (hasRank trigger priority) := by
    rw [List.filter_append, h, List.filter_append, List.filter_append, List.append_assoc,
      List.append_cancel_left_eq]
  constructor
  · intro haligned x hx htrigger hpriority
    have hrank : hasRank r.trigger r.priority r = true := by simp [hasRank]
    have hmoved := (hsplit r.trigger r.priority).1 (haligned _ _)
    rw [List.filter_cons_of_pos hrank, List.filter_cons_of_pos hrank] at hmoved
    have hmem : x ∈ after.filter (hasRank r.trigger r.priority) :=
      List.mem_filter.2 ⟨hx, by simp [hasRank, htrigger, hpriority]⟩
    -- the first one behind the rule would be the rule itself
    rcases hfilter : after.filter (hasRank r.trigger r.priority) with _ | ⟨y, ys⟩
    · rw [hfilter] at hmem
      cases hmem
    · rw [hfilter] at hmoved
      obtain rfl := (List.cons.inj hmoved).1
      have hy : y ∈ after.filter (hasRank y.trigger y.priority) := hfilter ▸ List.mem_cons_self
      exact fresh (List.mem_filter.1 hy).1
  · intro last trigger priority
    refine (hsplit trigger priority).2 ?_
    by_cases hrank : hasRank trigger priority r = true
    · have hnone : after.filter (hasRank trigger priority) = [] := by
        refine List.filter_eq_nil_iff.2 fun x hx => ?_
        simp only [hasRank, Bool.and_eq_true, decide_eq_true_iff] at hrank ⊢
        obtain ⟨rfl, rfl⟩ := hrank
        exact fun hrank => last x hx hrank.1 hrank.2
      rw [List.filter_cons_of_pos hrank, List.filter_cons_of_pos hrank, hnone]
      rfl
    · rw [List.filter_cons_of_neg hrank, List.filter_cons_of_neg hrank]
      exact List.append_nil _

end Rule

end WorkflowRules
