import Mathlib.Data.List.Nodup
import Mathlib.Data.List.Perm.Basic
import WorkflowRules.Proofs.Workflow.Reachability

/-!
# Strict definitions are unambiguous

A definition that passes the strict check takes each event out of each state by at most one transition.
The check sees the pairs of a state and an event one after the other and refuses the first one that
comes again, so no pair occurs twice in all of the transitions. Which transition is selected then does
not depend on their order.

* `Definition.Unambiguous` — no pair of a state and an event occurs twice
* `Definition.unambiguous_of_problem?` — what the strict check gives
* `Definition.Unambiguous.length_candidates_le` — at most one transition is a candidate
* `Definition.Unambiguous.select?_reorder` — the order of the transitions does not matter
-/

namespace WorkflowRules.Definition

variable {d : Definition} {states : NameSet} {seen : List (String × String)} {position : Nat}

/-- No event leaves a state twice. -/
def Unambiguous (d : Definition) : Prop := (d.transitions.flatMap Transition.pairs).Nodup

/-! ## The strict check -/

/-- No pair is repeated exactly if the pairs are distinct and have not been seen before. -/
theorem repeatedPair?_eq_none {ps : List (String × String)} :
    repeatedPair? seen ps = none ↔ ps.Nodup ∧ ∀ p ∈ ps, p ∉ seen := by
  induction ps generalizing seen with
  | nil => simp [repeatedPair?]
  | cons p rest ih =>
    rw [repeatedPair?]
    by_cases hp : p ∈ seen
    · simp [hp]
    · rw [if_neg hp, ih, List.nodup_cons]
      constructor
      · rintro ⟨hnodup, hfresh⟩
        refine ⟨⟨fun hmem => hfresh p hmem List.mem_cons_self, hnodup⟩, fun q hq => ?_⟩
        rcases List.mem_cons.1 hq with rfl | hq
        · exact hp
        · exact fun hseen => hfresh q hq (List.mem_cons_of_mem _ hseen)
      · rintro ⟨⟨hmem, hnodup⟩, hfresh⟩
        refine ⟨hnodup, fun q hq hseen => ?_⟩
        rcases List.mem_cons.1 hseen with rfl | hseen
        · exact hmem hq
        · exact hfresh q (List.mem_cons_of_mem _ hq) hseen

/-- A transition that the strict check accepts brings no pair that has been seen. -/
theorem repeatedPair?_of_transitionProblem? {x : Transition}
    (h : transitionProblem? true states seen position x = none) :
    repeatedPair? seen x.pairs = none := by
  unfold transitionProblem? at h
  split at h
  · cases h
  · split at h
    · cases h
    · split at h
      · cases h
      · simpa using h

/-- Transitions that the strict check accepts have no pair twice. -/
theorem nodup_of_transitionsProblem? {xs : List Transition}
    (h : transitionsProblem? true states seen position xs = none) :
    (xs.flatMap Transition.pairs).Nodup ∧ ∀ p ∈ xs.flatMap Transition.pairs, p ∉ seen := by
  induction xs generalizing seen position with
  | nil => simp
  | cons x rest ih =>
    rw [transitionsProblem?] at h
    cases hx : transitionProblem? true states seen position x with
    | some p =>
      rw [hx] at h
      cases h
    | none =>
      rw [hx] at h
      obtain ⟨hown, hfresh⟩ := repeatedPair?_eq_none.1 (repeatedPair?_of_transitionProblem? hx)
      obtain ⟨hrest, hlater⟩ := ih h
      rw [List.flatMap_cons]
      refine ⟨List.nodup_append.2 ⟨hown, hrest, ?_⟩, fun p hp => ?_⟩
      · rintro p hp q hq rfl
        exact hlater p hq (List.mem_append_left _ hp)
      · rcases List.mem_append.1 hp with hp | hp
        · exact hfresh p hp
        · exact fun hseen => hlater p hp (List.mem_append_right _ hseen)

theorem unambiguous_of_problem? (h : d.problem? true = none) : d.Unambiguous := by
  unfold problem? at h
  split at h
  · cases h
  · split at h
    · cases h
    · split at h
      · cases h
      · exact (nodup_of_transitionsProblem? h).1

/-! ## Candidates -/

theorem applies_iff {x : Transition} {state event : String} :
    x.applies state event = true ↔ (state, event) ∈ x.pairs := by
  simp only [Transition.applies, Transition.leaves, Transition.pairs, Bool.and_eq_true, beq_iff_eq,
    List.any_eq_true, List.mem_map, Prod.mk.injEq]
  constructor
  · rintro ⟨hevent, source, hsource, hstate⟩
    exact ⟨source, hsource, hstate, hevent⟩
  · rintro ⟨source, hsource, hstate, hevent⟩
    exact ⟨hevent, source, hsource, hstate⟩

/-- The candidates are the transitions that leave the state, as far as they are on the event. -/
theorem candidates_eq_filter (d : Definition) (state event : String) :
    d.candidates state event = (d.outgoing state).filter (·.event == event) := by
  rw [candidates, outgoing, List.filter_filter]
  rfl

/-- Every candidate contributes the pair. -/
theorem length_candidates_le_count (d : Definition) (state event : String) :
    (d.candidates state event).length ≤
      (d.transitions.flatMap Transition.pairs).count (state, event) := by
  unfold candidates
  induction d.transitions with
  | nil => simp
  | cons x rest ih =>
    rw [List.flatMap_cons, List.count_append, List.filter_cons]
    split
    · next happlies =>
      have hown : 0 < x.pairs.count (state, event) := List.count_pos_iff.2 (applies_iff.1 happlies)
      rw [List.length_cons]
      omega
    · omega

theorem Unambiguous.length_candidates_le (h : d.Unambiguous) (state event : String) :
    (d.candidates state event).length ≤ 1 :=
  Nat.le_trans (length_candidates_le_count d state event) (List.nodup_iff_count_le_one.1 h _)

/-! ## The order of transitions -/

/-- The definition with its transitions in another order. -/
inductive Reorders (d : Definition) : Definition → Prop
  | mk {transitions : List Transition} (perm : transitions.Perm d.transitions) :
      Reorders d { d with transitions }

theorem select?_eq_head? (d : Definition) (state event : String) :
    d.select? state event = (d.candidates state event).head? := by
  rw [select?, candidates, List.head?_filter]

/-- In an unambiguous definition the order of transitions has no bearing on selection. -/
theorem Unambiguous.select?_reorder (h : d.Unambiguous) {d' : Definition} (reorders : d.Reorders d') :
    d'.select? = d.select? := by
  obtain ⟨perm⟩ := reorders
  funext state event
  rw [select?_eq_head?, select?_eq_head?]
  have hperm : (Definition.candidates { d with transitions := _ } state event).Perm
      (d.candidates state event) := perm.filter _
  -- of at most one candidate there is only one order
  have hle := h.length_candidates_le state event
  match hc : d.candidates state event with
  | [] =>
    rw [hc] at hperm
    rw [hperm.eq_nil]
  | [x] =>
    rw [hc] at hperm
    rw [hperm.eq_singleton]
  | x :: y :: rest =>
    rw [hc] at hle
    simp at hle

end WorkflowRules.Definition
