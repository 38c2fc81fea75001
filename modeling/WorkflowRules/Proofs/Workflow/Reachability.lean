import Mathlib.Data.List.Basic
import Mathlib.Logic.Relation
import WorkflowRules.Workflow.Check
import WorkflowRules.Workflow.Reachability

/-!
# The states that transitions lead to

The search for reachable states finds what transitions lead to: all of that, since the rounds are as
many as the states, and nothing else. In a definition that has passed the check every transition leads
on from a reachable state to a reachable one.

* `Definition.Leads` — some sequence of transitions leads from the initial state to a state
* `Definition.mem_reachable_iff` — the search finds exactly these states
* `Definition.Enterable` — the declared states that are not reported as unreachable
* `Enterable.initial`, `Enterable.select?` — with which an accepted definition begins, and in which it
  stays
-/

namespace WorkflowRules.Definition

variable {d : Definition} {reached : List String} {s t : String}

/-! ## Transitions between states -/

/-- Some transition leads from one state to another, which is declared. -/
def Hop (d : Definition) (source target : String) : Prop :=
  d.steps source target = true ∧ d.states.contains target = true

/-- Transitions lead from the initial state to a state, through declared states. -/
def Leads (d : Definition) (state : String) : Prop :=
  Relation.ReflTransGen d.Hop d.initialState state

theorem steps_iff : d.steps s t = true ↔ ∃ x ∈ d.transitions, s ∈ x.sources ∧ x.target = t := by
  simp [steps, Transition.leaves]

/-- A sequence of transitions stays among the declared states. -/
theorem Leads.declared (h : d.Leads s) (initial : d.states.contains d.initialState = true) :
    d.states.contains s = true := by
  cases h with
  | refl => exact initial
  | tail _ hop => exact hop.2

/-! ## The search -/

/-- The declared states that have not been reached. -/
def missing (d : Definition) (reached : List String) : List String :=
  d.states.toList.filter fun s => !reached.contains s

theorem mem_missing : s ∈ d.missing reached ↔ d.states.contains s = true ∧ s ∉ reached := by
  simp [missing, NameSet.contains_iff]

theorem mem_frontier : s ∈ d.frontier reached ↔ s ∉ reached ∧ ∃ r ∈ reached, d.Hop r s := by
  simp only [frontier, Hop, List.mem_filter, Bool.and_eq_true, Bool.not_eq_true',
    List.contains_eq_mem, decide_eq_false_iff_not, List.any_eq_true, NameSet.contains_iff]
  constructor
  · rintro ⟨declared, fresh, r, hr, hsteps⟩
    exact ⟨fresh, r, hr, hsteps, declared⟩
  · rintro ⟨fresh, r, hr, hsteps, declared⟩
    exact ⟨declared, fresh, r, hr, hsteps⟩

theorem frontier_subset_missing : d.frontier reached ⊆ d.missing reached := by
  intro s hs
  obtain ⟨fresh, r, -, hop⟩ := mem_frontier.1 hs
  exact mem_missing.2 ⟨hop.2, fresh⟩

/-- A round that finds something leaves fewer states to be found. -/
theorem length_missing_lt (h : d.frontier reached ≠ []) :
    (d.missing (reached ++ d.frontier reached)).length < (d.missing reached).length := by
  have hsplit : d.missing (reached ++ d.frontier reached) =
      (d.missing reached).filter fun s => !(d.frontier reached).contains s := by
    rw [missing, missing, List.filter_filter]
    refine List.filter_congr fun s _ => ?_
    rw [List.contains_append, Bool.not_or, Bool.and_comm]
  rw [hsplit, List.length_filter_lt_length_iff_exists]
  obtain ⟨s, hs⟩ := List.exists_mem_of_ne_nil _ h
  exact ⟨s, frontier_subset_missing hs, by simp [hs]⟩

theorem subset_reachableWithin (d : Definition) (n : Nat) (reached : List String) :
    reached ⊆ d.reachableWithin n reached := by
  induction n generalizing reached with
  | zero => exact fun s hs => hs
  | succ n ih => exact fun s hs => ih _ (List.mem_append_left _ hs)

/-- Once a round finds nothing, the others do not either. -/
theorem reachableWithin_of_frontier (h : d.frontier reached = []) (n : Nat) :
    d.reachableWithin n reached = reached := by
  induction n with
  | zero => rfl
  | succ n ih => rw [reachableWithin, h, List.append_nil, ih]

/-- As many rounds as there are states to be found suffice. -/
theorem frontier_reachableWithin {n : Nat} (h : (d.missing reached).length ≤ n) :
    d.frontier (d.reachableWithin n reached) = [] := by
  induction n generalizing reached with
  | zero =>
    have hnil : d.missing reached = [] := List.length_eq_zero_iff.1 (Nat.le_zero.1 h)
    exact List.subset_nil.1 (hnil ▸ frontier_subset_missing)
  | succ n ih =>
    by_cases hf : d.frontier reached = []
    · rw [reachableWithin_of_frontier hf]
      exact hf
    · have hlt := length_missing_lt hf
      exact ih (by omega)

/-- What the search finds is led to if that with which it begins is. -/
theorem leads_of_mem_reachableWithin {n : Nat} (h : ∀ s ∈ reached, d.Leads s)
    (hs : s ∈ d.reachableWithin n reached) : d.Leads s := by
  induction n generalizing reached with
  | zero => exact h s hs
  | succ n ih =>
    refine ih (fun r hr => ?_) hs
    rcases List.mem_append.1 hr with hr | hr
    · exact h r hr
    · obtain ⟨-, source, hsource, hop⟩ := mem_frontier.1 hr
      exact (h source hsource).tail hop

/-- One transition leads on from what the search finds to what it finds as well. -/
theorem mem_reachable_of_hop (hs : s ∈ d.reachable) (hop : d.Hop s t) : t ∈ d.reachable := by
  have hdone : d.frontier d.reachable = [] := frontier_reachableWithin (List.length_filter_le _ _)
  by_contra hnew
  have ht := mem_frontier.2 ⟨hnew, s, hs, hop⟩
  rw [hdone] at ht
  cases ht

/-- The search finds all states that transitions lead to, and no others. -/
theorem mem_reachable_iff : s ∈ d.reachable ↔ d.Leads s := by
  constructor
  · intro hs
    refine leads_of_mem_reachableWithin (fun r hr => ?_) hs
    rw [List.mem_singleton.1 hr]
    exact .refl
  · intro h
    induction h with
    | refl => exact subset_reachableWithin _ _ _ (List.mem_singleton_self _)
    | tail _ hop ih => exact mem_reachable_of_hop ih hop

/-! ## Accepted definitions -/

theorem transitionProblem?_eq_none {strict : Bool} {states : NameSet}
    {seen : List (String × String)} {position : Nat} {x : Transition}
    (h : transitionProblem? strict states seen position x = none) :
    ∀ s ∈ x.sources ++ [x.target], states.contains s = true := by
  unfold transitionProblem? at h
  split at h
  · cases h
  · split at h
    · cases h
    · cases hfind : (x.sources ++ [x.target]).find? fun s => !states.contains s with
      | some s =>
        rw [hfind] at h
        cases h
      | none =>
        intro s hs
        simpa using List.find?_eq_none.1 hfind s hs

theorem transitionsProblem?_eq_none {strict : Bool} {states : NameSet}
    {seen : List (String × String)} {position : Nat} {xs : List Transition}
    (h : transitionsProblem? strict states seen position xs = none) :
    ∀ x ∈ xs, ∀ s ∈ x.sources ++ [x.target], states.contains s = true := by
  induction xs generalizing seen position with
  | nil => simp
  | cons first rest ih =>
    rw [transitionsProblem?] at h
    cases hfirst : transitionProblem? strict states seen position first with
    | some p =>
      rw [hfirst] at h
      cases h
    | none =>
      rw [hfirst] at h
      intro x hx
      rcases List.mem_cons.1 hx with rfl | hx
      · exact transitionProblem?_eq_none hfirst
      · exact ih h x hx

/-- A definition without problems names declared states only. -/
theorem declared_of_problem? {strict : Bool} (h : d.problem? strict = none) :
    d.states.contains d.initialState = true ∧
      ∀ x ∈ d.transitions, ∀ s ∈ x.sources ++ [x.target], d.states.contains s = true := by
  unfold problem? at h
  split at h
  · cases h
  · split at h
    · cases h
    · split at h
      · cases h
      · next initial => exact ⟨by simpa using initial, transitionsProblem?_eq_none h⟩

/-! ## States that can be entered -/

/-- A declared state that is not reported as unreachable. -/
structure Enterable (d : Definition) (state : String) : Prop where
  declared : d.states.contains state = true
  unreported : state ∉ d.unreachable

/-- If the initial state is declared, these are the states that transitions lead to. -/
theorem enterable_iff (initial : d.states.contains d.initialState = true) :
    d.Enterable s ↔ d.Leads s := by
  have hunreachable : d.unreachable = d.missing d.reachable := if_pos initial
  constructor
  · rintro ⟨declared, unreported⟩
    rw [hunreachable, mem_missing, not_and, not_not] at unreported
    exact mem_reachable_iff.1 (unreported declared)
  · intro h
    refine ⟨h.declared initial, ?_⟩
    rw [hunreachable, mem_missing, not_and, not_not]
    exact fun _ => mem_reachable_iff.2 h

section

variable {strict : Bool} (accepted : d.problem? strict = none)
include accepted

/-- An accepted definition begins in a state that can be entered. -/
theorem Enterable.initial : d.Enterable d.initialState :=
  (enterable_iff (declared_of_problem? accepted).1).2 .refl

/-- The transition that an event takes from such a state ends in another one. -/
theorem Enterable.select? (h : d.Enterable s) {event : String} {x : Transition}
    (hx : d.select? s event = some x) : d.Enterable x.target := by
  obtain ⟨initial, declared⟩ := declared_of_problem? accepted
  rw [enterable_iff initial] at h ⊢
  have hfind : d.transitions.find? (fun t => t.applies s event) = some x := hx
  have hmem : x ∈ d.transitions := List.mem_of_find?_eq_some hfind
  have happlies := List.find?_some hfind
  have hsource : s ∈ x.sources := by
    simpa [Transition.leaves] using (Bool.and_eq_true_iff.1 happlies).2
  refine h.tail ⟨steps_iff.2 ⟨x, hmem, hsource, rfl⟩, ?_⟩
  exact declared x hmem _ (List.mem_append_right _ (List.mem_singleton_self _))

end

end WorkflowRules.Definition
