import Mathlib.Data.List.Chain
import WorkflowRules.Proofs.Workflow.Reachability

/-!
# What is reported as unreachable

Unreachable are the declared states to which no route of declared states leads from the initial state.
This is so for any definition, accepted or not. Names that are not declared may stand anywhere in its
transitions; they lead nowhere. If the initial state is not declared either, no route starts at all.

* `Definition.Route` — declared states, from the initial one on, between which transitions lead
* `Definition.unreachable_eq_filter` — any search that visits what transitions lead to will do
* `Definition.mem_unreachable_iff` — what is reported, for any definition
* `Definition.pruned` — a definition without the names that are not declared
* `Definition.unreachable_complements` — all of this, and the order of the report
-/

namespace WorkflowRules.Definition

variable {d : Definition} {path : List String} {s t : String}

/-! ## Routes -/

/-- Declared states from the initial one to another, with a transition from each to the next. -/
structure Route (d : Definition) (path : List String) (state : String) : Prop where
  start : path.head? = some d.initialState
  finish : path.getLast? = some state
  declared : ∀ s ∈ path, d.states.contains s = true
  linked : path.IsChain fun s t => ∃ x ∈ d.transitions, s ∈ x.sources ∧ x.target = t

theorem Route.initial (h : d.Route path s) : d.states.contains d.initialState = true :=
  h.declared _ (List.mem_of_head? h.start)

/-- A state at the end of a route is one that transitions lead to. -/
theorem Route.leads (h : d.Route path s) : d.Leads s := by
  have hops : path.IsChain d.Hop :=
    h.linked.imp_of_mem_imp fun a b _ hb step => ⟨steps_iff.2 step, h.declared b hb⟩
  have hne : path ≠ [] := by
    rintro rfl
    cases h.start
  have hleads := List.relationReflTransGen_of_exists_isChain path hops hne
  rw [List.head_eq_iff_head?_eq_some hne |>.2 h.start] at hleads
  rw [List.getLast_eq_iff_getLast?_eq_some hne |>.2 h.finish] at hleads
  exact hleads

/-- The way to a state is a route, if the initial state is declared. -/
theorem Leads.exists_route (h : d.Leads s) (initial : d.states.contains d.initialState = true) :
    ∃ path, d.Route path s := by
  induction h with
  | refl =>
    refine ⟨[d.initialState], rfl, rfl, fun s hs => ?_, .singleton _⟩
    rw [List.mem_singleton.1 hs]
    exact initial
  | @tail source target _ hop ih =>
    obtain ⟨path, route⟩ := ih
    refine ⟨path ++ [target], ?_, by simp, fun s hs => ?_, ?_⟩
    · rw [List.head?_append, route.start, Option.some_or]
    · rcases List.mem_append.1 hs with hs | hs
      · exact route.declared s hs
      · rw [List.mem_singleton.1 hs]
        exact hop.2
    · refine route.linked.append (.singleton _) fun a ha b hb => ?_
      obtain rfl : source = a := Option.some.inj (route.finish.symm.trans ha)
      obtain rfl : target = b := Option.some.inj hb
      exact steps_iff.1 hop.1

/-! ## The report -/

theorem unreachable_undeclared (h : d.states.contains d.initialState = false) :
    d.unreachable = d.states.toList :=
  if_neg (by simp [h])

/-- Any search will do that visits the states to which transitions lead, and no others. -/
theorem unreachable_eq_filter {visited : List String} (visits : ∀ s, s ∈ visited ↔ d.Leads s)
    (initial : d.states.contains d.initialState = true) :
    d.unreachable = d.states.toList.filter fun s => !visited.contains s := by
  refine (if_pos initial).trans (List.filter_congr fun s _ => ?_)
  rw [List.contains_eq_mem, List.contains_eq_mem]
  exact congrArg not (decide_eq_decide.2 (mem_reachable_iff.trans (visits s).symm))

theorem mem_unreachable_iff :
    s ∈ d.unreachable ↔ d.states.contains s = true ∧ ¬ ∃ path, d.Route path s := by
  by_cases initial : d.states.contains d.initialState = true
  · rw [unreachable_eq_filter (fun _ => mem_reachable_iff) initial, List.mem_filter,
      NameSet.contains_iff]
    refine and_congr_right fun _ => ?_
    rw [Bool.not_eq_true', List.contains_eq_mem, decide_eq_false_iff_not, mem_reachable_iff]
    exact not_congr ⟨fun h => h.exists_route initial, fun ⟨_, route⟩ => route.leads⟩
  · rw [unreachable_undeclared (Bool.eq_false_iff.2 initial), NameSet.contains_iff]
    exact (and_iff_left fun ⟨_, route⟩ => initial route.initial).symm

theorem pairwise_unreachable (d : Definition) : d.unreachable.Pairwise (· < ·) := by
  unfold unreachable
  split
  · exact d.states.ascending.sublist List.filter_sublist
  · exact d.states.ascending

/-! ## Names that are not declared -/

/-- Whether a transition leads to a declared state, and from at least one. -/
def connects (d : Definition) (x : Transition) : Bool :=
  d.states.contains x.target && x.sources.any d.states.contains

/--
The definition with the undeclared names struck out: without the transitions to an undeclared state or
from undeclared states only, and without the undeclared sources of the others.
-/
def pruned (d : Definition) : Definition :=
  { d with
    transitions := (d.transitions.filter d.connects).map fun x =>
      { x with sources := x.sources.filter d.states.contains } }

/-- From a declared state the same hops are left. -/
theorem hop_pruned (declared : d.states.contains s = true) : d.pruned.Hop s t ↔ d.Hop s t := by
  simp only [Hop, steps_iff]
  refine and_congr_left fun htarget => ?_
  constructor
  · rintro ⟨x, hx, hsource, rfl⟩
    obtain ⟨y, hy, rfl⟩ := List.mem_map.1 hx
    exact ⟨y, (List.mem_filter.1 hy).1, (List.mem_filter.1 hsource).1, rfl⟩
  · rintro ⟨x, hx, hsource, rfl⟩
    have hconnects : d.connects x = true :=
      Bool.and_eq_true_iff.2 ⟨htarget, List.any_eq_true.2 ⟨s, hsource, declared⟩⟩
    exact ⟨_, List.mem_map_of_mem (List.mem_filter.2 ⟨hx, hconnects⟩),
      List.mem_filter.2 ⟨hsource, declared⟩, rfl⟩

/-- So transitions lead to the same states. -/
theorem leads_pruned (initial : d.states.contains d.initialState = true) :
    d.pruned.Leads s ↔ d.Leads s := by
  constructor
  · intro h
    induction h with
    | refl => exact .refl
    | tail before hop ih =>
      have declared := Leads.declared (d := d.pruned) before initial
      exact ih.tail ((hop_pruned (d := d) declared).1 hop)
  · intro h
    induction h with
    | refl => exact .refl
    | tail before hop ih =>
      have declared := Leads.declared before initial
      exact ih.tail ((hop_pruned declared).2 hop)

theorem unreachable_pruned (d : Definition) : d.pruned.unreachable = d.unreachable := by
  by_cases initial : d.states.contains d.initialState = true
  · rw [unreachable_eq_filter (d := d) (fun _ => mem_reachable_iff) initial]
    exact unreachable_eq_filter (fun _ => mem_reachable_iff.trans (leads_pruned initial).symm) initial
  · have undeclared := Bool.eq_false_iff.2 initial
    rw [unreachable_undeclared undeclared]
    exact unreachable_undeclared (d := d.pruned) undeclared

/--
For any definition, the states that are reported as unreachable are the declared ones to which no route
leads; these are all of them if the initial state is not declared. Undeclared names in the transitions
contribute nothing, and the report is in strictly ascending order.
-/
theorem unreachable_complements (d : Definition) :
    (∀ s, s ∈ d.unreachable ↔ d.states.contains s = true ∧ ¬ ∃ path, d.Route path s) ∧
      (d.states.contains d.initialState = false → d.unreachable = d.states.toList) ∧
      d.pruned.unreachable = d.unreachable ∧ d.unreachable.Pairwise (· < ·) :=
  ⟨fun _ => mem_unreachable_iff, unreachable_undeclared, unreachable_pruned d, pairwise_unreachable d⟩

/-! ### A workflow with names that are not declared -/

/-- A loan that nobody gives back; some states in its transitions are not declared. -/
def loan : Definition :=
  (((Definition.ofStates "loan" "book" "shelved" ["shelved", "lent", "overdue", "lost"]).addTransition
    { sources := ["shelved", "ordered"], target := "lent", event := "lend" }).addTransition
    { sources := ["lent"], target := "returned", event := "return" }).addTransition
    { sources := ["lost", "returned"], target := "overdue", event := "remind" }

/-- The loan of a book that comes from elsewhere. -/
def foreignLoan : Definition := { loan with initialState := "ordered" }

/--
A book is lent and never overdue; and if the initial state is not declared, all states are reported.
-/
theorem unreachable_complements_loan :
    (∃ path, loan.Route path "lent") ∧ (¬ ∃ path, loan.Route path "overdue") ∧
      foreignLoan.states.contains foreignLoan.initialState = false ∧
      foreignLoan.unreachable = ["lent", "lost", "overdue", "shelved"] := by
  obtain ⟨iff, -⟩ := unreachable_complements loan
  have undeclared : foreignLoan.states.contains foreignLoan.initialState = false := by decide
  refine ⟨?_, ?_, undeclared, ?_⟩
  · by_contra h
    exact absurd ((iff "lent").2 ⟨by decide, h⟩) (by decide)
  · exact ((iff "overdue").1 (by decide)).2
  · exact (unreachable_complements foreignLoan).2.1 undeclared

end WorkflowRules.Definition
