import Mathlib.Data.List.Count
import WorkflowRules.Proofs.Workflow.Strict

/-!
# What the strict check refuses besides

The strict check is there for definitions in which two transitions leave a state on one event. What it
looks at are pairs of a state and an event, none of which may come twice. Two transitions that share a
pair make it come twice, but so does a transition that names one of its sources twice. There no event
has a choice, and the definition is refused all the same.

* `Definition.Contested` — two transitions leave a state on an event
* `Definition.problem?_strict` — what the strict check finds in a definition that passes the other one
* `Definition.strict_accepts_iff` — which of these definitions it accepts
* `Definition.repetition_refused` — a definition without a choice that is refused
-/

namespace WorkflowRules.Definition

variable {d : Definition} {states : NameSet} {seen seen' : List (String × String)}
  {position position' : Nat} {p : String × String} {state event : String}

/-- Two transitions at different positions leave a state on an event. -/
def Contested (d : Definition) (state event : String) : Prop :=
  ∃ (i j : Nat) (t u : Transition), i ≠ j ∧ d.transitions[i]? = some t ∧ d.transitions[j]? = some u ∧
    (state, event) ∈ t.pairs ∧ (state, event) ∈ u.pairs

/-! ## Repeated pairs -/

theorem repeatedPair?_congr (h : ∀ p, p ∈ seen ↔ p ∈ seen') (ps : List (String × String)) :
    repeatedPair? seen ps = repeatedPair? seen' ps := by
  induction ps generalizing seen seen' with
  | nil => rfl
  | cons p rest ih =>
    have hcons : ∀ q, q ∈ p :: seen ↔ q ∈ p :: seen' := fun q => by
      rw [List.mem_cons, List.mem_cons, h q]
    simp only [repeatedPair?, h p, ih hcons]

theorem repeatedPair?_append (ps qs : List (String × String)) :
    repeatedPair? seen (ps ++ qs) = (repeatedPair? seen ps).or (repeatedPair? (ps ++ seen) qs) := by
  induction ps generalizing seen with
  | nil => rfl
  | cons p rest ih =>
    rw [List.cons_append, repeatedPair?, repeatedPair?]
    split
    · rfl
    · rw [ih]
      congr 1
      refine repeatedPair?_congr (fun q => ?_) qs
      simp only [List.mem_append, List.mem_cons, List.cons_append]
      exact or_left_comm

/-- A pair that is found has been seen before, or the list has it twice. -/
theorem two_le_count_of_repeatedPair? {ps : List (String × String)}
    (h : repeatedPair? seen ps = some p) : p ∈ ps ∧ (p ∈ seen ∨ 2 ≤ ps.count p) := by
  induction ps generalizing seen with
  | nil => cases h
  | cons q rest ih =>
    rw [repeatedPair?] at h
    split at h
    · next hseen =>
      obtain rfl := Option.some.inj h
      exact ⟨List.mem_cons_self, .inl hseen⟩
    · obtain ⟨hmem, hfound⟩ := ih h
      refine ⟨List.mem_cons_of_mem _ hmem, ?_⟩
      rcases hfound with hseen | hcount
      · rcases List.mem_cons.1 hseen with rfl | hseen
        · have hpos : 0 < rest.count p := List.count_pos_iff.2 hmem
          rw [List.count_cons_self]
          exact .inr (by omega)
        · exact .inl hseen
      · exact .inr (Nat.le_trans hcount List.count_le_count_cons)

/-! ## The two checks -/

/-- The problem that a repeated pair is. -/
def ambiguity (p : String × String) : DefinitionProblem := .ambiguous p.2 p.1

/-- A transition that is accepted otherwise has a strict problem only for a repeated pair. -/
theorem transitionProblem?_strict {t : Transition}
    (h : transitionProblem? false states seen position t = none) :
    transitionProblem? true states seen' position' t =
      (repeatedPair? seen' t.pairs).map ambiguity := by
  unfold transitionProblem? at h ⊢
  split at h
  · cases h
  · next hevent =>
    rw [if_neg hevent]
    split at h
    · cases h
    · next hsources =>
      rw [if_neg hsources]
      split at h
      · cases h
      · rfl

/-- A transition after the other, the strict check looks for a pair that comes again. -/
theorem transitionsProblem?_strict {ts : List Transition}
    (h : transitionsProblem? false states seen position ts = none) :
    transitionsProblem? true states seen' position' ts =
      (repeatedPair? seen' (ts.flatMap Transition.pairs)).map ambiguity := by
  induction ts generalizing seen seen' position position' with
  | nil => rfl
  | cons t rest ih =>
    rw [transitionsProblem?] at h ⊢
    cases ht : transitionProblem? false states seen position t with
    | some problem =>
      rw [ht] at h
      cases h
    | none =>
      rw [ht] at h
      rw [transitionProblem?_strict ht, List.flatMap_cons, repeatedPair?_append]
      cases repeatedPair? seen' t.pairs with
      | some p => rfl
      | none => exact ih h

/-- In a definition that passes the other check, the strict one finds the first repeated pair. -/
theorem problem?_strict (accepted : d.problem? false = none) :
    d.problem? true =
      (repeatedPair? [] (d.transitions.flatMap Transition.pairs)).map ambiguity := by
  unfold problem? at accepted ⊢
  split at accepted
  · cases accepted
  · next hname =>
    rw [if_neg hname]
    split at accepted
    · cases accepted
    · next hstates =>
      rw [if_neg hstates]
      split at accepted
      · cases accepted
      · next hinitial =>
        rw [if_neg hinitial]
        exact transitionsProblem?_strict accepted

/-! ## Where repeated pairs come from -/

/-- A pair is not contested when no two transitions share it. -/
theorem not_contested_iff :
    ¬ d.Contested state event ↔
      d.transitions.Pairwise fun t u => (state, event) ∈ t.pairs → (state, event) ∉ u.pairs := by
  rw [List.pairwise_iff_getElem]
  constructor
  · intro h i j hi hj hlt ht hu
    exact h ⟨i, j, _, _, Nat.ne_of_lt hlt, List.getElem?_eq_getElem hi, List.getElem?_eq_getElem hj,
      ht, hu⟩
  · rintro h ⟨i, j, t, u, hne, hfirst, hsecond, ht, hu⟩
    obtain ⟨hi, rfl⟩ := List.getElem?_eq_some_iff.1 hfirst
    obtain ⟨hj, rfl⟩ := List.getElem?_eq_some_iff.1 hsecond
    rcases Nat.lt_or_gt_of_ne hne with hlt | hlt
    · exact h i j hi hj hlt ht hu
    · exact h j i hj hi hlt hu ht

theorem nodup_pairs_iff {t : Transition} : t.pairs.Nodup ↔ t.sources.Nodup :=
  List.nodup_map_iff fun _ _ h => congrArg Prod.fst h

/-- No pair comes twice if no two transitions share one and none of them names a source twice. -/
theorem unambiguous_iff :
    d.Unambiguous ↔
      (∀ state event, ¬ d.Contested state event) ∧ ∀ t ∈ d.transitions, t.sources.Nodup := by
  have hdisjoint : (∀ state event, ¬ d.Contested state event) ↔
      d.transitions.Pairwise (Function.onFun List.Disjoint Transition.pairs) := by
    constructor
    · intro h
      refine List.pairwise_iff_getElem.2 fun i j hi hj hlt q hq hq' => ?_
      exact List.pairwise_iff_getElem.1 (not_contested_iff.1 (h q.1 q.2)) i j hi hj hlt hq hq'
    · intro h state event
      exact not_contested_iff.2 (h.imp fun apart ht hu => apart ht hu)
  rw [Unambiguous, List.nodup_flatMap, hdisjoint, and_comm]
  simp only [nodup_pairs_iff]

/-- Where no transition repeats a pair and no two share it, it comes up once at most. -/
theorem count_pairs_le_one {ts : List Transition}
    (apart : ts.Pairwise fun t u => p ∈ t.pairs → p ∉ u.pairs)
    (single : ∀ t ∈ ts, t.pairs.count p ≤ 1) : (ts.flatMap Transition.pairs).count p ≤ 1 := by
  induction ts with
  | nil => simp
  | cons t rest ih =>
    obtain ⟨hfirst, hrest⟩ := List.pairwise_cons.1 apart
    rw [List.flatMap_cons, List.count_append]
    by_cases ht : p ∈ t.pairs
    · have hnone : (rest.flatMap Transition.pairs).count p = 0 := by
        refine List.count_eq_zero.2 fun hmem => ?_
        obtain ⟨u, hu, hpair⟩ := List.mem_flatMap.1 hmem
        exact hfirst u hu ht hpair
      rw [hnone]
      exact single t List.mem_cons_self
    · have hlater := ih hrest fun u hu => single u (List.mem_cons_of_mem _ hu)
      rw [List.count_eq_zero.2 ht, Nat.zero_add]
      exact hlater

theorem count_sources_of_count_pairs {t : Transition} (h : 2 ≤ t.pairs.count (state, event)) :
    t.event = event ∧ 2 ≤ t.sources.count state := by
  have hmem : (state, event) ∈ t.pairs := List.count_pos_iff.1 (by omega)
  obtain ⟨source, -, heq⟩ := List.mem_map.1 hmem
  obtain ⟨-, rfl⟩ := Prod.mk.inj heq
  have hcount : t.pairs.count (state, t.event) = t.sources.count state :=
    List.count_map_of_injective t.sources (·, t.event) (fun _ _ h => congrArg Prod.fst h) state
  exact ⟨rfl, hcount ▸ h⟩

theorem contested_or_repeats
    (h : 2 ≤ (d.transitions.flatMap Transition.pairs).count (state, event)) :
    d.Contested state event ∨
      ∃ t ∈ d.transitions, t.event = event ∧ 2 ≤ t.sources.count state := by
  by_contra hnot
  obtain ⟨hcontested, hrepeats⟩ := not_or.1 hnot
  have hle := count_pairs_le_one (not_contested_iff.1 hcontested) fun t ht => by
    by_contra hmany
    exact hrepeats ⟨t, ht, count_sources_of_count_pairs (by omega)⟩
  omega

/--
Among the definitions that pass the other check, the strict one accepts those in which no two
transitions leave a state on one event and no transition names a source twice. Otherwise it reports a
state and an event for which one of the two is the case.
-/
theorem strict_accepts_iff (accepted : d.problem? false = none) :
    (d.problem? true = none ↔
      (∀ state event, ¬ d.Contested state event) ∧ ∀ t ∈ d.transitions, t.sources.Nodup) ∧
    ∀ problem, d.problem? true = some problem →
      ∃ state event, problem = .ambiguous event state ∧
        (d.Contested state event ∨
          ∃ t ∈ d.transitions, t.event = event ∧ 2 ≤ t.sources.count state) := by
  rw [problem?_strict accepted]
  constructor
  · rw [Option.map_eq_none_iff, repeatedPair?_eq_none, ← unambiguous_iff, Unambiguous]
    simp
  · intro problem hproblem
    obtain ⟨⟨state, event⟩, hpair, rfl⟩ := Option.map_eq_some_iff.1 hproblem
    have htwice := (two_le_count_of_repeatedPair? hpair).2.resolve_left List.not_mem_nil
    exact ⟨state, event, rfl, contested_or_repeats htwice⟩

/-! ### An event with a choice, and one without -/

/-- A ticket that can be closed in two ways. -/
def ticket : Definition :=
  ((Definition.ofStates "ticket" "ticket" "open" ["open", "waiting", "closed"]).addTransition
    { sources := ["open", "waiting"], target := "closed", event := "close" }).addTransition
    { sources := ["open"], target := "waiting", event := "close" }

theorem strict_accepts_iff_ticket :
    ticket.problem? false = none ∧ ticket.Contested "open" "close" ∧ ticket.problem? true ≠ none := by
  have accepted : ticket.problem? false = none := by decide
  have contested : ticket.Contested "open" "close" :=
    ⟨0, 1, _, _, Nat.zero_ne_one, rfl, rfl, by decide, by decide⟩
  refine ⟨accepted, contested, fun h => ?_⟩
  exact ((strict_accepts_iff accepted).1.1 h).1 "open" "close" contested

/-- A door that can be closed in one way, whose only transition names its source twice. -/
def door : Definition :=
  (Definition.ofStates "door" "door" "open" ["open", "shut"]).addTransition
    { sources := ["open", "open"], target := "shut", event := "close" }

/-- The strict check refuses a definition in which no event has a choice. -/
theorem repetition_refused :
    door.problem? false = none ∧ (∀ state event, ¬ door.Contested state event) ∧
      door.problem? true = some (.ambiguous "close" "open") := by
  refine ⟨by decide, fun state event => ?_, by decide⟩
  exact not_contested_iff.2 (List.pairwise_singleton _ _)

end WorkflowRules.Definition
