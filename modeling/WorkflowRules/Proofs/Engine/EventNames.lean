import WorkflowRules.Proofs.Cascade.Invocations
import WorkflowRules.Proofs.Cascade.Triggers
import WorkflowRules.Proofs.Store.Calls
import WorkflowRules.Proofs.Workflow.Reachability

/-!
# What the name of an event tells

Entering a state is announced under a name that consists of the workflow and the state with a point
between them. Names of workflows and states may hold points themselves. So the name of the event tells
both apart unless one workflow is named like the other one with a point and more behind it, and the
state makes up for what is missing.

* `workflowEventName_eq_iff` — which workflows and states share the name of their events
* `Engine.settle_enters` — the event of a transition is named for its workflow and its new state
* `Engine.event_names_identify_sources` — what a rule with such a trigger can have been run by
* `Engine.dotted_names_collide` — two registered workflows whose events a rule cannot tell apart
-/

namespace WorkflowRules

open Operation (Keeps)

/-! ## Names -/

/-- The name `v` goes on from `w` with a point and more, and the state `s` says what `v` and `t` have
more than `w`. -/
def Overlaps (w s v t : String) : Prop := ∃ x, v = w ++ "." ++ x ∧ s = x ++ "." ++ t

/-- Where two texts are put together with a point, one of the first parts goes on from the other. -/
theorem append_dot_cases {w s v t : String} (h : w ++ "." ++ s = v ++ "." ++ t) :
    (w = v ∧ s = t) ∨ Overlaps w s v t ∨ Overlaps v t w s := by
  have hlist := congrArg String.toList h
  simp only [String.toList_append] at hlist
  have hdot : ".".toList = ['.'] := rfl
  rw [hdot, List.append_assoc, List.append_assoc, List.append_eq_append_iff] at hlist
  -- one workflow name is the beginning of the other, and what is left of that begins with the dot
  rcases hlist with ⟨more, hv, hs⟩ | ⟨more, hw, ht⟩
  · cases more with
    | nil =>
      left
      rw [List.append_nil] at hv
      exact ⟨String.toList_inj.1 hv.symm, String.toList_inj.1 (by simpa using hs)⟩
    | cons c x =>
      right; left
      simp only [List.cons_append, List.nil_append, List.cons.injEq] at hs
      obtain ⟨rfl, hs⟩ := hs
      refine ⟨String.ofList x, String.toList_inj.1 ?_, String.toList_inj.1 ?_⟩ <;>
        simp [hv, hs, hdot]
  · cases more with
    | nil =>
      left
      rw [List.append_nil] at hw
      exact ⟨String.toList_inj.1 hw, String.toList_inj.1 (by simpa using ht.symm)⟩
    | cons c x =>
      right; right
      simp only [List.cons_append, List.nil_append, List.cons.injEq] at ht
      obtain ⟨rfl, ht⟩ := ht
      refine ⟨String.ofList x, String.toList_inj.1 ?_, String.toList_inj.1 ?_⟩ <;>
        simp [hw, ht, hdot]

/-- The events of two workflows and states have one name when these are the same, or when they
overlap. -/
theorem workflowEventName_eq_iff {w s v t : String} :
    workflowEventName w s = workflowEventName v t ↔
      (w = v ∧ s = t) ∨ Overlaps w s v t ∨ Overlaps v t w s := by
  unfold workflowEventName
  constructor
  · intro h
    have hlist := congrArg String.toList h
    simp only [String.toList_append, List.append_assoc, List.append_cancel_left_eq] at hlist
    refine append_dot_cases (String.toList_inj.1 ?_)
    simpa using hlist
  · rintro (⟨rfl, rfl⟩ | ⟨x, rfl, rfl⟩ | ⟨x, rfl, rfl⟩)
    · rfl
    · simp only [String.append_assoc]
    · simp only [String.append_assoc]

/-- A name that the other one does not go on from tells the workflow and the state. -/
theorem workflowEventName_inj {w s v t : String} (hv : ∀ x, v ≠ w ++ "." ++ x)
    (hw : ∀ x, w ≠ v ++ "." ++ x) :
    workflowEventName w s = workflowEventName v t ↔ w = v ∧ s = t := by
  rw [workflowEventName_eq_iff]
  constructor
  · rintro (same | ⟨x, hx, -⟩ | ⟨x, hx, -⟩)
    · exact same
    · exact absurd hx (hv x)
    · exact absurd hx (hw x)
  · exact .inl

/-! ## Transitions -/

theorem Store.commit_ok {held : Instance} {state : String} {entry : HistoryEntry} {s : Store}
    {i : Instance} (h : (commit held state entry s).1 = .ok i) : i.state = state := by
  cases s with
  | memory m =>
    obtain ⟨stored, -, rfl, -⟩ := MemoryStore.commit_ok h
    rfl
  | database db =>
    have hcommit : Database.commit held state entry db =
        (.ok i, (Database.commit held state entry db).2) := Prod.ext h rfl
    obtain ⟨moved, db', -, h⟩ := Operation.bind_eq_ok hcommit
    cases moved with
    | true =>
      cases h
      rfl
    | false =>
      obtain ⟨found, db'', hfound, h⟩ := Operation.bind_eq_ok h
      cases found <;> cases h

namespace Engine

variable {e e' : Engine} {p : Publish} {workflow entityId event : String}
  {context : TransitionContext}

/-- What is committed has entered the target of a transition of the workflow. -/
theorem advance_enters {seen : HookContext} {hooks : List String}
    (h : advance p workflow entityId event context e = (.ok (seen, hooks), e')) :
    ∃ d t, e.registry.get? workflow = some d ∧ t ∈ d.transitions ∧ seen.subject.state = t.target := by
  obtain ⟨d, s, hd, h⟩ := Operation.bind_eq_ok h
  obtain ⟨_, s', hfree, h⟩ := Operation.bind_eq_ok h
  obtain ⟨i, s', hi, h⟩ := Operation.bind_eq_ok h
  obtain ⟨t, s'', ht, h⟩ := Operation.bind_eq_ok h
  obtain ⟨_, s₁, hguards, h⟩ := Operation.bind_eq_ok h
  obtain ⟨_, s₂, hhooks, h⟩ := Operation.bind_eq_ok h
  obtain ⟨committed, s₃, hcommit, h⟩ := Operation.bind_eq_ok h
  cases h
  obtain ⟨time, s₄, -, hcommit⟩ := Operation.bind_eq_ok hcommit
  exact ⟨d, t, (lookup_ok hd).1, List.mem_of_find?_eq_some (select_ok ht).1,
    Store.commit_ok (congrArg Prod.fst hcommit)⟩

/-- The event of a transition is named for the workflow and for the state that was entered. -/
theorem settle_enters {i : Instance} {entered : DomainEvent}
    (h : settle p workflow entityId event context e = (.ok (i, entered), e')) :
    entered.name = workflowEventName workflow i.state ∧
      ∃ d t, e.registry.get? workflow = some d ∧ t ∈ d.transitions ∧ i.state = t.target := by
  obtain ⟨⟨seen, hooks⟩, s, hadvance, h⟩ := Operation.bind_eq_ok h
  obtain ⟨_, s', hafter, h⟩ := Operation.bind_eq_ok h
  obtain ⟨y, s'', hy, h⟩ := Operation.bind_eq_ok h
  cases h
  exact ⟨(newEvent_content hy).1, advance_enters hadvance⟩

theorem Reached.runAll (h : Reached e) (cs : List Command) : Reached (e.runAll cs) := by
  induction cs generalizing e with
  | nil => exact h
  | cons c rest ih => exact ih (h.command c)

/-- What follows a transition that was settled is what its event sets off. -/
theorem transition_state {i : Instance} {entered : DomainEvent}
    (h : settle p workflow entityId event context e = (.ok (i, entered), e')) :
    (transition p workflow entityId event context e).2 = (p entered e').2 := by
  unfold transition
  rw [Operation.bind_ok _ h]
  show ((p entered >>= fun _ => pure i) e').2 = (p entered e').2
  rw [Operation.bind_pure_apply]

/--
Two workflows and states share the name of their events exactly if they are the same or overlap, and
not at all where neither workflow is named like the other one with a point and more behind it. A
transition that gets as far as its event enters a declared state of its workflow, the event is named for
both, and all that is carried out on it is carried out for rules with this name as their trigger: for
those that were meant for the workflow and the state, or for ones that overlap.
-/
theorem event_names_identify_sources (engines : IsPublisher p) (reached : Reached e)
    (setup : SameSetup e e') :
    (∀ w s v t : String,
      (workflowEventName w s = workflowEventName v t ↔
        (w = v ∧ s = t) ∨ Overlaps w s v t ∨ Overlaps v t w s) ∧
      ((∀ x, v ≠ w ++ "." ++ x) → (∀ x, w ≠ v ++ "." ++ x) →
        (workflowEventName w s = workflowEventName v t ↔ w = v ∧ s = t))) ∧
    ∀ v entityId event context i entered e₁,
      settle p v entityId event context e' = (.ok (i, entered), e₁) →
      entered.name = workflowEventName v i.state ∧
      (∃ d, e.registry.get? v = some d ∧ d.states.contains i.state = true) ∧
      ∃ later, (transition p v entityId event context e').2.trace =
          later ++ .published entered :: e₁.trace ∧
        ∀ builtIn action seen, .actionRan builtIn action seen ∈ later → seen.event = entered →
          ∀ w s, seen.rule.trigger = workflowEventName w s →
            (w = v ∧ s = i.state) ∨ Overlaps w s v i.state ∨ Overlaps v i.state w s := by
  have checked : Checked e' := reached.checked.of_setup setup
  refine ⟨fun w s v t => ⟨workflowEventName_eq_iff, workflowEventName_inj⟩, ?_⟩
  intro v entityId event context i entered e₁ h
  obtain ⟨named, d, t, hregistered, ht, hstate⟩ := settle_enters h
  refine ⟨named, ⟨d, setup.registry ▸ hregistered, ?_⟩, ?_⟩
  · have declared := (Definition.declared_of_problem? (checked.definitions v d hregistered)).2 t ht
    rw [hstate]
    exact declared t.target (by simp)
  · have hsettled := settle_answers engines.answers v entityId event context e' checked.bucketed
    rw [h] at hsettled
    obtain ⟨later, htrace, on⟩ := engines.trace entered hsettled.1
    refine ⟨later, (congrArg Engine.trace (transition_state h)).trans htrace, ?_⟩
    rintro builtIn action seen hran rfl w s htrigger
    have htriggered : seen.rule.trigger = seen.event.name := on _ hran
    exact workflowEventName_eq_iff.1 (by rw [← htrigger, htriggered, named])

/-! ### Two workflows that a rule cannot tell apart -/

/-- Orders, one of whose states is about their items. -/
def orderFlow : Definition := .ofStates "order" "order" "item.packed" ["item.packed"]

/-- The items of orders. -/
def itemFlow : Definition :=
  (Definition.ofStates "order.item" "item" "open" ["open", "packed"]).addTransition
    { sources := ["open"], target := "packed", event := "pack" }

/-- A rule that is meant for the orders. -/
def onOrderPacked : Rule :=
  (Rule.onEvent "ship" (workflowEventName "order" "item.packed")).addAction (.log "info" "shipped")

/-- An engine in memory with both workflows, the rule and an item. -/
def packing : Engine :=
  runAll (inMemory {} .counting)
    [.define orderFlow, .define itemFlow, .createRule onOrderPacked, .init,
      .create "order.item" "i1" .null none]

theorem reached_packing : Reached packing :=
  Reached.runAll (.new rfl rfl) _

theorem event_names_identify_sources_packing :
    Reached packing ∧ ∃ i entered e₁,
      settle publish "order.item" "i1" "pack" .empty packing = (.ok (i, entered), e₁) ∧
      entered.name = workflowEventName "order.item" i.state ∧
      ∃ later, (transition publish "order.item" "i1" "pack" .empty packing).2.trace =
        later ++ .published entered :: e₁.trace := by
  have engines : IsPublisher publish := .outermost []
  have succeeds : (settle publish "order.item" "i1" "pack" .empty packing).1.isOk = true := by
    decide +kernel
  rcases hsettle : settle publish "order.item" "i1" "pack" .empty packing with ⟨_ | ⟨i, entered⟩, e₁⟩
  · rw [hsettle] at succeeds
    cases succeeds
  · obtain ⟨named, -, later, htrace, -⟩ :=
      (event_names_identify_sources engines reached_packing SameSetup.rfl).2
        _ _ _ _ i entered e₁ hsettle
    exact ⟨reached_packing, i, entered, e₁, rfl, named, later, htrace⟩

/--
Both workflows and their states are registered and declared, and the packing of an item runs the rule
that is meant for orders.
-/
theorem dotted_names_collide :
    Reached packing ∧
      (packing.registry.get? "order").any (·.states.contains "item.packed") = true ∧
      (packing.registry.get? "order.item").any (·.states.contains "packed") = true ∧
      "order" ≠ "order.item" ∧
      workflowEventName "order" "item.packed" = workflowEventName "order.item" "packed" ∧
      (carriedOut "ship" packing).length = 0 ∧
      (carriedOut "ship" (fire "order.item" "i1" "pack" .empty packing).2).length = 1 := by
  refine ⟨reached_packing, ?_, ?_, ?_, ?_, ?_, ?_⟩ <;> decide +kernel

end Engine

end WorkflowRules
