import WorkflowRules.Engine.Handler
import WorkflowRules.Rule.Record

/-!
# Cascades as trees

What the publication of an event sets off is a tree. Below an event stand the rules that were
considered for it, in their order; below a rule stand the events that it caused: those that its actions
published, and the event that announces its record.

* `Cascade.events` — the events of a tree in the order of their publication, an event before all that
  it caused
* `Cascade.Chain` — the causal chains of a tree, hop by hop
* `Cascade.mem_events_iff` — every event of a tree ends a chain that starts at its root
-/

namespace WorkflowRules

/-- A rule that was considered for an event. `τ` is the type of what a published event sets off. -/
structure Consideration (τ : Type) where
  rule : Rule
  /-- The actions that were dispatched, in their order. -/
  dispatched : List Action
  /-- What was set off by the events that these actions published, in their order. -/
  effects : List τ
  /-- The record, and what its announcement set off; none where a failure came first. -/
  closing : Option (RuleExecution × τ)

/-- Everything that the rule caused directly. -/
def Consideration.caused {τ : Type} (c : Consideration τ) : List τ :=
  c.effects ++ (c.closing.map (·.2)).toList

/-- A published event, and the rules that were considered for it. -/
inductive Cascade where
  | mk (event : DomainEvent) (considered : List (Consideration Cascade))

namespace Cascade

/-- The event at the root. -/
def event : Cascade → DomainEvent
  | mk event _ => event

/-- The rules that were considered for the event at the root. -/
def considered : Cascade → List (Consideration Cascade)
  | mk _ considered => considered

/-! ## Events in the order of publication -/

mutual

/-- The events of a tree, depth first. -/
def events : Cascade → List DomainEvent
  | mk event considered => event :: eventsOfAll considered

/-- The events below a list of rules. -/
def eventsOfAll : List (Consideration Cascade) → List DomainEvent
  | [] => []
  | c :: rest => eventsOf c ++ eventsOfAll rest

/-- The events below a rule: first those that its actions led to. -/
def eventsOf : Consideration Cascade → List DomainEvent
  | ⟨_, _, effects, none⟩ => eventsOfEffects effects
  | ⟨_, _, effects, some closing⟩ => eventsOfEffects effects ++ eventsOfClosing closing

/-- The events of the announcement of a record. -/
def eventsOfClosing : RuleExecution × Cascade → List DomainEvent
  | (_, t) => events t

/-- The events of a list of trees. -/
def eventsOfEffects : List Cascade → List DomainEvent
  | [] => []
  | t :: rest => events t ++ eventsOfEffects rest

end

theorem eventsOfEffects_eq (ts : List Cascade) : eventsOfEffects ts = ts.flatMap events := by
  induction ts with
  | nil => rfl
  | cons t rest ih => rw [eventsOfEffects, ih, List.flatMap_cons]

/-- What a rule led to is read tree by tree. -/
theorem eventsOf_eq (c : Consideration Cascade) : eventsOf c = c.caused.flatMap events := by
  obtain ⟨rule, dispatched, effects, _ | ⟨record, t⟩⟩ := c
  · simp [eventsOf, eventsOfEffects_eq, Consideration.caused]
  · simp [eventsOf, eventsOfEffects_eq, eventsOfClosing, Consideration.caused]

theorem eventsOfAll_eq (cs : List (Consideration Cascade)) :
    eventsOfAll cs = cs.flatMap fun c => c.caused.flatMap events := by
  induction cs with
  | nil => rfl
  | cons c rest ih => rw [eventsOfAll, ih, eventsOf_eq, List.flatMap_cons]

/-- The event at the root comes first, and then rule by rule what they led to. -/
theorem events_mk (x : DomainEvent) (cs : List (Consideration Cascade)) :
    events (mk x cs) = x :: cs.flatMap fun c => c.caused.flatMap events := by
  rw [events, eventsOfAll_eq]

/-! ## Causal chains -/

/-- A step of a causal chain: a rule that was considered for an event caused the next event. -/
structure Hop where
  event : DomainEvent
  rule : Rule
  /-- The actions of the rule that were dispatched for the event. -/
  dispatched : List Action

/-- Some hops lead from the root of a tree to the root of a part of it. -/
inductive Chain : Cascade → List Hop → Cascade → Prop
  | refl (t : Cascade) : Chain t [] t
  | hop {x : DomainEvent} {cs : List (Consideration Cascade)} {c : Consideration Cascade}
      {t u : Cascade} {hops : List Hop} (mem : c ∈ cs) (caused : t ∈ c.caused)
      (rest : Chain t hops u) : Chain (mk x cs) (⟨x, c.rule, c.dispatched⟩ :: hops) u

/-- The event at the end of a chain is in the tree. -/
theorem Chain.mem_events {t u : Cascade} {hops : List Hop} (h : Chain t hops u) :
    u.event ∈ t.events := by
  induction h with
  | refl t =>
    obtain ⟨x, cs⟩ := t
    rw [events_mk]
    exact List.mem_cons_self
  | hop mem caused _ ih =>
    rw [events_mk]
    refine List.mem_cons_of_mem _ (List.mem_flatMap.2 ⟨_, mem, ?_⟩)
    exact List.mem_flatMap.2 ⟨_, caused, ih⟩

/-- A chain is empty, or its last hop starts where a shorter chain ends. -/
theorem Chain.refl_or_last {t v : Cascade} {hops : List Hop} (h : Chain t hops v) :
    (hops = [] ∧ v = t) ∨
      ∃ front u c, Chain t front u ∧ c ∈ u.considered ∧ v ∈ c.caused := by
  induction h with
  | refl t => exact .inl ⟨rfl, rfl⟩
  | hop mem caused _ ih =>
    rcases ih with ⟨-, rfl⟩ | ⟨front, u, d, hfront, hd, hv⟩
    · exact .inr ⟨[], _, _, .refl _, mem, caused⟩
    · exact .inr ⟨_, u, d, .hop mem caused hfront, hd, hv⟩

mutual

/-- A chain leads to each event of a tree. -/
theorem exists_chain {y : DomainEvent} (t : Cascade) (h : y ∈ t.events) :
    ∃ hops u, Chain t hops u ∧ u.event = y := by
  match t with
  | mk x cs =>
    rcases List.mem_cons.1 h with rfl | h
    · exact ⟨[], _, .refl _, rfl⟩
    · obtain ⟨c, hc, t, ht, hops, u, hu, rfl⟩ := exists_chainOfAll cs h
      exact ⟨_, u, .hop hc ht hu, rfl⟩

theorem exists_chainOfAll {y : DomainEvent} (cs : List (Consideration Cascade))
    (h : y ∈ eventsOfAll cs) :
    ∃ c ∈ cs, ∃ t ∈ c.caused, ∃ hops u, Chain t hops u ∧ u.event = y := by
  match cs with
  | [] => cases h
  | c :: rest =>
    rcases List.mem_append.1 h with h | h
    · exact ⟨c, List.mem_cons_self, exists_chainOf c h⟩
    · obtain ⟨c', hc', found⟩ := exists_chainOfAll rest h
      exact ⟨c', List.mem_cons_of_mem _ hc', found⟩

theorem exists_chainOf {y : DomainEvent} (c : Consideration Cascade) (h : y ∈ eventsOf c) :
    ∃ t ∈ c.caused, ∃ hops u, Chain t hops u ∧ u.event = y := by
  match c with
  | ⟨_, _, effects, none⟩ =>
    obtain ⟨t, ht, found⟩ := exists_chainOfEffects effects h
    exact ⟨t, List.mem_append_left _ ht, found⟩
  | ⟨_, _, effects, some closing⟩ =>
    rcases List.mem_append.1 h with h | h
    · obtain ⟨t, ht, found⟩ := exists_chainOfEffects effects h
      exact ⟨t, List.mem_append_left _ ht, found⟩
    · exact ⟨closing.2, List.mem_append_right _ List.mem_cons_self,
        exists_chainOfClosing closing h⟩

theorem exists_chainOfClosing {y : DomainEvent} (closing : RuleExecution × Cascade)
    (h : y ∈ eventsOfClosing closing) :
    ∃ hops u, Chain closing.2 hops u ∧ u.event = y := by
  match closing with
  | (_, t) => exact exists_chain t h

theorem exists_chainOfEffects {y : DomainEvent} (ts : List Cascade)
    (h : y ∈ eventsOfEffects ts) : ∃ t ∈ ts, ∃ hops u, Chain t hops u ∧ u.event = y := by
  match ts with
  | [] => cases h
  | t :: rest =>
    rcases List.mem_append.1 h with h | h
    · exact ⟨t, List.mem_cons_self, exists_chain t h⟩
    · obtain ⟨t', ht', found⟩ := exists_chainOfEffects rest h
      exact ⟨t', List.mem_cons_of_mem _ ht', found⟩

end

/-- Every event of a tree ends a causal chain that starts at the root, and nothing else does. -/
theorem mem_events_iff {t : Cascade} {y : DomainEvent} :
    y ∈ t.events ↔ ∃ hops u, Chain t hops u ∧ u.event = y := by
  constructor
  · exact exists_chain t
  · rintro ⟨hops, u, h, rfl⟩
    exact h.mem_events

end Cascade

end WorkflowRules
