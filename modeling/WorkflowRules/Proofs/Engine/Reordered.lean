import WorkflowRules.Proofs.Cascade.Sample
import WorkflowRules.Proofs.Engine.Checked
import WorkflowRules.Proofs.Engine.Closed
import WorkflowRules.Proofs.Workflow.Strict

/-!
# The order of transitions in a strict engine

A strict engine accepts unambiguous definitions only, whether they are registered or loaded, so in all
of its states at most one transition leaves a state on an event. A run asks the registry for nothing but
the selected transition. Hence the transitions of the registered definitions may be put into any other
order: every run does the same, down to the clock and the trace.

* `Engine.SelectsAlike` — two registries select the same transitions
* `Engine.Indifferent` — an operation does the same with two registries
* `Engine.fire_indifferent` — a transition with all that it sets off does so
* `Engine.Reached.strict_unambiguous` — at most one candidate, and no matter which order
-/

namespace WorkflowRules.Engine

/-! ## Operations on two registries -/

/-- Under each name both registries select the same transitions, or neither has a definition. -/
def SelectsAlike (registry other : Keyed String Definition) : Prop :=
  ∀ name, (other.get? name).map Definition.select? = (registry.get? name).map Definition.select?

/--
The operation does the same with both registries, which it leaves alone: the values are equal, and so
are the engines afterwards but for the registry.
-/
def Indifferent {α : Type} (registry other : Keyed String Definition) (x : Operation Engine α) : Prop :=
  ∀ e, e.registry = registry → (x e).2.registry = registry ∧
    x { e with registry := other } = ((x e).1, { (x e).2 with registry := other })

section Operations

variable {registry other : Keyed String Definition} {α β : Type}

theorem Indifferent.pure (a : α) : Indifferent registry other (Pure.pure a : Operation Engine α) :=
  fun _ he => ⟨he, rfl⟩

theorem Indifferent.fail (reason : AutomationError) :
    Indifferent registry other (Operation.fail reason : Operation Engine α) :=
  fun _ he => ⟨he, rfl⟩

theorem Indifferent.view {f : Engine → α} (hf : ∀ e, f { e with registry := other } = f e) :
    Indifferent registry other (.view f) := by
  intro e he
  refine ⟨he, ?_⟩
  rw [Operation.view_apply, hf]
  rfl

theorem Indifferent.viewExcept {f : Engine → Except Failure α}
    (hf : ∀ e, f { e with registry := other } = f e) : Indifferent registry other (.viewExcept f) := by
  intro e he
  refine ⟨he, ?_⟩
  rw [Operation.viewExcept_apply, hf]
  rfl

/-- A sequence does not look at the registry if none of its parts does. -/
theorem Indifferent.bind {x : Operation Engine α} {f : α → Operation Engine β}
    (hx : Indifferent registry other x) (hf : ∀ a, Indifferent registry other (f a)) :
    Indifferent registry other (x >>= f) := by
  intro e he
  obtain ⟨hregistry, hrun⟩ := hx e he
  rw [Operation.bind_apply, Operation.bind_apply, hrun]
  rcases hxe : x e with ⟨failure | a, e'⟩
  · rw [hxe] at hregistry
    exact ⟨hregistry, rfl⟩
  · rw [hxe] at hregistry
    exact hf a e' hregistry

/-- To catch refusals is not to look at the registry. -/
theorem Indifferent.attempt {x : Operation Engine α} (hx : Indifferent registry other x) :
    Indifferent registry other (Operation.attempt x) := by
  intro e he
  obtain ⟨hregistry, hrun⟩ := hx e he
  unfold Operation.attempt
  rw [hrun]
  rcases hxe : x e with ⟨(reason | _) | a, e'⟩ <;> rw [hxe] at hregistry <;> exact ⟨hregistry, rfl⟩

/-! ## Steps -/

/-- What is done to the store has nothing to do with the registry. -/
theorem onStoreOf_indifferent (x : Operation Store α) :
    Indifferent registry other (onStoreOf x) :=
  fun _ he => ⟨he, rfl⟩

theorem load_indifferent (key : InstanceKey) : Indifferent registry other (load key) := by
  refine (Indifferent.viewExcept fun _ => rfl).bind fun found => ?_
  cases found with
  | none => exact .fail _
  | some i => exact .pure i

theorem reserve_indifferent (held : List InstanceKey) (key : InstanceKey) :
    Indifferent registry other (reserve held key) := by
  intro e he
  rw [reserve_apply, reserve_apply]
  exact ⟨he, rfl⟩

/-- To select from a definition is not to look at the registry. -/
theorem select_indifferent (d : Definition) (i : Instance) (event : String) :
    Indifferent registry other (select d i event) := by
  unfold select
  split
  · exact .pure _
  · exact .fail _

/-- Of a definition, only the selected transition counts. -/
theorem Indifferent.select (alike : SelectsAlike registry other) (held : List InstanceKey)
    (workflow entityId event : String) {rest : Instance → Transition → Operation Engine α}
    (hrest : ∀ i t, Indifferent registry other (rest i t)) :
    Indifferent registry other (do
      let d ← lookup workflow
      reserve held (workflow, entityId)
      let i ← load (workflow, entityId)
      let t ← select d i event
      rest i t) := by
  intro e he
  -- both registries know the same names, with definitions that select alike
  have hname := alike workflow
  cases hd : registry.get? workflow with
  | none =>
    rw [hd] at hname
    have hother : other.get? workflow = none := by simpa using hname
    have hlookup : lookup workflow e = (.error (.error (workflowNotFound workflow)), e) := by
      rw [lookup_apply, he, hd]
    have hlookup' : lookup workflow { e with registry := other } =
        (.error (.error (workflowNotFound workflow)), { e with registry := other }) := by
      rw [lookup_apply, hother]
    rw [Operation.bind_error _ hlookup, Operation.bind_error _ hlookup']
    exact ⟨he, rfl⟩
  | some d =>
    rw [hd] at hname
    obtain ⟨d', hd', hselect⟩ := Option.map_eq_some_iff.1 hname
    have hlookup : lookup workflow e = (.ok d, e) := by
      rw [lookup_apply, he, hd]
    have hlookup' : lookup workflow { e with registry := other } =
        (.ok d', { e with registry := other }) := by
      rw [lookup_apply, hd']
    have hsame (i : Instance) : Engine.select d' i event = Engine.select d i event := by
      unfold Engine.select
      rw [hselect]
    rw [Operation.bind_ok _ hlookup, Operation.bind_ok _ hlookup']
    simp only [hsame]
    exact ((reserve_indifferent _ _).bind fun _ => (load_indifferent _).bind fun i =>
      (select_indifferent d i event).bind (hrest i)) e he

/-- Where two registries select alike, no cascade tells them apart. -/
theorem Indifferent.stepClosed (alike : SelectsAlike registry other) :
    StepClosed fun _ x _ => Indifferent registry other x where
  pure := .pure
  fail := .fail
  endless _ he := ⟨he, rfl⟩
  bind := .bind
  attempt := .attempt
  view hf := .view fun e => hf e other e.store e.trace
  observe _ _ he := ⟨he, rfl⟩
  now _ he := ⟨he, rfl⟩
  newIdentifier _ he := ⟨he, rfl⟩
  nextCall _ he := ⟨he, rfl⟩
  commit _ _ _ := onStoreOf_indifferent _
  commitDirectly _ _ _ := onStoreOf_indifferent _
  select held _ workflow entityId event _ _ hrest := .select alike held workflow entityId event hrest

end Operations

/-! ## Strict engines -/

/-- The definitions of a registry, each with its transitions in some order. -/
def Reordered (registry other : Keyed String Definition) : Prop :=
  ∀ name, Option.Rel Definition.Reorders (registry.get? name) (other.get? name)

variable {e : Engine}

/-- In a strict engine all registered definitions are unambiguous. -/
theorem Checked.unambiguous (h : Checked e) (strict : e.config.strictTransitions = true)
    {name : String} {d : Definition} (hd : e.registry.get? name = some d) : d.Unambiguous := by
  have accepted := h.definitions name d hd
  rw [strict] at accepted
  exact Definition.unambiguous_of_problem? accepted

/-- In a strict engine the order of transitions has no bearing on selection. -/
theorem Checked.selectsAlike (h : Checked e) (strict : e.config.strictTransitions = true)
    {registry : Keyed String Definition} (reordered : Reordered e.registry registry) :
    SelectsAlike e.registry registry := by
  intro name
  have hname := reordered name
  generalize registry.get? name = found at hname ⊢
  cases hd : e.registry.get? name with
  | none =>
    rw [hd] at hname
    cases hname
    rfl
  | some d =>
    rw [hd] at hname
    cases hname with
    | some reorders => exact congrArg some ((h.unambiguous strict hd).select?_reorder reorders)

/--
In every state of a strict engine, at most one transition of a registered definition leaves a state on
an event. So if the transitions of the definitions were in any other order, the same ones would be
selected, and firing an event would have the same outcome and do the same to the engine.
-/
theorem Reached.strict_unambiguous (h : Reached e) (strict : e.config.strictTransitions = true) :
    (∀ name d, e.registry.get? name = some d →
      ∀ state event, (d.candidates state event).length ≤ 1) ∧
    ∀ registry, Reordered e.registry registry →
      (∀ name d d', e.registry.get? name = some d → registry.get? name = some d' →
        ∀ state event, d'.select? state event = d.select? state event) ∧
      ∀ workflow entityId event context,
        fire workflow entityId event context { e with registry } =
          ((fire workflow entityId event context e).1,
            { (fire workflow entityId event context e).2 with registry }) := by
  refine ⟨fun name d hd => (h.checked.unambiguous strict hd).length_candidates_le, ?_⟩
  intro registry reordered
  have alike := h.checked.selectsAlike strict reordered
  refine ⟨fun name d d' hd hd' state event => ?_, fun workflow entityId event context => ?_⟩
  · have hname := alike name
    rw [hd, hd'] at hname
    rw [Option.some.inj hname]
  · exact ((Indifferent.stepClosed alike).fire workflow entityId event context e rfl).2

/-! ### A strict engine with one event that leaves two states -/

/-- A workflow in which one event leads back and forth. -/
def shift : Definition :=
  ((Definition.ofStates "shift" "shift" "day" ["day", "night"]).addTransition
    { sources := ["day"], target := "night", event := "turn" }).addTransition
    { sources := ["night"], target := "day", event := "turn" }

/-- The workflow with its transitions the other way round. -/
def shiftBack : Definition := { shift with transitions := shift.transitions.reverse }

/-- A strict engine in memory with the workflow and an instance of it. -/
def onShift : Engine :=
  (Command.create "shift" "s1" .null none).run
    ((Command.define shift).run (inMemory { strictTransitions := true } .counting))

theorem registry_onShift : onShift.registry = Keyed.empty.insert "shift" shift := rfl

/-- One event leaves two states, by one transition each, and the order of the two does not matter. -/
theorem strict_unambiguous_onShift :
    Reached onShift ∧ onShift.config.strictTransitions = true ∧
      Reordered onShift.registry (Keyed.empty.insert "shift" shiftBack) ∧
      ((∀ name d, onShift.registry.get? name = some d →
        ∀ state event, (d.candidates state event).length ≤ 1) ∧
      fire "shift" "s1" "turn" .empty { onShift with registry := Keyed.empty.insert "shift" shiftBack } =
        ((fire "shift" "s1" "turn" .empty onShift).1,
          { (fire "shift" "s1" "turn" .empty onShift).2 with
            registry := Keyed.empty.insert "shift" shiftBack })) := by
  have reached : Reached onShift := .command (.command (.new rfl rfl) _) _
  have strict : onShift.config.strictTransitions = true := rfl
  have reordered : Reordered onShift.registry (Keyed.empty.insert "shift" shiftBack) := by
    intro name
    rw [registry_onShift]
    by_cases hname : name = "shift"
    · subst hname
      rw [Keyed.get?_insert_self, Keyed.get?_insert_self]
      exact .some (.mk (List.reverse_perm _))
    · rw [Keyed.get?_insert_of_ne _ _ hname, Keyed.get?_insert_of_ne _ _ hname]
      exact .none
  obtain ⟨unique, same⟩ := Reached.strict_unambiguous reached strict
  exact ⟨reached, strict, reordered, unique, (same _ reordered).2 "shift" "s1" "turn" .empty⟩

example : (fire "shift" "s1" "turn" .empty onShift).1.map (·.state) = .ok "night" := by
  decide +kernel

end WorkflowRules.Engine
