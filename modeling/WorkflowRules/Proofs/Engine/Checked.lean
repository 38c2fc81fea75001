import WorkflowRules.Proofs.Engine.InStep

/-!
# What is registered has been checked

Definitions and rules come into an engine by management and by loading, and both check them first. So
in every state that an engine can get into, however often it was loaded from whatever rows and
whichever statements were refused, each registered definition and each rule passes its check. Handlers
are only added, and what they make known stays known.

* `Management.carryOut` — a management operation, of which the database may refuse the statement
* `RuleTable.Checked` — every rule of a table passes its check
* `Engine.Reached` — the states of an engine
* `Engine.Checked` — what is registered passes its check
* `Engine.Reached.checked` — so it does in every state
-/

namespace WorkflowRules

open Operation (Keeps)

/-! ## Statements that are refused -/

/-- A statement that meets a fault, if there is one, and then changes nothing. -/
def Database.underFault (fault : Option AutomationError) (x : Operation Database Unit) :
    Operation Database Unit :=
  match fault with
  | none => x
  | some e => .fail e

open Database (underFault)

/-- What changes the definitions or the rules of an engine. -/
inductive Management where
  | define (d : Definition)
  | removeWorkflow (name : String)
  | createRule (r : Rule)
  | setEnabled (name : String) (enabled : Bool)
  | removeRule (name : String)

namespace Management

open Engine

/-- The operation of an engine. A removal tells whether there was something to remove. -/
def operation : Management → Operation Engine Bool
  | define d => do
    defineWorkflow d
    return true
  | removeWorkflow name => Engine.removeWorkflow name
  | createRule r => do
    let _ ← Engine.createRule r
    return true
  | setEnabled name enabled => do
    let _ ← Engine.setEnabled name enabled
    return true
  | removeRule name => Engine.removeRule name

/-- The operation, of which the statement on the database may meet a fault. -/
def carryOut (fault : Option AutomationError) : Management → Operation Engine Bool
  | define d => do
    checkDefinition d
    persist (underFault fault (Database.saveDefinition d))
    registerDefinition d
    return true
  | removeWorkflow name => do
    persist (underFault fault (Database.deleteDefinition name))
    forgetDefinition name
  | createRule r => do
    checkRule r
    persist (underFault fault (Database.saveRule r))
    enterRule r
    return true
  | setEnabled name enabled => do
    let r ← switchRule name enabled
    persist (underFault fault (Database.saveRule r))
    return true
  | removeRule name => do
    persist (underFault fault (Database.deleteRule name))
    dropRule name

/-- Without a fault it is the operation of the engine. -/
theorem carryOut_none (m : Management) : m.carryOut none = m.operation := by
  cases m with
  | define d => simp [carryOut, operation, defineWorkflow, underFault]
  | removeWorkflow name => rfl
  | createRule r => simp [carryOut, operation, Engine.createRule, underFault]
  | setEnabled name enabled => simp [carryOut, operation, Engine.setEnabled, underFault]
  | removeRule name => rfl

end Management

/-! ## Tables of checked rules -/

namespace RuleTable

variable {t : RuleTable} {known : String → Bool}

/-- Every rule of the table passes its check. -/
def Checked (known : String → Bool) (t : RuleTable) : Prop :=
  ∃ rules, t.Represents rules ∧ ∀ r ∈ rules, r.problems known = []

theorem checked_empty : empty.Checked known := ⟨[], represents_empty, by simp⟩

/-- A rule without problems may be put into the table. -/
theorem Checked.upsert (h : t.Checked known) {r : Rule} (accepted : r.problems known = []) :
    (t.upsert r).Checked known := by
  obtain ⟨rules, represents, checked⟩ := h
  refine ⟨_, represents.upsert r, fun x hx => ?_⟩
  rcases List.mem_append.1 hx with hx | hx
  · exact checked x (List.mem_filter.1 hx).1
  · rw [List.mem_singleton.1 hx]
    exact accepted

/-- Whether a rule is enabled is not checked. -/
theorem Checked.setEnabled (h : t.Checked known) (name : String) (enabled : Bool) :
    (t.setEnabled name enabled).Checked known := by
  obtain ⟨rules, represents, checked⟩ := h
  refine ⟨_, represents.setEnabled name enabled, fun x hx => ?_⟩
  obtain ⟨r, hr, rfl⟩ := List.mem_map.1 hx
  unfold switch
  split <;> exact checked r hr

theorem Checked.remove (h : t.Checked known) (name : String) : (t.remove name).Checked known := by
  obtain ⟨rules, represents, checked⟩ := h
  exact ⟨_, represents.remove name, fun x hx => checked x (List.mem_filter.1 hx).1⟩

/-- Knowing more types does no harm. -/
theorem Checked.mono (h : t.Checked known) {known' : String → Bool}
    (more : ∀ type, known type = true → known' type = true) : t.Checked known' := by
  obtain ⟨rules, represents, checked⟩ := h
  refine ⟨rules, represents, fun r hr => ?_⟩
  rw [← checked r hr]
  refine Rule.problems_congr fun a ha => ?_
  have hknown := (Rule.problems_eq_nil_iff.1 (checked r hr)).known a ha
  rw [hknown, more a.type hknown]

end RuleTable

namespace Engine

variable {e e' : Engine}

/-! ## The states of an engine -/

/--
The states that an engine can get into: it begins without definitions and rules on any store, carries
out commands, has hooks of any kind and meets faults of its database, and somebody else may write to
its store at any time.
-/
inductive Reached : Engine → Prop
  | new {e : Engine} (registry : e.registry = .empty) (rules : e.rules = .empty) : Reached e
  | command {e : Engine} (h : Reached e) (c : Command) : Reached (c.run e)
  | managed {e : Engine} (h : Reached e) (fault : Option AutomationError) (m : Management) :
      Reached (m.carryOut fault e).2
  | hooked {e : Engine} (h : Reached e) (name : String) (hook : Hook) :
      Reached { e with hooks := e.hooks.insert name hook }
  | rewritten {e : Engine} (h : Reached e) (store : Store) : Reached { e with store }

/-! ## Being checked -/

/-- Every registered definition and every rule passes its check. -/
structure Checked (e : Engine) : Prop where
  definitions : ∀ name d, e.registry.get? name = some d →
    d.problem? e.config.strictTransitions = none
  rules : e.rules.Checked (hasHandler e)

/-- An engine without definitions and rules has nothing to check. -/
theorem checked_of_empty (registry : e.registry = .empty) (rules : e.rules = .empty) : Checked e where
  definitions name d hd := by
    rw [registry] at hd
    cases hd
  rules := rules ▸ RuleTable.checked_empty

/-- The store, the clock, the trace and the subscribers have no part in it. -/
theorem Checked.congr (h : Checked e) (config : e'.config = e.config)
    (registry : e'.registry = e.registry) (rules : e'.rules = e.rules)
    (actions : e'.actions = e.actions) : Checked e' where
  definitions := by
    rw [config, registry]
    exact h.definitions
  rules := by
    have hhandler : hasHandler e' = hasHandler e := by
      unfold hasHandler
      rw [actions]
    rw [rules, hhandler]
    exact h.rules

theorem Checked.of_setup (h : Checked e) (same : SameSetup e e') : Checked e' :=
  h.congr same.config same.registry same.rules same.actions

theorem Checked.withStore (h : Checked e) (store : Store) : Checked { e with store } :=
  h.congr rfl rfl rfl rfl

/-! ## Changes of the tables -/

/-- A definition without problems may be registered. -/
theorem Checked.register (h : Checked e) {d : Definition}
    (accepted : d.problem? e.config.strictTransitions = none) (name : String) :
    Checked { e with registry := e.registry.insert name d } where
  definitions other found hfound := by
    rcases Keyed.get?_insert_eq_some hfound with ⟨-, rfl⟩ | ⟨-, hfound⟩
    · exact accepted
    · exact h.definitions other found hfound
  rules := h.rules

theorem Checked.forget (h : Checked e) (name : String) :
    Checked { e with registry := e.registry.erase name } where
  definitions other found hfound := by
    by_cases hother : other = name
    · subst hother
      cases (Keyed.get?_erase_self _ _).symm.trans hfound
    · exact h.definitions other found ((Keyed.get?_erase_of_ne _ hother).symm.trans hfound)
  rules := h.rules

theorem Checked.enter (h : Checked e) {r : Rule} (accepted : r.problems (hasHandler e) = []) :
    Checked { e with rules := e.rules.upsert r } :=
  ⟨h.definitions, h.rules.upsert accepted⟩

theorem Checked.switch (h : Checked e) (name : String) (enabled : Bool) :
    Checked { e with rules := e.rules.setEnabled name enabled } :=
  ⟨h.definitions, h.rules.setEnabled name enabled⟩

theorem Checked.drop (h : Checked e) (name : String) :
    Checked { e with rules := e.rules.remove name } :=
  ⟨h.definitions, h.rules.remove name⟩

/-- What was known stays known. -/
theorem Checked.withAction (h : Checked e) (type : String) (handler : ActionHandler) :
    Checked (e.withAction type handler) := by
  refine ⟨h.definitions, h.rules.mono fun other hother => ?_⟩
  rw [hasHandler_withAction, hother, Bool.or_true]

/-! ## Management -/

/-- A statement either ends the operation or changes the store, and the operation goes on. -/
theorem persist_bind_state {β : Type} {P : Engine → Prop} {x : Operation Database Unit}
    {f : Unit → Operation Engine β} (refused : ∀ store, P { e with store })
    (stored : ∀ store, P (f () { e with store }).2) : P ((persist x >>= f) e).2 := by
  have hpersist : persist x e =
      ((Store.persist x e.store).1, { e with store := (Store.persist x e.store).2 }) := rfl
  rw [Operation.bind_apply, hpersist]
  cases (Store.persist x e.store).1 with
  | error f => exact refused _
  | ok _ => exact stored _

/-- However the database takes the statement, what is registered passes its check. -/
theorem Checked.carryOut (h : Checked e) (fault : Option AutomationError) (m : Management) :
    Checked (m.carryOut fault e).2 := by
  -- what has a problem does not get past the check, with or without a fault
  cases m with
  | define d =>
    rw [Management.carryOut, Operation.bind_apply, checkDefinition_apply]
    cases hd : d.problem? e.config.strictTransitions with
    | some p => exact h
    | none => exact persist_bind_state h.withStore fun store => (h.withStore store).register hd d.name
  | removeWorkflow name =>
    exact persist_bind_state h.withStore fun store => (h.withStore store).forget name
  | createRule r =>
    rw [Management.carryOut]
    by_cases accepted : r.problems (hasHandler e) = []
    · rw [Operation.bind_ok _ (checkRule_accepted accepted)]
      exact persist_bind_state h.withStore fun store => (h.withStore store).enter accepted
    · rw [Operation.bind_error _ (checkRule_refused accepted)]
      exact h
  | setEnabled name enabled =>
    rw [Management.carryOut]
    cases hfound : e.rules.byName.get? name with
    | none =>
      rw [Operation.bind_error _ (switchRule_missing hfound enabled)]
      exact h
    | some r =>
      have hswitched := h.switch name enabled
      rw [Operation.bind_ok _ (switchRule_found hfound enabled)]
      exact persist_bind_state hswitched.withStore hswitched.withStore
  | removeRule name => exact persist_bind_state h.withStore fun store => (h.withStore store).drop name

theorem Checked.operation (h : Checked e) (m : Management) : Checked (m.operation e).2 := by
  rw [← Management.carryOut_none]
  exact h.carryOut none m

/-- What becomes of the value of the operation does not matter. -/
theorem Checked.of_bind_pure {α β : Type} {x : Operation Engine α} {b : β}
    (h : Checked ((x >>= fun _ => pure b) e).2) : Checked (x e).2 := by
  rwa [Operation.bind_pure_apply] at h

/-! ## Loading -/

/-- Nothing is registered that does not pass its check. -/
theorem problem?_of_registryOf {strict : Bool} {stored : List (String × Definition)} :
    ∀ name d, (registryOf strict stored).get? name = some d → d.problem? strict = none := by
  refine List.foldlRecOn (motive := fun registry : Keyed String Definition => ∀ name d,
    registry.get? name = some d → d.problem? strict = none) _ _ (fun _ _ hnone => by cases hnone) ?_
  intro registry hregistry row hrow name d hd
  rcases Keyed.get?_insert_eq_some hd with ⟨-, rfl⟩ | ⟨-, hd⟩
  · exact Option.isNone_iff_eq_none.1 (List.mem_filter.1 hrow).2
  · exact hregistry name d hd

theorem checked_tableOf (known : String → Bool) (stored : List Rule) :
    (tableOf known stored).Checked known :=
  List.foldlRecOn (motive := RuleTable.Checked known) _ _ RuleTable.checked_empty
    fun _ ht _ hr => ht.upsert (List.isEmpty_iff.1 (List.mem_filter.1 hr).2)

/-- Loading passes over definitions that have problems. -/
theorem loadDefinitions_checked (h : Checked e) : Checked (loadDefinitions e).2 := by
  cases hstore : e.store with
  | memory s =>
    rw [loadDefinitions, Operation.bind_apply, Operation.view_apply]
    simp only [id, hstore]
    exact h
  | database db =>
    rw [loadDefinitions_database hstore, Operation.bind_apply, Operation.viewExcept_apply]
    cases db.loadDefinitions with
    | error f => exact h
    | ok stored => exact ⟨problem?_of_registryOf, h.rules⟩

theorem loadRules_checked (h : Checked e) : Checked (loadRules e).2 := by
  cases hstore : e.store with
  | memory s =>
    rw [loadRules, Operation.bind_apply, Operation.view_apply]
    simp only [id, hstore]
    exact h
  | database db =>
    rw [loadRules_database hstore, Operation.bind_apply, Operation.viewExcept_apply]
    cases db.loadRules with
    | error f => exact h
    | ok stored => exact ⟨h.definitions, checked_tableOf (hasHandler e) stored⟩

/-- An engine that has been initialized holds nothing unchecked, whatever its database holds. -/
theorem init_checked (h : Checked e) : Checked (init e).2 := by
  have hR : IsPreorder Engine fun e e' => Checked e → Checked e' :=
    { refl := fun _ => id, trans := fun _ _ _ hab hbc => hbc ∘ hab }
  have hconnect : Keeps (fun e e' => Checked e → Checked e') connect := by
    intro e h
    unfold connect
    rw [Operation.change_apply]
    split
    · exact h
    · exact h.congr rfl rfl rfl rfl
  exact (Keeps.bind hR (fun _ => loadDefinitions_checked) fun _ =>
    Keeps.bind hR (fun _ => loadRules_checked) fun _ => hconnect) e h

/-! ## All states -/

/-- No command puts anything unchecked into the tables. -/
theorem Checked.command (h : Checked e) (c : Command) : Checked (c.run e) := by
  cases c with
  | define d => exact .of_bind_pure (h.operation (.define d))
  | removeWorkflow name => exact h.operation (.removeWorkflow name)
  | create workflow entityId data actorId =>
    exact h.of_setup (createInstance_undisturbed workflow entityId data actorId e).1
  | fire workflow entityId event context =>
    exact h.of_setup (fire_undisturbed workflow entityId event context e).1
  | publish name payload trail => exact h.of_setup (publishEvent_undisturbed name payload trail e).1
  | process event => exact h.of_setup (processEvent_undisturbed event e).1
  | onEvent name payload => exact h.of_setup (onEvent_undisturbed name payload e).1
  | createRule r => exact .of_bind_pure (h.operation (.createRule r))
  | setEnabled name enabled => exact .of_bind_pure (h.operation (.setEnabled name enabled))
  | removeRule name => exact h.operation (.removeRule name)
  | registerAction type handler => exact h.withAction type handler
  | init => exact init_checked h
  | registerGuard | registerHook | subscribe | unsubscribe | shutdown => exact h.congr rfl rfl rfl rfl

/-- In every state of an engine, each registered definition and each rule passes its check. -/
theorem Reached.checked (h : Reached e) : Checked e := by
  induction h with
  | new registry rules => exact checked_of_empty registry rules
  | command _ c ih => exact ih.command c
  | managed _ fault m ih => exact ih.carryOut fault m
  | hooked _ name hook ih => exact ih.congr rfl rfl rfl rfl
  | rewritten _ store ih => exact ih.withStore store

end Engine

end WorkflowRules
