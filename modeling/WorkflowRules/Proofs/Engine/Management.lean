import WorkflowRules.Proofs.Engine.Commands
import WorkflowRules.Proofs.Store.Tables

/-!
# Managing an engine on a database

Each management operation is one statement on the database and one change of a table in memory, when
the check that comes first succeeds. Loading replaces the tables in memory by what the database gives.

* `Engine.createRule_accepted`, `setEnabled_found`, `removeRule_state`, `defineWorkflow_accepted`,
  `removeWorkflow_state` — the state after an operation
* `Engine.createRule_readonly` and its like — nothing happens on a database that is not writable
* `Engine.init_database` — the state after loading
* `Engine.fetchable_of_init` — what a database is like that could be loaded
-/

namespace WorkflowRules

namespace Engine

open Database (Fetchable)

/-! ## Statements of management -/

section Statements

variable {e : Engine} {db : Database}

/-- A statement that the database carries out changes the database and nothing else of the engine. -/
theorem persist_database {x : Operation Database Unit} {db' : Database}
    (store : e.store = .database db) (h : x db = (.ok (), db')) :
    persist x e = (.ok (), { e with store := .database db' }) := by
  show ((Store.persist x e.store).1, { e with store := (Store.persist x e.store).2 }) = _
  rw [store]
  show ((x db).1, { e with store := .database (x db).2 }) = _
  rw [h]

/-- A statement that the database refuses leaves the engine as it was. -/
theorem persist_refused {x : Operation Database Unit} {f : Failure} (store : e.store = .database db)
    (h : x db = (.error f, db)) : persist x e = (.error f, e) := by
  show ((Store.persist x e.store).1, { e with store := (Store.persist x e.store).2 }) = _
  rw [store]
  show ((x db).1, { e with store := .database (x db).2 }) = _
  rw [h, ← store]

/-- The first problem of a definition is reported, with strictness as the settings say. -/
theorem checkDefinition_apply (d : Definition) (e : Engine) :
    checkDefinition d e =
      (match d.problem? e.config.strictTransitions with
        | some p => .error (.error (.definition (p.message d.name)))
        | none => .ok (), e) := by
  rw [checkDefinition, Operation.bind_apply, Operation.view_apply]
  dsimp only
  cases d.problem? e.config.strictTransitions <;> rfl

/-- A definition with a problem is neither stored nor registered. -/
theorem defineWorkflow_refused {d : Definition} {p : DefinitionProblem}
    (h : d.problem? e.config.strictTransitions = some p) : (defineWorkflow d e).2 = e := by
  have hcheck := checkDefinition_apply d e
  rw [h] at hcheck
  rw [defineWorkflow, Operation.bind_error _ hcheck]

theorem checkRule_accepted {r : Rule} (h : r.problems (hasHandler e) = []) :
    checkRule r e = (.ok (), e) := by
  rw [checkRule, Operation.bind_apply, Operation.view_apply]
  simp [h]

/-- All problems of a rule are reported at once, under its name. -/
theorem checkRule_refused {r : Rule} (h : r.problems (hasHandler e) ≠ []) :
    checkRule r e =
      (.error (.error (.validation (Rule.report r.name (r.problems (hasHandler e))))), e) := by
  rw [checkRule, Operation.bind_apply, Operation.view_apply]
  simp [h]

theorem createRule_refused {r : Rule} (h : r.problems (hasHandler e) ≠ []) :
    (createRule r e).2 = e := by
  rw [createRule, Operation.bind_error _ (checkRule_refused h)]

theorem switchRule_missing {name : String} (h : e.rules.byName.get? name = none) (enabled : Bool) :
    switchRule name enabled e = (.error (.error (.notFound ("rule '" ++ name ++ "'"))), e) := by
  simp only [switchRule, RuleTable.setEnabled_missing h, h]

/-- The rule in the table is exchanged before anything is stored. -/
theorem switchRule_found {name : String} {r : Rule} (h : e.rules.byName.get? name = some r)
    (enabled : Bool) :
    switchRule name enabled e =
      (.ok { r with enabled }, { e with rules := e.rules.setEnabled name enabled }) := by
  have hget : (e.rules.setEnabled name enabled).byName.get? name = some { r with enabled } := by
    rw [RuleTable.setEnabled_found h]
    exact Keyed.get?_insert_self _ _ _
  simp only [switchRule, hget]

theorem setEnabled_missing {name : String} (h : e.rules.byName.get? name = none) (enabled : Bool) :
    (setEnabled name enabled e).2 = e := by
  rw [setEnabled, Operation.bind_error _ (switchRule_missing h enabled)]

section Writable

variable (store : e.store = .database db) (writable : db.writable = true)

include store writable

/-- An accepted definition takes the place of the one of its name, stored and registered. -/
theorem defineWorkflow_accepted {d : Definition}
    (h : d.problem? e.config.strictTransitions = none) :
    (defineWorkflow d e).2 =
      { e with store := .database (db.withDefinition d), registry := e.registry.insert d.name d } := by
  have hcheck := checkDefinition_apply d e
  rw [h] at hcheck
  have hsave := persist_database store (Database.saveDefinition_apply writable d)
  rw [defineWorkflow, Operation.bind_ok _ hcheck, Operation.bind_ok _ hsave]
  rfl

/-- After a removal the definition is gone from the database and from the registry. -/
theorem removeWorkflow_state (name : String) :
    (removeWorkflow name e).2 =
      { e with
        store := .database { db with definitions := db.definitions.erase name }
        registry := e.registry.erase name } := by
  have hdelete := persist_database store (Database.deleteDefinition_apply writable name)
  rw [removeWorkflow, Operation.bind_ok _ hdelete]
  rfl

/-- An accepted rule takes the place of the one of its name, in the database and in the table. -/
theorem createRule_accepted {r : Rule} (h : r.problems (hasHandler e) = []) :
    (createRule r e).2 =
      { e with store := .database (db.withRule r), rules := e.rules.upsert r } := by
  have hsave := persist_database store (Database.saveRule_apply writable r)
  rw [createRule, Operation.bind_ok _ (checkRule_accepted h), Operation.bind_ok _ hsave]
  rfl

/-- A rule that is enabled or disabled is stored again, as a whole. -/
theorem setEnabled_found {name : String} {r : Rule} (h : e.rules.byName.get? name = some r)
    (enabled : Bool) :
    (setEnabled name enabled e).2 =
      { e with
        store := .database (db.withRule { r with enabled })
        rules := e.rules.setEnabled name enabled } := by
  have hstore : ({ e with rules := e.rules.setEnabled name enabled } : Engine).store = .database db :=
    store
  have hsave := persist_database hstore (Database.saveRule_apply writable { r with enabled })
  rw [setEnabled, Operation.bind_ok _ (switchRule_found h enabled), Operation.bind_ok _ hsave]
  rfl

/-- After a removal the rule is gone from the table, and so is the row that is filed under its name. -/
theorem removeRule_state (name : String) :
    (removeRule name e).2 =
      { e with
        store := .database { db with rules := db.rules.erase name }
        rules := e.rules.remove name } := by
  have hdelete := persist_database store (Database.deleteRule_apply writable name)
  rw [removeRule, Operation.bind_ok _ hdelete]
  rfl

end Writable

/-! A database that is not writable refuses a change before it is made in memory, unless it is the
change of a rule that is enabled or disabled. -/

section Readonly

variable (store : e.store = .database db) (readonly : db.writable = false)

include store readonly

/-- A definition that cannot be stored is not registered either. -/
theorem defineWorkflow_readonly (d : Definition) : (defineWorkflow d e).2 = e := by
  cases hd : d.problem? e.config.strictTransitions with
  | some p => exact defineWorkflow_refused hd
  | none =>
    have hcheck := checkDefinition_apply d e
    rw [hd] at hcheck
    have hsave := persist_refused (x := Database.saveDefinition d) store
      (Database.write_readonly readonly _)
    rw [defineWorkflow, Operation.bind_ok _ hcheck, Operation.bind_error _ hsave]

theorem removeWorkflow_readonly (name : String) : (removeWorkflow name e).2 = e := by
  have hdelete := persist_refused (x := Database.deleteDefinition name) store
    (Database.write_readonly readonly _)
  rw [removeWorkflow, Operation.bind_error _ hdelete]

theorem createRule_readonly (r : Rule) : (createRule r e).2 = e := by
  by_cases accepted : r.problems (hasHandler e) = []
  · have hsave := persist_refused (x := Database.saveRule r) store (Database.write_readonly readonly _)
    rw [createRule, Operation.bind_ok _ (checkRule_accepted accepted), Operation.bind_error _ hsave]
  · exact createRule_refused accepted

theorem removeRule_readonly (name : String) : (removeRule name e).2 = e := by
  have hdelete := persist_refused (x := Database.deleteRule name) store
    (Database.write_readonly readonly _)
  rw [removeRule, Operation.bind_error _ hdelete]

/-- The rule is switched in the table before the database refuses to store it. -/
theorem setEnabled_readonly {name : String} {r : Rule} (h : e.rules.byName.get? name = some r)
    (enabled : Bool) :
    (setEnabled name enabled e).2 = { e with rules := e.rules.setEnabled name enabled } := by
  have hstore : ({ e with rules := e.rules.setEnabled name enabled } : Engine).store = .database db :=
    store
  have hsave := persist_refused (x := Database.saveRule { r with enabled }) hstore
    (Database.write_readonly readonly _)
  rw [setEnabled, Operation.bind_ok _ (switchRule_found h enabled), Operation.bind_error _ hsave]

end Readonly

end Statements

/-! ## Loading -/

section Loading

variable {e e' : Engine} {db : Database}

theorem loadDefinitions_database (store : e.store = .database db) :
    loadDefinitions e = (Operation.viewExcept (fun _ => db.loadDefinitions) >>= fun stored =>
      .change fun e => { e with registry := registryOf e.config.strictTransitions stored }) e := by
  rw [loadDefinitions, Operation.bind_apply, Operation.view_apply]
  simp only [id, store]

theorem loadRules_database (store : e.store = .database db) :
    loadRules e = (Operation.viewExcept (fun _ => db.loadRules) >>= fun stored =>
      .change fun e => { e with rules := tableOf (hasHandler e) stored }) e := by
  rw [loadRules, Operation.bind_apply, Operation.view_apply]
  simp only [id, store]

/-- The engine with what the database gives. -/
def loadedFrom (e : Engine) (db : Database) : Engine :=
  { e with
    registry := registryOf e.config.strictTransitions
      (Database.readRows Definition.reader db.definitions)
    rules := (db.loadable (hasHandler e)).foldl RuleTable.upsert .empty }

/-- An engine on a database with rows that can be fetched loads them and subscribes its rules. -/
theorem init_database (store : e.store = .database db) (definitions : Fetchable db.definitions)
    (rules : Fetchable db.rules) : init e = (.ok (), (connect (e.loadedFrom db)).2) := by
  have hdefinitions : loadDefinitions e = (.ok (), { e with
      registry := registryOf e.config.strictTransitions
        (Database.readRows Definition.reader db.definitions) }) := by
    rw [loadDefinitions_database store, Operation.bind_apply, Operation.viewExcept_apply,
      Database.loadDefinitions, Database.loadRows_eq _ definitions]
    rfl
  have hrules {e' : Engine} (store' : e'.store = .database db) :
      loadRules e' = (.ok (), { e' with
        rules := (db.loadable (hasHandler e')).foldl RuleTable.upsert .empty }) := by
    rw [loadRules_database store', Operation.bind_apply, Operation.viewExcept_apply,
      Database.loadRules, Database.loadRows_eq _ rules, ← Database.tableOf_readRows]
    rfl
  rw [init, Operation.bind_ok _ hdefinitions]
  exact Operation.bind_ok _ (hrules store)

theorem connect_rules (e : Engine) : (connect e).2.rules = e.rules := by
  unfold connect
  rw [Operation.change_apply]
  split <;> rfl

theorem config_init (store : e.store = .database db) (definitions : Fetchable db.definitions)
    (rules : Fetchable db.rules) : (init e).2.config = e.config := by
  rw [init_database store definitions rules]
  unfold connect
  rw [Operation.change_apply]
  split <;> rfl

/-- An engine that could be initialised has a database of which every row can be fetched. -/
theorem fetchable_of_init (store : e.store = .database db) (h : init e = (.ok (), e')) :
    Fetchable db.definitions ∧ Fetchable db.rules := by
  obtain ⟨_, e₁, hdefinitions, h⟩ := Operation.bind_eq_ok h
  obtain ⟨_, e₂, hrules, -⟩ := Operation.bind_eq_ok h
  rw [loadDefinitions_database store] at hdefinitions
  obtain ⟨stored, s, hstored, hchange⟩ := Operation.bind_eq_ok hdefinitions
  obtain ⟨hread, rfl⟩ := Prod.mk.inj hstored
  have store₁ : e₁.store = .database db := by
    rw [← (Prod.mk.inj hchange).2]
    exact store
  -- the rules are loaded from the same database, whatever has been registered before
  rw [loadRules_database store₁] at hrules
  obtain ⟨loaded, s', hloaded, -⟩ := Operation.bind_eq_ok hrules
  obtain ⟨rows, hrows, -⟩ := ok_of_bind (Prod.mk.inj hloaded).1
  exact ⟨Database.fetchable_of_loadRows hread, Database.fetchable_of_loadRows hrows⟩

/-- A loaded engine has the rules of its database. -/
theorem getRule?_init (store : e.store = .database db) (loads : init e = (.ok (), e')) (name : String) :
    getRule? e' name = db.rule? (hasHandler e) name := by
  obtain ⟨definitions, rows⟩ := fetchable_of_init store loads
  rw [init_database store definitions rows] at loads
  rw [← (Prod.mk.inj loads).2, getRule?, connect_rules]
  rfl

end Loading

end Engine

end WorkflowRules
