import WorkflowRules.Proofs.Engine.Checked
import WorkflowRules.Proofs.Engine.Restart

/-!
# Failures that leave something changed

A management operation fails when what it is given does not pass its check, when there is no such rule,
when the database refuses its statement, and when there was nothing to remove. Such a failure should
leave the engine and the stored rows as they were, and it does, with two exceptions.

A rule is enabled or disabled in the table first and stored afterwards. If the database refuses to store
it, it stays switched in the table. And a removal tells whether there was something to remove in memory.
A row that was skipped when the database was loaded is deleted all the same.

* `Engine.Lapse` — the two exceptions, and what they leave changed
* `Engine.Reached.changed_by_failure_iff` — there are no others
* `Engine.failure_leaves_change` — both of them do occur
-/

namespace WorkflowRules

open Database (underFault)

namespace Engine

/-! ## Statements -/

/-- The database refuses a statement that writes. -/
def Refuses (fault : Option AutomationError) (db : Database) : Prop :=
  fault ≠ none ∨ db.writable = false

variable {fault : Option AutomationError} {e e' : Engine} {db : Database}

theorem persist_underFault_refused (store : e.store = .database db) (refuses : Refuses fault db)
    (change : Database → Database) :
    ∃ f, persist (underFault fault (Database.write (.change change))) e = (.error f, e) := by
  cases fault with
  | some f => exact ⟨_, persist_refused store rfl⟩
  | none =>
    have readonly : db.writable = false := refuses.resolve_left (by simp)
    exact ⟨_, persist_refused store (Database.write_readonly readonly _)⟩

theorem persist_underFault_granted (store : e.store = .database db) (granted : ¬ Refuses fault db)
    (change : Database → Database) :
    persist (underFault fault (Database.write (.change change))) e =
      (.ok (), { e with store := .database (change db) }) := by
  obtain ⟨hfault, hwritable⟩ := not_or.1 granted
  obtain rfl : fault = none := by simpa using hfault
  have writable : db.writable = true := by simpa using hwritable
  exact persist_database store (if_pos writable)

/-! ## Lapses -/

/-- The failures of an engine on a database that leave something changed, and the engine afterwards. -/
inductive Lapse (fault : Option AutomationError) (e : Engine) (db : Database) :
    Management → Engine → Prop
  /-- The rule has been enabled or disabled when the database refuses to store it. -/
  | switched {name : String} {enabled : Bool} {r : Rule} (refuses : Refuses fault db)
      (found : e.rules.byName.get? name = some r) (other : r.enabled ≠ enabled) :
      Lapse fault e db (.setEnabled name enabled)
        { e with rules := e.rules.setEnabled name enabled }
  /-- A row is deleted although no definition of its name is registered. -/
  | workflowRow {name : String} (granted : ¬ Refuses fault db)
      (missing : e.registry.get? name = none) (stored : db.definitions.get? name ≠ none) :
      Lapse fault e db (.removeWorkflow name)
        { e with store := .database { db with definitions := db.definitions.erase name } }
  /-- A row is deleted although no rule of its name is in the table. -/
  | ruleRow {name : String} (granted : ¬ Refuses fault db)
      (missing : e.rules.byName.get? name = none) (stored : db.rules.get? name ≠ none) :
      Lapse fault e db (.removeRule name)
        { e with store := .database { db with rules := db.rules.erase name } }

/-- Something has been changed. -/
theorem Lapse.ne {m : Management} (store : e.store = .database db) (h : Lapse fault e db m e') :
    e' ≠ e := by
  intro heq
  cases h with
  | @switched name enabled r _ found other =>
    have hget : (e.rules.setEnabled name enabled).byName.get? name = some { r with enabled } := by
      rw [RuleTable.setEnabled_found found]
      exact Keyed.get?_insert_self _ _ _
    have hrules : e.rules.setEnabled name enabled = e.rules := congrArg (·.rules) heq
    rw [hrules, found] at hget
    exact other (congrArg (·.enabled) (Option.some.inj hget))
  | workflowRow _ _ stored =>
    have hstore := (congrArg (·.store) heq).trans store
    exact Keyed.erase_ne_self stored (congrArg (·.definitions) (Store.database.inj hstore))
  | ruleRow _ _ stored =>
    have hstore := (congrArg (·.store) heq).trans store
    exact Keyed.erase_ne_self stored (congrArg (·.rules) (Store.database.inj hstore))

/-! ## The operations one by one -/

section Operations

variable (store : e.store = .database db)

include store

/-- What is stored first is not done at all if it cannot be stored. -/
theorem stored_first {change : Database → Database} {after : Operation Engine Bool}
    (succeeds : ∀ e', (after e').1 = .ok true)
    (failed : ((persist (underFault fault (Database.write (.change change))) >>= fun _ => after) e).1 ≠
      .ok true) :
    ((persist (underFault fault (Database.write (.change change))) >>= fun _ => after) e).2 = e := by
  by_cases refuses : Refuses fault db
  · obtain ⟨f, hpersist⟩ := persist_underFault_refused store refuses change
    rw [Operation.bind_error _ hpersist]
  · have hpersist := persist_underFault_granted store refuses change
    rw [Operation.bind_ok _ hpersist] at failed
    exact absurd (succeeds _) failed

/-- A definition that is not accepted or cannot be stored changes nothing. -/
theorem define_failed {d : Definition}
    (failed : ((Management.define d).carryOut fault e).1 ≠ .ok true) :
    ((Management.define d).carryOut fault e).2 = e := by
  have hcheck := checkDefinition_apply d e
  revert failed
  rw [Management.carryOut]
  cases hd : d.problem? e.config.strictTransitions with
  | some p =>
    rw [hd] at hcheck
    rw [Operation.bind_error _ hcheck]
    exact fun _ => rfl
  | none =>
    rw [hd] at hcheck
    rw [Operation.bind_ok _ hcheck]
    exact stored_first store fun _ => rfl

/-- A rule that is not accepted or cannot be stored changes nothing. -/
theorem createRule_failed {r : Rule}
    (failed : ((Management.createRule r).carryOut fault e).1 ≠ .ok true) :
    ((Management.createRule r).carryOut fault e).2 = e := by
  revert failed
  rw [Management.carryOut]
  by_cases accepted : r.problems (hasHandler e) = []
  · rw [Operation.bind_ok _ (checkRule_accepted accepted)]
    exact stored_first store fun _ => rfl
  · rw [Operation.bind_error _ (checkRule_refused accepted)]
    exact fun _ => rfl

theorem removeWorkflow_refused (refuses : Refuses fault db) (name : String) :
    ∃ f, (Management.removeWorkflow name).carryOut fault e = (.error f, e) := by
  obtain ⟨f, hdelete⟩ := persist_underFault_refused store refuses _
  exact ⟨f, Operation.bind_error _ hdelete⟩

theorem removeWorkflow_granted (granted : ¬ Refuses fault db) (name : String) :
    (Management.removeWorkflow name).carryOut fault e =
      (.ok (e.registry.contains name),
        { e with
          store := .database { db with definitions := db.definitions.erase name }
          registry := e.registry.erase name }) :=
  Operation.bind_ok _ (persist_underFault_granted store granted _)

theorem removeRule_refused (refuses : Refuses fault db) (name : String) :
    ∃ f, (Management.removeRule name).carryOut fault e = (.error f, e) := by
  obtain ⟨f, hdelete⟩ := persist_underFault_refused store refuses _
  exact ⟨f, Operation.bind_error _ hdelete⟩

theorem removeRule_granted (granted : ¬ Refuses fault db) (name : String) :
    (Management.removeRule name).carryOut fault e =
      (.ok (e.rules.byName.contains name),
        { e with
          store := .database { db with rules := db.rules.erase name }
          rules := e.rules.remove name }) :=
  Operation.bind_ok _ (persist_underFault_granted store granted _)

/-- A rule is switched before it is stored. -/
theorem setEnabled_refused (refuses : Refuses fault db) {name : String} {r : Rule}
    (found : e.rules.byName.get? name = some r) (enabled : Bool) :
    ∃ f, (Management.setEnabled name enabled).carryOut fault e =
      (.error f, { e with rules := e.rules.setEnabled name enabled }) := by
  have store' : ({ e with rules := e.rules.setEnabled name enabled } : Engine).store = .database db :=
    store
  obtain ⟨f, hsave⟩ := persist_underFault_refused store' refuses fun db =>
    { db with rules := db.rules.insert r.name (.ofText { r with enabled }.toJson.print) }
  rw [Management.carryOut, Operation.bind_ok _ (switchRule_found found enabled)]
  exact ⟨f, Operation.bind_error _ hsave⟩

/-- A rule that is found is switched and stored if the database carries it out. -/
theorem setEnabled_granted (granted : ¬ Refuses fault db) {name : String} {r : Rule}
    (found : e.rules.byName.get? name = some r) (enabled : Bool) :
    ((Management.setEnabled name enabled).carryOut fault e).1 = .ok true := by
  have store' : ({ e with rules := e.rules.setEnabled name enabled } : Engine).store = .database db :=
    store
  have hsave := persist_underFault_granted store' granted fun db =>
    { db with rules := db.rules.insert r.name (.ofText { r with enabled }.toJson.print) }
  rw [Management.carryOut, Operation.bind_ok _ (switchRule_found found enabled)]
  exact congrArg Prod.fst (Operation.bind_ok _ hsave)

end Operations

/-! ## All failures -/

section Failures

variable (store : e.store = .database db)

include store

/-- A switch that fails changes something only where the database refuses to store it. -/
theorem lapse_of_setEnabled (h : Checked e) {name : String} {enabled : Bool}
    (failed : ((Management.setEnabled name enabled).carryOut fault e).1 ≠ .ok true)
    (changed : ((Management.setEnabled name enabled).carryOut fault e).2 ≠ e) :
    Lapse fault e db (.setEnabled name enabled)
      ((Management.setEnabled name enabled).carryOut fault e).2 := by
  cases found : e.rules.byName.get? name with
  | none =>
    refine absurd ?_ changed
    rw [Management.carryOut, Operation.bind_error _ (switchRule_missing found enabled)]
  | some r =>
    by_cases refuses : Refuses fault db
    · obtain ⟨f, hrun⟩ := setEnabled_refused store refuses found enabled
      rw [hrun] at changed ⊢
      refine .switched refuses found fun same => changed ?_
      obtain ⟨rules, represents, -⟩ := h.rules
      rw [← same, represents.setEnabled_self found]
    · exact absurd (setEnabled_granted store refuses found enabled) failed

/-- A removal that fails changes something only where a row has no definition in the registry. -/
theorem lapse_of_removeWorkflow {name : String}
    (failed : ((Management.removeWorkflow name).carryOut fault e).1 ≠ .ok true)
    (changed : ((Management.removeWorkflow name).carryOut fault e).2 ≠ e) :
    Lapse fault e db (.removeWorkflow name)
      ((Management.removeWorkflow name).carryOut fault e).2 := by
  by_cases refuses : Refuses fault db
  · obtain ⟨f, hrun⟩ := removeWorkflow_refused store refuses name
    exact absurd (congrArg (·.2) hrun) changed
  · rw [removeWorkflow_granted store refuses] at failed changed ⊢
    cases missing : e.registry.get? name with
    | some d => exact absurd (congrArg _ (Keyed.contains_eq_true missing)) failed
    | none =>
      rw [Keyed.erase_of_missing missing] at changed ⊢
      refine .workflowRow refuses missing fun stored => changed ?_
      rw [Keyed.erase_of_missing stored, ← store]

/-- A removal that fails changes something only where a row has no rule in the table. -/
theorem lapse_of_removeRule {name : String}
    (failed : ((Management.removeRule name).carryOut fault e).1 ≠ .ok true)
    (changed : ((Management.removeRule name).carryOut fault e).2 ≠ e) :
    Lapse fault e db (.removeRule name) ((Management.removeRule name).carryOut fault e).2 := by
  by_cases refuses : Refuses fault db
  · obtain ⟨f, hrun⟩ := removeRule_refused store refuses name
    exact absurd (congrArg (·.2) hrun) changed
  · rw [removeRule_granted store refuses] at failed changed ⊢
    cases missing : e.rules.byName.get? name with
    | some r => exact absurd (congrArg _ (Keyed.contains_eq_true missing)) failed
    | none =>
      rw [RuleTable.remove_missing missing] at changed ⊢
      refine .ruleRow refuses missing fun stored => changed ?_
      rw [Keyed.erase_of_missing stored, ← store]

/-- The exceptions are failures. -/
theorem Lapse.failed {m : Management} (h : Lapse fault e db m e') :
    (m.carryOut fault e).1 ≠ .ok true := by
  cases h with
  | switched refuses found other =>
    obtain ⟨f, hrun⟩ := setEnabled_refused store refuses found _
    rw [hrun]
    simp
  | workflowRow granted missing _ =>
    rw [removeWorkflow_granted store granted, Keyed.contains_eq_false missing]
    simp
  | ruleRow granted missing _ =>
    rw [removeRule_granted store granted, Keyed.contains_eq_false missing]
    simp

end Failures

/--
A management operation that fails on an engine with a database, in whatever state the two are and for
whatever reason, leaves the engine and the stored rows as they were, but for the two exceptions.
-/
theorem Reached.changed_by_failure_iff (h : Reached e) (store : e.store = .database db)
    (fault : Option AutomationError) (m : Management) :
    ((m.carryOut fault e).1 ≠ .ok true ∧ (m.carryOut fault e).2 ≠ e) ↔
      Lapse fault e db m (m.carryOut fault e).2 := by
  constructor
  · rintro ⟨failed, changed⟩
    cases m with
    | define d => exact absurd (define_failed store failed) changed
    | createRule r => exact absurd (createRule_failed store failed) changed
    | setEnabled name enabled => exact lapse_of_setEnabled store h.checked failed changed
    | removeWorkflow name => exact lapse_of_removeWorkflow store failed changed
    | removeRule name => exact lapse_of_removeRule store failed changed
  · intro lapse
    exact ⟨lapse.failed store, lapse.ne store⟩

/-! ## A row that waits for its action type -/

/-- A rule with an action of a type that no engine has from the start. -/
def waiting : Rule := (Rule.onEvent "later" "e").addAction ⟨"pay", []⟩

/-- A database with the rule. -/
def withWaiting : Database := Database.empty.withRule waiting

/-- An engine that has loaded the database, and has skipped the rule. -/
def booted : Engine := (init { shop with store := .database withWaiting }).2

theorem plain_waiting : waiting.Plain := by
  refine ⟨by simp [waiting, Rule.onEvent, Rule.addAction], rfl, fun a ha => ?_, rfl⟩
  obtain rfl := List.mem_singleton.1 ha
  exact ⟨List.Pairwise.nil, fun field hfield => by cases hfield⟩

/-- The row is passed over when it is loaded, since nobody handles its action. -/
theorem booted_eq :
    booted =
      { shop with
        store := .database withWaiting
        subscribers := [.rules]
        connected := true } := by
  have fetchable : Database.Fetchable withWaiting.rules := Database.fetchable_empty.insert _ _
  have hloadable : withWaiting.loadable (hasHandler shop) = [] := by
    have hread : Store.Cell.read? Rule.reader (.text waiting.toJson.print) = some waiting :=
      Store.Cell.read?_eq_some.2 ⟨_, rfl, plain_waiting.ofText_print⟩
    have hskipped : (waiting.problems (hasHandler shop)).isEmpty = false := by decide
    show [("later", Store.Cell.text waiting.toJson.print)].filterMap _ = []
    rw [List.filterMap_cons_none, List.filterMap_nil]
    rw [Database.loaded?, hread, Option.filter_some, hskipped]
    rfl
  have hinit := init_database (e := { shop with store := .database withWaiting }) rfl
    Database.fetchable_empty fetchable
  rw [booted, hinit, loadedFrom]
  show (connect { shop with
    store := .database withWaiting
    registry := .empty
    rules := (withWaiting.loadable (hasHandler shop)).foldl RuleTable.upsert .empty }).2 = _
  rw [hloadable]
  rfl

theorem reached_booted : Reached booted :=
  .command (.new rfl rfl) .init

theorem store_booted : booted.store = .database withWaiting := by
  rw [booted_eq]

theorem removeRule_booted :
    (Management.removeRule "later").carryOut none booted =
      (.ok false, { booted with store := .database .empty }) := by
  have granted : ¬ Refuses none withWaiting := by
    simp [Refuses, withWaiting, Database.withRule, Database.empty]
  have hrows : { withWaiting with rules := withWaiting.rules.erase "later" } = Database.empty := rfl
  rw [removeRule_granted store_booted granted, hrows, booted_eq]
  rfl

/-- A removal that answers with no has changed the database. -/
theorem changed_by_failure_booted :
    Reached booted ∧ booted.store = .database withWaiting ∧
      Lapse none booted withWaiting (.removeRule "later")
        { booted with store := .database .empty } := by
  have hlapse := (Reached.changed_by_failure_iff reached_booted store_booted none
    (.removeRule "later")).1
  rw [removeRule_booted] at hlapse
  refine ⟨reached_booted, store_booted, hlapse ⟨by simp, fun heq => ?_⟩⟩
  have hstore : Database.empty = withWaiting :=
    Store.database.inj ((congrArg (·.store) heq).trans store_booted)
  exact absurd (congrArg (·.rules.keys) hstore) (by decide)

/-- Why a database may refuse a statement. -/
def locked : AutomationError := Database.refused 5 "database is locked"

/-- An engine with a rule. -/
def stocked : Engine := (createRule (note "first") shop).2

/--
Removing a rule that was skipped fails and takes its row with it. Disabling a rule that the database
refuses to store fails and leaves the rule disabled.
-/
theorem failure_leaves_change :
    (Reached booted ∧ booted.store = .database withWaiting ∧ withWaiting.rules.keys = ["later"] ∧
      ((Management.removeRule "later").carryOut none booted).1 = .ok false ∧
      ((Management.removeRule "later").carryOut none booted).2.store = .database .empty) ∧
    (Reached stocked ∧ (getRule? stocked "first").map (·.enabled) = some true ∧
      ((Management.setEnabled "first" false).carryOut (some locked) stocked).1 =
        .error (.error locked) ∧
      (getRule? ((Management.setEnabled "first" false).carryOut (some locked) stocked).2 "first").map
        (·.enabled) = some false) := by
  have hstocked : stocked = _ := createRule_note .empty .empty rfl (by decide)
  refine ⟨⟨reached_booted, store_booted, rfl, ?_, ?_⟩, .command (.new rfl rfl) (.createRule _), ?_⟩
  · rw [removeRule_booted]
  · rw [removeRule_booted]
  · rw [hstocked]
    exact ⟨rfl, rfl, rfl⟩

end Engine

end WorkflowRules
