import WorkflowRules.Proofs.Engine.Commands
import WorkflowRules.Proofs.Engine.Management
import WorkflowRules.Proofs.Engine.Tables
import WorkflowRules.Proofs.Rule.Order
import WorkflowRules.Proofs.Rule.WellFormed

/-!
# An engine is in step with its database

Management changes the tables in memory and those of the database by separate statements. The engine
and its database are in step when loading the database would give what the engine has: the same
definitions under the same names, and the same rules. Every command keeps them in step.

The order of the rules is another matter. In memory a rule that is created again moves behind the
others, and in the database it keeps its row. The two orders agree until such a move passes a rule of
the same trigger and priority whose row comes later.

A stored rule that names an unknown action type is not loaded. It would be, once a handler of that type
is registered, so the types that are registered later on have to be taken into account.

* `Engine.InStep` — the engine has what its database would give
* `Engine.InOrder` — the rules stand as their rows do, as far as their order counts
* `Engine.Passes`, `Engine.Calm` — a creation moves a rule past another one, and none of them does
* `InStep.step`, `InStep.runAll` — every command keeps them in step, and in order when it is calm
-/

namespace WorkflowRules

open RuleTable (switch)
open Database (Fetchable Filed)

namespace Engine

/-! ## Being in step -/

/-- The action types that stored rules name and that are registered later have handlers already. -/
def Ready (later : String → Prop) (e : Engine) (db : Database) : Prop :=
  ∀ row ∈ db.rules.entries, ∀ r, row.2.read? Rule.reader = some r →
    ∀ a ∈ r.actions, later a.type → hasHandler e a.type = true

/-- Loading the database, which may be writable, would give what the engine has. -/
structure InStep (later : String → Prop) (writable : Bool) (e : Engine) (db : Database)
    (rules : List Rule) : Prop where
  store : e.store = .database db
  writable : db.writable = writable
  definitions : Fetchable db.definitions
  rows : Fetchable db.rules
  filed : Filed db.rules
  ready : Ready later e db
  registry : ∀ {name d},
    e.registry.get? name = some d ↔ db.Defines e.config.strictTransitions name d
  represents : e.rules.Represents rules
  loaded : rules.Perm (db.loadable (hasHandler e))

/-- The rules are in the order of their rows, as far as the order counts. -/
def InOrder (e : Engine) (db : Database) (rules : List Rule) : Prop :=
  Rule.Aligned rules (db.loadable (hasHandler e))

/--
Creating the rule succeeds, and moves it in memory, but not in the database, behind another rule of
its trigger and priority.
-/
def Passes (e : Engine) (r : Rule) : Prop :=
  r.problems (hasHandler e) = [] ∧ ∃ db, e.store = .database db ∧ db.writable = true ∧
    ∃ x ∈ listRules e, db.rules.Follows r.name x.name ∧ x.trigger = r.trigger ∧ x.priority = r.priority

/-- None of the commands moves a rule past another one. -/
def Calm (e : Engine) : List Command → Prop
  | [] => True
  | c :: rest => (∀ r, c = .createRule r → ¬ Passes e r) ∧ Calm (c.run e) rest

variable {later : String → Prop} {writable : Bool} {e e' : Engine} {db : Database} {rules : List Rule}

theorem inOrder_iff {stored : List Rule} (loadable : db.loadable (hasHandler e) = stored) :
    InOrder e db rules ↔ Rule.Aligned rules stored := by
  rw [InOrder, loadable]

/-! ## What leaves the tables alone -/

/-- Being in step is a matter of the settings, the registry, the rules, the action types and the store. -/
theorem InStep.congr (h : InStep later writable e db rules) (config : e'.config = e.config)
    (registry : e'.registry = e.registry) (table : e'.rules = e.rules) (actions : e'.actions = e.actions)
    (tables : e.store.SameTables e'.store) :
    ∃ db', InStep later writable e' db' rules ∧ (InOrder e db rules → InOrder e' db' rules) := by
  obtain ⟨db', store, same⟩ := tables db h.store
  have hhandler : hasHandler e' = hasHandler e := by
    unfold hasHandler
    rw [actions]
  have hloadable : db'.loadable (hasHandler e') = db.loadable (hasHandler e) := by
    rw [Database.loadable, Database.loadable, same.rules, hhandler]
  refine ⟨db', ?_, (inOrder_iff hloadable).2⟩
  · constructor
    · exact store
    · exact same.writable.trans h.writable
    · exact same.definitions ▸ h.definitions
    · exact same.rules ▸ h.rows
    · exact same.rules ▸ h.filed
    · unfold Ready
      rw [same.rules, hhandler]
      exact h.ready
    · intro name d
      unfold Database.Defines
      rw [registry, config, same.definitions]
      exact h.registry
    · exact table ▸ h.represents
    · exact hloadable ▸ h.loaded

theorem InStep.undisturbed (h : InStep later writable e db rules) (same : Undisturbed e e') :
    ∃ db', InStep later writable e' db' rules ∧ (InOrder e db rules → InOrder e' db' rules) :=
  h.congr same.1.config same.1.registry same.1.rules same.1.actions same.2

/-! ## Definitions -/

/-- A definition that can be read back keeps engine and database in step. -/
theorem InStep.define (h : InStep later writable e db rules) {d : Definition}
    (back : Definition.reader.ofText d.toJson.print = .ok d) :
    ∃ db', InStep later writable (defineWorkflow d e).2 db' rules ∧
      (InOrder e db rules → InOrder (defineWorkflow d e).2 db' rules) := by
  cases writable with
  | false =>
    rw [defineWorkflow_readonly h.store h.writable]
    exact ⟨db, h, id⟩
  | true =>
    cases hd : d.problem? e.config.strictTransitions with
    | some p =>
      rw [defineWorkflow_refused hd]
      exact ⟨db, h, id⟩
    | none =>
      rw [defineWorkflow_accepted h.store h.writable hd]
      refine ⟨db.withDefinition d, ?_, id⟩
      refine ⟨rfl, h.writable, h.definitions.insert _ _, h.rows, h.filed, h.ready, ?_, h.represents,
        h.loaded⟩
      intro name found
      rw [Database.defines_withDefinition back hd]
      by_cases hname : name = d.name
      · subst hname
        rw [Keyed.get?_insert_self, if_pos rfl, Option.some.injEq, eq_comm]
      · rw [Keyed.get?_insert_of_ne _ _ hname, if_neg hname]
        exact h.registry

/-- A definition that is removed leaves engine and database in step. -/
theorem InStep.removeWorkflow (h : InStep later writable e db rules) (name : String) :
    ∃ db', InStep later writable (removeWorkflow name e).2 db' rules ∧
      (InOrder e db rules → InOrder (Engine.removeWorkflow name e).2 db' rules) := by
  cases writable with
  | false =>
    rw [removeWorkflow_readonly h.store h.writable]
    exact ⟨db, h, id⟩
  | true =>
    rw [removeWorkflow_state h.store h.writable]
    refine ⟨{ db with definitions := db.definitions.erase name }, ?_, id⟩
    refine ⟨rfl, h.writable, h.definitions.erase name, h.rows, h.filed, h.ready, ?_, h.represents,
      h.loaded⟩
    intro other found
    rw [Database.defines_erase]
    by_cases hother : other = name
    · subst hother
      simp
    · rw [Keyed.get?_erase_of_ne _ hother]
      exact h.registry.trans (and_iff_right hother).symm

/-! ## Rules -/

/-- Rules whose row is written have been checked, so that all their action types have handlers. -/
theorem InStep.ready_withRule (h : InStep later writable e db rules) {r : Rule} (kept : r.Kept)
    (exact : r.toJson.Exact) (accepted : r.problems (hasHandler e) = []) :
    Ready later e (db.withRule r) := by
  rintro ⟨name, cell⟩ hrow x hread a ha hlater
  rcases Keyed.get?_insert_eq_some (Keyed.get?_eq_some_iff.2 hrow) with ⟨-, rfl⟩ | ⟨-, hget⟩
  · obtain ⟨s, hs, hread⟩ := Store.Cell.read?_eq_some.1 hread
    cases hs
    cases (kept.ofText_print exact).symm.trans hread
    exact (Rule.problems_eq_nil_iff.1 accepted).known a ha
  · exact h.ready _ (Keyed.get?_eq_some_iff.1 hget) x hread a ha hlater

theorem InStep.storable (h : InStep later writable e db rules) {r : Rule} (hr : r ∈ rules) :
    r.Storable (hasHandler e) := by
  obtain ⟨row, hrow, hload⟩ := List.mem_filterMap.1 (h.loaded.mem_iff.1 hr)
  exact Database.storable_of_loaded? h.filed hrow hload

/-- A rule that can be read back keeps them in step, and in order unless it passes another one. -/
theorem InStep.createRule (h : InStep later writable e db rules) {r : Rule} (kept : r.Kept)
    (exact : r.toJson.Exact) :
    ∃ db' rules', InStep later writable (createRule r e).2 db' rules' ∧
      (InOrder e db rules → (InOrder (Engine.createRule r e).2 db' rules' ↔ ¬ Passes e r)) := by
  cases writable with
  | false =>
    rw [createRule_readonly h.store h.writable]
    refine ⟨db, rules, h, fun order => iff_of_true order ?_⟩
    rintro ⟨-, db', store, hwritable, -⟩
    cases h.store.symm.trans store
    cases h.writable.symm.trans hwritable
  | true =>
    by_cases accepted : r.problems (hasHandler e) = []
    · have hloaded := Database.loaded?_print kept exact accepted
      -- the rule goes behind all others in memory, and between these two parts in the database
      obtain ⟨before, after, hsaved, hothers, hfollows⟩ := Database.loadable_saved h.filed hloaded
      have hrules : (rules.filter (·.name ≠ r.name)).Perm (before ++ after) :=
        hothers ▸ h.loaded.filter _
      have hmem {x : Rule} (hx : x ∈ after) : x ∈ rules ∧ x.name ≠ r.name := by
        obtain ⟨hx, hname⟩ := List.mem_filter.1 (hrules.mem_iff.2 (List.mem_append_right _ hx))
        exact ⟨hx, of_decide_eq_true hname⟩
      rw [createRule_accepted h.store h.writable accepted]
      refine ⟨db.withRule r, rules.filter (·.name ≠ r.name) ++ [r], ?_, fun order => ?_⟩
      · refine ⟨rfl, h.writable, h.definitions, h.rows.insert _ _,
          Database.filed_withRule h.filed kept exact, h.ready_withRule kept exact accepted, h.registry,
          h.represents.upsert r, ?_⟩
        have hperm : (rules.filter (·.name ≠ r.name) ++ [r]).Perm (before ++ r :: after) :=
          (List.perm_append_singleton _ _).trans ((hrules.cons r).trans List.perm_middle.symm)
        exact hsaved.symm ▸ hperm
      · refine (inOrder_iff hsaved).trans ?_
        rw [Rule.Aligned.insert_iff (hothers ▸ order.filter _) fun hr => (hmem hr).2 rfl]
        constructor
        · rintro last ⟨-, db', store, -, x, hx, hafter, htrigger, hpriority⟩
          cases h.store.symm.trans store
          have hstored := h.loaded.mem_iff.1 (h.represents.list_perm.mem_iff.1 hx)
          exact last x ((hfollows x hstored).2 hafter) htrigger hpriority
        · intro passes x hx htrigger hpriority
          have hx' := (hmem hx).1
          exact passes ⟨accepted, db, h.store, h.writable, x, h.represents.list_perm.mem_iff.2 hx',
            (hfollows x (h.loaded.mem_iff.1 hx')).1 hx, htrigger, hpriority⟩
    · rw [createRule_refused accepted]
      exact ⟨db, rules, h, fun order => iff_of_true order fun passes => accepted passes.1⟩

/-- On a database that is writable, a switch keeps engine and database in step. -/
theorem InStep.setEnabled (h : InStep later writable e db rules) (hwritable : writable = true)
    (name : String) (enabled : Bool) :
    ∃ db' rules', InStep later writable (setEnabled name enabled e).2 db' rules' ∧
      (InOrder e db rules → InOrder (Engine.setEnabled name enabled e).2 db' rules') := by
  cases hfound : e.rules.byName.get? name with
  | none =>
    rw [setEnabled_missing hfound]
    exact ⟨db, rules, h, id⟩
  | some r =>
    obtain ⟨hr, rfl⟩ := h.represents.byName.1 hfound
    have hstorable := h.storable hr
    rw [setEnabled_found h.store (h.writable.trans hwritable) hfound]
    obtain ⟨switched, heq⟩ : ∃ s : Rule, s = { r with enabled } := ⟨_, rfl⟩
    obtain ⟨kept, exact, accepted⟩ : switched.Storable (hasHandler e) :=
      heq ▸ hstorable.withEnabled enabled
    have hswitched := Database.loadable_switched h.filed heq (h.loaded.mem_iff.1 hr)
      (Database.loaded?_print kept exact accepted)
    rw [← heq]
    refine ⟨db.withRule switched, rules.map (switch r.name enabled), ?_, fun order => ?_⟩
    · exact ⟨rfl, h.writable, h.definitions, h.rows.insert _ _,
        Database.filed_withRule h.filed kept exact, h.ready_withRule kept exact accepted,
        h.registry, h.represents.setEnabled _ _, hswitched.symm ▸ h.loaded.map _⟩
    · exact (inOrder_iff hswitched).2 (order.map r.name enabled)

theorem InStep.removeRule (h : InStep later writable e db rules) (name : String) :
    ∃ db' rules', InStep later writable (removeRule name e).2 db' rules' ∧
      (InOrder e db rules → InOrder (Engine.removeRule name e).2 db' rules') := by
  cases writable with
  | false =>
    rw [removeRule_readonly h.store h.writable]
    exact ⟨db, rules, h, id⟩
  | true =>
    have hdropped := Database.loadable_dropped h.filed (hasHandler e) name
    rw [removeRule_state h.store h.writable]
    refine ⟨{ db with rules := db.rules.erase name }, rules.filter (·.name ≠ name), ?_,
      fun order => ?_⟩
    · refine ⟨rfl, h.writable, h.definitions, h.rows.erase name, h.filed.erase name, ?_, h.registry,
        h.represents.remove name, hdropped.symm ▸ h.loaded.filter _⟩
      exact fun row hrow => h.ready row (List.mem_filter.1 hrow).1
    · exact (inOrder_iff hdropped).2 (order.filter _)

/-! ## Action types -/

/-- The engine with another handler. -/
def withAction (e : Engine) (type : String) (handler : ActionHandler) : Engine :=
  { e with actions := e.actions.insert type handler }

theorem hasHandler_withAction (e : Engine) (type : String) (handler : ActionHandler) (other : String) :
    hasHandler (e.withAction type handler) other = (decide (other = type) || hasHandler e other) := by
  unfold hasHandler withAction Keyed.contains
  dsimp only
  rw [Keyed.get?_insert]
  split
  · next heq => simp [heq]
  · next hne => simp [hne]

/-- A handler that no row has been waiting for keeps engine and database in step. -/
theorem InStep.registerAction (h : InStep later writable e db rules) {type : String}
    (hlater : later type) (handler : ActionHandler) :
    InStep later writable (e.withAction type handler) db rules ∧
      (InOrder e db rules → InOrder (e.withAction type handler) db rules) := by
  -- a rule that names the type has been checked with another handler of it
  have hsame : ∀ row ∈ db.rules.entries, ∀ r, row.2.read? Rule.reader = some r → ∀ a ∈ r.actions,
      hasHandler (e.withAction type handler) a.type = hasHandler e a.type := by
    intro row hrow r hread a ha
    rw [hasHandler_withAction]
    by_cases heq : a.type = type
    · rw [h.ready row hrow r hread a ha (heq ▸ hlater), Bool.or_true]
    · rw [decide_eq_false heq, Bool.false_or]
  have hloadable : db.loadable (hasHandler (e.withAction type handler)) =
      db.loadable (hasHandler e) := by
    refine List.filterMap_congr fun row hrow => ?_
    unfold Database.loaded?
    cases hread : row.2.read? Rule.reader with
    | none => rfl
    | some r =>
      rw [Option.filter_some, Option.filter_some,
        Rule.problems_congr (hsame row hrow r hread)]
  refine ⟨?_, (inOrder_iff hloadable).2⟩
  refine ⟨h.store, h.writable, h.definitions, h.rows, h.filed, ?_, h.registry, h.represents,
    hloadable.symm ▸ h.loaded⟩
  intro row hrow r hread a ha halater
  rw [hsame row hrow r hread a ha]
  exact h.ready row hrow r hread a ha halater

/-! ## Loading -/

/-- What has been loaded is in step, and in the order of the rows. -/
theorem InStep.init (store : e.store = .database db) (hwritable : db.writable = writable)
    (definitions : Fetchable db.definitions) (rows : Fetchable db.rules) (filed : Filed db.rules)
    (ready : Ready later e db) :
    InStep later writable (Engine.init e).2 db (db.loadable (hasHandler e)) ∧
      InOrder (Engine.init e).2 db (db.loadable (hasHandler e)) := by
  have hloaded : InStep later writable (e.loadedFrom db) db (db.loadable (hasHandler e)) :=
    ⟨store, hwritable, definitions, rows, filed, ready, Database.get?_registryOf,
      Database.represents_loadable filed (hasHandler e), .refl _⟩
  have horder : InOrder (e.loadedFrom db) db (db.loadable (hasHandler e)) := fun _ _ => rfl
  rw [init_database store definitions rows]
  unfold connect
  rw [Operation.change_apply]
  split
  · exact ⟨hloaded, horder⟩
  · obtain ⟨store, writable, definitions, rows, filed, ready, registry, represents, loaded⟩ := hloaded
    exact ⟨⟨store, writable, definitions, rows, filed, ready, registry, represents, loaded⟩, horder⟩

end Engine

/-! ## Commands -/

namespace Command

/-- Definitions and rules have been read from texts, and the numbers in them are denoted by theirs. -/
def Decoded : Command → Prop
  | define d => (∃ text, Definition.reader.ofText text = .ok d) ∧ d.toJson.Exact
  | createRule r => (∃ text, Rule.reader.ofText text = .ok r) ∧ r.toJson.Exact
  | _ => True

/-- A command that keeps an engine in step. On a database that is not writable, none switches rules. -/
structure Suits (later : String → Prop) (writable : Bool) (c : Command) : Prop where
  decoded : c.Decoded
  switches : ∀ name enabled, c = .setEnabled name enabled → writable = true
  registers : ∀ type handler, c = .registerAction type handler → later type

end Command

namespace Engine

variable {later : String → Prop} {writable : Bool} {e : Engine} {db : Database} {rules : List Rule}

/--
A command keeps the engine in step. It keeps the order of the rules if, and only if, it does not move
one past another.
-/
theorem InStep.step (h : InStep later writable e db rules) {c : Command}
    (suits : c.Suits later writable) :
    ∃ db' rules', InStep later writable (c.run e) db' rules' ∧
      (InOrder e db rules →
        (InOrder (c.run e) db' rules' ↔ ∀ r, c = .createRule r → ¬ Passes e r)) := by
  -- most commands create no rule, and most of them leave the rules as they are
  have ordered {db' : Database} {rules' : List Rule} (hc : ∀ r, c ≠ .createRule r)
      (order : InOrder e db rules → InOrder (c.run e) db' rules') (horder : InOrder e db rules) :
      InOrder (c.run e) db' rules' ↔ ∀ r, c = .createRule r → ¬ Passes e r :=
    iff_of_true (order horder) fun r heq => absurd heq (hc r)
  have unchanged (hc : ∀ r, c ≠ .createRule r)
      (hrun : ∃ db', InStep later writable (c.run e) db' rules ∧
        (InOrder e db rules → InOrder (c.run e) db' rules)) :
      ∃ db' rules', InStep later writable (c.run e) db' rules' ∧
        (InOrder e db rules →
          (InOrder (c.run e) db' rules' ↔ ∀ r, c = .createRule r → ¬ Passes e r)) := by
    obtain ⟨db', h', order⟩ := hrun
    exact ⟨db', rules, h', ordered hc order⟩
  cases c with
  | define d =>
    obtain ⟨⟨text, htext⟩, exact⟩ := suits.decoded
    exact unchanged (by simp) (h.define ((Definition.kept_of_ofText htext).ofText_print exact))
  | removeWorkflow name => exact unchanged (by simp) (h.removeWorkflow name)
  | create workflow entityId data actorId =>
    exact unchanged (by simp) (h.undisturbed (createInstance_undisturbed workflow entityId data actorId e))
  | fire workflow entityId event context =>
    exact unchanged (by simp) (h.undisturbed (fire_undisturbed workflow entityId event context e))
  | publish name payload trail =>
    exact unchanged (by simp) (h.undisturbed (publishEvent_undisturbed name payload trail e))
  | process event => exact unchanged (by simp) (h.undisturbed (processEvent_undisturbed event e))
  | onEvent name payload => exact unchanged (by simp) (h.undisturbed (onEvent_undisturbed name payload e))
  | createRule r =>
    obtain ⟨⟨text, htext⟩, exact⟩ := suits.decoded
    obtain ⟨db', rules', h', order⟩ := h.createRule (Rule.kept_of_ofText htext) exact
    refine ⟨db', rules', h', fun horder => (order horder).trans ?_⟩
    simp only [Command.createRule.injEq, forall_eq']
  | setEnabled name enabled =>
    obtain ⟨db', rules', h', order⟩ := h.setEnabled (suits.switches name enabled rfl) name enabled
    exact ⟨db', rules', h', ordered (by simp) order⟩
  | removeRule name =>
    obtain ⟨db', rules', h', order⟩ := h.removeRule name
    exact ⟨db', rules', h', ordered (by simp) order⟩
  | registerAction type handler =>
    exact unchanged (by simp) ⟨db, h.registerAction (suits.registers type handler rfl) handler⟩
  | init =>
    obtain ⟨h', order⟩ := InStep.init h.store h.writable h.definitions h.rows h.filed h.ready
    exact ⟨db, _, h', ordered (by simp) fun _ => order⟩
  | registerGuard | registerHook | subscribe | unsubscribe | shutdown =>
    exact unchanged (by simp) (h.congr rfl rfl rfl rfl Store.SameTables.rfl)

theorem calm_append (e : Engine) (commands : List Command) (c : Command) :
    Calm e (commands ++ [c]) ↔
      Calm e commands ∧ ∀ r, c = .createRule r → ¬ Passes (e.runAll commands) r := by
  induction commands generalizing e with
  | nil => exact (and_iff_left trivial).trans (and_iff_right trivial).symm
  | cons first rest ih =>
    rw [List.cons_append, Calm, Calm, ih, and_assoc]
    rfl

theorem calm_dropLast {commands : List Command} (calm : Calm e commands) :
    Calm e commands.dropLast := by
  rcases List.eq_nil_or_concat commands with rfl | ⟨commands, c, rfl⟩
  · exact calm
  · rw [List.concat_eq_append] at calm ⊢
    rw [List.dropLast_concat]
    exact ((calm_append e commands c).1 calm).1

/-- A rule without a row gets the last one, so that it stands behind all others anyhow. -/
theorem not_passes_of_missing {r : Rule} (store : e.store = .database db)
    (missing : r.name ∉ db.rules.keys) : ¬ Passes e r := by
  rintro ⟨-, db', store', -, x, -, ⟨before, old, after, split, -⟩, -⟩
  cases store.symm.trans store'
  have hmem : (r.name, old) ∈ db.rules.entries := split ▸ List.mem_append_right _ List.mem_cons_self
  exact missing (List.mem_map_of_mem hmem)

/--
Commands keep the engine in step. Those that do not move a rule past another one keep the order of
the rules as well, and the first one that does so changes it.
-/
theorem InStep.runAll (h : InStep later writable e db rules) (order : InOrder e db rules)
    {commands : List Command} (suits : ∀ c ∈ commands, c.Suits later writable) :
    ∃ db' rules', InStep later writable (e.runAll commands) db' rules' ∧
      (Calm e commands.dropLast → (InOrder (e.runAll commands) db' rules' ↔ Calm e commands)) := by
  -- from the back, since the last command alone may be one that changes the order
  induction commands using List.reverseRecOn with
  | nil =>
    refine ⟨db, rules, h, fun calm => iff_of_true order calm⟩
  | append_singleton commands c ih =>
    obtain ⟨db₁, rules₁, h₁, order₁⟩ := ih fun c hc => suits c (List.mem_append_left _ hc)
    obtain ⟨db₂, rules₂, h₂, order₂⟩ :=
      h₁.step (suits c (List.mem_append_right _ List.mem_cons_self))
    have hrun : e.runAll (commands ++ [c]) = c.run (e.runAll commands) := runAll_append e commands [c]
    rw [hrun, List.dropLast_concat, calm_append]
    refine ⟨db₂, rules₂, h₂, fun calm => ?_⟩
    rw [and_iff_right calm]
    exact order₂ ((order₁ (calm_dropLast calm)).2 calm)

end Engine

end WorkflowRules
