import WorkflowRules.Proofs.Cascade.Sample
import WorkflowRules.Proofs.Engine.InStep
import WorkflowRules.Proofs.Rule.Index

/-!
# Restarts

When an engine has been in step with its database all along, another one on the same database, with
the same settings and with handlers for the same action types, gets the same definitions, rules and
instances. Nothing is lost, and nothing that was removed comes back.

The rules are listed in the same order, unless one of them was created again and has passed another
one of its trigger and priority. In the database it has kept its row, in front of that of the other.

* `Engine.Opened` — how an engine on a database begins
* `Engine.Succession` — a run of one engine and the start of the next
* `Succession.answers_kept` — what the next engine has
* `Succession.order_kept_iff` — in which order it has its rules
* `Engine.answers_lost` — what a restart undoes where the engine was not in step with its database
-/

namespace WorkflowRules.Engine

open Database (Fetchable Filed)

/-! ## Successions -/

/-- An engine on a database begins with nothing, or with what it has loaded. -/
inductive Opened : Engine → Database → Prop
  | new {e : Engine} {db : Database} (store : e.store = .database db)
      (definitions : db.definitions = .empty) (rules : db.rules = .empty)
      (registry : e.registry = .empty) (table : e.rules = .empty) : Opened e db
  | loaded {start e : Engine} {db : Database} (store : start.store = .database db)
      (filed : Filed db.rules) (loads : init start = (.ok (), e)) : Opened e db

/-- One of the commands registers a handler for an action type. -/
def Registers (commands : List Command) (type : String) : Prop :=
  ∃ handler, .registerAction type handler ∈ commands

/--
An engine on a database carries out commands. Then another engine is on the database that it leaves,
with the same settings and with handlers for the same action types.

On a database that cannot be written, no rule is enabled or disabled. No stored rule has been waiting
for an action type that is registered by one of the commands.
-/
structure Succession (e : Engine) (db : Database) (commands : List Command) (second : Engine) :
    Prop where
  opened : Opened e db
  decoded : ∀ c ∈ commands, c.Decoded
  switches : db.writable = true ∨ ∀ name enabled, .setEnabled name enabled ∉ commands
  ready : Ready (Registers commands) e db
  config : second.config = (e.runAll commands).config
  store : second.store = (e.runAll commands).store
  handlers : ∀ type, hasHandler second type = hasHandler (e.runAll commands) type

/-- Two engines answer alike what they are asked about definitions, rules and instances. -/
structure SameAnswers (e e' : Engine) : Prop where
  lookup : ∀ name, (lookup name e').1 = (lookup name e).1
  getRule : ∀ name, getRule? e' name = getRule? e name
  getInstance : ∀ workflow entityId,
    (getInstance workflow entityId e').1 = (getInstance workflow entityId e).1
  getHistory : ∀ workflow entityId,
    (getHistory workflow entityId e').1 = (getHistory workflow entityId e).1

variable {later : String → Prop} {e second : Engine} {db : Database} {commands : List Command}

/-- An engine that has just been opened is in step with its database, the order of its rules included. -/
theorem Opened.inStep (h : Opened e db) (ready : Ready later e db) :
    ∃ rules, InStep later db.writable e db rules ∧ InOrder e db rules := by
  cases h with
  | new store definitions rules registry table =>
    have hloadable : db.loadable (hasHandler e) = [] := by
      rw [Database.loadable, rules]
      rfl
    refine ⟨[], ?_, (inOrder_iff hloadable).2 fun _ _ => rfl⟩
    constructor
    · exact store
    · rfl
    · exact definitions ▸ Database.fetchable_empty
    · exact rules ▸ Database.fetchable_empty
    · exact rules ▸ Database.filed_empty
    · exact ready
    · intro name d
      rw [registry, Database.Defines, definitions]
      simp
    · exact table ▸ RuleTable.represents_empty
    · rw [hloadable]
  | @loaded start _ _ store filed loads =>
    -- that it has loaded at all shows that every row can be fetched
    obtain ⟨definitions, rows⟩ := fetchable_of_init store loads
    have hstart : (init start).2 = e := by rw [loads]
    have hready : Ready (fun _ => False) start db := fun _ _ _ _ _ _ hlater => hlater.elim
    obtain ⟨h, order⟩ := InStep.init store rfl definitions rows filed hready
    rw [hstart] at h order
    exact ⟨_, ⟨h.store, h.writable, h.definitions, h.rows, h.filed, ready, h.registry, h.represents,
      h.loaded⟩, order⟩

namespace Succession

variable (h : Succession e db commands second)

include h

theorem suits : ∀ c ∈ commands, c.Suits (Registers commands) db.writable := by
  refine fun c hc => ⟨h.decoded c hc, ?_, ?_⟩
  · rintro name enabled rfl
    exact h.switches.resolve_right fun hnone => hnone name enabled hc
  · rintro type handler rfl
    exact ⟨handler, hc⟩

/-- Both engines are in step with the database, and the rules of the second one stand as their rows do. -/
theorem inStep :
    ∃ db' rules third, init second = (.ok (), third) ∧
      third.config = (e.runAll commands).config ∧
      InStep (Registers commands) db.writable (e.runAll commands) db' rules ∧
      InStep (Registers commands) db.writable third db'
        (db'.loadable (hasHandler (e.runAll commands))) ∧
      (Calm e commands.dropLast → (InOrder (e.runAll commands) db' rules ↔ Calm e commands)) := by
  obtain ⟨rules, hopened, order⟩ := h.opened.inStep h.ready
  obtain ⟨db', rules', hrun, hrunOrder⟩ := hopened.runAll order h.suits
  have store := h.store.trans hrun.store
  have handlers : hasHandler second = hasHandler (e.runAll commands) := funext h.handlers
  have ready : Ready (Registers commands) second db' := by
    unfold Ready
    rw [handlers]
    exact hrun.ready
  obtain ⟨hsecond, -⟩ :=
    InStep.init store hrun.writable hrun.definitions hrun.rows hrun.filed ready
  rw [handlers] at hsecond
  refine ⟨db', rules', (init second).2, ?_, ?_, hrun, hsecond, hrunOrder⟩
  · rw [init_database store hrun.definitions hrun.rows]
  · exact (config_init store hrun.definitions hrun.rows).trans h.config

/--
The next engine has what the one before it had: the same definitions under all names, the same rules,
enabled or not, and the same instances with the same histories.
-/
theorem answers_kept :
    ∃ third, init second = (.ok (), third) ∧ SameAnswers (e.runAll commands) third := by
  obtain ⟨db', rules, third, hinit, config, hfirst, hthird, -⟩ := h.inStep
  have hstore : third.store = (e.runAll commands).store := hthird.store.trans hfirst.store.symm
  refine ⟨third, hinit, ?_⟩
  constructor
  · intro name
    have hregistry : third.registry.get? name = (e.runAll commands).registry.get? name :=
      Option.ext fun d => by rw [hthird.registry, hfirst.registry, config]
    rw [lookup_apply, lookup_apply, hregistry]
  · intro name
    refine Option.ext fun r => ?_
    rw [getRule?, getRule?, hthird.represents.byName, hfirst.represents.byName,
      hfirst.loaded.mem_iff]
  · intro workflow entityId
    show third.store.get? _ = (e.runAll commands).store.get? _
    rw [hstore]
  · intro workflow entityId
    show third.store.history? _ = (e.runAll commands).store.history? _
    rw [hstore]

/--
The next engine lists the same rules. It lists and considers them in the same order as long as no
creation has moved a rule past another one; the first creation that does so changes the order.
-/
theorem order_kept_iff :
    ∃ third, init second = (.ok (), third) ∧
      (listRules third).Perm (listRules (e.runAll commands)) ∧
      (Calm e commands →
        listRules third = listRules (e.runAll commands) ∧
          ∀ trigger, third.rules.bucket trigger = (e.runAll commands).rules.bucket trigger) ∧
      (Calm e commands.dropLast →
        (listRules third = listRules (e.runAll commands) ↔ Calm e commands)) := by
  obtain ⟨db', rules, third, hinit, -, hfirst, hthird, order⟩ := h.inStep
  have hbuckets := hthird.represents.list_eq_iff hfirst.represents
  -- the lists tell the buckets, and the buckets tell the order that counts
  have hlist : listRules third = listRules (e.runAll commands) ↔
      InOrder (e.runAll commands) db' rules := by
    rw [InOrder, Rule.aligned_iff]
    refine hbuckets.trans (forall_congr' fun trigger => ?_)
    rw [hthird.represents.bucket, hfirst.represents.bucket, eq_comm]
  refine ⟨third, hinit, ?_, fun calm => ?_, fun calm => hlist.trans (order calm)⟩
  · exact hthird.represents.list_perm.trans
      (hfirst.loaded.symm.trans hfirst.represents.list_perm.symm)
  · have hsame := hlist.2 ((order (calm_dropLast calm)).2 calm)
    exact ⟨hsame, hbuckets.1 hsame⟩

end Succession

/-! ## A shop -/

/-- A new engine on a new database. -/
def shop : Engine := onStore {} (.database .empty) .counting

/-- A new engine on the database of another one, with its settings and its handlers. -/
def successor (e : Engine) : Engine :=
  { onStore e.config e.store e.clock with actions := e.actions }

/-- A new engine on a new database passes on what it has, whatever it was told. -/
theorem succession_shop {commands : List Command} (decoded : ∀ c ∈ commands, c.Decoded) :
    Succession shop .empty commands (successor (shop.runAll commands)) where
  opened := .new rfl rfl rfl rfl rfl
  decoded := decoded
  switches := .inl rfl
  ready _ h := by cases h
  config := rfl
  store := rfl
  handlers _ := rfl

/-- The workflow of orders. -/
def order : Definition :=
  (Definition.ofStates "order" "order" "open" ["open", "paid"]).addTransition
    { sources := ["open"], target := "paid", event := "pay" }

/-- A rule that writes its own name to the log. -/
def note (name : String) : Rule :=
  (Rule.onEvent name "e").addAction ⟨"log", [("message", .string name)]⟩

theorem decoded_order : (Command.define order).Decoded := by
  have exact := Definition.exact_plain order rfl
  exact ⟨⟨_, (Definition.kept_plain order rfl).ofText_print exact⟩, exact⟩

theorem plain_note (name : String) : (note name).Plain := by
  refine ⟨by simp [note, Rule.onEvent, Rule.addAction], rfl, fun a ha => ?_, rfl⟩
  obtain rfl := List.mem_singleton.1 ha
  refine ⟨List.pairwise_singleton _ _, fun field hfield => ?_⟩
  obtain rfl := List.mem_singleton.1 hfield
  exact ⟨name, rfl⟩

theorem decoded_note (name : String) : (Command.createRule (note name)).Decoded :=
  ⟨⟨_, (plain_note name).ofText_print⟩, (plain_note name).exact⟩

/-- The rule is accepted and stored. -/
theorem createRule_note {name : String} (db : Database) (table : RuleTable)
    (writable : db.writable = true) (accepted : (note name).problems (hasHandler shop) = []) :
    (createRule (note name) { shop with store := .database db, rules := table }).2 =
      { shop with
        store := .database (db.withRule (note name))
        rules := table.upsert (note name) } :=
  createRule_accepted rfl writable accepted

/-- Of two rules one is disabled. An order is paid, and then the other rule and the workflow are removed. -/
def trading : List Command :=
  [.createRule (note "first"), .createRule (note "second"), .setEnabled "first" false,
    .define order, .create "order" "7" (.string "tea") none, .fire "order" "7" "pay" .empty,
    .removeRule "second", .removeWorkflow "order"]

/-- All of the commands come from texts that can be read. -/
theorem succession_trading :
    Succession shop .empty trading (successor (shop.runAll trading)) := by
  refine succession_shop fun c hc => ?_
  simp only [trading, List.mem_cons, List.not_mem_nil, or_false] at hc
  rcases hc with rfl | rfl | rfl | rfl | rfl | rfl | rfl | rfl
  · exact decoded_note "first"
  · exact decoded_note "second"
  · trivial
  · exact decoded_order
  all_goals trivial

/-- No creation moves a rule past another one. -/
theorem calm_trading : Calm shop trading := by
  have hfirst : (createRule (note "first") shop).2 = _ := createRule_note .empty .empty rfl (by decide)
  have hsecond : ¬ Passes (createRule (note "first") shop).2 (note "second") := by
    rw [hfirst]
    refine not_passes_of_missing rfl ?_
    decide
  refine ⟨fun r h => ?_, fun r h => ?_, ?_⟩
  · cases h
    exact not_passes_of_missing rfl (by decide)
  · cases h
    exact hsecond
  · simp [Calm]

theorem answers_kept_trading :
    Succession shop .empty trading (successor (shop.runAll trading)) ∧
      ∃ third, init (successor (shop.runAll trading)) = (.ok (), third) ∧
        SameAnswers (shop.runAll trading) third :=
  ⟨succession_trading, Succession.answers_kept succession_trading⟩

theorem order_kept_iff_trading :
    Succession shop .empty trading (successor (shop.runAll trading)) ∧ Calm shop trading ∧
      ∃ third, init (successor (shop.runAll trading)) = (.ok (), third) ∧
        listRules third = listRules (shop.runAll trading) := by
  obtain ⟨third, hinit, -, hcalm, -⟩ := Succession.order_kept_iff succession_trading
  exact ⟨succession_trading, calm_trading, third, hinit, (hcalm calm_trading).1⟩

/-! ## A rule that is created again -/

/-- Two rules are created, and then the first one is created again. -/
def repeating : List Command :=
  [.createRule (note "first"), .createRule (note "second"), .createRule (note "first")]

theorem succession_repeating :
    Succession shop .empty repeating (successor (shop.runAll repeating)) := by
  refine succession_shop fun c hc => ?_
  simp only [repeating, List.mem_cons, List.not_mem_nil, or_false] at hc
  rcases hc with rfl | rfl | rfl <;> exact decoded_note _

/-- The database with both rules, after the first one was stored again. -/
def repeated : Database :=
  ((Database.empty.withRule (note "first")).withRule (note "second")).withRule (note "first")

/-- The rule that was created again stands last in the table and first in the database. -/
theorem runAll_repeating :
    shop.runAll repeating =
      { shop with
        store := .database repeated
        rules := ((RuleTable.empty.upsert (note "first")).upsert (note "second")).upsert
          (note "first") } := by
  have hfirst : (createRule (note "first") shop).2 = _ := createRule_note .empty .empty rfl (by decide)
  show (createRule (note "first") (createRule (note "second") (createRule (note "first") shop).2).2).2 = _
  rw [hfirst, createRule_note _ _ rfl (by decide), createRule_note _ _ rfl (by decide)]
  rfl

theorem entries_repeated :
    repeated.rules.entries =
      [("first", .text (note "first").toJson.print), ("second", .text (note "second").toJson.print)] :=
  rfl

/-- The rules are loaded in the order of their rows. -/
theorem loadable_repeated {known : String → Bool} (log : known "log" = true) :
    repeated.loadable known = [note "first", note "second"] := by
  have trigger : Text.isBlank "e" = false := by decide
  have condition : Condition.always.problems = [] := rfl
  have loaded (name : String) (named : Text.isBlank name = false) :
      Database.loaded? known (name, .text (note name).toJson.print) = some (note name) := by
    refine Database.loaded?_print (plain_note name).kept (plain_note name).exact ?_
    simp [Rule.problems, note, Rule.onEvent, Rule.addAction, named, log, trigger, condition]
  rw [Database.loadable, entries_repeated, List.filterMap_cons_some (loaded "first" (by decide)),
    List.filterMap_cons_some (loaded "second" (by decide))]
  rfl

/-- The rule that was created again comes last, and after a restart it comes first. -/
theorem order_lost :
    Succession shop .empty repeating (successor (shop.runAll repeating)) ∧
      (listRules (shop.runAll repeating)).map (·.name) = ["second", "first"] ∧
      ∃ third, init (successor (shop.runAll repeating)) = (.ok (), third) ∧
        (listRules third).map (·.name) = ["first", "second"] := by
  refine ⟨succession_repeating, ?_⟩
  rw [runAll_repeating]
  have fetchable : Fetchable repeated.rules := by
    intro row hrow
    rw [entries_repeated, List.mem_cons, List.mem_singleton] at hrow
    rcases hrow with rfl | rfl <;> exact ⟨_, rfl⟩
  refine ⟨by decide +kernel, _, init_database rfl Database.fetchable_empty fetchable, ?_⟩
  rw [listRules, connect_rules, loadedFrom, loadable_repeated (by decide)]
  decide +kernel

/-! ## A rule that comes back -/

/-- The rule, disabled. -/
def muted : Rule := { note "first" with enabled := false }

/-- The database with the rule. -/
def noted : Database := Database.empty.withRule (note "first")

theorem storable_note {known : String → Bool} (log : known "log" = true) :
    (note "first").Storable known := by
  refine (plain_note "first").storable (Rule.problems_eq_nil_iff.2 ?_)
  refine ⟨by decide, by decide, by simp [note, Rule.onEvent, Rule.addAction], fun a ha => ?_, rfl⟩
  obtain rfl := List.mem_singleton.1 ha
  exact log

theorem rule?_empty (known : String → Bool) (name : String) : Database.empty.rule? known name = none :=
  rfl

theorem filed_noted : Filed noted.rules := by
  have storable : (note "first").Storable (hasHandler shop) := storable_note (by decide)
  exact Database.filed_stored Database.filed_empty storable

/-- The database with the rule in a row of another name. -/
def archived : Database :=
  { Database.empty with
    rules := Keyed.empty.insert "archive" (.text (note "first").toJson.print) }

/-- The rule is known by its own name, wherever its row is filed. -/
theorem rule?_archived {known : String → Bool} (log : known "log" = true) (name : String) :
    archived.rule? known name = if "first" = name then some (note "first") else none := by
  have loaded : Database.loaded? known ("archive", .text (note "first").toJson.print) =
      some (note "first") :=
    Database.loaded?_eq_some.2
      ⟨Store.Cell.read?_eq_some.2 ⟨_, rfl, (plain_note "first").ofText_print⟩,
        (storable_note log).accepted⟩
  have hloadable : archived.loadable known = [note "first"] :=
    List.filterMap_cons_some loaded
  rw [Database.rule?, hloadable]
  exact RuleTable.byName_upsert .empty (note "first") name

theorem erase_archived {name : String} (h : "archive" ≠ name) :
    { archived with rules := archived.rules.erase name } = archived := by
  have missing : archived.rules.get? name = none :=
    (Keyed.get?_insert_of_ne .empty _ h.symm).trans (Keyed.get?_empty name)
  rw [Keyed.erase_of_missing missing]

/-- The next engine has the rule that its database has. -/
theorem restored {e : Engine} {db : Database} (store : e.store = .database db)
    (definitions : Database.Fetchable db.definitions) (rows : Database.Fetchable db.rules) :
    ∃ third, init (successor e) = (.ok (), third) ∧
      ∀ name, getRule? third name = db.rule? (hasHandler e) name := by
  have hstore : (successor e).store = .database db := store
  have loads := init_database hstore definitions rows
  exact ⟨_, loads, fun name => (getRule?_init hstore loads name :)⟩

/-- The database with the rule, once nothing can be written to it any more. -/
def frozen : Database := { noted with writable := false }

/-- A new engine on a database that can be loaded gets the rules of the database. -/
theorem exists_loaded (db : Database) (definitions : Database.Fetchable db.definitions)
    (rows : Database.Fetchable db.rules) :
    ∃ e, init { shop with store := .database db } = (.ok (), e) ∧ e.store = .database db ∧
      hasHandler e = hasHandler shop ∧ ∀ name, getRule? e name = db.rule? (hasHandler shop) name := by
  have loads : init { shop with store := .database db } = _ := init_database rfl definitions rows
  refine ⟨_, loads, ?_, ?_, fun name => (getRule?_init rfl loads name :)⟩ <;>
  · unfold connect
    rw [Operation.change_apply]
    split <;> rfl

/-- A rule that was loaded from a row of another name is removed, and the next engine has it again. -/
theorem removed_returns :
    ∃ e third, init { shop with store := .database archived } = (.ok (), e) ∧
      (removeRule "first" e).1 = .ok true ∧
      getRule? (e.runAll [.removeRule "first"]) "first" = none ∧
      init (successor (e.runAll [.removeRule "first"])) = (.ok (), third) ∧
      getRule? third "first" = some (note "first") := by
  have rows : Database.Fetchable archived.rules := Database.fetchable_empty.insert _ _
  have log : hasHandler shop "log" = true := by decide
  obtain ⟨e, loads, store, handlers, has⟩ := exists_loaded archived Database.fetchable_empty rows
  have held : getRule? e "first" = some (note "first") :=
    (has "first").trans ((rule?_archived log "first").trans (if_pos rfl))
  have hdelete := persist_database store (Database.deleteRule_apply rfl "first")
  have removed : e.runAll [.removeRule "first"] = { e with rules := e.rules.remove "first" } := by
    show (removeRule "first" e).2 = _
    rw [removeRule_state store rfl, erase_archived (by decide), ← store]
  obtain ⟨third, restarts, rules⟩ := restored (e := { e with rules := e.rules.remove "first" }) store
    Database.fetchable_empty rows
  rw [← removed] at restarts
  refine ⟨e, third, loads, ?_, ?_, restarts, ?_⟩
  · rw [removeRule, Operation.bind_ok _ hdelete]
    exact congrArg Except.ok (Keyed.contains_eq_true held)
  · rw [removed]
    exact (RuleTable.byName_remove _ "first" "first").trans (if_pos rfl)
  · have known : hasHandler { e with rules := e.rules.remove "first" } = hasHandler shop := handlers
    rw [rules, known]
    exact (rule?_archived log "first").trans (if_pos rfl)

/-- A rule that is disabled while nothing can be written is disabled until the next engine loads it. -/
theorem disabled_returns :
    ∃ e third, init { shop with store := .database frozen } = (.ok (), e) ∧
      getRule? (e.runAll [.setEnabled "first" false]) "first" = some muted ∧
      init (successor (e.runAll [.setEnabled "first" false])) = (.ok (), third) ∧
      getRule? third "first" = some (note "first") := by
  have rows : Database.Fetchable frozen.rules := Database.fetchable_empty.insert _ _
  have log : hasHandler shop "log" = true := by decide
  have stored : frozen.rule? (hasHandler shop) "first" = some (note "first") :=
    (Database.rule?_withRule Database.filed_empty (storable_note log) "first").trans (if_pos rfl)
  obtain ⟨e, loads, store, handlers, has⟩ := exists_loaded frozen Database.fetchable_empty rows
  have held : e.rules.byName.get? "first" = some (note "first") := (has "first").trans stored
  have switched : e.runAll [.setEnabled "first" false] =
      { e with rules := e.rules.setEnabled "first" false } := setEnabled_readonly store rfl held false
  obtain ⟨third, restarts, rules⟩ := restored (e := { e with rules := e.rules.setEnabled "first" false })
    store Database.fetchable_empty rows
  rw [← switched] at restarts
  refine ⟨e, third, loads, ?_, restarts, ?_⟩
  · rw [switched]
    show (e.rules.setEnabled "first" false).byName.get? "first" = some muted
    rw [RuleTable.setEnabled_found held]
    exact Keyed.get?_insert_self _ _ _
  · have known : hasHandler { e with rules := e.rules.setEnabled "first" false } = hasHandler shop :=
      handlers
    rw [rules, known]
    exact stored

/--
Not every engine passes on what it has: not one that has loaded a rule from a row of another name and
then removed it, and not one that has disabled a rule while nothing could be written.
-/
theorem answers_lost :
    (∃ e third, init { shop with store := .database archived } = (.ok (), e) ∧
      init (successor (e.runAll [.removeRule "first"])) = (.ok (), third) ∧
      ¬ SameAnswers (e.runAll [.removeRule "first"]) third) ∧
    ∃ e third, init { shop with store := .database frozen } = (.ok (), e) ∧
      init (successor (e.runAll [.setEnabled "first" false])) = (.ok (), third) ∧
      ¬ SameAnswers (e.runAll [.setEnabled "first" false]) third := by
  obtain ⟨e, third, loads, -, gone, restarts, back⟩ := removed_returns
  obtain ⟨e', third', loads', off, restarts', on⟩ := disabled_returns
  refine ⟨⟨e, third, loads, restarts, fun same => ?_⟩, e', third', loads', restarts', fun same => ?_⟩
  · cases back.symm.trans ((same.getRule "first").trans gone)
  · have disabled := on.symm.trans ((same.getRule "first").trans off)
    cases congrArg (Option.map (·.enabled)) disabled

end WorkflowRules.Engine
