import WorkflowRules.Proofs.Cascade.Sample
import WorkflowRules.Proofs.Engine.Found

/-!
# The names under which definitions are registered

A definition is registered under its own name when it is defined, and under the name of its row when it
is loaded. The two differ where a row holds a definition of another name, and then they stay different
until the workflow is defined or removed. An instance that is created for such a workflow has its row
under the name of the definition, and is not found under the name that it was created for.

* `Database.Misfiled` — a row that holds a definition of another name
* `Engine.manageAll`, `Engine.Renews` — management operations after each other, and whether one of them
  has defined or removed a workflow
* `Engine.Attends` — what is answered about an instance after its creation
* `Engine.registered_apart_iff` — which definitions are registered under another name, and what it does
* `Engine.created_and_missing` — an instance that is missing right after its creation
-/

namespace WorkflowRules

open Operation (Keeps)

/-- The row of a name holds a definition of another name, and will be loaded. -/
structure Database.Misfiled (db : Database) (strict : Bool) (name : String) (d : Definition) :
    Prop where
  fetchable : Fetchable db.definitions
  defines : db.Defines strict name d
  differs : d.name ≠ name

/-- The operation defines or removes the workflow of a name. -/
def Management.Concerns (name : String) : Management → Prop
  | .define d => d.name = name
  | .removeWorkflow removed => removed = name
  | _ => False

namespace Engine

/-- The engine after management operations, each of which may meet a fault of the database. -/
def manageAll (e : Engine) (ms : List (Option AutomationError × Management)) : Engine :=
  ms.foldl (fun e m => (m.2.carryOut m.1 e).2) e

/-- One of the operations defines or removes the workflow of a name, and succeeds. -/
def Renews (name : String) : Engine → List (Option AutomationError × Management) → Prop
  | _, [] => False
  | e, m :: rest =>
    (m.2.Concerns name ∧ (m.2.carryOut m.1 e).1.isOk = true) ∨
      Renews name (m.2.carryOut m.1 e).2 rest

/-- A definition is registered under another name than its own. -/
def Apart (e : Engine) (name : String) (d : Definition) : Prop :=
  e.registry.get? name = some d ∧ d.name ≠ name

variable {e e' : Engine} {db : Database} {name : String} {d : Definition}

/-! ## Management -/

/-- What a management operation does to the registration of a name. -/
structure Manages (m : Management) (name : String) (e : Engine) (r : Except Failure Bool × Engine) :
    Prop where
  store : r.2.store.inMemory = e.store.inMemory
  kept : ¬ (m.Concerns name ∧ r.1.isOk = true) → r.2.registry.get? name = e.registry.get? name
  renewed : m.Concerns name → r.1.isOk = true → ∀ d, r.2.registry.get? name = some d → d.name = name

namespace Manages

variable {m : Management}

theorem refused {e' : Engine} {failure : Failure} (store : e'.store.inMemory = e.store.inMemory)
    (registry : e'.registry = e.registry) : Manages m name e (.error failure, e') where
  store := store
  kept _ := by rw [registry]
  renewed _ ok := by cases ok

/-- An operation that does not concern the workflow. -/
theorem elsewhere {r : Except Failure Bool × Engine} (other : ¬ m.Concerns name)
    (store : r.2.store.inMemory = e.store.inMemory) (registry : r.2.registry = e.registry) :
    Manages m name e r where
  store := store
  kept _ := by rw [registry]
  renewed concerns := absurd concerns other

theorem of_same {s : Engine} {r : Except Failure Bool × Engine} (h : Manages m name s r)
    (store : s.store = e.store) (registry : s.registry = e.registry) : Manages m name e r where
  store := store ▸ h.store
  kept other := registry ▸ h.kept other
  renewed := h.renewed

/-- A statement on the database is refused, or the operation goes on after it. -/
theorem persist {x : Operation Database Unit} {f : Unit → Operation Engine Bool}
    (after : ∀ store, store.inMemory = e.store.inMemory → Manages m name e (f () { e with store })) :
    Manages m name e ((Engine.persist x >>= f) e) := by
  have hstore : (Store.persist x e.store).2.inMemory = e.store.inMemory :=
    Store.onEither_inMemory _ _ _
  have hpersist : Engine.persist x e =
      ((Store.persist x e.store).1, { e with store := (Store.persist x e.store).2 }) := rfl
  rw [Operation.bind_apply, hpersist]
  cases (Store.persist x e.store).1 with
  | error failure => exact refused hstore rfl
  | ok _ => exact after _ hstore

end Manages

/--
Whatever operation is carried out, and with whatever fault, the name has what the operation leaves
there.
-/
theorem carryOut_manages (fault : Option AutomationError) (m : Management) (name : String)
    (e : Engine) : Manages m name e (m.carryOut fault e) := by
  -- only two of the operations touch the registry, and they do so under one name
  cases m with
  | define d =>
    rw [Management.carryOut, Operation.bind_apply, checkDefinition_apply]
    cases d.problem? e.config.strictTransitions with
    | some p => exact .refused rfl rfl
    | none =>
      refine .persist fun store hstore => ?_
      refine ⟨hstore, fun other => Keyed.get?_insert_of_ne _ _ fun heq => other ⟨heq.symm, rfl⟩, ?_⟩
      rintro rfl - found hfound
      cases (Keyed.get?_insert_self _ _ _).symm.trans hfound
      rfl
  | removeWorkflow removed =>
    refine .persist fun store hstore => ?_
    refine ⟨hstore, fun other => Keyed.get?_erase_of_ne _ fun heq => other ⟨heq.symm, rfl⟩, ?_⟩
    rintro rfl - found hfound
    cases (Keyed.get?_erase_self _ _).symm.trans hfound
  | createRule r =>
    rw [Management.carryOut]
    by_cases accepted : r.problems (hasHandler e) = []
    · rw [Operation.bind_ok _ (checkRule_accepted accepted)]
      exact .persist fun store hstore => .elsewhere id hstore rfl
    · rw [Operation.bind_error _ (checkRule_refused accepted)]
      exact .refused rfl rfl
  | setEnabled rule enabled =>
    rw [Management.carryOut]
    cases hfound : e.rules.byName.get? rule with
    | none =>
      rw [Operation.bind_error _ (switchRule_missing hfound enabled)]
      exact .refused rfl rfl
    | some r =>
      rw [Operation.bind_ok _ (switchRule_found hfound enabled)]
      refine .of_same (s := { e with rules := e.rules.setEnabled rule enabled }) ?_ rfl rfl
      exact .persist fun store hstore => .elsewhere id hstore rfl
  | removeRule rule => exact .persist fun store hstore => .elsewhere id hstore rfl

/-- A registration under another name stays until the workflow is defined or removed. -/
theorem manageAll_apart_iff (ms : List (Option AutomationError × Management)) (e : Engine) :
    (manageAll e ms).Apart name d ↔ e.Apart name d ∧ ¬ Renews name e ms := by
  induction ms generalizing e with
  | nil => simp [manageAll, Renews]
  | cons m rest ih =>
    have step := carryOut_manages m.1 m.2 name e
    show (manageAll (m.2.carryOut m.1 e).2 rest).Apart name d ↔ _
    rw [ih, Renews, not_or, ← and_assoc]
    refine and_congr_left fun _ => ?_
    by_cases renewed : m.2.Concerns name ∧ (m.2.carryOut m.1 e).1.isOk = true
    · -- what is registered now has its own name
      refine iff_of_false ?_ fun h => h.2 renewed
      rintro ⟨hfound, differs⟩
      exact differs (step.renewed renewed.1 renewed.2 d hfound)
    · rw [Apart, Apart, step.kept renewed]
      exact (and_iff_left renewed).symm

theorem manageAll_inMemory (ms : List (Option AutomationError × Management)) (e : Engine) :
    (manageAll e ms).store.inMemory = e.store.inMemory := by
  induction ms generalizing e with
  | nil => rfl
  | cons m rest ih => exact (ih _).trans (carryOut_manages m.1 m.2 "" e).store

/-! ## Loading -/

/-- The registry and the store are the same. -/
def SameRegistry (e e' : Engine) : Prop := e'.registry = e.registry ∧ e'.store = e.store

theorem SameRegistry.isPreorder : IsPreorder Engine SameRegistry where
  refl _ := ⟨rfl, rfl⟩
  trans _ _ _ hab hbc := ⟨hbc.1.trans hab.1, hbc.2.trans hab.2⟩

/-- To load rules leaves the registry alone. -/
theorem loadRules_sameRegistry : Keeps SameRegistry loadRules := by
  intro e
  cases hstore : e.store with
  | memory s =>
    rw [loadRules, Operation.bind_apply, Operation.view_apply]
    simp only [id, hstore]
    exact SameRegistry.isPreorder.refl e
  | database db =>
    rw [loadRules_database hstore, Operation.bind_apply, Operation.viewExcept_apply]
    cases db.loadRules with
    | error f => exact SameRegistry.isPreorder.refl e
    | ok stored => exact ⟨rfl, rfl⟩

theorem connect_sameRegistry : Keeps SameRegistry connect := by
  intro e
  unfold connect
  rw [Operation.change_apply]
  split <;> exact ⟨rfl, rfl⟩

/-- Loading registers what the rows hold, whatever becomes of the rules; or nothing can be fetched. -/
theorem init_registry (store : e.store = .database db) :
    (init e).2.store = .database db ∧
      ((Database.Fetchable db.definitions ∧
          (init e).2.registry = registryOf e.config.strictTransitions
            (Database.readRows Definition.reader db.definitions)) ∨
        ¬ Database.Fetchable db.definitions ∧ (init e).2.registry = e.registry) := by
  have hrest (s : Engine) : SameRegistry s ((do loadRules; connect : Operation Engine Unit) s).2 :=
    Keeps.bind SameRegistry.isPreorder loadRules_sameRegistry (fun _ => connect_sameRegistry) s
  have hload := loadDefinitions_database store
  rw [Operation.bind_apply, Operation.viewExcept_apply] at hload
  by_cases fetchable : Database.Fetchable db.definitions
  · rw [Database.loadDefinitions, Database.loadRows_eq _ fetchable] at hload
    have hinit := hrest { e with
      registry := registryOf e.config.strictTransitions
        (Database.readRows Definition.reader db.definitions) }
    rw [init, Operation.bind_ok _ hload]
    exact ⟨hinit.2.trans store, .inl ⟨fetchable, hinit.1⟩⟩
  · cases hstored : db.loadDefinitions with
    | ok stored => exact absurd (Database.fetchable_of_loadRows hstored) fetchable
    | error f =>
      rw [hstored] at hload
      rw [init, Operation.bind_error _ hload]
      exact ⟨store, .inr ⟨fetchable, rfl⟩⟩

/-- After loading, what is registered under another name was loaded so; if nothing could be fetched, it
was so before. -/
theorem init_apart_iff (store : e.store = .database db) :
    (init e).2.Apart name d ↔ db.Misfiled e.config.strictTransitions name d ∨
      ¬ Database.Fetchable db.definitions ∧ e.Apart name d := by
  obtain ⟨-, ⟨fetchable, hregistry⟩ | ⟨unreadable, hregistry⟩⟩ := init_registry store
  · rw [Apart, hregistry, Database.get?_registryOf]
    constructor
    · exact fun h => .inl ⟨fetchable, h.1, h.2⟩
    · rintro (h | ⟨unreadable, -⟩)
      · exact ⟨h.defines, h.differs⟩
      · exact absurd fetchable unreadable
  · rw [Apart, hregistry]
    constructor
    · exact fun h => .inr ⟨unreadable, h⟩
    · rintro (h | ⟨-, h⟩)
      · exact absurd h.fetchable unreadable
      · exact h

/-! ## Instances -/

/-- What is answered about an instance after it was created for a name. -/
structure Attends (e e' : Engine) (name entityId : String) (d : Definition) (i : Instance) :
    Prop where
  key : i.key = (d.name, entityId)
  found : d.name = name →
    (getInstance name entityId e').1 ≠ .ok none ∧
      (i.Legible → (getInstance name entityId e').1 = .ok (some i)) ∧
      ∀ event context what,
        (fire name entityId event context e').1 ≠ .error (.error (.notFound what))
  lost : d.name ≠ name →
    (getInstance name entityId e').1 = (getInstance name entityId e).1 ∧
      ((getInstance name entityId e).1 = .ok none → ∀ event context,
        (fire name entityId event context e').1 =
          .error (.error (.instanceNotFound (name, entityId))))

/-- A creation is attended to under the name that the definition has itself, and under no other one. -/
theorem createInstance_attends {entityId : String} {data : Json} {actorId : Option String}
    {i : Instance} (store : e.store = .database db) (registered : e.registry.get? name = some d)
    (h : createInstance name entityId data actorId e = (.ok i, e')) :
    Attends e e' name entityId d i := by
  obtain ⟨hkey, hmetadata, hregistry, db', store', hrows⟩ :=
    createInstance_database store registered h
  have registered' : e'.registry.get? name = some d := hregistry ▸ registered
  have hget : (getInstance name entityId e').1 = db'.get? (name, entityId) := by
    show e'.store.get? _ = _
    rw [store']
    rfl
  -- the row is filed under the name in the definition, and it is looked for under the registered one
  refine ⟨hkey, fun same => ?_, fun differs => ?_⟩
  · have hrow : db'.instances.get? (name, entityId) = some (Database.rowOfInstance i) := by
      rw [hrows, ← same, ← hkey, Keyed.get?_insert_self]
    refine ⟨?_, fun legible => ?_, fire_present store' registered' hrow⟩
    · rw [hget]
      exact Store.get?_ne_none hrow
    · have hread := Database.instanceOfRow_rowOfInstance legible hmetadata
      rw [hkey, same] at hread
      rw [hget, Database.get?, hrow]
      simp only [hread]
      rfl
  · have hne : (name, entityId) ≠ i.key := by
      rw [hkey]
      exact fun heq => differs (Prod.mk.inj heq).1.symm
    have hsame : (getInstance name entityId e').1 = (getInstance name entityId e).1 := by
      rw [hget]
      show _ = e.store.get? _
      rw [store, Database.get?, hrows, Keyed.get?_insert_of_ne _ _ hne]
      rfl
    refine ⟨hsame, fun missing event context => ?_⟩
    have hlookup : lookup name e' = (.ok d, e') := by rw [lookup_apply, registered']
    have hload : load (name, entityId) e' =
        (.error (.error (.instanceNotFound (name, entityId))), e') := by
      rw [load_apply, show e'.store.get? (name, entityId) = .ok none from hsame.trans missing]
    have hadvance : advance publish name entityId event context e' =
        (.error (.error (.instanceNotFound (name, entityId))), e') := by
      have free : reserve publish.held (name, entityId) e' = (.ok (), e') := rfl
      rw [advance, Operation.bind_ok _ hlookup, Operation.bind_ok _ free, Operation.bind_error _ hload]
    rw [fire_of_advance hadvance]

/-! ## What is registered -/

theorem lookup_eq_ok_iff : (lookup name e).1 = .ok d ↔ e.registry.get? name = some d := by
  rw [lookup_apply]
  cases e.registry.get? name <;> simp

/--
After loading any table, and after any management that follows, a definition is registered under
another name than its own exactly if it was loaded from a row of that name, and the workflow was not
defined or removed since. A loading that fails leaves what was registered before. An instance that is
created for a name is found under it, as far as its row can be read, and is not missing when an event is
fired on it, if the definition has the name itself. If it has another one, the instance is created under
that one, and is missing under the name that it was created for.
-/
theorem registered_apart_iff (store : e.store = .database db)
    (ms : List (Option AutomationError × Management)) :
    (∀ n d, ((lookup n (manageAll (init e).2 ms)).1 = .ok d ∧ d.name ≠ n) ↔
      (db.Misfiled e.config.strictTransitions n d ∨
        ¬ Database.Fetchable db.definitions ∧ e.Apart n d) ∧ ¬ Renews n (init e).2 ms) ∧
    ∀ n d, (lookup n (manageAll (init e).2 ms)).1 = .ok d →
      ∀ entityId data actorId i e',
        createInstance n entityId data actorId (manageAll (init e).2 ms) = (.ok i, e') →
          Attends (manageAll (init e).2 ms) e' n entityId d i := by
  constructor
  · intro n d
    rw [lookup_eq_ok_iff, ← init_apart_iff store]
    exact manageAll_apart_iff ms (init e).2
  · intro n d hlookup entityId data actorId i e' h
    have hmemory := manageAll_inMemory ms (init e).2
    rw [(init_registry store).1] at hmemory
    cases hstore : (manageAll (init e).2 ms).store with
    | memory m =>
      rw [hstore] at hmemory
      cases hmemory
    | database db' => exact createInstance_attends hstore (lookup_eq_ok_iff.1 hlookup) h

/-! ### A row with another name -/

/-- The workflow of orders. -/
def orders : Definition := .ofStates "orders" "order" "open" ["open"]

/-- A database whose only row has the name of another workflow. -/
def misfiled : Database :=
  { Database.empty with
    definitions := Keyed.empty.insert "returns" (.text orders.toJson.print) }

/-- An engine on the database. -/
def onMisfiled : Engine := onStore {} (.database misfiled) .counting

/-- The engine after it has loaded the row. -/
def misnaming : Engine := (init onMisfiled).2

/-- The definition of one workflow is filed under the name of another. -/
theorem misfiled_orders : misfiled.Misfiled false "returns" orders where
  fetchable := Database.fetchable_empty.insert _ _
  defines := by
    refine ⟨_, Keyed.get?_insert_self _ _ _, ?_, by decide⟩
    refine Store.Cell.read?_eq_some.2 ⟨_, rfl, ?_⟩
    exact (Definition.kept_plain orders rfl).ofText_print (Definition.exact_plain orders rfl)
  differs := by decide

theorem misnaming_store : misnaming.store = .database misfiled :=
  (init_registry (e := onMisfiled) rfl).1

theorem misnaming_apart : misnaming.Apart "returns" orders :=
  (init_apart_iff (e := onMisfiled) rfl).2 (.inl misfiled_orders)

/-- The definition stays under the name of its row when it is defined under its own as well. -/
theorem registered_apart_iff_misfiled :
    onMisfiled.store = .database misfiled ∧
      (lookup "returns" (manageAll misnaming [(none, .define orders)])).1 = .ok orders ∧
      ∃ i e', createInstance "returns" "r1" .null none
          (manageAll misnaming [(none, .define orders)]) = (.ok i, e') ∧
        Attends (manageAll misnaming [(none, .define orders)]) e' "returns" "r1" orders i := by
  obtain ⟨names, attends⟩ :=
    registered_apart_iff (e := onMisfiled) rfl [(none, .define orders)]
  have hrenews : ¬ Renews "returns" misnaming [(none, .define orders)] := by
    simp [Renews, Management.Concerns, orders, Definition.ofStates]
  have hlookup := ((names "returns" orders).2 ⟨.inl misfiled_orders, hrenews⟩).1
  have hdefined : (manageAll misnaming [(none, .define orders)]).store =
      .database (misfiled.withDefinition orders) := by
    have hconfig : misnaming.config = onMisfiled.config :=
      config_init rfl misfiled_orders.fetchable Database.fetchable_empty
    have accepted : orders.problem? misnaming.config.strictTransitions = none := by
      rw [hconfig]
      decide
    show (Management.carryOut none (.define orders) misnaming).2.store = _
    rw [Management.carryOut_none]
    show (do defineWorkflow orders; return true : Operation Engine Bool) misnaming |>.2.store = _
    rw [Operation.bind_pure_apply, defineWorkflow_accepted misnaming_store rfl accepted]
  obtain ⟨i, e', h⟩ := exists_createInstance hdefined (lookup_eq_ok_iff.1 hlookup) rfl "r1"
    rfl rfl .null none
  exact ⟨rfl, hlookup, i, e', h, attends _ _ hlookup _ _ _ i e' h⟩

/-- The creation succeeds, and right after it the instance is missing under the same name. -/
theorem created_and_missing :
    Reached misnaming ∧ (lookup "returns" misnaming).1 = .ok orders ∧ orders.name = "orders" ∧
      ∃ i e', createInstance "returns" "r1" .null none misnaming = (.ok i, e') ∧
        (getInstance "returns" "r1" e').1 = .ok none ∧
        ∀ event context, (fire "returns" "r1" event context e').1 =
          .error (.error (.instanceNotFound ("returns", "r1"))) := by
  have hregistered := misnaming_apart.1
  obtain ⟨i, e', h⟩ := exists_createInstance misnaming_store hregistered rfl "r1" rfl rfl .null none
  obtain ⟨hsame, hmissing⟩ :=
    (createInstance_attends misnaming_store hregistered h).lost misnaming_apart.2
  have hbefore : (getInstance "returns" "r1" misnaming).1 = .ok none := by
    show misnaming.store.get? ("returns", "r1") = .ok none
    rw [misnaming_store]
    rfl
  exact ⟨.command (.new rfl rfl) .init, lookup_eq_ok_iff.2 hregistered, rfl, i, e', h,
    hsame.trans hbefore, hmissing hbefore⟩

end Engine

end WorkflowRules
