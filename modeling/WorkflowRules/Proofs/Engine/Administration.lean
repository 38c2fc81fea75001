import WorkflowRules.Proofs.Engine.Commands

/-!
# What administering an engine leaves alone

Definitions, rules, handlers and subscribers are administered by commands that have nothing to do with
instances. On either store they leave all instances and histories as they are; they run no hook and put
nothing on the trace.

* `Store.SameInstances` — two stores have the same instances and histories
* `Engine.Administered` — what administration leaves alone
* `Command.administered` — the commands that administer an engine
-/

namespace WorkflowRules

open Operation (Keeps)

/-- Two stores have the same instances and histories. -/
inductive Store.SameInstances : Store → Store → Prop
  | memory (s : MemoryStore) : SameInstances (.memory s) (.memory s)
  | database {db db' : Database} (instances : db'.instances = db.instances)
      (history : db'.history = db.history) : SameInstances (.database db) (.database db')

theorem Store.SameInstances.rfl {s : Store} : SameInstances s s := by
  cases s with
  | memory s => exact .memory s
  | database db => exact .database (.refl _) (.refl _)

/-- Instances that stay the same in two steps stay the same. -/
theorem Store.SameInstances.trans {a b c : Store} (hab : SameInstances a b)
    (hbc : SameInstances b c) : SameInstances a c := by
  cases hab with
  | memory s => exact hbc
  | database instances history =>
    cases hbc with
    | database instances' history' =>
      exact .database (instances'.trans instances) (history'.trans history)

/-- A statement that changes other tables leaves instances and histories alone. -/
theorem Database.write_sameInstances (f : Database → Database)
    (h : ∀ db, (f db).instances = db.instances ∧ (f db).history = db.history) (s : Store) :
    s.SameInstances (Store.persist (write (.change f)) s).2 := by
  cases s with
  | memory s => exact .memory s
  | database db =>
    show Store.SameInstances _ (.database (write (.change f) db).2)
    unfold write
    split
    · exact .database (h db).1 (h db).2
    · exact .rfl

namespace Engine

variable {e e' : Engine}

/-- Whatever happened had nothing to do with instances, hooks and the trace. -/
structure Administered (e e' : Engine) : Prop where
  config : e'.config = e.config
  hooks : e'.hooks = e.hooks
  trace : e'.trace = e.trace
  instances : e.store.SameInstances e'.store

/-- Management comes in any number of steps. -/
theorem Administered.isPreorder : IsPreorder Engine Administered where
  refl _ := ⟨rfl, rfl, rfl, .rfl⟩
  trans _ _ _ hab hbc :=
    ⟨hbc.config.trans hab.config, hbc.hooks.trans hab.hooks, hbc.trace.trans hab.trace,
      hab.instances.trans hbc.instances⟩

theorem Administered.of_same (config : e'.config = e.config) (hooks : e'.hooks = e.hooks)
    (trace : e'.trace = e.trace) (store : e'.store = e.store) : Administered e e' :=
  ⟨config, hooks, trace, store ▸ .rfl⟩

/-- A statement that writes a definition or a rule. -/
theorem persist_administered (f : Database → Database)
    (h : ∀ db, (f db).instances = db.instances ∧ (f db).history = db.history) :
    Keeps Administered (persist (Database.write (.change f))) :=
  fun e => ⟨rfl, rfl, rfl, Database.write_sameInstances f h e.store⟩

/-- A definition, accepted or refused, touches no instance. -/
theorem defineWorkflow_administered (d : Definition) : Keeps Administered (defineWorkflow d) := by
  have hR := Administered.isPreorder
  refine Keeps.bind hR (fun e => ?_) fun _ =>
    Keeps.bind hR (persist_administered _ fun _ => ⟨rfl, rfl⟩) fun _ _ => .of_same rfl rfl rfl rfl
  unfold checkDefinition
  rw [Operation.bind_apply, Operation.view_apply]
  dsimp only
  cases d.problem? e.config.strictTransitions <;> exact hR.refl e

theorem removeWorkflow_administered (name : String) :
    Keeps Administered (removeWorkflow name) :=
  Keeps.bind Administered.isPreorder (persist_administered _ fun _ => ⟨rfl, rfl⟩) fun _ _ =>
    .of_same rfl rfl rfl rfl

/-- A rule, accepted or refused, touches no instance. -/
theorem createRule_administered (r : Rule) : Keeps Administered (createRule r) := by
  have hR := Administered.isPreorder
  refine Keeps.bind hR ?_ fun _ =>
    Keeps.bind hR (persist_administered _ fun _ => ⟨rfl, rfl⟩) fun _ _ => .of_same rfl rfl rfl rfl
  refine Keeps.bind hR (Keeps.view hR _) fun e => ?_
  dsimp only
  split
  · exact Keeps.pure hR ()
  · exact Keeps.fail hR _

theorem setEnabled_administered (name : String) (enabled : Bool) :
    Keeps Administered (setEnabled name enabled) := by
  have hR := Administered.isPreorder
  refine Keeps.bind hR (fun e => ?_) fun r =>
    Keeps.bind hR (persist_administered _ fun _ => ⟨rfl, rfl⟩) fun _ => Keeps.pure hR r
  unfold switchRule
  dsimp only
  split <;> exact .of_same rfl rfl rfl rfl

theorem removeRule_administered (name : String) : Keeps Administered (removeRule name) :=
  Keeps.bind Administered.isPreorder (persist_administered _ fun _ => ⟨rfl, rfl⟩) fun _ _ =>
    .of_same rfl rfl rfl rfl

/-- Loading touches no instance. -/
theorem init_administered : Keeps Administered init := by
  have hR := Administered.isPreorder
  have hdefinitions : Keeps Administered loadDefinitions := by
    refine Keeps.bind hR (Keeps.view hR _) fun e => ?_
    cases e.store with
    | memory s => exact Keeps.pure hR ()
    | database db =>
      exact Keeps.bind hR (fun e => hR.refl e) fun _ _ => .of_same rfl rfl rfl rfl
  have hrules : Keeps Administered loadRules := by
    refine Keeps.bind hR (Keeps.view hR _) fun e => ?_
    cases e.store with
    | memory s => exact Keeps.pure hR ()
    | database db =>
      exact Keeps.bind hR (fun e => hR.refl e) fun _ _ => .of_same rfl rfl rfl rfl
  refine Keeps.bind hR hdefinitions fun _ => Keeps.bind hR hrules fun _ e => ?_
  unfold connect
  rw [Operation.change_apply]
  split
  · exact hR.refl e
  · exact .of_same rfl rfl rfl rfl

end Engine

namespace Command

/-- Whether a command administers an engine; the registration of a hook is not counted here. -/
def administers : Command → Bool
  | create .. | fire .. | publish .. | process .. | onEvent .. | registerHook .. => false
  | _ => true

/-- Commands of management touch no instance and put nothing on the trace. -/
theorem administered {c : Command} (h : c.administers = true) (e : Engine) :
    Engine.Administered e (c.run e) := by
  cases c with
  | define d => exact Engine.defineWorkflow_administered d e
  | removeWorkflow name => exact Engine.removeWorkflow_administered name e
  | createRule r => exact Engine.createRule_administered r e
  | setEnabled name enabled => exact Engine.setEnabled_administered name enabled e
  | removeRule name => exact Engine.removeRule_administered name e
  | registerGuard name guard => exact .of_same rfl rfl rfl rfl
  | registerAction type handler => exact .of_same rfl rfl rfl rfl
  | subscribe id => exact .of_same rfl rfl rfl rfl
  | unsubscribe id => exact .of_same rfl rfl rfl rfl
  | init => exact Engine.init_administered e
  | shutdown => exact .of_same rfl rfl rfl rfl
  | create | fire | publish | process | onEvent | registerHook => cases h

end Command

end WorkflowRules
