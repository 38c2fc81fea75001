import WorkflowRules.Engine.Lifecycle
import WorkflowRules.Proofs.Engine.Evolution

/-!
# What callers ask of an engine

A run of an engine is a sequence of commands, each carried out to its end with all that it sets off,
whether or not it is refused.

* `Command.run`, `Engine.runAll` — a command and a sequence of commands
* `Engine.Spares` — what managing an engine in memory leaves alone
* `Command.run_effect` — all that a command can do to the instances of an engine in memory
-/

namespace WorkflowRules

open Operation (Keeps)
open StoredInstance (Evolves)

/-- What callers ask of an engine. The hooks that they register leave the store to the engine. -/
inductive Command where
  | define (d : Definition)
  | removeWorkflow (name : String)
  | create (workflow entityId : String) (data : Json) (actorId : Option String)
  | fire (workflow entityId event : String) (context : TransitionContext)
  | publish (name : String) (payload : Json) (trail : CascadeTrail)
  | process (event : DomainEvent)
  | onEvent (name : String) (payload : Json)
  | createRule (r : Rule)
  | setEnabled (name : String) (enabled : Bool)
  | removeRule (name : String)
  | registerGuard (name : String) (guard : Guard)
  | registerHook (name : String) (hook : Hook) (tame : hook.Tame)
  | registerAction (type : String) (handler : ActionHandler)
  | subscribe (id : String)
  | unsubscribe (id : String)
  | init
  | shutdown

/-- The engine after a command. -/
def Command.run (e : Engine) : Command → Engine
  | define d => (Engine.defineWorkflow d e).2
  | removeWorkflow name => (Engine.removeWorkflow name e).2
  | create workflow entityId data actorId => (Engine.createInstance workflow entityId data actorId e).2
  | fire workflow entityId event context => (Engine.fire workflow entityId event context e).2
  | publish name payload trail => (Engine.publishEvent name payload trail e).2
  | process event => (Engine.processEvent event e).2
  | onEvent name payload => (Engine.onEvent name payload e).2
  | createRule r => (Engine.createRule r e).2
  | setEnabled name enabled => (Engine.setEnabled name enabled e).2
  | removeRule name => (Engine.removeRule name e).2
  | registerGuard name guard => { e with guards := e.guards.insert name guard }
  | registerHook name hook _ => { e with hooks := e.hooks.insert name hook }
  | registerAction type handler => { e with actions := e.actions.insert type handler }
  | subscribe id => (Engine.subscribe id e).2
  | unsubscribe id => (Engine.unsubscribe id e).2
  | init => (Engine.init e).2
  | shutdown => (Engine.shutdown e).2

namespace Engine

variable {e e' : Engine}

/-- The engine after commands. -/
def runAll (e : Engine) (cs : List Command) : Engine := cs.foldl Command.run e

theorem runAll_append (e : Engine) (before after : List Command) :
    e.runAll (before ++ after) = (e.runAll before).runAll after :=
  List.foldl_append

/-! ## Management -/

/-- An orderly engine stays so, and its store is left alone. -/
def Spares (e e' : Engine) : Prop := e.Orderly → e'.Orderly ∧ e'.store = e.store

/-- Instances that are spared by each of two steps are spared by both. -/
theorem Spares.isPreorder : IsPreorder Engine Spares where
  refl _ h := ⟨h, rfl⟩
  trans a b c hab hbc h := by
    obtain ⟨hb, hstore⟩ := hab h
    obtain ⟨hc, hstore'⟩ := hbc hb
    exact ⟨hc, hstore'.trans hstore⟩

theorem Spares.of_same (store : e'.store = e.store) (registry : e'.registry = e.registry) :
    Spares e e' :=
  fun h => ⟨(orderly_congr store registry).2 h, store⟩

/-- A statement of management spares the instances, accepted or refused. -/
theorem persist_spares (x : Operation Database Unit) : Keeps Spares (persist x) := by
  intro e h
  obtain ⟨s, hs, -⟩ := h.store
  have hstore : (persist x e).2.store = e.store := by
    show (Store.persist x e.store).2 = e.store
    rw [hs]
    rfl
  exact Spares.of_same hstore rfl h

/-- A definition spares the instances, those of its own workflow included. -/
theorem defineWorkflow_spares (d : Definition) : Keeps Spares (defineWorkflow d) := by
  refine Keeps.bind Spares.isPreorder ?_ fun _ => Keeps.bind Spares.isPreorder (persist_spares _) ?_
  · refine Keeps.bind Spares.isPreorder (Keeps.view Spares.isPreorder _) fun strict => ?_
    cases d.problem? strict with
    | none => exact Keeps.pure Spares.isPreorder ()
    | some p => exact Keeps.fail Spares.isPreorder _
  · intro _ e h
    refine ⟨⟨h.store, fun name found hfound => ?_⟩, rfl⟩
    rcases Keyed.get?_insert_eq_some hfound with ⟨rfl, rfl⟩ | ⟨-, hfound⟩
    · rfl
    · exact h.registry name found hfound

/-- The instances of a workflow are spared when it is removed. -/
theorem removeWorkflow_spares (name : String) : Keeps Spares (removeWorkflow name) := by
  refine Keeps.bind Spares.isPreorder (persist_spares _) fun _ e h => ?_
  refine ⟨⟨h.store, fun other found hfound => ?_⟩, rfl⟩
  by_cases hother : other = name
  · subst hother
    cases (Keyed.get?_erase_self _ _).symm.trans hfound
  · exact h.registry other found ((Keyed.get?_erase_of_ne _ hother).symm.trans hfound)

theorem createRule_spares (r : Rule) : Keeps Spares (createRule r) := by
  refine Keeps.bind Spares.isPreorder ?_ fun _ => Keeps.bind Spares.isPreorder (persist_spares _) ?_
  · refine Keeps.bind Spares.isPreorder (Keeps.view Spares.isPreorder _) fun e => ?_
    dsimp only
    split
    · exact Keeps.pure Spares.isPreorder ()
    · exact Keeps.fail Spares.isPreorder _
  · exact fun _ e => Spares.of_same rfl rfl

theorem setEnabled_spares (name : String) (enabled : Bool) :
    Keeps Spares (setEnabled name enabled) := by
  refine Keeps.bind Spares.isPreorder (fun e => ?_) fun r =>
    Keeps.bind Spares.isPreorder (persist_spares _) fun _ => Keeps.pure Spares.isPreorder r
  unfold switchRule
  dsimp only
  split <;> exact Spares.of_same rfl rfl

theorem removeRule_spares (name : String) : Keeps Spares (removeRule name) :=
  Keeps.bind Spares.isPreorder (persist_spares _) fun _ _ => Spares.of_same rfl rfl

/-- An engine in memory has nothing to load. -/
theorem init_spares : Keeps Spares init := by
  intro e h
  obtain ⟨s, hs, -⟩ := h.store
  have hdefinitions : loadDefinitions e = (.ok (), e) := by
    unfold loadDefinitions
    rw [Operation.bind_apply, Operation.view_apply]
    simp only [id, hs]
    rfl
  have hrules : loadRules e = (.ok (), e) := by
    unfold loadRules
    rw [Operation.bind_apply, Operation.view_apply]
    simp only [id, hs]
    rfl
  have hinit : init e = connect e := by
    unfold init
    rw [Operation.bind_ok _ hdefinitions, Operation.bind_ok _ hrules]
  rw [hinit]
  unfold connect
  rw [Operation.change_apply]
  split
  · exact ⟨h, rfl⟩
  · exact Spares.of_same rfl rfl h

/-! ## Creations -/

/-- The time that the clock is going to show. -/
def nextTime (e : Engine) : Timestamp := e.clock.time e.clock.readings

/-- What is stored of an instance right after its creation. -/
def created (e : Engine) (d : Definition) (entityId : String) (data : Json)
    (actorId : Option String) : StoredInstance :=
  ⟨.create d entityId data e.nextTime,
    [(Instance.create d entityId data e.nextTime).creationEntry actorId]⟩

/-- A creation puts a new instance of the registered definition into the store, or nothing. -/
theorem createInstance_cases (h : e.Orderly) (workflow entityId : String) (data : Json)
    (actorId : Option String) :
    Spares e (createInstance workflow entityId data actorId e).2 ∨
      ∃ d, e.registry.get? workflow = some d ∧ d.name = workflow ∧
        e.stored? (workflow, entityId) = none ∧
        (createInstance workflow entityId data actorId e).2.Orderly ∧
        ∀ key, (createInstance workflow entityId data actorId e).2.stored? key =
          if key = (workflow, entityId) then some (e.created d entityId data actorId)
          else e.stored? key := by
  unfold createInstance
  cases hd : e.registry.get? workflow with
  | none =>
    have hlookup : lookup workflow e = (.error (.error (workflowNotFound workflow)), e) := by
      rw [lookup_apply, hd]
    rw [Operation.bind_error _ hlookup]
    exact .inl (Spares.isPreorder.refl e)
  | some d =>
    have hlookup : lookup workflow e = (.ok d, e) := by rw [lookup_apply, hd]
    have hnow : now e = (.ok e.nextTime, (now e).2) := rfl
    rw [Operation.bind_ok _ hlookup, Operation.bind_ok _ hnow]
    obtain rfl : d.name = workflow := h.registry workflow d hd
    obtain ⟨s, hs, hf⟩ := h.store
    have hcreate : (onStoreOf (Store.create d entityId data actorId e.nextTime) (now e).2).2.store =
        .memory (MemoryStore.create d entityId data actorId e.nextTime s).2 := by
      show (Store.create d entityId data actorId e.nextTime e.store).2 = _
      rw [hs]
      rfl
    have hstored (key : InstanceKey) : e.stored? key = s.instances.get? key := by
      rw [stored?, hs]
      rfl
    -- a key that is taken is refused by the store, and nothing but the clock has moved on
    cases hm : s.instances.get? (d.name, entityId) with
    | some other =>
      rw [MemoryStore.create_taken hm] at hcreate
      exact .inl (Spares.of_same (hcreate.trans hs.symm) rfl)
    | none =>
      rw [MemoryStore.create_new hm] at hcreate
      have hkey : (e.created d entityId data actorId).current.key = (d.name, entityId) := rfl
      refine .inr ⟨d, rfl, rfl, (hstored _).trans hm, ⟨⟨_, hcreate, ?_⟩, h.registry⟩, ?_⟩
      · exact (Store.wrote_memory hf hkey).formed
      · intro key
        rw [stored?, hcreate, hstored]
        exact Keyed.get?_insert _ _ _ _

end Engine

/-! ## The effect of a command -/

namespace Command

/-- What a command does to the instances of an orderly engine. -/
inductive Effect (e e' : Engine) : Command → Prop
  /-- It leaves all of them alone. -/
  | spared {c : Command} (store : e'.store = e.store) : Effect e e' c
  /-- It changes some of them as the registry permits, which it leaves alone. -/
  | steady {c : Command} (steady : Engine.Steady e e') : Effect e e' c
  /-- It creates one. -/
  | created {workflow entityId : String} {data : Json} {actorId : Option String} {d : Definition}
      (registered : e.registry.get? workflow = some d) (name : d.name = workflow)
      (missing : e.stored? (workflow, entityId) = none)
      (stored : ∀ key, e'.stored? key =
        if key = (workflow, entityId) then some (e.created d entityId data actorId)
        else e.stored? key) :
      Effect e e' (.create workflow entityId data actorId)

variable {e : Engine}

/-- A command keeps an engine orderly, and has one of three effects on its instances. -/
theorem run_effect (h : e.Orderly) (c : Command) : (c.run e).Orderly ∧ Effect e (c.run e) c := by
  have spared {e' : Engine} (hs : Engine.Spares e e') : e'.Orderly ∧ Effect e e' c :=
    ⟨(hs h).1, .spared (hs h).2⟩
  have steady {e' : Engine} (hs : Engine.Steady e e') : e'.Orderly ∧ Effect e e' c :=
    ⟨hs.orderly.2 h, .steady hs⟩
  -- management spares the instances, and whatever fires or publishes keeps them steady
  cases c with
  | define d => exact spared (Engine.defineWorkflow_spares d e)
  | removeWorkflow name => exact spared (Engine.removeWorkflow_spares name e)
  | create workflow entityId data actorId =>
    rcases Engine.createInstance_cases h workflow entityId data actorId with
      hs | ⟨d, registered, name, missing, orderly, stored⟩
    · exact spared hs
    · exact ⟨orderly, .created registered name missing stored⟩
  | fire workflow entityId event context =>
    exact steady (Engine.fire_steady workflow entityId event context e)
  | publish name payload trail => exact steady (Engine.publishEvent_steady name payload trail e)
  | process event => exact steady (Engine.processEvent_steady event e)
  | onEvent name payload => exact steady (Engine.onEvent_steady name payload e)
  | createRule r => exact spared (Engine.createRule_spares r e)
  | setEnabled name enabled => exact spared (Engine.setEnabled_spares name enabled e)
  | removeRule name => exact spared (Engine.removeRule_spares name e)
  | registerGuard name guard => exact spared (.of_same rfl rfl)
  | registerHook name hook tame => exact spared (.of_same rfl rfl)
  | registerAction type handler => exact spared (.of_same rfl rfl)
  | subscribe id => exact spared (.of_same rfl rfl)
  | unsubscribe id => exact spared (.of_same rfl rfl)
  | init => exact spared (Engine.init_spares e)
  | shutdown => exact spared (.of_same rfl rfl)

end Command

end WorkflowRules
