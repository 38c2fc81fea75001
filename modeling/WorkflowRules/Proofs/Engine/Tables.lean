import WorkflowRules.Engine.Lifecycle
import WorkflowRules.Proofs.Engine.Respected

/-!
# What works on instances leaves alone

Creations, transitions and whole cascades write rows of instances and of their histories. The tables
of definitions and rules, and whether the database is writable, are no concern of theirs.

* `Store.SameTables` — two stores have the same definitions and rules
* `Engine.SameTables.respected` — transitions and cascades keep it so
-/

namespace WorkflowRules

open Operation (Keeps)

/-- A statement that is undone when it fails still keeps what it keeps when it succeeds. -/
theorem Operation.Keeps.atomic {σ α : Type} {R : σ → σ → Prop} (hR : IsPreorder σ R)
    {x : Operation σ α} (hx : Keeps R x) : Keeps R (Operation.atomic x) := by
  intro s
  have h := hx s
  unfold Operation.atomic
  rcases hxs : x s with ⟨_ | a, s'⟩
  · exact hR.refl s
  · rwa [hxs] at h

namespace Database

/-- The tables of definitions and rules are the same, and so is what may be written. -/
structure SameTables (db db' : Database) : Prop where
  definitions : db'.definitions = db.definitions
  rules : db'.rules = db.rules
  writable : db'.writable = db.writable

/-- The tables that management writes stay the same over any number of steps. -/
theorem SameTables.isPreorder : IsPreorder Database SameTables where
  refl _ := ⟨rfl, rfl, rfl⟩
  trans _ _ _ hab hbc :=
    ⟨hbc.definitions.trans hab.definitions, hbc.rules.trans hab.rules,
      hbc.writable.trans hab.writable⟩

/-- Whether a statement is written or refused by a database that is not writable, the tables stay. -/
theorem write_sameTables {α : Type} {statement : Operation Database α}
    (h : Keeps SameTables statement) : Keeps SameTables (write statement) := by
  intro db
  unfold write
  split
  · exact h db
  · exact SameTables.isPreorder.refl db

theorem insertInstance_sameTables (key : InstanceKey) (row : InstanceRow) :
    Keeps SameTables (insertInstance key row) := by
  refine write_sameTables fun db => ?_
  split <;> exact ⟨rfl, rfl, rfl⟩

theorem insertHistory_sameTables (key : InstanceKey) (sequence : Int) (row : HistoryRow) :
    Keeps SameTables (insertHistory key sequence row) := by
  refine write_sameTables fun db => ?_
  split <;> exact ⟨rfl, rfl, rfl⟩

/-- An update that hits a row, and one that finds none of the expected version. -/
theorem updateInstance_sameTables (key : InstanceKey) (held : Int) (state : String) (version : Int)
    (updatedAt : String) : Keeps SameTables (updateInstance key held state version updatedAt) := by
  refine write_sameTables fun db => ?_
  split
  · split <;> exact ⟨rfl, rfl, rfl⟩
  · exact ⟨rfl, rfl, rfl⟩

/-- The creation of an instance writes to the two tables of instances only. -/
theorem create_sameTables (d : Definition) (entityId : String) (data : Json)
    (actorId : Option String) (now : Timestamp) :
    Keeps SameTables (create d entityId data actorId now) := by
  have hR := SameTables.isPreorder
  refine Keeps.atomic hR (Keeps.bind hR (insertInstance_sameTables _ _) fun inserted => ?_)
  cases inserted with
  | true => exact Keeps.bind hR (insertHistory_sameTables _ _ _) fun _ => Keeps.pure hR _
  | false => exact Keeps.fail hR _

/-- A commit writes to the two tables of instances only, be it granted or refused. -/
theorem commit_sameTables (held : Instance) (state : String) (entry : HistoryEntry) :
    Keeps SameTables (commit held state entry) := by
  have hR := SameTables.isPreorder
  have hmove : Keeps SameTables (move held state entry) := by
    refine Keeps.atomic hR (Keeps.bind hR (updateInstance_sameTables _ _ _ _ _) fun moved => ?_)
    cases moved with
    | true => exact Keeps.bind hR (insertHistory_sameTables _ _ _) fun _ => Keeps.pure hR _
    | false => exact Keeps.pure hR _
  refine Keeps.bind hR hmove fun moved => ?_
  cases moved with
  | true => exact Keeps.pure hR _
  | false =>
    refine Keeps.bind hR (fun db => hR.refl db) fun found => ?_
    cases found <;> exact Keeps.fail hR _

end Database

/-- A database stays one, with the same tables of definitions and rules. -/
def Store.SameTables (s s' : Store) : Prop :=
  ∀ db, s = .database db → ∃ db', s' = .database db' ∧ db.SameTables db'

theorem Store.SameTables.rfl {s : Store} : SameTables s s :=
  fun db h => ⟨db, h, Database.SameTables.isPreorder.refl db⟩

/--
In memory there are no tables to compare, and on a database they stay the same in two steps as in
one.
-/
theorem Store.SameTables.trans {a b c : Store} (hab : SameTables a b) (hbc : SameTables b c) :
    SameTables a c := by
  intro db h
  obtain ⟨db', h', same⟩ := hab db h
  obtain ⟨db'', h'', same'⟩ := hbc db' h'
  exact ⟨db'', h'', Database.SameTables.isPreorder.trans _ _ _ same same'⟩

/-- An operation of both stores keeps the tables if its statement on the database does. -/
theorem Store.sameTables_onEither {α : Type} (m : Operation MemoryStore α) {d : Operation Database α}
    (h : Keeps Database.SameTables d) (s : Store) : SameTables s (onEither m d s).2 := by
  rintro db rfl
  exact ⟨_, .refl _, h db⟩

namespace Engine

/-- The stores of two engines have the same tables of definitions and rules. -/
def SameTables (e e' : Engine) : Prop := e.store.SameTables e'.store

/-- No transition and no cascade touches the tables of definitions and rules. -/
theorem SameTables.respected : Respected SameTables where
  refl _ := Store.SameTables.rfl
  trans _ _ _ := Store.SameTables.trans
  observe _ _ _ := Store.SameTables.rfl
  now _ := Store.SameTables.rfl
  newIdentifier _ := Store.SameTables.rfl
  nextCall _ := Store.SameTables.rfl
  commit _ _ _ _ _ _ := Store.sameTables_onEither _ (Database.commit_sameTables _ _ _) _
  bypass {e e' name hook n seen state event} entry _ _ _ := by
    rcases commitDirectly_cases seen.subject state entry e' with same | same <;> rw [same]
    · exact Store.SameTables.rfl
    · exact Store.sameTables_onEither _ (Database.commit_sameTables _ _ _) _

/-- Nothing is changed but instances, the clock and the trace. -/
def Undisturbed (e e' : Engine) : Prop := SameSetup e e' ∧ SameTables e e'

/-- What is left alone by each of two runs is left alone by both. -/
theorem Undisturbed.isPreorder : IsPreorder Engine Undisturbed where
  refl e := ⟨SameSetup.respected.refl e, SameTables.respected.refl e⟩
  trans _ _ _ hab hbc := ⟨hab.1.trans hbc.1, Store.SameTables.trans hab.2 hbc.2⟩

/-- Neither setup nor tables are changed by the steps of a cascade. -/
theorem Undisturbed.respected : Respected Undisturbed where
  toIsPreorder := isPreorder
  observe o e h := ⟨SameSetup.respected.observe o e h, SameTables.respected.observe o e h⟩
  now e := ⟨SameSetup.respected.now e, SameTables.respected.now e⟩
  newIdentifier e := ⟨SameSetup.respected.newIdentifier e, SameTables.respected.newIdentifier e⟩
  nextCall e := ⟨SameSetup.respected.nextCall e, SameTables.respected.nextCall e⟩
  commit context free hd hi ht h :=
    ⟨SameSetup.respected.commit context free hd hi ht h.1,
      SameTables.respected.commit context free hd hi ht h.2⟩
  bypass entry hh heff h :=
    ⟨SameSetup.respected.bypass entry hh heff h.1, SameTables.respected.bypass entry hh heff h.2⟩

theorem published_undisturbed (x : DomainEvent) (e : Engine) :
    Undisturbed e (observe (.published x) e).2 :=
  ⟨observe_setup _ e, Store.SameTables.rfl⟩

theorem fire_undisturbed (workflow entityId event : String) (context : TransitionContext) :
    Keeps Undisturbed (fire workflow entityId event context) :=
  fire_keeps Undisturbed.respected published_undisturbed workflow entityId event context

theorem publishEvent_undisturbed (name : String) (payload : Json) (trail : CascadeTrail) :
    Keeps Undisturbed (publishEvent name payload trail) :=
  publishEvent_keeps Undisturbed.respected published_undisturbed name payload trail

theorem processEvent_undisturbed (x : DomainEvent) : Keeps Undisturbed (processEvent x) :=
  processEvent_keeps Undisturbed.respected published_undisturbed x

theorem onEvent_undisturbed (name : String) (payload : Json) :
    Keeps Undisturbed (onEvent name payload) :=
  onEvent_keeps Undisturbed.respected published_undisturbed name payload

/-- The creation of an instance changes the store alone, and of it only instances and histories. -/
theorem createInstance_undisturbed (workflow entityId : String) (data : Json)
    (actorId : Option String) : Keeps Undisturbed (createInstance workflow entityId data actorId) := by
  refine Keeps.bind Undisturbed.isPreorder (fun e => ?_) fun d =>
    Keeps.bind Undisturbed.isPreorder Undisturbed.respected.now fun time e => ?_
  · rw [lookup_apply]
    exact Undisturbed.isPreorder.refl e
  · refine ⟨by constructor <;> rfl, ?_⟩
    exact Store.sameTables_onEither _ (Database.create_sameTables _ _ _ _ _) _

end Engine

end WorkflowRules
