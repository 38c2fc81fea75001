import WorkflowRules.Proofs.Engine.Untouched
import WorkflowRules.Proofs.Store.Retention

/-!
# Instances that have a row are found

A creation leaves a row in the database, under the name that the definition has. Rows are never taken
away by transitions and cascades. So nothing that is asked of an instance with a row is answered with
the remark that there is no such thing, under whatever name its definition is registered.

* `Operation.NeverMissing` — operations that never say that something is missing
* `Database.commit_present` — a commit to an instance with a row
* `Engine.PreservesRows` — what transitions and cascades do to the rows
* `Engine.fire_present` — firing an event on an instance with a row
* `Engine.createInstance_database` — the row that a creation leaves
-/

namespace WorkflowRules

open Operation (Keeps NeverRefused)

/-! ## Operations that never say that something is missing -/

/-- Some things may stand in the way of the operation, but nothing is missing. -/
def Operation.NeverMissing {σ α : Type} (x : Operation σ α) : Prop :=
  ∀ s what, (x s).1 ≠ .error (.error (.notFound what))

namespace Operation.NeverMissing

variable {σ α β : Type}

theorem pure (a : α) : NeverMissing (Pure.pure a : Operation σ α) := fun _ _ h => by cases h

theorem fail {reason : AutomationError} (h : ∀ what, reason ≠ .notFound what) :
    NeverMissing (Operation.fail reason : Operation σ α) := by
  intro s what heq
  cases heq
  exact h what rfl

theorem of_neverRefused {x : Operation σ α} (h : NeverRefused x) : NeverMissing x :=
  fun s _ => h s _

/-- A sequence says so only if one of its parts does. -/
theorem bind {x : Operation σ α} {f : α → Operation σ β} (hx : NeverMissing x)
    (hf : ∀ a, NeverMissing (f a)) : NeverMissing (x >>= f) := by
  intro s what heq
  rcases bind_eq_error (Prod.ext heq rfl) with h | ⟨a, s', -, h⟩
  · exact hx s what (congrArg Prod.fst h)
  · exact hf a s' what (congrArg Prod.fst h)

theorem atomic {x : Operation σ α} (hx : NeverMissing x) : NeverMissing (atomic x) := by
  intro s what heq
  unfold Operation.atomic at heq
  rcases hxs : x s with ⟨f | a, s'⟩
  · rw [hxs] at heq
    exact hx s what (by rw [hxs]; exact heq)
  · rw [hxs] at heq
    cases heq

theorem forEach {f : α → Operation σ Unit} (hf : ∀ a, NeverMissing (f a)) (as : List α) :
    NeverMissing (forEach f as) := by
  intro s what heq
  obtain ⟨a, -, s', h⟩ := forEach_eq_error (Prod.ext heq rfl)
  exact hf a s' what (congrArg Prod.fst h)

end Operation.NeverMissing

open Operation (NeverMissing)

/-! ## Rows -/

namespace Database

variable {db : Database}

theorem write_neverMissing {α : Type} {statement : Operation Database α}
    (h : NeverMissing statement) : NeverMissing (write statement) := by
  intro db what
  unfold write
  split
  · exact h db what
  · simp [refused]

/--
An update that hits no row says that the version is another one, and not that something is missing.
-/
theorem move_neverMissing (held : Instance) (state : String) (entry : HistoryEntry) :
    NeverMissing (move held state entry) := by
  have hupdate (text : String) :
      NeverMissing (updateInstance held.key held.version state (held.version + 1) text) := by
    refine write_neverMissing fun db what => ?_
    split
    · split <;> simp
    · simp
  have hinsert (row : HistoryRow) : NeverMissing (insertHistory held.key (held.version + 1) row) := by
    refine write_neverMissing fun db what => ?_
    split
    · simp [duplicateEntry, refused]
    · simp
  refine NeverMissing.atomic (NeverMissing.bind (hupdate _) fun moved => ?_)
  cases moved with
  | true => exact NeverMissing.bind (hinsert _) fun _ => NeverMissing.pure _
  | false => exact NeverMissing.pure _

/-- What a row holds may be unreadable, but it is not missing. -/
theorem instanceOfRow_ne_notFound (key : InstanceKey) (row : InstanceRow) (what : String) :
    instanceOfRow key row ≠ .error (.error (.notFound what)) := by
  have hfetch (c : Store.Cell) : fetch c ≠ .error (.error (.notFound what)) := by
    cases c <;> simp [fetch]
  have hdecode {α : Type} (r : Json.Reader α) (shape : Json.Shape) (text : String) :
      decode r shape text ≠ .error (.error (.notFound what)) := by
    unfold decode
    split <;> simp
  have htime (text : String) : decodeTimestamp text ≠ .error (.error (.notFound what)) := by
    unfold decodeTimestamp
    split <;> simp
  intro h
  rcases error_of_bind h with h | ⟨data, -, h⟩
  · exact hfetch _ h
  rcases error_of_bind h with h | ⟨metadata, -, h⟩
  · exact hfetch _ h
  rcases error_of_bind h with h | ⟨json, -, h⟩
  · exact hdecode _ _ _ h
  rcases error_of_bind h with h | ⟨fields, -, h⟩
  · exact hdecode _ _ _ h
  rcases error_of_bind h with h | ⟨created, -, h⟩
  · exact htime _ h
  rcases error_of_bind h with h | ⟨updated, -, h⟩
  · exact htime _ h
  cases h

/-- A row that is not there is an answer, and not a refusal. -/
theorem get?_ne_notFound (db : Database) (key : InstanceKey) (what : String) :
    db.get? key ≠ .error (.error (.notFound what)) := by
  intro h
  unfold get? at h
  cases hrow : db.instances.get? key with
  | none =>
    rw [hrow] at h
    cases h
  | some row =>
    rw [hrow] at h
    rcases error_of_bind h with h | ⟨i, -, h⟩
    · exact instanceOfRow_ne_notFound key row what h
    · cases h

/-- A commit to an instance with a row may be refused, but not because there is no such instance. -/
theorem commit_present {held : Instance} {row : InstanceRow}
    (hrow : db.instances.get? held.key = some row) (state : String) (entry : HistoryEntry)
    (what : String) : (commit held state entry db).1 ≠ .error (.error (.notFound what)) := by
  intro h
  rcases move_ends held state entry db with ⟨f, hmove⟩ | hmove | ⟨_, -, -, -, hmove⟩
  · rw [commit, Operation.bind_error _ hmove] at h
    refine move_neverMissing held state entry db what ?_
    rw [hmove]
    exact congrArg Except.error (Except.error.inj h)
  · rw [commit_of_not_moved hmove] at h
    rcases hget : db.get? held.key with f | (_ | i)
    · rw [hget] at h
      exact get?_ne_notFound db held.key what (hget.trans (congrArg Except.error (Except.error.inj h)))
    · exact Store.get?_ne_none hrow hget
    · rw [hget] at h
      cases h
  · rw [commit, Operation.bind_ok _ hmove] at h
    cases h

/-- Every instance with a row in the one database has one in the other. -/
def PreservesRows (db db' : Database) : Prop :=
  ∀ key, (db.instances.get? key).isSome = true → (db'.instances.get? key).isSome = true

/-- A commit changes rows and removes none. -/
theorem commit_preservesRows (held : Instance) (state : String) (entry : HistoryEntry) :
    Keeps PreservesRows (commit held state entry) := by
  intro db key hkey
  rw [commit_state]
  rcases move_cases held state entry db with hsame | ⟨row, -, -, -, hnext⟩
  · rwa [hsame]
  · rw [hnext]
    by_cases heq : key = held.key
    · subst heq
      exact Option.isSome_iff_exists.2 ⟨_, Keyed.get?_insert_self _ _ _⟩
    · rwa [withRows, Keyed.get?_insert_of_ne _ _ heq]

end Database

/-- A database stays one, and keeps its rows of instances. -/
def Store.PreservesRows (s s' : Store) : Prop :=
  ∀ db, s = .database db → ∃ db', s' = .database db' ∧ db.PreservesRows db'

theorem Store.PreservesRows.rfl {s : Store} : s.PreservesRows s :=
  fun db h => ⟨db, h, fun _ => id⟩

theorem Store.PreservesRows.trans {a b c : Store} (hab : a.PreservesRows b)
    (hbc : b.PreservesRows c) : a.PreservesRows c := by
  intro db h
  obtain ⟨db', h', first⟩ := hab db h
  obtain ⟨db'', h'', second⟩ := hbc db' h'
  exact ⟨db'', h'', fun key hkey => second key (first key hkey)⟩

theorem Store.commit_preservesRows (held : Instance) (state : String) (entry : HistoryEntry)
    (s : Store) : s.PreservesRows (commit held state entry s).2 := by
  rintro db rfl
  exact ⟨_, .refl _, Database.commit_preservesRows held state entry db⟩

namespace Engine

/-- The store of an engine keeps the rows of the instances. -/
def PreservesRows (e e' : Engine) : Prop := e.store.PreservesRows e'.store

/-- No transition and no cascade removes the row of an instance. -/
theorem PreservesRows.respected : Respected PreservesRows where
  refl _ := Store.PreservesRows.rfl
  trans _ _ _ := Store.PreservesRows.trans
  observe _ _ _ := Store.PreservesRows.rfl
  now _ := Store.PreservesRows.rfl
  newIdentifier _ := Store.PreservesRows.rfl
  nextCall _ := Store.PreservesRows.rfl
  commit _ _ _ _ _ _ := Store.commit_preservesRows _ _ _ _
  bypass {e e' name hook n seen state event} entry _ _ _ := by
    rcases commitDirectly_cases seen.subject state entry e' with same | same <;> rw [same]
    · exact Store.PreservesRows.rfl
    · exact Store.commit_preservesRows _ _ _ _

theorem publish_preservesRows : publish.Respects [] PreservesRows :=
  publish_respects PreservesRows.respected fun _ _ => Store.PreservesRows.rfl

/-! ## Firing an event -/

/-- A guard that is not registered is an error of the definition. -/
theorem checkGuards_neverMissing (seen : HookContext) (names : List String) :
    NeverMissing (checkGuards seen names) := by
  refine NeverMissing.forEach (fun name => ?_) names
  refine NeverMissing.bind (.of_neverRefused (NeverRefused.view _)) fun found => ?_
  cases found with
  | none => exact NeverMissing.fail (by simp)
  | some guard =>
    refine NeverMissing.bind (.of_neverRefused (NeverRefused.change _)) fun _ => ?_
    refine NeverMissing.bind (.of_neverRefused nextCall_neverRefused) fun n => ?_
    rcases guard n seen with reason | (_ | _)
    · exact NeverMissing.fail (by simp)
    · exact NeverMissing.fail (by simp)
    · exact NeverMissing.pure _

/-- A hook that is not registered is an error of the definition. -/
theorem runBeforeHooks_neverMissing (held : List InstanceKey) (seen : HookContext)
    (names : List String) : NeverMissing (runBeforeHooks ⟨held, publishWith⟩ seen names) := by
  have hnamed (names : List String) : NeverMissing (hooksNamed names) := by
    induction names with
    | nil => exact NeverMissing.pure _
    | cons name rest ih =>
      refine NeverMissing.bind (NeverMissing.bind (.of_neverRefused (NeverRefused.view _)) ?_)
        fun _ => NeverMissing.bind ih fun _ => NeverMissing.pure _
      rintro (_ | hook)
      · exact NeverMissing.fail (by simp)
      · exact NeverMissing.pure _
  refine NeverMissing.bind (hnamed names) fun hooks => NeverMissing.forEach (fun hook => ?_) hooks
  refine NeverMissing.bind (.of_neverRefused (runHook_neverRefused held seen hook.1 hook.2)) ?_
  rintro (_ | reason)
  · exact NeverMissing.pure _
  · exact NeverMissing.fail (by simp)

variable {e e' : Engine} {db : Database} {d : Definition} {row : InstanceRow}
  {workflow entityId : String}

/-- A transition of an instance with a row can be committed, or something else stands in the way. -/
theorem commit_present {seen : HookContext} (store : e.store = .database db)
    (hrow : db.instances.get? seen.subject.key = some row) (what : String) :
    (commit seen e).1 ≠ .error (.error (.notFound what)) := by
  show (Store.commit seen.subject seen.toState (entryOf seen e.nextTime) e.store).1 ≠ _
  rw [store]
  exact Database.commit_present hrow _ _ what

/-- An instance with a row is loaded from it, or the row cannot be read. -/
theorem load_present {key : InstanceKey} (store : e.store = .database db)
    (hrow : db.instances.get? key = some row) :
    (∀ what, (load key e).1 ≠ .error (.error (.notFound what))) ∧
      ∀ i s, load key e = (.ok i, s) → i.key = key ∧ s = e := by
  have hget : e.store.get? key = db.get? key := by
    rw [store]
    rfl
  constructor
  · intro what h
    rw [load_apply, hget] at h
    rcases hread : db.get? key with f | (_ | i)
    · rw [hread] at h
      exact db.get?_ne_notFound key what (hread.trans (congrArg Except.error (Except.error.inj h)))
    · exact Store.get?_ne_none hrow hread
    · rw [hread] at h
      cases h
  · intro i s h
    obtain ⟨hi, hs⟩ := load_ok h
    rw [hget] at hi
    obtain ⟨_, -, hread⟩ := Database.get?_ok hi
    obtain ⟨_, _, _, _, _, _, -, -, -, -, -, -, rfl⟩ := Database.instanceOfRow_ok hread
    exact ⟨rfl, hs⟩

section Present

variable (store : e.store = .database db) (registered : e.registry.get? workflow = some d)
  (hrow : db.instances.get? (workflow, entityId) = some row)

include store registered hrow

/-- Where workflow and row are there, a transition is never refused for want of either. -/
theorem advance_present (event : String) (context : TransitionContext) (what : String) :
    (advance publish workflow entityId event context e).1 ≠ .error (.error (.notFound what)) := by
  intro heq
  have h : advance publish workflow entityId event context e =
      (.error (.error (.notFound what)), (advance publish workflow entityId event context e).2) :=
    Prod.ext heq rfl
  obtain ⟨loads, loaded⟩ := load_present store hrow
  rcases Operation.bind_eq_error h with h | ⟨found, s, hfound, h⟩
  · rw [lookup_apply, registered] at h
    cases h
  rw [(lookup_ok hfound).2] at h
  rcases Operation.bind_eq_error h with h | ⟨_, s, hfree, h⟩
  · cases h
  rw [(reserve_ok hfree).2] at h
  rcases Operation.bind_eq_error h with h | ⟨i, s, hi, h⟩
  · exact loads what (congrArg Prod.fst h)
  obtain ⟨hkey, hs⟩ := loaded i s hi
  rw [hs] at h
  rcases Operation.bind_eq_error h with h | ⟨t, s, ht, h⟩
  · rw [select_apply] at h
    cases hselect : found.select? i.state event <;> rw [hselect] at h <;> cases h
  rw [(select_ok ht).2] at h
  have hR := PreservesRows.respected
  rcases Operation.bind_eq_error h with h | ⟨_, s₁, hguards, h⟩
  · exact checkGuards_neverMissing _ _ e what (congrArg Prod.fst h)
  have hfirst := checkGuards_keeps hR (contextOf i t event context) t.guards e
  rw [hguards] at hfirst
  rcases Operation.bind_eq_error h with h | ⟨_, s₂, hhooks, h⟩
  · exact runBeforeHooks_neverMissing [(workflow, entityId)] _ _ s₁ what (congrArg Prod.fst h)
  have hsecond := runBeforeHooks_keeps hR (publish_preservesRows.holding (workflow, entityId))
    (contextOf i t event context) t.beforeHooks s₁
  rw [hhooks] at hsecond
  -- whatever guards and hooks have set off, the row is still there when the transition is committed
  obtain ⟨db', store', preserved⟩ := hR.trans _ _ _ hfirst hsecond db store
  obtain ⟨row', hrow'⟩ := Option.isSome_iff_exists.1 (preserved _ (by rw [hrow]; rfl))
  rcases Operation.bind_eq_error h with h | ⟨committed, s₃, -, h⟩
  · have hheld : db'.instances.get? (contextOf i t event context).subject.key = some row' :=
      hkey ▸ hrow'
    exact commit_present store' hheld what (congrArg Prod.fst h)
  · cases h

/-- Firing an event on an instance with a row may be refused, but nothing is missing. -/
theorem fire_present (event : String) (context : TransitionContext) (what : String) :
    (fire workflow entityId event context e).1 ≠ .error (.error (.notFound what)) := by
  intro heq
  have h : transition publish workflow entityId event context e =
      (.error (.error (.notFound what)), (fire workflow entityId event context e).2) :=
    Prod.ext heq rfl
  rcases Operation.bind_eq_error h with h | ⟨⟨i, entered⟩, s, -, h⟩
  · rcases Operation.bind_eq_error h with h | ⟨⟨seen, afterHooks⟩, s, -, h⟩
    · exact advance_present store registered hrow event context what (congrArg Prod.fst h)
    · have hafter : NeverRefused (do
          runAfterHooks publish seen afterHooks
          let entered ←
            newEvent (workflowEventName workflow seen.subject.state) (enteredPayload seen) context.trail
          return (seen.subject, entered)) :=
        NeverRefused.bind (runAfterHooks_neverRefused seen afterHooks) fun _ =>
          NeverRefused.bind (newEvent_neverRefused _ _ _) fun _ => NeverRefused.pure _
      exact hafter s _ (congrArg Prod.fst h)
  · have hpublished : NeverRefused (do publish entered; return i) :=
      NeverRefused.bind (publish_neverRefused entered) fun _ => NeverRefused.pure _
    exact hpublished s _ (congrArg Prod.fst h)

end Present

/-! ## Creations -/

/-- A creation under a registered name is up to the store. -/
theorem createInstance_registered (registered : e.registry.get? workflow = some d)
    (data : Json) (actorId : Option String) :
    createInstance workflow entityId data actorId e =
      ((Store.create d entityId data actorId e.nextTime e.store).1,
        { (now e).2 with store := (Store.create d entityId data actorId e.nextTime e.store).2 }) := by
  have hlookup : lookup workflow e = (.ok d, e) := by rw [lookup_apply, registered]
  rw [createInstance, Operation.bind_ok _ hlookup]
  rfl

/-- Where there is no row yet, a creation succeeds. -/
theorem exists_createInstance (store : e.store = .database db)
    (registered : e.registry.get? workflow = some d) (writable : db.writable = true)
    (entityId : String) (free : db.instances.get? (d.name, entityId) = none)
    (unnumbered : db.history.get? ((d.name, entityId), 1) = none) (data : Json)
    (actorId : Option String) :
    ∃ i e', createInstance workflow entityId data actorId e = (.ok i, e') := by
  have hcreate := Database.create_written writable free unnumbered data actorId e.nextTime
  have hstore : (Store.create d entityId data actorId e.nextTime e.store).1 =
      .ok (.create d entityId data e.nextTime) := by
    rw [store]
    exact congrArg Prod.fst (Store.onEither_database hcreate _)
  exact ⟨_, _, (createInstance_registered registered data actorId).trans (by rw [hstore])⟩

/-- A creation leaves the row of the instance, under the name of the definition. -/
theorem createInstance_database {data : Json} {actorId : Option String} {i : Instance}
    (store : e.store = .database db) (registered : e.registry.get? workflow = some d)
    (h : createInstance workflow entityId data actorId e = (.ok i, e')) :
    i.key = (d.name, entityId) ∧ i.metadata = .empty ∧ e'.registry = e.registry ∧
      ∃ db', e'.store = .database db' ∧
        db'.instances = db.instances.insert i.key (Database.rowOfInstance i) := by
  have hstore {r : Except Failure Instance} {db' : Database}
      (hcreate : Database.create d entityId data actorId e.nextTime db = (r, db')) :
      Store.create d entityId data actorId e.nextTime e.store = (r, .database db') := by
    rw [store]
    exact Store.onEither_database hcreate _
  rcases Database.create_cases d entityId data actorId e.nextTime db with
    ⟨f, hcreate⟩ | ⟨-, -, hcreate⟩
  · rw [createInstance_registered registered, hstore hcreate] at h
    cases h
  · rw [createInstance_registered registered, hstore hcreate] at h
    cases h
    exact ⟨rfl, rfl, rfl, _, rfl, rfl⟩

end Engine

end WorkflowRules
