import WorkflowRules.Proofs.Store.Mirror

/-!
# Calls of a store

Everything that can be asked of a store, and what becomes of the instances in it. Only creations and
commits change anything, and each of them changes one instance.

* `Store.ask`, `Store.after` — the answer to a call, and the store after several of them
* `MemoryStore.Changed`, `MemoryStore.step_changed` — what a call does to the instance of a key
* `MemoryStore.run_legible`, `MemoryStore.run_grows` — what calls keep of the instance of a key
* `Mirrors.step`, `Mirrors.run` — a database mirrors a store in memory that gets the same calls
* `Mirrors.answer` — the answers of the two to one call
-/

namespace WorkflowRules

/-! ## Calls and answers -/

/-- A call of a store; `H` tells how a commit names the instance that the caller holds. -/
inductive Store.Call (H : Type) where
  | create (d : Definition) (entityId : String) (data : Json) (actorId : Option String)
      (now : Timestamp)
  | get (key : InstanceKey)
  | history (key : InstanceKey)
  | list (workflow : String)
  | commit (held : H) (state : String) (entry : HistoryEntry)

/-- The answer to a call. -/
inductive Store.Answer where
  | instance (r : Except Failure Instance)
  | found (r : Except Failure (Option Instance))
  | history (r : Except Failure (Option (List HistoryEntry)))
  | listing (r : Except Failure (List Instance))

namespace Store

/-- Asks a store: its answer, and the store afterwards. -/
def ask (s : Store) : Call Instance → Answer × Store
  | .create d entityId data actorId now =>
    let r := create d entityId data actorId now s
    (.instance r.1, r.2)
  | .get key => (.found (s.get? key), s)
  | .history key => (.history (s.history? key), s)
  | .list workflow => (.listing (s.list workflow), s)
  | .commit held state entry =>
    let r := commit held state entry s
    (.instance r.1, r.2)

/-- The store after calls. -/
def after (s : Store) (calls : List (Call Instance)) : Store :=
  calls.foldl (fun s c => (s.ask c).2) s

/-- The instances in an answer. -/
def Answer.instances : Answer → List Instance
  | .instance (.ok i) => [i]
  | .found (.ok (some i)) => [i]
  | .listing (.ok is) => is
  | _ => []

end Store

open Store (Call Answer)

/-- The store in memory after a call. -/
def MemoryStore.step (m : MemoryStore) : Call Instance → MemoryStore
  | .create d entityId data actorId now => (create d entityId data actorId now m).2
  | .commit held state entry => (commit held state entry m).2
  | _ => m

/-- The database after a call. -/
def Database.step (db : Database) : Call Instance → Database
  | .create d entityId data actorId now => (create d entityId data actorId now db).2
  | .commit held state entry => (commit held state entry db).2
  | _ => db

theorem Store.ask_memory (m : MemoryStore) (c : Call Instance) :
    ((Store.memory m).ask c).2 = .memory (m.step c) := by
  cases c <;> rfl

theorem Store.ask_database (db : Database) (c : Call Instance) :
    ((Store.database db).ask c).2 = .database (db.step c) := by
  cases c <;> rfl

theorem Store.after_memory (m : MemoryStore) (calls : List (Call Instance)) :
    (Store.memory m).after calls = .memory (calls.foldl MemoryStore.step m) := by
  induction calls generalizing m with
  | nil => rfl
  | cons c rest ih =>
    rw [after, List.foldl_cons, ask_memory]
    exact ih _

theorem Store.after_database (db : Database) (calls : List (Call Instance)) :
    (Store.database db).after calls = .database (calls.foldl Database.step db) := by
  induction calls generalizing db with
  | nil => rfl
  | cons c rest ih =>
    rw [after, List.foldl_cons, ask_database]
    exact ih _

/-! ## Accepted calls -/

/-- An answer holds the instance that it gives, and no other. -/
theorem Store.Answer.mem_instances {answer : Except Failure Instance} {i : Instance} :
    i ∈ (Answer.instance answer).instances ↔ answer = .ok i := by
  cases answer with
  | error f => simp [instances]
  | ok j => simp [instances, eq_comm]

/-- An instance that was created is stored with one entry in its history. -/
theorem MemoryStore.create_ok {m : MemoryStore} {d : Definition} {entityId : String} {data : Json}
    {actorId : Option String} {now : Timestamp} {i : Instance}
    (h : (create d entityId data actorId now m).1 = .ok i) :
    i = .create d entityId data now ∧
      (create d entityId data actorId now m).2.instances.get? i.key =
        some ⟨i, [i.creationEntry actorId]⟩ := by
  cases hm : m.instances.get? (d.name, entityId) with
  | some stored =>
    rw [create_taken hm] at h
    cases h
  | none =>
    rw [create_new hm] at h ⊢
    obtain rfl := Except.ok.inj h
    exact ⟨rfl, Keyed.get?_insert_self _ _ _⟩

/-- A commit that was accepted gives the next version of what was stored, and stores it. -/
theorem MemoryStore.commit_ok {m : MemoryStore} {held : Instance} {state : String}
    {entry : HistoryEntry} {i : Instance} (h : (commit held state entry m).1 = .ok i) :
    ∃ stored, m.instances.get? held.key = some stored ∧
      i = (stored.commit (held.version + 1) state entry).current ∧
      (commit held state entry m).2.instances.get? held.key =
        some (stored.commit (held.version + 1) state entry) := by
  cases hs : m.instances.get? held.key with
  | none =>
    rw [commit_missing hs] at h
    cases h
  | some stored =>
    by_cases hv : stored.current.version = held.version
    · rw [commit_held hs hv] at h ⊢
      exact ⟨stored, rfl, (Except.ok.inj h).symm, Keyed.get?_insert_self _ _ _⟩
    · rw [commit_stale hs hv] at h
      cases h

/-! ## What a call changes -/

/-- What a call may do to the instance of a key. -/
inductive MemoryStore.Changed (c : Call Instance) (key : InstanceKey) :
    Option StoredInstance → Option StoredInstance → Prop
  | same (found : Option StoredInstance) : Changed c key found found
  | created {d : Definition} {entityId : String} {data : Json} {actorId : Option String}
      {now : Timestamp} (call : c = .create d entityId data actorId now)
      (own : key = (d.name, entityId)) :
      Changed c key none (some ⟨.create d entityId data now,
        [(Instance.create d entityId data now).creationEntry actorId]⟩)
  | committed {held : Instance} {state : String} {entry : HistoryEntry} {stored : StoredInstance}
      (call : c = .commit held state entry) (own : key = held.key)
      (current : stored.current.version = held.version) :
      Changed c key (some stored) (some (stored.commit (held.version + 1) state entry))

namespace MemoryStore

/-- A call changes an instance by creating it, by a commit, or not at all. -/
theorem step_changed (m : MemoryStore) (c : Call Instance) (key : InstanceKey) :
    Changed c key (m.instances.get? key) ((m.step c).instances.get? key) := by
  -- of another key nothing changes, and of this one only what the call is about
  cases c with
  | create d entityId data actorId now =>
    show Changed _ key _ ((create d entityId data actorId now m).2.instances.get? key)
    cases hm : m.instances.get? (d.name, entityId) with
    | some stored =>
      rw [create_taken hm]
      exact .same _
    | none =>
      rw [create_new hm]
      by_cases hkey : key = (d.name, entityId)
      · rw [hkey, hm, Keyed.get?_insert_self]
        exact .created rfl rfl
      · rw [Keyed.get?_insert_of_ne _ _ hkey]
        exact .same _
  | commit held state entry =>
    show Changed _ key _ ((commit held state entry m).2.instances.get? key)
    rcases commit_cases held state entry m with h | ⟨stored, hs, hv, h⟩
    · rw [h]
      exact .same _
    · rw [h]
      by_cases hkey : key = held.key
      · rw [hkey, hs, Keyed.get?_insert_self]
        exact .committed rfl rfl hv
      · rw [Keyed.get?_insert_of_ne _ _ hkey]
        exact .same _
  | get | history | list => exact .same _

end MemoryStore

/-! ## Legible calls -/

/-- What is written by a call can be read back from the columns of a database. -/
def Store.Call.Legible {H : Type} : Call H → Prop
  | .create _ _ data _ now => data.Legible ∧ now.ReadsBack
  | .commit _ _ entry => entry.Legible
  | _ => True

/-- What is written to the instances of some keys can be read back. -/
def Store.Call.LegibleOn (keys : InstanceKey → Prop) : Call Instance → Prop
  | .create d entityId data _ now => keys (d.name, entityId) → data.Legible ∧ now.ReadsBack
  | .commit held _ entry => keys held.key → entry.Legible
  | _ => True

/-- A legible call is legible on any instances. -/
theorem Store.Call.Legible.legibleOn {c : Call Instance} (h : c.Legible) (keys : InstanceKey → Prop) :
    c.LegibleOn keys := by
  cases c with
  | create | commit => exact fun _ => h
  | get | history | list => trivial

/-- What is stored stays legible when a legible call changes it. -/
theorem MemoryStore.Changed.legible {c : Call Instance} {keys : InstanceKey → Prop} {key : InstanceKey}
    {before after : Option StoredInstance} (h : Changed c key before after)
    (hkey : keys key) (hc : c.LegibleOn keys) (legible : ∀ stored, before = some stored → stored.Legible) :
    ∀ stored, after = some stored → stored.Legible := by
  rintro stored hs
  cases h with
  | same => exact legible stored hs
  | created call own =>
    subst call own
    obtain ⟨data, now⟩ := hc hkey
    cases hs
    exact ⟨⟨data, now, now⟩, by simpa [Instance.creationEntry] using ⟨data, now⟩⟩
  | committed call own current =>
    subst call own
    cases hs
    obtain ⟨hcurrent, hhistory⟩ := legible _ rfl
    have hentry := hc hkey
    refine ⟨⟨hcurrent.data, hcurrent.createdAt, hentry.timestamp⟩, fun e he => ?_⟩
    rcases List.mem_append.1 he with he | he
    · exact hhistory e he
    · rw [List.mem_singleton.1 he]
      exact ⟨hentry.context, hentry.timestamp⟩

/-- Instances stay legible along legible calls. -/
theorem MemoryStore.run_legible {m : MemoryStore} {calls : List (Call Instance)}
    {keys : InstanceKey → Prop} (hcalls : ∀ c ∈ calls, c.LegibleOn keys) {key : InstanceKey}
    (hkey : keys key)
    (legible : ∀ stored, m.instances.get? key = some stored → stored.Legible) :
    ∀ stored, (calls.foldl step m).instances.get? key = some stored → stored.Legible := by
  induction calls generalizing m with
  | nil => exact legible
  | cons c rest ih =>
    refine ih (fun d hd => hcalls d (List.mem_cons_of_mem _ hd)) ?_
    exact (m.step_changed c key).legible hkey (hcalls c List.mem_cons_self) legible

/-! ## Instances that differ in their state only -/

/-- Two instances differ at most in what a change of state changes. -/
def Instance.Akin (i j : Instance) : Prop :=
  ∀ state version time, i.moved state version time = j.moved state version time

namespace Instance

variable {i j k : Instance}

theorem Akin.refl (i : Instance) : i.Akin i := fun _ _ _ => rfl

theorem Akin.trans (h₁ : i.Akin j) (h₂ : j.Akin k) : i.Akin k :=
  fun state version time => (h₁ state version time).trans (h₂ state version time)

/-- An instance that has moved on is akin to what it was. -/
theorem Akin.moved (h : i.Akin j) (state : String) (version : Int) (time : Timestamp) :
    i.Akin (j.moved state version time) :=
  h

theorem Akin.data_eq (h : i.Akin j) : i.data = j.data := by
  have hmoved := congrArg Instance.data (h "" 0 ⟨0, 0⟩)
  exact hmoved

end Instance

/-- A stored instance has changed its state only, and has kept its history. -/
structure StoredInstance.Grows (a b : StoredInstance) : Prop where
  akin : a.current.Akin b.current
  history : a.history <+: b.history

theorem StoredInstance.Grows.refl (a : StoredInstance) : a.Grows a := ⟨.refl _, List.prefix_rfl⟩

theorem StoredInstance.Grows.trans {a b c : StoredInstance} (h₁ : a.Grows b) (h₂ : b.Grows c) :
    a.Grows c :=
  ⟨h₁.akin.trans h₂.akin, h₁.history.trans h₂.history⟩

namespace MemoryStore

/-- A call adds to the history of an instance or leaves it alone. -/
theorem step_grows {m : MemoryStore} {key : InstanceKey} {a : StoredInstance}
    (h : m.instances.get? key = some a) (c : Call Instance) :
    ∃ b, (m.step c).instances.get? key = some b ∧ a.Grows b := by
  have hchanged := m.step_changed c key
  rw [h] at hchanged
  generalize (m.step c).instances.get? key = after at hchanged ⊢
  cases hchanged with
  | same => exact ⟨a, rfl, .refl a⟩
  | committed => exact ⟨_, rfl, (Instance.Akin.refl _).moved _ _ _, List.prefix_append _ _⟩

/-- Along any calls the history of an instance only grows. -/
theorem run_grows {m : MemoryStore} {key : InstanceKey} {a : StoredInstance}
    (h : m.instances.get? key = some a) (calls : List (Call Instance)) :
    ∃ b, (calls.foldl step m).instances.get? key = some b ∧ a.Grows b := by
  induction calls generalizing m a with
  | nil => exact ⟨a, h, .refl a⟩
  | cons c rest ih =>
    obtain ⟨b, hb, hab⟩ := step_grows h c
    obtain ⟨d, hd, hbd⟩ := ih hb
    exact ⟨d, hd, hab.trans hbd⟩

end MemoryStore

/-! ## The same calls of both stores -/

namespace Database.Mirrors

variable {m : MemoryStore} {db : Database}

/-- The two stores mirror each other after the same call. -/
theorem step (h : Mirrors m db) (c : Call Instance) : Mirrors (m.step c) (db.step c) := by
  cases c with
  | create d entityId data actorId now => exact (h.create d entityId data actorId now).2
  | commit held state entry => exact h.commit held state entry
  | get | history | list => exact h

/-- The two stores mirror each other after the same calls. -/
theorem run (h : Mirrors m db) (calls : List (Call Instance)) :
    Mirrors (calls.foldl MemoryStore.step m) (calls.foldl Database.step db) := by
  induction calls generalizing m db with
  | nil => exact h
  | cons c rest ih => exact ih (h.step c)

/--
Both stores answer a call alike when everything in them is legible and a commit holds an instance
that is akin to the stored one, if there is one.
-/
theorem answer (h : Mirrors m db)
    (legible : ∀ key stored, m.instances.get? key = some stored → stored.Legible)
    {c : Call Instance}
    (genuine : ∀ held state entry stored, c = .commit held state entry →
      m.instances.get? held.key = some stored → held.Akin stored.current) :
    ((Store.memory m).ask c).1 = ((Store.database db).ask c).1 := by
  have hget (key : InstanceKey) : db.get? key = .ok (m.get? key) := h.get?_eq fun i hi => by
    obtain ⟨stored, hs, rfl⟩ := Option.map_eq_some_iff.1 hi
    exact (legible key stored hs).current
  -- queries answer alike as what is stored can be read back; only a commit answers with what was held
  cases c with
  | create d entityId data actorId now =>
    exact congrArg Answer.instance (h.create d entityId data actorId now).1
  | get key => exact congrArg Answer.found (hget key).symm
  | history key => exact congrArg Answer.history (h.history?_eq (legible key)).symm
  | list workflow =>
    exact congrArg Answer.listing
      (h.list_eq fun key stored hs _ => (legible key stored hs).current).symm
  | commit held state entry =>
    refine congrArg Answer.instance ?_
    show (MemoryStore.commit held state entry m).1 = (Database.commit held state entry db).1
    have hrow := h.get?_instances held.key
    cases hs : m.instances.get? held.key with
    | none =>
      rw [hs] at hrow
      rw [MemoryStore.commit_missing hs, Database.commit_missing h.kept.writable hrow]
    | some stored =>
      by_cases hv : stored.current.version = held.version
      · -- one store returns what it has and the other what was held, moved in the same way
        obtain ⟨hmemory, hdatabase, -⟩ := h.commit_held hs hv state entry
        rw [hmemory, hdatabase, genuine held state entry stored rfl hs]
      · rw [hs] at hrow
        rw [MemoryStore.commit_stale hs hv, Database.commit_refused h.kept.writable hrow hv, hget,
          MemoryStore.get?, hs]
        rfl

end Database.Mirrors

end WorkflowRules
