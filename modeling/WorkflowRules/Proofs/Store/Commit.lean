import WorkflowRules.Proofs.Except
import WorkflowRules.Proofs.Store.Rows
import WorkflowRules.Proofs.Time.RoundTrip

/-!
# What creations and commits do to a store

On either store a creation opens the account of a new instance, and a commit of the version that is
stored adds one entry to an account. Otherwise they change nothing. No other account is touched.

* `Store.Formed` — stores that only creations and commits have written to
* `Store.Wrote` — one account has changed
* `Store.create_cases` — a creation on either store
* `Store.commit_held`, `Store.commit_refused`, `Store.commit_stale` — a commit of the version that is
  stored, and one of another version
-/

namespace WorkflowRules

namespace Database

/-- The columns of an instance row that can be read, one by one. -/
theorem instanceOfRow_ok {key : InstanceKey} {row : InstanceRow} {i : Instance}
    (h : instanceOfRow key row = .ok i) :
    ∃ data metadata json fields created updated, fetch row.data = .ok data ∧
      fetch row.metadata = .ok metadata ∧ decode .any .any data = .ok json ∧
      decode Metadata.reader Metadata.shape metadata = .ok fields ∧
      decodeTimestamp row.createdAt = .ok created ∧ decodeTimestamp row.updatedAt = .ok updated ∧
      i = ⟨key.1, key.2, row.state, row.version, json, fields, created, updated⟩ := by
  obtain ⟨data, hdata, h⟩ := ok_of_bind h
  obtain ⟨metadata, hmetadata, h⟩ := ok_of_bind h
  obtain ⟨json, hjson, h⟩ := ok_of_bind h
  obtain ⟨fields, hfields, h⟩ := ok_of_bind h
  obtain ⟨created, hcreated, h⟩ := ok_of_bind h
  obtain ⟨updated, hupdated, h⟩ := ok_of_bind h
  exact ⟨data, metadata, json, fields, created, updated, hdata, hmetadata, hjson, hfields, hcreated,
    hupdated, (Except.ok.inj h).symm⟩

/-- An instance that could be read can be read after a commit at a plain time. -/
theorem exists_instanceOfRow_moved {key : InstanceKey} {row : InstanceRow} {i : Instance}
    (h : instanceOfRow key row = .ok i) (state : String) {entry : HistoryEntry}
    (plain : entry.timestamp.IsPlain) :
    ∃ j, instanceOfRow key (movedRow row state entry) = .ok j := by
  obtain ⟨data, metadata, json, fields, created, updated, hdata, hmetadata, hjson, hfields, hcreated,
    -, -⟩ := instanceOfRow_ok h
  have htime : decodeTimestamp entry.timestamp.columnText = .ok entry.timestamp := by
    rw [decodeTimestamp, Timestamp.read_columnText plain]
  refine ⟨⟨key.1, key.2, state, row.version + 1, json, fields, created, entry.timestamp⟩, ?_⟩
  simp only [instanceOfRow, movedRow, hdata, hmetadata, hcreated, htime, bind, Except.bind, hjson,
    hfields]
  rfl

/-- An instance that was read is the one in the row of its key. -/
theorem get?_ok {db : Database} {key : InstanceKey} {i : Instance}
    (h : db.get? key = .ok (some i)) :
    ∃ row, db.instances.get? key = some row ∧ instanceOfRow key row = .ok i := by
  unfold get? at h
  cases hrow : db.instances.get? key with
  | none => rw [hrow] at h; cases h
  | some row =>
    rw [hrow] at h
    refine ⟨row, rfl, ?_⟩
    cases hi : instanceOfRow key row with
    | error f => simp only [hi] at h; cases h
    | ok j => simp only [hi] at h; cases h; rfl

/-- A row that can be read can be read after it has been moved by a plain time. -/
theorem reads_moved {db : Database} {key : InstanceKey} {row : InstanceRow} {i : Instance}
    (stored : db.instances.get? key = some row) (h : db.get? key = .ok (some i)) (state : String)
    {entry : HistoryEntry} (plain : entry.timestamp.IsPlain) (sequence : Int) :
    ∃ j, (db.withRows key (movedRow row state entry) sequence (rowOfEntry entry)).get? key =
      .ok (some j) := by
  obtain ⟨row', hrow', hi⟩ := get?_ok h
  obtain rfl := Option.some.inj (stored.symm.trans hrow')
  obtain ⟨j, hj⟩ := exists_instanceOfRow_moved hi state plain
  have hself : (db.withRows key (movedRow row state entry) sequence
      (rowOfEntry entry)).instances.get? key = some (movedRow row state entry) :=
    Keyed.get?_insert_self _ _ _
  refine ⟨j, ?_⟩
  rw [get?, hself]
  simp only [hj]
  rfl

end Database

namespace MemoryStore

variable {s : MemoryStore}

theorem create_taken {d : Definition} {entityId : String} {stored : StoredInstance}
    (h : s.instances.get? (d.name, entityId) = some stored) (data : Json)
    (actorId : Option String) (now : Timestamp) :
    create d entityId data actorId now s =
      (.error (.error (.instanceExists (d.name, entityId))), s) := by
  simp [create, Keyed.contains_eq_true h]

/-- A new instance has one entry in its history. -/
theorem create_new {d : Definition} {entityId : String}
    (h : s.instances.get? (d.name, entityId) = none) (data : Json) (actorId : Option String)
    (now : Timestamp) :
    create d entityId data actorId now s =
      (.ok (.create d entityId data now),
        ⟨s.instances.insert (d.name, entityId)
          ⟨.create d entityId data now,
            [(Instance.create d entityId data now).creationEntry actorId]⟩⟩) := by
  simp [create, Keyed.contains_eq_false h]

variable {held : Instance} {stored : StoredInstance}

theorem commit_held (h : s.instances.get? held.key = some stored)
    (hv : stored.current.version = held.version) (state : String) (entry : HistoryEntry) :
    commit held state entry s =
      (.ok (stored.commit (held.version + 1) state entry).current,
        ⟨s.instances.insert held.key (stored.commit (held.version + 1) state entry)⟩) := by
  simp [commit, h, hv]

theorem commit_stale (h : s.instances.get? held.key = some stored)
    (hv : stored.current.version ≠ held.version) (state : String) (entry : HistoryEntry) :
    commit held state entry s = (.error (.error (.stale held)), s) := by
  simp [commit, h, hv]

theorem commit_missing (h : s.instances.get? held.key = none) (state : String)
    (entry : HistoryEntry) :
    commit held state entry s = (.error (.error (.instanceNotFound held.key)), s) := by
  simp [commit, h]

/-- A commit does nothing, or it adds an entry to the version that is stored. -/
theorem commit_cases (held : Instance) (state : String) (entry : HistoryEntry) (s : MemoryStore) :
    (commit held state entry s).2 = s ∨
      ∃ stored, s.instances.get? held.key = some stored ∧ stored.current.version = held.version ∧
        (commit held state entry s).2 =
          ⟨s.instances.insert held.key (stored.commit (held.version + 1) state entry)⟩ := by
  cases hstored : s.instances.get? held.key with
  | none => exact .inl (congrArg Prod.snd (commit_missing hstored state entry))
  | some stored =>
    by_cases hv : stored.current.version = held.version
    · exact .inr ⟨stored, rfl, hv, congrArg Prod.snd (commit_held hstored hv state entry)⟩
    · exact .inl (congrArg Prod.snd (commit_stale hstored hv state entry))

end MemoryStore

namespace Store

theorem onEither_memory {α : Type} {x : Operation MemoryStore α} {s s' : MemoryStore}
    {r : Except Failure α} (h : x s = (r, s')) (y : Operation Database α) :
    onEither x y (.memory s) = (r, .memory s') := by
  rw [onEither, h]

theorem onEither_database {α : Type} {y : Operation Database α} {db db' : Database}
    {r : Except Failure α} (h : y db = (r, db')) (x : Operation MemoryStore α) :
    onEither x y (.database db) = (r, .database db') := by
  rw [onEither, h]

/-- A store that only creations and commits have written to. -/
def Formed : Store → Prop
  | .memory s => ∀ key stored, s.instances.get? key = some stored → stored.current.key = key
  | .database db => db.Kept

/-- A store in which instances are found under their own keys and histories belong to instances. -/
def Tidy : Store → Prop
  | .memory s => ∀ key stored, s.instances.get? key = some stored → stored.current.key = key
  | .database db => ∀ key, db.instances.get? key = none → db.rowsOf key = []

theorem Formed.tidy {s : Store} (h : s.Formed) : s.Tidy := by
  cases s with
  | memory m => exact h
  | database db => exact Database.Kept.missing h

/-- An instance that is there can be read. -/
def Reads (s : Store) (key : InstanceKey) : Prop := ∃ i, s.get? key = .ok (some i)

/-- Whether the store is in memory. -/
def inMemory : Store → Bool
  | .memory _ => true
  | .database _ => false

theorem onEither_inMemory {α : Type} (x : Operation MemoryStore α) (y : Operation Database α)
    (s : Store) : (onEither x y s).2.inMemory = s.inMemory := by
  cases s <;> rfl

/-- A time that the store can read back; a database keeps times as texts. -/
def ReadsBack (s : Store) (time : Timestamp) : Prop := s.inMemory = true ∨ time.IsPlain

/-- One instance has a new account, and everything else is as it was. -/
structure Wrote (s s' : Store) (key : InstanceKey) (a : Account) : Prop where
  account : s'.account? key = some a
  accounts : ∀ other, other ≠ key → s'.account? other = s.account? other
  instances : ∀ other, other ≠ key → s'.get? other = s.get? other
  formed : s'.Formed

/-- What is put under its own key in memory is accounted for. -/
theorem wrote_memory {s : MemoryStore} (h : Formed (.memory s)) {key : InstanceKey}
    {stored : StoredInstance} (hkey : stored.current.key = key) :
    Wrote (.memory s) (.memory ⟨s.instances.insert key stored⟩) key stored.account where
  account := by rw [account?, Keyed.get?_insert_self, Option.map_some]
  accounts other hne := by rw [account?, account?, Keyed.get?_insert_of_ne _ _ hne]
  instances other hne := by
    simp only [get?, MemoryStore.get?, Keyed.get?_insert_of_ne _ _ hne]
  formed other stored' hget := by
    rcases Keyed.get?_insert_eq_some hget with ⟨rfl, rfl⟩ | ⟨-, hget⟩
    · exact hkey
    · exact h other stored' hget

/-- A row that is written together with its entry is accounted for. -/
theorem wrote_database {db : Database} (hk : db.Kept) {key : InstanceKey} {row : InstanceRow}
    {sequence : Int} (hs : sequence = (db.rowsOf key).length + 1) (hv : row.version = sequence)
    (entry : HistoryRow) :
    Wrote (.database db) (.database (db.withRows key row sequence entry)) key
      (Database.accountOf row (db.rowsOf key ++ [(sequence, entry)])) := by
  have hk' : (db.withRows key row sequence entry).Kept := hk.withRows hs hv entry
  have hnew : db.history.get? (key, sequence) = none := hk.get?_history (by omega)
  have hother {other : InstanceKey} (hne : other ≠ key) :
      (db.withRows key row sequence entry).instances.get? other = db.instances.get? other :=
    Keyed.get?_insert_of_ne _ _ hne
  refine ⟨?_, fun other hne => ?_, fun other hne => ?_, hk'⟩
  · have hrow : (db.withRows key row sequence entry).instances.get? key = some row :=
      Keyed.get?_insert_self _ _ _
    rw [account?, hrow, hk'.historyRows_eq, Database.rowsOf_withRows hnew]
    rfl
  · rw [account?, account?, hother hne, hk'.historyRows_eq, hk.historyRows_eq,
      Database.rowsOf_withRows_of_ne hne hnew]
  · rw [get?, get?, Database.get?, Database.get?, hother hne]

/-- What is read of an instance agrees with its account. -/
theorem Tidy.account?_of_get? {s : Store} (h : s.Tidy) {key : InstanceKey} {i : Instance}
    (hi : s.get? key = .ok (some i)) :
    i.key = key ∧ ∃ a, s.account? key = some a ∧ a.version = i.version ∧ a.state = i.state := by
  cases s with
  | memory m =>
    obtain ⟨stored, hstored, rfl⟩ := Option.map_eq_some_iff.1 (Except.ok.inj hi)
    refine ⟨h key stored hstored, stored.account, ?_, rfl, rfl⟩
    rw [account?, hstored, Option.map_some]
  | database db =>
    obtain ⟨row, hrow, hi⟩ := Database.get?_ok hi
    obtain ⟨_, _, _, _, _, _, -, -, -, -, -, -, rfl⟩ := Database.instanceOfRow_ok hi
    exact ⟨rfl, _, by rw [account?, hrow, Option.map_some], rfl, rfl⟩

theorem account?_of_get? {s : Store} (h : s.Formed) {key : InstanceKey} {i : Instance}
    (hi : s.get? key = .ok (some i)) :
    i.key = key ∧ ∃ a, s.account? key = some a ∧ a.version = i.version ∧ a.state = i.state :=
  h.tidy.account?_of_get? hi

/-! ## Creations -/

/-- A creation opens the account of a new instance, or finds that there is one already. -/
theorem create_cases {s : Store} (h : s.Formed) (d : Definition) (entityId : String) (data : Json)
    (actorId : Option String) (now : Timestamp) :
    create d entityId data actorId now s =
        (.error (.error (.instanceExists (d.name, entityId))), s) ∨
      ∃ s' w, create d entityId data actorId now s = (.ok (.create d entityId data now), s') ∧
        s.account? (d.name, entityId) = none ∧
        Wrote s s' (d.name, entityId) ⟨d.initialState, 1, [w]⟩ ∧
        w.sequence = 1 ∧ w.fromState = none ∧ w.toState = d.initialState := by
  cases s with
  | memory m =>
    cases hm : m.instances.get? (d.name, entityId) with
    | some stored => exact .inl (onEither_memory (MemoryStore.create_taken hm data actorId now) _)
    | none =>
      refine .inr ⟨_, .entry ((Instance.create d entityId data now).creationEntry actorId),
        onEither_memory (MemoryStore.create_new hm data actorId now) _, ?_, wrote_memory h rfl, rfl,
        rfl, rfl⟩
      rw [account?, hm, Option.map_none]
  | database db =>
    cases hm : db.instances.get? (d.name, entityId) with
    | some row =>
      exact .inl (onEither_database (Database.create_taken h.writable hm data actorId now) _)
    | none =>
      -- an instance without a row has no history either, so this entry is the first one
      have hrows : db.rowsOf (d.name, entityId) = [] := h.missing _ hm
      have hwrote := wrote_database h (by rw [hrows]; rfl)
        (rfl : (Database.rowOfInstance (.create d entityId data now)).version = 1)
        (Database.rowOfEntry ((Instance.create d entityId data now).creationEntry actorId))
      rw [hrows] at hwrote
      refine .inr ⟨_, .row 1 _, onEither_database (Database.create_new h hm data actorId now) _, ?_,
        hwrote, rfl, rfl, rfl⟩
      rw [account?, hm, Option.map_none]

/-! ## Commits -/

/-- In memory a commit keeps a store formed, and only a formed one becomes so by a commit. -/
theorem formed_commit (held : Instance) (state : String) (entry : HistoryEntry) (s : MemoryStore) :
    (Store.memory (MemoryStore.commit held state entry s).2).Formed ↔ (Store.memory s).Formed := by
  rcases MemoryStore.commit_cases held state entry s with hsame | ⟨stored, hstored, -, hnew⟩
  · rw [hsame]
  · rw [hnew]
    -- A commit leaves the key of an instance alone.
    have hkey : (stored.commit (held.version + 1) state entry).current.key = stored.current.key := rfl
    constructor
    · intro h key other hother
      by_cases heq : key = held.key
      · subst heq
        obtain rfl := Option.some.inj (hstored.symm.trans hother)
        exact hkey.symm.trans (h held.key _ (Keyed.get?_insert_self _ _ _))
      · exact h key other ((Keyed.get?_insert_of_ne _ _ heq).trans hother)
    · intro h
      exact (wrote_memory h (hkey.trans (h held.key stored hstored))).formed

/-- A commit of the version that is stored adds one entry to the account. -/
theorem commit_held {s : Store} (h : s.Formed) {held : Instance} {a : Account}
    (ha : s.account? held.key = some a) (hv : a.version = held.version) (state : String)
    (entry : HistoryEntry) :
    ∃ i s' w, commit held state entry s = (.ok i, s') ∧
      Wrote s s' held.key ⟨state, a.version + 1, a.history ++ [w]⟩ ∧
      w.sequence = a.version + 1 ∧ w.fromState = entry.fromState ∧ w.toState = entry.toState ∧
      (s.ReadsBack entry.timestamp → s.Reads held.key → s'.Reads held.key) := by
  cases s with
  | memory m =>
    obtain ⟨stored, hstored, rfl⟩ := Option.map_eq_some_iff.1 ha
    have hkey : (stored.commit (held.version + 1) state entry).current.key = held.key :=
      h held.key stored hstored
    have hwrote := wrote_memory h hkey
    have haccount : (stored.commit (held.version + 1) state entry).account =
        ⟨state, stored.account.version + 1,
          stored.account.history ++ [.entry { entry with sequence := held.version + 1 }]⟩ := by
      rw [hv]
      simp [StoredInstance.account, StoredInstance.commit, Instance.moved]
    rw [haccount] at hwrote
    refine ⟨_, _, _, onEither_memory (MemoryStore.commit_held hstored hv state entry) _, hwrote, ?_,
      rfl, rfl, fun _ _ => ⟨(stored.commit (held.version + 1) state entry).current, ?_⟩⟩
    · rw [hv]
      rfl
    · rw [get?, MemoryStore.get?, Keyed.get?_insert_self, Option.map_some]
  | database db =>
    obtain ⟨row, hrow, rfl⟩ := Option.map_eq_some_iff.1 ha
    have hk : db.Kept := h
    -- the number of the new entry goes by the version, and the rows go by their number
    have hversion : row.version + 1 = (db.rowsOf held.key).length + 1 := by
      rw [hk.version _ _ hrow]
    have hwrote := wrote_database hk hversion
      (rfl : (Database.movedRow row state entry).version = row.version + 1)
      (Database.rowOfEntry entry)
    have haccount : Database.accountOf (Database.movedRow row state entry)
        (db.rowsOf held.key ++ [(row.version + 1, Database.rowOfEntry entry)]) =
        ⟨state, row.version + 1, (Database.accountOf row (db.historyRows held.key)).history ++
          [.row (row.version + 1) (Database.rowOfEntry entry)]⟩ := by
      simp [Database.accountOf, Database.movedRow, hk.historyRows_eq]
    rw [haccount] at hwrote
    refine ⟨_, _, _, onEither_database (Database.commit_held hk hrow hv state entry) _, hwrote, rfl,
      rfl, rfl, fun hback hread => ?_⟩
    obtain plain : entry.timestamp.IsPlain := hback.resolve_left (by simp [inMemory])
    obtain ⟨i, hi⟩ := hread
    exact Database.reads_moved hrow hi state plain (row.version + 1)

/-- A commit of another version than the one that is stored changes nothing. -/
theorem commit_refused {s : Store} (h : s.Formed) {held : Instance} {a : Account}
    (ha : s.account? held.key = some a) (hv : a.version ≠ held.version) (state : String)
    (entry : HistoryEntry) : ∃ f, commit held state entry s = (.error f, s) := by
  cases s with
  | memory m =>
    obtain ⟨stored, hstored, rfl⟩ := Option.map_eq_some_iff.1 ha
    exact ⟨_, onEither_memory (MemoryStore.commit_stale hstored hv state entry) _⟩
  | database db =>
    obtain ⟨row, hrow, rfl⟩ := Option.map_eq_some_iff.1 ha
    have hw := Database.Kept.writable h
    exact ⟨_, onEither_database (Database.commit_refused hw hrow hv state entry) _⟩

/-- If the instance can be read, the caller is told that the version is not the one that was held. -/
theorem commit_stale {s : Store} (h : s.Formed) {held : Instance} {a : Account}
    (ha : s.account? held.key = some a) (hread : s.Reads held.key) (hv : a.version ≠ held.version)
    (state : String) (entry : HistoryEntry) :
    commit held state entry s = (.error (.error (.stale held)), s) := by
  cases s with
  | memory m =>
    obtain ⟨stored, hstored, rfl⟩ := Option.map_eq_some_iff.1 ha
    exact onEither_memory (MemoryStore.commit_stale hstored hv state entry) _
  | database db =>
    obtain ⟨row, hrow, rfl⟩ := Option.map_eq_some_iff.1 ha
    obtain ⟨i, hi⟩ := hread
    have hcommit := Database.commit_refused (Database.Kept.writable h) hrow hv state entry
    rw [show db.get? held.key = .ok (some i) from hi] at hcommit
    exact onEither_database hcommit _

end Store

end WorkflowRules
