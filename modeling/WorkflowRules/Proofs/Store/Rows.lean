import WorkflowRules.Proofs.Store.Account

/-!
# The rows of a database

In a database that only creations and commits have written to, the rows of a history are numbered
without a gap, and the version of an instance is the number of its rows.

* `Database.Kept` — such databases
* `Database.create_new`, `Database.commit_held`, `Database.commit_refused` — what a creation and a
  commit do to one
* `Database.create_cases`, `Database.move_ends` — what they can do to any database
-/

namespace WorkflowRules.Database

/-- The rows of a history in the order in which they were inserted. -/
def rowsOf (db : Database) (key : InstanceKey) : List (Int × HistoryRow) :=
  (db.history.entries.filter (·.1.1 = key)).map fun e => (e.1.2, e.2)

/-- The rows of an instance are the rows of the history that have its key. -/
theorem mem_rowsOf {db : Database} {key : InstanceKey} {sequence : Int} {row : HistoryRow} :
    (sequence, row) ∈ db.rowsOf key ↔ db.history.get? (key, sequence) = some row := by
  rw [Keyed.get?_eq_some_iff, rowsOf, List.mem_map]
  constructor
  · rintro ⟨⟨⟨other, n⟩, found⟩, hmem, heq⟩
    obtain ⟨rfl, rfl⟩ := Prod.mk.inj heq
    obtain ⟨hmem, hkey⟩ := List.mem_filter.1 hmem
    rw [← of_decide_eq_true hkey]
    exact hmem
  · exact fun hmem => ⟨((key, sequence), row), List.mem_filter.2 ⟨hmem, by simp⟩, rfl⟩

/-- The rows are fetched in the order of their sequences, but none is left out. -/
theorem historyRows_perm (db : Database) (key : InstanceKey) :
    (db.historyRows key).Perm (db.rowsOf key) :=
  List.mergeSort_perm _ _

/-- A database with histories as creations and commits write them. -/
structure Kept (db : Database) : Prop where
  writable : db.writable = true
  numbered : ∀ key, (db.rowsOf key).map (·.1) = numbered (db.rowsOf key).length
  version : ∀ key row, db.instances.get? key = some row → row.version = (db.rowsOf key).length
  /-- An instance that does not exist has no history. -/
  missing : ∀ key, db.instances.get? key = none → db.rowsOf key = []

theorem Kept.empty : Kept .empty where
  writable := rfl
  numbered _ := rfl
  version _ _ h := by cases h
  missing _ _ := rfl

variable {db : Database}

/-- The rows are fetched in the order in which they were inserted. -/
theorem Kept.historyRows_eq (h : db.Kept) (key : InstanceKey) :
    db.historyRows key = db.rowsOf key := by
  refine List.mergeSort_of_pairwise ?_
  have hn : ((db.rowsOf key).map (·.1)).Pairwise (· < ·) := by
    rw [h.numbered]
    exact pairwise_numbered _
  refine (List.pairwise_map.1 hn).imp fun hlt => ?_
  exact decide_eq_true (Int.le_of_lt hlt)

/-- No row has a number beyond the number of rows. -/
theorem Kept.get?_history (h : db.Kept) {key : InstanceKey} {sequence : Int}
    (hs : (db.rowsOf key).length < sequence) : db.history.get? (key, sequence) = none := by
  cases hrow : db.history.get? (key, sequence) with
  | none => rfl
  | some row =>
    have hnumber := List.mem_map_of_mem (f := (·.1)) (mem_rowsOf.2 hrow)
    rw [h.numbered] at hnumber
    have := mem_numbered.1 hnumber
    omega

/-- A database with another instance row and one more row of its history. -/
def withRows (db : Database) (key : InstanceKey) (row : InstanceRow) (sequence : Int)
    (entry : HistoryRow) : Database :=
  { db with
    instances := db.instances.insert key row
    history := db.history.insert (key, sequence) entry }

theorem rowsOf_withRows {key : InstanceKey} {sequence : Int}
    (hnew : db.history.get? (key, sequence) = none) (row : InstanceRow) (entry : HistoryRow) :
    (db.withRows key row sequence entry).rowsOf key = db.rowsOf key ++ [(sequence, entry)] := by
  simp [rowsOf, withRows, Keyed.entries_insert entry hnew]

theorem rowsOf_withRows_of_ne {key other : InstanceKey} {sequence : Int} (hne : other ≠ key)
    (hnew : db.history.get? (key, sequence) = none) (row : InstanceRow) (entry : HistoryRow) :
    (db.withRows key row sequence entry).rowsOf other = db.rowsOf other := by
  simp [rowsOf, withRows, Keyed.entries_insert entry hnew, hne.symm]

/-- The next row of a history and an instance row of that version keep a database as it has to be. -/
theorem Kept.withRows (h : db.Kept) {key : InstanceKey} {row : InstanceRow} {sequence : Int}
    (hs : sequence = (db.rowsOf key).length + 1) (hv : row.version = sequence)
    (entry : HistoryRow) : (db.withRows key row sequence entry).Kept := by
  have hnew : db.history.get? (key, sequence) = none := h.get?_history (by omega)
  have hself := rowsOf_withRows hnew row entry
  have hother {other : InstanceKey} (hne : other ≠ key) :=
    rowsOf_withRows_of_ne hne hnew row entry
  -- each of the three facts is about one history, which is the one that has grown or another one
  refine ⟨h.writable, fun other => ?_, fun other row' hrow => ?_, fun other hmissing => ?_⟩
  · by_cases hkey : other = key
    · subst hkey
      rw [hself, List.map_append, h.numbered, List.length_append, List.length_singleton,
        numbered_succ, List.map_singleton, hs]
    · rw [hother hkey, h.numbered]
  · rcases Keyed.get?_insert_eq_some hrow with ⟨rfl, rfl⟩ | ⟨hkey, hrow⟩
    · rw [hself, List.length_append, List.length_singleton, hv, hs]
      rfl
    · rw [hother hkey]
      exact h.version other row' hrow
  · by_cases hkey : other = key
    · subst hkey
      cases (Keyed.get?_insert_self _ _ _).symm.trans hmissing
    · rw [hother hkey]
      exact h.missing other ((Keyed.get?_insert_of_ne _ _ hkey).symm.trans hmissing)

/-! ## Statements -/

section Statements

variable {key : InstanceKey} (hw : db.writable = true)
include hw

theorem insertInstance_new (h : db.instances.get? key = none) (row : InstanceRow) :
    insertInstance key row db = (.ok true, { db with instances := db.instances.insert key row }) := by
  unfold insertInstance write
  simp [hw, Keyed.contains_eq_false h]

theorem insertInstance_taken {held : InstanceRow} (h : db.instances.get? key = some held)
    (row : InstanceRow) : insertInstance key row db = (.ok false, db) := by
  unfold insertInstance write
  simp [hw, Keyed.contains_eq_true h]

theorem insertHistory_new {sequence : Int} (h : db.history.get? (key, sequence) = none)
    (row : HistoryRow) :
    insertHistory key sequence row db =
      (.ok (), { db with history := db.history.insert (key, sequence) row }) := by
  unfold insertHistory write
  simp [hw, Keyed.contains_eq_false h]

/-- A row of the expected version is updated. -/
theorem updateInstance_held {row : InstanceRow} (h : db.instances.get? key = some row)
    (state : String) (version : Int) (updatedAt : String) :
    updateInstance key row.version state version updatedAt db =
      (.ok true,
        { db with instances := db.instances.insert key { row with state, version, updatedAt } }) := by
  unfold updateInstance write
  simp [hw, h]

theorem updateInstance_stale {row : InstanceRow} (h : db.instances.get? key = some row)
    {held : Int} (hv : row.version ≠ held) (state : String) (version : Int) (updatedAt : String) :
    updateInstance key held state version updatedAt db = (.ok false, db) := by
  unfold updateInstance write
  simp [hw, h, hv]

theorem updateInstance_missing (h : db.instances.get? key = none) (held : Int) (state : String)
    (version : Int) (updatedAt : String) :
    updateInstance key held state version updatedAt db = (.ok false, db) := by
  unfold updateInstance write
  simp [hw, h]

theorem insertHistory_taken {sequence : Int} (h : db.history.contains (key, sequence) = true)
    (row : HistoryRow) :
    insertHistory key sequence row db = (.error (.error duplicateEntry), db) := by
  unfold insertHistory write
  simp [hw, h]

end Statements

theorem write_refused {α : Type} (hw : db.writable = false) (statement : Operation Database α) :
    write statement db =
      (.error (.error (refused 8 "attempt to write a readonly database")), db) := by
  simp [write, hw]

/-! ## Creations and commits -/

theorem create_readonly (hw : db.writable = false) (d : Definition) (entityId : String) (data : Json)
    (actorId : Option String) (now : Timestamp) :
    ∃ f, create d entityId data actorId now db = (.error f, db) :=
  ⟨_, Operation.atomic_error (Operation.bind_error _ (write_refused hw _))⟩

theorem move_readonly (hw : db.writable = false) (held : Instance) (state : String)
    (entry : HistoryEntry) : ∃ f, move held state entry db = (.error f, db) :=
  ⟨_, Operation.atomic_error (Operation.bind_error _ (write_refused hw _))⟩

theorem create_taken (hw : db.writable = true) {d : Definition} {entityId : String}
    {held : InstanceRow} (h : db.instances.get? (d.name, entityId) = some held) (data : Json)
    (actorId : Option String) (now : Timestamp) :
    create d entityId data actorId now db =
      (.error (.error (.instanceExists (d.name, entityId))), db) :=
  Operation.atomic_error (Operation.bind_ok _ (insertInstance_taken hw h _))

/-- A creation writes both rows of a new instance without a first entry. -/
theorem create_written (hw : db.writable = true) {d : Definition} {entityId : String}
    (h : db.instances.get? (d.name, entityId) = none)
    (hnew : db.history.get? ((d.name, entityId), 1) = none) (data : Json) (actorId : Option String)
    (now : Timestamp) :
    create d entityId data actorId now db =
      (.ok (.create d entityId data now),
        db.withRows (d.name, entityId) (rowOfInstance (.create d entityId data now)) 1
          (rowOfEntry ((Instance.create d entityId data now).creationEntry actorId))) := by
  refine Operation.atomic_ok ((Operation.bind_ok _ (insertInstance_new hw h _)).trans ?_)
  refine Operation.bind_ok _ (insertHistory_new ?_ ?_ _)
  · exact hw
  · exact hnew

/-- A creation writes both rows of a new instance. -/
theorem create_new (hk : db.Kept) {d : Definition} {entityId : String}
    (h : db.instances.get? (d.name, entityId) = none) (data : Json) (actorId : Option String)
    (now : Timestamp) :
    create d entityId data actorId now db =
      (.ok (.create d entityId data now),
        db.withRows (d.name, entityId) (rowOfInstance (.create d entityId data now)) 1
          (rowOfEntry ((Instance.create d entityId data now).creationEntry actorId))) := by
  have hnew : db.history.get? ((d.name, entityId), 1) = none :=
    hk.get?_history (by rw [hk.missing _ h]; exact Int.zero_lt_one)
  exact create_written hk.writable h hnew data actorId now

/-- A first row without an instance stands in the way of a creation, which takes its row back. -/
theorem create_numbered (hw : db.writable = true) {d : Definition} {entityId : String}
    {other : HistoryRow} (h : db.instances.get? (d.name, entityId) = none)
    (hother : db.history.get? ((d.name, entityId), 1) = some other) (data : Json)
    (actorId : Option String) (now : Timestamp) :
    create d entityId data actorId now db = (.error (.error duplicateEntry), db) := by
  refine @Operation.atomic_error _ _ _ _ ?after _
    ((Operation.bind_ok _ (insertInstance_new hw h _)).trans (Operation.bind_error _ ?taken))
  case taken =>
    refine insertHistory_taken ?_ ?_ _
    · exact hw
    · exact Keyed.contains_eq_true hother

/-- Whatever the tables hold, a creation writes nothing, or both rows of a new instance. -/
theorem create_cases (d : Definition) (entityId : String) (data : Json) (actorId : Option String)
    (now : Timestamp) (db : Database) :
    (∃ f, create d entityId data actorId now db = (.error f, db)) ∨
      db.instances.get? (d.name, entityId) = none ∧
        db.history.get? ((d.name, entityId), 1) = none ∧
        create d entityId data actorId now db =
          (.ok (.create d entityId data now),
            db.withRows (d.name, entityId) (rowOfInstance (.create d entityId data now)) 1
              (rowOfEntry ((Instance.create d entityId data now).creationEntry actorId))) := by
  cases hw : db.writable with
  | false => exact .inl (create_readonly hw d entityId data actorId now)
  | true =>
    cases h : db.instances.get? (d.name, entityId) with
    | some held => exact .inl ⟨_, create_taken hw h data actorId now⟩
    | none =>
      cases hnew : db.history.get? ((d.name, entityId), 1) with
      | some other => exact .inl ⟨_, create_numbered hw h hnew data actorId now⟩
      | none => exact .inr ⟨rfl, rfl, create_written hw h hnew data actorId now⟩

/-- The instance row after a commit. -/
def movedRow (row : InstanceRow) (state : String) (entry : HistoryEntry) : InstanceRow :=
  { row with state, version := row.version + 1, updatedAt := entry.timestamp.columnText }

/-- A move of the version that is stored writes the next row of the history, if there is none yet. -/
theorem move_written (hw : db.writable = true) {held : Instance} {row : InstanceRow}
    (h : db.instances.get? held.key = some row) (hv : row.version = held.version)
    (hnew : db.history.get? (held.key, row.version + 1) = none) (state : String)
    (entry : HistoryEntry) :
    move held state entry db =
      (.ok true,
        db.withRows held.key (movedRow row state entry) (row.version + 1) (rowOfEntry entry)) := by
  unfold move
  rw [← hv]
  refine Operation.atomic_ok ((Operation.bind_ok _ (updateInstance_held hw h _ _ _)).trans ?_)
  refine Operation.bind_ok _ (insertHistory_new ?_ ?_ _)
  · exact hw
  · exact hnew

/-- A row with the next number stands in the way of a move, which takes its change back. -/
theorem move_numbered (hw : db.writable = true) {held : Instance} {row : InstanceRow}
    {other : HistoryRow} (h : db.instances.get? held.key = some row) (hv : row.version = held.version)
    (hother : db.history.get? (held.key, row.version + 1) = some other) (state : String)
    (entry : HistoryEntry) :
    move held state entry db = (.error (.error duplicateEntry), db) := by
  unfold move
  rw [← hv]
  refine @Operation.atomic_error _ _ _ _ ?after _
    ((Operation.bind_ok _ (updateInstance_held hw h _ _ _)).trans (Operation.bind_error _ ?taken))
  case taken =>
    refine insertHistory_taken ?_ ?_ _
    · exact hw
    · exact Keyed.contains_eq_true hother

/-- A commit of the version that is stored writes the next row of the history. -/
theorem commit_held (hk : db.Kept) {held : Instance} {row : InstanceRow}
    (h : db.instances.get? held.key = some row) (hv : row.version = held.version) (state : String)
    (entry : HistoryEntry) :
    commit held state entry db =
      (.ok (held.moved state (held.version + 1) entry.timestamp),
        db.withRows held.key (movedRow row state entry) (row.version + 1) (rowOfEntry entry)) := by
  have hnew : db.history.get? (held.key, row.version + 1) = none :=
    hk.get?_history (by rw [hk.version _ _ h]; omega)
  exact Operation.bind_ok _ (move_written hk.writable h hv hnew state entry)

/-- A commit that has moved nothing is refused, whatever it then reads. -/
theorem commit_of_not_moved {held : Instance} {state : String} {entry : HistoryEntry}
    (h : move held state entry db = (.ok false, db)) :
    commit held state entry db =
      (.error (match db.get? held.key with
        | .ok (some _) => .error (.stale held)
        | .ok none => .error (.instanceNotFound held.key)
        | .error f => f), db) := by
  refine (Operation.bind_ok _ h).trans ?_
  rcases hget : db.get? held.key with f | (_ | i) <;> simp [Operation.bind_apply, hget]

/-- A commit of another version than the one that is stored changes nothing. -/
theorem commit_refused (hw : db.writable = true) {held : Instance} {row : InstanceRow}
    (h : db.instances.get? held.key = some row) (hv : row.version ≠ held.version) (state : String)
    (entry : HistoryEntry) :
    commit held state entry db =
      (.error (match db.get? held.key with
        | .ok (some _) => .error (.stale held)
        | .ok none => .error (.instanceNotFound held.key)
        | .error f => f), db) :=
  commit_of_not_moved (Operation.atomic_ok (Operation.bind_ok _ (updateInstance_stale hw h hv _ _ _)))

/--
Whatever the tables hold, a move is refused, finds no instance of the version that is held, or writes
the next row of that version.
-/
theorem move_ends (held : Instance) (state : String) (entry : HistoryEntry) (db : Database) :
    (∃ f, move held state entry db = (.error f, db)) ∨ move held state entry db = (.ok false, db) ∨
      ∃ row, db.instances.get? held.key = some row ∧ row.version = held.version ∧
        db.history.get? (held.key, row.version + 1) = none ∧
        move held state entry db =
          (.ok true,
            db.withRows held.key (movedRow row state entry) (row.version + 1) (rowOfEntry entry)) := by
  cases hw : db.writable with
  | false => exact .inl (move_readonly hw held state entry)
  | true =>
    cases h : db.instances.get? held.key with
    | none =>
      have hmissing := updateInstance_missing hw h held.version state (held.version + 1)
      exact .inr (.inl (Operation.atomic_ok (Operation.bind_ok _ (hmissing _))))
    | some row =>
      by_cases hv : row.version = held.version
      · cases hnew : db.history.get? (held.key, row.version + 1) with
        | none => exact .inr (.inr ⟨row, rfl, hv, hnew, move_written hw h hv hnew state entry⟩)
        | some other => exact .inl ⟨_, move_numbered hw h hv hnew state entry⟩
      · have hstale := updateInstance_stale hw h hv state (held.version + 1)
        exact .inr (.inl (Operation.atomic_ok (Operation.bind_ok _ (hstale _))))

/-- A move writes nothing, or the next row of the version that is held. -/
theorem move_cases (held : Instance) (state : String) (entry : HistoryEntry) (db : Database) :
    (move held state entry db).2 = db ∨
      ∃ row, db.instances.get? held.key = some row ∧ row.version = held.version ∧
        db.history.get? (held.key, row.version + 1) = none ∧
        (move held state entry db).2 =
          db.withRows held.key (movedRow row state entry) (row.version + 1) (rowOfEntry entry) := by
  rcases move_ends held state entry db with ⟨f, hmove⟩ | hmove | ⟨row, hrow, hv, hnew, hmove⟩
  · exact .inl (congrArg Prod.snd hmove)
  · exact .inl (congrArg Prod.snd hmove)
  · exact .inr ⟨row, hrow, hv, hnew, congrArg Prod.snd hmove⟩

/-- A commit writes what the move writes. -/
theorem commit_state (held : Instance) (state : String) (entry : HistoryEntry) (db : Database) :
    (commit held state entry db).2 = (move held state entry db).2 := by
  unfold commit
  rw [Operation.bind_apply]
  rcases move held state entry db with ⟨f | (_ | _), db'⟩
  · rfl
  · simp only [Operation.bind_apply, Operation.viewExcept_apply, Bool.false_eq_true, if_false]
    rcases db'.get? held.key with f | (_ | i) <;> rfl
  · rfl

end WorkflowRules.Database
