import WorkflowRules.Proofs.Store.Rows

/-!
# Both rows or none

A creation and a commit write the row of an instance and then one row of its history. Others may have
written a row with that number before; then the second statement fails although the first one did not.
Whatever the tables hold, a write that fails leaves them as they were, and no write touches a row of
another key or changes a row of a history.

* `Database.Write` — creations and commits
* `Database.Admits` — when a database takes a write
* `Database.Gains`, `Database.Spares` — the rows that are new, and those that are left alone
* `Database.Write.written_or_untouched` — what a write does to any database
-/

namespace WorkflowRules.Database

/-! ## Writes -/

/-- A creation or a commit. -/
inductive Write where
  | create (d : Definition) (entityId : String) (data : Json) (actorId : Option String)
      (now : Timestamp)
  | commit (held : Instance) (state : String) (entry : HistoryEntry)

namespace Write

def run : Write → Operation Database Instance
  | create d entityId data actorId now => Database.create d entityId data actorId now
  | commit held state entry => Database.commit held state entry

/-- What the instance is found by. -/
def key : Write → InstanceKey
  | create d entityId .. => (d.name, entityId)
  | commit held .. => held.key

/-- What the write gives if it succeeds. -/
def result : Write → Instance
  | create d entityId data _ now => .create d entityId data now
  | commit held state entry => held.moved state (held.version + 1) entry.timestamp

/-- The new row of the history. -/
def entry : Write → HistoryRow
  | create d entityId data actorId now =>
    rowOfEntry ((Instance.create d entityId data now).creationEntry actorId)
  | commit _ _ entry => rowOfEntry entry

end Write

/--
A database takes a write, which gives the instance a row. There must be none before a creation, and one
of the version that is held before a commit. No row of the history may have the number of the new one.
-/
inductive Admits (db : Database) : Write → InstanceRow → Prop
  | create {d : Definition} {entityId : String} (data : Json) (actorId : Option String)
      (now : Timestamp) (writable : db.writable = true)
      (missing : db.instances.get? (d.name, entityId) = none)
      (unnumbered : db.history.get? ((d.name, entityId), 1) = none) :
      Admits db (.create d entityId data actorId now)
        (rowOfInstance (.create d entityId data now))
  | commit {held : Instance} {found : InstanceRow} (state : String) (entry : HistoryEntry)
      (writable : db.writable = true) (stored : db.instances.get? held.key = some found)
      (current : found.version = held.version)
      (unnumbered : db.history.get? (held.key, found.version + 1) = none) :
      Admits db (.commit held state entry) (movedRow found state entry)

variable {db db' : Database} {w : Write} {key : InstanceKey} {row : InstanceRow} {entry : HistoryRow}

/-- The new version is the one that the write tells of. -/
theorem Admits.version (h : db.Admits w row) : row.version = w.result.version := by
  cases h with
  | create => rfl
  | commit state entry _ _ current => exact congrArg (· + 1) current

theorem Admits.get?_history (h : db.Admits w row) :
    db.history.get? (w.key, row.version) = none := by
  cases h with
  | create _ _ _ _ _ unnumbered => exact unnumbered
  | commit _ _ _ _ _ unnumbered => exact unnumbered

theorem Admits.run (h : db.Admits w row) :
    w.run db = (.ok w.result, db.withRows w.key row row.version w.entry) := by
  cases h with
  | create data actorId now writable missing unnumbered =>
    exact create_written writable missing unnumbered data actorId now
  | commit state entry writable stored current unnumbered =>
    exact Operation.bind_ok _ (move_written writable stored current unnumbered state entry)

/-! ## Refusals -/

theorem Write.run_readonly (hw : db.writable = false) (w : Write) :
    ∃ f, w.run db = (.error f, db) := by
  cases w with
  | create d entityId data actorId now => exact create_readonly hw d entityId data actorId now
  | commit held state entry =>
    obtain ⟨f, hmove⟩ := move_readonly hw held state entry
    exact ⟨f, Operation.bind_error _ hmove⟩

/-- A write that a database does not take leaves it as it was. -/
theorem Write.run_refused (refused : ∀ row, ¬ db.Admits w row) : ∃ f, w.run db = (.error f, db) := by
  cases hw : db.writable with
  | false => exact w.run_readonly hw
  | true =>
    cases w with
    | create d entityId data actorId now =>
      rcases create_cases d entityId data actorId now db with herror | ⟨missing, unnumbered, -⟩
      · exact herror
      · exact absurd (.create data actorId now hw missing unnumbered) (refused _)
    | commit held state entry =>
      rcases move_ends held state entry db with
        ⟨f, hmove⟩ | hmove | ⟨row, stored, current, unnumbered, -⟩
      · exact ⟨f, Operation.bind_error _ hmove⟩
      · exact ⟨_, commit_of_not_moved hmove⟩
      · exact absurd (.commit state entry hw stored current unnumbered) (refused _)

/-! ## Rows -/

/-- An instance has a row, its history has one more of that version, and nothing else is different. -/
structure Gains (db db' : Database) (key : InstanceKey) (row : InstanceRow) (entry : HistoryRow) :
    Prop where
  instances : db'.instances = db.instances.insert key row
  history : db'.history.entries = db.history.entries ++ [((key, row.version), entry)]
  definitions : db'.definitions = db.definitions
  rules : db'.rules = db.rules
  writable : db'.writable = db.writable

/-- No row of another key is different, and no row of a history that was there. -/
structure Spares (db db' : Database) (key : InstanceKey) : Prop where
  instances : ∀ other, other ≠ key → db'.instances.get? other = db.instances.get? other
  rows : ∀ other, other ≠ key → db'.rowsOf other = db.rowsOf other
  history : ∀ place found, db.history.get? place = some found → db'.history.get? place = some found

theorem gains_withRows (hnew : db.history.get? (key, row.version) = none) :
    Gains db (db.withRows key row row.version entry) key row entry where
  instances := rfl
  history := Keyed.entries_insert entry hnew
  definitions := rfl
  rules := rfl
  writable := rfl

theorem Gains.spares (h : Gains db db' key row entry) : Spares db db' key where
  instances other hne := by rw [h.instances, Keyed.get?_insert_of_ne _ _ hne]
  rows other hne := by simp [rowsOf, h.history, hne.symm]
  history place found hfound := by
    rw [Keyed.get?_eq_some_iff, h.history]
    exact List.mem_append_left _ (Keyed.get?_eq_some_iff.1 hfound)

theorem Spares.refl (db : Database) (key : InstanceKey) : Spares db db key :=
  ⟨fun _ _ => rfl, fun _ _ => rfl, fun _ _ hfound => hfound⟩

/--
Whatever the tables of a database hold, a write that it takes gives the instance a row, and its history
one more row, with the version of the instance as its number. Any other write fails and leaves the
database as it was. In neither case is a row of another key touched or a row of a history changed.
-/
theorem Write.written_or_untouched (w : Write) (db : Database) :
    ((∃ row, db.Admits w row ∧ row.version = w.result.version ∧ (w.run db).1 = .ok w.result ∧
        Gains db (w.run db).2 w.key row w.entry) ∨
      (∀ row, ¬ db.Admits w row) ∧ ∃ f, w.run db = (.error f, db)) ∧
    Spares db (w.run db).2 w.key := by
  by_cases admitted : ∃ row, db.Admits w row
  · obtain ⟨row, admits⟩ := admitted
    have gains : Gains db (w.run db).2 w.key row w.entry := by
      rw [admits.run]
      exact gains_withRows admits.get?_history
    refine ⟨.inl ⟨row, admits, admits.version, ?_, gains⟩, gains.spares⟩
    rw [admits.run]
  · have refused : ∀ row, ¬ db.Admits w row := not_exists.1 admitted
    obtain ⟨f, hrun⟩ := Write.run_refused refused
    refine ⟨.inr ⟨refused, f, hrun⟩, ?_⟩
    rw [hrun]
    exact .refl db w.key

end WorkflowRules.Database
