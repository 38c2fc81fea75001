import WorkflowRules.Proofs.Json.Fits
import WorkflowRules.Proofs.Store.Cells
import WorkflowRules.Proofs.Store.Commit

/-!
# A database that mirrors a store in memory

A database and a store in memory that have been through the same creations and commits hold the same
instances, the one in rows and the other as values. Whatever a row can give back is then what the
store in memory gives.

* `Database.Mirrors` — the rows of a database are those of the instances of a store in memory
* `Mirrors.create`, `Mirrors.commit` — creations and commits keep it so
* `Mirrors.get?_eq`, `Mirrors.history?_eq`, `Mirrors.list_eq` — reading instances that are legible
* `Mirrors.get?_number` — an instance whose data is a number cannot be read
-/

namespace WorkflowRules

/-! ## Tables and lists -/

namespace Keyed

variable {κ α β : Type} [DecidableEq κ]

/-- What is found under a key is changed as all values are. -/
theorem find_map (f : α → β) (key : κ) (es : List (κ × α)) :
    find key (es.map fun e => (e.1, f e.2)) = (find key es).map f := by
  induction es with
  | nil => rfl
  | cons e rest ih =>
    rw [List.map_cons, find, find, ih]
    split <;> rfl

theorem put_map (f : α → β) (key : κ) (value : α) (es : List (κ × α)) :
    put key (f value) (es.map fun e => (e.1, f e.2)) =
      (put key value es).map fun e => (e.1, f e.2) := by
  induction es with
  | nil => rfl
  | cons e rest ih =>
    rw [List.map_cons, put, put, ih]
    split <;> rfl

end Keyed

theorem map_sortBy {α β : Type} {name : β → String} (f : α → β) (xs : List α) :
    (sortBy (fun x => name (f x)) xs).map f = sortBy name (xs.map f) :=
  List.map_mergeSort fun _ _ _ _ => rfl

/-! ## What can be read back -/

/-- A value that a JSON column gives back. -/
structure Json.Legible (j : Json) : Prop where
  column : Store.isBareNumber j = false
  back : j.ReadsBack

/-- A time that is read from its column as it was written. -/
def Timestamp.ReadsBack (t : Timestamp) : Prop := Timestamp.read t.columnText = .ok t

theorem Timestamp.IsPlain.readsBack {t : Timestamp} (h : t.IsPlain) : t.ReadsBack :=
  read_columnText h

/-- The seconds of the first day of 1970 are read back. -/
theorem Timestamp.readsBack_firstDay {seconds : Int} (h : 0 ≤ seconds ∧ seconds < 86400) :
    Timestamp.ReadsBack ⟨seconds, 0⟩ := by
  have hday : seconds / 86400 = 0 := by omega
  have hplain : Time.isFourDigitDay (seconds / 86400) := by
    rw [hday]
    exact ⟨by decide, by decide⟩
  exact IsPlain.readsBack ⟨hplain, Nat.pow_pos (by decide)⟩

theorem Json.legible_string (s : String) : Json.Legible (.string s) :=
  ⟨rfl, readsBack_of_exact trivial (fits_string _ s)⟩

/-- An instance whose columns give back what was written to them. -/
structure Instance.Legible (i : Instance) : Prop where
  data : i.data.Legible
  createdAt : i.createdAt.ReadsBack
  updatedAt : i.updatedAt.ReadsBack

/-- An entry whose columns give back what was written to them. -/
structure HistoryEntry.Legible (e : HistoryEntry) : Prop where
  context : e.context.Legible
  timestamp : e.timestamp.ReadsBack

/-- A stored instance that a database gives back, with all of its history. -/
structure StoredInstance.Legible (stored : StoredInstance) : Prop where
  current : stored.current.Legible
  history : ∀ e ∈ stored.history, e.Legible

namespace Database

theorem decode_legible {j : Json} (h : j.Legible) : decode .any .any j.print = .ok j := by
  rw [decode, h.back]

theorem decodeTimestamp_readsBack {t : Timestamp} (h : t.ReadsBack) :
    decodeTimestamp t.columnText = .ok t := by
  rw [decodeTimestamp, h]

theorem decode_emptyMetadata :
    decode Metadata.reader Metadata.shape Metadata.empty.toJson.print = .ok Metadata.empty := by
  have hexact : Metadata.empty.toJson.Exact := trivial
  simp only [decode, Json.Reader.ofText, Json.Document.ofText_print hexact]
  rfl

/-- The row of a legible instance gives the instance back. -/
theorem instanceOfRow_rowOfInstance {i : Instance} (h : i.Legible) (hm : i.metadata = .empty) :
    instanceOfRow i.key (rowOfInstance i) = .ok i := by
  have hcell : Store.Cell.ofText Metadata.empty.toJson.print =
      .text Metadata.empty.toJson.print := Store.Cell.ofText_print rfl
  obtain ⟨workflow, entityId, state, version, data, metadata, createdAt, updatedAt⟩ := i
  obtain rfl : metadata = .empty := hm
  simp only [instanceOfRow, rowOfInstance, Store.Cell.ofText_print h.data.column, hcell, fetch, bind,
    Except.bind, decode_legible h.data, decode_emptyMetadata,
    decodeTimestamp_readsBack h.createdAt, decodeTimestamp_readsBack h.updatedAt]
  rfl

/-- The row of an instance whose data is a number cannot be fetched. -/
theorem instanceOfRow_number {i : Instance} (h : Store.isBareNumber i.data = true)
    (key : InstanceKey) : instanceOfRow key (rowOfInstance i) = .error .unreadable := by
  simp only [instanceOfRow, rowOfInstance, Store.Cell.ofText_number h, fetch, bind, Except.bind]

/-- The row of a legible entry gives the entry back. -/
theorem entryOfRow_rowOfEntry {e : HistoryEntry} (h : e.Legible) :
    entryOfRow e.sequence (rowOfEntry e) = .ok e := by
  simp only [entryOfRow, rowOfEntry, Store.Cell.ofText_print h.context.column, fetch, bind,
    Except.bind, decode_legible h.context, decodeTimestamp_readsBack h.timestamp]
  rfl

end Database

/-- A commit to an instance that does not exist. -/
theorem Database.commit_missing {db : Database} (hw : db.writable = true) {held : Instance}
    (h : db.instances.get? held.key = none) (state : String) (entry : HistoryEntry) :
    commit held state entry db = (.error (.error (.instanceNotFound held.key)), db) := by
  have hupdate : updateInstance held.key held.version state (held.version + 1)
      entry.timestamp.columnText db = (.ok false, db) := by
    unfold updateInstance write
    simp [hw, h]
  have hmove : move held state entry db = (.ok false, db) :=
    Operation.atomic_ok (Operation.bind_ok _ hupdate)
  have hget : db.get? held.key = .ok none := by rw [get?, h]
  refine (Operation.bind_ok _ hmove).trans ?_
  simp [Operation.bind_apply, hget]

/-! ## The mirror -/

/-- The history of an instance, which is empty when there is no such instance. -/
def MemoryStore.entries (m : MemoryStore) (key : InstanceKey) : List HistoryEntry :=
  (m.history? key).getD []

namespace MemoryStore

variable {m : MemoryStore} {key : InstanceKey} {stored : StoredInstance}

theorem entries_of_get? (h : m.instances.get? key = some stored) :
    m.entries key = stored.history := by
  rw [entries, history?, h]
  rfl

theorem entries_of_missing (h : m.instances.get? key = none) : m.entries key = [] := by
  rw [entries, history?, h]
  rfl

theorem entries_insert_self (m : MemoryStore) (key : InstanceKey) (stored : StoredInstance) :
    entries ⟨m.instances.insert key stored⟩ key = stored.history :=
  entries_of_get? (Keyed.get?_insert_self _ _ _)

theorem entries_insert_of_ne (m : MemoryStore) {other : InstanceKey} (h : other ≠ key)
    (stored : StoredInstance) : entries ⟨m.instances.insert key stored⟩ other = m.entries other := by
  rw [entries, history?, Keyed.get?_insert_of_ne _ _ h]
  rfl

end MemoryStore

/-- A database that holds in its rows what a store in memory holds. -/
structure Database.Mirrors (m : MemoryStore) (db : Database) : Prop where
  kept : db.Kept
  keyed : ∀ key stored, m.instances.get? key = some stored → stored.current.key = key
  metadata : ∀ key stored, m.instances.get? key = some stored → stored.current.metadata = .empty
  instances : db.instances.entries =
    m.instances.entries.map fun e => (e.1, Database.rowOfInstance e.2.current)
  history : ∀ key, db.rowsOf key = (m.entries key).map fun e => (e.sequence, Database.rowOfEntry e)

namespace Database.Mirrors

variable {m : MemoryStore} {db : Database}

/-- Two empty stores mirror each other. -/
theorem empty : Mirrors .empty .empty where
  kept := .empty
  keyed _ _ h := by cases h
  metadata _ _ h := by cases h
  instances := rfl
  history _ := rfl

theorem get?_instances (h : Mirrors m db) (key : InstanceKey) :
    db.instances.get? key = (m.instances.get? key).map fun stored => rowOfInstance stored.current := by
  rw [Keyed.get?, h.instances, Keyed.find_map fun stored : StoredInstance =>
    rowOfInstance stored.current]
  rfl

/-- One more entry for an instance, in both stores. -/
theorem withRows (h : Mirrors m db) (key : InstanceKey) (current : Instance) (entry : HistoryEntry)
    (hkey : current.key = key) (hmetadata : current.metadata = .empty)
    (hversion : current.version = entry.sequence)
    (hsequence : entry.sequence = (m.entries key).length + 1) :
    Mirrors ⟨m.instances.insert key ⟨current, m.entries key ++ [entry]⟩⟩
      (db.withRows key (rowOfInstance current) entry.sequence (rowOfEntry entry)) := by
  have hrows : entry.sequence = (db.rowsOf key).length + 1 := by
    rw [h.history, List.length_map, hsequence]
  -- the numbers of the entries have no gaps, so the next one is free
  have hnew : db.history.get? (key, entry.sequence) = none := h.kept.get?_history (by omega)
  refine ⟨h.kept.withRows hrows hversion _, fun other stored hs => ?_, fun other stored hs => ?_, ?_,
    fun other => ?_⟩
  · rcases Keyed.get?_insert_eq_some hs with ⟨rfl, rfl⟩ | ⟨-, hs⟩
    · exact hkey
    · exact h.keyed other stored hs
  · rcases Keyed.get?_insert_eq_some hs with ⟨rfl, rfl⟩ | ⟨-, hs⟩
    · exact hmetadata
    · exact h.metadata other stored hs
  · show Keyed.put key _ db.instances.entries = (Keyed.put key _ m.instances.entries).map _
    rw [h.instances, ← Keyed.put_map fun stored : StoredInstance => rowOfInstance stored.current]
  · by_cases hother : other = key
    · subst hother
      rw [rowsOf_withRows hnew, h.history, MemoryStore.entries_insert_self]
      simp
    · rw [rowsOf_withRows_of_ne hother hnew, h.history, MemoryStore.entries_insert_of_ne _ hother]

/-- The version of an instance is the number of its entries. -/
theorem version_eq (h : Mirrors m db) {key : InstanceKey} {stored : StoredInstance}
    (hs : m.instances.get? key = some stored) : stored.current.version = stored.history.length := by
  have hrow := h.get?_instances key
  rw [hs] at hrow
  have hversion := h.kept.version key _ hrow
  rwa [h.history, List.length_map, MemoryStore.entries_of_get? hs] at hversion

/-! ## Creations and commits -/

/-- A creation answers alike on both stores and keeps the mirror. -/
theorem create (h : Mirrors m db) (d : Definition) (entityId : String) (data : Json)
    (actorId : Option String) (now : Timestamp) :
    (MemoryStore.create d entityId data actorId now m).1 =
        (Database.create d entityId data actorId now db).1 ∧
      Mirrors (MemoryStore.create d entityId data actorId now m).2
        (Database.create d entityId data actorId now db).2 := by
  have hrow := h.get?_instances (d.name, entityId)
  cases hm : m.instances.get? (d.name, entityId) with
  | some stored =>
    rw [hm] at hrow
    rw [MemoryStore.create_taken hm, Database.create_taken h.kept.writable hrow]
    exact ⟨rfl, h⟩
  | none =>
    rw [hm] at hrow
    rw [MemoryStore.create_new hm, Database.create_new h.kept hrow]
    have hentries := MemoryStore.entries_of_missing hm
    have hmirror := h.withRows (d.name, entityId) (Instance.create d entityId data now)
      ((Instance.create d entityId data now).creationEntry actorId) rfl rfl rfl
      (by rw [hentries]; rfl)
    rw [hentries] at hmirror
    exact ⟨rfl, hmirror⟩

/-- What a commit answers on both stores when the version that is held is the one that is stored. -/
theorem commit_held (h : Mirrors m db) {held : Instance} {stored : StoredInstance}
    (hs : m.instances.get? held.key = some stored) (hv : stored.current.version = held.version)
    (state : String) (entry : HistoryEntry) :
    (MemoryStore.commit held state entry m).1 =
        .ok (stored.current.moved state (held.version + 1) entry.timestamp) ∧
      (Database.commit held state entry db).1 =
        .ok (held.moved state (held.version + 1) entry.timestamp) ∧
      Mirrors (MemoryStore.commit held state entry m).2 (Database.commit held state entry db).2 := by
  have hrow := h.get?_instances held.key
  rw [hs] at hrow
  rw [MemoryStore.commit_held hs hv, Database.commit_held h.kept hrow hv]
  have hentries := MemoryStore.entries_of_get? hs
  have hmirror := h.withRows held.key
    (stored.current.moved state (held.version + 1) entry.timestamp)
    { entry with sequence := held.version + 1 } (h.keyed _ _ hs) (h.metadata _ _ hs) rfl
    (by rw [hentries, ← h.version_eq hs, hv])
  rw [hentries] at hmirror
  -- the row is changed in place, where the store in memory changes the instance it has
  have hmoved : movedRow (rowOfInstance stored.current) state entry =
      rowOfInstance (stored.current.moved state (held.version + 1) entry.timestamp) := by
    rw [← hv]
    rfl
  refine ⟨rfl, rfl, ?_⟩
  rw [hmoved, show (rowOfInstance stored.current).version = held.version from hv]
  exact hmirror

/-- A commit keeps the mirror, whatever instance is held. -/
theorem commit (h : Mirrors m db) (held : Instance) (state : String) (entry : HistoryEntry) :
    Mirrors (MemoryStore.commit held state entry m).2 (Database.commit held state entry db).2 := by
  have hrow := h.get?_instances held.key
  cases hs : m.instances.get? held.key with
  | none =>
    rw [hs] at hrow
    rw [MemoryStore.commit_missing hs, Database.commit_missing h.kept.writable hrow]
    exact h
  | some stored =>
    by_cases hv : stored.current.version = held.version
    · exact (h.commit_held hs hv state entry).2.2
    · rw [hs] at hrow
      rw [MemoryStore.commit_stale hs hv, Database.commit_refused h.kept.writable hrow hv]
      exact h

/-! ## Reading -/

/-- A legible instance is read as it is. -/
theorem get?_eq (h : Mirrors m db) {key : InstanceKey}
    (legible : ∀ i, m.get? key = some i → i.Legible) : db.get? key = .ok (m.get? key) := by
  have hrow := h.get?_instances key
  rw [Database.get?, hrow, MemoryStore.get?]
  cases hs : m.instances.get? key with
  | none => rfl
  | some stored =>
    have hi : m.get? key = some stored.current := by rw [MemoryStore.get?, hs, Option.map_some]
    have hread := instanceOfRow_rowOfInstance (legible _ hi) (h.metadata _ _ hs)
    rw [h.keyed _ _ hs] at hread
    simp only [Option.map_some, hread]
    rfl

/-- An instance whose data is a number cannot be read. -/
theorem get?_number (h : Mirrors m db) {key : InstanceKey} {i : Instance} (hi : m.get? key = some i)
    (hnumber : Store.isBareNumber i.data = true) : db.get? key = .error .unreadable := by
  obtain ⟨stored, hs, rfl⟩ := Option.map_eq_some_iff.1 hi
  have hrow := h.get?_instances key
  rw [hs, Option.map_some] at hrow
  rw [Database.get?, hrow]
  simp only [instanceOfRow_number hnumber]
  rfl

/-- The history of an instance is read as it is, if the instance and all entries are legible. -/
theorem history?_eq (h : Mirrors m db) {key : InstanceKey}
    (legible : ∀ stored, m.instances.get? key = some stored → stored.Legible) :
    db.history? key = .ok (m.history? key) := by
  have hget : db.get? key = .ok (m.get? key) := h.get?_eq fun i hi => by
    obtain ⟨stored, hs, rfl⟩ := Option.map_eq_some_iff.1 hi
    exact (legible stored hs).current
  rw [Database.history?, hget]
  cases hs : m.instances.get? key with
  | none =>
    rw [MemoryStore.get?, MemoryStore.history?, hs]
    rfl
  | some stored =>
    have hrows : db.historyRows key = stored.history.map fun e => (e.sequence, rowOfEntry e) := by
      rw [h.kept.historyRows_eq, h.history, MemoryStore.entries_of_get? hs]
    have hread : (stored.history.map fun e => (e.sequence, rowOfEntry e)).mapM
        (fun e => entryOfRow e.1 e.2) = .ok stored.history := by
      exact mapM_map_ok fun e he => entryOfRow_rowOfEntry ((legible stored hs).history e he)
    rw [MemoryStore.get?, MemoryStore.history?, hs, Option.map_some, Option.map_some]
    simp only [bind, Except.bind, hrows, hread]
    rfl

/-- The rows of the instances of a workflow. -/
theorem rows_eq (h : Mirrors m db) (workflow : String) :
    db.instances.entries.filter (·.1.1 = workflow) =
      ((m.instances.entries.filter (·.1.1 = workflow)).map (·.2.current)).map
        fun i => (i.key, rowOfInstance i) := by
  rw [h.instances, List.filter_map, List.map_map]
  refine List.map_congr_left fun e he => ?_
  have hs : m.instances.get? e.1 = some e.2 := Keyed.get?_eq_some_iff.2 (List.mem_filter.1 he).1
  simp [h.keyed _ _ hs]

/-- The instances of a workflow are listed as they are, if all of them are legible. -/
theorem list_eq (h : Mirrors m db) {workflow : String}
    (legible : ∀ key stored, m.instances.get? key = some stored → key.1 = workflow →
      stored.current.Legible) :
    db.list workflow = .ok (m.list workflow) := by
  have hsorted : sortBy (·.1.2) (db.instances.entries.filter (·.1.1 = workflow)) =
      (m.list workflow).map fun i => (i.key, rowOfInstance i) := by
    rw [h.rows_eq, ← map_sortBy]
    rfl
  rw [Database.list, hsorted]
  refine mapM_map_ok fun i hi => ?_
  obtain ⟨e, he, rfl⟩ := List.mem_map.1 (List.mem_mergeSort.1 hi)
  obtain ⟨hmem, hworkflow⟩ := List.mem_filter.1 he
  have hs : m.instances.get? e.1 = some e.2 := Keyed.get?_eq_some_iff.2 hmem
  exact instanceOfRow_rowOfInstance (legible _ _ hs (of_decide_eq_true hworkflow))
    (h.metadata _ _ hs)

end Database.Mirrors

end WorkflowRules
