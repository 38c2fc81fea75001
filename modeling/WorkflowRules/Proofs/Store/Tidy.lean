import WorkflowRules.Proofs.Store.Commit

/-!
# Accounts in tidy stores

What a commit does to the accounts of a store can be told whatever the store holds, also when others
have written to its tables. A creation needs a tidy store: an entry that belongs to no instance would
become one of a new instance of that key.

* `Store.Extends` — one account has got one more entry
* `Store.commit_cases` — a commit does that, or nothing
* `Store.create_opens` — a creation on a tidy store
* `Store.toState_history?` — reading a history
-/

namespace WorkflowRules

namespace Store

/-! ## Rows -/

section

variable {db : Database} {key : InstanceKey} {sequence : Int} {row : InstanceRow}
  (hnew : db.history.get? (key, sequence) = none)
include hnew

theorem account?_withRows_of_ne {other : InstanceKey} (hne : other ≠ key) (entry : HistoryRow) :
    (Store.database (db.withRows key row sequence entry)).account? other =
      (Store.database db).account? other := by
  have hrow : (db.withRows key row sequence entry).instances.get? other = db.instances.get? other :=
    Keyed.get?_insert_of_ne _ _ hne
  have hhistory : (db.withRows key row sequence entry).historyRows other = db.historyRows other :=
    congrArg (List.mergeSort · _) (Database.rowsOf_withRows_of_ne hne hnew row entry)
  rw [account?, account?, hrow, hhistory]

/-- The new row is one of the history, wherever its number puts it. -/
theorem account?_withRows (row : InstanceRow) (entry : HistoryRow) :
    ∃ a, (Store.database (db.withRows key row sequence entry)).account? key = some a ∧
      a.state = row.state ∧ a.version = row.version ∧
      a.history.Perm
        (((db.historyRows key).map fun r => Written.row r.1 r.2) ++ [.row sequence entry]) := by
  have hrow : (db.withRows key row sequence entry).instances.get? key = some row :=
    Keyed.get?_insert_self _ _ _
  refine ⟨_, by rw [account?, hrow, Option.map_some], rfl, rfl, ?_⟩
  have hrows : ((db.withRows key row sequence entry).historyRows key).Perm
      (db.historyRows key ++ [(sequence, entry)]) := by
    refine (Database.historyRows_perm _ _).trans ?_
    rw [Database.rowsOf_withRows hnew]
    exact (Database.historyRows_perm db key).symm.append_right _
  have hwritten := hrows.map fun r => Written.row r.1 r.2
  rw [List.map_append] at hwritten
  exact hwritten

theorem Tidy.withRows (h : Tidy (.database db)) (entry : HistoryRow) :
    Tidy (.database (db.withRows key row sequence entry)) := by
  intro other hother
  have hne : other ≠ key := by
    rintro rfl
    cases (Keyed.get?_insert_self _ _ _).symm.trans hother
  rw [Database.rowsOf_withRows_of_ne hne hnew]
  exact h other ((Keyed.get?_insert_of_ne _ _ hne).symm.trans hother)

/-- The rows of an instance that was there do not make a database tidy. -/
theorem Tidy.of_withRows {held : InstanceRow} (hheld : db.instances.get? key = some held)
    {entry : HistoryRow} (h : Tidy (.database (db.withRows key row sequence entry))) :
    Tidy (.database db) := by
  intro other hother
  have hne : other ≠ key := by
    rintro rfl
    cases hheld.symm.trans hother
  rw [← Database.rowsOf_withRows_of_ne hne hnew row entry]
  exact h other ((Keyed.get?_insert_of_ne _ _ hne).trans hother)

end

/-! ## Commits -/

/-- An account has got one more entry, and the other accounts are as they were. -/
structure Extends (s s' : Store) (key : InstanceKey) (a a' : Account) (w : Written) : Prop where
  before : s.account? key = some a
  after : s'.account? key = some a'
  version : a'.version = a.version + 1
  history : a'.history.Perm (a.history ++ [w])
  others : ∀ other, other ≠ key → s'.account? other = s.account? other

/-- A commit leaves a store as it is, or it adds one entry to the account of the version held. -/
theorem commit_cases (held : Instance) (state : String) (entry : HistoryEntry) (s : Store) :
    (commit held state entry s).2 = s ∨
      ∃ a a' w, Extends s (commit held state entry s).2 held.key a a' w ∧
        a.version = held.version ∧ a'.state = state ∧ w.toState = entry.toState := by
  -- one store counts versions in the instance, the other in the row and in the number of its entry
  cases s with
  | memory m =>
    rcases MemoryStore.commit_cases held state entry m with hsame | ⟨stored, hstored, hv, hnext⟩
    · exact .inl (congrArg Store.memory hsame)
    · have hstate : (commit held state entry (.memory m)).2 =
          .memory ⟨m.instances.insert held.key (stored.commit (held.version + 1) state entry)⟩ :=
        congrArg Store.memory hnext
      rw [hstate]
      refine .inr ⟨stored.account, (stored.commit (held.version + 1) state entry).account,
        .entry { entry with sequence := held.version + 1 }, ⟨?_, ?_, ?_, ?_, ?_⟩, hv, rfl, rfl⟩
      · rw [account?, hstored, Option.map_some]
      · rw [account?, Keyed.get?_insert_self, Option.map_some]
      · exact congrArg (· + 1) hv.symm
      · simp [StoredInstance.account, StoredInstance.commit]
      · intro other hne
        rw [account?, account?, Keyed.get?_insert_of_ne _ _ hne]
  | database db =>
    have hstate : (commit held state entry (.database db)).2 =
        .database (Database.move held state entry db).2 :=
      congrArg Store.database (Database.commit_state held state entry db)
    rw [hstate]
    rcases Database.move_cases held state entry db with hsame | ⟨row, hrow, hv, hnew, hnext⟩
    · exact .inl (congrArg Store.database hsame)
    · rw [hnext]
      obtain ⟨a', after, ha, hversion, history⟩ :=
        account?_withRows hnew (Database.movedRow row state entry) (Database.rowOfEntry entry)
      refine .inr ⟨Database.accountOf row (db.historyRows held.key), a',
        .row (row.version + 1) (Database.rowOfEntry entry), ⟨?_, after, hversion, history, ?_⟩, hv, ha,
        rfl⟩
      · rw [account?, hrow, Option.map_some]
      · exact fun other hne => account?_withRows_of_ne hnew hne _

theorem tidy_commit (held : Instance) (state : String) (entry : HistoryEntry) (s : Store) :
    (commit held state entry s).2.Tidy ↔ s.Tidy := by
  cases s with
  | memory m => exact formed_commit held state entry m
  | database db =>
    have hstate : (commit held state entry (.database db)).2 =
        .database (Database.move held state entry db).2 :=
      congrArg Store.database (Database.commit_state held state entry db)
    rw [hstate]
    rcases Database.move_cases held state entry db with hsame | ⟨row, hrow, -, hnew, hnext⟩
    · rw [hsame]
    · rw [hnext]
      exact ⟨Tidy.of_withRows hnew hrow, fun h => h.withRows hnew _⟩

/-! ## Creations -/

/-- A creation on a tidy store opens the account of a new instance, or does nothing. -/
theorem create_opens {s : Store} (h : s.Tidy) (d : Definition) (entityId : String) (data : Json)
    (actorId : Option String) (now : Timestamp) :
    (∃ f, create d entityId data actorId now s = (.error f, s)) ∨
      ∃ s' w, create d entityId data actorId now s = (.ok (.create d entityId data now), s') ∧
        s'.Tidy ∧ s.account? (d.name, entityId) = none ∧
        s'.account? (d.name, entityId) = some ⟨d.initialState, 1, [w]⟩ ∧
        w.toState = d.initialState ∧
        ∀ other, other ≠ (d.name, entityId) → s'.account? other = s.account? other := by
  cases s with
  | memory m =>
    rcases create_cases (s := .memory m) h d entityId data actorId now with
      hcreate | ⟨s', w, hcreate, missing, wrote, -, -, ht⟩
    · exact .inl ⟨_, hcreate⟩
    · exact .inr ⟨s', w, hcreate, wrote.formed.tidy, missing, wrote.account, ht, wrote.accounts⟩
  | database db =>
    rcases Database.create_cases d entityId data actorId now db with
      ⟨f, hcreate⟩ | ⟨hmissing, hnew, hcreate⟩
    · exact .inl ⟨f, onEither_database hcreate _⟩
    · have hrows : (db.historyRows (d.name, entityId)).Perm [] :=
        (Database.historyRows_perm db _).trans (.of_eq (h _ hmissing))
      obtain ⟨⟨state, version, history⟩, after, rfl, rfl, hhistory⟩ :=
        account?_withRows hnew (Database.rowOfInstance (.create d entityId data now))
          (Database.rowOfEntry ((Instance.create d entityId data now).creationEntry actorId))
      rw [hrows.eq_nil] at hhistory
      obtain rfl := List.perm_singleton.1 hhistory
      refine .inr ⟨_, _, onEither_database hcreate _, Tidy.withRows hnew h _, ?_, after, rfl, ?_⟩
      · rw [account?, hmissing, Option.map_none]
      · exact fun other hne => account?_withRows_of_ne hnew hne _

/-! ## Reading -/

theorem toState_entryOfRow {sequence : Int} {row : HistoryRow} {entry : HistoryEntry}
    (h : Database.entryOfRow sequence row = .ok entry) : entry.toState = row.toState := by
  obtain ⟨context, -, h⟩ := ok_of_bind h
  obtain ⟨timestamp, -, h⟩ := ok_of_bind h
  obtain ⟨json, -, h⟩ := ok_of_bind h
  rw [← Except.ok.inj h]

/-- A history that is read tells of the states of which the account tells. -/
theorem toState_history? {s : Store} {key : InstanceKey} {entries : List HistoryEntry}
    (h : s.history? key = .ok (some entries)) {a : Account} (ha : s.account? key = some a) :
    entries.map (·.toState) = a.history.map (·.toState) := by
  cases s with
  | memory m =>
    obtain ⟨stored, hstored, rfl⟩ := Option.map_eq_some_iff.1 (Except.ok.inj h)
    rw [account?, hstored, Option.map_some] at ha
    rw [← Option.some.inj ha]
    simp [StoredInstance.account, Written.toState]
  | database db =>
    obtain ⟨row, -, rfl⟩ := Option.map_eq_some_iff.1 ha
    obtain ⟨found, -, h⟩ := ok_of_bind h
    cases found with
    | none => cases h
    | some i =>
      obtain ⟨read, hread, h⟩ := ok_of_bind h
      obtain rfl : read = entries := Option.some.inj (Except.ok.inj h)
      have hstates : read.map (·.toState) = (db.historyRows key).map (·.2.toState) :=
        map_of_mapM hread fun r e he => toState_entryOfRow he
      rw [hstates]
      simp [Database.accountOf, Written.toState]

end Store

end WorkflowRules
