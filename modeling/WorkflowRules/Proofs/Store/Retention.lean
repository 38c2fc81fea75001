import WorkflowRules.Proofs.Store.Calls

/-!
# What a store gives back

A store that has accepted a creation or a commit gives back in every later state what was written by
it: the data of the instance and the context of the entry. A database does so for every value but a
number, whose text its columns turn into a number that nobody can fetch as a text.

* `Store.Acceptance` — an accepted creation or commit, the calls before it and those after it
* `Acceptance.retained` — what was accepted is given back, and a number is lost to a database
-/

namespace WorkflowRules.Store

/-- The data that a creation gives to an instance. -/
def Call.data? {H : Type} : Call H → Option Json
  | .create _ _ data _ _ => some data
  | _ => none

/-- What a call writes into the context of an entry. -/
def Call.context? {H : Type} : Call H → Option Json
  | .create _ _ data _ _ => some data
  | .commit _ _ entry => some entry.context
  | _ => none

/-- A call that a new store has accepted, among others. -/
structure Acceptance where
  start : Store
  new : start = .memory .empty ∨ start = .database .empty
  before : List (Call Instance)
  call : Call Instance
  /-- The instance as it was returned. -/
  result : Instance
  accepted : ((start.after before).ask call).1 = .instance (.ok result)
  after : List (Call Instance)

/-- All calls of the store. -/
def Acceptance.calls (a : Acceptance) : List (Call Instance) := a.before ++ a.call :: a.after

/-- The store after all calls. -/
def Acceptance.last (a : Acceptance) : Store := a.start.after a.calls

/-- The store gives back what an accepted call has written to an instance. -/
structure Retains (s : Store) (c : Call Instance) (i : Instance) : Prop where
  get : ∃ j, s.get? i.key = .ok (some j) ∧ ∀ data, c.data? = some data → j.data = data
  history : ∃ entries, s.history? i.key = .ok (some entries) ∧
    ∃ e ∈ entries, e.sequence = i.version ∧ c.context? = some e.context

/-- The store lists the instance with what an accepted call has written to it. -/
def Lists (s : Store) (c : Call Instance) (i : Instance) : Prop :=
  ∃ js, s.list i.workflow = .ok js ∧
    ∃ j ∈ js, j.key = i.key ∧ ∀ data, c.data? = some data → j.data = data

/-- The store does not give back what an accepted call has written. -/
structure Loses (s : Store) (c : Call Instance) (i : Instance) : Prop where
  get : c.data?.isSome = true → s.get? i.key = .error .unreadable
  history : ∀ found, s.history? i.key ≠ .ok found
  list : c.data?.isSome = true → ∀ js, s.list i.workflow ≠ .ok js

/-! ## Reading -/

section Reading

variable {m : MemoryStore} {db : Database} {s : Store}

/-- What an accepted call has written is stored under the key of the instance that was returned. -/
structure Recorded (m : MemoryStore) (c : Call Instance) (i : Instance) (stored : StoredInstance) :
    Prop where
  found : m.instances.get? i.key = some stored
  data : ∀ data, c.data? = some data → stored.current.data = data
  entry : ∃ e ∈ stored.history, e.sequence = i.version ∧ c.context? = some e.context

/-- A commit is accepted by either store only if it holds the version that is stored. -/
theorem commit_accepted (h : Database.Mirrors m db) (hs : s = .memory m ∨ s = .database db)
    {held : Instance} {state : String} {entry : HistoryEntry} {i : Instance}
    (accepted : (Store.commit held state entry s).1 = .ok i) :
    ∃ stored, m.instances.get? held.key = some stored ∧ stored.current.version = held.version ∧
      i.key = held.key ∧ i.version = held.version + 1 := by
  have hboth : (MemoryStore.commit held state entry m).1 = .ok i ∨
      (Database.commit held state entry db).1 = .ok i := by
    rcases hs with rfl | rfl
    · exact .inl accepted
    · exact .inr accepted
  have hrow := h.get?_instances held.key
  cases hstored : m.instances.get? held.key with
  | none =>
    rw [hstored] at hrow
    rw [MemoryStore.commit_missing hstored, Database.commit_missing h.kept.writable hrow] at hboth
    rcases hboth with heq | heq <;> cases heq
  | some stored =>
    by_cases hv : stored.current.version = held.version
    · obtain ⟨hmemory, hdatabase, -⟩ := h.commit_held hstored hv state entry
      rw [hmemory, hdatabase] at hboth
      rcases hboth with heq | heq <;> cases heq
      · exact ⟨stored, rfl, hv, h.keyed _ _ hstored, rfl⟩
      · exact ⟨stored, rfl, hv, rfl, rfl⟩
    · rw [hstored] at hrow
      rw [MemoryStore.commit_stale hstored hv, Database.commit_refused h.kept.writable hrow hv]
        at hboth
      rcases hboth with heq | heq <;> cases heq

/-- An accepted call is recorded, whichever of two stores with the same calls has accepted it. -/
theorem recorded_of_accepted (h : Database.Mirrors m db) (hs : s = .memory m ∨ s = .database db)
    {c : Call Instance} {i : Instance} (accepted : (s.ask c).1 = .instance (.ok i)) :
    ∃ stored, Recorded (m.step c) c i stored := by
  cases c with
  | create d entityId data actorId now =>
    have haccepted : (MemoryStore.create d entityId data actorId now m).1 = .ok i := by
      rcases hs with rfl | rfl
      · exact Answer.instance.inj accepted
      · exact (h.create d entityId data actorId now).1.trans (Answer.instance.inj accepted)
    obtain ⟨rfl, hstored⟩ := MemoryStore.create_ok haccepted
    exact ⟨_, hstored, fun data' hdata => Option.some.inj hdata, _, List.mem_singleton.2 rfl, rfl, rfl⟩
  | commit held state entry =>
    obtain ⟨stored, hstored, hv, hkey, hversion⟩ :=
      commit_accepted h hs (Answer.instance.inj accepted)
    have hstep : m.step (.commit held state entry) = (MemoryStore.commit held state entry m).2 := rfl
    rw [MemoryStore.commit_held hstored hv] at hstep
    rw [hstep]
    refine ⟨stored.commit (held.version + 1) state entry, ?_, by simp [Call.data?],
      { entry with sequence := held.version + 1 }, ?_, hversion.symm, rfl⟩
    · rw [hkey]
      exact Keyed.get?_insert_self _ _ _
    · exact List.mem_append_right _ (List.mem_singleton.2 rfl)
  | get | history | list => cases accepted

/-- What is recorded stays so. -/
theorem Recorded.run {c : Call Instance} {i : Instance} {stored : StoredInstance}
    (h : Recorded m c i stored) (calls : List (Call Instance)) :
    ∃ stored', Recorded (calls.foldl MemoryStore.step m) c i stored' := by
  obtain ⟨stored', hstored', grows⟩ := MemoryStore.run_grows h.found calls
  obtain ⟨e, he, hentry⟩ := h.entry
  exact ⟨stored', hstored', fun data hd => grows.akin.data_eq ▸ h.data data hd, e,
    grows.history.subset he, hentry⟩

/-- A store that shows what a store in memory has gives back what is recorded there. -/
theorem Recorded.retains {c : Call Instance} {i : Instance} {stored : StoredInstance}
    (h : Recorded m c i stored) (get : s.get? i.key = .ok (m.get? i.key))
    (history : s.history? i.key = .ok (m.history? i.key)) : Retains s c i where
  get := by
    refine ⟨stored.current, ?_, h.data⟩
    rw [get, MemoryStore.get?, h.found, Option.map_some]
  history := by
    refine ⟨stored.history, ?_, h.entry⟩
    rw [history, MemoryStore.history?, h.found, Option.map_some]

theorem Recorded.lists {c : Call Instance} {i : Instance} {stored : StoredInstance}
    (h : Recorded m c i stored) (key : stored.current.key = i.key)
    (list : s.list i.workflow = .ok (m.list i.workflow)) : Lists s c i := by
  refine ⟨m.list i.workflow, list, stored.current, ?_, key, h.data⟩
  refine List.mem_mergeSort.2 (List.mem_map.2 ⟨(i.key, stored), ?_, rfl⟩)
  exact List.mem_filter.2 ⟨Keyed.get?_eq_some_iff.1 h.found, by simp [Instance.key]⟩

end Reading

/-! ## Numbers in a database -/

/-- What has a row is not missed. -/
theorem get?_ne_none {db : Database} {key : InstanceKey} {row : InstanceRow}
    (hrow : db.instances.get? key = some row) : db.get? key ≠ .ok none := by
  intro hget
  rw [Database.get?, hrow] at hget
  obtain ⟨i, -, heq⟩ := ok_of_bind hget
  cases heq

/-- The text of a number cannot be read from a column of a history. -/
theorem history?_number {m : MemoryStore} {db : Database} (h : Database.Mirrors m db)
    {key : InstanceKey} {stored : StoredInstance} (hs : m.instances.get? key = some stored)
    {e : HistoryEntry} (he : e ∈ stored.history) (hnumber : isBareNumber e.context = true)
    (found : Option (List HistoryEntry)) : db.history? key ≠ .ok found := by
  intro hread
  obtain ⟨i, hget, hread⟩ := ok_of_bind hread
  cases i with
  | none =>
    have hrow := h.get?_instances key
    rw [hs, Option.map_some] at hrow
    exact get?_ne_none hrow hget
  | some i =>
    obtain ⟨entries, hentries, -⟩ := ok_of_bind hread
    rw [h.kept.historyRows_eq, h.history, MemoryStore.entries_of_get? hs] at hentries
    refine mapM_ne_ok (List.mem_map_of_mem he) (fun y hy => ?_) entries hentries
    simp only [Database.entryOfRow, Database.rowOfEntry, Cell.ofText_number hnumber, Database.fetch,
      bind, Except.bind] at hy
    cases hy

/-- An instance whose data is a number is in the way of every listing of its workflow. -/
theorem list_number {m : MemoryStore} {db : Database} (h : Database.Mirrors m db)
    {key : InstanceKey} {stored : StoredInstance} (hs : m.instances.get? key = some stored)
    (hnumber : isBareNumber stored.current.data = true) (found : List Instance) :
    db.list key.1 ≠ .ok found := by
  have hrow := h.get?_instances key
  rw [hs, Option.map_some] at hrow
  have hmem : (key, Database.rowOfInstance stored.current) ∈
      sortBy (·.1.2) (db.instances.entries.filter (·.1.1 = key.1)) := by
    refine List.mem_mergeSort.2 (List.mem_filter.2 ⟨Keyed.get?_eq_some_iff.1 hrow, ?_⟩)
    exact decide_eq_true rfl
  refine mapM_ne_ok hmem (fun y hy => ?_) found
  rw [Database.instanceOfRow_number hnumber] at hy
  cases hy

/-- What is a number has been lost to a database. -/
theorem loses_number {m : MemoryStore} {db : Database} (h : Database.Mirrors m db)
    {c : Call Instance} {i : Instance} {stored : StoredInstance} (recorded : Recorded m c i stored)
    (hnumber : ∃ j, c.context? = some j ∧ isBareNumber j = true) : Loses (.database db) c i := by
  obtain ⟨j, hj, hnumber⟩ := hnumber
  have hdata (hc : c.data?.isSome = true) : isBareNumber stored.current.data = true := by
    cases c with
    | create d entityId data actorId now =>
      obtain rfl := Option.some.inj hj
      rw [recorded.data data rfl]
      exact hnumber
    | commit | get | history | list => cases hc
  refine ⟨fun hc => ?_, fun found => ?_, fun hc js => ?_⟩
  · refine h.get?_number (i := stored.current) ?_ (hdata hc)
    rw [MemoryStore.get?, recorded.found, Option.map_some]
  · obtain ⟨e, he, -, hcontext⟩ := recorded.entry
    refine history?_number h recorded.found he ?_ found
    rw [hcontext] at hj
    rwa [Option.some.inj hj]
  · exact list_number h recorded.found (hdata hc) js

/-! ## What was accepted -/

/--
What a store has accepted, it gives back in every later state. Of a database this is so when everything
written to the instance is legible, and for listings, everything written for its workflow. A number,
which is not legible, is never given back.
-/
theorem Acceptance.retained (a : Acceptance) :
    ((a.start.inMemory = true ∨ ∀ c ∈ a.calls, c.LegibleOn (· = a.result.key)) →
        Retains a.last a.call a.result) ∧
      ((a.start.inMemory = true ∨ ∀ c ∈ a.calls, c.LegibleOn (·.1 = a.result.workflow)) →
        Lists a.last a.call a.result) ∧
      (a.start.inMemory = false → (∃ j, a.call.context? = some j ∧ isBareNumber j = true) →
        Loses a.last a.call a.result) := by
  obtain ⟨start, new, before, call, i, accepted, after⟩ := a
  -- both stores with these calls, whichever of them the calls were made to
  have hbefore := Database.Mirrors.empty.run before
  have hlast := Database.Mirrors.empty.run (before ++ call :: after)
  have hstored : ∃ stored, Recorded ((before ++ call :: after).foldl MemoryStore.step .empty) call i
      stored := by
    have haccepted : ∃ stored, Recorded ((before.foldl MemoryStore.step .empty).step call) call i
        stored := by
      refine recorded_of_accepted hbefore ?_ accepted
      rcases new with rfl | rfl
      · exact .inl (after_memory _ _)
      · exact .inr (after_database _ _)
    obtain ⟨stored, hstored⟩ := haccepted
    rw [List.foldl_append, List.foldl_cons]
    exact hstored.run after
  obtain ⟨stored, hstored⟩ := hstored
  have hkey := hlast.keyed _ _ hstored.found
  rcases new with rfl | rfl
  · rw [last, calls, after_memory]
    exact ⟨fun _ => hstored.retains rfl rfl, fun _ => hstored.lists hkey rfl, fun h => by cases h⟩
  · have hlegible {keys : InstanceKey → Prop}
        (h : inMemory (.database .empty) = true ∨ ∀ c ∈ before ++ call :: after, c.LegibleOn keys)
        {key : InstanceKey} (hkey : keys key) :
        ∀ found, ((before ++ call :: after).foldl MemoryStore.step .empty).instances.get? key =
          some found → found.Legible :=
      MemoryStore.run_legible (h.resolve_left (by simp [inMemory])) hkey
        (by simp [MemoryStore.empty])
    rw [last, calls, after_database]
    refine ⟨fun legible => ?_, fun legible => ?_, fun _ hnumber => loses_number hlast hstored hnumber⟩
    · refine hstored.retains (hlast.get?_eq fun j hj => ?_) (hlast.history?_eq (hlegible legible rfl))
      obtain ⟨found, hfound, rfl⟩ := Option.map_eq_some_iff.1 hj
      exact (hlegible legible rfl found hfound).current
    · refine hstored.lists hkey (hlast.list_eq fun key found hfound hworkflow => ?_)
      exact (hlegible legible hworkflow found hfound).current

/-- A workflow with a single state. -/
def meter : Definition := .ofStates "meter" "meter" "on" ["on"]

theorem meter_accepted (data : Json) :
    (Database.create meter "7" data none ⟨0, 0⟩ .empty).1 =
      .ok (.create meter "7" data ⟨0, 0⟩) := by
  have hmissing : Database.empty.instances.get? (meter.name, "7") = none := rfl
  rw [Database.create_new .empty hmissing]

/-- A meter is created with some data in a new database, and nothing else is asked of it. -/
def meterWith (data : Json) : Acceptance where
  start := .database .empty
  new := .inr rfl
  before := []
  call := .create meter "7" data none ⟨0, 0⟩
  result := .create meter "7" data ⟨0, 0⟩
  accepted := congrArg Answer.instance (meter_accepted data)
  after := []

theorem Acceptance.retained_meter :
    Retains (meterWith (.string "kWh")).last (meterWith (.string "kWh")).call
        (meterWith (.string "kWh")).result ∧
      Lists (meterWith (.string "kWh")).last (meterWith (.string "kWh")).call
        (meterWith (.string "kWh")).result := by
  have legible (keys : InstanceKey → Prop) :
      ∀ c ∈ (meterWith (.string "kWh")).calls, c.LegibleOn keys := by
    intro c hc
    obtain rfl := List.mem_singleton.1 hc
    exact fun _ => ⟨Json.legible_string "kWh", Timestamp.readsBack_firstDay (by decide)⟩
  obtain ⟨retains, lists, -⟩ := Acceptance.retained (meterWith (.string "kWh"))
  exact ⟨retains (.inr (legible _)), lists (.inr (legible _))⟩

/-- A meter that was created with a number as its data is never read again. -/
theorem meter_unreadable :
    ∃ n : Json.Number,
      ((Store.database .empty).ask (.create meter "7" (.number n) none ⟨0, 0⟩)).1 =
          .instance (.ok (.create meter "7" (.number n) ⟨0, 0⟩)) ∧
        ((Store.database .empty).after [.create meter "7" (.number n) none ⟨0, 0⟩]).get?
          ("meter", "7") = .error .unreadable := by
  let five : Json.Number := .integer 5 (by decide)
  have hmirror := Database.Mirrors.empty.step (.create meter "7" (.number five) none ⟨0, 0⟩)
  have hstored : (MemoryStore.empty.step (.create meter "7" (.number five) none ⟨0, 0⟩)).get?
      ("meter", "7") = some (.create meter "7" (.number five) ⟨0, 0⟩) := rfl
  exact ⟨five, (meterWith (.number five)).accepted, hmirror.get?_number hstored rfl⟩

end WorkflowRules.Store
