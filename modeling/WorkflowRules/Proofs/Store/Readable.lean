import WorkflowRules.Proofs.Operation
import WorkflowRules.Store

/-!
# Stores without unreadable rows

A JSON column that holds a number cannot be fetched, and no operation survives the attempt. Commits
write no such column to the table of instances; so on a store that has none, they never break down. In
no other way does a store break down at all.

* `Store.Readable` — every row of an instance can be fetched
* `Store.Bears` — nothing in a store makes an operation break down in some way
* `Store.get?_ne_breakdown`, `Store.commit_survives` — loading and committing survive on such stores
-/

namespace WorkflowRules

open Operation (Survives)

variable {why : Breakdown}

namespace Database

/-- No instance has a JSON column that holds a number. -/
def Readable (db : Database) : Prop :=
  ∀ key row, db.instances.get? key = some row → row.data ≠ .number ∧ row.metadata ≠ .number

/-- No row of an instance makes whoever fetches it break down in this way. -/
def Bears (why : Breakdown) (db : Database) : Prop := why = .unreadable → db.Readable

/-- Only a number in a JSON column cannot be fetched. -/
theorem fetch_ne_breakdown {c : Store.Cell} (h : why = .unreadable → c ≠ .number) :
    fetch c ≠ .error (.breakdown why) := by
  cases c with
  | text s => simp [fetch]
  | number =>
    intro hf
    cases hf
    exact h rfl rfl

/-- A text that does not parse is refused, which is an answer. -/
theorem decode_ne_breakdown {α : Type} (r : Json.Reader α) (shape : Json.Shape) (text : String) :
    decode r shape text ≠ .error (.breakdown why) := by
  unfold decode
  split <;> simp

theorem decodeTimestamp_ne_breakdown (text : String) :
    decodeTimestamp text ≠ .error (.breakdown why) := by
  unfold decodeTimestamp
  split <;> simp

theorem bind_ne_breakdown {α β : Type} {x : Except Failure α} {f : α → Except Failure β}
    (hx : x ≠ .error (.breakdown why)) (hf : ∀ a, f a ≠ .error (.breakdown why)) :
    x >>= f ≠ .error (.breakdown why) := by
  cases x with
  | error e => exact fun h => hx (congrArg _ (Except.error.inj h))
  | ok a => exact hf a

/-- A row is unreadable through its data or its metadata only. -/
theorem instanceOfRow_ne_breakdown (key : InstanceKey) {row : InstanceRow}
    (hdata : why = .unreadable → row.data ≠ .number)
    (hmetadata : why = .unreadable → row.metadata ≠ .number) :
    instanceOfRow key row ≠ .error (.breakdown why) := by
  unfold instanceOfRow
  refine bind_ne_breakdown (fetch_ne_breakdown hdata) fun data => ?_
  refine bind_ne_breakdown (fetch_ne_breakdown hmetadata) fun metadata => ?_
  refine bind_ne_breakdown (decode_ne_breakdown _ _ data) fun _ => ?_
  refine bind_ne_breakdown (decode_ne_breakdown _ _ metadata) fun _ => ?_
  refine bind_ne_breakdown (decodeTimestamp_ne_breakdown row.createdAt) fun _ => ?_
  refine bind_ne_breakdown (decodeTimestamp_ne_breakdown row.updatedAt) fun _ => ?_
  intro h
  cases h

theorem get?_ne_breakdown {db : Database} (h : db.Bears why) (key : InstanceKey) :
    db.get? key ≠ .error (.breakdown why) := by
  unfold get?
  cases hrow : db.instances.get? key with
  | none => simp
  | some row =>
    have hread : instanceOfRow key row ≠ .error (.breakdown why) :=
      instanceOfRow_ne_breakdown key (fun hw => (h hw key row hrow).1) fun hw => (h hw key row hrow).2
    simp only
    cases hi : instanceOfRow key row with
    | error f => exact fun h => hread (hi.trans (congrArg _ (Except.error.inj h)))
    | ok i => simp [Except.map]

/-- A database that takes no writes refuses them, and is not changed by that. -/
theorem write_survives {α : Type} {I : Database → Prop} {x : Operation Database α}
    (hx : Survives why I x) : Survives why I (write x) := by
  intro db hdb
  unfold write
  split
  · exact hx db hdb
  · exact ⟨by simp, hdb⟩

/-- The update of an instance leaves its JSON columns as they are. -/
theorem updateInstance_survives (key : InstanceKey) (held : Int) (state : String) (version : Int)
    (updatedAt : String) :
    Survives why (Bears why) (updateInstance key held state version updatedAt) := by
  refine write_survives fun db hdb => ?_
  cases hrow : db.instances.get? key with
  | none => exact ⟨by simp, hdb⟩
  | some row =>
    simp only
    split
    · refine ⟨by simp, fun hw other row' h => ?_⟩
      rcases Keyed.get?_insert_eq_some h with ⟨rfl, rfl⟩ | ⟨-, h⟩
      · exact hdb hw other row hrow
      · exact hdb hw other row' h
    · exact ⟨by simp, hdb⟩

/-- Entries of the history are rows of another table. -/
theorem insertHistory_survives (key : InstanceKey) (sequence : Int) (row : HistoryRow) :
    Survives why (Bears why) (insertHistory key sequence row) := by
  refine write_survives fun db hdb => ?_
  split
  · exact ⟨by simp, hdb⟩
  · exact ⟨by simp, hdb⟩

theorem move_survives (held : Instance) (state : String) (entry : HistoryEntry) :
    Survives why (Bears why) (move held state entry) := by
  refine Survives.atomic ((updateInstance_survives _ _ _ _ _).bind fun moved => ?_)
  cases moved with
  | false => exact Survives.pure _
  | true => exact (insertHistory_survives _ _ _).bind fun _ => Survives.pure _

/-- When a commit finds another version, it reads the row again to tell why it is refused. -/
theorem commit_survives (held : Instance) (state : String) (entry : HistoryEntry) :
    Survives why (Bears why) (commit held state entry) := by
  refine (move_survives held state entry).bind fun moved => ?_
  cases moved with
  | true => exact Survives.pure _
  | false =>
    refine (Survives.viewExcept fun db hdb => get?_ne_breakdown hdb held.key).bind fun found => ?_
    cases found <;> exact Survives.fail _

end Database

/-- Nothing is read back from a text in memory. -/
theorem MemoryStore.commit_ne_breakdown (held : Instance) (state : String) (entry : HistoryEntry)
    (s : MemoryStore) : (commit held state entry s).1 ≠ .error (.breakdown why) := by
  unfold commit
  split
  · simp
  · split <;> simp

namespace Store

/-- Every row of an instance can be fetched; in memory there is nothing to fetch. -/
def Readable : Store → Prop
  | .memory _ => True
  | .database db => db.Readable

/-- No row of an instance makes whoever fetches it break down in this way. -/
def Bears (why : Breakdown) (s : Store) : Prop := why = .unreadable → s.Readable

/-- Loading an instance from a store that bears it gives an answer. -/
theorem get?_ne_breakdown {s : Store} (h : s.Bears why) (key : InstanceKey) :
    s.get? key ≠ .error (.breakdown why) := by
  cases s with
  | memory m => simp [get?]
  | database db => exact Database.get?_ne_breakdown h key

/-- A commit to a store that bears it gives an answer, and the store still bears it. -/
theorem commit_survives (held : Instance) (state : String) (entry : HistoryEntry) :
    Survives why (Bears why) (commit held state entry) := by
  intro s hs
  cases s with
  | memory m => exact ⟨MemoryStore.commit_ne_breakdown held state entry m, fun _ => trivial⟩
  | database db => exact Database.commit_survives held state entry db hs

/-- What is done to the database alone is nothing to a store in memory. -/
theorem persist_survives {x : Operation Database Unit} (hx : Survives why (Database.Bears why) x) :
    Survives why (Bears why) (persist x) := by
  intro s hs
  cases s with
  | memory m => exact ⟨by simp [persist, onEither], fun _ => trivial⟩
  | database db => exact hx db hs

end Store

end WorkflowRules
