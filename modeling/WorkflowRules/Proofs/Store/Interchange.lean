import WorkflowRules.Proofs.Store.Calls

/-!
# Stores are interchangeable

A caller creates, reads, lists and commits, and every commit holds an instance that the store has
returned before, or one that the store does not have. Whatever is asked in this way, both stores
answer alike, as long as a database can give back the texts that are written to it.

* `Session` — a store and the instances it has returned
* `Session.Alike` — a session in memory and one on a database that have had the same answers
* `Session.interchangeable` — the answers of both stores to any requests
-/

namespace WorkflowRules

open Store (Call Answer)

/-! ## Sessions -/

/-- The instance that a caller holds. -/
inductive Held where
  /-- The `n`th of the instances that the store has returned, counted from 0. -/
  | returned (n : Nat)
  /-- An instance with a key that the store does not have. -/
  | stranger (i : Instance)

/-- A store and the instances that it has returned, in the order in which it did. -/
structure Session where
  store : Store
  returned : List Instance

/-- Whether a store has an instance. -/
def Store.has (key : InstanceKey) : Store → Bool
  | .memory m => m.instances.contains key
  | .database db => db.instances.contains key

namespace Session

/-- A session with a store that nothing has been asked of. -/
def start (store : Store) : Session := ⟨store, []⟩

/-- The instance that is held, if it is one that may be. -/
def instance? (w : Session) : Held → Option Instance
  | .returned n => w.returned[n]?
  | .stranger i => if w.store.has i.key then none else some i

/-- The call that a request stands for. -/
def call? (w : Session) : Call Held → Option (Call Instance)
  | .create d entityId data actorId now => some (.create d entityId data actorId now)
  | .get key => some (.get key)
  | .history key => some (.history key)
  | .list workflow => some (.list workflow)
  | .commit held state entry => (w.instance? held).map fun i => .commit i state entry

/-- Makes a call: the answer, and the session afterwards. -/
def make (w : Session) (c : Call Instance) : Answer × Session :=
  let r := w.store.ask c
  (r.1, ⟨r.2, w.returned ++ r.1.instances⟩)

/-- The answers to requests; one that stands for no call is not made. -/
def answers (w : Session) : List (Call Held) → List (Option Answer)
  | [] => []
  | request :: rest =>
    match w.call? request with
    | none => none :: w.answers rest
    | some c => some (w.make c).1 :: (w.make c).2.answers rest

/-! ## Sessions that are alike -/

/--
Two sessions with the same answers, one in memory and one on a database. Everything stored is
legible, and whatever was returned is still akin to what is stored of it.
-/
structure Alike (w w' : Session) (m : MemoryStore) (db : Database) : Prop where
  memory : w.store = .memory m
  database : w'.store = .database db
  mirrors : Database.Mirrors m db
  legible : ∀ key stored, m.instances.get? key = some stored → stored.Legible
  returned : w'.returned = w.returned
  genuine : ∀ i ∈ w.returned, ∃ stored, m.instances.get? i.key = some stored ∧ i.Akin stored.current

/-- The instances in an answer of a store in memory are stored when it is given. -/
theorem genuine_answer {m : MemoryStore}
    (keyed : ∀ key stored, m.instances.get? key = some stored → stored.current.key = key)
    (c : Call Instance) :
    ∀ i ∈ ((Store.memory m).ask c).1.instances,
      ∃ stored, (m.step c).instances.get? i.key = some stored ∧ i = stored.current := by
  -- creations and commits answer with what they have stored, and queries with what is there
  cases c with
  | create d entityId data actorId now =>
    intro i hi
    obtain ⟨-, hstored⟩ := MemoryStore.create_ok (Answer.mem_instances.1 hi)
    exact ⟨_, hstored, rfl⟩
  | commit held state entry =>
    intro i hi
    obtain ⟨stored, hs, rfl, hstored⟩ := MemoryStore.commit_ok (Answer.mem_instances.1 hi)
    have hkey : (stored.commit (held.version + 1) state entry).current.key = held.key :=
      keyed held.key stored hs
    exact ⟨_, hkey ▸ hstored, rfl⟩
  | get key =>
    intro i hi
    show ∃ stored, m.instances.get? i.key = some stored ∧ i = stored.current
    have hanswer : ((Store.memory m).ask (.get key)).1 = .found (.ok (m.get? key)) := rfl
    rw [hanswer, MemoryStore.get?] at hi
    cases hs : m.instances.get? key with
    | none =>
      rw [hs] at hi
      cases hi
    | some stored =>
      rw [hs] at hi
      obtain rfl := List.mem_singleton.1 hi
      exact ⟨stored, by rw [keyed _ _ hs, hs], rfl⟩
  | history key =>
    intro i hi
    cases hi
  | list workflow =>
    intro i hi
    obtain ⟨e, he, rfl⟩ := List.mem_map.1 (List.mem_mergeSort.1 hi)
    have hs : m.instances.get? e.1 = some e.2 :=
      Keyed.get?_eq_some_iff.2 (List.mem_filter.1 he).1
    exact ⟨e.2, by rw [keyed _ _ hs]; exact hs, rfl⟩

variable {w w' : Session} {m : MemoryStore} {db : Database}

theorem Alike.start : Alike (start (.memory .empty)) (start (.database .empty)) .empty .empty where
  memory := rfl
  database := rfl
  mirrors := .empty
  legible _ _ h := by cases h
  returned := rfl
  genuine i hi := by cases hi

/-- In sessions that are alike, a request stands for the same call. -/
theorem Alike.call?_eq (h : Alike w w' m db) (request : Call Held) :
    w'.call? request = w.call? request := by
  have hhas (key : InstanceKey) : w'.store.has key = w.store.has key := by
    rw [h.memory, h.database, Store.has, Store.has, Keyed.contains, Keyed.contains,
      h.mirrors.get?_instances, Option.isSome_map]
  cases request with
  | commit held state entry =>
    cases held with
    | returned n => rw [call?, call?, instance?, instance?, h.returned]
    | stranger i => rw [call?, call?, instance?, instance?, hhas]
  | create | get | history | list => rfl

/-- What a commit holds is akin to the stored instance, if there is one. -/
theorem Alike.held (h : Alike w w' m db) {request : Call Held} {held : Instance} {state : String}
    {entry : HistoryEntry} (hcall : w.call? request = some (.commit held state entry))
    {stored : StoredInstance} (hs : m.instances.get? held.key = some stored) :
    held.Akin stored.current := by
  cases request with
  | commit named state' entry' =>
    obtain ⟨i, hi, heq⟩ := Option.map_eq_some_iff.1 hcall
    cases heq
    cases named with
    | returned n =>
      obtain ⟨stored', hs', akin⟩ := h.genuine held (List.mem_of_getElem? hi)
      obtain rfl := Option.some.inj (hs.symm.trans hs')
      exact akin
    | stranger i =>
      -- the store would have this instance
      have hhas : w.store.has i.key = true := by
        by_contra hnot
        rw [instance?, if_neg hnot] at hi
        obtain rfl := Option.some.inj hi
        rw [h.memory, Store.has, Keyed.contains_eq_true hs] at hnot
        exact hnot rfl
      rw [instance?, if_pos hhas] at hi
      cases hi
  | create | get | history | list => cases hcall

theorem legible_call {request : Call Held} {c : Call Instance} (h : request.Legible)
    (hcall : w.call? request = some c) : c.Legible := by
  cases request with
  | commit held state entry =>
    obtain ⟨i, -, rfl⟩ := Option.map_eq_some_iff.1 hcall
    exact h
  | create | get | history | list =>
    cases hcall
    exact h

/-- A legible call is answered alike and keeps two sessions alike. -/
theorem Alike.make (h : Alike w w' m db) {request : Call Held} {c : Call Instance}
    (hcall : w.call? request = some c) (hc : c.Legible) :
    (w.make c).1 = (w'.make c).1 ∧ Alike (w.make c).2 (w'.make c).2 (m.step c) (db.step c) := by
  have hanswer : (w.store.ask c).1 = (w'.store.ask c).1 := by
    rw [h.memory, h.database]
    refine h.mirrors.answer h.legible fun held state entry stored hcommit hs => ?_
    subst hcommit
    exact h.held hcall hs
  refine ⟨hanswer, ?_, ?_, h.mirrors.step c, fun key => ?_, ?_, fun i hi => ?_⟩
  · show (w.store.ask c).2 = _
    rw [h.memory, Store.ask_memory]
  · show (w'.store.ask c).2 = _
    rw [h.database, Store.ask_database]
  · exact (m.step_changed c key).legible trivial (hc.legibleOn fun _ => True) (h.legible key)
  · show w'.returned ++ (w'.store.ask c).1.instances = w.returned ++ (w.store.ask c).1.instances
    rw [h.returned, hanswer]
  · rcases List.mem_append.1 hi with hi | hi
    · obtain ⟨stored, hs, akin⟩ := h.genuine i hi
      obtain ⟨stored', hs', grows⟩ := MemoryStore.step_grows hs c
      exact ⟨stored', hs', akin.trans grows.akin⟩
    · rw [h.memory] at hi
      obtain ⟨stored, hs, rfl⟩ := genuine_answer h.mirrors.keyed c i hi
      exact ⟨stored, hs, .refl _⟩

/-- Sessions that are alike answer all requests alike. -/
theorem Alike.answers_eq {requests : List (Call Held)} (h : Alike w w' m db)
    (legible : ∀ request ∈ requests, request.Legible) :
    w.answers requests = w'.answers requests := by
  induction requests generalizing w w' m db with
  | nil => rfl
  | cons request rest ih =>
    have hrest := fun r hr => legible r (List.mem_cons_of_mem _ hr)
    rw [answers, answers, h.call?_eq]
    cases hcall : w.call? request with
    | none => exact congrArg _ (ih h hrest)
    | some c =>
      obtain ⟨hanswer, halike⟩ := h.make hcall (legible_call (legible _ List.mem_cons_self) hcall)
      simp only [hanswer, ih halike hrest]

/--
Whatever is asked of a store in memory and of a database, both give the same answers: the same
values, the same refusals, and histories and listings in the same order.
-/
theorem interchangeable (requests : List (Call Held))
    (legible : ∀ request ∈ requests, request.Legible) :
    (start (.memory .empty)).answers requests = (start (.database .empty)).answers requests :=
  Alike.start.answers_eq legible

/-! ## A stale commit -/

/-- The entry of a payment. -/
def payment : HistoryEntry :=
  { sequence := 0, fromState := some "open", toState := "paid", event := "pay", actorId := none
    timestamp := ⟨60, 0⟩, context := .object [] }

/-- An order is paid twice, both times by a caller that holds the order as it was created. -/
def paidTwice : List (Call Held) :=
  [.create (.ofStates "order" "order" "open" ["open", "paid"]) "7" (.string "tea") none ⟨0, 0⟩,
    .commit (.returned 0) "paid" payment, .commit (.returned 0) "paid" payment,
    .history ("order", "7"), .list "order"]

theorem interchangeable_paidTwice :
    (∀ request ∈ paidTwice, request.Legible) ∧
      (start (.memory .empty)).answers paidTwice = (start (.database .empty)).answers paidTwice := by
  have hcontext : Json.Legible (.object []) :=
    ⟨rfl, Json.readsBack_of_exact trivial
      (Json.fits_object rfl Json.Fields.ascending_nil (by simp))⟩
  have hpayment : payment.Legible := ⟨hcontext, Timestamp.readsBack_firstDay (by decide)⟩
  have legible : ∀ request ∈ paidTwice, request.Legible := by
    intro request hr
    simp only [paidTwice, List.mem_cons, List.not_mem_nil, or_false] at hr
    rcases hr with rfl | rfl | rfl | rfl | rfl
    · exact ⟨Json.legible_string "tea", Timestamp.readsBack_firstDay (by decide)⟩
    · exact hpayment
    · exact hpayment
    · trivial
    · trivial
  exact ⟨legible, interchangeable paidTwice legible⟩

end Session

end WorkflowRules
