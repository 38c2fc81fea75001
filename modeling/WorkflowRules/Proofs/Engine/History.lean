import WorkflowRules.Proofs.Cascade.Sample
import WorkflowRules.Proofs.Engine.Commands
import WorkflowRules.Proofs.Store.Flights

/-!
# Instances and their histories over whole runs

A history tells everything about its instance: when and by which command the instance was created,
which states it has been in, and which registered definition allowed each change. This holds after
every sequence of commands to an engine that has started empty in memory, however definitions have
been replaced and removed on the way.

* `Engine.FromCreation` — the creation that a stored instance goes back to
* `Engine.Committed` — the command that has committed an entry, and the definition that permits it
* `Engine.Recorded` — all that a stored instance tells of the run
* `Engine.recorded` — what is stored after a run is recorded in this way
-/

namespace WorkflowRules

open StoredInstance (Evolves SameOrigin)

variable {e : Engine} {key : InstanceKey} {a b : StoredInstance}

/-! ## One command and one instance -/

/-- An instance stays stored, and changes as the registry permits. -/
theorem Command.evolves (h : e.Orderly) (c : Command) (ha : e.stored? key = some a) :
    ∃ b, (c.run e).stored? key = some b ∧ Evolves e.registry a b ∧
      (b = a ∨ (c.run e).registry = e.registry) := by
  cases (c.run_effect h).2 with
  | spared store =>
    refine ⟨a, ?_, .refl, .inl rfl⟩
    rw [Engine.stored?, store]
    exact ha
  | steady steady =>
    have hrel := steady.instances h key
    rw [ha] at hrel
    cases hb : (c.run e).stored? key with
    | none =>
      rw [hb] at hrel
      cases hrel
    | some b =>
      rw [hb] at hrel
      obtain ⟨hrel⟩ := hrel
      exact ⟨b, rfl, hrel, .inr steady.registry⟩
  | @created workflow entityId _ _ _ _ _ missing stored =>
    have hne : key ≠ (workflow, entityId) := by
      rintro rfl
      rw [missing] at ha
      cases ha
    refine ⟨a, ?_, .refl, .inl rfl⟩
    rw [stored, if_neg hne, ha]

/-- An instance that was not stored is a new one of a registered definition. -/
theorem Command.appears (h : e.Orderly) {c : Command} (hn : e.stored? key = none)
    (hb : (c.run e).stored? key = some b) :
    ∃ data actorId d, c = .create key.1 key.2 data actorId ∧ e.registry.get? key.1 = some d ∧
      b = e.created d key.2 data actorId := by
  cases (c.run_effect h).2 with
  | spared store =>
    rw [Engine.stored?, store, ← Engine.stored?, hn] at hb
    cases hb
  | steady steady =>
    have hrel := steady.instances h key
    rw [hn, hb] at hrel
    cases hrel
  | @created workflow entityId data actorId d registered _ _ stored =>
    rw [stored] at hb
    by_cases hkey : key = (workflow, entityId)
    · subst hkey
      rw [if_pos rfl] at hb
      exact ⟨data, actorId, d, rfl, registered, (Option.some.inj hb).symm⟩
    · rw [if_neg hkey, hn] at hb
      cases hb

namespace Engine

/-! ## Runs -/

theorem Orderly.runAll (h : e.Orderly) (cs : List Command) : (e.runAll cs).Orderly := by
  induction cs generalizing e with
  | nil => exact h
  | cons c rest ih => exact ih (c.run_effect h).1

/-- Stored instances stay stored, and nothing that was written is lost or changed. -/
theorem runAll_keeps (h : e.Orderly) (cs : List Command) (ha : e.stored? key = some a) :
    ∃ b, (e.runAll cs).stored? key = some b ∧ a.history <+: b.history ∧ SameOrigin a b := by
  induction cs generalizing e a with
  | nil => exact ⟨a, ha, List.prefix_rfl, SameOrigin.rfl⟩
  | cons c rest ih =>
    obtain ⟨b, hb, hevolves, -⟩ := c.evolves h ha
    obtain ⟨added, hadded, -⟩ := hevolves.history
    obtain ⟨last, hlast, hgrown, horigin⟩ := ih (c.run_effect h).1 hb
    exact ⟨last, hlast, (hadded ▸ List.prefix_append a.history added).trans hgrown,
      hevolves.sameOrigin.trans horigin⟩

/-- Along commands, instances stay in agreement with their histories. -/
theorem runAll_sound (h : e.Orderly) (cs : List Command)
    (hs : ∀ key a, e.stored? key = some a → a.Sound) (hb : (e.runAll cs).stored? key = some b) :
    b.Sound := by
  induction cs generalizing e with
  | nil => exact hs key b hb
  | cons c rest ih =>
    refine ih (c.run_effect h).1 (fun other next hnext => ?_) hb
    -- whatever is stored afterwards is new, or it has evolved from what was stored before
    cases hother : e.stored? other with
    | none =>
      obtain ⟨data, actorId, d, -, -, rfl⟩ := Command.appears h hother hnext
      exact StoredInstance.Sound.created d other.2 data actorId e.nextTime
    | some before =>
      obtain ⟨after, hafter, hevolves, -⟩ := c.evolves h hother
      obtain rfl := Option.some.inj (hafter.symm.trans hnext)
      exact (hs other before hother).evolves hevolves

/-! ## Where an instance and its entries come from -/

/-- One of the commands has created the instance, and everything that has to does go back to it. -/
inductive FromCreation (start : Engine) (key : InstanceKey) (stored : StoredInstance) :
    List Command → Prop
  | intro {before after : List Command} {data : Json} {actorId : Option String} {d : Definition}
      (registered : (start.runAll before).registry.get? key.1 = some d)
      (missing : (start.runAll before).stored? key = none)
      (first : stored.history.head? = some
        { sequence := 1, fromState := none, toState := d.initialState, event := createdEvent, actorId
          timestamp := (start.runAll before).nextTime, context := data })
      (given : stored.current.data = data) (metadata : stored.current.metadata = .empty)
      (createdAt : stored.current.createdAt = (start.runAll before).nextTime) :
      FromCreation start key stored (before ++ .create key.1 key.2 data actorId :: after)

/--
One of the commands has committed the entry at a position, and the registry of that moment, which the
command has left alone, permits it.
-/
inductive Committed (start : Engine) (key : InstanceKey) (position : Nat) (entry : HistoryEntry) :
    List Command → Prop
  | intro {before after : List Command} {c : Command} {earlier later : StoredInstance}
      (permits : Permits (start.runAll before).registry key.1 entry)
      (registry : (c.run (start.runAll before)).registry = (start.runAll before).registry)
      (found : (start.runAll before).stored? key = some earlier)
      (absent : earlier.history.length ≤ position)
      (left : (c.run (start.runAll before)).stored? key = some later)
      (present : later.history[position]? = some entry) :
      Committed start key position entry (before ++ c :: after)

variable {start : Engine} {cs : List Command}

theorem FromCreation.append (h : FromCreation start key a cs) (c : Command) :
    FromCreation start key a (cs ++ [c]) := by
  obtain ⟨registered, missing, first, given, metadata, createdAt⟩ := h
  rw [List.append_assoc, List.cons_append]
  exact .intro registered missing first given metadata createdAt

theorem FromCreation.evolves {registry : Keyed String Definition} (h : FromCreation start key a cs)
    (hab : Evolves registry a b) : FromCreation start key b cs := by
  obtain ⟨registered, missing, first, given, metadata, createdAt⟩ := h
  obtain ⟨added, hadded, -⟩ := hab.history
  have origin := hab.sameOrigin
  refine .intro registered missing ?_ (origin.data.trans given) (origin.metadata.trans metadata)
    (origin.createdAt.trans createdAt)
  rw [hadded, List.head?_append, first, Option.some_or]

theorem Committed.append {position : Nat} {entry : HistoryEntry}
    (h : Committed start key position entry cs) (c : Command) :
    Committed start key position entry (cs ++ [c]) := by
  obtain ⟨permits, registry, found, absent, left, present⟩ := h
  rw [List.append_assoc, List.cons_append]
  exact .intro permits registry found absent left present

/-- Every stored instance goes back to a creation, and every later entry to a permitted commit. -/
theorem traced (h : start.Orderly) (empty : ∀ key, start.stored? key = none) (cs : List Command)
    (hb : (start.runAll cs).stored? key = some b) :
    FromCreation start key b cs ∧ ∀ position entry, 0 < position →
      b.history[position]? = some entry → Committed start key position entry cs := by
  induction cs using List.reverseRecOn generalizing b with
  | nil =>
    have hnone := empty key
    rw [show start.stored? key = some b from hb] at hnone
    cases hnone
  | append_singleton cs c ih =>
    have horderly := h.runAll cs
    rw [runAll_append] at hb
    -- either the last command has created the instance, or it was there and has moved on
    cases he : (start.runAll cs).stored? key with
    | none =>
      obtain ⟨data, actorId, d, rfl, registered, rfl⟩ := Command.appears horderly he hb
      refine ⟨.intro registered he rfl rfl rfl rfl, fun position entry hpos hentry => ?_⟩
      obtain ⟨hlt, -⟩ := List.getElem?_eq_some_iff.1 hentry
      have hlength : ((start.runAll cs).created d key.2 data actorId).history.length = 1 := rfl
      omega
    | some a =>
      obtain ⟨b', hb', hevolves, hregistry⟩ := c.evolves horderly he
      obtain rfl := Option.some.inj (hb'.symm.trans hb)
      obtain ⟨origin, committed⟩ := ih he
      refine ⟨(origin.evolves hevolves).append c, fun position entry hpos hentry => ?_⟩
      obtain ⟨added, hadded, permits⟩ := hevolves.history
      by_cases hlt : position < a.history.length
      · -- The entry was there before the command.
        rw [hadded, List.getElem?_append_left hlt] at hentry
        exact (committed position entry hpos hentry).append c
      · have hmem : entry ∈ added := by
          rw [hadded, List.getElem?_append_right (by omega)] at hentry
          exact List.mem_of_getElem? hentry
        have hkey : a.current.workflow = key.1 := congrArg Prod.fst (horderly.key_eq he)
        have hsame : (c.run (start.runAll cs)).registry = (start.runAll cs).registry := by
          rcases hregistry with rfl | hsame
          · have hnil := List.append_cancel_left ((List.append_nil _).trans hadded)
            rw [← hnil] at hmem
            cases hmem
          · exact hsame
        exact .intro (hkey ▸ permits entry hmem) hsame he (by omega) hb hentry

/-! ## The record of a run -/

/-- All that a stored instance tells of the commands of a run. -/
structure Recorded (start : Engine) (cs : List Command) (key : InstanceKey)
    (stored : StoredInstance) : Prop where
  /--
  The entries are numbered, each starts in the state in which the one before it ended, and the last
  one ended in the current state at the time of the last change.
  -/
  sound : stored.Sound
  /-- The first entry is that of the creation, and so are the data and the time of the creation. -/
  creation : FromCreation start key stored cs
  /-- A definition that was registered at its time permits each later entry. -/
  committed : ∀ position entry, 0 < position → stored.history[position]? = some entry →
    Committed start key position entry cs
  /-- Nothing that was written has been lost or changed since. -/
  kept : ∀ before after, cs = before ++ after → ∀ earlier,
    (start.runAll before).stored? key = some earlier →
      earlier.history <+: stored.history ∧ SameOrigin earlier stored

theorem orderly_inMemory (config : EngineConfig) (clock : Clock) :
    (inMemory config clock).Orderly where
  store := ⟨.empty, rfl, fun _ _ h => by cases h⟩
  registry _ _ h := by cases h

/-- After every run, every instance is recorded. -/
theorem recorded (config : EngineConfig) (clock : Clock) (cs : List Command) (key : InstanceKey)
    (stored : StoredInstance) (h : ((inMemory config clock).runAll cs).stored? key = some stored) :
    Recorded (inMemory config clock) cs key stored := by
  have horderly := orderly_inMemory config clock
  obtain ⟨creation, committed⟩ := traced horderly (fun _ => rfl) cs h
  refine ⟨?_, creation, committed, fun before after hcs earlier hearlier => ?_⟩
  · exact runAll_sound horderly cs (fun _ _ h => by cases h) h
  · subst hcs
    rw [runAll_append] at h
    obtain ⟨last, hlast, hgrown, horigin⟩ := runAll_keeps (horderly.runAll before) after hearlier
    obtain rfl := Option.some.inj (hlast.symm.trans h)
    exact ⟨hgrown, horigin⟩

/-! ## A ticket that is opened again -/

/-- The rule that opens a ticket again as soon as it has been closed. -/
def reopen : Rule :=
  (Rule.onEvent "reopen" "workflow.ticket.closed").addAction
    ⟨"transition", .ofList
      [("workflow", .string "ticket"), ("event", .string "reopen"), ("entity_id", .string "7")]⟩

/--
A ticket is closed after its workflow has been replaced by one in which it can be opened again, which
a rule does. Then the workflow is removed.
-/
def reopening : List Command :=
  [.init, .define Flights.ticket, .create "ticket" "7" .null none,
    .define (Flights.ticket.addTransition
      { sources := ["closed"], target := "open", event := "reopen" }),
    .createRule reopen, .fire "ticket" "7" "close" .empty, .removeWorkflow "ticket"]

/-- A ticket that is closed and opened again has its whole history recorded. -/
theorem recorded_reopening :
    ∃ stored, ((inMemory {} .counting).runAll reopening).stored? ("ticket", "7") = some stored ∧
      stored.history.map (·.toState) = ["open", "closed", "open"] ∧
      Recorded (inMemory {} .counting) reopening ("ticket", "7") stored := by
  have hstates : (((inMemory {} .counting).runAll reopening).stored? ("ticket", "7")).map
      (fun stored => stored.history.map (·.toState)) = some ["open", "closed", "open"] := by
    decide +kernel
  obtain ⟨stored, hstored, hstates⟩ := Option.map_eq_some_iff.1 hstates
  exact ⟨stored, hstored, hstates, recorded {} .counting reopening _ stored hstored⟩

end Engine

end WorkflowRules
