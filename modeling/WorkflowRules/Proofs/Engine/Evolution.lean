import Mathlib.Data.Option.Basic
import Mathlib.Logic.Relation
import WorkflowRules.Proofs.Engine.Respected
import WorkflowRules.Proofs.Store.Commit

/-!
# How stored instances change

In an engine in memory, all that transitions and cascades do to a stored instance is to add entries
that the registry permits, each to the version that the transition has loaded. That the version has
not changed is enough to know that the instance has not.

* `Permits` — the registered definition has the transition that an entry tells of
* `StoredInstance.Evolves` — a stored instance has changed by such entries and in no other way
* `Engine.Steady` — the engine has changed its instances in no other way
* `Engine.Steady.respected` — that is what transitions and cascades do
-/

namespace WorkflowRules

/--
The registry has a definition for a workflow in which the first transition that leaves the state
before an entry on its event leads to the state after it.
-/
def Permits (registry : Keyed String Definition) (workflow : String) (entry : HistoryEntry) : Prop :=
  ∃ d t state, registry.get? workflow = some d ∧ entry.fromState = some state ∧
    d.select? state entry.event = some t ∧ t.target = entry.toState

/-- A hook that leaves the store to the engine, whenever it is called. -/
def Hook.Tame (hook : Hook) : Prop :=
  ∀ n seen state event, hook n seen ≠ .commit state event

namespace StoredInstance

/-! ## Permitted commits -/

/-- A commit of an entry that the registry permits and that goes on from the current state. -/
inductive Advances (registry : Keyed String Definition) : StoredInstance → StoredInstance → Prop
  | intro {stored : StoredInstance} {entry : HistoryEntry}
      (fromState : entry.fromState = some stored.current.state)
      (permits : Permits registry stored.current.workflow entry) :
      Advances registry stored (stored.commit (stored.current.version + 1) entry.toState entry)

/-- Any number of such commits. -/
abbrev Evolves (registry : Keyed String Definition) : StoredInstance → StoredInstance → Prop :=
  Relation.ReflTransGen (Advances registry)

/-- What an instance keeps from its creation on. -/
structure SameOrigin (a b : StoredInstance) : Prop where
  workflow : b.current.workflow = a.current.workflow
  entityId : b.current.entityId = a.current.entityId
  data : b.current.data = a.current.data
  metadata : b.current.metadata = a.current.metadata
  createdAt : b.current.createdAt = a.current.createdAt

variable {registry : Keyed String Definition} {a b : StoredInstance}

theorem SameOrigin.rfl : SameOrigin a a := ⟨.refl _, .refl _, .refl _, .refl _, .refl _⟩

/-- What is never changed stays the same over any number of commits. -/
theorem SameOrigin.trans {c : StoredInstance} (h₁ : SameOrigin a b) (h₂ : SameOrigin b c) :
    SameOrigin a c where
  workflow := h₂.workflow.trans h₁.workflow
  entityId := h₂.entityId.trans h₁.entityId
  data := h₂.data.trans h₁.data
  metadata := h₂.metadata.trans h₁.metadata
  createdAt := h₂.createdAt.trans h₁.createdAt

/-- Commits leave alone what an instance was created with. -/
theorem Evolves.sameOrigin (h : Evolves registry a b) : SameOrigin a b := by
  induction h with
  | refl => exact SameOrigin.rfl
  | tail _ hstep ih =>
    obtain ⟨-, -⟩ := hstep
    exact ih.trans ⟨rfl, rfl, rfl, rfl, rfl⟩

/-- The version tells whether a stored instance has changed. -/
theorem Evolves.eq_or_lt (h : Evolves registry a b) :
    b = a ∨ a.current.version < b.current.version := by
  induction h with
  | refl => exact .inl rfl
  | @tail b c _ hstep ih =>
    have hc : c.current.version = b.current.version + 1 := by
      obtain ⟨-, -⟩ := hstep
      rfl
    rcases ih with rfl | hlt
    · exact .inr (by omega)
    · exact .inr (by omega)

/-- Entries are only added, and the registry permits those that are. -/
theorem Evolves.history (h : Evolves registry a b) :
    ∃ added, b.history = a.history ++ added ∧
      ∀ entry ∈ added, Permits registry a.current.workflow entry := by
  induction h with
  | refl => exact ⟨[], (List.append_nil _).symm, by simp⟩
  | @tail b c hab hstep ih =>
    obtain ⟨added, hadded, hall⟩ := ih
    obtain @⟨last, -, permits⟩ := hstep
    rw [(Evolves.sameOrigin hab).workflow] at permits
    refine ⟨added ++ [{ last with sequence := b.current.version + 1 }], ?_, fun entry hentry => ?_⟩
    · rw [← List.append_assoc, ← hadded]
      rfl
    · rcases List.mem_append.1 hentry with hentry | hentry
      · exact hall entry hentry
      · rw [List.mem_singleton.1 hentry]
        exact permits

/-! ## Stored instances that agree with their histories -/

/-- The history accounts for the instance, and the last entry for the time of its last change. -/
structure Sound (stored : StoredInstance) : Prop where
  account : stored.account.Sound
  updated : ∃ last, stored.history.getLast? = some last ∧
    last.timestamp = stored.current.updatedAt

theorem Sound.created (d : Definition) (entityId : String) (data : Json)
    (actorId : Option String) (now : Timestamp) :
    Sound ⟨.create d entityId data now,
      [(Instance.create d entityId data now).creationEntry actorId]⟩ where
  account := Account.Sound.single rfl rfl
  updated := ⟨_, rfl, rfl⟩

/-- A commit of a registered transition leaves the instance in agreement with its history. -/
theorem Sound.advances (h : a.Sound) (hab : Advances registry a b) : b.Sound := by
  obtain @⟨entry, fromState, -⟩ := hab
  have haccount : (a.commit (a.current.version + 1) entry.toState entry).account =
      ⟨entry.toState, a.account.version + 1,
        a.account.history ++ [.entry { entry with sequence := a.current.version + 1 }]⟩ := by
    simp [StoredInstance.account, StoredInstance.commit, Instance.moved]
  refine ⟨?_, _, List.getLast?_concat, rfl⟩
  rw [haccount]
  exact h.account.append rfl fromState rfl

theorem Sound.evolves (h : a.Sound) (hab : Evolves registry a b) : b.Sound := by
  induction hab with
  | refl => exact h
  | tail _ hstep ih => exact ih.advances hstep

end StoredInstance

/-- What a store in memory has under a key. -/
def Store.stored? (key : InstanceKey) : Store → Option StoredInstance
  | .memory s => s.instances.get? key
  | .database _ => none

namespace Engine

open Operation (Keeps)
open StoredInstance (Evolves)

/-- What is stored of an instance. -/
def stored? (e : Engine) (key : InstanceKey) : Option StoredInstance := e.store.stored? key

/-- An engine in memory, with its instances and its definitions under their own keys. -/
structure Orderly (e : Engine) : Prop where
  store : ∃ s, e.store = .memory s ∧ (Store.memory s).Formed
  registry : ∀ name d, e.registry.get? name = some d → d.name = name

/-- Whatever is stored in an orderly engine is stored under its own key. -/
theorem Orderly.key_eq {e : Engine} (h : e.Orderly) {key : InstanceKey} {stored : StoredInstance}
    (found : e.stored? key = some stored) : stored.current.key = key := by
  obtain ⟨s, hs, hf⟩ := h.store
  rw [Engine.stored?, hs] at found
  exact hf key stored found

/-- What an orderly engine loads is stored. -/
theorem Orderly.stored_of_get? {e : Engine} (h : e.Orderly) {key : InstanceKey} {i : Instance}
    (loaded : e.store.get? key = .ok (some i)) :
    ∃ stored, e.stored? key = some stored ∧ stored.current = i := by
  obtain ⟨s, hs, -⟩ := h.store
  rw [Engine.stored?, hs]
  rw [hs] at loaded
  exact Option.map_eq_some_iff.1 (Except.ok.inj loaded)

/-- A commit changes nothing, or the one instance whose version is the one that was loaded. -/
theorem Orderly.commit_cases {e : Engine} (h : e.Orderly) (held : Instance) (state : String)
    (entry : HistoryEntry) :
    (∀ key, (onStoreOf (Store.commit held state entry) e).2.stored? key = e.stored? key) ∨
      ∃ now, e.stored? held.key = some now ∧ now.current.version = held.version ∧
        ∀ key, (onStoreOf (Store.commit held state entry) e).2.stored? key =
          if key = held.key then some (now.commit (held.version + 1) state entry)
          else e.stored? key := by
  obtain ⟨s, hs, -⟩ := h.store
  have hstored (key : InstanceKey) : e.stored? key = s.instances.get? key := by
    rw [Engine.stored?, hs]
    rfl
  have hnext (key : InstanceKey) :
      (onStoreOf (Store.commit held state entry) e).2.stored? key =
        (MemoryStore.commit held state entry s).2.instances.get? key := by
    show ((Store.commit held state entry e.store).2).stored? key = _
    rw [hs]
    rfl
  rcases MemoryStore.commit_cases held state entry s with hsame | ⟨now, hnow, hversion, hnew⟩
  · refine .inl fun key => ?_
    rw [hnext, hsame, hstored]
  · refine .inr ⟨now, (hstored _).trans hnow, hversion, fun key => ?_⟩
    rw [hnext, hnew, hstored]
    exact Keyed.get?_insert _ _ _ _

/-- An orderly engine stays so, and its instances only change by commits that its registry permits. -/
structure Steady (e e' : Engine) : Prop where
  orderly : e'.Orderly ↔ e.Orderly
  registry : e'.registry = e.registry
  instances : e.Orderly → ∀ key, Option.Rel (Evolves e.registry) (e.stored? key) (e'.stored? key)

/-! ## Steps that leave the store alone -/

variable {e e' : Engine}

/-- Whether an engine is orderly depends on its store and its registry. -/
theorem orderly_congr (store : e'.store = e.store) (registry : e'.registry = e.registry) :
    e'.Orderly ↔ e.Orderly := by
  constructor
  · intro h
    exact ⟨store ▸ h.store, registry ▸ h.registry⟩
  · intro h
    exact ⟨store ▸ h.store, registry ▸ h.registry⟩

theorem evolves_rfl (registry : Keyed String Definition) (found : Option StoredInstance) :
    Option.Rel (Evolves registry) found found := by
  cases found with
  | none => exact .none
  | some stored => exact .some .refl

theorem evolves_trans {registry : Keyed String Definition} {a b c : Option StoredInstance}
    (hab : Option.Rel (Evolves registry) a b) (hbc : Option.Rel (Evolves registry) b c) :
    Option.Rel (Evolves registry) a c := by
  cases hab with
  | none => exact hbc
  | some hab =>
    obtain ⟨hbc⟩ := hbc
    exact .some (hab.trans hbc)

/-- Steps that touch neither store nor registry are steady. -/
theorem Steady.of_same (store : e'.store = e.store) (registry : e'.registry = e.registry) :
    Steady e e' where
  orderly := orderly_congr store registry
  registry := registry
  instances _ key := by
    rw [stored?, stored?, store]
    exact evolves_rfl _ _

/-- Steady steps may be taken one after the other. -/
theorem Steady.trans {c : Engine} (h₁ : Steady e e') (h₂ : Steady e' c) : Steady e c where
  orderly := h₂.orderly.trans h₁.orderly
  registry := h₂.registry.trans h₁.registry
  instances h key := by
    have := h₂.instances (h₁.orderly.2 h) key
    rw [h₁.registry] at this
    exact evolves_trans (h₁.instances h key) this

/-! ## Commits -/

/-- A commit does not bring instances out of order. -/
theorem orderly_commit (held : Instance) (state : String) (entry : HistoryEntry) (e : Engine) :
    (onStoreOf (Store.commit held state entry) e).2.Orderly ↔ e.Orderly := by
  have hstore : (onStoreOf (Store.commit held state entry) e).2.store =
      (Store.commit held state entry e.store).2 := rfl
  -- a commit leaves a store of the kind that it was, so both directions hold
  constructor
  · rintro ⟨⟨s', hs', hf⟩, registry⟩
    refine ⟨?_, registry⟩
    rw [hstore] at hs'
    cases hs : e.store with
    | memory s =>
      rw [hs] at hs'
      obtain rfl : (MemoryStore.commit held state entry s).2 = s' := Store.memory.inj hs'
      exact ⟨s, rfl, (Store.formed_commit held state entry s).1 hf⟩
    | database db =>
      rw [hs] at hs'
      cases hs'
  · rintro ⟨⟨s, hs, hf⟩, registry⟩
    refine ⟨⟨(MemoryStore.commit held state entry s).2, ?_, ?_⟩, registry⟩
    · rw [hstore, hs]
      rfl
    · exact (Store.formed_commit held state entry s).2 hf

/-- A commit of what was loaded and selected in an earlier state, by an entry that says so. -/
theorem Steady.commit (h : Steady e e') {d : Definition} {i : Instance} {t : Transition}
    {workflow entityId : String} {entry : HistoryEntry} (hd : e.registry.get? workflow = some d)
    (hi : e.store.get? (workflow, entityId) = .ok (some i))
    (ht : d.select? i.state entry.event = some t) (fromState : entry.fromState = some i.state)
    (toState : entry.toState = t.target) :
    Steady e' (onStoreOf (Store.commit i t.target entry) e').2 where
  orderly := orderly_commit i t.target entry e'
  registry := rfl
  instances ho' key := by
    have ho := h.orderly.1 ho'
    obtain ⟨before, hbefore, rfl⟩ := ho.stored_of_get? hi
    have hkey : before.current.key = (workflow, entityId) := ho.key_eq hbefore
    rcases ho'.commit_cases before.current t.target entry with
      hsame | ⟨now, hnow, hversion, hnext⟩
    · rw [hsame]
      exact evolves_rfl _ _
    · rw [hnext]
      by_cases hother : key = before.current.key
      · subst hother
        -- The version that was loaded is stored, so nothing has happened to the instance since.
        have hrel := h.instances ho before.current.key
        rw [hnow, hkey, hbefore] at hrel
        obtain ⟨hrel⟩ := hrel
        obtain rfl : now = before := by
          rcases hrel.eq_or_lt with heq | hlt
          · exact heq
          · omega
        rw [hnow, if_pos rfl, h.registry, ← toState]
        refine .some (.single (.intro fromState ⟨d, t, _, ?_, fromState, ht, toState.symm⟩))
        obtain rfl : now.current.workflow = workflow := congrArg Prod.fst hkey
        exact hd
      · rw [if_neg hother]
        exact evolves_rfl _ _

/-! ## Transitions and cascades -/

/-- Transitions and cascades change instances by permitted commits only. -/
theorem Steady.respected : Respected Steady where
  refl _ := .of_same rfl rfl
  trans _ _ _ := Steady.trans
  observe _ _ _ := .of_same rfl rfl
  now _ := .of_same rfl rfl
  newIdentifier _ := .of_same rfl rfl
  nextCall _ := .of_same rfl rfl
  commit {e e' d i t workflow entityId event} context _ hd hi ht h := by
    have hnow : Steady e' (now e').2 := .of_same rfl rfl
    exact hnow.trans ((h.trans hnow).commit hd hi ht rfl rfl)
  bypass {e e' name hook n seen state event} entry _ _ _ := by
    refine ⟨?_, rfl, fun ho key => ?_⟩
    · rcases commitDirectly_cases seen.subject state entry e' with same | same <;> rw [same]
      exact orderly_commit _ _ _ _
    · obtain ⟨s, hs, -⟩ := ho.store
      rw [commitDirectly_memory hs]
      exact evolves_rfl _ _

theorem published_steady (x : DomainEvent) (e : Engine) : Steady e (observe (.published x) e).2 :=
  .of_same rfl rfl

theorem fire_steady (workflow entityId event : String) (context : TransitionContext) :
    Keeps Steady (fire workflow entityId event context) :=
  fire_keeps Steady.respected published_steady workflow entityId event context

theorem processEvent_steady (x : DomainEvent) : Keeps Steady (processEvent x) :=
  processEvent_keeps Steady.respected published_steady x

theorem publishEvent_steady (name : String) (payload : Json) (trail : CascadeTrail) :
    Keeps Steady (publishEvent name payload trail) :=
  publishEvent_keeps Steady.respected published_steady name payload trail

theorem onEvent_steady (name : String) (payload : Json) : Keeps Steady (onEvent name payload) :=
  onEvent_keeps Steady.respected published_steady name payload

end Engine

end WorkflowRules
