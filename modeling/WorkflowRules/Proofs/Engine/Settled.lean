import WorkflowRules.Proofs.Cascade.Termination
import WorkflowRules.Proofs.Engine.Commands

/-!
# What a transition does to stored instances

In an engine in memory whose hooks set off nothing, a transition of an instance is either refused and
changes nothing, or it commits one entry to that instance. In that case the event that names the new
state tells the entry.

* `StoredInstance.next` — a stored instance after an entry
* `Announces` — the event that tells an entry
* `Engine.Commits` — one entry was committed to one instance
* `Engine.settle_cases` — the two ends of a transition, before anything is published
* `Engine.transition_refused` — a refused transition publishes nothing
* `Engine.fire_ne_breakdown` — where no hook publishes, every transition goes through or is refused
-/

namespace WorkflowRules

/-- A stored instance after the commit of an entry to the version that it has. -/
def StoredInstance.next (stored : StoredInstance) (entry : HistoryEntry) : StoredInstance :=
  stored.commit (stored.current.version + 1) entry.toState entry

/-- The entry of the history that a commit adds. -/
def StoredInstance.lastEntry (stored : StoredInstance) (entry : HistoryEntry) : HistoryEntry :=
  { entry with sequence := stored.current.version + 1 }

/-- The event tells an entry, with the instance as the entry has left it. -/
structure Announces (i : Instance) (entry : HistoryEntry) (y : DomainEvent) : Prop where
  name : y.name = workflowEventName i.workflow entry.toState
  payload : y.payload = .ofFields
    [("instance", (i.moved entry.toState entry.sequence entry.timestamp).toJson),
      ("event", .string entry.event), ("context", entry.context)]

namespace Engine

open Operation (Keeps bind_state forEach_state)

/-- Nothing is stored, and no hook or definition is registered or dropped. -/
structure Idle (e e' : Engine) : Prop where
  store : e'.store = e.store
  hooks : e'.hooks = e.hooks
  registry : e'.registry = e.registry

theorem Idle.isPreorder : IsPreorder Engine Idle where
  refl _ := ⟨rfl, rfl, rfl⟩
  trans _ _ _ hab hbc :=
    ⟨hbc.store.trans hab.store, hbc.hooks.trans hab.hooks, hbc.registry.trans hab.registry⟩

/-- An entry was committed to one instance, and all others are as they were. -/
structure Commits (e e' : Engine) (key : InstanceKey) (stored : StoredInstance)
    (entry : HistoryEntry) : Prop where
  found : e.stored? key = some stored
  left : e'.stored? key = some (stored.next entry)
  others : ∀ other, other ≠ key → e'.stored? other = e.stored? other

variable {e e' : Engine}

theorem Idle.rfl : Idle e e := Idle.isPreorder.refl e

theorem Idle.trans {c : Engine} (h₁ : Idle e e') (h₂ : Idle e' c) : Idle e c :=
  Idle.isPreorder.trans _ _ _ h₁ h₂

theorem Idle.orderly (h : Idle e e') (ho : e.Orderly) : e'.Orderly :=
  (orderly_congr h.store h.registry).2 ho

theorem Idle.memory (h : Idle e e') {s : MemoryStore} (memory : e.store = .memory s) :
    e'.store = .memory s := h.store.trans memory

theorem Idle.stored? (h : Idle e e') (key : InstanceKey) : e'.stored? key = e.stored? key := by
  rw [Engine.stored?, h.store]
  rfl

/-- A commit may come after an idle step. -/
theorem Commits.after_idle {start : Engine} {key : InstanceKey} {stored : StoredInstance}
    {entry : HistoryEntry} (hs : Idle start e) (h : Commits e e' key stored entry) :
    Commits start e' key stored entry where
  found := (hs.stored? key).symm.trans h.found
  left := h.left
  others other hne := (h.others other hne).trans (hs.stored? other)

/-- A commit may come before an idle step. -/
theorem Commits.before_idle {last : Engine} {key : InstanceKey} {stored : StoredInstance}
    {entry : HistoryEntry} (h : Commits e e' key stored entry) (hs : Idle e' last) :
    Commits e last key stored entry where
  found := h.found
  left := (hs.stored? key).trans h.left
  others other hne := (hs.stored? other).trans (h.others other hne)

theorem observe_idle (o : Observation) (e : Engine) : Idle e (observe o e).2 := ⟨rfl, rfl, rfl⟩

theorem newEvent_idle {name : String} {payload : Json} {trail : CascadeTrail}
    {r : Except Failure DomainEvent} (h : newEvent name payload trail e = (r, e')) : Idle e e' := by
  obtain ⟨-, rfl⟩ := Prod.mk.inj ((newEvent_apply _ _ _ e).symm.trans h)
  exact ⟨rfl, rfl, rfl⟩

/-! ## Guards and hooks -/

/-- To ask guards commits nothing. -/
theorem checkGuards_idle (seen : HookContext) (names : List String) :
    Keeps Idle (checkGuards seen names) := by
  refine Keeps.forEach Idle.isPreorder (fun name => ?_) names
  refine Keeps.bind Idle.isPreorder (Keeps.view Idle.isPreorder _) fun found => ?_
  cases found with
  | none => exact Keeps.fail Idle.isPreorder _
  | some guard =>
    refine Keeps.bind Idle.isPreorder (observe_idle _) fun _ => ?_
    refine Keeps.bind Idle.isPreorder (fun _ => ⟨.refl _, .refl _, .refl _⟩) fun n => ?_
    rcases guard n seen with reason | (_ | _)
    · exact Keeps.fail Idle.isPreorder _
    · exact Keeps.fail Idle.isPreorder _
    · exact Keeps.pure Idle.isPreorder _

/-- Nobody gets past an engine in memory, and trying to does not fail. -/
theorem bypass_memory {s : MemoryStore} (memory : e.store = .memory s) (seen : HookContext)
    (state event : String) : bypass seen state event e = (.ok (), (now e).2) := by
  have read : now e = (.ok e.nextTime, (now e).2) := rfl
  unfold bypass
  rw [Operation.bind_ok _ read]
  exact commitDirectly_memory (e := (now e).2) memory _ _ _

theorem hooksNamed_idle (names : List String) : Keeps Idle (hooksNamed names) := by
  induction names with
  | nil => exact Keeps.pure Idle.isPreorder _
  | cons name rest ih =>
    refine Keeps.bind Idle.isPreorder (fun e => ?_) fun hook =>
      Keeps.bind Idle.isPreorder ih fun _ => Keeps.pure Idle.isPreorder _
    rw [hookNamed_apply]
    exact .rfl

section Mute

-- What hooks publish is heard by nobody, whatever is reserved.
variable {publish : Publish} (mute : ∀ x, publish x = Pure.pure ()) {s : MemoryStore}
  (memory : e.store = .memory s)

include mute memory

/-- A hook that sets off nothing comes to an end, well or not, and nothing is stored. -/
theorem runHook_idle (hook : Hook) (seen : HookContext) (name : String) :
    ∃ failure e', runHook publish seen name hook e = (.ok failure, e') ∧ Idle e e' := by
  obtain ⟨numbered, hnumbered, idle⟩ : ∃ numbered : Engine,
      runHook publish seen name hook e = applyEffect publish seen (hook e.called seen) numbered ∧
        Idle e numbered := ⟨_, rfl, rfl, rfl, rfl⟩
  rw [hnumbered]
  cases hook e.called seen with
  | nothing => exact ⟨none, _, rfl, idle⟩
  | fail reason => exact ⟨some reason, _, rfl, idle⟩
  | publish event payload =>
    obtain ⟨y, made, hmade⟩ := exists_newEvent event payload .root numbered
    refine ⟨none, made, ?_, idle.trans (newEvent_idle hmade)⟩
    rw [applyEffect, Operation.bind_ok _ hmade, mute]
    rfl
  | commit state event =>
    have passed := Operation.attempt_ok (bypass_memory (idle.memory memory) seen state event)
    exact ⟨none, _, Operation.bind_ok _ passed, idle.trans ⟨rfl, rfl, rfl⟩⟩

/-- Where publications do nothing, hooks before the commit do nothing to the store. -/
theorem runBeforeHooks_idle (seen : HookContext) (names : List String) :
    Idle e (runBeforeHooks publish seen names e).2 := by
  refine bind_state Idle.isPreorder (hooksNamed_idle names e) fun hooks s hs => ?_
  obtain ⟨-, rfl⟩ := hooksNamed_ok hs
  refine forEach_state Idle.isPreorder (fun hook _ s' hs' => ?_) s .rfl
  obtain ⟨failure, s'', hrun, hidle⟩ := runHook_idle mute (hs'.memory memory) hook.2 seen hook.1
  unfold runBeforeHook
  rw [Operation.bind_ok _ hrun]
  cases failure <;> exact hidle

/--
Where publications do nothing, hooks after the commit do nothing to the store, and they always come
to an end.
-/
theorem runAfterHooks_idle (seen : HookContext) (names : List String) :
    ∃ e', runAfterHooks publish seen names e = (.ok (), e') ∧ Idle e e' := by
  induction names generalizing e with
  | nil => exact ⟨e, rfl, .rfl⟩
  | cons name rest ih =>
    have hfirst : ∃ s, runAfterHook publish seen name e = (.ok (), s) ∧ Idle e s := by
      unfold runAfterHook
      rw [Operation.bind_ok _ (Operation.view_apply _ e)]
      cases hh : e.hooks.get? name with
      | none => exact ⟨e, rfl, .rfl⟩
      | some hook =>
        obtain ⟨failure, s, hrun, hidle⟩ := runHook_idle mute memory hook seen name
        exact ⟨s, Operation.bind_ok _ hrun, hidle⟩
    obtain ⟨s, hfirst, hidle⟩ := hfirst
    obtain ⟨s', hrest, hidle'⟩ := ih (hidle.memory memory)
    refine ⟨s', ?_, hidle.trans hidle'⟩
    rw [runAfterHooks, Operation.forEach_cons, Operation.bind_ok _ hfirst]
    exact hrest

end Mute

/-! ## Transitions -/

/-- A commit to the version that is stored. -/
theorem commits_stored (h : ∃ s, e.store = .memory s ∧ (Store.memory s).Formed)
    {key : InstanceKey} {stored : StoredInstance} (found : e.stored? key = some stored) (entry : HistoryEntry) :
    ∃ e', onStoreOf (Store.commit stored.current entry.toState entry) e =
        (.ok (stored.next entry).current, e') ∧ Commits e e' key stored entry := by
  obtain ⟨s, hs, hf⟩ := h
  have hstored (other : InstanceKey) : e.stored? other = s.instances.get? other := by
    rw [Engine.stored?, hs]
    rfl
  have hget : s.instances.get? key = some stored := (hstored key).symm.trans found
  obtain rfl : stored.current.key = key := hf key stored hget
  have hcommit : Store.commit stored.current entry.toState entry e.store =
      (.ok (stored.next entry).current,
        .memory ⟨s.instances.insert stored.current.key (stored.next entry)⟩) := by
    rw [hs]
    exact Store.onEither_memory (MemoryStore.commit_held hget rfl entry.toState entry) _
  refine ⟨{ e with store := .memory ⟨s.instances.insert stored.current.key (stored.next entry)⟩ },
    ?_, found, ?_, fun other hne => ?_⟩
  · show ((Store.commit stored.current entry.toState entry e.store).1,
      { e with store := (Store.commit stored.current entry.toState entry e.store).2 }) = _
    rw [hcommit]
  · exact Keyed.get?_insert_self _ _ _
  · exact (Keyed.get?_insert_of_ne _ _ hne).trans (hstored other).symm

/-- The entry of a transition of a stored instance. -/
def entryFor (stored : StoredInstance) (t : Transition) (event : String)
    (context : TransitionContext) (time : Timestamp) : HistoryEntry :=
  entryOf (contextOf stored.current t event context) time

/-- What the hooks after the commit of this entry see. -/
def committedContext (stored : StoredInstance) (t : Transition) (event : String)
    (context : TransitionContext) (time : Timestamp) : HookContext :=
  { contextOf stored.current t event context with
    subject := (stored.next (entryFor stored t event context time)).current }

/-- A transition up to its commit: it is refused, or it adds one entry. -/
theorem advance_cases (h : e.Orderly) (workflow entityId event : String)
    (context : TransitionContext) :
    (∃ f e', advance silent workflow entityId event context e = (.error f, e') ∧ Idle e e') ∨
      ∃ stored t time e',
        advance silent workflow entityId event context e =
          (.ok (committedContext stored t event context time, t.afterHooks), e') ∧
        Commits e e' (workflow, entityId) stored (entryFor stored t event context time) := by
  obtain ⟨m, memory, -⟩ := h.store
  unfold advance
  -- everything before the commit only looks, and may refuse
  rcases hd : lookup workflow e with ⟨f | d, e₁⟩
  · rw [Operation.bind_error _ hd]
    rw [lookup_apply] at hd
    exact .inl ⟨f, e₁, rfl, (Prod.mk.inj hd).2 ▸ .rfl⟩
  obtain ⟨-, rfl⟩ := lookup_ok hd
  have free : reserve silent.held (workflow, entityId) e₁ = (.ok (), e₁) := rfl
  rw [Operation.bind_ok _ hd, Operation.bind_ok _ free]
  rcases hi : load (workflow, entityId) e₁ with ⟨f | i, e₂⟩
  · rw [Operation.bind_error _ hi]
    rw [load_apply] at hi
    exact .inl ⟨f, e₂, rfl, (Prod.mk.inj hi).2 ▸ .rfl⟩
  obtain ⟨hget, rfl⟩ := load_ok hi
  rw [Operation.bind_ok _ hi]
  rcases ht : select d i event e₂ with ⟨f | t, e₃⟩
  · rw [Operation.bind_error _ ht]
    rw [select_apply] at ht
    exact .inl ⟨f, e₃, rfl, (Prod.mk.inj ht).2 ▸ .rfl⟩
  obtain ⟨-, rfl⟩ := select_ok ht
  rw [Operation.bind_ok _ ht]
  obtain ⟨stored, hstored, rfl⟩ := h.stored_of_get? hget
  have hguards := checkGuards_idle (contextOf stored.current t event context) t.guards e₃
  rcases hg : checkGuards (contextOf stored.current t event context) t.guards e₃ with ⟨f | _, e₄⟩
  · rw [hg] at hguards
    exact .inl ⟨f, e₄, Operation.bind_error _ hg, hguards⟩
  rw [hg] at hguards
  have mute : ∀ x, silent.holding (workflow, entityId) x = Pure.pure () := fun _ => rfl
  have hbefore := runBeforeHooks_idle mute (hguards.memory memory)
    (contextOf stored.current t event context) t.beforeHooks
  rcases hb : runBeforeHooks (silent.holding (workflow, entityId))
    (contextOf stored.current t event context) t.beforeHooks e₄ with ⟨f | _, e₅⟩
  · rw [hb] at hbefore
    refine .inl ⟨f, e₅, ?_, hguards.trans hbefore⟩
    rw [Operation.bind_ok _ hg, Operation.bind_error _ hb]
  rw [hb] at hbefore
  have hidle : Idle e₃ (now e₅).2 := (hguards.trans hbefore).trans ⟨rfl, rfl, rfl⟩
  obtain ⟨e₆, hcommit, hcommits⟩ :=
    commits_stored (hidle.orderly h).store ((hidle.stored? _).trans hstored)
      (entryFor stored t event context e₅.nextTime)
  refine .inr ⟨stored, t, e₅.nextTime, e₆, ?_, hcommits.after_idle hidle⟩
  have hentry : commit (contextOf stored.current t event context) e₅ =
      (.ok (stored.next (entryFor stored t event context e₅.nextTime)).current, e₆) := hcommit
  rw [Operation.bind_ok _ hg, Operation.bind_ok _ hb, Operation.bind_ok _ hentry]
  rfl

/--
A transition up to its publication is refused and changes nothing, or it adds one entry, which the
event that is to be published tells.
-/
theorem settle_cases (h : e.Orderly) (workflow entityId event : String)
    (context : TransitionContext) :
    (∃ f e', settle silent workflow entityId event context e = (.error f, e') ∧ Idle e e') ∨
      ∃ stored entry y e',
        settle silent workflow entityId event context e = (.ok ((stored.next entry).current, y), e') ∧
        Commits e e' (workflow, entityId) stored entry ∧
        Announces stored.current (stored.lastEntry entry) y := by
  have steady := advance_keeps Steady.respected (silent_respects Steady.respected) workflow entityId
    event context e
  rcases advance_cases h workflow entityId event context with
    ⟨f, e', hadvance, hidle⟩ | ⟨stored, t, time, e', hadvance, hcommits⟩
  · exact .inl ⟨f, e', Operation.bind_error _ hadvance, hidle⟩
  · rw [hadvance] at steady
    obtain ⟨m, memory, -⟩ := (steady.orderly.2 h).store
    have mute : ∀ x, silent x = Pure.pure () := fun _ => rfl
    obtain ⟨e₁, hafter, hidle⟩ := runAfterHooks_idle mute memory
      (committedContext stored t event context time) t.afterHooks
    obtain ⟨y, e₂, hy⟩ := exists_newEvent
      (workflowEventName workflow (committedContext stored t event context time).subject.state)
      (enteredPayload (committedContext stored t event context time)) context.trail e₁
    obtain ⟨hname, hpayload⟩ := newEvent_content hy
    have hkey : stored.current.workflow = workflow :=
      congrArg Prod.fst (h.key_eq hcommits.found)
    refine .inr ⟨stored, entryFor stored t event context time, y, e₂, ?_,
      hcommits.before_idle (hidle.trans (newEvent_idle hy)), hkey ▸ hname, hpayload⟩
    unfold settle
    rw [Operation.bind_ok _ hadvance]
    dsimp only
    rw [Operation.bind_ok _ hafter, Operation.bind_ok _ hy]
    rfl

/-- In memory every instance can be fetched. -/
theorem Orderly.readable (h : e.Orderly) : e.Readable := by
  obtain ⟨s, hs, -⟩ := h.store
  rw [Readable, hs]
  trivial

/-- What is refused before the commit is refused altogether. -/
theorem fire_of_advance {workflow entityId event : String} {context : TransitionContext} {f : Failure}
    (h : advance publish workflow entityId event context e = (.error f, e')) :
    fire workflow entityId event context e = (.error f, e') := by
  unfold fire transition settle
  rw [Operation.bind_error _ (Operation.bind_error _ h)]

/-- A refused transition changes nothing that is stored, and publishes nothing. -/
theorem transition_refused {publish : Publish} (plain : publish.Plain) (h : e.Orderly) (hq : Quiet e)
    {workflow entityId event : String} {context : TransitionContext} {reason : AutomationError}
    (refused : transition publish workflow entityId event context e = (.error (.error reason), e')) :
    Idle e e' ∧ e'.published = e.published := by
  have hsilent := settle_keeps published_respected (silent_respects published_respected)
    workflow entityId event context e
  unfold transition at refused
  rcases settle_cases h workflow entityId event context with
    ⟨f, s, hsettle, hidle⟩ | ⟨stored, entry, y, s, hsettle, -, -⟩
  · have hpublic := (settle_congr hq plain.free workflow entityId event context).trans hsettle
    rw [Operation.bind_error _ hpublic] at refused
    obtain ⟨-, rfl⟩ := Prod.mk.inj refused
    rw [hsettle] at hsilent
    exact ⟨hidle, hsilent⟩
  · -- once the entry is committed, the publication is not refused
    have hpublic := (settle_congr hq plain.free workflow entityId event context).trans hsettle
    rw [Operation.bind_ok _ hpublic] at refused
    rcases Operation.bind_eq_error refused with hy | ⟨_, s', -, hdone⟩
    · exact absurd (congrArg Prod.fst hy) (plain.accepted y s reason)
    · cases hdone

/-- Where no hook publishes, a transition comes to its end, well or not. -/
theorem fire_ne_breakdown (readable : e.Readable) (hq : Quiet e) (workflow entityId event : String)
    (context : TransitionContext) (why : Breakdown) :
    (fire workflow entityId event context e).1 ≠ .error (.breakdown why) := by
  have survives (why : Breakdown) : Operation.Survives why (Bears why)
      (settle silent workflow entityId event context) :=
    bears_handling.settle (silent_related bears_handling) (bears_select fun _ => rfl) _ _ _ _
  have setup := settle_keeps SameSetup.respected silent_setup workflow entityId event context e
  have hpublic := settle_congr hq publish_plain.free workflow entityId event context
  unfold fire transition
  rcases hsettle : settle silent workflow entityId event context e with ⟨f | ⟨i, y⟩, s⟩
  · have unbroken := (survives why e fun _ => readable).1
    rw [hsettle] at unbroken
    rw [Operation.bind_error _ (hpublic.trans hsettle)]
    exact fun broken => unbroken (congrArg Except.error (Except.error.inj broken))
  · have bears := (survives .unreadable e fun _ => readable).2
    rw [hsettle] at bears setup
    obtain ⟨last, hy⟩ := publish_succeeds (hq.of_setup setup) (bears rfl) y
    rw [Operation.bind_ok _ (hpublic.trans hsettle)]
    have published := Operation.bind_ok (fun _ => (pure i : Operation Engine Instance)) hy
    exact fun broken => by cases (congrArg Prod.fst published).symm.trans broken

end Engine

end WorkflowRules
