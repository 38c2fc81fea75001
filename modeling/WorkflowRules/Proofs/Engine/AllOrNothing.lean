import WorkflowRules.Proofs.Cascade.Sample
import WorkflowRules.Proofs.Engine.Observed
import WorkflowRules.Proofs.Engine.Settled

/-!
# Transitions are all or nothing

In an engine in memory whose hooks leave it alone and where no rule is subscribed to what happens to
instances, a transition has two outcomes. It goes through all of its stages, in their order: guards,
hooks before the commit, commit, hooks after the commit, publication. Or it is refused; then handlers
were called up to the one that stands in the way, and nothing else has happened.

The three lists of handlers are gone through in different ways. Guards are looked up one by one, each
when its turn comes. The hooks before the commit are all looked up before the first of them runs. The
hooks after the commit are looked up one by one again, and those that are missing are passed over.

* `Engine.Detached` — engines in memory where nothing sets off anything else
* `Engine.Staged` — a transition that goes through all of its stages
* `Engine.Refused` — a transition that is refused, with the calls of handlers until then
* `Engine.fire_allOrNothing` — firing a transition is one or the other
-/

namespace WorkflowRules.Engine

variable {e e' : Engine} {workflow entityId event : String} {context : TransitionContext}

/-- An engine in memory whose hooks leave it alone and where no transition triggers a rule. -/
structure Detached (e : Engine) : Prop where
  store : ∃ s, e.store = .memory s ∧ (Store.memory s).Formed
  hooks : InertHooks e
  rules : .rules ∈ e.subscribers →
    ∀ workflow state, e.rules.bucket (workflowEventName workflow state) = []

/-! ## Choosing a transition -/

/-- What a transition starts from. -/
structure Choice where
  definition : Definition
  stored : StoredInstance
  transition : Transition

namespace Choice

variable (c : Choice) (event : String) (context : TransitionContext) (time : Timestamp)

/-- What the handlers before the commit see. -/
def seen : HookContext := contextOf c.stored.current c.transition event context

/-- The entry of the transition. -/
def entry : HistoryEntry := entryFor c.stored c.transition event context time

/-- What the hooks after the commit see. -/
def seenAfter : HookContext := committedContext c.stored c.transition event context time

/-- The calls of all guards. -/
def guardCalls : List Observation :=
  c.transition.guards.map (.guardAsked · (c.seen event context))

/-- The calls of all hooks before the commit. -/
def beforeCalls : List Observation :=
  c.transition.beforeHooks.map (.hookRan · (c.seen event context))

/-- The calls of the hooks after the commit, as far as they are registered. -/
def afterCalls (e : Engine) : List Observation :=
  (c.transition.afterHooks.filter e.hooks.contains).map (.hookRan · (c.seenAfter event context time))

end Choice

/-- The transition that an event takes from the state of the instance. -/
structure Chosen (e : Engine) (workflow entityId event : String) (c : Choice) : Prop where
  registered : e.registry.get? workflow = some c.definition
  found : e.stored? (workflow, entityId) = some c.stored
  selected : c.definition.select? c.stored.current.state event = some c.transition

/-- There is no transition to take. -/
inductive Unchosen (e : Engine) (workflow entityId event : String) : AutomationError → Prop
  | workflow (missing : e.registry.get? workflow = none) :
      Unchosen e workflow entityId event (workflowNotFound workflow)
  | entity {d : Definition} (registered : e.registry.get? workflow = some d)
      (missing : e.stored? (workflow, entityId) = none) :
      Unchosen e workflow entityId event (.instanceNotFound (workflow, entityId))
  | transition {d : Definition} {stored : StoredInstance}
      (registered : e.registry.get? workflow = some d)
      (found : e.stored? (workflow, entityId) = some stored)
      (missing : d.select? stored.current.state event = none) :
      Unchosen e workflow entityId event (.invalidTransition stored.current.state event)

/-! ## Refusals -/

/-- Why a transition is refused, and which handlers are called until then. -/
inductive Refused (e : Engine) (workflow entityId event : String) (context : TransitionContext) :
    AutomationError → List Observation → Prop
  | unchosen {reason : AutomationError} (why : Unchosen e workflow entityId event reason) :
      Refused e workflow entityId event context reason []
  /-- The guards before this one agree; when its turn comes it is called, unless it is missing. -/
  | guard {c : Choice} {before after : List String} {name : String} {reason : AutomationError}
      {calls : List Observation} (chosen : Chosen e workflow entityId event c)
      (split : c.transition.guards = before ++ name :: after)
      (agreed : AllAgree e (c.seen event context) before)
      (why : Objects (e.watched (before.map (.guardAsked · (c.seen event context))))
        (c.seen event context) name reason calls) :
      Refused e workflow entityId event context reason
        (before.map (.guardAsked · (c.seen event context)) ++ calls)
  /-- No hook runs when one of them is missing. -/
  | unknownHook {c : Choice} {before after : List String} {name : String}
      (chosen : Chosen e workflow entityId event c)
      (agreed : AllAgree e (c.seen event context) c.transition.guards)
      (split : c.transition.beforeHooks = before ++ name :: after)
      (known : ∀ h ∈ before, e.hooks.contains h = true) (missing : e.hooks.get? name = none) :
      Refused e workflow entityId event context
        (.definition ("hook '" ++ name ++ "' is not registered")) (c.guardCalls event context)
  /-- The hooks before this one pass; it fails. -/
  | hook {c : Choice} {before after : List String} {name : String} {hook : Hook} {text : String}
      (chosen : Chosen e workflow entityId event c)
      (agreed : AllAgree e (c.seen event context) c.transition.guards)
      (split : c.transition.beforeHooks = before ++ name :: after)
      (known : ∀ h ∈ c.transition.beforeHooks, e.hooks.contains h = true)
      (passed : AllComply (e.watched (c.guardCalls event context)) (c.seen event context) before)
      (registered : e.hooks.get? name = some hook)
      (fails : hook (e.watched (c.guardCalls event context ++
          before.map (.hookRan · (c.seen event context)))).called (c.seen event context) =
        .fail text) :
      Refused e workflow entityId event context (.hookFailed name text)
        (c.guardCalls event context ++ (before ++ [name]).map (.hookRan · (c.seen event context)))

/-! ## Transitions that go through -/

/-- The engines between the stages of a transition. -/
structure Stages where
  /-- After the guards. -/
  asked : Engine
  /-- After the hooks before the commit. -/
  prepared : Engine
  committed : Engine
  /-- After the hooks after the commit. -/
  concluded : Engine
  /-- After the event was made that is going to be published. -/
  made : Engine

/-- A transition goes through all of its stages. -/
structure Staged (e : Engine) (workflow entityId event : String) (context : TransitionContext)
    (c : Choice) (time : Timestamp) (y : DomainEvent) (s : Stages) (e' : Engine) : Prop where
  chosen : Chosen e workflow entityId event c
  guards : checkGuards (c.seen event context) c.transition.guards e = (.ok (), s.asked)
  agreed : AllAgree e (c.seen event context) c.transition.guards
  asked : s.asked = e.watched (c.guardCalls event context)
  before : runBeforeHooks (publish.holding (workflow, entityId)) (c.seen event context)
    c.transition.beforeHooks s.asked = (.ok (), s.prepared)
  passed : AllComply s.asked (c.seen event context) c.transition.beforeHooks
  prepared : s.prepared = s.asked.watched (c.beforeCalls event context)
  commit : commit (c.seen event context) s.prepared =
    (.ok (c.stored.next (c.entry event context time)).current, s.committed)
  /-- One entry is added to one instance, and nothing is observed meanwhile. -/
  commits : Commits s.prepared s.committed (workflow, entityId) c.stored (c.entry event context time)
  unobserved : s.committed.trace = s.prepared.trace
  after : runAfterHooks publish (c.seenAfter event context time) c.transition.afterHooks s.committed =
    (.ok (), s.concluded)
  concluded : s.concluded = s.committed.watched (c.afterCalls event context time e)
  made : newEvent (workflowEventName workflow c.transition.target)
    (enteredPayload (c.seenAfter event context time)) context.trail s.concluded = (.ok y, s.made)
  announced : publish y s.made = (.ok (), e')
  /-- The event is published once, and delivered to every listener. -/
  published : e' = s.made.watched (.published y :: e.subscribers.filterMap (delivery? y))

/-- What a transition that goes through comes to. -/
structure Completed (e : Engine) (workflow entityId event : String) (context : TransitionContext)
    (c : Choice) (time : Timestamp) (y : DomainEvent) (e' : Engine) : Prop where
  commits : Commits e e' (workflow, entityId) c.stored (c.entry event context time)
  announces : Announces c.stored.current (c.stored.lastEntry (c.entry event context time)) y
  trail : y.trail = context.trail
  published : e'.published = e.published ++ [y]
  observed : e'.trace = (c.guardCalls event context ++ c.beforeCalls event context ++
    c.afterCalls event context time e ++
    .published y :: e.subscribers.filterMap (delivery? y)).reverse ++ e.trace

/-! ## Stage by stage -/

/-- A transition is chosen, or there is a reason why none is. -/
theorem exists_chosen_or (e : Engine) (workflow entityId event : String) :
    (∃ c, Chosen e workflow entityId event c) ∨ ∃ reason, Unchosen e workflow entityId event reason := by
  cases registered : e.registry.get? workflow with
  | none => exact .inr ⟨_, .workflow registered⟩
  | some d =>
    cases found : e.stored? (workflow, entityId) with
    | none => exact .inr ⟨_, .entity registered found⟩
    | some stored =>
      cases selected : d.select? stored.current.state event with
      | none => exact .inr ⟨_, .transition registered found selected⟩
      | some t => exact .inl ⟨⟨d, stored, t⟩, registered, found, selected⟩

section Memory

variable {s : MemoryStore} (memory : e.store = .memory s)

include memory

theorem get?_stored (key : InstanceKey) :
    e.store.get? key = .ok ((e.stored? key).map (·.current)) := by
  rw [Engine.stored?, memory]
  rfl

/-- An operation that starts by choosing a transition is refused when there is none. -/
theorem choosing_unchosen {α : Type} {reason : AutomationError}
    (why : Unchosen e workflow entityId event reason)
    (next : Instance → Transition → Operation Engine α) :
    (do
      let d ← lookup workflow
      let i ← load (workflow, entityId)
      let t ← select d i event
      next i t) e = (.error (.error reason), e) := by
  cases why with
  | workflow missing => exact Operation.bind_error _ (by rw [lookup_apply, missing])
  | @entity d registered missing =>
    have hd : lookup workflow e = (.ok d, e) := by rw [lookup_apply, registered]
    rw [Operation.bind_ok _ hd]
    refine Operation.bind_error _ ?_
    rw [load_apply, get?_stored memory, missing]
    rfl
  | @transition d stored registered found missing =>
    have hd : lookup workflow e = (.ok d, e) := by rw [lookup_apply, registered]
    have hi : load (workflow, entityId) e = (.ok stored.current, e) := by
      rw [load_apply, get?_stored memory, found]
      rfl
    rw [Operation.bind_ok _ hd, Operation.bind_ok _ hi]
    exact Operation.bind_error _ (by rw [select_apply, missing])

/-- What is left to do once the transition is chosen. -/
theorem choosing_chosen {α : Type} {c : Choice} (h : Chosen e workflow entityId event c)
    (next : Instance → Transition → Operation Engine α) :
    (do
      let d ← lookup workflow
      let i ← load (workflow, entityId)
      let t ← select d i event
      next i t) e = next c.stored.current c.transition e := by
  have hd : lookup workflow e = (.ok c.definition, e) := by rw [lookup_apply, h.registered]
  have hi : load (workflow, entityId) e = (.ok c.stored.current, e) := by
    rw [load_apply, get?_stored memory, h.found]
    rfl
  have ht : select c.definition c.stored.current event e = (.ok c.transition, e) := by
    rw [select_apply, h.selected]
  rw [Operation.bind_ok _ hd, Operation.bind_ok _ hi, Operation.bind_ok _ ht]

theorem advance_unchosen {publish : Publish} (free : publish.held = []) {reason : AutomationError}
    (why : Unchosen e workflow entityId event reason) :
    advance publish workflow entityId event context e = (.error (.error reason), e) := by
  simp only [advance, free, reserve_nil, pure_bind]
  exact choosing_unchosen memory why _

theorem advance_chosen {publish : Publish} (free : publish.held = []) (context : TransitionContext)
    {c : Choice} (h : Chosen e workflow entityId event c) :
    advance publish workflow entityId event context e = (do
      checkGuards (c.seen event context) c.transition.guards
      runBeforeHooks (publish.holding (workflow, entityId)) (c.seen event context)
        c.transition.beforeHooks
      let committed ← commit (c.seen event context)
      return ({ c.seen event context with subject := committed }, c.transition.afterHooks)) e := by
  simp only [advance, free, reserve_nil, pure_bind]
  exact choosing_chosen memory h _

end Memory

/-- The commit of a transition, after whatever was observed before. -/
theorem commit_chosen (h : Detached e) {c : Choice}
    (found : e.stored? (workflow, entityId) = some c.stored) (event : String)
    (context : TransitionContext) (os : List Observation) :
    ∃ e', commit (c.seen event context) (e.watched os) =
        (.ok (c.stored.next (c.entry event context e.nextTime)).current, e') ∧
      Commits (e.watched os) e' (workflow, entityId) c.stored (c.entry event context e.nextTime) ∧
      e'.trace = (e.watched os).trace ∧ SameSetup e e' := by
  obtain ⟨e', hcommit, hcommits⟩ := commits_stored (e := (now (e.watched os)).2) h.store found
    (c.entry event context e.nextTime)
  have hstate : (onStoreOf (Store.commit c.stored.current (c.entry event context e.nextTime).toState
      (c.entry event context e.nextTime)) (now (e.watched os)).2).2 = e' := congrArg Prod.snd hcommit
  refine ⟨e', hcommit, hcommits.after_idle (e := (now (e.watched os)).2) ⟨rfl, rfl, rfl⟩, ?_, ?_⟩
  · rw [← hstate]
    rfl
  · rw [← hstate]
    constructor <;> rfl

theorem watched_idle (e : Engine) (os : List Observation) : Idle e (e.watched os) := ⟨rfl, rfl, rfl⟩

theorem published_watched (e : Engine) (os : List Observation) :
    (e.watched os).published = e.published ++ os.filterMap (·.published?) := by
  simp [published, watched]

/-- Calls of handlers publish nothing. -/
theorem published_calls {os : List Observation} (h : ∀ o ∈ os, o.published? = none) :
    (e.watched os).published = e.published := by
  rw [published_watched, List.filterMap_eq_nil_iff.2 h, List.append_nil]

theorem Staged.trace_eq {c : Choice} {time : Timestamp} {y : DomainEvent} {s : Stages}
    (h : Staged e workflow entityId event context c time y s e') :
    e'.trace = (c.guardCalls event context ++ c.beforeCalls event context ++
      c.afterCalls event context time e ++
      .published y :: e.subscribers.filterMap (delivery? y)).reverse ++ e.trace := by
  have hmade : s.made.trace = s.concluded.trace := by
    obtain ⟨-, hstate⟩ := Prod.mk.inj ((newEvent_apply _ _ _ s.concluded).symm.trans h.made)
    rw [← hstate]
  rw [h.published, watched, hmade, h.concluded, watched, h.unobserved, h.prepared, watched, h.asked,
    watched]
  simp

/-- A transition that goes through publishes one event. -/
theorem Staged.published_eq {c : Choice} {time : Timestamp} {y : DomainEvent} {s : Stages}
    (h : Staged e workflow entityId event context c time y s e') :
    e'.published = e.published ++ [y] := by
  have delivered : (e.subscribers.filterMap (delivery? y)).filterMap (·.published?) = [] := by
    refine List.filterMap_eq_nil_iff.2 fun o ho => ?_
    obtain ⟨subscriber, -, hsubscriber⟩ := List.mem_filterMap.1 ho
    cases subscriber <;> cases hsubscriber
    rfl
  have handlers : (c.guardCalls event context ++ c.beforeCalls event context ++
      c.afterCalls event context time e).filterMap (·.published?) = [] := by
    refine List.filterMap_eq_nil_iff.2 fun o ho => ?_
    simp only [Choice.guardCalls, Choice.beforeCalls, Choice.afterCalls, List.mem_append,
      List.mem_map] at ho
    rcases ho with (⟨_, _, rfl⟩ | ⟨_, _, rfl⟩) | ⟨_, _, rfl⟩ <;> rfl
  have hwatched := published_watched e (c.guardCalls event context ++ c.beforeCalls event context ++
    c.afterCalls event context time e ++ .published y :: e.subscribers.filterMap (delivery? y))
  rw [List.filterMap_append, handlers, List.filterMap_cons, delivered] at hwatched
  rw [Engine.published, h.trace_eq]
  exact hwatched

/-- A transition that goes through every stage is complete. -/
theorem Staged.completed {c : Choice} {time : Timestamp} {y : DomainEvent} {s : Stages}
    (formed : ∃ m, e.store = .memory m ∧ (Store.memory m).Formed)
    (h : Staged e workflow entityId event context c time y s e') :
    Completed e workflow entityId event context c time y e' where
  commits := by
    have before : Idle e s.prepared := by
      rw [h.prepared, h.asked]
      exact (watched_idle _ _).trans (watched_idle _ _)
    have after : Idle s.committed e' := by
      have made : Idle s.concluded s.made := newEvent_idle h.made
      rw [h.concluded] at made
      rw [h.published]
      exact (watched_idle _ _).trans (made.trans (watched_idle _ _))
    exact (h.commits.after_idle before).before_idle after
  announces := by
    obtain ⟨m, hm, hformed⟩ := formed
    have hkey : c.stored.current.key = (workflow, entityId) := by
      have found := h.chosen.found
      rw [Engine.stored?, hm] at found
      exact hformed _ _ found
    have hworkflow : c.stored.current.workflow = workflow := congrArg Prod.fst hkey
    obtain ⟨hname, hpayload⟩ := newEvent_content h.made
    exact ⟨hworkflow ▸ hname, hpayload⟩
  trail := newEvent_trail h.made
  published := h.published_eq
  observed := h.trace_eq

/-! ## Firing a transition -/

/-- A transition that is refused publishes nothing. -/
theorem Refused.unpublished {reason : AutomationError} {calls : List Observation}
    (h : Refused e workflow entityId event context reason calls) :
    (e.watched calls).published = e.published := by
  refine published_calls fun o ho => ?_
  cases h with
  | unchosen why => cases ho
  | guard chosen split agreed why =>
    rcases List.mem_append.1 ho with ho | ho
    · obtain ⟨name, -, rfl⟩ := List.mem_map.1 ho
      rfl
    · cases why with
      | unknown missing => cases ho
      | rejects registered answer => rw [List.mem_singleton.1 ho]; rfl
      | fails registered answer => rw [List.mem_singleton.1 ho]; rfl
  | unknownHook chosen agreed split known missing =>
    obtain ⟨name, -, rfl⟩ := List.mem_map.1 ho
    rfl
  | hook chosen agreed split known passed registered fails =>
    rcases List.mem_append.1 ho with ho | ho <;>
      obtain ⟨name, -, rfl⟩ := List.mem_map.1 ho <;> rfl

/-- Once the hooks before the commit have passed, the transition goes through. -/
theorem fire_staged (h : Detached e) {c : Choice} (chosen : Chosen e workflow entityId event c)
    (agreed : AllAgree e (c.seen event context) c.transition.guards)
    (guards : Observed e (checkGuards (c.seen event context) c.transition.guards) (.ok ())
      (c.guardCalls event context))
    (passed : AllComply (e.watched (c.guardCalls event context)) (c.seen event context)
      c.transition.beforeHooks)
    (before : Observed (e.watched (c.guardCalls event context))
      (runBeforeHooks (publish.holding (workflow, entityId)) (c.seen event context)
        c.transition.beforeHooks) (.ok ()) (c.beforeCalls event context)) :
    ∃ time y s e',
      fire workflow entityId event context e =
        (.ok (c.stored.next (c.entry event context time)).current, e') ∧
      Staged e workflow entityId event context c time y s e' := by
  obtain ⟨m, memory, -⟩ := h.store
  have hguards : checkGuards (c.seen event context) c.transition.guards e =
    (.ok (), e.watched (c.guardCalls event context)) := guards
  have hbefore : runBeforeHooks (publish.holding (workflow, entityId)) (c.seen event context)
      c.transition.beforeHooks (e.watched (c.guardCalls event context)) =
    (.ok (), (e.watched (c.guardCalls event context)).watched (c.beforeCalls event context)) := before
  rw [watched_watched] at hbefore
  obtain ⟨committed, hcommit, hcommits, htrace, hsetup⟩ := commit_chosen h chosen.found event context
    (c.guardCalls event context ++ c.beforeCalls event context)
  have hadvance : advance publish workflow entityId event context e =
      (.ok (c.seenAfter event context e.nextTime, c.transition.afterHooks), committed) := by
    rw [advance_chosen memory rfl context chosen, Operation.bind_ok _ hguards,
      Operation.bind_ok _ hbefore, Operation.bind_ok _ hcommit]
    rfl
  -- From here on nothing can be refused any more.
  have hafter : runAfterHooks publish (c.seenAfter event context e.nextTime) c.transition.afterHooks
      committed = (.ok (), committed.watched (c.afterCalls event context e.nextTime e)) := by
    have run : Observed committed _ _ _ := runAfterHooks_observed
      (fun name hook registered => h.hooks name hook (hsetup.hooks ▸ registered)) publish
      (c.seenAfter event context e.nextTime) c.transition.afterHooks
    rwa [hsetup.hooks] at run
  obtain ⟨y, made, hmade⟩ := exists_newEvent (workflowEventName workflow c.transition.target)
    (enteredPayload (c.seenAfter event context e.nextTime)) context.trail
    (committed.watched (c.afterCalls event context e.nextTime e))
  have hsubscribers : made.subscribers = e.subscribers :=
    (newEvent_setup hmade).subscribers.trans hsetup.subscribers
  have untriggered : .rules ∈ made.subscribers → made.rules.bucket y.name = [] := by
    rw [hsubscribers, (newEvent_setup hmade).rules.trans hsetup.rules, (newEvent_content hmade).1]
    exact fun subscribed => h.rules subscribed workflow c.transition.target
  have hpublish : publish y made =
      (.ok (), made.watched (.published y :: e.subscribers.filterMap (delivery? y))) := by
    rw [← hsubscribers]
    exact publish_observed untriggered
  have hsettle : settle publish workflow entityId event context e =
      (.ok ((c.stored.next (c.entry event context e.nextTime)).current, y), made) := by
    unfold settle
    rw [Operation.bind_ok _ hadvance]
    dsimp only
    rw [Operation.bind_ok _ hafter]
    exact Operation.bind_ok _ hmade
  refine ⟨e.nextTime, y, ⟨_, _, committed, _, made⟩, _, ?_,
    { chosen := chosen, guards := hguards, agreed := agreed, asked := rfl, before := hbefore
      passed := passed, prepared := (watched_watched _ _ _).symm, commit := hcommit
      commits := hcommits, unobserved := htrace, after := hafter, concluded := rfl, made := hmade
      announced := hpublish, published := rfl }⟩
  unfold fire transition
  rw [Operation.bind_ok _ hsettle]
  dsimp only
  rw [Operation.bind_ok _ hpublish]
  rfl

/-- Every transition is refused, or goes through. -/
theorem fire_allOrNothing (h : Detached e) (workflow entityId event : String)
    (context : TransitionContext) :
    (∃ c time y s e',
        fire workflow entityId event context e =
          (.ok (c.stored.next (c.entry event context time)).current, e') ∧
        Staged e workflow entityId event context c time y s e' ∧
        Completed e workflow entityId event context c time y e') ∨
      ∃ reason calls,
        fire workflow entityId event context e = (.error (.error reason), e.watched calls) ∧
        Refused e workflow entityId event context reason calls ∧
        (e.watched calls).published = e.published := by
  obtain ⟨m, memory, -⟩ := h.store
  -- one stage after the other may refuse: the choice, the guards, the resolution of hooks, the hooks
  rcases exists_chosen_or e workflow entityId event with ⟨c, chosen⟩ | ⟨reason, why⟩
  · have hadvance : advance publish workflow entityId event context e = _ :=
      advance_chosen memory rfl context chosen
    rcases checkGuards_observed e (c.seen event context) c.transition.guards with
      ⟨agreed, guards⟩ | ⟨before, name, after, reason, calls, split, agreed, why, guards⟩
    · have asked : checkGuards (c.seen event context) c.transition.guards e =
        (.ok (), e.watched (c.guardCalls event context)) := guards
      rw [Operation.bind_ok _ asked] at hadvance
      have inert : InertHooks (e.watched (c.guardCalls event context)) := h.hooks
      rcases runBeforeHooks_observed inert (publish.holding (workflow, entityId)) (c.seen event context)
        c.transition.beforeHooks with
        ⟨passed, hooks⟩ | ⟨before, name, after, split, known, missing, hooks⟩ |
        ⟨before, name, after, hook, text, split, known, passed, registered, fails, hooks⟩
      · obtain ⟨time, y, s, e', run, staged⟩ := fire_staged h chosen agreed guards passed hooks
        exact .inl ⟨c, time, y, s, e', run, staged, staged.completed h.store⟩
      · have refused : Refused e workflow entityId event context _ _ :=
          .unknownHook chosen agreed split known missing
        rw [Operation.bind_error _ hooks] at hadvance
        exact .inr ⟨_, _, fire_of_advance hadvance, refused, refused.unpublished⟩
      · rw [watched_watched] at fails
        have refused : Refused e workflow entityId event context _ _ :=
          .hook chosen agreed split known passed registered fails
        rw [Operation.bind_error _ hooks, watched_watched] at hadvance
        exact .inr ⟨_, _, fire_of_advance hadvance, refused, refused.unpublished⟩
    · have refused : Refused e workflow entityId event context _ _ := .guard chosen split agreed why
      rw [Operation.bind_error _ guards] at hadvance
      exact .inr ⟨_, _, fire_of_advance hadvance, refused, refused.unpublished⟩
  · have refused : Refused e workflow entityId event context _ _ := .unchosen why
    exact .inr ⟨_, _, fire_of_advance (advance_unchosen memory rfl why), refused,
      refused.unpublished⟩

/-! ## An engine with an order to be paid -/

/-- The workflow of orders, with handlers of every kind; nobody has registered the last of them. -/
def sale : Definition :=
  (Definition.ofStates "order" "order" "open" ["open", "paid"]).addTransition
    { sources := ["open"], target := "paid", event := "pay", guards := ["solvent"]
      beforeHooks := ["charge"], afterHooks := ["receipt", "gift"] }

/-- An engine in memory with an open order, where no receipt can be printed. -/
def till : Engine :=
  (createInstance "order" "7" .null none
    { inMemory {} .counting with
      registry := Keyed.empty.insert "order" sale
      guards := Keyed.empty.insert "solvent" fun _ _ => .ok true
      hooks := (Keyed.empty.insert "charge" fun _ _ => .nothing).insert "receipt" fun _ _ =>
        .fail "no paper"
      subscribers := [.listener "monitor", .rules] }).2

theorem detached_till : Detached till where
  store := by
    refine ⟨_, rfl, fun key stored found => ?_⟩
    rcases Keyed.get?_insert_eq_some found with ⟨rfl, rfl⟩ | ⟨-, found⟩
    · rfl
    · cases found
  hooks name hook registered n seen := by
    rcases Keyed.get?_insert_eq_some registered with ⟨-, rfl⟩ | ⟨-, registered⟩
    · exact .inr ⟨_, rfl⟩
    · rcases Keyed.get?_insert_eq_some registered with ⟨-, rfl⟩ | ⟨-, registered⟩
      · exact .inl rfl
      · cases registered
  rules _ _ _ := rfl

/-- An order that is paid goes through every stage. -/
theorem fire_allOrNothing_till :
    Detached till ∧ ∃ c time y s e',
      fire "order" "7" "pay" .empty till =
        (.ok (c.stored.next (c.entry "pay" .empty time)).current, e') ∧
      Staged till "order" "7" "pay" .empty c time y s e' ∧
      Completed till "order" "7" "pay" .empty c time y e' := by
  refine ⟨detached_till, ?_⟩
  rcases fire_allOrNothing detached_till "order" "7" "pay" .empty with done | ⟨_, _, refused, -⟩
  · exact done
  · have accepted : (fire "order" "7" "pay" .empty till).1.isOk = true := by decide +kernel
    rw [refused] at accepted
    cases accepted

end WorkflowRules.Engine
