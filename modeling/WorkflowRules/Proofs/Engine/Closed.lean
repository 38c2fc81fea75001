import WorkflowRules.Proofs.Engine.Respected

/-!
# What holds of runs because it holds of steps

Transitions and cascades are put together from a few steps, in sequence and by catching refusals. Take
a relation of operations that relates every step to itself and that is kept by putting operations
together. It relates transitions and cascades, however deeply their publications are nested, if it
relates the ways of publishing. A property of operations is such a relation that does not look at the
second operation.

Transitions take fewer kinds of steps than cascades: they do not look at the settings, the rules and the
subscribers, and they carry out no actions.

* `Engine.HandlingClosed`, `Engine.TransitionClosed` — such a relation, as far as the steps of transitions
  go, without and with the loading of an instance
* `Engine.StepClosed` — such a relation
* `Publish.Related` — ways of publishing that are related, whichever instances are reserved
* `HandlingClosed.transition` — transitions, with two ways of publishing
* `StepClosed.runAction` — actions, with two ways of publishing
* `StepClosed.publish`, `StepClosed.fire`, `StepClosed.processEvent` — whole cascades
-/

namespace WorkflowRules.Engine

variable {P : (α : Type) → Operation Engine α → Operation Engine α → Prop}

/-! ## Ways of publishing -/

/-- Two ways of publishing start with the same reservations, and are related whatever is reserved. -/
structure Publish.Related (P : (α : Type) → Operation Engine α → Operation Engine α → Prop)
    (p q : Publish) : Prop where
  held : p.held = q.held
  run : ∀ held x, P Unit (p.run held x) (q.run held x)

namespace Publish.Related

variable {p q : Publish} (h : p.Related P q)

include h

theorem publishes (x : DomainEvent) : P _ (p x) (q x) := by
  rw [h.held]
  exact h.run q.held x

/-- Publications remain related while one more instance is reserved. -/
theorem holding (key : InstanceKey) : (p.holding key).Related P (q.holding key) where
  held := congrArg (key :: ·) h.held
  run := h.run

end Publish.Related

/-! ## Transitions -/

/--
A relation that relates the steps of transitions to themselves, as far as they do not load an instance,
and is kept by putting together.
-/
structure HandlingClosed (P : (α : Type) → Operation Engine α → Operation Engine α → Prop) :
    Prop where
  pure : ∀ {α : Type} (a : α), P α (Pure.pure a) (Pure.pure a)
  fail : ∀ {α : Type} (reason : AutomationError), P α (.fail reason) (.fail reason)
  bind : ∀ {α β : Type} {x y : Operation Engine α} {f g : α → Operation Engine β},
    P α x y → (∀ a, P β (f a) (g a)) → P β (x >>= f) (y >>= g)
  attempt : ∀ {α : Type} {x y : Operation Engine α}, P α x y → P _ (.attempt x) (.attempt y)
  guardOf : ∀ name, P _ (.view (·.guards.get? name)) (.view (·.guards.get? name))
  hookOf : ∀ name, P _ (.view (·.hooks.get? name)) (.view (·.hooks.get? name))
  guardAsked : ∀ name seen, P _ (observe (.guardAsked name seen)) (observe (.guardAsked name seen))
  hookRan : ∀ name seen, P _ (observe (.hookRan name seen)) (observe (.hookRan name seen))
  now : P _ now now
  newIdentifier : P _ newIdentifier newIdentifier
  nextCall : P _ nextCall nextCall
  commit : ∀ held state entry, P _ (onStoreOf (Store.commit held state entry))
    (onStoreOf (Store.commit held state entry))
  commitDirectly : ∀ held state entry, P _ (commitDirectly held state entry)
    (commitDirectly held state entry)

/--
While some instances are reserved, an instance is loaded, and the transition that its definition selects
goes on with it.
-/
def SelectClosed (P : (α : Type) → Operation Engine α → Operation Engine α → Prop)
    (held : List InstanceKey) : Prop :=
  ∀ (α : Type) (workflow entityId event : String) {f g : Instance → Transition → Operation Engine α},
    (∀ i t, P α (f i t) (g i t)) →
    P α
      (do
        let d ← lookup workflow
        reserve held (workflow, entityId)
        let i ← load (workflow, entityId)
        let t ← select d i event
        f i t)
      (do
        let d ← lookup workflow
        reserve held (workflow, entityId)
        let i ← load (workflow, entityId)
        let t ← select d i event
        g i t)

section Steps

variable {held : List InstanceKey}
  (bind : ∀ {α β : Type} {x y : Operation Engine α} {f g : α → Operation Engine β},
    P α x y → (∀ a, P β (f a) (g a)) → P β (x >>= f) (y >>= g))

include bind

/-- A selection has four steps, each of which has to be related to itself. -/
theorem SelectClosed.of_steps (lookup : ∀ name, P _ (lookup name) (lookup name))
    (reserve : ∀ key, P _ (reserve held key) (reserve held key))
    (load : ∀ key, P _ (load key) (load key))
    (select : ∀ d i event, P _ (select d i event) (select d i event)) : SelectClosed P held :=
  fun _ workflow entityId event _ _ hrest =>
    bind (lookup workflow) fun d => bind (reserve (workflow, entityId)) fun _ =>
      bind (load (workflow, entityId)) fun i => bind (select d i event) (hrest i)

/-- None of these steps changes the engine, so it is enough to relate what only looks to itself. -/
theorem SelectClosed.of_looks
    (looks : ∀ {α : Type} {x : Operation Engine α}, (∀ e, (x e).2 = e) → P α x x) :
    SelectClosed P held :=
  .of_steps bind (fun name => looks fun e => by rw [lookup_apply])
    (fun key => looks fun e => by rw [reserve_apply])
    (fun key => looks fun e => by rw [load_apply])
    (fun d i event => looks fun e => by rw [select_apply])

end Steps

/-- A relation that relates the steps of transitions to themselves and is kept by putting together. -/
structure TransitionClosed (P : (α : Type) → Operation Engine α → Operation Engine α → Prop) :
    Prop extends HandlingClosed P where
  select : ∀ held, SelectClosed P held

namespace HandlingClosed

variable (h : HandlingClosed P)

include h

/-- To go through a list is a sequence of steps. -/
theorem forEach {α : Type} {f g : α → Operation Engine Unit} (hf : ∀ a, P _ (f a) (g a))
    (as : List α) : P _ (Operation.forEach f as) (Operation.forEach g as) := by
  induction as with
  | nil => exact h.pure ()
  | cons a rest ih => exact h.bind (hf a) fun _ => ih

/-- An event is made of an identifier, the time and what is given. -/
theorem newEvent (name : String) (payload : Json) (trail : CascadeTrail) :
    P _ (newEvent name payload trail) (newEvent name payload trail) :=
  h.bind h.newIdentifier fun _ => h.bind h.now fun _ => h.pure _

/-- Guards are asked in turn, each with the number of its call. -/
theorem checkGuards (seen : HookContext) (names : List String) :
    P _ (checkGuards seen names) (checkGuards seen names) := by
  refine h.forEach (fun name => ?_) names
  refine h.bind (h.guardOf name) fun found => ?_
  cases found with
  | none => exact h.fail _
  | some guard =>
    refine h.bind (h.guardAsked name seen) fun _ => h.bind h.nextCall fun n => ?_
    rcases guard n seen with reason | (_ | _)
    · exact h.fail _
    · exact h.fail _
    · exact h.pure _

/-- All hooks are resolved before the first of them is run. -/
theorem hooksNamed (names : List String) : P _ (hooksNamed names) (hooksNamed names) := by
  induction names with
  | nil => exact h.pure _
  | cons name rest ih =>
    refine h.bind (h.bind (h.hookOf name) fun found => ?_) fun _ =>
      h.bind ih fun _ => h.pure _
    cases found with
    | none => exact h.fail _
    | some hook => exact h.pure _

theorem commitTransition (seen : HookContext) : P _ (Engine.commit seen) (Engine.commit seen) :=
  h.bind h.now fun _ => h.commit _ _ _

section Publish

variable {p q : Publish} (hp : p.Related P q)

include hp

/-- A hook is asked with the number of its call, and its events are published. -/
theorem runHook (seen : HookContext) (name : String) (hook : Hook) :
    P _ (runHook p seen name hook) (runHook q seen name hook) := by
  refine h.bind (h.hookRan name seen) fun _ => h.bind h.nextCall fun n => ?_
  cases hook n seen with
  | nothing => exact h.pure _
  | fail reason => exact h.pure _
  | publish event payload =>
    exact h.bind (h.newEvent _ _ _) fun y => h.bind (hp.publishes y) fun _ => h.pure _
  | commit state event =>
    refine h.bind (h.attempt (h.bind h.now fun _ => h.commitDirectly _ _ _)) fun r => ?_
    cases r <;> exact h.pure _

/-- Hooks before the commit are related as far as what they publish is. -/
theorem runBeforeHooks (seen : HookContext) (names : List String) :
    P _ (runBeforeHooks p seen names) (runBeforeHooks q seen names) := by
  refine h.bind (h.hooksNamed names) fun hooks => h.forEach (fun hook => ?_) hooks
  refine h.bind (h.runHook hp seen hook.1 hook.2) fun failure => ?_
  cases failure with
  | none => exact h.pure _
  | some reason => exact h.fail _

theorem runAfterHooks (seen : HookContext) (names : List String) :
    P _ (runAfterHooks p seen names) (runAfterHooks q seen names) := by
  refine h.forEach (fun name => ?_) names
  refine h.bind (h.hookOf name) fun found => ?_
  cases found with
  | none => exact h.pure _
  | some hook => exact h.bind (h.runHook hp seen name hook) fun _ => h.pure _

/-- A transition up to its commit, with the instances reserved that are. -/
theorem advance (select : SelectClosed P q.held) (workflow entityId event : String)
    (context : TransitionContext) :
    P _ (advance p workflow entityId event context)
      (advance q workflow entityId event context) := by
  unfold Engine.advance
  rw [hp.held]
  refine select _ workflow entityId event fun i t => ?_
  refine h.bind (h.checkGuards _ _) fun _ => ?_
  refine h.bind (h.runBeforeHooks (hp.holding _) _ _) fun _ => ?_
  exact h.bind (h.commitTransition _) fun _ => h.pure _

/-- A transition up to the publication of its own event, with two ways of publishing. -/
theorem settle (select : SelectClosed P q.held) (workflow entityId event : String)
    (context : TransitionContext) :
    P _ (settle p workflow entityId event context) (settle q workflow entityId event context) :=
  h.bind (h.advance hp select workflow entityId event context) fun _ =>
    h.bind (h.runAfterHooks hp _ _) fun _ => h.bind (h.newEvent _ _ _) fun _ => h.pure _

theorem transition (select : SelectClosed P q.held) (workflow entityId event : String)
    (context : TransitionContext) :
    P _ (transition p workflow entityId event context)
      (transition q workflow entityId event context) :=
  h.bind (h.settle hp select workflow entityId event context) fun _ =>
    h.bind (hp.publishes _) fun _ => h.pure _

end Publish

end HandlingClosed

/-! ## Cascades -/

/-- A relation of operations that relates steps to themselves and is kept by putting together. -/
structure StepClosed (P : (α : Type) → Operation Engine α → Operation Engine α → Prop) : Prop where
  pure : ∀ {α : Type} (a : α), P α (Pure.pure a) (Pure.pure a)
  fail : ∀ {α : Type} (reason : AutomationError), P α (.fail reason) (.fail reason)
  /-- There may be too many publications in one another. -/
  endless : P Unit (.breakDown .endless) (.breakDown .endless)
  bind : ∀ {α β : Type} {x y : Operation Engine α} {f g : α → Operation Engine β},
    P α x y → (∀ a, P β (f a) (g a)) → P β (x >>= f) (y >>= g)
  attempt : ∀ {α : Type} {x y : Operation Engine α}, P α x y → P _ (.attempt x) (.attempt y)
  /-- Anything but the registry, the store and the trace may be looked at. -/
  view : ∀ {α : Type} {f : Engine → α},
    (∀ e registry store trace, f { e with registry, store, trace } = f e) → P α (.view f) (.view f)
  observe : ∀ o, P _ (observe o) (observe o)
  now : P _ now now
  newIdentifier : P _ newIdentifier newIdentifier
  nextCall : P _ nextCall nextCall
  commit : ∀ held state entry, P _ (onStoreOf (Store.commit held state entry))
    (onStoreOf (Store.commit held state entry))
  commitDirectly : ∀ held state entry, P _ (commitDirectly held state entry)
    (commitDirectly held state entry)
  select : ∀ held, SelectClosed P held

/-- Transitions look at no more than cascades do. -/
theorem StepClosed.transitions (h : StepClosed P) : TransitionClosed P where
  pure := h.pure
  fail := h.fail
  bind := h.bind
  attempt := h.attempt
  guardOf _ := h.view fun _ _ _ _ => rfl
  hookOf _ := h.view fun _ _ _ _ => rfl
  guardAsked _ _ := h.observe _
  hookRan _ _ := h.observe _
  now := h.now
  newIdentifier := h.newIdentifier
  nextCall := h.nextCall
  commit := h.commit
  commitDirectly := h.commitDirectly
  select := h.select

namespace StepClosed

variable (h : StepClosed P)

include h

section Publish

variable {p q : Publish} (hp : p.Related P q)

include hp

theorem transition (workflow entityId event : String) (context : TransitionContext) :
    P _ (transition p workflow entityId event context)
      (transition q workflow entityId event context) :=
  h.transitions.transition hp (h.select _) workflow entityId event context

theorem runAction (action : Action) (context : ActionContext) (handler : ActionHandler) :
    P _ (runAction p action context handler) (runAction q action context handler) := by
  cases handler with
  | emitEvent =>
    show P _ (runEmitEvent p action context) (runEmitEvent q action context)
    unfold runEmitEvent
    split
    · exact h.pure _
    · exact h.bind (h.transitions.newEvent _ _ _) fun y =>
        h.bind (hp.publishes y) fun _ => h.pure _
  | log =>
    show P _ (runLog action context) (runLog action context)
    unfold runLog
    dsimp only
    split
    · exact h.bind (h.observe _) fun _ => h.pure _
    · exact h.pure _
  | transition =>
    show P _ (runTransition p action context) (runTransition q action context)
    unfold runTransition
    split
    · exact h.pure _
    · refine h.bind (h.attempt (h.transition hp _ _ _ _)) fun r => ?_
      cases r <;> exact h.pure _
  | custom run => exact h.bind h.nextCall fun _ => h.pure _

/-- An action whose handler is looked up, with two ways of publishing. -/
theorem dispatch (action : Action) (context : ActionContext) :
    P _ (dispatch p action context) (dispatch q action context) := by
  refine h.bind (h.view fun _ _ _ _ => rfl) fun found => ?_
  cases found with
  | none => exact h.fail _
  | some handler =>
    refine h.bind (h.observe _) fun _ => ?_
    refine h.bind (h.runAction hp action context handler) fun r => ?_
    cases r with
    | error reason => exact h.fail _
    | ok output => exact h.pure _

theorem runActions (context : ActionContext) (actions : List Action) :
    P _ (runActions p context actions) (runActions q context actions) := by
  induction actions with
  | nil => exact h.pure _
  | cons action rest ih =>
    refine h.bind (h.attempt (h.dispatch hp action context)) fun r => ?_
    cases r with
    | error e => exact h.pure _
    | ok output => exact h.bind ih fun _ => h.pure _

theorem consider (rule : Rule) (x : DomainEvent) :
    P _ (consider p rule x) (consider q rule x) := by
  unfold Engine.consider evaluate
  split
  · exact h.pure _
  · split
    · exact h.pure _
    · split
      · exact h.pure _
      · exact h.bind (h.runActions hp _ _) fun _ => h.pure _

/-- The rules of an event, with two ways of publishing. -/
theorem considerAll (mode : MatchMode) (x : DomainEvent) (rules : List Rule) :
    P _ (considerAll p mode x rules) (considerAll q mode x rules) := by
  induction rules with
  | nil => exact h.pure _
  | cons rule rest ih =>
    refine h.bind (h.consider hp rule x) fun record => ?_
    refine h.bind (h.bind (h.transitions.newEvent _ _ _) hp.publishes) fun _ => ?_
    split
    · exact h.pure _
    · exact h.bind ih fun _ => h.pure _

/-- Of the engine, only the settings and the rules are looked at. -/
theorem process (x : DomainEvent) : P _ (process p x) (process q x) := by
  have hlook (publish : Publish) : Engine.process publish x = (do
      let (config, rules) ← .view fun e => (e.config, e.rules)
      if x.trail.depth > config.maxCascadeDepth then return []
      else Engine.considerAll publish config.matchMode x (rules.bucket x.name)) := rfl
  rw [hlook, hlook]
  refine h.bind (h.view fun _ _ _ _ => rfl) fun seen => ?_
  dsimp only
  split
  · exact h.pure _
  · exact h.considerAll hp _ _ _

theorem deliver (x : DomainEvent) (subscriber : Subscriber) :
    P _ (deliver p x subscriber) (deliver q x subscriber) := by
  cases subscriber with
  | rules => exact h.bind (h.process hp x) fun _ => h.pure _
  | listener id => exact h.observe _

end Publish

/-- A publication within a bound, by induction on the bound. -/
theorem publishFor (n : Nat) (held : List InstanceKey) (x : DomainEvent) :
    P _ (publishFor n held x) (publishFor n held x) := by
  induction n generalizing held x with
  | zero => exact h.bind (h.observe _) fun _ => h.endless
  | succ n ih =>
    refine h.bind (h.observe _) fun _ => h.bind (h.view fun _ _ _ _ => rfl) fun subscribers => ?_
    exact h.transitions.forEach (h.deliver ⟨rfl, ih⟩ x) subscribers

/-- A publication as the settings allow it. -/
theorem publish : Engine.publish.Related P Engine.publish :=
  ⟨rfl, fun held x => h.bind (h.view fun _ _ _ _ => rfl) fun config =>
    h.publishFor (nesting config) held x⟩

/-! ## What callers ask for -/

theorem fire (workflow entityId event : String) (context : TransitionContext) :
    P _ (fire workflow entityId event context) (fire workflow entityId event context) :=
  h.transition h.publish workflow entityId event context

theorem processEvent (x : DomainEvent) : P _ (processEvent x) (processEvent x) :=
  h.process h.publish x

end StepClosed

end WorkflowRules.Engine
