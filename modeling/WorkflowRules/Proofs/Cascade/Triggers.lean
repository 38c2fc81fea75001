import WorkflowRules.Proofs.Cascade.Bulkhead
import WorkflowRules.Proofs.Engine.Checked

/-!
# Rules run on their triggers only

Whatever a cascade sets off, and whatever hooks publish on the way, an action is carried out only for a
rule whose trigger is the name of the event it acts on. The trace tells both, so this is a property of
what a run adds to it.

* `Observation.OnTrigger` — an action that was carried out for the trigger of its rule
* `Engine.Answers` — a run that adds only such actions to the trace
* `Engine.settle_answers`, `Engine.IsPublisher.trace` — transitions and cascades are such runs
-/

namespace WorkflowRules

open Operation (Keeps)

/-- An action is carried out for a rule that waits for the event. -/
def Observation.OnTrigger : Observation → Prop
  | .actionRan _ _ context => context.rule.trigger = context.event.name
  | _ => True

namespace Engine

/-- Every bucket of the rule table holds rules that wait for its event. -/
def Bucketed (e : Engine) : Prop := ∀ name, ∀ r ∈ e.rules.bucket name, r.trigger = name

/-- In a checked table every rule stands in the bucket of its trigger. -/
theorem Checked.bucketed {e : Engine} (h : Checked e) : e.Bucketed := by
  obtain ⟨rules, represents, -⟩ := h.rules
  exact fun name r hr => (represents.mem_bucket.1 hr).2

/-- The rules stay in their buckets, and what is added to the trace happens on triggers. -/
def Answers (e e' : Engine) : Prop :=
  e.Bucketed → e'.Bucketed ∧ ∃ added, e'.trace = added ++ e.trace ∧ ∀ o ∈ added, o.OnTrigger

theorem answers_preorder : IsPreorder Engine Answers where
  refl e bucketed := ⟨bucketed, [], rfl, by simp⟩
  trans a b c hab hbc bucketed := by
    obtain ⟨hb, first, hfirst, hon⟩ := hab bucketed
    obtain ⟨hc, second, hsecond, hon'⟩ := hbc hb
    refine ⟨hc, second ++ first, by rw [hsecond, hfirst, List.append_assoc], fun o ho => ?_⟩
    rcases List.mem_append.1 ho with ho | ho
    · exact hon' o ho
    · exact hon o ho

/-- Where nothing is added to the trace, there is nothing to answer for. -/
theorem Answers.of_eq {e e' : Engine} (rules : e'.rules = e.rules) (trace : e'.trace = e.trace) :
    Answers e e' := by
  intro bucketed
  refine ⟨?_, [], trace, by simp⟩
  unfold Bucketed
  rw [rules]
  exact bucketed

theorem observe_answers {o : Observation} (h : o.OnTrigger) : Keeps Answers (observe o) := by
  intro e bucketed
  exact ⟨bucketed, [o], rfl, by simpa using h⟩

/-! ## Transitions -/

/-- A transition carries out no action, and what it publishes does so on triggers. -/
theorem answers_transitions : TransitionClosed fun _ x _ => Keeps Answers x where
  pure := Keeps.pure answers_preorder
  fail := Keeps.fail answers_preorder
  bind := Keeps.bind answers_preorder
  attempt := Keeps.attempt
  guardOf _ := Keeps.view answers_preorder _
  hookOf _ := Keeps.view answers_preorder _
  guardAsked _ _ := observe_answers trivial
  hookRan _ _ := observe_answers trivial
  now _ := .of_eq rfl rfl
  newIdentifier _ := .of_eq rfl rfl
  nextCall _ := .of_eq rfl rfl
  commit _ _ _ _ := .of_eq rfl rfl
  commitDirectly _ _ _ _ := .of_eq rfl rfl
  select _ := .of_looks (Keeps.bind answers_preorder) (Keeps.of_looks answers_preorder)

section Publish

variable {publish : Publish} (hp : publish.Respects [] Answers) {context : ActionContext}

include hp

theorem transition_answers (workflow entityId event : String) (context : TransitionContext) :
    Keeps Answers (transition publish workflow entityId event context) :=
  answers_transitions.transition hp.related (answers_transitions.select _) workflow entityId event context

/-- An action answers to the trigger of its rule, and its publications to theirs. -/
theorem runAction_answers (action : Action) (context : ActionContext) (handler : ActionHandler) :
    Keeps Answers (runAction publish action context handler) := by
  cases handler with
  | emitEvent =>
    show Keeps Answers (runEmitEvent publish action context)
    unfold runEmitEvent
    split
    · exact Keeps.pure answers_preorder _
    · exact Keeps.bind answers_preorder (answers_transitions.newEvent _ _ _) fun y =>
        Keeps.bind answers_preorder (hp.publishes y) fun _ => Keeps.pure answers_preorder _
  | log =>
    show Keeps Answers (runLog action context)
    unfold runLog
    dsimp only
    split
    · exact Keeps.bind answers_preorder (observe_answers trivial) fun _ =>
        Keeps.pure answers_preorder _
    · exact Keeps.pure answers_preorder _
  | transition =>
    show Keeps Answers (runTransition publish action context)
    unfold runTransition
    split
    · exact Keeps.pure answers_preorder _
    · refine Keeps.bind answers_preorder (transition_answers hp _ _ _ _).attempt fun r => ?_
      cases r <;> exact Keeps.pure answers_preorder _
  | custom run =>
    exact Keeps.bind answers_preorder answers_transitions.nextCall fun _ => Keeps.pure answers_preorder _

/-- An action may be dispatched for a rule that waits for the event. -/
theorem dispatch_answers (on : context.rule.trigger = context.event.name) (action : Action) :
    Keeps Answers (dispatch publish action context) := by
  refine Keeps.bind answers_preorder (Keeps.view answers_preorder _) fun found => ?_
  cases found with
  | none => exact Keeps.fail answers_preorder _
  | some handler =>
    refine Keeps.bind answers_preorder (observe_answers on) fun _ => ?_
    refine Keeps.bind answers_preorder (runAction_answers hp action context handler) fun r => ?_
    cases r with
    | error reason => exact Keeps.fail answers_preorder _
    | ok output => exact Keeps.pure answers_preorder _

theorem runActions_answers (on : context.rule.trigger = context.event.name)
    (actions : List Action) : Keeps Answers (runActions publish context actions) := by
  induction actions with
  | nil => exact Keeps.pure answers_preorder _
  | cons action rest ih =>
    refine Keeps.bind answers_preorder (dispatch_answers hp on action).attempt fun r => ?_
    cases r with
    | error e => exact Keeps.pure answers_preorder _
    | ok output => exact Keeps.bind answers_preorder ih fun _ => Keeps.pure answers_preorder _

/-- A rule is considered for an event that is its trigger. -/
theorem consider_answers {rule : Rule} {x : DomainEvent} (on : rule.trigger = x.name) :
    Keeps Answers (consider publish rule x) := by
  unfold consider evaluate
  split
  · exact Keeps.pure answers_preorder _
  · split
    · exact Keeps.pure answers_preorder _
    · split
      · exact Keeps.pure answers_preorder _
      · exact Keeps.bind answers_preorder (runActions_answers hp on _) fun _ =>
          Keeps.pure answers_preorder _

/-- All rules of a bucket have the name of the event as their trigger. -/
theorem considerAll_answers (mode : MatchMode) {x : DomainEvent} {rules : List Rule}
    (on : ∀ r ∈ rules, r.trigger = x.name) :
    Keeps Answers (considerAll publish mode x rules) := by
  induction rules with
  | nil => exact Keeps.pure answers_preorder _
  | cons rule rest ih =>
    refine Keeps.bind answers_preorder (consider_answers hp (on rule List.mem_cons_self)) fun record =>
      Keeps.bind answers_preorder ?_ fun _ => ?_
    · exact Keeps.bind answers_preorder (answers_transitions.newEvent _ _ _) hp.publishes
    · split
      · exact Keeps.pure answers_preorder _
      · exact Keeps.bind answers_preorder (ih fun r hr => on r (List.mem_cons_of_mem _ hr)) fun _ =>
          Keeps.pure answers_preorder _

/-- The rules are taken from the bucket of the event, where all of them wait for it. -/
theorem process_answers (x : DomainEvent) : Keeps Answers (process publish x) := by
  intro e bucketed
  have hprocess : process publish x e = (if x.trail.depth > e.config.maxCascadeDepth then pure []
      else considerAll publish e.config.matchMode x (e.rules.bucket x.name)) e := rfl
  rw [hprocess]
  split
  · exact answers_preorder.refl e bucketed
  · exact considerAll_answers hp _ (bucketed x.name) e bucketed

theorem deliver_answers (x : DomainEvent) (subscriber : Subscriber) :
    Keeps Answers (deliver publish x subscriber) := by
  cases subscriber with
  | rules =>
    exact Keeps.bind answers_preorder (process_answers hp x) fun _ => Keeps.pure answers_preorder _
  | listener id => exact observe_answers trivial

end Publish

/-! ## Cascades -/

/-- Whatever a publication carries out, it does so on triggers, however deeply it is nested. -/
theorem publishFor_answers (n : Nat) (held : List InstanceKey) (x : DomainEvent) :
    Keeps Answers (publishFor n held x) := by
  induction n generalizing held x with
  | zero =>
    exact Keeps.bind answers_preorder (observe_answers trivial) fun _ =>
      Keeps.breakDown answers_preorder _
  | succ n ih =>
    refine Keeps.bind answers_preorder (observe_answers trivial) fun _ => ?_
    refine Keeps.bind answers_preorder (Keeps.view answers_preorder _) fun subscribers => ?_
    exact Keeps.forEach answers_preorder (deliver_answers ⟨List.nil_subset _, fun held _ => ih held⟩ x)
      subscribers

theorem publishWith_answers (held : List InstanceKey) (x : DomainEvent) :
    Keeps Answers (publishWith held x) :=
  Keeps.bind answers_preorder (Keeps.view answers_preorder _) fun _ => publishFor_answers _ held x

/-- In a bucketed engine, a publication carries out actions on their triggers only. -/
theorem IsPublisher.answers {publish : Publish} (h : IsPublisher publish) :
    publish.Respects [] Answers := by
  cases h with
  | outermost held => exact ⟨List.nil_subset _, fun held _ => publishWith_answers held⟩
  | nested n held => exact ⟨List.nil_subset _, fun held _ => publishFor_answers n held⟩

/-- An event is put on the trace before anything that it sets off. -/
theorem publishFor_trace (n : Nat) (held : List InstanceKey) (x : DomainEvent) {e : Engine}
    (bucketed : e.Bucketed) :
    ∃ later, (publishFor n held x e).2.trace = later ++ .published x :: e.trace ∧
      ∀ o ∈ later, o.OnTrigger := by
  cases n with
  | zero => exact ⟨[], rfl, by simp⟩
  | succ n =>
    have answers := (IsPublisher.nested n held).answers
    have hdelivered := Keeps.forEach answers_preorder (deliver_answers answers x)
      e.subscribers (observe (.published x) e).2 bucketed
    exact hdelivered.2

theorem IsPublisher.trace {publish : Publish} (h : IsPublisher publish) (x : DomainEvent)
    {e : Engine} (bucketed : e.Bucketed) :
    ∃ later, (publish x e).2.trace = later ++ .published x :: e.trace ∧
      ∀ o ∈ later, o.OnTrigger := by
  cases h with
  | outermost held => exact publishFor_trace (nesting e.config) held x bucketed
  | nested n held => exact publishFor_trace n held x bucketed

/-- Up to its own event, a transition answers for its hooks only. -/
theorem settle_answers {publish : Publish} (hp : publish.Respects [] Answers)
    (workflow entityId event : String) (context : TransitionContext) :
    Keeps Answers (settle publish workflow entityId event context) :=
  answers_transitions.settle hp.related (answers_transitions.select _) workflow entityId event context

end Engine

end WorkflowRules
