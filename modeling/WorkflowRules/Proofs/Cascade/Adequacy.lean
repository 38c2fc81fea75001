import Mathlib.Order.Filter.AtTopBot.Basic
import WorkflowRules.Proofs.Cascade.Semantics
import WorkflowRules.Proofs.Engine.Readable

/-!
# The rules of cascades and the engine

The engine bounds how deeply publications are nested in one another; the rules of cascades do not.
Here the two are shown to agree on engines whose hooks do not publish.

* `Engine.Publishes.eventually`, `Engine.Processes.eventually` — what the rules derive is what the
  engine does with every bound that is large enough
* `Engine.exists_publishes`, `Engine.exists_processes` — the engine's own run has a derivation as soon
  as the bound reaches past the limit of the chain
* `Engine.Publishes.outcome_unique`, `Engine.Processes.outcome_unique` — the rules derive one outcome
  at most
* `Engine.Publishes.bears`, `Engine.Processes.bears` — only on an unreadable row does a derivation break
  down
* `Engine.Publishes.setup`, `Engine.Processes.setup` — what an outcome has in common with the start
-/

namespace WorkflowRules.Engine

open Operation (NeverRefused Survives)

/-! ## Considering a rule -/

/-- A rule is considered in one of two ways: it is passed over, or its actions are carried out. -/
theorem consider_eq (publish : Publish) (rule : Rule) (x : DomainEvent) :
    consider publish rule x =
      match refusal? rule x with
      | some status => pure (.skipped rule.name x.name status)
      | none => do
        let results ← runActions publish ⟨rule, x⟩ rule.actions
        return .ran rule.name x.name results := by
  unfold consider evaluate refusal?
  cases x.trail.contains rule.name <;> cases rule.enabled <;>
    cases rule.condition.holds x.payload <;> rfl

/-- A rule is considered and its record announced, and only then are the others considered. -/
theorem considerAll_cons (publish : Publish) (mode : MatchMode) (x : DomainEvent) (rule : Rule)
    (rest : List Rule) :
    considerAll publish mode x (rule :: rest) =
      consider publish rule x >>= fun record => notify publish rule x record >>= fun _ =>
        if isLast mode record then pure [record]
        else considerAll publish mode x rest >>= fun others => pure (record :: others) :=
  rfl

/-- The rules of the event's bucket are considered in its order, unless the event is too far away. -/
theorem process_eq (publish : Publish) (x : DomainEvent) (e : Engine) :
    process publish x e =
      if e.config.maxCascadeDepth < x.trail.depth then (.ok [], e)
      else considerAll publish e.config.matchMode x (e.rules.bucket x.name) e := by
  unfold process
  rw [Operation.bind_ok _ (Operation.view_apply id e)]
  simp only [id_eq, gt_iff_lt]
  split <;> rfl

/-- One level of nesting: the event is announced and goes to the subscribers, one after the other. -/
theorem publishWithin_succ (n : Nat) (x : DomainEvent) (e : Engine) :
    publishWithin (n + 1) x e =
      Operation.forEach (deliver (publishWithin n) x) e.subscribers
        (observe (.published x) e).2 :=
  rfl

/-! ## What is never refused -/

theorem nextCall_neverRefused : nextCall.NeverRefused := fun _ _ h => by cases h

theorem newEvent_neverRefused (name : String) (payload : Json) (trail : CascadeTrail) :
    (newEvent name payload trail).NeverRefused :=
  fun _ _ h => by cases h

theorem runLog_neverRefused (action : Action) (context : ActionContext) :
    (runLog action context).NeverRefused := by
  unfold runLog
  dsimp only
  split
  · exact NeverRefused.bind (NeverRefused.change _) fun _ => NeverRefused.pure _
  · exact NeverRefused.pure _

/-- The refusal of a transition is an answer to the action that fires it. -/
theorem request_neverRefused (action : Action) (context : ActionContext)
    (handler : ActionHandler) : (request action context handler).NeverRefused := by
  cases handler with
  | emitEvent =>
    rw [request]
    split
    · exact NeverRefused.pure _
    · exact NeverRefused.bind (newEvent_neverRefused _ _ _) fun _ => NeverRefused.pure _
  | log =>
    exact NeverRefused.bind (runLog_neverRefused action context) fun _ => NeverRefused.pure _
  | transition =>
    rw [request]
    split
    · exact NeverRefused.pure _
    · refine NeverRefused.bind (NeverRefused.attempt _) fun r => ?_
      cases r <;> exact NeverRefused.pure _
  | custom run => exact NeverRefused.bind nextCall_neverRefused fun _ => NeverRefused.pure _

theorem ask_neverRefused (action : Action) (context : ActionContext) :
    (ask action context).NeverRefused := by
  refine NeverRefused.bind (NeverRefused.view _) fun found => ?_
  cases found with
  | none => exact NeverRefused.pure _
  | some handler =>
    exact NeverRefused.bind (NeverRefused.change _) fun _ => request_neverRefused _ _ _

/-- Failures of actions become results, whatever publishing does. -/
theorem runActions_neverRefused (publish : Publish) (context : ActionContext)
    (actions : List Action) : (runActions publish context actions).NeverRefused := by
  induction actions with
  | nil => exact NeverRefused.pure _
  | cons action rest ih =>
    refine NeverRefused.bind (NeverRefused.attempt _) fun r => ?_
    cases r with
    | error e => exact NeverRefused.pure _
    | ok output => exact NeverRefused.bind ih fun _ => NeverRefused.pure _

/-- A failure stays with the rule whose action fails. -/
theorem consider_neverRefused (publish : Publish) (rule : Rule) (x : DomainEvent) :
    (consider publish rule x).NeverRefused := by
  rw [consider_eq]
  split
  · exact NeverRefused.pure _
  · exact NeverRefused.bind (runActions_neverRefused _ _ _) fun _ => NeverRefused.pure _

variable {publish : Publish}

theorem considerAll_neverRefused (hp : ∀ x, (publish x).NeverRefused) (mode : MatchMode)
    (x : DomainEvent) (rules : List Rule) :
    (considerAll publish mode x rules).NeverRefused := by
  induction rules with
  | nil => exact NeverRefused.pure _
  | cons rule rest ih =>
    refine NeverRefused.bind (consider_neverRefused _ _ _) fun record => ?_
    refine NeverRefused.bind
      (NeverRefused.bind (newEvent_neverRefused _ _ _) fun y => hp y) fun _ => ?_
    split
    · exact NeverRefused.pure _
    · exact NeverRefused.bind ih fun _ => NeverRefused.pure _

theorem process_neverRefused (hp : ∀ x, (publish x).NeverRefused) (x : DomainEvent) :
    (process publish x).NeverRefused := by
  refine NeverRefused.bind (NeverRefused.view _) fun e => ?_
  split
  · exact NeverRefused.pure _
  · exact considerAll_neverRefused hp _ _ _

/-- Publishing is never refused, however deeply it is nested and whatever is reserved. -/
theorem publishFor_neverRefused (n : Nat) (held : List InstanceKey) (x : DomainEvent) :
    (publishFor n held x).NeverRefused := by
  induction n generalizing held x with
  | zero => exact NeverRefused.bind (NeverRefused.change _) fun _ => NeverRefused.breakDown _
  | succ n ih =>
    refine NeverRefused.bind (NeverRefused.change _) fun _ =>
      NeverRefused.bind (NeverRefused.view _) fun subscribers =>
        NeverRefused.forEach (fun subscriber => ?_) subscribers
    cases subscriber with
    | rules => exact NeverRefused.bind (process_neverRefused (ih held) x) fun _ => NeverRefused.pure _
    | listener id => exact NeverRefused.change _

theorem publishWith_neverRefused (held : List InstanceKey) (x : DomainEvent) :
    (publishWith held x).NeverRefused :=
  NeverRefused.bind (NeverRefused.view _) fun config => publishFor_neverRefused (nesting config) held x

theorem publish_neverRefused (x : DomainEvent) : (Engine.publish x).NeverRefused :=
  publishWith_neverRefused [] x

/-- Publishing that starts with nothing reserved and is never refused. -/
structure Publish.Plain (publish : Publish) : Prop where
  free : publish.held = []
  accepted : ∀ x, (publish x).NeverRefused

theorem publishWithin_plain (n : Nat) : (publishWithin n).Plain :=
  ⟨rfl, publishFor_neverRefused n []⟩

theorem publish_plain : Engine.publish.Plain := ⟨rfl, publish_neverRefused⟩

/-! ## What dispatching an action comes to -/

section Dispatch

variable {e : Engine} {action : Action} {context : ActionContext}

/-- An action that breaks down before it publishes breaks down. -/
theorem attempt_dispatch_error (hp : publish.Plain) (hq : Quiet e) {f : Failure}
    {e' : Engine} (asked : ask action context e = (.error f, e')) :
    Operation.attempt (dispatch publish action context) e = (.error f, e') := by
  obtain ⟨why, rfl⟩ := (ask_neverRefused action context).breaksDown asked
  refine Operation.attempt_breakdown ?_
  rw [dispatch_eq_ask hp.accepted hp.free hq, Operation.bind_error _ asked]

/-- An action that publishes nothing fails for the reason it gives, with its type and its rule. -/
theorem attempt_dispatch_answer (hp : publish.Plain) (hq : Quiet e)
    {outcome : Outcome} {e' : Engine} (asked : ask action context e = (.ok (.answer outcome), e')) :
    Operation.attempt (dispatch publish action context) e =
      (.ok (match outcome with
        | .ok output => .ok output
        | .error reason => .error (.ruleAction context.rule.name action.type reason)), e') := by
  have h : dispatch publish action context e = report action context outcome e' := by
    rw [dispatch_eq_ask hp.accepted hp.free hq, Operation.bind_ok _ asked]
    rfl
  cases outcome with
  | ok output => exact Operation.attempt_ok (h.trans rfl)
  | error reason => exact Operation.attempt_error (h.trans rfl)

/-- An action that publishes has its output, unless the publication breaks down. -/
theorem attempt_dispatch_publication (hp : publish.Plain) (hq : Quiet e)
    {y : DomainEvent} {output : Json} {e' : Engine}
    (asked : ask action context e = (.ok (.publication y output), e')) :
    Operation.attempt (dispatch publish action context) e =
      ((publish y e').1.map fun _ => .ok output, (publish y e').2) := by
  have h : dispatch publish action context e =
      (publish y >>= fun _ => pure output : Operation Engine Json) e' := by
    rw [dispatch_eq_ask hp.accepted hp.free hq, Operation.bind_ok _ asked]
    rfl
  rcases hy : publish y e' with ⟨f | _, s⟩
  · obtain ⟨why, rfl⟩ := (hp.accepted y).breaksDown hy
    rw [Operation.bind_error _ hy] at h
    exact Operation.attempt_breakdown h
  · rw [Operation.bind_ok _ hy] at h
    exact Operation.attempt_ok h

end Dispatch

/-! ## Step by step -/

section Steps

variable {e e₁ e₂ e₃ : Engine} {action : Action} {rest : List Action} {context : ActionContext}
  {x y : DomainEvent} {rule : Rule} {rules : List Rule} {mode : MatchMode} {record : RuleExecution}
  {subscribers : List Subscriber} {f : Failure}

/-- The first action breaks down. -/
theorem runActions_broken (hp : publish.Plain) (hq : Quiet e)
    (asked : ask action context e = (.error f, e₁)) :
    runActions publish context (action :: rest) e = (.error f, e₁) := by
  rw [runActions, Operation.bind_error _ (attempt_dispatch_error hp hq asked)]

/-- The first action fails, and no other is carried out. -/
theorem runActions_failed (hp : publish.Plain) (hq : Quiet e) {reason : String}
    (asked : ask action context e = (.ok (.answer (.error reason)), e₁)) :
    runActions publish context (action :: rest) e =
      (.ok [.failed action.type
        (AutomationError.ruleAction context.rule.name action.type reason).message], e₁) := by
  rw [runActions, Operation.bind_ok _ (attempt_dispatch_answer hp hq asked)]
  rfl

/-- The first action succeeds without publishing anything. -/
theorem runActions_answered (hp : publish.Plain) (hq : Quiet e) {output : Json}
    (asked : ask action context e = (.ok (.answer (.ok output)), e₁)) :
    runActions publish context (action :: rest) e =
      ((runActions publish context rest e₁).1.map (.succeeded action.type output :: ·),
        (runActions publish context rest e₁).2) := by
  rw [runActions, Operation.bind_ok _ (attempt_dispatch_answer hp hq asked)]
  exact Operation.bind_pure_apply _ _ _

/-- What the first action publishes breaks down. -/
theorem runActions_brokenEffect (hp : publish.Plain) (hq : Quiet e)
    {output : Json} (asked : ask action context e = (.ok (.publication y output), e₁))
    (hy : publish y e₁ = (.error f, e₂)) :
    runActions publish context (action :: rest) e = (.error f, e₂) := by
  have h := attempt_dispatch_publication hp hq asked
  rw [hy] at h
  rw [runActions, Operation.bind_error _ h]

/-- The first action publishes an event, and is done when all that this sets off is over. -/
theorem runActions_published (hp : publish.Plain) (hq : Quiet e) {output : Json}
    (asked : ask action context e = (.ok (.publication y output), e₁))
    (hy : publish y e₁ = (.ok (), e₂)) :
    runActions publish context (action :: rest) e =
      ((runActions publish context rest e₂).1.map (.succeeded action.type output :: ·),
        (runActions publish context rest e₂).2) := by
  have h := attempt_dispatch_publication hp hq asked
  rw [hy] at h
  rw [runActions, Operation.bind_ok _ h]
  exact Operation.bind_pure_apply _ _ _

/-- A rule that does not fire is passed over, and nothing happens. -/
theorem consider_skipped {status : RuleStatus} (why : refusal? rule x = some status) :
    consider publish rule x e = (.ok (.skipped rule.name x.name status), e) := by
  rw [consider_eq, why]
  rfl

/-- A rule that fires carries out its actions, and its record lists their results. -/
theorem consider_fires (fires : refusal? rule x = none) :
    consider publish rule x e =
      ((runActions publish ⟨rule, x⟩ rule.actions e).1.map (.ran rule.name x.name),
        (runActions publish ⟨rule, x⟩ rule.actions e).2) := by
  rw [consider_eq, fires]
  exact Operation.bind_pure_apply _ _ _

/-- The first rule breaks down, and is not even announced. -/
theorem considerAll_broken (first : consider publish rule x e = (.error f, e₁)) :
    considerAll publish mode x (rule :: rules) e = (.error f, e₁) := by
  rw [considerAll_cons, Operation.bind_error _ first]

/-- The announcement of a record is the publication of one event. -/
theorem notify_eq
    (notice : newEvent ruleExecutedEvent record.toJson (x.trail.child rule.name) e = (.ok y, e₁)) :
    notify publish rule x record e = publish y e₁ :=
  Operation.bind_ok _ notice

/-- The announcement of the first record breaks down. -/
theorem considerAll_brokenNotice (first : consider publish rule x e = (.ok record, e₁))
    (notice : newEvent ruleExecutedEvent record.toJson (x.trail.child rule.name) e₁ = (.ok y, e₂))
    (announced : publish y e₂ = (.error f, e₃)) :
    considerAll publish mode x (rule :: rules) e = (.error f, e₃) := by
  rw [considerAll_cons, Operation.bind_ok _ first,
    Operation.bind_error _ ((notify_eq notice).trans announced)]

/-- The first rule is the last that is considered. -/
theorem considerAll_last (first : consider publish rule x e = (.ok record, e₁))
    (notice : newEvent ruleExecutedEvent record.toJson (x.trail.child rule.name) e₁ = (.ok y, e₂))
    (announced : publish y e₂ = (.ok (), e₃)) (stop : isLast mode record = true) :
    considerAll publish mode x (rule :: rules) e = (.ok [record], e₃) := by
  rw [considerAll_cons, Operation.bind_ok _ first,
    Operation.bind_ok _ ((notify_eq notice).trans announced), if_pos stop]
  rfl

/-- After the announcement of the first record the other rules are considered. -/
theorem considerAll_next (first : consider publish rule x e = (.ok record, e₁))
    (notice : newEvent ruleExecutedEvent record.toJson (x.trail.child rule.name) e₁ = (.ok y, e₂))
    (announced : publish y e₂ = (.ok (), e₃)) (go : isLast mode record = false) :
    considerAll publish mode x (rule :: rules) e =
      ((considerAll publish mode x rules e₃).1.map (record :: ·),
        (considerAll publish mode x rules e₃).2) := by
  rw [considerAll_cons, Operation.bind_ok _ first,
    Operation.bind_ok _ ((notify_eq notice).trans announced), if_neg (ne_true_of_eq_false go)]
  exact Operation.bind_pure_apply _ _ _

/-- Beyond the limit nothing is considered. -/
theorem process_dropped (far : e.config.maxCascadeDepth < x.trail.depth) :
    process publish x e = (.ok [], e) := by
  rw [process_eq, if_pos far]

/-- Within the limit the rules of the bucket are considered. -/
theorem process_taken (near : x.trail.depth ≤ e.config.maxCascadeDepth) :
    process publish x e = considerAll publish e.config.matchMode x (e.rules.bucket x.name) e := by
  rw [process_eq, if_neg (Nat.not_lt.2 near)]

theorem deliver_listener (id : String) :
    Operation.forEach (deliver publish x) (.listener id :: subscribers) e =
      Operation.forEach (deliver publish x) subscribers (observe (.delivered id x) e).2 :=
  rfl

/-- When the rules are done with an event, the next subscribers receive it. -/
theorem deliver_rules {records : List RuleExecution}
    (processed : process publish x e = (.ok records, e₁)) :
    Operation.forEach (deliver publish x) (.rules :: subscribers) e =
      Operation.forEach (deliver publish x) subscribers e₁ := by
  have h : deliver publish x .rules e = (.ok (), e₁) := Operation.bind_ok _ processed
  rw [Operation.forEach_cons, Operation.bind_ok _ h]

/-- When the rules break down, no later subscriber receives the event. -/
theorem deliver_broken (processed : process publish x e = (.error f, e₁)) :
    Operation.forEach (deliver publish x) (.rules :: subscribers) e = (.error f, e₁) := by
  have h : deliver publish x .rules e = (.error f, e₁) := Operation.bind_error _ processed
  rw [Operation.forEach_cons, Operation.bind_error _ h]

end Steps

/-! ## Every run has a derivation -/

/-- A publisher whose publications of events at some depth all have derivations. -/
structure Derives (publish : Publish) (start : Engine) (depth : Nat) : Prop where
  quiet : Quiet start
  setup : publish.Respects [] SameSetup
  plain : publish.Plain
  derives : ∀ y e, SameSetup start e → y.trail.depth = depth → ∃ t, Publishes y e t (publish y e)

section Derives

variable {start : Engine} {x : DomainEvent}

/-- Whatever a rule's actions come to, it has a derivation. -/
theorem exists_runsActions (h : Derives publish start (x.trail.depth + 1)) (rule : Rule)
    (actions : List Action) (e : Engine) (he : SameSetup start e) :
    ∃ dispatched effects,
      RunsActions ⟨rule, x⟩ actions e dispatched effects (runActions publish ⟨rule, x⟩ actions e) := by
  -- the state moves on from action to action; what carries the induction is that its setup stays
  induction actions generalizing e with
  | nil => exact ⟨[], [], .done⟩
  | cons action rest ih =>
    have hq : Quiet e := h.quiet.of_setup he
    rcases asked : ask action ⟨rule, x⟩ e with ⟨f | (reason | output) | ⟨y, output⟩, e₁⟩
    · rw [runActions_broken h.plain hq asked]
      exact ⟨_, _, .broken asked⟩
    · rw [runActions_failed h.plain hq asked]
      exact ⟨_, _, .failed asked⟩
    · rw [runActions_answered h.plain hq asked]
      obtain ⟨_, _, others⟩ := ih e₁ (he.trans (ask_setup asked))
      exact ⟨_, _, .answered asked others⟩
    · have he₁ : SameSetup start e₁ := he.trans (ask_setup asked)
      have hdepth : y.trail.depth = x.trail.depth + 1 := by rw [ask_trail asked]; rfl
      obtain ⟨t, published⟩ := h.derives y e₁ he₁ hdepth
      have he₂ := he₁.trans (h.setup.publishes y e₁)
      rcases hy : publish y e₁ with ⟨f | _, e₂⟩
      · rw [hy] at published
        rw [runActions_brokenEffect h.plain hq asked hy]
        exact ⟨_, _, .brokenEffect asked published⟩
      · rw [hy] at published he₂
        rw [runActions_published h.plain hq asked hy]
        obtain ⟨_, _, others⟩ := ih e₂ he₂
        exact ⟨_, _, .published asked published others⟩

/-- A rule that is considered has a derivation if what it may set off has one. -/
theorem exists_considers (h : Derives publish start (x.trail.depth + 1)) (rule : Rule)
    (e : Engine) (he : SameSetup start e) :
    ∃ dispatched effects, Considers x rule e dispatched effects (consider publish rule x e) := by
  cases why : refusal? rule x with
  | some status =>
    rw [consider_skipped why]
    exact ⟨_, _, .skipped why⟩
  | none =>
    rw [consider_fires why]
    obtain ⟨_, _, actions⟩ := exists_runsActions h rule rule.actions e he
    exact ⟨_, _, .fires why actions⟩

/-- Rules that are considered in turn have a derivation, also when a failure cuts them short. -/
theorem exists_considersAll (h : Derives publish start (x.trail.depth + 1)) (mode : MatchMode)
    (rules : List Rule) (e : Engine) (he : SameSetup start e) :
    ∃ considered, ConsidersAll x mode rules e considered (considerAll publish mode x rules e) := by
  induction rules generalizing e with
  | nil => exact ⟨[], .done⟩
  | cons rule rest ih =>
    obtain ⟨dispatched, effects, first⟩ := exists_considers h rule e he
    have he₁ := he.trans (consider_keeps SameSetup.respected h.setup rule x e)
    rcases hc : consider publish rule x e with ⟨f | record, e₁⟩
    · rw [hc] at first
      rw [considerAll_broken hc]
      exact ⟨_, .broken first⟩
    rw [hc] at first he₁
    -- whatever the rule came to, its record is announced before the next rule is considered
    obtain ⟨y, e₂, notice⟩ :=
      exists_newEvent ruleExecutedEvent record.toJson (x.trail.child rule.name) e₁
    have he₂ : SameSetup start e₂ := he₁.trans (newEvent_setup notice)
    have hdepth : y.trail.depth = x.trail.depth + 1 := by rw [newEvent_trail notice]; rfl
    obtain ⟨t, announced⟩ := h.derives y e₂ he₂ hdepth
    have he₃ := he₂.trans (h.setup.publishes y e₂)
    rcases hy : publish y e₂ with ⟨f | _, e₃⟩
    · rw [hy] at announced
      rw [considerAll_brokenNotice hc notice hy]
      exact ⟨_, .brokenNotice first notice announced⟩
    rw [hy] at announced he₃
    cases hlast : isLast mode record with
    | true =>
      rw [considerAll_last hc notice hy hlast]
      exact ⟨_, .last first notice announced hlast⟩
    | false =>
      rw [considerAll_next hc notice hy hlast]
      obtain ⟨_, others⟩ := ih e₃ he₃
      exact ⟨_, .next first notice announced hlast others⟩

/-- The engine's own run through the rules of an event is derived. -/
theorem exists_processes (h : Derives publish start (x.trail.depth + 1)) (e : Engine)
    (he : SameSetup start e) : ∃ considered, Processes x e considered (process publish x e) := by
  by_cases far : e.config.maxCascadeDepth < x.trail.depth
  · rw [process_dropped far]
    exact ⟨[], .dropped far⟩
  · have near : x.trail.depth ≤ e.config.maxCascadeDepth := Nat.le_of_not_lt far
    rw [process_taken near]
    obtain ⟨considered, all⟩ := exists_considersAll h e.config.matchMode _ e he
    exact ⟨considered, .taken near all⟩

theorem exists_delivers (h : Derives publish start (x.trail.depth + 1))
    (subscribers : List Subscriber) (e : Engine) (he : SameSetup start e) :
    ∃ considered, Delivers x subscribers e considered
      (Operation.forEach (deliver publish x) subscribers e) := by
  induction subscribers generalizing e with
  | nil => exact ⟨[], .done⟩
  | cons subscriber rest ih =>
    cases subscriber with
    | listener id =>
      rw [deliver_listener]
      obtain ⟨considered, hrest⟩ := ih _ (he.trans (observe_setup (.delivered id x) e))
      exact ⟨considered, .listener hrest⟩
    | rules =>
      obtain ⟨considered, processed⟩ := exists_processes h e he
      have he' := he.trans (process_keeps SameSetup.respected h.setup x e)
      rcases hp : process publish x e with ⟨f | records, e'⟩
      · rw [hp] at processed
        rw [deliver_broken hp]
        exact ⟨considered, .broken processed⟩
      · rw [hp] at processed he'
        rw [deliver_rules hp]
        obtain ⟨others, hrest⟩ := ih e' he'
        exact ⟨considered ++ others, .rules processed hrest⟩

end Derives

/-- An event beyond the limit only reaches the listeners, whatever the publisher. -/
theorem delivers_beyond {x : DomainEvent} (publish : Publish) (subscribers : List Subscriber)
    (e : Engine) (far : e.config.maxCascadeDepth < x.trail.depth) :
    Delivers x subscribers e [] (Operation.forEach (deliver publish x) subscribers e) := by
  induction subscribers generalizing e with
  | nil => exact .done
  | cons subscriber rest ih =>
    cases subscriber with
    | listener id => exact .listener (ih _ far)
    | rules =>
      rw [deliver_rules (process_dropped far)]
      exact .rules (.dropped far) (ih e far)

/--
A publication has a derivation when the bound reaches past the limit of the chain: the events beyond
the limit are published, and nothing is considered for them.
-/
theorem exists_publishes {start : Engine} (hq : Quiet start) (n : Nat) (x : DomainEvent)
    (e : Engine) (he : SameSetup start e)
    (reach : start.config.maxCascadeDepth + 2 ≤ x.trail.depth + n) (hn : 0 < n) :
    ∃ t, Publishes x e t (publishWithin n x e) := by
  -- each nested publication is one hop further away, so it needs one less of the bound
  induction n generalizing x e with
  | zero => cases hn
  | succ n ih =>
    have hobserved := he.trans (observe_setup (.published x) e)
    rw [publishWithin_succ]
    by_cases far : start.config.maxCascadeDepth < x.trail.depth
    · refine ⟨.mk x [], .intro (delivers_beyond _ _ _ ?_)⟩
      exact he.config ▸ far
    · have h : Derives (publishWithin n) start (x.trail.depth + 1) :=
        { quiet := hq
          setup := publishWithin_setup n
          plain := publishWithin_plain n
          derives := fun y s hs hy => ih y s hs (by omega) (by omega) }
      obtain ⟨considered, delivered⟩ := exists_delivers h e.subscribers _ hobserved
      exact ⟨.mk x considered, .intro delivered⟩

/-- With enough room for what is to come, all publications at some depth have derivations. -/
theorem publishWithin_derives {start : Engine} (hq : Quiet start) {n depth : Nat}
    (reach : start.config.maxCascadeDepth + 2 ≤ depth + n) (hn : 0 < n) :
    Derives (publishWithin n) start depth where
  quiet := hq
  setup := publishWithin_setup n
  plain := publishWithin_plain n
  derives y s hs hy := exists_publishes hq n y s hs (by omega) hn

/-! ## What is derived is what the engine does -/

open Filter in
/-- What an operation with a bound on nesting comes to once the bound is large enough. -/
def Settles {α : Type} (f : Nat → End α) (out : End α) : Prop :=
  ∀ᶠ n in atTop, f n = out

/-- What does not depend on the bound is settled from the start. -/
theorem Settles.of_eq {α : Type} {f : Nat → End α} {out : End α} (h : ∀ n, f n = out) :
    Settles f out :=
  Filter.Eventually.of_forall h

/-- One level of nesting more needs one more of the bound. -/
theorem Settles.next {α : Type} {f : Nat → End α} {out : End α}
    (h : Settles (fun n => f (n + 1)) out) : Settles f out := by
  obtain ⟨bound, hb⟩ := Filter.eventually_atTop.1 h
  refine Filter.eventually_atTop.2 ⟨bound + 1, fun n hn => ?_⟩
  obtain ⟨n, rfl⟩ := Nat.exists_eq_add_of_le' (Nat.le_trans (Nat.le_add_left 1 _) hn)
  exact hb n (Nat.le_of_succ_le_succ hn)

/-- An operation settles on one outcome at most. -/
theorem Settles.unique {α : Type} {f : Nat → End α} {a b : End α} (ha : Settles f a)
    (hb : Settles f b) : a = b := by
  obtain ⟨n, hna, hnb⟩ := (Filter.Eventually.and ha hb).exists
  rw [← hna, hnb]

/-- What an operation settles on has the setup that it started with. -/
theorem Settles.setup {α : Type} {f : Publish → Operation Engine α} {e : Engine} {out : End α}
    (h : Settles (fun n => f (publishWithin n) e) out)
    (hf : ∀ publish : Publish, publish.Respects [] SameSetup →
      Operation.Keeps SameSetup (f publish)) :
    SameSetup e out.2 := by
  obtain ⟨n, hn⟩ := Filter.Eventually.exists h
  rw [← hn]
  exact hf _ (publishWithin_setup n) e

mutual

/-- Whatever is derived of a publication is what the engine does, from some bound on. -/
theorem Publishes.eventually {x : DomainEvent} {e : Engine} {t : Cascade} {out : End Unit}
    (h : Publishes x e t out) (hq : Quiet e) : Settles (fun n => publishWithin n x e) out := by
  match h with
  | .intro delivered => exact .next (delivered.eventually hq)

theorem Delivers.eventually {x : DomainEvent} {subscribers : List Subscriber} {e : Engine}
    {considered : List (Consideration Cascade)} {out : End Unit}
    (h : Delivers x subscribers e considered out) (hq : Quiet e) :
    Settles (fun n => Operation.forEach (deliver (publishWithin n) x) subscribers e) out := by
  match h with
  | .done => exact .of_eq fun _ => rfl
  | .listener rest => exact rest.eventually hq
  | .rules processed rest =>
    -- each part settles from a bound of its own on, and the whole from the largest of them on
    have hp := processed.eventually hq
    have hs := hp.setup fun publish hk => process_keeps SameSetup.respected hk x
    filter_upwards [hp, rest.eventually (hq.of_setup hs)] with n h₁ h₂
    rw [deliver_rules h₁, h₂]
  | .broken processed =>
    filter_upwards [processed.eventually hq] with n h₁
    exact deliver_broken h₁

/-- Whatever is derived of the rules of an event is what the engine does, from some bound on. -/
theorem Processes.eventually {x : DomainEvent} {e : Engine}
    {considered : List (Consideration Cascade)} {out : End (List RuleExecution)}
    (h : Processes x e considered out) (hq : Quiet e) :
    Settles (fun n => process (publishWithin n) x e) out := by
  match h with
  | .dropped far => exact .of_eq fun _ => process_dropped far
  | .taken near all =>
    filter_upwards [all.eventually hq] with n h₁
    rw [process_taken near, h₁]

theorem ConsidersAll.eventually {x : DomainEvent} {mode : MatchMode} {rules : List Rule}
    {e : Engine} {considered : List (Consideration Cascade)} {out : End (List RuleExecution)}
    (h : ConsidersAll x mode rules e considered out) (hq : Quiet e) :
    Settles (fun n => considerAll (publishWithin n) mode x rules e) out := by
  match h with
  | .done => exact .of_eq fun _ => rfl
  | .broken first =>
    filter_upwards [first.eventually hq] with n h₁
    exact considerAll_broken h₁
  | .brokenNotice first notice announced =>
    have hf := first.eventually hq
    have hs := hf.setup fun publish hk => consider_keeps SameSetup.respected hk _ x
    have hs₂ := hs.trans (newEvent_setup notice)
    filter_upwards [hf, announced.eventually (hq.of_setup hs₂)] with n h₁ h₂
    exact considerAll_brokenNotice h₁ notice h₂
  | .last first notice announced stop =>
    have hf := first.eventually hq
    have hs := hf.setup fun publish hk => consider_keeps SameSetup.respected hk _ x
    have hs₂ := hs.trans (newEvent_setup notice)
    filter_upwards [hf, announced.eventually (hq.of_setup hs₂)] with n h₁ h₂
    exact considerAll_last h₁ notice h₂ stop
  | .next first notice announced go others =>
    have hf := first.eventually hq
    have hs := hf.setup fun publish hk => consider_keeps SameSetup.respected hk _ x
    have hs₂ := hs.trans (newEvent_setup notice)
    have ha := announced.eventually (hq.of_setup hs₂)
    have hs₃ := hs₂.trans (ha.setup fun publish hk => hk.publishes _)
    filter_upwards [hf, ha, others.eventually (hq.of_setup hs₃)] with n h₁ h₂ h₃
    rw [considerAll_next h₁ notice h₂ go, h₃]

theorem Considers.eventually {x : DomainEvent} {rule : Rule} {e : Engine}
    {dispatched : List Action} {effects : List Cascade} {out : End RuleExecution}
    (h : Considers x rule e dispatched effects out) (hq : Quiet e) :
    Settles (fun n => consider (publishWithin n) rule x e) out := by
  match h with
  | .skipped why => exact .of_eq fun _ => consider_skipped why
  | .fires fires actions =>
    filter_upwards [actions.eventually hq] with n h₁
    rw [consider_fires fires, h₁]

theorem RunsActions.eventually {context : ActionContext} {actions : List Action} {e : Engine}
    {dispatched : List Action} {effects : List Cascade} {out : End (List ActionResult)}
    (h : RunsActions context actions e dispatched effects out) (hq : Quiet e) :
    Settles (fun n => runActions (publishWithin n) context actions e) out := by
  match h with
  | .done => exact .of_eq fun _ => rfl
  | .broken asked =>
    exact .of_eq fun n => runActions_broken (publishWithin_plain n) hq asked
  | .failed asked =>
    exact .of_eq fun n => runActions_failed (publishWithin_plain n) hq asked
  | .answered asked others =>
    filter_upwards [others.eventually (hq.of_setup (ask_setup asked))] with n h₁
    rw [runActions_answered (publishWithin_plain n) hq asked, h₁]
  | .brokenEffect asked published =>
    filter_upwards [published.eventually (hq.of_setup (ask_setup asked))] with n h₁
    exact runActions_brokenEffect (publishWithin_plain n) hq asked h₁
  | .published asked published others =>
    have hs := ask_setup asked
    have hp := published.eventually (hq.of_setup hs)
    have hs₂ := hs.trans (hp.setup fun publish hk => hk.publishes _)
    filter_upwards [hp, others.eventually (hq.of_setup hs₂)] with n h₁ h₂
    rw [runActions_published (publishWithin_plain n) hq asked h₁, h₂]

end

/-! ## Outcomes -/

theorem Publishes.outcome_unique {x : DomainEvent} {e : Engine} {t t' : Cascade}
    {out out' : End Unit} (h : Publishes x e t out) (h' : Publishes x e t' out') (hq : Quiet e) :
    out = out' :=
  (h.eventually hq).unique (h'.eventually hq)

theorem Processes.outcome_unique {x : DomainEvent} {e : Engine}
    {considered considered' : List (Consideration Cascade)} {out out' : End (List RuleExecution)}
    (h : Processes x e considered out) (h' : Processes x e considered' out') (hq : Quiet e) :
    out = out' :=
  (h.eventually hq).unique (h'.eventually hq)

/-! ## The setup along a derivation -/

theorem Publishes.setup {x : DomainEvent} {e : Engine} {t : Cascade} {out : End Unit}
    (h : Publishes x e t out) (hq : Quiet e) : SameSetup e out.2 :=
  (h.eventually hq).setup fun _ hk => hk.publishes x

theorem Processes.setup {x : DomainEvent} {e : Engine}
    {considered : List (Consideration Cascade)} {out : End (List RuleExecution)}
    (h : Processes x e considered out) (hq : Quiet e) : SameSetup e out.2 :=
  (h.eventually hq).setup fun _ hk => process_keeps SameSetup.respected hk x

theorem Considers.setup {x : DomainEvent} {rule : Rule} {e : Engine} {dispatched : List Action}
    {effects : List Cascade} {out : End RuleExecution}
    (h : Considers x rule e dispatched effects out) (hq : Quiet e) : SameSetup e out.2 :=
  (h.eventually hq).setup fun _ hk => consider_keeps SameSetup.respected hk rule x

/-! ## How a derivation ends -/

section Bears

variable {why : Breakdown}

/-- Asking an action what it wants breaks down on an unreadable row only. -/
theorem ask_bears (action : Action) (context : ActionContext) :
    Survives why (Bears why) (ask action context) := by
  refine (Survives.view _).bind fun found => ?_
  cases found with
  | none => exact .pure _
  | some handler =>
    refine Survives.bind (.change fun _ he => he) fun _ => ?_
    exact bears_handling.request (bears_select fun _ => rfl) (fun _ => .change fun _ he => he) action
      context handler

/-- The outcome is not a breakdown of this kind, and none is to come. -/
def Bearing {α : Type} (why : Breakdown) (out : End α) : Prop :=
  out.1 ≠ .error (.breakdown why) ∧ out.2.Bears why

theorem Bearing.of_error {α β : Type} {f : Failure} {e : Engine}
    (h : Bearing why ((.error f, e) : End α)) : Bearing why ((.error f, e) : End β) :=
  ⟨fun hf => h.1 (congrArg _ (Except.error.inj hf)), h.2⟩

theorem Bearing.map {α β : Type} {r : Except Failure α} {e : Engine} (h : Bearing why (r, e))
    (f : α → β) : Bearing why (r.map f, e) := by
  cases r with
  | error failure => exact h.of_error
  | ok a => exact ⟨by simp [Except.map], h.2⟩

theorem bearing_ask {action : Action} {context : ActionContext} {e : Engine} {out : End Request}
    (asked : ask action context e = out) (he : e.Bears why) : Bearing why out :=
  asked ▸ ask_bears action context e he

theorem bears_newEvent {name : String} {payload : Json} {trail : CascadeTrail} {e e' : Engine}
    {r : Except Failure DomainEvent} (made : newEvent name payload trail e = (r, e'))
    (he : e.Bears why) : e'.Bears why := by
  have h := (bears_handling.newEvent name payload trail e he).2
  rwa [made] at h

mutual

/-- A publication that is derived breaks down on an unreadable row only. -/
theorem Publishes.bears {x : DomainEvent} {e : Engine} {t : Cascade} {out : End Unit}
    (h : Publishes x e t out) (he : e.Bears why) : Bearing why out := by
  match h with
  | .intro delivered => exact delivered.bears he

theorem Delivers.bears {x : DomainEvent} {subscribers : List Subscriber} {e : Engine}
    {considered : List (Consideration Cascade)} {out : End Unit}
    (h : Delivers x subscribers e considered out) (he : e.Bears why) : Bearing why out := by
  match h with
  | .done => exact ⟨by simp, he⟩
  | .listener rest => exact rest.bears he
  | .rules processed rest => exact rest.bears (processed.bears he).2
  | .broken processed => exact (processed.bears he).of_error

/-- The rules of an event break down on an unreadable row only. -/
theorem Processes.bears {x : DomainEvent} {e : Engine}
    {considered : List (Consideration Cascade)} {out : End (List RuleExecution)}
    (h : Processes x e considered out) (he : e.Bears why) : Bearing why out := by
  match h with
  | .dropped far => exact ⟨by simp, he⟩
  | .taken near all => exact all.bears he

theorem ConsidersAll.bears {x : DomainEvent} {mode : MatchMode} {rules : List Rule}
    {e : Engine} {considered : List (Consideration Cascade)} {out : End (List RuleExecution)}
    (h : ConsidersAll x mode rules e considered out) (he : e.Bears why) : Bearing why out := by
  match h with
  | .done => exact ⟨by simp, he⟩
  | .broken first => exact (first.bears he).of_error
  | .brokenNotice first notice announced =>
    exact (announced.bears (bears_newEvent notice (first.bears he).2)).of_error
  | .last first notice announced stop =>
    exact ⟨by simp, (announced.bears (bears_newEvent notice (first.bears he).2)).2⟩
  | .next first notice announced go others =>
    have h₃ := (announced.bears (bears_newEvent notice (first.bears he).2)).2
    exact (others.bears h₃).map _

theorem Considers.bears {x : DomainEvent} {rule : Rule} {e : Engine} {dispatched : List Action}
    {effects : List Cascade} {out : End RuleExecution} (h : Considers x rule e dispatched effects out)
    (he : e.Bears why) : Bearing why out := by
  match h with
  | .skipped status => exact ⟨by simp, he⟩
  | .fires fires actions => exact (actions.bears he).map _

theorem RunsActions.bears {context : ActionContext} {actions : List Action} {e : Engine}
    {dispatched : List Action} {effects : List Cascade} {out : End (List ActionResult)}
    (h : RunsActions context actions e dispatched effects out) (he : e.Bears why) :
    Bearing why out := by
  match h with
  | .done => exact ⟨by simp, he⟩
  | .broken asked => exact (bearing_ask asked he).of_error
  | .failed asked => exact ⟨by simp, (bearing_ask asked he).2⟩
  | .answered asked others => exact (others.bears (bearing_ask asked he).2).map _
  | .brokenEffect asked published => exact (published.bears (bearing_ask asked he).2).of_error
  | .published asked published others =>
    exact (others.bears (published.bears (bearing_ask asked he).2).2).map _

end

theorem bears_of_ne (e : Engine) (hwhy : why ≠ .unreadable) : e.Bears why :=
  fun h => absurd h hwhy

end Bears

end WorkflowRules.Engine
