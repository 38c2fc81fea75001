import WorkflowRules.Proofs.Engine.Closed
import WorkflowRules.Proofs.Engine.Respected

/-!
# What an action asks for

An action of a rule publishes at most one event, and does so last: whatever else it does is done
before, and its output no longer depends on what the publication sets off. So an action can be
split into a request and the answer to it.

* `Engine.Quiet` — no hook starts a chain of events of its own
* `Engine.Request` — an outcome, or an event to publish and the output that comes after it
* `Engine.dispatch_eq_ask` — carrying out an action is asking for its request and answering it
* `Engine.ask_trail` — the event of a request carries the trail of what the rule causes
-/

namespace WorkflowRules.Engine

/-! ## Engines whose hooks do not publish -/

/-- No registered hook publishes events. -/
def Quiet (e : Engine) : Prop :=
  ∀ name hook, e.hooks.get? name = some hook →
    ∀ n seen event payload, hook n seen ≠ .publish event payload

theorem Quiet.of_setup {e e' : Engine} (h : SameSetup e e') (hq : Quiet e) : Quiet e' := by
  intro name hook hh
  rw [h.hooks] at hh
  exact hq name hook hh

/-- Publishes nothing, with nothing reserved. -/
def silent : Publish := ⟨[], fun _ _ => pure ()⟩

theorem silent_respects {R : Engine → Engine → Prop} (hR : Respected R) : silent.Respects [] R :=
  .of_run fun _ _ => Operation.Keeps.pure hR.toIsPreorder ()

theorem silent_setup : silent.Respects [] SameSetup := silent_respects SameSetup.respected

theorem silent_related {P : (α : Type) → Operation Engine α → Operation Engine α → Prop}
    (h : HandlingClosed P) : silent.Related P silent :=
  ⟨rfl, fun _ _ => h.pure ()⟩

/-- What publishing keeps at all times is a relation that holds of it, whatever is reserved. -/
theorem Publish.Respects.related {R : Engine → Engine → Prop} {publish : Publish}
    (h : publish.Respects [] R) : publish.Related (fun _ x _ => Operation.Keeps R x) publish :=
  ⟨rfl, fun held => h.run held (List.nil_subset held)⟩

/-- A hook that does not publish does not care how events are published. -/
theorem runHook_congr {hook : Hook}
    (hq : ∀ n seen event payload, hook n seen ≠ .publish event payload) (publish : Publish)
    (seen : HookContext) (name : String) :
    runHook publish seen name hook = runHook silent seen name hook := by
  unfold runHook
  congr 1
  funext _
  congr 1
  funext n
  cases heff : hook n seen with
  | nothing => rfl
  | fail reason => rfl
  | publish event payload => exact absurd heff (hq n seen event payload)
  | commit state event => rfl

/-- Quiet hooks before the commit run alike with every way of publishing. -/
theorem runBeforeHooks_congr {e : Engine} (hq : Quiet e) (publish : Publish) (seen : HookContext)
    (names : List String) :
    runBeforeHooks publish seen names e = runBeforeHooks silent seen names e := by
  refine Operation.bind_congr_at rfl fun hooks s hs => ?_
  obtain ⟨hget, rfl⟩ := hooksNamed_ok hs
  refine Operation.forEach_congr_at (I := fun _ => True) (fun hook hmem s' _ => ?_)
    (fun _ _ _ _ => trivial) s trivial
  unfold runBeforeHook
  rw [runHook_congr (hq _ _ (hget hook hmem))]

/-- A quiet hook after the commit runs alike with every way of publishing. -/
theorem runAfterHook_congr {e : Engine} (hq : Quiet e) (publish : Publish) (seen : HookContext)
    (name : String) : runAfterHook publish seen name e = runAfterHook silent seen name e := by
  unfold runAfterHook
  refine Operation.bind_congr_at rfl fun found s hs => ?_
  obtain ⟨hh, rfl⟩ := Prod.mk.inj hs
  cases found with
  | none => rfl
  | some hook => simp only [runHook_congr (hq name hook (Except.ok.inj hh)) publish]

/-- Quiet hooks after the commit run alike with every way of publishing. -/
theorem runAfterHooks_congr {e : Engine} (hq : Quiet e) (publish : Publish) (seen : HookContext)
    (names : List String) :
    runAfterHooks publish seen names e = runAfterHooks silent seen names e := by
  refine Operation.forEach_congr_at (I := Quiet)
    (fun name _ s hs => runAfterHook_congr hs publish seen name) (fun name _ s hs => ?_) e hq
  rw [runAfterHook_congr hs]
  exact hs.of_setup (runAfterHook_keeps SameSetup.respected silent_setup seen name s)

/-- Where no hook publishes, a transition of a free instance runs to its commit in one way only. -/
theorem advance_congr {e : Engine} (hq : Quiet e) {publish : Publish} (free : publish.held = [])
    (workflow entityId event : String) (context : TransitionContext) :
    advance publish workflow entityId event context e =
      advance silent workflow entityId event context e := by
  unfold advance
  rw [free]
  refine Operation.bind_congr_at rfl fun d s hd => ?_
  obtain ⟨-, rfl⟩ := lookup_ok hd
  refine Operation.bind_congr_at rfl fun _ s' hfree => ?_
  obtain ⟨-, rfl⟩ := reserve_ok hfree
  refine Operation.bind_congr_at rfl fun i s hi => ?_
  obtain ⟨-, rfl⟩ := load_ok hi
  refine Operation.bind_congr_at rfl fun t s' ht => ?_
  obtain ⟨-, rfl⟩ := select_ok ht
  refine Operation.bind_congr_at rfl fun _ s hs => ?_
  have hset := checkGuards_keeps SameSetup.respected (contextOf i t event context) t.guards s'
  rw [hs] at hset
  refine Operation.bind_congr_at ?_ fun _ _ _ => rfl
  rw [runBeforeHooks_congr (hq.of_setup hset),
    runBeforeHooks_congr (hq.of_setup hset) (silent.holding _)]

/-- Where no hook publishes, only the publication at its end makes a transition publish. -/
theorem settle_congr {e : Engine} (hq : Quiet e) {publish : Publish} (free : publish.held = [])
    (workflow entityId event : String) (context : TransitionContext) :
    settle publish workflow entityId event context e =
      settle silent workflow entityId event context e := by
  refine Operation.bind_congr_at (advance_congr hq free _ _ _ _) fun r s hs => ?_
  have hset := advance_keeps SameSetup.respected silent_setup workflow entityId event context e
  rw [← advance_congr hq free, hs] at hset
  exact Operation.bind_congr_at (runAfterHooks_congr (hq.of_setup hset) _ _ _) fun _ _ _ => rfl

/-! ## Requests -/

/-- What an action comes to before it publishes anything. -/
inductive Request where
  | answer (outcome : Outcome)
  /-- The output holds whatever the publication of the event sets off. -/
  | publication (event : DomainEvent) (output : Json)

/-- What an action asks of the handler of its type. -/
def request (action : Action) (context : ActionContext) :
    ActionHandler → Operation Engine Request
  | .emitEvent =>
    match (action.param? "event").filter fun name => !Text.isBlank name with
    | none => return .answer (.error "emit_event requires an 'event' parameter")
    | some name => do
      let payload := (action.params.get? "payload").getD context.event.payload
      let event ← newEvent name payload context.childTrail
      return .publication event
        (.ofFields [("event", .string name), ("event_id", .string event.id.text)])
  | .log => do return .answer (← runLog action context)
  | .transition =>
    match firingOf action context.event.payload with
    | .error reason => return .answer (.error reason)
    | .ok f => do
      match ← Operation.attempt
          (settle silent f.workflow f.entityId f.event (firingContext context)) with
      | .error e => return .answer (.error e.message)
      | .ok (i, entered) =>
        return .publication entered (.ofFields
          [("workflow", .string f.workflow), ("entity_id", .string f.entityId),
            ("state", .string i.state)])
  | .custom run => return .answer (run (← nextCall) action context)

/-- What an action asks for; without a handler of its type it fails. -/
def ask (action : Action) (context : ActionContext) : Operation Engine Request := do
  match ← .view (·.actions.get? action.type) with
  | none => return .answer (.error "no handler registered for this action type")
  | some handler =>
    observe (.actionRan handler.isBuiltIn action context)
    request action context handler

/-- What relates the steps of transitions and the writing of log records relates requests. -/
theorem HandlingClosed.request {P : (α : Type) → Operation Engine α → Operation Engine α → Prop}
    (h : HandlingClosed P) (select : SelectClosed P [])
    (logged : ∀ entry, P _ (observe (.logged entry)) (observe (.logged entry))) (action : Action)
    (context : ActionContext) (handler : ActionHandler) :
    P _ (request action context handler) (request action context handler) := by
  cases handler with
  | emitEvent =>
    rw [Engine.request]
    split
    · exact h.pure _
    · exact h.bind (h.newEvent _ _ _) fun _ => h.pure _
  | log =>
    refine h.bind ?_ fun _ => h.pure _
    unfold runLog
    dsimp only
    split
    · exact h.bind (logged _) fun _ => h.pure _
    · exact h.pure _
  | transition =>
    rw [Engine.request]
    split
    · exact h.pure _
    · refine h.bind (h.attempt (h.settle (silent_related h) select _ _ _ _)) fun r => ?_
      cases r <;> exact h.pure _
  | custom run => exact h.bind h.nextCall fun _ => h.pure _

/-- A request keeps what the steps of a transition keep, as nothing is published yet. -/
theorem request_keeps {R : Engine → Engine → Prop} (hR : Respected R) (action : Action)
    (context : ActionContext) (handler : ActionHandler) :
    Operation.Keeps R (request action context handler) := by
  cases handler with
  | emitEvent =>
    rw [request]
    split
    · exact Operation.Keeps.pure hR.toIsPreorder _
    · exact Operation.Keeps.bind hR.toIsPreorder (hR.newEvent _ _ _) fun _ =>
        Operation.Keeps.pure hR.toIsPreorder _
  | log =>
    exact Operation.Keeps.bind hR.toIsPreorder
      (runAction_keeps hR (silent_respects hR) action context .log) fun _ =>
        Operation.Keeps.pure hR.toIsPreorder _
  | transition =>
    rw [request]
    split
    · exact Operation.Keeps.pure hR.toIsPreorder _
    · refine Operation.Keeps.bind hR.toIsPreorder
        (settle_keeps hR (silent_respects hR) _ _ _ _).attempt fun r => ?_
      cases r <;> exact Operation.Keeps.pure hR.toIsPreorder _
  | custom run =>
    exact Operation.Keeps.bind hR.toIsPreorder hR.nextCall fun _ =>
      Operation.Keeps.pure hR.toIsPreorder _

theorem ask_keeps {R : Engine → Engine → Prop} (hR : Respected R) (action : Action)
    (context : ActionContext) : Operation.Keeps R (ask action context) := by
  refine Operation.Keeps.bind hR.toIsPreorder (Operation.Keeps.view hR.toIsPreorder _) fun found => ?_
  cases found with
  | none => exact Operation.Keeps.pure hR.toIsPreorder _
  | some handler =>
    exact Operation.Keeps.bind hR.toIsPreorder (fun e => hR.observe _ e (by simp)) fun _ =>
      request_keeps hR action context handler

theorem ask_setup {action : Action} {context : ActionContext} {r : Except Failure Request}
    {e e' : Engine} (h : ask action context e = (r, e')) : SameSetup e e' := by
  have hk := ask_keeps SameSetup.respected action context e
  rw [h] at hk
  exact hk

/-- The end of carrying out an action: a failure is reported with the action and the rule. -/
def report (action : Action) (context : ActionContext) : Outcome → Operation Engine Json
  | .ok output => return output
  | .error reason => .fail (.ruleAction context.rule.name action.type reason)

/-- Answers the request of an action. -/
def answer (publish : Publish) (action : Action) (context : ActionContext) :
    Request → Operation Engine Json
  | .answer outcome => report action context outcome
  | .publication event output => do
    publish event
    return output

/--
A transition as an action is a request for the publication of its event, answered by publishing it.
-/
theorem runTransition_eq_request {publish : Publish} (hp : ∀ x, (publish x).NeverRefused)
    (free : publish.held = []) {e : Engine} (hq : Quiet e) (action : Action) (context : ActionContext) :
    (runTransition publish action context >>= report action context) e =
      (request action context .transition >>= answer publish action context) e := by
  unfold runTransition request
  cases firingOf action context.event.payload with
  | error reason => rfl
  | ok f =>
    simp only [Operation.bind_apply, Operation.attempt, transition]
    rw [settle_congr hq free]
    rcases settle silent f.workflow f.entityId f.event (firingContext context) e with
      ⟨(reason | _) | ⟨i, entered⟩, s⟩
    · rfl
    · rfl
    · -- the attempt covers the publication as well, which therefore must not be refused
      have hne := hp entered s
      rcases hps : publish entered s with ⟨(reason | _) | _, s'⟩
      · exact absurd (by rw [hps]) (hne reason)
      · simp [answer, Operation.bind_apply, hps]
      · simp [answer, report, Operation.bind_apply, hps]

/-- Carrying out an action is asking what it asks for, and answering that. -/
theorem dispatch_eq_ask {publish : Publish} (hp : ∀ x, (publish x).NeverRefused)
    (free : publish.held = []) {e : Engine} (hq : Quiet e) (action : Action) (context : ActionContext) :
    dispatch publish action context e =
      (ask action context >>= answer publish action context) e := by
  unfold dispatch ask
  simp only [bind_assoc]
  refine Operation.bind_congr_at rfl fun found s hs => ?_
  obtain ⟨-, rfl⟩ := Prod.mk.inj hs
  cases found with
  | none => rfl
  | some handler =>
    simp only [bind_assoc]
    refine Operation.bind_congr_at rfl fun _ s' hs' => ?_
    have hq' : Quiet s' := by
      rw [← (Prod.mk.inj hs').2]
      exact hq
    -- only a transition needs an argument; the other handlers are the same operation in two forms
    cases handler with
    | emitEvent =>
      show (runEmitEvent publish action context >>= _) s' = (request action context .emitEvent >>= _) s'
      unfold runEmitEvent request
      cases (action.param? "event").filter fun name => !Text.isBlank name with
      | none => rfl
      | some name => simp only [bind_assoc, pure_bind]; rfl
    | log =>
      show (runLog action context >>= _) s' = (request action context .log >>= _) s'
      unfold request
      rw [bind_assoc]
      refine Operation.bind_congr_at rfl fun outcome _ _ => ?_
      cases outcome <;> rfl
    | transition => exact runTransition_eq_request hp free hq' action context
    | custom run =>
      show ((do return run (← nextCall) action context) >>= _ : Operation Engine Json) s' =
        (request action context (.custom run) >>= _) s'
      unfold request
      simp only [bind_assoc, pure_bind]
      refine Operation.bind_congr_at rfl fun n _ _ => ?_
      cases run n action context <;> rfl

/-! ## What a request publishes -/

/-- An event takes the next identifier and the next reading of the clock. -/
theorem newEvent_apply (name : String) (payload : Json) (trail : CascadeTrail) (e : Engine) :
    newEvent name payload trail e =
      (.ok ⟨e.clock.identifier e.clock.issued, name, payload, e.clock.time e.clock.readings, trail⟩,
        { e with clock :=
          { e.clock with issued := e.clock.issued + 1, readings := e.clock.readings + 1 } }) :=
  rfl

theorem exists_newEvent (name : String) (payload : Json) (trail : CascadeTrail) (e : Engine) :
    ∃ x e', newEvent name payload trail e = (.ok x, e') :=
  ⟨_, _, newEvent_apply name payload trail e⟩

theorem newEvent_setup {name : String} {payload : Json} {trail : CascadeTrail}
    {r : Except Failure DomainEvent} {e e' : Engine}
    (h : newEvent name payload trail e = (r, e')) : SameSetup e e' := by
  have hk := SameSetup.respected.newEvent name payload trail e
  rw [h] at hk
  exact hk

theorem newEvent_trail {name : String} {payload : Json} {trail : CascadeTrail}
    {x : DomainEvent} {e e' : Engine} (h : newEvent name payload trail e = (.ok x, e')) :
    x.trail = trail := by
  rw [newEvent_apply] at h
  cases h
  rfl

theorem newEvent_content {name : String} {payload : Json} {trail : CascadeTrail}
    {x : DomainEvent} {e e' : Engine} (h : newEvent name payload trail e = (.ok x, e')) :
    x.name = name ∧ x.payload = payload := by
  rw [newEvent_apply] at h
  cases h
  exact ⟨rfl, rfl⟩

/-- The event of a transition has the trail of whoever fired it. -/
theorem settle_trail {publish : Publish} {workflow entityId event : String}
    {context : TransitionContext} {i : Instance} {entered : DomainEvent} {e e' : Engine}
    (h : settle publish workflow entityId event context e = (.ok (i, entered), e')) :
    entered.trail = context.trail := by
  obtain ⟨⟨seen, afterHooks⟩, s, -, h⟩ := Operation.bind_eq_ok h
  obtain ⟨-, s', -, h⟩ := Operation.bind_eq_ok h
  obtain ⟨y, s'', hy, h⟩ := Operation.bind_eq_ok h
  cases h
  exact newEvent_trail hy

/-- What an action publishes has the rule of the action on its trail. -/
theorem request_trail {action : Action} {context : ActionContext} {handler : ActionHandler}
    {x : DomainEvent} {output : Json} {e e' : Engine}
    (h : request action context handler e = (.ok (.publication x output), e')) :
    x.trail = context.childTrail := by
  cases handler with
  | emitEvent =>
    unfold request at h
    cases hn : (action.param? "event").filter fun name => !Text.isBlank name with
    | none => simp only [hn] at h; cases h
    | some name =>
      simp only [hn] at h
      obtain ⟨y, s, hy, h⟩ := Operation.bind_eq_ok h
      cases h
      exact newEvent_trail hy
  | log =>
    obtain ⟨_, s, -, h⟩ := Operation.bind_eq_ok h
    cases h
  | transition =>
    unfold request at h
    cases hf : firingOf action context.event.payload with
    | error reason => simp only [hf] at h; cases h
    | ok f =>
      simp only [hf] at h
      obtain ⟨r, s, hr, h⟩ := Operation.bind_eq_ok h
      cases r with
      | error reason => cases h
      | ok settled =>
        cases h
        -- the attempt has gone well, and so has the transition inside of it
        unfold Operation.attempt at hr
        rcases hs : settle silent f.workflow f.entityId f.event (firingContext context) e with
          ⟨(reason | _) | settled', s'⟩ <;> rw [hs] at hr <;> cases hr
        exact settle_trail hs
  | custom run => cases h

/-- Whatever an action publishes carries the trail of what its rule causes. -/
theorem ask_trail {action : Action} {context : ActionContext} {x : DomainEvent} {output : Json}
    {e e' : Engine} (h : ask action context e = (.ok (.publication x output), e')) :
    x.trail = context.childTrail := by
  obtain ⟨found, s, -, h⟩ := Operation.bind_eq_ok h
  cases found with
  | none => cases h
  | some handler =>
    obtain ⟨_, s', -, h⟩ := Operation.bind_eq_ok h
    exact request_trail h

end WorkflowRules.Engine
