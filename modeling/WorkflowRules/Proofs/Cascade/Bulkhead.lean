import WorkflowRules.Proofs.Cascade.Invocations

/-!
# Failures stay with their rules

An action that fails ends the actions of its rule, and that is all that it ends. The record tells of it,
the other rules are considered as before, and whoever published the event does not learn of it.

* `Engine.InTurn` — actions that are dispatched one after the other
* `Engine.Fired` — what a rule that fires does, and what its record says of it
* `Engine.ConsideredInTurn` — rules that are considered one after the other
* `Engine.Bulkhead` — everything that keeps a failure where it is
* `Engine.bulkhead` — it holds however deeply publications are nested
-/

namespace WorkflowRules.Engine

open Operation (Keeps NeverRefused Survives)

variable {publish : Publish} {rule : Rule} {x : DomainEvent} {context : ActionContext}
  {action : Action} {actions : List Action} {results : List ActionResult}
  {record : RuleExecution} {e e' : Engine}

/-! ## Actions in turn -/

/-- One action is dispatched, and its result says how that went. -/
inductive Dispatched (publish : Publish) (context : ActionContext) (action : Action) (e : Engine) :
    ActionResult → Engine → Prop
  | succeeded {output : Json} {e' : Engine}
      (dispatched : dispatch publish action context e = (.ok output, e')) :
      Dispatched publish context action e (.succeeded action.type output) e'
  | failed {reason : AutomationError} {e' : Engine}
      (dispatched : dispatch publish action context e = (.error (.error reason), e')) :
      Dispatched publish context action e (.failed action.type reason.message) e'

theorem Dispatched.state_eq {result : ActionResult} (h : Dispatched publish context action e result e') :
    (dispatch publish action context e).2 = e' := by
  cases h with
  | succeeded dispatched => rw [dispatched]
  | failed dispatched => rw [dispatched]

/-- Actions are dispatched in their order, each once. -/
inductive InTurn (publish : Publish) (context : ActionContext) :
    List Action → Engine → List ActionResult → Engine → Prop
  | done {e : Engine} : InTurn publish context [] e [] e
  | next {action : Action} {rest : List Action} {e e₁ e₂ : Engine} {result : ActionResult}
      {results : List ActionResult} (first : Dispatched publish context action e result e₁)
      (others : InTurn publish context rest e₁ results e₂) :
      InTurn publish context (action :: rest) e (result :: results) e₂

/-- Where the actions of a rule stop: at their end, or at the one that fails. -/
inductive StopsAt (actions : List Action) : List ActionResult → Prop
  | finished {results : List ActionResult} (complete : results.length = actions.length)
      (succeeded : ∀ r ∈ results, r.success = true ∧ r.error = none) : StopsAt actions results
  | failure (front : List ActionResult) {type reason : String} (within : front.length < actions.length)
      (succeeded : ∀ r ∈ front, r.success = true ∧ r.error = none) :
      StopsAt actions (front ++ [.failed type reason])

/-- One more action that succeeds comes in front. -/
theorem StopsAt.cons (h : StopsAt actions results) (action : Action) (output : Json) :
    StopsAt (action :: actions) (.succeeded action.type output :: results) := by
  have first : (ActionResult.succeeded action.type output).success = true ∧
      (ActionResult.succeeded action.type output).error = none := ⟨rfl, rfl⟩
  cases h with
  | finished complete succeeded =>
    exact .finished (by simp [complete]) (List.forall_mem_cons.2 ⟨first, succeeded⟩)
  | @failure front type reason within succeeded =>
    exact .failure (.succeeded action.type output :: front) (by simpa using within)
      (List.forall_mem_cons.2 ⟨first, succeeded⟩)

/-- Actions are dispatched in turn up to the first that fails. -/
theorem runActions_inTurn (h : runActions publish context actions e = (.ok results, e')) :
    InTurn publish context (actions.take results.length) e results e' ∧ StopsAt actions results := by
  induction actions generalizing results e with
  | nil =>
    cases h
    exact ⟨.done, .finished rfl (by simp)⟩
  | cons action rest ih =>
    rw [runActions] at h
    obtain ⟨outcome, e₁, attempted, h⟩ := Operation.bind_eq_ok h
    have dispatched := Operation.of_attempt attempted
    cases outcome with
    | error reason =>
      cases h
      exact ⟨.next (.failed dispatched) .done, .failure [] (by simp) (by simp)⟩
    | ok output =>
      obtain ⟨others, e₂, hothers, h⟩ := Operation.bind_eq_ok h
      cases h
      obtain ⟨inTurn, stops⟩ := ih hothers
      exact ⟨.next (.succeeded dispatched) inTurn, stops.cons action output⟩

/-! ## What a rule that fires does -/

/-- What the record of a rule that fires says of how its actions went. -/
inductive Ending (actions : List Action) (record : RuleExecution) : Prop
  | executed (complete : record.actionResults.length = actions.length)
      (succeeded : ∀ r ∈ record.actionResults, r.success = true)
      (status : record.status = .executed) (flag : record.executed = true)
      (error : record.error = none)
  | actionFailed (front : List ActionResult) (last : ActionResult)
      (split : record.actionResults = front ++ [last])
      (succeeded : ∀ r ∈ front, r.success = true) (failed : last.success = false)
      (status : record.status = .actionFailed) (flag : record.executed = false)
      (error : record.error = last.error) (reason : last.error ≠ none)

/-- The record says whether the actions came to their end. -/
theorem StopsAt.ending (h : StopsAt actions results) (rule event : String) :
    Ending actions (.ran rule event results) := by
  cases h with
  | finished complete succeeded =>
    have noError : results.getLast?.bind (·.error) = none := by
      cases hlast : results.getLast? with
      | none => rfl
      | some r => exact (succeeded r (List.mem_of_getLast? hlast)).2
    exact .executed complete (fun r hr => (succeeded r hr).1)
      (by simp [RuleExecution.ran, noError]) (by simp [RuleExecution.ran, noError])
      (by simp [RuleExecution.ran, noError])
  | @failure front type reason within succeeded =>
    exact .actionFailed front (.failed type reason) rfl (fun r hr => (succeeded r hr).1) rfl
      (by simp [RuleExecution.ran, ActionResult.failed])
      (by simp [RuleExecution.ran, ActionResult.failed])
      (by simp [RuleExecution.ran]) (by simp [ActionResult.failed])

/-- What a rule that fires does, and what its record says of it. -/
structure Fired (publish : Publish) (rule : Rule) (x : DomainEvent) (e : Engine)
    (record : RuleExecution) (e' : Engine) : Prop where
  ofRule : record.rule = rule.name
  ofEvent : record.event = x.name
  matched : record.matched = true
  /-- The first actions are dispatched, one after the other, and their results listed. -/
  dispatched : InTurn publish ⟨rule, x⟩ (rule.actions.take record.actionResults.length) e
    record.actionResults e'
  within : record.actionResults.length ≤ rule.actions.length
  ending : Ending rule.actions record

theorem StopsAt.length_le (h : StopsAt actions results) : results.length ≤ actions.length := by
  cases h with
  | finished complete _ => exact complete.le
  | failure _ within _ =>
    rw [List.length_append]
    exact within

/-- What is known of a rule that fires and whose record was returned. -/
theorem consider_fired (fires : refusal? rule x = none)
    (h : consider publish rule x e = (.ok record, e')) : Fired publish rule x e record e' := by
  rw [consider_fires fires] at h
  rcases hran : runActions publish ⟨rule, x⟩ rule.actions e with ⟨failure | results, s⟩ <;>
    rw [hran] at h <;> cases h
  obtain ⟨inTurn, stops⟩ := runActions_inTurn hran
  exact ⟨rfl, rfl, rfl, inTurn, stops.length_le, stops.ending _ _⟩

/-! ## How an engine publishes -/

/--
The ways in which an engine publishes: for its callers and for the hooks of their transitions, and inside
of a cascade; and always with some instances reserved, or none.
-/
inductive IsPublisher : Publish → Prop
  | outermost (held : List InstanceKey) : IsPublisher ⟨held, publishWith⟩
  | nested (n : Nat) (held : List InstanceKey) : IsPublisher ⟨held, publishFor n⟩

namespace IsPublisher

variable (h : IsPublisher publish)

include h

theorem neverRefused (y : DomainEvent) : (publish y).NeverRefused := by
  cases h with
  | outermost held => exact publishWith_neverRefused held y
  | nested n held => exact publishFor_neverRefused n held y

theorem setup : publish.Respects [] SameSetup := by
  have hR := SameSetup.respected
  have published (x : DomainEvent) (e : Engine) := observe_setup (.published x) e
  cases h with
  | outermost held => exact .of_run fun held => publishWith_keeps hR published (List.nil_subset held)
  | nested n held => exact .of_run fun held => publishFor_keeps hR published n (List.nil_subset held)

theorem idles {name : String} {y : DomainEvent} (free : publish.held = [])
    (listed : name ∈ y.trail.rules) : Keeps (Idles name) (publish y) := by
  cases h with
  | outermost held =>
    obtain rfl : held = [] := free
    exact publish_idles listed
  | nested n held =>
    obtain rfl : held = [] := free
    exact publishWithin_idles n listed

end IsPublisher

/--
There is room for whatever the rules of an event cause, as long as no hook publishes: nothing is
reserved, and the bound on nesting reaches past the limit of the chain.
-/
inductive Roomy (e : Engine) (x : DomainEvent) : Publish → Prop
  | outermost : Roomy e x Engine.publish
  | nested (n : Nat) (room : e.config.maxCascadeDepth + 2 ≤ x.trail.depth + 1 + n) (some : 0 < n) :
    Roomy e x (publishWithin n)

/-- Where there is room, what an event sets off has a derivation. -/
theorem Roomy.derives (h : Roomy e x publish) (quiet : Quiet e) :
    Derives publish e (x.trail.depth + 1) := by
  cases h with
  | outermost => exact publish_derives quiet _
  | nested n room some => exact publishWithin_derives quiet room some

/-! ## What is carried out for a rule that fires -/

/-- For a rule that fires, each of its actions with a handler is carried out once. -/
theorem InTurn.carriedOut_eq (engines : IsPublisher publish) (free : publish.held = []) (quiet : Quiet e)
    (h : InTurn publish ⟨rule, x⟩ actions e results e') :
    carriedOut rule.name e' =
      carriedOut rule.name e ++ actions.filter fun action => hasHandler e action.type := by
  induction h with
  | done => simp
  | @next action rest e e₁ e₂ result results first others ih =>
    have hlisted (y : DomainEvent) (hy : y.trail = x.trail.child rule.name) :
        rule.name ∈ y.trail.rules := hy ▸ CascadeTrail.mem_child_rules.2 (.inr rfl)
    have hfirst := dispatch_carriedOut rule.name action ⟨rule, x⟩ ⟨free, engines.neverRefused⟩
      (fun y hy => engines.idles free (hlisted y hy)) quiet
    have hsetup := dispatch_keeps SameSetup.respected engines.setup action ⟨rule, x⟩ e
    rw [first.state_eq] at hfirst hsetup
    have hhandlers : hasHandler e₁ = hasHandler e := by
      funext type
      rw [hasHandler, hasHandler, hsetup.actions]
    rw [ih hfirst.1, hfirst.2, hhandlers, List.append_assoc, List.filter_cons, added]
    by_cases handled : hasHandler e action.type = true <;> simp [handled]

/-! ## Rules in turn -/

/-- Rules are considered in their order, each once; what came of each is announced before the next. -/
inductive ConsideredInTurn (publish : Publish) (x : DomainEvent) :
    List Rule → Engine → List RuleExecution → Engine → Prop
  | done {e : Engine} : ConsideredInTurn publish x [] e [] e
  | next {rule : Rule} {rest : List Rule} {e e₁ e₂ e₃ : Engine} {record : RuleExecution}
      {records : List RuleExecution}
      (first : consider publish rule x e = (.ok record, e₁))
      (announced : notify publish rule x record e₁ = (.ok (), e₂))
      (others : ConsideredInTurn publish x rest e₂ records e₃) :
      ConsideredInTurn publish x (rule :: rest) e (record :: records) e₃

/-- If all matches count, all rules are considered, whatever becomes of their actions. -/
theorem considerAll_inTurn {rules : List Rule} {records : List RuleExecution}
    (h : considerAll publish .fanOut x rules e = (.ok records, e')) :
    ConsideredInTurn publish x rules e records e' := by
  induction rules generalizing records e with
  | nil =>
    cases h
    exact .done
  | cons rule rest ih =>
    rw [considerAll_cons] at h
    obtain ⟨record, e₁, first, h⟩ := Operation.bind_eq_ok h
    obtain ⟨_, e₂, announced, h⟩ := Operation.bind_eq_ok h
    rw [if_neg (by simp [isLast])] at h
    obtain ⟨others, e₃, hothers, h⟩ := Operation.bind_eq_ok h
    cases h
    exact .next first announced (ih hothers)

/-! ## Events that actions publish -/

/-- The output of the action that publishes an event. -/
def emitted (y : DomainEvent) : Json :=
  .ofFields [("event", .string y.name), ("event_id", .string y.id.text)]

/-- The event is made first, and what it sets off does not change the output. -/
theorem dispatch_emitEvent (publish : Publish) (context : ActionContext) {name : String}
    (handler : e.actions.get? action.type = some .emitEvent)
    (named : action.param? "event" = some name) (visible : Text.isBlank name = false) :
    ∃ y s, y.name = name ∧ y.trail = context.childTrail ∧ SameSetup e s ∧ s.store = e.store ∧
      dispatch publish action context e =
        ((publish y s).1.map fun _ => emitted y, (publish y s).2) := by
  have hfilter : (action.param? "event").filter (fun name => !Text.isBlank name) = some name := by
    simp [named, visible]
  obtain ⟨y, s, made⟩ := exists_newEvent name
    ((action.params.get? "payload").getD context.event.payload) context.childTrail
    (observe (.actionRan true action context) e).2
  have hname : y.name = name := (newEvent_content made).1
  have hsetup : SameSetup e s :=
    (observe_setup (.actionRan true action context) e).trans (newEvent_setup made)
  have hstore : s.store = e.store := by
    rw [newEvent_apply] at made
    cases made
    rfl
  -- the answer of the publication is passed on; it only fails where the publication breaks down
  have hrun : runEmitEvent publish action context (observe (.actionRan true action context) e).2 =
      ((publish y s).1.map fun _ => .ok (emitted y), (publish y s).2) := by
    unfold runEmitEvent
    simp only [hfilter]
    rw [Operation.bind_ok _ made, emitted, hname]
    exact Operation.bind_pure_apply _ _ _
  have hview : (Operation.view fun e : Engine => e.actions.get? action.type) e =
      (.ok (some .emitEvent), e) := by rw [Operation.view_apply, handler]
  refine ⟨y, s, hname, newEvent_trail made, hsetup, hstore, ?_⟩
  unfold dispatch
  rw [Operation.bind_ok _ hview]
  show (runEmitEvent publish action context >>= _) (observe (.actionRan true action context) e).2 = _
  rw [Operation.bind_apply, hrun]
  rcases publish y s with ⟨failure | _, t⟩ <;> rfl

/-! ## The bulkhead -/

/-- Everything that keeps the failure of an action within its rule. -/
structure Bulkhead (publish : Publish) (e : Engine) : Prop where
  /-- For a rule that does not fire nothing happens at all. -/
  skipped : ∀ rule x status, refusal? rule x = some status →
    consider publish rule x e = (.ok (.skipped rule.name x.name status), e)
  fired : ∀ rule x record e', refusal? rule x = none →
    consider publish rule x e = (.ok record, e') → Fired publish rule x e record e'
  /--
  The handlers of the dispatched actions run once each, and for this rule no other handler. Where no hook
  publishes, no rule is considered while anything is reserved.
  -/
  carriedOut : Quiet e → publish.held = [] → ∀ rule x record e', refusal? rule x = none →
    consider publish rule x e = (.ok record, e') →
    carriedOut rule.name e' = carriedOut rule.name e ++
      (rule.actions.take record.actionResults.length).filter fun action => hasHandler e action.type
  /-- Whatever fails, there is a record in the end, unless a row of an instance is unreadable. -/
  recorded : ∀ rule x, Quiet e → Roomy e x publish → e.Readable →
    ∃ record e', consider publish rule x e = (.ok record, e')
  /-- A rule never fails itself; hooks that publish may keep it from ever ending. -/
  accepted : ∀ rule x failure e', consider publish rule x e = (.error failure, e') →
    (∃ why, failure = .breakdown why) ∧ (Quiet e → Roomy e x publish → failure = .unreadable)
  processed : ∀ x, Quiet e → Roomy e x publish → e.Readable →
    ∃ records e', process publish x e = (.ok records, e')
  /-- When every match counts, every rule is considered. -/
  others : ∀ x records e', e.config.matchMode = .fanOut →
    x.trail.depth ≤ e.config.maxCascadeDepth → process publish x e = (.ok records, e') →
    ConsideredInTurn publish x (e.rules.bucket x.name) e records e'
  /-- An action that publishes an event succeeds, whatever comes of the event. -/
  emits : ∀ action context name, e.actions.get? action.type = some .emitEvent →
    action.param? "event" = some name → Text.isBlank name = false →
    ∃ y s, y.name = name ∧ y.trail = context.childTrail ∧
      dispatch publish action context e =
        ((publish y s).1.map fun _ => emitted y, (publish y s).2) ∧
      (∀ failure, (publish y s).1 = .error failure → (∃ why, failure = .breakdown why) ∧
        (Quiet e → Roomy e context.event publish → failure = .unreadable)) ∧
      (Quiet e → Roomy e context.event publish → e.Readable → (publish y s).1 = .ok ())

/-- A failure of an action stays with its rule, at every level of a cascade. -/
theorem bulkhead (engines : IsPublisher publish) (e : Engine) : Bulkhead publish e where
  skipped rule x status why := consider_skipped why
  fired rule x record e' := consider_fired
  carriedOut quiet free rule x record e' fires h :=
    (consider_fired fires h).dispatched.carriedOut_eq engines free quiet
  recorded rule x quiet room readable := by
    obtain ⟨_, _, h⟩ := exists_considers (room.derives quiet) rule e .rfl
    exact (consider_neverRefused publish rule x).succeeds fun _ => (h.bears fun _ => readable).1
  accepted rule x failure e' h := by
    have accepted := consider_neverRefused publish rule x
    refine ⟨accepted.breaksDown h, fun quiet room => accepted.eq_unreadable (fun why hwhy => ?_) h⟩
    obtain ⟨_, _, derived⟩ := exists_considers (room.derives quiet) rule e .rfl
    exact (derived.bears (bears_of_ne e hwhy)).1
  processed x quiet room readable := by
    obtain ⟨_, h⟩ := exists_processes (room.derives quiet) e .rfl
    exact (process_neverRefused engines.neverRefused x).succeeds fun _ =>
      (h.bears fun _ => readable).1
  others x records e' fanOut near h := by
    rw [process_taken near, fanOut] at h
    exact considerAll_inTurn h
  emits action context name handler named visible := by
    obtain ⟨y, s, hname, htrail, hsetup, hstore, hdispatch⟩ :=
      dispatch_emitEvent publish context handler named visible
    -- a record that is missing can only be due to the publication, which is never refused
    have published (quiet : Quiet e) (room : Roomy e context.event publish) :
        ∃ t, Publishes y s t (publish y s) :=
      (room.derives quiet).derives y s hsetup (by rw [htrail]; rfl)
    refine ⟨y, s, hname, htrail, hdispatch, fun failure hf => ?_, fun quiet room readable => ?_⟩
    · have accepted := engines.neverRefused y
      have hend : publish y s = (.error failure, (publish y s).2) := Prod.ext hf rfl
      refine ⟨accepted.breaksDown hend, fun quiet room => accepted.eq_unreadable ?_ hend⟩
      obtain ⟨_, h⟩ := published quiet room
      exact fun why hwhy => (h.bears (bears_of_ne s hwhy)).1
    · obtain ⟨_, h⟩ := published quiet room
      have hreadable : s.Readable := by
        rw [Readable, hstore]
        exact readable
      obtain ⟨_, t, hok⟩ := (engines.neverRefused y).succeeds fun _ =>
        (h.bears fun _ => hreadable).1
      rw [hok]

/-! ## An engine in which actions fail -/

/-- An action that succeeds. -/
def work : Action := ⟨"work", []⟩

/-- An action that fails. -/
def breakDown : Action := ⟨"break", []⟩

/-- A rule whose second action fails. -/
def careless : Rule := { Rule.onEvent "careless" "go" with actions := [work, breakDown, work] }

/-- A rule that publishes an event. -/
def shout : Rule := (Rule.onEvent "shout" "go").addAction (.emitEvent "alarm")

/-- A rule that fails on that event. -/
def panicking : Rule := (Rule.onEvent "panicking" "alarm").addAction breakDown

/-- An engine in memory with these rules. -/
def workshop : Engine :=
  { inMemory {} .counting with
    actions := (builtinActions.insert work.type (.custom fun _ _ _ => .ok .null)).insert breakDown.type
      (.custom fun _ _ _ => .error "it broke")
    rules := ((RuleTable.empty.upsert careless).upsert shout).upsert panicking
    subscribers := [.rules]
    connected := true }

/-- The event that sets the rules off. -/
def go : DomainEvent := { tick with name := "go" }

theorem workshop_quiet : Quiet workshop :=
  fun _ _ h => by cases h

/--
The second of three actions breaks down: the third is not carried out, and the rule itself is told
of.
-/
theorem bulkhead_workshop :
    (∃ record e', consider Engine.publish careless go workshop = (.ok record, e') ∧
      record.status = .actionFailed ∧ Fired Engine.publish careless go workshop record e' ∧
      carriedOut "careless" e' = [work, breakDown]) ∧
    ∃ y s, y.name = "alarm" ∧
      dispatch Engine.publish (.emitEvent "alarm") ⟨shout, go⟩ workshop = (.ok (emitted y), s) := by
  have engines : IsPublisher Engine.publish := .outermost []
  have h := bulkhead engines workshop
  constructor
  · have considered : consider Engine.publish careless go workshop =
        (.ok (.ran "careless" "go" [.succeeded "work" .null,
          .failed "break" "Action 'break' failed in rule 'careless': it broke"]), _) := rfl
    have fired := h.fired careless go _ _ rfl considered
    exact ⟨_, _, considered, rfl, fired,
      h.carriedOut workshop_quiet rfl careless go _ _ rfl considered⟩
  · obtain ⟨y, s, hname, -, hdispatch, -, hok⟩ :=
      h.emits (.emitEvent "alarm") ⟨shout, go⟩ "alarm" rfl rfl rfl
    rw [hok workshop_quiet .outermost trivial] at hdispatch
    exact ⟨y, _, hname, hdispatch⟩

end WorkflowRules.Engine
