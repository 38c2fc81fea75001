import WorkflowRules.Proofs.Cascade.Sample
import WorkflowRules.Proofs.Condition.Fallbacks
import WorkflowRules.Proofs.Engine.Checked
import WorkflowRules.Proofs.Engine.Closed

/-!
# Branches that no run takes

Three branches of an engine deal with rules that make no sense: an action of a type without a handler
is refused, a leaf with an unknown operator is false, and so is one that lacks its list. The rules of an
engine have all been checked, so no run ever takes these branches: it does the same if they do anything
else, such as to change the engine.

* `Engine.Fallbacks` — what the three branches do
* `Engine.publishOr`, `Engine.processEventOr`, `Engine.fireOr` — runs with a choice of them, which are
  those of the engine under the standard choice
* `Engine.Alike` — two operations that do the same wherever runs of an engine may lead
* `Engine.Reached.rules_wellFormed` — the rules are well-formed, and the choice does not matter
-/

namespace WorkflowRules.Engine

/-! ## Runs with a choice of fallbacks -/

/-- What is done about actions and leaves that make no sense. -/
structure Fallbacks extends Condition.Fallbacks where
  /-- No handler is registered for the type of the action. -/
  noHandler : Action → ActionContext → Operation Engine Json

/-- What an engine does about them. -/
def Fallbacks.standard : Fallbacks where
  toFallbacks := .standard
  noHandler action context :=
    .fail (.ruleAction context.rule.name action.type "no handler registered for this action type")

section Choice

variable (f : Fallbacks)

/-- Carries out an action through the handler of its type, if there is one. -/
def dispatchOr (publish : Publish) (action : Action) (context : ActionContext) :
    Operation Engine Json := do
  match ← .view (·.actions.get? action.type) with
  | none => f.noHandler action context
  | some handler =>
    observe (.actionRan handler.isBuiltIn action context)
    match ← runAction publish action context handler with
    | .ok output => return output
    | .error reason => .fail (.ruleAction context.rule.name action.type reason)

/-- Carries out actions until one fails. -/
def runActionsOr (publish : Publish) (context : ActionContext) :
    List Action → Operation Engine (List ActionResult)
  | [] => return []
  | action :: rest => do
    match ← Operation.attempt (dispatchOr f publish action context) with
    | .error e => return [.failed action.type e.message]
    | .ok output =>
      let others ← runActionsOr publish context rest
      return .succeeded action.type output :: others

/-- Considers a rule for an event. -/
def considerOr (publish : Publish) (rule : Rule) (event : DomainEvent) :
    Operation Engine RuleExecution := do
  if event.trail.contains rule.name then
    return .skipped rule.name event.name .cycleDetected
  else if !rule.enabled then return .skipped rule.name event.name .disabled
  else if !rule.condition.holdsOr f.toFallbacks event.payload then
    return .skipped rule.name event.name .notMatched
  else
    let results ← runActionsOr f publish ⟨rule, event⟩ rule.actions
    return .ran rule.name event.name results

/-- Considers rules in turn. -/
def considerAllOr (publish : Publish) (mode : MatchMode) (event : DomainEvent) :
    List Rule → Operation Engine (List RuleExecution)
  | [] => return []
  | rule :: rest => do
    let record ← considerOr f publish rule event
    notify publish rule event record
    if record.matched && mode = .firstMatch then return [record]
    else
      let others ← considerAllOr publish mode event rest
      return record :: others

/-- Considers the rules that an event triggers. -/
def processOr (publish : Publish) (event : DomainEvent) : Operation Engine (List RuleExecution) := do
  let e ← .view id
  if event.trail.depth > e.config.maxCascadeDepth then return []
  else considerAllOr f publish e.config.matchMode event (e.rules.bucket event.name)

/-- Delivers an event to a subscriber. -/
def deliverOr (publish : Publish) (event : DomainEvent) : Subscriber → Operation Engine Unit
  | .rules => do
    let _ ← processOr f publish event
    return ()
  | .listener id => observe (.delivered id event)

/--
Publishes an event and delivers it while some instances are reserved, with room for so many publications
in one another.
-/
def publishForOr : Nat → List InstanceKey → DomainEvent → Operation Engine Unit
  | 0, _, event => do
    observe (.published event)
    .breakDown .endless
  | n + 1, held, event => do
    observe (.published event)
    .forEach (deliverOr f ⟨held, publishForOr n⟩ event) (← .view (·.subscribers))

/-- Publishes an event and delivers it to the subscribers while some instances are reserved. -/
def publishWithOr (held : List InstanceKey) (event : DomainEvent) : Operation Engine Unit := do
  let config ← .view (·.config)
  publishForOr f (nesting config) held event

/-- Publishing, as a call does that starts with nothing reserved. -/
def publishOr : Publish := ⟨[], publishWithOr f⟩

/-- Considers the rules that an event triggers, without publishing the event itself. -/
def processEventOr (event : DomainEvent) : Operation Engine (List RuleExecution) :=
  processOr f (publishOr f) event

/-- Fires an event on an instance. -/
def fireOr (workflow entityId event : String) (context : TransitionContext) :
    Operation Engine Instance :=
  transition (publishOr f) workflow entityId event context

end Choice

/-! ## The standard choice -/

/-- With the standard fallbacks, actions run as they do. -/
theorem runActionsOr_standard (publish : Publish) (context : ActionContext) (actions : List Action) :
    runActionsOr .standard publish context actions = runActions publish context actions := by
  induction actions with
  | nil => rfl
  | cons action rest ih =>
    rw [runActionsOr, runActions, ih]
    rfl

/-- With the standard fallbacks, a rule is considered as it is. -/
theorem considerOr_standard (publish : Publish) (rule : Rule) (x : DomainEvent) :
    considerOr .standard publish rule x = consider publish rule x := by
  have hleaves : Fallbacks.standard.toFallbacks = .standard := rfl
  rw [considerOr, consider, evaluate, hleaves, Condition.holdsOr_standard, runActionsOr_standard]

theorem considerAllOr_standard (publish : Publish) (mode : MatchMode) (x : DomainEvent)
    (rules : List Rule) :
    considerAllOr .standard publish mode x rules = considerAll publish mode x rules := by
  induction rules with
  | nil => rfl
  | cons rule rest ih => rw [considerAllOr, considerAll, considerOr_standard, ih]

theorem processOr_standard (publish : Publish) (x : DomainEvent) :
    processOr .standard publish x = process publish x := by
  unfold processOr process
  simp only [considerAllOr_standard]

theorem publishForOr_standard (n : Nat) : publishForOr .standard n = publishFor n := by
  induction n with
  | zero => rfl
  | succ n ih =>
    funext held x
    have hdeliver : deliverOr .standard ⟨held, publishFor n⟩ x = deliver ⟨held, publishFor n⟩ x := by
      funext subscriber
      cases subscriber with
      | rules => rw [deliverOr, deliver, processOr_standard]
      | listener id => rfl
    rw [publishForOr, publishFor, ih, hdeliver]

/-- With the standard choice, runs are those of the engine. -/
theorem publishOr_standard : publishOr .standard = publish := by
  have hwith : publishWithOr .standard = publishWith := by
    funext held x
    unfold publishWithOr publishWith
    simp only [publishForOr_standard]
  rw [publishOr, publish, hwith]

theorem processEventOr_standard (x : DomainEvent) :
    processEventOr .standard x = processEvent x := by
  rw [processEventOr, processEvent, publishOr_standard, processOr_standard]

theorem fireOr_standard (workflow entityId event : String) (context : TransitionContext) :
    fireOr .standard workflow entityId event context = fire workflow entityId event context := by
  rw [fireOr, fire, publishOr_standard]

/-! ## Operations that do the same -/

/-- From engines with this setup both operations do the same, and that leads to such engines. -/
def Alike {α : Type} (e : Engine) (x y : Operation Engine α) : Prop :=
  ∀ s, SameSetup e s → x s = y s ∧ SameSetup e (y s).2

variable {e : Engine} {f : Fallbacks}

/-- Sequences do the same if their parts do. -/
theorem Alike.bind {α β : Type} {x y : Operation Engine α} {g h : α → Operation Engine β}
    (hx : Alike e x y) (hg : ∀ a, Alike e (g a) (h a)) : Alike e (x >>= g) (y >>= h) := by
  intro s hs
  obtain ⟨hsame, hsetup⟩ := hx s hs
  rw [Operation.bind_apply, Operation.bind_apply, hsame]
  rcases hys : y s with ⟨failure | a, s'⟩
  · rw [hys] at hsetup
    exact ⟨rfl, hsetup⟩
  · rw [hys] at hsetup
    exact hg a s' hsetup

theorem Alike.attempt {α : Type} {x y : Operation Engine α} (hx : Alike e x y) :
    Alike e (Operation.attempt x) (Operation.attempt y) := by
  intro s hs
  obtain ⟨hsame, hsetup⟩ := hx s hs
  rw [Operation.attempt_state]
  refine ⟨?_, hsetup⟩
  rw [Operation.attempt, Operation.attempt, hsame]

/-- An operation that keeps the setup does the same as itself. -/
theorem Alike.of_keeps {α : Type} {x : Operation Engine α} (hx : Operation.Keeps SameSetup x) :
    Alike e x x :=
  fun s hs => ⟨rfl, hs.trans (hx s)⟩

/-- A cascade does the same as itself, step by step. -/
theorem alike_stepClosed (e : Engine) : StepClosed fun _ x y => Alike e x y where
  pure _ _ hs := ⟨rfl, hs⟩
  fail _ _ hs := ⟨rfl, hs⟩
  endless _ hs := ⟨rfl, hs⟩
  bind := .bind
  attempt := .attempt
  view _ _ hs := ⟨rfl, hs⟩
  observe _ := .of_keeps fun _ => observe_setup _ _
  now := .of_keeps SameSetup.respected.now
  newIdentifier := .of_keeps SameSetup.respected.newIdentifier
  nextCall := .of_keeps SameSetup.respected.nextCall
  commit _ _ _ _ hs := ⟨rfl, hs.trans (by constructor <;> rfl)⟩
  commitDirectly _ _ _ _ hs := ⟨rfl, hs.trans (by constructor <;> rfl)⟩
  select _ := .of_looks .bind fun looks =>
    .of_keeps (Operation.Keeps.of_looks SameSetup.respected.toIsPreorder looks)

/-! ## Well-formed rules need no fallback -/

section Publish

variable {p q : Publish} (hp : p.Related (fun _ x y => Alike e x y) q)

include hp

/-- Where the handler of an action is known, no fallback is needed. -/
theorem dispatchOr_alike {action : Action} (known : hasHandler e action.type = true)
    (context : ActionContext) :
    Alike e (dispatchOr f p action context) (dispatch q action context) := by
  intro s hs
  obtain ⟨handler, hhandler⟩ := Option.isSome_iff_exists.1 known
  have hfound : Operation.view (·.actions.get? action.type) s = (.ok (some handler), s) := by
    rw [Operation.view_apply, hs.actions, hhandler]
  rw [dispatchOr, dispatch, Operation.bind_ok _ hfound, Operation.bind_ok _ hfound]
  have h := alike_stepClosed e
  refine (h.bind (h.observe _) fun _ => ?_) s hs
  refine h.bind (h.runAction hp action context handler) fun r => ?_
  cases r with
  | error reason => exact h.fail _
  | ok output => exact h.pure _

theorem runActionsOr_alike (context : ActionContext) (actions : List Action)
    (known : ∀ a ∈ actions, hasHandler e a.type = true) :
    Alike e (runActionsOr f p context actions) (runActions q context actions) := by
  have h := alike_stepClosed e
  induction actions with
  | nil => exact h.pure _
  | cons action rest ih =>
    have hfirst := dispatchOr_alike (f := f) hp (known action List.mem_cons_self) context
    refine hfirst.attempt.bind fun r => ?_
    cases r with
    | error reason => exact h.pure _
    | ok output =>
      exact (ih fun a ha => known a (List.mem_cons_of_mem _ ha)).bind fun _ => h.pure _

/-- A well-formed rule needs no fallback, neither for its condition nor for its actions. -/
theorem considerOr_alike {rule : Rule} (wellFormed : rule.WellFormed (hasHandler e))
    (x : DomainEvent) : Alike e (considerOr f p rule x) (consider q rule x) := by
  have h := alike_stepClosed e
  rw [considerOr, consider, evaluate, Condition.holdsOr_of_problems _ _ _ wellFormed.condition]
  split
  · exact h.pure _
  · split
    · exact h.pure _
    · split
      · exact h.pure _
      · exact (runActionsOr_alike hp _ _ wellFormed.known).bind fun _ => h.pure _

theorem considerAllOr_alike (mode : MatchMode) (x : DomainEvent) (rules : List Rule)
    (wellFormed : ∀ r ∈ rules, r.WellFormed (hasHandler e)) :
    Alike e (considerAllOr f p mode x rules) (considerAll q mode x rules) := by
  have h := alike_stepClosed e
  induction rules with
  | nil => exact h.pure _
  | cons rule rest ih =>
    refine (considerOr_alike hp (wellFormed rule List.mem_cons_self) x).bind fun record => ?_
    refine Alike.bind ((h.transitions.newEvent _ _ _).bind hp.publishes) fun _ => ?_
    split
    · exact h.pure _
    · exact (ih fun r hr => wellFormed r (List.mem_cons_of_mem _ hr)).bind fun _ => h.pure _

variable (wellFormed : ∀ r, e.rules.Contains r → r.WellFormed (hasHandler e))

include wellFormed

/-- Where all rules of the table are well formed, an event needs no fallback. -/
theorem processOr_alike (x : DomainEvent) : Alike e (processOr f p x) (process q x) := by
  intro s hs
  have hlook : Operation.view id s = (.ok s, s) := rfl
  rw [processOr, process, Operation.bind_ok _ hlook, Operation.bind_ok _ hlook]
  split
  · exact ⟨rfl, hs⟩
  · refine considerAllOr_alike hp _ x _ (fun r hr => wellFormed r (.inr ⟨x.name, ?_⟩)) s hs
    rwa [hs.rules] at hr

theorem deliverOr_alike (x : DomainEvent) (subscriber : Subscriber) :
    Alike e (deliverOr f p x subscriber) (deliver q x subscriber) := by
  have h := alike_stepClosed e
  cases subscriber with
  | rules => exact (processOr_alike hp wellFormed x).bind fun _ => h.pure _
  | listener id => exact h.observe _

omit hp

/-- Where all rules are well formed, no publication needs a fallback, at any depth. -/
theorem publishForOr_alike (n : Nat) (held : List InstanceKey) (x : DomainEvent) :
    Alike e (publishForOr f n held x) (publishFor n held x) := by
  have h := alike_stepClosed e
  induction n generalizing held x with
  | zero => exact (h.observe _).bind fun _ => h.endless
  | succ n ih =>
    refine (h.observe _).bind fun _ => (h.view fun _ _ _ _ => rfl).bind fun subscribers => ?_
    have related : (Publish.mk held (publishForOr f n)).Related (fun _ x y => Alike e x y)
        ⟨held, publishFor n⟩ := ⟨rfl, ih⟩
    exact h.transitions.forEach (deliverOr_alike related wellFormed x) subscribers

theorem publishOr_alike : (publishOr f).Related (fun _ x y => Alike e x y) publish :=
  ⟨rfl, fun held x => ((alike_stepClosed e).view fun _ _ _ _ => rfl).bind fun _ =>
    publishForOr_alike wellFormed _ held x⟩

end Publish

/-! ## Records of rules that ran -/

section Records

variable {publish : Publish} {x : DomainEvent} {s s' : Engine}

/-- If there are actions, the first of them has a result, whatever it is. -/
theorem results_ne_nil_of_runActions {context : ActionContext} {actions : List Action}
    {results : List ActionResult} (h : runActions publish context actions s = (.ok results, s'))
    (complete : actions ≠ []) : results ≠ [] := by
  cases actions with
  | nil => exact absurd rfl complete
  | cons action rest =>
    obtain ⟨r, s₁, -, hrest⟩ := Operation.bind_eq_ok h
    cases r with
    | error reason =>
      cases hrest
      simp
    | ok output =>
      obtain ⟨others, s₂, -, hdone⟩ := Operation.bind_eq_ok hrest
      cases hdone
      simp

/-- A rule that was executed has the result of an action. -/
theorem results_ne_nil_of_consider {rule : Rule} {record : RuleExecution}
    (h : consider publish rule x s = (.ok record, s')) (complete : rule.actions ≠ [])
    (executed : record.status = .executed ∨ record.executed = true) :
    record.actionResults ≠ [] := by
  -- the record of a rule that is passed over says so
  have hskipped {status : RuleStatus} (hstatus : status ≠ .executed)
      (h : (pure (.skipped rule.name x.name status) : Operation Engine RuleExecution) s =
        (.ok record, s')) : record.actionResults ≠ [] := by
    cases h
    rcases executed with heq | heq
    · exact absurd heq hstatus
    · cases heq
  unfold consider evaluate at h
  split at h
  · exact hskipped (by simp) h
  · split at h
    · exact hskipped (by simp) h
    · split at h
      · exact hskipped (by simp) h
      · obtain ⟨results, s₁, hresults, hrecord⟩ := Operation.bind_eq_ok h
        cases hrecord
        exact results_ne_nil_of_runActions hresults complete

/-- Among the records of an event, those of executed rules have results. -/
theorem results_ne_nil_of_considerAll {mode : MatchMode} {rules : List Rule}
    {records : List RuleExecution}
    (h : considerAll publish mode x rules s = (.ok records, s'))
    (complete : ∀ r ∈ rules, r.actions ≠ []) :
    ∀ record ∈ records, record.status = .executed ∨ record.executed = true →
      record.actionResults ≠ [] := by
  induction rules generalizing records s s' with
  | nil =>
    cases h
    simp
  | cons rule rest ih =>
    obtain ⟨record, s₁, hrecord, hnotice⟩ := Operation.bind_eq_ok h
    have hfirst := results_ne_nil_of_consider hrecord (complete rule List.mem_cons_self)
    obtain ⟨-, s₂, -, hothers⟩ := Operation.bind_eq_ok hnotice
    split at hothers
    · cases hothers
      simpa using hfirst
    · obtain ⟨others, s₃, hrest, hdone⟩ := Operation.bind_eq_ok hothers
      cases hdone
      intro found hfound
      rcases List.mem_cons.1 hfound with rfl | hfound
      · exact hfirst
      · exact ih hrest (fun r hr => complete r (List.mem_cons_of_mem _ hr)) found hfound

end Records

/-! ## All states -/

/-- What is in the table has passed the check. -/
theorem Checked.wellFormed (h : Checked e) {r : Rule} (hr : e.rules.Contains r) :
    r.WellFormed (hasHandler e) := by
  obtain ⟨rules, represents, checked⟩ := h.rules
  exact Rule.problems_eq_nil_iff.1 (checked r (represents.contains_iff.1 hr))

/--
In every state of an engine the rules are well-formed, and handlers are registered for all of their
actions. So runs that start there do the same whatever is done about missing handlers, unknown
operators and missing lists, and so does all that happens later in these runs. A rule that has been
executed, in these runs or anywhere in what they publish, has a result of some action.
-/
theorem Reached.rules_wellFormed (h : Reached e) :
    (∀ r, e.rules.Contains r → r.WellFormed (hasHandler e)) ∧
    ∀ s, SameSetup e s →
      (∀ f : Fallbacks,
        (∀ x, publishOr f x s = publish x s) ∧
        (∀ x, processEventOr f x s = processEvent x s) ∧
        ∀ workflow entityId event context,
          fireOr f workflow entityId event context s = fire workflow entityId event context s) ∧
      ∀ publish x records s', process publish x s = (.ok records, s') →
        ∀ record ∈ records, record.status = .executed ∨ record.executed = true →
          record.actionResults ≠ [] := by
  have wellFormed (r : Rule) (hr : e.rules.Contains r) := h.checked.wellFormed hr
  refine ⟨wellFormed, fun s hs => ⟨fun f => ?_, fun publish x records s' hrecords => ?_⟩⟩
  · have hp := publishOr_alike (f := f) wellFormed
    refine ⟨fun x => (hp.publishes x s hs).1, fun x => (processOr_alike hp wellFormed x s hs).1, ?_⟩
    intro workflow entityId event context
    exact ((alike_stepClosed e).transition hp workflow entityId event context s hs).1
  · have hlook : Operation.view id s = (.ok s, s) := rfl
    rw [process, Operation.bind_ok _ hlook] at hrecords
    split at hrecords
    · cases hrecords
      simp
    · refine results_ne_nil_of_considerAll hrecords fun r hr => ?_
      rw [hs.rules] at hr
      exact (wellFormed r (.inr ⟨x.name, hr⟩)).actions

/-! ### An engine with one rule -/

/-- A rule that greets two kinds of guests. -/
def greet : Rule :=
  { Rule.onEvent "greet" "arrival" with
    condition := .compare .isIn "kind" (.ofStrings ["friend", "neighbour"])
    actions := [.log "info" "welcome"] }

/-- An engine in memory with the rule. -/
def lodge : Engine := (Command.createRule greet).run (inMemory {} .counting)

/-- A friend arrives. -/
def arrival : DomainEvent :=
  { id := ⟨0⟩, name := "arrival", payload := .ofFields [("kind", .string "friend")]
    occurredAt := ⟨0, 0⟩, trail := .root }

/-- A rule that greets whoever arrives is well formed, needs no fallback and leaves a result. -/
theorem rules_wellFormed_lodge :
    Reached lodge ∧ lodge.rules.Contains greet ∧ greet.WellFormed (hasHandler lodge) ∧
      (∀ f : Fallbacks, processEventOr f arrival lodge = processEvent arrival lodge) ∧
      ∃ record s', processEvent arrival lodge = (.ok [record], s') ∧ record.executed = true ∧
        record.actionResults ≠ [] := by
  have reached : Reached lodge := .command (.new rfl rfl) _
  have contains : lodge.rules.Contains greet := .inl ⟨"greet", rfl⟩
  obtain ⟨wellFormed, runs⟩ := Reached.rules_wellFormed reached
  obtain ⟨same, results⟩ := runs lodge .rfl
  have hrun : (processEvent arrival lodge).1.map (·.map (·.executed)) = .ok [true] := by
    decide +kernel
  refine ⟨reached, contains, wellFormed greet contains, fun f => (same f).2.1 arrival, ?_⟩
  rcases hprocessed : processEvent arrival lodge with ⟨failure | records, s'⟩
  · rw [hprocessed] at hrun
    cases hrun
  · rw [hprocessed] at hrun
    obtain ⟨record, rfl, hexecuted⟩ := List.map_eq_singleton_iff.1 (Except.ok.inj hrun)
    exact ⟨record, s', rfl, hexecuted,
      results publish arrival _ _ hprocessed record List.mem_cons_self (.inr hexecuted)⟩

-- a rule that got into the table past the check does depend on the choice
example :
    let e := { lodge with rules := RuleTable.empty.upsert { greet with actions := [⟨"pay", []⟩] } }
    let f := { Fallbacks.standard with noHandler := fun _ _ => pure .null }
    (processEvent arrival e).1.map (·.map (·.executed)) = .ok [false] ∧
      (processEventOr f arrival e).1.map (·.map (·.executed)) = .ok [true] := by
  decide +kernel

end WorkflowRules.Engine
