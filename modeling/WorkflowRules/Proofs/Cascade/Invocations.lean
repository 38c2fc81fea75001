import WorkflowRules.Engine.Management
import WorkflowRules.Proofs.Cascade.Termination
import WorkflowRules.Proofs.Cascade.Trails

/-!
# Whose actions are carried out

The trace tells of every action that a handler carried out, and for which rule. Between the dispatches
of its own actions nothing is carried out for a rule: whatever its actions and its record set off has the
rule on its trail, so that it does not fire again there.

* `Engine.carriedOut` — the actions that were carried out for a rule so far
* `Engine.ask_carriedOut`, `Engine.dispatch_carriedOut` — what one action adds, by itself and with
  everything that it sets off
* `Engine.Idles`, `Engine.publishWithin_idles` — events that have a rule on their trail add nothing
-/

namespace WorkflowRules

open Operation (Keeps NeverRefused)

/-- The action that was carried out for a rule. -/
def Observation.carriedOutFor? (rule : String) : Observation → Option Action
  | .actionRan _ action context => if context.rule.name = rule then some action else none
  | _ => none

namespace Engine

/-- The actions that were carried out for a rule so far, in their order. -/
def carriedOut (rule : String) (e : Engine) : List Action :=
  (e.trace.filterMap (·.carriedOutFor? rule)).reverse

variable {rule : String} {publish : Publish} {action : Action} {context : ActionContext}
  {e e' : Engine}

theorem carriedOut_observe (rule : String) (o : Observation) (e : Engine) :
    carriedOut rule (observe o e).2 = carriedOut rule e ++ (o.carriedOutFor? rule).toList := by
  cases h : o.carriedOutFor? rule <;> simp [carriedOut, observe, h]

/-! ## What carries out no action -/

/-- Nothing is carried out in between. -/
def SameActions (e e' : Engine) : Prop := ∀ rule, carriedOut rule e' = carriedOut rule e

theorem sameActions_preorder : IsPreorder Engine SameActions where
  refl _ _ := rfl
  trans _ _ _ h₁ h₂ rule := (h₂ rule).trans (h₁ rule)

theorem observe_sameActions {o : Observation} (h : ∀ rule, o.carriedOutFor? rule = none) :
    Keeps SameActions (observe o) := fun e rule => by
  rw [carriedOut_observe, h]
  exact List.append_nil _

/-- A transition carries out no action, as long as nothing that it publishes does. -/
theorem sameActions_transitions : TransitionClosed fun _ x _ => Keeps SameActions x where
  pure := Keeps.pure sameActions_preorder
  fail := Keeps.fail sameActions_preorder
  bind := Keeps.bind sameActions_preorder
  attempt := Keeps.attempt
  guardOf _ := Keeps.view sameActions_preorder _
  hookOf _ := Keeps.view sameActions_preorder _
  guardAsked _ _ := observe_sameActions fun _ => rfl
  hookRan _ _ := observe_sameActions fun _ => rfl
  now _ _ := rfl
  newIdentifier _ _ := rfl
  nextCall _ _ := rfl
  commit _ _ _ _ _ := rfl
  commitDirectly _ _ _ _ _ := rfl
  select _ := .of_looks (Keeps.bind sameActions_preorder) (Keeps.of_looks sameActions_preorder)

/-! ## What one action adds -/

/-- To ask an action what it publishes carries out no other action. -/
theorem request_sameActions (action : Action) (context : ActionContext) (handler : ActionHandler) :
    Keeps SameActions (request action context handler) :=
  sameActions_transitions.request (sameActions_transitions.select [])
    (fun _ => observe_sameActions fun _ => rfl) action context handler

/-- What carrying out an action adds for a rule: the action itself if it is one of the rule. -/
def added (rule : String) (context : ActionContext) (e : Engine) (action : Action) : List Action :=
  if context.rule.name = rule ∧ hasHandler e action.type = true then [action] else []

/-- An action is carried out once if its type has a handler. -/
theorem ask_carriedOut (rule : String) (action : Action) (context : ActionContext) (e : Engine) :
    carriedOut rule (ask action context e).2 = carriedOut rule e ++ added rule context e action := by
  have hview : (Operation.view fun e : Engine => e.actions.get? action.type) e =
      (.ok (e.actions.get? action.type), e) := rfl
  unfold ask added hasHandler
  rw [Operation.bind_ok _ hview, Keyed.contains]
  cases e.actions.get? action.type with
  | none => simp
  | some handler =>
    have hobserve : observe (.actionRan handler.isBuiltIn action context) e =
        (.ok (), (observe (.actionRan handler.isBuiltIn action context) e).2) := rfl
    show carriedOut rule ((observe (.actionRan handler.isBuiltIn action context) >>= fun _ =>
      request action context handler) e).2 = _
    rw [Operation.bind_ok _ hobserve, request_sameActions, carriedOut_observe]
    by_cases named : context.rule.name = rule <;> simp [Observation.carriedOutFor?, named]

/-- The engine stays without hooks that publish, and nothing is carried out for the rule. -/
def Idles (rule : String) (e e' : Engine) : Prop :=
  Quiet e → Quiet e' ∧ carriedOut rule e' = carriedOut rule e

theorem idles_preorder (rule : String) : IsPreorder Engine (Idles rule) where
  refl _ quiet := ⟨quiet, rfl⟩
  trans _ _ _ h₁ h₂ quiet :=
    have first := h₁ quiet
    have second := h₂ first.1
    ⟨second.1, second.2.trans first.2⟩

theorem observe_idles {o : Observation} (h : o.carriedOutFor? rule = none) :
    Keeps (Idles rule) (observe o) := fun e quiet =>
  ⟨quiet, by rw [carriedOut_observe, h]; exact List.append_nil _⟩

theorem newEvent_idles (rule name : String) (payload : Json) (trail : CascadeTrail) :
    Keeps (Idles rule) (newEvent name payload trail) := fun _ quiet => ⟨quiet, rfl⟩

/-- What an action adds together with everything that it sets off. -/
theorem dispatch_carriedOut (rule : String) (action : Action) (context : ActionContext)
    (plain : publish.Plain)
    (idles : ∀ y, y.trail = context.childTrail → Keeps (Idles rule) (publish y)) (quiet : Quiet e) :
    Quiet (dispatch publish action context e).2 ∧
      carriedOut rule (dispatch publish action context e).2 =
        carriedOut rule e ++ added rule context e action := by
  have asked := ask_carriedOut rule action context e
  rw [dispatch_eq_ask plain.accepted plain.free quiet, Operation.bind_apply]
  rcases h : ask action context e with ⟨failure | r, s⟩ <;> rw [h] at asked
  · exact ⟨quiet.of_setup (ask_setup h), asked⟩
  · have hs : Quiet s := quiet.of_setup (ask_setup h)
    rcases r with (reason | output) | ⟨y, output⟩
    · exact ⟨hs, asked⟩
    · exact ⟨hs, asked⟩
    · obtain ⟨hquiet, hsame⟩ := idles y (ask_trail h) s hs
      have hstate : ((answer publish action context (.publication y output)) s).2 =
          (publish y s).2 := by
        show ((publish y >>= fun _ => pure output : Operation Engine Json) s).2 = _
        rw [Operation.bind_pure_apply]
      show Quiet (answer publish action context _ s).2 ∧ carriedOut rule (answer _ _ _ _ s).2 = _
      rw [hstate]
      exact ⟨hquiet, hsame.trans asked⟩

/-! ## What a rule on the trail is spared -/

section Spared

variable {x : DomainEvent}
  (plain : publish.Plain)
  (idles : ∀ y, rule ∈ y.trail.rules → Keeps (Idles rule) (publish y))

include plain idles

/-- The actions of other rules add nothing for a rule on the trail. -/
theorem runActions_idles {r : Rule} (other : r.name ≠ rule) (listed : rule ∈ x.trail.rules)
    (actions : List Action) : Keeps (Idles rule) (runActions publish ⟨r, x⟩ actions) := by
  induction actions with
  | nil => exact Keeps.pure (idles_preorder rule) _
  | cons action rest ih =>
    have first : Keeps (Idles rule) (dispatch publish action ⟨r, x⟩) := fun e quiet => by
      have h := dispatch_carriedOut rule action ⟨r, x⟩ plain
        (fun y hy => idles y (hy ▸ CascadeTrail.mem_child_rules.2 (.inl listed))) quiet
      rwa [added, if_neg fun own => other own.1, List.append_nil] at h
    refine Keeps.bind (idles_preorder rule) first.attempt fun outcome => ?_
    cases outcome with
    | error reason => exact Keeps.pure (idles_preorder rule) _
    | ok output =>
      exact Keeps.bind (idles_preorder rule) ih fun _ => Keeps.pure (idles_preorder rule) _

/-- A rule on the trail is not carried out, and what others publish adds nothing for it. -/
theorem consider_idles (listed : rule ∈ x.trail.rules) (r : Rule) :
    Keeps (Idles rule) (consider publish r x) := by
  rw [consider_eq]
  cases why : refusal? r x with
  | some status => exact Keeps.pure (idles_preorder rule) _
  | none =>
    have other : r.name ≠ rule := by
      rintro rfl
      have unlisted := (refusal?_eq_none_iff.1 why).1
      rw [CascadeTrail.contains_iff.2 listed] at unlisted
      cases unlisted
    exact Keeps.bind (idles_preorder rule)
      (runActions_idles plain idles other listed r.actions) fun _ =>
        Keeps.pure (idles_preorder rule) _

omit plain in
theorem notify_idles (listed : rule ∈ x.trail.rules) (r : Rule) (record : RuleExecution) :
    Keeps (Idles rule) (notify publish r x record) := by
  intro e
  obtain ⟨y, s, notice⟩ := exists_newEvent ruleExecutedEvent record.toJson (x.trail.child r.name) e
  have hy : rule ∈ y.trail.rules := by
    rw [newEvent_trail notice]
    exact CascadeTrail.mem_child_rules.2 (.inl listed)
  have first : Idles rule e s := by
    have h := newEvent_idles rule ruleExecutedEvent record.toJson (x.trail.child r.name) e
    rwa [notice] at h
  rw [notify_eq notice]
  exact (idles_preorder rule).trans _ _ _ first (idles y hy s)

/-- The rules of an event add nothing for a rule on its trail. -/
theorem considerAll_idles (listed : rule ∈ x.trail.rules) (mode : MatchMode) (rules : List Rule) :
    Keeps (Idles rule) (considerAll publish mode x rules) := by
  induction rules with
  | nil => exact Keeps.pure (idles_preorder rule) _
  | cons r rest ih =>
    refine Keeps.bind (idles_preorder rule) (consider_idles plain idles listed r)
      fun record => ?_
    refine Keeps.bind (idles_preorder rule) (notify_idles idles listed r record)
      fun _ => ?_
    split
    · exact Keeps.pure (idles_preorder rule) _
    · exact Keeps.bind (idles_preorder rule) ih fun _ => Keeps.pure (idles_preorder rule) _

/-- An event that is processed adds nothing for a rule on its trail. -/
theorem process_idles (listed : rule ∈ x.trail.rules) :
    Keeps (Idles rule) (process publish x) := by
  refine Keeps.bind (idles_preorder rule) (Keeps.view (idles_preorder rule) _) fun seen => ?_
  split
  · exact Keeps.pure (idles_preorder rule) _
  · exact considerAll_idles plain idles listed _ _

end Spared

/-- Publishing an event carries out nothing for a rule on its trail, at any level of nesting. -/
theorem publishWithin_idles (n : Nat) {x : DomainEvent} (listed : rule ∈ x.trail.rules) :
    Keeps (Idles rule) (publishWithin n x) := by
  induction n generalizing x with
  | zero =>
    exact Keeps.bind (idles_preorder rule) (observe_idles rfl) fun _ =>
      Keeps.breakDown (idles_preorder rule) _
  | succ n ih =>
    refine Keeps.bind (idles_preorder rule) (observe_idles rfl) fun _ =>
      Keeps.bind (idles_preorder rule) (Keeps.view (idles_preorder rule) _) fun subscribers =>
        Keeps.forEach (idles_preorder rule) (fun subscriber => ?_) subscribers
    cases subscriber with
    | rules =>
      exact Keeps.bind (idles_preorder rule)
        (process_idles (publishWithin_plain n) (fun _ => ih) listed) fun _ =>
          Keeps.pure (idles_preorder rule) _
    | listener id => exact observe_idles rfl

/-- A publication adds nothing for a rule on the trail of its event. -/
theorem publish_idles {x : DomainEvent} (listed : rule ∈ x.trail.rules) :
    Keeps (Idles rule) (Engine.publish x) :=
  Keeps.bind (idles_preorder rule) (Keeps.view (idles_preorder rule) _) fun config =>
    publishWithin_idles (nesting config) listed

end Engine

end WorkflowRules
