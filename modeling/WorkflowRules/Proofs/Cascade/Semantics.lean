import WorkflowRules.Proofs.Cascade.Request
import WorkflowRules.Proofs.Cascade.Tree

/-!
# What a cascade does

The rules of cascades, without any bound on how deeply publications are nested in one another: a
cascade that comes to an end has a finite derivation, and one that does not has none. A derivation
also gives the tree of what was published on whose account.

The relations follow the course of a publication: `Publishes` announces the event, `Delivers` goes
through the subscribers, `Processes` and `ConsidersAll` go through the rules of the event, `Considers`
settles whether a rule fires, and `RunsActions` carries out its actions. Each relates the state at the
start to what came of it and to how it ended. A failure ends everything that it is part of.

Hooks that publish are not part of this account (`Engine.Quiet`).
-/

namespace WorkflowRules.Engine

/-- An outcome and the engine that is left. -/
abbrev End (α : Type) := Except Failure α × Engine

/-- Why a rule does not fire on an event, if it does not. -/
def refusal? (rule : Rule) (x : DomainEvent) : Option RuleStatus :=
  if x.trail.contains rule.name then some .cycleDetected
  else if !rule.enabled then some .disabled
  else if !rule.condition.holds x.payload then some .notMatched
  else none

/-- When a rule fires on an event. -/
theorem refusal?_eq_none_iff {rule : Rule} {x : DomainEvent} : refusal? rule x = none ↔
    x.trail.contains rule.name = false ∧ rule.enabled = true ∧
      rule.condition.holds x.payload = true := by
  unfold refusal?
  cases x.trail.contains rule.name <;> cases rule.enabled <;>
    cases rule.condition.holds x.payload <;> simp

/-- Whether no rule is considered after one with this record. -/
def isLast (mode : MatchMode) (record : RuleExecution) : Bool :=
  record.matched && mode = .firstMatch

mutual

/-- Publishing an event grows a tree. -/
inductive Publishes : DomainEvent → Engine → Cascade → End Unit → Prop
  | intro {x e considered out}
      (delivered : Delivers x e.subscribers (observe (.published x) e).2 considered out) :
      Publishes x e (.mk x considered) out

/-- Delivering an event to subscribers, one after the other. -/
inductive Delivers :
    DomainEvent → List Subscriber → Engine → List (Consideration Cascade) → End Unit → Prop
  | done {x e} : Delivers x [] e [] (.ok (), e)
  | listener {x id subscribers e considered out}
      (rest : Delivers x subscribers (observe (.delivered id x) e).2 considered out) :
      Delivers x (.listener id :: subscribers) e considered out
  | rules {x subscribers e e' considered others records out}
      (processed : Processes x e considered (.ok records, e'))
      (rest : Delivers x subscribers e' others out) :
      Delivers x (.rules :: subscribers) e (considered ++ others) out
  | broken {x subscribers e e' considered f}
      (processed : Processes x e considered (.error f, e')) :
      Delivers x (.rules :: subscribers) e considered (.error f, e')

/-- Considering the rules that an event triggers; an event too far from its root has none. -/
inductive Processes :
    DomainEvent → Engine → List (Consideration Cascade) → End (List RuleExecution) → Prop
  | dropped {x e} (far : e.config.maxCascadeDepth < x.trail.depth) : Processes x e [] (.ok [], e)
  | taken {x e considered out} (near : x.trail.depth ≤ e.config.maxCascadeDepth)
      (all : ConsidersAll x e.config.matchMode (e.rules.bucket x.name) e considered out) :
      Processes x e considered out

/-- Considering rules, one after the other; what came of each is announced before the next. -/
inductive ConsidersAll : DomainEvent → MatchMode → List Rule → Engine →
    List (Consideration Cascade) → End (List RuleExecution) → Prop
  | done {x mode e} : ConsidersAll x mode [] e [] (.ok [], e)
  | broken {x mode rule rest e e' dispatched effects f}
      (first : Considers x rule e dispatched effects (.error f, e')) :
      ConsidersAll x mode (rule :: rest) e [⟨rule, dispatched, effects, none⟩] (.error f, e')
  | brokenNotice {x mode rule rest e e₁ e₂ e₃ dispatched effects record y t f}
      (first : Considers x rule e dispatched effects (.ok record, e₁))
      (notice : newEvent ruleExecutedEvent record.toJson (x.trail.child rule.name) e₁ = (.ok y, e₂))
      (announced : Publishes y e₂ t (.error f, e₃)) :
      ConsidersAll x mode (rule :: rest) e [⟨rule, dispatched, effects, some (record, t)⟩]
        (.error f, e₃)
  | last {x mode rule rest e e₁ e₂ e₃ dispatched effects record y t}
      (first : Considers x rule e dispatched effects (.ok record, e₁))
      (notice : newEvent ruleExecutedEvent record.toJson (x.trail.child rule.name) e₁ = (.ok y, e₂))
      (announced : Publishes y e₂ t (.ok (), e₃)) (stop : isLast mode record = true) :
      ConsidersAll x mode (rule :: rest) e [⟨rule, dispatched, effects, some (record, t)⟩]
        (.ok [record], e₃)
  | next {x mode rule rest e e₁ e₂ e₃ e₄ dispatched effects record y t considered r}
      (first : Considers x rule e dispatched effects (.ok record, e₁))
      (notice : newEvent ruleExecutedEvent record.toJson (x.trail.child rule.name) e₁ = (.ok y, e₂))
      (announced : Publishes y e₂ t (.ok (), e₃)) (go : isLast mode record = false)
      (others : ConsidersAll x mode rest e₃ considered (r, e₄)) :
      ConsidersAll x mode (rule :: rest) e
        (⟨rule, dispatched, effects, some (record, t)⟩ :: considered) (r.map (record :: ·), e₄)

/-- Considering one rule; gives the actions that were dispatched and what their events set off. -/
inductive Considers : DomainEvent → Rule → Engine → List Action → List Cascade →
    End RuleExecution → Prop
  | skipped {x rule e status} (why : refusal? rule x = some status) :
      Considers x rule e [] [] (.ok (.skipped rule.name x.name status), e)
  | fires {x rule e e' dispatched effects r} (fires : refusal? rule x = none)
      (actions : RunsActions ⟨rule, x⟩ rule.actions e dispatched effects (r, e')) :
      Considers x rule e dispatched effects (r.map (.ran rule.name x.name), e')

/-- Carrying out actions until one fails. -/
inductive RunsActions : ActionContext → List Action → Engine → List Action → List Cascade →
    End (List ActionResult) → Prop
  | done {c e} : RunsActions c [] e [] [] (.ok [], e)
  | broken {c action rest e e' f} (asked : ask action c e = (.error f, e')) :
      RunsActions c (action :: rest) e [action] [] (.error f, e')
  | failed {c action rest e e' reason}
      (asked : ask action c e = (.ok (.answer (.error reason)), e')) :
      RunsActions c (action :: rest) e [action] []
        (.ok [.failed action.type
          (AutomationError.ruleAction c.rule.name action.type reason).message], e')
  | answered {c action rest e e₁ e₂ output dispatched effects r}
      (asked : ask action c e = (.ok (.answer (.ok output)), e₁))
      (others : RunsActions c rest e₁ dispatched effects (r, e₂)) :
      RunsActions c (action :: rest) e (action :: dispatched) effects
        (r.map (.succeeded action.type output :: ·), e₂)
  | brokenEffect {c action rest e e₁ e₂ y output t f}
      (asked : ask action c e = (.ok (.publication y output), e₁))
      (published : Publishes y e₁ t (.error f, e₂)) :
      RunsActions c (action :: rest) e [action] [t] (.error f, e₂)
  | published {c action rest e e₁ e₂ e₃ y output t dispatched effects r}
      (asked : ask action c e = (.ok (.publication y output), e₁))
      (published : Publishes y e₁ t (.ok (), e₂))
      (others : RunsActions c rest e₂ dispatched effects (r, e₃)) :
      RunsActions c (action :: rest) e (action :: dispatched) (t :: effects)
        (r.map (.succeeded action.type output :: ·), e₃)

end

end WorkflowRules.Engine
