import WorkflowRules.Event.Basic
import WorkflowRules.Rule.Basic
import WorkflowRules.Workflow.Instance

/-!
# Handlers

Definitions name guards and hooks, and rules name action types. What stands behind a name is
registered with the engine.

A guard is asked about a transition and has no effect. A hook has one of a few effects, which the
engine carries out; so handlers are plain functions, and whatever happens to the state happens in
the engine.

The calls of handlers are numbered, and a handler is told the number of its call. So it may answer
differently to what looks the same: it may keep a count or a state of its own, or look at a world that
changes.
-/

namespace WorkflowRules

/-- What guards and hooks see of a transition. -/
structure HookContext where
  /-- The instance as it was loaded; hooks after the commit see the committed instance. -/
  subject : Instance
  event : String
  fromState : String
  toState : String
  context : TransitionContext

/-- Agrees to a transition or not; the text says why a guard could not be asked. -/
abbrev Guard := Nat → HookContext → Except String Bool

/-- What a hook does. -/
inductive HookEffect where
  | nothing
  | fail (reason : String)
  /-- Publishes an event that no rule has caused. -/
  | publish (event : String) (payload : Json)
  /-- Commits a change of the instance to the database of the engine, past the engine. -/
  | commit (state event : String)

/-- A side effect of a transition. -/
abbrev Hook := Nat → HookContext → HookEffect

/-- What an action sees: the rule that matched and the event that triggered it. -/
structure ActionContext where
  rule : Rule
  event : DomainEvent

/-- The trail of what an action causes. -/
def ActionContext.childTrail (c : ActionContext) : CascadeTrail := c.event.trail.child c.rule.name

/-- What carries out the actions of one type. -/
inductive ActionHandler where
  /-- Publishes an event. -/
  | emitEvent
  /-- Writes a log record. -/
  | log
  /-- Fires a transition of an instance. -/
  | transition
  /-- Gives an output or the reason of a failure. -/
  | custom (run : Nat → Action → ActionContext → Except String Json)

/-- Whether every engine has the handler. -/
def ActionHandler.isBuiltIn : ActionHandler → Bool
  | .custom _ => false
  | _ => true

/-- A record of the action `log`. -/
structure LogRecord where
  level : String
  message : String
  rule : String
  event : String
deriving DecidableEq, Repr

end WorkflowRules
