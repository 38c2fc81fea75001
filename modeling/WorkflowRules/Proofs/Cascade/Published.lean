import WorkflowRules.Proofs.Cascade.Adequacy

/-!
# What a cascade publishes

The trace of an engine records every publication. The events that a cascade puts there are those of its
tree, in the order of the tree.

* `Engine.published` — the events published so far
* `Engine.Publishes.published_eq`, `Engine.Processes.published_eq` — a cascade publishes the events of
  its tree and nothing else
-/

namespace WorkflowRules

/-- The event of an observed publication. -/
def Observation.published? : Observation → Option DomainEvent
  | .published x => some x
  | _ => none

namespace Engine

open Cascade (events eventsOf eventsOfAll eventsOfEffects eventsOfClosing)

/-- The events published so far, in their order. -/
def published (e : Engine) : List DomainEvent := (e.trace.filterMap (·.published?)).reverse

theorem published_observe (x : DomainEvent) (e : Engine) :
    published (observe (.published x) e).2 = published e ++ [x] := by
  simp [published, observe, Observation.published?]

/-- What is put on the trace besides publications does not count as one. -/
theorem published_observe_other {o : Observation} (h : ∀ x, o ≠ .published x) (e : Engine) :
    published (observe o e).2 = published e := by
  have hnone : o.published? = none := by
    cases o with
    | published x => exact absurd rfl (h x)
    | _ => rfl
  simp [published, observe, hnone]

/-- Whatever an engine does between two publications publishes nothing. -/
theorem published_respected : Respected fun e e' => published e' = published e where
  refl _ := rfl
  trans _ _ _ h₁ h₂ := h₂.trans h₁
  observe _ e h := published_observe_other h e
  now _ := rfl
  newIdentifier _ := rfl
  nextCall _ := rfl
  commit _ _ _ _ _ _ := rfl
  bypass _ _ _ _ := rfl

/-- To ask an action what it publishes is not to publish it. -/
theorem ask_published {action : Action} {context : ActionContext} {r : Except Failure Request}
    {e e' : Engine} (h : ask action context e = (r, e')) : published e' = published e := by
  have hk := ask_keeps published_respected action context e
  rwa [h] at hk

/-- To make an event is not to publish it. -/
theorem newEvent_published {name : String} {payload : Json} {trail : CascadeTrail}
    {r : Except Failure DomainEvent} {e e' : Engine}
    (h : newEvent name payload trail e = (r, e')) : published e' = published e := by
  have hk := published_respected.newEvent name payload trail e
  rwa [h] at hk

theorem eventsOfAll_append (cs ds : List (Consideration Cascade)) :
    eventsOfAll (cs ++ ds) = eventsOfAll cs ++ eventsOfAll ds := by
  induction cs with
  | nil => rfl
  | cons c rest ih => rw [List.cons_append, eventsOfAll, ih, eventsOfAll, List.append_assoc]

mutual

/-- A publication publishes the events of its tree, in their order. -/
theorem Publishes.published_eq {x : DomainEvent} {e : Engine} {t : Cascade} {out : End Unit}
    (h : Publishes x e t out) : published out.2 = published e ++ events t := by
  match h with
  | .intro delivered =>
    rw [delivered.published_eq, published_observe, events, List.append_assoc, List.singleton_append]

theorem Delivers.published_eq {x : DomainEvent} {subscribers : List Subscriber} {e : Engine}
    {considered : List (Consideration Cascade)} {out : End Unit}
    (h : Delivers x subscribers e considered out) :
    published out.2 = published e ++ eventsOfAll considered := by
  match h with
  | .done => simp [eventsOfAll]
  | .listener rest => rw [rest.published_eq, published_observe_other (by simp)]
  | .rules processed rest =>
    rw [rest.published_eq, processed.published_eq, eventsOfAll_append, List.append_assoc]
  | .broken processed => exact processed.published_eq

/-- An event that is processed publishes the events below it, and not itself. -/
theorem Processes.published_eq {x : DomainEvent} {e : Engine}
    {considered : List (Consideration Cascade)} {out : End (List RuleExecution)}
    (h : Processes x e considered out) :
    published out.2 = published e ++ eventsOfAll considered := by
  match h with
  | .dropped far => simp [eventsOfAll]
  | .taken near all => exact all.published_eq

theorem ConsidersAll.published_eq {x : DomainEvent} {mode : MatchMode} {rules : List Rule}
    {e : Engine} {considered : List (Consideration Cascade)} {out : End (List RuleExecution)}
    (h : ConsidersAll x mode rules e considered out) :
    published out.2 = published e ++ eventsOfAll considered := by
  match h with
  | .done => simp [eventsOfAll]
  | .broken first => simp [first.published_eq, eventsOfAll, eventsOf]
  | .brokenNotice first notice announced =>
    simp [announced.published_eq, newEvent_published notice, first.published_eq, eventsOfAll,
      eventsOf, eventsOfClosing]
  | .last first notice announced stop =>
    simp [announced.published_eq, newEvent_published notice, first.published_eq, eventsOfAll,
      eventsOf, eventsOfClosing]
  | .next first notice announced go others =>
    simp [others.published_eq, announced.published_eq, newEvent_published notice,
      first.published_eq, eventsOfAll, eventsOf, eventsOfClosing]

theorem Considers.published_eq {x : DomainEvent} {rule : Rule} {e : Engine}
    {dispatched : List Action} {effects : List Cascade} {out : End RuleExecution}
    (h : Considers x rule e dispatched effects out) :
    published out.2 = published e ++ eventsOfEffects effects := by
  match h with
  | .skipped why => simp [eventsOfEffects]
  | .fires fires actions => exact actions.published_eq

theorem RunsActions.published_eq {context : ActionContext} {actions : List Action} {e : Engine}
    {dispatched : List Action} {effects : List Cascade} {out : End (List ActionResult)}
    (h : RunsActions context actions e dispatched effects out) :
    published out.2 = published e ++ eventsOfEffects effects := by
  match h with
  | .done => simp [eventsOfEffects]
  | .broken asked => simp [ask_published asked, eventsOfEffects]
  | .failed asked => simp [ask_published asked, eventsOfEffects]
  | .answered asked others => rw [others.published_eq, ask_published asked]
  | .brokenEffect asked effect =>
    simp [effect.published_eq, ask_published asked, eventsOfEffects]
  | .published asked effect others =>
    simp [others.published_eq, effect.published_eq, ask_published asked, eventsOfEffects]

end

end Engine

end WorkflowRules
