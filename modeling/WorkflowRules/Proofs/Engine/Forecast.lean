import WorkflowRules.Proofs.Engine.AllOrNothing
import WorkflowRules.Proofs.Engine.History
import WorkflowRules.Proofs.Engine.Reserved
import WorkflowRules.Proofs.Engine.Untouched
import WorkflowRules.Proofs.Workflow.Strict

/-!
# Asking before firing

An engine can be asked beforehand whether a transition is possible, and which transitions leave the
state of an instance. The answers go by operations of their own, which choose the transition, and ask
its guards, just as firing it does. So what is refused to who asks is refused to who fires, in the same
words; and what stands in the way of a transition that was said to be possible is one of the hooks that
run before the commit.

Guards are asked twice, and it is the guards that decide: their second answer has to be the first one.

* `Engine.Stopped` — why a transition does not go through once it is chosen
* `Engine.SteadyGuards` — the answers of guards depend on nothing but what they see
* `Engine.fire_ends` — how firing a chosen transition ends
* `Engine.checked_as_fired` — asking whether a transition is possible, and firing it
* `Engine.offered_as_fired` — asking which transitions leave the state, and firing one of them
-/

namespace WorkflowRules.Engine

variable {e e' : Engine} {workflow entityId event : String} {context : TransitionContext} {c : Choice}

/-! ## Hooks before the commit -/

/-- Why one of these hooks stands in the way of a transition. -/
inductive Hinders (hooks : Keyed String Hook) (names : List String) : AutomationError → Prop
  | unknown {name : String} (mem : name ∈ names) (missing : hooks.get? name = none) :
      Hinders hooks names (.definition ("hook '" ++ name ++ "' is not registered"))
  | fails {name text : String} (mem : name ∈ names) : Hinders hooks names (.hookFailed name text)

/-- Whatever hooks set off, only one of them can be the reason why they are refused. -/
theorem runBeforeHooks_hinders {held : List InstanceKey} {seen : HookContext} {names : List String}
    {f : Failure} (h : runBeforeHooks ⟨held, publishWith⟩ seen names e = (.error f, e')) :
    (∃ reason, f = .error reason ∧ Hinders e.hooks names reason) ∨ ∃ why, f = .breakdown why := by
  rcases f with reason | why
  swap
  · exact .inr ⟨why, rfl⟩
  rcases hooksNamed_observed e names with
    ⟨hooks, rfl, -, look⟩ | ⟨before, name, after, rfl, -, missing, look⟩
  · have found : hooksNamed (hooks.map Prod.fst) e = (.ok hooks, e) := look
    rw [runBeforeHooks, Operation.bind_ok _ found] at h
    obtain ⟨hook, hmem, s, hround⟩ := Operation.forEach_eq_error h
    have mem : hook.1 ∈ hooks.map Prod.fst := List.mem_map_of_mem hmem
    rcases Operation.bind_eq_error hround with hrun | ⟨failure, s', -, hfail⟩
    · exact absurd (congrArg Prod.fst hrun) (runHook_neverRefused held seen hook.1 hook.2 s reason)
    · -- the hook has run, so it is its own failure that is reported
      cases failure with
      | none => cases hfail
      | some text =>
        cases hfail
        exact .inl ⟨_, rfl, .fails mem⟩
  · have missed : hooksNamed (before ++ name :: after) e = (.error (.error _), e) := look
    rw [runBeforeHooks, Operation.bind_error _ missed] at h
    cases h
    exact .inl ⟨_, rfl, .unknown (by simp) missing⟩

/-! ## How a chosen transition ends -/

/-- Why a transition does not go through once it is chosen. -/
inductive Stopped (e : Engine) (workflow entityId event : String) (context : TransitionContext)
    (c : Choice) : AutomationError → Prop
  | guard {name : String} {reason : AutomationError} {asked calls : List Observation}
      (mem : name ∈ c.transition.guards)
      (why : Objects (e.watched asked) (c.seen event context) name reason calls) :
      Stopped e workflow entityId event context c reason
  | hook {reason : AutomationError} (why : Hinders e.hooks c.transition.beforeHooks reason) :
      Stopped e workflow entityId event context c reason

theorem Stopped.ne_invalidTransition {reason : AutomationError}
    (h : Stopped e workflow entityId event context c reason) (state name : String) :
    reason ≠ .invalidTransition state name := by
  cases h with
  | guard mem why => cases why <;> simp
  | hook why => cases why <;> simp

/-- What is left of a chosen transition after its guards and hooks cannot be refused. -/
theorem commit_reserved (h : e.Orderly) (chosen : Chosen e workflow entityId event c)
    {names : List String} {asked : List Observation}
    (ran : runBeforeHooks (publish.holding (workflow, entityId)) (c.seen event context) names
      (e.watched asked) = (.ok (), e')) :
    ∃ s, commit (c.seen event context) e' =
        (.ok (c.stored.next (c.entry event context e'.nextTime)).current, s) ∧
      s.stored? (workflow, entityId) = some (c.stored.next (c.entry event context e'.nextTime)) := by
  have idle : Idle e (e.watched asked) := watched_idle _ _
  have reserves := runBeforeHooks_reserves (workflow, entityId) (c.seen event context) names
    (e.watched asked)
  rw [ran] at reserves
  -- nobody but this call could commit a transition of the instance, so it is as it was loaded
  have orderly := reserves.orderly.2 (idle.orderly h)
  have found : e'.stored? (workflow, entityId) = some c.stored :=
    (reserves.same (idle.orderly h)).trans ((idle.stored? _).trans chosen.found)
  obtain ⟨s, hcommit, hcommits⟩ :=
    commits_stored (e := (now e').2) orderly.store found (c.entry event context e'.nextTime)
  exact ⟨s, hcommit, hcommits.left⟩

/-- A transition that is chosen comes to its commit, unless something stands in its way. -/
theorem advance_ends (h : e.Orderly) (chosen : Chosen e workflow entityId event c)
    (context : TransitionContext) :
    (∃ time s, advance publish workflow entityId event context e =
        (.ok (c.seenAfter event context time, c.transition.afterHooks), s) ∧
      s.stored? (workflow, entityId) = some (c.stored.next (c.entry event context time))) ∨
      (∃ reason s, advance publish workflow entityId event context e = (.error (.error reason), s) ∧
        Stopped e workflow entityId event context c reason) ∨
      ∃ why s, advance publish workflow entityId event context e = (.error (.breakdown why), s) := by
  obtain ⟨m, memory, -⟩ := h.store
  have hadvance : advance publish workflow entityId event context e = _ :=
    advance_chosen memory rfl context chosen
  rcases checkGuards_observed e (c.seen event context) c.transition.guards with
    ⟨-, guards⟩ | ⟨before, name, after, reason, calls, split, -, why, guards⟩
  · have agreed : checkGuards (c.seen event context) c.transition.guards e =
        (.ok (), e.watched (c.guardCalls event context)) := guards
    rw [Operation.bind_ok _ agreed] at hadvance
    rcases hrun : runBeforeHooks (publish.holding (workflow, entityId)) (c.seen event context)
      c.transition.beforeHooks (e.watched (c.guardCalls event context)) with ⟨f | _, s⟩
    · rw [Operation.bind_error _ hrun] at hadvance
      rcases runBeforeHooks_hinders hrun with ⟨reason, rfl, why⟩ | ⟨why, rfl⟩
      · exact .inr (.inl ⟨reason, s, hadvance, .hook why⟩)
      · exact .inr (.inr ⟨why, s, hadvance⟩)
    · obtain ⟨s', hcommit, committed⟩ := commit_reserved h chosen hrun
      rw [Operation.bind_ok _ hrun] at hadvance
      exact .inl ⟨s.nextTime, s', hadvance.trans (Operation.bind_ok _ hcommit), committed⟩
  · rw [Operation.bind_error _ guards] at hadvance
    exact .inr (.inl ⟨reason, _, hadvance, .guard (by simp [split]) why⟩)

/--
Firing an event by which a transition is chosen: it goes through, something stands in its way, or it
never comes to an end.
-/
theorem fire_ends (h : e.Orderly) (chosen : Chosen e workflow entityId event c)
    (context : TransitionContext) :
    (∃ time committed s, advance publish workflow entityId event context e =
        (.ok (c.seenAfter event context time, c.transition.afterHooks), committed) ∧
      committed.stored? (workflow, entityId) = some (c.stored.next (c.entry event context time)) ∧
      fire workflow entityId event context e =
        (.ok (c.stored.next (c.entry event context time)).current, s)) ∨
      (∃ reason s, fire workflow entityId event context e = (.error (.error reason), s) ∧
        Stopped e workflow entityId event context c reason) ∨
      ∃ why s, fire workflow entityId event context e = (.error (.breakdown why), s) := by
  rcases advance_ends h chosen context with
    ⟨time, committed, hadvance, left⟩ | ⟨reason, s, hadvance, why⟩ | ⟨why, s, hadvance⟩
  · rcases fire_advanced hadvance with ⟨last, hfire⟩ | broken
    · exact .inl ⟨time, committed, last, hadvance, left, hfire⟩
    · exact .inr (.inr broken)
  · exact .inr (.inl ⟨reason, s, fire_of_advance hadvance, why⟩)
  · exact .inr (.inr ⟨why, s, fire_of_advance hadvance⟩)

/-! ## Guards that are asked again -/

/-- The answers of guards depend on nothing but what they see. -/
def SteadyGuards (e : Engine) : Prop :=
  ∀ name guard, e.guards.get? name = some guard → ∀ m n seen, guard m seen = guard n seen

/-- Nothing but guards is called. -/
def OnlyGuards (calls : List Observation) : Prop := ∀ o ∈ calls, ∃ name seen, o = .guardAsked name seen

theorem OnlyGuards.unpublished {calls : List Observation} (h : OnlyGuards calls) :
    (e.watched calls).published = e.published := by
  refine published_calls fun o ho => ?_
  obtain ⟨name, seen, rfl⟩ := h o ho
  rfl

theorem onlyGuards_asked (seen : HookContext) (names : List String) :
    OnlyGuards (names.map (.guardAsked · seen)) := by
  intro o ho
  obtain ⟨name, -, rfl⟩ := List.mem_map.1 ho
  exact ⟨name, seen, rfl⟩

theorem OnlyGuards.objects {seen : HookContext} {name : String} {reason : AutomationError}
    {calls : List Observation} (why : Objects e seen name reason calls) : OnlyGuards calls := by
  intro o ho
  cases why with
  | unknown missing => cases ho
  | rejects registered answer | fails registered answer => exact ⟨name, seen, List.mem_singleton.1 ho⟩

/-- From this engine, whatever was observed before, the operation ends so and adds these observations. -/
def Repeats (e : Engine) (x : Operation Engine Unit) (r : Except AutomationError Unit)
    (calls : List Observation) : Prop :=
  ∀ os, Observed (e.watched os) x r calls

section Steady

variable (steady : SteadyGuards e)

include steady

theorem Agrees.watched {seen : HookContext} {name : String} (h : Agrees e seen name)
    (os : List Observation) : Agrees (e.watched os) seen name := by
  obtain ⟨guard, registered, answer⟩ := h
  exact ⟨guard, registered, (steady name guard registered _ _ seen).trans answer⟩

/-- A guard that objects objects again, with the same reason. -/
theorem Objects.watched {seen : HookContext} {name : String} {reason : AutomationError}
    {calls : List Observation} (h : Objects e seen name reason calls) (os : List Observation) :
    Objects (e.watched os) seen name reason calls := by
  cases h with
  | unknown missing => exact .unknown missing
  | rejects registered answer =>
    exact .rejects registered ((steady name _ registered _ _ seen).trans answer)
  | fails registered answer =>
    exact .fails registered ((steady name _ registered _ _ seen).trans answer)

/-- Guards that are asked again agree again, or the same one stands in the way. -/
theorem checkGuards_repeats (seen : HookContext) (names : List String) :
    ((∀ name ∈ names, Agrees e seen name) ∧
        Repeats e (checkGuards seen names) (.ok ()) (names.map (.guardAsked · seen))) ∨
      ∃ reason calls, OnlyGuards calls ∧ Repeats e (checkGuards seen names) (.error reason) calls := by
  induction names with
  | nil => exact .inl ⟨by simp, fun _ => .pure ()⟩
  | cons name rest ih =>
    rcases agrees_or_objects e seen name with agrees | ⟨reason, calls, objects⟩
    · have follow {r : Except AutomationError Unit} {more : List Observation}
          (others : Repeats e (checkGuards seen rest) r more) :
          Repeats e (checkGuards seen (name :: rest)) r (.guardAsked name seen :: more) := fun os => by
        have later := others (os ++ [.guardAsked name seen])
        rw [← watched_watched] at later
        exact (checkGuard_agrees (agrees.watched steady os)).bind later
      rcases ih with ⟨all, others⟩ | ⟨reason, calls, asked, others⟩
      · exact .inl ⟨List.forall_mem_cons.2 ⟨agrees, all⟩, follow others⟩
      · exact .inr ⟨reason, _, List.forall_mem_cons.2 ⟨⟨name, seen, rfl⟩, asked⟩, follow others⟩
    · exact .inr ⟨reason, calls, .objects objects,
        fun os => (checkGuard_objects (objects.watched steady os)).bind_error⟩

end Steady

/-- No guard both agrees and stands in the way. -/
theorem Agrees.not_objects {seen : HookContext} {name : String} {reason : AutomationError}
    {calls : List Observation} (h : Agrees e seen name) : ¬ Objects e seen name reason calls := by
  obtain ⟨guard, registered, answer⟩ := h
  intro why
  cases why with
  | unknown missing => cases registered.symm.trans missing
  | rejects registered' answer' | fails registered' answer' =>
    obtain rfl := Option.some.inj (registered.symm.trans registered')
    cases answer.symm.trans answer'

/-- A transition that its guards agree to is only stopped by hooks. -/
theorem Stopped.hinders (steady : SteadyGuards e) {reason : AutomationError} {os : List Observation}
    (why : Stopped (e.watched os) workflow entityId event context c reason)
    (agreed : ∀ name ∈ c.transition.guards, Agrees e (c.seen event context) name) :
    Hinders e.hooks c.transition.beforeHooks reason := by
  cases why with
  | guard mem objects =>
    rw [watched_watched] at objects
    exact absurd objects ((agreed _ mem).watched steady _).not_objects
  | hook why => exact why

/-! ## Asking whether a transition is possible -/

theorem Chosen.watched (h : Chosen e workflow entityId event c) (os : List Observation) :
    Chosen (e.watched os) workflow entityId event c := ⟨h.registered, h.found, h.selected⟩

theorem Unchosen.watched {reason : AutomationError} (h : Unchosen e workflow entityId event reason)
    (os : List Observation) : Unchosen (e.watched os) workflow entityId event reason := by
  cases h with
  | workflow missing => exact .workflow missing
  | entity registered missing => exact .entity (e := e.watched os) registered missing
  | transition registered found missing =>
    exact .transition (e := e.watched os) registered found missing

/-- The check agrees to a transition that is chosen, or it is refused as firing is. -/
theorem checkTransition_cases (steady : SteadyGuards e) {s : MemoryStore} (memory : e.store = .memory s)
    (workflow entityId event : String) (context : TransitionContext) :
    (∃ c, Chosen e workflow entityId event c ∧
        (∀ name ∈ c.transition.guards, Agrees e (c.seen event context) name) ∧
        checkTransition workflow entityId event context e =
          (.ok (), e.watched (c.guardCalls event context))) ∨
      ∃ reason calls, OnlyGuards calls ∧
        checkTransition workflow entityId event context e =
          (.error (.error reason), e.watched calls) ∧
        ∀ os, fire workflow entityId event context (e.watched os) =
          (.error (.error reason), e.watched (os ++ calls)) := by
  rcases exists_chosen_or e workflow entityId event with ⟨c, chosen⟩ | ⟨reason, why⟩
  · have hcheck : checkTransition workflow entityId event context e =
        checkGuards (c.seen event context) c.transition.guards e := choosing_chosen memory chosen _
    rcases checkGuards_repeats steady (c.seen event context) c.transition.guards with
      ⟨agreed, guards⟩ | ⟨reason, calls, asked, guards⟩
    · exact .inl ⟨c, chosen, agreed, hcheck.trans (guards [])⟩
    · refine .inr ⟨reason, calls, asked, hcheck.trans (guards []), fun os => fire_of_advance ?_⟩
      have refused : checkGuards (c.seen event context) c.transition.guards (e.watched os) =
          (.error (.error reason), e.watched (os ++ calls)) := by
        rw [← watched_watched]
        exact guards os
      exact (advance_chosen (e := e.watched os) memory rfl context (chosen.watched os)).trans
        (Operation.bind_error _ refused)
  · refine .inr ⟨reason, [], by simp [OnlyGuards], choosing_unchosen memory why _, fun os => ?_⟩
    rw [List.append_nil]
    exact fire_of_advance (advance_unchosen (e := e.watched os) memory rfl (why.watched os))

/-- What asking whether a transition is possible tells of firing it. -/
structure Foretold (e : Engine) (workflow entityId event : String) (context : TransitionContext) :
    Prop where
  /-- Definitions, instances, histories and the bus are left alone; only calls of guards can be seen. -/
  looks : ∃ calls, OnlyGuards calls ∧
    (canTransition workflow entityId event context e).2 = e.watched calls ∧
    (e.watched calls).published = e.published
  /-- The answer is whether the check is passed. -/
  answer : (canTransition workflow entityId event context e).1 =
    .ok (checkTransition workflow entityId event context e).1.isOk
  /--
  What the check refuses is refused in the same words to who fires, whether the guards have been asked
  before or not, and nothing else happens.
  -/
  refused : ∀ f s, checkTransition workflow entityId event context e = (.error f, s) →
    ∃ reason calls, f = .error reason ∧ OnlyGuards calls ∧ s = e.watched calls ∧
      ∀ os, fire workflow entityId event context (e.watched os) =
        (.error (.error reason), e.watched (os ++ calls))
  /--
  What the check agrees to goes through, or one of the hooks before the commit stands in its way. It
  never comes to an end only if hooks publish events.
  -/
  possible : (canTransition workflow entityId event context e).1 = .ok true →
    ∃ c, Chosen e workflow entityId event c ∧ ∀ os,
      (∃ i s, fire workflow entityId event context (e.watched os) = (.ok i, s)) ∨
        (∃ reason s, fire workflow entityId event context (e.watched os) = (.error (.error reason), s) ∧
          Hinders e.hooks c.transition.beforeHooks reason) ∨
        ¬ Quiet e ∧ ∃ why s, why ≠ .unreadable ∧
          fire workflow entityId event context (e.watched os) = (.error (.breakdown why), s)

theorem canTransition_apply (workflow entityId event : String) (context : TransitionContext)
    {r : Except AutomationError Unit}
    (h : checkTransition workflow entityId event context e = (r.mapError Failure.error, e')) :
    canTransition workflow entityId event context e = (.ok r.isOk, e') := by
  unfold canTransition
  cases r with
  | error reason => rw [Operation.bind_ok _ (Operation.attempt_error h)]; rfl
  | ok u => rw [Operation.bind_ok _ (Operation.attempt_ok h)]; rfl

/-- The offers for an instance in a state. -/
def offersFrom (d : Definition) (state : String) : List AvailableTransition :=
  (d.outgoing state).map fun t => ⟨t.event, t.target⟩

/-- The transitions that are offered are those from the stored state. -/
theorem availableTransitions_apply {s : MemoryStore} (memory : e.store = .memory s) {d : Definition}
    {stored : StoredInstance} (registered : e.registry.get? workflow = some d)
    (found : e.stored? (workflow, entityId) = some stored) :
    availableTransitions workflow entityId e = (.ok (offersFrom d stored.current.state), e) := by
  have hd : lookup workflow e = (.ok d, e) := by rw [lookup_apply, registered]
  have hi : load (workflow, entityId) e = (.ok stored.current, e) := by
    rw [load_apply, get?_stored memory, found]
    rfl
  unfold availableTransitions
  rw [Operation.bind_ok _ hd, Operation.bind_ok _ hi]
  rfl

/-- The first offer on an event is the transition that is selected. -/
theorem find?_offersFrom (d : Definition) (state event : String) :
    (offersFrom d state).find? (·.event == event) =
      (d.select? state event).map fun t => ⟨t.event, t.target⟩ := by
  rw [Definition.select?_eq_head?, Definition.candidates_eq_filter, List.head?_filter, offersFrom,
    List.find?_map]
  rfl

/-- What the offers for an instance tell of firing an event on it. -/
structure Foreseen (e : Engine) (workflow entityId event : String) (context : TransitionContext)
    (d : Definition) (stored : StoredInstance) (offers : List AvailableTransition) : Prop where
  /-- An event is invalid exactly if it is not offered. -/
  invalid : (∃ state name s, fire workflow entityId event context e =
      (.error (.error (.invalidTransition state name)), s)) ↔ ∀ offer ∈ offers, offer.event ≠ event
  /-- Then the refusal names the state and the event, and nothing else happens. -/
  refused : (∀ offer ∈ offers, offer.event ≠ event) → fire workflow entityId event context e =
    (.error (.error (.invalidTransition stored.current.state event)), e)
  /-- The first offer on the event has the target of the transition that is selected. -/
  selects : (offers.find? (·.event == event)).map (·.target) =
    (d.select? stored.current.state event).map (·.target)
  /-- If the transition goes through, that target is the state that it commits and that it answers. -/
  enters : ∀ i s, fire workflow entityId event context e = (.ok i, s) →
    (offers.find? (·.event == event)).map (·.target) = some i.state ∧
      ∃ seen afterHooks committed left,
        advance publish workflow entityId event context e = (.ok (seen, afterHooks), committed) ∧
          committed.stored? (workflow, entityId) = some left ∧ left.current = i

/-- What is offered can be selected, and what is not offered is refused as invalid. -/
theorem foreseen (h : e.Orderly) {d : Definition} {stored : StoredInstance}
    (registered : e.registry.get? workflow = some d)
    (found : e.stored? (workflow, entityId) = some stored) (event : String)
    (context : TransitionContext) :
    Foreseen e workflow entityId event context d stored (offersFrom d stored.current.state) := by
  obtain ⟨m, memory, -⟩ := h.store
  have hfind := find?_offersFrom d stored.current.state event
  have unoffered : (∀ offer ∈ offersFrom d stored.current.state, offer.event ≠ event) ↔
      d.select? stored.current.state event = none := by
    rw [← Option.map_eq_none_iff, ← hfind, List.find?_eq_none]
    simp
  have selects : ((offersFrom d stored.current.state).find? (·.event == event)).map (·.target) =
      (d.select? stored.current.state event).map (·.target) := by
    rw [hfind, Option.map_map]
    rfl
  -- what is offered and what fires both go back to the selection from the definition
  cases selected : d.select? stored.current.state event with
  | none =>
    have hfire : fire workflow entityId event context e =
        (.error (.error (.invalidTransition stored.current.state event)), e) :=
      fire_of_advance (advance_unchosen memory rfl (.transition registered found selected))
    refine ⟨⟨fun _ => unoffered.2 selected, fun _ => ⟨_, _, _, hfire⟩⟩, fun _ => hfire, selects,
      fun i s hok => ?_⟩
    cases hfire.symm.trans hok
  | some t =>
    have chosen : Chosen e workflow entityId event ⟨d, stored, t⟩ := ⟨registered, found, selected⟩
    have offered : ¬ ∀ offer ∈ offersFrom d stored.current.state, offer.event ≠ event := by
      rw [unoffered, selected]
      simp
    refine ⟨⟨?_, fun none => absurd none offered⟩, fun none => absurd none offered, selects, ?_⟩
    · rintro ⟨state, name, s, hfire⟩
      rcases fire_ends h chosen context with
        ⟨time, committed, s', -, -, hok⟩ | ⟨reason, s', hrefused, why⟩ | ⟨why, s', hbroken⟩
      · cases hok.symm.trans hfire
      · obtain ⟨hreason, -⟩ := Prod.mk.inj (hrefused.symm.trans hfire)
        exact absurd (Failure.error.inj (Except.error.inj hreason)) (why.ne_invalidTransition _ _)
      · cases hbroken.symm.trans hfire
    · intro i s hfire
      rcases fire_ends h chosen context with
        ⟨time, committed, s', hadvance, left, hok⟩ | ⟨reason, s', hrefused, -⟩ | ⟨why, s', hbroken⟩
      · obtain ⟨hi, -⟩ := Prod.mk.inj (hok.symm.trans hfire)
        refine ⟨?_, _, _, committed, _, hadvance, left, Except.ok.inj hi⟩
        rw [selects, selected, ← Except.ok.inj hi]
        rfl
      · cases hrefused.symm.trans hfire
      · cases hbroken.symm.trans hfire

/--
The transitions on offer tell which events are valid and where they lead. Of the definition this needs
that the transitions that leave a state on an event are among those that leave it, in the same order.
-/
theorem offered_as_fired :
    (∀ (d : Definition) (state event : String),
      d.candidates state event = (d.outgoing state).filter (·.event == event) ∧
        d.select? state event = (d.candidates state event).head?) ∧
    ∀ (e : Engine) (workflow entityId : String) (d : Definition) (stored : StoredInstance),
      e.Orderly → e.registry.get? workflow = some d →
      e.stored? (workflow, entityId) = some stored →
      ∃ offers, availableTransitions workflow entityId e = (.ok offers, e) ∧
        ∀ event context, Foreseen e workflow entityId event context d stored offers := by
  refine ⟨fun d state event => ⟨d.candidates_eq_filter state event, d.select?_eq_head? state event⟩,
    fun e workflow entityId d stored h registered found => ?_⟩
  obtain ⟨m, memory, -⟩ := h.store
  exact ⟨_, availableTransitions_apply memory registered found, foreseen h registered found⟩

/-! ## A ticket that can be closed in two ways -/

/-- Open tickets that are closed go one way; the other one is never taken. -/
def inquiry : Definition :=
  (((Definition.ofStates "ticket" "ticket" "open" ["open", "held", "closed"]).addTransition
      { sources := ["open", "held"], target := "closed", event := "close", guards := ["signed"]
        beforeHooks := ["archive"] }).addTransition
      { sources := ["open"], target := "held", event := "hold" }).addTransition
      { sources := ["open"], target := "held", event := "close" }

/-- An open ticket, which whoever gives a name may close; nobody has registered the archive. -/
def desk : Engine :=
  (inMemory {} .counting).runAll
    [.define inquiry, .registerGuard "signed" fun _ seen => .ok seen.context.actorId.isSome,
      .create "ticket" "7" .null none]

theorem orderly_desk : desk.Orderly := (orderly_inMemory {} .counting).runAll _

theorem steady_desk : SteadyGuards desk := by
  intro name guard registered m n seen
  rcases Keyed.get?_insert_eq_some registered with ⟨-, rfl⟩ | ⟨-, registered⟩
  · rfl
  · cases registered

theorem quiet_desk : Quiet desk := fun _ _ registered => by cases registered

/-- The context of a transition that Ada fires. -/
def byAda : TransitionContext := { TransitionContext.empty with actorId := some "ada" }

/-- Closing the ticket is offered twice, and holding it leads to where the offer says. -/
theorem offered_as_fired_desk :
    desk.Orderly ∧ desk.registry.get? "ticket" = some inquiry ∧
      ∃ stored, desk.stored? ("ticket", "7") = some stored ∧
        ∃ offers, availableTransitions "ticket" "7" desk = (.ok offers, desk) ∧
          offers = [⟨"close", "closed"⟩, ⟨"hold", "held"⟩, ⟨"close", "held"⟩] ∧
          (∀ event context, Foreseen desk "ticket" "7" event context inquiry stored offers) ∧
          ∃ i s, fire "ticket" "7" "hold" byAda desk = (.ok i, s) ∧ i.state = "held" := by
  have registered : desk.registry.get? "ticket" = some inquiry := rfl
  have exists_stored : (desk.stored? ("ticket", "7")).isSome = true := rfl
  obtain ⟨stored, found⟩ := Option.isSome_iff_exists.1 exists_stored
  obtain ⟨offers, hoffers, foreseen⟩ :=
    offered_as_fired.2 desk "ticket" "7" inquiry stored orderly_desk registered found
  have answer : (availableTransitions "ticket" "7" desk).1 =
      .ok [⟨"close", "closed"⟩, ⟨"hold", "held"⟩, ⟨"close", "held"⟩] := rfl
  rw [hoffers] at answer
  obtain rfl := Except.ok.inj answer
  refine ⟨orderly_desk, registered, stored, found, _, hoffers, rfl, foreseen, ?_⟩
  have accepted : (fire "ticket" "7" "hold" byAda desk).1.isOk = true := rfl
  rcases hfire : fire "ticket" "7" "hold" byAda desk with ⟨f | i, s⟩
  · rw [hfire] at accepted
    cases accepted
  · have entered := ((foreseen "hold" byAda).enters i s hfire).1
    exact ⟨i, s, rfl, (Option.some.inj entered).symm⟩

end WorkflowRules.Engine
