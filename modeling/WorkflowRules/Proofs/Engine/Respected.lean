import WorkflowRules.Engine.Cascade
import WorkflowRules.Proofs.Operation

/-!
# What every run of an engine keeps

Transitions and cascades change an engine in few ways: they put something on the trace, read the
clock, count the calls of handlers, and commit to the store. A relation that these steps keep is kept by
every transition and by every cascade, however deeply its publications are nested.

While instances are reserved, nothing that is set off commits a transition of them. So a relation that
only other commits keep is kept as long as they are reserved.

* `Engine.RespectedExcept` — the steps that a relation has to keep while some instances are reserved
* `Engine.Respected` — the steps that a relation has to keep at all times
* `Publish.Respects` — publishing keeps a relation, whatever else is reserved
* `Engine.settle_keeps`, `Engine.dispatch_keeps` — what a single transition and a single action keep
* `Engine.publishFor_respects` — what a whole cascade keeps
* `Engine.SameSetup` — everything but the store, the clock, the count and the trace is such a thing
-/

namespace WorkflowRules.Engine

open Operation (Keeps bind_state forEach_state)

/--
A relation between engines that the steps of transitions and cascades keep while some instances are
reserved.
-/
structure RespectedExcept (reserved : List InstanceKey) (R : Engine → Engine → Prop) : Prop
    extends IsPreorder Engine R where
  observe : ∀ o e, (∀ x, o ≠ .published x) → R e (observe o e).2
  now : ∀ e, R e (now e).2
  newIdentifier : ∀ e, R e (newIdentifier e).2
  nextCall : ∀ e, R e (nextCall e).2
  /-- A commit of what was loaded and selected in an earlier state `e`, of an instance that was free. -/
  commit : ∀ {e e' d i t workflow entityId event} (context), (workflow, entityId) ∉ reserved →
    e.registry.get? workflow = some d → e.store.get? (workflow, entityId) = .ok (some i) →
    d.select? i.state event = some t → R e e' → R e' (commit (contextOf i t event context) e').2
  /-- A commit past the engine, by a hook that was registered in an earlier state `e`. -/
  bypass : ∀ {e e' name hook n seen state event} (entry), e.hooks.get? name = some hook →
    hook n seen = .commit state event → R e e' →
    R e' (commitDirectly seen.subject state entry e').2

/-- A relation between engines that the steps of transitions and cascades keep at all times. -/
abbrev Respected (R : Engine → Engine → Prop) : Prop := RespectedExcept [] R

/-- Publishing keeps a relation, and does so with any reservations on top of the given ones. -/
structure Publish.Respects (reserved : List InstanceKey) (R : Engine → Engine → Prop)
    (publish : Publish) : Prop where
  held : reserved ⊆ publish.held
  run : ∀ held, reserved ⊆ held → ∀ x, Keeps R (publish.run held x)

variable {reserved : List InstanceKey} {R : Engine → Engine → Prop} {publish : Publish}

namespace Publish.Respects

/-- As long as nothing is reserved for it, a relation is kept however instances are reserved. -/
theorem of_run (run : ∀ held x, Keeps R (publish.run held x)) : publish.Respects [] R :=
  ⟨List.nil_subset _, fun held _ => run held⟩

theorem publishes (h : publish.Respects reserved R) (x : DomainEvent) : Keeps R (publish x) :=
  h.run publish.held h.held x

/-- To publish while one more instance is reserved keeps what publishing keeps. -/
theorem holding (h : publish.Respects reserved R) (key : InstanceKey) :
    (publish.holding key).Respects reserved R where
  held := List.subset_cons_of_subset key h.held
  run := h.run

end Publish.Respects

/-! ## Steps that only look -/

/-- A workflow is looked up in the registry, under its name and nowhere else. -/
theorem lookup_apply (name : String) (e : Engine) :
    lookup name e =
      (match e.registry.get? name with
        | some d => .ok d
        | none => .error (.error (workflowNotFound name)), e) := by
  unfold lookup
  rw [Operation.bind_apply]
  simp only [Operation.view_apply]
  cases e.registry.get? name <;> rfl

theorem lookup_ok {name : String} {d : Definition} {e e' : Engine}
    (h : lookup name e = (.ok d, e')) : e.registry.get? name = some d ∧ e' = e := by
  rw [lookup_apply] at h
  obtain ⟨hd, he⟩ := Prod.mk.inj h
  refine ⟨?_, he.symm⟩
  cases hg : e.registry.get? name with
  | none => rw [hg] at hd; cases hd
  | some found => rw [hg] at hd; rw [Except.ok.inj hd]

/-- A row that is not there is a refusal, and a row that cannot be read ends the run. -/
theorem load_apply (key : InstanceKey) (e : Engine) :
    load key e =
      (match e.store.get? key with
        | .ok (some i) => .ok i
        | .ok none => .error (.error (.instanceNotFound key))
        | .error f => .error f, e) := by
  unfold load
  rw [Operation.bind_apply]
  simp only [Operation.viewExcept_apply]
  rcases e.store.get? key with f | (_ | i) <;> rfl

theorem load_ok {key : InstanceKey} {i : Instance} {e e' : Engine}
    (h : load key e = (.ok i, e')) : e.store.get? key = .ok (some i) ∧ e' = e := by
  rw [load_apply] at h
  obtain ⟨hi, he⟩ := Prod.mk.inj h
  refine ⟨?_, he.symm⟩
  rcases hg : e.store.get? key with f | (_ | j)
  · rw [hg] at hi; cases hi
  · rw [hg] at hi; cases hi
  · rw [hg] at hi; rw [Except.ok.inj hi]

/-- Who asks for an instance that is reserved further up waits for ever. -/
theorem reserve_apply (held : List InstanceKey) (key : InstanceKey) (e : Engine) :
    reserve held key e = (if key ∈ held then .error (.breakdown .waiting) else .ok (), e) := by
  simp only [reserve, List.contains_iff_mem]
  split <;> rfl

/-- Where nothing is reserved there is nothing to wait for. -/
theorem reserve_nil (key : InstanceKey) : reserve [] key = pure () := rfl

/-- Whoever does not wait for ever has found the instance free. -/
theorem reserve_ok {held : List InstanceKey} {key : InstanceKey} {e e' : Engine}
    (h : reserve held key e = (.ok (), e')) : key ∉ held ∧ e' = e := by
  rw [reserve_apply] at h
  obtain ⟨hfree, he⟩ := Prod.mk.inj h
  refine ⟨fun hheld => ?_, he.symm⟩
  rw [if_pos hheld] at hfree
  cases hfree

/-- The first transition that matches is taken, and without one the event is refused. -/
theorem select_apply (d : Definition) (i : Instance) (event : String) (e : Engine) :
    select d i event e =
      (match d.select? i.state event with
        | some t => .ok t
        | none => .error (.error (.invalidTransition i.state event)), e) := by
  unfold select
  cases d.select? i.state event <;> rfl

/-- A transition that was selected is the one that the definition gives for state and event. -/
theorem select_ok {d : Definition} {i : Instance} {event : String} {t : Transition}
    {e e' : Engine} (h : select d i event e = (.ok t, e')) :
    d.select? i.state event = some t ∧ e' = e := by
  rw [select_apply] at h
  obtain ⟨ht, he⟩ := Prod.mk.inj h
  refine ⟨?_, he.symm⟩
  cases hg : d.select? i.state event with
  | none => rw [hg] at ht; cases ht
  | some found => rw [hg] at ht; rw [Except.ok.inj ht]

/-- The name of a hook that is not registered is told in the refusal. -/
theorem hookNamed_apply (name : String) (e : Engine) :
    hookNamed name e =
      (match e.hooks.get? name with
        | some hook => .ok hook
        | none => .error (.error (.definition ("hook '" ++ name ++ "' is not registered"))), e) := by
  unfold hookNamed
  rw [Operation.bind_apply]
  simp only [Operation.view_apply]
  cases e.hooks.get? name <;> rfl

/-- A hook that was resolved is the one that is registered. -/
theorem hookNamed_ok {name : String} {hook : Hook} {e e' : Engine}
    (h : hookNamed name e = (.ok hook, e')) : e.hooks.get? name = some hook ∧ e' = e := by
  rw [hookNamed_apply] at h
  obtain ⟨hh, he⟩ := Prod.mk.inj h
  refine ⟨?_, he.symm⟩
  cases hg : e.hooks.get? name with
  | none => rw [hg] at hh; cases hh
  | some found => rw [hg] at hh; rw [Except.ok.inj hh]

/-- The resolution of hooks looks all of them up in one state, which it leaves alone. -/
theorem hooksNamed_ok {names : List String} {hooks : List (String × Hook)} {e e' : Engine}
    (h : hooksNamed names e = (.ok hooks, e')) :
    (∀ hook ∈ hooks, e.hooks.get? hook.1 = some hook.2) ∧ e' = e := by
  induction names generalizing hooks e' with
  | nil =>
    cases h
    exact ⟨by simp, rfl⟩
  | cons name rest ih =>
    obtain ⟨hook, s, hhook, hrest⟩ := Operation.bind_eq_ok h
    obtain ⟨hget, rfl⟩ := hookNamed_ok hhook
    obtain ⟨others, s', hothers, hdone⟩ := Operation.bind_eq_ok hrest
    obtain ⟨hall, rfl⟩ := ih hothers
    cases hdone
    refine ⟨fun hook hmem => ?_, rfl⟩
    rcases List.mem_cons.1 hmem with rfl | hmem
    · exact hget
    · exact hall hook hmem

/-- To resolve hooks is to look, whether or not all of them are found. -/
theorem hooksNamed_keeps (hR : RespectedExcept reserved R) (names : List String) :
    Keeps R (hooksNamed names) := by
  induction names with
  | nil => exact Keeps.pure hR.toIsPreorder _
  | cons name rest ih =>
    refine Keeps.bind hR.toIsPreorder (fun e => ?_) fun hook =>
      Keeps.bind hR.toIsPreorder ih fun others => Keeps.pure hR.toIsPreorder _
    rw [hookNamed_apply]
    exact hR.refl e

/-! ## Commits past the engine -/

/-- Nobody gets past an engine in memory. -/
theorem commitDirectly_memory {e : Engine} {s : MemoryStore} (memory : e.store = .memory s)
    (held : Instance) (state : String) (entry : HistoryEntry) :
    commitDirectly held state entry e = (.ok (), e) := by
  cases e
  cases memory
  rfl

/-- Who gets past an engine does to its store what the engine itself would have done. -/
theorem commitDirectly_cases (held : Instance) (state : String) (entry : HistoryEntry) (e : Engine) :
    (commitDirectly held state entry e).2 = e ∨
      (commitDirectly held state entry e).2 = (onStoreOf (Store.commit held state entry) e).2 := by
  cases hs : e.store with
  | memory s => exact .inl (congrArg Prod.snd (commitDirectly_memory hs held state entry))
  | database db =>
    have hstore : (Store.persist (Database.commit held state entry >>= fun _ => pure ()) e.store).2 =
        (Store.commit held state entry e.store).2 := by
      rw [hs]
      exact congrArg Store.database (congrArg Prod.snd (Operation.bind_pure_apply _ _ db))
    exact .inr (congrArg (fun store => { e with store }) hstore)

/-! ## Transitions -/

/-- To make an event takes an identifier and the time from the clock and touches nothing else. -/
theorem RespectedExcept.newEvent (hR : RespectedExcept reserved R) (name : String) (payload : Json)
    (trail : CascadeTrail) : Keeps R (newEvent name payload trail) :=
  Keeps.bind hR.toIsPreorder hR.newIdentifier fun _ =>
    Keeps.bind hR.toIsPreorder hR.now fun _ => Keeps.pure hR.toIsPreorder _

/-- A guard only looks at what it is given, so that asking it leaves a trace and counts a call. -/
theorem checkGuard_keeps (hR : RespectedExcept reserved R) (seen : HookContext) (name : String) :
    Keeps R (checkGuard seen name) := by
  refine Keeps.bind hR.toIsPreorder (Keeps.view hR.toIsPreorder _) fun found => ?_
  cases found with
  | none => exact Keeps.fail hR.toIsPreorder _
  | some guard =>
    refine Keeps.bind hR.toIsPreorder (fun e => hR.observe _ e (by simp)) fun _ => ?_
    refine Keeps.bind hR.toIsPreorder hR.nextCall fun n => ?_
    rcases guard n seen with reason | (_ | _)
    · exact Keeps.fail hR.toIsPreorder _
    · exact Keeps.fail hR.toIsPreorder _
    · exact Keeps.pure hR.toIsPreorder _

theorem checkGuards_keeps (hR : RespectedExcept reserved R) (seen : HookContext) (names : List String) :
    Keeps R (checkGuards seen names) :=
  Keeps.forEach hR.toIsPreorder (checkGuard_keeps hR seen) names

/-- A hook that was registered in an earlier state. -/
theorem runHook_keeps (hR : RespectedExcept reserved R) (hp : publish.Respects reserved R) {e e' : Engine}
    {name : String} {hook : Hook} (hh : e.hooks.get? name = some hook) (he : R e e')
    (seen : HookContext) : R e' (runHook publish seen name hook e').2 := by
  -- the hook was registered in the state `e`, and its commit has to refer back to it
  have later {α : Type} {x : Operation Engine α} {a b : Engine} {r : Except Failure α} (hx : Keeps R x)
      (ha : R e a) (h : x a = (r, b)) : R e b := by
    have hab := hx a
    rw [h] at hab
    exact hR.trans _ _ _ ha hab
  have hran : Keeps R (observe (.hookRan name seen)) := fun s => hR.observe _ s (by simp)
  refine bind_state hR.toIsPreorder (hran e') fun _ s hs => ?_
  refine bind_state hR.toIsPreorder (hR.nextCall s) fun n s₁ h₁ => ?_
  have hes₁ : R e s₁ := later hR.nextCall (later hran he hs) h₁
  cases heff : hook n seen with
  | nothing => exact hR.refl s₁
  | fail reason => exact hR.refl s₁
  | publish event payload =>
    exact Keeps.bind hR.toIsPreorder (hR.newEvent _ _ _)
      (fun y => Keeps.bind hR.toIsPreorder (hp.publishes y) fun _ => Keeps.pure hR.toIsPreorder _) s₁
  | commit state event =>
    refine bind_state hR.toIsPreorder ?_ fun r s₂ _ => ?_
    · rw [Operation.attempt_state]
      exact bind_state hR.toIsPreorder (hR.now s₁) fun time s₂ h₂ =>
        hR.bypass _ hh heff (later hR.now hes₁ h₂)
    · cases r <;> exact hR.refl s₂

/--
Hooks before the commit keep what publishing keeps: they were resolved together, before the first one
ran.
-/
theorem runBeforeHooks_keeps (hR : RespectedExcept reserved R) (hp : publish.Respects reserved R)
    (seen : HookContext) (names : List String) : Keeps R (runBeforeHooks publish seen names) := by
  intro e
  refine bind_state hR.toIsPreorder (hooksNamed_keeps hR names e) fun hooks s hs => ?_
  obtain ⟨hget, rfl⟩ := hooksNamed_ok hs
  refine forEach_state hR.toIsPreorder (fun hook hmem s' hs' => ?_) s (hR.refl s)
  refine bind_state hR.toIsPreorder (runHook_keeps hR hp (hget hook hmem) hs' seen) ?_
  intro failure s'' _
  cases failure <;> exact hR.refl s''

/-- A hook after the commit is looked up, and its failure is caught. -/
theorem runAfterHook_keeps (hR : RespectedExcept reserved R) (hp : publish.Respects reserved R)
    (seen : HookContext) (name : String) : Keeps R (runAfterHook publish seen name) := by
  intro e
  refine bind_state hR.toIsPreorder (Keeps.view hR.toIsPreorder _ e) fun found s hs => ?_
  obtain ⟨hh, rfl⟩ := Prod.mk.inj hs
  cases found with
  | none => exact hR.refl e
  | some hook =>
    refine bind_state hR.toIsPreorder (runHook_keeps hR hp (Except.ok.inj hh) (hR.refl e) seen) ?_
    exact fun _ s _ => hR.refl s

theorem runAfterHooks_keeps (hR : RespectedExcept reserved R) (hp : publish.Respects reserved R)
    (seen : HookContext) (names : List String) : Keeps R (runAfterHooks publish seen names) :=
  Keeps.forEach hR.toIsPreorder (runAfterHook_keeps hR hp seen) names

/-- The part of a transition that may still be refused. Its hooks run while the instance is reserved. -/
theorem advance_keeps (hR : RespectedExcept reserved R) (hp : publish.Respects reserved R)
    (workflow entityId event : String) (context : TransitionContext) :
    Keeps R (advance publish workflow entityId event context) := by
  intro e
  refine bind_state hR.toIsPreorder (by rw [lookup_apply]; exact hR.refl e) fun d s hd => ?_
  obtain ⟨hd, rfl⟩ := lookup_ok hd
  refine bind_state hR.toIsPreorder (by rw [reserve_apply]; exact hR.refl s) fun _ s' hreserve => ?_
  obtain ⟨free, rfl⟩ := reserve_ok hreserve
  refine bind_state hR.toIsPreorder (by rw [load_apply]; exact hR.refl s') fun i s hi => ?_
  obtain ⟨hi, rfl⟩ := load_ok hi
  refine bind_state hR.toIsPreorder (by rw [select_apply]; exact hR.refl s) fun t s' ht => ?_
  obtain ⟨selected, rfl⟩ := select_ok ht
  -- From here on the commit refers back to the state `s'`, in which everything was loaded.
  have hguards := checkGuards_keeps hR (contextOf i t event context) t.guards s'
  refine bind_state hR.toIsPreorder hguards fun _ s₁ h₁ => ?_
  rw [h₁] at hguards
  have hbefore := runBeforeHooks_keeps hR (hp.holding (workflow, entityId))
    (contextOf i t event context) t.beforeHooks s₁
  refine bind_state hR.toIsPreorder hbefore fun _ s₂ h₂ => ?_
  rw [h₂] at hbefore
  have hs₂ : R s' s₂ := hR.trans _ _ _ hguards hbefore
  have hcommit := hR.commit context (fun h => free (hp.held h)) hd hi selected hs₂
  exact bind_state hR.toIsPreorder hcommit fun _ s₃ _ => hR.refl s₃

/-- A transition up to the publication of its own event. -/
theorem settle_keeps (hR : RespectedExcept reserved R) (hp : publish.Respects reserved R)
    (workflow entityId event : String) (context : TransitionContext) :
    Keeps R (settle publish workflow entityId event context) :=
  Keeps.bind hR.toIsPreorder (advance_keeps hR hp workflow entityId event context) fun _ =>
    Keeps.bind hR.toIsPreorder (runAfterHooks_keeps hR hp _ _) fun _ =>
      Keeps.bind hR.toIsPreorder (hR.newEvent _ _ _) fun _ => Keeps.pure hR.toIsPreorder _

/-- A whole transition, with what its event sets off. -/
theorem transition_keeps (hR : RespectedExcept reserved R) (hp : publish.Respects reserved R)
    (workflow entityId event : String) (context : TransitionContext) :
    Keeps R (transition publish workflow entityId event context) :=
  Keeps.bind hR.toIsPreorder (settle_keeps hR hp workflow entityId event context) fun _ =>
    Keeps.bind hR.toIsPreorder (hp.publishes _) fun _ => Keeps.pure hR.toIsPreorder _

/-! ## Actions -/

/--
An action keeps what its kind of handler does: a transition, a publication, or an entry in the log.
-/
theorem runAction_keeps (hR : RespectedExcept reserved R) (hp : publish.Respects reserved R) (action : Action)
    (context : ActionContext) (handler : ActionHandler) :
    Keeps R (runAction publish action context handler) := by
  cases handler with
  | emitEvent =>
    show Keeps R (runEmitEvent publish action context)
    unfold runEmitEvent
    split
    · exact Keeps.pure hR.toIsPreorder _
    · exact Keeps.bind hR.toIsPreorder (hR.newEvent _ _ _) fun y =>
        Keeps.bind hR.toIsPreorder (hp.publishes y) fun _ => Keeps.pure hR.toIsPreorder _
  | log =>
    show Keeps R (runLog action context)
    unfold runLog
    dsimp only
    split
    · exact Keeps.bind hR.toIsPreorder (fun e => hR.observe _ e (by simp)) fun _ =>
        Keeps.pure hR.toIsPreorder _
    · exact Keeps.pure hR.toIsPreorder _
  | transition =>
    show Keeps R (runTransition publish action context)
    unfold runTransition
    split
    · exact Keeps.pure hR.toIsPreorder _
    · refine Keeps.bind hR.toIsPreorder (transition_keeps hR hp _ _ _ _).attempt fun r => ?_
      cases r <;> exact Keeps.pure hR.toIsPreorder _
  | custom run => exact Keeps.bind hR.toIsPreorder hR.nextCall fun _ => Keeps.pure hR.toIsPreorder _

/-- An action whose handler is looked up by its type. -/
theorem dispatch_keeps (hR : RespectedExcept reserved R) (hp : publish.Respects reserved R) (action : Action)
    (context : ActionContext) : Keeps R (dispatch publish action context) := by
  refine Keeps.bind hR.toIsPreorder (Keeps.view hR.toIsPreorder _) fun found => ?_
  cases found with
  | none => exact Keeps.fail hR.toIsPreorder _
  | some handler =>
    refine Keeps.bind hR.toIsPreorder (fun e => hR.observe _ e (by simp)) fun _ => ?_
    refine Keeps.bind hR.toIsPreorder (runAction_keeps hR hp action context handler) fun r => ?_
    cases r
    · exact Keeps.fail hR.toIsPreorder _
    · exact Keeps.pure hR.toIsPreorder _

/-! ## Cascades -/

/-- Actions one after the other, up to the first that fails. -/
theorem runActions_keeps (hR : RespectedExcept reserved R) (hp : publish.Respects reserved R)
    (context : ActionContext) (actions : List Action) :
    Keeps R (runActions publish context actions) := by
  induction actions with
  | nil => exact Keeps.pure hR.toIsPreorder _
  | cons action rest ih =>
    refine Keeps.bind hR.toIsPreorder (dispatch_keeps hR hp action context).attempt fun r => ?_
    cases r with
    | error e => exact Keeps.pure hR.toIsPreorder _
    | ok output => exact Keeps.bind hR.toIsPreorder ih fun _ => Keeps.pure hR.toIsPreorder _

theorem consider_keeps (hR : RespectedExcept reserved R) (hp : publish.Respects reserved R) (rule : Rule)
    (event : DomainEvent) : Keeps R (consider publish rule event) := by
  unfold consider evaluate
  split
  · exact Keeps.pure hR.toIsPreorder _
  · split
    · exact Keeps.pure hR.toIsPreorder _
    · split
      · exact Keeps.pure hR.toIsPreorder _
      · exact Keeps.bind hR.toIsPreorder (runActions_keeps hR hp _ _) fun _ =>
          Keeps.pure hR.toIsPreorder _

theorem considerAll_keeps (hR : RespectedExcept reserved R) (hp : publish.Respects reserved R) (mode : MatchMode)
    (event : DomainEvent) (rules : List Rule) :
    Keeps R (considerAll publish mode event rules) := by
  induction rules with
  | nil => exact Keeps.pure hR.toIsPreorder _
  | cons rule rest ih =>
    refine Keeps.bind hR.toIsPreorder (consider_keeps hR hp rule event) fun record => ?_
    refine Keeps.bind hR.toIsPreorder ?_ fun _ => ?_
    · exact Keeps.bind hR.toIsPreorder (hR.newEvent _ _ _) hp.publishes
    · split
      · exact Keeps.pure hR.toIsPreorder _
      · exact Keeps.bind hR.toIsPreorder ih fun _ => Keeps.pure hR.toIsPreorder _

theorem process_keeps (hR : RespectedExcept reserved R) (hp : publish.Respects reserved R) (event : DomainEvent) :
    Keeps R (process publish event) := by
  refine Keeps.bind hR.toIsPreorder (Keeps.view hR.toIsPreorder _) fun e => ?_
  split
  · exact Keeps.pure hR.toIsPreorder _
  · exact considerAll_keeps hR hp _ _ _

/-- The delivery to one subscriber, be it the rules or a listener. -/
theorem deliver_keeps (hR : RespectedExcept reserved R) (hp : publish.Respects reserved R) (event : DomainEvent)
    (subscriber : Subscriber) : Keeps R (deliver publish event subscriber) := by
  cases subscriber with
  | rules =>
    exact Keeps.bind hR.toIsPreorder (process_keeps hR hp event) fun _ =>
      Keeps.pure hR.toIsPreorder _
  | listener id => exact fun e => hR.observe _ e (by simp)

/-- A cascade keeps what its steps keep, publications included. -/
theorem publishFor_keeps (hR : RespectedExcept reserved R)
    (published : ∀ x e, R e (observe (.published x) e).2) (n : Nat) {held : List InstanceKey}
    (hheld : reserved ⊆ held) (x : DomainEvent) : Keeps R (publishFor n held x) := by
  induction n generalizing held x with
  | zero => exact Keeps.bind hR.toIsPreorder (published x) fun _ => Keeps.breakDown hR.toIsPreorder _
  | succ n ih =>
    refine Keeps.bind hR.toIsPreorder (published x) fun _ => ?_
    refine Keeps.bind hR.toIsPreorder (Keeps.view hR.toIsPreorder _) fun subscribers => ?_
    exact Keeps.forEach hR.toIsPreorder (deliver_keeps hR ⟨hheld, fun _ h => ih h⟩ x) subscribers

theorem publishWith_keeps (hR : RespectedExcept reserved R)
    (published : ∀ x e, R e (observe (.published x) e).2) {held : List InstanceKey}
    (hheld : reserved ⊆ held) (x : DomainEvent) : Keeps R (publishWith held x) :=
  Keeps.bind hR.toIsPreorder (Keeps.view hR.toIsPreorder _) fun _ =>
    publishFor_keeps hR published _ hheld x

section

variable (hR : Respected R) (published : ∀ x e, R e (observe (.published x) e).2)
include hR published

theorem publishWithin_respects (n : Nat) : (publishWithin n).Respects [] R :=
  .of_run fun _ => publishFor_keeps hR published n (List.nil_subset _)

theorem publish_respects : Engine.publish.Respects [] R :=
  .of_run fun _ => publishWith_keeps hR published (List.nil_subset _)

/-! ## What callers ask for -/

theorem fire_keeps (workflow entityId event : String) (context : TransitionContext) :
    Keeps R (fire workflow entityId event context) :=
  transition_keeps hR (publish_respects hR published) workflow entityId event context

theorem publishEvent_keeps (name : String) (payload : Json) (trail : CascadeTrail) :
    Keeps R (publishEvent name payload trail) :=
  Keeps.bind hR.toIsPreorder (hR.newEvent name payload trail) (publish_respects hR published).publishes

theorem processEvent_keeps (x : DomainEvent) : Keeps R (processEvent x) :=
  process_keeps hR (publish_respects hR published) x

theorem onEvent_keeps (name : String) (payload : Json) : Keeps R (onEvent name payload) :=
  Keeps.bind hR.toIsPreorder (hR.newEvent name payload .root) (processEvent_keeps hR published)

end

/-! ## The setup -/

/-- Two engines that differ in nothing but their stores, clocks, counts of calls and traces. -/
structure SameSetup (e e' : Engine) : Prop where
  config : e'.config = e.config
  registry : e'.registry = e.registry
  rules : e'.rules = e.rules
  guards : e'.guards = e.guards
  hooks : e'.hooks = e.hooks
  actions : e'.actions = e.actions
  subscribers : e'.subscribers = e.subscribers
  connected : e'.connected = e.connected

theorem SameSetup.rfl {e : Engine} : SameSetup e e :=
  ⟨.refl _, .refl _, .refl _, .refl _, .refl _, .refl _, .refl _, .refl _⟩

theorem SameSetup.trans {a b c : Engine} (h₁ : SameSetup a b) (h₂ : SameSetup b c) :
    SameSetup a c where
  config := h₂.config.trans h₁.config
  registry := h₂.registry.trans h₁.registry
  rules := h₂.rules.trans h₁.rules
  guards := h₂.guards.trans h₁.guards
  hooks := h₂.hooks.trans h₁.hooks
  actions := h₂.actions.trans h₁.actions
  subscribers := h₂.subscribers.trans h₁.subscribers
  connected := h₂.connected.trans h₁.connected

/-- Runs do not change what an engine is set up with. -/
theorem SameSetup.respected : Respected SameSetup where
  refl _ := SameSetup.rfl
  trans _ _ _ := SameSetup.trans
  observe _ _ _ := by constructor <;> rfl
  now _ := by constructor <;> rfl
  newIdentifier _ := by constructor <;> rfl
  nextCall _ := by constructor <;> rfl
  commit _ _ _ _ _ _ := by constructor <;> rfl
  bypass _ _ _ _ := by constructor <;> rfl

theorem observe_setup (o : Observation) (e : Engine) : SameSetup e (observe o e).2 := by
  constructor <;> rfl

theorem publish_setup : Engine.publish.Respects [] SameSetup :=
  publish_respects SameSetup.respected fun _ _ => observe_setup _ _

theorem publishWithin_setup (n : Nat) : (publishWithin n).Respects [] SameSetup :=
  publishWithin_respects SameSetup.respected (fun _ _ => observe_setup _ _) n

end WorkflowRules.Engine
