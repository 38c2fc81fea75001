import WorkflowRules.Proofs.Cascade.Termination
import WorkflowRules.Proofs.Engine.Checked
import WorkflowRules.Proofs.Engine.Settled

/-!
# Operations that look, and operations that fail

Some operations of an engine only look. All others are refused, if at all, before their first change:
the checks come first, and what comes after the first change cannot be refused. This is so for an
engine in memory, where nothing is stored in a second place, as long as the hooks before a commit do
not change anything either.

* `Engine.Untouched` — nothing has changed but the clock and the trace
* `Engine.Harmless` — hooks change nothing
* `Engine.canTransition_looks` and its like — what only looks
* `Engine.fire_restores`, `Engine.createInstance_restores` and their like — a refusal changes nothing

What a call breaks down by is a parameter. In memory nothing is unreadable; a transition may wait for
ever, and cascades may not end, but only where hooks publish.
-/

namespace WorkflowRules

open Operation (Survives Restores NeverRefused)

namespace Engine

/-- Definitions, rules, instances, histories and handlers are the same. -/
structure Untouched (e e' : Engine) : Prop where
  setup : SameSetup e e'
  store : e'.store = e.store

theorem Untouched.rfl {e : Engine} : Untouched e e := ⟨.rfl, .refl _⟩

theorem Untouched.trans {a b c : Engine} (hab : Untouched a b) (hbc : Untouched b c) :
    Untouched a c :=
  ⟨hab.setup.trans hbc.setup, hbc.store.trans hab.store⟩

/-- Whenever one of the hooks runs, it changes nothing, whatever instances are reserved meanwhile. -/
def Harmless (e : Engine) : Prop :=
  ∀ e', Untouched e e' → ∀ name hook, e.hooks.get? name = some hook →
    ∀ held seen, Untouched e' (runHook ⟨held, publishWith⟩ seen name hook e').2

/-- The engine keeps its instances in memory. -/
def InMemory (e : Engine) : Prop := ∃ s, e.store = .memory s

variable {e : Engine} {why : Breakdown}

theorem InMemory.untouched {e' : Engine} (h : InMemory e) (same : Untouched e e') : InMemory e' := by
  obtain ⟨s, hs⟩ := h
  exact ⟨s, same.store.trans hs⟩

theorem InMemory.readable (h : InMemory e) : e.Readable := by
  obtain ⟨s, hs⟩ := h
  rw [Readable, hs]
  trivial

/-! ## Looking -/

theorem now_looks : Survives why (Untouched e) now :=
  fun s hs => ⟨by simp [now], hs.setup.trans (SameSetup.respected.now s), hs.store⟩

theorem load_looks (memory : InMemory e) (key : InstanceKey) : Survives why (Untouched e) (load key) :=
  load_survives (fun _ hs _ => (memory.untouched hs).readable) key

/-- Guards are counted and traced, and what they are asked about stays as it is. -/
theorem checkGuards_looks (memory : InMemory e) (seen : HookContext) (names : List String) :
    Survives why (Untouched e) (checkGuards seen names) := by
  intro s hs
  have survives : Survives why (Bears why) (checkGuards seen names) := bears_handling.checkGuards seen names
  refine ⟨(survives s fun _ => (memory.untouched hs).readable).1, hs.trans ⟨?_, ?_⟩⟩
  · exact checkGuards_keeps SameSetup.respected seen names s
  · exact (checkGuards_idle seen names s).store

theorem checkTransition_looks (memory : InMemory e) (workflow entityId event : String)
    (context : TransitionContext) :
    Survives why (Untouched e) (checkTransition workflow entityId event context) := by
  refine (lookup_survives workflow).bind fun d => ?_
  refine (load_looks memory (workflow, entityId)).bind fun i => ?_
  exact (select_survives d i event).bind fun t => checkGuards_looks memory _ _

theorem canTransition_looks (memory : InMemory e) (workflow entityId event : String)
    (context : TransitionContext) :
    Survives why (Untouched e) (canTransition workflow entityId event context) := by
  refine (checkTransition_looks memory workflow entityId event context).attempt.bind fun r => ?_
  cases r <;> exact Survives.pure _

theorem availableTransitions_looks (memory : InMemory e) (workflow entityId : String) :
    Survives why (Untouched e) (availableTransitions workflow entityId) := by
  refine (lookup_survives workflow).bind fun d => ?_
  exact (load_looks memory (workflow, entityId)).bind fun i => Survives.pure _

/-- Whatever is asked of a store in memory can be read. -/
theorem viewStore_looks {α : Type} (memory : InMemory e) {f : Store → Except Failure α}
    (hf : ∀ s, f (.memory s) ≠ .error (.breakdown why)) :
    Survives why (Untouched e) (.viewExcept fun e => f e.store) := by
  refine Survives.viewExcept fun s hs => ?_
  obtain ⟨m, hm⟩ := memory.untouched hs
  rw [hm]
  exact hf m

theorem getInstance_looks (memory : InMemory e) (workflow entityId : String) :
    Survives why (Untouched e) (getInstance workflow entityId) :=
  viewStore_looks memory fun s => by simp [Store.get?]

theorem getHistory_looks (memory : InMemory e) (workflow entityId : String) :
    Survives why (Untouched e) (getHistory workflow entityId) :=
  viewStore_looks memory fun s => by simp [Store.history?]

theorem listInstances_looks (memory : InMemory e) (workflow : String) :
    Survives why (Untouched e) (listInstances workflow) :=
  (lookup_survives workflow).bind fun _ => viewStore_looks memory fun s => by simp [Store.list]

/-! ## Management -/

/-- There is nothing to store. -/
theorem persist_memory (memory : InMemory e) (x : Operation Database Unit) :
    persist x e = (.ok (), e) := by
  obtain ⟨s, hs⟩ := memory
  show ((Store.persist x e.store).1, { e with store := (Store.persist x e.store).2 }) = _
  rw [hs]
  show (Except.ok (), { e with store := .memory s }) = _
  rw [← hs]

theorem persist_looks (memory : InMemory e) (x : Operation Database Unit) :
    Survives why (Untouched e) (persist x) := by
  intro s hs
  rw [persist_memory (memory.untouched hs)]
  exact ⟨by simp, hs⟩

/-- A definition that is refused leaves everything as it was. -/
theorem defineWorkflow_restores (memory : InMemory e) (d : Definition) :
    Restores why (Untouched e) (defineWorkflow d) := by
  have hcheck : Survives why (Untouched e) (checkDefinition d) := by
    refine (Survives.view _).bind fun strict => ?_
    cases d.problem? strict with
    | none => exact Survives.pure _
    | some p => exact Survives.fail _
  exact Restores.after hcheck fun _ =>
    Restores.after (persist_looks memory _) fun _ => Restores.of_isOk fun _ _ => rfl

/-- A rule that is refused leaves everything as it was. -/
theorem createRule_restores (memory : InMemory e) (r : Rule) :
    Restores why (Untouched e) (createRule r) := by
  have hcheck : Survives why (Untouched e) (checkRule r) := by
    refine (Survives.view _).bind fun e => ?_
    dsimp only
    split
    · exact Survives.pure _
    · exact Survives.fail _
  exact Restores.after hcheck fun _ =>
    Restores.after (persist_looks memory _) fun _ => Restores.of_isOk fun _ _ => rfl

/-- A rule that is not found cannot be switched, and everything stays as it was. -/
theorem setEnabled_restores (memory : InMemory e) (name : String) (enabled : Bool) :
    Restores why (Untouched e) (setEnabled name enabled) := by
  intro s hs
  rw [setEnabled]
  cases found : s.rules.byName.get? name with
  | none =>
    rw [Operation.bind_error _ (switchRule_missing found enabled)]
    exact ⟨by simp, fun _ _ => hs⟩
  | some r =>
    obtain ⟨m, hm⟩ := memory.untouched hs
    have hmemory : InMemory { s with rules := s.rules.setEnabled name enabled } := ⟨m, hm⟩
    rw [Operation.bind_ok _ (switchRule_found found enabled),
      Operation.bind_ok _ (persist_memory hmemory _)]
    exact ⟨by simp, fun _ hf => by cases hf⟩

/-- A removal that has nothing to remove, and only that, is refused. -/
theorem removal_restores {x : Operation Engine Bool} (what : AutomationError)
    (hx : ∀ s, Untouched e s → x s = (.ok false, s) ∨ ∃ s', x s = (.ok true, s')) :
    Restores why (Untouched e) (do if ← x then return () else .fail what : Operation Engine Unit) := by
  intro s hs
  rcases hx s hs with hmissing | ⟨s', hremoved⟩
  · rw [Operation.bind_ok _ hmissing]
    exact ⟨by simp, fun _ _ => hs⟩
  · rw [Operation.bind_ok _ hremoved]
    exact ⟨by simp, fun _ hf => by cases hf⟩

/--
Either there was nothing to remove and nothing has changed, or the answer says that something was
removed.
-/
theorem removeWorkflow_cases (memory : InMemory e) (name : String) :
    removeWorkflow name e = (.ok false, e) ∨ ∃ e', removeWorkflow name e = (.ok true, e') := by
  rw [removeWorkflow, Operation.bind_ok _ (persist_memory memory _), forgetDefinition]
  cases hd : e.registry.get? name with
  | none =>
    rw [Keyed.contains_eq_false hd, Keyed.erase_of_missing hd]
    exact .inl rfl
  | some d =>
    rw [Keyed.contains_eq_true hd]
    exact .inr ⟨_, rfl⟩

/--
Either there was nothing to remove and nothing has changed, or the answer says that something was
removed.
-/
theorem removeRule_cases (memory : InMemory e) (name : String) :
    removeRule name e = (.ok false, e) ∨ ∃ e', removeRule name e = (.ok true, e') := by
  rw [removeRule, Operation.bind_ok _ (persist_memory memory _), dropRule]
  cases hr : e.rules.byName.get? name with
  | none =>
    rw [Keyed.contains_eq_false hr, RuleTable.remove_missing hr]
    exact .inl rfl
  | some r =>
    rw [Keyed.contains_eq_true hr]
    exact .inr ⟨_, rfl⟩

/-! ## Instances -/

/--
An operation on the store that changes nothing when it fails leaves an engine in memory alone when it
fails.
-/
theorem onStoreOf_restores {α : Type} (memory : InMemory e) {m : Operation MemoryStore α}
    (d : Operation Database α) (hm : ∀ s, Restores why (· = s) m) :
    Restores why (Untouched e) (onStoreOf (Store.onEither m d)) := by
  intro s hs
  obtain ⟨t, ht⟩ := memory.untouched hs
  have hrun : onStoreOf (Store.onEither m d) s = ((m t).1, { s with store := .memory (m t).2 }) := by
    show ((Store.onEither m d s.store).1, { s with store := (Store.onEither m d s.store).2 }) = _
    rw [ht]
    rfl
  obtain ⟨unbroken, hrefused⟩ := hm t t rfl
  rw [hrun]
  refine ⟨unbroken, fun f hf => ?_⟩
  dsimp only
  rw [hrefused f hf, ← ht]
  exact hs

/-- A creation that is refused leaves everything as it was. -/
theorem createInstance_restores (memory : InMemory e) (workflow entityId : String) (data : Json)
    (actorId : Option String) :
    Restores why (Untouched e) (createInstance workflow entityId data actorId) := by
  refine Restores.after (lookup_survives workflow) fun d => Restores.after now_looks fun time => ?_
  refine onStoreOf_restores memory _ fun s t ht => ?_
  subst ht
  cases hfound : t.instances.get? (d.name, entityId) with
  | some stored =>
    rw [MemoryStore.create_taken hfound]
    exact ⟨by simp, fun _ _ => rfl⟩
  | none =>
    rw [MemoryStore.create_new hfound]
    exact ⟨by simp, fun _ hf => by cases hf⟩

/-- A commit that is refused leaves everything as it was. -/
theorem commit_restores (memory : InMemory e) (seen : HookContext) :
    Restores why (Untouched e) (commit seen) := by
  refine Restores.after now_looks fun time => ?_
  refine onStoreOf_restores memory _ fun s t ht => ?_
  subst ht
  cases hfound : t.instances.get? seen.subject.key with
  | none =>
    rw [MemoryStore.commit_missing hfound]
    exact ⟨by simp, fun _ _ => rfl⟩
  | some stored =>
    by_cases hversion : stored.current.version = seen.subject.version
    · rw [MemoryStore.commit_held hfound hversion]
      exact ⟨by simp, fun _ hf => by cases hf⟩
    · rw [MemoryStore.commit_stale hfound hversion]
      exact ⟨by simp, fun _ _ => rfl⟩

/-! ## Transitions -/

/-- Harmless hooks before the commit leave everything alone, whatever the reservations. -/
theorem runBeforeHooks_looks (memory : InMemory e) (harmless : Harmless e) (held : List InstanceKey)
    (seen : HookContext) (names : List String) :
    Survives .unreadable (Untouched e) (runBeforeHooks ⟨held, publishWith⟩ seen names) := by
  intro s hs
  have readable := (memory.untouched hs).readable
  have steps := readable_stepClosed.transitions
  have published : Publish.Related (fun _ x _ => Survives .unreadable (Bears .unreadable) x)
      ⟨held, publishWith⟩ ⟨held, publishWith⟩ := ⟨rfl, readable_stepClosed.publish.run⟩
  refine ⟨(steps.runBeforeHooks published seen names s fun _ => readable).1, ?_⟩
  have hR : IsPreorder Engine Untouched := { refl := fun _ => .rfl, trans := fun _ _ _ => .trans }
  have hlooked : Survives .unreadable (Untouched s) (hooksNamed names) := hooksNamed_survives names
  refine hs.trans (Operation.bind_state hR (hlooked s .rfl).2 fun hooks s' hhooks => ?_)
  obtain ⟨hget, rfl⟩ := hooksNamed_ok hhooks
  refine Operation.forEach_state hR (fun hook hmem t ht => ?_) s' .rfl
  -- the hook was found in a state with the hooks of `e`
  have hrun := harmless t (hs.trans ht) hook.1 hook.2 (hs.setup.hooks ▸ hget hook hmem) held seen
  refine Operation.bind_state hR hrun fun failure t' _ => ?_
  cases failure <;> exact .rfl

/-- A refusal before the commit, or of the commit itself, changes nothing. -/
theorem advance_restores (memory : InMemory e) (harmless : Harmless e)
    (workflow entityId event : String) (context : TransitionContext) :
    Restores .unreadable (Untouched e) (advance publish workflow entityId event context) := by
  refine Restores.after (lookup_survives workflow) fun d => ?_
  refine Restores.after (reserve_survives (fun _ => rfl) _) fun _ => ?_
  refine Restores.after (load_looks memory (workflow, entityId)) fun i => ?_
  refine Restores.after (select_survives d i event) fun t => ?_
  refine Restores.after (checkGuards_looks memory _ _) fun _ => ?_
  refine Restores.after (runBeforeHooks_looks memory harmless [(workflow, entityId)] _ _) fun _ => ?_
  exact (commit_restores memory _).andThen fun _ _ => rfl

/-- What a hook says is an answer, its failure included; running it is never refused. -/
theorem runHook_neverRefused (held : List InstanceKey) (seen : HookContext) (name : String)
    (hook : Hook) : NeverRefused (runHook ⟨held, publishWith⟩ seen name hook) := by
  refine NeverRefused.bind (NeverRefused.change _) fun _ => ?_
  refine NeverRefused.bind nextCall_neverRefused fun n => ?_
  cases hook n seen with
  | nothing => exact NeverRefused.pure _
  | fail reason => exact NeverRefused.pure _
  | publish event payload =>
    exact NeverRefused.bind (newEvent_neverRefused _ _ _) fun y =>
      NeverRefused.bind (publishWith_neverRefused held y) fun _ => NeverRefused.pure _
  | commit state event =>
    refine NeverRefused.bind (NeverRefused.attempt _) fun r => ?_
    cases r <;> exact NeverRefused.pure _

/-- Hooks after the commit do not take a transition back. -/
theorem runAfterHooks_neverRefused (seen : HookContext) (names : List String) :
    NeverRefused (runAfterHooks publish seen names) := by
  refine NeverRefused.forEach (fun name => ?_) names
  refine NeverRefused.bind (NeverRefused.view _) fun found => ?_
  cases found with
  | none => exact NeverRefused.pure _
  | some hook =>
    exact NeverRefused.bind (runHook_neverRefused [] seen name hook) fun _ => NeverRefused.pure _

/-- What comes after the commit of a transition is not refused. -/
theorem fire_advanced {e' : Engine} {workflow entityId event : String}
    {context : TransitionContext} {seen : HookContext} {afterHooks : List String}
    (h : advance publish workflow entityId event context e = (.ok (seen, afterHooks), e')) :
    (∃ last, fire workflow entityId event context e = (.ok seen.subject, last)) ∨
      ∃ why last, fire workflow entityId event context e = (.error (.breakdown why), last) := by
  let rest : Operation Engine Unit := do
    runAfterHooks publish seen afterHooks
    publish (← newEvent (workflowEventName workflow seen.subject.state) (enteredPayload seen) context.trail)
  have accepted : NeverRefused rest :=
    NeverRefused.bind (runAfterHooks_neverRefused seen afterHooks) fun _ =>
      NeverRefused.bind (newEvent_neverRefused _ _ _) publish_neverRefused
  have hfire : fire workflow entityId event context e = (rest >>= fun _ => pure seen.subject) e' := by
    simp only [fire, transition, settle, rest, bind_assoc, pure_bind]
    rw [Operation.bind_ok _ h]
  rcases hrest : rest e' with ⟨f | _, last⟩
  · obtain ⟨why, rfl⟩ := accepted.breaksDown hrest
    exact .inr ⟨why, last, hfire.trans (Operation.bind_error _ hrest)⟩
  · exact .inl ⟨last, hfire.trans (Operation.bind_ok _ hrest)⟩

/-- In memory a transition meets nothing that is unreadable. It does not end only if a hook publishes. -/
theorem fire_unbroken (memory : InMemory e) (harmed : why = .unreadable ∨ Quiet e)
    (workflow entityId event : String) (context : TransitionContext) :
    (fire workflow entityId event context e).1 ≠ .error (.breakdown why) := by
  rcases harmed with rfl | quiet
  · exact (readable_stepClosed.fire workflow entityId event context e fun _ => memory.readable).1
  · exact fire_ne_breakdown memory.readable quiet workflow entityId event context why

/-- A transition that is refused leaves everything as it was. -/
theorem fire_restores (memory : InMemory e) (harmless : Harmless e)
    (harmed : why = .unreadable ∨ Quiet e) (workflow entityId event : String)
    (context : TransitionContext) :
    Restores why (Untouched e) (fire workflow entityId event context) := by
  intro s hs
  have restored := advance_restores memory harmless workflow entityId event context s hs
  refine ⟨fire_unbroken (memory.untouched hs) (harmed.imp_right (.of_setup hs.setup)) _ _ _ _,
    fun reason refused => ?_⟩
  rcases hadvance : advance publish workflow entityId event context s with ⟨f | ⟨seen, afterHooks⟩, s'⟩
  · rw [hadvance] at restored
    rw [fire_of_advance hadvance] at refused ⊢
    exact restored.2 reason (congrArg Except.error (Except.error.inj refused))
  · rcases fire_advanced hadvance with ⟨last, hfire⟩ | ⟨why, last, hfire⟩ <;>
      cases (congrArg Prod.fst hfire).symm.trans refused

/-- The consideration of the rules that an event triggers is never refused. -/
theorem onEvent_restores (memory : InMemory e) (harmed : why = .unreadable ∨ Quiet e) (name : String)
    (payload : Json) : Restores why (Untouched e) (onEvent name payload) := by
  intro s hs
  have accepted : NeverRefused (onEvent name payload) :=
    NeverRefused.bind (newEvent_neverRefused _ _ _) processEvent_neverRefused
  refine ⟨?_, fun reason refused => absurd refused (accepted s reason)⟩
  obtain ⟨y, made, hy⟩ := exists_newEvent name payload .root s
  have readable : made.Readable := by
    have bears := (readable_stepClosed.transitions.newEvent name payload .root s
      fun _ => (memory.untouched hs).readable).2
    rw [hy] at bears
    exact bears rfl
  rw [onEvent, Operation.bind_ok _ hy]
  rcases harmed with rfl | quiet
  · exact (readable_stepClosed.processEvent y made fun _ => readable).1
  · have setup := hs.setup.trans (newEvent_setup hy)
    obtain ⟨records, last, hlast⟩ := processEvent_succeeds (quiet.of_setup setup) readable y
    rw [hlast]
    simp

end Engine

end WorkflowRules
