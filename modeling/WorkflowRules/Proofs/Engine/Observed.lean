import WorkflowRules.Proofs.Cascade.Published

/-!
# Operations that are only observed

Up to its commit a transition changes nothing but the trace and the number of calls, provided that its
hooks leave the engine alone. What is put on the trace, and how it ends, can be told from the engine at
the start.

A handler is told the number of its call, and so its answer is that of the engine in which its turn
comes: the one after the calls of the handlers before it.

* `Engine.watched` — an engine after some observations
* `Engine.Observed` — how an operation ends and what it puts on the trace, when it does nothing else
* `Engine.EachInTurn` — what each of several handlers does when its turn comes
* `Observed.forEach` — a loop of such operations goes on until the first one that fails
* `Engine.checkGuards_observed`, `Engine.runBeforeHooks_observed`, `Engine.runAfterHooks_observed` —
  the calls of handlers
* `Engine.publish_observed` — publishing an event that triggers no rule
-/

namespace WorkflowRules

/-- Whether the observation is the call of a handler that is told the number of its call. -/
def Observation.isCall : Observation → Bool
  | .guardAsked .. | .hookRan .. => true
  | .actionRan builtIn .. => !builtIn
  | _ => false

/-- The hook leaves the engine alone; it fails or it does not. -/
def Hook.Inert (hook : Hook) : Prop :=
  ∀ n seen, hook n seen = .nothing ∨ ∃ reason, hook n seen = .fail reason

namespace Engine

variable {α β : Type} {e : Engine}

/-- The engine after some observations, which are given oldest first. -/
def watched (e : Engine) (os : List Observation) : Engine :=
  { e with trace := os.reverse ++ e.trace, called := e.called + os.countP (·.isCall) }

@[simp] theorem watched_nil (e : Engine) : e.watched [] = e := rfl

theorem watched_watched (e : Engine) (os new : List Observation) :
    (e.watched os).watched new = e.watched (os ++ new) := by
  simp [watched, Nat.add_assoc]

/-- From this engine the operation ends so, and all that it does is to add these observations. -/
def Observed (e : Engine) (x : Operation Engine α) (r : Except AutomationError α)
    (calls : List Observation) : Prop :=
  x e = (r.mapError Failure.error, e.watched calls)

/-- Each of them does so when its turn comes, after the calls of those before it. -/
def EachInTurn (does : Engine → α → Prop) (call : α → Observation) (e : Engine) (as : List α) : Prop :=
  ∀ before a after, as = before ++ a :: after → does (e.watched (before.map call)) a

namespace EachInTurn

variable {does : Engine → α → Prop} {call : α → Observation} {a : α} {as : List α}

theorem nil : EachInTurn does call e [] := fun before _ _ h => by cases before <;> cases h

/-- The first step is taken from the start, and the others from what it leaves. -/
theorem cons (first : does e a) (others : EachInTurn does call (e.watched [call a]) as) :
    EachInTurn does call e (a :: as) := by
  rintro (_ | ⟨b, before⟩) c after h
  · obtain ⟨rfl, -⟩ := List.cons.inj h
    exact first
  · obtain ⟨rfl, hrest⟩ := List.cons.inj h
    have later := others before c after hrest
    rwa [watched_watched] at later

/-- The same said of what stands for them, when it makes the same calls. -/
theorem map {does' : Engine → β → Prop} {call' : β → Observation} {g : α → β}
    (h : EachInTurn does call e as) (same : ∀ a ∈ as, call' (g a) = call a)
    (means : ∀ os, ∀ a ∈ as, does (e.watched os) a → does' (e.watched os) (g a)) :
    EachInTurn does' call' e (as.map g) := by
  intro before b after split
  obtain ⟨as₁, as₂, rfl, rfl, htail⟩ := List.map_eq_append_iff.1 split
  obtain ⟨a, as₃, rfl, rfl, rfl⟩ := List.map_eq_cons_iff.1 htail
  have calls : (as₁.map g).map call' = as₁.map call := by
    rw [List.map_map]
    exact List.map_congr_left fun a ha => same a (List.mem_append_left _ ha)
  rw [calls]
  exact means _ a (by simp) (h as₁ a as₃ rfl)

end EachInTurn

namespace Observed

variable {x : Operation Engine α} {r : Except AutomationError α} {calls : List Observation}

theorem pure (a : α) : Observed e (Pure.pure a) (.ok a) [] := rfl

theorem fail (reason : AutomationError) :
    Observed e (.fail reason : Operation Engine α) (.error reason) [] := rfl

theorem view (f : Engine → α) : Observed e (.view f) (.ok (f e)) [] := rfl

theorem observe {o : Observation} (uncalled : o.isCall = false) : Observed e (observe o) (.ok ()) [o] := by
  simp only [Observed, watched, List.countP_singleton, uncalled]
  rfl

theorem bind {f : α → Operation Engine β} {a : α} {s : Except AutomationError β}
    {more : List Observation} (hx : Observed e x (.ok a) calls)
    (hf : Observed (e.watched calls) (f a) s more) : Observed e (x >>= f) s (calls ++ more) := by
  rw [Observed, Operation.bind_ok f hx, hf, watched_watched]

theorem bind_error {f : α → Operation Engine β} {reason : AutomationError}
    (hx : Observed e x (.error reason) calls) : Observed e (x >>= f) (.error reason) calls :=
  Operation.bind_error f hx

/-- The call of a handler is put on the trace, and then the handler is told its number. -/
theorem called {o : Observation} (call : o.isCall = true) {f : Nat → Operation Engine β}
    {s : Except AutomationError β} {more : List Observation}
    (hf : Observed (e.watched [o]) (f e.called) s more) :
    Observed e (do Engine.observe o; f (← nextCall)) s (o :: more) := by
  have numbered : e.watched [o] = { e with trace := o :: e.trace, called := e.called + 1 } := by
    simp only [watched, List.countP_singleton, call]
    rfl
  have run : f e.called (e.watched [o]) = _ := hf
  rw [watched_watched] at run
  rw [Observed, ← List.singleton_append, ← run, numbered]
  rfl

/--
Of a loop whose rounds pass or are blocked, either all rounds pass, or the rounds are those up to the
first that is blocked.
-/
theorem forEach (passes : Engine → α → Prop)
    (blocked : Engine → α → AutomationError → List Observation → Prop) {f : α → Operation Engine Unit}
    {call : α → Observation} {as : List α}
    (rounds : ∀ os, ∀ a ∈ as,
      (passes (e.watched os) a ∧ Observed (e.watched os) (f a) (.ok ()) [call a]) ∨
        ∃ reason calls, blocked (e.watched os) a reason calls ∧
          Observed (e.watched os) (f a) (.error reason) calls) :
    (EachInTurn passes call e as ∧ Observed e (.forEach f as) (.ok ()) (as.map call)) ∨
      ∃ before a after reason calls, as = before ++ a :: after ∧ EachInTurn passes call e before ∧
        blocked (e.watched (before.map call)) a reason calls ∧
        Observed e (.forEach f as) (.error reason) (before.map call ++ calls) := by
  induction as generalizing e with
  | nil => exact .inl ⟨.nil, pure ()⟩
  | cons a rest ih =>
    rcases rounds [] a List.mem_cons_self with ⟨ha, first⟩ | ⟨reason, calls, ha, first⟩
    · have later : ∀ os, ∀ b ∈ rest, _ := fun os b hb => by
        have round := rounds ([call a] ++ os) b (List.mem_cons_of_mem _ hb)
        rw [← watched_watched] at round
        exact round
      rcases ih later with ⟨all, others⟩ | ⟨before, b, after, reason, calls, rfl, some, hb, others⟩
      · exact .inl ⟨.cons ha all, first.bind others⟩
      · rw [watched_watched] at hb
        exact .inr ⟨a :: before, b, after, reason, calls, rfl, .cons ha some, hb, first.bind others⟩
    · exact .inr ⟨[], a, rest, reason, calls, rfl, .nil, ha, first.bind_error⟩

/-- A loop none of whose rounds is blocked. -/
theorem forEach_ok {f : α → Operation Engine Unit} {call? : α → Option Observation} {as : List α}
    (rounds : ∀ os, ∀ a ∈ as, Observed (e.watched os) (f a) (.ok ()) (call? a).toList) :
    Observed e (.forEach f as) (.ok ()) (as.filterMap call?) := by
  induction as generalizing e with
  | nil => exact pure ()
  | cons a rest ih =>
    have later : ∀ os, ∀ b ∈ rest, _ := fun os b hb => by
      have round := rounds ((call? a).toList ++ os) b (List.mem_cons_of_mem _ hb)
      rw [← watched_watched] at round
      exact round
    have h := (rounds [] a List.mem_cons_self).bind (f := fun _ => Operation.forEach f rest) (ih later)
    rw [List.filterMap_cons]
    cases ha : call? a <;> rw [ha] at h <;> exact h

end Observed

/-! ## Guards -/

/-- The guard is registered and agrees. -/
def Agrees (e : Engine) (seen : HookContext) (name : String) : Prop :=
  ∃ guard, e.guards.get? name = some guard ∧ guard e.called seen = .ok true

/-- All of these guards agree, each when its turn comes. -/
def AllAgree (e : Engine) (seen : HookContext) (names : List String) : Prop :=
  EachInTurn (Agrees · seen) (.guardAsked · seen) e names

/-- Why a guard stands in the way, and whether it was called. -/
inductive Objects (e : Engine) (seen : HookContext) (name : String) :
    AutomationError → List Observation → Prop
  | unknown (missing : e.guards.get? name = none) :
      Objects e seen name (.definition ("guard '" ++ name ++ "' is not registered")) []
  | rejects {guard : Guard} (registered : e.guards.get? name = some guard)
      (answer : guard e.called seen = .ok false) :
      Objects e seen name (.guardRejected name ("guard returned false for '" ++ seen.event ++ "'"))
        [.guardAsked name seen]
  | fails {guard : Guard} {reason : String} (registered : e.guards.get? name = some guard)
      (answer : guard e.called seen = .error reason) :
      Objects e seen name (.guardRejected name reason) [.guardAsked name seen]

theorem guard_look (name : String) : Observed e (.view fun e : Engine => e.guards.get? name)
    (.ok (e.guards.get? name)) [] := .view _

/-- A guard that agrees is called, and nothing else happens. -/
theorem checkGuard_agrees {seen : HookContext} {name : String} (h : Agrees e seen name) :
    Observed e (checkGuard seen name) (.ok ()) [.guardAsked name seen] := by
  obtain ⟨guard, registered, answer⟩ := h
  have look := guard_look (e := e) name
  rw [registered] at look
  refine look.bind (.called rfl ?_)
  rw [watched_nil, answer]
  exact .pure _

/-- A guard that stands in the way is called, unless it is missing, and nothing else happens. -/
theorem checkGuard_objects {seen : HookContext} {name : String} {reason : AutomationError}
    {calls : List Observation} (h : Objects e seen name reason calls) :
    Observed e (checkGuard seen name) (.error reason) calls := by
  have look := guard_look (e := e) name
  cases h with
  | unknown missing =>
    rw [missing] at look
    exact look.bind (.fail _)
  | rejects registered answer | fails registered answer =>
    rw [registered] at look
    refine look.bind (.called rfl ?_)
    rw [watched_nil, answer]
    exact .fail _

/-- A guard that is asked agrees or objects, be it for not being registered. -/
theorem agrees_or_objects (e : Engine) (seen : HookContext) (name : String) :
    Agrees e seen name ∨ ∃ reason calls, Objects e seen name reason calls := by
  cases registered : e.guards.get? name with
  | none => exact .inr ⟨_, _, .unknown registered⟩
  | some guard =>
    rcases answer : guard e.called seen with reason | (_ | _)
    · exact .inr ⟨_, _, .fails registered answer⟩
    · exact .inr ⟨_, _, .rejects registered answer⟩
    · exact .inl ⟨guard, registered, answer⟩

/-- Guards are asked in their order, until one does not agree. -/
theorem checkGuards_observed (e : Engine) (seen : HookContext) (names : List String) :
    (AllAgree e seen names ∧
        Observed e (checkGuards seen names) (.ok ()) (names.map (.guardAsked · seen))) ∨
      ∃ before name after reason calls, names = before ++ name :: after ∧ AllAgree e seen before ∧
        Objects (e.watched (before.map (.guardAsked · seen))) seen name reason calls ∧
        Observed e (checkGuards seen names) (.error reason)
          (before.map (.guardAsked · seen) ++ calls) :=
  Observed.forEach (Agrees · seen) (Objects · seen) fun os name _ =>
    (agrees_or_objects (e.watched os) seen name).imp (fun h => ⟨h, checkGuard_agrees h⟩)
      fun ⟨reason, calls, h⟩ => ⟨reason, calls, h, checkGuard_objects h⟩

/-! ## Hooks -/

/-- The hook is registered and does not fail. -/
def Complies (e : Engine) (seen : HookContext) (name : String) : Prop :=
  ∃ hook, e.hooks.get? name = some hook ∧ hook e.called seen = .nothing

/-- None of these hooks fails, each of them being run when its turn comes. -/
def AllComply (e : Engine) (seen : HookContext) (names : List String) : Prop :=
  EachInTurn (Complies · seen) (.hookRan · seen) e names

/-- A hook without effect is observed to run. -/
theorem runHook_nothing {hook : Hook} {seen : HookContext} (effect : hook e.called seen = .nothing)
    (publish : Publish) (name : String) :
    Observed e (runHook publish seen name hook) (.ok none) [.hookRan name seen] := by
  refine .called rfl ?_
  rw [effect]
  exact .pure _

theorem runHook_fail {hook : Hook} {seen : HookContext} {reason : String}
    (effect : hook e.called seen = .fail reason) (publish : Publish) (name : String) :
    Observed e (runHook publish seen name hook) (.ok (some reason)) [.hookRan name seen] := by
  refine .called rfl ?_
  rw [effect]
  exact .pure _

theorem hookNamed_some {name : String} {hook : Hook} (registered : e.hooks.get? name = some hook) :
    Observed e (hookNamed name) (.ok hook) [] := by
  have look : Observed e (.view fun e : Engine => e.hooks.get? name)
      (.ok (e.hooks.get? name)) [] := .view _
  rw [registered] at look
  exact look.bind (.pure hook)

/-- A hook that is not registered is named in the refusal, and not run. -/
theorem hookNamed_none {name : String} (missing : e.hooks.get? name = none) :
    Observed e (hookNamed name)
      (.error (.definition ("hook '" ++ name ++ "' is not registered"))) [] := by
  have look : Observed e (.view fun e : Engine => e.hooks.get? name)
      (.ok (e.hooks.get? name)) [] := .view _
  rw [missing] at look
  exact look.bind (.fail _)

/-- Hooks before the commit are looked up all at once; the first that is missing is reported. -/
theorem hooksNamed_observed (e : Engine) (names : List String) :
    (∃ hooks, hooks.map Prod.fst = names ∧ (∀ hook ∈ hooks, e.hooks.get? hook.1 = some hook.2) ∧
        Observed e (hooksNamed names) (.ok hooks) []) ∨
      ∃ before name after, names = before ++ name :: after ∧
        (∀ h ∈ before, e.hooks.contains h = true) ∧ e.hooks.get? name = none ∧
        Observed e (hooksNamed names)
          (.error (.definition ("hook '" ++ name ++ "' is not registered"))) [] := by
  induction names with
  | nil => exact .inl ⟨[], rfl, by simp, .pure _⟩
  | cons name rest ih =>
    cases hname : e.hooks.get? name with
    | none => exact .inr ⟨[], name, rest, rfl, by simp, hname, (hookNamed_none hname).bind_error⟩
    | some hook =>
      have known : e.hooks.contains name = true := by rw [Keyed.contains, hname]; rfl
      rcases ih with ⟨hooks, rfl, all, others⟩ | ⟨before, other, after, rfl, all, missing, others⟩
      · exact .inl ⟨(name, hook) :: hooks, rfl, List.forall_mem_cons.2 ⟨hname, all⟩,
          (hookNamed_some hname).bind (others.bind (.pure _))⟩
      · exact .inr ⟨name :: before, other, after, rfl, List.forall_mem_cons.2 ⟨known, all⟩, missing,
          (hookNamed_some hname).bind others.bind_error⟩

/-- No registered hook does anything to the engine. -/
def InertHooks (e : Engine) : Prop := ∀ name hook, e.hooks.get? name = some hook → hook.Inert

section Inert

variable (inert : InertHooks e)

include inert

/-- A hook before the commit complies, or it fails and the transition with it. -/
theorem runBeforeHook_observed (publish : Publish) (seen : HookContext) {hook : String × Hook}
    (registered : e.hooks.get? hook.1 = some hook.2) :
    (hook.2 e.called seen = .nothing ∧
        Observed e (runBeforeHook publish seen hook) (.ok ()) [.hookRan hook.1 seen]) ∨
      ∃ reason calls, (∃ text, hook.2 e.called seen = .fail text ∧ reason = .hookFailed hook.1 text ∧
          calls = [.hookRan hook.1 seen]) ∧
        Observed e (runBeforeHook publish seen hook) (.error reason) calls := by
  rcases inert hook.1 hook.2 registered e.called seen with effect | ⟨text, effect⟩
  · exact .inl ⟨effect, (runHook_nothing effect publish hook.1).bind (.pure ())⟩
  · exact .inr ⟨_, _, ⟨text, effect, rfl, rfl⟩, (runHook_fail effect publish hook.1).bind (.fail _)⟩

/-- Hooks before the commit run in their order until one fails, unless one of them is missing. -/
theorem runBeforeHooks_observed (publish : Publish) (seen : HookContext) (names : List String) :
    (AllComply e seen names ∧
        Observed e (runBeforeHooks publish seen names) (.ok ()) (names.map (.hookRan · seen))) ∨
      (∃ before name after, names = before ++ name :: after ∧
        (∀ h ∈ before, e.hooks.contains h = true) ∧ e.hooks.get? name = none ∧
        Observed e (runBeforeHooks publish seen names)
          (.error (.definition ("hook '" ++ name ++ "' is not registered"))) []) ∨
      ∃ before name after hook text, names = before ++ name :: after ∧
        (∀ h ∈ names, e.hooks.contains h = true) ∧ AllComply e seen before ∧
        e.hooks.get? name = some hook ∧
        hook (e.watched (before.map (.hookRan · seen))).called seen = .fail text ∧
        Observed e (runBeforeHooks publish seen names) (.error (.hookFailed name text))
          ((before ++ [name]).map (.hookRan · seen)) := by
  -- all hooks are resolved first, so one that is not registered keeps even those before it from running
  rcases hooksNamed_observed e names with
    ⟨hooks, rfl, registered, look⟩ | ⟨before, name, after, rfl, known, missing, look⟩
  · have comply : ∀ pairs ⊆ hooks, EachInTurn (fun s hook => hook.2 s.called seen = .nothing)
        (fun hook => .hookRan hook.1 seen) e pairs → AllComply e seen (pairs.map Prod.fst) :=
      fun pairs among h => h.map (fun _ _ => rfl) fun _ hook hmem effect =>
        ⟨hook.2, registered hook (among hmem), effect⟩
    have calls : ∀ pairs : List (String × Hook), (pairs.map Prod.fst).map (Observation.hookRan · seen) =
        pairs.map fun hook => .hookRan hook.1 seen := fun pairs => List.map_map
    rcases Observed.forEach (e := e) (fun s hook => hook.2 s.called seen = .nothing)
      (fun s hook reason calls => ∃ text, hook.2 s.called seen = .fail text ∧
        reason = .hookFailed hook.1 text ∧ calls = [.hookRan hook.1 seen])
      fun os hook hmem => runBeforeHook_observed (e := e.watched os) inert publish seen
        (registered hook hmem) with
      ⟨all, run⟩ | ⟨before, hook, after, reason, _, rfl, passed, ⟨text, effect, rfl, rfl⟩, run⟩
    · refine .inl ⟨comply hooks (fun _ h => h) all, ?_⟩
      rw [calls]
      exact look.bind run
    · refine .inr (.inr ⟨before.map Prod.fst, hook.1, after.map Prod.fst, hook.2, text,
        by simp, fun name hname => ?_, comply before (by simp) passed, ?_, ?_, ?_⟩)
      · obtain ⟨other, hmem, rfl⟩ := List.mem_map.1 hname
        rw [Keyed.contains, registered other hmem]
        rfl
      · exact registered hook (by simp)
      · rw [calls]
        exact effect
      · rw [List.map_append (f := (Observation.hookRan · seen)), calls]
        exact look.bind run
  · exact .inr (.inl ⟨before, name, after, rfl, known, missing, look.bind_error⟩)

/-- A hook after the commit runs if it is registered, and nothing comes of its failure. -/
theorem runAfterHook_observed (publish : Publish) (seen : HookContext) (name : String) :
    Observed e (runAfterHook publish seen name) (.ok ())
      (if e.hooks.contains name then some (.hookRan name seen) else none).toList := by
  have look : Observed e (.view fun e : Engine => e.hooks.get? name)
      (.ok (e.hooks.get? name)) [] := .view _
  unfold runAfterHook
  rw [Keyed.contains]
  cases hname : e.hooks.get? name with
  | none =>
    rw [hname] at look
    exact look.bind (.pure ())
  | some hook =>
    rw [hname] at look
    rcases inert name hook hname e.called seen with effect | ⟨reason, effect⟩
    · exact look.bind ((runHook_nothing effect publish name).bind (.pure ()))
    · exact look.bind ((runHook_fail effect publish name).bind (.pure ()))

/-- Hooks after the commit run in their order, whether they fail or not; missing ones are passed over. -/
theorem runAfterHooks_observed (publish : Publish) (seen : HookContext) (names : List String) :
    Observed e (runAfterHooks publish seen names) (.ok ())
      ((names.filter e.hooks.contains).map (.hookRan · seen)) := by
  rw [← List.filterMap_eq_map, List.filterMap_filter]
  exact Observed.forEach_ok fun os name _ =>
    runAfterHook_observed (e := e.watched os) inert publish seen name

end Inert

/-! ## Publishing an event that triggers no rule -/

/-- The delivery of an event to a listener. -/
def delivery? (y : DomainEvent) : Subscriber → Option Observation
  | .rules => none
  | .listener id => some (.delivered id y)

/-- Nothing is considered for an event that triggers no rule. -/
theorem process_untriggered (publish : Publish) {y : DomainEvent}
    (untriggered : e.rules.bucket y.name = []) : Observed e (process publish y) (.ok []) [] := by
  rw [Observed, process_eq, untriggered]
  split <;> rfl

/-- An event that triggers no rule is put on the trace and delivered to the listeners. -/
theorem publish_observed {y : DomainEvent}
    (untriggered : .rules ∈ e.subscribers → e.rules.bucket y.name = []) :
    Observed e (publish y) (.ok ()) (.published y :: e.subscribers.filterMap (delivery? y)) := by
  obtain ⟨n, hn⟩ : ∃ n, nesting e.config = n + 1 :=
    Nat.exists_eq_succ_of_ne_zero (by unfold nesting chainAllowance; omega)
  have look : Observed e (.view fun e : Engine => e.config) (.ok e.config) [] := .view _
  have announced : Observed e (observe (.published y)) (.ok ()) [.published y] := .observe rfl
  have subscribers : Observed (e.watched [.published y]) (.view fun e : Engine => e.subscribers)
      (.ok e.subscribers) [] := .view _
  refine look.bind ?_
  rw [hn]
  refine announced.bind (subscribers.bind (Observed.forEach_ok fun os subscriber hmem => ?_))
  cases subscriber with
  | rules =>
    have considered : Observed ((e.watched [.published y]).watched os) (process ⟨[], publishFor n⟩ y)
        (.ok []) [] := process_untriggered _ (untriggered hmem)
    exact considered.bind (.pure ())
  | listener id => exact .observe rfl

end Engine

end WorkflowRules
