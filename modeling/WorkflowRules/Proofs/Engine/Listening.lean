import WorkflowRules.Proofs.Cascade.Fallbacks
import WorkflowRules.Proofs.Cascade.Termination
import WorkflowRules.Proofs.Engine.Commands

/-!
# The rules listen, once or not at all

An initialisation subscribes the rules to the bus unless a flag says that they are subscribed, and a
shutdown drops all subscribers and takes the flag back. Flag and subscribers never get out of step: the
rules are subscribed once when the last of these calls was an initialisation, and not at all otherwise.

So while the rules listen, to publish an event is to put it on the trace and to process it once, and the
same holds of every event that comes of it. What it does beyond the announcement is what processing the
event does by itself.

* `Engine.switches` — the initialisations and shutdowns among commands
* `Engine.Listens` — flag and subscribers agree, and are as they should be
* `Engine.publishDirectly` — publishing without a list of subscribers
* `Engine.OnlyAdds` — operations that do not look at the trace
* `Engine.Outlasts` — an operation does the same with more room for publications in one another
* `Engine.evaluated_once` — what a publication does after any commands
-/

namespace WorkflowRules

open Operation (Keeps)

/-! ## Switching the rules on and off -/

/-- Whether a command switches the rules on or off. An initialisation that fails does neither. -/
def Command.switch? (e : Engine) : Command → Option Bool
  | .init => if (Engine.init e).1.isOk then some true else none
  | .shutdown => some false
  | _ => none

namespace Engine

/-- What the initialisations and shutdowns among commands switch the rules to. -/
def switches (e : Engine) : List Command → List Bool
  | [] => []
  | c :: rest => (c.switch? e).toList ++ switches (c.run e) rest

/-- Whether the last switch was to on. Nothing listens in the beginning. -/
def listensAfter (e : Engine) (calls : List Command) : Bool :=
  (e.switches calls).getLast?.getD false

/-! ## The same listeners -/

/-- The subscribers are the same, and so is whether the rules count as subscribed. -/
structure SameListeners (e e' : Engine) : Prop where
  subscribers : e'.subscribers = e.subscribers
  connected : e'.connected = e.connected

theorem SameListeners.isPreorder : IsPreorder Engine SameListeners where
  refl _ := ⟨rfl, rfl⟩
  trans _ _ _ hab hbc := ⟨hbc.1.trans hab.1, hbc.2.trans hab.2⟩

/-- No transition and no cascade changes who listens. -/
theorem SameListeners.respected : Respected SameListeners where
  toIsPreorder := SameListeners.isPreorder
  observe _ _ _ := ⟨rfl, rfl⟩
  now _ := ⟨rfl, rfl⟩
  newIdentifier _ := ⟨rfl, rfl⟩
  nextCall _ := ⟨rfl, rfl⟩
  commit _ _ _ _ _ _ := ⟨rfl, rfl⟩
  bypass _ _ _ _ := ⟨rfl, rfl⟩

section Management

theorem defineWorkflow_listeners (d : Definition) : Keeps SameListeners (defineWorkflow d) := by
  refine Keeps.bind SameListeners.isPreorder ?_ fun _ =>
    Keeps.bind SameListeners.isPreorder (fun _ => ⟨rfl, rfl⟩) fun _ _ => ⟨rfl, rfl⟩
  refine Keeps.bind SameListeners.isPreorder (Keeps.view SameListeners.isPreorder _) fun strict => ?_
  cases d.problem? strict with
  | none => exact Keeps.pure SameListeners.isPreorder ()
  | some p => exact Keeps.fail SameListeners.isPreorder _

theorem removeWorkflow_listeners (name : String) : Keeps SameListeners (removeWorkflow name) :=
  Keeps.bind SameListeners.isPreorder (fun _ => ⟨rfl, rfl⟩) fun _ _ => ⟨rfl, rfl⟩

theorem createInstance_listeners (workflow entityId : String) (data : Json)
    (actorId : Option String) : Keeps SameListeners (createInstance workflow entityId data actorId) := by
  refine Keeps.bind SameListeners.isPreorder (fun e => ?_) fun d => ?_
  · rw [lookup_apply]
    exact SameListeners.isPreorder.refl e
  · exact Keeps.bind SameListeners.isPreorder (fun _ => ⟨rfl, rfl⟩) fun _ _ => ⟨rfl, rfl⟩

theorem createRule_listeners (r : Rule) : Keeps SameListeners (createRule r) := by
  refine Keeps.bind SameListeners.isPreorder ?_ fun _ =>
    Keeps.bind SameListeners.isPreorder (fun _ => ⟨rfl, rfl⟩) fun _ _ => ⟨rfl, rfl⟩
  refine Keeps.bind SameListeners.isPreorder (Keeps.view SameListeners.isPreorder _) fun e => ?_
  dsimp only
  split
  · exact Keeps.pure SameListeners.isPreorder ()
  · exact Keeps.fail SameListeners.isPreorder _

theorem setEnabled_listeners (name : String) (enabled : Bool) :
    Keeps SameListeners (setEnabled name enabled) := by
  refine Keeps.bind SameListeners.isPreorder (fun e => ?_) fun _ =>
    Keeps.bind SameListeners.isPreorder (fun _ => ⟨rfl, rfl⟩) fun _ _ => ⟨rfl, rfl⟩
  unfold switchRule
  dsimp only
  split <;> exact ⟨rfl, rfl⟩

theorem removeRule_listeners (name : String) : Keeps SameListeners (removeRule name) :=
  Keeps.bind SameListeners.isPreorder (fun _ => ⟨rfl, rfl⟩) fun _ _ => ⟨rfl, rfl⟩

theorem loadDefinitions_listeners : Keeps SameListeners loadDefinitions := by
  refine Keeps.bind SameListeners.isPreorder (Keeps.view SameListeners.isPreorder _) fun e => ?_
  split
  · exact Keeps.pure SameListeners.isPreorder ()
  · exact Keeps.bind SameListeners.isPreorder (fun _ => ⟨rfl, rfl⟩) fun _ _ => ⟨rfl, rfl⟩

theorem loadRules_listeners : Keeps SameListeners loadRules := by
  refine Keeps.bind SameListeners.isPreorder (Keeps.view SameListeners.isPreorder _) fun e => ?_
  split
  · exact Keeps.pure SameListeners.isPreorder ()
  · exact Keeps.bind SameListeners.isPreorder (fun _ => ⟨rfl, rfl⟩) fun _ _ => ⟨rfl, rfl⟩

end Management

/-! ## Flag and subscribers -/

/-- The rules alone are subscribed, or nobody is, and the flag says which. -/
structure Listens (up : Bool) (e : Engine) : Prop where
  connected : e.connected = up
  subscribers : e.subscribers = if up then [.rules] else []

variable {e e' : Engine} {up : Bool}

theorem Listens.of_same (h : Listens up e) (same : SameListeners e e') : Listens up e' :=
  ⟨same.connected.trans h.connected, same.subscribers.trans h.subscribers⟩

theorem Listens.of_setup (h : Listens up e) (same : SameSetup e e') : Listens up e' :=
  h.of_same ⟨same.subscribers, same.connected⟩

/-- The rules are subscribed once, also when they were before. -/
theorem Listens.connect (h : Listens up e) : Listens true (connect e).2 := by
  unfold Engine.connect
  rw [Operation.change_apply]
  cases up with
  | true => exact (if_pos h.connected).symm ▸ h
  | false =>
    have hflag : ¬ e.connected = true := by simp [h.connected]
    rw [if_neg hflag]
    refine ⟨rfl, ?_⟩
    show e.subscribers ++ [.rules] = _
    rw [h.subscribers]
    rfl

/-- Afterwards the rules listen if the operation succeeds, and else if they did before. -/
def SwitchesOn (x : Operation Engine Unit) : Prop :=
  ∀ ⦃e up⦄, Listens up e → Listens (if (x e).1.isOk then true else up) (x e).2

/-- What comes before the rules are subscribed may do anything but change who listens. -/
theorem SwitchesOn.bind {x : Operation Engine Unit} {f : Unit → Operation Engine Unit}
    (hx : Keeps SameListeners x) (hf : ∀ a, SwitchesOn (f a)) : SwitchesOn (x >>= f) := by
  intro e up h
  have hsame := h.of_same (hx e)
  rcases hxe : x e with ⟨failure | a, s⟩
  · rw [hxe] at hsame
    rw [Operation.bind_error f hxe]
    exact hsame
  · rw [hxe] at hsame
    rw [Operation.bind_ok f hxe]
    exact hf a hsame

theorem init_switchesOn : SwitchesOn init :=
  .bind loadDefinitions_listeners fun _ => .bind loadRules_listeners fun _ _ _ h => h.connect

/-- A command leaves the rules listening as it switches them, or as they did before. -/
theorem Listens.run (h : Listens up e) {c : Command} (hc : ∀ id, c ≠ .subscribe id) :
    Listens ((c.switch? e).getD up) (c.run e) := by
  have published (x : DomainEvent) (s : Engine) : SameListeners s (observe (.published x) s).2 :=
    ⟨rfl, rfl⟩
  -- only three commands touch flag or subscribers; all others keep the listeners that there are
  cases c with
  | define d => exact h.of_same (defineWorkflow_listeners d e)
  | removeWorkflow name => exact h.of_same (removeWorkflow_listeners name e)
  | create workflow entityId data actorId =>
    exact h.of_same (createInstance_listeners workflow entityId data actorId e)
  | fire workflow entityId event context =>
    exact h.of_same (fire_keeps SameListeners.respected published workflow entityId event context e)
  | publish name payload trail =>
    exact h.of_same (publishEvent_keeps SameListeners.respected published name payload trail e)
  | process x => exact h.of_same (processEvent_keeps SameListeners.respected published x e)
  | onEvent name payload =>
    exact h.of_same (onEvent_keeps SameListeners.respected published name payload e)
  | createRule r => exact h.of_same (createRule_listeners r e)
  | setEnabled name enabled => exact h.of_same (setEnabled_listeners name enabled e)
  | removeRule name => exact h.of_same (removeRule_listeners name e)
  | registerGuard name guard => exact h.of_same ⟨rfl, rfl⟩
  | registerHook name hook tame => exact h.of_same ⟨rfl, rfl⟩
  | registerAction type handler => exact h.of_same ⟨rfl, rfl⟩
  | subscribe id => exact absurd rfl (hc id)
  | unsubscribe id =>
    refine ⟨h.connected, ?_⟩
    show e.subscribers.filter _ = _
    rw [h.subscribers]
    cases up <;> rfl
  | init =>
    have hinit := init_switchesOn h
    show Listens ((if (Engine.init e).1.isOk then some true else none).getD up) (Engine.init e).2
    split at hinit
    · next hok => rwa [if_pos hok]
    · next hfailed => rwa [if_neg hfailed]
  | shutdown => exact ⟨rfl, rfl⟩

/-- After any commands, the rules listen as the last switch says. -/
theorem Listens.runAll (h : Listens up e) {calls : List Command}
    (hcalls : ∀ id, .subscribe id ∉ calls) :
    Listens ((e.switches calls).getLast?.getD up) (e.runAll calls) := by
  induction calls generalizing e up with
  | nil => exact h
  | cons c rest ih =>
    have hc : ∀ id, c ≠ .subscribe id := fun id heq => hcalls id (heq ▸ List.mem_cons_self)
    have hrest : ∀ id, .subscribe id ∉ rest := fun id hmem => hcalls id (List.mem_cons_of_mem _ hmem)
    have hlast : (e.switches (c :: rest)).getLast?.getD up =
        ((c.run e).switches rest).getLast?.getD ((c.switch? e).getD up) := by
      rw [switches, List.getLast?_append]
      cases (switches (c.run e) rest).getLast? <;> cases c.switch? e <;> rfl
    rw [hlast]
    exact ih (h.run hc) hrest

/-! ## Publishing without subscribers -/

/--
Publishes an event, and processes it once if the rules listen. The events that come of it are
published in the same way, with room for so many publications in one another.
-/
def publishDirectly (listening : Bool) : Nat → List InstanceKey → DomainEvent → Operation Engine Unit
  | 0, _, x => do
    observe (.published x)
    .breakDown .endless
  | n + 1, held, x => do
    observe (.published x)
    if listening then
      let _ ← process ⟨held, publishDirectly listening n⟩ x
    return ()

/-- To deliver an event to the rules alone is to process it. -/
theorem deliver_to_rules {s : Engine} (h : Listens true s) (publish : Publish) (x : DomainEvent) :
    (Operation.view Engine.subscribers >>= Operation.forEach (deliver publish x)) s =
      (process publish x >>= fun _ => pure ()) s := by
  rw [Operation.bind_apply, Operation.view_apply, h.subscribers]
  show ((process publish x >>= fun _ => pure ()) >>= pure) s = _
  rw [bind_pure]

/-- Through its subscribers an engine publishes each event directly. -/
theorem publishFor_directly (h : Listens up e) (n : Nat) (held : List InstanceKey) (x : DomainEvent) :
    Alike e (publishFor n held x) (publishDirectly up n held x) := by
  have steps := alike_stepClosed e
  induction n generalizing held x with
  | zero => exact (steps.observe _).bind fun _ => steps.endless
  | succ n ih =>
    refine (steps.observe _).bind fun _ s hs => ?_
    have hlistens := h.of_setup hs
    cases up with
    | false =>
      rw [Operation.bind_apply, Operation.view_apply, hlistens.subscribers]
      exact ⟨rfl, hs⟩
    | true =>
      have related : (Publish.mk held (publishFor n)).Related (fun _ x y => Alike e x y)
          ⟨held, publishDirectly true n⟩ := ⟨rfl, ih⟩
      refine deliver_to_rules hlistens ⟨held, publishFor n⟩ x ▸ ?_
      exact (steps.process related x).bind (fun _ => steps.pure ()) s hs

/-! ## Operations that do not look at the trace -/

/-- The operation does the same whatever is on the trace, and only adds to it. -/
def OnlyAdds {α : Type} (x : Operation Engine α) : Prop :=
  ∀ s, ∃ added, ∀ trace, x { s with trace } = ((x s).1, { (x s).2 with trace := added ++ trace })

/-- A sequence goes on with whatever trace its first part has left. -/
theorem OnlyAdds.bind {α β : Type} {x : Operation Engine α} {f : α → Operation Engine β}
    (hx : OnlyAdds x) (hf : ∀ a, OnlyAdds (f a)) : OnlyAdds (x >>= f) := by
  intro s
  obtain ⟨added, hadded⟩ := hx s
  rcases hxs : x s with ⟨failure | a, s'⟩
  · refine ⟨added, fun trace => ?_⟩
    rw [Operation.bind_apply, hadded, Operation.bind_error f hxs, hxs]
  · obtain ⟨more, hmore⟩ := hf a s'
    refine ⟨more ++ added, fun trace => ?_⟩
    rw [Operation.bind_apply, hadded, Operation.bind_ok f hxs, hxs, List.append_assoc]
    exact hmore (added ++ trace)

/-- To catch refusals has nothing to do with the trace. -/
theorem OnlyAdds.attempt {α : Type} {x : Operation Engine α} (hx : OnlyAdds x) :
    OnlyAdds (Operation.attempt x) := by
  intro s
  obtain ⟨added, hadded⟩ := hx s
  refine ⟨added, fun trace => ?_⟩
  unfold Operation.attempt
  rw [hadded]
  rcases x s with ⟨(reason | _) | a, s'⟩ <;> rfl

/-- No step of a run looks at the trace, so no run does. -/
theorem onlyAdds_stepClosed : StepClosed fun _ x _ => OnlyAdds x where
  pure _ _ := ⟨[], fun _ => rfl⟩
  fail _ _ := ⟨[], fun _ => rfl⟩
  endless _ := ⟨[], fun _ => rfl⟩
  bind := .bind
  attempt := .attempt
  view hf s := ⟨[], fun trace => by
    rw [Operation.view_apply, hf s s.registry s.store trace]
    rfl⟩
  observe o _ := ⟨[o], fun _ => rfl⟩
  now _ := ⟨[], fun _ => rfl⟩
  newIdentifier _ := ⟨[], fun _ => rfl⟩
  nextCall _ := ⟨[], fun _ => rfl⟩
  commit _ _ _ _ := ⟨[], fun _ => rfl⟩
  commitDirectly _ _ _ _ := ⟨[], fun _ => rfl⟩
  select held := by
    refine .of_steps .bind (fun name s => ⟨[], fun trace => ?_⟩) (fun key s => ⟨[], fun trace => ?_⟩)
      (fun key s => ⟨[], fun trace => ?_⟩) fun d i event s => ⟨[], fun trace => ?_⟩
    · rw [lookup_apply, lookup_apply]
      rfl
    · rw [reserve_apply, reserve_apply]
      rfl
    · rw [load_apply, load_apply]
      rfl
    · rw [select_apply, select_apply]
      rfl

/-! ## Publishing is processing behind an announcement -/

/--
The second operation does what the first one does, with something observed before all that the first
one adds to the trace.
-/
def Announces {α : Type} (o : Observation) (x : Operation Engine α) (y : Operation Engine Unit)
    (s : Engine) : Prop :=
  ∃ later, (x s).2.trace = later ++ s.trace ∧
    y s = ((x s).1.map fun _ => (), { (x s).2 with trace := later ++ o :: s.trace })

/-- What only adds to the trace does the same behind an announcement. -/
theorem OnlyAdds.announces {α : Type} {x : Operation Engine α} (hx : OnlyAdds x) (o : Observation)
    (s : Engine) : Announces o x (observe o >>= fun _ => x >>= fun _ => pure ()) s := by
  obtain ⟨later, hlater⟩ := hx s
  have hsame := hlater s.trace
  refine ⟨later, ?_, ?_⟩
  · exact congrArg (fun out : End α => out.2.trace) hsame
  · show (x >>= fun _ => pure ()) { s with trace := o :: s.trace } = _
    rw [Operation.bind_pure_apply, hlater]

/-- With room for one more publication, publishing an event announces what processing it does. -/
theorem publishFor_announces {s : Engine} (h : Listens true s) (n : Nat) (held : List InstanceKey)
    (x : DomainEvent) :
    Announces (.published x) (process ⟨held, publishFor n⟩ x) (publishFor (n + 1) held x) s := by
  have steps := onlyAdds_stepClosed
  have hprocess : OnlyAdds (process ⟨held, publishFor n⟩ x) :=
    steps.process (q := ⟨held, publishFor n⟩) ⟨rfl, steps.publishFor n⟩ x
  have hpublish : publishFor (n + 1) held x s =
      (observe (.published x) >>= fun _ => process ⟨held, publishFor n⟩ x >>= fun _ => pure ()) s :=
    deliver_to_rules (s := (observe (.published x) s).2) ⟨h.connected, h.subscribers⟩
      ⟨held, publishFor n⟩ x
  obtain ⟨later, htrace, hafter⟩ := hprocess.announces (.published x) s
  exact ⟨later, htrace, hpublish.trans hafter⟩

/-! ## The bound on nesting -/

/--
From engines with this setup, the second operation does what the first one does, unless the first one
has no room for all the publications in one another.
-/
def Outlasts {α : Type} (e : Engine) (x y : Operation Engine α) : Prop :=
  ∀ s, SameSetup e s → (x s).1 = .error (.breakdown .endless) ∨ x s = y s ∧ SameSetup e (y s).2

theorem Alike.outlasts {α : Type} {x y : Operation Engine α} (h : Alike e x y) : Outlasts e x y :=
  fun s hs => .inr (h s hs)

/-- A sequence with more room ends as the one with less does, unless that one runs out of it. -/
theorem Outlasts.bind {α β : Type} {x y : Operation Engine α} {f g : α → Operation Engine β}
    (hx : Outlasts e x y) (hf : ∀ a, Outlasts e (f a) (g a)) : Outlasts e (x >>= f) (y >>= g) := by
  intro s hs
  rcases hx s hs with hend | ⟨hsame, hsetup⟩
  · exact .inl (by rw [Operation.bind_error f (Prod.ext hend rfl)])
  · rw [Operation.bind_apply, Operation.bind_apply, hsame]
    rcases hys : y s with ⟨failure | a, s'⟩
    · rw [hys] at hsetup
      exact .inr ⟨rfl, hsetup⟩
    · rw [hys] at hsetup
      exact hf a s' hsetup

/-- What runs out of room is not caught. -/
theorem Outlasts.attempt {α : Type} {x y : Operation Engine α} (hx : Outlasts e x y) :
    Outlasts e (Operation.attempt x) (Operation.attempt y) := by
  intro s hs
  rcases hx s hs with hend | ⟨hsame, hsetup⟩
  · exact .inl (by rw [Operation.attempt_breakdown (Prod.ext hend rfl)])
  · rw [Operation.attempt_state, Operation.attempt, Operation.attempt, hsame]
    exact .inr ⟨rfl, hsetup⟩

/-- Every step is outlasted by itself, so runs are outlasted by those with more room. -/
theorem outlasts_stepClosed (e : Engine) : StepClosed fun _ x y => Outlasts e x y :=
  have steps := alike_stepClosed e
  { pure := fun a => (steps.pure a).outlasts
    fail := fun reason => (steps.fail reason).outlasts
    endless := steps.endless.outlasts
    bind := .bind
    attempt := .attempt
    view := fun hf => (steps.view hf).outlasts
    observe := fun o => (steps.observe o).outlasts
    now := steps.now.outlasts
    newIdentifier := steps.newIdentifier.outlasts
    nextCall := steps.nextCall.outlasts
    commit := fun held state entry => (steps.commit held state entry).outlasts
    commitDirectly := fun held state entry => (steps.commitDirectly held state entry).outlasts
    select := fun _ => .of_looks .bind fun h s hs => .inr ⟨rfl, (h s).symm ▸ hs⟩ }

/-- More room changes nothing for a publication that has enough. -/
theorem publishFor_outlasts (e : Engine) {n m : Nat} (h : n ≤ m) (held : List InstanceKey)
    (x : DomainEvent) : Outlasts e (publishFor n held x) (publishFor m held x) := by
  have steps := outlasts_stepClosed e
  induction n generalizing m held x with
  | zero => exact fun _ _ => .inl rfl
  | succ n ih =>
    obtain ⟨m, rfl⟩ := Nat.exists_eq_add_of_le' (Nat.le_trans (Nat.le_add_left 1 n) h)
    have related : (Publish.mk held (publishFor n)).Related (fun _ x y => Outlasts e x y)
        ⟨held, publishFor m⟩ := ⟨rfl, fun held x => ih (Nat.le_of_succ_le_succ h) held x⟩
    refine (steps.observe _).bind fun _ => (steps.view fun _ _ _ _ => rfl).bind fun subscribers => ?_
    exact steps.transitions.forEach (steps.deliver related x) subscribers

/-- An engine has as much room as its settings say. -/
theorem publishWithin_outlasts (e : Engine) {n : Nat} (h : n ≤ nesting e.config) :
    (publishWithin n).Related (fun _ x y => Outlasts e x y) publish where
  held := rfl
  run held x s hs := by
    have hroom : publishWith held x s = publishFor (nesting s.config) held x s := rfl
    show _ ∨ publishFor n held x s = publishWith held x s ∧ SameSetup e (publishWith held x s).2
    rw [hroom, hs.config]
    exact publishFor_outlasts e h held x s hs

theorem nesting_eq_succ (config : EngineConfig) : ∃ n, nesting config = n + 1 :=
  Nat.exists_eq_add_of_le' (Nat.le_trans (Nat.le_add_left 1 _) (le_nesting config))

/--
While the rules listen, publishing an event announces what processing it does, unless there is no end of
what it sets off.
-/
theorem publish_announces {s : Engine} (h : Listens true s) {x : DomainEvent}
    (ends : (publish x s).1 ≠ .error (.breakdown .endless)) :
    Announces (.published x) (processEvent x) (publish x) s := by
  obtain ⟨n, hn⟩ := nesting_eq_succ s.config
  have hpublish : publish x s = publishFor (n + 1) [] x s := by
    rw [← hn]
    rfl
  obtain ⟨later, htrace, hafter⟩ := publishFor_announces h n [] x
  have room : n ≤ nesting s.config := by omega
  rcases (outlasts_stepClosed s).process (publishWithin_outlasts s room) x s .rfl with
    hend | ⟨hsame, -⟩
  · refine absurd ?_ ends
    have hprocess : (process ⟨[], publishFor n⟩ x s).1 = .error (.breakdown .endless) := hend
    rw [hpublish, hafter, hprocess]
    rfl
  · have hprocess : process ⟨[], publishFor n⟩ x s = processEvent x s := hsame
    rw [hprocess] at htrace hafter
    exact ⟨later, htrace, hpublish.trans hafter⟩

/-- What rules publish comes to an end, unless a hook publishes as well. -/
theorem publish_ends {s : Engine} (quiet : Quiet s) (x : DomainEvent) :
    (publish x s).1 ≠ .error (.breakdown .endless) := by
  obtain ⟨_, published⟩ := exists_publish quiet x
  exact (published.bears (bears_of_ne s (by decide))).1

/-! ## After any commands -/

/--
After any commands but subscriptions of others, on an engine that was new, the rules listen as the last
initialisation or shutdown says. All that is published then, by a caller or in the course of a run, is
published directly: each event is processed once, or not at all. If the rules do not listen, nothing
but the event itself is seen of a publication. If they do, it does what the processing of the event
does, behind the event itself, and so what an evaluation of the event does in the same state, unless
there is no end of what the event sets off.
-/
theorem evaluated_once {e : Engine} (off : e.connected = false) (alone : e.subscribers = [])
    {calls : List Command} (hcalls : ∀ id, .subscribe id ∉ calls) :
    let s := e.runAll calls
    let up := e.listensAfter calls
    (∀ t, SameSetup s t → ∀ held x,
        publishWith held x t = publishDirectly up (nesting s.config) held x t ∧
        (up = true → ∀ n,
          Announces (.published x) (process ⟨held, publishFor n⟩ x) (publishFor (n + 1) held x) t)) ∧
      ∀ name payload, ∃ x t, newEvent name payload .root s = (.ok x, t) ∧
        (up = false → publishEvent name payload .root s =
          (.ok (), { t with trace := .published x :: s.trace })) ∧
        (up = true → (publishEvent name payload .root s).1 ≠ .error (.breakdown .endless) →
          Announces (.published x) (onEvent name payload) (publishEvent name payload .root) s) := by
  intro s up
  have hnew : Listens false e := ⟨off, alone⟩
  have h : Listens up s := hnew.runAll hcalls
  have direct (t : Engine) (ht : SameSetup s t) (held : List InstanceKey) (x : DomainEvent) :
      publishWith held x t = publishDirectly up (nesting s.config) held x t := by
    rw [← (publishFor_directly h (nesting s.config) held x t ht).1, ← ht.config]
    rfl
  refine ⟨fun t ht held x => ⟨direct t ht held x, fun hup n => ?_⟩, fun name payload => ?_⟩
  · exact publishFor_announces ((hup ▸ h).of_setup ht) n held x
  -- both calls make the same event, from where they differ in the announcement only
  obtain ⟨x, t, hx⟩ := exists_newEvent name payload .root s
  have ht := newEvent_setup hx
  have htrace : t.trace = s.trace := by
    rw [newEvent_apply] at hx
    cases hx
    rfl
  have hpublish : publishEvent name payload .root s = publish x t := Operation.bind_ok _ hx
  have hevent : onEvent name payload s = processEvent x t := Operation.bind_ok _ hx
  refine ⟨x, t, hx, fun hdown => ?_, fun hup ends => ?_⟩
  · obtain ⟨n, hn⟩ := nesting_eq_succ s.config
    have hdirect : publish x t = publishDirectly up (nesting s.config) [] x t := direct t ht [] x
    rw [hpublish, hdirect, hdown, hn, ← htrace]
    rfl
  · rw [hpublish] at ends
    obtain ⟨later, hlater, hafter⟩ := publish_announces ((hup ▸ h).of_setup ht) ends
    rw [← hevent, htrace] at hlater
    rw [← hpublish, ← hevent, htrace] at hafter
    exact ⟨later, hlater, hafter⟩

/-- The rules are switched on twice, off, and on again; in between there is a rule. -/
def openings : List Command :=
  [.init, .init, .createRule ((Rule.onEvent "audit" "order").addAction (.emitEvent "noted")),
    .shutdown, .init]

/-- After these commands an event is considered once, and after one more shutdown not at all. -/
theorem evaluated_once_openings :
    let e := inMemory {} .counting
    let s := e.runAll openings
    e.listensAfter openings = true ∧
      (publishEvent "order" .null .root s).1 ≠ .error (.breakdown .endless) ∧
      (∃ x t, newEvent "order" .null .root s = (.ok x, t) ∧
        Announces (.published x) (onEvent "order" .null) (publishEvent "order" .null .root) s) ∧
      ∃ x t, newEvent "order" .null .root (shutdown s).2 = (.ok x, t) ∧
        publishEvent "order" .null .root (shutdown s).2 =
          (.ok (), { t with trace := .published x :: s.trace }) := by
  intro e s
  have hup : e.listensAfter openings = true := rfl
  have alone : ∀ id, Command.subscribe id ∉ openings := by simp [openings]
  have aloneThen : ∀ id, Command.subscribe id ∉ openings ++ [.shutdown] := by simp [openings]
  have quiet : Quiet s := fun _ _ h => by cases h
  obtain ⟨x, t, hx, -, listening⟩ :=
    (evaluated_once (e := e) rfl rfl alone).2 "order" .null
  obtain ⟨y, u, hy, silent, -⟩ :=
    (evaluated_once (e := e) rfl rfl aloneThen).2 "order" .null
  have ends : (publishEvent "order" .null .root s).1 ≠ .error (.breakdown .endless) := by
    unfold publishEvent
    rw [Operation.bind_ok _ hx]
    exact publish_ends (quiet.of_setup (newEvent_setup hx)) x
  exact ⟨hup, ends, ⟨x, t, hx, listening hup ends⟩, y, u, hy, silent rfl⟩

-- the rule acts once, and its record is announced once
example : (publishEvent "order" .null .root ((inMemory {} .counting).runAll openings)).2.trace.filterMap
    (fun | .published x => some x.name | _ => none) = [ruleExecutedEvent, "noted", "order"] := by
  decide +kernel

end Engine

end WorkflowRules
