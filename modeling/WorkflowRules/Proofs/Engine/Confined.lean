import WorkflowRules.Proofs.Cascade.Sample
import WorkflowRules.Proofs.Engine.Lawful
import WorkflowRules.Proofs.Engine.Management
import WorkflowRules.Proofs.Engine.Tables
import WorkflowRules.Proofs.Store.Flights
import WorkflowRules.Proofs.Workflow.Reachability

/-!
# Unreachable states are not entered

When a definition has been accepted, the states that are reported as unreachable can be relied on. As
long as the definition stays registered, no instance that is created under it enters one of them,
whatever guards, hooks and rules do, and however the steps of different calls come in between.

* `Engine.Reign` — a run during which a definition stays registered
* `Engine.Confined` — what an engine has and tells of an instance
* `Engine.unreachable_never_entered` — the instances of an accepted definition are confined
-/

namespace WorkflowRules

open Definition (Enterable)

/-! ## Runs of an engine -/

/-- Commands that only work on instances, and the registration of hooks, leave the registry alone. -/
theorem Command.registry_run {c : Command} (h : c.administers = false) (e : Engine) :
    (c.run e).registry = e.registry := by
  have hR := Engine.SameSetup.respected
  have hpublished := fun x => Engine.observe_setup (.published x)
  cases c with
  | create workflow entityId data actorId =>
    exact (Engine.createInstance_undisturbed workflow entityId data actorId e).1.registry
  | fire workflow entityId event context =>
    exact (Engine.fire_keeps hR hpublished workflow entityId event context e).registry
  | publish name payload trail =>
    exact (Engine.publishEvent_keeps hR hpublished name payload trail e).registry
  | process event => exact (Engine.processEvent_keeps hR hpublished event e).registry
  | onEvent name payload => exact (Engine.onEvent_keeps hR hpublished name payload e).registry
  | registerHook name hook tame => rfl
  | _ => cases h

/-- The account of a new instance of an accepted definition. -/
theorem Account.within_initial {d : Definition} {strict : Bool} (accepted : d.problem? strict = none)
    {w : Written} (hw : w.toState = d.initialState) :
    Within d.Enterable ⟨d.initialState, 1, [w]⟩ := by
  have initial := Enterable.initial accepted
  refine ⟨initial, fun x hx => ?_⟩
  rw [List.mem_singleton.1 hx, hw]
  exact initial

namespace Engine

variable {e : Engine} {d : Definition}

theorem registry_runAll {cs : List Command} (h : ∀ c ∈ cs, c.administers = false) (e : Engine) :
    (e.runAll cs).registry = e.registry := by
  induction cs generalizing e with
  | nil => rfl
  | cons c rest ih =>
    have hrest := ih (fun c hc => h c (List.mem_cons_of_mem _ hc)) (c.run e)
    exact hrest.trans (Command.registry_run (h c List.mem_cons_self) e)

theorem guarded_onStore (config : EngineConfig) {store : Store} (tidy : store.Tidy) (clock : Clock) :
    (onStore config store clock).Guarded :=
  ⟨tidy, fun _ _ h => by cases h⟩

theorem Guarded.runAll (h : e.Guarded) (cs : List Command) : (e.runAll cs).Guarded := by
  induction cs generalizing e with
  | nil => exact h
  | cons c rest ih => exact ih (c.run_lawful h).1

/-- An engine accepts definitions without problems only. -/
theorem problem?_of_define (h : (defineWorkflow d e).1 = .ok ()) :
    d.problem? e.config.strictTransitions = none := by
  cases hp : d.problem? e.config.strictTransitions with
  | none => rfl
  | some p =>
    have hcheck := checkDefinition_apply d e
    rw [hp] at hcheck
    rw [defineWorkflow, Operation.bind_error _ hcheck] at h
    cases h

/-- As long as an accepted definition is registered, accounts stay within what can be entered. -/
theorem within_runAll {strict : Bool} (accepted : d.problem? strict = none) (h : e.Guarded)
    {cs : List Command}
    (stays : ∀ before, before <+: cs → (e.runAll before).registry.get? d.name = some d)
    {entityId : String} {a : Account} (ha : e.store.account? (d.name, entityId) = some a)
    (within : a.Within d.Enterable) :
    ∃ b, (e.runAll cs).store.account? (d.name, entityId) = some b ∧ b.Within d.Enterable := by
  induction cs generalizing e a with
  | nil => exact ⟨a, ha, within⟩
  | cons c rest ih =>
    obtain ⟨guarded, accounts⟩ := c.run_lawful h
    obtain ⟨b, hb, hevolves⟩ := accounts _ a ha
    have registered : e.registry.get? d.name = some d := stays [] List.nil_prefix
    refine ih guarded (fun before hbefore => ?_) hb
      (hevolves.within registered (fun hs ht => Enterable.select? accepted hs ht) within)
    exact stays (c :: before) (List.cons_prefix_cons.2 ⟨rfl, hbefore⟩)

/-- A run during which a definition stays registered under its name. -/
structure Reign (d : Definition) where
  config : EngineConfig
  clock : Clock
  /-- What the engine has begun with. -/
  store : Store
  tidy : store.Tidy
  /-- What has been asked of the engine before the run. -/
  earlier : List Command
  commands : List Command
  stays : ∀ before, before <+: commands →
    (((onStore config store clock).runAll earlier).runAll before).registry.get? d.name = some d

namespace Reign

/-- The engine at the start of the run. -/
def start (r : Reign d) : Engine := (onStore r.config r.store r.clock).runAll r.earlier

/-- The engine at its end. -/
def last (r : Reign d) : Engine := r.start.runAll r.commands

/-- One of the commands creates the instance of an entity. -/
inductive Creates (r : Reign d) (entityId : String) : Prop
  | intro {before after : List Command} {data : Json} {actorId : Option String} {i : Instance}
      (commands : r.commands = before ++ .create d.name entityId data actorId :: after)
      (created :
        (createInstance d.name entityId data actorId (r.start.runAll before)).1 = .ok i)

end Reign

/-- An instance is there, and nothing that is kept or told of it lies outside what can be entered. -/
structure Confined (d : Definition) (e : Engine) (entityId : String) : Prop where
  account : ∃ a, e.store.account? (d.name, entityId) = some a ∧ a.Within d.Enterable
  state : ∀ i, (getInstance d.name entityId e).1 = .ok (some i) → d.Enterable i.state
  history : ∀ entries, (getHistory d.name entityId e).1 = .ok (some entries) →
    ∀ entry ∈ entries, d.Enterable entry.toState

/-- What is told of an instance is what is kept of it. -/
theorem confined_of_within (h : e.Guarded) {entityId : String} {a : Account}
    (ha : e.store.account? (d.name, entityId) = some a) (within : a.Within d.Enterable) :
    Confined d e entityId where
  account := ⟨a, ha, within⟩
  state i hi := by
    obtain ⟨-, found, hfound, -, hstate⟩ := h.store.account?_of_get? hi
    obtain rfl := Option.some.inj (ha.symm.trans hfound)
    exact hstate ▸ within.state
  history entries hentries entry hentry := by
    have hstates := Store.toState_history? hentries ha
    have hmem := List.mem_map_of_mem (f := (·.toState)) hentry
    rw [hstates] at hmem
    obtain ⟨w, hw, hstate⟩ := List.mem_map.1 hmem
    exact hstate ▸ within.entries w hw

/-- The instances that are created during a run are confined at its end. -/
theorem Reign.confined {strict : Bool} (accepted : d.problem? strict = none) (r : Reign d)
    {entityId : String} (h : r.Creates entityId) : Confined d r.last entityId := by
  obtain @⟨before, after, data, actorId, i, commands, created⟩ := h
  have stays := r.stays
  have hstart : r.start.Guarded := (guarded_onStore r.config r.tidy r.clock).runAll r.earlier
  have hbefore : (r.start.runAll before).Guarded := hstart.runAll before
  have hlast : r.last =
      ((Command.create d.name entityId data actorId).run (r.start.runAll before)).runAll after := by
    rw [last, commands, runAll_append]
    rfl
  obtain ⟨guarded, opens⟩ := createInstance_opens hbefore d.name entityId data actorId
  rw [created] at opens
  cases opens with
  | @created found _ w registered _ account toState _ =>
    have hreigns : (r.start.runAll before).registry.get? d.name = some d :=
      stays before (commands ▸ List.prefix_append _ _)
    obtain rfl := Option.some.inj (hreigns.symm.trans registered)
    -- the definition stays registered along all that comes after the creation
    have reigns : ∀ later, later <+: after →
        (((Command.create d.name entityId data actorId).run (r.start.runAll before)).runAll
          later).registry.get? d.name = some d := by
      intro later hlater
      have hreaches : before ++ .create d.name entityId data actorId :: later <+: r.commands := by
        rw [commands]
        exact (List.prefix_append_right_inj _).2 (List.cons_prefix_cons.2 ⟨rfl, hlater⟩)
      have hregistered := stays _ hreaches
      rw [runAll_append] at hregistered
      exact hregistered
    obtain ⟨b, hb, within⟩ :=
      within_runAll accepted guarded reigns account (Account.within_initial accepted toState)
    rw [hlast]
    exact confined_of_within (Guarded.runAll guarded after) hb within

end Engine

/-! ## Calls in flight -/

namespace Flights

variable {w : Flights} {d : Definition} {key : InstanceKey}

/-- The definition of a step is the one that is registered, if it has its name. -/
def Move.Follows (d : Definition) : Move → Prop
  | .create found .. => found.name = d.name → found = d
  | .load _ key found .. => key.1 = d.name → found = d
  | .commit .. => True

/-- What is kept of an instance, and what any call is going to commit, can be entered. -/
structure Confined (d : Definition) (key : InstanceKey) (w : Flights) : Prop where
  account : ∀ a, w.store.account? key = some a → a.Within d.Enterable
  pending : ∀ call seen, w.pending call = some seen → seen.subject.key = key →
    d.Enterable seen.toState

/-- Where there is no instance, there is nothing to commit. -/
theorem confined_of_missing (h : w.Sound) (missing : w.store.account? key = none) :
    Confined d key w where
  account a ha := by cases missing.symm.trans ha
  pending call seen hseen hkey := by
    obtain ⟨a, ha, -⟩ := h.pending call seen hseen
    cases missing.symm.trans (hkey ▸ ha)

theorem selection_target {s : Store} {event : String} {context : TransitionContext}
    {seen : HookContext} (h : selection s key d event context = some seen) :
    ∃ t, d.select? seen.subject.state event = some t ∧ seen.toState = t.target := by
  unfold selection at h
  rcases hget : s.get? key with f | (_ | i) <;> rw [hget] at h
  · cases h
  · cases h
  · obtain ⟨t, ht, rfl⟩ := Option.map_eq_some_iff.1 h
    exact ⟨t, ht, rfl⟩

section Step

variable {strict : Bool} {entityId : String}

/-- A creation begins in the initial state, which can be entered. -/
theorem Confined.create (accepted : d.problem? strict = none) (h : w.Sound)
    (hc : Confined d (d.name, entityId) w) {found : Definition} (follows : found.name = d.name → found = d)
    (other : String) (data : Json) (actorId : Option String) (now : Timestamp) :
    Confined d (d.name, entityId) (w.step (.create found other data actorId now)) := by
  refine ⟨fun a ha => ?_, hc.pending⟩
  have hstep : (w.step (.create found other data actorId now)).store =
      (Store.create found other data actorId now w.store).2 := rfl
  rw [hstep] at ha
  rcases Store.create_cases h.formed found other data actorId now with
    hcreate | ⟨s', entry, hcreate, -, wrote, -, -, toState⟩
  · rw [hcreate] at ha
    exact hc.account a ha
  · rw [hcreate] at ha
    by_cases hkey : (d.name, entityId) = (found.name, other)
    · obtain rfl := follows (congrArg Prod.fst hkey).symm
      rw [hkey, wrote.account] at ha
      rw [← Option.some.inj ha]
      exact Account.within_initial accepted toState
    · rw [wrote.accounts _ hkey] at ha
      exact hc.account a ha

/-- What a call has loaded is what is kept, so its transition starts from a state that can be entered. -/
theorem Confined.selection (accepted : d.problem? strict = none) (h : w.Sound)
    (hc : Confined d (d.name, entityId) w) {event : String} {context : TransitionContext}
    {seen : HookContext}
    (selected : Flights.selection w.store (d.name, entityId) d event context = some seen) :
    d.Enterable seen.toState := by
  obtain ⟨hget, -⟩ := selection_ok selected
  obtain ⟨t, ht, htarget⟩ := selection_target selected
  obtain ⟨-, a, ha, -, hstate⟩ := Store.account?_of_get? h.formed hget
  rw [htarget]
  exact Enterable.select? accepted (hstate ▸ (hc.account a ha).state) ht

/--
What is loaded is in a state that can be entered, and the selected transition leads to another one.
-/
theorem Confined.load (accepted : d.problem? strict = none) (h : w.Sound)
    (hc : Confined d (d.name, entityId) w) (call : Nat) {key : InstanceKey} {found : Definition}
    (follows : key.1 = d.name → found = d) (event : String) (context : TransitionContext) :
    Confined d (d.name, entityId) (w.step (.load call key found event context)) := by
  refine ⟨hc.account, fun other seen hseen hkey => ?_⟩
  have hpending : (w.step (.load call key found event context)).pending =
      Function.update w.pending call (Flights.selection w.store key found event context) := rfl
  rw [hpending] at hseen
  by_cases hcall : other = call
  · subst hcall
    rw [Function.update_self] at hseen
    obtain ⟨hsubject, -⟩ := Store.account?_of_get? h.formed (selection_ok hseen).1
    obtain rfl : (d.name, entityId) = key := hkey.symm.trans hsubject
    obtain rfl := follows rfl
    exact hc.selection accepted h hseen
  · rw [Function.update_of_ne hcall] at hseen
    exact hc.pending other seen hseen hkey

/-- A commit that wins leaves the instance in the state that its call was going to commit. -/
theorem Confined.commitOf (h : w.Sound) (hc : Confined d key w) {call : Nat} {held : HookContext}
    (hp : w.pending call = some held) (now : Timestamp) {a : Account}
    (ha : (Flights.commitOf held now w.store).2.account? key = some a) : a.Within d.Enterable := by
  obtain ⟨before, hbefore, -⟩ := h.pending call held hp
  by_cases hv : before.version = held.subject.version
  · obtain ⟨i, s', entry, hcommit, wrote, -, -, toState, -⟩ :=
      Store.commit_held h.formed hbefore hv held.toState (Engine.entryOf held now)
    rw [Flights.commitOf, hcommit] at ha
    by_cases hkey : key = held.subject.key
    · subst hkey
      rw [wrote.account] at ha
      rw [← Option.some.inj ha]
      exact (hc.account before hbefore).extended (hc.pending call held hp rfl) toState (.refl _)
    · rw [wrote.accounts _ hkey] at ha
      exact hc.account a ha
  · obtain ⟨f, hcommit⟩ :=
      Store.commit_refused h.formed hbefore hv held.toState (Engine.entryOf held now)
    rw [Flights.commitOf, hcommit] at ha
    exact hc.account a ha

theorem Confined.commit (h : w.Sound) (hc : Confined d key w) (call : Nat) (now : Timestamp) :
    Confined d key (w.step (.commit call now)) := by
  cases hp : w.pending call with
  | none =>
    have hstep : w.step (.commit call now) = w := by rw [Flights.step, hp]
    rw [hstep]
    exact hc
  | some held =>
    have hstep : w.step (.commit call now) =
        ⟨(Flights.commitOf held now w.store).2, Function.update w.pending call none⟩ := by
      rw [Flights.step, hp]
    rw [hstep]
    refine ⟨fun a ha => hc.commitOf h hp now ha, fun other seen hseen hkey => ?_⟩
    by_cases hother : other = call
    · rw [hother] at hseen
      cases (Function.update_self call none w.pending).symm.trans hseen
    · exact hc.pending other seen ((Function.update_of_ne hother _ _).symm.trans hseen) hkey

theorem Confined.step (accepted : d.problem? strict = none) (h : w.Sound)
    (hc : Confined d (d.name, entityId) w) {m : Move} (follows : m.Follows d) :
    Confined d (d.name, entityId) (w.step m) := by
  cases m with
  | create found other data actorId now => exact hc.create accepted h follows other data actorId now
  | load call key found event context => exact hc.load accepted h call follows event context
  | commit call now => exact hc.commit h call now

theorem Confined.run (accepted : d.problem? strict = none) (h : w.Sound)
    (hc : Confined d (d.name, entityId) w) {moves : List Move} (follows : ∀ m ∈ moves, m.Follows d) :
    Confined d (d.name, entityId) (w.run moves) := by
  induction moves generalizing w with
  | nil => exact hc
  | cons m rest ih =>
    refine ih (h.step m) (hc.step accepted h (follows m List.mem_cons_self)) fun x hx => ?_
    exact follows x (List.mem_cons_of_mem _ hx)

end Step

end Flights

namespace Engine

/--
An instance that is created while an accepted definition is registered under its name is always in a
declared state that is not reported as unreachable, and so are all states of its history: in every run
of an engine on either store, and however creations, loads and commits of several calls come in turn.
-/
theorem unreachable_never_entered {d : Definition} {e : Engine}
    (accepted : (defineWorkflow d e).1 = .ok ()) :
    (∀ (r : Reign d) (entityId : String), r.Creates entityId → Confined d r.last entityId) ∧
      ∀ (w : Flights) (moves : List Flights.Move) (entityId : String), w.Sound →
        (∀ m ∈ moves, m.Follows d) → w.store.account? (d.name, entityId) = none →
        ∀ a, (w.run moves).store.account? (d.name, entityId) = some a → a.Within d.Enterable := by
  have hproblem := problem?_of_define accepted
  refine ⟨fun r entityId h => r.confined hproblem h, fun w moves entityId sound follows missing => ?_⟩
  exact ((Flights.confined_of_missing sound missing).run hproblem sound follows).account

/-! ## A parcel that is not lost -/

/-- A parcel that has been lost can be found, but nothing loses one. -/
def parcel : Definition :=
  ((Definition.ofStates "parcel" "parcel" "sent" ["sent", "delivered", "lost"]).addTransition
    { sources := ["sent"], target := "delivered", event := "deliver" }).addTransition
      { sources := ["lost"], target := "sent", event := "find" }

/-- A parcel is sent and delivered, in an engine on a database. -/
def delivery : Reign parcel where
  config := {}
  clock := .counting
  store := .database .empty
  tidy := Database.Kept.empty.missing
  earlier := [.init, .define parcel]
  commands := [.create "parcel" "7" .null none, .fire "parcel" "7" "deliver" .empty]
  stays before hbefore := by
    rw [registry_runAll fun c hc => ?_]
    · rfl
    · have hmem := hbefore.subset hc
      simp only [List.mem_cons, List.not_mem_nil, or_false] at hmem
      rcases hmem with rfl | rfl <;> rfl

theorem unreachable_never_entered_parcel :
    parcel.unreachable = ["lost"] ∧ Confined parcel delivery.last "7" ∧
      ∀ a, ((Flights.start (.memory .empty)).run
        [.create parcel "7" .null none ⟨0, 0⟩, .load 0 ("parcel", "7") parcel "deliver" .empty,
          .commit 0 ⟨0, 0⟩]).store.account? ("parcel", "7") = some a → a.Within parcel.Enterable := by
  have accepted : (defineWorkflow parcel (inMemory {} .counting)).1 = .ok () := rfl
  have creates : delivery.Creates "7" := @Reign.Creates.intro _ _ _ [] _ _ _ _ rfl rfl
  obtain ⟨runs, flights⟩ := unreachable_never_entered accepted
  refine ⟨rfl, runs delivery "7" creates, flights _ _ "7" Flights.sound_start_memory ?_ rfl⟩
  simp [Flights.Move.Follows]

end Engine

end WorkflowRules
