import WorkflowRules.Proofs.Engine.Administration
import WorkflowRules.Proofs.Engine.Announced
import WorkflowRules.Proofs.Engine.History
import WorkflowRules.Proofs.Engine.Tables

/-!
# Histories rebuilt from events

Whoever listens to an engine in memory can write down the history of every instance: the events that
tell of its transitions are, in their order, the entries of its history after that of the creation.

* `Engine.Broadcasts`, `Engine.Logs` — what one command sends, and what a run sends
* `Rebuilds` — some events tell the whole history of an instance
* `Engine.Rebuilt` — all that the events of a run tell
* `Engine.rebuilt` — the events of every run do so
-/

namespace WorkflowRules

open Operation (Keeps)
open StoredInstance (SameOrigin)

/-- Commands register no hook that publishes. -/
def Command.Silent : Command → Prop
  | registerHook _ hook _ => ∀ n seen event payload, hook n seen ≠ .publish event payload
  | _ => True

/-- The events tell the whole history of an instance but its creation, entry by entry. -/
inductive Rebuilds : List DomainEvent → Option StoredInstance → Prop
  | absent : Rebuilds [] none
  | present {stored : StoredInstance} {first : HistoryEntry} {rest : List HistoryEntry}
      {ys : List DomainEvent} (history : stored.history = first :: rest)
      (told : List.Forall₂ (Announces stored.current) rest ys) : Rebuilds ys (some stored)

/--
An instance that is rebuilt from some events is rebuilt from them and those that tell what happened
next.
-/
theorem Rebuilds.recounts {xs ys : List DomainEvent} {a b : Option StoredInstance}
    (h : Rebuilds xs a) (hab : Recounts a ys b) : Rebuilds (xs ++ ys) b := by
  cases h with
  | absent =>
    cases hab with
    | absent => exact .absent
  | present history told =>
    cases hab with
    | present origin history' told' =>
      rw [history, List.cons_append] at history'
      exact .present history' (List.rel_append
        (told.imp fun _ _ => (announces_iff origin).2) (told'.imp fun _ _ => (announces_iff origin).2))

namespace Engine

open Cascade (sentOfAll)

/-! ## What commands send -/

/-- What a command sends. Only transitions and publications send anything. -/
inductive Broadcasts (e : Engine) : Command → List Sent → Prop
  | administered {c} (administers : c.administers = true) : Broadcasts e c []
  | registeredHook {name hook tame} : Broadcasts e (.registerHook name hook tame) []
  | created {workflow entityId data actorId} :
      Broadcasts e (.create workflow entityId data actorId) []
  | refused {workflow entityId event context f s}
      (settled : settle publish workflow entityId event context e = (.error f, s)) :
      Broadcasts e (.fire workflow entityId event context) []
  /-- The first event tells of the transition. -/
  | fired {workflow entityId event context i y s t}
      (settled : settle publish workflow entityId event context e = (.ok (i, y), s))
      (published : Publishes y s t (publish y s)) :
      Broadcasts e (.fire workflow entityId event context)
        (t.sent e.actions (some (workflow, entityId)))
  | published {name payload trail y s t} (made : newEvent name payload trail e = (.ok y, s))
      (published : Publishes y s t (publish y s)) :
      Broadcasts e (.publish name payload trail) (t.sent e.actions none)
  | processed {x considered} (processed : Processes x e considered (processEvent x e)) :
      Broadcasts e (.process x) (sentOfAll e.actions x considered)
  | received {name payload y s considered} (made : newEvent name payload .root e = (.ok y, s))
      (processed : Processes y s considered (processEvent y s)) :
      Broadcasts e (.onEvent name payload) (sentOfAll e.actions y considered)

/-- What a run sends. -/
inductive Logs : Engine → List Command → List Sent → Prop
  | nil {e} : Logs e [] []
  | cons {e c cs first later} (head : Broadcasts e c first) (tail : Logs (c.run e) cs later) :
      Logs e (c :: cs) (first ++ later)

variable {e : Engine} {c : Command} {log : List Sent}

/-- Every command sends something, or nothing. -/
theorem exists_broadcasts (hq : Quiet e) (c : Command) : ∃ log, Broadcasts e c log := by
  have tree (x : DomainEvent) {s : Engine} (hs : SameSetup e s) :
      ∃ t, Publishes x s t (publish x s) :=
    (publish_derives (hq.of_setup hs) x.trail.depth).derives x s .rfl rfl
  -- what remains are the commands that change instances or publish, and each of them has a tree
  by_cases hc : c.administers = true
  · exact ⟨_, .administered hc⟩
  cases c with
  | registerHook name hook tame => exact ⟨_, .registeredHook⟩
  | create workflow entityId data actorId => exact ⟨_, .created⟩
  | fire workflow entityId event context =>
    have hs := settle_keeps SameSetup.respected
      publish_setup workflow entityId event context e
    rcases hsettle : settle publish workflow entityId event context e with ⟨f | ⟨i, y⟩, s⟩
    · exact ⟨_, .refused hsettle⟩
    · rw [hsettle] at hs
      obtain ⟨t, ht⟩ := tree y hs
      exact ⟨_, .fired hsettle ht⟩
  | publish name payload trail =>
    obtain ⟨y, s, hy⟩ := exists_newEvent name payload trail e
    obtain ⟨t, ht⟩ := tree y (newEvent_setup hy)
    exact ⟨_, .published hy ht⟩
  | process x =>
    obtain ⟨considered, h⟩ := exists_processEvent hq x
    exact ⟨_, .processed h⟩
  | onEvent name payload =>
    obtain ⟨y, s, hy⟩ := exists_newEvent name payload .root e
    obtain ⟨considered, h⟩ := exists_processEvent (hq.of_setup (newEvent_setup hy)) y
    exact ⟨_, .received hy h⟩
  | define | removeWorkflow | createRule | setEnabled | removeRule | registerGuard
  | registerAction | subscribe | unsubscribe | init | shutdown => exact absurd rfl hc

/-! ## One command -/

theorem run_refused {workflow entityId event : String} {context : TransitionContext} {f : Failure}
    {s : Engine} (h : settle publish workflow entityId event context e = (.error f, s)) :
    (Command.fire workflow entityId event context).run e = s := by
  show (fire workflow entityId event context e).2 = s
  rw [fire, transition, Operation.bind_error _ h]

/-- What is left of a transition once it is settled is the publication of its event. -/
theorem run_settled {workflow entityId event : String} {context : TransitionContext} {i : Instance}
    {y : DomainEvent} {s : Engine}
    (h : settle publish workflow entityId event context e = (.ok (i, y), s)) :
    (Command.fire workflow entityId event context).run e = (publish y s).2 := by
  show (fire workflow entityId event context e).2 = _
  rw [fire, transition, Operation.bind_ok _ h]
  exact congrArg Prod.snd (Operation.bind_pure_apply (publish y) (fun _ => i) s)

theorem run_published {name : String} {payload : Json} {trail : CascadeTrail} {y : DomainEvent}
    {s : Engine} (h : newEvent name payload trail e = (.ok y, s)) :
    (Command.publish name payload trail).run e = (publish y s).2 := by
  show (publishEvent name payload trail e).2 = _
  rw [publishEvent, Operation.bind_ok _ h]

theorem run_received {name : String} {payload : Json} {y : DomainEvent} {s : Engine}
    (h : newEvent name payload .root e = (.ok y, s)) :
    (Command.onEvent name payload).run e = (processEvent y s).2 := by
  show (onEvent name payload e).2 = _
  rw [onEvent, Operation.bind_ok _ h]

theorem createInstance_published (workflow entityId : String) (data : Json)
    (actorId : Option String) :
    (createInstance workflow entityId data actorId e).2.published = e.published := by
  have hR := published_respected.toIsPreorder
  refine Keeps.bind hR (fun s => ?_) (fun d => ?_) e
  · rw [lookup_apply]
  · exact Keeps.bind hR published_respected.now fun _ _ => rfl

/-- What listeners see of a command is what it sends. -/
theorem Broadcasts.published_eq (h : Broadcasts e c log) (hq : Quiet e) :
    (c.run e).published = e.published ++ log.map (·.event) := by
  have settled {workflow entityId event context r s}
      (h : settle publish workflow entityId event context e = (r, s)) : s.published = e.published := by
    have hk := settle_keeps published_respected (silent_respects published_respected) workflow entityId
      event context e
    rwa [← settle_congr hq publish_plain.free, h] at hk
  -- in a quiet engine a transition publishes nothing before its own event
  cases h with
  | administered administers =>
    rw [Engine.published, (Command.administered administers e).trace]
    exact (List.append_nil _).symm
  | registeredHook => exact (List.append_nil _).symm
  | created => exact (createInstance_published _ _ _ _).trans (List.append_nil _).symm
  | refused hsettle =>
    rw [run_refused hsettle, settled hsettle]
    exact (List.append_nil _).symm
  | fired hsettle hpublish =>
    rw [run_settled hsettle, Cascade.map_event_sent, ← settled hsettle]
    exact hpublish.published_eq
  | published made hpublish =>
    rw [run_published made, Cascade.map_event_sent, ← newEvent_published made]
    exact hpublish.published_eq
  | processed hprocess =>
    rw [Cascade.map_event_sentOfAll]
    exact hprocess.published_eq
  | received made hprocess =>
    rw [run_received made, Cascade.map_event_sentOfAll, ← newEvent_published made]
    exact hprocess.published_eq

theorem Administered.stored? {e' : Engine} (h : Administered e e') (ho : e.Orderly)
    (key : InstanceKey) : e'.stored? key = e.stored? key := by
  obtain ⟨s, hs, -⟩ := ho.store
  have hinstances := h.instances
  rw [hs] at hinstances
  rw [Engine.stored?, Engine.stored?, hs]
  generalize e'.store = store at hinstances
  cases hinstances
  rfl

/-- A creation adds the instance that it is about, if it was missing, and leaves the others as they are. -/
theorem createInstance_stored (ho : e.Orderly) (workflow entityId : String) (data : Json)
    (actorId : Option String) (key : InstanceKey) :
    ((Command.create workflow entityId data actorId).run e).stored? key = e.stored? key ∨
      (e.stored? key = none ∧ ∃ d,
        ((Command.create workflow entityId data actorId).run e).stored? key =
          some (e.created d key.2 data actorId)) := by
  rcases createInstance_cases ho workflow entityId data actorId with
    spared | ⟨d, -, -, missing, -, stored⟩
  · exact .inl (congrArg (Store.stored? key) (spared ho).2)
  · by_cases hkey : key = (workflow, entityId)
    · subst hkey
      exact .inr ⟨missing, d, (stored _).trans (if_pos rfl)⟩
    · exact .inl ((stored key).trans (if_neg hkey))

/-- What a command sends tells how instances have changed; only creations are told by nobody. -/
theorem Broadcasts.recounts (h : Broadcasts e c log) (ho : e.Orderly) (hq : Quiet e)
    (key : InstanceKey) :
    Recounts (e.stored? key) (Sent.about key log) ((c.run e).stored? key) ∨
      (log = [] ∧ e.stored? key = none ∧ ∃ d data actorId,
        (c.run e).stored? key = some (e.created d key.2 data actorId)) := by
  -- in each case the log begins with the command's own event, and the rest is told by the cascade
  cases h with
  | administered administers =>
    rw [(Command.administered administers e).stored? ho]
    exact .inl (.refl _)
  | registeredHook => exact .inl (.refl _)
  | @created workflow entityId data actorId =>
    rcases createInstance_stored ho workflow entityId data actorId key with
      hsame | ⟨missing, d, hstored⟩
    · rw [hsame]
      exact .inl (.refl _)
    · exact .inr ⟨rfl, missing, d, data, actorId, hstored⟩
  | @refused workflow entityId event context f s hsettle =>
    rw [run_refused hsettle]
    rw [settle_congr hq publish_plain.free] at hsettle
    rcases settle_cases ho workflow entityId event context with
      ⟨f', s', h', hidle⟩ | ⟨_, _, _, _, h', -, -⟩
    · obtain ⟨-, rfl⟩ := Prod.mk.inj (h'.symm.trans hsettle)
      exact .inl ((hidle.chronicle ho).recounts key)
    · cases h'.symm.trans hsettle
  | @fired workflow entityId event context i y s t hsettle hpublish =>
    rw [run_settled hsettle]
    rw [settle_congr hq publish_plain.free] at hsettle
    rcases settle_cases ho workflow entityId event context with
      ⟨f', s', h', -⟩ | ⟨stored, entry, y', s', h', hcommits, hy⟩
    · cases h'.symm.trans hsettle
    · cases h'.symm.trans hsettle
      have hsetup := settle_keeps SameSetup.respected silent_setup workflow entityId event context e
      rw [hsettle] at hsetup
      have first := settle_chronicle ho hsettle hcommits hy
      have below := hpublish.chronicle hsetup.actions (hq.of_setup hsetup) first.orderly
      exact .inl ((chronicle_sent first hpublish below).recounts key)
  | @published name payload trail y s t made hpublish =>
    rw [run_published made]
    have hsetup := newEvent_setup made
    have first := (newEvent_idle made).chronicle_untold ho y
    have below := hpublish.chronicle hsetup.actions (hq.of_setup hsetup) first.orderly
    exact .inl ((chronicle_sent first hpublish below).recounts key)
  | processed hprocess => exact .inl ((hprocess.chronicle rfl hq ho).recounts key)
  | received made hprocess =>
    rw [run_received made]
    have hsetup := newEvent_setup made
    have first := (newEvent_idle made).chronicle ho
    have below := hprocess.chronicle hsetup.actions (hq.of_setup hsetup) first.orderly
    exact .inl ((first.trans below).recounts key)

/-! ## Runs -/

/-- Commands that register no hook that publishes leave an engine quiet. -/
theorem Quiet.run (hq : Quiet e) {c : Command} (silent : c.Silent) : Quiet (c.run e) := by
  by_cases hc : c.administers = true
  · intro name hook hh
    rw [(Command.administered hc e).hooks] at hh
    exact hq name hook hh
  cases c with
  | registerHook name hook tame =>
    intro other found hfound
    rcases Keyed.get?_insert_eq_some hfound with ⟨rfl, rfl⟩ | ⟨-, hfound⟩
    · exact silent
    · exact hq other found hfound
  | create workflow entityId data actorId =>
    exact hq.of_setup (createInstance_undisturbed workflow entityId data actorId e).1
  | fire workflow entityId event context =>
    exact hq.of_setup (fire_undisturbed workflow entityId event context e).1
  | publish name payload trail => exact hq.of_setup (publishEvent_undisturbed name payload trail e).1
  | process x => exact hq.of_setup (processEvent_undisturbed x e).1
  | onEvent name payload => exact hq.of_setup (onEvent_undisturbed name payload e).1
  | define | removeWorkflow | createRule | setEnabled | removeRule | registerGuard
  | registerAction | subscribe | unsubscribe | init | shutdown => exact absurd rfl hc

theorem Quiet.runAll (hq : Quiet e) {cs : List Command} (silent : ∀ c ∈ cs, c.Silent) :
    Quiet (e.runAll cs) := by
  induction cs generalizing e with
  | nil => exact hq
  | cons c rest ih =>
    exact ih (hq.run (silent c List.mem_cons_self)) fun d hd => silent d (List.mem_cons_of_mem _ hd)

theorem exists_logs (hq : Quiet e) {cs : List Command} (silent : ∀ c ∈ cs, c.Silent) :
    ∃ log, Logs e cs log := by
  induction cs generalizing e with
  | nil => exact ⟨[], .nil⟩
  | cons c rest ih =>
    obtain ⟨first, hfirst⟩ := exists_broadcasts hq c
    obtain ⟨later, hlater⟩ := ih (hq.run (silent c List.mem_cons_self))
      fun d hd => silent d (List.mem_cons_of_mem _ hd)
    exact ⟨_, .cons hfirst hlater⟩

/-- The log has the events that were published, in their order. -/
theorem Logs.published_eq {cs : List Command} (h : Logs e cs log) (hq : Quiet e)
    (silent : ∀ c ∈ cs, c.Silent) :
    (e.runAll cs).published = e.published ++ log.map (·.event) := by
  induction h with
  | nil => exact (List.append_nil _).symm
  | cons head tail ih =>
    have hrest := ih (hq.run (silent _ List.mem_cons_self))
      fun d hd => silent d (List.mem_cons_of_mem _ hd)
    rw [List.map_append, ← List.append_assoc, ← head.published_eq hq]
    exact hrest

/-- If the events so far tell the history of an instance, then they do so after every run. -/
theorem Logs.rebuilds {cs : List Command} (h : Logs e cs log) (ho : e.Orderly) (hq : Quiet e)
    (silent : ∀ c ∈ cs, c.Silent) {key : InstanceKey} {ys : List DomainEvent}
    (hys : Rebuilds ys (e.stored? key)) :
    Rebuilds (ys ++ Sent.about key log) ((e.runAll cs).stored? key) := by
  induction h generalizing ys with
  | nil => exact (List.append_nil ys).symm ▸ hys
  | @cons e c rest first later head tail ih =>
    rw [Sent.about_append, ← List.append_assoc]
    refine ih (c.run_effect ho).1 (hq.run (silent _ List.mem_cons_self))
      (fun d hd => silent d (List.mem_cons_of_mem _ hd)) ?_
    rcases head.recounts ho hq key with hrecounts | ⟨rfl, missing, d, data, actorId, created⟩
    · exact hys.recounts hrecounts
    · -- before its creation nothing was told of the instance
      rw [missing] at hys
      cases hys
      rw [created]
      exact .present rfl .nil

/-- A transition that is refused changes nothing that is stored and publishes nothing. -/
def RefusesSilently (publish : Publish) (e : Engine) : Prop :=
  ∀ workflow entityId event context reason e',
    transition publish workflow entityId event context e = (.error (.error reason), e') →
      e'.published = e.published ∧ ∀ key, e'.stored? key = e.stored? key

theorem refusesSilently {publish : Publish} (plain : publish.Plain) (ho : e.Orderly) (hq : Quiet e) :
    RefusesSilently publish e := by
  intro workflow entityId event context reason e' refused
  obtain ⟨idle, published⟩ := transition_refused plain ho hq refused
  exact ⟨published, idle.stored?⟩

/-- All that the events of a run tell. -/
structure Rebuilt (start : Engine) (cs : List Command) (log : List Sent) : Prop where
  /-- Listeners see all events of the run in their order. -/
  published : (start.runAll cs).published = start.published ++ log.map (·.event)
  /-- What is not stored has not been told of. -/
  untold : ∀ key, (start.runAll cs).stored? key = none → Sent.about key log = []
  /--
  What is stored has a history whose entries are numbered from 1. The events that tell of it are those
  entries, one by one, after that of the creation: they name the state after the entry, and give the
  instance as it was then, the event and the context.
  -/
  told : ∀ key stored, (start.runAll cs).stored? key = some stored →
    stored.history.map (·.sequence) = numbered stored.history.length ∧
      ∃ first rest, stored.history = first :: rest ∧
        List.Forall₂ (Announces stored.current) rest (Sent.about key log)
  refused : ∀ before after, cs = before ++ after → RefusesSilently publish (start.runAll before)
  /-- Every transition that is fired goes through or is refused. -/
  ends : ∀ before after, cs = before ++ after → ∀ workflow entityId event context why,
    (fire workflow entityId event context (start.runAll before)).1 ≠ .error (.breakdown why)

/--
After every run of commands whose hooks leave the engine alone, the events tell all histories; and a
transition that is refused tells nothing, wherever in a cascade that happens.
-/
theorem rebuilt (config : EngineConfig) (clock : Clock) (cs : List Command)
    (silent : ∀ c ∈ cs, c.Silent) :
    (∃ log, Logs (inMemory config clock) cs log) ∧
      (∀ log, Logs (inMemory config clock) cs log → Rebuilt (inMemory config clock) cs log) ∧
      ∀ e n, Orderly e → Quiet e → RefusesSilently (publishWithin n) e := by
  have ho := orderly_inMemory config clock
  have hq : Quiet (inMemory config clock) := fun _ _ h => by cases h
  refine ⟨exists_logs hq silent, fun log hlog => ?_, fun e n ho hq => ?_⟩
  -- a new engine has no instances, so the whole log is accounted for from nothing
  · have rebuilds (key : InstanceKey) :
        Rebuilds ([] ++ Sent.about key log) (((inMemory config clock).runAll cs).stored? key) :=
      hlog.rebuilds ho hq silent .absent
    refine
      { published := hlog.published_eq hq silent
        untold := fun key hnone => ?_
        told := fun key stored hstored => ?_
        refused := fun before after hcs => ?_
        ends := fun before after hcs => ?_ }
    · have h := rebuilds key
      rw [hnone, List.nil_append] at h
      generalize Sent.about key log = ys at h
      cases h
      rfl
    · have h := rebuilds key
      have sound := runAll_sound ho cs (fun _ _ h => by cases h) hstored
      rw [hstored, List.nil_append] at h
      have hsequences := sound.account.sequences
      simp only [StoredInstance.account, List.map_map, List.length_map] at hsequences
      generalize Sent.about key log = ys at h ⊢
      cases h with
      | present history told => exact ⟨hsequences, _, _, history, told⟩
    · subst hcs
      exact refusesSilently publish_plain (ho.runAll before)
        (hq.runAll fun c hc => silent c (List.mem_append_left _ hc))
    · subst hcs
      exact fire_ne_breakdown (ho.runAll before).readable
        (hq.runAll fun c hc => silent c (List.mem_append_left _ hc))
  · exact refusesSilently (publishWithin_plain n) ho hq

/-- The names of the events that tell a history are the states that were entered. -/
theorem names_of_told {i : Instance} {rest : List HistoryEntry} {ys : List DomainEvent}
    (told : List.Forall₂ (Announces i) rest ys) :
    ys.map (·.name) = (rest.map (·.toState)).map (workflowEventName i.workflow) := by
  induction told with
  | nil => rfl
  | cons announces _ ih => rw [List.map_cons, announces.name, ih, List.map_cons, List.map_cons]

/-- The rule that opens the ticket again does so inside of the transition that has closed it. -/
theorem rebuilt_reopening :
    (∀ c ∈ reopening, c.Silent) ∧
      ∃ log stored, Rebuilt (inMemory {} .counting) reopening log ∧
        ((inMemory {} .counting).runAll reopening).stored? ("ticket", "7") = some stored ∧
        stored.history.map (·.toState) = ["open", "closed", "open"] ∧
        (Sent.about ("ticket", "7") log).map (·.name) =
          ["workflow.ticket.closed", "workflow.ticket.open"] := by
  have silent : ∀ c ∈ reopening, c.Silent := by
    simp [reopening, Command.Silent]
  obtain ⟨⟨log, hlog⟩, every, -⟩ := rebuilt {} .counting reopening silent
  have hrebuilt := every log hlog
  have hstates : (((inMemory {} .counting).runAll reopening).stored? ("ticket", "7")).map
      (fun stored => (stored.current.workflow, stored.history.map (·.toState))) =
        some ("ticket", ["open", "closed", "open"]) := by
    decide +kernel
  obtain ⟨stored, hstored, hstates⟩ := Option.map_eq_some_iff.1 hstates
  obtain ⟨hworkflow, hstates⟩ := Prod.mk.inj hstates
  obtain ⟨-, first, rest, hhistory, told⟩ := hrebuilt.told _ stored hstored
  have hrest : rest.map (·.toState) = ["closed", "open"] := by
    rw [hhistory, List.map_cons] at hstates
    exact (List.cons.inj hstates).2
  refine ⟨silent, log, stored, hrebuilt, hstored, hstates, ?_⟩
  rw [names_of_told told, hworkflow, hrest]
  decide

end Engine

end WorkflowRules
