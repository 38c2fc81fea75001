import WorkflowRules.Proofs.Cascade.Senders
import WorkflowRules.Proofs.Cascade.Termination
import WorkflowRules.Proofs.Engine.Settled

/-!
# Histories told by events

Whatever a cascade does to a stored instance, the events that it sends tell of it: every entry that is
added is told by one event, and the events come in the order of the entries. This holds although the
event of one entry may set off the transition that adds the next one before the first transition is
over.

* `Recounts` — the events tell how a stored instance has changed
* `Engine.Chronicle` — the events sent tell how all stored instances have changed
* `Engine.ask_cases` — what an action does before anything is published
* `Engine.Publishes.chronicle`, `Engine.Processes.chronicle` — a whole cascade
-/

namespace WorkflowRules

open StoredInstance (SameOrigin)

/-- The events tell the entries that were added to a stored instance, one by one; nothing else changed. -/
inductive Recounts : Option StoredInstance → List DomainEvent → Option StoredInstance → Prop
  | absent : Recounts none [] none
  | present {a b : StoredInstance} {ys : List DomainEvent} {added : List HistoryEntry}
      (origin : SameOrigin a b) (history : b.history = a.history ++ added)
      (told : List.Forall₂ (Announces a.current) added ys) : Recounts (some a) ys (some b)

theorem StoredInstance.SameOrigin.moved_eq {a b : StoredInstance} (h : SameOrigin a b)
    (state : String) (version : Int) (time : Timestamp) :
    b.current.moved state version time = a.current.moved state version time := by
  simp only [Instance.moved, h.workflow, h.entityId, h.data, h.metadata, h.createdAt]

/-- Which event tells an entry does not depend on how far the instance has come. -/
theorem announces_iff {a b : StoredInstance} (h : SameOrigin a b) {entry : HistoryEntry}
    {y : DomainEvent} : Announces b.current entry y ↔ Announces a.current entry y := by
  have hmoved := h.moved_eq entry.toState entry.sequence entry.timestamp
  constructor
  · exact fun hy => ⟨h.workflow ▸ hy.name, hmoved ▸ hy.payload⟩
  · exact fun hy => ⟨h.workflow ▸ hy.name, hmoved ▸ hy.payload⟩

theorem Recounts.refl (found : Option StoredInstance) : Recounts found [] found := by
  cases found with
  | none => exact .absent
  | some a => exact .present .rfl (List.append_nil _).symm .nil

/-- What is told in two parts can be told in one. -/
theorem Recounts.trans {a b c : Option StoredInstance} {xs ys : List DomainEvent}
    (hab : Recounts a xs b) (hbc : Recounts b ys c) : Recounts a (xs ++ ys) c := by
  cases hab with
  | absent => exact hbc
  | present origin history told =>
    cases hbc with
    | present origin' history' told' =>
      refine .present (origin.trans origin') (by rw [history', history, List.append_assoc]) ?_
      exact List.rel_append told (told'.imp fun _ _ => (announces_iff origin).1)

namespace Engine

open Cascade (sent sentOf sentOfAll sentOfEffects sentOfClosing)

/-- The engine stays orderly, and what was sent tells how its instances have changed. -/
structure Chronicle (e : Engine) (log : List Sent) (e' : Engine) : Prop where
  orderly : e'.Orderly
  recounts : ∀ key, Recounts (e.stored? key) (Sent.about key log) (e'.stored? key)

variable {e e' : Engine} {x : DomainEvent}

theorem Chronicle.trans {c : Engine} {log log' : List Sent} (h₁ : Chronicle e log e')
    (h₂ : Chronicle e' log' c) : Chronicle e (log ++ log') c where
  orderly := h₂.orderly
  recounts key := by
    rw [Sent.about_append]
    exact (h₁.recounts key).trans (h₂.recounts key)

theorem Idle.chronicle (h : Idle e e') (ho : e.Orderly) : Chronicle e [] e' where
  orderly := h.orderly ho
  recounts key := h.stored? key ▸ Recounts.refl _

/-- An event that tells of no transition, sent while nothing is stored. -/
theorem Idle.chronicle_untold (h : Idle e e') (ho : e.Orderly) (y : DomainEvent) :
    Chronicle e [⟨y, none⟩] e' where
  orderly := h.orderly ho
  recounts key := by
    rw [Sent.about_untold, h.stored? key]
    exact .refl _

/-- An event that tells of the entry that was committed. -/
theorem Commits.chronicle {key : InstanceKey} {stored : StoredInstance} {entry : HistoryEntry}
    {y : DomainEvent} (h : Commits e e' key stored entry) (ho : e'.Orderly)
    (hy : Announces stored.current (stored.lastEntry entry) y) :
    Chronicle e [⟨y, some key⟩] e' where
  orderly := ho
  recounts other := by
    by_cases hother : other = key
    · subst hother
      rw [h.found, h.left, Sent.about_self]
      exact .present ⟨rfl, rfl, rfl, rfl, rfl⟩ rfl (.cons hy .nil)
    · rw [h.others other hother, Sent.about_other hother]
      exact Recounts.refl _

/-! ## Actions -/

/-- What an action does before anything is published, and whose transition its event tells of. -/
inductive Asks (e : Engine) (action : Action) (context : ActionContext) :
    Except Failure Request × Engine → Prop
  | broken {f e'} (idle : Idle e e') : Asks e action context (.error f, e')
  | refused {reason e'} (idle : Idle e e') :
      Asks e action context (.ok (.answer (.error reason)), e')
  | answered {output e'} (idle : Idle e e')
      (untold : senders e.actions context.event [action] = []) :
      Asks e action context (.ok (.answer (.ok output)), e')
  | published {y output subject e'} (chronicle : Chronicle e [⟨y, subject⟩] e')
      (told : senders e.actions context.event [action] = [subject]) :
      Asks e action context (.ok (.publication y output), e')

variable {s : Engine} {action : Action} {context : ActionContext}

/-- A settled transition has written one entry, and the event that is published next tells of it. -/
theorem settle_chronicle (h : s.Orderly) {workflow entityId event : String}
    {context : TransitionContext} {stored : StoredInstance} {entry : HistoryEntry} {y : DomainEvent}
    (settled : settle silent workflow entityId event context s =
      (.ok ((stored.next entry).current, y), e'))
    (commits : Commits s e' (workflow, entityId) stored entry)
    (announces : Announces stored.current (stored.lastEntry entry) y) :
    Chronicle s [⟨y, some (workflow, entityId)⟩] e' := by
  have hsteady := settle_keeps Steady.respected (silent_respects Steady.respected) workflow entityId
    event context s
  rw [settled] at hsteady
  exact commits.chronicle (hsteady.orderly.2 h) announces

/-- An action that publishes an event of its own commits nothing. -/
theorem request_emitEvent (h : e.Orderly) (observed : Idle e s)
    (handler : e.actions.get? action.type = some .emitEvent) :
    Asks e action context (request action context .emitEvent s) := by
  have told : senders e.actions context.event [action] = [none] := by
    simp [senders, handler]
  unfold request
  cases (action.param? "event").filter fun name => !Text.isBlank name with
  | none => exact .refused observed
  | some name =>
    dsimp only
    obtain ⟨y, s', hy⟩ := exists_newEvent name
      ((action.params.get? "payload").getD context.event.payload) context.childTrail s
    rw [Operation.bind_ok _ hy]
    exact .published ((observed.trans (newEvent_idle hy)).chronicle_untold h y) told

/-- An action that writes to the log commits nothing and publishes nothing. -/
theorem request_log (observed : Idle e s) (handler : e.actions.get? action.type = some .log) :
    Asks e action context (request action context .log s) := by
  have untold : senders e.actions context.event [action] = [] := by
    simp [senders, handler]
  show Asks e action context ((runLog action context >>= fun outcome =>
    pure (.answer outcome) : Operation Engine Request) s)
  unfold runLog
  dsimp only
  split
  · exact .answered (observed.trans (observe_idle _ s)) untold
  · exact .refused observed

/-- An action that makes a transition commits it and publishes its event, or does neither. -/
theorem request_transition (h : e.Orderly) (observed : Idle e s)
    (handler : e.actions.get? action.type = some .transition) :
    Asks e action context (request action context .transition s) := by
  unfold request
  cases hf : firingOf action context.event.payload with
  | error reason => exact .refused observed
  | ok f =>
    have told : senders e.actions context.event [action] = [some f.key] := by
      simp [senders, handler, hf, Except.toOption]
    dsimp only
    rcases settle_cases (observed.orderly h) f.workflow f.entityId f.event (firingContext context) with
      ⟨reason | _, s', hsettle, hidle⟩ | ⟨stored, entry, y, s', hsettle, hcommits, hy⟩
    · rw [Operation.bind_ok _ (Operation.attempt_error hsettle)]
      exact .refused (observed.trans hidle)
    · rw [Operation.bind_error _ (Operation.attempt_breakdown hsettle)]
      exact .broken (observed.trans hidle)
    · rw [Operation.bind_ok _ (Operation.attempt_ok hsettle)]
      have hchronicle := settle_chronicle (observed.orderly h) hsettle hcommits hy
      exact .published ((observed.chronicle h).trans hchronicle) told

/-- What a handler from outside does, it does not do to the store. -/
theorem request_custom (observed : Idle e s)
    {run : Nat → Action → ActionContext → Except String Json}
    (handler : e.actions.get? action.type = some (.custom run)) :
    Asks e action context (request action context (.custom run) s) := by
  have untold : senders e.actions context.event [action] = [] := by
    simp [senders, handler]
  have counted : Idle e (nextCall s).2 := observed.trans ⟨rfl, rfl, rfl⟩
  show Asks e action context (.ok (.answer (run s.called action context)), (nextCall s).2)
  cases run s.called action context with
  | error reason => exact .refused counted
  | ok output => exact .answered counted untold

/-- An action commits at most what the event that it publishes tells of. -/
theorem ask_cases (h : e.Orderly) {out : Except Failure Request × Engine}
    (asked : ask action context e = out) : Asks e action context out := by
  subst asked
  unfold ask
  rw [Operation.bind_apply, Operation.view_apply]
  dsimp only
  cases hh : e.actions.get? action.type with
  | none => exact .refused .rfl
  | some handler =>
    -- the call of the handler is observed first
    have observed := observe_idle (.actionRan handler.isBuiltIn action context) e
    show Asks e action context (request action context handler
      (observe (.actionRan handler.isBuiltIn action context) e).2)
    generalize (observe (.actionRan handler.isBuiltIn action context) e).2 = s at observed ⊢
    cases handler with
    | emitEvent => exact request_emitEvent h observed hh
    | log => exact request_log observed hh
    | transition => exact request_transition h observed hh
    | custom run => exact request_custom observed hh

theorem senders_cons (handlers : Keyed String ActionHandler) (x : DomainEvent) (action : Action)
    (rest : List Action) :
    senders handlers x (action :: rest) = senders handlers x [action] ++ senders handlers x rest :=
  List.filterMap_append (l := [action])

/-! ## Cascades -/

/-- What an event tells of comes before what it sets off. -/
theorem chronicle_sent {handlers : Keyed String ActionHandler} {e₁ : Engine}
    {subject : Option InstanceKey} {y : DomainEvent} {t : Cascade} {out : End Unit}
    (first : Chronicle e [⟨y, subject⟩] e₁) (published : Publishes y e₁ t out)
    (below : Chronicle e₁ (sentOfAll handlers y t.considered) out.2) :
    Chronicle e (t.sent handlers subject) out.2 := by
  cases published with
  | intro delivered => exact first.trans below

variable {handlers : Keyed String ActionHandler}

/-- The announcement of a record, and what it sets off. -/
theorem Chronicle.announced {log : List Sent} {e₁ e₂ : Engine} {payload : Json}
    {trail : CascadeTrail} {y : DomainEvent} {t : Cascade} {out : End Unit}
    (first : Chronicle e log e₁) (notice : newEvent ruleExecutedEvent payload trail e₁ = (.ok y, e₂))
    (published : Publishes y e₂ t out)
    (below : Chronicle e₂ (sentOfAll handlers y t.considered) out.2) :
    Chronicle e (log ++ t.sent handlers none) out.2 :=
  first.trans
    (chronicle_sent ((newEvent_idle notice).chronicle_untold first.orderly y) published below)

mutual

/-- A publication tells of every commit that it sets off. -/
theorem Publishes.chronicle {x : DomainEvent} {e : Engine} {t : Cascade} {out : End Unit}
    (h : Publishes x e t out) (hh : e.actions = handlers) (hq : Quiet e) (ho : e.Orderly) :
    Chronicle e (sentOfAll handlers x t.considered) out.2 := by
  match h with
  | .intro delivered =>
    have hidle := observe_idle (.published x) e
    exact (hidle.chronicle ho).trans (delivered.chronicle hh hq (hidle.orderly ho))

theorem Delivers.chronicle {x : DomainEvent} {subscribers : List Subscriber} {e : Engine}
    {considered : List (Consideration Cascade)} {out : End Unit}
    (h : Delivers x subscribers e considered out) (hh : e.actions = handlers) (hq : Quiet e)
    (ho : e.Orderly) : Chronicle e (sentOfAll handlers x considered) out.2 := by
  match h with
  | .done => exact Idle.rfl.chronicle ho
  | .listener rest =>
    exact ((observe_idle _ e).chronicle ho).trans
      (rest.chronicle hh hq ((observe_idle _ e).orderly ho))
  | .rules processed rest =>
    have hs := processed.setup hq
    have first := processed.chronicle hh hq ho
    rw [Cascade.sentOfAll_append]
    exact first.trans (rest.chronicle (hs.actions.trans hh) (hq.of_setup hs) first.orderly)
  | .broken processed => exact processed.chronicle hh hq ho

/-- An event that is processed tells of every commit that it sets off. -/
theorem Processes.chronicle {x : DomainEvent} {e : Engine}
    {considered : List (Consideration Cascade)} {out : End (List RuleExecution)}
    (h : Processes x e considered out) (hh : e.actions = handlers) (hq : Quiet e)
    (ho : e.Orderly) : Chronicle e (sentOfAll handlers x considered) out.2 := by
  match h with
  | .dropped far => exact Idle.rfl.chronicle ho
  | .taken near all => exact all.chronicle hh hq ho

theorem ConsidersAll.chronicle {x : DomainEvent} {mode : MatchMode} {rules : List Rule}
    {e : Engine} {considered : List (Consideration Cascade)} {out : End (List RuleExecution)}
    (h : ConsidersAll x mode rules e considered out) (hh : e.actions = handlers) (hq : Quiet e)
    (ho : e.Orderly) : Chronicle e (sentOfAll handlers x considered) out.2 := by
  -- by recursion on the derivation; what a rule led to comes before the announcement of its record
  match h with
  | .done => exact Idle.rfl.chronicle ho
  | .broken first =>
    have hfirst := first.chronicle hh hq ho
    rw [sentOfAll, sentOf, sentOfAll, List.append_nil]
    exact hfirst
  | .brokenNotice first notice announced =>
    have hfirst := first.chronicle hh hq ho
    have hs := (first.setup hq).trans (newEvent_setup notice)
    have hbelow := announced.chronicle (hs.actions.trans hh) (hq.of_setup hs)
      ((newEvent_idle notice).orderly hfirst.orderly)
    rw [sentOfAll, sentOf, sentOfAll, List.append_nil, sentOfClosing]
    exact hfirst.announced notice announced hbelow
  | .last first notice announced stop =>
    have hfirst := first.chronicle hh hq ho
    have hs := (first.setup hq).trans (newEvent_setup notice)
    have hbelow := announced.chronicle (hs.actions.trans hh) (hq.of_setup hs)
      ((newEvent_idle notice).orderly hfirst.orderly)
    rw [sentOfAll, sentOf, sentOfAll, List.append_nil, sentOfClosing]
    exact hfirst.announced notice announced hbelow
  | .next first notice announced go others =>
    have hfirst := first.chronicle hh hq ho
    have hs := (first.setup hq).trans (newEvent_setup notice)
    have hbelow := announced.chronicle (hs.actions.trans hh) (hq.of_setup hs)
      ((newEvent_idle notice).orderly hfirst.orderly)
    have hs₂ := hs.trans (announced.setup (hq.of_setup hs))
    have hothers := others.chronicle (hs₂.actions.trans hh) (hq.of_setup hs₂) hbelow.orderly
    rw [sentOfAll, sentOf, sentOfClosing]
    exact (hfirst.announced notice announced hbelow).trans hothers

theorem Considers.chronicle {x : DomainEvent} {rule : Rule} {e : Engine}
    {dispatched : List Action} {effects : List Cascade} {out : End RuleExecution}
    (h : Considers x rule e dispatched effects out) (hh : e.actions = handlers) (hq : Quiet e)
    (ho : e.Orderly) :
    Chronicle e (sentOfEffects handlers (senders handlers x dispatched) effects) out.2 := by
  match h with
  | .skipped why => exact Idle.rfl.chronicle ho
  | .fires fires actions => exact actions.chronicle hh hq ho

theorem RunsActions.chronicle {context : ActionContext} {actions : List Action} {e : Engine}
    {dispatched : List Action} {effects : List Cascade} {out : End (List ActionResult)}
    (h : RunsActions context actions e dispatched effects out) (hh : e.actions = handlers)
    (hq : Quiet e) (ho : e.Orderly) :
    Chronicle e (sentOfEffects handlers (senders handlers context.event dispatched) effects)
      out.2 := by
  -- by recursion on the derivation: each action has told what it committed before the next one is asked
  match h with
  | .done => exact Idle.rfl.chronicle ho
  | .broken asked =>
    cases ask_cases ho asked with
    | broken idle => exact idle.chronicle ho
  | .failed asked =>
    cases ask_cases ho asked with
    | refused idle => exact idle.chronicle ho
  | .answered asked others =>
    have hs := ask_setup asked
    cases ask_cases ho asked with
    | answered idle untold =>
      rw [hh] at untold
      rw [senders_cons, untold]
      exact (idle.chronicle ho).trans
        (others.chronicle (hs.actions.trans hh) (hq.of_setup hs) (idle.orderly ho))
  | .brokenEffect asked effect =>
    have hs := ask_setup asked
    cases ask_cases ho asked with
    | published first told =>
      rw [hh] at told
      have hbelow := effect.chronicle (hs.actions.trans hh) (hq.of_setup hs) first.orderly
      rw [told, sentOfEffects, sentOfEffects, List.append_nil]
      exact chronicle_sent first effect hbelow
  | .published asked effect others =>
    have hs := ask_setup asked
    have hs₂ := hs.trans (effect.setup (hq.of_setup hs))
    cases ask_cases ho asked with
    | published first told =>
      rw [hh] at told
      have hbelow := effect.chronicle (hs.actions.trans hh) (hq.of_setup hs) first.orderly
      rw [senders_cons, told, sentOfEffects]
      exact (chronicle_sent first effect hbelow).trans
        (others.chronicle (hs₂.actions.trans hh) (hq.of_setup hs₂) hbelow.orderly)

end

end Engine

end WorkflowRules
