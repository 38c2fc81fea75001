import WorkflowRules.Proofs.Cascade.Published

/-!
# Who sends the events of a cascade

An event that an action publishes is either one that the action names, or it tells of a transition that
the action has fired. Which of the two it is depends on the handler of the action. So the events of a
cascade can be listed together with the instances whose transitions they tell of.

* `Sent` — a published event, and the instance whose transition it tells of
* `Cascade.sent` — the events of a tree in the order of their publication, with these instances
* `Cascade.map_event_sent` — without the instances, these are the events of the tree
* `Sent.about` — the events that tell of the transitions of one instance
-/

namespace WorkflowRules

/-- A published event, and the instance whose transition it tells of, if it tells of one. -/
structure Sent where
  event : DomainEvent
  subject : Option InstanceKey

/-- The events among those sent that tell of transitions of an instance, in their order. -/
def Sent.about (key : InstanceKey) (log : List Sent) : List DomainEvent :=
  (log.filter (·.subject = some key)).map (·.event)

/-- What two logs tell of an instance is told by both in turn. -/
theorem Sent.about_append (key : InstanceKey) (log log' : List Sent) :
    about key (log ++ log') = about key log ++ about key log' := by
  rw [about, List.filter_append, List.map_append]
  rfl

/-- An event about no instance tells nothing of any. -/
theorem Sent.about_untold (key : InstanceKey) (x : DomainEvent) : about key [⟨x, none⟩] = [] :=
  rfl

theorem Sent.about_self (key : InstanceKey) (x : DomainEvent) : about key [⟨x, some key⟩] = [x] := by
  simp [about]

theorem Sent.about_other {key other : InstanceKey} (h : other ≠ key) (x : DomainEvent) :
    about other [⟨x, some key⟩] = [] := by
  simp [about, Ne.symm h]

/-- The instance that an action fires a transition of. -/
def Engine.Firing.key (f : Engine.Firing) : InstanceKey := (f.workflow, f.entityId)

/--
Of each action whose handler publishes events, the instance whose transition its event tells of; the
action `emit_event` tells of none.
-/
def senders (handlers : Keyed String ActionHandler) (x : DomainEvent) :
    List Action → List (Option InstanceKey) :=
  List.filterMap fun action =>
    match handlers.get? action.type with
    | some .emitEvent => some none
    | some .transition => some ((Engine.firingOf action x.payload).toOption.map (·.key))
    | _ => none

namespace Cascade

mutual

/-- The events of a tree, depth first; the first one tells of the given instance. -/
def sent (handlers : Keyed String ActionHandler) : Option InstanceKey → Cascade → List Sent
  | subject, mk x considered => ⟨x, subject⟩ :: sentOfAll handlers x considered

/-- The events below the rules that were considered for an event. -/
def sentOfAll (handlers : Keyed String ActionHandler) (x : DomainEvent) :
    List (Consideration Cascade) → List Sent
  | [] => []
  | c :: rest => sentOf handlers x c ++ sentOfAll handlers x rest

/-- The events below a rule. The announcement of its record tells of no instance. -/
def sentOf (handlers : Keyed String ActionHandler) (x : DomainEvent) :
    Consideration Cascade → List Sent
  | ⟨_, dispatched, effects, none⟩ => sentOfEffects handlers (senders handlers x dispatched) effects
  | ⟨_, dispatched, effects, some closing⟩ =>
    sentOfEffects handlers (senders handlers x dispatched) effects ++ sentOfClosing handlers closing

/-- The events of the announcement of a record. -/
def sentOfClosing (handlers : Keyed String ActionHandler) : RuleExecution × Cascade → List Sent
  | (_, t) => sent handlers none t

/-- The events of trees whose first events tell of the given instances, one by one. -/
def sentOfEffects (handlers : Keyed String ActionHandler) :
    List (Option InstanceKey) → List Cascade → List Sent
  | _, [] => []
  | subjects, t :: rest =>
    sent handlers subjects.head?.join t ++ sentOfEffects handlers subjects.tail rest

end

variable (handlers : Keyed String ActionHandler)

mutual

/-- Without the instances, what is listed are the events of the tree. -/
theorem map_event_sent (subject : Option InstanceKey) (t : Cascade) :
    (sent handlers subject t).map (·.event) = events t := by
  match t with
  | mk x considered => rw [sent, List.map_cons, map_event_sentOfAll, events]

/-- What is sent for rules are the events that they led to. -/
theorem map_event_sentOfAll (x : DomainEvent) (cs : List (Consideration Cascade)) :
    (sentOfAll handlers x cs).map (·.event) = eventsOfAll cs := by
  match cs with
  | [] => rfl
  | c :: rest =>
    rw [sentOfAll, List.map_append, map_event_sentOf, map_event_sentOfAll, eventsOfAll]

theorem map_event_sentOf (x : DomainEvent) (c : Consideration Cascade) :
    (sentOf handlers x c).map (·.event) = eventsOf c := by
  match c with
  | ⟨_, _, effects, none⟩ => rw [sentOf, map_event_sentOfEffects, eventsOf]
  | ⟨_, _, effects, some closing⟩ =>
    rw [sentOf, List.map_append, map_event_sentOfEffects, map_event_sentOfClosing, eventsOf]

theorem map_event_sentOfClosing (closing : RuleExecution × Cascade) :
    (sentOfClosing handlers closing).map (·.event) = eventsOfClosing closing := by
  match closing with
  | (_, t) => rw [sentOfClosing, map_event_sent, eventsOfClosing]

theorem map_event_sentOfEffects (subjects : List (Option InstanceKey)) (ts : List Cascade) :
    (sentOfEffects handlers subjects ts).map (·.event) = eventsOfEffects ts := by
  match ts with
  | [] => rfl
  | t :: rest =>
    rw [sentOfEffects, List.map_append, map_event_sent, map_event_sentOfEffects, eventsOfEffects]

end

/-- What is sent for rules is sent for them in their order. -/
theorem sentOfAll_append (x : DomainEvent) (cs ds : List (Consideration Cascade)) :
    sentOfAll handlers x (cs ++ ds) = sentOfAll handlers x cs ++ sentOfAll handlers x ds := by
  induction cs with
  | nil => rfl
  | cons c rest ih => rw [List.cons_append, sentOfAll, ih, sentOfAll, List.append_assoc]

end Cascade

end WorkflowRules
