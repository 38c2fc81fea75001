import WorkflowRules.Proofs.Cascade.Causes
import WorkflowRules.Proofs.Cascade.Parts
import WorkflowRules.Proofs.Cascade.Published
import WorkflowRules.Proofs.Cascade.Sample
import WorkflowRules.Proofs.Engine.Readable

/-!
# Cascades come to an end

The rules of an engine may trigger themselves and one another, by the events of their actions, by the
transitions that they fire, and by the records of their evaluations. All the same, no event starts an
endless cascade: whatever a rule causes is one hop further away from the start of the chain, and
beyond the limit nothing is considered.

* `Engine.exists_processEvent` — processing an event has a derivation, which is finite
* `Engine.SetOff` — the cascades that an event sets off
* `Engine.processEvent_terminates` — how deep, and how it ends
-/

namespace WorkflowRules.Engine

open Cascade (Chain events)
open Operation (NeverRefused)

/-! ## Publishing as callers do -/

theorem le_nesting (config : EngineConfig) : config.maxCascadeDepth + 2 ≤ nesting config :=
  Nat.le_mul_of_pos_right _ (by decide)

/-- The bound of the engine reaches past the limit of any chain, so no publication is cut off by it. -/
theorem publish_derives {e : Engine} (hq : Quiet e) (depth : Nat) : Derives publish e depth where
  quiet := hq
  setup := publish_setup
  plain := publish_plain
  derives x s hs _ := by
    have h := le_nesting e.config
    refine exists_publishes hq (nesting s.config) x s hs ?_ ?_ <;> rw [hs.config] <;> omega

/-- Processing an event comes to an end. -/
theorem exists_processEvent {e : Engine} (hq : Quiet e) (x : DomainEvent) :
    ∃ considered, Processes x e considered (processEvent x e) :=
  exists_processes (publish_derives hq _) e .rfl

theorem processEvent_neverRefused (x : DomainEvent) : (processEvent x).NeverRefused :=
  process_neverRefused publish_neverRefused x

/-- And so does publishing one. -/
theorem exists_publish {e : Engine} (hq : Quiet e) (x : DomainEvent) :
    ∃ t, Publishes x e t (publish x e) :=
  (publish_derives hq x.trail.depth).derives x e .rfl rfl

/-- Where no hook publishes, the rules of an event can break down on an unreadable row only. -/
theorem processEvent_unreadable {e : Engine} (hq : Quiet e) (x : DomainEvent) {f : Failure}
    (hf : (processEvent x e).1 = .error f) : f = .unreadable := by
  obtain ⟨_, h⟩ := exists_processEvent hq x
  exact (processEvent_neverRefused x).eq_unreadable
    (fun _ hwhy => (h.bears (bears_of_ne e hwhy)).1) (Prod.ext hf rfl)

/-- And so there are records if all rows can be fetched. -/
theorem processEvent_succeeds {e : Engine} (hq : Quiet e) (readable : e.Readable) (x : DomainEvent) :
    ∃ records e', processEvent x e = (.ok records, e') := by
  obtain ⟨_, h⟩ := exists_processEvent hq x
  exact (processEvent_neverRefused x).succeeds fun _ => (h.bears fun _ => readable).1

/-- And so listeners hear of everything that is published. -/
theorem publish_succeeds {e : Engine} (hq : Quiet e) (readable : e.Readable) (x : DomainEvent) :
    ∃ e', publish x e = (.ok (), e') := by
  obtain ⟨_, h⟩ := exists_publish hq x
  obtain ⟨_, e', hrun⟩ := (publish_neverRefused x).succeeds fun _ => (h.bears fun _ => readable).1
  exact ⟨e', hrun⟩

/-! ## The cascades of an event -/

/-- An event sets off a cascade by being processed, or by being published. -/
inductive SetOff (e : Engine) (x : DomainEvent) : Cascade → Prop
  | processed {considered : List (Consideration Cascade)}
      (h : Processes x e considered (processEvent x e)) : SetOff e x (.mk x considered)
  | published {t : Cascade} (h : Publishes x e t (publish x e)) : SetOff e x t

namespace SetOff

variable {e : Engine} {x : DomainEvent} {t : Cascade}

theorem event_eq (h : SetOff e x t) : t.event = x := by
  cases h with
  | processed => rfl
  | published h => exact h.event_eq

/-- What is known of the rules considered for the first event is known of those below. -/
theorem considered (h : SetOff e x t) (hq : Quiet e) :
    ∀ u ∈ t.parts, ∀ c ∈ u.considered, Considered e u.event c := by
  refine Cascade.forall_mem_parts ?_ fun u hu root v hv => ?_
  · cases h with
    | processed h => exact h.considered hq
    | published h => exact h.considered hq
  · obtain ⟨c, hc, hv⟩ := List.mem_flatMap.1 hv
    obtain ⟨-, s, out, hs, published⟩ := ((root c hc).accounted hq).caused v hv
    exact fun d hd => (published.considered (hq.of_setup hs) d hd).of_setup hs

theorem accounted (h : SetOff e x t) (hq : Quiet e) :
    ∀ u ∈ t.parts, ∀ c ∈ u.considered, Accounted e u.event c :=
  fun u hu c hc => (h.considered hq u hu c hc).accounted hq

end SetOff

/-! ## Termination and depth -/

/-- A rule that was considered for the event of `u`, somewhere in `t`, caused `v`. -/
def Causes (t u v : Cascade) : Prop :=
  ∃ hops c, Chain t hops u ∧ c ∈ u.considered ∧ v ∈ c.caused

/-- Everything below the first event of a cascade has a cause there. -/
theorem exists_causes {x : DomainEvent} {considered : List (Consideration Cascade)}
    {y : DomainEvent} (h : y ∈ considered.flatMap fun c => c.caused.flatMap events) :
    ∃ u v, Causes (.mk x considered) u v ∧ v.event = y := by
  obtain ⟨c, hc, h⟩ := List.mem_flatMap.1 h
  obtain ⟨t, ht, h⟩ := List.mem_flatMap.1 h
  obtain ⟨hops, v, hchain, rfl⟩ := Cascade.mem_events_iff.1 h
  rcases hchain.refl_or_last with ⟨rfl, rfl⟩ | ⟨front, u, d, hfront, hd, hv⟩
  · exact ⟨_, v, ⟨[], c, .refl _, hc, ht⟩, rfl⟩
  · exact ⟨u, v, ⟨_, d, .hop hc ht hfront, hd, hv⟩, rfl⟩

/--
How the processing of an event ends: the rules that were considered for it, with everything that
they caused, form the finite tree that is given.
-/
structure Terminates (e : Engine) (x : DomainEvent) (considered : List (Consideration Cascade)) :
    Prop where
  derived : Processes x e considered (processEvent x e)
  /-- No bound on how deeply publications are nested cuts the cascade off. -/
  unbounded : ∃ bound, ∀ n, bound ≤ n → process (publishWithin n) x e = processEvent x e
  /-- There is a record for every rule in the end, unless a row of an instance cannot be fetched. -/
  records : e.Readable → ∃ records, (processEvent x e).1 = .ok records
  failure : ∀ f, (processEvent x e).1 = .error f → f = .unreadable
  /-- What is published meanwhile is the tree. -/
  published : (processEvent x e).2.published =
    e.published ++ considered.flatMap fun c => c.caused.flatMap events
  caused : ∀ y ∈ considered.flatMap fun c => c.caused.flatMap events,
    ∃ u v, Causes (.mk x considered) u v ∧ v.event = y
  /-- An event is one hop further away than the event that caused it, and the limit holds. -/
  depth : ∀ u v, Causes (.mk x considered) u v →
    v.event.trail.depth = u.event.trail.depth + 1 ∧
      v.event.trail.depth ≤ e.config.maxCascadeDepth + 1
  /-- Beyond the limit nothing is considered, whenever such an event turns up. -/
  beyond : ∀ y, e.config.maxCascadeDepth < y.trail.depth →
    (∀ publish s, SameSetup e s → process publish y s = (.ok [], s)) ∧
      ∀ hops u, Chain (.mk x considered) hops u → u.event = y → u.considered = []
  /-- Wherever the depth of a child is computed it fits into 32 bits. -/
  fits : ∀ hops u, Chain (.mk x considered) hops u → u.considered ≠ [] →
    u.event.trail.depth + 1 ≤ EngineConfig.maxLimit

/--
Processing any event comes to an end, whatever the rules, the definitions and the store are, provided
that no hook publishes and the limit is not the greatest number of 32 bits.
-/
theorem processEvent_terminates {e : Engine} (quiet : Quiet e)
    (limit : e.config.maxCascadeDepth < EngineConfig.maxLimit) (x : DomainEvent) :
    ∃ considered, Terminates e x considered := by
  obtain ⟨considered, h⟩ := exists_processEvent quiet x
  -- what holds of the rules of one event holds of those of every event that a chain leads to
  have accounted {hops : List Cascade.Hop} {u : Cascade} (hu : Chain (.mk x considered) hops u) :
      ∀ c ∈ u.considered, Accounted e u.event c :=
    accounted_of_chain quiet hu (h.accounted quiet)
  refine ⟨considered,
    { derived := h
      unbounded := Filter.eventually_atTop.1 (h.eventually quiet)
      records := fun readable => ?_
      failure := fun f hf => processEvent_unreadable quiet x hf
      published := by rw [h.published_eq, Cascade.eventsOfAll_eq]
      caused := fun y hy => exists_causes hy
      depth := ?_
      beyond := fun y far => ⟨fun publish s hs => process_dropped (hs.config ▸ far), ?_⟩
      fits := fun hops u hu hne => ?_ }⟩
  · obtain ⟨records, e', hend⟩ := processEvent_succeeds quiet readable x
    exact ⟨records, congrArg Prod.fst hend⟩
  · rintro u v ⟨hops, c, hu, hc, hv⟩
    have hacc := accounted hu c hc
    have htrail := (hacc.caused v hv).1
    have hnear := hacc.near
    rw [htrail, CascadeTrail.child_depth]
    exact ⟨rfl, by omega⟩
  · rintro hops u hu rfl
    refine List.eq_nil_iff_forall_not_mem.2 fun c hc => ?_
    have hnear := (accounted hu c hc).near
    omega
  · obtain ⟨c, hc⟩ := List.exists_mem_of_ne_nil _ hne
    have hnear := (accounted hu c hc).near
    omega

theorem processEvent_terminates_echoing :
    (Quiet echoing ∧ echoing.config.maxCascadeDepth < EngineConfig.maxLimit) ∧
      ∃ considered, Terminates echoing tick considered :=
  ⟨⟨echoing_quiet, by decide⟩, processEvent_terminates echoing_quiet (by decide) tick⟩

end WorkflowRules.Engine
