import WorkflowRules.Proofs.Cascade.Depth

/-!
# Limits that make no difference

The limit on the length of chains decides about an event only when rules listen to it. Where both of two
limits let all of these pass, a cascade is the same under both. So when no rule listens to announcements
of records, all limits that leave room for every rule to fire once are alike: the cycle guard has cut
each chain off before they would.

* `Engine.withLimit` — the engine with another limit
* `Engine.LimitFree` — what an operation does has nothing to do with the limit
* `Engine.Passing` — two limits let all events of a tree pass that rules listen to
* `Publishes.withLimit`, `Processes.withLimit` — then a derivation under one is a derivation under the other
* `Engine.cycle_guard_bounds` — how far cascades reach, and that greater limits make no difference
-/

namespace WorkflowRules.Engine

/-- The engine with another limit. -/
def withLimit (e : Engine) (limit : Nat) : Engine :=
  { e with config := { e.config with maxCascadeDepth := limit } }

/-! ## What has nothing to do with the limit -/

/-- The operation does the same under every limit, and leaves the limit alone. -/
def LimitFree {α : Type} (x : Operation Engine α) : Prop :=
  ∀ e limit, x (e.withLimit limit) = ((x e).1, (x e).2.withLimit limit)

section LimitFree

variable {α β : Type} {x : Operation Engine α} {e e' : Engine}

/-- Under another limit the same run ends in the same way. -/
theorem LimitFree.apply_eq (h : LimitFree x) {r : Except Failure α} (hx : x e = (r, e'))
    (limit : Nat) : x (e.withLimit limit) = (r, e'.withLimit limit) := by
  rw [h, hx]

/-- A sequence does not depend on the limit if none of its parts does. -/
theorem LimitFree.bind {f : α → Operation Engine β} (hx : LimitFree x) (hf : ∀ a, LimitFree (f a)) :
    LimitFree (x >>= f) := by
  intro e limit
  rw [Operation.bind_apply, Operation.bind_apply, hx e limit]
  rcases x e with ⟨failure | a, e'⟩
  · rfl
  · exact hf a e' limit

/-- To catch refusals has nothing to do with the limit. -/
theorem LimitFree.attempt (hx : LimitFree x) : LimitFree (Operation.attempt x) := by
  intro e limit
  unfold Operation.attempt
  rw [hx e limit]
  rcases x e with ⟨(reason | _) | a, e'⟩ <;> rfl

/-- Transitions have nothing to do with the limit, as long as nothing that they publish has. -/
theorem limitFree_transitions : TransitionClosed fun _ x _ => LimitFree x where
  pure _ _ _ := rfl
  fail _ _ _ := rfl
  bind := .bind
  attempt := .attempt
  guardOf _ _ _ := rfl
  hookOf _ _ _ := rfl
  guardAsked _ _ _ _ := rfl
  hookRan _ _ _ _ := rfl
  now _ _ := rfl
  newIdentifier _ _ := rfl
  nextCall _ _ := rfl
  commit _ _ _ _ _ := rfl
  commitDirectly _ _ _ _ _ := rfl
  select held := by
    refine .of_steps .bind (fun name e limit => ?_) (fun key e limit => ?_) (fun key e limit => ?_)
      fun d i event e limit => ?_
    · rw [lookup_apply, lookup_apply]
      rfl
    · rw [reserve_apply, reserve_apply]
    · rw [load_apply, load_apply]
      rfl
    · rw [select_apply, select_apply]

/-- What an action asks for has nothing to do with the limit. -/
theorem ask_limitFree (action : Action) (context : ActionContext) :
    LimitFree (ask action context) := by
  refine LimitFree.bind (fun _ _ => rfl) fun found => ?_
  cases found with
  | none => exact fun _ _ => rfl
  | some handler =>
    refine LimitFree.bind (fun _ _ => rfl) fun _ => ?_
    exact limitFree_transitions.request (limitFree_transitions.select []) (fun _ _ _ => rfl) action context handler

/-- An event is made in the same way under all limits. -/
theorem newEvent_limitFree (name : String) (payload : Json) (trail : CascadeTrail) :
    LimitFree (newEvent name payload trail) :=
  limitFree_transitions.newEvent name payload trail

end LimitFree

/-! ## Events that two limits let pass -/

variable {e e' : Engine} {limit : Nat} {x : DomainEvent}

/-- No rule listens to the event, or it is within the limit of the engine and within another one. -/
def PassingEvent (e : Engine) (limit : Nat) (x : DomainEvent) : Prop :=
  e.rules.bucket x.name = [] ∨ (x.trail.depth ≤ e.config.maxCascadeDepth ∧ x.trail.depth ≤ limit)

/-- All events of a tree are such events. -/
def Passing (e : Engine) (limit : Nat) (t : Cascade) : Prop :=
  ∀ u ∈ t.parts, PassingEvent e limit u.event

/-- All events are such events that some rules caused, with everything that came of them. -/
def PassingBelow (e : Engine) (limit : Nat) (cs : List (Consideration Cascade)) : Prop :=
  ∀ c ∈ cs, ∀ t ∈ c.caused, Passing e limit t

/-- Whether an event passes depends on the setup only. -/
theorem PassingEvent.of_setup (hs : SameSetup e e') (h : PassingEvent e limit x) : PassingEvent e' limit x := by
  unfold PassingEvent
  rw [hs.rules, hs.config]
  exact h

theorem Passing.of_setup (hs : SameSetup e e') {t : Cascade} (h : Passing e limit t) :
    Passing e' limit t :=
  fun u hu => (h u hu).of_setup hs

theorem PassingBelow.of_setup (hs : SameSetup e e') {cs : List (Consideration Cascade)}
    (h : PassingBelow e limit cs) : PassingBelow e' limit cs :=
  fun c hc t ht => (h c hc t ht).of_setup hs

theorem Passing.root {cs : List (Consideration Cascade)} (h : Passing e limit (.mk x cs)) :
    PassingEvent e limit x :=
  h _ (Cascade.self_mem_parts _)

theorem Passing.below {cs : List (Consideration Cascade)} (h : Passing e limit (.mk x cs)) :
    PassingBelow e limit cs :=
  fun _ hc _ ht u hu => h u (Cascade.mem_parts_of_child (List.mem_flatMap.2 ⟨_, hc, ht⟩) hu)

theorem PassingBelow.left {cs others : List (Consideration Cascade)}
    (h : PassingBelow e limit (cs ++ others)) : PassingBelow e limit cs :=
  fun c hc => h c (List.mem_append_left _ hc)

theorem PassingBelow.right {cs others : List (Consideration Cascade)}
    (h : PassingBelow e limit (cs ++ others)) : PassingBelow e limit others :=
  fun c hc => h c (List.mem_append_right _ hc)

theorem PassingBelow.effects {rule : Rule} {dispatched : List Action} {effects : List Cascade}
    {closing : Option (RuleExecution × Cascade)} {others : List (Consideration Cascade)}
    (h : PassingBelow e limit (⟨rule, dispatched, effects, closing⟩ :: others)) :
    ∀ t ∈ effects, Passing e limit t :=
  fun t ht => h _ List.mem_cons_self t (List.mem_append_left _ ht)

theorem PassingBelow.closing {rule : Rule} {dispatched : List Action} {effects : List Cascade}
    {record : RuleExecution} {t : Cascade} {others : List (Consideration Cascade)}
    (h : PassingBelow e limit (⟨rule, dispatched, effects, some (record, t)⟩ :: others)) :
    Passing e limit t :=
  h _ List.mem_cons_self t (List.mem_append_right _ List.mem_cons_self)

theorem PassingBelow.tail {c : Consideration Cascade} {others : List (Consideration Cascade)}
    (h : PassingBelow e limit (c :: others)) : PassingBelow e limit others :=
  fun d hd => h d (List.mem_cons_of_mem _ hd)

/-- For an event that no rule listens to, none is considered under any limit. -/
theorem processes_unheard (h : e.rules.bucket x.name = []) : Processes x e [] (.ok [], e) := by
  by_cases near : x.trail.depth ≤ e.config.maxCascadeDepth
  · exact .taken near (h ▸ .done)
  · exact .dropped (Nat.lt_of_not_le near)

/-! ## The same cascade under another limit -/

mutual

/-- A publication whose events pass under both limits is the same under the other one. -/
theorem Publishes.withLimit {x : DomainEvent} {e : Engine} {t : Cascade} {out : End Unit}
    (h : Publishes x e t out) (hq : Quiet e) (pass : Passing e limit t) :
    Publishes x (e.withLimit limit) t (out.1, out.2.withLimit limit) := by
  match h with
  | .intro delivered =>
    have hs := observe_setup (.published x) e
    exact .intro (delivered.withLimit (hq.of_setup hs) (pass.root.of_setup hs) (pass.below.of_setup hs))

theorem Delivers.withLimit {x : DomainEvent} {subscribers : List Subscriber} {e : Engine}
    {considered : List (Consideration Cascade)} {out : End Unit}
    (h : Delivers x subscribers e considered out) (hq : Quiet e) (here : PassingEvent e limit x)
    (below : PassingBelow e limit considered) :
    Delivers x subscribers (e.withLimit limit) considered (out.1, out.2.withLimit limit) := by
  match h with
  | .done => exact .done
  | .listener rest =>
    exact .listener (rest.withLimit (hq.of_setup (observe_setup _ e))
      (here.of_setup (observe_setup _ e)) (below.of_setup (observe_setup _ e)))
  | .rules processed rest =>
    have hs := processed.setup hq
    exact .rules (processed.withLimit hq here below.left)
      (rest.withLimit (hq.of_setup hs) (here.of_setup hs) (below.right.of_setup hs))
  | .broken processed => exact .broken (processed.withLimit hq here below)

/-- An event that is processed and passes under both limits is processed alike under the other one. -/
theorem Processes.withLimit {x : DomainEvent} {e : Engine}
    {considered : List (Consideration Cascade)} {out : End (List RuleExecution)}
    (h : Processes x e considered out) (hq : Quiet e) (here : PassingEvent e limit x)
    (below : PassingBelow e limit considered) :
    Processes x (e.withLimit limit) considered (out.1, out.2.withLimit limit) := by
  match h with
  | .dropped far =>
    rcases here with unheard | ⟨near, -⟩
    · exact processes_unheard unheard
    · exact absurd near (Nat.not_le_of_lt far)
  | .taken near all =>
    rcases here with unheard | ⟨-, near'⟩
    · rw [unheard] at all
      cases all
      exact processes_unheard unheard
    · exact .taken near' (all.withLimit hq below)

theorem ConsidersAll.withLimit {x : DomainEvent} {mode : MatchMode} {rules : List Rule} {e : Engine}
    {considered : List (Consideration Cascade)} {out : End (List RuleExecution)}
    (h : ConsidersAll x mode rules e considered out) (hq : Quiet e)
    (below : PassingBelow e limit considered) :
    ConsidersAll x mode rules (e.withLimit limit) considered (out.1, out.2.withLimit limit) := by
  match h with
  | .done => exact .done
  | .broken first => exact .broken (first.withLimit hq below.effects)
  | .brokenNotice first notice announced =>
    have hs := (first.setup hq).trans (newEvent_setup notice)
    exact .brokenNotice (first.withLimit hq below.effects)
      ((newEvent_limitFree _ _ _).apply_eq notice limit)
      (announced.withLimit (hq.of_setup hs) (below.closing.of_setup hs))
  | .last first notice announced stop =>
    have hs := (first.setup hq).trans (newEvent_setup notice)
    exact .last (first.withLimit hq below.effects)
      ((newEvent_limitFree _ _ _).apply_eq notice limit)
      (announced.withLimit (hq.of_setup hs) (below.closing.of_setup hs)) stop
  | .next first notice announced go others =>
    have hs := (first.setup hq).trans (newEvent_setup notice)
    have hs₂ := hs.trans (announced.setup (hq.of_setup hs))
    exact .next (first.withLimit hq below.effects)
      ((newEvent_limitFree _ _ _).apply_eq notice limit)
      (announced.withLimit (hq.of_setup hs) (below.closing.of_setup hs)) go
      (others.withLimit (hq.of_setup hs₂) (below.tail.of_setup hs₂))

theorem Considers.withLimit {x : DomainEvent} {rule : Rule} {e : Engine}
    {dispatched : List Action} {effects : List Cascade} {out : End RuleExecution}
    (h : Considers x rule e dispatched effects out) (hq : Quiet e)
    (pass : ∀ t ∈ effects, Passing e limit t) :
    Considers x rule (e.withLimit limit) dispatched effects (out.1, out.2.withLimit limit) := by
  match h with
  | .skipped why => exact .skipped why
  | .fires fires actions => exact .fires fires (actions.withLimit hq pass)

theorem RunsActions.withLimit {context : ActionContext} {actions : List Action} {e : Engine}
    {dispatched : List Action} {effects : List Cascade} {out : End (List ActionResult)}
    (h : RunsActions context actions e dispatched effects out) (hq : Quiet e)
    (pass : ∀ t ∈ effects, Passing e limit t) :
    RunsActions context actions (e.withLimit limit) dispatched effects
      (out.1, out.2.withLimit limit) := by
  match h with
  | .done => exact .done
  | .broken asked => exact .broken ((ask_limitFree _ _).apply_eq asked limit)
  | .failed asked => exact .failed ((ask_limitFree _ _).apply_eq asked limit)
  | .answered asked others =>
    have hs := ask_setup asked
    exact .answered ((ask_limitFree _ _).apply_eq asked limit)
      (others.withLimit (hq.of_setup hs) fun t ht => (pass t ht).of_setup hs)
  | .brokenEffect asked effect =>
    have hs := ask_setup asked
    exact .brokenEffect ((ask_limitFree _ _).apply_eq asked limit)
      (effect.withLimit (hq.of_setup hs) ((pass _ List.mem_cons_self).of_setup hs))
  | .published asked effect others =>
    have hs := ask_setup asked
    have hs₂ := hs.trans (effect.setup (hq.of_setup hs))
    exact .published ((ask_limitFree _ _).apply_eq asked limit)
      (effect.withLimit (hq.of_setup hs) ((pass _ List.mem_cons_self).of_setup hs))
      (others.withLimit (hq.of_setup hs₂) fun t ht =>
        (pass t (List.mem_cons_of_mem _ ht)).of_setup hs₂)

end

/-! ## Limits that leave room for every rule -/

/-- The processing and the publication of an event are the same under two limits. -/
structure SameUnder (e : Engine) (n m : Nat) (x : DomainEvent) : Prop where
  cascades : ∀ t, SetOff (e.withLimit n) x t → SetOff (e.withLimit m) x t
  /--
  The values are the same, and so are the store, the clock and all that could be seen meanwhile: the
  engine that is left differs in nothing but its limit.
  -/
  processed : processEvent x (e.withLimit m) =
    ((processEvent x (e.withLimit n)).1, (processEvent x (e.withLimit n)).2.withLimit m)
  published : publish x (e.withLimit m) =
    ((publish x (e.withLimit n)).1, (publish x (e.withLimit n)).2.withLimit m)

section

variable {rules : List Rule} {n m : Nat}

/-- Two limits that leave room for every rule let all events of a cascade pass. -/
theorem SetOff.passing {t : Cascade} (h : SetOff (e.withLimit n) x t) (quiet : Quiet e)
    (table : e.rules.Represents rules) (unheard : ∀ r ∈ rules, r.trigger ≠ ruleExecutedEvent)
    (hn : x.trail.depth + rules.length ≤ n) (hm : x.trail.depth + rules.length ≤ m) :
    Passing (e.withLimit n) m t := by
  intro u hu
  have hwithin := h.within quiet table unheard u hu
  by_cases heard : ∃ r ∈ rules, r.trigger = u.event.name
  · obtain ⟨r, hr, heard⟩ := heard
    have room := Nat.le_of_add_right_le (hwithin.room hr heard)
    exact .inr ⟨room.trans hn, room.trans hm⟩
  · refine .inl (List.eq_nil_iff_forall_not_mem.2 fun r hr => heard ?_)
    exact ⟨r, table.mem_bucket.1 hr⟩

/-- Two limits with room for every rule make no difference. -/
theorem sameUnder (quiet : Quiet e) (table : e.rules.Represents rules)
    (unheard : ∀ r ∈ rules, r.trigger ≠ ruleExecutedEvent)
    (hn : x.trail.depth + rules.length ≤ n) (hm : x.trail.depth + rules.length ≤ m) :
    SameUnder e n m x := by
  have hqn : Quiet (e.withLimit n) := quiet
  have hqm : Quiet (e.withLimit m) := quiet
  -- a derivation under one limit is one under the other, and outcomes are unique
  have processes {considered : List (Consideration Cascade)}
      (h : Processes x (e.withLimit n) considered (processEvent x (e.withLimit n))) :
      Processes x (e.withLimit m) considered
        ((processEvent x (e.withLimit n)).1, (processEvent x (e.withLimit n)).2.withLimit m) := by
    have pass := (SetOff.processed h).passing quiet table unheard hn hm
    exact h.withLimit hqn pass.root pass.below
  have publishes {t : Cascade} (h : Publishes x (e.withLimit n) t (publish x (e.withLimit n))) :
      Publishes x (e.withLimit m) t
        ((publish x (e.withLimit n)).1, (publish x (e.withLimit n)).2.withLimit m) :=
    h.withLimit hqn ((SetOff.published h).passing quiet table unheard hn hm)
  have processed : processEvent x (e.withLimit m) =
      ((processEvent x (e.withLimit n)).1, (processEvent x (e.withLimit n)).2.withLimit m) := by
    obtain ⟨considered, h⟩ := exists_processEvent hqn x
    obtain ⟨considered', h'⟩ := exists_processEvent hqm x
    exact h'.outcome_unique (processes h) hqm
  have published : publish x (e.withLimit m) =
      ((publish x (e.withLimit n)).1, (publish x (e.withLimit n)).2.withLimit m) := by
    obtain ⟨t, h⟩ := exists_publish hqn x
    obtain ⟨t', h'⟩ := exists_publish hqm x
    exact h'.outcome_unique (publishes h) hqm
  refine ⟨fun t h => ?_, processed, published⟩
  cases h with
  | processed h => exact .processed (processed ▸ processes h)
  | published h => exact .published (published ▸ publishes h)

end

/-- How far the cascades of an event reach. -/
structure Bounded (e : Engine) (x : DomainEvent) (bound : Nat) : Prop where
  /-- Processing the event sets off a cascade, which is all that is published meanwhile. -/
  processed : ∃ considered, Processes x e considered (processEvent x e) ∧
    (processEvent x e).2.published = e.published ++ (Cascade.mk x considered).events.tail
  /-- And so does its publication. -/
  published : ∃ t, Publishes x e t (publish x e) ∧
    (publish x e).2.published = e.published ++ t.events
  /-- An event that yields a record is within the bound. -/
  depth : ∀ t, SetOff e x t → ∀ u ∈ t.parts, u.considered ≠ [] → u.event.trail.depth ≤ bound
  /-- So every event is within the bound or one hop further away, and its depth fits into 32 bits. -/
  events : ∀ t, SetOff e x t → ∀ y ∈ t.events,
    y.trail.depth ≤ bound + 1 ∧ y.trail.depth ≤ EngineConfig.maxLimit

/--
Without rules on announcements, an event is no deeper than there are rules, up to its announcement.
-/
theorem SetOff.events_depth_le {rules : List Rule} {t : Cascade} (h : SetOff e x t) (quiet : Quiet e)
    (table : e.rules.Represents rules) (unheard : ∀ r ∈ rules, r.trigger ≠ ruleExecutedEvent) :
    ∀ y ∈ t.events, y.trail.depth ≤ x.trail.depth + rules.length + 1 := by
  have parts : ∀ u ∈ t.parts, u.event.trail.depth ≤ x.trail.depth + rules.length + 1 := by
    refine Cascade.forall_mem_parts ?_ fun u hu _ v hv => ?_
    · rw [h.event_eq]
      omega
    · obtain ⟨c, hc, hv⟩ := List.mem_flatMap.1 hv
      rw [((h.accounted quiet u hu c hc).caused v hv).1, CascadeTrail.child_depth]
      exact Nat.add_le_add_right (h.depth_le quiet table unheard u hu c hc) 1
  intro y hy
  rw [← Cascade.map_event_parts] at hy
  obtain ⟨u, hu, rfl⟩ := List.mem_map.1 hy
  exact parts u hu

/--
Where no rule listens to announcements of records, an event sets off a cascade that reaches no further
than there are rules, whatever the limit is; and greater limits make no difference to it.
-/
theorem cycle_guard_bounds {e : Engine} {rules : List Rule} (quiet : Quiet e)
    (table : e.rules.Represents rules) (unheard : ∀ r ∈ rules, r.trigger ≠ ruleExecutedEvent)
    (x : DomainEvent) (fits : x.trail.depth + rules.length < EngineConfig.maxLimit) :
    Bounded e x (x.trail.depth + rules.length) ∧
      ∀ n m, x.trail.depth + rules.length ≤ n → x.trail.depth + rules.length ≤ m →
        SameUnder e n m x := by
  refine ⟨?_, fun n m hn hm => sameUnder quiet table unheard hn hm⟩
  refine
    { processed := ?_
      published := ?_
      depth := fun t h u hu hne => ?_
      events := fun t h y hy => ?_ }
  · obtain ⟨considered, h⟩ := exists_processEvent quiet x
    exact ⟨considered, h, h.published_eq⟩
  · obtain ⟨t, h⟩ := exists_publish quiet x
    exact ⟨t, h, h.published_eq⟩
  · obtain ⟨c, hc⟩ := List.exists_mem_of_ne_nil _ hne
    exact h.depth_le quiet table unheard u hu c hc
  · have hdepth := h.events_depth_le quiet table unheard y hy
    exact ⟨hdepth, hdepth.trans fits⟩

/-! ### Two rules that set each other off -/

/-- Two rules, each of which publishes the trigger of the other one. -/
def rallyRules : List Rule :=
  [(Rule.onEvent "serve" "ping").addAction (.emitEvent "pong"),
    (Rule.onEvent "return" "pong").addAction (.emitEvent "ping")]

/-- An engine in memory with both rules. -/
def rally : Engine :=
  { inMemory {} .counting with
    rules := rallyRules.foldl RuleTable.upsert .empty
    subscribers := [.rules, .listener "monitor"]
    connected := true }

/-- The event that starts the rally. -/
def ping : DomainEvent :=
  { id := ⟨0⟩, name := "ping", payload := .null, occurredAt := ⟨0, 0⟩, trail := .root }

/-- The two rules only publish events, so nobody gets past the engine. -/
theorem rally_quiet : Quiet rally :=
  fun _ _ h => by cases h

theorem rally_represents : rally.rules.Represents rallyRules :=
  RuleTable.represents_foldl RuleTable.represents_empty (by decide)

/--
Two rules that set each other off come to an end, and a limit of two does what a limit of eight does.
-/
theorem cycle_guard_bounds_rally :
    (Quiet rally ∧ rally.rules.Represents rallyRules ∧
      (∀ r ∈ rallyRules, r.trigger ≠ ruleExecutedEvent) ∧
      ping.trail.depth + rallyRules.length < EngineConfig.maxLimit) ∧
      Bounded rally ping 2 ∧ SameUnder rally 2 8 ping := by
  have unheard : ∀ r ∈ rallyRules, r.trigger ≠ ruleExecutedEvent := by decide
  have fits : ping.trail.depth + rallyRules.length < EngineConfig.maxLimit := by decide
  obtain ⟨bounded, same⟩ := cycle_guard_bounds rally_quiet rally_represents unheard ping fits
  exact ⟨⟨rally_quiet, rally_represents, unheard, fits⟩, bounded, same 2 8 (by decide) (by decide)⟩

end WorkflowRules.Engine
