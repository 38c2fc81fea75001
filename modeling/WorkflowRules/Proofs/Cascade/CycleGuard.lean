import WorkflowRules.Proofs.Cascade.Depth
import WorkflowRules.Proofs.Cascade.Invocations
import WorkflowRules.Proofs.Cascade.Records

/-!
# What the cycle guard goes by

A rule is refused for a cycle when the trail lists it. Everything that a rule causes has the rule on its
trail: what its actions publish, and the announcement of its record, which comes whether the rule fired
or not. So a rule is refused along a chain on which it was considered before; and that it fired there
is not said. A rule that was disabled or did not match is refused as well, where the chain goes on from
the announcement of just that. Only when no rule listens to announcements is a refused rule one that
fired.

* `Engine.Considered` — what is known of every rule that was considered in a cascade
* `Chain.split` — a hop of a chain, what leads to it and what follows
* `Engine.CycleGuarded`, `Engine.cycle_detected_iff` — which rules are refused, and why
* `Engine.cycle_detected_without_firing` — a rule that is refused without having fired
-/

namespace WorkflowRules

/-! ## Chains -/

namespace Cascade

/-- A hop of a chain stands between the part that leads to it and the part that follows. -/
theorem Chain.split {t u : Cascade} {front back : List Hop} {h : Hop}
    (hchain : Chain t (front ++ h :: back) u) :
    ∃ w c v, Chain t front w ∧ c ∈ w.considered ∧ v ∈ c.caused ∧
      h = ⟨w.event, c.rule, c.dispatched⟩ ∧ Chain t (front ++ [h]) v ∧ Chain v back u := by
  induction front generalizing t with
  | nil =>
    cases hchain with
    | hop mem caused rest =>
      exact ⟨_, _, _, .refl _, mem, caused, rfl, .hop mem caused (.refl _), rest⟩
  | cons g front ih =>
    cases hchain with
    | hop mem caused rest =>
      obtain ⟨w, c, v, hw, hc, hv, rfl, hstep, hu⟩ := ih rest
      exact ⟨w, c, v, .hop mem caused hw, hc, hv, rfl, .hop mem caused hstep, hu⟩

/-- Where a rule is considered at the end of a chain, one is considered at its start. -/
theorem Chain.exists_considered {t u : Cascade} {hops : List Hop} (hchain : Chain t hops u)
    {c : Consideration Cascade} (hc : c ∈ u.considered) : ∃ d, d ∈ t.considered := by
  cases hchain with
  | refl => exact ⟨c, hc⟩
  | hop mem _ _ => exact ⟨_, mem⟩

end Cascade

theorem CascadeTrail.mem_along {trail : CascadeTrail} {names : List String} {name : String} :
    name ∈ (trail.along names).rules ↔ name ∈ trail.rules ∨ name ∈ names := by
  induction names generalizing trail with
  | nil => simp [along]
  | cons first rest ih =>
    show name ∈ ((trail.child first).along rest).rules ↔ _
    rw [ih, mem_child_rules, List.mem_cons, or_assoc]

namespace Engine

open Cascade (Chain Hop ruleNames)

variable {e e' : Engine} {rules : List Rule} {rule : Rule} {x : DomainEvent}
  {c : Consideration Cascade} {t u v : Cascade} {status : RuleStatus} {record : RuleExecution}

/-! ## What a record says -/

/-- The rule of a hop fired on the event of the hop. -/
def FiredOn (h : Hop) : Prop := refusal? h.rule h.event = none

theorem refusal?_eq_cycleDetected_iff :
    refusal? rule x = some .cycleDetected ↔ rule.name ∈ x.trail.rules := by
  unfold refusal?
  rw [← CascadeTrail.contains_iff]
  cases x.trail.contains rule.name <;> cases rule.enabled <;>
    cases rule.condition.holds x.payload <;> simp

/-- A rule that the trail does not list fires, or it is disabled or does not match. -/
theorem refusal?_of_unlisted (unlisted : rule.name ∉ x.trail.rules) :
    refusal? rule x = none ∨
      ∃ status, (status = .disabled ∨ status = .notMatched) ∧ refusal? rule x = some status := by
  rw [← CascadeTrail.contains_iff] at unlisted
  unfold refusal?
  cases rule.enabled <;> cases rule.condition.holds x.payload <;> simp [unlisted]

theorem refusal?_status (h : refusal? rule x = some status) :
    status ≠ .executed ∧ status ≠ .actionFailed := by
  by_cases listed : rule.name ∈ x.trail.rules
  · rw [refusal?_eq_cycleDetected_iff.2 listed] at h
    cases h
    exact ⟨nofun, nofun⟩
  · rcases refusal?_of_unlisted listed with fires | ⟨other, rfl | rfl, why⟩
    · cases fires.symm.trans h
    · cases why.symm.trans h
      exact ⟨nofun, nofun⟩
    · cases why.symm.trans h
      exact ⟨nofun, nofun⟩

/-- A record says that a rule is refused for a cycle when the trail lists the rule. -/
theorem Tells.cycleDetected_iff (h : Tells x rule record) :
    record.status = .cycleDetected ↔ rule.name ∈ x.trail.rules := by
  rw [← refusal?_eq_cycleDetected_iff]
  cases why : refusal? rule x with
  | some status => rw [(h.refused status why).1, Option.some.injEq]
  | none => rcases (h.fires why).1 with hran | hran <;> simp [hran]

/-- A record says that the actions ran when the rule fired. -/
theorem Tells.ran_iff (h : Tells x rule record) :
    (record.status = .executed ∨ record.status = .actionFailed) ↔ refusal? rule x = none := by
  cases why : refusal? rule x with
  | some status => simp [(h.refused status why).1, refusal?_status why]
  | none => simp [(h.fires why).1]

theorem Considers.tells {dispatched : List Action} {effects : List Cascade}
    (h : Considers x rule e dispatched effects (.ok record, e')) (hq : Quiet e) :
    Tells x rule record := by
  obtain ⟨n, hn⟩ := (h.eventually hq).exists
  exact consider_tells hn

theorem Course.tells (h : Course e x c) (hq : Quiet e) (hc : c.closing = some (record, v)) :
    Tells x c.rule record := by
  cases h with
  | broken => cases hc
  | announced setup first =>
    cases hc
    exact first.tells (hq.of_setup setup)

/-- A rule dispatches actions when it fires, if it has any. -/
theorem Considers.dispatched_iff {dispatched : List Action} {effects : List Cascade}
    {out : End RuleExecution} (h : Considers x rule e dispatched effects out) :
    dispatched ≠ [] ↔ refusal? rule x = none ∧ rule.actions ≠ [] := by
  cases h with
  | skipped why => simp [why]
  | fires fires actions =>
    generalize rule.actions = rest at actions
    cases actions <;> simp [fires]

theorem Course.dispatched_iff (h : Course e x c) :
    c.dispatched ≠ [] ↔ refusal? c.rule x = none ∧ c.rule.actions ≠ [] := by
  cases h with
  | broken setup first => exact first.dispatched_iff
  | announced setup first => exact first.dispatched_iff

theorem Considers.eq_skipped {dispatched : List Action} {effects : List Cascade}
    {out : End RuleExecution} (h : Considers x rule e dispatched effects out)
    (why : refusal? rule x = some status) : out = (.ok (.skipped rule.name x.name status), e) := by
  cases h with
  | skipped why' =>
    cases why.symm.trans why'
    rfl
  | fires fires => cases why.symm.trans fires

/-- All that a rule causes without firing is the announcement of that. -/
theorem Course.notice_of_refusal? (h : Course e x c) (hq : Quiet e)
    (why : refusal? c.rule x = some status) (hv : v ∈ c.caused) :
    v.event.name = ruleExecutedEvent ∧
      v.event.payload = (RuleExecution.skipped c.rule.name x.name status).toJson := by
  rcases List.mem_append.1 hv with hv | hv
  · cases why.symm.trans (h.effects hq v hv).1
  · cases h with
    | broken => cases hv
    | announced setup first notice announced =>
      obtain rfl := List.mem_singleton.1 hv
      cases first.eq_skipped why
      rw [announced.event_eq]
      exact newEvent_content notice

/-! ## Rules on a chain -/

/-- The rules along a chain are registered. -/
theorem SetOff.mem_rules (h : SetOff e x t) (quiet : Quiet e) (table : e.rules.Represents rules)
    {hops : List Hop} (hu : Chain t hops u) : ∀ g ∈ hops, g.rule ∈ rules := by
  intro g hg
  obtain ⟨front, back, rfl⟩ := List.append_of_mem hg
  obtain ⟨w, d, v, hw, hd, -, rfl, -, -⟩ := hu.split
  exact (table.mem_bucket.1 (h.considered quiet w (Cascade.mem_parts_iff.2 ⟨_, hw⟩) d hd).registered).1

/-- A rule is listed on the trail of an event if it is on the chain to it. -/
theorem SetOff.listed_iff (h : SetOff e x t) (quiet : Quiet e) (table : e.rules.Represents rules)
    (fresh : x.trail.rules = []) {hops : List Hop} (hu : Chain t hops u) (hr : rule ∈ rules) :
    rule.name ∈ u.event.trail.rules ↔ ∃ g ∈ hops, g.rule = rule := by
  have root : ∀ d ∈ t.considered, Accounted e t.event d :=
    h.accounted quiet t (Cascade.self_mem_parts t)
  rw [trail_of_chain quiet hu root, h.event_eq, CascadeTrail.mem_along, fresh, ruleNames,
    List.mem_map]
  constructor
  · rintro (hnone | ⟨g, hg, hname⟩)
    · cases hnone
    · exact ⟨g, hg, table.unique (h.mem_rules quiet table hu g hg) hr hname⟩
  · rintro ⟨g, hg, rfl⟩
    exact .inr ⟨g, hg, rfl⟩

/-- The rule of a hop is refused for a cycle if an earlier hop goes through it, and only then. -/
theorem SetOff.hop_refused_iff (h : SetOff e x t) (quiet : Quiet e) (table : e.rules.Represents rules)
    (fresh : x.trail.rules = []) {front back : List Hop} {g : Hop}
    (hu : Chain t (front ++ g :: back) u) :
    refusal? g.rule g.event = some .cycleDetected ↔ ∃ f ∈ front, f.rule = g.rule := by
  have hg := h.mem_rules quiet table hu g (List.mem_append_right _ List.mem_cons_self)
  obtain ⟨w, d, v, hw, -, -, rfl, -, -⟩ := hu.split
  rw [refusal?_eq_cycleDetected_iff, h.listed_iff quiet table fresh hw hg]

/-- If a rule is on a chain, there is a first time. -/
theorem exists_first {hops : List Hop} (h : ∃ g ∈ hops, g.rule = rule) :
    ∃ front g back, hops = front ++ g :: back ∧ g.rule = rule ∧ ¬ ∃ f ∈ front, f.rule = rule := by
  induction hops with
  | nil =>
    obtain ⟨g, hg, -⟩ := h
    cases hg
  | cons first rest ih =>
    by_cases hfirst : first.rule = rule
    · exact ⟨[], first, rest, rfl, hfirst, by simp⟩
    · obtain ⟨g, hg, hrule⟩ := h
      rcases List.mem_cons.1 hg with rfl | hg
      · exact absurd hrule hfirst
      · obtain ⟨front, g, back, rfl, hrule, hfront⟩ := ih ⟨g, hg, hrule⟩
        refine ⟨first :: front, g, back, rfl, hrule, ?_⟩
        rintro ⟨f, hf, heq⟩
        rcases List.mem_cons.1 hf with rfl | hf
        · exact hfirst heq
        · exact hfront ⟨f, hf, heq⟩

/-! ## The cycle guard -/

/-- The rule of a hop was disabled or did not match, and the hop leads to the announcement of that. -/
def PassedOver (h : Hop) (v : Cascade) : Prop :=
  ∃ status, (status = .disabled ∨ status = .notMatched) ∧ refusal? h.rule h.event = some status ∧
    v.event.name = ruleExecutedEvent ∧
    v.event.payload = (RuleExecution.skipped h.rule.name h.event.name status).toJson

/-- A hop through a rule that was not considered earlier: the rule fires, or it is passed over. -/
theorem SetOff.first (h : SetOff e x t) (quiet : Quiet e) (table : e.rules.Represents rules)
    (fresh : x.trail.rules = []) {front back : List Hop} {g : Hop}
    (hu : Chain t (front ++ g :: back) u) (hfront : ¬ ∃ f ∈ front, f.rule = g.rule) :
    FiredOn g ∨ ∃ v, PassedOver g v ∧ Chain t (front ++ [g]) v ∧ Chain v back u := by
  rw [← h.hop_refused_iff quiet table fresh hu] at hfront
  obtain ⟨w, c, v, hw, hc, hv, rfl, hstep, hback⟩ := hu.split
  have course := (h.considered quiet w (Cascade.mem_parts_iff.2 ⟨_, hw⟩) c hc).course
  rw [refusal?_eq_cycleDetected_iff] at hfront
  refine (refusal?_of_unlisted hfront).imp id ?_
  rintro ⟨status, hstatus, why⟩
  exact ⟨v, ⟨status, hstatus, why, course.notice_of_refusal? quiet why hv⟩, hstep, hback⟩

/-- Where a rule was passed over, no hop of the chain goes through it and has it fire. -/
theorem SetOff.not_fired (h : SetOff e x t) (quiet : Quiet e) (table : e.rules.Represents rules)
    (fresh : x.trail.rules = []) {front back : List Hop} {g : Hop}
    (hu : Chain t (front ++ g :: back) u) (passed : PassedOver g v) :
    ∀ f ∈ front ++ g :: back, f.rule = g.rule → ¬ FiredOn f := by
  obtain ⟨status, hstatus, why, -⟩ := passed
  intro f hf hrule fired
  rcases List.mem_append.1 hf with hfront | hf
  · -- an earlier hop would have the rule refused for a cycle
    have hcycle := (h.hop_refused_iff quiet table fresh hu).2 ⟨f, hfront, hrule⟩
    cases hcycle.symm.trans why
    simp at hstatus
  · rcases List.mem_cons.1 hf with rfl | hback
    · cases why.symm.trans fired
    · -- and so does the hop itself with any later one
      obtain ⟨between, rest, rfl⟩ := List.append_of_mem hback
      rw [← List.cons_append, ← List.append_assoc] at hu
      have hcycle := (h.hop_refused_iff quiet table fresh hu).2
        ⟨g, List.mem_append_right _ List.mem_cons_self, hrule.symm⟩
      cases hcycle.symm.trans fired

/-- What the cycle guard makes of the rules of a table in a cascade. -/
structure CycleGuarded (rules : List Rule) (t : Cascade) : Prop where
  /-- A rule dispatches actions when it fires; and it does if the record says that they ran. -/
  fired : ∀ u ∈ t.parts, ∀ c ∈ u.considered,
    (c.dispatched ≠ [] ↔ refusal? c.rule u.event = none ∧ c.rule.actions ≠ []) ∧
      ∀ record v, c.closing = some (record, v) →
        ((record.status = .executed ∨ record.status = .actionFailed) ↔
          refusal? c.rule u.event = none)
  /-- A rule is refused for a cycle if and only if it was considered before on the chain. -/
  refused : ∀ hops u, Chain t hops u → ∀ c ∈ u.considered, ∀ record v,
    c.closing = some (record, v) →
      (record.status = .cycleDetected ↔ ∃ h ∈ hops, h.rule = c.rule)
  /-- It did not fire before if and only if it was passed over, and the chain goes on from there. -/
  unfired : ∀ hops u, Chain t hops u → ∀ c ∈ u.considered, ∀ record v,
    c.closing = some (record, v) →
      ((record.status = .cycleDetected ∧ ∀ h ∈ hops, h.rule = c.rule → ¬ FiredOn h) ↔
        ∃ front h back w, hops = front ++ h :: back ∧ h.rule = c.rule ∧ PassedOver h w ∧
          Chain t (front ++ [h]) w ∧ Chain w back u)
  /-- Where no rule listens to announcements, a rule is refused if and only if it fired before. -/
  unheard : (∀ r ∈ rules, r.trigger ≠ ruleExecutedEvent) →
    ∀ hops u, Chain t hops u → ∀ c ∈ u.considered, ∀ record v, c.closing = some (record, v) →
      (record.status = .cycleDetected ↔ ∃ h ∈ hops, h.rule = c.rule ∧ FiredOn h)

theorem SetOff.refused (h : SetOff e x t) (quiet : Quiet e) (table : e.rules.Represents rules)
    (fresh : x.trail.rules = []) {hops : List Hop} (hu : Chain t hops u) (hc : c ∈ u.considered)
    (closing : c.closing = some (record, v)) :
    record.status = .cycleDetected ↔ ∃ h ∈ hops, h.rule = c.rule := by
  have considered := h.considered quiet u (Cascade.mem_parts_iff.2 ⟨_, hu⟩) c hc
  have hrule := (table.mem_bucket.1 considered.registered).1
  rw [(considered.course.tells quiet closing).cycleDetected_iff,
    h.listed_iff quiet table fresh hu hrule]

/--
A rule that has not fired is refused for a cycle when it was passed over and its announcement led
back to it.
-/
theorem SetOff.unfired (h : SetOff e x t) (quiet : Quiet e) (table : e.rules.Represents rules)
    (fresh : x.trail.rules = []) {hops : List Hop} (hu : Chain t hops u) (hc : c ∈ u.considered)
    (closing : c.closing = some (record, v)) :
    (record.status = .cycleDetected ∧ ∀ h ∈ hops, h.rule = c.rule → ¬ FiredOn h) ↔
      ∃ front h back w, hops = front ++ h :: back ∧ h.rule = c.rule ∧ PassedOver h w ∧
        Chain t (front ++ [h]) w ∧ Chain w back u := by
  rw [h.refused quiet table fresh hu hc closing]
  constructor
  · rintro ⟨listed, unfired⟩
    obtain ⟨front, g, back, rfl, hrule, hfront⟩ := exists_first listed
    have hg : ¬ FiredOn g := unfired g (List.mem_append_right _ List.mem_cons_self) hrule
    obtain ⟨w, passed, hstep, hback⟩ :=
      (h.first quiet table fresh hu (hrule ▸ hfront)).resolve_left hg
    exact ⟨front, g, back, w, rfl, hrule, passed, hstep, hback⟩
  · rintro ⟨front, g, back, w, rfl, hrule, passed, -, -⟩
    refine ⟨⟨g, List.mem_append_right _ List.mem_cons_self, hrule⟩, fun f hf hfrule => ?_⟩
    exact h.not_fired quiet table fresh hu passed f hf (hfrule.trans hrule.symm)

/-- From a fresh trail, chains tell which rules are refused for a cycle. -/
theorem SetOff.cycleGuarded (h : SetOff e x t) (quiet : Quiet e) (table : e.rules.Represents rules)
    (fresh : x.trail.rules = []) : CycleGuarded rules t where
  fired u hu c hc := by
    have course := (h.considered quiet u hu c hc).course
    exact ⟨course.dispatched_iff, fun record v closing => (course.tells quiet closing).ran_iff⟩
  refused _ _ hu _ hc _ _ closing := h.refused quiet table fresh hu hc closing
  unfired _ _ hu _ hc _ _ closing := h.unfired quiet table fresh hu hc closing
  unheard nobody hops u hu c hc record v closing := by
    constructor
    · intro cycle
      by_contra unfired
      have passed := (h.unfired quiet table fresh hu hc closing).1
        ⟨cycle, fun g hg hrule fired => unfired ⟨g, hg, hrule, fired⟩⟩
      obtain ⟨front, g, back, w, -, -, ⟨-, -, -, hname, -⟩, hw, hback⟩ := passed
      -- some rule was considered for the announcement, so it listens to announcements
      obtain ⟨d, hd⟩ := hback.exists_considered hc
      have registered := (h.considered quiet w (Cascade.mem_parts_iff.2 ⟨_, hw⟩) d hd).registered
      rw [hname, table.mem_bucket] at registered
      exact nobody d.rule registered.1 registered.2
    · rintro ⟨g, hg, hrule, -⟩
      exact (h.refused quiet table fresh hu hc closing).2 ⟨g, hg, hrule⟩

/--
In the cascades of an event without history, a rule is refused for a cycle when it was considered before
on the chain. It fired there, unless it was disabled or did not match and the chain went on from the
announcement of that.
-/
theorem cycle_detected_iff {e : Engine} {rules : List Rule} (quiet : Quiet e)
    (table : e.rules.Represents rules) (x : DomainEvent) (fresh : x.trail.rules = []) :
    (∃ considered, Processes x e considered (processEvent x e)) ∧
      (∃ t, Publishes x e t (publish x e)) ∧ ∀ t, SetOff e x t → CycleGuarded rules t :=
  ⟨exists_processEvent quiet x, exists_publish quiet x,
    fun _ h => h.cycleGuarded quiet table fresh⟩

/-! ### A rule that is refused without having fired -/

/-- A rule that waits for a second event of its trigger. -/
def late : Rule :=
  { (Rule.onEvent "late" "check").addAction (.log "info" "late") with
    condition := .leaf ⟨"again", "equals", .bool true⟩ }

/-- A rule that answers the first record with that event. -/
def relay : Rule :=
  (Rule.onEvent "relay" ruleExecutedEvent).addAction
    ⟨"emit_event", .ofList [("event", .string "check"), ("payload", .object [("again", .bool true)])]⟩

/-- An engine in memory with both rules. -/
def relaying : Engine :=
  { inMemory { maxCascadeDepth := 2 } .counting with
    rules := [late, relay].foldl RuleTable.upsert .empty
    subscribers := [.rules]
    connected := true }

/-- The first event. -/
def check : DomainEvent :=
  { id := ⟨0⟩, name := "check", payload := .object [], occurredAt := ⟨0, 0⟩, trail := .root }

theorem relaying_quiet : Quiet relaying :=
  fun _ _ h => by cases h

theorem relaying_represents : relaying.rules.Represents [late, relay] :=
  RuleTable.represents_foldl RuleTable.represents_empty (by decide)

theorem cycle_detected_iff_relaying :
    (Quiet relaying ∧ relaying.rules.Represents [late, relay] ∧ check.trail.rules = []) ∧
      ∃ considered, Processes check relaying considered (processEvent check relaying) ∧
        CycleGuarded [late, relay] (.mk check considered) := by
  obtain ⟨⟨considered, h⟩, -, guarded⟩ :=
    cycle_detected_iff relaying_quiet relaying_represents check rfl
  exact ⟨⟨relaying_quiet, relaying_represents, rfl⟩, considered, h, guarded _ (.processed h)⟩

/-- The rule, the event and the status that an announcement of a record tells. -/
def announced? (y : DomainEvent) : Option (String × String × RuleStatus) :=
  (Json.Reader.ofValue RuleExecution.reader y.payload).toOption.map fun record =>
    (record.rule, record.event, record.status)

/--
The first rule does not match the first event. It matches the one that comes back, and is refused for a
cycle, although no action was carried out for it on any event.
-/
theorem cycle_detected_without_firing :
    some ("late", "check", .cycleDetected) ∈
        ((processEvent check relaying).2.published.filter (·.name = ruleExecutedEvent)).map announced? ∧
      late.actions.all (hasHandler relaying ·.type) = true ∧
      (carriedOut "late" (processEvent check relaying).2).length = 0 := by
  decide +kernel

end Engine

end WorkflowRules
