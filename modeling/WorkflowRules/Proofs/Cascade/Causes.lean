import WorkflowRules.Proofs.Cascade.Adequacy

/-!
# Who causes what in a cascade

Every rule that was considered somewhere in a cascade is registered for its event, the event is within
the limit, and whatever the rule caused carries the trail of a child.

* `Engine.Considered` — a rule was considered for an event, and its record announced unless it failed
* `Engine.Accounted` — what that tells about the rule and about all that it caused
* `Engine.Publishes.accounted`, `Engine.Processes.accounted` — the rules considered first
* `Engine.accounted_of_chain` — the rules considered anywhere below
-/

namespace WorkflowRules.Engine

open Cascade (Chain)

/-- How far the consideration of a rule came: a failure ended it, or its record was announced. -/
inductive Course (start : Engine) (x : DomainEvent) : Consideration Cascade → Prop
  | broken {e e' rule dispatched effects f} (setup : SameSetup start e)
      (first : Considers x rule e dispatched effects (.error f, e')) :
      Course start x ⟨rule, dispatched, effects, none⟩
  | announced {e e₁ e₂ rule dispatched effects record y t out} (setup : SameSetup start e)
      (first : Considers x rule e dispatched effects (.ok record, e₁))
      (notice : newEvent ruleExecutedEvent record.toJson (x.trail.child rule.name) e₁ = (.ok y, e₂))
      (announced : Publishes y e₂ t out) :
      Course start x ⟨rule, dispatched, effects, some (record, t)⟩

/-- A rule of its bucket was considered for an event within the limit. -/
structure Considered (start : Engine) (x : DomainEvent) (c : Consideration Cascade) : Prop where
  registered : c.rule ∈ start.rules.bucket x.name
  near : x.trail.depth ≤ start.config.maxCascadeDepth
  course : Course start x c

/-- A tree that was grown by publishing an event with this trail. -/
def Grown (start : Engine) (trail : CascadeTrail) (t : Cascade) : Prop :=
  t.event.trail = trail ∧ ∃ e out, SameSetup start e ∧ Publishes t.event e t out

/-- What is known about a rule that was considered for an event. -/
structure Accounted (start : Engine) (x : DomainEvent) (c : Consideration Cascade) : Prop where
  registered : c.rule ∈ start.rules.bucket x.name
  near : x.trail.depth ≤ start.config.maxCascadeDepth
  dispatched : c.dispatched ≠ [] → c.rule.name ∉ x.trail.rules
  caused : ∀ t ∈ c.caused, Grown start (x.trail.child c.rule.name) t

section

variable {e e' : Engine} {x : DomainEvent} {c : Consideration Cascade}

/-! ## Rule by rule -/

/-- How a rule is dealt with depends on the setup only. -/
theorem Course.of_setup (hs : SameSetup e e') (h : Course e' x c) : Course e x c := by
  cases h with
  | broken setup first => exact .broken (hs.trans setup) first
  | announced setup first notice announced =>
    exact .announced (hs.trans setup) first notice announced

theorem Considered.of_setup (hs : SameSetup e e') (h : Considered e' x c) : Considered e x c where
  registered := hs.rules ▸ h.registered
  near := hs.config ▸ h.near
  course := h.course.of_setup hs

/-- Each rule that is considered is one of the rules, and takes its course. -/
theorem ConsidersAll.courses {e : Engine} {mode : MatchMode} {rules : List Rule}
    {considered : List (Consideration Cascade)} {out : End (List RuleExecution)}
    (h : ConsidersAll x mode rules e considered out) (hq : Quiet e) :
    ∀ c ∈ considered, c.rule ∈ rules ∧ Course e x c := by
  match h with
  | .done => simp
  | .broken first =>
    intro c hc
    obtain rfl := List.mem_singleton.1 hc
    exact ⟨List.mem_cons_self, .broken .rfl first⟩
  | .brokenNotice first notice announced =>
    intro c hc
    obtain rfl := List.mem_singleton.1 hc
    exact ⟨List.mem_cons_self, .announced .rfl first notice announced⟩
  | .last first notice announced stop =>
    intro c hc
    obtain rfl := List.mem_singleton.1 hc
    exact ⟨List.mem_cons_self, .announced .rfl first notice announced⟩
  | .next first notice announced go others =>
    -- the other rules start from a later state, which has the same setup
    have hs := (first.setup hq).trans (newEvent_setup notice)
    have hs₂ := hs.trans (announced.setup (hq.of_setup hs))
    intro c hc
    rcases List.mem_cons.1 hc with rfl | hc
    · exact ⟨List.mem_cons_self, .announced .rfl first notice announced⟩
    · obtain ⟨hrule, hcourse⟩ := others.courses (hq.of_setup hs₂) c hc
      exact ⟨List.mem_cons_of_mem _ hrule, hcourse.of_setup hs₂⟩

/-- An event that is processed has rules considered for it that are in its bucket. -/
theorem Processes.considered {considered : List (Consideration Cascade)}
    {out : End (List RuleExecution)} (h : Processes x e considered out) (hq : Quiet e) :
    ∀ c ∈ considered, Considered e x c := by
  cases h with
  | dropped far => simp
  | taken near all =>
    intro c hc
    obtain ⟨registered, course⟩ := all.courses hq c hc
    exact ⟨registered, near, course⟩

/-- Whichever subscriber they are considered for, the rules are in the bucket of the event. -/
theorem Delivers.considered {e : Engine} {subscribers : List Subscriber}
    {considered : List (Consideration Cascade)} {out : End Unit}
    (h : Delivers x subscribers e considered out) (hq : Quiet e) :
    ∀ c ∈ considered, Considered e x c := by
  induction subscribers generalizing e considered with
  | nil =>
    cases h with
    | done => simp
  | cons subscriber others ih =>
    cases h with
    | listener rest =>
      intro c hc
      exact (ih rest (hq.of_setup (observe_setup _ e)) c hc).of_setup (observe_setup _ e)
    | rules processed rest =>
      have hs := processed.setup hq
      intro c hc
      rcases List.mem_append.1 hc with hc | hc
      · exact processed.considered hq c hc
      · exact (ih rest (hq.of_setup hs) c hc).of_setup hs
    | broken processed => exact processed.considered hq

theorem Publishes.considered {t : Cascade} {out : End Unit} (h : Publishes x e t out)
    (hq : Quiet e) : ∀ c ∈ t.considered, Considered e t.event c := by
  cases h with
  | intro delivered =>
    have hs := observe_setup (.published x) e
    exact fun c hc => (delivered.considered (hq.of_setup hs) c hc).of_setup hs

/-! ## What a rule caused -/

theorem Grown.of_setup {trail : CascadeTrail} {t : Cascade} (hs : SameSetup e e')
    (h : Grown e' trail t) : Grown e trail t := by
  obtain ⟨htrail, s, out, hse, ht⟩ := h
  exact ⟨htrail, s, out, hs.trans hse, ht⟩

theorem Accounted.of_setup (hs : SameSetup e e') (h : Accounted e' x c) : Accounted e x c where
  registered := hs.rules ▸ h.registered
  near := hs.config ▸ h.near
  dispatched := h.dispatched
  caused t ht := (h.caused t ht).of_setup hs

theorem Publishes.event_eq {t : Cascade} {out : End Unit} (h : Publishes x e t out) :
    t.event = x := by
  cases h
  rfl

/-- What a rule published has the trail of its rule and the tree that it set off. -/
theorem Publishes.grown {y : DomainEvent} {t : Cascade} {out : End Unit} {trail : CascadeTrail}
    (h : Publishes y e' t out) (hs : SameSetup e e') (htrail : y.trail = trail) :
    Grown e trail t := by
  obtain rfl := h.event_eq
  exact ⟨htrail, e', out, hs, h⟩

/-- A rule that fires is not on the trail of the event. -/
theorem mem_rules_of_refusal?_eq_none {rule : Rule} (h : refusal? rule x = none) :
    rule.name ∉ x.trail.rules := by
  intro hmem
  rw [refusal?, if_pos (CascadeTrail.contains_iff.2 hmem)] at h
  cases h

/-- Whatever the actions of a rule publish has the trail of a child. -/
theorem RunsActions.grown {e : Engine} {context : ActionContext} {actions dispatched : List Action}
    {effects : List Cascade} {out : End (List ActionResult)}
    (h : RunsActions context actions e dispatched effects out) (hq : Quiet e) :
    ∀ t ∈ effects, Grown e context.childTrail t := by
  match h with
  | .done => simp
  | .broken asked => simp
  | .failed asked => simp
  | .answered asked others =>
    have hs := ask_setup asked
    exact fun t ht => (others.grown (hq.of_setup hs) t ht).of_setup hs
  | .brokenEffect asked effect =>
    intro t ht
    obtain rfl := List.mem_singleton.1 ht
    exact effect.grown (ask_setup asked) (ask_trail asked)
  | .published asked effect others =>
    have hs := ask_setup asked
    have hs₂ := hs.trans (effect.setup (hq.of_setup hs))
    intro t ht
    rcases List.mem_cons.1 ht with rfl | ht
    · exact effect.grown hs (ask_trail asked)
    · exact (others.grown (hq.of_setup hs₂) t ht).of_setup hs₂

/-- A rule dispatches actions only when it fires, and their events have the trail of a child. -/
theorem Considers.grown {rule : Rule} {dispatched : List Action} {effects : List Cascade}
    {out : End RuleExecution} (h : Considers x rule e dispatched effects out) (hq : Quiet e) :
    (dispatched ≠ [] → refusal? rule x = none) ∧
      ∀ t ∈ effects, refusal? rule x = none ∧ Grown e (x.trail.child rule.name) t := by
  cases h with
  | skipped why => simp
  | fires fires actions => exact ⟨fun _ => fires, fun t ht => ⟨fires, actions.grown hq t ht⟩⟩

/-- A rule that was considered dispatched actions only if it fired. -/
theorem Course.fires (h : Course e x c) (hq : Quiet e) (hd : c.dispatched ≠ []) :
    refusal? c.rule x = none := by
  cases h with
  | broken setup first => exact (first.grown (hq.of_setup setup)).1 hd
  | announced setup first => exact (first.grown (hq.of_setup setup)).1 hd

/-- Whatever the actions of a rule published, the rule fired and is on the trail. -/
theorem Course.effects (h : Course e x c) (hq : Quiet e) :
    ∀ t ∈ c.effects, refusal? c.rule x = none ∧ Grown e (x.trail.child c.rule.name) t := by
  intro t ht
  cases h with
  | broken setup first =>
    obtain ⟨fires, grown⟩ := (first.grown (hq.of_setup setup)).2 t ht
    exact ⟨fires, grown.of_setup setup⟩
  | announced setup first =>
    obtain ⟨fires, grown⟩ := (first.grown (hq.of_setup setup)).2 t ht
    exact ⟨fires, grown.of_setup setup⟩

/-- A rule that was considered accounts for every event that it led to. -/
theorem Considered.accounted (h : Considered e x c) (hq : Quiet e) : Accounted e x c where
  registered := h.registered
  near := h.near
  dispatched hd := mem_rules_of_refusal?_eq_none (h.course.fires hq hd)
  caused t ht := by
    rcases List.mem_append.1 ht with ht | ht
    · exact (h.course.effects hq t ht).2
    · cases h.course with
      | broken => cases ht
      | announced setup first notice announced =>
        obtain rfl := List.mem_singleton.1 ht
        have hs := (first.setup (hq.of_setup setup)).trans (newEvent_setup notice)
        exact announced.grown (setup.trans hs) (newEvent_trail notice)

theorem Processes.accounted {considered : List (Consideration Cascade)}
    {out : End (List RuleExecution)} (h : Processes x e considered out) (hq : Quiet e) :
    ∀ c ∈ considered, Accounted e x c :=
  fun c hc => (h.considered hq c hc).accounted hq

theorem Publishes.accounted {t : Cascade} {out : End Unit} (h : Publishes x e t out)
    (hq : Quiet e) : ∀ c ∈ t.considered, Accounted e t.event c :=
  fun c hc => (h.considered hq c hc).accounted hq

/-! ## Whole cascades -/

/-- What holds of the rules considered for the first event holds of those below. -/
theorem accounted_of_chain {start : Engine} (hq : Quiet start) {t u : Cascade}
    {hops : List Cascade.Hop} (h : Chain t hops u)
    (root : ∀ c ∈ t.considered, Accounted start t.event c) :
    ∀ c ∈ u.considered, Accounted start u.event c := by
  induction h with
  | refl t => exact root
  | hop mem caused rest ih =>
    obtain ⟨-, e, out, hs, published⟩ := (root _ mem).caused _ caused
    exact ih fun c hc => (published.accounted (hq.of_setup hs) c hc).of_setup hs

end

end WorkflowRules.Engine
