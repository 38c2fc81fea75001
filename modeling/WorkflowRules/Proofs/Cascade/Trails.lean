import WorkflowRules.Proofs.Cascade.Termination

/-!
# Trails tell how an event came about

The trail of an event lists the rules along its causal chain, each where it comes first, and counts the
hops. A rule dispatches nothing for an event whose trail lists it; so no rule fires twice in a chain.

* `CascadeTrail.along_depth`, `CascadeTrail.along_rules` — the trail after some hops
* `Engine.trail_of_chain` — an event carries the trail after the hops that lead to it
* `Engine.firing_nodup` — the rules that dispatch actions along a chain
* `Engine.processEvent_trails` — both, for every cascade that processing an event sets off
-/

namespace WorkflowRules

namespace CascadeTrail

/-- The names that are not among those seen, each where it comes first. -/
def freshNames (seen : List String) : List String → List String
  | [] => []
  | name :: rest =>
    if name ∈ seen then freshNames seen rest else name :: freshNames (seen ++ [name]) rest

/-- The trail after hops through rules. -/
def along (trail : CascadeTrail) (names : List String) : CascadeTrail :=
  names.foldl child trail

theorem child_rules (trail : CascadeTrail) (name : String) :
    (trail.child name).rules =
      if name ∈ trail.rules then trail.rules else trail.rules ++ [name] := by
  unfold child
  simp only [contains_iff]

theorem mem_child_rules {trail : CascadeTrail} {name other : String} :
    other ∈ (trail.child name).rules ↔ other ∈ trail.rules ∨ other = name := by
  rw [child_rules]
  split
  · next h =>
    constructor
    · exact Or.inl
    · rintro (h' | rfl)
      · exact h'
      · exact h
  · simp

/-- Each rule that an event came through makes it one deeper. -/
theorem along_depth (trail : CascadeTrail) (names : List String) :
    (trail.along names).depth = trail.depth + names.length := by
  induction names generalizing trail with
  | nil => rfl
  | cons name rest ih =>
    show ((trail.child name).along rest).depth = _
    rw [ih, child_depth, List.length_cons]
    omega

/-- The trail names the rules that an event came through, each where it first came up. -/
theorem along_rules (trail : CascadeTrail) (names : List String) :
    (trail.along names).rules = trail.rules ++ freshNames trail.rules names := by
  induction names generalizing trail with
  | nil => simp [along, freshNames]
  | cons name rest ih =>
    show ((trail.child name).along rest).rules = _
    rw [ih, child_rules, freshNames]
    split <;> simp

/-- A trail without repetitions stays so. -/
theorem along_nodup {trail : CascadeTrail} (h : trail.rules.Nodup) (names : List String) :
    (trail.along names).rules.Nodup := by
  induction names generalizing trail with
  | nil => exact h
  | cons name rest ih =>
    refine ih ?_
    rw [child_rules]
    split
    · exact h
    · next hnew =>
      rw [List.nodup_append]
      refine ⟨h, by simp, fun a ha b hb => ?_⟩
      rw [List.mem_singleton.1 hb]
      exact fun heq => hnew (heq ▸ ha)

end CascadeTrail

namespace Cascade

/-- The names of the rules along some hops. -/
def ruleNames (hops : List Hop) : List String := hops.map (·.rule.name)

/-- The names of the rules that dispatched actions. -/
def firing (hops : List Hop) : List String :=
  ruleNames (hops.filter fun h => !h.dispatched.isEmpty)

theorem firing_cons_of_nil {h : Hop} (hh : h.dispatched = []) (rest : List Hop) :
    firing (h :: rest) = firing rest := by
  simp [firing, hh]

theorem firing_cons_of_ne_nil {h : Hop} (hh : h.dispatched ≠ []) (rest : List Hop) :
    firing (h :: rest) = h.rule.name :: firing rest := by
  simp [firing, ruleNames, hh]

end Cascade

namespace Engine

open Cascade (Chain Hop events ruleNames firing firing_cons_of_nil firing_cons_of_ne_nil)

variable {e : Engine}

/-- The event at the end of a causal chain carries the trail after its hops. -/
theorem trail_of_chain (hq : Quiet e) {t u : Cascade} {hops : List Hop} (h : Chain t hops u)
    (root : ∀ c ∈ t.considered, Accounted e t.event c) :
    u.event.trail = t.event.trail.along (ruleNames hops) := by
  induction h with
  | refl t => rfl
  | hop mem caused rest ih =>
    obtain ⟨htrail, s, out, hs, published⟩ := (root _ mem).caused _ caused
    rw [ih fun c hc => (published.accounted (hq.of_setup hs) c hc).of_setup hs, htrail]
    rfl

/-- What one hop adds to the rules that dispatch actions along a chain. -/
theorem firing_hop {x : DomainEvent} {c : Consideration Cascade} (hc : Accounted e x c)
    {later : List Hop} (nodup : (firing later).Nodup)
    (fresh : ∀ name ∈ firing later, name ∉ (x.trail.child c.rule.name).rules) :
    (firing (⟨x, c.rule, c.dispatched⟩ :: later)).Nodup ∧
      ∀ name ∈ firing (⟨x, c.rule, c.dispatched⟩ :: later), name ∉ x.trail.rules := by
  have hlater : ∀ name ∈ firing later, name ∉ x.trail.rules ∧ name ≠ c.rule.name :=
    fun name hname => not_or.1 fun h => fresh name hname (CascadeTrail.mem_child_rules.2 h)
  by_cases hd : c.dispatched = []
  · rw [firing_cons_of_nil hd]
    exact ⟨nodup, fun name hname => (hlater name hname).1⟩
  · rw [firing_cons_of_ne_nil hd]
    refine ⟨List.nodup_cons.2 ⟨fun hmem => (hlater _ hmem).2 rfl, nodup⟩, fun name hname => ?_⟩
    rcases List.mem_cons.1 hname with rfl | hname
    · exact hc.dispatched hd
    · exact (hlater name hname).1

/--
Along a causal chain, with a rule considered at its end, no rule dispatches actions twice, and none
does so that the trail of the first event lists.
-/
theorem firing_nodup (hq : Quiet e) {t u : Cascade} {hops : List Hop} (h : Chain t hops u)
    (root : ∀ c ∈ t.considered, Accounted e t.event c) {last : Consideration Cascade}
    (hlast : last ∈ u.considered) :
    (firing (hops ++ [⟨u.event, last.rule, last.dispatched⟩])).Nodup ∧
      ∀ name ∈ firing (hops ++ [⟨u.event, last.rule, last.dispatched⟩]),
        name ∉ t.event.trail.rules := by
  -- the trail only grows along the chain, so the argument goes from its end to its start
  induction h with
  | refl t => exact firing_hop (root last hlast) List.nodup_nil fun _ h => by cases h
  | hop mem caused rest ih =>
    obtain ⟨htrail, s, out, hs, published⟩ := (root _ mem).caused _ caused
    have hrest := ih (fun c hc => (published.accounted (hq.of_setup hs) c hc).of_setup hs) hlast
    rw [htrail] at hrest
    exact firing_hop (root _ mem) hrest.1 hrest.2

/-- What the trails in the cascade that processing an event sets off tell. -/
structure Trailed (e : Engine) (x : DomainEvent) (considered : List (Consideration Cascade)) :
    Prop where
  derived : Processes x e considered (processEvent x e)
  published : (processEvent x e).2.published =
    e.published ++ considered.flatMap fun c => c.caused.flatMap events
  depth : ∀ hops u, Chain (.mk x considered) hops u →
    u.event.trail.depth = x.trail.depth + hops.length
  rules : ∀ hops u, Chain (.mk x considered) hops u →
    u.event.trail.rules =
      x.trail.rules ++ CascadeTrail.freshNames x.trail.rules (ruleNames hops)
  nodup : ∀ hops u, Chain (.mk x considered) hops u → u.event.trail.rules.Nodup
  /-- Along a chain, with a rule considered at its end, a rule dispatches actions at most once. -/
  once : ∀ hops u c, Chain (.mk x considered) hops u → c ∈ u.considered →
    (firing (hops ++ [⟨u.event, c.rule, c.dispatched⟩])).Nodup
  /-- A rule that the first event lists never does. -/
  never : ∀ hops u c, Chain (.mk x considered) hops u → c ∈ u.considered →
    ∀ name ∈ firing (hops ++ [⟨u.event, c.rule, c.dispatched⟩]), name ∉ x.trail.rules

/-- Processing an event that lists no rule twice sets off a cascade whose trails are exact. -/
theorem processEvent_trails (quiet : Quiet e) (x : DomainEvent) (nodup : x.trail.rules.Nodup) :
    ∃ considered, Trailed e x considered := by
  obtain ⟨considered, h⟩ := exists_processEvent quiet x
  have root := h.accounted quiet
  have trail {hops : List Hop} {u : Cascade} (hu : Chain (.mk x considered) hops u) :
      u.event.trail = x.trail.along (ruleNames hops) :=
    trail_of_chain quiet hu root
  refine ⟨considered,
    { derived := h
      published := by rw [h.published_eq, Cascade.eventsOfAll_eq]
      depth := fun hops u hu => ?_
      rules := fun hops u hu => by rw [trail hu, CascadeTrail.along_rules]
      nodup := fun hops u hu => by rw [trail hu]; exact CascadeTrail.along_nodup nodup _
      once := fun hops u c hu hc => (firing_nodup quiet hu root hc).1
      never := fun hops u c hu hc => (firing_nodup quiet hu root hc).2 }⟩
  rw [trail hu, CascadeTrail.along_depth, ruleNames, List.length_map]

theorem processEvent_trails_echoing :
    (Quiet echoing ∧ tick.trail.rules.Nodup) ∧ ∃ considered, Trailed echoing tick considered :=
  ⟨⟨echoing_quiet, by decide⟩, processEvent_trails echoing_quiet tick (by decide)⟩

end Engine

end WorkflowRules
