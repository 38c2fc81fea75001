import WorkflowRules.Proofs.Cascade.Parts
import WorkflowRules.Proofs.Cascade.Termination

/-!
# The stream of published events

Listeners see the events of a cascade in one stream. It is the tree of what caused what, written depth
first: an event comes before everything that it caused, and a rule is through with what its actions led
to before its record is announced, and with all that the announcement led to before the next rule is
considered.

* `Engine.Told` — what the stream shows of a rule that was considered for an event
* `Engine.Pass` — what it shows of one run through the rules of an event
* `Engine.Streamed` — what it shows of a whole tree
* `Engine.streamed_in_order` — the stream of every cascade is such a tree
-/

namespace WorkflowRules.Engine

open Cascade (events parts)

/-! ## What a tree tells -/

/-- The event at the root was published, and its cascade came to a good end unless something failed. -/
def Spread (start : Engine) (finished : Prop) (t : Cascade) : Prop :=
  ∃ e out, SameSetup start e ∧ Publishes t.event e t out ∧ (finished → out.1.isOk)

/-- The event at the root is what an action asked to publish. -/
def Requested (start : Engine) (finished : Prop) (context : ActionContext) (action : Action)
    (t : Cascade) : Prop :=
  ∃ e e' output out, SameSetup start e ∧
    ask action context e = (.ok (.publication t.event output), e') ∧
    Publishes t.event e' t out ∧ (finished → out.1.isOk)

/-- The event at the root announces the record of a rule that was considered for an event. -/
structure Announced (start : Engine) (finished : Prop) (x : DomainEvent)
    (c : Consideration Cascade) (record : RuleExecution) (t : Cascade) : Prop where
  /-- The record says what came of the rule, and its announcement was published right then. -/
  considered : ∃ e e₁ e₂ out, SameSetup start e ∧
    Considers x c.rule e c.dispatched c.effects (.ok record, e₁) ∧
    newEvent ruleExecutedEvent record.toJson (x.trail.child c.rule.name) e₁ = (.ok t.event, e₂) ∧
    Publishes t.event e₂ t out ∧ (finished → out.1.isOk)
  rule : record.rule = c.rule.name
  event : record.event = x.name
  name : t.event.name = ruleExecutedEvent
  payload : t.event.payload = record.toJson
  trail : t.event.trail = x.trail.child c.rule.name

/-- What is known about a rule that was considered for an event; `finished` says that nothing failed. -/
structure Told (start : Engine) (finished : Prop) (x : DomainEvent) (c : Consideration Cascade) :
    Prop where
  /-- The actions were dispatched in turn, from the first one on. -/
  dispatched : c.dispatched <+: c.rule.actions
  /-- What they published is in their order. -/
  effects : ∃ senders, senders.Sublist c.dispatched ∧
    List.Forall₂ (Requested start finished ⟨c.rule, x⟩) senders c.effects
  closing : ∀ record t, c.closing = some (record, t) → Announced start finished x c record t
  closed : finished → c.closing.isSome

/-- One run through the rules of an event, with their records. -/
structure Pass (start : Engine) (x : DomainEvent) (pass : List (Consideration Cascade))
    (records : List RuleExecution) : Prop where
  processed : ∃ e e', SameSetup start e ∧ Processes x e pass (.ok records, e')
  /-- Every rule that was considered has one record. -/
  closings : pass.map (fun c => c.closing.map (·.1)) = records.map some
  /-- The rules were considered in the order of the bucket. -/
  order : pass.map (·.rule) <+: start.rules.bucket x.name
  /-- None was left out, unless the event is beyond the limit or only the first match counts. -/
  rest : pass.map (·.rule) = start.rules.bucket x.name ∨
    start.config.maxCascadeDepth < x.trail.depth ∨
    (start.config.matchMode = .firstMatch ∧ ∃ record ∈ records.getLast?, record.matched = true)

/-- The rules below an event were considered in one run for each time that the rules are subscribed. -/
def InPasses (start : Engine) (t : Cascade) : Prop :=
  ∃ passes : List (List (Consideration Cascade)),
    t.considered = passes.flatten ∧ passes.length = start.subscribers.count .rules ∧
    ∀ pass ∈ passes, ∃ records, Pass start t.event pass records

/-- What the events of a tree tell of the cascade. -/
structure Streamed (start : Engine) (finished : Prop) (t : Cascade) : Prop where
  /--
  An event comes first, and then rule by rule what the actions of the rule led to, and what the
  announcement of its record led to.
  -/
  order : ∀ u ∈ t.parts, u.events =
    u.event :: u.considered.flatMap fun c => c.effects.flatMap events ++ c.notice.flatMap events
  told : ∀ u ∈ t.parts, ∀ c ∈ u.considered, Told start finished u.event c
  passes : finished → ∀ u ∈ t.parts, ∀ v ∈ u.children, InPasses start v
  /-- Every event but the first one announces a record or was published by an action. -/
  split : t.events.Perm (t.event :: (t.notices ++ t.emitted))
  /-- Records and their announcements are in the same order. -/
  notices : t.notices.map (fun y => (y.name, y.payload)) =
    t.records.map fun record => (ruleExecutedEvent, record.toJson)
  count : t.notices.length = t.records.length
  /-- Where no action publishes events of that name, there are as many of them as records. -/
  named : t.events.tail.countP (·.name = ruleExecutedEvent) =
    t.records.length + t.emitted.countP (·.name = ruleExecutedEvent)

/-! ## Rule by rule -/

section

variable {start e e' : Engine} {finished : Prop} {x : DomainEvent} {c : Consideration Cascade}

theorem Requested.of_setup {context : ActionContext} {action : Action} {t : Cascade}
    (hs : SameSetup e e') (h : Requested e' finished context action t) :
    Requested e finished context action t := by
  obtain ⟨s, s', output, out, hse, asked⟩ := h
  exact ⟨s, s', output, out, hs.trans hse, asked⟩

theorem Requested.spread {context : ActionContext} {action : Action} {t : Cascade}
    (h : Requested start finished context action t) : Spread start finished t := by
  obtain ⟨s, s', output, out, hs, asked, published⟩ := h
  exact ⟨s', out, hs.trans (ask_setup asked), published⟩

theorem Announced.of_setup {record : RuleExecution} {t : Cascade} (hs : SameSetup e e')
    (h : Announced e' finished x c record t) : Announced e finished x c record t := by
  obtain ⟨s, s₁, s₂, out, hse, considered⟩ := h.considered
  exact { h with considered := ⟨s, s₁, s₂, out, hs.trans hse, considered⟩ }

theorem Announced.spread {record : RuleExecution} {t : Cascade} (hq : Quiet start)
    (h : Announced start finished x c record t) : Spread start finished t := by
  obtain ⟨s, s₁, s₂, out, hs, considered, notice, published⟩ := h.considered
  have hs₁ := hs.trans (considered.setup (hq.of_setup hs))
  exact ⟨s₂, out, hs₁.trans (newEvent_setup notice), published⟩

theorem Told.of_setup (hs : SameSetup e e') (h : Told e' finished x c) : Told e finished x c where
  dispatched := h.dispatched
  effects := by
    obtain ⟨senders, hsenders, heffects⟩ := h.effects
    exact ⟨senders, hsenders, heffects.imp fun _ _ => Requested.of_setup hs⟩
  closing record t hc := (h.closing record t hc).of_setup hs
  closed := h.closed

theorem spread_of_requested {context : ActionContext} {senders : List Action}
    {effects : List Cascade}
    (h : List.Forall₂ (Requested start finished context) senders effects) :
    ∀ t ∈ effects, Spread start finished t := by
  induction h with
  | nil => exact fun t ht => by cases ht
  | cons requested _ ih =>
    intro t ht
    rcases List.mem_cons.1 ht with rfl | ht
    · exact requested.spread
    · exact ih t ht

theorem Told.spread (hq : Quiet start) (h : Told start finished x c) :
    ∀ t ∈ c.caused, Spread start finished t := by
  intro t ht
  rcases List.mem_append.1 ht with ht | ht
  · obtain ⟨senders, -, heffects⟩ := h.effects
    exact spread_of_requested heffects t ht
  · obtain ⟨⟨record, t⟩, hc, rfl⟩ := Option.map_eq_some_iff.1 (Option.mem_toList.1 ht)
    exact (h.closing record t hc).spread hq

theorem isOk_map {α β : Type} (f : α → β) (r : Except Failure α) : (r.map f).isOk = r.isOk := by
  cases r <;> rfl

/-- Actions are dispatched in turn, and what they publish is in their order. -/
theorem RunsActions.told {e : Engine} {context : ActionContext} {actions dispatched : List Action}
    {effects : List Cascade} {out : End (List ActionResult)}
    (h : RunsActions context actions e dispatched effects out) (hq : Quiet e)
    (hend : finished → out.1.isOk) :
    dispatched <+: actions ∧ ∃ senders, senders.Sublist dispatched ∧
      List.Forall₂ (Requested e finished context) senders effects := by
  match h with
  | .done => exact ⟨List.prefix_rfl, [], List.Sublist.refl _, .nil⟩
  | .broken asked => exact ⟨⟨_, rfl⟩, [], List.nil_sublist _, .nil⟩
  | .failed asked => exact ⟨⟨_, rfl⟩, [], List.nil_sublist _, .nil⟩
  | .answered asked others =>
    have hs := ask_setup asked
    rw [isOk_map] at hend
    obtain ⟨hturn, senders, hsenders, heffects⟩ := others.told (hq.of_setup hs) hend
    exact ⟨List.cons_prefix_cons.2 ⟨rfl, hturn⟩, senders, hsenders.cons _,
      heffects.imp fun _ _ => Requested.of_setup hs⟩
  | .brokenEffect asked effect =>
    refine ⟨⟨_, rfl⟩, [_], List.Sublist.refl _, .cons ?_ .nil⟩
    obtain rfl := effect.event_eq
    exact ⟨e, _, _, _, .rfl, asked, effect, hend⟩
  | .published asked effect others =>
    have hs := ask_setup asked
    have hs₂ := hs.trans (effect.setup (hq.of_setup hs))
    rw [isOk_map] at hend
    obtain ⟨hturn, senders, hsenders, heffects⟩ := others.told (hq.of_setup hs₂) hend
    refine ⟨List.cons_prefix_cons.2 ⟨rfl, hturn⟩, _ :: senders, hsenders.cons_cons _,
      .cons ?_ ?_⟩
    · obtain rfl := effect.event_eq
      exact ⟨e, _, _, _, .rfl, asked, effect, fun _ => rfl⟩
    · exact heffects.imp fun _ _ => Requested.of_setup hs₂

/-- The record of a rule names the rule and the event. -/
theorem Considers.names {rule : Rule} {dispatched : List Action} {effects : List Cascade}
    {out : End RuleExecution} (h : Considers x rule e dispatched effects out)
    {record : RuleExecution} (hout : out.1 = .ok record) :
    record.rule = rule.name ∧ record.event = x.name := by
  match h with
  | .skipped why =>
    cases hout
    exact ⟨rfl, rfl⟩
  | .fires (r := r) _ _ =>
    cases r with
    | error f => cases hout
    | ok results =>
      cases hout
      exact ⟨rfl, rfl⟩

/-- What is known about a rule, given what is known about the announcement of its record. -/
theorem Considers.told {rule : Rule} {dispatched : List Action} {effects : List Cascade}
    {out : End RuleExecution} (h : Considers x rule e dispatched effects out) (hq : Quiet e)
    (hend : finished → out.1.isOk) {closing : Option (RuleExecution × Cascade)}
    (hclosing : ∀ record t, closing = some (record, t) →
      Announced e finished x ⟨rule, dispatched, effects, closing⟩ record t)
    (hclosed : finished → closing.isSome) :
    Told e finished x ⟨rule, dispatched, effects, closing⟩ := by
  cases h with
  | skipped why =>
    exact ⟨List.nil_prefix, ⟨[], List.Sublist.refl _, .nil⟩, hclosing, hclosed⟩
  | fires fires actions =>
    rw [isOk_map] at hend
    obtain ⟨hturn, heffects⟩ := actions.told hq hend
    exact ⟨hturn, heffects, hclosing, hclosed⟩

/-- The same for a rule whose record was announced. -/
theorem Considers.toldAnnounced {rule : Rule} {dispatched : List Action} {effects : List Cascade}
    {record : RuleExecution} {y : DomainEvent} {e₁ e₂ : Engine} {t : Cascade} {out : End Unit}
    (first : Considers x rule e dispatched effects (.ok record, e₁)) (hq : Quiet e)
    (notice : newEvent ruleExecutedEvent record.toJson (x.trail.child rule.name) e₁ = (.ok y, e₂))
    (announced : Publishes y e₂ t out) (hend : finished → out.1.isOk) :
    Told e finished x ⟨rule, dispatched, effects, some (record, t)⟩ := by
  refine first.told hq (fun _ => rfl) (fun record' t' hc => ?_) fun _ => rfl
  cases hc
  obtain rfl := announced.event_eq
  exact
    { considered := ⟨e, e₁, e₂, out, .rfl, first, notice, announced, hend⟩
      rule := (first.names rfl).1
      event := (first.names rfl).2
      name := (newEvent_content notice).1
      payload := (newEvent_content notice).2
      trail := newEvent_trail notice }

/-- Of rules that are considered in turn, each tells what it did. -/
theorem ConsidersAll.told {e : Engine} {mode : MatchMode} {rules : List Rule}
    {considered : List (Consideration Cascade)} {out : End (List RuleExecution)}
    (h : ConsidersAll x mode rules e considered out) (hq : Quiet e)
    (hend : finished → out.1.isOk) : ∀ c ∈ considered, Told e finished x c := by
  match h with
  | .done => simp
  | .broken first =>
    intro c hc
    obtain rfl := List.mem_singleton.1 hc
    exact first.told hq hend (by simp) fun hf => by cases hend hf
  | .brokenNotice first notice announced =>
    intro c hc
    obtain rfl := List.mem_singleton.1 hc
    exact first.toldAnnounced hq notice announced hend
  | .last first notice announced stop =>
    intro c hc
    obtain rfl := List.mem_singleton.1 hc
    exact first.toldAnnounced hq notice announced fun _ => rfl
  | .next first notice announced go others =>
    have hs := (first.setup hq).trans (newEvent_setup notice)
    have hs₂ := hs.trans (announced.setup (hq.of_setup hs))
    rw [isOk_map] at hend
    intro c hc
    rcases List.mem_cons.1 hc with rfl | hc
    · exact first.toldAnnounced hq notice announced fun _ => rfl
    · exact (others.told (hq.of_setup hs₂) hend c hc).of_setup hs₂

theorem Processes.told {considered : List (Consideration Cascade)}
    {out : End (List RuleExecution)} (h : Processes x e considered out) (hq : Quiet e)
    (hend : finished → out.1.isOk) : ∀ c ∈ considered, Told e finished x c := by
  cases h with
  | dropped far => simp
  | taken near all => exact all.told hq hend

/-- Of the rules that subscribers consider, each tells what it did. -/
theorem Delivers.told {e : Engine} {subscribers : List Subscriber}
    {considered : List (Consideration Cascade)} {out : End Unit}
    (h : Delivers x subscribers e considered out) (hq : Quiet e)
    (hend : finished → out.1.isOk) : ∀ c ∈ considered, Told e finished x c := by
  match h with
  | .done => simp
  | .listener rest =>
    intro c hc
    exact (rest.told (hq.of_setup (observe_setup _ e)) hend c hc).of_setup (observe_setup _ e)
  | .rules processed rest =>
    have hs := processed.setup hq
    intro c hc
    rcases List.mem_append.1 hc with hc | hc
    · exact processed.told hq (fun _ => rfl) c hc
    · exact (rest.told (hq.of_setup hs) hend c hc).of_setup hs
  | .broken processed => exact processed.told hq hend

theorem Publishes.delivered {t : Cascade} {out : End Unit} (h : Publishes x e t out) :
    Delivers x e.subscribers (observe (.published x) e).2 t.considered out := by
  cases h with
  | intro delivered => exact delivered

/-- What is known about the rules that were considered for the event at the root. -/
theorem Spread.told {t : Cascade} (hq : Quiet start) (h : Spread start finished t) :
    ∀ c ∈ t.considered, Told start finished t.event c := by
  obtain ⟨e, out, hs, published, hend⟩ := h
  have hs₂ := hs.trans (observe_setup (.published t.event) e)
  exact fun c hc => (published.delivered.told (hq.of_setup hs₂) hend c hc).of_setup hs₂

/-! ## Run by run -/

/-- Every rule that was considered has a record, and there is no other record. -/
theorem ConsidersAll.closings {e : Engine} {mode : MatchMode} {rules : List Rule}
    {considered : List (Consideration Cascade)} {out : End (List RuleExecution)}
    (h : ConsidersAll x mode rules e considered out) {records : List RuleExecution}
    (hout : out.1 = .ok records) :
    considered.map (fun c => c.closing.map (·.1)) = records.map some := by
  match h with
  | .done =>
    cases hout
    rfl
  | .broken first => cases hout
  | .brokenNotice first notice announced => cases hout
  | .last first notice announced stop =>
    cases hout
    rfl
  | .next (r := r) first notice announced go others =>
    cases r with
    | error f => cases hout
    | ok later =>
      cases hout
      rw [List.map_cons, List.map_cons, others.closings rfl]
      rfl

/-- Rules are considered in turn, to the end unless only the first match counts. -/
theorem ConsidersAll.inTurn {e : Engine} {mode : MatchMode} {rules : List Rule}
    {considered : List (Consideration Cascade)} {out : End (List RuleExecution)}
    (h : ConsidersAll x mode rules e considered out) {records : List RuleExecution}
    (hout : out.1 = .ok records) :
    considered.map (·.rule) <+: rules ∧ (considered.map (·.rule) = rules ∨
      (mode = .firstMatch ∧ ∃ record ∈ records.getLast?, record.matched = true)) := by
  match h with
  | .done => exact ⟨List.prefix_rfl, .inl rfl⟩
  | .broken first => cases hout
  | .brokenNotice first notice announced => cases hout
  | .last first notice announced stop =>
    cases hout
    obtain ⟨hmatched, hmode⟩ := Bool.and_eq_true_iff.1 stop
    exact ⟨⟨_, rfl⟩, .inr ⟨of_decide_eq_true hmode, _, rfl, hmatched⟩⟩
  | .next (r := r) first notice announced go others =>
    cases r with
    | error f => cases hout
    | ok later =>
      cases hout
      obtain ⟨hturn, hrest⟩ := others.inTurn rfl
      refine ⟨List.cons_prefix_cons.2 ⟨rfl, hturn⟩, hrest.imp (congrArg _) ?_⟩
      rintro ⟨hmode, last, hlast, hmatched⟩
      exact ⟨hmode, last, by rw [List.getLast?_cons, hlast]; rfl, hmatched⟩

/-- What a run through the rules of an event that came to a good end tells. -/
theorem Processes.pass {considered : List (Consideration Cascade)} {records : List RuleExecution}
    {e' : Engine} (h : Processes x e considered (.ok records, e')) (hs : SameSetup start e) :
    Pass start x considered records where
  processed := ⟨e, e', hs, h⟩
  closings := by
    cases h with
    | dropped far => rfl
    | taken near all => exact all.closings rfl
  order := by
    cases h with
    | dropped far => exact List.nil_prefix
    | taken near all => exact hs.rules ▸ (all.inTurn rfl).1
  rest := by
    cases h with
    | dropped far => exact .inr (.inl (hs.config ▸ far))
    | taken near all => exact hs.rules ▸ hs.config ▸ (all.inTurn rfl).2.imp_right .inr

/-- The rules are run through once for each time that they are subscribed. -/
theorem Delivers.passes {e : Engine} {subscribers : List Subscriber}
    {considered : List (Consideration Cascade)} {out : End Unit}
    (h : Delivers x subscribers e considered out) (hq : Quiet e) (hs : SameSetup start e)
    (hok : out.1.isOk) :
    ∃ passes : List (List (Consideration Cascade)),
      considered = passes.flatten ∧ passes.length = subscribers.count .rules ∧
      ∀ pass ∈ passes, ∃ records, Pass start x pass records := by
  match h with
  | .done => exact ⟨[], rfl, rfl, by simp⟩
  | .listener rest =>
    obtain ⟨passes, hconsidered, hlength, hpasses⟩ :=
      rest.passes (hq.of_setup (observe_setup _ e)) (hs.trans (observe_setup _ e)) hok
    exact ⟨passes, hconsidered, by rw [hlength, List.count_cons_of_ne (by simp)], hpasses⟩
  | .rules processed rest =>
    have hs' := processed.setup hq
    obtain ⟨passes, hconsidered, hlength, hpasses⟩ :=
      rest.passes (hq.of_setup hs') (hs.trans hs') hok
    refine ⟨_ :: passes, by rw [hconsidered, List.flatten_cons], ?_, fun pass hpass => ?_⟩
    · rw [List.length_cons, hlength, List.count_cons_self]
    · rcases List.mem_cons.1 hpass with rfl | hpass
      · exact ⟨_, processed.pass hs⟩
      · exact hpasses pass hpass
  | .broken processed => cases hok

/-- The rules below an event of a cascade that came to a good end. -/
theorem Spread.passes {t : Cascade} (hq : Quiet start) (h : Spread start finished t)
    (hfinished : finished) : InPasses start t := by
  obtain ⟨e, out, hs, published, hend⟩ := h
  have hs₂ := hs.trans (observe_setup (.published t.event) e)
  have hpasses := published.delivered.passes (hq.of_setup hs₂) hs₂ (hend hfinished)
  rw [hs.subscribers] at hpasses
  exact hpasses

/-! ## Whole cascades -/

/-- What the rules below the first event caused, and all that came of it, was published. -/
theorem spread_of_mem_parts {t : Cascade} (hq : Quiet start)
    (root : ∀ c ∈ t.considered, Told start finished t.event c) :
    ∀ u ∈ t.parts, (∀ c ∈ u.considered, Told start finished u.event c) ∧
      ∀ v ∈ u.children, Spread start finished v := by
  induction t using Cascade.induct with
  | h t ih =>
    have children : ∀ v ∈ t.children, Spread start finished v := by
      intro v hv
      obtain ⟨c, hc, hv⟩ := List.mem_flatMap.1 hv
      exact (root c hc).spread hq v hv
    intro u hu
    rw [Cascade.parts_eq] at hu
    rcases List.mem_cons.1 hu with rfl | hu
    · exact ⟨root, children⟩
    · obtain ⟨v, hv, hu⟩ := List.mem_flatMap.1 hu
      exact ih v hv ((children v hv).told hq) u hu

/-- The notice of every record has the name of notices and the record as its payload. -/
theorem Told.notice (h : Told start finished x c) :
    (c.notice.map Cascade.event).map (fun y => (y.name, y.payload)) =
      (c.closing.map (·.1)).toList.map fun record => (ruleExecutedEvent, record.toJson) := by
  rw [Consideration.notice]
  cases hclosing : c.closing with
  | none => rfl
  | some closing =>
    have announced := h.closing closing.1 closing.2 hclosing
    show [(closing.2.event.name, closing.2.event.payload)] = _
    rw [announced.name, announced.payload]
    rfl

/-- The events of a tree tell all of the cascade, as soon as they do so of the rules below the first one. -/
theorem streamed {t : Cascade} (hq : Quiet start)
    (root : ∀ c ∈ t.considered, Told start finished t.event c) : Streamed start finished t := by
  -- every part of the tree was published, so what is told of the root is told of each of them
  have below := spread_of_mem_parts hq root
  have notices : t.notices.map (fun y => (y.name, y.payload)) =
      t.records.map fun record => (ruleExecutedEvent, record.toJson) := by
    rw [Cascade.notices, Cascade.records, List.map_flatMap, List.map_flatMap]
    refine List.flatMap_congr fun c hc => ?_
    obtain ⟨u, hu, hc⟩ := List.mem_flatMap.1 hc
    exact ((below u hu).1 c hc).notice
  refine
    { order := fun u _ => ?_
      told := fun u hu => (below u hu).1
      passes := fun hfinished u hu v hv => ((below u hu).2 v hv).passes hq hfinished
      split := t.events_perm
      notices := notices
      count := t.length_notices
      named := ?_ }
  · rw [Cascade.events_eq, Cascade.children, List.flatMap_assoc]
    refine congrArg _ (List.flatMap_congr fun c _ => ?_)
    rw [Consideration.caused_eq, List.flatMap_append]
  · -- every notice has the name, so what is left to count are the events of actions
    have hnames : t.notices.countP (·.name = ruleExecutedEvent) = t.notices.length := by
      rw [List.countP_eq_length]
      intro y hy
      have hmem := List.mem_map_of_mem (f := fun y => (y.name, y.payload)) hy
      rw [notices] at hmem
      obtain ⟨record, -, heq⟩ := List.mem_map.1 hmem
      exact decide_eq_true (congrArg Prod.fst heq).symm
    have htail : t.events.tail.Perm (t.notices ++ t.emitted) := by
      have h := t.events_perm
      rw [Cascade.events_eq] at h ⊢
      exact h.cons_inv
    rw [htail.countP_eq, List.countP_append, hnames, t.length_notices]

end

/-! ## What listeners see -/

/-- What listeners see of the processing of an event. -/
structure ProcessedInOrder (e : Engine) (x : DomainEvent) (considered : List (Consideration Cascade)) :
    Prop where
  published : (processEvent x e).2.published = e.published ++ (Cascade.mk x considered).events.tail
  streamed : Streamed e (processEvent x e).1.isOk (.mk x considered)
  pass : ∀ records, (processEvent x e).1 = .ok records → Pass e x considered records
  /-- Nothing fails as long as every row of an instance can be fetched. -/
  finished : e.Readable → (processEvent x e).1.isOk

/-- What listeners see of the publication of an event. -/
structure PublishedInOrder (e : Engine) (t : Cascade) : Prop where
  published : (publish t.event e).2.published = e.published ++ t.events
  streamed : Streamed e (publish t.event e).1.isOk t
  passes : (publish t.event e).1.isOk → InPasses e t
  finished : e.Readable → (publish t.event e).1.isOk

/-- An event that is processed tells of its cascade in order, whatever comes of it. -/
theorem processedInOrder {e : Engine} (quiet : Quiet e) (x : DomainEvent) :
    ∃ considered, ProcessedInOrder e x considered := by
  obtain ⟨considered, h⟩ := exists_processEvent quiet x
  exact ⟨considered,
    { published := h.published_eq
      streamed := streamed quiet (h.told quiet id)
      pass := fun records hok => by
        have hout : processEvent x e = (.ok records, (processEvent x e).2) := Prod.ext hok rfl
        rw [hout] at h
        exact h.pass .rfl
      finished := fun readable => by
        obtain ⟨records, e', hrun⟩ := processEvent_succeeds quiet readable x
        rw [hrun]
        rfl }⟩

theorem publishedInOrder {e : Engine} (quiet : Quiet e) (x : DomainEvent) :
    ∃ t : Cascade, t.event = x ∧ PublishedInOrder e t := by
  obtain ⟨t, h⟩ := exists_publish quiet x
  obtain rfl := h.event_eq
  have spread : Spread e (publish t.event e).1.isOk t := ⟨e, _, .rfl, h, id⟩
  exact ⟨t, rfl,
    { published := h.published_eq
      streamed := streamed quiet (spread.told quiet)
      passes := spread.passes quiet
      finished := fun readable => by
        obtain ⟨e', hrun⟩ := publish_succeeds quiet readable t.event
        rw [hrun]
        rfl }⟩

/--
Whatever the rules are, the events that listeners see of a cascade are the events of a tree, in the
order of the tree; both when an event is processed and when it is published.
-/
theorem streamed_in_order {e : Engine} (quiet : Quiet e) (x : DomainEvent) :
    (∃ considered, ProcessedInOrder e x considered) ∧
      ∃ t : Cascade, t.event = x ∧ PublishedInOrder e t :=
  ⟨processedInOrder quiet x, publishedInOrder quiet x⟩

theorem streamed_in_order_echoing :
    Quiet echoing ∧ (∃ considered, ProcessedInOrder echoing tick considered) ∧
      ∃ t : Cascade, t.event = tick ∧ PublishedInOrder echoing t :=
  ⟨echoing_quiet, streamed_in_order echoing_quiet tick⟩

end WorkflowRules.Engine
