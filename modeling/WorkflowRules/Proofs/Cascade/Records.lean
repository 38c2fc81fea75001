import Mathlib.Data.List.Forall2
import WorkflowRules.Proofs.Cascade.Termination

/-!
# The records of an event

Which rules are considered for an event, and what their records say apart from the results of their
actions, is settled before the first action runs: by the rules of the event's bucket, the trail and the
payload of the event, and the match mode. Whatever the actions set off in between, and whatever state
that leaves the engine in, the rules at hand stay the same.

* `Engine.reached` — the rules of a bucket that are considered
* `Engine.Tells` — what the record of a rule says in any case
* `Engine.process_tells` — there is one such record for each rule that is reached, in their order
* `Engine.records_settled` — so the records are settled by the rule table, and they do come
-/

namespace WorkflowRules.Engine

variable {publish : Publish} {mode : MatchMode} {x : DomainEvent} {rule : Rule}
  {bucket : List Rule} {record : RuleExecution} {records : List RuleExecution} {e e' : Engine}

/-! ## Which rules are considered -/

/-- The rules of a bucket that are considered: when only the first match counts, up to that one. -/
def reached (mode : MatchMode) (x : DomainEvent) : List Rule → List Rule
  | [] => []
  | rule :: rest =>
    if mode = .firstMatch ∧ refusal? rule x = none then [rule] else rule :: reached mode x rest

theorem reached_fanOut (x : DomainEvent) (bucket : List Rule) : reached .fanOut x bucket = bucket := by
  induction bucket with
  | nil => rfl
  | cons rule rest ih => simp [reached, ih]

/-- Rules that do not fire stop nothing. -/
theorem reached_append (mode : MatchMode) {before : List Rule}
    (skipped : ∀ r ∈ before, refusal? r x ≠ none) (rest : List Rule) :
    reached mode x (before ++ rest) = before ++ reached mode x rest := by
  induction before with
  | nil => rfl
  | cons r others ih =>
    rw [List.cons_append, reached, if_neg fun h => skipped r List.mem_cons_self h.2,
      ih fun s hs => skipped s (List.mem_cons_of_mem _ hs), List.cons_append]

/-- If only the first match counts, rules are left out from the end. -/
theorem exists_reached_append (mode : MatchMode) (x : DomainEvent) (bucket : List Rule) :
    ∃ rest, bucket = reached mode x bucket ++ rest := by
  induction bucket with
  | nil => exact ⟨[], rfl⟩
  | cons rule rest ih =>
    obtain ⟨left, hleft⟩ := ih
    rw [reached]
    split
    · exact ⟨rest, rfl⟩
    · exact ⟨left, congrArg (rule :: ·) hleft⟩

/-- The rules of a bucket that an event reaches. -/
structure Reaches (mode : MatchMode) (x : DomainEvent) (bucket considered : List Rule) : Prop where
  front : ∃ rest, bucket = considered ++ rest
  fanOut : mode = .fanOut → considered = bucket
  firstMatch : mode = .firstMatch → ∀ before rule after, bucket = before ++ rule :: after →
    (∀ r ∈ before, refusal? r x ≠ none) → refusal? rule x = none → considered = before ++ [rule]
  noMatch : (∀ r ∈ bucket, refusal? r x ≠ none) → considered = bucket

/-- The rules that are considered are those up to the first that matches. -/
theorem reaches_reached (mode : MatchMode) (x : DomainEvent) (bucket : List Rule) :
    Reaches mode x bucket (reached mode x bucket) where
  front := exists_reached_append mode x bucket
  fanOut := by
    rintro rfl
    exact reached_fanOut x bucket
  firstMatch := by
    rintro rfl before rule after rfl skipped fires
    rw [reached_append _ skipped, reached, if_pos ⟨rfl, fires⟩]
  noMatch skipped := by
    have h := reached_append mode skipped []
    rwa [reached, List.append_nil] at h

/-! ## What the records say -/

/-- What the record of a rule says, whatever came of its actions. -/
structure Tells (x : DomainEvent) (rule : Rule) (record : RuleExecution) : Prop where
  ofRule : record.rule = rule.name
  ofEvent : record.event = x.name
  refused : ∀ status, refusal? rule x = some status →
    record.status = status ∧ record.matched = false
  fires : refusal? rule x = none →
    (record.status = .executed ∨ record.status = .actionFailed) ∧ record.matched = true

/-- A rule that ran was executed, or one of its actions failed. -/
theorem ran_status (rule event : String) (results : List ActionResult) :
    (RuleExecution.ran rule event results).status = .executed ∨
      (RuleExecution.ran rule event results).status = .actionFailed := by
  unfold RuleExecution.ran
  dsimp only
  split
  · exact .inr rfl
  · exact .inl rfl

/-- A record tells whether the rule fired and why not, whatever its actions did. -/
theorem consider_tells (h : consider publish rule x e = (.ok record, e')) : Tells x rule record := by
  cases why : refusal? rule x with
  | some status =>
    rw [consider_skipped why] at h
    cases h
    refine ⟨rfl, rfl, fun s hs => ?_, fun fires => ?_⟩
    · exact ⟨Option.some.inj (why.symm.trans hs), rfl⟩
    · cases why.symm.trans fires
  | none =>
    rw [consider_fires why] at h
    rcases hran : runActions publish ⟨rule, x⟩ rule.actions e with ⟨failure | results, s⟩ <;>
      rw [hran] at h <;> cases h
    refine ⟨rfl, rfl, fun s hs => ?_, fun _ => ⟨ran_status _ _ _, rfl⟩⟩
    cases why.symm.trans hs

theorem Tells.matched_iff (h : Tells x rule record) :
    record.matched = true ↔ refusal? rule x = none := by
  cases why : refusal? rule x with
  | some status => simp [(h.refused status why).2]
  | none => simp [(h.fires why).2]

/-- The rules at hand are those of the start; nothing that happens meanwhile adds or drops any. -/
theorem considerAll_tells (h : considerAll publish mode x bucket e = (.ok records, e')) :
    List.Forall₂ (Tells x) (reached mode x bucket) records := by
  induction bucket generalizing records e e' with
  | nil =>
    cases h
    exact .nil
  | cons rule rest ih =>
    rw [considerAll_cons] at h
    obtain ⟨record, e₁, first, h⟩ := Operation.bind_eq_ok h
    obtain ⟨-, e₂, -, h⟩ := Operation.bind_eq_ok h
    have told := consider_tells first
    have stops : isLast mode record = true ↔ mode = .firstMatch ∧ refusal? rule x = none := by
      rw [isLast, Bool.and_eq_true, decide_eq_true_iff, told.matched_iff, and_comm]
    by_cases last : isLast mode record = true
    · rw [if_pos last] at h
      cases h
      rw [reached, if_pos (stops.1 last)]
      exact .cons told .nil
    · rw [if_neg last] at h
      obtain ⟨others, e₃, rest, h⟩ := Operation.bind_eq_ok h
      cases h
      rw [reached, if_neg fun hs => last (stops.2 hs)]
      exact .cons told (ih rest)

theorem process_tells (near : x.trail.depth ≤ e.config.maxCascadeDepth)
    (h : process publish x e = (.ok records, e')) :
    List.Forall₂ (Tells x) (reached e.config.matchMode x (e.rules.bucket x.name)) records := by
  rw [process_taken near] at h
  exact considerAll_tells h

/-! ## What does not depend on the actions -/

/-- A record without what its actions came to. -/
structure Outline where
  rule : String
  event : String
  matched : Bool
  /-- The status, unless the actions settle it. -/
  status : Option RuleStatus
deriving DecidableEq, Repr

/-- What a record says apart from its actions. -/
def outline (record : RuleExecution) : Outline :=
  ⟨record.rule, record.event, record.matched, if record.matched then none else some record.status⟩

theorem Tells.outline_eq (h : Tells x rule record) :
    outline record = ⟨rule.name, x.name, (refusal? rule x).isNone, refusal? rule x⟩ := by
  cases why : refusal? rule x with
  | some status => simp [outline, h.ofRule, h.ofEvent, h.refused status why]
  | none => simp [outline, h.ofRule, h.ofEvent, (h.fires why).2]

theorem outlines_eq {considered : List Rule} (h : List.Forall₂ (Tells x) considered records) :
    records.map outline =
      considered.map fun r => ⟨r.name, x.name, (refusal? r x).isNone, refusal? r x⟩ := by
  induction h with
  | nil => rfl
  | cons told _ ih => rw [List.map_cons, List.map_cons, told.outline_eq, ih]

/-! ## The records of an event -/

/-- What the records of an event are, in terms of its bucket. -/
structure SettledRecords (mode : MatchMode) (x : DomainEvent) (bucket : List Rule)
    (records : List RuleExecution) : Prop where
  told : ∃ considered, Reaches mode x bucket considered ∧
    List.Forall₂ (Tells x) considered records
  /-- Other handlers, stores, registries and cascades give the same records up to the actions. -/
  independent : ∀ (publish : Publish) (s s' : Engine) (others : List RuleExecution),
    x.trail.depth ≤ s.config.maxCascadeDepth → s.config.matchMode = mode →
    s.rules.bucket x.name = bucket → process publish x s = (.ok others, s') →
    others.map outline = records.map outline

/-- Within the limit, the records of an event are settled by its bucket. -/
theorem process_settledRecords (near : x.trail.depth ≤ e.config.maxCascadeDepth)
    (h : process publish x e = (.ok records, e')) :
    SettledRecords e.config.matchMode x (e.rules.bucket x.name) records where
  told := ⟨_, reaches_reached _ _ _, process_tells near h⟩
  independent publish s s' others hnear hmode hbucket hs := by
    have hothers := process_tells hnear hs
    rw [hmode, hbucket] at hothers
    rw [outlines_eq hothers, outlines_eq (process_tells near h)]

/--
The records of an event within the limit are settled by the rule table, whatever the actions do and
however events are published. The processing of an event is never refused; and unless a hook publishes,
there are records if all rows of instances can be fetched.
-/
theorem records_settled (near : x.trail.depth ≤ e.config.maxCascadeDepth) :
    (∀ publish records e', process publish x e = (.ok records, e') →
        SettledRecords e.config.matchMode x (e.rules.bucket x.name) records) ∧
      (∀ failure e', processEvent x e = (.error failure, e') →
        (∃ why, failure = .breakdown why) ∧ (Quiet e → failure = .unreadable)) ∧
      (Quiet e → e.Readable → ∃ records e', processEvent x e = (.ok records, e')) := by
  refine ⟨fun publish records e' h => process_settledRecords near h, fun failure e' h => ?_,
    fun quiet readable => processEvent_succeeds quiet readable x⟩
  exact ⟨(processEvent_neverRefused x).breaksDown h,
    fun quiet => processEvent_unreadable quiet x (congrArg Prod.fst h)⟩

/-- A rule on its own announcements has one record for each event. -/
theorem records_settled_echoing :
    tick.trail.depth ≤ echoing.config.maxCascadeDepth ∧
      ∃ records e', processEvent tick echoing = (.ok records, e') ∧
        SettledRecords .fanOut tick [repeatTick] records := by
  obtain ⟨settles, -, returns⟩ := records_settled (e := echoing) (x := tick) (by decide)
  obtain ⟨records, e', h⟩ := returns echoing_quiet trivial
  exact ⟨by decide, records, e', h, settles Engine.publish records e' h⟩

end WorkflowRules.Engine
