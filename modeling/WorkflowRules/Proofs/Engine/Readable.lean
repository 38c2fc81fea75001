import WorkflowRules.Proofs.Engine.Closed
import WorkflowRules.Proofs.Store.Readable

/-!
# Engines on readable stores

An engine whose store has no unreadable row keeps such a store through transitions and cascades, and
none of them comes upon an unreadable row. Nor does what an engine does without publishing anything break
down in any other way.

* `Engine.Readable` — every row of an instance can be fetched
* `Engine.Bears` — nothing in the store makes an operation break down in some way
* `Engine.readable_stepClosed` — no step meets an unreadable row, and so no run does
* `Engine.bears_handling`, `Engine.bears_select` — a step of a transition breaks down in no other way,
  as long as nothing is reserved
-/

namespace WorkflowRules.Engine

open Operation (Survives)

variable {why : Breakdown}

/-- Every row of an instance can be fetched. -/
def Readable (e : Engine) : Prop := e.store.Readable

/-- No row of an instance makes whoever fetches it break down in this way. -/
def Bears (why : Breakdown) (e : Engine) : Prop := e.store.Bears why

/-! ## Looking things up -/

section Look

variable {I : Engine → Prop}

theorem lookup_survives (name : String) : Survives why I (lookup name) := by
  refine (Survives.view _).bind fun found => ?_
  cases found with
  | none => exact .fail _
  | some d => exact .pure d

/-- Only where something is reserved is there anything to wait for. -/
theorem reserve_survives {held : List InstanceKey} (h : why = .waiting → held = [])
    (key : InstanceKey) : Survives why I (reserve held key) := by
  unfold reserve
  split
  · next hmem =>
    refine .breakDown fun hw => ?_
    rw [h hw.symm] at hmem
    cases hmem
  · exact .pure ()

theorem load_survives (bears : ∀ e, I e → e.Bears why) (key : InstanceKey) :
    Survives why I (load key) := by
  refine (Survives.viewExcept fun e he => Store.get?_ne_breakdown (bears e he) key).bind
    fun found => ?_
  cases found with
  | none => exact .fail _
  | some i => exact .pure i

theorem select_survives (d : Definition) (i : Instance) (event : String) :
    Survives why I (select d i event) := by
  unfold select
  split
  · exact .pure _
  · exact .fail _

theorem hooksNamed_survives (names : List String) : Survives why I (hooksNamed names) := by
  induction names with
  | nil => exact .pure _
  | cons name rest ih =>
    refine Survives.bind ((Survives.view _).bind fun found => ?_) fun _ => ih.bind fun _ => .pure _
    cases found with
    | none => exact .fail _
    | some hook => exact .pure _

end Look

/-! ## Runs -/

/-- Guards, hooks and commits break down only on unreadable rows. -/
theorem bears_handling : HandlingClosed fun _ x _ => Survives why (Bears why) x where
  pure := .pure
  fail := .fail
  bind := .bind
  attempt := .attempt
  guardOf _ := .view _
  hookOf _ := .view _
  guardAsked _ _ := .change fun _ he => he
  hookRan _ _ := .change fun _ he => he
  now _ he := ⟨by simp [now], he⟩
  newIdentifier _ he := ⟨by simp [newIdentifier], he⟩
  nextCall _ he := ⟨by simp [nextCall], he⟩
  commit held state entry e he := Store.commit_survives held state entry e.store he
  commitDirectly held state entry e he := Store.persist_survives
    ((Database.commit_survives held state entry).bind fun _ => .pure ()) e.store he

/-- And so does the selection of a transition, unless it waits. -/
theorem bears_select {held : List InstanceKey} (h : why = .waiting → held = []) :
    SelectClosed (fun _ x _ => Survives why (Bears why) x) held :=
  .of_steps .bind lookup_survives (reserve_survives h) (load_survives fun _ he => he) select_survives

/-- On readable stores no step of a run meets an unreadable row, so no run does. -/
theorem readable_stepClosed : StepClosed fun _ x _ => Survives .unreadable (Bears .unreadable) x where
  pure := .pure
  fail := .fail
  endless := .breakDown (by decide)
  bind := .bind
  attempt := .attempt
  view _ := .view _
  observe _ := .change fun _ he => he
  now := bears_handling.now
  newIdentifier := bears_handling.newIdentifier
  nextCall := bears_handling.nextCall
  commit := bears_handling.commit
  commitDirectly := bears_handling.commitDirectly
  select _ := bears_select fun h : Breakdown.unreadable = .waiting => by cases h

end WorkflowRules.Engine
