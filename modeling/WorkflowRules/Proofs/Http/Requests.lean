import WorkflowRules.Http.Api
import WorkflowRules.Proofs.Engine.Untouched

/-!
# Requests that change nothing

A request to an engine in memory is answered, unless hooks set off what never ends. It changes the
engine only if its method is there to change something and the answer reports success: a request that
only looks, and one that is answered with an error, leave all definitions, rules, instances and
histories as they were.

* `Http.Response.Succeeded` — the status reports success
* `Http.MayHang` — the ways in which a request may remain without an answer
* `Http.Answers` — a handler answers, and changes nothing unless the answer permits it
* `Http.get_answers`, `Http.respond_answers` — the handlers
* `Http.unchanged_unless_succeeded` — all requests
-/

namespace WorkflowRules

open Operation (Survives Restores)
open Engine (Untouched InMemory Harmless Quiet)

namespace Http

/-- The status is one of those that report success. -/
def Response.Succeeded (r : Response) : Prop := 200 ≤ r.status ∧ r.status < 300

/-- A request may remain without an answer in this way: a hook publishes what never ends. -/
def MayHang (e : Engine) (why : Breakdown) : Prop := why ≠ .unreadable ∧ ¬ Quiet e

/--
The handler answers, and nothing changes, unless the answer permits it; or it breaks down in a way in
which it can.
-/
def Answers (can : Breakdown → Prop) (permits : Response → Prop) (e : Engine) (h : Handler) : Prop :=
  (∃ r e', h e = (.ok r, e') ∧ (¬ permits r → Untouched e e')) ∨
    ∃ why e', can why ∧ h e = (.error (.breakdown why), e')

variable {can : Breakdown → Prop} {permits : Response → Prop} {e : Engine}

theorem answers_pure (r : Response) : Answers can permits e (pure r) :=
  .inl ⟨r, e, rfl, fun _ => .rfl⟩

/-- What is permitted may depend on the status only, which `HEAD` does not change. -/
theorem Answers.forMethod {h : Handler} (ha : Answers can permits e h)
    (hpermits : ∀ r r' : Response, r.status = r'.status → permits r → permits r')
    (method : Method) :
    Answers can permits e (do
      let response ← h
      return Http.forMethod method response) := by
  rcases ha with ⟨r, e', hrun, hsame⟩ | ⟨why, e', hcan, hrun⟩
  · refine .inl ⟨Http.forMethod method r, e', Operation.bind_ok _ hrun,
      fun hnot => hsame fun hr => hnot (hpermits r _ ?_ hr)⟩
    unfold Http.forMethod
    split <;> rfl
  · exact .inr ⟨why, e', hcan, Operation.bind_error _ hrun⟩

/-! ## Operations behind handlers -/

section Operations

variable {α : Type} {x : Operation Engine α}

/-- An operation that only looks is answered and changes nothing, whatever the answer. -/
theorem answering_looks (hx : ∀ why, Survives why (Untouched e) x) (status : Nat) (write : α → Json) :
    Answers can permits e (answering status write x) := by
  rcases hrun : x e with ⟨(reason | why) | a, e'⟩
  · have same := (hx .unreadable e .rfl).2
    rw [hrun] at same
    exact .inl ⟨.ofError reason, e', Operation.bind_ok _ (Operation.attempt_error hrun), fun _ => same⟩
  · exact absurd (congrArg Prod.fst hrun) (hx why e .rfl).1
  · have same := (hx .unreadable e .rfl).2
    rw [hrun] at same
    exact .inl ⟨.json status (write a), e', Operation.bind_ok _ (Operation.attempt_ok hrun),
      fun _ => same⟩

/-- An operation whose refusals leave nothing behind changes nothing unless the answer is a success. -/
theorem answering_restores (hx : ∀ why, why = .unreadable ∨ Quiet e → Restores why (Untouched e) x)
    {status : Nat} (success : 200 ≤ status ∧ status < 300) (write : α → Json) :
    Answers (MayHang e) Response.Succeeded e (answering status write x) := by
  rcases hrun : x e with ⟨(reason | why) | a, e'⟩
  · have same := (hx .unreadable (.inl rfl) e .rfl).2 reason (congrArg Prod.fst hrun)
    rw [hrun] at same
    exact .inl ⟨.ofError reason, e', Operation.bind_ok _ (Operation.attempt_error hrun), fun _ => same⟩
  · have broken : (x e).1 = .error (.breakdown why) := congrArg Prod.fst hrun
    exact .inr ⟨why, e', ⟨fun hwhy => (hx why (.inl hwhy) e .rfl).1 broken,
      fun quiet => (hx why (.inr quiet) e .rfl).1 broken⟩,
      Operation.bind_error _ (Operation.attempt_breakdown hrun)⟩
  · exact .inl ⟨.json status (write a), e', Operation.bind_ok _ (Operation.attempt_ok hrun),
      fun hnot => absurd success hnot⟩

theorem orNotFound_looks {x : Operation Engine (Option α)} {why : Breakdown}
    (hx : Survives why (Untouched e) x) (what : String) :
    Survives why (Untouched e) (orNotFound what x) := by
  refine hx.bind fun found => ?_
  cases found with
  | none => exact Survives.fail _
  | some a => exact Survives.pure _

/-- A body that cannot be read is answered before the engine is asked. -/
theorem withBody_answers (r : Json.Reader α) (request : Request) {use : α → Handler}
    (huse : ∀ a, Answers can permits e (use a)) : Answers can permits e (withBody r request use) := by
  unfold withBody
  split
  · exact answers_pure _
  · split
    · exact answers_pure _
    · exact answers_pure _
    · exact huse _

end Operations

/-! ## Handlers -/

section Handlers

variable (memory : InMemory e)

include memory

/-- Looking is always answered, and changes nothing. -/
theorem get_answers (target : Target) : Answers can permits e (get target) := by
  cases target with
  | health | ruleSwitch | event => exact answers_pure _
  | workflows => exact answering_looks (fun _ => Survives.view _) _ _
  | workflow name => exact answering_looks (fun _ => Engine.lookup_survives name) _ _
  | instances w => exact answering_looks (fun _ => Engine.listInstances_looks memory w) _ _
  | «instance» w e =>
    exact answering_looks (fun _ => orNotFound_looks (Engine.getInstance_looks memory w e) _) _ _
  | history w e =>
    exact answering_looks (fun _ => orNotFound_looks (Engine.getHistory_looks memory w e) _) _ _
  | transitions w e => exact answering_looks (fun _ => Engine.availableTransitions_looks memory w e) _ _
  | transition w e t => exact answering_looks (fun _ => Engine.canTransition_looks memory w e t _) _ _
  | rules => exact answering_looks (fun _ => Survives.view _) _ _
  | rule name => exact answering_looks (fun _ => orNotFound_looks (Survives.view _) _) _ _

theorem deleteWorkflow_answers (name : String) :
    Answers (MayHang e) Response.Succeeded e (deleteWorkflow name) :=
  answering_restores (fun _ _ => Engine.removal_restores _ fun _ hs =>
    Engine.removeWorkflow_cases (memory.untouched hs) name) (by decide) _

theorem deleteRule_answers (name : String) :
    Answers (MayHang e) Response.Succeeded e (deleteRule name) :=
  answering_restores (fun _ _ => Engine.removal_restores _ fun _ hs =>
    Engine.removeRule_cases (memory.untouched hs) name) (by decide) _

/-- A request that is answered with an error has changed nothing. -/
theorem respond_answers (harmless : Harmless e) (method : Method) (target : Target)
    (request : Request) : Answers (MayHang e) Response.Succeeded e (respond method target request) := by
  unfold respond
  split
  · exact get_answers memory _
  · exact withBody_answers _ _ fun d =>
      answering_restores (fun _ _ => Engine.defineWorkflow_restores memory _) (by decide) _
  · exact deleteWorkflow_answers memory _
  · exact withBody_answers _ _ fun n =>
      answering_restores (fun _ _ => Engine.createInstance_restores memory _ _ _ _) (by decide) _
  · exact withBody_answers _ _ fun n =>
      answering_restores (fun _ harmed => Engine.fire_restores memory harmless harmed _ _ _ _)
        (by decide) _
  · exact withBody_answers _ _ fun r =>
      answering_restores (fun _ _ => Engine.createRule_restores memory _) (by decide) _
  · exact withBody_answers _ _ fun enabled =>
      answering_restores (fun _ _ => Engine.setEnabled_restores memory _ _) (by decide) _
  · exact deleteRule_answers memory _
  · exact withBody_answers _ _ fun payload =>
      answering_restores (fun _ harmed => Engine.onEvent_restores memory harmed _ _) (by decide) _
  · exact answers_pure _

end Handlers

/-! ## Requests -/

/-- A request is answered as its method says, or by what is said of its path. -/
theorem handle_answers (request : Request)
    (hrespond : ∀ target, Answers can permits e (respond request.method.answering target request))
    (hpermits : ∀ r r' : Response, r.status = r'.status → permits r → permits r') :
    Answers can permits e (handle request) := by
  unfold handle
  split
  · exact answers_pure _
  · dsimp only
    split
    · split
      · exact answers_pure _
      · exact (hrespond _).forMethod hpermits _
    · exact answers_pure _

/--
A request is answered. If it only asks for something to be looked at, or if its answer reports no
success, then all definitions, rules, instances and histories are as they were before it. Only a request
for a change can remain without an answer, and only where a hook publishes what never ends.
-/
theorem unchanged_unless_succeeded (memory : InMemory e) (harmless : Harmless e) (request : Request) :
    (∃ response e', handle request e = (.ok response, e') ∧
      (request.method.answering = .get ∨ ¬ (200 ≤ response.status ∧ response.status < 300) →
        Untouched e e')) ∨
      request.method.answering ≠ .get ∧
        ∃ why e', MayHang e why ∧ handle request e = (.error (.breakdown why), e') := by
  by_cases hget : request.method.answering = .get
  · have hrespond (target : Target) : Answers (fun _ => False) (fun _ => False) e
        (respond request.method.answering target request) := by
      rw [hget]
      exact get_answers memory target
    rcases handle_answers request hrespond fun _ _ _ => id with
      ⟨r, e', hrun, hsame⟩ | ⟨_, _, impossible, -⟩
    · exact .inl ⟨r, e', hrun, fun _ => hsame id⟩
    · exact impossible.elim
  · have hrespond (target : Target) :=
      respond_answers memory harmless request.method.answering target request
    have hstatus (r r' : Response) (same : r.status = r'.status) (hr : r.Succeeded) : r'.Succeeded := by
      rwa [Response.Succeeded, ← same]
    rcases handle_answers request hrespond hstatus with ⟨r, e', hrun, hsame⟩ | hangs
    · exact .inl ⟨r, e', hrun, fun hor => hsame (hor.resolve_left hget)⟩
    · exact .inr ⟨hget, hangs⟩

/-! ## An order that is not paid -/

/-- Hooks that do nothing, or do nothing but fail, are harmless. -/
theorem harmless_of_effects (h : ∀ name hook, e.hooks.get? name = some hook →
    ∀ n seen, hook n seen = .nothing ∨ ∃ reason, hook n seen = .fail reason) : Harmless e := by
  intro e' _ name hook hhook held seen
  have called : Untouched e' (Engine.runHook ⟨held, Engine.publishWith⟩ seen name hook e').2 ↔
      Untouched e' (Engine.applyEffect ⟨held, Engine.publishWith⟩ seen (hook e'.called seen)
        { e' with trace := .hookRan name seen :: e'.trace, called := e'.called + 1 }).2 := Iff.rfl
  rw [called]
  rcases h name hook hhook e'.called seen with heff | ⟨reason, heff⟩ <;> rw [heff] <;>
    exact ⟨⟨rfl, rfl, rfl, rfl, rfl, rfl, rfl, rfl⟩, rfl⟩

/-- The workflow of orders that are paid only if the cashier agrees. -/
def cashed : Definition :=
  (Definition.ofStates "order" "order" "open" ["open", "paid"]).addTransition
    { sources := ["open"], target := "paid", event := "pay", beforeHooks := ["cashier"] }

/-- An engine in memory with an open order, and a cashier who never agrees. -/
def counter : Engine :=
  (Engine.createInstance "order" "7" .null none
    { Engine.inMemory {} .counting with
      registry := Keyed.empty.insert "order" cashed
      hooks := Keyed.empty.insert "cashier" fun _ _ => .fail "the till is closed" }).2

/-- The request to pay the order. -/
def payment : Request :=
  { method := .post
    uri := "/api/workflows/order/instances/7/transitions"
    contentType := some "application/json"
    body := "\x7b\"event\":\"pay\"\x7d" }

theorem inMemory_counter : InMemory counter := ⟨_, rfl⟩

theorem harmless_counter : Harmless counter := by
  refine harmless_of_effects fun name hook hhook _ _ => .inr ?_
  rcases Keyed.get?_insert_eq_some hhook with ⟨-, rfl⟩ | ⟨-, hnone⟩
  · exact ⟨_, rfl⟩
  · cases hnone

theorem quiet_counter : Quiet counter := by
  intro name hook hhook n seen event payload
  rcases Keyed.get?_insert_eq_some hhook with ⟨-, rfl⟩ | ⟨-, hnone⟩
  · simp
  · cases hnone

/-- The payment is refused by a hook, and the order stays as it was. -/
theorem unchanged_unless_succeeded_counter :
    InMemory counter ∧ Harmless counter ∧
      ∃ response e', handle payment counter = (.ok response, e') ∧
        (payment.method.answering = .get ∨
          ¬ (200 ≤ response.status ∧ response.status < 300) → Untouched counter e') := by
  refine ⟨inMemory_counter, harmless_counter, ?_⟩
  rcases unchanged_unless_succeeded inMemory_counter harmless_counter payment with
    answered | ⟨-, _, _, ⟨-, loud⟩, -⟩
  · exact answered
  · exact absurd quiet_counter loud

example : (handle payment counter).1.map (·.status) = .ok 424 := by
  decide +kernel

end Http

end WorkflowRules
