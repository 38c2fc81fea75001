import WorkflowRules.Proofs.Cascade.Request

/-!
# An engine whose rules set themselves off

One rule publishes its own trigger, and another one is triggered by every record, its own among them.
Without a limit on the length of a chain, neither of them would ever come to rest.

* `Engine.echoing` — the engine
* `Engine.echoing_quiet` — it has no hook that publishes
-/

namespace WorkflowRules

/-- A clock whose readings and identifiers are numbered. -/
def Clock.counting : Clock :=
  { time := fun n => ⟨n, 0⟩, readings := 0, identifier := fun n => ⟨BitVec.ofNat 128 n⟩, issued := 0 }

namespace Engine

/-- The rule that publishes its own trigger. -/
def repeatTick : Rule := (Rule.onEvent "repeat" "tick").addAction (.emitEvent "tick")

/-- The rule that listens to records. -/
def watchRecords : Rule := .onEvent "watch" ruleExecutedEvent

/-- An engine in memory with both rules. -/
def echoing : Engine :=
  { inMemory {} .counting with
    rules := (RuleTable.empty.upsert repeatTick).upsert watchRecords
    subscribers := [.rules, .listener "monitor"]
    connected := true }

/-- The event that starts a chain. -/
def tick : DomainEvent :=
  { id := ⟨0⟩, name := "tick", payload := .null, occurredAt := ⟨0, 0⟩, trail := .root }

theorem echoing_quiet : Quiet echoing :=
  fun _ _ h => by cases h

end Engine

end WorkflowRules
