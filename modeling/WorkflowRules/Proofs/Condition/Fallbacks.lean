import WorkflowRules.Condition.Evaluate

/-!
# Leaves that cannot be evaluated

A leaf with an unknown operator is false, and so is one that needs a list of values and has none. The
check reports exactly these leaves. So a condition without problems means the same whatever such leaves
count as: none of them is met in its evaluation.

* `Condition.Fallbacks` — what such leaves count as
* `Condition.holdsOr` — evaluation with a choice of them, and `Condition.holdsOr_standard`
* `Condition.holdsOr_of_problems` — without problems the choice does not matter
-/

namespace WorkflowRules

/-- What the leaves that cannot be evaluated count as. -/
structure Condition.Fallbacks where
  /-- The operator is unknown. -/
  unknownOperator : Comparison → Json → Bool
  /-- The operator needs a list of values, and the value is none. -/
  noList : Comparison → Json → Bool

/-- They are false. -/
def Condition.Fallbacks.standard : Condition.Fallbacks :=
  { unknownOperator := fun _ _ => false, noList := fun _ _ => false }

/-! ## Leaves -/

namespace Comparison

variable {c : Comparison}

/-- Whether a payload meets a comparison, with a choice of what it counts as without a meaning. -/
def holdsOr (f : Condition.Fallbacks) (c : Comparison) (payload : Json) : Bool :=
  match Operator.named? c.operator with
  | none => f.unknownOperator c payload
  | some op =>
    if op.needsList && !c.value.isArray then f.noList c payload
    else op.holds (Path.resolve payload c.field) c.value

/-- What is not a list includes nothing, and says so. -/
theorem includes?_of_not_isArray {options : Json} (h : options.isArray = false) (actual : Json) :
    options.includes? actual = none := by
  cases options with
  | array items => cases h
  | _ => rfl

/-- An operator that needs a list and has none is false. -/
theorem holds_of_needsList {op : Operator} {expected : Json} (needs : op.needsList = true)
    (missing : expected.isArray = false) (actual : Json) : op.holds actual expected = false := by
  have hnone := includes?_of_not_isArray missing actual
  cases op with
  | isIn => rw [Operator.holds, hnone, Option.getD_none]
  | notIn => rw [Operator.holds, hnone, Option.any_none]
  | _ => cases needs

theorem holdsOr_standard (c : Comparison) (payload : Json) :
    c.holdsOr .standard payload = c.holds payload := by
  unfold holdsOr holds
  cases Operator.named? c.operator with
  | none => rfl
  | some op =>
    dsimp only
    split
    · next hlist =>
      rw [Bool.and_eq_true, Bool.not_eq_true'] at hlist
      rw [holds_of_needsList hlist.1 hlist.2]
      rfl
    · rfl

/-- A leaf without problems names a field and an operator that has what it needs. -/
theorem problems_eq_nil_iff :
    c.problems = [] ↔ Text.isBlank c.field = false ∧
      ∃ op, Operator.named? c.operator = some op ∧
        (op.needsList = true → c.value.isArray = true) := by
  unfold problems
  rw [List.append_eq_nil_iff]
  refine and_congr (by simp) ?_
  cases Operator.named? c.operator with
  | none => simp
  | some op => simp

theorem holdsOr_of_problems (h : c.problems = []) (f : Condition.Fallbacks) (payload : Json) :
    c.holdsOr f payload = c.holds payload := by
  obtain ⟨-, op, hop, list⟩ := problems_eq_nil_iff.1 h
  unfold holdsOr holds
  rw [hop]
  refine if_neg fun hmissing => ?_
  rw [Bool.and_eq_true, Bool.not_eq_true'] at hmissing
  rw [list hmissing.1] at hmissing
  cases hmissing.2

end Comparison

/-! ## Trees -/

namespace Condition

mutual

/-- Whether a payload meets a condition, with a choice for the leaves without a meaning. -/
def holdsOr (f : Fallbacks) (payload : Json) : Condition → Bool
  | .group .all members => allHoldOr f payload members
  | .group .any members => anyHoldsOr f payload members
  | .leaf comparison => comparison.holdsOr f payload

/-- Whether a payload meets every condition of a list. -/
def allHoldOr (f : Fallbacks) (payload : Json) : List Condition → Bool
  | [] => true
  | c :: rest => holdsOr f payload c && allHoldOr f payload rest

/-- Whether a payload meets some condition of a list. -/
def anyHoldsOr (f : Fallbacks) (payload : Json) : List Condition → Bool
  | [] => false
  | c :: rest => holdsOr f payload c || anyHoldsOr f payload rest

end

mutual

theorem holdsOr_standard (payload : Json) (c : Condition) :
    holdsOr .standard payload c = holds payload c := by
  match c with
  | .group .all members => rw [holdsOr, holds, allHoldOr_standard payload members]
  | .group .any members => rw [holdsOr, holds, anyHoldsOr_standard payload members]
  | .leaf comparison => rw [holdsOr, holds, comparison.holdsOr_standard]

/-- With the standard fallbacks, all members are evaluated as they are. -/
theorem allHoldOr_standard (payload : Json) (cs : List Condition) :
    allHoldOr .standard payload cs = allHold payload cs := by
  match cs with
  | [] => rfl
  | c :: rest =>
    rw [allHoldOr, allHold, holdsOr_standard payload c, allHoldOr_standard payload rest]

theorem anyHoldsOr_standard (payload : Json) (cs : List Condition) :
    anyHoldsOr .standard payload cs = anyHolds payload cs := by
  match cs with
  | [] => rfl
  | c :: rest =>
    rw [anyHoldsOr, anyHolds, holdsOr_standard payload c, anyHoldsOr_standard payload rest]

end

mutual

/-- Without problems, nothing of a condition is left to choice. -/
theorem holdsOr_of_problems (f : Fallbacks) (payload : Json) (c : Condition) (h : c.problems = []) :
    holdsOr f payload c = holds payload c := by
  match c with
  | .group .all members => rw [holdsOr, holds, allHoldOr_of_problems f payload members h]
  | .group .any members => rw [holdsOr, holds, anyHoldsOr_of_problems f payload members h]
  | .leaf comparison => rw [holdsOr, holds, Comparison.holdsOr_of_problems h]

/-- Members without problems need no fallback. -/
theorem allHoldOr_of_problems (f : Fallbacks) (payload : Json) (cs : List Condition)
    (h : problemsOfAll cs = []) : allHoldOr f payload cs = allHold payload cs := by
  match cs with
  | [] => rfl
  | c :: rest =>
    obtain ⟨hc, hrest⟩ := List.append_eq_nil_iff.1 h
    rw [allHoldOr, allHold, holdsOr_of_problems f payload c hc,
      allHoldOr_of_problems f payload rest hrest]

theorem anyHoldsOr_of_problems (f : Fallbacks) (payload : Json) (cs : List Condition)
    (h : problemsOfAll cs = []) : anyHoldsOr f payload cs = anyHolds payload cs := by
  match cs with
  | [] => rfl
  | c :: rest =>
    obtain ⟨hc, hrest⟩ := List.append_eq_nil_iff.1 h
    rw [anyHoldsOr, anyHolds, holdsOr_of_problems f payload c hc,
      anyHoldsOr_of_problems f payload rest hrest]

end

end Condition

end WorkflowRules
