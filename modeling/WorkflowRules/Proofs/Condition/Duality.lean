import WorkflowRules.Proofs.Condition.Fallbacks

/-!
# The duals of conditions

The dual of a condition has the two connectives and each operator and its negation exchanged. It is met
exactly when the condition is not. This is so for conditions without problems in which nothing is
compared by order: those operators have no negation, and a leaf that cannot be evaluated is false
whichever of its operator and the negation it has.

* `Condition.dual` — the dual of a condition, and `Condition.dual_dual`
* `Operator.holds_dual`, `Comparison.holds_dual` — an operator and a leaf
* `Condition.deMorgan` — the dual of a checked condition is its negation
-/

namespace WorkflowRules

/-! ## Operators -/

namespace Operator

variable {op : Operator} {text : String}

/-- The operator with the opposite outcome; the two that compare by order have none. -/
def dual : Operator → Operator
  | equals => notEquals
  | notEquals => equals
  | greaterThan => greaterThan
  | lessThan => lessThan
  | isIn => notIn
  | notIn => isIn
  | isNull => isNotNull
  | isNotNull => isNull

/-- Whether the operator compares by order. -/
def orders : Operator → Bool
  | greaterThan | lessThan => true
  | _ => false

@[simp] theorem dual_dual (op : Operator) : op.dual.dual = op := by
  cases op <;> rfl

@[simp] theorem needsList_dual (op : Operator) : op.dual.needsList = op.needsList := by
  cases op <;> rfl

/-- An operator is only known by its name. -/
theorem eq_name_of_named? (h : named? text = some op) : text = op.name := by
  unfold named? at h
  repeat' split at h
  all_goals cases h
  all_goals assumption

/-- Where an operator has what it needs, its dual has the opposite outcome. -/
theorem holds_dual (unordered : op.orders = false) {expected : Json}
    (list : op.needsList = true → expected.isArray = true) (actual : Json) :
    op.dual.holds actual expected = !op.holds actual expected := by
  have hincludes : op.needsList = true → ∃ found, expected.includes? actual = some found := by
    intro needs
    cases expected with
    | array items => exact ⟨_, rfl⟩
    | _ => cases list needs
  cases op with
  | equals | isNull => rfl
  | notEquals | isNotNull => exact (Bool.not_not _).symm
  | isIn =>
    obtain ⟨found, hfound⟩ := hincludes rfl
    rw [dual, holds, holds, hfound]
    rfl
  | notIn =>
    obtain ⟨found, hfound⟩ := hincludes rfl
    rw [dual, holds, holds, hfound]
    exact (Bool.not_not found).symm
  | greaterThan | lessThan => cases unordered

end Operator

/-! ## Leaves -/

namespace Comparison

variable {c : Comparison}

/-- The leaf with the dual operator; one with an unknown operator stays as it is. -/
def dual (c : Comparison) : Comparison :=
  match Operator.named? c.operator with
  | some op => { c with operator := op.dual.name }
  | none => c

/-- The leaf does not compare by order. -/
def Unordered (c : Comparison) : Prop :=
  c.operator ≠ "greater_than" ∧ c.operator ≠ "less_than"

/-- The dual of a comparison with a known operator has the dual operator. -/
theorem dual_of_named? {op : Operator} (h : Operator.named? c.operator = some op) :
    c.dual = { c with operator := op.dual.name } := by
  rw [dual, h]

theorem dual_dual (c : Comparison) : c.dual.dual = c := by
  cases h : Operator.named? c.operator with
  | none =>
    have hsame : c.dual = c := by rw [dual, h]
    rw [hsame, hsame]
  | some op =>
    rw [dual_of_named? h, dual_of_named? (Operator.named?_name _), Operator.dual_dual]
    rw [← Operator.eq_name_of_named? h]

/-- An operator that compares by order is not allowed in such a leaf. -/
theorem Unordered.orders_eq {op : Operator} (h : c.Unordered)
    (hop : Operator.named? c.operator = some op) : op.orders = false := by
  have hname := Operator.eq_name_of_named? hop
  cases op with
  | greaterThan => exact absurd hname h.1
  | lessThan => exact absurd hname h.2
  | _ => rfl

theorem problems_dual (checked : c.problems = []) : c.dual.problems = [] := by
  obtain ⟨hfield, op, hop, list⟩ := problems_eq_nil_iff.1 checked
  rw [dual_of_named? hop]
  exact problems_eq_nil_iff.2
    ⟨hfield, op.dual, Operator.named?_name _, fun needs => list (op.needsList_dual ▸ needs)⟩

theorem holds_dual (checked : c.problems = []) (unordered : c.Unordered) (payload : Json) :
    c.dual.holds payload = !c.holds payload := by
  obtain ⟨-, op, hop, list⟩ := problems_eq_nil_iff.1 checked
  rw [dual_of_named? hop, holds, holds, Operator.named?_name, hop]
  exact Operator.holds_dual (unordered.orders_eq hop) list _

end Comparison

/-! ## Trees -/

/-- The other connective. -/
def Connective.dual : Connective → Connective
  | all => any
  | any => all

namespace Condition

mutual

/-- The condition with connectives, and operators and their negations, exchanged. -/
def dual : Condition → Condition
  | .group connective members => .group connective.dual (dualAll members)
  | .leaf comparison => .leaf comparison.dual

/-- The duals of several conditions. -/
def dualAll : List Condition → List Condition
  | [] => []
  | c :: rest => dual c :: dualAll rest

end

mutual

/-- The leaves from left to right. -/
def leaves : Condition → List Comparison
  | .group _ members => leavesOfAll members
  | .leaf comparison => [comparison]

/-- The leaves of several conditions. -/
def leavesOfAll : List Condition → List Comparison
  | [] => []
  | c :: rest => leaves c ++ leavesOfAll rest

end

mutual

theorem dual_dual (c : Condition) : c.dual.dual = c := by
  match c with
  | .group .all members => rw [dual, dual, dualAll_dualAll members]; rfl
  | .group .any members => rw [dual, dual, dualAll_dualAll members]; rfl
  | .leaf comparison => rw [dual, dual, comparison.dual_dual]

theorem dualAll_dualAll (cs : List Condition) : dualAll (dualAll cs) = cs := by
  match cs with
  | [] => rfl
  | c :: rest => rw [dualAll, dualAll, dual_dual c, dualAll_dualAll rest]

end

mutual

/-- The dual of a condition without problems has none either. -/
theorem problems_dual (c : Condition) (checked : c.problems = []) : c.dual.problems = [] := by
  match c with
  | .group connective members => exact problemsOfAll_dualAll members checked
  | .leaf comparison => exact Comparison.problems_dual checked

theorem problemsOfAll_dualAll (cs : List Condition) (checked : problemsOfAll cs = []) :
    problemsOfAll (dualAll cs) = [] := by
  match cs with
  | [] => rfl
  | c :: rest =>
    obtain ⟨hc, hrest⟩ := List.append_eq_nil_iff.1 checked
    rw [dualAll, problemsOfAll, problems_dual c hc, problemsOfAll_dualAll rest hrest,
      List.append_nil]

end

mutual

theorem holds_dual (payload : Json) (c : Condition) (checked : c.problems = [])
    (unordered : ∀ l ∈ c.leaves, l.Unordered) : holds payload c.dual = !holds payload c := by
  match c with
  | .group .all members => exact anyHolds_dualAll payload members checked unordered
  | .group .any members => exact allHold_dualAll payload members checked unordered
  | .leaf comparison =>
    exact comparison.holds_dual checked (unordered comparison (List.mem_singleton_self _)) payload

/-- Some dual is met unless all members are. -/
theorem anyHolds_dualAll (payload : Json) (cs : List Condition) (checked : problemsOfAll cs = [])
    (unordered : ∀ l ∈ leavesOfAll cs, l.Unordered) :
    anyHolds payload (dualAll cs) = !allHold payload cs := by
  match cs with
  | [] => rfl
  | c :: rest =>
    obtain ⟨hc, hrest⟩ := List.append_eq_nil_iff.1 checked
    have hfirst := holds_dual payload c hc fun l hl => unordered l (List.mem_append_left _ hl)
    have hothers := anyHolds_dualAll payload rest hrest fun l hl =>
      unordered l (List.mem_append_right _ hl)
    rw [dualAll, anyHolds, allHold, hfirst, hothers, Bool.not_and]

/-- All duals are met unless some member is. -/
theorem allHold_dualAll (payload : Json) (cs : List Condition) (checked : problemsOfAll cs = [])
    (unordered : ∀ l ∈ leavesOfAll cs, l.Unordered) :
    allHold payload (dualAll cs) = !anyHolds payload cs := by
  match cs with
  | [] => rfl
  | c :: rest =>
    obtain ⟨hc, hrest⟩ := List.append_eq_nil_iff.1 checked
    have hfirst := holds_dual payload c hc fun l hl => unordered l (List.mem_append_left _ hl)
    have hothers := allHold_dualAll payload rest hrest fun l hl =>
      unordered l (List.mem_append_right _ hl)
    rw [dualAll, allHold, anyHolds, hfirst, hothers, Bool.not_or]

end

/--
If a condition has no problems and compares nothing by order, its dual has no problems either, and a
payload meets the dual exactly when it does not meet the condition.
-/
theorem deMorgan {c : Condition} (checked : c.problems = [])
    (unordered : ∀ l ∈ c.leaves, l.Unordered) :
    c.dual.problems = [] ∧ ∀ payload, holds payload c.dual = !holds payload c :=
  ⟨problems_dual c checked, fun payload => holds_dual payload c checked unordered⟩

/-- Customers without a coupon, or orders that are held up; the empty group is always met. -/
def screening : Condition :=
  .group .all
    [.group .any
      [.compare .isNull "customer.coupon" .null,
        .compare .isIn "status" (.array [.string "held", .string "stuck"])],
      .group .all []]

theorem deMorgan_screening :
    screening.problems = [] ∧ (∀ l ∈ screening.leaves, l.Unordered) ∧
      ∀ payload, holds payload screening.dual = !holds payload screening := by
  have checked : screening.problems = [] := by decide
  have unordered : ∀ l ∈ screening.leaves, l.Unordered := by
    simp [screening, Condition.compare, leaves, leavesOfAll, Comparison.Unordered, Operator.name]
  exact ⟨checked, unordered, (deMorgan checked unordered).2⟩

/-- Without a list of values neither a leaf nor its dual is met. -/
example : holds .null (.compare .isIn "status" .null) = false ∧
    holds .null (dual (.compare .isIn "status" .null)) = false := by decide

end Condition

end WorkflowRules
