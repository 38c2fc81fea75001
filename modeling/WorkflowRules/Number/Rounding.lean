/-!
# Rounding a quotient

`roundHalfEven` is the whole number nearest to a quotient, `floorLog2` the binary exponent of a
quotient. Both work on natural numbers, so nothing is lost on the way to the one rounding that a
binary number needs.
-/

namespace WorkflowRules.Number

/-- The whole number nearest to `num / den`; a tie goes to the even neighbour. -/
def roundHalfEven (num den : Nat) : Nat :=
  let q := num / den
  let r := num % den
  if 2 * r < den then q
  else if den < 2 * r then q + 1
  else if q % 2 = 0 then q else q + 1

/-- The integer `e` with `2 ^ e ≤ num / den < 2 ^ (e + 1)`, for positive `num` and `den`. -/
def floorLog2 (num den : Nat) : Int :=
  let d : Int := (Nat.log2 num : Int) - (Nat.log2 den : Int)
  if den * Nat.pow 2 d.toNat ≤ num * Nat.pow 2 (-d).toNat then d else d - 1

end WorkflowRules.Number
