import WorkflowRules.Number.Rounding

/-!
# Finite binary64 numbers

A number with a fraction or an exponent is a finite number of the format binary64. It is kept as
its sign and its *magnitude*, the 63 bits below the sign read as a natural number. The order of
magnitudes is the order of absolute values, so comparison is comparison of integers, and the
neighbours of a number have the magnitudes next to its own.

All arithmetic is exact on quotients of natural numbers, followed by one rounding to the nearest
representable number, a tie going to the even magnitude.
-/

namespace WorkflowRules.Number

/-- The magnitude of the first binary64 number that is no longer finite. -/
def infiniteMagnitude : Nat := 2047 * Nat.pow 2 52

/-- A finite binary64 number. Zero has two signs. -/
structure Binary64 where
  negative : Bool
  /-- The bits below the sign: 11 of exponent, then 52 of fraction. -/
  magnitude : Nat
  isFinite : magnitude < infiniteMagnitude
deriving DecidableEq

/-- The whole number that a magnitude scales by a power of two; its hidden bit is included. -/
def significandOf (magnitude : Nat) : Nat :=
  if magnitude < Nat.pow 2 52 then magnitude else Nat.pow 2 52 + magnitude % Nat.pow 2 52

/-- The power of two by which a magnitude scales its significand, counted up from `2 ^ -1074`. -/
def scaleOf (magnitude : Nat) : Nat :=
  magnitude / Nat.pow 2 52 - 1

/-- A magnitude as a multiple of the least positive number `2 ^ -1074`. -/
def unitsOf (magnitude : Nat) : Nat :=
  significandOf magnitude * Nat.pow 2 (scaleOf magnitude)

/--
The magnitude nearest to `num / den`. The quotient is cut to 53 binary digits, fewer when its
exponent is below the least one, and a carry runs over into the exponent by itself. The result may
be `infiniteMagnitude` or larger.
-/
def magnitudeOfQuotient (num den : Nat) : Nat :=
  if num = 0 then 0
  else
    let q : Int := max (floorLog2 num den - 52) (-1074)
    (q + 1074).toNat * Nat.pow 2 52 +
      roundHalfEven (num * Nat.pow 2 (-q).toNat) (den * Nat.pow 2 q.toNat)

namespace Binary64

/-- Positive zero. -/
def zero : Binary64 := ⟨false, 0, by decide⟩

/-- The number with the sign turned. -/
def neg (x : Binary64) : Binary64 := { x with negative := !x.negative }

/-- The finite number nearest to `num / den`, or `none` when the quotient is too large. -/
def ofQuotient? (num den : Nat) : Option Binary64 :=
  let m := magnitudeOfQuotient num den
  if h : m < infiniteMagnitude then some ⟨false, m, h⟩ else none

/-- Numerator of the absolute value over `2 ^ 1074`. -/
def units (x : Binary64) : Nat := unitsOf x.magnitude

/-- The product of two absolute values, rounded. -/
def mulAbs? (x y : Binary64) : Option Binary64 :=
  ofQuotient? (x.units * y.units) (Nat.pow 2 1074 * Nat.pow 2 1074)

/-- The quotient of two absolute values, rounded. -/
def divAbs? (x y : Binary64) : Option Binary64 :=
  ofQuotient? x.units y.units

/-- The power of ten `10 ^ k`, rounded. -/
def powerOfTen? (k : Nat) : Option Binary64 := ofQuotient? (Nat.pow 10 k) 1

/-- The integer whose order is the order of the numbers; both zeros have the key 0. -/
def orderKey (x : Binary64) : Int :=
  if x.negative then -(x.magnitude : Int) else x.magnitude

/-- Numeric comparison. -/
def compare (x y : Binary64) : Ordering := Ord.compare x.orderKey y.orderKey

/-- The binary64 number nearest to an integer, or `none` when the integer is too large. -/
def ofInt? (n : Int) : Option Binary64 :=
  (ofQuotient? n.natAbs 1).map fun x => if n < 0 then x.neg else x

/-- Divides by `10 ^ k`: in one rounding for `k ≤ 308`, else by `10 ^ 308` first and then on. -/
def divPowerOfTen? (x : Binary64) (k : Nat) : Option Binary64 :=
  if k ≤ 308 then do x.divAbs? (← powerOfTen? k)
  else if x.magnitude = 0 then some x
  else do
    let y ← x.divAbs? (← powerOfTen? 308)
    divPowerOfTen? y (k - 308)
termination_by k
decreasing_by omega

/-- Multiplies by `10 ^ k` in one rounding; a power beyond `10 ^ 308` leaves only zero in range. -/
def mulPowerOfTen? (x : Binary64) (k : Nat) : Option Binary64 :=
  if k ≤ 308 then do x.mulAbs? (← powerOfTen? k)
  else if x.magnitude = 0 then some x else none

/--
The number read from `significand * 10 ^ exponent`. Reading takes two roundings: the significand is
rounded first, then multiplied or divided by the rounded power of ten. For significands below
`2 ^ 53` and exponents up to 22 both are exact but the last, so the result is the nearest number.
-/
def ofDecimal? (significand : Nat) (exponent : Int) : Option Binary64 := do
  let x ← ofQuotient? significand 1
  if 0 ≤ exponent then x.mulPowerOfTen? exponent.toNat
  else x.divPowerOfTen? (-exponent).toNat

end Binary64

end WorkflowRules.Number
