import WorkflowRules.Number.Binary64
import WorkflowRules.Text.Digits

/-!
# The shortest decimal text of a binary64 number

A positive number is written with the fewest digits that round back to it. The decimals that round
to a number with magnitude `m` form an interval around it, whose ends lie halfway to the
neighbouring magnitudes and belong to it exactly when `m` is even. On the grid of multiples of
`10 ^ s` only the two neighbours of the number itself need to be tried, from the coarsest grid
down; the first grid with a hit gives the fewest digits, and of two hits the nearer is taken.

`FloatLayout` holds the remaining decisions: which exponents are written positionally, and how an
exponent looks.
-/

namespace WorkflowRules.Number

open WorkflowRules.Text

/-- A positive decimal number: `digits * 10 ^ exponent`. -/
structure Decimal where
  digits : Nat
  exponent : Int
deriving DecidableEq, Repr

/-- Whether `d * 10 ^ s` rounds to the magnitude `m`; compared in units of `2 ^ -1075`. -/
def roundsTo (m d : Nat) (s : Int) : Bool :=
  let num := d * Nat.pow 10 s.toNat * Nat.pow 2 1075
  let den := Nat.pow 10 (-s).toNat
  let low := unitsOf (m - 1) + unitsOf m
  let high := unitsOf m + unitsOf (m + 1)
  if m % 2 = 0 then low * den ≤ num && num ≤ high * den
  else low * den < num && num < high * den

/-- The neighbour of the magnitude `m` on the grid of multiples of `10 ^ s` that rounds to it. -/
def onGrid? (m : Nat) (s : Int) : Option Nat :=
  let num := unitsOf m * Nat.pow 10 (-s).toNat
  let den := Nat.pow 2 1074 * Nat.pow 10 s.toNat
  let below := num / den
  let above := below + 1
  match decide (0 < below) && roundsTo m below s, roundsTo m above s with
  | true, true => some (roundHalfEven num den)
  | true, false => some below
  | false, true => some above
  | false, false => none

/-- Tries `tries` grids, each ten times finer than the one before it. -/
def shortestFrom (m : Nat) (s : Int) : Nat → Decimal
  | 0 => ⟨unitsOf m * Nat.pow 10 (-s).toNat / (Nat.pow 2 1074 * Nat.pow 10 s.toNat), s⟩
  | tries + 1 =>
    match onGrid? m s with
    | some d => ⟨d, s⟩
    | none => shortestFrom m (s - 1) tries

/-- An exponent of ten above that of the magnitude; `log10 2` lies just below `0.30103`. -/
def coarsestExponent (m : Nat) : Int :=
  let e := floorLog2 (unitsOf m) (Nat.pow 2 1074) + 1
  e * 30103 / 100000 + 2

/-- The decimal with the fewest digits that rounds to the positive magnitude `m`. -/
def shortest (m : Nat) : Decimal :=
  shortestFrom m (coarsestExponent m) 22

/-- How the digits of a number become a text. -/
structure FloatLayout where
  /-- The least exponent of the first digit that is written positionally. -/
  positionalFrom : Int
  /-- The greatest exponent of the first digit that is written positionally. -/
  positionalTo : Int
  /-- What stands between the digits and the exponent. -/
  exponentMark : List Char
  /-- What a positive exponent starts with. -/
  plus : List Char

/-- Digits `ds` whose first has the exponent `e`, written without an exponent. -/
def positional (ds : List Char) (e : Int) : List Char :=
  if e < 0 then
    ['0', '.'] ++ List.replicate ((-e).toNat - 1) '0' ++ ds
  else
    let whole := e.toNat + 1
    let int := ds.take whole ++ List.replicate (whole - ds.length) '0'
    let fraction := ds.drop whole
    int ++ ['.'] ++ (if fraction.isEmpty then ['0'] else fraction)

/-- Digits `ds` whose first has the exponent `e`, written with an exponent. -/
def scientific (layout : FloatLayout) (ds : List Char) (e : Int) : List Char :=
  let fraction := ds.drop 1
  ds.take 1 ++ (if fraction.isEmpty then [] else '.' :: fraction) ++ layout.exponentMark ++
    (if e < 0 then '-' :: natDigits e.natAbs else layout.plus ++ natDigits e.natAbs)

/-- The text of a finite number: shortest digits in the given layout, the sign of zero kept. -/
def Binary64.text (layout : FloatLayout) (x : Binary64) : List Char :=
  let sign := if x.negative then ['-'] else []
  if x.magnitude = 0 then sign ++ ['0', '.', '0']
  else
    let d := shortest x.magnitude
    let ds := natDigits d.digits
    let e := d.exponent + ds.length - 1
    sign ++
      (if layout.positionalFrom ≤ e && e ≤ layout.positionalTo then positional ds e
       else scientific layout ds e)

end WorkflowRules.Number
