/-!
# Decimal digits

Whole numbers as texts of ASCII digits: reading them with a bound, and writing them. Array
indexes in field paths, port numbers and depth limits are all read by `parseNat?`.
-/

namespace WorkflowRules.Text

/-- The value of an ASCII decimal digit. -/
def digitValue? (c : Char) : Option Nat :=
  if '0' ≤ c ∧ c ≤ '9' then some (c.toNat - '0'.toNat) else none

/-- Reads on from the value `acc` of the digits seen so far; `none` at the first other character. -/
def digitsFrom (acc : Nat) : List Char → Option Nat
  | [] => some acc
  | c :: rest =>
    match digitValue? c with
    | some d => digitsFrom (10 * acc + d) rest
    | none => none

/-- The value of a non-empty run of digits. -/
def digits? : List Char → Option Nat
  | [] => none
  | c :: rest => digitsFrom 0 (c :: rest)

/--
A whole number below `bound`: an optional leading plus sign, then ASCII digits only. Leading
zeros are allowed, however many.
-/
def parseNat? (bound : Nat) (s : String) : Option Nat :=
  let digits :=
    match s.toList with
    | '+' :: rest => rest
    | cs => cs
  (digits? digits).filter (· < bound)

/-- The last digit of a number as a character. -/
def digitChar (n : Nat) : Char :=
  Char.ofNat ('0'.toNat + n % 10)

/-- The decimal digits of a number, without leading zeros; zero has one digit. -/
def natDigits (n : Nat) : List Char :=
  if n < 10 then [digitChar n] else natDigits (n / 10) ++ [digitChar n]
termination_by n
decreasing_by exact Nat.div_lt_self (by omega) (by omega)

/-- A number written with at least `width` digits, filled with zeros on the left. -/
def padded (width n : Nat) : List Char :=
  let ds := natDigits n
  List.replicate (width - ds.length) '0' ++ ds

/-- A whole number written in decimal. -/
def natText (n : Nat) : String :=
  String.ofList (natDigits n)

/-- An integer written in decimal, with a minus sign when it is negative. -/
def intText (n : Int) : String :=
  if n < 0 then String.ofList ('-' :: natDigits n.natAbs) else natText n.natAbs

end WorkflowRules.Text
