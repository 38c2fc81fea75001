/-!
# JSON columns

A column that is declared to hold JSON has numeric affinity: a text that is just a number is kept
as that number. The column then no longer holds a text, and reading it as one is not possible.

A text counts as a number when it consists of white space, an optional sign, digits with at most
one point among or around them, an optional exponent with at least one digit, and white space.
White space is that of ASCII.
-/

namespace WorkflowRules.Store

/-- White space around a number. -/
def isSpace (c : Char) : Bool :=
  c = ' ' || (0x09 ≤ c.toNat && c.toNat ≤ 0x0D)

/-- What follows an optional sign. -/
def skipSign : List Char → List Char
  | '+' :: rest => rest
  | '-' :: rest => rest
  | cs => cs

/-- The digits at the start of a text, and what follows them. -/
def takeDigits (cs : List Char) : List Char × List Char :=
  (cs.takeWhile Char.isDigit, cs.dropWhile Char.isDigit)

/-- What follows a fraction, if there is one, and whether the fraction has digits. -/
def skipFraction : List Char → Bool × List Char
  | '.' :: rest =>
    let r := takeDigits rest
    (!r.1.isEmpty, r.2)
  | cs => (false, cs)

/-- What follows an exponent, if there is one; `none` when an exponent has no digits. -/
def skipExponent? : List Char → Option (List Char)
  | [] => some []
  | c :: rest =>
    if c = 'e' ∨ c = 'E' then
      let r := takeDigits (skipSign rest)
      if r.1.isEmpty then none else some r.2
    else some (c :: rest)

/-- Whether a text is just a number. -/
def isNumber (s : String) : Bool :=
  let whole := takeDigits (skipSign (s.toList.dropWhile isSpace))
  let fraction := skipFraction whole.2
  match skipExponent? fraction.2 with
  | none => false
  | some rest => (!whole.1.isEmpty || fraction.1) && rest.all isSpace

/-- What a JSON column holds. -/
inductive Cell where
  | text (s : String)
  | number
deriving DecidableEq, Repr

/-- What a JSON column holds after a text was written to it. -/
def Cell.ofText (s : String) : Cell :=
  if isNumber s then .number else .text s

end WorkflowRules.Store
