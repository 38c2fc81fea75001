/-!
# Content types

A body is taken for JSON when its content type is `application/json`, or a type of `application`
with the suffix `json`. Letters of either case are the same, and parameters may follow.

A content type that is not well formed counts as none. A type and a subtype consist of token
characters. The suffix is what follows the last plus sign of the subtype; the subtype proper is
what precedes it. Parameters are names and values, and a value may stand in quotes.
-/

namespace WorkflowRules.Http.ContentType

/-- Characters that a type, a subtype or the name of a parameter may consist of. -/
def isToken (c : Char) : Bool :=
  c.isAlphanum || "!#$%&'*+-.^_`|~".toList.contains c

/-- Characters inside of quotes. -/
def isQuotable (c : Char) : Bool :=
  31 < c.toNat && c.toNat ≠ 127

/--
What follows a quoted value whose opening quote is past. The value has at least one character, so
a quote at its start belongs to it; the next quote ends it, whatever stands before that quote.
-/
def afterQuoted? : List Char → Option (List Char)
  | [] => none
  | c :: rest =>
    if !isQuotable c then none
    else if (rest.takeWhile (· ≠ '"')).all isQuotable then
      match rest.dropWhile (· ≠ '"') with
      | [] => none
      | _ :: others => some others
    else none

/-- What follows the semicolon after a value, or nothing at the end; `none` for anything else. -/
def afterValue? : List Char → Option (List Char)
  | [] => some []
  | ';' :: rest => some rest
  | _ => none

/-- What follows a value and the semicolon after it. -/
def skipValue? (cs : List Char) : Option (List Char) :=
  match cs with
  | '"' :: rest =>
    (afterQuoted? rest).bind fun others => afterValue? (others.dropWhile (· = ' '))
  | cs =>
    if (cs.takeWhile isToken).isEmpty && !cs.isEmpty then none
    else afterValue? (cs.dropWhile isToken)

/-- What follows the name of a parameter and the equals sign after it. -/
def skipName? (cs : List Char) : Option (List Char) :=
  match (cs.takeWhile isToken).isEmpty, cs.dropWhile isToken with
  | false, '=' :: rest => some rest
  | _, _ => none

/-- Whether parameters are well formed; each takes at least one character, so `bound` suffices. -/
def parametersHold : Nat → List Char → Bool
  | 0, cs => cs.isEmpty
  | bound + 1, cs =>
    let start := cs.dropWhile (· = ' ')
    start.isEmpty ||
      match (skipName? start).bind skipValue? with
      | some rest => parametersHold bound rest
      | none => false

/-- The subtype and the suffix of what follows the slash. -/
def splitSuffix (cs : List Char) : List Char × Option (List Char) :=
  let fromEnd := cs.reverse
  let suffix := fromEnd.takeWhile (· ≠ '+')
  match fromEnd.dropWhile (· ≠ '+') with
  | _ :: before =>
    if before.isEmpty then (cs, none) else (before.reverse, some suffix.reverse)
  | [] => (cs, none)

/-- Characters that the value of a header may consist of. -/
def isHeaderChar (c : Char) : Bool :=
  c.toNat = 9 || (32 ≤ c.toNat && c.toNat < 127)

/-- Whether a content type says that a body is JSON. -/
def isJson (s : String) : Bool :=
  let cs := s.toList.map Char.toLower
  let type := cs.takeWhile isToken
  match cs.dropWhile isToken with
  | '/' :: rest =>
    let subtype := rest.takeWhile isToken
    let wellFormed :=
      match rest.dropWhile isToken with
      | [] => true
      | ';' :: parameters => !subtype.isEmpty && parametersHold parameters.length parameters
      | _ => false
    let (proper, suffix) := splitSuffix subtype
    cs.all isHeaderChar && wellFormed && type = "application".toList &&
      (proper = "json".toList || suffix = some "json".toList)
  | _ => false

end WorkflowRules.Http.ContentType
