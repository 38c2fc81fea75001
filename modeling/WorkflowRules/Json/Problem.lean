import WorkflowRules.Json.Print
import WorkflowRules.Json.Scan
import WorkflowRules.Text.Escape

/-!
# What is wrong with a text

Readers only tell whether a text is not JSON or has another shape. `describeProblem` finds the first
problem of a text that should have a given `Shape`, and says what is wrong and where, by line and
column. Columns count bytes.

The place is that of the last byte that was looked at. It is kept as the text that is left there, and
the number of bytes of it that were looked at.

## Termination

`findProblem` recurses on the length of the text, as `tokens` does.
-/

namespace WorkflowRules.Json

open WorkflowRules.Text (digitValue? intText natText quotedText)

/-! ## Shapes -/

/-- What is asked of a value. -/
inductive Shape where
  | any
  | text
  /-- Null, or a value of a shape. -/
  | optional (inner : Shape)
  | list (item : Shape)
  /-- An object with fields of given shapes, and any others; `description` says what it is. -/
  | record (description : String) (known : List (String × Shape))

/-- The words for what is asked of a value. -/
def Shape.expected : Shape → String
  | .any => "any value"
  | .text => "a string"
  | .optional inner => inner.expected
  | .list _ => "a sequence"
  | .record description _ => description

/-- Whether a shape admits a value that is a single token. -/
def Shape.admits : Shape → Token → Bool
  | _, .number none | _, .string none => false
  | .any, .null | .any, .bool _ | .any, .number _ | .any, .string _ => true
  | .text, .string _ => true
  | .optional _, .null => true
  | .optional inner, t => inner.admits t
  | _, _ => false

/-! ## Problems -/

/-- What can be wrong with a text. -/
inductive Problem where
  | endInList
  | endInObject
  | endInString
  | endInValue
  | expectedColon
  | expectedCommaOrListEnd
  | expectedCommaOrObjectEnd
  /-- A word that begins like `null`, `true` or `false` goes on differently. -/
  | expectedWord
  | expectedValue
  | invalidEscape
  | invalidNumber
  | numberTooLarge
  | controlCharacter
  | keyNotString
  | loneSurrogate
  /-- No second half follows the first half of a surrogate pair. -/
  | surrogateNotPaired
  | commaBeforeEnd
  | textAfterValue
  | tooDeep
  | wrongType (found expected : String)
  | repeatedField (name : String)
deriving DecidableEq, Repr

/-- The wording of a problem. -/
def Problem.message : Problem → String
  | .endInList => "EOF while parsing a list"
  | .endInObject => "EOF while parsing an object"
  | .endInString => "EOF while parsing a string"
  | .endInValue => "EOF while parsing a value"
  | .expectedColon => "expected \x60:\x60"
  | .expectedCommaOrListEnd => "expected \x60,\x60 or \x60]\x60"
  | .expectedCommaOrObjectEnd => "expected \x60,\x60 or \x60\x7d\x60"
  | .expectedWord => "expected ident"
  | .expectedValue => "expected value"
  | .invalidEscape => "invalid escape"
  | .invalidNumber => "invalid number"
  | .numberTooLarge => "number out of range"
  | .controlCharacter =>
    "control character (\\u0000-\\u001F) found while parsing a string"
  | .keyNotString => "key must be a string"
  | .loneSurrogate => "lone leading surrogate in hex escape"
  | .surrogateNotPaired => "unexpected end of hex escape"
  | .commaBeforeEnd => "trailing comma"
  | .textAfterValue => "trailing characters"
  | .tooDeep => "recursion limit exceeded"
  | .wrongType found expected => "invalid type: " ++ found ++ ", expected " ++ expected
  | .repeatedField name => "duplicate field \x60" ++ name ++ "\x60"

/-- A problem and its place. -/
structure Finding where
  problem : Problem
  /-- The text that is left. -/
  rest : List Char
  /-- How many bytes of it were looked at. -/
  ahead : Nat
deriving DecidableEq, Repr

/-- The number of bytes of a text. -/
def byteCount (cs : List Char) : Nat := (cs.map Char.utf8Size).foldr (· + ·) 0

/-- The problem that the text ends too early. -/
def Finding.atEnd (problem : Problem) : Finding := ⟨problem, [], 0⟩

/-! ## Inside of tokens -/

/-- The problem of a word of which some letters are still to come. -/
def wordFinding : List Char → List Char → Finding
  | w :: ws, c :: rest =>
    if c = w then wordFinding ws rest else ⟨.expectedWord, c :: rest, 1⟩
  | _, rest => ⟨.endInValue, rest, 0⟩

/-- The greatest exponent that is read to its end. -/
def maxExponent : Nat := Nat.pow 2 31 - 1

/-- What follows the digits of an exponent, or its first digit that makes it too great. -/
def afterExponent (acc : Nat) : List Char → List Char
  | [] => []
  | c :: rest =>
    match digitValue? c with
    | none => c :: rest
    | some d => if maxExponent < 10 * acc + d then rest else afterExponent (10 * acc + d) rest

/-- The problem of a number from its exponent on. -/
def exponentFinding (cs : List Char) : Finding :=
  match cs with
  | [] => .atEnd .numberTooLarge
  | c :: rest =>
    if c = 'e' ∨ c = 'E' then
      match (takeSign rest).2 with
      | [] => .atEnd .endInValue
      | d :: others =>
        if (digitValue? d).isSome then ⟨.numberTooLarge, afterExponent 0 (d :: others), 0⟩
        else ⟨.invalidNumber, d :: others, 1⟩
    else ⟨.numberTooLarge, cs, 0⟩

/-- The problem of a number that cannot be read or is too large. -/
def numeralFinding (cs : List Char) : Finding :=
  match (takeMinus cs).2 with
  | [] => .atEnd .endInValue
  | c :: rest =>
    match takeDigits (c :: rest) with
    | ([], _) => ⟨.invalidNumber, c :: rest, 1⟩
    | (0 :: _ :: _, _) => ⟨.invalidNumber, rest, 1⟩
    | (_, '.' :: afterPoint) =>
      match takeDigits afterPoint with
      | ([], []) => .atEnd .endInValue
      | ([], others) => ⟨.invalidNumber, others, 1⟩
      | (_, others) => exponentFinding others
    | (_, others) => exponentFinding others

/-- The problem of four hexadecimal digits that are not there. -/
def hexFinding (cs : List Char) : Finding :=
  if byteCount cs < 4 then .atEnd .endInString else ⟨.invalidEscape, cs, 4⟩

/--
The first problem of a string whose opening quote is already read; `paired` tells whether the
second half of a surrogate pair has to come next.
-/
def stringFinding? (paired : Bool) : List Char → Option Finding
  | [] => some (.atEnd .endInString)
  | '\\' :: 'u' :: digits =>
    match digits with
    | a :: b :: c :: d :: rest =>
      match hexUnit? a b c d with
      | none => some (hexFinding digits)
      | some n =>
        let second : Bool := 0xDC00 ≤ n && n < 0xE000
        if paired != second then some ⟨.loneSurrogate, rest, 0⟩
        else stringFinding? (0xD800 ≤ n && n < 0xDC00) rest
    | _ => some (hexFinding digits)
  | '\\' :: escape =>
    match escape with
    | [] => some (.atEnd .endInString)
    | c :: rest =>
      if paired then some ⟨.surrogateNotPaired, escape, 1⟩
      else if (simpleEscape? c).isSome then stringFinding? false rest
      else some ⟨.invalidEscape, escape, 1⟩
  | c :: rest =>
    if paired then some ⟨.surrogateNotPaired, c :: rest, 1⟩
    else if c = '"' then none
    else if c.toNat < 0x20 then some ⟨.controlCharacter, c :: rest, 1⟩
    else stringFinding? false rest

/-- The problem of a text at whose start no value can be read. -/
def lexicalFinding (cs : List Char) : Finding :=
  match cs with
  | 'n' :: rest => wordFinding "ull".toList rest
  | 't' :: rest => wordFinding "rue".toList rest
  | 'f' :: rest => wordFinding "alse".toList rest
  | '"' :: rest => (stringFinding? false rest).getD (.atEnd .endInString)
  | c :: _ =>
    if c = '-' ∨ (digitValue? c).isSome then numeralFinding cs else ⟨.expectedValue, cs, 1⟩
  | [] => .atEnd .endInValue

/-! ## Between tokens -/

/-- A container that is still open. -/
inductive OpenPart where
  | list (item : Shape)
  /-- An object: the shapes of known fields, and the names of those that were given. -/
  | object (known : List (String × Shape)) (given : List String)

/-- What may come next. -/
inductive Awaited where
  | value (shape : Shape)
  /-- A value after a comma. -/
  | nextItem (shape : Shape)
  /-- A value, or the end of a list that has just begun. -/
  | firstItem (shape : Shape)
  /-- A key, or the end of an object that has just begun. -/
  | firstKey
  | key
  | colon (shape : Shape)
  /-- A comma, or the end of the innermost container. -/
  | separator
  /-- Nothing. -/
  | nothing

/-- Where a reader stands: the open containers, innermost first, and what may come next. -/
structure Standing where
  parts : List OpenPart
  awaited : Awaited

/-- What comes after a value inside of some containers. -/
def Standing.afterValue : List OpenPart → Standing
  | [] => ⟨[], .nothing⟩
  | parts => ⟨parts, .separator⟩

/-- The container that a token opens for a shape. -/
def Shape.open? : Shape → Token → Option Standing
  | .any, .openArray => some ⟨[.list .any], .firstItem .any⟩
  | .list item, .openArray => some ⟨[.list item], .firstItem item⟩
  | .any, .openObject => some ⟨[.object [] []], .firstKey⟩
  | .record _ known, .openObject => some ⟨[.object known []], .firstKey⟩
  | .optional inner, t => inner.open? t
  | _, _ => none

/-- Reads a token where a value of a shape may start. -/
def startShape? (parts : List OpenPart) (shape : Shape) (t : Token) : Option Standing :=
  match shape.open? t with
  | some inner =>
    if parts.length < maxDepth then some ⟨inner.parts ++ parts, inner.awaited⟩ else none
  | none => if shape.admits t then some (.afterValue parts) else none

/-- Reads the key of a field; a known field may be given once. -/
def startKey? : List OpenPart → String → Option Standing
  | .object known given :: outer, name =>
    match known.find? (·.1 == name) with
    | none => some ⟨.object known given :: outer, .colon .any⟩
    | some field =>
      if given.contains name then none
      else some ⟨.object known (name :: given) :: outer, .colon field.2⟩
  | _, _ => none

/-- Reads one token; `none` when it is not what may come next. -/
def Standing.next? (s : Standing) (t : Token) : Option Standing :=
  match s.awaited, t, s.parts with
  | .firstItem _, .closeArray, _ :: outer => some (.afterValue outer)
  | .value shape, t, parts | .nextItem shape, t, parts | .firstItem shape, t, parts =>
    startShape? parts shape t
  | .firstKey, .closeObject, _ :: outer => some (.afterValue outer)
  | .firstKey, .string (some name), parts | .key, .string (some name), parts =>
    startKey? parts name
  | .colon shape, .colon, parts => some ⟨parts, .value shape⟩
  | .separator, .comma, .list item :: outer => some ⟨.list item :: outer, .nextItem item⟩
  | .separator, .closeArray, .list _ :: outer => some (.afterValue outer)
  | .separator, .comma, .object known given :: outer =>
    some ⟨.object known given :: outer, .key⟩
  | .separator, .closeObject, .object _ _ :: outer => some (.afterValue outer)
  | _, _, _ => none

/-- The problem of a text that ends here. -/
def Standing.endFinding? (s : Standing) : Option Finding :=
  match s.awaited, s.parts with
  | .nothing, _ => none
  | .firstItem _, _ | .separator, .list _ :: _ => some (.atEnd .endInList)
  | .firstKey, _ | .colon _, _ | .separator, _ => some (.atEnd .endInObject)
  | _, _ => some (.atEnd .endInValue)

/-- The problem of a value that does not have the shape it should have, or is no value. -/
def valueFinding (parts : List OpenPart) (shape : Shape) (cs : List Char) : Finding :=
  let wrong (found : String) (rest : List Char) : Finding :=
    ⟨.wrongType found shape.expected, rest, 0⟩
  match nextToken? cs with
  | some (.null, rest) => wrong "null" rest
  | some (.bool b, rest) => wrong (if b then "boolean \x60true\x60" else "boolean \x60false\x60") rest
  | some (.number (some (.integer n _)), rest) => wrong ("integer \x60" ++ intText n ++ "\x60") rest
  | some (.number (some x), rest) => wrong ("floating point \x60" ++ x.text ++ "\x60") rest
  | some (.string (some s), rest) => wrong ("string " ++ quotedText s) rest
  | some (.openArray, _) =>
    if (shape.open? .openArray).isSome ∧ maxDepth ≤ parts.length then ⟨.tooDeep, cs, 1⟩
    else wrong "sequence" cs
  | some (.openObject, _) =>
    if (shape.open? .openObject).isSome ∧ maxDepth ≤ parts.length then ⟨.tooDeep, cs, 1⟩
    else wrong "map" cs
  | _ => lexicalFinding cs

/--
The problem of a key. A field that was given before is noticed when its key is read; the reader
then passes over white space and the end of the object.
-/
def keyFinding (cs : List Char) : Finding :=
  match nextToken? cs with
  | some (.string (some name), rest) =>
    match rest.dropWhile isSpace with
    | '\x7d' :: others => ⟨.repeatedField name, others, 0⟩
    | others => ⟨.repeatedField name, others, 0⟩
  | _ =>
    match cs with
    | '"' :: _ => lexicalFinding cs
    | _ => ⟨.keyNotString, cs, 1⟩

/-- The problem of a text that goes on with something else than what may come next. -/
def Standing.finding (s : Standing) (cs : List Char) : Finding :=
  match s.awaited, cs with
  | .nextItem _, ']' :: _ => ⟨.commaBeforeEnd, cs, 1⟩
  | .value shape, _ | .nextItem shape, _ | .firstItem shape, _ => valueFinding s.parts shape cs
  | .key, '\x7d' :: _ => ⟨.commaBeforeEnd, cs, 1⟩
  | .firstKey, _ | .key, _ => keyFinding cs
  | .colon _, _ => ⟨.expectedColon, cs, 1⟩
  | .separator, _ =>
    match s.parts with
    | .list _ :: _ => ⟨.expectedCommaOrListEnd, cs, 1⟩
    | _ => ⟨.expectedCommaOrObjectEnd, cs, 1⟩
  | .nothing, _ => ⟨.textAfterValue, cs, 1⟩

/-- The first problem from a place in a text on. -/
def findProblem (s : Standing) (cs : List Char) : Option Finding :=
  match _hd : cs.dropWhile isSpace with
  | [] => s.endFinding?
  | c :: rest =>
    match _ht : nextToken? (c :: rest) with
    | none => some (s.finding (c :: rest))
    | some (t, after) =>
      match s.next? t with
      | none => some (s.finding (c :: rest))
      | some next => findProblem next after
termination_by cs.length
decreasing_by
  have h1 := nextToken?_length _ht
  have h2 : (c :: rest).length ≤ cs.length := _hd ▸ (List.dropWhile_suffix _).length_le
  exact Nat.lt_of_lt_of_le h1 h2

/-! ## Places -/

/-- The line of the place after some bytes, and the number of bytes before it on that line. -/
def lineAndColumn (bytes : List UInt8) : Nat × Nat :=
  let newline := '\n'.toUInt8
  (1 + bytes.count newline, (bytes.reverse.takeWhile (· ≠ newline)).length)

/-- The wording of the first problem of a text that should have a shape; empty if there is none. -/
def describeProblem (shape : Shape) (text : String) : String :=
  match findProblem ⟨[], .value shape⟩ text.toList with
  | none => ""
  | some f =>
    let bytes := text.toUTF8.toList
    let place := lineAndColumn (bytes.take (bytes.length - byteCount f.rest + f.ahead))
    f.problem.message ++ " at line " ++ natText place.1 ++ " column " ++ natText place.2

end WorkflowRules.Json
