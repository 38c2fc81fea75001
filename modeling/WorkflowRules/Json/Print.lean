import WorkflowRules.Json.Basic
import WorkflowRules.Number.Shortest

/-!
# JSON texts

The compact text of a value: no white space, object fields in their order, integers in decimal,
binary64 numbers with the fewest digits that read back.
-/

namespace WorkflowRules.Json

open WorkflowRules.Number (FloatLayout)
open WorkflowRules.Text

/--
Numbers whose first digit has an exponent from -5 to 15 are written positionally and always with a
fraction; the others have a signed exponent without padding.
-/
def floatLayout : FloatLayout :=
  { positionalFrom := -5, positionalTo := 15, exponentMark := ['e'], plus := ['+'] }

/-- The text of a number. -/
def Number.text : Number → String
  | .integer n _ => intText n
  | .float x => String.ofList (x.text floatLayout)

/-- A hexadecimal digit in lower case. -/
def hexDigit (n : Nat) : Char :=
  if n < 10 then Char.ofNat ('0'.toNat + n) else Char.ofNat ('a'.toNat + n - 10)

/-- How a character stands in a string: quote, backslash and control characters are escaped. -/
def escaped (c : Char) : List Char :=
  if c = '"' then ['\\', '"']
  else if c = '\\' then ['\\', '\\']
  else if c = '\n' then ['\\', 'n']
  else if c = '\r' then ['\\', 'r']
  else if c = '\t' then ['\\', 't']
  else if c.toNat = 0x08 then ['\\', 'b']
  else if c.toNat = 0x0C then ['\\', 'f']
  else if c.toNat < 0x20 then
    ['\\', 'u', '0', '0', hexDigit (c.toNat / 16), hexDigit (c.toNat % 16)]
  else [c]

/-- A string in quotes. -/
def quoted (s : String) : String :=
  String.ofList ('"' :: s.toList.flatMap escaped ++ ['"'])

mutual

/-- The compact text of a value. -/
def print : Json → String
  | .null => "null"
  | .bool true => "true"
  | .bool false => "false"
  | .number n => n.text
  | .string s => quoted s
  | .array items => "[" ++ printItems items ++ "]"
  | .object fields => "\x7b" ++ printFields fields ++ "\x7d"

/-- The items of an array, separated by commas. -/
def printItems : List Json → String
  | [] => ""
  | [v] => print v
  | v :: rest => print v ++ "," ++ printItems rest

/-- The fields of an object, separated by commas. -/
def printFields : List (String × Json) → String
  | [] => ""
  | [(n, v)] => quoted n ++ ":" ++ print v
  | (n, v) :: rest => quoted n ++ ":" ++ print v ++ "," ++ printFields rest

end

end WorkflowRules.Json
