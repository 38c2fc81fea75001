import WorkflowRules.Text.Invisible

/-!
# Quoted texts in descriptions

A text in a description stands in double quotes. Quotes, backslashes and the usual control
characters have short escapes; other characters without a visible form are written by the
hexadecimal digits of their code points.
-/

namespace WorkflowRules.Text

/-- The hexadecimal digits of a number, in lower case and without leading zeros. -/
def hexText (n : Nat) : List Char := Nat.toDigits 16 n

/-- How a character stands in a quoted text. -/
def escapedChar (c : Char) : List Char :=
  if c = '"' then ['\\', '"']
  else if c = '\\' then ['\\', '\\']
  else if c = '\n' then ['\\', 'n']
  else if c = '\r' then ['\\', 'r']
  else if c = '\t' then ['\\', 't']
  else if c.toNat = 0 then ['\\', '0']
  else if isVisible c then [c]
  else ['\\', 'u', '\x7b'] ++ hexText c.toNat ++ ['\x7d']

/-- A text in double quotes. -/
def quotedText (s : String) : String :=
  String.ofList ('"' :: s.toList.flatMap escapedChar ++ ['"'])

end WorkflowRules.Text
