import WorkflowRules.Json.Print
import WorkflowRules.Json.Reader

/-!
# Event identifiers

An event is identified by 128 bits. They are written as 32 hexadecimal digits in lower case, in
groups of 8, 4, 4, 4 and 12 that hyphens separate. Digits of either case are read, with all hyphens
or none; the form with hyphens may stand in braces or follow `urn:uuid:`, in either case as well.
-/

namespace WorkflowRules

/-- The identifier of an event. -/
structure Identifier where
  bits : BitVec 128
deriving DecidableEq, Repr

namespace Identifier

/-- The value of a hexadecimal digit. -/
def hexValue? (c : Char) : Option Nat :=
  if '0' ≤ c ∧ c ≤ '9' then some (c.toNat - '0'.toNat)
  else if 'a' ≤ c ∧ c ≤ 'f' then some (c.toNat - 'a'.toNat + 10)
  else if 'A' ≤ c ∧ c ≤ 'F' then some (c.toNat - 'A'.toNat + 10)
  else none

/-- Reads on from the value of the hexadecimal digits seen so far. -/
def hexFrom (acc : Nat) : List Char → Option Nat
  | [] => some acc
  | c :: rest =>
    match hexValue? c with
    | some d => hexFrom (16 * acc + d) rest
    | none => none

/-- The sizes of the groups of digits. -/
def groups : List Nat := [8, 4, 4, 4, 12]

/-- The digits of groups that hyphens separate. -/
def joinGroups? : List Nat → List Char → Option (List Char)
  | [], cs => if cs.isEmpty then some [] else none
  | [n], cs => if cs.length = n then some cs else none
  | n :: ns, cs =>
    match cs.drop n with
    | '-' :: rest => (joinGroups? ns rest).map (cs.take n ++ ·)
    | _ => none

/-- The text without what may stand around the form with hyphens. -/
def unwrap (cs : List Char) : List Char :=
  match cs with
  | '{' :: rest =>
    match rest.reverse with
    | '}' :: inner => inner.reverse
    | _ => cs
  | cs => if (cs.take 9).map Char.toLower = "urn:uuid:".toList then cs.drop 9 else cs

/-- Reads an identifier. -/
def read? (s : String) : Option Identifier :=
  let digits :=
    if s.toList.length = 32 then some s.toList
    else joinGroups? groups (unwrap s.toList)
  (digits.bind (hexFrom 0)).map fun n => ⟨BitVec.ofNat 128 n⟩

/-- The last `count` hexadecimal digits of a number. -/
def hexDigits : Nat → Nat → List Char
  | 0, _ => []
  | count + 1, n => hexDigits count (n / 16) ++ [Json.hexDigit (n % 16)]

/-- Groups of digits, separated by hyphens. -/
def splitGroups : List Nat → List Char → List Char
  | [], cs => cs
  | [_], cs => cs
  | n :: ns, cs => cs.take n ++ '-' :: splitGroups ns (cs.drop n)

/-- The text of an identifier. -/
def text (i : Identifier) : String :=
  String.ofList (splitGroups groups (hexDigits 32 i.bits.toNat))

/-- Reads an identifier from a JSON string. -/
def reader : Json.Reader Identifier := .parsed read?

end Identifier

end WorkflowRules
