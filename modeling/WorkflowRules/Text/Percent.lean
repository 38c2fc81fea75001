/-!
# Percent encoding

Inside of a path or an address, a percent sign and two hexadecimal digits stand for a byte. A percent
sign that no two digits follow stands for itself, and so does every other character. The bytes that
result have to be UTF-8.
-/

namespace WorkflowRules.Text

/-- The value of a byte that is a hexadecimal digit. -/
def hexByte? (b : UInt8) : Option UInt8 :=
  if 0x30 ≤ b ∧ b ≤ 0x39 then some (b - 0x30)
  else if 0x41 ≤ b ∧ b ≤ 0x46 then some (b - 0x37)
  else if 0x61 ≤ b ∧ b ≤ 0x66 then some (b - 0x57)
  else none

/-- Replaces every percent sign and the two digits after it by the byte that they stand for. -/
def percentBytes : List UInt8 → List UInt8
  | [] => []
  | b :: rest =>
    if b = 0x25 then
      match rest with
      | high :: low :: others =>
        match hexByte? high, hexByte? low with
        | some h, some l => (16 * h + l) :: percentBytes others
        | _, _ => b :: percentBytes (high :: low :: others)
      | [c] => [b, c]
      | [] => [b]
    else b :: percentBytes rest

/-- The text that a percent encoded text stands for; `none` when its bytes are not UTF-8. -/
def percentDecode? (s : String) : Option String :=
  String.fromUTF8? ⟨(percentBytes s.toUTF8.toList).toArray⟩

end WorkflowRules.Text
