/-!
# UTF-8

Bytes are read as UTF-8 one at a time. `decodeLossy` never fails: where no character can be read,
it puts the replacement character for the bytes that have begun one, and goes on with the byte that
does not fit. Main statement: bytes below `0x80` stand for themselves.
-/

namespace WorkflowRules.Text

/-- The bytes of a text. -/
def utf8Bytes (s : String) : List UInt8 := s.toUTF8.toList

/-- What stands for bytes that are no character. -/
def replacementCharacter : Char := Char.ofNat 0xFFFD

/-- A character that has begun. -/
structure PartialCharacter where
  /-- How many bytes are missing. -/
  owed : Nat
  /-- The least and the greatest value of the next byte. -/
  low : Nat
  high : Nat
  /-- The bits that have been read. -/
  bits : Nat
deriving DecidableEq, Repr

/-- The character that a byte begins or is, if it can be the first byte of one. -/
def firstByte (b : Nat) : Option (Char ⊕ PartialCharacter) :=
  if b < 0x80 then some (.inl (Char.ofNat b))
  else if b < 0xC2 then none
  else if b < 0xE0 then some (.inr ⟨1, 0x80, 0xBF, b - 0xC0⟩)
  else if b = 0xE0 then some (.inr ⟨2, 0xA0, 0xBF, 0⟩)
  else if b = 0xED then some (.inr ⟨2, 0x80, 0x9F, 0x0D⟩)
  else if b < 0xF0 then some (.inr ⟨2, 0x80, 0xBF, b - 0xE0⟩)
  else if b = 0xF0 then some (.inr ⟨3, 0x90, 0xBF, 0⟩)
  else if b < 0xF4 then some (.inr ⟨3, 0x80, 0xBF, b - 0xF0⟩)
  else if b = 0xF4 then some (.inr ⟨3, 0x80, 0x8F, 4⟩)
  else none

/-- A character with one byte more, if the byte fits. -/
def PartialCharacter.next (p : PartialCharacter) (b : Nat) : Option (Char ⊕ PartialCharacter) :=
  if b < p.low ∨ p.high < b then none
  else
    let bits := p.bits * 64 + (b - 0x80)
    if p.owed ≤ 1 then some (.inl (Char.ofNat bits)) else some (.inr ⟨p.owed - 1, 0x80, 0xBF, bits⟩)

/-- Reads on, with a character that may have begun. -/
def decodeFrom (begun : Option PartialCharacter) : List UInt8 → List Char
  | [] => if begun.isSome then [replacementCharacter] else []
  | b :: rest =>
    match begun.bind (·.next b.toNat) with
    | some (.inl c) => c :: decodeFrom none rest
    | some (.inr p) => decodeFrom (some p) rest
    | none =>
      let before := if begun.isSome then [replacementCharacter] else []
      match firstByte b.toNat with
      | some (.inl c) => before ++ c :: decodeFrom none rest
      | some (.inr p) => before ++ decodeFrom (some p) rest
      | none => before ++ replacementCharacter :: decodeFrom none rest

/-- The text of bytes, with replacement characters where they are not UTF-8. -/
def decodeLossy (bytes : List UInt8) : String := String.ofList (decodeFrom none bytes)

/-- Bytes below `0x80` stand for themselves. -/
theorem decodeFrom_ascii {bytes : List UInt8} (h : ∀ b ∈ bytes, b.toNat < 0x80) :
    decodeFrom none bytes = bytes.map fun b => Char.ofNat b.toNat := by
  induction bytes with
  | nil => rfl
  | cons b rest ih =>
    have hb := h b List.mem_cons_self
    have hrest := ih fun c hc => h c (List.mem_cons_of_mem _ hc)
    simp [decodeFrom, firstByte, hb, hrest]

end WorkflowRules.Text
