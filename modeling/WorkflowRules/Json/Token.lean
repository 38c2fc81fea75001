import WorkflowRules.Json.Basic
import WorkflowRules.Text.Digits

/-!
# Tokens of a JSON text

A text is cut into tokens from left to right. Where it cannot go on, the list of tokens ends with
`Token.fault`, so a reader still sees everything before the fault.

Two kinds of token are well formed and still hold no value: a number that is too large for
binary64, and a string with half a surrogate pair. They are kept with the value `none`, because a
reader that skips over them does not mind.

## Termination

`tokens` recurses on the length of the text: `nextToken?_length` says that every token takes at
least one character.
-/

namespace WorkflowRules.Json

open WorkflowRules.Text
open WorkflowRules.Number (Binary64)

/-! ## Numerals -/

/-- The parts of a number as written; the lists hold digit values. -/
structure Numeral where
  negative : Bool
  whole : List Nat
  fraction : List Nat
  /-- The exponent, if one is written. -/
  exponent : Option Int
deriving DecidableEq, Repr

/-- The greatest significand that is taken from the digits of a number. -/
def maxSignificand : Nat := Nat.pow 2 64 - 1

/--
Takes digits before the point into the significand while it fits 64 bits, and counts those left.
-/
def takeWhole (significand : Nat) : List Nat → Nat × Nat
  | [] => (significand, 0)
  | d :: rest =>
    if significand * 10 + d ≤ maxSignificand then takeWhole (significand * 10 + d) rest
    else (significand, rest.length + 1)

/-- Takes digits after the point into the significand while it fits, and counts those taken. -/
def takeFraction (significand : Nat) : List Nat → Nat × Nat
  | [] => (significand, 0)
  | d :: rest =>
    if significand * 10 + d ≤ maxSignificand then
      let r := takeFraction (significand * 10 + d) rest
      (r.1, r.2 + 1)
    else (significand, 0)

/--
The number that a numeral denotes. Without point and exponent it is an integer when 64 bits hold
it; minus zero and everything else is a binary64 number. `none` means that it is too large.
-/
def Numeral.value? (n : Numeral) : Option Number :=
  let whole := takeWhole 0 n.whole
  let plain := n.fraction.isEmpty && n.exponent.isNone && whole.2 == 0
  let signed : Int := if n.negative then -(whole.1 : Int) else whole.1
  if h : plain = true ∧ ¬(n.negative = true ∧ whole.1 = 0) ∧
      minInteger ≤ signed ∧ signed ≤ maxInteger then
    some (.integer signed h.2.2)
  else
    let all := takeFraction whole.1 n.fraction
    let exponent : Int := whole.2 - all.2 + n.exponent.getD 0
    (Binary64.ofDecimal? all.1 exponent).map fun x => .float (if n.negative then x.neg else x)

/-- A run of digits and what follows it. -/
def takeDigits (cs : List Char) : List Nat × List Char :=
  ((cs.takeWhile fun c => (digitValue? c).isSome).filterMap digitValue?,
    cs.dropWhile fun c => (digitValue? c).isSome)

theorem takeDigits_length (cs : List Char) : (takeDigits cs).2.length ≤ cs.length :=
  (List.dropWhile_suffix _).length_le

theorem takeDigits_length_lt {cs : List Char} (h : (takeDigits cs).1 ≠ []) :
    (takeDigits cs).2.length < cs.length := by
  have hsplit := congrArg List.length
    (List.takeWhile_append_dropWhile (p := fun c => (digitValue? c).isSome) (l := cs))
  have hpos : 0 < (cs.takeWhile fun c => (digitValue? c).isSome).length := by
    apply List.length_pos_iff.2
    intro hnil
    exact h (by simp [takeDigits, hnil])
  rw [List.length_append] at hsplit
  show (cs.dropWhile fun c => (digitValue? c).isSome).length < cs.length
  omega

/-- A minus sign, if there is one. -/
def takeMinus : List Char → Bool × List Char
  | '-' :: rest => (true, rest)
  | cs => (false, cs)

theorem takeMinus_length (cs : List Char) : (takeMinus cs).2.length ≤ cs.length := by
  unfold takeMinus
  split <;> simp

/-- The digits after a point, if there is one; a point without a digit is refused. -/
def takePoint? : List Char → Option (List Nat × List Char)
  | '.' :: rest =>
    match takeDigits rest with
    | ([], _) => none
    | (ds, after) => some (ds, after)
  | cs => some ([], cs)

theorem takePoint?_length {cs : List Char} {r : List Nat × List Char} (h : takePoint? cs = some r) :
    r.2.length ≤ cs.length := by
  unfold takePoint? at h
  split at h
  · next rest =>
    have := takeDigits_length rest
    split at h
    · simp at h
    · next ds after heq =>
      rw [heq] at this
      cases h
      simp only [List.length_cons] at this ⊢
      omega
  · cases h
    simp

/-- The sign of an exponent. -/
def takeSign : List Char → Bool × List Char
  | '-' :: rest => (true, rest)
  | '+' :: rest => (false, rest)
  | cs => (false, cs)

theorem takeSign_length (cs : List Char) : (takeSign cs).2.length ≤ cs.length := by
  unfold takeSign
  split <;> simp

/-- An exponent, if there is one; a mark without a digit is refused. -/
def takeExponent? (cs : List Char) : Option (Option Int × List Char) :=
  match cs with
  | c :: rest =>
    if c = 'e' ∨ c = 'E' then
      let sign := takeSign rest
      match takeDigits sign.2 with
      | ([], _) => none
      | (ds, after) =>
        let n : Nat := ds.foldl (fun n d => 10 * n + d) 0
        some (some (if sign.1 then -(n : Int) else n), after)
    else some (none, cs)
  | [] => some (none, [])

theorem takeExponent?_length {cs : List Char} {r : Option Int × List Char}
    (h : takeExponent? cs = some r) : r.2.length ≤ cs.length := by
  unfold takeExponent? at h
  split at h
  · next c rest =>
    split at h
    · have h1 := takeSign_length rest
      have h2 := takeDigits_length (takeSign rest).2
      dsimp only at h
      split at h
      · simp at h
      · next ds after heq =>
        rw [heq] at h2
        cases h
        simp only [List.length_cons]
        simp only at h2
        omega
    · cases h
      simp
  · cases h
    simp

/-- A numeral at the start of a text. A leading zero stands alone. -/
def takeNumeral? (cs : List Char) : Option (Numeral × List Char) :=
  let minus := takeMinus cs
  match takeDigits minus.2 with
  | ([], _) => none
  | (0 :: _ :: _, _) => none
  | (whole, afterWhole) =>
    match takePoint? afterWhole with
    | none => none
    | some (fraction, afterPoint) =>
      match takeExponent? afterPoint with
      | none => none
      | some (exponent, rest) => some (⟨minus.1, whole, fraction, exponent⟩, rest)

theorem takeNumeral?_length {cs : List Char} {r : Numeral × List Char}
    (h : takeNumeral? cs = some r) : r.2.length < cs.length := by
  unfold takeNumeral? at h
  have hminus := takeMinus_length cs
  dsimp only at h
  split at h
  · simp at h
  · simp at h
  · next whole afterWhole hnil hzero heq =>
    have hne : (takeDigits (takeMinus cs).2).1 ≠ [] := by
      intro he
      rw [heq] at he
      exact hnil he
    have hdigits := takeDigits_length_lt hne
    rw [heq] at hdigits
    split at h
    · simp at h
    · next fraction afterPoint hpoint =>
      have h1 := takePoint?_length hpoint
      split at h
      · simp at h
      · next exponent rest hexp =>
        have h2 := takeExponent?_length hexp
        cases h
        simp only at hdigits h1 h2 ⊢
        omega

/-! ## Strings -/

/-- A character as it stands in a string: itself, or a UTF-16 unit in hexadecimal. -/
inductive StringPiece where
  | char (c : Char)
  | unit (n : Nat)
deriving DecidableEq, Repr

/-- The value of a hexadecimal digit in either case. -/
def hexValue? (c : Char) : Option Nat :=
  if '0' ≤ c ∧ c ≤ '9' then some (c.toNat - '0'.toNat)
  else if 'a' ≤ c ∧ c ≤ 'f' then some (c.toNat - 'a'.toNat + 10)
  else if 'A' ≤ c ∧ c ≤ 'F' then some (c.toNat - 'A'.toNat + 10)
  else none

/-- The UTF-16 unit of four hexadecimal digits. -/
def hexUnit? (a b c d : Char) : Option Nat := do
  return ((← hexValue? a) * 16 + (← hexValue? b)) * 256 + (← hexValue? c) * 16 + (← hexValue? d)

/-- The character that a one-letter escape stands for. -/
def simpleEscape? (c : Char) : Option Char :=
  if c = '"' ∨ c = '\\' ∨ c = '/' then some c
  else if c = 'b' then some (Char.ofNat 0x08)
  else if c = 'f' then some (Char.ofNat 0x0C)
  else if c = 'n' then some '\n'
  else if c = 'r' then some '\r'
  else if c = 't' then some '\t'
  else none

/-- The pieces of a string whose opening quote is already read, and what follows the closing one. -/
def takeString? : List Char → Option (List StringPiece × List Char)
  | [] => none
  | '"' :: rest => some ([], rest)
  | '\\' :: 'u' :: a :: b :: c :: d :: rest =>
    match hexUnit? a b c d with
    | none => none
    | some n => (takeString? rest).map fun r => (.unit n :: r.1, r.2)
  | '\\' :: c :: rest =>
    match simpleEscape? c with
    | none => none
    | some e => (takeString? rest).map fun r => (.char e :: r.1, r.2)
  | c :: rest =>
    if c.toNat < 0x20 ∨ c = '\\' then none
    else (takeString? rest).map fun r => (.char c :: r.1, r.2)

theorem takeString?_length : ∀ (cs : List Char) (r : List StringPiece × List Char),
    takeString? cs = some r → r.2.length < cs.length := by
  intro cs
  fun_induction takeString? cs with
  | case1 => simp
  | case2 rest =>
    rintro r ⟨⟩
    simp
  | case3 => simp
  | case4 a b c d rest n hn ih =>
    intro r h
    obtain ⟨s, hs, rfl⟩ := Option.map_eq_some_iff.1 h
    have := ih s hs
    simp only [List.length_cons]
    omega
  | case5 => simp
  | case6 c rest hne e he ih =>
    intro r h
    obtain ⟨s, hs, rfl⟩ := Option.map_eq_some_iff.1 h
    have := ih s hs
    simp only [List.length_cons]
    omega
  | case7 => simp
  | case8 c rest _ _ _ hc ih =>
    intro r h
    obtain ⟨s, hs, rfl⟩ := Option.map_eq_some_iff.1 h
    have := ih s hs
    simp only [List.length_cons]
    omega

/-- Joins surrogate pairs; `none` when half a pair is left over. -/
def joinPieces? : List StringPiece → Option (List Char)
  | [] => some []
  | .char c :: rest => (joinPieces? rest).map (c :: ·)
  | .unit n :: .unit m :: rest =>
    if 0xD800 ≤ n ∧ n < 0xDC00 then
      if 0xDC00 ≤ m ∧ m < 0xE000 then
        (joinPieces? rest).map (Char.ofNat (0x10000 + (n - 0xD800) * 0x400 + (m - 0xDC00)) :: ·)
      else none
    else if 0xDC00 ≤ n ∧ n < 0xE000 then none
    else (joinPieces? (.unit m :: rest)).map (Char.ofNat n :: ·)
  | .unit n :: rest =>
    if 0xD800 ≤ n ∧ n < 0xE000 then none
    else (joinPieces? rest).map (Char.ofNat n :: ·)

/-! ## Tokens -/

/-- A token of a JSON text. -/
inductive Token where
  | openArray
  | closeArray
  | openObject
  | closeObject
  | comma
  | colon
  | null
  | bool (b : Bool)
  /-- A number; `none` when it is too large. -/
  | number (value : Option Number)
  /-- A string; `none` when it holds half a surrogate pair. -/
  | string (value : Option String)
  /-- The text cannot be cut any further. -/
  | fault
deriving DecidableEq

/-- White space between tokens. -/
def isSpace (c : Char) : Bool :=
  c == ' ' || c == '\t' || c == '\n' || c == '\r'

/-- The first token of a text that starts with no white space, and what follows it. -/
def nextToken? : List Char → Option (Token × List Char)
  | '[' :: rest => some (.openArray, rest)
  | ']' :: rest => some (.closeArray, rest)
  | '{' :: rest => some (.openObject, rest)
  | '}' :: rest => some (.closeObject, rest)
  | ',' :: rest => some (.comma, rest)
  | ':' :: rest => some (.colon, rest)
  | 'n' :: 'u' :: 'l' :: 'l' :: rest => some (.null, rest)
  | 't' :: 'r' :: 'u' :: 'e' :: rest => some (.bool true, rest)
  | 'f' :: 'a' :: 'l' :: 's' :: 'e' :: rest => some (.bool false, rest)
  | '"' :: rest =>
    match takeString? rest with
    | none => none
    | some (pieces, rest) => some (.string ((joinPieces? pieces).map String.ofList), rest)
  | cs =>
    match takeNumeral? cs with
    | none => none
    | some (n, rest) => some (.number n.value?, rest)

theorem nextToken?_length {cs : List Char} {r : Token × List Char} (h : nextToken? cs = some r) :
    r.2.length < cs.length := by
  unfold nextToken? at h
  split at h
  case h_10 rest =>
    split at h
    · simp at h
    · next pieces after hs =>
      have := takeString?_length _ _ hs
      cases h
      simp only [List.length_cons] at this ⊢
      omega
  case h_11 =>
    split at h
    · simp at h
    · next n after hn =>
      have := takeNumeral?_length hn
      cases h
      exact this
  all_goals
    cases h
    simp only [List.length_cons]
    omega

/-- The tokens of a text; the last one is `Token.fault` when the text cannot be cut to its end. -/
def tokens (cs : List Char) : List Token :=
  match _hd : cs.dropWhile isSpace with
  | [] => []
  | c :: rest =>
    match _ht : nextToken? (c :: rest) with
    | none => [.fault]
    | some (t, after) => t :: tokens after
termination_by cs.length
decreasing_by
  have h1 := nextToken?_length _ht
  have h2 : (c :: rest).length ≤ cs.length := _hd ▸ (List.dropWhile_suffix _).length_le
  exact Nat.lt_of_lt_of_le h1 h2

end WorkflowRules.Json
