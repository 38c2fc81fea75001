import WorkflowRules.Text.WhiteSpace
import WorkflowRules.Time.Timestamp

/-!
# Reading timestamps

Timestamps are texts of RFC 3339: date, `T` or a space, time with an optional fraction, and the
offset from coordinated universal time. Two readers take such texts.

* `Timestamp.read` is the strict one. Fields have a fixed width and nothing may be added. Of several
  problems it names the first in the order of the text, with three exceptions: a text of fewer
  bytes than a date and a time take is too short whatever is in it, a date or a time is tested as
  a whole once it is read, and an offset only after the end of the text.
* `Timestamp.readLenient?` also takes white space between the parts, numbers of one digit, years
  with a sign and any number of digits, `UTC` for the offset, and an offset without its colon.

In both, digits of a fraction beyond the ninth are dropped, second 60 is a leap second, the offset
is less than a day, and the moment lies within the years of the calendar.
-/

namespace WorkflowRules

open WorkflowRules.Text (trimStart digitValue?)
open WorkflowRules.Time (Date)

/-- Why a text is not a timestamp. -/
inductive TimestampError where
  | invalid
  | tooShort
  | tooLong
  | outOfRange
  /-- The offset leads out of the calendar. -/
  | impossible
deriving DecidableEq, Repr

/-- The wording of a reason. -/
def TimestampError.message : TimestampError → String
  | .invalid => "input contains invalid characters"
  | .tooShort => "premature end of input"
  | .tooLong => "trailing input"
  | .outOfRange => "input is out of range"
  | .impossible => "no possible date and time matching input"

namespace Timestamp

/-- Reads a part from the start of a text and leaves what follows. -/
abbrev Part (α : Type) := StateT (List Char) (Except TimestampError) α

/-- Reads at most `max` digits after the value `acc` of the `seen` digits before them. -/
def digitsUpTo (acc seen : Nat) : Nat → List Char → Nat × Nat × List Char
  | 0, cs => (acc, seen, cs)
  | _ + 1, [] => (acc, seen, [])
  | max + 1, c :: rest =>
    match digitValue? c with
    | some d => digitsUpTo (10 * acc + d) (seen + 1) max rest
    | none => (acc, seen, c :: rest)

/-- Reads a number of `min` to `max` digits. -/
def number (min max : Nat) : Part Nat := fun cs =>
  let r := digitsUpTo 0 0 max cs
  if min ≤ r.2.1 then .ok (r.1, r.2.2)
  else if cs.length < min then .error .tooShort
  else .error .invalid

/-- Reads exactly `count` digits. -/
def digits (count : Nat) : Part Nat := fun cs =>
  let r := digitsUpTo 0 0 count cs
  if r.2.1 = count then .ok (r.1, r.2.2) else .error .invalid

/-- Reads one given character. -/
def literal (expected : Char) : Part Unit := fun cs =>
  match cs with
  | [] => .error .tooShort
  | c :: rest => if c = expected then .ok ((), rest) else .error .invalid

/-- Reads what separates the date from the time. -/
def dateTimeSeparator : Part Unit := fun cs =>
  match cs with
  | [] => .error .tooShort
  | c :: rest => if c = 'T' ∨ c = 't' ∨ c = ' ' then .ok ((), rest) else .error .invalid

/-- Reads the nanoseconds after a point, if there is one. -/
def fraction : Part Nat := fun cs =>
  match cs with
  | '.' :: rest =>
    let r := digitsUpTo 0 0 9 rest
    if r.2.1 = 0 then .error (if rest.isEmpty then .tooShort else .invalid)
    else .ok (r.1 * Nat.pow 10 (9 - r.2.1), r.2.2.dropWhile fun c => (digitValue? c).isSome)
  | cs => .ok (0, cs)

/-- Reads two digits of an offset; a text of fewer than two bytes is too short for them. -/
def twoDigits : Part Nat := fun cs =>
  if (cs.map Char.utf8Size).foldr (· + ·) 0 < 2 then .error .tooShort else digits 2 cs

/-- Reads hours and minutes of an offset; `colon` reads what stands between them. -/
def offsetSeconds (colon : Part Unit) : Part Int := do
  let hours ← twoDigits
  colon
  let minutes ← twoDigits
  if 59 < minutes then throw .outOfRange
  return hours * 3600 + minutes * 60

/-- Reads an offset in seconds. The minus sign of typography is a sign as well. -/
def offset (colon : Part Unit) : Part Int := fun cs =>
  match cs with
  | [] => .error .tooShort
  | sign :: rest =>
    if sign = 'Z' ∨ sign = 'z' then .ok (0, rest)
    else if sign = '+' then offsetSeconds colon rest
    else if sign = '-' ∨ sign = Char.ofNat 0x2212 then
      (offsetSeconds colon rest).map fun r => (-r.1, r.2)
    else .error .invalid

/-- Checks that nothing is left. -/
def finished : Part Unit := fun cs =>
  if cs.isEmpty then .ok ((), cs) else .error .tooLong

/-- Passes over white space. -/
def blanks : Part Unit := fun cs => .ok ((), trimStart cs)

/-- A date and a time of day with an offset. -/
structure Local where
  date : Date
  hour : Nat
  minute : Nat
  second : Nat
  nanos : Nat
  offset : Int

/-- Whether there is such a time of day; a minute may have a second 60. -/
def Local.timeExists (l : Local) : Bool :=
  l.hour < 24 && l.minute < 60 && l.second ≤ 60

/-- The moment of a local date and time, if there is such a date and time. -/
def ofLocal (l : Local) : Except TimestampError Timestamp :=
  if l.date.exists && l.timeExists && l.offset.natAbs < 86400 then
    let day : Int := l.hour * 3600 + l.minute * 60 + (if l.second = 60 then 59 else l.second)
    let seconds := l.date.toDays * 86400 + day - l.offset
    if (Date.ofDays (seconds / 86400)).exists then
      .ok ⟨seconds, if l.second = 60 then 1000000000 + l.nanos else l.nanos⟩
    else .error .impossible
  else .error .outOfRange

/-- The bytes that a date and a time without a fraction take. -/
def leastBytes : Nat := 19

/-- Date, time and offset, each field of its fixed width. -/
def strict : Part Local := do
  if ((← get).map Char.utf8Size).foldr (· + ·) 0 < leastBytes then throw .tooShort
  let year ← digits 4
  literal '-'
  let month ← digits 2
  literal '-'
  let day ← digits 2
  let date : Date := ⟨year, month, day⟩
  if !date.exists then throw .outOfRange
  dateTimeSeparator
  let hour ← digits 2
  literal ':'
  let minute ← digits 2
  literal ':'
  let second ← digits 2
  let nanos ← fraction
  let atGreenwich : Local := ⟨date, hour, minute, second, nanos, 0⟩
  if !atGreenwich.timeExists then throw .outOfRange
  let offset ← offset (literal ':')
  finished
  return { atGreenwich with offset }

/-- A year, which may have a sign and then any number of digits. -/
def lenientYear : Part Int := do
  blanks
  match ← get with
  | '-' :: rest =>
    set rest
    return -((← number 1 rest.length : Nat) : Int)
  | '+' :: rest =>
    set rest
    return ((← number 1 rest.length : Nat) : Int)
  | _ => return ((← number 1 4 : Nat) : Int)

/-- A number of one or two digits after white space. -/
def lenientNumber : Part Nat := do
  blanks
  number 1 2

/-- A given character after white space. -/
def lenientLiteral (expected : Char) : Part Unit := do
  blanks
  literal expected

/-- Passes over colons and white space. -/
def lenientColon : Part Unit := fun cs =>
  .ok ((), cs.dropWhile fun c => c == ':' || Text.isWhiteSpace c)

/-- An offset, or the letters `UTC` in any case. -/
def lenientOffset : Part Int := fun cs =>
  match cs with
  | u :: t :: c :: rest =>
    if u.toUpper = 'U' ∧ t.toUpper = 'T' ∧ c.toUpper = 'C' then .ok (0, rest)
    else offset lenientColon cs
  | cs => offset lenientColon cs

/-- Date, time and offset, with white space between the parts and fields of varying width. -/
def lenient : Part Local := do
  let year ← lenientYear
  lenientLiteral '-'
  let month ← lenientNumber
  lenientLiteral '-'
  let day ← lenientNumber
  dateTimeSeparator
  let hour ← lenientNumber
  lenientLiteral ':'
  let minute ← lenientNumber
  lenientLiteral ':'
  let second ← lenientNumber
  let nanos ← fraction
  blanks
  let offset ← lenientOffset
  blanks
  finished
  return ⟨⟨year, month, day⟩, hour, minute, second, nanos, offset⟩

/-- Reads a timestamp whose fields all have their fixed width. -/
def read (s : String) : Except TimestampError Timestamp := do
  ofLocal (← strict s.toList).1

/-- Reads a timestamp with white space between its parts and fields of varying width. -/
def readLenient (s : String) : Except TimestampError Timestamp := do
  ofLocal (← lenient s.toList).1

/-- The timestamp that a text denotes to the lenient reader. -/
def readLenient? (s : String) : Option Timestamp :=
  (readLenient s).toOption

end Timestamp

end WorkflowRules
