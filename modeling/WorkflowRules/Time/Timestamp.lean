import WorkflowRules.Text.Digits
import WorkflowRules.Time.Calendar

/-!
# Timestamps

A timestamp is a moment in coordinated universal time with nanoseconds. A leap second is the 59th
second of its minute with a billion nanoseconds or more, and is written as second 60.
-/

namespace WorkflowRules

open WorkflowRules.Text (padded natDigits)
open WorkflowRules.Time (Date)

/-- A moment in coordinated universal time. -/
structure Timestamp where
  /-- Seconds since the start of 1970. -/
  seconds : Int
  /-- Nanoseconds within the second; from `10 ^ 9` on, within the leap second after it. -/
  nanos : Nat
deriving DecidableEq, Repr

namespace Timestamp

/-- The digits of a fraction of a second: 0, 3, 6 or 9 of them, the fewest that lose nothing. -/
def fractionText (nanos : Nat) : List Char :=
  if nanos = 0 then []
  else if nanos % 1000000 = 0 then '.' :: padded 3 (nanos / 1000000)
  else if nanos % 1000 = 0 then '.' :: padded 6 (nanos / 1000)
  else '.' :: padded 9 nanos

/-- A year: four digits, or a sign and at least four digits outside of 0 to 9999. -/
def yearText (year : Int) : List Char :=
  if 0 ≤ year ∧ year ≤ 9999 then padded 4 year.toNat
  else (if year < 0 then '-' else '+') :: padded 4 year.natAbs

/-- Date and time of a moment, followed by the name of the zone. -/
def textWith (zone : String) (t : Timestamp) : String :=
  let date := Date.ofDays (t.seconds / 86400)
  let second := (t.seconds % 86400).toNat
  let leap := t.nanos / 1000000000
  String.ofList
    (yearText date.year ++ '-' :: padded 2 date.month ++ '-' :: padded 2 date.day ++
      'T' :: padded 2 (second / 3600) ++ ':' :: padded 2 (second / 60 % 60) ++
      ':' :: padded 2 (second % 60 + leap) ++ fractionText (t.nanos % 1000000000)) ++ zone

/-- The text of a timestamp in JSON values. -/
def text (t : Timestamp) : String := t.textWith "Z"

/-- The text of a timestamp in a database column. -/
def columnText (t : Timestamp) : String := t.textWith "+00:00"

end Timestamp

end WorkflowRules
