import TickScheduler.Calendar
import TickScheduler.Text.Digits
/-!
Points in time in UTC, to the nanosecond, with leap seconds, and their RFC 3339 text. A point inside
a leap second stands in the second before it, with 10⁹ nanoseconds or more.
-/
namespace TickScheduler

structure Timestamp where
  /-- Seconds since 1 January 1970, leap seconds not counted. -/
  seconds : Int
  nanos : Nat
  nanos_valid : nanos < 1000000000 ∨ nanos < 2000000000 ∧ seconds % 60 = 59
deriving DecidableEq, Repr

namespace Timestamp

/-- The first and the last second that a timestamp may lie in: the years −262143 to 262142. -/
def earliest : Int := -8334601228800
def latest : Int := 8210266876799

/-- The timestamp of a number of seconds and nanoseconds, if there is one. -/
def ofUnix? (seconds : Int) (nanos : Nat) : Option Timestamp :=
  if earliest ≤ seconds ∧ seconds ≤ latest then
    if h : nanos < 1000000000 ∨ nanos < 2000000000 ∧ seconds % 60 = 59 then
      some ⟨seconds, nanos, h⟩
    else none
  else none

def date (t : Timestamp) : Date :=
  Date.ofDayNumber (t.seconds / 86400)

/-- Seconds since midnight. -/
def secondOfDay (t : Timestamp) : Nat :=
  (t.seconds % 86400).toNat

/-- How many digits of a second are written. -/
inductive Precision where
  /-- Of none, three, six and nine digits the fewest that lose nothing. -/
  | exact
  /-- Always three digits, the rest cut off. -/
  | millis
deriving DecidableEq, Repr

/-- The digits after the second with their point, for nanoseconds below 10⁹. -/
def fractionText (precision : Precision) (nanos : Nat) : List Char :=
  match precision with
  | .millis => '.' :: Digits.fixed 3 (nanos / 1000000)
  | .exact =>
    if nanos = 0 then []
    else if nanos % 1000000 = 0 then '.' :: Digits.fixed 3 (nanos / 1000000)
    else if nanos % 1000 = 0 then '.' :: Digits.fixed 6 (nanos / 1000)
    else '.' :: Digits.fixed 9 nanos

/-- A year: four digits up to 9999, else a sign and at least four digits. -/
def yearText (year : Int) : List Char :=
  if 0 ≤ year ∧ year ≤ 9999 then Digits.fixed 4 year.toNat
  else (if year < 0 then '-' else '+') :: Digits.padded 4 year.natAbs

def dateText (d : Date) : List Char :=
  yearText d.year ++ '-' :: Digits.fixed 2 d.month ++ '-' :: Digits.fixed 2 d.day

/-- The time of day; a leap second is the second 60 of its minute. -/
def timeText (precision : Precision) (secondOfDay nanos : Nat) : List Char :=
  let leap := if nanos < 1000000000 then 0 else 1
  Digits.fixed 2 (secondOfDay / 3600) ++ ':' :: Digits.fixed 2 (secondOfDay / 60 % 60)
    ++ ':' :: Digits.fixed 2 (secondOfDay % 60 + leap)
    ++ fractionText precision (nanos % 1000000000)

/-- RFC 3339 text up to the zone, which UTC writes either as a letter or as an offset. -/
def text (precision : Precision) (zone : String) (t : Timestamp) : String :=
  String.ofList (dateText t.date ++ 'T' :: timeText precision t.secondOfDay t.nanos ++ zone.toList)

/-- The text in which timestamps are stored. -/
def storedText (t : Timestamp) : String :=
  t.text .exact "+00:00"

/-- The text in which a result shows its timestamps. -/
def shownText (t : Timestamp) : String :=
  t.text .exact "Z"

/-- The text that callback receivers get. -/
def millisText (t : Timestamp) : String :=
  t.text .millis "Z"

/-- Nanoseconds from one point to a later one. A leap second that the earlier time of day stands in
counts in full once the later time of day is past it, and the other way round. -/
def nanosSince (later earlier : Timestamp) : Int :=
  let seconds := later.seconds - earlier.seconds
  let leap : Int :=
    if earlier.secondOfDay < later.secondOfDay ∧ 1000000000 ≤ earlier.nanos then 1
    else if later.secondOfDay < earlier.secondOfDay ∧ 1000000000 ≤ later.nanos then -1
    else 0
  (seconds + leap) * 1000000000 + (later.nanos - earlier.nanos)

/-- Seconds from one point to a later one, zero if it is not later: whole seconds and the fraction are
rounded each on its own and then added. -/
def secondsSince (later earlier : Timestamp) : Float :=
  let nanos := (nanosSince later earlier).toNat
  (nanos / 1000000000).toFloat + (nanos % 1000000000).toFloat / 1000000000.0

end Timestamp

end TickScheduler
