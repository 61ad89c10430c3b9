import TickScheduler.Decimal.Rounded
import TickScheduler.Error
import TickScheduler.Text.Digits
import TickScheduler.Text.Scan
import TickScheduler.Tick
/-!
Values on their way into a column. A column has a type, and takes any value that this type can hold
without loss: a column of numbers takes the text of a number, and a column of texts takes a number as
it is written.
-/
namespace TickScheduler

open Text.Scan

/-- A value as the database takes it. -/
inductive Cell where
  | null
  | integer (n : Int64)
  | real (x : Float)
  | text (s : String)
deriving Repr

namespace Cell

/-! ### Numbers written as texts -/

/-- The blanks that may stand around a number. -/
def isNumberBlank (c : Char) : Bool :=
  c == ' ' || ('\t' ≤ c && c ≤ '\r')

/-- A sign, and whether it is a minus. -/
def sign : Text.Scan Bool := do
  if ← option ['-'] then return true
  let _ ← option ['+']
  return false

/-- No exponent is taken for more than this; no number is as large or as small. -/
def exponentLimit : Nat := 10000

/-- The exponent of a number, if it has one. -/
def exponent : Text.Scan (Option Int) := do
  match ← attempt (one fun c => c == 'e' || c == 'E') with
  | none => return none
  | some _ =>
    let isNegative ← sign
    let n : Int := min exponentLimit (Digits.value (← run1 Char.isDigit))
    return some (if isNegative then -n else n)

/-- The greatest finite number. -/
def greatest : Nat := 0x1fffffffffffff <<< 971

/-- The number nearest to `magnitude · 10^exponent`. Above the greatest finite number there is only
infinity, however near the other one may be. -/
def nearest (magnitude : Nat) (exponent : Int) : Float :=
  let isGreater :=
    greatest * Nat.pow 10 (-exponent).toNat < magnitude * Nat.pow 10 exponent.toNat
  if isGreater then 1.0 / 0.0 else Float.ofScientific magnitude (exponent < 0) exponent.natAbs

/-- A decimal number with a digit before or behind its point. It is an integer if it has neither point
nor exponent and fits 64 bits. -/
def number : Text.Scan Cell := do
  let _ ← run isNumberBlank
  let isNegative ← sign
  let whole ← run Char.isDigit
  let hasPoint ← option ['.']
  let places ← if hasPoint then run Char.isDigit else pure []
  let exponent ← exponent
  let _ ← run isNumberBlank
  if whole.isEmpty && places.isEmpty then fail
  let magnitude := Digits.value (whole ++ places)
  let integer? : Option Int64 :=
    if hasPoint || exponent.isSome then none
    else Tick.ofInt? (if isNegative then -magnitude else magnitude)
  match integer? with
  | some n => return .integer n
  | none =>
    let x := nearest magnitude (exponent.getD 0 - places.length)
    return .real (if isNegative then -x else x)

/-! ### Numbers as texts -/

/-- How many significant digits the text of a number has at most. -/
def textDigits : Nat := 15

/-- The text of `digits · 10^exponent`. There is at least one digit behind the point, and an exponent
if the point would stand behind the last significant digit that is written or more than three zeros
before the first one. -/
def decimalText (digits : List Char) (exponent : Int) : List Char :=
  let point := digits.length + exponent
  let zeros (n : Nat) : List Char := List.replicate n '0'
  let fraction (cs : List Char) : List Char := '.' :: (if cs.isEmpty then ['0'] else cs)
  if textDigits < point ∨ point < -3 then
    let power := point - 1
    digits.take 1 ++ fraction (digits.drop 1)
      ++ 'e' :: (if power < 0 then '-' else '+') :: Digits.padded 2 power.natAbs
  else if point ≤ 0 then '0' :: fraction (zeros (-point).toNat ++ digits)
  else digits.take point.toNat ++ zeros (point.toNat - digits.length)
    ++ fraction (digits.drop point.toNat)

/-- The text of a finite number. A zero has no sign. -/
def realText (x : Float) : String :=
  if x == 0 then "0.0"
  else
    let d := ((Decimal.Interval.ofBits x.abs.toBits).rounded textDigits).trim textDigits
    let text := decimalText (Nat.toDigits 10 d.digits) d.exponent
    String.ofList (if x < 0 then '-' :: text else text)

/-! ### Columns -/

/-- A real number that is an integer of 64 bits, and not the least or the greatest one, becomes that
integer. -/
def settled : Cell → Cell
  | .real x =>
    let n := x.toInt64
    if n.toFloat == x && Int64.minValue < n && n < Int64.maxValue then .integer n else .real x
  | cell => cell

/-- The value in a column of numbers: a text that writes a number is that number, and a number is an
integer if it can be. -/
def numeric : Cell → Cell
  | .text s => ((readAll number s.toList).getD (.text s)).settled
  | cell => cell.settled

/-- The value in an integer column. -/
def asInteger (cell : Cell) : Except DatabaseFault Int64 :=
  match cell.numeric with
  | .integer n => .ok n
  | .real _ | .text _ | .null => .error .constraint

/-- The value in a column of floating-point numbers. -/
def asReal (cell : Cell) : Except DatabaseFault Float :=
  match cell.numeric with
  | .integer n => .ok n.toFloat
  | .real x => .ok x
  | .text _ | .null => .error .constraint

/-- The value in a text column. -/
def asText : Cell → Except DatabaseFault String
  | .text s => .ok s
  | .integer n => .ok (toString n)
  | .real x => .ok (realText x)
  | .null => .error .constraint

/-- The value in a column that may be empty. -/
def optional {α : Type} (read : Cell → Except DatabaseFault α) : Cell →
    Except DatabaseFault (Option α)
  | .null => .ok none
  | cell => some <$> read cell

end Cell

end TickScheduler
