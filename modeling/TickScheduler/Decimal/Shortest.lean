/-!
The shortest decimal number that is rounded to a given floating-point number. All real numbers that
are rounded to it make an interval, and the search looks for the coarsest decimal grid with a point in
that interval. What is found lies in the interval by construction; that seventeen digits are always
enough is known, but not shown here.
-/
namespace TickScheduler.Decimal

/-- The numbers that are rounded to one floating-point number, as fractions of one denominator. -/
structure Interval where
  low : Nat
  /-- The floating-point number itself. -/
  value : Nat
  high : Nat
  denominator : Nat
  /-- Whether the two ends belong to the interval. -/
  isClosed : Bool
deriving DecidableEq, Repr

/-- A decimal number: `digits · 10^exponent`. -/
structure Scaled where
  digits : Nat
  exponent : Int
deriving DecidableEq, Repr

namespace Interval

/-- The interval of a positive finite number of 64 bits. Its ends are halfway to the two neighbours, of
which the lower one is nearer at a power of two; they are rounded to the even one of two neighbours. -/
def ofBits (bits : UInt64) : Interval :=
  let biased : Nat := (bits >>> 52 &&& 0x7ff).toNat
  let fraction : Nat := (bits &&& 0xfffffffffffff).toNat
  let mantissa := if biased = 0 then fraction else 0x10000000000000 + fraction
  let exponent : Int := (if biased = 0 then 1 else biased : Nat) - 1077
  let isPower := fraction = 0 ∧ 1 < biased
  let scale := 1 <<< exponent.toNat
  { low := (4 * mantissa - if isPower then 1 else 2) * scale
    value := 4 * mantissa * scale
    high := (4 * mantissa + 2) * scale
    denominator := 1 <<< (-exponent).toNat
    isClosed := mantissa % 2 = 0 }

/-- The interval in units of a power of ten. -/
def inUnits (i : Interval) (unit : Int) : Interval :=
  let factor := Nat.pow 10 (-unit).toNat
  { i with
    low := i.low * factor
    value := i.value * factor
    high := i.high * factor
    denominator := i.denominator * Nat.pow 10 unit.toNat }

/-- Whether the interval holds an integer. -/
def holds (i : Interval) (n : Nat) : Bool :=
  let n := n * i.denominator
  if i.isClosed then i.low ≤ n && n ≤ i.high else i.low < n && n < i.high

/-- The integer in the interval that is nearest to the value, the even one of two. Only the two integers
around the value are looked at: if any lies in the interval, one of them does. -/
def integer? (i : Interval) : Option Nat :=
  let below := i.value / i.denominator
  let above := below + 1
  let isLow := i.holds below
  let isHigh := i.holds above
  let middle := (below + above) * i.denominator
  if isLow && isHigh then
    if 2 * i.value < middle || 2 * i.value = middle && below % 2 = 0 then some below else some above
  else if isLow then some below
  else if isHigh then some above
  else none

/-- More zeros than a floating-point number of 64 bits has behind its point. -/
def places : Nat := 400

/-- How many digits the value has before its point, or minus the zeros behind it. -/
def magnitude (i : Interval) : Int :=
  (Nat.toDigits 10 (i.value * Nat.pow 10 places / i.denominator)).length - places

/-- The point of the coarsest grid that has one in the interval, among the grids that have a point with
up to seventeen digits; failing that, a value with that many digits. -/
def shortest (i : Interval) : Scaled :=
  let units := (List.range 17).map fun n => i.magnitude - (n + 1 : Nat)
  let found := units.findSome? fun unit => ((i.inUnits unit).integer?).map fun n => ⟨n, unit⟩
  let last := i.magnitude - 17
  found.getD ⟨(i.inUnits last).value / (i.inUnits last).denominator, last⟩

end Interval

/-- The same number without zeros at the end, of which at most so many are taken off. -/
def Scaled.trim : (zeros : Nat) → Scaled → Scaled
  | 0, d => d
  | zeros + 1, d => if d.digits % 10 = 0 then trim zeros ⟨d.digits / 10, d.exponent + 1⟩ else d

end TickScheduler.Decimal
