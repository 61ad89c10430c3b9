import TickScheduler.Decimal.Shortest
/-!
Floating-point numbers rounded to a fixed count of significant digits. A half goes up, away from
zero.
-/
namespace TickScheduler.Decimal

/-- The integer nearest to a fraction, the greater one of two. -/
def nearestInteger (numerator denominator : Nat) : Nat :=
  (2 * numerator + denominator) / (2 * denominator)

/-- The nearest integer is at most a half away. -/
theorem nearestInteger_close (numerator : Nat) {denominator : Nat} (h : 0 < denominator) :
    2 * nearestInteger numerator denominator * denominator ≤ 2 * numerator + denominator ∧
      2 * numerator < (2 * nearestInteger numerator denominator + 1) * denominator := by
  have low := Nat.div_mul_le_self (2 * numerator + denominator) (2 * denominator)
  have high := Nat.lt_div_mul_add (a := 2 * numerator + denominator) (b := 2 * denominator)
    (by omega)
  unfold nearestInteger
  constructor <;> grind

/-- The value of an interval with so many significant digits. Rounding up may give it one digit more,
which is then a zero at the end. -/
def Interval.rounded (i : Interval) (digits : Nat) : Scaled :=
  let unit := i.magnitude - digits
  let scaled := i.inUnits unit
  ⟨nearestInteger scaled.value scaled.denominator, unit⟩

example : nearestInteger 25 10 = 3 := by decide
example : ((Interval.ofBits 0x3ff8000000000000).rounded 3).digits = 150 := by decide +kernel

end TickScheduler.Decimal
