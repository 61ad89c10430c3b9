import TickScheduler.Text.Digits
/-!
Integers as whole texts: decimal digits behind an optional sign. Leading zeros do not matter.
-/
namespace TickScheduler.Text

/-- The number of at least one digit. -/
def unsigned? (digits : List Char) : Option Nat :=
  if !digits.isEmpty && digits.all Char.isDigit then some (Digits.value digits) else none

/-- A number without a minus. -/
def natural? : List Char → Option Nat
  | '+' :: digits => unsigned? digits
  | digits => unsigned? digits

/-- A number with either sign or none. -/
def integer? : List Char → Option Int
  | '-' :: digits => (unsigned? digits).map fun n => -n
  | word => (natural? word).map fun n => n

end TickScheduler.Text
