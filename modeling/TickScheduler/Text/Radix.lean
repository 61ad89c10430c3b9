/-!
Digits in bases up to sixteen, letters in either case.
-/
namespace TickScheduler.Radix

/-- The value of a digit, whatever the base. -/
def anyDigit? (c : Char) : Option Nat :=
  if c.isDigit then some (c.toNat - '0'.toNat)
  else if 'a' ≤ c && c ≤ 'f' then some (c.toNat - 'a'.toNat + 10)
  else if 'A' ≤ c && c ≤ 'F' then some (c.toNat - 'A'.toNat + 10)
  else none

/-- The value of a digit of this base. -/
def digit? (base : Nat) (c : Char) : Option Nat :=
  (anyDigit? c).filter (· < base)

def isDigit (base : Nat) (c : Char) : Bool :=
  (digit? base c).isSome

/-- The number that digits write in this base; what is no digit counts as zero. -/
def value (base : Nat) (digits : List Char) : Nat :=
  digits.foldl (fun n c => base * n + (digit? base c).getD 0) 0

/-- The number that digits write, if all of them are digits of this base. -/
def value? (base : Nat) (digits : List Char) : Option Nat :=
  if digits.all (isDigit base) then some (value base digits) else none

end TickScheduler.Radix
