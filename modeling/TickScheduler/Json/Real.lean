import TickScheduler.Decimal.Shortest
import TickScheduler.Json.Value
/-!
Floating-point numbers as JSON numbers, with the fewest digits that read back. Up to sixteen digits
stand before the point and up to four zeros behind it; beyond that there is an exponent. A whole number
has a zero behind its point, so that it cannot be taken for an integer.
-/
namespace TickScheduler

namespace Numeral

/-- The digits before and behind the point, and the exponent, of `digits · 10^exponent`. -/
def layOut (negative : Bool) (digits : List Char) (exponent : Int) : Numeral :=
  let point := digits.length + exponent
  let zeros (n : Nat) : List Char := List.replicate n '0'
  if 0 ≤ exponent ∧ point ≤ 16 then ⟨negative, digits ++ zeros exponent.toNat, ['0'], none⟩
  else if 0 < point ∧ point ≤ 16 then
    ⟨negative, digits.take point.toNat, digits.drop point.toNat, none⟩
  else if -5 < point ∧ point ≤ 0 then ⟨negative, ['0'], zeros (-point).toNat ++ digits, none⟩
  else
    ⟨negative, digits.take 1, digits.drop 1,
      some (point - 1 < 0, Nat.toDigits 10 (point - 1).natAbs)⟩

/-- The numeral of a finite number. -/
def ofFloat (x : Float) : Numeral :=
  let negative := x.toBits >>> 63 == 1
  if x == 0 then ⟨negative, ['0'], ['0'], none⟩
  else
    let d := (Decimal.Interval.ofBits x.toBits).shortest.trim 17
    layOut negative (Nat.toDigits 10 d.digits) d.exponent

end Numeral

/-- A floating-point number; null if it is not finite. -/
def Json.real (x : Float) : Json :=
  if x.isFinite then .number (.ofFloat x) else .null

end TickScheduler
