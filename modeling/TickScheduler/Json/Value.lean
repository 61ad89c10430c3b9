import TickScheduler.Text.Digits
/-!
JSON values. Numbers are kept as they are written, because whether one is acceptable can depend on
that; objects keep all their members in order, repeated keys included. An escape sequence may name
half of a surrogate pair: a string that holds such a half is no text, but still a JSON string.
-/
namespace TickScheduler

/-- A number as it is written. -/
structure Numeral where
  negative : Bool
  whole : List Char
  /-- The digits after the point; none if there is no point. -/
  fraction : List Char := []
  /-- The sign and the digits of the exponent. -/
  exponent : Option (Bool × List Char) := none
deriving DecidableEq, Repr

inductive Json where
  | null
  | bool (b : Bool)
  | number (n : Numeral)
  | string (s : String)
  /-- A string that is no text. -/
  | brokenString
  | array (items : List Json)
  /-- A key is `none` if it is no text. -/
  | object (members : List (Option String × Json))
deriving Inhabited

namespace Numeral

def ofInt (n : Int) : Numeral where
  negative := n < 0
  whole := Nat.toDigits 10 n.natAbs

/-- The integer that is written without fraction and exponent. A negative zero is none. -/
def toInt? (n : Numeral) : Option Int :=
  let magnitude := Digits.value n.whole
  if n.fraction.isEmpty && n.exponent.isNone && !(n.negative && magnitude == 0) then
    some (if n.negative then -magnitude else magnitude)
  else none

/-- A power of ten, rounded. -/
def powerOfTen (n : Nat) : Float :=
  Float.ofScientific 1 false n

/-- `x / 10^n` by one division, after as many divisions by 10³⁰⁸ as it takes to bring `n` into the
range of the powers of ten. -/
def divideByPower (x : Float) (n : Nat) : Float :=
  if 308 < n then
    if x == 0 then x else divideByPower (x / powerOfTen 308) (n - 308)
  else x / powerOfTen n
termination_by n
decreasing_by omega

/-- `x · 10^exponent` by one multiplication or by divisions. A result that is too large is none. -/
def scale (x : Float) (exponent : Int) : Option Float :=
  if exponent < 0 then some (divideByPower x exponent.natAbs)
  else if 308 < exponent then if x == 0 then some x else none
  else
    let product := x * powerOfTen exponent.toNat
    if product.isInf then none else some product

/-- The leading digits of a number as far as they fit 64 bits, and the digits that are left. -/
def leading (m : Nat) : List Char → Nat × List Char
  | [] => (m, [])
  | c :: rest =>
    let next := 10 * m + Digits.digitValue c
    if next < UInt64.size then leading next rest else (m, c :: rest)

/-- The exponent that is written, or by its sign alone if it does not fit 31 bits. -/
def writtenExponent (n : Numeral) : Int ⊕ Bool :=
  match n.exponent with
  | none => .inl 0
  | some (negative, digits) =>
    let value := Digits.value digits
    if value < 0x80000000 then .inl (if negative then -value else value) else .inr negative

/-- The floating-point number that is read from a numeral: the leading digits that fit 64 bits are the
mantissa, and whatever comes after them only moves the point. Too large a number is none. -/
def toFloat? (n : Numeral) : Option Float :=
  let (m, restOfWhole) := leading 0 n.whole
  let (m, droppedFraction) :=
    if restOfWhole.isEmpty then leading m n.fraction
    else
      match n.fraction with
      | [] => (m, [])
      | c :: rest => if 10 * m + Digits.digitValue c < UInt64.size then leading m (c :: rest)
        else (m, c :: rest)
  let shift : Int := restOfWhole.length - (n.fraction.length - droppedFraction.length : Nat)
  let magnitude :=
    match n.writtenExponent with
    | .inl e => scale m.toUInt64.toFloat (shift + e)
    | .inr negative => if m = 0 || negative then some 0 else none
  magnitude.map fun x => if n.negative then -x else x

end Numeral

namespace Json

def int (n : Int) : Json := .number (.ofInt n)

def nat (n : Nat) : Json := .number (.ofInt n)

/-- An object with these members. -/
def record (members : List (String × Json)) : Json :=
  .object (members.map fun (key, value) => (some key, value))

/-- A value that may be missing. -/
def optional {α : Type} (toJson : α → Json) : Option α → Json
  | none => .null
  | some a => toJson a

end Json

end TickScheduler
