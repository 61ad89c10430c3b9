import TickScheduler.Tick
/-!
Records in a data format: a value with a fixed list of fields, written either with named members or
as its items in the order of the fields. A field can be required, optional or have a default; which
of them may be left out depends on the way in which the record is written. Integers have to be
written as such and to fit.
-/
namespace TickScheduler.Record

/-- What stands for one field. -/
inductive Slot (Value : Type) where
  | given (value : Value)
  /-- No member has the name of the field. -/
  | missing
  /-- The items end before the field. -/
  | cutOff
deriving Repr

namespace Slot

variable {Value α : Type}

/-- A field that has to be there. -/
def required (read : Value → Option α) : Slot Value → Option α
  | .given value => read value
  | .missing | .cutOff => none

/-- A field that may have no member, but needs its item. -/
def optional (read : Value → Option (Option α)) : Slot Value → Option (Option α)
  | .given value => read value
  | .missing => some none
  | .cutOff => none

/-- A field that may be left out in either way. -/
def withDefault (default : α) (read : Value → Option α) : Slot Value → Option α
  | .given value => read value
  | .missing | .cutOff => some default

end Slot

variable {Value : Type}

/-- The slots of named members. Other members do not matter, but a field must not be repeated, and
every key has to be a text. -/
def ofMembers (fields : List String) (members : List (Option String × Value)) :
    Option (List (Slot Value)) :=
  if members.any fun (key, _) => key.isNone then none
  else fields.mapM fun field =>
    match members.filter fun (key, _) => key == some field with
    | [] => some .missing
    | [(_, value)] => some (.given value)
    | _ => none

/-- The slots of items, each item standing for the field in its place. -/
def ofItems : (fields : List String) → List Value → List (Slot Value)
  | [], _ => []
  | _ :: fields, [] => .cutOff :: ofItems fields []
  | _ :: fields, item :: items => .given item :: ofItems fields items

/-- What has to be known of the values of a data format to read records from them. -/
class Format (Value : Type) where
  /-- The slots of a record with these fields. -/
  slots : List String → Value → Option (List (Slot Value))
  toBool? : Value → Option Bool
  toText? : Value → Option String
  toInt? : Value → Option Int
  /-- Whether the value says that there is none. -/
  isNull : Value → Bool

variable [Format Value]

/-- An integer between two bounds. -/
def toIntWithin? (low high : Int) (v : Value) : Option Int :=
  (Format.toInt? v).filter fun i => low ≤ i && i ≤ high

def toTick? (v : Value) : Option Tick :=
  (Format.toInt? v).bind Tick.ofInt?

def toPriority? (v : Value) : Option Int32 :=
  (toIntWithin? Int32.minValue.toInt Int32.maxValue.toInt v).map Int32.ofInt

/-- A count below a bound. -/
def toCount? (size : Nat) (v : Value) : Option Nat :=
  (toIntWithin? 0 (size - 1) v).map Int.toNat

/-- A value that may be null. -/
def orNull {α : Type} (read : Value → Option α) (v : Value) : Option (Option α) :=
  if Format.isNull v then some none else (read v).map some

end TickScheduler.Record
