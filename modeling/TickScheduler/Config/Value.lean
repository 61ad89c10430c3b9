import TickScheduler.Record
/-!
Configuration values: what a configuration file or an environment variable says. No setting is a
floating-point number or a date, so the former are not kept and the latter are tables without members
that anyone asks for.
-/
namespace TickScheduler

inductive ConfigValue where
  | bool (b : Bool)
  | integer (i : Int)
  | float
  | text (s : String)
  | list (items : List ConfigValue)
  /-- No key is repeated. -/
  | table (members : List (String × ConfigValue))
deriving Inhabited

namespace ConfigValue

/-- A date or a time of day, which holds no settings. -/
def moment : ConfigValue := .table []

/-- Puts a value under a key, in the place of one that is there. -/
def putMember (key : String) (value : ConfigValue) :
    List (String × ConfigValue) → List (String × ConfigValue)
  | [] => [(key, value)]
  | (other, old) :: rest =>
    if other = key then (key, value) :: rest else (other, old) :: putMember key value rest

/-- The table with these members, of which a later one replaces an earlier one of the same key. -/
def ofMembers (members : List (String × ConfigValue)) : ConfigValue :=
  .table (members.foldl (fun table (key, value) => putMember key value table) [])

mutual

/-- A value with another one laid over it. Of two tables the members are laid over each other;
anything else is covered. -/
def overlay (base : ConfigValue) : ConfigValue → ConfigValue
  | .table members =>
    match base with
    | .table old => .table (overlayMembers old members)
    | _ => .table members
  | value => value

def overlayMembers (old : List (String × ConfigValue)) :
    List (String × ConfigValue) → List (String × ConfigValue)
  | [] => old
  | (key, value) :: rest =>
    overlayMembers (putMember key ((old.lookup key).elim value fun base => overlay base value) old) rest

end

/-- A value below the keys of a path. -/
def nest : List String → ConfigValue → ConfigValue
  | [], value => value
  | key :: path, value => .table [(key, nest path value)]

/-- Tables are records with named members. Lists are records too: they may end early, and items
beyond the fields do not matter. -/
instance : Record.Format ConfigValue where
  slots fields
    | .table members => Record.ofMembers fields (members.map fun (key, value) => (some key, value))
    | .list items => some (Record.ofItems fields items)
    | _ => none
  toBool?
    | .bool b => some b
    | _ => none
  toText?
    | .text s => some s
    | _ => none
  toInt?
    | .integer i => some i
    | _ => none
  isNull _ := false

end ConfigValue

end TickScheduler
