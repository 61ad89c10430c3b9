import TickScheduler.Config.Value
/-!
The tree that a TOML document builds. A table may be written in parts, but each part only once and
only in one way: so the tree remembers of every table how it came to be, until the document has been
read to its end.
-/
namespace TickScheduler.Toml

/-- How a table came to be. -/
inductive Origin where
  /-- By a header or braces of its own. -/
  | written
  /-- By the header of a table below it. A header of its own may follow. -/
  | implied
  /-- By a key with dots. More such keys may follow. -/
  | dotted
deriving DecidableEq, Repr

inductive Node where
  | value (v : ConfigValue)
  | table (origin : Origin) (members : List (String × Node))
  /-- Tables that were written one after the other under one name, the latest first. -/
  | tables (items : List (List (String × Node)))

/-- The members of a table. No key is repeated. -/
abbrev Members : Type := List (String × Node)

/-- A key with dots: the keys of the tables on the way, and the last one. -/
structure Key where
  path : List String
  last : String
deriving DecidableEq, Repr

namespace Key

def ofParts (first : String) : List String → Key
  | [] => ⟨[], first⟩
  | second :: rest =>
    let key := ofParts second rest
    ⟨first :: key.path, key.last⟩

def partCount (k : Key) : Nat :=
  k.path.length + 1

end Key

namespace Members

/-- Changes what is under a key, or puts something there. -/
def alter (key : String) (change : Option Node → Option Node) : Members → Option Members
  | [] => do return [(key, ← change none)]
  | (other, node) :: rest =>
    if other = key then do return (key, ← change (some node)) :: rest
    else do return (other, node) :: (← alter key change rest)

/-- A node in a place that is free. -/
def ifFree (node : Node) : Option Node → Option Node
  | none => some node
  | some _ => none

/-- Adds a value under a key with dots. The tables on the way must not have been written otherwise,
but for the latest of several, below which such a table may be. -/
def add (value : ConfigValue) (last : String) : (path : List String) → Members → Option Members
  | [], members => members.alter last (ifFree (.value value))
  | key :: path, members => members.alter key fun
    | none => do return .table .dotted (← add value last path [])
    | some (.table .dotted inner) => do return .table .dotted (← add value last path inner)
    | some (.table .implied inner) =>
      if path.isEmpty then none
      else do return .table .implied (← add value last path inner)
    | some (.tables (latest :: earlier)) =>
      if path.isEmpty then none
      else do return .tables ((← add value last path latest) :: earlier)
    | some (.table .written _) | some (.tables []) | some (.value _) => none

/-- Adds values under their keys. -/
def addAll (members : Members) (entries : List (Key × ConfigValue)) : Option Members :=
  entries.foldlM (fun members (key, value) => members.add value key.last key.path) members

/-- Changes what a header names. Tables on the way are implied; of several the latest is meant. -/
def alterBelow (last : String) (change : Option Node → Option Node) :
    (path : List String) → Members → Option Members
  | [], members => members.alter last change
  | key :: path, members => members.alter key fun
    | none => do return .table .implied (← alterBelow last change path [])
    | some (.table origin inner) => do
      return .table origin (← alterBelow last change path inner)
    | some (.tables (latest :: earlier)) => do
      return .tables ((← alterBelow last change path latest) :: earlier)
    | some (.tables []) | some (.value _) => none

/-- The table under a header, with its values added. Only a table that is implied may be there. -/
def writeTable (entries : List (Key × ConfigValue)) : Option Node → Option Node
  | none => do return .table .written (← addAll [] entries)
  | some (.table .implied members) => do return .table .written (← addAll members entries)
  | some _ => none

/-- One more of several tables, with its values. -/
def writeItem (entries : List (Key × ConfigValue)) : Option Node → Option Node
  | none => do return .tables [← addAll [] entries]
  | some (.tables items) => do return .tables ((← addAll [] entries) :: items)
  | some _ => none

end Members

mutual

/-- What a node says, however it came to be. -/
def Node.toValue : Node → ConfigValue
  | .value v => v
  | .table _ members => .table (memberValues members)
  | .tables items => .list (itemValues items).reverse

def memberValues : List (String × Node) → List (String × ConfigValue)
  | [] => []
  | (key, node) :: rest => (key, node.toValue) :: memberValues rest

def itemValues : List (List (String × Node)) → List ConfigValue
  | [] => []
  | members :: rest => .table (memberValues members) :: itemValues rest

end

end TickScheduler.Toml
