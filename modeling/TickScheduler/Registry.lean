/-!
The registry: the names under which actions can be called. It is a set, listed in order.
-/
namespace TickScheduler

structure Registry where
  names : List String
deriving DecidableEq, Repr

namespace Registry

/-- The action that is always provided: it does nothing but return. -/
def loggerName : String := "logger"

def empty : Registry := ⟨[]⟩

/-- Puts a name in its place unless it is there. -/
def insertName (name : String) : List String → List String
  | [] => [name]
  | head :: rest =>
    if name < head then name :: head :: rest
    else if name = head then head :: rest
    else head :: insertName name rest

/-- Adds a name, or replaces the action of that name. -/
def register (r : Registry) (name : String) : Registry :=
  ⟨insertName name r.names⟩

def ofNames (names : List String) : Registry :=
  names.foldl register empty

/-- What is provided without further ado. -/
def builtin : Registry := ofNames [loggerName]

def contains (r : Registry) (name : String) : Bool :=
  r.names.contains name

end Registry

end TickScheduler
