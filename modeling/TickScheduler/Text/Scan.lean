/-!
Scanners: readers that take characters off the front of a text, or fail. A scanner that fails has
taken nothing, so that another one can be tried in its place.
-/
namespace TickScheduler.Text

abbrev Scan (α : Type) : Type := StateT (List Char) Option α

namespace Scan

variable {α : Type}

/-- Takes nothing and never succeeds. -/
def fail : Scan α := fun _ => none

/-- The next character, which is left where it is. -/
def peek : Scan (Option Char) := fun cs => some (cs.head?, cs)

/-- Takes the next character. -/
def any : Scan Char
  | [] => none
  | c :: rest => some (c, rest)

/-- Takes the next character if it is of a kind. -/
def one (kind : Char → Bool) : Scan Char
  | [] => none
  | c :: rest => if kind c then some (c, rest) else none

/-- Takes a text that has to come next. -/
def literal (text : List Char) : Scan Unit := fun cs =>
  if text.isPrefixOf cs then some ((), cs.drop text.length) else none

/-- Takes a text if it comes next, and says whether it did. -/
def option (text : List Char) : Scan Bool := fun cs =>
  if text.isPrefixOf cs then some (true, cs.drop text.length) else some (false, cs)

/-- Takes characters of a kind as long as they come. -/
def run (kind : Char → Bool) : Scan (List Char) := fun cs =>
  some (cs.takeWhile kind, cs.dropWhile kind)

/-- Takes characters of a kind, of which there has to be at least one. -/
def run1 (kind : Char → Bool) : Scan (List Char) := do
  let first ← one kind
  return first :: (← run kind)

/-- Takes so many characters of a kind. -/
def exactly (kind : Char → Bool) : Nat → Scan (List Char)
  | 0 => return []
  | n + 1 => do
    let first ← one kind
    return first :: (← exactly kind n)

/-- Scans again and again until that fails. -/
def many (s : Scan α) : Scan (List α) := fun cs =>
  some (go cs.length cs)
where
  /-- At most so many rounds, which is enough if every round takes something. -/
  go : Nat → List Char → List α × List Char
    | 0, cs => ([], cs)
    | rounds + 1, cs =>
      match s cs with
      | none => ([], cs)
      | some (a, rest) =>
        let (as, rest) := go rounds rest
        (a :: as, rest)

/-- Scans if that works. -/
def attempt (s : Scan α) : Scan (Option α) := fun cs =>
  match s cs with
  | some (a, rest) => some (some a, rest)
  | none => some (none, cs)

/-- Any number of things with separators between them. -/
def separated (item : Scan α) (separator : Scan Unit) : Scan (List α) := do
  match ← attempt item with
  | none => return []
  | some first => return first :: (← many (do separator; item))

/-- Requires that nothing is left. -/
def done : Scan Unit
  | [] => some ((), [])
  | _ :: _ => none

/-- What a scanner makes of a whole text. -/
def readAll (s : Scan α) (text : List Char) : Option α :=
  ((do let a ← s; done; return a : Scan α) text).map Prod.fst

end Scan

end TickScheduler.Text
