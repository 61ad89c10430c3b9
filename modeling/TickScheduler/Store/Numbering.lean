/-!
The numbers of the rows of a table. Every row has a number of its own, which it keeps until it is gone
or is given another one by hand; a new row gets a number above all that are in use or were given to new
rows before. Numbers are no part of the rows: no answer of the store depends on them.
-/
namespace TickScheduler

structure Numbering (Key : Type) where
  /-- The rows by their keys, with their numbers. -/
  numbers : List (Key × Int) := []
  /-- The greatest number that a new row was given. -/
  last : Int := 0
deriving DecidableEq, Repr

namespace Numbering

variable {Key : Type}

/-- The greatest of the numbers in a list and one more. -/
def greatest (last : Int) : List (Key × Int) → Int
  | [] => last
  | (_, number) :: rest => max number (greatest last rest)

/-- The number of the next new row. -/
def next (n : Numbering Key) : Int :=
  greatest n.last n.numbers + 1

theorem le_greatest {last number : Int} {key : Key} {numbers : List (Key × Int)}
    (h : (key, number) ∈ numbers) : number ≤ greatest last numbers := by
  induction numbers with
  | nil => simp at h
  | cons head rest ih =>
    rcases List.mem_cons.mp h with rfl | h
    · exact Int.le_max_left _ _
    · exact Int.le_trans (ih h) (Int.le_max_right _ _)

/-- No row has the number of the next new row. -/
theorem lt_next {n : Numbering Key} {key : Key} {number : Int} (h : (key, number) ∈ n.numbers) :
    number < n.next :=
  Int.lt_add_one_of_le (le_greatest h)

/-- Keeps the numbers of those rows. -/
def restrict (n : Numbering Key) (isKept : Key → Bool) : Numbering Key :=
  { n with numbers := n.numbers.filter fun (key, _) => isKept key }

variable [DecidableEq Key]

/-- The number of a row. -/
def find? (n : Numbering Key) (key : Key) : Option Int :=
  n.numbers.lookup key

/-- Takes the next number for a row; a row that has one keeps it all the same. -/
def give (n : Numbering Key) (key : Key) : Numbering Key where
  numbers := if (n.find? key).isSome then n.numbers else (key, n.next) :: n.numbers
  last := n.next

/-- The numbers after a row has changed its key. -/
def rekey (n : Numbering Key) (old new : Key) : Numbering Key :=
  { n with numbers := n.numbers.map fun (key, number) => (if key = old then new else key, number) }

/-- Gives a row another number, unless another row has it. -/
def renumber? (n : Numbering Key) (key : Key) (number : Int) : Option (Numbering Key) :=
  if n.numbers.any fun (other, taken) => other ≠ key && taken = number then none
  else some { n with
    numbers := n.numbers.map fun (other, old) => (other, if other = key then number else old) }

theorem find?_give (n : Numbering Key) (key : Key) : ((n.give key).find? key).isSome = true := by
  unfold give find?
  dsimp only
  split
  · assumption
  · simp

end Numbering

end TickScheduler
