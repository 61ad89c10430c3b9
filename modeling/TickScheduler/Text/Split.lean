/-!
Splitting a text at every separator. The parts may be empty, and there is always at least one.
-/
namespace TickScheduler.Text

/-- The parts of a text between separators. -/
def split (separator : Char) : List Char → List (List Char)
  | [] => [[]]
  | c :: rest =>
    if c = separator then [] :: split separator rest
    else
      match split separator rest with
      | part :: parts => (c :: part) :: parts
      | [] => [[c]]

theorem split_ne_nil (separator : Char) (cs : List Char) : split separator cs ≠ [] := by
  cases cs with
  | nil => simp [split]
  | cons c rest =>
    unfold split
    split
    · simp
    · split <;> simp

theorem length_split (separator : Char) (cs : List Char) :
    (split separator cs).length = cs.count separator + 1 := by
  induction cs with
  | nil => rfl
  | cons c rest ih =>
    unfold split
    split
    · rename_i same
      simp [ih, same]
    · rename_i other
      rw [List.count_cons_of_ne other]
      split
      · rename_i parts
        simp_all
      · exact absurd (by assumption) (split_ne_nil separator rest)

end TickScheduler.Text
