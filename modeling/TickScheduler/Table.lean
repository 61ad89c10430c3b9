/-!
Tables: rows kept in the order of their keys, no two of one key. A table is determined by which row
it holds under which key (`Table.find?`), whatever the order of the writes.
-/
namespace TickScheduler

structure Table (Row : Type) {Key : Type} [Ord Key] (key : Row → Key) where
  rows : List Row
  sorted : rows.Pairwise fun a b => compare (key a) (key b) = .lt

namespace Table

variable {Row Key : Type} [Ord Key] {key : Row → Key}

def empty : Table Row key := ⟨[], .nil⟩

instance : Inhabited (Table Row key) := ⟨empty⟩

instance [Repr Row] : Repr (Table Row key) := ⟨fun t n => reprPrec t.rows n⟩

/-- The row of a key. -/
def find? [DecidableEq Key] (t : Table Row key) (k : Key) : Option Row :=
  t.rows.find? fun row => key row = k

def contains [DecidableEq Key] (t : Table Row key) (k : Key) : Bool :=
  (t.find? k).isSome

/-- Keeps the rows that pass a test. -/
def filter (t : Table Row key) (keep : Row → Bool) : Table Row key :=
  ⟨t.rows.filter keep, t.sorted.sublist List.filter_sublist⟩

/-- Changes every row in a way that leaves its key alone. -/
def map (t : Table Row key) (change : Row → Row) (same : ∀ row, key (change row) = key row) :
    Table Row key :=
  ⟨t.rows.map change, by
    rw [List.pairwise_map]
    simpa only [same] using t.sorted⟩

/-- Changes the row of one key, if there is one, in a way that leaves the key alone. -/
def modify [DecidableEq Key] (t : Table Row key) (k : Key) (change : Row → Row)
    (same : ∀ row, key (change row) = key row) : Table Row key :=
  t.map (fun row => if key row = k then change row else row) fun row => by
    split
    · exact same row
    · rfl

/-- Puts a row in its place, over the row of the same key if there is one. -/
def putSorted (key : Row → Key) (row : Row) : List Row → List Row
  | [] => [row]
  | head :: rest =>
    match compare (key row) (key head) with
    | .lt => row :: head :: rest
    | .eq => row :: rest
    | .gt => head :: putSorted key row rest

theorem mem_of_mem_putSorted {row other : Row} {rows : List Row}
    (h : other ∈ putSorted key row rows) : other = row ∨ other ∈ rows := by
  induction rows with
  | nil => simpa [putSorted] using h
  | cons head rest ih =>
    unfold putSorted at h
    split at h <;> simp only [List.mem_cons] at h ⊢ <;> grind

variable [Std.TransOrd Key] [Std.LawfulEqOrd Key]

theorem pairwise_putSorted {row : Row} {rows : List Row}
    (h : rows.Pairwise fun a b => compare (key a) (key b) = .lt) :
    (putSorted key row rows).Pairwise fun a b => compare (key a) (key b) = .lt := by
  induction rows with
  | nil => simp [putSorted]
  | cons head rest ih =>
    obtain ⟨first, tail⟩ := List.pairwise_cons.mp h
    unfold putSorted
    split
    · rename_i before
      refine List.pairwise_cons.mpr ⟨fun other member => ?_, h⟩
      rcases List.mem_cons.mp member with rfl | member
      · exact before
      · exact Std.TransCmp.lt_trans before (first other member)
    · rename_i same
      rw [List.pairwise_cons, Std.LawfulEqCmp.eq_of_compare same]
      exact ⟨first, tail⟩
    · rename_i after
      refine List.pairwise_cons.mpr ⟨fun other member => ?_, ih tail⟩
      rcases mem_of_mem_putSorted member with rfl | member
      · exact Std.OrientedCmp.lt_of_gt after
      · exact first other member

/-- Adds a row, over the row of the same key if there is one. -/
def put (t : Table Row key) (row : Row) : Table Row key :=
  ⟨putSorted key row t.rows, pairwise_putSorted t.sorted⟩

end Table

end TickScheduler
