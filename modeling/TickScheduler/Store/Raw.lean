import TickScheduler.Store
import TickScheduler.Store.Cell
/-!
Direct access to the tables of a store, past the program: one column of one row is written, or a
whole table dropped. Columns are found by their names in any case, before any row is looked for, and
a value that would break a rule of the table is refused.
-/
namespace TickScheduler

/-- A change of one column of a row. -/
abbrev ColumnWrite (Row : Type) : Type := Cell → Row → Except DatabaseFault Row

/-- The names under which the number of a row can be reached in every table. -/
def rowNumberNames : List String := ["rowid", "oid", "_rowid_"]

/-- How a column is written, given its name in lower case. -/
def EntryRow.column? : String → Option (ColumnWrite EntryRow)
  | "name" => some fun cell row => return { row with name := ← cell.asText }
  | "action" => some fun cell row => return { row with action := ← cell.asText }
  | "priority" => some fun cell row => return { row with priority := ← cell.asInteger }
  | "start" => some fun cell row => return { row with start := ← cell.asInteger }
  | "stop" => some fun cell row => return { row with stop := ← cell.optional Cell.asInteger }
  | "interval" => some fun cell row => return { row with interval := ← cell.optional Cell.asInteger }
  | "is_active" => some fun cell row => return { row with activeFlag := ← cell.asInteger }
  | "callback_url" => some fun cell row =>
    return { row with callbackUrl := ← cell.optional Cell.asText }
  | "next_task_time" => some fun cell row => return { row with nextTaskTime := ← cell.asInteger }
  | "next_task_id" => some fun cell row => return { row with nextTaskId := ← cell.asInteger }
  | "owner" => some fun cell row => return { row with owner := ← cell.optional Cell.asText }
  | "created_at" => some fun cell row => return { row with createdAt := ← cell.asText }
  | "modified_at" => some fun cell row => return { row with modifiedAt := ← cell.asText }
  | _ => none

/-- How a column is written, given its name in lower case. -/
def ResultRow.column? : String → Option (ColumnWrite ResultRow)
  | "schedule_entry" => some fun cell row =>
    return { row with key := { row.key with entryName := ← cell.asText } }
  | "task_id" => some fun cell row =>
    return { row with key := { row.key with taskId := ← cell.asInteger } }
  | "started" => some fun cell row => return { row with started := ← cell.asText }
  | "finished" => some fun cell row => return { row with finished := ← cell.asText }
  | "duration" => some fun cell row => return { row with duration := ← cell.asReal }
  | "status" => some fun cell row => return { row with status := ← cell.asText }
  | "detail" => some fun cell row => return { row with detail := ← cell.asText }
  | _ => none

/-- The names of the column that holds the number of a result. -/
def ResultRow.numberNames : List String := "id" :: rowNumberNames

/-- Puts a changed row in the place of another one, unless a third has its key. -/
def Table.replace {Row Key : Type} [Ord Key] [Std.TransOrd Key] [Std.LawfulEqOrd Key]
    [DecidableEq Key] {key : Row → Key} (t : Table Row key) (old new : Row) :
    Except DatabaseFault (Table Row key) :=
  if key new ≠ key old ∧ t.contains (key new) then .error .constraint
  else .ok ((t.filter fun row => key row ≠ key old).put new)

namespace Store

/-- Writes one column of an entry. Returns how many rows that changed. The numbers of entries are not
kept, so writing one only takes a value that could be one. -/
def pokeEntry (s : Store) (name column : String) (cell : Cell) : Except Error (Nat × Store) := do
  let table ← s.entryTable
  let column := column.toLower
  let write : ColumnWrite EntryRow ←
    match EntryRow.column? column with
    | some write => pure write
    | none =>
      if rowNumberNames.contains column then pure fun cell row => cell.asInteger.map fun _ => row
      else throw (.database (.noColumn column))
  match table.find? name with
  | none => return (0, s)
  | some row =>
    let table ← (do table.replace row (← write cell row)).mapError .database
    return (1, { s with entries := some table })

/-- Gives a result another number, which no other result may have. -/
def renumberResult (s : Store) (key : ResultKey) (cell : Cell) : Except DatabaseFault Store := do
  let number ← cell.asInteger
  match s.resultNumbers.renumber? key number.toInt with
  | some resultNumbers => return { s with resultNumbers }
  | none => throw .constraint

/-- Changes a result, perhaps to one of another key, under which there must be none. -/
def replaceResult (s : Store) (table : Table ResultRow ResultRow.key) (old new : ResultRow) :
    Except DatabaseFault Store := do
  let table ← table.replace old new
  return { s with
    results := some table
    resultNumbers := s.resultNumbers.rekey old.key new.key }

/-- Writes one column of a result. Returns how many rows that changed. -/
def pokeResult (s : Store) (name : String) (taskId : TaskId) (column : String) (cell : Cell) :
    Except Error (Nat × Store) := do
  let table ← s.resultTable
  let column := column.toLower
  let change : ResultRow → Except DatabaseFault Store ←
    if ResultRow.numberNames.contains column then pure fun row => s.renumberResult row.key cell
    else
      match ResultRow.column? column with
      | some write => pure fun row => do s.replaceResult table row (← write cell row)
      | none => throw (.database (.noColumn column))
  match table.find? ⟨name, taskId⟩ with
  | none => return (0, s)
  | some row => return (1, ← (change row).mapError .database)

/-- Drops the table of entries. -/
def dropEntries (s : Store) : Except Error Store := do
  let _ ← s.entryTable
  return { s with entries := none }

/-- Drops the table of results. -/
def dropResults (s : Store) : Except Error Store := do
  let _ ← s.resultTable
  return { s with results := none, resultNumbers := {} }

end Store

end TickScheduler
