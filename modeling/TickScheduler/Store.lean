import TickScheduler.Store.Numbering
import TickScheduler.Store.Row
import TickScheduler.Table
/-!
The store: a table of entries and a table of results. Every operation is atomic and reports an error
only before it has changed anything. The operations that the scheduling loop needs come first; the
others manage the entries.
-/
namespace TickScheduler

structure Store where
  /-- `none` once the table is gone. -/
  entries : Option (Table EntryRow EntryRow.name)
  /-- `none` once the table is gone. -/
  results : Option (Table ResultRow ResultRow.key)
  /-- The numbers of the results. -/
  resultNumbers : Numbering ResultKey := {}

namespace Store

def empty : Store where
  entries := some .empty
  results := some .empty

instance : Inhabited Store := ⟨empty⟩

def entryTableName : String := "schedule_entries"
def resultTableName : String := "task_results"

def entryTable (s : Store) : Except Error (Table EntryRow EntryRow.name) :=
  match s.entries with
  | some table => .ok table
  | none => .error (.database (.noTable entryTableName))

def resultTable (s : Store) : Except Error (Table ResultRow ResultRow.key) :=
  match s.results with
  | some table => .ok table
  | none => .error (.database (.noTable resultTableName))

/-- The row of an entry that has to exist. -/
def entryRow (s : Store) (name : String) : Except Error EntryRow := do
  let table ← s.entryTable
  match table.find? name with
  | some row => return row
  | none => throw (.entryNotFound name)

/-- All entries that are active, by name. -/
def activeEntries (s : Store) : Except Error (List Entry) := do
  let table ← s.entryTable
  (table.rows.filter (·.activeFlag == 1)).mapM EntryRow.read

def getEntry (s : Store) (name : String) : Except Error Entry := do
  let row ← s.entryRow name
  row.read

/-- Stores the cursor of an entry, as far as the stored version allows. An entry that is gone stays
gone. -/
def saveCursor (s : Store) (e : Entry) : Except Error Store := do
  let table ← s.entryTable
  return { s with
    entries := some (table.modify e.name (·.withCursor e) fun row => row.name_withCursor e) }

/-- Takes an entry out of the schedule. -/
def deactivate (s : Store) (name modifiedAt : String) : Except Error Store := do
  let table ← s.entryTable
  let _ ← s.entryRow name
  return { s with
    entries := some (table.modify name (·.deactivated modifiedAt) fun _ => rfl) }

/-- The first rows of a list; a limit that does not fit 63 bits is none. -/
def limitRows {α : Type} (limit : Nat) (rows : List α) : List α :=
  if limit < 0x8000000000000000 then rows.take limit else rows

/-- The results of one entry, newest first. -/
def resultsOf (table : Table ResultRow ResultRow.key) (name : String) : List ResultRow :=
  (table.rows.filter (·.key.entryName == name)).reverse

/-- Drops all but the newest results of one entry. -/
def prune (table : Table ResultRow ResultRow.key) (name : String) (keep : Nat) :
    Table ResultRow ResultRow.key :=
  let kept := (limitRows keep (resultsOf table name)).map (·.key.taskId)
  table.filter fun row => row.key.entryName != name || kept.contains row.key.taskId

/-- Stores a result over one of the same task, and drops all but the newest `keep` of its entry. -/
def recordResult (s : Store) (r : TaskResult) (keep : Nat) : Except Error Store := do
  let table ← s.resultTable
  let table := prune (table.put (.ofResult r)) r.entryName keep
  return { s with
    results := some table
    resultNumbers := (s.resultNumbers.give ⟨r.entryName, r.taskId⟩).restrict table.contains }

/-- The highest id that an entry has a result for. -/
def lastTaskId (s : Store) (name : String) : Except Error (Option TaskId) := do
  let table ← s.resultTable
  return ((resultsOf table name).map (·.key.taskId)).head?

/-- Adds an entry under a name that is not taken. -/
def insertEntry (s : Store) (e : Entry) : Except Error Store := do
  let table ← s.entryTable
  if table.contains e.name then throw (.entryExists e.name)
  else return { s with entries := some (table.put (.ofEntry e)) }

/-- Writes an updated entry over the stored one; nothing happens if that is gone. -/
def writeUpdate (s : Store) (e : Entry) : Except Error Store := do
  let table ← s.entryTable
  return { s with entries := some (table.modify e.name (·.withUpdate e) fun _ => rfl) }

/-- Changes the configuration of a stored entry: its timing is checked, the entry is read, updated
and written back. -/
def updateEntry (s : Store) (updated : Entry) (now : Tick) (modifiedAt : String) :
    Except Failure (Entry × Store) := do
  Entry.checkTiming updated.start updated.stop updated.interval
  let stored ← (s.getEntry updated.name).mapError .error
  let entry ← stored.applyUpdate updated now modifiedAt
  let s ← (s.writeUpdate entry).mapError .error
  return (entry, s)

/-- Removes an entry together with its results. -/
def deleteEntry (s : Store) (name : String) : Except Error Store := do
  let entries ← s.entryTable
  let _ ← s.entryRow name
  let results ← s.resultTable
  return {
    entries := some (entries.filter (·.name != name))
    results := some (results.filter (·.key.entryName != name))
    resultNumbers := s.resultNumbers.restrict (·.entryName != name) }

/-- All entries by name. -/
def listEntries (s : Store) : Except Error (List Entry) := do
  let table ← s.entryTable
  table.rows.mapM EntryRow.read

/-- The newest results of an entry, newest first. -/
def listResults (s : Store) (name : String) (limit : Nat) : Except Error (List TaskResult) := do
  let table ← s.resultTable
  (limitRows limit (resultsOf table name)).mapM ResultRow.read

def getResult (s : Store) (name : String) (taskId : TaskId) :
    Except Error (Option TaskResult) := do
  let table ← s.resultTable
  match table.find? ⟨name, taskId⟩ with
  | some row => some <$> row.read
  | none => return none

end Store

end TickScheduler
