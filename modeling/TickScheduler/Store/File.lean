import TickScheduler.Json.Decode
import TickScheduler.Json.Printer
import TickScheduler.Json.Reader
import TickScheduler.Store
/-!
The text of a store: its two tables as a JSON object, row by row with all their columns, and the
numbers of the results. Durations are written as the bits of the number, so that nothing is lost.
-/
namespace TickScheduler

open Record Record.Slot Json

/-! ### Rows -/

def EntryRow.toJson (row : EntryRow) : Json :=
  .record [
    ("name", .string row.name),
    ("action", .string row.action),
    ("priority", .int row.priority.toInt),
    ("start", .int row.start.toInt),
    ("stop", .optional (.int ·.toInt) row.stop),
    ("interval", .optional (.int ·.toInt) row.interval),
    ("is_active", .int row.activeFlag.toInt),
    ("callback_url", .optional .string row.callbackUrl),
    ("next_task_time", .int row.nextTaskTime.toInt),
    ("next_task_id", .int row.nextTaskId.toInt),
    ("owner", .optional .string row.owner),
    ("created_at", .string row.createdAt),
    ("modified_at", .string row.modifiedAt)]

def EntryRow.ofJson? (j : Json) : Option EntryRow := do
  match ← j.slots Entry.fields with
  | [name, action, priority, start, stop, interval, isActive, callbackUrl, nextTaskTime,
      nextTaskId, owner, createdAt, modifiedAt] =>
    return {
      name := ← name.required Json.toText?
      action := ← action.required Json.toText?
      priority := ← priority.required toTick?
      start := ← start.required toTick?
      stop := ← stop.required (orNull toTick?)
      interval := ← interval.required (orNull toTick?)
      activeFlag := ← isActive.required toTick?
      callbackUrl := ← callbackUrl.required (orNull Json.toText?)
      nextTaskTime := ← nextTaskTime.required toTick?
      nextTaskId := ← nextTaskId.required toTick?
      owner := ← owner.required (orNull Json.toText?)
      createdAt := ← createdAt.required Json.toText?
      modifiedAt := ← modifiedAt.required Json.toText? }
  | _ => none

def ResultRow.toJson (row : ResultRow) : Json :=
  .record [
    ("schedule_entry", .string row.key.entryName),
    ("task_id", .int row.key.taskId.toInt),
    ("started", .string row.started),
    ("finished", .string row.finished),
    ("duration", .nat row.duration.toBits.toNat),
    ("status", .string row.status),
    ("detail", .string row.detail)]

def ResultRow.ofJson? (j : Json) : Option ResultRow := do
  match ← j.slots TaskResult.fields with
  | [entryName, taskId, started, finished, duration, status, detail] =>
    return {
      key := ⟨← entryName.required Json.toText?, ← taskId.required toTick?⟩
      started := ← started.required Json.toText?
      finished := ← finished.required Json.toText?
      duration := Float.ofBits (← duration.required (toCount? UInt64.size)).toUInt64
      status := ← status.required Json.toText?
      detail := ← detail.required Json.toText? }
  | _ => none

/-! ### Numbers -/

def Numbering.fields : List String := ["numbers", "last"]

/-- The numbers of results, each with the key of its row. -/
def Numbering.toJson (n : Numbering ResultKey) : Json :=
  .record [
    ("numbers", .array (n.numbers.map fun (key, i) =>
      .array [.string key.entryName, .int key.taskId.toInt, .int i])),
    ("last", .int n.last)]

def Numbering.numbersOfJson? : Json → Option (List (ResultKey × Int))
  | .array rows => rows.mapM fun
    | .array [name, taskId, i] => do
      return (⟨← name.toText?, ← toTick? taskId⟩, ← i.toInt?)
    | _ => none
  | _ => none

def Numbering.ofJson? (j : Json) : Option (Numbering ResultKey) := do
  match ← j.slots Numbering.fields with
  | [numbers, last] =>
    return {
      numbers := ← numbers.required Numbering.numbersOfJson?
      last := ← last.required Json.toInt? }
  | _ => none

/-! ### Tables -/

namespace Store

/-- The rows of a table; null if the table is gone. -/
def tableJson {Row Key : Type} [Ord Key] {key : Row → Key} (rowJson : Row → Json)
    (table : Option (Table Row key)) : Json :=
  .optional (fun table : Table Row key => .array (table.rows.map rowJson)) table

/-- Reads the rows of a table. -/
def tableOfJson? {Row Key : Type} [Ord Key] [Std.TransOrd Key] [Std.LawfulEqOrd Key]
    {key : Row → Key} (read : Json → Option Row) : Json → Option (Option (Table Row key))
  | .null => some none
  | .array items => do
    let rows ← items.mapM read
    return some (rows.foldl Table.put .empty)
  | _ => none

/-- The member that holds the numbers of the results. -/
def resultNumbersName : String := "task_result_numbers"

def text (s : Store) : String :=
  (Json.record [
    (entryTableName, tableJson EntryRow.toJson s.entries),
    (resultTableName, tableJson ResultRow.toJson s.results),
    (resultNumbersName, s.resultNumbers.toJson)]).text

/-- Reads a store back. A text without any character is a new store. -/
def ofText? (text : String) : Option Store := do
  if text.isEmpty then return .empty
  match ← (← Json.parse? text).slots [entryTableName, resultTableName, resultNumbersName] with
  | [entries, results, resultNumbers] =>
    return {
      entries := ← entries.required (tableOfJson? EntryRow.ofJson?)
      results := ← results.required (tableOfJson? ResultRow.ofJson?)
      resultNumbers := ← resultNumbers.required Numbering.ofJson? }
  | _ => none

end Store

end TickScheduler
