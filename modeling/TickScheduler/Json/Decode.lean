import TickScheduler.Entry.Draft
import TickScheduler.Json.Value
import TickScheduler.Record
import TickScheduler.TaskResult
import TickScheduler.Timestamp.Reader
/-!
Reading the types of this library from JSON values. A state is its name, alone or as the one member
of an object that is null; records may be written as arrays of all their fields, of which only those
with a default may be cut off.
-/
namespace TickScheduler

namespace Json

def toBool? : Json → Option Bool
  | .bool b => some b
  | _ => none

def toText? : Json → Option String
  | .string s => some s
  | _ => none

def toInt? : Json → Option Int
  | .number n => n.toInt?
  | _ => none

/-- The slots of a record with these fields. -/
def slots (fields : List String) : Json → Option (List (Record.Slot Json))
  | .object members => Record.ofMembers fields members
  | .array items =>
    if items.length ≤ fields.length then some (Record.ofItems fields items) else none
  | _ => none

def isNull : Json → Bool
  | .null => true
  | _ => false

instance : Record.Format Json where
  slots := slots
  toBool? := toBool?
  toText? := toText?
  toInt? := toInt?
  isNull := isNull

def toFloat? : Json → Option Float
  | .number n =>
    match n.toInt?.filter fun i => Int64.minValue.toInt ≤ i && i < UInt64.size with
    | some i => some (Float.ofInt i)
    | none => n.toFloat?
  | _ => none

def toTimestamp? (j : Json) : Option Timestamp :=
  j.toText?.bind fun text => (Timestamp.ofLenient text).toOption

/-- A name, alone or as the only member of an object, which is then null. -/
def toName? : Json → Option String
  | .string s => some s
  | .object [(some key, .null)] => some key
  | _ => none

end Json

open Record Record.Slot Json

def TaskStatus.ofJson? (j : Json) : Option TaskStatus :=
  j.toName?.bind TaskStatus.ofName?

def LoopStatus.ofJson? (j : Json) : Option LoopStatus :=
  j.toName?.bind LoopStatus.ofName?

def Entry.fields : List String :=
  ["name", "action", "priority", "start", "stop", "interval", "is_active", "callback_url",
    "next_task_time", "next_task_id", "owner", "created_at", "modified_at"]

def Entry.ofJson? (j : Json) : Option Entry := do
  match ← j.slots Entry.fields with
  | [name, action, priority, start, stop, interval, isActive, callbackUrl, nextTaskTime,
      nextTaskId, owner, createdAt, modifiedAt] =>
    return {
      name := ← name.required toText?
      action := ← action.required toText?
      priority := ← priority.required toPriority?
      start := ← start.required toTick?
      stop := ← stop.optional (orNull toTick?)
      interval := ← interval.optional (orNull toTick?)
      isActive := ← isActive.required toBool?
      callbackUrl := ← callbackUrl.optional (orNull toText?)
      nextTaskTime := ← nextTaskTime.required toTick?
      nextTaskId := ← nextTaskId.required toTick?
      owner := ← owner.optional (orNull toText?)
      createdAt := ← createdAt.required toText?
      modifiedAt := ← modifiedAt.required toText? }
  | _ => none

def Draft.fields : List String :=
  ["name", "action", "priority", "start", "stop", "stop_is_relative", "interval",
    "callback_url", "owner"]

def Draft.ofJson? (j : Json) : Option Draft := do
  match ← j.slots Draft.fields with
  | [name, action, priority, start, stop, stopIsRelative, interval, callbackUrl, owner] =>
    return {
      name := ← name.required toText?
      action := ← action.required toText?
      priority := ← priority.withDefault none (orNull toPriority?)
      start := ← start.withDefault none (orNull toTick?)
      stop := ← stop.withDefault none (orNull toTick?)
      stopIsRelative := ← stopIsRelative.withDefault false toBool?
      interval := ← interval.withDefault none (orNull toTick?)
      callbackUrl := ← callbackUrl.withDefault none (orNull toText?)
      owner := ← owner.withDefault none (orNull toText?) }
  | _ => none

def Task.fields : List String :=
  ["time", "priority", "action", "schedule_entry_name", "task_id"]

def Task.ofJson? (j : Json) : Option Task := do
  match ← j.slots Task.fields with
  | [time, priority, action, entryName, taskId] =>
    return {
      time := ← time.required toTick?
      priority := ← priority.required toPriority?
      action := ← action.required toText?
      entryName := ← entryName.required toText?
      taskId := ← taskId.optional (orNull toTick?) }
  | _ => none

def TaskResult.fields : List String :=
  ["schedule_entry", "task_id", "started", "finished", "duration", "status", "detail"]

def TaskResult.ofJson? (j : Json) : Option TaskResult := do
  match ← j.slots TaskResult.fields with
  | [entryName, taskId, started, finished, duration, status, detail] =>
    return {
      entryName := ← entryName.required toText?
      taskId := ← taskId.required toTick?
      started := ← started.required toTimestamp?
      finished := ← finished.required toTimestamp?
      duration := ← duration.required toFloat?
      status := ← status.required TaskStatus.ofJson?
      detail := ← detail.required toText? }
  | _ => none

def Payload.fields : List String :=
  ["url", "schedule_entry", "task_id", "started", "finished", "duration", "result", "detail"]

def Payload.ofJson? (j : Json) : Option Payload := do
  match ← j.slots Payload.fields with
  | [url, entryUrl, taskId, started, finished, duration, status, detail] =>
    return {
      url := ← url.required toText?
      entryUrl := ← entryUrl.required toText?
      taskId := ← taskId.required toTick?
      started := ← started.required toText?
      finished := ← finished.required toText?
      duration := ← duration.required toFloat?
      status := ← status.required TaskStatus.ofJson?
      detail := ← detail.required toText? }
  | _ => none

end TickScheduler
