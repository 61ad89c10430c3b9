import TickScheduler.Entry
import TickScheduler.TaskResult
/-!
Rows as they are stored. A column may hold a value that the program itself would never write there,
so reading a row back can fail.
-/
namespace TickScheduler

/-- A stored entry. -/
structure EntryRow where
  name : String
  action : String
  priority : Int64
  start : Tick
  stop : Option Tick
  interval : Option Tick
  /-- Set if it is not zero, but only a one makes the entry active. -/
  activeFlag : Int64
  callbackUrl : Option String
  nextTaskTime : Tick
  nextTaskId : TaskId
  owner : Option String
  createdAt : String
  modifiedAt : String
deriving DecidableEq, Repr

namespace EntryRow

def flag (isActive : Bool) : Int64 := if isActive then 1 else 0

/-- The row of an entry. -/
def ofEntry (e : Entry) : EntryRow where
  name := e.name
  action := e.action
  priority := e.priority.toInt64
  start := e.start
  stop := e.stop
  interval := e.interval
  activeFlag := flag e.isActive
  callbackUrl := e.callbackUrl
  nextTaskTime := e.nextTaskTime
  nextTaskId := e.nextTaskId
  owner := e.owner
  createdAt := e.createdAt
  modifiedAt := e.modifiedAt

/-- The entry of a row with a priority that fits its 32 bits. -/
def toEntry (row : EntryRow) : Entry where
  name := row.name
  action := row.action
  priority := row.priority.toInt32
  start := row.start
  stop := row.stop
  interval := row.interval
  isActive := row.activeFlag != 0
  callbackUrl := row.callbackUrl
  nextTaskTime := row.nextTaskTime
  nextTaskId := row.nextTaskId
  owner := row.owner
  createdAt := row.createdAt
  modifiedAt := row.modifiedAt

/-- Reads a row. -/
def read (row : EntryRow) : Except Error Entry :=
  if row.priority.toInt32.toInt64 = row.priority then .ok row.toEntry
  else .error (.database (.priority row.priority))

/-- The row with the cursor of `e`. If the row is another version of the entry than `e` was read
from, only its task id moves, and only forward. A row that is not active stays so. -/
def withCursor (row : EntryRow) (e : Entry) : EntryRow :=
  if row.modifiedAt = e.modifiedAt then
    { row with
      nextTaskTime := e.nextTaskTime
      nextTaskId := e.nextTaskId
      activeFlag := flag (row.activeFlag != 0 && e.isActive) }
  else { row with nextTaskId := max row.nextTaskId e.nextTaskId }

/-- The row with all that an update may change; the next task id and the date of creation stay. -/
def withUpdate (row : EntryRow) (e : Entry) : EntryRow :=
  { row with
    action := e.action
    priority := e.priority.toInt64
    start := e.start
    stop := e.stop
    interval := e.interval
    activeFlag := flag e.isActive
    callbackUrl := e.callbackUrl
    nextTaskTime := e.nextTaskTime
    owner := e.owner
    modifiedAt := e.modifiedAt }

/-- The row of an entry that takes no further part. -/
def deactivated (row : EntryRow) (modifiedAt : String) : EntryRow :=
  { row with activeFlag := 0, modifiedAt }

theorem name_withCursor (row : EntryRow) (e : Entry) : (row.withCursor e).name = row.name := by
  unfold withCursor
  split <;> rfl

end EntryRow

/-- What tells one stored result from another. -/
structure ResultKey where
  entryName : String
  taskId : TaskId
deriving DecidableEq, Repr

namespace ResultKey

/-- By entry, and by id within one entry. -/
def order : ResultKey → ResultKey → Ordering :=
  compareLex (compareOn entryName) (compareOn taskId)

instance : Ord ResultKey := ⟨order⟩

instance : Std.TransOrd ResultKey :=
  inferInstanceAs (Std.TransCmp (compareLex _ _))

instance : Std.LawfulEqOrd ResultKey where
  eq_of_compare {a b} h := by
    have h : order a b = .eq := h
    simp only [order, compareLex_eq_eq, compareOn, Std.compare_eq_iff_eq] at h
    cases a
    cases b
    simp_all

end ResultKey

/-- A stored result. -/
structure ResultRow where
  key : ResultKey
  started : String
  finished : String
  duration : Float
  status : String
  detail : String
deriving Repr

namespace ResultRow

/-- The row of a result. -/
def ofResult (r : TaskResult) : ResultRow where
  key := ⟨r.entryName, r.taskId⟩
  started := r.started.storedText
  finished := r.finished.storedText
  duration := r.duration
  status := r.status.name
  detail := r.detail

/-- Reads a stored timestamp. -/
def readTime (column : TimeColumn) (text : String) : Except Error Timestamp :=
  match Timestamp.ofStored text with
  | .ok t => .ok t
  | .error reason => .error (.database (.time column reason))

/-- Reads a stored status. -/
def readStatus (text : String) : Except Error TaskStatus :=
  match TaskStatus.ofName? text with
  | some status => .ok status
  | none => .error (.database (.status text))

/-- Reads a row: its start, its end and its status, of which the first fault is reported. -/
def read (row : ResultRow) : Except Error TaskResult := do
  let started ← readTime .started row.started
  let finished ← readTime .finished row.finished
  let status ← readStatus row.status
  return ⟨row.key.entryName, row.key.taskId, started, finished, row.duration, status, row.detail⟩

end ResultRow

end TickScheduler
