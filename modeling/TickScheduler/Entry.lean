import TickScheduler.Error
import TickScheduler.Task
import TickScheduler.TickRange
/-!
Schedule entries: named jobs that tasks are made of. Next to its configuration an entry carries a
cursor, the part that the scheduler owns: the earliest tick not yet consumed, the id of the next
task, and whether the entry still takes part at all. Ticks are consumed only by moving the cursor.
-/
namespace TickScheduler

structure Entry where
  /-- Unique among entries, and part of addresses. -/
  name : String
  action : String
  /-- A lower value runs first among tasks of one tick. -/
  priority : Int32
  /-- The first tick. -/
  start : Tick
  /-- The first tick that is too late; `none` if there is none. -/
  stop : Option Tick
  /-- Ticks from one task to the next; `none` for an entry that runs once. -/
  interval : Option Tick
  isActive : Bool
  /-- Where the result of every task is sent to. -/
  callbackUrl : Option String
  /-- The earliest tick not yet consumed. -/
  nextTaskTime : Tick
  /-- The id of the next task. -/
  nextTaskId : TaskId
  owner : Option String
  /-- When the entry was created, as text. -/
  createdAt : String
  /-- When its configuration last changed, as text: it also tells one version from another. -/
  modifiedAt : String
deriving DecidableEq, Repr

namespace Entry

/-- The earlier of the bounds that are given. -/
def bound (a b : Option Tick) : Option Tick :=
  match a, b with
  | some a, some b => some (min a b)
  | some a, none => some a
  | none, b => b

/-- The ticks that an entry has yet to run, before `horizon` if that is given. A recurring entry
steps by its interval; one that runs once has the tick of its cursor and, because its step spans all
that is left, no other. An entry that is not active, or whose interval is not positive, has none. -/
def remainingTimes (e : Entry) (horizon : Option Tick) : TickRange :=
  if !e.isActive then .empty
  else if e.interval.any (·.toInt < 1) then .empty
  else
    match bound horizon e.stop, e.interval with
    | none, some interval => .unbounded e.nextTaskTime interval
    | none, none => .once e.nextTaskTime
    | some stop, some interval => .range e.nextTaskTime stop interval
    | some stop, none =>
      .range e.nextTaskTime stop (Tick.absClamped (stop.subClamped e.nextTaskTime))

/-- Takes the ticks before `horizon` off an entry. The cursor of a recurring entry moves one
interval past the last of them; an entry that runs once becomes inactive with its tick. -/
def takeUntil (e : Entry) (horizon : Tick) : TickRange × Entry :=
  let times := e.remainingTimes (some horizon)
  match times.last? with
  | none => (times, e)
  | some last =>
    match e.interval with
    | some interval => (times, { e with nextTaskTime := last.addClamped interval })
    | none => (times, { e with isActive := false })

/-- Takes every tick up to and including `now` off an entry. -/
def takePending (e : Entry) (now : Tick) : Except Failure (TickRange × Entry) :=
  match Tick.succ? now with
  | some horizon => .ok (e.takeUntil horizon)
  | none => .error .overflow

/-- Whether the tick of the cursor is still to come. -/
def hasRemainingTimes (e : Entry) : Bool :=
  (e.remainingTimes none).contains e.nextTaskTime

/-- Hands out the id of the next task. -/
def takeTaskId (e : Entry) : Except Failure (TaskId × Entry) :=
  match Tick.succ? e.nextTaskId with
  | some next => .ok (e.nextTaskId, { e with nextTaskId := next })
  | none => .error .overflow

/-- The earliest tick that an entry created or rescheduled at `now` may run at. -/
def earliestTick (now : Tick) : Except Failure Tick :=
  match Tick.succ? now with
  | some tick => .ok tick
  | none => .error .overflow

/-- The cursor after an update. A change of start or interval starts the series over, and never in
the past. -/
def updatedTaskTime (e updated : Entry) (now : Tick) : Except Failure Tick :=
  if updated.start = e.start ∧ updated.interval = e.interval then .ok e.nextTaskTime
  else (earliestTick now).map (max updated.start)

/-- The configuration of `updated` on the cursor of `e`; whether the entry is active counts as
configuration here. -/
def applyUpdate (e updated : Entry) (now : Tick) (modifiedAt : String) : Except Failure Entry :=
  (updatedTaskTime e updated now).map fun nextTaskTime =>
    { e with
      nextTaskTime, modifiedAt
      action := updated.action
      priority := updated.priority
      start := updated.start
      stop := updated.stop
      interval := updated.interval
      isActive := updated.isActive
      callbackUrl := updated.callbackUrl
      owner := updated.owner }

/-- Refuses an interval that is not positive, then a stop that does not come after the start. -/
def checkTiming (start : Tick) (stop interval : Option Tick) : Except Failure Unit :=
  match interval.filter (·.toInt < 1), stop.filter (· ≤ start) with
  | some interval, _ => .error (.refused (.badInterval interval))
  | none, some stop => .error (.refused (.badStop stop start))
  | none, none => .ok ()

end Entry

end TickScheduler
