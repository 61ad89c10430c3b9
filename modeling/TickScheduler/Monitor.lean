import TickScheduler.Status
import TickScheduler.TaskQueue
/-!
The monitor: what the scheduling loop shares with those who watch it. Anyone may ask the loop to stop
at any time; only the loop changes the rest.
-/
namespace TickScheduler

structure Monitor where
  status : LoopStatus := .idle
  /-- Announced tasks, replaced by every pass. They are never executed from here. -/
  upcoming : TaskQueue := .empty
  stopRequested : Bool := false
  /-- How many of the latest tasks failed in a row. -/
  failures : Nat := 0
deriving DecidableEq, Repr, Inhabited

namespace Monitor

/-- A pass begins; a loop that is stopping keeps saying so. -/
def beginPass (m : Monitor) : Monitor :=
  if m.status = .stopping then m else { m with status := .running }

def setIdle (m : Monitor) : Monitor :=
  { m with status := .idle }

def publish (m : Monitor) (upcoming : TaskQueue) : Monitor :=
  { m with upcoming }

/-- Asks the loop to stop after the pass that it is in. -/
def stop (m : Monitor) : Monitor :=
  { m with
    stopRequested := true
    status := if m.status = .running then .stopping else m.status }

/-- Counts the outcome of a task; a success ends the row of failures. -/
def countOutcome (m : Monitor) (failed : Bool) : Monitor :=
  { m with failures := if failed then m.failures + 1 else 0 }

/-- The first announced tasks. -/
def upcomingTasks (m : Monitor) (limit : Nat) : List Task :=
  m.upcoming.toList.take limit

end Monitor

end TickScheduler
