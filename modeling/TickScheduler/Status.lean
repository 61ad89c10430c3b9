/-!
The states of a task's result and of the scheduling loop, with their names.
-/
namespace TickScheduler

/-- What is known of one task. -/
inductive TaskStatus where
  /-- Written before the action is called, so that there is a result meanwhile. -/
  | inProgress
  | success
  | failure
  /-- The action succeeded, but its callback was not delivered. -/
  | notificationFailed
deriving DecidableEq, Repr

namespace TaskStatus

def name : TaskStatus → String
  | .inProgress => "in-progress"
  | .success => "success"
  | .failure => "failure"
  | .notificationFailed => "notification_failed"

def all : List TaskStatus := [.inProgress, .success, .failure, .notificationFailed]

/-- The status of this name. -/
def ofName? (text : String) : Option TaskStatus :=
  all.find? fun status => status.name == text

/-- What is said of a text that names no status. -/
def unknownMessage (text : String) : String :=
  "unknown task status: " ++ text

theorem ofName?_name (status : TaskStatus) : ofName? status.name = some status := by
  cases status <;> decide

end TaskStatus

/-- Where the scheduling loop is. -/
inductive LoopStatus where
  /-- Between passes, or nothing left to do. -/
  | idle
  /-- In a pass. -/
  | running
  /-- In a pass that was asked to be the last one. -/
  | stopping
deriving DecidableEq, Repr

namespace LoopStatus

def name : LoopStatus → String
  | .idle => "idle"
  | .running => "running"
  | .stopping => "stopping"

def all : List LoopStatus := [.idle, .running, .stopping]

/-- The status of this name. -/
def ofName? (text : String) : Option LoopStatus :=
  all.find? fun status => status.name == text

theorem ofName?_name (status : LoopStatus) : ofName? status.name = some status := by
  cases status <;> decide

end LoopStatus

end TickScheduler
