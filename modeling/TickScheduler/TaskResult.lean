import TickScheduler.Status
import TickScheduler.Task
import TickScheduler.Timestamp
/-!
The result of a task: written once before its action is called, and again when the outcome is known.
-/
namespace TickScheduler

structure TaskResult where
  entryName : String
  taskId : TaskId
  started : Timestamp
  finished : Timestamp
  /-- Seconds from start to finish. -/
  duration : Float
  status : TaskStatus
  /-- What the action returned, or the text of its error. -/
  detail : String

namespace TaskResult

/-- The result of a task that has only been started. -/
def inProgress (entryName : String) (taskId : TaskId) (started : Timestamp) : TaskResult :=
  ⟨entryName, taskId, started, started, 0, .inProgress, ""⟩

/-- The same result with its outcome. -/
def finish (r : TaskResult) (finished : Timestamp) (status : TaskStatus) (detail : String) :
    TaskResult :=
  { r with finished, status, detail, duration := finished.secondsSince r.started }

end TaskResult

/-- What a callback receiver is sent about a result. -/
structure Payload where
  /-- Where the result can be fetched. -/
  url : String
  /-- Where the entry can be fetched. -/
  entryUrl : String
  taskId : TaskId
  started : String
  finished : String
  duration : Float
  status : TaskStatus
  detail : String

namespace Payload

/-- The base address without the slashes that it ends in. -/
def trimBase (base : String) : String :=
  String.ofList (base.toList.reverse.dropWhile (· == '/')).reverse

/-- The payload of a result whose addresses start with `base`. -/
def ofResult (r : TaskResult) (base : String) : Payload where
  url := trimBase base ++ "/tasks/completed/" ++ r.entryName ++ "/" ++ toString r.taskId
  entryUrl := trimBase base ++ "/schedule/" ++ r.entryName
  taskId := r.taskId
  started := r.started.millisText
  finished := r.finished.millisText
  duration := r.duration
  status := r.status
  detail := r.detail

end Payload

end TickScheduler
