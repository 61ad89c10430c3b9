import TickScheduler.Engine.Finalisation
import TickScheduler.Entry
import TickScheduler.Monitor
import TickScheduler.Settings
/-!
What the scheduling loop asks of its surroundings. Each request is one atomic step: between two of
them anything may happen, to the store, to the clock and to the monitor.
-/
namespace TickScheduler

/-- What became of the call of an action. -/
inductive Outcome where
  /-- No action of this name is registered. -/
  | unknown
  | returned (detail : Option String)
  /-- The action reported an error: its text, outermost context first. -/
  | failed (chain : List String)
  /-- The action broke off, with a message if there is one. -/
  | panicked (message : Option String)
deriving DecidableEq, Repr

namespace Outcome

/-- The text of an action that broke off. -/
def panicText (message : Option String) : String :=
  "action panicked: " ++ message.getD "unknown panic payload"

/-- The status and the detail that an outcome gives the task. -/
def verdict (action : String) : Outcome → TaskStatus × String
  | .unknown => (.failure, (Error.unknownAction action).message)
  | .returned detail => (.success, detail.getD "")
  | .failed chain => (.failure, String.intercalate ": " chain)
  | .panicked message => (.failure, panicText message)

end Outcome

inductive Request where
  /-- Reads the clock. -/
  | now
  /-- Reads the time of day, for results. -/
  | timestamp
  | activeEntries
  | entry (name : String)
  | saveCursor (entry : Entry)
  | lastTaskId (name : String)
  /-- Writes or reports a result. -/
  | final (request : FinalRequest)
  /-- Calls the action of a task, which is told the names of entry and task. -/
  | call (task : Task) (taskId : TaskId)
  /-- Lets work in the background go on. -/
  | pause
  /-- Sleeps until it is time to look at the clock again. -/
  | sleep
  /-- Starts a finalisation in the background. -/
  | spawn (job : Finalisation)
  /-- Waits for all work in the background. -/
  | drain
  | beginPass
  | setIdle
  | publish (upcoming : TaskQueue)
  | stop
  | stopRequested
  /-- Counts an outcome and returns the length of the current row of failures. -/
  | countOutcome (failed : Bool)
  | removeHealthFile
  | touchHealthFile

/-- The kind of answer that a request gets. -/
abbrev Request.Answer : Request → Type
  | .now => Tick
  | .timestamp => Timestamp
  | .activeEntries => Except Error (List Entry)
  | .entry _ => Except Error Entry
  | .saveCursor _ => Except Error Unit
  | .lastTaskId _ => Except Error (Option TaskId)
  | .final r => r.Answer
  | .call _ _ => Outcome
  | .sleep => Except Failure Unit
  | .stopRequested => Bool
  | .countOutcome _ => Nat
  | .pause | .spawn _ | .drain | .beginPass | .setIdle | .publish _ | .stop
  | .removeHealthFile | .touchHealthFile => Unit

/-- A part of the loop: a dialogue that ends with a result or a failure. -/
abbrev Engine (Result : Type) : Type :=
  ExceptT Failure (Program Request Request.Answer) Result

namespace Engine

/-- Asks a request that always succeeds. -/
def ask (r : Request) : Engine r.Answer :=
  ExceptT.lift (.request r)

/-- Goes on with a result that is already there. -/
def ofExcept {Result : Type} (result : Except Failure Result) : Engine Result :=
  ExceptT.mk (.done result)

/-- Turns an answer that may be an error into a result. -/
def check {Result : Type} (answer : Except Error Result) : Engine Result :=
  ofExcept (answer.mapError .error)

def activeEntries : Engine (List Entry) := do check (← ask .activeEntries)

def entry (name : String) : Engine Entry := do check (← ask (.entry name))

def saveCursor (e : Entry) : Engine Unit := do check (← ask (.saveCursor e))

def lastTaskId (name : String) : Engine (Option TaskId) := do check (← ask (.lastTaskId name))

def record (result : TaskResult) (keep : Nat) : Engine Unit := do
  check (← ask (.final (.record result keep)))

/-- Finalises a task at once. -/
def finalise (job : Finalisation) : Engine Unit :=
  ExceptT.mk ((job.program.embed .final fun _ => id).bind fun result =>
    .done (result.mapError .error))

end Engine

end TickScheduler
