import TickScheduler.Engine.Request
/-!
One pass of the scheduling loop. Every active entry gives up the ticks that are due, of which only
the latest becomes a task, and its cursor is stored. What is still to come within the lookahead is
announced. Then the tasks run in their order, unless too many failures in a row cut the pass short.
-/
namespace TickScheduler

/-- What a loop needs to know beside its settings. -/
structure LoopSetup where
  settings : LoopSettings := {}
  callback : CallbackSettings := {}
  /-- Whether there is anyone to report results. -/
  hasNotifier : Bool := false
deriving Repr

namespace Entry

/-- The task of a consumed tick. -/
def taskAt (e : Entry) (time : Tick) (taskId : Option TaskId) : Task :=
  ⟨time, e.priority, e.action, e.name, taskId⟩

/-- The entry, inactive if no tick of it is left. -/
def retire (e : Entry) : Entry :=
  if e.hasRemainingTimes then e else { e with isActive := false }

/-- Takes the ticks that are due at `now` off an entry. The latest of them makes a task with the next
id; those before it are dropped. -/
def consume (e : Entry) (now : Tick) : Except Failure (Option Task × Entry) := do
  let (times, e) ← e.takePending now
  let e := e.retire
  match times.last? with
  | none => return (none, e)
  | some time =>
    let (taskId, e) ← e.takeTaskId
    return (some (e.taskAt time (some taskId)), e)

/-- The tasks of an entry before a tick, without ids. -/
def announced (e : Entry) (horizon : Tick) : List Task :=
  (e.remainingTimes (some horizon)).ticks.map fun time => e.taskAt time none

end Entry

namespace Pass

/-- The shortest positive interval of some entries; 1 if there is none. -/
def shortestInterval (entries : List Entry) : Tick :=
  ((entries.filterMap (·.interval)).filter (0 < ·)).min?.getD 1

/-- The tick that the announced tasks lie before. -/
def horizon (entries : List Entry) (now lookahead : Tick) : Tick :=
  now.addClamped (Tick.mulClamped (shortestInterval entries) lookahead)

/-- The tasks of some entries that are announced at `now`. -/
def announced (entries : List Entry) (now lookahead : Tick) : TaskQueue :=
  .ofList (entries.flatMap (·.announced (horizon entries now lookahead)))

/-- Consumes what is due of each entry and stores its cursor, one entry after the other. Returns the
tasks and the entries as they are now. -/
def collect : List Entry → Engine (List Task × List Entry)
  | [] => pure ([], [])
  | e :: rest => do
    let now ← Engine.ask .now
    let (task, e) ← Engine.ofExcept (e.consume now)
    Engine.saveCursor e
    let (tasks, rest) ← collect rest
    return (task.toList ++ tasks, e :: rest)

/-- The first characters of a text. -/
def truncate (text : String) (length : Nat) : String :=
  String.ofList (text.toList.take length)

/-- Runs one task, if its entry still exists, and returns how its action ended. -/
def runTask (setup : LoopSetup) (task : Task) : Engine (Option TaskStatus) := do
  match task.taskId with
  | none =>
    Engine.check (.error (.internal ("pending task for " ++ task.entryName ++ " has no task id")))
  | some taskId =>
    match ← Engine.ask (.entry task.entryName) with
    | .error (.entryNotFound _) => return none
    | .error e => Engine.check (.error e)
    | .ok entry =>
      let keep := setup.settings.maxTaskResults
      let started ← Engine.ask .timestamp
      let result := TaskResult.inProgress entry.name taskId started
      Engine.record result keep
      let outcome ← Engine.ask (.call task taskId)
      let (status, detail) := outcome.verdict task.action
      let finished ← Engine.ask .timestamp
      let result := result.finish finished status (truncate detail setup.settings.maxDetailLen)
      Engine.ask .pause
      let job : Finalisation := {
        result, keep
        receiver := if setup.hasNotifier then entry.callbackUrl else none
        baseUrl := setup.callback.resultBaseUrl }
      if setup.callback.asynchronous then Engine.ask (.spawn job)
      else Engine.finalise job
      return some status

/-- Whether a row of failures is too long. -/
def trips (limit : Option Nat) (failures : Nat) : Bool :=
  limit.any (· ≤ failures)

/-- Runs tasks in their order until none is left or the failures in a row are too many. -/
def runTasks (setup : LoopSetup) : List Task → Engine Unit
  | [] => pure ()
  | task :: rest => do
    match ← runTask setup task with
    | none => runTasks setup rest
    | some status =>
      let failures ← Engine.ask (.countOutcome (status == .failure))
      if trips setup.settings.maxConsecutiveFailures failures then Engine.ask .stop
      else runTasks setup rest

/-- A pass over the entries that were active at its beginning. Without any there is nothing to announce
and nothing to do. -/
def passOver (setup : LoopSetup) : List Entry → Engine Unit
  | [] => do
    Engine.ask (.publish .empty)
    Engine.ask .setIdle
  | entries => do
    Engine.ask .beginPass
    let (tasks, entries) ← collect entries
    let now ← Engine.ask .now
    Engine.ask (.publish (announced entries now setup.settings.lookaheadMultiplier))
    runTasks setup (TaskQueue.ofList tasks).toList

/-- One pass. -/
def pass (setup : LoopSetup) : Engine Unit := do
  passOver setup (← Engine.activeEntries)

/-- One pass on its own. The loop is idle after it, unless it failed. -/
def runOnce (setup : LoopSetup) : Engine Unit := do
  pass setup
  Engine.ask .setIdle

end Pass

end TickScheduler
